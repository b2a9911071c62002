import Mathlib.Data.List.Nodup
import Voce.Engine.OutputPackets

/-! # Owners of output packets

A step hands a packet from one owner to the next, takes one out of the pool or puts
one back. The packets that the calls and the channel own are therefore apart from
those in the pool, and a packet that nobody owns any more was released.
-/

namespace Voce.Engine

open Custody Interleaving List Option Config Channel

/-! ## Owners -/

def EgressCall.held (weight : Reference PacketRef → Nat) : EgressCall → Nat
  | .write (.checkState r) | .write (.checkContext r) | .write (.select r) | .write (.release r)
  | .write (.recovered r) | .read (.release r) => weight r
  | .write .returned | .read .receive | .read .finished => 0

@[simp]
def EgressStop.held (weight : Reference PacketRef → Nat) : EgressStop → Nat
  | .release r => weight r
  | .swap | .cancel | .stopNodes | .closeOutput | .drain | .returned | .skipped => 0

namespace Egress

/-- What the channel and the `Stop` call own. -/
def held (s : Egress) : Holdings PacketRef := fun weight =>
  (s.output.items.map weight).sum + s.stop.held weight

/-- How often a packet is in the pool or with another user of the pool. -/
def stock (s : Egress) (p : PacketRef) : Nat := s.pool.count p + s.borrowed.count p

def made (s : Egress) (p : PacketRef) : Nat := PooledStore.made s.allocated p

/-- What one step does to the packets, given what the calls that take part in it own
before and after. -/
structure Effect (s t : Egress) (before after : Holdings PacketRef) : Prop where
  flow : ∃ flow : Flow PacketRef, flow.Carries before after ∧ flow.Records s.ledger t.ledger
  circulating : ∀ p, t.stock p + after (pointing p) + s.made p ≤
    s.stock p + before (pointing p) + t.made p

variable {s t : Egress} {before after : Holdings PacketRef}

/-- What the other calls own makes no difference to a step. -/
theorem Effect.frame (heffect : Effect s t before after) {whole whole'}
    (hframe : ∀ weight, whole' weight + before weight = whole weight + after weight) :
    Effect s t whole whole' := by
  obtain ⟨⟨flow, hcarries, hrecords⟩, hcirculating⟩ := heffect
  refine ⟨⟨flow, hcarries.frame hframe, hrecords⟩, ?_⟩
  intro p
  have hp := hcirculating p
  have hwhole := hframe (pointing p)
  omega

/-- A step that hands packets on and leaves the pool alone. -/
theorem Effect.of_move (hheld : ∀ weight, after weight = before weight)
    (hsame : (t.ledger, t.pool, t.borrowed, t.allocated) =
      (s.ledger, s.pool, s.borrowed, s.allocated)) : Effect s t before after := by
  obtain ⟨hledger, hpool, hborrowed, hallocated⟩ := by simpa using hsame
  refine ⟨⟨.move, ?_, ?_⟩, ?_⟩
  · intro weight
    rw [hheld]
    rfl
  · rw [hledger]
    exact .move s.ledger
  · simp [stock, made, hheld, hpool, hborrowed, hallocated]

theorem Effect.of_release {r} (hheld : ∀ weight, after weight + weight r = before weight)
    (hledger : t.ledger = s.ledger.retire r.id) (hpool : t.pool = r.object :: s.pool)
    (hborrowed : t.borrowed = s.borrowed) (hallocated : t.allocated = s.allocated) :
    Effect s t before after := by
  refine ⟨⟨.retire r, hheld, ?_⟩, ?_⟩
  · rw [hledger]
    exact .retire s.ledger r
  · intro p
    have hp := hheld (pointing p)
    have hcount : t.stock p = s.stock p + pointing p r := by
      rw [stock, hpool, hborrowed, count_cons]
      simp only [pointing, beq_iff_eq, stock]
      omega
    have hmade : t.made p = s.made p := by rw [made, hallocated, made]
    omega

theorem acquirePacket_circulating (s : Egress) (recycled : Option PacketRef) (q : PacketRef) :
    ((s.acquirePacket recycled).2 :: (s.acquirePacket recycled).1.pool).count q + s.made q ≤
      s.pool.count q + (s.acquirePacket recycled).1.made q :=
  PooledStore.take_count s.pool s.allocated id recycled (fun _ => rfl : ∀ p, id (id p) = p) q

/-! ## Steps -/

theorem writeNext_effect {choice call next} (hnext : s.writeNext choice call = some (next, t)) :
    Effect s t (fun weight => (EgressCall.write call).held weight + s.held weight)
      (fun weight => (EgressCall.write next).held weight + t.held weight) := by
  cases call with
  | checkState r | checkContext r =>
    simp only [writeNext] at hnext
    split at hnext <;> cases hnext <;> exact Effect.of_move (fun _ => rfl) rfl
  | select r =>
    cases choice with
    | done | fallback =>
      simp only [writeNext] at hnext
      split at hnext <;> cases hnext
      exact Effect.of_move (fun _ => rfl) rfl
    | send =>
      simp only [writeNext] at hnext
      split at hnext
      · cases hnext
        exact Effect.of_move (fun _ => rfl) rfl
      · obtain ⟨output, hsend, hmoved⟩ := map_eq_some_iff.mp hnext
        cases hmoved
        refine Effect.of_move ?_ rfl
        simp only [EgressCall.held, held, (send?_eq_some hsend).2.2, map_append,
          sum_append, map_cons, map_nil, sum_singleton]
        omega
    | receive | leave => cases hnext
  | release r | recovered r =>
    cases hnext
    refine Effect.of_release (r := r) ?_ rfl rfl rfl rfl
    simp only [EgressCall.held, held, releasePacket]
    omega
  | returned => cases hnext

theorem held_of_receive {output r} (hreceive : s.output.receive? = some (r, output))
    (weight : Reference PacketRef → Nat) :
    weight r + (output.items.map weight).sum = (s.output.items.map weight).sum := by
  rw [(receive?_eq_some hreceive).1, map_cons, sum_cons]

theorem readNext_effect {choice call next} (hnext : s.readNext choice call = some (next, t)) :
    Effect s t (fun weight => (EgressCall.read call).held weight + s.held weight)
      (fun weight => (EgressCall.read next).held weight + t.held weight) := by
  cases call with
  | receive =>
    cases choice with
    | receive =>
      simp only [readNext] at hnext
      split at hnext
      next r output hreceive =>
        cases hnext
        refine Effect.of_move ?_ rfl
        simp only [EgressCall.held, held, ← held_of_receive hreceive]
        omega
      · split at hnext <;> cases hnext
        exact Effect.of_move (fun _ => rfl) rfl
    | leave =>
      cases hnext
      exact Effect.of_move (fun _ => rfl) rfl
    | _ => cases hnext
  | release r =>
    cases hnext
    refine Effect.of_release (r := r) ?_ rfl rfl rfl rfl
    simp only [EgressCall.held, held, releasePacket]
    omega
  | finished => cases hnext

theorem callNext_effect {choice call next} (hnext : s.callNext choice call = some (next, t)) :
    Effect s t (fun weight => call.held weight + s.held weight)
      (fun weight => next.held weight + t.held weight) := by
  cases call with
  | write call =>
    obtain ⟨moved, hmoved, heq⟩ := map_eq_some_iff.mp hnext
    cases heq
    exact writeNext_effect hmoved
  | read call =>
    obtain ⟨moved, hmoved, heq⟩ := map_eq_some_iff.mp hnext
    cases heq
    exact readNext_effect hmoved

theorem stopNext_effect (hnext : s.stopNext = some t) : Effect s t s.held t.held := by
  unfold stopNext at hnext
  split at hnext
  next hstop =>
    split at hnext <;> cases hnext <;>
      exact Effect.of_move (fun _ => by simp [held, hstop]) rfl
  iterate 2 next hstop =>
    cases hnext
    exact Effect.of_move (fun _ => by simp [held, hstop]) rfl
  next hstop =>
    split at hnext <;> cases hnext <;>
      exact Effect.of_move (fun _ => by simp [held, hstop]) rfl
  next hstop =>
    split at hnext
    next r output hreceive =>
      cases hnext
      refine Effect.of_move ?_ rfl
      simp only [held, hstop, EgressStop.held, ← held_of_receive hreceive]
      omega
    · cases hnext
      exact Effect.of_move (fun _ => by simp [held, hstop]) rfl
  next r hstop =>
    cases hnext
    refine Effect.of_release (r := r) ?_ rfl rfl rfl rfl
    simp only [held, hstop, EgressStop.held, releasePacket]
    omega
  iterate 2 next => cases hnext

/-- Other users of the pool move packets between the pool and themselves. -/
theorem Effect.of_stock (hheld : t.held = s.held) (hledger : t.ledger = s.ledger)
    (hstock : ∀ p, t.stock p + s.made p ≤ s.stock p + t.made p) : Effect s t s.held t.held := by
  refine ⟨⟨.move, ?_, ?_⟩, ?_⟩
  · intro weight
    rw [hheld]
    rfl
  · rw [hledger]
    exact .move s.ledger
  · intro p
    have hp := hstock p
    rw [hheld]
    omega

theorem environmentNext_effect {label} (hnext : s.environmentNext label = some t) :
    Effect s t s.held t.held := by
  cases label with
  | stop => exact stopNext_effect hnext
  | beginStart =>
    simp only [environmentNext] at hnext
    split at hnext <;> cases hnext
    exact Effect.of_move (fun _ => rfl) rfl
  | endStart ok =>
    obtain ⟨-, hnext⟩ := ite_none_right_eq_some.mp hnext
    split at hnext <;> cases hnext <;> exact Effect.of_move (fun _ => rfl) rfl
  | borrow recycled =>
    cases hnext
    refine Effect.of_stock rfl rfl ?_
    intro q
    have hq := acquirePacket_circulating s recycled q
    simp only [stock, made, count_cons] at hq ⊢
    omega
  | giveBack p =>
    obtain ⟨hmem, hnext⟩ := ite_none_right_eq_some.mp hnext
    cases hnext
    refine Effect.of_stock rfl rfl ?_
    intro q
    have hpos : 0 < s.borrowed.count p := count_pos_iff.mpr hmem
    simp only [stock, made, count_cons, count_erase, beq_iff_eq]
    split
    next hpq =>
      subst hpq
      omega
    · omega
  | collect p =>
    cases hnext
    refine Effect.of_stock rfl rfl ?_
    simp only [stock, made, count_erase]
    omega
  | publish recycled | read | call i choice => cases hnext
  | _ =>
    cases hnext
    exact Effect.of_move (fun _ => rfl) rfl

end Egress

namespace EgressSystem

open Egress

/-! ## Accounts -/

def held (c : EgressSystem) : Holdings PacketRef := fun weight =>
  c.total (EgressCall.held weight) + c.shared.held weight

/-- Every packet is with one owner, and every packet handed to `Write` is owned or was
released once. -/
structure Accounted (c : EgressSystem) : Prop where
  balanced : Balanced c.shared.ledger c.held
  apart : ∀ p, c.shared.stock p + c.held (pointing p) ≤ c.shared.made p

variable {c d : EgressSystem}

theorem Accounted.effect (hc : Accounted c) (heffect : Effect c.shared d.shared c.held d.held) :
    Accounted d := by
  obtain ⟨⟨flow, hcarries, hrecords⟩, hcirculating⟩ := heffect
  refine ⟨hc.balanced.flow hcarries hrecords, ?_⟩
  intro p
  have hbefore := hc.apart p
  have hafter := hcirculating p
  omega

theorem publish_effect (c : EgressSystem) (recycled : Option PacketRef) :
    Effect c.shared (c.publish recycled).shared c.held (c.publish recycled).held := by
  have hheld : ∀ weight, (c.publish recycled).held weight =
      c.held weight + weight ⟨c.shared.ledger.issued, (c.shared.acquirePacket recycled).2⟩ := by
    intro weight
    rw [publish, held, total_spawn]
    exact add_right_comm _ _ _
  refine ⟨⟨.issue ⟨c.shared.ledger.issued, _⟩, hheld, .issue c.shared.ledger _⟩, ?_⟩
  intro q
  have hq := acquirePacket_circulating c.shared recycled q
  rw [hheld]
  have hpoints : pointing q ⟨c.shared.ledger.issued, (c.shared.acquirePacket recycled).2⟩ =
      [(c.shared.acquirePacket recycled).2].count q := by simp [pointing, count_singleton]
  rw [hpoints, count_singleton]
  rw [count_cons] at hq
  change (c.shared.acquirePacket recycled).1.pool.count q + c.shared.borrowed.count q + _ + _ ≤
    c.shared.pool.count q + c.shared.borrowed.count q + _ +
      (c.shared.acquirePacket recycled).1.made q
  omega

theorem step_effect {label} (hstep : c.step label = some d) :
    Effect c.shared d.shared c.held d.held := by
  cases label with
  | publish recycled =>
    cases hstep
    exact publish_effect c recycled
  | read =>
    cases hstep
    refine Effect.of_move ?_ rfl
    intro weight
    rw [held, total_spawn]
    rfl
  | call i choice =>
    obtain ⟨call, next, shared, hi, hnext, rfl⟩ := advance_eq_some hstep
    refine (callNext_effect hnext).frame ?_
    intro weight
    have htotal := total_update (EgressCall.held weight) hi next shared
    simp only [held, update] at htotal ⊢
    omega
  | stop | beginStart | endStart _ | pause | resume | cancelParent | borrow _ | giveBack _
  | collect _ =>
    simp only [step] at hstep
    obtain ⟨shared, hnext, rfl⟩ := map_eq_some_iff.mp hstep
    refine (environmentNext_effect hnext).frame ?_
    simp only [held, total]
    omega

theorem Accounted.not_mem_pool (hc : Accounted c) {r} (hr : r ∈ c.shared.output.items) :
    r.object ∉ c.shared.pool := by
  have hapart := hc.apart r.object
  have hone : pointing r.object r = 1 := if_pos rfl
  have hsum : pointing r.object r ≤ (c.shared.output.items.map (pointing r.object)).sum :=
    le_sum_of_mem (mem_map_of_mem hr)
  have hmade : c.shared.made r.object ≤ 1 := PooledStore.made_le_one _ _
  simp only [stock, held, Egress.held] at hapart
  rw [← count_eq_zero]
  omega

theorem Accounted.pool_nodup (hc : Accounted c) : c.shared.pool.Nodup := by
  rw [nodup_iff_count_le_one]
  intro p
  have hapart := hc.apart p
  have hmade : c.shared.made p ≤ 1 := PooledStore.made_le_one _ _
  simp only [stock] at hapart
  omega

end EgressSystem

end Voce.Engine
