import Voce.Engine.SessionExpiry
import Voce.Engine.SessionRemoval

/-! # Every session is removed once

The three removers take sessions out of the map in the same way: what they take was mapped,
is not mapped afterwards, and the rest stays. The invariants of the concurrent calls follow
from that.
-/

namespace Voce.Engine

open RemovalPhase SessionManager List Option Prod Transition Function FiniteMap

variable {Key Observer : Type}

namespace SessionManager

variable {Key : Type}

@[simp]
abbrev HasStopped (m : SessionManager Key) (r : SessionRef) : Prop :=
  (m.session r).workflow.state = .stopped

variable (m : SessionManager Key)

theorem stopWorkflow_stopped (r b : SessionRef) (hb : b = r ∨ m.HasStopped b) :
    (m.stopWorkflow r).HasStopped b := by
  by_cases heq : b = r
  · subst heq
    simp [stopWorkflow, setWorkflow, Workflow.stop_state]
  · simp only [HasStopped, stopWorkflow, setWorkflow, setSession, update_of_ne heq]
    exact hb.resolve_left heq

theorem stopAll_stopped (refs : List SessionRef) (b : SessionRef)
    (hb : b ∈ refs ∨ m.HasStopped b) : (m.stopAll refs).HasStopped b := by
  induction refs generalizing m with
  | nil => exact hb.resolve_left not_mem_nil
  | cons r rest ih =>
    apply ih
    rcases hb with hmem | hstopped
    · rcases mem_cons.mp hmem with rfl | hrest
      · exact .inr (m.stopWorkflow_stopped b b (.inl rfl))
      · exact .inl hrest
    · exact .inr (m.stopWorkflow_stopped r b (.inr hstopped))

variable [DecidableEq Key]

/-- Exactly these sessions left the map, each of them once. -/
structure Takes (m : SessionManager Key) (refs : List SessionRef) (after : SessionManager Key) :
    Prop where
  follows : m.Follows after
  allocated : after.allocated = m.allocated
  mapped : ∀ r ∈ refs, ∃ k, m.sessions.lookup k = some r
  unmapped : ∀ r ∈ refs, after.Unmapped r
  others : ∀ k r, m.sessions.lookup k = some r → r ∉ refs → after.sessions.lookup k = some r
  nodup : refs.Nodup
  length : after.sessions.keys.length + refs.length = m.sessions.keys.length
  stopped : ∀ r, m.HasStopped r → after.HasStopped r

variable {m} {middle after : SessionManager Key} {r : SessionRef} {k : Key} {refs : List SessionRef}

theorem WellMapped.takes_erase (hm : m.WellMapped) {key} (hr : m.sessions.lookup key = some r) :
    m.Takes [r] { m with sessions := m.sessions.erase key } where
  follows := .of_shrinks rfl (fun _ => rfl) fun _ _ hb => (lookup_erase_eq_some.mp hb).2
  allocated := rfl
  mapped b hb := ⟨key, by rw [mem_singleton.mp hb, hr]⟩
  unmapped b hb := by
    obtain rfl := mem_singleton.mp hb
    refine ⟨(hm key b hr).1, fun k hk => ?_⟩
    obtain ⟨hne, hold⟩ := lookup_erase_eq_some.mp hk
    exact hne ((hm k b hold).2.symm.trans (hm key b hr).2)
  others k b hb hnot := by
    have hk : k ≠ key := by
      rintro rfl
      rw [hr] at hb
      exact hnot (mem_singleton.mpr (some.inj hb).symm)
    rw [AList.lookup_erase_ne hk, hb]
  nodup := nodup_singleton r
  length := keys_length_erase hr
  stopped _ := id

/-- What is still mapped was mapped. -/
theorem Takes.lookup (htakes : m.Takes refs after)
    (hr : after.sessions.lookup k = some r) : m.sessions.lookup k = some r := by
  rcases htakes.follows.mapped k r hr with hold | ⟨hle, hlt, -⟩
  · exact hold
  · rw [htakes.allocated] at hlt
    exact absurd hlt (not_lt.mpr hle)

theorem Takes.trans (hfirst : m.Takes refs middle) {others} (hsecond : middle.Takes others after) :
    m.Takes (refs ++ others) after where
  follows := hfirst.follows.trans hsecond.follows
  allocated := hsecond.allocated.trans hfirst.allocated
  mapped r hr := by
    rcases mem_append.mp hr with hr | hr
    · exact hfirst.mapped r hr
    · exact (hsecond.mapped r hr).imp fun k hk => hfirst.lookup hk
  unmapped r hr := by
    rcases mem_append.mp hr with hr | hr
    · exact (hfirst.unmapped r hr).follows hsecond.follows
    · exact hsecond.unmapped r hr
  others k r hr hnot := by
    rw [mem_append, not_or] at hnot
    exact hsecond.others k r (hfirst.others k r hr hnot.1) hnot.2
  nodup := by
    refine nodup_append.mpr ⟨hfirst.nodup, hsecond.nodup, ?_⟩
    rintro r hr b hb rfl
    obtain ⟨k, hk⟩ := hsecond.mapped r hb
    exact (hfirst.unmapped r hr).2 k hk
  length := by
    rw [length_append, ← hfirst.length, ← hsecond.length]
    omega
  stopped r hr := hsecond.stopped r (hfirst.stopped r hr)

theorem WellMapped.takes_sweep (hm : m.WellMapped) (now : Int) (keys : List Key) :
    m.Takes (m.sweep now keys).2 (m.sweep now keys).1 := by
  induction keys generalizing m with
  | nil => exact ⟨.refl m, rfl, nofun, nofun, fun _ _ hr _ => hr, .nil, rfl, fun _ => id⟩
  | cons key rest ih =>
    unfold sweep
    split
    · exact ih hm
    next found hfound =>
      split
      · exact ih hm
      · exact (hm.takes_erase hfound).trans (ih (forall_erase hm))

theorem WellMapped.takes_clear (hm : m.WellMapped) : m.Takes (m.sessions.entries.map Sigma.snd)
      { m.stopAll (m.sessions.entries.map Sigma.snd) with sessions := ∅ } where
  follows := .of_shrinks (m.stopAll_frame _).1 (stopAll_congr (fun _ _ => rfl) m _)
    nofun
  allocated := (m.stopAll_frame _).1
  mapped r hr := by
    obtain ⟨⟨k, b⟩, hentry, rfl⟩ := mem_map.mp hr
    exact ⟨k, AList.mem_lookup_iff.mpr hentry⟩
  unmapped r hr := by
    obtain ⟨⟨k, b⟩, hentry, rfl⟩ := mem_map.mp hr
    refine ⟨?_, nofun⟩
    rw [(m.stopAll_frame _).1]
    exact (hm k b (AList.mem_lookup_iff.mpr hentry)).1
  others k r hr hnot := by
    have hentry : (⟨k, r⟩ : Sigma fun _ : Key => SessionRef) ∈ m.sessions.entries :=
      AList.mem_lookup_iff.mp hr
    exact absurd (mem_map_of_mem hentry) hnot
  nodup := by
    -- two entries with one session have one key
    have hentries : m.sessions.entries.Nodup := m.sessions.nodupKeys.nodup
    refine hentries.map_on ?_
    rintro ⟨k, r⟩ hfirst ⟨k', r'⟩ hsecond heq
    obtain rfl : r = r' := heq
    have hkey := (hm k r (AList.mem_lookup_iff.mpr hfirst)).2
    rw [(hm k' r (AList.mem_lookup_iff.mpr hsecond)).2] at hkey
    rw [hkey]
  length := by simp [AList.keys, keys]
  stopped r hr := stopAll_stopped m _ r (.inr hr)

/-- The map is left alone, and no workflow is revived. -/
structure SameSessions (m after : SessionManager Key) : Prop where
  follows : m.Follows after
  sessions : after.sessions = m.sessions
  allocated : after.allocated = m.allocated
  stopped : ∀ r, m.HasStopped r → after.HasStopped r

theorem SameSessions.refl (m : SessionManager Key) : m.SameSessions m :=
  ⟨.refl m, rfl, rfl, fun _ => id⟩

theorem Takes.mem (htakes : m.Takes refs after) (hk : k ∈ after.sessions) : k ∈ m.sessions := by
  obtain ⟨r, hr⟩ := mem_iff.mp hk
  exact mem_iff.mpr ⟨r, htakes.lookup hr⟩

end SessionManager

/-! ## The map and the removals -/

namespace RemovalServer

variable [DecidableEq Key] {s : RemovalServer Key Observer}

/-- A session is in the map or was taken out of it, once. -/
structure Registry (s : RemovalServer Key Observer) : Prop where
  wellMapped : s.manager.WellMapped
  known : ∀ k ∈ s.manager.sessions, k ∈ s.keys
  removed : ∀ r ∈ s.removals.map snd, s.manager.Unmapped r
  nodup : (s.removals.map snd).Nodup
  left : ∀ r < s.manager.allocated,
    (∃ k, s.manager.sessions.lookup k = some r) ∨ r ∈ s.removals.map snd

/-- The map and the history stay as they are. -/
theorem Registry.quiet (h : Registry s) {manager} (hsame : s.manager.SameSessions manager)
    (observers : ObserverTable Observer) (active : Int) (calls : List (Nat × SessionRef)) :
    Registry { s with
      manager := manager, onDeleted := observers, active := active, calls := calls } where
  wellMapped := h.wellMapped.follows hsame.follows
  known k hk := h.known k (hsame.sessions ▸ hk)
  removed r hr := (h.removed r hr).follows hsame.follows
  nodup := h.nodup
  left r hr := by
    rw [hsame.sessions]
    exact h.left r (hsame.allocated ▸ hr)

omit [DecidableEq Key] in
theorem taken_removals (manager : SessionManager Key) (remover : Remover) (refs : List SessionRef) :
    (s.taken manager remover refs).removals.map snd = s.removals.map snd ++ refs := by
  simp [taken, comp_def]

theorem Registry.taken (h : Registry s) {refs manager} (htakes : s.manager.Takes refs manager)
    (remover : Remover) :
    Registry (s.taken manager remover refs) where
  wellMapped := h.wellMapped.follows htakes.follows
  known k hk := h.known k (htakes.mem hk)
  removed r hr := by
    rw [taken_removals, mem_append] at hr
    rcases hr with hbefore | hnow
    · exact (h.removed r hbefore).follows htakes.follows
    · exact htakes.unmapped r hnow
  nodup := by
    rw [taken_removals]
    refine nodup_append.mpr ⟨h.nodup, htakes.nodup, fun r hr b hb heq => ?_⟩
    -- what was taken before is not mapped, what is taken now is
    obtain ⟨k, hk⟩ := htakes.mapped b hb
    exact (h.removed r hr).2 k (heq ▸ hk)
  left r hr := by
    rw [taken_removals, mem_append]
    rcases h.left r (htakes.allocated ▸ hr) with ⟨k, hk⟩ | hbefore
    · by_cases hmem : r ∈ refs
      · exact .inr (.inr hmem)
      · exact .inl ⟨k, htakes.others k r hk hmem⟩
    · exact .inr (.inl hbefore)

/-- A session is inserted under a key that is not in the map. -/
theorem Registry.create (h : Registry s) {key stamp built manager r}
    (hcreate : s.manager.createSession key stamp built = (manager, .ok r)) (hkey : key ∈ s.keys)
    (hfree : key ∉ s.manager.sessions) : Registry { s with manager := manager } := by
  have hfollows := Follows.createSession s.manager key stamp built
  rw [hcreate] at hfollows
  obtain ⟨rfl, hallocated, -, -, hsessions⟩ := createSession_ok hcreate
  refine ⟨h.wellMapped.follows hfollows, ?_, fun b hb => (h.removed b hb).follows hfollows,
    h.nodup, ?_⟩
  · intro k hk
    rw [hsessions] at hk
    rcases (AList.mem_insert _).mp hk with rfl | hold
    · exact hkey
    · exact h.known k hold
  · intro b hb
    rw [hallocated] at hb
    rw [hsessions]
    rcases Nat.lt_succ_iff_lt_or_eq.mp hb with hlt | rfl
    · rcases h.left b hlt with ⟨k, hk⟩ | hremoved
      · have hmem := mem_iff.mpr ⟨b, hk⟩
        exact .inl ⟨k, (lookup_insert_of_mem hfree hmem).trans hk⟩
      · exact .inr hremoved
    · exact .inl ⟨key, AList.lookup_insert _⟩

end RemovalServer

/-! ## What the calls have yet to do -/

namespace RemovalPhase

def creates : RemovalPhase Key Observer → Option Key
  | .creating key _ _ => some key
  | _ => none

/-- What a call has yet to add to the counter. -/
def toAdd : RemovalPhase Key Observer → Nat
  | .inserted => 1
  | _ => 0

/-- What a call has yet to take off the counter. -/
def toSubtract : RemovalPhase Key Observer → Nat
  | .uncounted _ refs _ => refs.length
  | .cleared count => count
  | _ => 0

/-- How often a call has yet to call an observer for a session. -/
def toCall (slot : Nat) (r : SessionRef) : RemovalPhase Key Observer → Nat
  | .uncounted _ refs observers => refs.count r * (observers.map fst).count slot
  | .notifying _ observers pending (current :: rest) =>
    (if current = r then (pending.map fst).count slot else 0) +
      rest.count r * (observers.map fst).count slot
  | _ => 0

/-- The sessions whose workflows a call has yet to stop. -/
def toStop : RemovalPhase Key Observer → List SessionRef
  | .uncounted _ refs _ | .notifying _ _ _ refs => refs
  | _ => []

end RemovalPhase

namespace Removals

open Interleaving RemovalServer

variable {c : Removals Key Observer} {i : Nat} {phase moved : RemovalPhase Key Observer}
  {after : RemovalServer Key Observer}

/-- The counter is right up to what the calls have yet to do. -/
def Counted (c : Removals Key Observer) : Prop :=
  c.shared.active + c.total toAdd =
    c.shared.manager.sessions.keys.length + c.total toSubtract

/-- How often an observer was called for a session or will be. -/
def tally (c : Removals Key Observer) (slot : Nat) (r : SessionRef) : Nat :=
  c.shared.calls.count (slot, r) + c.total (toCall slot r)

/-- What was taken out is stopped, or will be. -/
def Stopped (c : Removals Key Observer) : Prop :=
  ∀ r ∈ c.shared.removals.map snd, c.shared.manager.HasStopped r ∨
    ∃ phase ∈ c.phases, r ∈ phase.toStop

theorem Counted.update (h : Counted c) (hi : c.phases[i]? = some phase)
    (hbalance : after.active + moved.toAdd + phase.toSubtract +
        c.shared.manager.sessions.keys.length =
      c.shared.active + phase.toAdd + moved.toSubtract + after.manager.sessions.keys.length) :
    Counted (c.update i moved after) := by
  have hadd := Config.total_update toAdd hi moved after
  have hsubtract := Config.total_update toSubtract hi moved after
  unfold Counted at h ⊢
  simp only [Config.update] at hadd hsubtract ⊢
  omega

theorem tally_update (hi : c.phases[i]? = some phase) (moved : RemovalPhase Key Observer)
    (after : RemovalServer Key Observer) (slot : Nat) (r : SessionRef) :
    tally (c.update i moved after) slot r + c.shared.calls.count (slot, r) +
        phase.toCall slot r =
      tally c slot r + after.calls.count (slot, r) + moved.toCall slot r := by
  have htotal := Config.total_update (toCall slot r) hi moved after
  unfold tally
  simp only [Config.update] at htotal ⊢
  omega

theorem Stopped.update (h : Stopped c) (hi : c.phases[i]? = some phase)
    (hstates : ∀ r, c.shared.manager.HasStopped r → after.manager.HasStopped r)
    (hremovals : ∀ r ∈ after.removals.map snd, r ∈ c.shared.removals.map snd ∨
      after.manager.HasStopped r ∨ r ∈ moved.toStop)
    (hstop : ∀ r ∈ phase.toStop, after.manager.HasStopped r ∨ r ∈ moved.toStop) :
    Stopped (c.update i moved after) := by
  intro r hr
  have hmoved : ∀ b ∈ moved.toStop, ∃ other ∈ (c.update i moved after).phases, b ∈ other.toStop :=
    fun b hb => ⟨moved, Config.mem_update_self hi _ _, hb⟩
  rcases hremovals r hr with hbefore | hstopped | hpending
  · rcases h r hbefore with hstopped | ⟨other, hother, hmem⟩
    · exact .inl (hstates r hstopped)
    · rcases Config.eq_or_mem_update hi hother moved after with rfl | hstill
      · rcases hstop r hmem with hstopped | hpending
        · exact .inl hstopped
        · exact .inr (hmoved r hpending)
      · exact .inr ⟨other, hstill, hmem⟩
  · exact .inl hstopped
  · exact .inr (hmoved r hpending)

section Phases

variable (m : SessionManager Key)

/-- The workflow is stopped, unless it is already. -/
theorem stopRemoved_cases (r : SessionRef) (remover : Remover) :
    stopRemoved m r remover = m.stopWorkflow r ∨ stopRemoved m r remover = m ∧ m.HasStopped r := by
  unfold stopRemoved
  split
  · split
    · exact .inl rfl
    next hstopped => exact .inr ⟨rfl, not_not.mp hstopped⟩
  · exact .inl rfl
  · exact .inl rfl

theorem stopRemoved_stopped (r : SessionRef) (remover : Remover)
    (b : SessionRef) (hb : b = r ∨ m.HasStopped b) : (stopRemoved m r remover).HasStopped b := by
  rcases stopRemoved_cases m r remover with heq | ⟨heq, hstopped⟩ <;> rw [heq]
  · exact m.stopWorkflow_stopped r b hb
  · exact hb.elim (fun hbr => hbr ▸ hstopped) id

variable (remover : Remover)

/-- Before a session has its first call, all observers are left for it. -/
theorem toCall_notifying (observers : List (Nat × Observer))
    (refs : List SessionRef) (slot : Nat) (r : SessionRef) :
    (notifying remover observers observers refs : RemovalPhase Key Observer).toCall slot r =
      refs.count r * (observers.map fst).count slot := by
  cases refs with
  | nil => simp [toCall]
  | cons current rest =>
    simp only [toCall, count_cons, beq_iff_eq]
    split
    · rw [Nat.add_mul, one_mul, add_comm (_ * _)]
    · simp

/-- A call of an observer is no longer to come. -/
theorem toCall_called (observers pending : List (Nat × Observer))
    (entry : Nat × Observer) (current : SessionRef) (rest : List SessionRef)
    (calls : List (Nat × SessionRef)) (slot : Nat) (r : SessionRef) :
    (calls ++ [(entry.1, current)]).count (slot, r) +
        (notifying remover observers pending (current :: rest) :
          RemovalPhase Key Observer).toCall slot r =
      calls.count (slot, r) + (notifying remover observers (entry :: pending) (current :: rest) :
          RemovalPhase Key Observer).toCall slot r := by
  simp only [toCall, count_append, count_nil, map_cons, count_cons, beq_iff_eq, Prod.mk.injEq]
  by_cases hcurrent : current = r
  · simp only [hcurrent, and_true, if_true]
    omega
  · simp only [hcurrent, and_false, if_false, add_zero]

/-- The calls of a removal with the observers that it collected. -/
theorem toCall_uncounted_le (refs : List SessionRef)
    (t : ObserverTable Observer) (slot : Nat) (r : SessionRef) :
    (uncounted remover refs t.collect : RemovalPhase Key Observer).toCall slot r ≤
      refs.count r := by
  have hle := nodup_iff_count_le_one.mp t.collect_nodup slot
  calc refs.count r * (t.collect.map fst).count slot ≤ refs.count r * 1 :=
        Nat.mul_le_mul_left _ hle
    _ = refs.count r := mul_one _

/-- An observer that is registered will be called for every session of a removal. -/
theorem toCall_uncounted {t : ObserverTable Observer} {slot} (hslot : t.Occupied slot)
    (remover : Remover) (refs : List SessionRef) (r : SessionRef) :
    (uncounted remover refs t.collect : RemovalPhase Key Observer).toCall slot r =
      refs.count r := by
  rw [toCall, count_eq_one_of_mem t.collect_nodup hslot.mem_collect, mul_one]

end Phases

variable [DecidableEq Key]

/-- The keys of the calls that are about to insert a session are free and distinct. -/
structure Orderly (c : Removals Key Observer) : Prop extends
    Cast (fun _ phase s => ∀ key ∈ phase.creates, key ∈ s.keys ∧ key ∉ s.manager.sessions)
      creates c where
  shared : Registry c.shared

theorem Orderly.update (h : Orderly c) (hi : c.phases[i]? = some phase)
    (hregistry : Registry after) (hmoved : moved.creates = none)
    (hkeys : after.keys = c.shared.keys)
    (hfree : ∀ key, phase.creates ≠ some key → key ∉ c.shared.manager.sessions →
      key ∉ after.manager.sessions) : Orderly (c.update i moved after) := by
  refine ⟨h.toCast.update hi (by simp [hmoved]) ?_ (absurd hmoved), hregistry⟩
  intro j other hj hat hother key hkey
  obtain ⟨hknown, habsent⟩ := hother key hkey
  rw [hkeys]
  refine ⟨hknown, hfree key (fun hphase => ?_) habsent⟩
  exact h.other_role_ne hi (hphase ▸ nofun) hj hat (hkey.trans hphase.symm)

/-- Observers are called for the sessions that were taken out, once at most. Those that stay
registered are called for all but the ones of `Stop`. -/
structure Notifies (held : Nat → Prop) (removals : List (Remover × SessionRef))
    (tally : Nat → SessionRef → Nat) : Prop where
  uncalled : ∀ slot r, r ∉ removals.map snd → tally slot r = 0
  once : ∀ slot r, tally slot r ≤ 1
  called : ∀ slot, held slot → ∀ remover r, remover ≠ .stop → (remover, r) ∈ removals →
    tally slot r = 1

/-- What holds of the calls, given the slots whose observers stay registered. -/
structure Invariant (held : Nat → Prop) (c : Removals Key Observer) : Prop where
  orderly : Orderly c
  counted : Counted c
  notifies : Notifies held c.shared.removals (tally c)
  occupied : ∀ slot, held slot → c.shared.onDeleted.Occupied slot
  stopped : Stopped c

variable {held : Nat → Prop}

/-- A step that leaves the map and the history alone. -/
theorem Invariant.calm (h : Invariant held c) (hi : c.phases[i]? = some phase)
    (hmoved : moved.creates = none) {manager active calls}
    (hafter : after = { c.shared with manager := manager, active := active, calls := calls })
    (hsame : c.shared.manager.SameSessions manager)
    (hbalance : active + moved.toAdd + phase.toSubtract =
      c.shared.active + phase.toAdd + moved.toSubtract)
    (hcalls : ∀ slot r, calls.count (slot, r) + moved.toCall slot r =
      c.shared.calls.count (slot, r) + phase.toCall slot r)
    (hstop : ∀ r ∈ phase.toStop, manager.HasStopped r ∨ r ∈ moved.toStop) :
    Invariant held (c.update i moved after) := by
  have hregistry := h.orderly.shared.quiet hsame c.shared.onDeleted active calls
  have htally : tally (c.update i moved after) = tally c := by
    funext slot r
    have hupdate := tally_update hi moved after slot r
    have hcount := hcalls slot r
    simp only [hafter] at hupdate ⊢
    omega
  subst hafter
  refine ⟨h.orderly.update hi hregistry hmoved rfl ?_, h.counted.update hi ?_, ?_, h.occupied,
    h.stopped.update hi hsame.stopped (fun r hr => .inl hr) hstop⟩
  · intro key _ habsent
    rwa [hsame.sessions]
  · simp only [hsame.sessions]
    omega
  · rw [htally]
    exact h.notifies

/-- Some sessions are taken out, by a call that did nothing before. -/
theorem Invariant.take (h : Invariant held c) (hi : c.phases[i]? = some phase)
    (hadd : phase.toAdd = 0) (hsubtract : phase.toSubtract = 0)
    (hcall : ∀ slot r, phase.toCall slot r = 0) (hstop : phase.toStop = []) {refs : List SessionRef}
    {manager : SessionManager Key} {remover} (htakes : c.shared.manager.Takes refs manager)
    (hmoved : moved.creates = none) (hnone : moved.toAdd = 0)
    (hcount : moved.toSubtract = refs.length)
    (hcalls : ∀ slot r, moved.toCall slot r ≤ refs.count r)
    (hall : remover ≠ .stop → ∀ slot, c.shared.onDeleted.Occupied slot →
      ∀ r, moved.toCall slot r = refs.count r)
    (hstopped : ∀ r ∈ refs, manager.HasStopped r ∨ r ∈ moved.toStop) :
    Invariant held (c.update i moved (c.shared.taken manager remover refs)) := by
  have htally : ∀ slot r, tally (c.update i moved (c.shared.taken manager remover refs)) slot r =
      tally c slot r + moved.toCall slot r := by
    intro slot r
    have hupdate := tally_update hi moved (c.shared.taken manager remover refs) slot r
    have hzero := hcall slot r
    have hsame : (c.shared.taken manager remover refs).calls = c.shared.calls := rfl
    rw [hsame] at hupdate
    omega
  -- what is not taken now has no new calls
  have hothers : ∀ slot r, r ∉ refs → moved.toCall slot r = 0 := by
    intro slot r hr
    have hle := hcalls slot r
    rw [count_eq_zero.mpr hr] at hle
    exact Nat.le_zero.mp hle
  -- a session that is mapped was not taken out before
  have hfirst : ∀ r ∈ refs, r ∉ c.shared.removals.map snd := by
    intro r hr hbefore
    obtain ⟨k, hk⟩ := htakes.mapped r hr
    exact (h.orderly.shared.removed r hbefore).2 k hk
  refine ⟨h.orderly.update hi (h.orderly.shared.taken htakes remover) hmoved rfl ?_,
    h.counted.update hi ?_, ⟨?_, ?_, ?_⟩, h.occupied, h.stopped.update hi htakes.stopped ?_ ?_⟩
  · exact fun key _ habsent hmem => habsent (htakes.mem hmem)
  · have hlength := htakes.length
    simp only [taken, hadd, hsubtract, hnone, hcount]
    omega
  · intro slot r hr
    simp only [Config.update, taken_removals, mem_append, not_or] at hr
    rw [htally, h.notifies.uncalled slot r hr.1, hothers slot r hr.2]
  · intro slot r
    rw [htally]
    by_cases hr : r ∈ refs
    · have hle := hcalls slot r
      rw [count_eq_one_of_mem htakes.nodup hr] at hle
      rw [h.notifies.uncalled slot r (hfirst r hr)]
      omega
    · rw [hothers slot r hr]
      exact h.notifies.once slot r
  · intro slot hslot other r hother hr
    rw [htally]
    rcases mem_append.mp hr with hbefore | hnow
    · have hmem : r ∈ c.shared.removals.map snd := mem_map.mpr ⟨_, hbefore, rfl⟩
      rw [hothers slot r fun hrefs => hfirst r hrefs hmem]
      exact h.notifies.called slot hslot other r hother hbefore
    · obtain ⟨b, hb, heq⟩ := mem_map.mp hnow
      cases heq
      rw [h.notifies.uncalled slot r (hfirst r hb), hall hother slot (h.occupied slot hslot) r,
        count_eq_one_of_mem htakes.nodup hb]
  · intro r hr
    rw [taken_removals, mem_append] at hr
    rcases hr with hbefore | hnow
    · exact .inl hbefore
    · exact .inr (hstopped r hnow)
  · intro r hr
    rw [hstop] at hr
    cases hr

/-- A session is inserted, under a key that no other call uses. -/
theorem Invariant.create (h : Invariant held c) {key stamp built}
    (hi : c.phases[i]? = some (.creating key stamp built)) {manager r}
    (hcreate : c.shared.manager.createSession key stamp built = (manager, .ok r)) :
    Invariant held (c.update i .inserted { c.shared with manager := manager }) := by
  obtain ⟨hkey, hfree⟩ := h.orderly.asserted i _ hi key rfl
  have hregistry := h.orderly.shared.create hcreate hkey hfree
  have hunmapped : ∀ b ∈ c.shared.removals.map snd, b ≠ c.shared.manager.allocated :=
    fun b hb => ne_of_lt (h.orderly.shared.removed b hb).1
  obtain ⟨rfl, -, -, hother, hsessions⟩ := createSession_ok hcreate
  have htally : tally (c.update i .inserted { c.shared with manager := manager }) = tally c := by
    funext slot b
    simpa [toCall] using
      tally_update hi .inserted { c.shared with manager := manager } slot b
  refine ⟨h.orderly.update hi hregistry rfl rfl ?_, h.counted.update hi ?_, htally ▸ h.notifies,
    h.occupied, ?_⟩
  · intro other hne habsent hmem
    rw [hsessions] at hmem
    rcases (AList.mem_insert _).mp hmem with rfl | hold
    · exact hne rfl
    · exact habsent hold
  · have hlength : manager.sessions.keys.length = c.shared.manager.sessions.keys.length + 1 := by
      rw [hsessions, AList.keys_insert, length_cons, erase_of_not_mem (mt AList.mem_keys.mpr hfree)]
    simp only [toAdd, toSubtract, hlength]
    omega
  · intro b hb
    rcases h.stopped b hb with hstopped | ⟨other, hmem, htoStop⟩
    · left
      simp only [Config.update, HasStopped, hother b (hunmapped b hb)]
      exact hstopped
    · right
      refine ⟨other, Config.mem_update_of_ne hi hmem ?_ _ _, htoStop⟩
      rintro rfl
      cases htoStop

theorem stopRemoved_same (m : SessionManager Key) (r : SessionRef) (remover : Remover) :
    m.SameSessions (stopRemoved m r remover) := by
  have hstopped := fun b hb => stopRemoved_stopped m r remover b (.inr hb)
  rcases stopRemoved_cases m r remover with heq | ⟨heq, -⟩
  · rw [heq] at hstopped ⊢
    exact ⟨.setSession m r rfl, rfl, rfl, hstopped⟩
  · rw [heq]
    exact .refl m

theorem Invariant.next (h : Invariant held c) {now} (hi : c.phases[i]? = some phase)
    (hnext : c.shared.next now phase = some (moved, after)) :
    Invariant held (c.update i moved after) := by
  cases phase with
  | creating key stamp built =>
    simp only [RemovalServer.next] at hnext
    split at hnext
    next manager error hcreate =>
      cases hnext
      obtain rfl := createSession_error hcreate
      exact h.calm hi rfl rfl (.refl _) rfl (fun _ _ => rfl) nofun
    next manager r hcreate =>
      cases hnext
      exact h.create hi hcreate
  | inserted =>
    cases hnext
    exact h.calm hi rfl rfl (.refl _) (by simp [toAdd, toSubtract]) (fun _ _ => rfl)
      nofun
  | removing key =>
    simp only [RemovalServer.next] at hnext
    split at hnext
    · cases hnext
      exact h.calm hi rfl rfl (.refl _) rfl (fun _ _ => rfl) nofun
    next r hr =>
      cases hnext
      exact h.take hi rfl rfl (fun _ _ => rfl) rfl (h.orderly.shared.wellMapped.takes_erase hr)
        rfl rfl rfl (toCall_uncounted_le _ _ _)
        (fun _ slot hslot => toCall_uncounted hslot _ _) fun b hb => .inr hb
  | cleaning =>
    cases hnext
    exact h.take hi rfl rfl (fun _ _ => rfl) rfl (h.orderly.shared.wellMapped.takes_sweep now _)
      rfl rfl rfl (toCall_uncounted_le _ _ _)
        (fun _ slot hslot => toCall_uncounted hslot _ _) fun b hb => .inr hb
  | uncounted remover refs observers =>
    cases hnext
    refine h.calm hi rfl rfl (.refl _) ?_ (fun slot r => ?_) fun r hr => .inr hr
    · simp only [toAdd, toSubtract]
      omega
    · rw [toCall_notifying]
      rfl
  | notifying remover observers pending refs =>
    cases refs with
    | nil =>
      cases hnext
      exact h.calm hi rfl rfl (.refl _) rfl (fun _ _ => rfl) nofun
    | cons current rest =>
      cases pending with
      | nil =>
        cases hnext
        refine h.calm hi rfl rfl (stopRemoved_same _ current remover) rfl (fun slot r => ?_)
          fun b hb => ?_
        · rw [toCall_notifying]
          simp [toCall]
        · rcases mem_cons.mp hb with rfl | hrest
          · exact .inl (stopRemoved_stopped _ b remover b (.inl rfl))
          · exact .inr hrest
      | cons entry pending =>
        cases hnext
        refine h.calm hi rfl rfl (.refl _) rfl (fun slot r => ?_) fun b hb => .inr hb
        exact toCall_called remover observers pending entry current rest _ slot r
  | stopping =>
    cases hnext
    have htakes := h.orderly.shared.wellMapped.takes_clear
    exact h.take hi rfl rfl (fun _ _ => rfl) rfl htakes rfl rfl rfl (fun _ _ => Nat.zero_le _)
      (absurd rfl) fun r hr => .inl (stopAll_stopped _ _ r (.inl hr))
  | cleared count =>
    cases hnext
    refine h.calm hi rfl rfl (.refl _) ?_ (fun _ _ => rfl) nofun
    simp only [toAdd, toSubtract]
    omega
  | returned => cases hnext

/-! ## Whole runs -/

/-- A call starts. -/
theorem Invariant.spawn (h : Invariant held c) (horderly : Orderly (c.spawn phase))
    (hadd : phase.toAdd = 0) (hsubtract : phase.toSubtract = 0)
    (hcall : ∀ slot r, phase.toCall slot r = 0) : Invariant held (c.spawn phase) := by
  have htally : tally (c.spawn phase) = tally c := by
    funext slot r
    rw [tally, Config.total_spawn, hcall slot r]
    rfl
  refine ⟨horderly, ?_, htally ▸ h.notifies, h.occupied, ?_⟩
  · have hcounted := h.counted
    unfold Counted at hcounted ⊢
    rw [Config.total_spawn, Config.total_spawn, hadd, hsubtract]
    exact hcounted
  · intro r hr
    rcases h.stopped r hr with hstopped | ⟨other, hother, hmem⟩
    · exact .inl hstopped
    · exact .inr ⟨other, mem_append_left _ hother, hmem⟩

/-- A call other than `CreateSession` starts. -/
theorem Invariant.spawn_plain (h : Invariant held c) (hcreates : phase.creates = none)
    (hadd : phase.toAdd = 0) (hsubtract : phase.toSubtract = 0)
    (hcall : ∀ slot r, phase.toCall slot r = 0) : Invariant held (c.spawn phase) := by
  refine h.spawn ⟨h.orderly.toCast.spawn (absurd hcreates) ?_, h.orderly.shared⟩ hadd hsubtract
    hcall
  simp [hcreates]

/-- Something happens that no call does. -/
theorem Invariant.environment (h : Invariant held c) {manager observers keys}
    (hregistry : Registry { c.shared with
      manager := manager, onDeleted := observers, keys := keys })
    (hsame : c.shared.manager.SameSessions manager) (hkeys : ∀ key ∈ c.shared.keys, key ∈ keys)
    (hoccupied : ∀ slot, held slot → observers.Occupied slot) :
    Invariant held { c with shared := { c.shared with
      manager := manager, onDeleted := observers, keys := keys } } := by
  refine ⟨⟨h.orderly.toCast.environment ?_, hregistry⟩, ?_, h.notifies, hoccupied, ?_⟩
  · intro _ other _ hother key hkey
    obtain ⟨hknown, habsent⟩ := hother key hkey
    exact ⟨hkeys key hknown, by rwa [hsame.sessions]⟩
  · have hcounted := h.counted
    unfold Counted at hcounted ⊢
    rw [hsame.sessions]
    exact hcounted
  · exact fun r hr => (h.stopped r hr).imp_left (hsame.stopped r)

/-- The key of a new session is not that of an earlier one, and observers that are to stay
are not removed. -/
def Admits (held : Nat → Prop) (c : Removals Key Observer) : RemovalLabel Key Observer → Prop
  | .create key _ _ => key ∉ c.shared.keys
  | .removeObserver index => ∀ slot : Nat, held slot → index ≠ slot
  | _ => True

/-- A `CreateSession` call has its key before it inserts its session. -/
theorem Invariant.create_called (h : Invariant held c) {key} (hkey : key ∉ c.shared.keys)
    (stamp : Int) (built : Except String Workflow) :
    Invariant held ({ c with shared := { c.shared with keys := c.shared.keys ++ [key] } }.spawn
      (.creating key stamp built)) := by
  have hfree : key ∉ c.shared.manager.sessions := fun hmem => hkey (h.orderly.shared.known key hmem)
  have hmem : ∀ other ∈ c.shared.keys, other ∈ c.shared.keys ++ [key] :=
    fun other => mem_append_left _
  have hregistry : Registry { c.shared with keys := c.shared.keys ++ [key] } :=
    ⟨h.orderly.shared.wellMapped, fun k hk => hmem k (h.orderly.shared.known k hk),
      h.orderly.shared.removed, h.orderly.shared.nodup, h.orderly.shared.left⟩
  have hcalled := h.environment hregistry (.refl _) hmem h.occupied
  refine hcalled.spawn ⟨hcalled.orderly.toCast.spawn ?_ ?_, hregistry⟩ rfl rfl fun _ _ => rfl
  · intro _ other hother hcreates
    obtain ⟨j, hj⟩ := mem_iff_getElem?.mp hother
    exact hkey (h.orderly.asserted j other hj key hcreates).1
  · rintro _ ⟨⟩
    exact ⟨mem_append_right _ mem_cons_self, hfree⟩

theorem Invariant.step {label d} (h : Invariant held c) (hadmits : Admits held c label)
    (hstep : step c label = some d) : Invariant held d := by
  cases label with
  | create key stamp built =>
    cases hstep
    exact h.create_called hadmits stamp built
  | remove key | cleanup | stop =>
    cases hstep
    exact h.spawn_plain rfl rfl rfl fun _ _ => rfl
  | advance call now =>
    obtain ⟨phase, moved, after, hi, hnext, rfl⟩ := Config.advance_eq_some hstep
    exact h.next hi hnext
  | updateActivity r now =>
    cases hstep
    have hsame : c.shared.manager.SameSessions (c.shared.manager.updateActivity r now) := by
      refine ⟨.setSession _ r rfl, rfl, rfl, fun b => ?_⟩
      by_cases hb : b = r
      · subst hb
        simp [updateActivity]
      · simp [updateActivity, hb]
    exact h.environment (h.orderly.shared.quiet hsame _ _ _) hsame (fun _ => id) h.occupied
  | addObserver fn =>
    cases hstep
    exact h.environment (h.orderly.shared.quiet (.refl _) _ _ _) (.refl _) (fun _ => id)
      fun slot hslot => (h.occupied slot hslot).add fn
  | removeObserver index =>
    cases hstep
    exact h.environment (h.orderly.shared.quiet (.refl _) _ _ _) (.refl _) (fun _ => id)
      fun slot hslot => (h.occupied slot hslot).remove (hadmits slot hslot)

theorem next_keys {s : RemovalServer Key Observer} {now}
    (hnext : s.next now phase = some (moved, after)) : after.keys = s.keys := by
  unfold RemovalServer.next at hnext
  split at hnext
  case h_1 =>
    split at hnext <;> cases hnext <;> rfl
  case h_3 =>
    split at hnext <;> cases hnext <;> rfl
  all_goals cases hnext <;> rfl

/-- The keys of the calls so far, after one more step. -/
theorem step_keys {label} {d : Removals Key Observer} (hstep : step c label = some d) :
    d.shared.keys = c.shared.keys ++ createdKeys [label] := by
  cases label with
  | create key stamp built =>
    cases hstep
    rfl
  | advance call now =>
    obtain ⟨phase, moved, after, hi, hnext, rfl⟩ := Config.advance_eq_some hstep
    exact (next_keys hnext).trans (append_nil _).symm
  | _ =>
    cases hstep
    exact (append_nil _).symm

/-- Calls with distinct keys use a new key each. -/
theorem meets_of_nodup {labels} (hkeys : (c.shared.keys ++ createdKeys labels).Nodup)
    (hheld : ∀ slot : Nat, held slot → .removeObserver slot ∉ labels) :
    Meets step (Admits held) c labels := by
  induction labels generalizing c with
  | nil => trivial
  | cons label rest ih =>
    have hsplit : createdKeys (label :: rest) = createdKeys [label] ++ createdKeys rest :=
      filterMap_append (l := [label])
    rw [hsplit, ← append_assoc] at hkeys
    refine ⟨?_, ?_⟩
    · cases label with
      | create key stamp built =>
        intro hmem
        have hnodup := (nodup_append.mp hkeys).1
        exact (nodup_append.mp hnodup).2.2 key hmem key mem_cons_self rfl
      | removeObserver index =>
        rintro slot hslot rfl
        exact hheld slot hslot mem_cons_self
      | _ => trivial
    · cases hstep : step c label with
      | none => trivial
      | some d =>
        refine ih (c := d) ?_ fun slot hslot hmem =>
          hheld slot hslot (mem_cons_of_mem label hmem)
        rwa [step_keys hstep]

theorem initial_invariant (timeout : Int) (blank : Session Key)
    (onDeleted : ObserverTable Observer) (hheld : ∀ slot, held slot → onDeleted.Occupied slot) :
    Invariant held (initial timeout blank onDeleted) where
  orderly := ⟨.start _, nofun, fun k hk => absurd hk (AList.notMem_empty k),
    nofun, nodup_nil, fun r hr => absurd hr (Nat.not_lt_zero r)⟩
  counted := rfl
  notifies := ⟨fun _ _ _ => rfl, fun _ _ => Nat.zero_le 1, nofun⟩
  occupied := hheld
  stopped := nofun

structure Settled (held : Nat → Prop) (c : Removals Key Observer) : Prop where
  called : ∀ slot, held slot → ∀ remover r, remover ≠ .stop →
    (remover, r) ∈ c.shared.removals → c.shared.calls.count (slot, r) = 1
  counter : c.shared.active = c.shared.manager.sessions.keys.length
  stopped : ∀ r < c.shared.manager.allocated, (∀ k, c.shared.manager.sessions.lookup k ≠ some r) →
    (c.shared.manager.session r).workflow.state = .stopped

theorem Invariant.settled (h : Invariant held c) (hquiescent : Quiescent c) : Settled held c := by
  have hzero : ∀ weight : RemovalPhase Key Observer → Nat, weight .returned = 0 →
      c.total weight = 0 := by
    intro weight hweight
    apply Config.total_eq_zero
    intro phase hphase
    have hreturned := hquiescent phase hphase
    cases phase with
    | returned => exact hweight
    | _ => cases hreturned
  refine ⟨?_, ?_, ?_⟩
  · intro slot hslot remover r hremover hr
    have hcalled := h.notifies.called slot hslot remover r hremover hr
    rwa [tally, hzero _ rfl, add_zero] at hcalled
  · have hcounted := h.counted
    rw [Counted, hzero _ rfl, hzero _ rfl] at hcounted
    simpa using hcounted
  · intro r hr hunmapped
    rcases h.orderly.shared.left r hr with ⟨k, hk⟩ | hremoved
    · exact absurd hk (hunmapped k)
    · rcases h.stopped r hremoved with hstopped | ⟨phase, hphase, hmem⟩
      · exact hstopped
      · have hreturned := hquiescent phase hphase
        cases phase with
        | returned => cases hmem
        | _ => cases hreturned

/-- Sessions with distinct keys are taken out of the map at most once, and every observer is
called at most once for each; with no call in progress the observers that were registered all
the time were called, the counter is right, and what left the map is stopped. -/
theorem sessions_removed_once (timeout : Int) (blank : Session Key)
    (onDeleted : ObserverTable Observer) (labels : List (RemovalLabel Key Observer))
    (hkeys : (createdKeys labels).Nodup) {c : Removals Key Observer}
    (hrun : run step (initial timeout blank onDeleted) labels = some c) :
    (c.shared.removals.map snd).Nodup ∧
      (∀ slot r, c.shared.calls.count (slot, r) ≤ 1) ∧
      (Quiescent c → Settled
        (fun slot => onDeleted.Occupied slot ∧ .removeObserver (slot : Int) ∉ labels) c) := by
  have hmeets : Meets step (Admits fun slot : Nat =>
      onDeleted.Occupied slot ∧ .removeObserver (slot : Int) ∉ labels)
      (initial timeout blank onDeleted) labels :=
    meets_of_nodup hkeys fun slot hslot => hslot.2
  have hinvariant := run_invariant_of_meets _
    Invariant.step
    (initial_invariant timeout blank onDeleted fun slot hslot => hslot.1) hmeets hrun
  refine ⟨hinvariant.orderly.shared.nodup, fun slot r => ?_, hinvariant.settled⟩
  exact le_trans (Nat.le_add_right _ _) (hinvariant.notifies.once slot r)

/-- One observer, in the first slot. -/
def oneObserver : ObserverTable Unit := (ObserverTable.empty.add (some ())).2

/-- Two sessions; the first is removed by two calls at once, while a cleanup takes the second. -/
def racingRemovals : List (RemovalLabel Nat Unit) :=
  [.create 7 0 TimedManager.echoWorkflow, .create 8 0 TimedManager.echoWorkflow,
    .advance 0 0, .advance 1 0, .advance 1 0, .remove 7, .remove 7, .cleanup,
    .advance 3 0, .advance 2 0, .advance 4 60000, .advance 0 0, .advance 3 0, .advance 4 0,
    .advance 4 0, .advance 3 0, .advance 4 0, .advance 3 0, .advance 4 0, .advance 3 0]

theorem sessions_removed_once_racing :
    ∃ c, run step (initial 60000 TimedManager.blankSession oneObserver)
        racingRemovals = some c ∧ Quiescent c ∧
      c.shared.removals = [(.removeSession, 0), (.cleanup, 1)] ∧
      c.shared.calls.count (0, 0) = 1 ∧ c.shared.calls.count (0, 1) = 1 ∧ c.shared.active = 0 := by
  obtain ⟨c, hrun, hquiescent, hremovals, hempty⟩ := exists_of_decide
    (run step (initial 60000 TimedManager.blankSession oneObserver) racingRemovals)
    (fun c => Quiescent c ∧
      c.shared.removals = [(.removeSession, 0), (.cleanup, 1)] ∧
      c.shared.manager.sessions.keys.length = 0) (by decide +kernel)
  have hsettled := (sessions_removed_once 60000 TimedManager.blankSession oneObserver
    racingRemovals (by decide) hrun).2.2 hquiescent
  have hheld : oneObserver.Occupied 0 ∧ .removeObserver ((0 : Nat) : Int) ∉ racingRemovals :=
    ⟨⟨(), rfl⟩, by simp [racingRemovals]⟩
  refine ⟨c, hrun, hquiescent, hremovals, hsettled.called 0 hheld .removeSession 0 ?_ ?_,
    hsettled.called 0 hheld .cleanup 1 ?_ ?_, ?_⟩
  · decide
  · simp [hremovals]
  · decide
  · simp [hremovals]
  · rw [hsettled.counter, hempty]
    rfl

end Removals

end Voce.Engine
