import Voce.Engine.OutputPacketOwnership

/-! # Each output packet is released once

When `Stop` returns, the output channel is empty and stays so: it was closed before it
was drained, and a `Write` call sends only to an open channel. A `Stop` that finds the
workflow stopped leaves the channel alone, which is then empty because `Start` has
failed and no `Write` call has passed the state check.
-/

namespace Voce.Engine

open Custody Interleaving WorkflowState Option Channel Transition

/-- The call has passed the state check. -/
def EgressCall.Admitted : EgressCall → Prop
  | .write (.checkContext _) | .write (.select _) => True
  | _ => False

def EgressStop.closed : EgressStop → Bool
  | .drain | .release _ | .returned => true
  | .swap | .cancel | .stopNodes | .closeOutput | .skipped => false

namespace Egress

/-- What holds of the output between any two steps. -/
structure Sound (s : Egress) : Prop where
  closed : s.closed = s.stop.closed
  drained : s.stop = .returned → s.output.items = []
  pending : s.state = .pending → s.start = .call
  idle : s.start ≠ .started → s.output.items = [] ∧ ¬ s.state.Started
  stopped : s.stop = .swap → s.state = .stopped → s.start = .failed
  skipped : s.stop = .skipped → s.start = .failed
  panicked : s.panicked = false

/-- A call that passed the state check knows that the workflow was started. -/
def Knows (call : EgressCall) (s : Egress) : Prop := call.Admitted → s.start = .started

variable {s t : Egress} (hs : Sound s)
include hs

/-- Only the output and the books differ. -/
theorem Sound.of_output (output : Channel (Reference PacketRef)) (pool : List PacketRef)
    (ledger : Ledger) (houtput : output.items ≠ [] → s.stop ≠ .returned ∧ s.start = .started) :
    Sound { s with output := output, pool := pool, ledger := ledger } where
  closed := hs.closed
  drained hstop := by
    by_contra hitems
    exact (houtput hitems).1 hstop
  pending := hs.pending
  idle hstart := by
    refine ⟨?_, (hs.idle hstart).2⟩
    by_contra hitems
    exact hstart (houtput hitems).2
  stopped := hs.stopped
  skipped := hs.skipped
  panicked := hs.panicked

omit hs in
/-- The `select` of a `Write` call always has a case to take. A send that panics is one:
the deferred function recovers from it. -/
theorem writeNext_progress (s : Egress) {call} (hcall : call ≠ .returned) :
    ∃ choice, (s.writeNext choice call).isSome := by
  cases call with
  | checkState r | checkContext r => exact ⟨.send, by simp only [writeNext]; split <;> rfl⟩
  | select r =>
    by_cases hready : s.closed ∨ (s.output.send? r).isSome
    · refine ⟨.send, ?_⟩
      rcases hready with hclosed | hsend
      · simp [writeNext, hclosed]
      · simp only [writeNext]
        split
        · rfl
        · simpa using hsend
    · by_cases hcancelled : s.cancelled
      · exact ⟨.done, by simp [writeNext, hcancelled]⟩
      · exact ⟨.fallback, by simp [writeNext, hcancelled, hready]⟩
  | release r | recovered r => exact ⟨.send, rfl⟩
  | returned => exact absurd rfl hcall

/-- A channel that holds a packet is neither drained nor idle. -/
theorem Sound.of_items (hitems : s.output.items ≠ []) :
    s.stop ≠ .returned ∧ s.start = .started := by
  refine ⟨fun hstop => hitems (hs.drained hstop), ?_⟩
  by_contra hstart
  exact hitems (hs.idle hstart).1

theorem Sound.receive {output r} (hreceive : s.output.receive? = some (r, output)) :
    s.stop ≠ .returned ∧ s.start = .started := by
  apply hs.of_items
  rw [(receive?_eq_some hreceive).1]
  exact List.cons_ne_nil _ _

theorem Sound.releasePacket (r : Reference PacketRef) : Sound (s.releasePacket r) :=
  hs.of_output s.output _ _ hs.of_items

theorem writeNext_sound {choice call next} (hknows : Knows (.write call) s)
    (hnext : s.writeNext choice call = some (next, t)) :
    Sound t ∧ Knows (.write next) t ∧ t.start = s.start := by
  cases call with
  | checkState r =>
    simp only [writeNext] at hnext
    split at hnext
    next hrunning =>
      cases hnext
      refine ⟨hs, fun _ => ?_, rfl⟩
      by_contra hstart
      exact (hs.idle hstart).2 (.inl hrunning)
    · cases hnext
      exact ⟨hs, False.elim, rfl⟩
  | checkContext r =>
    simp only [writeNext] at hnext
    split at hnext <;> cases hnext
    · exact ⟨hs, False.elim, rfl⟩
    · exact ⟨hs, fun _ => hknows trivial, rfl⟩
  | select r =>
    cases choice with
    | done | fallback =>
      simp only [writeNext] at hnext
      split at hnext <;> cases hnext
      exact ⟨hs, False.elim, rfl⟩
    | send =>
      simp only [writeNext] at hnext
      split at hnext
      · cases hnext
        exact ⟨hs, False.elim, rfl⟩
      next hopen =>
        obtain ⟨output, hsend, hmoved⟩ := map_eq_some_iff.mp hnext
        cases hmoved
        refine ⟨hs.of_output output _ _ fun _ => ⟨?_, hknows trivial⟩, False.elim, rfl⟩
        intro hstop
        rw [hs.closed, hstop] at hopen
        exact hopen rfl
    | receive | leave => cases hnext
  | release r | recovered r =>
    cases hnext
    exact ⟨hs.releasePacket r, False.elim, rfl⟩
  | returned => cases hnext

theorem readNext_sound {choice call next} (hnext : s.readNext choice call = some (next, t)) :
    Sound t ∧ Knows (.read next) t ∧ t.start = s.start := by
  cases call with
  | receive =>
    cases choice with
    | receive =>
      simp only [readNext] at hnext
      split at hnext
      next r output hreceive =>
        cases hnext
        exact ⟨hs.of_output output _ _ fun _ => hs.receive hreceive, False.elim, rfl⟩
      · split at hnext <;> cases hnext
        exact ⟨hs, False.elim, rfl⟩
    | leave =>
      cases hnext
      exact ⟨hs, False.elim, rfl⟩
    | _ => cases hnext
  | release r =>
    cases hnext
    exact ⟨hs.releasePacket r, False.elim, rfl⟩
  | finished => cases hnext

theorem callNext_sound {choice call next} (hknows : Knows call s)
    (hnext : s.callNext choice call = some (next, t)) :
    Sound t ∧ Knows next t ∧ t.start = s.start := by
  cases call with
  | write call =>
    obtain ⟨moved, hmoved, heq⟩ := map_eq_some_iff.mp hnext
    cases heq
    exact writeNext_sound hs hknows hmoved
  | read call =>
    obtain ⟨moved, hmoved, heq⟩ := map_eq_some_iff.mp hnext
    cases heq
    exact readNext_sound hs hmoved

theorem Sound.cancel : Sound { s with cancelled := true } :=
  ⟨hs.closed, hs.drained, hs.pending, hs.idle, hs.stopped, hs.skipped, hs.panicked⟩

/-- `Stop` moves on without closing the channel. -/
theorem Sound.moveStop {now stop} (hnow : s.stop = now) (hclosed : stop.closed = now.closed)
    (hswap : stop ≠ .swap) (hreturned : stop = .returned → s.output.items = [])
    (hskipped : stop = .skipped → s.start = .failed) : Sound { s with stop := stop } where
  closed := by rw [hs.closed, hnow, hclosed]
  drained := hreturned
  pending := hs.pending
  idle := hs.idle
  stopped hstop := absurd hstop hswap
  skipped := hskipped
  panicked := hs.panicked

theorem stopNext_sound (hnext : s.stopNext = some t) : Sound t ∧ t.start = s.start := by
  unfold stopNext at hnext
  split at hnext
  next hstop =>
    split at hnext
    next hstopped =>
      cases hnext
      exact ⟨hs.moveStop hstop rfl nofun nofun fun _ => hs.stopped hstop hstopped, rfl⟩
    · cases hnext
      refine ⟨⟨?_, nofun, nofun, ?_, nofun, nofun, hs.panicked⟩, rfl⟩
      · rw [hs.closed, hstop]
        rfl
      · intro hstart
        exact ⟨(hs.idle hstart).1, by simp [Started]⟩
  next hstop =>
    cases hnext
    exact ⟨hs.cancel.moveStop hstop rfl nofun nofun nofun, rfl⟩
  next hstop =>
    cases hnext
    exact ⟨hs.moveStop hstop rfl nofun nofun nofun, rfl⟩
  next hstop =>
    split at hnext
    next hclosed =>
      rw [hs.closed, hstop] at hclosed
      cases hclosed
    · cases hnext
      exact ⟨⟨rfl, nofun, hs.pending, hs.idle, nofun, nofun, hs.panicked⟩, rfl⟩
  next hstop =>
    split at hnext
    next r output hreceive =>
      cases hnext
      have houtput := hs.of_output output s.pool s.ledger fun _ => hs.receive hreceive
      exact ⟨houtput.moveStop hstop rfl nofun nofun nofun, rfl⟩
    next hreceive =>
      cases hnext
      exact ⟨hs.moveStop hstop rfl nofun (fun _ => receive?_eq_none hreceive) nofun, rfl⟩
  next r hstop =>
    cases hnext
    exact ⟨(hs.releasePacket r).moveStop hstop rfl nofun nofun nofun, rfl⟩
  iterate 2 next => cases hnext

/-- `Pause` and `Resume` leave a workflow that was not started as it is. -/
theorem Sound.switch {state} (hstate : state = s.state ∨ s.state.Started ∧ state.Started) :
    Sound { s with state := state } := by
  rcases hstate with rfl | ⟨hbefore, hafter⟩
  · exact hs
  · have hstart : s.start = .started := by
      by_contra hstart
      exact (hs.idle hstart).2 hbefore
    refine ⟨hs.closed, hs.drained, ?_, absurd hstart, ?_, hs.skipped, hs.panicked⟩
    · intro hpending
      rcases hafter with h | h <;> exact absurd (h.symm.trans hpending) (by decide)
    · intro _ hstopped
      rcases hafter with h | h <;> exact absurd (h.symm.trans hstopped) (by decide)

/-- The pool is no concern of the channel. -/
theorem Sound.of_pool (pool borrowed : List PacketRef) (allocated : Nat) :
    Sound { s with pool := pool, borrowed := borrowed, allocated := allocated } :=
  ⟨hs.closed, hs.drained, hs.pending, hs.idle, hs.stopped, hs.skipped, hs.panicked⟩

theorem environmentNext_sound {label} (hnext : s.environmentNext label = some t) :
    Sound t ∧ (s.start = .started → t.start = .started) := by
  cases label with
  | stop =>
    obtain ⟨ht, hstart⟩ := stopNext_sound hs hnext
    exact ⟨ht, hstart.trans⟩
  | beginStart =>
    obtain ⟨hpending, hnext⟩ := ite_none_right_eq_some.mp hnext
    cases hnext
    have hcall := hs.pending hpending
    have hidle := (hs.idle (by rw [hcall]; exact nofun)).1
    refine ⟨⟨hs.closed, hs.drained, nofun, fun _ => ⟨hidle, ?_⟩, fun _ => nofun, ?_,
      hs.panicked⟩, ?_⟩
    · simp [Started]
    · intro hskipped
      rw [hs.skipped hskipped] at hcall
      cases hcall
    · intro hstarted
      rw [hcall] at hstarted
      cases hstarted
  | endStart ok =>
    obtain ⟨hnodes, hnext⟩ := ite_none_right_eq_some.mp hnext
    have hskipped : s.stop ≠ .skipped := by
      intro hskipped
      rw [hs.skipped hskipped] at hnodes
      cases hnodes
    have hidle := (hs.idle (by rw [hnodes]; exact nofun)).1
    split at hnext
    · cases hnext
      exact ⟨⟨hs.closed, hs.drained, nofun, absurd rfl,
        fun _ => nofun, fun hstop => absurd hstop hskipped, hs.panicked⟩,
        fun _ => rfl⟩
    · cases hnext
      refine ⟨⟨hs.closed, hs.drained, nofun, fun _ => ⟨hidle, ?_⟩,
        fun _ _ => rfl, fun _ => rfl, hs.panicked⟩, ?_⟩
      · simp [Started]
      · intro hstarted
        rw [hnodes] at hstarted
        cases hstarted
  | pause =>
    cases hnext
    refine ⟨hs.switch ?_, id⟩
    rw [after_pause]
    split
    next hrunning => exact .inr ⟨.inl hrunning, .inr rfl⟩
    · exact .inl rfl
  | resume =>
    cases hnext
    refine ⟨hs.switch ?_, id⟩
    rw [after_resume]
    split
    next hpaused => exact .inr ⟨.inr hpaused, .inl rfl⟩
    · exact .inl rfl
  | cancelParent =>
    cases hnext
    exact ⟨hs.cancel, id⟩
  | borrow recycled =>
    cases hnext
    exact ⟨hs.of_pool _ _ _, id⟩
  | giveBack p =>
    simp only [environmentNext] at hnext
    split at hnext <;> cases hnext
    exact ⟨hs.of_pool _ _ _, id⟩
  | collect p =>
    cases hnext
    exact ⟨hs.of_pool _ _ _, id⟩
  | publish recycled | read | call i choice => cases hnext

end Egress

namespace EgressSystem

open Egress

structure Invariant (c : EgressSystem) : Prop where
  accounted : Accounted c
  outline : Outline Sound Knows (fun _ _ => True) c

variable {c d : EgressSystem}

theorem initial_invariant : Invariant initial where
  accounted := ⟨Balanced.empty fun _ => rfl, fun _ => Nat.zero_le _⟩
  outline := Outline.start _
    { closed := rfl
      drained := fun _ => rfl
      pending := fun _ => rfl
      idle := fun _ => ⟨rfl, by simp [Started]⟩
      stopped := fun _ => nofun
      skipped := nofun
      panicked := rfl }

theorem step_outline (hc : Outline Sound Knows (fun _ _ => True) c) {label}
    (hstep : c.step label = some d) : Outline Sound Knows (fun _ _ => True) d := by
  cases label with
  | publish recycled =>
    cases hstep
    have hsound : Sound { (c.shared.acquirePacket recycled).1 with
        ledger := c.shared.ledger.issue } :=
      (hc.shared.of_pool _ _ _).of_output _ _ _ hc.shared.of_items
    exact (hc.environment hsound fun _ hknows => hknows).spawn False.elim
      fun _ => ⟨trivial, trivial⟩
  | read =>
    cases hstep
    exact hc.spawn False.elim fun _ => ⟨trivial, trivial⟩
  | call i choice =>
    obtain ⟨call, next, shared, hi, hnext, rfl⟩ := Config.advance_eq_some hstep
    obtain ⟨hsound, hknows, hstart⟩ :=
      callNext_sound hc.shared (hc.asserted i call hi) hnext
    refine hc.update hi hsound hknows ?_
    intro other _ hother _ _
    exact ⟨fun hadmitted => hstart.trans (hother hadmitted), trivial, trivial⟩
  | stop | beginStart | endStart _ | pause | resume | cancelParent | borrow _ | giveBack _
  | collect _ =>
    simp only [step] at hstep
    obtain ⟨shared, hnext, rfl⟩ := map_eq_some_iff.mp hstep
    obtain ⟨hsound, hstarted⟩ := environmentNext_sound hc.shared hnext
    exact hc.environment hsound fun _ hother hadmitted => hstarted (hother hadmitted)

theorem run_invariant {labels} (hrun : run step initial labels = some c) :
    Invariant c := by
  refine Transition.run_invariant Invariant ?_ initial_invariant hrun
  intro before label after hbefore hstep
  exact ⟨hbefore.accounted.effect (step_effect hstep), step_outline hbefore.outline hstep⟩

/-- Nothing is owned any more when all calls have finished. -/
theorem Invariant.held_eq_zero (hc : Invariant c) (hfinished : c.Finished)
    (weight : Reference PacketRef → Nat) : c.held weight = 0 := by
  obtain ⟨hcalls, hstop⟩ := hfinished
  have hitems : c.shared.output.items = [] := by
    rcases hstop with hreturned | hskipped
    · exact hc.outline.shared.drained hreturned
    · refine (hc.outline.shared.idle ?_).1
      rw [hc.outline.shared.skipped hskipped]
      exact nofun
  have htotal : c.total (EgressCall.held weight) = 0 := by
    apply Config.total_eq_zero
    intro call hcall
    rcases hcalls call hcall with rfl | rfl <;> rfl
  rcases hstop with hstop | hstop <;> simp [held, Egress.held, htotal, hitems, hstop]

/-- In every interleaving of `Write` calls, readers and one `Stop`, no packet in the
output channel is in the pool, no packet is in the pool twice, no packet handed to
`Write` is released twice, `Stop` does not panic, and a `Write` call can go on until it
returns. Once all of them have finished, every packet handed to `Write` was released
exactly once. -/
theorem run_released_once {labels : List Label}
    (hrun : run step initial labels = some c) :
    (∀ r ∈ c.shared.output.items, r.object ∉ c.shared.pool) ∧ c.shared.pool.Nodup ∧
      c.shared.panicked = false ∧
      (∀ call, .write call ∈ c.phases → call ≠ .returned →
        ∃ choice, (c.shared.writeNext choice call).isSome) ∧
      (∀ id, c.shared.ledger.retired id ≤ 1) ∧
      (c.Finished → ∀ id, id < c.shared.ledger.issued → c.shared.ledger.retired id = 1) := by
  have hc := run_invariant hrun
  refine ⟨fun r hr => hc.accounted.not_mem_pool hr, hc.accounted.pool_nodup,
    hc.outline.shared.panicked, fun _ _ => writeNext_progress c.shared,
    hc.accounted.balanced.retired_le_one, ?_⟩
  intro hfinished id hissued
  exact hc.accounted.balanced.retired_eq_one hissued (hc.held_eq_zero hfinished _)

/-- One packet is read. `Stop` closes the channel between the checks and the send of a
second `Write`, whose send panics. The drain releases a third packet. -/
def stopDuringWrite : List Label :=
  [.beginStart, .endStart true, .publish none, .call 0 .send, .call 0 .send, .call 0 .send,
    .read, .call 1 .receive, .call 1 .receive, .publish (some 0), .call 2 .send, .call 2 .send,
    .publish none, .call 3 .send, .call 3 .send, .call 3 .send, .stop, .stop, .stop, .stop,
    .call 2 .send, .call 2 .send, .stop, .stop, .stop, .call 1 .leave]

theorem run_released_once_stopDuringWrite :
    ∃ c, run step initial stopDuringWrite = some c ∧ c.Finished ∧
      c.shared.ledger.issued = 3 ∧
      ∀ id, id < c.shared.ledger.issued → c.shared.ledger.retired id = 1 := by
  obtain ⟨c, hc, hphases, hstop, hissued⟩ := exists_of_decide
    (run step initial stopDuringWrite)
    (fun c => c.phases = [.write .returned, .read .finished, .write .returned, .write .returned] ∧
      c.shared.stop = .returned ∧ c.shared.ledger.issued = 3) (by decide +kernel)
  have hfinished : c.Finished := by
    refine ⟨?_, .inl hstop⟩
    rw [hphases]
    decide
  exact ⟨c, hc, hfinished, hissued, (run_released_once hc).2.2.2.2.2 hfinished⟩

end EgressSystem

end Voce.Engine
