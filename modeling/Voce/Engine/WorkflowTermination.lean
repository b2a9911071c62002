import Voce.Engine.WorkflowLifecycle

/-! # Termination of workflows

Whether the stopped state is final depends on one step only: the store of the
running state at the end of `Start`. While it never overwrites the stopped
state, a `Stop` call that won the swap reaches every node `Start` has brought
up.
-/

namespace Voce.Engine

open Interleaving Transition List Option Config

/-! ## Invariant -/

/-- The states the workflow can be in, by where `Start` is. -/
def StartPhase.Allows : StartPhase → WorkflowState → Prop
  | .call, state => state = .pending ∨ state = .stopped
  | .node _, state | .rollback _, state => state = .starting ∨ state = .stopped
  | .returned true, state => state = .running ∨ state = .paused ∨ state = .stopped
  | .returned false, state => state = .stopped

/-- The first node that is not running yet or not running any more. -/
def StartPhase.idleFrom : StartPhase → Option Nat
  | .call | .returned false => some 0
  | .node i | .rollback i => some i
  | .returned true => none

theorem StartPhase.allows_stopped (phase : StartPhase) : phase.Allows .stopped := by
  cases phase with
  | returned ok => cases ok <;> simp [Allows]
  | _ => simp [Allows]

/-- The `Stop` call has won the swap and not stopped every node yet. -/
def StopPhase.InProgress : StopPhase → Prop
  | .cancel | .schedulerStop | .node _ => True
  | .swap | .returned => False

namespace Lifecycle

open LifecycleShared

structure Sound (s : LifecycleShared) : Prop where
  accounted : s.Accounted
  idle : ∀ i, s.start.idleFrom = some i → s.Idle (i ≤ ·)
  state : s.start.Allows s.state

structure Knows (phase : StopPhase) (s : LifecycleShared) : Prop where
  stopped : phase.InProgress → s.state = .stopped
  idle : ∀ i, phase = .node i → s.start = .returned true → s.Idle (· < i)

/-- A workflow that was started and then stopped has a `Stop` call at work on
its nodes, or none of them runs. -/
def Covered (c : Lifecycle) : Prop :=
  c.shared.start = .returned true → c.shared.state = .stopped →
    (∃ phase ∈ c.phases, phase.InProgress) ∨ c.shared.Idle fun _ => True

structure Invariant (c : Lifecycle) : Prop where
  outline : Outline Sound Knows (fun _ _ => True) c
  covered : Covered c

theorem initial_invariant (mode : SchedulerMode) (n : Nat) : Invariant (initial mode n) := by
  have hblank : ∀ (j : Nat) (node : NodeStatus),
      (initial mode n).shared.nodes[j]? = some node → node = ⟨false, false, false⟩ := by
    intro j node hj
    simp only [initial, getElem?_replicate, ite_none_right_eq_some] at hj
    exact (some.inj hj.2).symm
  refine ⟨.start _ ⟨?_, ?_, .inl rfl⟩, nofun⟩
  · intro j node hj hstarted
    rw [hblank j node hj] at hstarted
    cases hstarted
  · intro i _ j node hj _
    rw [hblank j node hj]

variable {s : LifecycleShared} {i : Nat}

theorem storesRunning_of_last (hnode : s.start = .node i) (hlast : ¬ i < s.nodes.length) :
    s.storesRunning := by
  simp [storesRunning, hnode, Nat.le_of_not_lt hlast]

/-! ## Steps of `Start` -/

variable {c : Lifecycle}

/-- A step of `Start` that does not complete it. -/
theorem Invariant.starting (hc : Invariant c) (hsound : Sound s)
    (hstate : c.shared.state = .stopped → s.state = .stopped) (hstart : s.start ≠ .returned true) :
    Invariant { c with shared := s } := by
  refine ⟨hc.outline.environment hsound ?_, fun hreturned => absurd hreturned hstart⟩
  intro phase hknows
  exact ⟨fun hprogress => hstate (hknows.stopped hprogress),
    fun _ _ hreturned => absurd hreturned hstart⟩

variable {fails : Bool}

theorem advanceStart_invariant (hc : Invariant c)
    (hok : c.shared.storesRunning → c.shared.state ≠ .stopped)
    (hstep : c.shared.advanceStart fails = some s) : Invariant { c with shared := s } := by
  obtain ⟨haccounted, hidle, hstate⟩ := hc.outline.shared
  unfold advanceStart at hstep
  split at hstep
  next hcall =>
    rw [hcall] at hidle hstate
    rcases hstate with hpending | hstopped
    · rw [hpending] at hstep
      cases hstep
      refine hc.starting ⟨haccounted, ?_, .inl rfl⟩ ?_ nofun
      · intro i hi
        cases hi
        exact hidle 0 rfl
      · intro hstopped
        rw [hpending] at hstopped
        cases hstopped
    · rw [hstopped] at hstep
      cases hstep
      exact hc.starting ⟨haccounted, hidle, rfl⟩ (fun _ => rfl) nofun
  next i hnode =>
    rw [hnode] at hidle hstate
    split at hstep
    · split at hstep
      · cases hstep
        exact hc.starting ⟨haccounted, hidle, hstate⟩ id nofun
      · cases hstep
        refine hc.starting ⟨haccounted.startNode i, ?_, hstate⟩ id nofun
        intro k hk
        cases hk
        exact (hidle i rfl).startNode
    next hlast =>
      cases hstep
      have hrunning : c.shared.state ≠ .stopped := hok (storesRunning_of_last hnode hlast)
      -- nobody has won the swap yet, so no stop call is at work
      refine ⟨hc.outline.environment ⟨haccounted, nofun, .inl rfl⟩ ?_, nofun⟩
      intro phase hknows
      refine ⟨fun hprogress => absurd (hknows.stopped hprogress) hrunning, ?_⟩
      rintro i rfl
      exact absurd (hknows.stopped trivial) hrunning
  next hrollback =>
    rw [hrollback] at hidle
    cases hstep
    refine hc.starting ⟨haccounted, ?_, rfl⟩ (fun _ => rfl) nofun
    intro i hi
    cases hi
    exact hidle 0 rfl
  next i hrollback =>
    rw [hrollback] at hidle hstate
    cases hstep
    refine hc.starting ⟨haccounted.stopNode i, ?_, hstate⟩ id nofun
    intro k hk
    cases hk
    refine ((hidle (i + 1) rfl).stopNode i).mono ?_
    intro j hj
    omega
  · cases hstep

/-! ## Steps of `Stop` and of the nodes' loops -/

theorem Sound.stopNode (hs : Sound s) (i : Nat) : Sound (s.stopNode i) where
  accounted := hs.accounted.stopNode i
  idle k hk := ((hs.idle k hk).stopNode i).mono fun _ => .inl
  state := hs.state

theorem Knows.stopNode {phase} (hs : Knows phase s) (i : Nat) : Knows phase (s.stopNode i) where
  stopped := hs.stopped
  idle k hk hstart := ((hs.idle k hk hstart).stopNode i).mono fun _ => .inl

variable {phase next : StopPhase}

/-- A step of a `Stop` call, which leaves the workflow stopped. -/
theorem Invariant.stopping (hc : Invariant c) (hi : c.phases[i]? = some phase) (hsound : Sound s)
    (hown : Knows next s) (hothers : ∀ other, Knows other c.shared → Knows other s)
    (hcovered : s.start = .returned true → next.InProgress ∨ s.Idle fun _ => True) :
    Invariant (c.update i next s) := by
  refine ⟨hc.outline.update hi hsound hown ?_, ?_⟩
  · exact fun other _ hother _ _ => ⟨hothers other hother, trivial, trivial⟩
  · intro hstart _
    rcases hcovered hstart with hprogress | hidle
    · exact .inl ⟨next, mem_update_self hi next s, hprogress⟩
    · exact .inr hidle

theorem stop_invariant (hc : Invariant c) (hi : c.phases[i]? = some phase)
    (hstep : phase.next c.shared = some (next, s)) : Invariant (c.update i next s) := by
  have hknows := hc.outline.asserted i phase hi
  have hsound := hc.outline.shared
  cases phase with
  | swap =>
    simp only [StopPhase.next] at hstep
    split at hstep
    next hstopped =>
      cases hstep
      refine ⟨hc.outline.update hi hsound ⟨nofun, nofun⟩ ?_, ?_⟩
      · exact fun other _ hother _ _ => ⟨hother, trivial, trivial⟩
      · intro hstart _
        rcases hc.covered hstart hstopped with ⟨other, hother, hprogress⟩ | hidle
        · -- the call at work is another one: this call has not won the swap
          have hne : other ≠ .swap := by
            rintro rfl
            exact hprogress
          exact .inl ⟨other, mem_update_of_ne hi hother hne _ _, hprogress⟩
        · exact .inr hidle
    · cases hstep
      exact hc.stopping hi ⟨hsound.accounted, hsound.idle, StartPhase.allows_stopped _⟩
        ⟨fun _ => rfl, nofun⟩ (fun other hother => ⟨fun _ => rfl, hother.idle⟩)
        fun _ => .inl trivial
  | cancel =>
    cases hstep
    exact hc.stopping hi ⟨hsound.accounted, hsound.idle, hsound.state⟩
      ⟨fun _ => hknows.stopped trivial, nofun⟩ (fun other hother => ⟨hother.stopped, hother.idle⟩)
      fun _ => .inl trivial
  | schedulerStop =>
    cases hstep
    refine hc.stopping hi ⟨hsound.accounted, hsound.idle, hsound.state⟩
      ⟨fun _ => hknows.stopped trivial, ?_⟩ (fun other hother => ⟨hother.stopped, hother.idle⟩)
      fun _ => .inl trivial
    intro k hk _ j node _ hj
    cases hk
    exact absurd hj (Nat.not_lt_zero j)
  | node k =>
    simp only [StopPhase.next] at hstep
    split at hstep
    · cases hstep
      refine hc.stopping hi (hsound.stopNode k) ⟨fun _ => hknows.stopped trivial, ?_⟩
        (fun other hother => hother.stopNode k) fun _ => .inl trivial
      intro k' hk' hstart
      cases hk'
      refine ((hknows.idle k rfl hstart).stopNode k).mono ?_
      intro j hj
      omega
    next hlast =>
      cases hstep
      refine hc.stopping hi ⟨hsound.accounted, hsound.idle, hsound.state⟩ ⟨nofun, nofun⟩
        (fun other hother => ⟨hother.stopped, hother.idle⟩) ?_
      intro hstart
      right
      intro j node hj _
      obtain ⟨hlt, -⟩ := List.getElem?_eq_some_iff.mp hj
      exact hknows.idle k rfl hstart j node hj (lt_of_lt_of_le hlt (Nat.le_of_not_lt hlast))
  | returned => cases hstep

/-! ## Pause and resume -/

theorem Allows.toggle {phase : StartPhase} {state next} (hallows : phase.Allows state)
    (hstate : state = .running ∨ state = .paused) (hnext : next = .running ∨ next = .paused) :
    phase.Allows next := by
  cases phase with
  | returned ok =>
    cases ok with
    | true => exact hnext.elim .inl fun hpaused => .inr (.inl hpaused)
    | false => rcases hstate with rfl | rfl <;> cases hallows
  | _ =>
    rcases hstate with rfl | rfl <;> simp [StartPhase.Allows] at hallows

/-- A pause or a resume that takes effect. -/
theorem Invariant.toggle (hc : Invariant c) {next}
    (hstate : c.shared.state = .running ∨ c.shared.state = .paused)
    (hnext : next = .running ∨ next = .paused) :
    Invariant { c with shared := { c.shared with state := next } } := by
  obtain ⟨haccounted, hidle, hallows⟩ := hc.outline.shared
  have hbefore : c.shared.state ≠ .stopped := by
    rcases hstate with hstate | hstate <;> simp [hstate]
  have hafter : next ≠ .stopped := by
    rcases hnext with rfl | rfl <;> nofun
  refine ⟨hc.outline.environment ⟨haccounted, hidle, Allows.toggle hallows hstate hnext⟩ ?_, ?_⟩
  · exact fun phase hknows =>
      ⟨fun hprogress => absurd (hknows.stopped hprogress) hbefore, hknows.idle⟩
  · exact fun _ hstopped => absurd hstopped hafter

/-! ## Runs -/

theorem step_invariant {c next label} (hc : Invariant c) (hok : c.StoresUnlessStopped label)
    (hstep : step c label = some next) : Invariant next := by
  cases label with
  | start fails =>
    obtain ⟨s, hs, rfl⟩ := map_eq_some_iff.mp hstep
    exact advanceStart_invariant hc hok hs
  | stopCall =>
    cases hstep
    refine ⟨hc.outline.spawn ⟨nofun, nofun⟩ fun _ => ⟨trivial, trivial⟩, ?_⟩
    intro hstart hstopped
    rcases hc.covered hstart hstopped with ⟨phase, hphase, hprogress⟩ | hidle
    · exact .inl ⟨phase, mem_append_left _ hphase, hprogress⟩
    · exact .inr hidle
  | stop i =>
    obtain ⟨phase, moved, s, hi, hnext, rfl⟩ := advance_eq_some hstep
    exact stop_invariant hc hi hnext
  | pause =>
    cases hstep
    rw [WorkflowState.after_pause]
    split
    next hrunning => exact hc.toggle (.inl hrunning) (.inr rfl)
    · exact hc
  | resume =>
    cases hstep
    rw [WorkflowState.after_resume]
    split
    next hpaused => exact hc.toggle (.inr hpaused) (.inl rfl)
    · exact hc
  | loopExit i =>
    obtain ⟨-, hstep⟩ := ite_none_right_eq_some.mp hstep
    cases hstep
    refine ⟨hc.outline.environment (hc.outline.shared.stopNode i)
      fun phase hknows => hknows.stopNode i, ?_⟩
    intro hstart hstopped
    rcases hc.covered hstart hstopped with hprogress | hidle
    · exact .inl hprogress
    · exact .inr ((hidle.stopNode i).mono fun _ _ => .inl trivial)

theorem advanceStart_stopped {s next : LifecycleShared} (hok : s.storesRunning → s.state ≠ .stopped)
    (hstep : s.advanceStart fails = some next) (hstopped : s.state = .stopped) :
    next.state = .stopped := by
  unfold advanceStart at hstep
  split at hstep
  · rw [hstopped] at hstep
    cases hstep
    rfl
  next i hnode =>
    split at hstep
    · split at hstep <;> cases hstep <;> exact hstopped
    next hlast => exact absurd hstopped (hok (storesRunning_of_last hnode hlast))
  · cases hstep
    rfl
  · cases hstep
    exact hstopped
  · cases hstep

theorem stop_stopped {s s'} (hstep : phase.next s = some (next, s'))
    (hstopped : s.state = .stopped) : s'.state = .stopped := by
  cases phase with
  | swap =>
    rw [StopPhase.next, if_pos hstopped] at hstep
    cases hstep
    exact hstopped
  | cancel | schedulerStop =>
    cases hstep
    exact hstopped
  | node k =>
    simp only [StopPhase.next] at hstep
    split at hstep <;> cases hstep <;> exact hstopped
  | returned => cases hstep

/-- No admitted step leaves the stopped state. -/
theorem step_stopped {c next : Lifecycle} {label} (hok : c.StoresUnlessStopped label)
    (hstep : step c label = some next) (hstopped : c.shared.state = .stopped) :
    next.shared.state = .stopped := by
  cases label with
  | start fails =>
    obtain ⟨s, hs, rfl⟩ := map_eq_some_iff.mp hstep
    exact advanceStart_stopped hok hs hstopped
  | stopCall =>
    cases hstep
    exact hstopped
  | stop i =>
    obtain ⟨phase, moved, s, -, hnext, rfl⟩ := advance_eq_some hstep
    exact stop_stopped hnext hstopped
  | pause =>
    cases hstep
    simp [WorkflowState.after_pause, hstopped]
  | resume =>
    cases hstep
    simp [WorkflowState.after_resume, hstopped]
  | loopExit i =>
    obtain ⟨-, hstep⟩ := ite_none_right_eq_some.mp hstep
    cases hstep
    exact hstopped

/-- The store of the running state takes effect whatever the state was. -/
theorem step_of_storesRunning {c next} (hstores : c.shared.storesRunning)
    (hstep : step c (.start fails) = some next) : next.shared.state = .running := by
  simp only [step, map_eq_some_iff] at hstep
  obtain ⟨s, hs, rfl⟩ := hstep
  unfold storesRunning at hstores
  split at hstores
  next i hnode =>
    have hlast : ¬ i < c.shared.nodes.length := not_lt.mpr (of_decide_eq_true hstores)
    simp only [advanceStart, hnode, if_neg hlast] at hs
    cases hs
    rfl
  · cases hstores

/-- When all calls on a stopped workflow have returned, no node runs. -/
theorem Invariant.idle_of_returned (hc : Invariant c) (hstopped : c.shared.state = .stopped)
    (hreturned : c.Returned) : c.shared.Idle fun _ => True := by
  obtain ⟨⟨ok, hstart⟩, hphases⟩ := hreturned
  cases ok with
  | false =>
    have hidle := hc.outline.shared.idle 0 (by rw [hstart]; rfl)
    exact hidle.mono fun j _ => Nat.zero_le j
  | true =>
    rcases hc.covered hstart hstopped with ⟨phase, hphase, hprogress⟩ | hidle
    · rw [hphases phase hphase] at hprogress
      exact absurd hprogress id
    · exact hidle

/-- The stopped state is terminal along a run exactly if `Start` never stores
the running state over it. -/
theorem run_terminal_iff (mode : SchedulerMode) (n : Nat) (labels : List Label) {final : Lifecycle}
    (hrun : run step (initial mode n) labels = some final) :
    Terminal (initial mode n) labels ↔
      Meets step StoresUnlessStopped (initial mode n) labels := by
  constructor
  · intro hterminal
    by_contra hnot
    obtain ⟨before, label, rest, c, next, rfl, hbefore, hnext, hrefused⟩ :=
      exists_of_not_meets hrun hnot
    cases label with
    | start fails =>
      simp only [StoresUnlessStopped, not_forall, not_not] at hrefused
      obtain ⟨hstores, hstopped⟩ := hrefused
      have hone : run step c [.start fails] = some next :=
        run_cons_eq_some.mpr ⟨next, hnext, rfl⟩
      have hstill := (hterminal before [.start fails] rest c next (by simp) hbefore hone hstopped).1
      rw [step_of_storesRunning hstores hnext] at hstill
      cases hstill
    | _ => exact absurd trivial hrefused
  · rintro hmeets before after rest c c' rfl hbefore hafter hstopped
    -- the invariant is carried to the stopped state and from there to the later one
    rw [append_assoc] at hmeets
    obtain ⟨hmeetsBefore, hmeets⟩ := (meets_append hbefore).mp hmeets
    obtain ⟨hmeetsAfter, -⟩ := (meets_append hafter).mp hmeets
    have hc := run_invariant_of_meets Invariant
      step_invariant (initial_invariant mode n)
      hmeetsBefore hbefore
    have hc' := run_invariant_of_meets Invariant
      step_invariant hc hmeetsAfter hafter
    have hstopped' := run_invariant_of_meets
      (fun c : Lifecycle => c.shared.state = .stopped)
      (fun hstopped hok hstep => step_stopped hok hstep hstopped) hstopped hmeetsAfter hafter
    refine ⟨hstopped', ?_⟩
    intro hreturned node hnode hstarted
    obtain ⟨j, hj⟩ := mem_iff_getElem?.mp hnode
    have hidle := hc'.idle_of_returned hstopped' hreturned j node hj trivial
    rcases hc'.outline.shared.accounted j node hj hstarted with hrunning | hdone
    · rw [hidle] at hrunning
      cases hrunning
    · exact hdone

/-- `Start` of two nodes completes, the workflow is paused and then stopped. -/
def orderlyRun : List Label :=
  replicate 4 (Label.start false) ++ [Label.pause, .stopCall] ++
    replicate 6 (Label.stop 0)

theorem orderlyRun_terminal : ∃ c : Lifecycle,
    run step (initial .workerPool 2) orderlyRun = some c ∧ c.Returned ∧
      c.shared.nodes = [⟨true, false, true⟩, ⟨true, false, true⟩] ∧
      Terminal (initial .workerPool 2) orderlyRun := by
  refine ⟨_, rfl, ⟨⟨true, rfl⟩, by decide⟩, rfl, ?_⟩
  exact (run_terminal_iff .workerPool 2 orderlyRun rfl).mpr (by decide)

def stopDuringStart : List Label :=
  [Label.start false, .start false, .stopCall] ++ replicate 6 (Label.stop 0)

/-- A complete `Stop` in the middle of `Start` leaves the workflow stopped;
`Start` then brings up the second node and stores the running state. -/
theorem stopDuringStart_not_terminal : ∃ stopped final : Lifecycle,
    run step (initial .workerPool 2) stopDuringStart = some stopped ∧
      stopped.shared.state = .stopped ∧
      run step stopped [.start false, .start false] = some final ∧
      final.Returned ∧ final.shared.state = .running ∧
      final.shared.nodes = [⟨true, false, true⟩, ⟨true, true, false⟩] ∧
      ¬ Terminal (initial .workerPool 2) (stopDuringStart ++ [.start false, .start false]) := by
  refine ⟨_, _, rfl, rfl, rfl, ⟨⟨true, rfl⟩, by decide⟩, rfl, rfl, ?_⟩
  intro hterminal
  have hstopped := (hterminal stopDuringStart [.start false, .start false] [] _ _ (by simp)
    rfl rfl rfl).1
  exact absurd hstopped (by decide)

end Lifecycle

end Voce.Engine
