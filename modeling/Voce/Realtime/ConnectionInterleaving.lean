import Voce.Engine.WorkflowState
import Voce.Foundation.Interleaving
import Voce.Foundation.Transition

/-! # Concurrent connections of the standalone server

WebSocket and gRPC connections to one session interleave at their atomic
operations: the session's `Acquire` and `Release`, the reads of the workflow
state, `Resume` and `Pause`. Both close paths release the session before they
read the state and pause, and a WebSocket that was rejected runs its close path
too.
-/

namespace Voce.Realtime

open Engine Interleaving Transition

inductive Transport where
  | webSocket
  | grpc

/-- What the connections of one session share. -/
structure SessionCells where
  busy : Bool
  workflow : WorkflowState

/-- Where a connection is, by the next atomic operation of its handler. -/
inductive ConnectionPhase where
  | acquire (t : Transport)
  /-- A WebSocket that found the session busy and has not closed yet. -/
  | rejected
  | openCheck (t : Transport)
  | resume (t : Transport)
  /-- The open handler has finished and the session is held. -/
  | live (t : Transport)
  | release (t : Transport)
  | closeCheck (t : Transport)
  | pause (t : Transport)
  | closed

namespace ConnectionPhase

/-- The next atomic operation of `SocketHandler.OnOpen` and `OnClose`, or of
`StreamService.RealtimeStream`. -/
def next (s : SessionCells) : ConnectionPhase → Option (ConnectionPhase × SessionCells)
  | .acquire t =>
    if s.busy then
      match t with
      | .webSocket => some (.rejected, s)
      | .grpc => some (.closed, s)
    else some (.openCheck t, { s with busy := true })
  | .rejected => none
  | .openCheck t => if s.workflow = .paused then some (.resume t, s) else some (.live t, s)
  | .resume t =>
    match s.workflow.resume with
    | .ok workflow => some (.live t, { s with workflow := workflow })
    | .error _ =>
      match t with
      | .webSocket => some (.live t, s)
      | .grpc => some (.release t, s)
  | .live _ => none
  -- the session is free before the workflow is paused
  | .release t => some (.closeCheck t, { s with busy := false })
  | .closeCheck t => if s.workflow = .running then some (.pause t, s) else some (.closed, s)
  | .pause _ => some (.closed, { s with workflow := s.workflow.after s.workflow.pause })
  | .closed => none

def close : ConnectionPhase → Option ConnectionPhase
  | .rejected => some (.closeCheck .webSocket)
  | .live t => some (.release t)
  | _ => none

def Settled : ConnectionPhase → Prop
  | .rejected | .live _ | .closed => True
  | _ => False

instance : DecidablePred Settled
  | .rejected | .live _ | .closed => .isTrue trivial
  | .acquire _ | .openCheck _ | .resume _ | .release _ | .closeCheck _ | .pause _ => .isFalse id

/-- The connection holds the session and its open handler has finished. -/
def isLive : ConnectionPhase → Bool
  | .live _ => true
  | _ => false

def isPausing : ConnectionPhase → Bool
  | .pause _ => true
  | _ => false

def Holds : ConnectionPhase → Prop
  | .openCheck _ | .resume _ | .live _ | .release _ => True
  | _ => False

end ConnectionPhase

abbrev Connections := Config SessionCells ConnectionPhase

namespace Connections

inductive Label where
  | open (t : Transport)
  | advance (connection : Nat)
  | close (connection : Nat)

variable (c : Connections)

def step : Label → Option Connections
  | .open t => some (c.spawn (.acquire t))
  | .advance i => c.advance (ConnectionPhase.next c.shared) i
  | .close i => c.advance (fun phase => phase.close.map fun next => (next, c.shared)) i

def initial : Connections := ⟨⟨false, .running⟩, []⟩

/-- With no handler in progress, a session held by a live connection has a
workflow that is not paused. -/
def InStep : Prop :=
  (∀ phase ∈ c.phases, phase.Settled) → c.shared.busy = true →
    (∃ phase ∈ c.phases, phase.isLive) → c.shared.workflow ≠ .paused

/-- A pause that takes effect does so while no connection is live. -/
def PausesUnattended : Label → Prop
  | .advance i => c.phases[i]?.any ConnectionPhase.isPausing → c.shared.workflow = .running →
      ∀ phase ∈ c.phases, ¬ phase.isLive
  | _ => True

instance : DecidablePred (PausesUnattended c)
  | .advance _ => inferInstanceAs (Decidable (_ → _ → _))
  | .open _ | .close _ => .isTrue trivial

/-! ## Exclusion and what the phases know -/

structure Knows (phase : ConnectionPhase) (s : SessionCells) : Prop where
  busy : phase.Holds → s.busy = true
  resume : ∀ t, phase = .resume t → s.workflow = .paused
  live : ∀ t, phase = .live t → s.workflow = .running

def Apart (phase other : ConnectionPhase) : Prop := ¬ (phase.Holds ∧ other.Holds)

abbrev Invariant : Prop :=
  Outline (fun s => s.workflow.Started) Knows Apart c

variable {c : Connections} {i : Nat}

/-- A step of a connection that leaves the workflow alone and acquires nothing. -/
theorem Invariant.quiet (hc : Invariant c) {phase next} (hi : c.phases[i]? = some phase)
    (hown : Knows next c.shared) (hholds : next.Holds → phase.Holds) :
    Invariant (c.update i next c.shared) := by
  refine hc.update hi hc.shared hown ?_
  intro other _ hother hleft hright
  exact ⟨hother, fun h => hleft ⟨hholds h.1, h.2⟩, fun h => hright ⟨h.1, hholds h.2⟩⟩

variable {t : Transport}

theorem acquire_invariant (hc : Invariant c) (hi : c.phases[i]? = some (.acquire t))
    (hfree : c.shared.busy = false) :
    Invariant (c.update i (.openCheck t) { c.shared with busy := true }) := by
  refine hc.update hi hc.shared ⟨fun _ => rfl, nofun, nofun⟩ ?_
  intro other _ hother _ _
  have hnot : ¬ other.Holds := by
    intro hholds
    have hbusy := hother.busy hholds
    rw [hfree] at hbusy
    cases hbusy
  exact ⟨⟨fun _ => rfl, hother.resume, hother.live⟩, fun h => hnot h.2, fun h => hnot h.1⟩

theorem resume_invariant (hc : Invariant c) (hi : c.phases[i]? = some (.resume t)) :
    Invariant (c.update i (.live t) { c.shared with workflow := .running }) := by
  refine hc.update hi (.inl rfl) ⟨fun _ => (hc.asserted i _ hi).busy trivial, nofun,
    fun _ _ => rfl⟩ ?_
  intro other _ hother hleft hright
  refine ⟨⟨hother.busy, ?_, fun _ _ => rfl⟩, fun h => hleft ⟨trivial, h.2⟩,
    fun h => hright ⟨h.1, trivial⟩⟩
  rintro t' rfl
  exact absurd ⟨trivial, trivial⟩ hleft

theorem release_invariant (hc : Invariant c) (hi : c.phases[i]? = some (.release t)) :
    Invariant (c.update i (.closeCheck t) { c.shared with busy := false }) := by
  refine hc.update hi hc.shared ⟨nofun, nofun, nofun⟩ ?_
  intro other _ hother hleft _
  have hnot : ¬ other.Holds := fun hholds => hleft ⟨trivial, hholds⟩
  exact ⟨⟨fun h => absurd h hnot, hother.resume, hother.live⟩, fun h => hnot h.2, fun h => hnot h.1⟩

theorem pause_invariant (hc : Invariant c) (hi : c.phases[i]? = some (.pause t))
    (hnone : c.shared.workflow = .running → ∀ phase ∈ c.phases, ¬ phase.isLive) :
    Invariant (c.update i .closed
      { c.shared with workflow := c.shared.workflow.after c.shared.workflow.pause }) := by
  rw [hc.shared.after_pause]
  refine hc.update hi (.inr rfl) ⟨nofun, nofun, nofun⟩ ?_
  intro other hmem hother _ _
  refine ⟨⟨hother.busy, fun _ _ => rfl, ?_⟩, fun h => h.1, fun h => h.2⟩
  -- a live connection elsewhere would see its workflow paused
  rintro t' rfl
  exact absurd rfl (hnone (hother.live t' rfl) _ hmem)

theorem advance_invariant (hc : Invariant c) {phase next shared} (hi : c.phases[i]? = some phase)
    (hok : c.PausesUnattended (.advance i)) (hnext : phase.next c.shared = some (next, shared)) :
    Invariant (c.update i next shared) := by
  have hknows := hc.asserted i phase hi
  cases phase with
  | acquire t =>
    simp only [ConnectionPhase.next] at hnext
    split at hnext
    · cases t with
      | webSocket | grpc =>
        cases hnext
        exact hc.quiet hi ⟨nofun, nofun, nofun⟩ nofun
    next hfree =>
      cases hnext
      exact acquire_invariant hc hi (Bool.eq_false_iff.mpr hfree)
  | openCheck t =>
    simp only [ConnectionPhase.next] at hnext
    split at hnext
    next hpaused =>
      cases hnext
      exact hc.quiet hi ⟨fun _ => hknows.busy trivial, fun _ _ => hpaused, nofun⟩ fun _ => trivial
    next hnot =>
      cases hnext
      have hrunning := hc.shared.resolve_right hnot
      exact hc.quiet hi ⟨fun _ => hknows.busy trivial, nofun, fun _ _ => hrunning⟩
        fun _ => trivial
  | resume t =>
    have hresume : c.shared.workflow.resume = .ok .running := by
      rw [hknows.resume t rfl]
      rfl
    simp only [ConnectionPhase.next, hresume] at hnext
    cases hnext
    exact resume_invariant hc hi
  | release t =>
    cases hnext
    exact release_invariant hc hi
  | closeCheck t =>
    simp only [ConnectionPhase.next] at hnext
    split at hnext
    · cases hnext
      exact hc.quiet hi ⟨nofun, nofun, nofun⟩ nofun
    · cases hnext
      exact hc.quiet hi ⟨nofun, nofun, nofun⟩ nofun
  | pause t =>
    cases hnext
    exact pause_invariant hc hi (hok (by rw [hi]; rfl))
  | rejected | live t | closed => cases hnext

theorem step_invariant {c next label} (hc : Invariant c) (hok : c.PausesUnattended label)
    (hstep : step c label = some next) : Invariant next := by
  cases label with
  | «open» t =>
    cases hstep
    exact hc.spawn ⟨nofun, nofun, nofun⟩ fun other => ⟨fun h => h.1, fun h => h.2⟩
  | advance i =>
    obtain ⟨phase, moved, shared, hi, hnext, rfl⟩ := Config.advance_eq_some hstep
    exact advance_invariant hc hi hok hnext
  | close i =>
    obtain ⟨phase, moved, shared, hi, hclose, rfl⟩ := Config.advance_eq_some hstep
    have hknows := hc.asserted i phase hi
    cases phase <;> cases hclose
    · exact hc.quiet hi ⟨nofun, nofun, nofun⟩ nofun
    · exact hc.quiet hi ⟨fun _ => hknows.busy trivial, nofun, nofun⟩ fun _ => trivial

/-! ## Connections and workflow in step -/

theorem Invariant.inStep (hc : Invariant c) : InStep c := by
  rintro _ _ ⟨phase, hmem, hlive⟩ hpaused
  obtain ⟨i, hi⟩ := List.mem_iff_getElem?.mp hmem
  cases phase with
  | live t =>
    have hrunning := (hc.asserted i _ hi).live t rfl
    rw [hpaused] at hrunning
    cases hrunning
  | _ => cases hlive

/-- Connections and workflow stay in step in every run in which pauses take
effect only while no connection is live. -/
theorem run_inStep (labels : List Label) {c : Connections}
    (hmeets : Meets step PausesUnattended initial labels)
    (hrun : run step initial labels = some c) : InStep c := by
  have hinvariant : Invariant c :=
    run_invariant_of_meets Invariant step_invariant (.start _ (.inl rfl)) hmeets hrun
  exact hinvariant.inStep

/-- A WebSocket opens, and its close handler runs up to the pause. -/
def openAndLeave (connection : Nat) : List Label :=
  [.open .webSocket, .advance connection, .advance connection, .close connection,
    .advance connection, .advance connection]

/-- The first connection has paused when the second one opens and resumes. -/
theorem run_inStep_reconnect : ∃ c : Connections,
    run step initial (openAndLeave 0 ++
      [.advance 0, .open .grpc, .advance 1, .advance 1, .advance 1]) = some c ∧
      c.phases = [.closed, .live .grpc] ∧ c.shared.workflow ≠ .paused := by
  refine ⟨_, rfl, rfl, ?_⟩
  exact run_inStep
    (openAndLeave 0 ++ [Label.advance 0, .open .grpc, .advance 1, .advance 1, .advance 1])
    (by decide) rfl (by decide) rfl (by decide)

/-- The second connection opens between the first one's release and its pause,
and is left holding a paused workflow. -/
theorem reconnect_before_pause_not_inStep : ∃ c : Connections,
    run step initial (openAndLeave 0 ++
      [.open .webSocket, .advance 1, .advance 1, .advance 0]) = some c ∧
      c.phases = [.closed, .live .webSocket] ∧ c.shared = ⟨true, .paused⟩ ∧ ¬ InStep c := by
  refine ⟨_, rfl, rfl, rfl, ?_⟩
  intro hstep
  exact absurd rfl (hstep (by decide) rfl (by decide))

end Connections

end Voce.Realtime
