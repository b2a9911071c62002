import Voce.Engine.Workflow
import Voce.Foundation.Interleaving
import Voce.Foundation.Transition

/-! # Lifecycle calls under interleaving

One `Start` call runs against any number of `Stop`, `Pause` and `Resume` calls
of the same workflow, interleaved at the state's atomic operations, the nodes'
start and stop calls, the cancellations and the close of the output. `Start`
ends with an unconditional store of the running state.
-/

namespace Voce.Engine

open Interleaving Option Transition

structure NodeStatus where
  started : Bool
  running : Bool
  stopped : Bool

inductive StartPhase where
  | call
  /-- Before the start of node `i`, or before the store of the running state if
  there is no node left. -/
  | node (i : Nat)
  /-- In `clearStartError` with nodes below `i` left, or before the store of the
  stopped state if none is. -/
  | rollback (i : Nat)
  | returned (ok : Bool)

inductive StopPhase where
  | swap
  | cancel
  | schedulerStop
  /-- Before the stop of node `i`, or before the close of the output if there is
  no node left. -/
  | node (i : Nat)
  | returned
  deriving DecidableEq

structure LifecycleShared where
  mode : SchedulerMode
  state : WorkflowState
  nodes : List NodeStatus
  cancelled : Bool
  schedulerCancelled : Bool
  outputClosed : Bool
  start : StartPhase

namespace LifecycleShared

variable (s : LifecycleShared)

def startNode (i : Nat) : LifecycleShared :=
  { s with nodes := s.nodes.modify i fun node => { node with started := true, running := true } }

/-- A node that does not run is left alone. -/
def stopNode (i : Nat) : LifecycleShared :=
  { s with nodes := s.nodes.modify i fun node =>
      if node.running then { node with running := false, stopped := true } else node }

/-- The next operation of `Start`. If it is the start of a node, that fails or
not as given. -/
def advanceStart (fails : Bool) : Option LifecycleShared :=
  match s.start with
  | .call =>
    match s.state.start with
    | .ok state => some { s with state := state, start := .node 0 }
    | .error _ => some { s with start := .returned false }
  | .node i =>
    if i < s.nodes.length then
      if fails then some { s with start := .rollback i }
      else some { s.startNode i with start := .node (i + 1) }
    -- a plain store: a stop that came in between is overwritten
    else some { s with state := .running, start := .returned true }
  | .rollback 0 => some { s with state := .stopped, start := .returned false }
  | .rollback (i + 1) => some { s.stopNode i with start := .rollback i }
  | .returned _ => none

/-- The next operation of `Start` is the store of the running state. -/
def storesRunning : Bool :=
  match s.start with
  | .node i => s.nodes.length ≤ i
  | _ => false

end LifecycleShared

def StopPhase.next (s : LifecycleShared) : StopPhase → Option (StopPhase × LifecycleShared)
  | .swap =>
    if s.state = .stopped then some (.returned, s)
    else some (.cancel, { s with state := .stopped })
  | .cancel => some (.schedulerStop, { s with cancelled := true })
  | .schedulerStop =>
    some (.node 0, { s with schedulerCancelled :=
      s.schedulerCancelled || decide (s.mode = .workerPool) })
  | .node i =>
    if i < s.nodes.length then some (.node (i + 1), s.stopNode i)
    else some (.returned, { s with outputClosed := true })
  | .returned => none

/-- A workflow with its `Start` call and the `Stop` calls that were ever made. -/
abbrev Lifecycle := Config LifecycleShared StopPhase

namespace Lifecycle

inductive Label where
  | start (fails : Bool)
  | stopCall
  | stop (call : Nat)
  | pause
  | resume
  | loopExit (i : Nat)

def step (c : Lifecycle) : Label → Option Lifecycle
  | .start fails => (c.shared.advanceStart fails).map fun shared => { c with shared := shared }
  | .stopCall => some (c.spawn .swap)
  | .stop i => c.advance (StopPhase.next c.shared) i
  | .pause => some { c with shared :=
      { c.shared with state := c.shared.state.after c.shared.state.pause } }
  | .resume => some { c with shared :=
      { c.shared with state := c.shared.state.after c.shared.state.resume } }
  | .loopExit i =>
    if c.shared.mode = .threadPerNode ∧ c.shared.cancelled then
      some { c with shared := c.shared.stopNode i }
    else none

def initial (mode : SchedulerMode) (n : Nat) : Lifecycle :=
  ⟨⟨mode, .pending, List.replicate n ⟨false, false, false⟩, false, false, false, .call⟩, []⟩

def Returned (c : Lifecycle) : Prop :=
  (∃ ok, c.shared.start = .returned ok) ∧ ∀ phase ∈ c.phases, phase = .returned

/-- From a stopped state on, every later state of the run is stopped, and if all
calls have returned every node that was started has been stopped. -/
def Terminal (initial : Lifecycle) (labels : List Label) : Prop :=
  ∀ before after rest c c', labels = before ++ after ++ rest →
    run step initial before = some c → run step c after = some c' →
    c.shared.state = .stopped → c'.shared.state = .stopped ∧
      (c'.Returned → ∀ node ∈ c'.shared.nodes, node.started → node.stopped)

/-- `Start` does not store the running state over the stopped one. -/
def StoresUnlessStopped (c : Lifecycle) : Label → Prop
  | .start _ => c.shared.storesRunning → c.shared.state ≠ .stopped
  | _ => True

instance (c : Lifecycle) : DecidablePred (StoresUnlessStopped c)
  | .start _ => inferInstanceAs (Decidable (_ → _))
  | .stopCall | .stop _ | .pause | .resume | .loopExit _ => .isTrue trivial

end Lifecycle

/-! ## Nodes -/

namespace LifecycleShared

/-- The nodes at some indices do not run. -/
def Idle (s : LifecycleShared) (p : Nat → Prop) : Prop :=
  ∀ (j : Nat) (node : NodeStatus), s.nodes[j]? = some node → p j → node.running = false

/-- A node that was started runs or has been stopped. -/
def Accounted (s : LifecycleShared) : Prop :=
  ∀ (j : Nat) (node : NodeStatus), s.nodes[j]? = some node → node.started →
    node.running ∨ node.stopped

variable {s : LifecycleShared}

theorem Idle.mono {p q : Nat → Prop} (hs : s.Idle p) (hpq : ∀ j, q j → p j) : s.Idle q :=
  fun j node hj hq => hs j node hj (hpq j hq)

theorem stopNode_nodes (s : LifecycleShared) (i j : Nat) {node}
    (hj : (s.stopNode i).nodes[j]? = some node) :
    ∃ old, s.nodes[j]? = some old ∧ node =
      if i = j ∧ old.running then { old with running := false, stopped := true } else old := by
  simp only [stopNode, List.getElem?_modify, map_eq_map, map_eq_some_iff] at hj
  obtain ⟨old, hold, rfl⟩ := hj
  refine ⟨old, hold, ?_⟩
  by_cases hij : i = j <;> simp [hij]

theorem startNode_nodes (s : LifecycleShared) (i j : Nat) {node}
    (hj : (s.startNode i).nodes[j]? = some node) :
    ∃ old, s.nodes[j]? = some old ∧ node =
      if i = j then { old with started := true, running := true } else old := by
  simp only [startNode, List.getElem?_modify, map_eq_map, map_eq_some_iff] at hj
  obtain ⟨old, hold, rfl⟩ := hj
  exact ⟨old, hold, rfl⟩

theorem Idle.stopNode {p : Nat → Prop} (hs : s.Idle p) (i : Nat) :
    (s.stopNode i).Idle fun j => p j ∨ j = i := by
  intro j node hj hp
  obtain ⟨old, hold, rfl⟩ := s.stopNode_nodes i j hj
  split
  · rfl
  next hnot =>
    rcases hp with hp | rfl
    · exact hs j old hold hp
    · exact Bool.eq_false_iff.mpr fun hrunning => hnot ⟨rfl, hrunning⟩

theorem Idle.startNode {i} (hs : s.Idle (i ≤ ·)) : (s.startNode i).Idle (i + 1 ≤ ·) := by
  intro j node hj hle
  obtain ⟨old, hold, rfl⟩ := s.startNode_nodes i j hj
  rw [if_neg (by omega)]
  exact hs j old hold (by omega)

theorem Accounted.stopNode (hs : s.Accounted) (i : Nat) : (s.stopNode i).Accounted := by
  intro j node hj
  obtain ⟨old, hold, rfl⟩ := s.stopNode_nodes i j hj
  split
  · exact fun _ => .inr rfl
  · exact hs j old hold

theorem Accounted.startNode (hs : s.Accounted) (i : Nat) : (s.startNode i).Accounted := by
  intro j node hj
  obtain ⟨old, hold, rfl⟩ := s.startNode_nodes i j hj
  split
  · exact fun _ => .inl rfl
  · exact hs j old hold

end LifecycleShared

end Voce.Engine
