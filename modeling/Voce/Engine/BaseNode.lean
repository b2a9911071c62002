import Voce.Engine.PluginTrace

/-! # Base of a node

`Start` and `Ready` are the same in both scheduler modes, up to the loop that
`Start` launches in thread-per-node mode. Each is called once at most, `Ready`
by `Workflow.Start` once `Start` has returned.
-/

namespace Voce.Engine

inductive NodeStart where
  | notCalled
  | onStart
  | failed
  /-- Before `running.Store(true)`. -/
  | storeRunning
  /-- Before `go n.readLoop()`. -/
  | goLoop
  | returned
  deriving DecidableEq

inductive NodeReady where
  | notCalled
  /-- Before `running.Load()`. -/
  | check
  | call
  | onReady
  | returned
  deriving DecidableEq

structure BaseNode where
  running : Bool
  start : NodeStart
  ready : NodeReady
  trace : List Observation

namespace BaseNode

def initial : BaseNode := ⟨false, .notCalled, .notCalled, []⟩

def observe (n : BaseNode) (observation : Observation) : BaseNode :=
  { n with trace := n.trace ++ [observation] }

/-- `Start` up to the store of the running flag and what comes after it. -/
def startStep (n : BaseNode) (launched : NodeStart) (succeeds : Bool) : Option BaseNode :=
  match n.start with
  | .notCalled => some ({ n with start := .onStart }.observe (.enter .onStart))
  | .onStart =>
    if succeeds then some ({ n with start := .storeRunning }.observe (.leave .onStart))
    else some ({ n with start := .failed }.observe .startFailed)
  | .storeRunning => some { n with start := launched, running := true }
  | .failed | .goLoop | .returned => none

def readyStep (n : BaseNode) : Option BaseNode :=
  match n.ready with
  | .notCalled =>
    match n.start with
    | .returned => some { n with ready := .check }
    | _ => none
  | .check => some { n with ready := if n.running then .call else .returned }
  | .call => some ({ n with ready := .onReady }.observe (.enter .onReady))
  | .onReady => some ({ n with ready := .returned }.observe (.leave .onReady))
  | .returned => none

inductive Starts (n : BaseNode) (launched : NodeStart) : BaseNode → Prop where
  | call (hstart : n.start = .notCalled) :
      Starts n launched ({ n with start := .onStart }.observe (.enter .onStart))
  | succeed (hstart : n.start = .onStart) :
      Starts n launched ({ n with start := .storeRunning }.observe (.leave .onStart))
  | fail (hstart : n.start = .onStart) :
      Starts n launched ({ n with start := .failed }.observe .startFailed)
  | store (hstart : n.start = .storeRunning) :
      Starts n launched { n with start := launched, running := true }

variable {n next : BaseNode}

theorem starts_of_startStep {launched succeeds}
    (hstep : n.startStep launched succeeds = some next) : n.Starts launched next := by
  unfold startStep at hstep
  split at hstep
  next hstart =>
    cases hstep
    exact .call hstart
  next hstart =>
    split at hstep
    · cases hstep
      exact .succeed hstart
    · cases hstep
      exact .fail hstart
  next hstart =>
    cases hstep
    exact .store hstart
  · cases hstep
  · cases hstep
  · cases hstep

theorem Starts.unreturned {launched} (hstarts : n.Starts launched next) : n.start ≠ .returned := by
  cases hstarts with
  | call hstart | succeed hstart | fail hstart | store hstart =>
    rw [hstart]
    nofun

inductive Readies (n : BaseNode) : BaseNode → Prop where
  | call (hready : n.ready = .notCalled) (hstart : n.start = .returned) :
      Readies n { n with ready := .check }
  | find (hready : n.ready = .check) (hrunning : n.running = true) :
      Readies n { n with ready := .call }
  | skip (hready : n.ready = .check) : Readies n { n with ready := .returned }
  | enter (hready : n.ready = .call) :
      Readies n ({ n with ready := .onReady }.observe (.enter .onReady))
  | leave (hready : n.ready = .onReady) :
      Readies n ({ n with ready := .returned }.observe (.leave .onReady))

theorem readies_of_readyStep (hstep : n.readyStep = some next) : n.Readies next := by
  unfold readyStep at hstep
  split at hstep
  next hready =>
    split at hstep
    next hstart =>
      cases hstep
      exact .call hready hstart
    · cases hstep
  next hready =>
    cases hstep
    split
    next hrunning => exact .find hready hrunning
    · exact .skip hready
  next hready =>
    cases hstep
    exact .enter hready
  next hready =>
    cases hstep
    exact .leave hready
  · cases hstep

end BaseNode

end Voce.Engine
