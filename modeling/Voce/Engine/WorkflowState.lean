import Mathlib.Data.List.Basic

/-! # Workflow state

The workflow's state is one atomic cell. Its lifecycle calls change it by
compare-and-swap, by swap or by an unconditional store; what else the calls do
follows the change.
-/

namespace Voce.Engine

inductive WorkflowState where
  | pending
  | starting
  | running
  | paused
  | stopped
  deriving DecidableEq

namespace WorkflowState

/-- The numeric code that error texts show. -/
def code : WorkflowState → Nat
  | .pending => 0
  | .starting => 1
  | .running => 2
  | .paused => 3
  | .stopped => 4

variable (state : WorkflowState)

def start : Except String WorkflowState :=
  if state = .pending then .ok .starting
  else .error ("workflow cannot be started (current state: " ++ toString state.code ++ ")")

def pause : Except String WorkflowState :=
  if state = .running then .ok .paused
  else .error ("workflow cannot be paused (current state: " ++ toString state.code ++ ")")

def resume : Except String WorkflowState :=
  if state = .paused then .ok .running
  else .error "workflow cannot be resumed from current state"

/-- The state a call leaves: a failed one leaves it as it was. -/
def after : Except String WorkflowState → WorkflowState
  | .ok next => next
  | .error _ => state

/-- A workflow that has started and not stopped is running or paused. -/
def Started : Prop :=
  state = .running ∨ state = .paused

theorem after_pause : state.after state.pause = if state = .running then .paused else state := by
  unfold pause
  split
  · rfl
  · rfl

theorem after_resume : state.after state.resume = if state = .paused then .running else state := by
  unfold resume
  split
  · rfl
  · rfl

theorem Started.after_pause {state : WorkflowState} (hstarted : state.Started) :
    state.after state.pause = .paused := by
  rcases hstarted with rfl | rfl <;> rfl

theorem Started.after_resume {state : WorkflowState} (hstarted : state.Started) :
    state.after state.resume = .running := by
  rcases hstarted with rfl | rfl <;> rfl

end WorkflowState

end Voce.Engine
