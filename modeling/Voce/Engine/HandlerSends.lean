import Voce.Engine.BaseNode
import Voce.Foundation.WaitFor

/-! # Sends of a handler

A handler sends events to the next nodes of its own node with `SendSignal`,
`SendPayload`, `SendAudio`, `SendVideo` and their variants for a port. Each of
them calls `Input` of the targets one after the other, on the goroutine of the
handler. A handler that terminates is, for its node, a finite list of sends.
-/

namespace Voce.Engine

open List

structure Send (Value : Type) where
  port : Option Nat
  kind : EventKind
  value : Value
  deriving DecidableEq

/-- The targets of a node's sends, in the order of its tables. -/
abbrev Routes (Node : Type) := Node → Option Nat → EventKind → List Node

def Routes.Edge {Node : Type} (routes : Routes Node) (i j : Node) : Prop :=
  ∃ port kind, j ∈ routes i port kind

inductive HandlerPhase (Node Call Value : Type) where
  | ready (sends : List (Send Value))
  | routing (send : Send Value) (targets : List Node) (rest : List (Send Value))
  | input (target : Node) (call : Call) (send : Send Value) (targets : List Node)
      (rest : List (Send Value))
  deriving DecidableEq

namespace HandlerPhase

variable {Node Call Value : Type}

def Done (phase : HandlerPhase Node Call Value) : Prop := phase = .ready []

/-- Everything the handler is in the middle of goes along an edge. -/
def OnRoute (phase : HandlerPhase Node Call Value) (routes : Routes Node) (i : Node) : Prop :=
  match phase with
  | .ready _ => True
  | .routing send targets _ => ∀ j ∈ targets, j ∈ routes i send.port send.kind
  | .input target _ send targets _ => ∀ j ∈ target :: targets, j ∈ routes i send.port send.kind

section Step

variable {State : Type} (routes : Routes Node) (i : Node) (silent : Prop) [Decidable silent]
  (call : Node → Send Value → Call) (inputStep : Node → Call → Option (Option Call × State))
  (state : State)

/-- The next step of a handler. A send does nothing if the node is `silent`: not
running, or its context cancelled. `call` begins `Input` of a target, and
`inputStep` is a step in it, after which it may have returned. -/
def step : HandlerPhase Node Call Value →
    Option (HandlerPhase Node Call Value × State)
  | .ready [] => none
  | .ready (send :: rest) =>
    if silent ∨ routes i send.port send.kind = [] then some (.ready rest, state)
    else some (.routing send (routes i send.port send.kind) rest, state)
  | .routing _ [] rest => some (.ready rest, state)
  | .routing send (target :: targets) rest =>
    some (.input target (call target send) send targets rest, state)
  | .input target current send targets rest =>
    (inputStep target current).map fun moved =>
      (match moved.1 with
        | some next => .input target next send targets rest
        | none => .routing send targets rest, moved.2)

inductive Steps : HandlerPhase Node Call Value → HandlerPhase Node Call Value → State → Prop where
  | skip (send : Send Value) (rest : List (Send Value))
      (hskip : silent ∨ routes i send.port send.kind = []) :
      Steps (.ready (send :: rest)) (.ready rest) state
  | route (send : Send Value) (rest : List (Send Value)) :
      Steps (.ready (send :: rest)) (.routing send (routes i send.port send.kind) rest) state
  | sent (send : Send Value) (rest : List (Send Value)) :
      Steps (.routing send [] rest) (.ready rest) state
  | enter (send : Send Value) (target : Node) (targets : List Node) (rest : List (Send Value)) :
      Steps (.routing send (target :: targets) rest)
        (.input target (call target send) send targets rest) state
  | move (target : Node) (current next : Call) (send : Send Value) (targets : List Node)
      (rest : List (Send Value)) (after : State)
      (hstep : inputStep target current = some (some next, after)) :
      Steps (.input target current send targets rest) (.input target next send targets rest) after
  | leave (target : Node) (current : Call) (send : Send Value) (targets : List Node)
      (rest : List (Send Value)) (after : State)
      (hstep : inputStep target current = some (none, after)) :
      Steps (.input target current send targets rest) (.routing send targets rest) after

variable {routes i silent call inputStep state} {phase next : HandlerPhase Node Call Value}
  {after : State}

theorem steps_of_step
    (hstep : step routes i silent call inputStep state phase = some (next, after)) :
    Steps routes i silent call inputStep state phase next after := by
  cases phase with
  | ready sends =>
    cases sends with
    | nil => cases hstep
    | cons send rest =>
      simp only [step] at hstep
      split at hstep
      next hskip =>
        cases hstep
        exact .skip send rest hskip
      · cases hstep
        exact .route send rest
  | routing send targets rest =>
    cases targets with
    | nil =>
      cases hstep
      exact .sent send rest
    | cons target targets =>
      cases hstep
      exact .enter send target targets rest
  | input target current send targets rest =>
    obtain ⟨⟨moved, reached⟩, hinput, heq⟩ := Option.map_eq_some_iff.mp hstep
    cases moved with
    | none =>
      cases heq
      exact .leave target current send targets rest reached hinput
    | some moved =>
      cases heq
      exact .move target current moved send targets rest reached hinput

omit [Decidable silent] in
theorem OnRoute.steps (hphase : phase.OnRoute routes i)
    (hsteps : Steps routes i silent call inputStep state phase next after) :
    next.OnRoute routes i := by
  cases hsteps with
  | skip | sent => trivial
  | route send rest => exact fun j hj => hj
  | enter | move => exact hphase
  | leave => exact fun j hj => hphase j (mem_cons_of_mem _ hj)

variable (silent) in
/-- A handler that is not done can step unless it waits in `Input`. -/
theorem exists_step (hdone : ¬ phase.Done) (hinput : ∀ target current send targets rest,
      phase = .input target current send targets rest →
      ∃ moved, inputStep target current = some moved) :
    ∃ moved, step routes i silent call inputStep state phase = some moved := by
  cases phase with
  | ready sends =>
    cases sends with
    | nil => exact absurd rfl hdone
    | cons send rest =>
      simp only [step]
      split
      · exact ⟨_, rfl⟩
      · exact ⟨_, rfl⟩
  | routing send targets rest =>
    cases targets with
    | nil | cons target targets => exact ⟨_, rfl⟩
  | input target current send targets rest =>
    obtain ⟨moved, hmoved⟩ := hinput target current send targets rest rfl
    exact ⟨_, by rw [step, hmoved]; rfl⟩

end Step

end HandlerPhase

/-! ## Handlers that repeat a send -/

namespace HandlerPhase

variable {Node Call Value State : Type} {routes : Routes Node} {i : Node} {silent : Prop}
  {call : Node → Send Value → Call} {inputStep : Node → Call → Option (Option Call × State)}
  {state after : State} {phase next : HandlerPhase Node Call Value} {send : Send Value}

/-- All that is left are repetitions of one send. -/
def Repeats (phase : HandlerPhase Node Call Value) (send : Send Value) : Prop :=
  match phase with
  | .ready sends => ∀ other ∈ sends, other = send
  | .routing current _ rest | .input _ _ current _ rest => ∀ other ∈ current :: rest, other = send

/-- How often the handler still begins `Input` of a target of its sends, or is in it. -/
def due [DecidableEq Node] (phase : HandlerPhase Node Call Value) (target : Node) : Nat :=
  match phase with
  | .ready sends => sends.length
  | .routing _ targets rest => rest.length + if target ∈ targets then 1 else 0
  | .input current _ _ targets rest => rest.length + if target ∈ current :: targets then 1 else 0

/-- The steps until the handler is done, if each send has this number of targets and
`Input` takes three steps. -/
def stepsLeft (phase : HandlerPhase Node Call Value) (fanout : Nat) (callSteps : Call → Nat) :
    Nat :=
  match phase with
  | .ready sends => sends.length * (5 * fanout + 2)
  | .routing _ targets rest => rest.length * (5 * fanout + 2) + 5 * targets.length + 1
  | .input _ current _ targets rest =>
    rest.length * (5 * fanout + 2) + 5 * targets.length + 1 + callSteps current

variable (hphase : phase.Repeats send)
  (hsteps : Steps routes i silent call inputStep state phase next after)
include hphase hsteps

theorem Repeats.steps : next.Repeats send := by
  cases hsteps with
  | skip | sent => exact fun other hother => hphase other (mem_cons_of_mem _ hother)
  | _ => exact hphase

/-- A step forgets a target only when `Input` of it returns. -/
theorem due_steps [DecidableEq Node] {target} (hsilent : ¬ silent)
    (htarget : target ∈ routes i send.port send.kind) :
    phase.due target ≤ next.due target ∨ phase.due target ≤ next.due target + 1 ∧
      ∃ current sent targets rest, phase = .input target current sent targets rest ∧
        inputStep target current = some (none, after) := by
  cases hsteps with
  | skip current rest hskip =>
    cases hphase current mem_cons_self
    rcases hskip with hskip | hskip
    · exact absurd hskip hsilent
    · rw [hskip] at htarget
      cases htarget
  | route current rest =>
    cases hphase current mem_cons_self
    simp [due, htarget]
  | sent => simp [due]
  | enter | move => exact .inl le_rfl
  | leave other current sent targets rest after hinput =>
    by_cases hother : target = other
    · subst hother
      refine .inr ⟨?_, current, sent, targets, rest, rfl, hinput⟩
      simp only [due, mem_cons_self, if_true]
      omega
    · simp [due, hother]

theorem stepsLeft_steps {callSteps fanout}
    (hfanout : (routes i send.port send.kind).length = fanout)
    (hcall : ∀ target current, callSteps (call target current) < 5)
    (hmove : ∀ target current moved sent targets rest,
      phase = .input target current sent targets rest →
      inputStep target current = some (some moved, after) → callSteps moved < callSteps current)
    (hleave : ∀ target current sent targets rest,
      phase = .input target current sent targets rest → 0 < callSteps current) :
    next.stepsLeft fanout callSteps < phase.stepsLeft fanout callSteps := by
  cases hsteps with
  | skip current rest =>
    simp only [stepsLeft, length_cons, Nat.succ_mul]
    omega
  | route current rest =>
    cases hphase current mem_cons_self
    simp only [stepsLeft, length_cons, Nat.succ_mul, hfanout]
    omega
  | sent => simp [stepsLeft]
  | enter current target targets rest =>
    have := hcall target current
    simp only [stepsLeft, length_cons]
    omega
  | move target current moved sent targets rest after hinput =>
    have := hmove target current moved sent targets rest rfl hinput
    simp only [stepsLeft]
    omega
  | leave target current sent targets rest after hinput =>
    have := hleave target current sent targets rest rfl
    simp only [stepsLeft]
    omega

end HandlerPhase

end Voce.Engine
