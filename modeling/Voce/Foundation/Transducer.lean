import Mathlib.Data.List.Basic

/-! # Machines that answer each input with outputs -/

namespace Voce.Transducer

variable {State Input Output : Type}

def run (step : State → Input → State × List Output) : State → List Input → State × List Output
  | state, [] => (state, [])
  | state, input :: rest =>
    let answer := step state input
    let later := run step answer.1 rest
    (later.1, answer.2 ++ later.2)

variable (step : State → Input → State × List Output)

/-- Where the input is cut makes no difference. -/
theorem run_append (state : State) (first second : List Input) : run step state (first ++ second) =
      ((run step (run step state first).1 second).1,
        (run step state first).2 ++ (run step (run step state first).1 second).2) := by
  induction first generalizing state with
  | nil => rfl
  | cons input rest ih =>
    simp only [List.cons_append, run, ih, List.append_assoc]

/-- Running the machine on one piece after the other is running it on the whole. -/
theorem run_flatten (state : State)
    (pieces : List (List Input)) : run step state pieces.flatten = run (run step) state pieces := by
  induction pieces generalizing state with
  | nil => rfl
  | cons piece rest ih =>
    rw [List.flatten_cons, run_append, ih]
    rfl

end Voce.Transducer
