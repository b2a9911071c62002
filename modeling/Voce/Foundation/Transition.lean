import Mathlib.Data.List.Basic

/-! # Runs of labelled transition systems

A system is its partial step function: a label that is not enabled has no
successor. A run executes a list of labels, and a condition on steps restricts
the runs by the state each label is issued in. Invariants of one step are
carried to whole runs here once.
-/

namespace Voce.Transition

universe uState uLabel

variable {State : Type uState} {Label : Type uLabel}

/-- Execute labels in order. The run is undefined from the first label that is
not enabled on. -/
def run (step : State → Label → Option State) : State → List Label → Option State
  | state, [] => some state
  | state, label :: rest =>
    match step state label with
    | none => none
    | some next => run step next rest

/-- Every label of the run is issued in a state that admits it. -/
def Meets (step : State → Label → Option State) (admits : State → Label → Prop) :
    State → List Label → Prop
  | _, [] => True
  | state, label :: rest => admits state label ∧
      match step state label with
      | none => True
      | some next => Meets step admits next rest

instance decidableMeets (step : State → Label → Option State)
    (admits : State → Label → Prop) [∀ state label, Decidable (admits state label)] :
    ∀ state labels, Decidable (Meets step admits state labels)
  | _, [] => .isTrue trivial
  | state, label :: rest =>
    match hstep : step state label with
    | none => decidable_of_iff (admits state label) (by simp [Meets, hstep])
    | some next =>
      have := decidableMeets step admits next rest
      decidable_of_iff (admits state label ∧ Meets step admits next rest)
        (by simp [Meets, hstep])

variable {step : State → Label → Option State} {admits : State → Label → Prop} {state final : State}

/-- What is decided of a computed state holds of it. -/
theorem exists_of_decide (result : Option State) (P : State → Prop) [DecidablePred P]
    (h : result.any (fun s => decide (P s)) = true) : ∃ s, result = some s ∧ P s := by
  obtain ⟨s, hs, hdecided⟩ := (Option.any_eq_true _ _).mp h
  exact ⟨s, hs, of_decide_eq_true hdecided⟩

theorem run_cons_eq_some {label rest} : run step state (label :: rest) = some final ↔
      ∃ next, step state label = some next ∧ run step next rest = some final := by
  cases hstep : step state label with
  | none | some next => simp [run, hstep]

theorem meets_cons {state next label rest} (hstep : step state label = some next) :
    Meets step admits state (label :: rest) ↔
      admits state label ∧ Meets step admits next rest := by
  simp [Meets, hstep]

variable {labels : List Label} (invariant : State → Prop)

/-- A predicate that every admitted step preserves holds at the end of every
run whose steps are all admitted. -/
theorem run_invariant_of_meets
    (hpreserve : ∀ {state label next}, invariant state → admits state label →
      step state label = some next → invariant next)
    (hstate : invariant state) (hmeets : Meets step admits state labels)
    (hrun : run step state labels = some final) : invariant final := by
  induction labels generalizing state with
  | nil =>
    cases hrun
    exact hstate
  | cons label rest ih =>
    obtain ⟨next, hnext, hrest⟩ := run_cons_eq_some.mp hrun
    obtain ⟨hok, hmeets⟩ := (meets_cons hnext).mp hmeets
    exact ih (hpreserve hstate hok hnext) hmeets hrest

/-- A run that does not meet the condition has a first label that the state it
is issued in does not admit. -/
theorem exists_of_not_meets (hrun : run step state labels = some final)
    (hnot : ¬ Meets step admits state labels) :
    ∃ before label rest middle next, labels = before ++ label :: rest ∧
      run step state before = some middle ∧ step middle label = some next ∧
      ¬ admits middle label := by
  induction labels generalizing state with
  | nil => exact absurd trivial hnot
  | cons label rest ih =>
    obtain ⟨next, hnext, hrest⟩ := run_cons_eq_some.mp hrun
    rw [meets_cons hnext, not_and] at hnot
    by_cases hok : admits state label
    · obtain ⟨before, other, after, middle, reached, rfl, hmiddle, hreached, hrefused⟩ :=
        ih hrest (hnot hok)
      exact ⟨label :: before, other, after, middle, reached, rfl,
        run_cons_eq_some.mpr ⟨next, hnext, hmiddle⟩, hreached, hrefused⟩
    · exact ⟨[], label, rest, state, next, rfl, rfl, hnext, hok⟩

theorem meets_append {state middle first second} (hfirst : run step state first = some middle) :
    Meets step admits state (first ++ second) ↔
      Meets step admits state first ∧ Meets step admits middle second := by
  induction first generalizing state with
  | nil =>
    cases hfirst
    exact ⟨fun h => ⟨trivial, h⟩, fun h => h.2⟩
  | cons label rest ih =>
    obtain ⟨next, hnext, hrest⟩ := run_cons_eq_some.mp hfirst
    rw [List.cons_append, meets_cons hnext, meets_cons hnext, ih hrest, and_assoc]

theorem meets_and {other : State → Label → Prop} {state} (hfirst : Meets step admits state labels)
    (hsecond : Meets step other state labels) :
    Meets step (fun state label => admits state label ∧ other state label) state labels := by
  induction labels generalizing state with
  | nil => trivial
  | cons label rest ih =>
    refine ⟨⟨hfirst.1, hsecond.1⟩, ?_⟩
    cases hstep : step state label with
    | none => trivial
    | some next => exact ih ((meets_cons hstep).mp hfirst).2 ((meets_cons hstep).mp hsecond).2

theorem meets_of_forall_mem (hall : ∀ label ∈ labels, ∀ state, admits state label) (state : State) :
    Meets step admits state labels := by
  induction labels generalizing state with
  | nil => trivial
  | cons label rest ih =>
    refine ⟨hall label List.mem_cons_self state, ?_⟩
    cases step state label with
    | none => trivial
    | some next => exact ih (fun other hother => hall other (List.mem_cons_of_mem _ hother)) next

/-- A condition that follows from another one under an invariant. -/
theorem meets_of_invariant {other : State → Label → Prop}
    (hpreserve : ∀ {state label next}, invariant state → admits state label →
      step state label = some next → invariant next)
    (hother : ∀ state label, invariant state → admits state label → other state label) {state}
    (hstate : invariant state) (hmeets : Meets step admits state labels) :
    Meets step other state labels := by
  induction labels generalizing state with
  | nil => trivial
  | cons label rest ih =>
    obtain ⟨hok, hrest⟩ := hmeets
    refine ⟨hother state label hstate hok, ?_⟩
    cases hstep : step state label with
    | none => trivial
    | some next =>
      rw [hstep] at hrest
      exact ih (hpreserve hstate hok hstep) hrest

/-- A predicate that every step preserves holds at the end of every run. -/
theorem run_invariant
    (hpreserve : ∀ {state label next}, invariant state → step state label = some next →
      invariant next)
    (hstate : invariant state) (hrun : run step state labels = some final) : invariant final := by
  have hmeets : Meets step (fun _ _ => True) state labels :=
    meets_of_forall_mem (fun _ _ _ => trivial) state
  exact run_invariant_of_meets invariant (fun hinv _ => hpreserve hinv) hstate hmeets
    hrun

theorem run_append_eq_some {state middle final first second}
    (hfirst : run step state first = some middle) (hsecond : run step middle second = some final) :
    run step state (first ++ second) = some final := by
  induction first generalizing state with
  | nil =>
    cases hfirst
    exact hsecond
  | cons label rest ih =>
    obtain ⟨next, hnext, hrest⟩ := run_cons_eq_some.mp hfirst
    exact run_cons_eq_some.mpr ⟨next, hnext, ih hrest⟩

/-- Where a step keeps a predicate exactly if the condition admits it, a run meets the
condition exactly if it keeps the predicate to its end. -/
theorem meets_iff_of_keeps {keeps : State → Prop}
    (hkeeps : ∀ state label next, step state label = some next →
      (keeps next ↔ keeps state ∧ admits state label))
    (hstate : keeps state) (hrun : run step state labels = some final) :
    Meets step admits state labels ↔ keeps final := by
  have hback : ∀ {state labels}, run step state labels = some final → keeps final →
      keeps state := by
    intro state labels hrun
    refine not_imp_not.mp fun hnot => run_invariant (fun s => ¬ keeps s) ?_ hnot hrun
    exact fun hnot hstep hnext => hnot ((hkeeps _ _ _ hstep).mp hnext).1
  constructor
  · intro hmeets
    refine run_invariant_of_meets keeps ?_ hstate hmeets hrun
    exact fun hkept hok hstep => (hkeeps _ _ _ hstep).mpr ⟨hkept, hok⟩
  · intro hfinal
    clear hstate
    induction labels generalizing state with
    | nil => trivial
    | cons label rest ih =>
      obtain ⟨next, hnext, hrest⟩ := run_cons_eq_some.mp hrun
      exact (meets_cons hnext).mpr ⟨((hkeeps _ _ _ hnext).mp (hback hrest hfinal)).2, ih hrest⟩

/-- Steps that keep an invariant and decrease a measure reach a goal. -/
theorem exists_run_of_progress {Measure : Type} {lt : Measure → Measure → Prop}
    (hwf : WellFounded lt) (measure : State → Measure) {invariant goal : State → Prop}
    (hprogress : ∀ state, invariant state → goal state ∨
      ∃ label next, step state label = some next ∧ invariant next ∧
        lt (measure next) (measure state))
    {state} (hstate : invariant state) :
    ∃ labels final, run step state labels = some final ∧ invariant final ∧ goal final := by
  induction hmeasure : measure state using hwf.induction generalizing state with
  | h m ih =>
    rcases hprogress state hstate with hgoal | ⟨label, next, hstep, hnext, hlt⟩
    · exact ⟨[], state, rfl, hstate, hgoal⟩
    · obtain ⟨labels, final, hrun, hfinal⟩ := ih _ (hmeasure ▸ hlt) hnext rfl
      exact ⟨label :: labels, final, run_cons_eq_some.mpr ⟨next, hstep, hrun⟩, hfinal⟩

/-- One run for each item of a list, one after the other. -/
theorem exists_run_of_each {Item : Type} {invariant : List Item → State → Prop}
    (heach : ∀ item done state, invariant done state →
      ∃ labels next, run step state labels = some next ∧ invariant (item :: done) next)
    {state} (hstate : invariant [] state) (items : List Item) :
    ∃ labels final, run step state labels = some final ∧ invariant items final := by
  induction items with
  | nil => exact ⟨[], state, rfl, hstate⟩
  | cons item items ih =>
    obtain ⟨labels, middle, hrun, hmiddle⟩ := ih
    obtain ⟨more, final, hmore, hfinal⟩ := heach item items middle hmiddle
    exact ⟨labels ++ more, final, run_append_eq_some hrun hmore, hfinal⟩

end Voce.Transition
