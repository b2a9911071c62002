import Voce.Foundation.Transition

/-! # Two-stage selection

A consumer first looks for an urgent item without waiting, and only if there is
none waits for an item of any kind. This is the abstract machine of such a
consumer: it counts the urgent items placed and handled and the other items
started, and knows whether the consumer has committed itself to the second
stage. While an urgent item waits, one other item is started at most.
-/

namespace Voce

structure PrioritySelect where
  placed : Nat
  handled : Nat
  started : Nat
  committed : Bool

namespace PrioritySelect

inductive Step (v : PrioritySelect) : PrioritySelect → Prop where
  /-- Items are placed, or the consumer is busy with something else. -/
  | stay (placed : Nat) (committed : Bool) (hplaced : v.placed ≤ placed)
      (hcommitted : committed = true → v.committed = true) :
      Step v { v with placed := placed, committed := committed }
  | commit (hnone : v.placed ≤ v.handled) : Step v { v with committed := true }
  | takeUrgent : Step v { v with handled := v.handled + 1, committed := false }
  | takeOther (hcommitted : v.committed = true) :
      Step v { v with started := v.started + 1, committed := false }

/-- As long as the urgent item with this number waits, the other items that were
started, and the one the consumer may still start, are at most so many. -/
structure Overtakes (k bound : Nat) (v : PrioritySelect) : Prop where
  placed : k < v.placed
  bounded : v.handled ≤ k → v.started + v.committed.toNat ≤ bound

theorem Overtakes.step {k bound v w} (hv : Overtakes k bound v) (hstep : Step v w) :
    Overtakes k bound w := by
  cases hstep with
  | stay placed committed hplaced hcommitted =>
    refine ⟨Nat.lt_of_lt_of_le hv.placed hplaced, fun hwaits => ?_⟩
    refine Nat.le_trans (Nat.add_le_add_left ?_ _) (hv.bounded hwaits)
    cases committed with
    | false => exact Nat.zero_le _
    | true => exact Nat.le_of_eq (congrArg Bool.toNat (hcommitted rfl).symm)
  | commit hnone =>
    -- the item that waits would have been found
    exact ⟨hv.placed, fun hwaits =>
      absurd (Nat.le_trans hnone hwaits) (Nat.not_le_of_lt hv.placed)⟩
  | takeUrgent =>
    refine ⟨hv.placed, fun hwaits => ?_⟩
    exact Nat.le_trans (Nat.le_add_right _ _) (hv.bounded (Nat.le_of_succ_le hwaits))
  | takeOther hcommitted =>
    refine ⟨hv.placed, fun hwaits => ?_⟩
    have hbound := hv.bounded hwaits
    rw [hcommitted] at hbound
    exact hbound

/-- In any machine that moves by such steps. -/
theorem run_started_le {State Label : Type} {step : State → Label → Option State}
    {view : State → PrioritySelect} {property : State → Prop}
    (hstep : ∀ {state label next}, property state → step state label = some next →
      property next ∧ Step (view state) (view next))
    {labels : List Label} {middle final : State} (hmiddle : property middle)
    (hrun : Transition.run step middle labels = some final) {k : Nat}
    (hplaced : k < (view middle).placed) (hwaits : (view final).handled ≤ k) :
    (view final).started ≤ (view middle).started + 1 := by
  have hfinal := Transition.run_invariant
    (fun state => property state ∧ Overtakes k ((view middle).started + 1) (view state))
    (fun hs h => ⟨(hstep hs.1 h).1, hs.2.step (hstep hs.1 h).2⟩)
    ⟨hmiddle, hplaced, fun _ => Nat.add_le_add_left (Bool.toNat_le _) _⟩ hrun
  exact Nat.le_trans (Nat.le_add_right _ _) (hfinal.2.bounded hwaits)

end PrioritySelect

end Voce
