import Mathlib.Data.Fintype.Card

/-! # Waiting with and without cycles

Finitely many parties wait for each other along a relation without cycles. If
every party with work is free to move or waits for another party with work, then
some party is free. With a cycle there is a set of parties that wait only for
each other.
-/

namespace Voce.WaitFor

variable {α : Type} {waits : α → α → Prop}

def Acyclic (waits : α → α → Prop) : Prop := ∀ a, ¬ Relation.TransGen waits a a

/-- Every party waits for one of higher rank. -/
theorem acyclic_of_rank (rank : α → Nat) (hrank : ∀ a b, waits a b → rank a < rank b) :
    Acyclic waits := by
  have hpath : ∀ a b, Relation.TransGen waits a b → rank a < rank b := by
    intro a b hab
    induction hab with
    | single hstep => exact hrank _ _ hstep
    | tail _ hstep ih => exact ih.trans (hrank _ _ hstep)
  exact fun a hcycle => lt_irrefl _ (hpath a a hcycle)

theorem Acyclic.wellFounded [Finite α] (hacyclic : Acyclic waits) :
    WellFounded (Function.swap (Relation.TransGen waits)) := by
  have : Std.Irrefl (Function.swap (Relation.TransGen waits)) := ⟨hacyclic⟩
  exact Finite.wellFounded_of_trans_of_irrefl _

/-- Work ends up with a party that is free. -/
theorem exists_free [Finite α] (hacyclic : Acyclic waits) {work free : α → Prop}
    (hstep : ∀ a, work a → free a ∨ ∃ b, waits a b ∧ work b) {a} (ha : work a) : ∃ b, free b := by
  induction a using hacyclic.wellFounded.induction with
  | h a ih =>
    rcases hstep a ha with hfree | ⟨b, hwaits, hb⟩
    · exact ⟨a, hfree⟩
    · exact ih b (.single hwaits) hb

/-- On a cycle, and before it, every party waits for another such party. -/
theorem exists_closed_of_not_acyclic (hcyclic : ¬ Acyclic waits) :
    ∃ members : α → Prop, (∃ a, members a) ∧ ∀ a, members a → ∃ b, waits a b ∧ members b := by
  simp only [Acyclic, not_forall, not_not] at hcyclic
  obtain ⟨a, hcycle⟩ := hcyclic
  refine ⟨fun b => Relation.ReflTransGen waits b a, ⟨a, .refl⟩, fun b hb => ?_⟩
  exact Relation.TransGen.head'_iff.mp (Relation.TransGen.trans_right hb hcycle)

end Voce.WaitFor
