import Mathlib.Algebra.GroupWithZero.Nat
import Mathlib.Algebra.Order.Group.Nat
import Voce.Foundation.FiniteMap

/-! # Totals over a finite map

A weight is summed over the entries of a map. The total splits at one key, so
an operation on one entry changes it by that entry's weights only.
-/

namespace Voce.Tally

open List Option FiniteMap AList

variable {α β : Type}

def total (weight : α → β → Nat) (s : AList fun _ : α => β) : Nat :=
  (s.entries.map fun entry => weight entry.1 entry.2).sum

variable (weight : α → β → Nat)

@[simp] theorem total_empty : total weight (∅ : AList fun _ : α => β) = 0 :=
  rfl

variable [DecidableEq α] {s : AList fun _ : α => β}

theorem total_congr {first second} (heq : ∀ a b, s.lookup a = some b → first a b = second a b) :
    total first s = total second s := by
  unfold total
  congr 1
  apply map_congr_left
  intro entry hentry
  exact heq entry.1 entry.2 (mem_lookup_iff.mpr hentry)

variable {a : α} {b : β}

/-- The total splits into one entry and the rest. -/
theorem total_eq_add_erase (hlookup : s.lookup a = some b) :
    total weight s = weight a b + total weight (s.erase a) := by
  have hmem : a ∈ s.entries.keys := mem_iff.mpr ⟨b, hlookup⟩
  obtain ⟨b', left, right, hnot, hsplit, herase⟩ := exists_of_kerase hmem
  have hentry : (⟨a, b'⟩ : Sigma fun _ : α => β) ∈ s.entries := by simp [hsplit]
  have hsame : b' = b := by
    have hfound : s.lookup a = some b' := mem_lookup_iff.mpr hentry
    rw [hlookup] at hfound
    exact (some.inj hfound).symm
  subst hsame
  have hrest : (s.erase a).entries = left ++ right := herase
  simp only [total, hrest, hsplit, map_append, map_cons, sum_append, sum_cons]
  omega

theorem total_insert (s : AList fun _ : α => β) (a : α) (b : β) :
    total weight (s.insert a b) = weight a b + total weight (s.erase a) := by
  have herase : (s.erase a).entries = s.entries.kerase a := rfl
  simp [total, entries_insert, herase]

theorem erase_of_notMem (hnone : s.lookup a = none) : s.erase a = s := by
  apply AList.ext
  exact kerase_of_notMem_keys (mem_keys.not.mp (lookup_eq_none.mp hnone))

theorem total_insert_new (hnone : s.lookup a = none) :
    total weight (s.insert a b) = weight a b + total weight s := by
  rw [total_insert, erase_of_notMem hnone]

/-- Storing a value exchanges its weight for that of the value that was read, where a
missing entry counts as one of no weight. -/
theorem total_insert_getD (s : AList fun _ : α => β) (a : α) (b missing : β)
    (hmissing : weight a missing = 0) :
    total weight (s.insert a b) + weight a ((s.lookup a).getD missing) =
      total weight s + weight a b := by
  cases hlookup : s.lookup a with
  | none =>
    rw [total_insert_new weight hlookup, getD_none, hmissing]
    omega
  | some old =>
    rw [total_insert, total_eq_add_erase weight hlookup, getD_some]
    omega

/-- Two weights that agree off one entry give totals that differ by that
entry's weights. -/
theorem total_update (first second : α → β → Nat) (hlookup : s.lookup a = some b)
    (hother : ∀ a' b', a' ≠ a → s.lookup a' = some b' → first a' b' = second a' b') :
    total first s + second a b = total second s + first a b := by
  rw [total_eq_add_erase first hlookup, total_eq_add_erase second hlookup]
  have hrest : total first (s.erase a) = total second (s.erase a) := by
    apply total_congr
    intro a' b' hfound
    obtain ⟨hne, hold⟩ := lookup_erase_eq_some.mp hfound
    exact hother a' b' hne hold
  omega

theorem total_pos (hlookup : s.lookup a = some b) (hpos : 0 < weight a b) : 0 < total weight s := by
  rw [total_eq_add_erase weight hlookup]
  omega

theorem exists_of_total_pos {weight} (hpos : 0 < total weight s) :
    ∃ a b, s.lookup a = some b ∧ 0 < weight a b := by
  by_contra hnone
  push Not at hnone
  have hzero : total weight s = total (fun _ _ => 0) s := by
    apply total_congr
    intro a b hlookup
    exact Nat.le_zero.mp (hnone a b hlookup)
  rw [hzero] at hpos
  simp [total] at hpos

end Voce.Tally
