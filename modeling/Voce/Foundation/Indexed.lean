import Mathlib.Data.List.Basic

/-! # Changing one entry of a list

Tables of processes, calls and tasks are lists, and a step changes the entry at one
index. What the entries say of themselves is kept unless the new entry says otherwise.
-/

namespace Voce.Indexed

open List

universe uEntry uValue

variable {Entry : Type uEntry} {Value : Type uValue} {entries : List Entry} {i : Nat}
  {old : Entry}

theorem getElem?_set (hi : entries[i]? = some old) (new : Entry) (j : Nat) :
    (entries.set i new)[j]? = if j = i then some new else entries[j]? := by
  obtain ⟨hlt, -⟩ := List.getElem?_eq_some_iff.mp hi
  by_cases hj : j = i
  · subst hj
    simp [hlt]
  · simp [hj, Ne.symm hj]

theorem filterMap_set (hi : entries[i]? = some old) {new} (f : Entry → Option Value)
    (hf : f new = f old) : (entries.set i new).filterMap f = entries.filterMap f := by
  induction entries generalizing i with
  | nil => rfl
  | cons first rest ih =>
    cases i with
    | zero =>
      cases hi
      rw [set_cons_zero, filterMap_cons, filterMap_cons, hf]
    | succ i => rw [set_cons_succ, filterMap_cons, filterMap_cons, ih hi]

theorem map_set (hi : entries[i]? = some old) {new} (f : Entry → Value) (hf : f new = f old) :
    (entries.set i new).map f = entries.map f := by
  rw [← filterMap_eq_map, filterMap_set hi (some ∘ f) (congrArg some hf)]

/-- All entries still have a property exactly if they had it, where the new entry has it
if the old one has and something else holds. -/
theorem forall_mem_set (hi : entries[i]? = some old) {new} {property : Entry → Prop}
    {condition : Prop} (hnew : property new ↔ property old ∧ condition) :
    (∀ entry ∈ entries.set i new, property entry) ↔
      (∀ entry ∈ entries, property entry) ∧ condition := by
  induction entries generalizing i with
  | nil => cases hi
  | cons first rest ih =>
    cases i with
    | zero =>
      cases hi
      rw [set_cons_zero, forall_mem_cons, forall_mem_cons, hnew]
      tauto
    | succ i =>
      rw [set_cons_succ, forall_mem_cons, forall_mem_cons, ih hi]
      tauto

end Voce.Indexed
