import Mathlib.Data.List.AList

/-! # Entries of a changed finite map

A key is in a map if it has a value. What holds of every entry of a map still
holds after an entry is erased, and after one is inserted for which it holds as well. A list of
items stands for the map that they are added to under their keys.
-/

namespace Voce.FiniteMap

open List AList Option

variable {α β : Type} [DecidableEq α] {s : AList fun _ : α => β} {a k : α} {b v : β}

theorem mem_iff : k ∈ s ↔ ∃ v, s.lookup k = some v :=
  lookup_isSome.symm.trans isSome_iff_exists

theorem lookup_insert_ite : (s.insert a b).lookup k = if k = a then some b else s.lookup k := by
  split
  next hk => rw [hk, lookup_insert]
  next hk => rw [lookup_insert_ne hk]

theorem lookup_insert_of_mem (ha : a ∉ s) (hk : k ∈ s) : (s.insert a b).lookup k = s.lookup k :=
  lookup_insert_ne fun heq => ha (heq ▸ hk)

theorem lookup_erase_ite : (s.erase a).lookup k = if k = a then none else s.lookup k := by
  split
  next hk => rw [hk, lookup_erase]
  next hk => rw [lookup_erase_ne hk]

theorem lookup_erase_eq_some : (s.erase a).lookup k = some v ↔ k ≠ a ∧ s.lookup k = some v := by
  rw [lookup_erase_ite, ite_none_left_eq_some]

theorem keys_length_erase (ha : s.lookup a = some b) :
    (s.erase a).keys.length + 1 = s.keys.length := by
  have hmem : a ∈ s.keys := mem_iff.mpr ⟨b, ha⟩
  have hpositive := length_pos_of_mem hmem
  rw [keys_erase, length_erase_of_mem hmem]
  omega

theorem keys_length_insert (ha : s.lookup a = none) :
    (s.insert a b).keys.length = s.keys.length + 1 := by
  simp [AList.keys, kerase_of_notMem_keys (lookup_eq_none.mp ha)]

/-- Values that are filed under a key of their own. -/
theorem lookup_erase_own (own : β → α) (hv : s.lookup (own v) = some v) :
    (s.erase (own v)).lookup (own b) = some b ↔ s.lookup (own b) = some b ∧ b ≠ v := by
  rw [lookup_erase_eq_some, and_comm]
  refine and_congr_right fun hb => not_congr ⟨fun heq => ?_, fun heq => heq ▸ rfl⟩
  rw [heq, hv] at hb
  exact (some.inj hb).symm

/-- A map to which items are added one after the other holds the last one of each key. -/
theorem lookup_foldl_insert (key : β → α) (items : List β) (s : AList fun _ : α => β) (k : α) :
    (items.foldl (fun s b => s.insert (key b) b) s).lookup k =
      (items.reverse.find? fun b => key b = k).or (s.lookup k) := by
  induction items generalizing s with
  | nil => rfl
  | cons b rest ih =>
    rw [foldl_cons, ih, reverse_cons, find?_append, Option.or_assoc]
    by_cases hkey : key b = k
    · subst hkey
      simp [lookup_insert]
    · simp [lookup_insert_ne (Ne.symm hkey), hkey]

/-- An item that is alone with what it is searched for. -/
theorem find?_eq_some_iff_of_unique {items : List β} {found : β → Bool}
    (hunique : b ∈ items → ∀ v ∈ items, found b = true → found v = true → v = b) :
    items.find? found = some b ↔ b ∈ items ∧ found b = true := by
  constructor
  · intro hfind
    exact ⟨mem_of_find?_eq_some hfind, find?_some hfind⟩
  · rintro ⟨hmem, hfound⟩
    obtain ⟨v, hv⟩ := isSome_iff_exists.mp (find?_isSome.mpr ⟨b, hmem, hfound⟩)
    rw [hv, hunique hmem v (mem_of_find?_eq_some hv) hfound (find?_some hv)]

variable {P : α → β → Prop}

theorem forall_erase (h : ∀ k v, s.lookup k = some v → P k v) :
    ∀ k v, (s.erase a).lookup k = some v → P k v := by
  intro k v hv
  exact h k v (lookup_erase_eq_some.mp hv).2

theorem forall_insert (h : ∀ k v, s.lookup k = some v → P k v) (hnew : P a b) :
    ∀ k v, (s.insert a b).lookup k = some v → P k v := by
  intro k v hv
  rw [lookup_insert_ite] at hv
  split at hv
  next hk => rwa [hk, ← some.inj hv]
  · exact h k v hv

end Voce.FiniteMap
