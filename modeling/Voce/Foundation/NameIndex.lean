import Voce.Foundation.FiniteMap

/-! # A table and the index of its names

A table holds entries by their keys, and an index finds the key of an entry by its name.
The two are written one after the other, so that each change of the table has to take
the old name out of the index and to put the new one in.
-/

namespace Voce.NameIndex

open Option AList FiniteMap

variable {Key Name Entry : Type} [DecidableEq Key] [DecidableEq Name] (nameOf : Entry → Name)
  (table : AList fun _ : Key => Entry) (index : AList fun _ : Name => Key)

/-- The index has the names of the entries, and nothing else. -/
def Indexes : Prop :=
  ∀ name key, index.lookup name = some key ↔
    ∃ entry, table.lookup key = some entry ∧ nameOf entry = name

/-- The index without the name that an entry had under the key, unless it keeps it. -/
def rename (key : Key) (name : Name) :
    AList fun _ : Name => Key :=
  match table.lookup key with
  | none => index
  | some old => if nameOf old ≠ name then index.erase (nameOf old) else index

/-- The index without the name of the entry under the key. -/
def forget (key : Key) : AList fun _ : Name => Key :=
  match table.lookup key with
  | none => index
  | some old => index.erase (nameOf old)

/-- Two tables answer every lookup alike. -/
def SameLookups (table other : AList fun _ : Key => Entry) : Prop :=
  ∀ key, table.lookup key = other.lookup key

theorem SameLookups.insert {table other} (h : SameLookups table other) (key : Key) (entry : Entry) :
    SameLookups (table.insert key entry) (other.insert key entry) := by
  intro found
  rw [lookup_insert_ite, lookup_insert_ite, h found]

theorem SameLookups.erase {table other : AList fun _ : Key => Entry}
    (h : SameLookups table other) (key : Key) :
    SameLookups (table.erase key) (other.erase key) := by
  intro found
  rw [lookup_erase_ite, lookup_erase_ite, h found]

section

variable {nameOf : Entry → Name} {table : AList fun _ : Key => Entry}
  {index : AList fun _ : Name => Key} {key : Key}

theorem indexes_empty : Indexes nameOf (∅ : AList fun _ : Key => Entry) ∅ := by
  intro name key
  simp

variable (h : Indexes nameOf table index)
include h

theorem Indexes.lookup_name {entry} (hentry : table.lookup key = some entry) :
    index.lookup (nameOf entry) = some key :=
  (h _ _).mpr ⟨entry, hentry, rfl⟩

/-- Two entries have different names. -/
theorem Indexes.key_eq {other first second} (hfirst : table.lookup key = some first)
    (hsecond : table.lookup other = some second) (hname : nameOf first = nameOf second) :
    key = other := by
  have hkey := h.lookup_name hfirst
  rw [hname, h.lookup_name hsecond] at hkey
  exact (some.inj hkey).symm

/-- A name that no entry has is not in the index. -/
theorem Indexes.lookup_eq_none {name}
    (hfree : ∀ key entry, table.lookup key = some entry → nameOf entry ≠ name) :
    index.lookup name = none := by
  cases hname : index.lookup name with
  | none => rfl
  | some key =>
    obtain ⟨entry, hentry, heq⟩ := (h name key).mp hname
    exact absurd heq (hfree key entry hentry)

theorem Indexes.lookup_forget (key : Key) (name : Name) :
    (forget nameOf table index key).lookup name =
      if index.lookup name = some key then none else index.lookup name := by
  unfold forget
  cases hold : table.lookup key with
  | none =>
    have hne : index.lookup name ≠ some key := by
      intro hname
      obtain ⟨entry, hentry, -⟩ := (h name key).mp hname
      rw [hold] at hentry
      cases hentry
    simp only [if_neg hne]
  | some old =>
    by_cases hname : name = nameOf old
    · subst hname
      simp only [h.lookup_name hold, if_true, lookup_erase]
    · have hne : index.lookup name ≠ some key := by
        intro hfound
        obtain ⟨entry, hentry, heq⟩ := (h name key).mp hfound
        rw [hold] at hentry
        exact hname (by rw [← heq, some.inj hentry])
      simp only [if_neg hne, lookup_erase_ne hname]

/-- An entry is taken out together with its name. -/
theorem Indexes.erase (key : Key) :
    Indexes nameOf (table.erase key) (forget nameOf table index key) := by
  intro name other
  rw [h.lookup_forget]
  by_cases hother : other = key
  · subst hother
    split
    · simp
    next hne => simpa using hne
  · rw [lookup_erase_ne hother, ← h name other]
    split
    next hname =>
      rw [hname]
      exact iff_of_false (by simp) fun heq => hother (some.inj heq).symm
    · rfl

/-- An entry is put under its key, with a name that no other entry has. -/
theorem Indexes.insert {entry}
    (hfree : ∀ other, index.lookup (nameOf entry) = some other → other = key) :
    Indexes nameOf (table.insert key entry)
      ((rename nameOf table index key (nameOf entry)).insert (nameOf entry) key) := by
  -- apart from the entry's own name, its old name is forgotten
  have hrename : ∀ name, name ≠ nameOf entry →
      (rename nameOf table index key (nameOf entry)).lookup name =
        (forget nameOf table index key).lookup name := by
    intro name hname
    unfold rename forget
    split
    · rfl
    · split
      · rfl
      next hsame => rw [lookup_erase_ne (by rwa [not_not.mp hsame])]
  intro name other
  by_cases hname : name = nameOf entry
  · subst hname
    rw [lookup_insert]
    constructor
    · intro heq
      obtain rfl := some.inj heq
      exact ⟨entry, lookup_insert _, rfl⟩
    · rintro ⟨found, hfound, heq⟩
      by_cases hother : other = key
      · rw [hother]
      · rw [lookup_insert_ne hother] at hfound
        exact absurd (hfree other (heq ▸ h.lookup_name hfound)) hother
  · rw [lookup_insert_ne hname, hrename name hname, h.erase key name other]
    by_cases hother : other = key
    · subst hother
      simp only [lookup_erase, lookup_insert]
      refine iff_of_false (by simp) ?_
      rintro ⟨found, hfound, heq⟩
      exact hname (by rw [← heq, some.inj hfound])
    · rw [lookup_erase_ne hother, lookup_insert_ne hother]

end

end Voce.NameIndex
