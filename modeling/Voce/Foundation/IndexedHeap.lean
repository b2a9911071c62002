import Mathlib.Data.List.Nodup
import Mathlib.Logic.Equiv.Basic
import Mathlib.Order.WithBot

/-! # Binary heaps that record each element's slot

The heap keeps its elements in a list of slots and every element's slot number
beside it, as an index field written by each swap. The operations are those of
a slice-backed heap with interface calls: sift up, sift down below a length,
push, fix one slot and remove one slot. Elements are compared by a function
that may change between two operations, since an element's key can be mutated
in place; `fix` is then called on its slot.
-/

namespace Voce

open Function List Equiv

universe u

structure IndexedHeap (α : Type u) where
  slots : List α
  index : α → Int

namespace IndexedHeap

variable {α : Type u}

def empty : IndexedHeap α := ⟨[], fun _ => 0⟩

def lessAt (less : α → α → Bool) (h : IndexedHeap α) (i j : Nat) : Bool :=
  match h.slots[i]?, h.slots[j]? with
  | some a, some b => less a b
  | _, _ => false

/-! ## Slots and index fields -/

/-- Every element's index field is the number of the slot it occupies. -/
def Consistent (h : IndexedHeap α) : Prop :=
  ∀ (i : Nat) (a : α), h.slots[i]? = some a → h.index a = i

variable {h : IndexedHeap α} {i j : Nat}

theorem Consistent.slot_unique (hc : h.Consistent) {a} (hi : h.slots[i]? = some a)
    (hj : h.slots[j]? = some a) : i = j := by
  have heq := (hc i a hi).symm.trans (hc j a hj)
  exact_mod_cast heq

theorem Consistent.nodup (hc : h.Consistent) : h.slots.Nodup := by
  rw [nodup_iff_getElem?_ne_getElem?]
  intro i j hij hj heq
  have hsome : h.slots[j]? = some h.slots[j] := getElem?_eq_getElem hj
  exact absurd (hc.slot_unique (heq.trans hsome) hsome) (ne_of_lt hij)

/-- An element of the heap is found at the slot its index field names. -/
theorem Consistent.getElem?_index (hc : h.Consistent) {a} (ha : a ∈ h.slots) :
    h.slots[(h.index a).toNat]? = some a := by
  obtain ⟨i, hi⟩ := mem_iff_getElem?.mp ha
  rw [hc i a hi, Int.toNat_natCast]
  exact hi

variable [DecidableEq α]

def swap (h : IndexedHeap α) (i j : Nat) : IndexedHeap α :=
  match h.slots[i]?, h.slots[j]? with
  | some a, some b =>
    { slots := (h.slots.set i b).set j a
      index := update (update h.index b i) a j }
  | _, _ => h

/-- Sift up; the slot number bounds the iterations. -/
def upLoop (less : α → α → Bool) : Nat → IndexedHeap α → Nat → IndexedHeap α
  | 0, h, _ => h
  | fuel + 1, h, j =>
    if (j - 1) / 2 = j ∨ ¬ h.lessAt less j ((j - 1) / 2) then h
    else upLoop less fuel (h.swap ((j - 1) / 2) j) ((j - 1) / 2)

variable (less : α → α → Bool)

def up (h : IndexedHeap α) (j : Nat) : IndexedHeap α :=
  upLoop less j h j

/-- The smaller of a slot's children among the first `n` slots. -/
def leastChild (h : IndexedHeap α) (n i : Nat) : Nat :=
  let j1 := 2 * i + 1
  if j1 + 1 < n ∧ h.lessAt less (j1 + 1) j1 then j1 + 1 else j1

/-- Sift down among the first `n` slots, returning the final slot. -/
def downLoop (less : α → α → Bool) (n : Nat) :
    Nat → IndexedHeap α → Nat → IndexedHeap α × Nat
  | 0, h, i => (h, i)
  | fuel + 1, h, i =>
    if n ≤ 2 * i + 1 ∨ ¬ h.lessAt less (h.leastChild less n i) i then (h, i)
    else downLoop less n fuel (h.swap i (h.leastChild less n i)) (h.leastChild less n i)

/-- Sift down and report whether the element moved. -/
def down (h : IndexedHeap α) (i n : Nat) : IndexedHeap α × Bool :=
  ((downLoop less n (n - i) h i).1, i < (downLoop less n (n - i) h i).2)

/-- Sift down among the first `n` slots, and up if nothing moved. -/
def settle (h : IndexedHeap α) (i n : Nat) : IndexedHeap α :=
  if (h.down less i n).2 then (h.down less i n).1 else (h.down less i n).1.up less i

/-- Re-establish the order after the element of slot `i` changed its key. -/
def fix (h : IndexedHeap α) (i : Nat) : IndexedHeap α :=
  h.settle less i h.slots.length

def append (h : IndexedHeap α) (a : α) : IndexedHeap α :=
  { slots := h.slots ++ [a], index := update h.index a h.slots.length }

def push (h : IndexedHeap α) (a : α) : IndexedHeap α :=
  (h.append a).up less h.slots.length

def pop (h : IndexedHeap α) : IndexedHeap α :=
  match h.slots.getLast? with
  | none => h
  | some a => { slots := h.slots.dropLast, index := update h.index a (-1) }

/-- Bring the element of slot `i` to the last slot and restore the order among
the others. -/
def moveLast (h : IndexedHeap α) (i : Nat) : IndexedHeap α :=
  if h.slots.length - 1 = i then h
  else (h.swap i (h.slots.length - 1)).settle less i (h.slots.length - 1)

def remove (h : IndexedHeap α) (i : Nat) : IndexedHeap α :=
  (h.moveLast less i).pop

/-! ## Exchanging slots -/

theorem swap_of_lt (hi : i < h.slots.length) (hj : j < h.slots.length) : h.swap i j =
      { slots := (h.slots.set i h.slots[j]).set j h.slots[i]
        index := update (update h.index h.slots[j] i) h.slots[i] j } := by
  simp [swap, getElem?_eq_getElem hi, getElem?_eq_getElem hj]

@[simp] theorem swap_length (h : IndexedHeap α) (i j : Nat) :
    (h.swap i j).slots.length = h.slots.length := by
  unfold swap
  split <;> simp

theorem swap_getElem? (hi : i < h.slots.length) (hj : j < h.slots.length) (k : Nat) :
    (h.swap i j).slots[k]? = h.slots[Equiv.swap i j k]? := by
  rw [swap_of_lt hi hj]
  simp only [getElem?_set, length_set, swap_apply_def]
  by_cases hkj : k = j
  · subst k
    by_cases hij : j = i
    · subst i
      simp [hj]
    · simp [hij, hj, getElem?_eq_getElem hi]
  · by_cases hki : k = i
    · subst k
      simp [Ne.symm hkj, hi, getElem?_eq_getElem hj]
    · simp [Ne.symm hkj, Ne.symm hki, hki, hkj]

theorem swap_mem (hi : i < h.slots.length) (hj : j < h.slots.length) (a : α) :
    a ∈ (h.swap i j).slots ↔ a ∈ h.slots := by
  simp only [mem_iff_getElem?, swap_getElem? hi hj]
  constructor
  · rintro ⟨k, hk⟩
    exact ⟨_, hk⟩
  · rintro ⟨k, hk⟩
    exact ⟨Equiv.swap i j k, by rwa [Equiv.swap_apply_self]⟩

theorem Consistent.swap (hc : h.Consistent) (hi : i < h.slots.length) (hj : j < h.slots.length) :
    (h.swap i j).Consistent := by
  intro k a hk
  rw [swap_getElem? hi hj] at hk
  have hindex := hc _ a hk
  rw [swap_of_lt hi hj]
  by_cases hki : k = i
  · subst k
    rw [swap_apply_left, getElem?_eq_getElem hj, Option.some.injEq] at hk
    subst a
    -- the index field is written twice if both slots hold the same element
    by_cases heq : h.slots[j] = h.slots[i]
    · have hij : j = i := hc.slot_unique (getElem?_eq_getElem hj)
        (heq ▸ getElem?_eq_getElem hi)
      subst hij
      simp
    · simp [update_of_ne heq]
  · by_cases hkj : k = j
    · subst k
      rw [swap_apply_right, getElem?_eq_getElem hi, Option.some.injEq] at hk
      subst a
      simp
    · rw [swap_apply_of_ne_of_ne hki hkj] at hk hindex
      have hai : a ≠ h.slots[i] := fun heq =>
        hki (hc.slot_unique hk (heq ▸ getElem?_eq_getElem hi))
      have haj : a ≠ h.slots[j] := fun heq =>
        hkj (hc.slot_unique hk (heq ▸ getElem?_eq_getElem hj))
      simpa [update_of_ne hai, update_of_ne haj] using hindex

end IndexedHeap

end Voce
