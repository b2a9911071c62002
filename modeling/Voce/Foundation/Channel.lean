import Mathlib.Data.List.Basic

/-! # Bounded channels

A FIFO with a capacity. A channel never holds more than its capacity, so a send
is only possible while there is room.
-/

namespace Voce

structure Channel (α : Type) where
  capacity : Nat
  items : List α
  bounded : items.length ≤ capacity

namespace Channel

variable {α : Type}

def empty (capacity : Nat) : Channel α := ⟨capacity, [], Nat.zero_le capacity⟩

variable (c : Channel α)

def send? (a : α) : Option (Channel α) :=
  if hroom : c.items.length < c.capacity then
    some ⟨c.capacity, c.items ++ [a], by rw [List.length_append]; exact hroom⟩
  else none

/-- Append an item, or drop it if there is no room. -/
def offer (a : α) : Channel α := (c.send? a).getD c

def receive? : Option (α × Channel α) :=
  match c with
  | ⟨_, [], _⟩ => none
  | ⟨capacity, a :: rest, hbounded⟩ =>
    some (a, ⟨capacity, rest, Nat.le_of_succ_le hbounded⟩)

theorem send?_eq_some {c d : Channel α} {a} (hsend : c.send? a = some d) :
    c.items.length < c.capacity ∧ d.capacity = c.capacity ∧ d.items = c.items ++ [a] := by
  unfold send? at hsend
  split at hsend
  next hroom =>
    cases hsend
    exact ⟨hroom, rfl, rfl⟩
  · cases hsend

theorem receive?_eq_some {c d : Channel α} {a} (hreceive : c.receive? = some (a, d)) :
    c.items = a :: d.items ∧ d.capacity = c.capacity := by
  obtain ⟨capacity, items, hbounded⟩ := c
  cases items with
  | nil => cases hreceive
  | cons first rest =>
    cases hreceive
    exact ⟨rfl, rfl⟩

theorem receive?_eq_none {c : Channel α} (hreceive : c.receive? = none) : c.items = [] := by
  obtain ⟨capacity, items, hbounded⟩ := c
  cases items with
  | nil => rfl
  | cons first rest => cases hreceive

theorem exists_receive? {c : Channel α} (hitems : c.items ≠ []) :
    ∃ a d, c.receive? = some (a, d) := by
  cases hreceive : c.receive? with
  | none => exact absurd (receive?_eq_none hreceive) hitems
  | some received => exact ⟨received.1, received.2, rfl⟩

theorem offer_capacity (a : α) : (c.offer a).capacity = c.capacity := by
  unfold offer
  cases hsend : c.send? a with
  | none => rfl
  | some d => exact (send?_eq_some hsend).2.1

/-- A channel that drops an item is full. -/
theorem offer_items_ne_nil {c : Channel α} (hcapacity : 0 < c.capacity) (a : α) :
    (c.offer a).items ≠ [] := by
  unfold offer
  cases hsend : c.send? a with
  | none =>
    intro hempty
    simp only [Option.getD_none] at hempty
    simp [send?, hempty, hcapacity] at hsend
  | some d =>
    rw [Option.getD_some, (send?_eq_some hsend).2.2]
    simp

end Channel

end Voce
