import Mathlib.Data.List.Basic

/-! # Slices of arrays on a heap

A slice is the front of an array that others may point to as well. Its array has a fixed
number of cells, the capacity; the cells beyond the length are hidden, but stay as they were
until something is written there. Every array has an owner, who alone writes to it.
-/

namespace Voce.ArrayHeap

open Function List

/-- The first `length` cells of an array; a nil slice has none. -/
structure Slice where
  array : Option Nat
  length : Nat

def Slice.nil : Slice := ⟨none, 0⟩

/-- What a slice shows, and its capacity. -/
structure Contents (α : Type) where
  values : List α
  cap : Nat

namespace Contents

variable {α β : Type}

def nil : Contents α := ⟨[], 0⟩

/-- What an array of its own for the values shows. -/
def exact (values : List α) : Contents α := ⟨values, values.length⟩

def clear (c : Contents α) : Contents α := ⟨[], c.cap⟩

def assign (c : Contents α) (values : List α) : Contents α := ⟨values, max c.cap values.length⟩

def append (grow : Nat → Nat) (c : Contents α) (value : α) : Contents α :=
  ⟨c.values ++ [value],
    if c.values.length < c.cap then c.cap else max (grow c.cap) (c.values.length + 1)⟩

def map (f : α → β) (c : Contents α) : Contents β := ⟨c.values.map f, c.cap⟩

theorem map_exact (f : α → β) (values : List α) : (exact values).map f = exact (values.map f) := by
  simp only [map, exact, length_map]

theorem map_assign (f : α → β) (c : Contents α) (values : List α) :
    (c.assign values).map f = (c.map f).assign (values.map f) := by
  simp only [map, assign, length_map]

theorem map_append (f : α → β) (grow : Nat → Nat) (c : Contents α) (value : α) :
    (c.append grow value).map f = (c.map f).append grow (f value) := by
  simp only [map, append, List.map_append, map_cons, map_nil, length_map]

end Contents

/-- A slice whose array nothing else points to, with the cells beyond its length. -/
structure Buffer (α : Type) where
  array : List α
  length : Nat
  bounded : length ≤ array.length

namespace Buffer

variable {α : Type}

def nil : Buffer α := ⟨[], 0, Nat.le_refl 0⟩

variable (b : Buffer α)

def contents : Contents α := ⟨b.array.take b.length, b.array.length⟩

def clear : Buffer α := ⟨b.array, 0, Nat.zero_le _⟩

theorem length_le_append (xs ys : List α) : xs.length ≤ (xs ++ ys).length := by
  rw [length_append]
  exact Nat.le_add_right _ _

/-- Values in the first cells, of a new array if the old one is too short. -/
def assign (zero : α) (values : List α) : Buffer α :=
  let array := if b.array.length < values.length then replicate values.length zero
    else b.array
  ⟨values ++ array.drop values.length, values.length, length_le_append _ _⟩

theorem contents_clear : b.clear.contents = b.contents.clear := rfl

theorem contents_assign (zero : α) (values : List α) :
    (b.assign zero values).contents = b.contents.assign values := by
  unfold assign contents Contents.assign
  dsimp only
  rw [take_left, Contents.mk.injEq]
  refine ⟨rfl, ?_⟩
  split
  · rw [length_append, length_drop, length_replicate]
    omega
  · rw [length_append, length_drop]
    omega

end Buffer

structure Heap (Owner Cell : Type) where
  cells : Nat → List Cell
  owner : Nat → Owner
  allocated : Nat

namespace Heap

variable {Owner Cell : Type}

def array (h : Heap Owner Cell) (s : Slice) : List Cell :=
  match s.array with
  | none => []
  | some a => h.cells a

def cap (h : Heap Owner Cell) (s : Slice) : Nat := (h.array s).length

def read (h : Heap Owner Cell) (s : Slice) : List Cell := (h.array s).take s.length

def contents (h : Heap Owner Cell) (s : Slice) : Contents Cell := ⟨h.read s, h.cap s⟩

def alloc (h : Heap Owner Cell) (owner : Owner) (cells : List Cell) (length : Nat) :
    Heap Owner Cell × Slice :=
  ({ cells := update h.cells h.allocated cells
     owner := update h.owner h.allocated owner
     allocated := h.allocated + 1 }, ⟨some h.allocated, length⟩)

def write (h : Heap Owner Cell) (s : Slice) (i : Nat) (values : List Cell) : Heap Owner Cell :=
  match s.array with
  | none => h
  | some a =>
    let cells := (h.cells a).take i ++ values ++ (h.cells a).drop (i + values.length)
    { h with cells := update h.cells a cells }

/-- Extend or cut a slice. The array is used again if its capacity is sufficient. -/
def resize (h : Heap Owner Cell) (owner : Owner) (s : Slice) (filler : Cell) (length : Nat) :
    Heap Owner Cell × Slice :=
  if h.cap s < length then h.alloc owner (replicate length filler) length
  else (h, { s with length := length })

/-- Copy values into a slice that is extended or cut to their number. -/
def assign (h : Heap Owner Cell) (owner : Owner) (s : Slice) (values : List Cell) :
    Heap Owner Cell × Slice :=
  if h.cap s < values.length then h.alloc owner values values.length
  else (h.write s 0 values, { s with length := values.length })

/-- `append` of one value. A full array is replaced by one of the capacity that `grow` gives,
but at least the needed one. -/
def append (h : Heap Owner Cell) (grow : Nat → Nat) (filler : Cell) (owner : Owner) (s : Slice)
    (value : Cell) : Heap Owner Cell × Slice :=
  if s.length < h.cap s then
    (h.write s s.length [value], { s with length := s.length + 1 })
  else
    h.alloc owner (h.read s ++ value :: replicate (grow (h.cap s) - (s.length + 1)) filler)
      (s.length + 1)

/-- The array of a slice was allocated by its owner and has the cells that the slice shows. -/
structure Valid (h : Heap Owner Cell) (owner : Owner) (s : Slice) : Prop where
  length_le : s.length ≤ h.cap s
  owned : ∀ a, s.array = some a → a < h.allocated ∧ h.owner a = owner

/-- What follows by allocations and by writes of one owner. -/
structure Follows (owner : Owner) (h after : Heap Owner Cell) : Prop where
  allocated : h.allocated ≤ after.allocated
  owners : ∀ a < h.allocated, after.owner a = h.owner a
  others : ∀ a < h.allocated, h.owner a ≠ owner → after.cells a = h.cells a
  sizes : ∀ a < h.allocated, (after.cells a).length = (h.cells a).length

variable {h after : Heap Owner Cell} {owner : Owner} {s : Slice}

theorem Follows.refl (owner : Owner) (h : Heap Owner Cell) : Follows owner h h :=
  ⟨Nat.le_refl _, fun _ _ => rfl, fun _ _ _ => rfl, fun _ _ => rfl⟩

theorem follows_alloc (h : Heap Owner Cell) (owner allocator : Owner) (cells : List Cell)
    (length : Nat) : Follows owner h (h.alloc allocator cells length).1 where
  allocated := Nat.le_succ _
  owners _ ha := update_of_ne (Nat.ne_of_lt ha) _ _
  others _ ha _ := update_of_ne (Nat.ne_of_lt ha) _ _
  sizes _ ha := congrArg List.length (update_of_ne (Nat.ne_of_lt ha) _ _)

theorem Valid.follows_write (hs : h.Valid owner s) {i values}
    (hfits : i + values.length ≤ h.cap s) : Follows owner h (h.write s i values) := by
  obtain ⟨array, length⟩ := s
  cases array with
  | none => exact .refl owner h
  | some a =>
    refine ⟨Nat.le_refl _, fun _ _ => rfl, fun b _ hne => ?_, fun b _ => ?_⟩
    · have hba : b ≠ a := by
        rintro rfl
        exact hne (hs.owned b rfl).2
      exact update_of_ne hba _ _
    · by_cases hba : b = a
      · subst hba
        have hle : i + values.length ≤ (h.cells b).length := hfits
        simp only [write, update_self, length_append, length_take, length_drop]
        omega
      · simp only [write, update_of_ne hba]

variable {writer : Owner}

/-- An owner keeps the slices of its own arrays. -/
theorem Valid.follows (hs : h.Valid owner s) (hfollows : Follows writer h after) :
    after.Valid owner s := by
  obtain ⟨array, length⟩ := s
  cases array with
  | none => exact ⟨hs.length_le, nofun⟩
  | some a =>
    obtain ⟨hlt, howner⟩ := hs.owned a rfl
    refine ⟨?_, fun b hb => ?_⟩
    · change length ≤ (after.cells a).length
      rw [hfollows.sizes a hlt]
      exact hs.length_le
    · obtain rfl : a = b := Option.some.inj hb
      exact ⟨Nat.lt_of_lt_of_le hlt hfollows.allocated, (hfollows.owners a hlt).trans howner⟩

/-- The slices of another owner show what they showed. -/
theorem Valid.array_of_follows (hs : h.Valid owner s) (hfollows : Follows writer h after)
    (hne : owner ≠ writer) : after.array s = h.array s := by
  obtain ⟨array, length⟩ := s
  cases array with
  | none => rfl
  | some a =>
    obtain ⟨hlt, howner⟩ := hs.owned a rfl
    exact hfollows.others a hlt (howner ▸ hne)

theorem Valid.read_of_follows (hs : h.Valid owner s) (hfollows : Follows writer h after)
    (hne : owner ≠ writer) : after.read s = h.read s := by
  rw [read, read, hs.array_of_follows hfollows hne]

theorem Valid.cap_of_follows (hs : h.Valid owner s) (hfollows : Follows writer h after) :
    after.cap s = h.cap s := by
  obtain ⟨array, length⟩ := s
  cases array with
  | none => rfl
  | some a => exact hfollows.sizes a (hs.owned a rfl).1

theorem Valid.contents_of_follows (hs : h.Valid owner s) (hfollows : Follows writer h after)
    (hne : owner ≠ writer) : after.contents s = h.contents s := by
  rw [contents, contents, hs.read_of_follows hfollows hne, hs.cap_of_follows hfollows]

theorem Valid.length_read (hs : h.Valid owner s) : (h.read s).length = s.length :=
  length_take_of_le hs.length_le

theorem nil_valid (h : Heap Owner Cell) (owner : Owner) : h.Valid owner .nil :=
  ⟨Nat.zero_le _, nofun⟩

theorem Valid.cut (hs : h.Valid owner s) {length} (hle : length ≤ h.cap s) :
    h.Valid owner { s with length := length } :=
  ⟨hle, hs.owned⟩

/-! ## Allocation -/

variable (h) (owner)

theorem array_alloc (cells : List Cell) (length : Nat) :
    (h.alloc owner cells length).1.array (h.alloc owner cells length).2 = cells :=
  update_self _ _ _

theorem alloc_valid {cells length} (hle : length ≤ cells.length) :
    (h.alloc owner cells length).1.Valid owner (h.alloc owner cells length).2 := by
  refine ⟨?_, fun a ha => ?_⟩
  · rw [cap, array_alloc]
    exact hle
  · obtain rfl : h.allocated = a := Option.some.inj ha
    exact ⟨Nat.lt_succ_self _, update_self _ _ _⟩

theorem read_alloc (cells : List Cell) (length : Nat) :
    (h.alloc owner cells length).1.read (h.alloc owner cells length).2 = cells.take length := by
  rw [read, array_alloc]
  rfl

theorem contents_alloc (cells : List Cell) :
    (h.alloc owner cells cells.length).1.contents (h.alloc owner cells cells.length).2 =
      .exact cells := by
  rw [contents, read_alloc, cap, array_alloc, take_length]
  rfl

/-! ## Copying and appending -/

theorem array_write (a i length view : Nat) (values : List Cell) :
    (h.write ⟨some a, length⟩ i values).array ⟨some a, view⟩ =
      (h.cells a).take i ++ values ++ (h.cells a).drop (i + values.length) :=
  update_self _ _ _

/-- Two writes, the second where the first ends, are one write. -/
theorem write_append (s : Slice) {i} (hi : i ≤ h.cap s) (first second : List Cell) :
    (h.write s i first).write s (i + first.length) second = h.write s i (first ++ second) := by
  obtain ⟨array, length⟩ := s
  cases array with
  | none => rfl
  | some a =>
    have hfront : ((h.cells a).take i).length = i := length_take_of_le hi
    simp only [write, update_self, update_idem]
    rw [take_left' (by simp [hfront]), drop_append, drop_of_length_le (by simp [hfront])]
    simp [hfront, drop_drop, Nat.add_assoc]

/-- Resizing and then filling the slice is a copy. -/
theorem write_resize (s : Slice) (filler : Cell) (values : List Cell) :
    ((h.resize owner s filler values.length).1.write (h.resize owner s filler values.length).2 0
        values, (h.resize owner s filler values.length).2) = h.assign owner s values := by
  unfold resize assign
  split
  · simp [alloc, write, update_idem]
  · rfl

variable {h} {owner}

theorem Valid.assign (hs : h.Valid owner s) (values : List Cell) :
    Follows owner h (h.assign owner s values).1 ∧
      (h.assign owner s values).1.Valid owner (h.assign owner s values).2 := by
  unfold Heap.assign
  split
  · exact ⟨follows_alloc h owner owner _ _, alloc_valid h owner (Nat.le_refl _)⟩
  next hfits =>
    have hle : values.length ≤ h.cap s := Nat.not_lt.mp hfits
    have hfollows : Follows owner h (h.write s 0 values) :=
      hs.follows_write (by rwa [Nat.zero_add])
    refine ⟨hfollows, (hs.follows hfollows).cut ?_⟩
    rwa [hs.cap_of_follows hfollows]

theorem Valid.read_assign (hs : h.Valid owner s) (values : List Cell) :
    (h.assign owner s values).1.read (h.assign owner s values).2 = values := by
  unfold Heap.assign
  split
  · rw [read_alloc, take_length]
  next hfits =>
    obtain ⟨array, length⟩ := s
    cases array with
    | none =>
      have hzero : values.length = 0 := Nat.le_zero.mp (Nat.not_lt.mp hfits)
      obtain rfl := length_eq_zero_iff.mp hzero
      rfl
    | some a =>
      rw [read, array_write]
      simp

theorem Valid.cap_assign (hs : h.Valid owner s) (values : List Cell) :
    (h.assign owner s values).1.cap (h.assign owner s values).2 =
      max (h.cap s) values.length := by
  unfold Heap.assign
  split
  · rw [cap, array_alloc]
    omega
  next hfits =>
    have hfollows : Follows owner h (h.write s 0 values) :=
      hs.follows_write (by rw [Nat.zero_add]; exact Nat.not_lt.mp hfits)
    have hcap : (h.write s 0 values).cap { s with length := values.length } = h.cap s :=
      hs.cap_of_follows hfollows
    rw [hcap]
    omega

theorem Valid.contents_assign (hs : h.Valid owner s) (values : List Cell) :
    (h.assign owner s values).1.contents (h.assign owner s values).2 =
      (h.contents s).assign values := by
  rw [contents, hs.read_assign, hs.cap_assign]
  rfl

theorem Valid.append (hs : h.Valid owner s) (grow : Nat → Nat) (filler value : Cell) :
    Follows owner h (h.append grow filler owner s value).1 ∧
      (h.append grow filler owner s value).1.Valid owner
        (h.append grow filler owner s value).2 := by
  unfold Heap.append
  split
  next hroom =>
    have hfollows : Follows owner h (h.write s s.length [value]) := hs.follows_write hroom
    refine ⟨hfollows, (hs.follows hfollows).cut ?_⟩
    rwa [hs.cap_of_follows hfollows]
  · refine ⟨follows_alloc h owner owner _ _, alloc_valid h owner ?_⟩
    simp only [length_append, length_cons, hs.length_read]
    omega

theorem Valid.read_append (hs : h.Valid owner s) (grow : Nat → Nat) (filler value : Cell) :
    (h.append grow filler owner s value).1.read (h.append grow filler owner s value).2 =
      h.read s ++ [value] := by
  unfold Heap.append
  split
  next hroom =>
    obtain ⟨array, length⟩ := s
    cases array with
    | none => exact absurd hroom (Nat.not_lt_zero _)
    | some a =>
      have hread : h.read ⟨some a, length⟩ = (h.cells a).take length := rfl
      have hlength : (h.read ⟨some a, length⟩).length = length := hs.length_read
      rw [read, array_write, ← hread, append_assoc]
      change take (length + 1) _ = _
      nth_rewrite 1 [← hlength]
      rw [take_length_add_append]
      rfl
  · rw [read_alloc, ← hs.length_read, take_length_add_append]
    rfl

theorem Valid.cap_append (hs : h.Valid owner s) (grow : Nat → Nat) (filler value : Cell) :
    (h.append grow filler owner s value).1.cap (h.append grow filler owner s value).2 =
      if s.length < h.cap s then h.cap s else max (grow (h.cap s)) (s.length + 1) := by
  unfold Heap.append
  split
  next hroom =>
    exact hs.cap_of_follows (hs.follows_write hroom)
  · rw [cap, array_alloc]
    simp only [length_append, length_cons, length_replicate, hs.length_read]
    omega

theorem Valid.contents_append (hs : h.Valid owner s) (grow : Nat → Nat) (filler value : Cell) :
    (h.append grow filler owner s value).1.contents (h.append grow filler owner s value).2 =
      (h.contents s).append grow value := by
  rw [contents, hs.read_append, hs.cap_append, Contents.append, contents, hs.length_read]

end Heap

end Voce.ArrayHeap
