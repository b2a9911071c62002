import Mathlib.Data.List.Nodup
import Mathlib.Tactic.Lift

/-! # Observers of deleted sessions

A session manager and every session have a table of functions that are called when a session is
deleted. An observer gets a free slot, or a new one at the end, and is removed by its index.
-/

namespace Voce.Engine

open List Option Function Prod

/-- The slots of the observers, some of which are nil. The count is at least the number of
those that are not. -/
structure ObserverTable (Observer : Type) where
  slots : List (Option Observer)
  count : Int
  counted : (slots.countP isSome : Int) ≤ count

namespace ObserverTable

variable {Observer : Type}

/-- Four slots, as `NewSessionManager` makes them. -/
def empty : ObserverTable Observer := ⟨[none, none, none, none], 0, Int.le_refl 0⟩

variable {slots : List (Option Observer)} {fn : Observer} {i : Nat}

theorem countP_set_le (slots : List (Option Observer)) (i : Nat) (fn : Option Observer) :
    (slots.set i fn).countP isSome ≤ slots.countP isSome + 1 := by
  by_cases hi : i < slots.length
  · rw [countP_set hi]
    split <;> split <;> omega
  · rw [set_eq_of_length_le (by omega)]
    omega

/-- A slot that is emptied counted before. -/
theorem countP_set_none (hi : slots[i]? = some (some fn)) :
    (slots.set i none).countP isSome + 1 = slots.countP isSome := by
  obtain ⟨hlt, hget⟩ := List.getElem?_eq_some_iff.mp hi
  have hpositive : 0 < slots.countP isSome :=
    countP_pos_iff.mpr ⟨some fn, mem_of_getElem? hi, rfl⟩
  rw [countP_set hlt, hget]
  exact Nat.sub_add_cancel hpositive

variable (t : ObserverTable Observer)

theorem counted_append (fn : Option Observer) :
    ((t.slots ++ [fn]).countP isSome : Int) ≤ t.count + 1 := by
  have hcounted := t.counted
  simp only [countP_append, countP_singleton]
  split <;> omega

theorem counted_set (i : Nat) (fn : Option Observer) :
    ((t.slots.set i fn).countP isSome : Int) ≤ t.count + 1 := by
  have hcounted := t.counted
  have hset := countP_set_le t.slots i fn
  omega

theorem counted_set_none (hi : t.slots[i]? = some (some fn)) :
    ((t.slots.set i none).countP isSome : Int) ≤ t.count - 1 := by
  have hcounted := t.counted
  have hset := countP_set_none hi
  omega

/-- `addObserver`: the slot that the observer got. -/
def add (t : ObserverTable Observer) (fn : Option Observer) : Int × ObserverTable Observer :=
  if t.count = t.slots.length then
    (t.slots.length, ⟨t.slots ++ [fn], t.count + 1, t.counted_append fn⟩)
  else
    match t.slots.findIdx? isNone with
    | none => (-1, t)
    | some i => (i, ⟨t.slots.set i fn, t.count + 1, t.counted_set i fn⟩)

def remove (t : ObserverTable Observer) (index : Int) : ObserverTable Observer :=
  if index < 0 ∨ index ≥ t.slots.length then t
  else
    match hi : t.slots[index.toNat]? with
    | some (some _) => ⟨t.slots.set index.toNat none, t.count - 1, t.counted_set_none hi⟩
    | _ => t

/-- The observers in the slots from `i` on. -/
def registered : Nat → List (Option Observer) → List (Nat × Observer)
  | _, [] => []
  | i, none :: rest => registered (i + 1) rest
  | i, some fn :: rest => (i, fn) :: registered (i + 1) rest

def collect (t : ObserverTable Observer) : List (Nat × Observer) :=
  if t.count > 0 then registered 0 t.slots else []

def Occupied (t : ObserverTable Observer) (slot : Nat) : Prop :=
  ∃ fn, t.slots[slot]? = some (some fn)

theorem le_of_mem_registered {entry} (hentry : entry ∈ registered i slots) : i ≤ entry.1 := by
  induction slots generalizing i with
  | nil => cases hentry
  | cons first rest ih =>
    cases first with
    | none => exact Nat.le_of_succ_le (ih hentry)
    | some fn =>
      rcases mem_cons.mp hentry with rfl | hrest
      · exact Nat.le_refl _
      · exact Nat.le_of_succ_le (ih hrest)

theorem registered_nodup (i : Nat) (slots : List (Option Observer)) :
    ((registered i slots).map fst).Nodup := by
  induction slots generalizing i with
  | nil => exact nodup_nil
  | cons first rest ih =>
    cases first with
    | none => exact ih (i + 1)
    | some fn =>
      refine nodup_cons.mpr ⟨fun hmem => ?_, ih (i + 1)⟩
      obtain ⟨entry, hentry, heq⟩ := mem_map.mp hmem
      have hle := le_of_mem_registered hentry
      omega

theorem mem_registered {i slot} :
    (i + slot, fn) ∈ registered i slots ↔ slots[slot]? = some (some fn) := by
  induction slots generalizing i slot with
  | nil => simp [registered]
  | cons first rest ih =>
    have hfirst : (i, fn) ∉ registered (i + 1) rest :=
      fun hmem => absurd (le_of_mem_registered hmem) (Nat.not_succ_le_self i)
    have hrest : (i + (slot - 1 + 1), fn) ∈ registered (i + 1) rest ↔
        rest[slot - 1]? = some (some fn) := by
      rw [← ih (i := i + 1), Nat.add_assoc, Nat.add_comm 1]
    cases first <;> cases slot <;> simp_all [registered, eq_comm]

theorem collect_nodup : (t.collect.map fst).Nodup := by
  unfold collect
  split
  · exact registered_nodup 0 t.slots
  · exact nodup_nil

variable {t : ObserverTable Observer} {slot : Nat}

/-- An observer that is registered is collected, as the count is positive. -/
theorem Occupied.mem_collect (hslot : t.Occupied slot) : slot ∈ t.collect.map fst := by
  obtain ⟨fn, hfn⟩ := hslot
  have hmem := (mem_registered (i := 0)).mpr hfn
  have hpositive : 0 < t.slots.countP isSome :=
    countP_pos_iff.mpr ⟨some fn, mem_of_getElem? hfn, rfl⟩
  have hcounted := t.counted
  rw [collect, if_pos (by omega)]
  exact mem_map.mpr ⟨_, hmem, Nat.zero_add slot⟩

/-- An observer gets a slot that was nil. -/
theorem Occupied.add (hslot : t.Occupied slot) (fn : Option Observer) :
    (t.add fn).2.Occupied slot := by
  obtain ⟨held, hheld⟩ := hslot
  unfold ObserverTable.add
  split
  · refine ⟨held, ?_⟩
    rw [getElem?_append_left (List.getElem?_eq_some_iff.mp hheld).1]
    exact hheld
  · split
    · exact ⟨held, hheld⟩
    next i hi =>
      have hne : i ≠ slot := by
        rintro rfl
        obtain ⟨hlt, hnone, -⟩ := findIdx?_eq_some_iff_getElem.mp hi
        rw [getElem?_eq_getElem hlt, some.injEq] at hheld
        rw [hheld] at hnone
        cases hnone
      exact ⟨held, by rw [getElem?_set_ne hne, hheld]⟩

theorem Occupied.remove (hslot : t.Occupied slot) {index : Int} (hne : index ≠ slot) :
    (t.remove index).Occupied slot := by
  obtain ⟨held, hheld⟩ := hslot
  unfold ObserverTable.remove
  split
  · exact ⟨held, hheld⟩
  · split
    · exact ⟨held, by rw [getElem?_set_ne (by omega), hheld]⟩
    · exact ⟨held, hheld⟩

/-- A call of one of the functions that register or remove observers. -/
inductive Op (Observer : Type) where
  | add (fn : Observer)
  | remove (index : Int)

/-- A call, with the observers that are registered and not removed, by their indices. -/
def step (s : ObserverTable Observer × (Int → Option Observer)) :
    Op Observer → ObserverTable Observer × (Int → Option Observer)
  | .add fn =>
    let answer := s.1.add (some fn)
    (answer.2, update s.2 answer.1 (some fn))
  | .remove index => (s.1.remove index, update s.2 index none)

/-- The table has the observers of `live`, and counts them. -/
structure Holds (t : ObserverTable Observer) (live : Int → Option Observer) : Prop where
  count : t.count = t.slots.countP isSome
  slots : ∀ i : Nat, live i = (t.slots[i]?).join
  negative : ∀ index < 0, live index = none

variable {live : Int → Option Observer}

theorem Holds.add (h : t.Holds live) (fn : Observer) :
    0 ≤ (t.add (some fn)).1 ∧ live (t.add (some fn)).1 = none ∧
      (t.add (some fn)).2.Holds (update live (t.add (some fn)).1 (some fn)) := by
  have hcount := h.count
  unfold ObserverTable.add
  split
  · refine ⟨Int.natCast_nonneg _, by simp [h.slots], by simp [hcount], ?_, ?_⟩
    · grind [h.slots]
    · grind [h.negative]
  next hne =>
    split
    next hnone =>
      -- A table without a nil slot counts as many observers as it has slots.
      have hall : t.slots.countP isSome = t.slots.length := by
        rw [countP_eq_length]
        intro slot hslot
        simpa using findIdx?_eq_none_iff.mp hnone slot hslot
      omega
    next i hi =>
      obtain ⟨hlt, hnone, -⟩ := findIdx?_eq_some_iff_getElem.mp hi
      rw [isNone_iff_eq_none] at hnone
      refine ⟨Int.natCast_nonneg _, by simp [h.slots, hlt, hnone], ?_, ?_, ?_⟩
      · simp [countP_set hlt, hnone, hcount]
      · grind [h.slots]
      · grind [h.negative]

theorem Holds.remove (h : t.Holds live) (index : Int) :
    (t.remove index).Holds (update live index none) := by
  have hcount := h.count
  have hskip (hnone : live index = none) : t.Holds (update live index none) := by
    rw [← hnone, update_eq_self]
    exact h
  unfold ObserverTable.remove
  split
  next hout =>
    apply hskip
    rcases hout with hneg | hlen
    · exact h.negative index hneg
    · have hslot := h.slots index.toNat
      rw [getElem?_eq_none (by omega), Int.toNat_of_nonneg (by omega)] at hslot
      exact hslot
  next hin =>
    have hslot := h.slots index.toNat
    rw [Int.toNat_of_nonneg (by omega)] at hslot
    split
    next fn hi =>
      have hset := countP_set_none hi
      refine ⟨by dsimp only; omega, ?_, ?_⟩
      · grind [h.slots]
      · grind [h.negative]
    next hi =>
      apply hskip
      rw [hslot]
      cases hget : t.slots[index.toNat]? with
      | none => rfl
      | some slot =>
        cases slot with
        | none => rfl
        | some fn => exact absurd hget (hi fn)

theorem Holds.step (h : t.Holds live) (op : Op Observer) :
    (step (t, live) op).1.Holds (step (t, live) op).2 := by
  cases op with
  | add fn => exact (h.add fn).2.2
  | remove index => exact h.remove index

theorem Holds.run (h : t.Holds live) (ops : List (Op Observer)) :
    (ops.foldl ObserverTable.step (t, live)).1.Holds
      (ops.foldl ObserverTable.step (t, live)).2 := by
  induction ops generalizing t live with
  | nil => exact h
  | cons op ops ih => exact ih (h.step op)

/-- An observer that is registered gets its slot from no later call but its removal. -/
theorem Holds.kept (h : t.Holds live) {index : Int} (hlive : live index = some fn)
    {later : List (Op Observer)} (hlater : .remove index ∉ later) :
    (later.foldl ObserverTable.step (t, live)).2 index = some fn := by
  induction later generalizing t live with
  | nil => exact hlive
  | cons op later ih =>
    refine ih (h.step op) ?_ (fun hmem => hlater (mem_cons_of_mem _ hmem))
    cases op with
    | add other =>
      have hfree := (h.add other).2.1
      have hne : index ≠ (t.add (some other)).1 := by
        rintro rfl
        rw [hlive] at hfree
        cases hfree
      exact (update_of_ne hne ..).trans hlive
    | remove other =>
      have hne : index ≠ other := by
        rintro rfl
        exact hlater mem_cons_self
      exact (update_of_ne hne ..).trans hlive

theorem Holds.mem_collect (h : t.Holds live) : (slot, fn) ∈ t.collect ↔ live slot = some fn := by
  rw [h.slots, join_eq_some_iff, ← mem_registered (i := 0), Nat.zero_add, collect]
  split
  · rfl
  next hcount =>
    have hnone : t.slots.countP isSome = 0 := by
      have := h.count
      omega
    refine iff_of_false not_mem_nil fun hmem => ?_
    rw [← Nat.zero_add slot, mem_registered] at hmem
    exact absurd rfl (countP_eq_zero.mp hnone _ (mem_of_getElem? hmem))

/-- What the calls leave of a new table, and the observers that are registered then. -/
def run (ops : List (Op Observer)) : ObserverTable Observer × (Int → Option Observer) :=
  ops.foldl step (empty, fun _ => none)

theorem run_holds (ops : List (Op Observer)) : (run ops).1.Holds (run ops).2 := by
  have hempty : Holds (empty : ObserverTable Observer) fun _ => none := by
    refine ⟨rfl, ?_, fun _ _ => rfl⟩
    rintro (_ | _ | _ | _ | i) <;> rfl
  exact hempty.run ops

/-- Whatever the calls: the count is exact, an observer always gets a slot, which is free,
keeps it until it is removed, and is collected as long as it does. -/
theorem observers_exact (ops : List (Op Observer)) :
    (run ops).1.count = (run ops).1.slots.countP isSome ∧
      (∀ fn, 0 ≤ ((run ops).1.add (some fn)).1 ∧ (run ops).2 ((run ops).1.add (some fn)).1 = none) ∧
      (∀ i : Nat, (run ops).2 i = ((run ops).1.slots[i]?).join) ∧
      (∀ index fn later, (run ops).2 index = some fn → .remove index ∉ later →
        (run (ops ++ later)).2 index = some fn) ∧
      ((run ops).1.collect.map fst).Nodup ∧
      ∀ index fn, (run ops).2 index = some fn ↔
        ∃ i : Nat, index = i ∧ (i, fn) ∈ (run ops).1.collect := by
  have h := run_holds ops
  refine ⟨h.count, fun fn => ⟨(h.add fn).1, (h.add fn).2.1⟩, h.slots, ?_, collect_nodup _, ?_⟩
  · intro index fn later hlive hlater
    rw [run, foldl_append]
    exact h.kept hlive hlater
  · intro index fn
    constructor
    · intro hlive
      have hindex : 0 ≤ index := by
        by_contra hneg
        rw [h.negative index (by omega)] at hlive
        cases hlive
      lift index to Nat using hindex
      exact ⟨index, rfl, h.mem_collect.mpr hlive⟩
    · rintro ⟨i, rfl, hmem⟩
      exact h.mem_collect.mp hmem

end ObserverTable

end Voce.Engine
