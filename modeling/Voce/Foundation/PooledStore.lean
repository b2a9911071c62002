import Mathlib.Data.List.Basic
import Mathlib.Logic.Function.Basic

/-! # Stores of pooled objects

Objects are numbered in the order in which they are made. A pool keeps objects that nobody uses
and hands them out again.
-/

namespace Voce.PooledStore

open Function

section Pool

variable {Item State : Type} [BEq Item] [LawfulBEq Item]

/-- A pool with these items hands out the chosen object if it has it, and else one that was made. -/
def acquire (pooled : List Item) (item : Nat → Item) (choice : Option Nat)
    (keep : List Item → State) (made : State × Nat) : State × Nat :=
  match choice with
  | none => made
  | some p => if item p ∈ pooled then (keep (pooled.erase (item p)), p) else made

variable {Other : Type} {pooled : List Item} {item : Nat → Item} {f : List Item → State}
  {g : List Item → Other} {a : State × Nat} {b : Other × Nat}

/-- Two users of one pool are related if they are however the pool decides. -/
theorem acquire_related (choice : Option Nat) (related : State × Nat → Other × Nat → Prop)
    (hkeep : ∀ p, item p ∈ pooled →
      related (f (pooled.erase (item p)), p) (g (pooled.erase (item p)), p))
    (hmade : related a b) :
    related (acquire pooled item choice f a) (acquire pooled item choice g b) := by
  cases choice with
  | none => exact hmade
  | some p =>
    unfold acquire
    dsimp only
    split
    next hp => exact hkeep p hp
    · exact hmade

theorem acquire_induct (choice : Option Nat) (holds : State × Nat → Prop)
    (hkeep : ∀ p, item p ∈ pooled → holds (f (pooled.erase (item p)), p)) (hmade : holds a) :
    holds (acquire pooled item choice f a) :=
  acquire_related (g := f) (b := a) choice (fun handed _ => holds handed) hkeep hmade

/-- What a pool of numbered objects has then, how many were made then, and the acquired one. -/
def take (pooled : List Item) (allocated : Nat) (item : Nat → Item) (choice : Option Nat) :
    (List Item × Nat) × Nat :=
  acquire pooled item choice (·, allocated) ((pooled, allocated + 1), allocated)

/-- Whether the object with the number was made. -/
def made (allocated p : Nat) : Nat := if p < allocated then 1 else 0

theorem made_le_one (allocated p : Nat) : made allocated p ≤ 1 := by
  unfold made
  split <;> omega

/-- An acquired object was in the pool or is new. -/
theorem take_count (pooled : List Item) (allocated : Nat) (item : Nat → Item) (choice : Option Nat)
    {index : Item → Nat} (hindex : ∀ p, index (item p) = p) (o : Item) :
    (item (take pooled allocated item choice).2 ::
        (take pooled allocated item choice).1.1).count o + made allocated (index o) ≤
      pooled.count o + made (take pooled allocated item choice).1.2 (index o) := by
  refine acquire_induct choice (fun (taken : (List Item × Nat) × Nat) =>
    (item taken.2 :: taken.1.1).count o + made allocated (index o) ≤
      pooled.count o + made taken.1.2 (index o)) (fun p hp => ?_) ?_
  · have hcount := (List.perm_cons_erase hp).count_eq o
    exact Nat.add_le_add_right (Nat.le_of_eq hcount.symm) _
  · dsimp only
    by_cases heq : item allocated = o
    · subst heq
      simp [made, hindex]
    · rw [List.count_cons_of_ne heq]
      unfold made
      split <;> split <;> omega

end Pool

structure Store (Pool Face : Type) where
  face : Nat → Face
  allocated : Nat
  pooled : List (Pool × Nat)

namespace Store

variable {Pool Face : Type}

def update (v : Store Pool Face) (p : Nat) (o : Face) : Store Pool Face :=
  { v with face := Function.update v.face p o }

variable (v : Store Pool Face)

@[simp]
theorem face_update (p : Nat) (o : Face) : (v.update p o).face p = o :=
  update_self _ _ _

theorem face_update_of_ne {p q} (hne : q ≠ p) (o : Face) : (v.update p o).face q = v.face q :=
  update_of_ne hne _ _

@[simp]
theorem update_face (p : Nat) : v.update p (v.face p) = v := by
  rw [update, update_eq_self]

@[simp]
theorem update_update (p : Nat) (o o' : Face) : (v.update p o).update p o' = v.update p o' := by
  rw [update, update, update, update_idem]

def modify (v : Store Pool Face) (p : Nat) (change : Face → Face) : Store Pool Face :=
  v.update p (change (v.face p))

def make (v : Store Pool Face) (o : Face) : Store Pool Face × Nat :=
  ({ v with
     face := Function.update v.face v.allocated o
     allocated := v.allocated + 1 }, v.allocated)

def acquire [DecidableEq Pool] (v : Store Pool Face) (factory : Pool → Face) (pool : Pool)
    (choice : Option Nat) : Store Pool Face × Nat :=
  PooledStore.acquire v.pooled (pool, ·) choice ({ v with pooled := · }) (v.make (factory pool))

end Store

end Voce.PooledStore
