import Mathlib.Algebra.GroupWithZero.Nat
import Mathlib.Algebra.Order.Group.Nat
import Mathlib.Data.List.Basic

/-! # Custody of references

A reference to a pooled object is issued once, handed from holder to holder and
retired by the one that has it. The ledger counts how often each reference was
retired. What the holders have together is given by the sum of any weight over
the references they hold.
-/

namespace Voce.Custody

/-- One reference to an object, told apart from all others by its number. -/
structure Reference (Object : Type) where
  id : Nat
  object : Object
  deriving DecidableEq

/-- How many references were issued and how often each was retired. -/
structure Ledger where
  issued : Nat
  retired : Nat → Nat

namespace Ledger

def empty : Ledger := ⟨0, fun _ => 0⟩

def issue (ledger : Ledger) : Ledger := { ledger with issued := ledger.issued + 1 }

def retire (ledger : Ledger) (id : Nat) : Ledger :=
  { ledger with retired := fun k => if k = id then ledger.retired k + 1 else ledger.retired k }

end Ledger

variable {Object : Type}

/-- What one step does with references: hand some on, issue one or retire one. -/
inductive Flow (Object : Type) where
  | move
  | issue (r : Reference Object)
  | retire (r : Reference Object)

namespace Flow

def gain (weight : Reference Object → Nat) : Flow Object → Nat
  | .issue r => weight r
  | _ => 0

def loss (weight : Reference Object → Nat) : Flow Object → Nat
  | .retire r => weight r
  | _ => 0

/-- The entry a flow makes. A reference is issued under the next number. -/
inductive Records : Flow Object → Ledger → Ledger → Prop where
  | move (ledger : Ledger) : Records .move ledger ledger
  | issue (ledger : Ledger) (object : Object) :
      Records (.issue ⟨ledger.issued, object⟩) ledger ledger.issue
  | retire (ledger : Ledger) (r : Reference Object) :
      Records (.retire r) ledger (ledger.retire r.id)

end Flow

/-- The sum of a weight over the references that are held. -/
abbrev Holdings (Object : Type) := (Reference Object → Nat) → Nat

def named (id : Nat) (r : Reference Object) : Nat := if r.id = id then 1 else 0

def pointing [DecidableEq Object] (object : Object) (r : Reference Object) : Nat :=
  if r.object = object then 1 else 0

/-- A step changes the holdings by what its flow gains and loses. -/
def Flow.Carries (flow : Flow Object) (before after : Holdings Object) : Prop :=
  ∀ weight, after weight + flow.loss weight = before weight + flow.gain weight

/-- What other holders have makes no difference to a step. -/
theorem Flow.Carries.frame {flow : Flow Object} {before after whole whole'}
    (hcarries : flow.Carries before after)
    (hframe : ∀ weight, whole' weight + before weight = whole weight + after weight) :
    flow.Carries whole whole' := by
  intro weight
  have hpart := hcarries weight
  have hwhole := hframe weight
  omega

/-- Every reference issued so far is either held once or was retired once. -/
def Balanced (ledger : Ledger) (held : Holdings Object) : Prop :=
  ∀ id, ledger.retired id + held (named id) = if id < ledger.issued then 1 else 0

namespace Balanced

variable {ledger after : Ledger} {held held' : Holdings Object}

theorem flow (hbalanced : Balanced ledger held) {flow : Flow Object}
    (hcarries : flow.Carries held held') (hrecords : flow.Records ledger after) :
    Balanced after held' := by
  intro id
  have hid := hbalanced id
  have hheld := hcarries (named id)
  cases hrecords with
  | move =>
    simp only [Flow.gain, Flow.loss, add_zero] at hheld
    rw [hheld, hid]
  | issue _ object =>
    simp only [Flow.gain, Flow.loss, add_zero, named] at hheld
    change ledger.retired id + held' (named id) = if id < ledger.issued + 1 then 1 else 0
    rw [hheld]
    rcases Nat.lt_trichotomy id ledger.issued with hlt | rfl | hgt
    · rw [if_pos hlt] at hid
      rw [if_neg (Nat.ne_of_gt hlt), if_pos (Nat.lt_succ_of_lt hlt), add_zero, hid]
    · rw [if_neg (lt_irrefl _)] at hid
      rw [if_pos (Nat.lt_succ_self _), if_pos rfl]
      omega
    · rw [if_neg (Nat.lt_asymm hgt)] at hid
      rw [if_neg (ne_of_lt hgt), if_neg (not_lt.mpr hgt), add_zero, hid]
  | retire _ r =>
    simp only [Flow.gain, Flow.loss, add_zero, named] at hheld
    change (if id = r.id then ledger.retired id + 1 else ledger.retired id) +
      held' (named id) = if id < ledger.issued then 1 else 0
    by_cases hr : r.id = id
    · rw [if_pos hr] at hheld
      rw [if_pos hr.symm]
      omega
    · rw [if_neg hr] at hheld
      rw [if_neg (Ne.symm hr)]
      omega

theorem retired_le_one (hbalanced : Balanced ledger held) (id : Nat) : ledger.retired id ≤ 1 := by
  have hid := hbalanced id
  split at hid <;> omega

/-- A reference that nobody holds any more was retired. -/
theorem retired_eq_one (hbalanced : Balanced ledger held) {id} (hissued : id < ledger.issued)
    (hnone : held (named id) = 0) : ledger.retired id = 1 := by
  have hid := hbalanced id
  rwa [hnone, if_pos hissued] at hid

theorem empty (hnone : ∀ weight, held weight = 0) : Balanced Ledger.empty held := by
  intro id
  simp [Ledger.empty, hnone]

end Balanced

end Voce.Custody
