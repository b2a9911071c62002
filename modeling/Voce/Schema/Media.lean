import Mathlib.Data.List.Nodup
import Voce.Foundation.Custody
import Voce.Foundation.PooledStore

/-! # Reference-counted media objects

Audio and video objects come from pools and carry a count. `Retain` adds one to it, and
the `Release` that takes it to zero puts the object back. While every reference is
retired once at most and an object is retained only by someone who has a reference to
it, the count is the number of references, and no object with a reference is in a pool.
The count has 32 bits, so this ends with the `Retain` that overflows it.
-/

namespace Voce.Schema

open Custody List Int32 PooledStore Function

inductive MediaKind where
  | audio
  | video
  deriving DecidableEq

structure MediaRef where
  kind : MediaKind
  index : Nat
  deriving DecidableEq

structure Media where
  /-- An `atomic.Int32` in each object. -/
  count : MediaRef → Int32
  pool : List MediaRef
  recycling : List MediaRef
  allocated : Nat
  ledger : Ledger

namespace Media

def empty : Media := ⟨fun _ => 0, [], [], 0, Ledger.empty⟩

variable (m : Media) (o : MediaRef)

def retain : Media :=
  { m with count := update m.count o (m.count o + 1), ledger := m.ledger.issue }

/-- `Release` up to its decision whether to put the object back. -/
def release (r : Reference MediaRef) : Media :=
  let count := m.count r.object - 1
  { m with
    count := update m.count r.object count
    recycling := if count > 0 then m.recycling else r.object :: m.recycling
    ledger := m.ledger.retire r.id }

/-- `TypedPool.Release`: recycle the object and put it back. -/
def recycle : Media :=
  { m with
    count := update m.count o 0
    pool := o :: m.pool
    recycling := m.recycling.erase o }

def acquire (kind : MediaKind) (choice : Option Nat) : Media × MediaRef :=
  let taken := take m.pool m.allocated (MediaRef.mk kind) choice
  ({ m with pool := taken.1.1, allocated := taken.1.2 }, ⟨kind, taken.2⟩)

/-- `NewAudio` and `NewVideo`. -/
def create (kind : MediaKind) (choice : Option Nat) : Media × MediaRef :=
  let acquired := m.acquire kind choice
  ({ acquired.1 with
     count := update m.count acquired.2 1, ledger := m.ledger.issue }, acquired.2)

def collect : Media := { m with pool := m.pool.erase o }

/-- The reference that `retain` and `create` issue. -/
def nextReference : Reference MediaRef := ⟨m.ledger.issued, o⟩

/-- An object is in a pool or on its way there. -/
def Returned : Prop := o ∈ m.pool ∨ o ∈ m.recycling

variable {o : MediaRef} {choice : Option Nat} {kind : MediaKind}

/-- An operation on media with what it does to the references. Only objects that the
caller has access to are retained. -/
inductive Step (access : MediaRef → Prop) (m : Media) : Media → Flow MediaRef → Prop where
  | stay : Step access m m .move
  | retain (o : MediaRef) (haccess : access o) :
      Step access m (m.retain o) (.issue (m.nextReference o))
  | create (kind : MediaKind) (choice : Option Nat) : Step access m (m.create kind choice).1
      (.issue (m.nextReference (m.create kind choice).2))
  | release (r : Reference MediaRef) : Step access m (m.release r) (.retire r)
  | recycle (o : MediaRef) (hrecycling : o ∈ m.recycling) : Step access m (m.recycle o) .move
  | collect (o : MediaRef) : Step access m (m.collect o) .move

variable {flow : Flow MediaRef}

theorem Step.records {access : MediaRef → Prop} {m m' : Media} (hstep : Step access m m' flow) :
    flow.Records m.ledger m'.ledger := by
  cases hstep with
  | retain o => exact .issue m.ledger o
  | create kind choice => exact .issue m.ledger _
  | release r => exact .retire m.ledger r
  | _ => exact .move m.ledger

theorem Step.mono {access access' : MediaRef → Prop} {m m'} (hstep : Step access m m' flow)
    (himp : ∀ o, access o → access' o) : Step access' m m' flow := by
  cases hstep with
  | stay => exact .stay
  | retain o haccess => exact .retain o (himp o haccess)
  | create kind choice => exact .create kind choice
  | release r => exact .release r
  | recycle o hrecycling => exact .recycle o hrecycling
  | collect o => exact .collect o

/-! ## Safety -/

/-- One for an object that has a reference. -/
def live (held : Holdings MediaRef) (o : MediaRef) : Nat := if held (pointing o) = 0 then 0 else 1

def made (m : Media) (o : MediaRef) : Nat := PooledStore.made m.allocated o.index

/-- The counts are the numbers of references, and every object is referenced, in a pool
or on its way there, one of these only and once. -/
structure Safe (m : Media) (held : Holdings MediaRef) : Prop where
  counted : ∀ o, (m.count o).toInt = held (pointing o)
  apart : ∀ o, m.pool.count o + m.recycling.count o + live held o ≤ m.made o

variable {m m' : Media} {held held' : Holdings MediaRef}

theorem toInt_add_one {count} (hlt : count < maxValue) : (count + 1).toInt = count.toInt + 1 := by
  have hlower := count.le_toInt
  have hupper : count.toInt < 2 ^ 31 - 1 := lt_iff_toInt_lt.mp hlt
  rw [toInt_add, toInt_one]
  exact Int.bmod_eq_of_le (by omega) (by omega)

theorem toInt_sub_one {count : Int32} (hpos : 0 < count.toInt) :
    (count - 1).toInt = count.toInt - 1 := by
  have hupper := count.toInt_lt
  rw [toInt_sub, toInt_one]
  exact Int.bmod_eq_of_le (by omega) (by omega)

theorem empty_safe (hnone : ∀ weight, held weight = 0) : Safe empty held where
  counted o := by simp [empty, hnone]
  apart o := by simp [empty, live, hnone]

theorem Safe.not_returned (hsafe : Safe m held) (hheld : 0 < held (pointing o)) :
    ¬ m.Returned o := by
  have hapart := hsafe.apart o
  have hmade : m.made o ≤ 1 := made_le_one _ _
  rw [live, if_neg (Nat.ne_of_gt hheld)] at hapart
  rintro (hpool | hrecycling)
  · have hcount := count_pos_iff.mpr hpool
    omega
  · have hcount := count_pos_iff.mpr hrecycling
    omega

theorem Safe.pool_nodup (hsafe : Safe m held) : m.pool.Nodup := by
  rw [nodup_iff_count_le_one]
  intro o
  have hapart := hsafe.apart o
  have hmade : m.made o ≤ 1 := made_le_one _ _
  omega

theorem held_eq_of_move (hcarries : Flow.move.Carries held held') : held' = held := by
  funext weight
  exact hcarries weight

/-- Issuing a reference changes the holdings of its object only. -/
theorem held_of_issue {id} (hcarries : (Flow.issue ⟨id, o⟩).Carries held held') (p : MediaRef) :
    held' (pointing p) = held (pointing p) + if p = o then 1 else 0 := by
  have hheld := hcarries (pointing p)
  simp only [Flow.gain, Flow.loss, add_zero, pointing] at hheld
  rw [hheld]
  simp only [eq_comm]

theorem held_of_retire {r} (hcarries : (Flow.retire r).Carries held held') (o : MediaRef) :
    held' (pointing o) + (if o = r.object then 1 else 0) = held (pointing o) := by
  have hheld := hcarries (pointing o)
  simp only [Flow.gain, Flow.loss, add_zero, pointing] at hheld
  rw [← hheld]
  simp only [eq_comm]

variable (hsafe : Safe m held)
include hsafe

theorem Safe.retain (hlive : 0 < held (pointing o)) (hfits : m.count o < maxValue)
    (hcarries : (Flow.issue (m.nextReference o)).Carries held held') :
    Safe (m.retain o) held' where
  counted p := by
    have hcount := hsafe.counted p
    rw [held_of_issue hcarries p]
    by_cases hp : p = o
    · subst hp
      simp [Media.retain, toInt_add_one hfits, hcount]
    · simp [Media.retain, hp, hcount]
  apart p := by
    have hapart := hsafe.apart p
    have hsame : live held' p = live held p := by
      rw [live, live, held_of_issue hcarries p]
      by_cases hp : p = o
      · subst hp
        rw [if_neg (by omega), if_neg (by omega)]
      · rw [if_neg hp, add_zero]
    rw [hsame]
    exact hapart

theorem Safe.release {r : Reference MediaRef} (hcarries : (Flow.retire r).Carries held held') :
    Safe (m.release r) held' where
  counted p := by
    have hcount := hsafe.counted p
    have hheld := held_of_retire hcarries p
    by_cases hp : p = r.object
    · subst hp
      simp only [if_true] at hheld
      simp only [Media.release, update_self]
      rw [toInt_sub_one (by omega)]
      omega
    · rw [if_neg hp, add_zero] at hheld
      simp [Media.release, hp, hcount, hheld]
  apart p := by
    have hapart := hsafe.apart p
    have hcount := hsafe.counted r.object
    have hheld := held_of_retire hcarries p
    have hmade : (m.release r).made p = m.made p := rfl
    rw [hmade]
    by_cases hp : p = r.object
    · subst hp
      rw [if_pos rfl] at hheld
      rw [live, if_neg (by omega)] at hapart
      have hleft : m.count r.object - 1 > 0 ↔ 0 < held' (pointing r.object) := by
        rw [gt_iff_lt, lt_iff_toInt_lt, toInt_sub_one (by omega), toInt_zero]
        omega
      by_cases hlast : held' (pointing r.object) = 0
      · have hrecycling : (m.release r).recycling = r.object :: m.recycling := by
          simp only [Media.release]
          rw [if_neg (by rw [hleft]; omega)]
        rw [hrecycling, count_cons_self, live, if_pos hlast]
        change m.pool.count r.object + _ + 0 ≤ _
        omega
      · have hrecycling : (m.release r).recycling = m.recycling := by
          simp only [Media.release]
          rw [if_pos (by rw [hleft]; omega)]
        rw [hrecycling, live, if_neg hlast]
        exact hapart
    · rw [if_neg hp, add_zero] at hheld
      have hrecycling : (m.release r).recycling.count p = m.recycling.count p := by
        simp only [Media.release]
        split
        · rfl
        · rw [count_cons_of_ne (Ne.symm hp)]
      rw [hrecycling, live, hheld]
      exact hapart

theorem Safe.recycle (hrecycling : o ∈ m.recycling) : Safe (m.recycle o) held := by
  have hpos : 0 < m.recycling.count o := count_pos_iff.mpr hrecycling
  refine ⟨?_, ?_⟩
  · intro p
    by_cases hp : p = o
    · subst hp
      have hapart := hsafe.apart p
      have hmade : m.made p ≤ 1 := made_le_one _ _
      have hnone : held (pointing p) = 0 := by
        by_contra hsome
        rw [live, if_neg hsome] at hapart
        omega
      simp [Media.recycle, hnone]
    · simpa [Media.recycle, hp] using hsafe.counted p
  · intro p
    have hapart := hsafe.apart p
    have hsum : (m.recycle o).pool.count p + (m.recycle o).recycling.count p =
        m.pool.count p + m.recycling.count p := by
      simp only [Media.recycle, count_cons, count_erase, beq_iff_eq]
      split
      next hp =>
        subst hp
        omega
      · omega
    rw [hsum]
    exact hapart

theorem Safe.collect (o : MediaRef) : Safe (m.collect o) held := by
  refine ⟨hsafe.counted, ?_⟩
  intro p
  have hapart := hsafe.apart p
  have hmade : (m.collect o).made p = m.made p := rfl
  rw [hmade]
  simp only [Media.collect, count_erase]
  omega

/-- An acquired object has no reference and is in no pool any more. -/
theorem acquire_apart (kind : MediaKind) (choice : Option Nat) :
    held (pointing (m.acquire kind choice).2) = 0 ∧
      ∀ p, ((m.acquire kind choice).2 :: (m.acquire kind choice).1.pool).count p +
        m.recycling.count p + live held p ≤ (m.acquire kind choice).1.made p := by
  have hapart : ∀ p, ((m.acquire kind choice).2 :: (m.acquire kind choice).1.pool).count p +
      m.recycling.count p + live held p ≤ (m.acquire kind choice).1.made p := by
    intro p
    have hindex : ∀ index, (MediaRef.mk kind index).index = index := fun _ => rfl
    have htaken : ((m.acquire kind choice).2 :: (m.acquire kind choice).1.pool).count p +
        m.made p ≤ m.pool.count p + (m.acquire kind choice).1.made p :=
      take_count m.pool m.allocated (MediaRef.mk kind) choice hindex p
    have hp := hsafe.apart p
    omega
  refine ⟨?_, hapart⟩
  by_contra hsome
  have ho := hapart (m.acquire kind choice).2
  have hmade : (m.acquire kind choice).1.made (m.acquire kind choice).2 ≤ 1 := made_le_one _ _
  rw [live, if_neg hsome, count_cons_self] at ho
  omega

theorem Safe.create
    (hcarries : (Flow.issue (m.nextReference (m.create kind choice).2)).Carries held held') :
    Safe (m.create kind choice).1 held' := by
  obtain ⟨hnone, hapart⟩ := acquire_apart hsafe kind choice
  have hheld := held_of_issue hcarries
  refine ⟨?_, ?_⟩
  · intro p
    rw [hheld p]
    by_cases hp : p = (m.create kind choice).2
    · subst hp
      simp [Media.create, hnone]
    · rw [if_neg hp, add_zero, ← hsafe.counted p]
      exact congrArg Int32.toInt (update_of_ne hp _ _)
  · intro p
    have hp := hapart p
    have hlive : live held' p ≤ live held p + [(m.acquire kind choice).2].count p := by
      rw [live, live, hheld p]
      by_cases heq : p = (m.create kind choice).2
      · have hone : [(m.acquire kind choice).2].count p = 1 := by
          rw [heq]
          exact count_singleton_self
        rw [hone]
        split <;> split <;> omega
      · rw [if_neg heq]
        exact Nat.le_add_right _ _
    rw [count_cons] at hp
    change (m.acquire kind choice).1.pool.count p + m.recycling.count p + live held' p ≤
      (m.acquire kind choice).1.made p
    simp only [count_singleton] at hlive
    omega

/-- An operation keeps the media safe if only objects with a reference are retained, and
none whose count is at its limit. -/
theorem Safe.step
    (hstep : Step (fun o => 0 < held (pointing o) ∧ m.count o < maxValue) m m' flow)
    (hcarries : flow.Carries held held') : Safe m' held' := by
  cases hstep with
  | stay =>
    rw [held_eq_of_move hcarries]
    exact hsafe
  | retain o haccess => exact hsafe.retain haccess.1 haccess.2 hcarries
  | create kind choice => exact hsafe.create hcarries
  | release r => exact hsafe.release hcarries
  | recycle o hrecycling =>
    rw [held_eq_of_move hcarries]
    exact hsafe.recycle hrecycling
  | collect o =>
    rw [held_eq_of_move hcarries]
    exact hsafe.collect o

end Media

end Voce.Schema
