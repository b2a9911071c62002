import Mathlib.Algebra.GroupWithZero.Nat
import Mathlib.Algebra.Order.BigOperators.Group.List
import Mathlib.Algebra.Order.Group.Nat

/-! # Interleaved processes

Any number of processes step through local phases over one shared state. A
proof outline attaches an assertion to every phase. It is carried along a step
by showing the stepping process's next assertion and that the step interferes
with no assertion of another process. A relation between the phases of distinct
processes expresses exclusion.
-/

namespace Voce.Interleaving

open List Option

structure Config (Shared Phase : Type) where
  shared : Shared
  phases : List Phase

namespace Config

variable {Shared Phase : Type} (c : Config Shared Phase)

def update (i : Nat) (phase : Phase) (shared : Shared) : Config Shared Phase :=
  ⟨shared, c.phases.set i phase⟩

def spawn (phase : Phase) : Config Shared Phase :=
  { c with phases := c.phases ++ [phase] }

def advance (next : Phase → Option (Phase × Shared)) (i : Nat) : Option (Config Shared Phase) :=
  match c.phases[i]? with
  | none => none
  | some phase => (next phase).map fun moved => c.update i moved.1 moved.2

/-- Every process is in a phase in which its call has returned. -/
def Quiescent (returned : Phase → Bool) : Prop := ∀ phase ∈ c.phases, returned phase = true

instance (returned : Phase → Bool) : Decidable (c.Quiescent returned) :=
  inferInstanceAs (Decidable (∀ phase ∈ c.phases, returned phase = true))

variable {i : Nat}

theorem advance_eq_some {c d : Config Shared Phase} {next} (hadvance : c.advance next i = some d) :
    ∃ phase moved shared, c.phases[i]? = some phase ∧ next phase = some (moved, shared) ∧
      d = c.update i moved shared := by
  unfold advance at hadvance
  split at hadvance
  · cases hadvance
  next phase hi =>
    obtain ⟨⟨moved, shared⟩, hnext, rfl⟩ := map_eq_some_iff.mp hadvance
    exact ⟨phase, moved, shared, hi, hnext, rfl⟩

variable {c : Config Shared Phase} {phase : Phase}

theorem update_phases (hi : c.phases[i]? = some phase) (next : Phase) (shared : Shared) (j : Nat) :
    (c.update i next shared).phases[j]? = if j = i then some next else c.phases[j]? := by
  obtain ⟨hlt, -⟩ := List.getElem?_eq_some_iff.mp hi
  by_cases hj : j = i
  · subst hj
    simp [update, hlt]
  · simp [update, hj, Ne.symm hj]

theorem spawn_phases (c : Config Shared Phase) (phase : Phase) (j : Nat) :
    (c.spawn phase).phases[j]? =
      if j = c.phases.length then some phase else c.phases[j]? := by
  rw [spawn, getElem?_append]
  split
  next hlt => rw [if_neg (ne_of_lt hlt)]
  next hge =>
    by_cases hj : j = c.phases.length
    · simp [hj]
    · have hbeyond : c.phases.length ≤ j := Nat.le_of_not_lt hge
      rw [if_neg hj, getElem?_singleton, if_neg (by omega), getElem?_eq_none hbeyond]

theorem mem_update_self (hi : c.phases[i]? = some phase) (next : Phase) (shared : Shared) :
    next ∈ (c.update i next shared).phases := by
  apply mem_of_getElem? (i := i)
  rw [update_phases hi, if_pos rfl]

/-- A phase other than the one a process leaves is still there. -/
theorem mem_update_of_ne {phase other} (hi : c.phases[i]? = some phase) (hother : other ∈ c.phases)
    (hne : other ≠ phase) (next : Phase) (shared : Shared) :
    other ∈ (c.update i next shared).phases := by
  obtain ⟨j, hj⟩ := mem_iff_getElem?.mp hother
  apply mem_of_getElem? (i := j)
  have hji : j ≠ i := by
    rintro rfl
    rw [hi] at hj
    exact hne (some.inj hj).symm
  rw [update_phases hi, if_neg hji, hj]

/-- A phase that was there is the one that the process leaves or is still there. -/
theorem eq_or_mem_update {phase other} (hi : c.phases[i]? = some phase) (hother : other ∈ c.phases)
    (next : Phase) (shared : Shared) : other = phase ∨ other ∈ (c.update i next shared).phases := by
  by_cases heq : other = phase
  · exact .inl heq
  · exact .inr (mem_update_of_ne hi hother heq next shared)

/-- A phase that is there now is the one that the process entered or was there. -/
theorem eq_or_mem_of_mem_update {next other shared}
    (hother : other ∈ (c.update i next shared).phases) : other = next ∨ other ∈ c.phases :=
  (mem_or_eq_of_mem_set hother).symm

/-- A step changes nothing about the phases that it neither leaves nor enters. -/
theorem mem_update_iff {phase next other shared} (hi : c.phases[i]? = some phase)
    (hold : other ≠ phase) (hnew : other ≠ next) :
    other ∈ (c.update i next shared).phases ↔ other ∈ c.phases := by
  constructor
  · intro hother
    exact (eq_or_mem_of_mem_update hother).resolve_left hnew
  · intro hother
    exact mem_update_of_ne hi hother hold next shared

/-- What holds of one process and of every other one holds of all. -/
theorem forall_mem_of_others {property : Phase → Prop} (hi : c.phases[i]? = some phase)
    (hown : property phase)
    (hothers : ∀ j other, j ≠ i → c.phases[j]? = some other → property other) :
    ∀ other ∈ c.phases, property other := by
  intro other hmem
  obtain ⟨j, hj⟩ := mem_iff_getElem?.mp hmem
  by_cases heq : j = i
  · rw [heq, hi] at hj
    exact some.inj hj ▸ hown
  · exact hothers j other heq hj

end Config

variable {Shared Phase : Type}

/-- Every process satisfies its phase's assertion, which may name the process,
and distinct processes are in compatible phases. -/
structure Ensemble (assertion : Nat → Phase → Shared → Prop) (compatible : Phase → Phase → Prop)
    (c : Config Shared Phase) : Prop where
  asserted : ∀ (i : Nat) (phase : Phase), c.phases[i]? = some phase → assertion i phase c.shared
  separated : ∀ (i j : Nat) (phase other : Phase), i ≠ j → c.phases[i]? = some phase →
    c.phases[j]? = some other → compatible phase other

namespace Ensemble

variable {assertion : Nat → Phase → Shared → Prop} {compatible : Phase → Phase → Prop}
  {c : Config Shared Phase}

theorem start (shared : Shared) : Ensemble assertion compatible ⟨shared, []⟩ where
  asserted := nofun
  separated := nofun

variable (hc : Ensemble assertion compatible c)
include hc

theorem update {i phase next shared} (hi : c.phases[i]? = some phase)
    (hown : assertion i next shared)
    (hothers : ∀ j other, j ≠ i → c.phases[j]? = some other →
      assertion j other shared ∧ compatible next other ∧ compatible other next) :
    Ensemble assertion compatible (c.update i next shared) := by
  refine ⟨?_, ?_⟩
  · intro j other hat
    rw [Config.update_phases hi] at hat
    split at hat
    next hj =>
      cases hat
      exact hj ▸ hown
    next hj => exact (hothers j other hj hat).1
  · intro j k first second hjk hfirst hsecond
    rw [Config.update_phases hi] at hfirst hsecond
    split at hfirst
    next hj =>
      cases hfirst
      rw [if_neg (fun hk => hjk (hj.trans hk.symm))] at hsecond
      exact (hothers k second (fun hk => hjk (hj.trans hk.symm)) hsecond).2.1
    next hj =>
      split at hsecond
      · cases hsecond
        exact (hothers j first hj hfirst).2.2
      · exact hc.separated j k first second hjk hfirst hsecond

theorem spawn {phase : Phase} (hown : assertion c.phases.length phase c.shared)
    (hothers : ∀ (j : Nat) other, c.phases[j]? = some other →
      compatible phase other ∧ compatible other phase) :
    Ensemble assertion compatible (c.spawn phase) := by
  refine ⟨?_, ?_⟩
  · intro j other hat
    rw [Config.spawn_phases] at hat
    split at hat
    next hj =>
      cases hat
      exact hj ▸ hown
    · exact hc.asserted j other hat
  · intro j k first second hjk hfirst hsecond
    rw [Config.spawn_phases] at hfirst hsecond
    split at hfirst
    next hj =>
      cases hfirst
      rw [if_neg fun hk => hjk (hj.trans hk.symm)] at hsecond
      exact (hothers k second hsecond).1
    · split at hsecond
      · cases hsecond
        exact (hothers j first hfirst).2
      · exact hc.separated j k first second hjk hfirst hsecond

/-- The environment changes the shared state without interfering. -/
theorem environment {shared} (hothers : ∀ j other, c.phases[j]? = some other →
      assertion j other c.shared → assertion j other shared) :
    Ensemble assertion compatible { c with shared := shared } where
  asserted j other hj := hothers j other hj (hc.asserted j other hj)
  separated := hc.separated

end Ensemble

/-- No assertion names a process, and the shared state satisfies its own invariant. -/
structure Outline (invariant : Shared → Prop) (assertion : Phase → Shared → Prop)
    (compatible : Phase → Phase → Prop) (c : Config Shared Phase) : Prop extends
    Ensemble (fun _ => assertion) compatible c where
  shared : invariant c.shared

namespace Outline

variable {invariant : Shared → Prop} {assertion : Phase → Shared → Prop}
  {compatible : Phase → Phase → Prop} {c : Config Shared Phase}

theorem start (shared : Shared) (hshared : invariant shared) :
    Outline invariant assertion compatible ⟨shared, []⟩ :=
  ⟨.start shared, hshared⟩

variable {phase : Phase} (hc : Outline invariant assertion compatible c)
include hc

/-- A process steps without interfering with the others. -/
theorem update {i} (hi : c.phases[i]? = some phase) {next shared} (hshared : invariant shared)
    (hown : assertion next shared)
    (hothers : ∀ other ∈ c.phases, assertion other c.shared → compatible phase other →
      compatible other phase → assertion other shared ∧ compatible next other ∧
      compatible other next) :
    Outline invariant assertion compatible (c.update i next shared) := by
  refine ⟨hc.toEnsemble.update hi hown fun j other hj hat => ?_, hshared⟩
  exact hothers other (mem_of_getElem? hat) (hc.asserted j other hat)
    (hc.separated i j phase other hj.symm hi hat) (hc.separated j i other phase hj hat hi)

/-- A new process starts in a phase that is compatible with every other one. -/
theorem spawn (hown : assertion phase c.shared)
    (hothers : ∀ other, compatible phase other ∧ compatible other phase) :
    Outline invariant assertion compatible (c.spawn phase) :=
  ⟨hc.toEnsemble.spawn hown fun _ other _ => hothers other, hc.shared⟩

theorem environment {shared} (hshared : invariant shared)
    (hothers : ∀ other, assertion other c.shared → assertion other shared) :
    Outline invariant assertion compatible { c with shared := shared } :=
  ⟨hc.toEnsemble.environment fun _ other _ => hothers other, hshared⟩

end Outline

/-- Exclusion is between the processes that play one role. -/
structure Cast {Role : Type} (assertion : Nat → Phase → Shared → Prop)
    (role : Phase → Option Role) (c : Config Shared Phase) : Prop extends
    Ensemble assertion (fun phase other => role phase ≠ none → role other ≠ role phase) c

namespace Cast

variable {Role : Type} {assertion : Nat → Phase → Shared → Prop} {role : Phase → Option Role}
  {c : Config Shared Phase} {i : Nat} {phase next : Phase} {shared : Shared}

theorem start (shared : Shared) : Cast assertion role (⟨shared, []⟩ : Config Shared Phase) :=
  ⟨.start shared⟩

variable (hc : Cast assertion role c)
include hc

/-- Another process does not play this one's role. -/
theorem other_role_ne (hi : c.phases[i]? = some phase) (hrole : role phase ≠ none) {j other}
    (hj : j ≠ i) (hother : c.phases[j]? = some other) : role other ≠ role phase :=
  hc.separated i j phase other hj.symm hi hother hrole

/-- A process steps, into a role that is its own or that no other process plays. -/
theorem update (hi : c.phases[i]? = some phase) (hown : assertion i next shared)
    (hothers : ∀ j other, j ≠ i → c.phases[j]? = some other → assertion j other c.shared →
      assertion j other shared)
    (hrole : role next ≠ none → ∀ j other, j ≠ i → c.phases[j]? = some other →
      role other ≠ role next) :
    Cast assertion role (c.update i next shared) := by
  refine ⟨hc.toEnsemble.update hi hown fun j other hj hother => ⟨?_, ?_, ?_⟩⟩
  · exact hothers j other hj hother (hc.asserted j other hother)
  · exact fun hsome => hrole hsome j other hj hother
  · exact fun hsome heq => hrole (heq ▸ hsome) j other hj hother heq.symm

/-- A new process starts, in no role or in one that no process plays. -/
theorem spawn (hrole : role phase ≠ none → ∀ other ∈ c.phases, role other ≠ role phase)
    (hown : assertion c.phases.length phase c.shared) : Cast assertion role (c.spawn phase) := by
  refine ⟨hc.toEnsemble.spawn hown fun j other hother => ⟨fun hsome => ?_, fun hsome heq => ?_⟩⟩
  · exact hrole hsome other (mem_of_getElem? hother)
  · exact hrole (heq ▸ hsome) other (mem_of_getElem? hother) heq.symm

theorem environment (hothers : ∀ j other, c.phases[j]? = some other → assertion j other c.shared →
      assertion j other shared) :
    Cast assertion role { c with shared := shared } :=
  ⟨hc.toEnsemble.environment hothers⟩

end Cast

/-! ## Totals over the processes -/

namespace Config

variable {Shared Phase : Type} {c : Config Shared Phase}

def total (weight : Phase → Nat) (c : Config Shared Phase) : Nat :=
  (c.phases.map weight).sum

variable (weight : Phase → Nat)

theorem total_update {i phase} (hi : c.phases[i]? = some phase) (next : Phase) (shared : Shared) :
    (c.update i next shared).total weight + weight phase = c.total weight + weight next := by
  obtain ⟨state, phases⟩ := c
  simp only [total, update] at hi ⊢
  induction phases generalizing i with
  | nil => cases hi
  | cons first rest ih =>
    cases i with
    | zero =>
      obtain rfl : first = phase := by simpa using hi
      simp only [set_cons_zero, map_cons, sum_cons]
      omega
    | succ i =>
      have hrest := ih (i := i) (by simpa using hi)
      simp only [set_cons_succ, map_cons, sum_cons]
      omega

theorem total_spawn (phase : Phase) :
    (c.spawn phase).total weight = c.total weight + weight phase := by
  simp [total, spawn]

theorem total_eq_zero {weight} (hzero : ∀ phase ∈ c.phases, weight phase = 0) :
    c.total weight = 0 := by
  rw [total, sum_eq_zero]
  simpa using hzero

end Config

end Voce.Interleaving
