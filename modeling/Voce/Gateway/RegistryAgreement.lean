import Voce.Gateway.RegistryInvariant

/-! # Agreement of the registries

If no key is given twice, a creation is over before its session is deleted and
before the sessions of its machine are collected, then each key is, whenever no
call holds it, in all three registries of one machine or in none. Each of these
orders can be violated, and the registries then stay apart.
-/

namespace Voce.Gateway.Registries

open Interleaving Transition Option List ConnectionPool

variable {Id Key : Type} [DecidableEq Id] [DecidableEq Key]

/-- A creation gets a new key from a machine that is not terminated; `Delete` removes a
session, and `cleanupMachines` collects the sessions of a machine, only while no
creation is about to add the session, or is in progress on the machine. -/
def Orderly (c : System Id Key) : Label Id Key → Prop
  | .create m key => key ∉ c.shared.used ∧ (c.shared.machine m).terminated = false
  | .advance i =>
    match c.phases[i]? with
    | some (.delete key _) => ∀ phase ∈ c.phases, phase.adds ≠ some key
    | _ => True
  | .range i _ =>
    match c.phases[i]? with
    | some (.range m _ _) => ∀ phase ∈ c.phases, phase.creates ≠ some m
    | _ => True
  | _ => True

instance (c : System Id Key) (label : Label Id Key) : Decidable (Orderly c label) := by
  unfold Orderly
  split
  · infer_instance
  · split <;> infer_instance
  · split <;> infer_instance
  · infer_instance

namespace Tracked

variable {c d : System Id Key} {i : Nat}

theorem advance (hc : Tracked c) (hok : Orderly c (.advance i))
    (hstep : c.advance (Phase.next c.shared) i = some d) : Tracked d := by
  obtain ⟨phase, next, t, hi, hnext, rfl⟩ := Config.advance_eq_some hstep
  simp only [Orderly, hi] at hok
  cases phase with
  | tryBind m key =>
    cases hnext
    exact hc.tryBind hi
  | store m key =>
    cases hnext
    exact hc.store hi
  | addSession m key =>
    cases hnext
    exact hc.addSession hi
  | delete key sweep =>
    simp only [Phase.next] at hnext
    split at hnext
    next hnone =>
      cases hnext
      exact hc.deleteMissing hi hnone
    next m hstored =>
      cases hnext
      exact hc.deleteStored hi hstored fun hmem => hok _ hmem rfl
  | removeSession m key sweep =>
    cases hnext
    exact hc.removeSession hi
  | load id ids =>
    simp only [Phase.next] at hnext
    split at hnext
    · cases hnext
      obtain ⟨hrole, hcreates, hranges, hsweeping⟩ := Phase.nextMachine_plain Key ids
      exact hc.pass hi rfl rfl rfl hrole hcreates hranges hsweeping rfl rfl rfl
    · cases hnext
      exact hc.pass hi rfl rfl rfl rfl rfl rfl rfl rfl rfl rfl
  | terminate m id ids =>
    cases hnext
    exact hc.terminate hi
  | shutdown m id ids =>
    cases hnext
    exact hc.shutdown hi
  | deleteMachine id ids =>
    cases hnext
    obtain ⟨hrole, hcreates, hranges, hsweeping⟩ := Phase.nextMachine_plain Key ids
    exact hc.pass hi rfl rfl rfl hrole hcreates hranges hsweeping rfl rfl rfl
  | _ => cases hnext

omit [DecidableEq Id] in
theorem setState (hc : Tracked c) (m : MachineRef) (state : MachineState) :
    Tracked { c with shared :=
      c.shared.setMachine m { c.shared.machine m with state := state } } := by
  have hmachine : ∀ m', ((c.shared.setMachine m { c.shared.machine m with state := state }).machine
        m').sessions = (c.shared.machine m').sessions ∧
      ((c.shared.setMachine m { c.shared.machine m with state := state }).machine m').pool =
        (c.shared.machine m').pool ∧
      ((c.shared.setMachine m { c.shared.machine m with state := state }).machine m').terminated =
        (c.shared.machine m').terminated := by
    intro m'
    rw [setMachine_machine]
    split
    next h =>
      rw [h]
      exact ⟨rfl, rfl, rfl⟩
    · exact ⟨rfl, rfl, rfl⟩
  refine hc.environment (fun key => ⟨rfl, fun m' => ?_, fun m' => ?_⟩) (fun m' => ?_)
    (fun m' => (hmachine m').2.2) rfl fun _ => id
  · rw [(hmachine m').1]
  · rw [(hmachine m').2.1]
  · rw [(hmachine m').2.1]
    exact hc.pools m'

omit [DecidableEq Id] in
/-- A machine gives a session a key that was not used before. -/
theorem create (hc : Tracked c) {m key} (hfresh : key ∉ c.shared.used)
    (hlive : (c.shared.machine m).terminated = false) :
    Tracked (Config.spawn { c with shared := { c.shared with used := key :: c.shared.used } }
      (.tryBind m key)) := by
  obtain ⟨hat, hfree⟩ := hc.fresh key hfresh
  have hsame : ∀ other, Same c.shared { c.shared with used := key :: c.shared.used } other :=
    fun _ => ⟨rfl, fun _ => .rfl, fun _ => .rfl⟩
  refine spawn (hc.environment hsame hc.pools (fun _ => rfl) rfl fun _ => mem_cons_of_mem key)
    (asserts_of_placed (hat.same (hsame key)) rfl rfl) (fun _ => hfree) ?_ rfl ?_
  · rintro other ⟨⟩
    exact mem_cons_self
  · rintro m' ⟨⟩
    exact hlive

theorem step {label} (hc : Tracked c) (hok : Orderly c label)
    (hstep : Registries.step c label = some d) : Tracked d := by
  cases label with
  | register id =>
    simp only [Registries.step] at hstep
    split at hstep
    · cases hstep
    · cases hstep
      exact hc.environment (fun _ => ⟨rfl, fun _ => .rfl, fun _ => .rfl⟩) hc.pools
        (fun _ => rfl) rfl fun _ h => h
  | setState m state =>
    cases hstep
    exact hc.setState m state
  | pool m op =>
    obtain ⟨h, hstep⟩ := ite_none_right_eq_some.mp hstep
    cases hstep
    have hmem := apply_mem_bindings (hc.pools m) h.1 h.2
    exact hc.environment (fun key => .setPool (hmem key))
      (setPool_invariant hc.pools (apply_invariant (hc.pools m) op))
      (setPool_terminated _ _ _) rfl fun _ h => h
  | create m key =>
    obtain ⟨-, hstep⟩ := ite_none_right_eq_some.mp hstep
    cases hstep
    exact hc.create hok.1 hok.2
  | delete key | cleanup =>
    cases hstep
    exact hc.spawnFree trivial rfl rfl rfl rfl
  | advance i => exact hc.advance hok hstep
  | unbind i now order =>
    simp only [Registries.step] at hstep
    split at hstep
    next hi =>
      split at hstep
      next horder =>
        cases hstep
        exact hc.unbind hi now horder
      · cases hstep
    · cases hstep
  | expire i ids =>
    simp only [Registries.step] at hstep
    split at hstep
    next hi =>
      split at hstep
      · cases hstep
        obtain ⟨hrole, hcreates, hranges, hsweeping⟩ := Phase.nextMachine_plain Key ids
        exact hc.pass hi rfl rfl rfl hrole hcreates hranges hsweeping rfl rfl rfl
      · cases hstep
    · cases hstep
  | range i order =>
    simp only [Registries.step] at hstep
    split at hstep
    next m id ids hi =>
      split at hstep
      next horder =>
        cases hstep
        simp only [Orderly, hi] at hok
        exact hc.range hi horder hok
      · cases hstep
    · cases hstep

omit [DecidableEq Id] in
theorem start (config : ConnectionPoolConfig) : Tracked (initial config : System Id Key) := by
  have hnowhere : ∀ key, At (initial config : System Id Key).shared key none none none := by
    intro key
    refine ⟨rfl, fun m => iff_of_false not_mem_nil nofun, fun m => iff_of_false ?_ nofun⟩
    exact AList.notMem_empty key
  exact ⟨.start _, fun key _ => .inl (hnowhere key), fun key _ => ⟨hnowhere key, nofun⟩,
    fun _ => PoolSystem.initial_pool_invariant config, nofun, nofun⟩

omit [DecidableEq Id] in
/-- Without a call in progress every key is settled, and no sweep is left to do. -/
theorem agrees (hc : Tracked c) (hquiet : Quiescent c) : Agrees c.shared := by
  have hfree : ∀ key, ∀ phase ∈ c.phases, phase.role ≠ some key := by
    intro key phase hmem
    rw [hquiet phase hmem]
    exact nofun
  have hagree : ∀ key m, (c.shared.stored.lookup key = some m ↔
      key ∈ (c.shared.machine m).sessions) ∧ (c.shared.stored.lookup key = some m ↔
      key ∈ (c.shared.machine m).pool.bindings) := by
    intro key m
    rcases hc.settled key (hfree key) with hat | ⟨m', hat⟩
    · rw [hat.stored, hat.member, hat.bound]
      exact ⟨.rfl, .rfl⟩
    · rw [hat.stored, hat.member, hat.bound]
      exact ⟨.rfl, .rfl⟩
  refine ⟨fun key m => (hagree key m).1, fun key m => (hagree key m).2, fun key m hkey => ?_⟩
  rw [← Bool.not_eq_true]
  intro hterminated
  rcases hc.ending m hterminated with ⟨phase, hmem, h⟩ | ⟨-, hnone | ⟨phase, hmem, keys, h⟩⟩
  · rw [hquiet phase hmem] at h
    cases h
  · exact hnone key hkey
  · rw [hquiet phase hmem] at h
    cases h

end Tracked

/-- In an orderly run the registries agree whenever no call is in progress. -/
theorem run_registries_agree (config : ConnectionPoolConfig) {c : System Id Key}
    {labels : List (Label Id Key)}
    (hmeets : Meets step Orderly (initial config) labels)
    (hrun : run step (initial config) labels = some c) (hquiet : Quiescent c) :
    Agrees c.shared := by
  have hc : Tracked c := run_invariant_of_meets Tracked Tracked.step (.start config) hmeets hrun
  exact hc.agrees hquiet

def connected : List (Label Nat Nat) :=
  [Label.register 5, .setState 0 .active, .pool 0 (.startDial .connecting []),
    .pool 0 (.setConnState 0 .active), .pool 0 (.onConnectionOpen 0 [])]

/-- A session is created and its machine expires afterwards. -/
def expired : List (Label Nat Nat) :=
  connected ++ Label.create 0 7 :: replicate 3 (Label.advance 0) ++
    [Label.cleanup, .expire 1 [5], .advance 1, .advance 1, .range 1 [7], .advance 1,
      .unbind 1 0 [], .advance 1, .advance 1, .advance 1]

theorem run_registries_agree_expired : ∃ c : System Nat Nat,
    run step (initial ⟨1, 2, 2, 0, 10, 1⟩) expired = some c ∧ Quiescent c ∧
      (c.shared.machine 0).terminated = true ∧ Agrees c.shared := by
  obtain ⟨c, hrun, hquiet, hterminated⟩ := exists_of_decide
    (run step (initial ⟨1, 2, 2, 0, 10, 1⟩) expired)
    (fun c => Quiescent c ∧ (c.shared.machine 0).terminated = true) (by decide +kernel)
  exact ⟨c, hrun, hquiet, hterminated, run_registries_agree _ (by decide +kernel) hrun hquiet⟩

/-- A session is deleted between `Store` and `AddSession`. -/
def overtaken : List (Label Nat Nat) :=
  connected ++ [Label.create 0 7, .advance 0, .advance 0, .delete 7, .advance 1, .unbind 1 0 [],
    .advance 1, .advance 0]

/-- Its machine is cleaned up between `Store` and `AddSession`. -/
def stranded : List (Label Nat Nat) :=
  connected ++ [Label.create 0 7, .advance 0, .advance 0, .cleanup, .expire 1 [5], .advance 1,
    .advance 1, .range 1 [], .advance 1, .advance 1, .advance 0]

/-- The machine keeps the key of a session that is not stored, and a stored session
refers to a terminated machine. -/
theorem overtaken_not_agrees :
    (∃ c : System Nat Nat, run step (initial ⟨1, 2, 2, 0, 10, 1⟩) overtaken = some c ∧
      Quiescent c ∧ 7 ∈ (c.shared.machine 0).sessions ∧ c.shared.stored.lookup 7 = none ∧
      ¬ Agrees c.shared) ∧
    ∃ c : System Nat Nat, run step (initial ⟨1, 2, 2, 0, 10, 1⟩) stranded = some c ∧
      Quiescent c ∧ c.shared.stored.lookup 7 = some 0 ∧ (c.shared.machine 0).terminated = true ∧
      ¬ Agrees c.shared := by
  constructor
  · obtain ⟨c, hrun, hquiet, hmember, hnone⟩ := exists_of_decide
      (run step (initial ⟨1, 2, 2, 0, 10, 1⟩) overtaken)
      (fun c => Quiescent c ∧ 7 ∈ (c.shared.machine 0).sessions ∧
        c.shared.stored.lookup 7 = none) (by decide +kernel)
    refine ⟨c, hrun, hquiet, hmember, hnone, fun hagrees => ?_⟩
    exact nomatch hnone.symm.trans ((hagrees.sessions 7 0).mpr hmember)
  · obtain ⟨c, hrun, hquiet, hstored, hterminated⟩ := exists_of_decide
      (run step (initial ⟨1, 2, 2, 0, 10, 1⟩) stranded)
      (fun c => Quiescent c ∧ c.shared.stored.lookup 7 = some 0 ∧
        (c.shared.machine 0).terminated = true) (by decide +kernel)
    refine ⟨c, hrun, hquiet, hstored, hterminated, fun hagrees => ?_⟩
    exact Bool.false_ne_true ((hagrees.live 7 0 hstored).symm.trans hterminated)

end Voce.Gateway.Registries
