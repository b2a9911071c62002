import Voce.Gateway.Registries

/-! # Where a key is registered

A step of a call changes one registry at one key, or one pool. What that leaves
of the places where a key is registered is said here once for each step.
-/

namespace Voce.Gateway.Registries

open AList

variable {Id Key : Type}

namespace Phase

/-- The key that a call is about to register or to unregister. -/
def role : Phase Id Key → Option Key
  | .tryBind _ key | .store _ key | .addSession _ key | .unbind _ key _
  | .removeSession _ key _ => some key
  | _ => none

end Phase

/-- The key is stored for, in the session set of and bound in the pool of these
machines and no others. -/
structure At (s : Shared Id Key) [DecidableEq Key] (key : Key)
    (stored member bound : Option MachineRef) : Prop where
  stored : s.stored.lookup key = stored
  member : ∀ m, key ∈ (s.machine m).sessions ↔ member = some m
  bound : ∀ m, key ∈ (s.machine m).pool.bindings ↔ bound = some m

variable (s : Shared Id Key) (m : MachineRef)

theorem setMachine_machine (entry : MachineEntry Key) (m' : MachineRef) :
    (s.setMachine m entry).machine m' = if m' = m then entry else s.machine m' :=
  Function.update_apply s.machine m entry m'

variable (pool : ConnectionPool Key)

theorem setPool_sessions (m' : MachineRef) :
    ((s.setPool m pool).machine m').sessions = (s.machine m').sessions := by
  rw [Shared.setPool, setMachine_machine]
  split
  next h => rw [h]
  · rfl

theorem setPool_terminated (m' : MachineRef) :
    ((s.setPool m pool).machine m').terminated = (s.machine m').terminated := by
  rw [Shared.setPool, setMachine_machine]
  split
  next h => rw [h]
  · rfl

theorem setPool_pool (m' : MachineRef) :
    ((s.setPool m pool).machine m').pool = if m' = m then pool else (s.machine m').pool := by
  rw [Shared.setPool, setMachine_machine]
  split
  · rfl
  · rfl

/-- A machine's session set changes. -/
theorem setSessions_member (sessions : List Key) (m' : MachineRef) :
    ((s.setMachine m { s.machine m with sessions := sessions }).machine m').sessions =
        (if m' = m then sessions else (s.machine m').sessions) ∧
      ((s.setMachine m { s.machine m with sessions := sessions }).machine m').pool =
        (s.machine m').pool ∧
      ((s.setMachine m { s.machine m with sessions := sessions }).machine m').terminated =
        (s.machine m').terminated := by
  rw [setMachine_machine]
  split
  next h =>
    rw [h]
    exact ⟨rfl, rfl, rfl⟩
  · exact ⟨rfl, rfl, rfl⟩

variable [DecidableEq Key]

/-- The key is registered as before. -/
structure Same (s t : Shared Id Key) (key : Key) : Prop where
  stored : t.stored.lookup key = s.stored.lookup key
  member : ∀ m, key ∈ (t.machine m).sessions ↔ key ∈ (s.machine m).sessions
  bound : ∀ m, key ∈ (t.machine m).pool.bindings ↔ key ∈ (s.machine m).pool.bindings

/-- Registered on one machine, or nowhere. -/
def Settled (s : Shared Id Key) (key : Key) : Prop :=
  At s key none none none ∨ ∃ m, At s key (some m) (some m) (some m)

/-- Where the key of a call is registered at each of its steps. -/
def Placed (phase : Phase Id Key) (s : Shared Id Key) : Prop :=
  match phase with
  | .tryBind _ key => At s key none none none
  | .store m key => At s key none none (some m)
  | .addSession m key => At s key (some m) none (some m)
  -- the pool may have been shut down
  | .unbind m key _ => At s key none (some m) (some m) ∨ At s key none (some m) none
  | .removeSession m key _ => At s key none (some m) none
  | _ => True

variable {s} {t : Shared Id Key} {m}

theorem At.same {key : Key} {stored member bound : Option MachineRef}
    (hat : At s key stored member bound) (hsame : Same s t key) :
    At t key stored member bound where
  stored := hsame.stored.trans hat.stored
  member m := (hsame.member m).trans (hat.member m)
  bound m := (hsame.bound m).trans (hat.bound m)

theorem Settled.same {key : Key} (hsettled : Settled s key)
    (hsame : Same s t key) : Settled t key :=
  hsettled.imp (fun hat => hat.same hsame) fun ⟨m, hat⟩ => ⟨m, hat.same hsame⟩

theorem Placed.same {phase : Phase Id Key} (hplaced : Placed phase s)
    (hsame : ∀ key, phase.role = some key → Same s t key) : Placed phase t := by
  cases phase with
  | tryBind m key | store m key | addSession m key | removeSession m key =>
    exact At.same hplaced (hsame key rfl)
  | unbind m key sweep =>
    exact hplaced.imp (fun hat => hat.same (hsame key rfl)) fun hat => hat.same (hsame key rfl)
  | _ => trivial

theorem Placed.of_role_none {phase} (hrole : phase.role = none) (s : Shared Id Key) :
    Placed phase s := by
  cases phase with
  | tryBind | store | addSession | removeSession | unbind => cases hrole
  | _ => trivial

/-! ## What the steps do to a key -/

section Keys

variable {key other : Key}
  {stored member bound : Option MachineRef} {pool : ConnectionPool Key}

theorem setPool_invariant (hpools : ∀ m, (s.machine m).pool.Invariant) (hpool : pool.Invariant)
    (m' : MachineRef) : ((s.setPool m pool).machine m').pool.Invariant := by
  rw [setPool_pool]
  split
  · exact hpool
  · exact hpools m'

theorem Same.refl (s : Shared Id Key) (key : Key) : Same s s key :=
  ⟨rfl, fun _ => .rfl, fun _ => .rfl⟩

/-- A pool changes that has the key bound as before. -/
theorem Same.setPool (hbound : key ∈ pool.bindings ↔ key ∈ (s.machine m).pool.bindings) :
    Same s (s.setPool m pool) key := by
  refine ⟨rfl, fun m' => by rw [setPool_sessions], fun m' => ?_⟩
  rw [setPool_pool]
  split
  next h =>
    rw [h]
    exact hbound
  · rfl

theorem At.bind (hat : At s key stored member none) (hbound : key ∈ pool.bindings) :
    At (s.setPool m pool) key stored member (some m) := by
  refine ⟨hat.stored, fun m' => by rw [setPool_sessions]; exact hat.member m', fun m' => ?_⟩
  rw [setPool_pool]
  split
  next h => exact iff_of_true hbound (by rw [h])
  next h => exact iff_of_false (fun hk => nomatch (hat.bound m').mp hk) (by simpa using Ne.symm h)

theorem At.unbind (hat : At s key stored member (some m)) (hunbound : key ∉ pool.bindings) :
    At (s.setPool m pool) key stored member none := by
  refine ⟨hat.stored, fun m' => by rw [setPool_sessions]; exact hat.member m', fun m' => ?_⟩
  rw [setPool_pool]
  split
  · exact iff_of_false hunbound nofun
  next h =>
    refine iff_of_false (fun hk => h ?_) nofun
    exact (Option.some.inj ((hat.bound m').mp hk)).symm

theorem Same.setSessions {sessions} (hmember : key ∈ sessions ↔ key ∈ (s.machine m).sessions) :
    Same s (s.setMachine m { s.machine m with sessions := sessions }) key := by
  refine ⟨rfl, fun m' => ?_, fun m' => by rw [(setSessions_member s m sessions m').2.1]⟩
  rw [(setSessions_member s m sessions m').1]
  split
  next h =>
    rw [h]
    exact hmember
  · rfl

theorem At.addSession (hat : At s key stored none bound) :
    At (s.addSession m key) key stored (some m) bound := by
  refine ⟨hat.stored, fun m' => ?_, fun m' => ?_⟩
  · rw [Shared.addSession, (setSessions_member s m _ m').1]
    split
    next h => exact iff_of_true (List.mem_insert_self) (by rw [h])
    next h =>
      refine iff_of_false (fun hk => ?_) (by simpa using Ne.symm h)
      cases (hat.member m').mp hk
  · rw [Shared.addSession, (setSessions_member s m _ m').2.1]
    exact hat.bound m'

theorem At.removeSession (hat : At s key stored (some m) bound) :
    At (s.removeSession m key) key stored none bound := by
  refine ⟨hat.stored, fun m' => ?_, fun m' => ?_⟩
  · rw [Shared.removeSession, (setSessions_member s m _ m').1]
    split
    · simp
    next h =>
      refine iff_of_false (fun hk => h ?_) nofun
      exact (Option.some.inj ((hat.member m').mp hk)).symm
  · rw [Shared.removeSession, (setSessions_member s m _ m').2.1]
    exact hat.bound m'

end Keys

end Voce.Gateway.Registries
