import Voce.Foundation.Interleaving
import Voce.Gateway.ConnectionPoolBound
import Voce.Gateway.Machine

/-! # Registries of the gateway

A session of the gateway is registered three times: in the session manager, in
the session set of its machine and in the bindings of the machine's pool. The
creation of a session, `SessionManager.Delete` and `cleanupMachines` change them
one after the other, each under a lock of its own, and interleave in between.
-/

namespace Voce.Gateway.Registries

open Interleaving

abbrev MachineRef := Nat

/-- A machine, with the session set and the pool. That `cleanupMachines` has
terminated it is recorded in `terminated`: its control socket can still change
the state. -/
structure MachineEntry (Key : Type) where
  state : MachineState
  sessions : List Key
  pool : ConnectionPool Key
  terminated : Bool

/-- The machines by their ids, and the stored sessions by their keys with the machine
that each refers to. The keys that a creation was given are in `used`. -/
structure Shared (Id Key : Type) where
  items : AList fun _ : Id => MachineRef
  allocated : Nat
  machine : MachineRef → MachineEntry Key
  stored : AList fun _ : Key => MachineRef
  used : List Key

/-- What `cleanupMachines` has left to do after a call of `Delete`: the other sessions
of the machine, the machine, and the other machines that have expired. -/
structure Sweep (Id Key : Type) where
  keys : List Key
  machine : MachineRef
  id : Id
  ids : List Id
  deriving DecidableEq

/-- The next step of a call. `HandleSessionCreate` binds, stores and adds a session;
`Delete` removes it from the session manager, unbinds it and removes it from the
session set, on its own or for `cleanupMachines`. -/
inductive Phase (Id Key : Type) where
  | tryBind (machine : MachineRef) (key : Key)
  | store (machine : MachineRef) (key : Key)
  | addSession (machine : MachineRef) (key : Key)
  | delete (key : Key) (sweep : Option (Sweep Id Key))
  | unbind (machine : MachineRef) (key : Key) (sweep : Option (Sweep Id Key))
  | removeSession (machine : MachineRef) (key : Key) (sweep : Option (Sweep Id Key))
  | collect
  | load (id : Id) (ids : List Id)
  | terminate (machine : MachineRef) (id : Id) (ids : List Id)
  | range (machine : MachineRef) (id : Id) (ids : List Id)
  | shutdown (machine : MachineRef) (id : Id) (ids : List Id)
  | deleteMachine (id : Id) (ids : List Id)
  | done
  deriving DecidableEq

variable {Id Key : Type}

namespace Phase

/-- The loop of `cleanupMachines` over the expired machines. -/
def nextMachine : List Id → Phase Id Key
  | [] => .done
  | id :: ids => .load id ids

/-- The loop of `cleanupMachines` over the sessions of a machine. -/
def nextKey (s : Sweep Id Key) : Phase Id Key :=
  match s.keys with
  | [] => .shutdown s.machine s.id s.ids
  | key :: keys => .delete key (some { s with keys := keys })

/-- What follows a call of `Delete`. -/
def afterDelete : Option (Sweep Id Key) → Phase Id Key
  | none => .done
  | some s => nextKey s

end Phase

namespace Shared

variable (s : Shared Id Key) (m : MachineRef)

def setMachine (entry : MachineEntry Key) : Shared Id Key :=
  { s with machine := Function.update s.machine m entry }

def setPool (pool : ConnectionPool Key) : Shared Id Key :=
  s.setMachine m { s.machine m with pool := pool }

variable [DecidableEq Key]

def addSession (key : Key) : Shared Id Key :=
  s.setMachine m { s.machine m with sessions := (s.machine m).sessions.insert key }

def removeSession (key : Key) : Shared Id Key :=
  s.setMachine m
    { s.machine m with sessions := (s.machine m).sessions.filter fun other => other ≠ key }

def terminate (s : Shared Id Key) (m : MachineRef) : Shared Id Key :=
  s.setMachine m { s.machine m with state := .terminated, terminated := true }

end Shared

variable [DecidableEq Id] [DecidableEq Key]

/-- The steps that depend on the shared state only. -/
def Phase.next (s : Shared Id Key) : Phase Id Key → Option (Phase Id Key × Shared Id Key)
  | .tryBind m key =>
    let result := (s.machine m).pool.tryBind key
    some (if result.2.bound then .store m key else .done, s.setPool m result.1)
  | .store m key => some (.addSession m key, { s with stored := s.stored.insert key m })
  | .addSession m key => some (.done, s.addSession m key)
  | .delete key sweep =>
    match s.stored.lookup key with
    | none => some (.afterDelete sweep, s)
    | some m => some (.unbind m key sweep, { s with stored := s.stored.erase key })
  | .removeSession m key sweep => some (.afterDelete sweep, s.removeSession m key)
  | .load id ids =>
    match s.items.lookup id with
    | none => some (.nextMachine ids, s)
    | some m => some (.terminate m id ids, s)
  | .terminate m id ids => some (.range m id ids, s.terminate m)
  | .shutdown m id ids =>
    some (.deleteMachine id ids, s.setPool m (s.machine m).pool.shutdown.1)
  | .deleteMachine id ids => some (.nextMachine ids, { s with items := s.items.erase id })
  | .unbind _ _ _ | .collect | .range _ _ _ | .done => none

abbrev System (Id Key : Type) := Config (Shared Id Key) (Phase Id Key)

inductive Label (Id Key : Type) where
  | register (id : Id)
  /-- A callback of a machine's control socket changes its state. -/
  | setState (m : MachineRef) (state : MachineState)
  | pool (m : MachineRef) (op : ConnectionPool.Op Key)
  /-- A machine that `LeastSessions` has chosen has given a session its key. -/
  | create (m : MachineRef) (key : Key)
  | delete (key : Key)
  | cleanup
  | advance (i : Nat)
  | unbind (i : Nat) (now : Int) (order : List Key)
  /-- `cleanupMachines` finds these machines expired. -/
  | expire (i : Nat) (ids : List Id)
  /-- `RangeSessions` of `cleanupMachines`, in some order. -/
  | range (i : Nat) (order : List Key)

def step (c : System Id Key) : Label Id Key → Option (System Id Key)
  | .register id =>
    if id ∈ c.shared.items then none
    else some { c with shared := { c.shared with
      items := c.shared.items.insert id c.shared.allocated
      allocated := c.shared.allocated + 1 } }
  | .setState m state =>
    some { c with shared := c.shared.setMachine m { c.shared.machine m with state := state } }
  | .pool m op =>
    if op.Background ∧ op.Enumerates (c.shared.machine m).pool then
      some { c with shared := c.shared.setPool m ((c.shared.machine m).pool.apply op) }
    else none
  | .create m key =>
    if m ∈ c.shared.items.entries.map Sigma.snd ∧ (c.shared.machine m).state = .active then
      some (Config.spawn { c with shared := { c.shared with used := key :: c.shared.used } }
        (.tryBind m key))
    else none
  | .delete key => some (c.spawn (.delete key none))
  | .cleanup => some (c.spawn .collect)
  | .advance i => c.advance (Phase.next c.shared) i
  | .unbind i now order =>
    match c.phases[i]? with
    | some (.unbind m key sweep) =>
      if order.Perm ((c.shared.machine m).pool.bindings.erase key).keys then
        some (c.update i (.removeSession m key sweep)
          (c.shared.setPool m ((c.shared.machine m).pool.unbind key now order)))
      else none
    | _ => none
  | .expire i ids =>
    match c.phases[i]? with
    | some .collect =>
      if ids.Nodup ∧ ∀ id ∈ ids, id ∈ c.shared.items then
        some (c.update i (.nextMachine ids) c.shared)
      else none
    | _ => none
  | .range i order =>
    match c.phases[i]? with
    | some (.range m id ids) =>
      if order.Perm (c.shared.machine m).sessions then
        some (c.update i (.nextKey ⟨order, m, id, ids⟩) c.shared)
      else none
    | _ => none

/-- No machine is registered. Every `Machine` object starts with a pool of its own. -/
def initial (config : ConnectionPoolConfig) : System Id Key where
  shared :=
    { items := ∅
      allocated := 0
      machine := fun _ => ⟨.suspended, [], (PoolSystem.initial config).pool, false⟩
      stored := ∅
      used := [] }
  phases := []

/-! ## Agreement -/

/-- The three registries have the same keys for every machine, and no stored session
refers to a terminated machine. -/
structure Agrees (s : Shared Id Key) : Prop where
  sessions : ∀ key m, s.stored.lookup key = some m ↔ key ∈ (s.machine m).sessions
  bound : ∀ key m, s.stored.lookup key = some m ↔ key ∈ (s.machine m).pool.bindings
  live : ∀ key m, s.stored.lookup key = some m → (s.machine m).terminated = false

def Quiescent (c : System Id Key) : Prop := ∀ phase ∈ c.phases, phase = .done

instance (c : System Id Key) : Decidable (Quiescent c) :=
  inferInstanceAs (Decidable (∀ phase ∈ c.phases, phase = .done))

end Voce.Gateway.Registries
