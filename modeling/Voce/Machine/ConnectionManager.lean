import Mathlib.Algebra.Group.Nat.Defs
import Voce.Foundation.FiniteMap
import Voce.Foundation.IndexedHeap
import Voce.Foundation.Transition
import Voce.Protocol

/-! # Connections of a machine to its gateway

A machine keeps the data connections that the gateway has opened and assigns each
session to one of them. Every operation is one critical section of the manager's
mutex. A connection closes on its own; the manager notices when it next looks at it
and evicts it together with its routes. Items are reached through pointers, so they
live in a memory indexed by references, as their `index` fields live in the heap.
-/

namespace Voce.Machine

open Protocol Function

abbrev ConnRef := Nat

abbrev ItemRef := Nat

structure HeapConnection (Key : Type) where
  id : Nat
  conn : ConnRef
  load : Int
  sessions : List Key

structure PoolMetrics where
  connectionsActive : Int
  sessionsRouted : Int

structure ConnectionManager (Key : Type) where
  nextID : Nat
  item : ItemRef → HeapConnection Key
  connections : AList fun _ : ConnRef => ItemRef
  routes : AList fun _ : Key => ItemRef
  active : IndexedHeap ItemRef
  /-- State of every connection object, changed by its own callbacks. -/
  connState : ConnRef → ConnectionState
  allocated : Nat
  metrics : PoolMetrics

variable {Key : Type}

def newConnectionManager : ConnectionManager Key where
  nextID := 0
  item := fun _ => ⟨0, 0, 0, []⟩
  connections := ∅
  routes := ∅
  active := .empty
  connState := fun _ => .unknown
  allocated := 0
  metrics := ⟨0, 0⟩

namespace ConnectionManager

variable (m : ConnectionManager Key)

@[simp]
def setItem (r : ItemRef) (item : HeapConnection Key) : ConnectionManager Key :=
  { m with item := update m.item r item }

def less (a b : ItemRef) : Bool :=
  if (m.item a).load ≠ (m.item b).load then (m.item a).load < (m.item b).load
  else (m.item a).id < (m.item b).id

/-- `heap.Fix` at an item's index. -/
def fixLocked (r : ItemRef) : ConnectionManager Key :=
  { m with active := m.active.fix m.less (m.active.index r).toNat }

/-! ## Operations -/

@[simp]
def store (conn : ConnRef) : ConnectionManager Key :=
  if conn ∈ m.connections then m
  else
    let r := m.allocated
    let nextID := (m.nextID + 1) % 2 ^ 64
    let added := { m.setItem r ⟨nextID, conn, 0, []⟩ with
      nextID := nextID
      allocated := m.allocated + 1
      connections := m.connections.insert conn r }
    { added with
      active := added.active.push added.less r
      metrics := { m.metrics with connectionsActive := m.metrics.connectionsActive + 1 } }

def setConnState (conn : ConnRef) (state : ConnectionState) : ConnectionManager Key :=
  { m with connState := update m.connState conn state }

variable [DecidableEq Key]

/-- Unroute those of the keys that are routed to the item. -/
def unrouteLocked (m : ConnectionManager Key) (r : ItemRef) : List Key → ConnectionManager Key
  | [] => m
  | key :: rest =>
    if m.routes.lookup key = some r then
      { m with
        routes := m.routes.erase key
        metrics := { m.metrics with
          sessionsRouted := m.metrics.sessionsRouted - 1 } }.unrouteLocked r rest
    else m.unrouteLocked r rest

variable (m : ConnectionManager Key)

def detachLocked (r : ItemRef) : ConnectionManager Key :=
  { m with
    connections := m.connections.erase (m.item r).conn
    active := if m.active.index r ≥ 0 then m.active.remove m.less (m.active.index r).toNat
      else m.active
    metrics := { m.metrics with connectionsActive := m.metrics.connectionsActive - 1 } }

/-- Evict an item with its routes. Its load is left as it was. -/
def removeConnectionLocked (r : ItemRef) : ConnectionManager Key :=
  if m.connections.lookup (m.item r).conn ≠ some r then m
  else
    let unrouted := (m.detachLocked r).unrouteLocked r (m.item r).sessions
    unrouted.setItem r { unrouted.item r with sessions := [] }

@[simp]
def recordRoute (key : Key) (r : ItemRef) : ConnectionManager Key :=
  { m.setItem r { m.item r with
      sessions := (m.item r).sessions.insert key
      load := (m.item r).load + 1 } with
    routes := m.routes.insert key r
    metrics := { m.metrics with sessionsRouted := m.metrics.sessionsRouted + 1 } }

/-- The loop of `Select`: evict the root while it is not active, then take it. -/
def selectLoop (m : ConnectionManager Key) (key : Key) :
    Nat → ConnectionManager Key × Option ConnRef
  | 0 => (m, none)
  | rounds + 1 =>
    match m.active.slots[0]? with
    | none => (m, none)
    | some r =>
      if m.connState (m.item r).conn ≠ .active then
        (m.removeConnectionLocked r).selectLoop key rounds
      else ((m.recordRoute key r).fixLocked r, some (m.item r).conn)

/-- The connection of a key, assigned now if the key has none that is active. Every
round of the loop but the last takes one item out of the heap. -/
def select (key : Key) : ConnectionManager Key × Option ConnRef :=
  match m.routes.lookup key with
  | some r =>
    if m.connState (m.item r).conn = .active then (m, some (m.item r).conn)
    else
      let evicted := m.removeConnectionLocked r
      evicted.selectLoop key evicted.active.slots.length
  | none => m.selectLoop key m.active.slots.length

/-- The connection of a key if it has one that is active. -/
def lookup (m : ConnectionManager Key) (key : Key) : ConnectionManager Key × Option ConnRef :=
  match m.routes.lookup key with
  | none => (m, none)
  | some r =>
    if m.connState (m.item r).conn = .active then (m, some (m.item r).conn)
    else (m.removeConnectionLocked r, none)

@[simp]
def dropRoute (key : Key) (r : ItemRef) : ConnectionManager Key :=
  { m.setItem r { m.item r with sessions := (m.item r).sessions.erase key } with
    routes := m.routes.erase key }

@[simp]
def decrementLoad (r : ItemRef) : ConnectionManager Key :=
  { m.setItem r { m.item r with load := (m.item r).load - 1 } with
    metrics := { m.metrics with sessionsRouted := m.metrics.sessionsRouted - 1 } }

def releaseLocked (key : Key) (r : ItemRef) : ConnectionManager Key :=
  if m.routes.lookup key ≠ some r then m
  else
    let dropped := m.dropRoute key r
    if (dropped.item r).load > 0 then (dropped.decrementLoad r).fixLocked r else dropped

def release (key : Key) : ConnectionManager Key :=
  match m.routes.lookup key with
  | none => m
  | some r => m.releaseLocked key r

def remove (conn : ConnRef) : ConnectionManager Key :=
  match m.connections.lookup conn with
  | none => m
  | some r => m.removeConnectionLocked r

/-- One critical section, or an asynchronous change of a connection's state. -/
inductive Op (Key : Type) where
  | store (conn : ConnRef)
  | select (key : Key)
  | lookup (key : Key)
  | release (key : Key)
  | remove (conn : ConnRef)
  | setConnState (conn : ConnRef) (state : ConnectionState)

def apply : Op Key → ConnectionManager Key
  | .store conn => m.store conn
  | .select key => (m.select key).1
  | .lookup key => (m.lookup key).1
  | .release key => m.release key
  | .remove conn => m.remove conn
  | .setConnState conn state => m.setConnState conn state

def step (op : Op Key) : Option (ConnectionManager Key) :=
  some (m.apply op)

end ConnectionManager

/-- Where `onSessionDelete` is, by its next operation. A second connection is tried if the write
to the first one fails. -/
inductive NotifyPhase where
  | lookup
  | select
  | write (conn : ConnRef)
  | remove (conn : ConnRef)
  | selectAgain
  | writeAgain (conn : ConnRef)
  | removeAgain (conn : ConnRef)
  | release
  deriving DecidableEq

namespace NotifyPhase

variable [DecidableEq Key] (m : ConnectionManager Key)

/-- An operation other than a write. The last one is followed by none. -/
def next (key : Key) : NotifyPhase → Option (Option NotifyPhase × ConnectionManager Key)
  | .lookup => let result := m.lookup key; some (some (result.2.elim .select .write), result.1)
  | .select => let result := m.select key; some (some (result.2.elim .release .write), result.1)
  | .remove conn => some (some .selectAgain, m.remove conn)
  | .selectAgain =>
    let result := m.select key
    some (some (result.2.elim .release .writeAgain), result.1)
  | .removeAgain conn => some (some .release, m.remove conn)
  | .release => some (none, m.release key)
  | .write _ | .writeAgain _ => none

/-- `Connection.Write` with its outcome. Only a connection that is active takes a packet. -/
def written (conn : ConnRef) (failed : NotifyPhase) (ok : Bool) : Option NotifyPhase :=
  if ok then if m.connState conn = .active then some .release else none else some failed

def afterWrite (ok : Bool) : NotifyPhase → Option NotifyPhase
  | .write conn => written m conn (.remove conn) ok
  | .writeAgain conn => written m conn (.removeAgain conn) ok
  | _ => none

end NotifyPhase

end Voce.Machine
