import Mathlib.Algebra.Group.Nat.Defs
import Mathlib.Data.List.Perm.Basic
import Voce.Foundation.FiniteMap
import Voce.Foundation.IndexedHeapOrder
import Voce.Foundation.Transition
import Voce.Protocol

/-! # Gateway connection pool

One machine's pool of data-plane connections with its session bindings. Every
operation is one critical section of the pool's mutex. A `pooledConnection` is
reached through pointers, so items live in a memory indexed by references and
`connections`, `routes` and `queue` hold references; the `index` field of an
item is kept by the queue. A binding cell is reached only through its key, so
the `bindings` map holds the cell's content.

A connection's state changes asynchronously between critical sections. The
iteration order of a Go map is an argument of the operations that range over
one. Times are nanoseconds, and an unset time is `none`. The metric counters
are those this pool contributes.
-/

namespace Voce.Gateway

open Protocol Function

/-! ## Configuration -/

structure ConnectionPoolConfig where
  minConnections : Int
  targetSessionsPerConnection : Int
  maxSessionsPerConnection : Int
  maxConnections : Int
  idleTimeout : Int
  cleanupInterval : Int

def defaultMinConnections : Int := 1
def defaultTargetSessionsPerConnection : Int := 16
def defaultMaxSessionsPerConnection : Int := 64
def defaultIdleTimeout : Int := 30 * 1000000000
def defaultCleanupInterval : Int := 5 * 1000000000

/-- Fill unset or non-positive settings; the target never exceeds the maximum. -/
def defaultConnectionPoolConfig (cfg : ConnectionPoolConfig) : ConnectionPoolConfig :=
  let maxSessions := if cfg.maxSessionsPerConnection ≤ 0 then defaultMaxSessionsPerConnection
    else cfg.maxSessionsPerConnection
  let target := if cfg.targetSessionsPerConnection ≤ 0 then defaultTargetSessionsPerConnection
    else cfg.targetSessionsPerConnection
  { minConnections :=
      if cfg.minConnections ≤ 0 then defaultMinConnections else cfg.minConnections
    maxSessionsPerConnection := maxSessions
    targetSessionsPerConnection := if target > maxSessions then maxSessions else target
    maxConnections := cfg.maxConnections
    idleTimeout := if cfg.idleTimeout ≤ 0 then defaultIdleTimeout else cfg.idleTimeout
    cleanupInterval :=
      if cfg.cleanupInterval ≤ 0 then defaultCleanupInterval else cfg.cleanupInterval }

theorem defaultConnectionPoolConfig_maxSessions_pos (cfg : ConnectionPoolConfig) :
    0 < (defaultConnectionPoolConfig cfg).maxSessionsPerConnection := by
  simp only [defaultConnectionPoolConfig]
  split
  · decide
  · omega

/-! ## State -/

abbrev ConnRef := Nat

abbrev ItemRef := Nat

/-- Allocation class of an item; smaller ranks are preferred. -/
inductive ConnectionPriority where
  | active
  | connecting
  | unavailable
  deriving DecidableEq

def ConnectionPriority.rank : ConnectionPriority → Nat
  | .active => 0
  | .connecting => 1
  | .unavailable => 2

theorem ConnectionPriority.rank_injective : Injective ConnectionPriority.rank := by
  intro left right heq
  cases left <;> cases right <;> first | rfl | cases heq

structure PooledConnection (Key : Type) where
  id : Nat
  conn : ConnRef
  state : ConnectionState
  load : Int
  priority : ConnectionPriority
  idleSince : Option Int
  sessions : List Key

structure PoolMetrics where
  connectionsActive : Int
  connectionsConnecting : Int
  pendingDials : Int
  sessionsRouted : Int
  reconnects : Int

structure ConnectionPool (Key : Type) where
  minConns : Int
  targetSessions : Int
  maxSessions : Int
  maxConns : Int
  idleTimeout : Int
  cleanup : Int
  nextID : Nat
  item : ItemRef → PooledConnection Key
  connections : AList fun _ : ConnRef => ItemRef
  routes : AList fun _ : Key => ItemRef
  bindings : AList fun _ : Key => Option ConnRef
  queue : IndexedHeap ItemRef
  closed : Bool
  pendingDials : Int
  /-- State of every connection object, changed by its own callbacks. -/
  connState : ConnRef → ConnectionState
  allocated : Nat
  metrics : PoolMetrics

variable {Key : Type}

def newConnectionPool (config : ConnectionPoolConfig) : ConnectionPool Key :=
  let cfg := defaultConnectionPoolConfig config
  { minConns := cfg.minConnections
    targetSessions := cfg.targetSessionsPerConnection
    maxSessions := cfg.maxSessionsPerConnection
    maxConns := cfg.maxConnections
    idleTimeout := cfg.idleTimeout
    cleanup := cfg.cleanupInterval
    nextID := 0
    item := fun _ => ⟨0, 0, .unknown, 0, .active, none, []⟩
    connections := ∅
    routes := ∅
    bindings := ∅
    queue := .empty
    closed := false
    pendingDials := 0
    connState := fun _ => .unknown
    allocated := 0
    metrics := ⟨0, 0, 0, 0, 0⟩ }

namespace ConnectionPool

variable (p : ConnectionPool Key)

@[simp]
def setItem (r : ItemRef) (item : PooledConnection Key) : ConnectionPool Key :=
  { p with item := update p.item r item }

def less (a b : ItemRef) : Bool :=
  if (p.item a).priority ≠ (p.item b).priority then
    (p.item a).priority.rank < (p.item b).priority.rank
  else if (p.item a).load ≠ (p.item b).load then
    (p.item a).load < (p.item b).load
  else (p.item a).id < (p.item b).id

/-! ## Helpers that run under the lock -/

def selectLocked : Option ItemRef :=
  match p.queue.slots[0]? with
  | none => none
  | some r => if (p.item r).priority = .unavailable then none else some r

def priorityLocked (r : ItemRef) : ConnectionPriority :=
  if (p.item r).load ≥ p.maxSessions then .unavailable
  else
    match p.connState (p.item r).conn with
    | .active => .active
    | .connecting => .connecting
    | _ => .unavailable

@[simp]
def refreshLocked (r : ItemRef) : ConnectionPool Key :=
  let p := p.setItem r { p.item r with priority := p.priorityLocked r }
  { p with queue := p.queue.fix p.less (p.queue.index r).toNat }

/-- Count one more dial goroutine. -/
def reserved : ConnectionPool Key :=
  { p with
    pendingDials := p.pendingDials + 1
    metrics := { p.metrics with pendingDials := p.metrics.pendingDials + 1 } }

/-- Reserve a dial unless one is pending, the pool is closed or the connection
limit is reached. -/
def reserveDialLocked : ConnectionPool Key × Bool :=
  if p.pendingDials > 0 ∨ p.closed ∨
      (p.maxConns > 0 ∧ (p.connections.keys.length : Int) + p.pendingDials ≥ p.maxConns) then
    (p, false)
  else (p.reserved, true)

/-- Reserve a dial when even the preferred connection is at its target load. -/
def reserveScaleLocked : ConnectionPool Key × Bool :=
  if p.pendingDials > 0 then (p, false)
  else
    match p.selectLocked with
    | none => (p, false)
    | some r =>
      if (p.item r).priority ≠ .active ∨ (p.item r).load < p.targetSessions then (p, false)
      else p.reserveDialLocked

variable [DecidableEq Key] (p : ConnectionPool Key) (key : Key)

/-- Route a key to an item and store the item's connection in the key's binding
cell. -/
@[simp]
def recordRoute (r : ItemRef) : ConnectionPool Key :=
  { p.setItem r { p.item r with
      sessions := (p.item r).sessions.insert key
      load := (p.item r).load + 1
      idleSince := none } with
    routes := p.routes.insert key r
    bindings := p.bindings.insert key (some (p.item r).conn)
    metrics := { p.metrics with sessionsRouted := p.metrics.sessionsRouted + 1 } }

def attachLocked (r : ItemRef) : ConnectionPool Key :=
  (p.recordRoute key r).refreshLocked r

/-- Attach waiting keys in the given order until no connection is selectable. -/
def assignPendingLocked (p : ConnectionPool Key) : List Key → ConnectionPool Key
  | [] => p
  | key :: rest =>
    if (p.routes.lookup key).isSome then p.assignPendingLocked rest
    else
      match p.selectLocked with
      -- the loop over the map ends here
      | none => p
      | some r => (p.attachLocked key r).assignPendingLocked rest

variable (r : ItemRef)

@[simp]
def recordConnectionRemovalLocked : ConnectionPool Key :=
  let metrics := match (p.item r).state with
    | .active => { p.metrics with connectionsActive := p.metrics.connectionsActive - 1 }
    | .connecting =>
      { p.metrics with connectionsConnecting := p.metrics.connectionsConnecting - 1 }
    | _ => p.metrics
  { p.setItem r { p.item r with state := .closed } with metrics := metrics }

/-- Unroute those of the keys that are routed to the item and clear their
binding cells. -/
def unrouteLocked (p : ConnectionPool Key) (r : ItemRef) : List Key → ConnectionPool Key
  | [] => p
  | key :: rest =>
    if p.routes.lookup key = some r then
      { p with
        routes := p.routes.erase key
        bindings := if key ∈ p.bindings then p.bindings.insert key none else p.bindings
        metrics := { p.metrics with
          sessionsRouted := p.metrics.sessionsRouted - 1 } }.unrouteLocked r rest
    else p.unrouteLocked r rest

/-- Take an item out of `connections` and out of the queue. -/
def detachLocked : ConnectionPool Key :=
  { p with
    connections := p.connections.erase (p.item r).conn
    queue := if p.queue.index r ≥ 0 then p.queue.remove p.less (p.queue.index r).toNat
      else p.queue }

def removeLocked : ConnectionPool Key :=
  if p.connections.lookup (p.item r).conn ≠ some r then p
  else
    let unrouted := ((p.detachLocked r).recordConnectionRemovalLocked r).unrouteLocked r
      (p.item r).sessions
    unrouted.setItem r { unrouted.item r with sessions := [] }

/-! ## Operations -/

/-- Bind a key, waiting for a connection if none is selectable. The flag says
whether a dial goroutine is started. -/
def bind : ConnectionPool Key × Bool :=
  if key ∈ p.bindings then (p, false)
  else
    let p := { p with bindings := p.bindings.insert key none }
    match p.selectLocked with
    | some r =>
      let p := p.attachLocked key r
      if (p.item r).priority = .active then p.reserveScaleLocked else (p, false)
    | none => p.reserveDialLocked

/-- Outcome of `tryBind`: whether the key has an active connection now, and
whether a dial goroutine is started. -/
structure TryBindResult where
  bound : Bool
  startDial : Bool

/-- Bind a key to an active connection at once, or not at all. -/
def tryBind : ConnectionPool Key × TryBindResult :=
  match p.bindings.lookup key with
  | some binding =>
    let bound := match binding with
      | some conn => decide (p.connState conn = .active)
      | none => false
    (p, ⟨bound, false⟩)
  | none =>
    match p.selectLocked with
    | none =>
      let reserved := p.reserveDialLocked
      (reserved.1, ⟨false, reserved.2⟩)
    | some r =>
      -- the cached priority may lag behind the connection's own state
      if (p.item r).priority ≠ .active ∨ p.connState (p.item r).conn ≠ .active then
        (p, ⟨false, false⟩)
      else
        let bound := { p with bindings := p.bindings.insert key (some (p.item r).conn) }
        let reserved := (bound.attachLocked key r).reserveScaleLocked
        (reserved.1, ⟨true, reserved.2⟩)

@[simp]
def dropRoute (r : ItemRef) : ConnectionPool Key :=
  { p.setItem r { p.item r with sessions := (p.item r).sessions.erase key } with
    routes := p.routes.erase key }

@[simp]
def decrementLoad : ConnectionPool Key :=
  { p.setItem r { p.item r with load := (p.item r).load - 1 } with
    metrics := { p.metrics with sessionsRouted := p.metrics.sessionsRouted - 1 } }

def markIdle (now : Int) : ConnectionPool Key :=
  if (p.item r).load = 0 then p.setItem r { p.item r with idleSince := some now } else p

/-- Drop a key's binding and route, and hand freed capacity to waiting keys. -/
def unbind (now : Int) (order : List Key) : ConnectionPool Key :=
  let unbound := { p with bindings := p.bindings.erase key }
  match p.routes.lookup key with
  | none => unbound
  | some r =>
    let dropped := unbound.dropRoute key r
    let released :=
      if (dropped.item r).load > 0 then (dropped.decrementLoad r).refreshLocked r else dropped
    (released.markIdle r now).assignPendingLocked order

def finishDial : ConnectionPool Key :=
  { p with
    pendingDials := p.pendingDials - 1
    metrics := { p.metrics with pendingDials := p.metrics.pendingDials - 1 } }

/-- `startDial` after the connection factory failed. -/
def startDialFailed : ConnectionPool Key :=
  p.finishDial

variable (state : ConnectionState)

@[simp]
def addConnection : ConnectionPool Key :=
  let r := p.allocated
  let p := { p with
    nextID := (p.nextID + 1) % 2 ^ 64
    connState := update p.connState r state
    allocated := p.allocated + 1 }
  let p := p.setItem r
    { id := p.nextID, conn := r, state := state, load := 0, priority := .active,
      idleSince := none, sessions := [] }
  let metrics := match state with
    | .active => { p.metrics with connectionsActive := p.metrics.connectionsActive + 1 }
    | .connecting =>
      { p.metrics with connectionsConnecting := p.metrics.connectionsConnecting + 1 }
    | _ => p.metrics
  let p := { p with metrics := metrics }
  -- the priority is cached before the push compares it
  let p := p.setItem r { p.item r with priority := p.priorityLocked r }
  { p with connections := p.connections.insert r r, queue := p.queue.push p.less r }

/-- `startDial` after the connection factory succeeded with a connection in
the given state. A closed pool drops the connection. -/
def startDial (order : List Key) : ConnectionPool Key :=
  let p := p.finishDial
  if p.closed then p else (p.addConnection state).assignPendingLocked order

def recordState (m : PoolMetrics) (previous state : ConnectionState) : PoolMetrics :=
  let m := match previous with
    | .active => { m with connectionsActive := m.connectionsActive - 1 }
    | .connecting => { m with connectionsConnecting := m.connectionsConnecting - 1 }
    | _ => m
  let m := match state with
    | .active => { m with connectionsActive := m.connectionsActive + 1 }
    | .connecting => { m with connectionsConnecting := m.connectionsConnecting + 1 }
    | _ => m
  if previous = .active ∧ state = .connecting then { m with reconnects := m.reconnects + 1 } else m

/-- The pool after a callback has recorded a pooled connection's state. -/
def recorded : ConnectionPool Key :=
  if (p.item r).state ≠ state then
    { p.setItem r { p.item r with state := state } with
      metrics := recordState p.metrics (p.item r).state state }
  else p

variable (conn : ConnRef)

/-- Align the pool with a connection's current state: the body of both
connection callbacks. -/
def syncConnectionState (order : List Key) : ConnectionPool Key :=
  match p.connections.lookup conn with
  | none => p
  | some r =>
    let state := p.connState conn
    let p := p.recorded r state
    if state = .closed then (p.removeLocked r).assignPendingLocked order
    else p.refreshLocked r

def onConnectionOpen (order : List Key) : ConnectionPool Key :=
  p.syncConnectionState conn order

def onConnectionClose (order : List Key) : ConnectionPool Key :=
  p.syncConnectionState conn order

/-- An item is removed when the pool is above its minimum and the item has
been without sessions for the idle timeout. -/
def Expired (now : Int) : Prop :=
  (p.connections.keys.length : Int) > p.minConns ∧ (p.item r).load = 0 ∧
    (p.item r).idleSince.any fun since => now - since ≥ p.idleTimeout

instance (now : Int) : Decidable (p.Expired r now) :=
  inferInstanceAs (Decidable (_ ∧ _ ∧ _))

/-- Range over the connections in the given order, removing expired items.
Returns the connections to close after the critical section. -/
def cleanupIdle (p : ConnectionPool Key) (now : Int) :
    List ConnRef → ConnectionPool Key × List ConnRef
  | [] => (p, [])
  | conn :: rest =>
    match p.connections.lookup conn with
    | none => p.cleanupIdle now rest
    | some r =>
      if p.Expired r now then
        let result := (p.removeLocked r).cleanupIdle now rest
        (result.1, (p.item r).conn :: result.2)
      else p.cleanupIdle now rest

/-- Record the removal of every pooled item. -/
def recordRemovals (p : ConnectionPool Key) : List ItemRef → ConnectionPool Key
  | [] => p
  | r :: rest => (p.recordConnectionRemovalLocked r).recordRemovals rest

/-- `Shutdown` before it takes the lock. -/
def markClosed : ConnectionPool Key := { p with closed := true }

def clearLocked : ConnectionPool Key :=
  let recorded := p.recordRemovals (p.connections.entries.map Sigma.snd)
  { recorded with
    connections := ∅
    routes := ∅
    bindings := ∅
    -- the items keep their index fields
    queue := { recorded.queue with slots := [] }
    metrics := { recorded.metrics with
      sessionsRouted := recorded.metrics.sessionsRouted - p.routes.keys.length } }

/-- Close the pool and return the connections to close. A second call does
nothing. -/
def shutdown : ConnectionPool Key × List ConnRef :=
  if p.closed then (p, []) else (p.markClosed.clearLocked, p.connections.keys)

/-- A connection object changes its own state. -/
def setConnState (state : ConnectionState) : ConnectionPool Key :=
  { p with connState := update p.connState conn state }

/-! ## Runs -/

/-- One critical section, or an asynchronous change of a connection's state. -/
inductive Op (Key : Type) where
  | bind (key : Key)
  | tryBind (key : Key)
  | unbind (key : Key) (now : Int) (order : List Key)
  | startDialFailed
  | startDial (state : ConnectionState) (order : List Key)
  | setConnState (conn : ConnRef) (state : ConnectionState)
  | onConnectionOpen (conn : ConnRef) (order : List Key)
  | onConnectionClose (conn : ConnRef) (order : List Key)
  | cleanupIdle (now : Int) (order : List ConnRef)
  | shutdown

/-- The iteration orders an operation is given enumerate the maps it ranges
over, each key once. -/
def Op.Enumerates : Op Key → Prop
  | .unbind key _ order => order.Perm (p.bindings.erase key).keys
  | .startDial _ order => order.Perm p.bindings.keys
  | .onConnectionOpen _ order => order.Perm p.bindings.keys
  | .onConnectionClose _ order => order.Perm p.bindings.keys
  | .cleanupIdle _ order => order.Perm p.connections.keys
  | _ => True

instance : (op : Op Key) → Decidable (op.Enumerates p) := by
  intro op
  unfold Op.Enumerates
  split <;> infer_instance

def apply : Op Key → ConnectionPool Key
  | .bind key => (p.bind key).1
  | .tryBind key => (p.tryBind key).1
  | .unbind key now order => p.unbind key now order
  | .startDialFailed => p.startDialFailed
  | .startDial state order => p.startDial state order
  | .setConnState conn state => p.setConnState conn state
  | .onConnectionOpen conn order => p.onConnectionOpen conn order
  | .onConnectionClose conn order => p.onConnectionClose conn order
  | .cleanupIdle now order => (p.cleanupIdle now order).1
  | .shutdown => p.shutdown.1

def step (op : Op Key) : Option (ConnectionPool Key) :=
  if op.Enumerates p then some (p.apply op) else none

end ConnectionPool

end Voce.Gateway
