import Voce.Gateway.ConnectionPoolRuns

/-! # The connection pool and the goroutines around it

A pool acts together with its dial goroutines, with the connections' own state
changes and with calls of `Shutdown`, which set the closed flag before they take
the lock. The events below interleave these freely; a dial settles only if it
was started, and a connection changes its state as its callbacks do.

Every event is a sequence of elementary changes of the pool. An invariant of the
elementary changes holds in every state of every run.
-/

namespace Voce.Gateway

open Protocol ConnectionPool Transition Option AList

variable {Key : Type}

/-! ## Events -/

structure PoolSystem (Key : Type) where
  pool : ConnectionPool Key
  dials : Nat
  /-- A `Shutdown` call has set the closed flag and not yet taken the lock. -/
  closing : Bool
  clock : Int
  /-- When each item was last left without sessions, or was added. -/
  emptySince : ItemRef → Int

namespace PoolSystem

inductive Event (Key : Type) where
  | elapse (duration : Nat)
  | startMinConnections
  | bind (key : Key)
  | tryBind (key : Key)
  | unbind (key : Key) (order : List Key)
  | dialFailed
  | dialed (order : List Key)
  /-- `Connection.OnOpen`, `Connection.OnClose` and `Connection.Close` before they
  call the pool back. -/
  | onOpen (conn : ConnRef)
  | onClose (conn : ConnRef)
  | close (conn : ConnRef)
  | onConnectionOpen (conn : ConnRef) (order : List Key)
  | onConnectionClose (conn : ConnRef) (order : List Key)
  | cleanupIdle (now : Int) (order : List ConnRef)
  | shutdown
  | clear

def initial (config : ConnectionPoolConfig) : PoolSystem Key where
  pool := newConnectionPool config
  dials := 0
  closing := false
  clock := 0
  emptySince := fun _ => 0

variable [DecidableEq Key]

/-- The pool and the dials after a critical section. An item that had sessions, or
was not pooled, and has none now is without sessions from now on. -/
def become (s : PoolSystem Key) (pool : ConnectionPool Key) (dials : Nat) : PoolSystem Key :=
  { s with
    pool := pool
    dials := dials
    emptySince := fun r =>
      if s.pool.connections.lookup (s.pool.item r).conn = some r ∧ (s.pool.item r).sessions = [] ∨
          (pool.item r).sessions ≠ [] then s.emptySince r
      else s.clock }

def perform (s : PoolSystem Key) (op : ConnectionPool.Op Key) (dials : Nat) :
    Option (PoolSystem Key) :=
  (s.pool.step op).map fun pool => s.become pool dials

def step (s : PoolSystem Key) : Event Key → Option (PoolSystem Key)
  | .elapse duration => some { s with clock := s.clock + duration }
  | .startMinConnections =>
    let result := s.pool.startMinConnections
    some (s.become result.1 (s.dials + result.2))
  | .bind key => s.perform (.bind key) (s.dials + (s.pool.bind key).2.toNat)
  | .tryBind key => s.perform (.tryBind key) (s.dials + (s.pool.tryBind key).2.startDial.toNat)
  | .unbind key order => s.perform (.unbind key s.clock order) s.dials
  | .dialFailed =>
    if 0 < s.dials then s.perform .startDialFailed (s.dials - 1) else none
  | .dialed order =>
    -- a new connection is Connecting until its handshake is done
    if 0 < s.dials then s.perform (.startDial .connecting order) (s.dials - 1) else none
  | .onOpen conn =>
    if s.pool.connState conn = .connecting then s.perform (.setConnState conn .active) s.dials
    else some s
  | .onClose conn =>
    if s.pool.connState conn = .active then s.perform (.setConnState conn .connecting) s.dials
    else some s
  | .close conn =>
    if s.pool.connState conn = .closed then some s
    else s.perform (.setConnState conn .closed) s.dials
  | .onConnectionOpen conn order => s.perform (.onConnectionOpen conn order) s.dials
  | .onConnectionClose conn order => s.perform (.onConnectionClose conn order) s.dials
  | .cleanupIdle now order =>
    -- the time of the tick that woke the cleanup loop
    if now ≤ s.clock then s.perform (.cleanupIdle now order) s.dials else none
  | .shutdown =>
    if s.pool.closed then some s
    else some { s.become s.pool.markClosed s.dials with closing := true }
  | .clear =>
    if s.closing then some { s.become s.pool.clearLocked s.dials with closing := false }
    else none

variable {s s' : PoolSystem Key}

theorem perform_eq_some {op dials} : s.perform op dials = some s' ↔
      op.Enumerates s.pool ∧ s' = s.become (s.pool.apply op) dials := by
  unfold perform ConnectionPool.step
  split
  next hopen => simp [hopen, eq_comm]
  next hopen => simp [hopen]

/-- A connection changes its state, or the pool is shut down. -/
def Event.MayIdle : Event Key → Prop
  | .onOpen _ | .onClose _ | .close _ | .shutdown => True
  | _ => False

/-- What an event does to the system. -/
inductive Steps (s : PoolSystem Key) : Event Key → PoolSystem Key → Prop
  | elapse (duration : Nat) : Steps s (.elapse duration) { s with clock := s.clock + duration }
  | idle {event : Event Key} (hevent : event.MayIdle) : Steps s event s
  | startMinConnections : Steps s .startMinConnections
      (s.become s.pool.startMinConnections.1 (s.dials + s.pool.startMinConnections.2))
  | bind (key : Key) : Steps s (.bind key)
      (s.become (s.pool.bind key).1 (s.dials + (s.pool.bind key).2.toNat))
  | tryBind (key : Key) : Steps s (.tryBind key)
      (s.become (s.pool.tryBind key).1 (s.dials + (s.pool.tryBind key).2.startDial.toNat))
  | unbind (key : Key) (order : List Key) (horder : order.Perm (s.pool.bindings.erase key).keys) :
      Steps s (.unbind key order) (s.become (s.pool.unbind key s.clock order) s.dials)
  | dialFailed (hdials : 0 < s.dials) :
      Steps s .dialFailed (s.become s.pool.finishDial (s.dials - 1))
  | dialed (order : List Key) (hdials : 0 < s.dials) (horder : order.Perm s.pool.bindings.keys) :
      Steps s (.dialed order) (s.become (s.pool.startDial .connecting order) (s.dials - 1))
  | setConnState {event : Event Key} (conn : ConnRef) (state : ConnectionState)
      (hevent : event.MayIdle) (hopen : s.pool.connState conn ≠ .closed)
      (hstate : state ≠ .unknown) :
      Steps s event (s.become (s.pool.setConnState conn state) s.dials)
  | sync {event : Event Key} (conn : ConnRef) (order : List Key)
      (hcallback : event = .onConnectionOpen conn order ∨ event = .onConnectionClose conn order)
      (horder : order.Perm s.pool.bindings.keys) :
      Steps s event (s.become (s.pool.syncConnectionState conn order) s.dials)
  | cleanupIdle (now : Int) (order : List ConnRef) (hnow : now ≤ s.clock)
      (horder : order.Perm s.pool.connections.keys) :
      Steps s (.cleanupIdle now order) (s.become (s.pool.cleanupIdle now order).1 s.dials)
  | shutdown (hopen : s.pool.closed = false) :
      Steps s .shutdown { s.become s.pool.markClosed s.dials with closing := true }
  | clear (hclosing : s.closing = true) :
      Steps s .clear { s.become s.pool.clearLocked s.dials with closing := false }

theorem steps_of_step {event} (hstep : s.step event = some s') : Steps s event s' := by
  cases event with
  | elapse duration =>
    cases hstep
    exact .elapse duration
  | startMinConnections =>
    cases hstep
    exact .startMinConnections
  | bind key =>
    obtain ⟨-, rfl⟩ := perform_eq_some.mp hstep
    exact .bind key
  | tryBind key =>
    obtain ⟨-, rfl⟩ := perform_eq_some.mp hstep
    exact .tryBind key
  | unbind key order =>
    obtain ⟨horder, rfl⟩ := perform_eq_some.mp hstep
    exact .unbind key order horder
  | dialFailed =>
    obtain ⟨hdials, hstep⟩ := ite_none_right_eq_some.mp hstep
    obtain ⟨-, rfl⟩ := perform_eq_some.mp hstep
    exact .dialFailed hdials
  | dialed order =>
    obtain ⟨hdials, hstep⟩ := ite_none_right_eq_some.mp hstep
    obtain ⟨horder, rfl⟩ := perform_eq_some.mp hstep
    exact .dialed order hdials horder
  | onOpen conn | onClose conn =>
    simp only [step] at hstep
    split at hstep
    next hstate =>
      obtain ⟨-, rfl⟩ := perform_eq_some.mp hstep
      exact .setConnState conn _ trivial (by simp [hstate]) (by simp)
    · cases hstep
      exact .idle trivial
  | close conn =>
    simp only [step] at hstep
    split at hstep
    · cases hstep
      exact .idle trivial
    next hstate =>
      obtain ⟨-, rfl⟩ := perform_eq_some.mp hstep
      exact .setConnState conn .closed trivial hstate (by simp)
  | onConnectionOpen conn order =>
    obtain ⟨horder, rfl⟩ := perform_eq_some.mp hstep
    exact .sync conn order (.inl rfl) horder
  | onConnectionClose conn order =>
    obtain ⟨horder, rfl⟩ := perform_eq_some.mp hstep
    exact .sync conn order (.inr rfl) horder
  | cleanupIdle now order =>
    obtain ⟨hnow, hstep⟩ := ite_none_right_eq_some.mp hstep
    obtain ⟨horder, rfl⟩ := perform_eq_some.mp hstep
    exact .cleanupIdle now order hnow horder
  | shutdown =>
    simp only [step] at hstep
    split at hstep
    · cases hstep
      exact .idle trivial
    next hopen =>
      cases hstep
      exact .shutdown (by simpa using hopen)
  | clear =>
    obtain ⟨hclosing, hstep⟩ := ite_none_right_eq_some.mp hstep
    cases hstep
    exact .clear hclosing

/-- What an event does to the pool. -/
inductive Effect (s : PoolSystem Key) : Event Key → ConnectionPool Key → Prop
  | grows {event : Event Key} {pool : ConnectionPool Key}
      (hgrowths : Growths s.pool pool) : Effect s event pool
  | unbinds {key : Key} {order : List Key} {r : ItemRef}
      (hrouted : s.pool.routes.lookup key = some r)
      (horder : order.Perm (s.pool.bindings.erase key).keys) :
      Effect s (.unbind key order) ((s.pool.released key r s.clock).assignPendingLocked order)
  | removes {event : Event Key} {conn : ConnRef} {order : List Key} {r : ItemRef}
      (hcallback : event = .onConnectionOpen conn order ∨ event = .onConnectionClose conn order)
      (hfiled : s.pool.connections.lookup conn = some r)
      (hclosed : s.pool.connState conn = .closed) (horder : order.Perm s.pool.bindings.keys) :
      Effect s event (((s.pool.recorded r .closed).removeLocked r).assignPendingLocked order)
  | cleans {now : Int} {order : List ConnRef} (hnow : now ≤ s.clock)
      (horder : order.Perm s.pool.connections.keys) :
      Effect s (.cleanupIdle now order) (s.pool.cleanupIdle now order).1
  | closes (hopen : s.pool.closed = false) : Effect s .shutdown s.pool.markClosed
  | clears (hclosing : s.closing = true) : Effect s .clear s.pool.clearLocked

variable {event : Event Key}

theorem syncConnectionState_effect {s} (hp : s.pool.Invariant) {conn order}
    (hcallback : event = .onConnectionOpen conn order ∨ event = .onConnectionClose conn order)
    (horder : order.Perm s.pool.bindings.keys) :
    Effect s event (s.pool.syncConnectionState conn order) := by
  cases hr : s.pool.connections.lookup conn with
  | none =>
    simp only [syncConnectionState, hr]
    exact .grows .refl
  | some r =>
    rw [syncConnectionState_eq hr]
    have hpooled := hp.shape.pooled_of_lookup hr
    split
    next hclosed => exact .removes hcallback hr hclosed horder
    · exact .grows ((recorded_growths hpooled _).tail
        (.refresh r ((s.pool.recorded_pooled r _ r).mpr hpooled)))

theorem step_effect (hp : s.pool.Invariant) (hstep : s.step event = some s') :
    Effect s event s'.pool := by
  cases steps_of_step hstep with
  | elapse | idle => exact .grows .refl
  | startMinConnections => exact .grows s.pool.startMinConnections_growths
  | bind key => exact .grows (s.pool.bind_growths key hp.shape)
  | tryBind key => exact .grows (s.pool.tryBind_growths key hp.shape)
  | unbind key order horder =>
    change Effect s _ (s.pool.unbind key s.clock order)
    cases hroute : s.pool.routes.lookup key with
    | none =>
      rw [unbind_unrouted hroute]
      exact .grows (.single (.eraseBinding key hroute))
    | some r =>
      rw [unbind_routed hp.shape hroute]
      exact .unbinds hroute horder
  | dialFailed => exact .grows (.single .finishDial)
  | dialed order _ horder =>
    exact .grows (s.pool.startDial_growths fun k hk => horder.mem_iff.mp hk)
  | setConnState conn state _ hopen hstate =>
    exact .grows (.single (.setConnState conn state hopen hstate))
  | sync conn order hcallback horder => exact syncConnectionState_effect hp hcallback horder
  | cleanupIdle now order hnow horder => exact .cleans hnow horder
  | shutdown hopen => exact .closes hopen
  | clear hclosing => exact .clears hclosing

/-- Every event but closing the pool is a sequence of elementary changes. -/
theorem Effect.changes {s : PoolSystem Key} {pool : ConnectionPool Key} (hp : s.pool.Invariant)
    (heffect : Effect s event pool) :
    Changes s.pool pool ∨ event = .shutdown ∧ pool = s.pool.markClosed := by
  cases heffect with
  | grows hgrowths => exact .inl (Growths.changes hgrowths)
  | @unbinds key order r hrouted horder =>
    exact .inl (.head (.release key r s.clock hrouted)
      (Growths.changes (assign_released_growths horder)))
  | @removes _ conn order r _ hfiled _ horder =>
    have hpooled := hp.shape.pooled_of_lookup hfiled
    exact .inl (((Growths.changes (recorded_growths hpooled .closed)).tail
      (.remove r ((s.pool.recorded_pooled r _ r).mpr hpooled))).trans
      (Growths.changes (assign_removed_growths hp hpooled horder)))
  | @cleans now order => exact .inl (cleanupIdle_changes hp now order)
  | closes => exact .inr ⟨rfl, rfl⟩
  | clears => exact .inl (.single .clear)

theorem initial_pool_invariant (config : ConnectionPoolConfig) :
    (initial config : PoolSystem Key).pool.Invariant :=
  newConnectionPool_invariant config

theorem step_pool_invariant (hp : s.pool.Invariant) (hstep : s.step event = some s') :
    s'.pool.Invariant := by
  rcases (step_effect hp hstep).changes hp with hchanges | ⟨-, hclosed⟩
  · exact Changes.invariant hp hchanges
  · rw [hclosed]
    exact hp.frame

/-- The pool's representation invariant holds in every state of every run. -/
theorem run_pool_invariant {config events} {s : PoolSystem Key}
    (hrun : run step (initial config) events = some s) : s.pool.Invariant :=
  run_invariant (fun s => s.pool.Invariant)
    step_pool_invariant (initial_pool_invariant config) hrun

variable (property : ConnectionPool Key → Prop)
  (hkeep : ∀ before after, before.Invariant → property before → Change before after →
    property after)
  (hclose : ∀ before, property before → property before.markClosed)
include hkeep hclose

/-- A property of the pool that elementary changes and closing keep is kept by
events. -/
theorem step_pool_property (hp : s.pool.Invariant) (hproperty : property s.pool)
    (hstep : s.step event = some s') : property s'.pool := by
  rcases (step_effect hp hstep).changes hp with hchanges | ⟨-, hclosed⟩
  · exact Changes.preserves property hkeep hp hproperty hchanges
  · rw [hclosed]
    exact hclose s.pool hproperty

/-- A property of the new pool that elementary changes and closing keep holds of
the pool in every state of every run. -/
theorem run_pool_property {config events s} (hinitial : property (newConnectionPool config))
    (hrun : run step (initial config) events = some s) : property s.pool := by
  have hboth : s.pool.Invariant ∧ property s.pool := by
    refine run_invariant (fun s => s.pool.Invariant ∧ property s.pool) ?_
      ⟨initial_pool_invariant config, hinitial⟩ hrun
    rintro before event after ⟨hp, hproperty⟩ hstep
    exact ⟨step_pool_invariant hp hstep,
      step_pool_property property hkeep hclose hp hproperty hstep⟩
  exact hboth.2

end PoolSystem

end Voce.Gateway
