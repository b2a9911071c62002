import Voce.Foundation.Tally
import Voce.Gateway.ConnectionPoolSystem

/-! # Dials and connection limits

A dial is counted when its goroutine is started and discounted when it settles,
so the pending dials of a pool are its dial goroutines in flight. A dial is
reserved only below one of the limits, which bounds the connections pooled and
on the way.
-/

namespace Voce.Gateway

open Protocol Transition ConnectionPool FiniteMap

variable {Key : Type}

namespace ConnectionPool

/-! ## What the session bookkeeping leaves alone -/

/-- Two pools that differ in their items, maps, queue and counters at most. -/
structure SameDials (p q : ConnectionPool Key) : Prop where
  minConns : q.minConns = p.minConns
  maxConns : q.maxConns = p.maxConns
  maxSessions : q.maxSessions = p.maxSessions
  idleTimeout : q.idleTimeout = p.idleTimeout
  closed : q.closed = p.closed
  pendingDials : q.pendingDials = p.pendingDials
  connState : q.connState = p.connState

variable (p : ConnectionPool Key)

theorem SameDials.refl : SameDials p p :=
  ⟨rfl, rfl, rfl, rfl, rfl, rfl, rfl⟩

theorem SameDials.trans {p q s : ConnectionPool Key} (hq : SameDials p q) (hs : SameDials q s) :
    SameDials p s where
  minConns := hs.minConns.trans hq.minConns
  maxConns := hs.maxConns.trans hq.maxConns
  maxSessions := hs.maxSessions.trans hq.maxSessions
  idleTimeout := hs.idleTimeout.trans hq.idleTimeout
  closed := hs.closed.trans hq.closed
  pendingDials := hs.pendingDials.trans hq.pendingDials
  connState := hs.connState.trans hq.connState

theorem refreshLocked_sameDials (r : ItemRef) : SameDials p (p.refreshLocked r) := by
  constructor <;> simp

theorem markIdle_sameDials (r : ItemRef) (now : Int) : SameDials p (p.markIdle r now) := by
  unfold markIdle
  split
  · exact ⟨rfl, rfl, rfl, rfl, rfl, rfl, rfl⟩
  · exact .refl p

theorem markIdle_frame (r : ItemRef) (now : Int) :
    (p.markIdle r now).connections = p.connections ∧ (p.markIdle r now).routes = p.routes ∧
      (p.markIdle r now).bindings = p.bindings ∧ (p.markIdle r now).queue = p.queue ∧
      (p.markIdle r now).metrics = p.metrics := by
  unfold markIdle
  split
  · exact ⟨rfl, rfl, rfl, rfl, rfl⟩
  · exact ⟨rfl, rfl, rfl, rfl, rfl⟩

theorem recorded_sameDials (r : ItemRef) (state : ConnectionState) :
    SameDials p (p.recorded r state) := by
  unfold recorded
  split
  · exact ⟨rfl, rfl, rfl, rfl, rfl, rfl, rfl⟩
  · exact .refl p

theorem recordRemovals_sameDials (items : List ItemRef) : SameDials p (p.recordRemovals items) := by
  induction items generalizing p with
  | nil => exact .refl p
  | cons r rest ih =>
    have hrecord : SameDials p (p.recordConnectionRemovalLocked r) := by
      constructor <;> simp
    exact hrecord.trans (ih _)

theorem clearLocked_sameDials : SameDials p p.clearLocked :=
  (recordRemovals_sameDials p _).trans ⟨rfl, rfl, rfl, rfl, rfl, rfl, rfl⟩

theorem reserveDialLocked_pendingDials :
    p.reserveDialLocked.1.pendingDials = p.pendingDials + p.reserveDialLocked.2.toNat := by
  unfold reserveDialLocked
  split
  · exact (Int.add_zero _).symm
  · rfl

theorem reserveScaleLocked_pendingDials :
    p.reserveScaleLocked.1.pendingDials = p.pendingDials + p.reserveScaleLocked.2.toNat := by
  unfold reserveScaleLocked
  split
  · exact (Int.add_zero _).symm
  · split
    · exact (Int.add_zero _).symm
    · split
      · exact (Int.add_zero _).symm
      · exact reserveDialLocked_pendingDials p

theorem startMinConnections_pendingDials :
    p.startMinConnections.1.pendingDials = p.pendingDials + p.startMinConnections.2 := by
  have hloop : ∀ (rounds : Nat) (before : ConnectionPool Key),
      (before.reserveMinLocked rounds).1.pendingDials =
        before.pendingDials + (before.reserveMinLocked rounds).2 := by
    intro rounds
    induction rounds with
    | zero => exact fun before => (Int.add_zero _).symm
    | succ rounds ih =>
      intro before
      unfold reserveMinLocked
      split
      · have hreserved : before.reserved.pendingDials = before.pendingDials + 1 := rfl
        simp only [ih, hreserved]
        omega
      · exact (Int.add_zero _).symm
  exact hloop _ p

variable [DecidableEq Key] (key : Key) (r : ItemRef)

theorem attachLocked_sameDials : SameDials p (p.attachLocked key r) := by
  have hrecord : SameDials p (p.recordRoute key r) := by
    constructor <;> simp
  exact hrecord.trans (refreshLocked_sameDials _ r)

theorem assignPendingLocked_sameDials (order : List Key) :
    SameDials p (p.assignPendingLocked order) := by
  induction order generalizing p with
  | nil => exact .refl p
  | cons key rest ih =>
    unfold assignPendingLocked
    split
    · exact ih p
    · split
      · exact .refl p
      · exact (attachLocked_sameDials p key _).trans (ih _)

theorem released_sameDials (now : Int) : SameDials p (p.released key r now) := by
  have hrelease : SameDials p (p.release key r) := by
    constructor <;> simp [release]
  exact (hrelease.trans (refreshLocked_sameDials _ r)).trans (markIdle_sameDials _ r now)

theorem released_connections (now : Int) : (p.released key r now).connections = p.connections := by
  rw [released, (markIdle_frame _ r now).1]
  simp [release]

theorem unrouteLocked_sameDials (keys : List Key) : SameDials p (p.unrouteLocked r keys) := by
  induction keys generalizing p with
  | nil => exact .refl p
  | cons key rest ih =>
    unfold unrouteLocked
    split
    · refine SameDials.trans ?_ (ih _)
      exact ⟨rfl, rfl, rfl, rfl, rfl, rfl, rfl⟩
    · exact ih p

theorem removeLocked_sameDials : SameDials p (p.removeLocked r) := by
  unfold removeLocked
  split
  · exact .refl p
  · have hdetach : SameDials p ((p.detachLocked r).recordConnectionRemovalLocked r) := by
      constructor <;> simp [detachLocked]
    refine (hdetach.trans (unrouteLocked_sameDials _ r (p.item r).sessions)).trans ?_
    constructor <;> simp

theorem unbind_sameDials {p : ConnectionPool Key} (hs : Shape none p) (key : Key) (now : Int)
    (order : List Key) : SameDials p (p.unbind key now order) := by
  cases hroute : p.routes.lookup key with
  | none =>
    rw [unbind_unrouted hroute]
    exact ⟨rfl, rfl, rfl, rfl, rfl, rfl, rfl⟩
  | some r =>
    rw [unbind_routed hs hroute]
    exact (released_sameDials p key r now).trans (assignPendingLocked_sameDials _ order)

theorem syncConnectionState_sameDials (conn : ConnRef)
    (order : List Key) : SameDials p (p.syncConnectionState conn order) := by
  cases hr : p.connections.lookup conn with
  | none =>
    simp only [syncConnectionState, hr]
    exact .refl p
  | some r =>
    rw [syncConnectionState_eq hr]
    have hrecorded := recorded_sameDials p r
    split
    · exact ((hrecorded .closed).trans (removeLocked_sameDials _ r)).trans
        (assignPendingLocked_sameDials _ order)
    · exact (hrecorded _).trans (refreshLocked_sameDials _ r)

theorem cleanupIdle_sameDials {p : ConnectionPool Key} (hp : p.Invariant) (now : Int)
    (order : List ConnRef) : SameDials p (p.cleanupIdle now order).1 :=
  cleanupIdle_preserves (SameDials p)
    (fun q r _ hsame _ _ => hsame.trans (removeLocked_sameDials q r)) hp (.refl p) order

variable {p q : ConnectionPool Key}

/-- Elementary changes keep the limits and do not close the pool. -/
theorem Change.settings (hchange : Change p q) :
    q.minConns = p.minConns ∧ q.maxConns = p.maxConns ∧ q.closed = p.closed := by
  have hsame : ∀ q, SameDials p q →
      q.minConns = p.minConns ∧ q.maxConns = p.maxConns ∧ q.closed = p.closed :=
    fun q h => ⟨h.minConns, h.maxConns, h.closed⟩
  cases hchange with
  | grow hgrowth =>
    cases hgrowth with
    | attach key r => exact hsame _ (attachLocked_sameDials p key r)
    | refresh r => exact hsame _ (refreshLocked_sameDials p r)
    | _ => exact ⟨rfl, rfl, rfl⟩
  | release key r now => exact hsame _ (released_sameDials p key r now)
  | remove r => exact hsame _ (removeLocked_sameDials p r)
  | clear => exact hsame _ (clearLocked_sameDials p)

theorem Changes.settings (hchanges : Changes p q) :
    q.minConns = p.minConns ∧ q.maxConns = p.maxConns ∧ q.closed = p.closed := by
  induction hchanges with
  | refl => exact ⟨rfl, rfl, rfl⟩
  | tail _ hchange ih =>
    obtain ⟨hmin, hmax, hclosed⟩ := hchange.settings
    exact ⟨hmin.trans ih.1, hmax.trans ih.2.1, hclosed.trans ih.2.2⟩

/-! ## Connection limits -/

/-- The connections pooled and on the way stay within the larger of the limits. -/
def Bounded (p : ConnectionPool Key) : Prop :=
  0 < p.maxConns →
    (p.connections.keys.length : Int) + p.pendingDials ≤ max p.minConns p.maxConns

theorem Shape.unfiled (hs : Shape none p) : p.connections.lookup p.allocated = none := by
  cases hlookup : p.connections.lookup p.allocated with
  | none => rfl
  | some r =>
    have hlt := (hs.allocated r (hs.pooled_of_lookup hlookup)).2
    rw [hs.filed _ r hlookup] at hlt
    exact absurd hlt (lt_irrefl _)

omit [DecidableEq Key] in
theorem addConnection_connections_eq (p : ConnectionPool Key) (state : ConnectionState) :
    (p.addConnection state).connections = p.connections.insert p.allocated p.allocated :=
  rfl

theorem addConnection_size (hs : Shape none p) (state : ConnectionState) :
    (p.addConnection state).connections.keys.length = p.connections.keys.length + 1 := by
  rw [addConnection_connections_eq, keys_length_insert hs.unfiled]

theorem removeLocked_size (hs : Shape none p) {r} (hpooled : p.Pooled r) :
    (p.removeLocked r).connections.keys.length + 1 = p.connections.keys.length := by
  rw [(removeLocked_removed hs hpooled).connections, keys_length_erase hpooled]

/-- How an elementary change moves the number of connections pooled and on the
way. -/
theorem Change.sum_le (hp : p.Invariant) (hchange : Change p q) :
    (q.connections.keys.length : Int) + q.pendingDials ≤
        p.connections.keys.length + p.pendingDials ∨
      q = p.reserved ∧ ((p.connections.keys.length : Int) + p.pendingDials < p.minConns ∨
        (p.maxConns > 0 → (p.connections.keys.length : Int) + p.pendingDials < p.maxConns)) := by
  cases hchange with
  | grow hgrowth =>
    cases hgrowth with
    | reserve hroom => exact .inr ⟨rfl, hroom⟩
    | finishDial =>
      left
      change _ + (p.pendingDials - 1) ≤ _
      change (p.connections.keys.length : Int) + _ ≤ _
      omega
    | addConnection hopen =>
      left
      have hpending : (p.finishDial.addConnection .connecting).pendingDials =
          p.pendingDials - 1 := rfl
      rw [addConnection_size (finishDial_invariant hp).shape, hpending]
      change ((p.connections.keys.length + 1 : Nat) : Int) + _ ≤ _
      omega
    | _ =>
      exact .inl le_rfl
  | release key r now =>
    left
    rw [(released_sameDials p key r now).pendingDials, released_connections]
  | remove r hpooled =>
    rw [(removeLocked_sameDials p r).pendingDials]
    have hsize := removeLocked_size hp.shape hpooled
    omega
  | clear =>
    have hempty : p.clearLocked.connections = ∅ := rfl
    rw [(clearLocked_sameDials p).pendingDials, hempty, AList.keys_empty, List.length_nil]
    omega

theorem Change.bounded (hp : p.Invariant) (hbounded : p.Bounded) (hchange : Change p q) :
    q.Bounded := by
  obtain ⟨hmin, hmax, -⟩ := hchange.settings
  have hsum := hchange.sum_le hp
  unfold Bounded at hbounded ⊢
  rw [hmin, hmax]
  intro hlimit
  rcases hsum with hsum | ⟨rfl, hroom⟩
  · omega
  · have hreserved : p.reserved.connections.keys.length + p.reserved.pendingDials =
        p.connections.keys.length + p.pendingDials + 1 := (Int.add_assoc _ _ _).symm
    rcases hroom with hroom | hroom
    · omega
    · omega

/-! ## Dial goroutines -/

variable (p)

/-- `Bind` starts a dial goroutine exactly if it has counted one. -/
theorem bind_pendingDials :
    (p.bind key).1.pendingDials = p.pendingDials + (p.bind key).2.toNat := by
  unfold bind
  split
  · exact (Int.add_zero _).symm
  · dsimp only
    split
    · split
      · exact reserveScaleLocked_pendingDials _
      · exact (Int.add_zero _).symm
    · exact reserveDialLocked_pendingDials _

theorem tryBind_pendingDials :
    (p.tryBind key).1.pendingDials = p.pendingDials + (p.tryBind key).2.startDial.toNat := by
  unfold tryBind
  split
  · exact (Int.add_zero _).symm
  · split
    · exact reserveDialLocked_pendingDials p
    · split
      · exact (Int.add_zero _).symm
      · exact reserveScaleLocked_pendingDials _

theorem startDial_pendingDials (state : ConnectionState)
    (order : List Key) : (p.startDial state order).pendingDials = p.pendingDials - 1 := by
  unfold startDial
  dsimp only
  split
  · rfl
  · rw [(assignPendingLocked_sameDials _ order).pendingDials]
    rfl

end ConnectionPool

namespace PoolSystem

variable [DecidableEq Key]

/-- The pending dials stay the dial goroutines in flight. -/
theorem step_dials {s s' : PoolSystem Key} {event} (hp : s.pool.Invariant)
    (hdials : s.pool.pendingDials = s.dials) (hstep : s.step event = some s') :
    s'.pool.pendingDials = s'.dials := by
  cases steps_of_step hstep with
  | startMinConnections =>
    change s.pool.startMinConnections.1.pendingDials = _
    rw [s.pool.startMinConnections_pendingDials, hdials]
    rfl
  | bind key =>
    change (s.pool.bind key).1.pendingDials = _
    rw [s.pool.bind_pendingDials, hdials]
    rfl
  | tryBind key =>
    change (s.pool.tryBind key).1.pendingDials = _
    rw [s.pool.tryBind_pendingDials, hdials]
    rfl
  | unbind key order =>
    exact (unbind_sameDials hp.shape key s.clock order).pendingDials.trans hdials
  | dialFailed hpositive =>
    change s.pool.pendingDials - 1 = (s.dials - 1 : Nat)
    omega
  | dialed order hpositive =>
    change (s.pool.startDial .connecting order).pendingDials = (s.dials - 1 : Nat)
    rw [s.pool.startDial_pendingDials]
    omega
  | sync conn order =>
    exact (s.pool.syncConnectionState_sameDials conn order).pendingDials.trans hdials
  | cleanupIdle now order =>
    exact (cleanupIdle_sameDials hp now order).pendingDials.trans hdials
  | clear => exact s.pool.clearLocked_sameDials.pendingDials.trans hdials
  | _ => exact hdials

theorem run_pendingDials {config events} {s : PoolSystem Key}
    (hrun : run step (initial config) events = some s) :
    s.pool.pendingDials = s.dials := by
  have hboth : s.pool.Invariant ∧ s.pool.pendingDials = s.dials := by
    refine run_invariant (fun s => s.pool.Invariant ∧ s.pool.pendingDials = s.dials) ?_
      ⟨initial_pool_invariant config, rfl⟩ hrun
    rintro before event after ⟨hp, hdials⟩ hstep
    exact ⟨step_pool_invariant hp hstep, step_dials hp hdials hstep⟩
  exact hboth.2

/-- In every state of every run the pending dials are the dial goroutines in
flight, and a configured limit bounds the connections pooled and on the way. -/
theorem run_dials_bounded (config : ConnectionPoolConfig) (events : List (Event Key))
    {s : PoolSystem Key} (hrun : run step (initial config) events = some s) :
    s.pool.pendingDials = s.dials ∧ 0 ≤ s.pool.pendingDials ∧
      (0 < s.pool.maxConns →
        (s.pool.connections.keys.length : Int) + s.pool.pendingDials ≤
          max s.pool.minConns s.pool.maxConns) := by
  have hdials := run_pendingDials hrun
  have hinitial : (newConnectionPool config : ConnectionPool Key).Bounded := by
    intro hlimit
    change (0 : Int) + 0 ≤ _
    omega
  have hbounded : s.pool.Bounded :=
    run_pool_property Bounded
      (fun _ _ hp hbounded hchange => hchange.bounded hp hbounded) (fun _ hbounded => hbounded)
      hinitial hrun
  exact ⟨hdials, hdials ▸ Int.natCast_nonneg _, hbounded⟩

/-- Two dials are reserved for a minimum of two connections; one of them fails, the
other settles after the pool was marked closed. -/
theorem run_dials_bounded_closing : ∃ s : PoolSystem Nat,
    run step (initial ⟨2, 1, 1, 1, 10, 1⟩)
      [.startMinConnections, .bind 7, .dialFailed, .shutdown, .dialed [7], .clear] = some s ∧
    s.pool.pendingDials = s.dials ∧ 0 ≤ s.pool.pendingDials ∧
      (0 < s.pool.maxConns →
        (s.pool.connections.keys.length : Int) + s.pool.pendingDials ≤
          max s.pool.minConns s.pool.maxConns) := by
  obtain ⟨s, hs⟩ : ∃ s : PoolSystem Nat, run step (initial ⟨2, 1, 1, 1, 10, 1⟩)
      [.startMinConnections, .bind 7, .dialFailed, .shutdown, .dialed [7], .clear] = some s :=
    Option.isSome_iff_exists.mp (by decide +kernel)
  exact ⟨s, hs, run_dials_bounded _ _ hs⟩

end PoolSystem

end Voce.Gateway
