import Mathlib.Algebra.BigOperators.Group.Finset.Basic
import Voce.Gateway.ConnectionPoolDials

/-! # Gauges of the connection pools

The counters of the pools are gauges: pooled connections by recorded state,
pending dials and routed keys. An elementary change moves a gauge together with
what it counts, so a pool's contribution is exact in every state of every run.
All pools of a gateway add to the same counters, whose accumulated values are
then the sums over the pools.
-/

namespace Voce.Gateway

open Protocol ConnectionPool Transition Function List Tally PoolMetrics Sigma FiniteMap

variable {Key : Type}

/-- The gauge of the pooled connections in a state. Two of the states have one. -/
def PoolMetrics.connections (m : PoolMetrics) : ConnectionState → Int
  | .active => m.connectionsActive
  | .connecting => m.connectionsConnecting
  | _ => 0

/-- The states whose connections are counted. -/
def Gauged (state : ConnectionState) : Prop := state = .active ∨ state = .connecting

namespace ConnectionPool

theorem recordState_connections (m : PoolMetrics) (previous next : ConnectionState) {state}
    (hstate : Gauged state) :
    (recordState m previous next).connections state =
      m.connections state - (if previous = state then 1 else 0) +
        if next = state then 1 else 0 := by
  rcases hstate with rfl | rfl <;> cases previous <;> cases next <;>
    simp [recordState, PoolMetrics.connections]

theorem recordState_frame (m : PoolMetrics) (previous next : ConnectionState) :
    (recordState m previous next).pendingDials = m.pendingDials ∧
      (recordState m previous next).sessionsRouted = m.sessionsRouted := by
  cases previous <;> cases next <;> simp [recordState]

variable (p : ConnectionPool Key)

theorem recordConnectionRemovalLocked_metrics (r : ItemRef) :
    (∀ state, Gauged state → (p.recordConnectionRemovalLocked r).metrics.connections state =
        p.metrics.connections state - if (p.item r).state = state then 1 else 0) ∧
      (p.recordConnectionRemovalLocked r).metrics.pendingDials = p.metrics.pendingDials ∧
      (p.recordConnectionRemovalLocked r).metrics.sessionsRouted =
        p.metrics.sessionsRouted := by
  simp only [recordConnectionRemovalLocked]
  cases (p.item r).state with
  | unknown | closed =>
    refine ⟨?_, rfl, rfl⟩
    rintro state (rfl | rfl) <;> simp
  | active | connecting =>
    refine ⟨?_, rfl, rfl⟩
    rintro state (rfl | rfl) <;> simp [PoolMetrics.connections]

/-- Number of pooled connections whose recorded state is the given one. -/
def inState (p : ConnectionPool Key) (state : ConnectionState) : Nat :=
  Tally.total (fun _ r => if (p.item r).state = state then 1 else 0) p.connections

theorem inState_congr {p q : ConnectionPool Key} (hconnections : q.connections = p.connections)
    (hstate : ∀ r, (q.item r).state = (p.item r).state) (state : ConnectionState) :
    q.inState state = p.inState state := by
  simp only [inState, hconnections, hstate]

/-- Recording the removal of distinct items takes each out of its state's gauge. -/
theorem recordRemovals_metrics {p : ConnectionPool Key} {items : List ItemRef}
    (hnodup : items.Nodup) :
    (∀ state, Gauged state → (p.recordRemovals items).metrics.connections state =
        p.metrics.connections state -
          ((items.map fun r => if (p.item r).state = state then 1 else 0).sum : Nat)) ∧
      (p.recordRemovals items).metrics.pendingDials = p.metrics.pendingDials ∧
      (p.recordRemovals items).metrics.sessionsRouted = p.metrics.sessionsRouted := by
  induction items generalizing p with
  | nil => simp [recordRemovals]
  | cons r rest ih =>
    obtain ⟨hnot, hrest⟩ := nodup_cons.mp hnodup
    obtain ⟨hgauge, hdials, hrouted⟩ := ih (p := p.recordConnectionRemovalLocked r) hrest
    obtain ⟨hone, honeDials, honeRouted⟩ := recordConnectionRemovalLocked_metrics p r
    refine ⟨?_, hdials.trans honeDials, hrouted.trans honeRouted⟩
    intro state hstate
    have hsame : (rest.map fun b =>
        if ((p.recordConnectionRemovalLocked r).item b).state = state then 1 else 0) =
        rest.map fun b => if (p.item b).state = state then 1 else 0 := by
      apply map_congr_left
      intro b hb
      have hne : b ≠ r := fun heq => hnot (heq ▸ hb)
      rw [recordConnectionRemovalLocked_item_of_ne p hne]
    rw [recordRemovals, hgauge state hstate, hone state hstate, hsame, map_cons, sum_cons]
    split_ifs <;> omega

/-! ## Exactness of one pool's counters -/

/-- The counters a pool has contributed are what they count. -/
structure Exact (p : ConnectionPool Key) : Prop where
  connections : ∀ state, Gauged state → p.metrics.connections state = p.inState state
  pendingDials : p.metrics.pendingDials = p.pendingDials
  sessionsRouted : p.metrics.sessionsRouted = p.routes.keys.length

/-- A change of fields that no gauge counts. -/
theorem Exact.congr {p q : ConnectionPool Key} (he : Exact p)
    (hconnections : q.connections = p.connections)
    (hstate : ∀ r, (q.item r).state = (p.item r).state) (hroutes : q.routes = p.routes)
    (hpending : q.pendingDials = p.pendingDials) (hmetrics : q.metrics = p.metrics) : Exact q where
  connections state hgauged := by
    rw [hmetrics, inState_congr hconnections hstate]
    exact he.connections state hgauged
  pendingDials := by rw [hmetrics, hpending, he.pendingDials]
  sessionsRouted := by rw [hmetrics, hroutes, he.sessionsRouted]

theorem refreshLocked_state (r b : ItemRef) :
    ((p.refreshLocked r).item b).state = (p.item b).state := by
  refine setItem_item_congr (·.state) p r ?_ b
  rfl

variable {p}

theorem refreshLocked_exact (he : p.Exact) (r : ItemRef) : (p.refreshLocked r).Exact := by
  apply he.congr
  · simp
  · exact refreshLocked_state p r
  · simp
  · exact (refreshLocked_sameDials p r).pendingDials
  · simp

theorem markIdle_exact (he : p.Exact) (r : ItemRef) (now : Int) : (p.markIdle r now).Exact := by
  obtain ⟨hconnections, hroutes, -, -, hmetrics⟩ := markIdle_frame p r now
  refine he.congr hconnections ?_ hroutes (markIdle_sameDials p r now).pendingDials hmetrics
  unfold markIdle
  split
  · exact setItem_item_congr (·.state) p r rfl
  · exact fun _ => rfl

/-- Counting dials moves one counter only. -/
theorem Exact.countDials (he : p.Exact) (dials : Int) : { p with
      pendingDials := p.pendingDials + dials
      metrics := { p.metrics with
        pendingDials := p.metrics.pendingDials + dials } }.Exact where
  connections state hstate := by
    have hold := he.connections state hstate
    rcases hstate with rfl | rfl <;> exact hold
  pendingDials := congrArg (· + dials) he.pendingDials
  sessionsRouted := he.sessionsRouted

variable [DecidableEq Key] (p)

theorem unrouteLocked_metrics (r : ItemRef) (keys : List Key) :
    (∀ state, (p.unrouteLocked r keys).metrics.connections state = p.metrics.connections state) ∧
      (p.unrouteLocked r keys).metrics.pendingDials = p.metrics.pendingDials ∧
      (p.unrouteLocked r keys).metrics.sessionsRouted -
          (p.unrouteLocked r keys).routes.keys.length =
        p.metrics.sessionsRouted - p.routes.keys.length := by
  induction keys generalizing p with
  | nil => exact ⟨fun _ => rfl, rfl, rfl⟩
  | cons key rest ih =>
    unfold unrouteLocked
    split
    next hrouted =>
      obtain ⟨hgauge, hdials, hbalance⟩ := ih { p with
        routes := p.routes.erase key
        bindings := if key ∈ p.bindings then p.bindings.insert key none else p.bindings
        metrics := { p.metrics with sessionsRouted := p.metrics.sessionsRouted - 1 } }
      refine ⟨?_, hdials, hbalance.trans ?_⟩
      · intro state
        rw [hgauge]
        cases state <;> rfl
      · have hlength := keys_length_erase hrouted
        push_cast
        omega
    · exact ih p

theorem recordRoute_exact {p : ConnectionPool Key} (he : p.Exact) {key}
    (hunrouted : p.routes.lookup key = none) (r : ItemRef) : (p.recordRoute key r).Exact where
  connections state hstate := by
    have hsame : (p.recordRoute key r).inState state = p.inState state := by
      apply inState_congr
      · simp
      · exact setItem_item_congr (·.state) p r rfl
    rw [hsame, ← he.connections state hstate]
    rcases hstate with rfl | rfl <;> rfl
  pendingDials := he.pendingDials
  sessionsRouted := by
    change p.metrics.sessionsRouted + 1 = ((p.routes.insert key r).keys.length : Int)
    rw [keys_length_insert hunrouted, he.sessionsRouted]
    rfl

variable {p}

theorem release_exact (he : p.Exact) {key r}
    (hrouted : p.routes.lookup key = some r) : (p.release key r).Exact := by
  refine ⟨?_, ?_, ?_⟩
  · intro state hstate
    have hsame : (p.release key r).inState state = p.inState state := by
      apply inState_congr
      · rfl
      · intro b
        by_cases hb : b = r
        · rw [hb, release_item_self]
        · rw [release_item_of_ne p key r hb]
    rw [hsame, ← he.connections state hstate]
    rcases hstate with rfl | rfl <;> rfl
  · exact he.pendingDials
  · have hlength := keys_length_erase hrouted
    have hrouted := he.sessionsRouted
    change p.metrics.sessionsRouted - 1 = ((p.routes.erase key).keys.length : Int)
    omega

/-- Items filed under other connections are other items. -/
theorem Shape.item_ne (hs : Shape none p) {r b c}
    (hc : c ≠ (p.item r).conn) (hb : p.connections.lookup c = some b) : b ≠ r := by
  intro heq
  rw [heq] at hb
  exact hc (hs.filed c r hb).symm

theorem recordState_exact (hs : Shape none p) (he : p.Exact) {r}
    (hpooled : p.Pooled r) (state : ConnectionState) :
    { p.setItem r { p.item r with state := state } with
      metrics := recordState p.metrics (p.item r).state state }.Exact := by
  obtain ⟨hdials, hrouted⟩ := recordState_frame p.metrics (p.item r).state state
  refine ⟨?_, hdials.trans he.pendingDials, hrouted.trans he.sessionsRouted⟩
  intro other hother
  let marked := p.setItem r { p.item r with state := state }
  have hself : (marked.item r).state = state := by simp [marked]
  have hupdate : total (fun _ b => if (marked.item b).state = other then 1 else 0)
        p.connections + (if (p.item r).state = other then 1 else 0) =
      p.inState other + if (marked.item r).state = other then 1 else 0 := by
    apply total_update _ (fun _ b => if (p.item b).state = other then 1 else 0) hpooled
    intro c b hc hb
    simp only [marked, setItem_item_of_ne p _ (hs.item_ne hc hb)]
  rw [recordState_connections _ _ _ hother, he.connections other hother]
  change _ = ((total (fun _ b => if (marked.item b).state = other then 1 else 0)
    p.connections : Nat) : Int)
  rw [hself] at hupdate
  split_ifs at hupdate ⊢ <;> omega

/-- A fresh connection is counted where it is recorded. -/
theorem addConnection_exact (hs : Shape none p) (he : p.Exact) :
    (p.addConnection .connecting).Exact := by
  have hmetrics : (p.addConnection .connecting).metrics =
      { p.metrics with connectionsConnecting := p.metrics.connectionsConnecting + 1 } := by
    simp
  have hcount : ∀ state, (p.addConnection .connecting).inState state =
      (if ConnectionState.connecting = state then 1 else 0) + p.inState state := by
    intro state
    have hnew : ((p.addConnection .connecting).item p.allocated).state = .connecting := by
      simp
    rw [inState, addConnection_connections_eq, total_insert_new _ hs.unfiled, hnew]
    congr 1
    apply total_congr
    intro c b hb
    rw [addConnection_item_of_ne p _ (hs.allocated b (hs.pooled_of_lookup hb)).1.ne]
  refine ⟨?_, ?_, ?_⟩
  · intro state hstate
    have hold := he.connections state hstate
    rw [hcount, hmetrics]
    rcases hstate with rfl | rfl
    · simpa [PoolMetrics.connections] using hold
    · simp only [PoolMetrics.connections, if_true] at hold ⊢
      omega
  · exact he.pendingDials
  · exact he.sessionsRouted

/-- Where a removal does its counting. -/
theorem removeLocked_counts {r} (hpooled : p.Pooled r) : (p.removeLocked r).metrics =
        (((p.detachLocked r).recordConnectionRemovalLocked r).unrouteLocked r
          (p.item r).sessions).metrics ∧ (p.removeLocked r).routes =
        (((p.detachLocked r).recordConnectionRemovalLocked r).unrouteLocked r
          (p.item r).sessions).routes := by
  have hfiled : ¬ p.connections.lookup (p.item r).conn ≠ some r := not_not.mpr hpooled
  rw [removeLocked, if_neg hfiled]
  exact ⟨rfl, rfl⟩

theorem removeLocked_exact (hs : Shape none p) (he : p.Exact) {r}
    (hpooled : p.Pooled r) : (p.removeLocked r).Exact := by
  have hremoved := removeLocked_removed hs hpooled
  obtain ⟨hmetrics, hroutes⟩ := removeLocked_counts hpooled
  obtain ⟨hgauge, hdials, hbalance⟩ := unrouteLocked_metrics
    ((p.detachLocked r).recordConnectionRemovalLocked r) r (p.item r).sessions
  obtain ⟨hone, honeDials, honeRouted⟩ :=
    recordConnectionRemovalLocked_metrics (p.detachLocked r) r
  refine ⟨?_, ?_, ?_⟩
  · intro state hstate
    have hsplit : p.inState state = (if (p.item r).state = state then 1 else 0) +
        (p.removeLocked r).inState state := by
      rw [inState, total_eq_add_erase _ hpooled, inState, hremoved.connections]
      congr 1
      apply total_congr
      intro c b hb
      obtain ⟨hc, hold⟩ := lookup_erase_eq_some.mp hb
      rw [hremoved.other b (hs.item_ne hc hold)]
    have hold := he.connections state hstate
    have hdetached : (p.detachLocked r).metrics.connections state =
        p.metrics.connections state := rfl
    have hitem : ((p.detachLocked r).item r).state = (p.item r).state := rfl
    rw [hmetrics, hgauge, hone state hstate, hdetached, hitem, hold, hsplit]
    split_ifs <;> omega
  · rw [hmetrics, hdials, honeDials, (removeLocked_sameDials p r).pendingDials]
    exact he.pendingDials
  · rw [honeRouted] at hbalance
    have hold : (p.detachLocked r).metrics.sessionsRouted = p.routes.keys.length :=
      he.sessionsRouted
    have hsame : ((p.detachLocked r).recordConnectionRemovalLocked r).routes = p.routes := rfl
    rw [hold, hsame] at hbalance
    rw [hmetrics, hroutes]
    omega

theorem clearLocked_exact (hs : Shape none p) (he : p.Exact) : p.clearLocked.Exact := by
  have hnodup : (p.connections.entries.map snd).Nodup := by
    apply List.Nodup.map_on _ p.connections.nodupKeys.nodup
    intro first hfirst second hsecond heq
    have hconn := hs.filed first.1 first.2 (AList.mem_lookup_iff.mpr hfirst)
    rw [heq, hs.filed second.1 second.2 (AList.mem_lookup_iff.mpr hsecond)] at hconn
    exact Sigma.ext hconn.symm (heq_of_eq heq)
  obtain ⟨hgauge, hdials, hrouted⟩ := recordRemovals_metrics (p := p) hnodup
  refine ⟨?_, ?_, ?_⟩
  · intro state hstate
    have hempty : p.clearLocked.inState state = 0 := rfl
    have hsum : p.inState state = ((p.connections.entries.map snd).map
        fun r => if (p.item r).state = state then 1 else 0).sum := by
      rw [map_map]
      rfl
    have hcleared : p.clearLocked.metrics.connections state =
        (p.recordRemovals (p.connections.entries.map snd)).metrics.connections state := by
      rcases hstate with rfl | rfl <;> rfl
    rw [hempty, hcleared, hgauge state hstate, he.connections state hstate, hsum]
    omega
  · have hcleared : p.clearLocked.metrics.pendingDials =
        (p.recordRemovals (p.connections.entries.map snd)).metrics.pendingDials := rfl
    rw [hcleared, hdials, (clearLocked_sameDials p).pendingDials]
    exact he.pendingDials
  · have hcleared : p.clearLocked.metrics.sessionsRouted =
        (p.recordRemovals (p.connections.entries.map snd)).metrics.sessionsRouted -
          p.routes.keys.length := rfl
    have hempty : p.clearLocked.routes.keys.length = 0 := rfl
    rw [hcleared, hrouted, he.sessionsRouted, hempty]
    omega

theorem Change.exact {p q : ConnectionPool Key} (hp : p.Invariant) (he : p.Exact)
    (hchange : Change p q) : q.Exact := by
  cases hchange with
  | grow hgrowth =>
    cases hgrowth with
    | reserve => exact he.countDials 1
    | finishDial => exact he.countDials (-1)
    | addConnection =>
      exact addConnection_exact (finishDial_invariant hp).shape (he.countDials (-1))
    | attach key r _ hunrouted => exact refreshLocked_exact (recordRoute_exact he hunrouted r) r
    | recordState r state hpooled => exact recordState_exact hp.shape he hpooled state
    | refresh r => exact refreshLocked_exact he r
    | _ =>
      exact he.congr rfl (fun _ => rfl) rfl rfl rfl
  | release key r now hrouted =>
    exact markIdle_exact (refreshLocked_exact (release_exact he hrouted) r) r now
  | remove r hpooled => exact removeLocked_exact hp.shape he hpooled
  | clear => exact clearLocked_exact hp.shape he

/-! ## Shutdown -/

/-- What a finished `Shutdown` leaves. -/
structure Cleared (p : ConnectionPool Key) : Prop where
  closed : p.closed = true
  connections : p.connections = ∅
  routes : p.routes = ∅

omit [DecidableEq Key] in
theorem Cleared.not_pooled (hc : p.Cleared) (r : ItemRef) : ¬ p.Pooled r := by
  intro hpooled
  rw [Pooled, hc.connections] at hpooled
  cases hpooled

/-- Nothing is added to a pool that was shut down. -/
theorem Change.cleared {p q : ConnectionPool Key} (hp : p.Invariant) (hc : p.Cleared)
    (hchange : Change p q) : q.Cleared := by
  have hclosed := hchange.settings.2.2.trans hc.closed
  cases hchange with
  | grow hgrowth =>
    cases hgrowth with
    | addConnection hopen =>
      rw [hc.closed] at hopen
      cases hopen
    | attach key r _ _ hselect =>
      exact absurd (selectLocked_spec hp.shape hp.cached hselect).1 (hc.not_pooled r)
    | recordState r _ hpooled | refresh r hpooled => exact absurd hpooled (hc.not_pooled r)
    | _ =>
      exact ⟨hclosed, hc.connections, hc.routes⟩
  | release key r now hrouted =>
    rw [hc.routes] at hrouted
    cases hrouted
  | remove r hpooled => exact absurd hpooled (hc.not_pooled r)
  | clear => exact ⟨hclosed, rfl, rfl⟩

end ConnectionPool

namespace PoolSystem

variable [DecidableEq Key]

/-- The closed flag is set before the pool is cleared. -/
structure Closes (s : PoolSystem Key) : Prop where
  closing : s.closing = true → s.pool.closed = true
  cleared : s.pool.closed = true → s.closing = false → s.pool.Cleared

variable {s s' : PoolSystem Key}

theorem step_closing {event} (hstep : s.step event = some s') :
    s'.closing = s.closing ∨ event = .shutdown ∨ event = .clear := by
  cases steps_of_step hstep with
  | shutdown => exact .inr (.inl rfl)
  | clear => exact .inr (.inr rfl)
  | _ => exact .inl rfl

theorem step_closes {event} (hp : s.pool.Invariant) (hc : s.Closes)
    (hstep : s.step event = some s') : s'.Closes := by
  by_cases hshutdown : event = .shutdown
  · subst hshutdown
    simp only [step] at hstep
    split at hstep
    · cases hstep
      exact hc
    · cases hstep
      exact ⟨fun _ => rfl, fun _ h => Bool.noConfusion h⟩
  · have hchanges : Changes s.pool s'.pool :=
      ((step_effect hp hstep).changes hp).resolve_right fun h => hshutdown h.1
    have hclosed := (Changes.settings hchanges).2.2
    rcases step_closing hstep with hsame | hshut | rfl
    · refine ⟨fun h => hclosed.trans (hc.closing (hsame ▸ h)), fun h hopen => ?_⟩
      exact Changes.preserves Cleared
        (fun _ _ hp hcleared hchange => hchange.cleared hp hcleared) hp
        (hc.cleared (hclosed ▸ h) (hsame ▸ hopen)) hchanges
    · exact absurd hshut hshutdown
    · simp only [step] at hstep
      split at hstep
      · cases hstep
        exact ⟨Bool.noConfusion, fun h _ => ⟨h, rfl, rfl⟩⟩
      · cases hstep

/-- The facts about one pool that its gauges rest on. -/
structure Sound (s : PoolSystem Key) : Prop where
  invariant : s.pool.Invariant
  exact : s.pool.Exact
  dials : s.pool.pendingDials = s.dials
  closes : s.Closes

theorem initial_sound (config : ConnectionPoolConfig) :
    (initial config : PoolSystem Key).Sound where
  invariant := initial_pool_invariant config
  exact := by
    refine ⟨?_, rfl, rfl⟩
    rintro state (rfl | rfl) <;> rfl
  dials := rfl
  closes := ⟨nofun, nofun⟩

theorem step_sound {event} (hs : s.Sound) (hstep : s.step event = some s') : s'.Sound where
  invariant := step_pool_invariant hs.invariant hstep
  exact := step_pool_property Exact
    (fun _ _ hp he hchange => hchange.exact hp he)
    (fun _ he => he.congr rfl (fun _ => rfl) rfl rfl rfl) hs.invariant hs.exact hstep
  dials := step_dials hs.invariant hs.dials hstep
  closes := step_closes hs.invariant hs.closes hstep

/-- `Shutdown` has returned and no dial is outstanding. -/
structure Down (s : PoolSystem Key) : Prop where
  closed : s.pool.closed = true
  cleared : s.closing = false
  settled : s.dials = 0

/-- A connection changes its state or calls the pool back. -/
def Event.IsCallback : Event Key → Prop
  | .onOpen _ | .onClose _ | .close _ | .onConnectionOpen _ _ | .onConnectionClose _ _ => True
  | _ => False

theorem step_down {event : Event Key} (hp : s.pool.Invariant)
    (hdown : s.Down) (hcallback : event.IsCallback) (hstep : s.step event = some s') : s'.Down := by
  have hchanges : Changes s.pool s'.pool := by
    rcases (step_effect hp hstep).changes hp with hchanges | ⟨rfl, -⟩
    · exact hchanges
    · cases hcallback
  have hsame : s'.closing = s.closing ∧ s'.dials = s.dials := by
    cases steps_of_step hstep with
    | idle | setConnState | sync => exact ⟨rfl, rfl⟩
    | _ => cases hcallback
  exact ⟨(Changes.settings hchanges).2.2.trans hdown.closed,
    hsame.1.trans hdown.cleared, hsame.2.trans hdown.settled⟩

end PoolSystem

/-! ## Several pools -/

/-- Add to the shared counters what a pool has added to its own contribution. -/
def PoolMetrics.accumulate (m before after : PoolMetrics) : PoolMetrics where
  connectionsActive :=
    m.connectionsActive + (after.connectionsActive - before.connectionsActive)
  connectionsConnecting :=
    m.connectionsConnecting + (after.connectionsConnecting - before.connectionsConnecting)
  pendingDials := m.pendingDials + (after.pendingDials - before.pendingDials)
  sessionsRouted := m.sessionsRouted + (after.sessionsRouted - before.sessionsRouted)
  reconnects := m.reconnects + (after.reconnects - before.reconnects)

structure Fleet (Machine Key : Type) where
  pools : Machine → PoolSystem Key
  gauges : PoolMetrics

namespace Fleet

variable {Machine : Type}

def initial (configs : Machine → ConnectionPoolConfig) : Fleet Machine Key where
  pools := fun i => .initial (configs i)
  gauges := ⟨0, 0, 0, 0, 0⟩

variable [Fintype Machine] [DecidableEq Key]

/-- The accumulated counters are sums over the pools. -/
structure Counted (fleet : Fleet Machine Key) : Prop where
  connectionsActive : fleet.gauges.connectionsActive =
    ∑ i, ((fleet.pools i).pool.inState .active : Int)
  connectionsConnecting : fleet.gauges.connectionsConnecting =
    ∑ i, ((fleet.pools i).pool.inState .connecting : Int)
  pendingDials : fleet.gauges.pendingDials = ∑ i, (fleet.pools i).pool.pendingDials
  sessionsRouted : fleet.gauges.sessionsRouted =
    ∑ i, ((fleet.pools i).pool.routes.keys.length : Int)

/-- Every pool is sound, and the shared counters are the sums of the pools'
contributions. -/
structure Sound (fleet : Fleet Machine Key) : Prop where
  pools : ∀ i, (fleet.pools i).Sound
  connectionsActive : fleet.gauges.connectionsActive =
    ∑ i, (fleet.pools i).pool.metrics.connectionsActive
  connectionsConnecting : fleet.gauges.connectionsConnecting =
    ∑ i, (fleet.pools i).pool.metrics.connectionsConnecting
  pendingDials : fleet.gauges.pendingDials = ∑ i, (fleet.pools i).pool.metrics.pendingDials
  sessionsRouted : fleet.gauges.sessionsRouted =
    ∑ i, (fleet.pools i).pool.metrics.sessionsRouted

theorem initial_sound (configs : Machine → ConnectionPoolConfig) :
    (initial configs : Fleet Machine Key).Sound where
  pools i := PoolSystem.initial_sound (configs i)
  connectionsActive := Finset.sum_const_zero.symm
  connectionsConnecting := Finset.sum_const_zero.symm
  pendingDials := Finset.sum_const_zero.symm
  sessionsRouted := Finset.sum_const_zero.symm

theorem Sound.counted {fleet : Fleet Machine Key} (hf : fleet.Sound) : fleet.Counted where
  connectionsActive := by
    rw [hf.connectionsActive]
    exact Finset.sum_congr rfl fun i _ => (hf.pools i).exact.connections .active (.inl rfl)
  connectionsConnecting := by
    rw [hf.connectionsConnecting]
    exact Finset.sum_congr rfl fun i _ => (hf.pools i).exact.connections .connecting (.inr rfl)
  pendingDials := by
    rw [hf.pendingDials]
    exact Finset.sum_congr rfl fun i _ => (hf.pools i).exact.pendingDials
  sessionsRouted := by
    rw [hf.sessionsRouted]
    exact Finset.sum_congr rfl fun i _ => (hf.pools i).exact.sessionsRouted

/-- The gauges that are back to zero when no pool holds anything. -/
structure Zero (m : PoolMetrics) : Prop where
  connectionsActive : m.connectionsActive = 0
  connectionsConnecting : m.connectionsConnecting = 0
  pendingDials : m.pendingDials = 0
  sessionsRouted : m.sessionsRouted = 0

theorem Sound.zero {fleet : Fleet Machine Key} (hf : fleet.Sound)
    (hdown : ∀ i, (fleet.pools i).Down) : Zero fleet.gauges := by
  have hcleared : ∀ i, (fleet.pools i).pool.Cleared :=
    fun i => (hf.pools i).closes.cleared (hdown i).closed (hdown i).cleared
  have hcounted := hf.counted
  refine ⟨?_, ?_, ?_, ?_⟩
  · rw [hcounted.connectionsActive]
    apply Finset.sum_eq_zero
    intro i _
    simp [inState, (hcleared i).connections]
  · rw [hcounted.connectionsConnecting]
    apply Finset.sum_eq_zero
    intro i _
    simp [inState, (hcleared i).connections]
  · rw [hcounted.pendingDials]
    apply Finset.sum_eq_zero
    intro i _
    rw [(hf.pools i).dials, (hdown i).settled]
    rfl
  · rw [hcounted.sessionsRouted]
    apply Finset.sum_eq_zero
    intro i _
    simp [(hcleared i).routes]

variable [DecidableEq Machine]

omit [Fintype Machine] in
def step (fleet : Fleet Machine Key) (label : Machine × PoolSystem.Event Key) :
    Option (Fleet Machine Key) :=
  ((fleet.pools label.1).step label.2).map fun s =>
    { pools := update fleet.pools label.1 s
      gauges := fleet.gauges.accumulate (fleet.pools label.1).pool.metrics s.pool.metrics }

omit [Fintype Machine] in
theorem step_eq_some {fleet fleet' : Fleet Machine Key} {label}
    (hstep : fleet.step label = some fleet') :
    ∃ s, (fleet.pools label.1).step label.2 = some s ∧ fleet' =
      { pools := update fleet.pools label.1 s
        gauges := fleet.gauges.accumulate (fleet.pools label.1).pool.metrics s.pool.metrics } := by
  obtain ⟨s, hs, heq⟩ := Option.map_eq_some_iff.mp hstep
  exact ⟨s, hs, heq.symm⟩

omit [DecidableEq Key] in
/-- Replacing one pool changes a sum by the difference of its contributions. -/
theorem sum_update (field : PoolMetrics → Int) (pools : Machine → PoolSystem Key) (i : Machine)
    (s : PoolSystem Key) :
    ∑ j, field (update pools i s j).pool.metrics =
      ∑ j, field (pools j).pool.metrics +
        (field s.pool.metrics - field (pools i).pool.metrics) := by
  have hrest : ∑ j ∈ Finset.univ.erase i, field (update pools i s j).pool.metrics =
      ∑ j ∈ Finset.univ.erase i, field (pools j).pool.metrics := by
    apply Finset.sum_congr rfl
    intro j hj
    rw [update_of_ne (Finset.ne_of_mem_erase hj)]
  rw [← Finset.add_sum_erase _ _ (Finset.mem_univ i), hrest,
    ← Finset.add_sum_erase _ (fun j => field (pools j).pool.metrics) (Finset.mem_univ i),
    update_self]
  omega

theorem step_sound {fleet fleet' : Fleet Machine Key} {label} (hf : fleet.Sound)
    (hstep : fleet.step label = some fleet') : fleet'.Sound := by
  obtain ⟨s, hs, rfl⟩ := step_eq_some hstep
  refine ⟨?_, ?_, ?_, ?_, ?_⟩
  · intro i
    by_cases hi : i = label.1
    · subst hi
      simpa using PoolSystem.step_sound (hf.pools label.1) hs
    · simpa [hi] using hf.pools i
  · simp only [accumulate, hf.connectionsActive, sum_update (·.connectionsActive)]
  · simp only [accumulate, hf.connectionsConnecting, sum_update (·.connectionsConnecting)]
  · simp only [accumulate, hf.pendingDials, sum_update (·.pendingDials)]
  · simp only [accumulate, hf.sessionsRouted, sum_update (·.sessionsRouted)]

theorem step_down {fleet fleet' : Fleet Machine Key} {label} (hf : fleet.Sound)
    (hdown : ∀ i, (fleet.pools i).Down) (hcallback : label.2.IsCallback)
    (hstep : fleet.step label = some fleet') (i : Machine) : (fleet'.pools i).Down := by
  obtain ⟨s, hs, rfl⟩ := step_eq_some hstep
  by_cases hi : i = label.1
  · subst hi
    simpa using PoolSystem.step_down (hf.pools label.1).invariant (hdown label.1) hcallback hs
  · simpa [hi] using hdown i

/-- In every state of every run the counters are what they count, summed over the
pools. Once every pool is shut down and its dials have settled they are zero,
whatever callbacks of the connections still arrive. -/
theorem run_gauges (configs : Machine → ConnectionPoolConfig)
    (labels : List (Machine × PoolSystem.Event Key)) {fleet : Fleet Machine Key}
    (hrun : run step (initial configs) labels = some fleet) :
    fleet.Counted ∧
      ((∀ i, (fleet.pools i).Down) → ∀ (later : List (Machine × PoolSystem.Event Key))
        (final : Fleet Machine Key), (∀ label ∈ later, label.2.IsCallback) →
        run step fleet later = some final → Zero final.gauges) := by
  have hsound : fleet.Sound := run_invariant Sound
    step_sound (initial_sound configs) hrun
  refine ⟨hsound.counted, ?_⟩
  intro hdown later final hcallbacks hlater
  have hboth : final.Sound ∧ ∀ i, (final.pools i).Down := by
    have hmeets : Meets step (fun _ label => label.2.IsCallback) fleet later :=
      meets_of_forall_mem (fun label hlabel _ => hcallbacks label hlabel) fleet
    refine run_invariant_of_meets
      (fun fleet : Fleet Machine Key => fleet.Sound ∧ ∀ i, (fleet.pools i).Down) ?_
      ⟨hsound, hdown⟩ hmeets hlater
    rintro before label after ⟨hf, hbefore⟩ hcallback hstep
    exact ⟨step_sound hf hstep, step_down hf hbefore hcallback hstep⟩
  exact hboth.1.zero hboth.2

/-- Two pools: a routed key, a reconnect and a failed dial before both are shut
down, and a connection that reports its close afterwards. -/
def shutdownLabels : List (Bool × PoolSystem.Event Nat) :=
  [(true, .startMinConnections), (false, .startMinConnections), (true, .bind 7),
    (true, .dialed [7]), (true, .onOpen 0), (true, .onConnectionOpen 0 [7]), (true, .tryBind 8),
    (true, .onClose 0), (true, .onConnectionClose 0 [8, 7]), (false, .bind 9),
    (false, .shutdown), (false, .dialFailed), (false, .clear), (true, .shutdown),
    (true, .dialed [8, 7]), (true, .clear), (true, .close 0)]

theorem run_gauges_shutdownLabels : ∃ fleet final : Fleet Bool Nat,
    run step (initial fun _ => ⟨1, 1, 3, 2, 10, 1⟩) shutdownLabels = some fleet ∧
      run step fleet [(true, .onConnectionClose 0 [])] = some final ∧
      fleet.Counted ∧ Zero final.gauges := by
  obtain ⟨fleet, hrun, hdown, hlater⟩ := exists_of_decide
    (run step (initial fun _ => ⟨1, 1, 3, 2, 10, 1⟩) shutdownLabels)
    (fun fleet : Fleet Bool Nat => (∀ i, (fleet.pools i).pool.closed = true ∧
        (fleet.pools i).closing = false ∧ (fleet.pools i).dials = 0) ∧
      (run step fleet [(true, .onConnectionClose 0 [])]).isSome) (by decide +kernel)
  obtain ⟨final, hfinal⟩ := Option.isSome_iff_exists.mp hlater
  obtain ⟨hcounted, hzero⟩ := run_gauges _ _ hrun
  refine ⟨fleet, final, hrun, hfinal, hcounted, hzero ?_ _ final ?_ hfinal⟩
  · intro i
    obtain ⟨hclosed, hcleared, hsettled⟩ := hdown i
    exact ⟨hclosed, hcleared, hsettled⟩
  · intro label hlabel
    rw [mem_singleton.mp hlabel]
    trivial

end Fleet

end Voce.Gateway
