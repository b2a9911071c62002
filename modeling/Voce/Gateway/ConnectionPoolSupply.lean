import Voce.Gateway.ConnectionPoolWaiting

/-! # Connections on their way to waiting keys

A dial is reserved when a key is bound and has to wait. No dial is reserved for the
keys that still wait when a dial has failed, when a new connection is too small for
all of them, and when a connection is removed.
-/

namespace Voce.Gateway

open Protocol ConnectionPool Transition Option

variable {Key : Type} [DecidableEq Key]

namespace ConnectionPool

/-- The given number of connections reaches the limit. -/
def AtLimit (p : ConnectionPool Key) (size : Int) : Prop :=
  0 < p.maxConns ∧ p.maxConns ≤ size

instance (p : ConnectionPool Key) (size : Int) : Decidable (p.AtLimit size) :=
  inferInstanceAs (Decidable (_ ∧ _))

/-- If a key waits, a dial is pending or the limit of connections is reached. -/
def Provided (p : ConnectionPool Key) : Prop :=
  ∀ key ∈ p.bindings, p.routes.lookup key = none →
    0 < p.pendingDials ∨ p.AtLimit p.connections.keys.length

variable {p : ConnectionPool Key}

theorem provided_iff : p.Provided ↔
    p.waiting = 0 ∨ 0 < p.pendingDials ∨ p.AtLimit p.connections.keys.length := by
  rw [waiting_eq_zero_iff]
  constructor
  · intro hprovided
    by_cases hsupply : 0 < p.pendingDials ∨ p.AtLimit p.connections.keys.length
    · exact .inr hsupply
    · exact .inl fun key hbound hunrouted => hsupply (hprovided key hbound hunrouted)
  · rintro (hnone | hsupply) key hbound hunrouted
    · exact absurd hunrouted (hnone key hbound)
    · exact hsupply

theorem Provided.mono {p q : ConnectionPool Key} (hprovided : p.Provided)
    (hwaiting : q.waiting ≤ p.waiting) (hpending : p.pendingDials ≤ q.pendingDials)
    (hmax : q.maxConns = p.maxConns) (hconnections : q.connections = p.connections) :
    q.Provided := by
  rw [provided_iff, AtLimit] at hprovided ⊢
  rw [hmax, hconnections]
  omega

/-- A key that has to wait finds a dial pending, reserves one or meets the limit. -/
theorem reserveDialLocked_provided (hopen : p.closed = false) (hnonneg : 0 ≤ p.pendingDials) :
    p.reserveDialLocked.1.Provided := by
  rw [provided_iff]
  right
  unfold reserveDialLocked
  split
  next hblocked =>
    rcases hblocked with hpending | hclosed | ⟨hlimit, hsize⟩
    · exact .inl hpending
    · simp [hopen] at hclosed
    · by_cases hpending : 0 < p.pendingDials
      · exact .inl hpending
      · right
        refine ⟨hlimit, ?_⟩
        change p.maxConns ≤ p.connections.keys.length
        omega
  · left
    change 0 < p.pendingDials + 1
    omega

theorem bind_provided (hp : p.Invariant) (hs : p.Settled) (hprovided : p.Provided)
    (hopen : p.closed = false) (hnonneg : 0 ≤ p.pendingDials) (key : Key) :
    (p.bind key).1.Provided := by
  unfold bind
  split
  · exact hprovided
  next hunbound =>
    have hnone := AList.lookup_eq_none.mpr hunbound
    dsimp only
    split
    next r hselect =>
      have hattached := attachLocked_settled hp hs hnone hselect none
      rw [provided_iff]
      left
      split
      · obtain ⟨hroutes, hbindings, -⟩ := reserveScaleLocked_frame
          ({ p with bindings := p.bindings.insert key none }.attachLocked key r)
        exact (waiting_congr hbindings hroutes).trans hattached
      · exact hattached
    · exact reserveDialLocked_provided hopen hnonneg

theorem tryBind_provided (hp : p.Invariant) (hs : p.Settled) (hprovided : p.Provided) (key : Key) :
    (p.tryBind key).1.Provided := by
  unfold tryBind
  split
  · exact hprovided
  next hunbound =>
    split
    · obtain ⟨hroutes, hbindings, hconnections, -⟩ := p.reserveDialLocked_frame
      have hpending := p.reserveDialLocked_pendingDials
      exact hprovided.mono (waiting_congr hbindings hroutes).le (by rw [hpending]; omega)
        (Growths.changes p.reserveDialLocked_growths).settings.2.1 hconnections
    next r hselect =>
      split
      · exact hprovided
      · obtain ⟨hroutes, hbindings, -⟩ := reserveScaleLocked_frame
          ({ p with bindings := p.bindings.insert key (some (p.item r).conn) }.attachLocked key r)
        rw [provided_iff]
        left
        exact (waiting_congr hbindings hroutes).trans
          (attachLocked_settled hp hs hunbound hselect _)

variable {order : List Key}

theorem unbind_provided (hp : p.Invariant) (hprovided : p.Provided) {key} (now : Int)
    (horder : order.Perm (p.bindings.erase key).keys) : (p.unbind key now order).Provided := by
  have hsame := unbind_sameDials hp.shape key now order
  cases hroute : p.routes.lookup key with
  | none =>
    rw [unbind_unrouted hroute] at hsame ⊢
    exact hprovided.mono (p.eraseBinding_waiting_le key) le_rfl rfl rfl
  | some r =>
    rw [unbind_routed hp.shape hroute] at hsame ⊢
    have hmem : ∀ k, k ∈ order ↔ k ∈ (p.released key r now).bindings := by
      intro k
      rw [released_bindings]
      exact horder.mem_iff
    have hcounts := assignPendingLocked_counts ((Change.release key r now hroute).invariant hp)
      (fun k hk => (hmem k).mp hk) (fun k hk _ => (hmem k).mpr hk)
    have hwaiting := released_waiting hroute now
    refine hprovided.mono (by omega) hsame.pendingDials.ge hsame.maxConns ?_
    rw [assignPendingLocked_connections, released_connections]

theorem reserveMinLocked_provided (hprovided : p.Provided) (rounds : Nat) :
    (p.reserveMinLocked rounds).1.Provided := by
  induction rounds generalizing p with
  | zero => exact hprovided
  | succ rounds ih =>
    unfold reserveMinLocked
    split
    · apply ih
      refine hprovided.mono (waiting_congr rfl rfl).le ?_ rfl rfl
      change p.pendingDials ≤ p.pendingDials + 1
      omega
    · exact hprovided

/-! ## The events that may leave keys without a dial -/

theorem startDialFailed_provided_iff : p.startDialFailed.Provided ↔
    p.waiting = 0 ∨ 1 < p.pendingDials ∨ p.AtLimit p.connections.keys.length := by
  rw [provided_iff]
  change (p.waiting = 0 ∨ 0 < p.pendingDials - 1 ∨ p.AtLimit p.connections.keys.length) ↔ _
  rw [AtLimit]
  omega

/-- A new connection takes as many of the waiting keys as it may carry. -/
theorem startDial_provided_iff (hp : p.Invariant) (hs : p.Settled) (hopen : p.closed = false)
    (horder : order.Perm p.bindings.keys) :
    (p.startDial .connecting order).Provided ↔ (p.waiting : Int) ≤ p.maxSessions ∨
      1 < p.pendingDials ∨ p.AtLimit (p.connections.keys.length + 1) := by
  have hadded := addConnection_invariant (finishDial_invariant hp) .connecting
  obtain ⟨hbindings, hroutes, hdials, hmaxConns⟩ :
      (p.finishDial.addConnection .connecting).bindings = p.bindings ∧
      (p.finishDial.addConnection .connecting).routes = p.routes ∧
      (p.finishDial.addConnection .connecting).pendingDials = p.pendingDials - 1 ∧
      (p.finishDial.addConnection .connecting).maxConns = p.maxConns := by
    simp [finishDial]
  have hmem : ∀ k, k ∈ order ↔ k ∈ (p.finishDial.addConnection .connecting).bindings := by
    intro k
    exact horder.mem_iff
  have hcounts := assignPendingLocked_counts hadded (fun k hk => (hmem k).mp hk)
    (fun k hk _ => (hmem k).mpr hk)
  have hsame := (p.finishDial.addConnection .connecting).assignPendingLocked_sameDials order
  have hpending := hsame.pendingDials.trans hdials
  have hmax := hsame.maxConns.trans hmaxConns
  have hroom : (p.finishDial.addConnection .connecting).room = p.room + p.maxSessions.toNat :=
    addConnection_room (finishDial_invariant hp)
  have hwaiting := waiting_congr hbindings hroutes
  have hsize := addConnection_size (finishDial_invariant hp).shape .connecting
  change _ = p.connections.keys.length + 1 at hsize
  have hpos := hp.positive
  have hsettled : p.waiting = 0 ∨ p.room = 0 := by
    rw [room_eq_zero_iff hp]
    exact hs
  have hunfold : p.startDial .connecting order =
      (p.finishDial.addConnection .connecting).assignPendingLocked order := by
    rw [startDial, if_neg]
    simpa [finishDial] using hopen
  rw [hunfold, provided_iff, AtLimit, AtLimit, hpending, hmax, assignPendingLocked_connections,
    hsize, hcounts.1, hwaiting, hroom]
  omega

/-- The sessions of a removed connection and the waiting keys take what the other
connections have left. -/
theorem removed_provided_iff (hp : p.Invariant) {r} (hr : p.Pooled r)
    (horder : order.Perm p.bindings.keys) :
    (((p.recorded r .closed).removeLocked r).assignPendingLocked order).Provided ↔
      (p.waiting : Int) + (p.item r).load ≤ p.room - p.freeSlots r ∨ 0 < p.pendingDials ∨
        p.AtLimit (p.connections.keys.length - 1) := by
  have hrecorded := (recorded_growths hr .closed).invariant hp
  have hpooled := (p.recorded_pooled r .closed r).mpr hr
  have hmem : ∀ k, k ∈ order ↔ k ∈ ((p.recorded r .closed).removeLocked r).bindings := by
    intro k
    rw [removed_mem_bindings hp hr]
    exact horder.mem_iff
  have hcounts := assignPendingLocked_counts (removeLocked_invariant hrecorded hpooled)
    (fun k hk => (hmem k).mp hk) (fun k hk _ => (hmem k).mpr hk)
  have hsame := ((p.recorded_sameDials r .closed).trans
    ((p.recorded r .closed).removeLocked_sameDials r)).trans
    (((p.recorded r .closed).removeLocked r).assignPendingLocked_sameDials order)
  obtain ⟨hconnections, hroutes, hbindings, -, hconnState, hmaxSessions, -⟩ :=
    p.recorded_frame r .closed
  have hload : ((p.recorded r .closed).item r).load = (p.item r).load :=
    recorded_congr (·.load) (fun _ _ => rfl) p r .closed r
  have hfree : ∀ b, (p.recorded r .closed).freeSlots b = p.freeSlots b := by
    intro b
    simp only [freeSlots, hconnState, hmaxSessions,
      recorded_congr (·.priority) (fun _ _ => rfl) p r .closed b,
      recorded_congr (·.conn) (fun _ _ => rfl) p r .closed b,
      recorded_congr (·.load) (fun _ _ => rfl) p r .closed b]
  have hwaiting := removeLocked_waiting hrecorded.shape hpooled
  have hroom := removeLocked_room hrecorded.shape hpooled
  have hsize := removeLocked_size hrecorded.shape hpooled
  rw [hload, waiting_congr hbindings hroutes] at hwaiting
  rw [room_congr hconnections hfree, hfree] at hroom
  rw [hconnections] at hsize
  rw [provided_iff, AtLimit, AtLimit, hsame.pendingDials, hsame.maxConns,
    assignPendingLocked_connections, hcounts.1]
  omega

theorem cleanupIdle_provided_iff (hp : p.Invariant) (now : Int) {order}
    (horder : order.Perm p.connections.keys) :
    (p.cleanupIdle now order).1.Provided ↔ p.waiting = 0 ∨ 0 < p.pendingDials ∨
      p.AtLimit (max (min (p.connections.keys.length : Int) p.minConns)
        (p.connections.keys.length - p.reclaimable now p.connections.keys)) := by
  have hnodup : order.Nodup := horder.nodup_iff.mpr p.connections.keys_nodup
  have hcount : p.reclaimable now order = p.reclaimable now p.connections.keys :=
    horder.countP_eq _
  have hsame := cleanupIdle_sameDials hp now order
  rw [provided_iff, cleanupIdle_waiting hp, AtLimit, AtLimit, hsame.pendingDials, hsame.maxConns,
    cleanupIdle_size hp hnodup, hcount]

end ConnectionPool

namespace PoolSystem

/-- The condition under which an event leaves every waiting key of an open pool with a
dial pending or the limit reached. Each line counts the keys that still wait, the dials
that are still pending and the connections that are left after the event. -/
def Supplies (s : PoolSystem Key) : Event Key → Prop
  | .dialFailed => s.pool.closed = true ∨ s.pool.waiting = 0 ∨ 1 < s.pool.pendingDials ∨
      s.pool.AtLimit s.pool.connections.keys.length
  | .dialed _ => s.pool.closed = true ∨ (s.pool.waiting : Int) ≤ s.pool.maxSessions ∨
      1 < s.pool.pendingDials ∨ s.pool.AtLimit (s.pool.connections.keys.length + 1)
  | .onConnectionOpen conn _ | .onConnectionClose conn _ =>
    s.pool.closed = true ∨ ∀ r, s.pool.connections.lookup conn = some r →
      s.pool.connState conn = .closed →
      (s.pool.waiting : Int) + (s.pool.item r).load ≤ s.pool.room - s.pool.freeSlots r ∨
        0 < s.pool.pendingDials ∨ s.pool.AtLimit (s.pool.connections.keys.length - 1)
  | .cleanupIdle now _ => s.pool.closed = true ∨ s.pool.waiting = 0 ∨ 0 < s.pool.pendingDials ∨
      s.pool.AtLimit (max (min (s.pool.connections.keys.length : Int) s.pool.minConns)
        (s.pool.connections.keys.length -
          s.pool.reclaimable now s.pool.connections.keys))
  | _ => True

instance (s : PoolSystem Key) : (event : Event Key) → Decidable (Supplies s event) := by
  intro event
  unfold Supplies
  split <;> infer_instance

variable {s s' : PoolSystem Key} {event : Event Key}

theorem step_open (hp : s.pool.Invariant) (hopen : s'.pool.closed = false)
    (hstep : s.step event = some s') : s.pool.closed = false := by
  rcases (step_effect hp hstep).changes hp with hchanges | ⟨-, hclosed⟩
  · exact (Changes.settings hchanges).2.2.symm.trans hopen
  · rw [hclosed] at hopen
    cases hopen

theorem syncConnectionState_provided_iff (hp : s.pool.Invariant)
    (hprovided : s.pool.Provided) (conn : ConnRef) {order : List Key}
    (horder : order.Perm s.pool.bindings.keys) :
    (s.pool.syncConnectionState conn order).Provided ↔
      ∀ r, s.pool.connections.lookup conn = some r → s.pool.connState conn = .closed →
        (s.pool.waiting : Int) + (s.pool.item r).load ≤ s.pool.room - s.pool.freeSlots r ∨
          0 < s.pool.pendingDials ∨ s.pool.AtLimit (s.pool.connections.keys.length - 1) := by
  cases hr : s.pool.connections.lookup conn with
  | none => simpa [syncConnectionState, hr] using hprovided
  | some r =>
    have hpooled := hp.shape.pooled_of_lookup hr
    rw [syncConnectionState_eq hr]
    split
    next hclosed =>
      rw [removed_provided_iff hp hpooled horder]
      simp [hclosed]
    next hopen =>
      simp only [hopen, false_imp_iff, implies_true, iff_true]
      obtain ⟨hconnections, hroutes, hbindings, -, -, -, hpending⟩ :=
        s.pool.recorded_frame r (s.pool.connState conn)
      have hsame := s.pool.recorded_sameDials r (s.pool.connState conn)
      exact hprovided.mono (waiting_congr hbindings hroutes).le hpending.ge
        hsame.maxConns hconnections

theorem step_provided_iff (hs : s.Allocated)
    (hnonneg : 0 ≤ s.pool.pendingDials) (hprovided : s.pool.Provided)
    (hopen : s'.pool.closed = false) (hstep : s.step event = some s') :
    s'.pool.Provided ↔ Supplies s event := by
  obtain ⟨hp, -, hsettled⟩ := hs
  have hbefore := step_open hp hopen hstep
  cases steps_of_step hstep with
  | elapse => exact iff_of_true hprovided trivial
  | idle hevent | setConnState _ _ hevent =>
    refine iff_of_true hprovided ?_
    cases event <;> trivial
  | startMinConnections => exact iff_of_true (reserveMinLocked_provided hprovided _) trivial
  | bind key =>
    exact iff_of_true
      (bind_provided hp hsettled hprovided hbefore hnonneg key) trivial
  | tryBind key => exact iff_of_true (tryBind_provided hp hsettled hprovided key) trivial
  | unbind key order horder =>
    exact iff_of_true (unbind_provided hp hprovided s.clock horder) trivial
  | dialFailed =>
    simp only [Supplies, hbefore, Bool.false_eq_true, false_or]
    exact startDialFailed_provided_iff
  | dialed order _ horder =>
    simp only [Supplies, hbefore, Bool.false_eq_true, false_or]
    exact startDial_provided_iff hp hsettled hbefore horder
  | sync conn order hcallback horder =>
    rcases hcallback with rfl | rfl <;>
      simp only [Supplies, hbefore, Bool.false_eq_true, false_or] <;>
      exact syncConnectionState_provided_iff hp hprovided conn horder
  | cleanupIdle now order _ horder =>
    simp only [Supplies, hbefore, Bool.false_eq_true, false_or]
    exact cleanupIdle_provided_iff hp now horder
  | shutdown => cases hopen
  | clear =>
    refine iff_of_true ?_ trivial
    intro key hbound
    cases hbound

theorem supplies_of_closed {s} (hclosed : s.pool.closed = true) (event : Event Key) :
    Supplies s event := by
  cases event with
  | dialFailed | dialed | onConnectionOpen | onConnectionClose | cleanupIdle =>
    exact .inl hclosed
  | _ => trivial

/-- An event that does not meet the condition leaves an open pool whose waiting keys
have no dial pending and no limit reached. -/
theorem step_not_supplied (hs : s.Allocated) (hnonneg : 0 ≤ s.pool.pendingDials)
    (hprovided : s.pool.closed = false → s.pool.Provided) (hstep : s.step event = some s')
    (hnot : ¬ Supplies s event) : s'.pool.closed = false ∧ ¬ s'.pool.Provided := by
  have hopen : s.pool.closed = false := by
    by_contra hclosed
    exact hnot (supplies_of_closed (by simpa using hclosed) event)
  have hafter : s'.pool.closed = false := by
    rcases (step_effect hs.invariant hstep).changes hs.invariant with hchanges | ⟨rfl, -⟩
    · exact (Changes.settings hchanges).2.2.trans hopen
    · exact absurd trivial hnot
  exact ⟨hafter, fun h => hnot ((step_provided_iff hs hnonneg (hprovided hopen) hafter hstep).mp h)⟩

theorem run_provided {config events}
    (hmeets : Meets step Supplies (initial config) events)
    (hrun : run step (initial config) events = some s) (hopen : s.pool.closed = false) :
    s.pool.Provided := by
  have hall : s.Allocated ∧ s.pool.pendingDials = s.dials ∧
      (s.pool.closed = false → s.pool.Provided) := by
    refine run_invariant_of_meets (fun s => s.Allocated ∧
      s.pool.pendingDials = s.dials ∧ (s.pool.closed = false → s.pool.Provided)) ?_
      ⟨initial_allocated config, rfl, ?_⟩ hmeets hrun
    · rintro before event after ⟨hs, hdials, hprovided⟩ hsupplies hstep
      refine ⟨step_allocated hs hstep, step_dials hs.invariant hdials hstep, fun hafter => ?_⟩
      have hbefore := hprovided (step_open hs.invariant hafter hstep)
      exact (step_provided_iff hs (by omega) hbefore hafter hstep).mpr hsupplies
    · intro _ key hbound
      cases hbound
  exact hall.2.2 hopen

/-- A run meets the condition at each of its events exactly if, in every state that it
passes through while the pool is open, each waiting key has a dial pending or the limit
of connections is reached. -/
theorem run_provided_iff (config : ConnectionPoolConfig) (events : List (Event Key))
    {s : PoolSystem Key} (hrun : run step (initial config) events = some s) :
    Meets step Supplies (initial config) events ↔
      ∀ (done rest : List (Event Key)) (t : PoolSystem Key), done ++ rest = events →
        run step (initial config) done = some t → t.pool.closed = false →
        ∀ key ∈ t.pool.bindings, t.pool.routes.lookup key = none →
          0 < t.pool.pendingDials ∨
            0 < t.pool.maxConns ∧ t.pool.maxConns ≤ t.pool.connections.keys.length := by
  constructor
  · rintro hmeets done rest t rfl hdone hopen
    exact run_provided ((meets_append hdone).mp hmeets).1 hdone hopen
  · intro hprovided
    by_contra hnot
    obtain ⟨before, event, rest, middle, next, rfl, hbefore, hstep, hnot⟩ :=
      exists_of_not_meets hrun hnot
    have hdials := run_pendingDials hbefore
    obtain ⟨hopen, hleft⟩ := step_not_supplied (run_allocated hbefore) (by omega)
      (hprovided before (event :: rest) middle rfl hbefore) hstep hnot
    have hnext : run step (initial config) (before ++ [event]) = some next :=
      run_append_eq_some hbefore (by simp [run, hstep])
    exact hleft (hprovided (before ++ [event]) rest next (by simp) hnext hopen)

/-- Two connections are dialed one after the other, and the first one is lost. -/
def reboundEvents : List (Event Nat) :=
  [.bind 7, .dialed [7], .bind 8, .dialed [8, 7], .unbind 8 [7], .close 0,
    .onConnectionClose 0 [7]]

/-- The key of the lost connection moves to the other one, and no key waits. -/
theorem run_provided_iff_reboundEvents : ∃ s : PoolSystem Nat,
    run step (initial ⟨1, 1, 1, 0, 10, 1⟩) reboundEvents = some s ∧
    Meets step Supplies (initial ⟨1, 1, 1, 0, 10, 1⟩) reboundEvents ∧
    ∀ key ∈ s.pool.bindings, s.pool.routes.lookup key = none →
      0 < s.pool.pendingDials ∨
        0 < s.pool.maxConns ∧ s.pool.maxConns ≤ s.pool.connections.keys.length := by
  obtain ⟨s, hs, hopen⟩ := exists_of_decide (run step (initial ⟨1, 1, 1, 0, 10, 1⟩) reboundEvents)
    (fun s => s.pool.closed = false) (by decide +kernel)
  have hmeets : Meets step Supplies (initial ⟨1, 1, 1, 0, 10, 1⟩) reboundEvents := by
    decide +kernel
  exact ⟨s, hs, hmeets, (run_provided_iff _ _ hs).mp hmeets reboundEvents [] s (by simp) hs hopen⟩

/-- Two keys wait for connections that carry one session each. The only dial serves
one of them, and none is started for the other. -/
theorem dialed_leaves_waiting : ∃ s : PoolSystem Nat,
    run step (initial ⟨1, 1, 1, 0, 10, 1⟩) [.bind 7, .bind 8, .dialed [7, 8]] =
      some s ∧
    s.pool.closed = false ∧ 8 ∈ s.pool.bindings ∧ s.pool.routes.lookup 8 = none ∧
    ¬ (0 < s.pool.pendingDials ∨
      0 < s.pool.maxConns ∧ s.pool.maxConns ≤ s.pool.connections.keys.length) := by
  exact exists_of_decide _ _ (by decide +kernel)

end PoolSystem

end Voce.Gateway
