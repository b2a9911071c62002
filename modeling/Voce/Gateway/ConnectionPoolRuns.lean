import Voce.Gateway.ConnectionPoolChanges

/-! # Runs of the connection pool

Every operation keeps the representation invariant, so it holds after any
sequence of critical sections and asynchronous state changes.
-/

namespace Voce.Gateway.ConnectionPool

open Protocol List Option AList IndexedHeap Transition FiniteMap

variable {Key : Type} [DecidableEq Key] {p : ConnectionPool Key}

section

variable (hp : p.Invariant)
include hp

theorem tryBind_invariant (key : Key) : (p.tryBind key).1.Invariant :=
  Growths.invariant hp (p.tryBind_growths key hp.shape)

theorem unbind_invariant (key : Key) (now : Int) (order : List Key) :
    (p.unbind key now order).Invariant := by
  cases hroute : p.routes.lookup key with
  | none =>
    rw [unbind_unrouted hroute]
    exact Growth.invariant hp (.eraseBinding key hroute)
  | some r =>
    rw [unbind_routed hp.shape hroute]
    exact assignPendingLocked_invariant (Change.invariant hp (.release key r now hroute)) order

theorem startDial_invariant (state : ConnectionState) (order : List Key) :
    (p.startDial state order).Invariant := by
  unfold startDial
  dsimp only
  split
  · exact finishDial_invariant hp
  · exact assignPendingLocked_invariant
      (addConnection_invariant (finishDial_invariant hp) state) order

theorem syncConnectionState_invariant (conn : ConnRef) (order : List Key) :
    (p.syncConnectionState conn order).Invariant := by
  cases hr : p.connections.lookup conn with
  | none =>
    simp only [syncConnectionState, hr]
    exact hp
  | some r =>
    rw [syncConnectionState_eq hr]
    have hpooled := hp.shape.pooled_of_lookup hr
    have hrecorded := fun state => Growths.invariant hp (recorded_growths hpooled state)
    have hstays := fun state => (p.recorded_pooled r state r).mpr hpooled
    split
    · exact assignPendingLocked_invariant
        (removeLocked_invariant (hrecorded .closed) (hstays .closed)) order
    · exact Growth.invariant (hrecorded _) (.refresh r (hstays _))

theorem shutdown_invariant : p.shutdown.1.Invariant := by
  unfold shutdown
  split
  · exact hp
  · have hmarked : p.markClosed.Invariant := hp.frame
    exact Change.invariant hmarked .clear

/-! ## Runs -/

omit hp in
theorem newConnectionPool_invariant (config : ConnectionPoolConfig) :
    (newConnectionPool config : ConnectionPool Key).Invariant :=
  invariant_of_empty (defaultConnectionPoolConfig_maxSessions_pos config) rfl rfl rfl rfl

theorem apply_invariant (op : Op Key) : (p.apply op).Invariant := by
  cases op with
  | bind key => exact Growths.invariant hp (p.bind_growths key hp.shape)
  | tryBind key => exact tryBind_invariant hp key
  | unbind key now order => exact unbind_invariant hp key now order
  | startDialFailed => exact finishDial_invariant hp
  | startDial state order => exact startDial_invariant hp state order
  | setConnState conn state => exact setConnState_invariant hp conn state
  | onConnectionOpen conn order | onConnectionClose conn order =>
    exact syncConnectionState_invariant hp conn order
  | cleanupIdle now order => exact Changes.invariant hp (cleanupIdle_changes hp now order)
  | shutdown => exact shutdown_invariant hp

omit hp in
theorem step_invariant {op} (hp : p.Invariant) (hstep : p.step op = some q) : q.Invariant := by
  unfold step at hstep
  split at hstep
  · cases hstep
    exact apply_invariant hp op
  · cases hstep

/-- What the five structures of a pool say about each other. -/
structure RepresentationInvariant (p : ConnectionPool Key) : Prop where
  filed : ∀ c r, p.connections.lookup c = some r → (p.item r).conn = c
  contained : p.routes.keys ⊆ p.bindings.keys
  routed : ∀ k r, p.routes.lookup k = some r →
    p.Pooled r ∧ k ∈ (p.item r).sessions ∧ p.bindings.lookup k = some (some (p.item r).conn)
  unrouted : ∀ k binding, p.bindings.lookup k = some binding → p.routes.lookup k = none →
    binding = none
  sessions : ∀ r, p.Pooled r → ∀ k, k ∈ (p.item r).sessions ↔ p.routes.lookup k = some r
  load : ∀ r, p.Pooled r → (p.item r).sessions.Nodup ∧
    (p.item r).load = (p.item r).sessions.length ∧ (p.item r).load ≤ p.maxSessions
  queued : p.queue.slots.Nodup ∧ ∀ r, r ∈ p.queue.slots ↔ p.Pooled r
  index : ∀ r, p.Pooled r → ∃ i : Nat, p.queue.index r = i ∧ p.queue.slots[i]? = some r
  heap : ∀ (i : Nat) (a b : ItemRef), p.queue.slots[i]? = some a →
    p.queue.slots[(i - 1) / 2]? = some b → p.less a b = false
  full : ∀ r, p.Pooled r → p.maxSessions ≤ (p.item r).load →
    (p.item r).priority = .unavailable
  /-- What allocation relies on: the selected item has room and no pooled item
  precedes it. -/
  selected : ∀ r, p.selectLocked = some r → p.Pooled r ∧ (p.item r).load < p.maxSessions ∧
    ∀ b, p.Pooled b → p.less b r = false

theorem Invariant.root_le {r b} (hroot : p.queue.slots[0]? = some r) (hb : p.Pooled b) :
    p.heapKey r ≤ p.heapKey b := by
  have hslot := hp.shape.getElem?_index hb
  obtain ⟨hi, -⟩ := List.getElem?_eq_some_iff.mp hslot
  have hle := HeapOrder.Ordered.root_le hp.cached.ordered hi
  rwa [keyAt_of_getElem? hroot, keyAt_of_getElem? hslot, WithTop.coe_le_coe] at hle

theorem Invariant.representation : p.RepresentationInvariant where
  filed := hp.shape.filed
  contained k hk := by
    obtain ⟨r, hr⟩ := mem_iff.mp hk
    exact mem_iff.mpr ⟨_, (hp.shape.routed k r hr).2⟩
  routed k r hr := by
    obtain ⟨hpooled, hbinding⟩ := hp.shape.routed k r hr
    exact ⟨hpooled, (hp.shape.sessions r hpooled k).mpr hr, hbinding⟩
  unrouted k binding := hp.shape.unrouted k binding (by simp)
  sessions := hp.shape.sessions
  load r hr := ⟨hp.shape.nodup r hr, hp.shape.load r hr, hp.shape.capacity r hr⟩
  queued := ⟨hp.shape.consistent.nodup, hp.shape.queued⟩
  index r hr := by
    have hslot := hp.shape.getElem?_index hr
    exact ⟨_, hp.shape.consistent _ r hslot, hslot⟩
  heap i a b ha hb := by
    obtain ⟨hi, -⟩ := List.getElem?_eq_some_iff.mp ha
    have hle := hp.cached.ordered i hi
    rw [HeapOrder.parent, keyAt_of_getElem? ha, keyAt_of_getElem? hb, WithTop.coe_le_coe] at hle
    exact (p.less_eq_false_iff a b).mpr hle
  full r := hp.cached.full r (by simp)
  selected r hr := by
    obtain ⟨hpooled, hroom⟩ := selectLocked_spec hp.shape hp.cached hr
    refine ⟨hpooled, hroom, fun b hb => (p.less_eq_false_iff b r).mpr ?_⟩
    exact hp.root_le (selectLocked_eq_some_iff.mp hr).1 hb

end

/-- The representation invariant holds after every run of a new pool. -/
theorem run_representationInvariant (config : ConnectionPoolConfig) (ops : List (Op Key))
    {p : ConnectionPool Key}
    (hrun : run step (newConnectionPool config) ops = some p) :
    p.RepresentationInvariant := by
  have hinvariant : p.Invariant :=
    run_invariant Invariant step_invariant
      (newConnectionPool_invariant config) hrun
  exact hinvariant.representation

/-- Keys that wait, a failed dial, a connection that closes, a cleanup, and two connections in
the end. -/
def churnOps : List (Op Nat) :=
  [.bind 7, .startDial .connecting [7], .setConnState 0 .active, .onConnectionOpen 0 [7],
    .bind 8, .startDialFailed, .tryBind 9, .startDial .active [8, 7], .setConnState 0 .closed,
    .onConnectionClose 0 [7, 8], .bind 9, .startDial .active [9, 8, 7], .unbind 8 5 [9, 7],
    .unbind 9 6 [7], .cleanupIdle 100 [2, 1], .bind 10, .startDial .active [10, 7]]

theorem run_representationInvariant_churnOps : ∃ p : ConnectionPool Nat,
    run step (newConnectionPool ⟨1, 1, 1, 2, 10, 1⟩) churnOps = some p ∧
      (p.routes.lookup 7 = some 1 ∧ p.routes.lookup 10 = some 3) ∧
      p.RepresentationInvariant := by
  obtain ⟨p, hp, hrouted⟩ := exists_of_decide
    (run step (newConnectionPool ⟨1, 1, 1, 2, 10, 1⟩) churnOps)
    (fun p => p.routes.lookup 7 = some 1 ∧ p.routes.lookup 10 = some 3) (by decide +kernel)
  exact ⟨p, hp, hrouted, run_representationInvariant _ _ hp⟩

end Voce.Gateway.ConnectionPool
