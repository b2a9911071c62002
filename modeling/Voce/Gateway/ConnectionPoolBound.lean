import Voce.Gateway.ConnectionPoolAllocation

/-! # Keys bound in a pool

A key is bound by a successful `TryBind` and unbound by `Unbind` or `Shutdown`.
Dials, callbacks of connections and the idle cleanup move keys between
connections and leave the bound ones bound.
-/

namespace Voce.Gateway.ConnectionPool

open AList

variable {Key : Type} [DecidableEq Key] {p : ConnectionPool Key} {order : List Key}

theorem assignPendingLocked_mem_bindings (horder : ∀ key ∈ order, key ∈ p.bindings) (k : Key) :
    k ∈ (p.assignPendingLocked order).bindings ↔ k ∈ p.bindings := by
  induction order generalizing p with
  | nil => rfl
  | cons key rest ih =>
    obtain ⟨hkey, hrest⟩ := List.forall_mem_cons.mp horder
    unfold assignPendingLocked
    split
    · exact ih hrest
    · split
      · rfl
      next r _ =>
        have hattached : ∀ k, k ∈ (p.attachLocked key r).bindings ↔ k ∈ p.bindings := by
          intro k
          rw [attachLocked_mem_bindings]
          constructor
          · rintro (rfl | hk)
            · exact hkey
            · exact hk
          · exact .inr
        rw [ih fun k hk => (hattached k).mpr (hrest k hk), hattached]

/-- The operations of the pool's own goroutines and callbacks. -/
def Op.Background : Op Key → Prop
  | .startDialFailed | .startDial _ _ | .setConnState _ _ | .onConnectionOpen _ _
  | .onConnectionClose _ _ | .cleanupIdle _ _ => True
  | .bind _ | .tryBind _ | .unbind _ _ _ | .shutdown => False

instance : (op : Op Key) → Decidable op.Background := by
  intro op
  rcases op <;> unfold Op.Background <;> infer_instance

theorem syncConnectionState_mem_bindings (hp : p.Invariant) (conn : ConnRef)
    (horder : order.Perm p.bindings.keys) (k : Key) :
    k ∈ (p.syncConnectionState conn order).bindings ↔ k ∈ p.bindings := by
  cases hr : p.connections.lookup conn with
  | none => simp [syncConnectionState, hr]
  | some r =>
    have hpooled := hp.shape.pooled_of_lookup hr
    rw [syncConnectionState_eq hr]
    split
    · rw [assignPendingLocked_mem_bindings, removed_mem_bindings hp hpooled]
      intro key hkey
      exact (removed_mem_bindings hp hpooled key).mpr (horder.mem_iff.mp hkey)
    · change k ∈ (p.recorded r (p.connState conn)).bindings ↔ k ∈ p.bindings
      rw [(p.recorded_frame r (p.connState conn)).2.2.1]

theorem cleanupIdle_mem_bindings (hp : p.Invariant) (now : Int) (order : List ConnRef) (k : Key) :
    k ∈ (p.cleanupIdle now order).1.bindings ↔ k ∈ p.bindings := by
  refine cleanupIdle_preserves (fun q => k ∈ q.bindings ↔ k ∈ p.bindings) ?_ hp .rfl order
  intro q r hq hsame hpooled _
  exact ((removeLocked_removed hq.shape hpooled).mem_bindings k).trans hsame

/-- The background keeps the bound keys. -/
theorem apply_mem_bindings (hp : p.Invariant) {op} (hbackground : op.Background)
    (henumerates : op.Enumerates p) (k : Key) : k ∈ (p.apply op).bindings ↔ k ∈ p.bindings := by
  cases op with
  | startDialFailed | setConnState => rfl
  | startDial state order =>
    unfold apply startDial
    dsimp only
    split
    · rfl
    · have hadded : (p.finishDial.addConnection state).bindings = p.bindings := rfl
      rw [assignPendingLocked_mem_bindings, hadded]
      intro key hkey
      exact henumerates.mem_iff.mp hkey
  | onConnectionOpen conn order | onConnectionClose conn order =>
    exact syncConnectionState_mem_bindings hp conn henumerates k
  | cleanupIdle now order => exact cleanupIdle_mem_bindings hp now order k
  | _ => exact hbackground.elim

theorem unbind_mem_bindings (hp : p.Invariant) (key : Key) (now : Int)
    (horder : order.Perm (p.bindings.erase key).keys) (k : Key) :
    k ∈ (p.unbind key now order).bindings ↔ k ≠ key ∧ k ∈ p.bindings := by
  cases hroute : p.routes.lookup key with
  | none =>
    rw [unbind_unrouted hroute]
    exact mem_erase
  | some r =>
    rw [unbind_routed hp.shape hroute, assignPendingLocked_mem_bindings, released_bindings]
    · exact mem_erase
    · intro k hk
      rw [released_bindings]
      exact horder.mem_iff.mp hk

/-- A key that is not bound is bound exactly if `TryBind` says so. -/
theorem tryBind_mem_bindings {key} (hunbound : key ∉ p.bindings) (k : Key) :
    k ∈ (p.tryBind key).1.bindings ↔
      k ∈ p.bindings ∨ k = key ∧ (p.tryBind key).2.bound = true := by
  have hnone := lookup_eq_none.mpr hunbound
  cases hbound : (p.tryBind key).2.bound with
  | false =>
    rw [(tryBind_failed hnone hbound).2.1]
    simp
  | true =>
    obtain ⟨r, hselect, hpriority, hstate⟩ := (tryBind_bound_iff hnone).mp hbound
    have hactive : ¬ ((p.item r).priority ≠ .active ∨ p.connState (p.item r).conn ≠ .active) := by
      simp [hpriority, hstate]
    unfold tryBind
    rw [hnone]
    rw [hselect]
    dsimp only
    rw [if_neg hactive, (reserveScaleLocked_frame _).2.1, attachLocked_mem_bindings]
    simp only [and_true, mem_insert, or_self_left]
    exact or_comm

omit [DecidableEq Key] in
theorem shutdown_mem_bindings {k} (hk : k ∈ p.shutdown.1.bindings) : k ∈ p.bindings := by
  unfold shutdown at hk
  split at hk
  · exact hk
  · exact absurd hk (notMem_empty k)

end Voce.Gateway.ConnectionPool
