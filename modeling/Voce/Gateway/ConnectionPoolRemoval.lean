import Voce.Gateway.ConnectionPoolInvariant

/-! # Removing an item from the connection pool

An item is removed when its connection closes or has been idle too long.
Removal is described once, by what it leaves in each structure, and keeps the
representation invariant.
-/

namespace Voce.Gateway.ConnectionPool

open Protocol AList FiniteMap List IndexedHeap

variable {Key : Type} (p : ConnectionPool Key)

theorem recordConnectionRemovalLocked_item_self (r : ItemRef) :
    (p.recordConnectionRemovalLocked r).item r = { p.item r with state := .closed } := by
  simp

theorem recordConnectionRemovalLocked_item_of_ne {r b} (hb : b ≠ r) :
    (p.recordConnectionRemovalLocked r).item b = p.item b := by
  simp [hb]

variable [DecidableEq Key]

/-- Unrouting keys touches the routes, the bindings and a counter only. -/
theorem unrouteLocked_frame (r : ItemRef) (keys : List Key) :
    (p.unrouteLocked r keys).item = p.item ∧ (p.unrouteLocked r keys).connections = p.connections ∧
      (p.unrouteLocked r keys).queue = p.queue ∧
      (p.unrouteLocked r keys).maxSessions = p.maxSessions ∧
      (p.unrouteLocked r keys).allocated = p.allocated := by
  induction keys generalizing p with
  | nil => exact ⟨rfl, rfl, rfl, rfl, rfl⟩
  | cons key rest ih =>
    unfold unrouteLocked
    split
    · exact ih _
    · exact ih p

theorem unrouteLocked_routes (r : ItemRef) (keys : List Key) (k : Key) :
    (p.unrouteLocked r keys).routes.lookup k =
      if k ∈ keys ∧ p.routes.lookup k = some r then none else p.routes.lookup k := by
  induction keys generalizing p with
  | nil => simp [unrouteLocked]
  | cons key rest ih =>
    unfold unrouteLocked
    split
    all_goals
      rw [ih]
      by_cases heq : k = key
      · subst heq
        simp [*]
      · simp [heq]

theorem unrouteLocked_bindings (r : ItemRef) (keys : List Key)
    (k : Key) : (p.unrouteLocked r keys).bindings.lookup k =
      if k ∈ keys ∧ p.routes.lookup k = some r then (p.bindings.lookup k).map fun _ => none
      else p.bindings.lookup k := by
  induction keys generalizing p with
  | nil => simp [unrouteLocked]
  | cons key rest ih =>
    unfold unrouteLocked
    split
    next hrouted =>
      rw [ih]
      by_cases heq : k = key
      · subst heq
        simp only [lookup_erase, reduceCtorEq, and_false, if_false, mem_cons, true_or,
          hrouted, and_self, if_true]
        split
        next hbound =>
          obtain ⟨binding, hbinding⟩ := mem_iff.mp hbound
          simp [hbinding]
        next hunbound => simp [lookup_eq_none.mpr hunbound]
      · have hsame : (if key ∈ p.bindings then p.bindings.insert key none
            else p.bindings).lookup k = p.bindings.lookup k := by
          split
          · exact lookup_insert_ne heq
          · rfl
        simp [heq, hsame]
    next hrouted =>
      rw [ih]
      by_cases heq : k = key
      · subst heq
        simp [hrouted]
      · simp [heq]

/-- What the removal of a pooled item leaves in each structure. -/
structure Removed (p : ConnectionPool Key) (r : ItemRef) (q : ConnectionPool Key) : Prop where
  connections : q.connections = p.connections.erase (p.item r).conn
  queue : q.queue = p.queue.remove p.less (p.queue.index r).toNat
  other : ∀ b, b ≠ r → q.item b = p.item b
  conn : (q.item r).conn = (p.item r).conn
  key : q.heapKey r = p.heapKey r
  routes : ∀ k, q.routes.lookup k =
    if p.routes.lookup k = some r then none else p.routes.lookup k
  bindings : ∀ k, q.bindings.lookup k =
    if p.routes.lookup k = some r then (p.bindings.lookup k).map fun _ => none
    else p.bindings.lookup k
  maxSessions : q.maxSessions = p.maxSessions
  allocated : q.allocated = p.allocated

variable {r : ItemRef}

theorem removeLocked_removed {p : ConnectionPool Key} (hs : Shape none p) (hr : p.Pooled r) :
    Removed p r (p.removeLocked r) := by
  have hindex : p.queue.index r ≥ 0 := by
    obtain ⟨i, hi⟩ := mem_iff_getElem?.mp ((hs.queued r).mpr hr)
    rw [hs.consistent i r hi]
    exact Int.natCast_nonneg i
  have hkeys : ∀ k, k ∈ (p.item r).sessions ∧ p.routes.lookup k = some r ↔
      p.routes.lookup k = some r := by
    intro k
    rw [hs.sessions r hr]
    exact and_self_iff
  have hpooled : ¬ p.connections.lookup (p.item r).conn ≠ some r := not_not.mpr hr
  -- the sessions are read off before the item is detached, and unrouted after it
  obtain ⟨hitem, hconnections, hqueue, hmax, hallocated⟩ := unrouteLocked_frame
    ((p.detachLocked r).recordConnectionRemovalLocked r) r (p.item r).sessions
  have hself := (congrFun hitem r).trans (recordConnectionRemovalLocked_item_self _ r)
  rw [removeLocked, if_neg hpooled]
  refine ⟨hconnections, hqueue.trans (if_pos hindex), ?_, ?_, ?_, ?_, ?_, hmax, hallocated⟩
  · intro b hb
    rw [setItem_item_of_ne _ _ hb, hitem]
    exact recordConnectionRemovalLocked_item_of_ne _ hb
  · rw [setItem_item_self, hself]
    rfl
  · rw [heapKey, setItem_item_self, hself]
    rfl
  · intro k
    have hlookup := unrouteLocked_routes
      ((p.detachLocked r).recordConnectionRemovalLocked r) r (p.item r).sessions k
    exact hlookup.trans (if_congr (hkeys k) rfl rfl)
  · intro k
    have hlookup := unrouteLocked_bindings
      ((p.detachLocked r).recordConnectionRemovalLocked r) r (p.item r).sessions k
    exact hlookup.trans (if_congr (hkeys k) rfl rfl)

variable {p q : ConnectionPool Key}

theorem Removed.conn_eq (hq : Removed p r q) (b : ItemRef) : (q.item b).conn = (p.item b).conn := by
  by_cases hb : b = r
  · rw [hb, hq.conn]
  · rw [hq.other b hb]

/-- Exactly the other items stay pooled. -/
theorem Removed.pooled (hq : Removed p r q) (hr : p.Pooled r) (b : ItemRef) :
    q.Pooled b ↔ p.Pooled b ∧ b ≠ r := by
  rw [Pooled, hq.connections, hq.conn_eq]
  exact lookup_erase_own (fun b => (p.item b).conn) hr

theorem Removed.shape (hq : Removed p r q) (hs : Shape none p) (hr : p.Pooled r) :
    Shape none q where
  filed c b hb := by
    rw [hq.connections] at hb
    rw [hq.conn_eq]
    exact hs.filed c b (lookup_erase_eq_some.mp hb).2
  allocated b hb := by
    rw [hq.allocated, hq.conn_eq]
    exact hs.allocated b ((hq.pooled hr b).mp hb).1
  routed k b hb := by
    rw [hq.routes] at hb
    split at hb
    · cases hb
    next hne =>
      obtain ⟨hpooled, hbinding⟩ := hs.routed k b hb
      have hbr : b ≠ r := fun heq => hne (by rw [hb, heq])
      rw [hq.pooled hr, hq.bindings, if_neg hne, hq.conn_eq]
      exact ⟨⟨hpooled, hbr⟩, hbinding⟩
  unrouted k binding _ hbinding hnone := by
    rw [hq.bindings] at hbinding
    rw [hq.routes] at hnone
    by_cases hrouted : p.routes.lookup k = some r
    · rw [if_pos hrouted, Option.map_eq_some_iff] at hbinding
      obtain ⟨_, _, hbinding⟩ := hbinding
      exact hbinding.symm
    · rw [if_neg hrouted] at hbinding hnone
      exact hs.unrouted k binding (by simp) hbinding hnone
  sessions b hb k := by
    obtain ⟨hpooled, hbr⟩ := (hq.pooled hr b).mp hb
    rw [hq.other b hbr, hs.sessions b hpooled, hq.routes]
    split
    next hrouted => simp [hrouted, Ne.symm hbr]
    · rfl
  nodup b hb := by
    obtain ⟨hpooled, hbr⟩ := (hq.pooled hr b).mp hb
    rw [hq.other b hbr]
    exact hs.nodup b hpooled
  load b hb := by
    obtain ⟨hpooled, hbr⟩ := (hq.pooled hr b).mp hb
    rw [hq.other b hbr]
    exact hs.load b hpooled
  capacity b hb := by
    obtain ⟨hpooled, hbr⟩ := (hq.pooled hr b).mp hb
    rw [hq.other b hbr, hq.maxSessions]
    exact hs.capacity b hpooled
  queued b := by
    rw [hq.queue, remove_mem p.less hs.consistent (hs.getElem?_index hr),
      hs.queued, hq.pooled hr]
  consistent := by
    obtain ⟨hi, -⟩ := List.getElem?_eq_some_iff.mp (hs.getElem?_index hr)
    rw [hq.queue]
    exact hs.consistent.remove p.less hi

theorem Removed.cached (hq : Removed p r q) (hs : Shape none p) (hc : Cached none p)
    (hr : p.Pooled r) : Cached none q := by
  have hkey : ∀ b, q.heapKey b = p.heapKey b := by
    intro b
    by_cases hb : b = r
    · rw [hb, hq.key]
    · exact heapKey_congr (hq.other b hb)
  obtain ⟨hi, -⟩ := List.getElem?_eq_some_iff.mp (hs.getElem?_index hr)
  refine ⟨?_, p.heapKey, ?_, fun b _ => hkey b⟩
  · intro b _ hb hle
    obtain ⟨hpooled, hbr⟩ := (hq.pooled hr b).mp hb
    rw [hq.other b hbr] at hle ⊢
    exact hc.full b (by simp) hpooled (hq.maxSessions ▸ hle)
  · rw [hq.queue]
    exact remove_ordered p.less_iff hc.ordered hi

theorem removeLocked_invariant {p : ConnectionPool Key} (hp : p.Invariant) (hr : p.Pooled r) :
    (p.removeLocked r).Invariant := by
  have hq := removeLocked_removed hp.shape hr
  exact ⟨hq.maxSessions ▸ hp.positive, hq.shape hp.shape hr, hq.cached hp.shape hp.cached hr⟩

end Voce.Gateway.ConnectionPool
