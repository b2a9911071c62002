import Mathlib.Data.Prod.Lex
import Voce.Foundation.IndexedHeapOrder
import Voce.Machine.ConnectionManager

/-! # Representation invariant of the connection manager

Three redundant structures agree after every operation: the stored connections, the
routes with each item's session set, and the indexed heap, which is ordered by load and
id. An eviction takes an item and its routes out of all of them.
-/

namespace Voce.Machine

open Protocol List AList IndexedHeap FiniteMap

variable {Key : Type}

namespace ConnectionManager

variable (m : ConnectionManager Key)

def Stored (r : ItemRef) : Prop :=
  m.connections.lookup (m.item r).conn = some r

/-- What the heap is ordered by. -/
def heapKey (r : ItemRef) : ℤ ×ₗ ℕ :=
  toLex ((m.item r).load, (m.item r).id)

theorem less_iff (a b : ItemRef) : m.less a b = true ↔ m.heapKey a < m.heapKey b := by
  simp only [less, heapKey, Prod.Lex.toLex_lt_toLex]
  split
  next hne => simp [hne]
  next heq => simp [not_not.mp heq]

variable {r : ItemRef} {m q : ConnectionManager Key}

theorem heapKey_congr (hitem : q.item r = m.item r) : q.heapKey r = m.heapKey r := by
  rw [heapKey, heapKey, hitem]

theorem stored_congr (hconnections : q.connections = m.connections)
    (hconn : (q.item r).conn = (m.item r).conn) : q.Stored r ↔ m.Stored r := by
  rw [Stored, Stored, hconnections, hconn]

@[simp] theorem setItem_item_self (m : ConnectionManager Key) (r : ItemRef)
    (item : HeapConnection Key) : (m.setItem r item).item r = item := by
  simp

@[simp] theorem setItem_item_of_ne (m : ConnectionManager Key) {r b} (item : HeapConnection Key)
    (hne : b ≠ r) : (m.setItem r item).item b = m.item b := by
  simp [hne]

variable {m : ConnectionManager Key} {conn : ConnRef}

section

variable (hnew : conn ∉ m.connections)
include hnew

theorem store_item_of_ne {b} (hb : b ≠ m.allocated) : (m.store conn).item b = m.item b := by
  simp [hnew, hb]

theorem store_item_new :
    (m.store conn).item m.allocated = ⟨(m.nextID + 1) % 2 ^ 64, conn, 0, []⟩ := by
  simp [hnew]

theorem store_connections : (m.store conn).connections = m.connections.insert conn m.allocated := by
  simp [hnew]

theorem store_active : (m.store conn).active = m.active.push (m.store conn).less m.allocated := by
  rw [store, if_neg hnew]
  rfl

theorem store_stored (b : ItemRef) : (m.store conn).Stored b ↔ m.Stored b ∨ b = m.allocated := by
  rw [Stored, store_connections hnew]
  by_cases hb : b = m.allocated
  · rw [hb, store_item_new hnew, lookup_insert]
    simp
  · rw [store_item_of_ne hnew hb, Stored]
    by_cases hconn : (m.item b).conn = conn
    · rw [hconn, lookup_insert, lookup_eq_none.mpr hnew]
      simp [hb, Ne.symm hb]
    · rw [lookup_insert_ne hconn]
      simp [hb]

end

variable [DecidableEq Key]

structure Invariant (m : ConnectionManager Key) : Prop where
  filed : ∀ c r, m.connections.lookup c = some r → (m.item r).conn = c
  allocated : ∀ r, m.Stored r → r < m.allocated
  routed : ∀ k r, m.routes.lookup k = some r → m.Stored r
  sessions : ∀ r, m.Stored r → ∀ k, k ∈ (m.item r).sessions ↔ m.routes.lookup k = some r
  nodup : ∀ r, m.Stored r → (m.item r).sessions.Nodup
  load : ∀ r, m.Stored r → (m.item r).load = (m.item r).sessions.length
  queued : ∀ r, r ∈ m.active.slots ↔ m.Stored r
  consistent : m.active.Consistent
  ordered : m.active.Ordered m.heapKey

theorem Invariant.stored_of_lookup (hm : m.Invariant) {c} (hr : m.connections.lookup c = some r) :
    m.Stored r := by
  rw [Stored, hm.filed c r hr]
  exact hr

theorem Invariant.getElem?_index (hm : m.Invariant) (hr : m.Stored r) :
    m.active.slots[(m.active.index r).toNat]? = some r :=
  hm.consistent.getElem?_index ((hm.queued r).mpr hr)

/-- The root of the heap is the stored item of smallest load and id. -/
theorem Invariant.root_le (hm : m.Invariant) {r b} (hroot : m.active.slots[0]? = some r)
    (hb : m.Stored b) : m.heapKey r ≤ m.heapKey b := by
  have hslot := hm.getElem?_index hb
  obtain ⟨hi, -⟩ := List.getElem?_eq_some_iff.mp hslot
  have hle := HeapOrder.Ordered.root_le hm.ordered hi
  rwa [keyAt_of_getElem? hroot, keyAt_of_getElem? hslot, WithTop.coe_le_coe] at hle

theorem newConnectionManager_invariant :
    (newConnectionManager : ConnectionManager Key).Invariant where
  filed := nofun
  allocated := nofun
  routed := nofun
  sessions := nofun
  nodup := nofun
  load := nofun
  queued r := by simp [newConnectionManager, empty, Stored]
  consistent := nofun
  ordered := nofun

theorem setConnState_invariant (hm : m.Invariant) (conn : ConnRef) (state : ConnectionState) :
    (m.setConnState conn state).Invariant :=
  ⟨hm.filed, hm.allocated, hm.routed, hm.sessions, hm.nodup, hm.load, hm.queued, hm.consistent,
    hm.ordered⟩

/-! ## Storing -/

theorem store_invariant (hm : m.Invariant) (conn : ConnRef) : (m.store conn).Invariant := by
  by_cases hold : conn ∈ m.connections
  · simpa [hold] using hm
  have hstored := store_stored hold
  have hfresh : ¬ m.Stored m.allocated := fun hr => lt_irrefl _ (hm.allocated _ hr)
  have hroutes : (m.store conn).routes = m.routes := by simp [hold]
  have hcases : ∀ {b}, (m.store conn).Stored b →
      b = m.allocated ∨ b ≠ m.allocated ∧ m.Stored b ∧ (m.store conn).item b = m.item b := by
    intro b hb
    by_cases heq : b = m.allocated
    · exact .inl heq
    · exact .inr ⟨heq, ((hstored b).mp hb).resolve_right heq, store_item_of_ne hold heq⟩
  refine ⟨?_, ?_, ?_, ?_, ?_, ?_, ?_, ?_, ?_⟩
  · rw [store_connections hold]
    refine forall_insert (fun c b hlookup => ?_) (by rw [store_item_new hold])
    have hne : b ≠ m.allocated := by
      rintro rfl
      exact hfresh (hm.stored_of_lookup hlookup)
    rw [store_item_of_ne hold hne]
    exact hm.filed c b hlookup
  · intro b hb
    have hallocated : (m.store conn).allocated = m.allocated + 1 := by simp [hold]
    rw [hallocated]
    rcases (hstored b).mp hb with hb | rfl
    · exact Nat.lt_succ_of_lt (hm.allocated b hb)
    · exact Nat.lt_succ_self _
  · intro k b hb
    rw [hroutes] at hb
    exact (hstored b).mpr (.inl (hm.routed k b hb))
  · intro b hb k
    rw [hroutes]
    rcases hcases hb with rfl | ⟨-, hb, hitem⟩
    · rw [store_item_new hold]
      simp only [not_mem_nil, false_iff]
      exact fun hroute => hfresh (hm.routed k _ hroute)
    · rw [hitem]
      exact hm.sessions b hb k
  · intro b hb
    rcases hcases hb with rfl | ⟨-, hb, hitem⟩
    · rw [store_item_new hold]
      exact nodup_nil
    · rw [hitem]
      exact hm.nodup b hb
  · intro b hb
    rcases hcases hb with rfl | ⟨-, hb, hitem⟩
    · rw [store_item_new hold]
      rfl
    · rw [hitem]
      exact hm.load b hb
  · intro b
    rw [store_active hold, push_mem, hm.queued, hstored]
  · rw [store_active hold]
    apply (push_rearranged _ m.active m.allocated).consistent
    exact hm.consistent.append fun hmem => hfresh ((hm.queued _).mp hmem)
  · rw [store_active hold]
    apply push_ordered (less_iff _)
    apply hm.ordered.congr
    intro b hb
    apply heapKey_congr (store_item_of_ne hold _)
    rintro rfl
    exact hfresh ((hm.queued _).mp hb)

/-! ## Changing one item's sessions -/

/-- One stored item has changed its sessions along with the routes, and its place in
the heap is fixed. -/
theorem fixLocked_invariant (hm : m.Invariant) (hr : m.Stored r)
    (hconnections : q.connections = m.connections) (hactive : q.active = m.active)
    (hallocated : q.allocated = m.allocated) (hother : ∀ b, b ≠ r → q.item b = m.item b)
    (hconn : (q.item r).conn = (m.item r).conn)
    (hrouted : ∀ k b, q.routes.lookup k = some b → m.Stored b)
    (hsessions : ∀ b, m.Stored b → ∀ k, k ∈ (q.item b).sessions ↔ q.routes.lookup k = some b)
    (hnodup : (q.item r).sessions.Nodup) (hload : (q.item r).load = (q.item r).sessions.length) :
    (q.fixLocked r).Invariant := by
  have hsame : ∀ b, (q.item b).conn = (m.item b).conn := by
    intro b
    by_cases hb : b = r
    · rw [hb, hconn]
    · rw [hother b hb]
  have hstored : ∀ b, (q.fixLocked r).Stored b ↔ m.Stored b :=
    fun b => stored_congr hconnections (hsame b)
  have hslot : q.active.slots[(q.active.index r).toNat]? = some r := by
    rw [hactive]
    exact hm.getElem?_index hr
  obtain ⟨hindex, -⟩ := List.getElem?_eq_some_iff.mp hslot
  have hrearranged := fix_rearranged q.less hindex
  refine ⟨?_, ?_, ?_, ?_, ?_, ?_, ?_, ?_, ?_⟩
  · intro c b hb
    change q.connections.lookup c = some b at hb
    rw [hconnections] at hb
    exact (hsame b).trans (hm.filed c b hb)
  · intro b hb
    change b < q.allocated
    rw [hallocated]
    exact hm.allocated b ((hstored b).mp hb)
  · exact fun k b hb => (hstored b).mpr (hrouted k b hb)
  · exact fun b hb k => hsessions b ((hstored b).mp hb) k
  · intro b hb
    by_cases heq : b = r
    · rw [heq]
      exact hnodup
    · change (q.item b).sessions.Nodup
      rw [hother b heq]
      exact hm.nodup b ((hstored b).mp hb)
  · intro b hb
    by_cases heq : b = r
    · rw [heq]
      exact hload
    · change (q.item b).load = (q.item b).sessions.length
      rw [hother b heq]
      exact hm.load b ((hstored b).mp hb)
  · intro b
    rw [hstored, ← hm.queued b, ← hactive]
    exact hrearranged.mem b
  · exact hrearranged.consistent (hactive ▸ hm.consistent)
  · have hordered : q.active.Ordered m.heapKey := hactive ▸ hm.ordered
    apply fix_ordered q.less_iff hordered (hactive ▸ hm.consistent) hslot
    exact fun b _ hb => heapKey_congr (hother b hb)

section RecordRoute

variable (m : ConnectionManager Key) (key : Key) (r : ItemRef)

theorem recordRoute_item_of_ne {b} (hb : b ≠ r) : (m.recordRoute key r).item b = m.item b := by
  simp [hb]

theorem recordRoute_item_self : (m.recordRoute key r).item r = { m.item r with
    sessions := (m.item r).sessions.insert key, load := (m.item r).load + 1 } := by
  simp

theorem recordRoute_routes (k : Key) : (m.recordRoute key r).routes.lookup k =
    if k = key then some r else m.routes.lookup k :=
  lookup_insert_ite

end RecordRoute

/-- A key without a route is assigned to a stored item. -/
theorem recordRoute_invariant (hm : m.Invariant) {key r}
    (hr : m.Stored r) (hunrouted : m.routes.lookup key = none) :
    ((m.recordRoute key r).fixLocked r).Invariant := by
  have hnew : key ∉ (m.item r).sessions := by
    rw [hm.sessions r hr, hunrouted]
    simp
  refine fixLocked_invariant hm hr rfl rfl rfl (fun b hb => recordRoute_item_of_ne m key r hb)
    (by rw [recordRoute_item_self]) ?_ ?_ ?_ ?_
  · intro k b hb
    rw [recordRoute_routes] at hb
    split at hb
    · cases hb
      exact hr
    · exact hm.routed k b hb
  · intro b hb k
    have hold := hm.sessions b hb k
    rw [recordRoute_routes]
    by_cases hbr : b = r
    · subst hbr
      rw [recordRoute_item_self, mem_insert_iff, hold]
      by_cases heq : k = key <;> simp [heq]
    · rw [recordRoute_item_of_ne m key r hbr, hold]
      by_cases heq : k = key
      · subst heq
        simp [hunrouted, Ne.symm hbr]
      · rw [if_neg heq]
  · rw [recordRoute_item_self]
    exact (hm.nodup r hr).insert
  · rw [recordRoute_item_self]
    simp [length_insert_of_not_mem hnew, hm.load r hr]

section Release

variable (m : ConnectionManager Key) (key : Key) (r : ItemRef)

theorem decrementLoad_item_of_ne {b} (hb : b ≠ r) :
    ((m.dropRoute key r).decrementLoad r).item b = m.item b := by
  simp [hb]

theorem decrementLoad_item_self : ((m.dropRoute key r).decrementLoad r).item r =
    { m.item r with sessions := (m.item r).sessions.erase key, load := (m.item r).load - 1 } := by
  simp

theorem dropRoute_routes (k : Key) : ((m.dropRoute key r).decrementLoad r).routes.lookup k =
    if k = key then none else m.routes.lookup k :=
  lookup_erase_ite

end Release

variable {r : ItemRef}

/-- The key is one of its item's sessions, so the guard on the load never fails. -/
theorem release_eq (hm : m.Invariant) {key} (hrouted : m.routes.lookup key = some r) :
    m.release key = ((m.dropRoute key r).decrementLoad r).fixLocked r := by
  have hr := hm.routed key r hrouted
  have hmem := (hm.sessions r hr key).mpr hrouted
  have hload : ((m.dropRoute key r).item r).load > 0 := by
    have hpos := length_pos_of_mem hmem
    have hcount := hm.load r hr
    simp only [dropRoute, setItem_item_self]
    omega
  simp only [release, hrouted, releaseLocked, ne_eq, not_true_eq_false, if_false, if_pos hload]

theorem release_invariant (hm : m.Invariant) (key : Key) : (m.release key).Invariant := by
  cases hroute : m.routes.lookup key with
  | none => simpa [release, hroute] using hm
  | some r =>
    have hr := hm.routed key r hroute
    have hmem := (hm.sessions r hr key).mpr hroute
    rw [release_eq hm hroute]
    refine fixLocked_invariant hm hr rfl rfl rfl
      (fun b hb => decrementLoad_item_of_ne m key r hb) (by rw [decrementLoad_item_self])
      ?_ ?_ ?_ ?_
    · intro k b hb
      rw [dropRoute_routes] at hb
      split at hb
      · cases hb
      · exact hm.routed k b hb
    · intro b hb k
      have hold := hm.sessions b hb k
      rw [dropRoute_routes]
      by_cases hbr : b = r
      · subst hbr
        rw [decrementLoad_item_self, (hm.nodup b hb).mem_erase_iff, hold]
        by_cases heq : k = key <;> simp [heq]
      · rw [decrementLoad_item_of_ne m key r hbr, hold]
        by_cases heq : k = key
        · subst heq
          simp [hroute, Ne.symm hbr]
        · rw [if_neg heq]
    · rw [decrementLoad_item_self]
      exact (hm.nodup r hr).erase key
    · rw [decrementLoad_item_self]
      have hpos := length_pos_of_mem hmem
      simp only [length_erase_of_mem hmem, hm.load r hr]
      omega

/-! ## Evicting one item -/

variable (m)

theorem unrouteLocked_frame (r : ItemRef) (keys : List Key) :
    (m.unrouteLocked r keys).item = m.item ∧ (m.unrouteLocked r keys).connections = m.connections ∧
      (m.unrouteLocked r keys).active = m.active ∧
      (m.unrouteLocked r keys).connState = m.connState ∧
      (m.unrouteLocked r keys).allocated = m.allocated := by
  induction keys generalizing m with
  | nil => exact ⟨rfl, rfl, rfl, rfl, rfl⟩
  | cons key rest ih =>
    unfold unrouteLocked
    split
    · exact ih _
    · exact ih m

theorem unrouteLocked_routes (r : ItemRef) (keys : List Key)
    (k : Key) : (m.unrouteLocked r keys).routes.lookup k =
      if k ∈ keys ∧ m.routes.lookup k = some r then none else m.routes.lookup k := by
  induction keys generalizing m with
  | nil => simp [unrouteLocked]
  | cons key rest ih =>
    unfold unrouteLocked
    split
    all_goals
      rw [ih]
      by_cases heq : k = key
      · subst heq
        simp [*]
      · simp [heq]

/-- What evicting a stored item does. -/
structure Removed (m : ConnectionManager Key) (r : ItemRef) (q : ConnectionManager Key) :
    Prop where
  connections : q.connections = m.connections.erase (m.item r).conn
  active : q.active = m.active.remove m.less (m.active.index r).toNat
  other : ∀ b, b ≠ r → q.item b = m.item b
  self : q.item r = { m.item r with sessions := [] }
  routes : ∀ k, q.routes.lookup k =
    if m.routes.lookup k = some r then none else m.routes.lookup k
  connState : q.connState = m.connState
  allocated : q.allocated = m.allocated

variable {m}

theorem removeConnectionLocked_removed (hm : m.Invariant)
    (hr : m.Stored r) : Removed m r (m.removeConnectionLocked r) := by
  have hindex : m.active.index r ≥ 0 := by
    obtain ⟨i, hi⟩ := mem_iff_getElem?.mp ((hm.queued r).mpr hr)
    rw [hm.consistent i r hi]
    exact Int.natCast_nonneg i
  have hkeys : ∀ k, k ∈ (m.item r).sessions ∧ m.routes.lookup k = some r ↔
      m.routes.lookup k = some r := by
    intro k
    rw [hm.sessions r hr]
    exact and_self_iff
  have hstored : ¬ m.connections.lookup (m.item r).conn ≠ some r := not_not.mpr hr
  obtain ⟨hitem, hconnections, hactive, hstate, hallocated⟩ :=
    unrouteLocked_frame (m.detachLocked r) r (m.item r).sessions
  rw [removeConnectionLocked, if_neg hstored]
  refine ⟨hconnections, hactive.trans (if_pos hindex), ?_, ?_, ?_, hstate, hallocated⟩
  · intro b hb
    rw [setItem_item_of_ne _ _ hb, hitem]
    rfl
  · rw [setItem_item_self, hitem]
    rfl
  · intro k
    have hlookup := unrouteLocked_routes (m.detachLocked r) r (m.item r).sessions k
    simp only [detachLocked, hkeys k] at hlookup
    exact hlookup

variable {m q : ConnectionManager Key}

theorem Removed.conn_eq (hq : Removed m r q) (b : ItemRef) : (q.item b).conn = (m.item b).conn := by
  by_cases hb : b = r
  · rw [hb, hq.self]
  · rw [hq.other b hb]

theorem Removed.stored (hq : Removed m r q) (hr : m.Stored r) (b : ItemRef) :
    q.Stored b ↔ m.Stored b ∧ b ≠ r := by
  rw [Stored, hq.connections, hq.conn_eq]
  exact lookup_erase_own (fun b => (m.item b).conn) hr

theorem Removed.invariant (hq : Removed m r q) (hm : m.Invariant) (hr : m.Stored r) :
    q.Invariant := by
  have hslot := hm.getElem?_index hr
  obtain ⟨hi, -⟩ := List.getElem?_eq_some_iff.mp hslot
  have hkey : ∀ b, q.heapKey b = m.heapKey b := by
    intro b
    by_cases hb : b = r
    · rw [hb, heapKey, hq.self, heapKey]
    · exact heapKey_congr (hq.other b hb)
  refine ⟨?_, ?_, ?_, ?_, ?_, ?_, ?_, ?_, ?_⟩
  · rw [hq.connections]
    apply forall_erase
    intro c b hb
    rw [hq.conn_eq]
    exact hm.filed c b hb
  · intro b hb
    rw [hq.allocated]
    exact hm.allocated b ((hq.stored hr b).mp hb).1
  · intro k b hb
    rw [hq.routes] at hb
    split at hb
    · cases hb
    next hne => exact (hq.stored hr b).mpr ⟨hm.routed k b hb, fun heq => hne (by rw [hb, heq])⟩
  · intro b hb k
    obtain ⟨hstored, hbr⟩ := (hq.stored hr b).mp hb
    rw [hq.other b hbr, hm.sessions b hstored, hq.routes]
    split
    next hrouted => simp [hrouted, Ne.symm hbr]
    · rfl
  · intro b hb
    obtain ⟨hstored, hbr⟩ := (hq.stored hr b).mp hb
    rw [hq.other b hbr]
    exact hm.nodup b hstored
  · intro b hb
    obtain ⟨hstored, hbr⟩ := (hq.stored hr b).mp hb
    rw [hq.other b hbr]
    exact hm.load b hstored
  · intro b
    rw [hq.active, remove_mem m.less hm.consistent hslot, hm.queued, hq.stored hr]
  · rw [hq.active]
    exact hm.consistent.remove m.less hi
  · rw [hq.active]
    exact (remove_ordered m.less_iff hm.ordered hi).congr fun b _ => hkey b

end ConnectionManager

end Voce.Machine
