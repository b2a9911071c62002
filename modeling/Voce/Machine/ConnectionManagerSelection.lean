import Voce.Machine.ConnectionManagerInvariant

/-! # Selection of a connection

A selection keeps a key on its connection while that is active. Otherwise it evicts the
inactive connections that it meets at the root of the heap and takes the first active
one, which is the least loaded of all active connections.
-/

namespace Voce.Machine

open Protocol List Option Transition IndexedHeap

variable {Key : Type} [DecidableEq Key]

namespace ConnectionManager

/-! ## Evictions of a selection -/

/-- Stored items that are not active were evicted with their routes, and nothing else
has changed. -/
structure Evicted (m q : ConnectionManager Key) : Prop where
  kept : ∀ r, q.Stored r → m.Stored r ∧ q.item r = m.item r
  inactive : ∀ r, m.Stored r → ¬ q.Stored r → m.connState (m.item r).conn ≠ .active
  routes : ∀ k r, q.routes.lookup k = some r ↔ m.routes.lookup k = some r ∧ q.Stored r
  connState : q.connState = m.connState

variable {m : ConnectionManager Key}

theorem Evicted.refl (hm : m.Invariant) : Evicted m m where
  kept _ hr := ⟨hr, rfl⟩
  inactive _ hr hgone := absurd hr hgone
  routes k r := ⟨fun hroute => ⟨hroute, hm.routed k r hroute⟩, fun h => h.1⟩
  connState := rfl

theorem Evicted.trans {m p q : ConnectionManager Key} (hp : Evicted m p) (hq : Evicted p q) :
    Evicted m q where
  kept r hr := by
    obtain ⟨hmiddle, hitem⟩ := hq.kept r hr
    exact ⟨(hp.kept r hmiddle).1, hitem.trans (hp.kept r hmiddle).2⟩
  inactive r hr hgone := by
    by_cases hmiddle : p.Stored r
    · have hinactive := hq.inactive r hmiddle hgone
      rwa [hp.connState, (hp.kept r hmiddle).2] at hinactive
    · exact hp.inactive r hr hmiddle
  routes k r := by
    rw [hq.routes, hp.routes]
    constructor
    · rintro ⟨⟨hroute, -⟩, hstored⟩
      exact ⟨hroute, hstored⟩
    · rintro ⟨hroute, hstored⟩
      exact ⟨⟨hroute, (hq.kept r hstored).1⟩, hstored⟩
  connState := hq.connState.trans hp.connState

variable {r : ItemRef}

theorem Removed.evicted {m q : ConnectionManager Key} (hq : Removed m r q) (hm : m.Invariant)
    (hr : m.Stored r) (hinactive : m.connState (m.item r).conn ≠ .active) :
    Evicted m q where
  kept b hb := by
    obtain ⟨hstored, hne⟩ := (hq.stored hr b).mp hb
    exact ⟨hstored, hq.other b hne⟩
  inactive b hb hgone := by
    have heq : b = r := by
      by_contra hne
      exact hgone ((hq.stored hr b).mpr ⟨hb, hne⟩)
    rw [heq]
    exact hinactive
  routes k b := by
    rw [hq.routes, hq.stored hr]
    split
    next hroute =>
      simp only [reduceCtorEq, false_iff]
      rintro ⟨hb, -, hne⟩
      exact hne (some.inj (hb.symm.trans hroute))
    next hroute =>
      constructor
      · intro hb
        exact ⟨hb, hm.routed k b hb, fun heq => hroute (by rw [hb, heq])⟩
      · exact fun h => h.1
  connState := hq.connState

/-- The loop evicts inactive roots until the heap is empty or its root is active. It has
as many rounds as the heap has items, and every eviction takes one out. -/
theorem selectLoop_spec (hm : m.Invariant) (key : Key) {rounds}
    (hrounds : m.active.slots.length ≤ rounds) :
    ∃ q, Evicted m q ∧ q.Invariant ∧
      ((q.active.slots = [] ∧ m.selectLoop key rounds = (q, none)) ∨
        ∃ r, q.active.slots[0]? = some r ∧ q.connState (q.item r).conn = .active ∧
          m.selectLoop key rounds =
            ((q.recordRoute key r).fixLocked r, some (q.item r).conn)) := by
  induction rounds generalizing m with
  | zero =>
    have hempty := length_eq_zero_iff.mp (Nat.le_zero.mp hrounds)
    exact ⟨m, .refl hm, hm, .inl ⟨hempty, rfl⟩⟩
  | succ rounds ih =>
    unfold selectLoop
    split
    next hroot =>
      exact ⟨m, .refl hm, hm, .inl ⟨by simpa using hroot, rfl⟩⟩
    next r hroot =>
      have hr : m.Stored r := (hm.queued r).mp (mem_of_getElem? hroot)
      split
      next hinactive =>
        have hremoved := removeConnectionLocked_removed hm hr
        have hlength := remove_length m.less (hm.getElem?_index hr)
        rw [← hremoved.active] at hlength
        obtain ⟨q, hevicted, hq, hresult⟩ := ih (hremoved.invariant hm hr) (by omega)
        exact ⟨q, (hremoved.evicted hm hr hinactive).trans hevicted, hq, hresult⟩
      next hactive => exact ⟨m, .refl hm, hm, .inr ⟨r, hroot, not_not.mp hactive, rfl⟩⟩

variable {key : Key}

/-- A selection for a key without an active connection. -/
theorem select_spec (hm : m.Invariant)
    (hinactive : ∀ r, m.routes.lookup key = some r → m.connState (m.item r).conn ≠ .active) :
    ∃ q, Evicted m q ∧ q.Invariant ∧ q.routes.lookup key = none ∧
      ((q.active.slots = [] ∧ m.select key = (q, none)) ∨
        ∃ r, q.active.slots[0]? = some r ∧ q.connState (q.item r).conn = .active ∧
          m.select key = ((q.recordRoute key r).fixLocked r, some (q.item r).conn)) := by
  cases hroute : m.routes.lookup key with
  | none =>
    obtain ⟨q, hevicted, hq, hresult⟩ := selectLoop_spec hm key le_rfl
    refine ⟨q, hevicted, hq, ?_, by simpa only [select, hroute] using hresult⟩
    apply eq_none_iff_forall_ne_some.mpr
    intro r hr
    rw [((hevicted.routes key r).mp hr).1] at hroute
    cases hroute
  | some r =>
    have hr := hm.routed key r hroute
    have hstate := hinactive r hroute
    have hremoved := removeConnectionLocked_removed hm hr
    obtain ⟨q, hevicted, hq, hresult⟩ := selectLoop_spec (hremoved.invariant hm hr) key le_rfl
    refine ⟨q, (hremoved.evicted hm hr hstate).trans hevicted, hq, ?_,
      by simpa only [select, hroute, hstate, if_false] using hresult⟩
    apply eq_none_iff_forall_ne_some.mpr
    intro b hb
    have hbefore := ((hevicted.routes key b).mp hb).1
    rw [hremoved.routes, if_pos hroute] at hbefore
    cases hbefore

theorem select_of_active (hroute : m.routes.lookup key = some r)
    (hactive : m.connState (m.item r).conn = .active) :
    m.select key = (m, some (m.item r).conn) := by
  simp [select, hroute, hactive]

theorem select_invariant (hm : m.Invariant) (key : Key) : (m.select key).1.Invariant := by
  by_cases hactive : ∃ r, m.routes.lookup key = some r ∧ m.connState (m.item r).conn = .active
  · obtain ⟨r, hroute, hstate⟩ := hactive
    rw [select_of_active hroute hstate]
    exact hm
  · have hinactive : ∀ r, m.routes.lookup key = some r →
        m.connState (m.item r).conn ≠ .active :=
      fun r hroute hstate => hactive ⟨r, hroute, hstate⟩
    obtain ⟨q, -, hq, hunrouted, ⟨-, hresult⟩ | ⟨r, hroot, -, hresult⟩⟩ := select_spec hm hinactive
    · rw [hresult]
      exact hq
    · rw [hresult]
      exact recordRoute_invariant hq ((hq.queued r).mp (mem_of_getElem? hroot)) hunrouted

theorem lookup_invariant (hm : m.Invariant) (key : Key) : (m.lookup key).1.Invariant := by
  unfold lookup
  split
  · exact hm
  next r hroute =>
    split
    · exact hm
    · have hr := hm.routed key r hroute
      exact (removeConnectionLocked_removed hm hr).invariant hm hr

theorem remove_invariant (hm : m.Invariant) (conn : ConnRef) : (m.remove conn).Invariant := by
  unfold remove
  split
  · exact hm
  next r hr =>
    have hstored := hm.stored_of_lookup hr
    exact (removeConnectionLocked_removed hm hstored).invariant hm hstored

theorem apply_invariant (hm : m.Invariant) (op : Op Key) : (m.apply op).Invariant := by
  cases op with
  | store conn => exact store_invariant hm conn
  | select key => exact select_invariant hm key
  | lookup key => exact lookup_invariant hm key
  | release key => exact release_invariant hm key
  | remove conn => exact remove_invariant hm conn
  | setConnState conn state => exact setConnState_invariant hm conn state

theorem run_invariant {ops} (hrun : run step newConnectionManager ops = some m) :
    m.Invariant := by
  refine Transition.run_invariant Invariant ?_ newConnectionManager_invariant hrun
  intro before op after hm hstep
  cases hstep
  exact apply_invariant hm op

/-! ## Routes, loads, heap and selection -/

/-- The redundant structures in terms of the source's fields. -/
structure RepresentationInvariant (m : ConnectionManager Key) : Prop where
  routed : ∀ k r, m.routes.lookup k = some r → m.Stored r ∧ k ∈ (m.item r).sessions
  load : ∀ r, m.Stored r → (m.item r).sessions.Nodup ∧
    (m.item r).load = (m.item r).sessions.length
  queued : m.active.slots.Nodup ∧ ∀ r, r ∈ m.active.slots ↔ m.Stored r
  index : ∀ (i : Nat) (r : ItemRef), m.active.slots[i]? = some r → m.active.index r = i
  heap : ∀ (i : Nat) (a b : ItemRef), m.active.slots[i]? = some a →
    m.active.slots[(i - 1) / 2]? = some b → m.less a b = false

theorem Invariant.representation (hm : m.Invariant) : m.RepresentationInvariant where
  routed k r hroute := by
    have hr := hm.routed k r hroute
    exact ⟨hr, (hm.sessions r hr k).mpr hroute⟩
  load r hr := ⟨hm.nodup r hr, hm.load r hr⟩
  queued := ⟨hm.consistent.nodup, hm.queued⟩
  index := hm.consistent
  heap i a b ha hb := by
    obtain ⟨hi, -⟩ := List.getElem?_eq_some_iff.mp ha
    have hle := hm.ordered i hi
    unfold HeapOrder.parent at hle
    rw [keyAt_of_getElem? ha, keyAt_of_getElem? hb,
      WithTop.coe_le_coe] at hle
    rw [Bool.eq_false_iff, ne_eq, less_iff, not_lt]
    exact hle

/-- How a selection proceeds for a key without an active connection. -/
structure Selects (m : ConnectionManager Key) (key : Key) : Prop where
  /-- The active stored connection of smallest load and id is taken, and the inactive
  ones before it are evicted. -/
  chosen : ∀ c, (m.select key).2 = some c → ∃ r, m.Stored r ∧ (m.item r).conn = c ∧
    m.connState c = .active ∧ (m.select key).1.routes.lookup key = some r ∧
    (∀ b, m.Stored b → m.connState (m.item b).conn = .active →
      toLex ((m.item r).load, (m.item r).id) ≤ toLex ((m.item b).load, (m.item b).id)) ∧
    ∀ b, m.Stored b → m.connState (m.item b).conn ≠ .active →
      toLex ((m.item b).load, (m.item b).id) < toLex ((m.item r).load, (m.item r).id) →
      ¬ (m.select key).1.Stored b
  none : (m.select key).2 = none → ∀ r, ¬ (m.select key).1.Stored r
  previous : ∀ r, m.routes.lookup key = some r → ¬ (m.select key).1.Stored r
  evicted : ∀ r, m.Stored r → ¬ (m.select key).1.Stored r →
    m.connState (m.item r).conn ≠ .active ∧ ∀ k, (m.select key).1.routes.lookup k ≠ some r
  others : ∀ k r, k ≠ key → ((m.select key).1.routes.lookup k = some r ↔
    m.routes.lookup k = some r ∧ (m.select key).1.Stored r)

theorem select_stored {m q : ConnectionManager Key}
    (hresult : m.select key = ((q.recordRoute key r).fixLocked r, some (q.item r).conn))
    (b : ItemRef) : (m.select key).1.Stored b ↔ q.Stored b := by
  have hconn : ((q.recordRoute key r).item b).conn = (q.item b).conn := by
    by_cases hb : b = r
    · rw [hb, recordRoute_item_self]
    · rw [recordRoute_item_of_ne q key r hb]
  rw [hresult]
  exact stored_congr rfl hconn

theorem select_selects (hm : m.Invariant) (key : Key)
    (hinactive : ∀ r, m.routes.lookup key = some r → m.connState (m.item r).conn ≠ .active) :
    m.Selects key := by
  obtain ⟨q, hevicted, hq, hunrouted, hresult⟩ := select_spec hm hinactive
  have hprevious : ∀ r, m.routes.lookup key = some r → ¬ q.Stored r := by
    intro r hroute hr
    rw [(hevicted.routes key r).mpr ⟨hroute, hr⟩] at hunrouted
    cases hunrouted
  have hgone : ∀ r, ¬ q.Stored r → ∀ k, q.routes.lookup k ≠ some r :=
    fun r hr k hroute => hr ((hevicted.routes k r).mp hroute).2
  rcases hresult with ⟨hempty, hresult⟩ | ⟨r, hroot, hactive, hresult⟩
  · refine ⟨?_, ?_, ?_, ?_, ?_⟩
    · intro c hc
      rw [hresult] at hc
      cases hc
    · intro _ b hb
      rw [hresult] at hb
      have hmem := (hq.queued b).mpr hb
      rw [hempty] at hmem
      cases hmem
    · rw [hresult]
      exact hprevious
    · rw [hresult]
      exact fun b hb hleft => ⟨hevicted.inactive b hb hleft, hgone b hleft⟩
    · rw [hresult]
      exact fun k b _ => hevicted.routes k b
  · have hr : q.Stored r := (hq.queued r).mp (mem_of_getElem? hroot)
    obtain ⟨hbefore, hitem⟩ := hevicted.kept r hr
    have hstored := select_stored hresult
    have hroutes : ∀ k, (m.select key).1.routes.lookup k =
        if k = key then some r else q.routes.lookup k := by
      intro k
      rw [hresult]
      exact recordRoute_routes q key r k
    have hleast : ∀ b, q.Stored b →
        toLex ((m.item r).load, (m.item r).id) ≤ toLex ((m.item b).load, (m.item b).id) := by
      intro b hb
      have hle := hq.root_le hroot hb
      rwa [heapKey, heapKey, hitem, (hevicted.kept b hb).2] at hle
    refine ⟨?_, ?_, ?_, ?_, ?_⟩
    · intro c hc
      rw [hresult, hitem] at hc
      obtain rfl := some.inj hc
      refine ⟨r, hbefore, rfl, ?_, ?_, ?_, ?_⟩
      · rwa [hevicted.connState, hitem] at hactive
      · rw [hroutes, if_pos rfl]
      · intro b hb hstate
        apply hleast
        by_contra hleft
        exact hevicted.inactive b hb hleft hstate
      · intro b _ _ hlt hb
        exact absurd (hleast b ((hstored b).mp hb)) (not_le.mpr hlt)
    · intro hnone
      rw [hresult] at hnone
      cases hnone
    · exact fun b hroute hb => hprevious b hroute ((hstored b).mp hb)
    · intro b hb hleft
      rw [hstored] at hleft
      refine ⟨hevicted.inactive b hb hleft, fun k hroute => ?_⟩
      rw [hroutes] at hroute
      split at hroute
      · obtain rfl := some.inj hroute
        exact hleft hr
      · exact hgone b hleft k hroute
    · intro k b hk
      rw [hroutes, if_neg hk, hstored]
      exact hevicted.routes k b

/-- A selection fails exactly if no stored connection is active. -/
theorem select_eq_none_iff (hm : m.Invariant) (key : Key) :
    (m.select key).2 = none ↔ ∀ r, m.Stored r → m.connState (m.item r).conn ≠ .active := by
  by_cases hactive : ∃ r, m.routes.lookup key = some r ∧ m.connState (m.item r).conn = .active
  · obtain ⟨r, hroute, hstate⟩ := hactive
    rw [select_of_active hroute hstate]
    simp only [reduceCtorEq, false_iff, not_forall]
    exact ⟨r, hm.routed key r hroute, not_not.mpr hstate⟩
  · have hselects := select_selects hm key
      fun r hroute hstate => hactive ⟨r, hroute, hstate⟩
    constructor
    · exact fun hnone r hr => (hselects.evicted r hr (hselects.none hnone r)).1
    · intro hall
      cases hresult : (m.select key).2 with
      | none => rfl
      | some c =>
        obtain ⟨r, hr, rfl, hstate, -⟩ := hselects.chosen c hresult
        exact absurd hstate (hall r hr)

/-- After every sequence of operations the structures agree, and a selection keeps an
active connection, takes the least loaded active one otherwise, and fails exactly if
there is none. -/
theorem run_select (ops : List (Op Key)) {m : ConnectionManager Key}
    (hrun : run step newConnectionManager ops = some m) :
    m.RepresentationInvariant ∧ ∀ key,
      (∀ r, m.routes.lookup key = some r → m.connState (m.item r).conn = .active →
        m.select key = (m, some (m.item r).conn)) ∧
      ((∀ r, m.routes.lookup key = some r → m.connState (m.item r).conn ≠ .active) →
        m.Selects key) ∧
      ((m.select key).2 = none ↔
        ∀ r, m.Stored r → m.connState (m.item r).conn ≠ .active) := by
  have hm := run_invariant hrun
  refine ⟨hm.representation, fun key => ⟨?_, ?_, select_eq_none_iff hm key⟩⟩
  · exact fun r => select_of_active
  · exact select_selects hm key

/-- Two connections carry a key each when the first one is closed. -/
def evictionOps : List (Op Nat) :=
  [.setConnState 0 .active, .store 0, .setConnState 1 .active, .store 1, .store 0, .select 7,
    .select 8, .release 8, .select 8, .setConnState 0 .closed]

/-- The key of the closed connection is moved to the other one. -/
theorem run_select_evictionOps : ∃ m : ConnectionManager Nat,
    run step newConnectionManager evictionOps = some m ∧
    m.RepresentationInvariant ∧ m.Selects 7 ∧ (m.select 7).2 = some 1 := by
  obtain ⟨m, hm, hroute, hstate, hselected⟩ := exists_of_decide
    (run step newConnectionManager evictionOps)
    (fun m => m.routes.lookup 7 = some 0 ∧ m.connState (m.item 0).conn ≠ .active ∧
      (m.select 7).2 = some 1) (by decide +kernel)
  obtain ⟨hrepresentation, hselect⟩ := run_select evictionOps hm
  refine ⟨m, hm, hrepresentation, (hselect 7).2.1 ?_, hselected⟩
  intro r hr
  obtain rfl := some.inj (hroute.symm.trans hr)
  exact hstate

end ConnectionManager

end Voce.Machine
