import Mathlib.Data.Prod.Lex
import Voce.Gateway.ConnectionPool

/-! # Representation invariant of the connection pool

The pool keeps five redundant structures: the connections, the routes, the
bindings, each item's session set and the indexed heap with its cached
priorities. The invariant is split in two. Its shape relates the maps, the
session sets and the membership of the queue; its cache part relates cached
priorities and the heap order to the items. Between an item's mutation and its
refresh the cache part holds off that item only.
-/

namespace Voce.Gateway.ConnectionPool

open Protocol FiniteMap List Option IndexedHeap

variable {Key : Type}

/-! ## Items and heap keys -/

variable (p : ConnectionPool Key)

@[simp] theorem setItem_item_self (r : ItemRef)
    (item : PooledConnection Key) : (p.setItem r item).item r = item := by
  simp

@[simp] theorem setItem_item_of_ne {r b} (item : PooledConnection Key)
    (hne : b ≠ r) : (p.setItem r item).item b = p.item b := by
  simp [hne]

/-- Mutating an item without changing what `f` reads of it. -/
theorem setItem_item_congr {β : Type} (f : PooledConnection Key → β) (p : ConnectionPool Key)
    (r : ItemRef) {item} (hitem : f item = f (p.item r)) (b : ItemRef) :
    f ((p.setItem r item).item b) = f (p.item b) := by
  by_cases hb : b = r
  · subst hb
    rw [setItem_item_self, hitem]
  · rw [setItem_item_of_ne p item hb]

/-- The key of `connectionMinHeap`: priority, then load, then id. -/
def heapKey (r : ItemRef) : ℕ ×ₗ (ℤ ×ₗ ℕ) :=
  toLex ((p.item r).priority.rank, toLex ((p.item r).load, (p.item r).id))

theorem less_iff (a b : ItemRef) : p.less a b = true ↔ p.heapKey a < p.heapKey b := by
  have hrank : (p.item a).priority.rank = (p.item b).priority.rank ↔
      (p.item a).priority = (p.item b).priority := ConnectionPriority.rank_injective.eq_iff
  simp only [heapKey, Prod.Lex.toLex_lt_toLex, hrank]
  unfold less
  split
  next hne => simp [hne]
  next heq =>
    rw [not_not] at heq
    split
    next hload => simp [heq, hload]
    next hload =>
      rw [not_not] at hload
      simp [heq, hload]

theorem less_eq_false_iff (a b : ItemRef) : p.less a b = false ↔ p.heapKey b ≤ p.heapKey a := by
  rw [Bool.eq_false_iff, Ne, less_iff, not_lt]

variable {r : ItemRef}

theorem heapKey_congr {p q : ConnectionPool Key} (hitem : q.item r = p.item r) :
    q.heapKey r = p.heapKey r := by
  rw [heapKey, heapKey, hitem]

variable {p : ConnectionPool Key}

/-- A full item is unavailable whatever its connection's state. -/
theorem priorityLocked_of_full (hfull : p.maxSessions ≤ (p.item r).load) :
    p.priorityLocked r = .unavailable := by
  simp [priorityLocked, hfull]

/-- The item is in `connections`, under its own connection. -/
def Pooled (p : ConnectionPool Key) (r : ItemRef) : Prop :=
  p.connections.lookup (p.item r).conn = some r

theorem pooled_congr {p q : ConnectionPool Key} (hconnections : q.connections = p.connections)
    (hconn : (q.item r).conn = (p.item r).conn) : q.Pooled r ↔ p.Pooled r := by
  rw [Pooled, Pooled, hconnections, hconn]

/-! ## The invariant -/

/-- Cached priorities and the heap order are up to date, one item possibly
excepted. -/
structure Cached (stale : Option ItemRef) (p : ConnectionPool Key) : Prop where
  full : ∀ r, some r ≠ stale → p.Pooled r → p.maxSessions ≤ (p.item r).load →
    (p.item r).priority = .unavailable
  heap : ∃ key, p.queue.Ordered key ∧ ∀ r, some r ≠ stale → p.heapKey r = key r

theorem Cached.stale (hc : Cached none p) (r : ItemRef) : Cached (some r) p := by
  obtain ⟨hfull, key, hordered, hkey⟩ := hc
  exact ⟨fun b _ => hfull b (by simp), key, hordered, fun b _ => hkey b (by simp)⟩

theorem Cached.ordered (hc : Cached none p) : p.queue.Ordered p.heapKey := by
  obtain ⟨-, key, hordered, hkey⟩ := hc
  have heq : p.heapKey = key := by
    funext r
    exact hkey r (by simp)
  rwa [heq]

/-- The cache part only reads capacities, priorities, loads, ids and the queue. -/
theorem Cached.congr {p q : ConnectionPool Key} (hc : Cached none p)
    (hconnections : q.connections = p.connections) (hmax : q.maxSessions = p.maxSessions)
    (hqueue : q.queue = p.queue) (hconn : ∀ r, (q.item r).conn = (p.item r).conn)
    (hload : ∀ r, (q.item r).load = (p.item r).load)
    (hpriority : ∀ r, (q.item r).priority = (p.item r).priority)
    (hid : ∀ r, (q.item r).id = (p.item r).id) : Cached none q := by
  obtain ⟨hfull, key, hordered, hkey⟩ := hc
  refine ⟨?_, key, hqueue ▸ hordered, ?_⟩
  · intro r hr hpooled hle
    rw [hpriority]
    rw [hmax, hload] at hle
    exact hfull r hr ((pooled_congr hconnections (hconn r)).mp hpooled) hle
  · intro r hr
    rw [heapKey, hpriority, hload, hid]
    exact hkey r hr

/-- A mutation that is confined to one item leaves the cache stale there. -/
theorem Cached.mutate {p q : ConnectionPool Key} (hc : Cached none p)
    (hmax : q.maxSessions = p.maxSessions) (hqueue : q.queue = p.queue)
    (hitem : ∀ b, b ≠ r → q.item b = p.item b) (hpooled : ∀ b, b ≠ r → q.Pooled b → p.Pooled b) :
    Cached (some r) q := by
  refine ⟨?_, p.heapKey, hqueue ▸ hc.ordered, ?_⟩
  · intro b hb hpooledb hle
    have hbr : b ≠ r := by simpa using hb
    rw [hitem b hbr] at hle ⊢
    exact hc.full b (by simp) (hpooled b hbr hpooledb) (hmax ▸ hle)
  · intro b hb
    exact heapKey_congr (hitem b (by simpa using hb))

theorem Cached.setBindings (hc : Cached none p) (bindings : AList fun _ : Key => Option ConnRef) :
    Cached none { p with bindings := bindings } :=
  hc.congr rfl rfl rfl (fun _ => rfl) (fun _ => rfl) (fun _ => rfl) (fun _ => rfl)

variable [DecidableEq Key]

/-- How the maps, the session sets and the queue's members agree. One key may
be exempt from the rule on unrouted bindings. -/
structure Shape (exempt : Option Key) (p : ConnectionPool Key) : Prop where
  filed : ∀ c r, p.connections.lookup c = some r → (p.item r).conn = c
  allocated : ∀ r, p.Pooled r → r < p.allocated ∧ (p.item r).conn < p.allocated
  routed : ∀ k r, p.routes.lookup k = some r →
    p.Pooled r ∧ p.bindings.lookup k = some (some (p.item r).conn)
  unrouted : ∀ k binding, some k ≠ exempt → p.bindings.lookup k = some binding →
    p.routes.lookup k = none → binding = none
  sessions : ∀ r, p.Pooled r → ∀ k, k ∈ (p.item r).sessions ↔ p.routes.lookup k = some r
  nodup : ∀ r, p.Pooled r → (p.item r).sessions.Nodup
  load : ∀ r, p.Pooled r → (p.item r).load = (p.item r).sessions.length
  capacity : ∀ r, p.Pooled r → (p.item r).load ≤ p.maxSessions
  queued : ∀ r, r ∈ p.queue.slots ↔ p.Pooled r
  consistent : p.queue.Consistent

structure Invariant (p : ConnectionPool Key) : Prop where
  positive : 0 < p.maxSessions
  shape : Shape none p
  cached : Cached none p

theorem Shape.exempt (hs : Shape none p) (k : Key) : Shape (some k) p where
  filed := hs.filed
  allocated := hs.allocated
  routed := hs.routed
  unrouted k' binding _ := hs.unrouted k' binding (by simp)
  sessions := hs.sessions
  nodup := hs.nodup
  load := hs.load
  capacity := hs.capacity
  queued := hs.queued
  consistent := hs.consistent

variable {exempt : Option Key}

/-- Fields that the shape does not read may change freely, and the queue may be
rearranged. -/
theorem Shape.congr {p q : ConnectionPool Key} (hs : Shape exempt p)
    (hconnections : q.connections = p.connections) (hroutes : q.routes = p.routes)
    (hbindings : q.bindings = p.bindings) (hmax : q.maxSessions = p.maxSessions)
    (hallocated : q.allocated = p.allocated) (hconn : ∀ r, (q.item r).conn = (p.item r).conn)
    (hsessions : ∀ r, (q.item r).sessions = (p.item r).sessions)
    (hload : ∀ r, (q.item r).load = (p.item r).load)
    (hmem : ∀ r, r ∈ q.queue.slots ↔ r ∈ p.queue.slots) (hconsistent : q.queue.Consistent) :
    Shape exempt q where
  filed c r hr := by
    rw [hconn]
    exact hs.filed c r (hconnections ▸ hr)
  allocated r hr := by
    rw [hallocated, hconn]
    exact hs.allocated r ((pooled_congr hconnections (hconn r)).mp hr)
  routed k r hr := by
    rw [pooled_congr hconnections (hconn r), hbindings, hconn]
    exact hs.routed k r (hroutes ▸ hr)
  unrouted k binding hk hb hr :=
    hs.unrouted k binding hk (hbindings ▸ hb) (hroutes ▸ hr)
  sessions r hr k := by
    rw [hsessions, hroutes]
    exact hs.sessions r ((pooled_congr hconnections (hconn r)).mp hr) k
  nodup r hr := by
    rw [hsessions]
    exact hs.nodup r ((pooled_congr hconnections (hconn r)).mp hr)
  load r hr := by
    rw [hload, hsessions]
    exact hs.load r ((pooled_congr hconnections (hconn r)).mp hr)
  capacity r hr := by
    rw [hload, hmax]
    exact hs.capacity r ((pooled_congr hconnections (hconn r)).mp hr)
  queued r := by
    rw [hmem, pooled_congr hconnections (hconn r)]
    exact hs.queued r
  consistent := hconsistent

/-! ## Refreshing one item -/

theorem Shape.getElem?_index (hs : Shape exempt p) (hr : p.Pooled r) :
    p.queue.slots[(p.queue.index r).toNat]? = some r :=
  hs.consistent.getElem?_index ((hs.queued r).mpr hr)

/-- Refreshing a pooled item whose cached fields are stale restores the whole
invariant. -/
theorem refreshLocked_invariant (hs : Shape none p) (hpos : 0 < p.maxSessions)
    (hc : Cached (some r) p) (hr : p.Pooled r) : (p.refreshLocked r).Invariant := by
  have hslot := hs.getElem?_index hr
  obtain ⟨hindex, -⟩ := List.getElem?_eq_some_iff.mp hslot
  let marked := p.setItem r { p.item r with priority := p.priorityLocked r }
  have hrearranged := fix_rearranged marked.less hindex
  have hconn : ∀ b, (marked.item b).conn = (p.item b).conn :=
    setItem_item_congr (·.conn) p r rfl
  have hload : ∀ b, (marked.item b).load = (p.item b).load :=
    setItem_item_congr (·.load) p r rfl
  have hpooled : ∀ b, (p.refreshLocked r).Pooled b ↔ p.Pooled b :=
    fun b => pooled_congr rfl (hconn b)
  refine ⟨hpos, ?_, ?_⟩
  · exact hs.congr rfl rfl rfl rfl rfl hconn (setItem_item_congr (·.sessions) p r rfl)
      hload hrearranged.mem (hrearranged.consistent hs.consistent)
  · obtain ⟨hfull, key, hordered, hkey⟩ := hc
    refine ⟨?_, marked.heapKey, ?_, fun _ _ => rfl⟩
    · intro b _ hb hle
      change p.maxSessions ≤ (marked.item b).load at hle
      change (marked.item b).priority = .unavailable
      rw [hload] at hle
      by_cases hbr : b = r
      · subst hbr
        simp only [marked, setItem_item_self]
        exact priorityLocked_of_full hle
      · simp only [marked, setItem_item_of_ne p _ hbr]
        exact hfull b (by simpa using hbr) ((hpooled b).mp hb) hle
    · -- only the refreshed item's key may have changed since the heap was in order
      apply fix_ordered marked.less_iff hordered hs.consistent hslot
      intro b _ hbr
      rw [← hkey b (by simpa using hbr)]
      exact heapKey_congr (setItem_item_of_ne p _ hbr)

/-! ## Selecting and attaching -/

omit [DecidableEq Key] in
theorem selectLocked_eq_some_iff : p.selectLocked = some r ↔
      p.queue.slots[0]? = some r ∧ (p.item r).priority ≠ .unavailable := by
  unfold selectLocked
  cases p.queue.slots[0]? with
  | none => simp
  | some head =>
    simp only [some.injEq]
    split
    next hunavailable =>
      simp only [reduceCtorEq, false_iff, not_and, not_not]
      rintro rfl
      exact hunavailable
    next havailable =>
      simp only [some.injEq]
      constructor
      · rintro rfl
        exact ⟨rfl, havailable⟩
      · exact fun h => h.1

/-- The selected item is pooled and has room for one more session. -/
theorem selectLocked_spec
    (hs : Shape exempt p) (hc : Cached none p) (hr : p.selectLocked = some r) :
    p.Pooled r ∧ (p.item r).load < p.maxSessions := by
  obtain ⟨hhead, havailable⟩ := selectLocked_eq_some_iff.mp hr
  have hpooled := (hs.queued r).mp (mem_of_getElem? hhead)
  refine ⟨hpooled, ?_⟩
  by_contra hfull
  exact havailable (hc.full r (by simp) hpooled (not_lt.mp hfull))

section RecordRoute

variable (p : ConnectionPool Key) (k : Key) (r : ItemRef)

theorem recordRoute_item_of_ne {b} (hb : b ≠ r) : (p.recordRoute k r).item b = p.item b :=
  setItem_item_of_ne p _ hb

theorem recordRoute_conn (b : ItemRef) : ((p.recordRoute k r).item b).conn = (p.item b).conn := by
  by_cases hb : b = r
  · subst hb
    simp
  · rw [recordRoute_item_of_ne p k r hb]

theorem recordRoute_pooled (b : ItemRef) : (p.recordRoute k r).Pooled b ↔ p.Pooled b :=
  pooled_congr rfl (recordRoute_conn p k r b)

theorem recordRoute_sessions : ((p.recordRoute k r).item r).sessions =
    (p.item r).sessions.insert k := by
  simp

theorem recordRoute_load : ((p.recordRoute k r).item r).load = (p.item r).load + 1 := by
  simp

theorem recordRoute_routes (k' : Key) : (p.recordRoute k r).routes.lookup k' =
    if k' = k then some r else p.routes.lookup k' :=
  lookup_insert_ite

theorem recordRoute_bindings (k' : Key) : (p.recordRoute k r).bindings.lookup k' =
    if k' = k then some (some (p.item r).conn) else p.bindings.lookup k' :=
  lookup_insert_ite

end RecordRoute

variable {p : ConnectionPool Key}

/-- Routing an unrouted key to a pooled item with room. The key's own binding
may hold anything before. -/
theorem recordRoute_shape {k r} (hs : Shape (some k) p) (hk : p.routes.lookup k = none)
    (hr : p.Pooled r) (hroom : (p.item r).load < p.maxSessions) :
    Shape none (p.recordRoute k r) where
  filed c b hb := by
    rw [recordRoute_conn]
    exact hs.filed c b hb
  allocated b hb := by
    rw [recordRoute_conn]
    exact hs.allocated b ((recordRoute_pooled p k r b).mp hb)
  routed k' b hb := by
    rw [recordRoute_routes] at hb
    rw [recordRoute_pooled, recordRoute_bindings, recordRoute_conn]
    by_cases heq : k' = k
    · rw [if_pos heq, some.injEq] at hb
      subst hb
      exact ⟨hr, if_pos heq⟩
    · rw [if_neg heq] at hb ⊢
      exact hs.routed k' b hb
  unrouted k' binding _ hbinding hnone := by
    rw [recordRoute_routes] at hnone
    rw [recordRoute_bindings] at hbinding
    by_cases heq : k' = k
    · simp [heq] at hnone
    · rw [if_neg heq] at hnone hbinding
      exact hs.unrouted k' binding (by simpa using heq) hbinding hnone
  sessions b hb k' := by
    have hold := hs.sessions b ((recordRoute_pooled p k r b).mp hb) k'
    rw [recordRoute_routes]
    by_cases hbr : b = r
    · subst hbr
      rw [recordRoute_sessions, mem_insert_iff, hold]
      by_cases heq : k' = k <;> simp [heq]
    · rw [recordRoute_item_of_ne p k r hbr, hold]
      by_cases heq : k' = k
      · subst heq
        simp [hk, Ne.symm hbr]
      · rw [if_neg heq]
  nodup b hb := by
    have hold := hs.nodup b ((recordRoute_pooled p k r b).mp hb)
    by_cases hbr : b = r
    · subst hbr
      rw [recordRoute_sessions]
      exact hold.insert
    · rwa [recordRoute_item_of_ne p k r hbr]
  load b hb := by
    have hold := hs.load b ((recordRoute_pooled p k r b).mp hb)
    by_cases hbr : b = r
    · subst hbr
      -- the session set is a set, so the load counts the key only if it is new
      have hnew : k ∉ (p.item b).sessions := by
        rw [hs.sessions b hr, hk]
        simp
      rw [recordRoute_sessions, recordRoute_load, length_insert_of_not_mem hnew, hold]
      simp
    · rwa [recordRoute_item_of_ne p k r hbr]
  capacity b hb := by
    by_cases hbr : b = r
    · subst hbr
      rw [recordRoute_load]
      exact hroom
    · rw [recordRoute_item_of_ne p k r hbr]
      exact hs.capacity b ((recordRoute_pooled p k r b).mp hb)
  queued b := by
    rw [recordRoute_pooled]
    exact hs.queued b
  consistent := hs.consistent

theorem attachLocked_invariant {k} (hs : Shape (some k) p) (hpos : 0 < p.maxSessions)
    (hc : Cached none p) (hk : p.routes.lookup k = none) {r} (hr : p.selectLocked = some r) :
    (p.attachLocked k r).Invariant := by
  obtain ⟨hpooled, hroom⟩ := selectLocked_spec hs hc hr
  have hstale : Cached (some r) (p.recordRoute k r) :=
    hc.mutate rfl rfl (fun b hb => recordRoute_item_of_ne p k r hb)
      (fun b _ hb => (recordRoute_pooled p k r b).mp hb)
  exact refreshLocked_invariant (recordRoute_shape hs hk hpooled hroom) hpos hstale
    ((recordRoute_pooled p k r r).mpr hpooled)

theorem assignPendingLocked_invariant (hp : p.Invariant) (order : List Key) :
    (p.assignPendingLocked order).Invariant := by
  induction order generalizing p with
  | nil => exact hp
  | cons key rest ih =>
    unfold assignPendingLocked
    split
    · exact ih hp
    next hunrouted =>
      have hnone : p.routes.lookup key = none := by simpa using hunrouted
      split
      · exact hp
      next r hr =>
        exact ih (attachLocked_invariant (hp.shape.exempt key) hp.positive hp.cached hnone hr)

end Voce.Gateway.ConnectionPool
