import Mathlib.Data.Finset.Card
import Voce.Gateway.ConnectionPoolAllocation

/-! # Waiting keys

No key waits while some item could still take a session: every event that frees
capacity hands it out to the waiting keys until one of the two runs out.
-/

namespace Voce.Gateway

open Protocol Transition Function List Option AList ConnectionPool Tally FiniteMap

variable {Key : Type}

namespace ConnectionPool

/-! ## Cached priorities -/

/-- An item that is cached as unavailable is full, or its connection was closed. -/
def Truthful (p : ConnectionPool Key) : Prop :=
  ∀ r, p.Pooled r → p.connState (p.item r).conn ≠ .unknown ∧
    ((p.item r).priority = .unavailable →
      p.maxSessions ≤ (p.item r).load ∨ p.connState (p.item r).conn = .closed)

variable {p : ConnectionPool Key} {r : ItemRef}

theorem priorityLocked_eq_unavailable (hknown : p.connState (p.item r).conn ≠ .unknown)
    (hunavailable : p.priorityLocked r = .unavailable) :
    p.maxSessions ≤ (p.item r).load ∨ p.connState (p.item r).conn = .closed := by
  unfold priorityLocked at hunavailable
  split at hunavailable
  next hfull => exact .inl hfull
  · right
    cases hstate : p.connState (p.item r).conn <;> simp_all

/-- Each item is as it was, or its priority is up to date. -/
theorem Truthful.update {p q : ConnectionPool Key} (ht : p.Truthful)
    (hmax : q.maxSessions = p.maxSessions) (hstate : q.connState = p.connState)
    (hitem : ∀ b, q.Pooled b → p.Pooled b ∧ (q.item b).conn = (p.item b).conn ∧
      ((q.item b).load = (p.item b).load ∧ (q.item b).priority = (p.item b).priority ∨
        (q.item b).priority = q.priorityLocked b)) : q.Truthful := by
  intro b hb
  obtain ⟨hpooled, hconn, hsame | hfresh⟩ := hitem b hb
  · rw [hsame.1, hsame.2, hmax, hstate, hconn]
    exact ht b hpooled
  · have hknown : q.connState (q.item b).conn ≠ .unknown := by
      rw [hstate, hconn]
      exact (ht b hpooled).1
    refine ⟨hknown, fun hunavailable => ?_⟩
    exact priorityLocked_eq_unavailable hknown (hfresh ▸ hunavailable)

theorem Truthful.setItem {p : ConnectionPool Key} (ht : p.Truthful) {r item}
    (hconn : item.conn = (p.item r).conn) (hload : item.load = (p.item r).load)
    (hpriority : item.priority = (p.item r).priority) : (p.setItem r item).Truthful := by
  have hkept := setItem_item_congr (·.conn) p r hconn
  have hpooled b : (p.setItem r item).Pooled b ↔ p.Pooled b := pooled_congr rfl (hkept b)
  refine ht.update rfl rfl fun b hb => ⟨(hpooled b).mp hb, hkept b, .inl ?_⟩
  exact ⟨setItem_item_congr (·.load) p r hload b, setItem_item_congr (·.priority) p r hpriority b⟩

theorem refreshLocked_truthful {p q : ConnectionPool Key} (ht : p.Truthful) (r : ItemRef)
    (hmax : q.maxSessions = p.maxSessions) (hstate : q.connState = p.connState)
    (hconnections : q.connections = p.connections) (hconn : ∀ b, (q.item b).conn = (p.item b).conn)
    (hother : ∀ b, b ≠ r → q.item b = p.item b) : (q.refreshLocked r).Truthful := by
  apply ht.update
  · exact hmax
  · exact hstate
  · intro b hb
    have hkept : ((q.refreshLocked r).item b).conn = (p.item b).conn :=
      (refreshLocked_conn q r b).trans (hconn b)
    have hpooled : (q.refreshLocked r).Pooled b ↔ p.Pooled b := pooled_congr hconnections hkept
    refine ⟨hpooled.mp hb, hkept, ?_⟩
    by_cases heq : b = r
    · subst heq
      exact .inr (by simp [priorityLocked])
    · left
      have hitem : (q.refreshLocked r).item b = q.item b := by simp [heq]
      rw [hitem, hother b heq]
      exact ⟨rfl, rfl⟩

variable [DecidableEq Key]

theorem Growth.truthful {p q : ConnectionPool Key} (hp : p.Invariant) (ht : p.Truthful)
    (hgrowth : Growth p q) : q.Truthful := by
  cases hgrowth with
  | addConnection =>
    intro b hb
    rcases addConnection_cases (finishDial_invariant hp).shape hb with rfl | ⟨hb, hitem⟩
    · have hpos := hp.positive
      simp [ConnectionPool.addConnection, ConnectionPool.finishDial, priorityLocked, hpos]
    · have hconn := (hp.shape.allocated b hb).2
      have hstate : (p.finishDial.addConnection .connecting).connState (p.item b).conn =
          p.connState (p.item b).conn := update_of_ne (ne_of_lt hconn) _ _
      rw [hitem]
      change (p.finishDial.addConnection .connecting).connState (p.item b).conn ≠ .unknown ∧
        ((p.item b).priority = .unavailable → p.maxSessions ≤ (p.item b).load ∨
          (p.finishDial.addConnection .connecting).connState (p.item b).conn = .closed)
      rw [hstate]
      exact ht b hb
  | attach key r hbound hunrouted hselect =>
    exact refreshLocked_truthful ht r rfl rfl rfl (recordRoute_conn p key r)
      (fun b hb => recordRoute_item_of_ne p key r hb)
  | setConnState conn state hopen hstate =>
    intro b hb
    obtain ⟨hknown, hcached⟩ := ht b hb
    change update p.connState conn state (p.item b).conn ≠ .unknown ∧
      ((p.item b).priority = .unavailable → p.maxSessions ≤ (p.item b).load ∨
        update p.connState conn state (p.item b).conn = .closed)
    by_cases heq : (p.item b).conn = conn
    · rw [heq, update_self]
      refine ⟨hstate, fun hunavailable => .inl ?_⟩
      exact (hcached hunavailable).resolve_right (by rw [heq]; exact hopen)
    · rw [update_of_ne heq]
      exact ⟨hknown, hcached⟩
  | recordState r state => exact Truthful.setItem ht rfl rfl rfl
  | refresh r => exact refreshLocked_truthful ht r rfl rfl rfl (fun _ => rfl) (fun _ _ => rfl)
  | _ => exact ht

theorem Change.truthful {p q : ConnectionPool Key} (hp : p.Invariant) (ht : p.Truthful)
    (hchange : Change p q) : q.Truthful := by
  cases hchange with
  | grow hgrowth => exact hgrowth.truthful hp ht
  | release key r now =>
    have hrefreshed : ((p.release key r).refreshLocked r).Truthful :=
      refreshLocked_truthful ht r rfl rfl rfl (release_conn p key r)
        (fun b hb => release_item_of_ne p key r hb)
    unfold released markIdle
    split
    · exact hrefreshed.setItem rfl rfl rfl
    · exact hrefreshed
  | remove r hpooled =>
    have hremoved := removeLocked_removed hp.shape hpooled
    have hsame := p.removeLocked_sameDials r
    apply ht.update hsame.maxSessions hsame.connState
    intro b hb
    obtain ⟨hbefore, hne⟩ := (hremoved.pooled hpooled b).mp hb
    rw [hremoved.other b hne]
    exact ⟨hbefore, rfl, .inl ⟨rfl, rfl⟩⟩
  | clear =>
    intro b hb
    cases hb

/-! ## Waiting keys and free slots -/

def waitingKeys (p : ConnectionPool Key) : Finset Key :=
  p.bindings.keys.toFinset.filter fun key => p.routes.lookup key = none

def waiting (p : ConnectionPool Key) : Nat :=
  p.waitingKeys.card

/-- How many keys an item takes one after the other while no connection changes its
state. An item whose connection was closed takes one more before its priority is
refreshed. -/
def freeSlots (p : ConnectionPool Key) (r : ItemRef) : Nat :=
  if (p.item r).priority = .unavailable then 0
  else
    match p.connState (p.item r).conn with
    | .active | .connecting => (p.maxSessions - (p.item r).load).toNat
    | _ => 1

def room (p : ConnectionPool Key) : Nat :=
  Tally.total (fun _ r => p.freeSlots r) p.connections

theorem mem_waitingKeys {k} : k ∈ p.waitingKeys ↔ k ∈ p.bindings ∧ p.routes.lookup k = none := by
  simp [waitingKeys, AList.mem_keys]

theorem waiting_congr {p q : ConnectionPool Key} (hbindings : q.bindings = p.bindings)
    (hroutes : q.routes = p.routes) : q.waiting = p.waiting := by
  simp only [waiting, waitingKeys, hbindings, hroutes]

omit [DecidableEq Key] in
theorem room_congr {p q : ConnectionPool Key} (hconnections : q.connections = p.connections)
    (hfree : ∀ r, q.freeSlots r = p.freeSlots r) : q.room = p.room := by
  simp only [room, hconnections, hfree]

theorem freeSlots_pos (hp : p.Invariant) (hr : p.Pooled r) :
    0 < p.freeSlots r ↔ (p.item r).priority ≠ .unavailable := by
  unfold freeSlots
  split
  next hunavailable => simp [hunavailable]
  next havailable =>
    have hroom : (p.item r).load < p.maxSessions := by
      by_contra hfull
      exact havailable (hp.cached.full r (by simp) hr (not_lt.mp hfull))
    simp only [ne_eq, havailable, not_false_eq_true, iff_true]
    split <;> omega

/-- No slot is free exactly if no item is selectable. -/
theorem room_eq_zero_iff (hp : p.Invariant) :
    p.room = 0 ↔ ∀ r, p.Pooled r → (p.item r).priority = .unavailable := by
  constructor
  · intro hzero r hr
    by_contra havailable
    have hpos := total_pos (fun _ r => p.freeSlots r) hr
      ((freeSlots_pos hp hr).mpr havailable)
    rw [room] at hzero
    omega
  · intro hall
    by_contra hpos
    obtain ⟨c, r, hr, hfree⟩ := exists_of_total_pos (Nat.pos_of_ne_zero hpos)
    have hpooled := hp.shape.pooled_of_lookup hr
    exact (freeSlots_pos hp hpooled).mp hfree (hall r hpooled)

/-! ## Handing out free slots -/

variable {key : Key}

theorem attachLocked_waiting (r : ItemRef) (hbound : key ∈ p.bindings)
    (hunrouted : p.routes.lookup key = none) : (p.attachLocked key r).waiting + 1 = p.waiting := by
  have hkeys : (p.attachLocked key r).waitingKeys = p.waitingKeys.erase key := by
    ext k
    have hroutes : (p.attachLocked key r).routes.lookup k =
        if k = key then some r else p.routes.lookup k := recordRoute_routes p key r k
    rw [Finset.mem_erase, mem_waitingKeys, mem_waitingKeys, attachLocked_mem_bindings, hroutes]
    by_cases heq : k = key
    · simp [heq]
    · simp [heq]
  rw [waiting, hkeys]
  exact Finset.card_erase_add_one (mem_waitingKeys.mpr ⟨hbound, hunrouted⟩)

theorem attachLocked_freeSlots (hp : p.Invariant) (key : Key) (hselect : p.selectLocked = some r)
    (b : ItemRef) :
    (p.attachLocked key r).freeSlots b + (if b = r then 1 else 0) = p.freeSlots b := by
  have hroom := (selectLocked_spec hp.shape hp.cached hselect).2
  have havailable := (selectLocked_eq_some_iff.mp hselect).2
  by_cases hb : b = r
  · subst hb
    simp only [freeSlots, havailable, if_false, if_true, attachLocked, refreshLocked, recordRoute,
      priorityLocked, setItem, update_self]
    split
    · simp only [if_true]
      split
      · omega
      · omega
      · simp
    · cases p.connState (p.item b).conn <;> simp <;> omega
  · simp [freeSlots, attachLocked, hb]

theorem attachLocked_room (hp : p.Invariant) (key : Key) (hselect : p.selectLocked = some r) :
    (p.attachLocked key r).room + 1 = p.room := by
  have hpooled := (selectLocked_spec hp.shape hp.cached hselect).1
  have hself := attachLocked_freeSlots hp key hselect r
  rw [if_pos rfl] at hself
  have hupdate := total_update (fun _ b => (p.attachLocked key r).freeSlots b)
    (fun _ b => p.freeSlots b) hpooled (by
      intro c b hc hb
      have hne : b ≠ r := by
        rintro rfl
        exact hc (hp.shape.filed c b hb).symm
      have hother := attachLocked_freeSlots hp key hselect b
      rwa [if_neg hne, add_zero] at hother)
  change total _ p.connections + 1 = total _ p.connections
  omega

theorem waiting_eq_zero_iff : p.waiting = 0 ↔ ∀ k ∈ p.bindings, p.routes.lookup k ≠ none := by
  simp only [waiting, Finset.card_eq_zero, Finset.eq_empty_iff_forall_notMem, mem_waitingKeys,
    not_and]

variable {order : List Key}

/-- The waiting keys take the free slots until one of the two runs out. -/
theorem assignPendingLocked_counts (hp : p.Invariant) (hbound : ∀ k ∈ order, k ∈ p.bindings)
    (hcover : ∀ k ∈ p.bindings, p.routes.lookup k = none → k ∈ order) :
    (p.assignPendingLocked order).waiting = p.waiting - p.room ∧
      (p.assignPendingLocked order).room = p.room - p.waiting := by
  induction order generalizing p with
  | nil =>
    have hnone : p.waiting = 0 := by
      rw [waiting_eq_zero_iff]
      intro k hk hroute
      cases hcover k hk hroute
    simp [assignPendingLocked, hnone]
  | cons key rest ih =>
    have hkey := hbound key mem_cons_self
    have hrest := fun k hk => hbound k (mem_cons_of_mem key hk)
    simp only [assignPendingLocked]
    split
    next hrouted =>
      apply ih hp hrest
      intro k hk hroute
      rcases mem_cons.mp (hcover k hk hroute) with rfl | hmem
      · simp [hroute] at hrouted
      · exact hmem
    next hunrouted =>
      have hroute := not_isSome_iff_eq_none.mp hunrouted
      split
      next hnone =>
        have hzero := (room_eq_zero_iff hp).mpr (hp.selectLocked_eq_none_iff.mp hnone)
        simp [hzero]
      next r hselect =>
        have hwaiting := attachLocked_waiting r hkey hroute
        have hroom := attachLocked_room hp key hselect
        have hattached := attachLocked_invariant (hp.shape.exempt key) hp.positive hp.cached
          hroute hselect
        obtain ⟨hw, hm⟩ := ih hattached
          (fun k hk => (attachLocked_mem_bindings p key r k).mpr (.inr (hrest k hk))) (by
            intro k hk hunrouted
            have hroutes : (p.attachLocked key r).routes.lookup k =
                if k = key then some r else p.routes.lookup k := recordRoute_routes p key r k
            rw [hroutes] at hunrouted
            split at hunrouted
            · cases hunrouted
            next hne =>
              have hbefore := ((attachLocked_mem_bindings p key r k).mp hk).resolve_left hne
              exact (mem_cons.mp (hcover k hbefore hunrouted)).resolve_left hne)
        omega

theorem assignPendingLocked_connections (p : ConnectionPool Key) (order : List Key) :
    (p.assignPendingLocked order).connections = p.connections := by
  induction order generalizing p with
  | nil => rfl
  | cons key rest ih =>
    simp only [assignPendingLocked]
    split
    · exact ih p
    · split
      · rfl
      · exact ih _

/-! ## What the operations do to the counts -/

theorem insertBinding_waiting (hs : Shape none p) (hunbound : p.bindings.lookup key = none)
    (binding : Option ConnRef) :
    { p with bindings := p.bindings.insert key binding }.waiting = p.waiting + 1 := by
  have hnotMem : key ∉ p.waitingKeys := by
    rw [mem_waitingKeys]
    exact fun hmem => lookup_eq_none.mp hunbound hmem.1
  have hkeys : { p with bindings := p.bindings.insert key binding }.waitingKeys =
      insert key p.waitingKeys := by
    ext k
    rw [Finset.mem_insert, mem_waitingKeys, mem_waitingKeys, mem_insert]
    by_cases heq : k = key
    · subst heq
      simp [hs.unrouted_of_unbound hunbound]
    · simp [heq]
  rw [waiting, hkeys, Finset.card_insert_of_notMem hnotMem, waiting]

theorem eraseBinding_waiting_le (p : ConnectionPool Key) (key : Key) :
    { p with bindings := p.bindings.erase key }.waiting ≤ p.waiting := by
  apply Finset.card_le_card
  intro k hk
  rw [mem_waitingKeys, mem_erase] at hk
  exact mem_waitingKeys.mpr ⟨hk.1.2, hk.2⟩

theorem released_waiting (hrouted : p.routes.lookup key = some r) (now : Int) :
    (p.released key r now).waiting = p.waiting := by
  have hkeys : (p.released key r now).waitingKeys = p.waitingKeys := by
    ext k
    rw [mem_waitingKeys, mem_waitingKeys, released_bindings, released_routes, release_routes,
      mem_erase]
    by_cases heq : k = key
    · subst heq
      simp [hrouted]
    · simp [heq]
  rw [waiting, hkeys, waiting]

/-- The sessions of a removed item wait again. -/
theorem removeLocked_waiting (hs : Shape none p) (hr : p.Pooled r) :
    ((p.removeLocked r).waiting : Int) = p.waiting + (p.item r).load := by
  have hremoved := removeLocked_removed hs hr
  have hkeys : (p.removeLocked r).waitingKeys =
      p.waitingKeys ∪ (p.item r).sessions.toFinset := by
    ext k
    rw [Finset.mem_union, List.mem_toFinset, mem_waitingKeys, mem_waitingKeys,
      hremoved.mem_bindings, hremoved.routes, hs.sessions r hr k]
    by_cases hroute : p.routes.lookup k = some r
    · have hbound : k ∈ p.bindings := mem_iff.mpr ⟨_, (hs.routed k r hroute).2⟩
      simp [hroute, hbound]
    · simp [hroute]
  have hdisjoint : Disjoint p.waitingKeys (p.item r).sessions.toFinset := by
    rw [Finset.disjoint_left]
    intro k hk hmem
    rw [List.mem_toFinset, hs.sessions r hr k, (mem_waitingKeys.mp hk).2] at hmem
    cases hmem
  rw [waiting, hkeys, Finset.card_union_of_disjoint hdisjoint,
    toFinset_card_of_nodup (hs.nodup r hr), hs.load r hr, waiting]
  rfl

theorem removeLocked_room (hs : Shape none p) (hr : p.Pooled r) :
    (p.removeLocked r).room + p.freeSlots r = p.room := by
  have hremoved := removeLocked_removed hs hr
  have hsame := p.removeLocked_sameDials r
  have hfree : ∀ b, b ≠ r → (p.removeLocked r).freeSlots b = p.freeSlots b := by
    intro b hb
    simp only [freeSlots, hremoved.other b hb, hsame.connState, hsame.maxSessions]
  have hrest : total (fun _ b => (p.removeLocked r).freeSlots b)
        (p.connections.erase (p.item r).conn) =
      total (fun _ b => p.freeSlots b) (p.connections.erase (p.item r).conn) := by
    apply total_congr
    intro c b hb
    apply hfree
    rintro rfl
    obtain ⟨hc, hold⟩ := lookup_erase_eq_some.mp hb
    exact hc (hs.filed c b hold).symm
  rw [room, hremoved.connections, hrest, room,
    total_eq_add_erase (fun _ b => p.freeSlots b) hr, add_comm]

theorem addConnection_room (hp : p.Invariant) :
    (p.addConnection .connecting).room = p.room + p.maxSessions.toNat := by
  have hpos := hp.positive
  have hnew : (p.addConnection .connecting).freeSlots p.allocated = p.maxSessions.toNat := by
    simp [freeSlots, priorityLocked, hpos]
  have hold : ∀ c b, p.connections.lookup c = some b →
      (p.addConnection .connecting).freeSlots b = p.freeSlots b := by
    intro c b hb
    obtain ⟨hitem, hconn⟩ := hp.shape.allocated b (hp.shape.pooled_of_lookup hb)
    have hstate : (p.addConnection .connecting).connState (p.item b).conn =
        p.connState (p.item b).conn := update_of_ne (ne_of_lt hconn) _ _
    simp only [freeSlots, p.addConnection_item_of_ne _ (ne_of_lt hitem), hstate]
    rfl
  rw [room, addConnection_connections_eq, total_insert_new _ hp.shape.unfiled, hnew,
    total_congr hold, room, add_comm]

theorem cleanupIdle_waiting (hp : p.Invariant) (now : Int) (order : List ConnRef) :
    (p.cleanupIdle now order).1.waiting = p.waiting := by
  refine cleanupIdle_preserves (fun q => q.waiting = p.waiting) ?_ hp rfl order
  intro q r hq hsame hpooled hexpired
  have hwaiting := removeLocked_waiting hq.shape hpooled
  rw [hexpired.2.1] at hwaiting
  omega

/-! ## No key waits beside free capacity -/

/-- No key waits, or every pooled item is unavailable. -/
def Settled (p : ConnectionPool Key) : Prop :=
  p.waiting = 0 ∨ ∀ r, p.Pooled r → (p.item r).priority = .unavailable

theorem Settled.waiting_eq_zero (hp : p.Invariant) (hs : p.Settled)
    (hselect : p.selectLocked = some r) : p.waiting = 0 := by
  rcases hs with hzero | hall
  · exact hzero
  · rw [hp.selectLocked_eq_none_iff.mpr hall] at hselect
    cases hselect

/-- Fewer keys wait and the items are the same or fewer. -/
theorem Settled.shrink {p q : ConnectionPool Key} (hs : p.Settled)
    (hwaiting : q.waiting ≤ p.waiting)
    (hitem : ∀ r, q.Pooled r → p.Pooled r ∧ (q.item r).priority = (p.item r).priority) :
    q.Settled := by
  rcases hs with hzero | hall
  · left
    omega
  · right
    intro r hr
    obtain ⟨hpooled, hpriority⟩ := hitem r hr
    exact hpriority.trans (hall r hpooled)

theorem Settled.frame {p q : ConnectionPool Key} (hs : p.Settled)
    (hbindings : q.bindings = p.bindings) (hroutes : q.routes = p.routes)
    (hconnections : q.connections = p.connections) (hitem : q.item = p.item) : q.Settled := by
  apply hs.shrink
  · exact (waiting_congr hbindings hroutes).le
  · intro r hr
    rw [Pooled, hconnections, hitem] at hr
    rw [hitem]
    exact ⟨hr, rfl⟩

theorem reserveDialLocked_settled (hs : p.Settled) : p.reserveDialLocked.1.Settled := by
  obtain ⟨hroutes, hbindings, hconnections, hitem⟩ := p.reserveDialLocked_frame
  exact hs.frame hbindings hroutes hconnections hitem

theorem reserveScaleLocked_settled (hs : p.Settled) : p.reserveScaleLocked.1.Settled := by
  obtain ⟨hroutes, hbindings, hconnections, hitem⟩ := p.reserveScaleLocked_frame
  exact hs.frame hbindings hroutes hconnections hitem

theorem reserveMinLocked_settled (hs : p.Settled) (rounds : Nat) :
    (p.reserveMinLocked rounds).1.Settled := by
  induction rounds generalizing p with
  | zero => exact hs
  | succ rounds ih =>
    unfold reserveMinLocked
    split
    · exact ih (hs.frame rfl rfl rfl rfl)
    · exact hs

/-- A key that was bound to nothing and takes a selectable item leaves no key waiting. -/
theorem attachLocked_settled (hp : p.Invariant) (hs : p.Settled)
    (hunbound : p.bindings.lookup key = none) (hselect : p.selectLocked = some r)
    (binding : Option ConnRef) :
    ({ p with bindings := p.bindings.insert key binding }.attachLocked key r).waiting = 0 := by
  have hzero := hs.waiting_eq_zero hp hselect
  have hinsert := insertBinding_waiting hp.shape hunbound binding
  have hattach := attachLocked_waiting (p := { p with bindings := p.bindings.insert key binding })
    r (mem_insert _ |>.mpr (.inl rfl)) (hp.shape.unrouted_of_unbound hunbound)
  omega

theorem bind_settled (hp : p.Invariant) (hs : p.Settled) (key : Key) : (p.bind key).1.Settled := by
  unfold bind
  split
  · exact hs
  next hunbound =>
    have hnone := lookup_eq_none.mpr hunbound
    dsimp only
    split
    next r hselect =>
      have hattached := attachLocked_settled hp hs hnone hselect none
      split
      · exact reserveScaleLocked_settled (.inl hattached)
      · exact .inl hattached
    next hselect =>
      have hall := hp.selectLocked_eq_none_iff.mp hselect
      exact reserveDialLocked_settled (.inr hall)

theorem tryBind_settled (hp : p.Invariant) (hs : p.Settled) (key : Key) :
    (p.tryBind key).1.Settled := by
  unfold tryBind
  split
  · exact hs
  next hunbound =>
    split
    · exact reserveDialLocked_settled hs
    next r hselect =>
      split
      · exact hs
      · exact reserveScaleLocked_settled
          (.inl (attachLocked_settled hp hs hunbound hselect _))

/-- A loop over all bound keys leaves a settled pool behind, whatever it starts from. -/
theorem assignPendingLocked_settled (hp : p.Invariant) (horder : ∀ k, k ∈ order ↔ k ∈ p.bindings) :
    (p.assignPendingLocked order).Settled := by
  obtain ⟨hwaiting, hroom⟩ := assignPendingLocked_counts hp (fun k hk => (horder k).mp hk)
    (fun k hk _ => (horder k).mpr hk)
  rw [Settled, ← room_eq_zero_iff (assignPendingLocked_invariant hp order)]
  omega

theorem unbind_settled (hp : p.Invariant) (hs : p.Settled) (now : Int)
    (horder : order.Perm (p.bindings.erase key).keys) : (p.unbind key now order).Settled := by
  cases hroute : p.routes.lookup key with
  | none =>
    rw [unbind_unrouted hroute]
    exact hs.shrink (p.eraseBinding_waiting_le key) (fun r hr => ⟨hr, rfl⟩)
  | some r =>
    rw [unbind_routed hp.shape hroute]
    apply assignPendingLocked_settled ((Change.release key r now hroute).invariant hp)
    intro k
    rw [released_bindings]
    exact horder.mem_iff

theorem startDial_settled (hp : p.Invariant) (hs : p.Settled) (state : ConnectionState)
    (horder : order.Perm p.bindings.keys) : (p.startDial state order).Settled := by
  unfold startDial
  dsimp only
  split
  · exact hs.frame rfl rfl rfl rfl
  · apply assignPendingLocked_settled (addConnection_invariant (finishDial_invariant hp) state)
    exact fun k => horder.mem_iff

/-- The priority of an unavailable item is refreshed to the same while its connection
is not closed. -/
theorem refreshLocked_settled (hs : p.Settled) (ht : p.Truthful) (hr : p.Pooled r)
    (hopen : p.connState (p.item r).conn ≠ .closed) : (p.refreshLocked r).Settled := by
  rcases hs with hzero | hall
  · left
    exact (waiting_congr rfl rfl).trans hzero
  · right
    intro b hb
    have hpooled : (p.refreshLocked r).Pooled b ↔ p.Pooled b :=
      pooled_congr rfl (refreshLocked_conn p r b)
    by_cases heq : b = r
    · subst heq
      have hfull := ((ht b hr).2 (hall b hr)).resolve_right hopen
      simpa using priorityLocked_of_full hfull
    · simpa [heq] using hall b (hpooled.mp hb)

theorem recorded_settled (hs : p.Settled) (r : ItemRef) (state : ConnectionState) :
    (p.recorded r state).Settled := by
  obtain ⟨-, hroutes, hbindings, -⟩ := p.recorded_frame r state
  apply hs.shrink (waiting_congr hbindings hroutes).le
  intro b hb
  exact ⟨(p.recorded_pooled r state b).mp hb,
    recorded_congr (·.priority) (fun _ _ => rfl) p r state b⟩

theorem syncConnectionState_settled (hp : p.Invariant) (hs : p.Settled) (ht : p.Truthful)
    (conn : ConnRef) (horder : order.Perm p.bindings.keys) :
    (p.syncConnectionState conn order).Settled := by
  cases hr : p.connections.lookup conn with
  | none =>
    simp only [syncConnectionState, hr]
    exact hs
  | some r =>
    have hpooled := hp.shape.pooled_of_lookup hr
    have hrecorded := (p.recorded_pooled r (p.connState conn) r).mpr hpooled
    have hgrowths := recorded_growths hpooled (p.connState conn)
    rw [syncConnectionState_eq hr]
    split
    next hclosed =>
      rw [hclosed] at hrecorded hgrowths
      apply assignPendingLocked_settled
        (removeLocked_invariant (hgrowths.invariant hp) hrecorded)
      intro k
      rw [removed_mem_bindings hp hpooled]
      exact horder.mem_iff
    next hopen =>
      have htruthful := Growths.preserves Truthful
        (fun _ _ hp ht hgrowth => hgrowth.truthful hp ht) hp ht hgrowths
      apply refreshLocked_settled (recorded_settled hs r _) htruthful hrecorded
      rw [(p.recorded_sameDials r _).connState,
        recorded_congr (·.conn) (fun _ _ => rfl), hp.shape.filed conn r hr]
      exact hopen

theorem cleanupIdle_settled (hp : p.Invariant) (hs : p.Settled) (now : Int) (order : List ConnRef) :
    (p.cleanupIdle now order).1.Settled := by
  apply hs.shrink (cleanupIdle_waiting hp now order).le
  intro r hr
  obtain ⟨hpooled, hitem⟩ := cleanupIdle_keeps hp hr
  exact ⟨hpooled, by rw [hitem]⟩

end ConnectionPool

namespace PoolSystem

variable [DecidableEq Key]

/-- What the allocation relies on. -/
structure Allocated (s : PoolSystem Key) : Prop where
  invariant : s.pool.Invariant
  truthful : s.pool.Truthful
  settled : s.pool.Settled

theorem step_settled {s s' : PoolSystem Key} {event} (hs : s.Allocated)
    (hstep : s.step event = some s') : s'.pool.Settled := by
  obtain ⟨hp, ht, hsettled⟩ := hs
  cases steps_of_step hstep with
  | elapse | idle | setConnState => exact hsettled
  | startMinConnections => exact reserveMinLocked_settled hsettled _
  | bind key => exact bind_settled hp hsettled key
  | tryBind key => exact tryBind_settled hp hsettled key
  | unbind key order horder => exact unbind_settled hp hsettled s.clock horder
  | dialFailed | shutdown => exact hsettled.frame rfl rfl rfl rfl
  | dialed order _ horder => exact startDial_settled hp hsettled .connecting horder
  | sync conn order _ horder => exact syncConnectionState_settled hp hsettled ht conn horder
  | cleanupIdle now order => exact cleanupIdle_settled hp hsettled now order
  | clear => exact .inl rfl

theorem step_allocated {s s' : PoolSystem Key} {event} (hs : s.Allocated)
    (hstep : s.step event = some s') : s'.Allocated where
  invariant := step_pool_invariant hs.invariant hstep
  truthful := step_pool_property ConnectionPool.Truthful
    (fun _ _ hp ht hchange => hchange.truthful hp ht) (fun _ ht => ht) hs.invariant hs.truthful
    hstep
  settled := step_settled hs hstep

theorem initial_allocated (config : ConnectionPoolConfig) :
    (initial config : PoolSystem Key).Allocated := by
  refine ⟨initial_pool_invariant config, ?_, .inl rfl⟩
  intro r hr
  cases hr

theorem run_allocated {config events} {s : PoolSystem Key}
    (hrun : run step (initial config) events = some s) : s.Allocated :=
  run_invariant Allocated step_allocated
    (initial_allocated config) hrun

/-- In every state of every run, if some bound key has no route then every pooled item
is cached as unavailable: it is full or its connection was closed. -/
theorem run_waiting_unavailable (config : ConnectionPoolConfig) (events : List (Event Key))
    {s : PoolSystem Key} (hrun : run step (initial config) events = some s)
    {key : Key} (hbound : key ∈ s.pool.bindings)
    (hunrouted : s.pool.routes.lookup key = none) :
    ∀ r, s.pool.Pooled r → (s.pool.item r).priority = .unavailable ∧
      ((s.pool.item r).load = s.pool.maxSessions ∨
        s.pool.connState (s.pool.item r).conn = .closed) := by
  obtain ⟨hp, ht, hsettled⟩ := run_allocated hrun
  have hwaiting : s.pool.waiting ≠ 0 := by
    rw [ne_eq, waiting_eq_zero_iff]
    exact fun hnone => hnone key hbound hunrouted
  intro r hr
  have hunavailable := hsettled.resolve_left hwaiting r hr
  refine ⟨hunavailable, ?_⟩
  rcases (ht r hr).2 hunavailable with hfull | hclosed
  · exact .inl (le_antisymm (hp.shape.capacity r hr) hfull)
  · exact .inr hclosed

/-- The second key waits beside a connection that carries its only session. -/
theorem run_waiting_unavailable_full : ∃ s : PoolSystem Nat,
    run step (initial ⟨1, 1, 1, 0, 10, 1⟩) [.bind 7, .bind 8, .dialed [7, 8]] =
      some s ∧
    8 ∈ s.pool.bindings ∧ s.pool.routes.lookup 8 = none ∧
    ∀ r, s.pool.Pooled r → (s.pool.item r).priority = .unavailable ∧
      ((s.pool.item r).load = s.pool.maxSessions ∨
        s.pool.connState (s.pool.item r).conn = .closed) := by
  obtain ⟨s, hs, hbound, hunrouted⟩ := exists_of_decide
    (run step (initial ⟨1, 1, 1, 0, 10, 1⟩) [.bind 7, .bind 8, .dialed [7, 8]])
    (fun s => 8 ∈ s.pool.bindings.keys ∧ s.pool.routes.lookup 8 = none) (by decide +kernel)
  exact ⟨s, hs, hbound, hunrouted, run_waiting_unavailable _ _ hs hbound hunrouted⟩

end PoolSystem

end Voce.Gateway
