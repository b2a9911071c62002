import Voce.Gateway.ConnectionPoolDials

/-! # Session affinity and reclamation of idle connections

A routed key keeps its item, its connection and its binding through every event
but its own unbinding, the removal of that connection after it was closed, and a
shutdown. The cleanup removes items by the time stamp that `Unbind` leaves on an
item without sessions. An item that was added and never used carries no stamp,
however long it has been without sessions.
-/

namespace Voce.Gateway

open Protocol ConnectionPool Transition List Option Growths

variable {Key : Type}

namespace ConnectionPool

theorem refreshLocked_conn (p : ConnectionPool Key) (r b : ItemRef) :
    ((p.refreshLocked r).item b).conn = (p.item b).conn := by
  refine setItem_item_congr (·.conn) p r ?_ b
  rfl

theorem markIdle_conn (p : ConnectionPool Key) (r : ItemRef) (now : Int) :
    ∀ b, ((p.markIdle r now).item b).conn = (p.item b).conn := by
  unfold markIdle
  split
  · exact setItem_item_congr (·.conn) p r rfl
  · exact fun _ => rfl

/-! ## Time stamps -/

/-- A pooled item has no stamp, or has its stamp and its sessions from before. -/
def StampsKept (p q : ConnectionPool Key) : Prop :=
  ∀ r, q.Pooled r → (q.item r).idleSince = none ∨
    p.Pooled r ∧ (q.item r).idleSince = (p.item r).idleSince ∧
      (q.item r).sessions = (p.item r).sessions

variable {p q s : ConnectionPool Key}

theorem StampsKept.trans (hq : StampsKept p q) (hs : StampsKept q s) : StampsKept p s := by
  intro r hr
  rcases hs r hr with hnone | ⟨hpooled, hstamp, hsessions⟩
  · exact .inl hnone
  · rcases hq r hpooled with hnone | ⟨hbefore, hstamp', hsessions'⟩
    · exact .inl (hstamp.trans hnone)
    · exact .inr ⟨hbefore, hstamp.trans hstamp', hsessions.trans hsessions'⟩

theorem StampsKept.congr (hconnections : q.connections = p.connections)
    (hconn : ∀ r, (q.item r).conn = (p.item r).conn)
    (hstamp : ∀ r, (q.item r).idleSince = (p.item r).idleSince)
    (hsessions : ∀ r, (q.item r).sessions = (p.item r).sessions) : StampsKept p q :=
  fun r hr => .inr ⟨(pooled_congr hconnections (hconn r)).mp hr, hstamp r, hsessions r⟩

theorem StampsKept.setItem (r : ItemRef) {item} (hconn : item.conn = (p.item r).conn)
    (hstamp : item.idleSince = (p.item r).idleSince)
    (hsessions : item.sessions = (p.item r).sessions) : StampsKept p (p.setItem r item) :=
  .congr rfl (setItem_item_congr (·.conn) p r hconn)
    (setItem_item_congr (·.idleSince) p r hstamp) (setItem_item_congr (·.sessions) p r hsessions)

/-- Every stamp of a pooled item is from before and the item was without sessions
then, or is from now and the item has just lost its last session. -/
def Marked (p : ConnectionPool Key) (clock : Int) (q : ConnectionPool Key) : Prop :=
  ∀ r, q.Pooled r → ∀ t, (q.item r).idleSince = some t →
    (q.item r).sessions = [] ∧ p.Pooled r ∧
      ((p.item r).idleSince = some t ∧ (p.item r).sessions = [] ∨
        t = clock ∧ (p.item r).sessions ≠ [])

theorem Marked.of_stampsKept {clock} (hmarked : Marked p clock q)
    (hkept : StampsKept q s) : Marked p clock s := by
  intro r hr t ht
  rcases hkept r hr with hnone | ⟨hpooled, hstamp, hsessions⟩
  · rw [hnone] at ht
    cases ht
  · rw [hsessions]
    exact hmarked r hpooled t (hstamp.symm.trans ht)

end ConnectionPool

variable [DecidableEq Key]

namespace ConnectionPool

/-! ## Affinity -/

/-- The key is routed to the item, which holds the connection. -/
structure RoutedTo (k : Key) (r : ItemRef) (conn : ConnRef) (p : ConnectionPool Key) : Prop where
  route : p.routes.lookup k = some r
  conn : (p.item r).conn = conn

section RoutedTo

variable {p q : ConnectionPool Key} {k : Key} {r : ItemRef} {conn : ConnRef}

theorem RoutedTo.refreshLocked (hrouted : RoutedTo k r conn p) (b : ItemRef) :
    RoutedTo k r conn (p.refreshLocked b) :=
  ⟨hrouted.route, (refreshLocked_conn p b r).trans hrouted.conn⟩

theorem Growth.routedTo (hp : p.Invariant) (hrouted : RoutedTo k r conn p)
    (hgrowth : Growth p q) : RoutedTo k r conn q := by
  have hpooled := (hp.shape.routed k r hrouted.route).1
  cases hgrowth with
  | addConnection =>
    refine ⟨hrouted.route, ?_⟩
    have hne : r ≠ p.finishDial.allocated := (hp.shape.allocated r hpooled).1.ne
    rw [addConnection_item_of_ne p.finishDial .connecting hne]
    exact hrouted.conn
  | attach key b hbound hunrouted hselect =>
    have hne : k ≠ key := by
      intro heq
      have hroute := hrouted.route
      rw [heq, hunrouted] at hroute
      cases hroute
    apply RoutedTo.refreshLocked
    refine ⟨?_, (recordRoute_conn p key b r).trans hrouted.conn⟩
    rw [recordRoute_routes, if_neg hne]
    exact hrouted.route
  | recordState b state =>
    have hconn : ∀ c, ((p.setItem b { p.item b with state := state }).item c).conn =
        (p.item c).conn := setItem_item_congr (·.conn) p b rfl
    exact ⟨hrouted.route, (hconn r).trans hrouted.conn⟩
  | refresh b => exact hrouted.refreshLocked b
  | _ =>
    exact ⟨hrouted.route, hrouted.conn⟩

theorem released_routes (p : ConnectionPool Key) (key : Key) (b : ItemRef) (now : Int) :
    (p.released key b now).routes = (p.release key b).routes := by
  rw [released, (markIdle_frame _ b now).2.1]
  simp

theorem RoutedTo.released (hrouted : RoutedTo k r conn p) {key} (hne : k ≠ key) (b : ItemRef)
    (now : Int) : RoutedTo k r conn (p.released key b now) where
  route := by
    rw [released_routes, release_routes, if_neg hne]
    exact hrouted.route
  conn := by
    rw [ConnectionPool.released, markIdle_conn, refreshLocked_conn, release_conn]
    exact hrouted.conn

/-- Removing another item leaves the route alone. -/
theorem RoutedTo.removeLocked (hs : Shape none p) (hrouted : RoutedTo k r conn p) {b}
    (hb : p.Pooled b) (hne : r ≠ b) : RoutedTo k r conn (p.removeLocked b) := by
  have hremoved := removeLocked_removed hs hb
  have hother : p.routes.lookup k ≠ some b := by
    rw [hrouted.route]
    exact fun heq => hne (some.inj heq)
  refine ⟨?_, (hremoved.conn_eq r).trans hrouted.conn⟩
  rw [hremoved.routes, if_neg hother]
  exact hrouted.route

theorem RoutedTo.recorded (hrouted : RoutedTo k r conn p) (b : ItemRef)
    (state : ConnectionState) : RoutedTo k r conn (p.recorded b state) where
  route := by
    rw [(p.recorded_frame b state).2.1]
    exact hrouted.route
  conn := (recorded_congr (·.conn) (fun _ _ => rfl) p b state r).trans hrouted.conn

/-- The cleanup removes items without sessions only. -/
theorem RoutedTo.cleanupIdle (hp : p.Invariant) (hrouted : RoutedTo k r conn p) (now : Int)
    (order : List ConnRef) : RoutedTo k r conn (p.cleanupIdle now order).1 := by
  refine cleanupIdle_preserves (RoutedTo k r conn) ?_ hp hrouted order
  intro q b hq hrouted hpooled hexpired
  refine hrouted.removeLocked hq.shape hpooled ?_
  rintro rfl
  exact Int.ne_of_gt (hq.shape.load_pos hrouted.route) hexpired.2.1

end RoutedTo

end ConnectionPool

namespace PoolSystem

/-- The events that may take a key off its connection: its unbinding, a callback
of the connection after it was closed, and the end of a shutdown. -/
def Releases (k : Key) (conn : ConnRef) (s : PoolSystem Key) : Event Key → Prop
  | .unbind key _ => key = k
  | .onConnectionOpen c _ | .onConnectionClose c _ => c = conn ∧ s.pool.connState conn = .closed
  | .clear => True
  | _ => False

theorem Effect.routedTo {s : PoolSystem Key} {event} {pool : ConnectionPool Key} {k r conn}
    (hp : s.pool.Invariant) (hrouted : s.pool.RoutedTo k r conn) (heffect : Effect s event pool)
    (hkeeps : ¬ Releases k conn s event) : pool.RoutedTo k r conn := by
  have hgrow : ∀ {p q : ConnectionPool Key}, p.Invariant → p.RoutedTo k r conn →
      Growths p q → q.RoutedTo k r conn :=
    preserves (ConnectionPool.RoutedTo k r conn)
      fun _ _ hp hrouted hgrowth => hgrowth.routedTo hp hrouted
  cases heffect with
  | grows hgrowths => exact hgrow hp hrouted hgrowths
  | @unbinds key order b hb horder =>
    have hinvariant := (Change.release key b s.clock hb).invariant hp
    exact hgrow hinvariant (hrouted.released (fun heq => hkeeps heq.symm) b s.clock)
      (assign_released_growths horder)
  | @removes _ c order b hcallback hfiled hclosed horder =>
    have hpooled := hp.shape.pooled_of_lookup hfiled
    have hrecorded := recorded_growths hpooled .closed
    have hinvariant := invariant hp hrecorded
    have hstill := (s.pool.recorded_pooled b .closed b).mpr hpooled
    have hne : r ≠ b := by
      intro heq
      have hconn : c = conn := by
        rw [← hrouted.conn, heq]
        exact (hp.shape.filed c b hfiled).symm
      subst hconn
      rcases hcallback with rfl | rfl <;> exact hkeeps ⟨rfl, hclosed⟩
    exact hgrow (removeLocked_invariant hinvariant hstill)
      ((hrouted.recorded b .closed).removeLocked hinvariant.shape hstill hne)
      (assign_removed_growths hp hpooled horder)
  | @cleans now order => exact hrouted.cleanupIdle hp now order
  | closes => exact ⟨hrouted.route, hrouted.conn⟩
  | clears => exact absurd trivial hkeeps

end PoolSystem

namespace ConnectionPool

variable {p q : ConnectionPool Key}

theorem recordRoute_stampsKept (p : ConnectionPool Key) (key : Key) (r : ItemRef) :
    StampsKept p (p.recordRoute key r) := by
  intro b hb
  by_cases hbr : b = r
  · subst hbr
    exact .inl (by simp)
  · rw [recordRoute_item_of_ne p key r hbr]
    exact .inr ⟨(recordRoute_pooled p key r b).mp hb, rfl, rfl⟩

theorem Growth.stampsKept (hp : p.Invariant) (hgrowth : Growth p q) : StampsKept p q := by
  cases hgrowth with
  | addConnection =>
    intro r hr
    rcases addConnection_cases (finishDial_invariant hp).shape hr with rfl | ⟨hpooled, hitem⟩
    · exact .inl (by simp [ConnectionPool.addConnection, setItem])
    · rw [hitem]
      exact .inr ⟨hpooled, rfl, rfl⟩
  | attach key r =>
    exact (recordRoute_stampsKept p key r).trans (StampsKept.setItem r rfl rfl rfl)
  | recordState r state | refresh r => exact StampsKept.setItem r rfl rfl rfl
  | _ =>
    exact .congr rfl (fun _ => rfl) (fun _ => rfl) (fun _ => rfl)

theorem stampsKept (hp : p.Invariant) (hgrowths : Growths p q) : StampsKept p q :=
  preserves (StampsKept p)
    (fun _ _ hbefore hkept hgrowth => hkept.trans (hgrowth.stampsKept hbefore)) hp
    (.congr rfl (fun _ => rfl) (fun _ => rfl) (fun _ => rfl)) hgrowths

theorem removeLocked_stampsKept (hs : Shape none p) {r} (hr : p.Pooled r) :
    StampsKept p (p.removeLocked r) := by
  have hremoved := removeLocked_removed hs hr
  intro b hb
  obtain ⟨hpooled, hne⟩ := (hremoved.pooled hr b).mp hb
  rw [hremoved.other b hne]
  exact .inr ⟨hpooled, rfl, rfl⟩

/-- An item that the cleanup leaves in the pool was not touched. -/
theorem cleanupIdle_keeps {now order r} (hp : p.Invariant)
    (hr : (p.cleanupIdle now order).1.Pooled r) :
    p.Pooled r ∧ (p.cleanupIdle now order).1.item r = p.item r := by
  refine cleanupIdle_preserves (fun q => q.Pooled r → p.Pooled r ∧ q.item r = p.item r) ?_ hp
    (fun hr => ⟨hr, rfl⟩) order hr
  intro q b hq hkeeps hpooled _ hr
  have hremoved := removeLocked_removed hq.shape hpooled
  obtain ⟨hbefore, hne⟩ := (hremoved.pooled hpooled r).mp hr
  rw [hremoved.other r hne]
  exact hkeeps hbefore

theorem cleanupIdle_stampsKept (hp : p.Invariant) (now : Int) (order : List ConnRef) :
    StampsKept p (p.cleanupIdle now order).1 := by
  intro r hr
  obtain ⟨hpooled, hitem⟩ := cleanupIdle_keeps hp hr
  rw [hitem]
  exact .inr ⟨hpooled, rfl, rfl⟩

section Released

variable (p : ConnectionPool Key) (key : Key) (r : ItemRef) (now : Int)

theorem released_item_of_ne {b} (hb : b ≠ r) : (p.released key r now).item b = p.item b := by
  rw [← release_item_of_ne p key r hb]
  unfold released markIdle
  split <;> simp [hb]

theorem released_item_self :
    ((p.released key r now).item r).sessions = (p.item r).sessions.erase key ∧
      ((p.released key r now).item r).load = (p.item r).load - 1 ∧
      ((p.released key r now).item r).idleSince =
        if (p.item r).load - 1 = 0 then some now else (p.item r).idleSince := by
  have hrefreshed : ((p.release key r).refreshLocked r).item r =
      { (p.release key r).item r with priority := (p.release key r).priorityLocked r } := by
    simp
  have hload : (((p.release key r).refreshLocked r).item r).load = (p.item r).load - 1 := by
    rw [hrefreshed, release_item_self]
  unfold released markIdle
  rw [hload]
  split
  · rw [setItem_item_self, hrefreshed, release_item_self]
    exact ⟨rfl, rfl, rfl⟩
  · rw [hrefreshed, release_item_self]
    exact ⟨rfl, rfl, rfl⟩

theorem released_pooled (b : ItemRef) : (p.released key r now).Pooled b ↔ p.Pooled b := by
  apply pooled_congr (released_connections p key r now)
  rw [released, markIdle_conn, refreshLocked_conn, release_conn]

end Released

theorem released_marked {p : ConnectionPool Key} (hs : Shape none p) {clock}
    (hmarked : Marked p clock p) {key r} (hrouted : p.routes.lookup key = some r) :
    Marked p clock (p.released key r clock) := by
  intro b hb t ht
  have hbefore := (released_pooled p key r clock b).mp hb
  by_cases hbr : b = r
  · subst hbr
    obtain ⟨hsessions, hload, hstamp⟩ := released_item_self p key b clock
    have hmem : key ∈ (p.item b).sessions := (hs.sessions b hbefore key).mpr hrouted
    have hne : (p.item b).sessions ≠ [] := ne_nil_of_mem hmem
    rw [hstamp] at ht
    split at ht
    · refine ⟨?_, hbefore, .inr ⟨(some.inj ht).symm, hne⟩⟩
      have hlength := hs.load b hbefore
      rw [hsessions, ← length_eq_zero_iff, length_erase_of_mem hmem]
      omega
    · exact absurd (hmarked b hbefore t ht).1 hne
  · rw [released_item_of_ne p key r clock hbr] at ht ⊢
    exact hmarked b hbefore t ht

end ConnectionPool

namespace PoolSystem

/-- Every stamp is the time from which its item has been without sessions. -/
def Stamped (s : PoolSystem Key) : Prop :=
  ∀ r, s.pool.Pooled r → ∀ t, (s.pool.item r).idleSince = some t →
    (s.pool.item r).sessions = [] ∧ s.emptySince r = t

variable {event : Event Key}

theorem Effect.marked {s : PoolSystem Key} {pool : ConnectionPool Key} (hp : s.pool.Invariant)
    (hs : s.Stamped) (heffect : Effect s event pool) : s.pool.Marked s.clock pool := by
  have hself : s.pool.Marked s.clock s.pool :=
    fun r hr t ht => ⟨(hs r hr t ht).1, hr, .inl ⟨ht, (hs r hr t ht).1⟩⟩
  cases heffect with
  | grows hgrowths => exact hself.of_stampsKept (stampsKept hp hgrowths)
  | @unbinds key order r hrouted horder =>
    apply (released_marked hp.shape hself hrouted).of_stampsKept
    exact stampsKept ((Change.release key r s.clock
      hrouted).invariant hp) (assign_released_growths horder)
  | @removes _ conn order r _ hfiled _ horder =>
    have hpooled := hp.shape.pooled_of_lookup hfiled
    have hrecorded := recorded_growths hpooled .closed
    have hinvariant := invariant hp hrecorded
    have hstill := (s.pool.recorded_pooled r .closed r).mpr hpooled
    apply hself.of_stampsKept
    apply ((stampsKept hp hrecorded).trans
      (removeLocked_stampsKept hinvariant.shape hstill)).trans
    exact stampsKept
      (removeLocked_invariant hinvariant hstill)
      (assign_removed_growths hp hpooled horder)
  | @cleans now order =>
    exact hself.of_stampsKept (cleanupIdle_stampsKept hp now order)
  | closes => exact hself
  | clears =>
    intro r hr
    cases hr

/-- How an event moves the times from which items are without sessions. -/
theorem step_emptySince {s s' : PoolSystem Key} (hstep : s.step event = some s') :
    s'.pool = s.pool ∧ s'.emptySince = s.emptySince ∨
      s'.emptySince = (s.become s'.pool s'.dials).emptySince := by
  cases steps_of_step hstep with
  | elapse | idle => exact .inl ⟨rfl, rfl⟩
  | _ => exact .inr rfl

theorem step_stamped {s s' : PoolSystem Key} (hp : s.pool.Invariant) (hs : s.Stamped)
    (hstep : s.step event = some s') : s'.Stamped := by
  intro r hr t ht
  rcases step_emptySince hstep with ⟨hpool, hsince⟩ | hsince
  · rw [hpool] at hr ht ⊢
    rw [hsince]
    exact hs r hr t ht
  · obtain ⟨hempty, hbefore, hwhen⟩ := (step_effect hp hstep).marked hp hs r hr t ht
    refine ⟨hempty, ?_⟩
    rw [hsince]
    simp only [become, hempty, ne_eq, not_true_eq_false, or_false]
    rcases hwhen with ⟨hstamp, hnone⟩ | ⟨rfl, hsome⟩
    · rw [if_pos ⟨hbefore, hnone⟩]
      exact (hs r hbefore t hstamp).2
    · rw [if_neg (fun h => hsome h.2)]

theorem run_stamped {config events} {s : PoolSystem Key}
    (hrun : run step (initial config) events = some s) : s.Stamped := by
  have hboth : s.pool.Invariant ∧ s.Stamped := by
    refine run_invariant (fun s => s.pool.Invariant ∧ s.Stamped) ?_
      ⟨initial_pool_invariant config, nofun⟩ hrun
    rintro before event after ⟨hp, hs⟩ hstep
    exact ⟨step_pool_invariant hp hstep, step_stamped hp hs hstep⟩
  exact hboth.2

end PoolSystem

/-! ## Cleanup -/

namespace ConnectionPool

variable (p : ConnectionPool Key)

/-- The item carries no load and its stamp is old enough. -/
def Reclaimable (r : ItemRef) (now : Int) : Prop :=
  (p.item r).load = 0 ∧ (p.item r).idleSince.any fun since => now - since ≥ p.idleTimeout

instance (r : ItemRef) (now : Int) : Decidable (p.Reclaimable r now) :=
  inferInstanceAs (Decidable (_ ∧ _))

/-- The connections among the given ones whose item is reclaimable. -/
def reclaimable (now : Int) (conns : List ConnRef) : Nat :=
  conns.countP fun conn => (p.connections.lookup conn).any fun r => p.Reclaimable r now

section Cleanup

variable {p : ConnectionPool Key} {now : Int} {r : ItemRef}

/-- Removing an item leaves the others as reclaimable as they were. -/
theorem removeLocked_reclaimable (hp : p.Invariant) (hr : p.Pooled r) {b} (hne : b ≠ r) :
    (p.removeLocked r).Reclaimable b now ↔ p.Reclaimable b now := by
  have hremoved := removeLocked_removed hp.shape hr
  simp only [Reclaimable, hremoved.other b hne, (removeLocked_sameDials p r).idleTimeout]

theorem removeLocked_reclaimable_count (hp : p.Invariant) {conn}
    (hr : p.connections.lookup conn = some r) {rest} (hrest : conn ∉ rest) :
    (p.removeLocked r).reclaimable now rest = p.reclaimable now rest := by
  have hpooled := hp.shape.pooled_of_lookup hr
  have hremoved := removeLocked_removed hp.shape hpooled
  apply countP_congr
  intro c hc
  have hne : c ≠ (p.item r).conn := by
    rw [hp.shape.filed conn r hr]
    exact fun heq => hrest (heq ▸ hc)
  rw [hremoved.connections, AList.lookup_erase_ne hne]
  cases hb : p.connections.lookup c with
  | none => simp
  | some b =>
    have hbr : b ≠ r := by
      intro heq
      rw [heq] at hb
      exact hne (hp.shape.filed c r hb).symm
    simp [removeLocked_reclaimable hp hpooled hbr]

variable {order : List ConnRef}

/-- How many connections the cleanup leaves: it reclaims down to the minimum. -/
theorem cleanupIdle_size (hp : p.Invariant) (hnodup : order.Nodup) :
    ((p.cleanupIdle now order).1.connections.keys.length : Int) =
      max (min (p.connections.keys.length : Int) p.minConns)
        (p.connections.keys.length - p.reclaimable now order) := by
  induction order generalizing p with
  | nil => simp [cleanupIdle, reclaimable]
  | cons conn rest ih =>
    obtain ⟨hnot, hrest⟩ := nodup_cons.mp hnodup
    have hcount : p.reclaimable now (conn :: rest) = p.reclaimable now rest +
        if (p.connections.lookup conn).any fun r => p.Reclaimable r now then 1 else 0 :=
      countP_cons
    unfold cleanupIdle
    split
    next hnone =>
      rw [ih hp hrest, hcount, hnone]
      simp
    next r hr =>
      rw [hr] at hcount
      split
      next hexpired =>
        obtain ⟨hmore, hreclaimable⟩ := hexpired
        have hpooled := hp.shape.pooled_of_lookup hr
        have hsize := removeLocked_size hp.shape hpooled
        have hthis : p.Reclaimable r now := hreclaimable
        rw [ih (removeLocked_invariant hp hpooled) hrest,
          removeLocked_reclaimable_count hp hr hnot, (removeLocked_sameDials p r).minConns,
          hcount]
        simp only [any_some, hthis, decide_true, if_true]
        omega
      next hkept =>
        rw [ih hp hrest, hcount]
        simp only [any_some, decide_eq_true_eq]
        split
        next hthis =>
          have hfew : ¬ (p.connections.keys.length : Int) > p.minConns :=
            fun hmore => hkept ⟨hmore, hthis⟩
          omega
        · simp

/-- Only reclaimable items are removed. -/
theorem cleanupIdle_removes (hp : p.Invariant) (hr : p.Pooled r)
    (hgone : ¬ (p.cleanupIdle now order).1.Pooled r) : p.Reclaimable r now := by
  induction order generalizing p with
  | nil => exact absurd hr hgone
  | cons conn rest ih =>
    unfold cleanupIdle at hgone
    split at hgone
    · exact ih hp hr hgone
    next b hb =>
      have hpooled := hp.shape.pooled_of_lookup hb
      split at hgone
      next hexpired =>
        by_cases hrb : r = b
        · rw [hrb]
          exact hexpired.2
        · have hstill := ((removeLocked_removed hp.shape hpooled).pooled hpooled r).mpr ⟨hr, hrb⟩
          have hthis := ih (removeLocked_invariant hp hpooled) hstill hgone
          exact (removeLocked_reclaimable hp hpooled hrb).mp hthis
      · exact ih hp hr hgone

/-- Above the minimum no reclaimable item is left. -/
theorem cleanupIdle_exhausts (hp : p.Invariant) (hnodup : order.Nodup)
    (hr : (p.cleanupIdle now order).1.Pooled r) (hthis : p.Reclaimable r now)
    (hmem : (p.item r).conn ∈ order) :
    ((p.cleanupIdle now order).1.connections.keys.length : Int) ≤ p.minConns := by
  induction order generalizing p with
  | nil => cases hmem
  | cons conn rest ih =>
    obtain ⟨hnot, hrest⟩ := nodup_cons.mp hnodup
    have hbefore := (cleanupIdle_keeps hp hr).1
    have hlater : (p.item r).conn ≠ conn → (p.item r).conn ∈ rest :=
      (mem_cons.mp hmem).resolve_left
    unfold cleanupIdle at hr ⊢
    split at hr
    next hnone =>
      refine ih hp hrest hr hthis (hlater ?_)
      intro heq
      rw [← heq, hbefore] at hnone
      cases hnone
    next b hb =>
      have hpooled := hp.shape.pooled_of_lookup hb
      split at hr
      next hexpired =>
        have hinvariant := removeLocked_invariant hp hpooled
        obtain ⟨-, hne⟩ := ((removeLocked_removed hp.shape hpooled).pooled hpooled r).mp
          (cleanupIdle_keeps hinvariant hr).1
        have hitem := (removeLocked_removed hp.shape hpooled).other r hne
        have hconn : (p.item r).conn ≠ conn := by
          intro heq
          rw [Pooled, heq, hb] at hbefore
          exact hne (some.inj hbefore).symm
        simp only [hexpired, if_true]
        rw [← (removeLocked_sameDials p b).minConns]
        exact ih hinvariant hrest hr ((removeLocked_reclaimable hp hpooled hne).mpr hthis)
          (by rw [hitem]; exact hlater hconn)
      next hkept =>
        simp only [hkept, if_false]
        by_cases hconn : (p.item r).conn = conn
        · -- this is the item, so it was kept for the minimum
          rw [Pooled, hconn, hb] at hbefore
          have hfew : ¬ (p.connections.keys.length : Int) > p.minConns :=
            fun hmore => hkept ⟨hmore, some.inj hbefore ▸ hthis⟩
          rw [cleanupIdle_size hp hrest]
          omega
        · exact ih hp hrest hr hthis (hlater hconn)

end Cleanup

end ConnectionPool

namespace PoolSystem

/-- At the given time the item has been without sessions for the idle timeout. -/
def EmptyFor (s : PoolSystem Key) (r : ItemRef) (now : Int) : Prop :=
  (s.pool.item r).sessions = [] ∧ now - s.emptySince r ≥ s.pool.idleTimeout

/-- Every pooled item that has been without sessions for the idle timeout carries a
stamp, or reclaiming the stamped ones reaches the minimum. -/
def Reclaims (s : PoolSystem Key) (now : Int) : Prop :=
  (∀ r, s.pool.Pooled r → s.EmptyFor r now → (s.pool.item r).idleSince.isSome) ∨
    (s.pool.connections.keys.length : Int) ≤
      s.pool.minConns + s.pool.reclaimable now s.pool.connections.keys

variable {r : ItemRef}

theorem reclaimable_iff {s : PoolSystem Key} (hp : s.pool.Invariant) (hs : s.Stamped)
    (hr : s.pool.Pooled r) (now : Int) :
    s.pool.Reclaimable r now ↔ s.EmptyFor r now ∧ (s.pool.item r).idleSince.isSome := by
  have hload := hp.shape.load r hr
  cases hstamp : (s.pool.item r).idleSince with
  | none => simp [Reclaimable, hstamp]
  | some t =>
    obtain ⟨hempty, hsince⟩ := hs r hr t hstamp
    simp only [Reclaimable, EmptyFor, hstamp, hempty, hsince, hload,
      length_nil, any_some, decide_eq_true_eq, isSome_some, true_and,
      and_true]
    exact ⟨fun h => h.2, fun h => ⟨rfl, h⟩⟩

theorem cleanupIdle_emptyFor {s s' : PoolSystem Key} (hp : s.pool.Invariant) {now order}
    (hstep : s.step (.cleanupIdle now order) = some s') (hr : s'.pool.Pooled r) :
    s'.EmptyFor r now ↔ s.EmptyFor r now := by
  obtain ⟨-, hstep⟩ := ite_none_right_eq_some.mp hstep
  obtain ⟨-, rfl⟩ := perform_eq_some.mp hstep
  obtain ⟨hbefore, hitem⟩ := cleanupIdle_keeps hp hr
  have htimeout := (cleanupIdle_sameDials hp now order).idleTimeout
  simp only [EmptyFor, become, apply, hitem, htimeout]
  apply and_congr_right
  intro hempty
  rw [if_pos (.inl ⟨hbefore, hempty⟩)]

/-- A routed key keeps its item, its connection and its binding cell. -/
theorem run_routedTo {s t : PoolSystem Key} {k conn later} (hp : s.pool.Invariant)
    (hrouted : s.pool.RoutedTo k r conn)
    (hmeets : Meets step (fun s event => ¬ Releases k conn s event) s later)
    (hlater : run step s later = some t) :
    t.pool.RoutedTo k r conn ∧ t.pool.bindings.lookup k = some (some conn) := by
  have hboth : t.pool.Invariant ∧ t.pool.RoutedTo k r conn := by
    refine run_invariant_of_meets
      (fun s => s.pool.Invariant ∧ s.pool.RoutedTo k r conn) ?_ ⟨hp, hrouted⟩ hmeets hlater
    rintro before event after ⟨hp, hrouted⟩ hkeeps hstep
    exact ⟨step_pool_invariant hp hstep, (step_effect hp hstep).routedTo hp hrouted hkeeps⟩
  obtain ⟨hinvariant, hkept⟩ := hboth
  have hbinding := (hinvariant.shape.routed k r hkept.route).2
  rw [hkept.conn] at hbinding
  exact ⟨hkept, hbinding⟩

/-- The items the cleanup removed, and how many are left. -/
theorem cleanupIdle_reclaims {s s' : PoolSystem Key} (hp : s.pool.Invariant) {now}
    {order : List ConnRef} (hstep : s.step (.cleanupIdle now order) = some s') :
    (∀ r, s.pool.Pooled r → ¬ s'.pool.Pooled r → s.pool.Reclaimable r now) ∧
      (∀ r, s'.pool.Pooled r → s.pool.Pooled r) ∧
      (∀ r, s'.pool.Pooled r → s.pool.Reclaimable r now →
        (s'.pool.connections.keys.length : Int) ≤ s.pool.minConns) ∧
      (s'.pool.connections.keys.length : Int) =
        max (min (s.pool.connections.keys.length : Int) s.pool.minConns)
          (s.pool.connections.keys.length -
            s.pool.reclaimable now s.pool.connections.keys) := by
  obtain ⟨-, hstep⟩ := ite_none_right_eq_some.mp hstep
  obtain ⟨horder, rfl⟩ := perform_eq_some.mp hstep
  have hnodup : order.Nodup := horder.nodup_iff.mpr s.pool.connections.keys_nodup
  have hcount : s.pool.reclaimable now order =
      s.pool.reclaimable now s.pool.connections.keys := horder.countP_eq _
  refine ⟨fun r => cleanupIdle_removes hp,
    fun r hr => (cleanupIdle_keeps hp hr).1, ?_, ?_⟩
  · intro r hr hreclaimable
    refine cleanupIdle_exhausts hp hnodup hr hreclaimable ?_
    have hbefore := (cleanupIdle_keeps hp hr).1
    exact horder.mem_iff.mpr (FiniteMap.mem_iff.mpr ⟨r, hbefore⟩)
  · rw [← hcount]
    exact s.pool.cleanupIdle_size hp hnodup

/-- Affinity and reclamation along every run: a routed key stays where it is until
an event that may release it; the cleanup removes only connections without sessions
for the idle timeout and keeps the minimum. It leaves the minimum, or none that has
been without sessions for that long, exactly if those that were never used do not
stand in the way. -/
theorem run_affinity (config : ConnectionPoolConfig) (events : List (Event Key))
    {s : PoolSystem Key} (hrun : run step (initial config) events = some s) :
    (∀ k r, s.pool.routes.lookup k = some r → ∀ (later : List (Event Key)) (t : PoolSystem Key),
      Meets step
        (fun s' event => ¬ Releases k (s.pool.item r).conn s' event) s later →
      run step s later = some t →
      t.pool.RoutedTo k r (s.pool.item r).conn ∧
        t.pool.bindings.lookup k = some (some (s.pool.item r).conn)) ∧
    ∀ now order s', s.step (.cleanupIdle now order) = some s' →
      (∀ r, s.pool.Pooled r → ¬ s'.pool.Pooled r → s.EmptyFor r now) ∧
      min (s.pool.connections.keys.length : Int) s.pool.minConns ≤
        s'.pool.connections.keys.length ∧
      (((s'.pool.connections.keys.length : Int) ≤ s.pool.minConns ∨
          ∀ r, s'.pool.Pooled r → ¬ s'.EmptyFor r now) ↔ s.Reclaims now) := by
  have hp := run_pool_invariant hrun
  have hs := run_stamped hrun
  refine ⟨fun k r hroute later t => run_routedTo hp ⟨hroute, rfl⟩, ?_⟩
  intro now order s' hstep
  obtain ⟨hremoves, hkeeps, hexhausts, hsize⟩ := cleanupIdle_reclaims hp hstep
  refine ⟨?_, by omega, ?_, ?_⟩
  · intro r hr hgone
    exact ((reclaimable_iff hp hs hr now).mp (hremoves r hr hgone)).1
  · rintro (hfew | hnone)
    · right
      omega
    · left
      intro r hr hlong
      by_contra hstampless
      have hkept : s'.pool.Pooled r := by
        by_contra hgone
        exact hstampless ((reclaimable_iff hp hs hr now).mp (hremoves r hr hgone)).2
      exact hnone r hkept ((cleanupIdle_emptyFor hp hstep hkept).mpr hlong)
  · rintro (hstamps | hfew)
    · by_cases hmin : (s'.pool.connections.keys.length : Int) ≤ s.pool.minConns
      · exact .inl hmin
      · right
        intro r hr hlong
        have hlong := (cleanupIdle_emptyFor hp hstep hr).mp hlong
        have hstamp := hstamps r (hkeeps r hr) hlong
        have hthis := (reclaimable_iff hp hs (hkeeps r hr) now).mpr ⟨hlong, hstamp⟩
        exact hmin (hexhausts r hr hthis)
    · omega

/-- The only connection is full when a second key asks for another one and leaves
before the dial is done. The new connection is never used and never reclaimed. -/
def unusedEvents : List (Event Nat) :=
  [.startMinConnections, .dialed [], .onOpen 0, .onConnectionOpen 0 [], .bind 7, .bind 8,
    .unbind 8 [7], .dialed [7], .onOpen 1, .onConnectionOpen 1 [7], .elapse 10]

/-- With a minimum of one connection the cleanup leaves two, the second one without
sessions since it was dialed an idle timeout ago. -/
theorem cleanupIdle_keeps_unused : ∃ s s' : PoolSystem Nat,
    run step (initial ⟨1, 1, 1, 0, 10, 1⟩) unusedEvents = some s ∧
    s.step (.cleanupIdle 10 [0, 1]) = some s' ∧
    ¬ ((s'.pool.connections.keys.length : Int) ≤ s.pool.minConns ∨
      ∀ r, s'.pool.Pooled r → ¬ s'.EmptyFor r 10) := by
  obtain ⟨s, hs, hcleanup⟩ := exists_of_decide
    (run step (initial ⟨1, 1, 1, 0, 10, 1⟩) unusedEvents)
    (fun s => (s.step (.cleanupIdle 10 [0, 1])).any fun s' =>
      decide (¬ (s'.pool.connections.keys.length : Int) ≤ s.pool.minConns ∧
        s'.pool.connections.lookup (s'.pool.item 1).conn = some 1 ∧
        (s'.pool.item 1).sessions = [] ∧ 10 - s'.emptySince 1 ≥ s'.pool.idleTimeout))
    (by decide +kernel)
  obtain ⟨s', hs', hmany, hpooled, hempty, hlong⟩ := exists_of_decide _ _ hcleanup
  refine ⟨s, s', hs, hs', ?_⟩
  rintro (hfew | hnone)
  · exact hmany hfew
  · exact hnone 1 hpooled ⟨hempty, hlong⟩

/-- The first key stays on its connection while the unused one is dialed. -/
theorem run_affinity_unused : ∃ s t : PoolSystem Nat,
    run step (initial ⟨1, 1, 1, 0, 10, 1⟩) (unusedEvents.take 5) = some s ∧
    run step s (unusedEvents.drop 5) = some t ∧
    t.pool.RoutedTo 7 0 (s.pool.item 0).conn ∧
    t.pool.bindings.lookup 7 = some (some (s.pool.item 0).conn) := by
  obtain ⟨s, hs, hroute, hconn, hlater⟩ := exists_of_decide
    (run step (initial ⟨1, 1, 1, 0, 10, 1⟩) (unusedEvents.take 5))
    (fun s => s.pool.routes.lookup 7 = some 0 ∧ (s.pool.item 0).conn = 0 ∧
      (run step s (unusedEvents.drop 5)).isSome) (by decide +kernel)
  obtain ⟨t, ht⟩ := isSome_iff_exists.mp hlater
  refine ⟨s, t, hs, ht, (run_affinity _ _ hs).1 7 0 hroute (unusedEvents.drop 5) t ?_ ht⟩
  rw [hconn]
  apply meets_of_forall_mem
  intro event hevent s'
  simp only [unusedEvents, drop_succ_cons, drop_zero, mem_cons, not_mem_nil, or_false] at hevent
  rcases hevent with rfl | rfl | rfl | rfl | rfl | rfl <;> simp [Releases]

end PoolSystem

end Voce.Gateway
