import Voce.Gateway.ConnectionPoolRemoval

/-! # Elementary changes of the connection pool

What a critical section of a pool does is a sequence of elementary changes, and
each of them keeps the representation invariant.
-/

namespace Voce.Gateway.ConnectionPool

open Protocol List Option AList IndexedHeap FiniteMap

variable {Key : Type}

theorem recordRemovals_maxSessions (p : ConnectionPool Key) (items : List ItemRef) :
    (p.recordRemovals items).maxSessions = p.maxSessions := by
  induction items generalizing p with
  | nil => rfl
  | cons r rest ih => exact ih _

section AddConnection

variable (p : ConnectionPool Key) (state : ConnectionState)

theorem addConnection_item_of_ne {b} (hb : b ≠ p.allocated) :
    (p.addConnection state).item b = p.item b := by
  simp [hb]

theorem addConnection_item_new : ((p.addConnection state).item p.allocated).conn = p.allocated ∧
      ((p.addConnection state).item p.allocated).sessions = [] ∧
      ((p.addConnection state).item p.allocated).load = 0 := by
  simp

theorem addConnection_connections (c : ConnRef) : (p.addConnection state).connections.lookup c =
    if c = p.allocated then some p.allocated else p.connections.lookup c := by
  by_cases heq : c = p.allocated
  · subst heq
    simp
  · simp [heq]

end AddConnection

section

/-! ## Construction and shutdown -/

variable (p : ConnectionPool Key)

/-- The loop of `startMinConnections`, with the number of dials to start. -/
def reserveMinLocked (p : ConnectionPool Key) : Nat → ConnectionPool Key × Nat
  | 0 => (p, 0)
  | rounds + 1 =>
    if (p.connections.keys.length : Int) + p.pendingDials < p.minConns then
      let result := p.reserved.reserveMinLocked rounds
      (result.1, result.2 + 1)
    else (p, 0)

/-- Reserve dials up to the minimum number of connections. Every round reserves
one, so the rounds suffice. -/
def startMinConnections : ConnectionPool Key × Nat :=
  p.reserveMinLocked (p.minConns - (p.connections.keys.length + p.pendingDials)).toNat

/-! ## Recording a connection's state -/

/-- Recording a state changes that item's state and the counters only. -/
theorem recorded_congr {β : Type} (f : PooledConnection Key → β)
    (hf : ∀ item state, f { item with state := state } = f item) (p : ConnectionPool Key)
    (r : ItemRef) (state : ConnectionState) (b : ItemRef) :
    f ((p.recorded r state).item b) = f (p.item b) := by
  unfold recorded
  split
  · exact setItem_item_congr f p r (hf _ _) b
  · rfl

theorem recorded_frame (r : ItemRef) (state : ConnectionState) :
    (p.recorded r state).connections = p.connections ∧
      (p.recorded r state).routes = p.routes ∧ (p.recorded r state).bindings = p.bindings ∧
      (p.recorded r state).queue = p.queue ∧ (p.recorded r state).connState = p.connState ∧
      (p.recorded r state).maxSessions = p.maxSessions ∧
      (p.recorded r state).pendingDials = p.pendingDials := by
  unfold recorded
  split
  · exact ⟨rfl, rfl, rfl, rfl, rfl, rfl, rfl⟩
  · exact ⟨rfl, rfl, rfl, rfl, rfl, rfl, rfl⟩

theorem recorded_pooled (r : ItemRef) (state : ConnectionState)
    (b : ItemRef) : (p.recorded r state).Pooled b ↔ p.Pooled b :=
  pooled_congr (p.recorded_frame r state).1 (recorded_congr (·.conn) (fun _ _ => rfl) p r state b)

end

variable [DecidableEq Key]

/-! ## Binding -/

variable {p : ConnectionPool Key}

/-- Fields outside both parts of the invariant may change. -/
theorem Invariant.frame (hp : p.Invariant) {closed pendingDials connState metrics} :
    { p with
      closed := closed, pendingDials := pendingDials
      connState := connState, metrics := metrics }.Invariant := by
  obtain ⟨hpositive, hshape, hcached⟩ := hp
  exact ⟨hpositive, { hshape with }, { hcached with }⟩

/-- So may the other fields of an item. -/
theorem Invariant.setItem (hp : p.Invariant) (r : ItemRef) (item : PooledConnection Key)
    (hconn : item.conn = (p.item r).conn) (hsessions : item.sessions = (p.item r).sessions)
    (hload : item.load = (p.item r).load) (hpriority : item.priority = (p.item r).priority)
    (hid : item.id = (p.item r).id) : (p.setItem r item).Invariant := by
  have hconn := setItem_item_congr (·.conn) p r hconn
  have hload := setItem_item_congr (·.load) p r hload
  refine ⟨hp.positive, ?_, ?_⟩
  · exact hp.shape.congr rfl rfl rfl rfl rfl hconn
      (setItem_item_congr (·.sessions) p r hsessions) hload (fun _ => .rfl) hp.shape.consistent
  · exact hp.cached.congr rfl rfl rfl hconn hload
      (setItem_item_congr (·.priority) p r hpriority) (setItem_item_congr (·.id) p r hid)

variable {k : Key}

theorem Shape.unrouted_of_unbound (hs : Shape none p) (hk : p.bindings.lookup k = none) :
    p.routes.lookup k = none := by
  cases hroute : p.routes.lookup k with
  | none => rfl
  | some r =>
    have hbinding := (hs.routed k r hroute).2
    rw [hk] at hbinding
    cases hbinding

/-- The binding of a key that has no route may change. It is nil or exempt. -/
theorem Shape.rebind (hs : Shape none p) (hk : p.routes.lookup k = none) {bindings exempt}
    (hothers : ∀ k', k' ≠ k → bindings.lookup k' = p.bindings.lookup k')
    (hown : exempt = some k ∨ ∀ binding, bindings.lookup k = some binding → binding = none) :
    Shape exempt { p with bindings := bindings } where
  filed := hs.filed
  allocated := hs.allocated
  routed k' r hr := by
    have hne : k' ≠ k := by
      intro heq
      rw [heq, hk] at hr
      cases hr
    obtain ⟨hpooled, hbinding⟩ := hs.routed k' r hr
    exact ⟨hpooled, (hothers k' hne).trans hbinding⟩
  unrouted k' binding hne hbinding hnone := by
    by_cases heq : k' = k
    · subst heq
      exact hown.elim (fun hexempt => absurd hexempt.symm hne) fun hnil => hnil binding hbinding
    · exact hs.unrouted k' binding (by simp) ((hothers k' heq).symm.trans hbinding) hnone
  sessions := hs.sessions
  nodup := hs.nodup
  load := hs.load
  capacity := hs.capacity
  queued := hs.queued
  consistent := hs.consistent

theorem Shape.insertUnbound (hs : Shape none p) {key} (hunbound : p.bindings.lookup key = none) :
    Shape none { p with bindings := p.bindings.insert key none } := by
  refine hs.rebind (hs.unrouted_of_unbound hunbound) (fun _ => lookup_insert_ne) (.inr ?_)
  intro binding hbinding
  rw [lookup_insert] at hbinding
  exact (some.inj hbinding).symm

/-! ## Unbinding -/

theorem Shape.eraseBinding (hs : Shape none p) (hk : p.routes.lookup k = none) :
    Shape none { p with bindings := p.bindings.erase k } := by
  refine hs.rebind hk (fun _ => lookup_erase_ne) (.inr ?_)
  intro binding hbinding
  rw [lookup_erase] at hbinding
  cases hbinding

section Release

variable (p : ConnectionPool Key) (k : Key) (r : ItemRef)

/-- The pool after a routed key's binding, route and load have been taken back,
before its item is refreshed. -/
def release : ConnectionPool Key :=
  ({ p with bindings := p.bindings.erase k }.dropRoute k r).decrementLoad r

theorem release_item_self : (p.release k r).item r = { p.item r with
    sessions := (p.item r).sessions.erase k, load := (p.item r).load - 1 } := by
  simp [release]

theorem release_item_of_ne {b} (hb : b ≠ r) : (p.release k r).item b = p.item b := by
  simp [release, hb]

theorem release_conn (b : ItemRef) : ((p.release k r).item b).conn = (p.item b).conn := by
  by_cases hb : b = r
  · rw [hb, release_item_self]
  · rw [release_item_of_ne p k r hb]

theorem release_pooled (b : ItemRef) : (p.release k r).Pooled b ↔ p.Pooled b :=
  pooled_congr rfl (release_conn p k r b)

theorem release_routes (k' : Key) : (p.release k r).routes.lookup k' =
    if k' = k then none else p.routes.lookup k' :=
  lookup_erase_ite

theorem release_bindings (k' : Key) : (p.release k r).bindings.lookup k' =
    if k' = k then none else p.bindings.lookup k' :=
  lookup_erase_ite

end Release

variable {p : ConnectionPool Key} {r : ItemRef}

theorem release_shape (hs : Shape none p) {k} (hk : p.routes.lookup k = some r) :
    Shape none (p.release k r) where
  filed c b hb := by
    rw [release_conn]
    exact hs.filed c b hb
  allocated b hb := by
    rw [release_conn]
    exact hs.allocated b ((release_pooled p k r b).mp hb)
  routed k' b hb := by
    rw [release_routes] at hb
    split at hb
    · cases hb
    next hne =>
      rw [release_pooled, release_bindings, if_neg hne, release_conn]
      exact hs.routed k' b hb
  unrouted k' binding _ hbinding hunrouted := by
    rw [release_bindings] at hbinding
    rw [release_routes] at hunrouted
    split at hbinding
    · cases hbinding
    next hne =>
      rw [if_neg hne] at hunrouted
      exact hs.unrouted k' binding (by simp) hbinding hunrouted
  sessions b hb k' := by
    have hpooled := (release_pooled p k r b).mp hb
    have hold := hs.sessions b hpooled k'
    rw [release_routes]
    by_cases hbr : b = r
    · subst hbr
      rw [release_item_self, (hs.nodup b hpooled).mem_erase_iff, hold]
      by_cases heq : k' = k <;> simp [heq]
    · rw [release_item_of_ne p k r hbr, hold]
      by_cases heq : k' = k
      · subst heq
        simp [hk, Ne.symm hbr]
      · rw [if_neg heq]
  nodup b hb := by
    have hold := hs.nodup b ((release_pooled p k r b).mp hb)
    by_cases hbr : b = r
    · subst hbr
      rw [release_item_self]
      exact hold.erase k
    · rwa [release_item_of_ne p k r hbr]
  load b hb := by
    have hpooled := (release_pooled p k r b).mp hb
    have hold := hs.load b hpooled
    by_cases hbr : b = r
    · subst hbr
      have hmem : k ∈ (p.item b).sessions := (hs.sessions b hpooled k).mpr hk
      have hpos := length_pos_of_mem hmem
      rw [release_item_self]
      simp only [length_erase_of_mem hmem, hold]
      omega
    · rwa [release_item_of_ne p k r hbr]
  capacity b hb := by
    have hold := hs.capacity b ((release_pooled p k r b).mp hb)
    by_cases hbr : b = r
    · subst hbr
      rw [release_item_self]
      change (p.item b).load - 1 ≤ p.maxSessions
      omega
    · rwa [release_item_of_ne p k r hbr]
  queued b := by
    rw [release_pooled]
    exact hs.queued b
  consistent := hs.consistent

/-- The load guard of `unbind` never fails. -/
theorem Shape.load_pos (hs : Shape none p) {key} (hrouted : p.routes.lookup key = some r) :
    0 < (p.item r).load := by
  obtain ⟨hpooled, -⟩ := hs.routed key r hrouted
  have hmem := (hs.sessions r hpooled key).mpr hrouted
  rw [hs.load r hpooled]
  exact_mod_cast length_pos_of_mem hmem

theorem addConnection_pooled (hs : Shape none p) (state : ConnectionState) (b : ItemRef) :
    (p.addConnection state).Pooled b ↔ p.Pooled b ∨ b = p.allocated := by
  rw [Pooled, addConnection_connections]
  by_cases hb : b = p.allocated
  · subst hb
    simp
  · rw [addConnection_item_of_ne p state hb]
    simp only [hb, or_false]
    split
    next hconn =>
      simp only [some.injEq, Ne.symm hb, false_iff]
      intro hpooled
      exact absurd hconn (ne_of_lt (hs.allocated b hpooled).2)
    · rfl

theorem Shape.fresh (hs : Shape none p) : ¬ p.Pooled p.allocated :=
  fun hpooled => lt_irrefl _ (hs.allocated _ hpooled).1

/-- A pooled item is the fresh one, which has no sessions, or an old one, which
is as it was. -/
theorem addConnection_cases (hs : Shape none p) {state b} (hb : (p.addConnection state).Pooled b) :
    b = p.allocated ∨ p.Pooled b ∧ (p.addConnection state).item b = p.item b := by
  by_cases hnew : b = p.allocated
  · exact .inl hnew
  · exact .inr ⟨((addConnection_pooled hs state b).mp hb).resolve_right hnew,
      addConnection_item_of_ne p state hnew⟩

theorem addConnection_shape (hs : Shape none p)
    (hpos : 0 < p.maxSessions) (state : ConnectionState) :
    Shape none (p.addConnection state) := by
  obtain ⟨hconn, hsessions, hload⟩ := addConnection_item_new p state
  have hunrouted : ∀ k, p.routes.lookup k ≠ some p.allocated :=
    fun k hk => hs.fresh (hs.routed k _ hk).1
  refine ⟨?_, ?_, ?_, hs.unrouted, ?_, ?_, ?_, ?_, ?_, ?_⟩
  · intro c b hb
    rw [addConnection_connections] at hb
    split at hb
    next heq =>
      cases hb
      rw [hconn, heq]
    · have hcb := hs.filed c b hb
      have hpooled : p.Pooled b := by
        rw [Pooled, hcb]
        exact hb
      rw [addConnection_item_of_ne p state (hs.allocated b hpooled).1.ne]
      exact hcb
  · intro b hb
    rcases addConnection_cases hs hb with rfl | ⟨hpooled, hitem⟩
    · rw [hconn]
      exact ⟨Nat.lt_succ_self _, Nat.lt_succ_self _⟩
    · obtain ⟨hlt, hconnlt⟩ := hs.allocated b hpooled
      rw [hitem]
      exact ⟨Nat.lt_succ_of_lt hlt, Nat.lt_succ_of_lt hconnlt⟩
  · intro k b hb
    obtain ⟨hpooled, hbinding⟩ := hs.routed k b hb
    rw [addConnection_item_of_ne p state (hs.allocated b hpooled).1.ne]
    exact ⟨(addConnection_pooled hs state b).mpr (.inl hpooled), hbinding⟩
  · intro b hb k
    rcases addConnection_cases hs hb with rfl | ⟨hpooled, hitem⟩
    · rw [hsessions]
      exact iff_of_false (not_mem_nil) (hunrouted k)
    · rw [hitem]
      exact hs.sessions b hpooled k
  · intro b hb
    rcases addConnection_cases hs hb with rfl | ⟨hpooled, hitem⟩
    · rw [hsessions]
      exact nodup_nil
    · rw [hitem]
      exact hs.nodup b hpooled
  · intro b hb
    rcases addConnection_cases hs hb with rfl | ⟨hpooled, hitem⟩
    · rw [hsessions, hload]
      rfl
    · rw [hitem]
      exact hs.load b hpooled
  · intro b hb
    rcases addConnection_cases hs hb with rfl | ⟨hpooled, hitem⟩
    · rw [hload]
      exact hpos.le
    · rw [hitem]
      exact hs.capacity b hpooled
  · intro b
    change b ∈ (p.queue.push _ p.allocated).slots ↔ _
    rw [push_mem, hs.queued, addConnection_pooled hs]
  · have hnotin : p.allocated ∉ p.queue.slots := fun hmem => hs.fresh ((hs.queued _).mp hmem)
    exact (push_rearranged _ _ _).consistent (hs.consistent.append hnotin)

theorem Shape.pooled_of_lookup (hs : Shape none p) {c} (hr : p.connections.lookup c = some r) :
    p.Pooled r := by
  rw [Pooled, hs.filed c r hr]
  exact hr

/-- A pool without connections, routes, bindings and queued items. -/
theorem invariant_of_empty (hpos : 0 < p.maxSessions) (hconnections : p.connections = ∅)
    (hroutes : p.routes = ∅) (hbindings : p.bindings = ∅) (hqueue : p.queue.slots = []) :
    p.Invariant := by
  have hpooled : ∀ r, ¬ p.Pooled r := by
    intro r hr
    rw [Pooled, hconnections] at hr
    cases hr
  refine ⟨hpos, ⟨?_, ?_, ?_, ?_, ?_, ?_, ?_, ?_, ?_, ?_⟩, ?_, p.heapKey, ?_, fun _ _ => rfl⟩
  · intro c r hr
    rw [hconnections] at hr
    cases hr
  · exact fun r hr => absurd hr (hpooled r)
  · intro k r hr
    rw [hroutes] at hr
    cases hr
  · intro k binding _ hbinding
    rw [hbindings] at hbinding
    cases hbinding
  · exact fun r hr => absurd hr (hpooled r)
  · exact fun r hr => absurd hr (hpooled r)
  · exact fun r hr => absurd hr (hpooled r)
  · exact fun r hr => absurd hr (hpooled r)
  · intro r
    rw [hqueue]
    exact iff_of_false not_mem_nil (hpooled r)
  · intro i r hr
    rw [hqueue] at hr
    cases hr
  · exact fun r _ hr => absurd hr (hpooled r)
  · intro i hi
    rw [hqueue] at hi
    cases hi

section

variable (hp : p.Invariant)
include hp

theorem release_invariant {key} (hrouted : p.routes.lookup key = some r) :
    ((p.release key r).refreshLocked r).Invariant := by
  obtain ⟨hpooled, -⟩ := hp.shape.routed key r hrouted
  have hstale : Cached (some r) (p.release key r) :=
    hp.cached.mutate rfl rfl (fun b hb => release_item_of_ne p key r hb)
      (fun b _ hb => (release_pooled p key r b).mp hb)
  exact refreshLocked_invariant (release_shape hp.shape hrouted) hp.positive hstale
    ((release_pooled p key r r).mpr hpooled)

theorem markIdle_invariant (r : ItemRef) (now : Int) : (p.markIdle r now).Invariant := by
  unfold markIdle
  split
  · exact hp.setItem r _ rfl rfl rfl rfl rfl
  · exact hp

theorem finishDial_invariant : p.finishDial.Invariant :=
  hp.frame

theorem addConnection_invariant (state : ConnectionState) : (p.addConnection state).Invariant := by
  refine ⟨hp.positive, addConnection_shape hp.shape hp.positive state, ?_, ?_⟩
  · intro b _ hb hle
    rcases addConnection_cases hp.shape hb with rfl | ⟨hpooled, hitem⟩
    · rw [(addConnection_item_new p state).2.2] at hle
      exact absurd hp.positive (not_lt.mpr hle)
    · rw [hitem] at hle ⊢
      exact hp.cached.full b (by simp) hpooled hle
  · refine ⟨(p.addConnection state).heapKey, ?_, fun _ _ => rfl⟩
    apply push_ordered (less_iff _)
    apply hp.cached.ordered.congr
    intro b hb
    have hne := (hp.shape.allocated b ((hp.shape.queued b).mp hb)).1.ne
    exact heapKey_congr (addConnection_item_of_ne p state hne)

theorem setConnState_invariant (conn : ConnRef) (state : ConnectionState) :
    (p.setConnState conn state).Invariant :=
  hp.frame

end

/-! ## Elementary changes -/

/-- The changes that take no route away. -/
inductive Growth (p : ConnectionPool Key) : ConnectionPool Key → Prop
  | reserve
      (hroom : (p.connections.keys.length : Int) + p.pendingDials < p.minConns ∨
        (p.maxConns > 0 → (p.connections.keys.length : Int) + p.pendingDials < p.maxConns)) :
      Growth p p.reserved
  | finishDial : Growth p p.finishDial
  | addConnection (hopen : p.closed = false) : Growth p (p.finishDial.addConnection .connecting)
  | insertBinding (key : Key) (hunbound : p.bindings.lookup key = none) :
      Growth p { p with bindings := p.bindings.insert key none }
  | eraseBinding (key : Key) (hunrouted : p.routes.lookup key = none) :
      Growth p { p with bindings := p.bindings.erase key }
  | attach (key : Key) (r : ItemRef) (hbound : key ∈ p.bindings)
      (hunrouted : p.routes.lookup key = none) (hselect : p.selectLocked = some r) :
      Growth p (p.attachLocked key r)
  | setConnState (conn : ConnRef) (state : ConnectionState)
      (hopen : p.connState conn ≠ .closed) (hstate : state ≠ .unknown) :
      Growth p (p.setConnState conn state)
  | recordState (r : ItemRef) (state : ConnectionState) (hpooled : p.Pooled r) :
      Growth p { p.setItem r { p.item r with state := state } with
        metrics := recordState p.metrics (p.item r).state state }
  | refresh (r : ItemRef) (hpooled : p.Pooled r) : Growth p (p.refreshLocked r)

/-- A routed key's binding, route and load are taken back. -/
def released (p : ConnectionPool Key) (key : Key) (r : ItemRef) (now : Int) :
    ConnectionPool Key :=
  ((p.release key r).refreshLocked r).markIdle r now

/-- What an event does to the pool, one change at a time. Each change keeps the
representation invariant. -/
inductive Change (p : ConnectionPool Key) : ConnectionPool Key → Prop
  | grow {q : ConnectionPool Key} (hgrowth : Growth p q) : Change p q
  | release (key : Key) (r : ItemRef) (now : Int) (hrouted : p.routes.lookup key = some r) :
      Change p (p.released key r now)
  | remove (r : ItemRef) (hpooled : p.Pooled r) : Change p (p.removeLocked r)
  | clear : Change p p.clearLocked

variable {p q : ConnectionPool Key}

theorem Growth.invariant (hp : p.Invariant) (hgrowth : Growth p q) : q.Invariant := by
  cases hgrowth with
  | reserve => exact hp.frame
  | finishDial => exact finishDial_invariant hp
  | addConnection => exact addConnection_invariant (finishDial_invariant hp) _
  | insertBinding key hunbound =>
    exact ⟨hp.positive, hp.shape.insertUnbound hunbound, hp.cached.setBindings _⟩
  | eraseBinding key hunrouted =>
    exact ⟨hp.positive, hp.shape.eraseBinding hunrouted, hp.cached.setBindings _⟩
  | attach key r hbound hunrouted hselect =>
    exact attachLocked_invariant (hp.shape.exempt key) hp.positive hp.cached hunrouted hselect
  | setConnState conn state => exact setConnState_invariant hp conn state
  | recordState r state =>
    exact (hp.setItem r { p.item r with state := state } rfl rfl rfl rfl rfl).frame
  | refresh r hpooled =>
    exact refreshLocked_invariant hp.shape hp.positive (hp.cached.stale r) hpooled

theorem Change.invariant (hp : p.Invariant) (hchange : Change p q) : q.Invariant := by
  cases hchange with
  | grow hgrowth => exact hgrowth.invariant hp
  | release key r now hrouted => exact markIdle_invariant (release_invariant hp hrouted) r now
  | remove r hpooled => exact removeLocked_invariant hp hpooled
  | clear =>
    refine invariant_of_empty ?_ rfl rfl rfl rfl
    exact (recordRemovals_maxSessions _ _).symm ▸ hp.positive

abbrev Growths : ConnectionPool Key → ConnectionPool Key → Prop := Relation.ReflTransGen Growth

abbrev Changes : ConnectionPool Key → ConnectionPool Key → Prop := Relation.ReflTransGen Change

theorem Growths.changes (hgrowths : Growths p q) : Changes p q :=
  Relation.ReflTransGen.mono (fun _ _ => Change.grow) _ _ hgrowths

theorem Changes.invariant (hp : p.Invariant) (hchanges : Changes p q) : q.Invariant := by
  induction hchanges with
  | refl => exact hp
  | tail _ hchange ih => exact hchange.invariant ih

theorem Growths.invariant (hp : p.Invariant) (hgrowths : Growths p q) : q.Invariant :=
  Changes.invariant hp hgrowths.changes

variable (property : ConnectionPool Key → Prop)

/-- A property that every growth keeps is kept by sequences of them. -/
theorem Growths.preserves
    (hkeep : ∀ before after, before.Invariant → property before → Growth before after →
      property after)
    (hp : p.Invariant) (hproperty : property p) (hgrowths : Growths p q) : property q := by
  induction hgrowths with
  | refl => exact hproperty
  | tail hbefore hgrowth ih => exact hkeep _ _ (Growths.invariant hp hbefore) ih hgrowth

/-- A property that every change keeps is kept by sequences of them. -/
theorem Changes.preserves
    (hkeep : ∀ before after, before.Invariant → property before → Change before after →
      property after)
    (hp : p.Invariant) (hproperty : property p) (hchanges : Changes p q) : property q := by
  induction hchanges with
  | refl => exact hproperty
  | tail hbefore hchange ih => exact hkeep _ _ (Changes.invariant hp hbefore) ih hchange

theorem attachLocked_mem_bindings (p : ConnectionPool Key) (key : Key) (r : ItemRef) (k : Key) :
    k ∈ (p.attachLocked key r).bindings ↔ k = key ∨ k ∈ p.bindings :=
  mem_insert _

variable {p : ConnectionPool Key} {order : List Key}

theorem assignPendingLocked_growths (horder : ∀ key ∈ order, key ∈ p.bindings) :
    Growths p (p.assignPendingLocked order) := by
  induction order generalizing p with
  | nil => exact .refl
  | cons key rest ih =>
    obtain ⟨hkey, hrest⟩ := List.forall_mem_cons.mp horder
    unfold assignPendingLocked
    split
    · exact ih hrest
    next hunrouted =>
      split
      · exact .refl
      next r hr =>
        refine .head (.attach key r hkey (by simpa using hunrouted) hr) (ih ?_)
        intro k hk
        exact (attachLocked_mem_bindings p key r k).mpr (.inr (hrest k hk))

variable (p)

theorem reserveDialLocked_growths : Growths p p.reserveDialLocked.1 := by
  unfold reserveDialLocked
  split
  · exact .refl
  next hguard =>
    push Not at hguard
    exact .single (.reserve (.inr hguard.2.2))

theorem reserveScaleLocked_growths : Growths p p.reserveScaleLocked.1 := by
  unfold reserveScaleLocked
  split
  · exact .refl
  · split
    · exact .refl
    · split
      · exact .refl
      · exact reserveDialLocked_growths p

theorem bind_growths (key : Key) (hs : Shape none p) : Growths p (p.bind key).1 := by
  unfold bind
  split
  · exact .refl
  next hunbound =>
    have hnone := lookup_eq_none.mpr hunbound
    refine .head (.insertBinding key hnone) ?_
    dsimp only
    split
    next r hr =>
      refine .head (.attach key r ((mem_insert _).mpr (.inl rfl))
        (hs.unrouted_of_unbound hnone) hr) ?_
      split
      · exact reserveScaleLocked_growths _
      · exact .refl
    · exact reserveDialLocked_growths _

/-- The binding cell is written again when the route is recorded. -/
theorem attachLocked_insert (key : Key) (r : ItemRef) (first second : Option ConnRef) :
    { p with bindings := p.bindings.insert key first }.attachLocked key r =
      { p with bindings := p.bindings.insert key second }.attachLocked key r := by
  simp [attachLocked, insert_insert]

theorem tryBind_growths (key : Key) (hs : Shape none p) : Growths p (p.tryBind key).1 := by
  unfold tryBind
  split
  · exact .refl
  next hunbound =>
    split
    · exact reserveDialLocked_growths p
    next r hr =>
      split
      · exact .refl
      · refine .head (.insertBinding key hunbound) ?_
        dsimp only
        rw [attachLocked_insert p key r _ none]
        exact .head (.attach key r ((mem_insert _).mpr (.inl rfl))
          (hs.unrouted_of_unbound hunbound) hr) (reserveScaleLocked_growths _)

variable {r : ItemRef} {key : Key} {p}

/-- Unbinding a routed key releases it and hands the capacity on. -/
theorem unbind_routed (hs : Shape none p) (hrouted : p.routes.lookup key = some r) (now : Int)
    (order : List Key) :
    p.unbind key now order = (p.released key r now).assignPendingLocked order := by
  have hload : (({ p with bindings := p.bindings.erase key }.dropRoute key r).item r).load =
      (p.item r).load := by
    simp
  simp only [unbind, hrouted]
  rw [if_pos (hload ▸ hs.load_pos hrouted)]
  rfl

theorem unbind_unrouted (hunrouted : p.routes.lookup key = none) (now : Int) (order : List Key) :
    p.unbind key now order = { p with bindings := p.bindings.erase key } := by
  simp only [unbind, hunrouted]

variable (p)

theorem released_bindings (key : Key) (r : ItemRef) (now : Int) :
    (p.released key r now).bindings = p.bindings.erase key := by
  unfold released markIdle
  split <;> rfl

theorem startDial_growths (horder : ∀ k ∈ order, k ∈ p.bindings) :
    Growths p (p.startDial .connecting order) := by
  unfold startDial
  dsimp only
  split
  · exact .single .finishDial
  next hopen =>
    exact .head (.addConnection (by simpa [finishDial] using hopen))
      (assignPendingLocked_growths horder)

variable {p}

theorem recorded_growths (hpooled : p.Pooled r) (state : ConnectionState) :
    Growths p (p.recorded r state) := by
  unfold recorded
  split
  · exact .single (.recordState r state hpooled)
  · exact .refl

theorem syncConnectionState_eq {conn} (hr : p.connections.lookup conn = some r) (order : List Key) :
    p.syncConnectionState conn order =
      if p.connState conn = .closed then
        ((p.recorded r .closed).removeLocked r).assignPendingLocked order
      else (p.recorded r (p.connState conn)).refreshLocked r := by
  simp only [syncConnectionState, hr]
  by_cases hclosed : p.connState conn = .closed
  · rw [hclosed]
  · rw [if_neg hclosed, if_neg hclosed]

/-- Removing an item keeps the set of bound keys. -/
theorem Removed.mem_bindings {p q} (hq : Removed p r q) (k : Key) :
    k ∈ q.bindings ↔ k ∈ p.bindings := by
  rw [← lookup_isSome, ← lookup_isSome, hq.bindings]
  split <;> simp

/-- The keys an operation ranges over after a removal are bound. -/
theorem removed_mem_bindings (hp : p.Invariant) (hpooled : p.Pooled r) (k : Key) :
    k ∈ ((p.recorded r .closed).removeLocked r).bindings ↔ k ∈ p.bindings := by
  have hinvariant := Growths.invariant hp (recorded_growths hpooled .closed)
  rw [(removeLocked_removed hinvariant.shape ((recorded_pooled p r _ r).mpr hpooled)).mem_bindings,
    (p.recorded_frame r .closed).2.2.1]

/-- The keys that `unbind` leaves in the pool are assigned. -/
theorem assign_released_growths {now} (horder : order.Perm (p.bindings.erase key).keys) :
    Growths (p.released key r now) ((p.released key r now).assignPendingLocked order) := by
  apply assignPendingLocked_growths
  intro k hk
  rw [released_bindings]
  exact horder.mem_iff.mp hk

/-- The keys are assigned after a closed connection was removed. -/
theorem assign_removed_growths (hp : p.Invariant) (hpooled : p.Pooled r)
    (horder : order.Perm p.bindings.keys) :
    Growths ((p.recorded r .closed).removeLocked r)
      (((p.recorded r .closed).removeLocked r).assignPendingLocked order) := by
  apply assignPendingLocked_growths
  intro k hk
  exact (removed_mem_bindings hp hpooled k).mpr (horder.mem_iff.mp hk)

/-- A property that the removal of an expired item keeps is kept by the cleanup. -/
theorem cleanupIdle_preserves {now : Int}
    (hkeep : ∀ q r, q.Invariant → property q → q.Pooled r → q.Expired r now →
      property (q.removeLocked r))
    (hp : p.Invariant) (hproperty : property p) (order : List ConnRef) :
    property (p.cleanupIdle now order).1 := by
  induction order generalizing p with
  | nil => exact hproperty
  | cons conn rest ih =>
    unfold cleanupIdle
    split
    · exact ih hp hproperty
    next r hr =>
      have hpooled := hp.shape.pooled_of_lookup hr
      split
      next hexpired =>
        exact ih (removeLocked_invariant hp hpooled) (hkeep p r hp hproperty hpooled hexpired)
      · exact ih hp hproperty

theorem cleanupIdle_changes (hp : p.Invariant) (now : Int) (order : List ConnRef) :
    Changes p (p.cleanupIdle now order).1 :=
  cleanupIdle_preserves (Changes p)
    (fun _ r _ hchanges hpooled _ => hchanges.tail (.remove r hpooled))
    hp .refl order

theorem startMinConnections_growths (p : ConnectionPool Key) :
    Growths p p.startMinConnections.1 := by
  have hloop : ∀ (rounds : Nat) (before : ConnectionPool Key),
      Growths before (before.reserveMinLocked rounds).1 := by
    intro rounds
    induction rounds with
    | zero => exact fun _ => .refl
    | succ rounds ih =>
      intro before
      unfold reserveMinLocked
      split
      next hless => exact .head (.reserve (.inl hless)) (ih _)
      · exact .refl
  exact hloop _ p

end Voce.Gateway.ConnectionPool
