import Voce.Gateway.ConnectionPoolAffinity

/-! # Allocation of connections to sessions

An allocation takes the root of the queue. If the cached priorities agree with the
connections, a key that asks for an active connection gets the least loaded one.
-/

namespace Voce.Gateway

open Protocol ConnectionPool Transition

variable {Key : Type}

namespace ConnectionPool

/-! ## The selected item -/

/-- Each pooled item's cached priority is the one its connection's state and its load
give now. -/
def Agrees (p : ConnectionPool Key) : Prop :=
  ∀ r, p.Pooled r → (p.item r).priority = p.priorityLocked r

variable {p : ConnectionPool Key}

theorem priorityLocked_eq_active_iff {r} : p.priorityLocked r = .active ↔
      (p.item r).load < p.maxSessions ∧ p.connState (p.item r).conn = .active := by
  unfold priorityLocked
  split
  next hfull => simpa using fun hroom => absurd hfull (not_le.mpr hroom)
  next hroom =>
    have hload := not_le.mp hroom
    cases p.connState (p.item r).conn <;> simp [hload]

theorem reserveDialLocked_frame (p : ConnectionPool Key) :
    p.reserveDialLocked.1.routes = p.routes ∧ p.reserveDialLocked.1.bindings = p.bindings ∧
      p.reserveDialLocked.1.connections = p.connections ∧
      p.reserveDialLocked.1.item = p.item := by
  unfold reserveDialLocked
  split
  · exact ⟨rfl, rfl, rfl, rfl⟩
  · exact ⟨rfl, rfl, rfl, rfl⟩

theorem reserveScaleLocked_frame (p : ConnectionPool Key) :
    p.reserveScaleLocked.1.routes = p.routes ∧ p.reserveScaleLocked.1.bindings = p.bindings ∧
      p.reserveScaleLocked.1.connections = p.connections ∧
      p.reserveScaleLocked.1.item = p.item := by
  unfold reserveScaleLocked
  split
  · exact ⟨rfl, rfl, rfl, rfl⟩
  · split
    · exact ⟨rfl, rfl, rfl, rfl⟩
    · split
      · exact ⟨rfl, rfl, rfl, rfl⟩
      · exact p.reserveDialLocked_frame

variable [DecidableEq Key]

theorem Invariant.selectLocked_eq_none_iff (hp : p.Invariant) :
    p.selectLocked = none ↔ ∀ r, p.Pooled r → (p.item r).priority = .unavailable := by
  constructor
  · intro hnone r hr
    by_contra havailable
    have hslot := hp.shape.getElem?_index hr
    obtain ⟨hlength, -⟩ := List.getElem?_eq_some_iff.mp hslot
    obtain ⟨root, hroot⟩ : ∃ root, p.queue.slots[0]? = some root :=
      ⟨_, List.getElem?_eq_getElem (Nat.zero_lt_of_lt hlength)⟩
    -- the root is unavailable and precedes the item
    have hunavailable : (p.item root).priority = .unavailable := by
      by_contra hne
      rw [selectLocked_eq_some_iff.mpr ⟨hroot, hne⟩] at hnone
      cases hnone
    have hrank := Prod.Lex.monotone_fst _ _ (hp.root_le hroot hr)
    change (p.item root).priority.rank ≤ (p.item r).priority.rank at hrank
    rw [hunavailable] at hrank
    cases hpriority : (p.item r).priority with
    | active | connecting => simp [hpriority, ConnectionPriority.rank] at hrank
    | unavailable => exact havailable hpriority
  · intro hall
    cases hselect : p.selectLocked with
    | none => rfl
    | some r =>
      have hpooled := (selectLocked_spec hp.shape hp.cached hselect).1
      exact absurd (hall r hpooled) (selectLocked_eq_some_iff.mp hselect).2

/-- If some active item has room, the selected item is active, and no active item has
a smaller load and id. -/
theorem Invariant.selectLocked_active (hp : p.Invariant) (hagrees : p.Agrees) {b} (hb : p.Pooled b)
    (hactive : p.priorityLocked b = .active) :
    ∃ r, p.selectLocked = some r ∧ p.priorityLocked r = .active := by
  have hpriority : (p.item b).priority = .active := (hagrees b hb).trans hactive
  cases hselect : p.selectLocked with
  | none => simp [hp.selectLocked_eq_none_iff.mp hselect b hb] at hpriority
  | some r =>
    have hroot := (selectLocked_eq_some_iff.mp hselect).1
    have hpooled := (selectLocked_spec hp.shape hp.cached hselect).1
    have hrank := Prod.Lex.monotone_fst _ _ (hp.root_le hroot hb)
    change (p.item r).priority.rank ≤ (p.item b).priority.rank at hrank
    refine ⟨r, rfl, ?_⟩
    rw [← hagrees r hpooled]
    rw [hpriority] at hrank
    cases hr : (p.item r).priority with
    | active => rfl
    | connecting | unavailable => simp [hr, ConnectionPriority.rank] at hrank

theorem Invariant.selectLocked_least_active (hp : p.Invariant) (hagrees : p.Agrees) {r b}
    (hselect : p.selectLocked = some r) (hactive : (p.item r).priority = .active) (hb : p.Pooled b)
    (hstate : p.connState (p.item b).conn = .active) :
    toLex ((p.item r).load, (p.item r).id) ≤ toLex ((p.item b).load, (p.item b).id) := by
  have hroom := (selectLocked_spec hp.shape hp.cached hselect).2
  by_cases hfull : (p.item b).load < p.maxSessions
  · have hpriority : (p.item b).priority = .active :=
      (hagrees b hb).trans (priorityLocked_eq_active_iff.mpr ⟨hfull, hstate⟩)
    have hle := hp.root_le (selectLocked_eq_some_iff.mp hselect).1 hb
    simp only [heapKey, hactive, hpriority, Prod.Lex.toLex_le_toLex, lt_self_iff_false,
      false_or, true_and] at hle ⊢
    exact hle
  · -- a full item carries more sessions than the selected one
    left
    omega

/-! ## Binding to an active connection -/

variable {key : Key}

/-- An unbound key is bound exactly if the selected item is active. -/
theorem tryBind_bound_iff (hunbound : p.bindings.lookup key = none) :
    (p.tryBind key).2.bound = true ↔ ∃ r, p.selectLocked = some r ∧
      (p.item r).priority = .active ∧ p.connState (p.item r).conn = .active := by
  unfold tryBind
  rw [hunbound]
  cases p.selectLocked with
  | none => simp
  | some r =>
    dsimp only
    split
    next hstale =>
      simp only [Bool.false_eq_true, Option.some.injEq, exists_eq_left', false_iff, not_and_or]
      exact hstale
    next hactive =>
      simpa [not_or] using hactive

theorem tryBind_routes {r} (hunbound : p.bindings.lookup key = none)
    (hselect : p.selectLocked = some r) (hbound : (p.tryBind key).2.bound = true) :
    (p.tryBind key).1.routes.lookup key = some r := by
  obtain ⟨r', hselect', hactive⟩ := (tryBind_bound_iff hunbound).mp hbound
  obtain rfl : r = r' := Option.some.inj (hselect.symm.trans hselect')
  unfold tryBind
  rw [hunbound]
  rw [hselect]
  dsimp only
  rw [if_neg (by simp [hactive.1, hactive.2]), (reserveScaleLocked_frame _).1]
  exact AList.lookup_insert _

theorem tryBind_failed (hunbound : p.bindings.lookup key = none)
    (hfailed : (p.tryBind key).2.bound = false) :
    (p.tryBind key).1.routes = p.routes ∧ (p.tryBind key).1.bindings = p.bindings ∧
      (p.tryBind key).1.item = p.item := by
  unfold tryBind at hfailed ⊢
  rw [hunbound] at hfailed ⊢
  cases hselect : p.selectLocked with
  | none =>
    obtain ⟨hroutes, hbindings, -, hitem⟩ := p.reserveDialLocked_frame
    exact ⟨hroutes, hbindings, hitem⟩
  | some r =>
    rw [hselect] at hfailed
    dsimp only at hfailed ⊢
    split
    · exact ⟨rfl, rfl, rfl⟩
    next hactive => simp [hactive] at hfailed

end ConnectionPool

namespace PoolSystem

variable [DecidableEq Key]

/-- Least-load binding: where the cached priorities agree with the connections, an
unbound key is bound exactly if some active connection has room, and then to the active
connection with the smallest load and id. A failed attempt changes no route, binding
or load. -/
theorem run_tryBind_least (config : ConnectionPoolConfig) (events : List (Event Key))
    {s : PoolSystem Key} (hrun : run step (initial config) events = some s)
    (hagrees : s.pool.Agrees) (key : Key) (hunbound : s.pool.bindings.lookup key = none) :
    ((s.pool.tryBind key).2.bound = true ↔ ∃ r, s.pool.Pooled r ∧
      s.pool.connState (s.pool.item r).conn = .active ∧
      (s.pool.item r).load < s.pool.maxSessions) ∧
    ((s.pool.tryBind key).2.bound = true → ∃ r, (s.pool.tryBind key).1.routes.lookup key = some r ∧
      s.pool.Pooled r ∧ s.pool.connState (s.pool.item r).conn = .active ∧
      ∀ b, s.pool.Pooled b → s.pool.connState (s.pool.item b).conn = .active →
        toLex ((s.pool.item r).load, (s.pool.item r).id) ≤
          toLex ((s.pool.item b).load, (s.pool.item b).id)) ∧
    ((s.pool.tryBind key).2.bound = false →
      (s.pool.tryBind key).1.routes = s.pool.routes ∧
      (s.pool.tryBind key).1.bindings = s.pool.bindings ∧
      ∀ r, ((s.pool.tryBind key).1.item r).load = (s.pool.item r).load) := by
  have hp := run_pool_invariant hrun
  refine ⟨?_, ?_, ?_⟩
  · rw [tryBind_bound_iff hunbound]
    constructor
    · rintro ⟨r, hselect, -, hstate⟩
      obtain ⟨hpooled, hroom⟩ := selectLocked_spec hp.shape hp.cached hselect
      exact ⟨r, hpooled, hstate, hroom⟩
    · rintro ⟨b, hb, hstate, hroom⟩
      have hactive := priorityLocked_eq_active_iff.mpr ⟨hroom, hstate⟩
      obtain ⟨r, hselect, hr⟩ := hp.selectLocked_active hagrees hb hactive
      have hpooled := (selectLocked_spec hp.shape hp.cached hselect).1
      exact ⟨r, hselect, (hagrees r hpooled).trans hr, (priorityLocked_eq_active_iff.mp hr).2⟩
  · intro hbound
    obtain ⟨r, hselect, hpriority, hstate⟩ := (tryBind_bound_iff hunbound).mp hbound
    have hpooled := (selectLocked_spec hp.shape hp.cached hselect).1
    refine ⟨r, tryBind_routes hunbound hselect hbound, hpooled, hstate, ?_⟩
    intro b hb hactive
    exact hp.selectLocked_least_active hagrees hselect hpriority hb hactive
  · intro hfailed
    obtain ⟨hroutes, hbindings, hitem⟩ := tryBind_failed hunbound hfailed
    refine ⟨hroutes, hbindings, fun r => ?_⟩
    rw [hitem]

def twoActiveEvents : List (Event Nat) :=
  [.bind 7, .dialed [7], .onOpen 0, .onConnectionOpen 0 [7], .bind 9, .bind 10,
    .dialed [7, 9, 10], .onOpen 1, .onConnectionOpen 1 [7, 9, 10]]

/-- With room for two sessions a fourth key goes to the second connection. -/
theorem run_tryBind_least_twoActive : ∃ s : PoolSystem Nat,
    run step (initial ⟨1, 2, 2, 0, 10, 1⟩) twoActiveEvents = some s ∧
    s.pool.Agrees ∧ ∃ r, (s.pool.tryBind 8).1.routes.lookup 8 = some r ∧ s.pool.Pooled r ∧
      s.pool.connState (s.pool.item r).conn = .active ∧
      ∀ b, s.pool.Pooled b → s.pool.connState (s.pool.item b).conn = .active →
        toLex ((s.pool.item r).load, (s.pool.item r).id) ≤
          toLex ((s.pool.item b).load, (s.pool.item b).id) := by
  obtain ⟨s, hs, hallocated, hbound, hunbound, hpriority⟩ := exists_of_decide
    (run step (initial ⟨1, 2, 2, 0, 10, 1⟩) twoActiveEvents)
    (fun s => s.pool.allocated = 2 ∧ (s.pool.tryBind 8).2.bound = true ∧
      s.pool.bindings.lookup 8 = none ∧
      ∀ r : Nat, r < 2 → (s.pool.item r).priority = s.pool.priorityLocked r) (by decide +kernel)
  have hagrees : s.pool.Agrees := by
    intro r hr
    exact hpriority r (hallocated ▸ ((run_pool_invariant hs).shape.allocated r hr).1)
  exact ⟨s, hs, hagrees, (run_tryBind_least _ _ hs hagrees 8 hunbound).2.1 hbound⟩

end PoolSystem

end Voce.Gateway
