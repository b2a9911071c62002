import Voce.Engine.SessionManager

/-! # Idle cleanup over time

Runs of the session manager at non-decreasing wall-clock times. Beside the
manager a run records when every session was last created, loaded or active,
and whether it has been loaded or active since its creation. `CreateSession`
stores whole seconds where every other writer stores milliseconds, so the two
agree only for sessions that have been touched.
-/

namespace Voce.Engine

open SessionManager AList Transition Function FiniteMap

structure TimedManager (Key : Type) where
  manager : SessionManager Key
  clock : Int
  /-- When a session was last created, loaded or active. -/
  recent : SessionRef → Int
  /-- The session has been loaded or active since its creation. -/
  touched : SessionRef → Bool

namespace TimedManager

variable {Key : Type}

inductive Label (Key : Type) where
  | createSession (key : Key) (built : Except String Workflow)
  | loadSession (key : Key)
  | updateActivity (r : SessionRef)
  | removeSession (key : Key)
  | cleanup

def initial (timeout start : Int) (blank : Session Key) : TimedManager Key where
  manager := ⟨timeout, ∅, fun _ => blank, 0⟩
  clock := start
  recent := fun _ => start
  touched := fun _ => false

def touch (s : TimedManager Key) (r : SessionRef) (now : Int) : TimedManager Key :=
  { s with
    recent := update s.recent r now
    touched := update s.touched r true }

variable [DecidableEq Key] (s : TimedManager Key)

/-- One operation at the given time. -/
def apply (now : Int) : Label Key → TimedManager Key
  | .createSession key built =>
    match s.manager.createSession key now built with
    | (manager, .error _) => { s with manager := manager }
    | (manager, .ok r) =>
      { s with
        manager := manager
        recent := update s.recent r now
        touched := update s.touched r false }
  | .loadSession key =>
    match s.manager.loadSession key now with
    | (manager, none) => { s with manager := manager }
    | (manager, some r) => { s.touch r now with manager := manager }
  | .updateActivity r => { s.touch r now with manager := s.manager.updateActivity r now }
  | .removeSession key => { s with manager := s.manager.removeSession key }
  | .cleanup => { s with manager := s.manager.cleanup now }

def step (label : Int × Label Key) : Option (TimedManager Key) :=
  if s.clock ≤ label.1 then some { s.apply label.1 label.2 with clock := label.1 } else none

/-- A cleanup now removes only sessions that have been idle for the timeout. -/
def RemovesOnlyIdle (now : Int) : Prop :=
  ∀ k r, s.manager.sessions.lookup k = some r →
    (s.manager.cleanup now).sessions.lookup k = none → s.manager.timeout ≤ now - s.recent r

/-- For every mapped session that was not touched since its creation, the time
since then has reached the timeout or even the time since the number of seconds
at its creation, read as milliseconds, has not. -/
def UntouchedIdleOrEarly (now : Int) : Prop :=
  ∀ k r, s.manager.sessions.lookup k = some r → s.touched r = false →
    s.manager.timeout ≤ now - s.recent r ∨ now - unix (s.recent r) < s.manager.timeout

/-! ## What the activity stamps say -/

/-- A stamp is the time of the last touch, in milliseconds once the session has
been touched and in seconds before. -/
structure Stamped (s : TimedManager Key) : Prop where
  stamp : ∀ r, r < s.manager.allocated → (s.manager.session r).lastActive =
    if s.touched r then s.recent r else unix (s.recent r)
  mapped : ∀ k r, s.manager.sessions.lookup k = some r → r < s.manager.allocated

theorem initial_stamped (timeout start : Int) (blank : Session Key) :
    (initial timeout start blank).Stamped where
  stamp r hr := absurd hr (Nat.not_lt_zero r)
  mapped := nofun

variable {s : TimedManager Key}

theorem createSession_stamped (hs : s.Stamped) (now : Int) (key : Key)
    (built : Except String Workflow) : (s.apply now (.createSession key built)).Stamped := by
  simp only [apply]
  split
  next manager error hcreate =>
    rw [SessionManager.createSession_error hcreate]
    exact hs
  next manager r hcreate =>
    obtain ⟨rfl, hallocated, hstamp, hother, hsessions⟩ :=
      SessionManager.createSession_ok hcreate
    refine ⟨?_, ?_⟩
    · intro r hr
      dsimp only at hr ⊢
      by_cases hnew : r = s.manager.allocated
      · subst hnew
        simp [hstamp]
      · simp only [update_of_ne hnew, hother r hnew]
        exact hs.stamp r (by omega)
    · rw [hsessions, hallocated]
      refine forall_insert (fun k r hr => ?_) (Nat.lt_succ_self _)
      exact Nat.lt_succ_of_lt (hs.mapped k r hr)

theorem updateActivity_stamped (hs : s.Stamped) (now : Int) (r : SessionRef) :
    { s.touch r now with manager := s.manager.updateActivity r now }.Stamped where
  stamp b hb := by
    by_cases hbr : b = r
    · subst hbr
      simp [touch, updateActivity, unixMilli]
    · simp only [touch, updateActivity, setSession, update_of_ne hbr]
      exact hs.stamp b hb
  mapped := hs.mapped

/-- Operations that touch no session and map no new one. -/
theorem Stamped.congr (hs : s.Stamped) {manager}
    (hallocated : manager.allocated = s.manager.allocated)
    (hstamp : ∀ r, (manager.session r).lastActive = (s.manager.session r).lastActive)
    (hmapped : ∀ k r, manager.sessions.lookup k = some r → s.manager.sessions.lookup k = some r) :
    { s with manager := manager }.Stamped where
  stamp r hr := by
    rw [hstamp]
    exact hs.stamp r (hallocated ▸ hr)
  mapped k r hr := hallocated ▸ hs.mapped k r (hmapped k r hr)

theorem apply_stamped (hs : s.Stamped) (now : Int) (label : Label Key) :
    (s.apply now label).Stamped := by
  cases label with
  | createSession key built => exact createSession_stamped hs now key built
  | loadSession key =>
    simp only [apply, SessionManager.loadSession]
    split
    next hload =>
      split at hload
      · cases hload
        exact hs
      · cases hload
    next hload =>
      split at hload
      · cases hload
      · cases hload
        exact updateActivity_stamped hs now _
  | updateActivity r => exact updateActivity_stamped hs now r
  | removeSession key =>
    refine hs.congr (SessionManager.removeSession_allocated _ _)
      (SessionManager.removeSession_congr (fun _ _ => rfl) _ _) ?_
    intro k r hr
    rw [SessionManager.removeSession_sessions] at hr
    exact (lookup_erase_eq_some.mp hr).2
  | cleanup =>
    refine hs.congr (SessionManager.cleanup_allocated _ _)
      (SessionManager.cleanup_lastActive _ _) ?_
    intro k r hr
    exact ((cleanup_lookup _ _ _ _).mp hr).1

theorem step_stamped {s next : TimedManager Key} {label} (hs : s.Stamped)
    (hstep : s.step label = some next) : next.Stamped := by
  unfold step at hstep
  split at hstep
  · cases hstep
    have happly := apply_stamped hs label.1 label.2
    exact ⟨happly.stamp, happly.mapped⟩
  · cases hstep

/-! ## What a cleanup removes -/

theorem Stamped.removesOnlyIdle_iff (hs : s.Stamped) (now : Int) :
    s.RemovesOnlyIdle now ↔ s.UntouchedIdleOrEarly now := by
  have hremoved : ∀ k r, s.manager.sessions.lookup k = some r →
      ((s.manager.cleanup now).sessions.lookup k = none ↔ ¬ s.manager.Recent now r) := by
    intro k r hr
    constructor
    · intro hnone hrecent
      have hkept := (cleanup_lookup s.manager now k r).mpr ⟨hr, hrecent⟩
      rw [hnone] at hkept
      cases hkept
    · intro hidle
      cases hkept : (s.manager.cleanup now).sessions.lookup k with
      | none => rfl
      | some b =>
        obtain ⟨hb, hrecent⟩ := (cleanup_lookup s.manager now k b).mp hkept
        rw [hr] at hb
        cases hb
        exact absurd hrecent hidle
  constructor
  · intro honly k r hr huntouched
    have hstamp := hs.stamp r (hs.mapped k r hr)
    rw [huntouched] at hstamp
    by_cases hrecent : s.manager.Recent now r
    · right
      rw [Recent, hstamp] at hrecent
      exact hrecent
    · left
      exact honly k r hr ((hremoved k r hr).mpr hrecent)
  · intro hcond k r hr hnone
    have hstamp := hs.stamp r (hs.mapped k r hr)
    have hidle := (hremoved k r hr).mp hnone
    rw [Recent, hstamp, unixMilli] at hidle
    -- a touched session is stamped in milliseconds and is never misjudged
    cases htouched : s.touched r with
    | true =>
      rw [htouched, if_pos rfl] at hidle
      omega
    | false =>
      rw [htouched] at hidle
      rcases hcond k r hr htouched with hlong | hearly
      · exact hlong
      · exact absurd hearly hidle

/-- In every reachable state, a cleanup removes idle sessions only if and only
if no untouched session is misjudged by its stamp in seconds. -/
theorem cleanup_removesOnlyIdle_iff (timeout start : Int) (blank : Session Key)
    (labels : List (Int × Label Key)) {s : TimedManager Key}
    (hrun : run step (initial timeout start blank) labels = some s) (now : Int) :
    s.RemovesOnlyIdle now ↔ s.UntouchedIdleOrEarly now := by
  have hstamped : s.Stamped :=
    run_invariant Stamped step_stamped
      (initial_stamped timeout start blank) hrun
  exact hstamped.removesOnlyIdle_iff now

def echoWorkflow : Except String Workflow :=
  Workflow.newWorkflow false ⟨"a", .threadPerNode, 0, [⟨"a", "echo", "echo", some (.ok none)⟩], []⟩

def blankSession : Session Nat :=
  ⟨0, ⟨"", ∅, ∅, false, false, [], false, .pending, none, []⟩, 0, 0, false⟩

/-- A session is created, loaded five seconds later, and a cleanup runs soon
after. -/
theorem cleanup_removesOnlyIdle_loaded : ∃ s : TimedManager Nat,
    run step (initial 60000 0 blankSession)
      [(1700000000000, .createSession 7 echoWorkflow), (1700000005000, .loadSession 7)] = some s ∧
      s.manager.sessions.lookup 7 = some 0 ∧ s.RemovesOnlyIdle 1700000006000 := by
  refine ⟨_, rfl, rfl, ?_⟩
  refine (cleanup_removesOnlyIdle_iff 60000 0 blankSession
    [(1700000000000, .createSession 7 echoWorkflow), (1700000005000, .loadSession 7)]
    rfl 1700000006000).mpr ?_
  intro k r hr huntouched
  by_cases hk : k = 7
  · subst hk
    cases hr
    cases huntouched
  · have hnone : lookup k ((∅ : AList fun _ : Nat => SessionRef).insert 7 0) = none := by
      rw [lookup_insert_ne hk]
      rfl
    cases hnone.symm.trans hr

/-- A session created one millisecond ago is removed under a timeout of a
minute. -/
theorem cleanup_removes_fresh_session : ∃ s : TimedManager Nat,
    run step (initial 60000 0 blankSession)
      [(1700000000000, .createSession 7 echoWorkflow)] = some s ∧
      s.manager.sessions.lookup 7 = some 0 ∧ s.recent 0 = 1700000000000 ∧
      (s.manager.cleanup 1700000000001).sessions.lookup 7 = none ∧
      ¬ s.RemovesOnlyIdle 1700000000001 := by
  refine ⟨_, rfl, rfl, rfl, rfl, ?_⟩
  intro honly
  exact absurd (honly 7 0 rfl rfl) (by decide)

end TimedManager

end Voce.Engine
