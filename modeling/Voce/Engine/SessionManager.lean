import Voce.Engine.Workflow
import Voce.Foundation.Transition

/-! # Session manager

Sessions are objects reached through pointers, held in a map by their keys. A
transport may keep a session that has left the map. Wall-clock times are
milliseconds since the epoch.
-/

namespace Voce.Engine

open List AList Function FiniteMap

abbrev SessionRef := Nat

structure Session (Key : Type) where
  key : Key
  workflow : Workflow
  createdAt : Int
  lastActive : Int
  busy : Bool

structure SessionManager (Key : Type) where
  timeout : Int
  sessions : AList fun _ : Key => SessionRef
  session : SessionRef → Session Key
  allocated : Nat

/-- `time.Time.Unix`: whole seconds. -/
def unix (now : Int) : Int := now / 1000

def unixMilli (now : Int) : Int := now

namespace SessionManager

variable {Key : Type} (m : SessionManager Key) (r : SessionRef)

@[simp]
def setSession (session : Session Key) : SessionManager Key :=
  { m with session := update m.session r session }

def setWorkflow (workflow : Workflow) : SessionManager Key :=
  m.setSession r { m.session r with workflow := workflow }

def updateActivity (now : Int) : SessionManager Key :=
  m.setSession r { m.session r with lastActive := unixMilli now }

/-- `Session.Acquire`: whether the session was free. -/
def acquire : SessionManager Key × Bool :=
  if (m.session r).busy then (m, false)
  else (m.setSession r { m.session r with busy := true }, true)

def release : SessionManager Key :=
  m.setSession r { m.session r with busy := false }

def stopWorkflow : SessionManager Key :=
  m.setWorkflow r (m.session r).workflow.stop

def stopAll (m : SessionManager Key) : List SessionRef → SessionManager Key
  | [] => m
  | r :: rest => (m.stopWorkflow r).stopAll rest

theorem stopAll_frame (refs : List SessionRef) :
    (m.stopAll refs).allocated = m.allocated ∧ (m.stopAll refs).sessions = m.sessions := by
  induction refs generalizing m with
  | nil => exact ⟨rfl, rfl⟩
  | cons r rest ih => exact ih _

section OtherFields

variable {β : Type} {f : Session Key → β}
  (hf : ∀ session workflow, f { session with workflow := workflow } = f session)
include hf

theorem setWorkflow_congr (m : SessionManager Key) (r : SessionRef) (workflow : Workflow)
    (b : SessionRef) : f ((m.setWorkflow r workflow).session b) = f (m.session b) := by
  by_cases hb : b = r
  · subst hb
    simp [setWorkflow, hf]
  · simp [setWorkflow, hb]

theorem stopAll_congr (m : SessionManager Key) (refs : List SessionRef) (b : SessionRef) :
    f ((m.stopAll refs).session b) = f (m.session b) := by
  induction refs generalizing m with
  | nil => rfl
  | cons r rest ih => exact (ih _).trans (setWorkflow_congr hf m r _ b)

end OtherFields

variable [DecidableEq Key] (m : SessionManager Key)

/-- Start a built workflow and map its new session. A session that had the key
is replaced in the map. -/
def createSession (key : Key) (now : Int)
    (built : Except String Workflow) : SessionManager Key × Except String SessionRef :=
  match built with
  | .error error => (m, .error error)
  | .ok workflow =>
    match workflow.start with
    | (_, .error error) => (m, .error ("start workflow: " ++ error))
    | (started, .ok ()) =>
      ({ m with
          session := update m.session m.allocated
            -- the stamp is in seconds here and in milliseconds everywhere else
            { key := key, workflow := started, createdAt := now, lastActive := unix now,
              busy := false }
          sessions := m.sessions.insert key m.allocated
          allocated := m.allocated + 1 }, .ok m.allocated)

def loadSession (key : Key) (now : Int) : SessionManager Key × Option SessionRef :=
  match m.sessions.lookup key with
  | none => (m, none)
  | some r => (m.updateActivity r now, some r)

def removeSession (key : Key) : SessionManager Key :=
  match m.sessions.lookup key with
  | none => m
  | some r =>
    let m := { m with sessions := m.sessions.erase key }
    if (m.session r).workflow.state ≠ .stopped then m.stopWorkflow r else m

/-- A session is kept by `Cleanup` while its last activity is recent. -/
def Recent (now : Int) (r : SessionRef) : Prop :=
  unixMilli now - (m.session r).lastActive < m.timeout

instance (now : Int) : DecidablePred (m.Recent now) :=
  fun _ => inferInstanceAs (Decidable (_ < _))

/-- The loop of `Cleanup` over the map: delete idle sessions and collect them. -/
def sweep (m : SessionManager Key) (now : Int) : List Key → SessionManager Key × List SessionRef
  | [] => (m, [])
  | key :: rest =>
    match m.sessions.lookup key with
    | none => m.sweep now rest
    | some r =>
      if m.Recent now r then m.sweep now rest
      else
        let result := { m with sessions := m.sessions.erase key }.sweep now rest
        (result.1, r :: result.2)

def cleanup (now : Int) : SessionManager Key :=
  let swept := m.sweep now m.sessions.keys
  swept.1.stopAll swept.2

/-! ## What the operations leave in the map -/

variable (m : SessionManager Key) (now : Int)

theorem sweep_lookup (keys : List Key) (k : Key) (r : SessionRef) :
    (m.sweep now keys).1.sessions.lookup k = some r ↔
      m.sessions.lookup k = some r ∧ (k ∈ keys → m.Recent now r) := by
  induction keys generalizing m with
  | nil => simp [sweep]
  | cons key rest ih =>
    unfold sweep
    split
    next hnone =>
      rw [ih]
      by_cases heq : k = key
      · subst heq
        simp [hnone]
      · simp [heq]
    next found hfound =>
      split
      next hrecent =>
        rw [ih]
        by_cases heq : k = key
        · subst heq
          simp only [hfound, mem_cons, true_or, forall_const]
          constructor
          · rintro ⟨hr, -⟩
            cases hr
            exact ⟨rfl, hrecent⟩
          · rintro ⟨hr, hrecent⟩
            exact ⟨hr, fun _ => hrecent⟩
        · simp [heq]
      next hidle =>
        rw [ih, lookup_erase_eq_some]
        by_cases heq : k = key
        · subst heq
          refine iff_of_false (fun h => h.1.1 rfl) ?_
          rintro ⟨hr, hrecent⟩
          cases hfound.symm.trans hr
          exact hidle (hrecent mem_cons_self)
        · rw [and_iff_right heq, mem_cons, or_iff_right heq]
          rfl

/-- Exactly the sessions with recent activity stay in the map. -/
theorem cleanup_lookup (k : Key) (r : SessionRef) :
    (m.cleanup now).sessions.lookup k = some r ↔ m.sessions.lookup k = some r ∧ m.Recent now r := by
  rw [cleanup, (stopAll_frame _ _).2, sweep_lookup]
  refine and_congr_right fun hr => ?_
  have hmem : k ∈ m.sessions.keys := mem_iff.mpr ⟨r, hr⟩
  exact ⟨fun h => h hmem, fun h _ => h⟩

theorem removeSession_sessions (key : Key) :
    (m.removeSession key).sessions = m.sessions.erase key := by
  unfold removeSession
  split
  next hnone =>
    apply ext
    exact (kerase_of_notMem_keys (lookup_eq_none.mp hnone)).symm
  · dsimp only
    split
    · rfl
    · rfl

/-! ## What the operations leave of the session objects -/

theorem createSession_error {m manager : SessionManager Key} {key now built error}
    (hcreate : m.createSession key now built = (manager, .error error)) : manager = m := by
  unfold createSession at hcreate
  split at hcreate
  · cases hcreate
    rfl
  · split at hcreate
    · cases hcreate
      rfl
    · cases hcreate

/-- A created session is a new object, stamped in seconds. -/
theorem createSession_ok {m manager : SessionManager Key} {key now built r}
    (hcreate : m.createSession key now built = (manager, .ok r)) :
    r = m.allocated ∧ manager.allocated = m.allocated + 1 ∧
      (manager.session m.allocated).lastActive = unix now ∧
      (∀ b, b ≠ m.allocated → manager.session b = m.session b) ∧
      manager.sessions = m.sessions.insert key m.allocated := by
  unfold createSession at hcreate
  split at hcreate
  · cases hcreate
  · split at hcreate
    · cases hcreate
    · cases hcreate
      refine ⟨rfl, rfl, ?_, ?_, rfl⟩
      · simp
      · intro b hb
        exact update_of_ne hb _ _

/-- Removing a session may stop its workflow and leaves its other fields alone. -/
theorem removeSession_congr {β : Type} {f : Session Key → β}
    (hf : ∀ session workflow, f { session with workflow := workflow } = f session)
    (m : SessionManager Key) (key : Key) (b : SessionRef) :
    f ((m.removeSession key).session b) = f (m.session b) := by
  unfold removeSession
  split
  · rfl
  · dsimp only
    split
    · exact setWorkflow_congr hf _ _ _ b
    · rfl

theorem removeSession_allocated (key : Key) : (m.removeSession key).allocated = m.allocated := by
  unfold removeSession
  split
  · rfl
  · dsimp only
    split
    · rfl
    · rfl

/-- Sweeping changes the map only. -/
theorem sweep_frame (keys : List Key) :
    (m.sweep now keys).1.session = m.session ∧ (m.sweep now keys).1.allocated = m.allocated := by
  induction keys generalizing m with
  | nil => exact ⟨rfl, rfl⟩
  | cons key rest ih =>
    unfold sweep
    split
    · exact ih m
    · split
      · exact ih m
      · exact ih _

theorem cleanup_lastActive (b : SessionRef) :
    ((m.cleanup now).session b).lastActive = (m.session b).lastActive := by
  rw [cleanup, stopAll_congr (f := (·.lastActive)) fun _ _ => rfl, (sweep_frame m now _).1]

theorem cleanup_allocated : (m.cleanup now).allocated = m.allocated := by
  rw [cleanup, (stopAll_frame _ _).1, (sweep_frame m now _).2]

/-- What a sweep collects was mapped and idle. -/
theorem sweep_mem {m : SessionManager Key} {now keys r} (hr : r ∈ (m.sweep now keys).2) :
    ∃ k ∈ keys, m.sessions.lookup k = some r ∧ ¬ m.Recent now r := by
  induction keys generalizing m with
  | nil => cases hr
  | cons key rest ih =>
    unfold sweep at hr
    split at hr
    · obtain ⟨k, hk, hlookup, hidle⟩ := ih hr
      exact ⟨k, mem_cons_of_mem _ hk, hlookup, hidle⟩
    next found hfound =>
      split at hr
      · obtain ⟨k, hk, hlookup, hidle⟩ := ih hr
        exact ⟨k, mem_cons_of_mem _ hk, hlookup, hidle⟩
      next hidle =>
        rcases mem_cons.mp hr with rfl | hrest
        · exact ⟨key, mem_cons_self, hfound, hidle⟩
        · obtain ⟨k, hk, hlookup, hidle⟩ := ih hrest
          have hold := (lookup_erase_eq_some.mp hlookup).2
          exact ⟨k, mem_cons_of_mem _ hk, hold, hidle⟩

/-! ## What all operations keep -/

/-- Objects keep their keys, and what is mapped was mapped before or is a new object. -/
structure Follows (m next : SessionManager Key) : Prop where
  allocated : m.allocated ≤ next.allocated
  key : ∀ r < m.allocated, (next.session r).key = (m.session r).key
  mapped : ∀ k r, next.sessions.lookup k = some r → m.sessions.lookup k = some r ∨
    m.allocated ≤ r ∧ r < next.allocated ∧ (next.session r).key = k

namespace Follows

theorem refl : m.Follows m :=
  ⟨le_rfl, fun _ _ => rfl, fun _ _ => .inl⟩

theorem of_shrinks {m next : SessionManager Key} (hallocated : next.allocated = m.allocated)
    (hkey : ∀ r, (next.session r).key = (m.session r).key)
    (hmapped : ∀ k r, next.sessions.lookup k = some r → m.sessions.lookup k = some r) :
    m.Follows next :=
  ⟨le_of_eq hallocated.symm, fun r _ => hkey r, fun k r hr => .inl (hmapped k r hr)⟩

theorem setSession (r : SessionRef) {session : Session Key}
    (hkey : session.key = (m.session r).key) : m.Follows (m.setSession r session) := by
  refine of_shrinks rfl (fun b => ?_) fun _ _ => id
  by_cases hb : b = r
  · subst hb
    simp [SessionManager.setSession, hkey]
  · simp [SessionManager.setSession, hb]

theorem trans {m middle next : SessionManager Key} (hfirst : m.Follows middle)
    (hsecond : middle.Follows next) : m.Follows next where
  allocated := le_trans hfirst.allocated hsecond.allocated
  key r hr := (hsecond.key r (lt_of_lt_of_le hr hfirst.allocated)).trans (hfirst.key r hr)
  mapped k r hr := by
    rcases hsecond.mapped k r hr with hmiddle | ⟨hle, hlt, hkey⟩
    · rcases hfirst.mapped k r hmiddle with hold | ⟨hle, hlt, hkey⟩
      · exact .inl hold
      · exact .inr ⟨hle, lt_of_lt_of_le hlt hsecond.allocated, (hsecond.key r hlt).trans hkey⟩
    · exact .inr ⟨le_trans hfirst.allocated hle, hlt, hkey⟩

theorem createSession (key : Key) (now : Int)
    (built : Except String Workflow) : m.Follows (m.createSession key now built).1 := by
  unfold SessionManager.createSession
  split
  · exact refl m
  · split
    · exact refl m
    · refine ⟨Nat.le_succ _, fun r hr => ?_, forall_insert (fun _ _ => .inl) ?_⟩
      · simp only [update_of_ne (ne_of_lt hr)]
      · exact .inr ⟨le_rfl, Nat.lt_succ_self _, by simp⟩

theorem loadSession (key : Key) (now : Int) : m.Follows (m.loadSession key now).1 := by
  unfold SessionManager.loadSession
  split
  · exact refl m
  next r _ => exact setSession m r rfl

theorem acquire (r : SessionRef) : m.Follows (m.acquire r).1 := by
  unfold SessionManager.acquire
  split
  · exact refl m
  · exact setSession m r rfl

theorem removeSession (key : Key) : m.Follows (m.removeSession key) := by
  refine of_shrinks (removeSession_allocated m key) (removeSession_congr (fun _ _ => rfl) m key) ?_
  intro k r hr
  rw [removeSession_sessions] at hr
  exact (lookup_erase_eq_some.mp hr).2

theorem sweep (now : Int) (keys : List Key) : m.Follows (m.sweep now keys).1 := by
  refine of_shrinks (sweep_frame m now keys).2 (fun r => ?_) fun k r hr => ?_
  · rw [(sweep_frame m now keys).1]
  · exact ((sweep_lookup m now keys k r).mp hr).1

end Follows

/-- Mapped objects are allocated, and know the key under which they are mapped. -/
def WellMapped (m : SessionManager Key) : Prop :=
  ∀ k r, m.sessions.lookup k = some r → r < m.allocated ∧ (m.session r).key = k

variable {m next}

theorem WellMapped.follows (hm : m.WellMapped) (hfollows : m.Follows next) : next.WellMapped := by
  intro k r hr
  rcases hfollows.mapped k r hr with hold | ⟨-, hlt, hkey⟩
  · obtain ⟨hlt, hkey⟩ := hm k r hold
    exact ⟨lt_of_lt_of_le hlt hfollows.allocated, (hfollows.key r hlt).trans hkey⟩
  · exact ⟨hlt, hkey⟩

/-- An object that is not mapped, nor will be. -/
def Unmapped (m : SessionManager Key) (r : SessionRef) : Prop :=
  r < m.allocated ∧ ∀ k, m.sessions.lookup k ≠ some r

theorem Unmapped.follows {r} (hr : m.Unmapped r) (hfollows : m.Follows next) : next.Unmapped r := by
  refine ⟨lt_of_lt_of_le hr.1 hfollows.allocated, fun k hk => ?_⟩
  rcases hfollows.mapped k r hk with hold | ⟨hle, -, -⟩
  · exact hr.2 k hold
  · exact absurd hr.1 (not_lt.mpr hle)

/-- What a sweep collects is not mapped any more. -/
theorem WellMapped.sweep_unmapped {m : SessionManager Key} (hm : m.WellMapped) {now r}
    (hr : r ∈ (m.sweep now m.sessions.keys).2) : (m.sweep now m.sessions.keys).1.Unmapped r := by
  obtain ⟨key, hkey, hmapped, hidle⟩ := sweep_mem hr
  have hfollows := Follows.sweep m now m.sessions.keys
  refine ⟨lt_of_lt_of_le (hm key r hmapped).1 hfollows.allocated, fun k hlookup => ?_⟩
  obtain ⟨hstill, hrecent⟩ := (sweep_lookup m now _ k r).mp hlookup
  have heq : k = key := (hm k r hstill).2.symm.trans (hm key r hmapped).2
  exact hidle (hrecent (heq ▸ hkey))

end SessionManager

end Voce.Engine
