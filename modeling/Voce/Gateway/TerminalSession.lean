import Voce.Gateway.SessionTermination

/-! # A closed session stays closed

If a session is closed only while no client is exposed, its state is closed for
good, handlers that start later are silent, and the call that closed it finds
the client whose socket is open. Each store of `Ready` and `Idle` that takes no
notice of the state is otherwise able to revive the session.
-/

namespace Voce.Gateway.SessionTermination

open Interleaving Protocol List Option Config Process Transition

/-- From `Acquire` to `Release` a client holds the session. -/
def Process.role : Process → Option Unit
  | .client phase =>
    match phase with
    | .acquire | .conflict | .upgradeFailed | .closePause | .closed => none
    | _ => some ()
  | .closer _ => none

/-- The handlers that can start after the session was closed, up to their end. -/
def Process.silent : Process → Bool
  | .client phase =>
    match phase with
    | .acquire | .conflict | .closeDetach | .closeCheck | .closed => true
    | _ => false
  | .closer _ => false

/-- What a client relies on to hold the session. -/
def Holds (i : Nat) (phase : ClientPhase) (s : Shared) : Prop :=
  match phase with
  | .upgrade | .upgradeIdle | .openCount | .openReady _ => s.session.state = .pending
  | .openAttach _ | .closeIdle => s.session.state = .ready
  | .upgradeRelease => s.session.state = .pending ∨ s.session.state = .closed
  | .openResume _ | .opened =>
    s.session.state = .ready ∧ s.session.client = some i ∨
      s.session.state = .closed ∧ (i ∉ s.closed → s.session.client = some i)
  | .closeDetach | .closeCheck | .closeRelease =>
    s.session.state = .ready ∨ s.session.state = .closed
  | .acquire | .conflict | .upgradeFailed | .closePause | .closed => True

/-- What holds of the shared state in each phase of process `i`. -/
def Asserts (i : Nat) (process : Process) (s : Shared) : Prop :=
  (i ∈ s.late → s.terminated = true ∧ process.silent = true) ∧
    match process with
    | .client phase => (phase.disconnected → i ∈ s.closed) ∧ Holds i phase s
    | .closer _ => True

/-- What process `i` leaves to the others: the session was closed and the sockets
are closed as before, and no handler of theirs has started. -/
structure Later (i : Nat) (s t : Shared) : Prop where
  terminated : s.terminated = true → t.terminated = true
  closed : ∀ j ∈ s.closed, j ∈ t.closed
  late : ∀ j, j ≠ i → j ∈ t.late → j ∈ s.late

variable {process : Process} {s t : Shared} {i j : Nat}

theorem Later.session (i : Nat) (s : Shared) (session : SessionShared) :
    Later i s { s with session := session } :=
  ⟨id, fun _ => id, fun _ _ => id⟩

/-- A call leaves all but the open sockets as it is. -/
structure Spares (s t : Shared) : Prop where
  terminated : t.terminated = s.terminated
  closed : ∀ j ∈ s.closed, j ∈ t.closed
  late : t.late = s.late
  state : t.session.state = s.session.state
  client : t.session.client = s.session.client

/-- Only what a client relies on to hold the session can be interfered with. -/
theorem Asserts.mono (hassert : Asserts j process s) (hj : j ≠ i) (hlater : Later i s t)
    (hholds : ∀ phase, process = .client phase → Holds j phase s → Holds j phase t) :
    Asserts j process t := by
  refine ⟨fun h => (hassert.1 (hlater.late j hj h)).imp_left hlater.terminated, ?_⟩
  cases process with
  | closer phase => trivial
  | client phase =>
    exact ⟨fun h => hlater.closed j (hassert.2.1 h), hholds phase rfl hassert.2.2⟩

/-- A process that does not hold the session is not interfered with. -/
theorem Asserts.later (hassert : Asserts j process s) (hj : j ≠ i) (hlater : Later i s t)
    (hrole : process.role = none) : Asserts j process t := by
  refine hassert.mono hj hlater ?_
  rintro phase rfl -
  cases phase with
  | acquire | conflict | upgradeFailed | closePause | closed => trivial
  | _ => cases hrole

/-- Nor is any process, if the state and the client stay as they are. -/
theorem Asserts.keep (hassert : Asserts j process s) (hj : j ≠ i) (hlater : Later i s t)
    (hstate : t.session.state = s.session.state) (hclient : t.session.client = s.session.client) :
    Asserts j process t := by
  refine hassert.mono hj hlater ?_
  intro phase _ hholds
  cases phase with
  | openResume | opened =>
    simp only [Holds, hstate, hclient] at hholds ⊢
    refine hholds.imp_right fun h => ⟨h.1, fun hopen => h.2 fun hmem => ?_⟩
    exact hopen (hlater.closed j hmem)
  | acquire | conflict | upgradeFailed | closePause | closed => trivial
  | _ =>
    simpa only [Holds, hstate] using hholds

/-- A call has yet to look for a client to close. -/
def Pending (c : System) : Prop :=
  ∃ dispatching, .closer (.check dispatching) ∈ c.phases ∨
    .closer (.closeClient dispatching) ∈ c.phases

/-- The client is stored, and its socket was not seen to close. -/
def Process.inUse : Process → Bool
  | .client phase =>
    match phase with
    | .openResume _ | .opened => true
    | _ => false
  | .closer _ => false

/-- One client at a time holds the session, the state is closed exactly if it ever
was, and a client of a closed session whose socket is open is about to be closed. -/
structure Terminal (c : System) : Prop extends Cast Asserts Process.role c where
  ended : c.shared.terminated = true ↔ c.shared.session.state = .closed
  started : ∀ i ∈ c.shared.late, i < c.phases.length
  pending : c.shared.session.state = .closed → ∀ i process, c.phases[i]? = some process →
    process.inUse → i ∉ c.shared.closed → Pending c

theorem Pending.update {c i} (hpending : Pending c) (hi : c.phases[i]? = some process)
    (hne : ∀ dispatching, process ≠ .closer (.check dispatching) ∧
      process ≠ .closer (.closeClient dispatching))
    (next : Process) (shared : Shared) : Pending (c.update i next shared) := by
  obtain ⟨dispatching, h⟩ := hpending
  exact ⟨dispatching, h.imp (fun h => mem_update_of_ne hi h (hne dispatching).1.symm next shared)
    (fun h => mem_update_of_ne hi h (hne dispatching).2.symm next shared)⟩

namespace Terminal

variable {c : System} {i : Nat} {phase next : ClientPhase} {shared : Shared}
  {session : SessionShared}

variable {process : Process} (hc : Terminal c)
include hc

/-- No client but the one that holds the session does. -/
theorem others_none (hi : c.phases[i]? = some process) (hrole : process.role = some ()) (j : Nat)
    (other : Process) (hj : j ≠ i) (hother : c.phases[j]? = some other) : other.role = none := by
  have hne := hc.other_role_ne hi (by rw [hrole]; exact nofun) hj hother
  cases h : other.role with
  | none => rfl
  | some held => exact absurd (h.trans hrole.symm) hne

section

variable (hi : c.phases[i]? = some (.client phase))
include hi

/-- A client's handler steps in a session that it neither closes nor revives. -/
theorem client (hstate : session.state = .closed ↔ c.shared.session.state = .closed)
    (hown : Asserts i (.client next) { c.shared with session := session })
    (hothers : ∀ j other, j ≠ i → c.phases[j]? = some other → Asserts j other c.shared →
      Asserts j other { c.shared with session := session })
    (hrole : role (.client next) = none ∨ role (.client phase) = some () ∨
      ∀ j other, j ≠ i → c.phases[j]? = some other → other.role = none)
    (huse : inUse (.client next) → c.shared.session.state = .closed → inUse (.client phase)) :
    Terminal (c.update i (.client next) { c.shared with session := session }) := by
  refine ⟨hc.toCast.update hi hown hothers ?_, hc.ended.trans hstate.symm, ?_, ?_⟩
  · intro hsome j other hj hother heq
    have hnone : other.role = none := by
      rcases hrole with hnone | hheld | hall
      · exact absurd hnone hsome
      · exact hc.others_none hi hheld j other hj hother
      · exact hall j other hj hother
    exact hsome (heq.symm.trans hnone)
  · simpa [update] using hc.started
  · intro hclosed j process hj hinUse hopen
    have hpending : Pending c := by
      rw [update_phases hi] at hj
      split at hj
      next heq =>
        cases hj
        subst heq
        have hbefore := hstate.mp hclosed
        exact hc.pending hbefore j _ hi (huse hinUse hbefore) hopen
      · exact hc.pending (hstate.mp hclosed) j process hj hinUse hopen
    exact hpending.update hi (by simp) _ _

/-- A client's handler steps without touching the state and the stored client. -/
theorem clientKeeps (hstate : session.state = c.shared.session.state)
    (hclient : session.client = c.shared.session.client)
    (hown : Asserts i (.client next) { c.shared with session := session })
    (hrole : role (.client next) = none ∨ role (.client phase) = some ())
    (huse : inUse (.client next) → inUse (.client phase)) :
    Terminal (c.update i (.client next) { c.shared with session := session }) := by
  exact hc.client hi (by rw [hstate]) hown
    (fun _ _ hj _ hassert => hassert.keep hj (.session i _ session) hstate hclient)
    (hrole.imp_right .inl) (fun h _ => huse h)

/-- The client that holds the session steps. -/
theorem clientHolds (hheld : role (.client phase) = some ())
    (hstate : session.state = .closed ↔ c.shared.session.state = .closed)
    (hown : Asserts i (.client next) { c.shared with session := session })
    (huse : inUse (.client next) → c.shared.session.state = .closed → inUse (.client phase)) :
    Terminal (c.update i (.client next) { c.shared with session := session }) := by
  refine hc.client hi hstate hown ?_ (.inr (.inl hheld)) huse
  intro j other hj hother hassert
  exact hassert.later hj (.session i _ session) (hc.others_none hi hheld j other hj hother)

/-- So does the client that holds the session and replaces an open state by another. -/
theorem clientStores {before} (hheld : role (.client phase) = some ())
    (hbefore : c.shared.session.state = before) (hopen : before ≠ .closed)
    (hafter : session.state ≠ .closed)
    (hown : Asserts i (.client next) { c.shared with session := session }) :
    Terminal (c.update i (.client next) { c.shared with session := session }) := by
  rw [← hbefore] at hopen
  exact hc.clientHolds hi hheld (iff_of_false hafter hopen) hown
    fun _ hclosed => absurd hclosed hopen

/-- A handler that runs in a session that is not closed did not start late. -/
theorem not_late (hstate : c.shared.session.state ≠ .closed) : i ∉ c.shared.late :=
  fun h => hstate (hc.ended.mp ((hc.asserted i _ hi).1 h).1)

omit hi in
/-- Nobody holds an idle session. -/
theorem none_of_idle (hstate : c.shared.session.state = .idle) (j : Nat) (other : Process)
    (hother : c.phases[j]? = some other) : other.role = none := by
  have hassert := hc.asserted j other hother
  cases other with
  | closer => rfl
  | client phase =>
    have hholds := hassert.2.2
    cases phase with
    | acquire | conflict | upgradeFailed | closePause | closed => rfl
    | _ =>
      simp [Holds, hstate] at hholds

omit hi in
/-- `Acquire` succeeds. -/
theorem acquire (hi : c.phases[i]? = some (.client .acquire))
    (hstate : c.shared.session.state = .idle) :
    Terminal (c.update i (.client .upgrade)
      { c.shared with session := { c.shared.session with state := .pending } }) := by
  have hopen : c.shared.session.state ≠ .closed := by
    rw [hstate]
    exact nofun
  have hnone : ∀ j other, j ≠ i → c.phases[j]? = some other → other.role = none :=
    fun j other _ => hc.none_of_idle hstate j other
  refine hc.client hi ⟨nofun, fun h => absurd h hopen⟩ ⟨?_, nofun, rfl⟩ ?_ (.inr (.inr hnone))
    nofun
  · exact fun h => absurd h (hc.not_late hi hopen)
  · intro j other hj hother hassert
    exact hassert.later hj (.session i _ _) (hnone j other hj hother)

/-- Every operation of a client's handler keeps a terminal session terminal. -/
theorem clientAdvance (hnext : phase.next i c.shared.session = some (next, session)) :
    Terminal (c.update i (.client next)
      { (if phase = .upgrade then c.shared.starts i else c.shared) with session := session }) := by
  obtain ⟨hlate, hsocket, hholds⟩ := hc.asserted i _ hi
  have hstarts : (if phase = .upgrade then c.shared.starts i else c.shared) = c.shared := by
    split
    next heq =>
      subst heq
      rw [Shared.starts, if_neg]
      intro hterminated
      exact absurd ((hc.ended.mp hterminated).symm.trans hholds) nofun
    · rfl
  rw [hstarts]
  cases phase with
  | acquire =>
    simp only [ClientPhase.next] at hnext
    split at hnext
    next hidle =>
      cases hnext
      exact hc.acquire hi hidle
    · cases hnext
      exact hc.clientKeeps hi rfl rfl ⟨hlate, nofun, trivial⟩ (.inl rfl) nofun
  | upgrade | openCount =>
    cases hnext
    exact hc.clientKeeps hi rfl rfl ⟨hlate, nofun, hholds⟩ (.inr rfl) nofun
  | upgradeRelease =>
    simp only [ClientPhase.next] at hnext
    split at hnext
    next hreleasable =>
      cases hnext
      refine hc.clientKeeps hi rfl rfl ⟨hlate, nofun, hholds.resolve_right ?_⟩ (.inr rfl) nofun
      intro hclosed
      simp [SessionShared.Releasable, hclosed] at hreleasable
    · cases hnext
      exact hc.clientKeeps hi rfl rfl ⟨hlate, nofun, trivial⟩ (.inl rfl) nofun
  | upgradeIdle =>
    cases hnext
    exact hc.clientStores hi rfl hholds (by simp) (by simp) ⟨hlate, nofun, trivial⟩
  | openReady count =>
    cases hnext
    exact hc.clientStores hi rfl hholds (by simp) (by simp) ⟨hlate, nofun, rfl⟩
  | openAttach count =>
    cases hnext
    have hready : c.shared.session.state = .ready := hholds
    exact hc.clientStores hi rfl hready (by simp) (by simp [hready])
      ⟨hlate, nofun, .inl ⟨hready, rfl⟩⟩
  | openResume count =>
    cases hnext
    split
    · exact hc.clientKeeps hi rfl rfl ⟨hlate, nofun, hholds⟩ (.inr rfl) fun _ => rfl
    · exact hc.clientKeeps hi rfl rfl ⟨hlate, nofun, hholds⟩ (.inr rfl) fun _ => rfl
  | closeDetach =>
    cases hnext
    exact hc.clientHolds hi rfl .rfl ⟨hlate, hsocket, hholds⟩ nofun
  | closeCheck =>
    simp only [ClientPhase.next] at hnext
    split at hnext
    · cases hnext
      exact hc.clientKeeps hi rfl rfl ⟨hlate, hsocket, trivial⟩ (.inl rfl) nofun
    next hopen =>
      cases hnext
      exact hc.clientKeeps hi rfl rfl
        ⟨fun h => absurd h (hc.not_late hi hopen), hsocket, hholds⟩ (.inr rfl) nofun
  | closeRelease =>
    simp only [ClientPhase.next] at hnext
    split at hnext
    next hreleasable =>
      cases hnext
      refine hc.clientKeeps hi rfl rfl ⟨hlate, hsocket, hholds.resolve_right ?_⟩ (.inr rfl) nofun
      intro hclosed
      simp [SessionShared.Releasable, hclosed] at hreleasable
    · cases hnext
      exact hc.clientKeeps hi rfl rfl ⟨hlate, hsocket, trivial⟩ (.inl rfl) nofun
  | closeIdle =>
    cases hnext
    exact hc.clientStores hi rfl hholds (by simp) (by simp) ⟨hlate, hsocket, trivial⟩
  | closePause =>
    cases hnext
    refine hc.clientKeeps hi rfl rfl ⟨?_, hsocket, trivial⟩ (.inl rfl) nofun
    exact fun h => (hlate h).imp_right fun _ => rfl
  | _ => cases hnext

end

/-- The client in use is stored as long as its socket is open. -/
theorem client_of_inUse (hi : c.phases[i]? = some process) (hinUse : process.inUse = true)
    (hopen : i ∉ c.shared.closed) : c.shared.session.client = some i := by
  have hassert := hc.asserted i process hi
  cases process with
  | closer => cases hinUse
  | client phase =>
    have hholds := hassert.2.2
    cases phase with
    | openResume | opened =>
      rcases hholds with h | h
      · exact h.2
      · exact h.2 hopen
    | _ => cases hinUse

theorem closer_not_late {phase} (hi : c.phases[i]? = some (.closer phase)) : i ∉ c.shared.late := by
  intro hlate
  cases ((hc.asserted i _ hi).1 hlate).2

/-- A call steps without touching the state and the stored client. -/
theorem closer {phase next} (hi : c.phases[i]? = some (.closer phase))
    (hspares : Spares c.shared shared)
    (hpending : c.shared.session.state = .closed → ∀ j process, c.phases[j]? = some process →
      process.inUse → j ∉ shared.closed → Pending (c.update i (.closer next) shared)) :
    Terminal (c.update i (.closer next) shared) := by
  refine ⟨hc.toCast.update hi ⟨?_, trivial⟩ ?_ nofun, ?_, ?_, ?_⟩
  · rw [hspares.late]
    exact fun h => absurd h (hc.closer_not_late hi)
  · intro j other hj _ hassert
    exact hassert.keep hj ⟨hspares.terminated.trans, hspares.closed, fun _ _ => hspares.late ▸ id⟩
      hspares.state hspares.client
  · simpa only [update, hspares.terminated, hspares.state] using hc.ended
  · simpa [update, hspares.late] using hc.started
  · intro hclosed j process hj hinUse hopen
    rw [update_phases hi] at hj
    split at hj
    · cases hj
      cases hinUse
    · exact hpending (hspares.state.symm.trans hclosed) j process hj hinUse hopen

/-- So does a call that is not at the client field. -/
theorem closerPasses {phase next} (hi : c.phases[i]? = some (.closer phase))
    (hspares : Spares c.shared shared)
    (hphase : ∀ dispatching, phase ≠ .check dispatching ∧ phase ≠ .closeClient dispatching) :
    Terminal (c.update i (.closer next) shared) := by
  refine hc.closer hi hspares ?_
  intro hclosed j process hj hinUse hopen
  have hpending := hc.pending hclosed j process hj hinUse fun h => hopen (hspares.closed j h)
  refine hpending.update hi (fun dispatching => ⟨?_, ?_⟩) _ _
  · exact fun h => (hphase dispatching).1 (closer.inj h)
  · exact fun h => (hphase dispatching).2 (closer.inj h)

/-- A call finds no client to close, so no socket in use is open. -/
theorem closerFindsNone {phase next} (hi : c.phases[i]? = some (.closer phase))
    (hnone : c.shared.session.client = none) : Terminal (c.update i (.closer next) c.shared) := by
  refine hc.closer hi ⟨rfl, fun _ => id, rfl, rfl, rfl⟩ ?_
  intro _ j process hj hinUse hopen
  cases hnone.symm.trans (hc.client_of_inUse hj hinUse hopen)

/-- A call closes the session while no client is exposed. -/
theorem terminate {phase} (dispatching : Bool) (hi : c.phases[i]? = some (.closer phase))
    (hnone : ∀ process ∈ c.phases, process.exposed = false) :
    Terminal (c.update i (.closer (.check dispatching)) c.shared.terminate) := by
  refine ⟨hc.toCast.update hi ⟨?_, trivial⟩ ?_ nofun, ?_, ?_, ?_⟩
  · exact fun h => absurd h (hc.closer_not_late hi)
  · intro j other hj hother hassert
    have hexposed := hnone other (mem_of_getElem? hother)
    refine ⟨fun h => ⟨rfl, (hassert.1 h).2⟩, ?_⟩
    cases other with
    | closer => trivial
    | client phase =>
      refine ⟨hassert.2.1, ?_⟩
      have hholds := hassert.2.2
      cases phase with
      | upgradeRelease | closeDetach | closeCheck | closeRelease => exact .inr rfl
      | openResume | opened =>
        refine .inr ⟨rfl, fun hopen => ?_⟩
        rcases hholds with h | h
        · exact h.2
        · exact h.2 hopen
      | acquire | conflict | upgradeFailed | closePause | closed => trivial
      | _ => cases hexposed
  · exact iff_of_true rfl rfl
  · simpa [update, Shared.terminate] using hc.started
  · intro _ _ _ _ _ _
    exact ⟨dispatching, .inl (mem_update_self hi _ _)⟩

/-- Every operation of a call keeps a terminal session terminal, if the session is
closed only while no client is exposed. -/
theorem closerAdvance {phase next effect} (hi : c.phases[i]? = some (.closer phase))
    (hok : ClosesBetween c (.advance i))
    (hnext : phase.next c.shared.stored c.shared.session.state c.shared.session.client =
      some (next, effect)) :
    Terminal (c.update i (.closer next) (c.shared.perform effect)) := by
  simp only [ClosesBetween, hi] at hok
  have hspares : Spares c.shared c.shared := ⟨rfl, fun _ => id, rfl, rfl, rfl⟩
  cases phase with
  | load =>
    cases hnext
    exact hc.closerPasses hi hspares (by simp)
  | store =>
    cases hnext
    exact hc.terminate true hi hok
  | remove =>
    simp only [CloserPhase.next] at hnext
    split at hnext
    · cases hnext
      exact hc.closerPasses hi ⟨rfl, fun _ => id, rfl, rfl, rfl⟩ (by simp)
    · cases hnext
      exact hc.closerPasses hi hspares (by simp)
  | swap =>
    simp only [CloserPhase.next] at hnext
    split at hnext
    · cases hnext
      exact hc.closerPasses hi hspares (by simp)
    · cases hnext
      exact hc.terminate false hi hok
  | check dispatching =>
    simp only [CloserPhase.next] at hnext
    split at hnext
    next hnone =>
      cases hnext
      exact hc.closerFindsNone hi hnone
    · cases hnext
      refine hc.closer hi hspares fun _ _ _ _ _ _ => ?_
      exact ⟨dispatching, .inr (mem_update_self hi _ _)⟩
  | closeClient dispatching =>
    simp only [CloserPhase.next] at hnext
    split at hnext
    next hnone =>
      cases hnext
      exact hc.closerFindsNone hi hnone
    next client hsome =>
      cases hnext
      refine hc.closer hi ⟨rfl, fun _ => mem_cons_of_mem _, rfl, rfl, rfl⟩
        fun _ j process hj hinUse hopen => ?_
      -- the client in use is the one that was just closed
      obtain ⟨hne, hbefore⟩ := not_or.mp fun h => hopen (mem_cons.mpr h)
      have hclient := hsome.symm.trans (hc.client_of_inUse hj hinUse hbefore)
      exact absurd (some.inj hclient).symm hne
  | write =>
    cases hnext
    exact hc.closerPasses hi ⟨rfl, fun _ => id, rfl, rfl, rfl⟩ (by simp)
  | done | crashed => cases hnext

theorem advance {d} (hok : ClosesBetween c (.advance i))
    (hstep : c.advance (Process.next i c.shared) i = some d) : Terminal d := by
  obtain ⟨process, next, shared, hi, hnext, rfl⟩ := advance_eq_some hstep
  cases process with
  | client phase =>
    obtain ⟨⟨moved, session⟩, hmoved, heq⟩ := map_eq_some_iff.mp hnext
    cases heq
    exact hc.clientAdvance hi hmoved
  | closer phase =>
    obtain ⟨⟨moved, effect⟩, hmoved, heq⟩ := map_eq_some_iff.mp hnext
    cases heq
    exact hc.closerAdvance hi hok hmoved

/-- A process starts in no role. -/
theorem spawn (hrole : process.role = none) (hinUse : process.inUse = false)
    (hown : Asserts c.phases.length process c.shared) : Terminal (c.spawn process) := by
  refine ⟨hc.toCast.spawn (absurd hrole) hown, hc.ended, ?_, ?_⟩
  · intro j hj
    have hbound := hc.started j hj
    simp only [Config.spawn, length_append, length_singleton]
    omega
  · intro hclosed j other hj huse hopen
    rw [spawn_phases] at hj
    split at hj
    · cases hj
      rw [hinUse] at huse
      cases huse
    · obtain ⟨dispatching, h⟩ := hc.pending hclosed j other hj huse hopen
      exact ⟨dispatching, h.imp (mem_append_left _) (mem_append_left _)⟩

theorem spawnCloser (phase : CloserPhase) : Terminal (c.spawn (.closer phase)) := by
  refine hc.spawn rfl rfl ⟨fun h => ?_, trivial⟩
  exact absurd (hc.started _ h) (lt_irrefl _)

/-- A handler starts that sends nothing in a closed session. -/
theorem starts (hi : c.phases[i]? = some process) (hsilent : process.silent = true) :
    Terminal { c with shared := c.shared.starts i } := by
  unfold Shared.starts
  split
  next hterminated =>
    refine ⟨hc.toCast.environment ?_, hc.ended, ?_, hc.pending⟩
    · intro j other hj hassert
      refine ⟨fun hlate => ⟨hterminated, ?_⟩, hassert.2⟩
      rcases mem_cons.mp hlate with rfl | hbefore
      · rw [hi] at hj
        exact some.inj hj ▸ hsilent
      · exact (hassert.1 hbefore).2
    · intro j hj
      rcases mem_cons.mp hj with rfl | hbefore
      · exact (List.getElem?_eq_some_iff.mp hi).1
      · exact hc.started j hbefore
  · exact hc

theorem connect :
    Terminal { c.spawn (.client .acquire) with shared := c.shared.starts c.phases.length } := by
  have hspawned : Terminal (c.spawn (.client .acquire)) := by
    refine hc.spawn rfl rfl ⟨fun h => ?_, nofun, trivial⟩
    exact absurd (hc.started _ h) (lt_irrefl _)
  have hat : (c.spawn (.client .acquire)).phases[c.phases.length]? = some (.client .acquire) := by
    rw [spawn_phases, if_pos rfl]
  exact hspawned.starts hat rfl

theorem failUpgrade (hi : c.phases[i]? = some (.client .upgrade)) :
    Terminal (c.update i (.client .upgradeRelease) c.shared) := by
  obtain ⟨hlate, -, hholds⟩ := hc.asserted i _ hi
  exact hc.clientKeeps hi rfl rfl ⟨hlate, nofun, .inl hholds⟩ (.inr rfl) nofun

theorem hangUp (i : Nat) :
    Terminal { c with shared := { c.shared with closed := i :: c.shared.closed } } := by
  refine ⟨hc.toCast.environment ?_, hc.ended, hc.started, ?_⟩
  · intro j other _ hassert
    exact hassert.keep (ne_of_lt (Nat.lt_succ_self j))
      ⟨id, fun _ => mem_cons_of_mem _, fun _ _ => id⟩ rfl rfl
  · intro hclosed j process hj hinUse hopen
    exact hc.pending hclosed j process hj hinUse fun h => hopen (mem_cons_of_mem _ h)

/-- `OnClientClose` starts. -/
theorem disconnect (hi : c.phases[i]? = some (.client .opened)) (hmem : i ∈ c.shared.closed) :
    Terminal (c.update i (.client .closeDetach) (c.shared.starts i)) := by
  obtain ⟨hlate, -, hholds⟩ := hc.asserted i _ hi
  have hmoved : Terminal (c.update i (.client .closeDetach) c.shared) :=
    hc.clientKeeps hi rfl rfl
      ⟨fun h => (hlate h).imp_right fun _ => rfl, fun _ => hmem, hholds.imp And.left And.left⟩
      (.inr rfl) nofun
  have hat : (c.update i (.client .closeDetach) c.shared).phases[i]? =
      some (.client .closeDetach) := by
    rw [update_phases hi, if_pos rfl]
  exact hmoved.starts hat rfl

theorem step {d label} (hok : ClosesBetween c label)
    (hstep : SessionTermination.step c label = some d) : Terminal d := by
  cases label with
  | connect =>
    cases hstep
    exact hc.connect
  | advance i => exact hc.advance hok hstep
  | failUpgrade i =>
    obtain ⟨hi, hstep⟩ := ite_none_right_eq_some.mp hstep
    cases hstep
    exact hc.failUpgrade hi
  | hangUp i =>
    simp only [SessionTermination.step] at hstep
    split at hstep
    · split at hstep
      · cases hstep
        exact hc.hangUp i
      · cases hstep
    · cases hstep
  | disconnect i =>
    obtain ⟨h, hstep⟩ := ite_none_right_eq_some.mp hstep
    cases hstep
    exact hc.disconnect h.1 h.2
  | _ =>
    cases hstep
    exact hc.spawnCloser _

omit hc in
theorem start : Terminal initial where
  toCast := .start Shared.new
  ended := ⟨nofun, nofun⟩
  started := nofun
  pending := nofun

/-! ## The guarantees -/

theorem lateSilent : LateSilent c := by
  intro i d hlate hstep
  obtain ⟨process, next, shared, hi, hnext, rfl⟩ := advance_eq_some hstep
  obtain ⟨-, hsilent⟩ := (hc.asserted i process hi).1 hlate
  cases process with
  | closer => cases hsilent
  | client phase =>
    obtain ⟨⟨moved, session⟩, hmoved, heq⟩ := map_eq_some_iff.mp hnext
    cases heq
    cases phase with
    | acquire | closeCheck =>
      simp only [ClientPhase.next] at hmoved
      split at hmoved <;> cases hmoved <;> rfl
    | closeDetach =>
      cases hmoved
      rfl
    | conflict | closed => cases hmoved
    | _ =>
      cases hsilent

theorem leavesNoneOpen : LeavesNoneOpen c := by
  intro hsettled hterminated i phase hi hsocket
  have hdone := hsettled _ (mem_of_getElem? hi)
  rcases hsocket with hconnected | hdisconnected
  · -- of the connected phases only an open client is settled
    obtain rfl : phase = .opened := by
      cases phase with
      | opened => rfl
      | openCount | openReady | openAttach | openResume => exact hdone.elim
      | _ =>
        cases hconnected
    by_contra hopen
    obtain ⟨dispatching, h | h⟩ := hc.pending (hc.ended.mp hterminated) i _ hi rfl hopen
    · cases hsettled _ h
    · cases hsettled _ h
  · exact (hc.asserted i _ hi).2.1 hdisconnected

end Terminal

/-- A session that is closed only while no client is exposed is closed for good. -/
theorem run_terminates {c : System} {labels : List Label}
    (hmeets : Meets step ClosesBetween initial labels)
    (hrun : run step initial labels = some c) : Terminates c := by
  have hc : Terminal c := run_invariant_of_meets Terminal
    (fun hc => hc.step) .start hmeets hrun
  exact ⟨hc.ended.mp, hc.lateSilent, hc.leavesNoneOpen⟩

/-- A client connects up to the end of `OnClientOpen`. -/
def opens (i : Nat) : List Label := Label.connect :: replicate 6 (Label.advance i)

/-- The machine closes the session of an open client, whose `OnClientClose` follows. -/
def machineCloses : List Label :=
  opens 0 ++ Label.dispatch :: replicate 6 (Label.advance 1) ++
    [Label.disconnect 0, .advance 0, .advance 0]

theorem run_terminates_machineCloses :
    Meets step ClosesBetween initial machineCloses ∧
    ∃ c, run step initial machineCloses = some c ∧ c.shared.terminated ∧
      (∀ process ∈ c.phases, process.Settled) ∧ Terminates c :=
  have hmeets : Meets step ClosesBetween initial machineCloses := by decide +kernel
  ⟨hmeets, _, rfl, rfl, by decide +kernel, run_terminates hmeets rfl⟩

/-- A client connects and leaves; the machine's close packet is dispatched while the
next one is between `Acquire` and `OnClientOpen`, which then runs up to its packet. -/
def revived : List Label :=
  opens 0 ++ [Label.hangUp 0, .disconnect 0] ++ replicate 5 (Label.advance 0) ++
    [Label.connect, .advance 1] ++ Label.dispatch :: replicate 5 (Label.advance 2) ++
    replicate 4 (Label.advance 1)

/-- The deleted session is ready again, and a handler that started after it was closed
sends its resume packet and leaves the client's socket open. -/
theorem revived_not_terminates :
    (∃ c, run step initial revived = some c ∧ ¬ StaysClosed c ∧ ¬ LateSilent c) ∧
    ∃ c, run step initial (revived ++ [Label.advance 1]) = some c ∧
      ¬ LeavesNoneOpen c := by
  refine ⟨⟨_, rfl, ?_, ?_⟩, ⟨_, rfl, ?_⟩⟩
  · intro hstays
    cases hstays rfl
  · intro hsilent
    have hdata := hsilent 1 _ (by decide) rfl
    revert hdata
    decide +kernel
  · intro hleaves
    have hclosed := hleaves (by decide +kernel) rfl 1 .opened rfl (.inl rfl)
    exact absurd hclosed (by decide)

end Voce.Gateway.SessionTermination
