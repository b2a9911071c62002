import Voce.Gateway.Connection

/-! # One data socket at a time

If the sockets of a connection follow one another, at most one is live, an
`OnClose` that finds the connection active belongs to it, and `Close` finds it
stored. Overlapping sockets break this in each of its parts.
-/

namespace Voce.Gateway.Connection

open Interleaving Protocol List Option Config Phase Transition

/-- An accepted socket whose `OnClose` has not returned. -/
def Phase.live : Phase → Bool
  | .done _ => false
  | phase => phase.accepted

/-- `OnOpen` compares and swaps only after the `OnClose` of every socket accepted
before has returned, unless the connection is closed; `Close` loads the socket
while no `OnOpen` is between its swap and its store. -/
def Separate (c : System) : Label → Prop
  | .advance i =>
    match c.phases[i]? with
    | some .opening => c.shared.state = .closed ∨ ∀ phase ∈ c.phases, phase.live = false
    | some .closeLoad => Phase.storing ∉ c.phases
    | _ => True
  | _ => True

instance (c : System) (label : Label) : Decidable (Separate c label) := by
  unfold Separate
  split
  · split <;> infer_instance
  · infer_instance

/-- What holds of the shared state in each phase of process `i`. -/
def Asserts (i : Nat) (phase : Phase) (s : Shared) : Prop :=
  match phase with
  | .opening | .closeSwap | .done false => True
  | .storing => (s.state = .active ∨ s.state = .closed) ∧ s.socket = none
  | .opened true =>
    (s.state = .active ∨ s.state = .closed) ∧
      (s.state = .active ∨ i ∉ s.closed → s.socket = some i)
  | .closing true =>
    (s.state = .active ∧ s.socket = some i ∨ s.state = .closed) ∧ i ∈ s.closed
  | .clearing true =>
    (s.state = .connecting ∧ s.socket = some i ∨
      s.state = .closed ∧ (s.socket = some i ∨ s.socket = none)) ∧ i ∈ s.closed
  | .done true => i ∈ s.closed
  -- only a closed connection rejects a socket
  | .rejecting | .opened false | .closing false => s.state = .closed
  | .clearing false => False
  | .closeLoad | .closeSocket _ | .closeStore | .closeDone => s.state = .closed

/-- A closed connection stays closed, and so does a socket. -/
structure Later (s t : Shared) : Prop where
  state : s.state = .closed → t.state = .closed
  closed : ∀ i ∈ s.closed, i ∈ t.closed

theorem Later.refl (s : Shared) : Later s s := ⟨id, fun _ => id⟩

variable {phase : Phase} {i : Nat}

/-- What a process that holds no live socket relies on is not undone. -/
theorem Asserts.later {s t} (hphase : Asserts i phase s) (hlive : phase.live = false)
    (hlater : Later s t) : Asserts i phase t := by
  cases phase with
  | opening | closeSwap => trivial
  | storing => cases hlive
  | opened accepted | closing accepted =>
    cases accepted with
    | true => cases hlive
    | false => exact hlater.state hphase
  | clearing accepted =>
    cases accepted with
    | true => cases hlive
    | false => exact hphase
  | done accepted =>
    cases accepted with
    | true => exact hlater.closed i hphase
    | false => trivial
  | _ => exact hlater.state hphase

/-- Closing sockets interferes with no process. -/
theorem Asserts.close {s} (hphase : Asserts i phase s) (j : Nat) :
    Asserts i phase { s with closed := j :: s.closed } := by
  cases phase with
  | opening | closeSwap => trivial
  | opened accepted =>
    cases accepted with
    | true =>
      refine ⟨hphase.1, fun h => hphase.2 (h.imp_right fun hopen hclosed => ?_)⟩
      exact hopen (mem_cons_of_mem j hclosed)
    | false => exact hphase
  | closing accepted | clearing accepted =>
    cases accepted with
    | true => exact ⟨hphase.1, mem_cons_of_mem j hphase.2⟩
    | false => exact hphase
  | done accepted =>
    cases accepted with
    | true => exact mem_cons_of_mem j hphase
    | false => trivial
  | _ => exact hphase

/-- What only one process at a time can be: the live socket, or the `Close` that
found the connection not closed and has not returned. -/
inductive Role where
  | socket
  | closer

def Phase.role : Phase → Option Role
  | .closeLoad | .closeSocket _ | .closeStore => some .closer
  | phase => if phase.live then some .socket else none

theorem role_eq_socket : phase.role = some .socket ↔ phase.live = true := by
  unfold role
  split
  case h_4 => split <;> simp_all
  all_goals simp [live, accepted]

theorem Asserts.closed_of_closer {s} (hphase : Asserts i phase s)
    (hrole : phase.role = some .closer) : s.state = .closed := by
  cases phase with
  | closeLoad | closeSocket | closeStore => exact hphase
  | _ =>
    simp [role] at hrole

/-- `Close` has yet to close the socket `i` of a closed connection. -/
def Pending (c : System) (i : Nat) : Prop :=
  .closeLoad ∈ c.phases ∨ .closeSocket i ∈ c.phases

/-- At most one socket is live, an active connection has one, and a closed
connection that has an open one is about to close it. -/
structure OneSocket (c : System) : Prop extends Cast Asserts Phase.role c where
  idle : (∀ phase ∈ c.phases, phase.live = false) →
    c.shared.state = .connecting ∧ c.shared.socket = none ∨ c.shared.state = .closed
  storing : c.shared.state = .closed → .storing ∈ c.phases → .closeLoad ∈ c.phases
  opened : c.shared.state = .closed → ∀ i, c.phases[i]? = some (.opened true) →
    i ∉ c.shared.closed → Pending c i

namespace OneSocket

variable {c : System} {i : Nat} {phase next : Phase} {shared : Shared} (hc : OneSocket c)
include hc

section

variable (hi : c.phases[i]? = some phase)
include hi

/-- The other sockets are not live. -/
theorem not_live (hlive : phase.live = true) {j other} (hj : j ≠ i)
    (hother : c.phases[j]? = some other) : other.live = false := by
  have hrole := role_eq_socket.mpr hlive
  have hne := hc.other_role_ne hi (by rw [hrole]; exact nofun) hj hother
  rw [hrole, ne_eq, role_eq_socket, Bool.not_eq_true] at hne
  exact hne

/-- A process steps. Only live sockets of others have to be looked at. -/
theorem update
    (hlater : Later c.shared shared) (hown : Asserts i next shared)
    (hothers : ∀ j other, j ≠ i → c.phases[j]? = some other → other.live = true →
      Asserts j other shared)
    (hrole : next.role ≠ none → ∀ j other, j ≠ i → c.phases[j]? = some other →
      other.role ≠ next.role)
    (hidle : next.live = false →
      (∀ j other, j ≠ i → c.phases[j]? = some other → other.live = false) →
      shared.state = .connecting ∧ shared.socket = none ∨ shared.state = .closed)
    (hstoring : shared.state = .closed → .storing ∈ (c.update i next shared).phases →
      .closeLoad ∈ (c.update i next shared).phases)
    (hopened : shared.state = .closed → ∀ j,
      (c.update i next shared).phases[j]? = some (.opened true) → j ∉ shared.closed →
      Pending (c.update i next shared) j) :
    OneSocket (c.update i next shared) := by
  refine ⟨hc.toCast.update hi hown ?_ hrole, ?_, hstoring, hopened⟩
  · intro j other hj hother hassert
    cases hlive : other.live with
    | true => exact hothers j other hj hother hlive
    | false => exact hassert.later hlive hlater
  · intro hall
    refine hidle (hall next (mem_update_self hi next shared)) ?_
    intro j other hj hother
    apply hall other
    apply mem_of_getElem? (i := j)
    rw [update_phases hi, if_neg hj, hother]

/-- A process that is not the one to close the socket steps in a connection whose
state stays as it is, and accepts no socket. -/
theorem move (hlater : Later c.shared shared) (hstate : shared.state = c.shared.state)
    (hown : Asserts i next shared)
    (hothers : ∀ j other, j ≠ i → c.phases[j]? = some other → other.live = true →
      Asserts j other shared)
    (hrole : next.role = none ∨ next.role = phase.role)
    (hidle : next.live = false → phase.live = true →
      shared.state = .connecting ∧ shared.socket = none ∨ shared.state = .closed)
    (hsocket : phase.live = false → c.shared.socket = none → shared.socket = none)
    (hkept : ∀ j, phase ≠ .closeLoad ∧ phase ≠ .closeSocket j)
    (hnext : next ≠ .storing ∧ next ≠ .opened true) : OneSocket (c.update i next shared) := by
  refine hc.update hi hlater hown hothers ?_ ?_ ?_ ?_
  · intro hsome j other hj hother
    rcases hrole with hnone | heq
    · exact absurd hnone hsome
    · rw [heq] at hsome ⊢
      exact hc.other_role_ne hi hsome hj hother
  · intro hnextLive hall
    cases hlive : phase.live with
    | true => exact hidle hnextLive hlive
    | false =>
      have hquiet : ∀ other ∈ c.phases, other.live = false :=
        forall_mem_of_others hi hlive hall
      rw [hstate]
      exact (hc.idle hquiet).imp_left fun h => ⟨h.1, hsocket hlive h.2⟩
  · intro hclosed hmem
    have hold : Phase.storing ∈ c.phases :=
      (mem_or_eq_of_mem_set hmem).resolve_right hnext.1.symm
    have hload := hc.storing (hstate ▸ hclosed) hold
    exact mem_update_of_ne hi hload (hkept 0).1.symm next shared
  · intro hclosed j hj hopen
    rw [update_phases hi] at hj
    split at hj
    · exact absurd (some.inj hj) hnext.2
    · have hpending := hc.opened (hstate ▸ hclosed) j hj fun h => hopen (hlater.closed j h)
      exact hpending.imp
        (fun h => mem_update_of_ne hi h (hkept j).1.symm next shared)
        (fun h => mem_update_of_ne hi h (hkept j).2.symm next shared)

/-- Where the stepping process holds the live socket, no other process does. -/
theorem others_of_live (hlive : phase.live = true) (shared : Shared) (j : Nat) (other : Phase)
    (hj : j ≠ i) (hother : c.phases[j]? = some other) (hotherLive : other.live = true) :
    Asserts j other shared := by
  rw [hc.not_live hi hlive hj hother] at hotherLive
  cases hotherLive

end

/-- `OnOpen` finds the connection connecting. -/
theorem accept (hi : c.phases[i]? = some .opening) (hstate : c.shared.state = .connecting)
    (hnone : ∀ phase ∈ c.phases, phase.live = false) :
    OneSocket (c.update i .storing { c.shared with state := .active }) := by
  have hsocket : c.shared.socket = none := by
    rcases hc.idle hnone with h | hclosed
    · exact h.2
    · rw [hstate] at hclosed
      cases hclosed
  have hlive : ∀ j other, j ≠ i → c.phases[j]? = some other → other.live = false :=
    fun j other _ hother => hnone other (mem_of_getElem? hother)
  refine hc.update hi ⟨?_, fun _ => id⟩ ⟨.inl rfl, hsocket⟩ ?_ ?_ nofun nofun nofun
  · intro hclosed
    rw [hstate] at hclosed
    cases hclosed
  · intro j other hj hother h
    rw [hlive j other hj hother] at h
    cases h
  · intro _ j other hj hother heq
    have h : other.live = true := role_eq_socket.mp heq
    rw [hlive j other hj hother] at h
    cases h

/-- `OnOpen` stores the socket it accepted. -/
theorem store (hi : c.phases[i]? = some .storing) :
    OneSocket (c.update i (.opened true) { c.shared with socket := some i }) := by
  have hload : ∀ next shared, c.shared.state = .closed →
      closeLoad ∈ (c.update i next shared).phases := fun next shared hclosed =>
    mem_update_of_ne hi (hc.storing hclosed (mem_of_getElem? hi)) nofun next shared
  refine hc.update hi ⟨id, fun _ => id⟩ ⟨(hc.asserted i _ hi).1, fun _ => rfl⟩
    (hc.others_of_live hi rfl _) ?_ nofun ?_ ?_
  · intro _ j other hj hother
    exact hc.other_role_ne hi nofun hj hother
  · intro hclosed _
    exact hload _ _ hclosed
  · intro hclosed j _ _
    exact .inl (hload _ _ hclosed)

/-- `Close` finds the connection not closed. -/
theorem swap (hi : c.phases[i]? = some .closeSwap) (hstate : c.shared.state ≠ .closed) :
    OneSocket (c.update i .closeLoad { c.shared with state := .closed }) := by
  have hload := mem_update_self hi .closeLoad { c.shared with state := .closed }
  refine hc.update hi ⟨fun _ => rfl, fun _ => id⟩ rfl ?_ ?_ (fun _ _ => .inr rfl)
    (fun _ _ => hload) (fun _ _ _ _ => .inl hload)
  · intro j other hj hother hlive
    have hassert := hc.asserted j other hother
    cases other with
    | storing => exact ⟨.inr rfl, hassert.2⟩
    | opened accepted =>
      obtain rfl : accepted = true := hlive
      exact ⟨.inr rfl, fun _ => hassert.2 (.inl (hassert.1.resolve_right hstate))⟩
    | closing accepted =>
      obtain rfl : accepted = true := hlive
      exact ⟨.inr rfl, hassert.2⟩
    | clearing accepted =>
      obtain rfl : accepted = true := hlive
      have hsocket := (hassert.1.resolve_right fun h => hstate h.1).2
      exact ⟨.inr ⟨rfl, .inl hsocket⟩, hassert.2⟩
    | _ => cases hlive
  · intro _ j other hj hother heq
    exact hstate ((hc.asserted j other hother).closed_of_closer heq)

/-- `Close` loads the stored socket. -/
theorem load (hi : c.phases[i]? = some .closeLoad) (hnone : Phase.storing ∉ c.phases)
    (hrole : next.role = none ∨ next.role = some .closer) (hnext : Asserts i next c.shared)
    (hne : next ≠ .opened true) (hlive : next.live = false)
    (hloaded : ∀ j, c.shared.socket = some j → next = .closeSocket j) :
    OneSocket (c.update i next c.shared) := by
  have hclosed : c.shared.state = .closed := hc.asserted i _ hi
  refine hc.update hi (.refl _) hnext (fun j other _ hother _ => hc.asserted j other hother)
    ?_ (fun _ _ => .inr hclosed) ?_ ?_
  · intro hsome j other hj hother
    rw [hrole.resolve_left hsome]
    exact hc.other_role_ne hi nofun hj hother
  · intro _ hmem
    rcases mem_or_eq_of_mem_set hmem with hold | rfl
    · exact absurd hold hnone
    · cases hlive
  · intro _ j hj hopen
    rw [update_phases hi] at hj
    split at hj
    · exact absurd (some.inj hj) hne
    · -- an open socket is the stored one
      obtain rfl := hloaded j ((hc.asserted j _ hj).2 (.inr hopen))
      exact .inr (mem_update_self hi _ _)

/-- `Close` closes the socket it loaded. -/
theorem closeLoaded {socket} (hi : c.phases[i]? = some (.closeSocket socket)) :
    OneSocket (c.update i .closeStore
      { c.shared with closed := socket :: c.shared.closed }) := by
  have hclosed : c.shared.state = .closed := hc.asserted i _ hi
  refine hc.update hi ⟨id, fun _ => mem_cons_of_mem _⟩ hclosed
    (fun j other _ hother _ => (hc.asserted j other hother).close socket) ?_
    (fun _ _ => .inr hclosed) ?_ ?_
  · intro _ j other hj hother
    exact hc.other_role_ne hi nofun hj hother
  · intro _ hmem
    have hold := (mem_or_eq_of_mem_set hmem).resolve_right nofun
    exact mem_update_of_ne hi (hc.storing hclosed hold) nofun _ _
  · intro _ j hj hopen
    rw [update_phases hi] at hj
    split at hj
    · cases hj
    · obtain ⟨hne, hold⟩ := not_or.mp (fun h => hopen (mem_cons.mpr h))
      refine (hc.opened hclosed j hj hold).imp ?_ ?_
      · exact fun h => mem_update_of_ne hi h nofun _ _
      · intro h
        exact mem_update_of_ne hi h (fun heq => hne (closeSocket.inj heq)) _ _

/-- `Close` clears the stored socket. -/
theorem closeClear (hi : c.phases[i]? = some .closeStore) :
    OneSocket (c.update i .closeDone { c.shared with socket := none }) := by
  have hclosed : c.shared.state = .closed := hc.asserted i _ hi
  refine hc.move hi ⟨id, fun _ => id⟩ rfl hclosed ?_ (.inl rfl) nofun (fun _ _ => rfl)
    (fun _ => ⟨nofun, nofun⟩) ⟨nofun, nofun⟩
  intro j other hj hother hlive
  have hassert := hc.asserted j other hother
  cases other with
  | storing => exact ⟨hassert.1, rfl⟩
  | opened accepted =>
    obtain rfl : accepted = true := hlive
    refine ⟨.inr hclosed, fun h => ?_⟩
    rcases h with hactive | hopen
    · rw [hclosed] at hactive
      cases hactive
    -- the process that would have to close this socket is past that point
    · obtain ⟨phase, hmem, hrole, hne⟩ : ∃ phase ∈ c.phases,
          phase.role = some .closer ∧ phase ≠ .closeStore := by
        rcases hc.opened hclosed j hother hopen with h | h
        · exact ⟨_, h, rfl, nofun⟩
        · exact ⟨_, h, rfl, nofun⟩
      obtain ⟨k, hk⟩ := mem_iff_getElem?.mp hmem
      obtain rfl : k = i := not_not.mp fun hne => hc.other_role_ne hi nofun hne hk hrole
      rw [hi] at hk
      exact absurd (some.inj hk).symm hne
  | closing accepted =>
    obtain rfl : accepted = true := hlive
    exact ⟨.inr hclosed, hassert.2⟩
  | clearing accepted =>
    obtain rfl : accepted = true := hlive
    exact ⟨.inr ⟨hclosed, .inr rfl⟩, hassert.2⟩
  | _ => cases hlive

variable {accepted : Bool}

/-- `OnClose` finds the connection active. -/
theorem disconnect (hi : c.phases[i]? = some (.closing accepted))
    (hstate : c.shared.state = .active) :
    OneSocket (c.update i (.clearing accepted) { c.shared with state := .connecting }) := by
  have hassert := hc.asserted i _ hi
  have hne : c.shared.state ≠ .closed := by
    rw [hstate]
    exact nofun
  cases accepted with
  | false => exact absurd hassert hne
  | true =>
    have hsocket := (hassert.1.resolve_right hne).2
    refine hc.update hi ⟨fun h => absurd h hne, fun _ => id⟩
      ⟨.inl ⟨rfl, hsocket⟩, hassert.2⟩ (hc.others_of_live hi rfl _) ?_ nofun nofun nofun
    intro _ j other hj hother
    exact hc.other_role_ne hi nofun hj hother

/-- `OnClose` returns without touching a connection that is not active. -/
theorem ignore (hi : c.phases[i]? = some (.closing accepted)) (hstate : c.shared.state ≠ .active) :
    OneSocket (c.update i (.done accepted) c.shared) := by
  have hassert := hc.asserted i _ hi
  refine hc.move hi (.refl _) rfl ?_ (fun j other _ hother _ => hc.asserted j other hother)
    (.inl rfl) ?_ (fun _ => id) (fun _ => ⟨nofun, nofun⟩) ⟨nofun, nofun⟩
  · cases accepted with
    | false => trivial
    | true => exact hassert.2
  · intro _ hlive
    obtain rfl : accepted = true := hlive
    exact .inr (hassert.1.resolve_left fun h => hstate h.1)

/-- `OnClose` clears the stored socket. -/
theorem clear (hi : c.phases[i]? = some (.clearing accepted)) :
    OneSocket (c.update i (.done accepted) { c.shared with socket := none }) := by
  have hassert := hc.asserted i _ hi
  cases accepted with
  | false => exact hassert.elim
  | true =>
    refine hc.move hi ⟨id, fun _ => id⟩ rfl hassert.2 (hc.others_of_live hi rfl _)
      (.inl rfl) ?_ (fun _ _ => rfl) (fun _ => ⟨nofun, nofun⟩) ⟨nofun, nofun⟩
    exact fun _ _ => hassert.1.imp (fun h => ⟨h.1, rfl⟩) (fun h => h.1)

/-- `OnOpen` closes a socket that it did not accept. -/
theorem reject (hi : c.phases[i]? = some .rejecting) :
    OneSocket (c.update i (.opened false) { c.shared with closed := i :: c.shared.closed }) :=
  hc.move hi ⟨id, fun _ => mem_cons_of_mem _⟩ rfl (hc.asserted i .rejecting hi)
    (fun j other _ hother _ => (hc.asserted j other hother).close i) (.inl rfl) nofun
    (fun _ => id) (fun _ => ⟨nofun, nofun⟩) ⟨nofun, nofun⟩

/-- A process that is no live socket goes on without touching the connection. -/
theorem pass (hi : c.phases[i]? = some phase) (hrole : phase.role = none)
    (hnextRole : next.role = none) (hown : Asserts i next c.shared) :
    OneSocket (c.update i next c.shared) := by
  have hlive : phase.live ≠ true := by
    rw [ne_eq, ← role_eq_socket, hrole]
    exact nofun
  refine hc.move hi (.refl _) rfl hown (fun j other _ hother _ => hc.asserted j other hother)
    (.inl hnextRole) (fun _ h => absurd h hlive) (fun _ => id) (fun j => ⟨?_, ?_⟩) ⟨?_, ?_⟩
  all_goals
    rintro rfl
    first | cases hrole | cases hnextRole

/-- Every operation keeps one socket at a time, if the processes are separate. -/
theorem advance {d} (hok : Separate c (.advance i))
    (hstep : c.advance (Phase.next i c.shared) i = some d) : OneSocket d := by
  obtain ⟨phase, next, shared, hi, hnext, rfl⟩ := advance_eq_some hstep
  simp only [Separate, hi] at hok
  cases phase with
  | opening =>
    simp only [Phase.next] at hnext
    split at hnext
    next hstate =>
      cases hnext
      refine hc.accept hi hstate (hok.resolve_left ?_)
      rw [hstate]
      exact nofun
    next hstate =>
      cases hnext
      have hclosed : c.shared.state = .closed := by
        rcases hok with h | hnone
        · exact h
        · exact (hc.idle hnone).resolve_left fun h => hstate h.1
      exact hc.pass hi rfl rfl hclosed
  | storing =>
    cases hnext
    exact hc.store hi
  | rejecting =>
    cases hnext
    exact hc.reject hi
  | closing accepted =>
    simp only [Phase.next] at hnext
    split at hnext
    next hstate =>
      cases hnext
      exact hc.disconnect hi hstate
    next hstate =>
      cases hnext
      exact hc.ignore hi hstate
  | clearing accepted =>
    cases hnext
    exact hc.clear hi
  | closeSwap =>
    simp only [Phase.next] at hnext
    split at hnext
    next hclosed =>
      cases hnext
      exact hc.pass hi rfl rfl hclosed
    next hstate =>
      cases hnext
      exact hc.swap hi hstate
  | closeLoad =>
    have hclosed : c.shared.state = .closed := hc.asserted i _ hi
    simp only [Phase.next] at hnext
    split at hnext
    next hsocket =>
      cases hnext
      refine hc.load hi hok (.inl rfl) hclosed nofun rfl fun j h => ?_
      rw [hsocket] at h
      cases h
    next socket hsocket =>
      cases hnext
      refine hc.load hi hok (.inr rfl) hclosed nofun rfl fun j h => ?_
      rw [hsocket] at h
      rw [some.inj h]
  | closeSocket socket =>
    cases hnext
    exact hc.closeLoaded hi
  | closeStore =>
    cases hnext
    exact hc.closeClear hi
  | _ => cases hnext

/-- A socket is dialed, or `Close` is called. -/
theorem spawn (hrole : phase.role = none) (hown : Asserts c.phases.length phase c.shared) :
    OneSocket (c.spawn phase) := by
  have hmem : ∀ other ∈ c.phases, other ∈ (c.spawn phase).phases :=
    fun other => mem_append_left [phase]
  have hnot : ∀ {other : Phase}, other.role ≠ none → phase ≠ other := by
    rintro other hother rfl
    exact hother hrole
  refine ⟨hc.toCast.spawn (absurd hrole) hown,
    fun hall => hc.idle fun other h => hall other (hmem other h), ?_, ?_⟩
  · intro hclosed hstoring
    have hold := (mem_append.mp hstoring).resolve_right fun h =>
      hnot (by exact nofun) (mem_singleton.mp h).symm
    exact hmem _ (hc.storing hclosed hold)
  · intro hclosed j hj hopen
    rw [spawn_phases] at hj
    split at hj
    · exact absurd (some.inj hj) (hnot nofun)
    · exact (hc.opened hclosed j hj hopen).imp (hmem _) (hmem _)

/-- The peer closes a socket. -/
theorem hangUp (i : Nat) :
    OneSocket { c with shared := { c.shared with closed := i :: c.shared.closed } } where
  toCast := hc.toCast.environment fun _ _ _ hassert => hassert.close i
  idle := hc.idle
  storing := hc.storing
  opened hclosed j hj hopen := hc.opened hclosed j hj fun h => hopen (mem_cons_of_mem i h)

/-- A closed socket reaches `OnClose`. -/
theorem onClose (hi : c.phases[i]? = some (.opened accepted)) (hmem : i ∈ c.shared.closed) :
    OneSocket (c.update i (.closing accepted) c.shared) := by
  have hassert := hc.asserted i _ hi
  cases accepted with
  | false => exact hc.pass hi rfl rfl hassert
  | true =>
    refine hc.move hi (.refl _) rfl ⟨?_, hmem⟩
      (fun j other _ hother _ => hc.asserted j other hother) (.inr rfl) nofun (fun _ => id)
      (fun _ => ⟨nofun, nofun⟩) ⟨nofun, nofun⟩
    exact hassert.1.imp_left fun hactive => ⟨hactive, hassert.2 (.inl hactive)⟩

theorem step {d label} (hok : Separate c label) (hstep : Connection.step c label = some d) :
    OneSocket d := by
  cases label with
  | dial | close =>
    cases hstep
    exact hc.spawn rfl trivial
  | advance i => exact hc.advance hok hstep
  | hangUp i =>
    simp only [Connection.step] at hstep
    split at hstep
    · split at hstep
      · cases hstep
      · cases hstep
        exact hc.hangUp i
    · cases hstep
  | onClose i =>
    simp only [Connection.step] at hstep
    split at hstep
    next accepted hi =>
      split at hstep
      next hmem =>
        cases hstep
        exact hc.onClose hi hmem
      · cases hstep
    · cases hstep

omit hc in
theorem start : OneSocket initial where
  toCast := .start Shared.new
  idle _ := .inl ⟨rfl, rfl⟩
  storing := nofun
  opened := nofun

/-! ## The guarantees -/

theorem ignoresStale : IgnoresStale c := by
  intro i d hclosing hstale hstep
  obtain ⟨phase, next, shared, hi, hnext, rfl⟩ := advance_eq_some hstep
  have hassert := hc.asserted i phase hi
  obtain ⟨accepted, h | h⟩ := hclosing
  · obtain rfl : phase = .closing accepted := some.inj (hi.symm.trans h)
    have hstate : c.shared.state ≠ .active := by
      intro hactive
      cases accepted with
      | false => exact absurd (hactive.symm.trans hassert) nofun
      | true =>
        rcases hassert.1 with hstored | hclosed
        · exact hstale hstored.2
        · exact absurd (hactive.symm.trans hclosed) nofun
    rw [Phase.next, if_neg hstate] at hnext
    cases hnext
    exact ⟨rfl, rfl⟩
  · obtain rfl : phase = .clearing accepted := some.inj (hi.symm.trans h)
    cases hnext
    cases accepted with
    | false => exact hassert.elim
    | true =>
      refine ⟨rfl, ?_⟩
      rcases hassert.1 with hstored | ⟨-, hstored | hnone⟩
      · exact absurd hstored.2 hstale
      · exact absurd hstored hstale
      · exact hnone.symm

theorem tracksOpen (hquiet : Quiescent c) : TracksOpen c := by
  intro hactive
  -- an active connection has a live socket
  obtain ⟨phase, hmem, hlive⟩ : ∃ phase ∈ c.phases, phase.live = true := by
    by_contra hnone
    simp only [not_exists, not_and, Bool.not_eq_true] at hnone
    rcases hc.idle hnone with ⟨hstate, -⟩ | hstate
    · exact absurd (hactive.symm.trans hstate) nofun
    · exact absurd (hactive.symm.trans hstate) nofun
  obtain ⟨i, hi⟩ := mem_iff_getElem?.mp hmem
  rcases hquiet i phase hi with ⟨accepted, rfl, hopen⟩ | ⟨accepted, rfl⟩ | rfl
  · obtain rfl : accepted = true := hlive
    exact ⟨i, (hc.asserted i _ hi).2 (.inl hactive), hi, hopen⟩
  · cases hlive
  · cases hlive

theorem leavesNoneOpen (hquiet : Quiescent c) : LeavesNoneOpen c := by
  intro hdone i phase hi haccepted
  obtain ⟨k, hk⟩ := mem_iff_getElem?.mp hdone
  have hclosed : c.shared.state = .closed := hc.asserted k _ hk
  rcases hquiet i phase hi with ⟨accepted, rfl, hopen⟩ | ⟨accepted, rfl⟩ | rfl
  · obtain rfl : accepted = true := haccepted
    obtain ⟨closer, hmem, hnot⟩ : ∃ closer ∈ c.phases, closer.role = some .closer := by
      rcases hc.opened hclosed i hi hopen with h | h
      · exact ⟨_, h, rfl⟩
      · exact ⟨_, h, rfl⟩
    obtain ⟨j, hj⟩ := mem_iff_getElem?.mp hmem
    rcases hquiet j closer hj with ⟨other, rfl, -⟩ | ⟨_, rfl⟩ | rfl
    · cases other <;> cases hnot
    · cases hnot
    · cases hnot
  · obtain rfl : accepted = true := haccepted
    exact hc.asserted i _ hi
  · cases haccepted

end OneSocket

/-- A connection whose sockets follow one another tracks the right one. -/
theorem run_tracks {c : System} {labels : List Label}
    (hmeets : Meets step Separate initial labels)
    (hrun : run step initial labels = some c) : Tracks c := by
  have hc : OneSocket c := run_invariant_of_meets OneSocket
    (fun hc => hc.step) .start hmeets hrun
  exact ⟨hc.ignoresStale, hc.tracksOpen, hc.leavesNoneOpen⟩

/-- The peer closes the first socket, and a second one is dialed after `OnClose`. -/
def reconnected : List Label :=
  [Label.dial, .advance 0, .advance 0, .hangUp 0, .onClose 0, .advance 0, .advance 0, .dial,
    .advance 1, .advance 1]

theorem run_tracks_reconnected : Meets step Separate initial reconnected ∧
    ∃ c, run step initial reconnected = some c ∧ c.shared.state = .active ∧
      c.shared.socket = some 1 ∧ Tracks c :=
  have hmeets : Meets step Separate initial reconnected := by decide
  ⟨hmeets, _, rfl, rfl, rfl, run_tracks hmeets rfl⟩

/-- A second socket is rejected, since the first one is in use, and reaches `OnClose`. -/
def rejected : List Label :=
  [Label.dial, .advance 0, .advance 0, .dial, .advance 1, .advance 1, .onClose 1]

/-- The second socket's `OnClose` returns, and `Close` is called. -/
def rejectedClosed : List Label :=
  rejected ++ [Label.advance 1, .advance 1, .close, .advance 2, .advance 2]

/-- A second socket is accepted and stored while the first one's `OnClose` is between
its swap and its store. -/
def overtaken : List Label :=
  [Label.dial, .advance 0, .advance 0, .hangUp 0, .onClose 0, .advance 0, .dial, .advance 1,
    .advance 1, .advance 0]

/-- The `OnClose` of a rejected socket disconnects the one in use, which `Close` then
leaves open; an `OnClose` that is overtaken leaves the connection active without a
socket. -/
theorem rejected_not_tracks :
    (∃ c, run step initial rejected = some c ∧ ¬ IgnoresStale c) ∧
    (∃ c, run step initial rejectedClosed = some c ∧ Quiescent c ∧
      ¬ LeavesNoneOpen c) ∧
    (∃ c, run step initial overtaken = some c ∧ Quiescent c ∧ ¬ TracksOpen c) := by
  refine ⟨⟨_, rfl, ?_⟩, ⟨_, rfl, ?_, ?_⟩, ⟨_, rfl, ?_, ?_⟩⟩
  · intro hignores
    have hkept := hignores 1 _ ⟨false, .inl rfl⟩ nofun rfl
    cases hkept.1
  · intro i phase hi
    match i with
    | 0 =>
      cases hi
      exact .inl ⟨true, rfl, by decide⟩
    | 1 =>
      cases hi
      exact .inr (.inl ⟨false, rfl⟩)
    | 2 =>
      cases hi
      exact .inr (.inr rfl)
  · intro hleaves
    have hclosed := hleaves (by decide) 0 (.opened true) rfl rfl
    exact absurd hclosed (by decide)
  · intro i phase hi
    match i with
    | 0 =>
      cases hi
      exact .inr (.inl ⟨true, rfl⟩)
    | 1 =>
      cases hi
      exact .inl ⟨true, rfl, by decide⟩
  · intro htracks
    obtain ⟨i, hi, -⟩ := htracks rfl
    cases hi

end Voce.Gateway.Connection
