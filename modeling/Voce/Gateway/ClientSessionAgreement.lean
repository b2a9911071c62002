import Voce.Gateway.ClientSession

/-! # Agreement of clients and workflow in gateway mode

The session state works as a lock: the connections between a successful
`Acquire` and the store of `Release` exclude each other. What the machine will
make of the packets in flight is the drained workflow state. A close handler
writes its pause packet after it has given the lock up, so a client that
reconnects in between can have its resume packet overtaken.
-/

namespace Voce.Gateway

open Engine Interleaving Protocol List Option Config SessionShared ClientPhase Int Transition

/-- The workflow state once every packet in flight has been handled. -/
def SessionShared.drained (s : SessionShared) : WorkflowState :=
  s.data.foldl handleMessage s.workflow

theorem drained_writePacket (s : SessionShared) (type : PacketType) :
    (s.writePacket type).drained = handleMessage s.drained type := by
  simp [drained, writePacket]

theorem handleMessage_resume {workflow} (hstarted : workflow.Started) :
    handleMessage workflow typeResume = .running := by
  rw [handleMessage, if_neg (by decide), if_pos rfl, hstarted.after_resume]

theorem addInt32_of_lt {count} (hpos : 0 ≤ count) (hlt : count + 1 < 2 ^ 31) :
    addInt32 count = count + 1 :=
  bmod_eq_of_le (by omega) (by omega)

namespace ClientPhase

/-- The session state a connection keeps while it has the session acquired. -/
def heldState : ClientPhase → Option SessionState
  | .upgrade | .upgradeRelease | .upgradeIdle | .openCount | .openReady _ => some .pending
  | .openAttach _ | .openResume _ | .opened | .closeDetach | .closeCheck | .closeRelease
  | .closeIdle => some .ready
  | _ => none

def Holds (phase : ClientPhase) : Prop := phase.heldState.isSome

/-- The connection has raised the connection counter. -/
def Counted : ClientPhase → Prop
  | .acquire | .conflict | .upgrade | .upgradeRelease | .upgradeIdle | .upgradeFailed
  | .openCount => False
  | _ => True

/-- The count an open handler carries. -/
def carried : ClientPhase → Option Int
  | .openReady count | .openAttach count | .openResume count => some count
  | _ => none

theorem holds_of_carried {phase : ClientPhase} {count} (h : phase.carried = some count) :
    phase.Holds := by
  cases phase <;> first | rfl | cases h

theorem not_idle_of_heldState {phase : ClientPhase} {state} (h : phase.heldState = some state) :
    state ≠ .idle := by
  cases phase <;> cases h <;> decide

end ClientPhase

namespace ClientSession

/-- What holds of the shared state whatever the handlers do. -/
structure Sound (s : SessionShared) : Prop where
  started : s.workflow.Started
  packets : ∀ type ∈ s.data, type = typePause ∨ type = typeResume
  count : 0 ≤ s.connectCount
  fresh : s.connectCount = 0 → s.drained = .running

/-- What a connection knows of the shared state by its phase. -/
structure Knows (phase : ClientPhase) (s : SessionShared) : Prop where
  state : ∀ state, phase.heldState = some state → s.state = state
  counted : phase.Counted → 0 < s.connectCount
  carried : ∀ count, phase.carried = some count →
    count = s.connectCount ∧ (count = 1 → s.drained = .running)
  opened : phase = .opened → s.drained = .running

/-- Only one connection has the session acquired, and the first connection that
counts is the only one that has counted while it opens. -/
structure Apart (phase other : ClientPhase) : Prop where
  exclusive : phase.Holds → ¬ other.Holds
  first : phase.carried = some 1 → ¬ other.Counted

structure Invariant (c : ClientSession) : Prop where
  outline : Outline Sound Knows Apart c
  held : c.shared.state ≠ .idle → ∃ (i : Nat) (phase : ClientPhase),
    c.phases[i]? = some phase ∧ phase.Holds

variable {type : PacketType}

theorem handled_started {workflow} (hstarted : workflow.Started)
    (htype : type = typePause ∨ type = typeResume) : (handleMessage workflow type).Started := by
  rcases htype with rfl | rfl
  · rw [handleMessage, if_pos rfl, hstarted.after_pause]
    exact .inr rfl
  · rw [handleMessage_resume hstarted]
    exact .inl rfl

theorem foldl_started {data : List PacketType} {workflow : WorkflowState}
    (hstarted : workflow.Started) (hdata : ∀ type ∈ data, type = typePause ∨ type = typeResume) :
    (data.foldl handleMessage workflow).Started := by
  induction data generalizing workflow with
  | nil => exact hstarted
  | cons type rest ih =>
    exact ih (handled_started hstarted (hdata type mem_cons_self))
      (fun other hother => hdata other (mem_cons_of_mem type hother))

theorem Sound.drained {s : SessionShared} (hs : Sound s) : s.drained.Started :=
  foldl_started hs.started hs.packets

theorem Sound.session {s} (hs : Sound s) (state : SessionState) (client : Option Nat) :
    Sound { s with state := state, client := client } :=
  ⟨hs.started, hs.packets, hs.count, hs.fresh⟩

theorem Sound.writePacket {s} (hs : Sound s) (hcount : 0 < s.connectCount)
    (htype : type = typePause ∨ type = typeResume) :
    Sound (s.writePacket type) where
  started := hs.started
  packets other hother := by
    simp only [SessionShared.writePacket, mem_append, mem_singleton] at hother
    rcases hother with hother | rfl
    · exact hs.packets other hother
    · exact htype
  count := hs.count
  fresh h := absurd h (ne_of_gt hcount)

/-! ## Steps -/

variable {c : ClientSession} {phase : ClientPhase} {i : Nat} {shared : SessionShared}
  {next : ClientPhase}

section

variable (hc : Invariant c)
include hc

theorem Invariant.update (hi : c.phases[i]? = some phase) (hshared : Sound shared)
    (hown : Knows next shared)
    (hothers : ∀ other ∈ c.phases, Knows other c.shared → Apart phase other → Apart other phase →
      Knows other shared ∧ Apart next other ∧ Apart other next)
    (hheld : shared.state ≠ .idle → next.Holds ∨ c.shared.state ≠ .idle ∧ ¬ phase.Holds) :
    Invariant (c.update i next shared) := by
  refine ⟨hc.outline.update hi hshared hown hothers, ?_⟩
  intro hstate
  rcases hheld hstate with hnext | ⟨hbefore, hphase⟩
  · exact ⟨i, next, by rw [update_phases hi, if_pos rfl], hnext⟩
  · obtain ⟨j, other, hj, hother⟩ := hc.held hbefore
    have hne : j ≠ i := by
      intro heq
      rw [heq, hi] at hj
      cases hj
      exact hphase hother
    exact ⟨j, other, by rw [update_phases hi, if_neg hne, hj], hother⟩

omit hc in
/-- Exclusion carries over to a phase that claims no more than the one before. -/
theorem Apart.mono {phase next other} (hleft : Apart phase other) (hright : Apart other phase)
    (hholds : next.Holds → phase.Holds) (hcarried : next.carried = some 1 → phase.carried = some 1)
    (hcounted : next.Counted → phase.Counted) : Apart next other ∧ Apart other next :=
  ⟨⟨fun h => hleft.exclusive (hholds h), fun h => hleft.first (hcarried h)⟩,
    ⟨fun h hnext => hright.exclusive h (hholds hnext),
      fun h hnext => hright.first h (hcounted hnext)⟩⟩

/-- A step that leaves the session state, the count and the packets alone. -/
theorem Invariant.quiet (hi : c.phases[i]? = some phase) {client}
    (hshared : shared = { c.shared with client := client }) (hown : Knows next c.shared)
    (hholds : next.Holds ↔ phase.Holds) (hcarried : next.carried = some 1 → phase.carried = some 1)
    (hcounted : next.Counted → phase.Counted) : Invariant (c.update i next shared) := by
  subst hshared
  have hknows : ∀ other, Knows other c.shared → Knows other { c.shared with client := client } :=
    fun other h => ⟨h.state, h.counted, h.carried, h.opened⟩
  refine hc.update hi (hc.outline.shared.session _ client) (hknows next hown) ?_ ?_
  · intro other _ hother hleft hright
    exact ⟨hknows other hother, hleft.mono hright hholds.mp hcarried hcounted⟩
  · intro hne
    rw [hholds]
    by_cases hphase : phase.Holds
    · exact .inl hphase
    · exact .inr ⟨hne, hphase⟩

/-- The connection that has the session acquired stores a session state, and
gives the session up exactly if it stores `SessionIdle`. -/
theorem Invariant.store (hi : c.phases[i]? = some phase) (hphase : phase.Holds) {state}
    (hown : Knows next { c.shared with state := state }) (hheld : state ≠ .idle → next.Holds)
    (hcarried : next.carried = some 1 → phase.carried = some 1)
    (hcounted : next.Counted → phase.Counted) :
    Invariant (c.update i next { c.shared with state := state }) := by
  refine hc.update hi (hc.outline.shared.session _ _) hown ?_
    (fun hne => .inl (hheld hne))
  intro other _ hother hleft hright
  have hfree : ¬ other.Holds := hleft.exclusive hphase
  refine ⟨⟨?_, hother.counted, hother.carried, hother.opened⟩, ?_⟩
  · intro held hstate
    exact absurd (by rw [ClientPhase.Holds, hstate]; rfl) hfree
  · exact hleft.mono hright (fun _ => hphase) hcarried hcounted

theorem acquire_invariant (hi : c.phases[i]? = some .acquire) (hidle : c.shared.state = .idle) :
    Invariant (c.update i .upgrade { c.shared with state := .pending }) := by
  refine hc.update hi (hc.outline.shared.session _ _) ?_ ?_ (fun _ => .inl rfl)
  · refine ⟨?_, False.elim, ?_, ?_⟩
    · intro state hstate
      cases hstate
      rfl
    · intro count hcarried
      cases hcarried
    · intro hopened
      cases hopened
  · intro other _ hother _ _
    -- nobody else has an idle session acquired
    have hfree : other.heldState = none := by
      cases hheld : other.heldState with
      | none => rfl
      | some state =>
        have hstate := hother.state state hheld
        exact absurd (hstate.symm.trans hidle) (not_idle_of_heldState hheld)
    have hnot : ¬ other.Holds := by simp [ClientPhase.Holds, hfree]
    refine ⟨⟨?_, hother.counted, hother.carried, hother.opened⟩, ⟨fun _ => hnot, ?_⟩,
      ⟨fun h => absurd h hnot, fun _ => id⟩⟩
    · intro state hstate
      rw [hfree] at hstate
      cases hstate
    · intro hcarried
      cases hcarried

theorem openCount_invariant (hi : c.phases[i]? = some .openCount)
    (hlimit : c.shared.connectCount + 1 < 2 ^ 31) :
    Invariant (c.update i (.openReady (addInt32 c.shared.connectCount))
      { c.shared with connectCount := addInt32 c.shared.connectCount }) := by
  have hsound := hc.outline.shared
  have hknows := hc.outline.asserted i _ hi
  have hpos := hsound.count
  rw [addInt32_of_lt hpos hlimit]
  have hnext : 0 < c.shared.connectCount + 1 := lt_add_one_of_le hpos
  refine hc.update hi ?_ ?_ ?_ (fun _ => .inl rfl)
  · exact ⟨hsound.started, hsound.packets, le_of_lt hnext,
      fun h => absurd h (ne_of_gt hnext)⟩
  · refine ⟨hknows.state, fun _ => hnext, ?_, ?_⟩
    · intro count hcarried
      cases hcarried
      refine ⟨rfl, fun hfirst => hsound.fresh ?_⟩
      omega
    · intro hopened
      cases hopened
  · intro other _ hother hleft hright
    have hfree : ¬ other.Holds := hleft.exclusive rfl
    refine ⟨⟨hother.state, fun _ => hnext, ?_, ?_⟩, ⟨fun _ => hfree, ?_⟩,
      ⟨fun h => absurd h hfree, ?_⟩⟩
    · exact fun count hcarried => absurd (holds_of_carried hcarried) hfree
    · intro hopened
      rw [hopened] at hfree
      exact absurd rfl hfree
    · -- a counter that reaches one has not been raised by anybody else
      intro hcarried hcounted
      have hcount := hother.counted hcounted
      have hone : c.shared.connectCount + 1 = 1 := some.inj hcarried
      omega
    · exact fun hcarried => absurd (holds_of_carried hcarried) hfree

theorem openResume_invariant {count} (hi : c.phases[i]? = some (.openResume count)) :
    Invariant (c.update i .opened
      (if count > 1 then c.shared.writePacket typeResume else c.shared)) := by
  have hsound := hc.outline.shared
  have hknows := hc.outline.asserted i _ hi
  have hpos := hknows.counted trivial
  obtain ⟨hcount, hfirst⟩ := hknows.carried count rfl
  have hcarried : opened.carried = some 1 →
      (openResume count).carried = some 1 := by
    intro h
    cases h
  split
  · have hrunning : (c.shared.writePacket typeResume).drained = .running := by
      rw [drained_writePacket, handleMessage_resume hsound.drained]
    refine hc.update hi (hsound.writePacket hpos (.inr rfl)) ?_ ?_ (fun _ => .inl rfl)
    · exact ⟨hknows.state, fun _ => hpos, nofun, fun _ => hrunning⟩
    · intro other _ hother hleft hright
      refine ⟨⟨hother.state, hother.counted, ?_, fun _ => hrunning⟩,
        hleft.mono hright (fun _ => rfl) hcarried id⟩
      exact fun n hn => ⟨(hother.carried n hn).1, fun _ => hrunning⟩
  · -- the first client writes nothing, and nothing has paused the workflow before it
    have hone : count = 1 := by omega
    exact hc.quiet hi rfl
      ⟨hknows.state, fun _ => hpos, nofun, fun _ => hfirst hone⟩ .rfl hcarried id

/-- The pause packet is written while no client is open. -/
theorem closePause_invariant (hi : c.phases[i]? = some .closePause) (hnone : .opened ∉ c.phases) :
    Invariant (c.update i .closed (c.shared.writePacket typePause)) := by
  have hknows := hc.outline.asserted i _ hi
  have hpos := hknows.counted trivial
  refine hc.update hi (hc.outline.shared.writePacket hpos (.inl rfl))
    ⟨nofun, fun _ => hpos, nofun, nofun⟩ ?_ ?_
  · intro other hmem hother hleft hright
    -- this connection has counted, so no other can be the first one opening
    have hlater : other.carried ≠ some 1 := fun h => hright.first h trivial
    refine ⟨⟨hother.state, hother.counted, ?_, ?_⟩, hleft.mono hright nofun nofun id⟩
    · intro count hcarried
      refine ⟨(hother.carried count hcarried).1, fun hone => ?_⟩
      rw [hone] at hcarried
      exact absurd hcarried hlater
    · intro hopened
      rw [hopened] at hmem
      exact absurd hmem hnone
  · exact fun hstate => .inr ⟨hstate, nofun⟩

theorem Invariant.releasable (hi : c.phases[i]? = some phase) (hphase : phase.Holds) :
    c.shared.Releasable := by
  obtain ⟨state, hstate⟩ := isSome_iff_exists.mp hphase
  rw [SessionShared.Releasable, (hc.outline.asserted i phase hi).state state hstate]
  cases phase <;> cases hstate <;> simp

theorem advance_invariant {phase next} (hi : c.phases[i]? = some phase)
    (hok : c.PausesUnattended (.advance i)) (hnext : phase.next i c.shared = some (next, shared)) :
    Invariant (c.update i next shared) := by
  have hknows := hc.outline.asserted i phase hi
  obtain ⟨hpause, hlimit⟩ := hok
  cases phase with
  | acquire =>
    simp only [ClientPhase.next] at hnext
    split at hnext
    next hidle =>
      cases hnext
      exact acquire_invariant hc hi hidle
    · cases hnext
      exact hc.quiet hi rfl ⟨nofun, nofun, nofun, nofun⟩ .rfl nofun id
  | upgrade =>
    cases hnext
    exact hc.quiet hi rfl ⟨hknows.state, nofun, nofun, nofun⟩ .rfl nofun id
  | upgradeRelease =>
    rw [ClientPhase.next, if_pos (hc.releasable hi rfl)] at hnext
    cases hnext
    exact hc.quiet hi rfl ⟨hknows.state, nofun, nofun, nofun⟩ .rfl nofun id
  | upgradeIdle =>
    cases hnext
    exact hc.store hi rfl ⟨nofun, nofun, nofun, nofun⟩ (absurd rfl) nofun id
  | openCount =>
    cases hnext
    exact openCount_invariant hc hi (hlimit hi)
  | openReady count =>
    cases hnext
    refine hc.store hi rfl ⟨?_, hknows.counted, hknows.carried, nofun⟩ (fun _ => rfl) id id
    intro state hstate
    cases hstate
    rfl
  | openAttach count =>
    cases hnext
    exact hc.quiet hi rfl
      ⟨hknows.state, hknows.counted, hknows.carried, nofun⟩ .rfl id id
  | openResume count =>
    cases hnext
    exact openResume_invariant hc hi
  | closeDetach =>
    cases hnext
    exact hc.quiet hi rfl ⟨hknows.state, hknows.counted, nofun, nofun⟩ .rfl nofun id
  | closeCheck =>
    have hready : c.shared.state = .ready := hknows.state _ rfl
    rw [ClientPhase.next, if_neg (by rw [hready]; decide)] at hnext
    cases hnext
    exact hc.quiet hi rfl ⟨hknows.state, hknows.counted, nofun, nofun⟩ .rfl nofun id
  | closeRelease =>
    rw [ClientPhase.next, if_pos (hc.releasable hi rfl)] at hnext
    cases hnext
    exact hc.quiet hi rfl ⟨hknows.state, hknows.counted, nofun, nofun⟩ .rfl nofun id
  | closeIdle =>
    cases hnext
    exact hc.store hi rfl ⟨nofun, hknows.counted, nofun, nofun⟩ (absurd rfl) nofun id
  | closePause =>
    cases hnext
    exact closePause_invariant hc hi (hpause hi)
  | _ => cases hnext

/-- The machine handles a packet: what the workflow will be once drained does
not change. -/
theorem deliver_invariant {rest} (hdata : c.shared.data = type :: rest) :
    Invariant { c with shared :=
      { c.shared with data := rest, workflow := handleMessage c.shared.workflow type } } := by
  have hsound := hc.outline.shared
  have hdrained : drained { c.shared with
      data := rest, workflow := handleMessage c.shared.workflow type } = c.shared.drained := by
    rw [drained, drained, hdata]
    rfl
  have hpackets := hsound.packets
  rw [hdata] at hpackets
  refine ⟨hc.outline.environment ⟨?_, ?_, hsound.count, ?_⟩ ?_, hc.held⟩
  · exact handled_started hsound.started (hpackets type mem_cons_self)
  · exact fun other hother => hpackets other (mem_cons_of_mem type hother)
  · intro hzero
    rw [hdrained]
    exact hsound.fresh hzero
  · intro other hother
    refine ⟨hother.state, hother.counted, ?_, ?_⟩
    · rw [hdrained]
      exact hother.carried
    · rw [hdrained]
      exact hother.opened

end

theorem initial_invariant : Invariant initial where
  outline := .start _ ⟨.inl rfl, nofun, le_refl 0, fun _ => rfl⟩
  held h := absurd rfl h

theorem step_invariant {c next label} (hc : Invariant c) (hok : c.PausesUnattended label)
    (hstep : step c label = some next) : Invariant next := by
  cases label with
  | connect =>
    cases hstep
    refine ⟨hc.outline.spawn ⟨nofun, nofun, nofun, nofun⟩ ?_, ?_⟩
    · exact fun other => ⟨⟨nofun, nofun⟩, ⟨fun _ => nofun, fun _ => nofun⟩⟩
    · intro hstate
      obtain ⟨i, phase, hi, hholds⟩ := hc.held hstate
      obtain ⟨hlt, -⟩ := List.getElem?_eq_some_iff.mp hi
      exact ⟨i, phase, by rw [spawn_phases, if_neg (ne_of_lt hlt), hi], hholds⟩
  | advance i =>
    obtain ⟨phase, moved, shared, hi, hnext, rfl⟩ := advance_eq_some hstep
    exact advance_invariant hc hi hok hnext
  | failUpgrade i =>
    obtain ⟨hi, hstep⟩ := ite_none_right_eq_some.mp hstep
    cases hstep
    have hknows := hc.outline.asserted i _ hi
    exact hc.quiet hi rfl ⟨hknows.state, nofun, nofun, nofun⟩ .rfl nofun id
  | disconnect i =>
    obtain ⟨hi, hstep⟩ := ite_none_right_eq_some.mp hstep
    cases hstep
    have hknows := hc.outline.asserted i _ hi
    exact hc.quiet hi rfl ⟨hknows.state, hknows.counted, nofun, nofun⟩ .rfl nofun id
  | deliver =>
    simp only [step] at hstep
    split at hstep
    · cases hstep
    next type rest hdata =>
      cases hstep
      exact deliver_invariant hc hdata

/-! ## Agreement -/

theorem Invariant.agrees (hc : Invariant c) : Agrees c := by
  intro hsettled hdata hready _
  obtain ⟨i, phase, hi, hholds⟩ := hc.held (by rw [hready]; decide)
  have hopened : phase = .opened := by
    have hphase := hsettled phase (mem_of_getElem? hi)
    cases phase <;> first | rfl | exact hphase.elim | exact Bool.noConfusion hholds
  have hdrained := (hc.outline.asserted i phase hi).opened hopened
  rw [drained, hdata] at hdrained
  exact hdrained

/-- Clients and workflow agree after every run in which pause packets are
written only while no client is open. -/
theorem run_agrees (labels : List Label) {c : ClientSession}
    (hmeets : Meets step PausesUnattended initial labels)
    (hrun : run step initial labels = some c) : Agrees c := by
  have hinvariant : Invariant c :=
    run_invariant_of_meets Invariant step_invariant initial_invariant hmeets hrun
  exact hinvariant.agrees

/-- A client opens, and its socket closes up to the write of the pause packet. -/
def openAndLeave (client : Nat) : List Label :=
  [Label.connect] ++ replicate 6 (Label.advance client) ++ [Label.disconnect client] ++
    replicate 4 (Label.advance client)

def reconnect (client : Nat) : List Label :=
  .connect :: replicate 6 (.advance client)

/-- The first client's pause packet is written before the reconnect. -/
theorem run_agrees_reconnect : ∃ c : ClientSession,
    run step initial
      (openAndLeave 0 ++ [.advance 0] ++ reconnect 1 ++ [.deliver, .deliver]) = some c ∧
      c.shared.client = some 1 ∧ c.shared.workflow = .running := by
  refine ⟨_, rfl, rfl, ?_⟩
  exact run_agrees (openAndLeave 0 ++ [Label.advance 0] ++ reconnect 1 ++ [Label.deliver, .deliver])
    (by decide) rfl (by decide) rfl rfl rfl

/-- The second client opens before the first one's close handler writes its
pause packet, and is left attached to a paused workflow. -/
theorem reconnect_before_pause_not_agrees : ∃ c : ClientSession,
    run step initial
      (openAndLeave 0 ++ reconnect 1 ++ [.advance 0, .deliver, .deliver]) = some c ∧
      c.shared.client = some 1 ∧ c.shared.workflow = .paused ∧ ¬ Agrees c := by
  refine ⟨_, rfl, rfl, rfl, ?_⟩
  intro hagrees
  exact absurd (hagrees (by decide) rfl rfl rfl) (by decide)

end ClientSession

end Voce.Gateway
