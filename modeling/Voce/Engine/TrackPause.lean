import Voce.Engine.Track
import Voce.Foundation.Transition

/-! # Pausing a track

`OnPause` only sets a flag. The read loop discards an item when it takes it out
of the buffer and finds the flag set, so whatever it has not taken when
`OnResume` clears the flag is handed to the plugin after all.
-/

namespace Voce.Engine

open ReadPhase List Track Transition

variable {Data : Type}

/-- The item of a read loop that has not looked at the pause flag yet. -/
@[simp]
def ReadPhase.fetched : ReadPhase Data → List (TrackItem Data)
  | .received item => [item]
  | _ => []

/-- The item of a read loop that found the track not paused and has not handed
it over yet. -/
@[simp]
def ReadPhase.passed : ReadPhase Data → List (TrackItem Data)
  | .unpaused item | .current item | .stored item _ => [item]
  | _ => []

/-- All items that were handed over, are held by the read loop or wait, oldest
first. -/
@[simp]
def Track.line (t : Track Data) : List (TrackItem Data) :=
  t.handed ++ t.phase.passed ++ t.phase.fetched ++ t.ch.items

/-- A step of the read loop moves items along the line or drops them. Only an
item that finds the track not paused passes. -/
theorem Track.Reads.line {t next : Track Data} {ctxDone paused}
    (hreads : t.Reads ctxDone paused next) :
    next.line.Sublist t.line ∧ next.pushed = t.pushed ∧
      (∀ item ∈ next.handed ++ next.phase.passed, item ∈ t.handed ++ t.phase.passed ∨
        paused = false ∧ item ∈ t.phase.fetched) ∧
      next.phase.fetched ++ next.ch.items ⊆ t.phase.fetched ++ t.ch.items := by
  cases hreads with
  | leave hphase =>
    rcases hphase with hphase | hphase <;>
      simp [hphase]
  | discard item hphase =>
    refine ⟨?_, rfl, fun other hother => .inl ?_, subset_append_right _ _⟩
    · simp
    · simp only [passed, append_nil] at hother
      exact mem_append_left _ hother
  | receive item ch hphase hitems | drain item ch hphase hitems =>
    simp [hphase, hitems]
  | findUnpaused item hphase hunpaused =>
    simp [hphase, hunpaused]
  | select hphase | findCurrent _ hphase | store _ hphase | call _ _ hphase | finish _ _ hphase
  | release _ hphase | clear hphase | exit hphase =>
    simp [hphase]

namespace TrackShared

/-- No item that was in the buffer when `OnPause` returned was handed over. -/
def PauseDiscards (s : TrackShared Data) : Prop := ∀ item ∈ s.track.handed, item ∉ s.waiting

structure Paused (s : TrackShared Data) : Prop where
  ordered : s.track.line.Pairwise (·.number < ·.number)
  numbered : ∀ item ∈ s.track.line, item.number < s.track.pushed
  waiting_lt : ∀ item ∈ s.waiting, item.number < s.track.pushed
  discards : ∀ item ∈ s.track.handed ++ s.track.phase.passed, item ∉ s.waiting
  flagged : ∀ item ∈ s.track.phase.fetched ++ s.track.ch.items, item ∈ s.waiting → s.paused = true
  onPause : s.pauseCall = .onPause → s.paused = true

variable {s : TrackShared Data} {track : Track Data}

theorem Paused.reads (hs : s.Paused) (hreads : s.track.Reads s.ctxDone s.paused track) :
    { s with track := track }.Paused := by
  obtain ⟨hline, hpushed, hdiscards, hflagged⟩ := hreads.line
  constructor
  · exact hs.ordered.sublist hline
  · intro item hitem
    rw [hpushed]
    exact hs.numbered item (hline.subset hitem)
  · intro item hitem
    rw [hpushed]
    exact hs.waiting_lt item hitem
  · intro item hitem hwaiting
    rcases hdiscards item hitem with hold | ⟨hunpaused, hfetched⟩
    · exact hs.discards item hold hwaiting
    · -- an item that waited is only checked while the flag is set
      have hpaused := hs.flagged item (mem_append_left _ hfetched) hwaiting
      rw [hpaused] at hunpaused
      cases hunpaused
  · exact fun item hitem => hs.flagged item (hflagged hitem)
  · exact hs.onPause

/-- A new item goes to the end of the line. -/
theorem Paused.place (hs : s.Paused) {epoch data} (hplace : s.track.place epoch data = some track) :
    { s with track := track }.Paused := by
  obtain ⟨hline, hpushed, hpassed, hfetched⟩ :
      track.line = s.track.line ++ [⟨epoch, data, s.track.pushed⟩] ∧
      track.pushed = s.track.pushed + 1 ∧
      track.handed ++ track.phase.passed = s.track.handed ++ s.track.phase.passed ∧
      track.phase.fetched ++ track.ch.items =
        s.track.phase.fetched ++ s.track.ch.items ++ [⟨epoch, data, s.track.pushed⟩] := by
    rcases place_eq_some hplace with ⟨ch, hitems, rfl⟩ | ⟨hphase, hempty, rfl⟩
    · simp [line, hitems]
    · simp [line, hphase, hempty]
  constructor
  · rw [hline, pairwise_append]
    refine ⟨hs.ordered, pairwise_singleton _ _, ?_⟩
    rintro item hitem _ (_ | ⟨_, ⟨⟩⟩)
    exact hs.numbered item hitem
  · rw [hline, hpushed]
    intro item hitem
    rcases mem_append.mp hitem with hold | hnew
    · exact Nat.lt_succ_of_lt (hs.numbered item hold)
    · rw [mem_singleton.mp hnew]
      exact Nat.lt_succ_self _
  · rw [hpushed]
    exact fun item hitem => Nat.lt_succ_of_lt (hs.waiting_lt item hitem)
  · rw [hpassed]
    exact hs.discards
  · rw [hfetched]
    intro item hitem hwaiting
    rcases mem_append.mp hitem with hold | hnew
    · exact hs.flagged item hold hwaiting
    · -- every waiting item has a smaller number
      have hlt := hs.waiting_lt item hwaiting
      rw [mem_singleton.mp hnew] at hlt
      exact absurd hlt (lt_irrefl _)
  · exact hs.onPause

theorem Paused.calls (hs : s.Paused) {call moved} (hcalls : s.track.Calls call moved track) :
    { s with track := track }.Paused := by
  cases hcalls with
  | send epoch data next hplace => exact hs.place hplace
  | evict =>
    obtain ⟨ch, hevict, hitems⟩ := s.track.evict_eq
    have htail : ch.items.Sublist s.track.ch.items := hitems ▸ tail_sublist _
    rw [hevict]
    refine ⟨hs.ordered.sublist (htail.append_left _), ?_, hs.waiting_lt, hs.discards, ?_,
      hs.onPause⟩
    · exact fun item hitem => hs.numbered item ((htail.append_left _).subset hitem)
    · exact fun item hitem => hs.flagged item ((htail.append_left _).subset hitem)
  | add | swap | cancel =>
    exact ⟨hs.ordered, hs.numbered, hs.waiting_lt, hs.discards, hs.flagged, hs.onPause⟩
  | _ => exact hs

/-- The items that `OnPause` leaves in the buffer were not handed over. -/
theorem Paused.discards_buffered (hs : s.Paused) :
    ∀ item ∈ s.track.handed ++ s.track.phase.passed, item ∉ s.track.ch.items := by
  intro item hearlier hlater
  have hordered := hs.ordered
  rw [line, append_assoc, pairwise_append] at hordered
  exact lt_irrefl _ (hordered.2.2 item hearlier item (mem_append_right _ hlater))

theorem Paused.pauseStep {s next : TrackShared Data} (hs : s.Paused)
    (hresume : s.pauseCall = .resuming →
      ∀ item ∈ s.track.phase.fetched ++ s.track.ch.items, item ∉ s.waiting)
    (hstep : TrackRun.pauseStep s = some next) : next.Paused := by
  unfold TrackRun.pauseStep at hstep
  split at hstep
  · cases hstep
  · cases hstep
    exact ⟨hs.ordered, hs.numbered, hs.waiting_lt, hs.discards, fun _ _ _ => rfl, fun _ => rfl⟩
  next hcall =>
    cases hstep
    refine ⟨hs.ordered, hs.numbered, ?_, ?_, fun _ _ _ => hs.onPause hcall, nofun⟩
    · intro item hitem
      rcases mem_append.mp hitem with hold | hnew
      · exact hs.waiting_lt item hold
      · exact hs.numbered item (mem_append_right _ hnew)
    · intro item hitem hwaiting
      rcases mem_append.mp hwaiting with hold | hnew
      · exact hs.discards item hitem hold
      · exact hs.discards_buffered item hitem hnew
  next hcall =>
    cases hstep
    refine ⟨hs.ordered, hs.numbered, hs.waiting_lt, hs.discards, ?_, nofun⟩
    exact fun item hitem hwaiting => absurd hwaiting (hresume hcall item hitem)
  · cases hstep
    exact ⟨hs.ordered, hs.numbered, hs.waiting_lt, hs.discards, hs.flagged, nofun⟩

end TrackShared

namespace TrackRun

/-- `OnResume` clears the flag only when the read loop has taken out and
discarded every item that was in the buffer when `OnPause` returned. -/
def ResumesDrained (c : TrackRun Data) : Label Data → Prop
  | .pauseCall => c.shared.pauseCall = .resuming →
      ∀ item ∈ c.shared.track.phase.fetched ++ c.shared.track.ch.items, item ∉ c.shared.waiting
  | _ => True

instance [DecidableEq Data] (c : TrackRun Data) : ∀ label, Decidable (c.ResumesDrained label) := by
  intro label
  rcases label <;> unfold ResumesDrained <;> infer_instance

theorem step_paused {c d : TrackRun Data} {label} (hc : c.shared.Paused)
    (hresumes : c.ResumesDrained label) (hstep : c.step label = some d) : d.shared.Paused := by
  cases label with
  | push | interrupt =>
    cases hstep
    exact hc
  | call i label =>
    obtain ⟨call, moved, track, -, hcall, rfl⟩ := call_eq_some hstep
    exact hc.calls (calls_of_callStep hcall)
  | read label =>
    obtain ⟨track, hread, rfl⟩ := Option.map_eq_some_iff.mp hstep
    exact hc.reads (reads_of_readStep hread)
  | cancel =>
    cases hstep
    exact ⟨hc.ordered, hc.numbered, hc.waiting_lt, hc.discards, hc.flagged, hc.onPause⟩
  | onPause | onResume =>
    simp only [step] at hstep
    split at hstep
    · cases hstep
      exact ⟨hc.ordered, hc.numbered, hc.waiting_lt, hc.discards, hc.flagged, nofun⟩
    · cases hstep
  | pauseCall =>
    obtain ⟨s, hpause, rfl⟩ := Option.map_eq_some_iff.mp hstep
    exact hc.pauseStep hresumes hpause

/-- A pause discards the buffer in every run in which `OnResume` finds it
emptied of what was there when `OnPause` returned. -/
theorem run_pauseDiscards (capacity : Nat) (strategy : DropStrategy) (signals : List String)
    (labels : List (Label Data)) {final : TrackRun Data}
    (hresumes : Meets step ResumesDrained (initial capacity strategy signals) labels)
    (hrun : run step (initial capacity strategy signals) labels = some final) :
    final.shared.PauseDiscards := by
  have hfinal : final.shared.Paused := by
    refine run_invariant_of_meets (fun c => c.shared.Paused) step_paused ?_ hresumes hrun
    exact ⟨List.Pairwise.nil, nofun, nofun, nofun, nofun, nofun⟩
  exact fun item hitem => hfinal.discards item (mem_append_left _ hitem)

def pushTwoLabels : List (Label Unit) :=
  [.push (), .call 0 .proceed, .call 0 .proceed, .push (), .call 1 .proceed, .call 1 .proceed]

/-- The read loop discards both items before the track resumes. -/
theorem run_pauseDiscards_drained :
    ∃ final, run step (initial 2 .blockIfFull [])
        (pushTwoLabels ++ [.onPause, .pauseCall, .pauseCall] ++
          replicate 6 (.read .proceed) ++ [.onResume, .pauseCall, .pauseCall]) = some final ∧
      final.shared.waiting = [⟨0, (), 0⟩, ⟨0, (), 1⟩] ∧ final.shared.paused = false ∧
      final.shared.PauseDiscards :=
  ⟨_, rfl, rfl, rfl, run_pauseDiscards 2 .blockIfFull []
    (pushTwoLabels ++ [Label.onPause, .pauseCall, .pauseCall] ++
      replicate 6 (Label.read .proceed) ++ [Label.onResume, .pauseCall, .pauseCall])
    (by decide) rfl⟩

/-- The read loop is in the first item's handler during the whole pause, and
hands the second item over when the track has resumed. -/
theorem pause_during_handler_discards_nothing :
    ∃ final, run step (initial 2 .blockIfFull [])
        (pushTwoLabels ++ replicate 6 (.read .proceed) ++
          [.onPause, .pauseCall, .pauseCall, .onResume, .pauseCall, .pauseCall] ++
          replicate 9 (.read .proceed)) = some final ∧
      ¬ final.shared.PauseDiscards := by
  refine ⟨_, rfl, fun hdiscards => ?_⟩
  have hnotWaiting := hdiscards ⟨0, (), 1⟩ (by decide)
  exact absurd hnotWaiting (by decide)

end TrackRun

end Voce.Engine
