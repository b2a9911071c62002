import Voce.Engine.Track
import Voce.Foundation.Transition

/-! # Interrupts of a track

An interrupt raises the epoch and then takes the pointer to the running
handler's cancel function. The read loop compares epochs first and publishes the
pointer later. An interrupt is complete if it never takes the pointer between
these two, and if no epoch comes round to that of an item that still waits.
-/

namespace Voce.Engine

open Interleaving List Transition

variable {Data : Type}

namespace Track

/-- No item that was placed in the buffer before a completed interrupt started
is being handled in a context that was not cancelled. -/
def Interrupted (t : Track Data) (ctxDone : Bool) : Prop :=
  ∀ item context, t.phase = .handling item context → item.number < t.cleared →
    ctxDone = true ∨ context ∈ t.cancelled

/-- The read loop holds no item past its comparison, placed before the given
number of items, whose handler an interrupt that holds this cancel function will
not cancel. -/
def Answered (t : Track Data) (before : Nat) (cancel : Option Nat) : Prop :=
  match t.phase with
  | .current item => before ≤ item.number
  | .stored item context | .handling item context =>
    item.number < before → cancel = some context ∨ context ∈ t.cancelled
  | _ => True

instance (t : Track Data) (before : Nat) (cancel : Option Nat) :
    Decidable (t.Answered before cancel) := by
  unfold Answered
  split <;> infer_instance

structure Sound (t : Track Data) : Prop where
  cleared_le : t.cleared ≤ t.bumped
  bumped_le : t.bumped ≤ t.pushed
  /-- An item from before a raise of the epoch will fail the comparison. -/
  stale : ∀ item ∈ t.unchecked, item.number < t.bumped → item.epoch ≠ t.epoch
  answered : t.Answered t.cleared none

variable {t next : Track Data} {before : Nat} {cancel : Option Nat}

theorem Answered.of_phase (hanswered : t.Answered before cancel) (hphase : next.phase = t.phase)
    (hcancelled : t.cancelled ⊆ next.cancelled) : next.Answered before cancel := by
  simp only [Answered, hphase] at hanswered ⊢
  split
  next hcurrent => simpa [hcurrent] using hanswered
  next hstored =>
    simp only [hstored] at hanswered
    exact fun hlt => (hanswered hlt).imp id (@hcancelled _)
  next hhandling =>
    simp only [hhandling] at hanswered
    exact fun hlt => (hanswered hlt).imp id (@hcancelled _)
  · trivial

/-- Once its cancel function was called, an interrupt has nothing left to do. -/
theorem Answered.called (hanswered : t.Answered before cancel)
    (hcalled : ∀ context, cancel = some context → context ∈ t.cancelled) :
    t.Answered before none := by
  simp only [Answered] at hanswered ⊢
  split
  next hcurrent => simpa [hcurrent] using hanswered
  next hstored =>
    simp only [hstored] at hanswered
    exact fun hlt => .inr ((hanswered hlt).elim (hcalled _) id)
  next hhandling =>
    simp only [hhandling] at hanswered
    exact fun hlt => .inr ((hanswered hlt).elim (hcalled _) id)
  · trivial

theorem Answered.max {first second} (hfirst : t.Answered first cancel)
    (hsecond : t.Answered second cancel) : t.Answered (max first second) cancel := by
  rcases Nat.le_total first second with hle | hle
  · rwa [max_eq_right hle]
  · rwa [max_eq_left hle]

/-- A step of the read loop leaves every interrupt answered: an item that passes
the comparison was placed after every raise of the epoch. -/
theorem Answered.reads {ctxDone paused} (hanswered : t.Answered before cancel) (hsound : t.Sound)
    (hbefore : before ≤ t.bumped) (hreads : t.Reads ctxDone paused next) :
    next.Answered before cancel := by
  cases hreads with
  | findCurrent item hphase hcurrent =>
    have hunchecked : item ∈ t.unchecked := by simp [unchecked, hphase]
    have hrecent : ¬ item.number < t.bumped :=
      fun hlt => hsound.stale item hunchecked hlt hcurrent
    exact le_trans hbefore (Nat.le_of_not_lt hrecent)
  | store item hphase =>
    simp only [Answered, hphase] at hanswered
    exact fun hlt => absurd hanswered (Nat.not_le_of_lt hlt)
  | call item context hphase =>
    simp only [Answered, hphase] at hanswered
    exact hanswered
  | _ =>
    trivial

theorem Reads.unchecked_subset {ctxDone paused} (hreads : t.Reads ctxDone paused next) :
    next.unchecked ⊆ t.unchecked := by
  cases hreads with
  | receive item ch hphase hitems | drain item ch hphase hitems =>
    simp [unchecked, hphase, hitems]
  | findUnpaused item hphase => simp [unchecked, hphase]
  | _ =>
    exact subset_append_right _ _

theorem Sound.reads {ctxDone paused} (hsound : t.Sound) (hreads : t.Reads ctxDone paused next) :
    next.Sound := by
  obtain ⟨hpushed, hbumped, hcleared, hepoch⟩ : next.pushed = t.pushed ∧ next.bumped = t.bumped ∧
      next.cleared = t.cleared ∧ next.epoch = t.epoch := by
    cases hreads <;> exact ⟨rfl, rfl, rfl, rfl⟩
  constructor
  · rw [hcleared, hbumped]
    exact hsound.cleared_le
  · rw [hbumped, hpushed]
    exact hsound.bumped_le
  · intro item hitem
    rw [hbumped, hepoch]
    exact hsound.stale item (hreads.unchecked_subset hitem)
  · rw [hcleared]
    exact hsound.answered.reads hsound hsound.cleared_le hreads

end Track

/-- What an interrupt knows at each of its steps. -/
def TrackCall.Knows (call : TrackCall Data) (t : Track Data) : Prop :=
  match call with
  | .adding before => before ≤ t.pushed
  | .swapping before => before ≤ t.bumped
  | .cancelling before context => before ≤ t.bumped ∧ t.Answered before context
  | _ => True

/-- An interrupt raises the epoch only to a value that no item awaiting its
comparison carries, and takes the pointer only when the read loop holds no older
item past its comparison whose cancel function is neither there nor called. -/
def TrackCall.Complete (call : TrackCall Data) (t : Track Data) : Prop :=
  match call with
  | .adding _ => ∀ item ∈ t.unchecked, item.epoch ≠ t.epoch + 1
  | .swapping before => t.Answered before t.cancel
  | _ => True

instance (t : Track Data) : ∀ call : TrackCall Data, Decidable (call.Complete t) := by
  intro call
  unfold TrackCall.Complete
  split <;> infer_instance

section Calls

variable {t next : Track Data} {call moved : TrackCall Data}

theorem Track.Sound.calls (hsound : t.Sound) (hknows : call.Knows t)
    (hcomplete : call.Complete t) (hcalls : t.Calls call moved next) : next.Sound := by
  cases hcalls with
  | send epoch data next hplace =>
    -- a placed item has a higher number than every interrupt so far
    have hrecent : ∀ item : TrackItem Data, item = ⟨epoch, data, t.pushed⟩ →
        item.number < t.bumped → item.epoch ≠ t.epoch := by
      rintro item rfl hlt
      exact absurd hsound.bumped_le (Nat.not_le_of_lt hlt)
    rcases Track.place_eq_some hplace with ⟨ch, hitems, rfl⟩ | ⟨hphase, hempty, rfl⟩
    · refine ⟨hsound.cleared_le, Nat.le_succ_of_le hsound.bumped_le, ?_, hsound.answered⟩
      intro item hitem
      simp only [Track.unchecked, hitems, ← append_assoc, mem_append, mem_singleton] at hitem
      rcases hitem with hold | hnew
      · exact hsound.stale item (mem_append.mpr hold)
      · exact hrecent item hnew
    · refine ⟨hsound.cleared_le, Nat.le_succ_of_le hsound.bumped_le, ?_, trivial⟩
      intro item hitem
      simp only [Track.unchecked, hempty, ReadPhase.unchecked, append_nil, mem_singleton] at hitem
      exact hrecent item hitem
  | evict =>
    obtain ⟨ch, hevict, hitems⟩ := t.evict_eq
    rw [hevict]
    refine ⟨hsound.cleared_le, hsound.bumped_le, ?_, hsound.answered⟩
    intro item hitem
    apply hsound.stale item
    simp only [Track.unchecked, hitems, mem_append] at hitem ⊢
    exact hitem.imp id mem_of_mem_tail
  | add before =>
    refine ⟨le_trans hsound.cleared_le (le_max_left ..),
      Nat.max_le.mpr ⟨hsound.bumped_le, hknows⟩, ?_, hsound.answered⟩
    exact fun item hitem _ => hcomplete item hitem
  | swap => exact ⟨hsound.cleared_le, hsound.bumped_le, hsound.stale, hsound.answered⟩
  | cancel before context =>
    refine ⟨Nat.max_le.mpr ⟨hsound.cleared_le, hknows.1⟩, hsound.bumped_le, hsound.stale,
      .max ?_ ?_⟩
    · exact hsound.answered.of_phase rfl (subset_append_right ..)
    · refine Track.Answered.called (hknows.2.of_phase rfl (subset_append_right ..)) ?_
      rintro called rfl
      exact mem_cons_self
  | _ => exact hsound

/-- A call leaves what the other calls know. -/
theorem TrackCall.Knows.calls {other : TrackCall Data} (hother : other.Knows t)
    (hcalls : t.Calls call moved next) : other.Knows next := by
  obtain ⟨hpushed, hbumped, hanswered⟩ : t.pushed ≤ next.pushed ∧ t.bumped ≤ next.bumped ∧
      ∀ before cancel, t.Answered before cancel → next.Answered before cancel := by
    cases hcalls with
    | send epoch data next hplace =>
      rcases Track.place_eq_some hplace with ⟨ch, -, rfl⟩ | ⟨-, -, rfl⟩
      · exact ⟨Nat.le_succ _, le_rfl, fun _ _ => id⟩
      · exact ⟨Nat.le_succ _, le_rfl, fun _ _ _ => trivial⟩
    | evict =>
      obtain ⟨ch, hevict, -⟩ := t.evict_eq
      rw [hevict]
      exact ⟨le_rfl, le_rfl, fun _ _ => id⟩
    | add => exact ⟨le_rfl, le_max_left .., fun _ _ => id⟩
    | cancel =>
      exact ⟨le_rfl, le_rfl, fun _ _ h => h.of_phase rfl (subset_append_right ..)⟩
    | _ => exact ⟨le_rfl, le_rfl, fun _ _ => id⟩
  cases other with
  | adding before => exact le_trans hother hpushed
  | swapping before => exact le_trans hother hbumped
  | cancelling before context =>
    exact ⟨le_trans hother.1 hbumped, hanswered before context hother.2⟩
  | _ => trivial

theorem TrackCall.Knows.after (hknows : call.Knows t) (hcomplete : call.Complete t)
    (hcalls : t.Calls call moved next) : moved.Knows next := by
  cases hcalls with
  | add before => exact le_max_right ..
  | swap before => exact ⟨hknows, hcomplete⟩
  | _ => trivial

theorem TrackCall.Knows.reads {ctxDone paused} (hknows : call.Knows t) (hsound : t.Sound)
    (hreads : t.Reads ctxDone paused next) : call.Knows next := by
  obtain ⟨hpushed, hbumped⟩ : next.pushed = t.pushed ∧ next.bumped = t.bumped := by
    cases hreads <;> exact ⟨rfl, rfl⟩
  cases call with
  | adding before => exact le_trans hknows (le_of_eq hpushed.symm)
  | swapping before => exact le_trans hknows (le_of_eq hbumped.symm)
  | cancelling before context =>
    exact ⟨le_trans hknows.1 (le_of_eq hbumped.symm), hknows.2.reads hsound hknows.1 hreads⟩
  | _ => trivial

end Calls

namespace TrackRun

def KeepsInterrupts (c : TrackRun Data) : Label Data → Prop
  | .call i .proceed => ∀ call ∈ c.phases[i]?, call.Complete c.shared.track
  | _ => True

instance (c : TrackRun Data) : ∀ label, Decidable (c.KeepsInterrupts label) := by
  intro label
  unfold KeepsInterrupts
  split <;> infer_instance

abbrev Invariant (c : TrackRun Data) : Prop :=
  Outline (fun s => s.track.Sound) (fun call s => call.Knows s.track) (fun _ _ => True) c

theorem initial_invariant (capacity : Nat) (strategy : DropStrategy) (signals : List String) :
    Invariant (initial capacity strategy signals : TrackRun Data) :=
  .start _ ⟨Nat.le_refl 0, Nat.le_refl 0, nofun, trivial⟩

/-- A call whose next step is not a plain one is a push. -/
theorem complete_of_callStep {t next : Track Data} {call moved : TrackCall Data} {label}
    (hstep : t.callStep call label = some (moved, next))
    (hproceed : label = .proceed → call.Complete t) : call.Complete t := by
  cases label with
  | proceed => exact hproceed rfl
  | blocked | expired =>
    cases call with
    | sending => trivial
    | _ =>
      simp [Track.callStep] at hstep

theorem step_invariant {c d : TrackRun Data} {label} (hc : Invariant c)
    (hkeeps : c.KeepsInterrupts label) (hstep : c.step label = some d) : Invariant d := by
  have hunchanged : ∀ s : TrackShared Data, s.track = c.shared.track →
      Invariant { c with shared := s } := by
    intro s htrack
    exact hc.environment (htrack ▸ hc.shared) fun _ hother => htrack ▸ hother
  cases label with
  | push data =>
    cases hstep
    exact hc.spawn trivial fun _ => ⟨trivial, trivial⟩
  | interrupt name =>
    cases hstep
    refine hc.spawn ?_ fun _ => ⟨trivial, trivial⟩
    split
    · exact le_rfl
    · trivial
  | call i label =>
    obtain ⟨call, moved, track, hi, hcall, rfl⟩ := call_eq_some hstep
    have hknows : call.Knows c.shared.track := hc.asserted i call hi
    have hcalls := Track.calls_of_callStep hcall
    have hcomplete : call.Complete c.shared.track := by
      refine complete_of_callStep hcall ?_
      rintro rfl
      exact hkeeps call hi
    exact hc.update hi (hc.shared.calls hknows hcomplete hcalls)
      (hknows.after hcomplete hcalls)
      fun _ _ hother _ _ => ⟨hother.calls hcalls, trivial, trivial⟩
  | read label =>
    obtain ⟨track, hread, rfl⟩ := Option.map_eq_some_iff.mp hstep
    have hreads := Track.reads_of_readStep hread
    exact hc.environment (hc.shared.reads hreads)
      fun _ hother => hother.reads hc.shared hreads
  | cancel =>
    cases hstep
    exact hunchanged _ rfl
  | onPause | onResume =>
    simp only [step] at hstep
    split at hstep
    · cases hstep
      exact hunchanged _ rfl
    · cases hstep
  | pauseCall =>
    obtain ⟨s, hpause, rfl⟩ := Option.map_eq_some_iff.mp hstep
    apply hunchanged
    unfold pauseStep at hpause
    split at hpause <;> cases hpause <;> rfl

theorem Invariant.interrupted {c : TrackRun Data} (hc : Invariant c) :
    c.shared.track.Interrupted c.shared.ctxDone := by
  intro item context hhandling hlt
  have hanswered := hc.shared.answered
  simp only [Track.Answered, hhandling] at hanswered
  exact .inr ((hanswered hlt).resolve_left nofun)

/-- Interrupts are complete in every run in which none takes the pointer between
the comparison of an older item and the publication of its cancel function, and
no epoch comes round. -/
theorem run_interrupted (capacity : Nat) (strategy : DropStrategy) (signals : List String)
    (labels : List (Label Data)) {final : TrackRun Data}
    (hkeeps : Meets step KeepsInterrupts (initial capacity strategy signals) labels)
    (hrun : run step (initial capacity strategy signals) labels = some final) :
    final.shared.track.Interrupted final.shared.ctxDone := by
  have hfinal : Invariant final :=
    run_invariant_of_meets Invariant step_invariant (initial_invariant capacity strategy signals)
      hkeeps hrun
  exact hfinal.interrupted

/-- Labels of one push and of the read loop up to the comparison of its item. -/
def compareLabels : List (Label Unit) :=
  [Label.push (), .call 0 .proceed, .call 0 .proceed] ++ replicate 4 (Label.read .proceed)

def interruptLabels : List (Label Unit) := .interrupt "stop" :: replicate 3 (.call 1 .proceed)

/-- An interrupt that comes once the handler runs cancels it. -/
theorem run_interrupted_handler :
    ∃ final, run step (initial 1 .blockIfFull ["stop"])
        (compareLabels ++ [.read .proceed, .read .proceed] ++ interruptLabels) = some final ∧
      final.shared.track.phase = .handling ⟨0, (), 0⟩ 0 ∧ 0 < final.shared.track.cleared ∧
      final.shared.track.Interrupted final.shared.ctxDone :=
  ⟨_, rfl, rfl, by decide, run_interrupted 1 .blockIfFull ["stop"]
    (compareLabels ++ [.read .proceed, .read .proceed] ++ interruptLabels) (by decide) rfl⟩

/-- An interrupt that comes and goes between the comparison and the publication
finds no pointer. The handler then runs in a context nobody cancels. -/
theorem interrupt_before_publication :
    ∃ final, run step (initial 1 .blockIfFull ["stop"])
        (compareLabels ++ interruptLabels ++ [.read .proceed, .read .proceed]) = some final ∧
      ¬ final.shared.track.Interrupted final.shared.ctxDone := by
  refine ⟨_, rfl, fun hinterrupted => ?_⟩
  have hcancelled := hinterrupted ⟨0, (), 0⟩ 0 rfl (by decide)
  exact absurd hcancelled (by decide)

end TrackRun

end Voce.Engine
