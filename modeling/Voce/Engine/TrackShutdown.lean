import Voce.Engine.Track
import Voce.Foundation.Transition

/-! # Shutting down a multi-track plugin

The node's loop calls the wrapped plugin's `OnStop` when it leaves. It does not
wait for the tracks' read loops, which only watch the context. So the plugin is
stopped in peace only if no read loop has, or can still get, an item to hand
over.
-/

namespace Voce.Engine

open Transition List Option

variable {Data : Type}

inductive TrackNodeLoop (Data : Type) where
  | idle
  | pushing (track : Nat) (call : TrackCall Data)
  /-- `OnSignal` before it looks at the next track. -/
  | signalling (name : String) (track : Nat)
  | interrupting (name : String) (track : Nat) (call : TrackCall Data)
  | callback
  | onStop
  | exited

/-- `OnStop` of the wrapped plugin was called. -/
def TrackNodeLoop.Stopped : TrackNodeLoop Data → Prop
  | .onStop | .exited => True
  | _ => False

structure TrackNode (Data : Type) where
  ctxDone : Bool
  stopRequested : Bool
  paused : Bool
  loop : TrackNodeLoop Data
  tracks : List (Track Data)

namespace TrackNode

inductive Label (Data : Type) where
  | cancel
  | stop
  /-- The loop takes an event or a control. -/
  | push (track : Nat) (data : Data)
  | signal (name : String)
  | pause
  | resume
  | other
  | loop (label : CallLabel)
  | exit
  | read (track : Nat) (label : ReadLabel)

def initial (tracks : List (Nat × DropStrategy × List String)) : TrackNode Data :=
  ⟨false, false, false, .idle, tracks.map fun config => .start config.1 config.2.1 config.2.2⟩

variable (s : TrackNode Data)

def callTrack (track : Nat) (call : TrackCall Data) (label : CallLabel)
    (loop : TrackCall Data → TrackNodeLoop Data) : Option (TrackNode Data) :=
  match s.tracks[track]? with
  | none => none
  | some t =>
    (t.callStep call label).map fun moved =>
      { s with loop := loop moved.1, tracks := s.tracks.set track moved.2 }

def loopStep (label : CallLabel) : Option (TrackNode Data) :=
  match s.loop with
  | .idle | .exited => none
  | .pushing _ .returned => some { s with loop := .idle }
  | .pushing track call => s.callTrack track call label (.pushing track)
  | .signalling name track =>
    match s.tracks[track]? with
    | none => some { s with loop := .callback }
    | some t =>
      some { s with
        loop := if name ∈ t.signals then .interrupting name track (.adding t.pushed)
          else .signalling name (track + 1) }
  | .interrupting name track .returned => some { s with loop := .signalling name (track + 1) }
  | .interrupting name track call => s.callTrack track call label (.interrupting name track)
  | .callback => some { s with loop := .idle }
  | .onStop => some { s with loop := .exited }

def step : Label Data → Option (TrackNode Data)
  | .cancel => some { s with ctxDone := true }
  | .stop => some { s with stopRequested := true }
  | .push track data =>
    match s.loop, s.tracks[track]? with
    | .idle, some _ => some { s with loop := .pushing track (.loading data) }
    | _, _ => none
  | .signal name =>
    match s.loop with
    | .idle => some { s with loop := .signalling name 0 }
    | _ => none
  | .pause =>
    match s.loop with
    | .idle => some { s with paused := true, loop := .callback }
    | _ => none
  | .resume =>
    match s.loop with
    | .idle => some { s with paused := false, loop := .callback }
    | _ => none
  | .other =>
    match s.loop with
    | .idle => some { s with loop := .callback }
    | _ => none
  | .loop label => s.loopStep label
  | .exit =>
    match s.loop with
    | .idle => if s.ctxDone ∨ s.stopRequested then some { s with loop := .onStop } else none
    | _ => none
  | .read track label =>
    match s.tracks[track]? with
    | none => none
    | some t =>
      (t.readStep s.ctxDone s.paused label).map fun t =>
        { s with tracks := s.tracks.set track t }

/-- No handler of a track runs once `OnStop` was called. -/
def NoHandlerAfterStop : Prop :=
  s.loop.Stopped → ∀ t ∈ s.tracks, ∀ item context, t.phase ≠ .handling item context

end TrackNode

namespace Track

variable (t : Track Data) (ctxDone paused : Bool)

/-- The read loop will discard every item it may still receive, of which there
are at most so many if the context is cancelled. -/
def Spent (atMost : Nat) : Prop :=
  ∀ item ∈ if ctxDone then t.ch.items.take atMost else t.ch.items,
    paused = true ∨ item.epoch ≠ t.epoch

/-- No handler runs and the read loop will start none if nothing is pushed. -/
def Harmless : Prop :=
  match t.phase with
  | .top | .handled _ | .clearing => t.Spent ctxDone paused 0
  | .selecting => t.Spent ctxDone paused 1
  | .received item => (paused = true ∨ item.epoch ≠ t.epoch) ∧ t.Spent ctxDone paused 0
  | .unpaused item => item.epoch ≠ t.epoch ∧ t.Spent ctxDone paused 0
  | .current _ | .stored _ _ | .handling _ _ => False
  | .draining | .exited => True

instance (atMost : Nat) : Decidable (t.Spent ctxDone paused atMost) := by
  unfold Spent
  split <;> infer_instance

instance : Decidable (t.Harmless ctxDone paused) := by
  unfold Harmless
  rcases t.phase <;> infer_instance

variable {t next : Track Data} {ctxDone paused : Bool} {atMost : Nat}

theorem Spent.cancel (hspent : t.Spent ctxDone paused atMost) : t.Spent true paused atMost := by
  intro item hitem
  apply hspent item
  split
  · exact hitem
  · exact mem_of_mem_take hitem

theorem Harmless.cancel (hharmless : t.Harmless ctxDone paused) : t.Harmless true paused := by
  cases hphase : t.phase with
  | received | unpaused =>
    simp only [Harmless, hphase] at hharmless ⊢
    exact ⟨hharmless.1, hharmless.2.cancel⟩
  | current | stored | handling => simp [Harmless, hphase] at hharmless
  | draining | exited => simp [Harmless, hphase]
  | _ =>
    simp only [Harmless, hphase] at hharmless ⊢
    exact hharmless.cancel

/-- No step of the read loop leads to a handler. -/
theorem Harmless.reads (hharmless : t.Harmless ctxDone paused)
    (hreads : t.Reads ctxDone paused next) : next.Harmless ctxDone paused := by
  cases hreads with
  | select hphase hlive =>
    simp only [Harmless, hphase, Spent, hlive] at hharmless ⊢
    exact hharmless
  | receive item ch hphase hitems =>
    simp only [Harmless, hphase, Spent, hitems] at hharmless ⊢
    refine ⟨hharmless item ?_, fun other hother => hharmless other ?_⟩
    · split <;> simp
    · cases ctxDone with
      | true => cases hother
      | false => exact mem_cons_of_mem item hother
  | discard item hphase =>
    rcases hphase with ⟨hphase, -⟩ | ⟨hphase, -⟩
    · simp only [Harmless, hphase] at hharmless
      exact hharmless.2
    · simp only [Harmless, hphase] at hharmless
      exact hharmless.2
  | findUnpaused item hphase hunpaused =>
    simp only [Harmless, hphase] at hharmless
    refine ⟨hharmless.1.resolve_left ?_, hharmless.2⟩
    rw [hunpaused]
    nofun
  | findCurrent item hphase hcurrent =>
    simp only [Harmless, hphase] at hharmless
    exact absurd hcurrent hharmless.1
  | store _ hphase | call _ _ hphase | finish _ _ hphase =>
    simp only [Harmless, hphase] at hharmless
  | release context hphase | clear hphase =>
    simp only [Harmless, hphase] at hharmless
    exact hharmless
  | _ => trivial

end Track

namespace TrackNode

/-- The loop leaves only when every track is harmless. -/
def ExitsHarmless (s : TrackNode Data) : Label Data → Prop
  | .exit => ∀ t ∈ s.tracks, t.Harmless s.ctxDone s.paused
  | _ => True

instance (s : TrackNode Data) : ∀ label, Decidable (s.ExitsHarmless label) := by
  intro label
  rcases label <;> unfold ExitsHarmless <;> infer_instance

/-- Once the plugin is stopped its tracks are harmless. -/
def Quiet (s : TrackNode Data) : Prop :=
  s.loop.Stopped → ∀ t ∈ s.tracks, t.Harmless s.ctxDone s.paused

variable {s next : TrackNode Data}

theorem Quiet.noHandlerAfterStop (hquiet : s.Quiet) : s.NoHandlerAfterStop := by
  intro hstopped t ht item context hhandling
  have hharmless := hquiet hstopped t ht
  simp only [Track.Harmless, hhandling] at hharmless

theorem callTrack_not_stopped {track call label loop} (hloop : ∀ moved, ¬ (loop moved).Stopped)
    (hstep : s.callTrack track call label loop = some next) : ¬ next.loop.Stopped := by
  unfold callTrack at hstep
  split at hstep
  · cases hstep
  · obtain ⟨moved, -, rfl⟩ := map_eq_some_iff.mp hstep
    exact hloop moved.1

/-- The loop's calls do not stop the plugin, and a stopped loop makes none. -/
theorem loopStep_stopped {label} (hstep : s.loopStep label = some next)
    (hstopped : next.loop.Stopped) : s.loop.Stopped ∧ next = { s with loop := .exited } := by
  unfold loopStep at hstep
  split at hstep
  · cases hstep
  · cases hstep
  · cases hstep
    exact absurd hstopped id
  · exact absurd hstopped (callTrack_not_stopped (fun _ => id) hstep)
  · split at hstep
    · cases hstep
      exact absurd hstopped id
    · cases hstep
      split at hstopped <;> exact absurd hstopped id
  · cases hstep
    exact absurd hstopped id
  · exact absurd hstopped (callTrack_not_stopped (fun _ => id) hstep)
  · cases hstep
    exact absurd hstopped id
  next honStop =>
    cases hstep
    exact ⟨by rw [honStop]; trivial, rfl⟩

theorem step_quiet {label} (hquiet : s.Quiet) (hexits : s.ExitsHarmless label)
    (hstep : s.step label = some next) : next.Quiet := by
  cases label with
  | cancel =>
    cases hstep
    exact fun hstopped t ht => (hquiet hstopped t ht).cancel
  | stop =>
    cases hstep
    exact hquiet
  | loop label =>
    intro hstopped
    obtain ⟨hbefore, rfl⟩ := loopStep_stopped hstep hstopped
    exact hquiet hbefore
  | exit =>
    simp only [step] at hstep
    split at hstep
    · obtain ⟨-, hnext⟩ := ite_none_right_eq_some.mp hstep
      cases hnext
      exact fun _ => hexits
    · cases hstep
  | read track label =>
    simp only [step] at hstep
    split at hstep
    · cases hstep
    next t ht =>
      obtain ⟨moved, hread, rfl⟩ := map_eq_some_iff.mp hstep
      intro hstopped other hother
      rcases mem_or_eq_of_mem_set hother with hold | rfl
      · exact hquiet hstopped other hold
      · exact (hquiet hstopped t (mem_of_getElem? ht)).reads (Track.reads_of_readStep hread)
  | _ =>
    simp only [step] at hstep
    split at hstep
    · cases hstep
      exact fun hstopped => absurd hstopped id
    · cases hstep

/-- In every run in which the loop leaves only when all tracks are harmless, no
handler runs once `OnStop` was called. -/
theorem run_noHandlerAfterStop (tracks : List (Nat × DropStrategy × List String))
    (labels : List (Label Data)) {final : TrackNode Data}
    (hexits : Meets step ExitsHarmless (initial tracks) labels)
    (hrun : run step (initial tracks) labels = some final) :
    final.NoHandlerAfterStop := by
  have hfinal : final.Quiet :=
    run_invariant_of_meets Quiet step_quiet (fun hstopped => absurd hstopped id) hexits hrun
  exact hfinal.noHandlerAfterStop

/-- Labels that bring one item to its handler. -/
def handleLabels : List (Label Unit) :=
  [Label.push 0 (), .loop .proceed, .loop .proceed, .loop .proceed] ++
    replicate 6 (Label.read 0 .proceed)

/-- The handler returns before the loop leaves. -/
theorem run_noHandlerAfterStop_finished :
    ∃ final, run step (initial [(1, .blockIfFull, [])])
        (handleLabels ++ [.cancel, .read 0 .proceed, .exit, .read 0 .proceed, .read 0 .proceed])
        = some final ∧
      final.loop = .onStop ∧ final.NoHandlerAfterStop :=
  ⟨_, rfl, rfl, run_noHandlerAfterStop [(1, .blockIfFull, [])]
    (handleLabels ++ [Label.cancel, .read 0 .proceed, .exit, .read 0 .proceed, .read 0 .proceed])
    (by decide) rfl⟩

/-- `OnStop` is called while the handler of an item runs. -/
theorem stop_during_handler :
    ∃ final, run step (initial [(1, .blockIfFull, [])])
        (handleLabels ++ [.cancel, .exit]) = some final ∧
      ¬ final.NoHandlerAfterStop := by
  refine ⟨_, rfl, fun hnone => ?_⟩
  exact hnone trivial _ mem_cons_self ⟨0, (), 0⟩ 0 rfl

end TrackNode

end Voce.Engine
