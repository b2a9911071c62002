import Mathlib.Data.List.Induction

/-! # Callbacks of a plugin

What a plugin sees of its node: the beginning and the end of every call of one
of its callbacks, in the order of time. The abstract protocol of a plugin runs
one callback at a time, after a successful `OnStart` and up to one `OnStop`.
-/

namespace Voce.Engine

open List Option

inductive EventKind where
  | signal
  | payload
  | audio
  | video
  deriving DecidableEq

/-- Audio and video, which a node drops when its queue is full. -/
def EventKind.Media : EventKind → Prop
  | .signal | .payload => False
  | .audio | .video => True

instance : ∀ kind : EventKind, Decidable kind.Media
  | .signal | .payload => .isFalse id
  | .audio | .video => .isTrue trivial

inductive Callback where
  | onStart
  | onReady
  | onEvent (kind : EventKind)
  | onPause
  | onResume
  | onStop
  deriving DecidableEq

inductive Observation where
  | enter (callback : Callback)
  | leave (callback : Callback)
  | startFailed
  deriving DecidableEq

namespace Observation

/-- What is running after an observation. -/
def track (running : List Callback) : Observation → List Callback
  | .enter callback => callback :: running
  | .leave callback => running.erase callback
  | .startFailed => running.erase .onStart

def running (trace : List Observation) : List Callback := trace.foldl track []

/-- Callbacks run one at a time, all but `OnStart` after a successful `OnStart`,
and none begins once `OnStop` has begun. -/
structure Serial (trace : List Observation) : Prop where
  alone : ∀ before callback after, trace = before ++ .enter callback :: after →
    running before = []
  started : ∀ before callback after, trace = before ++ .enter callback :: after →
    callback ≠ .onStart → .leave .onStart ∈ before
  unstopped : ∀ before callback after, trace = before ++ .enter callback :: after →
    .enter .onStop ∉ before

end Observation

/-! ## Protocol -/

inductive PluginPhase where
  | fresh
  | starting
  | failed
  | idle
  | busy (callback : Callback)
  | stopping
  | stopped
  deriving DecidableEq

namespace PluginPhase

def observe : PluginPhase → Observation → Option PluginPhase
  | .fresh, .enter .onStart => some .starting
  | .starting, .leave .onStart => some .idle
  | .starting, .startFailed => some .failed
  | .idle, .enter .onStop => some .stopping
  | .idle, .enter .onStart => none
  | .idle, .enter callback => some (.busy callback)
  | .busy callback, .leave other => if callback = other then some .idle else none
  | .stopping, .leave .onStop => some .stopped
  | _, _ => none

/-- The trace follows the protocol up to this phase. -/
def Follows (trace : List Observation) (phase : PluginPhase) : Prop :=
  trace.foldlM observe .fresh = some phase

def running : PluginPhase → List Callback
  | .starting => [.onStart]
  | .busy callback => [callback]
  | .stopping => [.onStop]
  | .fresh | .failed | .idle | .stopped => []

def Started : PluginPhase → Prop
  | .fresh | .starting | .failed => False
  | .idle | .busy _ | .stopping | .stopped => True

def Stopped : PluginPhase → Prop
  | .stopping | .stopped => True
  | .fresh | .starting | .failed | .idle | .busy _ => False

variable {trace before after : List Observation} {phase next : PluginPhase}
  {observation : Observation}

theorem Follows.snoc (hfollows : Follows trace phase)
    (hobserve : phase.observe observation = some next) : Follows (trace ++ [observation]) next := by
  simp only [Follows, foldlM_append] at hfollows ⊢
  simp [hfollows, hobserve]

theorem Follows.of_append (hfollows : Follows (before ++ observation :: after) next) :
    ∃ phase moved, Follows before phase ∧ phase.observe observation = some moved := by
  simp only [Follows, foldlM_append, foldlM_cons, bind_eq_bind, bind_eq_some_iff] at hfollows
  obtain ⟨phase, hbefore, moved, hmoved, -⟩ := hfollows
  exact ⟨phase, moved, hbefore, hmoved⟩

theorem Follows.of_snoc (hfollows : Follows (trace ++ [observation]) next) :
    ∃ phase, Follows trace phase ∧ phase.observe observation = some next := by
  simpa [Follows, foldlM_append, bind_eq_some_iff] using hfollows

/-- What an observation does to the callback that runs, and what it says about
the start and the stop. -/
theorem observe_eq_some (hobserve : phase.observe observation = some next) :
    Observation.track phase.running observation = next.running ∧
      (next.Started → phase.Started ∨ observation = .leave .onStart) ∧
      (¬ next.Stopped → ¬ phase.Stopped ∧ observation ≠ .enter .onStop) := by
  cases phase with
  | busy callback =>
    cases observation with
    | leave other =>
      obtain ⟨rfl, hnext⟩ := ite_none_right_eq_some.mp hobserve
      cases hnext
      simp [Observation.track, running, Started, Stopped]
    | enter | startFailed => cases hobserve
  | _ =>
    rcases observation with ⟨⟨⟩⟩ | ⟨⟨⟩⟩ | _ <;> cases hobserve <;>
      simp [Observation.track, running, Started, Stopped]

/-- A callback begins in a plugin where nothing runs and that is not stopped. -/
theorem observe_enter {callback} (hobserve : phase.observe (.enter callback) = some next) :
    phase.running = [] ∧ ¬ phase.Stopped ∧ (callback ≠ .onStart → phase.Started) := by
  cases phase with
  | _ =>
    cases callback <;> cases hobserve <;> simp [running, Started, Stopped]

theorem Follows.facts (hfollows : Follows trace phase) : Observation.running trace = phase.running ∧
      (phase.Started → .leave .onStart ∈ trace) ∧
      (¬ phase.Stopped → .enter .onStop ∉ trace) := by
  induction trace using reverseRecOn generalizing phase with
  | nil =>
    cases hfollows
    exact ⟨rfl, False.elim, fun _ => not_mem_nil⟩
  | append_singleton trace observation ih =>
    obtain ⟨earlier, hearlier, hobserve⟩ := hfollows.of_snoc
    obtain ⟨hrunning, hstarted, hstopped⟩ := ih hearlier
    obtain ⟨htrack, hstart, hstop⟩ := observe_eq_some hobserve
    refine ⟨?_, fun hphase => ?_, fun hphase => ?_⟩
    · rw [Observation.running, foldl_append, ← Observation.running, hrunning]
      exact htrack
    · rcases hstart hphase with hbefore | rfl
      · exact mem_append_left _ (hstarted hbefore)
      · exact mem_append_right _ mem_cons_self
    · obtain ⟨hbefore, hne⟩ := hstop hphase
      rw [mem_append, mem_singleton, not_or]
      exact ⟨hstopped hbefore, hne.symm⟩

/-- A trace that follows the protocol is serial. -/
theorem Follows.serial (hfollows : Follows trace phase) : Observation.Serial trace := by
  have hbegin : ∀ before callback after, trace = before ++ .enter callback :: after →
      Observation.running before = [] ∧ .enter .onStop ∉ before ∧
        (callback ≠ .onStart → .leave .onStart ∈ before) := by
    rintro before callback after rfl
    obtain ⟨earlier, moved, hearlier, hobserve⟩ := hfollows.of_append
    obtain ⟨hrunning, hstarted, hstopped⟩ := hearlier.facts
    obtain ⟨hnone, hunstopped, hstart⟩ := observe_enter hobserve
    exact ⟨hrunning.trans hnone, hstopped hunstopped, fun hne => hstarted (hstart hne)⟩
  constructor
  · exact fun before callback after heq => (hbegin before callback after heq).1
  · exact fun before callback after heq => (hbegin before callback after heq).2.2
  · exact fun before callback after heq => (hbegin before callback after heq).2.1

end PluginPhase

end Voce.Engine
