import Voce.Foundation.Channel
import Voce.Foundation.Interleaving

/-! # Track of a multi-track plugin

A track hands the items of its buffer to the wrapped plugin in a goroutine of its
own, `readLoop`. Other goroutines push items and interrupt the track. The loop
and these calls share the epoch counter and the pointer to the cancel function
of the handler's context, and each step below is one access to shared state.
-/

namespace Voce.Engine

open Channel Option

inductive DropStrategy where
  | dropNewest
  | blockIfFull
  | dropOldest

/-- An item of the buffer, and how many items were placed there before it. -/
structure TrackItem (Data : Type) where
  epoch : UInt32
  data : Data
  number : Nat
  deriving DecidableEq

/-- Where `readLoop` is. A context is named by the number of contexts made
before it. -/
inductive ReadPhase (Data : Type) where
  /-- Before the check of `ctx.Err()`. -/
  | top
  | selecting
  /-- Received, before `paused.Load()`. -/
  | received (item : TrackItem Data)
  /-- Found not paused, before `epoch.Load()`. -/
  | unpaused (item : TrackItem Data)
  /-- Found current, before `cancel.Store(&cancel)`. -/
  | current (item : TrackItem Data)
  /-- Before the call of the handler. -/
  | stored (item : TrackItem Data) (context : Nat)
  | handling (item : TrackItem Data) (context : Nat)
  /-- Before `cancel()`. -/
  | handled (context : Nat)
  /-- Before `cancel.Store(nil)`. -/
  | clearing
  | draining
  | exited

@[simp]
def ReadPhase.unchecked {Data : Type} : ReadPhase Data → List (TrackItem Data)
  | .received item | .unpaused item => [item]
  | _ => []

structure Track (Data : Type) where
  ch : Channel (TrackItem Data)
  strategy : DropStrategy
  signals : List String
  epoch : UInt32
  cancel : Option Nat
  phase : ReadPhase Data
  contexts : Nat
  cancelled : List Nat
  /-- How many items were placed in the buffer. -/
  pushed : Nat
  /-- An interrupt has raised the epoch after this many items were placed. -/
  bumped : Nat
  /-- An interrupt has returned that started after this many items were placed. -/
  cleared : Nat
  handed : List (TrackItem Data)

/-- A call of `push` or `interruptTrack`. An interrupt remembers how many items
were placed in the buffer before it started. -/
inductive TrackCall (Data : Type) where
  /-- `push` before `epoch.Load()`. -/
  | loading (data : Data)
  | sending (epoch : UInt32) (data : Data)
  /-- `pushDropOldest` after a blocked send, before it receives. -/
  | evicting (epoch : UInt32) (data : Data)
  /-- `interruptTrack` before `epoch.Add(1)`. -/
  | adding (before : Nat)
  /-- Before `cancel.Swap(nil)`. -/
  | swapping (before : Nat)
  /-- Before the call of the cancel function it got. -/
  | cancelling (before : Nat) (context : Option Nat)
  | returned

/-- The branch a call takes: the next step, or one of the errors of a send. -/
inductive CallLabel where
  | proceed
  /-- `ErrSendBlocked`. -/
  | blocked
  | expired

/-- The branch `readLoop` takes: the next step, or `ctx.Done()` in its select. -/
inductive ReadLabel where
  | proceed
  | done

namespace Track

variable {Data : Type}

def start (capacity : Nat) (strategy : DropStrategy) (signals : List String) : Track Data :=
  ⟨.empty capacity, strategy, signals, 0, none, .top, 0, [], 0, 0, 0, []⟩

def unchecked (t : Track Data) : List (TrackItem Data) := t.phase.unchecked ++ t.ch.items

variable (t : Track Data)

/-- A send on the buffer succeeds. An unbuffered channel hands the item to the
read loop if it waits. -/
def place (epoch : UInt32) (data : Data) : Option (Track Data) :=
  match t.ch.send? ⟨epoch, data, t.pushed⟩, t.ch.items, t.phase with
  | some ch, _, _ => some { t with ch := ch, pushed := t.pushed + 1 }
  | none, [], .selecting =>
    some { t with phase := .received ⟨epoch, data, t.pushed⟩, pushed := t.pushed + 1 }
  | none, _, _ => none

def evict : Track Data :=
  match t.ch.receive? with
  | some (_, ch) => { t with ch := ch }
  | none => t

def callStep : TrackCall Data → CallLabel → Option (TrackCall Data × Track Data)
  | .loading data, .proceed => some (.sending t.epoch data, t)
  | .sending epoch data, .proceed => (t.place epoch data).map fun t => (.returned, t)
  | .sending epoch data, .blocked =>
    match t.place epoch data, t.strategy with
    | none, .dropNewest => some (.returned, t)
    | none, .dropOldest => some (.evicting epoch data, t)
    | _, _ => none
  | .sending _ _, .expired => some (.returned, t)
  | .evicting epoch data, .proceed => some (.sending epoch data, t.evict)
  | .adding before, .proceed =>
    some (.swapping before, { t with epoch := t.epoch + 1, bumped := max t.bumped before })
  | .swapping before, .proceed =>
    some (.cancelling before t.cancel, { t with cancel := none })
  | .cancelling before context, .proceed =>
    some (.returned,
      { t with
        cancelled := context.toList ++ t.cancelled
        cleared := max t.cleared before })
  | _, _ => none

def readStep (ctxDone paused : Bool) : ReadLabel → Option (Track Data)
  | .done =>
    match t.phase with
    | .selecting => if ctxDone then some { t with phase := .draining } else none
    | _ => none
  | .proceed =>
    match t.phase with
    | .top => some { t with phase := if ctxDone then .draining else .selecting }
    | .selecting =>
      t.ch.receive?.map fun received =>
        { t with ch := received.2, phase := .received received.1 }
    | .received item => some { t with phase := if paused then .top else .unpaused item }
    | .unpaused item =>
      some { t with phase := if item.epoch ≠ t.epoch then .top else .current item }
    | .current item =>
      some { t with
        phase := .stored item t.contexts
        cancel := some t.contexts
        contexts := t.contexts + 1 }
    | .stored item context =>
      some { t with phase := .handling item context, handed := t.handed ++ [item] }
    | .handling _ context => some { t with phase := .handled context }
    | .handled context =>
      some { t with phase := .clearing, cancelled := context :: t.cancelled }
    | .clearing => some { t with phase := .top, cancel := none }
    | .draining =>
      match t.ch.receive? with
      | some (_, ch) => some { t with ch := ch }
      | none => some { t with phase := .exited }
    | .exited => none

inductive Reads (t : Track Data) (ctxDone paused : Bool) : Track Data → Prop where
  | leave (hphase : t.phase = .top ∨ t.phase = .selecting) (hdone : ctxDone = true) :
      Reads t ctxDone paused { t with phase := .draining }
  | select (hphase : t.phase = .top) (hlive : ctxDone = false) :
      Reads t ctxDone paused { t with phase := .selecting }
  | receive (item : TrackItem Data) (ch : Channel (TrackItem Data))
      (hphase : t.phase = .selecting) (hitems : t.ch.items = item :: ch.items) :
      Reads t ctxDone paused { t with ch := ch, phase := .received item }
  | discard (item : TrackItem Data)
      (hphase : t.phase = .received item ∧ paused = true ∨
        t.phase = .unpaused item ∧ item.epoch ≠ t.epoch) :
      Reads t ctxDone paused { t with phase := .top }
  | findUnpaused (item : TrackItem Data) (hphase : t.phase = .received item)
      (hunpaused : paused = false) :
      Reads t ctxDone paused { t with phase := .unpaused item }
  | findCurrent (item : TrackItem Data) (hphase : t.phase = .unpaused item)
      (hcurrent : item.epoch = t.epoch) :
      Reads t ctxDone paused { t with phase := .current item }
  | store (item : TrackItem Data) (hphase : t.phase = .current item) :
      Reads t ctxDone paused
        { t with
          phase := .stored item t.contexts
          cancel := some t.contexts
          contexts := t.contexts + 1 }
  | call (item : TrackItem Data) (context : Nat) (hphase : t.phase = .stored item context) :
      Reads t ctxDone paused
        { t with phase := .handling item context, handed := t.handed ++ [item] }
  | finish (item : TrackItem Data) (context : Nat) (hphase : t.phase = .handling item context) :
      Reads t ctxDone paused { t with phase := .handled context }
  | release (context : Nat) (hphase : t.phase = .handled context) :
      Reads t ctxDone paused
        { t with phase := .clearing, cancelled := context :: t.cancelled }
  | clear (hphase : t.phase = .clearing) :
      Reads t ctxDone paused { t with phase := .top, cancel := none }
  | drain (item : TrackItem Data) (ch : Channel (TrackItem Data))
      (hphase : t.phase = .draining) (hitems : t.ch.items = item :: ch.items) :
      Reads t ctxDone paused { t with ch := ch, phase := .draining }
  | exit (hphase : t.phase = .draining) :
      Reads t ctxDone paused { t with phase := .exited }

variable {t next : Track Data}

theorem reads_of_readStep {ctxDone paused label}
    (hstep : t.readStep ctxDone paused label = some next) : t.Reads ctxDone paused next := by
  unfold readStep at hstep
  split at hstep
  · split at hstep
    next hphase =>
      obtain ⟨hdone, hnext⟩ := ite_none_right_eq_some.mp hstep
      cases hnext
      exact .leave (.inr hphase) hdone
    · cases hstep
  · split at hstep
    next hphase =>
      cases hstep
      split
      next hdone => exact .leave (.inl hphase) hdone
      next hlive => exact .select hphase (Bool.eq_false_iff.mpr hlive)
    next hphase =>
      obtain ⟨⟨item, ch⟩, hreceive, rfl⟩ := map_eq_some_iff.mp hstep
      exact .receive item ch hphase (receive?_eq_some hreceive).1
    next item hphase =>
      cases hstep
      split
      next hpaused => exact .discard item (.inl ⟨hphase, hpaused⟩)
      next hunpaused => exact .findUnpaused item hphase (Bool.eq_false_iff.mpr hunpaused)
    next item hphase =>
      cases hstep
      split
      next hstale => exact .discard item (.inr ⟨hphase, hstale⟩)
      next hcurrent => exact .findCurrent item hphase (Decidable.not_not.mp hcurrent)
    next item hphase =>
      cases hstep
      exact .store item hphase
    next item context hphase =>
      cases hstep
      exact .call item context hphase
    next item context hphase =>
      cases hstep
      exact .finish item context hphase
    next context hphase =>
      cases hstep
      exact .release context hphase
    next hphase =>
      cases hstep
      exact .clear hphase
    next hphase =>
      split at hstep
      next item ch hreceive =>
        cases hstep
        have hdrain : t.Reads ctxDone paused { t with ch := ch, phase := .draining } :=
          .drain item ch hphase (receive?_eq_some hreceive).1
        rwa [← hphase] at hdrain
      · cases hstep
        exact .exit hphase
    · cases hstep

/-- What a successful send leaves: the item is in the buffer, or with the read
loop. -/
theorem place_eq_some {epoch data} (hplace : t.place epoch data = some next) :
    (∃ ch, ch.items = t.ch.items ++ [⟨epoch, data, t.pushed⟩] ∧
      next = { t with ch := ch, pushed := t.pushed + 1 }) ∨
    t.phase = .selecting ∧ t.ch.items = [] ∧
      next = { t with phase := .received ⟨epoch, data, t.pushed⟩, pushed := t.pushed + 1 } := by
  unfold place at hplace
  split at hplace
  next ch hsend =>
    cases hplace
    exact .inl ⟨ch, (send?_eq_some hsend).2.2, rfl⟩
  next _ hempty hselecting =>
    cases hplace
    exact .inr ⟨hselecting, hempty, rfl⟩
  · cases hplace

/-- Dropping the oldest item changes nothing but the buffer. -/
theorem evict_eq (t : Track Data) :
    ∃ ch, t.evict = { t with ch := ch } ∧ ch.items = t.ch.items.tail := by
  unfold evict
  split
  next item ch hreceive => exact ⟨ch, rfl, by rw [(receive?_eq_some hreceive).1]; rfl⟩
  next hreceive =>
    refine ⟨t.ch, rfl, ?_⟩
    rw [receive?_eq_none hreceive]
    rfl

inductive Calls (t : Track Data) : TrackCall Data → TrackCall Data → Track Data → Prop where
  | load (data : Data) : Calls t (.loading data) (.sending t.epoch data) t
  | send (epoch : UInt32) (data : Data) (next : Track Data)
      (hplace : t.place epoch data = some next) : Calls t (.sending epoch data) .returned next
  /-- A full buffer or an expired context: the item is dropped. -/
  | giveUp (epoch : UInt32) (data : Data) : Calls t (.sending epoch data) .returned t
  | block (epoch : UInt32) (data : Data) : Calls t (.sending epoch data) (.evicting epoch data) t
  | evict (epoch : UInt32) (data : Data) :
      Calls t (.evicting epoch data) (.sending epoch data) t.evict
  | add (before : Nat) :
      Calls t (.adding before) (.swapping before)
        { t with epoch := t.epoch + 1, bumped := max t.bumped before }
  | swap (before : Nat) :
      Calls t (.swapping before) (.cancelling before t.cancel) { t with cancel := none }
  | cancel (before : Nat) (context : Option Nat) :
      Calls t (.cancelling before context) .returned
        { t with
          cancelled := context.toList ++ t.cancelled
          cleared := max t.cleared before }

theorem calls_of_callStep {call moved label}
    (hstep : t.callStep call label = some (moved, next)) : t.Calls call moved next := by
  unfold callStep at hstep
  split at hstep
  next data =>
    cases hstep
    exact .load data
  next epoch data =>
    obtain ⟨placed, hplace, hnext⟩ := map_eq_some_iff.mp hstep
    cases hnext
    exact .send epoch data next hplace
  next epoch data =>
    split at hstep
    · cases hstep
      exact .giveUp epoch data
    · cases hstep
      exact .block epoch data
    · cases hstep
  next epoch data =>
    cases hstep
    exact .giveUp epoch data
  next epoch data =>
    cases hstep
    exact .evict epoch data
  next before =>
    cases hstep
    exact .add before
  next before =>
    cases hstep
    exact .swap before
  next before context =>
    cases hstep
    exact .cancel before context
  · cases hstep

end Track

/-! ## Interleavings -/

inductive PauseCall where
  | idle
  /-- `OnPause` before `paused.Store(true)`. -/
  | pausing
  | onPause
  /-- `OnResume` before `paused.Store(false)`. -/
  | resuming
  | onResume
  deriving DecidableEq

/-- A track with the state it shares with the other tracks of its plugin. -/
structure TrackShared (Data : Type) where
  ctxDone : Bool
  paused : Bool
  pauseCall : PauseCall
  track : Track Data
  /-- The items that were in the buffer when `OnPause` returned. -/
  waiting : List (TrackItem Data)

abbrev TrackRun (Data : Type) := Interleaving.Config (TrackShared Data) (TrackCall Data)

namespace TrackRun

variable {Data : Type}

inductive Label (Data : Type) where
  | push (data : Data)
  | interrupt (name : String)
  | call (i : Nat) (label : CallLabel)
  | read (label : ReadLabel)
  | cancel
  | onPause
  | onResume
  | pauseCall

def initial (capacity : Nat) (strategy : DropStrategy) (signals : List String) : TrackRun Data :=
  ⟨⟨false, false, .idle, .start capacity strategy signals, []⟩, []⟩

def pauseStep (s : TrackShared Data) : Option (TrackShared Data) :=
  match s.pauseCall with
  | .idle => none
  | .pausing => some { s with paused := true, pauseCall := .onPause }
  | .onPause => some { s with pauseCall := .idle, waiting := s.waiting ++ s.track.ch.items }
  | .resuming => some { s with paused := false, pauseCall := .onResume }
  | .onResume => some { s with pauseCall := .idle }

def step (c : TrackRun Data) : Label Data → Option (TrackRun Data)
  | .push data => some (c.spawn (.loading data))
  | .interrupt name =>
    -- a signal the track is not configured for returns at once
    some (c.spawn (if name ∈ c.shared.track.signals then .adding c.shared.track.pushed
      else .returned))
  | .call i label =>
    c.advance (fun call => (c.shared.track.callStep call label).map fun moved =>
      (moved.1, { c.shared with track := moved.2 })) i
  | .read label =>
    (c.shared.track.readStep c.shared.ctxDone c.shared.paused label).map fun track =>
      { c with shared := { c.shared with track := track } }
  | .cancel => some { c with shared := { c.shared with ctxDone := true } }
  | .onPause =>
    match c.shared.pauseCall with
    | .idle => some { c with shared := { c.shared with pauseCall := .pausing } }
    | _ => none
  | .onResume =>
    match c.shared.pauseCall with
    | .idle => some { c with shared := { c.shared with pauseCall := .resuming } }
    | _ => none
  | .pauseCall => (pauseStep c.shared).map fun s => { c with shared := s }

theorem call_eq_some {c d : TrackRun Data} {i label} (hstep : c.step (.call i label) = some d) :
    ∃ call moved track, c.phases[i]? = some call ∧
      c.shared.track.callStep call label = some (moved, track) ∧
      d = c.update i moved { c.shared with track := track } := by
  obtain ⟨call, moved, shared, hi, hnext, rfl⟩ := Interleaving.Config.advance_eq_some hstep
  obtain ⟨⟨moved, track⟩, hcall, heq⟩ := map_eq_some_iff.mp hnext
  cases heq
  exact ⟨call, moved, track, hi, hcall, rfl⟩

end TrackRun

end Voce.Engine
