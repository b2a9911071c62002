import Voce.Engine.BaseNode
import Voce.Engine.MultiTrack
import Voce.Engine.WorkflowPause
import Voce.Foundation.Mailbox

/-! # Loop of a node

In thread-per-node mode every node has a goroutine that takes events and
controls from the node's channels and calls the plugin. Other goroutines call
`Start`, `Ready`, `Stop`, `Pause`, `Resume` and `Input`. `Start` and `Ready` are
called once at most; the other calls come from any number of goroutines, each of
which makes one call after the other.
-/

namespace Voce.Engine

open Option Function

def signalBufferSize : Nat := 12
def videoBufferSize : Nat := 24

def EventKind.bufferSize : EventKind → Nat
  | .signal => signalBufferSize
  | .payload => payloadBufferSize
  | .audio => audioBufferSize
  | .video => videoBufferSize

inductive LoopControl where
  | stop
  | notify (control : ControlType)

def ControlType.callback : ControlType → Callback
  | .pause => .onPause
  | .resume => .onResume

structure SentEvent (Value : Type) where
  producer : Nat
  value : Value
  deriving DecidableEq

inductive NodeLoopPhase where
  | absent
  | top
  /-- In the select that has a default branch. -/
  | outer
  | inner
  | event (kind : EventKind)
  | control (control : ControlType)
  /-- In the deferred function, before `running.Store(false)`. -/
  | exiting
  | stopping
  | onStop
  | draining
  | exited
  deriving DecidableEq

def NodeLoopPhase.callback : NodeLoopPhase → Option Callback
  | .event kind => some (.onEvent kind)
  | .control type => some type.callback
  | .onStop => some .onStop
  | .absent | .top | .outer | .inner | .exiting | .stopping | .draining | .exited => none

structure NodeShared (Value : Type) extends BaseNode where
  ctxDone : Bool
  /-- The channels. Offered are the events of the `Input` calls that found the node
  running and are done with their send, handled those the plugin was called with. -/
  events : EventKind → Mailbox (SentEvent Value)
  ctrl : Channel LoopControl
  loop : NodeLoopPhase
  /-- A `Stop` call that found the node running has returned. -/
  stopReturned : Bool

inductive NodeCall (Value : Type) where
  | idle
  /-- `Stop` before `running.Swap(false)`. -/
  | stopSwap
  /-- `Stop` before it sends to the control queue. -/
  | stopSend
  /-- `Pause` or `Resume` before `running.Load()`. -/
  | controlCheck (control : ControlType)
  /-- In `SendWithContext`, before `ctx.Err()`. -/
  | controlErr (control : ControlType)
  | controlSelect (control : ControlType)
  /-- `Input` before its check of the context and the running flag. -/
  | inputCheck (kind : EventKind) (value : Value)
  /-- In `SendWithContext` or `SendWithNonBlocking`, before `ctx.Err()`. -/
  | inputErr (kind : EventKind) (value : Value)
  | inputSelect (kind : EventKind) (value : Value)

inductive NodeRequest (Value : Type) where
  | stop
  | notify (control : ControlType)
  | input (kind : EventKind) (value : Value)

def NodeRequest.call {Value : Type} : NodeRequest Value → NodeCall Value
  | .stop => .stopSwap
  | .notify control => .controlCheck control
  | .input kind value => .inputCheck kind value

inductive LoopLabel where
  | proceed
  | done
  | event (kind : EventKind)
  | control

namespace NodeShared

variable {Value : Type}

def startStep (s : NodeShared Value) (succeeds : Bool) : Option (NodeShared Value) :=
  match s.start with
  | .goLoop => some { s with start := .returned, loop := .top }
  | _ => (s.toBaseNode.startStep .goLoop succeeds).map fun n => { s with toBaseNode := n }

def readyStep (s : NodeShared Value) : Option (NodeShared Value) :=
  s.toBaseNode.readyStep.map fun n => { s with toBaseNode := n }

variable (s : NodeShared Value)

def receiveEvent (kind : EventKind) : Option (NodeShared Value) :=
  (s.events kind).receive?.map fun received =>
    { s with
      events := update s.events kind received.2
      loop := .event kind
      trace := s.trace ++ [.enter (.onEvent kind)] }

def receiveControl : Option (NodeShared Value) :=
  match s.ctrl.receive? with
  | none => none
  | some (.stop, ctrl) => some { s with ctrl := ctrl, loop := .exiting }
  | some (.notify control, ctrl) =>
    some { s with
      ctrl := ctrl
      loop := .control control
      trace := s.trace ++ [.enter control.callback] }

def drainEvent (kind : EventKind) : Option (NodeShared Value) :=
  (s.events kind).drain?.map fun mailbox =>
    { s with events := update s.events kind mailbox }

def loopStep : LoopLabel → Option (NodeShared Value)
  | .proceed =>
    match s.loop with
    | .top =>
      some { s with loop := if s.ctxDone = true ∨ s.running = false then .exiting else .outer }
    | .outer =>
      if s.ctxDone = false ∧ (s.events .signal).items = [] ∧ s.ctrl.items = [] then
        some { s with loop := .inner }
      else none
    | .event kind => some { s with loop := .top, trace := s.trace ++ [.leave (.onEvent kind)] }
    | .control control =>
      some { s with loop := .top, trace := s.trace ++ [.leave control.callback] }
    | .exiting => some { s with loop := .stopping, running := false }
    | .stopping => some { s with loop := .onStop, trace := s.trace ++ [.enter .onStop] }
    | .onStop => some { s with loop := .draining, trace := s.trace ++ [.leave .onStop] }
    | .draining =>
      if (s.events .audio).items = [] ∧ (s.events .video).items = [] then
        some { s with loop := .exited }
      else none
    | .absent | .inner | .exited => none
  | .done =>
    match s.loop with
    | .outer | .inner => if s.ctxDone then some { s with loop := .exiting } else none
    | _ => none
  | .event kind =>
    match s.loop, kind with
    | .outer, .signal => s.receiveEvent .signal
    | .inner, kind => s.receiveEvent kind
    | .draining, .audio => s.drainEvent .audio
    | .draining, .video => s.drainEvent .video
    | _, _ => none
  | .control =>
    match s.loop with
    | .outer | .inner => s.receiveControl
    | _ => none

/-- The event of an `Input` call is lost. -/
def lose (s : NodeShared Value) (kind : EventKind) (event : SentEvent Value) : NodeShared Value :=
  { s with events := update s.events kind ((s.events kind).lose event) }

/-- The next step of a goroutine. The choice is between the branches of a select:
the send, or what the select does otherwise. -/
def callStep (producer : Nat) (sends : Bool) :
    NodeCall Value → Option (NodeCall Value × NodeShared Value)
  | .idle => none
  | .stopSwap =>
    if s.running then some (.stopSend, { s with running := false }) else some (.idle, s)
  | .stopSend => some (.idle, { s with ctrl := s.ctrl.offer .stop, stopReturned := true })
  | .controlCheck control => some (if s.running then .controlErr control else .idle, s)
  | .controlErr control => some (if s.ctxDone then .idle else .controlSelect control, s)
  | .controlSelect control =>
    if sends then
      (s.ctrl.send? (.notify control)).map fun ctrl => (.idle, { s with ctrl := ctrl })
    else if s.ctxDone then some (.idle, s) else none
  | .inputCheck kind value =>
    some (if s.ctxDone = true ∨ s.running = false then .idle else .inputErr kind value, s)
  | .inputErr kind value =>
    if s.ctxDone then some (.idle, s.lose kind ⟨producer, value⟩)
    else some (.inputSelect kind value, s)
  | .inputSelect kind value =>
    match sends, (s.events kind).send? ⟨producer, value⟩ with
    | true, some mailbox =>
      some (.idle, { s with events := update s.events kind mailbox })
    | true, none => none
    | false, sent =>
      -- the default branch of a send that does not block is taken only when it would
      if s.ctxDone = true ∨ kind.Media ∧ sent.isNone then
        some (.idle, s.lose kind ⟨producer, value⟩)
      else none

inductive Starts (s : NodeShared Value) : NodeShared Value → Prop where
  | base (n : BaseNode) (hstarts : s.toBaseNode.Starts .goLoop n) :
      Starts s { s with toBaseNode := n }
  | launch (hstart : s.start = .goLoop) :
      Starts s { s with start := .returned, loop := .top }

variable {s next : NodeShared Value}

theorem starts_of_startStep {succeeds} (hstep : s.startStep succeeds = some next) :
    s.Starts next := by
  unfold startStep at hstep
  split at hstep
  next hstart =>
    cases hstep
    exact .launch hstart
  · obtain ⟨n, hstarts, rfl⟩ := map_eq_some_iff.mp hstep
    exact .base n (BaseNode.starts_of_startStep hstarts)

inductive Loops (s : NodeShared Value) : NodeShared Value → Prop where
  | leave (hphase : s.loop = .top ∧ (s.ctxDone = true ∨ s.running = false) ∨
      (s.loop = .outer ∨ s.loop = .inner) ∧ s.ctxDone = true) :
      Loops s { s with loop := .exiting }
  | select (hphase : s.loop = .top) (hlive : s.ctxDone = false) (hrunning : s.running = true) :
      Loops s { s with loop := .outer }
  | wait (hphase : s.loop = .outer) (hlive : s.ctxDone = false)
      (hsignals : (s.events .signal).items = []) (hcontrols : s.ctrl.items = []) :
      Loops s { s with loop := .inner }
  | receive (kind : EventKind) (event : SentEvent Value) (mailbox : Mailbox (SentEvent Value))
      (hphase : s.loop = .outer ∧ kind = .signal ∨ s.loop = .inner)
      (hreceive : (s.events kind).receive? = some (event, mailbox)) :
      Loops s
        { s with
          events := update s.events kind mailbox
          loop := .event kind
          trace := s.trace ++ [.enter (.onEvent kind)] }
  | receiveStop (ctrl : Channel LoopControl) (hphase : s.loop = .outer ∨ s.loop = .inner)
      (hreceive : s.ctrl.receive? = some (.stop, ctrl)) :
      Loops s { s with ctrl := ctrl, loop := .exiting }
  | receiveControl (control : ControlType) (ctrl : Channel LoopControl)
      (hphase : s.loop = .outer ∨ s.loop = .inner)
      (hreceive : s.ctrl.receive? = some (.notify control, ctrl)) :
      Loops s
        { s with
          ctrl := ctrl
          loop := .control control
          trace := s.trace ++ [.enter control.callback] }
  | eventReturns (kind : EventKind) (hphase : s.loop = .event kind) :
      Loops s { s with loop := .top, trace := s.trace ++ [.leave (.onEvent kind)] }
  | controlReturns (control : ControlType) (hphase : s.loop = .control control) :
      Loops s { s with loop := .top, trace := s.trace ++ [.leave control.callback] }
  | clearRunning (hphase : s.loop = .exiting) :
      Loops s { s with loop := .stopping, running := false }
  | callStop (hphase : s.loop = .stopping) :
      Loops s { s with loop := .onStop, trace := s.trace ++ [.enter .onStop] }
  | stopReturns (hphase : s.loop = .onStop) :
      Loops s { s with loop := .draining, trace := s.trace ++ [.leave .onStop] }
  | drain (kind : EventKind) (mailbox : Mailbox (SentEvent Value)) (hphase : s.loop = .draining)
      (hdrain : (s.events kind).drain? = some mailbox) :
      Loops s { s with events := update s.events kind mailbox }
  | exit (hphase : s.loop = .draining) : Loops s { s with loop := .exited }

theorem loops_of_receiveEvent {kind} (hphase : s.loop = .outer ∧ kind = .signal ∨ s.loop = .inner)
    (hstep : s.receiveEvent kind = some next) : s.Loops next := by
  obtain ⟨⟨event, mailbox⟩, hreceive, rfl⟩ := map_eq_some_iff.mp hstep
  exact .receive kind event mailbox hphase hreceive

theorem loops_of_drainEvent {kind} (hphase : s.loop = .draining)
    (hstep : s.drainEvent kind = some next) : s.Loops next := by
  obtain ⟨mailbox, hdrain, rfl⟩ := map_eq_some_iff.mp hstep
  exact .drain kind mailbox hphase hdrain

theorem loops_of_receiveControl (hphase : s.loop = .outer ∨ s.loop = .inner)
    (hstep : s.receiveControl = some next) : s.Loops next := by
  unfold NodeShared.receiveControl at hstep
  split at hstep
  · cases hstep
  next ctrl hreceive =>
    cases hstep
    exact .receiveStop ctrl hphase hreceive
  next control ctrl hreceive =>
    cases hstep
    exact .receiveControl control ctrl hphase hreceive

theorem loops_of_proceed (hstep : s.loopStep .proceed = some next) : s.Loops next := by
  simp only [loopStep] at hstep
  split at hstep
  next hphase =>
    cases hstep
    split
    next hleave => exact .leave (.inl ⟨hphase, hleave⟩)
    next hstay =>
      rw [not_or, Bool.not_eq_true, Bool.not_eq_false] at hstay
      exact .select hphase hstay.1 hstay.2
  next hphase =>
    obtain ⟨⟨hlive, hsignals, hcontrols⟩, hnext⟩ := ite_none_right_eq_some.mp hstep
    cases hnext
    exact .wait hphase hlive hsignals hcontrols
  next kind hphase =>
    cases hstep
    exact .eventReturns kind hphase
  next control hphase =>
    cases hstep
    exact .controlReturns control hphase
  next hphase =>
    cases hstep
    exact .clearRunning hphase
  next hphase =>
    cases hstep
    exact .callStop hphase
  next hphase =>
    cases hstep
    exact .stopReturns hphase
  next hphase =>
    obtain ⟨-, hnext⟩ := ite_none_right_eq_some.mp hstep
    cases hnext
    exact .exit hphase
  · cases hstep
  · cases hstep
  · cases hstep

theorem loops_of_loopStep {label} (hstep : s.loopStep label = some next) : s.Loops next := by
  cases label with
  | proceed => exact loops_of_proceed hstep
  | done =>
    simp only [loopStep] at hstep
    split at hstep
    next hphase =>
      obtain ⟨hdone, hnext⟩ := ite_none_right_eq_some.mp hstep
      cases hnext
      exact .leave (.inr ⟨.inl hphase, hdone⟩)
    next hphase =>
      obtain ⟨hdone, hnext⟩ := ite_none_right_eq_some.mp hstep
      cases hnext
      exact .leave (.inr ⟨.inr hphase, hdone⟩)
    · cases hstep
  | event kind =>
    simp only [loopStep] at hstep
    split at hstep
    next hphase => exact loops_of_receiveEvent (.inl ⟨hphase, rfl⟩) hstep
    next hphase => exact loops_of_receiveEvent (.inr hphase) hstep
    next hphase => exact loops_of_drainEvent hphase hstep
    next hphase => exact loops_of_drainEvent hphase hstep
    · cases hstep
  | control =>
    simp only [loopStep] at hstep
    split at hstep
    next hphase => exact loops_of_receiveControl (.inl hphase) hstep
    next hphase => exact loops_of_receiveControl (.inr hphase) hstep
    · cases hstep

inductive Calls (s : NodeShared Value) (producer : Nat) :
    NodeCall Value → NodeCall Value → NodeShared Value → Prop where
  | swap (hrunning : s.running = true) :
      Calls s producer .stopSwap .stopSend { s with running := false }
  | sendStop :
      Calls s producer .stopSend .idle
        { s with ctrl := s.ctrl.offer .stop, stopReturned := true }
  | sendControl (control : ControlType) (ctrl : Channel LoopControl)
      (hsend : s.ctrl.send? (.notify control) = some ctrl) :
      Calls s producer (.controlSelect control) .idle { s with ctrl := ctrl }
  | send (kind : EventKind) (value : Value) (mailbox : Mailbox (SentEvent Value))
      (hsend : (s.events kind).send? ⟨producer, value⟩ = some mailbox) :
      Calls s producer (.inputSelect kind value) .idle
        { s with events := update s.events kind mailbox }
  /-- The context is cancelled, or the queue of a media event is full. -/
  | drop (kind : EventKind) (value : Value) (call : NodeCall Value)
      (hlost : s.ctxDone = true ∨ kind.Media) :
      Calls s producer call .idle (s.lose kind ⟨producer, value⟩)
  /-- The node is not running, or a check passes. -/
  | pass (call moved : NodeCall Value) (hmoved : moved ≠ .stopSend) : Calls s producer call moved s

theorem calls_of_callStep {producer sends call moved}
    (hstep : s.callStep producer sends call = some (moved, next)) :
    s.Calls producer call moved next := by
  cases call with
  | idle => cases hstep
  | stopSwap =>
    simp only [callStep] at hstep
    split at hstep
    next hrunning =>
      cases hstep
      exact .swap hrunning
    · cases hstep
      exact .pass _ _ nofun
  | stopSend =>
    cases hstep
    exact .sendStop
  | controlCheck control | controlErr control | inputCheck kind value =>
    cases hstep
    refine .pass _ _ ?_
    split <;> nofun
  | controlSelect control =>
    simp only [callStep] at hstep
    split at hstep
    · obtain ⟨ctrl, hsend, heq⟩ := map_eq_some_iff.mp hstep
      cases heq
      exact .sendControl control ctrl hsend
    · obtain ⟨-, heq⟩ := ite_none_right_eq_some.mp hstep
      cases heq
      exact .pass _ _ nofun
  | inputErr kind value =>
    simp only [callStep] at hstep
    split at hstep
    next hdone =>
      cases hstep
      exact .drop kind value _ (.inl hdone)
    · cases hstep
      exact .pass _ _ nofun
  | inputSelect kind value =>
    simp only [callStep] at hstep
    split at hstep
    next mailbox hsend =>
      cases hstep
      exact .send kind value mailbox hsend
    · cases hstep
    · obtain ⟨hlost, heq⟩ := ite_none_right_eq_some.mp hstep
      cases heq
      exact .drop kind value _ (hlost.imp id And.left)

end NodeShared

abbrev LoopNode (Value : Type) := Interleaving.Config (NodeShared Value) (NodeCall Value)

namespace LoopNode

variable {Value : Type}

inductive Label (Value : Type) where
  | start (succeeds : Bool)
  | ready
  | loop (label : LoopLabel)
  | spawn
  | request (i : Nat) (request : NodeRequest Value)
  | call (i : Nat) (sends : Bool)
  | cancel

def initial : LoopNode Value :=
  { shared :=
      { BaseNode.initial with
        ctxDone := false
        events := fun kind => .empty kind.bufferSize
        ctrl := .empty ctrlBufferSize
        loop := .absent
        stopReturned := false }
    phases := [] }

def step (c : LoopNode Value) : Label Value → Option (LoopNode Value)
  | .start succeeds => (c.shared.startStep succeeds).map fun s => { c with shared := s }
  | .ready => c.shared.readyStep.map fun s => { c with shared := s }
  | .loop label => (c.shared.loopStep label).map fun s => { c with shared := s }
  | .spawn => some (c.spawn .idle)
  | .request i request =>
    c.advance (fun
      | .idle => some (request.call, c.shared)
      | _ => none) i
  | .call i sends => c.advance (c.shared.callStep i sends) i
  | .cancel => some { c with shared := { c.shared with ctxDone := true } }

theorem request_eq_some {c d : LoopNode Value} {i} {request : NodeRequest Value}
    (hstep : c.step (.request i request) = some d) :
    c.phases[i]? = some .idle ∧ d = c.update i request.call c.shared := by
  obtain ⟨call, moved, shared, hi, hnext, rfl⟩ := Interleaving.Config.advance_eq_some hstep
  split at hnext
  · cases hnext
    exact ⟨hi, rfl⟩
  · cases hnext

theorem call_eq_some {c d : LoopNode Value} {i sends} (hstep : c.step (.call i sends) = some d) :
    ∃ call moved shared, c.phases[i]? = some call ∧
      c.shared.Calls i call moved shared ∧ d = c.update i moved shared := by
  obtain ⟨call, moved, shared, hi, hnext, rfl⟩ := Interleaving.Config.advance_eq_some hstep
  exact ⟨call, moved, shared, hi, NodeShared.calls_of_callStep hnext, rfl⟩

end LoopNode

end Voce.Engine
