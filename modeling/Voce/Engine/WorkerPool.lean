import Voce.Engine.NodeLoop

/-! # Worker of the pool

In worker-pool mode a node has no goroutine of its own. Its events and controls
are tasks in the two queues of the worker its name selects, and the worker calls
the plugin. `OnStart`, `OnReady` and `OnStop` are called by the goroutines that
call `Start`, `Ready` and `Stop`. The model is one worker, the nodes it serves
and any number of goroutines that use these nodes.
-/

namespace Voce.Engine

open Option Function

variable {Value : Type}

inductive Priority where
  | high
  | normal
  deriving DecidableEq

/-- The queue of a kind of events. -/
def EventKind.priority : EventKind → Priority
  | .signal => .high
  | .payload | .audio | .video => .normal

inductive Task (Value : Type) where
  | event (node : Nat) (kind : EventKind) (event : SentEvent Value)
  | control (node : Nat) (control : ControlType)
  deriving DecidableEq

namespace Task

def node : Task Value → Nat
  | .event node _ _ | .control node _ => node

def callback : Task Value → Callback
  | .event _ kind _ => .onEvent kind
  | .control _ type => type.callback

/-- The task is an event of this kind from this producer to this node. -/
def Carries (task : Task Value) (producer node : Nat) (kind : EventKind) : Prop :=
  match task with
  | .event other otherKind sent => other = node ∧ otherKind = kind ∧ sent.producer = producer
  | .control _ _ => False

instance (producer node : Nat) (kind : EventKind) :
    ∀ task : Task Value, Decidable (task.Carries producer node kind) := by
  intro task
  unfold Carries
  split <;> infer_instance

end Task

inductive WorkerPhase (Value : Type) where
  | outer
  | inner
  | executing (task : Task Value)
  | draining
  | exited
  deriving DecidableEq

/-- Whether `OnStop` of a node's plugin was called. -/
inductive StopCallback where
  | notCalled
  | running
  | returned
  deriving DecidableEq

structure PoolNode extends BaseNode where
  stop : StopCallback

structure PoolShared (Value : Type) where
  ctxDone : Bool
  /-- The queues. Offered are the tasks of the calls that found their node running
  and are done with their send, handled those the worker has begun to execute. -/
  queues : Priority → Mailbox (Task Value)
  worker : WorkerPhase Value
  nodes : Nat → PoolNode

inductive PoolCall (Value : Type) where
  | idle
  /-- `Stop` before `running.Swap(false)`. -/
  | stopSwap (node : Nat)
  /-- `Stop` before the call of `OnStop`. -/
  | stopCall (node : Nat)
  | onStop (node : Nat)
  /-- `Pause` or `Resume` before `running.Load()`. -/
  | controlCheck (node : Nat) (control : ControlType)
  /-- `Input` before its check of the context and the running flag. -/
  | inputCheck (node : Nat) (kind : EventKind) (value : Value)
  /-- In `SendWithContext` or `SendWithNonBlocking`, before `ctx.Err()`. -/
  | submitErr (task : Task Value)
  | submitSelect (task : Task Value)
  deriving DecidableEq

inductive PoolRequest (Value : Type) where
  | stop (node : Nat)
  | notify (node : Nat) (control : ControlType)
  | input (node : Nat) (kind : EventKind) (value : Value)

def PoolRequest.call {Value : Type} : PoolRequest Value → PoolCall Value
  | .stop node => .stopSwap node
  | .notify node control => .controlCheck node control
  | .input node kind value => .inputCheck node kind value

inductive WorkerLabel where
  | proceed
  | done
  | task (priority : Priority)

/-- The queue and the way of the send: audio and video are dropped when the queue
is full, everything else blocks. -/
def Task.priority {Value : Type} : Task Value → Priority
  | .event _ kind _ => kind.priority
  | .control _ _ => .high

def Task.Media {Value : Type} : Task Value → Prop
  | .event _ kind _ => kind.Media
  | .control _ _ => False

instance {Value : Type} : ∀ task : Task Value, Decidable task.Media
  | .event _ kind _ => inferInstanceAs (Decidable kind.Media)
  | .control _ _ => .isFalse id

namespace PoolNode

def observe (n : PoolNode) (observation : Observation) : PoolNode :=
  { n with toBaseNode := n.toBaseNode.observe observation }

end PoolNode

namespace PoolShared

variable (s : PoolShared Value)

def setNode (i : Nat) (n : PoolNode) : PoolShared Value :=
  { s with nodes := update s.nodes i n }

def receiveTask (priority : Priority) : Option (PoolShared Value) :=
  (s.queues priority).receive?.map fun received =>
    { s with
      queues := update s.queues priority received.2
      worker := .executing received.1 }.setNode received.1.node
        ((s.nodes received.1.node).observe (.enter received.1.callback))

def drainTask (priority : Priority) : Option (PoolShared Value) :=
  (s.queues priority).drain?.map fun mailbox =>
    { s with queues := update s.queues priority mailbox }

def workerStep : WorkerLabel → Option (PoolShared Value)
  | .proceed =>
    match s.worker with
    | .outer =>
      if s.ctxDone = false ∧ (s.queues .high).items = [] then some { s with worker := .inner }
      else none
    | .executing task =>
      some ({ s with worker := .outer }.setNode task.node
        ((s.nodes task.node).observe (.leave task.callback)))
    | .draining =>
      if (s.queues .high).items = [] ∧ (s.queues .normal).items = [] then
        some { s with worker := .exited }
      else none
    | .inner | .exited => none
  | .done =>
    match s.worker with
    | .outer | .inner => if s.ctxDone then some { s with worker := .draining } else none
    | _ => none
  | .task priority =>
    match s.worker, priority with
    | .outer, .high => s.receiveTask .high
    -- a cancelled context does not close this branch of the inner select
    | .inner, priority => s.receiveTask priority
    | .draining, priority => s.drainTask priority
    | _, _ => none

def lose (s : PoolShared Value) (task : Task Value) : PoolShared Value :=
  { s with
    queues := update s.queues task.priority ((s.queues task.priority).lose task) }

/-- The next step of a goroutine. The choice is between the branches of a select:
the send, or what the select does otherwise. -/
def callStep (producer : Nat) (sends : Bool) :
    PoolCall Value → Option (PoolCall Value × PoolShared Value)
  | .idle => none
  | .stopSwap node =>
    if (s.nodes node).running then
      some (.stopCall node, s.setNode node { s.nodes node with running := false })
    else some (.idle, s)
  | .stopCall node =>
    some (.onStop node,
      s.setNode node ({ s.nodes node with stop := .running }.observe (.enter .onStop)))
  | .onStop node =>
    some (.idle,
      s.setNode node ({ s.nodes node with stop := .returned }.observe (.leave .onStop)))
  | .controlCheck node control =>
    some (if (s.nodes node).running then .submitErr (.control node control) else .idle, s)
  | .inputCheck node kind value =>
    some (if s.ctxDone = true ∨ (s.nodes node).running = false then .idle
      else .submitErr (.event node kind ⟨producer, value⟩), s)
  | .submitErr task =>
    if s.ctxDone then some (.idle, s.lose task) else some (.submitSelect task, s)
  | .submitSelect task =>
    match sends, (s.queues task.priority).send? task with
    | true, some mailbox =>
      some (.idle, { s with queues := update s.queues task.priority mailbox })
    | true, none => none
    | false, sent =>
      if s.ctxDone = true ∨ task.Media ∧ sent.isNone then some (.idle, s.lose task)
      else none

inductive Works (s : PoolShared Value) : PoolShared Value → Prop where
  | leave (hphase : s.worker = .outer ∨ s.worker = .inner) (hdone : s.ctxDone = true) :
      Works s { s with worker := .draining }
  | wait (hphase : s.worker = .outer) (hlive : s.ctxDone = false)
      (hempty : (s.queues .high).items = []) : Works s { s with worker := .inner }
  | receive (priority : Priority) (task : Task Value) (mailbox : Mailbox (Task Value))
      (hphase : s.worker = .outer ∧ priority = .high ∨ s.worker = .inner)
      (hreceive : (s.queues priority).receive? = some (task, mailbox)) :
      Works s
        ({ s with
          queues := update s.queues priority mailbox
          worker := .executing task }.setNode task.node
            ((s.nodes task.node).observe (.enter task.callback)))
  | finish (task : Task Value) (hphase : s.worker = .executing task) :
      Works s
        ({ s with worker := .outer }.setNode task.node
          ((s.nodes task.node).observe (.leave task.callback)))
  | drain (priority : Priority) (mailbox : Mailbox (Task Value)) (hphase : s.worker = .draining)
      (hdrain : (s.queues priority).drain? = some mailbox) :
      Works s { s with queues := update s.queues priority mailbox }
  | exit (hphase : s.worker = .draining) : Works s { s with worker := .exited }

variable {s next : PoolShared Value}

theorem works_of_receiveTask {priority}
    (hphase : s.worker = .outer ∧ priority = .high ∨ s.worker = .inner)
    (hstep : s.receiveTask priority = some next) : s.Works next := by
  obtain ⟨⟨task, mailbox⟩, hreceive, rfl⟩ := map_eq_some_iff.mp hstep
  exact .receive priority task mailbox hphase hreceive

theorem works_of_workerStep {label} (hstep : s.workerStep label = some next) : s.Works next := by
  cases label with
  | proceed =>
    simp only [workerStep] at hstep
    split at hstep
    next hphase =>
      obtain ⟨⟨hlive, hempty⟩, hnext⟩ := ite_none_right_eq_some.mp hstep
      cases hnext
      exact .wait hphase hlive hempty
    next task hphase =>
      cases hstep
      exact .finish task hphase
    next hphase =>
      obtain ⟨-, hnext⟩ := ite_none_right_eq_some.mp hstep
      cases hnext
      exact .exit hphase
    · cases hstep
    · cases hstep
  | done =>
    simp only [workerStep] at hstep
    split at hstep
    next hphase =>
      obtain ⟨hdone, hnext⟩ := ite_none_right_eq_some.mp hstep
      cases hnext
      exact .leave (.inl hphase) hdone
    next hphase =>
      obtain ⟨hdone, hnext⟩ := ite_none_right_eq_some.mp hstep
      cases hnext
      exact .leave (.inr hphase) hdone
    · cases hstep
  | task priority =>
    simp only [workerStep] at hstep
    split at hstep
    next hphase => exact works_of_receiveTask (.inl ⟨hphase, rfl⟩) hstep
    next hphase => exact works_of_receiveTask (.inr hphase) hstep
    next hphase =>
      obtain ⟨mailbox, hdrain, rfl⟩ := map_eq_some_iff.mp hstep
      exact .drain _ mailbox hphase hdrain
    · cases hstep

inductive Calls (s : PoolShared Value) (sends : Bool) :
    PoolCall Value → PoolCall Value → PoolShared Value → Prop where
  | swap (node : Nat) (hrunning : (s.nodes node).running = true) :
      Calls s sends (.stopSwap node) (.stopCall node)
        (s.setNode node { s.nodes node with running := false })
  | callStop (node : Nat) :
      Calls s sends (.stopCall node) (.onStop node)
        (s.setNode node ({ s.nodes node with stop := .running }.observe (.enter .onStop)))
  | stopReturns (node : Nat) :
      Calls s sends (.onStop node) .idle
        (s.setNode node ({ s.nodes node with stop := .returned }.observe (.leave .onStop)))
  | submit (call : PoolCall Value) (task : Task Value)
      (hrunning : (s.nodes task.node).running = true) : Calls s sends call (.submitErr task) s
  | check (task : Task Value) (hlive : s.ctxDone = false) :
      Calls s sends (.submitErr task) (.submitSelect task) s
  | send (task : Task Value) (mailbox : Mailbox (Task Value))
      (hsend : (s.queues task.priority).send? task = some mailbox) (hsends : sends = true) :
      Calls s sends (.submitSelect task) .idle
        { s with queues := update s.queues task.priority mailbox }
  /-- The context is cancelled, or the queue of a media event is full. -/
  | drop (task : Task Value) (call : PoolCall Value) (hlost : s.ctxDone = true ∨ task.Media) :
      Calls s sends call .idle (s.lose task)
  | skip (call : PoolCall Value) : Calls s sends call .idle s

theorem calls_of_callStep {producer sends call moved}
    (hstep : s.callStep producer sends call = some (moved, next)) :
    s.Calls sends call moved next := by
  cases call with
  | idle => cases hstep
  | stopSwap node =>
    simp only [callStep] at hstep
    split at hstep
    next hrunning =>
      cases hstep
      exact .swap node hrunning
    · cases hstep
      exact .skip _
  | stopCall node =>
    cases hstep
    exact .callStop node
  | onStop node =>
    cases hstep
    exact .stopReturns node
  | controlCheck node control =>
    cases hstep
    split
    next hrunning => exact .submit _ (.control node control) hrunning
    · exact .skip _
  | inputCheck node kind value =>
    cases hstep
    split
    · exact .skip _
    next hlive =>
      rw [not_or, Bool.not_eq_false] at hlive
      exact .submit _ (.event node kind ⟨producer, value⟩) hlive.2
  | submitErr task =>
    simp only [callStep] at hstep
    split at hstep
    next hdone =>
      cases hstep
      exact .drop task _ (.inl hdone)
    next hlive =>
      cases hstep
      exact .check task (Bool.not_eq_true _ ▸ hlive)
  | submitSelect task =>
    simp only [callStep] at hstep
    split at hstep
    next mailbox hsend =>
      cases hstep
      exact .send task mailbox hsend rfl
    · cases hstep
    · obtain ⟨hlost, heq⟩ := ite_none_right_eq_some.mp hstep
      cases heq
      exact .drop task _ (hlost.imp id And.left)

end PoolShared

abbrev WorkerPool (Value : Type) := Interleaving.Config (PoolShared Value) (PoolCall Value)

namespace WorkerPool

inductive Label (Value : Type) where
  | start (node : Nat) (succeeds : Bool)
  | ready (node : Nat)
  | worker (label : WorkerLabel)
  | spawn
  | request (i : Nat) (request : PoolRequest Value)
  | call (i : Nat) (sends : Bool)
  | cancel

/-- The capacity of both queues, as `NewScheduler` corrects it. -/
def queueCapacity (queueSize : Int) : Nat := if queueSize ≤ 0 then 100 else queueSize.toNat

def initial (queueSize : Int) : WorkerPool Value :=
  { shared :=
      { ctxDone := false
        queues := fun _ => .empty (queueCapacity queueSize)
        worker := .outer
        nodes := fun _ => { BaseNode.initial with stop := .notCalled } }
    phases := [] }

def step (c : WorkerPool Value) : Label Value → Option (WorkerPool Value)
  | .start node succeeds =>
    ((c.shared.nodes node).toBaseNode.startStep .returned succeeds).map fun n =>
      { c with shared := c.shared.setNode node { c.shared.nodes node with toBaseNode := n } }
  | .ready node =>
    (c.shared.nodes node).toBaseNode.readyStep.map fun n =>
      { c with shared := c.shared.setNode node { c.shared.nodes node with toBaseNode := n } }
  | .worker label => (c.shared.workerStep label).map fun s => { c with shared := s }
  | .spawn => some (c.spawn .idle)
  | .request i request =>
    c.advance (fun
      | .idle => some (request.call, c.shared)
      | _ => none) i
  | .call i sends => c.advance (c.shared.callStep i sends) i
  | .cancel => some { c with shared := { c.shared with ctxDone := true } }

theorem request_eq_some {c d : WorkerPool Value} {i} {request : PoolRequest Value}
    (hstep : c.step (.request i request) = some d) :
    c.phases[i]? = some .idle ∧ d = c.update i request.call c.shared := by
  obtain ⟨call, moved, shared, hi, hnext, rfl⟩ := Interleaving.Config.advance_eq_some hstep
  split at hnext
  · cases hnext
    exact ⟨hi, rfl⟩
  · cases hnext

theorem call_eq_some {c d : WorkerPool Value} {i sends} (hstep : c.step (.call i sends) = some d) :
    ∃ call moved shared, c.phases[i]? = some call ∧
      c.shared.Calls sends call moved shared ∧ d = c.update i moved shared := by
  obtain ⟨call, moved, shared, hi, hnext, rfl⟩ := Interleaving.Config.advance_eq_some hstep
  exact ⟨call, moved, shared, hi, PoolShared.calls_of_callStep hnext, rfl⟩

end WorkerPool

end Voce.Engine
