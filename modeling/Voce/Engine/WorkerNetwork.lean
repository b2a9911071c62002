import Voce.Engine.HandlerSends
import Voce.Engine.WorkerShutdown
import Mathlib.Data.Fintype.EquivFin

/-! # Workflow on a pool of workers

The workers of a scheduler, the nodes that they serve and any number of other
goroutines that use the nodes. A worker that is in a callback performs the sends
of the callback itself: it submits tasks to the queues of the workers of the next
nodes, maybe to its own, and blocks there while the queue of a signal or payload
is full.
-/

namespace Voce.Engine

open Interleaving Function Transition

variable {size workers : Nat} {Value : Type}

/-- The tables of the nodes, and the worker that each node's name selects. -/
structure PoolLayout (size workers : Nat) where
  routes : Routes (Fin size)
  worker : Fin size → Fin workers

structure WorkerNetworkShared (size workers : Nat) (Value : Type) where
  pools : Fin workers → PoolShared Value
  handlers : Fin workers → HandlerPhase (Fin size) (PoolCall Value) Value

/-- A goroutine that is no worker, and the worker of the node that it uses. -/
structure PoolUser (workers : Nat) (Value : Type) where
  worker : Fin workers
  call : PoolCall Value

abbrev WorkerNetwork (size workers : Nat) (Value : Type) :=
  Config (WorkerNetworkShared size workers Value) (PoolUser workers Value)

def NodeRequest.poolCall {Value : Type} (request : NodeRequest Value) (node : Nat) :
    PoolCall Value :=
  match request with
  | .stop => (PoolRequest.stop node).call
  | .notify control => (PoolRequest.notify node control).call
  | .input kind value => (PoolRequest.input node kind value).call

namespace WorkerNetworkShared

variable (s : WorkerNetworkShared size workers Value)

def setPool (w : Fin workers) (pool : PoolShared Value) : WorkerNetworkShared size workers Value :=
  { s with pools := update s.pools w pool }

def setHandler (w : Fin workers) (phase : HandlerPhase (Fin size) (PoolCall Value) Value) :
    WorkerNetworkShared size workers Value :=
  { s with handlers := update s.handlers w phase }

section Updates

variable (s : WorkerNetworkShared size workers Value) {v w : Fin workers} (pool : PoolShared Value)
  (phase : HandlerPhase (Fin size) (PoolCall Value) Value)

@[simp] theorem setPool_handlers : (s.setPool w pool).handlers = s.handlers := rfl

@[simp] theorem setHandler_pools : (s.setHandler w phase).pools = s.pools := rfl

@[simp] theorem setPool_pools_self : (s.setPool w pool).pools w = pool := by
  simp [setPool]

@[simp] theorem setPool_setPool (other : PoolShared Value) :
    (s.setPool w pool).setPool w other = s.setPool w other := by
  simp [setPool]

theorem setPool_pools_of_ne (hv : v ≠ w) : (s.setPool w pool).pools v = s.pools v := by
  simp [setPool, hv]

@[simp] theorem setHandler_handlers_self : (s.setHandler w phase).handlers w = phase := by
  simp [setHandler]

theorem setHandler_handlers_of_ne (hv : v ≠ w) :
    (s.setHandler w phase).handlers v = s.handlers v := by
  simp [setHandler, hv]

end Updates

/-- A step of a worker outside the sends of its callbacks. A callback that it begins
performs these sends. -/
def workerStep (s : WorkerNetworkShared size workers Value) (w : Fin workers)
    (label : WorkerLabel) (sends : List (Send Value)) :
    Option (WorkerNetworkShared size workers Value) :=
  match s.handlers w with
  | .ready [] =>
    ((s.pools w).workerStep label).map fun pool =>
      (s.setPool w pool).setHandler w (.ready (if pool.worker.task.isSome then sends else []))
  | _ => none

def inputStep (layout : PoolLayout size workers) (s : WorkerNetworkShared size workers Value)
    (producer : Nat) (choice : Bool) (target : Fin size) (call : PoolCall Value) :
    Option (Option (PoolCall Value) × WorkerNetworkShared size workers Value) :=
  ((s.pools (layout.worker target)).callStep producer choice call).map fun moved =>
    (match moved.1 with
      | .idle => none
      | next => some next, s.setPool (layout.worker target) moved.2)

def handlerStep (layout : PoolLayout size workers) (s : WorkerNetworkShared size workers Value)
    (w : Fin workers) (choice : Bool) : Option (WorkerNetworkShared size workers Value) :=
  match (s.pools w).worker.task with
  | none => none
  | some task =>
    if hnode : task.node < size then
      (HandlerPhase.step layout.routes ⟨task.node, hnode⟩
        ((s.pools w).ctxDone = true ∨ ((s.pools w).nodes task.node).running = false)
        (fun target send => .inputCheck target send.kind send.value)
        (s.inputStep layout task.node choice) s (s.handlers w)).map fun moved =>
          moved.2.setHandler w moved.1
    else none

end WorkerNetworkShared

namespace WorkerNetwork

inductive Label (size workers : Nat) (Value : Type) where
  | start (i : Fin size) (succeeds : Bool)
  | ready (i : Fin size)
  | worker (w : Fin workers) (label : WorkerLabel) (sends : List (Send Value))
  | handler (w : Fin workers) (choice : Bool)
  | spawn (w : Fin workers)
  | request (k : Nat) (i : Fin size) (request : NodeRequest Value)
  | call (k : Nat) (choice : Bool)
  | cancel

def initial (queueSize : Int) : WorkerNetwork size workers Value :=
  { shared :=
      { pools := fun _ => (WorkerPool.initial queueSize).shared
        handlers := fun _ => .ready [] }
    phases := [] }

def step (layout : PoolLayout size workers) (c : WorkerNetwork size workers Value) :
    Label size workers Value → Option (WorkerNetwork size workers Value)
  | .start i succeeds =>
    let pool := c.shared.pools (layout.worker i)
    ((pool.nodes i).toBaseNode.startStep .returned succeeds).map fun n =>
      { c with
        shared := c.shared.setPool (layout.worker i)
          (pool.setNode i { pool.nodes i with toBaseNode := n }) }
  | .ready i =>
    let pool := c.shared.pools (layout.worker i)
    (pool.nodes i).toBaseNode.readyStep.map fun n =>
      { c with
        shared := c.shared.setPool (layout.worker i)
          (pool.setNode i { pool.nodes i with toBaseNode := n }) }
  | .worker w label sends => (c.shared.workerStep w label sends).map fun s => { c with shared := s }
  | .handler w choice => (c.shared.handlerStep layout w choice).map fun s => { c with shared := s }
  | .spawn w => some (c.spawn ⟨w, .idle⟩)
  | .request k i request =>
    c.advance (fun user =>
      match user.call with
      | .idle => some (⟨layout.worker i, request.poolCall i⟩, c.shared)
      | _ => none) k
  | .call k choice =>
    c.advance (fun user =>
      ((c.shared.pools user.worker).callStep (size + k) choice user.call).map fun moved =>
        (⟨user.worker, moved.1⟩, c.shared.setPool user.worker moved.2)) k
  | .cancel => some
      { c with shared :=
        { c.shared with pools := fun w => { c.shared.pools w with ctxDone := true } } }

end WorkerNetwork

/-! ## Deadlock -/

def PoolShared.HasTask {Value : Type} (s : PoolShared Value) : Prop :=
  s.worker.task.isSome ∨ ∃ priority, (s.queues priority).items ≠ []

namespace WorkerNetwork

def Running (layout : PoolLayout size workers) (c : WorkerNetwork size workers Value) : Prop :=
  ∀ i, (c.shared.pools (layout.worker i)).ctxDone = false ∧
    ((c.shared.pools (layout.worker i)).nodes i).running = true

/-- The worker is inside a signal or payload send, and stays there as long as the
context is not cancelled. -/
structure BlockedForever (layout : PoolLayout size workers) (c : WorkerNetwork size workers Value)
    (w : Fin workers) : Prop where
  inside : ∃ target call send targets rest,
    c.shared.handlers w = .input target call send targets rest ∧ ¬ send.kind.Media
  forever : ∀ labels d, .cancel ∉ labels →
    run (step layout) c labels = some d → d.shared.handlers w = c.shared.handlers w

/-- Some queue holds a task while every worker that has a task is blocked for ever. -/
structure Deadlocked (layout : PoolLayout size workers) (c : WorkerNetwork size workers Value) :
    Prop where
  queued : ∃ w priority, ((c.shared.pools w).queues priority).items ≠ []
  blocked : ∀ w, (c.shared.pools w).HasTask → BlockedForever layout c w

def DeadlockFree (layout : PoolLayout size workers) (queueSize : Int) (Value : Type) : Prop :=
  ∀ (labels : List (Label size workers Value)) (final : WorkerNetwork size workers Value),
    run (step layout) (initial queueSize) labels = some final →
    final.Running layout → ¬ final.Deadlocked layout

end WorkerNetwork

/-- A node of the first worker sends signals or payloads to a node of the second. -/
def PoolLayout.Waits {size workers : Nat} (layout : PoolLayout size workers)
    (w v : Fin workers) : Prop :=
  ∃ i j port kind, layout.worker i = w ∧ layout.worker j = v ∧ ¬ kind.Media ∧
    j ∈ layout.routes i port kind

end Voce.Engine
