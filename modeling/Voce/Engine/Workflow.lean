import Voce.Foundation.FiniteMap
import Voce.Engine.WorkflowState
import Voce.Foundation.Channel

/-! # Workflow

A workflow runs the nodes of a graph under one context, in one of two scheduler
modes: every node has its own loop and audio channel, or nodes submit tasks to
the queues of a shared pool of workers. The lifecycle calls are given here as
they run without interference.
-/

namespace Voce.Engine

def audioBufferSize : Nat := 64
def schedulerQueueSize : Nat := 128

inductive SchedulerMode where
  | threadPerNode
  | workerPool
  deriving DecidableEq

/-- A node with what its plugin's `OnStart` answers. In worker-pool mode
`workerIdx` names its worker, otherwise audio goes to its own channel. -/
structure Node where
  name : String
  startError : Option String
  workerIdx : Nat
  running : Bool
  audioChan : Channel (List UInt8)

/-- The worker pool: whether its context has been cancelled, and each worker's
queue of normal priority, as tasks of a node and its audio. -/
structure Scheduler where
  cancelled : Bool
  workers : List (Channel (Nat × List UInt8))

def Scheduler.stop (s : Scheduler) : Scheduler := { s with cancelled := true }

structure Workflow where
  head : String
  indexMap : AList fun _ : String => Nat
  nameMap : AList fun _ : String => Nat
  /-- The context the workflow was created under is done. -/
  parentDone : Bool
  cancelled : Bool
  nodes : List Node
  outputClosed : Bool
  state : WorkflowState
  scheduler : Option Scheduler
  /-- Indices of the nodes that were stopped while running, in order. -/
  stops : List Nat

namespace Workflow

variable (w : Workflow)

/-- `w.ctx.Err() != nil`. -/
def done : Bool := w.parentDone || w.cancelled

variable (i : Nat)

def setNode (node : Node) : Workflow :=
  { w with nodes := w.nodes.set i node }

/-- `Node.Stop` in either mode: a node that does not run is left alone. -/
def stopNode : Workflow :=
  match w.nodes[i]? with
  | none => w
  | some node =>
    if node.running then
      { w.setNode i { node with running := false } with stops := w.stops ++ [i] }
    else w

/-! ## Construction -/

/-- 32-bit FNV-1a. -/
def fnv32a (bytes : List UInt8) : UInt32 :=
  bytes.foldl (fun hash byte => (hash ^^^ byte.toUInt32) * 16777619) 2166136261

def selector (workerCount : Nat) (nodeName : String) : Nat :=
  (fnv32a nodeName.toUTF8.toList).toNat % workerCount

/-- What a builder answers for a node: the plugin, given by what its `OnStart`
returns, or a build error. -/
abbrev BuildResult := Except String (Option String)

structure NodeConfig where
  id : String
  name : String
  plugin : String
  builder : Option BuildResult

structure EdgeConfig where
  source : String
  target : String

/-- The number of workers of a pool for so many nodes. -/
def workerCount (configured : Int) (nodeCount : Nat) : Nat :=
  let workers := if configured < 1 ∨ configured > nodeCount then (nodeCount + 3) / 4
    else configured.toNat
  if workers ≤ 0 then 1 else workers

def newScheduler (workers : Nat) : Scheduler :=
  ⟨false, List.replicate workers (.empty schedulerQueueSize)⟩

/-- `newLoopNode`, or `newSchedulerNode` if there is a worker pool. -/
def newNode (scheduler : Option Scheduler) (name : String) (startError : Option String) : Node where
  name := name
  startError := startError
  workerIdx := match scheduler with
    | none => 0
    | some s => selector s.workers.length name
  running := false
  audioChan := .empty audioBufferSize

def initNodes (w : Workflow) : List NodeConfig → Except String Workflow
  | [] => .ok w
  | cfg :: rest =>
    if (w.indexMap.lookup cfg.id).isSome then
      .error ("duplicate node ID found: " ++ cfg.id)
    else if (w.nameMap.lookup cfg.name).isSome then
      .error ("duplicate node Name found: " ++ cfg.name)
    else
      match cfg.builder with
      | none => .error ("plugin builder not provided for node: " ++ cfg.id)
      | some (.error error) => .error ("failed to build plugin " ++ cfg.plugin ++ " (node " ++
          cfg.id ++ "): " ++ error)
      | some (.ok startError) =>
        { w with
          nodes := w.nodes ++ [newNode w.scheduler cfg.name startError]
          indexMap := w.indexMap.insert cfg.id w.nodes.length
          nameMap := w.nameMap.insert cfg.name w.nodes.length }.initNodes rest

theorem initNodes_cons {w w' : Workflow} {cfg rest} (hinit : w.initNodes (cfg :: rest) = .ok w') :
    cfg.id ∉ w.indexMap ∧ cfg.name ∉ w.nameMap ∧ ∃ startError,
      cfg.builder = some (.ok startError) ∧
      { w with
        nodes := w.nodes ++ [newNode w.scheduler cfg.name startError]
        indexMap := w.indexMap.insert cfg.id w.nodes.length
        nameMap := w.nameMap.insert cfg.name w.nodes.length }.initNodes rest = .ok w' := by
  rw [← AList.lookup_isSome, ← AList.lookup_isSome]
  unfold initNodes at hinit
  split at hinit
  · cases hinit
  next hid =>
    split at hinit
    · cases hinit
    next hname =>
      split at hinit
      · cases hinit
      · cases hinit
      next startError hbuilder => exact ⟨hid, hname, startError, hbuilder, hinit⟩

/-- Every edge must join known nodes. The routing tables it fills are not
modelled here. -/
def wireNodes (w : Workflow) : List EdgeConfig → Except String Unit
  | [] => .ok ()
  | edge :: rest =>
    if (w.indexMap.lookup edge.source).isNone then
      .error ("edge source node not found: " ++ edge.source)
    else if (w.indexMap.lookup edge.target).isNone then
      .error ("edge target node not found: " ++ edge.target)
    else w.wireNodes rest

structure GraphConfig where
  head : String
  mode : SchedulerMode
  schedulerWorkers : Int
  nodes : List NodeConfig
  edges : List EdgeConfig

def newWorkflow (parentDone : Bool) (graph : GraphConfig) : Except String Workflow :=
  let scheduler := match graph.mode with
    | .threadPerNode => none
    | .workerPool =>
      some (newScheduler (workerCount graph.schedulerWorkers graph.nodes.length))
  let blank : Workflow :=
    { head := graph.head, indexMap := ∅, nameMap := ∅, parentDone := parentDone,
      cancelled := false, nodes := [], outputClosed := false, state := .pending,
      scheduler := scheduler, stops := [] }
  match blank.initNodes graph.nodes with
  | .error error => .error error
  | .ok w =>
    match w.wireNodes graph.edges with
    | .error error => .error error
    | .ok () => .ok w

/-! ## Start and stop -/

/-- Stop the first nodes again, last one first. -/
def clearStartError (w : Workflow) : Nat → Workflow
  | 0 => w
  | i + 1 => (w.stopNode i).clearStartError i

/-- The loop of `Start` from node `i` on, with so many nodes left. -/
def startNodes (w : Workflow) (i : Nat) : Nat → Workflow × Except String Unit
  | 0 => ({ w with state := .running }, .ok ())
  | left + 1 =>
    match w.nodes[i]? with
    | none => ({ w with state := .running }, .ok ())
    | some node =>
      match node.startError with
      -- neither the context nor the output is given back on this path
      | some error => ({ w.clearStartError i with state := .stopped },
          .error ("failed to start node " ++ node.name ++ ": " ++ error))
      | none => (w.setNode i { node with running := true }).startNodes (i + 1) left

def start (w : Workflow) : Workflow × Except String Unit :=
  match w.state.start with
  | .error error => (w, .error error)
  | .ok state => { w with state := state }.startNodes 0 w.nodes.length

def stopNodes (w : Workflow) (i : Nat) : Nat → Workflow
  | 0 => w
  | left + 1 => (w.stopNode i).stopNodes (i + 1) left

/-- A workflow that is already stopped is left as it is. -/
def stop (w : Workflow) : Workflow :=
  if w.state = .stopped then w
  else
    let cancelled := { w with
      state := .stopped
      cancelled := true
      scheduler := w.scheduler.map Scheduler.stop }
    { cancelled.stopNodes 0 w.nodes.length with outputClosed := true }

theorem stopNode_state : (w.stopNode i).state = w.state := by
  unfold stopNode
  split
  · rfl
  · split
    · rfl
    · rfl

theorem stopNodes_state (left : Nat) : (w.stopNodes i left).state = w.state := by
  induction left generalizing w i with
  | zero => rfl
  | succ left ih => exact (ih (w.stopNode i) (i + 1)).trans (w.stopNode_state i)

theorem stop_state : w.stop.state = .stopped := by
  unfold stop
  split
  next hstopped => exact hstopped
  · exact stopNodes_state _ _ _

/-! ## Pause, resume and input -/

def pause (w : Workflow) : Except String Workflow :=
  w.state.pause.map fun state => { w with state := state }

def resume (w : Workflow) : Except String Workflow :=
  w.state.resume.map fun state => { w with state := state }

def ensureRunning : Except String Unit :=
  if w.state = .running then .ok ()
  else .error ("workflow is not running (state: " ++ toString w.state.code ++ ")")

/-- `Node.Input` of audio. It is dropped when the context is done, the node does
not run, or its queue is full. -/
def inputAudio (payload : List UInt8) : Workflow :=
  match w.nodes[i]? with
  | none => w
  | some node =>
    if w.done || !node.running then w
    else
      match w.scheduler with
      | none => w.setNode i { node with audioChan := node.audioChan.offer payload }
      | some s =>
        -- the submit runs under the scheduler's own context
        if s.cancelled then w
        else
          { w with scheduler := some { s with
              workers := s.workers.modify node.workerIdx (·.offer (i, payload)) } }

def deliverTo (nodeID : String) (payload : List UInt8) : Except String Workflow :=
  match w.indexMap.lookup nodeID with
  | none => .error ("node ID " ++ nodeID ++ " not found in workflow")
  | some i => .ok (w.inputAudio i payload)

def sendToHead (payload : List UInt8) : Except String Workflow :=
  match w.ensureRunning with
  | .error error => .error error
  | .ok () =>
    if w.head = "" then .error "this workflow has no strictly defined head node"
    else w.deliverTo w.head payload

def queuedAudio : List (List UInt8) :=
  match w.scheduler, w.nodes[i]? with
  | _, none => []
  | none, some node => node.audioChan.items
  | some s, some node =>
    match s.workers[node.workerIdx]? with
    | none => []
    | some queue => (queue.items.filter fun task => task.1 = i).map Prod.snd

def headAudio : Option (List (List UInt8)) :=
  (w.indexMap.lookup w.head).map w.queuedAudio

end Workflow

end Voce.Engine
