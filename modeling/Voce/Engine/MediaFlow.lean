import Voce.Engine.NodeLoop
import Voce.Engine.Routing
import Voce.Engine.Track
import Voce.Foundation.Tally
import Voce.Schema.Media

/-! # Media on its way through a workflow

Audio and video pass from node to node by reference. A call that sends an object retains
it once for every receiver and hands each `Input` one reference, which ends in a queue or
is released. Node loops, workers and tracks take references out of their queues, call the
plugin and release them. Every goroutine is a stack of calls, and a step of the system
is one access to shared state by the call on top of one stack.

Plugins and the callers of the workflow are free to do what they like with references of
their own. They retain or send an object only while a reference of their own, or a
handler that received the object, guards it until the call returns, and they release only
references of their own.
-/

namespace Voce.Engine

open Custody Interleaving Schema Function

inductive QueueRef where
  /-- `audioChan` or `videoChan` of a node with a loop of its own. -/
  | node (n : NodeRef) (kind : MediaKind)
  /-- The media in `normalPriorityCh` of a worker, which holds payload tasks as well. -/
  | worker (idx : Nat)
  /-- `ch` of a track of a node's `MultiTrackPlugin`. -/
  | track (n : NodeRef) (kind : MediaKind)
  deriving DecidableEq

/-- An element of a queue: the node of a task, the epoch of a track's item. -/
structure MediaItem where
  node : NodeRef
  epoch : UInt32
  ref : Reference MediaRef
  deriving DecidableEq

inductive Address where
  | head
  | id (nodeID : String)
  | name (name : String)
  deriving DecidableEq

structure MediaGraph where
  mode : SchedulerMode
  nodes : List NodeRef
  head : String
  indexMap : String → Option NodeRef
  nameMap : String → Option NodeRef
  table : NodeRef → MediaKind → List NodeRef
  portTable : NodeRef → Nat → MediaKind → List NodeRef
  workerIdx : NodeRef → Nat
  /-- Buffer size and strategy of a track, if the node's plugin has one for the kind. -/
  track : NodeRef → MediaKind → Option (Nat × DropStrategy)

namespace MediaGraph

variable (g : MediaGraph)

def lookup : Address → Option NodeRef
  | .head => if g.head = "" then none else g.indexMap g.head
  | .id nodeID => g.indexMap nodeID
  | .name name => g.nameMap name

/-- The receivers of `SendAudio` and `SendVideo`, and of their variants for a port. -/
def targets (n : NodeRef) (port : Option Int) (kind : MediaKind) : List NodeRef :=
  match port with
  | none => g.table n kind
  | some port =>
    if port < 0 ∨ port ≥ maxPortCount then [] else g.portTable n port.toNat kind

def inputQueue (n : NodeRef) (kind : MediaKind) : QueueRef :=
  match g.mode with
  | .threadPerNode => .node n kind
  | .workerPool => .worker (g.workerIdx n)

def bufferSize : QueueRef → Nat
  | .node _ .audio => audioBufferSize
  | .node _ .video => videoBufferSize
  | .worker _ => schedulerQueueSize
  | .track n kind => ((g.track n kind).map Prod.fst).getD 0

/-- What a send does when the queue is full. `Input` and `SubmitToWorker` drop the new
item as `pushDropNewest` does. -/
def strategy : QueueRef → DropStrategy
  | .node _ _ | .worker _ => .dropNewest
  | .track n kind => ((g.track n kind).map Prod.snd).getD .blockIfFull

end MediaGraph

/-- A call, by its next access to shared state, with the references it has. -/
inductive MediaFrame where
  | loop (n : NodeRef)
  | drainNode (n : NodeRef)
  | worker (idx : Nat)
  | drainWorker (idx : Nat)
  | track (n : NodeRef) (kind : MediaKind)
  | drainTrack (n : NodeRef) (kind : MediaKind)
  /-- `track.readLoop` before `paused.Load()`. -/
  | received (kind : MediaKind) (item : MediaItem)
  /-- Before `epoch.Load()`. -/
  | unpaused (kind : MediaKind) (item : MediaItem)
  /-- Code of a plugin or of a caller of the workflow; a handler with the reference that
  its `processEvent` has for the object it received. -/
  | code (received : Option (Reference MediaRef))
  /-- `MultiTrackPlugin.OnAudio` and `OnVideo` before `Retain`. -/
  | onMedia (n : NodeRef) (r : Reference MediaRef)
  /-- `track.push` before `epoch.Load()`. -/
  | push (n : NodeRef) (r : Reference MediaRef)
  /-- `SendWithNonBlocking` or `SendWithContext` before the check of the context. -/
  | sendCheck (q : QueueRef) (item : MediaItem)
  | sendSelect (q : QueueRef) (item : MediaItem)
  /-- `pushDropOldest` after a blocked send. -/
  | evict (q : QueueRef) (item : MediaItem)
  | input (n : NodeRef) (r : Reference MediaRef)
  | inputRunning (n : NodeRef) (r : Reference MediaRef)
  /-- `SendAudio` and `SendVideo` before the check of the context. The reference is the
  one that guards the object. -/
  | fan (n : NodeRef) (targets : List NodeRef) (guard : Reference MediaRef)
  | fanRunning (n : NodeRef) (targets : List NodeRef) (guard : Reference MediaRef)
  /-- In the loop of `Retain` calls, with the references it got. -/
  | fanRetain (guard : Reference MediaRef) (targets : List NodeRef)
      (retained : List (NodeRef × Reference MediaRef))
  /-- In the loop of `Input` calls. -/
  | inputs (pending : List (NodeRef × Reference MediaRef))
  /-- The reference guards the call above it. -/
  | pin (guard : Reference MediaRef)
  | broadcast (r : Reference MediaRef)
  | broadcastTo (r : Reference MediaRef) (nodes : List NodeRef)
  /-- `SendToHead`, `SendToNode` and `SendToNodeWithName` before `ensureRunning`. -/
  | deliver (address : Address) (r : Reference MediaRef)
  | release (r : Reference MediaRef)
  deriving DecidableEq

structure MediaEngine where
  state : WorkflowState
  cancelled : Bool
  schedulerCancelled : Bool
  running : NodeRef → Bool
  paused : NodeRef → Bool
  epoch : NodeRef → MediaKind → UInt32
  queues : AList fun _ : QueueRef => Channel MediaItem
  owned : List (Reference MediaRef)
  media : Media

namespace MediaEngine

variable (g : MediaGraph) (s : MediaEngine)

/-- The context of a send is done. -/
def done : QueueRef → Bool
  | .worker _ => s.cancelled || s.schedulerCancelled
  | .node _ _ | .track _ _ => s.cancelled

/-- An unbuffered queue has room for the item that a receiver takes at once. -/
def queue (q : QueueRef) : Channel MediaItem :=
  (s.queues.lookup q).getD (.empty (max (g.bufferSize q) 1))

def setQueue (q : QueueRef) (queue : Channel MediaItem) : MediaEngine :=
  { s with queues := s.queues.insert q queue }

def receive? (s : MediaEngine) (q : QueueRef) : Option (MediaItem × MediaEngine) :=
  (s.queue g q).receive?.map fun taken => (taken.1, s.setQueue q taken.2)

/-- A send blocks. On an unbuffered queue it may, whether a receiver is there or not, and on the
queue of a worker for its other tasks. -/
def Full : QueueRef → Prop
  | .worker _ => True
  | q => g.bufferSize q ≤ (s.queue g q).items.length

instance : DecidablePred (s.Full g)
  | .worker _ => inferInstanceAs (Decidable True)
  | .node _ _ | .track _ _ => inferInstanceAs (Decidable (_ ≤ _))

end MediaEngine

inductive CodeAction where
  | create (kind : MediaKind) (recycled : Option Nat)
  | retain (guard : Reference MediaRef)
  | release (r : Reference MediaRef)
  | send (n : NodeRef) (port : Option Int) (guard : Reference MediaRef)
  | broadcast (r : Reference MediaRef)
  | deliver (address : Address) (r : Reference MediaRef)
  /-- Return, or panic in a handler that recovers. -/
  | done

/-- The case a `select` takes, or what code outside the engine does. -/
inductive MediaChoice where
  | proceed
  | take (kind : MediaKind)
  /-- A loop or worker runs a callback that receives no media. -/
  | callback
  | leave
  | done
  | send
  | blocked
  | act (action : CodeAction)

/-- What code outside the engine may rely on: a reference is there to guard an object, and
a reference guards a call that has not returned. -/
structure MediaGuards where
  available : Reference MediaRef → Bool
  pinned : Reference MediaRef → Bool

namespace MediaEngine

variable (g : MediaGraph) (s : MediaEngine)

/-- Code outside the engine retains an object or makes one. -/
def own (media : Media) (r : Reference MediaRef) : MediaEngine :=
  { s with media := media, owned := r :: s.owned }

/-- Code outside the engine gives a reference away. -/
def disown (r : Reference MediaRef) : MediaEngine :=
  { s with owned := s.owned.erase r }

variable (guards : MediaGuards)

/-- Give an own reference to a call. -/
def hand (r : Reference MediaRef) (frames : List MediaFrame)
    : Option (List MediaFrame × MediaEngine) :=
  if r ∈ s.owned ∧ guards.pinned r = false then some (frames, s.disown r) else none

def codeNext (received : Option (Reference MediaRef)) :
    CodeAction → Option (List MediaFrame × MediaEngine)
  | .create kind recycled =>
    let made := s.media.create kind recycled
    some ([.code received], s.own made.1 (s.media.nextReference made.2))
  | .retain r =>
    if guards.available r then
      some ([.code received], s.own (s.media.retain r.object) (s.media.nextReference r.object))
    else none
  | .release r => s.hand guards r [.release r, .code received]
  | .send n port r =>
    if guards.available r then
      some ([.fan n (g.targets n port r.object.kind) r, .pin r, .code received], s)
    else none
  | .broadcast r => s.hand guards r [.broadcast r, .code received]
  | .deliver address r => s.hand guards r [.deliver address r, .code received]
  | .done => if received.any guards.pinned then none else some ([], s)

/-- `processEvent` for media that a node's loop or its worker has taken. -/
def process (item : MediaItem) : List MediaFrame :=
  match g.track item.node item.ref.object.kind with
  | none => [.code (some item.ref), .release item.ref]
  | some _ => [.onMedia item.node item.ref, .release item.ref]

/-- The select of a send. The default case is taken only when no other case is ready, and
`SendWithContext` has none. -/
def selectNext (q : QueueRef) (item : MediaItem) :
    MediaChoice → Option (List MediaFrame × MediaEngine)
  | .done => if s.done q then some ([.release item.ref], s) else none
  | .send => ((s.queue g q).send? item).map fun queue => ([], s.setQueue q queue)
  | .blocked =>
    if s.done q = false ∧ s.Full g q then
      match g.strategy q with
      | .dropNewest => some ([.release item.ref], s)
      | .dropOldest => some ([.evict q item], s)
      | .blockIfFull => none
    else none
  | .proceed | .take _ | .callback | .leave | .act _ => none

/-- The loops that serve the queues, each with the loop that drains them. -/
def loopNext (choice : MediaChoice) : MediaFrame → Option (List MediaFrame × MediaEngine)
  | .loop n =>
    match choice with
    | .take kind => (s.receive? g (.node n kind)).map fun taken =>
      (process g taken.1 ++ [.loop n], taken.2)
    | .callback => some ([.code none, .loop n], s)
    | .leave => some ([.code none, .drainNode n],
        { s with running := update s.running n false })
    | _ => none
  | .drainNode n =>
    match choice with
    | .take kind => (s.receive? g (.node n kind)).map fun taken =>
      ([.release taken.1.ref, .drainNode n], taken.2)
    | .blocked =>
      if (s.queue g (.node n .audio)).items = [] ∧ (s.queue g (.node n .video)).items = []
      then some ([], s) else none
    | _ => none
  | .worker idx =>
    match choice with
    | .take _ => (s.receive? g (.worker idx)).map fun taken =>
      (process g taken.1 ++ [.worker idx], taken.2)
    | .callback => some ([.code none, .worker idx], s)
    | .leave => if s.done (.worker idx) then some ([.drainWorker idx], s) else none
    | _ => none
  | .drainWorker idx =>
    match choice with
    | .take _ => (s.receive? g (.worker idx)).map fun taken =>
      ([.release taken.1.ref, .drainWorker idx], taken.2)
    | .blocked => if (s.queue g (.worker idx)).items = [] then some ([], s) else none
    | _ => none
  | .track n kind =>
    match choice with
    | .take _ => (s.receive? g (.track n kind)).map fun taken =>
      ([.received kind taken.1, .track n kind], taken.2)
    | .leave => if s.cancelled then some ([.drainTrack n kind], s) else none
    | _ => none
  | .drainTrack n kind =>
    match choice with
    | .take _ => (s.receive? g (.track n kind)).map fun taken =>
      ([.release taken.1.ref, .drainTrack n kind], taken.2)
    | .blocked => if (s.queue g (.track n kind)).items = [] then some ([], s) else none
    | _ => none
  | _ => none

/-- The call on top of a stack takes its next step: the calls that take its place. -/
def frameNext (choice : MediaChoice) :
    MediaFrame → Option (List MediaFrame × MediaEngine)
  | .code received =>
    match choice with
    | .act action => s.codeNext g guards received action
    | _ => none
  | .received kind item =>
    if s.paused item.node then some ([.release item.ref], s)
    else some ([.unpaused kind item], s)
  | .unpaused kind item =>
    if item.epoch = s.epoch item.node kind then
      some ([.code (some item.ref), .release item.ref], s)
    else some ([.release item.ref], s)
  | .onMedia n r =>
    some ([.push n (s.media.nextReference r.object)],
      { s with media := s.media.retain r.object })
  | .push n r =>
    some ([.sendCheck (.track n r.object.kind) ⟨n, s.epoch n r.object.kind, r⟩], s)
  | .sendCheck q item =>
    if s.done q then some ([.release item.ref], s) else some ([.sendSelect q item], s)
  | .sendSelect q item => s.selectNext g q item choice
  | .evict q item =>
    match s.receive? g q with
    | some (dropped, t) => some ([.release dropped.ref, .sendCheck q item], t)
    | none => some ([.sendCheck q item], s)
  | .input n r =>
    if s.cancelled then some ([.release r], s) else some ([.inputRunning n r], s)
  | .inputRunning n r =>
    if s.running n then
      some ([.sendCheck (g.inputQueue n r.object.kind) ⟨n, 0, r⟩], s)
    else some ([.release r], s)
  | .fan n targets guard =>
    if targets = [] ∨ s.cancelled = true then some ([], s)
    else some ([.fanRunning n targets guard], s)
  | .fanRunning n targets guard =>
    if s.running n then some ([.fanRetain guard targets []], s) else some ([], s)
  | .fanRetain _ [] retained => some ([.inputs retained], s)
  | .fanRetain guard (target :: targets) retained =>
    some ([.fanRetain guard targets
        (retained ++ [(target, s.media.nextReference guard.object)])],
      { s with media := s.media.retain guard.object })
  | .inputs [] => some ([], s)
  | .inputs ((n, r) :: pending) => some ([.input n r, .inputs pending], s)
  | .pin _ => some ([], s)
  | .broadcast r =>
    if s.state = .running then some ([.broadcastTo r g.nodes], s)
    else some ([], { s with owned := r :: s.owned })
  | .broadcastTo r [] => some ([.release r], s)
  | .broadcastTo r (n :: nodes) =>
    some ([.input n (s.media.nextReference r.object), .broadcastTo r nodes],
      { s with media := s.media.retain r.object })
  | .deliver address r =>
    match s.state, g.lookup address with
    | .running, some n => some ([.input n r], s)
    | _, _ => some ([], { s with owned := r :: s.owned })
  | .release r => some ([], { s with media := s.media.release r })
  | frame => s.loopNext g choice frame

end MediaEngine

abbrev MediaSystem := Config MediaEngine (List MediaFrame)

namespace MediaSystem

variable (g : MediaGraph) (c : MediaSystem) (r : Reference MediaRef)

/-- A reference of code outside the engine, or one whose object a running handler got. -/
def Available : Prop :=
  r ∈ c.shared.owned ∨ ∃ stack ∈ c.phases, MediaFrame.code (some r) ∈ stack

/-- A call that the reference guards has not returned. -/
def Pinned : Prop :=
  ∃ stack ∈ c.phases, MediaFrame.pin r ∈ stack

instance : Decidable (c.Available r) :=
  inferInstanceAs (Decidable (_ ∨ _))

instance : Decidable (c.Pinned r) :=
  inferInstanceAs (Decidable (∃ stack ∈ c.phases, _))

def guards : MediaGuards :=
  ⟨fun r => decide (c.Available r), fun r => decide (c.Pinned r)⟩

/-- A goroutine that the engine, a plugin or a caller of the workflow starts. -/
inductive MediaGoroutine where
  | loop (n : NodeRef)
  | worker (idx : Nat)
  | track (n : NodeRef) (kind : MediaKind)
  | code

def MediaGoroutine.frame : MediaGoroutine → MediaFrame
  | .loop n => .loop n
  | .worker idx => .worker idx
  | .track n kind => .track n kind
  | .code => .code none

/-- The call on top of a stack takes a step, a goroutine starts, an object gets into its
pool or leaves it, or a lifecycle call, a pause or an interrupt changes what it owns. -/
inductive Label where
  | call (i : Nat) (choice : MediaChoice)
  | go (goroutine : MediaGoroutine)
  | recycle (o : MediaRef)
  | collect (o : MediaRef)
  | setState (state : WorkflowState)
  | setRunning (n : NodeRef) (running : Bool)
  | setPaused (n : NodeRef) (paused : Bool)
  | interrupt (n : NodeRef) (kind : MediaKind)
  | cancel
  | stopScheduler

def stackNext (choice : MediaChoice) : List MediaFrame → Option (List MediaFrame × MediaEngine)
  | [] => none
  | frame :: rest => (c.shared.frameNext g c.guards choice frame).map fun next =>
    (next.1 ++ rest, next.2)

/-- The steps that no call takes. Every lifecycle call changes the flags in some order. -/
def environmentNext (s : MediaEngine) : Label → Option MediaEngine
  | .recycle o =>
    if o ∈ s.media.recycling then some { s with media := s.media.recycle o } else none
  | .collect o => some { s with media := s.media.collect o }
  | .setState state => some { s with state := state }
  | .setRunning n running => some { s with running := update s.running n running }
  | .setPaused n paused => some { s with paused := update s.paused n paused }
  | .interrupt n kind =>
    some { s with epoch := fun n' kind' =>
      if n' = n ∧ kind' = kind then s.epoch n' kind' + 1 else s.epoch n' kind' }
  | .cancel => some { s with cancelled := true }
  | .stopScheduler => some { s with schedulerCancelled := true }
  | .call _ _ | .go _ => none

def step (label : Label) : Option MediaSystem :=
  match label with
  | .call i choice => c.advance (c.stackNext g choice) i
  | .go goroutine => some (c.spawn [goroutine.frame])
  | .recycle _ | .collect _ | .setState _ | .setRunning _ _ | .setPaused _ _ | .interrupt _ _
  | .cancel | .stopScheduler =>
    (environmentNext c.shared label).map fun shared => { c with shared := shared }

def initial : MediaSystem where
  shared :=
    { state := .pending
      cancelled := false
      schedulerCancelled := false
      running := fun _ => false
      paused := fun _ => false
      epoch := fun _ _ => 0
      queues := ∅
      owned := []
      media := .empty }
  phases := []

end MediaSystem

end Voce.Engine
