import Voce.Engine.GraphOrder
import Voce.Engine.PluginTrace

/-! # Routing between nodes

`NewWorkflow` folds the edges of a graph into the route tables of the nodes, one table
for broadcasts and one for each port. A send calls `Input` on the nodes of a table. An
edge whose port has no table is left out without an error.
-/

namespace Voce.Engine

abbrev NodeRef := Nat

def maxPortCount : Nat := 12

def EventKind.type : EventKind → EventType
  | .signal => .signal
  | .payload => .payload
  | .audio => .audio
  | .video => .video

structure RouteTable where
  signals : List NodeRef
  payloads : List NodeRef
  audios : List NodeRef
  videos : List NodeRef

def addRoute (nodes : List NodeRef) (next : NodeRef) : List NodeRef :=
  if next ∈ nodes then nodes else nodes ++ [next]

namespace RouteTable

def empty : RouteTable := ⟨[], [], [], []⟩

def nodes (t : RouteTable) : EventKind → List NodeRef
  | .signal => t.signals
  | .payload => t.payloads
  | .audio => t.audios
  | .video => t.videos

def add (t : RouteTable) (event : EventType) (next : NodeRef) : RouteTable :=
  match event with
  | .signal => { t with signals := addRoute t.signals next }
  | .payload => { t with payloads := addRoute t.payloads next }
  | .audio => { t with audios := addRoute t.audios next }
  | .video => { t with videos := addRoute t.videos next }
  | .unknown _ => t

end RouteTable

structure NodeRoutes where
  table : RouteTable
  portTable : Nat → RouteTable

namespace NodeRoutes

def empty : NodeRoutes := ⟨.empty, fun _ => .empty⟩

def NoPort (port : Int) : Prop := port < 0 ∨ port ≥ maxPortCount

instance (port : Int) : Decidable (NoPort port) := inferInstanceAs (Decidable (_ ∨ _))

def addNextNode (r : NodeRoutes) (event : EventType) (next : NodeRef) : NodeRoutes :=
  { r with table := r.table.add event next }

def addNextPortNode (r : NodeRoutes) (event : EventType) (next : NodeRef) (port : Int) :
    NodeRoutes :=
  if NoPort port then r
  else
    { table := r.table.add event next
      portTable := Function.update r.portTable port.toNat
        ((r.portTable port.toNat).add event next) }

/-! ## Sends

A send is given by the nodes whose `Input` it calls, in order. -/

section

variable (r : NodeRoutes) (done running : Bool)

/-- Nothing is sent without receivers, with the context done or by a node that does not
run. -/
def send (kind : EventKind) : List NodeRef :=
  if r.table.nodes kind = [] ∨ done = true ∨ running = false then [] else r.table.nodes kind

def sendToPort (kind : EventKind) (port : Int) : List NodeRef :=
  if NoPort port ∨ (r.portTable port.toNat).nodes kind = [] ∨ done = true ∨ running = false then []
  else (r.portTable port.toNat).nodes kind

def sendSignal : List NodeRef := r.send done running .signal
def sendPayload : List NodeRef := r.send done running .payload
def sendAudio : List NodeRef := r.send done running .audio
def sendVideo : List NodeRef := r.send done running .video

def sendSignalToPort (port : Int) : List NodeRef := r.sendToPort done running .signal port
def sendPayloadToPort (port : Int) : List NodeRef := r.sendToPort done running .payload port
def sendAudioToPort (port : Int) : List NodeRef := r.sendToPort done running .audio port
def sendVideoToPort (port : Int) : List NodeRef := r.sendToPort done running .video port

end

variable (r : NodeRoutes)

def broadcast : EventKind → List NodeRef
  | .signal => r.sendSignal false true
  | .payload => r.sendPayload false true
  | .audio => r.sendAudio false true
  | .video => r.sendVideo false true

def toPort (port : Int) : EventKind → List NodeRef
  | .signal => r.sendSignalToPort false true port
  | .payload => r.sendPayloadToPort false true port
  | .audio => r.sendAudioToPort false true port
  | .video => r.sendVideoToPort false true port

theorem broadcast_eq (kind : EventKind) : r.broadcast kind = r.table.nodes kind := by
  have hsend : r.broadcast kind = r.send false true kind := by cases kind <;> rfl
  rw [hsend, send]
  split
  next hnone => simpa using hnone.symm
  · rfl

theorem toPort_eq (port : Int) (kind : EventKind) : r.toPort port kind =
      if NoPort port then [] else (r.portTable port.toNat).nodes kind := by
  have hsend : r.toPort port kind = r.sendToPort false true kind port := by cases kind <;> rfl
  rw [hsend, sendToPort]
  by_cases hport : NoPort port
  · simp [hport]
  · simp only [hport, false_or, if_false]
    split
    next hnone => simpa using hnone.symm
    · rfl

end NodeRoutes

/-! ## Wiring -/

structure WiredWorkflow where
  workflow : Workflow
  routes : NodeRef → NodeRoutes

namespace Graph

abbrev Routes := NodeRef → NodeRoutes

def addEdge (routes : Routes) (edge : EdgeConfig) (fromIdx toIdx : NodeRef) : Routes :=
  Function.update routes fromIdx
    (if edge.sourcePort = 0 then (routes fromIdx).addNextNode edge.type toIdx
    else (routes fromIdx).addNextPortNode edge.type toIdx edge.sourcePort)

def wireNodes (indexMap : AList fun _ : String => NodeRef) (routes : Routes) :
    List EdgeConfig → Except String Routes
  | [] => .ok routes
  | edge :: rest =>
    match indexMap.lookup edge.source with
    | none => .error ("edge source node not found: " ++ edge.source)
    | some fromIdx =>
      match indexMap.lookup edge.target with
      | none => .error ("edge target node not found: " ++ edge.target)
      | some toIdx => wireNodes indexMap (addEdge routes edge fromIdx toIdx) rest

def workflowConfig (graph : Graph) (builders : PluginBuilders) : Workflow.GraphConfig where
  head := graph.config.head
  mode := graph.config.schedulerMode
  schedulerWorkers := graph.config.schedulerWorkers
  nodes := graph.orderedNodes.map fun n =>
    ⟨n.id, n.name, n.plugin, (builders n.id).map fun builder => builder.build n.config⟩
  edges := graph.config.edges.map fun edge => ⟨edge.source, edge.target⟩

def newWorkflow (parentDone : Bool) (graph : Graph) (builders : PluginBuilders) :
    Except String WiredWorkflow :=
  match Workflow.newWorkflow parentDone (graph.workflowConfig builders) with
  | .error error => .error error
  | .ok w =>
    match wireNodes w.indexMap (fun _ => .empty) graph.config.edges with
    | .error error => .error error
    | .ok routes => .ok ⟨w, routes⟩

end Graph

end Voce.Engine
