import Voce.Engine.Workflow
import Voce.Foundation.TopologicalSort

/-! # Workflow graphs

`BuildGraph` checks a workflow configuration and puts its nodes into the order in
which they are started. Go visits the keys of a map in any order, so each loop over a
map takes an arbitrary order of its keys.
-/

namespace Voce.Engine

inductive EventType where
  | signal
  | payload
  | audio
  | video
  | unknown (code : UInt8)
  deriving DecidableEq

def EventType.text : EventType → String
  | .signal => "signal"
  | .payload => "payload"
  | .audio => "audio"
  | .video => "video"
  | .unknown _ => "unknown"

/-! ## Contracts of plugins -/

/-- The type of a field, which may be any string. -/
structure PropertyType where
  text : String
  deriving DecidableEq

/-- `TypeAny`. -/
def PropertyType.any : PropertyType := ⟨""⟩

structure Field where
  key : String
  type : PropertyType
  required : Bool

structure Property where
  prefixName : String
  name : String
  fields : List Field

namespace Property

def text (p : Property) : String := p.prefixName ++ ":" ++ p.name

/-- A field of a contract, as its errors name it. -/
def fieldText (p : Property) (key : String) : String :=
  "[" ++ p.text ++ "." ++ key ++ "]"

/-- The fields by their keys. A later field replaces an earlier one. -/
def fieldMap (p : Property) : AList fun _ : String => Field :=
  p.fields.foldl (fun fields f => fields.insert f.key f) ∅

/-- The fields that the downstream requires, one after the other. -/
def validateFields (upstream : AList fun _ : String => Field) (downstream : Property) :
    List Field → Except String Unit
  | [] => .ok ()
  | df :: rest =>
    if df.required = false then validateFields upstream downstream rest
    else
      match upstream.lookup df.key with
      | none => .error ("required field " ++ downstream.fieldText df.key ++
          " not provided by upstream")
      | some uf =>
        if df.type ≠ .any ∧ uf.type ≠ df.type then
          .error ("type mismatch for field " ++ downstream.fieldText df.key ++ ": upstream " ++
            uf.type.text ++ ", downstream " ++ df.type.text)
        else if uf.required = false then
          .error ("field " ++ downstream.fieldText df.key ++
            " is required by downstream but only optionally produced by upstream")
        else validateFields upstream downstream rest

end Property

/-- An empty downstream name accepts every upstream name. -/
def validateProperty (upstream downstream : Property) : Except String Unit :=
  if upstream.prefixName ≠ downstream.prefixName then
    .error ("prefix mismatch: upstream " ++ upstream.prefixName ++ ", downstream " ++
      downstream.prefixName)
  else if downstream.name ≠ "" ∧ upstream.name ≠ downstream.name then
    .error ("name mismatch: upstream " ++ upstream.name ++ ", downstream " ++ downstream.name)
  else downstream.validateFields upstream.fieldMap downstream.fields

/-- What a plugin accepts under one prefix: by name, and under any name. -/
structure Accepted where
  byName : AList fun _ : String => Property
  wildcards : List Property

namespace Accepted

def add (a : Accepted) (d : Property) : Accepted :=
  if d.name ≠ "" then { a with byName := a.byName.insert d.text d }
  else { a with wildcards := a.wildcards ++ [d] }

/-- The property that recognizes an upstream one. -/
def recognize (a : Accepted) (up : Property) : Option Property :=
  match a.byName.lookup up.text with
  | some d => some d
  | none => a.wildcards.find? fun d => d.name = ""

/-- Whether any upstream property is recognized. Those that are must fit. -/
def check (a : Accepted) (hit : Bool) : List Property → Except String Bool
  | [] => .ok hit
  | up :: rest =>
    match a.recognize up with
    | none => a.check hit rest
    | some d =>
      match validateProperty up d with
      | .error error => .error ("contract violation for recognized property [" ++ up.text ++
          "]: " ++ error)
      | .ok () => a.check true rest

end Accepted

def validateProperties (upstreams downstreams : List Property) (prefixName : String) :
    Except String Unit :=
  let ups := upstreams.filter fun p => p.prefixName = prefixName
  let downs := downstreams.filter fun p => p.prefixName = prefixName
  if downs = [] then .ok ()
  else if ups = [] then
    .error ("source node does not produce [" ++ prefixName ++ "] type signals")
  else
    match (downs.foldl Accepted.add ⟨∅, []⟩).check false ups with
    | .error error => .error error
    | .ok true => .ok ()
    | .ok false => .error ("none of the source [" ++ prefixName ++
        "] properties are recognized by the target plugin")

/-! ## Configurations -/

structure PluginBuilder where
  inputs : List Property
  outputs : List Property
  build : List UInt8 → Workflow.BuildResult

abbrev PluginBuilders := String → Option PluginBuilder

namespace Graph

structure NodeConfig where
  id : String
  name : String
  plugin : String
  config : List UInt8
  deriving DecidableEq, Inhabited

structure EdgeConfig where
  source : String
  sourcePort : Int
  target : String
  type : EventType
  deriving DecidableEq

structure WorkflowConfig where
  head : String
  nodes : List NodeConfig
  edges : List EdgeConfig
  schedulerMode : SchedulerMode
  schedulerWorkers : Int

abbrev NodesMap := AList fun _ : String => NodeConfig

/-- The nodes by their IDs, added to those that are there. -/
def parseNodes (builders : PluginBuilders) (nodesMap : NodesMap) :
    List NodeConfig → Except String NodesMap
  | [] => .ok nodesMap
  | n :: rest =>
    if (nodesMap.lookup n.id).isSome then .error ("duplicate node ID found: " ++ n.id)
    else if (builders n.id).isNone then
      .error ("plugin builder not provided for node: " ++ n.id)
    else parseNodes builders (nodesMap.insert n.id n) rest

def checkSelfLoops : List EdgeConfig → Except String Unit
  | [] => .ok ()
  | edge :: rest =>
    if edge.source = edge.target then
      .error ("node " ++ edge.source ++ " has a self-loop, which is not allowed")
    else checkSelfLoops rest

/-- The prefix of an edge's properties. Video edges have none. -/
def edgePrefix : EventType → Option String
  | .payload => some "data"
  | .signal => some "signal"
  | .audio => some "audio"
  | .video | .unknown _ => none

def validateEdgeContracts (nodesMap : NodesMap) (builders : PluginBuilders) :
    List EdgeConfig → Except String Unit
  | [] => .ok ()
  | edge :: rest =>
    if (nodesMap.lookup edge.source).isNone then
      .error ("edge source node not found: " ++ edge.source)
    else if (nodesMap.lookup edge.target).isNone then
      .error ("edge target node not found: " ++ edge.target)
    else
      match edgePrefix edge.type with
      | none => .error ("unknown edge type: " ++ edge.type.text)
      | some prefixName =>
        -- `parseNodes` has seen to it that both builders are there
        match validateProperties ((builders edge.source).elim [] PluginBuilder.outputs)
            ((builders edge.target).elim [] PluginBuilder.inputs) prefixName with
        | .error error => .error ("contract validation failed on edge " ++ edge.source ++
            " -> " ++ edge.target ++ " (" ++ prefixName ++ "): " ++ error)
        | .ok () => validateEdgeContracts nodesMap builders rest

/-! ## The order of the nodes -/

/-- The order in which a loop over a map visits its keys. -/
structure RangeOrder where
  order : List String → List String
  perm : ∀ keys, (order keys).Perm keys

/-- The orders of the loops over `nodesMap` and, before and after the sort, over
`inDegree`. -/
structure RangeOrders where
  nodes : RangeOrder
  sources : RangeOrder
  remnants : RangeOrder

/-- The targets of the edges from each node, and the numbers of edges to each node. -/
structure Degrees where
  adj : AList fun _ : String => List String
  inDegree : AList fun _ : String => Int

namespace Degrees

def next (d : Degrees) (id : String) : List String := (d.adj.lookup id).getD []

def addEdge (d : Degrees) (edge : EdgeConfig) : Degrees where
  adj := d.adj.insert edge.source (d.next edge.source ++ [edge.target])
  inDegree := d.inDegree.insert edge.target ((d.inDegree.lookup edge.target).getD 0 + 1)

/-- The counts start at zero for every node. -/
def of (ids : List String) (edges : List EdgeConfig) : Degrees :=
  edges.foldl addEdge ⟨∅, ids.foldl (fun inDegree id => inDegree.insert id 0) ∅⟩

end Degrees

def sortNodesTopologically (ranges : RangeOrders) (config : WorkflowConfig) (nodesMap : NodesMap) :
    List NodeConfig :=
  let degrees := Degrees.of (ranges.nodes.order nodesMap.keys) config.edges
  let start : TopologicalSort.State String := ⟨degrees.inDegree, [], []⟩
  let queue := (ranges.sources.order start.degree.keys).filter fun id => start.count id = 0
  let final := { start with queue := queue }.run degrees.next start.degree.keys.length
  let orderedIDs :=
    -- cyclic remnants come last
    if final.placed.length ≠ config.nodes.length then
      final.placed ++ (ranges.remnants.order final.degree.keys).filter fun id => final.count id > 0
    else final.placed
  orderedIDs.map fun id => (nodesMap.lookup id).getD default

end Graph

structure Graph where
  config : Graph.WorkflowConfig
  orderedNodes : List Graph.NodeConfig

namespace Graph

def buildGraph (ranges : RangeOrders) (config : WorkflowConfig) (builders : PluginBuilders) :
    Except String Graph :=
  if config.head = "" then
    .error "a 'head' node must be explicitly defined in workflow config"
  else
    match parseNodes builders ∅ config.nodes with
    | .error error => .error error
    | .ok nodesMap =>
      if (nodesMap.lookup config.head).isNone then
        .error ("head node ID " ++ config.head ++ " not found in workflow configuration")
      else
        match checkSelfLoops config.edges with
        | .error error => .error error
        | .ok () =>
          match validateEdgeContracts nodesMap builders config.edges with
          | .error error => .error error
          | .ok () => .ok ⟨config, sortNodesTopologically ranges config nodesMap⟩

end Graph

end Voce.Engine
