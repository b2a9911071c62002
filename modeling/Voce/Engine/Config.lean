import Voce.Engine.PluginStore

/-! # Workflow configurations

A configuration is checked when it is saved and again when a session is created from
it: the builders of its nodes are looked up in the plugin store, and `BuildGraph` must
accept it.
-/

namespace Voce.Engine

structure ConfiguredNode extends Graph.NodeConfig where
  ns : String
  deriving DecidableEq

structure WorkflowConfig where
  id : String
  name : String
  version : String
  head : String
  nodes : List ConfiguredNode
  edges : List Graph.EdgeConfig
  schedulerMode : String
  schedulerWorkers : Int
  deriving DecidableEq

/-- What `BuildGraph` and `NewWorkflow` read of a configuration. -/
def WorkflowConfig.graphConfig (cfg : WorkflowConfig) : Graph.WorkflowConfig where
  head := cfg.head
  nodes := cfg.nodes.map ConfiguredNode.toNodeConfig
  edges := cfg.edges
  schedulerMode := if cfg.schedulerMode = "worker-pool" then .workerPool else .threadPerNode
  schedulerWorkers := cfg.schedulerWorkers

inductive ConfigError where
  | noStore
  | load (plugin ns : String) (error : LoadError)
  | invalid (text : String)
  | nameExists
  | notFound
  | marshal (text : String)
  | script (text : String)
  | io (text : String)
  deriving DecidableEq

def ConfigError.text : ConfigError → String
  | .noStore => "plugin invalid: plugin store is nil"
  | .load plugin ns error => "plugin builder load error for type: " ++ plugin ++
      " (namespace: " ++ ns ++ "): " ++ error.text
  | .invalid text => "invalid workflow config: " ++ text
  | .nameExists => "workflow name already exists"
  | .notFound => "workflow not found"
  | .marshal text => text
  | .script text => text
  | .io text => text

/-- The error without what depends on the order of a loop over a map. -/
inductive ConfigErrorKind where
  | noStore
  | load (plugin ns : String) (kind : LoadErrorKind)
  | invalid (text : String)
  | nameExists
  | notFound
  | marshal (text : String)
  | script (text : String)
  | io (text : String)

def ConfigError.kind : ConfigError → ConfigErrorKind
  | .noStore => .noStore
  | .load plugin ns error => .load plugin ns error.kind
  | .invalid text => .invalid text
  | .nameExists => .nameExists
  | .notFound => .notFound
  | .marshal text => .marshal text
  | .script text => .script text
  | .io text => .io text

abbrev ResolvedBuilders := AList fun _ : String => PluginBuilder

/-- The builders of the nodes by their IDs, added to those that are there. The lookup of
each node has an order of its own for the resources. -/
def resolvePluginBuilders (ranges : Nat → Graph.RangeOrder) (store : PluginStore PluginBuilder)
    (builders : ResolvedBuilders) : List ConfiguredNode → Except ConfigError ResolvedBuilders
  | [] => .ok builders
  | n :: rest =>
    match store.loadBuilder (ranges rest.length) n.ns n.plugin with
    | .error error => .error (.load n.plugin n.ns error)
    -- a builder that is there is never nil
    | .ok builder => resolvePluginBuilders ranges store (builders.insert n.id builder) rest

/-- The orders of all loops over maps while a configuration is checked. -/
structure CheckRanges where
  loads : Nat → Graph.RangeOrder
  graph : Graph.RangeOrders

/-- `ResolvePluginBuilders` and `BuildGraph`, as a save and a session creation run them. -/
def checkConfig (ranges : CheckRanges) (store : Option (PluginStore PluginBuilder))
    (cfg : WorkflowConfig) : Except ConfigError (ResolvedBuilders × Graph) :=
  match store with
  | none => .error .noStore
  | some store =>
    match resolvePluginBuilders ranges.loads store ∅ cfg.nodes with
    | .error error => .error error
    | .ok builders =>
      match Graph.buildGraph ranges.graph cfg.graphConfig (fun id => builders.lookup id) with
      | .error error => .error (.invalid error)
      | .ok graph => .ok (builders, graph)

/-! ## The check does not depend on the orders -/

theorem resolvePluginBuilders_kind (ranges ranges' : Nat → Graph.RangeOrder)
    (store : PluginStore PluginBuilder) (builders : ResolvedBuilders)
    (nodes : List ConfiguredNode) :
    (resolvePluginBuilders ranges store builders nodes).mapError ConfigError.kind =
      (resolvePluginBuilders ranges' store builders nodes).mapError ConfigError.kind := by
  induction nodes generalizing builders with
  | nil => rfl
  | cons n rest ih =>
    have hload := store.loadBuilder_kind (ranges rest.length) (ranges' rest.length) n.ns n.plugin
    unfold resolvePluginBuilders
    rcases mapError_eq_cases hload with ⟨builder, hfirst, hsecond⟩ | ⟨error, other, hfirst,
      hsecond, hkind⟩
    · rw [hfirst, hsecond]
      exact ih _
    · rw [hfirst, hsecond]
      simp only [Except.mapError, ConfigError.kind, hkind]

/-- Whether `BuildGraph` accepts does not depend on the loops of its sort. -/
theorem Graph.buildGraph_config (ranges ranges' : RangeOrders) (config : WorkflowConfig)
    (builders : PluginBuilders) :
    (buildGraph ranges config builders).map Graph.config =
      (buildGraph ranges' config builders).map Graph.config := by
  unfold buildGraph
  split
  · rfl
  · split
    · rfl
    · split
      · rfl
      · split
        · rfl
        · split <;> rfl

/-- Two checks of one configuration agree, up to the text of an error. -/
theorem checkConfig_kind (ranges ranges' : CheckRanges)
    (store : Option (PluginStore PluginBuilder)) (cfg : WorkflowConfig) :
    ((checkConfig ranges store cfg).map fun _ => ()).mapError ConfigError.kind =
      ((checkConfig ranges' store cfg).map fun _ => ()).mapError ConfigError.kind := by
  cases store with
  | none => rfl
  | some store =>
    have hresolve := resolvePluginBuilders_kind ranges.loads ranges'.loads store ∅ cfg.nodes
    unfold checkConfig
    rcases mapError_eq_cases hresolve with ⟨builders, hfirst, hsecond⟩ | ⟨error, other, hfirst,
      hsecond, hkind⟩
    · have hbuild := Graph.buildGraph_config ranges.graph ranges'.graph cfg.graphConfig
        fun id => builders.lookup id
      simp only [hfirst, hsecond]
      revert hbuild
      cases Graph.buildGraph ranges.graph cfg.graphConfig fun id => builders.lookup id with
      | error error =>
        cases Graph.buildGraph ranges'.graph cfg.graphConfig fun id => builders.lookup id with
        | error other =>
          intro hbuild
          obtain rfl : error = other := Except.error.inj hbuild
          rfl
        | ok graph => exact nofun
      | ok graph =>
        cases Graph.buildGraph ranges'.graph cfg.graphConfig fun id => builders.lookup id with
        | error other => exact nofun
        | ok other => exact fun _ => rfl
    · simp only [hfirst, hsecond, Except.map, Except.mapError, hkind]

/-- Two checks of one configuration both accept it, or refuse it for the same reason. -/
theorem checkConfig_cases (ranges ranges' : CheckRanges)
    (store : Option (PluginStore PluginBuilder)) (cfg : WorkflowConfig) :
    (∃ checked checked', checkConfig ranges store cfg = .ok checked ∧
        checkConfig ranges' store cfg = .ok checked') ∨
      ∃ error error', checkConfig ranges store cfg = .error error ∧
        checkConfig ranges' store cfg = .error error' ∧ error.kind = error'.kind := by
  have hkind := checkConfig_kind ranges ranges' store cfg
  cases hfirst : checkConfig ranges store cfg with
  | ok checked =>
    cases hsecond : checkConfig ranges' store cfg with
    | ok checked' => exact .inl ⟨checked, checked', rfl, rfl⟩
    | error error =>
      rw [hfirst, hsecond] at hkind
      cases hkind
  | error error =>
    cases hsecond : checkConfig ranges' store cfg with
    | ok checked =>
      rw [hfirst, hsecond] at hkind
      cases hkind
    | error error' =>
      rw [hfirst, hsecond] at hkind
      exact .inr ⟨error, error', rfl, rfl, Except.error.inj hkind⟩

end Voce.Engine
