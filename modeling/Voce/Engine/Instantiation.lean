import Voce.Engine.Config
import Voce.Engine.EdgeRouting

/-! # Instantiation of accepted configurations

A configuration that passes the check is turned into a workflow by `NewWorkflow`, which
checks the nodes once more. The names of the nodes are only compared there.
-/

namespace Voce.Engine

open List AList Workflow FiniteMap

namespace Workflow

/-- `SendToNode`, given by the node whose `Input` it calls. -/
def sendToNode (w : Workflow) (nodeID : String) : Except String NodeRef :=
  match w.ensureRunning with
  | .error error => .error error
  | .ok () =>
    match w.indexMap.lookup nodeID with
    | none => .error ("node ID " ++ nodeID ++ " not found in workflow")
    | some i => .ok i

/-! ## Nodes -/

structure Initialized (w : Workflow) (configs : List NodeConfig) (w' : Workflow) : Prop where
  length : w'.nodes.length = w.nodes.length + configs.length
  scheduler : w'.scheduler = w.scheduler
  kept : ∀ j, j < w.nodes.length → w'.nodes[j]? = w.nodes[j]?
  index : ∀ id ∈ w.indexMap, w'.indexMap.lookup id = w.indexMap.lookup id
  names : (configs.map NodeConfig.name).Nodup
  fresh : ∀ cfg ∈ configs, cfg.name ∉ w.nameMap
  added : ∀ cfg ∈ configs, ∃ i startError, cfg.builder = some (.ok startError) ∧
    w'.indexMap.lookup cfg.id = some i ∧
    w'.nodes[i]? = some (newNode w.scheduler cfg.name startError)

theorem initNodes_initialized {w w' configs} (hinit : w.initNodes configs = .ok w') :
    Initialized w configs w' := by
  induction configs generalizing w with
  | nil =>
    cases hinit
    exact ⟨rfl, rfl, fun _ _ => rfl, fun _ _ => rfl, nodup_nil, by simp, by simp⟩
  | cons cfg rest ih =>
    obtain ⟨hnewId, hnewName, startError, hbuilder, hnext⟩ := initNodes_cons hinit
    have hrest := ih hnext
    have hother : ∀ other ∈ rest, other.name ≠ cfg.name ∧ other.name ∉ w.nameMap := by
      intro other hother
      simpa [mem_insert, not_or] using hrest.fresh other hother
    refine ⟨?_, hrest.scheduler, ?_, ?_, ?_, ?_, ?_⟩
    · rw [hrest.length]
      simp only [length_append, length_cons, length_nil]
      omega
    · intro j hj
      have hlater : j < (w.nodes ++ [newNode w.scheduler cfg.name startError]).length := by
        rw [length_append]
        omega
      rw [hrest.kept j hlater, getElem?_append_left hj]
    · intro id hmem
      rw [hrest.index id ((mem_insert _).mpr (.inr hmem)),
        lookup_insert_of_mem hnewId hmem]
    · rw [map_cons, nodup_cons]
      refine ⟨fun hmem => ?_, hrest.names⟩
      obtain ⟨other, hmem, heq⟩ := mem_map.mp hmem
      exact (hother other hmem).1 heq
    · intro other hmem
      rcases mem_cons.mp hmem with rfl | hmem
      · exact hnewName
      · exact (hother other hmem).2
    · intro other hmem
      rcases mem_cons.mp hmem with rfl | hmem
      · refine ⟨w.nodes.length, startError, hbuilder, ?_, ?_⟩
        · rw [hrest.index other.id ((mem_insert _).mpr (.inl rfl)), lookup_insert]
        · rw [hrest.kept w.nodes.length (by simp)]
          simp
      · exact hrest.added other hmem

variable {w : Workflow}

/-- Distinct nodes whose plugins are built can be added. -/
theorem exists_initNodes {configs} (hids : (configs.map NodeConfig.id).Nodup)
    (hnames : (configs.map NodeConfig.name).Nodup) (hnewIds : ∀ cfg ∈ configs, cfg.id ∉ w.indexMap)
    (hnewNames : ∀ cfg ∈ configs, cfg.name ∉ w.nameMap)
    (hbuilds : ∀ cfg ∈ configs, ∃ startError, cfg.builder = some (.ok startError)) :
    ∃ w', w.initNodes configs = .ok w' := by
  induction configs generalizing w with
  | nil => exact ⟨w, rfl⟩
  | cons cfg rest ih =>
    rw [map_cons, nodup_cons] at hids hnames
    rw [forall_mem_cons] at hnewIds hnewNames hbuilds
    obtain ⟨startError, hbuilder⟩ := hbuilds.1
    have hid : w.indexMap.lookup cfg.id = none := lookup_eq_none.mpr hnewIds.1
    have hname : w.nameMap.lookup cfg.name = none := lookup_eq_none.mpr hnewNames.1
    unfold initNodes
    simp only [hid, hname, hbuilder, Option.isSome_none, Bool.false_eq_true, if_false]
    apply ih hids.2 hnames.2
    · intro other hother hmem
      rcases (mem_insert _).mp hmem with heq | hold
      · exact hids.1 (heq ▸ mem_map_of_mem hother)
      · exact hnewIds.2 other hother hold
    · intro other hother hmem
      rcases (mem_insert _).mp hmem with heq | hold
      · exact hnames.1 (heq ▸ mem_map_of_mem hother)
      · exact hnewNames.2 other hother hold
    · exact hbuilds.2

theorem wireNodes_of_mem {edges}
    (hedges : ∀ edge ∈ edges, edge.source ∈ w.indexMap ∧ edge.target ∈ w.indexMap) :
    w.wireNodes edges = .ok () := by
  induction edges with
  | nil => rfl
  | cons edge rest ih =>
    rw [forall_mem_cons] at hedges
    obtain ⟨⟨hsource, htarget⟩, hrest⟩ := hedges
    obtain ⟨i, hi⟩ := mem_iff.mp hsource
    obtain ⟨j, hj⟩ := mem_iff.mp htarget
    unfold wireNodes
    simp only [hi, hj, Option.isNone_some, Bool.false_eq_true, if_false]
    exact ih hrest

/-- `NewWorkflow` starts from a workflow without nodes. -/
theorem newWorkflow_eq (parentDone : Bool) (graph : GraphConfig) :
    ∃ blank : Workflow, blank.indexMap = ∅ ∧ blank.nameMap = ∅ ∧ blank.nodes = [] ∧
      newWorkflow parentDone graph =
        match blank.initNodes graph.nodes with
        | .error error => .error error
        | .ok w =>
          match w.wireNodes graph.edges with
          | .error error => .error error
          | .ok () => .ok w :=
  ⟨_, rfl, rfl, rfl, rfl⟩

variable {graph : GraphConfig}

theorem newWorkflow_names {parentDone} (hnew : newWorkflow parentDone graph = .ok w) :
    (graph.nodes.map NodeConfig.name).Nodup := by
  obtain ⟨blank, -, -, -, heq⟩ := newWorkflow_eq parentDone graph
  rw [heq] at hnew
  split at hnew
  · cases hnew
  next hinit => exact (initNodes_initialized hinit).names

/-- `NewWorkflow` up to the tables of its nodes succeeds exactly if the names are distinct,
where all else has been checked. -/
theorem exists_newWorkflow_iff (parentDone : Bool) (hids : (graph.nodes.map NodeConfig.id).Nodup)
    (hbuilds : ∀ cfg ∈ graph.nodes, ∃ startError, cfg.builder = some (.ok startError))
    (hedges : ∀ edge ∈ graph.edges, edge.source ∈ graph.nodes.map NodeConfig.id ∧
      edge.target ∈ graph.nodes.map NodeConfig.id) :
    (∃ w, newWorkflow parentDone graph = .ok w) ↔ (graph.nodes.map NodeConfig.name).Nodup := by
  constructor
  · rintro ⟨w, hnew⟩
    exact newWorkflow_names hnew
  · intro hnames
    obtain ⟨blank, hindex, hname, -, heq⟩ := newWorkflow_eq parentDone graph
    rw [heq]
    obtain ⟨w, hinit⟩ := exists_initNodes (w := blank) hids hnames (by simp [hindex])
      (by simp [hname]) hbuilds
    have hadded := (initNodes_initialized hinit).added
    have hknown : ∀ id ∈ graph.nodes.map NodeConfig.id, id ∈ w.indexMap := by
      intro id hid
      obtain ⟨cfg, hcfg, rfl⟩ := mem_map.mp hid
      obtain ⟨i, -, -, hlookup, -⟩ := hadded cfg hcfg
      exact mem_iff.mpr ⟨i, hlookup⟩
    have hwire : w.wireNodes graph.edges = .ok () := wireNodes_of_mem fun edge hedge =>
      ⟨hknown _ (hedges edge hedge).1, hknown _ (hedges edge hedge).2⟩
    exact ⟨w, by rw [hinit]; simp only [hwire]⟩

/-- The nodes of a new workflow. -/
theorem newWorkflow_initialized {parentDone} (hnew : newWorkflow parentDone graph = .ok w) :
    w.nodes.length = graph.nodes.length ∧ ∀ cfg ∈ graph.nodes, ∃ i startError,
      cfg.builder = some (.ok startError) ∧ w.indexMap.lookup cfg.id = some i ∧
      w.nodes[i]? = some (newNode w.scheduler cfg.name startError) := by
  obtain ⟨blank, -, -, hnodes, heq⟩ := newWorkflow_eq parentDone graph
  rw [heq] at hnew
  split at hnew
  · cases hnew
  next hinit =>
    split at hnew
    · cases hnew
    · cases hnew
      have hinitialized := initNodes_initialized hinit
      refine ⟨by simpa [hnodes] using hinitialized.length, fun cfg hcfg => ?_⟩
      rw [hinitialized.scheduler]
      exact hinitialized.added cfg hcfg

end Workflow

/-! ## Accepted configurations -/

theorem resolvePluginBuilders_mem {ranges store before builders nodes}
    (hresolve : resolvePluginBuilders ranges store before nodes = .ok builders) :
    (∀ id ∈ before, id ∈ builders) ∧ ∀ n ∈ nodes, n.id ∈ builders := by
  induction nodes generalizing before with
  | nil =>
    cases hresolve
    exact ⟨fun _ hid => hid, by simp⟩
  | cons n rest ih =>
    unfold resolvePluginBuilders at hresolve
    split at hresolve
    · cases hresolve
    · obtain ⟨hkept, hrest⟩ := ih hresolve
      refine ⟨fun id hid => hkept id ((mem_insert _).mpr (.inr hid)), ?_⟩
      rw [forall_mem_cons]
      exact ⟨hkept n.id ((mem_insert _).mpr (.inl rfl)), hrest⟩

theorem checkConfig_eq_ok {ranges store cfg builders graph}
    (hcheck : checkConfig ranges store cfg = .ok (builders, graph)) :
    (∀ n ∈ cfg.nodes, n.id ∈ builders) ∧
      Graph.buildGraph ranges.graph cfg.graphConfig (fun id => builders.lookup id) =
        .ok graph := by
  unfold checkConfig at hcheck
  split at hcheck
  · cases hcheck
  · split at hcheck
    · cases hcheck
    next hresolve =>
      split at hcheck
      · cases hcheck
      next hbuild =>
        cases hcheck
        exact ⟨(resolvePluginBuilders_mem hresolve).2, hbuild⟩

/-- The workflow has one node for every configured one, and `SendToNode` finds it by its
ID as long as the workflow runs. -/
structure Workflow.Serves (w : Workflow) (cfg : WorkflowConfig) (builders : ResolvedBuilders) :
    Prop where
  length : w.nodes.length = cfg.nodes.length
  apart : ∀ n ∈ cfg.nodes, ∀ other ∈ cfg.nodes, ∀ i, w.indexMap.lookup n.id = some i →
    w.indexMap.lookup other.id = some i → n = other
  reaches : ∀ n ∈ cfg.nodes, ∃ i node builder, w.nodes[i]? = some node ∧ node.name = n.name ∧
    builders.lookup n.id = some builder ∧ builder.build n.config = .ok node.startError ∧
    ∀ v : Workflow, v.indexMap = w.indexMap → v.state = .running → v.sendToNode n.id = .ok i

namespace Graph

theorem exists_wireNodes {indexMap} (routes : Routes) {edges}
    (hedges : ∀ edge ∈ edges, edge.source ∈ indexMap ∧ edge.target ∈ indexMap) :
    ∃ wired, wireNodes indexMap routes edges = .ok wired := by
  induction edges generalizing routes with
  | nil => exact ⟨routes, rfl⟩
  | cons edge rest ih =>
    rw [forall_mem_cons] at hedges
    obtain ⟨⟨hsource, htarget⟩, hrest⟩ := hedges
    obtain ⟨i, hi⟩ := mem_iff.mp hsource
    obtain ⟨j, hj⟩ := mem_iff.mp htarget
    unfold wireNodes
    simp only [hi, hj]
    exact ih _ hrest

/-- What `NewWorkflow` is given for an accepted configuration. -/
structure Instantiable (cfg : Engine.WorkflowConfig) (builders : ResolvedBuilders)
    (graph : Graph) : Prop where
  config : graph.config = cfg.graphConfig
  perm : graph.orderedNodes.Perm (cfg.nodes.map ConfiguredNode.toNodeConfig)
  ids : (cfg.nodes.map fun n => n.id).Nodup
  builder : ∀ n ∈ cfg.nodes, ∃ builder, builders.lookup n.id = some builder
  edge : ∀ edge ∈ cfg.edges, (∃ n ∈ cfg.nodes, n.id = edge.source) ∧
    ∃ n ∈ cfg.nodes, n.id = edge.target

theorem checkConfig_instantiable {ranges store cfg builders graph}
    (hcheck : checkConfig ranges store cfg = .ok (builders, graph)) :
    Instantiable cfg builders graph := by
  obtain ⟨hbuilders, hbuild⟩ := checkConfig_eq_ok hcheck
  obtain ⟨nodesMap, haccepts⟩ := buildGraph_accepts hbuild
  have hids : ∀ id ∈ nodesMap, ∃ n ∈ cfg.nodes, n.id = id := by
    intro id hid
    simpa [WorkflowConfig.graphConfig] using (haccepts.parsed.mem id).mp hid
  refine ⟨by rw [haccepts.graph], haccepts.orderedNodes_perm, ?_, ?_, ?_⟩
  · have hnodup := haccepts.parsed.nodup
    rwa [WorkflowConfig.graphConfig, map_map] at hnodup
  · intro n hn
    exact mem_iff.mp (hbuilders n hn)
  · intro edge hedge
    have hchecked := haccepts.checked edge hedge
    exact ⟨hids _ hchecked.source, hids _ hchecked.target⟩

namespace Instantiable

variable {cfg : Engine.WorkflowConfig} {builders : ResolvedBuilders} {graph : Graph}
  (hg : Instantiable cfg builders graph)
include hg

/-- The nodes that `NewWorkflow` creates, with their builders' answers. -/
theorem mem_nodes {created} : created ∈ (graph.workflowConfig fun id => builders.lookup id).nodes ↔
      ∃ n ∈ cfg.nodes, created = ⟨n.id, n.name, n.plugin,
        (builders.lookup n.id).map fun builder => builder.build n.config⟩ := by
  simp only [workflowConfig, mem_map, hg.perm.mem_iff]
  constructor
  · rintro ⟨_, ⟨n, hn, rfl⟩, rfl⟩
    exact ⟨n, hn, rfl⟩
  · rintro ⟨n, hn, rfl⟩
    exact ⟨n.toNodeConfig, ⟨n, hn, rfl⟩, rfl⟩

theorem names_nodup_iff : ((graph.workflowConfig fun id => builders.lookup id).nodes.map
      Workflow.NodeConfig.name).Nodup ↔ (cfg.nodes.map fun n => n.name).Nodup := by
  have hperm := hg.perm.map NodeConfig.name
  rw [map_map] at hperm
  rw [workflowConfig, map_map]
  exact hperm.nodup_iff

theorem ids_nodup : ((graph.workflowConfig fun id => builders.lookup id).nodes.map
      Workflow.NodeConfig.id).Nodup := by
  have hperm := hg.perm.map NodeConfig.id
  rw [map_map] at hperm
  rw [workflowConfig, map_map]
  exact hperm.nodup_iff.mpr hg.ids

theorem mem_ids {n} (hn : n ∈ cfg.nodes) :
    n.id ∈ (graph.workflowConfig fun id => builders.lookup id).nodes.map
      Workflow.NodeConfig.id :=
  mem_map.mpr ⟨_, hg.mem_nodes.mpr ⟨n, hn, rfl⟩, rfl⟩

/-- A workflow that was created serves the configuration. -/
theorem serves {parentDone w}
    (hnew : Workflow.newWorkflow parentDone (graph.workflowConfig fun id => builders.lookup id) =
      .ok w) : w.Serves cfg builders := by
  obtain ⟨hlength, hadded⟩ := newWorkflow_initialized hnew
  obtain ⟨hindexed, -⟩ := newWorkflow_indexed hnew
  refine ⟨?_, ?_, ?_⟩
  · rw [hlength, workflowConfig, length_map, hg.perm.length_eq, length_map]
  · intro n hn other hother i hi hj
    exact inj_on_of_nodup_map hg.ids hn hother (hindexed.inj _ _ i hi hj)
  · intro n hn
    obtain ⟨i, startError, hbuilder, hi, hnode⟩ := hadded _ (hg.mem_nodes.mpr ⟨n, hn, rfl⟩)
    obtain ⟨builder, hlookup⟩ := hg.builder n hn
    refine ⟨i, _, builder, hnode, rfl, hlookup, ?_, ?_⟩
    · rw [hlookup] at hbuilder
      exact Option.some.inj hbuilder
    · intro v hindex hrunning
      have hfound : v.indexMap.lookup n.id = some i := by rw [hindex]; exact hi
      simp only [sendToNode, ensureRunning, hrunning, if_pos, hfound]

end Instantiable

/-- A configuration that was accepted, with plugins that are built, becomes a workflow that
serves it if and only if the names of its nodes are distinct. -/
theorem newWorkflow_serves_iff (ranges : CheckRanges)
    (store : Option (PluginStore PluginBuilder)) (cfg : Engine.WorkflowConfig)
    {builders : ResolvedBuilders} {graph : Graph} (parentDone : Bool)
    (hcheck : checkConfig ranges store cfg = .ok (builders, graph))
    (hbuilds : ∀ n ∈ cfg.nodes, ∀ builder ∈ builders.lookup n.id,
      ∃ startError, builder.build n.config = .ok startError) :
    (∃ w, newWorkflow parentDone graph (fun id => builders.lookup id) = .ok w ∧
      w.workflow.Serves cfg builders) ↔ (cfg.nodes.map fun n => n.name).Nodup := by
  have hg := checkConfig_instantiable hcheck
  have hexists := exists_newWorkflow_iff parentDone hg.ids_nodup
    (by
      intro created hcreated
      obtain ⟨n, hn, rfl⟩ := hg.mem_nodes.mp hcreated
      obtain ⟨builder, hlookup⟩ := hg.builder n hn
      obtain ⟨startError, hbuild⟩ := hbuilds n hn builder hlookup
      exact ⟨startError, by simp [hlookup, hbuild]⟩)
    (by
      intro edge hedge
      obtain ⟨configured, hconfigured, rfl⟩ := mem_map.mp hedge
      rw [hg.config] at hconfigured
      obtain ⟨⟨source, hsource, hid⟩, target, htarget, hid'⟩ := hg.edge configured hconfigured
      exact ⟨hid ▸ hg.mem_ids hsource, hid' ▸ hg.mem_ids htarget⟩)
  rw [← hg.names_nodup_iff, ← hexists]
  constructor
  · rintro ⟨w, hnew, -⟩
    unfold newWorkflow at hnew
    split at hnew
    · cases hnew
    next created hcreated => exact ⟨created, hcreated⟩
  · rintro ⟨w, hnew⟩
    obtain ⟨-, hknown⟩ := newWorkflow_indexed hnew
    have hmem : ∀ n ∈ cfg.nodes, n.id ∈ w.indexMap :=
      fun n hn => hknown _ (hg.mem_nodes.mpr ⟨n, hn, rfl⟩)
    have hedges : ∀ edge ∈ graph.config.edges,
        edge.source ∈ w.indexMap ∧ edge.target ∈ w.indexMap := by
      intro edge hedge
      rw [hg.config] at hedge
      obtain ⟨⟨source, hsource, hid⟩, target, htarget, hid'⟩ := hg.edge edge hedge
      exact ⟨hid ▸ hmem source hsource, hid' ▸ hmem target htarget⟩
    obtain ⟨routes, hwire⟩ := exists_wireNodes (fun _ => .empty) hedges
    refine ⟨⟨w, routes⟩, ?_, hg.serves hnew⟩
    simp only [newWorkflow, hnew, hwire]

/-- Two nodes with these names, the first with a plugin of any namespace. -/
def namedConfig (first second : String) : Engine.WorkflowConfig where
  id := "w"
  name := "demo"
  version := "1"
  head := "a"
  nodes := [⟨⟨"a", first, "p", []⟩, ""⟩, ⟨⟨"b", second, "p", []⟩, "local"⟩]
  edges := [⟨"a", 0, "b", .audio⟩]
  schedulerMode := "worker-pool"
  schedulerWorkers := 2

def localStore : PluginStore PluginBuilder :=
  singleton "local" ⟨"local", singleton "p" ⟨[], [], fun _ => .ok none⟩⟩

def localRanges : CheckRanges := ⟨fun _ => backwards, portRanges⟩

/-- The configuration is accepted, and its plugins are built. -/
def builtHere (cfg : Engine.WorkflowConfig) : Bool :=
  match checkConfig localRanges (some localStore) cfg with
  | .error _ => false
  | .ok (builders, _) => cfg.nodes.all fun n =>
    (builders.lookup n.id).all fun builder => (builder.build n.config).isOk

theorem exists_of_builtHere (cfg : Engine.WorkflowConfig) (hbuilt : builtHere cfg = true) :
    ∃ builders graph, checkConfig localRanges (some localStore) cfg = .ok (builders, graph) ∧
      ∀ n ∈ cfg.nodes, ∀ builder ∈ builders.lookup n.id,
        ∃ startError, builder.build n.config = .ok startError := by
  unfold builtHere at hbuilt
  split at hbuilt
  · cases hbuilt
  next builders graph hcheck =>
    refine ⟨builders, graph, hcheck, fun n hn builder hbuilder => ?_⟩
    have hok := all_eq_true.mp hbuilt n hn
    rw [Option.mem_def.mp hbuilder, Option.all_some] at hok
    cases hresult : builder.build n.config with
    | error error =>
      rw [hresult] at hok
      cases hok
    | ok startError => exact ⟨startError, rfl⟩

theorem newWorkflow_serves_iff_namedConfig :
    ∃ builders graph w,
      checkConfig localRanges (some localStore) (namedConfig "x" "y") = .ok (builders, graph) ∧
      newWorkflow false graph (fun id => builders.lookup id) = .ok w ∧
      w.workflow.Serves (namedConfig "x" "y") builders := by
  obtain ⟨builders, graph, hcheck, hbuilds⟩ :=
    exists_of_builtHere (namedConfig "x" "y") (by decide +kernel)
  obtain ⟨w, hnew, hserves⟩ :=
    (newWorkflow_serves_iff _ _ _ false hcheck hbuilds).mpr (by decide)
  exact ⟨builders, graph, w, hcheck, hnew, hserves⟩

/-- Two nodes with one name are accepted, and no workflow is created. -/
theorem sameName_not_newWorkflow :
    ∃ builders graph,
      checkConfig localRanges (some localStore) (namedConfig "x" "x") = .ok (builders, graph) ∧
      (∀ n ∈ (namedConfig "x" "x").nodes, ∀ builder ∈ builders.lookup n.id,
        ∃ startError, builder.build n.config = .ok startError) ∧
      ¬ ∃ w, newWorkflow false graph (fun id => builders.lookup id) = .ok w := by
  obtain ⟨builders, graph, hcheck, hbuilds⟩ :=
    exists_of_builtHere (namedConfig "x" "x") (by decide +kernel)
  refine ⟨builders, graph, hcheck, hbuilds, ?_⟩
  rintro ⟨w, hnew⟩
  unfold newWorkflow at hnew
  split at hnew
  · cases hnew
  next created hcreated =>
    have hnames := newWorkflow_names hcreated
    rw [(checkConfig_instantiable hcheck).names_nodup_iff] at hnames
    exact absurd hnames (by decide)

end Graph

end Voce.Engine
