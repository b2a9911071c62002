import Voce.Engine.Routing

/-! # Sends follow the edges

The tables of a workflow contain each target of an edge once, whatever the order of the
edges and however often they are repeated. An edge whose port has no table reaches
nobody: its target is missing in the broadcasts too, unless another edge leads there.
-/

namespace Voce.Engine

open NodeRoutes Function List AList FiniteMap

/-! ## Tables -/

theorem mem_addRoute {nodes next j} : j ∈ addRoute nodes next ↔ j ∈ nodes ∨ j = next := by
  unfold addRoute
  split
  next hmem =>
    constructor
    · exact .inl
    · rintro (hj | rfl)
      · exact hj
      · exact hmem
  · simp

theorem nodup_addRoute {nodes} (hnodes : nodes.Nodup) (next : NodeRef) :
    (addRoute nodes next).Nodup := by
  unfold addRoute
  split
  · exact hnodes
  next hnot =>
    refine nodup_append.mpr ⟨hnodes, nodup_singleton next, ?_⟩
    rintro j hj k hk rfl
    exact hnot (mem_singleton.mp hk ▸ hj)

namespace RouteTable

theorem nodes_add (t : RouteTable) (event : EventType) (next : NodeRef) (kind : EventKind) :
    (t.add event next).nodes kind =
      if event = kind.type then addRoute (t.nodes kind) next else t.nodes kind := by
  cases event <;> cases kind <;> rfl

theorem mem_add {t : RouteTable} {event next j} {kind : EventKind} :
    j ∈ (t.add event next).nodes kind ↔ j ∈ t.nodes kind ∨ event = kind.type ∧ j = next := by
  rw [nodes_add]
  split
  next hkind => simp [mem_addRoute, hkind]
  next hkind => simp [hkind]

def Distinct (t : RouteTable) : Prop := ∀ kind, (t.nodes kind).Nodup

theorem Distinct.add {t : RouteTable} (ht : t.Distinct) (event : EventType) (next : NodeRef) :
    (t.add event next).Distinct := by
  intro kind
  rw [nodes_add]
  split
  · exact nodup_addRoute (ht kind) next
  · exact ht kind

theorem empty_distinct : empty.Distinct := by
  intro kind
  cases kind <;> exact nodup_nil

theorem notMem_empty (kind : EventKind) (j : NodeRef) : j ∉ empty.nodes kind := by
  cases kind <;> exact not_mem_nil

end RouteTable

namespace Graph

/-- The tables of all nodes list no receiver twice. -/
def Routes.Distinct (routes : Routes) : Prop :=
  ∀ i, (routes i).table.Distinct ∧ ∀ port, ((routes i).portTable port).Distinct

section

variable {routes : Routes} {edge : EdgeConfig} {a b i j : NodeRef} {kind : EventKind}

theorem Routes.Distinct.addEdge (hroutes : Routes.Distinct routes) (edge : EdgeConfig)
    (a b : NodeRef) : Routes.Distinct (addEdge routes edge a b) := by
  intro i
  by_cases hi : i = a
  · subst hi
    obtain ⟨htable, hports⟩ := hroutes i
    simp only [Graph.addEdge, update_self, addNextNode, addNextPortNode]
    split
    · exact ⟨htable.add _ _, hports⟩
    · split
      · exact ⟨htable, hports⟩
      · refine ⟨htable.add _ _, fun port => ?_⟩
        dsimp only
        by_cases hport : port = edge.sourcePort.toNat
        · rw [hport, update_self]
          exact (hports _).add _ _
        · rw [update_of_ne hport]
          exact hports port
  · rw [Graph.addEdge, update_of_ne hi]
    exact hroutes i

theorem mem_addEdge_table : j ∈ (addEdge routes edge a b i).table.nodes kind ↔
    j ∈ (routes i).table.nodes kind ∨
      i = a ∧ j = b ∧ edge.type = kind.type ∧ ¬ NoPort edge.sourcePort := by
  by_cases hi : i = a
  · subst hi
    simp only [addEdge, update_self, addNextNode, addNextPortNode]
    split
    next hport =>
      rw [RouteTable.mem_add, hport]
      tauto
    · split
      next hport => simp [hport]
      · rw [RouteTable.mem_add]
        tauto
  · rw [addEdge, update_of_ne hi]
    simp [hi]

theorem mem_addEdge_port {port : Int} (hpos : port > 0) (hport : ¬ NoPort port) :
    j ∈ ((addEdge routes edge a b i).portTable port.toNat).nodes kind ↔
      j ∈ ((routes i).portTable port.toNat).nodes kind ∨
        i = a ∧ j = b ∧ edge.type = kind.type ∧ edge.sourcePort = port := by
  by_cases hi : i = a
  · subst hi
    simp only [addEdge, update_self, addNextNode, addNextPortNode]
    split
    · have hne : edge.sourcePort ≠ port := by omega
      simp [hne]
    · split
      next hnone =>
        have hne : edge.sourcePort ≠ port := by
          rintro rfl
          exact hport hnone
        simp [hne]
      next hvalid =>
        dsimp only
        by_cases heq : edge.sourcePort = port
        · rw [heq, update_self, RouteTable.mem_add]
          tauto
        · have hindex : port.toNat ≠ edge.sourcePort.toNat := by
            simp only [NoPort] at hvalid
            omega
          rw [update_of_ne hindex]
          simp [heq]
  · rw [addEdge, update_of_ne hi]
    simp [hi]

end

/-! ## Wiring -/

structure Joins (indexMap : AList fun _ : String => NodeRef) (i : NodeRef) (kind : EventKind)
    (j : NodeRef) (edge : EdgeConfig) : Prop where
  source : indexMap.lookup edge.source = some i
  target : indexMap.lookup edge.target = some j
  type : edge.type = kind.type

/-- What the edges add to the tables. -/
structure Wires (indexMap : AList fun _ : String => NodeRef) (before : Routes)
    (edges : List EdgeConfig) (after : Routes) : Prop where
  distinct : Routes.Distinct before → Routes.Distinct after
  table : ∀ i kind j, j ∈ (after i).table.nodes kind ↔ j ∈ (before i).table.nodes kind ∨
    ∃ edge ∈ edges, Joins indexMap i kind j edge ∧ ¬ NoPort edge.sourcePort
  ports : ∀ i kind j, ∀ port > 0, ¬ NoPort port →
    (j ∈ ((after i).portTable port.toNat).nodes kind ↔
      j ∈ ((before i).portTable port.toNat).nodes kind ∨
        ∃ edge ∈ edges, Joins indexMap i kind j edge ∧ edge.sourcePort = port)

theorem wireNodes_wires {indexMap before after edges}
    (hwire : wireNodes indexMap before edges = .ok after) : Wires indexMap before edges after := by
  induction edges generalizing before with
  | nil =>
    cases hwire
    exact ⟨id, by simp, by simp⟩
  | cons edge rest ih =>
    unfold wireNodes at hwire
    split at hwire
    · cases hwire
    next a hsource =>
      split at hwire
      · cases hwire
      next b htarget =>
        have hrest := ih hwire
        have hjoins : ∀ i kind j, Joins indexMap i kind j edge ↔
            i = a ∧ j = b ∧ edge.type = kind.type := by
          intro i kind j
          constructor
          · rintro ⟨hi, hj, htype⟩
            rw [hsource] at hi
            rw [htarget] at hj
            exact ⟨(Option.some.inj hi).symm, (Option.some.inj hj).symm, htype⟩
          · rintro ⟨rfl, rfl, htype⟩
            exact ⟨hsource, htarget, htype⟩
        refine ⟨fun hbefore => hrest.distinct (hbefore.addEdge edge a b), ?_, ?_⟩
        · intro i kind j
          rw [hrest.table, mem_addEdge_table]
          simp only [mem_cons, exists_eq_or_imp, hjoins, or_assoc, and_assoc]
        · intro i kind j port hpos hport
          rw [hrest.ports i kind j port hpos hport, mem_addEdge_port hpos hport]
          simp only [mem_cons, exists_eq_or_imp, hjoins, or_assoc, and_assoc]

end Graph

/-! ## Indices -/

namespace Workflow

/-- The index map numbers the nodes, each of them once. -/
structure Indexed (w : Workflow) : Prop where
  lt : ∀ id i, w.indexMap.lookup id = some i → i < w.nodes.length
  inj : ∀ id id' i, w.indexMap.lookup id = some i → w.indexMap.lookup id' = some i → id = id'

theorem initNodes_indexed {w w' : Workflow} {configs} (hw : w.Indexed)
    (hinit : w.initNodes configs = .ok w') :
    w'.Indexed ∧ (∀ id ∈ w.indexMap, id ∈ w'.indexMap) ∧
      ∀ cfg ∈ configs, cfg.id ∈ w'.indexMap := by
  induction configs generalizing w with
  | nil =>
    cases hinit
    exact ⟨hw, fun _ => id, by simp⟩
  | cons cfg rest ih =>
    obtain ⟨-, -, startError, -, hrest⟩ := initNodes_cons hinit
    have hlookup : ∀ id i, (w.indexMap.insert cfg.id w.nodes.length).lookup id = some i →
        id = cfg.id ∧ i = w.nodes.length ∨ w.indexMap.lookup id = some i :=
      forall_insert (fun _ _ => .inr) (.inl ⟨rfl, rfl⟩)
    obtain ⟨hindexed, hkept, hadded⟩ := ih (by
      refine ⟨?_, ?_⟩
      · intro id i hid
        rw [length_append, length_singleton]
        rcases hlookup id i hid with ⟨-, rfl⟩ | hold
        · omega
        · have hlt := hw.lt id i hold
          omega
      · intro id id' i hid hid'
        rcases hlookup id i hid with ⟨rfl, rfl⟩ | hold
        · rcases hlookup id' _ hid' with ⟨rfl, -⟩ | hold'
          · rfl
          · exact absurd (hw.lt id' _ hold') (lt_irrefl _)
        · rcases hlookup id' i hid' with ⟨rfl, rfl⟩ | hold'
          · exact absurd (hw.lt id _ hold) (lt_irrefl _)
          · exact hw.inj id id' i hold hold') hrest
    refine ⟨hindexed, ?_, ?_⟩
    · intro id hid
      exact hkept id ((mem_insert _).mpr (.inr hid))
    · intro other hother
      rcases mem_cons.mp hother with rfl | hother
      · exact hkept _ ((mem_insert _).mpr (.inl rfl))
      · exact hadded other hother

theorem newWorkflow_indexed {parentDone} {graph : GraphConfig} {w : Workflow}
    (hnew : newWorkflow parentDone graph = .ok w) :
    w.Indexed ∧ ∀ cfg ∈ graph.nodes, cfg.id ∈ w.indexMap := by
  simp only [newWorkflow] at hnew
  split at hnew
  · cases hnew
  next w' hinit =>
    split at hnew
    · cases hnew
    · cases hnew
      obtain ⟨hindexed, -, hmem⟩ := initNodes_indexed ⟨by simp, by simp⟩ hinit
      exact ⟨hindexed, hmem⟩

end Workflow

/-! ## Sends -/

open Voce.Engine.Graph

namespace WiredWorkflow

/-- The nodes that a send calls are the targets of some of the edges, each of them once. -/
structure Calls (w : WiredWorkflow) (inputs : List NodeRef) (edges : EdgeConfig → Prop) :
    Prop where
  once : inputs.Nodup
  mem : ∀ j, j ∈ inputs ↔ ∃ edge, edges edge ∧ w.workflow.indexMap.lookup edge.target = some j

/-- Broadcasts go to the targets of all edges of their kind, and sends to a port to the
targets of its edges. -/
def RoutesEdges (w : WiredWorkflow) (config : WorkflowConfig) : Prop :=
  ∀ n ∈ config.nodes, ∃ i, w.workflow.indexMap.lookup n.id = some i ∧ ∀ kind : EventKind,
    w.Calls ((w.routes i).broadcast kind)
      (fun edge => edge ∈ config.edges ∧ edge.source = n.id ∧ edge.type = kind.type) ∧
    ∀ port > 0, w.Calls ((w.routes i).toPort port kind)
      (fun edge => edge ∈ config.edges ∧ edge.source = n.id ∧ edge.type = kind.type ∧
        edge.sourcePort = port)

end WiredWorkflow

namespace Graph

/-- Two edges of one kind between the same nodes. -/
structure Parallel (edge other : EdgeConfig) : Prop where
  source : other.source = edge.source
  target : other.target = edge.target
  type : other.type = edge.type

variable (config : WorkflowConfig)

/-- The edge has a table: its port is not too high, and if it is negative, another edge
of the same kind does the same with a port that has one. -/
def Routable (edge : EdgeConfig) : Prop :=
  edge.sourcePort < maxPortCount ∧ (edge.sourcePort < 0 →
    ∃ other ∈ config.edges, Parallel edge other ∧ ¬ NoPort other.sourcePort)

/-- What is known of a workflow that was created for an accepted configuration. -/
structure Instantiates (config : WorkflowConfig) (w : WiredWorkflow) : Prop where
  indexed : w.workflow.Indexed
  known : ∀ n ∈ config.nodes, n.id ∈ w.workflow.indexMap
  wires : Wires w.workflow.indexMap (fun _ => .empty) config.edges w.routes
  source : ∀ edge ∈ config.edges, ∃ n ∈ config.nodes, n.id = edge.source
  target : ∀ edge ∈ config.edges, edge.target ∈ w.workflow.indexMap
  kind : ∀ edge ∈ config.edges, ∃ kind : EventKind, edge.type = kind.type

theorem newWorkflow_instantiates {ranges config builders graph parentDone w}
    (hbuild : buildGraph ranges config builders = .ok graph)
    (hnew : newWorkflow parentDone graph builders = .ok w) : Instantiates config w := by
  obtain ⟨nodesMap, haccepts⟩ := buildGraph_accepts hbuild
  have hperm := haccepts.orderedNodes_perm
  have hids : ∀ id ∈ nodesMap, ∃ n ∈ config.nodes, n.id = id := by
    intro id hid
    simpa using (haccepts.parsed.mem id).mp hid
  have hconfig : graph.config = config := by rw [haccepts.graph]
  unfold newWorkflow at hnew
  split at hnew
  · cases hnew
  next workflow hworkflow =>
    split at hnew
    · cases hnew
    next routes hwire =>
      cases hnew
      rw [hconfig] at hwire
      obtain ⟨hindexed, hmem⟩ := Workflow.newWorkflow_indexed hworkflow
      have hknown : ∀ n ∈ config.nodes, n.id ∈ workflow.indexMap := by
        intro n hn
        exact hmem _ (mem_map_of_mem (hperm.mem_iff.mpr hn))
      refine ⟨hindexed, hknown, wireNodes_wires hwire, ?_, ?_, ?_⟩
      · intro edge hedge
        exact hids _ (haccepts.checked edge hedge).source
      · intro edge hedge
        obtain ⟨n, hn, heq⟩ := hids _ (haccepts.checked edge hedge).target
        rw [← heq]
        exact hknown n hn
      · intro edge hedge
        have htype := (haccepts.checked edge hedge).type
        cases hkind : edge.type with
        | signal => exact ⟨.signal, rfl⟩
        | payload => exact ⟨.payload, rfl⟩
        | audio => exact ⟨.audio, rfl⟩
        | video => exact ⟨.video, rfl⟩
        | unknown => simp [hkind, edgePrefix] at htype

namespace Instantiates

variable {config : WorkflowConfig} {w : WiredWorkflow} {id : String} {i : NodeRef}
  {kind : EventKind}

variable (hw : Instantiates config w)
include hw

section

variable (hi : w.workflow.indexMap.lookup id = some i)
include hi

theorem joins_iff {j edge} : Joins w.workflow.indexMap i kind j edge ↔
      edge.source = id ∧ edge.type = kind.type ∧
        w.workflow.indexMap.lookup edge.target = some j := by
  constructor
  · rintro ⟨hsource, htarget, htype⟩
    exact ⟨hw.indexed.inj _ _ i hsource hi, htype, htarget⟩
  · rintro ⟨rfl, htype, htarget⟩
    exact ⟨hi, htarget, htype⟩

/-- The edges that join the node to node `j` are its own with a target of that index. -/
theorem exists_joins_iff {j} (port : EdgeConfig → Prop) :
    (∃ edge ∈ config.edges, Joins w.workflow.indexMap i kind j edge ∧ port edge) ↔
      ∃ edge, (edge ∈ config.edges ∧ edge.source = id ∧ edge.type = kind.type ∧ port edge) ∧
        w.workflow.indexMap.lookup edge.target = some j := by
  simp only [hw.joins_iff hi]
  constructor
  · rintro ⟨edge, hedge, ⟨hsource, htype, htarget⟩, hport⟩
    exact ⟨edge, ⟨hedge, hsource, htype, hport⟩, htarget⟩
  · rintro ⟨edge, ⟨hedge, hsource, htype, hport⟩, htarget⟩
    exact ⟨edge, hedge, ⟨hsource, htype, htarget⟩, hport⟩

/-- A broadcast goes to the targets of the edges whose port has a table. -/
theorem broadcast_calls (kind : EventKind) :
    w.Calls ((w.routes i).broadcast kind) (fun edge => edge ∈ config.edges ∧ edge.source = id ∧
      edge.type = kind.type ∧ ¬ NoPort edge.sourcePort) := by
  rw [broadcast_eq]
  refine ⟨(hw.wires.distinct (fun _ => ⟨RouteTable.empty_distinct,
    fun _ => RouteTable.empty_distinct⟩) i).1 kind, fun j => ?_⟩
  rw [hw.wires.table]
  simp only [empty, RouteTable.notMem_empty, false_or]
  exact hw.exists_joins_iff hi _

theorem toPort_calls (kind : EventKind) {port} (hpos : port > 0) (hport : ¬ NoPort port) :
    w.Calls ((w.routes i).toPort port kind) (fun edge => edge ∈ config.edges ∧ edge.source = id ∧
      edge.type = kind.type ∧ edge.sourcePort = port) := by
  rw [toPort_eq, if_neg hport]
  refine ⟨(hw.wires.distinct (fun _ => ⟨RouteTable.empty_distinct,
    fun _ => RouteTable.empty_distinct⟩) i).2 port.toNat kind, fun j => ?_⟩
  rw [hw.wires.ports i kind j port hpos hport]
  simp only [empty, RouteTable.notMem_empty, false_or]
  exact hw.exists_joins_iff hi _

end

theorem routesEdges (hroutable : ∀ edge ∈ config.edges, Routable config edge) :
    w.RoutesEdges config := by
  intro n hn
  obtain ⟨i, hi⟩ := mem_iff.mp (hw.known n hn)
  refine ⟨i, hi, fun kind => ⟨?_, fun port hpos => ?_⟩⟩
  · have hcalls := hw.broadcast_calls hi kind
    refine ⟨hcalls.once, fun j => ?_⟩
    rw [hcalls.mem]
    constructor
    · rintro ⟨edge, ⟨hedge, hsource, htype, -⟩, htarget⟩
      exact ⟨edge, ⟨hedge, hsource, htype⟩, htarget⟩
    · rintro ⟨edge, ⟨hedge, hsource, htype⟩, htarget⟩
      obtain ⟨hlt, hnegative⟩ := hroutable edge hedge
      by_cases hport : NoPort edge.sourcePort
      · obtain ⟨other, hother, hparallel, hvalid⟩ :=
          hnegative (hport.resolve_right (by omega))
        refine ⟨other, ⟨hother, ?_, ?_, hvalid⟩, ?_⟩
        · rw [hparallel.source, hsource]
        · rw [hparallel.type, htype]
        · rw [hparallel.target, htarget]
      · exact ⟨edge, ⟨hedge, hsource, htype, hport⟩, htarget⟩
  · by_cases hport : NoPort port
    · rw [toPort_eq, if_pos hport]
      refine ⟨nodup_nil, fun j => ?_⟩
      simp only [not_mem_nil, false_iff]
      rintro ⟨edge, ⟨hedge, -, -, rfl⟩, -⟩
      have hlt := (hroutable edge hedge).1
      rcases hport with hneg | hge <;> omega
    · exact hw.toPort_calls hi kind hpos hport

theorem routable (hroutes : w.RoutesEdges config) {edge} (hedge : edge ∈ config.edges) :
    Routable config edge := by
  obtain ⟨n, hn, hsource⟩ := hw.source edge hedge
  obtain ⟨i, hi, hsends⟩ := hroutes n hn
  obtain ⟨kind, hkind⟩ := hw.kind edge hedge
  obtain ⟨j, hj⟩ := mem_iff.mp (hw.target edge hedge)
  obtain ⟨hbroadcast, hports⟩ := hsends kind
  refine ⟨?_, fun hneg => ?_⟩
  · by_contra hge
    have hport : NoPort edge.sourcePort := .inr (by omega)
    have hmem := ((hports edge.sourcePort (by simp [maxPortCount] at hge; omega)).mem j).mpr
      ⟨edge, ⟨hedge, hsource.symm, hkind, rfl⟩, hj⟩
    rw [toPort_eq, if_pos hport] at hmem
    cases hmem
  · have hmem := (hbroadcast.mem j).mpr ⟨edge, ⟨hedge, hsource.symm, hkind⟩, hj⟩
    obtain ⟨other, ⟨hother, hsource', htype, hport⟩, htarget⟩ :=
      ((hw.broadcast_calls hi kind).mem j).mp hmem
    refine ⟨other, hother, ⟨?_, ?_, ?_⟩, hport⟩
    · rw [hsource', hsource]
    · exact hw.indexed.inj _ _ j htarget hj
    · rw [htype, hkind]

end Instantiates

/-- The sends of an accepted and instantiated configuration follow its edges if and only if
every edge has a table. -/
theorem newWorkflow_routesEdges_iff (ranges : RangeOrders) (config : WorkflowConfig)
    (builders : PluginBuilders) (parentDone : Bool) {graph : Graph} {w : WiredWorkflow}
    (hbuild : buildGraph ranges config builders = .ok graph)
    (hnew : newWorkflow parentDone graph builders = .ok w) :
    w.RoutesEdges config ↔ ∀ edge ∈ config.edges, Routable config edge := by
  have hw := newWorkflow_instantiates hbuild hnew
  constructor
  · intro hroutes edge hedge
    exact hw.routable hroutes hedge
  · exact hw.routesEdges

/-- Two nodes that are joined by payload edges with these ports. -/
def portConfig (ports : List Int) : WorkflowConfig where
  head := "source"
  nodes := [⟨"source", "s", "p", []⟩, ⟨"sink", "t", "p", []⟩]
  edges := ports.map fun port => ⟨"source", port, "sink", .payload⟩
  schedulerMode := .threadPerNode
  schedulerWorkers := 0

def portBuilders : PluginBuilders := fun _ => some ⟨[], [], fun _ => .ok none⟩

def portRanges : RangeOrders := ⟨backwards, backwards, backwards⟩

def instantiate : Except String (Graph × WiredWorkflow) :=
  match buildGraph portRanges config portBuilders with
  | .error error => .error error
  | .ok graph => (newWorkflow false graph portBuilders).map fun w => (graph, w)

theorem exists_of_instantiate (hok : (instantiate config).isOk = true) :
    ∃ graph w, buildGraph portRanges config portBuilders = .ok graph ∧
      newWorkflow false graph portBuilders = .ok w := by
  unfold instantiate at hok
  split at hok
  · cases hok
  next graph hbuild =>
    cases hnew : newWorkflow false graph portBuilders with
    | error error =>
      rw [hnew] at hok
      cases hok
    | ok w => exact ⟨graph, w, hbuild, hnew⟩

theorem newWorkflow_routesEdges_iff_portConfig :
    ∃ graph w, buildGraph portRanges (portConfig [3, 0, -1, 3]) portBuilders = .ok graph ∧
      newWorkflow false graph portBuilders = .ok w ∧
      w.RoutesEdges (portConfig [3, 0, -1, 3]) := by
  obtain ⟨graph, w, hbuild, hnew⟩ :=
    exists_of_instantiate (portConfig [3, 0, -1, 3]) (by decide +kernel)
  refine ⟨graph, w, hbuild, hnew, ?_⟩
  refine (newWorkflow_routesEdges_iff _ _ _ _ hbuild hnew).mpr fun edge hedge => ?_
  obtain ⟨port, hport, rfl⟩ := mem_map.mp hedge
  refine ⟨?_, fun _ => ⟨⟨"source", 0, "sink", .payload⟩, ?_, ⟨rfl, rfl, rfl⟩, by decide⟩⟩
  · revert port
    decide
  · exact mem_cons_of_mem _ mem_cons_self

/-- The edge is accepted, but no send reaches its target. -/
theorem highPort_not_routesEdges :
    ∃ graph w, buildGraph portRanges (portConfig [12]) portBuilders = .ok graph ∧
      newWorkflow false graph portBuilders = .ok w ∧ ¬ w.RoutesEdges (portConfig [12]) := by
  obtain ⟨graph, w, hbuild, hnew⟩ :=
    exists_of_instantiate (portConfig [12]) (by decide +kernel)
  refine ⟨graph, w, hbuild, hnew, fun hroutes => ?_⟩
  have hroutable : Routable _ ⟨"source", 12, "sink", .payload⟩ :=
    (newWorkflow_instantiates hbuild hnew).routable hroutes mem_cons_self
  exact absurd hroutable.1 (by decide)

end Graph

end Voce.Engine
