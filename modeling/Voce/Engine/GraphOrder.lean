import Voce.Engine.Graph

/-! # The start order of the nodes

The loops that `BuildGraph` runs over an accepted configuration start Kahn's algorithm
with the right counts. So the nodes are placed after their sources, except for those
behind a cycle, which come last.
-/

namespace Voce.Engine.Graph

open List AList FiniteMap WorkflowConfig Degrees

variable {ranges : RangeOrders} {config : WorkflowConfig} {nodesMap : NodesMap} {graph : Graph}

open TopologicalSort (targets)

/-! ## Accepted configurations -/

/-- What the loop over the nodes has put into the map. -/
structure Parsed (before : NodesMap) (nodes : List NodeConfig) (after : NodesMap) : Prop where
  nodup : (nodes.map NodeConfig.id).Nodup
  fresh : ∀ n ∈ nodes, n.id ∉ before
  lookup : ∀ n ∈ nodes, after.lookup n.id = some n
  kept : ∀ id ∈ before, after.lookup id = before.lookup id
  mem : ∀ id, id ∈ after ↔ id ∈ before ∨ id ∈ nodes.map NodeConfig.id

theorem parseNodes_parsed {builders before after nodes}
    (hparse : parseNodes builders before nodes = .ok after) : Parsed before nodes after := by
  induction nodes generalizing before with
  | nil =>
    cases hparse
    exact ⟨nodup_nil, by simp, by simp, fun _ _ => rfl, by simp⟩
  | cons n rest ih =>
    unfold parseNodes at hparse
    split at hparse
    · cases hparse
    next hnew =>
      split at hparse
      · cases hparse
      · have hrest := ih hparse
        have hn : n.id ∉ before := by
          rw [← lookup_isSome]
          exact hnew
        have hnot : n.id ∉ rest.map NodeConfig.id := by
          intro hmem
          obtain ⟨other, hother, heq⟩ := mem_map.mp hmem
          apply hrest.fresh other hother
          rw [heq]
          exact (mem_insert _).mpr (.inl rfl)
        refine ⟨nodup_cons.mpr ⟨hnot, hrest.nodup⟩, ?_, ?_, ?_, ?_⟩
        · intro other hother
          rcases mem_cons.mp hother with rfl | hother
          · exact hn
          · exact fun hmem => hrest.fresh other hother ((mem_insert _).mpr (.inr hmem))
        · intro other hother
          rcases mem_cons.mp hother with rfl | hother
          · rw [hrest.kept _ ((mem_insert _).mpr (.inl rfl)), lookup_insert]
          · exact hrest.lookup other hother
        · intro id hid
          rw [hrest.kept id ((mem_insert _).mpr (.inr hid)), lookup_insert_of_mem hn hid]
        · intro id
          rw [hrest.mem, mem_insert, map_cons, mem_cons]
          tauto

/-- What the checks of an edge have found. -/
structure Checked (nodesMap : NodesMap) (edge : EdgeConfig) : Prop where
  source : edge.source ∈ nodesMap
  target : edge.target ∈ nodesMap
  type : (edgePrefix edge.type).isSome

theorem validateEdgeContracts_checked {nodesMap builders edges}
    (hvalid : validateEdgeContracts nodesMap builders edges = .ok ()) {edge}
    (hedge : edge ∈ edges) : Checked nodesMap edge := by
  induction edges with
  | nil => cases hedge
  | cons first rest ih =>
    unfold validateEdgeContracts at hvalid
    split at hvalid
    · cases hvalid
    next hsource =>
      split at hvalid
      · cases hvalid
      next htarget =>
        split at hvalid
        · cases hvalid
        next prefixName htype =>
          split at hvalid
          · cases hvalid
          · rcases mem_cons.mp hedge with rfl | hedge
            · refine ⟨?_, ?_, by simp [htype]⟩
              · rw [← lookup_isSome]
                simpa [Option.isSome_iff_ne_none] using hsource
              · rw [← lookup_isSome]
                simpa [Option.isSome_iff_ne_none] using htarget
            · exact ih hvalid hedge

/-- An accepted configuration, with the map of its nodes. -/
structure Accepts (ranges : RangeOrders) (config : WorkflowConfig) (graph : Graph)
    (nodesMap : NodesMap) : Prop where
  parsed : Parsed ∅ config.nodes nodesMap
  checked : ∀ edge ∈ config.edges, Checked nodesMap edge
  graph : graph = ⟨config, sortNodesTopologically ranges config nodesMap⟩

theorem buildGraph_accepts {ranges config builders graph}
    (hbuild : buildGraph ranges config builders = .ok graph) :
    ∃ nodesMap, Accepts ranges config graph nodesMap := by
  unfold buildGraph at hbuild
  split at hbuild
  · cases hbuild
  · split at hbuild
    · cases hbuild
    next nodesMap hparse =>
      split at hbuild
      · cases hbuild
      · split at hbuild
        · cases hbuild
        · split at hbuild
          · cases hbuild
          next hvalid =>
            cases hbuild
            refine ⟨nodesMap, parseNodes_parsed hparse, ?_, rfl⟩
            intro edge hedge
            exact validateEdgeContracts_checked hvalid hedge

/-! ## Counts -/

/-- The ends of the edges, whatever their kinds and ports. -/
@[simp]
def pairs (edges : List EdgeConfig) : List (String × String) :=
  edges.map fun edge => (edge.source, edge.target)

namespace Degrees

variable (d : Degrees)

def count (v : String) : Int := (d.inDegree.lookup v).getD 0

theorem addEdges_next (edges : List EdgeConfig) (u : String) :
    (edges.foldl addEdge d).next u = d.next u ++ targets (pairs edges) u := by
  induction edges generalizing d with
  | nil => simp [targets]
  | cons edge rest ih =>
    rw [foldl_cons, ih]
    by_cases hu : u = edge.source
    · subst hu
      simp [addEdge, next, targets]
    · simp [addEdge, next, targets, hu, Ne.symm hu]

theorem addEdges_count (edges : List EdgeConfig) (v : String) :
    (edges.foldl addEdge d).count v = d.count v + ((pairs edges).map Prod.snd).count v := by
  induction edges generalizing d with
  | nil => simp
  | cons edge rest ih =>
    rw [foldl_cons, ih]
    by_cases hv : v = edge.target
    · subst hv
      simp [addEdge, count]
      omega
    · simp [addEdge, count, hv, Ne.symm hv]

theorem mem_addEdges (edges : List EdgeConfig) (v : String) :
    v ∈ (edges.foldl addEdge d).inDegree ↔ v ∈ d.inDegree ∨ v ∈ (pairs edges).map Prod.snd := by
  induction edges generalizing d with
  | nil => simp
  | cons edge rest ih =>
    rw [foldl_cons, ih]
    simp only [addEdge, mem_insert, pairs, map_cons, mem_cons]
    tauto

theorem zeros_spec (ids : List String) (zeros : AList fun _ : String => Int)
    (hzeros : ∀ v, (zeros.lookup v).getD 0 = 0) :
    (∀ v, ((ids.foldl (fun inDegree id => inDegree.insert id 0) zeros).lookup v).getD 0 = 0) ∧
      ∀ v, v ∈ ids.foldl (fun inDegree id => inDegree.insert id 0) zeros ↔ v ∈ zeros ∨ v ∈ ids := by
  induction ids generalizing zeros with
  | nil => exact ⟨hzeros, by simp⟩
  | cons id rest ih =>
    obtain ⟨hcount, hmem⟩ := ih (zeros.insert id 0) (by
      intro v
      rw [lookup_insert_ite]
      split
      · rfl
      · exact hzeros v)
    refine ⟨hcount, fun v => ?_⟩
    rw [foldl_cons, hmem, mem_insert, mem_cons]
    tauto

variable {ids : List String} {edges : List EdgeConfig}

theorem of_count (v : String) : (of ids edges).count v = ((pairs edges).map Prod.snd).count v := by
  have hzeros := (zeros_spec ids ∅ fun _ => rfl).1 v
  rw [of, addEdges_count]
  simp only [count, hzeros]
  omega

theorem mem_of (v : String) :
    v ∈ (of ids edges).inDegree ↔ v ∈ ids ∨ v ∈ (pairs edges).map Prod.snd := by
  have hzeros := (zeros_spec ids ∅ fun _ => rfl).2 v
  rw [of, mem_addEdges, hzeros]
  simp

end Degrees

/-! ## The sort -/

section

variable (ranges config nodesMap)

/-- The state in which the loop over the queue starts. -/
def startState : TopologicalSort.State String :=
  let degrees := of (ranges.nodes.order nodesMap.keys) config.edges
  let start : TopologicalSort.State String := ⟨degrees.inDegree, [], []⟩
  { start with
    queue := (ranges.sources.order start.degree.keys).filter fun id => start.count id = 0 }

theorem startState_invariant :
    TopologicalSort.State.Invariant (pairs config.edges) (startState ranges config nodesMap) := by
  have hqueue : ∀ v, v ∈ (startState ranges config nodesMap).queue ↔
      v ∈ (startState ranges config nodesMap).degree ∧
        (startState ranges config nodesMap).count v = 0 := by
    intro v
    simp only [startState, mem_filter, (ranges.sources.perm _).mem_iff, AList.mem_keys,
      decide_eq_true_eq]
    rfl
  refine ⟨?_, ?_, ?_, ?_, TopologicalSort.Ordered.nil _⟩
  · apply List.Nodup.filter
    rw [(ranges.sources.perm _).nodup_iff]
    exact keys_nodup _
  · intro v
    have hcount : (startState ranges config nodesMap).count v =
      ((pairs config.edges).map Prod.snd).count v := of_count v
    rw [hcount, startState, TopologicalSort.remaining_nil]
  · intro v
    rw [← hqueue]
    simp [startState]
  · intro u v hedge
    refine (mem_of v).mpr (.inr ?_)
    exact mem_map_of_mem hedge

def finalState : TopologicalSort.State String :=
  (startState ranges config nodesMap).run (targets (pairs config.edges))
    (startState ranges config nodesMap).degree.keys.length

/-- The nodes in the order of the sort, and those behind cycles. -/
def orderedIDs : List String :=
  let final := finalState ranges config nodesMap
  if final.placed.length ≠ config.nodes.length then
    final.placed ++ (ranges.remnants.order final.degree.keys).filter fun id => final.count id > 0
  else final.placed

theorem sortNodesTopologically_eq : sortNodesTopologically ranges config nodesMap =
      (orderedIDs ranges config nodesMap).map fun id => (nodesMap.lookup id).getD default := by
  have hnext : (of (ranges.nodes.order nodesMap.keys) config.edges).next =
      targets (pairs config.edges) := by
    funext u
    rw [of, addEdges_next]
    rfl
  simp only [sortNodesTopologically, hnext]
  rfl

/-- How the loop over the queue ends. -/
structure Accepts.Final (final : TopologicalSort.State String) : Prop where
  invariant : TopologicalSort.State.Invariant (pairs config.edges) final
  queue : final.queue = []
  degree : ∀ v, v ∈ final.degree ↔ v ∈ config.nodes.map NodeConfig.id

variable {ranges config nodesMap}

theorem Accepts.Final.placed_subset {final} (hfinal : Accepts.Final config final) {v}
    (hv : v ∈ final.placed) : v ∈ config.nodes.map NodeConfig.id :=
  (hfinal.degree v).mp ((hfinal.invariant.free v).mp (mem_append_left _ hv)).1

variable (haccepts : Accepts ranges config graph nodesMap)
include haccepts

theorem Accepts.mem_degree (v : String) :
    v ∈ (startState ranges config nodesMap).degree ↔ v ∈ config.nodes.map NodeConfig.id := by
  have hkeys : v ∈ ranges.nodes.order nodesMap.keys ↔ v ∈ nodesMap := by
    rw [(ranges.nodes.perm _).mem_iff, AList.mem_keys]
  have htargets : v ∈ (pairs config.edges).map Prod.snd → v ∈ nodesMap := by
    intro hv
    obtain ⟨edge, hedge, rfl⟩ : ∃ edge ∈ config.edges, edge.target = v := by
      simpa using hv
    exact (haccepts.checked edge hedge).target
  have hmem := haccepts.parsed.mem v
  simp only [startState, mem_of, hkeys]
  rw [hmem] at htargets ⊢
  tauto

theorem Accepts.final : Accepts.Final config (finalState ranges config nodesMap) := by
  have hstart := startState_invariant ranges config nodesMap
  refine ⟨hstart.run _, hstart.run_queue le_rfl, fun v => ?_⟩
  rw [finalState, hstart.mem_degree_run, haccepts.mem_degree]

/-- Every node is placed or a cyclic remnant. -/
theorem Accepts.orderedIDs_perm :
    (orderedIDs ranges config nodesMap).Perm (config.nodes.map NodeConfig.id) := by
  have hfinal := haccepts.final
  have hnodes := haccepts.parsed.nodup
  have hplaced : (finalState ranges config nodesMap).placed.Nodup :=
    List.Nodup.of_append_left hfinal.invariant.nodup
  unfold orderedIDs
  generalize finalState ranges config nodesMap = final at hfinal hplaced ⊢
  have hcount : ∀ v, v ∈ final.degree → (final.count v > 0 ↔ v ∉ final.placed) :=
    fun v => hfinal.invariant.count_pos_iff hfinal.queue
  simp only
  split
  · have hrest : ((ranges.remnants.order final.degree.keys).filter
        fun id => final.count id > 0).Nodup := by
      apply List.Nodup.filter
      rw [(ranges.remnants.perm _).nodup_iff]
      exact keys_nodup _
    have hmem : ∀ v, v ∈ (ranges.remnants.order final.degree.keys).filter
        (fun id => final.count id > 0) ↔ v ∈ final.degree ∧ v ∉ final.placed := by
      intro v
      rw [mem_filter, (ranges.remnants.perm _).mem_iff, ← AList.mem_keys, decide_eq_true_eq]
      exact and_congr_right (hcount v)
    refine (perm_ext_iff_of_nodup ?_ hnodes).mpr fun v => ?_
    · refine nodup_append.mpr ⟨hplaced, hrest, ?_⟩
      rintro v hv w hw rfl
      exact ((hmem v).mp hw).2 hv
    · rw [mem_append, hmem, ← hfinal.degree]
      constructor
      · rintro (hv | hv)
        · exact (hfinal.degree v).mpr (hfinal.placed_subset hv)
        · exact hv.1
      · intro hv
        by_cases hmem : v ∈ final.placed
        · exact .inl hmem
        · exact .inr ⟨hv, hmem⟩
  · have hsub : final.placed ⊆ config.nodes.map NodeConfig.id := fun v => hfinal.placed_subset
    refine (hplaced.subperm hsub).perm_of_length_le ?_
    rw [length_map]
    omega

theorem Accepts.orderedNodes_ids :
    graph.orderedNodes.map NodeConfig.id = orderedIDs ranges config nodesMap := by
  rw [haccepts.graph]
  simp only [sortNodesTopologically_eq, map_map]
  conv_rhs => rw [← map_id (orderedIDs ranges config nodesMap)]
  apply map_congr_left
  intro id hid
  obtain ⟨n, hn, rfl⟩ := mem_map.mp (haccepts.orderedIDs_perm.mem_iff.mp hid)
  simp [haccepts.parsed.lookup n hn]

/-- The map gives every node back. -/
theorem Accepts.orderedNodes_perm : graph.orderedNodes.Perm config.nodes := by
  have hback : (config.nodes.map NodeConfig.id).map (fun id => (nodesMap.lookup id).getD default) =
      config.nodes := by
    rw [map_map]
    conv_rhs => rw [← map_id config.nodes]
    apply map_congr_left
    intro n hn
    simp [haccepts.parsed.lookup n hn]
  rw [haccepts.graph, ← hback]
  simp only [sortNodesTopologically_eq]
  exact haccepts.orderedIDs_perm.map _

end

/-! ## Edges -/

namespace WorkflowConfig

variable (config : WorkflowConfig)

/-- Some edge leads from one node to the other. -/
def Follows (u v : String) : Prop :=
  ∃ edge ∈ config.edges, edge.source = u ∧ edge.target = v

def OnCycle (id : String) : Prop :=
  Relation.TransGen config.Follows id id

def Reaches : String → String → Prop :=
  Relation.ReflTransGen config.Follows

theorem follows_iff {config : WorkflowConfig} {u v} :
    config.Follows u v ↔ (u, v) ∈ pairs config.edges := by
  simp [Follows]

end WorkflowConfig

/-- A node that the sort has placed comes after the sources of its edges. -/
theorem Accepts.source_first (haccepts : Accepts ranges config graph nodesMap) {edge : EdgeConfig}
    (hedge : edge ∈ config.edges)
    (hplaced : edge.target ∈ (finalState ranges config nodesMap).placed) :
    [edge.source, edge.target].Sublist (graph.orderedNodes.map NodeConfig.id) := by
  obtain ⟨before, after, hsplit⟩ := append_of_mem hplaced
  have hsource : edge.source ∈ before :=
    haccepts.final.invariant.ordered before edge.target after hsplit edge.source
      (follows_iff.mp ⟨edge, hedge, rfl, rfl⟩)
  have hpair : [edge.source, edge.target].Sublist (finalState ranges config nodesMap).placed := by
    rw [hsplit]
    exact (singleton_sublist.mpr hsource).append
      (singleton_sublist.mpr mem_cons_self)
  rw [haccepts.orderedNodes_ids, orderedIDs]
  split
  · exact hpair.trans (sublist_append_left _ _)
  · exact hpair

/-- A node that is not behind a cycle is placed. -/
theorem Accepts.placed_of_not_behind (haccepts : Accepts ranges config graph nodesMap) {v}
    (hv : v ∈ config.nodes.map NodeConfig.id)
    (hfree : ∀ c, config.OnCycle c → ¬ config.Reaches c v) :
    v ∈ (finalState ranges config nodesMap).placed := by
  have hfinal := haccepts.final
  have hfollows : config.Follows = fun u v => (u, v) ∈ pairs config.edges := by
    funext u v
    exact propext follows_iff
  by_contra hnot
  have hsources : ∀ u v, (u, v) ∈ pairs config.edges →
      u ∈ (finalState ranges config nodesMap).degree := by
    intro u v hpair
    obtain ⟨edge, hedge, rfl, -⟩ := follows_iff.mpr hpair
    rw [hfinal.degree]
    simpa using (haccepts.parsed.mem _).mp (haccepts.checked edge hedge).source
  obtain ⟨c, hcycle, hreach⟩ := hfinal.invariant.exists_cycle hfinal.queue hsources
    ((hfinal.degree v).mpr hv) hnot
  rw [← hfollows] at hcycle hreach
  exact hfree c hcycle hreach

/-- The nodes of an accepted configuration are started in an order in which the source of
an edge comes before its target, unless the target lies behind a cycle. Without cycles
the order is topological. -/
theorem buildGraph_ordered (ranges : RangeOrders) (config : WorkflowConfig)
    (builders : PluginBuilders) {graph : Graph}
    (hbuild : buildGraph ranges config builders = .ok graph) :
    graph.orderedNodes.Perm config.nodes ∧
      (∀ edge ∈ config.edges, (∀ c, config.OnCycle c → ¬ config.Reaches c edge.target) →
        [edge.source, edge.target].Sublist (graph.orderedNodes.map NodeConfig.id)) ∧
      ((∀ c, ¬ config.OnCycle c) → ∀ edge ∈ config.edges,
        [edge.source, edge.target].Sublist (graph.orderedNodes.map NodeConfig.id)) := by
  obtain ⟨nodesMap, haccepts⟩ := buildGraph_accepts hbuild
  have hfirst : ∀ edge ∈ config.edges, (∀ c, config.OnCycle c → ¬ config.Reaches c edge.target) →
      [edge.source, edge.target].Sublist (graph.orderedNodes.map NodeConfig.id) := by
    intro edge hedge hfree
    have htarget : edge.target ∈ config.nodes.map NodeConfig.id := by
      simpa using (haccepts.parsed.mem _).mp (haccepts.checked edge hedge).target
    exact haccepts.source_first hedge (haccepts.placed_of_not_behind htarget hfree)
  refine ⟨haccepts.orderedNodes_perm, hfirst, ?_⟩
  intro hacyclic edge hedge
  exact hfirst edge hedge fun c hcycle => absurd hcycle (hacyclic c)

/-- Two edges from a source to a filter, which feeds two nodes that feed each other. -/
def feedbackConfig : WorkflowConfig where
  head := "source"
  nodes := [⟨"left", "l", "p", []⟩, ⟨"filter", "f", "p", []⟩, ⟨"source", "s", "p", []⟩,
    ⟨"right", "r", "p", []⟩]
  edges := [⟨"source", 0, "filter", .signal⟩, ⟨"source", 1, "filter", .payload⟩,
    ⟨"filter", 0, "left", .audio⟩, ⟨"left", 0, "right", .payload⟩, ⟨"right", 0, "left", .payload⟩]
  schedulerMode := .threadPerNode
  schedulerWorkers := 0

/-- Maps are visited backwards. -/
def backwards : RangeOrder := ⟨reverse, reverse_perm⟩

theorem feedbackConfig_filter_free (c : String) (hcycle : feedbackConfig.OnCycle c) :
    ¬ feedbackConfig.Reaches c "filter" := by
  have hsource : ∀ u, ¬ feedbackConfig.Follows u "source" := by
    rintro u ⟨edge, hedge, -, htarget⟩
    revert edge
    decide
  have hfilter : ∀ u, feedbackConfig.Follows u "filter" → u = "source" := by
    rintro u ⟨edge, hedge, rfl, htarget⟩
    revert edge
    decide
  have hunreached : ∀ u, ¬ Relation.TransGen feedbackConfig.Follows u "source" := by
    intro u hu
    obtain ⟨w, -, hlast⟩ := Relation.TransGen.tail'_iff.mp hu
    exact hsource w hlast
  intro hreach
  have hends : Relation.TransGen feedbackConfig.Follows c "filter" :=
    Relation.TransGen.trans_left hcycle hreach
  obtain ⟨w, hw, hlast⟩ := Relation.TransGen.tail'_iff.mp hends
  obtain rfl := hfilter w hlast
  exact hunreached c (Relation.TransGen.trans_left hcycle hw)

theorem buildGraph_ordered_feedbackConfig :
    ∃ graph, buildGraph ⟨backwards, backwards, backwards⟩ feedbackConfig
        (fun _ => some ⟨[], [], fun _ => .ok none⟩) = .ok graph ∧
      graph.orderedNodes.Perm feedbackConfig.nodes ∧
      ["source", "filter"].Sublist (graph.orderedNodes.map NodeConfig.id) := by
  cases hbuild : buildGraph ⟨backwards, backwards, backwards⟩ feedbackConfig
      (fun _ => some ⟨[], [], fun _ => .ok none⟩) with
  | error error =>
    have hok : (buildGraph ⟨backwards, backwards, backwards⟩ feedbackConfig
      (fun _ => some ⟨[], [], fun _ => .ok none⟩)).isOk = true := by decide +kernel
    rw [hbuild] at hok
    cases hok
  | ok graph =>
    obtain ⟨hperm, hordered, -⟩ := buildGraph_ordered _ _ _ hbuild
    refine ⟨graph, rfl, hperm, ?_⟩
    exact hordered ⟨"source", 0, "filter", .signal⟩ mem_cons_self feedbackConfig_filter_free

end Voce.Engine.Graph
