import Voce.Engine.Workflow
import Voce.Foundation.Indexed
import Voce.Foundation.Transition
import Voce.Remote.Instance

/-! # Remote instances of a session that cannot be created

`NewWorkflow` builds the nodes one after the other, which creates and registers the
instances of remote plugins, and `Start` starts them. A node that cannot be built, an
edge without its nodes or a node that cannot be started ends the creation. Only the
nodes that have been started are stopped again, each by its loop. An instance whose
node was never started stays as it was created, and no cleanup collects it.
-/

namespace Voce.Remote

open List Option AList Transition FiniteMap Plugin Indexed

open Engine.Workflow (EdgeConfig)

/-- The builder of a node. That of a remote plugin draws an ID and asks the server to
create the instance. -/
inductive NodeBuilder where
  | local (built : Except String Unit)
  | remote (instanceID : String) (created : Except String Unit)

structure NodeSpec where
  id : String
  name : String
  builder : Option NodeBuilder

inductive NodeStatus where
  | idle
  | starting
  | failed
  | running
  | stopping
  | exited
  deriving DecidableEq

structure CreatedNode where
  id : String
  name : String
  remote : Option String
  status : NodeStatus
  deriving DecidableEq

inductive CreatorPhase where
  | building
  | wiring
  | starting (i : Nat)
  /-- In `clearStartError`, with so many nodes left, after so many were started. -/
  | rolling (left started : Nat)
  /-- An error was returned, after so many nodes were started. -/
  | failed (started : Nat)
  | created
  deriving DecidableEq

structure Creation where
  pending : List NodeSpec
  edges : List EdgeConfig
  nodes : List CreatedNode
  instances : Instances
  phase : CreatorPhase

inductive CreationLabel where
  | create
  | localStart (ok : Bool)
  | plugin (i : Nat) (label : PluginLabel)
  | leave (i : Nat)
  | exit (i : Nat)

namespace Creation

def begin (instances : Instances) (specs : List NodeSpec) (edges : List EdgeConfig) : Creation :=
  ⟨specs, edges, [], instances, .building⟩

variable (c : Creation)

def setStatus (i : Nat) (node : CreatedNode) (status : NodeStatus) : Creation :=
  { c with nodes := c.nodes.set i { node with status := status } }

def fail : Creation := { c with phase := .failed 0 }

def buildNode (spec : NodeSpec) (rest : List NodeSpec) : Creation :=
  if spec.id ∈ c.nodes.map CreatedNode.id then c.fail
  else if spec.name ∈ c.nodes.map CreatedNode.name then c.fail
  else
    let built := fun remote => { c with
      pending := rest, nodes := c.nodes ++ [⟨spec.id, spec.name, remote, .idle⟩] }
    match spec.builder with
    | none => c.fail
    | some (.local (.error _)) => c.fail
    | some (.local (.ok ())) => built none
    | some (.remote instanceID created) =>
      match c.instances.build instanceID created with
      | (instances, .error _) => { c with instances := instances }.fail
      | (instances, .ok ()) => { built (some instanceID) with instances := instances }

def wireEdge (edge : EdgeConfig) (rest : List EdgeConfig) : Creation :=
  if edge.source ∉ c.nodes.map CreatedNode.id ∨ edge.target ∉ c.nodes.map CreatedNode.id then c.fail
  else { c with edges := rest }

def startReturned (i : Nat) (node : CreatedNode) (ok : Bool) : Creation :=
  if ok then { c.setStatus i node .running with phase := .starting (i + 1) }
  else { c.setStatus i node .failed with phase := .rolling i (i + 1) }

def stopNode (i : Nat) : Creation :=
  match c.nodes[i]? with
  | none => c
  | some node => if node.status = .running then c.setStatus i node .stopping else c

def pluginOf (node : CreatedNode) : Option Plugin :=
  node.remote.bind c.instances.registered.lookup

def startNode (i : Nat) : Option Creation :=
  match c.nodes[i]? with
  | none => some { c with phase := .created }
  | some node =>
    if node.status = .idle then some (c.setStatus i node .starting)
    else
      match (c.pluginOf node).map start with
      | some (.returned ok) => some (c.startReturned i node ok)
      | _ => none

def create : Option Creation :=
  match c.phase with
  | .building =>
    match c.pending with
    | [] => some { c with phase := .wiring }
    | spec :: rest => some (c.buildNode spec rest)
  | .wiring =>
    match c.edges with
    | [] => some { c with phase := .starting 0 }
    | edge :: rest => some (c.wireEdge edge rest)
  | .starting i => c.startNode i
  | .rolling (left + 1) started => some { c.stopNode left with phase := .rolling left started }
  | .rolling 0 started => some { c with phase := .failed started }
  | .failed _ | .created => none

variable (status : NodeStatus)

/-- The status of the node in which its plugin can make a step. -/
def Runs : PluginLabel → Prop
  | .onStart | .runInstance _ | .startReply _ | .startFailed => status = .starting
  | .onStop | .stopReply _ | .stopped => status = .stopping
  | .recvFailed _ | .readerEnds | .eventFailed => True

instance decidableRuns : ∀ status label, Decidable (Runs status label) := by
  intro status label
  unfold Runs
  split <;> infer_instance

def stepPlugin (id : String) (label : PluginLabel) : Option Creation :=
  match c.instances.registered.lookup id with
  | none => none
  | some plugin =>
    (plugin.step label).map fun next =>
      { c with instances := { c.instances with
          registered := c.instances.registered.insert id next } }

def step : CreationLabel → Option Creation
  | .create => c.create
  | .localStart ok =>
    match c.phase with
    | .starting i =>
      match c.nodes[i]? with
      | none => none
      | some node =>
        if node.status = .starting ∧ node.remote = none then some (c.startReturned i node ok)
        else none
    | _ => none
  | .plugin i label =>
    match c.nodes[i]? with
    | none => none
    | some node =>
      match node.remote with
      | none => none
      | some id => if Runs node.status label then c.stepPlugin id label else none
  | .leave i =>
    match c.nodes[i]? with
    | none => none
    | some node => if node.status = .running then some (c.setStatus i node .stopping) else none
  | .exit i =>
    match c.nodes[i]? with
    | none => none
    | some node =>
      if node.status = .stopping ∧ (c.pluginOf node).all (fun p => p.stop = .ended) then
        some (c.setStatus i node .exited)
      else none

/-! ## What the progress says of the nodes -/

def Up : Prop :=
  status = .running ∨ status = .stopping ∨ status = .exited

/-- The node was started and does not run. -/
def Down : Prop :=
  status = .failed ∨ status = .stopping ∨ status = .exited

/-- The statuses of node `j` in a phase of the creation. -/
def Allows : CreatorPhase → Nat → NodeStatus → Prop
  | .building, _, status | .wiring, _, status => status = .idle
  | .starting i, j, status =>
    (j < i → Up status) ∧ (j = i → status = .idle ∨ status = .starting) ∧
      (i < j → status = .idle)
  | .rolling left started, j, status =>
    (j < left → Up status) ∧ (left ≤ j → j < started → Down status) ∧
      (started ≤ j → status = .idle) ∧ left < started
  | .failed started, j, status =>
    (j < started → Down status) ∧ (started ≤ j → status = .idle)
  | .created, _, status => status ≠ .idle

/-- The status of a node agrees with the progress of its plugin. -/
def Agrees : NodeStatus → Plugin → Prop
  | .idle, plugin => plugin.start = .notCalled
  | .starting, _ => True
  | .failed, plugin => plugin.start = .returned false
  | .running, plugin | .stopping, plugin => plugin.start = .returned true
  | .exited, plugin => plugin.stop = .ended

/-- The instance of a node is registered, and is as far as the node is. -/
def Holds (registered : AList fun _ : String => Plugin) (node : CreatedNode) : Prop :=
  ∀ id, node.remote = some id →
    ∃ plugin, registered.lookup id = some plugin ∧ plugin.Sound ∧ Agrees node.status plugin

structure Good (c : Creation) : Prop where
  allows : ∀ (j : Nat) (node : CreatedNode), c.nodes[j]? = some node → Allows c.phase j node.status
  holds : ∀ node ∈ c.nodes, Holds c.instances.registered node
  distinct : (c.nodes.filterMap CreatedNode.remote).Nodup

theorem begin_good (instances : Instances) (specs : List NodeSpec) (edges : List EdgeConfig) :
    (begin instances specs edges).Good where
  allows := nofun
  holds := nofun
  distinct := nodup_nil

/-- No two nodes have the same instance. -/
theorem eq_of_remote {nodes : List CreatedNode}
    (hdistinct : (nodes.filterMap CreatedNode.remote).Nodup) {node other : CreatedNode}
    (hnode : node ∈ nodes) (hother : other ∈ nodes) {id} (hid : node.remote = some id)
    (hid' : other.remote = some id) : node = other := by
  have hpairs := pairwise_filterMap.mp hdistinct
  have : Std.Symm fun a b : CreatedNode => ∀ i, a.remote = some i → ∀ j, b.remote = some j →
      i ≠ j := ⟨fun _ _ h i hi j hj => (h j hj i hi).symm⟩
  by_contra hne
  exact hpairs.forall hnode hother hne id hid id hid' rfl

namespace Good

variable {c d : Creation} (hc : c.Good)
include hc

/-- The creation gets into another phase. -/
theorem enter {phase}
    (hallows : ∀ (j : Nat) (node : CreatedNode), c.nodes[j]? = some node →
      Allows c.phase j node.status → Allows phase j node.status) :
    ({ c with phase := phase } : Creation).Good where
  allows j node hj := hallows j node hj (hc.allows j node hj)
  holds := hc.holds
  distinct := hc.distinct

variable {node : CreatedNode} {i : Nat}

/-- One node gets another status, and the creation gets into another phase. -/
theorem setStatus (hi : c.nodes[i]? = some node)
    (status : NodeStatus) (phase : CreatorPhase) (hown : Allows phase i status)
    (hagrees : ∀ id plugin, node.remote = some id →
      c.instances.registered.lookup id = some plugin → plugin.Sound →
      Agrees node.status plugin → Agrees status plugin)
    (hothers : ∀ (j : Nat) (other : NodeStatus), j ≠ i → Allows c.phase j other →
      Allows phase j other) :
    ({ c.setStatus i node status with phase := phase } : Creation).Good where
  allows j other hj := by
    have hj' := (getElem?_set hi { node with status := status } j).symm.trans hj
    split at hj'
    next hij =>
      cases hj'
      exact hij ▸ hown
    next hij => exact hothers j other.status hij (hc.allows j other hj')
  holds other hother := by
    rcases mem_or_eq_of_mem_set hother with hold | rfl
    · exact hc.holds other hold
    · intro id hid
      obtain ⟨plugin, hlookup, hsound, hagreed⟩ := hc.holds node (mem_of_getElem? hi) id hid
      exact ⟨plugin, hlookup, hsound, hagrees id plugin hid hlookup hsound hagreed⟩
  distinct := by
    have hremotes : (c.nodes.set i { node with status := status }).filterMap CreatedNode.remote =
        c.nodes.filterMap CreatedNode.remote := filterMap_set hi CreatedNode.remote rfl
    exact hremotes.symm ▸ hc.distinct

theorem fail (hphase : c.phase = .building ∨ c.phase = .wiring) : c.fail.Good := by
  apply hc.enter
  intro j node _ hallows
  have hidle : node.status = .idle := by
    rcases hphase with hphase | hphase <;> (rw [hphase] at hallows; exact hallows)
  exact ⟨fun hj => absurd hj (Nat.not_lt_zero j), fun _ => hidle⟩

/-- A node is built, with its instance if it has one. -/
theorem append (hphase : c.phase = .building) (hidle : node.status = .idle) {instances}
    (hnew : Holds instances.registered node)
    (hold : ∀ id plugin, c.instances.registered.lookup id = some plugin →
      instances.registered.lookup id = some plugin)
    (hfresh : ∀ id, node.remote = some id → id ∉ c.instances.registered) (rest : List NodeSpec) :
    ({ c with pending := rest, nodes := c.nodes ++ [node], instances := instances } :
      Creation).Good where
  allows j other hj := by
    have hmem := mem_of_getElem? hj
    dsimp only
    rw [hphase]
    rcases mem_append.mp hmem with hmem | hmem
    · obtain ⟨k, hk⟩ := mem_iff_getElem?.mp hmem
      have hallows := hc.allows k other hk
      rw [hphase] at hallows
      exact hallows
    · rw [mem_singleton.mp hmem]
      exact hidle
  holds other hother := by
    rcases mem_append.mp hother with hmem | hmem
    · intro id hid
      obtain ⟨plugin, hlookup, hplugin⟩ := hc.holds other hmem id hid
      exact ⟨plugin, hold id plugin hlookup, hplugin⟩
    · rw [mem_singleton.mp hmem]
      exact hnew
  distinct := by
    dsimp only
    rw [filterMap_append, nodup_append]
    refine ⟨hc.distinct, ?_, ?_⟩
    · cases hremote : node.remote with
      | none | some id => simp [hremote]
    · intro id hid other hother heq
      subst heq
      obtain ⟨owner, howner, hremote⟩ := mem_filterMap.mp hid
      obtain ⟨plugin, hlookup, -⟩ := hc.holds owner howner id hremote
      obtain ⟨newer, hnewer, hremote'⟩ := mem_filterMap.mp hother
      rw [mem_singleton.mp hnewer] at hremote'
      exact hfresh id hremote' (mem_iff.mpr ⟨_, hlookup⟩)

theorem buildNode (hphase : c.phase = .building) (spec : NodeSpec) (rest : List NodeSpec) :
    (c.buildNode spec rest).Good := by
  unfold Creation.buildNode
  split
  · exact hc.fail (.inl hphase)
  · split
    · exact hc.fail (.inl hphase)
    · split
      · exact hc.fail (.inl hphase)
      · exact hc.fail (.inl hphase)
      · refine hc.append hphase rfl ?_ (fun _ _ h => h) ?_ rest
        · intro id hid
          cases hid
        · intro id hid
          cases hid
      next id created hbuilder =>
        split
        next instances error hbuild =>
          have hsame := Instances.build_of_error hbuild
          have hc' : ({ c with instances := instances } : Creation).Good :=
            ⟨hc.allows, fun node hnode => hsame ▸ hc.holds node hnode, hc.distinct⟩
          exact hc'.fail (.inl hphase)
        next instances hbuild =>
          obtain ⟨hfree, hinsert⟩ := Instances.build_eq_ok hbuild
          refine hc.append hphase rfl ?_ ?_ ?_ rest
          · intro other hother
            cases hother
            exact ⟨.new, by rw [hinsert, lookup_insert], new_sound, rfl⟩
          · intro other plugin hlookup
            have hmem := mem_iff.mpr ⟨_, hlookup⟩
            rw [hinsert, lookup_insert_of_mem hfree hmem]
            exact hlookup
          · intro other hother
            cases hother
            exact hfree

theorem wireEdge (hphase : c.phase = .wiring) (edge : EdgeConfig) (rest : List EdgeConfig) :
    (c.wireEdge edge rest).Good := by
  unfold Creation.wireEdge
  split
  · exact hc.fail (.inr hphase)
  · exact ⟨hc.allows, hc.holds, hc.distinct⟩

theorem startReturned (hphase : c.phase = .starting i) (hi : c.nodes[i]? = some node) {ok}
    (hreturned : ∀ id plugin, node.remote = some id →
      c.instances.registered.lookup id = some plugin → plugin.start = .returned ok) :
    (c.startReturned i node ok).Good := by
  cases ok with
  | true =>
    refine hc.setStatus hi _ _ ?_
      (fun id plugin hid hlookup _ _ => hreturned id plugin hid hlookup) ?_
    · exact ⟨fun _ => .inl rfl, fun h => (by omega), fun h => (by omega)⟩
    · intro j other hj hallows
      rw [hphase] at hallows
      obtain ⟨hup, -, hidle⟩ := hallows
      exact ⟨fun h => hup (by omega), fun h => .inl (hidle (by omega)), fun h => hidle (by omega)⟩
  | false =>
    refine hc.setStatus hi _ _ ?_
      (fun id plugin hid hlookup _ _ => hreturned id plugin hid hlookup) ?_
    · exact ⟨fun h => (by omega), fun _ _ => .inl rfl, fun h => (by omega), by omega⟩
    · intro j other hj hallows
      rw [hphase] at hallows
      obtain ⟨hup, -, hidle⟩ := hallows
      exact ⟨hup, fun h h' => (by omega), fun h => hidle (by omega), by omega⟩

theorem startNode (hphase : c.phase = .starting i) (hstep : c.startNode i = some d) : d.Good := by
  unfold Creation.startNode at hstep
  split at hstep
  next hnone =>
    cases hstep
    apply hc.enter
    intro j node hj hallows
    rw [hphase] at hallows
    have hlt : j < i := by
      have := getElem?_eq_none_iff.mp hnone
      obtain ⟨hj', -⟩ := List.getElem?_eq_some_iff.mp hj
      omega
    rcases hallows.1 hlt with h | h | h <;> (rw [h]; exact nofun)
  next node hi =>
    split at hstep
    · cases hstep
      refine hc.setStatus hi .starting c.phase ?_ (fun _ _ _ _ _ _ => trivial) (fun _ _ _ h => h)
      rw [hphase]
      exact ⟨fun h => absurd h (lt_irrefl i), fun _ => .inr rfl,
        fun h => absurd h (lt_irrefl i)⟩
    · split at hstep
      next ok hplugin =>
        cases hstep
        refine hc.startReturned hphase hi ?_
        intro id plugin hid hlookup
        rw [pluginOf, hid, bind_some, hlookup, map_some, some.injEq] at hplugin
        exact hplugin
      · cases hstep

theorem stopNode {left started} (hphase : c.phase = .rolling (left + 1) started) :
    ({ c.stopNode left with phase := .rolling left started } : Creation).Good := by
  have hkeep : ∀ (j : Nat) (status : NodeStatus), j ≠ left ∨ status ≠ .running →
      Allows c.phase j status → Allows (.rolling left started) j status := by
    intro j status hother hallows
    rw [hphase] at hallows
    obtain ⟨hup, hdown, hidle, hlt⟩ := hallows
    refine ⟨fun h => hup (by omega), fun h h' => ?_, hidle, by omega⟩
    by_cases hj : j = left
    · rcases hup (by omega) with hstatus | hstatus
      · exact absurd hstatus (hother.resolve_left (fun hne => hne hj))
      · exact .inr hstatus
    · exact hdown (by omega) h'
  unfold Creation.stopNode
  split
  next hnone =>
    apply hc.enter
    intro j node hj
    have hne : j ≠ left := by
      rintro rfl
      rw [hnone] at hj
      cases hj
    exact hkeep j node.status (.inl hne)
  next node hi =>
    split
    next hrunning =>
      refine hc.setStatus hi _ _ ?_ ?_ (fun j status hj => hkeep j status (.inl hj))
      · have hallows := hc.allows left node hi
        rw [hphase] at hallows
        have hlt := hallows.2.2.2
        exact ⟨fun h => (by omega), fun _ _ => .inr (.inl rfl), fun h => (by omega), by omega⟩
      · intro id plugin _ _ _ hagrees
        rw [hrunning] at hagrees
        exact hagrees
    next hrunning =>
      apply hc.enter
      intro j other hj
      by_cases hjl : j = left
      · subst hjl
        rw [hi] at hj
        cases hj
        exact hkeep j node.status (.inr hrunning)
      · exact hkeep j other.status (.inl hjl)

theorem create (hstep : c.create = some d) : d.Good := by
  unfold Creation.create at hstep
  split at hstep
  next hphase =>
    split at hstep
    · cases hstep
      apply hc.enter
      intro j node _ hallows
      rw [hphase] at hallows
      exact hallows
    next spec rest hpending =>
      cases hstep
      exact hc.buildNode hphase spec rest
  next hphase =>
    split at hstep
    · cases hstep
      apply hc.enter
      intro j node _ hallows
      rw [hphase] at hallows
      exact ⟨fun h => absurd h (Nat.not_lt_zero j), fun _ => .inl hallows, fun _ => hallows⟩
    next edge rest hedges =>
      cases hstep
      exact hc.wireEdge hphase edge rest
  next i hphase => exact hc.startNode hphase hstep
  next left started hphase =>
    cases hstep
    exact hc.stopNode hphase
  next started hphase =>
    cases hstep
    apply hc.enter
    intro j node _ hallows
    rw [hphase] at hallows
    exact ⟨hallows.2.1 (Nat.zero_le j), hallows.2.2.1⟩
  · cases hstep
  · cases hstep

end Good

/-- A node that was started may stop and exit at any time. -/
theorem Allows.advance {phase j status next} (hallows : Allows phase j status) (hstatus : Up status)
    (hnext : Up next ∧ Down next) : Allows phase j next := by
  have hidle : status ≠ .idle ∧ status ≠ .starting ∧ next ≠ .idle := by
    refine ⟨?_, ?_, ?_⟩
    · rintro rfl
      simp [Up] at hstatus
    · rintro rfl
      simp [Up] at hstatus
    · rintro rfl
      simp [Up] at hnext
  cases phase with
  | building | wiring => exact absurd hallows hidle.1
  | starting i =>
    refine ⟨fun _ => hnext.1, fun h => ?_, fun h => absurd (hallows.2.2 h) hidle.1⟩
    exact absurd (hallows.2.1 h) (not_or.mpr ⟨hidle.1, hidle.2.1⟩)
  | rolling left started =>
    exact ⟨fun _ => hnext.1, fun _ _ => hnext.2, fun h => absurd (hallows.2.2.1 h) hidle.1,
      hallows.2.2.2⟩
  | failed started => exact ⟨fun _ => hnext.2, fun h => absurd (hallows.2 h) hidle.1⟩
  | created => exact hidle.2.2

/-- A step of a plugin that its node admits keeps it as far as the node is. -/
theorem Agrees.step {status plugin next label} (hagrees : Agrees status plugin)
    (hruns : Runs status label) (hstep : plugin.step label = some next) : Agrees status next := by
  have hstarts : status ≠ .starting → ¬ Starts label := by
    intro hstatus hlabel
    cases label <;> first | exact hlabel | exact hstatus hruns
  have hstops : status ≠ .stopping → ¬ Stops label := by
    intro hstatus hlabel
    cases label <;> first | exact hlabel | exact hstatus hruns
  cases status with
  | starting => trivial
  | exited => exact (step_stop hstep (hstops nofun)).trans hagrees
  | _ =>
    exact (step_start hstep (hstarts nofun)).trans hagrees

namespace Good

variable {c d : Creation}

theorem stepPlugin (hc : c.Good) {node : CreatedNode} (hnode : node ∈ c.nodes) {id}
    (hid : node.remote = some id) {label} (hruns : Runs node.status label)
    (hstep : c.stepPlugin id label = some d) : d.Good := by
  unfold Creation.stepPlugin at hstep
  split at hstep
  · cases hstep
  next plugin hlookup =>
    obtain ⟨next, hnext, rfl⟩ := map_eq_some_iff.mp hstep
    refine ⟨hc.allows, ?_, hc.distinct⟩
    intro other hother id' hid'
    obtain ⟨old, hold, hsound, hagrees⟩ := hc.holds other hother id' hid'
    by_cases hsame : id' = id
    · subst hsame
      obtain rfl := eq_of_remote hc.distinct hnode hother hid hid'
      rw [hlookup] at hold
      cases hold
      exact ⟨next, lookup_insert _, hsound.step hnext, hagrees.step hruns hnext⟩
    · exact ⟨old, (lookup_insert_ne hsame).trans hold, hsound, hagrees⟩

theorem step {label} (hc : c.Good) (hstep : c.step label = some d) : d.Good := by
  cases label with
  | create => exact hc.create hstep
  | localStart ok =>
    simp only [Creation.step] at hstep
    split at hstep
    next i hphase =>
      split at hstep
      · cases hstep
      next node hi =>
        obtain ⟨hlocal, hstep⟩ := ite_none_right_eq_some.mp hstep
        cases hstep
        refine hc.startReturned hphase hi ?_
        intro id plugin hid
        rw [hlocal.2] at hid
        cases hid
    · cases hstep
  | plugin i label =>
    simp only [Creation.step] at hstep
    split at hstep
    · cases hstep
    next node hi =>
      split at hstep
      · cases hstep
      next id hid =>
        split at hstep
        next hruns => exact hc.stepPlugin (mem_of_getElem? hi) hid hruns hstep
        · cases hstep
  | leave i =>
    simp only [Creation.step] at hstep
    split at hstep
    · cases hstep
    next node hi =>
      split at hstep
      next hrunning =>
        cases hstep
        refine hc.setStatus hi _ c.phase ?_ ?_ (fun _ _ _ h => h)
        · exact (hc.allows i node hi).advance (.inl hrunning) ⟨.inr (.inl rfl), .inr (.inl rfl)⟩
        · intro id plugin _ _ _ hagrees
          rw [hrunning] at hagrees
          exact hagrees
      · cases hstep
  | exit i =>
    simp only [Creation.step] at hstep
    split at hstep
    · cases hstep
    next node hi =>
      obtain ⟨hstopping, hstep⟩ := ite_none_right_eq_some.mp hstep
      cases hstep
      refine hc.setStatus hi _ c.phase ?_ ?_ (fun _ _ _ h => h)
      · exact (hc.allows i node hi).advance (.inr (.inl hstopping.1))
          ⟨.inr (.inr rfl), .inr (.inr rfl)⟩
      · intro id plugin hid hlookup _ _
        have hover := hstopping.2
        rw [pluginOf, hid, bind_some, hlookup, all_some, decide_eq_true_eq] at hover
        exact hover

theorem run (hc : c.Good) {labels} (hrun : run Creation.step c labels = some d) :
    d.Good :=
  run_invariant Good Good.step hc hrun

/-- Where the creation has failed and every loop has exited, the instances of the nodes
that were started can be collected and the others cannot. -/
theorem zombie_iff (hc : c.Good) {started} (hphase : c.phase = .failed started) {j node}
    (hj : c.nodes[j]? = some node) (hquiet : node.status ≠ .stopping) {id}
    (hid : node.remote = some id) : id ∈ c.instances.zombies ↔ j < started := by
  obtain ⟨plugin, hlookup, hsound, hagrees⟩ := hc.holds node (mem_of_getElem? hj) id hid
  have hallows := hc.allows j node hj
  rw [hphase] at hallows
  rw [Instances.mem_zombies, hlookup]
  constructor
  · rintro ⟨other, hother, hzombie⟩
    cases hother
    by_contra hlt
    rw [hallows.2 (Nat.le_of_not_lt hlt)] at hagrees
    rw [hsound.fresh hagrees] at hzombie
    exact absurd hzombie (by decide)
  · intro hlt
    refine ⟨plugin, rfl, ?_⟩
    rcases hallows.1 hlt with hfailed | hstopping | hexited
    · rw [hfailed] at hagrees
      exact hsound.failed hagrees
    · exact absurd hstopping hquiet
    · rw [hexited] at hagrees
      exact hsound.ended hagrees

end Good

/-- A cleanup finds the instance, takes it out of the map, and off the server if the
request gets through. -/
structure Reclaimed (c : Creation) (reaches : String → Bool) (id : String) : Prop where
  collected : id ∈ c.instances.zombies
  removed : id ∉ (c.instances.cleanupZombieInstances reaches).registered
  destroyed : reaches id = true → id ∉ (c.instances.cleanupZombieInstances reaches).server

theorem reclaimed_iff {c : Creation} {reaches id} :
    c.Reclaimed reaches id ↔ id ∈ c.instances.zombies := by
  obtain ⟨hregistered, hserver⟩ :=
    Instances.foldl_collect reaches c.instances.zombies c.instances
  refine ⟨Reclaimed.collected, fun hzombie => ⟨hzombie, ?_, ?_⟩⟩
  · intro hmem
    exact ((hregistered id).mp hmem).2 hzombie
  · intro hreaches hmem
    exact ((hserver id).mp hmem).2 ⟨hzombie, hreaches⟩

/-- The loops of all nodes have exited. -/
def Quiet (c : Creation) : Prop :=
  ∀ node ∈ c.nodes, node.status ≠ .running ∧ node.status ≠ .stopping

instance (c : Creation) : Decidable c.Quiet := inferInstanceAs (Decidable (∀ _ ∈ _, _))

/-- Once a creation has failed and its loops have exited, the next cleanup reclaims all
its instances exactly if none of them belongs to a node that was not started: no remote
node was built before `NewWorkflow` failed, and none comes after the node at which
`Start` failed. -/
theorem failed_reclaimed_iff {instances : Instances} {specs : List NodeSpec}
    {edges : List EdgeConfig} {labels : List CreationLabel} {c : Creation} {started : Nat}
    (hrun : run step (begin instances specs edges) labels = some c)
    (hfailed : c.phase = .failed started) (hquiet : c.Quiet) (reaches : String → Bool) :
    (∀ node ∈ c.nodes, ∀ id, node.remote = some id → c.Reclaimed reaches id) ↔
      ∀ (j : Nat) (node : CreatedNode), c.nodes[j]? = some node → node.remote ≠ none →
        j < started := by
  have hgood := (begin_good instances specs edges).run hrun
  constructor
  · intro hall j node hj hremote
    obtain ⟨id, hid⟩ := ne_none_iff_exists'.mp hremote
    have hmem := mem_of_getElem? hj
    have hzombie := reclaimed_iff.mp (hall node hmem id hid)
    exact (hgood.zombie_iff hfailed hj (hquiet node hmem).2 hid).mp hzombie
  · intro hbefore node hmem id hid
    obtain ⟨j, hj⟩ := mem_iff_getElem?.mp hmem
    have hlt := hbefore j node hj (by rw [hid]; nofun)
    exact reclaimed_iff.mpr ((hgood.zombie_iff hfailed hj (hquiet node hmem).2 hid).mpr hlt)

/-! ## Two failed creations -/

section Examples

def remoteFirst (built : Except String Unit) : List NodeSpec :=
  [⟨"a", "first", some (.remote "i-1" (.ok ()))⟩, ⟨"b", "second", some (.local built)⟩]

/-- The instance is started, and stopped when the second node cannot be started. -/
def rolledBack : List CreationLabel :=
  [.create, .create, .create, .create, .create, .plugin 0 .onStart, .plugin 0 (.runInstance true),
    .plugin 0 (.startReply .ok), .create, .create, .localStart false, .create, .create,
    .plugin 0 .onStop, .plugin 0 (.stopReply .ok), .plugin 0 .stopped, .exit 0]

/-- What can be compared of a creation. -/
def summary (c : Creation) : CreatorPhase × List CreatedNode × List (Option PluginState) :=
  (c.phase, c.nodes, c.nodes.map fun node => (c.pluginOf node).map state)

def empty : Instances := ⟨∅, []⟩

theorem failed_reclaimed_iff_rolledBack :
    ∃ c, run step (begin empty (remoteFirst (.ok ())) []) rolledBack = some c ∧
      c.phase = .failed 2 ∧ c.Reclaimed (fun _ => true) "i-1" := by
  have hsummary :
      (run step (begin empty (remoteFirst (.ok ())) []) rolledBack).map summary =
        some (.failed 2, [⟨"a", "first", some "i-1", .exited⟩, ⟨"b", "second", none, .failed⟩],
          [some .stopped, none]) := by
    decide +kernel
  obtain ⟨c, hrun, hc⟩ := map_eq_some_iff.mp hsummary
  obtain ⟨hphase, hrest⟩ := Prod.mk.inj hc
  obtain ⟨hnodes, -⟩ := Prod.mk.inj hrest
  have hquiet : c.Quiet := by
    unfold Quiet
    rw [hnodes]
    decide
  refine ⟨c, hrun, hphase, ?_⟩
  refine (failed_reclaimed_iff hrun hphase hquiet (fun _ => true)).mpr ?_
    ⟨"a", "first", some "i-1", .exited⟩ (by rw [hnodes]; exact mem_cons_self) "i-1" rfl
  intro j node hj _
  obtain ⟨hlt, -⟩ := List.getElem?_eq_some_iff.mp hj
  rw [hnodes] at hlt
  exact hlt

/-- The second node cannot be built, so the instance of the first is never started. -/
theorem buildFailed_not_reclaimed :
    ∃ c, run step (begin empty (remoteFirst (.error "invalid config")) [])
        [.create, .create] = some c ∧ c.phase = .failed 0 ∧ c.Quiet ∧
      c.nodes.map CreatedNode.remote = [some "i-1"] ∧
      ¬ c.Reclaimed (fun _ => true) "i-1" := by
  refine ⟨_, rfl, rfl, by decide, rfl, ?_⟩
  rw [reclaimed_iff]
  decide +kernel

end Examples

end Creation

end Voce.Remote
