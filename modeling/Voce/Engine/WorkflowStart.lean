import Voce.Engine.Workflow

/-! # Starting a workflow

A start either brings up every node in order or, at the first node that fails,
takes the nodes before it down again in reverse order. The rollback stops nodes
only: it neither cancels a context nor closes the output, and the state it
leaves makes every later `Stop` a no-op.
-/

namespace Voce.Engine.Workflow

open List

def RunsBefore (w : Workflow) (i : Nat) : Prop :=
  ∀ (j : Nat) (node : Node), w.nodes[j]? = some node → (node.running = true ↔ j < i)

/-- What starting and stopping nodes leaves alone. -/
structure SameResources (w w' : Workflow) : Prop where
  parentDone : w'.parentDone = w.parentDone
  cancelled : w'.cancelled = w.cancelled
  scheduler : w'.scheduler = w.scheduler
  outputClosed : w'.outputClosed = w.outputClosed
  length : w'.nodes.length = w.nodes.length

theorem SameResources.trans {w w' w''} (h : SameResources w w') (h' : SameResources w' w'') :
    SameResources w w'' where
  parentDone := h'.parentDone.trans h.parentDone
  cancelled := h'.cancelled.trans h.cancelled
  scheduler := h'.scheduler.trans h.scheduler
  outputClosed := h'.outputClosed.trans h.outputClosed
  length := h'.length.trans h.length

theorem setNode_sameResources (w : Workflow) (i : Nat) (node : Node) :
    SameResources w (w.setNode i node) :=
  ⟨rfl, rfl, rfl, rfl, length_set⟩

variable {w : Workflow} {i : Nat}

theorem setNode_nodes {old} (hi : w.nodes[i]? = some old) (node : Node) (j : Nat) :
    (w.setNode i node).nodes[j]? = if j = i then some node else w.nodes[j]? := by
  obtain ⟨hlt, -⟩ := List.getElem?_eq_some_iff.mp hi
  by_cases hj : j = i
  · subst hj
    simp [setNode, hlt]
  · simp [setNode, hj, Ne.symm hj]

/-! ## Rollback -/

theorem stopNode_of_runsBefore (hw : w.RunsBefore (i + 1)) (hi : i < w.nodes.length) :
    (w.stopNode i).RunsBefore i ∧ (w.stopNode i).stops = w.stops ++ [i] ∧
      SameResources w (w.stopNode i) := by
  have hat : w.nodes[i]? = some w.nodes[i] := getElem?_eq_getElem hi
  have hrunning : w.nodes[i].running = true := (hw i _ hat).mpr (Nat.lt_succ_self i)
  have hstop : w.stopNode i =
      { w.setNode i { w.nodes[i] with running := false } with stops := w.stops ++ [i] } := by
    simp [stopNode, hat, hrunning]
  rw [hstop]
  refine ⟨?_, rfl, rfl, rfl, rfl, rfl, length_set⟩
  intro j node hj
  have hnode := setNode_nodes hat { w.nodes[i] with running := false } j
  rw [hj] at hnode
  split at hnode
  next heq =>
    cases hnode
    simp [heq]
  · rw [hw j node hnode.symm]
    omega

theorem clearStartError_of_runsBefore (hw : w.RunsBefore i) (hi : i ≤ w.nodes.length) :
    (w.clearStartError i).RunsBefore 0 ∧
      (w.clearStartError i).stops = w.stops ++ (range i).reverse ∧
      SameResources w (w.clearStartError i) := by
  induction i generalizing w with
  | zero => exact ⟨hw, by simp [clearStartError], rfl, rfl, rfl, rfl, rfl⟩
  | succ i ih =>
    obtain ⟨hruns, hstops, hsame⟩ := stopNode_of_runsBefore hw hi
    obtain ⟨hruns', hstops', hsame'⟩ := ih hruns (by rw [hsame.length]; omega)
    refine ⟨hruns', ?_, hsame.trans hsame'⟩
    rw [clearStartError, hstops', hstops, range_succ, reverse_append]
    simp

/-! ## Start -/

def FailsAt (w : Workflow) (i : Nat) (name error : String) : Prop :=
  (∃ node, w.nodes[i]? = some node ∧ node.name = name ∧ node.startError = some error) ∧
    ∀ (j : Nat) (node : Node), j < i → w.nodes[j]? = some node → node.startError = none

variable {name error : String} {node : Node}

/-- Starting one node keeps where the start is going to fail. -/
theorem FailsAt.setNode {i k} (hfails : w.FailsAt i name error) (hk : k ≠ i)
    (hat : w.nodes[k]? = some node) (hnone : node.startError = none) :
    (w.setNode k { node with running := true }).FailsAt i name error := by
  obtain ⟨⟨failing, hi, hfailing⟩, hbefore⟩ := hfails
  refine ⟨⟨failing, by rw [setNode_nodes hat, if_neg hk.symm, hi], hfailing⟩, ?_⟩
  intro j other hj hother
  rw [setNode_nodes hat] at hother
  split at hother
  · cases hother
    exact hnone
  · exact hbefore j other hj hother

theorem RunsBefore.setNode {k} (hw : w.RunsBefore k) (hat : w.nodes[k]? = some node) :
    (w.setNode k { node with running := true }).RunsBefore (k + 1) := by
  intro j other hother
  rw [setNode_nodes hat] at hother
  split at hother
  next heq =>
    cases hother
    simp [heq]
  · rw [hw j other hother]
    omega

theorem startNodes_succ_of_none (hat : w.nodes[i]? = some node) (hnone : node.startError = none)
    (left : Nat) :
    w.startNodes i (left + 1) =
      (w.setNode i { node with running := true }).startNodes (i + 1) left := by
  rw [startNodes, hat]
  dsimp only
  split
  next error herror =>
    rw [hnone] at herror
    cases herror
  · rfl

theorem startNodes_of_failsAt (hfails : w.FailsAt i name error) (k left : Nat) (hw : w.RunsBefore k)
    (hk : k ≤ i) (hleft : i < k + left) :
    ∃ w', w.startNodes k left = (w', .error ("failed to start node " ++ name ++ ": " ++ error)) ∧
      w'.state = .stopped ∧ w'.RunsBefore 0 ∧
      w'.stops = w.stops ++ (range i).reverse ∧ SameResources w w' := by
  induction left generalizing w k with
  | zero => omega
  | succ left ih =>
    obtain ⟨⟨failing, hi, hname, herror⟩, hbefore⟩ := id hfails
    -- at the failing node the rollback runs, before it the loop goes on
    by_cases hki : k = i
    · subst hki
      obtain ⟨hlt, -⟩ := List.getElem?_eq_some_iff.mp hi
      obtain ⟨hruns, hstops, hsame⟩ := clearStartError_of_runsBefore hw (Nat.le_of_lt hlt)
      refine ⟨{ w.clearStartError k with state := .stopped }, ?_, rfl, hruns, hstops,
        ⟨hsame.parentDone, hsame.cancelled, hsame.scheduler, hsame.outputClosed, hsame.length⟩⟩
      simp [startNodes, hi, herror, hname]
    · obtain ⟨hlt, -⟩ := List.getElem?_eq_some_iff.mp hi
      have hat : w.nodes[k]? = some w.nodes[k] := getElem?_eq_getElem (by omega)
      have hnone := hbefore k _ (by omega) hat
      obtain ⟨w', hstart, hstate, hruns, hstops, hsame⟩ :=
        ih (hfails.setNode hki hat hnone) (k + 1) (hw.setNode hat) (by omega) (by omega)
      refine ⟨w', ?_, hstate, hruns, hstops, (setNode_sameResources w k _).trans hsame⟩
      rw [startNodes_succ_of_none hat hnone left]
      exact hstart

/-! ## A failed start -/

/-- A workflow as it is constructed. -/
structure Fresh (w : Workflow) : Prop where
  state : w.state = .pending
  idle : w.RunsBefore 0
  cancelled : w.cancelled = false
  scheduler : ∀ s, w.scheduler = some s → s.cancelled = false
  outputClosed : w.outputClosed = false
  stops : w.stops = []

theorem initNodes_fresh {w w' : Workflow} {configs} (hw : w.Fresh)
    (hinit : w.initNodes configs = .ok w') : w'.Fresh := by
  induction configs generalizing w with
  | nil =>
    cases hinit
    exact hw
  | cons cfg rest ih =>
    obtain ⟨-, -, startError, -, hrest⟩ := initNodes_cons hinit
    apply ih ?_ hrest
    refine ⟨hw.state, ?_, hw.cancelled, hw.scheduler, hw.outputClosed, hw.stops⟩
    intro j node hj
    rw [getElem?_append] at hj
    split at hj
    · exact hw.idle j node hj
    · rw [getElem?_singleton] at hj
      split at hj
      · cases hj
        exact iff_of_false Bool.false_ne_true (Nat.not_lt_zero j)
      · cases hj

theorem newWorkflow_fresh {parentDone graph} (hnew : newWorkflow parentDone graph = .ok w) :
    w.Fresh := by
  simp only [newWorkflow] at hnew
  split at hnew
  · cases hnew
  next built hinit =>
    split at hnew
    · cases hnew
    · cases hnew
      refine initNodes_fresh ⟨rfl, ?_, rfl, ?_, rfl, rfl⟩ hinit
      · intro j node hj
        cases hj
      · intro s hs
        split at hs
        · cases hs
        · cases hs
          rfl

/-- Everything a stopped workflow gives back when exactly its first nodes had
been started. -/
structure Released (w : Workflow) (i : Nat) : Prop where
  state : w.state = .stopped
  context : w.done = true
  scheduler : ∀ s, w.scheduler = some s → (w.done || s.cancelled) = true
  output : w.outputClosed = true
  stops : w.stops = (range i).reverse

theorem start_of_failsAt (hw : w.Fresh) (hfails : w.FailsAt i name error) :
    ∃ w', w.start = (w', .error ("failed to start node " ++ name ++ ": " ++ error)) ∧
      w'.state = .stopped ∧ w'.stops = (range i).reverse ∧ SameResources w w' := by
  obtain ⟨⟨failing, hi, -⟩, -⟩ := id hfails
  obtain ⟨hlt, -⟩ := List.getElem?_eq_some_iff.mp hi
  have hstarting : FailsAt { w with state := .starting } i name error := hfails
  obtain ⟨w', hstart, hstate, -, hstops, hsame⟩ :=
    startNodes_of_failsAt hstarting 0 w.nodes.length hw.idle (Nat.zero_le i) (by omega)
  refine ⟨w', ?_, hstate, ?_, ⟨hsame.parentDone, hsame.cancelled, hsame.scheduler,
    hsame.outputClosed, hsame.length⟩⟩
  · rw [start, hw.state]
    exact hstart
  · rw [hstops]
    rw [hw.stops, nil_append]

/-- A failed start stops exactly the nodes it had started, in reverse order, and
leaves the workflow stopped with its contexts and its output open. A later
`Stop` finds it stopped and releases nothing. -/
theorem stop_after_failed_start_not_released {parentDone : Bool} {graph : GraphConfig}
    {w : Workflow} {i : Nat} {name error : String}
    (hnew : newWorkflow parentDone graph = .ok w) (hfails : w.FailsAt i name error) :
    ∃ w', w.start = (w', .error ("failed to start node " ++ name ++ ": " ++ error)) ∧
      w'.stop = w' ∧ w'.state = .stopped ∧ w'.stops = (range i).reverse ∧
      w'.cancelled = false ∧ (∀ s, w'.scheduler = some s → s.cancelled = false) ∧
      w'.outputClosed = false ∧ ¬ w'.stop.Released i := by
  have hfresh := newWorkflow_fresh hnew
  obtain ⟨w', hstart, hstate, hstops, hsame⟩ := start_of_failsAt hfresh hfails
  have hstop : w'.stop = w' := by rw [stop, if_pos hstate]
  have hopen : w'.outputClosed = false := hsame.outputClosed.trans hfresh.outputClosed
  refine ⟨w', hstart, hstop, hstate, hstops, hsame.cancelled.trans hfresh.cancelled, ?_, hopen, ?_⟩
  · rw [hsame.scheduler]
    exact hfresh.scheduler
  · intro hreleased
    have hclosed := hreleased.output
    rw [hstop, hopen] at hclosed
    cases hclosed

/-- Two nodes in a worker pool; the second one's plugin fails to start. -/
def failingGraph : GraphConfig where
  head := "a"
  mode := .workerPool
  schedulerWorkers := 0
  nodes := [⟨"a", "first", "echo", some (.ok none)⟩,
    ⟨"b", "second", "asr", some (.ok (some "no key"))⟩]
  edges := [⟨"a", "b"⟩]

theorem failingGraph_not_released : ∃ w w' : Workflow,
    newWorkflow false failingGraph = .ok w ∧
      w.start = (w', .error "failed to start node second: no key") ∧
      w'.stops = [0] ∧ ¬ w'.stop.Released 1 := by
  obtain ⟨w, hnew⟩ : ∃ w, newWorkflow false failingGraph = .ok w := ⟨_, rfl⟩
  have hfails : w.FailsAt 1 "second" "no key" := by
    cases hnew
    refine ⟨⟨_, rfl, rfl, rfl⟩, ?_⟩
    intro j node hj hat
    obtain rfl : j = 0 := by omega
    cases hat
    rfl
  obtain ⟨w', hstart, -, -, hstops, -, -, -, hnot⟩ :=
    stop_after_failed_start_not_released hnew hfails
  exact ⟨w, w', hnew, hstart, hstops, hnot⟩

/-- With a single node that fails, nothing was started and still neither the
context nor the output is given back. -/
theorem failed_start_keeps_output_open : ∃ w : Workflow,
    newWorkflow false { failingGraph with mode := .threadPerNode, nodes :=
      [⟨"a", "first", "asr", some (.ok (some "no key"))⟩], edges := [] } = .ok w ∧
      w.start.1.state = .stopped ∧ w.start.1.stop.done = false ∧
      w.start.1.stop.outputClosed = false ∧ ¬ w.start.1.stop.Released 0 := by
  refine ⟨_, rfl, rfl, rfl, rfl, ?_⟩
  intro hreleased
  exact Bool.noConfusion hreleased.output

end Voce.Engine.Workflow
