import Voce.Engine.Workflow
import Voce.Foundation.Interleaving
import Voce.Foundation.Transition

/-! # Pause and resume of the nodes

`Workflow.Pause` and `Workflow.Resume` change the state by one compare-and-swap
and then notify the nodes one after the other, so two calls can reach different
nodes in different orders. Controls wait in bounded queues: a queue of each
node, or in worker-pool mode the queue of high priority of a node's worker. The
send blocks while the queue is full. All nodes run and no context is cancelled.
-/

namespace Voce.Engine

open Interleaving Config Channel Transition
open Option (map_eq_some_iff)

def ctrlBufferSize : Nat := 8

inductive ControlType where
  | pause
  | resume
  deriving DecidableEq

/-- Successful calls alternate, the first one pausing. -/
def ControlType.ofSequence (sequence : Nat) : ControlType :=
  if sequence % 2 = 1 then .pause else .resume

inductive NotifyPhase where
  | swap (kind : ControlType)
  /-- The call made the state change of the given number and has notified the
  nodes before `i`. -/
  | enqueue (kind : ControlType) (sequence : Nat) (i : Nat)
  | returned
  deriving DecidableEq

structure NotifyShared where
  n : Nat
  queueOf : Nat → Nat
  state : WorkflowState
  queues : Nat → Channel (Nat × ControlType)
  processed : Nat → List ControlType
  sequence : Nat
  /-- The latest state change a node has been notified of. -/
  latest : Nat → Nat

namespace NotifyShared

def swap (s : NotifyShared) (kind : ControlType) : Except String NotifyShared :=
  let next := match kind with
    | .pause => s.state.pause
    | .resume => s.state.resume
  next.map fun state => { s with state := state, sequence := s.sequence + 1 }

def enqueue (s : NotifyShared) (kind : ControlType) (sequence i : Nat) : Option NotifyShared :=
  ((s.queues (s.queueOf i)).send? (i, kind)).map fun queue =>
    { s with
      queues := Function.update s.queues (s.queueOf i) queue
      latest := Function.update s.latest i (max (s.latest i) sequence) }

def consume (s : NotifyShared) (q : Nat) : Option NotifyShared :=
  (s.queues q).receive?.map fun received =>
    { s with
      queues := Function.update s.queues q received.2
      processed := Function.update s.processed received.1.1
        (s.processed received.1.1 ++ [received.1.2]) }

end NotifyShared

/-- The next operation of a call. A send into a full queue waits. -/
def NotifyPhase.next (s : NotifyShared) : NotifyPhase → Option (NotifyPhase × NotifyShared)
  | .swap kind =>
    match s.swap kind with
    | .ok s' => some (.enqueue kind s'.sequence 0, s')
    | .error _ => some (.returned, s)
  | .enqueue kind sequence i =>
    if i < s.n then
      (s.enqueue kind sequence i).map fun s' => (.enqueue kind sequence (i + 1), s')
    else some (.returned, s)
  | .returned => none

/-- A workflow with the `Pause` and `Resume` calls that were ever made. -/
abbrev Notifications := Config NotifyShared NotifyPhase

namespace Notifications

inductive Label where
  | pause
  | resume
  | advance (call : Nat)
  | consume (q : Nat)

variable (c : Notifications)

def step : Label → Option Notifications
  | .pause => some (c.spawn (.swap .pause))
  | .resume => some (c.spawn (.swap .resume))
  | .advance i => c.advance (NotifyPhase.next c.shared) i
  | .consume q => (c.shared.consume q).map fun shared => { c with shared := shared }

def initial (n : Nat) (queueOf : Nat → Nat) (capacity : Nat) : Notifications :=
  ⟨⟨n, queueOf, .running, fun _ => .empty capacity, fun _ => [], 0, fun _ => 0⟩, []⟩

/-- With all calls returned and all queues empty, every node has last processed
what the workflow state says. -/
def Agrees : Prop :=
  (∀ phase ∈ c.phases, phase = .returned) →
    (∀ i < c.shared.n, (c.shared.queues (c.shared.queueOf i)).items = []) →
    ∀ i < c.shared.n,
      (c.shared.state = .running → (c.shared.processed i).getLast? = none ∨
        (c.shared.processed i).getLast? = some .resume) ∧
      (c.shared.state = .paused → (c.shared.processed i).getLast? = some .pause)

/-- A call notifies a node only while the node has not been notified of a later
state change of the other kind. -/
def NotifiesInOrder : Label → Prop
  | .advance p =>
    match c.phases[p]? with
    | some (.enqueue kind sequence i) => i < c.shared.n →
        c.shared.latest i < sequence ∨ kind = .ofSequence (c.shared.latest i)
    | _ => True
  | _ => True

instance : DecidablePred (NotifiesInOrder c) := by
  intro label
  unfold NotifiesInOrder
  split
  · split <;> infer_instance
  · infer_instance

end Notifications

/-! ## Controls of a node -/

namespace NotifyShared

@[simp]
def queued (s : NotifyShared) (i : Nat) : List ControlType :=
  ((s.queues (s.queueOf i)).items.filter fun item => item.1 = i).map Prod.snd

/-- The controls a node was ever sent. -/
@[simp]
def controls (s : NotifyShared) (i : Nat) : List ControlType := s.processed i ++ s.queued i

/-- A control waits in its own node's queue. -/
def Filed (s : NotifyShared) : Prop :=
  ∀ q, ∀ item ∈ (s.queues q).items, s.queueOf item.1 = q

variable {s s' : NotifyShared} {kind : ControlType} {sequence i : Nat}

theorem enqueue_frame (henqueue : s.enqueue kind sequence i = some s') :
    s'.n = s.n ∧ s'.queueOf = s.queueOf ∧ s'.state = s.state ∧ s'.sequence = s.sequence ∧
      s'.latest = Function.update s.latest i (max (s.latest i) sequence) := by
  simp only [enqueue, map_eq_some_iff] at henqueue
  obtain ⟨queue, -, rfl⟩ := henqueue
  exact ⟨rfl, rfl, rfl, rfl, rfl⟩

theorem enqueue_filed (hs : s.Filed) (henqueue : s.enqueue kind sequence i = some s') :
    s'.Filed := by
  simp only [enqueue, map_eq_some_iff] at henqueue
  obtain ⟨queue, hsend, rfl⟩ := henqueue
  obtain ⟨-, -, hitems⟩ := send?_eq_some hsend
  intro q item hitem
  by_cases hq : q = s.queueOf i
  · subst hq
    simp only [Function.update_self, hitems, List.mem_append, List.mem_singleton] at hitem
    rcases hitem with hitem | rfl
    · exact hs _ item hitem
    · rfl
  · simp only [Function.update_of_ne hq] at hitem
    exact hs q item hitem

theorem enqueue_controls (henqueue : s.enqueue kind sequence i = some s') (b : Nat) :
    s'.controls b = if b = i then s.controls b ++ [kind] else s.controls b := by
  simp only [enqueue, map_eq_some_iff] at henqueue
  obtain ⟨queue, hsend, rfl⟩ := henqueue
  obtain ⟨-, -, hitems⟩ := send?_eq_some hsend
  by_cases hq : s.queueOf b = s.queueOf i
  · by_cases hb : b = i
    · subst hb
      simp [hitems]
    · simp [hitems, hq, hb, Ne.symm hb]
  · have hb : b ≠ i := fun heq => hq (by rw [heq])
    simp [hq, hb]

variable {q : Nat}

theorem consume_frame (hconsume : s.consume q = some s') :
    s'.n = s.n ∧ s'.queueOf = s.queueOf ∧ s'.state = s.state ∧ s'.sequence = s.sequence ∧
      s'.latest = s.latest := by
  simp only [consume, map_eq_some_iff] at hconsume
  obtain ⟨received, -, rfl⟩ := hconsume
  exact ⟨rfl, rfl, rfl, rfl, rfl⟩

theorem consume_filed (hs : s.Filed) (hconsume : s.consume q = some s') : s'.Filed := by
  simp only [consume, map_eq_some_iff] at hconsume
  obtain ⟨⟨head, queue⟩, hreceive, rfl⟩ := hconsume
  obtain ⟨hitems, -⟩ := receive?_eq_some hreceive
  intro p item hitem
  by_cases hp : p = q
  · subst hp
    simp only [Function.update_self] at hitem
    exact hs p item (by rw [hitems]; exact List.mem_cons_of_mem head hitem)
  · simp only [Function.update_of_ne hp] at hitem
    exact hs p item hitem

/-- Processing a control moves it from what waits to what has been processed. -/
theorem consume_controls (hs : s.Filed) (hconsume : s.consume q = some s') (b : Nat) :
    s'.controls b = s.controls b := by
  simp only [consume, map_eq_some_iff] at hconsume
  obtain ⟨⟨⟨node, kind⟩, queue⟩, hreceive, rfl⟩ := hconsume
  obtain ⟨hitems, -⟩ := receive?_eq_some hreceive
  have hnode : s.queueOf node = q := hs q (node, kind) (by rw [hitems]; exact List.mem_cons_self)
  by_cases hb : b = node
  · subst hb
    simp [hnode, hitems]
  · by_cases hq : s.queueOf b = q
    · simp [hq, hitems, hb, Ne.symm hb]
    · simp [hq, hb]

end NotifyShared

namespace Notifications

open NotifyShared

/-- The state after so many changes. -/
def stateOf (sequence : Nat) : WorkflowState := if sequence % 2 = 1 then .paused else .running

/-! ## Invariant -/

structure Sound (s : NotifyShared) : Prop where
  state : s.state = stateOf s.sequence
  latest : ∀ i, s.latest i ≤ s.sequence
  filed : s.Filed
  last : ∀ i, (s.controls i).getLast? =
    if s.latest i = 0 then none else some (.ofSequence (s.latest i))

def Knows (phase : NotifyPhase) (s : NotifyShared) : Prop :=
  ∀ kind sequence i, phase = .enqueue kind sequence i →
    0 < sequence ∧ sequence ≤ s.sequence ∧ kind = .ofSequence sequence

/-- Every node has been notified of the last state change, or the call that
made it has not reached the node yet. -/
def Covered (c : Notifications) : Prop :=
  ∀ i < c.shared.n, c.shared.latest i = c.shared.sequence ∨
    ∃ kind k, k ≤ i ∧ .enqueue kind c.shared.sequence k ∈ c.phases

structure Invariant (c : Notifications) : Prop where
  outline : Outline Sound Knows (fun _ _ => True) c
  covered : Covered c

theorem initial_invariant (n : Nat) (queueOf : Nat → Nat) (capacity : Nat) :
    Invariant (initial n queueOf capacity) where
  outline := .start _ ⟨rfl, fun _ => Nat.le_refl 0, nofun, fun _ => rfl⟩
  covered _ _ := .inl rfl

variable {kind : ControlType}

/-- A successful swap is the next state change and of the kind that is due. -/
theorem swap_ok {s s' : NotifyShared} (hs : s.state = stateOf s.sequence)
    (hswap : s.swap kind = .ok s') : kind = .ofSequence (s.sequence + 1) ∧
      s' = { s with state := stateOf (s.sequence + 1), sequence := s.sequence + 1 } := by
  unfold swap at hswap
  rw [hs] at hswap
  by_cases hodd : s.sequence % 2 = 1
  · have heven : (s.sequence + 1) % 2 ≠ 1 := by omega
    simp only [stateOf, hodd, if_true] at hswap
    simp only [ControlType.ofSequence, stateOf, if_neg heven]
    cases kind with
    | pause => cases hswap
    | resume =>
      cases hswap
      exact ⟨rfl, rfl⟩
  · have hnext : (s.sequence + 1) % 2 = 1 := by omega
    simp only [stateOf, hodd, if_false] at hswap
    simp only [ControlType.ofSequence, stateOf, hnext, if_true]
    cases kind with
    | pause =>
      cases hswap
      exact ⟨rfl, rfl⟩
    | resume => cases hswap

/-! ## Steps -/

variable {c : Notifications} {s : NotifyShared} {p : Nat}

theorem swap_invariant (hc : Invariant c) (hp : c.phases[p]? = some (.swap kind))
    (hswap : c.shared.swap kind = .ok s) :
    Invariant (c.update p (.enqueue kind s.sequence 0) s) := by
  have hsound := hc.outline.shared
  obtain ⟨rfl, rfl⟩ := swap_ok hsound.state hswap
  refine ⟨hc.outline.update hp ⟨rfl, ?_, hsound.filed, hsound.last⟩ ?_ ?_, ?_⟩
  · exact fun i => Nat.le_succ_of_le (hsound.latest i)
  · intro kind sequence i heq
    cases heq
    exact ⟨Nat.succ_pos _, le_rfl, rfl⟩
  · intro other _ hother _ _
    refine ⟨?_, trivial, trivial⟩
    intro kind sequence i heq
    obtain ⟨hpos, hle, hkind⟩ := hother kind sequence i heq
    exact ⟨hpos, Nat.le_succ_of_le hle, hkind⟩
  · intro i _
    exact .inr ⟨_, 0, Nat.zero_le i, mem_update_self hp _ _⟩

/-- A call returns: after a failed swap, or having notified every node. -/
theorem Invariant.return (hc : Invariant c) {phase} (hp : c.phases[p]? = some phase)
    (hdone : ∀ kind sequence i, phase = .enqueue kind sequence i → c.shared.n ≤ i) :
    Invariant (c.update p .returned c.shared) := by
  refine ⟨hc.outline.update hp hc.outline.shared nofun
    (fun other _ hother _ _ => ⟨hother, trivial, trivial⟩), ?_⟩
  intro i hi
  rcases hc.covered i hi with hlatest | ⟨kind, k, hk, hmem⟩
  · exact .inl hlatest
  · refine .inr ⟨kind, k, hk, mem_update_of_ne hp hmem ?_ _ _⟩
    rintro rfl
    have hle := hdone kind _ k rfl
    change i < c.shared.n at hi
    omega

theorem enqueue_sound {s s'} (hs : Sound s) {sequence i} (hpos : 0 < sequence)
    (hle : sequence ≤ s.sequence) (hkind : kind = .ofSequence sequence)
    (horder : s.latest i < sequence ∨ kind = .ofSequence (s.latest i))
    (henqueue : s.enqueue kind sequence i = some s') : Sound s' := by
  obtain ⟨-, -, hstate, hsequence, hlatest⟩ := enqueue_frame henqueue
  refine ⟨?_, ?_, enqueue_filed hs.filed henqueue, ?_⟩
  · rw [hstate, hsequence]
    exact hs.state
  · intro b
    rw [hlatest, hsequence]
    by_cases hb : b = i
    · subst hb
      rw [Function.update_self]
      exact Nat.max_le.mpr ⟨hs.latest b, hle⟩
    · rw [Function.update_of_ne hb]
      exact hs.latest b
  · intro b
    rw [hlatest, enqueue_controls henqueue]
    by_cases hb : b = i
    · subst hb
      have hlast : kind = .ofSequence (max (s.latest b) sequence) := by
        rcases Nat.le_total (s.latest b) sequence with hbefore | hafter
        · rw [max_eq_right hbefore]
          exact hkind
        · -- overtaken by a change of the same kind, the control is still the right one
          rw [max_eq_left hafter]
          exact horder.resolve_left (not_lt.mpr hafter)
      have hne : max (s.latest b) sequence ≠ 0 := by omega
      rw [if_pos rfl, Function.update_self, if_neg hne, ← hlast, List.getLast?_append]
      rfl
    · rw [if_neg hb, Function.update_of_ne hb]
      exact hs.last b

theorem enqueue_invariant (hc : Invariant c) {p sequence i}
    (hp : c.phases[p]? = some (.enqueue kind sequence i))
    (horder : c.shared.latest i < sequence ∨ kind = .ofSequence (c.shared.latest i))
    (henqueue : c.shared.enqueue kind sequence i = some s) :
    Invariant (c.update p (.enqueue kind sequence (i + 1)) s) := by
  obtain ⟨hpos, hle, hkind⟩ := hc.outline.asserted p _ hp kind sequence i rfl
  obtain ⟨hn, -, -, hsequence, hlatest⟩ := enqueue_frame henqueue
  refine ⟨hc.outline.update hp
    (enqueue_sound hc.outline.shared hpos hle hkind horder henqueue) ?_ ?_, ?_⟩
  · intro kind' sequence' i' heq
    cases heq
    rw [hsequence]
    exact ⟨hpos, hle, hkind⟩
  · intro other _ hother _ _
    refine ⟨?_, trivial, trivial⟩
    rw [Knows, hsequence]
    exact hother
  · -- whether the node is up to date afterwards depends on whose call this is
    intro b hb
    change b < s.n at hb
    change s.latest b = s.sequence ∨ _
    rw [hn] at hb
    rw [hsequence, hlatest]
    have hcases := hc.covered b hb
    by_cases hbi : b = i
    · subst hbi
      rw [Function.update_self]
      rcases hcases with hdone | ⟨kind', k, hk, hmem⟩
      · left
        rw [hdone]
        exact max_eq_left hle
      · by_cases hown : sequence = c.shared.sequence
        · left
          rw [hown]
          exact max_eq_right (hc.outline.shared.latest b)
        · right
          refine ⟨kind', k, hk, ?_⟩
          change NotifyPhase.enqueue kind' s.sequence k ∈ _
          rw [hsequence]
          apply mem_update_of_ne hp hmem
          rintro heq
          cases heq
          exact hown rfl
    · rw [Function.update_of_ne hbi]
      rcases hcases with hdone | ⟨kind', k, hk, hmem⟩
      · exact .inl hdone
      · right
        change ∃ kind k, k ≤ b ∧ NotifyPhase.enqueue kind s.sequence k ∈ _
        rw [hsequence]
        by_cases heq : NotifyPhase.enqueue kind' c.shared.sequence k = .enqueue kind sequence i
        · cases heq
          exact ⟨kind, i + 1, by omega, mem_update_self hp _ _⟩
        · exact ⟨kind', k, hk, mem_update_of_ne hp hmem heq _ _⟩

theorem consume_invariant (hc : Invariant c) {q} (hconsume : c.shared.consume q = some s) :
    Invariant { c with shared := s } := by
  obtain ⟨hn, -, hstate, hsequence, hlatest⟩ := consume_frame hconsume
  have hsound := hc.outline.shared
  refine ⟨hc.outline.environment ⟨?_, ?_, consume_filed hsound.filed hconsume, ?_⟩ ?_, ?_⟩
  · rw [hstate, hsequence]
    exact hsound.state
  · rw [hlatest, hsequence]
    exact hsound.latest
  · intro i
    rw [consume_controls hsound.filed hconsume, hlatest]
    exact hsound.last i
  · intro phase hknows
    rw [Knows, hsequence]
    exact hknows
  · have hcovered := hc.covered
    unfold Covered at hcovered ⊢
    rw [hn, hlatest, hsequence]
    exact hcovered

theorem advance_invariant (hc : Invariant c) {phase next} (hp : c.phases[p]? = some phase)
    (hok : c.NotifiesInOrder (.advance p)) (hnext : phase.next c.shared = some (next, s)) :
    Invariant (c.update p next s) := by
  cases phase with
  | swap kind =>
    simp only [NotifyPhase.next] at hnext
    split at hnext
    next hswap =>
      cases hnext
      exact swap_invariant hc hp hswap
    · cases hnext
      exact hc.return hp nofun
  | enqueue kind sequence i =>
    simp only [NotifiesInOrder, hp] at hok
    simp only [NotifyPhase.next] at hnext
    split at hnext
    next hi =>
      obtain ⟨s', henqueue, heq⟩ := map_eq_some_iff.mp hnext
      cases heq
      exact enqueue_invariant hc hp (hok hi) henqueue
    next hlast =>
      cases hnext
      refine hc.return hp ?_
      intro kind' sequence' i' heq
      cases heq
      exact Nat.le_of_not_lt hlast
  | returned => cases hnext

theorem step_invariant {c next label} (hc : Invariant c) (hok : c.NotifiesInOrder label)
    (hstep : step c label = some next) : Invariant next := by
  have hspawn : ∀ kind, Invariant (c.spawn (.swap kind)) := by
    intro kind
    refine ⟨hc.outline.spawn nofun fun _ => ⟨trivial, trivial⟩, ?_⟩
    intro i hi
    rcases hc.covered i hi with hlatest | ⟨kind', k, hk, hmem⟩
    · exact .inl hlatest
    · exact .inr ⟨kind', k, hk, List.mem_append_left _ hmem⟩
  cases label with
  | pause =>
    cases hstep
    exact hspawn .pause
  | resume =>
    cases hstep
    exact hspawn .resume
  | advance p =>
    obtain ⟨phase, moved, s, hp, hnext, rfl⟩ := advance_eq_some hstep
    exact advance_invariant hc hp hok hnext
  | consume q =>
    simp only [step, map_eq_some_iff] at hstep
    obtain ⟨s, hs, rfl⟩ := hstep
    exact consume_invariant hc hs

/-! ## Agreement -/

theorem Invariant.agrees (hc : Invariant c) : Agrees c := by
  intro hreturned hempty i hi
  have hsound := hc.outline.shared
  have hlatest : c.shared.latest i = c.shared.sequence := by
    rcases hc.covered i hi with hlatest | ⟨kind, k, -, hmem⟩
    · exact hlatest
    · cases hreturned _ hmem
  -- with an empty queue the controls sent are the controls processed
  have hlast := hsound.last i
  rw [controls, queued, hempty i hi, hlatest] at hlast
  simp only [List.filter_nil, List.map_nil, List.append_nil] at hlast
  rw [hlast, hsound.state, stateOf, ControlType.ofSequence]
  by_cases hodd : c.shared.sequence % 2 = 1
  · have hne : c.shared.sequence ≠ 0 := by omega
    simp [hodd, hne]
  · by_cases hzero : c.shared.sequence = 0
    · simp [hzero]
    · simp [hodd, hzero]

/-- Workflow and nodes agree after every run in which each node is notified in
the order of the state changes, up to changes of the same kind. -/
theorem run_agrees_nodes (n : Nat) (queueOf : Nat → Nat) (capacity : Nat) (labels : List Label)
    {c : Notifications}
    (hmeets : Meets step NotifiesInOrder (initial n queueOf capacity) labels)
    (hrun : run step (initial n queueOf capacity) labels = some c) : Agrees c := by
  have hinvariant : Invariant c :=
    run_invariant_of_meets Invariant step_invariant (initial_invariant n queueOf capacity) hmeets
      hrun
  exact hinvariant.agrees

/-- `Pause` completes before `Resume` starts; one node. -/
theorem run_agrees_nodes_sequential : ∃ c : Notifications,
    run step (initial 1 id ctrlBufferSize)
      [.pause, .advance 0, .advance 0, .advance 0, .resume, .advance 1, .advance 1, .advance 1,
        .consume 0, .consume 0] = some c ∧
      c.shared.state = .running ∧ c.shared.processed 0 = [.pause, .resume] ∧ Agrees c := by
  refine ⟨_, rfl, rfl, rfl, ?_⟩
  exact run_agrees_nodes 1 id ctrlBufferSize
    [.pause, .advance 0, .advance 0, .advance 0, .resume, .advance 1, .advance 1, .advance 1,
      .consume 0, .consume 0] (by decide) rfl

/-- `Pause` is overtaken between its swap and its notification: the workflow
runs and its node has last processed a pause. -/
theorem overtaken_pause_not_agrees : ∃ c : Notifications,
    run step (initial 1 id ctrlBufferSize)
      [.pause, .advance 0, .resume, .advance 1, .advance 1, .advance 1, .advance 0, .advance 0,
        .consume 0, .consume 0] = some c ∧
      c.phases = [.returned, .returned] ∧ (c.shared.queues 0).items = [] ∧
      c.shared.state = .running ∧ c.shared.processed 0 = [.resume, .pause] ∧ ¬ Agrees c := by
  refine ⟨_, rfl, rfl, rfl, rfl, rfl, ?_⟩
  intro hagrees
  exact absurd ((hagrees (by decide) (by decide) 0 Nat.one_pos).1 rfl) (by decide)

end Notifications

end Voce.Engine
