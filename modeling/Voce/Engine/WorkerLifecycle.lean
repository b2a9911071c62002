import Voce.Engine.WorkerPool

/-! # Flags of a node in the pool

The running flag of a node is set once, by `Start`, and taken away once, by the
`Stop` that then calls `OnStop`. So no two goroutines are ever between the two
steps of a `Stop` of the same node.
-/

namespace Voce.Engine

open Interleaving PoolShared BaseNode Option

variable {Value : Type}

/-- The goroutine has taken the running flag of the node away. -/
def PoolCall.Stops (call : PoolCall Value) (i : Nat) : Prop :=
  match call with
  | .stopCall node | .onStop node => node = i
  | _ => False

namespace PoolShared

/-- What the flags say between any two steps. -/
structure Flagged (s : PoolShared Value) : Prop where
  running : ∀ i, (s.nodes i).running = true →
    (s.nodes i).start = .returned ∧ (s.nodes i).stop = .notCalled
  stopped : ∀ i, (s.nodes i).stop ≠ .notCalled → (s.nodes i).start = .returned

/-- What a goroutine knows that has taken a running flag away. -/
structure Owns (call : PoolCall Value) (s : PoolShared Value) : Prop where
  stops : ∀ i, call.Stops i → (s.nodes i).start = .returned ∧ (s.nodes i).running = false
  before : ∀ i, call = .stopCall i → (s.nodes i).stop = .notCalled
  within : ∀ i, call = .onStop i → (s.nodes i).stop = .running

/-- Two goroutines have not both taken the running flag of a node. -/
def Apart (call other : PoolCall Value) : Prop := ∀ i, call.Stops i → ¬ other.Stops i

variable {s next : PoolShared Value} {sends : Bool}

theorem setNode_nodes_self (s : PoolShared Value) (i : Nat) (n : PoolNode) :
    (s.setNode i n).nodes i = n := by
  simp [setNode]

theorem setNode_nodes_of_ne {i j} (hj : j ≠ i) (s : PoolShared Value) (n : PoolNode) :
    (s.setNode i n).nodes j = s.nodes j := by
  simp [setNode, hj]

/-- The worker changes nothing of a node but its trace. -/
theorem Works.nodes (hworks : s.Works next) (i : Nat) :
    (next.nodes i).start = (s.nodes i).start ∧ (next.nodes i).running = (s.nodes i).running ∧
      (next.nodes i).stop = (s.nodes i).stop ∧ (next.nodes i).ready = (s.nodes i).ready := by
  cases hworks with
  | receive _ task | finish task =>
    by_cases hi : i = task.node
    · subst hi
      rw [setNode_nodes_self]
      exact ⟨rfl, rfl, rfl, rfl⟩
    · rw [setNode_nodes_of_ne hi]
      exact ⟨rfl, rfl, rfl, rfl⟩
  | _ => exact ⟨rfl, rfl, rfl, rfl⟩

theorem Works.ctxDone (hworks : s.Works next) : next.ctxDone = s.ctxDone := by
  cases hworks <;> rfl

/-! ## Flags along a step -/

variable {i : Nat}

theorem Flagged.unreturned (hs : s.Flagged) (hstart : (s.nodes i).start ≠ .returned) :
    (s.nodes i).running = false ∧ (s.nodes i).stop = .notCalled := by
  constructor
  · rw [← Bool.not_eq_true]
    exact fun hrunning => hstart (hs.running i hrunning).1
  · by_contra hstop
    exact hstart (hs.stopped i hstop)

theorem Flagged.setNode (hs : s.Flagged) {n}
    (hrunning : n.running = true → n.start = .returned ∧ n.stop = .notCalled)
    (hstopped : n.stop ≠ .notCalled → n.start = .returned) : (s.setNode i n).Flagged := by
  constructor
  · intro j
    by_cases hj : j = i
    · subst hj
      rw [setNode_nodes_self]
      exact hrunning
    · rw [setNode_nodes_of_ne hj]
      exact hs.running j
  · intro j
    by_cases hj : j = i
    · subst hj
      rw [setNode_nodes_self]
      exact hstopped
    · rw [setNode_nodes_of_ne hj]
      exact hs.stopped j

variable {n : BaseNode}

theorem Flagged.starts (hs : s.Flagged) (hstarts : (s.nodes i).toBaseNode.Starts .returned n) :
    (s.setNode i { s.nodes i with toBaseNode := n }).Flagged := by
  obtain ⟨hrunning, hstop⟩ := hs.unreturned hstarts.unreturned
  refine hs.setNode ?_ fun h => absurd hstop h
  cases hstarts with
  | store => exact fun _ => ⟨rfl, hstop⟩
  | _ => exact fun h => absurd h (by rw [observe, hrunning]; nofun)

theorem Flagged.readies (hs : s.Flagged) (hreadies : (s.nodes i).toBaseNode.Readies n) :
    (s.setNode i { s.nodes i with toBaseNode := n }).Flagged := by
  cases hreadies with
  | _ => exact hs.setNode (hs.running i) (hs.stopped i)

theorem Flagged.works (hs : s.Flagged) (hworks : s.Works next) : next.Flagged := by
  constructor
  · intro i
    obtain ⟨hstart, hrunning, hstop, -⟩ := hworks.nodes i
    rw [hstart, hrunning, hstop]
    exact hs.running i
  · intro i
    obtain ⟨hstart, -, hstop, -⟩ := hworks.nodes i
    rw [hstart, hstop]
    exact hs.stopped i

theorem Flagged.calls (hs : s.Flagged) {call moved} (howns : Owns call s)
    (hcalls : s.Calls sends call moved next) : next.Flagged := by
  cases hcalls with
  | swap i => exact hs.setNode nofun (hs.stopped i)
  | callStop i | stopReturns i =>
    obtain ⟨hstart, hrunning⟩ := howns.stops i rfl
    refine hs.setNode (fun h => ?_) fun _ => hstart
    rw [PoolNode.observe, observe, hrunning] at h
    cases h
  | send | drop => exact ⟨hs.running, hs.stopped⟩
  | _ => exact hs

/-! ## What a goroutine knows along a step -/

variable {call : PoolCall Value}

theorem Owns.of_not_stops (hstops : ∀ i, ¬ call.Stops i) (s : PoolShared Value) : Owns call s where
  stops i h := absurd h (hstops i)
  before i h := absurd (by rw [h]; rfl) (hstops i)
  within i h := absurd (by rw [h]; rfl) (hstops i)

/-- A step keeps the flags of the nodes that the goroutine stops. -/
theorem Owns.frame (howns : Owns call s)
    (hnodes : ∀ i, call.Stops i → (s.nodes i).start = .returned → (next.nodes i).start = .returned ∧
      ((s.nodes i).running = false → (next.nodes i).running = false) ∧
      (next.nodes i).stop = (s.nodes i).stop) : Owns call next where
  stops i hstops := by
    obtain ⟨hstart, hrunning⟩ := howns.stops i hstops
    obtain ⟨hreturned, hflag, -⟩ := hnodes i hstops hstart
    exact ⟨hreturned, hflag hrunning⟩
  before i heq := by
    have hstops : call.Stops i := by rw [heq]; rfl
    exact (hnodes i hstops (howns.stops i hstops).1).2.2.trans (howns.before i heq)
  within i heq := by
    have hstops : call.Stops i := by rw [heq]; rfl
    exact (hnodes i hstops (howns.stops i hstops).1).2.2.trans (howns.within i heq)

theorem Owns.setNode (howns : Owns call s) {n}
    (hnode : call.Stops i → (s.nodes i).start = .returned → n.start = .returned ∧
      ((s.nodes i).running = false → n.running = false) ∧ n.stop = (s.nodes i).stop) :
    Owns call (s.setNode i n) := by
  refine howns.frame fun j hstops hstart => ?_
  by_cases hj : j = i
  · subst hj
    rw [setNode_nodes_self]
    exact hnode hstops hstart
  · rw [setNode_nodes_of_ne hj]
    exact ⟨hstart, id, rfl⟩

theorem Owns.readies (howns : Owns call s) (hreadies : (s.nodes i).toBaseNode.Readies n) :
    Owns call (s.setNode i { s.nodes i with toBaseNode := n }) := by
  refine howns.setNode fun _ hreturned => ?_
  cases hreadies with
  | _ => exact ⟨hreturned, id, rfl⟩

theorem Owns.works (howns : Owns call s) (hworks : s.Works next) : Owns call next := by
  refine howns.frame fun i _ hreturned => ?_
  obtain ⟨hstart, hrunning, hstop, -⟩ := hworks.nodes i
  rw [hstart, hrunning]
  exact ⟨hreturned, id, hstop⟩

theorem Owns.calls {call moved other} (hother : Owns other s) (hapart : Apart call other)
    (hcalls : s.Calls sends call moved next) : Owns other next := by
  cases hcalls with
  | swap i => exact hother.setNode fun _ hstart => ⟨hstart, fun _ => rfl, rfl⟩
  | callStop i | stopReturns i => exact hother.setNode fun hstops => absurd hstops (hapart i rfl)
  | send | drop => exact hother.frame fun _ _ hstart => ⟨hstart, id, rfl⟩
  | _ => exact hother

theorem Owns.after (hs : s.Flagged) {call moved} (howns : Owns call s)
    (hcalls : s.Calls sends call moved next) : Owns moved next := by
  cases hcalls with
  | swap i hrunning =>
    obtain ⟨hstart, hstop⟩ := hs.running i hrunning
    refine ⟨?_, ?_, nofun⟩
    · rintro j rfl
      rw [setNode_nodes_self]
      exact ⟨hstart, rfl⟩
    · rintro j heq
      cases heq
      rw [setNode_nodes_self]
      exact hstop
  | callStop i =>
    refine ⟨?_, nofun, ?_⟩
    · rintro j rfl
      rw [setNode_nodes_self]
      exact howns.stops i rfl
    · rintro j heq
      cases heq
      rw [setNode_nodes_self]
      rfl
  | _ => exact .of_not_stops (fun _ => id) _

theorem Apart.after {call moved other} (hother : Owns other s) (hapart : Apart call other)
    (hcalls : s.Calls sends call moved next) : Apart moved other := by
  cases hcalls with
  | swap i hrunning =>
    rintro j rfl hstops
    have hnot := (hother.stops i hstops).2
    rw [hrunning] at hnot
    cases hnot
  | callStop i => exact hapart
  | _ => exact nofun

end PoolShared

namespace WorkerPool

abbrev Lifecycle (c : WorkerPool Value) : Prop :=
  Outline Flagged Owns Apart c

theorem initial_lifecycle (queueSize : Int) : Lifecycle (initial queueSize : WorkerPool Value) :=
  .start _ ⟨nofun, fun _ h => absurd rfl h⟩

theorem request_not_stops (request : PoolRequest Value) (i : Nat) : ¬ request.call.Stops i := by
  cases request with
  | _ => exact id

theorem step_lifecycle {c d : WorkerPool Value} {label : Label Value} (hc : Lifecycle c)
    (hstep : c.step label = some d) : Lifecycle d := by
  have hs := hc.shared
  cases label with
  | start i succeeds =>
    obtain ⟨n, hstart, rfl⟩ := map_eq_some_iff.mp hstep
    have hstarts := starts_of_startStep hstart
    refine hc.environment (hs.starts hstarts) fun _ howns => ?_
    exact howns.setNode fun _ hreturned => absurd hreturned hstarts.unreturned
  | ready i =>
    obtain ⟨n, hready, rfl⟩ := map_eq_some_iff.mp hstep
    have hreadies := readies_of_readyStep hready
    exact hc.environment (hs.readies hreadies) fun _ howns => howns.readies hreadies
  | worker label =>
    obtain ⟨s, hworker, rfl⟩ := map_eq_some_iff.mp hstep
    have hworks := works_of_workerStep hworker
    exact hc.environment (hs.works hworks) fun _ howns => howns.works hworks
  | spawn =>
    cases hstep
    exact hc.spawn (.of_not_stops (fun _ => id) _) fun _ => ⟨nofun, fun _ _ => id⟩
  | request i request =>
    obtain ⟨hi, rfl⟩ := request_eq_some hstep
    have hstops := request_not_stops request
    refine hc.update hi hs (.of_not_stops hstops _) fun other _ hother _ _ => ?_
    exact ⟨hother, fun node h => absurd h (hstops node), fun node _ => hstops node⟩
  | call i sends =>
    obtain ⟨call, moved, shared, hi, hcalls, rfl⟩ := call_eq_some hstep
    have hown := hc.asserted i call hi
    refine hc.update hi (hs.calls hown hcalls) (hown.after hs hcalls) ?_
    intro other _ hother hapart _
    have hmoved := hapart.after hother hcalls
    exact ⟨hother.calls hapart hcalls, hmoved, fun j hj hcall => hmoved j hcall hj⟩
  | cancel =>
    cases hstep
    exact hc.environment ⟨hs.running, hs.stopped⟩ fun _ hother =>
      hother.frame fun _ _ hstart => ⟨hstart, id, rfl⟩

end WorkerPool

end Voce.Engine
