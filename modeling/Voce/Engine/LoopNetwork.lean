import Voce.Engine.HandlerSends
import Voce.Engine.NodeLoopLifecycle
import Mathlib.Data.Fintype.EquivFin

/-! # Workflow with one goroutine per node

The nodes of a workflow, each with its loop, and any number of other goroutines
that use them. A loop that is in a callback performs the sends of the callback:
it calls `Input` of the next nodes and blocks there while the channel of a signal
or payload is full. On an acyclic graph the loops never all wait for each other.
-/

namespace Voce.Engine

open Interleaving Function Option Mailbox NodeShared Transition HandlerPhase List

variable {size : Nat} {Value : Type}

structure LoopNetworkShared (size : Nat) (Value : Type) where
  nodes : Fin size → NodeShared Value
  handlers : Fin size → HandlerPhase (Fin size) (NodeCall Value) Value

/-- A goroutine that is no loop, and the node that it uses. -/
structure NodeUser (size : Nat) (Value : Type) where
  node : Fin size
  call : NodeCall Value

abbrev LoopNetwork (size : Nat) (Value : Type) :=
  Config (LoopNetworkShared size Value) (NodeUser size Value)

/-- Where a goroutine is that is in `Input`. -/
def NodeCall.Inputs {Value : Type} (call : NodeCall Value) (send : Send Value) : Prop :=
  call = .inputCheck send.kind send.value ∨ call = .inputErr send.kind send.value ∨
    call = .inputSelect send.kind send.value

namespace LoopNetworkShared

variable (s : LoopNetworkShared size Value)

def setNode (i : Fin size) (n : NodeShared Value) : LoopNetworkShared size Value :=
  { s with nodes := update s.nodes i n }

def setHandler (i : Fin size)
    (phase : HandlerPhase (Fin size) (NodeCall Value) Value) : LoopNetworkShared size Value :=
  { s with handlers := update s.handlers i phase }

/-- A step of a loop outside the sends of its callbacks. A callback that it begins
performs these sends. -/
def loopStep (s : LoopNetworkShared size Value) (i : Fin size) (label : LoopLabel)
    (sends : List (Send Value)) : Option (LoopNetworkShared size Value) :=
  match s.handlers i with
  | .ready [] =>
    ((s.nodes i).loopStep label).map fun n =>
      (s.setNode i n).setHandler i (.ready (if n.loop.callback.isSome then sends else []))
  | _ => none

def inputStep (producer : Nat) (choice : Bool) (target : Fin size) (call : NodeCall Value) :
    Option (Option (NodeCall Value) × LoopNetworkShared size Value) :=
  ((s.nodes target).callStep producer choice call).map fun moved =>
    (match moved.1 with
      | .idle => none
      | next => some next, s.setNode target moved.2)

def handlerStep (routes : Routes (Fin size)) (s : LoopNetworkShared size Value) (i : Fin size)
    (choice : Bool) : Option (LoopNetworkShared size Value) :=
  (step routes i ((s.nodes i).ctxDone = true ∨ (s.nodes i).running = false)
    (fun _ send => .inputCheck send.kind send.value) (s.inputStep i choice) s
    (s.handlers i)).map fun moved => moved.2.setHandler i moved.1

end LoopNetworkShared

namespace LoopNetwork

inductive Label (size : Nat) (Value : Type) where
  | start (i : Fin size) (succeeds : Bool)
  | ready (i : Fin size)
  | loop (i : Fin size) (label : LoopLabel) (sends : List (Send Value))
  | handler (i : Fin size) (choice : Bool)
  | spawn (i : Fin size)
  | request (k : Nat) (i : Fin size) (request : NodeRequest Value)
  | call (k : Nat) (choice : Bool)
  | cancel

def initial (capacity : Fin size → EventKind → Nat) (ctrlCapacity : Nat) :
    LoopNetwork size Value :=
  { shared :=
      { nodes := fun i =>
          { BaseNode.initial with
            ctxDone := false
            events := fun kind => .empty (capacity i kind)
            ctrl := .empty ctrlCapacity
            loop := .absent
            stopReturned := false }
        handlers := fun _ => .ready [] }
    phases := [] }

def step (routes : Routes (Fin size)) (c : LoopNetwork size Value) :
    Label size Value → Option (LoopNetwork size Value)
  | .start i succeeds => ((c.shared.nodes i).startStep succeeds).map fun n =>
    { c with shared := c.shared.setNode i n }
  | .ready i => (c.shared.nodes i).readyStep.map fun n =>
    { c with shared := c.shared.setNode i n }
  | .loop i label sends => (c.shared.loopStep i label sends).map fun s => { c with shared := s }
  | .handler i choice => (c.shared.handlerStep routes i choice).map fun s => { c with shared := s }
  | .spawn i => some (c.spawn ⟨i, .idle⟩)
  | .request k i request =>
    c.advance (fun user =>
      match user.call with
      | .idle => some (⟨i, request.call⟩, c.shared)
      | _ => none) k
  | .call k choice =>
    c.advance (fun user =>
      ((c.shared.nodes user.node).callStep (size + k) choice user.call).map fun moved =>
        (⟨user.node, moved.1⟩, c.shared.setNode user.node moved.2)) k
  | .cancel => some
      { c with shared :=
        { c.shared with nodes := fun i => { c.shared.nodes i with ctxDone := true } } }

end LoopNetwork

/-! ## Progress of one node -/

namespace NodeShared

variable {s next : NodeShared Value} {capacity : EventKind → Nat}

/-- What holds of a node between any two steps. -/
structure Wired (s : NodeShared Value) (capacity : EventKind → Nat) : Prop where
  capacity : ∀ kind, (s.events kind).channel.capacity = capacity kind
  present : s.loop ≠ .absent ↔ s.start = .returned
  ended : s.loop = .stopping ∨ s.loop = .onStop ∨ s.loop = .draining ∨ s.loop = .exited →
    s.running = false

section

variable (hs : s.Wired capacity)
include hs

/-- A step that leaves the channels of events alone. -/
theorem Wired.frame (hevents : next.events = s.events)
    (hpresent : next.loop ≠ .absent ↔ next.start = .returned)
    (hended : next.loop = .stopping ∨ next.loop = .onStop ∨ next.loop = .draining ∨
      next.loop = .exited → next.running = false) : next.Wired capacity := by
  refine ⟨?_, hpresent, hended⟩
  rw [hevents]
  exact hs.capacity

theorem Wired.setMailbox (kind : EventKind) {mailbox}
    (hcapacity : mailbox.channel.capacity = (s.events kind).channel.capacity) :
    { s with events := update s.events kind mailbox }.Wired capacity := by
  refine ⟨fun other => ?_, hs.present, hs.ended⟩
  dsimp only
  by_cases hother : other = kind
  · subst hother
    rw [update_self, hcapacity]
    exact hs.capacity other
  · rw [update_of_ne hother]
    exact hs.capacity other

theorem Wired.starts (hstarts : s.Starts next) : next.Wired capacity := by
  have habsent : s.start ≠ .returned → s.loop = .absent := by
    intro hstart
    by_contra hloop
    exact hstart (hs.present.mp hloop)
  cases hstarts with
  | base n hstarts =>
    have hloop := habsent hstarts.unreturned
    refine hs.frame rfl ?_ ?_
    · have hstart : n.start ≠ .returned := by
        cases hstarts <;> nofun
      exact ⟨absurd hloop, fun h => absurd h hstart⟩
    · rintro (h | h | h | h) <;> cases hloop.symm.trans h
  | launch =>
    refine hs.frame rfl ⟨fun _ => rfl, fun _ => nofun⟩ ?_
    rintro (h | h | h | h) <;> cases h

theorem Wired.readies {n} (hreadies : s.toBaseNode.Readies n) :
    { s with toBaseNode := n }.Wired capacity := by
  cases hreadies with
  | _ => exact hs.frame rfl hs.present hs.ended

omit hs in
theorem Loops.present (hloops : s.Loops next) : s.loop ≠ .absent ∧ next.loop ≠ .absent := by
  cases hloops with
  | leave hphase =>
    refine ⟨?_, nofun⟩
    rcases hphase with ⟨hphase, -⟩ | ⟨hphase | hphase, -⟩ <;> rw [hphase] <;> nofun
  | receive _ _ _ hphase =>
    refine ⟨?_, nofun⟩
    rcases hphase with ⟨hphase, -⟩ | hphase <;> rw [hphase] <;> nofun
  | receiveStop _ hphase | receiveControl _ _ hphase =>
    refine ⟨?_, nofun⟩
    rcases hphase with hphase | hphase <;> rw [hphase] <;> nofun
  | drain _ _ hphase => exact ⟨by rw [hphase]; nofun, by rw [hphase]; nofun⟩
  | select hphase | wait hphase | eventReturns _ hphase | controlReturns _ hphase
  | clearRunning hphase | callStop hphase | stopReturns hphase | exit hphase =>
    exact ⟨by rw [hphase]; nofun, nofun⟩

omit hs in
theorem Loops.start (hloops : s.Loops next) : next.start = s.start := by
  cases hloops <;> rfl

theorem Wired.loops (hloops : s.Loops next) : next.Wired capacity := by
  obtain ⟨hpresent, hstays⟩ := hloops.present
  have hstart : next.loop ≠ .absent ↔ next.start = .returned := by
    rw [hloops.start]
    exact ⟨fun _ => hs.present.mp hpresent, fun _ => hstays⟩
  cases hloops with
  | receive kind event mailbox _ hreceive =>
    exact (hs.setMailbox kind (receive?_capacity hreceive)).frame rfl hstart nofun
  | clearRunning => exact hs.frame rfl hstart fun _ => rfl
  | callStop hphase => exact hs.frame rfl hstart fun _ => hs.ended (.inl hphase)
  | stopReturns hphase => exact hs.frame rfl hstart fun _ => hs.ended (.inr (.inl hphase))
  | drain kind mailbox hphase hdrain =>
    exact (hs.setMailbox kind (drain?_capacity hdrain)).frame rfl hstart hs.ended
  | exit hphase => exact hs.frame rfl hstart fun _ => hs.ended (.inr (.inr (.inl hphase)))
  | _ =>
    exact hs.frame rfl hstart nofun

theorem Wired.calls {producer call moved} (hcalls : s.Calls producer call moved next) :
    next.Wired capacity := by
  cases hcalls with
  | swap => exact hs.frame rfl hs.present fun _ => rfl
  | sendStop | sendControl => exact hs.frame rfl hs.present hs.ended
  | send kind value mailbox hsend => exact hs.setMailbox kind (send?_capacity hsend)
  | drop kind value => exact hs.setMailbox kind rfl
  | pass => exact hs

def Running (s : NodeShared Value) : Prop := s.start = .returned ∧ s.running = true

def HasWork (s : NodeShared Value) : Prop :=
  (∃ kind, (s.events kind).items ≠ []) ∨ s.loop.callback.isSome

/-- A running node with an event or at the end of a callback is not stuck. -/
theorem Wired.exists_loopStep (hrunning : s.Running) (hwork : s.HasWork) :
    ∃ label next, s.loopStep label = some next := by
  refine NodeShared.exists_loopStep (hs.present.mpr hrunning.1) (fun hexited => ?_) fun hinner => ?_
  · cases hrunning.2.symm.trans (hs.ended (.inr (.inr (.inr hexited))))
  · rcases hwork with hevent | hcallback
    · exact .inr (.inr hevent)
    · rw [hinner] at hcallback
      cases hcallback

end

theorem inputs_callStep {call moved send producer choice} (hinputs : call.Inputs send)
    (hstep : s.callStep producer choice call = some (moved, next)) :
    moved = .idle ∨ moved.Inputs send := by
  rcases hinputs with rfl | rfl | rfl
  · cases hstep
    split
    · exact .inl rfl
    · exact .inr (.inr (.inl rfl))
  · simp only [callStep] at hstep
    split at hstep <;> cases hstep
    · exact .inl rfl
    · exact .inr (.inr (.inr rfl))
  · simp only [callStep] at hstep
    split at hstep
    · cases hstep
      exact .inl rfl
    · cases hstep
    · obtain ⟨-, heq⟩ := ite_none_right_eq_some.mp hstep
      cases heq
      exact .inl rfl

/-- `Input` waits only for a full channel of signals or payloads. -/
theorem exists_callStep_of_inputs {call send} (hinputs : call.Inputs send) (producer : Nat) :
    (∃ choice moved, s.callStep producer choice call = some moved) ∨
      (s.events send.kind).items.length = (s.events send.kind).channel.capacity := by
  rcases hinputs with rfl | rfl | rfl
  · exact .inl ⟨true, _, rfl⟩
  · refine .inl ⟨true, ?_⟩
    simp only [callStep]
    split
    · exact ⟨_, rfl⟩
    · exact ⟨_, rfl⟩
  · cases hsend : (s.events send.kind).send? ⟨producer, send.value⟩ with
    | none => exact .inr (length_items_of_send?_eq_none hsend)
    | some mailbox => exact .inl ⟨true, _, by simp only [callStep, hsend]; rfl⟩

end NodeShared

/-! ## Progress of the workflow -/

namespace LoopNetworkShared

variable {s next : LoopNetworkShared size Value} {routes : Routes (Fin size)}
  {capacity : Fin size → EventKind → Nat}

/-- The goroutine of a handler is in `Input` of its target. -/
def Sends (phase : HandlerPhase (Fin size) (NodeCall Value) Value) : Prop :=
  match phase with
  | .input _ call send _ _ => call.Inputs send
  | .ready _ | .routing _ _ _ => True

structure Wired (s : LoopNetworkShared size Value) (routes : Routes (Fin size))
    (capacity : Fin size → EventKind → Nat) : Prop where
  nodes : ∀ i, (s.nodes i).Wired (capacity i)
  routed : ∀ i, (s.handlers i).OnRoute routes i
  sends : ∀ i, Sends (s.handlers i)

variable (hs : s.Wired routes capacity)
include hs

theorem Wired.setNode {i n} (hn : n.Wired (capacity i)) : (s.setNode i n).Wired routes capacity :=
  ⟨(forall_update_iff s.nodes fun j m => m.Wired (capacity j)).mpr
    ⟨hn, fun j _ => hs.nodes j⟩, hs.routed, hs.sends⟩

theorem Wired.setHandler {i phase} (hrouted : phase.OnRoute routes i) (hsends : Sends phase) :
    (s.setHandler i phase).Wired routes capacity :=
  ⟨hs.nodes, (forall_update_iff s.handlers fun j phase => phase.OnRoute routes j).mpr
      ⟨hrouted, fun j _ => hs.routed j⟩,
    (forall_update_iff s.handlers fun _ phase => Sends phase).mpr
      ⟨hsends, fun j _ => hs.sends j⟩⟩

theorem Wired.loopStep {i label sends} (hstep : s.loopStep i label sends = some next) :
    next.Wired routes capacity := by
  unfold LoopNetworkShared.loopStep at hstep
  split at hstep
  · obtain ⟨n, hloop, rfl⟩ := map_eq_some_iff.mp hstep
    have hn := (hs.nodes i).loops (loops_of_loopStep hloop)
    exact (hs.setNode hn).setHandler trivial trivial
  · cases hstep

omit hs in
theorem inputStep_eq_some {producer choice target call moved}
    (hstep : s.inputStep producer choice target call = some (moved, next)) :
    ∃ after n, (s.nodes target).callStep producer choice call = some (after, n) ∧
      next = s.setNode target n ∧ (after = .idle → moved = none) ∧
      (after ≠ .idle → moved = some after) := by
  obtain ⟨⟨after, n⟩, hcall, heq⟩ := map_eq_some_iff.mp hstep
  cases heq
  refine ⟨after, n, hcall, rfl, ?_, fun hne => ?_⟩
  · rintro rfl
    rfl
  · cases after <;> first | exact absurd rfl hne | rfl

theorem Wired.handlerStep {i choice} (hstep : s.handlerStep routes i choice = some next) :
    next.Wired routes capacity := by
  obtain ⟨⟨phase, after⟩, hphase, rfl⟩ := map_eq_some_iff.mp hstep
  have hsteps := steps_of_step hphase
  have hrouted := (hs.routed i).steps hsteps
  have hsends := hs.sends i
  generalize s.handlers i = before at hsteps hsends
  cases hsteps with
  | enter => exact hs.setHandler hrouted (.inl rfl)
  | move target current moved send targets rest after hinput =>
    obtain ⟨reached, n, hcall, rfl, hidle, hmoved⟩ := inputStep_eq_some hinput
    have hn := (hs.nodes target).calls (calls_of_callStep hcall)
    have hne : reached ≠ .idle := fun h => by cases hidle h
    cases hmoved hne
    exact (hs.setNode hn).setHandler hrouted
      ((inputs_callStep hsends hcall).resolve_left hne)
  | leave target current send targets rest after hinput =>
    obtain ⟨reached, n, hcall, rfl, -⟩ := inputStep_eq_some hinput
    have hn := (hs.nodes target).calls (calls_of_callStep hcall)
    exact (hs.setNode hn).setHandler hrouted trivial
  | _ => exact hs.setHandler hrouted trivial

def CanStep (s : LoopNetworkShared size Value) (routes : Routes (Fin size)) (i : Fin size) : Prop :=
  (∃ label sends next, s.loopStep i label sends = some next) ∨
    ∃ choice next, s.handlerStep routes i choice = some next

/-- A loop with work can step, or it waits in `Input` of a next node that has work. -/
theorem Wired.canStep_or_waits (hpositive : ∀ i kind, 0 < capacity i kind) {i}
    (hrunning : (s.nodes i).Running) (hwork : (s.nodes i).HasWork) :
    s.CanStep routes i ∨ ∃ j, routes.Edge i j ∧ (s.nodes j).HasWork := by
  have hfree : ∀ choice, ¬ (s.handlers i).Done →
      (∀ target current send targets rest, s.handlers i = .input target current send targets rest →
        ∃ moved, s.inputStep i choice target current = some moved) → s.CanStep routes i := by
    intro choice hdone hinput
    have hstep : ∃ next, s.handlerStep routes i choice = some next := by
      obtain ⟨moved, hmoved⟩ := exists_step
        ((s.nodes i).ctxDone = true ∨ (s.nodes i).running = false) hdone hinput
      exact ⟨_, map_eq_some_iff.mpr ⟨moved, hmoved, rfl⟩⟩
    exact .inr ⟨choice, hstep⟩
  cases hphase : s.handlers i with
  | ready sends =>
    cases sends with
    | nil =>
      obtain ⟨label, n, hloop⟩ := (hs.nodes i).exists_loopStep hrunning hwork
      exact .inl (.inl ⟨label, [], _, by
        rw [LoopNetworkShared.loopStep, hphase]; simp only [hloop]; rfl⟩)
    | cons send rest =>
      refine .inl (hfree true (by rw [hphase]; nofun) ?_)
      rw [hphase]
      nofun
  | routing send targets rest =>
    refine .inl (hfree true (by rw [hphase]; nofun) ?_)
    rw [hphase]
    nofun
  | input target call send targets rest =>
    have hsends := hs.sends i
    have hrouted := hs.routed i
    rw [hphase] at hsends hrouted
    rcases exists_callStep_of_inputs (s := s.nodes target) hsends i with
      ⟨choice, moved, hmoved⟩ | hfull
    · refine .inl (hfree choice (by rw [hphase]; nofun) ?_)
      rintro _ _ _ _ _ heq
      cases hphase.symm.trans heq
      exact ⟨_, by rw [LoopNetworkShared.inputStep, hmoved]; rfl⟩
    · -- the target's channel is full, and a full channel is work for the target
      refine .inr ⟨target, ⟨send.port, send.kind, hrouted target mem_cons_self⟩,
        .inl ⟨send.kind, fun hempty => ?_⟩⟩
      rw [hempty, (hs.nodes target).capacity] at hfull
      exact ne_of_lt (hpositive target send.kind) hfull

end LoopNetworkShared

namespace LoopNetwork

variable {routes : Routes (Fin size)} {capacity : Fin size → EventKind → Nat}

theorem step_wired {c d : LoopNetwork size Value} {label} (hs : c.shared.Wired routes capacity)
    (hstep : c.step routes label = some d) : d.shared.Wired routes capacity := by
  cases label with
  | start i succeeds =>
    obtain ⟨n, hstart, rfl⟩ := map_eq_some_iff.mp hstep
    exact hs.setNode ((hs.nodes i).starts (starts_of_startStep hstart))
  | ready i =>
    obtain ⟨n, hready, rfl⟩ := map_eq_some_iff.mp hstep
    obtain ⟨base, hbase, rfl⟩ := map_eq_some_iff.mp hready
    exact hs.setNode ((hs.nodes i).readies (BaseNode.readies_of_readyStep hbase))
  | loop i label sends =>
    obtain ⟨s, hloop, rfl⟩ := map_eq_some_iff.mp hstep
    exact hs.loopStep hloop
  | handler i choice =>
    obtain ⟨s, hhandler, rfl⟩ := map_eq_some_iff.mp hstep
    exact hs.handlerStep hhandler
  | spawn i =>
    cases hstep
    exact hs
  | request k i request =>
    obtain ⟨user, moved, shared, -, hnext, rfl⟩ := Config.advance_eq_some hstep
    split at hnext
    · cases hnext
      exact hs
    · cases hnext
  | call k choice =>
    obtain ⟨user, moved, shared, -, hnext, rfl⟩ := Config.advance_eq_some hstep
    obtain ⟨⟨call, n⟩, hcall, heq⟩ := map_eq_some_iff.mp hnext
    cases heq
    exact hs.setNode ((hs.nodes user.node).calls (calls_of_callStep hcall))
  | cancel =>
    cases hstep
    exact ⟨fun i => (hs.nodes i).frame rfl (hs.nodes i).present (hs.nodes i).ended, hs.routed,
      hs.sends⟩

theorem initial_wired (capacity : Fin size → EventKind → Nat) (ctrlCapacity : Nat) :
    (initial capacity ctrlCapacity : LoopNetwork size Value).shared.Wired routes capacity := by
  refine ⟨fun i => ⟨fun kind => rfl, ⟨absurd rfl, nofun⟩, ?_⟩, fun _ => trivial,
    fun _ => trivial⟩
  rintro (h | h | h | h) <;> cases h

/-- On an acyclic graph with positive capacities, as long as all nodes run and some
node has work, some loop can take a step. -/
theorem run_exists_canStep (hacyclic : WaitFor.Acyclic routes.Edge)
    (hpositive : ∀ i kind, 0 < capacity i kind) (ctrlCapacity : Nat)
    (labels : List (Label size Value)) {final : LoopNetwork size Value}
    (hrun : run (step routes) (initial capacity ctrlCapacity) labels = some final)
    (hrunning : ∀ i, (final.shared.nodes i).Running)
    (hwork : ∃ i, (final.shared.nodes i).HasWork) : ∃ i, final.shared.CanStep routes i := by
  have hfinal : final.shared.Wired routes capacity :=
    run_invariant (fun c : LoopNetwork size Value => c.shared.Wired routes capacity)
      step_wired (initial_wired capacity ctrlCapacity) hrun
  obtain ⟨i, hi⟩ := hwork
  exact WaitFor.exists_free hacyclic
    (fun j hj => hfinal.canStep_or_waits hpositive (hrunning j) hj) hi

/-- Two nodes with payloads from the first to the second. -/
def chainRoutes : Routes (Fin 2) := fun i _ kind =>
  if i = 0 ∧ kind = .payload then [1] else []

theorem chainRoutes_acyclic : WaitFor.Acyclic chainRoutes.Edge := by
  refine WaitFor.acyclic_of_rank Fin.val ?_
  rintro i j ⟨port, kind, hmem⟩
  unfold chainRoutes at hmem
  split at hmem
  next hfirst =>
    rw [hfirst.1, mem_singleton.mp hmem]
    decide
  · cases hmem

/-- Labels of a run in which the first node's handler waits for room at the second. -/
def blockedSendLabels : List (Label 2 Unit) :=
  replicate 4 (Label.start 0 true) ++ replicate 4 (Label.start 1 true) ++
    replicate 2 (Label.loop 0 .proceed []) ++
    [Label.spawn 0, .request 0 0 (.input .payload ())] ++ replicate 3 (Label.call 0 true) ++
    [Label.loop 0 (.event .payload) (replicate 2 ⟨none, .payload, ()⟩)] ++
    replicate 10 (Label.handler 0 true)

theorem run_exists_canStep_blocked :
    ∃ final, run (step chainRoutes) (initial (fun _ _ => 1) 1) blockedSendLabels =
        some final ∧ (final.shared.handlerStep chainRoutes 0 true).isNone ∧
      ∃ i, final.shared.CanStep chainRoutes i := by
  obtain ⟨final, hrun, hrunning, hqueued, hblocked⟩ := exists_of_decide
    (run (step chainRoutes) (initial (fun _ _ => 1) 1) blockedSendLabels)
    (fun final => (∀ i, (final.shared.nodes i).start = .returned ∧
        (final.shared.nodes i).running = true) ∧
      ((final.shared.nodes 1).events .payload).items ≠ [] ∧
      (final.shared.handlerStep chainRoutes 0 true).isNone) (by decide +kernel)
  exact ⟨final, hrun, hblocked, run_exists_canStep chainRoutes_acyclic (fun _ _ => Nat.one_pos) 1 _
    hrun hrunning ⟨1, .inl ⟨.payload, hqueued⟩⟩⟩

end LoopNetwork

end Voce.Engine
