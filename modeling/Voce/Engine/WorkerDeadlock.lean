import Voce.Engine.WorkerNetwork

/-! # Deadlock of workers

A worker that is blocked in a send waits for the worker of the target, which is
blocked too when it has a task. So a deadlock closes a cycle of workers, each of
which serves a node that sends signals or payloads to a node of the next one.
-/

namespace Voce.Engine

open Interleaving Transition Function List Config Mailbox WorkerNetworkShared PoolShared
  HandlerPhase

variable {size workers capacity : Nat} {Value : Type} {layout : PoolLayout size workers}

/-! ## One pool -/

namespace PoolCall

/-- Every node that the goroutine uses satisfies this. -/
def Uses (call : PoolCall Value) (serves : Nat → Prop) : Prop :=
  match call with
  | .idle => True
  | .stopSwap node | .stopCall node | .onStop node | .controlCheck node _
  | .inputCheck node _ _ => serves node
  | .submitErr task | .submitSelect task => serves task.node

/-- Where a goroutine is that is in `Input` of a node. -/
def Inputs (call : PoolCall Value) (producer target : Nat) (send : Send Value) : Prop :=
  call = .inputCheck target send.kind send.value ∨
    call = .submitErr (.event target send.kind ⟨producer, send.value⟩) ∨
    call = .submitSelect (.event target send.kind ⟨producer, send.value⟩)

/-- The steps of a goroutine in `Input` until it returns. -/
def inputSteps : PoolCall Value → Nat
  | .inputCheck _ _ _ => 3
  | .submitErr _ => 2
  | .submitSelect _ => 1
  | _ => 0

end PoolCall

namespace PoolShared

variable {s next : PoolShared Value} {serves : Nat → Prop}

def Full (s : PoolShared Value) (priority : Priority) : Prop :=
  (s.queues priority).items.length = (s.queues priority).channel.capacity

/-- The queues have this capacity, and the tasks are of nodes that the worker
serves. -/
structure Wired (s : PoolShared Value) (capacity : Nat) (serves : Nat → Prop) : Prop where
  capacity : ∀ priority, (s.queues priority).channel.capacity = capacity
  queued : ∀ priority, ∀ task ∈ (s.queues priority).items, serves task.node
  executing : ∀ task ∈ s.worker.task, serves task.node

/-- A step on one queue. -/
theorem Wired.setMailbox (hs : s.Wired capacity serves) (priority : Priority) {mailbox}
    (hqueues : next.queues = update s.queues priority mailbox)
    (hcapacity : mailbox.channel.capacity = (s.queues priority).channel.capacity)
    (hitems : ∀ task ∈ mailbox.items, serves task.node)
    (hexecuting : ∀ task ∈ next.worker.task, serves task.node) : next.Wired capacity serves := by
  refine ⟨?_, ?_, hexecuting⟩
  · rw [hqueues]
    exact (forall_update_iff s.queues fun _ m => m.channel.capacity = capacity).mpr
      ⟨hcapacity.trans (hs.capacity priority), fun other _ => hs.capacity other⟩
  · rw [hqueues]
    exact (forall_update_iff s.queues fun _ m =>
      ∀ task ∈ m.items, serves task.node).mpr ⟨hitems, fun other _ => hs.queued other⟩

theorem Wired.works (hs : s.Wired capacity serves) (hworks : s.Works next) :
    next.Wired capacity serves := by
  cases hworks with
  | receive priority task mailbox _ hreceive =>
    obtain ⟨-, -, -, -, hitems⟩ := receive?_eq_some hreceive
    have hserved := hs.queued priority
    rw [hitems] at hserved
    refine hs.setMailbox priority rfl (receive?_capacity hreceive) ?_ ?_
    · exact fun other hother => hserved other (mem_cons_of_mem _ hother)
    · rintro other heq
      cases heq
      exact hserved task mem_cons_self
  | drain priority mailbox _ hdrain =>
    obtain ⟨-, -, -, task, hitems⟩ := drain?_eq_some hdrain
    refine hs.setMailbox priority rfl (drain?_capacity hdrain) ?_ hs.executing
    intro other hother
    refine hs.queued priority other ?_
    rw [hitems]
    exact mem_cons_of_mem _ hother
  | _ => exact ⟨hs.capacity, hs.queued, nofun⟩

variable {call moved : PoolCall Value} {choice : Bool}

theorem uses_callStep {producer} (huses : call.Uses serves)
    (hstep : s.callStep producer choice call = some (moved, next)) : moved.Uses serves := by
  cases call with
  | idle => cases hstep
  | stopSwap node =>
    simp only [callStep] at hstep
    split at hstep <;> cases hstep
    · exact huses
    · trivial
  | stopCall node =>
    cases hstep
    exact huses
  | onStop node =>
    cases hstep
    trivial
  | controlCheck node control | inputCheck node kind value =>
    cases hstep
    split
    · first | exact huses | trivial
    · first | exact huses | trivial
  | submitErr task =>
    simp only [callStep] at hstep
    split at hstep <;> cases hstep
    · trivial
    · exact huses
  | submitSelect task =>
    simp only [callStep] at hstep
    split at hstep
    · cases hstep
      trivial
    · cases hstep
    · obtain ⟨-, heq⟩ := Option.ite_none_right_eq_some.mp hstep
      cases heq
      trivial

theorem Wired.calls (hs : s.Wired capacity serves) (huses : call.Uses serves)
    (hcalls : s.Calls choice call moved next) : next.Wired capacity serves := by
  cases hcalls with
  | send task mailbox hsend =>
    obtain ⟨-, -, -, -, hitems⟩ := send?_eq_some hsend
    refine hs.setMailbox task.priority rfl (send?_capacity hsend) ?_ hs.executing
    intro other hother
    rw [hitems, mem_append, mem_singleton] at hother
    rcases hother with hbefore | rfl
    · exact hs.queued _ other hbefore
    · exact huses
  | drop task =>
    refine hs.setMailbox task.priority rfl ?_ ?_ hs.executing
    · rfl
    · exact hs.queued task.priority
  | _ =>
    exact ⟨hs.capacity, hs.queued, hs.executing⟩

theorem Calls.worker (hcalls : s.Calls choice call moved next) :
    next.worker = s.worker ∧ next.ctxDone = s.ctxDone := by
  cases hcalls <;> exact ⟨rfl, rfl⟩

inductive InputMoves (s : PoolShared Value) (producer target : Nat) (send : Send Value)
    (call : PoolCall Value) : PoolCall Value → PoolShared Value → Prop where
  | move (moved : PoolCall Value) (hinputs : moved.Inputs producer target send)
      (hmoved : moved.inputSteps < call.inputSteps) : InputMoves s producer target send call moved s
  | skip (hsilent : s.ctxDone = true ∨ (s.nodes target).running = false) :
      InputMoves s producer target send call .idle s
  | lose (hlost : s.ctxDone = true ∨ send.kind.Media) :
      InputMoves s producer target send call .idle
        (s.lose (.event target send.kind ⟨producer, send.value⟩))
  | place (mailbox : Mailbox (Task Value))
      (hsend : (s.queues send.kind.priority).send?
        (.event target send.kind ⟨producer, send.value⟩) = some mailbox) :
      InputMoves s producer target send call .idle
        { s with queues := update s.queues send.kind.priority mailbox }

variable {producer target : Nat} {send : Send Value}

theorem inputs_callStep (hinputs : call.Inputs producer target send)
    (hstep : s.callStep producer choice call = some (moved, next)) :
    s.InputMoves producer target send call moved next := by
  rcases hinputs with rfl | rfl | rfl
  · simp only [callStep] at hstep
    split at hstep <;> cases hstep
    next hsilent => exact .skip hsilent
    · exact .move _ (.inr (.inl rfl)) (Nat.lt_succ_self 2)
  · simp only [callStep] at hstep
    split at hstep <;> cases hstep
    next hdone => exact .lose (.inl hdone)
    · exact .move _ (.inr (.inr rfl)) (Nat.lt_succ_self 1)
  · simp only [callStep] at hstep
    split at hstep
    next mailbox hsend =>
      cases hstep
      exact .place mailbox hsend
    · cases hstep
    · obtain ⟨hlost, heq⟩ := Option.ite_none_right_eq_some.mp hstep
      cases heq
      exact .lose (hlost.imp id And.left)

/-- What is left of a call that has not returned. -/
theorem InputMoves.unreturned (hmoves : s.InputMoves producer target send call moved next)
    (hmoved : moved ≠ .idle) :
    moved.Inputs producer target send ∧ moved.inputSteps < call.inputSteps := by
  cases hmoves with
  | move _ hinputs hlt => exact ⟨hinputs, hlt⟩
  | _ => exact absurd rfl hmoved

/-- `Input` waits only for a full queue. -/
theorem exists_callStep_of_inputs {call} (hinputs : call.Inputs producer target send) :
    (∃ choice moved, s.callStep producer choice call = some moved) ∨
      call = .submitSelect (.event target send.kind ⟨producer, send.value⟩) ∧
        s.Full send.kind.priority := by
  rcases hinputs with rfl | rfl | rfl
  · exact .inl ⟨true, _, rfl⟩
  · refine .inl ⟨true, ?_⟩
    simp only [callStep]
    split
    · exact ⟨_, rfl⟩
    · exact ⟨_, rfl⟩
  · cases hsend : (s.queues send.kind.priority).send?
        (.event target send.kind ⟨producer, send.value⟩) with
    | none => exact .inr ⟨rfl, length_items_of_send?_eq_none hsend⟩
    | some mailbox =>
      refine .inl ⟨true, (.idle,
        { s with queues := update s.queues send.kind.priority mailbox }), ?_⟩
      simp [callStep, Task.priority, hsend]

end PoolShared

/-! ## The network -/

def PoolLayout.Serves {size workers : Nat} (layout : PoolLayout size workers) (w : Fin workers)
    (node : Nat) : Prop :=
  ∃ i : Fin size, i.val = node ∧ layout.worker i = w

namespace WorkerNetworkShared

variable {s next : WorkerNetworkShared size workers Value}

/-- The handler sends along the edges of the node whose task the worker executes. -/
def Handled (layout : PoolLayout size workers) (pool : PoolShared Value)
    (phase : HandlerPhase (Fin size) (PoolCall Value) Value) : Prop :=
  match pool.worker.task with
  | none => phase.Done
  | some task => ∃ i : Fin size, i.val = task.node ∧ phase.OnRoute layout.routes i ∧
      match phase with
      | .input target call send _ _ => call.Inputs task.node target send
      | .ready _ | .routing _ _ _ => True

structure Wired (s : WorkerNetworkShared size workers Value) (layout : PoolLayout size workers)
    (capacity : Nat) : Prop where
  pools : ∀ w, (s.pools w).Wired capacity (layout.Serves w)
  handled : ∀ w, Handled layout (s.pools w) (s.handlers w)

variable {w : Fin workers} {task : Task Value} {choice : Bool} {producer : Nat}
  {call : PoolCall Value} {target : Fin size}

/-- A call on a pool leaves every worker alone. -/
theorem setPool_worker_task {v w call moved}
    (hstep : (s.pools v).callStep producer choice call = some (moved, pool)) :
    ((s.setPool v pool).pools w).worker.task = (s.pools w).worker.task := by
  by_cases hw : w = v
  · subst hw
    rw [setPool_pools_self, (calls_of_callStep hstep).worker.1]
  · rw [setPool_pools_of_ne _ _ hw]

theorem inputStep_eq_some {moved}
    (hstep : s.inputStep layout producer choice target call = some (moved, next)) :
    ∃ after pool,
      (s.pools (layout.worker target)).callStep producer choice call = some (after, pool) ∧
      next = s.setPool (layout.worker target) pool ∧ (after = .idle → moved = none) ∧
      (after ≠ .idle → moved = some after) := by
  obtain ⟨⟨after, pool⟩, hcall, heq⟩ := Option.map_eq_some_iff.mp hstep
  cases heq
  refine ⟨after, pool, hcall, rfl, ?_, fun hne => ?_⟩
  · rintro rfl
    rfl
  · cases after <;> first | exact absurd rfl hne | rfl

/-- A step of a handler, at the node whose task the worker executes. -/
theorem handlerStep_eq_some (hstep : s.handlerStep layout w choice = some next) :
    ∃ task i phase after, (s.pools w).worker.task = some task ∧ i.val = task.node ∧
      Steps layout.routes i
        ((s.pools w).ctxDone = true ∨ ((s.pools w).nodes i).running = false)
        (fun target send => .inputCheck target send.kind send.value)
        (s.inputStep layout task.node choice) s (s.handlers w) phase after ∧
      next = after.setHandler w phase := by
  unfold handlerStep at hstep
  split at hstep
  · cases hstep
  next task htask =>
    split at hstep
    next hnode =>
      obtain ⟨⟨phase, after⟩, hphase, rfl⟩ := Option.map_eq_some_iff.mp hstep
      exact ⟨task, ⟨task.node, hnode⟩, phase, after, htask, rfl,
        steps_of_step hphase, rfl⟩
    · cases hstep

theorem handlerStep_handlers_of_ne {v w} (hstep : s.handlerStep layout w choice = some next)
    (hv : v ≠ w) : next.handlers v = s.handlers v := by
  obtain ⟨task, i, phase, after, -, -, hsteps, rfl⟩ := handlerStep_eq_some hstep
  rw [setHandler_handlers_of_ne _ _ hv]
  generalize s.handlers w = before at hsteps
  cases hsteps with
  | move _ _ _ _ _ _ _ hinput | leave _ _ _ _ _ _ hinput =>
    obtain ⟨reached, pool, -, rfl, -⟩ := inputStep_eq_some hinput
    rfl
  | _ => rfl

theorem uses_of_inputs {send} (hinputs : call.Inputs producer target send) :
    call.Uses (layout.Serves (layout.worker target)) := by
  rcases hinputs with rfl | rfl | rfl <;> exact ⟨target, rfl, rfl⟩

section

variable (hs : s.Wired layout capacity)
include hs

/-- The node whose task the worker executes, and where its handler is. -/
theorem Wired.executes (htask : (s.pools w).worker.task = some task) :
    ∃ i : Fin size, i.val = task.node ∧ layout.worker i = w ∧
      (s.handlers w).OnRoute layout.routes i ∧
      ∀ target call send targets rest, s.handlers w = .input target call send targets rest →
        call.Inputs task.node target send := by
  have hhandled := hs.handled w
  rw [Handled, htask] at hhandled
  obtain ⟨i, hi, hrouted, hinputs⟩ := hhandled
  obtain ⟨j, hj, hworker⟩ := (hs.pools w).executing task htask
  obtain rfl : i = j := Fin.ext (hi.trans hj.symm)
  refine ⟨i, hi, hworker, hrouted, fun target call send targets rest hphase => ?_⟩
  rw [hphase] at hinputs
  exact hinputs

variable {pool : PoolShared Value}

/-- A step on a pool that leaves its worker alone. -/
theorem Wired.setPool (hpool : pool.Wired capacity (layout.Serves w))
    (hworker : pool.worker = (s.pools w).worker) : (s.setPool w pool).Wired layout capacity := by
  refine ⟨(forall_update_iff s.pools fun v pool =>
    pool.Wired capacity (layout.Serves v)).mpr ⟨hpool, fun v _ => hs.pools v⟩, ?_⟩
  refine (forall_update_iff s.pools fun v pool =>
    Handled layout pool (s.handlers v)).mpr ⟨?_, fun v _ => hs.handled v⟩
  rw [Handled, hworker]
  exact hs.handled w

theorem Wired.setHandler {phase} (hphase : Handled layout (s.pools w) phase) :
    (s.setHandler w phase).Wired layout capacity :=
  ⟨hs.pools, (forall_update_iff s.handlers fun v phase =>
    Handled layout (s.pools v) phase).mpr ⟨hphase, fun v _ => hs.handled v⟩⟩

theorem Wired.calls {call moved} (huses : call.Uses (layout.Serves w))
    (hstep : (s.pools w).callStep producer choice call = some (moved, pool)) :
    (s.setPool w pool).Wired layout capacity := by
  have hcalls := calls_of_callStep hstep
  exact hs.setPool ((hs.pools w).calls huses hcalls) hcalls.worker.1

theorem Wired.workerStep {label sends} (hstep : s.workerStep w label sends = some next) :
    next.Wired layout capacity := by
  unfold WorkerNetworkShared.workerStep at hstep
  split at hstep
  · obtain ⟨pool, hworker, rfl⟩ := Option.map_eq_some_iff.mp hstep
    have hpool := (hs.pools w).works (works_of_workerStep hworker)
    refine ⟨(forall_update_iff s.pools fun v pool =>
      pool.Wired capacity (layout.Serves v)).mpr ⟨hpool, fun v _ => hs.pools v⟩, fun v => ?_⟩
    by_cases hv : v = w
    · subst hv
      rw [setHandler_pools, setPool_pools_self, setHandler_handlers_self]
      cases htask : pool.worker.task with
      | none => simp [Handled, htask, Done]
      | some task =>
        obtain ⟨i, hi, -⟩ := hpool.executing task htask
        rw [Handled, htask]
        exact ⟨i, hi, trivial, trivial⟩
    · rw [setHandler_pools, setPool_pools_of_ne _ _ hv, setHandler_handlers_of_ne _ _ hv]
      exact hs.handled v
  · cases hstep

theorem Wired.handlerStep (hstep : s.handlerStep layout w choice = some next) :
    next.Wired layout capacity := by
  obtain ⟨task, i, phase, after, htask, hi, hsteps, rfl⟩ := handlerStep_eq_some hstep
  obtain ⟨j, hj, -, hrouted, hinputs⟩ := hs.executes htask
  obtain rfl : i = j := Fin.ext (hi.trans hj.symm)
  have hmoved := hrouted.steps hsteps
  generalize s.handlers w = before at hsteps hinputs
  cases hsteps with
  | enter =>
    refine hs.setHandler ?_
    rw [Handled, htask]
    exact ⟨i, hi, hmoved, .inl rfl⟩
  | move target current moved send targets rest after hinput =>
    obtain ⟨reached, pool, hcall, rfl, hidle, hreached⟩ := inputStep_eq_some hinput
    have hne : reached ≠ .idle := fun h => by cases hidle h
    cases hreached hne
    have hinputs := hinputs _ _ _ _ _ rfl
    refine (hs.calls (uses_of_inputs hinputs) hcall).setHandler ?_
    rw [Handled, setPool_worker_task hcall, htask]
    exact ⟨i, hi, hmoved, ((inputs_callStep hinputs hcall).unreturned hne).1⟩
  | leave target current send targets rest after hinput =>
    obtain ⟨reached, pool, hcall, rfl, -⟩ := inputStep_eq_some hinput
    refine (hs.calls (uses_of_inputs (hinputs _ _ _ _ _ rfl)) hcall).setHandler ?_
    rw [Handled, setPool_worker_task hcall, htask]
    exact ⟨i, hi, hmoved, trivial⟩
  | _ =>
    refine hs.setHandler ?_
    rw [Handled, htask]
    exact ⟨i, hi, hmoved, trivial⟩

/-- A handler that is not done can step unless it waits in `Input`. -/
theorem Wired.exists_handlerStep (choice : Bool) (htask : (s.pools w).worker.task = some task)
    (hdone : ¬ (s.handlers w).Done) (hinput : ∀ target call send targets rest,
      s.handlers w = .input target call send targets rest →
      ∃ moved, s.inputStep layout task.node choice target call = some moved) :
    ∃ next, s.handlerStep layout w choice = some next := by
  obtain ⟨i, hi, -⟩ := (hs.pools w).executing task htask
  have hnode : task.node < size := hi ▸ i.isLt
  have hstep : ∃ moved, step layout.routes ⟨task.node, hnode⟩
      ((s.pools w).ctxDone = true ∨ ((s.pools w).nodes task.node).running = false)
      (fun target send => .inputCheck target send.kind send.value)
      (s.inputStep layout task.node choice) s (s.handlers w) = some moved :=
    exists_step _ hdone hinput
  obtain ⟨moved, hmoved⟩ := hstep
  refine ⟨moved.2.setHandler w moved.1, ?_⟩
  simp only [WorkerNetworkShared.handlerStep, htask, dif_pos hnode, hmoved, Option.map_some]

end

/-- A handler in `Input` is somewhere else after a step. -/
theorem handlerStep_moves (htask : (s.pools w).worker.task = some task) {send targets rest}
    (hphase : s.handlers w = .input target call send targets rest)
    (hinputs : call.Inputs task.node target send)
    (hstep : s.handlerStep layout w choice = some next) : next.handlers w ≠ s.handlers w := by
  obtain ⟨other, j, phase, after, hother, -, hsteps, rfl⟩ := handlerStep_eq_some hstep
  cases htask.symm.trans hother
  rw [setHandler_handlers_self, hphase]
  rw [hphase] at hsteps
  cases hsteps with
  | leave => nofun
  | move _ _ moved _ _ _ _ hinput =>
    obtain ⟨reached, pool, hcall, -, hidle, hreached⟩ := inputStep_eq_some hinput
    have hne : reached ≠ .idle := fun h => by cases hidle h
    cases hreached hne
    intro heq
    injection heq with _ hcallEq
    exact ne_of_lt ((inputs_callStep hinputs hcall).unreturned hne).2
      (congrArg _ hcallEq)

end WorkerNetworkShared

namespace WorkerNetwork

/-- A worker that is blocked for ever waits for the full queue of a worker. -/
theorem BlockedForever.waits {c : WorkerNetwork size workers Value} {w}
    (hblocked : BlockedForever layout c w) (hs : c.shared.Wired layout capacity)
    (hpositive : 0 < capacity) : ∃ v, layout.Waits w v ∧ (c.shared.pools v).HasTask := by
  obtain ⟨target, call, send, targets, rest, hphase, hkind⟩ := hblocked.inside
  have hhandled := hs.handled w
  unfold WorkerNetworkShared.Handled at hhandled
  split at hhandled
  · cases hphase.symm.trans hhandled
  next task htask =>
    obtain ⟨i, hi, hworker, hrouted, hinputs⟩ := hs.executes htask
    have hinputs := hinputs target call send targets rest hphase
    rw [hphase] at hrouted
    refine ⟨layout.worker target,
      ⟨i, target, send.port, send.kind, hworker, rfl, hkind, hrouted target mem_cons_self⟩, ?_⟩
    rcases exists_callStep_of_inputs (s := c.shared.pools (layout.worker target))
      hinputs with ⟨choice, moved, hmoved⟩ | ⟨-, hfull⟩
    · -- the send would go on, so the worker is not blocked
      have hinput : ∃ moved,
          c.shared.inputStep layout task.node choice target call = some moved :=
        ⟨_, by rw [inputStep, hmoved]; rfl⟩
      obtain ⟨next, hnext⟩ := hs.exists_handlerStep choice htask (by rw [hphase]; nofun)
        (by rw [hphase]; rintro _ _ _ _ _ ⟨⟩; exact hinput)
      have hrun : run (step layout) c [.handler w choice] =
          some { c with shared := next } := by
        simp [run, step, hnext]
      have hstays := hblocked.forever [.handler w choice] _ (by simp) hrun
      exact absurd hstays (handlerStep_moves htask hphase hinputs hnext)
    · refine .inr ⟨send.kind.priority, fun hempty => ?_⟩
      rw [PoolShared.Full, hempty, (hs.pools _).capacity] at hfull
      exact ne_of_lt hpositive hfull

abbrev Wired (layout : PoolLayout size workers) (capacity : Nat)
    (c : WorkerNetwork size workers Value) : Prop :=
  Outline (fun s => WorkerNetworkShared.Wired s layout capacity)
    (fun user _ => user.call.Uses (layout.Serves user.worker)) (fun _ _ => True) c

theorem initial_wired (layout : PoolLayout size workers) (queueSize : Int) :
    Wired layout (WorkerPool.queueCapacity queueSize)
      (initial queueSize : WorkerNetwork size workers Value) := by
  refine .start _ ⟨fun w => ⟨fun _ => rfl, ?_, nofun⟩, fun w => rfl⟩
  intro priority task htask
  cases htask

theorem step_wired {c d : WorkerNetwork size workers Value} {label} (hc : Wired layout capacity c)
    (hstep : c.step layout label = some d) : Wired layout capacity d := by
  have hs := hc.shared
  cases label with
  | start i succeeds | ready i =>
    obtain ⟨n, -, rfl⟩ := Option.map_eq_some_iff.mp hstep
    have hpool := hs.pools (layout.worker i)
    exact hc.environment (hs.setPool ⟨hpool.capacity, hpool.queued, hpool.executing⟩ rfl)
      fun _ => id
  | worker w label sends =>
    obtain ⟨s, hworker, rfl⟩ := Option.map_eq_some_iff.mp hstep
    exact hc.environment (hs.workerStep hworker) fun _ => id
  | handler w choice =>
    obtain ⟨s, hhandler, rfl⟩ := Option.map_eq_some_iff.mp hstep
    exact hc.environment (hs.handlerStep hhandler) fun _ => id
  | spawn w =>
    cases hstep
    exact hc.spawn trivial fun _ => ⟨trivial, trivial⟩
  | request k i request =>
    obtain ⟨user, moved, shared, hk, hnext, rfl⟩ := advance_eq_some hstep
    split at hnext
    · cases hnext
      refine hc.update hk hs ?_ fun _ _ hother _ _ => ⟨hother, trivial, trivial⟩
      cases request with
      | _ => exact ⟨i, rfl, rfl⟩
    · cases hnext
  | call k choice =>
    obtain ⟨user, moved, shared, hk, hnext, rfl⟩ := advance_eq_some hstep
    obtain ⟨⟨call, pool⟩, hcall, heq⟩ := Option.map_eq_some_iff.mp hnext
    cases heq
    have huses := hc.asserted k user hk
    exact hc.update hk (hs.calls huses hcall) (uses_callStep huses hcall)
      fun _ _ hother _ _ => ⟨hother, trivial, trivial⟩
  | cancel =>
    cases hstep
    refine hc.environment ⟨fun w => ?_, hs.handled⟩ fun _ => id
    exact ⟨(hs.pools w).capacity, (hs.pools w).queued, (hs.pools w).executing⟩

theorem run_wired {c final : WorkerNetwork size workers Value}
    {labels : List (Label size workers Value)} (hc : Wired layout capacity c)
    (hrun : run (step layout) c labels = some final) : Wired layout capacity final :=
  run_invariant (Wired layout capacity) step_wired
    hc hrun

theorem queueCapacity_pos (queueSize : Int) : 0 < WorkerPool.queueCapacity queueSize := by
  unfold WorkerPool.queueCapacity
  split <;> omega

/-- Workers that wait for each other without a cycle are never deadlocked. -/
theorem deadlockFree_of_acyclic (hacyclic : WaitFor.Acyclic layout.Waits) (queueSize : Int) :
    DeadlockFree layout queueSize Value := by
  intro labels final hrun _ hdeadlock
  have hs := (run_wired (initial_wired layout queueSize) hrun).shared
  obtain ⟨w, priority, hqueued⟩ := hdeadlock.queued
  have hwork : (final.shared.pools w).HasTask := .inr ⟨priority, hqueued⟩
  have hfree : ∃ _ : Fin workers, False := WaitFor.exists_free hacyclic
    (fun v hv => .inr ((hdeadlock.blocked v hv).waits hs (queueCapacity_pos queueSize))) hwork
  exact hfree.elim fun _ => id

end WorkerNetwork

/-! ## A closed set of blocked workers -/

namespace PoolShared

variable {s next : PoolShared Value} {priority : Priority} {task : Task Value}

theorem Full.send?_eq_none (hfull : s.Full priority) : (s.queues priority).send? task = none := by
  cases hsend : (s.queues priority).send? task with
  | none => rfl
  | some mailbox =>
    obtain ⟨-, -, -, -, hitems⟩ := send?_eq_some hsend
    have hbounded := mailbox.channel.bounded
    rw [send?_capacity hsend, show mailbox.channel.items = _ from hitems,
      length_append, hfull] at hbounded
    exact absurd hbounded (Nat.not_succ_le_self _)

theorem Full.callStep_eq_none (hfull : s.Full task.priority) (hmedia : ¬ task.Media)
    (hlive : s.ctxDone = false) (producer : Nat) (choice : Bool) :
    s.callStep producer choice (.submitSelect task) = none := by
  cases choice <;> simp [callStep, hfull.send?_eq_none, hlive, hmedia]

/-- No call takes a task from a queue. -/
theorem Calls.queues {call moved choice} (hcalls : s.Calls choice call moved next)
    (priority : Priority) :
    (next.queues priority).channel.capacity = (s.queues priority).channel.capacity ∧
      (s.queues priority).items.length ≤ (next.queues priority).items.length := by
  cases hcalls with
  | send task mailbox hsend =>
    obtain ⟨-, -, -, -, hitems⟩ := send?_eq_some hsend
    by_cases hpriority : priority = task.priority
    · subst hpriority
      simp [send?_capacity hsend, hitems]
    · simp [update_of_ne hpriority]
  | drop task =>
    by_cases hpriority : priority = task.priority
    · subst hpriority
      simp [lose]
    · simp [lose, update_of_ne hpriority]
  | _ => exact ⟨rfl, le_rfl⟩

theorem Full.calls (hfull : s.Full priority) {call moved choice}
    (hcalls : s.Calls choice call moved next) : next.Full priority := by
  obtain ⟨hcapacity, hgrows⟩ := hcalls.queues priority
  exact Nat.le_antisymm (next.queues priority).channel.bounded
    (le_trans (le_of_eq (hcapacity.trans (Eq.symm hfull))) hgrows)

end PoolShared

namespace WorkerNetworkShared

variable {s next : WorkerNetworkShared size workers Value} {members : Fin workers → Prop}

/-- Every member is in a send to the full queue of a member. -/
def Stuck (s : WorkerNetworkShared size workers Value) (layout : PoolLayout size workers)
    (members : Fin workers → Prop) : Prop :=
  ∀ w, members w → ∃ target task send targets rest,
    s.handlers w = .input target (.submitSelect task) send targets rest ∧
    ¬ send.kind.Media ∧ ¬ task.Media ∧ members (layout.worker target) ∧
    (s.pools (layout.worker target)).Full task.priority ∧
    (s.pools (layout.worker target)).ctxDone = false

/-- A step that leaves the members in their sends and makes no room in their queues. -/
theorem Stuck.frame (hs : s.Stuck layout members)
    (hhandlers : ∀ w, members w → next.handlers w = s.handlers w)
    (hpools : ∀ w, members w → (next.pools w).ctxDone = (s.pools w).ctxDone ∧
      ∀ priority, (s.pools w).Full priority → (next.pools w).Full priority) :
    next.Stuck layout members := by
  intro w hw
  obtain ⟨target, task, send, targets, rest, hphase, hkind, hmedia, htarget, hfull, hlive⟩ :=
    hs w hw
  obtain ⟨hdone, hstays⟩ := hpools _ htarget
  exact ⟨target, task, send, targets, rest, (hhandlers w hw).trans hphase, hkind, hmedia, htarget,
    hstays _ hfull, hdone.trans hlive⟩

/-- A call on a pool makes no room in any queue. -/
theorem kept_of_callStep {v pool producer choice call moved}
    (hstep : (s.pools v).callStep producer choice call = some (moved, pool)) (w : Fin workers) :
    ((s.setPool v pool).pools w).ctxDone = (s.pools w).ctxDone ∧
      ∀ priority, (s.pools w).Full priority → ((s.setPool v pool).pools w).Full priority := by
  have hcalls := calls_of_callStep hstep
  by_cases hw : w = v
  · subst hw
    rw [setPool_pools_self]
    exact ⟨hcalls.worker.2, fun _ hfull => hfull.calls hcalls⟩
  · rw [setPool_pools_of_ne _ _ hw]
    exact ⟨rfl, fun _ => id⟩

/-- A member's worker and handler do not step, and no step of another makes room. -/
theorem Stuck.handlerStep (hs : s.Stuck layout members) {w choice}
    (hstep : s.handlerStep layout w choice = some next) :
    next.Stuck layout members ∧ ∀ v, members v → next.handlers v = s.handlers v := by
  obtain ⟨task, i, phase, after, -, -, hsteps, rfl⟩ := handlerStep_eq_some hstep
  have hkept : ∀ v, (after.pools v).ctxDone = (s.pools v).ctxDone ∧
      ∀ priority, (s.pools v).Full priority → (after.pools v).Full priority := by
    generalize s.handlers w = before at hsteps
    cases hsteps with
    | move _ _ _ _ _ _ _ hinput | leave _ _ _ _ _ _ hinput =>
      obtain ⟨reached, pool, hcall, rfl, -⟩ := inputStep_eq_some hinput
      exact kept_of_callStep hcall
    | _ => exact fun _ => ⟨rfl, fun _ => id⟩
  have hnot : ¬ members w := by
    intro hw
    obtain ⟨target, submitted, send, targets, rest, hphase, -, hmedia, -, hfull, hlive⟩ := hs w hw
    rw [hphase] at hsteps
    cases hsteps with
    | move _ _ _ _ _ _ _ hinput | leave _ _ _ _ _ _ hinput =>
      obtain ⟨reached, pool, hcall, -⟩ := inputStep_eq_some hinput
      rw [hfull.callStep_eq_none hmedia hlive] at hcall
      cases hcall
  have hhandlers : ∀ v, members v → (after.setHandler w phase).handlers v = s.handlers v :=
    fun v hv => handlerStep_handlers_of_ne hstep fun h => hnot (h ▸ hv)
  exact ⟨hs.frame hhandlers fun v _ => hkept v, hhandlers⟩

theorem Stuck.workerStep (hs : s.Stuck layout members) {w label sends}
    (hstep : s.workerStep w label sends = some next) :
    next.Stuck layout members ∧ ∀ v, members v → next.handlers v = s.handlers v := by
  unfold WorkerNetworkShared.workerStep at hstep
  split at hstep
  next hdone =>
    obtain ⟨pool, -, rfl⟩ := Option.map_eq_some_iff.mp hstep
    have hne : ∀ v, members v → v ≠ w := by
      rintro v hv rfl
      obtain ⟨_, _, _, _, _, hphase, -⟩ := hs v hv
      cases hdone.symm.trans hphase
    have hhandlers : ∀ v, members v →
        ((s.setPool w pool).setHandler w
          (.ready (if pool.worker.task.isSome then sends else []))).handlers v = s.handlers v := by
      intro v hv
      rw [setHandler_handlers_of_ne _ _ (hne v hv), setPool_handlers]
    refine ⟨hs.frame hhandlers fun v hv => ?_, hhandlers⟩
    rw [setHandler_pools, setPool_pools_of_ne _ _ (hne v hv)]
    exact ⟨rfl, fun _ => id⟩
  · cases hstep

end WorkerNetworkShared

namespace WorkerNetwork

variable {members : Fin workers → Prop}

theorem step_stuck {c d : WorkerNetwork size workers Value} {label}
    (hs : c.shared.Stuck layout members) (hlabel : label ≠ .cancel)
    (hstep : c.step layout label = some d) :
    d.shared.Stuck layout members ∧
      ∀ w, members w → d.shared.handlers w = c.shared.handlers w := by
  cases label with
  | start i succeeds | ready i =>
    obtain ⟨n, -, rfl⟩ := Option.map_eq_some_iff.mp hstep
    refine ⟨hs.frame (fun _ _ => rfl) fun w _ => ?_, fun _ _ => rfl⟩
    by_cases hw : w = layout.worker i
    · subst hw
      rw [setPool_pools_self]
      exact ⟨rfl, fun _ => id⟩
    · rw [setPool_pools_of_ne _ _ hw]
      exact ⟨rfl, fun _ => id⟩
  | worker w label sends =>
    obtain ⟨s, hworker, rfl⟩ := Option.map_eq_some_iff.mp hstep
    exact hs.workerStep hworker
  | handler w choice =>
    -- a member's own handler has no step, so this is another worker's
    obtain ⟨s, hhandler, rfl⟩ := Option.map_eq_some_iff.mp hstep
    exact hs.handlerStep hhandler
  | spawn w =>
    cases hstep
    exact ⟨hs, fun _ _ => rfl⟩
  | request k i request =>
    obtain ⟨user, moved, shared, -, hnext, rfl⟩ := advance_eq_some hstep
    split at hnext
    · cases hnext
      exact ⟨hs, fun _ _ => rfl⟩
    · cases hnext
  | call k choice =>
    obtain ⟨user, moved, shared, -, hnext, rfl⟩ := advance_eq_some hstep
    obtain ⟨⟨call, pool⟩, hcall, heq⟩ := Option.map_eq_some_iff.mp hnext
    cases heq
    exact ⟨hs.frame (fun _ _ => rfl) fun w _ => kept_of_callStep hcall w, fun _ _ => rfl⟩
  | cancel => exact absurd rfl hlabel

variable {c : WorkerNetwork size workers Value}

/-- The members of a stuck set are blocked for ever. -/
theorem blockedForever_of_stuck (hs : c.shared.Stuck layout members) {w} (hw : members w) :
    BlockedForever layout c w where
  inside := by
    obtain ⟨target, task, send, targets, rest, hphase, hkind, -⟩ := hs w hw
    exact ⟨target, .submitSelect task, send, targets, rest, hphase, hkind⟩
  forever labels d hcancel hrun := by
    have hmeets : Transition.Meets (step layout) (fun _ label => label ≠ .cancel) c labels :=
      meets_of_forall_mem (fun _ hlabel _ => ne_of_mem_of_not_mem hlabel hcancel) c
    exact (run_invariant_of_meets (fun d : WorkerNetwork size workers Value =>
        d.shared.Stuck layout members ∧ d.shared.handlers w = c.shared.handlers w)
      (fun hc hlabel hstep =>
        ⟨(step_stuck hc.1 hlabel hstep).1, ((step_stuck hc.1 hlabel hstep).2 w hw).trans hc.2⟩)
      ⟨hs, rfl⟩ hmeets hrun).2

/-- A stuck set of workers with a queued task is a deadlock if the other workers have
nothing to do. -/
theorem deadlocked_of_stuck (hs : c.shared.Stuck layout members) (hmember : ∃ w, members w)
    (hroom : ∀ w priority, 0 < ((c.shared.pools w).queues priority).channel.capacity)
    (hothers : ∀ w, (c.shared.pools w).HasTask → members w) : Deadlocked layout c where
  queued := by
    obtain ⟨w, hw⟩ := hmember
    obtain ⟨target, task, send, targets, rest, -, -, -, -, hfull, -⟩ := hs w hw
    refine ⟨layout.worker target, task.priority, fun hempty => ?_⟩
    rw [PoolShared.Full, hempty] at hfull
    exact ne_of_lt (hroom _ _) hfull
  blocked w hw := blockedForever_of_stuck hs (hothers w hw)

end WorkerNetwork

end Voce.Engine
