import Voce.Engine.WorkerDeadlock
import Mathlib.Algebra.Order.BigOperators.Group.Finset

/-! # A cycle of workers deadlocks

Whenever workers wait for each other along a cycle, some run ends in a deadlock.
Each worker of the cycle is in a handler that repeats one send more often than a
queue has room. The other workers execute what they are sent, and in the end
every worker of the cycle is in a send to the full queue of another one.
-/

namespace Voce.Engine

open Interleaving WorkerNetwork WorkerNetworkShared Transition Function List Mailbox Config

variable {size workers : Nat} {Value : Type} {layout : PoolLayout size workers}
  {c : WorkerNetwork size workers Value}

/-! ## Pools that are sent to, and pools that execute -/

namespace PoolShared

variable {s next : PoolShared Value}

/-- Tasks were added to the queues, and nothing else changed. -/
structure Grows (s next : PoolShared Value) : Prop where
  worker : next.worker = s.worker
  ctxDone : next.ctxDone = s.ctxDone
  nodes : next.nodes = s.nodes
  queues : ∀ priority, (s.queues priority).items.length ≤ (next.queues priority).items.length

theorem Grows.refl (s : PoolShared Value) : s.Grows s := ⟨rfl, rfl, rfl, fun _ => le_rfl⟩

theorem grows_of_callStep {call moved producer target send choice}
    (hinputs : call.Inputs producer target send)
    (hstep : s.callStep producer choice call = some (moved, next)) : s.Grows next := by
  have hcalls := calls_of_callStep hstep
  refine ⟨hcalls.worker.1, hcalls.worker.2, ?_, fun priority => (hcalls.queues priority).2⟩
  cases inputs_callStep hinputs hstep <;> rfl

/-- `Input` of a running node returns after its task is placed, if it may not drop it. -/
theorem length_items_of_returned {call producer target send choice}
    (hinputs : call.Inputs producer target send) (hlive : s.ctxDone = false)
    (hrunning : (s.nodes target).running = true) (hkind : ¬ send.kind.Media)
    (hstep : s.callStep producer choice call = some (.idle, next)) :
    (next.queues send.kind.priority).items.length =
      (s.queues send.kind.priority).items.length + 1 := by
  cases inputs_callStep hinputs hstep with
  | move _ hidle => rcases hidle with h | h | h <;> cases h
  | skip hsilent => simp [hlive, hrunning] at hsilent
  | lose hlost => simp [hlive, hkind] at hlost
  | place mailbox hsend =>
    obtain ⟨-, -, -, -, hitems⟩ := send?_eq_some hsend
    simp [hitems]

def Listens (s : PoolShared Value) : Prop := s.worker ≠ .draining ∧ s.worker ≠ .exited

/-- Bounds the steps of the worker until it has nothing to do. -/
def backlog (s : PoolShared Value) : Nat :=
  3 * ((s.queues .high).items.length + (s.queues .normal).items.length) +
    match s.worker with
    | .executing _ => 2
    | .outer => 1
    | .inner | .draining | .exited => 0

theorem Listens.works (hs : s.Listens) (hlive : s.ctxDone = false) (hworks : s.Works next) :
    next.Listens := by
  cases hworks with
  | leave _ hdone => exact absurd (hlive.symm.trans hdone) Bool.false_ne_true
  | drain _ _ hphase | exit hphase => exact absurd hphase hs.1
  | _ => exact ⟨nofun, nofun⟩

theorem exists_receiveTask {priority} (hitems : (s.queues priority).items ≠ []) :
    ∃ next, s.receiveTask priority = some next ∧ next.backlog < s.backlog := by
  obtain ⟨task, mailbox, hreceive⟩ := exists_receive? hitems
  obtain ⟨-, -, -, -, heq⟩ := receive?_eq_some hreceive
  refine ⟨_, by rw [receiveTask, hreceive]; rfl, ?_⟩
  cases priority with
  | high | normal =>
    simp [backlog, setNode, heq]
    omega

/-- A worker with a task takes a step towards having none. -/
theorem exists_workerStep (hs : s.Listens) (hlive : s.ctxDone = false) (hwork : s.HasTask) :
    ∃ label next, s.workerStep label = some next ∧ next.backlog < s.backlog := by
  cases hphase : s.worker with
  | draining => exact absurd hphase hs.1
  | exited => exact absurd hphase hs.2
  | executing task =>
    refine ⟨.proceed, _, by rw [workerStep, hphase], ?_⟩
    simp [backlog, setNode, hphase]
  | outer =>
    by_cases hhigh : (s.queues .high).items = []
    · refine ⟨.proceed, { s with worker := .inner }, ?_, ?_⟩
      · simp [workerStep, hphase, hlive, hhigh]
      · simp [backlog, hphase]
    · obtain ⟨next, hnext, hbacklog⟩ := exists_receiveTask hhigh
      exact ⟨.task .high, next, by simp [workerStep, hphase, hnext], hbacklog⟩
  | inner =>
    rcases hwork with htask | ⟨priority, hitems⟩
    · rw [hphase] at htask
      cases htask
    · obtain ⟨next, hnext, hbacklog⟩ := exists_receiveTask hitems
      exact ⟨.task priority, next, by simp [workerStep, hphase, hnext], hbacklog⟩

end PoolShared

/-! ## Workers that wait for each other -/

/-- A set of workers, each with a node that has a blocking send to a node of one of
them. -/
structure WaitCycle {size workers : Nat} (layout : PoolLayout size workers) (Value : Type) where
  members : Fin workers → Prop
  source : Fin workers → Fin size
  target : Fin workers → Fin size
  send : Fin workers → Send Value
  member : ∃ w, members w
  worker_source : ∀ w, members w → layout.worker (source w) = w
  members_target : ∀ w, members w → members (layout.worker (target w))
  blocking : ∀ w, members w → ¬ (send w).kind.Media
  edge : ∀ w, members w → target w ∈ layout.routes (source w) (send w).port (send w).kind

theorem exists_waitCycle {size workers} {layout : PoolLayout size workers}
    (hcyclic : ¬ WaitFor.Acyclic layout.Waits) (Value : Type) [Inhabited Value] :
    Nonempty (WaitCycle layout Value) := by
  obtain ⟨members, ⟨w, hw⟩, hclosed⟩ := WaitFor.exists_closed_of_not_acyclic hcyclic
  have hedge : ∀ w, members w → ∃ i j, ∃ send : Send Value, layout.worker i = w ∧
      members (layout.worker j) ∧ ¬ send.kind.Media ∧
      j ∈ layout.routes i send.port send.kind := by
    intro w hw
    obtain ⟨_, ⟨i, j, port, kind, hi, rfl, hkind, hj⟩, hmember⟩ := hclosed w hw
    exact ⟨i, j, ⟨port, kind, default⟩, hi, hmember, hkind, hj⟩
  have : Nonempty (Fin size) := (hedge w hw).nonempty
  have : Nonempty (Send Value) := ⟨⟨none, .payload, default⟩⟩
  choose! source target send hsource htarget hkind hroute using hedge
  exact ⟨⟨members, source, target, send, ⟨w, hw⟩, hsource, htarget, hkind, hroute⟩⟩

namespace WorkerNetworkShared

variable {s next : WorkerNetworkShared size workers Value} {capacity : Nat}

/-- The sends of a handler only add tasks. -/
theorem Wired.handlerStep_grows (hs : s.Wired layout capacity) {w choice}
    (hstep : s.handlerStep layout w choice = some next) (v : Fin workers) :
    (s.pools v).Grows (next.pools v) := by
  obtain ⟨task, i, phase, after, htask, -, hsteps, rfl⟩ := handlerStep_eq_some hstep
  obtain ⟨-, -, -, -, hinputs⟩ := hs.executes htask
  generalize s.handlers w = before at hsteps hinputs
  cases hsteps with
  | move target _ _ _ _ _ _ hinput | leave target _ _ _ _ _ hinput =>
    obtain ⟨reached, pool, hcall, rfl, -⟩ := inputStep_eq_some hinput
    have hgrows := PoolShared.grows_of_callStep (hinputs _ _ _ _ _ rfl) hcall
    by_cases hv : v = layout.worker target
    · subst hv
      rw [setHandler_pools, setPool_pools_self]
      exact hgrows
    · rw [setHandler_pools, setPool_pools_of_ne _ _ hv]
      exact .refl _
  | _ => exact .refl _

end WorkerNetworkShared

namespace WaitCycle

variable (cycle : WaitCycle layout Value) (capacity : Nat)

/-- The worker's handler repeats its send, and has more to do than the queue of its
target has room for. -/
structure Sending (s : WorkerNetworkShared size workers Value) (w : Fin workers) : Prop where
  task : ∃ task, (s.pools w).worker.task = some task ∧ task.node = cycle.source w
  repeats : (s.handlers w).Repeats (cycle.send w)
  due : capacity < (s.handlers w).due (cycle.target w) +
    ((s.pools (layout.worker (cycle.target w))).queues
      (cycle.send w).kind.priority).items.length

/-- The members send, and the others execute their tasks without sending. -/
structure Filling (c : WorkerNetwork size workers Value) : Prop where
  wired : Wired layout capacity c
  running : c.Running layout
  sending : ∀ w, cycle.members w → cycle.Sending capacity c.shared w
  others : ∀ w, ¬ cycle.members w → c.shared.handlers w = .ready [] ∧
    (c.shared.pools w).Listens ∧ (c.shared.pools w).ctxDone = false

/-- The number of targets of a member's send. -/
def fanout (w : Fin workers) : Nat :=
  (layout.routes (cycle.source w) (cycle.send w).port (cycle.send w).kind).length

/-- The steps that the handlers still have, and the steps of the workers outside them. -/
def remaining (c : WorkerNetwork size workers Value) : Nat × Nat :=
  -- a send adds to the backlog of another worker, so the handlers count first
  (∑ w, (c.shared.handlers w).stepsLeft (cycle.fanout w) PoolCall.inputSteps,
    ∑ w, (c.shared.pools w).backlog)

/-- A step that keeps the invariant and gets closer to the deadlock. -/
def Progresses (c : WorkerNetwork size workers Value) : Prop :=
  ∃ label d, c.step layout label = some d ∧ cycle.Filling capacity d ∧
    Prod.Lex (· < ·) (· < ·) (cycle.remaining d) (cycle.remaining c)

variable {cycle capacity} {next : WorkerNetworkShared size workers Value} {w : Fin workers}

/-- A worker whose handler does not step keeps sending. -/
theorem Sending.frame {s} (hs : cycle.Sending capacity s w)
    (hhandler : next.handlers w = s.handlers w)
    (hworker : (next.pools w).worker = (s.pools w).worker)
    (hqueues : ∀ priority,
      ((s.pools (layout.worker (cycle.target w))).queues priority).items.length ≤
        ((next.pools (layout.worker (cycle.target w))).queues priority).items.length) :
    cycle.Sending capacity next w := by
  refine ⟨by rw [hworker]; exact hs.task, by rw [hhandler]; exact hs.repeats, ?_⟩
  rw [hhandler]
  exact lt_of_lt_of_le hs.due (Nat.add_le_add_left (hqueues _) _)

variable (hc : cycle.Filling capacity c)
include hc

section Member

variable (hw : cycle.members w) {choice : Bool}
  (hstep : c.shared.handlerStep layout w choice = some next)
include hw hstep

/-- A step of a member's handler, at the node that sends. -/
theorem Filling.handlerStep_eq_some : ∃ task silent phase after, ¬ silent ∧
      HandlerPhase.Steps layout.routes (cycle.source w) silent
        (fun target send => .inputCheck target send.kind send.value)
        (c.shared.inputStep layout task choice) c.shared (c.shared.handlers w) phase after ∧
      next = after.setHandler w phase ∧
      ∀ target call send targets rest,
        c.shared.handlers w = .input target call send targets rest →
        call.Inputs task target send := by
  obtain ⟨task, htask, hnode⟩ := (hc.sending w hw).task
  obtain ⟨-, -, -, -, hinputs⟩ := hc.wired.shared.executes htask
  obtain ⟨other, i, phase, after, hother, hi, hsteps, rfl⟩ :=
    WorkerNetworkShared.handlerStep_eq_some hstep
  cases htask.symm.trans hother
  obtain rfl : i = cycle.source w := Fin.ext (hi.trans hnode)
  have hlive := hc.running (cycle.source w)
  rw [cycle.worker_source w hw] at hlive
  exact ⟨task.node, _, phase, after, by simp [hlive.1, hlive.2], hsteps, rfl, hinputs⟩

theorem Filling.stepsLeft_handlerStep :
    (next.handlers w).stepsLeft (cycle.fanout w) PoolCall.inputSteps <
      (c.shared.handlers w).stepsLeft (cycle.fanout w) PoolCall.inputSteps := by
  obtain ⟨task, silent, phase, after, -, hsteps, rfl, hinputs⟩ := hc.handlerStep_eq_some hw hstep
  rw [setHandler_handlers_self]
  refine HandlerPhase.stepsLeft_steps (hc.sending w hw).repeats hsteps rfl
    (fun _ _ => by simp [PoolCall.inputSteps]) ?_ ?_
  · intro target current moved sent targets rest hphase hinput
    obtain ⟨reached, pool, hcall, -, hidle, hreached⟩ :=
      inputStep_eq_some hinput
    have hne : reached ≠ .idle := fun h => by cases hidle h
    cases hreached hne
    exact ((PoolShared.inputs_callStep (hinputs _ _ _ _ _ hphase) hcall).unreturned hne).2
  · intro target current sent targets rest hphase
    rcases hinputs _ _ _ _ _ hphase with rfl | rfl | rfl <;> simp [PoolCall.inputSteps]

/-- What the handler no longer has to send is in the queue of its target. -/
theorem Filling.sending_handlerStep : cycle.Sending capacity next w := by
  have hgrows := hc.wired.shared.handlerStep_grows hstep
  obtain ⟨htask, hrepeats, hdue⟩ := hc.sending w hw
  obtain ⟨task, silent, phase, after, hsilent, hsteps, rfl, hinputs⟩ :=
    hc.handlerStep_eq_some hw hstep
  refine ⟨by rw [(hgrows w).worker]; exact htask, ?_, ?_⟩
  · rw [setHandler_handlers_self]
    exact hrepeats.steps hsteps
  · rw [setHandler_handlers_self]
    have hlength := (hgrows (layout.worker (cycle.target w))).queues (cycle.send w).kind.priority
    rcases HandlerPhase.due_steps hrepeats hsteps hsilent (cycle.edge w hw) with
      hkept | ⟨hkept, current, sent, targets, rest, hphase, hinput⟩
    · omega
    · -- `Input` of the target has returned, so its queue has one more task
      have hinputs := hinputs _ _ _ _ _ hphase
      rw [hphase] at hrepeats
      cases hrepeats sent mem_cons_self
      obtain ⟨reached, pool, hcall, rfl, -, hreached⟩ :=
        inputStep_eq_some hinput
      obtain rfl : reached = .idle := by
        by_contra hne
        cases hreached hne
      obtain ⟨hlive, hrunning⟩ := hc.running (cycle.target w)
      have hplaced := PoolShared.length_items_of_returned hinputs hlive hrunning
        (cycle.blocking w hw) hcall
      rw [setHandler_pools, setPool_pools_self, hplaced]
      omega

/-- A step of a member's handler. -/
theorem Filling.handlerStep : cycle.Progresses capacity c := by
  have hnetwork : c.step layout (.handler w choice) = some { c with shared := next } :=
    Option.map_eq_some_iff.mpr ⟨next, hstep, rfl⟩
  have hgrows := hc.wired.shared.handlerStep_grows hstep
  have hhandlers : ∀ v, v ≠ w → next.handlers v = c.shared.handlers v :=
    fun v => WorkerNetworkShared.handlerStep_handlers_of_ne hstep
  refine ⟨_, _, hnetwork, ?_, ?_⟩
  · refine ⟨step_wired hc.wired hnetwork, fun i => ?_, fun v hv => ?_, fun v hv => ?_⟩
    · have hi := hgrows (layout.worker i)
      rw [hi.ctxDone, hi.nodes]
      exact hc.running i
    · by_cases hvw : v = w
      · subst hvw
        exact hc.sending_handlerStep hw hstep
      · exact (hc.sending v hv).frame (hhandlers v hvw) (hgrows v).worker (hgrows _).queues
    · have hvw : v ≠ w := fun h => hv (h ▸ hw)
      rw [hhandlers v hvw, PoolShared.Listens, (hgrows v).worker, (hgrows v).ctxDone]
      exact hc.others v hv
  · refine Prod.Lex.left _ _ (Finset.sum_lt_sum (fun v _ => ?_) ⟨w, Finset.mem_univ w, ?_⟩)
    · by_cases hvw : v = w
      · subst hvw
        exact (hc.stepsLeft_handlerStep hw hstep).le
      · rw [hhandlers v hvw]
    · exact hc.stepsLeft_handlerStep hw hstep

end Member

/-- A step of another worker towards having no task. -/
theorem Filling.exists_workerStep (hw : ¬ cycle.members w) (hwork : (c.shared.pools w).HasTask) :
    cycle.Progresses capacity c := by
  obtain ⟨hready, hlistens, hlive⟩ := hc.others w hw
  obtain ⟨label, pool, hpool, hbacklog⟩ := PoolShared.exists_workerStep hlistens hlive hwork
  have hworks := PoolShared.works_of_workerStep hpool
  let next := (c.shared.setPool w pool).setHandler w (.ready [])
  have hnetwork : c.step layout (.worker w label []) = some { c with shared := next } := by
    simp [step, workerStep, hready, hpool, next]
  have hhandlers : next.handlers = c.shared.handlers := by
    have hsame := update_eq_self w c.shared.handlers
    rwa [hready] at hsame
  have hself : next.pools w = pool := setPool_pools_self _ _
  have hpools : ∀ v, v ≠ w → next.pools v = c.shared.pools v :=
    fun v => setPool_pools_of_ne _ _
  refine ⟨_, _, hnetwork, ?_, ?_⟩
  · refine ⟨step_wired hc.wired hnetwork, fun i => ?_, fun v hv => ?_, fun v hv => ?_⟩
    · by_cases hi : layout.worker i = w
      · have hrunning := hc.running i
        rw [hi] at hrunning ⊢
        rw [hself, hworks.ctxDone, (hworks.nodes i).2.1]
        exact hrunning
      · rw [hpools _ hi]
        exact hc.running i
    · have hvw : v ≠ w := fun h => hw (h ▸ hv)
      have htarget : layout.worker (cycle.target v) ≠ w :=
        fun h => hw (h ▸ cycle.members_target v hv)
      refine (hc.sending v hv).frame (congrFun hhandlers v) ?_ fun priority => ?_
      · rw [hpools v hvw]
      · rw [hpools _ htarget]
    · by_cases hvw : v = w
      · subst hvw
        rw [hhandlers, hself, hworks.ctxDone]
        exact ⟨hready, hlistens.works hlive hworks, hlive⟩
      · rw [hhandlers, hpools v hvw]
        exact hc.others v hv
  · rw [remaining, remaining, hhandlers]
    refine Prod.Lex.right _ (Finset.sum_lt_sum (fun v _ => ?_) ⟨w, Finset.mem_univ w, ?_⟩)
    · by_cases hvw : v = w
      · subst hvw
        rw [hself]
        exact hbacklog.le
      · rw [hpools v hvw]
    · rw [hself]
      exact hbacklog

/-- A member that cannot step is in a send to a full queue. -/
theorem Filling.stuck_or_progresses (hw : cycle.members w) :
    cycle.Progresses capacity c ∨ ∃ target task send targets rest,
      c.shared.handlers w = .input target (.submitSelect task) send targets rest ∧
      ¬ send.kind.Media ∧ ¬ task.Media ∧
      (c.shared.pools (layout.worker target)).Full task.priority := by
  obtain ⟨⟨task, htask, -⟩, hrepeats, hdue⟩ := hc.sending w hw
  obtain ⟨-, -, -, -, hinputs⟩ := hc.wired.shared.executes htask
  have hdone : ¬ (c.shared.handlers w).Done := by
    -- all that was due would be in a queue that has no room for it
    intro hdone
    have hbounded := ((c.shared.pools (layout.worker (cycle.target w))).queues
      (cycle.send w).kind.priority).channel.bounded
    rw [(hc.wired.shared.pools _).capacity] at hbounded
    rw [hdone] at hdue
    exact absurd (lt_of_lt_of_le hdue (le_of_eq (zero_add _))) (not_lt.mpr hbounded)
  have hstep : ∀ choice, (∀ target call send targets rest,
      c.shared.handlers w = .input target call send targets rest →
      ∃ moved, c.shared.inputStep layout task.node choice target call = some moved) →
      cycle.Progresses capacity c := by
    intro choice hinput
    obtain ⟨next, hnext⟩ := hc.wired.shared.exists_handlerStep choice htask hdone hinput
    exact hc.handlerStep hw hnext
  cases hphase : c.shared.handlers w with
  | ready | routing =>
    exact .inl (hstep true fun _ _ _ _ _ h => by rw [hphase] at h; cases h)
  | input target call send targets rest =>
    have hinputs := hinputs _ _ _ _ _ hphase
    rcases PoolShared.exists_callStep_of_inputs (s := c.shared.pools (layout.worker target))
      hinputs with ⟨choice, moved, hmoved⟩ | ⟨rfl, hfull⟩
    · refine .inl (hstep choice fun _ _ _ _ _ h => ?_)
      cases hphase.symm.trans h
      exact ⟨_, by rw [WorkerNetworkShared.inputStep, hmoved]; rfl⟩
    · rw [hphase] at hrepeats
      have hkind := cycle.blocking w hw
      rw [← hrepeats send mem_cons_self] at hkind
      exact .inr ⟨target, _, send, targets, rest, rfl, hkind, hkind, hfull⟩

theorem Filling.deadlocked_or_progresses (hpositive : 0 < capacity) :
    c.Deadlocked layout ∨ cycle.Progresses capacity c := by
  by_cases hprogress : cycle.Progresses capacity c
  · exact .inr hprogress
  · have hothers : ∀ w, (c.shared.pools w).HasTask → cycle.members w := by
      intro w hwork
      by_contra hw
      exact hprogress (hc.exists_workerStep hw hwork)
    refine .inl (deadlocked_of_stuck (fun w hw => ?_) cycle.member
      (fun w priority => by rw [(hc.wired.shared.pools w).capacity]; exact hpositive) hothers)
    obtain ⟨target, task, send, targets, rest, hphase, hkind, hmedia, hfull⟩ :=
      (hc.stuck_or_progresses hw).resolve_left hprogress
    refine ⟨target, task, send, targets, rest, hphase, hkind, hmedia, hothers _ ?_, hfull,
      (hc.running target).1⟩
    refine .inr ⟨task.priority, fun hempty => ?_⟩
    rw [PoolShared.Full, hempty, (hc.wired.shared.pools _).capacity] at hfull
    exact ne_of_lt hpositive hfull

theorem Filling.exists_deadlock (hpositive : 0 < capacity) :
    ∃ labels final, run (step layout) c labels = some final ∧
      final.Running layout ∧ final.Deadlocked layout := by
  obtain ⟨labels, final, hrun, hfinal, hdeadlock⟩ := exists_run_of_progress
    (WellFounded.prod_lex Nat.lt_wfRel.wf Nat.lt_wfRel.wf) cycle.remaining
    (fun _ hd => hd.deadlocked_or_progresses hpositive) hc
  exact ⟨labels, final, hrun, hfinal.running, hdeadlock⟩

end WaitCycle

/-! ## The start of the run -/

namespace PoolShared

variable {s : PoolShared Value}

/-- The worker has had no task. -/
structure Unused (s : PoolShared Value) : Prop where
  live : s.ctxDone = false
  worker : s.worker = .outer
  queues : ∀ priority, (s.queues priority).items = []

/-- A first task is placed and received. -/
theorem Unused.exists_receive (hs : s.Unused) {task} (htask : task.priority = .high)
    (hroom : 0 < (s.queues .high).channel.capacity) (producer : Nat) :
    ∃ placed next, s.callStep producer true (.submitSelect task) = some (.idle, placed) ∧
      placed.workerStep (.task .high) = some next ∧
      next.worker = .executing task ∧ next.ctxDone = false ∧
      ∀ i, (next.nodes i).running = (s.nodes i).running := by
  cases hsend : (s.queues .high).send? task with
  | none =>
    have hfull := length_items_of_send?_eq_none hsend
    rw [hs.queues] at hfull
    exact absurd hfull (ne_of_lt hroom)
  | some mailbox =>
    obtain ⟨-, -, -, -, hitems⟩ := send?_eq_some hsend
    rw [hs.queues, nil_append] at hitems
    obtain ⟨first, rest, hreceive⟩ := exists_receive? (m := mailbox) (by simp [hitems])
    obtain ⟨-, -, -, -, hfirst⟩ := receive?_eq_some hreceive
    obtain ⟨rfl, -⟩ := cons.inj (hitems.symm.trans hfirst)
    refine ⟨{ s with queues := update s.queues .high mailbox }, { s with
        queues := update s.queues .high rest
        worker := .executing task }.setNode task.node
          ((s.nodes task.node).observe (.enter task.callback)), ?_, ?_, rfl, hs.live, fun i => ?_⟩
    · simp [callStep, htask, hsend]
    · simp [workerStep, hs.worker, receiveTask, hreceive]
    · by_cases hi : i = task.node
      · subst hi
        simp [setNode, PoolNode.observe, BaseNode.observe]
      · simp [setNode, hi]

end PoolShared

namespace WorkerNetwork

variable {capacity : Nat}

/-- These nodes have been started, and nothing else happened. -/
structure Starting (layout : PoolLayout size workers) (capacity : Nat)
    (started : List (Fin size)) (c : WorkerNetwork size workers Value) : Prop where
  wired : Wired layout capacity c
  users : c.phases = []
  unused : ∀ w, (c.shared.pools w).Unused ∧ c.shared.handlers w = .ready []
  running : ∀ i ∈ started, ((c.shared.pools (layout.worker i)).nodes i).running = true
  fresh : ∀ i, i ∉ started → ((c.shared.pools (layout.worker i)).nodes i).start = .notCalled

theorem initial_starting (layout : PoolLayout size workers) (queueSize : Int) (Value : Type) :
    Starting layout (WorkerPool.queueCapacity queueSize) []
      (initial queueSize : WorkerNetwork size workers Value) :=
  ⟨initial_wired layout queueSize, rfl, fun _ => ⟨⟨rfl, rfl, fun _ => rfl⟩, rfl⟩, nofun,
    fun _ _ => rfl⟩

theorem run_start {i} (hfresh : ((c.shared.pools (layout.worker i)).nodes i).start = .notCalled) :
    ∃ n : PoolNode, n.running = true ∧
      run (step layout) c (replicate 3 (.start i true)) =
        some { c with
          shared := c.shared.setPool (layout.worker i)
            ((c.shared.pools (layout.worker i)).setNode i n) } := by
  refine ⟨{ (c.shared.pools (layout.worker i)).nodes i with
    start := .returned
    running := true
    trace := ((c.shared.pools (layout.worker i)).nodes i).trace ++
      [.enter .onStart] ++ [.leave .onStart] }, rfl, ?_⟩
  simp [replicate, run, step, BaseNode.startStep, BaseNode.observe, hfresh,
    WorkerNetworkShared.setPool, PoolShared.setNode, update_idem]

theorem Starting.exists_run (i : Fin size) {started} (hc : Starting layout capacity started c) :
    ∃ labels d, run (step layout) c labels = some d ∧
      Starting layout capacity (i :: started) d := by
  by_cases hi : i ∈ started
  · refine ⟨[], c, rfl, hc.wired, hc.users, hc.unused, fun j hj => ?_, fun j hj => ?_⟩
    · rcases mem_cons.mp hj with rfl | hj
      · exact hc.running j hi
      · exact hc.running j hj
    · exact hc.fresh j fun h => hj (mem_cons_of_mem _ h)
  · obtain ⟨n, hn, hrun⟩ := run_start (hc.fresh i hi)
    have hother : ∀ j, j ≠ i → ((c.shared.setPool (layout.worker i)
        ((c.shared.pools (layout.worker i)).setNode i n)).pools (layout.worker j)).nodes j =
          (c.shared.pools (layout.worker j)).nodes j := by
      intro j hj
      by_cases hworker : layout.worker j = layout.worker i
      · rw [hworker, setPool_pools_self]
        exact update_of_ne (fun h => hj (Fin.ext h)) _ _
      · rw [setPool_pools_of_ne _ _ hworker]
    refine ⟨_, _, hrun, run_wired hc.wired hrun, hc.users, fun w => ?_, fun j hj => ?_,
      fun j hj => ?_⟩
    · refine ⟨?_, (hc.unused w).2⟩
      by_cases hw : w = layout.worker i
      · subst hw
        rw [setPool_pools_self]
        exact ⟨(hc.unused _).1.live, (hc.unused _).1.worker, (hc.unused _).1.queues⟩
      · rw [setPool_pools_of_ne _ _ hw]
        exact (hc.unused w).1
    · by_cases hji : j = i
      · subst hji
        rw [setPool_pools_self, PoolShared.setNode_nodes_self]
        exact hn
      · rw [hother j hji]
        exact hc.running j ((mem_cons.mp hj).resolve_left hji)
    · rw [hother j fun h => hj (h ▸ mem_cons_self)]
      exact hc.fresh j fun h => hj (mem_cons_of_mem _ h)

/-- The only goroutine that is no worker calls `Input` of a running node. -/
theorem run_input {w i kind value pool} (huser : ∃ v, c.phases = [⟨v, .idle⟩])
    (hw : layout.worker i = w) (hlive : (c.shared.pools w).ctxDone = false)
    (hrunning : ((c.shared.pools w).nodes i).running = true)
    (hsubmit : (c.shared.pools w).callStep size true (.submitSelect (.event i kind ⟨size, value⟩)) =
      some (.idle, pool)) :
    run (step layout) c
        [.request 0 i (.input kind value), .call 0 true, .call 0 true, .call 0 true] =
      some ⟨c.shared.setPool w pool, [⟨w, .idle⟩]⟩ := by
  obtain ⟨v, huser⟩ := huser
  have hcheck : (c.shared.pools w).callStep size true (.inputCheck i kind value) =
      some (.submitErr (.event i kind ⟨size, value⟩), c.shared.pools w) := by
    simp [PoolShared.callStep, hlive, hrunning]
  have herr : (c.shared.pools w).callStep size true (.submitErr (.event i kind ⟨size, value⟩)) =
      some (.submitSelect (.event i kind ⟨size, value⟩), c.shared.pools w) := by
    simp [PoolShared.callStep, hlive]
  simp [run, step, advance, Config.update, NodeRequest.poolCall,
    PoolRequest.call, huser, hw, hcheck, herr, hsubmit]

end WorkerNetwork

namespace WaitCycle

variable (cycle : WaitCycle layout Value) (capacity : Nat)

/-- The members among these workers are at the start of their handlers, and one more
goroutine has called `Input`. -/
structure Entered (entered : List (Fin workers)) (c : WorkerNetwork size workers Value) :
    Prop where
  wired : Wired layout capacity c
  running : c.Running layout
  user : ∃ v, c.phases = [⟨v, .idle⟩]
  executing : ∀ w ∈ entered, cycle.members w →
    (∃ task, (c.shared.pools w).worker.task = some task ∧ task.node = cycle.source w) ∧
    c.shared.handlers w = .ready (replicate (capacity + 1) (cycle.send w))
  unused : ∀ w, (w ∈ entered → ¬ cycle.members w) →
    (c.shared.pools w).Unused ∧ c.shared.handlers w = .ready []

variable {cycle capacity}

theorem Entered.filling (hc : cycle.Entered capacity (finRange workers) c) :
    cycle.Filling capacity c := by
  refine ⟨hc.wired, hc.running, fun w hw => ?_, fun w hw => ?_⟩
  · obtain ⟨htask, hready⟩ := hc.executing w (mem_finRange w) hw
    refine ⟨htask, ?_, ?_⟩
    · rw [hready]
      exact fun _ => eq_of_mem_replicate
    · rw [hready, HandlerPhase.due, length_replicate]
      omega
  · obtain ⟨hunused, hready⟩ := hc.unused w fun _ => hw
    refine ⟨hready, ?_, hunused.live⟩
    simp [PoolShared.Listens, hunused.worker]

/-- The goroutine sends a signal to the member's node, and the worker receives it. -/
theorem Entered.run_enter {w entered} (hc : cycle.Entered capacity entered c)
    (hpositive : 0 < capacity) (hw : cycle.members w) (hunused : (c.shared.pools w).Unused)
    (hready : c.shared.handlers w = .ready []) :
    ∃ labels, ∃ task : Task Value, ∃ pool,
      run (step layout) c labels = some
        { shared := (c.shared.setPool w pool).setHandler w
            (.ready (replicate (capacity + 1) (cycle.send w)))
          phases := [⟨w, .idle⟩] } ∧
      task.node = cycle.source w ∧ pool.worker = .executing task ∧ pool.ctxDone = false ∧
      ∀ i, (pool.nodes i).running = ((c.shared.pools w).nodes i).running := by
  have hsource := cycle.worker_source w hw
  have hrunning := (hc.running (cycle.source w)).2
  rw [hsource] at hrunning
  obtain ⟨placed, pool, hsubmit, hreceive, hexecuting, hlive, hnodes⟩ := hunused.exists_receive
    (show (Task.event (cycle.source w) .signal ⟨size, (cycle.send w).value⟩).priority = .high
      from rfl) (by rw [(hc.wired.shared.pools w).capacity]; exact hpositive) size
  have hinput := run_input hc.user hsource hunused.live hrunning hsubmit
  have hreceived : run (step layout)
      ⟨c.shared.setPool w placed, [⟨w, .idle⟩]⟩
      [.worker w (.task .high) (replicate (capacity + 1) (cycle.send w))] = some
        { shared := (c.shared.setPool w pool).setHandler w
            (.ready (replicate (capacity + 1) (cycle.send w)))
          phases := [⟨w, .idle⟩] } := by
    simp [run, step, workerStep, hready, hreceive, hexecuting, WorkerPhase.task]
  exact ⟨_, _, pool, run_append_eq_some hinput hreceived, rfl, hexecuting, hlive, hnodes⟩

theorem Entered.exists_run (hpositive : 0 < capacity) (w : Fin workers) {entered}
    (hc : cycle.Entered capacity entered c) :
    ∃ labels d, run (step layout) c labels = some d ∧
      cycle.Entered capacity (w :: entered) d := by
  by_cases hold : w ∈ entered ∨ ¬ cycle.members w
  · refine ⟨[], c, rfl, hc.wired, hc.running, hc.user, fun v hv hmember => ?_, fun v hv => ?_⟩
    · rcases mem_cons.mp hv with rfl | hv
      · exact hc.executing v (hold.resolve_right fun h => h hmember) hmember
      · exact hc.executing v hv hmember
    · exact hc.unused v fun h => hv (mem_cons_of_mem _ h)
  · obtain ⟨hnew, hw⟩ := not_or.mp hold
    have hw := not_not.mp hw
    obtain ⟨hunused, hready⟩ := hc.unused w fun h => absurd h hnew
    obtain ⟨labels, task, pool, hrun, hnode, hexecuting, hlive, hnodes⟩ :=
      hc.run_enter hpositive hw hunused hready
    refine ⟨labels, _, hrun, run_wired hc.wired hrun, fun i => ?_, ⟨w, rfl⟩,
      fun v hv hmember => ?_, fun v hv => ?_⟩
    · rw [setHandler_pools]
      by_cases hi : layout.worker i = w
      · have hrunning := hc.running i
        rw [hi] at hrunning ⊢
        rw [setPool_pools_self, hnodes]
        exact ⟨hlive, hrunning.2⟩
      · rw [setPool_pools_of_ne _ _ hi]
        exact hc.running i
    · rw [setHandler_pools]
      by_cases hvw : v = w
      · subst hvw
        rw [setPool_pools_self, setHandler_handlers_self, hexecuting]
        exact ⟨⟨task, rfl, hnode⟩, rfl⟩
      · rw [setPool_pools_of_ne _ _ hvw, setHandler_handlers_of_ne _ _ hvw]
        exact hc.executing v ((mem_cons.mp hv).resolve_left hvw) hmember
    · have hvw : v ≠ w := fun h => hv (h ▸ mem_cons_self) (h ▸ hw)
      rw [setHandler_pools, setPool_pools_of_ne _ _ hvw, setHandler_handlers_of_ne _ _ hvw]
      exact hc.unused v fun h => hv (mem_cons_of_mem _ h)

/-- Once all nodes are started, a goroutine appears that can call `Input`. -/
theorem entered_of_starting (cycle : WaitCycle layout Value)
    (hc : Starting layout capacity (finRange size) c) (w : Fin workers) :
    cycle.Entered capacity [] (c.spawn ⟨w, .idle⟩) := by
  have hspawn : c.step layout (.spawn w) = some (c.spawn ⟨w, .idle⟩) := rfl
  refine ⟨step_wired hc.wired hspawn, fun i => ?_, ⟨w, ?_⟩, nofun, fun v _ => ?_⟩
  · exact ⟨(hc.unused _).1.live, hc.running i (mem_finRange i)⟩
  · rw [spawn, hc.users]
    rfl
  · exact hc.unused v

/-- A cycle of workers makes a deadlock reachable. -/
theorem not_deadlockFree (cycle : WaitCycle layout Value) (queueSize : Int) :
    ¬ DeadlockFree layout queueSize Value := by
  intro hfree
  have hpositive := queueCapacity_pos queueSize
  obtain ⟨w, -⟩ := cycle.member
  obtain ⟨starts, started, hstarts, hstarted⟩ := exists_run_of_each
    (fun i _ _ hc => hc.exists_run i)
    (initial_starting layout queueSize Value) (finRange size)
  obtain ⟨enters, entered, henters, hentered⟩ := exists_run_of_each
    (fun v _ _ hc => hc.exists_run hpositive v)
    (cycle.entered_of_starting hstarted w) (finRange workers)
  obtain ⟨sends, final, hsends, hrunning, hdeadlock⟩ :=
    hentered.filling.exists_deadlock hpositive
  have hspawn : run (step layout) started [.spawn w] =
      some (started.spawn ⟨w, .idle⟩) := rfl
  have hrun := run_append_eq_some hstarts (run_append_eq_some hspawn
    (run_append_eq_some henters hsends))
  exact hfree _ final hrun hrunning hdeadlock

end WaitCycle

namespace WorkerNetwork

/-- A pool is free of deadlocks if and only if no workers wait for each other in a
cycle. -/
theorem deadlockFree_iff {size workers : Nat} (layout : PoolLayout size workers)
    (queueSize : Int) (Value : Type) [Inhabited Value] :
    DeadlockFree layout queueSize Value ↔ WaitFor.Acyclic layout.Waits := by
  refine ⟨fun hfree => ?_, fun hacyclic => deadlockFree_of_acyclic hacyclic queueSize⟩
  by_contra hcyclic
  obtain ⟨cycle⟩ := exists_waitCycle hcyclic Value
  exact cycle.not_deadlockFree queueSize hfree

/-- Two nodes on one worker, with payloads from the first to the second. -/
def sharedWorker : PoolLayout 2 1 where
  routes i _ kind := if i.val = 0 ∧ kind = .payload then [⟨1, Nat.one_lt_two⟩] else []
  worker _ := ⟨0, Nat.one_pos⟩

/-- A goroutine sends a payload to node `i` on worker `w`, and the node's handler sends
two payloads on. -/
def selfSendLabels (i j : Fin 2) (w : Fin 1) : List (Label 2 1 Unit) :=
  replicate 3 (Label.start i true) ++ replicate 3 (Label.start j true) ++
    [Label.spawn w, .request 0 i (.input .payload ())] ++ replicate 3 (Label.call 0 true) ++
    [Label.worker w .proceed [],
      .worker w (.task .normal) (replicate 2 ⟨none, .payload, ()⟩)] ++
    replicate 10 (Label.handler w true)

theorem sharedWorker_acyclic : WaitFor.Acyclic sharedWorker.routes.Edge := by
  refine WaitFor.acyclic_of_rank Fin.val ?_
  rintro i j ⟨port, kind, hmem⟩
  simp only [sharedWorker] at hmem
  split at hmem
  next hfirst =>
    rw [hfirst.1, mem_singleton.mp hmem]
    exact Nat.one_pos
  · cases hmem

theorem sharedWorker_deadlocked :
    WaitFor.Acyclic sharedWorker.routes.Edge ∧ ∃ final,
      run (step sharedWorker) (initial 1) (selfSendLabels 0 1 0) = some final ∧
        final.Running sharedWorker ∧ final.Deadlocked sharedWorker := by
  obtain ⟨final, hrun, hphase, hlive, hlength, hhigh, hnormal, hrunning⟩ := exists_of_decide
    (run (step sharedWorker) (initial 1) (selfSendLabels 0 1 0))
    (fun final => final.shared.handlers 0 = .input 1 (.submitSelect (.event 1 .payload ⟨0, ()⟩))
        ⟨none, .payload, ()⟩ [] [] ∧
      (final.shared.pools 0).ctxDone = false ∧
      ((final.shared.pools 0).queues .normal).items.length = 1 ∧
      ((final.shared.pools 0).queues .high).channel.capacity = 1 ∧
      ((final.shared.pools 0).queues .normal).channel.capacity = 1 ∧
      ∀ i : Fin 2, ((final.shared.pools 0).nodes i).running = true) (by decide +kernel)
  refine ⟨sharedWorker_acyclic, final, hrun, fun i => ⟨hlive, hrunning i⟩, ?_⟩
  have hstuck : final.shared.Stuck sharedWorker fun _ => True := by
    intro w _
    obtain rfl : w = 0 := Subsingleton.elim _ _
    exact ⟨_, _, _, _, _, hphase, by decide, by decide, trivial, hlength.trans hnormal.symm, hlive⟩
  refine deadlocked_of_stuck hstuck ⟨0, trivial⟩ (fun w priority => ?_) fun _ _ => trivial
  obtain rfl : w = 0 := Subsingleton.elim _ _
  cases priority with
  | high => rw [hhigh]; exact Nat.one_pos
  | normal => rw [hnormal]; exact Nat.one_pos

end WorkerNetwork

end Voce.Engine
