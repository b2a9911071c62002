import Voce.Engine.WorkerDelivery
import Voce.Engine.WorkerLifecycle

/-! # Shutting down the nodes of a worker

`Stop` calls `OnStop` on its caller's goroutine, and a worker executes what is in
its queues without looking at the running flag again. A plugin is stopped in
peace only if `OnStop` begins when its worker has left, or when neither the
worker nor its queues nor a goroutine in the middle of a submission has a task
of the node.
-/

namespace Voce.Engine

open Interleaving PoolNode Transition Function List Option Mailbox
open Observation (withoutReady)

variable {Value : Type}

/-- An event or a control. -/
def Callback.IsTask : Callback → Prop
  | .onEvent _ | .onPause | .onResume => True
  | .onStart | .onReady | .onStop => False

/-- `OnStop` begins when no event or control callback runs, and no such callback
begins once it has begun. -/
structure Observation.StopsAlone (trace : List Observation) : Prop where
  overlap : ∀ before after, trace = before ++ .enter .onStop :: after →
    ∀ callback ∈ running before, ¬ callback.IsTask
  late : ∀ before callback after, trace = before ++ .enter callback :: after →
    callback.IsTask → .enter .onStop ∉ before

theorem Observation.Serial.stopsAlone {trace} (hserial : Serial trace) : StopsAlone trace where
  overlap before after heq callback hrunning := by
    rw [hserial.alone before .onStop after heq] at hrunning
    cases hrunning
  late before callback after heq _ := hserial.unstopped before callback after heq

theorem Task.callback_isTask (task : Task Value) : task.callback.IsTask := by
  cases task with
  | event => trivial
  | control _ type => cases type <;> trivial

namespace PoolNode

/-- Where the plugin is in its protocol, given the callback its worker runs. -/
@[simp]
def plugin (n : PoolNode) (busy : Option Callback) : PluginPhase :=
  match n.start with
  | .notCalled => .fresh
  | .onStart => .starting
  | .failed => .failed
  | .storeRunning | .goLoop => .idle
  | .returned =>
    match n.stop, busy with
    | .running, _ => .stopping
    | .returned, _ => .stopped
    | .notCalled, some callback => .busy callback
    | .notCalled, none => .idle

theorem observe_plugin (n : PoolNode) (observation : Observation) (busy : Option Callback) :
    (n.observe observation).plugin busy = n.plugin busy :=
  rfl

theorem plugin_live {n : PoolNode} (hstart : n.start = .returned) (hstop : n.stop = .notCalled)
    (busy : Option Callback) : n.plugin busy = busy.elim .idle .busy := by
  cases busy <;> simp [hstart, hstop]

end PoolNode

theorem Callback.IsTask.not_lifecycle {callback : Callback} (htask : callback.IsTask) :
    callback ≠ .onStart ∧ callback ≠ .onReady ∧ callback ≠ .onStop := by
  refine ⟨?_, ?_, ?_⟩ <;> rintro rfl <;> exact htask

theorem Callback.IsTask.observe_enter {callback} (htask : callback.IsTask) :
    PluginPhase.observe .idle (.enter callback) = some (.busy callback) := by
  cases callback with
  | onStart | onReady | onStop => exact absurd htask id
  | _ => rfl

def WorkerPhase.task : WorkerPhase Value → Option (Task Value)
  | .executing task => some task
  | .outer | .inner | .draining | .exited => none

namespace PoolShared

variable (s : PoolShared Value)

def busy (i : Nat) : Option Callback :=
  (s.worker.task.filter fun task => task.node = i).map Task.callback

/-- The worker may still take a task from the queue. Once the context is cancelled
it takes none from the normal queue unless it is in the inner select already. -/
def Serves (priority : Priority) : Prop :=
  ¬ s.Wound ∧ (priority = .normal → s.ctxDone = false ∨ s.worker = .inner)

/-- The worker executes the task or may still take it from its queue. -/
def MayExecute (task : Task Value) : Prop :=
  s.worker.task = some task ∨ ∃ priority, s.Serves priority ∧ task ∈ (s.queues priority).items

/-- No task of the node is under way. -/
def Clear (i : Nat) : Prop := ∀ task, s.MayExecute task → task.node ≠ i

theorem clear_iff {s : PoolShared Value} {i} : s.Clear i ↔
    (∀ task ∈ s.worker.task, task.node ≠ i) ∧
      (s.Serves .high → ∀ task ∈ (s.queues .high).items, task.node ≠ i) ∧
      (s.Serves .normal → ∀ task ∈ (s.queues .normal).items, task.node ≠ i) := by
  constructor
  · intro hclear
    exact ⟨fun task htask => hclear task (.inl htask),
      fun hserves task htask => hclear task (.inr ⟨.high, hserves, htask⟩),
      fun hserves task htask => hclear task (.inr ⟨.normal, hserves, htask⟩)⟩
  · rintro ⟨hworker, hhigh, hnormal⟩ task (htask | ⟨priority, hserves, htask⟩)
    · exact hworker task htask
    · cases priority with
      | high => exact hhigh hserves task htask
      | normal => exact hnormal hserves task htask

section Decidable

variable [DecidableEq Value]

instance (s : PoolShared Value) (priority : Priority) : Decidable (s.Serves priority) :=
  inferInstanceAs (Decidable (¬ (s.worker = .draining ∨ s.worker = .exited) ∧
    (priority = .normal → s.ctxDone = false ∨ s.worker = .inner)))

instance (s : PoolShared Value) (i : Nat) : Decidable (s.Clear i) := decidable_of_iff' _ clear_iff

end Decidable

/-- The callbacks of the node other than `OnReady`. -/
def StopsAlone (s : PoolShared Value) (i : Nat) : Prop :=
  Observation.StopsAlone (withoutReady (s.nodes i).trace)

end PoolShared

namespace PoolCall

/-- The goroutine is about to submit a task of the node. -/
def Submits (call : PoolCall Value) (i : Nat) : Prop :=
  match call with
  | .submitErr task | .submitSelect task => task.node = i
  | _ => False

/-- The goroutine may still place a task of the node that the worker would take. -/
def Threatens (call : PoolCall Value) (s : PoolShared Value) (i : Nat) : Prop :=
  match call with
  | .submitErr task => task.node = i ∧ s.ctxDone = false
  | .submitSelect task => task.node = i ∧ s.Serves task.priority
  | _ => False

instance [DecidableEq Value] (s : PoolShared Value) (i : Nat) :
    ∀ call : PoolCall Value, Decidable (call.Threatens s i) := by
  intro call
  unfold Threatens
  split <;> infer_instance

end PoolCall

namespace WorkerPool

variable (c : WorkerPool Value)

/-- Nothing of the node is under way, with the worker or with a goroutine. -/
def Settled (i : Nat) : Prop :=
  c.shared.Clear i ∧ ∀ call ∈ c.phases, ¬ call.Threatens c.shared i

/-- If this call is about to begin `OnStop`, nothing of the node is under way. -/
def SettledFor : PoolCall Value → Prop
  | .stopCall node => c.Settled node
  | _ => True

/-- `OnStop` begins only when nothing of the node is under way. -/
def StopsSettled : Label Value → Prop
  | .call i _ => ∀ call ∈ c.phases[i]?, c.SettledFor call
  | _ => True

section Decidable

variable [DecidableEq Value]

instance (c : WorkerPool Value) (i : Nat) : Decidable (c.Settled i) :=
  inferInstanceAs (Decidable (_ ∧ _))

instance (c : WorkerPool Value) : ∀ call, Decidable (c.SettledFor call) := by
  intro call
  unfold SettledFor
  split <;> infer_instance

instance (c : WorkerPool Value) : ∀ label, Decidable (c.StopsSettled label) := by
  intro label
  unfold StopsSettled
  split <;> infer_instance

end Decidable

end WorkerPool

namespace PoolShared

/-- What holds between any two steps of a run whose stops are settled. -/
structure Sound (s : PoolShared Value) : Prop where
  follows : ∀ i, PluginPhase.Follows (withoutReady (s.nodes i).trace)
    ((s.nodes i).plugin (s.busy i))
  clear : ∀ i, (s.nodes i).stop ≠ .notCalled → s.Clear i
  started : ∀ task, s.MayExecute task → (s.nodes task.node).start = .returned

/-- What a goroutine knows of the node it submits a task to. -/
structure Knows (call : PoolCall Value) (s : PoolShared Value) : Prop where
  submits : ∀ i, call.Submits i → (s.nodes i).start = .returned
  harmless : ∀ i, (s.nodes i).stop ≠ .notCalled → ¬ call.Threatens s i

variable {s next : PoolShared Value} {sends : Bool}

theorem busy_idle (htask : s.worker.task = none) (i : Nat) : s.busy i = none := by
  rw [busy, htask]
  rfl

variable {task : Task Value}

theorem busy_self (htask : s.worker.task = some task) : s.busy task.node = some task.callback := by
  simp [busy, htask]

variable {i : Nat}

theorem busy_of_ne (htask : s.worker.task = some task) (hi : i ≠ task.node) : s.busy i = none := by
  simp [busy, htask, hi.symm]

theorem Clear.busy (hclear : s.Clear i) : s.busy i = none := by
  rw [PoolShared.busy, map_eq_none_iff, filter_eq_none_iff]
  intro task htask
  simpa using hclear task (.inl htask)

/-- A step on one node that adds no task. -/
theorem Sound.move (hs : s.Sound) (i : Nat) {n} (hnodes : next.nodes = update s.nodes i n)
    (hexecute : ∀ task, next.MayExecute task → s.MayExecute task)
    (hbusy : ∀ j, j ≠ i → next.busy j = s.busy j)
    (hfollows : PluginPhase.Follows (withoutReady n.trace) (n.plugin (next.busy i)))
    (hclear : n.stop ≠ .notCalled → s.Clear i)
    (hstarted : (s.nodes i).start = .returned → n.start = .returned) : next.Sound := by
  have hstays : ∀ j, s.Clear j → next.Clear j :=
    fun j hclear task htask => hclear task (hexecute task htask)
  refine ⟨fun j => ?_, fun j => ?_, fun task htask => ?_⟩
  · by_cases hj : j = i
    · subst hj
      rw [hnodes, update_self]
      exact hfollows
    · rw [hnodes, update_of_ne hj, hbusy j hj]
      exact hs.follows j
  · by_cases hj : j = i
    · subst hj
      rw [hnodes, update_self]
      exact fun h => hstays j (hclear h)
    · rw [hnodes, update_of_ne hj]
      exact fun h => hstays j (hs.clear j h)
  · have hbefore := hs.started task (hexecute task htask)
    by_cases hj : task.node = i
    · subst hj
      rw [hnodes, update_self]
      exact hstarted hbefore
    · rw [hnodes, update_of_ne hj]
      exact hbefore

/-- A step that leaves the nodes and what the worker executes alone. -/
theorem Sound.frame (hs : s.Sound) (hnodes : next.nodes = s.nodes)
    (htask : next.worker.task = s.worker.task)
    (hexecute : ∀ task, next.MayExecute task → s.MayExecute task) : next.Sound := by
  have hbusy : ∀ j, next.busy j = s.busy j := by
    intro j
    rw [busy, busy, htask]
  refine hs.move 0 (n := s.nodes 0) ?_ hexecute (fun j _ => hbusy j) ?_ (hs.clear 0) id
  · rw [hnodes, update_eq_self]
  · rw [hbusy]
    exact hs.follows 0

variable {n : BaseNode}

theorem Sound.starts (hs : s.Sound) (hflags : s.Flagged)
    (hstarts : (s.nodes i).toBaseNode.Starts .returned n) :
    (s.setNode i { s.nodes i with toBaseNode := n }).Sound := by
  have hunreturned := hstarts.unreturned
  obtain ⟨-, hstop⟩ := hflags.unreturned hunreturned
  have hclear : s.Clear i := by
    rintro task htask rfl
    exact hunreturned (hs.started task htask)
  have hfollows := hs.follows i
  refine hs.move i rfl (fun _ => id) (fun _ _ => rfl) ?_ (fun _ => hclear)
    (fun h => absurd h hunreturned)
  cases hstarts with
  | call hstart | succeed hstart | fail hstart =>
    refine hfollows.withoutReady_snoc (by simp) ?_
    simp [BaseNode.observe, hstart, PluginPhase.observe]
  | store hstart =>
    change PluginPhase.Follows _ (plugin _ (s.busy i))
    rw [hclear.busy]
    simpa [hstart, hstop] using hfollows

/-- `Ready` does not touch what the other callbacks see. -/
theorem Sound.readies (hs : s.Sound) (hreadies : (s.nodes i).toBaseNode.Readies n) :
    (s.setNode i { s.nodes i with toBaseNode := n }).Sound := by
  have hframe : ∀ ready trace, withoutReady trace = withoutReady (s.nodes i).trace →
      (s.setNode i { s.nodes i with ready := ready, trace := trace }).Sound := by
    intro ready trace htrace
    refine hs.move i rfl (fun _ => id) (fun _ _ => rfl) ?_ (hs.clear i) id
    rw [htrace]
    exact hs.follows i
  cases hreadies with
  | enter | leave => exact hframe _ _ (by simp [withoutReady])
  | _ => exact hframe _ _ rfl

theorem MayExecute.frame (htask : next.MayExecute task)
    (hserves : ∀ priority, next.Serves priority → s.Serves priority)
    (hitems : ∀ priority, (next.queues priority).items ⊆ (s.queues priority).items)
    (hworker : next.worker.task = some task → s.MayExecute task) : s.MayExecute task := by
  rcases htask with hexecuting | ⟨priority, hserved, hqueued⟩
  · exact hworker hexecuting
  · exact .inr ⟨priority, hserves priority hserved, hitems priority hqueued⟩

variable {mailbox : Mailbox (Task Value)} {priority : Priority}

theorem items_update (hitems : mailbox.items ⊆ (s.queues priority).items) (other : Priority) :
    (update s.queues priority mailbox other).items ⊆ (s.queues other).items := by
  by_cases hother : other = priority
  · subst hother
    rw [update_self]
    exact hitems
  · rw [update_of_ne hother]
    exact List.Subset.refl _

/-- A worker that has left, or whose context is cancelled, does not come back. -/
theorem Serves.of_works (hworks : s.Works next) (hserves : next.Serves priority) :
    s.Serves priority := by
  obtain ⟨hstays, hnormal⟩ := hserves
  cases hworks with
  | leave => exact absurd (.inl rfl) hstays
  | wait hphase hlive =>
    refine ⟨?_, fun _ => .inl hlive⟩
    rintro (h | h) <;> cases hphase.symm.trans h
  | receive _ _ _ hphase =>
    refine ⟨?_, fun h => .inl ((hnormal h).resolve_right nofun)⟩
    rintro (h | h) <;> rcases hphase with ⟨hphase, -⟩ | hphase <;> cases hphase.symm.trans h
  | finish task hphase =>
    refine ⟨?_, fun h => .inl ((hnormal h).resolve_right nofun)⟩
    rintro (h | h) <;> cases hphase.symm.trans h
  | drain => exact ⟨hstays, hnormal⟩
  | exit => exact absurd (.inr rfl) hstays

theorem Serves.of_cancel (hserves : { s with ctxDone := true }.Serves priority) :
    s.Serves priority :=
  ⟨hserves.1, fun h => .inr ((hserves.2 h).resolve_left nofun)⟩

/-- What the worker receives is a task it may execute. -/
theorem mayExecute_of_receive (hphase : s.worker = .outer ∧ priority = .high ∨ s.worker = .inner)
    (hreceive : (s.queues priority).receive? = some (task, mailbox)) : s.MayExecute task := by
  obtain ⟨-, -, -, -, hitems⟩ := receive?_eq_some hreceive
  refine .inr ⟨priority, ⟨?_, ?_⟩, by rw [hitems]; exact mem_cons_self⟩
  · rintro (h | h) <;> rcases hphase with ⟨hphase, -⟩ | hphase <;> cases hphase.symm.trans h
  · rintro rfl
    exact .inr (hphase.resolve_left nofun)

theorem MayExecute.of_works (hworks : s.Works next) (htask : next.MayExecute task) :
    s.MayExecute task := by
  refine htask.frame (fun _ => Serves.of_works hworks) ?_ ?_
  · cases hworks with
    | receive priority received mailbox _ hreceive =>
      obtain ⟨-, -, -, -, hitems⟩ := receive?_eq_some hreceive
      exact items_update (by rw [hitems]; exact subset_cons_self _ _)
    | drain priority mailbox _ hdrain =>
      obtain ⟨-, -, -, received, hitems⟩ := drain?_eq_some hdrain
      exact items_update (by rw [hitems]; exact subset_cons_self _ _)
    | _ => exact fun _ => List.Subset.refl _
  · intro hexecuting
    cases hworks with
    | receive priority received mailbox hphase hreceive =>
      cases hexecuting
      exact mayExecute_of_receive hphase hreceive
    | drain => exact .inl hexecuting
    | _ => cases hexecuting

/-- A task that the worker may execute is of a node whose `OnStop` was not called. -/
theorem Sound.notCalled (hs : s.Sound) (htask : s.MayExecute task) :
    (s.nodes task.node).stop = .notCalled := by
  by_contra hstop
  exact hs.clear task.node hstop task htask rfl

/-- The steps of the worker as the plugins see them. -/
inductive Executes (s next : PoolShared Value) : Prop where
  | stay (hnodes : next.nodes = s.nodes) (htask : next.worker.task = s.worker.task) :
      Executes s next
  | enter (task : Task Value) (htask : s.MayExecute task) (hidle : s.worker.task = none)
      (hbusy : next.worker.task = some task)
      (hnodes : next.nodes = update s.nodes task.node
        ((s.nodes task.node).observe (.enter task.callback))) : Executes s next
  | leave (task : Task Value) (hbusy : s.worker.task = some task)
      (hidle : next.worker.task = none)
      (hnodes : next.nodes = update s.nodes task.node
        ((s.nodes task.node).observe (.leave task.callback))) : Executes s next

theorem Works.executes (hworks : s.Works next) : s.Executes next := by
  cases hworks with
  | leave hphase =>
    refine .stay rfl ?_
    rcases hphase with hphase | hphase <;> rw [hphase] <;> rfl
  | wait hphase | exit hphase =>
    refine .stay rfl ?_
    rw [hphase]
    rfl
  | drain => exact .stay rfl rfl
  | receive priority task mailbox hphase hreceive =>
    refine .enter task (mayExecute_of_receive hphase hreceive) ?_ rfl rfl
    rcases hphase with ⟨hphase, -⟩ | hphase <;> rw [hphase] <;> rfl
  | finish task hphase =>
    refine .leave task ?_ rfl rfl
    rw [hphase]
    rfl

theorem Sound.works (hs : s.Sound) (hworks : s.Works next) : next.Sound := by
  have hexecute : ∀ task, next.MayExecute task → s.MayExecute task :=
    fun _ => MayExecute.of_works hworks
  cases hworks.executes with
  | stay hnodes htask => exact hs.frame hnodes htask hexecute
  | enter task htask hidle hbusy hnodes =>
    have hstart := hs.started task htask
    have hstop := hs.notCalled htask
    refine hs.move task.node hnodes hexecute ?_ ?_ (hs.clear _) id
    · intro j hj
      rw [busy_idle hidle, busy_of_ne hbusy hj]
    · refine (hs.follows task.node).withoutReady_snoc ⟨?_, nofun⟩ ?_
      · exact fun heq => task.callback_isTask.not_lifecycle.2.1 (Observation.enter.inj heq)
      · rw [busy_idle hidle, busy_self hbusy, observe_plugin,
          plugin_live hstart hstop, plugin_live hstart hstop]
        exact task.callback_isTask.observe_enter
  | leave task hbusy hidle hnodes =>
    have hstart := hs.started task (.inl hbusy)
    have hstop := hs.notCalled (.inl hbusy)
    refine hs.move task.node hnodes hexecute ?_ ?_ (hs.clear _) id
    · intro j hj
      rw [busy_of_ne hbusy hj, busy_idle hidle]
    · refine (hs.follows task.node).withoutReady_snoc ⟨nofun, ?_⟩ ?_
      · exact fun heq => task.callback_isTask.not_lifecycle.2.1 (Observation.leave.inj heq)
      · rw [busy_self hbusy, busy_idle hidle, observe_plugin,
          plugin_live hstart hstop, plugin_live hstart hstop]
        simp [PluginPhase.observe]

/-- What the worker may execute after a send. -/
theorem mayExecute_of_send (hsend : (s.queues task.priority).send? task = some mailbox) {other}
    (hother : { s with queues := update s.queues task.priority mailbox }.MayExecute other) :
    s.MayExecute other ∨ other = task ∧ s.Serves task.priority := by
  obtain ⟨-, -, -, -, hitems⟩ := send?_eq_some hsend
  rcases hother with hexecuting | ⟨priority, hserves, hqueued⟩
  · exact .inl (.inl hexecuting)
  · by_cases hpriority : priority = task.priority
    · subst hpriority
      simp only [update_self, hitems, mem_append, mem_singleton] at hqueued
      rcases hqueued with hbefore | rfl
      · exact .inl (.inr ⟨_, hserves, hbefore⟩)
      · exact .inr ⟨rfl, hserves⟩
    · simp only [update_of_ne hpriority] at hqueued
      exact .inl (.inr ⟨priority, hserves, hqueued⟩)

theorem Sound.calls (hs : s.Sound) {call moved} (howns : Owns call s) (hknows : Knows call s)
    (hsettled : ∀ i, call = .stopCall i → s.Clear i) (hcalls : s.Calls sends call moved next) :
    next.Sound := by
  cases hcalls with
  | swap i => exact hs.move i rfl (fun _ => id) (fun _ _ => rfl) (hs.follows i) (hs.clear i) id
  | callStop i =>
    obtain ⟨hstart, -⟩ := howns.stops i rfl
    have hclear := hsettled i rfl
    refine hs.move i rfl (fun _ => id) (fun _ _ => rfl) ?_ (fun _ => hclear) id
    refine (hs.follows i).withoutReady_snoc (by simp) ?_
    rw [hclear.busy, plugin_live hstart (howns.before i rfl), observe_plugin]
    simp [hstart, PluginPhase.observe]
  | stopReturns i =>
    obtain ⟨hstart, -⟩ := howns.stops i rfl
    have hstop := howns.within i rfl
    refine hs.move i rfl (fun _ => id) (fun _ _ => rfl) ?_ ?_ id
    · refine (hs.follows i).withoutReady_snoc (by simp) ?_
      rw [observe_plugin]
      simp [hstart, hstop, PluginPhase.observe]
    · exact fun _ => hs.clear i (by simp [hstop])
  | send task mailbox hsend =>
    refine ⟨hs.follows, fun i hstop other hother => ?_, fun other hother => ?_⟩
    · rcases mayExecute_of_send hsend hother with hbefore | ⟨rfl, hserves⟩
      · exact hs.clear i hstop other hbefore
      · exact fun hnode => hknows.harmless i hstop ⟨hnode, hserves⟩
    · rcases mayExecute_of_send hsend hother with hbefore | ⟨rfl, -⟩
      · exact hs.started other hbefore
      · exact hknows.submits _ rfl
  | drop task =>
    refine hs.frame rfl rfl fun other hother => ?_
    exact hother.frame (fun _ => id) (items_update (List.Subset.refl _)) .inl
  | _ => exact hs

variable {call : PoolCall Value}

/-- What threatens a node after a step threatened it before. -/
theorem threatens_frame (hthreatens : call.Threatens next i)
    (hlive : next.ctxDone = false → s.ctxDone = false)
    (hserves : ∀ priority, next.Serves priority → s.Serves priority) : call.Threatens s i := by
  cases call with
  | submitErr => exact hthreatens.imp id hlive
  | submitSelect => exact hthreatens.imp id (hserves _)
  | _ => exact hthreatens

theorem Knows.frame (hknows : Knows call s) (hlive : next.ctxDone = false → s.ctxDone = false)
    (hserves : ∀ priority, next.Serves priority → s.Serves priority)
    (hnodes : ∀ i, ((s.nodes i).start = .returned → (next.nodes i).start = .returned) ∧
      ((next.nodes i).stop = (s.nodes i).stop ∨ ¬ call.Threatens s i)) : Knows call next where
  submits i hsubmits := (hnodes i).1 (hknows.submits i hsubmits)
  harmless i hstop hthreatens := by
    have hbefore : call.Threatens s i := threatens_frame hthreatens hlive hserves
    rcases (hnodes i).2 with hsame | hnot
    · rw [hsame] at hstop
      exact hknows.harmless i hstop hbefore
    · exact hnot hbefore

theorem Knows.setNode (hknows : Knows call s) {n}
    (hstart : (s.nodes i).start = .returned → n.start = .returned)
    (hstop : n.stop = (s.nodes i).stop ∨ ¬ call.Threatens s i) : Knows call (s.setNode i n) := by
  refine hknows.frame id (fun _ => id) fun j => ?_
  by_cases hj : j = i
  · subst hj
    rw [setNode_nodes_self]
    exact ⟨hstart, hstop⟩
  · rw [setNode_nodes_of_ne hj]
    exact ⟨id, .inl rfl⟩

theorem Knows.readies (hknows : Knows call s) (hreadies : (s.nodes i).toBaseNode.Readies n) :
    Knows call (s.setNode i { s.nodes i with toBaseNode := n }) := by
  refine hknows.setNode (fun hreturned => ?_) (.inl rfl)
  cases hreadies with
  | _ => exact hreturned

theorem Knows.works (hknows : Knows call s) (hworks : s.Works next) : Knows call next := by
  refine hknows.frame ?_ (fun _ => Serves.of_works hworks) fun i => ?_
  · rw [hworks.ctxDone]
    exact id
  · obtain ⟨hstart, -, hstop, -⟩ := hworks.nodes i
    rw [hstart]
    exact ⟨id, .inl hstop⟩

theorem Knows.calls {call moved other} (hother : Knows other s)
    (hsettled : ∀ i, call = .stopCall i → ¬ other.Threatens s i) (howns : Owns call s)
    (hcalls : s.Calls sends call moved next) : Knows other next := by
  cases hcalls with
  | swap i => exact hother.setNode id (.inl rfl)
  | callStop i => exact hother.setNode id (.inr (hsettled i rfl))
  | stopReturns i =>
    exact hother.setNode id (.inr (hother.harmless i (by rw [howns.within i rfl]; nofun)))
  | send | drop => exact hother.frame id (fun _ => id) fun _ => ⟨id, .inl rfl⟩
  | _ => exact hother

theorem Knows.of_not_submits (hsubmits : ∀ i, ¬ call.Submits i) (s : PoolShared Value) :
    Knows call s where
  submits i h := absurd h (hsubmits i)
  harmless i _ h := by
    cases call with
    | submitErr | submitSelect => exact hsubmits i h.1
    | _ => exact h

theorem Knows.after (hflags : s.Flagged) {call moved} (hknows : Knows call s)
    (hcalls : s.Calls sends call moved next) : Knows moved next := by
  cases hcalls with
  | submit _ task hrunning =>
    obtain ⟨hstart, hstop⟩ := hflags.running task.node hrunning
    constructor
    · rintro j rfl
      exact hstart
    · rintro j hcalled ⟨rfl, -⟩
      exact hcalled hstop
  | check task hlive =>
    refine ⟨hknows.submits, ?_⟩
    rintro j hcalled ⟨hnode, -⟩
    exact hknows.harmless j hcalled ⟨hnode, hlive⟩
  | _ => exact .of_not_submits (fun _ => id) _

theorem Sound.stopsAlone (hs : s.Sound) (i : Nat) : s.StopsAlone i :=
  (hs.follows i).serial.stopsAlone

end PoolShared

namespace WorkerPool

abbrev Shutdown (c : WorkerPool Value) : Prop :=
  Outline PoolShared.Sound PoolShared.Knows (fun _ _ => True) c

theorem initial_shutdown (queueSize : Int) : Shutdown (initial queueSize : WorkerPool Value) := by
  refine .start _ ⟨fun _ => rfl, fun _ h => absurd rfl h, ?_⟩
  rintro task (h | ⟨priority, -, h⟩) <;> cases h

theorem step_shutdown {c d : WorkerPool Value} {label} (hlife : Lifecycle c) (hc : Shutdown c)
    (hsettled : c.StopsSettled label) (hstep : c.step label = some d) : Shutdown d := by
  have hflags := hlife.shared
  have hs := hc.shared
  cases label with
  | start i succeeds =>
    obtain ⟨n, hstart, rfl⟩ := map_eq_some_iff.mp hstep
    have hstarts := BaseNode.starts_of_startStep hstart
    refine hc.environment (hs.starts hflags hstarts) fun _ hknows => ?_
    exact hknows.setNode (fun hreturned => absurd hreturned hstarts.unreturned) (.inl rfl)
  | ready i =>
    obtain ⟨n, hready, rfl⟩ := map_eq_some_iff.mp hstep
    have hreadies := BaseNode.readies_of_readyStep hready
    exact hc.environment (hs.readies hreadies) fun _ hknows => hknows.readies hreadies
  | worker label =>
    obtain ⟨s, hworker, rfl⟩ := map_eq_some_iff.mp hstep
    have hworks := PoolShared.works_of_workerStep hworker
    exact hc.environment (hs.works hworks) fun _ hknows => hknows.works hworks
  | spawn =>
    cases hstep
    exact hc.spawn (.of_not_submits (fun _ => id) _) fun _ => ⟨trivial, trivial⟩
  | request i request =>
    obtain ⟨hi, rfl⟩ := request_eq_some hstep
    refine hc.update hi hs (.of_not_submits ?_ _) fun _ _ hother _ _ => ⟨hother, trivial, trivial⟩
    cases request with
    | _ => exact fun _ => id
  | call i sends =>
    obtain ⟨call, moved, shared, hi, hcalls, rfl⟩ := call_eq_some hstep
    have howns := hlife.asserted i call hi
    have hknows := hc.asserted i call hi
    have hnode : ∀ node, call = .stopCall node → c.Settled node := by
      rintro node rfl
      exact hsettled _ hi
    refine hc.update hi (hs.calls howns hknows (fun node heq => (hnode node heq).1) hcalls)
      (hknows.after hflags hcalls) fun other hmem hother _ _ => ?_
    exact ⟨hother.calls (fun node heq => (hnode node heq).2 other hmem) howns hcalls,
      trivial, trivial⟩
  | cancel =>
    cases hstep
    refine hc.environment (hs.frame rfl rfl fun task htask => ?_) fun other hother => ?_
    · exact htask.frame (fun _ => PoolShared.Serves.of_cancel) (fun _ => List.Subset.refl _) .inl
    · exact hother.frame nofun (fun _ => PoolShared.Serves.of_cancel) fun _ => ⟨id, .inl rfl⟩

/-- In every run in which `OnStop` begins only when nothing of its node is under
way, no event or control callback of a plugin runs together with its `OnStop`, or
begins after it. -/
theorem run_stopsAlone (queueSize : Int) (labels : List (Label Value)) {final : WorkerPool Value}
    (hsettled : Meets step StopsSettled (initial queueSize) labels)
    (hrun : run step (initial queueSize) labels = some final) (i : Nat) :
    final.shared.StopsAlone i := by
  have hfinal : Lifecycle final ∧ Shutdown final :=
    run_invariant_of_meets (fun c => Lifecycle c ∧ Shutdown c)
      (fun hc hok hstep => ⟨step_lifecycle hc.1 hstep, step_shutdown hc.1 hc.2 hok hstep⟩)
      ⟨initial_lifecycle queueSize, initial_shutdown queueSize⟩ hsettled hrun
  exact hfinal.2.shared.stopsAlone i

/-- Labels of a start and of two goroutines, the first of which sends a payload that
the worker executes. -/
def startHandlerLabels : List (Label Unit) :=
  replicate 3 (Label.start 0 true) ++
    [Label.spawn, .spawn, .request 0 (.input 0 .payload ())] ++
    replicate 3 (Label.call 0 true) ++ [Label.worker .proceed, .worker (.task .normal)]

def stopLabels : List (Label Unit) := [.request 1 (.stop 0), .call 1 true, .call 1 true]

/-- A second payload is queued when the context is cancelled, and the handler returns
before `Stop`. -/
def settledStopLabels : List (Label Unit) :=
  startHandlerLabels ++ [Label.request 0 (.input 0 .payload ())] ++
    replicate 3 (Label.call 0 true) ++ [Label.cancel, .worker .proceed] ++ stopLabels

theorem run_stopsAlone_queued :
    ∃ final, run step (initial 1) settledStopLabels = some final ∧
      (.enter .onStop ∈ (final.shared.nodes 0).trace ∧
        (final.shared.queues .normal).items ≠ []) ∧ final.shared.StopsAlone 0 := by
  obtain ⟨final, hrun, hfinal⟩ := exists_of_decide (run step (initial 1) settledStopLabels)
    (fun final => .enter .onStop ∈ (final.shared.nodes 0).trace ∧
      (final.shared.queues .normal).items ≠ []) (by decide +kernel)
  exact ⟨final, hrun, hfinal, run_stopsAlone 1 _ (by decide +kernel) hrun 0⟩

/-- `Workflow.Stop` cancels the context and stops the node while the worker is in
the node's handler. -/
theorem stop_during_event :
    ∃ final, run step (initial 1) (startHandlerLabels ++ .cancel :: stopLabels) =
      some final ∧ ¬ final.shared.StopsAlone 0 := by
  obtain ⟨final, hrun, hfinal⟩ := exists_of_decide
    (run step (initial 1) (startHandlerLabels ++ .cancel :: stopLabels))
    (fun final => withoutReady (final.shared.nodes 0).trace =
      [.enter .onStart, .leave .onStart, .enter (.onEvent .payload), .enter .onStop])
    (by decide +kernel)
  refine ⟨final, hrun, fun halone => ?_⟩
  rw [PoolShared.StopsAlone, hfinal] at halone
  exact halone.overlap [.enter .onStart, .leave .onStart, .enter (.onEvent .payload)] [] rfl
    (.onEvent .payload) (by decide) trivial

end WorkerPool

end Voce.Engine
