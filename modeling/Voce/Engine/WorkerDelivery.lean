import Voce.Engine.NodeLoopDelivery
import Voce.Engine.WorkerPool

/-! # Delivery of events by a worker

The two queues of a worker mix the events of all its nodes and kinds, and keep
their order. A worker gives its queue of high priority, with signals and
controls, precedence over the other one. With the results for a node's own loop
this gives the delivery in both scheduler modes.
-/

namespace Voce.Engine

open WorkerPool Transition Option PoolShared List

variable {Value : Type}

theorem Task.Carries.not_media {task : Task Value} {producer node} {kind : EventKind}
    (hcarries : task.Carries producer node kind) (hkind : ¬ kind.Media) : ¬ task.Media := by
  cases task with
  | event other otherKind sent =>
    obtain ⟨-, rfl, -⟩ := hcarries
    exact hkind
  | control => exact absurd hcarries id

namespace PoolShared

def delivery (s : PoolShared Value) (producer node : Nat) (kind : EventKind) :
    Delivery (Task Value) :=
  .ofMailbox (s.queues kind.priority) (·.Carries producer node kind)

/-- The worker has left its loop. -/
def Wound (s : PoolShared Value) : Prop := s.worker = .draining ∨ s.worker = .exited

def consumer (s : PoolShared Value) : Consumer Priority (Task Value) where
  boxes := s.queues
  wound := s.Wound
  committed := match s.worker with
    | .inner => true
    | _ => false
  live := s.ctxDone = false
  cancelled := s.ctxDone

/-- A step of the consumer. Media events may be lost. -/
abbrev Consumes (s next : PoolShared Value) : Prop :=
  Consumer.Step .high (fun _ task => ¬ task.Media) s.consumer next.consumer

abbrev Delivers (s : PoolShared Value) : Prop := s.consumer.Delivers fun _ task => ¬ task.Media

variable {s next : PoolShared Value} {sends : Bool}

theorem Delivers.lossless (hs : s.Delivers) (hlive : s.ctxDone = false) (producer node : Nat)
    {kind : EventKind} (hkind : ¬ kind.Media) : (s.delivery producer node kind).Lossless :=
  (hs.keeps hlive _).handled_append_items
    (hs.undrained (fun hwound => hs.wound hwound hlive) _)
    fun _ hcarries => hcarries.not_media hkind

/-- A step that leaves the queues alone. -/
theorem consumes_stay (hqueues : next.queues = s.queues) (hwound : s.Wound → next.Wound)
    (hworker : next.consumer.committed = true → s.consumer.committed = true)
    (hlive : (s.Wound → ¬ s.ctxDone = false) → next.Wound → ¬ next.ctxDone = false)
    (hdone : s.ctxDone = true → next.ctxDone = true) : s.Consumes next := by
  have heq : next.consumer =
      ⟨s.queues, next.Wound, next.consumer.committed, next.ctxDone = false, next.ctxDone⟩ := by
    rw [← hqueues]
    rfl
  rw [Consumes, heq]
  exact .stay _ _ _ _ hwound hworker hlive hdone

theorem consumes_works (hworks : s.Works next) : s.Consumes next := by
  cases hworks with
  | leave hphase hdone =>
    exact consumes_stay rfl (fun _ => .inl rfl) nofun
      (fun _ _ hlive => Bool.false_ne_true (hlive.symm.trans hdone)) id
  | wait hphase hlive hempty =>
    exact .commit _ (by simp [consumer, Wound, hphase]) nofun hempty
  | receive priority task mailbox hphase hreceive =>
    have hbefore : ¬ s.Wound := by
      rcases hphase with ⟨hphase, -⟩ | hphase <;> simp [Wound, hphase]
    have hpriority : priority = .high ∨ s.consumer.committed = true :=
      hphase.imp And.right fun hinner => by simp only [consumer, hinner]
    exact .receive priority task mailbox _ hbefore nofun hpriority
      hreceive
  | finish task hphase =>
    exact consumes_stay rfl (fun h => absurd h (by simp [Wound, hphase])) nofun
      (fun _ h => by rcases h with h | h <;> cases h) id
  | drain priority mailbox hphase hdrain => exact .drain priority mailbox (.inl hphase) hdrain
  | exit hphase =>
    exact consumes_stay rfl (fun _ => .inr rfl) nofun (fun h _ => h (.inl hphase)) id

theorem consumes_calls {call moved} (hcalls : s.Calls sends call moved next) : s.Consumes next := by
  cases hcalls with
  | send task mailbox hsend => exact .send task.priority task mailbox hsend
  | drop task call hlost => exact .lose task.priority task (hlost.imp id not_not_intro)
  | _ => exact consumes_stay rfl id id id id

end PoolShared

/-! ## Runs -/

namespace WorkerPool

theorem step_consumes {c d : WorkerPool Value} {label} (hstep : c.step label = some d) :
    c.shared.Consumes d.shared := by
  have hstay : c.shared.Consumes c.shared := consumes_stay rfl id id id id
  cases label with
  | start | ready =>
    obtain ⟨n, -, rfl⟩ := map_eq_some_iff.mp hstep
    exact consumes_stay rfl id id id id
  | worker label =>
    obtain ⟨s, hworker, rfl⟩ := map_eq_some_iff.mp hstep
    exact consumes_works (works_of_workerStep hworker)
  | spawn =>
    cases hstep
    exact hstay
  | request i request =>
    obtain ⟨-, rfl⟩ := request_eq_some hstep
    exact hstay
  | call i sends =>
    obtain ⟨call, moved, shared, -, hcalls, rfl⟩ := call_eq_some hstep
    exact consumes_calls hcalls
  | cancel =>
    cases hstep
    exact consumes_stay rfl id id (fun _ _ => nofun) fun _ => rfl

theorem step_delivers {c d : WorkerPool Value} {label} (hs : c.shared.Delivers)
    (hstep : c.step label = some d) :
    d.shared.Delivers ∧ PrioritySelect.Step (c.shared.consumer.selection .high [.normal])
      (d.shared.consumer.selection .high [.normal]) :=
  ⟨hs.step (step_consumes hstep), Consumer.selection_step hs (by decide) (by decide)
    (by rintro (_ | _) h <;> simp at h ⊢) (step_consumes hstep)⟩

theorem run_delivers {queueSize labels} {final : WorkerPool Value}
    (hrun : run step (initial queueSize) labels = some final) :
    final.shared.Delivers := by
  have hinitial : (initial queueSize : WorkerPool Value).shared.Delivers := by
    refine ⟨?_, fun _ _ => rfl, fun _ _ => rfl⟩
    rintro (h | h) <;> cases h
  exact run_invariant (fun c => c.shared.Delivers)
    (fun hs hstep => (step_delivers hs hstep).1) hinitial hrun

end WorkerPool

/-! ## Both scheduler modes -/

/-- In both scheduler modes, in every run, the events of one kind from one producer
to one node are handled in order and once at most. Signals and payloads to a
running node whose context is not cancelled are handled or wait, all of them. -/
theorem run_delivery (producer node : Nat) (kind : EventKind) :
    (∀ (labels : List (LoopNode.Label Value)) (final : LoopNode Value),
      run LoopNode.step .initial labels = some final →
      (final.shared.delivery producer kind).InOrder ∧
      (¬ kind.Media → final.shared.ctxDone = false → final.shared.running = true →
        (final.shared.delivery producer kind).Lossless)) ∧
    (∀ (queueSize : Int) (labels : List (Label Value)) (final : WorkerPool Value),
      run step (.initial queueSize) labels = some final →
      (final.shared.delivery producer node kind).InOrder ∧
      (¬ kind.Media → final.shared.ctxDone = false → (final.shared.nodes node).running = true →
        (final.shared.delivery producer node kind).Lossless)) := by
  constructor
  · intro labels final hrun
    have hdelivers := (LoopNode.run_delivering hrun).delivers
    exact ⟨(Mailbox.handled_sublist_offered _).filter _,
      fun hkind hlive hrunning => hdelivers.lossless hlive hrunning producer hkind⟩
  · intro queueSize labels final hrun
    have hdelivers := run_delivers hrun
    exact ⟨(Mailbox.handled_sublist_offered _).filter _,
      fun hkind hlive _ => hdelivers.lossless hlive producer node hkind⟩

/-- Labels of a started node and one goroutine, with the loop in its inner select. -/
def LoopNode.startedLabels : List (Label Nat) :=
  replicate 4 (Label.start true) ++ [Label.spawn, .loop .proceed, .loop .proceed]

def LoopNode.inputLabels (kind : EventKind) (value : Nat) : List (Label Nat) :=
  .request 0 (.input kind value) :: replicate 3 (.call 0 true)

/-- Labels of a started node and one goroutine, with the worker in its inner select. -/
def startedLabels : List (Label Nat) :=
  replicate 3 (Label.start 5 true) ++ [Label.spawn, .worker .proceed]

def inputLabels (kind : EventKind) (value : Nat) : List (Label Nat) :=
  .request 0 (.input 5 kind value) :: replicate 3 (.call 0 true)

def LoopNode.payloadLabels : List (Label Nat) :=
  startedLabels ++ inputLabels .payload 7 ++ inputLabels .payload 8 ++
    [Label.loop (.event .payload)]

def payloadLabels : List (Label Nat) :=
  startedLabels ++ inputLabels .payload 7 ++ inputLabels .payload 8 ++
    [Label.worker (.task .normal)]

theorem run_delivery_payloads :
    (∃ final, run LoopNode.step .initial LoopNode.payloadLabels = some final ∧
      (final.shared.delivery 0 .payload).InOrder ∧
      (final.shared.delivery 0 .payload).Lossless) ∧
    (∃ final, run step (.initial 2) payloadLabels = some final ∧
      (final.shared.delivery 0 5 .payload).InOrder ∧
      (final.shared.delivery 0 5 .payload).Lossless) := by
  constructor
  · obtain ⟨final, hrun, hctx, hrunning⟩ := exists_of_decide
      (run LoopNode.step .initial LoopNode.payloadLabels)
      (fun c => c.shared.ctxDone = false ∧ c.shared.running = true) (by decide +kernel)
    obtain ⟨horder, hlossless⟩ := (run_delivery 0 5 .payload).1 _ final hrun
    exact ⟨final, hrun, horder, hlossless id hctx hrunning⟩
  · obtain ⟨final, hrun, hctx, hrunning⟩ := exists_of_decide (run step (.initial 2) payloadLabels)
      (fun c => c.shared.ctxDone = false ∧ (c.shared.nodes 5).running = true) (by decide +kernel)
    obtain ⟨horder, hlossless⟩ := (run_delivery 0 5 .payload).2 2 _ final hrun
    exact ⟨final, hrun, horder, hlossless id hctx hrunning⟩

/-- In both scheduler modes, while a signal that was placed in its queue waits, one
event of another kind begins to be handled at most. -/
theorem run_signal_overtakes (k : Nat) :
    (∀ (before after : List (LoopNode.Label Value)) (middle final : LoopNode Value),
      run LoopNode.step .initial before = some middle →
      run LoopNode.step middle after = some final →
      k < (middle.shared.events .signal).placed.length →
      (final.shared.events .signal).handled.length ≤ k →
      final.shared.selection.started ≤ middle.shared.selection.started + 1) ∧
    (∀ (queueSize : Int) (before after : List (Label Value))
      (middle final : WorkerPool Value),
      run step (.initial queueSize) before = some middle →
      run step middle after = some final →
      k < (middle.shared.queues .high).placed.length →
      (final.shared.queues .high).handled.length ≤ k →
      (final.shared.queues .normal).handled.length ≤
        (middle.shared.queues .normal).handled.length + 1) :=
  ⟨fun _ _ _ _ hbefore hafter hplaced hwaits => PrioritySelect.run_started_le
      LoopNode.step_delivering (LoopNode.run_delivering hbefore) hafter hplaced hwaits,
    fun _ _ _ _ _ hbefore hafter hplaced hwaits => PrioritySelect.run_started_le
      (step_delivers) (run_delivers hbefore) hafter hplaced hwaits⟩

/-- Labels of a payload and a signal that arrive between the two selects. -/
def LoopNode.signalLabels : List (Label Nat) :=
  startedLabels ++ inputLabels .payload 7 ++ inputLabels .signal 8

def signalLabels : List (Label Nat) :=
  startedLabels ++ inputLabels .payload 7 ++ inputLabels .signal 8

/-- The inner select takes the payload although the signal waits. -/
theorem run_signal_overtakes_between_selects :
    (∃ middle final, run LoopNode.step .initial LoopNode.signalLabels = some middle ∧
      run LoopNode.step middle [.loop (.event .payload)] = some final ∧
      final.shared.selection.started ≤ middle.shared.selection.started + 1) ∧
    (∃ middle final,
      run step (.initial 2) signalLabels = some middle ∧
      run step middle [.worker (.task .normal)] = some final ∧
      (final.shared.queues .normal).handled.length ≤
        (middle.shared.queues .normal).handled.length + 1) := by
  constructor
  · obtain ⟨middle, hmiddle, hplaced, hafter⟩ := exists_of_decide
      (run LoopNode.step .initial LoopNode.signalLabels)
      (fun middle => 0 < (middle.shared.events .signal).placed.length ∧
        (run LoopNode.step middle [.loop (.event .payload)]).any fun final =>
          decide ((final.shared.events .signal).handled.length ≤ 0)) (by decide +kernel)
    obtain ⟨final, hfinal, hhandled⟩ := exists_of_decide _ _ hafter
    exact ⟨middle, final, hmiddle, hfinal,
      (run_signal_overtakes 0).1 _ _ middle final hmiddle hfinal hplaced hhandled⟩
  · obtain ⟨middle, hmiddle, hplaced, hafter⟩ := exists_of_decide
      (run step (.initial 2) signalLabels)
      (fun middle => 0 < (middle.shared.queues .high).placed.length ∧
        (run step middle [.worker (.task .normal)]).any fun final =>
          decide ((final.shared.queues .high).handled.length ≤ 0)) (by decide +kernel)
    obtain ⟨final, hfinal, hhandled⟩ := exists_of_decide _ _ hafter
    exact ⟨middle, final, hmiddle, hfinal,
      (run_signal_overtakes 0).2 2 _ _ middle final hmiddle hfinal hplaced hhandled⟩

end Voce.Engine
