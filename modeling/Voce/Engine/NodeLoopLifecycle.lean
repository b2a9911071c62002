import Voce.Engine.NodeLoop

/-! # Lifecycle of a node with a loop of its own

Up to `OnReady`, which has a goroutine of its own, the node follows the protocol
of its plugin: every step is one observation of the protocol or none. After
`Stop` or a cancellation the loop is never stuck in a select: the control queue
is not empty, or the context's branch is open.
-/

namespace Voce.Engine

open Interleaving Option Channel Transition Bool

variable {Value : Type}

def Observation.withoutReady (trace : List Observation) : List Observation :=
  trace.filter fun observation => observation ≠ .enter .onReady ∧ observation ≠ .leave .onReady

open Observation (withoutReady)

theorem Observation.withoutReady_snoc {trace observation} (henter : observation ≠ .enter .onReady)
    (hleave : observation ≠ .leave .onReady) :
    withoutReady (trace ++ [observation]) = withoutReady trace ++ [observation] := by
  simp [withoutReady, henter, hleave]

/-- An observation other than of `OnReady` is one step of the protocol. -/
theorem PluginPhase.Follows.withoutReady_snoc {trace observation phase next}
    (hfollows : Follows (withoutReady trace) phase)
    (hready : observation ≠ .enter .onReady ∧ observation ≠ .leave .onReady)
    (hobserve : phase.observe observation = some next) :
    Follows (withoutReady (trace ++ [observation])) next := by
  rw [Observation.withoutReady_snoc hready.1 hready.2]
  exact hfollows.snoc hobserve

def NodeStart.Launched : NodeStart → Prop
  | .goLoop | .returned => True
  | .notCalled | .onStart | .failed | .storeRunning => False

def NodeLoopPhase.InCallback : NodeLoopPhase → Prop
  | .event _ | .control _ | .onStop => True
  | _ => False

namespace NodeShared

/-- Where the plugin is in its protocol. -/
@[simp]
def plugin (s : NodeShared Value) : PluginPhase :=
  match s.start with
  | .notCalled => .fresh
  | .onStart => .starting
  | .failed => .failed
  | .storeRunning | .goLoop => .idle
  | .returned =>
    match s.loop with
    | .event kind => .busy (.onEvent kind)
    | .control control => .busy control.callback
    | .onStop => .stopping
    | .draining | .exited => .stopped
    | .absent | .top | .outer | .inner | .exiting | .stopping => .idle

def SerialCallbacks (s : NodeShared Value) : Prop := Observation.Serial (withoutReady s.trace)

/-- After a `Stop` of the running node, or a cancellation, a loop that has not
exited is in a callback or can take a step. -/
def Winds (s : NodeShared Value) : Prop :=
  s.stopReturned = true ∨ s.ctxDone = true → s.loop ≠ .absent → s.loop ≠ .exited →
    s.loop.InCallback ∨ ∃ label next, s.loopStep label = some next

structure Sound (s : NodeShared Value) : Prop where
  follows : PluginPhase.Follows (withoutReady s.trace) s.plugin
  loop : s.loop ≠ .absent → s.start = .returned
  capacity : s.ctrl.capacity = ctrlBufferSize
  running : s.running = true → s.start.Launched
  stopped : s.stopReturned = true → s.start.Launched ∧ s.running = false ∧
    (s.loop = .outer ∨ s.loop = .inner → s.ctrl.items ≠ [])

variable {s next : NodeShared Value}

theorem Sound.unlaunched (hs : s.Sound) (hstart : ¬ s.start.Launched) :
    s.running = false ∧ s.stopReturned = false ∧ s.loop = .absent := by
  refine ⟨?_, ?_, ?_⟩
  · rw [← not_eq_true]
    exact fun hrunning => hstart (hs.running hrunning)
  · rw [← not_eq_true]
    exact fun hstopped => hstart (hs.stopped hstopped).1
  · by_contra hloop
    rw [hs.loop hloop] at hstart
    exact hstart trivial

/-- The plugin sees one step of `Start`. -/
theorem Sound.observeStart (hs : s.Sound) (hstart : ¬ s.start.Launched) {start observation}
    (hready : observation ≠ .enter .onReady ∧ observation ≠ .leave .onReady)
    (hobserve : s.plugin.observe observation = some { s with start := start }.plugin) :
    { s with toBaseNode := { s.toBaseNode with start := start }.observe observation }.Sound := by
  obtain ⟨hrunning, hstopped, hloop⟩ := hs.unlaunched hstart
  refine ⟨?_, absurd hloop, hs.capacity, fun h => ?_, fun h => ?_⟩
  · exact hs.follows.withoutReady_snoc hready hobserve
  · exact absurd h (by rw [BaseNode.observe, hrunning]; nofun)
  · exact absurd h (by rw [hstopped]; nofun)

theorem Sound.starts (hs : s.Sound) (hstarts : s.Starts next) : next.Sound := by
  have hfollows := hs.follows
  cases hstarts with
  | base n hstarts =>
    cases hstarts with
    | call hstart | succeed hstart | fail hstart =>
      exact hs.observeStart (by rw [hstart]; exact id) ⟨nofun, nofun⟩
        (by simp [hstart]; rfl)
    | store hstart =>
      obtain ⟨-, hstopped, hloop⟩ := hs.unlaunched (by rw [hstart]; exact id)
      refine ⟨?_, absurd hloop, hs.capacity, fun _ => trivial, fun h => ?_⟩
      · simpa [hstart] using hfollows
      · exact absurd h (by rw [hstopped]; nofun)
  | launch hstart =>
    refine ⟨?_, fun _ => rfl, hs.capacity, fun _ => trivial, fun h => ?_⟩
    · simpa [hstart] using hfollows
    · exact ⟨trivial, (hs.stopped h).2.1, nofun⟩

/-- `Ready` does not touch what the other callbacks see. -/
theorem Sound.readies (hs : s.Sound) {n} (hreadies : s.toBaseNode.Readies n) :
    { s with toBaseNode := n }.Sound := by
  have hframe : ∀ ready trace, withoutReady trace = withoutReady s.trace →
      { s with ready := ready, trace := trace }.Sound := by
    intro ready trace htrace
    refine ⟨?_, hs.loop, hs.capacity, hs.running, hs.stopped⟩
    rw [htrace]
    exact hs.follows
  cases hreadies with
  | enter | leave => exact hframe _ _ (by simp [withoutReady])
  | _ => exact hframe _ _ rfl

/-- A step of the loop that the plugin does not see, or sees as one observation. -/
theorem Sound.loopMove (hs : s.Sound) (hloop : s.loop ≠ .absent) (hstart : next.start = s.start)
    (hstopReturned : next.stopReturned = s.stopReturned)
    (hcapacity : next.ctrl.capacity = s.ctrl.capacity)
    (hrunning : next.running = true → s.running = true)
    (hselect : next.loop = .outer ∨ next.loop = .inner → s.stopReturned = true →
      next.ctrl.items ≠ [])
    (htrace : withoutReady next.trace = withoutReady s.trace ∧ next.plugin = s.plugin ∨
      ∃ observation, withoutReady next.trace = withoutReady s.trace ++ [observation] ∧
        s.plugin.observe observation = some next.plugin) :
    next.Sound := by
  constructor
  · rcases htrace with ⟨htrace, hplugin⟩ | ⟨observation, htrace, hobserve⟩
    · rw [htrace, hplugin]
      exact hs.follows
    · rw [htrace]
      exact hs.follows.snoc hobserve
  · intro _
    rw [hstart]
    exact hs.loop hloop
  · rw [hcapacity]
    exact hs.capacity
  · rw [hstart]
    exact fun h => hs.running (hrunning h)
  · rw [hstopReturned, hstart]
    intro hstopped
    obtain ⟨hlaunched, hnot, -⟩ := hs.stopped hstopped
    refine ⟨hlaunched, ?_, fun h => hselect h hstopped⟩
    rw [← not_eq_true] at hnot ⊢
    exact fun h => hnot (hrunning h)

theorem Sound.loops (hs : s.Sound) (hloops : s.Loops next) : next.Sound := by
  have hpresent : s.loop ≠ .absent := by
    cases hloops with
    | leave hphase =>
      rcases hphase with ⟨hphase, -⟩ | ⟨hphase | hphase, -⟩ <;> simp [hphase]
    | receive kind event mailbox hphase => rcases hphase with ⟨hphase, -⟩ | hphase <;> simp [hphase]
    | receiveStop ctrl hphase | receiveControl _ ctrl hphase =>
      rcases hphase with hphase | hphase <;> simp [hphase]
    | select hphase | wait hphase | eventReturns _ hphase | controlReturns _ hphase
    | clearRunning hphase | callStop hphase | stopReturns hphase | drain _ _ hphase
    | exit hphase => simp [hphase]
  have hstart := hs.loop hpresent
  cases hloops with
  | leave hphase =>
    refine hs.loopMove hpresent rfl rfl rfl id nofun (.inl ⟨rfl, ?_⟩)
    rcases hphase with ⟨hphase, -⟩ | ⟨hphase | hphase, -⟩ <;> simp [hstart, hphase]
  | select hphase hlive hrunning =>
    refine hs.loopMove hpresent rfl rfl rfl id ?_ (.inl ⟨rfl, ?_⟩)
    · intro _ hstopped
      -- a loop at its top leaves once `Stop` has returned
      have hstop := (hs.stopped hstopped).2.1
      rw [hrunning] at hstop
      cases hstop
    · simp [hstart, hphase]
  | wait hphase =>
    refine hs.loopMove hpresent rfl rfl rfl id ?_ (.inl ⟨rfl, ?_⟩)
    · exact fun _ hstopped => (hs.stopped hstopped).2.2 (.inl hphase)
    · simp [hstart, hphase]
  | receive kind event mailbox hphase =>
    refine hs.loopMove hpresent rfl rfl rfl id nofun
      (.inr ⟨_, Observation.withoutReady_snoc nofun nofun, ?_⟩)
    rcases hphase with ⟨hphase, -⟩ | hphase <;> simp [hstart, hphase, PluginPhase.observe]
  | receiveStop ctrl hphase hreceive =>
    have hctrl := (receive?_eq_some hreceive).2
    refine hs.loopMove hpresent rfl rfl hctrl id nofun (.inl ⟨rfl, ?_⟩)
    rcases hphase with hphase | hphase <;> simp [hstart, hphase]
  | receiveControl control ctrl hphase hreceive =>
    have hctrl := (receive?_eq_some hreceive).2
    refine hs.loopMove hpresent rfl rfl hctrl id nofun
      (.inr ⟨_, Observation.withoutReady_snoc ?_ nofun, ?_⟩)
    · cases control <;> nofun
    · rcases hphase with hphase | hphase <;> cases control <;>
        simp [hstart, hphase, ControlType.callback, PluginPhase.observe]
  | eventReturns kind hphase | callStop hphase | stopReturns hphase =>
    refine hs.loopMove hpresent rfl rfl rfl id nofun
      (.inr ⟨_, Observation.withoutReady_snoc nofun nofun, ?_⟩)
    simp [hstart, hphase, PluginPhase.observe]
  | controlReturns control hphase =>
    refine hs.loopMove hpresent rfl rfl rfl id nofun
      (.inr ⟨_, Observation.withoutReady_snoc nofun ?_, ?_⟩)
    · cases control <;> nofun
    · simp [hstart, hphase, PluginPhase.observe]
  | clearRunning hphase =>
    refine hs.loopMove hpresent rfl rfl rfl nofun nofun (.inl ⟨rfl, ?_⟩)
    simp [hstart, hphase]
  | drain kind mailbox hphase =>
    exact hs.loopMove hpresent rfl rfl rfl id
      (fun _ hstopped => (hs.stopped hstopped).2.2 ‹_›) (.inl ⟨rfl, rfl⟩)
  | exit hphase =>
    refine hs.loopMove hpresent rfl rfl rfl id nofun (.inl ⟨rfl, ?_⟩)
    simp [hstart, hphase]

theorem exists_receiveEvent {kind} (hitems : (s.events kind).items ≠ []) :
    ∃ next, s.receiveEvent kind = some next := by
  obtain ⟨event, mailbox, hreceive⟩ := Mailbox.exists_receive? hitems
  exact ⟨_, by rw [receiveEvent, hreceive]; rfl⟩

theorem exists_drainEvent {kind} (hitems : (s.events kind).items ≠ []) :
    ∃ next, s.drainEvent kind = some next := by
  obtain ⟨mailbox, hdrain⟩ := Mailbox.exists_drain? hitems
  exact ⟨_, by rw [drainEvent, hdrain]; rfl⟩

theorem exists_receiveControl (hitems : s.ctrl.items ≠ []) :
    ∃ next, s.receiveControl = some next := by
  obtain ⟨control, ctrl, hreceive⟩ := exists_receive? hitems
  cases control with
  | stop | notify control => exact ⟨_, by rw [receiveControl, hreceive]⟩

/-- Only the inner select can block, and only with nothing to receive. -/
theorem exists_loopStep (hpresent : s.loop ≠ .absent) (hexited : s.loop ≠ .exited)
    (hinner : s.loop = .inner → s.ctxDone = true ∨ s.ctrl.items ≠ [] ∨
      ∃ kind, (s.events kind).items ≠ []) :
    ∃ label next, s.loopStep label = some next := by
  cases hphase : s.loop with
  | absent => exact absurd hphase hpresent
  | exited => exact absurd hphase hexited
  | outer =>
    by_cases hdone : s.ctxDone = true
    · exact ⟨.done, _, by simp only [loopStep, hphase, if_pos hdone]; rfl⟩
    by_cases hcontrols : s.ctrl.items = []
    · by_cases hsignals : (s.events .signal).items = []
      · rw [not_eq_true] at hdone
        exact ⟨.proceed, _, by
          simp only [loopStep, hphase]; exact if_pos ⟨hdone, hsignals, hcontrols⟩⟩
      · obtain ⟨next, hnext⟩ := exists_receiveEvent hsignals
        exact ⟨.event .signal, next, by simp only [loopStep, hphase, hnext]⟩
    · obtain ⟨next, hnext⟩ := exists_receiveControl hcontrols
      exact ⟨.control, next, by simp only [loopStep, hphase, hnext]⟩
  | inner =>
    rcases hinner hphase with hdone | hcontrols | ⟨kind, hitems⟩
    · exact ⟨.done, _, by simp only [loopStep, hphase, if_pos hdone]; rfl⟩
    · obtain ⟨next, hnext⟩ := exists_receiveControl hcontrols
      exact ⟨.control, next, by simp only [loopStep, hphase, hnext]⟩
    · obtain ⟨next, hnext⟩ := exists_receiveEvent hitems
      exact ⟨.event kind, next, by simp only [loopStep, hphase, hnext]⟩
  | draining =>
    by_cases haudio : (s.events .audio).items = []
    · by_cases hvideo : (s.events .video).items = []
      · exact ⟨.proceed, _, by simp only [loopStep, hphase]; exact if_pos ⟨haudio, hvideo⟩⟩
      · obtain ⟨next, hnext⟩ := exists_drainEvent hvideo
        exact ⟨.event .video, next, by simp only [loopStep, hphase, hnext]⟩
    · obtain ⟨next, hnext⟩ := exists_drainEvent haudio
      exact ⟨.event .audio, next, by simp only [loopStep, hphase, hnext]⟩
  | _ =>
    exact ⟨.proceed, _, by simp only [loopStep, hphase]; rfl⟩

theorem Sound.winds (hs : s.Sound) : s.Winds := by
  intro hended hpresent hexited
  refine .inr (exists_loopStep hpresent hexited fun hinner => ?_)
  rcases hended with hstopped | hdone
  · exact .inr (.inl ((hs.stopped hstopped).2.2 (.inr hinner)))
  · exact .inl hdone

/-- What a goroutine knows that has taken the running flag away. -/
def Knows (call : NodeCall Value) (s : NodeShared Value) : Prop :=
  call = .stopSend → s.start.Launched ∧ s.running = false

variable {call moved : NodeCall Value} {producer : Nat}

theorem Sound.calls (hs : s.Sound) (hknows : Knows call s)
    (hcalls : s.Calls producer call moved next) : next.Sound := by
  cases hcalls with
  | swap =>
    refine ⟨hs.follows, hs.loop, hs.capacity, nofun, fun hstopped => ?_⟩
    obtain ⟨hlaunched, -, hselect⟩ := hs.stopped hstopped
    exact ⟨hlaunched, rfl, hselect⟩
  | sendStop =>
    obtain ⟨hlaunched, hrunning⟩ := hknows rfl
    refine ⟨hs.follows, hs.loop, (offer_capacity _ _).trans hs.capacity, hs.running,
      fun _ => ⟨hlaunched, hrunning, fun _ => offer_items_ne_nil ?_ _⟩⟩
    rw [hs.capacity]
    decide
  | sendControl control ctrl hsend =>
    obtain ⟨-, hcapacity, hitems⟩ := send?_eq_some hsend
    refine ⟨hs.follows, hs.loop, hcapacity.trans hs.capacity, hs.running, fun hstopped => ?_⟩
    obtain ⟨hlaunched, hrunning, -⟩ := hs.stopped hstopped
    refine ⟨hlaunched, hrunning, fun _ => ?_⟩
    rw [hitems]
    simp
  | _ => exact ⟨hs.follows, hs.loop, hs.capacity, hs.running, hs.stopped⟩

theorem Knows.calls {other} (hother : Knows other s) (hcalls : s.Calls producer call moved next) :
    Knows other next := by
  intro heq
  obtain ⟨hlaunched, hrunning⟩ := hother heq
  cases hcalls with
  | swap => exact ⟨hlaunched, rfl⟩
  | _ => exact ⟨hlaunched, hrunning⟩

theorem Knows.after (hs : s.Sound) (hcalls : s.Calls producer call moved next) :
    Knows moved next := by
  intro heq
  cases hcalls with
  | swap hrunning => exact ⟨hs.running hrunning, rfl⟩
  | pass _ _ hmoved => exact absurd heq hmoved
  | _ => cases heq

theorem Knows.starts {call} (hknows : Knows call s) (hstarts : s.Starts next) :
    Knows call next := by
  intro heq
  obtain ⟨hlaunched, hrunning⟩ := hknows heq
  cases hstarts with
  | base n hstarts =>
    cases hstarts with
    | call hstart | succeed hstart | fail hstart | store hstart =>
      rw [hstart] at hlaunched
      exact absurd hlaunched id
  | launch => exact ⟨trivial, hrunning⟩

theorem Knows.readies {call} (hknows : Knows call s) {n} (hreadies : s.toBaseNode.Readies n) :
    Knows call { s with toBaseNode := n } := by
  cases hreadies <;> exact hknows

theorem Knows.loops {call} (hknows : Knows call s) (hloops : s.Loops next) : Knows call next := by
  intro heq
  obtain ⟨hlaunched, hrunning⟩ := hknows heq
  cases hloops with
  | clearRunning => exact ⟨hlaunched, rfl⟩
  | _ => exact ⟨hlaunched, hrunning⟩

end NodeShared

namespace LoopNode

abbrev Lifecycle (c : LoopNode Value) : Prop :=
  Outline NodeShared.Sound NodeShared.Knows (fun _ _ => True) c

theorem initial_lifecycle : Lifecycle (initial : LoopNode Value) :=
  .start _ ⟨rfl, nofun, rfl, nofun, nofun⟩

theorem step_lifecycle {c d : LoopNode Value} {label} (hc : Lifecycle c)
    (hstep : c.step label = some d) : Lifecycle d := by
  have hs := hc.shared
  cases label with
  | start succeeds =>
    obtain ⟨s, hstart, rfl⟩ := map_eq_some_iff.mp hstep
    have hstarts := NodeShared.starts_of_startStep hstart
    exact hc.environment (hs.starts hstarts) fun _ hknows => hknows.starts hstarts
  | ready =>
    obtain ⟨s, hready, rfl⟩ := map_eq_some_iff.mp hstep
    obtain ⟨n, hbase, rfl⟩ := map_eq_some_iff.mp hready
    have hreadies := BaseNode.readies_of_readyStep hbase
    exact hc.environment (hs.readies hreadies) fun _ hknows => hknows.readies hreadies
  | loop label =>
    obtain ⟨s, hloop, rfl⟩ := map_eq_some_iff.mp hstep
    have hloops := NodeShared.loops_of_loopStep hloop
    exact hc.environment (hs.loops hloops) fun _ hknows => hknows.loops hloops
  | spawn =>
    cases hstep
    exact hc.spawn nofun fun _ => ⟨trivial, trivial⟩
  | request i request =>
    obtain ⟨hi, rfl⟩ := request_eq_some hstep
    refine hc.update hi hs ?_ fun _ _ hother _ _ => ⟨hother, trivial, trivial⟩
    intro heq
    cases request <;> cases heq
  | call i sends =>
    obtain ⟨call, moved, shared, hi, hcalls, rfl⟩ := call_eq_some hstep
    exact hc.update hi (hs.calls (hc.asserted i call hi) hcalls) (.after hs hcalls)
      fun _ _ hother _ _ => ⟨hother.calls hcalls, trivial, trivial⟩
  | cancel =>
    cases hstep
    exact hc.environment ⟨hs.follows, hs.loop, hs.capacity, hs.running, hs.stopped⟩
      fun _ hother => hother

/-- In every run the callbacks other than `OnReady` follow the protocol of a
plugin, and the loop winds down after `Stop` or a cancellation. -/
theorem run_lifecycle (labels : List (Label Value)) {final : LoopNode Value}
    (hrun : run step initial labels = some final) :
    final.shared.SerialCallbacks ∧ final.shared.Winds := by
  have hfinal : Lifecycle final :=
    run_invariant Lifecycle step_lifecycle
      initial_lifecycle hrun
  exact ⟨hfinal.shared.follows.serial, hfinal.shared.winds⟩

/-- Labels of a start and of a `Stop` that finds the loop in its inner select. -/
def startStopLabels : List (Label Unit) :=
  List.replicate 4 (Label.start true) ++ List.replicate 2 (Label.loop .proceed) ++
    [Label.spawn, .request 0 .stop, .call 0 true, .call 0 true]

theorem run_lifecycle_stopped :
    ∃ final, run step initial startStopLabels = some final ∧
      final.shared.stopReturned = true ∧ final.shared.loop = .inner ∧
      final.shared.SerialCallbacks ∧ final.shared.Winds :=
  ⟨_, rfl, rfl, rfl, run_lifecycle startStopLabels rfl⟩

end LoopNode

end Voce.Engine
