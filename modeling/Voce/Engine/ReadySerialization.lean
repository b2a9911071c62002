import Voce.Engine.WorkerShutdown
import Voce.Remote.CallSlot

/-! # Serialization of `OnReady`

`OnReady` is called while the loop of the node, or its worker, already handles
events. It is serialized with the other callbacks only if it begins when nothing
of the node is under way, and if nothing new is queued and no stop takes effect
until it returns.
-/

namespace Voce.Engine

open Interleaving LoopNode Transition Function Option BaseNode List

variable {Value : Type}

/-- `OnReady` is alone, and takes no event's call slot away. -/
structure ReadySerialized (trace : List Observation) : Prop where
  alone : Observation.ReadyAlone trace
  slot : Remote.SlotKept trace

/-! ## Thread per node -/

namespace NodeShared

/-- The node runs, nothing is queued, and the loop waits or is about to. -/
structure Calm (s : NodeShared Value) : Prop where
  running : s.running = true
  live : s.ctxDone = false
  events : ∀ kind, (s.events kind).items = []
  controls : s.ctrl.items = []
  waits : s.loop = .top ∨ s.loop = .outer ∨ s.loop = .inner

theorem calm_iff {s : NodeShared Value} : s.Calm ↔
    (s.running = true ∧ s.ctxDone = false ∧ s.ctrl.items = [] ∧
      (s.loop = .top ∨ s.loop = .outer ∨ s.loop = .inner)) ∧
    (s.events .signal).items = [] ∧ (s.events .payload).items = [] ∧
      (s.events .audio).items = [] ∧ (s.events .video).items = [] := by
  constructor
  · rintro ⟨hrunning, hlive, hevents, hcontrols, hwaits⟩
    exact ⟨⟨hrunning, hlive, hcontrols, hwaits⟩, hevents _, hevents _, hevents _, hevents _⟩
  · rintro ⟨⟨hrunning, hlive, hcontrols, hwaits⟩, hsignal, hpayload, haudio, hvideo⟩
    refine ⟨hrunning, hlive, fun kind => ?_, hcontrols, hwaits⟩
    cases kind <;> assumption

instance [DecidableEq Value] (s : NodeShared Value) : Decidable s.Calm :=
  decidable_of_iff' _ calm_iff

end NodeShared

/-- The next step of the goroutine may queue something or stop the node. -/
def NodeCall.Disturbs : NodeCall Value → Prop
  | .stopSwap | .controlSelect _ | .inputSelect _ _ => True
  | .idle | .stopSend | .controlCheck _ | .controlErr _ | .inputCheck _ _ | .inputErr _ _ => False

instance : ∀ call : NodeCall Value, Decidable call.Disturbs := by
  intro call
  rcases call <;> unfold NodeCall.Disturbs <;> infer_instance

namespace LoopNode

/-- `OnReady` begins in a calm node, which nothing disturbs until it returns. -/
def ReadyCalm (c : LoopNode Value) : Label Value → Prop
  | .ready => c.shared.ready = .call → c.shared.Calm
  | .call i _ => c.shared.ready = .onReady → ∀ call ∈ c.phases[i]?, ¬ call.Disturbs
  | .cancel => c.shared.ready ≠ .onReady
  | .start _ | .loop _ | .spawn | .request _ _ => True

instance [DecidableEq Value] (c : LoopNode Value) : ∀ label, Decidable (c.ReadyCalm label) := by
  intro label
  rcases label <;> unfold ReadyCalm <;> infer_instance

end LoopNode

namespace NodeShared

/-- The loop's callback. -/
def Runs (s : NodeShared Value) (callback : Callback) : Prop := s.loop.callback = some callback

/-- What holds between any two steps of a run in which `OnReady` is not disturbed. -/
structure Undisturbed (s : NodeShared Value) : Prop where
  serialized : s.toBaseNode.Serialized s.Runs
  calm : s.ready = .onReady → s.Calm
  cleared : s.loop = .stopping → s.running = false

variable {s next : NodeShared Value}

theorem runs_foreign (s : NodeShared Value) : Foreign s.Runs := by
  have hneither : ∀ callback, s.Runs callback → callback ≠ .onStart ∧ callback ≠ .onReady := by
    intro callback hruns
    rw [Runs] at hruns
    cases hloop : s.loop with
    | event kind | onStop =>
      cases hloop ▸ hruns
      exact ⟨nofun, nofun⟩
    | control type =>
      cases hloop ▸ hruns
      cases type <;> exact ⟨nofun, nofun⟩
    | _ =>
      cases hloop ▸ hruns
  exact ⟨fun hruns => (hneither _ hruns).1 rfl, fun hruns => (hneither _ hruns).2 rfl⟩

theorem Calm.not_runs (hcalm : s.Calm) (callback : Callback) : ¬ s.Runs callback := by
  rcases hcalm.waits with hloop | hloop | hloop <;> simp [Runs, hloop, NodeLoopPhase.callback]

variable (hs : s.Undisturbed)
include hs

theorem Undisturbed.starts (hsound : s.Sound) (hstarts : s.Starts next) : next.Undisturbed := by
  have habsent : s.start ≠ .returned → s.loop = .absent := by
    intro hstart
    by_contra hloop
    exact hstart (hsound.loop hloop)
  have hnotReady : s.start ≠ .returned → s.ready ≠ .onReady := by
    intro hstart hready
    exact hstart (hs.serialized.called (by rw [hready]; nofun))
  cases hstarts with
  | base n hstarts =>
    have hunreturned := hstarts.unreturned
    refine ⟨hs.serialized.starts s.runs_foreign hstarts, fun hready => ?_, fun hloop => ?_⟩
    · cases hstarts with
      | _ => exact absurd hready (hnotReady hunreturned)
    · cases (habsent hunreturned).symm.trans hloop
  | launch hstart =>
    have hunreturned : s.start ≠ .returned := by rw [hstart]; nofun
    refine ⟨?_, fun hready => absurd hready (hnotReady hunreturned), nofun⟩
    refine hs.serialized.starting hunreturned hs.serialized.alone ?_ rfl id
    refine hs.serialized.accounted.mono fun callback hactive => ?_
    rcases hactive with ⟨-, heq⟩ | hready | hruns
    · cases hstart.symm.trans heq
    · exact .inr (.inl hready)
    · rw [Runs, habsent hunreturned] at hruns
      cases hruns

omit hs in
theorem Calm.of_eq (hcalm : s.Calm) (hrunning : next.running = s.running)
    (hlive : next.ctxDone = s.ctxDone) (hevents : next.events = s.events)
    (hctrl : next.ctrl = s.ctrl)
    (hwaits : next.loop = .top ∨ next.loop = .outer ∨ next.loop = .inner) : next.Calm := by
  refine ⟨?_, ?_, ?_, ?_, hwaits⟩
  · rw [hrunning, hcalm.running]
  · rw [hlive, hcalm.live]
  · rw [hevents]
    exact hcalm.events
  · rw [hctrl, hcalm.controls]

theorem Undisturbed.readies (hbegin : s.ready = .call → s.Calm) {n}
    (hreadies : s.toBaseNode.Readies n) : { s with toBaseNode := n }.Undisturbed := by
  have hserialized : n.Serialized s.Runs :=
    hs.serialized.readies s.runs_foreign
      (fun hready => ⟨(hbegin hready).running, (hbegin hready).not_runs⟩) hreadies
  cases hreadies with
  | enter hready =>
    have hcalm := hbegin hready
    exact ⟨hserialized, fun _ => hcalm.of_eq rfl rfl rfl rfl hcalm.waits, hs.cleared⟩
  | _ => exact ⟨hserialized, nofun, hs.cleared⟩

omit hs in
/-- In a calm node the loop only moves on to its select. -/
theorem Calm.loops (hcalm : s.Calm) (hloops : s.Loops next) :
    next.Calm ∧ next.toBaseNode = s.toBaseNode := by
  have hidle : ∀ phase, s.loop = phase → phase = .top ∨ phase = .outer ∨ phase = .inner := by
    rintro phase rfl
    exact hcalm.waits
  cases hloops with
  | leave hphase =>
    have hends : s.ctxDone = true ∨ s.running = false := by
      rcases hphase with ⟨-, hends⟩ | ⟨-, hdone⟩
      · exact hends
      · exact .inl hdone
    rw [hcalm.live, hcalm.running] at hends
    simp at hends
  | select => exact ⟨hcalm.of_eq rfl rfl rfl rfl (.inr (.inl rfl)), rfl⟩
  | wait => exact ⟨hcalm.of_eq rfl rfl rfl rfl (.inr (.inr rfl)), rfl⟩
  | receive kind event mailbox _ hreceive =>
    obtain ⟨-, -, -, -, hitems⟩ := Mailbox.receive?_eq_some hreceive
    cases (hcalm.events kind).symm.trans hitems
  | receiveStop ctrl _ hreceive | receiveControl _ ctrl _ hreceive =>
    cases hcalm.controls.symm.trans (Channel.receive?_eq_some hreceive).1
  | eventReturns _ hphase | controlReturns _ hphase | clearRunning hphase | callStop hphase
  | stopReturns hphase | drain _ _ hphase | exit hphase =>
    rcases hidle _ hphase with h | h | h <;> cases h

/-- The loop moves without a callback. -/
theorem Undisturbed.moves (hready : s.ready ≠ .onReady) (hnone : s.loop.callback = none)
    (hrunning : next.running = true → s.running = true)
    (hcleared : next.loop = .stopping → next.running = false)
    (hbase : next.start = s.start ∧ next.ready = s.ready ∧ next.trace = s.trace) :
    next.Undisturbed := by
  obtain ⟨hstart, hsame, htrace⟩ := hbase
  refine ⟨hs.serialized.frame htrace hstart hsame hrunning fun callback hruns => ?_, fun h => ?_,
    hcleared⟩
  · rw [Runs, hnone] at hruns
    cases hruns
  · exact absurd (hsame.symm.trans h) hready

/-- The loop calls the plugin. -/
theorem Undisturbed.enters (hready : s.ready ≠ .onReady) (hnone : s.loop.callback = none) {callback}
    (hcallback : next.loop.callback = some callback)
    (hstop : callback = .onStop → s.start = .returned ∧ s.running = false)
    (hbase : next.toBaseNode = s.toBaseNode.observe (.enter callback)) : next.Undisturbed := by
  have hforeign := next.runs_foreign
  refine ⟨?_, fun h => ?_, fun h => ?_⟩
  · rw [hbase]
    refine hs.serialized.enter s.runs_foreign hready ?_ ⟨?_, ?_⟩ hstop fun entered hactive => ?_
    · rw [Runs, hnone]
      nofun
    · rintro rfl
      exact hforeign.1 hcallback
    · rintro rfl
      exact hforeign.2 hcallback
    · rcases hactive with hruns | rfl
      · rw [Runs, hnone] at hruns
        cases hruns
      · exact hcallback
  · rw [hbase] at h
    exact absurd h hready
  · rw [h] at hcallback
    cases hcallback

/-- A callback of the loop returns. -/
theorem Undisturbed.leaves (hready : s.ready ≠ .onReady) {callback}
    (hcallback : s.loop.callback = some callback) (hcleared : next.loop ≠ .stopping)
    (hbase : next.toBaseNode = s.toBaseNode.observe (.leave callback)) : next.Undisturbed := by
  refine ⟨?_, fun h => ?_, fun h => absurd h hcleared⟩
  · rw [hbase]
    refine hs.serialized.leave fun running hne hruns => absurd ?_ hne
    exact some.inj (hruns.symm.trans hcallback)
  · rw [hbase] at h
    exact absurd h hready

theorem Undisturbed.loops (hsound : s.Sound) (hloops : s.Loops next) : next.Undisturbed := by
  by_cases hready : s.ready = .onReady
  · obtain ⟨hcalm, hbase⟩ := (hs.calm hready).loops hloops
    refine ⟨?_, fun _ => hcalm, fun hloop => ?_⟩
    · rw [hbase]
      exact hs.serialized.frame rfl rfl rfl id fun callback hruns =>
        absurd hruns ((hs.calm hready).not_runs callback)
    · rcases hcalm.waits with h | h | h <;> cases h.symm.trans hloop
  · cases hloops with
    | leave hphase =>
      refine hs.moves hready ?_ id nofun ⟨rfl, rfl, rfl⟩
      rcases hphase with ⟨hphase, -⟩ | ⟨hphase | hphase, -⟩ <;> rw [hphase] <;> rfl
    | select hphase | wait hphase | exit hphase =>
      exact hs.moves hready (by rw [hphase]; rfl) id nofun ⟨rfl, rfl, rfl⟩
    | clearRunning hphase =>
      exact hs.moves hready (by rw [hphase]; rfl) nofun (fun _ => rfl) ⟨rfl, rfl, rfl⟩
    | drain kind mailbox hphase =>
      exact hs.moves hready (by rw [hphase]; rfl) id hs.cleared ⟨rfl, rfl, rfl⟩
    | receive kind event mailbox hphase =>
      refine hs.enters hready ?_ rfl ?_ rfl
      · rcases hphase with ⟨hphase, -⟩ | hphase <;> rw [hphase] <;> rfl
      · nofun
    | receiveStop ctrl hphase =>
      refine hs.moves hready ?_ id nofun ⟨rfl, rfl, rfl⟩
      rcases hphase with hphase | hphase <;> rw [hphase] <;> rfl
    | receiveControl type ctrl hphase =>
      refine hs.enters hready ?_ rfl ?_ rfl
      · rcases hphase with hphase | hphase <;> rw [hphase] <;> rfl
      · cases type <;> nofun
    | callStop hphase =>
      refine hs.enters hready (by rw [hphase]; rfl) rfl (fun _ => ?_) rfl
      exact ⟨hsound.loop (by rw [hphase]; nofun), hs.cleared hphase⟩
    | eventReturns kind hphase | controlReturns type hphase | stopReturns hphase =>
      exact hs.leaves hready (by rw [hphase]; rfl) nofun rfl

theorem Undisturbed.calls {producer call moved} (hknows : Knows call s)
    (hcalm : s.ready = .onReady → ¬ call.Disturbs) (hcalls : s.Calls producer call moved next) :
    next.Undisturbed := by
  cases hcalls with
  | swap =>
    refine ⟨hs.serialized.frame rfl rfl rfl nofun fun _ => id, fun hready => ?_, fun _ => rfl⟩
    exact absurd trivial (hcalm hready)
  | sendStop =>
    refine ⟨hs.serialized, fun hready => ?_, hs.cleared⟩
    -- the goroutine has taken the running flag of a calm node
    cases (hs.calm hready).running.symm.trans (hknows rfl).2
  | sendControl | send =>
    exact ⟨hs.serialized, fun hready => absurd trivial (hcalm hready), hs.cleared⟩
  | drop kind value =>
    refine ⟨hs.serialized, fun hready => ?_, hs.cleared⟩
    obtain ⟨hrunning, hlive, hevents, hcontrols, hwaits⟩ := hs.calm hready
    refine ⟨hrunning, hlive, fun other => ?_, hcontrols, hwaits⟩
    by_cases hother : other = kind
    · subst hother
      simpa [lose] using hevents other
    · simpa [lose, hother] using hevents other
  | pass => exact hs

end NodeShared

namespace LoopNode

theorem step_undisturbed {c d : LoopNode Value} {label} (hlife : Lifecycle c)
    (hs : c.shared.Undisturbed) (hcalm : c.ReadyCalm label) (hstep : c.step label = some d) :
    d.shared.Undisturbed := by
  cases label with
  | start succeeds =>
    obtain ⟨s, hstart, rfl⟩ := map_eq_some_iff.mp hstep
    exact hs.starts hlife.shared (NodeShared.starts_of_startStep hstart)
  | ready =>
    obtain ⟨s, hready, rfl⟩ := map_eq_some_iff.mp hstep
    obtain ⟨n, hbase, rfl⟩ := map_eq_some_iff.mp hready
    exact hs.readies hcalm (readies_of_readyStep hbase)
  | loop label =>
    obtain ⟨s, hloop, rfl⟩ := map_eq_some_iff.mp hstep
    exact hs.loops hlife.shared (NodeShared.loops_of_loopStep hloop)
  | spawn =>
    cases hstep
    exact hs
  | request i request =>
    obtain ⟨-, rfl⟩ := request_eq_some hstep
    exact hs
  | call i sends =>
    obtain ⟨call, moved, shared, hi, hcalls, rfl⟩ := call_eq_some hstep
    exact hs.calls (hlife.asserted i call hi) (fun hready => hcalm hready call hi) hcalls
  | cancel =>
    cases hstep
    exact ⟨hs.serialized, fun hready => absurd hready hcalm, hs.cleared⟩

theorem run_undisturbed {labels} {final : LoopNode Value}
    (hcalm : Meets step ReadyCalm initial labels)
    (hrun : run step initial labels = some final) : final.shared.Undisturbed := by
  have hinitial : (initial : LoopNode Value).shared.Undisturbed :=
    ⟨serialized_initial, nofun, nofun⟩
  exact (run_invariant_of_meets (fun c : LoopNode Value => Lifecycle c ∧ c.shared.Undisturbed)
    (fun hc hok hstep => ⟨step_lifecycle hc.1 hstep, step_undisturbed hc.1 hc.2 hok hstep⟩)
    ⟨initial_lifecycle, hinitial⟩ hcalm hrun).2

end LoopNode

/-! ## Worker pool -/

/-- The next step of the goroutine queues a task of a node that is in `OnReady`, or
stops such a node. -/
def PoolCall.Disturbs (call : PoolCall Value) (s : PoolShared Value) (sends : Bool) : Prop :=
  match call with
  | .stopSwap i => (s.nodes i).ready = .onReady
  | .submitSelect task =>
    (s.nodes task.node).ready = .onReady ∧ sends = true ∧ s.Serves task.priority
  | _ => False

instance [DecidableEq Value] (s : PoolShared Value) (sends : Bool) :
    ∀ call : PoolCall Value, Decidable (call.Disturbs s sends)
  | .stopSwap i => inferInstanceAs (Decidable ((s.nodes i).ready = .onReady))
  | .submitSelect task => inferInstanceAs (Decidable
      ((s.nodes task.node).ready = .onReady ∧ sends = true ∧ s.Serves task.priority))
  | .idle | .stopCall _ | .onStop _ | .controlCheck _ _ | .inputCheck _ _ _ | .submitErr _ =>
    .isFalse id

namespace WorkerPool

/-- `OnReady` begins in a running node that has no task under way, and gets none
until it returns. -/
def ReadyCalm (c : WorkerPool Value) : Label Value → Prop
  | .ready i => (c.shared.nodes i).ready = .call →
      (c.shared.nodes i).running = true ∧ c.shared.Clear i
  | .call i sends => ∀ call ∈ c.phases[i]?, ¬ call.Disturbs c.shared sends
  | .start _ _ | .worker _ | .spawn | .request _ _ | .cancel => True

instance [DecidableEq Value] (c : WorkerPool Value) : ∀ label, Decidable (c.ReadyCalm label) := by
  intro label
  rcases label <;> unfold ReadyCalm <;> infer_instance

end WorkerPool

namespace PoolShared

/-- The callbacks of the node that the worker and `Stop` run. -/
def Runs (s : PoolShared Value) (i : Nat) (callback : Callback) : Prop :=
  s.busy i = some callback ∨ callback = .onStop ∧ (s.nodes i).stop = .running

/-- What holds between any two steps of a run in which no `OnReady` is disturbed. -/
structure Undisturbed (s : PoolShared Value) : Prop where
  serialized : ∀ i, (s.nodes i).toBaseNode.Serialized (s.Runs i)
  calm : ∀ i, (s.nodes i).ready = .onReady → (s.nodes i).running = true ∧ s.Clear i

variable {s next : PoolShared Value} {sends : Bool}

theorem busy_isTask {i callback} (hbusy : s.busy i = some callback) : callback.IsTask := by
  obtain ⟨task, -, rfl⟩ := map_eq_some_iff.mp hbusy
  exact task.callback_isTask

theorem runs_foreign (s : PoolShared Value) (i : Nat) : Foreign (s.Runs i) := by
  constructor
  · rintro (hbusy | ⟨heq, -⟩)
    · exact busy_isTask hbusy
    · cases heq
  · rintro (hbusy | ⟨heq, -⟩)
    · exact busy_isTask hbusy
    · cases heq

variable (hs : s.Undisturbed)
include hs

/-- A step on one node that adds no task. -/
theorem Undisturbed.move (i : Nat) {n} (hnodes : next.nodes = update s.nodes i n)
    (hexecute : ∀ task, next.MayExecute task → s.MayExecute task)
    (hbusy : ∀ j, j ≠ i → next.busy j = s.busy j)
    (hserialized : n.toBaseNode.Serialized fun callback => next.busy i = some callback ∨
      callback = .onStop ∧ n.stop = .running)
    (hcalm : n.ready = .onReady → n.running = true ∧ s.Clear i) : next.Undisturbed := by
  have hclear : ∀ j, s.Clear j → next.Clear j :=
    fun j hclear task htask => hclear task (hexecute task htask)
  refine ⟨fun j => ?_, fun j hready => ?_⟩
  · by_cases hj : j = i
    · subst hj
      unfold Runs
      rw [hnodes, update_self]
      exact hserialized
    · unfold Runs
      rw [hnodes, update_of_ne hj, hbusy j hj]
      exact hs.serialized j
  · by_cases hj : j = i
    · subst hj
      rw [hnodes, update_self] at hready ⊢
      exact ⟨(hcalm hready).1, hclear j (hcalm hready).2⟩
    · rw [hnodes, update_of_ne hj] at hready ⊢
      exact ⟨(hs.calm j hready).1, hclear j (hs.calm j hready).2⟩

theorem Undisturbed.frame (hnodes : next.nodes = s.nodes) (htask : next.worker.task = s.worker.task)
    (hexecute : ∀ task, next.MayExecute task → s.MayExecute task) : next.Undisturbed := by
  have hbusy : ∀ j, next.busy j = s.busy j := by
    intro j
    rw [busy, busy, htask]
  refine hs.move 0 (n := s.nodes 0) ?_ hexecute (fun j _ => hbusy j) ?_ (hs.calm 0)
  · rw [hnodes, update_eq_self]
  · rw [hbusy]
    exact hs.serialized 0

theorem Undisturbed.starts {i n} (hstarts : (s.nodes i).toBaseNode.Starts .returned n) :
    (s.setNode i { s.nodes i with toBaseNode := n }).Undisturbed := by
  refine hs.move i rfl (fun _ => id) (fun _ _ => rfl)
    ((hs.serialized i).starts (s.runs_foreign i) hstarts) fun hready => ?_
  have hbefore : (s.nodes i).ready = .onReady := by
    cases hstarts with
    | _ => exact hready
  exact absurd ((hs.serialized i).called (by rw [hbefore]; nofun)) hstarts.unreturned

theorem Undisturbed.readies (hflags : s.Flagged) {i}
    (hbegin : (s.nodes i).ready = .call → (s.nodes i).running = true ∧ s.Clear i) {n}
    (hreadies : (s.nodes i).toBaseNode.Readies n) :
    (s.setNode i { s.nodes i with toBaseNode := n }).Undisturbed := by
  have hidle : (s.nodes i).ready = .call →
      (s.nodes i).running = true ∧ ∀ callback, ¬ s.Runs i callback := by
    intro hready
    obtain ⟨hrunning, hclear⟩ := hbegin hready
    refine ⟨hrunning, ?_⟩
    rintro callback (hbusy | ⟨-, hstop⟩)
    · cases hclear.busy.symm.trans hbusy
    · cases (hflags.running i hrunning).2.symm.trans hstop
  refine hs.move i rfl (fun _ => id) (fun _ _ => rfl)
    ((hs.serialized i).readies (s.runs_foreign i) hidle hreadies) fun hready => ?_
  cases hreadies with
  | enter hcall => exact hbegin hcall
  | _ => cases hready

theorem Undisturbed.works (hworks : s.Works next) : next.Undisturbed := by
  have hexecute : ∀ task, next.MayExecute task → s.MayExecute task :=
    fun _ => MayExecute.of_works hworks
  have hnotReady : ∀ task, s.MayExecute task → (s.nodes task.node).ready ≠ .onReady :=
    fun task htask hready => (hs.calm task.node hready).2 task htask rfl
  cases hworks.executes with
  | stay hnodes htask => exact hs.frame hnodes htask hexecute
  | enter task htask hidle hbusy hnodes =>
    have hready := hnotReady task htask
    obtain ⟨hnotStart, hnotOnReady, hnotStop⟩ := task.callback_isTask.not_lifecycle
    refine hs.move task.node hnodes hexecute ?_ ?_ fun h => absurd h hready
    · intro j hj
      rw [busy_idle hidle, busy_of_ne hbusy hj]
    · refine (hs.serialized task.node).enter (s.runs_foreign _) hready ?_
        ⟨hnotStart, hnotOnReady⟩ (fun heq => absurd heq hnotStop) ?_
      · rintro (hruns | ⟨heq, -⟩)
        · cases (busy_idle hidle _).symm.trans hruns
        · exact hnotStop heq
      · rintro entered ((hruns | hstop) | rfl)
        · cases (busy_idle hidle _).symm.trans hruns
        · exact .inr hstop
        · exact .inl (busy_self hbusy)
  | leave task hbusy hidle hnodes =>
    refine hs.move task.node hnodes hexecute ?_ ?_ fun h => absurd h (hnotReady task (.inl hbusy))
    · intro j hj
      rw [busy_of_ne hbusy hj, busy_idle hidle]
    · refine (hs.serialized task.node).leave fun running hne hruns => ?_
      rcases hruns with hruns | hstop
      · exact absurd (some.inj ((busy_self hbusy).symm.trans hruns)).symm hne
      · exact .inr hstop

theorem Undisturbed.calls {call moved} (howns : Owns call s) (hcalm : ¬ call.Disturbs s sends)
    (hcalls : s.Calls sends call moved next) : next.Undisturbed := by
  have hstopping : ∀ i, call.Stops i → (s.nodes i).ready ≠ .onReady := by
    intro i hstops hready
    cases (hs.calm i hready).1.symm.trans (howns.stops i hstops).2
  cases hcalls with
  | swap i =>
    refine hs.move i rfl (fun _ => id) (fun _ _ => rfl) ?_ fun hready => absurd hready hcalm
    exact (hs.serialized i).frame rfl rfl rfl nofun fun _ => id
  | callStop i =>
    have hready := hstopping i rfl
    refine hs.move i rfl (fun _ => id) (fun _ _ => rfl) ?_ fun h => absurd h hready
    refine (hs.serialized i).enter (s.runs_foreign i) hready ?_ ⟨nofun, nofun⟩
      (fun _ => howns.stops i rfl) ?_
    · rintro (hbusy | ⟨-, hstop⟩)
      · exact busy_isTask hbusy
      · cases (howns.before i rfl).symm.trans hstop
    · rintro entered ((hbusy | ⟨heq, -⟩) | heq)
      · exact .inl hbusy
      · exact .inr ⟨heq, rfl⟩
      · exact .inr ⟨heq, rfl⟩
  | stopReturns i =>
    refine hs.move i rfl (fun _ => id) (fun _ _ => rfl) ?_ fun h => absurd h (hstopping i rfl)
    refine (hs.serialized i).leave fun running hne hruns => ?_
    exact .inl (hruns.resolve_right fun h => hne h.1)
  | send task mailbox hsend hsends =>
    refine ⟨hs.serialized, fun i hready => ⟨(hs.calm i hready).1, fun other hother => ?_⟩⟩
    rcases mayExecute_of_send hsend hother with hbefore | ⟨rfl, hserves⟩
    · exact (hs.calm i hready).2 other hbefore
    · rintro rfl
      exact hcalm ⟨hready, hsends, hserves⟩
  | drop task =>
    refine hs.frame rfl rfl fun other hother => ?_
    exact hother.frame (fun _ => id) (items_update (List.Subset.refl _)) .inl
  | _ => exact hs

end PoolShared

namespace WorkerPool

theorem step_undisturbed {c d : WorkerPool Value} {label} (hlife : Lifecycle c)
    (hs : c.shared.Undisturbed) (hcalm : c.ReadyCalm label) (hstep : c.step label = some d) :
    d.shared.Undisturbed := by
  cases label with
  | start i succeeds =>
    obtain ⟨n, hstart, rfl⟩ := map_eq_some_iff.mp hstep
    exact hs.starts (starts_of_startStep hstart)
  | ready i =>
    obtain ⟨n, hready, rfl⟩ := map_eq_some_iff.mp hstep
    exact hs.readies hlife.shared hcalm (readies_of_readyStep hready)
  | worker label =>
    obtain ⟨s, hworker, rfl⟩ := map_eq_some_iff.mp hstep
    exact hs.works (PoolShared.works_of_workerStep hworker)
  | spawn =>
    cases hstep
    exact hs
  | request i request =>
    obtain ⟨-, rfl⟩ := request_eq_some hstep
    exact hs
  | call i sends =>
    obtain ⟨call, moved, shared, hi, hcalls, rfl⟩ := call_eq_some hstep
    exact hs.calls (hlife.asserted i call hi) (hcalm call hi) hcalls
  | cancel =>
    cases hstep
    exact hs.frame rfl rfl fun _ htask =>
      htask.frame (fun _ => PoolShared.Serves.of_cancel) (fun _ => List.Subset.refl _) .inl

theorem run_undisturbed {queueSize labels} {final : WorkerPool Value}
    (hcalm : Meets step ReadyCalm (initial queueSize) labels)
    (hrun : run step (initial queueSize) labels = some final) :
    final.shared.Undisturbed := by
  have hinitial : (initial queueSize : WorkerPool Value).shared.Undisturbed :=
    ⟨fun _ => serialized_initial, nofun⟩
  exact (run_invariant_of_meets (fun c : WorkerPool Value => Lifecycle c ∧ c.shared.Undisturbed)
    (fun hc hok hstep => ⟨step_lifecycle hc.1 hstep, step_undisturbed hc.1 hc.2 hok hstep⟩)
    ⟨initial_lifecycle queueSize, hinitial⟩ hcalm hrun).2

end WorkerPool

/-! ## Both modes -/

theorem ReadySerialized.of_alone {trace} (halone : Observation.ReadyAlone trace) :
    ReadySerialized trace :=
  ⟨halone, Remote.slotKept_of_readyAlone halone⟩

/-- In both modes `OnReady` is serialized with the other callbacks in every run in
which it begins when nothing of the node is under way and nothing disturbs it until
it returns. -/
theorem run_readySerialized :
    (∀ (labels : List (Label Value)) (final : LoopNode Value),
      Meets step ReadyCalm .initial labels →
      run step .initial labels = some final →
      ReadySerialized final.shared.trace) ∧
    ∀ (queueSize : Int) (labels : List (WorkerPool.Label Value)) (final : WorkerPool Value),
      Meets WorkerPool.step WorkerPool.ReadyCalm (.initial queueSize) labels →
      run WorkerPool.step (.initial queueSize) labels = some final →
      ∀ i, ReadySerialized (final.shared.nodes i).trace := by
  constructor
  · intro labels final hcalm hrun
    exact .of_alone (run_undisturbed hcalm hrun).serialized.alone
  · intro queueSize labels final hcalm hrun i
    exact .of_alone ((WorkerPool.run_undisturbed hcalm hrun).serialized i).alone

/-- Labels of a start with its `OnReady`, after which a payload is handled. -/
def LoopNode.readyThenEventLabels : List (Label Unit) :=
  replicate 4 (Label.start true) ++ replicate 2 (Label.loop .proceed) ++
    replicate 4 Label.ready ++ [Label.spawn, .request 0 (.input .payload ())] ++
    replicate 3 (Label.call 0 true) ++ [Label.loop (.event .payload)]

/-- The same in a pool. -/
def WorkerPool.readyThenEventLabels : List (WorkerPool.Label Unit) :=
  replicate 3 (Label.start 0 true) ++ [Label.worker .proceed] ++
    replicate 4 (Label.ready 0) ++ [Label.spawn, .request 0 (.input 0 .payload ())] ++
    replicate 3 (Label.call 0 true) ++ [Label.worker (.task .normal)]

theorem run_readySerialized_then_event :
    (∃ final, run step .initial readyThenEventLabels = some final ∧
      .enter .onReady ∈ final.shared.trace ∧ ReadySerialized final.shared.trace) ∧
    ∃ final, run WorkerPool.step (.initial 1) WorkerPool.readyThenEventLabels =
        some final ∧
      .enter .onReady ∈ (final.shared.nodes 0).trace ∧
      ReadySerialized (final.shared.nodes 0).trace := by
  constructor
  · obtain ⟨final, hrun, hready⟩ := exists_of_decide (run step .initial readyThenEventLabels)
      (fun final => .enter .onReady ∈ final.shared.trace) (by decide +kernel)
    exact ⟨final, hrun, hready, run_readySerialized.1 _ final (by decide +kernel) hrun⟩
  · obtain ⟨final, hrun, hready⟩ := exists_of_decide
      (run WorkerPool.step (.initial 1) WorkerPool.readyThenEventLabels)
      (fun final => .enter .onReady ∈ (final.shared.nodes 0).trace) (by decide +kernel)
    exact ⟨final, hrun, hready, run_readySerialized.2 1 _ final (by decide +kernel) hrun 0⟩

/-- Labels of a start in which a payload arrives while `OnReady` runs. -/
def LoopNode.eventDuringReadyLabels : List (Label Unit) :=
  replicate 4 (Label.start true) ++ replicate 2 (Label.loop .proceed) ++
    replicate 3 Label.ready ++ [Label.spawn, .request 0 (.input .payload ())] ++
    replicate 3 (Label.call 0 true) ++ [Label.loop (.event .payload)]

/-- A payload from a node that is started already is handled while `OnReady` runs, and
in a remote plugin its call finds the slot taken. -/
theorem event_during_onReady :
    ∃ final, run step .initial eventDuringReadyLabels = some final ∧
      ¬ Observation.ReadyAlone final.shared.trace ∧ ¬ Remote.SlotKept final.shared.trace := by
  obtain ⟨final, hrun, hfinal⟩ := exists_of_decide (run step .initial eventDuringReadyLabels)
    (fun final => final.shared.trace =
      [.enter .onStart, .leave .onStart, .enter .onReady, .enter (.onEvent .payload)])
    (by decide +kernel)
  refine ⟨final, hrun, ?_, ?_⟩ <;> rw [hfinal]
  · intro halone
    exact halone.undisturbed [.enter .onStart, .leave .onStart, .enter .onReady]
      (.onEvent .payload) [] rfl (by decide)
  · intro hkept
    exact hkept false
      [.observe (.enter .onStart), .observe (.leave .onStart), .observe (.enter .onReady),
        .acquire .onReady, .observe (.enter (.onEvent .payload)), .acquire (.onEvent .payload)]
      _ rfl rfl .payload (by decide)

end Voce.Engine
