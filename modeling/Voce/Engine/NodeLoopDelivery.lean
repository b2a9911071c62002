import Voce.Engine.NodeLoopLifecycle
import Voce.Foundation.Consumer

/-! # Delivery of events by a node's loop

A channel hands out what was placed in it in order, the loop calls the plugin
with everything it receives, and a send that the node accepts either places its
event or loses a media event. So the events of one kind and one producer are
handled in the order they were sent. The loop's two selects give signals
priority over all other events.
-/

namespace Voce.Engine

open NodeShared Option Transition

variable {Value : Type}

/-- What became of the events of one kind that one producer sent to one node. -/
structure Delivery (Event : Type) where
  completed : List Event
  handled : List Event
  queued : List Event

namespace Delivery

variable {Event : Type}

def ofMailbox (mailbox : Mailbox Event) (select : Event → Prop) [DecidablePred select] :
    Delivery Event where
  completed := mailbox.offered.filter select
  handled := mailbox.handled.filter select
  queued := mailbox.items.filter select

/-- Events are handled in the order they were sent, each once at most. -/
def InOrder (d : Delivery Event) : Prop := d.handled.Sublist d.completed

/-- The handled events followed by the queued ones are all events that were
sent. -/
def Lossless (d : Delivery Event) : Prop := d.handled ++ d.queued = d.completed

end Delivery

namespace NodeShared

def delivery (s : NodeShared Value) (producer : Nat) (kind : EventKind) :
    Delivery (SentEvent Value) :=
  .ofMailbox (s.events kind) (·.producer = producer)

/-- The loop has called `OnStop` or is about to. -/
def Wound (s : NodeShared Value) : Prop :=
  s.loop = .stopping ∨ s.loop = .onStop ∨ s.loop = .draining ∨ s.loop = .exited

def consumer (s : NodeShared Value) : Consumer EventKind (SentEvent Value) :=
  ⟨s.events, s.Wound, s.loop = .inner, s.running = true, s.ctxDone⟩

/-- A step of the consumer. Signals are urgent, and media events may be lost. -/
abbrev Consumes (s next : NodeShared Value) : Prop :=
  Consumer.Step .signal (fun kind _ => ¬ kind.Media) s.consumer next.consumer

abbrev Delivers (s : NodeShared Value) : Prop :=
  s.consumer.Delivers fun kind _ => ¬ kind.Media

variable {s next : NodeShared Value}

theorem Delivers.lossless (hs : s.Delivers) (hlive : s.ctxDone = false)
    (hrunning : s.running = true) (producer : Nat) {kind} (hkind : ¬ kind.Media) :
    (s.delivery producer kind).Lossless :=
  (hs.keeps hlive kind).handled_append_items
    (hs.undrained (fun hwound => hs.wound hwound hrunning) kind) fun _ _ => hkind

/-- A step that leaves the channels alone. -/
theorem consumes_stay (hevents : next.events = s.events) (hwound : s.Wound → next.Wound)
    (hloop : next.loop = .inner → s.loop = .inner)
    (hrunning : (s.Wound → ¬ s.running = true) → next.Wound → ¬ next.running = true)
    (hdone : s.ctxDone = true → next.ctxDone = true) : s.Consumes next := by
  rw [Consumes, consumer, consumer, hevents]
  exact .stay _ _ _ _ hwound (by simpa using hloop) hrunning hdone

/-- A step of a loop that has not called `OnStop`. -/
theorem consumes_early (hevents : next.events = s.events) (hbefore : ¬ s.Wound)
    (hafter : ¬ next.Wound) (hloop : next.loop ≠ .inner) (hdone : next.ctxDone = s.ctxDone) :
    s.Consumes next :=
  consumes_stay hevents (fun h => absurd h hbefore) (fun h => absurd h hloop)
    (fun _ h => absurd h hafter) (hdone.trans)

theorem consumes_starts (hsound : s.Sound) (hstarts : s.Starts next) : s.Consumes next := by
  have habsent (hstart : s.start ≠ .returned) : ¬ s.Wound := by
    intro hwound
    refine hstart (hsound.loop ?_)
    rcases hwound with h | h | h | h <;> simp [h]
  cases hstarts with
  | base n hstarts =>
    cases hstarts with
    | store hstart =>
      exact consumes_stay rfl id id (fun _ h => absurd h (habsent (by rw [hstart]; nofun))) id
    | _ => exact consumes_stay rfl id id id id
  | launch hstart =>
    exact consumes_early rfl (habsent (by rw [hstart]; nofun))
      nofun nofun rfl

theorem consumes_loops (hloops : s.Loops next) : s.Consumes next := by
  cases hloops with
  | receive kind event mailbox hphase hreceive =>
    have hbefore : ¬ s.Wound := by
      rcases hphase with ⟨hphase, -⟩ | hphase <;> simp [Wound, hphase]
    have hkind : kind = .signal ∨ s.consumer.committed = true :=
      hphase.imp And.right decide_eq_true
    exact .receive kind event mailbox _ hbefore nofun hkind
      hreceive
  | wait hphase hlive hsignals =>
    exact .commit _ (by simp [consumer, Wound, hphase]) nofun
      hsignals
  | drain kind mailbox hphase hdrain =>
    exact .drain kind mailbox (.inr (.inr (.inl hphase))) hdrain
  | leave hphase =>
    refine consumes_early rfl ?_ nofun nofun rfl
    rcases hphase with ⟨hphase, -⟩ | ⟨hphase | hphase, -⟩ <;> simp [Wound, hphase]
  | receiveStop _ hphase | receiveControl _ _ hphase =>
    refine consumes_early rfl ?_ nofun nofun rfl
    rcases hphase with hphase | hphase <;> simp [Wound, hphase]
  | select hphase | eventReturns _ hphase | controlReturns _ hphase =>
    exact consumes_early rfl (by simp [Wound, hphase])
      nofun nofun rfl
  | clearRunning => exact consumes_stay rfl (fun _ => .inl rfl) nofun (fun _ _ => nofun) id
  | callStop hphase =>
    exact consumes_stay rfl (fun _ => .inr (.inl rfl)) nofun (fun h _ => h (.inl hphase)) id
  | stopReturns hphase =>
    exact consumes_stay rfl (fun _ => .inr (.inr (.inl rfl))) nofun
      (fun h _ => h (.inr (.inl hphase))) id
  | exit hphase =>
    exact consumes_stay rfl (fun _ => .inr (.inr (.inr rfl))) nofun
      (fun h _ => h (.inr (.inr (.inl hphase)))) id

theorem consumes_calls {producer call moved} (hcalls : s.Calls producer call moved next) :
    s.Consumes next := by
  cases hcalls with
  | swap => exact consumes_stay rfl id id (fun _ _ => nofun) id
  | send kind value mailbox hsend => exact .send kind _ mailbox hsend
  | drop kind value call hlost => exact .lose kind _ (hlost.imp id not_not_intro)
  | _ => exact consumes_stay rfl id id id id

/-! ## Priority of signals -/

/-- The loop as a two-stage selection in which signals are urgent. -/
def selection (s : NodeShared Value) : PrioritySelect where
  placed := (s.events .signal).placed.length
  handled := (s.events .signal).handled.length
  started := (s.events .payload).handled.length + (s.events .audio).handled.length +
    (s.events .video).handled.length
  committed := s.loop = .inner

theorem selection_eq (s : NodeShared Value) :
    s.selection = s.consumer.selection .signal [.payload, .audio, .video] := by
  simp [selection, Consumer.selection, consumer, add_assoc]

end NodeShared

/-! ## Runs -/

namespace LoopNode

variable {c d : LoopNode Value} {label : Label Value}

theorem step_consumes (hc : Lifecycle c) (hstep : c.step label = some d) :
    c.shared.Consumes d.shared := by
  have hstay : c.shared.Consumes c.shared := consumes_stay rfl id id id id
  cases label with
  | start succeeds =>
    obtain ⟨s, hstart, rfl⟩ := map_eq_some_iff.mp hstep
    exact consumes_starts hc.shared (starts_of_startStep hstart)
  | ready =>
    obtain ⟨s, hready, rfl⟩ := map_eq_some_iff.mp hstep
    obtain ⟨n, hbase, rfl⟩ := map_eq_some_iff.mp hready
    cases BaseNode.readies_of_readyStep hbase <;> exact consumes_stay rfl id id id id
  | loop label =>
    obtain ⟨s, hloop, rfl⟩ := map_eq_some_iff.mp hstep
    exact consumes_loops (loops_of_loopStep hloop)
  | spawn =>
    cases hstep
    exact hstay
  | request i request =>
    obtain ⟨-, rfl⟩ := request_eq_some hstep
    exact hstay
  | call i sends =>
    obtain ⟨call, moved, shared, -, hcalls, rfl⟩ := call_eq_some hstep
    exact consumes_calls hcalls
  | cancel =>
    cases hstep
    exact consumes_stay rfl id id id fun _ => rfl

structure Delivering (c : LoopNode Value) : Prop where
  lifecycle : Lifecycle c
  delivers : c.shared.Delivers

theorem step_delivering (hc : Delivering c) (hstep : c.step label = some d) :
    Delivering d ∧ PrioritySelect.Step c.shared.selection d.shared.selection := by
  have hconsumes := step_consumes hc.lifecycle hstep
  refine ⟨⟨step_lifecycle hc.lifecycle hstep, hc.delivers.step hconsumes⟩, ?_⟩
  rw [selection_eq, selection_eq]
  exact Consumer.selection_step hc.delivers (by decide) (by decide)
    (by rintro (_ | _) h <;> simp at h ⊢) hconsumes

theorem run_delivering {labels : List (Label Value)} {final : LoopNode Value}
    (hrun : run step initial labels = some final) : Delivering final := by
  have hinitial : Delivering (initial : LoopNode Value) := by
    refine ⟨initial_lifecycle, ?_, fun _ _ => rfl, fun _ _ => rfl⟩
    rintro (h | h | h | h) <;> cases h
  exact run_invariant Delivering (fun hc hstep => (step_delivering hc hstep).1)
    hinitial hrun

end LoopNode

end Voce.Engine
