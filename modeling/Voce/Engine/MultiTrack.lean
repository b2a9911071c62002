import Voce.Foundation.Channel
import Voce.Foundation.Transition

/-! # Payload track of a multi-track node

A node's loop takes payloads from the node's queue and pushes each into the
track of its `MultiTrackPlugin`, which hands them to the wrapped plugin in a
goroutine of its own. The track's strategy is `BlockIfFull`. The context of a
push expires a fixed time after the loop took the payload. Time is the wall
clock in milliseconds; handlers take any time.
-/

namespace Voce.Engine

open Transition List Option Channel

def singleHandlerDeadline : Int := 100
def payloadBufferSize : Nat := 24

/-- A call of `pushBlockIfFull`: its item, and the deadline of its context. -/
structure Push (Payload : Type) where
  epoch : UInt32
  payload : Payload
  deadline : Int

inductive LoopPhase (Payload : Type) where
  | idle
  | busy
  /-- In `SendWithContext` before its check of the context. -/
  | checking (push : Push Payload)
  /-- In its select on the context and the channel. -/
  | sending (push : Push Payload)

def LoopPhase.push? {Payload : Type} : LoopPhase Payload → Option (Push Payload)
  | .checking push | .sending push => some push
  | .idle | .busy => none

inductive TrackPhase (Payload : Type) where
  | idle
  | handling (payload : Payload)

structure MultiTrack (Payload : Type) where
  clock : Int
  payloadChan : Channel Payload
  loop : LoopPhase Payload
  /-- The track's buffer: payloads with the epoch of their push. -/
  ch : Channel (UInt32 × Payload)
  epoch : UInt32
  signals : List String
  paused : Bool
  track : TrackPhase Payload
  accepted : List Payload
  handed : List Payload
  discarded : List Payload

namespace MultiTrack

variable {Payload : Type}

inductive Label (Payload : Type) where
  | tick (elapsed : Nat)
  | input (payload : Payload)
  /-- The loop takes an event that is not a payload, and finishes it. -/
  | takeOther
  | finishOther
  | takePayload
  | checkContext
  | send
  /-- The track's loop receives directly from the blocked send. -/
  | handOff
  | expire
  | receive
  | finishHandler
  | onPause
  | onResume
  | onSignal (name : String)

variable (s : MultiTrack Payload)

/-- A push gives up: its context has expired. -/
def discard (push : Push Payload) : MultiTrack Payload :=
  { s with loop := .idle, discarded := s.discarded ++ [push.payload] }

/-- The track's loop has received an item. A payload of a paused plugin or of an
earlier epoch is dropped. -/
def handle (item : UInt32 × Payload) : MultiTrack Payload :=
  if s.paused ∨ item.1 ≠ s.epoch then { s with discarded := s.discarded ++ [item.2] }
  else { s with track := .handling item.2, handed := s.handed ++ [item.2] }

def step : Label Payload → Option (MultiTrack Payload)
  | .tick elapsed => some { s with clock := s.clock + elapsed }
  | .input payload =>
    (s.payloadChan.send? payload).map fun queue =>
      { s with payloadChan := queue, accepted := s.accepted ++ [payload] }
  | .takeOther =>
    match s.loop with
    | .idle => some { s with loop := .busy }
    | _ => none
  | .finishOther =>
    match s.loop with
    | .busy => some { s with loop := .idle }
    | _ => none
  | .takePayload =>
    match s.loop with
    | .idle =>
      s.payloadChan.receive?.map fun received =>
        { s with
          payloadChan := received.2
          loop := .checking ⟨s.epoch, received.1, s.clock + singleHandlerDeadline⟩ }
    | _ => none
  | .checkContext =>
    match s.loop with
    | .checking push =>
      -- an error of the send is logged and the payload is gone
      if push.deadline ≤ s.clock then some (s.discard push)
      else some { s with loop := .sending push }
    | _ => none
  | .send =>
    match s.loop with
    | .sending push =>
      -- the select may take this branch even past the deadline
      (s.ch.send? (push.epoch, push.payload)).map fun ch => { s with ch := ch, loop := .idle }
    | _ => none
  | .handOff =>
    match s.loop, s.track with
    | .sending push, .idle =>
      -- the only way a send on an unbuffered channel succeeds
      if s.ch.items = [] then some ({ s with loop := .idle }.handle (push.epoch, push.payload))
      else none
    | _, _ => none
  | .expire =>
    match s.loop with
    | .sending push =>
      if push.deadline ≤ s.clock then some (s.discard push) else none
    | _ => none
  | .receive =>
    match s.track with
    | .idle => s.ch.receive?.map fun received => { s with ch := received.2 }.handle received.1
    | _ => none
  | .finishHandler =>
    match s.track with
    | .handling _ => some { s with track := .idle }
    | _ => none
  | .onPause =>
    match s.loop with
    | .idle => some { s with paused := true }
    | _ => none
  | .onResume =>
    match s.loop with
    | .idle => some { s with paused := false }
    | _ => none
  | .onSignal name =>
    match s.loop with
    | .idle => some { s with epoch := if name ∈ s.signals then s.epoch + 1 else s.epoch }
    | _ => none

def initial (clock : Int) (payloadCapacity trackCapacity : Nat) (signals : List String) :
    MultiTrack Payload :=
  ⟨clock, .empty payloadCapacity, .idle, .empty trackCapacity, 0, signals, false, .idle, [], [], []⟩

/-- Accepted payloads that were not handed over yet, oldest first. -/
def queued : List Payload :=
  s.ch.items.map Prod.snd ++ s.loop.push?.toList.map Push.payload ++ s.payloadChan.items

/-- Every accepted payload was handed over or waits, in order, and none was
discarded. -/
structure NothingLost (s : MultiTrack Payload) : Prop where
  conserved : s.accepted = s.handed ++ s.queued
  discarded : s.discarded = []

/-- The plugin is not paused and no signal interrupts the track. -/
def Undisturbed : Label Payload → Prop
  | .onPause => False
  | .onSignal name => name ∉ s.signals
  | _ => True

/-- Time does not reach the deadline of a push in progress. -/
def BeforeDeadline : Label Payload → Prop
  | .tick elapsed => ∀ push ∈ s.loop.push?, s.clock + elapsed < push.deadline
  | _ => True

/-- What the run keeps: nothing is lost so far, and neither the track nor the
push in progress holds an item that would be dropped. -/
structure Flowing (s : MultiTrack Payload) : Prop where
  nothingLost : s.NothingLost
  active : s.paused = false
  fresh : ∀ item ∈ s.ch.items, item.1 = s.epoch
  pushFresh : ∀ push ∈ s.loop.push?, push.epoch = s.epoch
  inTime : ∀ push ∈ s.loop.push?, s.clock < push.deadline

/-- An active track hands over an item of its epoch. -/
theorem handle_of_fresh {s : MultiTrack Payload} {item} (hactive : s.paused = false)
    (hfresh : item.1 = s.epoch) :
    s.handle item = { s with track := .handling item.2, handed := s.handed ++ [item.2] } := by
  simp [handle, hactive, hfresh]

section Steps

variable {s next : MultiTrack Payload} (hflow : s.Flowing)
include hflow

/-- `Input` appends to the end of what waits. -/
theorem Flowing.input {payload} (hstep : s.step (.input payload) = some next) : next.Flowing := by
  obtain ⟨queue, hsend, rfl⟩ := map_eq_some_iff.mp hstep
  obtain ⟨-, -, hitems⟩ := send?_eq_some hsend
  refine ⟨⟨?_, hflow.nothingLost.discarded⟩, hflow.active, hflow.fresh, hflow.pushFresh,
    hflow.inTime⟩
  simp only [queued, hitems, hflow.nothingLost.conserved, append_assoc]

/-- A payload the loop takes moves from the node's queue to the push. -/
theorem Flowing.takePayload (hstep : s.step .takePayload = some next) : next.Flowing := by
  simp only [step] at hstep
  split at hstep
  next hidle =>
    obtain ⟨⟨payload, queue⟩, hreceive, rfl⟩ := map_eq_some_iff.mp hstep
    obtain ⟨hitems, -⟩ := receive?_eq_some hreceive
    refine ⟨⟨?_, hflow.nothingLost.discarded⟩, hflow.active, hflow.fresh, ?_, ?_⟩
    · rw [hflow.nothingLost.conserved]
      simp [queued, hidle, hitems, LoopPhase.push?]
    · rintro push ⟨⟩
      rfl
    · rintro push ⟨⟩
      exact Int.lt_add_of_pos_right _ (by decide)
  · cases hstep

/-- The context of a push in time has not expired. -/
theorem Flowing.checkContext (hstep : s.step .checkContext = some next) : next.Flowing := by
  simp only [step] at hstep
  split at hstep
  next push hchecking =>
    have hpush : push ∈ s.loop.push? := by rw [hchecking]; rfl
    rw [if_neg (Int.not_le.mpr (hflow.inTime push hpush))] at hstep
    cases hstep
    have hsame : (LoopPhase.sending push).push? = s.loop.push? := by rw [hchecking]; rfl
    refine ⟨⟨?_, hflow.nothingLost.discarded⟩, hflow.active, hflow.fresh, ?_, ?_⟩
    · rw [hflow.nothingLost.conserved]
      simp only [queued, hsame]
    · exact hsame ▸ hflow.pushFresh
    · exact hsame ▸ hflow.inTime
  · cases hstep

theorem Flowing.send (hstep : s.step .send = some next) : next.Flowing := by
  simp only [step] at hstep
  split at hstep
  next push hsending =>
    obtain ⟨ch, hsend, rfl⟩ := map_eq_some_iff.mp hstep
    obtain ⟨-, -, hitems⟩ := send?_eq_some hsend
    refine ⟨⟨?_, hflow.nothingLost.discarded⟩, hflow.active, ?_, nofun, nofun⟩
    · rw [hflow.nothingLost.conserved]
      simp [queued, hsending, hitems, LoopPhase.push?]
    · intro item hitem
      rw [hitems, mem_append, mem_singleton] at hitem
      rcases hitem with hold | rfl
      · exact hflow.fresh item hold
      · exact hflow.pushFresh push (by rw [hsending]; rfl)
  · cases hstep

theorem Flowing.handOff (hstep : s.step .handOff = some next) : next.Flowing := by
  simp only [step] at hstep
  split at hstep
  next push hsending _ =>
    split at hstep
    next hempty =>
      have hfresh : push.epoch = s.epoch := hflow.pushFresh push (by rw [hsending]; rfl)
      cases hstep
      rw [handle_of_fresh (s := { s with loop := .idle }) hflow.active hfresh]
      refine ⟨⟨?_, hflow.nothingLost.discarded⟩, hflow.active, hflow.fresh, nofun, nofun⟩
      rw [hflow.nothingLost.conserved]
      simp [queued, hsending, hempty, LoopPhase.push?]
    · cases hstep
  · cases hstep

/-- The select of a push in time cannot take its context's branch. -/
theorem Flowing.expire_disabled : s.step .expire = none := by
  simp only [step]
  split
  next push hsending =>
    have hpush : push ∈ s.loop.push? := by rw [hsending]; rfl
    exact if_neg (Int.not_le.mpr (hflow.inTime push hpush))
  · rfl

theorem Flowing.receive (hstep : s.step .receive = some next) : next.Flowing := by
  simp only [step] at hstep
  split at hstep
  · obtain ⟨⟨item, ch⟩, hreceive, rfl⟩ := map_eq_some_iff.mp hstep
    obtain ⟨hitems, -⟩ := receive?_eq_some hreceive
    have hfresh : item.1 = s.epoch := hflow.fresh item (by simp [hitems])
    rw [handle_of_fresh (s := { s with ch := ch }) hflow.active hfresh]
    refine ⟨⟨?_, hflow.nothingLost.discarded⟩, hflow.active, ?_, hflow.pushFresh, hflow.inTime⟩
    · rw [hflow.nothingLost.conserved]
      simp [queued, hitems]
    · intro other hother
      exact hflow.fresh other (by rw [hitems]; exact mem_cons_of_mem item hother)
  · cases hstep

/-- A step outside the push, the queues and the pause leaves the flow as it is. -/
theorem Flowing.of_frame (hloop : next.loop.push? = s.loop.push?)
    (hrest : next = { s with loop := next.loop, track := next.track }) : next.Flowing := by
  rw [hrest]
  refine ⟨⟨?_, hflow.nothingLost.discarded⟩, hflow.active, hflow.fresh, ?_, ?_⟩
  · rw [hflow.nothingLost.conserved]
    simp only [queued, hloop]
  · exact hloop ▸ hflow.pushFresh
  · exact hloop ▸ hflow.inTime

theorem step_flowing {label} (hquiet : s.Undisturbed label) (hbefore : s.BeforeDeadline label)
    (hstep : s.step label = some next) : next.Flowing := by
  cases label with
  | tick elapsed =>
    cases hstep
    exact ⟨⟨hflow.nothingLost.conserved, hflow.nothingLost.discarded⟩, hflow.active, hflow.fresh,
      hflow.pushFresh, hbefore⟩
  | input payload => exact hflow.input hstep
  | takePayload => exact hflow.takePayload hstep
  | checkContext => exact hflow.checkContext hstep
  | send => exact hflow.send hstep
  | handOff => exact hflow.handOff hstep
  | expire => exact absurd hstep (by rw [hflow.expire_disabled]; nofun)
  | receive => exact hflow.receive hstep
  | onPause => exact hquiet.elim
  | takeOther =>
    simp only [step] at hstep
    split at hstep
    next hidle =>
      cases hstep
      exact hflow.of_frame (by rw [hidle]; rfl) rfl
    · cases hstep
  | finishOther =>
    simp only [step] at hstep
    split at hstep
    next hbusy =>
      cases hstep
      exact hflow.of_frame (by rw [hbusy]; rfl) rfl
    · cases hstep
  | finishHandler =>
    simp only [step] at hstep
    split at hstep
    · cases hstep
      exact hflow.of_frame rfl rfl
    · cases hstep
  | onResume =>
    simp only [step] at hstep
    split at hstep
    · cases hstep
      exact ⟨⟨hflow.nothingLost.conserved, hflow.nothingLost.discarded⟩, rfl, hflow.fresh,
        hflow.pushFresh, hflow.inTime⟩
    · cases hstep
  | onSignal name =>
    simp only [step, if_neg (show name ∉ s.signals from hquiet)] at hstep
    split at hstep
    · cases hstep
      exact hflow
    · cases hstep

end Steps

/-- In every undisturbed run in which no push reaches its deadline, nothing is
lost. -/
theorem run_nothingLost (clock : Int) (payloadCapacity trackCapacity : Nat)
    (signals : List String) (labels : List (Label Payload)) {final : MultiTrack Payload}
    (hmeets : Meets step (fun s label => s.Undisturbed label ∧ s.BeforeDeadline label)
      (initial clock payloadCapacity trackCapacity signals) labels)
    (hrun : run step (initial clock payloadCapacity trackCapacity signals) labels =
      some final) : final.NothingLost := by
  have hflow : final.Flowing := by
    refine run_invariant_of_meets Flowing ?_ ?_ hmeets hrun
    · intro s label next hflow hadmitted hstep
      exact step_flowing hflow hadmitted.1 hadmitted.2 hstep
    · exact ⟨⟨rfl, rfl⟩, rfl, nofun, nofun, nofun⟩
  exact hflow.nothingLost

instance (s : MultiTrack Payload) (label : Label Payload) : Decidable (s.Undisturbed label) := by
  unfold Undisturbed
  split <;> infer_instance

instance (s : MultiTrack Payload) (label : Label Payload) : Decidable (s.BeforeDeadline label) := by
  unfold BeforeDeadline
  split <;> infer_instance

/-- The handler of the first payload takes 99 ms while the second waits for room
in an unbuffered track. -/
def promptRun : List (Label Nat) :=
  [.input 1, .input 2, .takePayload, .checkContext, .handOff, .takePayload, .checkContext,
    .tick 99, .finishHandler, .handOff, .input 3, .tick 500]

theorem run_nothingLost_promptRun :
    ∃ final, run step (initial 0 payloadBufferSize 0 ["interrupt"]) promptRun =
      some final ∧ final.handed = [1, 2] ∧ final.NothingLost :=
  ⟨_, rfl, rfl, run_nothingLost 0 payloadBufferSize 0 ["interrupt"] promptRun (by decide) rfl⟩

/-- The first payload is being handled and the second fills the track. The third
waits for room until its context expires. -/
def slowHandlerRun : List (Label Nat) :=
  [.input 1, .input 2, .input 3, .takePayload, .checkContext, .send, .receive, .takePayload,
    .checkContext, .send, .takePayload, .checkContext, .tick 100, .expire]

theorem slowHandler_loses_payload :
    Meets step Undisturbed (initial 0 payloadBufferSize 1 []) slowHandlerRun ∧
    ∃ final, run step (initial 0 payloadBufferSize 1 []) slowHandlerRun = some final ∧
      final.accepted = [1, 2, 3] ∧ final.discarded = [3] ∧ ¬ final.NothingLost :=
  ⟨by decide, _, rfl, rfl, rfl, fun hkept => absurd hkept.discarded (by decide)⟩

end MultiTrack

end Voce.Engine
