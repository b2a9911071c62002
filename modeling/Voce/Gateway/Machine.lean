import Voce.Foundation.Transition

/-! # Control connection of a gateway machine

A worker machine keeps a control socket to the gateway. After a network flap it
registers again while its old socket is still open on the gateway's side, so
the callbacks of several control sockets of one machine interleave.
-/

namespace Voce.Gateway

open Transition List

inductive MachineState where
  | active
  | suspended
  | terminated
  deriving DecidableEq

structure Machine (Socket : Type) where
  host : String
  port : Int
  socket : Option Socket
  state : MachineState
  lastHeartbeat : Int

inductive MachineError where
  | machineNotActive

namespace Machine

variable {Socket : Type}

def new (host : String) (port : Int) : Machine Socket := ⟨host, port, none, .suspended, 0⟩

variable (m : Machine Socket)

def onOpen (socket : Socket) (now : Int) : Machine Socket :=
  { m with lastHeartbeat := now, socket := some socket, state := .active }

/-- The callback does not look at the socket it is called for. -/
def onClose (_socket : Socket) : Machine Socket :=
  { m with state := .suspended, socket := none }

/-- The socket a heartbeat is written to. -/
def heartbeat : Except MachineError Socket :=
  match m.state, m.socket with
  | .active, some socket => .ok socket
  | _, _ => .error .machineNotActive

end Machine

/-- A machine with the control sockets it has had, the last opened one first. -/
structure ControlPlane (Socket : Type) where
  machine : Machine Socket
  opened : List Socket
  closed : List Socket
  closedSince : List Socket

namespace ControlPlane

inductive Label (Socket : Type) where
  | onOpen (socket : Socket) (now : Int)
  | onClose (socket : Socket)

variable {Socket : Type} [DecidableEq Socket] (c : ControlPlane Socket)

/-- Every socket opens once, and closes at most once after that. -/
def step : Label Socket → Option (ControlPlane Socket)
  | .onOpen s now =>
    if s ∈ c.opened then none
    else some ⟨c.machine.onOpen s now, s :: c.opened, c.closed, []⟩
  | .onClose s =>
    if s ∈ c.opened ∧ s ∉ c.closed then
      some ⟨c.machine.onClose s, c.opened, s :: c.closed, s :: c.closedSince⟩
    else none

def initial (host : String) (port : Int) : ControlPlane Socket := ⟨.new host port, [], [], []⟩

/-- While the last opened socket is not closed, the machine is active on it. -/
def FollowsLiveSocket : Prop :=
  ∀ s, c.opened.head? = some s → s ∉ c.closed →
    c.machine.state = .active ∧ c.machine.socket = some s

/-- Since the last opening no socket was closed, or the last opened one was. -/
def NoStaleClose : Prop :=
  ∀ s, c.opened.head? = some s → c.closedSince = [] ∨ s ∈ c.closedSince

structure Invariant (c : ControlPlane Socket) : Prop where
  subset : c.closed ⊆ c.opened
  since : ∀ s, c.opened.head? = some s → (s ∈ c.closed ↔ s ∈ c.closedSince)
  live : ∀ s, c.opened.head? = some s → c.closedSince = [] →
    c.machine.state = .active ∧ c.machine.socket = some s
  lost : c.closedSince ≠ [] → c.machine.state = .suspended

omit [DecidableEq Socket] in
theorem initial_invariant (host : String) (port : Int) :
    (initial host port : ControlPlane Socket).Invariant where
  subset := List.Subset.refl _
  since := nofun
  live := nofun
  lost h := absurd rfl h

theorem step_invariant {c next : ControlPlane Socket} {label} (hc : c.Invariant)
    (hstep : c.step label = some next) : next.Invariant := by
  cases label with
  | onOpen s now =>
    simp only [step] at hstep
    split at hstep
    · cases hstep
    next hnew =>
      cases hstep
      refine ⟨fun b hb => mem_cons_of_mem s (hc.subset hb), ?_, ?_, absurd rfl⟩
      · intro b hb
        cases hb
        exact iff_of_false (fun hclosed => hnew (hc.subset hclosed)) not_mem_nil
      · intro b hb _
        cases hb
        exact ⟨rfl, rfl⟩
  | onClose s =>
    obtain ⟨hopen, hstep⟩ := Option.ite_none_right_eq_some.mp hstep
    cases hstep
    refine ⟨cons_subset.mpr ⟨hopen.1, hc.subset⟩, ?_, nofun, fun _ => rfl⟩
    intro b hb
    rw [mem_cons, mem_cons, hc.since b hb]

/-- The control state follows the live socket exactly if no stale close came
after the last opening. -/
theorem run_followsLiveSocket_iff (host : String) (port : Int) (labels : List (Label Socket))
    {c : ControlPlane Socket}
    (hrun : run step (initial host port) labels = some c) :
    c.FollowsLiveSocket ↔ c.NoStaleClose := by
  have hc : c.Invariant :=
    run_invariant Invariant step_invariant
      (initial_invariant host port) hrun
  constructor
  · intro hfollows s hs
    by_cases hsince : c.closedSince = []
    · exact .inl hsince
    · right
      rw [← hc.since s hs]
      by_contra hlive
      have hactive := (hfollows s hs hlive).1
      rw [hc.lost hsince] at hactive
      cases hactive
  · intro hstale s hs hlive
    rcases hstale s hs with hnone | hclosed
    · exact hc.live s hs hnone
    · exact absurd ((hc.since s hs).mpr hclosed) hlive

/-- The first socket closes before the machine registers again. -/
theorem run_followsLiveSocket_sequential : ∃ c : ControlPlane Nat,
    run step (initial "10.0.0.1" 7000)
      [.onOpen 1 10, .onClose 1, .onOpen 2 20] = some c ∧ c.FollowsLiveSocket := by
  refine ⟨_, rfl, ?_⟩
  refine (run_followsLiveSocket_iff "10.0.0.1" 7000
    [.onOpen 1 10, .onClose 1, .onOpen 2 20] rfl).mpr ?_
  intro s _
  exact .inl rfl

/-- The first socket closes after the second one opened: the machine is
suspended and refuses heartbeats although its socket is open. -/
theorem stale_close_suspends_machine : ∃ c : ControlPlane Nat,
    run step (initial "10.0.0.1" 7000)
      [.onOpen 1 10, .onOpen 2 20, .onClose 1] = some c ∧
      c.opened.head? = some 2 ∧ 2 ∉ c.closed ∧ c.machine.state = .suspended ∧
      c.machine.heartbeat = .error .machineNotActive ∧ ¬ c.FollowsLiveSocket := by
  refine ⟨_, rfl, rfl, by decide, rfl, rfl, ?_⟩
  intro hfollows
  exact absurd (hfollows 2 rfl (by decide)).1 (by decide)

end ControlPlane

end Voce.Gateway
