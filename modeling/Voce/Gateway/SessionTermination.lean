import Voce.Gateway.ClientSession

/-! # Termination of a gateway session

A session is terminated by `Close`, which `SessionManager.Delete` calls, and by a
close packet of its machine in `DispatchMessage`, while the handlers of its
clients run. All of them interleave at their loads and stores. The state is
stored, swapped and compared in different handlers, and the client field is a
plain one.
-/

namespace Voce.Gateway

open Interleaving Protocol

namespace ClientPhase

/-- The upgrade has given the client a socket, which its peer can close. -/
def connected : ClientPhase → Bool
  | .openCount | .openReady _ | .openAttach _ | .openResume _ | .opened => true
  | _ => false

def disconnected : ClientPhase → Bool
  | .closeDetach | .closeCheck | .closeRelease | .closeIdle | .closePause | .closed => true
  | _ => false

/-- Between `Acquire` and the store of the client, or between the load and the
store of `Release`: what the client does next takes no notice of the state. -/
def exposed : ClientPhase → Bool
  | .upgrade | .upgradeIdle | .openCount | .openReady _ | .openAttach _ | .closeIdle => true
  | _ => false

end ClientPhase

/-- The next operation of a call that terminates the session. `DispatchMessage`
closes the client before it deletes the session, `Close` before it writes its
packet; the flag says which of them goes on. -/
inductive CloserPhase where
  /-- `DispatchMessage` before it loads the session and before its store. -/
  | load
  | store
  | remove
  | swap
  /-- The client field before the test for nil and before the call of `Close`. -/
  | check (dispatching : Bool)
  | closeClient (dispatching : Bool)
  | write
  | done
  /-- `Close` was called on a client that was nil by then. -/
  | crashed
  deriving DecidableEq

/-- What an operation of such a call does. -/
inductive CloserEffect where
  | skip
  | terminate
  | delete
  | closeClient (client : Nat)
  | write

namespace CloserPhase

def afterClient (dispatching : Bool) : CloserPhase := if dispatching then .remove else .write

/-- By whether the session is stored, its state and its client. A message for a missing session is
dropped. -/
def next (stored : Bool) (state : SessionState) (client : Option Nat) :
    CloserPhase → Option (CloserPhase × CloserEffect)
  | .load => some (if stored then .store else .done, .skip)
  | .store => some (.check true, .terminate)
  | .remove => some (if stored then (.swap, .delete) else (.done, .skip))
  | .swap => some (if state = .closed then (.done, .skip) else (.check false, .terminate))
  | .check dispatching =>
    match client with
    | none => some (afterClient dispatching, .skip)
    | some _ => some (.closeClient dispatching, .skip)
  | .closeClient dispatching =>
    match client with
    | none => some (.crashed, .skip)
    | some client => some (afterClient dispatching, .closeClient client)
  | .write => some (.done, .write)
  | .done | .crashed => none

/-- The call has returned. -/
def settled : CloserPhase → Bool
  | .done | .crashed => true
  | _ => false

end CloserPhase

namespace SessionTermination

/-- The session with its entry in the session manager and the client sockets that
were closed. A client's socket is its process. That the state was `SessionClosed`
once is recorded in `terminated`, and the clients of which a handler started
after that in `late`. -/
structure Shared where
  session : SessionShared
  stored : Bool
  closed : List Nat
  terminated : Bool
  late : List Nat

namespace Shared

def new : Shared := ⟨.new, true, [], false, []⟩

def terminate (s : Shared) : Shared :=
  { s with session := { s.session with state := .closed }, terminated := true }

def starts (s : Shared) (i : Nat) : Shared :=
  if s.terminated then { s with late := i :: s.late } else s

def perform (s : Shared) : CloserEffect → Shared
  | .skip => s
  | .terminate => s.terminate
  | .delete => { s with stored := false }
  | .closeClient client => { s with closed := client :: s.closed }
  | .write => { s with session := s.session.writePacket typeClose }

end Shared

inductive Process where
  | client (phase : ClientPhase)
  | closer (phase : CloserPhase)
  deriving DecidableEq

namespace Process

/-- The next operation of process `i`. After the upgrade `OnClientOpen` starts. -/
def next (i : Nat) (s : Shared) : Process → Option (Process × Shared)
  | .client phase => (phase.next i s.session).map fun moved =>
    (.client moved.1, { (if phase = .upgrade then s.starts i else s) with session := moved.2 })
  | .closer phase => (phase.next s.stored s.session.state s.session.client).map fun moved =>
    (.closer moved.1, s.perform moved.2)

def Settled : Process → Prop
  | .client phase => phase.Settled
  | .closer phase => phase.settled

instance : DecidablePred Settled
  | .client phase => inferInstanceAs (Decidable phase.Settled)
  | .closer phase => inferInstanceAs (Decidable (phase.settled = true))

end Process

abbrev System := Config Shared Process

inductive Label where
  | connect
  /-- A session is deleted: by its user, by the idle cleanup, with its machine. -/
  | delete
  | close
  | dispatch
  | advance (i : Nat)
  | failUpgrade (i : Nat)
  | hangUp (i : Nat)
  | disconnect (i : Nat)

variable (c : System)

def step : Label → Option System
  | .connect =>
    some { c.spawn (.client .acquire) with shared := c.shared.starts c.phases.length }
  | .delete => some (c.spawn (.closer .remove))
  | .close => some (c.spawn (.closer .swap))
  | .dispatch => some (c.spawn (.closer .load))
  | .advance i => c.advance (Process.next i c.shared) i
  | .failUpgrade i =>
    if c.phases[i]? = some (.client .upgrade) then
      some (c.update i (.client .upgradeRelease) c.shared)
    else none
  | .hangUp i =>
    match c.phases[i]? with
    | some (.client phase) =>
      if phase.connected then
        some { c with shared := { c.shared with closed := i :: c.shared.closed } }
      else none
    | _ => none
  | .disconnect i =>
    if c.phases[i]? = some (.client .opened) ∧ i ∈ c.shared.closed then
      some (c.update i (.client .closeDetach) (c.shared.starts i))
    else none

def initial : System := ⟨.new, []⟩

/-! ## What termination should mean -/

/-- A session that was closed is closed. -/
def StaysClosed : Prop :=
  c.shared.terminated → c.shared.session.state = .closed

/-- A client's handler that started after the session was closed sends no packet. -/
def LateSilent : Prop :=
  ∀ i d, i ∈ c.shared.late → step c (.advance i) = some d →
    d.shared.session.data = c.shared.session.data

/-- With all handlers finished, no socket of a closed session that was passed to
`OnClientOpen` is open. -/
def LeavesNoneOpen : Prop :=
  (∀ process ∈ c.phases, process.Settled) → c.shared.terminated →
    ∀ i phase, c.phases[i]? = some (.client phase) → phase.connected ∨ phase.disconnected →
      i ∈ c.shared.closed

/-- Closed is terminal. -/
structure Terminates (c : System) : Prop where
  staysClosed : StaysClosed c
  lateSilent : LateSilent c
  leavesNoneOpen : LeavesNoneOpen c

def Process.exposed : Process → Bool
  | .client phase => phase.exposed
  | .closer _ => false

/-- The session is closed only while no client is exposed. -/
def ClosesBetween : Label → Prop
  | .advance i =>
    match c.phases[i]? with
    | some (.closer .store) | some (.closer .swap) =>
      ∀ process ∈ c.phases, process.exposed = false
    | _ => True
  | _ => True

instance (label : Label) : Decidable (ClosesBetween c label) := by
  unfold ClosesBetween
  split
  · split <;> infer_instance
  · infer_instance

end SessionTermination

end Voce.Gateway
