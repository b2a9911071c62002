import Voce.Foundation.Interleaving
import Voce.Foundation.Transition
import Voce.Protocol

/-! # Sockets of a gateway data connection

A connection dials sockets, one `OnOpen` and at most one `OnClose` for each, and
`Close` ends it. The callbacks of different sockets and the calls of `Close`
interleave at their operations on the two atomics, the state and the stored
socket. None of them compares sockets: an `OnClose` that finds the connection
active takes it for its own.
-/

namespace Voce.Gateway.Connection

open Interleaving Protocol

/-- What the callbacks share. A socket is the process that handles it; those that
were closed, by the peer or by a call of `Close` on the socket, are in `closed`. -/
structure Shared where
  state : ConnectionState
  socket : Option Nat
  closed : List Nat

/-- `newPoolConnection`. -/
def Shared.new : Shared := ⟨.connecting, none, []⟩

/-- The next operation of a process: the callbacks of one socket, or one call of
`Close`. The flag of a socket says whether `OnOpen` accepted it. -/
inductive Phase where
  | opening
  | storing
  | rejecting
  | opened (accepted : Bool)
  | closing (accepted : Bool)
  | clearing (accepted : Bool)
  | done (accepted : Bool)
  | closeSwap
  | closeLoad
  | closeSocket (socket : Nat)
  | closeStore
  | closeDone
  deriving DecidableEq

def Phase.next (i : Nat) (s : Shared) : Phase → Option (Phase × Shared)
  -- OnOpen
  | .opening =>
    if s.state = .connecting then some (.storing, { s with state := .active })
    else some (.rejecting, s)
  | .storing => some (.opened true, { s with socket := some i })
  | .rejecting => some (.opened false, { s with closed := i :: s.closed })
  | .opened _ => none
  -- OnClose
  | .closing accepted =>
    if s.state = .active then some (.clearing accepted, { s with state := .connecting })
    else some (.done accepted, s)
  | .clearing accepted => some (.done accepted, { s with socket := none })
  | .done _ => none
  -- Close
  | .closeSwap =>
    if s.state = .closed then some (.closeDone, s)
    else some (.closeLoad, { s with state := .closed })
  | .closeLoad =>
    match s.socket with
    | none => some (.closeDone, s)
    | some socket => some (.closeSocket socket, s)
  | .closeSocket socket => some (.closeStore, { s with closed := socket :: s.closed })
  | .closeStore => some (.closeDone, { s with socket := none })
  | .closeDone => none

abbrev System := Config Shared Phase

/-- A dialed socket reaches `OnOpen`, `Close` is called, a process takes its next
operation, the peer closes a socket, a closed socket reaches `OnClose`. -/
inductive Label where
  | dial
  | close
  | advance (i : Nat)
  | hangUp (i : Nat)
  | onClose (i : Nat)

variable (c : System)

def step : Label → Option System
  | .dial => some (c.spawn .opening)
  | .close => some (c.spawn .closeSwap)
  | .advance i => c.advance (Phase.next i c.shared) i
  | .hangUp i =>
    match c.phases[i]? with
    | some (.opened _) =>
      if i ∈ c.shared.closed then none
      else some { c with shared := { c.shared with closed := i :: c.shared.closed } }
    | _ => none
  | .onClose i =>
    match c.phases[i]? with
    | some (.opened accepted) =>
      if i ∈ c.shared.closed then some (c.update i (.closing accepted) c.shared) else none
    | _ => none

def initial : System := ⟨.new, []⟩

/-! ## What the callbacks should guarantee -/

/-- Process `i` is in `OnClose`. -/
def OnClosing (i : Nat) : Prop :=
  ∃ accepted, c.phases[i]? = some (.closing accepted) ∨ c.phases[i]? = some (.clearing accepted)

/-- The `OnClose` of a socket that is not stored changes neither the state nor the
stored socket. -/
def IgnoresStale : Prop :=
  ∀ i d, OnClosing c i → c.shared.socket ≠ some i → step c (.advance i) = some d →
    d.shared.state = c.shared.state ∧ d.shared.socket = c.shared.socket

/-- Nothing is in progress: a socket is open, or its `OnClose` has returned. -/
def Quiescent : Prop :=
  ∀ i phase, c.phases[i]? = some phase →
    (∃ accepted, phase = .opened accepted ∧ i ∉ c.shared.closed) ∨
      (∃ accepted, phase = .done accepted) ∨ phase = .closeDone

/-- The stored socket of an active connection was accepted and is open. -/
def TracksOpen : Prop :=
  c.shared.state = .active →
    ∃ i, c.shared.socket = some i ∧ c.phases[i]? = some (.opened true) ∧ i ∉ c.shared.closed

/-- A socket that `OnOpen` accepted. -/
def Phase.accepted : Phase → Bool
  | .storing => true
  | .opened accepted | .closing accepted | .clearing accepted | .done accepted => accepted
  | _ => false

/-- Once a call of `Close` has returned, every accepted socket is closed. -/
def LeavesNoneOpen : Prop :=
  .closeDone ∈ c.phases → ∀ i phase, c.phases[i]? = some phase → phase.accepted →
    i ∈ c.shared.closed

/-- The connection tracks the right socket. -/
structure Tracks (c : System) : Prop where
  ignoresStale : IgnoresStale c
  tracksOpen : Quiescent c → TracksOpen c
  leavesNoneOpen : Quiescent c → LeavesNoneOpen c

end Voce.Gateway.Connection
