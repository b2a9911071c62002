import Voce.Gateway.SessionTermination
import Voce.Machine.ConnectionManager

/-! # Close packets between a gateway and a machine

Both sides keep a session by its key, and each answers the removal of a session
by a close packet to the other. The gateway removes a session in
`SessionManager.Delete` and closes it, the machine in `RemoveSession` or
`Cleanup`, whose observer writes the packet and tries a second connection if the
first one fails. All calls interleave at their critical sections, atomic
operations and writes. A key is created at most once on each side.
-/

namespace Voce.Gateway.CloseExchange

open Interleaving Voce.Machine Function

/-- The keys that were ever created and the keys that are mapped. -/
structure Registry (Key : Type) where
  created : List Key
  sessions : List Key

/-- Close packets on their way, and how often the receiver has taken one. -/
structure Wire (Key : Type) where
  inFlight : List Key
  received : Key → Nat

/-- The gateway's side: the state and the client of each session. `writes` counts the
calls of `WritePacket` with a close packet, whether they fail or not. -/
structure GatewaySide (Key : Type) where
  registry : Registry Key
  state : Key → SessionState
  client : Key → Option Nat
  writes : Key → Nat

/-- The machine's side. `writes` counts the close packets written without error. -/
structure MachineSide (Key : Type) where
  registry : Registry Key
  manager : ConnectionManager Key
  writes : Key → Nat

structure Shared (Key : Type) where
  gateway : GatewaySide Key
  machine : MachineSide Key
  toMachine : Wire Key
  toGateway : Wire Key

/-- The next operation of a machine call: `handleMessage` before `LoadSession`,
`RemoveSession` and `Cleanup` before their critical section, the observer for a
key with the keys it is run for after that. The workflows are left out. -/
inductive MachinePhase (Key : Type) where
  | handle (key : Key)
  | remove (key : Key)
  | cleanup
  | notify (phase : NotifyPhase) (key : Key) (rest : List Key)
  | done

variable {Key : Type} [DecidableEq Key]

namespace Registry

def empty : Registry Key := ⟨[], []⟩

/-- A key that was not used before is mapped. -/
def create (r : Registry Key) (key : Key) : Registry Key :=
  ⟨key :: r.created, key :: r.sessions⟩

/-- The keys that `removed` selects leave the map. -/
def delete (r : Registry Key) (removed : List Key) : Registry Key :=
  { r with sessions := r.sessions.filter fun key => key ∉ removed }

end Registry

namespace Wire

def empty : Wire Key := ⟨[], fun _ => 0⟩

def send (w : Wire Key) (key : Key) : Wire Key := { w with inFlight := key :: w.inFlight }

def receive (w : Wire Key) (key : Key) : Wire Key where
  inFlight := w.inFlight.erase key
  received := update w.received key (w.received key + 1)

end Wire

namespace GatewaySide

def setState (g : GatewaySide Key) (key : Key) (state : SessionState) : GatewaySide Key :=
  { g with state := update g.state key state }

def recordWrite (g : GatewaySide Key) (key : Key) : GatewaySide Key :=
  { g with writes := update g.writes key (g.writes key + 1) }

end GatewaySide

def MachineSide.recordWrite (m : MachineSide Key) (key : Key) : MachineSide Key :=
  { m with writes := update m.writes key (m.writes key + 1) }

/-- What a call does to its session. It closes the client's socket elsewhere. -/
def GatewaySide.perform (g : GatewaySide Key) (key : Key) : CloserEffect → GatewaySide Key
  | .terminate => g.setState key .closed
  | .delete => { g with registry := g.registry.delete [key] }
  | .skip | .closeClient _ | .write => g

/-- The observer is run for the next key. -/
def MachinePhase.notifyNext : List Key → MachinePhase Key
  | [] => .done
  | key :: rest => .notify .lookup key rest

/-- An operation of the machine other than a write and the sweep of `Cleanup`. -/
def MachinePhase.next (m : MachineSide Key) :
    MachinePhase Key → Option (MachinePhase Key × MachineSide Key)
  | .handle key => some (if key ∈ m.registry.sessions then .remove key else .done, m)
  | .remove key =>
    if key ∈ m.registry.sessions then
      some (.notify .lookup key [], { m with registry := m.registry.delete [key] })
    else some (.done, m)
  | .notify phase key rest => (phase.next m.manager key).map fun moved =>
    (moved.1.elim (.notifyNext rest) (.notify · key rest), { m with manager := moved.2 })
  | .cleanup | .done => none

inductive Process (Key : Type) where
  | gateway (phase : CloserPhase) (key : Key)
  | machine (phase : MachinePhase Key)

def Process.next (s : Shared Key) : Process Key → Option (Process Key × Shared Key)
  -- the write of a call has an outcome
  | .gateway .write _ => none
  | .gateway phase key =>
    (phase.next (key ∈ s.gateway.registry.sessions) (s.gateway.state key)
      (s.gateway.client key)).map fun moved =>
      (.gateway moved.1 key, { s with gateway := s.gateway.perform key moved.2 })
  | .machine phase => (phase.next s.machine).map fun moved =>
    (.machine moved.1, { s with machine := moved.2 })

/-- What `Close` gets from its connection: there is none, the write fails, or the
packet is on its way. -/
inductive WriteOutcome where
  | noConnection
  | failed
  | sent

namespace Shared

def writeClose (s : Shared Key) (key : Key) : WriteOutcome → Shared Key
  | .noConnection => s
  | .failed => { s with gateway := s.gateway.recordWrite key }
  | .sent => { s with gateway := s.gateway.recordWrite key, toMachine := s.toMachine.send key }

def notifyClose (s : Shared Key) (key : Key) : Shared Key :=
  { s with machine := s.machine.recordWrite key, toGateway := s.toGateway.send key }

end Shared

abbrev System (Key : Type) := Config (Shared Key) (Process Key)

inductive Label (Key : Type) where
  /-- A new key is stored by the gateway, by the machine. -/
  | createGateway (key : Key)
  | createMachine (key : Key)
  /-- A handler of a client changes the state of the gateway's session, or its client. -/
  | setState (key : Key) (state : SessionState)
  | setClient (key : Key) (client : Option Nat)
  /-- The gateway deletes a session, or takes a close packet of the machine. -/
  | delete (key : Key)
  | dispatch (key : Key)
  /-- The machine removes a session, looks for idle ones, or takes a close packet. -/
  | removeSession (key : Key)
  | cleanup
  | handle (key : Key)
  | advance (i : Nat)
  | write (i : Nat) (outcome : WriteOutcome)
  /-- The critical section of `Cleanup` finds these keys idle. -/
  | sweep (i : Nat) (keys : List Key)
  | notify (i : Nat) (ok : Bool)
  /-- Another use of the machine's connections. -/
  | manager (op : ConnectionManager.Op Key)

def step (c : System Key) : Label Key → Option (System Key)
  | .createGateway key =>
    if key ∈ c.shared.gateway.registry.created then none
    else some { c with shared := { c.shared with gateway := { c.shared.gateway with
      registry := c.shared.gateway.registry.create key } } }
  | .createMachine key =>
    if key ∈ c.shared.machine.registry.created then none
    else some { c with shared := { c.shared with machine := { c.shared.machine with
      registry := c.shared.machine.registry.create key } } }
  | .setState key state =>
    some { c with shared := { c.shared with gateway := c.shared.gateway.setState key state } }
  | .setClient key client =>
    some { c with shared := { c.shared with gateway := { c.shared.gateway with
      client := update c.shared.gateway.client key client } } }
  | .delete key => some (c.spawn (.gateway .remove key))
  | .dispatch key =>
    if key ∈ c.shared.toGateway.inFlight then
      some (Config.spawn { c with shared :=
        { c.shared with toGateway := c.shared.toGateway.receive key } } (.gateway .load key))
    else none
  | .removeSession key => some (c.spawn (.machine (.remove key)))
  | .cleanup => some (c.spawn (.machine .cleanup))
  | .handle key =>
    if key ∈ c.shared.toMachine.inFlight then
      some (Config.spawn { c with shared :=
        { c.shared with toMachine := c.shared.toMachine.receive key } } (.machine (.handle key)))
    else none
  | .advance i => c.advance (Process.next c.shared) i
  | .write i outcome =>
    match c.phases[i]? with
    | some (.gateway .write key) =>
      some (c.update i (.gateway .done key) (c.shared.writeClose key outcome))
    | _ => none
  | .sweep i keys =>
    match c.phases[i]? with
    | some (.machine .cleanup) =>
      if keys.Nodup ∧ ∀ key ∈ keys, key ∈ c.shared.machine.registry.sessions then
        some (c.update i (.machine (.notifyNext keys)) { c.shared with machine :=
          { c.shared.machine with registry := c.shared.machine.registry.delete keys } })
      else none
    | _ => none
  | .notify i ok =>
    match c.phases[i]? with
    | some (.machine (.notify phase key rest)) =>
      (phase.afterWrite c.shared.machine.manager ok).map fun moved =>
        c.update i (.machine (.notify moved key rest))
          (if ok then c.shared.notifyClose key else c.shared)
    | _ => none
  | .manager op =>
    some { c with shared := { c.shared with machine :=
      { c.shared.machine with manager := c.shared.machine.manager.apply op } } }

def initial : System Key where
  shared :=
    { gateway := ⟨.empty, fun _ => .idle, fun _ => none, fun _ => 0⟩
      machine := ⟨.empty, newConnectionManager, fun _ => 0⟩
      toMachine := .empty
      toGateway := .empty }
  phases := []

/-! ## What the exchange should keep to -/

/-- A close packet for a key that its receiver does not know is dropped: the handler
returns and nothing else changes. -/
def DropsUnknown (c : System Key) (key : Key) : Prop :=
  (∀ i, c.phases[i]? = some (.gateway .load key) → key ∉ c.shared.gateway.registry.sessions →
    step c (.advance i) = some (c.update i (.gateway .done key) c.shared)) ∧
  (∀ i, c.phases[i]? = some (.machine (.handle key)) →
    key ∉ c.shared.machine.registry.sessions →
    step c (.advance i) = some (c.update i (.machine .done) c.shared))

/-- Each side writes at most one close packet for the key and takes at most one, and
a packet for an unknown key is dropped. -/
structure Bounded (c : System Key) (key : Key) : Prop where
  gatewayWrites : c.shared.gateway.writes key ≤ 1
  machineWrites : c.shared.machine.writes key ≤ 1
  machineReceives : c.shared.toMachine.received key ≤ 1
  gatewayReceives : c.shared.toGateway.received key ≤ 1
  unknown : DropsUnknown c key

end Voce.Gateway.CloseExchange
