import Voce.Engine.WorkflowState
import Voce.Foundation.Channel
import Voce.Foundation.Custody
import Voce.Foundation.Interleaving
import Voce.Foundation.PooledStore
import Voce.Foundation.Transition

/-! # Ownership of output packets

`Write` takes over a packet from the pool. It puts the packet into the output
channel or releases it. A packet in the channel is released by the reader that
receives it, or by `Stop`, which closes the channel and drains it. The calls
interleave at the atomic reads of the state and of the context, at the
operations on the channel and at each release.
-/

namespace Voce.Engine

open Custody Interleaving

abbrev PacketRef := Nat

def outputBufferSize : Nat := 1024

inductive WriteCall where
  | checkState (r : Reference PacketRef)
  | checkContext (r : Reference PacketRef)
  | select (r : Reference PacketRef)
  | release (r : Reference PacketRef)
  /-- The send panicked and the deferred function runs. -/
  | recovered (r : Reference PacketRef)
  | returned
  deriving DecidableEq

/-- Where a goroutine is that reads `Output()` and releases what it receives. -/
inductive ReadCall where
  | receive
  | release (r : Reference PacketRef)
  | finished
  deriving DecidableEq

inductive EgressCall where
  | write (call : WriteCall)
  | read (call : ReadCall)
  deriving DecidableEq

inductive EgressStart where
  | call
  | nodes
  | started
  | failed
  deriving DecidableEq

inductive EgressStop where
  | swap
  | cancel
  | stopNodes
  | closeOutput
  | drain
  | release (r : Reference PacketRef)
  | returned
  | skipped
  deriving DecidableEq

/-- The output of a workflow, the packet pool and the calls of `Start` and `Stop`. -/
structure Egress where
  state : WorkflowState
  cancelled : Bool
  output : Channel (Reference PacketRef)
  closed : Bool
  start : EgressStart
  stop : EgressStop
  /-- `Stop` closed a closed channel. -/
  panicked : Bool
  pool : List PacketRef
  /-- Packets that other users of the pool have acquired. -/
  borrowed : List PacketRef
  allocated : Nat
  ledger : Ledger

namespace Egress

variable (s : Egress)

def releasePacket (r : Reference PacketRef) : Egress :=
  { s with pool := r.object :: s.pool, ledger := s.ledger.retire r.id }

def acquirePacket (recycled : Option PacketRef) : Egress × PacketRef :=
  let taken := PooledStore.take s.pool s.allocated id recycled
  ({ s with pool := taken.1.1, allocated := taken.1.2 }, taken.2)

/-- The case a `select` takes, or what a reader does next. -/
inductive Choice where
  | done
  | send
  | fallback
  | receive
  | leave

/-- `Write`. The default case is taken only when no other case is ready, and a send
on a closed channel panics. -/
def writeNext (choice : Choice) : WriteCall → Option (WriteCall × Egress)
  | .checkState r =>
    if s.state = .running then some (.checkContext r, s) else some (.release r, s)
  | .checkContext r => if s.cancelled then some (.release r, s) else some (.select r, s)
  | .select r =>
    match choice with
    | .done => if s.cancelled then some (.release r, s) else none
    | .send =>
      if s.closed then some (.recovered r, s)
      else (s.output.send? r).map fun output => (.returned, { s with output := output })
    | .fallback =>
      if s.cancelled ∨ s.closed ∨ (s.output.send? r).isSome then none
      else some (.release r, s)
    | .receive | .leave => none
  | .release r | .recovered r => some (.returned, s.releasePacket r)
  | .returned => none

def readNext (choice : Choice) : ReadCall → Option (ReadCall × Egress)
  | .receive =>
    match choice with
    | .receive =>
      match s.output.receive? with
      | some (r, output) => some (.release r, { s with output := output })
      | none => if s.closed then some (.finished, s) else none
    | .leave => some (.finished, s)
    | .done | .send | .fallback => none
  | .release r => some (.receive, s.releasePacket r)
  | .finished => none

def callNext (choice : Choice) : EgressCall → Option (EgressCall × Egress)
  | .write call => (s.writeNext choice call).map fun next => (.write next.1, next.2)
  | .read call => (s.readNext choice call).map fun next => (.read next.1, next.2)

def stopNext : Option Egress :=
  match s.stop with
  | .swap =>
    if s.state = .stopped then some { s with stop := .skipped }
    else some { s with state := .stopped, stop := .cancel }
  | .cancel => some { s with cancelled := true, stop := .stopNodes }
  | .stopNodes => some { s with stop := .closeOutput }
  | .closeOutput =>
    if s.closed then some { s with panicked := true, stop := .returned }
    else some { s with closed := true, stop := .drain }
  | .drain =>
    match s.output.receive? with
    | some (r, output) => some { s with output := output, stop := .release r }
    | none => some { s with stop := .returned }
  | .release r => some { s.releasePacket r with stop := .drain }
  | .returned | .skipped => none

/-- A new packet is published, a goroutine starts to read, a call takes its next step,
or another user of the pool acquires, releases or drops a packet. -/
inductive Label where
  | publish (recycled : Option PacketRef)
  | read
  | call (i : Nat) (choice : Choice)
  | stop
  | beginStart
  | endStart (ok : Bool)
  | pause
  | resume
  | cancelParent
  | borrow (recycled : Option PacketRef)
  | giveBack (p : PacketRef)
  | collect (p : PacketRef)

def environmentNext : Label → Option Egress
  | .stop => s.stopNext
  | .beginStart =>
    if s.state = .pending then some { s with state := .starting, start := .nodes } else none
  | .endStart ok =>
    if s.start = .nodes then
      if ok then some { s with state := .running, start := .started }
      else some { s with state := .stopped, start := .failed }
    else none
  | .pause => some { s with state := s.state.after s.state.pause }
  | .resume => some { s with state := s.state.after s.state.resume }
  | .cancelParent => some { s with cancelled := true }
  | .borrow recycled =>
    let acquired := s.acquirePacket recycled
    some { acquired.1 with borrowed := acquired.2 :: s.borrowed }
  | .giveBack p =>
    if p ∈ s.borrowed then
      some { s with pool := p :: s.pool, borrowed := s.borrowed.erase p }
    else none
  | .collect p => some { s with pool := s.pool.erase p }
  | .publish _ | .read | .call _ _ => none

end Egress

abbrev EgressSystem := Config Egress EgressCall

namespace EgressSystem

open Egress

def publish (c : EgressSystem) (recycled : Option PacketRef) : EgressSystem :=
  let acquired := c.shared.acquirePacket recycled
  Config.spawn ⟨{ acquired.1 with ledger := c.shared.ledger.issue }, c.phases⟩
    (.write (.checkState ⟨c.shared.ledger.issued, acquired.2⟩))

def step (c : EgressSystem) (label : Label) : Option EgressSystem :=
  match label with
  | .publish recycled => some (c.publish recycled)
  | .read => some (c.spawn (.read .receive))
  | .call i choice => c.advance (c.shared.callNext choice) i
  | .stop | .beginStart | .endStart _ | .pause | .resume | .cancelParent | .borrow _
  | .giveBack _ | .collect _ =>
    (c.shared.environmentNext label).map fun shared => { c with shared := shared }

/-- A workflow that was created, with an empty packet pool. -/
def initial : EgressSystem where
  shared :=
    { state := .pending
      cancelled := false
      output := Channel.empty outputBufferSize
      closed := false
      start := .call
      stop := .swap
      panicked := false
      pool := []
      borrowed := []
      allocated := 0
      ledger := Ledger.empty }
  phases := []

/-- All `Write` calls and readers have finished, and so has `Stop`. -/
def Finished (c : EgressSystem) : Prop :=
  (∀ call ∈ c.phases, call = .write .returned ∨ call = .read .finished) ∧
    (c.shared.stop = .returned ∨ c.shared.stop = .skipped)

end EgressSystem

end Voce.Engine
