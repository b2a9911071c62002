import Voce.Engine.WorkflowState
import Voce.Foundation.Interleaving
import Voce.Foundation.Transition
import Voce.Protocol

/-! # Clients of a gateway session

Successive client connections share one gateway session. Every connection runs
`HandleRealtime`, then `OnClientOpen`, and when its socket closes
`OnClientClose`; these handlers interleave at their atomic operations and
packet writes. The data connection is a FIFO that stays active, and the machine
at its other end drives the workflow packet by packet.
-/

namespace Voce.Gateway

open Engine Interleaving Protocol

inductive SessionState where
  | idle
  | pending
  | ready
  | closing
  | closed
  deriving DecidableEq

/-- What the handlers of one session share. The packets in flight on the data
connection are in `data`, oldest first. -/
structure SessionShared where
  state : SessionState
  connectCount : Int
  client : Option Nat
  data : List PacketType
  workflow : WorkflowState

namespace SessionShared

def new : SessionShared := ⟨.idle, 0, none, [], .running⟩

def writePacket (s : SessionShared) (type : PacketType) : SessionShared :=
  { s with data := s.data ++ [type] }

/-- The states `Release` leaves. -/
def Releasable (s : SessionShared) : Prop := s.state = .ready ∨ s.state = .pending

instance (s : SessionShared) : Decidable s.Releasable :=
  inferInstanceAs (Decidable (_ ∨ _))

end SessionShared

/-- `Add(1)` on a 32-bit counter. -/
def addInt32 (count : Int) : Int := (count + 1).bmod (2 ^ 32)

/-- `ConnectionManager.handleMessage` on the session's workflow. Audio goes to
the head node and a close packet removes the session, which stops its workflow. -/
def handleMessage (workflow : WorkflowState) (type : PacketType) : WorkflowState :=
  if type = typePause then workflow.after workflow.pause
  else if type = typeResume then workflow.after workflow.resume
  else if type = typeClose then .stopped
  else workflow

/-- Where a client connection is, by the next atomic operation of its handler. -/
inductive ClientPhase where
  /-- `HandleRealtime` before `session.Acquire()`. -/
  | acquire
  /-- `HandleRealtime` has answered that the session is already connected. -/
  | conflict
  /-- The session is acquired and the upgrade has not finished. -/
  | upgrade
  /-- The upgrade failed; `Release` before its state load and before its store. -/
  | upgradeRelease
  | upgradeIdle
  | upgradeFailed
  /-- `OnClientOpen` before the count, the store of `SessionReady`, the store of
  the client and the resume packet. -/
  | openCount
  | openReady (count : Int)
  | openAttach (count : Int)
  | openResume (count : Int)
  | opened
  /-- `OnClientClose` before clearing the client, the state check, the load and
  the store of `Release`, and the pause packet. -/
  | closeDetach
  | closeCheck
  | closeRelease
  | closeIdle
  | closePause
  | closed
  deriving DecidableEq

namespace ClientPhase

/-- The next atomic operation of a handler. A finished handler has none. -/
def next (id : Nat) (s : SessionShared) : ClientPhase → Option (ClientPhase × SessionShared)
  | .acquire =>
    if s.state = .idle then some (.upgrade, { s with state := .pending })
    else some (.conflict, s)
  | .conflict => none
  | .upgrade => some (.openCount, s)
  | .upgradeRelease =>
    if s.Releasable then some (.upgradeIdle, s) else some (.upgradeFailed, s)
  | .upgradeIdle => some (.upgradeFailed, { s with state := .idle })
  | .upgradeFailed => none
  | .openCount =>
    some (.openReady (addInt32 s.connectCount),
      { s with connectCount := addInt32 s.connectCount })
  | .openReady count => some (.openAttach count, { s with state := .ready })
  | .openAttach count => some (.openResume count, { s with client := some id })
  -- only a reconnect resumes
  | .openResume count =>
    some (.opened, if count > 1 then s.writePacket typeResume else s)
  | .opened => none
  | .closeDetach => some (.closeCheck, { s with client := none })
  | .closeCheck => if s.state = .closed then some (.closed, s) else some (.closeRelease, s)
  | .closeRelease =>
    if s.Releasable then some (.closeIdle, s) else some (.closePause, s)
  -- from here on the next client can acquire the session
  | .closeIdle => some (.closePause, { s with state := .idle })
  | .closePause => some (.closed, s.writePacket typePause)
  | .closed => none

def Settled : ClientPhase → Prop
  | .conflict | .upgradeFailed | .opened | .closed => True
  | _ => False

instance : DecidablePred Settled := by
  intro phase
  unfold Settled
  split <;> infer_instance

end ClientPhase

abbrev ClientSession := Config SessionShared ClientPhase

namespace ClientSession

inductive Label where
  | connect
  | advance (client : Nat)
  | failUpgrade (client : Nat)
  | disconnect (client : Nat)
  | deliver

variable (c : ClientSession)

def step : Label → Option ClientSession
  | .connect => some (c.spawn .acquire)
  | .advance i => c.advance (ClientPhase.next i c.shared) i
  | .failUpgrade i =>
    if c.phases[i]? = some .upgrade then some (c.update i .upgradeRelease c.shared) else none
  | .disconnect i =>
    if c.phases[i]? = some .opened then some (c.update i .closeDetach c.shared) else none
  | .deliver =>
    match c.shared.data with
    | [] => none
    | type :: rest =>
      some { c with shared :=
        { c.shared with data := rest, workflow := handleMessage c.shared.workflow type } }

def initial : ClientSession := ⟨.new, []⟩

/-- With no handler in progress and nothing in flight, a ready session with a
client attached has a running workflow. -/
def Agrees : Prop :=
  (∀ phase ∈ c.phases, phase.Settled) → c.shared.data = [] → c.shared.state = .ready →
    c.shared.client.isSome → c.shared.workflow = .running

/-- A pause packet is written only while no client has its socket open and its
open handler finished, and the connection counter has not reached its limit
when it is raised. -/
def PausesUnattended : Label → Prop
  | .advance i => (c.phases[i]? = some .closePause → .opened ∉ c.phases) ∧
      (c.phases[i]? = some .openCount → c.shared.connectCount + 1 < 2 ^ 31)
  | _ => True

instance : DecidablePred (PausesUnattended c)
  | .advance _ => inferInstanceAs (Decidable (_ ∧ _))
  | .connect | .failUpgrade _ | .disconnect _ | .deliver => .isTrue trivial

end ClientSession

end Voce.Gateway
