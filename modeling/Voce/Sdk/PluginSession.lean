import Mathlib.Data.List.AList
import Voce.Foundation.Transition

/-! # Plugin sessions of the SDKs

A session of either SDK starts a task for every message of its stream and keeps it in
a table until it is over. The task acknowledges the message, runs the handler of the
plugin and puts its report on the outgoing queue, which has no bound. A `CANCEL` looks
its task up in the table. The stream stays open.

Tasks are scheduled cooperatively. In Python a task takes its first step some time
after it was created, and to cancel it is to throw into it where it is suspended; thrown
into a task that has not begun, its body never runs. In Node the first step is taken at
once, and a handler learns from its signal that it is aborted.
-/

namespace Voce.Sdk

inductive ReportStatus where
  | ok
  | canceled
  | error (code message : String)

inductive MessageKind where
  | ack
  | report (status : ReportStatus)
  | emit

def MessageKind.isReport : MessageKind → Bool
  | .report _ => true
  | .ack | .emit => false

structure OutMessage where
  correlationId : String
  kind : MessageKind

structure Task (Phase : Type) where
  id : String
  phase : Phase

/-- A session: all tasks it has started, its table, and all it has put on the queue. -/
structure Session (Phase : Type) where
  tasks : List (Task Phase)
  table : AList fun _ : String => Nat
  outgoing : List OutMessage

namespace Session

variable {Phase : Type}

def initial : Session Phase := ⟨[], ∅, []⟩

variable (s : Session Phase)

def reports (id : String) : Nat :=
  s.outgoing.countP fun m => m.kind.isReport && m.correlationId == id

def spawn (id : String) (phase : Phase) (kinds : List MessageKind) : Session Phase where
  tasks := s.tasks ++ [⟨id, phase⟩]
  table := s.table.insert id s.tasks.length
  outgoing := s.outgoing ++ kinds.map (OutMessage.mk id)

/-- A task gets into another phase and puts messages of these kinds. -/
def move (i : Nat) (task : Task Phase) (phase : Phase) (kinds : List MessageKind) : Session Phase :=
  { s with
    tasks := s.tasks.set i { task with phase := phase }
    outgoing := s.outgoing ++ kinds.map (OutMessage.mk task.id) }

def remove (id : String) : Session Phase := { s with table := s.table.erase id }

/-- Look the task of a message up in the table, and mark it. A `CANCEL` that names no
message is ignored. -/
def cancel (mark : Phase → Phase) (correlationId : String) : Session Phase :=
  if correlationId = "" then s
  else
    match s.table.lookup correlationId with
    | none => s
    | some i =>
      match s.tasks[i]? with
      | none => s
      | some task => s.move i task (mark task.phase) []

def stepTask (i : Nat) (next : Task Phase → Option (Session Phase)) : Option (Session Phase) :=
  s.tasks[i]?.bind next

/-- Another acknowledgement of a message that is being handled. -/
def renew (handles : Phase → Bool) (i : Nat) : Option (Session Phase) :=
  s.stepTask i fun task =>
    if handles task.phase then some (s.move i task task.phase [.ack]) else none

def emit (i : Nat) : Option (Session Phase) :=
  s.stepTask i fun task => some (s.move i task task.phase [.emit])

/-- A task that is over leaves the table. -/
def finish (finished? : Phase → Option Phase) (i : Nat) : Option (Session Phase) :=
  s.stepTask i fun task =>
    (finished? task.phase).map fun phase => (s.move i task phase []).remove task.id

end Session

/-! ## Python -/

namespace Python

/-- What a handler raises. An exception is reported under the name of its class and with
its text, if it has one that fits into the message. Only exceptions that derive from
`Exception` are reported. -/
inductive Raised where
  | cancelledError
  | exception (code : String) (message : Option String)
  | baseException
  deriving DecidableEq

/-- How far a handler gets before it gives control back. -/
inductive Outcome where
  | suspends
  | returns
  | raises (error : Raised)
  deriving DecidableEq

/-- The report on a handler that is over. -/
def report? : Outcome → Option ReportStatus
  | .suspends => none
  | .returns => some .ok
  | .raises .cancelledError => some .canceled
  | .raises (.exception code message) => message.map (ReportStatus.error code)
  | .raises .baseException => none

inductive Phase where
  /-- Created. It has been cancelled if the flag is set. -/
  | scheduled (mustCancel : Bool)
  | handling (cancelled : Bool)
  | finishing (reported : Bool)
  | finished (reported : Bool)
  | dropped
  deriving DecidableEq

inductive Label where
  | message (id : String)
  | cancel (correlationId : String)
  | start (i : Nat) (outcome : Outcome)
  /-- A cancelled task would take its first step. -/
  | drop (i : Nat)
  /-- The handler goes on, with a `CancelledError` if its task was cancelled. -/
  | resume (i : Nat) (outcome : Outcome)
  /-- The keepalive task sends an acknowledgement. -/
  | renew (i : Nat)
  | emit (i : Nat)
  | finish (i : Nat)

/-- `task.cancel()`. In the `finally` clause the error is suppressed. -/
def cancelled : Phase → Phase
  | .scheduled _ => .scheduled true
  | .handling _ => .handling true
  | .finishing reported => .finishing reported
  | .finished reported => .finished reported
  | .dropped => .dropped

def handles : Phase → Bool
  | .handling _ => true
  | _ => false

/-- The `finally` clause. -/
def finished? : Phase → Option Phase
  | .finishing reported => some (.finished reported)
  | _ => none

/-- The phase after the handler got this far, and the report. -/
def proceed (outcome : Outcome) : Phase × List MessageKind :=
  match outcome, report? outcome with
  | .suspends, _ => (.handling false, [])
  | _, some status => (.finishing true, [.report status])
  | _, none => (.finishing false, [])

def handleCancel (s : Session Phase) (correlationId : String) : Session Phase :=
  s.cancel cancelled correlationId

def step (s : Session Phase) : Label → Option (Session Phase)
  | .message id => some (s.spawn id (.scheduled false) [])
  | .cancel correlationId => some (handleCancel s correlationId)
  | .start i outcome => s.stepTask i fun task =>
    if task.phase = .scheduled false then
      let (phase, kinds) := proceed outcome
      some (s.move i task phase (.ack :: kinds))
    else none
  | .drop i => s.stepTask i fun task =>
    if task.phase = .scheduled true then some (s.move i task .dropped []) else none
  | .resume i outcome => s.stepTask i fun task =>
    match task.phase with
    | .handling _ =>
      let (phase, kinds) := proceed outcome
      some (s.move i task phase kinds)
    | _ => none
  | .renew i => s.renew handles i
  | .emit i => s.emit i
  | .finish i => s.finish finished? i

def messageId : Label → Option String
  | .message id => some id
  | _ => none

end Python

/-! ## Node -/

namespace Node

/-- What a handler throws. Any value but an `AbortError` is reported by the name of its
constructor and its text, if it has them. -/
inductive Thrown where
  | abortError
  | value (described : Option (String × String))

inductive Outcome where
  | returns
  | throws (error : Thrown)

def report? : Outcome → Option ReportStatus
  | .returns => some .ok
  | .throws .abortError => some .canceled
  | .throws (.value described) => described.map fun (code, message) => .error code message

inductive Phase where
  | handling (aborted : Bool)
  /-- The promise of the task is settled, and its `finally` callback has not run. -/
  | settling (reported : Bool)
  | finished (reported : Bool)

inductive Label where
  | message (id : String)
  | cancel (correlationId : String)
  | complete (i : Nat) (outcome : Outcome)
  | renew (i : Nat)
  | emit (i : Nat)
  | finish (i : Nat)

/-- `ac.abort()`. -/
def aborted : Phase → Phase
  | .handling _ => .handling true
  | .settling reported => .settling reported
  | .finished reported => .finished reported

def handles : Phase → Bool
  | .handling _ => true
  | _ => false

/-- The `finally` callback. -/
def finished? : Phase → Option Phase
  | .settling reported => some (.finished reported)
  | _ => none

def handleCancel (s : Session Phase) (correlationId : String) : Session Phase :=
  s.cancel aborted correlationId

def step (s : Session Phase) : Label → Option (Session Phase)
  | .message id => some (s.spawn id (.handling false) [.ack])
  | .cancel correlationId => some (handleCancel s correlationId)
  | .complete i outcome => s.stepTask i fun task =>
    match task.phase with
    | .handling _ =>
      match report? outcome with
      | some status => some (s.move i task (.settling true) [.report status])
      | none => some (s.move i task (.settling false) [])
    | _ => none
  | .renew i => s.renew handles i
  | .emit i => s.emit i
  | .finish i => s.finish finished? i

def messageId : Label → Option String
  | .message id => some id
  | _ => none

end Node

end Voce.Sdk
