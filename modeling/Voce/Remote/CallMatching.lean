import Voce.Foundation.Channel
import Voce.Foundation.Indexed
import Voce.Remote.CallSlot
import Voce.Remote.Instance

/-! # Matching replies to calls

`doCall` puts its call into the lane of its message, waits for it and takes it out
again. The loop that reads the stream and the loop that writes to it finish the calls
they find in the lanes: a lane is loaded, the ID of the call in it is compared, and the
call is finished or renewed, one after the other, while callers come and go.
-/

namespace Voce.Remote

open Transition Function List Option Indexed

def laneCount : Nat := 2

def writeChSize : Nat := 128

/-- A message to the server. A `CANCEL` names the message it cancels. -/
structure Outgoing where
  messageId : String
  cancels : Option String
  deriving DecidableEq

/-- The ID that the write loop looks for when the message cannot be sent. -/
def Outgoing.target (m : Outgoing) : String := m.cancels.getD m.messageId

/-- An error, or nothing. -/
abbrev CallError := Option String

inductive CallPhase where
  | acquiring
  | sending
  | waiting
  | cancelling
  | releasing (error : CallError)
  | returned (error : CallError)
  deriving DecidableEq

structure Call where
  id : String
  messageType : MessageType
  cancelable : Bool
  finished : Bool
  done : Option CallError
  renewCh : Bool
  canceled : Bool
  phase : CallPhase

/-- Why a loop looks through the lanes. -/
inductive Cause where
  | ack (correlationId : String)
  | report (correlationId : String) (error : CallError)
  | sendFailed (message : Outgoing) (error : String)
  | closed (error : String)
  deriving DecidableEq

namespace Cause

/-- The ID of the call it is about. The end of the stream is about every call. -/
def target : Cause → Option String
  | .ack id | .report id _ => some id
  | .sendFailed message _ => some message.target
  | .closed _ => none

/-- Whether the loop takes this call to be meant. -/
def Matches (cause : Cause) (id : String) : Prop := ∀ target ∈ cause.target, target = id

instance (cause : Cause) (id : String) : Decidable (cause.Matches id) :=
  inferInstanceAs (Decidable (∀ _ ∈ _, _))

/-- The loop ends at the first call that is meant. -/
def returns : Cause → Bool
  | .ack _ | .report _ _ => true
  | .sendFailed _ _ | .closed _ => false

/-- What the call is finished with. An acknowledgement only renews it. -/
def error? : Cause → Option CallError
  | .ack _ => none
  | .report _ error => some error
  | .sendFailed _ error | .closed error => some (some error)

end Cause

inductive Scan where
  | idle
  | load (cause : Cause) (lane : Nat)
  | compare (cause : Cause) (lane call : Nat)
  /-- Before it looks at the flag of a call that is meant. -/
  | claim (cause : Cause) (lane call : Nat)
  /-- Before it sends to the channel of the call. -/
  | deliver (cause : Cause) (lane call : Nat)
  deriving DecidableEq

def Scan.cause? : Scan → Option Cause
  | .idle => none
  | .load cause _ | .compare cause _ _ | .claim cause _ _ | .deliver cause _ _ => some cause

structure CallTable where
  calls : List Call
  lanes : Nat → Option Nat
  writeCh : Channel Outgoing
  reader : Scan
  closed : Bool
  writer : Scan

inductive Waited where
  | done
  | renewed
  | leaseExpired
  | contextDone (error : String)

inductive CallLabel where
  /-- `doCall` is called, and finds the plugin in this state. -/
  | call (id : String) (messageType : MessageType) (cancelable : Bool) (state : PluginState)
  | acquire (k : Nat)
  | send (k : Nat)
  | sendRefused (k : Nat) (error : String)
  | wait (k : Nat) (waited : Waited)
  /-- The cancel callback sends its message, which gets an ID of its own. -/
  | cancelSent (k : Nat) (messageId : String)
  | cancelRefused (k : Nat) (error : String)
  | release (k : Nat)
  | receiveAck (correlationId : String)
  | receiveReport (correlationId : String) (error : CallError)
  | close
  | read
  | write
  | writeFailed (error : String)
  | writeScan

namespace CallTable

def initial : CallTable := ⟨[], fun _ => none, .empty writeChSize, .idle, false, .idle⟩

def setCall (t : CallTable) (k : Nat) (call : Call) : CallTable :=
  { t with calls := t.calls.set k call }

section Steps

variable (name : String) (multi : Bool)

def newCall (id : String) (messageType : MessageType) (cancelable : Bool) (phase : CallPhase) :
    Call :=
  ⟨id, messageType, cancelable, false, none, false, false, phase⟩

def begin (id : String) (messageType : MessageType) (cancelable : Bool) (state : PluginState)
    (t : CallTable) : CallTable :=
  let phase := if state ≠ .streaming then
      .returned (some ("remote plugin is not streaming: " ++ name ++ " state=" ++
        toString state.code))
    else .acquiring
  { t with calls := t.calls ++ [newCall id messageType cancelable phase] }

variable (t : CallTable)

/-- `CompareAndSwap(nil, current)`. -/
def acquire (k : Nat) (call : Call) : CallTable :=
  let lane := index multi call.messageType
  match t.lanes lane with
  | none => { t.setCall k { call with phase := .sending } with
      lanes := update t.lanes lane (some k) }
  | some _ => t.setCall k { call with
      phase := .returned (some ("remote call already in progress: " ++ name)) }

/-- `finish` in the goroutine that waits for the call. -/
def finishOwn (call : Call) (error : CallError) : Call :=
  if call.finished then call else { call with finished := true, done := some error }

/-- The call ends by itself, unless another goroutine was first. -/
def expire (call : Call) (error : String) : Call :=
  if call.finished then { call with phase := .releasing none }
  else { call with finished := true, phase := .releasing (some error) }

def wait (call : Call) : Waited → Option Call
  | .done =>
    match call.done with
    | none => none
    | some error => some { call with done := none, phase := .releasing error }
  | .renewed => if call.renewCh then some { call with renewCh := false } else none
  | .leaseExpired => some (expire call ("remote call lease expired: " ++ call.id))
  | .contextDone error =>
    if call.canceled then none
    else if call.cancelable then some { call with canceled := true, phase := .cancelling }
    else some (expire { call with canceled := true } error)

/-- The deferred `CompareAndSwap(current, nil)`. -/
def release (k : Nat) (call : Call) (error : CallError) : CallTable :=
  let lane := index multi call.messageType
  { t.setCall k { call with phase := .returned error } with
    lanes := if t.lanes lane = some k then update t.lanes lane none else t.lanes }

def nextLane (cause : Cause) (lane : Nat) (hit : Bool) : Scan :=
  if hit && cause.returns then .idle else .load cause (lane + 1)

/-- One step of a loop over the lanes: the calls, and where the loop is. -/
def scan : Scan → Option (List Call × Scan)
  | .idle => none
  | .load cause lane =>
    if lane < laneCount then
      match t.lanes lane with
      | none => some (t.calls, nextLane cause lane false)
      | some k => some (t.calls, .compare cause lane k)
    else some (t.calls, .idle)
  | .compare cause lane k =>
    match t.calls[k]? with
    | none => none
    | some call =>
      if cause.Matches call.id then some (t.calls, .claim cause lane k)
      else some (t.calls, nextLane cause lane false)
  | .claim cause lane k =>
    match t.calls[k]? with
    | none => none
    | some call =>
      if call.finished then some (t.calls, nextLane cause lane true)
      else if cause.error?.isNone then some (t.calls, .deliver cause lane k)
      else some (t.calls.set k { call with finished := true }, .deliver cause lane k)
  | .deliver cause lane k =>
    match t.calls[k]? with
    | none => none
    | some call =>
      match cause.error? with
      | none => some (t.calls.set k { call with renewCh := true }, nextLane cause lane true)
      | some error =>
        -- the channel has room for one error
        if call.done.isSome then none
        else some (t.calls.set k { call with done := some error }, nextLane cause lane true)

def stepCall (k : Nat) (phase : CallPhase) (next : Call → Option CallTable) : Option CallTable :=
  match t.calls[k]? with
  | none => none
  | some call => if call.phase = phase then next call else none

/-- The read loop gets something to do. -/
def receive (cause : Cause) : Option CallTable :=
  if t.reader = .idle ∧ t.closed = false then some { t with reader := .load cause 0 } else none

def step : CallLabel → Option CallTable
  | .call id messageType cancelable state => some (t.begin name id messageType cancelable state)
  | .acquire k => t.stepCall k .acquiring fun call => some (t.acquire name multi k call)
  | .send k => t.stepCall k .sending fun call =>
    (t.writeCh.send? ⟨call.id, none⟩).map fun writeCh =>
      { t.setCall k { call with phase := .waiting } with writeCh := writeCh }
  | .sendRefused k error => t.stepCall k .sending fun call =>
    some (t.setCall k { finishOwn call (some error) with
      phase := .releasing (some ("send remote runtime message " ++ call.id ++ ": " ++ error)) })
  | .wait k waited => t.stepCall k .waiting fun call => (wait call waited).map (t.setCall k)
  | .cancelSent k messageId => t.stepCall k .cancelling fun call =>
    (t.writeCh.send? ⟨messageId, some call.id⟩).map fun writeCh =>
      { t.setCall k { call with phase := .waiting } with writeCh := writeCh }
  | .cancelRefused k error => t.stepCall k .cancelling fun call =>
    some (t.setCall k (expire call error))
  | .release k =>
    match t.calls[k]? with
    | none => none
    | some call =>
      match call.phase with
      | .releasing error => some (t.release multi k call error)
      | _ => none
  | .receiveAck id => t.receive (.ack id)
  | .receiveReport id error => t.receive (.report id error)
  | .close =>
    (t.receive (.closed ("remote plugin stream closed: " ++ name))).map fun t =>
      { t with closed := true }
  | .read =>
    (t.scan t.reader).map fun (calls, reader) => { t with calls := calls, reader := reader }
  | .write =>
    if t.writer = .idle then
      t.writeCh.receive?.map fun (_, writeCh) => { t with writeCh := writeCh }
    else none
  | .writeFailed error =>
    if t.writer = .idle then
      t.writeCh.receive?.map fun (message, writeCh) =>
        { t with writeCh := writeCh, writer := .load (.sendFailed message error) 0 }
    else none
  | .writeScan =>
    (t.scan t.writer).map fun (calls, writer) => { t with calls := calls, writer := writer }

end Steps

/-! ## Who holds a lane -/

def InFlight : CallPhase → Prop
  | .sending | .waiting | .cancelling | .releasing _ => True
  | .acquiring | .returned _ => False

structure SameCall (a b : Call) : Prop where
  id : b.id = a.id
  messageType : b.messageType = a.messageType

/-- A loop has only claimed calls that are meant. -/
def Meant (calls : List Call) : Scan → Prop
  | .claim cause _ k | .deliver cause _ k =>
    ∃ call, calls[k]? = some call ∧ cause.Matches call.id
  | .idle | .load _ _ | .compare _ _ _ => True

/-- The call is in flight, with a message of this lane. -/
def Holds (multi : Bool) (calls : List Call) (k lane : Nat) : Prop :=
  ∃ call, calls[k]? = some call ∧ InFlight call.phase ∧ index multi call.messageType = lane

structure Good (multi : Bool) (t : CallTable) : Prop where
  lanes : ∀ lane k, t.lanes lane = some k ↔ Holds multi t.calls k lane
  reader : Meant t.calls t.reader
  writer : Meant t.calls t.writer

theorem initial_good (multi : Bool) : initial.Good multi where
  lanes _ _ := iff_of_false nofun nofun
  reader := trivial
  writer := trivial

section Preservation

variable {name : String} {multi : Bool} {t next : CallTable} {k : Nat} {call : Call}

theorem Meant.set {scan} (hscan : Meant t.calls scan) (hk : t.calls[k]? = some call) {changed}
    (hid : changed.id = call.id) : Meant (t.calls.set k changed) scan := by
  have hkeep : ∀ (cause : Cause) (j : Nat),
      (∃ call, t.calls[j]? = some call ∧ cause.Matches call.id) →
        ∃ call, (t.calls.set k changed)[j]? = some call ∧ cause.Matches call.id := by
    rintro cause j ⟨other, hother, hmatches⟩
    rw [getElem?_set hk]
    split
    next hj =>
      subst hj
      rw [hk] at hother
      cases hother
      exact ⟨changed, rfl, hid ▸ hmatches⟩
    · exact ⟨other, hother, hmatches⟩
  cases scan with
  | idle | load cause lane | compare cause lane j => trivial
  | claim cause lane j | deliver cause lane j => exact hkeep cause j hscan

theorem holds_iff (hk : t.calls[k]? = some call) (lane : Nat) : Holds multi t.calls k lane ↔
    InFlight call.phase ∧ index multi call.messageType = lane := by
  simp [Holds, hk]

theorem holds_set (hk : t.calls[k]? = some call) (changed : Call) (j lane : Nat) :
    Holds multi (t.calls.set k changed) j lane ↔
      if j = k then InFlight changed.phase ∧ index multi changed.messageType = lane
      else Holds multi t.calls j lane := by
  rw [Holds, getElem?_set hk]
  split
  · simp
  · rfl

theorem Good.held (ht : t.Good multi) (hk : t.calls[k]? = some call)
    (hflight : InFlight call.phase) : t.lanes (index multi call.messageType) = some k :=
  (ht.lanes _ k).mpr ⟨call, hk, hflight, rfl⟩

/-- A call changes without taking or leaving its lane. -/
theorem Good.setCall (ht : t.Good multi) (hk : t.calls[k]? = some call) {changed}
    (hsame : SameCall call changed) (hphase : InFlight changed.phase ↔ InFlight call.phase) :
    (t.setCall k changed).Good multi := by
  refine ⟨fun lane j => ?_, ht.reader.set hk hsame.id, ht.writer.set hk hsame.id⟩
  refine (ht.lanes lane j).trans (.trans ?_ (holds_set hk changed j lane).symm)
  split
  next hj => rw [hj, holds_iff hk, hphase, hsame.messageType]
  · rfl

theorem expire_sameCall (call : Call) (error : String) :
    SameCall call (expire call error) ∧ InFlight (expire call error).phase := by
  unfold expire
  split
  · exact ⟨⟨rfl, rfl⟩, trivial⟩
  · exact ⟨⟨rfl, rfl⟩, trivial⟩

theorem wait_sameCall {waited changed} (hwait : wait call waited = some changed)
    (hphase : call.phase = .waiting) : SameCall call changed ∧ InFlight changed.phase := by
  cases waited with
  | done =>
    simp only [wait] at hwait
    split at hwait
    · cases hwait
    · cases hwait
      exact ⟨⟨rfl, rfl⟩, trivial⟩
  | renewed =>
    obtain ⟨-, hchanged⟩ := ite_none_right_eq_some.mp hwait
    cases hchanged
    refine ⟨⟨rfl, rfl⟩, ?_⟩
    rw [hphase]
    trivial
  | leaseExpired =>
    cases hwait
    exact expire_sameCall call _
  | contextDone error =>
    obtain ⟨-, hwait⟩ := ite_none_left_eq_some.mp hwait
    split at hwait
    · cases hwait
      exact ⟨⟨rfl, rfl⟩, trivial⟩
    · cases hwait
      obtain ⟨hsame, hflight⟩ := expire_sameCall { call with canceled := true } error
      exact ⟨⟨hsame.id, hsame.messageType⟩, hflight⟩

theorem stepCall_eq_some {phase after} (hstep : t.stepCall k phase after = some next) :
    ∃ call, t.calls[k]? = some call ∧ call.phase = phase ∧ after call = some next := by
  unfold stepCall at hstep
  split at hstep
  · cases hstep
  next call hk =>
    obtain ⟨hphase, hafter⟩ := ite_none_right_eq_some.mp hstep
    exact ⟨call, hk, hphase, hafter⟩

/-- What a step of one loop does to the calls. -/
structure Scanned (t : CallTable) (scan : Scan) (calls : List Call) (after : Scan) : Prop where
  meant : Meant calls after
  touched : calls = t.calls ∨ ∃ cause k call changed, scan.cause? = some cause ∧
    t.calls[k]? = some call ∧ cause.Matches call.id ∧ calls = t.calls.set k changed ∧
    SameCall call changed ∧ changed.phase = call.phase

theorem meant_nextLane (calls : List Call) (cause : Cause) (lane : Nat) (hit : Bool) :
    Meant calls (nextLane cause lane hit) := by
  unfold nextLane
  split
  · trivial
  · trivial

theorem scanned_of_eq_some {scan after calls} (hmeant : Meant t.calls scan)
    (hscan : t.scan scan = some (calls, after)) : Scanned t scan calls after := by
  cases scan with
  | idle => cases hscan
  | load cause lane =>
    simp only [CallTable.scan] at hscan
    split at hscan
    · split at hscan
      · cases hscan
        exact ⟨meant_nextLane _ _ _ _, .inl rfl⟩
      · cases hscan
        exact ⟨trivial, .inl rfl⟩
    · cases hscan
      exact ⟨trivial, .inl rfl⟩
  | compare cause lane k =>
    simp only [CallTable.scan] at hscan
    split at hscan
    · cases hscan
    next call hk =>
      split at hscan
      next hmatches =>
        cases hscan
        exact ⟨⟨call, hk, hmatches⟩, .inl rfl⟩
      · cases hscan
        exact ⟨meant_nextLane _ _ _ _, .inl rfl⟩
  | claim cause lane k =>
    obtain ⟨call, hk, hmatches⟩ := hmeant
    simp only [CallTable.scan, hk] at hscan
    split at hscan
    · cases hscan
      exact ⟨meant_nextLane _ _ _ _, .inl rfl⟩
    · split at hscan
      · cases hscan
        exact ⟨⟨call, hk, hmatches⟩, .inl rfl⟩
      · cases hscan
        have hscanned : Meant t.calls (.deliver cause lane k) := ⟨call, hk, hmatches⟩
        exact ⟨hscanned.set hk rfl,
          .inr ⟨cause, k, call, _, rfl, hk, hmatches, rfl, ⟨rfl, rfl⟩, rfl⟩⟩
  | deliver cause lane k =>
    obtain ⟨call, hk, hmatches⟩ := hmeant
    simp only [CallTable.scan, hk] at hscan
    split at hscan
    · cases hscan
      exact ⟨meant_nextLane _ _ _ _,
        .inr ⟨cause, k, call, _, rfl, hk, hmatches, rfl, ⟨rfl, rfl⟩, rfl⟩⟩
    · obtain ⟨-, hscan⟩ := ite_none_left_eq_some.mp hscan
      cases hscan
      exact ⟨meant_nextLane _ _ _ _,
        .inr ⟨cause, k, call, _, rfl, hk, hmatches, rfl, ⟨rfl, rfl⟩, rfl⟩⟩

/-- The call whose own goroutine takes the step. -/
def owner : CallLabel → Option Nat
  | .acquire k | .send k | .sendRefused k _ | .wait k _ | .cancelSent k _ | .cancelRefused k _
  | .release k => some k
  | .call _ _ _ _ | .receiveAck _ | .receiveReport _ _ | .close | .read | .write
  | .writeFailed _ | .writeScan => none

/-- What the loop that takes the step is looking through the lanes for. -/
def working (t : CallTable) : CallLabel → Option Cause
  | .read => t.reader.cause?
  | .writeScan => t.writer.cause?
  | _ => none

/-- The ID of the call that is made. -/
def callId : CallLabel → Option String
  | .call id _ _ _ => some id
  | _ => none

/-- All that a step can do. -/
inductive Effect (multi : Bool) (t : CallTable) (label : CallLabel) : CallTable → Prop
  | stays (writeCh : Channel Outgoing) {reader writer : Scan} (closed : Bool)
      (hid : callId label = none) (hreader : Meant t.calls reader)
      (hwriter : Meant t.calls writer) :
      Effect multi t label ⟨t.calls, t.lanes, writeCh, reader, closed, writer⟩
  | begins {added : Call} (hid : callId label = some added.id) (hadded : ¬ InFlight added.phase) :
      Effect multi t label { t with calls := t.calls ++ [added] }
  | moves (writeCh : Channel Outgoing) {k : Nat} {call changed : Call} (hid : callId label = none)
      (howner : owner label = some k) (hk : t.calls[k]? = some call)
      (hsame : SameCall call changed) (hphase : InFlight changed.phase ↔ InFlight call.phase) :
      Effect multi t label { t.setCall k changed with writeCh := writeCh }
  | acquires {k : Nat} {call : Call} (hid : callId label = none) (howner : owner label = some k)
      (hk : t.calls[k]? = some call) (hout : ¬ InFlight call.phase)
      (hfree : t.lanes (index multi call.messageType) = none) :
      Effect multi t label { t.setCall k { call with phase := .sending } with
        lanes := update t.lanes (index multi call.messageType) (some k) }
  | releases {k : Nat} {call : Call} {error : CallError} (hid : callId label = none)
      (howner : owner label = some k) (hk : t.calls[k]? = some call)
      (hphase : call.phase = .releasing error) : Effect multi t label (t.release multi k call error)
  | touches {cause : Cause} {k : Nat} {call changed : Call} {reader writer : Scan}
      (hid : callId label = none) (hworking : t.working label = some cause)
      (hk : t.calls[k]? = some call) (hmatches : cause.Matches call.id)
      (hsame : SameCall call changed) (hphase : changed.phase = call.phase)
      (hreader : Meant (t.calls.set k changed) reader)
      (hwriter : Meant (t.calls.set k changed) writer) :
      Effect multi t label { t.setCall k changed with reader := reader, writer := writer }

theorem effect_of_step (hreader : Meant t.calls t.reader) (hwriter : Meant t.calls t.writer) {label}
    (hstep : t.step name multi label = some next) : Effect multi t label next := by
  cases label with
  | call id messageType cancelable state =>
    cases hstep
    refine .begins rfl ?_
    split
    · exact fun hflight => hflight
    · exact fun hflight => hflight
  | acquire k =>
    obtain ⟨call, hk, hphase, hnext⟩ := stepCall_eq_some hstep
    cases hnext
    have hout : ¬ InFlight call.phase := by rw [hphase]; exact fun hflight => hflight
    unfold CallTable.acquire
    dsimp only
    split
    next hfree => exact .acquires rfl rfl hk hout hfree
    · exact .moves t.writeCh rfl rfl hk ⟨rfl, rfl⟩ (iff_of_false id hout)
  | send k | cancelSent k messageId =>
    obtain ⟨call, hk, hphase, hnext⟩ := stepCall_eq_some hstep
    obtain ⟨writeCh, -, rfl⟩ := map_eq_some_iff.mp hnext
    exact .moves writeCh rfl rfl hk ⟨rfl, rfl⟩ (by rw [hphase]; exact .rfl)
  | sendRefused k error =>
    obtain ⟨call, hk, hphase, hnext⟩ := stepCall_eq_some hstep
    cases hnext
    refine .moves t.writeCh rfl rfl hk ?_ (by rw [hphase]; exact .rfl)
    unfold finishOwn
    split
    · exact ⟨rfl, rfl⟩
    · exact ⟨rfl, rfl⟩
  | wait k waited =>
    obtain ⟨call, hk, hphase, hnext⟩ := stepCall_eq_some hstep
    obtain ⟨changed, hwait, rfl⟩ := map_eq_some_iff.mp hnext
    obtain ⟨hsame, hflight⟩ := wait_sameCall hwait hphase
    exact .moves t.writeCh rfl rfl hk hsame (iff_of_true hflight (by rw [hphase]; trivial))
  | cancelRefused k error =>
    obtain ⟨call, hk, hphase, hnext⟩ := stepCall_eq_some hstep
    cases hnext
    obtain ⟨hsame, hflight⟩ := expire_sameCall call error
    exact .moves t.writeCh rfl rfl hk hsame (iff_of_true hflight (by rw [hphase]; trivial))
  | release k =>
    simp only [CallTable.step] at hstep
    split at hstep
    · cases hstep
    next call hk =>
      split at hstep
      next error hphase =>
        cases hstep
        exact .releases rfl rfl hk hphase
      · cases hstep
  | receiveAck id | receiveReport id error =>
    obtain ⟨-, hnext⟩ := ite_none_right_eq_some.mp hstep
    cases hnext
    exact .stays _ _ rfl trivial hwriter
  | close =>
    obtain ⟨middle, hreceive, rfl⟩ := map_eq_some_iff.mp hstep
    obtain ⟨-, hnext⟩ := ite_none_right_eq_some.mp hreceive
    cases hnext
    exact .stays _ _ rfl trivial hwriter
  | read =>
    obtain ⟨⟨calls, reader⟩, hscan, rfl⟩ := map_eq_some_iff.mp hstep
    obtain ⟨hmeant, htouched⟩ := scanned_of_eq_some hreader hscan
    rcases htouched with rfl | ⟨cause, k, call, changed, hcause, hk, hmatches, rfl, hsame, hphase⟩
    · exact .stays _ _ rfl hmeant hwriter
    · exact .touches rfl hcause hk hmatches hsame hphase hmeant (hwriter.set hk hsame.id)
  | write =>
    obtain ⟨-, hreceive⟩ := ite_none_right_eq_some.mp hstep
    obtain ⟨received, -, rfl⟩ := map_eq_some_iff.mp hreceive
    exact .stays _ _ rfl hreader hwriter
  | writeFailed error =>
    obtain ⟨-, hreceive⟩ := ite_none_right_eq_some.mp hstep
    obtain ⟨received, -, rfl⟩ := map_eq_some_iff.mp hreceive
    exact .stays _ _ rfl hreader trivial
  | writeScan =>
    obtain ⟨⟨calls, writer⟩, hscan, rfl⟩ := map_eq_some_iff.mp hstep
    obtain ⟨hmeant, htouched⟩ := scanned_of_eq_some hwriter hscan
    rcases htouched with rfl | ⟨cause, k, call, changed, hcause, hk, hmatches, rfl, hsame, hphase⟩
    · exact .stays _ _ rfl hreader hmeant
    · exact .touches rfl hcause hk hmatches hsame hphase (hreader.set hk hsame.id) hmeant

/-! ## Invariants -/

namespace Good

theorem acquire (ht : t.Good multi) (hk : t.calls[k]? = some call) (hout : ¬ InFlight call.phase)
    (hfree : t.lanes (index multi call.messageType) = none) :
    ({ t.setCall k { call with phase := .sending } with
        lanes := update t.lanes (index multi call.messageType) (some k) } :
      CallTable).Good multi := by
  refine ⟨fun lane j => ?_, ht.reader.set hk rfl, ht.writer.set hk rfl⟩
  refine .trans ?_ (holds_set hk _ j lane).symm
  have hbefore := ht.lanes lane j
  by_cases hlane : lane = index multi call.messageType
  · rw [hlane, hfree] at hbefore
    simp [hlane, ← hbefore, InFlight, eq_comm]
  · simp only [update_of_ne hlane, hbefore, Ne.symm hlane, and_false]
    split
    next hj => simp [hj, holds_iff hk, hout]
    · rfl

theorem release (ht : t.Good multi) (hk : t.calls[k]? = some call) {error}
    (hphase : call.phase = .releasing error) : (t.release multi k call error).Good multi := by
  have hheld := ht.held hk (by rw [hphase]; trivial)
  refine ⟨fun lane j => ?_, ht.reader.set hk rfl, ht.writer.set hk rfl⟩
  refine .trans ?_ (holds_set hk _ j lane).symm
  have hbefore := ht.lanes lane j
  by_cases hlane : lane = index multi call.messageType
  · rw [hlane, hheld, some.injEq] at hbefore
    simp [CallTable.release, hlane, hheld, ← hbefore, InFlight, eq_comm]
  · simp only [CallTable.release, hheld, if_true, update_of_ne hlane, hbefore]
    split
    next hj => simp [hj, holds_iff hk, InFlight, Ne.symm hlane]
    · rfl

/-- A call is made that is not in a lane yet. -/
theorem append (ht : t.Good multi) {added} (hadded : ¬ InFlight added.phase) :
    ({ t with calls := t.calls ++ [added] } : CallTable).Good multi := by
  have hkeep : ∀ (j : Nat) (other : Call), t.calls[j]? = some other →
      (t.calls ++ [added])[j]? = some other := by
    intro j other hj
    obtain ⟨hlt, -⟩ := List.getElem?_eq_some_iff.mp hj
    rw [getElem?_append_left hlt, hj]
  have hmeant : ∀ scan : Scan, Meant t.calls scan → Meant (t.calls ++ [added]) scan := by
    intro scan hscan
    cases scan with
    | idle | load cause lane | compare cause lane j => trivial
    | claim cause lane j | deliver cause lane j =>
      obtain ⟨call, hj, hmatches⟩ := hscan
      exact ⟨call, hkeep j call hj, hmatches⟩
  refine ⟨fun lane j => ?_, hmeant _ ht.reader, hmeant _ ht.writer⟩
  rw [ht.lanes]
  refine ⟨fun ⟨call, hj, hholds⟩ => ⟨call, hkeep j call hj, hholds⟩, ?_⟩
  rintro ⟨call, hj, hflight, hlane⟩
  rw [getElem?_append, getElem?_singleton] at hj
  split at hj
  · exact ⟨call, hj, hflight, hlane⟩
  · obtain ⟨-, hcall⟩ := ite_none_right_eq_some.mp hj
    cases hcall
    exact absurd hflight hadded

theorem effect (ht : t.Good multi) {label} (heffect : Effect multi t label next) :
    next.Good multi := by
  cases heffect with
  | stays writeCh closed hid hreader hwriter => exact ⟨ht.lanes, hreader, hwriter⟩
  | begins hid hadded => exact ht.append hadded
  | moves writeCh hid howner hk hsame hphase =>
    have hset := ht.setCall hk hsame hphase
    exact ⟨hset.lanes, hset.reader, hset.writer⟩
  | acquires hid howner hk hout hfree => exact ht.acquire hk hout hfree
  | releases hid howner hk hphase => exact ht.release hk hphase
  | touches hid hworking hk hmatches hsame hphase hreader hwriter =>
    have hset := ht.setCall hk hsame (by rw [hphase])
    exact ⟨hset.lanes, hreader, hwriter⟩

theorem run (ht : t.Good multi) {labels}
    (hrun : run (CallTable.step name multi) t labels = some next) : next.Good multi := by
  refine run_invariant (Good multi) ?_ ht hrun
  intro state label after hgood hstep
  exact hgood.effect (effect_of_step hgood.reader hgood.writer hstep)

end Good

/-- A call is changed by its own goroutine, or by a loop for which it is meant. -/
theorem Effect.touched {label} (heffect : Effect multi t label next) (hk : t.calls[k]? = some call)
    (hchange : next.calls[k]? ≠ some call) :
    owner label = some k ∨ ∃ cause, t.working label = some cause ∧ cause.Matches call.id := by
  -- where one call is set, it is this one
  have hset : ∀ {j : Nat} {changed : Call}, (t.calls.set j changed)[k]? ≠ some call → j = k := by
    intro j changed hne
    by_contra hjk
    rw [getElem?_set_ne hjk] at hne
    exact hne hk
  cases heffect with
  | stays => exact absurd hk hchange
  | begins =>
    obtain ⟨hlt, -⟩ := List.getElem?_eq_some_iff.mp hk
    exact absurd ((getElem?_append_left hlt).trans hk) hchange
  | moves _ _ howner | acquires _ howner | releases _ howner => exact .inl (hset hchange ▸ howner)
  | touches _ hworking hj hmatches =>
    obtain rfl := hset hchange
    rw [hk] at hj
    cases hj
    exact .inr ⟨_, hworking, hmatches⟩

/-- The IDs of the calls are those that were given to them. -/
theorem Effect.ids {label} (heffect : Effect multi t label next) :
    next.calls.map Call.id = t.calls.map Call.id ++ (callId label).toList := by
  cases heffect with
  | stays _ _ hid | begins hid => simp [hid]
  | moves _ hid _ hk hsame | touches hid _ hk _ hsame =>
    rw [hid, toList_none, append_nil]
    exact map_set hk Call.id hsame.id
  | acquires hid _ hk | releases hid _ hk =>
    rw [hid, toList_none, append_nil]
    exact map_set hk Call.id rfl

theorem run_ids {labels} (ht : t.Good multi)
    (hrun : run (CallTable.step name multi) t labels = some next) :
    next.calls.map Call.id = t.calls.map Call.id ++ labels.filterMap callId := by
  induction labels generalizing t with
  | nil =>
    cases hrun
    simp
  | cons label rest ih =>
    obtain ⟨middle, hstep, hrest⟩ := run_cons_eq_some.mp hrun
    have heffect := effect_of_step ht.reader ht.writer hstep
    rw [ih (ht.effect heffect) hrest, heffect.ids, append_assoc]
    cases hid : callId label with
    | none | some id => simp [hid]

/-- Replies are matched to their calls. -/
structure Matched (name : String) (multi : Bool) (t : CallTable) : Prop where
  alone : ∀ (j k : Nat) (a b : Call), t.calls[j]? = some a → t.calls[k]? = some b →
    InFlight a.phase → InFlight b.phase → index multi a.messageType = index multi b.messageType →
    j = k
  released : ∀ (k : Nat) (call : Call) (error : CallError), t.calls[k]? = some call →
    call.phase = .returned error → ∀ lane, t.lanes lane ≠ some k
  /-- Whatever changes a call next is its own goroutine, or a loop that works for the end
  of the stream or for something with the ID of this call, which no other call has. -/
  meant : ∀ label next, t.step name multi label = some next → ∀ (k : Nat) (call : Call),
    t.calls[k]? = some call → next.calls[k]? ≠ some call →
    owner label = some k ∨ ∃ cause, t.working label = some cause ∧ cause.Matches call.id ∧
      ∀ (j : Nat) (other : Call), t.calls[j]? = some other → cause.target = some other.id → j = k

/-- However the calls, the read loop and the write loop interleave, as long as no two
calls get the same ID, replies are matched to their calls. -/
theorem run_matched {labels : List CallLabel} (hunique : (labels.filterMap callId).Nodup)
    (hrun : run (CallTable.step name multi) initial labels = some t) :
    t.Matched name multi := by
  have hgood := (initial_good multi).run hrun
  have hids := run_ids (initial_good multi) hrun
  have hnodup : (t.calls.map Call.id).Nodup := by
    rw [hids]
    exact hunique
  refine ⟨?_, ?_, ?_⟩
  · intro j k a b hj hk ha hb hlane
    have hheld := hgood.held hj ha
    rw [hlane, hgood.held hk hb] at hheld
    exact (some.inj hheld).symm
  · intro k call error hk hphase lane hlane
    obtain ⟨other, hother, hflight, -⟩ := (hgood.lanes lane k).mp hlane
    rw [hk] at hother
    cases hother
    rw [hphase] at hflight
    exact hflight
  · intro label next hstep k call hk hchange
    have heffect := effect_of_step hgood.reader hgood.writer hstep
    rcases heffect.touched hk hchange with howner | ⟨cause, hworking, hmatches⟩
    · exact .inl howner
    · refine .inr ⟨cause, hworking, hmatches, ?_⟩
      intro j other hj htarget
      have hid : other.id = call.id := hmatches other.id htarget
      have hj' : (t.calls.map Call.id)[j]? = some call.id := by
        rw [getElem?_map, hj, map_some, hid]
      have hk' : (t.calls.map Call.id)[k]? = some call.id := by
        rw [getElem?_map, hk, map_some]
      obtain ⟨hlt, -⟩ := List.getElem?_eq_some_iff.mp hj'
      exact (getElem?_inj hlt hnodup).mp (hj'.trans hk'.symm)

/-- A payload whose lease expires, and another one in its lane when its report comes. -/
def lateReport : List CallLabel :=
  [.call "a" .payload true .streaming, .acquire 0, .send 0, .write, .wait 0 .leaseExpired,
    .release 0, .call "b" .payload true .streaming, .acquire 1, .send 1,
    .receiveReport "a" none, .read, .read, .read, .read, .receiveReport "b" none, .read, .read,
    .read, .read, .read, .wait 1 .done, .release 1]

theorem run_matched_lateReport :
    ∃ t, run (step "text" true) initial lateReport = some t ∧
      t.calls.map Call.phase =
        [.returned (some "remote call lease expired: a"), .returned none] ∧
      t.lanes 1 ≠ some 1 := by
  obtain ⟨t, hrun, ht⟩ := exists_of_decide (run (step "text" true) initial lateReport)
    (fun t => t.calls.map Call.phase =
      [.returned (some "remote call lease expired: a"), .returned none]) (by decide +kernel)
  refine ⟨t, hrun, ht, ?_⟩
  have hsecond : (t.calls.map Call.phase)[1]? = some (.returned none) := by rw [ht]; rfl
  rw [getElem?_map, map_eq_some_iff] at hsecond
  obtain ⟨call, hcall, hphase⟩ := hsecond
  exact (run_matched (by decide) hrun).released 1 call none hcall hphase 1

end Preservation

end CallTable

end Voce.Remote
