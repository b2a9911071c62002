import Voce.Engine.SessionManager
import Voce.Protocol.PacketCodec

/-! # WebSocket transport of the standalone server

The callbacks of one socket on its session. The library calls `OnOpen` once,
then `OnMessage` for every message, then `OnClose`, for accepted and for
rejected sockets alike. Replies to the peer and metrics are left out.
-/

namespace Voce.Realtime

open Engine Protocol List SessionManager ArrayHeap Workflow

inductive Opcode where
  | continuation
  | text
  | binary
  | closeConnection
  | ping
  | pong
  deriving DecidableEq

structure Message where
  opcode : Opcode
  body : List UInt8

/-- The packet of a binary message that unmarshals. Other messages are
dropped. -/
def Message.packet (message : Message) : Option (Packet (Buffer UInt8)) :=
  if message.opcode ≠ .binary then none
  else
    match Packet.new.unmarshal message.body with
    | (_, some _) => none
    | (packet, none) => some packet

def Message.Closes (message : Message) : Prop :=
  message.packet.any fun packet => packet.type = typeClose

instance : DecidablePred Message.Closes :=
  fun message => inferInstanceAs (Decidable (message.packet.any _ = true))

structure SocketHandler where
  session : SessionRef
  running : Bool
  held : Bool
  cancelled : Bool

def newSocketHandler (session : SessionRef) : SocketHandler := ⟨session, false, false, false⟩

namespace SocketHandler

variable {Key : Type}

def onOpen (m : SessionManager Key) (h : SocketHandler) : SessionManager Key × SocketHandler :=
  match m.acquire h.session with
  | (m, false) => (m, h)
  | (m, true) =>
    let h := { h with held := true, running := true }
    if (m.session h.session).workflow.state = .paused then
      match (m.session h.session).workflow.resume with
      | .ok workflow => (m.setWorkflow h.session workflow, h)
      | .error _ => (m, h)
    else (m, h)

def onClose (m : SessionManager Key) (h : SocketHandler) : SessionManager Key × SocketHandler :=
  -- only the release looks at whether the session was acquired
  let m := if h.held then m.release h.session else m
  let h := { h with running := false, cancelled := true }
  if (m.session h.session).workflow.state = .running then
    match (m.session h.session).workflow.pause with
    | .ok workflow => (m.setWorkflow h.session workflow, h)
    | .error _ => (m, h)
  else (m, h)

variable [DecidableEq Key]

def onMessage (h : SocketHandler) (m : SessionManager Key) (message : Message) :
    SessionManager Key :=
  match message.packet with
  | none => m
  | some packet =>
    if packet.type = typeAudio then
      match (m.session h.session).workflow.sendToHead packet.payload.contents.values with
      | .ok workflow => m.setWorkflow h.session workflow
      | .error _ => m
    else if packet.type = typeClose then m.removeSession (m.session h.session).key
    else m

def life (m : SessionManager Key) (r : SessionRef) (messages : List Message) :
    SessionManager Key :=
  let opened := onOpen m (newSocketHandler r)
  (onClose (messages.foldl opened.2.onMessage opened.1) opened.2).1

/-- A session looks the same to its holder and to the manager. -/
structure Unaffected (m m' : SessionManager Key) (r : SessionRef) : Prop where
  state : (m'.session r).workflow.state = (m.session r).workflow.state
  busy : (m'.session r).busy = (m.session r).busy
  sessions : m'.sessions = m.sessions
  head : (m'.session r).workflow.headAudio = (m.session r).workflow.headAudio

/-! ## Rejected sockets -/

omit [DecidableEq Key] in
theorem onOpen_of_busy {m : SessionManager Key} {h : SocketHandler}
    (hbusy : (m.session h.session).busy = true) : onOpen m h = (m, h) := by
  simp [onOpen, acquire, hbusy]

section Rejected

variable {h : SocketHandler} (hheld : h.held = false)

omit [DecidableEq Key]
include hheld

/-- Closing even a rejected socket leaves no workflow running. -/
theorem onClose_state_ne_running (m : SessionManager Key) :
    ((onClose m h).1.session h.session).workflow.state ≠ .running := by
  simp only [onClose, hheld, Bool.false_eq_true, if_false]
  split
  next hrunning =>
    simp [pause, WorkflowState.pause, hrunning, Except.map, setWorkflow, setSession]
  next hstate => exact hstate

theorem onClose_of_not_running {m : SessionManager Key}
    (hstate : (m.session h.session).workflow.state ≠ .running) : (onClose m h).1 = m := by
  simp [onClose, hheld, hstate]

theorem onClose_sessions (m : SessionManager Key) : (onClose m h).1.sessions = m.sessions := by
  simp only [onClose, hheld, Bool.false_eq_true, if_false]
  split
  · split
    · rfl
    · rfl
  · rfl

end Rejected

/-! ## Messages -/

/-- Only a close packet changes the map, and it takes the session's key out. -/
theorem onMessage_sessions (h : SocketHandler) (m : SessionManager Key) (message : Message) :
    (h.onMessage m message).sessions =
      if message.Closes then m.sessions.erase (m.session h.session).key else m.sessions := by
  unfold onMessage Message.Closes
  split
  next hnone => simp [hnone]
  next packet hpacket =>
    simp only [hpacket, Option.any_some, decide_eq_true_eq]
    split
    next haudio =>
      have hne : packet.type ≠ typeClose := by
        rw [haudio]
        decide
      rw [if_neg hne]
      split
      · rfl
      · rfl
    · split
      · exact removeSession_sessions m _
      · rfl

theorem onMessage_key (h : SocketHandler) (m : SessionManager Key) (message : Message)
    (b : SessionRef) : ((h.onMessage m message).session b).key = (m.session b).key := by
  unfold onMessage
  split
  · rfl
  · split
    · split
      · exact setWorkflow_congr (f := (·.key)) (fun _ _ => rfl) m _ _ b
      · rfl
    · split
      · exact removeSession_congr (f := (·.key)) (fun _ _ => rfl) m _ b
      · rfl

variable {m : SessionManager Key} {h : SocketHandler}

/-- A message changes nothing while the workflow does not run, unless it closes
a session that is in the map. -/
theorem onMessage_of_not_running {message}
    (hstate : (m.session h.session).workflow.state ≠ .running)
    (hclose : message.Closes → (m.session h.session).key ∉ m.sessions) :
    h.onMessage m message = m := by
  have herror : ∀ payload, ∃ error,
      (m.session h.session).workflow.sendToHead payload = .error error := by
    simp [sendToHead, ensureRunning, hstate]
  unfold onMessage
  split
  · rfl
  next packet hpacket =>
    split
    · obtain ⟨error, heq⟩ := herror packet.payload.contents.values
      rw [heq]
    · split
      next htype =>
        have habsent := hclose (by simp [Message.Closes, hpacket, htype])
        rw [removeSession, AList.lookup_eq_none.mpr habsent]
      · rfl

theorem foldl_onMessage_of_not_running {messages : List Message}
    (hstate : (m.session h.session).workflow.state ≠ .running)
    (hclose : ∀ message ∈ messages, message.Closes → (m.session h.session).key ∉ m.sessions) :
    messages.foldl h.onMessage m = m := by
  induction messages with
  | nil => rfl
  | cons message rest ih =>
    rw [foldl_cons, onMessage_of_not_running hstate (hclose message mem_cons_self)]
    exact ih fun other hother => hclose other (mem_cons_of_mem message hother)

/-- A session's key does not come back to the map. -/
theorem foldl_onMessage_not_mem {messages : List Message} {key}
    (hkey : (m.session h.session).key = key)
    (hclose : key ∉ m.sessions ∨ ∃ message ∈ messages, message.Closes) :
    key ∉ (messages.foldl h.onMessage m).sessions := by
  induction messages generalizing m with
  | nil =>
    rcases hclose with habsent | ⟨message, hmessage, -⟩
    · exact habsent
    · cases hmessage
  | cons message rest ih =>
    apply ih ((onMessage_key h m message _).trans hkey)
    rw [onMessage_sessions, hkey]
    by_cases hcloses : message.Closes
    · left
      rw [if_pos hcloses, AList.mem_erase]
      exact fun hmem => hmem.1 rfl
    · rw [if_neg hcloses]
      rcases hclose with habsent | ⟨other, hother, hothercloses⟩
      · exact .inl habsent
      · rcases mem_cons.mp hother with rfl | hrest
        · exact absurd hothercloses hcloses
        · exact .inr ⟨other, hrest, hothercloses⟩

/-- A socket that finds its session held leaves it alone exactly if the workflow
is not running and no close packet takes a mapped session away. -/
theorem life_unaffected_iff {m : SessionManager Key} {r : SessionRef} (messages : List Message)
    (hbusy : (m.session r).busy = true) :
    Unaffected m (life m r messages) r ↔ (m.session r).workflow.state ≠ .running ∧
        ((m.session r).key ∉ m.sessions ∨ ∀ message ∈ messages, ¬ message.Closes) := by
  have hlife : life m r messages =
      (onClose (messages.foldl (newSocketHandler r).onMessage m) (newSocketHandler r)).1 := by
    rw [life, onOpen_of_busy hbusy]
  rw [hlife]
  constructor
  · intro hunaffected
    constructor
    · rw [← hunaffected.state]
      exact onClose_state_ne_running rfl _
    · by_contra hnot
      rw [not_or, not_not] at hnot
      obtain ⟨hmem, hcloses⟩ := hnot
      have hsessions := hunaffected.sessions
      -- a close packet among the messages has taken the key out of the map
      rw [onClose_sessions rfl] at hsessions
      refine foldl_onMessage_not_mem (h := newSocketHandler r) (m := m) rfl (.inr ?_)
        (hsessions ▸ hmem)
      simpa using hcloses
  · rintro ⟨hstate, hclose⟩
    have hmessages : messages.foldl (newSocketHandler r).onMessage m = m := by
      refine foldl_onMessage_of_not_running hstate ?_
      intro message hmessage hcloses
      exact hclose.resolve_right fun hnone => hnone message hmessage hcloses
    rw [hmessages, onClose_of_not_running rfl hstate]
    exact ⟨rfl, rfl, rfl, rfl⟩

/-- One mapped session that a client holds, with a node that runs. -/
def heldSession (state : WorkflowState) : SessionManager Nat where
  timeout := 60000
  sessions := (∅ : AList fun _ : Nat => SessionRef).insert 7 0
  session := fun _ =>
    { key := 7
      workflow := ⟨"a", (∅ : AList fun _ : String => Nat).insert "a" 0, ∅, false, false,
        [⟨"echo", none, 0, true, .empty audioBufferSize⟩], false, state, none, []⟩
      createdAt := 0
      lastActive := 0
      busy := true }
  allocated := 1

def audioMessage : Message := ⟨.binary, [0x56, 0x43, 0x01, 0, 0, 0, 0, 1, 9]⟩
def closeMessage : Message := ⟨.binary, [0x56, 0x43, 0x04, 0, 0, 0, 0, 0]⟩

theorem life_unaffected_paused :
    Unaffected (heldSession .paused) (life (heldSession .paused) 0 [audioMessage]) 0 :=
  (life_unaffected_iff [audioMessage] rfl).mpr ⟨by decide, .inr (by decide)⟩

/-- A rejected socket that says nothing pauses the holder's workflow; its audio
reaches the head node and its close packet removes the session. -/
theorem rejected_life_affects_session :
    ¬ Unaffected (heldSession .running) (life (heldSession .running) 0 []) 0 ∧
      ((life (heldSession .running) 0 []).session 0).workflow.state = .paused ∧
      ((life (heldSession .running) 0 [audioMessage]).session 0).workflow.headAudio =
        some [[9]] ∧
      ((heldSession .running).session 0).workflow.headAudio = some [] ∧
      (life (heldSession .running) 0 [closeMessage]).sessions.lookup 7 = none := by
  refine ⟨?_, rfl, rfl, rfl, rfl⟩
  intro hunaffected
  exact absurd hunaffected.state (by decide)

end SocketHandler

end Voce.Realtime
