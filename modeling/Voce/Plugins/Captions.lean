import Voce.Foundation.Transducer

/-! # The caption plugin

It turns ASR results and the chunks of LLM replies into captions. While the user is still
speaking, the captions of the assistant are withheld.
-/

namespace Voce.Plugins.Captions

inductive Role where
  | user
  | assistant
  deriving DecidableEq

structure Caption where
  text : List UInt8
  role : Role
  isFinal : Bool
  deriving DecidableEq

structure Plugin where
  builder : List UInt8
  waitingUserFinal : Bool
  pendingAssistantFinal : Bool

def newPlugin : Plugin := ⟨[], false, false⟩

/-- A signal, or a payload with the fields that `GetAs` reads. -/
inductive Message where
  | signal (name : String)
  | asrResult (text : List UInt8) (isFinal : Bool)
  | llmChunk (sentence : List UInt8) (isFinal : Bool)
  | payload (name : String)
  deriving DecidableEq

/-- `SignalInterrupter` and `SignalUserSpeechStart`. -/
def Resets (name : String) : Prop := name = "interrupter" ∨ name = "user_speech_start"

instance (name : String) : Decidable (Resets name) := by
  unfold Resets
  infer_instance

/-- What goes into the plugin and what comes out of it, in order. -/
inductive Entry where
  | received (message : Message)
  | sentSignal (name : String)
  | sent (caption : Caption)
  deriving DecidableEq

namespace Plugin

/-- `flushPendingAssistantCaption`. -/
@[simp]
def flush (e : Plugin) : Plugin × List Entry :=
  if e.builder = [] then (e, [])
  else
    ({ e with
        builder := if e.pendingAssistantFinal then [] else e.builder
        pendingAssistantFinal := false },
      [.sent ⟨e.builder, .assistant, e.pendingAssistantFinal⟩])

/-- `OnSignal` and `OnPayload`: what they send. -/
@[simp] def handle (e : Plugin) : Message → Plugin × List Entry
  | .signal name => (if Resets name then newPlugin else e, [.sentSignal name])
  | .asrResult text false =>
    ({ e with waitingUserFinal := true }, [.sent ⟨text, .user, false⟩])
  | .asrResult text true =>
    let flushed := flush { e with waitingUserFinal := false }
    (flushed.1, .sent ⟨text, .user, true⟩ :: flushed.2)
  | .llmChunk sentence isFinal =>
    let text := e.builder ++ sentence
    if e.waitingUserFinal then
      ({ e with
          builder := text
          pendingAssistantFinal := e.pendingAssistantFinal || isFinal }, [])
    else
      ({ e with builder := if isFinal then [] else text }, [.sent ⟨text, .assistant, isFinal⟩])
  | .payload _ => (e, [])

@[simp] def receive (e : Plugin) (message : Message) : Plugin × List Entry :=
  ((e.handle message).1, .received message :: (e.handle message).2)

end Plugin

/-- The plugin after these messages, and the log of what went in and out. -/
def run (messages : List Message) : Plugin × List Entry :=
  Transducer.run Plugin.receive newPlugin messages

@[simp] def nextChunks (chunks : List (List UInt8 × Bool)) : Entry → List (List UInt8 × Bool)
  | .received (.llmChunk sentence isFinal) => chunks ++ [(sentence, isFinal)]
  | .received (.signal name) => if Resets name then [] else chunks
  | .sent ⟨_, .assistant, true⟩ => []
  | _ => chunks

/-- The LLM chunks since the last final caption of the assistant or reset. -/
def chunks (log : List Entry) : List (List UInt8 × Bool) := log.foldl nextChunks []

@[simp] def nextSpeaks (speaks : Bool) : Entry → Bool
  | .received (.asrResult _ isFinal) => !isFinal
  | .received (.signal name) => if Resets name then false else speaks
  | _ => speaks

/-- The last ASR result is not final, and no reset came after it. -/
def userSpeaks (log : List Entry) : Bool := log.foldl nextSpeaks false

/-- The caption of an ASR result. -/
def Message.caption? : Message → Option Caption
  | .asrResult text isFinal => some ⟨text, .user, isFinal⟩
  | _ => none

def Entry.userCaption? : Entry → Option Caption
  | .sent ⟨text, .user, isFinal⟩ => some ⟨text, .user, isFinal⟩
  | _ => none

/-- When the user's final result arrives and a final chunk is withheld, some text is too. -/
def Timely (e : Plugin) : List Message → Prop
  | [] => True
  | message :: rest =>
    (∀ text, message = .asrResult text true → e.pendingAssistantFinal = true → e.builder ≠ []) ∧
      Timely (e.receive message).1 rest

/-- The plugin's fields in terms of the log. That a withheld chunk is final is only known to be
recent under the condition `timely`. -/
structure Tracks (timely : Prop) (e : Plugin) (log : List Entry) : Prop where
  builder : e.builder = (chunks log).flatMap Prod.fst
  waiting : e.waitingUserFinal = userSpeaks log
  pending : timely → e.pendingAssistantFinal = true →
    userSpeaks log = true ∧ ∃ sentence, (sentence, true) ∈ chunks log

/-- A caption of the assistant that is sent after this log. -/
structure Fits (timely : Prop) (log : List Entry) (caption : Caption) : Prop where
  text : caption.text = (chunks log).flatMap Prod.fst
  silent : userSpeaks log = false
  final : timely → caption.isFinal = true → ∃ sentence, (sentence, true) ∈ chunks log

/-- Every caption of the assistant in the rest of a log fits what comes before it. -/
@[simp] def Faithful (timely : Prop) (log : List Entry) : List Entry → Prop
  | [] => True
  | entry :: rest =>
    (∀ caption, entry = .sent caption → caption.role = .assistant → Fits timely log caption) ∧
      Faithful timely (log ++ [entry]) rest

@[simp] theorem chunks_append (log entries : List Entry) :
    chunks (log ++ entries) = entries.foldl nextChunks (chunks log) := by
  simp [chunks]

@[simp] theorem userSpeaks_append (log entries : List Entry) :
    userSpeaks (log ++ entries) = entries.foldl nextSpeaks (userSpeaks log) := by
  simp [userSpeaks]

variable {timely : Prop} {e : Plugin} {log : List Entry}

theorem Tracks.congr {later : List Entry} (h : Tracks timely e log)
    (hchunks : chunks later = chunks log) (hspeaks : userSpeaks later = userSpeaks log) :
    Tracks timely e later where
  builder := hchunks ▸ h.builder
  waiting := hspeaks ▸ h.waiting
  pending := by
    rw [hchunks, hspeaks]
    exact h.pending

/-- The step for one message. -/
theorem Tracks.receive (h : Tracks timely e log) (message : Message)
    (htext : timely → ∀ text, message = .asrResult text true →
      e.pendingAssistantFinal = true → e.builder ≠ []) :
    Tracks timely (e.receive message).1 (log ++ (e.receive message).2) ∧
      Faithful timely log (e.receive message).2 := by
  have ⟨hbuilder, hwaiting, hpending⟩ := h
  cases message with
  | signal name =>
    by_cases hresets : Resets name
    · refine ⟨⟨?_, ?_, ?_⟩, ?_⟩ <;> simp [hresets, newPlugin]
    · simpa [hresets] using h.congr (by simp [hresets]) (by simp [hresets])
  | payload name => simpa using h.congr (by simp) (by simp)
  | asrResult text isFinal =>
    cases isFinal with
    | false =>
      refine ⟨⟨?_, ?_, ?_⟩, ?_⟩
      · simpa using hbuilder
      · simp
      · simpa using fun ht hp => (hpending ht hp).2
      · simp
    | true =>
      by_cases hempty : e.builder = []
      · -- Nothing is withheld, so no final chunk is.
        refine ⟨⟨?_, ?_, ?_⟩, ?_⟩
        · simpa [hempty] using hbuilder
        · simp [hempty]
        · simpa [hempty] using fun ht hp => htext ht text rfl hp hempty
        · simp [hempty]
      · refine ⟨⟨?_, ?_, ?_⟩, ?_⟩
        · cases hfinal : e.pendingAssistantFinal <;> simp [hempty, hfinal, ← hbuilder]
        · simp [hempty]
        · simp [hempty]
        · have hfits : Fits timely
              (log ++ [.received (.asrResult text true), .sent ⟨text, .user, true⟩])
              ⟨e.builder, .assistant, e.pendingAssistantFinal⟩ :=
            ⟨by simpa using hbuilder, by simp, by simpa using fun ht hp => (hpending ht hp).2⟩
          simpa [hempty] using hfits
  | llmChunk sentence isFinal =>
    cases hspeaks : e.waitingUserFinal with
    | true =>
      have hlog : userSpeaks log = true := hwaiting ▸ hspeaks
      refine ⟨⟨?_, ?_, ?_⟩, ?_⟩
      · simp [hspeaks, hbuilder]
      · simpa [hspeaks] using hlog
      · intro ht hfinal
        cases isFinal with
        | true => simp [hspeaks, hlog]
        | false =>
          obtain ⟨earlier, hearlier⟩ := (hpending ht (by simpa [hspeaks] using hfinal)).2
          simpa [hspeaks, hlog] using ⟨earlier, hearlier⟩
      · simp [hspeaks]
    | false =>
      have hlog : userSpeaks log = false := hwaiting ▸ hspeaks
      refine ⟨⟨?_, ?_, ?_⟩, ?_⟩
      · cases isFinal <;> simp [hspeaks, hbuilder]
      · simpa [hspeaks] using hlog
      · -- While captions are shown no final chunk is withheld.
        intro ht hfinal
        obtain ⟨hspeaking, -⟩ := hpending ht (by simpa [hspeaks] using hfinal)
        simp [hlog] at hspeaking
      · have hfits : Fits timely (log ++ [.received (.llmChunk sentence isFinal)])
            ⟨e.builder ++ sentence, .assistant, isFinal⟩ :=
          ⟨by simp [hbuilder], by simpa using hlog,
            fun _ hfinal => ⟨sentence, by simpa using .inr hfinal⟩⟩
        simpa [hspeaks] using hfits

theorem faithful_append (first second : List Entry) : Faithful timely log (first ++ second) ↔
      Faithful timely log first ∧ Faithful timely (log ++ first) second := by
  induction first generalizing log with
  | nil => simp
  | cons entry rest ih => simp [ih, and_assoc]

variable (messages : List Message)

theorem run_faithful (h : Tracks timely e log) (htimely : timely → Timely e messages) :
    Faithful timely log (Transducer.run Plugin.receive e messages).2 := by
  induction messages generalizing e log with
  | nil => trivial
  | cons message rest ih =>
    obtain ⟨hnext, hsent⟩ := h.receive message fun ht => (htimely ht).1
    exact (faithful_append _ _).mpr ⟨hsent, ih hnext fun ht => (htimely ht).2⟩

/-- What is sent at a place of a log that follows another one. -/
theorem Faithful.fits {entries : List Entry} (h : Faithful timely log entries) {i caption}
    (hi : entries[i]? = some (.sent caption))
    (hrole : caption.role = .assistant) : Fits timely (log ++ entries.take i) caption := by
  induction entries generalizing log i with
  | nil => cases hi
  | cons entry rest ih =>
    cases i with
    | zero => simpa using h.1 caption (by simpa using hi) hrole
    | succ i => simpa using ih h.2 hi

theorem receive_userCaptions (message : Message) :
    (e.receive message).2.filterMap Entry.userCaption? = message.caption?.toList := by
  cases message with
  | signal name | payload name => rfl
  | llmChunk sentence isFinal =>
    cases hspeaks : e.waitingUserFinal <;>
      simp only [Plugin.receive, Plugin.handle, hspeaks] <;> rfl
  | asrResult text isFinal =>
    cases isFinal with
    | false => rfl
    | true =>
      by_cases hempty : e.builder = [] <;>
        simp only [Plugin.receive, Plugin.handle, Plugin.flush, hempty] <;> rfl

theorem run_userCaptions :
    (Transducer.run Plugin.receive e messages).2.filterMap Entry.userCaption? =
      messages.filterMap Message.caption? := by
  induction messages generalizing e with
  | nil => rfl
  | cons message rest ih =>
    rw [Transducer.run, List.filterMap_append, receive_userCaptions, ih]
    cases hcaption : message.caption? <;> simp [hcaption]

/-- The captions that are sent for any messages. A caption of the assistant has the text of
the chunks since the last final one or reset and is not sent while the user speaks, and every
ASR result has its one caption. If a final chunk is withheld with some text, a final caption
has a final chunk among those chunks. -/
theorem captions_of_messages :
    (∀ i caption, (run messages).2[i]? = some (.sent caption) → caption.role = .assistant →
      Fits (Timely newPlugin messages) ((run messages).2.take i) caption) ∧
    (run messages).2.filterMap Entry.userCaption? = messages.filterMap Message.caption? := by
  refine ⟨fun i caption hi hrole => ?_, run_userCaptions messages⟩
  have hnew : Tracks (Timely newPlugin messages) newPlugin [] :=
    ⟨rfl, rfl, nofun⟩
  exact (run_faithful messages hnew id).fits hi hrole

/-- A final chunk without text is withheld, and the next reply is withheld as well. -/
def keptMark : List Message :=
  [.asrResult [1] false, .llmChunk [] true, .asrResult [1] true, .llmChunk [2] true,
    .asrResult [3] false, .llmChunk [4] false, .asrResult [3] true]

/-- The last caption is final, but the only chunk since the last final one is not. -/
theorem keptMark_final :
    (run keptMark).2.getLast? = some (.sent ⟨[4], .assistant, true⟩) ∧
      chunks (run keptMark).2.dropLast = [([4], false)] := by
  decide

end Voce.Plugins.Captions
