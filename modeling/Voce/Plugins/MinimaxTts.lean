import Voce.Foundation.Transducer
import Voce.Foundation.WhiteSpace

/-! # Requests of the Minimax plugin

`OnStart` makes the options once. A request copies them, but the copy points to the same voice
setting, and the emotion of the payload is written there.
-/

namespace Voce.Plugins.MinimaxTts

structure MinimaxConfig where
  baseUrl : List Char
  model : List Char
  token : List Char
  voiceID : List Char

structure VoiceSetting where
  voiceId : List Char
  emotion : List Char
  deriving DecidableEq

abbrev VoiceRef := Nat

/-- The audio setting and the stream options, which nothing writes to, are left out. -/
structure MinimaxOptions where
  model : List Char
  stream : Bool
  voiceSetting : VoiceRef

structure Plugin where
  options : MinimaxOptions
  voices : VoiceRef → VoiceSetting

/-- What is marshalled: the options with the voice setting that they point to, and the text. -/
structure Body where
  model : List Char
  stream : Bool
  voiceSetting : VoiceSetting
  text : List Char
  deriving DecidableEq

structure Payload where
  text : List Char
  emotion : List Char
  final : Bool

def start (config : MinimaxConfig) : Plugin where
  options :=
    { model := if config.model = [] then "speech-01-turbo".toList else config.model
      stream := true
      voiceSetting := 0 }
  voices := fun _ => ⟨config.voiceID, []⟩

def onStart (config : MinimaxConfig) : Option Plugin :=
  if config.token = [] ∨ config.baseUrl = [] ∨ config.voiceID = [] then none
  else some (start config)

namespace Plugin

/-- The voice setting that every request points to. -/
def voice (p : Plugin) : VoiceSetting := p.voices p.options.voiceSetting

def newRequest (p : Plugin) (text emotion : List Char) : Plugin × Body :=
  let body := p.options
  let voices :=
    if trimSpace emotion ≠ [] then
      Function.update p.voices body.voiceSetting
        { p.voices body.voiceSetting with emotion := emotion }
    else p.voices
  ({ p with voices := voices }, ⟨body.model, body.stream, voices body.voiceSetting, text⟩)

/-- `OnPayload`, with the request that `process` makes. -/
def onPayload (p : Plugin) (payload : Payload) : Plugin × List Body :=
  if trimSpace payload.text = [] ∧ payload.final = false then (p, [])
  else if trimSpace payload.text = [] then (p, [])
  else
    let requested := p.newRequest payload.text payload.emotion
    (requested.1, [requested.2])

end Plugin

/-- A request with an emotion of its own. -/
def Emotional (payload : Payload) : Prop :=
  trimSpace payload.text ≠ [] ∧ trimSpace payload.emotion ≠ []

variable (p : Plugin)

theorem newRequest_voice (text emotion : List Char) : (p.newRequest text emotion).1.voice =
    if trimSpace emotion ≠ [] then { p.voice with emotion := emotion } else p.voice := by
  unfold Plugin.newRequest Plugin.voice
  split
  · exact Function.update_self _ _ _
  · rfl

theorem newRequest_body (text emotion : List Char) : (p.newRequest text emotion).2 =
    ⟨p.options.model, p.options.stream, (p.newRequest text emotion).1.voice, text⟩ :=
  rfl

/-- An emotion stays once it is written. -/
theorem onPayload_voice (payload : Payload) :
    (p.onPayload payload).1.options = p.options ∧
      (p.onPayload payload).1.voice.voiceId = p.voice.voiceId ∧
      ((p.onPayload payload).1.voice.emotion = [] ↔
        p.voice.emotion = [] ∧ ¬ Emotional payload) := by
  by_cases htext : trimSpace payload.text = []
  · simp [Plugin.onPayload, Emotional, htext]
  · have hrequest : (p.onPayload payload).1 = (p.newRequest payload.text payload.emotion).1 := by
      simp [Plugin.onPayload, htext]
    rw [hrequest, newRequest_voice]
    refine ⟨rfl, ?_⟩
    by_cases hemotion : trimSpace payload.emotion = []
    · simp [Emotional, hemotion]
    · have hwritten : payload.emotion ≠ [] := by
        rintro hnil
        exact hemotion (by rw [hnil]; rfl)
      simp [Emotional, htext, hemotion, hwritten]

theorem run_voice (history : List Payload) :
    let after := (Transducer.run Plugin.onPayload p history).1
    after.options = p.options ∧ after.voice.voiceId = p.voice.voiceId ∧
      (after.voice.emotion = [] ↔
        p.voice.emotion = [] ∧ ∀ earlier ∈ history, ¬ Emotional earlier) := by
  induction history generalizing p with
  | nil => simp [Transducer.run]
  | cons payload rest ih =>
    obtain ⟨hoptions, hid, hemotion⟩ := ih (p.onPayload payload).1
    obtain ⟨hoptions', hid', hemotion'⟩ := onPayload_voice p payload
    refine ⟨hoptions.trans hoptions', hid.trans hid', ?_⟩
    rw [List.forall_mem_cons, ← and_assoc, ← hemotion']
    exact hemotion

/-- After any payloads a request is the one that a new plugin would make exactly if it has an
emotion of its own or no request before it had one. -/
theorem request_fresh_iff (config : MinimaxConfig) (history : List Payload)
    (text emotion : List Char) :
    let after := (Transducer.run Plugin.onPayload (start config) history).1
    (after.newRequest text emotion).2 = ((start config).newRequest text emotion).2 ↔
      trimSpace emotion ≠ [] ∨ ∀ earlier ∈ history, ¬ Emotional earlier := by
  intro after
  obtain ⟨hoptions, hid, hemotion⟩ := run_voice (start config) history
  have hstart : (start config).voice = ⟨config.voiceID, []⟩ := rfl
  rw [hstart] at hid hemotion
  have hvoice : after.voice = ⟨config.voiceID, after.voice.emotion⟩ :=
    congrArg (VoiceSetting.mk · after.voice.emotion) hid
  rw [newRequest_body, newRequest_body, hoptions, newRequest_voice, newRequest_voice, hvoice,
    hstart]
  by_cases hblank : trimSpace emotion = []
  · simpa [hblank] using hemotion
  · simp [hblank]

/-- The emotion of the first request is in the second, whose payload has none. -/
theorem emotion_leaks :
    (Transducer.run Plugin.onPayload (start ⟨['u'], ['m'], ['t'], ['v']⟩)
      [⟨['a'], ['h', 'a', 'p', 'p', 'y'], false⟩, ⟨['b'], [], false⟩]).2.map (·.voiceSetting) =
      [⟨['v'], ['h', 'a', 'p', 'p', 'y']⟩, ⟨['v'], ['h', 'a', 'p', 'p', 'y']⟩] := by
  decide

end Voce.Plugins.MinimaxTts
