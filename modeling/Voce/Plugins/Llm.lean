import Voce.Foundation.Transducer
import Voce.Foundation.WhiteSpace

/-! # The base of the LLM plugins

A turn sends the history and the user's text to the provider, which streams a reply. The reply
is cut into sentences as its chunks come in. A turn that succeeds is added to the history.
-/

namespace Voce.Plugins.Llm

open List

/-! ## Sentences -/

def minSentenceLen : Nat := 20

def isBoundary (r : Char) : Bool :=
  r ∈ ['。', '！', '？', '!', '?', '，', ',', '；', ';', '：', ':', '\n', '\r']

/-- What `StreamChat` does: the contents it streams and the error it returns, which is
`context.Canceled` or another one. -/
inductive ChatError where
  | canceled
  | failed
  deriving DecidableEq

structure Reply where
  chunks : List (List Char)
  err : Option ChatError

structure Output where
  sentence : List Char
  isFinal : Bool
  deriving DecidableEq

section Sentences

-- `unicode.IsLetter` or `unicode.IsDigit`.
variable (isAlphaNum : Char → Bool)

def shouldSplit (s : List Char) (lastRune : Char) : Bool :=
  let trimmed := trimSpace s
  if trimmed = [] ∨ trimmed.any isAlphaNum = false then false
  else if lastRune ∈ ['。', '！', '？', '!', '?', '\n', '\r'] then true
  else minSentenceLen ≤ trimmed.length

/-- The loop body of `parseSentences`. -/
def visit (fragment : List Char) (char : Char) : List Char × List (List Char) :=
  let str := fragment ++ [char]
  if isBoundary char ∧ shouldSplit isAlphaNum str char then ([], [str]) else (str, [])

def parseSentences (fragment content : List Char) : List Char × List (List Char) :=
  Transducer.run (visit isAlphaNum) fragment content

variable (chunks : List (List Char))

/-- The handler's calls of `parseSentences`. It ignores chunks without content. -/
def stream : List Char × List (List Char) :=
  Transducer.run (parseSentences isAlphaNum) [] (chunks.filter (· ≠ []))

/-- What `processMessage` sends after `streamChat` has returned. -/
def finish (failedMessage : List Char) (err : Option ChatError) (fragment : List Char) : Output :=
  if err = some .failed ∧ failedMessage ≠ [] then ⟨failedMessage, true⟩
  else if trimSpace fragment ≠ [] then ⟨fragment, true⟩
  else ⟨[], true⟩

def processMessage (failedMessage : List Char) (reply : Reply) : List Output :=
  let streamed := stream isAlphaNum reply.chunks
  streamed.2.map (⟨·, false⟩) ++ [finish failedMessage reply.err streamed.1]

theorem parseSentences_flatten (fragment content : List Char) :
    (parseSentences isAlphaNum fragment content).2.flatten ++
      (parseSentences isAlphaNum fragment content).1 = fragment ++ content := by
  induction content generalizing fragment with
  | nil => simp [parseSentences, Transducer.run]
  | cons char rest ih =>
    simp only [parseSentences, Transducer.run] at ih ⊢
    rw [flatten_append, append_assoc, ih]
    unfold visit
    dsimp only
    split <;> simp

theorem run_parseSentences : Transducer.run (parseSentences isAlphaNum) [] chunks =
      parseSentences isAlphaNum [] chunks.flatten :=
  (Transducer.run_flatten _ _ chunks).symm

/-- However a reply is cut, its sentences and what is left are the same and make up the text. A
reply that succeeds ends with its only final output, and white space at most is not sent. -/
theorem sentences_lossless (failedMessage : List Char) (chunks : List (List Char)) :
    let parsed := Transducer.run (parseSentences isAlphaNum) [] chunks
    parsed = parseSentences isAlphaNum [] chunks.flatten ∧
      parsed.2.flatten ++ parsed.1 = chunks.flatten ∧
      ∃ last tail, processMessage isAlphaNum failedMessage ⟨chunks, none⟩ =
          parsed.2.map (⟨·, false⟩) ++ [⟨last, true⟩] ∧
        parsed.2.flatten ++ last ++ tail = chunks.flatten ∧ ∀ r ∈ tail, isSpace r = true := by
  intro parsed
  have hparsed : parsed = parseSentences isAlphaNum [] chunks.flatten :=
    run_parseSentences isAlphaNum chunks
  have htext : parsed.2.flatten ++ parsed.1 = chunks.flatten := by
    rw [hparsed]
    exact parseSentences_flatten isAlphaNum [] chunks.flatten
  refine ⟨hparsed, htext, ?_⟩
  simp only [processMessage, stream, run_parseSentences, flatten_filter_ne_nil, ← hparsed, finish]
  by_cases hblank : trimSpace parsed.1 = []
  · refine ⟨[], parsed.1, by simp [hblank], ?_, forall_isSpace_of_trimSpace hblank⟩
    rw [append_nil, htext]
  · exact ⟨parsed.1, [], by simp [hblank], by rw [append_nil, htext], by simp⟩

/-- After a cancelled reply something is said exactly if its last fragment is not blank. -/
theorem silent_iff (failedMessage : List Char) (chunks : List (List Char)) :
    ∃ out, processMessage isAlphaNum failedMessage ⟨chunks, some .canceled⟩ =
        (stream isAlphaNum chunks).2.map (⟨·, false⟩) ++ [out] ∧
      (out.sentence = [] ↔ trimSpace (stream isAlphaNum chunks).1 = []) := by
  refine ⟨_, rfl, ?_⟩
  simp only [finish]
  by_cases hblank : trimSpace (stream isAlphaNum chunks).1 = []
  · simp [hblank]
  · simp only [reduceCtorEq, Option.some.injEq, false_and, if_false, ne_eq, hblank,
      not_false_eq_true, if_true, iff_false]
    intro hnil
    exact hblank (by rw [hnil]; rfl)

end Sentences

/-- The words that the user has interrupted are spoken after all. -/
theorem interrupted_speaks :
    processMessage Char.isAlphanum [] ⟨[['H', 'i']], some .canceled⟩ = [⟨['H', 'i'], true⟩] := by
  decide

/-! ## History -/

inductive Message where
  | system (prompt : List Char)
  | user (text : List Char)
  | ai (content : List Char)
  deriving DecidableEq

structure CacheSession where
  messages : List Message
  capSize : Nat

def CacheSession.addMessage (s : CacheSession) (messages : List Message) : CacheSession :=
  let all := s.messages ++ messages
  { s with messages := if s.capSize < all.length then all.drop (all.length - s.capSize) else all }

structure BaseConfig where
  prompt : List Char
  historyLimit : Int

variable (config : BaseConfig)

/-- The number of turns that `Init` settles on. -/
def BaseConfig.limit : Nat :=
  if config.historyLimit ≤ 0 then 10 else config.historyLimit.toNat

structure BasePlugin where
  prompt : List Char
  session : CacheSession

def init : BasePlugin := ⟨config.prompt, ⟨[], config.limit⟩⟩

/-- A user's text and what the provider does with it. -/
structure Turn where
  text : List Char
  reply : Reply

/-- The messages that a turn adds if it succeeds. -/
def Turn.messages (turn : Turn) : List Message :=
  [.user turn.text, .ai turn.reply.chunks.flatten]

def succeeded (turns : List Turn) : List Turn := turns.filter (·.reply.err = none)

namespace BasePlugin

/-- The messages of the payload for the provider. -/
def request (e : BasePlugin) (text : List Char) : List Message :=
  let all := e.session.messages ++ [.user text]
  match all with
  | .system _ :: _ => all
  | _ => if e.prompt ≠ [] then .system e.prompt :: all else all

/-- `streamChat` after the provider has returned. -/
def streamChat (e : BasePlugin) (turn : Turn) : BasePlugin :=
  if turn.reply.err = none then { e with session := e.session.addMessage turn.messages } else e

end BasePlugin

theorem rtake_rtake_append {α : Type} (n : Nat) (old new : List α) :
    (old.rtake n ++ new).rtake n = (old ++ new).rtake n := by
  simp only [rtake_eq_reverse_take_reverse, reverse_append, reverse_reverse, take_append]
  rw [take_take, min_eq_left (Nat.sub_le _ _)]

theorem addMessage_eq (s : CacheSession) (messages : List Message) :
    s.addMessage messages = ⟨(s.messages ++ messages).rtake s.capSize, s.capSize⟩ := by
  unfold CacheSession.addMessage rtake
  dsimp only
  split
  · rfl
  next hfits => rw [Nat.sub_eq_zero_of_le (Nat.le_of_not_lt hfits), drop_zero]

/-- The session has the last messages of the turns that succeeded. -/
theorem foldl_streamChat (turns : List Turn) :
    turns.foldl BasePlugin.streamChat (init config) = ⟨config.prompt,
      ⟨((succeeded turns).flatMap Turn.messages).rtake config.limit, config.limit⟩⟩ := by
  induction turns using reverseRecOn with
  | nil => simp [init, succeeded]
  | append_singleton turns turn ih =>
    rw [foldl_concat, ih, BasePlugin.streamChat]
    split
    next hdone => simp [addMessage_eq, rtake_rtake_append, succeeded, hdone]
    next hfailed => simp [succeeded, hfailed]

theorem request_eq {e : BasePlugin}
    (hplain : ∀ m ∈ e.session.messages, ∀ prompt, m ≠ .system prompt) (text : List Char) :
    e.request text = (if e.prompt ≠ [] then [.system e.prompt] else []) ++
      e.session.messages ++ [.user text] := by
  have hdefault : ∀ all : List Message, (∀ prompt rest, all ≠ .system prompt :: rest) →
      (match all with
        | .system _ :: _ => all
        | _ => if e.prompt ≠ [] then .system e.prompt :: all else all) =
      (if e.prompt ≠ [] then [.system e.prompt] else []) ++ all := by
    intro all hall
    split
    · exact absurd rfl (hall _ _)
    · split <;> rfl
  rw [append_assoc]
  apply hdefault
  intro prompt rest hall
  cases hmessages : e.session.messages with
  | nil => simp [hmessages] at hall
  | cons m later =>
    simp only [hmessages, cons_append, cons.injEq] at hall
    exact hplain m (hmessages ▸ mem_cons_self) prompt hall.1

theorem length_flatMap_messages (turns : List Turn) :
    (turns.flatMap Turn.messages).length = 2 * turns.length := by
  simp [length_flatMap, Turn.messages, Nat.mul_comm]

/-- A request has the last messages of the turns that succeeded, as many as the limit says. They
are those of the last turns exactly if the limit is not below twice the number of turns. -/
theorem request_iff (config : BaseConfig) (turns : List Turn) (text : List Char) :
    let e := turns.foldl BasePlugin.streamChat (init config)
    let before := if config.prompt ≠ [] then [Message.system config.prompt] else []
    let done := succeeded turns
    e.request text =
        before ++ (done.flatMap Turn.messages).rtake config.limit ++ [.user text] ∧
      (e.request text = before ++
          (done.rtake (min config.limit done.length)).flatMap Turn.messages ++ [.user text] ↔
        2 * done.length ≤ config.limit) := by
  intro e before done
  have hrequest : e.request text =
      before ++ (done.flatMap Turn.messages).rtake config.limit ++ [.user text] := by
    have he : e = _ := foldl_streamChat config turns
    rw [he]
    refine request_eq ?_ text
    intro m hm prompt
    obtain ⟨turn, -, hturn⟩ := mem_flatMap.mp (mem_of_mem_drop hm)
    rintro rfl
    simp [Turn.messages] at hturn
  refine ⟨hrequest, ?_⟩
  rw [hrequest, append_cancel_right_eq, append_cancel_left_eq]
  have hpos : 1 ≤ config.limit := by
    unfold BaseConfig.limit
    split <;> omega
  constructor
  · intro hsame
    have hlength := congrArg length hsame
    simp only [rtake, length_drop, length_flatMap_messages] at hlength
    omega
  · intro hfits
    rw [Nat.min_eq_right (by omega), rtake, rtake, length_flatMap_messages, Nat.sub_self,
      Nat.sub_eq_zero_of_le hfits, drop_zero, drop_zero]

/-- With a limit of one turn the history is an answer without its question. -/
theorem answer_without_question :
    ([⟨['a'], ⟨[['b']], none⟩⟩].foldl BasePlugin.streamChat (init ⟨[], 1⟩)).request ['c'] =
      [.ai ['b'], .user ['c']] := by
  decide

end Voce.Plugins.Llm
