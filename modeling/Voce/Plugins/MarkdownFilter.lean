import Voce.Foundation.Transducer
import Voce.Foundation.WhiteSpace

/-! # The markdown filter

The plugin takes the markup out of an LLM reply that reaches it in chunks. Code blocks, the
targets of links and runs of backticks can span chunks, so it keeps a state between them.
-/

namespace Voce.Plugins.MarkdownFilter

open List Transducer

/-- `stateNormal`, `stateInCodeBlock` and `stateInLinkUrl`. -/
inductive Mode where
  | normal
  | inCodeBlock
  | inLinkUrl
  deriving DecidableEq

/-- `backtickBuf` holds nothing but backticks, so its length is all there is to it. -/
structure Plugin where
  state : Mode
  backtickBuf : Nat
  seenCloseBracket : Bool
  deriving DecidableEq

def newPlugin : Plugin := ⟨.normal, 0, false⟩

/-- A signal, an LLM chunk with the fields that `GetAs` reads, or a payload of another name. -/
inductive Message where
  | signal (name : String)
  | llmChunk (sentence : List Char) (isFinal : Bool)
  | payload (name : String)
  deriving DecidableEq

def signalInterrupter : String := "interrupter"

def backtick : Char := Char.ofNat 96

namespace Plugin

/-- The end of a run of backticks. Three or more of them open or close a code block. -/
def endRun (p : Plugin) : Plugin where
  state :=
    if 3 ≤ p.backtickBuf then if p.state = .inCodeBlock then .normal else .inCodeBlock
    else p.state
  backtickBuf := 0
  seenCloseBracket := p.seenCloseBracket

/-- The loop body for a character when no backticks are pending. -/
def visit (p : Plugin) (r : Char) : Plugin × List Char :=
  match p.state with
  | .inCodeBlock => (p, [])
  | .inLinkUrl => (if r = ')' then { p with state := .normal } else p, [])
  | .normal =>
    if r = '(' ∧ p.seenCloseBracket = true then
      ({ p with state := .inLinkUrl, seenCloseBracket := false }, [])
    else if r ∈ ['*', '_', '~', '#', '>', '[', '\\'] then
      ({ p with seenCloseBracket := false }, [])
    else if r = ']' then ({ p with seenCloseBracket := true }, [])
    else ({ p with seenCloseBracket := false }, [r])

def filterRune (p : Plugin) (r : Char) : Plugin × List Char :=
  if r = backtick then
    ({ p with backtickBuf := p.backtickBuf + 1, seenCloseBracket := false }, [])
  -- The character that ends the backticks is looked at again.
  else if 0 < p.backtickBuf then p.endRun.visit r
  else p.visit r

def filter (p : Plugin) (input : List Char) : Plugin × List Char :=
  Transducer.run filterRune p input

/-- `OnSignal` and `OnPayload`. -/
def receive (p : Plugin) : Message → Plugin × List Message
  | .signal name => (if name = signalInterrupter then newPlugin else p, [.signal name])
  | .payload name => (p, [.payload name])
  | .llmChunk text isFinal =>
    let filtered := p.filter text
    if trimSpace filtered.2 = [] ∧ isFinal = false then (filtered.1, [])
    else (filtered.1, [.llmChunk filtered.2 isFinal])

def run (p : Plugin) (messages : List Message) : Plugin × List Message :=
  Transducer.run receive p messages

end Plugin

def Message.sentence : Message → List Char
  | .llmChunk sentence _ => sentence
  | .signal _ | .payload _ => []

def sentences (messages : List Message) : List Char := messages.flatMap Message.sentence

/-- A reply as it is cut into chunks. -/
def reply (chunks : List (List Char)) (last : List Char) : List Message :=
  chunks.map (.llmChunk · false) ++ [.llmChunk last true]

/-- No chunk before the last is left with white space and nothing else. -/
def KeepsBlanks (p : Plugin) : List (List Char) → Prop
  | [] => True
  | text :: rest =>
    (trimSpace (p.filter text).2 = [] → (p.filter text).2 = []) ∧
      KeepsBlanks (p.filter text).1 rest

variable (p : Plugin)

theorem filter_append (first second : List Char) :
    p.filter (first ++ second) = (((p.filter first).1.filter second).1,
      (p.filter first).2 ++ ((p.filter first).1.filter second).2) :=
  run_append Plugin.filterRune p first second

theorem run_append (first second : List Message) :
    p.run (first ++ second) = (((p.run first).1.run second).1,
      (p.run first).2 ++ ((p.run first).1.run second).2) :=
  Transducer.run_append Plugin.receive p first second

theorem receive_llmChunk_fst (text : List Char) (isFinal : Bool) :
    (p.receive (.llmChunk text isFinal)).1 = (p.filter text).1 := by
  unfold Plugin.receive
  dsimp only
  split <;> rfl

/-- The last chunk is sent on whatever is left of it. -/
theorem run_last (text : List Char) :
    p.run [.llmChunk text true] = ((p.filter text).1, [.llmChunk (p.filter text).2 true]) := by
  simp [Plugin.run, run, Plugin.receive]

/-- The first of several chunks is dropped, or what is left of it is sent on. -/
theorem sentences_cons (text : List Char) (rest : List Message) :
    sentences (p.run (.llmChunk text false :: rest)).2 =
      (if trimSpace (p.filter text).2 = [] then [] else (p.filter text).2) ++
        sentences ((p.filter text).1.run rest).2 := by
  have hstate := receive_llmChunk_fst p text false
  simp only [Plugin.run, run, hstate, sentences, flatMap_append]
  by_cases hblank : trimSpace (p.filter text).2 = []
  · simp [Plugin.receive, hblank]
  · simp [Plugin.receive, hblank, Message.sentence]

variable (chunks : List (List Char))

theorem run_chunks_fst :
    (p.run (chunks.map (.llmChunk · false))).1 = (p.filter chunks.flatten).1 := by
  induction chunks generalizing p with
  | nil => rfl
  | cons text rest ih =>
    rw [flatten_cons, filter_append]
    simpa only [map_cons, Plugin.run, run, receive_llmChunk_fst] using ih _

theorem sentences_chunks_sublist :
    (sentences (p.run (chunks.map (.llmChunk · false))).2).Sublist (p.filter chunks.flatten).2 := by
  induction chunks generalizing p with
  | nil => exact List.Sublist.refl []
  | cons text rest ih =>
    rw [map_cons, sentences_cons, flatten_cons, filter_append]
    refine List.Sublist.append ?_ (ih _)
    split
    · exact nil_sublist _
    · exact List.Sublist.refl _

theorem sentences_chunks_eq_iff :
    sentences (p.run (chunks.map (.llmChunk · false))).2 = (p.filter chunks.flatten).2 ↔
      KeepsBlanks p chunks := by
  induction chunks generalizing p with
  | nil => simp [KeepsBlanks, Plugin.run, Plugin.filter, run, sentences]
  | cons text rest ih =>
    have hlength := (sentences_chunks_sublist (p.filter text).1 rest).length_le
    rw [map_cons, sentences_cons, flatten_cons, filter_append]
    simp only [KeepsBlanks, ← ih]
    split
    next hblank =>
      constructor
      · intro heq
        -- What is missing cannot be made up for by later chunks, which can only lose text too.
        have hempty : (p.filter text).2 = [] := by
          have hsame := congrArg length heq
          simp only [length_append, length_nil] at hsame
          exact length_eq_zero_iff.mp (by omega)
        exact ⟨fun _ => hempty, by simpa only [hempty, nil_append] using heq⟩
      · rintro ⟨hempty, heq⟩
        rw [hempty hblank, heq]
    next hblank => simp [hblank]

/-- What is sent on is the filtered reply if no chunk but the last is turned into mere white
space, and only then. Two cuts of a reply for which this holds give the same text. -/
theorem sentences_reply_eq_iff (chunks : List (List Char)) (last : List Char) :
    (sentences (newPlugin.run (reply chunks last)).2 =
        (newPlugin.filter (chunks.flatten ++ last)).2 ↔ KeepsBlanks newPlugin chunks) ∧
      ∀ otherChunks otherLast, otherChunks.flatten ++ otherLast = chunks.flatten ++ last →
        KeepsBlanks newPlugin chunks → KeepsBlanks newPlugin otherChunks →
        sentences (newPlugin.run (reply otherChunks otherLast)).2 =
          sentences (newPlugin.run (reply chunks last)).2 := by
  have hreply (chunks : List (List Char)) (last : List Char) :
      sentences (newPlugin.run (reply chunks last)).2 =
          (newPlugin.filter (chunks.flatten ++ last)).2 ↔ KeepsBlanks newPlugin chunks := by
    rw [← sentences_chunks_eq_iff, reply, run_append, filter_append, run_chunks_fst, run_last]
    simp [sentences, Message.sentence]
  refine ⟨hreply chunks last, ?_⟩
  intro otherChunks otherLast htext hkeeps hother
  rw [(hreply chunks last).mpr hkeeps, (hreply otherChunks otherLast).mpr hother, htext]

/-- A space that makes a chunk of its own is lost. -/
theorem blank_chunk_lost :
    sentences (newPlugin.run (reply [['a', ' ']] ['b'])).2 = ['a', ' ', 'b'] ∧
      sentences (newPlugin.run (reply [['a'], [' ']] ['b'])).2 = ['a', 'b'] := by
  decide

/-! ## What a text leaves behind

Of a text, from its last character back to the first. -/

/-- The character ends a run of three or more backticks, which opens or closes a code block. -/
def EndsRun (r : Char) (before : List Char) : Prop :=
  r ≠ backtick ∧ 3 ≤ (before.takeWhile (· = backtick)).length

instance (r : Char) (before : List Char) : Decidable (EndsRun r before) :=
  inferInstanceAs (Decidable (_ ∧ _))

def runs : List Char → Nat
  | [] => 0
  | r :: before => runs before + if EndsRun r before then 1 else 0

/-- The target of a link is open: no bracket closes it and no code block begins in it. -/
def OpenLink (text : List Char) : Prop :=
  ∃ target before, text = target ++ '(' :: ']' :: before ∧ ')' ∉ target ∧ runs target = 0

/-- The code blocks and link targets are closed, and the end is no backtick and no bracket. -/
structure Closed (text : List Char) : Prop where
  blocks : runs text % 2 = 0
  links : ¬ OpenLink text
  backticks : text.head? ≠ some backtick
  brackets : text.head? ≠ some ']'

theorem takeWhile_target (target before : List Char) :
    (target ++ '(' :: before).takeWhile (· = backtick) = target.takeWhile (· = backtick) := by
  induction target with
  | nil => rfl
  | cons r target ih => simp only [cons_append, takeWhile_cons, ih]

theorem openLink_cons_iff (r : Char) (before : List Char) :
    OpenLink (r :: before) ↔ r = '(' ∧ before.head? = some ']' ∨
      r ≠ ')' ∧ ¬ EndsRun r before ∧ OpenLink before := by
  constructor
  · rintro ⟨target, rest, heq, hopen, hruns⟩
    cases target with
    | nil =>
      cases heq
      exact .inl ⟨rfl, rfl⟩
    | cons first target =>
      cases heq
      rw [mem_cons, not_or] at hopen
      have hends : ¬ EndsRun r (target ++ '(' :: ']' :: rest) := by
        rw [EndsRun, takeWhile_target]
        intro hends
        simp [runs, EndsRun, hends] at hruns
      exact .inr ⟨Ne.symm hopen.1, hends, target, rest, rfl, hopen.2,
        (Nat.add_eq_zero_iff.mp hruns).1⟩
  · rintro (⟨rfl, hhead⟩ | ⟨hr, hends, target, rest, rfl, hopen, hruns⟩)
    · obtain ⟨rest, rfl⟩ := head?_eq_some_iff.mp hhead
      exact ⟨[], rest, rfl, not_mem_nil, rfl⟩
    · rw [EndsRun, takeWhile_target, ← EndsRun] at hends
      exact ⟨r :: target, rest, rfl, by simp [Ne.symm hr, hopen], by simp [runs, hends, hruns]⟩

/-- The state that a text leaves behind. -/
structure Leaves (text : List Char) (p : Plugin) : Prop where
  run : p.backtickBuf = (text.takeWhile (· = backtick)).length
  block : p.state = .inCodeBlock ↔ runs text % 2 = 1
  link : p.state = .inLinkUrl ↔ runs text % 2 = 0 ∧ OpenLink text
  bracket : p.seenCloseBracket = true ↔ p.state = .normal ∧ text.head? = some ']'

variable {text : List Char} {r : Char}

/-- The state in which a character after backticks is looked at. -/
theorem endRun_state (hp : Leaves text p) (hr : r ≠ backtick) :
    (p.endRun.state = .inCodeBlock ↔ runs (r :: text) % 2 = 1) ∧
      (p.endRun.state = .inLinkUrl ↔ runs (r :: text) % 2 = 0 ∧ ¬ EndsRun r text ∧ OpenLink text) ∧
      (p.seenCloseBracket = true ↔ p.endRun.state = .normal ∧ text.head? = some ']') := by
  have hends : EndsRun r text ↔ 3 ≤ p.backtickBuf := by rw [hp.run, EndsRun, and_iff_right hr]
  have hhead : 3 ≤ p.backtickBuf → text.head? ≠ some ']' := by
    intro hrun hhead
    obtain ⟨rest, rfl⟩ := head?_eq_some_iff.mp hhead
    rw [hp.run, takeWhile_cons_of_neg (by decide)] at hrun
    cases hrun
  have hblock := hp.block
  have hlink := hp.link
  have hbracket := hp.bracket
  simp only [runs, hends, Plugin.endRun]
  by_cases hrun : 3 ≤ p.backtickBuf
  · have hseen := hhead hrun
    cases hstate : p.state <;> grind
  · cases hstate : p.state <;> grind

theorem visit_leaves (hp : Leaves text p) (hr : r ≠ backtick) :
    Leaves (r :: text) (p.endRun.visit r).1 := by
  obtain ⟨hblock, hlink, hbracket⟩ := endRun_state p hp hr
  have hbuf : p.endRun.backtickBuf = 0 := rfl
  have hseen : p.endRun.seenCloseBracket = p.seenCloseBracket := rfl
  have hopen := openLink_cons_iff r text
  have htake : ((r :: text).takeWhile (· = backtick)).length = 0 := by simp [hr]
  have hmarkup : r ∈ ['*', '_', '~', '#', '>', '[', '\\'] → r ≠ ']' := by
    rintro hmem rfl
    exact absurd hmem (by decide)
  generalize p.endRun = q at *
  unfold Plugin.visit
  cases hstate : q.state with
  | inCodeBlock | inLinkUrl | normal => constructor <;> grind

theorem filterRune_leaves (hp : Leaves text p) (r : Char) :
    Leaves (r :: text) (p.filterRune r).1 := by
  by_cases hr : r = backtick
  · subst hr
    have hends : ¬ EndsRun backtick text := fun h => h.1 rfl
    have hruns : runs (backtick :: text) = runs text := by simp [runs, hends]
    have hother : backtick ≠ '(' ∧ backtick ≠ ')' := by decide
    have hlink : OpenLink (backtick :: text) ↔ OpenLink text := by
      rw [openLink_cons_iff]
      simp only [hends, hother, ne_eq, not_false_eq_true, true_and, false_and, false_or]
    rw [Plugin.filterRune, if_pos rfl]
    refine ⟨by simp [hp.run], ?_, ?_, by simp [backtick]⟩
    · rw [hruns]
      exact hp.block
    · rw [hruns, hlink]
      exact hp.link
  · have hsame : p.filterRune r = p.endRun.visit r := by
      rw [Plugin.filterRune, if_neg hr]
      split
      · rfl
      next hnone =>
        have hrun : p.endRun = p := by
          obtain ⟨state, buf, seen⟩ := p
          obtain rfl : buf = 0 := by simpa using hnone
          rfl
        rw [hrun]
    rw [hsame]
    exact visit_leaves p hp hr

theorem filter_leaves (text : List Char) : Leaves text (newPlugin.filter text.reverse).1 := by
  induction text with
  | nil => exact ⟨rfl, by decide, by simp [newPlugin, Plugin.filter, run, OpenLink], by decide⟩
  | cons r text ih =>
    rw [reverse_cons, filter_append]
    simpa [Plugin.filter, run] using filterRune_leaves _ ih r

/-- A reply leaves the state of a new plugin behind if its text is closed, and only then. -/
theorem run_reply_eq_newPlugin_iff (chunks : List (List Char)) (last : List Char) :
    (newPlugin.run (reply chunks last)).1 = newPlugin ↔
      Closed (chunks.flatten ++ last).reverse := by
  have hleaves := filter_leaves (chunks.flatten ++ last).reverse
  rw [reverse_reverse, filter_append] at hleaves
  rw [reply, run_append, run_chunks_fst, run_last]
  generalize (chunks.flatten ++ last).reverse = text at *
  generalize ((newPlugin.filter chunks.flatten).1.filter last).1 = p at *
  have hhead : text.head? = some backtick ↔ 0 < p.backtickBuf := by
    rw [hleaves.run]
    cases text <;> simp [takeWhile_cons, apply_ite]
  obtain ⟨-, hblock, hlink, hbracket⟩ := hleaves
  constructor
  · rintro rfl
    constructor <;> grind [newPlugin]
  · rintro ⟨hblocks, hlinks, hbackticks, hbrackets⟩
    obtain ⟨state, buf, seen⟩ := p
    cases state <;> grind [newPlugin]

/-- A letter after three or more backticks is shown if they close a code block. -/
theorem filter_after_run (state : Mode) {buf} (seen : Bool) (hbuf : 3 ≤ buf) :
    (Plugin.filter ⟨state, buf, seen⟩ ['x']).2 = if state = .inCodeBlock then ['x'] else [] := by
  have hpending : 0 < buf := by omega
  have hletter : 'x' ≠ backtick := by decide
  cases state <;> simp [Plugin.filter, run, Plugin.filterRune, Plugin.endRun,
    Plugin.visit, hbuf, hpending, hletter]

/-- A plugin that filters every text as a new one does is in the state of a new one. -/
theorem eq_newPlugin_of_filter (h : ∀ text, (p.filter text).2 = (newPlugin.filter text).2) :
    p = newPlugin := by
  obtain ⟨state, buf, seen⟩ := p
  have hletter := h ['x']
  -- The state is told by a letter, by a bracket after `]`, and by backticks that make a pending
  -- run long enough.
  match buf with
  | 0 =>
    cases state with
    | inCodeBlock | inLinkUrl => cases seen <;> exact absurd hletter (by decide)
    | normal =>
      cases seen with
      | true => exact absurd (h ['(']) (by decide)
      | false => rfl
  | 1 =>
    have htwo := h [backtick, backtick, 'x']
    cases state with
    | inCodeBlock | inLinkUrl => cases seen <;> exact absurd hletter (by decide)
    | normal => cases seen <;> exact absurd htwo (by decide)
  | 2 =>
    have hone := h [backtick, 'x']
    cases state with
    | inCodeBlock | inLinkUrl => cases seen <;> exact absurd hletter (by decide)
    | normal => cases seen <;> exact absurd hone (by decide)
  | buf + 3 =>
    cases state with
    | inCodeBlock =>
      have hthree : (Plugin.filter ⟨.inCodeBlock, buf + 6, false⟩ ['x']).2 = [] :=
        h [backtick, backtick, backtick, 'x']
      rw [filter_after_run _ _ (by omega)] at hthree
      exact absurd hthree (by decide)
    | normal | inLinkUrl =>
      rw [filter_after_run _ _ (by omega)] at hletter
      exact absurd hletter (by decide)

/-- The chunks after a reply are filtered as by a new plugin if the reply leaves no state
behind, and only then. After an interrupter signal they always are. -/
theorem following_eq_fresh_iff (p : Plugin) (chunks : List (List Char)) (last : List Char) :
    ((∀ following : List (List Char × Bool),
        ((p.run (reply chunks last)).1.run (following.map fun c => .llmChunk c.1 c.2)).2 =
          (newPlugin.run (following.map fun c => .llmChunk c.1 c.2)).2) ↔
      (p.run (reply chunks last)).1 = newPlugin) ∧
    ∀ following, ((p.receive (.signal signalInterrupter)).1.run following).2 =
      (newPlugin.run following).2 := by
  refine ⟨⟨?_, ?_⟩, fun _ => rfl⟩
  · intro h
    apply eq_newPlugin_of_filter
    intro text
    have hlast := h [(text, true)]
    simpa [run_last] using hlast
  · intro h following
    rw [h]

/-- After a reply that ends in a code block, the next reply is silenced. -/
theorem open_block_silences :
    (newPlugin.run (reply [] (List.replicate 3 backtick)) ).1.run (reply [] ['a']) =
        (⟨.inCodeBlock, 0, false⟩, [.llmChunk [] true]) ∧
      (newPlugin.run (reply [] ['a'])).2 = [.llmChunk ['a'] true] := by
  decide

end Voce.Plugins.MarkdownFilter
