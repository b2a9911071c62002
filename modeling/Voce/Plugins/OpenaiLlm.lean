import Voce.Foundation.WhiteSpace

/-! # The stream of the OpenAI plugin

`StreamChat` reads the lines of a response body through a buffer that pieces of any size fill. A
line with data has a chunk of the reply.
-/

namespace Voce.Plugins.OpenaiLlm

open List

def newline : UInt8 := 0x0a

inductive ReadError where
  | eof
  | failed
  deriving DecidableEq

/-- `bufio.Reader`, with the pieces that are still to be read from the body. -/
structure Reader where
  buffered : List UInt8
  pieces : List (List UInt8)

/-- The first line of the buffer. -/
def cut (buffered : List UInt8) (pieces : List (List UInt8)) : List UInt8 × Reader :=
  (buffered.takeWhile (· ≠ newline) ++ [newline],
    ⟨(buffered.dropWhile (· ≠ newline)).tail, pieces⟩)

/-- `ReadBytes('\n')`, whose error has what is left at the end of the body. -/
def readBytes : List UInt8 → List (List UInt8) → Except (List UInt8) (List UInt8 × Reader)
  | buffered, [] => if newline ∈ buffered then .ok (cut buffered []) else .error buffered
  | buffered, piece :: rest =>
    if newline ∈ buffered then .ok (cut buffered (piece :: rest))
    else readBytes (buffered ++ piece) rest

/-- The lines of a body with their ends, and what comes after the last end. -/
def splitLines : List UInt8 → List (List UInt8) × List UInt8
  | [] => ([], [])
  | b :: rest =>
    if b = newline then ([b] :: (splitLines rest).1, (splitLines rest).2)
    else
      match splitLines rest with
      | ([], tail) => ([], b :: tail)
      | (line :: lines, tail) => ((b :: line) :: lines, tail)

theorem splitLines_of_notMem {tail : List UInt8} (hnone : newline ∉ tail) :
    splitLines tail = ([], tail) := by
  induction tail with
  | nil => rfl
  | cons b rest ih =>
    rw [mem_cons, not_or] at hnone
    simp [splitLines, ih hnone.2, Ne.symm hnone.1]

theorem splitLines_append {front : List UInt8} (hnone : newline ∉ front) (rest : List UInt8) :
    splitLines (front ++ newline :: rest) =
      ((front ++ [newline]) :: (splitLines rest).1, (splitLines rest).2) := by
  induction front with
  | nil => simp [splitLines]
  | cons b front ih =>
    rw [mem_cons, not_or] at hnone
    simp [splitLines, ih hnone.2, Ne.symm hnone.1]

/-- A read finds the line in the buffer. -/
theorem readBytes_of_mem {buffered : List UInt8} (hmem : newline ∈ buffered)
    (pieces : List (List UInt8)) :
    ∃ front rest, newline ∉ front ∧ buffered = front ++ newline :: rest ∧
      readBytes buffered pieces = .ok (front ++ [newline], ⟨rest, pieces⟩) := by
  obtain ⟨front, rest, rfl, hfront⟩ := eq_append_cons_of_mem hmem
  have hall : ∀ b ∈ front, decide (b ≠ newline) = true := by
    intro b hb
    exact decide_eq_true (ne_of_mem_of_not_mem hb hfront)
  have hcut : cut (front ++ newline :: rest) pieces = (front ++ [newline], ⟨rest, pieces⟩) := by
    rw [cut, takeWhile_append_of_pos hall, dropWhile_append_of_pos hall]
    simp
  refine ⟨front, rest, hfront, rfl, ?_⟩
  cases pieces with
  | nil | cons piece later => simp [readBytes, hcut]

/-- A read returns the next line, however the body is cut into pieces. -/
theorem readBytes_cases (buffered : List UInt8) (pieces : List (List UInt8)) :
    newline ∉ buffered ++ pieces.flatten ∧ (∃ tail, readBytes buffered pieces = .error tail) ∨
      ∃ front reader, newline ∉ front ∧
        readBytes buffered pieces = .ok (front ++ [newline], reader) ∧
        buffered ++ pieces.flatten =
          front ++ newline :: (reader.buffered ++ reader.pieces.flatten) := by
  induction pieces generalizing buffered with
  | nil =>
    by_cases hmem : newline ∈ buffered
    · obtain ⟨front, rest, hfront, rfl, hread⟩ := readBytes_of_mem hmem []
      exact .inr ⟨front, _, hfront, hread, by simp⟩
    · exact .inl ⟨by simpa using hmem, buffered, by simp [readBytes, hmem]⟩
  | cons piece later ih =>
    by_cases hmem : newline ∈ buffered
    · obtain ⟨front, rest, hfront, rfl, hread⟩ := readBytes_of_mem hmem (piece :: later)
      exact .inr ⟨front, _, hfront, hread, by simp⟩
    · have hread : readBytes buffered (piece :: later) = readBytes (buffered ++ piece) later := by
        simp [readBytes, hmem]
      rw [hread, flatten_cons, ← append_assoc]
      exact ih (buffered ++ piece)

/-- `llm.StreamChunk`: the delta and the reason of a choice. -/
structure StreamChunk where
  content : String
  reasoningContent : String
  finishReason : String
  deriving DecidableEq

section Lines

-- `sonic.Unmarshal` with the choices of a chunk.
variable (unmarshal : List UInt8 → Except String (List StreamChunk))

/-- The loop body for a line: the chunk that the handler is called with, if any. At `[DONE]` it
leaves the loop. -/
def handle (line : List UInt8) : Option (List StreamChunk) :=
  let sline := trimSpaceBytes line
  if sline = [] ∨ ":".toUTF8.toList.isPrefixOf sline then some []
  else if ¬ "data:".toUTF8.toList.isPrefixOf sline then some []
  else
    let dataPart := trimSpaceBytes (sline.drop 5)
    if dataPart = "[DONE]".toUTF8.toList then none
    else
      match unmarshal dataPart with
      | .ok (choice :: _) => some [choice]
      | _ => some []

/-- The loop of `StreamChat`: the calls of the handler and the error that it returns. -/
def loop (ending : ReadError) : Nat → Reader → List StreamChunk × Option ReadError
  | 0, _ => ([], none)
  | fuel + 1, reader =>
    match readBytes reader.buffered reader.pieces with
    | .error _ => ([], if ending = .eof then none else some ending)
    | .ok (line, rest) =>
      match handle unmarshal line with
      | none => ([], none)
      | some calls =>
        let later := loop ending fuel rest
        (calls ++ later.1, later.2)

/-- Every round takes a byte at least. -/
def streamChat (ending : ReadError) (pieces : List (List UInt8)) :
    List StreamChunk × Option ReadError :=
  loop unmarshal ending (pieces.flatten.length + 1) ⟨[], pieces⟩

/-- The calls for these lines, up to the first that leaves the loop. -/
def calls : List (List UInt8) → List StreamChunk
  | [] => []
  | line :: rest =>
    match handle unmarshal line with
    | none => []
    | some choices => choices ++ calls rest

theorem loop_eof (fuel : Nat) (reader : Reader)
    (hfuel : (reader.buffered ++ reader.pieces.flatten).length < fuel) :
    loop unmarshal .eof fuel reader = (calls unmarshal
      (splitLines (reader.buffered ++ reader.pieces.flatten)).1, none) := by
  induction fuel generalizing reader with
  | zero => omega
  | succ fuel ih =>
    rcases readBytes_cases reader.buffered reader.pieces with
      ⟨hnone, tail, hread⟩ | ⟨front, next, hfront, hread, hbody⟩
    · simp [loop, hread, splitLines_of_notMem hnone, calls]
    · rw [hbody, length_append, length_cons] at hfuel
      have hnext := ih next (by omega)
      simp only [loop, hread, hnext, hbody, splitLines_append hfront, calls]
      cases handle unmarshal (front ++ [newline]) with
      | none | some choices => rfl

/-- A line more makes no difference exactly if the loop is left before it or the handler is not
called for it. -/
theorem calls_concat_iff (lines : List (List UInt8)) (tail : List UInt8) :
    calls unmarshal lines = calls unmarshal (lines ++ [tail]) ↔
      (∃ line ∈ lines, handle unmarshal line = none) ∨
        handle unmarshal tail = none ∨ handle unmarshal tail = some [] := by
  induction lines with
  | nil =>
    cases htail : handle unmarshal tail with
    | none | some choices => simp [calls, htail]
  | cons line rest ih =>
    cases hline : handle unmarshal line with
    | none | some choices => simp [calls, hline, ih]

/-- The handler is called for the lines that have an end, and `nil` is returned. This misses a
call exactly if the body ends in a line without an end that has one. -/
theorem streamChat_iff (pieces : List (List UInt8)) :
    streamChat unmarshal .eof pieces =
        (calls unmarshal (splitLines pieces.flatten).1, none) ∧
      ((streamChat unmarshal .eof pieces).1 = calls unmarshal
          ((splitLines pieces.flatten).1 ++
            if (splitLines pieces.flatten).2 = [] then [] else [(splitLines pieces.flatten).2]) ↔
        (splitLines pieces.flatten).2 = [] ∨
          (∃ line ∈ (splitLines pieces.flatten).1, handle unmarshal line = none) ∨
          handle unmarshal (splitLines pieces.flatten).2 = none ∨
          handle unmarshal (splitLines pieces.flatten).2 = some []) := by
  have hcalls := loop_eof unmarshal (pieces.flatten.length + 1) ⟨[], pieces⟩
    (Nat.lt_succ_self _)
  refine ⟨hcalls, ?_⟩
  rw [streamChat, hcalls]
  by_cases htail : (splitLines pieces.flatten).2 = []
  · simp [htail]
  · simpa [htail] using calls_concat_iff unmarshal _ _

end Lines

/-- A choice without fields, and no choices. Whatever else is no chunk here. -/
def parses (text : List UInt8) : Except String (List StreamChunk) :=
  if text = "\x7b\"choices\":[\x7b\x7d]\x7d".toUTF8.toList then .ok [⟨"", "", ""⟩]
  else if text = "\x7b\x7d".toUTF8.toList then .ok []
  else .error "no chunk"

/-- The line has no newline, and its chunk is lost. -/
def unterminated : List UInt8 := "data:\x7b\"choices\":[\x7b\x7d]\x7d".toUTF8.toList

theorem last_line_lost :
    handle parses unterminated = some [⟨"", "", ""⟩] ∧
      streamChat parses .eof [unterminated] = ([], none) := by
  decide +kernel

end Voce.Plugins.OpenaiLlm
