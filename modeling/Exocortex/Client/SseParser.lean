import Exocortex.Library.Emitters

/-!
# Reading server-sent events

`BoundedSseParser` reads a stream of bytes. A line ends at a line feed, at a carriage return, or at
both in this order; a flag remembers a carriage return at the end of a chunk. A line is a comment,
or a field of the event that the next empty line ends. The line and the data of the event that are
held are bounded (`sseParser_bounded`).

Read line by line (`readLines`), the parser depends on the lines only, not on what ends them. So it
does the same for every way of cutting the stream and for every choice of line ends, except that
when it fails, how much of what came before is returned depends on the chunks
(`sseParser_agrees`). A carriage return just before a line feed is one line end, not two.
-/

namespace Exocortex

open Library

/-! ## The parser -/

inductive SseFrame where
  | activity
  | event (eventType data : String)
deriving DecidableEq

structure BoundedSseParser where
  line : List UInt8
  eventType : String
  data : String
  pendingCr : Bool
deriving DecidableEq

/-- `\n`, `\r`, a colon and a space. -/
def lineFeed : UInt8 := 10
def carriageReturn : UInt8 := 13
def colonByte : UInt8 := 58
def spaceByte : UInt8 := 32

namespace BoundedSseParser

def new : BoundedSseParser := ⟨[], "", "", false⟩

/-- The name of a field and its value, without one space before it. -/
def splitField (line : List UInt8) : List UInt8 × List UInt8 :=
  match line.idxOf? colonByte with
  | none => (line, [])
  | some separator =>
      let value := line.drop (separator + 1)
      (line.take separator, if value.head? = some spaceByte then value.tail else value)

/-- Bytes as a text. -/
def fromUtf8 (value : List UInt8) : Option String := String.fromUTF8? ⟨value.toArray⟩

/-- The line feed before a further line of data takes one byte, if there is data. -/
def separatorLen (data : String) : ℕ := if data.isEmpty then 0 else 1

def separated (data : String) : String := if data.isEmpty then data else data ++ "\n"

/-- A further line of data. -/
def pushData (maxDataBytes : ℕ) (parser : BoundedSseParser) (value : List UInt8) :
    Emission BoundedSseParser SseFrame String :=
  let nextLen := parser.data.utf8ByteSize + separatorLen parser.data + value.length
  if 2 ^ 64 ≤ nextLen then ⟨parser, [], some "SSE event size overflow"⟩
  else if maxDataBytes < nextLen then
    ⟨parser, [], some "SSE data exceeds the encoded event ceiling"⟩
  else
    match fromUtf8 value with
    | none =>
        ⟨{ parser with data := separated parser.data }, [], some "SSE data is not UTF-8"⟩
    | some text => .quiet { parser with data := separated parser.data ++ text }

def finishLine (maxDataBytes : ℕ) (parser : BoundedSseParser) :
    Emission BoundedSseParser SseFrame String :=
  let line := parser.line
  let parser := { parser with line := [] }
  if line.isEmpty then
    if !parser.data.isEmpty || !parser.eventType.isEmpty then
      ⟨{ parser with eventType := "", data := "" }, [.event parser.eventType parser.data], none⟩
    else .quiet parser
  else if line.head? = some colonByte then ⟨parser, [.activity], none⟩
  else
    let field := splitField line
    if field.1 = "event".toUTF8.toList then
      match fromUtf8 field.2 with
      | none => ⟨parser, [], some "SSE event type is not UTF-8"⟩
      | some text => .quiet { parser with eventType := text }
    else if field.1 = "data".toUTF8.toList then pushData maxDataBytes parser field.2
    else .quiet parser

/-- One byte. -/
def pushByte (maxDataBytes : ℕ) (parser : BoundedSseParser) (byte : UInt8) :
    Emission BoundedSseParser SseFrame String :=
  let settled := { parser with pendingCr := false }
  if parser.pendingCr && byte = lineFeed then .quiet settled
  else if byte = carriageReturn then
    (finishLine maxDataBytes settled).andThen fun next => .quiet { next with pendingCr := true }
  else if byte = lineFeed then finishLine maxDataBytes settled
  else if min (2 ^ 64 - 1) (maxDataBytes + 16) ≤ settled.line.length then
    ⟨settled, [], some "SSE line exceeds the encoded event ceiling"⟩
  else .quiet { settled with line := settled.line ++ [byte] }

/-- The bytes of a chunk, with the frames before an error. -/
def push (maxDataBytes : ℕ) : BoundedSseParser → List UInt8 →
    Emission BoundedSseParser SseFrame String :=
  feedAll (pushByte maxDataBytes)

/-- The chunks of a stream until the first error; an error is returned without the frames of its
chunk. -/
def pushChunks (maxDataBytes : ℕ) : BoundedSseParser → List (List UInt8) →
    Emission BoundedSseParser SseFrame String :=
  feedChunks (pushByte maxDataBytes)

/-! ## What is held -/

/-- The held line and the held data are within their limits. -/
structure Bounded (maxDataBytes : ℕ) (parser : BoundedSseParser) : Prop where
  line : parser.line.length ≤ maxDataBytes + 16
  data : parser.data.utf8ByteSize ≤ maxDataBytes

section Steps

variable {maxDataBytes : ℕ} {parser : BoundedSseParser}

theorem fromUtf8_size {value : List UInt8} {text : String} (decoded : fromUtf8 value = some text) :
    text.utf8ByteSize = value.length := by
  rw [fromUtf8, String.fromUTF8?] at decoded
  split at decoded
  · cases decoded
    rfl
  · cases decoded

theorem separated_size (data : String) :
    (separated data).utf8ByteSize = data.utf8ByteSize + separatorLen data := by
  rw [separated, separatorLen]
  split
  · rfl
  · rw [String.utf8ByteSize_append]
    rfl

theorem pushData_bounded (bounded : Bounded maxDataBytes parser) (value : List UInt8) :
    Bounded maxDataBytes (pushData maxDataBytes parser value).state := by
  have size := separated_size parser.data
  rw [pushData]
  split
  · exact bounded
  · split
    · exact bounded
    · next room =>
        cases decoded : fromUtf8 value with
        | none =>
            refine ⟨bounded.line, ?_⟩
            dsimp only
            omega
        | some text =>
            have length := fromUtf8_size decoded
            refine ⟨bounded.line, ?_⟩
            dsimp only [Emission.quiet]
            rw [String.utf8ByteSize_append]
            omega

theorem finishLine_bounded (bounded : Bounded maxDataBytes parser) :
    Bounded maxDataBytes (finishLine maxDataBytes parser).state := by
  have emptied : Bounded maxDataBytes { parser with line := [] } :=
    ⟨Nat.zero_le _, bounded.data⟩
  rw [finishLine]
  simp only
  split
  · split
    · exact ⟨Nat.zero_le _, Nat.zero_le _⟩
    · exact emptied
  · split
    · exact emptied
    · split
      · cases fromUtf8 (splitField parser.line).2 with
        | none => exact emptied
        | some text => exact ⟨Nat.zero_le _, bounded.data⟩
      · split
        · exact pushData_bounded emptied _
        · exact emptied

theorem pushByte_bounded (bounded : Bounded maxDataBytes parser) (byte : UInt8) :
    Bounded maxDataBytes (pushByte maxDataBytes parser byte).state := by
  have settled : Bounded maxDataBytes { parser with pendingCr := false } :=
    ⟨bounded.line, bounded.data⟩
  have finished := finishLine_bounded settled
  rw [pushByte]
  simp only
  split
  · exact settled
  · split
    · generalize finishLine maxDataBytes { parser with pendingCr := false } = emission at finished
      obtain ⟨next, frames, failure⟩ := emission
      cases failure with
      | none => exact ⟨finished.line, finished.data⟩
      | some error => exact finished
    · split
      · exact finished
      · split
        · exact settled
        · next room =>
            refine ⟨?_, bounded.data⟩
            simp only [Emission.quiet, List.length_append, List.length_singleton]
            omega

theorem push_bounded (bounded : Bounded maxDataBytes parser) (bytes : List UInt8) :
    Bounded maxDataBytes (push maxDataBytes parser bytes).state :=
  @feedAll_keeps _ _ _ _ (pushByte maxDataBytes) (Bounded maxDataBytes)
    (fun _ byte holds => pushByte_bounded holds byte) _ bounded bytes

/-! ## Lines -/

theorem finishLine_pendingCr : (finishLine maxDataBytes parser).state.pendingCr =
    parser.pendingCr := by
  rw [finishLine]
  simp only
  split
  · split <;> rfl
  · split
    · rfl
    · split
      · cases fromUtf8 (splitField parser.line).2 <;> rfl
      · split
        · rw [pushData]
          simp only
          split
          · rfl
          · split
            · rfl
            · cases fromUtf8 (splitField parser.line).2 <;> rfl
        · rfl

end Steps

/-- What ends a line. -/
inductive LineEnd where
  | lf
  | cr
  | crlf
deriving DecidableEq

def LineEnd.bytes : LineEnd → List UInt8
  | .lf => [lineFeed]
  | .cr => [carriageReturn]
  | .crlf => [carriageReturn, lineFeed]

/-- No line ends in these bytes. -/
def OneLine (content : List UInt8) : Prop :=
  ∀ byte ∈ content, byte ≠ carriageReturn ∧ byte ≠ lineFeed

instance : DecidablePred OneLine := fun content =>
  inferInstanceAs (Decidable (∀ byte ∈ content, byte ≠ carriageReturn ∧ byte ≠ lineFeed))

/-- Lines with their ends. -/
def render (lines : List (List UInt8 × LineEnd)) : List UInt8 :=
  lines.flatMap fun line => line.1 ++ line.2.bytes

/-- No carriage return that ends a line is followed by a line feed that ends an empty one. -/
def Separate (lines : List (List UInt8 × LineEnd)) : Prop :=
  lines.IsChain fun line next => ¬ (line.2 = .cr ∧ next = ([], .lf))

instance : DecidablePred Separate := fun lines =>
  inferInstanceAs (Decidable (lines.IsChain fun line next => ¬ (line.2 = .cr ∧ next = ([], .lf))))

/-- A whole line, without its end. -/
def readLine (maxDataBytes : ℕ) (parser : BoundedSseParser) (content : List UInt8) :
    Emission BoundedSseParser SseFrame String :=
  (push maxDataBytes parser content).andThen (finishLine maxDataBytes)

/-- Lines, whatever ends them, and the beginning of one more. -/
def readLines (maxDataBytes : ℕ) (parser : BoundedSseParser) (contents : List (List UInt8))
    (rest : List UInt8) : Emission BoundedSseParser SseFrame String :=
  (feedAll (readLine maxDataBytes) parser contents).andThen (push maxDataBytes · rest)

section Lines

variable {maxDataBytes : ℕ} {parser : BoundedSseParser}

/-- The flag decides nothing but what becomes of a line feed. -/
theorem pushByte_settled {byte : UInt8} (other : parser.pendingCr = true → byte ≠ lineFeed) :
    pushByte maxDataBytes parser byte =
      pushByte maxDataBytes { parser with pendingCr := false } byte := by
  have skips : (parser.pendingCr && decide (byte = lineFeed)) = false := by
    cases pending : parser.pendingCr with
    | false => rfl
    | true => simpa using other pending
  rw [pushByte, pushByte]
  simp only [skips, Bool.false_and]

theorem push_settled {byte : UInt8} {bytes : List UInt8}
    (other : parser.pendingCr = true → byte ≠ lineFeed) :
    push maxDataBytes parser (byte :: bytes) =
      push maxDataBytes { parser with pendingCr := false } (byte :: bytes) := by
  rw [push, feedAll_cons, feedAll_cons, pushByte_settled other]

variable {content : List UInt8} {lines : List (List UInt8 × LineEnd)}

/-- The bytes of a line emit nothing and leave the flag down. -/
theorem push_oneLine (one : OneLine content) (settled : parser.pendingCr = false) :
    (push maxDataBytes parser content).state.pendingCr = false ∧
      (push maxDataBytes parser content).outputs = [] := by
  induction content generalizing parser with
  | nil => exact ⟨settled, rfl⟩
  | cons byte content ih =>
      rw [OneLine, List.forall_mem_cons] at one
      obtain ⟨⟨notCr, notLf⟩, one⟩ := one
      have first : pushByte maxDataBytes parser byte =
          if min (2 ^ 64 - 1) (maxDataBytes + 16) ≤ parser.line.length then
            ⟨parser, [], some "SSE line exceeds the encoded event ceiling"⟩
          else .quiet { parser with line := parser.line ++ [byte] } := by
        obtain ⟨line, eventType, data, pendingCr⟩ := parser
        cases settled
        rw [pushByte]
        simp [notCr, notLf]
      rw [push, feedAll_cons, first]
      split
      · exact ⟨settled, rfl⟩
      · exact ih one settled

theorem settle_eq (settled : parser.pendingCr = false) :
    { parser with pendingCr := false } = parser := by
  rw [← settled]

/-- The end of a line, from a state whose flag is down. -/
theorem push_lineEnd (settled : parser.pendingCr = false) (lineEnd : LineEnd) :
    push maxDataBytes parser lineEnd.bytes =
      (finishLine maxDataBytes parser).andThen fun next =>
        .quiet { next with pendingCr := lineEnd = .cr } := by
  have flag := @finishLine_pendingCr maxDataBytes parser
  obtain ⟨line, eventType, data, pendingCr⟩ := parser
  cases settled
  have returned : pushByte maxDataBytes ⟨line, eventType, data, false⟩ carriageReturn =
      (finishLine maxDataBytes ⟨line, eventType, data, false⟩).andThen fun next =>
        .quiet { next with pendingCr := true } := rfl
  cases lineEnd with
  | lf =>
      rw [push, LineEnd.bytes, feedAll_singleton]
      refine (Emission.andThen_quiet _).symm.trans (Emission.andThen_congr ?_)
      exact congrArg Emission.quiet (settle_eq flag).symm
  | cr =>
      rw [push, LineEnd.bytes, feedAll_singleton]
      exact returned
  | crlf =>
      rw [push, LineEnd.bytes, feedAll_cons, returned, Emission.andThen_assoc]
      exact Emission.andThen_congr rfl

/-- A line with its end is the line, and then a carriage return raises the flag. -/
theorem push_line (one : OneLine content) (settled : parser.pendingCr = false) (lineEnd : LineEnd) :
    push maxDataBytes parser (content ++ lineEnd.bytes) =
      (readLine maxDataBytes parser content).andThen fun next =>
        .quiet { next with pendingCr := lineEnd = .cr } := by
  have quiet := (@push_oneLine maxDataBytes parser content one settled).1
  rw [readLine, Emission.andThen_assoc, push, feedAll_append]
  exact Emission.andThen_congr (push_lineEnd quiet lineEnd)

theorem readLine_settled (one : OneLine content) (settled : parser.pendingCr = false) :
    (readLine maxDataBytes parser content).state.pendingCr = false := by
  have quiet := (@push_oneLine maxDataBytes parser content one settled).1
  rw [readLine]
  generalize push maxDataBytes parser content = emission at quiet
  obtain ⟨next, frames, failure⟩ := emission
  cases failure with
  | some error => exact quiet
  | none => exact finishLine_pendingCr.trans quiet

theorem separate_cons_iff {line : List UInt8 × LineEnd} :
    Separate (line :: lines) ↔ (line.2 = .cr → lines.head? ≠ some ([], .lf)) ∧ Separate lines := by
  cases lines with
  | nil => exact iff_of_true (.singleton _) ⟨fun _ => Option.some_ne_none _ ∘ Eq.symm, .nil⟩
  | cons next lines =>
      constructor
      · rintro (_ | _ | ⟨apart, later⟩)
        exact ⟨fun returns same => apart ⟨returns, Option.some.inj same⟩, later⟩
      · rintro ⟨apart, later⟩
        exact .cons_cons (fun both => apart both.1 (congrArg some both.2)) later

theorem readLines_cons (content : List UInt8) (contents : List (List UInt8)) (rest : List UInt8) :
    readLines maxDataBytes parser (content :: contents) rest =
      (readLine maxDataBytes parser content).andThen fun next =>
        readLines maxDataBytes next contents rest := by
  rw [readLines, feedAll_cons, Emission.andThen_assoc]
  rfl

/-- **Only the lines count.** The frames and the error are those of the lines, whatever ends
them. -/
theorem push_render {rest : List UInt8} (one : ∀ line ∈ lines, OneLine line.1)
    (last : OneLine rest) (separate : Separate lines)
    (start : parser.pendingCr = true → lines.head? ≠ some ([], .lf)) :
    (push maxDataBytes parser (render lines ++ rest)).outputs =
        (readLines maxDataBytes { parser with pendingCr := false } (lines.map (·.1)) rest).outputs ∧
      (push maxDataBytes parser (render lines ++ rest)).failure =
        (readLines maxDataBytes { parser with pendingCr := false } (lines.map (·.1))
          rest).failure := by
  induction lines generalizing parser with
  | nil =>
      rw [render, List.flatMap_nil, List.nil_append, List.map_nil, readLines, feedAll_nil,
        Emission.quiet_andThen]
      cases rest with
      | nil => exact ⟨rfl, rfl⟩
      | cons byte rest =>
          rw [push_settled fun _ => (last byte List.mem_cons_self).2]
          exact ⟨rfl, rfl⟩
  | cons line lines ih =>
      obtain ⟨content, lineEnd⟩ := line
      rw [List.forall_mem_cons] at one
      obtain ⟨apart, separate⟩ := separate_cons_iff.mp separate
      have split : render ((content, lineEnd) :: lines) ++ rest =
          (content ++ lineEnd.bytes) ++ (render lines ++ rest) := by
        rw [render, List.flatMap_cons, List.append_assoc]
        rfl
      have settled : push maxDataBytes parser (render ((content, lineEnd) :: lines) ++ rest) =
          push maxDataBytes { parser with pendingCr := false }
            (render ((content, lineEnd) :: lines) ++ rest) := by
        rw [split]
        cases content with
        | cons byte content => exact push_settled fun _ => (one.1 byte List.mem_cons_self).2
        | nil =>
            cases lineEnd with
            | lf => exact push_settled fun pending => absurd rfl (start pending)
            | cr => exact push_settled fun _ => by decide
            | crlf => exact push_settled fun _ => by decide
      have line := @push_line maxDataBytes { parser with pendingCr := false } content one.1 rfl
        lineEnd
      have quiet := @readLine_settled maxDataBytes { parser with pendingCr := false } content one.1
        rfl
      rw [settled, split, push, feedAll_append]
      rw [push] at line
      rw [line, Emission.andThen_assoc, List.map_cons, readLines_cons]
      refine Emission.andThen_agree ?_
      have later := @ih { (readLine maxDataBytes { parser with pendingCr := false } content).state
        with pendingCr := lineEnd = .cr } one.2 separate
          fun raised => apart (of_decide_eq_true raised)
      rw [← settle_eq quiet]
      exact later

end Lines

/-- Every stream consists of lines with their ends and the beginning of one more. -/
theorem exists_lines (bytes : List UInt8) : ∃ lines rest, (∀ line ∈ lines, OneLine line.1) ∧
    OneLine rest ∧ Separate lines ∧ bytes = render lines ++ rest := by
  induction bytes with
  | nil =>
      exact ⟨[], [], fun _ inside => absurd inside List.not_mem_nil,
        fun _ inside => absurd inside List.not_mem_nil, .nil, rfl⟩
  | cons byte bytes ih =>
      obtain ⟨lines, rest, one, last, separate, rfl⟩ := ih
      have empty : OneLine [] := fun _ inside => absurd inside List.not_mem_nil
      by_cases feeds : byte = lineFeed
      · refine ⟨([], .lf) :: lines, rest, List.forall_mem_cons.mpr ⟨empty, one⟩, last, ?_, ?_⟩
        · exact separate_cons_iff.mpr ⟨LineEnd.noConfusion, separate⟩
        · rw [feeds]
          rfl
      · by_cases returns : byte = carriageReturn
        · by_cases joined : lines.head? = some ([], .lf)
          · cases lines with
            | nil => cases joined
            | cons line lines =>
                cases joined
                rw [List.forall_mem_cons] at one
                refine ⟨([], .crlf) :: lines, rest, List.forall_mem_cons.mpr ⟨empty, one.2⟩, last,
                  ?_, ?_⟩
                · exact separate_cons_iff.mpr
                    ⟨LineEnd.noConfusion, (separate_cons_iff.mp separate).2⟩
                · rw [returns]
                  rfl
          · refine ⟨([], .cr) :: lines, rest, List.forall_mem_cons.mpr ⟨empty, one⟩, last, ?_, ?_⟩
            · exact separate_cons_iff.mpr ⟨fun _ => joined, separate⟩
            · rw [returns]
              rfl
        · cases lines with
          | nil =>
              refine ⟨[], byte :: rest, one, ?_, .nil, rfl⟩
              exact List.forall_mem_cons.mpr ⟨⟨returns, feeds⟩, last⟩
          | cons line lines =>
              obtain ⟨content, lineEnd⟩ := line
              rw [List.forall_mem_cons] at one
              have parts := separate_cons_iff.mp separate
              have longer : OneLine (byte :: content) :=
                List.forall_mem_cons.mpr ⟨⟨returns, feeds⟩, one.1⟩
              exact ⟨(byte :: content, lineEnd) :: lines, rest,
                List.forall_mem_cons.mpr ⟨longer, one.2⟩, last,
                separate_cons_iff.mpr ⟨parts.1, parts.2⟩, rfl⟩

/-! ## Cuts and line ends -/

/-- **Cuts and line ends do not matter.** For two ways of cutting a stream, and for two streams with
the same lines, the parser fails alike; without an error it returns the same frames, and with one,
what the one returns is a beginning of what the other does. What is held stays bounded. -/
theorem sseParser_agrees (maxDataBytes : ℕ) :
    (∀ chunks others : List (List UInt8), chunks.flatten = others.flatten →
      (pushChunks maxDataBytes new chunks).Agrees (pushChunks maxDataBytes new others)) ∧
    (∀ (lines others : List (List UInt8 × LineEnd)) (rest : List UInt8)
      (chunks chunks' : List (List UInt8)), (∀ line ∈ lines, OneLine line.1) → OneLine rest →
      Separate lines → Separate others → lines.map (·.1) = others.map (·.1) →
      chunks.flatten = render lines ++ rest → chunks'.flatten = render others ++ rest →
      (pushChunks maxDataBytes new chunks).Agrees (pushChunks maxDataBytes new chunks')) ∧
    ∀ chunks : List (List UInt8), Bounded maxDataBytes
      (chunks.foldl (fun parser chunk => (push maxDataBytes parser chunk).state) new) := by
  refine ⟨fun chunks others same => (feedChunks_of_flatten_eq same).1, ?_, ?_⟩
  · intro lines others rest chunks chunks' one last separate separate' same whole whole'
    have one' : ∀ line ∈ others, OneLine line.1 := by
      have contents : ∀ content ∈ lines.map (·.1), OneLine content := List.forall_mem_map.mpr one
      rw [same] at contents
      exact List.forall_mem_map.mp contents
    have first := @push_render maxDataBytes new lines rest one last separate
      fun raised => by cases raised
    have second := @push_render maxDataBytes new others rest one' last separate'
      fun raised => by cases raised
    rw [same] at first
    refine feedChunks_agrees ?_ ?_
    · rw [whole, whole']
      exact first.1.trans second.1.symm
    · rw [whole, whole']
      exact first.2.trans second.2.symm
  · intro chunks
    have start : Bounded maxDataBytes new := ⟨Nat.zero_le _, Nat.zero_le _⟩
    generalize new = parser at start
    induction chunks generalizing parser with
    | nil => exact start
    | cons chunk chunks ih => exact ih _ (push_bounded start chunk)

/-- An event with other line ends, in other chunks. -/
theorem sseParser_agrees_event :
    (pushChunks 8 new ["event: a\r".toUTF8.toList, "\ndata: b\r\n\n".toUTF8.toList]).Agrees
      (pushChunks 8 new ["event: a\nda".toUTF8.toList, "ta: b\r\r".toUTF8.toList]) :=
  (sseParser_agrees 8).2.1
    [("event: a".toUTF8.toList, .crlf), ("data: b".toUTF8.toList, .crlf), ([], .lf)]
    [("event: a".toUTF8.toList, .lf), ("data: b".toUTF8.toList, .cr), ([], .cr)] [] _ _
    (by decide +kernel) (fun _ inside => absurd inside List.not_mem_nil) (by decide +kernel)
    (by decide +kernel) rfl (by decide +kernel) (by decide +kernel)

/-- A comment before a line that is too long is lost when both are in one chunk; and a line feed
that becomes a carriage return is joined with the line feed after it. -/
theorem not_sseParser_same :
    (¬ ∀ (maxDataBytes : ℕ) (chunks others : List (List UInt8)),
      chunks.flatten = others.flatten → (pushChunks maxDataBytes new chunks).outputs =
        (pushChunks maxDataBytes new others).outputs) ∧
    (pushChunks 8 new ["event: a\n\n".toUTF8.toList]).outputs ≠
      (pushChunks 8 new ["event: a\r\n".toUTF8.toList]).outputs := by
  refine ⟨fun always => ?_, by decide +kernel⟩
  have same := always 0 [colonByte :: lineFeed :: List.replicate 17 spaceByte]
    [[colonByte, lineFeed], List.replicate 17 spaceByte] rfl
  exact absurd same (by decide +kernel)

end BoundedSseParser

end Exocortex
