import Exocortex.Library.Buffers

/-!
# Frames of the replication stream

A frame is a tag, a length that counts itself and the body, and the body. The session reads as much
as it needs into its buffer and splits the frame off. How the stream is cut does not matter: what is
read is a function of the bytes alone (`readMessages_eq`).

The length is taken as an address and added to one before it is looked at. So a length below four
that the stream can make up for is not refused: the frame is shorter than its own header, and taking
the body of it panics, or the addition overflows (`replicationFrames_iff`).
-/

namespace Exocortex

open Library

namespace ReplicationFrames

/-! ## Messages -/

inductive StreamMessage where
  | copyBoth
  | copyData (data : List UInt8)
  | copyDone
  | error (text : String)
  | other
deriving DecidableEq

section Body

variable (fromUtf8Lossy : List UInt8 → String)

/-- The search for the message among the fields from an offset on. -/
def errorMessageFrom (body : List UInt8) (offset : ℕ) : Checked String String :=
  if offset < body.length then do
    let fieldType ← Checked.get body offset
    let rest ← Checked.sliceFrom body (offset + 1)
    match rest.findIdx? (· = 0) with
    | none => return "unreadable error"
    | some place =>
        let stop := offset + 1 + place
        if fieldType = 77 then
          let value ← Checked.slice body (offset + 1) stop
          return fromUtf8Lossy value
        else errorMessageFrom body (stop + 1)
  else return "unreadable error"
termination_by body.length - offset

/-- The message of an error: that of the first field of its kind. -/
def errorMessageFromBody (body : List UInt8) : Checked String String :=
  errorMessageFrom fromUtf8Lossy body 0

def messageOf (tag : UInt8) (body : List UInt8) : Checked String StreamMessage :=
  if tag = 87 then return .copyBoth
  else if tag = 100 then return .copyData body
  else if tag = 99 then return .copyDone
  else if tag = 69 then StreamMessage.error <$> errorMessageFromBody fromUtf8Lossy body
  else return .other

end Body

/-! ## Frames -/

/-- A signed number of 32 bits, the highest byte first. -/
def fromBeBytes (bytes : List UInt8) : ℤ :=
  let n : ℕ := bytes.foldl (fun n byte => n * 256 + byte.toNat) 0
  if n < 2 ^ 31 then (n : ℤ) else (n : ℤ) - 2 ^ 32

/-- A number as an address: a negative one wraps around. -/
def asUsize (n : ℤ) : ℕ := (n % 2 ^ 64).toNat

/-- The error at the end of the stream. -/
def closed : String := "the server closed the connection mid-message"

/-- A frame, split off from what arrives. -/
def readFrame (inflow : Inflow UInt8) : Checked String (List UInt8 × Inflow UInt8) := do
  let inflow ← Inflow.fill closed 5 inflow.buffer inflow.arriving inflow.some_
  let field ← Checked.slice inflow.buffer 1 5
  -- without overflow checks the sum is zero, and the tag of an empty frame is what panics
  let total ← Checked.add 1 (asUsize (fromBeBytes field))
  let inflow ← Inflow.fill closed total inflow.buffer inflow.arriving inflow.some_
  let (frame, rest) ← Checked.splitTo inflow.buffer total
  return (frame, { inflow with buffer := rest })

section Frames

variable (fromUtf8Lossy : List UInt8 → String)

/-- The message of a frame. -/
def frameMessage (frame : List UInt8) : Checked String StreamMessage := do
  let tag ← Checked.get frame 0
  let body ← Checked.sliceFrom frame 5
  messageOf fromUtf8Lossy tag body

/-- The first frame is a message: the loop has one round, since every frame that is read is
there. -/
def readStreamMessage (inflow : Inflow UInt8) : Checked String (StreamMessage × Inflow UInt8) := do
  let (frame, inflow) ← readFrame inflow
  let message ← frameMessage fromUtf8Lossy frame
  return (message, inflow)

/-- So many messages one after the other, or those before a fault, and the fault. -/
def readMessages : ℕ → Inflow UInt8 → List StreamMessage × Option (Fault String)
  | 0, _ => ([], none)
  | count + 1, inflow =>
      match readStreamMessage fromUtf8Lossy inflow with
      | .error fault => ([], some fault)
      | .ok (message, inflow) =>
          let later := readMessages count inflow
          (message :: later.1, later.2)

/-! ## What is read is a function of the bytes -/

/-- The length field of the first frame. -/
def lengthField (bytes : List UInt8) : ℤ := fromBeBytes ((bytes.drop 1).take 4)

/-- The first frame, and what is behind it. -/
def frameOf (bytes : List UInt8) : Checked String (List UInt8 × List UInt8) :=
  if bytes.length < 5 then Checked.refuse closed
  else do
    let total ← Checked.add 1 (asUsize (lengthField bytes))
    if bytes.length < total then Checked.refuse closed
    else return (bytes.take total, bytes.drop total)

/-- The first message, and what is behind its frame. -/
def messageAt (bytes : List UInt8) : Checked String (StreamMessage × List UInt8) := do
  let (frame, rest) ← frameOf bytes
  let message ← frameMessage fromUtf8Lossy frame
  return (message, rest)

def messagesOf : ℕ → List UInt8 → List StreamMessage × Option (Fault String)
  | 0, _ => ([], none)
  | count + 1, bytes =>
      match messageAt fromUtf8Lossy bytes with
      | .error fault => ([], some fault)
      | .ok (message, rest) =>
          let later := messagesOf count rest
          (message :: later.1, later.2)

variable {fromUtf8Lossy}

/-- A frame that is split off is the first one of what is pending. -/
theorem readFrame_pending (inflow : Inflow UInt8) :
    (readFrame inflow).map (Prod.map id Inflow.pending) =
      frameOf inflow.pending := by
  rcases Inflow.fill_cases closed 5 inflow with ⟨short, refused⟩ | ⟨filled, ok, same, enough⟩
  · rw [readFrame, refused, frameOf, if_pos short]
    rfl
  · have field : (filled.buffer.drop 1).take (5 - 1) = (inflow.pending.drop 1).take 4 := by
      rw [← same, Inflow.pending, List.drop_append_of_le_length (by omega),
        List.take_append_of_le_length (by rw [List.length_drop]; omega)]
    have long : ¬ inflow.pending.length < 5 := by
      rw [← same, Inflow.pending, List.length_append]
      omega
    rw [readFrame, ok, frameOf, if_neg long, lengthField, ← field]
    change Except.map _ (Checked.slice filled.buffer 1 5 >>= _) = _
    rw [Checked.slice_of_le (by decide) enough]
    change Except.map _ (Checked.add 1 _ >>= _) = _
    generalize Checked.add 1 (asUsize (fromBeBytes ((filled.buffer.drop 1).take (5 - 1)))) = sum
    cases sum with
    | error fault => rfl
    | ok total =>
        change Except.map _ (Inflow.fill closed total filled.buffer filled.arriving _ >>= _) =
          if _ then _ else _
        rcases Inflow.fill_cases closed total filled with
          ⟨short, refused⟩ | ⟨full, ok, same', enough'⟩
        · rw [refused, if_pos (same ▸ short)]
          rfl
        · have fits : ¬ inflow.pending.length < total := by
            rw [← same, ← same', Inflow.pending, List.length_append]
            omega
          have front : inflow.pending.take total = full.buffer.take total := by
            rw [← same, ← same', Inflow.pending, List.take_append_of_le_length enough']
          have back : inflow.pending.drop total =
              full.buffer.drop total ++ full.arriving.flatten := by
            rw [← same, ← same', Inflow.pending, List.drop_append_of_le_length enough']
          rw [ok, if_neg fits, front, back]
          change Except.map _ (Checked.splitTo full.buffer total >>= _) = _
          rw [Checked.splitTo_of_le enough']
          rfl

theorem readStreamMessage_pending (inflow : Inflow UInt8) :
    (readStreamMessage fromUtf8Lossy inflow).map (Prod.map id Inflow.pending) =
      messageAt fromUtf8Lossy inflow.pending := by
  rw [messageAt, ← readFrame_pending, readStreamMessage]
  cases readFrame inflow with
  | error fault => rfl
  | ok read =>
      change Except.map _ (frameMessage fromUtf8Lossy read.1 >>= _) =
        (frameMessage fromUtf8Lossy read.1 >>= _)
      cases frameMessage fromUtf8Lossy read.1 with
      | error fault => rfl
      | ok message => rfl

/-- **How the stream is cut does not matter.** -/
theorem readMessages_eq (count : ℕ) (inflow : Inflow UInt8) :
    readMessages fromUtf8Lossy count inflow =
      messagesOf fromUtf8Lossy count inflow.pending := by
  induction count generalizing inflow with
  | zero => rfl
  | succ count ih =>
      rw [readMessages, messagesOf, ← readStreamMessage_pending]
      cases readStreamMessage fromUtf8Lossy inflow with
      | error fault => rfl
      | ok read =>
          dsimp only
          rw [ih]
          rfl

end Frames

/-! ## Whole frames -/

/-- A frame whose length fits its field. -/
structure Frame where
  tag : UInt8
  body : List UInt8
  short : body.length + 4 < 2 ^ 31

/-- The bytes of a number below two to the power of 32, the highest first. -/
def toBeBytes (n : ℕ) : List UInt8 :=
  [.ofNat (n / 16777216), .ofNat (n / 65536), .ofNat (n / 256), .ofNat n]

def Frame.bytes (frame : Frame) : List UInt8 :=
  frame.tag :: (toBeBytes (frame.body.length + 4) ++ frame.body)

theorem fromBeBytes_toBeBytes {n : ℕ} (small : n < 2 ^ 31) : fromBeBytes (toBeBytes n) = n := by
  have total : (toBeBytes n).foldl (fun n byte => n * 256 + byte.toNat) 0 = n := by
    simp only [toBeBytes, List.foldl_cons, List.foldl_nil, UInt8.toNat_ofNat']
    omega
  rw [fromBeBytes, total]
  exact if_pos small

/-- Four bytes of a number that is not negative. -/
theorem toBeBytes_fromBeBytes {bytes : List UInt8} (four : bytes.length = 4)
    (positive : 0 ≤ fromBeBytes bytes) :
    toBeBytes (fromBeBytes bytes).toNat = bytes ∧ fromBeBytes bytes < 2 ^ 31 := by
  match bytes, four with
  | [a, b, c, d], _ =>
      have small := a.toNat_lt
      have small' := b.toNat_lt
      have small'' := c.toNat_lt
      have small₄ := d.toNat_lt
      have total : [a, b, c, d].foldl (fun n byte => n * 256 + byte.toNat) 0 =
          ((a.toNat * 256 + b.toNat) * 256 + c.toNat) * 256 + d.toNat := by
        simp
      rw [fromBeBytes, total] at positive ⊢
      split at positive
      · next below =>
          rw [if_pos below]
          refine ⟨?_, by omega⟩
          simp only [toBeBytes, Int.toNat_natCast, List.cons.injEq, and_true]
          refine ⟨?_, ?_, ?_, ?_⟩ <;>
            · apply UInt8.toNat_inj.mp
              rw [UInt8.toNat_ofNat']
              omega
      · omega

section Messages

variable {fromUtf8Lossy : List UInt8 → String}

theorem length_frame (frame : Frame) : frame.bytes.length = frame.body.length + 5 := by
  simp only [Frame.bytes, toBeBytes, List.length_cons, List.length_append, List.length_nil]
  omega

theorem lengthField_frame (frame : Frame) (rest : List UInt8) :
    lengthField (frame.bytes ++ rest) = frame.body.length + 4 := by
  have field : ((frame.bytes ++ rest).drop 1).take 4 = toBeBytes (frame.body.length + 4) := rfl
  rw [lengthField, field, fromBeBytes_toBeBytes frame.short]
  rfl

theorem asUsize_of_nonneg {n : ℤ} (positive : 0 ≤ n) (small : n < 2 ^ 31) :
    asUsize n = n.toNat := by
  rw [asUsize, Int.emod_eq_of_lt positive (by omega)]

theorem frameOf_frame (frame : Frame) (rest : List UInt8) :
    frameOf (frame.bytes ++ rest) = .ok (frame.bytes, rest) := by
  have short := frame.short
  have length := length_frame frame
  have total : 1 + asUsize (lengthField (frame.bytes ++ rest)) = frame.bytes.length := by
    rw [lengthField_frame, asUsize_of_nonneg (by omega) (by omega), length]
    omega
  rw [frameOf, if_neg (by rw [List.length_append]; omega), Checked.add_of_lt (by omega), total]
  change (if _ then _ else _) = _
  rw [if_neg (by rw [List.length_append]; omega), List.take_left, List.drop_left]
  rfl

/-- Where there is a length of at least four and as many bytes, there is a frame. -/
theorem exists_frame {bytes : List UInt8} (long : 5 ≤ bytes.length)
    (wide : 4 ≤ lengthField bytes) (enough : 1 + lengthField bytes ≤ bytes.length) :
    ∃ (frame : Frame) (rest : List UInt8), bytes = frame.bytes ++ rest := by
  match bytes, long with
  | tag :: a :: b :: c :: d :: rest, _ =>
      have field : lengthField (tag :: a :: b :: c :: d :: rest) = fromBeBytes [a, b, c, d] := rfl
      rw [field] at wide enough
      obtain ⟨same, small⟩ := @toBeBytes_fromBeBytes [a, b, c, d] rfl (by omega)
      simp only [List.length_cons] at enough
      obtain ⟨body, behind, rfl, size⟩ : ∃ body behind, rest = body ++ behind ∧
          body.length + 4 = (fromBeBytes [a, b, c, d]).toNat := by
        refine ⟨rest.take ((fromBeBytes [a, b, c, d]).toNat - 4), _,
          (List.take_append_drop _ rest).symm, ?_⟩
        rw [List.length_take]
        omega
      refine ⟨⟨tag, body, by omega⟩, behind, ?_⟩
      have digits : toBeBytes (body.length + 4) = [a, b, c, d] := by rw [size, same]
      rw [Frame.bytes, digits]
      rfl

/-- The bytes begin with a whole frame. -/
def StartsFrame (bytes : List UInt8) : Prop := ∃ (frame : Frame) (rest : List UInt8),
  bytes = frame.bytes ++ rest

/-- Whole frames, and what is behind the last of them. -/
theorem exists_frames (bytes : List UInt8) : ∃ (frames : List Frame) (tail : List UInt8),
    bytes = frames.flatMap Frame.bytes ++ tail ∧ ¬ StartsFrame tail := by
  by_cases starts : StartsFrame bytes
  · obtain ⟨frame, rest, parts⟩ := starts
    have shorter : rest.length < bytes.length := by
      rw [parts, List.length_append, length_frame]
      omega
    obtain ⟨frames, tail, parts', ends⟩ := exists_frames rest
    refine ⟨frame :: frames, tail, ?_, ends⟩
    rw [parts, parts', List.flatMap_cons, List.append_assoc]
  · exact ⟨[], bytes, rfl, starts⟩
termination_by bytes.length
decreasing_by exact shorter

/-! ## Error messages -/

/-- A field of an error: its kind, and its value up to a zero. -/
structure Field where
  kind : UInt8
  value : List UInt8
  ended : 0 ∉ value

def Field.bytes (field : Field) : List UInt8 := field.kind :: (field.value ++ [0])

/-- The text of an error is the message of the first of its fields that is one. Behind the fields
there is at most one that has no end. -/
def Tells (fromUtf8Lossy : List UInt8 → String) (body : List UInt8) (text : String) : Prop :=
  ∃ (fields : List Field) (tail : List UInt8), body = fields.flatMap Field.bytes ++ tail ∧
    0 ∉ tail.drop 1 ∧
    text = (((fields.find? (·.kind = 77)).map fun field => fromUtf8Lossy field.value).getD
      "unreadable error")

/-- Behind a field the search goes on, unless the field is the message. -/
theorem errorMessageFrom_field (front : List UInt8) (field : Field) (rest : List UInt8) :
    errorMessageFrom fromUtf8Lossy (front ++ field.bytes ++ rest) front.length =
      if field.kind = 77 then .ok (fromUtf8Lossy field.value)
      else errorMessageFrom fromUtf8Lossy (front ++ field.bytes ++ rest)
        (front ++ field.bytes).length := by
  have body : front ++ field.bytes ++ rest =
      (front ++ [field.kind]) ++ (field.value ++ 0 :: rest) := by simp [Field.bytes]
  have width : (front ++ [field.kind]).length = front.length + 1 := List.length_append
  have ended : (field.value ++ 0 :: rest).findIdx? (· = 0) = some field.value.length := by
    have before : field.value.findIdx? (· = 0) = none := by
      rw [List.findIdx?_eq_none_iff]
      intro byte listed
      exact decide_eq_false fun same => field.ended (same ▸ listed)
    rw [List.findIdx?_append, before, List.findIdx?_cons]
    simp
  have further : (front ++ field.bytes).length = front.length + 1 + field.value.length + 1 := by
    simp only [Field.bytes, List.length_append, List.length_cons, List.length_nil]
    omega
  rw [further, body]
  generalize whole : (front ++ [field.kind]) ++ (field.value ++ 0 :: rest) = bytes
  have size : bytes.length = front.length + 1 + field.value.length + 1 + rest.length := by
    rw [← whole, List.length_append, width, List.length_append, List.length_cons]
    omega
  have behind : bytes.drop (front.length + 1) = field.value ++ 0 :: rest := by
    rw [← whole, ← width, List.drop_left]
  have kind : bytes[front.length]? = some field.kind := by
    rw [← whole, List.getElem?_append_left (by omega), List.getElem?_append_right (Nat.le_refl _),
      Nat.sub_self]
    rfl
  have value : Checked.slice bytes (front.length + 1) (front.length + 1 + field.value.length) =
      (.ok field.value : Checked String (List UInt8)) := by
    rw [Checked.slice_of_le (Nat.le_add_right _ _) (by omega), behind, Nat.add_sub_cancel_left,
      List.take_left]
  have first : (Checked.get bytes front.length : Checked String UInt8) = .ok field.kind := by
    rw [Checked.get, kind]
  rw [errorMessageFrom, if_pos (by omega), first]
  change (Checked.sliceFrom bytes (front.length + 1) >>= _) = _
  rw [Checked.sliceFrom_of_le (by omega), behind]
  change (match List.findIdx? _ _ with | none => _ | some place => _) = _
  rw [ended]
  dsimp only
  rw [value]
  rfl

/-- Behind the last field there is no message. -/
theorem errorMessageFrom_tail (front tail : List UInt8) (open_ : 0 ∉ tail.drop 1) :
    errorMessageFrom fromUtf8Lossy (front ++ tail) front.length = .ok "unreadable error" := by
  rw [errorMessageFrom, List.length_append]
  split
  · next inside =>
      have none_ : (tail.drop 1).findIdx? (· = 0) = none := by
        rw [List.findIdx?_eq_none_iff]
        intro byte listed
        exact decide_eq_false fun same => open_ (same ▸ listed)
      have room : front.length < (front ++ tail).length := by
        rw [List.length_append]
        exact inside
      have behind : (front ++ tail).drop (front.length + 1) = tail.drop 1 := by
        rw [← List.drop_drop, List.drop_left]
      rw [Checked.get_of_lt room]
      change (Checked.sliceFrom (front ++ tail) (front.length + 1) >>= _) = _
      rw [Checked.sliceFrom_of_le room, behind]
      change (match List.findIdx? _ _ with | none => _ | some place => _) = _
      rw [none_]
      rfl
  · rfl

theorem errorMessageFrom_fields (front : List UInt8) (fields : List Field) (tail : List UInt8)
    (open_ : 0 ∉ tail.drop 1) :
    errorMessageFrom fromUtf8Lossy (front ++ (fields.flatMap Field.bytes ++ tail)) front.length =
      .ok (((fields.find? (·.kind = 77)).map fun field => fromUtf8Lossy field.value).getD
        "unreadable error") := by
  induction fields generalizing front with
  | nil => exact errorMessageFrom_tail front tail open_
  | cons field fields ih =>
      have later := ih (front ++ field.bytes)
      rw [List.flatMap_cons, List.append_assoc, ← List.append_assoc front,
        errorMessageFrom_field, later, List.find?_cons]
      by_cases message : field.kind = 77
      · rw [if_pos message, decide_eq_true message]
        rfl
      · rw [if_neg message, decide_eq_false message]

/-- Every body is fields and a tail. -/
theorem exists_tells (fromUtf8Lossy : List UInt8 → String) (body : List UInt8) :
    ∃ text, Tells fromUtf8Lossy body text := by
  suffices parts : ∃ (fields : List Field) (tail : List UInt8),
      body = fields.flatMap Field.bytes ++ tail ∧ 0 ∉ tail.drop 1 by
    obtain ⟨fields, tail, parts, open_⟩ := parts
    exact ⟨_, fields, tail, parts, open_, rfl⟩
  induction length : body.length using Nat.strongRecOn generalizing body with
  | _ size ih =>
      match body with
      | [] => exact ⟨[], [], rfl, List.not_mem_nil⟩
      | kind :: values =>
          by_cases ended : 0 ∈ values
          · obtain ⟨value, rest, rfl, before⟩ := List.eq_append_cons_of_mem ended
            have shorter : rest.length < size := by
              rw [← length, List.length_cons, List.length_append, List.length_cons]
              omega
            obtain ⟨fields, tail, rfl, open_⟩ := ih rest.length shorter rest rfl
            refine ⟨⟨kind, value, before⟩ :: fields, tail, ?_, open_⟩
            simp [Field.bytes]
          · exact ⟨[], kind :: values, rfl, ended⟩

/-- **The search for the message ends, without a panic, and it finds the first one.** -/
theorem errorMessageFromBody_iff {body : List UInt8} {text : String} :
    errorMessageFromBody fromUtf8Lossy body = .ok text ↔ Tells fromUtf8Lossy body text := by
  have given (text : String) (tells : Tells fromUtf8Lossy body text) :
      errorMessageFromBody fromUtf8Lossy body = .ok text := by
    obtain ⟨fields, tail, rfl, open_, rfl⟩ := tells
    exact errorMessageFrom_fields [] fields tail open_
  refine ⟨fun same => ?_, given text⟩
  obtain ⟨text', tells⟩ := exists_tells fromUtf8Lossy body
  have same' := given text' tells
  rw [same] at same'
  exact Except.ok.inj same' ▸ tells

/-! ## The messages of whole frames -/

/-- What a frame says. -/
def Means (fromUtf8Lossy : List UInt8 → String) (frame : Frame) (message : StreamMessage) : Prop :=
  if frame.tag = 87 then message = .copyBoth
  else if frame.tag = 100 then message = .copyData frame.body
  else if frame.tag = 99 then message = .copyDone
  else if frame.tag = 69 then
    ∃ text, Tells fromUtf8Lossy frame.body text ∧ message = .error text
  else message = .other

theorem frameMessage_frame (frame : Frame) :
    frameMessage fromUtf8Lossy frame.bytes = messageOf fromUtf8Lossy frame.tag frame.body := by
  rw [frameMessage, Checked.sliceFrom_of_le (by rw [length_frame]; omega)]
  rfl

theorem frameMessage_iff {frame : Frame} {message : StreamMessage} :
    frameMessage fromUtf8Lossy frame.bytes = .ok message ↔ Means fromUtf8Lossy frame message := by
  have given (message' : StreamMessage) :
      (.ok message' : Checked String StreamMessage) = .ok message ↔ message = message' :=
    ⟨fun same => (Except.ok.inj same).symm, fun same => congrArg Except.ok same.symm⟩
  rw [frameMessage_frame, messageOf, Means]
  split
  · exact given .copyBoth
  split
  · exact given (.copyData frame.body)
  split
  · exact given .copyDone
  split
  · obtain ⟨text, tells⟩ := exists_tells fromUtf8Lossy frame.body
    rw [errorMessageFromBody_iff.mpr tells]
    constructor
    · intro same
      exact ⟨text, tells, (given (.error text)).mp same⟩
    · rintro ⟨text', tells', rfl⟩
      have same := (errorMessageFromBody_iff.mpr tells).symm.trans
        (errorMessageFromBody_iff.mpr tells')
      exact congrArg (Except.map StreamMessage.error) same
  · exact given .other

theorem exists_means (fromUtf8Lossy : List UInt8 → String) (frame : Frame) :
    ∃ message, Means fromUtf8Lossy frame message := by
  obtain ⟨text, tells⟩ := exists_tells fromUtf8Lossy frame.body
  have meant : ∃ message, messageOf fromUtf8Lossy frame.tag frame.body = .ok message := by
    rw [messageOf, errorMessageFromBody_iff.mpr tells]
    repeat' split
    all_goals exact ⟨_, rfl⟩
  obtain ⟨message, given⟩ := meant
  exact ⟨message, frameMessage_iff.mp ((frameMessage_frame frame).trans given)⟩

theorem exists_meanings (fromUtf8Lossy : List UInt8 → String) (frames : List Frame) :
    ∃ messages, List.Forall₂ (Means fromUtf8Lossy) frames messages := by
  induction frames with
  | nil => exact ⟨[], .nil⟩
  | cons frame frames ih =>
      obtain ⟨message, means⟩ := exists_means fromUtf8Lossy frame
      obtain ⟨messages, each⟩ := ih
      exact ⟨message :: messages, .cons means each⟩

/-- The frames are read first, and then what is behind them. -/
theorem messagesOf_frames {frames : List Frame} {messages : List StreamMessage}
    (each : List.Forall₂ (Means fromUtf8Lossy) frames messages) (tail : List UInt8) (count : ℕ) :
    messagesOf fromUtf8Lossy count (frames.flatMap Frame.bytes ++ tail) =
      if count ≤ frames.length then (messages.take count, none)
      else (messages ++ (messagesOf fromUtf8Lossy (count - frames.length) tail).1,
        (messagesOf fromUtf8Lossy (count - frames.length) tail).2) := by
  induction each generalizing count with
  | nil =>
      cases count with
      | zero => rfl
      | succ count => rfl
  | @cons frame message frames messages means each ih =>
      cases count with
      | zero => rfl
      | succ count =>
          have first : messageAt fromUtf8Lossy
              (frame.bytes ++ (frames.flatMap Frame.bytes ++ tail)) =
                .ok (message, frames.flatMap Frame.bytes ++ tail) := by
            rw [messageAt, frameOf_frame]
            change (frameMessage fromUtf8Lossy frame.bytes >>= _) = _
            rw [frameMessage_iff.mpr means]
            rfl
          rw [List.flatMap_cons, List.append_assoc, messagesOf, first]
          dsimp only
          rw [ih, List.length_cons, Nat.add_sub_add_right]
          by_cases within : count ≤ frames.length
          · rw [if_pos within, if_pos (Nat.succ_le_succ within)]
            rfl
          · rw [if_neg within, if_neg fun more => within (Nat.le_of_succ_le_succ more)]
            rfl

/-! ## Behind the frames -/

/-- A length field is a signed number of 32 bits. -/
theorem lengthField_bounds {bytes : List UInt8} (long : 5 ≤ bytes.length) :
    -2 ^ 31 ≤ lengthField bytes ∧ lengthField bytes < 2 ^ 31 := by
  match bytes, long with
  | tag :: a :: b :: c :: d :: rest, _ =>
      change -2 ^ 31 ≤ fromBeBytes [a, b, c, d] ∧ fromBeBytes [a, b, c, d] < 2 ^ 31
      have small := a.toNat_lt
      have small' := b.toNat_lt
      have small'' := c.toNat_lt
      have small₄ := d.toNat_lt
      rw [fromBeBytes]
      split
      · omega
      · simp only [List.foldl_cons, List.foldl_nil] at *
        omega

/-- The bytes begin with a length below four that the stream can make up for: that is minus one,
zero or more, or less than minus one in a stream of nearly all addresses. -/
def TripsAt (bytes : List UInt8) : Prop :=
  5 ≤ bytes.length ∧ lengthField bytes < 4 ∧
    (-1 ≤ lengthField bytes ∨ 2 ^ 64 + lengthField bytes < bytes.length)

theorem TripsAt.not_startsFrame {bytes : List UInt8} (trips : TripsAt bytes) :
    ¬ StartsFrame bytes := by
  rintro ⟨frame, rest, rfl⟩
  have field := lengthField_frame frame rest
  have short := trips.2.1
  omega

variable {tail : List UInt8}

/-- What does not begin with a frame is refused, if it does not trip the session. -/
theorem messageAt_refused (ends : ¬ StartsFrame tail) (safe : ¬ TripsAt tail) :
    messageAt fromUtf8Lossy tail = Checked.refuse closed := by
  suffices refused : frameOf tail = Checked.refuse closed by
    rw [messageAt, refused]
    rfl
  rw [frameOf]
  split
  · rfl
  · next long =>
      obtain ⟨least, most⟩ := lengthField_bounds (Nat.le_of_not_lt long)
      by_cases short : lengthField tail < 4
      · have negative : lengthField tail < -1 ∧ tail.length ≤ 2 ^ 64 + lengthField tail := by
          by_contra other
          refine safe ⟨by omega, short, ?_⟩
          omega
        have wrapped : asUsize (lengthField tail) = (2 ^ 64 + lengthField tail).toNat := by
          rw [asUsize]
          omega
        rw [wrapped, Checked.add_of_lt (by omega)]
        exact if_pos (by omega)
      · have cut : ¬ 1 + lengthField tail ≤ tail.length := fun enough => by
          exact ends (exists_frame (by omega) (by omega) enough)
        rw [asUsize_of_nonneg (by omega) most, Checked.add_of_lt (by omega)]
        exact if_pos (by omega)

/-- The message of a frame of five bytes is never refused. -/
theorem frameMessage_ne_refused {frame : List UInt8} (reason : String) :
    frameMessage fromUtf8Lossy frame ≠ Checked.refuse reason := by
  have told (body : List UInt8) (tag : UInt8) :
      messageOf fromUtf8Lossy tag body ≠ Checked.refuse reason := by
    obtain ⟨text, tells⟩ := exists_tells fromUtf8Lossy body
    rw [messageOf, errorMessageFromBody_iff.mpr tells]
    repeat' split
    all_goals rintro ⟨⟩
  rw [frameMessage, Checked.get, Checked.sliceFrom]
  split
  · split
    · exact told _ _
    · rintro ⟨⟩
  · rintro ⟨⟩

/-- What trips the session is not refused. -/
theorem TripsAt.messageAt_ne (trips : TripsAt tail) :
    messageAt fromUtf8Lossy tail ≠ Checked.refuse closed := by
  obtain ⟨long, short, made⟩ := trips
  obtain ⟨least, most⟩ := lengthField_bounds long
  rw [messageAt, frameOf, if_neg (by omega)]
  by_cases wraps : lengthField tail = -1
  · have wrapped : (Checked.add 1 (asUsize (-1)) : Checked String ℕ) = .error .panicked := rfl
    rw [wraps, wrapped]
    exact nofun
  · have enough : 1 + asUsize (lengthField tail) ≤ tail.length ∧
        1 + asUsize (lengthField tail) < 2 ^ 64 := by
      rw [asUsize]
      omega
    rw [Checked.add_of_lt enough.2]
    change ((if _ then _ else _) >>= _) ≠ _
    rw [if_neg (by omega)]
    change (frameMessage fromUtf8Lossy (tail.take (1 + asUsize (lengthField tail))) >>= _) ≠ _
    have stands : frameMessage fromUtf8Lossy (tail.take (1 + asUsize (lengthField tail))) ≠
        Checked.refuse closed := frameMessage_ne_refused closed
    cases given : frameMessage fromUtf8Lossy (tail.take (1 + asUsize (lengthField tail))) with
    | ok message => exact nofun
    | error fault =>
        rw [given] at stands
        exact fun same => stands (congrArg Except.error (Except.error.inj same))

/-! ## Whole streams -/

theorem Frame.bytes_inj {frame frame' : Frame} (same : frame.bytes = frame'.bytes) :
    frame = frame' := by
  obtain ⟨tag, body, short⟩ := frame
  obtain ⟨tag', body', short'⟩ := frame'
  have body_ : body = body' := congrArg (List.drop 5) same
  have tag_ : tag = tag' := (List.cons.inj same).1
  subst body_ tag_
  rfl

/-- There is one way only to split bytes into frames. -/
theorem frames_unique {frames frames' : List Frame} {tail' : List UInt8}
    (ends : ¬ StartsFrame tail) (ends' : ¬ StartsFrame tail')
    (same : frames.flatMap Frame.bytes ++ tail = frames'.flatMap Frame.bytes ++ tail') :
    frames = frames' ∧ tail = tail' := by
  induction frames generalizing frames' with
  | nil =>
      cases frames' with
      | nil => exact ⟨rfl, same⟩
      | cons frame' frames' =>
          rw [List.flatMap_cons, List.append_assoc] at same
          exact absurd ⟨frame', _, same⟩ ends
  | cons frame frames ih =>
      rw [List.flatMap_cons, List.append_assoc] at same
      cases frames' with
      | nil => exact absurd ⟨frame, _, same.symm⟩ ends'
      | cons frame' frames' =>
          rw [List.flatMap_cons, List.append_assoc] at same
          have first := frameOf_frame frame (frames.flatMap Frame.bytes ++ tail)
          rw [same, frameOf_frame] at first
          obtain ⟨bytes, rest⟩ := Prod.mk.inj (Except.ok.inj first)
          obtain ⟨rfl, rfl⟩ := ih rest.symm
          exact ⟨by rw [Frame.bytes_inj bytes], rfl⟩

/-- Whatever the cuts, the frames of a stream are read, one message each, and what is behind them is
refused. -/
def ParsesStream (fromUtf8Lossy : List UInt8 → String) (bytes : List UInt8) : Prop :=
  ∃ (frames : List Frame) (messages : List StreamMessage) (tail : List UInt8),
    bytes = frames.flatMap Frame.bytes ++ tail ∧ ¬ StartsFrame tail ∧
    List.Forall₂ (Means fromUtf8Lossy) frames messages ∧
    ∀ inflow : Inflow UInt8, inflow.pending = bytes → ∀ count : ℕ,
      readMessages fromUtf8Lossy count inflow =
        if count ≤ frames.length then (messages.take count, none)
        else (messages, some (.refused closed))

/-- Behind whole frames there is a length that trips the session. -/
def Trips (bytes : List UInt8) : Prop := ∃ (frames : List Frame) (tail : List UInt8),
  bytes = frames.flatMap Frame.bytes ++ tail ∧ TripsAt tail

/-- **A stream is parsed exactly when it does not trip the session.** -/
theorem parsesStream_iff (bytes : List UInt8) :
    ParsesStream fromUtf8Lossy bytes ↔ ¬ Trips bytes := by
  constructor
  · rintro ⟨frames, messages, tail, rfl, ends, each, reads⟩ ⟨frames', tail', same, trips⟩
    obtain ⟨rfl, rfl⟩ := frames_unique ends trips.not_startsFrame same
    have whole := reads ⟨frames.flatMap Frame.bytes ++ tail, [], nofun⟩ (List.append_nil _)
      (frames.length + 1)
    rw [readMessages_eq, Inflow.pending, List.flatten_nil, List.append_nil,
      messagesOf_frames each, if_neg (Nat.not_succ_le_self _), if_neg (Nat.not_succ_le_self _),
      Nat.add_sub_cancel_left] at whole
    have fault := (Prod.mk.inj whole).2
    have stands : messageAt fromUtf8Lossy tail ≠ Checked.refuse closed := trips.messageAt_ne
    rw [messagesOf] at fault
    cases given : messageAt fromUtf8Lossy tail with
    | ok read =>
        rw [given] at fault
        cases fault
    | error other =>
        rw [given] at fault stands
        exact stands (congrArg Except.error (Option.some.inj fault))
  · intro safe
    obtain ⟨frames, tail, rfl, ends⟩ := exists_frames bytes
    obtain ⟨messages, each⟩ := exists_meanings fromUtf8Lossy frames
    refine ⟨frames, messages, tail, rfl, ends, each, fun inflow pending count => ?_⟩
    rw [readMessages_eq, pending, messagesOf_frames each]
    split
    · rfl
    · next beyond =>
        obtain ⟨more, behind⟩ : ∃ more, count - frames.length = more + 1 :=
          Nat.exists_eq_succ_of_ne_zero (by omega)
        have refused : messageAt fromUtf8Lossy tail = Checked.refuse closed :=
          messageAt_refused ends fun trips => safe ⟨frames, tail, rfl, trips⟩
        rw [behind, messagesOf, refused]
        exact congrArg₂ Prod.mk (List.append_nil _) rfl

/-- **A stream is parsed, the same for every cut and without a panic, exactly when no length below
four stands in it that the stream makes up for, and the message of an error is the first one, for
every body.** -/
theorem replicationFrames_iff (fromUtf8Lossy : List UInt8 → String) :
    (∀ bytes : List UInt8, ParsesStream fromUtf8Lossy bytes ↔ ¬ Trips bytes) ∧
    (∀ body : List UInt8, ∃ text, errorMessageFromBody fromUtf8Lossy body = .ok text) ∧
    ∀ (body : List UInt8) (text : String),
      errorMessageFromBody fromUtf8Lossy body = .ok text ↔ Tells fromUtf8Lossy body text := by
  refine ⟨parsesStream_iff, fun body => ?_, fun _ _ => errorMessageFromBody_iff⟩
  obtain ⟨text, tells⟩ := exists_tells fromUtf8Lossy body
  exact ⟨text, errorMessageFromBody_iff.mpr tells⟩

/-- A length of zero, in five bytes, is not refused: the session panics. -/
theorem not_parsesStream :
    readMessages (fun _ => "") 1 ⟨[87, 0, 0, 0, 0], [], nofun⟩ = ([], some .panicked) ∧
    ¬ ∀ (fromUtf8Lossy : List UInt8 → String) (bytes : List UInt8),
      ParsesStream fromUtf8Lossy bytes := by
  refine ⟨by rw [readMessages_eq]; decide, fun parses => ?_⟩
  refine (parsesStream_iff [87, 0, 0, 0, 0]).mp (parses (fun _ => "") [87, 0, 0, 0, 0]) ?_
  exact ⟨[], [87, 0, 0, 0, 0], rfl, Nat.le_refl 5, by decide, .inl (by decide)⟩

end Messages

end ReplicationFrames

end Exocortex
