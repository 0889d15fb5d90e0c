import Exocortex.Kernel.Ids
import Exocortex.Library.Cuts
import Exocortex.Library.Scans

/-!
# Bytes written in hexadecimal

Three functions read hexadecimal digits: the keys of the wire format (`decodeHex32`), the identity
of a relationship in a request (`relUnhex`), and the escapes in the path of a table
(`percentDecode`). Each cuts pairs out of a text at offsets in bytes, and reads a pair as an
integer in base sixteen.

A text is the list of its characters, each of which takes up its bytes in UTF-8, so a slice between
two offsets is there when no character is cut. The integer parser of the standard library takes a
plus sign in front of the digits, and so the functions accept more than hexadecimal digits.
`DecodesHex` and `DecodesPercent` say what the functions are for, and `Signed`, `CutsChar` and
`SignedEscapes` what they take, or panic at, besides.
-/

namespace Exocortex

open Library

namespace HexText

/-! ## Integers in base sixteen -/

inductive ParseIntError where
  | empty
  | invalidDigit
  | posOverflow
deriving DecidableEq

def ParseIntError.text : ParseIntError → String
  | .empty => "cannot parse integer from empty string"
  | .invalidDigit => "invalid digit found in string"
  | .posOverflow => "number too large to fit in target type"

/-- The value of a digit in base sixteen. -/
def toDigit (c : Char) : Option ℕ :=
  if '0' ≤ c ∧ c ≤ '9' then some (c.toNat - '0'.toNat)
  else if 'a' ≤ c ∧ c ≤ 'f' then some (c.toNat - 'a'.toNat + 10)
  else if 'A' ≤ c ∧ c ≤ 'F' then some (c.toNat - 'A'.toNat + 10)
  else none

def readDigits : List Char → ℕ → Except ParseIntError UInt8
  | [], value => .ok (UInt8.ofNat value)
  | c :: digits, value =>
      match toDigit c with
      | none => .error .invalidDigit
      | some digit =>
          if 256 ≤ value * 16 + digit then .error .posOverflow
          else readDigits digits (value * 16 + digit)

/-- `u8::from_str_radix` in base sixteen: a plus sign may come before the digits. -/
def fromStrRadix : List Char → Except ParseIntError UInt8
  | [] => .error .empty
  | ['+'] | ['-'] => .error .invalidDigit
  | '+' :: digits => readDigits digits 0
  | digits => readDigits digits 0

/-! ## The decoders -/

/-- What a decoder gives back instead of bytes. -/
inductive Stop where
  | refused (reason : String)
  | panicked
deriving DecidableEq

/-- One byte in front of others. -/
def consByte {n : ℕ} (byte : UInt8) (rest : Bytes n) : Bytes (n + 1) :=
  ⟨byte :: rest.bytes, congrArg (· + 1) rest.size⟩

/-- The bytes that a loop over the slots of an array reads, from one slot on. -/
def fillSlots {ε : Type} (slot : ℕ → Except ε UInt8) : ℕ → (n : ℕ) → Except ε (Bytes n)
  | _, 0 => .ok ⟨[], rfl⟩
  | i, n + 1 => do
      let byte ← slot i
      let rest ← fillSlots slot (i + 1) n
      .ok (consByte byte rest)

/-- The slice of a text between two offsets in bytes, unless a character is cut. -/
def slice (text : List Char) (start stop : ℕ) : Option (List Char) :=
  pieceAt Char.utf8Size text start stop

/-- The loop that reads one pair of digits for each slot. -/
def readPairs {ε : Type} (cut : ε) (invalid : ParseIntError → ε) (text : List Char) (n : ℕ) :
    Except ε (Bytes n) :=
  fillSlots (fun i =>
    match slice text (i * 2) (i * 2 + 2) with
    | none => .error cut
    | some pair => (fromStrRadix pair).mapError invalid) 0 n

def decodeHex32 (hex : String) : Except String (Bytes 32) :=
  if hex.utf8ByteSize ≠ 64 then
    .error ("key must be 64 hex chars, got " ++ toString hex.utf8ByteSize)
  else readPairs "key truncated" (fun e => "bad key hex: " ++ e.text) hex.toList 32

/-- A slice that cuts a character panics. -/
def relUnhex (s : String) : Except Stop RelationshipId :=
  if s.utf8ByteSize ≠ 32 then .error (.refused "expected 32-char hex id")
  else (readPairs .panicked (fun _ => .refused "expected 32-char hex id") s.toList 16).map
    RelationshipId.mk

/-- The bytes of a text without its escapes, from a place on where a character begins. A character
other than a percent sign is copied byte by byte. -/
def unescape (input : String) : List Char → Except String (List UInt8)
  | [] => .ok []
  | c :: rest =>
      if c = '%' then
        match slice rest 0 2 with
        | none => .error ("truncated percent escape in " ++ input)
        | some hex =>
            match fromStrRadix hex with
            | .error _ =>
                .error ("invalid percent escape %" ++ String.ofList hex ++ " in " ++ input)
            | .ok byte => (unescape input (rest.drop hex.length)).map (byte :: ·)
      else (unescape input rest).map (String.utf8EncodeChar c ++ ·)
termination_by text => text.length
decreasing_by
  all_goals simp only [List.length_drop, List.length_cons]
  all_goals omega

/-- The text that bytes are in UTF-8. -/
def fromUtf8 (bytes : List UInt8) : Option String := String.fromUTF8? ⟨bytes.toArray⟩

/-- The text of the error about bytes that are not UTF-8 is the standard library's. -/
def percentDecode (utf8Error : List UInt8 → String) (input : String) : Except String String := do
  let out ← unescape input input.toList
  match fromUtf8 out with
  | none => .error ("path " ++ input ++ " decodes to non-UTF-8: " ++ utf8Error out)
  | some text => .ok text

/-! ## What the decoders are for -/

def hexDigits : List Char := "0123456789abcdefABCDEF".toList

/-- A text of so many hexadecimal digits. -/
def IsHex (digits : ℕ) (text : String) : Prop :=
  text.toList.length = digits ∧ ∀ c ∈ text.toList, c ∈ hexDigits

/-- **A decoder takes exactly the hexadecimal texts, gives their bytes, and refuses the rest.** -/
structure DecodesHex (width : ℕ) (text : String) (result : Except Stop (Bytes width)) : Prop where
  accepts : (∃ value, result = .ok value) ↔ IsHex (2 * width) text
  returns : ∀ value, result = .ok value → value.digestHex = text.toLower
  refuses : ¬ IsHex (2 * width) text → ∃ reason, result = .error (.refused reason)

/-- Each percent sign is followed by two characters, a lead and a hexadecimal digit. -/
def EscapesWith (Lead : Char → Prop) (text : List Char) : Prop :=
  ∀ front back, text = front ++ '%' :: back →
    ∃ a b rest, back = a :: b :: rest ∧ Lead a ∧ b ∈ hexDigits

/-- The byte that two hexadecimal digits stand for. -/
def byteOf (a b : Char) : UInt8 := UInt8.ofNat ((toDigit a).getD 0 * 16 + (toDigit b).getD 0)

/-- The bytes of a text in which escapes stand for a byte each. -/
def unescaped : List Char → List UInt8
  | [] => []
  | c :: rest =>
      if c = '%' then
        match rest with
        | a :: b :: rest => byteOf a b :: unescaped rest
        | _ => []
      else String.utf8EncodeChar c ++ unescaped rest

/-- The escapes of a text stand for a text in UTF-8. -/
def StandsForText (text : String) : Prop :=
  ∃ decoded : String, decoded.toUTF8.toList = unescaped text.toList

def PercentEncoded (text : String) : Prop :=
  EscapesWith (· ∈ hexDigits) text.toList ∧ StandsForText text

structure DecodesPercent (text : String) (result : Except String String) : Prop where
  accepts : (∃ decoded, result = .ok decoded) ↔ PercentEncoded text
  returns : ∀ decoded, result = .ok decoded → decoded.toUTF8.toList = unescaped text.toList
  refuses : ¬ PercentEncoded text → ∃ reason, result = .error reason

/-- The digits of a byte. -/
def digitsOf (upper : Bool) (byte : UInt8) : List Char :=
  (Bytes.hexByte byte).toList.map fun c => if upper then c.toUpper else c

/-- What a byte is written as: itself, if it is a character that is kept, or an escape. -/
def escaped (upper : Bool) (keep : UInt8 → Bool) (byte : UInt8) : List Char :=
  if keep byte ∧ byte < 128 ∧ byte ≠ 37 then [Char.ofNat byte.toNat]
  else '%' :: digitsOf upper byte

/-- Write a text with escapes. -/
def percentEncode (upper : Bool) (keep : UInt8 → Bool) (text : String) : String :=
  String.ofList (text.toUTF8.toList.flatMap (escaped upper keep))

/-! ## What they take besides -/

/-- What the integer parser takes before the last digit of a pair. -/
def Lead (c : Char) : Prop := c ∈ hexDigits ∨ c = '+'

/-- Pairs that the integer parser reads. -/
inductive Readable : List Char → Prop
  | nil : Readable []
  | pair {a b : Char} {rest : List Char} (lead : Lead a) (digit : b ∈ hexDigits)
      (others : Readable rest) : Readable (a :: b :: rest)

/-- A text of as many characters as hexadecimal digits are asked for, in which some pairs are a
plus sign and a digit. -/
def Signed (width : ℕ) (text : String) : Prop :=
  text.toList.length = 2 * width ∧ Readable text.toList ∧ '+' ∈ text.toList

/-- A text of the length that is asked for, in which a pair behind readable pairs ends inside a
character. -/
def CutsChar (width : ℕ) (text : String) : Prop :=
  text.utf8ByteSize = 2 * width ∧ ∃ front back, text.toList = front ++ back ∧ Readable front ∧
    back ≠ [] ∧ slice back 0 2 = none

/-- Some percent signs are followed by a plus sign and a digit, the others by two digits, and the
escapes stand for a text. -/
def SignedEscapes (text : String) : Prop :=
  EscapesWith Lead text.toList ∧ ¬ EscapesWith (· ∈ hexDigits) text.toList ∧ StandsForText text

/-! ## Pairs -/

variable {c a : Char}

theorem toDigit_isSome_iff : (toDigit c).isSome ↔ c ∈ hexDigits := by
  constructor
  · intro digit
    have same : Char.ofNat c.toNat = c := Char.ofNat_toNat c
    rw [toDigit] at digit
    split at digit
    · next range =>
        obtain ⟨low, high⟩ : 48 ≤ c.toNat ∧ c.toNat ≤ 57 := range
        rw [← same]
        interval_cases c.toNat <;> decide
    · split at digit
      · next range =>
          obtain ⟨low, high⟩ : 97 ≤ c.toNat ∧ c.toNat ≤ 102 := range
          rw [← same]
          interval_cases c.toNat <;> decide
      · split at digit
        · next range =>
            obtain ⟨low, high⟩ : 65 ≤ c.toNat ∧ c.toNat ≤ 70 := range
            rw [← same]
            interval_cases c.toNat <;> decide
        · cases digit
  · have all : hexDigits.all (fun c => (toDigit c).isSome) = true := by decide
    exact List.all_eq_true.mp all c

theorem exists_toDigit (digit : c ∈ hexDigits) : ∃ value, toDigit c = some value ∧ value < 16 := by
  have small : hexDigits.all (fun c => (toDigit c).getD 0 < 16) = true := by decide
  have below : (toDigit c).getD 0 < 16 := of_decide_eq_true (List.all_eq_true.mp small c digit)
  obtain ⟨value, same⟩ := Option.isSome_iff_exists.mp (toDigit_isSome_iff.mpr digit)
  rw [same] at below
  exact ⟨value, same, below⟩

theorem toDigit_eq_none (other : c ∉ hexDigits) : toDigit c = none := by
  cases same : toDigit c with
  | none => rfl
  | some value => exact absurd (toDigit_isSome_iff.mp (by rw [same]; rfl)) other

theorem hexDigits_small (digit : c ∈ hexDigits) : c.utf8Size = 1 := by
  have small : hexDigits.all (fun c => c.utf8Size = 1) = true := by decide
  exact of_decide_eq_true (List.all_eq_true.mp small c digit)

theorem lead_small (lead : Lead c) : c.utf8Size = 1 := by
  rcases lead with digit | rfl
  · exact hexDigits_small digit
  · decide

variable {b : Char}

theorem readDigits_pair {byte : UInt8} :
    readDigits [a, b] 0 = .ok byte ↔ a ∈ hexDigits ∧ b ∈ hexDigits ∧ byte = byteOf a b := by
  rw [readDigits]
  by_cases first : a ∈ hexDigits
  · obtain ⟨high, same, high_small⟩ := exists_toDigit first
    simp only [same]
    rw [if_neg (by omega), readDigits]
    by_cases second : b ∈ hexDigits
    · obtain ⟨low, same', low_small⟩ := exists_toDigit second
      simp only [same']
      rw [if_neg (by omega), readDigits]
      simp [first, second, byteOf, same, same', eq_comm]
    · simp [toDigit_eq_none second, second]
  · simp [toDigit_eq_none first, first]

theorem fromStrRadix_single (other : a ∉ hexDigits) : fromStrRadix [a] = .error .invalidDigit := by
  rw [fromStrRadix.eq_def]
  split
  all_goals simp_all [readDigits, toDigit_eq_none]

theorem fromStrRadix_plus (b : Char) : fromStrRadix ['+', b] = readDigits ['0', b] 0 := rfl

theorem fromStrRadix_pair (unsigned : a ≠ '+') : fromStrRadix [a, b] = readDigits [a, b] 0 := by
  rw [fromStrRadix.eq_def]
  split
  all_goals simp_all

/-- **A pair is read if it is a digit or a plus sign, and a digit.** -/
theorem fromStrRadix_ok_iff {pair : List Char} (two : roomOf Char.utf8Size pair = 2)
    {byte : UInt8} : fromStrRadix pair = .ok byte ↔
      ∃ a b, pair = [a, b] ∧ Lead a ∧ b ∈ hexDigits ∧ byte = byteOf a b := by
  cases pair with
  | nil => cases two
  | cons a rest =>
      rw [roomOf_cons] at two
      cases rest with
      | nil =>
          -- one character of two bytes
          rw [roomOf_nil, Nat.add_zero] at two
          have wide : a ∉ hexDigits := fun digit => by
            rw [hexDigits_small digit] at two
            cases two
          rw [fromStrRadix_single wide]
          simp
      | cons b rest =>
          have first := a.utf8Size_pos
          have second := b.utf8Size_pos
          rw [roomOf_cons] at two
          cases rest with
          | cons c rest =>
              have third := c.utf8Size_pos
              rw [roomOf_cons] at two
              omega
          | nil =>
              by_cases signed : a = '+'
              · subst signed
                have value : byteOf '+' b = byteOf '0' b := rfl
                have zero : '0' ∈ hexDigits := by decide
                rw [fromStrRadix_plus, readDigits_pair]
                simp [Lead, value, zero]
              · rw [fromStrRadix_pair signed, readDigits_pair]
                simp [Lead, signed]

theorem byteOf_text (first : a ∈ hexDigits) (second : b ∈ hexDigits) :
    (Bytes.hexByte (byteOf a b)).toList = [a.toLower, b.toLower] := by
  have all : hexDigits.all (fun a => hexDigits.all fun b =>
      (Bytes.hexByte (byteOf a b)).toList = [a.toLower, b.toLower]) = true := by
    decide +kernel
  exact of_decide_eq_true (List.all_eq_true.mp (List.all_eq_true.mp all a first) b second)

end HexText

end Exocortex
