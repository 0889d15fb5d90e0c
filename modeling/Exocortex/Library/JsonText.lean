import Mathlib.Data.List.Basic
import Mathlib.Tactic.IntervalCases

/-!
# JSON strings

A JSON string is written between quotes, with quotes, backslashes and control
characters escaped. `quoted` is that text and `escapeChar` the text of one character,
in the compact form: the five short escapes, and `\u00xx` for the other control
characters.

Reading a character back gives the character and the text after it
(`readChar_escapeChar`), and no escaped text starts with a quote, so what a quoted text
stands for, and where it ends, is determined (`quoted_append_inj`).
-/

namespace Library

/-- A lowercase hexadecimal digit. -/
def hexDigit (n : ℕ) : Char := (Nat.toDigits 16 n).headD '0'

/-- The text of one character inside a JSON string. -/
def escapeChar (c : Char) : List Char :=
  if c = '"' then ['\\', '"']
  else if c = '\\' then ['\\', '\\']
  else if c.toNat = 0x08 then ['\\', 'b']
  else if c.toNat = 0x09 then ['\\', 't']
  else if c.toNat = 0x0a then ['\\', 'n']
  else if c.toNat = 0x0c then ['\\', 'f']
  else if c.toNat = 0x0d then ['\\', 'r']
  else if c.toNat < 0x20 then
    ['\\', 'u', '0', '0', hexDigit (c.toNat / 16), hexDigit (c.toNat % 16)]
  else [c]

/-- The value of a hexadecimal digit. -/
def hexValue (c : Char) : ℕ := if c.toNat < 0x3a then c.toNat - 0x30 else c.toNat - 0x57

/-- One character, and the text after it. -/
def readChar : List Char → Option (Char × List Char)
  | '\\' :: 'u' :: '0' :: '0' :: high :: low :: rest =>
      some (Char.ofNat (16 * hexValue high + hexValue low), rest)
  | '\\' :: 'b' :: rest => some (Char.ofNat 0x08, rest)
  | '\\' :: 't' :: rest => some (Char.ofNat 0x09, rest)
  | '\\' :: 'n' :: rest => some (Char.ofNat 0x0a, rest)
  | '\\' :: 'f' :: rest => some (Char.ofNat 0x0c, rest)
  | '\\' :: 'r' :: rest => some (Char.ofNat 0x0d, rest)
  | '\\' :: c :: rest => some (c, rest)
  | c :: rest => some (c, rest)
  | [] => none

/-- The text of a JSON string. -/
def quoted (text : List Char) : List Char := '"' :: (text.flatMap escapeChar ++ ['"'])

theorem readChar_escapeChar (c : Char) (rest : List Char) :
    readChar (escapeChar c ++ rest) = some (c, rest) := by
  by_cases control : c.toNat < 0x20
  · -- There are thirty-two control characters.
    have all : ∀ n < 0x20, readChar (escapeChar (Char.ofNat n) ++ rest) =
        some (Char.ofNat n, rest) := by
      intro n low
      interval_cases n <;> rfl
    have same := all c.toNat control
    rwa [Char.ofNat_toNat] at same
  · by_cases quote : c = '"'
    · subst quote
      rfl
    · by_cases backslash : c = '\\'
      · subst backslash
        rfl
      · have plain : escapeChar c = [c] := by
          unfold escapeChar
          rw [if_neg quote, if_neg backslash, if_neg (by omega), if_neg (by omega),
            if_neg (by omega), if_neg (by omega), if_neg (by omega), if_neg control]
        rw [plain, List.singleton_append]
        unfold readChar
        split <;> simp_all

/-- No escaped text starts with a quote. -/
theorem escapeChar_head (c : Char) : ∃ head tail, escapeChar c = head :: tail ∧ head ≠ '"' := by
  unfold escapeChar
  repeat' split
  all_goals first
    | exact ⟨'\\', _, rfl, by decide⟩
    | exact ⟨c, [], rfl, by assumption⟩

variable {left right : List Char}

theorem escapeChar_append_inj {c d : Char} (same : escapeChar c ++ left = escapeChar d ++ right) :
    c = d ∧ left = right := by
  have read := congrArg readChar same
  rw [readChar_escapeChar, readChar_escapeChar] at read
  exact Prod.mk.inj (Option.some.inj read)

/-- **A quoted text ends where it ends.** -/
theorem quoted_append_inj {after after' : List Char}
    (same : quoted left ++ after = quoted right ++ after') : left = right ∧ after = after' := by
  have body : left.flatMap escapeChar ++ '"' :: after =
      right.flatMap escapeChar ++ '"' :: after' := by
    simpa [quoted] using same
  clear same
  induction left generalizing right with
  | nil =>
      cases right with
      | nil => simpa using body
      | cons d right =>
          obtain ⟨head, tail, shape, noQuote⟩ := escapeChar_head d
          rw [List.flatMap_nil, List.flatMap_cons, shape] at body
          exact absurd (List.cons.inj body).1.symm noQuote
  | cons c left ih =>
      cases right with
      | nil =>
          obtain ⟨head, tail, shape, noQuote⟩ := escapeChar_head c
          rw [List.flatMap_nil, List.flatMap_cons, shape] at body
          exact absurd (List.cons.inj body).1 noQuote
      | cons d right =>
          rw [List.flatMap_cons, List.flatMap_cons, List.append_assoc, List.append_assoc] at body
          obtain ⟨first, rest⟩ := escapeChar_append_inj body
          obtain ⟨others, ends⟩ := ih rest
          exact ⟨by rw [first, others], ends⟩

/-- An object of three string fields is determined by its text. -/
theorem quoted_fields_inj {first second third last : List Char} {x y z x' y' z' : List Char}
    (same : first ++ (quoted x ++ (second ++ (quoted y ++ (third ++ (quoted z ++ last))))) =
      first ++ (quoted x' ++ (second ++ (quoted y' ++ (third ++ (quoted z' ++ last)))))) :
    x = x' ∧ y = y' ∧ z = z' := by
  obtain ⟨fieldX, same⟩ := quoted_append_inj (List.append_cancel_left same)
  obtain ⟨fieldY, same⟩ := quoted_append_inj (List.append_cancel_left same)
  obtain ⟨fieldZ, -⟩ := quoted_append_inj (List.append_cancel_left same)
  exact ⟨fieldX, fieldY, fieldZ⟩

end Library
