import Exocortex.Library.Tables
import Exocortex.Library.Words

/-!
# Names of entities

A text is a list of characters. What the standard library says of single characters is given
(`CharTables`); the operations on texts are made of it, and so is the lower case of a text, in which
a capital sigma at the end of a word has a form of its own.

What the resolution of entities needs to know of the tables is little (`Unicode`): a text in lower
case is its own lower case (`lowercase_of_settled`).
-/

namespace Exocortex.Resolution

open Library

abbrev Text := List Char

/-- What the standard library says of single characters. -/
structure CharTables where
  toLowercase : Char → List Char
  isWhitespace : Char → Bool
  isAlphanumeric : Char → Bool
  isCased : Char → Bool
  isCaseIgnorable : Char → Bool

namespace CharTables

variable (tables : CharTables)

def splitWhitespace (text : Text) : List Text := words tables.isWhitespace text

def trim (text : Text) : Text := trimmed tables.isWhitespace text

/-- The first character that counts for the case has one. -/
def caseIgnorableThenCased (text : Text) : Bool :=
  match text.dropWhile tables.isCaseIgnorable with
  | [] => false
  | ch :: _ => tables.isCased ch

/-- A capital sigma in lower case, which depends on whether a word ends with it. -/
def mapUppercaseSigma (before after : Text) : Char :=
  if caseIgnorableThenCased tables before && !caseIgnorableThenCased tables after then 'ς' else 'σ'

/-- The lower case of what is left of a text. What is before it is read backwards. -/
def lowercaseFrom (before : Text) : (after : Text) → Text
  | [] => []
  | ch :: after =>
      (if ch = 'Σ' then [mapUppercaseSigma tables before after] else tables.toLowercase ch) ++
        lowercaseFrom (ch :: before) after

/-- The lower case of a whole text. -/
def lowercase (text : Text) : Text := lowercaseFrom tables [] text

end CharTables

def legalSuffixes : List Text :=
  ["inc", "incorporated", "llc", "llp", "ltd", "limited", "corp", "corporation", "co", "company",
    "gmbh", "ag", "sa", "s.a.", "plc", "pty", "pvt"].map String.toList

/-- A name without the words that say what kind of an entity it is, in lower case. -/
def stripLegalSuffixes (tables : CharTables) (name : Text) : Text :=
  List.intercalate [' '] (((tables.splitWhitespace name).map fun token =>
    tables.lowercase (trimmed (· = '.') token)).filter fun token => !legalSuffixes.contains token)

structure EntityRecord where
  id : Text
  name : Text
  attributes : Table Text Text

/-! ## Lower case -/

/-- The tables of characters, as far as it matters here: a character in lower case is its own lower
case. -/
structure Unicode extends CharTables where
  toLowercase_settled : ∀ ch, ∀ lower ∈ toLowercase ch, toLowercase lower = [lower]
  toLowercase_sigma : toLowercase 'Σ' = ['σ']
  toLowercase_final_sigma : toLowercase 'ς' = ['ς']
  toLowercase_space : toLowercase ' ' = [' ']

namespace CharTables

variable {tables : CharTables}

/-- A character is its own lower case wherever it stands. -/
def Settled (tables : CharTables) (ch : Char) : Prop := ch ≠ 'Σ' ∧ tables.toLowercase ch = [ch]

theorem lowercaseFrom_of_settled {before text : Text}
    (settled : ∀ ch ∈ text, tables.Settled ch) : lowercaseFrom tables before text = text := by
  induction text generalizing before with
  | nil => rfl
  | cons ch text ih =>
      obtain ⟨⟨other, same⟩, later⟩ := List.forall_mem_cons.mp settled
      rw [lowercaseFrom, if_neg other, same, ih later]
      rfl

theorem lowercase_of_settled {text : Text} (settled : ∀ ch ∈ text, tables.Settled ch) :
    tables.lowercase text = text := lowercaseFrom_of_settled settled

end CharTables

namespace Unicode

variable {unicode : Unicode}

theorem settled_lower {ch lower : Char} (listed : lower ∈ unicode.toLowercase ch) :
    unicode.Settled lower := by
  have same := unicode.toLowercase_settled ch lower listed
  refine ⟨?_, same⟩
  rintro rfl
  rw [unicode.toLowercase_sigma] at same
  exact absurd same (by decide)

theorem settled_sigma (before after : Text) :
    unicode.Settled (CharTables.mapUppercaseSigma unicode.toCharTables before after) := by
  rw [CharTables.mapUppercaseSigma]
  split
  · exact ⟨by decide, unicode.toLowercase_final_sigma⟩
  · have listed : 'σ' ∈ unicode.toLowercase 'Σ' := by
      rw [unicode.toLowercase_sigma]
      exact List.mem_singleton_self _
    exact settled_lower listed

/-- What is in a lower case is settled. -/
theorem settled_lowercaseFrom {before text : Text} {ch : Char}
    (listed : ch ∈ CharTables.lowercaseFrom unicode.toCharTables before text) :
    unicode.Settled ch := by
  induction text generalizing before with
  | nil => exact absurd listed List.not_mem_nil
  | cons first text ih =>
      rw [CharTables.lowercaseFrom, List.mem_append] at listed
      rcases listed with here | later
      · split at here
        · rw [List.mem_singleton] at here
          exact here ▸ settled_sigma before text
        · exact settled_lower here
      · exact ih later

/-- A stripped name is in lower case. -/
theorem settled_stripLegalSuffixes {name : Text} {ch : Char}
    (listed : ch ∈ stripLegalSuffixes unicode.toCharTables name) : unicode.Settled ch := by
  rcases mem_of_mem_intercalate listed with between | ⟨token, among, inside⟩
  · rw [List.mem_singleton] at between
    exact between ▸ ⟨by decide, unicode.toLowercase_space⟩
  · obtain ⟨word, -, rfl⟩ := List.mem_map.mp (List.mem_of_mem_filter among)
    exact settled_lowercaseFrom inside

end Unicode

end Exocortex.Resolution
