import Exocortex.Resolution.Jaro

/-!
# Comparison of entities

Two records are compared by their names, without the words for the kind of an entity, and by the
attributes that either of them has. The comparison is the same for both orders of the records, and
the loops in it never ask for a character that a text does not have (`comparison_symmetric`).
-/

namespace Exocortex.Resolution

open Library

section Similarities

variable (tables : CharTables)

/-- How far two texts are the same from their start, up to four characters. -/
def commonPrefix (a b : Text) : ℕ :=
  (((a.zip b).take 4).takeWhile fun pair => pair.1 = pair.2).length

/-- Jaro-Winkler similarity: a common prefix counts. -/
def jaroWinkler (a b : Text) : Checked Empty ℚ := do
  let base ← jaro tables a b
  if base ≤ 7 / 10 then return base
  else return base + 1 / 10 * commonPrefix (tables.lowercase a) (tables.lowercase b) * (1 - base)

def tokens (text : Text) : Finset Text :=
  (((tables.splitWhitespace text).map fun token =>
    tables.lowercase (trimmed (fun ch => !tables.isAlphanumeric ch) token)).filter fun token =>
      !token.isEmpty).toFinset

/-- Token-set similarity. -/
def tokenSet (a b : Text) : ℚ :=
  let a := tokens tables a
  let b := tokens tables b
  if a = ∅ ∧ b = ∅ then 1
  else if a = ∅ ∨ b = ∅ then 0
  else (a ∩ b).card / (a ∪ b).card

end Similarities

/-! ## Comparison -/

inductive Comparison where
  | exact
  | similar
  | different
  | missing
deriving DecidableEq

structure ComparisonVector where
  nameJw : Comparison
  nameTokens : Comparison
  attributes : Table Text Comparison

def nameSimilarBand : ℚ := 85 / 100

def attributeSimilarBand : ℚ := 85 / 100

section Compare

variable (tables : CharTables)

def band (a b : Text) (similarBand : ℚ) : Checked Empty Comparison :=
  let a := tables.lowercase (tables.trim a)
  let b := tables.lowercase (tables.trim b)
  if a = b then return .exact
  else if a = [] ∨ b = [] then return .missing
  else do
    let similarity ← jaroWinkler tables a b
    return if similarBand ≤ similarity then .similar else .different

/-- What is compared of an attribute that either record has. -/
def attributeOutcome (a b : EntityRecord) (key : Text) : Checked Empty Comparison :=
  match a.attributes.lookup key, b.attributes.lookup key with
  | some va, some vb => band tables va vb attributeSimilarBand
  | _, _ => return .missing

def compareKeys (a b : EntityRecord) : List Text :=
  (a.attributes.keys.toFinset ∪ b.attributes.keys.toFinset).sort

def tokenOutcome (a b : EntityRecord) : Comparison :=
  if stripLegalSuffixes tables a.name = stripLegalSuffixes tables b.name then .exact
  else if nameSimilarBand ≤ tokenSet tables a.name b.name then .similar
  else .different

def attributeRound (a b : EntityRecord) (attributes : Table Text Comparison) (key : Text) :
    Checked Empty (Table Text Comparison) := do
  let outcome ← attributeOutcome tables a b key
  return attributes.insert key outcome

def compareAttributes (a b : EntityRecord) : Checked Empty (Table Text Comparison) :=
  (compareKeys a b).foldlM (attributeRound tables a b) ∅

/-- Compare two records. -/
def compare (a b : EntityRecord) : Checked Empty ComparisonVector := do
  let nameJw ← band tables (stripLegalSuffixes tables a.name) (stripLegalSuffixes tables b.name)
    nameSimilarBand
  let attributes ← compareAttributes tables a b
  return ⟨nameJw, tokenOutcome tables a b, attributes⟩

/-! ## The order of a pair -/

theorem commonPrefix_comm (a b : Text) : commonPrefix a b = commonPrefix b a := by
  have swapped : (b.zip a).take 4 = ((a.zip b).take 4).map Prod.swap := by
    rw [← List.zip_swap, List.map_take]
  rw [commonPrefix, commonPrefix, swapped, List.takeWhile_map, List.length_map]
  refine congrArg List.length (congrArg (List.takeWhile · _) ?_)
  funext pair
  exact decide_eq_decide.mpr eq_comm

theorem jaroWinkler_comm (a b : Text) : jaroWinkler tables a b = jaroWinkler tables b a := by
  rw [jaroWinkler, jaroWinkler, jaro_comm, commonPrefix_comm]

theorem tokenSet_comm (a b : Text) : tokenSet tables a b = tokenSet tables b a := by
  rw [tokenSet, tokenSet, Finset.inter_comm, Finset.union_comm]
  exact if_congr and_comm rfl (if_congr or_comm rfl rfl)

theorem band_comm (a b : Text) (similarBand : ℚ) :
    band tables a b similarBand = band tables b a similarBand := by
  rw [band, band, jaroWinkler_comm]
  exact if_congr eq_comm rfl (if_congr or_comm rfl rfl)

theorem attributeOutcome_comm (a b : EntityRecord) (key : Text) :
    attributeOutcome tables a b key = attributeOutcome tables b a key := by
  rw [attributeOutcome, attributeOutcome]
  cases a.attributes.lookup key with
  | none => cases b.attributes.lookup key <;> rfl
  | some va =>
      cases b.attributes.lookup key with
      | none => rfl
      | some vb => exact band_comm tables va vb attributeSimilarBand

theorem compareKeys_comm (a b : EntityRecord) : compareKeys a b = compareKeys b a := by
  rw [compareKeys, compareKeys, Finset.union_comm]

theorem tokenOutcome_comm (a b : EntityRecord) :
    tokenOutcome tables a b = tokenOutcome tables b a := by
  rw [tokenOutcome, tokenOutcome, tokenSet_comm]
  exact if_congr eq_comm rfl rfl

theorem compare_comm (a b : EntityRecord) : compare tables a b = compare tables b a := by
  have rounds : attributeRound tables a b = attributeRound tables b a := by
    funext attributes key
    rw [attributeRound, attributeRound, attributeOutcome_comm]
  rw [compare, compare, compareAttributes, compareAttributes, band_comm, compareKeys_comm,
    tokenOutcome_comm, rounds]

/-! ## No panics -/

theorem jaroWinkler_ok (a b : Text) : ∃ s, jaroWinkler tables a b = .ok s := by
  obtain ⟨base, given, -⟩ := jaro_spec tables a b
  rw [jaroWinkler, given]
  change ∃ s, (if base ≤ 7 / 10 then _ else _) = _
  split
  · exact ⟨_, rfl⟩
  · exact ⟨_, rfl⟩

theorem band_ok (a b : Text) (similarBand : ℚ) : ∃ c, band tables a b similarBand = .ok c := by
  rw [band]
  split
  · exact ⟨_, rfl⟩
  split
  · exact ⟨_, rfl⟩
  · obtain ⟨s, given⟩ := jaroWinkler_ok tables (tables.lowercase (tables.trim a))
      (tables.lowercase (tables.trim b))
    rw [given]
    exact ⟨_, rfl⟩

theorem attributeOutcome_ok (a b : EntityRecord) (key : Text) :
    ∃ c, attributeOutcome tables a b key = .ok c := by
  rw [attributeOutcome]
  split
  · exact band_ok tables _ _ _
  · exact ⟨_, rfl⟩

theorem attributeRounds_ok (a b : EntityRecord) (keys : List Text)
    (attributes : Table Text Comparison) :
    ∃ filled, keys.foldlM (attributeRound tables a b) attributes = .ok filled := by
  induction keys generalizing attributes with
  | nil => exact ⟨attributes, rfl⟩
  | cons key keys ih =>
      obtain ⟨outcome, given⟩ := attributeOutcome_ok tables a b key
      obtain ⟨filled, given'⟩ := ih (attributes.insert key outcome)
      refine ⟨filled, ?_⟩
      rw [List.foldlM_cons, attributeRound, given]
      exact given'

theorem compare_ok (a b : EntityRecord) : ∃ vector, compare tables a b = .ok vector := by
  obtain ⟨nameJw, named⟩ := band_ok tables (stripLegalSuffixes tables a.name)
    (stripLegalSuffixes tables b.name) nameSimilarBand
  obtain ⟨attributes, filled⟩ := attributeRounds_ok tables a b (compareKeys a b) ∅
  refine ⟨⟨nameJw, tokenOutcome tables a b, attributes⟩, ?_⟩
  rw [compare, named]
  change (compareAttributes tables a b >>= _) = _
  rw [compareAttributes, filled]
  rfl

/-- **Comparison does not depend on the order of the pair**: the similarity of two texts is the same
both ways, between zero and one, and one just where the texts are the same with their case folded;
the comparison of two records is the same both ways, and so is any decision that is taken from it;
and no character is asked for that a text does not have. -/
theorem comparison_symmetric :
    (∀ a b : Text, jaro tables a b = jaro tables b a ∧
      ∃ s, jaro tables a b = .ok s ∧ 0 ≤ s ∧ s ≤ 1 ∧
        (s = 1 ↔ a.flatMap tables.toLowercase = b.flatMap tables.toLowercase)) ∧
    ∀ a b : EntityRecord, compare tables a b = compare tables b a ∧
      (∃ vector, compare tables a b = .ok vector) ∧
      ∀ (Decision : Type) (decision : ComparisonVector → Decision),
        (compare tables a b).map decision = (compare tables b a).map decision := by
  refine ⟨fun a b => ⟨jaro_comm tables a b, jaro_spec tables a b⟩, fun a b => ?_⟩
  refine ⟨compare_comm tables a b, compare_ok tables a b, fun _ decision => ?_⟩
  rw [compare_comm]

end Compare

end Exocortex.Resolution
