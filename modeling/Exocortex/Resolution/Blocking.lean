import Exocortex.Resolution.Comparison

/-!
# Blocking

Two records are compared only when they have a key in common. The pairs that are compared are just
those, each once and in order, and which pairs they are does not depend on the order of the corpus.

Names that are compared as exact are the same without their legal suffixes, and so they have a word
in common, and its key, unless nothing is left of them. Such names are compared as exact too, but
they have no key (`blocking_exact`).
-/

namespace Exocortex.Resolution

open Library

section Candidates

variable (tables : CharTables)

/-- The keys of a record, each once. -/
def blockingKeys (record : EntityRecord) : List Text :=
  let stripped := stripLegalSuffixes tables record.name
  let start := stripped.take 3
  let keys := (if tables.trim start = [] then [] else ["p:".toList ++ start]) ++
    (tables.splitWhitespace stripped).map ("t:".toList ++ ·) ++
    (record.attributes.sortedEntries fun left right => left ≤ right).flatMap fun entry =>
      (tables.splitWhitespace entry.2).map (("a:".toList ++ entry.1 ++ [':']) ++ ·)
  (keys.insertionSort (· ≤ ·)).dedup

/-- A record is noted under each of its keys. -/
def noteKeys (byKey : Table Text (List ℕ)) (entry : EntityRecord × ℕ) : Table Text (List ℕ) :=
  (blockingKeys tables entry.1).foldl (fun byKey key => byKey.push key entry.2) byKey

def byKey (corpus : List EntityRecord) : Table Text (List ℕ) :=
  corpus.zipIdx.foldl (noteKeys tables) ∅

/-- The pairs of members, in their order. -/
def pairsOf : List ℕ → List (ℕ ×ₗ ℕ)
  | [] => []
  | first :: later => later.map (fun second => toLex (first, second)) ++ pairsOf later

/-- A pair is taken unless it was seen. -/
def takePair (state : Finset (ℕ ×ₗ ℕ) × List (ℕ ×ₗ ℕ)) (pair : ℕ ×ₗ ℕ) :
    Finset (ℕ ×ₗ ℕ) × List (ℕ ×ₗ ℕ) :=
  if pair ∈ state.1 then state else (insert pair state.1, state.2 ++ [pair])

/-- The pairs of records that have a key in common. -/
def candidates (corpus : List EntityRecord) : List (ℕ ×ₗ ℕ) :=
  let members := ((byKey tables corpus).sortedEntries fun left right => left ≤ right).map (·.2)
  ((members.flatMap pairsOf).foldl takePair (∅, [])).2.insertionSort (· ≤ ·)

end Candidates

/-! ## The pairs -/

section Pairs

variable {tables : CharTables}

theorem nodup_blockingKeys (record : EntityRecord) : (blockingKeys tables record).Nodup :=
  List.nodup_dedup _

theorem history_noteKeys (table : Table Text (List ℕ)) (entry : EntityRecord × ℕ) (key : Text) :
    (noteKeys tables table entry).history key =
      table.history key ++ if key ∈ blockingKeys tables entry.1 then [entry.2] else [] := by
  have distinct : (blockingKeys tables entry.1).Nodup := nodup_blockingKeys entry.1
  rw [noteKeys]
  generalize blockingKeys tables entry.1 = keys at distinct ⊢
  induction keys generalizing table with
  | nil => exact (List.append_nil _).symm
  | cons first later ih =>
      obtain ⟨fresh, distinct⟩ := List.nodup_cons.mp distinct
      rw [List.foldl_cons, ih _ distinct, Table.history_push]
      by_cases same : key = first
      · subst same
        simp [fresh]
      · simp [same]

/-- Under a key stand the records that have it. -/
theorem history_byKey (corpus : List EntityRecord) (key : Text) :
    (byKey tables corpus).history key =
      (corpus.zipIdx.filter fun entry => key ∈ blockingKeys tables entry.1).map (·.2) := by
  rw [byKey]
  induction corpus.zipIdx using List.reverseRecOn with
  | nil => rfl
  | append_singleton entries entry ih =>
      rw [List.foldl_append, List.foldl_cons, List.foldl_nil, history_noteKeys, ih,
        List.filter_append, List.map_append]
      by_cases has : key ∈ blockingKeys tables entry.1 <;> simp [has]

variable {corpus : List EntityRecord} {i : ℕ}

theorem mem_history_byKey {key : Text} :
    i ∈ (byKey tables corpus).history key ↔
      ∃ record, corpus[i]? = some record ∧ key ∈ blockingKeys tables record := by
  rw [history_byKey]
  simp only [List.mem_map, List.mem_filter, decide_eq_true_eq, Prod.exists,
    List.mem_zipIdx_iff_getElem?]
  constructor
  · rintro ⟨record, _, ⟨here, has⟩, rfl⟩
    exact ⟨record, here, has⟩
  · rintro ⟨record, here, has⟩
    exact ⟨record, i, ⟨here, has⟩, rfl⟩

theorem pairwise_history_byKey (corpus : List EntityRecord) (key : Text) :
    ((byKey tables corpus).history key).Pairwise (· < ·) := by
  rw [history_byKey]
  have ascending : (corpus.zipIdx.map (·.2)).Pairwise (· < ·) := by
    rw [List.zipIdx_map_snd]
    exact List.pairwise_lt_range'
  exact ascending.sublist (List.filter_sublist.map _)

variable {j : ℕ}

theorem mem_pairsOf {members : List ℕ} (ascending : members.Pairwise (· < ·)) :
    toLex (i, j) ∈ pairsOf members ↔ i ∈ members ∧ j ∈ members ∧ i < j := by
  induction members with
  | nil => simp [pairsOf]
  | cons first later ih =>
      obtain ⟨least, ascending⟩ := List.pairwise_cons.mp ascending
      rw [pairsOf, List.mem_append, ih ascending, List.mem_map]
      constructor
      · rintro (⟨second, listed, same⟩ | ⟨left, right, before⟩)
        · obtain ⟨rfl, rfl⟩ := Prod.mk.inj (toLex.injective same)
          exact ⟨List.mem_cons_self, List.mem_cons_of_mem _ listed, least _ listed⟩
        · exact ⟨List.mem_cons_of_mem _ left, List.mem_cons_of_mem _ right, before⟩
      · rintro ⟨left, right, before⟩
        rcases List.mem_cons.mp left with rfl | inLater
        · rcases List.mem_cons.mp right with rfl | inLater'
          · exact absurd before (Nat.lt_irrefl _)
          · exact .inl ⟨j, inLater', rfl⟩
        · rcases List.mem_cons.mp right with rfl | inLater'
          · exact absurd before (Nat.lt_asymm (least i inLater))
          · exact .inr ⟨inLater, inLater', before⟩

/-- What is taken is what was there and what comes, each once. -/
theorem takePairs_spec (pairs : List (ℕ ×ₗ ℕ)) (state : Finset (ℕ ×ₗ ℕ) × List (ℕ ×ₗ ℕ))
    (seen : state.1 = state.2.toFinset) (distinct : state.2.Nodup) :
    (pairs.foldl takePair state).2.Nodup ∧
      ∀ pair, pair ∈ (pairs.foldl takePair state).2 ↔ pair ∈ state.2 ∨ pair ∈ pairs := by
  induction pairs generalizing state with
  | nil => exact ⟨distinct, fun pair => by simp⟩
  | cons first pairs ih =>
      rw [List.foldl_cons, takePair]
      split
      · next old =>
          rw [seen, List.mem_toFinset] at old
          obtain ⟨distinct', members⟩ := ih state seen distinct
          refine ⟨distinct', fun pair => (members pair).trans ?_⟩
          rw [List.mem_cons]
          constructor
          · exact Or.imp_right .inr
          · rintro (here | rfl | later)
            · exact .inl here
            · exact .inl old
            · exact .inr later
      · next fresh =>
          rw [seen, List.mem_toFinset] at fresh
          obtain ⟨distinct', members⟩ := ih (insert first state.1, state.2 ++ [first])
            (by rw [seen]; ext pair; simp)
            (List.nodup_append.mpr ⟨distinct, List.nodup_singleton _, by
              rintro pair listed other single rfl
              exact fresh (List.mem_singleton.mp single ▸ listed)⟩)
          refine ⟨distinct', fun pair => (members pair).trans ?_⟩
          simp [or_assoc]

/-- Two records have a key in common. -/
def SharesKey (tables : CharTables) (a b : EntityRecord) : Prop :=
  ∃ key, key ∈ blockingKeys tables a ∧ key ∈ blockingKeys tables b

/-- **The candidates are the pairs that have a key in common.** -/
theorem mem_candidates_iff :
    toLex (i, j) ∈ candidates tables corpus ↔ i < j ∧ ∃ a b, corpus[i]? = some a ∧
      corpus[j]? = some b ∧ SharesKey tables a b := by
  have taken := (takePairs_spec ((((byKey tables corpus).sortedEntries fun left right =>
    left ≤ right).map (·.2)).flatMap pairsOf) (∅, []) rfl List.nodup_nil).2 (toLex (i, j))
  rw [candidates, List.mem_insertionSort, taken, List.mem_flatMap]
  simp only [List.not_mem_nil, false_or, List.mem_map, Table.mem_sortedEntries]
  constructor
  · rintro ⟨_, ⟨⟨key, members⟩, found, rfl⟩, listed⟩
    have stands : (byKey tables corpus).history key = members := by
      rw [Table.history, found, Option.getD_some]
    rw [← stands, mem_pairsOf (pairwise_history_byKey corpus key)] at listed
    obtain ⟨left, right, before⟩ := listed
    obtain ⟨a, aHere, aHas⟩ := mem_history_byKey.mp left
    obtain ⟨b, bHere, bHas⟩ := mem_history_byKey.mp right
    exact ⟨before, a, b, aHere, bHere, key, aHas, bHas⟩
  · rintro ⟨before, a, b, aHere, bHere, key, aHas, bHas⟩
    have left := mem_history_byKey.mpr ⟨a, aHere, aHas⟩
    have right := mem_history_byKey.mpr ⟨b, bHere, bHas⟩
    have listed := (mem_pairsOf (pairwise_history_byKey corpus key)).mpr ⟨left, right, before⟩
    cases found : (byKey tables corpus).lookup key with
    | none =>
        rw [Table.history, found] at left
        exact absurd left List.not_mem_nil
    | some members =>
        rw [Table.history, found] at listed
        exact ⟨members, ⟨⟨key, members⟩, found, rfl⟩, listed⟩

/-- Each pair once, in ascending order. -/
theorem pairwise_candidates (corpus : List EntityRecord) :
    (candidates tables corpus).Pairwise (· < ·) := by
  have distinct := (takePairs_spec ((((byKey tables corpus).sortedEntries fun left right =>
    left ≤ right).map (·.2)).flatMap pairsOf) (∅, []) rfl List.nodup_nil).1
  have ascending := List.pairwise_insertionSort (· ≤ ·) ((((((byKey tables corpus).sortedEntries
    fun left right => left ≤ right).map (·.2)).flatMap pairsOf).foldl takePair (∅, [])).2)
  exact ascending.imp₂ (fun _ _ before other => lt_of_le_of_ne before other)
    ((List.perm_insertionSort _ _).nodup_iff.mpr distinct)

/-- The pair of two records is a candidate, in the order that they have. -/
def Paired (pairs : List (ℕ ×ₗ ℕ)) (i j : ℕ) : Prop :=
  toLex (i, j) ∈ pairs ∨ toLex (j, i) ∈ pairs

theorem paired_candidates_iff :
    Paired (candidates tables corpus) i j ↔ i ≠ j ∧ ∃ a b, corpus[i]? = some a ∧
      corpus[j]? = some b ∧ SharesKey tables a b := by
  rw [Paired, mem_candidates_iff, mem_candidates_iff]
  constructor
  · rintro (⟨before, shared⟩ | ⟨before, b, a, bHere, aHere, key, bHas, aHas⟩)
    · exact ⟨Nat.ne_of_lt before, shared⟩
    · exact ⟨(Nat.ne_of_lt before).symm, a, b, aHere, bHere, key, aHas, bHas⟩
  · rintro ⟨apart, a, b, aHere, bHere, key, aHas, bHas⟩
    rcases Nat.lt_or_gt_of_ne apart with before | after
    · exact .inl ⟨before, a, b, aHere, bHere, key, aHas, bHas⟩
    · exact .inr ⟨after, b, a, bHere, aHere, key, bHas, aHas⟩

/-- The records of a corpus in another order. -/
def permuted (corpus : List EntityRecord) (order : Equiv.Perm (Fin corpus.length)) :
    List EntityRecord := List.ofFn fun i => corpus.get (order i)

/-- The pairs do not depend on the order of the corpus. -/
theorem paired_permuted (corpus : List EntityRecord) (order : Equiv.Perm (Fin corpus.length))
    (i j : Fin corpus.length) :
    Paired (candidates tables (permuted corpus order)) i j ↔
      Paired (candidates tables corpus) (order i) (order j) := by
  have moved (k : Fin corpus.length) : (permuted corpus order)[k.val]? =
    corpus[(order k).val]? := by
    rw [permuted, List.getElem?_ofFn, dif_pos k.isLt, List.getElem?_eq_getElem (order k).isLt]
    rfl
  rw [paired_candidates_iff, paired_candidates_iff, moved, moved]
  refine and_congr_left fun _ => not_congr ?_
  rw [Fin.val_inj, Fin.val_inj, order.apply_eq_iff_eq]

/-! ## Keys -/

theorem mem_blockingKeys_of_word {record : EntityRecord} {word : Text}
    (listed : word ∈ tables.splitWhitespace (stripLegalSuffixes tables record.name)) :
    "t:".toList ++ word ∈ blockingKeys tables record := by
  rw [blockingKeys, List.mem_dedup, List.mem_insertionSort, List.mem_append, List.mem_append]
  exact .inl (.inr (List.mem_map_of_mem listed))

end Pairs

/-! ## Exact names -/

variable {vector : ComparisonVector}

variable {a b : EntityRecord}

section Exact

variable (tables : CharTables)

/-- What a comparison says of the names. -/
theorem band_of_compare (compared : compare tables a b = .ok vector) :
    band tables (stripLegalSuffixes tables a.name) (stripLegalSuffixes tables b.name)
      nameSimilarBand = .ok vector.nameJw := by
  rw [compare] at compared
  cases named : band tables (stripLegalSuffixes tables a.name) (stripLegalSuffixes tables b.name)
      nameSimilarBand with
  | error fault =>
      rw [named] at compared
      cases compared
  | ok outcome =>
      rw [named] at compared
      change (compareAttributes tables a b >>= _) = _ at compared
      cases filled : compareAttributes tables a b with
      | error fault =>
          rw [filled] at compared
          cases compared
      | ok attributes =>
          rw [filled] at compared
          exact congrArg Except.ok (congrArg ComparisonVector.nameJw (Except.ok.inj compared))

/-- Texts are exact just when they are the same without blanks at their ends, in lower case. -/
theorem eq_of_band {a b : Text} {similarBand : ℚ}
    (exact_ : band tables a b similarBand = .ok .exact) :
    tables.lowercase (tables.trim a) = tables.lowercase (tables.trim b) := by
  rw [band] at exact_
  by_contra other
  rw [if_neg other] at exact_
  split at exact_
  · cases exact_
  · obtain ⟨s, given⟩ := jaroWinkler_ok tables (tables.lowercase (tables.trim a))
      (tables.lowercase (tables.trim b))
    rw [given] at exact_
    change Except.ok (if _ then _ else _) = _ at exact_
    split at exact_ <;> cases exact_

end Exact

section Names

variable (unicode : Unicode)

/-- Two exact names of which something is left have a key in common. -/
theorem sharesKey_of_exact (compared : compare unicode.toCharTables a b = .ok vector)
    (exact_ : vector.nameJw = .exact)
    (named : unicode.trim (stripLegalSuffixes unicode.toCharTables a.name) ≠ []) :
    SharesKey unicode.toCharTables a b := by
  have lower (record : EntityRecord) :
      unicode.lowercase (unicode.trim (stripLegalSuffixes unicode.toCharTables record.name)) =
        unicode.trim (stripLegalSuffixes unicode.toCharTables record.name) :=
    CharTables.lowercase_of_settled fun ch listed =>
      Unicode.settled_stripLegalSuffixes (mem_of_mem_trimmed listed)
  have band_ := band_of_compare unicode.toCharTables compared
  rw [exact_] at band_
  have same := eq_of_band unicode.toCharTables band_
  rw [lower a, lower b] at same
  have words_ : unicode.splitWhitespace (stripLegalSuffixes unicode.toCharTables a.name) =
      unicode.splitWhitespace (stripLegalSuffixes unicode.toCharTables b.name) := by
    rw [CharTables.splitWhitespace, CharTables.splitWhitespace, ← words_trimmed]
    exact (congrArg _ same).trans (words_trimmed _)
  obtain ⟨word, listed⟩ : ∃ word, word ∈
      unicode.splitWhitespace (stripLegalSuffixes unicode.toCharTables a.name) :=
    List.exists_mem_of_ne_nil _ fun none_ => named (trimmed_eq_nil none_)
  exact ⟨_, mem_blockingKeys_of_word listed, mem_blockingKeys_of_word (words_ ▸ listed)⟩

/-- **The candidates of a corpus**: the pairs of records that have a key in common, each once and in
ascending order, the same in every order of the corpus, and among them all pairs whose names are
exact, unless nothing is left of them without legal suffixes and blanks. -/
theorem blocking_exact (corpus : List EntityRecord) :
    (candidates unicode.toCharTables corpus).Pairwise (· < ·) ∧
    (∀ i j : ℕ, toLex (i, j) ∈ candidates unicode.toCharTables corpus ↔
      i < j ∧ ∃ a b, corpus[i]? = some a ∧ corpus[j]? = some b ∧
        SharesKey unicode.toCharTables a b) ∧
    (∀ (order : Equiv.Perm (Fin corpus.length)) (i j : Fin corpus.length),
      Paired (candidates unicode.toCharTables (permuted corpus order)) i j ↔
        Paired (candidates unicode.toCharTables corpus) (order i) (order j)) ∧
    ∀ (i j : ℕ) (a b : EntityRecord) (vector : ComparisonVector), i < j →
      corpus[i]? = some a → corpus[j]? = some b →
      compare unicode.toCharTables a b = .ok vector → vector.nameJw = .exact →
      ¬ (unicode.trim (stripLegalSuffixes unicode.toCharTables a.name) = [] ∧
        unicode.trim (stripLegalSuffixes unicode.toCharTables b.name) = []) →
      toLex (i, j) ∈ candidates unicode.toCharTables corpus := by
  refine ⟨pairwise_candidates corpus, fun i j => mem_candidates_iff, paired_permuted corpus, ?_⟩
  intro i j a b vector before aHere bHere compared exact_ named
  refine mem_candidates_iff.mpr ⟨before, a, b, aHere, bHere, ?_⟩
  by_cases left : unicode.trim (stripLegalSuffixes unicode.toCharTables a.name) = []
  · have swapped := compared
    rw [compare_comm] at swapped
    obtain ⟨key, bHas, aHas⟩ :=
      sharesKey_of_exact unicode swapped exact_ fun right => named ⟨left, right⟩
    exact ⟨key, aHas, bHas⟩
  · exact sharesKey_of_exact unicode compared exact_ left

end Names

/-- A letter in lower case is not one in upper case. -/
theorem toLower_settled {ch : Char} (other : ch ≠ 'Σ') :
    ch.toLower ≠ 'Σ' ∧ ch.toLower.toLower = ch.toLower := by
  by_cases upper : ch.val ≥ 'A'.val ∧ ch.val ≤ 'Z'.val
  · have least : 65 ≤ ch.val.toNat := UInt32.le_iff_toNat_le.mp upper.1
    have most : ch.val.toNat ≤ 90 := UInt32.le_iff_toNat_le.mp upper.2
    have value : ch.toLower.val.toNat = ch.val.toNat + 32 := by
      rw [Char.toLower, dif_pos upper]
      change (ch.val + 32).toNat = _
      rw [UInt32.toNat_add]
      exact Nat.mod_eq_of_lt (by change _ + 32 < _; omega)
    constructor
    · intro same
      rw [same] at value
      change 931 = _ at value
      omega
    · rw [Char.toLower, dif_neg]
      rintro ⟨-, small⟩
      have small' : ch.toLower.val.toNat ≤ 90 := UInt32.le_iff_toNat_le.mp small
      omega
  · have same : ch.toLower = ch := by rw [Char.toLower, dif_neg upper]
    rw [same, same]
    exact ⟨other, rfl⟩

/-- The tables for texts in ASCII. -/
def asciiUnicode : Unicode where
  toLowercase ch := if ch = 'Σ' then ['σ'] else [ch.toLower]
  isWhitespace := Char.isWhitespace
  isAlphanumeric := Char.isAlphanum
  isCased := Char.isAlpha
  isCaseIgnorable ch := ch = '.'
  toLowercase_settled := by
    intro ch lower listed
    split at listed
    · obtain rfl := List.mem_singleton.mp listed
      decide
    · next other =>
        obtain rfl := List.mem_singleton.mp listed
        obtain ⟨different, same⟩ := toLower_settled other
        rw [if_neg different, same]
  toLowercase_sigma := rfl
  toLowercase_final_sigma := by decide
  toLowercase_space := by decide

/-- Nothing is left of the names `Inc` and `LLC`: they are exact and no candidates. -/
def suffixOnly (name : String) : EntityRecord := ⟨name.toList, name.toList, ∅⟩

theorem not_candidates_of_exact :
    (∃ vector, compare asciiUnicode.toCharTables (suffixOnly "Inc") (suffixOnly "LLC") =
      .ok vector ∧
      vector.nameJw = .exact) ∧
    candidates asciiUnicode.toCharTables [suffixOnly "Inc", suffixOnly "LLC"] = [] := by
  refine ⟨?_, by decide⟩
  obtain ⟨vector, compared⟩ :=
    compare_ok asciiUnicode.toCharTables (suffixOnly "Inc") (suffixOnly "LLC")
  have named := band_of_compare asciiUnicode.toCharTables compared
  have blank : band asciiUnicode.toCharTables
      (stripLegalSuffixes asciiUnicode.toCharTables (suffixOnly "Inc").name)
      (stripLegalSuffixes asciiUnicode.toCharTables (suffixOnly "LLC").name) nameSimilarBand =
        .ok .exact := by decide
  exact ⟨vector, compared, Except.ok.inj (named.symm.trans blank)⟩

end Exocortex.Resolution
