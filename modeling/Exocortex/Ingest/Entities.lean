import Exocortex.Ingest.DerivedIds
import Exocortex.Library.Enumerations
import Exocortex.Library.Regex

/-!
# Entity extraction

`extract` searches the content and the tags of a memory for the patterns of twelve entity types.
What a pattern's first group has taken is the raw name, or all that it matched when there is no such
group; its type makes the canonical name of it. Each pair of a type and a name is an entity once.

The crate that finds the matches is a parameter: all that it reports are matches, and it reports one
when there is any. The pattern of files has its extension as its group, and the pattern of calls
matches white space between the parentheses, which the canonical name keeps. So entities are what
the text mentions exactly where it has no files and no such calls (`exactEntities_iff`); then a
search for a function finds what mentions it (`findByEntity_mentions`).
-/

namespace Exocortex

open Library Library.Regex

/-! ## Patterns -/

/-- The crate that finds the matches of regular expressions. -/
structure RegexCrate where
  isWord : Char → Bool
  isMatch : Regex → List Char → Bool
  capturesIter : Regex → List Char → List Capture
  found : ∀ r text, isMatch r text = true ↔ capturesIter r text ≠ []
  sound : ∀ r text, ∀ capture ∈ capturesIter r text, Captured isWord r text capture

def isLower (c : Char) : Bool := 'a' ≤ c && c ≤ 'z'
def isUpper (c : Char) : Bool := 'A' ≤ c && c ≤ 'Z'
def isDigit (c : Char) : Bool := '0' ≤ c && c ≤ '9'

/-- The characters of `[a-z0-9_]`. -/
def isSnake (c : Char) : Bool := isLower c || isDigit c || c = '_'

def words (texts : List String) : Regex := oneOf (texts.map fun text => lit text.toList)

def filePattern (crate : RegexCrate) : Regex :=
  seqs [boundary, plus (set fun c => crate.isWord c || c = '-' || c = '/' || c = '.'),
    lit ['.'], group 1 (words ["rs", "toml", "py", "ts", "js", "go", "java", "c", "cpp", "h",
      "md"]), boundary]

/-- A call without arguments. -/
def callPattern : Regex :=
  seqs [boundary, set fun c => isLower c || c = '_', Regex.star (set isSnake), lit ['('],
    Regex.star (set isWhiteSpace), lit [')']]

/-- A definition. -/
def fnPattern : Regex :=
  seqs [boundary, lit "fn".toList, plus (set isWhiteSpace),
    group 1 (seqs [set fun c => isLower c || c = '_', Regex.star (set isSnake)])]

/-- The patterns of the entity types, in the order of their declaration. -/
def patternTable (crate : RegexCrate) : List (String × List Regex) := [
  ("File", [filePattern crate]),
  ("Function", [callPattern, fnPattern]),
  ("Class", [seqs [boundary, words ["struct", "enum", "trait", "class"], plus (set isWhiteSpace),
    group 1 (seqs [set isUpper,
      Regex.star (set fun c => isUpper c || isLower c || isDigit c || c = '_')])]]),
  ("Error", [
    seqs [boundary, set isUpper, Regex.star (set fun c => isUpper c || isLower c || isDigit c),
      lit "Error".toList, boundary],
    seqs [boundary, lit "panic!".toList, Regex.star (set fun c => c ≠ ']'), lit [']']]]),
  ("Technology", [seqs [boundary, group 1 (words ["rust", "tokio", "axum", "serde", "falkordb",
    "redis", "postgres", "sqlite", "python", "typescript", "kubernetes", "docker"]), boundary]]),
  ("Concept", [seqs [boundary, set isUpper, plus (set isLower),
    plus (seqs [set fun c => c = ' ' || c = '-', set isUpper, plus (set isLower)]), boundary]]),
  ("Person", [seqs [lit ['@'], set isLower, atLeast 2 (set isSnake)]]),
  ("Project", [seqs [boundary, plus (set fun c => isLower c || isDigit c), lit ['-'],
    plus (set fun c => isLower c || isDigit c),
    Regex.star (seqs [lit ['-'], plus (set fun c => isLower c || isDigit c)]),
    lit "-service".toList,
    boundary]]),
  ("Command", [seqs [boundary, words ["cargo", "npm", "pnpm", "git", "docker", "kubectl", "make",
    "brew"], plus (set isWhiteSpace), plus (set fun c => isLower c || c = '-')]]),
  ("Package", [seqs [boundary, plus (set fun c => isSnake c || c = '-'), lit ['@'],
    plus (set isDigit), lit ['.'], plus (set isDigit), opt (seqs [lit ['.'], plus (set isDigit)]),
    boundary]]),
  ("Url", [seqs [lit "http".toList, opt (lit ['s']), lit "://".toList,
    plus (set fun c => !isWhiteSpace c)]]),
  ("Variable", [seqs [boundary, set fun c => isUpper c || c = '_',
    atLeast 3 (set fun c => isUpper c || isDigit c || c = '_'), boundary]])]

/-! ## Extraction -/

/-- The text without a suffix, as often as it ends in it. -/
def trimEndMatches (suffix text : List Char) : List Char :=
  (fun text => if suffix.isSuffixOf text then text.take (text.length - suffix.length) else text)^[
    text.length] text

/-- The name that stands for a raw match. -/
def canonicalize (lowercase : String → String) (typeName raw : String) : String :=
  if typeName = "Function" then String.ofList (trimEndMatches ['(', ')'] raw.toList)
  else if typeName = "Technology" ∨ typeName = "Concept" ∨ typeName = "Project" then lowercase raw
  else if typeName = "Url" then
    String.ofList (raw.toList.reverse.dropWhile fun c => c = '.' || c = ',').reverse
  else raw

/-- What a match names: what its first group has taken, or all of it. -/
def rawHit (capture : Capture) : String :=
  trimText (String.ofList ((capture.get 1).getD capture.whole))

structure ExtractedEntity where
  entityType : UInt8
  name : String
  confidence : F32

/-- An entity as it is told from others. -/
abbrev ExtractedEntity.key (entity : ExtractedEntity) : UInt8 × String :=
  (entity.entityType, entity.name)

section Extract

variable (crate : RegexCrate) (lowercase : String → String)

/-- The content and the tags as one text. -/
def searchText (content : String) (tags : List String) : List Char :=
  content.toList ++ ' ' :: (" ".intercalate tags).toList

/-- What the patterns of a type match. -/
def typeHits (patterns : List Regex) (text : List Char) : List String :=
  (patterns.filter (crate.isMatch · text)).flatMap fun pattern =>
    (crate.capturesIter pattern text).map rawHit

/-- One match, unless its entity is there. -/
def pushHit (entityType : UInt8) (typeName : String) (ambiguous : Bool)
    (found : List ExtractedEntity × Finset (UInt8 × String)) (hit : String) :
    List ExtractedEntity × Finset (UInt8 × String) :=
  let canonical := canonicalize lowercase typeName hit
  if (entityType, canonical) ∈ found.2 then found
  else
    let confidence : F32 := if ambiguous then ⟨0x3f19999a#32⟩ else ⟨0x3f733333#32⟩
    (found.1 ++ [⟨entityType, canonical, confidence⟩], insert (entityType, canonical) found.2)

/-- One entity type. -/
def extractType (text : List Char) (found : List ExtractedEntity × Finset (UInt8 × String))
    (entry : (String × List Regex) × ℕ) : List ExtractedEntity × Finset (UInt8 × String) :=
  let hits := typeHits crate entry.1.2 text
  hits.foldl (pushHit lowercase (UInt8.ofNat entry.2) entry.1.1 (1 < hits.length)) found

/-- Entities in the order of their types and names. -/
def entityLe (left right : ExtractedEntity) : Bool :=
  if left.entityType = right.entityType then !decide (right.name < left.name)
  else left.entityType ≤ right.entityType

def extract (content : String) (tags : List String) : List ExtractedEntity :=
  let text := searchText content tags
  let found := (patternTable crate).zipIdx.foldl (extractType crate lowercase text) ([], ∅)
  (found.1.insertionSort (entityLe · ·)).destutter fun left right => left.key ≠ right.key

end Extract

/-! ## What is extracted -/

/-- The entities found so far are told apart by the set of them. -/
structure Tracked (found : List ExtractedEntity × Finset (UInt8 × String)) : Prop where
  seen : found.2 = (found.1.map (·.key)).toFinset
  once : (found.1.map (·.key)).Nodup

section Pushes

variable {lowercase : String → String} {found : List ExtractedEntity × Finset (UInt8 × String)}
  {entityType : UInt8} {typeName : String} {ambiguous : Bool}

theorem pushHit_tracked (tracked : Tracked found) (hit : String) :
    Tracked (pushHit lowercase entityType typeName ambiguous found hit) ∧
      ∀ key, key ∈ (pushHit lowercase entityType typeName ambiguous found hit).1.map (·.key) ↔
        key = (entityType, canonicalize lowercase typeName hit) ∨
          key ∈ found.1.map (·.key) := by
  rw [pushHit]
  split
  · next known =>
      rw [tracked.seen, List.mem_toFinset] at known
      refine ⟨tracked, fun key => ⟨.inr, ?_⟩⟩
      rintro (rfl | old)
      · exact known
      · exact old
  · next fresh =>
      rw [tracked.seen, List.mem_toFinset] at fresh
      refine ⟨⟨?_, ?_⟩, fun key => ?_⟩
      · rw [List.map_append, List.toFinset_append, tracked.seen, Finset.insert_eq,
          Finset.union_comm]
        rfl
      · rw [List.map_append]
        refine List.nodup_append.mpr ⟨tracked.once, List.nodup_singleton _, ?_⟩
        intro old listed new here same
        rw [same, List.mem_singleton.mp here] at listed
        exact fresh listed
      · rw [List.map_append, List.mem_append, or_comm]
        exact or_congr List.mem_singleton Iff.rfl

theorem foldl_pushHit_tracked (tracked : Tracked found) (hits : List String) :
    Tracked (hits.foldl (pushHit lowercase entityType typeName ambiguous) found) ∧
      ∀ key, key ∈ (hits.foldl (pushHit lowercase entityType typeName ambiguous) found).1.map
          (·.key) ↔
        (∃ hit ∈ hits, key = (entityType, canonicalize lowercase typeName hit)) ∨
          key ∈ found.1.map (·.key) := by
  induction hits generalizing found with
  | nil => exact ⟨tracked, fun key => ⟨.inr, fun held => held.resolve_left fun none_ => by
      obtain ⟨hit, listed, -⟩ := none_
      cases listed⟩⟩
  | cons hit hits ih =>
      obtain ⟨next, added⟩ := @pushHit_tracked lowercase found entityType typeName ambiguous
        tracked hit
      obtain ⟨last, more⟩ := ih next
      refine ⟨last, fun key => (more key).trans ?_⟩
      rw [added key, List.exists_mem_cons_iff, or_left_comm, ← or_assoc]

end Pushes

variable {text : List Char}

section Extracted

variable {crate : RegexCrate} {lowercase : String → String} {content : String} {tags : List String}

theorem foldl_extractType_tracked (text : List Char) (entries : List ((String × List Regex) × ℕ))
    {found : List ExtractedEntity × Finset (UInt8 × String)} (tracked : Tracked found) :
    Tracked (entries.foldl (extractType crate lowercase text) found) ∧
      ∀ key, key ∈ (entries.foldl (extractType crate lowercase text) found).1.map (·.key) ↔
        (∃ entry ∈ entries, ∃ hit ∈ typeHits crate entry.1.2 text,
          key = (UInt8.ofNat entry.2, canonicalize lowercase entry.1.1 hit)) ∨
        key ∈ found.1.map (·.key) := by
  induction entries generalizing found with
  | nil => exact ⟨tracked, fun key => ⟨.inr, fun held => held.resolve_left fun none_ => by
      obtain ⟨hit, listed, -⟩ := none_
      cases listed⟩⟩
  | cons entry entries ih =>
      obtain ⟨next, added⟩ := @foldl_pushHit_tracked lowercase found (UInt8.ofNat entry.2) entry.1.1
        (1 < (typeHits crate entry.1.2 text).length) tracked (typeHits crate entry.1.2 text)
      obtain ⟨last, more⟩ := ih next
      refine ⟨last, fun key => (more key).trans ?_⟩
      rw [List.exists_mem_cons_iff]
      exact (or_congr Iff.rfl (added key)).trans (by rw [or_left_comm, ← or_assoc])

/-- **What is extracted** are the canonical names of what the patterns match. -/
theorem mem_extract_iff (key : UInt8 × String) :
    key ∈ (extract crate lowercase content tags).map (·.key) ↔
      ∃ entry ∈ (patternTable crate).zipIdx,
        ∃ hit ∈ typeHits crate entry.1.2 (searchText content tags),
          key = (UInt8.ofNat entry.2, canonicalize lowercase entry.1.1 hit) := by
  have start : Tracked (([], ∅) : List ExtractedEntity × Finset (UInt8 × String)) :=
    ⟨rfl, List.nodup_nil⟩
  obtain ⟨tracked, found⟩ := @foldl_extractType_tracked crate lowercase (searchText content tags)
    (patternTable crate).zipIdx _ start
  let all := ((patternTable crate).zipIdx.foldl
    (extractType crate lowercase (searchText content tags)) ([], ∅)).1
  have sorted : (all.insertionSort (entityLe · ·)).Perm all := List.perm_insertionSort _ _
  have once : ((all.insertionSort (entityLe · ·)).map (·.key)).Nodup :=
    (sorted.map _).nodup_iff.mpr tracked.once
  have apart : (all.insertionSort (entityLe · ·)).IsChain fun left right =>
      left.key ≠ right.key := (List.pairwise_map.mp once).isChain
  have whole : extract crate lowercase content tags = all.insertionSort (entityLe · ·) :=
    List.destutter_of_isChain _ _ apart
  rw [whole, (sorted.map _).mem_iff, found key]
  exact or_iff_left List.not_mem_nil

variable {patterns : List Regex}

theorem mem_typeHits_iff {hit : String} :
    hit ∈ typeHits crate patterns text ↔
      ∃ pattern ∈ patterns, ∃ capture ∈ crate.capturesIter pattern text, rawHit capture = hit := by
  rw [typeHits, List.mem_flatMap]
  constructor
  · rintro ⟨pattern, listed, found⟩
    exact ⟨pattern, (List.mem_filter.mp listed).1, List.mem_map.mp found⟩
  · rintro ⟨pattern, listed, capture, there, same⟩
    refine ⟨pattern, List.mem_filter.mpr ⟨listed, ?_⟩, List.mem_map.mpr ⟨capture, there, same⟩⟩
    exact (crate.found pattern text).mpr (List.ne_nil_of_mem there)

/-- What is extracted of one type. -/
theorem mem_extract_type_iff {index : ℕ} (small : index < 12) {typeName : String}
    (entry : (patternTable crate)[index]? = some (typeName, patterns)) (name : String) :
    (UInt8.ofNat index, name) ∈ (extract crate lowercase content tags).map (·.key) ↔
      ∃ pattern ∈ patterns, ∃ capture ∈ crate.capturesIter pattern (searchText content tags),
        canonicalize lowercase typeName (rawHit capture) = name := by
  rw [mem_extract_iff]
  constructor
  · rintro ⟨⟨⟨typeName', patterns'⟩, index'⟩, listed, hit, hits, same⟩
    have there := List.mem_zipIdx_iff_getElem?.mp listed
    have below : index' < 12 := (List.getElem?_eq_some_iff.mp there).1
    have equal : index = index' := by
      have bytes := congrArg UInt8.toNat (congrArg Prod.fst same)
      rw [UInt8.toNat_ofNat', UInt8.toNat_ofNat'] at bytes
      omega
    subst equal
    cases entry.symm.trans there
    obtain ⟨pattern, known, capture, found, rfl⟩ := mem_typeHits_iff.mp hits
    exact ⟨pattern, known, capture, found, (congrArg Prod.snd same).symm⟩
  · rintro ⟨pattern, known, capture, found, rfl⟩
    exact ⟨((typeName, patterns), index), List.mem_zipIdx_iff_getElem?.mpr entry, rawHit capture,
      mem_typeHits_iff.mpr ⟨pattern, known, capture, found, rfl⟩, rfl⟩

end Extracted

/-! ## Texts that are trimmed -/

variable {suffix : List Char}

theorem trimEndMatches_of_not (other : ¬ suffix <:+ text) : trimEndMatches suffix text = text := by
  refine Function.iterate_fixed ?_ _
  rw [if_neg (by rwa [List.isSuffixOf_iff_suffix])]

theorem trimEndMatches_append (some_ : suffix ≠ []) (other : ¬ suffix <:+ text) :
    trimEndMatches suffix (text ++ suffix) = text := by
  obtain ⟨count, length⟩ : ∃ count, (text ++ suffix).length = count + 1 := by
    have positive := List.length_pos_iff.mpr some_
    exact ⟨text.length + suffix.length - 1, by rw [List.length_append]; omega⟩
  rw [trimEndMatches, length, Function.iterate_succ_apply,
    if_pos (List.isSuffixOf_iff_suffix.mpr (List.suffix_append _ _)), List.length_append,
    Nat.add_sub_cancel, List.take_left]
  refine Function.iterate_fixed ?_ _
  rw [if_neg (by rwa [List.isSuffixOf_iff_suffix])]

theorem trimText_eq (first : ∀ c ∈ text.head?, isWhiteSpace c = false)
    (last : ∀ c ∈ text.getLast?, isWhiteSpace c = false) :
    trimText (String.ofList text) = String.ofList text := by
  have kept : ∀ part : List Char, (∀ c ∈ part.head?, isWhiteSpace c = false) →
      part.dropWhile isWhiteSpace = part := by
    intro part plain
    cases part with
    | nil => rfl
    | cons c part => rw [List.dropWhile_cons_of_neg (by rw [plain c rfl]; exact Bool.false_ne_true)]
  rw [trimText, String.toList_ofList, kept text first, kept text.reverse, List.reverse_reverse]
  rw [List.head?_reverse]
  exact last

theorem isSnake_not_white {c : Char} (snake : isSnake c = true) : isWhiteSpace c = false := by
  have range : (97 ≤ c.toNat ∧ c.toNat ≤ 122) ∨ (48 ≤ c.toNat ∧ c.toNat ≤ 57) ∨ c.toNat = 95 := by
    simp only [isSnake, isLower, isDigit, Bool.or_eq_true, Bool.and_eq_true,
      decide_eq_true_eq] at snake
    rcases snake with (⟨low, high⟩ | ⟨low, high⟩) | rfl
    · exact .inl ⟨low, high⟩
    · exact .inr (.inl ⟨low, high⟩)
    · exact .inr (.inr rfl)
  simp only [isWhiteSpace, List.contains_eq_mem, List.mem_cons, List.not_mem_nil, or_false,
    Bool.or_eq_false_iff, Bool.and_eq_false_iff, decide_eq_false_iff_not, not_le, not_or]
  omega

theorem trimText_snake (snake : ∀ c ∈ text, isSnake c = true) :
    trimText (String.ofList text) = String.ofList text :=
  trimText_eq (fun c first => isSnake_not_white (snake c (List.mem_of_mem_head? first)))
    fun c last => isSnake_not_white (snake c (List.mem_of_mem_getLast? last))

/-! ## What the patterns match -/

section Shapes

variable {isWord : Char → Bool} {before taken behind : List Char} {groups : Groups}

theorem matches_seqs_nil (found : Matches isWord (seqs []) before taken behind groups) :
    taken = [] ∧ groups = [] := found.empty_inv

/-- The name in a definition and in a call. -/
theorem matches_name {rest : List Regex}
    (found : Matches isWord (seqs
      (set (fun c => isLower c || c = '_') :: Regex.star (set isSnake) ::
      rest)) before taken behind groups) :
    ∃ name more earlier, taken = name ++ more ∧ name ≠ [] ∧ (∀ c ∈ name, isSnake c = true) ∧
      Matches isWord (seqs rest) earlier more behind groups := by
  obtain ⟨first, second, early, late, rfl, rfl, here, next⟩ := matches_seq_iff.mp found
  obtain ⟨c, start, rfl, rfl⟩ := here.set_inv
  obtain ⟨others, more, early, late, rfl, rfl, here, last⟩ := matches_seq_iff.mp next
  obtain ⟨all, rfl⟩ := here.star_set_inv
  refine ⟨c :: others, more, before ++ [c] ++ others, rfl, List.cons_ne_nil _ _, ?_, ?_⟩
  · refine List.forall_mem_cons.mpr ⟨?_, all⟩
    rw [Bool.or_eq_true] at start
    rw [isSnake, Bool.or_eq_true, Bool.or_eq_true]
    exact start.imp_left .inl
  · rw [List.append_nil, List.append_nil]
    exact last

theorem matches_call (found : Matches isWord callPattern before taken behind groups) :
    ∃ name spaces, taken = name ++ '(' :: (spaces ++ [')']) ∧ name ≠ [] ∧
      (∀ c ∈ name, isSnake c = true) ∧ (∀ c ∈ spaces, isWhiteSpace c = true) ∧ groups = [] := by
  obtain ⟨start, _, _, _, rfl, rfl, edge, named⟩ := matches_seq_iff.mp found
  obtain ⟨rfl, rfl⟩ := edge.boundary_inv
  obtain ⟨name, _, _, rfl, some_, snake, opened⟩ := matches_name named
  obtain ⟨_, _, _, _, rfl, rfl, paren, spaced⟩ := matches_seq_iff.mp opened
  obtain ⟨rfl, rfl⟩ := paren.lit_inv
  obtain ⟨spaces, _, _, _, rfl, rfl, blank, closed⟩ := matches_seq_iff.mp spaced
  obtain ⟨white, rfl⟩ := blank.star_set_inv
  obtain ⟨_, _, _, _, rfl, rfl, close, ends⟩ := matches_seq_iff.mp closed
  obtain ⟨rfl, rfl⟩ := close.lit_inv
  obtain ⟨rfl, rfl⟩ := ends.empty_inv
  exact ⟨name, spaces, rfl, some_, snake, white, rfl⟩

/-- A repetition of one character at least once has no groups. -/
theorem matches_plus_set {holds : Char → Bool}
    (found : Matches isWord (plus (set holds)) before taken behind groups) : groups = [] := by
  obtain ⟨_, _, _, _, rfl, rfl, first, others⟩ := matches_seq_iff.mp found
  obtain ⟨-, -, -, rfl⟩ := first.set_inv
  rw [List.append_nil]
  exact others.star_set_inv.2

theorem matches_fn (found : Matches isWord fnPattern before taken behind groups) :
    ∃ name, groups = [(1, name)] ∧ ∀ c ∈ name, isSnake c = true := by
  obtain ⟨_, _, _, _, rfl, rfl, edge, worded⟩ := matches_seq_iff.mp found
  obtain ⟨rfl, rfl⟩ := edge.boundary_inv
  obtain ⟨_, _, _, _, rfl, rfl, keyword, spaced⟩ := matches_seq_iff.mp worded
  obtain ⟨rfl, rfl⟩ := keyword.lit_inv
  obtain ⟨_, _, _, _, rfl, rfl, blank, named⟩ := matches_seq_iff.mp spaced
  obtain rfl := matches_plus_set blank
  obtain ⟨_, _, _, _, rfl, rfl, grouped, ends⟩ := matches_seq_iff.mp named
  obtain ⟨inner, rfl, inside⟩ := grouped.group_inv
  obtain ⟨rfl, rfl⟩ := ends.empty_inv
  obtain ⟨name, _, _, rfl, -, snake, closed⟩ := matches_name inside
  obtain ⟨rfl, rfl⟩ := matches_seqs_nil closed
  refine ⟨name, ?_, snake⟩
  simp only [List.append_nil, List.nil_append]

/-- The extensions of files. -/
def fileExtensions : List (List Char) :=
  ["rs", "toml", "py", "ts", "js", "go", "java", "c", "cpp", "h", "md"].map String.toList

theorem matches_file {crate : RegexCrate}
    (found : Matches isWord (filePattern crate) before taken behind groups) :
    ∃ stem extension, taken = stem ++ '.' :: extension ∧ groups = [(1, extension)] ∧
      extension ∈ fileExtensions := by
  obtain ⟨_, _, _, _, rfl, rfl, edge, stemmed⟩ := matches_seq_iff.mp found
  obtain ⟨rfl, rfl⟩ := edge.boundary_inv
  obtain ⟨stem, _, _, _, rfl, rfl, path, dotted⟩ := matches_seq_iff.mp stemmed
  obtain rfl := matches_plus_set path
  obtain ⟨_, _, _, _, rfl, rfl, dot, grouped⟩ := matches_seq_iff.mp dotted
  obtain ⟨rfl, rfl⟩ := dot.lit_inv
  obtain ⟨extension, _, _, _, rfl, rfl, group, edged⟩ := matches_seq_iff.mp grouped
  obtain ⟨inner, rfl, inside⟩ := group.group_inv
  obtain ⟨_, _, _, _, rfl, rfl, last, ends⟩ := matches_seq_iff.mp edged
  obtain ⟨rfl, rfl⟩ := last.boundary_inv
  obtain ⟨rfl, rfl⟩ := ends.empty_inv
  obtain ⟨choice, listed, chosen⟩ := inside.oneOf_inv
  obtain ⟨text, known, rfl⟩ := List.mem_map.mp listed
  obtain ⟨rfl, rfl⟩ := chosen.lit_inv
  refine ⟨stem, text.toList, ?_, rfl, List.mem_map_of_mem known⟩
  rw [List.append_nil, List.append_nil]
  rfl

end Shapes

/-! ## Entities and mentions -/

/-- The name of the function that a call is of. -/
def callName (capture : Capture) : List Char := capture.whole.takeWhile (· ≠ '(')

section MentionsEntity

variable (crate : RegexCrate) (lowercase : String → String) (content : String) (tags : List String)

/-- A text mentions a function, as a call or as its definition, with what is extracted from it. -/
def FunctionMention (name hit : String) : Prop :=
  (∃ capture ∈ crate.capturesIter callPattern (searchText content tags),
    String.ofList (callName capture) = name ∧ rawHit capture = hit) ∨
  ∃ capture ∈ crate.capturesIter fnPattern (searchText content tags),
    (capture.get 1).map String.ofList = some name ∧ rawHit capture = hit

/-- **The entities of a text are what it mentions**: each file under its path, so that different
paths are different files, and each function under its name, in whatever form. -/
structure ExactEntities : Prop where
  files : ∀ path, (0, path) ∈ (extract crate lowercase content tags).map (·.key) ↔
    ∃ capture ∈ crate.capturesIter (filePattern crate) (searchText content tags),
      String.ofList capture.whole = path
  filesApart : ∀ capture ∈ crate.capturesIter (filePattern crate) (searchText content tags),
    ∀ other ∈ crate.capturesIter (filePattern crate) (searchText content tags),
      capture.whole ≠ other.whole → canonicalize lowercase "File" (rawHit capture) ≠
        canonicalize lowercase "File" (rawHit other)
  functions : ∀ name, (1, name) ∈ (extract crate lowercase content tags).map (·.key) ↔
    ∃ hit, FunctionMention crate content tags name hit
  functionsSame : ∀ name hit other, FunctionMention crate content tags name hit →
    FunctionMention crate content tags name other →
      canonicalize lowercase "Function" hit = canonicalize lowercase "Function" other

variable {crate lowercase content tags}

theorem mem_extract_file_iff (name : String) :
    (0, name) ∈ (extract crate lowercase content tags).map (·.key) ↔
      ∃ capture ∈ crate.capturesIter (filePattern crate) (searchText content tags),
        rawHit capture = name := by
  refine (mem_extract_type_iff (show 0 < 12 by decide) rfl name).trans ?_
  constructor
  · rintro ⟨pattern, known, capture, found, same⟩
    rw [List.mem_singleton.mp known] at found
    exact ⟨capture, found, same⟩
  · rintro ⟨capture, found, same⟩
    exact ⟨_, List.mem_singleton_self _, capture, found, same⟩

theorem mem_extract_function_iff (name : String) :
    (1, name) ∈ (extract crate lowercase content tags).map (·.key) ↔
      ∃ pattern ∈ [callPattern, fnPattern],
        ∃ capture ∈ crate.capturesIter pattern (searchText content tags),
          canonicalize lowercase "Function" (rawHit capture) = name :=
  mem_extract_type_iff (show 1 < 12 by decide) rfl name

variable {capture : Capture}

/-- A call, its name, and what is extracted. -/
theorem call_shape (found : capture ∈ crate.capturesIter callPattern (searchText content tags)) :
    ∃ spaces, capture.whole = callName capture ++ '(' :: (spaces ++ [')']) ∧
      (∀ c ∈ callName capture, isSnake c = true) ∧ (∀ c ∈ spaces, isWhiteSpace c = true) ∧
      rawHit capture = String.ofList capture.whole := by
  obtain ⟨before, behind, -, matched⟩ := crate.sound _ _ capture found
  obtain ⟨name, spaces, whole, some_, snake, white, none_⟩ := matches_call matched
  have called : callName capture = name := by
    rw [callName, whole, List.takeWhile_append_of_pos]
    · rw [List.takeWhile_cons_of_neg (by decide), List.append_nil]
    · intro c listed
      refine decide_eq_true fun same => ?_
      have here := snake c listed
      rw [same] at here
      exact absurd here (by decide)
  refine ⟨spaces, by rw [called, whole], by rw [called]; exact snake, white, ?_⟩
  rw [rawHit, Capture.get, none_, List.lookup_nil, Option.getD_none]
  refine trimText_eq ?_ ?_
  · intro c first
    rw [whole, List.head?_append_of_ne_nil _ some_] at first
    exact isSnake_not_white (snake c (List.mem_of_mem_head? first))
  · intro c last
    rw [whole, ← List.cons_append, ← List.append_assoc, List.getLast?_concat] at last
    cases last
    decide

/-- A definition and what is extracted. -/
theorem fn_shape (found : capture ∈ crate.capturesIter fnPattern (searchText content tags)) :
    ∃ name, capture.get 1 = some name ∧ (∀ c ∈ name, isSnake c = true) ∧
      rawHit capture = String.ofList name := by
  obtain ⟨before, behind, -, matched⟩ := crate.sound _ _ capture found
  obtain ⟨name, groups, snake⟩ := matches_fn matched
  have taken : capture.get 1 = some name := by
    rw [Capture.get, groups]
    rfl
  refine ⟨name, taken, snake, ?_⟩
  rw [rawHit, taken]
  exact trimText_snake snake

theorem file_shape
    (found : capture ∈ crate.capturesIter (filePattern crate) (searchText content tags)) :
    '.' ∈ capture.whole ∧ ∃ extension, '.' ∉ extension ∧
      rawHit capture = String.ofList extension := by
  obtain ⟨before, behind, -, matched⟩ := crate.sound _ _ capture found
  obtain ⟨stem, extension, whole, groups, known⟩ := matches_file matched
  have each : (fileExtensions.all fun extension => extension.all isSnake) = true := by decide
  have snake : ∀ extension ∈ fileExtensions, (∀ c ∈ extension, isSnake c = true) ∧
      '.' ∉ extension := by
    intro extension known
    have all := List.all_eq_true.mp (List.all_eq_true.mp each extension known)
    exact ⟨all, fun dot => absurd (all '.' dot) (by decide)⟩
  refine ⟨?_, extension, (snake extension known).2, ?_⟩
  · rw [whole]
    exact List.mem_append_right _ List.mem_cons_self
  · rw [rawHit, Capture.get, groups]
    exact trimText_snake (snake extension known).1

/-- **What is extracted is what is mentioned** exactly where no file is mentioned, and no call with
white space between its parentheses. -/
theorem exactEntities_iff : ExactEntities crate lowercase content tags ↔
    crate.capturesIter (filePattern crate) (searchText content tags) = [] ∧
    ∀ capture ∈ crate.capturesIter callPattern (searchText content tags),
      capture.whole = callName capture ++ ['(', ')'] := by
  constructor
  · intro exact_
    refine ⟨List.eq_nil_iff_forall_not_mem.mpr fun capture found => ?_, fun capture found => ?_⟩
    · -- the path of a file would be an extension
      obtain ⟨other, there, same⟩ := (mem_extract_file_iff _).mp
        ((exact_.files _).mpr ⟨capture, found, rfl⟩)
      obtain ⟨-, extension, undotted, named⟩ := file_shape there
      rw [named] at same
      rw [String.ofList_injective same] at undotted
      exact undotted (file_shape found).1
    · -- with white space inside, the call itself would be a name
      obtain ⟨spaces, whole, snake, white, hit⟩ := call_shape found
      by_contra spaced
      have open_ : ¬ ['(', ')'] <:+ capture.whole := by
        rintro ⟨start, ends⟩
        rcases List.eq_nil_or_concat spaces with none_ | ⟨others, c, some_⟩
        · rw [none_] at whole
          exact spaced whole
        · have second := congrArg (fun text : List Char => text.reverse[1]?) ends
          rw [whole, some_] at second
          simp only [List.reverse_append, List.reverse_cons, List.concat_eq_append,
            List.reverse_nil, List.nil_append, List.cons_append, List.append_assoc,
            List.getElem?_cons_succ, List.getElem?_cons_zero, Option.some.injEq] at second
          have blank := white c (by rw [some_, List.concat_eq_append]; exact List.mem_concat_self)
          rw [← second] at blank
          exact absurd blank (by decide)
      have kept : canonicalize lowercase "Function" (rawHit capture) =
          String.ofList capture.whole := by
        rw [hit, canonicalize, if_pos rfl, String.toList_ofList, trimEndMatches_of_not open_]
      obtain ⟨other, mention⟩ := (exact_.functions _).mp ((mem_extract_function_iff _).mpr
        ⟨callPattern, List.mem_cons_self, capture, found, kept⟩)
      have paren : '(' ∈ capture.whole := by
        rw [whole]
        exact List.mem_append_right _ List.mem_cons_self
      rcases mention with ⟨call, there, same, -⟩ | ⟨definition, there, same, -⟩
      · obtain ⟨-, -, named, -⟩ := call_shape there
        rw [String.ofList_injective same] at named
        exact absurd (named '(' paren) (by decide)
      · obtain ⟨name, taken, named, -⟩ := fn_shape there
        rw [taken, Option.map_some, Option.some.injEq] at same
        rw [String.ofList_injective same] at named
        exact absurd (named '(' paren) (by decide)
  · rintro ⟨unfiled, plain⟩
    -- what is extracted from a mention of a function is its name
    have named : ∀ name hit, FunctionMention crate content tags name hit →
        canonicalize lowercase "Function" hit = name := by
      rintro name hit (⟨capture, found, rfl, rfl⟩ | ⟨capture, found, same, rfl⟩)
      · obtain ⟨-, -, snake, -, extracted⟩ := call_shape found
        have closed : ¬ ['(', ')'] <:+ callName capture := fun ends =>
          absurd (snake '(' (ends.subset List.mem_cons_self)) (by decide)
        rw [extracted, canonicalize, if_pos rfl, String.toList_ofList, plain capture found,
          trimEndMatches_append (List.cons_ne_nil _ _) closed]
      · obtain ⟨text, taken, snake, extracted⟩ := fn_shape found
        have closed : ¬ ['(', ')'] <:+ text := fun ends =>
          absurd (snake '(' (ends.subset List.mem_cons_self)) (by decide)
        rw [taken, Option.map_some, Option.some.injEq] at same
        rw [extracted, canonicalize, if_pos rfl, String.toList_ofList,
          trimEndMatches_of_not closed, same]
    refine ⟨fun path => ?_, ?_, fun name => ?_, ?_⟩
    · rw [mem_extract_file_iff, unfiled]
      constructor
      · rintro ⟨capture, none_, -⟩
        cases none_
      · rintro ⟨capture, none_, -⟩
        cases none_
    · rw [unfiled]
      exact fun capture none_ => absurd none_ List.not_mem_nil
    · rw [mem_extract_function_iff]
      constructor
      · rintro ⟨pattern, known, capture, found, same⟩
        rcases List.mem_pair.mp known with rfl | rfl
        · have mention : FunctionMention crate content tags (String.ofList (callName capture))
              (rawHit capture) := .inl ⟨capture, found, rfl, rfl⟩
          rw [named _ _ mention] at same
          rw [← same]
          exact ⟨_, mention⟩
        · obtain ⟨text, taken, -, -⟩ := fn_shape found
          have mention : FunctionMention crate content tags (String.ofList text)
              (rawHit capture) := .inr ⟨capture, found, by rw [taken]; rfl, rfl⟩
          rw [named _ _ mention] at same
          rw [← same]
          exact ⟨_, mention⟩
      · rintro ⟨hit, mention⟩
        have same := named name hit mention
        rcases mention with ⟨capture, found, -, rfl⟩ | ⟨capture, found, -, rfl⟩
        · exact ⟨callPattern, List.mem_cons_self, capture, found, same⟩
        · exact ⟨fnPattern, List.mem_cons_of_mem _ (List.mem_singleton_self _), capture, found,
            same⟩
    · intro name hit other mention mention'
      exact (named name hit mention).trans (named name other mention').symm

end MentionsEntity

/-! ## Search -/

section Search

variable (crate : RegexCrate) (lowercase : String → String) (blake3 : List UInt8 → Bytes 32)
  (orgId : String)

def entityIds (content : String) (tags : List String) : List EntityId :=
  ((extract crate lowercase content tags).map fun entity =>
    EntityId.fromParts blake3 orgId entity.entityType entity.name).dedup.insertionSort
      (·.raw.le ·.raw)

/-- The row of an external table that a memory was read from. -/
def externalArgs (memory : Memory) : Option IdArgs :=
  match memory.provenance with
  | .externalSnapshot snapshot =>
      if snapshot.externalKey.tableUuid.isEmpty then none
      else some (.externalEntity orgId (utf8 snapshot.externalKey.tableUuid)
        snapshot.externalKey.logicalPk)
  | _ => none

def attachEntities (memory : Memory) : Memory :=
  let ids := entityIds crate lowercase blake3 orgId memory.content memory.tags ++
    ((externalArgs orgId memory).map fun row => ⟨row.derived blake3⟩).toList
  { memory with context := { memory.context with
    entities := ids.dedup.insertionSort (·.raw.le ·.raw) } }

/-- What the entities of a memory are derived from. -/
def entityArgs (memory : Memory) : List IdArgs :=
  ((extract crate lowercase memory.content memory.tags).map fun entity =>
    .entityParts orgId entity.entityType entity.name) ++ (externalArgs orgId memory).toList

theorem mem_attachEntities {memory : Memory} {id : EntityId} :
    id ∈ (attachEntities crate lowercase blake3 orgId memory).context.entities ↔
      ∃ args ∈ entityArgs crate lowercase orgId memory, ⟨args.derived blake3⟩ = id := by
  simp only [attachEntities, entityIds, entityArgs, List.mem_insertionSort, List.mem_dedup,
    List.mem_append, List.mem_map, Option.mem_toList, Option.map_eq_some_iff, or_and_right,
    exists_or, exists_exists_and_eq_and]
  rfl

/-- What `find_by_entity` reads of a filter. -/
structure MemoryFilter where
  memoryTypes : List UInt8
  projectId : Option String
  validAt : Option DateTime
  limit : ℕ
  visibilityCtx : VisibilityContext

def MemoryFilter.passes (filter : MemoryFilter) (memory : Memory) : Bool :=
  (filter.memoryTypes.isEmpty || filter.memoryTypes.contains memory.memoryType) &&
    filter.projectId.all (memory.context.projectId = some ·) &&
    filter.validAt.all (fun instant =>
      memory.validFrom ≤ instant && memory.validUntil.all (instant < ·)) &&
    memoryVisible memory filter.visibilityCtx

/-- The most recent of the current memories with an entity. -/
def InMemoryStorage.findByEntity (order : HashOrder) (entity : EntityId) (filter : MemoryFilter)
    (s : InMemoryStorage) : Except StorageError (List Memory) :=
  if 500 < filter.limit then .error (.backend "limit > 500")
  else .ok ((((order.shuffle s.streamAllMemories).filter fun memory =>
    memory.context.entities.contains entity && filter.passes memory).insertionSort
      fun left right => right.recordedAt ≤ left.recordedAt).take filter.limit)

/-- A memory mentions a file under its path, or a function under its name. -/
def MentionsEntity (memory : Memory) : UInt8 × String → Prop
  | (0, path) => ∃ capture ∈ crate.capturesIter (filePattern crate)
      (searchText memory.content memory.tags), String.ofList capture.whole = path
  | (1, name) => ∃ hit, FunctionMention crate memory.content memory.tags name hit
  | _ => False

variable {crate lowercase blake3 orgId}

theorem ExactEntities.mem_iff {memory : Memory}
    (exact_ : ExactEntities crate lowercase memory.content memory.tags) {key : UInt8 × String}
    (known : key.1 = 0 ∨ key.1 = 1) :
    key ∈ (extract crate lowercase memory.content memory.tags).map (·.key) ↔
      MentionsEntity crate memory key := by
  obtain ⟨kind, name⟩ := key
  rcases known with rfl | rfl
  · exact exact_.files name
  · exact exact_.functions name

/-- **What is found of a file or of a function mentions it**, and as long as the limit is not
reached everything that passes the filter and mentions it is found: where the entities of every
stored memory are those that it mentions, and no other entity of one has the same identity. -/
theorem findByEntity_mentions {s : InMemoryStorage} {order : HashOrder} {filter : MemoryFilter}
    {rows : List Memory} {key : UInt8 × String} (known : key.1 = 0 ∨ key.1 = 1)
    (attached : ∀ memory ∈ s.streamAllMemories, memory.context.entities =
      (attachEntities crate lowercase blake3 orgId memory).context.entities)
    (exact_ : ∀ memory ∈ s.streamAllMemories,
      ExactEntities crate lowercase memory.content memory.tags)
    (apart : ∀ memory ∈ s.streamAllMemories, ∀ args ∈ entityArgs crate lowercase orgId memory,
      args.derived blake3 = (IdArgs.entityParts orgId key.1 key.2).derived blake3 →
        args = .entityParts orgId key.1 key.2)
    (read : s.findByEntity order (.fromParts blake3 orgId key.1 key.2) filter = .ok rows) :
    (∀ memory ∈ rows, memory ∈ s.streamAllMemories ∧ filter.passes memory = true ∧
      MentionsEntity crate memory key) ∧
    (rows.length < filter.limit → ∀ memory ∈ s.streamAllMemories, filter.passes memory = true →
      MentionsEntity crate memory key → memory ∈ rows) := by
  have mentions : ∀ memory ∈ s.streamAllMemories,
      (memory.context.entities.contains (.fromParts blake3 orgId key.1 key.2) = true ↔
        MentionsEntity crate memory key) := by
    intro memory stored
    rw [List.contains_iff_mem, attached memory stored, mem_attachEntities,
      ← (exact_ memory stored).mem_iff known]
    constructor
    · rintro ⟨args, member, same⟩
      rw [apart memory stored args member (congrArg EntityId.raw same), entityArgs] at member
      rcases List.mem_append.mp member with extracted | external
      · obtain ⟨entity, there, same⟩ := List.mem_map.mp extracted
        injection same with _ kind name
        exact List.mem_map.mpr ⟨entity, there, Prod.ext kind name⟩
      · rw [Option.mem_toList, externalArgs] at external
        split at external
        · split_ifs at external
          cases external
        · cases external
    · intro extracted
      obtain ⟨entity, there, rfl⟩ := List.mem_map.mp extracted
      exact ⟨_, List.mem_append_left _ (List.mem_map_of_mem there), rfl⟩
  rw [InMemoryStorage.findByEntity] at read
  split_ifs at read
  cases read
  constructor
  · intro memory member
    have listed := List.mem_of_mem_take member
    rw [List.mem_insertionSort, List.mem_filter, order.mem_shuffle, Bool.and_eq_true] at listed
    exact ⟨listed.1, listed.2.2, (mentions memory listed.1).mp listed.2.1⟩
  · intro short memory stored passes mentioned
    rw [List.length_take] at short
    rw [List.take_of_length_le (by omega), List.mem_insertionSort, List.mem_filter,
      order.mem_shuffle, Bool.and_eq_true]
    exact ⟨stored, (mentions memory stored).mpr mentioned, passes⟩

end Search

/-! ## A text with files -/

/-- The words of ASCII texts. -/
def isAsciiWord (c : Char) : Bool := isUpper c || isSnake c

theorem captures_found (r : Regex) (text : List Char) :
    (!(captures isAsciiWord r text).isEmpty) = true ↔ captures isAsciiWord r text ≠ [] := by
  rw [Bool.not_eq_true', List.isEmpty_eq_false_iff]

/-- The crate on ASCII texts. -/
def asciiCrate : RegexCrate where
  isWord := isAsciiWord
  isMatch := fun r text => !(captures isAsciiWord r text).isEmpty
  capturesIter := captures isAsciiWord
  found := captures_found
  sound := captured_of_mem

/-- Two source files become one entity, which is called like their extension. -/
theorem not_exactEntities :
    ¬ ExactEntities asciiCrate String.toLower "src/a.rs and src/b.rs" [] := by
  intro exact_
  have listed : asciiCrate.capturesIter (filePattern asciiCrate)
      (searchText "src/a.rs and src/b.rs" []) =
        [⟨"src/a.rs".toList, [(1, "rs".toList)]⟩, ⟨"src/b.rs".toList, [(1, "rs".toList)]⟩] := by
    decide +kernel
  refine exact_.filesApart ⟨"src/a.rs".toList, [(1, "rs".toList)]⟩ ?_
    ⟨"src/b.rs".toList, [(1, "rs".toList)]⟩ ?_ (by decide) rfl
  · rw [listed]
    exact List.mem_cons_self
  · rw [listed]
    exact List.mem_cons_of_mem _ (List.mem_singleton_self _)

end Exocortex
