import Exocortex.Storage.Bitemporal

/-!
# The corpus export

A corpus is a cut through the graph as of an instant, with one lineage row for each memory and a
manifest. The exporter streams the current versions of the rows and keeps those that are recorded
by then, have begun and have not ended; of the relationships it keeps those with both ends in the
cut.

A stream has the newest version of each row only. A row that was superseded or deleted after the
instant has a newest version that is recorded later, so the cut has none of its versions, although
an older one was believed. `cutAsBelieved_iff` says that this is the only difference.
-/

namespace Exocortex

open Library InMemoryStorage

/-- The row claims a licence and a consent basis. -/
def Rights.egressPermitted (rights : Rights) : Bool :=
  rights.licence.any (· ≠ "") && rights.consentBasis.any (· ≠ "")

/-- The name of a producer kind. -/
def ProducerKind.debug : ProducerKind → String
  | .unspecified => "Unspecified"
  | .codingAgent => "CodingAgent"
  | .researchAgent => "ResearchAgent"
  | .docsAdapter => "DocsAdapter"
  | .analyticsAdapter => "AnalyticsAdapter"
  | .custom => "Custom"
  | .extracted => "Extracted"
  | .saasAdapter => "SaasAdapter"

/-- Where a row of the corpus comes from. -/
structure LineageRow where
  id : String
  memoryType : String
  provenance : String
  source : String
  producerKind : Option String
  externalKey : Option String
  entities : List String
  lsn : ℕ
  rights : String
deriving DecidableEq

structure CorpusManifest where
  format : String
  version : ℕ
  compatibilityFingerprint : String
  asOf : Option String
  memories : ℕ
  edges : ℕ
  computedOnlyKinds : Finset String
  egress : String
deriving DecidableEq

/-- The files of an export. -/
structure Corpus where
  memories : List Memory
  edges : List Relationship
  lineage : List LineageRow
  manifest : CorpusManifest
deriving DecidableEq

/-- The texts that the exporter takes from the libraries it links, and the fingerprint of its
ontology. -/
structure CorpusTexts where
  rfc3339 : DateTime → String
  fromUtf8Lossy : List UInt8 → String
  fingerprint : Bytes 32

def memoryBelievedAt (memory : Memory) (asOf : DateTime) : Bool :=
  memory.recordedAt ≤ asOf && memory.validFrom ≤ asOf && memory.validUntil.all (asOf < ·)

def edgeBelievedAt (edge : Relationship) (asOf : DateTime) : Bool :=
  edge.recordedAt ≤ asOf && edge.validFrom ≤ asOf && edge.validUntil.all (asOf < ·)

section Texts

variable (texts : CorpusTexts) (ontology : EffectiveOntology)

/-- The provenance columns of a lineage row: how the row came about, from whom, the kind of
producer and the external key. -/
def lineageSource : Provenance → String × String × Option String × Option String
  | .asserted author producerKind => ("asserted", author, producerKind.map (·.debug), none)
  | .extracted _ _ => ("extracted", "", none, none)
  | .derived ruleId _ => ("derived", ruleId, none, none)
  | .computed _ _ => ("computed", "", none, none)
  | .proposed _ _ => ("proposed", "", none, none)
  | .externalSnapshot snapshot =>
      let key :=
        if snapshot.externalKey.tableUuid = "" then none
        else some (snapshot.externalKey.tableUuid ++ ":" ++
          texts.fromUtf8Lossy snapshot.externalKey.logicalPk)
      ("external-snapshot", snapshot.sourceUri, some snapshot.producerId, key)

def lineageRow (memory : Memory) : LineageRow :=
  let (provenance, source, producerKind, externalKey) := lineageSource texts memory.provenance
  { id := memory.id.raw.digestHex
    memoryType := ontology.memoryTypeNames.getD memory.memoryType.toNat ""
    provenance := provenance
    source := source
    producerKind := producerKind
    externalKey := externalKey
    entities := memory.context.entities.map (·.raw.digestHex)
    lsn := memory.lsn.value
    rights :=
      match memory.rights with
      | some rights => if rights.egressPermitted then "licensed" else "partial"
      | none => "none" }

/-- What the manifest says about taking the corpus out of the organisation. -/
def egressVerdict (memories : List Memory) : String :=
  let licensed := memories.countP fun memory => memory.rights.any (·.egressPermitted)
  let incomplete := memories.countP fun memory => memory.rights.any fun rights =>
    !rights.egressPermitted
  if memories.isEmpty then "empty corpus: no rows, no egress claim"
  else if licensed = memories.length then
    "permitted: all " ++ toString licensed ++
      " exported rows claim licence + consent basis (D24)"
  else
    "NOT permitted: " ++ toString licensed ++ "/" ++ toString memories.length ++
      " rows claim licence + consent; " ++ toString incomplete ++
      " carry              incomplete rights; " ++
      toString (memories.length - licensed - incomplete) ++
      " claim none — a corpus leaves the org only when every " ++
      "             row is covered (D24, fail closed)"

/-- The names of the computed-only kinds among the edges. -/
def computedOnlyKinds (edges : List Relationship) : Finset String :=
  (edges.filterMap fun edge =>
    ((ontology.kindMeta edge.kind).filter (·.computedOnly)).map (·.displayName)).toFinset

def exportCorpus (asOf : Option DateTime) (now : DateTime) (s : InMemoryStorage) : Corpus :=
  let cut := asOf.getD now
  let memories := s.streamAllMemories.filter (memoryBelievedAt · cut)
  let included := (memories.map (·.id)).toFinset
  -- An edge with an end outside the cut would refer to nothing.
  let edges := s.streamAllRelationships.filter fun edge =>
    edgeBelievedAt edge cut && decide (edge.source ∈ included) && decide (edge.target ∈ included)
  { memories := memories
    edges := edges
    lineage := memories.map (lineageRow texts ontology)
    manifest :=
      { format := "exocortex-corpus"
        version := 1
        compatibilityFingerprint := texts.fingerprint.digestHex
        asOf := asOf.map texts.rfc3339
        memories := memories.length
        edges := edges.length
        computedOnlyKinds := computedOnlyKinds ontology edges
        egress := egressVerdict memories } }

end Texts

/-! ## The cut -/

/-- The versions in force at an instant are what the corpus holds: of the memories all, of the
relationships those with both ends among these memories. -/
structure CutAsBelieved (s : InMemoryStorage) (asOf : DateTime) (corpus : Corpus) : Prop where
  memories : ∀ m, m ∈ corpus.memories ↔ ∃ id, s.validAt id asOf = some m
  edges : ∀ r, r ∈ corpus.edges ↔ (∃ id, s.relationshipAt id asOf = some r) ∧
    (∃ m ∈ corpus.memories, m.id = r.source) ∧ ∃ m ∈ corpus.memories, m.id = r.target
  once : (corpus.memories.map (·.id)).Nodup ∧ (corpus.edges.map (·.id)).Nodup

/-- No memory whose newest version is recorded or begins after an instant has an older version in
force at it, and no relationship between memories in force has. -/
structure NoneReplacedLater (s : InMemoryStorage) (asOf : DateTime) : Prop where
  memories : ∀ id older newest, s.memories.history id = older ++ [newest] →
    asOf < newest.recordedAt ∨ asOf < newest.validFrom →
    ∀ m, ¬ Memory.times.InForce older asOf m
  edges : ∀ id older newest, s.rels.history id = older ++ [newest] →
    asOf < newest.recordedAt ∨ asOf < newest.validFrom →
    ∀ r, Relationship.times.InForce older asOf r →
      ¬ ((s.validAt r.source asOf).isSome ∧ (s.validAt r.target asOf).isSome)

variable {t : DateTime}

variable {V : Type} {times : Validity V DateTime}

/-- A newest version that is not reached is recorded or begins later. -/
theorem not_reached_iff {v : V} :
    ¬ times.reached t v = true ↔ t < times.recordedAt v ∨ t < times.validFrom v := by
  rw [Validity.reached_iff, not_and_or, not_le, not_le]

/-- What is in force is the newest version, if believed, or an older one behind a newest version
that is recorded or begins later. -/
theorem asOf_eq_some_iff_newest {history : List V} {v : V} :
    times.asOf history t = some v ↔
      (history.getLast? = some v ∧ times.believed t v = true) ∨
        ∃ older newest, history = older ++ [newest] ∧
          (t < times.recordedAt newest ∨ t < times.validFrom newest) ∧
            times.InForce older t v := by
  rcases List.eq_nil_or_concat history with rfl | ⟨older, newest, rfl⟩
  · simp [Validity.asOf_nil]
  · rw [List.concat_eq_append, List.getLast?_concat]
    by_cases reached : times.reached t newest = true
    · have late : ¬ (t < times.recordedAt newest ∨ t < times.validFrom newest) := fun late =>
        not_reached_iff.mpr late reached
      rw [Validity.asOf_concat, if_pos reached]
      constructor
      · intro answers
        split at answers
        · next lasts =>
            cases answers
            exact .inl ⟨rfl, by rw [Validity.believed, reached, lasts, Bool.and_self]⟩
        · cases answers
      · rintro (⟨same, believed⟩ | ⟨older', newest', shape, later, -⟩)
        · cases same
          rw [if_pos (Bool.and_eq_true_iff.mp believed).2]
        · obtain ⟨-, same⟩ := List.append_inj' shape rfl
          cases same
          exact absurd later late
    · rw [Validity.asOf_concat_eq_some_iff reached]
      constructor
      · exact fun inForce => .inr ⟨older, newest, rfl, not_reached_iff.mp reached, inForce⟩
      · rintro (⟨same, believed⟩ | ⟨older', newest', shape, -, inForce⟩)
        · cases same
          exact absurd (Bool.and_eq_true_iff.mp believed).1 reached
        · obtain ⟨rfl, -⟩ := List.append_inj' shape rfl
          exact inForce

/-- In a family of histories of its own versions each, a version in force behind one that comes
later is the newest of no history, or is not believed. -/
theorem not_newest_of_replaced {K : Type} {idOf : V → K} {histories : K → List V}
    (keyed : ∀ id, ∀ v ∈ histories id, idOf v = id) {id : K} {older : List V} {newest v : V}
    (shape : histories id = older ++ [newest])
    (later : t < times.recordedAt newest ∨ t < times.validFrom newest)
    (inForce : times.InForce older t v) :
    ¬ ∃ other, (histories other).getLast? = some v ∧ times.believed t v = true := by
  rintro ⟨other, last, believed⟩
  obtain ⟨front, back, split, -, -⟩ := inForce
  have here : v ∈ histories id := by
    rw [shape, split]
    simp
  have same : other = id :=
    (keyed other v (List.mem_of_getLast? last)).symm.trans (keyed id v here)
  rw [same, shape, List.getLast?_concat] at last
  cases last
  exact not_reached_iff.mpr later (Bool.and_eq_true_iff.mp believed).1

section Cut

variable (texts : CorpusTexts) (ontology : EffectiveOntology) {s : InMemoryStorage}
  (keyed : Keyed s.rows) (asOf now : DateTime)

theorem mem_exported_memories {m : Memory} :
    m ∈ (exportCorpus texts ontology (some asOf) now s).memories ↔
      ∃ id, s.currentMemory id = some m ∧ Memory.times.believed asOf m = true := by
  rw [exportCorpus, List.mem_filter, mem_streamAllMemories]
  exact exists_and_right.symm

theorem mem_exported_edges {r : Relationship} :
    r ∈ (exportCorpus texts ontology (some asOf) now s).edges ↔
      (∃ id, s.currentRelationship id = some r ∧ Relationship.times.believed asOf r = true) ∧
        (∃ m ∈ (exportCorpus texts ontology (some asOf) now s).memories, m.id = r.source) ∧
          ∃ m ∈ (exportCorpus texts ontology (some asOf) now s).memories, m.id = r.target := by
  simp only [exportCorpus, List.mem_filter, mem_streamAllRelationships, Bool.and_eq_true,
    decide_eq_true_eq, List.mem_toFinset, List.mem_map, Option.getD_some, exists_and_right]
  constructor
  · rintro ⟨found, ⟨believed, source⟩, target⟩
    exact ⟨⟨found, believed⟩, source, target⟩
  · rintro ⟨⟨found, believed⟩, source, target⟩
    exact ⟨found, ⟨believed, source⟩, target⟩
include keyed

/-- The corpus has every memory once, and every edge. -/
theorem exported_once :
    ((exportCorpus texts ontology (some asOf) now s).memories.map (·.id)).Nodup ∧
      ((exportCorpus texts ontology (some asOf) now s).edges.map (·.id)).Nodup :=
  ⟨(List.filter_sublist.map _).nodup keyed.nodup_memories,
    (List.filter_sublist.map _).nodup keyed.nodup_relationships⟩

/-- The memories of the corpus are those in force exactly when none is replaced later. -/
theorem exported_memories_iff :
    (∀ m, m ∈ (exportCorpus texts ontology (some asOf) now s).memories ↔
        ∃ id, s.validAt id asOf = some m) ↔
      ∀ id older newest, s.memories.history id = older ++ [newest] →
        asOf < newest.recordedAt ∨ asOf < newest.validFrom →
        ∀ m, ¬ Memory.times.InForce older asOf m := by
  simp only [mem_exported_memories, validAt_eq, asOf_eq_some_iff_newest, currentMemory]
  constructor
  · intro law id older newest shape later m inForce
    exact not_newest_of_replaced keyed.memories shape later inForce
      ((law m).mpr ⟨id, .inr ⟨older, newest, shape, later, inForce⟩⟩)
  · intro none_replaced m
    constructor
    · rintro ⟨id, newest⟩
      exact ⟨id, .inl newest⟩
    · rintro ⟨id, newest | ⟨older, newest, shape, later, inForce⟩⟩
      · exact ⟨id, newest⟩
      · exact absurd inForce (none_replaced id older newest shape later m)

/-- When the memories are those in force, an end is in the cut exactly when its memory answers. -/
theorem end_exported_iff
    (law : ∀ m, m ∈ (exportCorpus texts ontology (some asOf) now s).memories ↔
      ∃ id, s.validAt id asOf = some m) (id : MemoryId) :
    (∃ m ∈ (exportCorpus texts ontology (some asOf) now s).memories, m.id = id) ↔
      (s.validAt id asOf).isSome := by
  simp only [law, Option.isSome_iff_exists]
  have own : ∀ {other : MemoryId} {m : Memory}, s.validAt other asOf = some m → m.id = other := by
    intro other m answers
    rw [validAt_eq, Validity.asOf_eq_some_iff] at answers
    obtain ⟨front, back, split, -, -⟩ := answers
    exact keyed.memories other m (by rw [split]; simp)
  constructor
  · rintro ⟨m, ⟨other, answers⟩, rfl⟩
    exact ⟨m, own answers ▸ answers⟩
  · rintro ⟨m, answers⟩
    exact ⟨m, ⟨id, answers⟩, own answers⟩

/-- **A corpus is the cut that was believed exactly when no row is replaced later.** -/
theorem cutAsBelieved_of_keyed :
    CutAsBelieved s asOf (exportCorpus texts ontology (some asOf) now s) ↔
      NoneReplacedLater s asOf := by
  constructor
  · intro cut
    refine ⟨(exported_memories_iff texts ontology keyed asOf now).mp cut.memories, ?_⟩
    rintro id older newest shape later r inForce ⟨source, target⟩
    have ends := end_exported_iff texts ontology keyed asOf now cut.memories
    have listed := (cut.edges r).mpr
      ⟨⟨id, asOf_eq_some_iff_newest.mpr (.inr ⟨older, newest, shape, later, inForce⟩)⟩,
        (ends r.source).mpr source, (ends r.target).mpr target⟩
    exact not_newest_of_replaced keyed.relationships shape later inForce
      ((mem_exported_edges texts ontology asOf now).mp listed).1
  · intro kept
    have memories := (exported_memories_iff texts ontology keyed asOf now).mpr kept.memories
    have ends := end_exported_iff texts ontology keyed asOf now memories
    refine ⟨memories, fun r => ?_, exported_once texts ontology keyed asOf now⟩
    rw [mem_exported_edges]
    refine and_congr_left fun ⟨source, target⟩ => ?_
    constructor
    · rintro ⟨id, newest⟩
      exact ⟨id, asOf_eq_some_iff_newest.mpr (.inl newest)⟩
    · rintro ⟨id, answers⟩
      rcases asOf_eq_some_iff_newest.mp answers with newest | ⟨older, newest, shape, later, inForce⟩
      · exact ⟨id, newest⟩
      · exact absurd ⟨(ends r.source).mp source, (ends r.target).mp target⟩
          (kept.edges id older newest shape later r inForce)

end Cut

/-- **The corpus of a reached store is the cut that was believed exactly when no row that was in
force is replaced later, by a newer version or by its deletion.** -/
theorem cutAsBelieved_iff (texts : CorpusTexts) (ontology : EffectiveOntology) (env : Env)
    (calls : List (DateTime × Call)) (asOf now : DateTime) :
    CutAsBelieved (Call.runAll env .new calls) asOf
        (exportCorpus texts ontology (some asOf) now (Call.runAll env .new calls)) ↔
      NoneReplacedLater (Call.runAll env .new calls) asOf :=
  cutAsBelieved_of_keyed texts ontology (runAll_keyed env calls) asOf now

/-- A memory of instant 0 that is deleted at instant 10 is missing from the cut as of instant 5. -/
theorem not_cutAsBelieved :
    ¬ ∀ (texts : CorpusTexts) (ontology : EffectiveOntology) (env : Env)
      (calls : List (DateTime × Call)) (asOf now : DateTime), asOf ≤ now →
      CutAsBelieved (Call.runAll env .new calls) asOf
        (exportCorpus texts ontology (some asOf) now (Call.runAll env .new calls)) := by
  intro law
  have cut := law ⟨fun _ => "", fun _ => "", .fill 32 0⟩ smallOntology .blank
    [(0, .upsertMemory (.begins 0 0)), (10, .deleteMemory someMemory)] 5 20 (by decide)
  have kept : { Memory.begins 0 0 with lsn := LSN.newBackend 1 } ∈ List.nil :=
    (cut.memories _).mpr ⟨someMemory, by decide +kernel⟩
  cases kept

end Exocortex
