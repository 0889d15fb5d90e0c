import Exocortex.Kernel.Ids
import Exocortex.Library.Tables

/-!
# Memories, relationships and inverse companions

The rows of the graph. Times are instants counted from one origin. Scores are
32-bit floats, kept as their bit patterns; the only operations on them here are the
language's comparisons, under which a NaN is neither equal to anything nor below or
above it, and the two zeros are equal.

`materializeInverse` builds the companion row of a relationship: writing
`k(a, b)` also writes `k'(b, a)` when the ontology gives `k` the inverse `k'`.
-/

namespace Exocortex

open Library

/-- An instant, in nanoseconds from the origin. -/
abbrev DateTime := ℤ

/-- A 32-bit float, as its bits. -/
structure F32 where
  bits : BitVec 32
deriving DecidableEq

namespace F32

def isNaN (x : F32) : Bool :=
  x.bits.extractLsb' 23 8 = 0xff#8 && x.bits.extractLsb' 0 23 ≠ 0#23

def isZero (x : F32) : Bool := x.bits.extractLsb' 0 31 = 0#31

/-- `==` on floats. -/
def eq (x y : F32) : Bool :=
  !x.isNaN && !y.isNaN && (x.bits = y.bits || (x.isZero && y.isZero))

/-- Where a number stands among the numbers: floats order as their magnitudes do, and
the other way round below zero. -/
def place (x : F32) : ℤ :=
  if x.bits.msb then -((x.bits.extractLsb' 0 31).toNat : ℤ) else (x.bits.extractLsb' 0 31).toNat

/-- `<` on floats. -/
def lt (x y : F32) : Bool := !x.isNaN && !y.isNaN && decide (x.place < y.place)

/-- `<=` on floats. -/
def le (x y : F32) : Bool := !x.isNaN && !y.isNaN && decide (x.place ≤ y.place)

def zero : F32 := ⟨0⟩

def one : F32 := ⟨0x3f800000#32⟩

end F32

/-- A score from zero to one. -/
structure F01 where
  score : F32
  inRange : F32.zero.le score && score.le F32.one
deriving DecidableEq

namespace F01

def new (score : F32) : Option F01 :=
  if inRange : F32.zero.le score && score.le F32.one then some ⟨score, inRange⟩ else none

/-- The scores of a new row: 0.5 for its importance, 0.8 for its confidence. -/
def half : F01 := ⟨⟨0x3f000000#32⟩, by decide⟩

def base : F01 := ⟨⟨0x3f4ccccd#32⟩, by decide⟩

/-- 0.1, the confidence of a superseded row. -/
def floor : F01 := ⟨⟨0x3dcccccd#32⟩, by decide⟩

end F01

/-- How widely a row may be read, narrowest first. -/
inductive Visibility where
  | «private»
  | project
  | team
  | org
  | «public»
deriving DecidableEq

namespace Visibility

/-- The discriminant of the label. -/
def rank : Visibility → ℕ
  | .private => 0
  | .project => 1
  | .team => 2
  | .org => 3
  | .public => 4

instance : LT Visibility := ⟨fun left right => left.rank < right.rank⟩

instance (left right : Visibility) : Decidable (left < right) :=
  inferInstanceAs (Decidable (left.rank < right.rank))

end Visibility

/-- Internal computed producers. -/
inductive ComputedProducer where
  | similarityCosine
  | similarityHnsw
  | abstraction
  | entityCoOccurrence
  | sessionCoOccurrence
deriving DecidableEq

/-- The closed set of producer kinds. -/
inductive ProducerKind where
  | unspecified
  | codingAgent
  | researchAgent
  | docsAdapter
  | analyticsAdapter
  | custom
  | extracted
  | saasAdapter
deriving DecidableEq

/-- Stable coordinates of an external row. -/
structure ExternalKey where
  tableUuid : String
  logicalPk : List UInt8
  mappingVersion : ℕ
deriving DecidableEq

/-- External-system coordinates of an ingested assertion. -/
structure ExternalSnapshot where
  sourceUri : String
  snapshotId : String
  schemaHash : Bytes 32
  observedAt : DateTime
  externalKey : ExternalKey
  producerId : String
deriving DecidableEq

/-- Six-variant provenance. -/
inductive Provenance where
  | asserted (author : String) (producerKind : Option ProducerKind)
  | derived (ruleId : String) (evidence : List RelationshipId)
  | computed (producer : ComputedProducer) (threshold : F32)
  | extracted (extractor : String) (extractionConfidence : F32)
  | proposed (discoveryId : Bytes 16) (score : F32)
  | externalSnapshot (snapshot : ExternalSnapshot)
deriving DecidableEq

/-- The identity scope around a memory. -/
structure MemoryContext where
  timestamp : DateTime
  projectId : Option String
  teamId : Option String
  tenantId : Option String
  sessionId : Option String
  userId : Option String
  entities : List EntityId
deriving DecidableEq

/-- The model that produced an embedding. -/
structure EmbeddingModel where
  name : String
  version : String
deriving DecidableEq

/-- A vector and the model it comes from. -/
structure Embedding where
  model : EmbeddingModel
  vector : List F32
deriving DecidableEq

/-- What a record may be used for. -/
structure Rights where
  licence : Option String
  consentBasis : Option String
  retentionUntil : Option DateTime
  redacted : Bool
deriving DecidableEq

/-- One version of a memory row. -/
structure Memory where
  id : MemoryId
  memoryType : UInt8
  title : String
  content : String
  summary : Option String
  tags : List String
  visibility : Visibility
  provenance : Provenance
  context : MemoryContext
  importance : F01
  confidence : F01
  effectiveness : Option F01
  usageCount : ℕ
  validFrom : DateTime
  validUntil : Option DateTime
  recordedAt : DateTime
  invalidatedBy : Option MemoryId
  embedding : Option Embedding
  lsn : LSN
  rights : Option Rights
deriving DecidableEq

/-- The property bag of an edge. -/
structure RelationshipProperties where
  strength : F32
  confidence : F32
  context : Option String
  evidenceCount : ℕ
  successRate : Option F32
  validationCount : ℕ
  counterEvidenceCount : ℕ
  lastValidated : DateTime
deriving DecidableEq

/-- One version of a relationship row. -/
structure Relationship where
  id : RelationshipId
  kind : RelKindId
  source : MemoryId
  target : MemoryId
  visibility : Visibility
  provenance : Provenance
  properties : RelationshipProperties
  description : Option String
  bidirectional : Bool
  validFrom : DateTime
  validUntil : Option DateTime
  recordedAt : DateTime
  invalidatedBy : Option RelationshipId
  lsn : LSN
deriving DecidableEq

/-- What the ontology says about a kind, as far as inverses go. -/
structure RelMeta where
  id : RelKindId
  inverse : Option RelKindId
  bidirectional : Bool
deriving DecidableEq

/-- The effective ontology: its kinds, by handle. -/
structure Ontology where
  kindsById : Table RelKindId RelMeta

/-- The inverse companion of a relationship. There is none when the kind is
unknown, has no inverse, is its own inverse, or is bidirectional. -/
def materializeInverse (ontology : Ontology) (blake3 : List UInt8 → Bytes 32)
    (rel : Relationship) : Option Relationship :=
  match ontology.kindsById.lookup rel.kind with
  | none => none
  | some kindMeta =>
      match kindMeta.inverse with
      | none => none
      | some inverse =>
          if inverse = rel.kind ∨ kindMeta.bidirectional then none
          else some { rel with
            id := RelationshipId.derive blake3 rel.target inverse rel.source none
            kind := inverse
            source := rel.target
            target := rel.source
            bidirectional := false
            invalidatedBy := none }

/-! ## Rows of either sort -/

/-- The identity of a row. -/
inductive RowId where
  | memory (id : MemoryId)
  | relationship (id : RelationshipId)
deriving DecidableEq

/-- One stored version, of either sort. -/
inductive Row where
  | memory (version : Memory)
  | relationship (version : Relationship)
deriving DecidableEq

/-- The backend sequence number of a version. -/
def Row.lsn : Row → ℕ
  | .memory version => version.lsn.value
  | .relationship version => version.lsn.value

theorem Row.memory_injective : Function.Injective Row.memory := fun _ _ same =>
  Row.memory.inj same

theorem Row.relationship_injective : Function.Injective Row.relationship := fun _ _ same =>
  Row.relationship.inj same

end Exocortex
