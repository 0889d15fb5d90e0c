import Exocortex.Ingest.Effects
import Exocortex.Kernel.Rulebook

/-!
# The ingestion protocol on the wire

Batches as producers submit them, with their drafts and edges, and the acknowledgements they
get. A batch is acknowledged as a whole: either all of its rows are accepted, or every row is
counted as rejected and the rejections say why.

`fromTimestamp` stands for the calendar library and `lowercase` for the language's case
mapping.
-/

namespace Exocortex

open Library

/-! ## Batches -/

/-- A point in time as the protocol carries it. -/
structure WireTimestamp where
  seconds : ℤ
  nanos : ℤ
deriving DecidableEq

structure WireRights where
  licence : String
  consentBasis : String
  retentionUntil : Option WireTimestamp
  redacted : Bool
deriving DecidableEq

structure WireExternalKey where
  tableUuid : List UInt8
  logicalPk : String
  mappingVersion : ℕ
deriving DecidableEq

/-- A memory that a producer asserts. -/
structure WireMemory where
  draftKey : String
  memoryType : String
  title : String
  content : String
  tags : List String
  visibility : ℤ
  validFrom : Option WireTimestamp
  validUntil : Option WireTimestamp
  externalKey : Option WireExternalKey
  rights : Option WireRights
deriving DecidableEq

/-- An edge between two drafts, or from a draft to a stored memory. -/
structure WireRel where
  fromDraftKey : String
  toDraftKey : String
  kind : String
  strength : F32
  confidence : F32
  context : String
  visibility : ℤ
  toMemoryId : String
deriving DecidableEq

/-- The scope that a producer asks for; an empty identity is none. -/
structure ClientMetadata where
  projectId : String
  teamId : String
deriving DecidableEq

/-- Who signed a batch. -/
structure WireProducer where
  hmacSignature : List UInt8
  clientMetadata : Option ClientMetadata
deriving DecidableEq

/-- Where an external batch was read from. -/
structure SnapshotInfo where
  snapshotId : String
  schemaHash : List UInt8
  sourceFlavor : String
deriving DecidableEq

/-- A batch with its drafts. -/
structure SubmittedBatch extends IngestBatch where
  ontologyFingerprint : List UInt8
  ceiling : ℤ
  checksum : String
  observedAt : Option WireTimestamp
  recordedAt : Option WireTimestamp
  snapshot : Option SnapshotInfo
  memories : List WireMemory
  relationships : List WireRel
  producer : Option WireProducer

/-- The number of rows of a batch. -/
def SubmittedBatch.rows (batch : SubmittedBatch) : ℕ :=
  batch.memories.length + batch.relationships.length

/-! ## Acknowledgements -/

/-- Why a row is rejected. -/
inductive RejectCode where
  | unknown
  | incompatibleOntology
  | unknownSource
  | unknownMemoryType
  | unknownKind
  | invalidTypeTriple
  | visibilityWidening
  | missingExternalKey
  | duplicateBatch
  | badChecksum
  | unauthorized
  | rateLimited
  | computedKindRejected
  | invalidExternalKey
  | resourceLimitExceeded
  | sourceRewound
  | schemaDrift
  | projectionBoundExceeded
deriving DecidableEq

/-- The name the derived `Debug` prints. -/
def RejectCode.debug : RejectCode → String
  | .unknown => "Unknown"
  | .incompatibleOntology => "IncompatibleOntology"
  | .unknownSource => "UnknownSource"
  | .unknownMemoryType => "UnknownMemoryType"
  | .unknownKind => "UnknownKind"
  | .invalidTypeTriple => "InvalidTypeTriple"
  | .visibilityWidening => "VisibilityWidening"
  | .missingExternalKey => "MissingExternalKey"
  | .duplicateBatch => "DuplicateBatch"
  | .badChecksum => "BadChecksum"
  | .unauthorized => "Unauthorized"
  | .rateLimited => "RateLimited"
  | .computedKindRejected => "ComputedKindRejected"
  | .invalidExternalKey => "InvalidExternalKey"
  | .resourceLimitExceeded => "ResourceLimitExceeded"
  | .sourceRewound => "SourceRewound"
  | .schemaDrift => "SchemaDrift"
  | .projectionBoundExceeded => "ProjectionBoundExceeded"

/-- The code of an error of the rulebook. -/
def kernelErrorToReject : KernelError → RejectCode
  | .visibilityWidening _ _ _ => .visibilityWidening
  | .unknownKind _ => .unknownKind
  | .invalidTypeTriple _ _ => .invalidTypeTriple
  | .titleBounds | .emptyContent | .summaryBounds | .metadataTooLarge => .unknown

structure RejectRow where
  draftKey : String
  code : RejectCode
  detail : String
deriving DecidableEq

structure IngestAck where
  batchId : String
  accepted : ℕ
  rejected : ℕ
  rejections : List RejectRow
  assignedLsn : ℕ
deriving DecidableEq

/-- Every row of the batch rejected for one reason. -/
def ackRejectAll (batch : SubmittedBatch) (code : RejectCode) (detail : String) : IngestAck where
  batchId := batch.batchId
  accepted := 0
  rejected := batch.rows
  rejections := batch.memories.map (fun m => ⟨m.draftKey, code, detail⟩) ++
    batch.relationships.map fun r => ⟨r.fromDraftKey ++ "->" ++ r.toDraftKey, code, detail⟩
  assignedLsn := 0

/-- The batch rejected for the given rows. -/
def rejectRows (batch : SubmittedBatch) (rejections : List RejectRow) : IngestAck :=
  { ackRejectAll batch .unknown "atomic batch rejected" with rejections := rejections }

/-! ## Limits -/

/-- The limits on a memory's content and tags. -/
def validateMemoryFields (content : String) (tags : List String) : Except String Unit := do
  if 65536 < content.utf8ByteSize then throw "memory content exceeds 65536 UTF-8 bytes"
  if 32 < tags.length then throw "memory has more than 32 tags"
  if tags.any (fun tag => 128 < tag.utf8ByteSize) then throw "tag exceeds 128 UTF-8 bytes"
  if 2048 < (tags.map (·.utf8ByteSize)).sum then throw "aggregate tag bytes exceed 2048"

def validateBatchResources (memories : List WireMemory) (edges : List WireRel) :
    Except String Unit := do
  if 256 < memories.length then throw "batch has more than 256 memories"
  if 64 < edges.length then throw "batch has more than 64 relationships"
  memories.forM fun memory => validateMemoryFields memory.content memory.tags

/-! ## Values -/

/-- Functions of the language and of its libraries. -/
structure TextAndTime where
  fromTimestamp : ℤ → ℕ → Option DateTime
  lowercase : String → String

/-- The white space of a text. -/
def isWhiteSpace (c : Char) : Bool :=
  (0x09 ≤ c.toNat && c.toNat ≤ 0x0d) || [0x20, 0x85, 0xa0, 0x1680].contains c.toNat ||
    (0x2000 ≤ c.toNat && c.toNat ≤ 0x200a) ||
    [0x2028, 0x2029, 0x202f, 0x205f, 0x3000].contains c.toNat

/-- A text without the white space around it. -/
def trimText (text : String) : String :=
  String.ofList (((text.toList.dropWhile isWhiteSpace).reverse.dropWhile isWhiteSpace).reverse)

/-- The instant of a timestamp that is one. -/
def checkedTimestamp (outside : TextAndTime) (value : WireTimestamp) : Except RejectCode DateTime :=
  if value.nanos < 0 || 1000000000 ≤ value.nanos then .error .unknown
  else
    match outside.fromTimestamp value.seconds value.nanos.toNat with
    | none => .error .unknown
    | some instant => .ok instant

/-- The times of a batch. -/
structure BatchTimes where
  observedAt : DateTime
  recordedAt : DateTime

def batchTimes (outside : TextAndTime) (now : DateTime) (batch : SubmittedBatch) :
    Except RejectCode BatchTimes := do
  let recordedAt ← match batch.recordedAt with
    | some value => checkedTimestamp outside value
    | none => .ok now
  let observedAt ← match batch.observedAt with
    | some value => checkedTimestamp outside value
    | none => .ok recordedAt
  return ⟨observedAt, recordedAt⟩

/-- The rights of a record. A retention time that is none reads as the origin; nanoseconds are
taken as 32 bits. -/
def kernelRights (outside : TextAndTime) (rights : WireRights) : Rights where
  licence := if (trimText rights.licence).isEmpty then none else some (trimText rights.licence)
  consentBasis :=
    if (trimText rights.consentBasis).isEmpty then none else some (trimText rights.consentBasis)
  retentionUntil := rights.retentionUntil.map fun stamp =>
    (outside.fromTimestamp stamp.seconds (stamp.nanos % 2 ^ 32).toNat).getD 0
  redacted := rights.redacted

def normalizeTag (outside : TextAndTime) (tag : String) : Option String :=
  let normalized := outside.lowercase (trimText tag)
  if normalized.isEmpty then none else some normalized

/-- Normalized tags, each once, where it was first. -/
def normalizeTags (outside : TextAndTime) (tags : List String) : List String :=
  tags.foldl (fun out tag =>
    match normalizeTag outside tag with
    | none => out
    | some normalized => if out.contains normalized then out else out ++ [normalized]) []

/-- A label by its number. -/
def visFromI32 : ℤ → Except RejectCode Visibility
  | 0 => .ok .private
  | 1 => .ok .project
  | 2 => .ok .team
  | 3 => .ok .org
  | 4 => .ok .public
  | _ => .error .visibilityWidening

/-- The session that a source of the session flavor names. -/
def sessionIdOf (sourceUri sourceFlavor : String) : Option String :=
  if sourceFlavor ≠ "session" then none
  else
    match "session://".toList.isPrefixOf sourceUri.toList with
    | false => none
    | true =>
        let id := String.ofList (sourceUri.toList.drop 10)
        if id.isEmpty then none else some id

end Exocortex
