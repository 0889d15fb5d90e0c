import Exocortex.Ingest.Wire
import Exocortex.Storage.Reads

/-!
# Validation of a batch

`validateMemory` turns a draft into a memory or says why not, `validateRelationship` an edge
between two memories into a relationship, and `validateBatch` a whole batch: the drafts first,
then the stored memories that edges aim at, then the edges. The first of the three steps that
finds anything to reject ends the validation.

Drafts and stored targets are kept in one map, the drafts under their keys and the targets
under the texts of their identities, and the targets are put in last. An edge is therefore
bound to the drafts it names unless one of its keys reads like a target of the batch
(`BatchPassed.lookup_draft`, `BatchPassed.lookup_target`).
-/

namespace Exocortex

open Library InMemoryStorage

/-! ## The server -/

/-- The declared projection of a table-shaped source. -/
structure StoredProjection where
  selector : String
  fields : List (String × String × String)
  columns : List (String × String)
  schemaHash : String
  mappingVersion : ℕ
  maxRowsPerWindow : ℕ
  maxGraphSharePercent : ℕ
deriving DecidableEq

/-- A registered source. -/
structure SourceEntry where
  ceiling : Visibility
  kind : ProducerKind
  flavor : String
  projection : Option StoredProjection
  defaultRights : Option Rights
deriving DecidableEq

/-- What validation takes from the server: its ontology, whether the one user of a personal
node may name any project and team, the digest, the extraction of entities, and the functions
of the language. -/
structure Validator where
  ontology : EffectiveOntology
  allowPersonalScopes : Bool
  blake3 : List UInt8 → Bytes 32
  entities : Memory → List EntityId
  outside : TextAndTime

/-! ## Memories -/

/-- Refuse unless a condition holds. -/
def require {E : Type} (condition : Bool) (error : E) : Except E Unit :=
  if condition then .ok () else .error error

/-- Refuse what is missing. -/
def orReject {E α : Type} (found : Option α) (error : E) : Except E α :=
  match found with
  | some value => .ok value
  | none => .error error

/-- The tenant, user, project and team of a row. -/
structure RowScope where
  tenantId : Option String
  userId : Option String
  projectId : Option String
  teamId : Option String

/-- A requested identity; an empty one is none. -/
def requested (batch : SubmittedBatch) (field : ClientMetadata → String) : Option String :=
  ((batch.producer.bind (·.clientMetadata)).map field).filter (!·.isEmpty)

/-- The scope of a row of the given label. A caller may not go beyond its own ceiling, and on a
shared node only name projects and teams it belongs to. -/
def rowScope (validator : Validator) (batch : SubmittedBatch) (label : Visibility)
    (principal : Option VisibilityContext) : Except RejectCode RowScope :=
  match principal with
  | none => .ok ⟨none, none, none, none⟩
  | some principal =>
      let project := requested batch (·.projectId)
      let team := requested batch (·.teamId)
      if principal.maxVisibility < label then .error .visibilityWidening
      else if !validator.allowPersonalScopes && label = .project &&
          !project.any (principal.projectIds.contains ·) then .error .visibilityWidening
      else if !validator.allowPersonalScopes && label = .team &&
          !team.any (principal.teamIds.contains ·) then .error .visibilityWidening
      else .ok ⟨some principal.orgId, some principal.userId, project, team⟩

/-- The widths of external coordinates. -/
def checkCoordinates (batch : SubmittedBatch) (draft : WireMemory) : Except RejectCode Unit := do
  require (batch.snapshot.isNone || draft.externalKey.isSome) .missingExternalKey
  require (draft.externalKey.all (·.tableUuid.length = 16)) .invalidExternalKey
  require (batch.snapshot.all (·.schemaHash.length = 32)) .invalidExternalKey

/-- The validity of a row. -/
def checkValidity (outside : TextAndTime) (draft : WireMemory) (times : BatchTimes) :
    Except RejectCode (DateTime × Option DateTime) := do
  let validFrom ← match draft.validFrom with
    | some value => checkedTimestamp outside value
    | none => .ok times.recordedAt
  let validUntil ← match draft.validUntil with
    | some value => (checkedTimestamp outside value).map some
    | none => .ok none
  require (validUntil.all (decide <| validFrom ≤ ·)) .unknown
  return (validFrom, validUntil)

/-- The rights of a row: its own, or those its source registered. -/
def checkRights (outside : TextAndTime) (draft : WireMemory) (source : SourceEntry)
    (validFrom : DateTime) : Except RejectCode (Option Rights) :=
  let rights := (draft.rights.map (kernelRights outside)).or source.defaultRights
  if (rights.bind (·.retentionUntil)).any (decide <| · < validFrom) then .error .unknown
  else .ok rights

/-- Lowercase hexadecimal digits. -/
def hex32 (bytes : List UInt8) : String := String.join (bytes.map Bytes.hexByte)

/-- Eight bytes of a length, least significant first. -/
def leBytes64 (n : ℕ) : List UInt8 :=
  (List.range 8).map fun i => UInt8.ofNat (n / 256 ^ i % 256)

/-- A value with its length before it. -/
def framed (value : List UInt8) : List UInt8 := leBytes64 value.length ++ value

/-- The identity of a row of an external table. -/
def fromExternal (blake3 : List UInt8 → Bytes 32) (orgId sourceUri : String)
    (key : WireExternalKey) : MemoryId :=
  ⟨(blake3 ("exocortex-external-id-v2".toUTF8.toList ++ framed orgId.toUTF8.toList ++
    framed sourceUri.toUTF8.toList ++ framed key.tableUuid ++
    framed key.logicalPk.toUTF8.toList ++ (leBytes64 key.mappingVersion).take 4)).take 16
      Bytes.id_fits⟩

/-- Where a row comes from. -/
def rowProvenance (batch : SubmittedBatch) (draft : WireMemory) (source : SourceEntry)
    (times : BatchTimes) : Provenance :=
  match batch.snapshot with
  | none => .asserted batch.producerId (some source.kind)
  | some snapshot => .externalSnapshot {
      sourceUri := batch.sourceUri
      snapshotId := snapshot.snapshotId
      schemaHash :=
        if size : snapshot.schemaHash.length = 32 then ⟨snapshot.schemaHash, size⟩
        else .fill 32 0
      observedAt := times.observedAt
      externalKey := {
        tableUuid := (draft.externalKey.map (hex32 ·.tableUuid)).getD ""
        logicalPk := (draft.externalKey.map (·.logicalPk.toUTF8.toList)).getD []
        mappingVersion := (draft.externalKey.map (·.mappingVersion)).getD 0 }
      producerId := batch.producerId }

/-- The draft as the rulebook sees it. -/
def kernelDraft (draft : WireMemory) (memoryType : UInt8) (label : Visibility) (scope : RowScope)
    (now : DateTime) : MemoryDraft where
  memoryType := memoryType
  title := draft.title
  content := draft.content
  summary := none
  visibility := label
  context := { DraftContext.blank now with
    projectId := scope.projectId
    teamId := scope.teamId
    tenantId := scope.tenantId
    userId := scope.userId }
  edgeHints := []
  externalKey := none

/-- The identity of a row: the one minted for it, or that of its external coordinates. -/
def rowIdentity (validator : Validator) (batch : SubmittedBatch) (draft : WireMemory)
    (minted : MemoryId) : MemoryId :=
  (draft.externalKey.map (fromExternal validator.blake3 batch.orgId batch.sourceUri)).getD minted

/-- The memory of a draft that passed. -/
def builtMemory (validator : Validator) (batch : SubmittedBatch) (draft : WireMemory)
    (source : SourceEntry) (times : BatchTimes) (minted : MemoryId) (memoryType : UInt8)
    (label : Visibility) (scope : RowScope) (validity : DateTime × Option DateTime)
    (rights : Option Rights) : Memory :=
  let memory : Memory := {
    id := rowIdentity validator batch draft minted
    memoryType := memoryType
    title := draft.title
    content := draft.content
    summary := none
    tags := normalizeTags validator.outside draft.tags
    visibility := label
    provenance := rowProvenance batch draft source times
    context := {
      timestamp := times.observedAt
      projectId := scope.projectId
      teamId := scope.teamId
      tenantId := scope.tenantId
      sessionId := sessionIdOf batch.sourceUri source.flavor
      userId := scope.userId
      entities := [] }
    importance := .half
    confidence := .base
    effectiveness := none
    usageCount := 0
    validFrom := validity.1
    validUntil := validity.2
    recordedAt := times.recordedAt
    invalidatedBy := none
    embedding := none
    lsn := LSN.newLocal 0
    rights := rights }
  { memory with context := { memory.context with entities := validator.entities memory } }

/-- One draft, with the identity minted for it. -/
def validateMemory (validator : Validator) (batch : SubmittedBatch) (source : SourceEntry)
    (times : BatchTimes) (now : DateTime) (principal : Option VisibilityContext)
    (draft : WireMemory) (minted : MemoryId) : Except RejectCode Memory := do
  let memoryType ← orReject (validator.ontology.memoryTypeId draft.memoryType) .unknownMemoryType
  let label ← visFromI32 draft.visibility
  let scope ← rowScope validator batch label principal
  (validateDraft validator.ontology (kernelDraft draft memoryType label scope now) "ingest"
    source.ceiling).mapError kernelErrorToReject
  checkCoordinates batch draft
  let validity ← checkValidity validator.outside draft times
  let rights ← checkRights validator.outside draft source validity.1
  return builtMemory validator batch draft source times minted memoryType label scope validity
    rights

/-! ## Edges -/

/-- The key of an edge's target: a draft's, or the text of a stored memory's identity. Exactly
one of the two is given. -/
def targetKey (edge : WireRel) : Except RejectCode String :=
  if edge.toMemoryId.isEmpty then
    if edge.toDraftKey.isEmpty then .error .invalidTypeTriple else .ok edge.toDraftKey
  else if !edge.toDraftKey.isEmpty then .error .invalidTypeTriple
  else .ok edge.toMemoryId

/-- A score that an edge may carry. -/
def inUnit (score : F32) : Bool :=
  score.isFinite && F32.zero.le score && score.le F32.one

/-- A score, or the default of its kind in the place of zero. -/
def scoreOr (ontology : EffectiveOntology) (kind : RelKindId) (score : F32) : F32 :=
  if score.eq .zero then
    ((ontology.kindMeta kind).map (·.defaultStrength)).getD ⟨0x3f4ccccd#32⟩
  else score

/-- The relationship of an edge that passed. -/
def builtRelationship (validator : Validator) (batch : SubmittedBatch) (source : SourceEntry)
    (times : BatchTimes) (edge : WireRel) (kind : RelKindId) (fromMemory toMemory : Memory) :
    Relationship where
  id := RelationshipId.derive validator.blake3 fromMemory.id kind toMemory.id none
  kind := kind
  source := fromMemory.id
  target := toMemory.id
  visibility := relationshipVisibility fromMemory.visibility toMemory.visibility
  provenance :=
    if batch.snapshot.isSome then fromMemory.provenance
    else .asserted batch.producerId (some source.kind)
  properties := ⟨scoreOr validator.ontology kind edge.strength,
    scoreOr validator.ontology kind edge.confidence, none, 1, none, 0, 0, times.recordedAt⟩
  description := none
  bidirectional := (validator.ontology.kindMeta kind).any (·.bidirectional)
  validFrom := times.recordedAt
  validUntil := none
  recordedAt := times.recordedAt
  invalidatedBy := none
  lsn := LSN.newLocal 0

/-- One edge; `draftIds` is the memory of a key. -/
def validateRelationship (validator : Validator) (batch : SubmittedBatch) (source : SourceEntry)
    (times : BatchTimes) (draftIds : String → Option Memory) (edge : WireRel) :
    Except RejectCode Relationship := do
  let fromMemory ← orReject (draftIds edge.fromDraftKey) .invalidTypeTriple
  let toKey ← targetKey edge
  let toMemory ← orReject (draftIds toKey) .invalidTypeTriple
  let kind ← orReject (validator.ontology.kindId edge.kind) .unknownKind
  require (!(validator.ontology.kindMeta kind).any (·.computedOnly)) .computedKindRejected
  let _ ← visFromI32 edge.visibility
  require ((relationshipVisibility fromMemory.visibility toMemory.visibility).within
    source.ceiling) .visibilityWidening
  (validateTriple validator.ontology fromMemory.memoryType kind
    toMemory.memoryType).mapError kernelErrorToReject
  require (inUnit edge.strength) .unknown
  require (inUnit edge.confidence) .unknown
  return builtRelationship validator batch source times edge kind fromMemory toMemory

/-! ## Batches -/

/-- The rows of a batch that passed, and the stored memories its edges aim at. -/
structure ValidatedBatch where
  memories : List Memory
  relationships : List Relationship
  loaded : Table MemoryId Memory

/-- The rejection of a draft. -/
def draftRejection (draft : WireMemory × ℕ) (code : RejectCode) : RejectRow :=
  ⟨draft.1.draftKey, code, code.debug⟩

/-- How a rejection names an edge. -/
def edgeName (edge : WireRel) : String :=
  if edge.toMemoryId.isEmpty then edge.fromDraftKey ++ "->" ++ edge.toDraftKey
  else edge.fromDraftKey ++ "->#" ++ edge.toMemoryId

def edgeRejection (edge : WireRel) (code : RejectCode) : RejectRow :=
  ⟨edgeName edge, code, code.debug⟩

/-- The edges that aim at stored memories. -/
def externalEdges (batch : SubmittedBatch) : List WireRel :=
  batch.relationships.filter (!·.toMemoryId.isEmpty)

/-- The identity an edge aims at. -/
def targetId (edge : WireRel) : Except RejectRow MemoryId :=
  match MemoryId.parseHex edge.toMemoryId with
  | some id => .ok id
  | none => .error ⟨edgeName edge, .invalidTypeTriple,
      "to_memory_id `" ++ edge.toMemoryId ++ "` is not a 32-hex memory id"⟩

/-- The stored target of an edge, under the text of its identity. -/
def storedTarget (loaded : Table MemoryId Memory) (principal : Option VisibilityContext)
    (target : WireRel × MemoryId) : Except RejectRow (String × Memory) :=
  match loaded.lookup target.2 with
  | some memory =>
      if principal.any (!memoryVisible memory ·) then
        .error ⟨edgeName target.1, .visibilityWidening,
          "to_memory_id `" ++ target.1.toMemoryId ++ "` is outside the authenticated membership"⟩
      else .ok (target.1.toMemoryId, memory)
  | none => .error ⟨edgeName target.1, .invalidTypeTriple,
      "to_memory_id `" ++ target.1.toMemoryId ++ "` does not exist"⟩

/-- The memory of a key; a later entry takes the place of an earlier one. -/
def lookupDraft (entries : List (String × Memory)) (key : String) : Option Memory :=
  (lastWith Prod.fst key entries).map (·.2)

/-- The edges that aim at stored memories, with the identities they name. -/
def batchTargets (batch : SubmittedBatch) : List (WireRel × MemoryId) :=
  successes (fun edge => (targetId edge).map (edge, ·)) (externalEdges batch)

/-- The stored memories that the edges of a batch aim at. -/
def loadTargets (s : InMemoryStorage) (batch : SubmittedBatch) : Table MemoryId Memory :=
  .collect Memory.id
    (s.getMemories (((batchTargets batch).map (·.2)).dedup.insertionSort (·.raw.le ·.raw)))

/-- What is wrong with the stored targets of a batch. -/
def targetRejections (loaded : Table MemoryId Memory) (principal : Option VisibilityContext)
    (batch : SubmittedBatch) : List RejectRow :=
  failures targetId (fun _ row => row) (externalEdges batch) ++
    failures (storedTarget loaded principal) (fun _ row => row) (batchTargets batch)

/-- The memory of each key of a batch: of a stored target, else of a draft. -/
def draftIds (loaded : Table MemoryId Memory) (principal : Option VisibilityContext)
    (batch : SubmittedBatch) (memories : List Memory) : String → Option Memory :=
  lookupDraft ((batch.memories.map (·.draftKey)).zip memories ++
    successes (storedTarget loaded principal) (batchTargets batch))

section Batches

variable (validator : Validator) (now : DateTime) (mint : ℕ → MemoryId)
  (principal : Option VisibilityContext) (source : SourceEntry)

/-- The check of one draft of a batch, which has its own minted identity. -/
def checkDraft (batch : SubmittedBatch) (times : BatchTimes) (draft : WireMemory × ℕ) :
    Except RejectCode Memory :=
  validateMemory validator batch source times now principal draft.1 (mint draft.2)

def IngestService.validateBatch (s : InMemoryStorage) (batch : SubmittedBatch) :
    Except IngestAck ValidatedBatch :=
  match batchTimes validator.outside now batch with
  | .error code =>
      .error (ackRejectAll batch code "malformed or out-of-range temporal coordinate")
  | .ok times =>
      let drafts := batch.memories.zipIdx
      let check := checkDraft validator now mint principal source batch times
      let rejected := failures check draftRejection drafts
      if rejected ≠ [] then .error (rejectRows batch rejected)
      else
        let memories := successes check drafts
        let loaded := loadTargets s batch
        let rejected := targetRejections loaded principal batch
        if rejected ≠ [] then .error (rejectRows batch rejected)
        else
          let check := validateRelationship validator batch source times
            (draftIds loaded principal batch memories)
          let rejected := failures check edgeRejection batch.relationships
          if rejected ≠ [] then .error (rejectRows batch rejected)
          else .ok ⟨memories, successes check batch.relationships, loaded⟩

end Batches

/-! ## What passed -/

variable {E : Type} {batch : SubmittedBatch} {times : BatchTimes}
  {principal : Option VisibilityContext} {memory : Memory} {edge : WireRel} {id : MemoryId}
  {target : WireRel × MemoryId} {loaded : Table MemoryId Memory} {key : String}

theorem require_ok_iff {condition : Bool} {error : E} {value : Unit} :
    require condition error = .ok value ↔ condition = true := by
  rw [require]
  split <;> simp_all

theorem orReject_ok_iff {α : Type} {found : Option α} {error : E} {value : α} :
    orReject found error = .ok value ↔ found = some value := by
  cases found with
  | none => simp [orReject]
  | some other => simp [orReject]

theorem mapError_ok_iff {F α : Type} {result : Except E α} {f : E → F} {value : α} :
    result.mapError f = .ok value ↔ result = .ok value := by
  cases result with
  | error error => simp [Except.mapError]
  | ok other => simp [Except.mapError]

variable {source : SourceEntry} {validator : Validator}

/-- A draft that passed was built into its memory. -/
theorem validateMemory_ok {now : DateTime} {draft : WireMemory} {minted : MemoryId}
    (passed : validateMemory validator batch source times now principal draft minted = .ok memory) :
    ∃ memoryType label scope validity rights,
      visFromI32 draft.visibility = .ok label ∧
      rowScope validator batch label principal = .ok scope ∧
      validateDraft validator.ontology (kernelDraft draft memoryType label scope now) "ingest"
        source.ceiling = .ok () ∧
      memory = builtMemory validator batch draft source times minted memoryType label scope
        validity rights := by
  simp only [validateMemory, bind_eq_ok_iff, mapError_ok_iff, orReject_ok_iff] at passed
  obtain ⟨memoryType, -, label, labelled, scope, inScope, ⟨⟩, ruled, -, -, validity, -, rights, -,
    built⟩ := passed
  exact ⟨memoryType, label, scope, validity, rights, labelled, inScope, ruled,
    (Except.ok.inj built).symm⟩

/-- An edge that passed joins the memories of its two keys. -/
theorem validateRelationship_ok {draftIds : String → Option Memory} {row : Relationship}
    (passed : validateRelationship validator batch source times draftIds edge = .ok row) :
    ∃ fromMemory toKey toMemory kind, draftIds edge.fromDraftKey = some fromMemory ∧
      targetKey edge = .ok toKey ∧ draftIds toKey = some toMemory ∧
      validator.ontology.kindId edge.kind = some kind ∧
      (relationshipVisibility fromMemory.visibility toMemory.visibility).within source.ceiling ∧
      row = builtRelationship validator batch source times edge kind fromMemory toMemory := by
  simp only [validateRelationship, bind_eq_ok_iff, mapError_ok_iff, orReject_ok_iff,
    require_ok_iff] at passed
  obtain ⟨fromMemory, isFrom, toKey, isKey, toMemory, isTo, kind, isKind, -, -, -, -, -, label, -,
    -, -, -, -, -, built⟩ := passed
  exact ⟨fromMemory, toKey, toMemory, kind, isFrom, isKey, isTo, isKind, label,
    (Except.ok.inj built).symm⟩

theorem targetId_ok_iff : targetId edge = .ok id ↔ MemoryId.parseHex edge.toMemoryId = some id := by
  rw [targetId]
  split <;> simp_all

theorem mem_batchTargets :
    target ∈ batchTargets batch ↔
      target.1 ∈ externalEdges batch ∧ MemoryId.parseHex target.1.toMemoryId = some target.2 := by
  rw [batchTargets, mem_successes]
  constructor
  · rintro ⟨edge, listed, named⟩
    cases parsed : targetId edge with
    | error row =>
        rw [parsed] at named
        cases named
    | ok id =>
        rw [parsed] at named
        cases named
        exact ⟨listed, targetId_ok_iff.mp parsed⟩
  · rintro ⟨listed, parsed⟩
    exact ⟨target.1, listed, by rw [targetId_ok_iff.mpr parsed]; rfl⟩

theorem storedTarget_ok {entry : String × Memory}
    (ok : storedTarget loaded principal target = .ok entry) :
    entry.1 = target.1.toMemoryId ∧ loaded.lookup target.2 = some entry.2 := by
  rw [storedTarget] at ok
  split at ok
  next memory found =>
    split at ok
    · cases ok
    · cases ok
      exact ⟨rfl, found⟩
  · cases ok

theorem loadTargets_lookup {s : InMemoryStorage}
    (found : (loadTargets s batch).lookup id = some memory) :
    memory.id = id ∧ memory ∈ s.streamAllMemories := by
  rw [loadTargets, Table.lookup_collect] at found
  obtain ⟨listed, sameId⟩ := lastWith_some found
  obtain ⟨wanted, -, current⟩ := List.mem_filterMap.mp listed
  exact ⟨sameId, mem_streamAllMemories.mpr ⟨wanted, current⟩⟩

theorem targetKey_within (within : edge.toMemoryId.isEmpty) (isKey : targetKey edge = .ok key) :
    key = edge.toDraftKey := by
  rw [targetKey, if_pos within] at isKey
  split at isKey
  · cases isKey
  · cases isKey
    rfl

theorem targetKey_external (within : ¬ edge.toMemoryId.isEmpty) (isKey : targetKey edge = .ok key) :
    key = edge.toMemoryId := by
  rw [targetKey, if_neg within] at isKey
  split at isKey
  · cases isKey
  · cases isKey
    rfl

/-- What holds of a batch that passed. -/
structure BatchPassed (validator : Validator) (now : DateTime) (mint : ℕ → MemoryId)
    (principal : Option VisibilityContext) (source : SourceEntry) (s : InMemoryStorage)
    (batch : SubmittedBatch) (validated : ValidatedBatch) (times : BatchTimes) : Prop where
  drafts : List.Forall₂ (checkDraft validator now mint principal source batch times · = .ok ·)
    batch.memories.zipIdx validated.memories
  loaded : validated.loaded = loadTargets s batch
  targets : targetRejections validated.loaded principal batch = []
  edges : List.Forall₂ (validateRelationship validator batch source times
    (draftIds validated.loaded principal batch validated.memories) · = .ok ·)
    batch.relationships validated.relationships

section Passed

variable {validator : Validator} {now : DateTime} {mint : ℕ → MemoryId}
  {principal : Option VisibilityContext} {source : SourceEntry} {s : InMemoryStorage}
  {batch : SubmittedBatch} {validated : ValidatedBatch}

theorem IngestService.validateBatch_ok
    (passed : IngestService.validateBatch validator now mint principal source s batch =
      .ok validated) :
    ∃ times, BatchPassed validator now mint principal source s batch validated times := by
  rw [IngestService.validateBatch] at passed
  cases timed : batchTimes validator.outside now batch with
  | error code =>
      rw [timed] at passed
      cases passed
  | ok times =>
      rw [timed] at passed
      dsimp only at passed
      split at passed
      · cases passed
      next drafts =>
        split at passed
        · cases passed
        next targets =>
          split at passed
          · cases passed
          next edges =>
            cases passed
            exact ⟨times, {
              drafts := forall₂_successes (failures_eq_nil_iff.mp (not_ne_iff.mp drafts))
              loaded := rfl
              targets := not_ne_iff.mp targets
              edges := forall₂_successes (failures_eq_nil_iff.mp (not_ne_iff.mp edges)) }⟩

/-- A memory of the batch with a given key and identity. -/
def OwnDraft (batch : SubmittedBatch) (validated : ValidatedBatch) (key : String)
    (id : MemoryId) : Prop :=
  ∃ pair ∈ batch.memories.zip validated.memories, pair.1.draftKey = key ∧ pair.2.id = id

/-- The memories of a batch have the identities of its drafts. -/
theorem BatchPassed.ownDraft_iff
    (passed : BatchPassed validator now mint principal source s batch validated times) :
    OwnDraft batch validated key id ↔ ∃ draft ∈ batch.memories.zipIdx,
      draft.1.draftKey = key ∧ rowIdentity validator batch draft.1 (mint draft.2) = id := by
  obtain ⟨size, built⟩ := List.forall₂_iff_zip.mp passed.drafts
  have identity : ∀ {draft memory}, (draft, memory) ∈ batch.memories.zipIdx.zip validated.memories →
      memory.id = rowIdentity validator batch draft.1 (mint draft.2) := by
    intro draft memory listed
    obtain ⟨-, -, -, -, -, -, -, -, rfl⟩ := validateMemory_ok (built listed)
    rfl
  have numbered : batch.memories.zip validated.memories =
      (batch.memories.zipIdx.zip validated.memories).map (Prod.map Prod.fst fun m => m) := by
    rw [← List.zip_map, List.zipIdx_map_fst, List.map_id']
  rw [OwnDraft, numbered]
  constructor
  · rintro ⟨pair, listed, sameKey, sameId⟩
    obtain ⟨⟨draft, memory⟩, member, rfl⟩ := List.mem_map.mp listed
    exact ⟨draft, (List.of_mem_zip member).1, sameKey, (identity member).symm.trans sameId⟩
  · rintro ⟨draft, listed, sameKey, sameId⟩
    obtain ⟨memory, member⟩ : ∃ memory, (draft, memory) ∈
        batch.memories.zipIdx.zip validated.memories := by
      obtain ⟨index, small, rfl⟩ := List.getElem_of_mem listed
      have bound : index < validated.memories.length := size ▸ small
      refine ⟨validated.memories[index], List.mem_iff_getElem.mpr ⟨index, ?_, List.getElem_zip⟩⟩
      rw [List.length_zip]
      exact lt_min small bound
    exact ⟨_, List.mem_map_of_mem member, sameKey, (identity member).trans sameId⟩

/-- No stored target is under a key that no edge aims at. -/
theorem lastWith_storedTargets (apart : ∀ other ∈ externalEdges batch, other.toMemoryId ≠ key) :
    lastWith Prod.fst key (successes (storedTarget loaded principal) (batchTargets batch)) =
      none := by
  rw [lastWith_eq_none]
  intro entry listed
  obtain ⟨target, member, stored⟩ := mem_successes.mp listed
  rw [(storedTarget_ok stored).1]
  exact apart target.1 (mem_batchTargets.mp member).1

/-- A key of the batch leads to this memory. -/
theorem BatchPassed.lookup_draft (apart : ∀ other ∈ externalEdges batch, other.toMemoryId ≠ key)
    (found : draftIds validated.loaded principal batch validated.memories key = some memory) :
    OwnDraft batch validated key memory.id := by
  rw [draftIds, lookupDraft, lastWith_append, lastWith_storedTargets apart, Option.none_or] at found
  obtain ⟨entry, last, rfl⟩ := Option.map_eq_some_iff.mp found
  obtain ⟨listed, rfl⟩ := lastWith_some last
  rw [List.zip_map_left] at listed
  obtain ⟨pair, member, rfl⟩ := List.mem_map.mp listed
  exact ⟨pair, member, rfl, rfl⟩

/-- A key that reads like a target leads to the stored memory with that identity. -/
theorem BatchPassed.lookup_target
    (passed : BatchPassed validator now mint principal source s batch validated times)
    (member : edge ∈ externalEdges batch)
    (found : draftIds validated.loaded principal batch validated.memories edge.toMemoryId =
      some memory) :
    MemoryId.parseHex edge.toMemoryId = some memory.id ∧ memory ∈ s.streamAllMemories := by
  obtain ⟨parses, stored⟩ := List.append_eq_nil_iff.mp passed.targets
  obtain ⟨id, parsed⟩ := failures_eq_nil_iff.mp parses edge member
  have target : (edge, id) ∈ batchTargets batch :=
    mem_batchTargets.mpr ⟨member, targetId_ok_iff.mp parsed⟩
  obtain ⟨entry, ok⟩ := failures_eq_nil_iff.mp stored _ target
  have present : lastWith Prod.fst edge.toMemoryId
      (successes (storedTarget validated.loaded principal) (batchTargets batch)) ≠ none := by
    rw [Ne, lastWith_eq_none]
    exact fun missing => missing entry (mem_successes.mpr ⟨_, target, ok⟩) (storedTarget_ok ok).1
  obtain ⟨last, found'⟩ := Option.ne_none_iff_exists'.mp present
  rw [draftIds, lookupDraft, lastWith_append, found', Option.some_or, Option.map_some] at found
  obtain ⟨listed, sameKey⟩ := lastWith_some found'
  obtain ⟨other, isTarget, ok'⟩ := mem_successes.mp listed
  obtain ⟨named, loaded⟩ := storedTarget_ok ok'
  rw [passed.loaded] at loaded
  obtain ⟨sameId, streamed⟩ := loadTargets_lookup loaded
  rw [← Option.some.inj found, sameId, ← sameKey, named]
  exact ⟨(mem_batchTargets.mp isTarget).2, streamed⟩

/-- The edge joins the drafts it names, or its draft and the stored memory it names. -/
def EdgeBound (s : InMemoryStorage) (batch : SubmittedBatch) (validated : ValidatedBatch)
    (edge : WireRel) (row : Relationship) : Prop :=
  OwnDraft batch validated edge.fromDraftKey row.source ∧
    if edge.toMemoryId.isEmpty then OwnDraft batch validated edge.toDraftKey row.target
    else MemoryId.parseHex edge.toMemoryId = some row.target ∧
      ∃ memory ∈ s.streamAllMemories, memory.id = row.target

/-- A key that reads like a stored target of the batch is the key of a draft with just that
identity. -/
def KeyApart (validator : Validator) (mint : ℕ → MemoryId) (batch : SubmittedBatch)
    (key : String) : Prop :=
  ∀ other ∈ externalEdges batch, other.toMemoryId = key →
    ∃ draft ∈ batch.memories.zipIdx, draft.1.draftKey = key ∧
      MemoryId.parseHex key = some (rowIdentity validator batch draft.1 (mint draft.2))

/-- A key leads to a draft of its own exactly when it stays apart from the targets. -/
theorem BatchPassed.ownDraft_iff_apart
    (passed : BatchPassed validator now mint principal source s batch validated times)
    (found : draftIds validated.loaded principal batch validated.memories key = some memory) :
    OwnDraft batch validated key memory.id ↔ KeyApart validator mint batch key := by
  constructor
  · rintro own other listed rfl
    obtain ⟨draft, member, sameKey, sameId⟩ := passed.ownDraft_iff.mp own
    refine ⟨draft, member, sameKey, ?_⟩
    rw [(passed.lookup_target listed found).1, sameId]
  · intro apart
    by_cases target : ∃ other ∈ externalEdges batch, other.toMemoryId = key
    · obtain ⟨other, listed, rfl⟩ := target
      obtain ⟨draft, member, sameKey, parsed⟩ := apart other listed rfl
      rw [(passed.lookup_target listed found).1] at parsed
      exact passed.ownDraft_iff.mpr ⟨draft, member, sameKey, (Option.some.inj parsed).symm⟩
    · exact BatchPassed.lookup_draft (fun other listed same => target ⟨other, listed, same⟩) found

/-- **The edges of an accepted batch are bound to its own drafts exactly when no key that an
edge names reads like a stored target of the batch**, other than the key of a draft with that
identity. -/
theorem validateBatch_bound_iff
    (accepted : IngestService.validateBatch validator now mint principal source s batch =
      .ok validated) :
    List.Forall₂ (EdgeBound s batch validated) batch.relationships validated.relationships ↔
      ∀ edge ∈ batch.relationships, KeyApart validator mint batch edge.fromDraftKey ∧
        (edge.toMemoryId.isEmpty → KeyApart validator mint batch edge.toDraftKey) := by
  obtain ⟨times, passed⟩ := IngestService.validateBatch_ok accepted
  have edges := (List.forall₂_and_left (p := (· ∈ batch.relationships)) _ _).mpr
    ⟨fun _ member => member, passed.edges⟩
  refine forall₂_iff_of_forall₂ edges ?_
  rintro edge row ⟨member, checked⟩
  obtain ⟨fromMemory, toKey, toMemory, kind, isFrom, isKey, isTo, -, -, rfl⟩ :=
    validateRelationship_ok checked
  refine and_congr (passed.ownDraft_iff_apart isFrom) ?_
  by_cases within : edge.toMemoryId.isEmpty
  · rw [if_pos within, forall_prop_of_true within, ← targetKey_within within isKey]
    exact passed.ownDraft_iff_apart isTo
  · rw [if_neg within]
    have external : edge ∈ externalEdges batch :=
      List.mem_filter.mpr ⟨member, by simpa using within⟩
    rw [targetKey_external within isKey] at isTo
    obtain ⟨parsed, streamed⟩ := passed.lookup_target external isTo
    exact iff_of_true ⟨parsed, toMemory, streamed, rfl⟩ fun empty => absurd empty within

end Passed

/-! ## The verdict does not depend on the minted identities -/

/-- Two memories that edges cannot tell apart. -/
def SameKind (left right : Memory) : Prop :=
  left.visibility = right.visibility ∧ left.memoryType = right.memoryType

theorem Agree.orReject {A B : Type} {R : A → B → Prop} {left : Option A} {right : Option B}
    (related : Option.Rel R left right) (error : E) :
    Agree R (orReject left error) (orReject right error) := by
  cases related with
  | some both => exact both
  | none => rfl

section Verdict

variable (validator : Validator) (batch : SubmittedBatch) (source : SourceEntry)
  (times : BatchTimes) (now : DateTime) (principal : Option VisibilityContext)

theorem validateMemory_agree (draft : WireMemory) (minted minted' : MemoryId) :
    Agree SameKind (validateMemory validator batch source times now principal draft minted)
      (validateMemory validator batch source times now principal draft minted') := by
  -- The identity is only used in the last step.
  have same {A : Type} (x : Except RejectCode A) : Agree Eq x x := .refl (fun _ => rfl) x
  refine (same _).bind ?_
  rintro memoryType _ rfl
  refine (same _).bind ?_
  rintro label _ rfl
  refine (same _).bind ?_
  rintro scope _ rfl
  refine (same _).bind ?_
  rintro _ _ rfl
  refine (same _).bind ?_
  rintro _ _ rfl
  refine (same _).bind ?_
  rintro validity _ rfl
  refine (same _).bind ?_
  rintro rights _ rfl
  exact ⟨rfl, rfl⟩

theorem validateRelationship_agree {draftIds draftIds' : String → Option Memory}
    (related : ∀ key, Option.Rel SameKind (draftIds key) (draftIds' key)) (edge : WireRel) :
    Agree (fun _ _ => True) (validateRelationship validator batch source times draftIds edge)
      (validateRelationship validator batch source times draftIds' edge) := by
  have same {A : Type} (x : Except RejectCode A) : Agree Eq x x := .refl (fun _ => rfl) x
  refine (Agree.orReject (related _) _).bind ?_
  rintro fromMemory fromMemory' ⟨fromLabel, fromType⟩
  refine (same _).bind ?_
  rintro toKey _ rfl
  refine (Agree.orReject (related _) _).bind ?_
  rintro toMemory toMemory' ⟨toLabel, toType⟩
  refine (same _).bind ?_
  rintro kind _ rfl
  rw [fromLabel, fromType, toLabel, toType]
  refine (same _).bind ?_
  rintro _ _ rfl
  refine (same _).bind ?_
  rintro _ _ rfl
  refine (same _).bind ?_
  rintro _ _ rfl
  refine (same _).bind ?_
  rintro _ _ rfl
  refine (same _).bind ?_
  rintro _ _ rfl
  refine (same _).bind ?_
  rintro _ _ rfl
  trivial

variable {memories' : List Memory}

variable {memories : List Memory}

theorem forall₂_zip_related (related : List.Forall₂ SameKind memories memories')
    (keys : List String) :
    List.Forall₂ (fun entry entry' : String × Memory => entry.1 = entry'.1 ∧
      SameKind entry.2 entry'.2) (keys.zip memories) (keys.zip memories') := by
  induction related generalizing keys with
  | nil =>
      rw [List.zip_nil_right]
      exact .nil
  | cons first _ ih =>
      cases keys with
      | nil => exact .nil
      | cons key keys => exact .cons ⟨rfl, first⟩ (ih keys)

theorem draftIds_related (loaded : Table MemoryId Memory)
    (related : List.Forall₂ SameKind memories memories') (key : String) :
    Option.Rel SameKind (draftIds loaded principal batch memories key)
      (draftIds loaded principal batch memories' key) := by
  have entries := List.rel_append
    (forall₂_zip_related related (batch.memories.map (·.draftKey)))
    (List.forall₂_same.mpr fun entry (_ : entry ∈ successes (storedTarget loaded principal)
      (batchTargets batch)) => ⟨rfl, rfl, rfl⟩)
  have last := lastWith_rel entries key
  rw [draftIds, draftIds, lookupDraft, lookupDraft]
  generalize lastWith Prod.fst key _ = found at last ⊢
  generalize lastWith Prod.fst key _ = found' at last ⊢
  cases last with
  | some both => exact .some both
  | none => exact .none

/-- **The verdict on a batch is the same for all minted identities.** -/
theorem validateBatch_agree (mint mint' : ℕ → MemoryId) (s : InMemoryStorage) :
    Agree (fun _ _ => True)
      (IngestService.validateBatch validator now mint principal source s batch)
      (IngestService.validateBatch validator now mint' principal source s batch) := by
  rw [IngestService.validateBatch, IngestService.validateBatch]
  cases batchTimes validator.outside now batch with
  | error code => rfl
  | ok times =>
      have each : ∀ draft ∈ batch.memories.zipIdx, Agree SameKind
          (checkDraft validator now mint principal source batch times draft)
          (checkDraft validator now mint' principal source batch times draft) :=
        fun draft _ => validateMemory_agree validator batch source times now principal draft.1
          (mint draft.2) (mint' draft.2)
      obtain ⟨drafts, memories⟩ := Agree.traverse each draftRejection
      dsimp only
      rw [drafts]
      split
      · rfl
      · split
        · rfl
        · have edges := fun edge (_ : edge ∈ batch.relationships) =>
            validateRelationship_agree validator batch source times
              (draftIds_related batch principal (loadTargets s batch) memories) edge
          rw [(Agree.traverse edges edgeRejection).1]
          split
          · rfl
          · trivial

end Verdict

/-! ## A batch that names a stored memory -/

/-- A server with the small ontology, shared or personal. -/
def smallValidator (personal : Bool) : Validator :=
  ⟨smallOntology, personal, fun _ => .fill 32 0, fun _ => [], ⟨fun _ _ => none, fun text => text⟩⟩

def plainSource (ceiling : Visibility) : SourceEntry :=
  ⟨ceiling, .codingAgent, "session", none, none⟩

/-- A problem for everybody in the organization. -/
def problemDraft (key : String) : WireMemory :=
  ⟨key, "Problem", "title", "content", [], 3, none, none, none, none⟩

/-- An edge to a draft or to a stored memory. -/
def sessionEdge (source target memory : String) : WireRel :=
  ⟨source, target, "InSession", .one, .one, "", 3, memory⟩

/-- A batch of one draft. -/
def problemBatch (relationships : List WireRel) : SubmittedBatch where
  orgId := "acme"
  producerId := "agent"
  batchId := "batch"
  sourceUri := "session://1"
  ontologyFingerprint := []
  ceiling := 3
  checksum := ""
  observedAt := none
  recordedAt := none
  snapshot := none
  memories := [problemDraft "draft"]
  relationships := relationships
  producer := none

def freshId (index : ℕ) : MemoryId := ⟨.fill 16 (UInt8.ofNat (index + 1))⟩

def acmeAgent : VisibilityContext := ⟨"ada", "acme", [], [], .org⟩

/-- A stored memory that the agent can read. -/
def acmeNote : Memory :=
  { Memory.blank ⟨.fill 16 0xaa⟩ with
    visibility := .org, context := ⟨0, none, none, some "acme", none, none, []⟩ }

/-- The text of its identity. -/
def acmeNoteText : String := "aaaaaaaaaaaaaaaaaaaaaaaaaaaaaaaa"

def acmeStore : InMemoryStorage :=
  { new with memories := (∅ : Table _ _).push acmeNote.id acmeNote }

/-- The verdict on a batch with these edges. -/
def acmeVerdict (relationships : List WireRel) : Except IngestAck ValidatedBatch :=
  IngestService.validateBatch (smallValidator false) 5 freshId (some acmeAgent) (plainSource .org)
    acmeStore (problemBatch relationships)

theorem validateBatch_bound_to_stored :
    ∃ validated, acmeVerdict [sessionEdge "draft" "" acmeNoteText] = .ok validated ∧
      List.Forall₂ (EdgeBound acmeStore (problemBatch [sessionEdge "draft" "" acmeNoteText])
        validated) [sessionEdge "draft" "" acmeNoteText] validated.relationships := by
  obtain ⟨validated, accepted⟩ := exists_ok
    (x := acmeVerdict [sessionEdge "draft" "" acmeNoteText]) (by decide +kernel)
  refine ⟨validated, accepted, (validateBatch_bound_iff accepted).mpr ?_⟩
  have apart : ∀ edge ∈ (problemBatch [sessionEdge "draft" "" acmeNoteText]).relationships,
      (∀ other ∈ externalEdges (problemBatch [sessionEdge "draft" "" acmeNoteText]),
        other.toMemoryId ≠ edge.fromDraftKey) ∧ ¬ edge.toMemoryId.isEmpty := by decide +kernel
  intro edge member
  obtain ⟨different, external⟩ := apart edge member
  exact ⟨fun other listed same => absurd same (different other listed),
    fun within => absurd within external⟩

/-- An edge that names a stored memory as if it were a draft starts there, once another edge
aims at that memory. -/
theorem not_validateBatch_bound :
    ¬ ∀ (validator : Validator) (now : DateTime) (mint : ℕ → MemoryId)
      (principal : Option VisibilityContext) (source : SourceEntry) (s : InMemoryStorage)
      (batch : SubmittedBatch) (validated : ValidatedBatch),
      IngestService.validateBatch validator now mint principal source s batch = .ok validated →
      List.Forall₂ (EdgeBound s batch validated) batch.relationships validated.relationships := by
  intro always
  obtain ⟨validated, accepted⟩ := exists_ok
    (x := acmeVerdict [sessionEdge "draft" "" acmeNoteText, sessionEdge acmeNoteText "draft" ""])
    (by decide +kernel)
  have bound := always _ _ _ _ _ _ _ _ accepted
  obtain ⟨first, others, -, rest, -⟩ := List.forall₂_cons_left_iff.mp bound
  obtain ⟨second, -, ⟨⟨pair, listed, sameKey, -⟩, -⟩, -, -⟩ := List.forall₂_cons_left_iff.mp rest
  have own := List.mem_singleton.mp (List.of_mem_zip listed).1
  rw [own] at sameKey
  exact absurd sameKey (by decide +kernel)

end Exocortex
