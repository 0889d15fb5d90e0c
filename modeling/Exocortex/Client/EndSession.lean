import Mathlib.Data.List.ReduceOption
import Exocortex.Client.Wal
import Exocortex.Ingest.Wire

/-!
# Ending a session, online and offline

A session ends with one to five drafts and edges between them or to older memories. Online
the client checks the batch itself (`validateBatch`) and submits it; offline it writes an
entry to its log (`offlineEntry`), from which a later drain makes the batch to submit
(`rebuildBatch`). Both name the batch by a digest of what the caller handed in.

The entry keeps the drafts and resolves the edges to identities. The drain finds the names
again from the ontology and the keys from the identities; what it does not find again is
lost: the project and the team of the session, which stay in the drafts' contexts, an edge
to an older memory, a strength that is no number, and the name of a type past the 256th.
`Survives` says that a request has none of these, and then nothing is lost.
-/

namespace Exocortex

open Library

/-- A draft as the caller hands it in. -/
structure PreflightMemoryDraft where
  draftKey : String
  memoryType : String
  title : String
  content : String
  visibility : String
  tags : List String
deriving DecidableEq

/-- An edge as the caller hands it in: to a draft of the batch, or to an older memory. -/
structure PreflightEdgeHint where
  fromDraftKey : String
  toDraftKey : String
  toMemoryId : String
  kind : String
  strength : F32
deriving DecidableEq

structure EndSessionArgs where
  sessionId : Option String
  projectId : String
  teamId : Option String
  memories : List PreflightMemoryDraft
  edges : List PreflightEdgeHint

/-- An answer that is an error: its code and its text. -/
structure ToolError where
  code : String
  message : String
deriving DecidableEq

/-! ## The batch on the wire -/

structure WireDraft where
  draftKey : String
  id : String
  memoryType : String
  title : String
  content : String
  tags : List String
  visibility : ℤ
  validFrom : Option DateTime
deriving DecidableEq

structure ProducerIdentity where
  nodeId : String
  agentId : String
  clientMetadata : Option ClientMetadata
deriving DecidableEq

/-- A batch as it is submitted. -/
structure WireBatch where
  orgId : String
  sourceUri : String
  producerId : String
  batchId : String
  mappingVersion : String
  ontologyFingerprint : Bytes 32
  ceiling : ℤ
  observedAt : Option DateTime
  recordedAt : Option DateTime
  memories : List WireDraft
  relationships : List WireRel
  producer : ProducerIdentity
deriving DecidableEq

/-- 0.8 as a float. -/
def defaultConfidence : F32 := ⟨0x3f4ccccd#32⟩

/-- The label of a visibility, in either case. The letters of the four labels come from no
other characters than their own two cases. -/
def parseVisibility (label : String) : Option Visibility :=
  match label.toLower with
  | "private" => some .private
  | "project" => some .project
  | "team" => some .team
  | "org" => some .org
  | _ => none

/-- The number of a label; -1 for a label that no path lets through. -/
def visibilityDiscriminant (label : String) : ℤ :=
  match parseVisibility label with
  | some visibility => visibility.rank
  | none => -1

/-! ## The identity of a batch -/

/-- The fields of a draft that its batch is named by. -/
structure BatchIdDraft where
  draftKey : String
  memoryType : String
  title : String
  content : String
  visibility : ℤ
  tags : List String

/-- The fields of an edge that its batch is named by. -/
structure BatchIdEdge where
  sourceKey : String
  toMemoryId : String
  toDraftKey : String
  kind : String
  strength : F32

def WireDraft.batchIdDraft (draft : WireDraft) : BatchIdDraft :=
  ⟨draft.draftKey, draft.memoryType, draft.title, draft.content, draft.visibility, draft.tags⟩

def WireRel.batchIdEdge (rel : WireRel) : BatchIdEdge :=
  ⟨rel.fromDraftKey, rel.toMemoryId, rel.toDraftKey, rel.kind, rel.strength⟩

def PreflightMemoryDraft.batchIdDraft (draft : PreflightMemoryDraft) : BatchIdDraft :=
  ⟨draft.draftKey, draft.memoryType, draft.title, draft.content,
    visibilityDiscriminant draft.visibility, draft.tags⟩

def PreflightEdgeHint.batchIdEdge (edge : PreflightEdgeHint) : BatchIdEdge :=
  ⟨edge.fromDraftKey, edge.toMemoryId, edge.toDraftKey, edge.kind, edge.strength⟩

/-- The bytes of a 32-bit integer, least significant first. -/
def i32LeBytes (value : ℤ) : List UInt8 := (F32.mk (BitVec.ofInt 32 value)).toLeBytes

def BatchIdDraft.bytes (draft : BatchIdDraft) : List UInt8 :=
  draft.draftKey.toUTF8.toList ++ [0x1e] ++ draft.memoryType.toUTF8.toList ++ [0x1e] ++
    draft.title.toUTF8.toList ++ [0x1e] ++ draft.content.toUTF8.toList ++ [0x1e] ++
    i32LeBytes draft.visibility ++ draft.tags.flatMap (fun tag => tag.toUTF8.toList ++ [0x1f]) ++
    [0x1e]

def BatchIdEdge.bytes (edge : BatchIdEdge) : List UInt8 :=
  edge.sourceKey.toUTF8.toList ++ [0x1e] ++ edge.toMemoryId.toUTF8.toList ++ [0x1e] ++
    edge.toDraftKey.toUTF8.toList ++ [0x1e] ++ edge.kind.toUTF8.toList ++ [0x1e] ++
    edge.strength.toLeBytes

def contentBatchId (blake3 : List UInt8 → Bytes 32) (sessionId : String)
    (drafts : List BatchIdDraft) (rels : List BatchIdEdge) : String :=
  (blake3 (sessionId.toUTF8.toList ++ drafts.flatMap (·.bytes) ++ rels.flatMap (·.bytes))).digestHex

/-! ## The client's own check -/

/-- A problem that the client found. -/
structure LocalRejection where
  draftKey : String
  code : String
  detail : String
deriving DecidableEq

/-- A check that the client could not make. -/
structure UnverifiedCheck where
  key : String
  reason : String
deriving DecidableEq

structure PreflightResult where
  wouldAccept : ℕ
  wouldReject : ℕ
  rejections : List LocalRejection
  unverified : List UnverifiedCheck

/-- The code that the wire has for an error of the rulebook. -/
def KernelError.rejectCode : KernelError → String
  | .visibilityWidening _ _ _ => "VisibilityWidening"
  | _ => "Unknown"

/-- A draft of the batch: its key and its type, or what is wrong with it. -/
def preflightDraft (ontology : EffectiveOntology) (now : DateTime)
    (draft : PreflightMemoryDraft) : Except LocalRejection (String × UInt8) :=
  match ontology.memoryTypeId draft.memoryType with
  | none => .error ⟨draft.draftKey, "UnknownMemoryType",
      "unknown memory type `" ++ draft.memoryType ++ "`"⟩
  | some memoryType =>
      match parseVisibility draft.visibility with
      | none => .error ⟨draft.draftKey, "Unknown", "unknown visibility `" ++ draft.visibility ++
          "` (expected private|project|team|org)"⟩
      | some visibility =>
          if !visibility.within .org then
            .error ⟨draft.draftKey, "VisibilityWidening", visibility.debug ++
              " exceeds the session-wrapup ceiling " ++ Visibility.org.debug⟩
          else
            let probe : MemoryDraft := ⟨memoryType, draft.title, draft.content, none, visibility,
              .blank now, [], none⟩
            match validateDraft ontology probe "preflight" .org with
            | .error error => .error ⟨draft.draftKey, error.rejectCode, error.text⟩
            | .ok _ => .ok (draft.draftKey, memoryType)

/-- What the check says about an edge. -/
inductive EdgeVerdict where
  | fine
  | rejected (rejection : LocalRejection)
  | unverified (check : UnverifiedCheck)

def EdgeVerdict.rejection : EdgeVerdict → Option LocalRejection
  | .rejected rejection => some rejection
  | _ => none

def EdgeVerdict.check : EdgeVerdict → Option UnverifiedCheck
  | .unverified check => some check
  | _ => none

/-- The error of a check that failed. -/
def refused {α : Type} : Except LocalRejection α → Option LocalRejection
  | .error rejection => some rejection
  | .ok _ => none

/-- The key of an edge in the answer. -/
def PreflightEdgeHint.rowKey (edge : PreflightEdgeHint) : String :=
  if edge.toMemoryId.isEmpty then edge.fromDraftKey ++ "->" ++ edge.toDraftKey
  else edge.fromDraftKey ++ "->#" ++ edge.toMemoryId

/-- The kind of an edge whose target has a known type. -/
def preflightKind (ontology : EffectiveOntology) (edge : PreflightEdgeHint)
    (source target : UInt8) : EdgeVerdict :=
  match ontology.kindId edge.kind with
  | none => .rejected ⟨edge.rowKey, "UnknownKind",
      "unknown relationship kind `" ++ edge.kind ++ "`"⟩
  | some kind =>
      if (ontology.kindMeta kind).any (·.computedOnly) then
        .rejected ⟨edge.rowKey, "ComputedKindRejected", "`" ++ edge.kind ++
          "` is computed-only (R-T14); producers may not assert it"⟩
      else
        match validateTriple ontology source kind target with
        | .error error => .rejected ⟨edge.rowKey, "InvalidTypeTriple", error.text⟩
        | .ok _ => .fine

/-- An edge names exactly one target. -/
def preflightEdge (ontology : EffectiveOntology) (types : List (String × UInt8))
    (lookupType : String → Option UInt8) (edge : PreflightEdgeHint) : EdgeVerdict :=
  let typeOf (key : String) := (types.find? (·.1 = key)).map (·.2)
  match typeOf edge.fromDraftKey with
  | none => .rejected ⟨edge.rowKey, "Unknown",
      "edge references unknown draft_key `" ++ edge.fromDraftKey ++ "`"⟩
  | some source =>
      if !edge.toDraftKey.isEmpty then
        if !edge.toMemoryId.isEmpty then
          .rejected ⟨edge.rowKey, "Unknown",
            "edge sets both to_draft_key and to_memory_id; exactly one is allowed"⟩
        else
          match typeOf edge.toDraftKey with
          | none => .rejected ⟨edge.rowKey, "Unknown",
              "edge references unknown draft_key `" ++ edge.toDraftKey ++ "`"⟩
          | some target => preflightKind ontology edge source target
      else if !edge.toMemoryId.isEmpty then
        if (MemoryId.parseHex edge.toMemoryId).isNone then
          .rejected ⟨edge.rowKey, "InvalidTypeTriple",
            "to_memory_id `" ++ edge.toMemoryId ++ "` is not a 32-hex memory id"⟩
        else
          match lookupType edge.toMemoryId with
          | none => .unverified ⟨edge.rowKey,
              "to_memory_id target not in local cache; the type triple is checked server-side"⟩
          | some target => preflightKind ontology edge source target
      else
        .rejected ⟨edge.rowKey, "Unknown", "edge has neither to_draft_key nor to_memory_id"⟩

def validateBatch (ontology : EffectiveOntology) (now : DateTime)
    (memories : List PreflightMemoryDraft) (edges : List PreflightEdgeHint)
    (lookupType : String → Option UInt8) : PreflightResult :=
  if memories.isEmpty ∨ 5 < memories.length then
    { wouldAccept := 0
      wouldReject := memories.length + edges.length
      rejections := [⟨"*", "Unknown", "memories: expected 1..=5, got " ++ toString memories.length⟩]
      unverified := [] }
  else
    let drafts := memories.map (preflightDraft ontology now)
    let types := drafts.filterMap Except.toOption
    let verdicts := edges.map (preflightEdge ontology types lookupType)
    let rejections := drafts.filterMap refused ++ verdicts.filterMap EdgeVerdict.rejection
    { wouldAccept := memories.length + edges.length -
        min rejections.length (memories.length + edges.length)
      wouldReject := rejections.length
      rejections := rejections
      unverified := verdicts.filterMap EdgeVerdict.check }

/-! ## The online path -/

/-- A client that is connected to a server. Types of older memories come from its cache. -/
structure EndSessionTool where
  orgId : String
  fingerprint : Bytes 32
  nodeId : String
  agentId : String
  ontology : EffectiveOntology
  lookupType : String → Option UInt8

/-- A batch that the client's own check refused, or the batch it submits. -/
inductive EndSessionOutcome where
  | refused (result : PreflightResult)
  | submits (batch : WireBatch) (unverified : List UnverifiedCheck)

/-- The visibility of the last draft under a key, for an edge that may be wider than it. -/
def draftVisibility (memories : List PreflightMemoryDraft) (key : String) : ℤ :=
  match memories.reverse.find? (·.draftKey = key) with
  | none => 1
  | some draft => (parseVisibility draft.visibility).elim 3 fun visibility => visibility.rank

/-- An edge on the wire; where the target is an older memory, the server narrows it. -/
def wireEdge (memories : List PreflightMemoryDraft) (edge : PreflightEdgeHint) : WireRel where
  fromDraftKey := edge.fromDraftKey
  toDraftKey := edge.toDraftKey
  kind := edge.kind
  strength := edge.strength
  confidence := defaultConfidence
  context := ""
  visibility :=
    if edge.toDraftKey.isEmpty then min (draftVisibility memories edge.fromDraftKey) 3
    else min (draftVisibility memories edge.fromDraftKey) (draftVisibility memories edge.toDraftKey)
  toMemoryId := edge.toMemoryId

def wireDraft (now : DateTime) (draft : PreflightMemoryDraft) (id : MemoryId) :
    Except ToolError WireDraft :=
  match parseVisibility draft.visibility with
  | none => .error ⟨"invalid-params", "unknown visibility"⟩
  | some visibility => .ok
      { draftKey := draft.draftKey
        id := id.toHex
        memoryType := draft.memoryType
        title := draft.title
        content := draft.content
        tags := draft.tags
        visibility := visibility.rank
        validFrom := some now }

/-- `handle`, up to the batch that it submits. -/
def EndSessionTool.handle (tool : EndSessionTool) (blake3 : List UInt8 → Bytes 32)
    (now : DateTime) (mint : ℕ → MemoryId) (args : EndSessionArgs) :
    Except ToolError EndSessionOutcome := do
  let sessionId := args.sessionId.getD ""
  if sessionId.isEmpty then
    throw ⟨"invalid-params",
      "session_id: the MCP layer must stamp the client-minted conversation id (§4.8)"⟩
  if 64 < args.edges.length then
    throw ⟨"invalid-params", "edges: at most 64 relationships per request"⟩
  args.memories.forM fun memory =>
    (validateMemoryFields memory.content memory.tags).mapError (ToolError.mk "invalid-params")
  let result := validateBatch tool.ontology now args.memories args.edges tool.lookupType
  if !result.rejections.isEmpty then return .refused result
  let memories ← args.memories.zipIdx.mapM fun row => wireDraft now row.1 (mint row.2)
  let relationships := args.edges.map (wireEdge args.memories)
  let batch : WireBatch :=
    { orgId := tool.orgId
      sourceUri := "session://" ++ sessionId
      producerId := "session-wrapup"
      batchId := contentBatchId blake3 sessionId (memories.map (·.batchIdDraft))
        (relationships.map (·.batchIdEdge))
      mappingVersion := "session-wrapup:1.0.0"
      ontologyFingerprint := tool.fingerprint
      ceiling := 3
      observedAt := some now
      recordedAt := some now
      memories := memories
      relationships := relationships
      producer := ⟨tool.nodeId, tool.agentId, some ⟨args.projectId, args.teamId.getD ""⟩⟩ }
  return .submits batch result.unverified

/-! ## The offline path -/

/-- A client without a server: its partition, who is asking, and the lower case of the
language. -/
structure OfflineClient where
  org : String
  orgId : String
  userId : String
  lowercase : String → String

/-- The context of an offline draft; an empty project or team is none. -/
def OfflineClient.context (client : OfflineClient) (now : DateTime) (sessionId : String)
    (args : EndSessionArgs) : DraftContext :=
  { DraftContext.blank now with
    projectId := if args.projectId.isEmpty then none else some args.projectId
    teamId := args.teamId.filter (!·.isEmpty)
    tenantId := some client.orgId
    sessionId := some sessionId
    userId := some client.userId }

/-- A draft of the log, without its edges. -/
def offlineDraft (ontology : EffectiveOntology) (lowercase : String → String)
    (context : DraftContext) (draft : PreflightMemoryDraft) : Except ToolError MemoryDraft :=
  match ontology.memoryTypeId draft.memoryType with
  | none => .error ⟨"unknown-memory-type", "unknown memory type `" ++ draft.memoryType ++ "`"⟩
  | some memoryType =>
      match parseVisibility draft.visibility with
      | none => .error ⟨"invalid-params",
          "unknown visibility `" ++ lowercase draft.visibility ++ "`"⟩
      | some visibility =>
          let probe : MemoryDraft :=
            ⟨memoryType, draft.title, draft.content, none, visibility, context, [], none⟩
          match validateDraft ontology probe "offline-wal" .org with
          | .error error => .error ⟨"validation", error.text⟩
          | .ok _ => .ok probe

/-- The target of an edge: an older memory, or the first draft under the key. -/
def offlineTarget (mint : ℕ → MemoryId) (keys : List String) (edge : PreflightEdgeHint) :
    Except ToolError MemoryId :=
  if !edge.toMemoryId.isEmpty then
    match MemoryId.parseHex edge.toMemoryId with
    | none => .error ⟨"invalid-params",
        "to_memory_id `" ++ edge.toMemoryId ++ "` is not a 32-hex memory id"⟩
    | some id => .ok id
  else
    match keys.idxOf? edge.toDraftKey with
    | none => .error ⟨"invalid-params",
        "edge references unknown draft_key `" ++ edge.toDraftKey ++ "`"⟩
    | some index => .ok (mint index)

/-- An edge, with the place of the draft it starts at. -/
def offlineEdge (ontology : EffectiveOntology) (mint : ℕ → MemoryId) (keys : List String)
    (edge : PreflightEdgeHint) : Except ToolError (ℕ × EdgeHint) :=
  match keys.idxOf? edge.fromDraftKey with
  | none => .error ⟨"invalid-params",
      "edge references unknown draft_key `" ++ edge.fromDraftKey ++ "`"⟩
  | some source => do
      let target ← offlineTarget mint keys edge
      match ontology.kindId edge.kind with
      | none => throw ⟨"unknown-kind", "unknown relationship kind `" ++ edge.kind ++ "`"⟩
      | some kind =>
          let strength := if edge.strength.eq .zero then none else some edge.strength
          return (source, ⟨kind, target, strength, none⟩)

/-- The drafts with their edges. -/
def attachHints (drafts : List MemoryDraft) (hints : List (ℕ × EdgeHint)) : List MemoryDraft :=
  drafts.mapIdx fun index draft =>
    { draft with edgeHints := (hints.filter (·.1 = index)).map (·.2) }

/-- The entry that `end_session_offline` writes. -/
def offlineEntry (ontology : EffectiveOntology) (client : OfflineClient)
    (blake3 : List UInt8 → Bytes 32) (now : DateTime) (mint : ℕ → MemoryId)
    (args : EndSessionArgs) : Except ToolError WalEntry := do
  let sessionId := args.sessionId.getD ""
  if sessionId.isEmpty then throw ⟨"invalid-params", "session_id required"⟩
  if args.memories.isEmpty ∨ 5 < args.memories.length then
    throw ⟨"invalid-params", "memories: expected 1..=5"⟩
  let keys := args.memories.map (·.draftKey)
  let drafts ← args.memories.mapM (offlineDraft ontology client.lowercase
    (client.context now sessionId args))
  let hints ← args.edges.mapM (offlineEdge ontology mint keys)
  return {
    localLsn := 0
    sessionId := sessionId
    memories := attachHints drafts hints
    memoryIds := (List.range args.memories.length).map mint
    state := .pending
    batchId := contentBatchId blake3 sessionId (args.memories.map (·.batchIdDraft))
      (args.edges.map (·.batchIdEdge))
    draftKeys := keys
    org := client.org
    user := client.userId
    tags := args.memories.map (·.tags) }

/-- The error of the log as the caller sees it. -/
def WalError.text : WalError → String
  | .io text => "wal io: " ++ text
  | .corrupt localLsn detail =>
      "wal record " ++ toString localLsn ++ " is corrupt or incompatible: " ++ detail
  | .full used budget =>
      "wal full: " ++ toString used ++ " bytes used of " ++ toString budget ++ " budget"

/-- The entry is written, and read again before the answer; a row that cannot be read stays. -/
def endSessionOffline (ontology : EffectiveOntology) (client : OfflineClient)
    (blake3 : List UInt8 → Bytes 32) (jsonLen : WalEntry → ℕ) (now : DateTime)
    (mint : ℕ → MemoryId) (wal : Wal) (args : EndSessionArgs) : Except ToolError ℕ × Wal :=
  match offlineEntry ontology client blake3 now mint args with
  | .error error => (.error error, wal)
  | .ok entry =>
      match wal.appendBatchFullIdempotent jsonLen entry with
      | .error error => (.error ⟨"wal-error", error.text⟩, wal)
      | .ok (localLsn, written) =>
          match written.entry jsonLen localLsn with
          | .error error => (.error ⟨"wal-corrupt", error.text⟩, written)
          | .ok _ => (.ok localLsn, written)

/-! ## The batch of a drain -/

/-- A draft of the log on the wire. -/
def rebuildDraft (ontology : EffectiveOntology) (entry : WalEntry) (index : ℕ)
    (draft : MemoryDraft) : Except String WireDraft :=
  match ontology.memoryTypeNames[draft.memoryType.toNat]?, entry.draftKeys[index]?,
      entry.memoryIds[index]? with
  | none, _, _ =>
      .error ("memory type id " ++ toString draft.memoryType.toNat ++ " no longer resolves")
  | some label, some key, some id => .ok
      { draftKey := key
        id := id.toHex
        memoryType := label
        title := draft.title
        content := draft.content
        tags := (entry.tags[index]?).getD []
        visibility := draft.visibility.rank
        validFrom := none }
  | some _, _, _ => .error "index out of bounds"

/-- An edge of the log on the wire. One whose target is not in the entry is passed over. -/
def rebuildRel (ontology : EffectiveOntology) (entry : WalEntry) (index : ℕ)
    (draft : MemoryDraft) (hint : EdgeHint) : Except String (Option WireRel) :=
  match entry.memoryIds.idxOf? hint.target with
  | none => .ok none
  | some position =>
      match ontology.kindMeta hint.kind with
      | none => .error ("kind id RelKindId(" ++ toString hint.kind.raw.toNat ++
          ") no longer resolves")
      | some row =>
          match entry.draftKeys[index]?, entry.draftKeys[position]?, entry.memories[position]? with
          | some sourceKey, some targetKey, some target => .ok (some
              { fromDraftKey := sourceKey
                toDraftKey := targetKey
                kind := row.displayName
                strength := hint.strength.getD .zero
                confidence := hint.confidence.getD defaultConfidence
                context := ""
                visibility := (relationshipVisibility draft.visibility target.visibility).rank
                toMemoryId := "" })
          | _, _, _ => .error "index out of bounds"

def rebuildBatch (ontology : EffectiveOntology) (blake3 : List UInt8 → Bytes 32)
    (fingerprint : Bytes 32) (orgId : String) (entry : WalEntry) : Except String WireBatch := do
  if entry.draftKeys.length ≠ entry.memories.length then
    throw ("entry " ++ toString entry.localLsn ++ " carries " ++
      toString entry.draftKeys.length ++ " draft keys for " ++
      toString entry.memories.length ++ " memories")
  let drafts ← entry.memories.zipIdx.mapM fun row => rebuildDraft ontology entry row.2 row.1
  let rels ← entry.memories.zipIdx.mapM fun row =>
    row.1.edgeHints.mapM (rebuildRel ontology entry row.2 row.1)
  let rels := rels.flatten.reduceOption
  let batchId :=
    if entry.batchId.isEmpty then
      contentBatchId blake3 entry.sessionId (drafts.map (·.batchIdDraft)) (rels.map (·.batchIdEdge))
    else entry.batchId
  return {
    orgId := orgId
    sourceUri := "session://" ++ entry.sessionId
    producerId := "session-wrapup"
    batchId := batchId
    mappingVersion := "session-wrapup:1.0.0"
    ontologyFingerprint := fingerprint
    ceiling := 3
    observedAt := none
    recordedAt := none
    memories := drafts
    relationships := rels
    producer := ⟨"", "", none⟩ }

/-! ## What is captured -/

/-- The target of an edge on the wire. -/
inductive EdgeTarget where
  | draft (key : String)
  | memory (id : String)
deriving DecidableEq

/-- A float as a number: the two zeros are one. -/
def F32.number (x : F32) : F32 := if x.isZero then .zero else x

/-- What a draft on the wire says. -/
def WireDraft.captured (draft : WireDraft) : BatchIdDraft := draft.batchIdDraft

/-- What an edge on the wire says. -/
structure CapturedEdge where
  source : String
  target : EdgeTarget
  kind : String
  strength : F32
deriving DecidableEq

def WireRel.captured (rel : WireRel) : CapturedEdge where
  source := rel.fromDraftKey
  target := if rel.toMemoryId.isEmpty then .draft rel.toDraftKey else .memory rel.toMemoryId
  kind := rel.kind
  strength := rel.strength.number

/-- The project and the team that a batch asks for, as the server reads them. -/
def WireBatch.scope (batch : WireBatch) : Option String × Option String :=
  ((batch.producer.clientMetadata.map (·.projectId)).filter (!·.isEmpty),
    (batch.producer.clientMetadata.map (·.teamId)).filter (!·.isEmpty))

/-- Two batches capture the same session. -/
structure SameCapture (online drained : WireBatch) : Prop where
  batchId : drained.batchId = online.batchId
  drafts : drained.memories.map WireDraft.captured = online.memories.map WireDraft.captured
  edges : (drained.relationships.map WireRel.captured).Perm
    (online.relationships.map WireRel.captured)
  scope : drained.scope = online.scope

/-- Nothing is handed in that a drain loses: no project and no team, only edges within the
batch whose strength is a number, and types among the first 256. -/
structure Survives (ontology : EffectiveOntology) (args : EndSessionArgs) : Prop where
  project : args.projectId = ""
  team : args.teamId.getD "" = ""
  within : ∀ edge ∈ args.edges, edge.toMemoryId = ""
  finite : ∀ edge ∈ args.edges, edge.strength.isFinite = true
  numbered : ∀ draft ∈ args.memories, ontology.memoryTypeNames.idxOf draft.memoryType < 256

/-! ## The entry, written out -/

variable {draft : PreflightMemoryDraft} {edge : PreflightEdgeHint} {index : ℕ}
  {batch drained : WireBatch}

section Entry

variable (ontology : EffectiveOntology) (mint : ℕ → MemoryId) (keys : List String)

/-- A draft that the offline path let through. -/
def plainDraft (context : DraftContext) (draft : PreflightMemoryDraft) : MemoryDraft :=
  ⟨(ontology.memoryTypeId draft.memoryType).getD 0, draft.title, draft.content, none,
    (parseVisibility draft.visibility).getD .private, context, [], none⟩

/-- An edge that the offline path let through. -/
def plainHint (edge : PreflightEdgeHint) : ℕ × EdgeHint :=
  (keys.idxOf edge.fromDraftKey,
    ⟨(ontology.kindId edge.kind).getD ⟨0⟩,
      if edge.toMemoryId.isEmpty then mint (keys.idxOf edge.toDraftKey)
      else (MemoryId.parseHex edge.toMemoryId).getD (mint 0),
      if edge.strength.eq .zero then none else some edge.strength, none⟩)

variable {ontology mint keys}

theorem offlineDraft_ok {lowercase : String → String} {context : DraftContext}
    {stored : MemoryDraft} (accepted : offlineDraft ontology lowercase context draft = .ok stored) :
    (ontology.memoryTypeId draft.memoryType).isSome = true ∧
      (parseVisibility draft.visibility).isSome = true ∧
      validateFields stored "offline-wal" .org = .ok () ∧
      stored = plainDraft ontology context draft := by
  simp only [offlineDraft] at accepted
  split at accepted
  · cases accepted
  · next number known =>
      split at accepted
      · cases accepted
      · next visibility labelled =>
          split at accepted
          · cases accepted
          · next valid =>
              cases accepted
              refine ⟨by rw [known]; rfl, by rw [labelled]; rfl,
                (validateDraft_ok_iff.mp valid).1, ?_⟩
              simp only [plainDraft, known, labelled, Option.getD_some]

theorem idxOf?_of_eq_some {names : List String} {name : String}
    (found : names.idxOf? name = some index) :
    names.idxOf name = index ∧ names[index]? = some name := by
  refine ⟨?_, EffectiveOntology.idxOf?_eq_some found⟩
  rw [List.idxOf_eq_getD_idxOf?, found, Option.getD_some]

theorem offlineEdge_ok {hint : ℕ × EdgeHint}
    (accepted : offlineEdge ontology mint keys edge = .ok hint) :
    keys[keys.idxOf edge.fromDraftKey]? = some edge.fromDraftKey ∧
      (edge.toMemoryId.isEmpty = true →
        keys[keys.idxOf edge.toDraftKey]? = some edge.toDraftKey) ∧
      (ontology.kindId edge.kind).isSome = true ∧
      hint = plainHint ontology mint keys edge := by
  rw [offlineEdge] at accepted
  split at accepted
  · cases accepted
  · next source found =>
      obtain ⟨place, key⟩ := idxOf?_of_eq_some found
      cases aimed : offlineTarget mint keys edge with
      | error error =>
          rw [aimed] at accepted
          cases accepted
      | ok target =>
          rw [aimed] at accepted
          simp only [bind, Except.bind] at accepted
          split at accepted
          · cases accepted
          · next kind known =>
              cases accepted
              rw [offlineTarget] at aimed
              refine ⟨place ▸ key, ?_, by rw [known]; rfl, ?_⟩
              · intro inBatch
                rw [inBatch] at aimed
                simp only [Bool.not_true, Bool.false_eq_true, if_false] at aimed
                split at aimed
                · cases aimed
                · next index there =>
                    obtain ⟨same, key⟩ := idxOf?_of_eq_some there
                    exact same ▸ key
              · split at aimed
                · next older =>
                    split at aimed
                    · cases aimed
                    · next id parsed =>
                        cases aimed
                        simp only [Bool.not_eq_true', ] at older
                        simp [plainHint, place, known, older, parsed]
                · next inBatch =>
                    split at aimed
                    · cases aimed
                    · next index there =>
                        cases aimed
                        simp only [Bool.not_eq_true', Bool.not_eq_false] at inBatch
                        simp [plainHint, place, known, inBatch, (idxOf?_of_eq_some there).1]

end Entry

section Capture

variable {ontology : EffectiveOntology} {client : OfflineClient} {blake3 : List UInt8 → Bytes 32}
  {now : DateTime} {mint : ℕ → MemoryId} {args : EndSessionArgs} {entry : WalEntry}

/-- The keys of the drafts that were handed in. -/
def EndSessionArgs.keys (args : EndSessionArgs) : List String := args.memories.map (·.draftKey)

/-- What the offline path checked. -/
structure OfflineAccepts (ontology : EffectiveOntology) (context : DraftContext)
    (args : EndSessionArgs) : Prop where
  types : ∀ draft ∈ args.memories, (ontology.memoryTypeId draft.memoryType).isSome = true
  labels : ∀ draft ∈ args.memories, (parseVisibility draft.visibility).isSome = true
  fields : ∀ draft ∈ args.memories,
    validateFields (plainDraft ontology context draft) "offline-wal" .org = .ok ()
  sources : ∀ edge ∈ args.edges,
    args.keys[args.keys.idxOf edge.fromDraftKey]? = some edge.fromDraftKey
  targets : ∀ edge ∈ args.edges, edge.toMemoryId.isEmpty = true →
    args.keys[args.keys.idxOf edge.toDraftKey]? = some edge.toDraftKey
  kinds : ∀ edge ∈ args.edges, (ontology.kindId edge.kind).isSome = true

/-- The entry of a request that the offline path let through. -/
def plainEntry (ontology : EffectiveOntology) (client : OfflineClient)
    (blake3 : List UInt8 → Bytes 32) (now : DateTime) (mint : ℕ → MemoryId)
    (args : EndSessionArgs) : WalEntry where
  localLsn := 0
  sessionId := args.sessionId.getD ""
  memories := attachHints
    (args.memories.map (plainDraft ontology (client.context now (args.sessionId.getD "") args)))
    (args.edges.map (plainHint ontology mint args.keys))
  memoryIds := (List.range args.memories.length).map mint
  state := .pending
  batchId := contentBatchId blake3 (args.sessionId.getD "") (args.memories.map (·.batchIdDraft))
    (args.edges.map (·.batchIdEdge))
  draftKeys := args.keys
  org := client.org
  user := client.userId
  tags := args.memories.map (·.tags)

/-- What the offline path writes, and what it checked before. -/
theorem offlineEntry_ok
    (accepted : offlineEntry ontology client blake3 now mint args = .ok entry) :
    entry = plainEntry ontology client blake3 now mint args ∧
      OfflineAccepts ontology (client.context now (args.sessionId.getD "") args) args := by
  simp only [offlineEntry, bind, Except.bind] at accepted
  split at accepted
  · cases accepted
  · split at accepted
    · cases accepted
    · split at accepted
      · cases accepted
      · next drafts draftsOk =>
          split at accepted
          · cases accepted
          · next hints hintsOk =>
              cases accepted
              have stored : drafts = args.memories.map (plainDraft ontology
                  (client.context now (args.sessionId.getD "") args)) :=
                mapM_ok_eq_map draftsOk fun draft _ stored ok => (offlineDraft_ok ok).2.2.2
              have resolved : hints = args.edges.map (plainHint ontology mint args.keys) :=
                mapM_ok_eq_map hintsOk fun edge _ hint ok => (offlineEdge_ok ok).2.2.2
              refine ⟨by rw [stored, resolved]; rfl, ?_, ?_, ?_, ?_, ?_, ?_⟩
              · intro draft member
                obtain ⟨_, _, ok⟩ := mapM_ok_mem draftsOk member
                exact (offlineDraft_ok ok).1
              · intro draft member
                obtain ⟨_, _, ok⟩ := mapM_ok_mem draftsOk member
                exact (offlineDraft_ok ok).2.1
              · intro draft member
                obtain ⟨_, _, ok⟩ := mapM_ok_mem draftsOk member
                exact (offlineDraft_ok ok).2.2.2 ▸ (offlineDraft_ok ok).2.2.1
              · intro edge member
                obtain ⟨_, _, ok⟩ := mapM_ok_mem hintsOk member
                exact (offlineEdge_ok ok).1
              · intro edge member
                obtain ⟨_, _, ok⟩ := mapM_ok_mem hintsOk member
                exact (offlineEdge_ok ok).2.1
              · intro edge member
                obtain ⟨_, _, ok⟩ := mapM_ok_mem hintsOk member
                exact (offlineEdge_ok ok).2.2.1

/-! ## What a drain makes of an entry -/

/-- Every edge of a drained batch aims at a draft, with the strength that was stored. -/
theorem rebuildRel_ok {draft : MemoryDraft} {hint : EdgeHint} {rel : WireRel}
    (rebuilt : rebuildRel ontology entry index draft hint = .ok (some rel)) :
    rel.toMemoryId = "" ∧ rel.strength = hint.strength.getD .zero := by
  rw [rebuildRel] at rebuilt
  split at rebuilt
  · cases rebuilt
  · split at rebuilt
    · cases rebuilt
    · split at rebuilt
      · cases rebuilt
        exact ⟨rfl, rfl⟩
      · cases rebuilt

variable {fingerprint : Bytes 32} {orgId : String} {unverified : List UnverifiedCheck}
  {tool : EndSessionTool} {onlineMint : ℕ → MemoryId}

/-- What is known of any drained batch. -/
theorem rebuildBatch_ok
    (rebuilt : rebuildBatch ontology blake3 fingerprint orgId entry = .ok batch) :
    entry.memories.zipIdx.mapM (fun row => rebuildDraft ontology entry row.2 row.1) =
        .ok batch.memories ∧
      (∀ rel ∈ batch.relationships, ∃ draft ∈ entry.memories, ∃ hint ∈ draft.edgeHints,
        rel.toMemoryId = "" ∧ rel.strength = hint.strength.getD .zero) ∧
      batch.producer.clientMetadata = none := by
  simp only [rebuildBatch, bind, Except.bind] at rebuilt
  split at rebuilt
  · cases rebuilt
  · split at rebuilt
    · cases rebuilt
    · next drafts draftsOk =>
        split at rebuilt
        · cases rebuilt
        · next rels relsOk =>
            cases rebuilt
            refine ⟨draftsOk, ?_, rfl⟩
            intro rel member
            obtain ⟨row, listed, found⟩ := List.mem_flatten.mp (List.reduceOption_mem_iff.mp member)
            obtain ⟨⟨draft, index⟩, place, hintsOk⟩ := mapM_ok_result relsOk listed
            obtain ⟨hint, hinted, ok⟩ := mapM_ok_result hintsOk found
            exact ⟨draft, List.fst_mem_of_mem_zipIdx place, hint, hinted, rebuildRel_ok ok⟩

/-- The draft at a place of the entry, as it is read from the log. -/
def storedDraft (ontology : EffectiveOntology) (context : DraftContext) (mint : ℕ → MemoryId)
    (args : EndSessionArgs) (index : ℕ) (draft : PreflightMemoryDraft) : MemoryDraft :=
  { plainDraft ontology context draft with
    edgeHints := (args.edges.filter (args.keys.idxOf ·.fromDraftKey = index)).map fun edge =>
      (plainHint ontology mint args.keys edge).2.readBack }

theorem zipIdx_memories_readBack :
    (plainEntry ontology client blake3 now mint args).readBack.memories.zipIdx =
      args.memories.zipIdx.map fun row => (storedDraft ontology
        (client.context now (args.sessionId.getD "") args) mint args row.2 row.1, row.2) := by
  apply List.ext_getElem?
  intro index
  simp only [plainEntry, WalEntry.readBack, attachHints, List.getElem?_zipIdx, List.getElem?_map,
    List.getElem?_mapIdx]
  cases args.memories[index]? with
  | none => rfl
  | some draft =>
      simp only [Option.map_some, Nat.zero_add]
      simp [MemoryDraft.readBack, storedDraft, List.filter_map, Function.comp_def, plainHint]

/-- The name that the type of a draft is read back as. -/
def drainedType (ontology : EffectiveOntology) (draft : PreflightMemoryDraft) : String :=
  (ontology.memoryTypeNames[((ontology.memoryTypeId draft.memoryType).getD 0).toNat]?).getD ""

theorem drainedType_some (known : (ontology.memoryTypeId draft.memoryType).isSome = true) :
    ontology.memoryTypeNames[((ontology.memoryTypeId draft.memoryType).getD 0).toNat]? =
      some (drainedType ontology draft) := by
  obtain ⟨number, found⟩ := Option.isSome_iff_exists.mp known
  obtain ⟨index, place, rfl⟩ := Option.map_eq_some_iff.mp found
  have within := (List.getElem?_eq_some_iff.mp (EffectiveOntology.idxOf?_eq_some place)).1
  have smaller : index % 2 ^ 8 < ontology.memoryTypeNames.length :=
    (Nat.mod_le _ _).trans_lt within
  rw [drainedType, found, Option.getD_some, UInt8.toNat_ofNat', List.getElem?_eq_getElem smaller]
  rfl

/-- The type survives exactly when it is among the first 256. -/
theorem drainedType_eq_iff (known : (ontology.memoryTypeId draft.memoryType).isSome = true) :
    drainedType ontology draft = draft.memoryType ↔
      ontology.memoryTypeNames.idxOf draft.memoryType < 256 := by
  obtain ⟨number, found⟩ := Option.isSome_iff_exists.mp known
  rw [← ontology.memoryTypeNames_memoryTypeId found]
  have read := drainedType_some known
  rw [found, Option.getD_some] at read
  rw [read]
  exact Option.some_inj.symm

/-- A draft of the drained batch. -/
def drainedDraft (ontology : EffectiveOntology) (mint : ℕ → MemoryId)
    (draft : PreflightMemoryDraft) (index : ℕ) : WireDraft where
  draftKey := draft.draftKey
  id := (mint index).toHex
  memoryType := drainedType ontology draft
  title := draft.title
  content := draft.content
  tags := draft.tags
  visibility := ((parseVisibility draft.visibility).getD .private).rank
  validFrom := none

theorem rebuildDraft_stored {context : DraftContext} (place : args.memories[index]? = some draft)
    (known : (ontology.memoryTypeId draft.memoryType).isSome = true) :
    rebuildDraft ontology (plainEntry ontology client blake3 now mint args).readBack index
      (storedDraft ontology context mint args index draft) =
        .ok (drainedDraft ontology mint draft index) := by
  have within := (List.getElem?_eq_some_iff.mp place).1
  have type := drainedType_some known
  have key : args.keys[index]? = some draft.draftKey := by
    rw [EndSessionArgs.keys, List.getElem?_map, place, Option.map_some]
  have id : ((List.range args.memories.length).map mint)[index]? = some (mint index) := by
    rw [List.getElem?_map, List.getElem?_range within, Option.map_some]
  have tags : (args.memories.map (·.tags))[index]? = some draft.tags := by
    rw [List.getElem?_map, place, Option.map_some]
  simp only [rebuildDraft, plainEntry, WalEntry.readBack, storedDraft, plainDraft, type, key, id,
    tags, drainedDraft, Option.getD_some]

/-- The drafts of the drained batch. -/
theorem rebuildDrafts_stored
    (accepts : OfflineAccepts ontology (client.context now (args.sessionId.getD "") args) args) :
    (plainEntry ontology client blake3 now mint args).readBack.memories.zipIdx.mapM
        (fun row => rebuildDraft ontology (plainEntry ontology client blake3 now mint args).readBack
          row.2 row.1) =
      .ok (args.memories.zipIdx.map fun row => drainedDraft ontology mint row.1 row.2) := by
  rw [zipIdx_memories_readBack, List.mapM_map]
  apply mapM_eq_ok_map
  rintro ⟨draft, index⟩ member
  have place : args.memories[index]? = some draft := List.mem_zipIdx_iff_getElem?.mp member
  exact rebuildDraft_stored place (accepts.types draft (List.mem_of_getElem? place))

/-- The visibility of the draft at a place. -/
def EndSessionArgs.visibilityAt (args : EndSessionArgs) (index : ℕ) : Visibility :=
  ((args.memories[index]?).bind fun draft => parseVisibility draft.visibility).getD .private

/-- An edge of the drained batch. -/
def drainedRel (args : EndSessionArgs) (edge : PreflightEdgeHint) : WireRel where
  fromDraftKey := edge.fromDraftKey
  toDraftKey := edge.toDraftKey
  kind := edge.kind
  strength := ((if edge.strength.eq .zero then none else some edge.strength).filter
    (·.isFinite)).getD .zero
  confidence := defaultConfidence
  context := ""
  visibility := (relationshipVisibility (args.visibilityAt (args.keys.idxOf edge.fromDraftKey))
    (args.visibilityAt (args.keys.idxOf edge.toDraftKey))).rank
  toMemoryId := ""

/-- Identities that were minted apart are found at their places. -/
theorem idxOf?_minted {count : ℕ} (within : index < count)
    (apart : ∀ i < count, ∀ j < count, mint i = mint j → i = j) :
    ((List.range count).map mint).idxOf? (mint index) = some index := by
  refine List.findIdx?_eq_some_iff_getElem.mpr ⟨by simpa using within, by simp, ?_⟩
  intro other smaller
  simp only [List.getElem_map, List.getElem_range, beq_iff_eq]
  intro same
  have equal := apart other (smaller.trans within) index within same
  omega

theorem rebuildRel_stored {context : DraftContext}
    (accepts : OfflineAccepts ontology context args)
    (apart : ∀ i < args.memories.length, ∀ j < args.memories.length, mint i = mint j → i = j)
    (member : edge ∈ args.edges) (inBatch : edge.toMemoryId = "")
    (place : args.memories[args.keys.idxOf edge.fromDraftKey]? = some draft) :
    rebuildRel ontology (plainEntry ontology client blake3 now mint args).readBack
      (args.keys.idxOf edge.fromDraftKey)
      (storedDraft ontology context mint args (args.keys.idxOf edge.fromDraftKey) draft)
      (plainHint ontology mint args.keys edge).2.readBack = .ok (some (drainedRel args edge)) := by
  have empty : edge.toMemoryId.isEmpty = true := by simp [inBatch]
  have sourceKey := accepts.sources edge member
  have targetKey := accepts.targets edge member empty
  have within : args.keys.idxOf edge.toDraftKey < args.memories.length := by
    have bound := (List.getElem?_eq_some_iff.mp targetKey).1
    simpa [EndSessionArgs.keys] using bound
  obtain ⟨target, aimed⟩ : ∃ target,
      args.memories[args.keys.idxOf edge.toDraftKey]? = some target :=
    ⟨_, List.getElem?_eq_getElem within⟩
  obtain ⟨kind, known⟩ := Option.isSome_iff_exists.mp (accepts.kinds edge member)
  obtain ⟨row, found, named⟩ := Option.map_eq_some_iff.mp (ontology.kindMeta_kindId known)
  have stored : ((plainEntry ontology client blake3 now mint args).readBack.memories[
      args.keys.idxOf edge.toDraftKey]?).map (·.visibility) =
        some (args.visibilityAt (args.keys.idxOf edge.toDraftKey)) := by
    simp [plainEntry, WalEntry.readBack, attachHints, List.getElem?_map, List.getElem?_mapIdx,
      aimed, MemoryDraft.readBack, plainDraft, EndSessionArgs.visibilityAt]
  obtain ⟨targetDraft, there, visible⟩ := Option.map_eq_some_iff.mp stored
  have position := idxOf?_minted within apart
  have sourceVisible : (storedDraft ontology context mint args
      (args.keys.idxOf edge.fromDraftKey) draft).visibility =
        args.visibilityAt (args.keys.idxOf edge.fromDraftKey) := by
    simp [storedDraft, plainDraft, EndSessionArgs.visibilityAt, place]
  have ids : (plainEntry ontology client blake3 now mint args).readBack.memoryIds =
      (List.range args.memories.length).map mint := rfl
  have keys : (plainEntry ontology client blake3 now mint args).readBack.draftKeys =
    args.keys := rfl
  rw [rebuildRel, ids]
  simp only [plainHint, EdgeHint.readBack, empty, if_true, known, Option.getD_some, position, found,
    keys, sourceKey, targetKey, there, visible, sourceVisible, named, drainedRel,
    Option.filter_none,
    Option.getD_none]

/-- The edges of the drained batch, draft by draft. -/
theorem rebuildRels_stored
    (accepts : OfflineAccepts ontology (client.context now (args.sessionId.getD "") args) args)
    (apart : ∀ i < args.memories.length, ∀ j < args.memories.length, mint i = mint j → i = j)
    (inBatch : ∀ edge ∈ args.edges, edge.toMemoryId = "") :
    (plainEntry ontology client blake3 now mint args).readBack.memories.zipIdx.mapM
        (fun row => row.1.edgeHints.mapM (rebuildRel ontology
          (plainEntry ontology client blake3 now mint args).readBack row.2 row.1)) =
      .ok (args.memories.zipIdx.map fun row =>
        (args.edges.filter (args.keys.idxOf ·.fromDraftKey = row.2)).map
          fun edge => some (drainedRel args edge)) := by
  rw [zipIdx_memories_readBack, List.mapM_map]
  apply mapM_eq_ok_map
  rintro ⟨draft, index⟩ member
  have place : args.memories[index]? = some draft := List.mem_zipIdx_iff_getElem?.mp member
  have hints : (storedDraft ontology (client.context now (args.sessionId.getD "") args) mint args
      index draft).edgeHints = (args.edges.filter (args.keys.idxOf ·.fromDraftKey = index)).map
        fun edge => (plainHint ontology mint args.keys edge).2.readBack := rfl
  rw [Function.comp_apply, hints, List.mapM_map]
  apply mapM_eq_ok_map
  intro edge listed
  obtain ⟨requested, source⟩ := List.mem_filter.mp listed
  have same : args.keys.idxOf edge.fromDraftKey = index := of_decide_eq_true source
  subst same
  exact rebuildRel_stored accepts apart requested (inBatch edge requested) place

theorem drainedRels_perm {context : DraftContext} (accepts : OfflineAccepts ontology context args) :
    (args.memories.zipIdx.map fun row =>
      (args.edges.filter (args.keys.idxOf ·.fromDraftKey = row.2)).map
        fun edge => some (drainedRel args edge)).flatten.reduceOption.Perm
      (args.edges.map (drainedRel args)) := by
  have groups : (args.memories.zipIdx.map fun row =>
      (args.edges.filter (args.keys.idxOf ·.fromDraftKey = row.2)).map
        fun edge => some (drainedRel args edge)).flatten.reduceOption =
      ((List.range args.memories.length).flatMap fun index =>
        args.edges.filter (args.keys.idxOf ·.fromDraftKey = index)).map (drainedRel args) := by
    have places : args.memories.zipIdx.map (·.2) = List.range args.memories.length := by
      rw [List.zipIdx_map_snd, List.range_eq_range']
    rw [← places, List.flatMap_map]
    generalize args.memories.zipIdx = rows
    induction rows with
    | nil => rfl
    | cons row rows ih =>
        rw [List.map_cons, List.flatten_cons, List.reduceOption_append, ih, List.flatMap_cons,
          List.map_append]
        congr 1
        simp [List.reduceOption, List.filterMap_map]
  rw [groups]
  refine List.Perm.map _ (flatMap_filter_perm _ _ _ ?_)
  intro edge member
  have bound := (List.getElem?_eq_some_iff.mp (accepts.sources edge member)).1
  simpa [EndSessionArgs.keys] using bound

theorem hexByte_ne_empty (byte : UInt8) : Bytes.hexByte byte ≠ "" := by
  intro empty
  have length : (Bytes.hexByte byte).length = 0 := by rw [empty]; rfl
  rw [Bytes.hexByte] at length
  simp only [String.length_ofList] at length
  split at length
  · cases length
  · next wide =>
      rw [length] at wide
      exact wide (by decide)

/-- A digest is never the empty name, which stands for an entry without a batch. -/
theorem digestHex_ne_empty (digest : Bytes 32) : digest.digestHex.isEmpty = false := by
  obtain ⟨bytes, size⟩ := digest
  cases bytes with
  | nil => cases size
  | cons byte rest =>
      rw [Bool.eq_false_iff]
      intro empty
      have joined : Bytes.hexByte byte ++ String.join (rest.map Bytes.hexByte) = "" := by
        have whole := String.isEmpty_iff.mp empty
        rwa [Bytes.digestHex, List.map_cons, String.join_cons] at whole
      exact hexByte_ne_empty byte (String.append_eq_empty_iff.mp joined).1

theorem F32.isZero_of_eq_zero {x : F32} (equal : x.eq .zero = true) : x.isZero = true := by
  simp only [F32.eq, Bool.and_eq_true, Bool.or_eq_true] at equal
  rcases equal.2 with same | both
  · have bits : x.bits = F32.zero.bits := of_decide_eq_true same
    rw [F32.isZero, bits]
    decide
  · exact both.1

/-- An edge that stays within the batch, with a strength that is a number, is captured. -/
theorem captured_drainedRel (inBatch : edge.toMemoryId = "")
    (finite : edge.strength.isFinite = true) :
    (drainedRel args edge).captured = (wireEdge args.memories edge).captured := by
  have strength : (drainedRel args edge).strength.number = edge.strength.number := by
    by_cases zero : edge.strength.eq .zero = true
    · have lost : (drainedRel args edge).strength = .zero := by
        simp only [drainedRel, zero, if_true, Option.filter_none, Option.getD_none]
      rw [lost, F32.number, F32.number, if_pos (F32.isZero_of_eq_zero zero), ite_self]
    · have kept : (drainedRel args edge).strength = edge.strength := by
        rw [drainedRel, if_neg zero, Option.filter_some, if_pos finite, Option.getD_some]
      rw [kept]
  simp only [WireRel.captured, strength]
  simp [drainedRel, wireEdge, inBatch]

/-! ## The two batches compared -/

theorem captured_wireDraft {id : MemoryId} {wire : WireDraft}
    (accepted : wireDraft now draft id = .ok wire) : wire.captured = draft.batchIdDraft := by
  rw [wireDraft] at accepted
  split at accepted
  · cases accepted
  · next visibility labelled =>
      cases accepted
      simp only [WireDraft.captured, WireDraft.batchIdDraft, PreflightMemoryDraft.batchIdDraft,
        visibilityDiscriminant, labelled]

/-- The batch that the online path submits. -/
theorem handle_submits
    (submitted : tool.handle blake3 now mint args = .ok (.submits batch unverified)) :
    batch.batchId = contentBatchId blake3 (args.sessionId.getD "")
        (args.memories.map (·.batchIdDraft)) (args.edges.map (·.batchIdEdge)) ∧
      batch.memories.map WireDraft.captured = args.memories.map (·.batchIdDraft) ∧
      batch.relationships = args.edges.map (wireEdge args.memories) ∧
      batch.producer.clientMetadata = some ⟨args.projectId, args.teamId.getD ""⟩ := by
  simp only [EndSessionTool.handle, bind, Except.bind] at submitted
  split at submitted
  · cases submitted
  · split at submitted
    · cases submitted
    · split at submitted
      · cases submitted
      · split at submitted
        · cases submitted
        · split at submitted
          · cases submitted
          · next drafts draftsOk =>
              cases submitted
              have captured : drafts.map WireDraft.captured =
                  args.memories.map (·.batchIdDraft) := by
                rw [map_of_mapM_ok draftsOk fun row _ draft ok => captured_wireDraft ok,
                  ← Function.comp_def, ← List.map_map, List.zipIdx_map_fst]
              have named : (args.edges.map (wireEdge args.memories)).map WireRel.batchIdEdge =
                  args.edges.map PreflightEdgeHint.batchIdEdge := by
                rw [List.map_map]
                rfl
              refine ⟨?_, captured, rfl, rfl⟩
              simp only [named]
              congr 1

theorem F32.isFinite_of_isZero {x : F32} (zero : x.isZero = true) : x.isFinite = true := by
  rw [F32.isFinite, Bool.not_eq_true', decide_eq_false_iff_not]
  intro ones
  have low : (x.bits.extractLsb' 0 31).getLsbD 23 = false := by
    rw [of_decide_eq_true zero]
    rfl
  have high : (x.bits.extractLsb' 23 8).getLsbD 0 = true := by
    rw [ones]
    rfl
  simp only [BitVec.getLsbD_extractLsb'] at low high
  simp_all

theorem F32.isFinite_number (x : F32) : x.number.isFinite = x.isFinite := by
  rw [F32.number]
  split
  · next zero => rw [F32.isFinite_of_isZero zero]; decide
  · rfl

theorem EdgeHint.isFinite_readBack (hint : EdgeHint) :
    (hint.readBack.strength.getD .zero).isFinite = true := by
  have stored : hint.readBack.strength = hint.strength.filter (·.isFinite) := rfl
  rw [stored]
  cases kept : hint.strength.filter (·.isFinite) with
  | none => rfl
  | some strength => exact (Option.filter_eq_some_iff.mp kept).2

/-- A drain sees an entry apart from its number. -/
theorem rebuildBatch_renumbered {localLsn : ℕ} :
    rebuildBatch ontology blake3 fingerprint orgId { entry with localLsn := localLsn } =
        .ok drained ↔
      rebuildBatch ontology blake3 fingerprint orgId entry = .ok drained := by
  by_cases keyed : entry.draftKeys.length = entry.memories.length
  · simp only [rebuildBatch, keyed, ne_eq, not_true_eq_false, if_false]
    exact Iff.rfl
  · simp only [rebuildBatch, keyed, ne_eq, not_false_eq_true, if_true]
    constructor <;> intro rebuilt <;> cases rebuilt

/-- The drafts of a drained batch, as the wire has them. -/
theorem captured_rebuilt
    (accepts : OfflineAccepts ontology (client.context now (args.sessionId.getD "") args) args)
    (rebuilt : rebuildBatch ontology blake3 fingerprint orgId
      (plainEntry ontology client blake3 now mint args).readBack = .ok drained) :
    drained.memories.map WireDraft.captured = args.memories.map fun draft =>
      { draft.batchIdDraft with memoryType := drainedType ontology draft } := by
  have drafts := (rebuildBatch_ok rebuilt).1
  rw [rebuildDrafts_stored accepts] at drafts
  rw [← Except.ok.inj drafts, List.map_map]
  have first : args.memories.map (fun draft =>
      { draft.batchIdDraft with memoryType := drainedType ontology draft }) =
        args.memories.zipIdx.map fun row =>
          { row.1.batchIdDraft with memoryType := drainedType ontology row.1 } := by
    conv_lhs => rw [← List.zipIdx_map_fst 0 args.memories, List.map_map]
    rfl
  rw [first]
  apply List.map_congr_left
  rintro ⟨draft, index⟩ member
  obtain ⟨visibility, labelled⟩ := Option.isSome_iff_exists.mp
    (accepts.labels draft (List.fst_mem_of_mem_zipIdx member))
  simp only [Function.comp_apply, WireDraft.captured, WireDraft.batchIdDraft, drainedDraft,
    PreflightMemoryDraft.batchIdDraft, visibilityDiscriminant, labelled, Option.getD_some]

section Accepted

variable {onlineNow : DateTime}
  (submitted : tool.handle blake3 onlineNow onlineMint args = .ok (.submits batch unverified))
  (accepts : OfflineAccepts ontology (client.context now (args.sessionId.getD "") args) args)
include submitted accepts

theorem survives_of_sameCapture (rebuilt : rebuildBatch ontology blake3 fingerprint orgId
      (plainEntry ontology client blake3 now mint args).readBack = .ok drained)
    (same : SameCapture batch drained) : Survives ontology args := by
  obtain ⟨_, drafts, edges, metadata⟩ := handle_submits submitted
  obtain ⟨_, rels, unscoped⟩ := rebuildBatch_ok rebuilt
  have scope := same.scope
  simp only [WireBatch.scope, metadata, unscoped, Option.map_none, Option.filter_none,
    Option.map_some, Prod.mk.injEq] at scope
  -- Every edge of the request has a drained edge that says the same.
  have matched : ∀ edge ∈ args.edges, ∃ rel ∈ drained.relationships,
      rel.captured = (wireEdge args.memories edge).captured := by
    intro edge member
    have online : (wireEdge args.memories edge).captured ∈
        batch.relationships.map WireRel.captured := by
      rw [edges, List.map_map]
      exact List.mem_map_of_mem member
    exact List.mem_map.mp (same.edges.mem_iff.mpr online)
  refine ⟨?_, ?_, ?_, ?_, ?_⟩
  · simpa using scope.1.symm
  · simpa using scope.2.symm
  · intro edge member
    obtain ⟨rel, listed, agrees⟩ := matched edge member
    obtain ⟨_, _, _, _, inBatch, _⟩ := rels rel listed
    have target := congrArg CapturedEdge.target agrees
    by_contra older
    simp [WireRel.captured, wireEdge, inBatch, older] at target
  · intro edge member
    obtain ⟨rel, listed, agrees⟩ := matched edge member
    obtain ⟨draft, stored, hint, hinted, _, strength⟩ := rels rel listed
    have number : rel.strength.number = edge.strength.number :=
      congrArg CapturedEdge.strength agrees
    obtain ⟨written, _, rfl⟩ := List.mem_map.mp stored
    obtain ⟨original, _, rfl⟩ := List.mem_map.mp hinted
    rw [← F32.isFinite_number, ← number, F32.isFinite_number, strength]
    exact original.isFinite_readBack
  · intro draft member
    have types := same.drafts
    rw [drafts, captured_rebuilt accepts rebuilt] at types
    have type := List.map_inj_left.mp types draft member
    exact (drainedType_eq_iff (accepts.types draft member)).mp
      (congrArg BatchIdDraft.memoryType type)

/-- Where nothing is lost the drain makes a batch that says the same. -/
theorem sameCapture_of_survives
    (apart : ∀ i < args.memories.length, ∀ j < args.memories.length, mint i = mint j → i = j)
    (survives : Survives ontology args) :
    ∃ drained, rebuildBatch ontology blake3 fingerprint orgId
        (plainEntry ontology client blake3 now mint args).readBack = .ok drained ∧
      SameCapture batch drained := by
  obtain ⟨batchId, drafts, edges, metadata⟩ := handle_submits submitted
  have keyed : (plainEntry ontology client blake3 now mint args).readBack.draftKeys.length =
      (plainEntry ontology client blake3 now mint args).readBack.memories.length := by
    simp [plainEntry, WalEntry.readBack, attachHints, EndSessionArgs.keys]
  have named : (plainEntry ontology client blake3 now mint args).readBack.batchId.isEmpty = false :=
    digestHex_ne_empty _
  obtain ⟨drained, rebuilt, rels, name⟩ : ∃ drained,
      rebuildBatch ontology blake3 fingerprint orgId
        (plainEntry ontology client blake3 now mint args).readBack = .ok drained ∧
      drained.relationships.Perm (args.edges.map (drainedRel args)) ∧
      drained.batchId = (plainEntry ontology client blake3 now mint args).batchId := by
    rw [rebuildBatch]
    simp only [keyed, ne_eq, not_true_eq_false, if_false, rebuildDrafts_stored accepts,
      rebuildRels_stored accepts apart survives.within, bind, Except.bind]
    refine ⟨_, rfl, drainedRels_perm accepts, ?_⟩
    simp only [named]
    rfl
  refine ⟨drained, rebuilt, ⟨name.trans batchId.symm, ?_, ?_, ?_⟩⟩
  · rw [drafts, captured_rebuilt accepts rebuilt]
    apply List.map_congr_left
    intro draft member
    have type := (drainedType_eq_iff (accepts.types draft member)).mpr
      (survives.numbered draft member)
    rw [type]
    rfl
  · rw [edges, List.map_map]
    refine (rels.map _).trans (List.Perm.of_eq ?_)
    rw [List.map_map]
    apply List.map_congr_left
    intro edge member
    exact captured_drainedRel (survives.within edge member) (survives.finite edge member)
  · have unscoped := (rebuildBatch_ok rebuilt).2.2
    simp only [WireBatch.scope, metadata, unscoped, survives.project, survives.team]
    rfl

end Accepted

theorem endSessionOffline_stored {jsonLen : WalEntry → ℕ} {wal written : Wal} {localLsn : ℕ}
    (recorded : endSessionOffline ontology client blake3 jsonLen now mint wal args =
      (.ok localLsn, written))
    (wrote : written.rows ≠ wal.rows) :
    OfflineAccepts ontology (client.context now (args.sessionId.getD "") args) args ∧
      written.entry jsonLen localLsn = .ok (some
        { (plainEntry ontology client blake3 now mint args).readBack
          with localLsn := localLsn }) := by
  rw [endSessionOffline] at recorded
  split at recorded
  · cases recorded
  · next entry accepted =>
      obtain ⟨rfl, accepts⟩ := offlineEntry_ok accepted
      split at recorded
      · cases recorded
      · next next appendedWal appended =>
          split at recorded
          · cases recorded
          · next found read =>
              cases recorded
              rcases Wal.appendBatchFullIdempotent_ok jsonLen appended with rfl | inserted
              · exact absurd rfl wrote
              · obtain ⟨free, _, rows⟩ := Wal.insertEntryLocked_ok jsonLen inserted
                have there := Wal.entry_last jsonLen free rows
                refine ⟨accepts, ?_⟩
                cases decoded : Wal.decodeAt jsonLen localLsn
                    { plainEntry ontology client blake3 now mint args
                      with localLsn := localLsn } with
                | error error =>
                    rw [there, decoded] at read
                    cases read
                | ok stored =>
                    rw [there, decoded, Wal.decodeAt_ok jsonLen decoded]
                    rfl

/-- **A drained batch says what the online batch would have said exactly when nothing was
handed in that a drain loses.** -/
theorem drained_sameCapture_iff (tool : EndSessionTool) (client : OfflineClient)
    (blake3 : List UInt8 → Bytes 32) (jsonLen : WalEntry → ℕ) (onlineNow now : DateTime)
    (onlineMint mint : ℕ → MemoryId) (wal written : Wal) (localLsn : ℕ) (args : EndSessionArgs)
    (batch : WireBatch) (unverified : List UnverifiedCheck) (fingerprint : Bytes 32)
    (orgId : String)
    (submitted : tool.handle blake3 onlineNow onlineMint args = .ok (.submits batch unverified))
    (recorded : endSessionOffline tool.ontology client blake3 jsonLen now mint wal args =
      (.ok localLsn, written))
    (wrote : written.rows ≠ wal.rows)
    (apart : ∀ i < args.memories.length, ∀ j < args.memories.length, mint i = mint j → i = j) :
    (∃ stored drained, written.entry jsonLen localLsn = .ok (some stored) ∧
        rebuildBatch tool.ontology blake3 fingerprint orgId stored = .ok drained ∧
        SameCapture batch drained) ↔
      Survives tool.ontology args := by
  obtain ⟨accepts, there⟩ := endSessionOffline_stored recorded wrote
  constructor
  · rintro ⟨stored, drained, found, rebuilt, same⟩
    rw [there] at found
    cases found
    exact survives_of_sameCapture submitted accepts (rebuildBatch_renumbered.mp rebuilt) same
  · intro survives
    obtain ⟨drained, rebuilt, same⟩ :=
      sameCapture_of_survives submitted accepts apart survives
    exact ⟨_, drained, there, rebuildBatch_renumbered.mpr rebuilt, same⟩

end Capture

section Sample

/-- A client of the small ontology. -/
def sampleTool : EndSessionTool :=
  ⟨"acme", .fill 32 1, "laptop", "agent", smallOntology, fun _ => none⟩

def sampleClient : OfflineClient := ⟨"acme", "acme", "ada", String.toLower⟩

def sampleMint (index : ℕ) : MemoryId := ⟨.fill 16 (UInt8.ofNat (index + 1))⟩

def sampleDigest (_ : List UInt8) : Bytes 32 := .fill 32 7

def sampleLen (entry : WalEntry) : ℕ := 400 * entry.memories.length

/-- A solution and the problem it solves. -/
def sampleArgs (projectId : String) (edge : PreflightEdgeHint) : EndSessionArgs where
  sessionId := some "s1"
  projectId := projectId
  teamId := none
  memories := [⟨"fix", "Solution", "Raise the limit", "Set it to 64.", "org", ["limits"]⟩,
    ⟨"bug", "Problem", "The limit is too low", "Requests fail.", "Team", []⟩]
  edges := [edge]

/-- What both paths make of a sample request, into an empty log. -/
def sampleRun (args : EndSessionArgs) : Option (WireBatch × Wal × WalEntry × WireBatch) :=
  match sampleTool.handle sampleDigest 5 sampleMint args,
      endSessionOffline smallOntology sampleClient sampleDigest sampleLen 5 sampleMint
        (.openWithBudget 10000) args with
  | .ok (.submits batch _), (.ok 1, written) =>
      match written.entry sampleLen 1 with
      | .ok (some stored) =>
          match rebuildBatch smallOntology sampleDigest (.fill 32 1) "acme" stored with
          | .ok drained => some (batch, written, stored, drained)
          | .error _ => none
      | _ => none
  | _, _ => none

theorem sampleRun_eq_some {args : EndSessionArgs} {written : Wal} {stored : WalEntry}
    (ran : sampleRun args = some (batch, written, stored, drained)) :
    (∃ unverified, sampleTool.handle sampleDigest 5 sampleMint args =
        .ok (.submits batch unverified)) ∧
      endSessionOffline smallOntology sampleClient sampleDigest sampleLen 5 sampleMint
        (.openWithBudget 10000) args = (.ok 1, written) ∧
      written.entry sampleLen 1 = .ok (some stored) ∧
      rebuildBatch smallOntology sampleDigest (.fill 32 1) "acme" stored = .ok drained := by
  rw [sampleRun] at ran
  split at ran
  · next submitted recorded =>
      split at ran
      · next found =>
          split at ran
          · next rebuilt =>
              cases ran
              exact ⟨⟨_, submitted⟩, recorded, found, rebuilt⟩
          · cases ran
      · cases ran
  · cases ran

def solvesEdge : PreflightEdgeHint := ⟨"fix", "bug", "", "Solves", ⟨0x3f800000#32⟩⟩

theorem drained_sameCapture_iff_solves :
    ∃ batch unverified written stored drained,
      sampleTool.handle sampleDigest 5 sampleMint (sampleArgs "" solvesEdge) =
        .ok (.submits batch unverified) ∧
      endSessionOffline smallOntology sampleClient sampleDigest sampleLen 5 sampleMint
        (.openWithBudget 10000) (sampleArgs "" solvesEdge) = (.ok 1, written) ∧
      written.entry sampleLen 1 = .ok (some stored) ∧
      rebuildBatch smallOntology sampleDigest (.fill 32 1) "acme" stored = .ok drained ∧
      SameCapture batch drained := by
  have runs : (sampleRun (sampleArgs "" solvesEdge)).isSome = true := by decide +kernel
  obtain ⟨⟨batch, written, kept, first⟩, ran⟩ := Option.isSome_iff_exists.mp runs
  obtain ⟨⟨unverified, submitted⟩, recorded, found, _⟩ := sampleRun_eq_some ran
  have wrote : written.rows ≠ (Wal.openWithBudget 10000).rows := by
    intro unchanged
    rw [Wal.entry, unchanged] at found
    cases found
  have apart : ∀ i < 2, ∀ j < 2, sampleMint i = sampleMint j → i = j := by decide
  have survives : Survives smallOntology (sampleArgs "" solvesEdge) :=
    ⟨rfl, rfl, by decide, by decide, by decide⟩
  obtain ⟨stored, drained, there, rebuilt, same⟩ :=
    (drained_sameCapture_iff sampleTool sampleClient sampleDigest sampleLen 5 5 sampleMint
      sampleMint (.openWithBudget 10000) written 1 (sampleArgs "" solvesEdge) batch unverified
      (.fill 32 1) "acme" submitted recorded wrote apart).mpr survives
  exact ⟨batch, unverified, written, stored, drained, submitted, recorded, there, rebuilt, same⟩

/-- An edge to an older memory, in a project. -/
def olderArgs : EndSessionArgs :=
  sampleArgs "exo" ⟨"fix", "", "0102030405060708090a0b0c0d0e0f10", "Solves", ⟨0x3f800000#32⟩⟩

/-- The edge and the project are submitted online and missing after a drain. -/
theorem drain_loses_older_edge :
    ∃ batch unverified written stored drained,
      sampleTool.handle sampleDigest 5 sampleMint olderArgs = .ok (.submits batch unverified) ∧
      endSessionOffline smallOntology sampleClient sampleDigest sampleLen 5 sampleMint
        (.openWithBudget 10000) olderArgs = (.ok 1, written) ∧
      written.entry sampleLen 1 = .ok (some stored) ∧
      rebuildBatch smallOntology sampleDigest (.fill 32 1) "acme" stored = .ok drained ∧
      batch.relationships.length = 1 ∧ drained.relationships = [] ∧
      batch.scope = (some "exo", none) ∧ drained.scope = (none, none) ∧
      ¬ SameCapture batch drained := by
  have runs : (sampleRun olderArgs).any (fun run => run.1.relationships.length = 1 ∧
      run.2.2.2.relationships = [] ∧ run.1.scope = (some "exo", none) ∧
      run.2.2.2.scope = (none, none)) = true := by decide +kernel
  obtain ⟨⟨batch, written, stored, drained⟩, ran, differs⟩ := (Option.any_eq_true _ _).mp runs
  obtain ⟨⟨unverified, submitted⟩, recorded, found, rebuilt⟩ := sampleRun_eq_some ran
  obtain ⟨sent, lost, inProject, unscoped⟩ := of_decide_eq_true differs
  refine ⟨batch, unverified, written, stored, drained, submitted, recorded, found, rebuilt, sent,
    lost, inProject, unscoped, ?_⟩
  intro same
  have scope := same.scope
  rw [inProject, unscoped] at scope
  cases scope

end Sample

end Exocortex
