import Exocortex.Storage.Types

/-!
# The in-memory store

`InMemoryStorage` and its mutating operations, as the code under `mutation_gate`
computes them. Every operation takes the instant it reads from the clock and the
state at the moment it takes the gate, and yields an `Outcome`: the reply, the
state at the moment it releases the gate, and the events it publishes after
that. Events published while the gate is held are already part of the state's
`feed`. The `Calls` module joins the two halves of a call.

Sequence numbers and lease epochs are natural numbers. The histories of memories
and of relationships are read together, as one family of rows
(`InMemoryStorage.rows`).
-/

namespace Exocortex

open Library

/-- What a store is built over: the ontology, and the digests and the JSON
encoder of the libraries it links. -/
structure Env where
  ontology : Ontology
  blake3 : List UInt8 → Bytes 32
  sha256 : List UInt8 → Bytes 32
  discoveryJson : List DiscoveryRecord → List UInt8

/-- The inverse companion under an environment's ontology. -/
abbrev Env.inverse (env : Env) (rel : Relationship) : Option Relationship :=
  materializeInverse env.ontology env.blake3 rel

/-- The holder of a lease key. -/
structure InMemoryLease where
  token : String
  expiresAt : DateTime
deriving DecidableEq

/-- A stored effect and the state of its delivery. -/
structure InMemoryIngestEffect where
  effect : PostIngestEffect
  acknowledged : Bool
  cleanupComplete : Bool
  deliveryGeneration : Option ℕ
  retainLegacyIdentity : Bool
  claim : Option (String × DateTime)
deriving DecidableEq

/-- A stored proposal and whether it was accepted. -/
structure StoredProposal where
  proposal : DiscoveryProposal
  consumed : Bool
deriving DecidableEq

/-- The state of the store. `feed` is everything sent on the change feed. -/
structure InMemoryStorage where
  memories : Table MemoryId (List Memory)
  rels : Table RelationshipId (List Relationship)
  relsByNode : Table MemoryId (Finset RelationshipId)
  leases : Table LeaseKey InMemoryLease
  leaseEpochs : Table LeaseKey ℕ
  proposals : Table String StoredProposal
  discoveries : Table String DiscoveryRecord
  audits : List AuditValue
  settledIngest : Table IngestBatchKey SettledIngestBatch
  ingestEffects : Table String InMemoryIngestEffect
  ingestEffectGeneration : ℕ
  governedImports : Finset String
  cycleJournals : Table LeaseKey CycleJournalRecord
  succeededCycles : Table (LeaseKey × String) String
  failNextIngestCommit : Bool
  lsn : ℕ
  feed : List Invalidation
deriving DecidableEq

/-- What a gated section yields. -/
structure Outcome (α : Type) where
  reply : Except StorageError α
  pending : List Invalidation
  post : InMemoryStorage

/-- A section that refuses and changes nothing. -/
def Outcome.fail {α : Type} (s : InMemoryStorage) (error : StorageError) : Outcome α :=
  ⟨.error error, [], s⟩

namespace InMemoryStorage

/-- A fresh store. -/
def new : InMemoryStorage where
  memories := ∅
  rels := ∅
  relsByNode := ∅
  leases := ∅
  leaseEpochs := ∅
  proposals := ∅
  discoveries := ∅
  audits := []
  settledIngest := ∅
  ingestEffects := ∅
  ingestEffectGeneration := 0
  governedImports := ∅
  cycleJournals := ∅
  succeededCycles := ∅
  failNextIngestCommit := false
  lsn := 0
  feed := []

/-- The versions two tables store of a row, oldest first. -/
def rowsOf (memories : Table MemoryId (List Memory))
    (rels : Table RelationshipId (List Relationship)) : RowId → List Row
  | .memory id => (memories.history id).map .memory
  | .relationship id => (rels.history id).map .relationship

/-- The stored versions of a row. -/
def rows (s : InMemoryStorage) : RowId → List Row := rowsOf s.memories s.rels

/-! ## The feed and the adjacency index -/

/-- Send one event. -/
def send (s : InMemoryStorage) (event : Invalidation) : InMemoryStorage :=
  { s with feed := s.feed ++ [event] }

def indexRelationship (s : InMemoryStorage) (id : RelationshipId) (source target : MemoryId) :
    InMemoryStorage :=
  { s with relsByNode := (s.relsByNode.extend source {id}).extend target {id} }

def indexInvalidation (s : InMemoryStorage) : Invalidation → InMemoryStorage
  | .relationshipUpserted id source target _ _ => s.indexRelationship id source target
  | _ => s

/-- Publish one event after the gate: index it, then send it. -/
def publish (s : InMemoryStorage) (event : Invalidation) : InMemoryStorage :=
  (s.indexInvalidation event).send event

/-! ## Fencing -/

/-- The lease table still holds this lease's token, unexpired. -/
def leaseCurrent (s : InMemoryStorage) (lease : OwnerLease) (now : DateTime) : Bool :=
  match s.leases.lookup lease.key with
  | some held => held.token = lease.fencingToken && now < held.expiresAt
  | none => false

def checkLeaseCurrent (s : InMemoryStorage) (lease : OwnerLease) (now : DateTime) :
    Except StorageError Unit :=
  if s.leaseCurrent lease now then .ok () else .error (.fencedWriteRejected lease.epoch)

/-- A gated section that first checks its lease. -/
def fenced {α : Type} (s : InMemoryStorage) (lease : OwnerLease) (now : DateTime)
    (body : Outcome α) : Outcome α :=
  match s.checkLeaseCurrent lease now with
  | .error error => .fail s error
  | .ok _ => body

/-! ## Single rows -/

def upsertMemory (m : Memory) (now : DateTime) (s : InMemoryStorage) : Outcome CommitRecord :=
  let lsn := s.lsn + 1
  let row := { m with lsn := LSN.newBackend lsn }
  ⟨.ok (.at lsn now), [],
    { s with lsn := lsn, memories := s.memories.push m.id row }.send (.memoryUpserted m.id lsn)⟩

/-- Write one relationship row, without its companion. -/
def upsertRelationshipRowLocked (r : Relationship) (now : DateTime) (s : InMemoryStorage) :
    CommitRecord × InMemoryStorage :=
  let lsn := s.lsn + 1
  let row := { r with lsn := LSN.newBackend lsn }
  (.at lsn now,
    ({ s with lsn := lsn, rels := s.rels.push r.id row }.indexRelationship r.id r.source
      r.target).send (.relationshipUpserted r.id r.source r.target r.kind lsn))

def upsertRelationship (env : Env) (r : Relationship) (now : DateTime) (s : InMemoryStorage) :
    Outcome CommitRecord :=
  let (record, s) := s.upsertRelationshipRowLocked r now
  match env.inverse r with
  | none => ⟨.ok record, [], s⟩
  | some inverse =>
      -- The companion is skipped while its current version is open.
      let alreadyCurrent := (s.rels.history inverse.id).getLast?.any (·.validUntil.isNone)
      if alreadyCurrent then ⟨.ok record, [], s⟩
      else ⟨.ok record, [], (s.upsertRelationshipRowLocked inverse now).2⟩

/-- Close the current version of a memory, when it has one. -/
def deleteMemoryLocked (id : MemoryId) (now : DateTime) (s : InMemoryStorage) :
    CommitRecord × InMemoryStorage :=
  let lsn := s.lsn + 1
  match (s.memories.history id).getLast? with
  | none => (.at lsn now, { s with lsn := lsn })
  | some last =>
      let closed := { last with
        validUntil := some now, recordedAt := now, lsn := LSN.newBackend lsn }
      (.at lsn now, { s with lsn := lsn, memories := s.memories.push id closed })

def deleteMemory (id : MemoryId) (now : DateTime) (s : InMemoryStorage) : Outcome CommitRecord :=
  let (record, s) := s.deleteMemoryLocked id now
  ⟨.ok record, [.memoryDeleted id record.lsn], s⟩

/-- The current version of a relationship, when it is open. -/
def openRelationship (s : InMemoryStorage) (id : RelationshipId) : Option Relationship :=
  (s.rels.history id).getLast?.filter (·.validUntil.isNone)

/-- Close an open relationship under a sequence number. -/
def closeRelationship (s : InMemoryStorage) (last : Relationship) (id : RelationshipId)
    (lsn : ℕ) (now : DateTime) : InMemoryStorage :=
  { s with rels := s.rels.push id { last with
    validUntil := some now, recordedAt := now, lsn := LSN.newBackend lsn } }

/-- The sequence number is taken before the row is looked at, also when the call
then refuses. -/
def deleteRelationship (id : RelationshipId) (now : DateTime) (s : InMemoryStorage) :
    Outcome CommitRecord :=
  let lsn := s.lsn + 1
  let taken := { s with lsn := lsn }
  match s.openRelationship id with
  | none =>
      .fail taken (.backend
        ("delete_relationship: " ++ id.raw.debugHex ++ " not found or already closed"))
  | some last =>
      ⟨.ok (.at lsn now), [], (taken.closeRelationship last id lsn now).send
        (.relationshipDeleted id lsn)⟩

def deleteRelationshipAudited (id : RelationshipId) (audit : AuditEvent) (now : DateTime)
    (s : InMemoryStorage) : Outcome CommitRecord :=
  let lsn := s.lsn + 1
  let taken := { s with lsn := lsn }
  match s.openRelationship id with
  | none =>
      .fail taken (.backend
        ("delete_relationship_audited: " ++ id.raw.debugHex ++ " not found or already closed"))
  | some last =>
      let closed := taken.closeRelationship last id lsn now
      ⟨.ok (.at lsn now), [], { closed with audits := s.audits ++ [auditValue audit lsn] }.send
        (.relationshipDeleted id lsn)⟩

/-- An audit row takes a sequence number and publishes nothing. -/
def appendAudit (audit : AuditEvent) (now : DateTime) (s : InMemoryStorage) :
    Outcome CommitRecord :=
  let lsn := s.lsn + 1
  ⟨.ok (.at lsn now), [], { s with lsn := lsn, audits := s.audits ++ [auditValue audit lsn] }⟩

def promoteMemoryVisibilityAudited (memory : Memory) (audit : AuditEvent) (now : DateTime)
    (s : InMemoryStorage) : Outcome CommitRecord :=
  match (s.memories.history memory.id).getLast? with
  | none => .fail s (.backend "promotion target disappeared")
  | some current =>
      if memory.visibility < current.visibility then
        .fail s (.backend "promotion would narrow current visibility")
      else
        let lsn := s.lsn + 1
        let row := { memory with lsn := LSN.newBackend lsn }
        ⟨.ok (.at lsn now), [.memoryUpserted memory.id lsn],
          { s with
            memories := s.memories.push memory.id row
            audits := s.audits ++ [auditValue audit lsn]
            lsn := lsn }⟩

/-! ## Batches -/

/-- A batch being staged: the tables to swap in, the last sequence number
assigned, the relationship identities of the batch, and the records and events
so far. -/
structure Staged where
  memories : Table MemoryId (List Memory)
  rels : Table RelationshipId (List Relationship)
  next : ℕ
  seenRelationships : Finset RelationshipId
  records : List CommitRecord
  invalidations : List Invalidation

def stageMemory (now : DateTime) (staged : Staged) (m : Memory) : Staged :=
  let next := staged.next + 1
  let row := { m with lsn := LSN.newBackend next }
  { staged with
    next := next
    memories := staged.memories.push m.id row
    invalidations := staged.invalidations ++ [.memoryUpserted m.id next]
    records := staged.records ++ [.at next now] }

/-- Stage one relationship row, companion or not. -/
def stageRow (now : DateTime) (staged : Staged) (r : Relationship) : Staged :=
  let next := staged.next + 1
  let row := { r with lsn := LSN.newBackend next }
  { staged with
    next := next
    rels := staged.rels.push r.id row
    invalidations := staged.invalidations ++
      [.relationshipUpserted r.id r.source r.target r.kind next]
    records := staged.records ++ [.at next now] }

/-- A companion is staged unless its identity is already in the batch. -/
def stageRelationship (env : Env) (now : DateTime) (staged : Staged) (r : Relationship) :
    Staged :=
  let written := stageRow now staged r
  match env.inverse { r with lsn := LSN.newBackend written.next } with
  | none => written
  | some inverse =>
      if inverse.id ∈ written.seenRelationships then written
      else stageRow now
        { written with seenRelationships := insert inverse.id written.seenRelationships } inverse

/-- A relationship whose endpoint is neither stored nor in the batch. -/
def endpointMissing (s : InMemoryStorage) (ms : List Memory) (r : Relationship) : Bool :=
  (r.source ∉ s.memories && !ms.any (·.id = r.source)) ||
    (r.target ∉ s.memories && !ms.any (·.id = r.target))

/-- The staging of a whole batch, from the current tables and counter. -/
def stageBatch (env : Env) (ms : List Memory) (rs : List Relationship) (now : DateTime)
    (s : InMemoryStorage) : Staged :=
  rs.foldl (stageRelationship env now) (ms.foldl (stageMemory now)
    ⟨s.memories, s.rels, s.lsn, (rs.map (·.id)).toFinset, [], []⟩)

/-- Stage and swap one complete batch. -/
def upsertBatchLocked (env : Env) (ms : List Memory) (rs : List Relationship) (now : DateTime)
    (s : InMemoryStorage) :
    Except StorageError (List CommitRecord × List Invalidation × InMemoryStorage) :=
  match rs.find? (s.endpointMissing ms) with
  | some r => .error (.backend ("relationship " ++ r.id.raw.debugHex ++ " endpoint missing"))
  | none =>
      let staged := stageBatch env ms rs now s
      .ok (staged.records, staged.invalidations,
        { s with lsn := staged.next, memories := staged.memories, rels := staged.rels })

def upsertBatch (env : Env) (ms : List Memory) (rs : List Relationship) (now : DateTime)
    (s : InMemoryStorage) : Outcome (List CommitRecord) :=
  match s.upsertBatchLocked env ms rs now with
  | .error error => .fail s error
  | .ok (records, invalidations, s) => ⟨.ok records, invalidations, s⟩

/-- The sequence number of the last record of a batch. -/
def lastLsn (records : List CommitRecord) : ℕ := (records.getLast?.map (·.lsn)).getD 0

def upsertBatchAudited (env : Env) (ms : List Memory) (rs : List Relationship)
    (audit : AuditEvent) (now : DateTime) (s : InMemoryStorage) : Outcome (List CommitRecord) :=
  match s.upsertBatchLocked env ms rs now with
  | .error error => .fail s error
  | .ok (records, invalidations, s) =>
      ⟨.ok records, invalidations,
        { s with audits := s.audits ++ [auditValue audit (lastLsn records)] }⟩

def upsertBatchOnce (env : Env) (operationKey : String) (ms : List Memory)
    (rs : List Relationship) (now : DateTime) (s : InMemoryStorage) : Outcome Bool :=
  if operationKey ∈ s.governedImports then ⟨.ok false, [], s⟩
  else
    match s.upsertBatchLocked env ms rs now with
    | .error error => .fail s error
    | .ok (_, invalidations, s) =>
        ⟨.ok true, invalidations,
          { s with governedImports := insert operationKey s.governedImports }⟩

def importBatchOnce (env : Env) (importKey : String) (ms : List Memory)
    (rs : List Relationship) (now : DateTime) (s : InMemoryStorage) : Outcome Bool :=
  s.upsertBatchOnce env importKey ms rs now

end InMemoryStorage

end Exocortex
