import Exocortex.Kernel.Rows

/-!
# The storage seam's data

Leases, commit records, ingest settlements and effects, discoveries, proposals,
audit rows, cycle journals and change-feed events. Equality follows the source:
a discovery record carries a float and is compared by `DiscoveryRecord.eq`, every
other record by plain equality.

`FencedRestore.merge` joins two fragments of a rollback journal: the first
preimage of a row wins, and the owned sequence numbers are united
(`FencedRestore.owned_merge`).
-/

namespace Exocortex

open Library

/-- Errors a storage implementation reports. -/
inductive StorageError where
  | backend (detail : String)
  | permissionDenied
  | fingerprintMismatch (storage runtime : Bytes 32)
  | corruptMetadata (key detail : String)
  | fencedWriteRejected (leaseEpoch : ℕ)
  | proposalNotFound
  | proposalMismatch
deriving DecidableEq

/-- A consolidation region. -/
structure RegionKey where
  org : String
  project : String
  memoryType : UInt8
deriving DecidableEq

/-- What a lease is held on. -/
inductive LeaseKey where
  | dreams (org region : String)
  | backfill (org : String)
  | cleanup (org : String)
  | consolidation (org region : String)
deriving DecidableEq

/-- A held owner lease with its fencing epoch. -/
structure OwnerLease where
  key : LeaseKey
  ownerNodeId : String
  epoch : ℕ
  acquiredAt : DateTime
  expiresAt : DateTime
  gracePeriod : ℤ
  fencingToken : String
deriving DecidableEq

/-- The result of a committed mutation. -/
structure CommitRecord where
  lsn : ℕ
  committedAt : DateTime
  nodeId : Option ℕ
  edgeId : Option ℕ
deriving DecidableEq

/-- The record of a commit by the in-memory backend, which assigns no node or
edge identity. -/
def CommitRecord.at (lsn : ℕ) (committedAt : DateTime) : CommitRecord :=
  ⟨lsn, committedAt, none, none⟩

/-! ## Ingest -/

/-- Durable idempotency identity of one ingestion batch. -/
structure IngestBatchKey where
  orgId : String
  producerId : String
  batchId : String
deriving DecidableEq

/-- The settled result kept with an ingestion key. -/
structure SettledIngestBatch where
  accepted : ℕ
  rejected : ℕ
  assignedLsn : ℕ
deriving DecidableEq

/-- One region's share of a committed batch. -/
structure IngestRegionDelta where
  region : RegionKey
  memories : ℕ
  relationships : ℕ
deriving DecidableEq

/-- Durable post-commit work. -/
structure PostIngestEffect where
  effectId : String
  sessionMemoryIds : List MemoryId
  regionDeltas : List IngestRegionDelta
deriving DecidableEq

/-- A leased effect with its delivery generation. -/
structure ClaimedPostIngestEffect where
  effect : PostIngestEffect
  deliveryGeneration : ℕ
  retainLegacyIdentity : Bool
deriving DecidableEq

/-- The outcome of an ingest commit. -/
inductive IngestCommitOutcome where
  | committed (records : List CommitRecord) (settled : SettledIngestBatch)
  | duplicate (settled : SettledIngestBatch)
deriving DecidableEq

/-! ## Discoveries, proposals and audits -/

/-- A caller's identity and authorization scope. -/
structure VisibilityContext where
  userId : String
  orgId : String
  projectIds : List String
  teamIds : List String
  maxVisibility : Visibility
deriving DecidableEq

/-- An unasserted candidate found by a Dreams cycle. -/
structure DiscoveryRecord where
  discoveryId : String
  region : RegionKey
  source : MemoryId
  target : MemoryId
  discoveryType : String
  quality : F32
  viaTypes : UInt32 × UInt32
  discoveryCycleId : String
  discoveredAt : DateTime
deriving DecidableEq

/-- `==` on discovery records: the quality compares as a float. -/
def DiscoveryRecord.eq (left right : DiscoveryRecord) : Bool :=
  left.quality.eq right.quality &&
    decide ({ left with quality := right.quality } = right)

/-- An immutable server-issued proposal. -/
structure DiscoveryProposal where
  discoveryId : String
  region : RegionKey
  source : MemoryId
  target : MemoryId
  kind : RelKindId
  proposedVisibility : Visibility
  callerScope : VisibilityContext
  issuedAt : DateTime
deriving DecidableEq

/-- The audit payload of a protected mutation. -/
structure AuditEvent where
  action : String
  actor : String
  orgId : String
  inputDigest : Bytes 32
  outputIds : List String
  fingerprint : Bytes 32
  leaseEpoch : Option ℕ
  recordedAt : DateTime
deriving DecidableEq

/-- A stored audit row. -/
structure AuditValue where
  action : String
  actor : String
  orgId : String
  inputDigest : String
  outputIds : List String
  fingerprint : String
  leaseEpoch : String
  recordedAt : DateTime
  lsn : ℕ
deriving DecidableEq

/-- The row an audit event is stored as. -/
def auditValue (audit : AuditEvent) (lsn : ℕ) : AuditValue where
  action := audit.action
  actor := audit.actor
  orgId := audit.orgId
  inputDigest := audit.inputDigest.digestHex
  outputIds := audit.outputIds
  fingerprint := audit.fingerprint.digestHex
  leaseEpoch := (audit.leaseEpoch.map toString).getD ""
  recordedAt := audit.recordedAt
  lsn := lsn

/-- An atomic discovery acceptance request. -/
structure DiscoveryAcceptance where
  discoveryId : String
  region : RegionKey
  callerScope : VisibilityContext
  relationship : Relationship
  audit : AuditEvent
deriving DecidableEq

/-! ## Fenced batches and cycle journals -/

/-- Sequence numbers per row, as an ordered map to ordered sets. -/
abbrev LsnMap (Id : Type) := Table Id (Finset ℕ)

/-- What one fenced batch wrote. -/
structure FencedBatchCommit where
  records : List CommitRecord
  memoryLsns : LsnMap MemoryId
  relationshipLsns : LsnMap RelationshipId
deriving DecidableEq

/-- Rollback material of a cycle: preimages, created rows, and the sequence
numbers of the versions the cycle wrote. -/
structure FencedRestore where
  memories : List Memory
  relationships : List Relationship
  createdMemories : List Memory
  createdRelationships : List Relationship
  ownedMemoryLsns : LsnMap MemoryId
  ownedRelationshipLsns : LsnMap RelationshipId
deriving DecidableEq

namespace FencedRestore

instance : Inhabited FencedRestore := ⟨⟨[], [], [], [], ∅, ∅⟩⟩

/-- Add the rows of `other` whose identity is not yet present. -/
def mergeRows {α Id : Type} [DecidableEq Id] (idOf : α → Id) (rows other : List α) : List α :=
  other.foldl (fun kept row =>
    if kept.any (fun existing => idOf existing = idOf row) then kept else kept ++ [row]) rows

/-- Merge another fragment into a journal. -/
def merge (restore other : FencedRestore) : FencedRestore where
  memories := mergeRows Memory.id restore.memories other.memories
  relationships := mergeRows Relationship.id restore.relationships other.relationships
  createdMemories := mergeRows Memory.id restore.createdMemories other.createdMemories
  createdRelationships :=
    mergeRows Relationship.id restore.createdRelationships other.createdRelationships
  ownedMemoryLsns := restore.ownedMemoryLsns.extendAll other.ownedMemoryLsns
  ownedRelationshipLsns := restore.ownedRelationshipLsns.extendAll other.ownedRelationshipLsns

/-- The sequence numbers a journal owns of a row. -/
def owned (restore : FencedRestore) : RowId → Finset ℕ
  | .memory id => restore.ownedMemoryLsns.members id
  | .relationship id => restore.ownedRelationshipLsns.members id

@[simp] theorem owned_default (row : RowId) : (default : FencedRestore).owned row = ∅ := by
  cases row <;> exact Table.members_empty _

theorem owned_merge (restore other : FencedRestore) (row : RowId) :
    (restore.merge other).owned row = restore.owned row ∪ other.owned row := by
  cases row <;> exact Table.members_extendAll _ _ _

end FencedRestore

/-- The sequence numbers a batch wrote of a row. -/
def FencedBatchCommit.lsnsOf (commit : FencedBatchCommit) : RowId → Finset ℕ
  | .memory id => commit.memoryLsns.members id
  | .relationship id => commit.relationshipLsns.members id

/-- Whether a journal may still need recovery. -/
inductive CycleJournalState where
  | active
  | completed
deriving DecidableEq

/-- Durable rollback material of one owner cycle. -/
structure CycleJournalRecord where
  cycleId : String
  leaseKey : LeaseKey
  leaseEpoch : ℕ
  restore : FencedRestore
  state : CycleJournalState
deriving DecidableEq

/-! ## The change feed -/

/-- A change-feed event. -/
inductive Invalidation where
  | memoryUpserted (id : MemoryId) (lsn : ℕ)
  | memoryDeleted (id : MemoryId) (lsn : ℕ)
  | relationshipUpserted (id : RelationshipId) (source target : MemoryId) (kind : RelKindId)
      (lsn : ℕ)
  | relationshipDeleted (id : RelationshipId) (lsn : ℕ)
  | discoveryAvailable (record : DiscoveryRecord) (lsn : ℕ)
  | visibilityAdvance (lsn : ℕ)
  | memorySnapshotUpserted (memory : Memory) (lsn : ℕ)
  | relationshipSnapshotUpserted (relationship : Relationship) (lsn : ℕ)
  | graphReseed (snapshotJson : List UInt8) (lsn : ℕ)
deriving DecidableEq

/-- The sequence number of the commit behind an event. -/
def Invalidation.lsnOf : Invalidation → ℕ
  | .memoryUpserted _ lsn | .memoryDeleted _ lsn | .relationshipUpserted _ _ _ _ lsn
  | .relationshipDeleted _ lsn | .discoveryAvailable _ lsn | .visibilityAdvance lsn
  | .memorySnapshotUpserted _ lsn | .relationshipSnapshotUpserted _ lsn
  | .graphReseed _ lsn => lsn

end Exocortex
