import Exocortex.Storage.InMemory

/-!
# The store's protocols: outbox, discoveries, leases and cycles

The operations of the in-memory store that carry a protocol across calls: the
ingest outbox with its claims, the discovery life cycle, owner leases, and the
fenced operations of a Dreams cycle with its durable journal and its rollback.

Durations and time-to-lives are in nanoseconds, claim leases in milliseconds.
-/

namespace Exocortex

open Library

namespace InMemoryStorage

/-- Strings order as Rust's do, by code point. -/
def stringLe (left right : String) : Bool := !decide (right < left)

/-! ## Ingest and its outbox -/

/-- The effect row a commit inserts. -/
def freshEffect (effect : PostIngestEffect) : InMemoryIngestEffect where
  effect := effect
  acknowledged := false
  cleanupComplete := false
  deliveryGeneration := none
  retainLegacyIdentity := false
  claim := none

/-- The stored effect of the same identity has other content. -/
def effectMismatch (s : InMemoryStorage) : Option PostIngestEffect → Option PostIngestEffect
  | none => none
  | some effect =>
      match s.ingestEffects.lookup effect.effectId with
      | none => none
      | some stored => if stored.effect = effect then none else some effect

/-- Store an effect row under its identity, in the place of any other. -/
def setEffect (s : InMemoryStorage) (effectId : String) (row : InMemoryIngestEffect) :
    InMemoryStorage :=
  { s with ingestEffects := s.ingestEffects.insert effectId row }

def insertEffect (s : InMemoryStorage) : Option PostIngestEffect → InMemoryStorage
  | none => s
  | some effect => s.setEffect effect.effectId (freshEffect effect)

/-- Settle a key and commit its rows, or answer from the settlement. -/
def commitIngestLocked (env : Env) (key : IngestBatchKey) (memories : List Memory)
    (relationships : List Relationship) (accepted : ℕ) (effect : Option PostIngestEffect)
    (now : DateTime) (s : InMemoryStorage) : Outcome IngestCommitOutcome :=
  match s.settledIngest.lookup key with
  | some settled => ⟨.ok (.duplicate settled), [], s⟩
  | none =>
      match s.effectMismatch effect with
      | some effect =>
          .fail s (.backend ("ingest effect " ++ effect.effectId ++
            " already exists with different content"))
      | none =>
          match s.upsertBatchLocked env memories relationships now with
          | .error error => .fail s error
          | .ok (records, invalidations, s) =>
              let settled := ⟨accepted, 0, lastLsn records⟩
              ⟨.ok (.committed records settled), invalidations,
                { s with settledIngest := s.settledIngest.insert key settled }.insertEffect
                  effect⟩

def commitIngestBatch (env : Env) (key : IngestBatchKey) (memories : List Memory)
    (relationships : List Relationship) (accepted : ℕ) (now : DateTime)
    (s : InMemoryStorage) : Outcome IngestCommitOutcome :=
  s.commitIngestLocked env key memories relationships accepted none now

def commitIngestBatchWithEffect (env : Env) (key : IngestBatchKey) (memories : List Memory)
    (relationships : List Relationship) (accepted : ℕ) (effect : PostIngestEffect)
    (now : DateTime) (s : InMemoryStorage) : Outcome IngestCommitOutcome :=
  if s.failNextIngestCommit then
    .fail { s with failNextIngestCommit := false } (.backend "sentinel backend credential=secret")
  else s.commitIngestLocked env key memories relationships accepted (some effect) now

end InMemoryStorage

namespace InMemoryIngestEffect

/-- The row carries a claim that has not expired. -/
def claimLive (row : InMemoryIngestEffect) (now : DateTime) : Bool :=
  row.claim.any fun claim => decide (now < claim.2)

/-- The row carries an unexpired claim under this token. -/
def claimedBy (row : InMemoryIngestEffect) (token : String) (now : DateTime) : Bool :=
  row.claim.any fun claim => claim.1 = token && decide (now < claim.2)

/-- The row can be claimed: not acknowledged, and no unexpired claim. -/
def claimable (row : InMemoryIngestEffect) (now : DateTime) : Bool :=
  !row.acknowledged && !row.claimLive now

end InMemoryIngestEffect

namespace InMemoryStorage

/-- The instant a claim taken now expires; a negative lease expires at once. -/
def claimUntil (now : DateTime) (leaseMs : ℤ) : DateTime := now + (leaseMs.toNat : ℤ) * 1000000

/-- The identity of the effect the next claim takes. -/
def nextClaimable (s : InMemoryStorage) (now : DateTime) : Option String :=
  (((s.ingestEffects.entries.filter fun entry => entry.2.claimable now).map (·.1)).insertionSort
    fun left right => stringLe left right).head?

/-- The row after a claim: a new generation, and the token until its expiry. -/
def claimRow (row : InMemoryIngestEffect) (token : String) (until_ : DateTime)
    (generation : ℕ) : InMemoryIngestEffect :=
  -- A row claimed before generations existed keeps its finite marker.
  let wasLegacy := row.deliveryGeneration.isNone && row.claim.isSome
  { row with
    claim := some (token, until_)
    deliveryGeneration := some generation
    retainLegacyIdentity := row.retainLegacyIdentity || wasLegacy }

def claimIngestEffect (claimToken : String) (leaseMs : ℤ) (now : DateTime)
    (s : InMemoryStorage) : Outcome (Option ClaimedPostIngestEffect) :=
  if s.ingestEffects.values.any (fun row => !row.acknowledged && row.claimLive now) then
    ⟨.ok none, [], s⟩
  else
    match s.nextClaimable now with
    | none => ⟨.ok none, [], s⟩
    | some effectId =>
        match s.ingestEffects.lookup effectId with
        | none => ⟨.ok none, [], s⟩
        | some row =>
            let generation := s.ingestEffectGeneration + 1
            let claimed := claimRow row claimToken (claimUntil now leaseMs) generation
            ⟨.ok (some ⟨claimed.effect, generation, claimed.retainLegacyIdentity⟩), [],
              { s with ingestEffectGeneration := generation }.setEffect effectId claimed⟩

def renewIngestEffectClaim (effectId claimToken : String) (leaseMs : ℤ) (now : DateTime)
    (s : InMemoryStorage) : Outcome Bool :=
  match s.ingestEffects.lookup effectId with
  | none => ⟨.ok false, [], s⟩
  | some row =>
      if row.claimedBy claimToken now then
        ⟨.ok true, [], s.setEffect effectId
          { row with claim := some (claimToken, claimUntil now leaseMs) }⟩
      else ⟨.ok false, [], s⟩

def acknowledgeIngestEffect (effectId claimToken : String) (now : DateTime)
    (s : InMemoryStorage) : Outcome Bool :=
  match s.ingestEffects.lookup effectId with
  | none => ⟨.ok false, [], s⟩
  | some row =>
      if row.acknowledged || !row.claimedBy claimToken now then ⟨.ok false, [], s⟩
      else
        ⟨.ok true, [], s.setEffect effectId { row with acknowledged := true, claim := none }⟩

/-- The acknowledged effects that still wait for cleanup, in effect order. -/
def pendingIngestEffectCleanups (limit : ℕ) (s : InMemoryStorage) :
    List ClaimedPostIngestEffect :=
  (((s.ingestEffects.values.filter fun row => row.acknowledged && !row.cleanupComplete).filterMap
      fun row => row.deliveryGeneration.map fun generation =>
        (⟨row.effect, generation, row.retainLegacyIdentity⟩ :
          ClaimedPostIngestEffect)).insertionSort
    fun left right => stringLe left.effect.effectId right.effect.effectId).take limit

def completeIngestEffectCleanup (effectId : String) (s : InMemoryStorage) : Outcome Bool :=
  match s.ingestEffects.lookup effectId with
  | none => ⟨.ok false, [], s⟩
  | some row =>
      if row.acknowledged then
        ⟨.ok true, [], s.setEffect effectId { row with cleanupComplete := true }⟩
      else ⟨.ok false, [], s⟩

/-! ## Discoveries and proposals -/

/-- The proposal leaves its issuing region or the caller's scope. -/
def proposalOutOfScope (proposal : DiscoveryProposal) : Bool :=
  proposal.region.org ≠ proposal.callerScope.orgId ||
    proposal.callerScope.maxVisibility < proposal.proposedVisibility ||
    (proposal.region.project ≠ "" && proposal.region.project ≠ "*" &&
      proposal.region.project ∉ proposal.callerScope.projectIds)

def createDiscoveryProposal (proposal : DiscoveryProposal) (s : InMemoryStorage) :
    Outcome Unit :=
  if proposalOutOfScope proposal then .fail s .proposalMismatch
  else
    match s.proposals.lookup proposal.discoveryId with
    | some stored =>
        if stored.proposal = proposal then
          if stored.consumed then .fail s .proposalNotFound else ⟨.ok (), [], s⟩
        else .fail s .proposalMismatch
    | none =>
        match s.discoveries.lookup proposal.discoveryId with
        | none => .fail s .proposalNotFound
        | some discovery =>
            if discovery.region ≠ proposal.region ∨ discovery.source ≠ proposal.source ∨
                discovery.target ≠ proposal.target then .fail s .proposalMismatch
            else
              ⟨.ok (), [], { s with
                proposals := s.proposals.insert proposal.discoveryId ⟨proposal, false⟩
                discoveries := s.discoveries.erase proposal.discoveryId }⟩

/-- The body `store_discovery` and its fenced form share. -/
def storeDiscoveryLocked (discovery : DiscoveryRecord) (s : InMemoryStorage) : Outcome Unit :=
  if discovery.discoveryId ∈ s.proposals then .fail s .proposalMismatch
  else
    match s.discoveries.lookup discovery.discoveryId with
    | some stored => if stored.eq discovery then ⟨.ok (), [], s⟩ else .fail s .proposalMismatch
    | none =>
        let lsn := s.lsn + 1
        ⟨.ok (), [.discoveryAvailable discovery lsn], { s with
          lsn := lsn
          discoveries := s.discoveries.insert discovery.discoveryId discovery }⟩

def storeDiscovery (discovery : DiscoveryRecord) (s : InMemoryStorage) : Outcome Unit :=
  s.storeDiscoveryLocked discovery

def storeDiscoveryFenced (discovery : DiscoveryRecord) (lease : OwnerLease) (now : DateTime)
    (s : InMemoryStorage) : Outcome Unit :=
  s.fenced lease now (s.storeDiscoveryLocked discovery)

/-- A field of the acceptance differs from the stored proposal, or the edge is
wider than the caller may see. -/
def acceptanceMismatch (proposal : DiscoveryProposal) (acceptance : DiscoveryAcceptance) : Bool :=
  proposal.region ≠ acceptance.region ||
    proposal.callerScope ≠ acceptance.callerScope ||
    proposal.source ≠ acceptance.relationship.source ||
    proposal.target ≠ acceptance.relationship.target ||
    proposal.kind ≠ acceptance.relationship.kind ||
    proposal.proposedVisibility ≠ acceptance.relationship.visibility ||
    proposal.region.org ≠ acceptance.audit.orgId ||
    proposal.callerScope.userId ≠ acceptance.audit.actor ||
    acceptance.callerScope.maxVisibility < acceptance.relationship.visibility

/-- The edge of an acceptance, with its companion when it has one, staged from
the current tables. -/
def stageAcceptance (env : Env) (relationship : Relationship) (now : DateTime)
    (s : InMemoryStorage) : Staged :=
  let written := stageRow now ⟨s.memories, s.rels, s.lsn, ∅, [], []⟩ relationship
  match env.inverse relationship with
  | none => written
  | some inverse => stageRow now written inverse

def acceptDiscovery (env : Env) (acceptance : DiscoveryAcceptance) (now : DateTime)
    (s : InMemoryStorage) : Outcome CommitRecord :=
  match s.proposals.lookup acceptance.discoveryId with
  | none => .fail s .proposalNotFound
  | some stored =>
      if stored.consumed then .fail s .proposalNotFound
      else if acceptanceMismatch stored.proposal acceptance then .fail s .proposalMismatch
      else
        let lsn := s.lsn + 1
        let staged := s.stageAcceptance env acceptance.relationship now
        ⟨.ok (.at lsn now), staged.invalidations, { s with
          proposals := s.proposals.insert acceptance.discoveryId { stored with consumed := true }
          rels := staged.rels
          audits := s.audits ++ [auditValue acceptance.audit lsn]
          lsn := staged.next }⟩

/-! ## Leases -/

/-- The fencing token of an epoch. -/
def fencingToken (epoch : ℕ) : String := "in-memory:" ++ toString epoch

/-- The grace window of a lease: fifteen seconds. -/
def graceDuration : ℤ := 15000000000

def acquireLease (key : LeaseKey) (ttl : ℕ) (now : DateTime) (s : InMemoryStorage) :
    Outcome OwnerLease :=
  if (s.leases.lookup key).any (fun held => decide (now < held.expiresAt)) then
    .fail s (.backend "lease held by another node")
  else
    -- The epoch counter of a key outlives its leases.
    let epoch := (s.leaseEpochs.lookup key).getD 0 + 1
    let token := fencingToken epoch
    let expiresAt := now + ttl
    ⟨.ok ⟨key, "in-memory", epoch, now, expiresAt, graceDuration, token⟩, [], { s with
      leaseEpochs := s.leaseEpochs.insert key epoch
      leases := s.leases.insert key ⟨token, expiresAt⟩ }⟩

def renewLease (lease : OwnerLease) (now : DateTime) (s : InMemoryStorage) :
    Outcome OwnerLease :=
  match s.leases.lookup lease.key with
  | some held =>
      if held.token = lease.fencingToken ∧ now < held.expiresAt then
        let expiresAt := now + (lease.expiresAt - lease.acquiredAt)
        ⟨.ok { lease with acquiredAt := now, expiresAt := expiresAt }, [],
          { s with leases := s.leases.insert lease.key { held with expiresAt := expiresAt } }⟩
      else .fail s (.backend "lease lost (token mismatch)")
  | none => .fail s (.backend "lease lost (token mismatch)")

def releaseLease (lease : OwnerLease) (s : InMemoryStorage) : Outcome Unit :=
  if (s.leases.lookup lease.key).any (fun held => held.token = lease.fencingToken) then
    ⟨.ok (), [], { s with leases := s.leases.erase lease.key }⟩
  else ⟨.ok (), [], s⟩

/-! ## Fenced writes -/

/-- The identities and sequence numbers the events of a batch name. -/
def recordInvalidation (commit : FencedBatchCommit) : Invalidation → FencedBatchCommit
  | .memoryUpserted id lsn => { commit with memoryLsns := commit.memoryLsns.extend id {lsn} }
  | .relationshipUpserted id _ _ _ lsn =>
      { commit with relationshipLsns := commit.relationshipLsns.extend id {lsn} }
  | _ => commit

def fencedBatchCommit (records : List CommitRecord) (invalidations : List Invalidation) :
    FencedBatchCommit :=
  invalidations.foldl recordInvalidation ⟨records, ∅, ∅⟩

def upsertBatchFenced (env : Env) (ms : List Memory) (rs : List Relationship)
    (lease : OwnerLease) (now : DateTime) (s : InMemoryStorage) : Outcome FencedBatchCommit :=
  s.fenced lease now <|
    match s.upsertBatchLocked env ms rs now with
    | .error error => .fail s error
    | .ok (records, invalidations, s) =>
        ⟨.ok (fencedBatchCommit records invalidations), invalidations, s⟩

def deleteMemoryFenced (id : MemoryId) (lease : OwnerLease) (now : DateTime)
    (s : InMemoryStorage) : Outcome CommitRecord :=
  s.fenced lease now (s.deleteMemory id now)

/-- The journal of a key after a journaled batch: made active under the cycle,
with the prepared fragment merged and the batch's own versions added. A
completed journal of an earlier cycle is reused with what it already owns. -/
def journalBatch (journal : Option CycleJournalRecord) (prepared : FencedRestore)
    (commit : FencedBatchCommit) (cycleId : String) (lease : OwnerLease) : CycleJournalRecord :=
  let restore : FencedRestore := ((journal.map CycleJournalRecord.restore).getD default).merge
    prepared
  { cycleId := cycleId
    leaseKey := (journal.map CycleJournalRecord.leaseKey).getD lease.key
    leaseEpoch := lease.epoch
    restore := { restore with
      ownedMemoryLsns := restore.ownedMemoryLsns.extendAll commit.memoryLsns
      ownedRelationshipLsns := restore.ownedRelationshipLsns.extendAll commit.relationshipLsns }
    state := .active }

/-- Store the journal of a key. -/
def setJournal (s : InMemoryStorage) (key : LeaseKey) (journal : CycleJournalRecord) :
    InMemoryStorage :=
  { s with cycleJournals := s.cycleJournals.insert key journal }

/-- The journal is active under another cycle. -/
def otherCycleActive (journal : CycleJournalRecord) (cycleId : String) : Bool :=
  journal.state = .active && journal.cycleId ≠ cycleId

def upsertBatchFencedJournaled (env : Env) (ms : List Memory) (rs : List Relationship)
    (prepared : FencedRestore) (cycleId : String) (lease : OwnerLease) (now : DateTime)
    (s : InMemoryStorage) : Outcome FencedBatchCommit :=
  s.fenced lease now <|
    let journal := s.cycleJournals.lookup lease.key
    match journal.filter (otherCycleActive · cycleId) with
    | some active =>
        .fail s (.backend ("active cycle " ++ active.cycleId ++ " requires recovery before " ++
          cycleId))
    | none =>
        match s.upsertBatchLocked env ms rs now with
        | .error error => .fail s error
        | .ok (records, invalidations, s) =>
            let commit := fencedBatchCommit records invalidations
            ⟨.ok commit, invalidations, s.setJournal lease.key
              (journalBatch journal prepared commit cycleId lease)⟩

def getActiveCycleJournal (key : LeaseKey) (s : InMemoryStorage) : Option CycleJournalRecord :=
  (s.cycleJournals.lookup key).filter (·.state = .active)

def completeCycleJournalFenced (cycleId : String) (lease : OwnerLease) (now : DateTime)
    (s : InMemoryStorage) : Outcome Unit :=
  s.fenced lease now <|
    match s.cycleJournals.lookup lease.key with
    | none => .fail s (.backend "cycle journal not found")
    | some journal =>
        if journal.cycleId ≠ cycleId then .fail s (.backend "cycle journal identity mismatch")
        else
          ⟨.ok (), [], s.setJournal lease.key { journal with state := .completed }⟩

def cycleSucceededFenced (cycleId : String) (lease : OwnerLease) (now : DateTime)
    (s : InMemoryStorage) : Except StorageError Bool :=
  match s.checkLeaseCurrent lease now with
  | .error error => .error error
  | .ok _ => .ok (decide ((lease.key, cycleId) ∈ s.succeededCycles))

/-! ## Settlement -/

/-- The digest of a settlement: the records in identity order, which must be
distinct, encoded and hashed. -/
def dreamsSettlementEffectDigest (env : Env) (records : List DiscoveryRecord) :
    Except StorageError String :=
  let ordered := records.insertionSort fun left right =>
    stringLe left.discoveryId right.discoveryId
  if (ordered.zip ordered.tail).any (fun pair => pair.1.discoveryId = pair.2.discoveryId) then
    .error .proposalMismatch
  else .ok (env.sha256 (env.discoveryJson ordered)).digestHex

/-- The record collides with a proposal or with another stored discovery. -/
def discoveryConflict (s : InMemoryStorage) (record : DiscoveryRecord) : Bool :=
  record.discoveryId ∈ s.proposals ||
    (s.discoveries.lookup record.discoveryId).any fun stored => !stored.eq record

/-- Store one discovery of a settlement, unless it is stored already. -/
def settleDiscovery (acc : InMemoryStorage × List Invalidation) (record : DiscoveryRecord) :
    InMemoryStorage × List Invalidation :=
  let (s, invalidations) := acc
  if record.discoveryId ∈ s.discoveries then acc
  else
    let lsn := s.lsn + 1
    ({ s with lsn := lsn, discoveries := s.discoveries.insert record.discoveryId record },
      invalidations ++ [.discoveryAvailable record lsn])

def settleDreamsCycleFenced (env : Env) (cycleId : String) (records : List DiscoveryRecord)
    (lease : OwnerLease) (now : DateTime) (s : InMemoryStorage) : Outcome Unit :=
  match dreamsSettlementEffectDigest env records with
  | .error error => .fail s error
  | .ok digest =>
      s.fenced lease now <|
        match s.succeededCycles.lookup (lease.key, cycleId) with
        | some stored => if stored = digest then ⟨.ok (), [], s⟩ else .fail s .proposalMismatch
        | none =>
            if (s.cycleJournals.lookup lease.key).any (otherCycleActive · cycleId) then
              .fail s (.backend "another active Dreams cycle requires recovery")
            else if records.any s.discoveryConflict then .fail s .proposalMismatch
            else
              let (s, invalidations) := records.foldl settleDiscovery (s, [])
              let journal := ⟨cycleId, lease.key, lease.epoch, default, .completed⟩
              ⟨.ok (), invalidations, { s.setJournal lease.key journal with
                succeededCycles := s.succeededCycles.insert (lease.key, cycleId) digest }⟩

/-! ## Rollback -/

/-- A rollback in progress. -/
structure Restoring where
  memories : Table MemoryId (List Memory)
  rels : Table RelationshipId (List Relationship)
  next : ℕ
  records : List CommitRecord
  invalidations : List Invalidation

/-- Drop the owned versions of one memory. A memory left without versions is
removed; one that loses none keeps its place and publishes nothing. -/
def restoreMemory (now : DateTime) (acc : Restoring)
    (entry : Sigma fun _ : MemoryId => Finset ℕ) : Restoring :=
  match acc.memories.lookup entry.1 with
  | none => acc
  | some history =>
      let kept := history.filter fun version => decide (version.lsn.value ∉ entry.2)
      if kept.length = history.length then acc
      else
        let lsn := acc.next + 1
        let acc : Restoring := { acc with next := lsn, records := acc.records ++ [.at lsn now] }
        if kept.isEmpty then
          { acc with
            memories := acc.memories.erase entry.1
            invalidations := acc.invalidations ++ [.memoryDeleted entry.1 lsn] }
        else
          { acc with
            memories := acc.memories.insert entry.1 kept
            invalidations := acc.invalidations ++ [.memoryUpserted entry.1 lsn] }

/-- Drop the owned versions of one relationship. -/
def restoreRelationship (now : DateTime) (acc : Restoring)
    (entry : Sigma fun _ : RelationshipId => Finset ℕ) : Restoring :=
  match acc.rels.lookup entry.1 with
  | none => acc
  | some history =>
      let kept := history.filter fun version => decide (version.lsn.value ∉ entry.2)
      if kept.length = history.length then acc
      else
        let lsn := acc.next + 1
        let acc : Restoring := { acc with next := lsn, records := acc.records ++ [.at lsn now] }
        match kept.getLast? with
        | some current =>
            { acc with
              rels := acc.rels.insert entry.1 kept
              invalidations := acc.invalidations ++
                [.relationshipUpserted entry.1 current.source current.target current.kind lsn] }
        | none =>
            { acc with
              rels := acc.rels.erase entry.1
              invalidations := acc.invalidations ++ [.relationshipDeleted entry.1 lsn] }

/-- The whole rollback, memories first, each map in identity order. -/
def restoreAll (restore : FencedRestore) (now : DateTime) (s : InMemoryStorage) : Restoring :=
  (restore.ownedRelationshipLsns.sortedEntries fun left right =>
      left.raw.le right.raw).foldl (restoreRelationship now)
    ((restore.ownedMemoryLsns.sortedEntries fun left right =>
      left.raw.le right.raw).foldl (restoreMemory now) ⟨s.memories, s.rels, s.lsn, [], []⟩)

def restoreFenced (restore : FencedRestore) (lease : OwnerLease) (now : DateTime)
    (s : InMemoryStorage) : Outcome (List CommitRecord) :=
  s.fenced lease now <|
    let restored := s.restoreAll restore now
    ⟨.ok restored.records, restored.invalidations,
      { s with lsn := restored.next, memories := restored.memories, rels := restored.rels }⟩

end InMemoryStorage

end Exocortex
