import Exocortex.Storage.Protocols

/-!
# Calls

Every mutating call on the store as one type, so that a run is a list of calls.
`Call.gated` is the section a call executes under the mutation gate; `Call.run`
is the whole call, which then publishes the events the section left pending, and
`Call.runAll` is a run of calls one after the other.

`Call.fencedBy` is the lease a call presents to the fence, `Call.presents` the
one it presents at all; `Call.Unfenced` are the calls that touch neither a lease
nor a cycle.
-/

namespace Exocortex

open Library

/-- A mutating call with its arguments. -/
inductive Call where
  | upsertMemory (m : Memory)
  | upsertBatch (ms : List Memory) (rs : List Relationship)
  | upsertBatchAudited (ms : List Memory) (rs : List Relationship) (audit : AuditEvent)
  | importBatchOnce (importKey : String) (ms : List Memory) (rs : List Relationship)
  | upsertBatchOnce (operationKey : String) (ms : List Memory) (rs : List Relationship)
  | deleteMemory (id : MemoryId)
  | upsertRelationship (r : Relationship)
  | deleteRelationship (id : RelationshipId)
  | appendAudit (audit : AuditEvent)
  | deleteRelationshipAudited (id : RelationshipId) (audit : AuditEvent)
  | commitIngestBatch (key : IngestBatchKey) (memories : List Memory)
      (relationships : List Relationship) (accepted : ℕ)
  | commitIngestBatchWithEffect (key : IngestBatchKey) (memories : List Memory)
      (relationships : List Relationship) (accepted : ℕ) (effect : PostIngestEffect)
  | claimIngestEffect (claimToken : String) (leaseMs : ℤ)
  | renewIngestEffectClaim (effectId claimToken : String) (leaseMs : ℤ)
  | acknowledgeIngestEffect (effectId claimToken : String)
  | completeIngestEffectCleanup (effectId : String)
  | promoteMemoryVisibilityAudited (memory : Memory) (audit : AuditEvent)
  | createDiscoveryProposal (proposal : DiscoveryProposal)
  | storeDiscovery (discovery : DiscoveryRecord)
  | acceptDiscovery (acceptance : DiscoveryAcceptance)
  | acquireLease (key : LeaseKey) (ttl : ℕ)
  | renewLease (lease : OwnerLease)
  | releaseLease (lease : OwnerLease)
  | storeDiscoveryFenced (discovery : DiscoveryRecord) (lease : OwnerLease)
  | upsertBatchFenced (ms : List Memory) (rs : List Relationship) (lease : OwnerLease)
  | upsertBatchFencedJournaled (ms : List Memory) (rs : List Relationship)
      (prepared : FencedRestore) (cycleId : String) (lease : OwnerLease)
  | completeCycleJournalFenced (cycleId : String) (lease : OwnerLease)
  | settleDreamsCycleFenced (cycleId : String) (records : List DiscoveryRecord)
      (lease : OwnerLease)
  | deleteMemoryFenced (id : MemoryId) (lease : OwnerLease)
  | restoreFenced (restore : FencedRestore) (lease : OwnerLease)
deriving DecidableEq

/-- What a successful call returns. -/
inductive Reply where
  | unit
  | flag (value : Bool)
  | record (record : CommitRecord)
  | records (records : List CommitRecord)
  | ingest (outcome : IngestCommitOutcome)
  | claimed (effect : Option ClaimedPostIngestEffect)
  | lease (lease : OwnerLease)
  | batch (commit : FencedBatchCommit)
deriving DecidableEq

/-- Change the reply of a section. -/
def Outcome.map {α β : Type} (f : α → β) (o : Outcome α) : Outcome β :=
  ⟨o.reply.map f, o.pending, o.post⟩

@[simp] theorem Outcome.map_post {α β : Type} (f : α → β) (o : Outcome α) :
    (o.map f).post = o.post := rfl

theorem Outcome.map_reply_error {α β : Type} {f : α → β} {o : Outcome α} {error : StorageError} :
    (o.map f).reply = .error error ↔ o.reply = .error error := by
  cases o with
  | mk reply pending post => cases reply <;> simp [Outcome.map, Except.map]

namespace Call

open InMemoryStorage

/-- The section a call executes under the mutation gate. -/
def gated (env : Env) (now : DateTime) (s : InMemoryStorage) : Call → Outcome Reply
  | .upsertMemory m => (s.upsertMemory m now).map .record
  | .upsertBatch ms rs => (s.upsertBatch env ms rs now).map .records
  | .upsertBatchAudited ms rs audit => (s.upsertBatchAudited env ms rs audit now).map .records
  | .importBatchOnce importKey ms rs => (s.importBatchOnce env importKey ms rs now).map .flag
  | .upsertBatchOnce operationKey ms rs =>
      (s.upsertBatchOnce env operationKey ms rs now).map .flag
  | .deleteMemory id => (s.deleteMemory id now).map .record
  | .upsertRelationship r => (s.upsertRelationship env r now).map .record
  | .deleteRelationship id => (s.deleteRelationship id now).map .record
  | .appendAudit audit => (s.appendAudit audit now).map .record
  | .deleteRelationshipAudited id audit =>
      (s.deleteRelationshipAudited id audit now).map .record
  | .commitIngestBatch key memories relationships accepted =>
      (s.commitIngestBatch env key memories relationships accepted now).map .ingest
  | .commitIngestBatchWithEffect key memories relationships accepted effect =>
      (s.commitIngestBatchWithEffect env key memories relationships accepted effect now).map
        .ingest
  | .claimIngestEffect claimToken leaseMs =>
      (s.claimIngestEffect claimToken leaseMs now).map .claimed
  | .renewIngestEffectClaim effectId claimToken leaseMs =>
      (s.renewIngestEffectClaim effectId claimToken leaseMs now).map .flag
  | .acknowledgeIngestEffect effectId claimToken =>
      (s.acknowledgeIngestEffect effectId claimToken now).map .flag
  | .completeIngestEffectCleanup effectId => (s.completeIngestEffectCleanup effectId).map .flag
  | .promoteMemoryVisibilityAudited memory audit =>
      (s.promoteMemoryVisibilityAudited memory audit now).map .record
  | .createDiscoveryProposal proposal =>
      (s.createDiscoveryProposal proposal).map fun _ => .unit
  | .storeDiscovery discovery => (s.storeDiscovery discovery).map fun _ => .unit
  | .acceptDiscovery acceptance => (s.acceptDiscovery env acceptance now).map .record
  | .acquireLease key ttl => (s.acquireLease key ttl now).map .lease
  | .renewLease lease => (s.renewLease lease now).map .lease
  | .releaseLease lease => (s.releaseLease lease).map fun _ => .unit
  | .storeDiscoveryFenced discovery lease =>
      (s.storeDiscoveryFenced discovery lease now).map fun _ => .unit
  | .upsertBatchFenced ms rs lease => (s.upsertBatchFenced env ms rs lease now).map .batch
  | .upsertBatchFencedJournaled ms rs prepared cycleId lease =>
      (s.upsertBatchFencedJournaled env ms rs prepared cycleId lease now).map .batch
  | .completeCycleJournalFenced cycleId lease =>
      (s.completeCycleJournalFenced cycleId lease now).map fun _ => .unit
  | .settleDreamsCycleFenced cycleId records lease =>
      (s.settleDreamsCycleFenced env cycleId records lease now).map fun _ => .unit
  | .deleteMemoryFenced id lease => (s.deleteMemoryFenced id lease now).map .record
  | .restoreFenced restore lease => (s.restoreFenced restore lease now).map .records

/-- A whole call: the gated section, then the publication of its events. -/
def run (env : Env) (now : DateTime) (s : InMemoryStorage) (call : Call) :
    Except StorageError Reply × InMemoryStorage :=
  let o := call.gated env now s
  (o.reply, o.pending.foldl publish o.post)

/-- A run: each call at its instant, one after the other. -/
def runAll (env : Env) (s : InMemoryStorage) (calls : List (DateTime × Call)) :
    InMemoryStorage :=
  calls.foldl (fun s call => (call.2.run env call.1 s).2) s

/-- The lease a call presents to the fence. -/
def fencedBy : Call → Option OwnerLease
  | .storeDiscoveryFenced _ lease | .upsertBatchFenced _ _ lease
  | .upsertBatchFencedJournaled _ _ _ _ lease | .completeCycleJournalFenced _ lease
  | .settleDreamsCycleFenced _ _ lease | .deleteMemoryFenced _ lease
  | .restoreFenced _ lease => some lease
  | _ => none

/-- The lease a call presents, to the fence or to the lease table. -/
def presents : Call → Option OwnerLease
  | .renewLease lease | .releaseLease lease => some lease
  | call => call.fencedBy

/-- The call neither names a lease nor asks for one. -/
def Unfenced : Call → Prop
  | .acquireLease _ _ => False
  | call => call.presents = none

/-- The call is a rollback, the one call that removes versions. -/
def IsRestore : Call → Prop
  | .restoreFenced _ _ => True
  | _ => False

instance (call : Call) : Decidable call.IsRestore := by
  cases call <;> first | exact isTrue trivial | exact isFalse id

/-- The call settles an effect, a lease or a journal: nothing a reader of memory sees. -/
def Aside : Call → Prop
  | .appendAudit _ | .claimIngestEffect _ _ | .renewIngestEffectClaim _ _ _
  | .acknowledgeIngestEffect _ _ | .completeIngestEffectCleanup _ | .acquireLease _ _
  | .renewLease _ | .releaseLease _ | .completeCycleJournalFenced _ _ => True
  | _ => False

instance (call : Call) : Decidable call.Aside := by
  cases call <;> first | exact isTrue trivial | exact isFalse id

end Call

/-- The section says nothing and leaves the memory, its feed and its proposals alone. -/
structure Outcome.Idle {α : Type} (s : InMemoryStorage) (o : Outcome α) : Prop where
  pending : o.pending = []
  memories : o.post.memories = s.memories
  rels : o.post.rels = s.rels
  index : o.post.relsByNode = s.relsByNode
  feed : o.post.feed = s.feed
  proposals : o.post.proposals = s.proposals
  discoveries : o.post.discoveries = s.discoveries

namespace Call

open InMemoryStorage

theorem gated_idle (env : Env) (now : DateTime) (s : InMemoryStorage) {call : Call}
    (aside : call.Aside) : (call.gated env now s).Idle s := by
  cases call with
  | appendAudit audit => exact ⟨rfl, rfl, rfl, rfl, rfl, rfl, rfl⟩
  | claimIngestEffect claimToken leaseMs =>
      simp only [gated, InMemoryStorage.claimIngestEffect]
      split
      · exact ⟨rfl, rfl, rfl, rfl, rfl, rfl, rfl⟩
      · split
        · exact ⟨rfl, rfl, rfl, rfl, rfl, rfl, rfl⟩
        · split <;> exact ⟨rfl, rfl, rfl, rfl, rfl, rfl, rfl⟩
  | renewIngestEffectClaim effectId claimToken leaseMs =>
      simp only [gated, InMemoryStorage.renewIngestEffectClaim]
      split
      · exact ⟨rfl, rfl, rfl, rfl, rfl, rfl, rfl⟩
      · split <;> exact ⟨rfl, rfl, rfl, rfl, rfl, rfl, rfl⟩
  | acknowledgeIngestEffect effectId claimToken =>
      simp only [gated, InMemoryStorage.acknowledgeIngestEffect]
      split
      · exact ⟨rfl, rfl, rfl, rfl, rfl, rfl, rfl⟩
      · split <;> exact ⟨rfl, rfl, rfl, rfl, rfl, rfl, rfl⟩
  | completeIngestEffectCleanup effectId =>
      simp only [gated, InMemoryStorage.completeIngestEffectCleanup]
      split
      · exact ⟨rfl, rfl, rfl, rfl, rfl, rfl, rfl⟩
      · split <;> exact ⟨rfl, rfl, rfl, rfl, rfl, rfl, rfl⟩
  | acquireLease key ttl =>
      simp only [gated, InMemoryStorage.acquireLease]
      split <;> exact ⟨rfl, rfl, rfl, rfl, rfl, rfl, rfl⟩
  | renewLease lease =>
      simp only [gated, InMemoryStorage.renewLease]
      split
      · split <;> exact ⟨rfl, rfl, rfl, rfl, rfl, rfl, rfl⟩
      · exact ⟨rfl, rfl, rfl, rfl, rfl, rfl, rfl⟩
  | releaseLease lease =>
      simp only [gated, InMemoryStorage.releaseLease]
      split <;> exact ⟨rfl, rfl, rfl, rfl, rfl, rfl, rfl⟩
  | completeCycleJournalFenced cycleId lease =>
      simp only [gated, InMemoryStorage.completeCycleJournalFenced, InMemoryStorage.fenced]
      split
      · exact ⟨rfl, rfl, rfl, rfl, rfl, rfl, rfl⟩
      · split
        · exact ⟨rfl, rfl, rfl, rfl, rfl, rfl, rfl⟩
        · split <;> exact ⟨rfl, rfl, rfl, rfl, rfl, rfl, rfl⟩
  | _ => exact aside.elim

end Call

end Exocortex
