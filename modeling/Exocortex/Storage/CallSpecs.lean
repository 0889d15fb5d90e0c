import Exocortex.Storage.Restore

/-!
# What each call does

The specifications of the operations, gathered over all calls. `Call.part` names
the protocol a call belongs to. `Call.Wasteful` are the calls that take a number
and publish nothing: an audit append, and the removal of a relationship that is
missing or closed. `gated_sound` is the specification of every call; the case
analysis over the calls is done there, once.

* Every call but a rollback appends rows under the numbers it takes.
* Every call but a wasteful one publishes exactly the numbers it takes.
* A call touches no other protocol than its own.
* **A call that refuses changes nothing but the counter.**
-/

namespace Exocortex

open Library

/-- An environment without relationship kinds: no row has a companion, and no
identity is ever derived. -/
def Env.blank : Env where
  ontology := ⟨∅⟩
  blake3 _ := Bytes.fill 32 0
  sha256 _ := Bytes.fill 32 0
  discoveryJson _ := []

/-- A private memory with an identity and nothing else. -/
def Memory.blank (id : MemoryId) : Memory where
  id := id
  memoryType := 0
  title := ""
  content := ""
  summary := none
  tags := []
  visibility := .private
  provenance := .asserted "" none
  context := ⟨0, none, none, none, none, none, []⟩
  importance := .half
  confidence := .base
  effectiveness := none
  usageCount := 0
  validFrom := 0
  validUntil := none
  recordedAt := 0
  invalidatedBy := none
  embedding := none
  lsn := LSN.newLocal 0
  rights := none

/-- An open private edge between two memories, of the kind 0. -/
def Relationship.blank (id : RelationshipId) (source target : MemoryId) : Relationship where
  id := id
  kind := ⟨0⟩
  source := source
  target := target
  visibility := .private
  provenance := .asserted "" none
  properties := ⟨.zero, .zero, none, 0, none, 0, 0, 0⟩
  description := none
  bidirectional := false
  validFrom := 0
  validUntil := none
  recordedAt := 0
  invalidatedBy := none
  lsn := LSN.newLocal 0

namespace Call

open InMemoryStorage

/-- The protocol a call belongs to. -/
def part : Call → Option Part
  | .commitIngestBatch .. | .commitIngestBatchWithEffect .. | .claimIngestEffect ..
  | .renewIngestEffectClaim .. | .acknowledgeIngestEffect ..
  | .completeIngestEffectCleanup .. => some .outbox
  | .acquireLease .. | .renewLease .. | .releaseLease .. => some .leases
  | .upsertBatchFencedJournaled .. | .completeCycleJournalFenced ..
  | .settleDreamsCycleFenced .. => some .cycles
  | _ => none

/-- The call sends its events while it holds the gate. -/
def InGate : Call → Prop
  | .upsertMemory _ | .upsertRelationship _ | .deleteRelationship _
  | .deleteRelationshipAudited _ _ => True
  | _ => False

/-- The call takes a number that no event carries. -/
def Wasteful (s : InMemoryStorage) : Call → Prop
  | .appendAudit _ => True
  | .deleteRelationship id | .deleteRelationshipAudited id _ => s.openRelationship id = none
  | _ => False

/-- `Wasteful`, computed. -/
def wastes (s : InMemoryStorage) : Call → Bool
  | .appendAudit _ => true
  | .deleteRelationship id | .deleteRelationshipAudited id _ => (s.openRelationship id).isNone
  | _ => false

theorem wastes_iff (s : InMemoryStorage) (call : Call) :
    call.wastes s = true ↔ call.Wasteful s := by
  cases call <;> simp [wastes, Wasteful]

instance (s : InMemoryStorage) (call : Call) : Decidable (call.Wasteful s) :=
  decidable_of_iff _ (wastes_iff s call)

/-- What a call does to the rows, the feed and the protocols, and that it refuses
cleanly. -/
structure Sound (s : InMemoryStorage) (call : Call) (o : Outcome Reply) : Prop where
  grows : ¬ call.IsRestore → s.Grows o.post
  sublist : call.IsRestore → s.lsn ≤ o.post.lsn ∧ ∀ row, (o.post.rows row).Sublist (s.rows row)
  publishes : ¬ call.Wasteful s → Publishes call.InGate s o.post o.pending
  frames : Frames call.part s o.post
  refuses : ∀ error, o.reply = .error error → o.pending = [] ∧ Untouched s o.post

theorem Sound.of_regular {α : Type} {s : InMemoryStorage} {call : Call} {f : α → Reply}
    {o : Outcome α} (notRestore : ¬ call.IsRestore) (regular : Regular call.InGate call.part s o) :
    Sound s call (o.map f) where
  grows _ := regular.grows
  sublist restore := absurd restore notRestore
  publishes _ := regular.publishes
  frames := regular.frames
  refuses := (regular.map f).refuses

/-- A removal that finds nothing open only takes a number. -/
theorem Sound.of_missing {α : Type} {s : InMemoryStorage} {call : Call} {f : α → Reply}
    {o : Outcome α} (notRestore : ¬ call.IsRestore) (wasteful : call.Wasteful s)
    (post : o.post = { s with lsn := s.lsn + 1 }) (pending : o.pending = []) :
    Sound s call (o.map f) where
  grows _ := grows_bump (by simp [post]) (by simp [post]) (by simp [post])
  sublist restore := absurd restore notRestore
  publishes other := absurd wasteful other
  frames p _ := by
    rw [Outcome.map_post, post]
    cases p <;> rfl
  refuses _ _ := ⟨pending, by simp [Untouched, post]⟩

theorem gated_sound (env : Env) (now : DateTime) (s : InMemoryStorage) (call : Call) :
    Sound s call (call.gated env now s) := by
  cases call with
  | upsertMemory m => exact .of_regular id (upsertMemory_regular m)
  | upsertBatch ms rs => exact .of_regular id (upsertBatch_regular)
  | upsertBatchAudited ms rs audit =>
      exact .of_regular id (upsertBatchAudited_regular audit)
  | importBatchOnce importKey ms rs =>
      exact .of_regular id (upsertBatchOnce_regular importKey)
  | upsertBatchOnce operationKey ms rs =>
      exact .of_regular id (upsertBatchOnce_regular operationKey)
  | deleteMemory memory => exact .of_regular id (deleteMemory_regular memory now s)
  | upsertRelationship r => exact .of_regular id (upsertRelationship_regular r)
  | deleteRelationship rel =>
      by_cases missing : s.openRelationship rel = none
      · obtain ⟨post, pending⟩ := deleteRelationship_missing missing now
        exact .of_missing id missing post pending
      · exact .of_regular id (deleteRelationship_open missing)
  | appendAudit audit =>
      refine ⟨fun _ => grows_bump (Nat.le_succ _) rfl rfl, False.elim, fun quiet => ?_, ?_, ?_⟩
      · exact absurd trivial quiet
      · rintro ⟨⟩ - <;> rfl
      · intro error failed
        cases failed
  | deleteRelationshipAudited rel audit =>
      by_cases missing : s.openRelationship rel = none
      · obtain ⟨post, pending⟩ := deleteRelationshipAudited_missing missing audit now
        exact .of_missing id missing post pending
      · exact .of_regular id (deleteRelationshipAudited_open missing audit)
  | commitIngestBatch key memories relationships accepted =>
      exact .of_regular id
        (commitIngestLocked_regular key memories relationships accepted none)
  | commitIngestBatchWithEffect key memories relationships accepted effect =>
      exact .of_regular id
        (commitIngestBatchWithEffect_regular key memories relationships accepted effect)
  | claimIngestEffect claimToken leaseMs =>
      exact .of_regular id (claimIngestEffect_regular claimToken leaseMs)
  | renewIngestEffectClaim effectId claimToken leaseMs =>
      exact .of_regular id (renewIngestEffectClaim_regular effectId claimToken leaseMs)
  | acknowledgeIngestEffect effectId claimToken =>
      exact .of_regular id (acknowledgeIngestEffect_regular effectId claimToken)
  | completeIngestEffectCleanup effectId =>
      exact .of_regular id (completeIngestEffectCleanup_regular effectId)
  | promoteMemoryVisibilityAudited memory audit =>
      exact .of_regular id (promoteMemoryVisibilityAudited_regular memory audit)
  | createDiscoveryProposal proposal =>
      exact .of_regular id (createDiscoveryProposal_regular proposal)
  | storeDiscovery discovery => exact .of_regular id (storeDiscoveryLocked_regular discovery s)
  | acceptDiscovery acceptance =>
      exact .of_regular id (acceptDiscovery_regular acceptance)
  | acquireLease key ttl => exact .of_regular id (acquireLease_regular key ttl)
  | renewLease lease => exact .of_regular id (renewLease_regular)
  | releaseLease lease => exact .of_regular id (releaseLease_regular)
  | storeDiscoveryFenced discovery lease =>
      exact .of_regular id ((storeDiscoveryLocked_regular discovery s).fenced lease now)
  | upsertBatchFenced ms rs lease =>
      exact .of_regular id (upsertBatchFenced_regular)
  | upsertBatchFencedJournaled ms rs prepared cycleId lease =>
      exact .of_regular id
        (upsertBatchFencedJournaled_regular prepared cycleId)
  | completeCycleJournalFenced cycleId lease =>
      exact .of_regular id (completeCycleJournalFenced_regular cycleId)
  | settleDreamsCycleFenced cycleId records lease =>
      exact .of_regular id (settleDreamsCycleFenced_regular cycleId records)
  | deleteMemoryFenced memory lease =>
      exact .of_regular id ((deleteMemory_regular memory now s).fenced lease now)
  | restoreFenced restore lease =>
      refine ⟨fun notRestore => absurd trivial notRestore, fun _ => ?_, fun _ => ?_, ?_, ?_⟩
      · exact restoreFenced_sublist
      · exact restoreFenced_publishes
      · exact restoreFenced_frames
      · exact fun error failed =>
          restoreFenced_refuses error (Outcome.map_reply_error.mp failed)

/-! ## Publication -/

/-- Publishing events only extends the feed and the adjacency index. -/
theorem foldl_publish (events : List Invalidation) : ∀ s : InMemoryStorage,
    ∃ index, events.foldl publish s = { s with relsByNode := index, feed := s.feed ++ events } := by
  induction events with
  | nil => intro s; exact ⟨s.relsByNode, by simp⟩
  | cons event events ih =>
      intro s
      obtain ⟨index, rest⟩ := ih (s.publish event)
      refine ⟨index, ?_⟩
      rw [List.foldl_cons, rest]
      cases event <;> simp [publish, indexInvalidation, indexRelationship, send]

theorem run_state (env : Env) (now : DateTime) (s : InMemoryStorage) (call : Call) :
    ∃ index, (call.run env now s).2 = { (call.gated env now s).post with
      relsByNode := index
      feed := (call.gated env now s).post.feed ++ (call.gated env now s).pending } :=
  foldl_publish _ _

theorem run_rows (env : Env) (now : DateTime) (s : InMemoryStorage) (call : Call) :
    (call.run env now s).2.rows = (call.gated env now s).post.rows ∧
      (call.run env now s).2.lsn = (call.gated env now s).post.lsn := by
  obtain ⟨index, state⟩ := run_state env now s call
  rw [state]
  exact ⟨rfl, rfl⟩

theorem run_view (env : Env) (now : DateTime) (s : InMemoryStorage) (call : Call) (p : Part) :
    (call.run env now s).2.view p = (call.gated env now s).post.view p := by
  obtain ⟨index, state⟩ := run_state env now s call
  rw [state]
  cases p <;> rfl

/-! ## Refusals -/

/-- **A call that returns an error leaves every table and the feed as they were**:
the state after it is the state before it, up to the counter and the fault hook. -/
theorem run_refused_changes_nothing (env : Env) (now : DateTime) (s : InMemoryStorage)
    (call : Call) (error : StorageError) (refused : (call.run env now s).1 = .error error) :
    ∃ lsn armed, (call.run env now s).2 =
      { s with lsn := lsn, failNextIngestCommit := armed } := by
  obtain ⟨quiet, untouched⟩ := (gated_sound env now s call).refuses error refused
  refine ⟨(call.gated env now s).post.lsn, (call.gated env now s).post.failNextIngestCommit, ?_⟩
  have published : (call.run env now s).2 = (call.gated env now s).post := by
    rw [run, quiet, List.foldl_nil]
  rw [published]
  exact untouched

/-- Two notes, and an edge between them that is closed. -/
def closedPair : InMemoryStorage :=
  runAll Env.blank .new
    [(0, .upsertBatch [.blank ⟨.fill 16 1⟩, .blank ⟨.fill 16 2⟩]
      [.blank ⟨.fill 16 9⟩ ⟨.fill 16 1⟩ ⟨.fill 16 2⟩]),
    (1, .deleteRelationship ⟨.fill 16 9⟩)]

/-- The edge is closed a second time: that takes a number and is refused, and nothing else
moves. -/
theorem run_refused_deleteRelationship :
    (run Env.blank 2 closedPair (.deleteRelationship ⟨.fill 16 9⟩)).2.lsn = closedPair.lsn + 1 ∧
    ∃ lsn armed, (run Env.blank 2 closedPair (.deleteRelationship ⟨.fill 16 9⟩)).2 =
      { closedPair with lsn := lsn, failNextIngestCommit := armed } :=
  ⟨by decide +kernel, run_refused_changes_nothing Env.blank 2 closedPair _ _ rfl⟩

end Call

end Exocortex
