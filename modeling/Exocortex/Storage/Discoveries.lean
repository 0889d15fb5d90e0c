import Exocortex.Storage.CallSpecs

/-!
# The life of a discovery

A discovery is stored, then moved to a proposal, then accepted. Three calls store
discoveries, one moves them and one accepts them; every other call leaves both tables
alone (`gated_moves`).

In no reachable state is an identity in both tables, a proposal once accepted stays
accepted, and no identity is accepted twice. An acceptance writes the proposed edge
once, its companion at most once, and one audit row.
-/

namespace Exocortex

open Library

variable {env : Env} {now : DateTime} {stored : StoredProposal} {id : String}

namespace InMemoryStorage

/-- The proposal of an identity, unless it was accepted. -/
def getDiscoveryProposal (discoveryId : String) (s : InMemoryStorage) :
    Option DiscoveryProposal :=
  ((s.proposals.lookup discoveryId).filter fun stored => !stored.consumed).map
    StoredProposal.proposal

/-- The ways one call changes the two tables. -/
inductive Moves (s t : InMemoryStorage) : Prop where
  /-- Neither table changes. -/
  | still (proposals : t.proposals = s.proposals) (discoveries : t.discoveries = s.discoveries)
  /-- Discoveries without a proposal are added. -/
  | recorded (proposals : t.proposals = s.proposals)
      (fresh : ∀ id ∈ t.discoveries, id ∈ s.discoveries ∨ id ∉ s.proposals)
  /-- A discovery becomes a proposal. -/
  | proposed (id : String) (proposal : DiscoveryProposal) (absent : id ∉ s.proposals)
      (proposals : t.proposals = s.proposals.insert id ⟨proposal, false⟩)
      (discoveries : t.discoveries = s.discoveries.erase id)
  /-- A proposal is consumed. -/
  | accepted (id : String) (stored : StoredProposal)
      (found : s.proposals.lookup id = some stored) (unconsumed : stored.consumed = false)
      (proposals : t.proposals = s.proposals.insert id { stored with consumed := true })
      (discoveries : t.discoveries = s.discoveries)

variable {s t u : InMemoryStorage}

theorem Moves.refl (s : InMemoryStorage) : Moves s s := .still rfl rfl

/-- Changes elsewhere do not matter. -/
theorem Moves.congr (moves : Moves s t) (proposals : u.proposals = t.proposals)
    (discoveries : u.discoveries = t.discoveries) : Moves s u := by
  cases moves with
  | still sameProposals sameDiscoveries =>
      exact .still (proposals.trans sameProposals) (discoveries.trans sameDiscoveries)
  | recorded sameProposals fresh =>
      exact .recorded (proposals.trans sameProposals) (discoveries ▸ fresh)
  | proposed id proposal absent inserted erased =>
      exact .proposed id proposal absent (proposals.trans inserted) (discoveries.trans erased)
  | accepted id stored found unconsumed inserted same =>
      exact .accepted id stored found unconsumed (proposals.trans inserted)
        (discoveries.trans same)

theorem Moves.fenced {α : Type} {o : Outcome α} (moves : Moves s o.post) (lease : OwnerLease)
    (now : DateTime) : Moves s (s.fenced lease now o).post := by
  rw [InMemoryStorage.fenced]
  split
  · exact .refl s
  · exact moves

/-! ## One call -/

theorem createDiscoveryProposal_moves (proposal : DiscoveryProposal) :
    Moves s (s.createDiscoveryProposal proposal).post := by
  rw [createDiscoveryProposal]
  split
  · exact .refl s
  · split
    · split
      · split <;> exact .refl s
      · exact .refl s
    · next absent =>
        split
        · exact .refl s
        · split
          · exact .refl s
          · exact .proposed proposal.discoveryId proposal (AList.lookup_eq_none.mp absent) rfl rfl

theorem storeDiscoveryLocked_moves (discovery : DiscoveryRecord) (s : InMemoryStorage) :
    Moves s (s.storeDiscoveryLocked discovery).post := by
  rw [storeDiscoveryLocked]
  split
  · exact .refl s
  · next absent =>
      split
      · split <;> exact .refl s
      · refine .recorded rfl fun id member => ?_
        rcases (AList.mem_insert _).mp member with rfl | old
        · exact .inr absent
        · exact .inl old

theorem settleDiscoveries_moves (records : List DiscoveryRecord) (events : List Invalidation)
    (s t : InMemoryStorage) (proposals : t.proposals = s.proposals)
    (fresh : ∀ id ∈ t.discoveries, id ∈ s.discoveries ∨ id ∉ s.proposals)
    (clear : ∀ record ∈ records, record.discoveryId ∉ s.proposals) :
    Moves s (records.foldl settleDiscovery (t, events)).1 := by
  induction records generalizing t events with
  | nil => exact .recorded proposals fresh
  | cons record records ih =>
      rw [List.forall_mem_cons] at clear
      rw [List.foldl_cons, settleDiscovery]
      dsimp only
      split
      · exact ih events t proposals fresh clear.2
      · refine ih _ _ proposals (fun id member => ?_) clear.2
        rcases (AList.mem_insert _).mp member with rfl | old
        · exact .inr clear.1
        · exact fresh id old

theorem settleDreamsCycleFenced_moves (cycleId : String) (records : List DiscoveryRecord)
    (lease : OwnerLease) :
    Moves s (s.settleDreamsCycleFenced env cycleId records lease now).post := by
  rw [settleDreamsCycleFenced]
  split
  · exact .refl s
  · refine Moves.fenced ?_ lease now
    split
    · split <;> exact .refl s
    · split
      · exact .refl s
      · split
        · exact .refl s
        · next noConflict =>
            have clear : ∀ record ∈ records, record.discoveryId ∉ s.proposals := by
              intro record member inProposals
              refine noConflict (List.any_eq_true.mpr ⟨record, member, ?_⟩)
              simp [discoveryConflict, inProposals]
            exact (settleDiscoveries_moves records [] s s rfl (fun _ => .inl) clear).congr rfl rfl

theorem acceptDiscovery_moves (acceptance : DiscoveryAcceptance) :
    Moves s (s.acceptDiscovery env acceptance now).post := by
  rw [acceptDiscovery]
  split
  · exact .refl s
  · next stored found =>
      split
      · exact .refl s
      · next unconsumed =>
          split
          · exact .refl s
          · exact .accepted acceptance.discoveryId stored found (by simpa using unconsumed) rfl rfl

/-! ### The calls that leave both tables alone -/

theorem upsertRelationship_moves (r : Relationship) :
    Moves s (s.upsertRelationship env r now).post := by
  rw [upsertRelationship]
  dsimp only
  split
  · exact .still rfl rfl
  · split <;> exact .still rfl rfl

theorem Stages.moves {α : Type} {ms : List Memory} {rs : List Relationship} {o : Outcome α}
    (stages : Stages env ms rs now s o) : Moves s o.post := by
  rcases stages with ⟨-, -, -, -, -, proposals, discoveries⟩ |
    ⟨records, t, committed, -, -, -, -, -, proposals, discoveries⟩
  · exact .still proposals discoveries
  · have only := (upsertBatchLocked_spec committed).onlyRows
    exact .still (proposals.trans (congrArg InMemoryStorage.proposals only :))
      (discoveries.trans (congrArg InMemoryStorage.discoveries only :))

theorem deleteMemory_moves (id : MemoryId) (now : DateTime) (s : InMemoryStorage) :
    Moves s (s.deleteMemory id now).post := by
  unfold deleteMemory deleteMemoryLocked
  cases (s.memories.history id).getLast? <;> exact .still rfl rfl

end InMemoryStorage

namespace Call

open InMemoryStorage

/-- **One call changes the two tables in one of four ways.** -/
theorem gated_moves (env : Env) (now : DateTime) (s : InMemoryStorage) (call : Call) :
    Moves s (call.gated env now s).post := by
  by_cases aside : call.Aside
  · obtain ⟨-, -, -, -, -, proposals, discoveries⟩ := gated_idle env now s aside
    exact .still proposals discoveries
  by_cases batch : call.batch = none
  · cases call with
    | upsertMemory m => exact .still rfl rfl
    | deleteMemory id => exact deleteMemory_moves id now s
    | upsertRelationship r => exact upsertRelationship_moves r
    | deleteRelationship id =>
        simp only [gated, Outcome.map_post, InMemoryStorage.deleteRelationship]
        split <;> exact .still rfl rfl
    | deleteRelationshipAudited id audit =>
        simp only [gated, Outcome.map_post, InMemoryStorage.deleteRelationshipAudited]
        split <;> exact .still rfl rfl
    | promoteMemoryVisibilityAudited memory audit =>
        simp only [gated, Outcome.map_post, InMemoryStorage.promoteMemoryVisibilityAudited]
        split
        · exact .refl s
        · split <;> exact .still rfl rfl
    | createDiscoveryProposal proposal => exact createDiscoveryProposal_moves proposal
    | storeDiscovery discovery => exact storeDiscoveryLocked_moves discovery s
    | acceptDiscovery acceptance => exact acceptDiscovery_moves acceptance
    | storeDiscoveryFenced discovery lease =>
        exact (storeDiscoveryLocked_moves discovery s).fenced lease now
    | settleDreamsCycleFenced cycleId records lease =>
        exact settleDreamsCycleFenced_moves cycleId records lease
    | deleteMemoryFenced id lease => exact (deleteMemory_moves id now s).fenced lease now
    | restoreFenced restore lease =>
        simp only [gated, Outcome.map_post, InMemoryStorage.restoreFenced]
        refine Moves.fenced ?_ lease now
        exact .still rfl rfl
    | _ => first | exact absurd trivial aside | cases batch
  · obtain ⟨⟨ms, rs⟩, batch⟩ := Option.ne_none_iff_exists'.mp batch
    exact (gated_stages env now s batch).moves

theorem run_moves (env : Env) (now : DateTime) (s : InMemoryStorage) (call : Call) :
    Moves s (call.run env now s).2 := by
  obtain ⟨index, state⟩ := run_state env now s call
  rw [state]
  exact (gated_moves env now s call).congr rfl rfl

end Call

namespace InMemoryStorage

variable {s t : InMemoryStorage}

/-- No identity is at once a discovery and a proposal. -/
def TablesApart (s : InMemoryStorage) : Prop := ∀ id ∈ s.discoveries, id ∉ s.proposals

theorem TablesApart.moves (apart : s.TablesApart) (moves : Moves s t) : t.TablesApart := by
  intro id stored
  cases moves with
  | still proposals discoveries =>
      rw [proposals]
      exact apart id (discoveries ▸ stored)
  | recorded proposals fresh =>
      rw [proposals]
      exact (fresh id stored).elim (apart id) fun absent => absent
  | proposed moved proposal absent proposals discoveries =>
      rw [discoveries] at stored
      obtain ⟨other, known⟩ := AList.mem_erase.mp stored
      rw [proposals]
      intro inProposals
      rcases (AList.mem_insert _).mp inProposals with same | old
      · exact other same
      · exact apart id known old
  | accepted consumed proposal found unconsumed proposals discoveries =>
      rw [discoveries] at stored
      rw [proposals]
      intro inProposals
      rcases (AList.mem_insert _).mp inProposals with rfl | old
      · exact apart _ stored (AList.lookup_isSome.mp (Option.isSome_of_eq_some found))
      · exact apart id stored old

/-- An accepted proposal stays as it is. -/
theorem Moves.keeps_consumed (moves : Moves s t) (found : s.proposals.lookup id = some stored)
    (consumed : stored.consumed = true) : t.proposals.lookup id = some stored := by
  cases moves with
  | still proposals _ => rw [proposals, found]
  | recorded proposals _ => rw [proposals, found]
  | proposed moved proposal absent proposals _ =>
      have other : id ≠ moved := fun same =>
        absent (same ▸ AList.lookup_isSome.mp (Option.isSome_of_eq_some found))
      rw [proposals, AList.lookup_insert_ne other, found]
  | accepted other pending present unconsumed proposals _ =>
      have apart : id ≠ other := by
        rintro rfl
        rw [found] at present
        cases present
        rw [consumed] at unconsumed
        cases unconsumed
      rw [proposals, AList.lookup_insert_ne apart, found]

/-- A successful acceptance found the proposal it names, unconsumed and equal to it
field by field; it writes the edge, its companion if it has one, and one audit row. -/
theorem acceptDiscovery_ok {acceptance : DiscoveryAcceptance} {record : CommitRecord}
    (ok : (s.acceptDiscovery env acceptance now).reply = .ok record) :
    ∃ stored, s.proposals.lookup acceptance.discoveryId = some stored ∧
      stored.consumed = false ∧ acceptanceMismatch stored.proposal acceptance = false ∧
      record = .at (s.lsn + 1) now ∧
      (s.acceptDiscovery env acceptance now).post = { s with
        proposals := s.proposals.insert acceptance.discoveryId { stored with consumed := true }
        rels := (s.stageAcceptance env acceptance.relationship now).rels
        audits := s.audits ++ [auditValue acceptance.audit (s.lsn + 1)]
        lsn := (s.stageAcceptance env acceptance.relationship now).next } := by
  rw [acceptDiscovery] at ok ⊢
  split at ok
  · cases ok
  · next stored found =>
      split at ok
      · cases ok
      · next unconsumed =>
          split at ok
          · cases ok
          · next matching =>
              cases ok
              rw [found]
              simp only [if_neg unconsumed, if_neg matching]
              exact ⟨stored, rfl, by simpa using unconsumed, by simpa using matching, trivial, rfl⟩

/-- The versions an acceptance writes. -/
def acceptedVersions (env : Env) (relationship : Relationship) (lsn : ℕ) : List Relationship :=
  { relationship with lsn := LSN.newBackend lsn } ::
    ((env.inverse relationship).map fun inverse =>
      { inverse with lsn := LSN.newBackend (lsn + 1) }).toList

theorem stageAcceptance_rels (relationship : Relationship) :
    (s.stageAcceptance env relationship now).rels =
      (acceptedVersions env relationship (s.lsn + 1)).foldl
        (fun rels version => rels.push version.id version) s.rels := by
  rw [stageAcceptance, acceptedVersions]
  cases env.inverse relationship with
  | none => rfl
  | some inverse => rfl

/-- An accepted proposal is neither returned, nor issued again, nor accepted again, and
its identity is not stored as a discovery again. -/
theorem consumed_final (found : s.proposals.lookup id = some stored)
    (consumed : stored.consumed = true) :
    s.getDiscoveryProposal id = none ∧
      (∀ proposal, proposal.discoveryId = id →
        (s.createDiscoveryProposal proposal).reply ≠ .ok ()) ∧
      (∀ env now acceptance record, acceptance.discoveryId = id →
        (s.acceptDiscovery env acceptance now).reply ≠ .ok record) ∧
      (∀ discovery, discovery.discoveryId = id → (s.storeDiscovery discovery).reply ≠ .ok ()) ∧
      (∀ discovery lease now, discovery.discoveryId = id →
        (s.storeDiscoveryFenced discovery lease now).reply ≠ .ok ()) := by
  have present : id ∈ s.proposals := AList.lookup_isSome.mp (Option.isSome_of_eq_some found)
  have refused : ∀ discovery : DiscoveryRecord, discovery.discoveryId = id →
      (s.storeDiscoveryLocked discovery).reply = .error .proposalMismatch := by
    rintro discovery rfl
    rw [storeDiscoveryLocked, if_pos present]
    rfl
  refine ⟨?_, ?_, ?_, ?_, ?_⟩
  · simp [getDiscoveryProposal, found, consumed]
  · rintro proposal rfl ok
    rw [createDiscoveryProposal, found] at ok
    split at ok
    · cases ok
    · dsimp only at ok
      split at ok
      · cases ok
      · cases ok
  · rintro env now acceptance record rfl ok
    obtain ⟨other, same, unconsumed, -⟩ := acceptDiscovery_ok ok
    rw [found] at same
    cases same
    rw [consumed] at unconsumed
    cases unconsumed
  · intro discovery same ok
    rw [storeDiscovery, refused discovery same] at ok
    cases ok
  · intro discovery lease now same ok
    rw [storeDiscoveryFenced, fenced] at ok
    split at ok
    · cases ok
    · rw [refused discovery same] at ok
      cases ok

end InMemoryStorage

/-! ## Runs -/

namespace Call

open InMemoryStorage

/-- The identity a call accepts, when it is an acceptance that succeeds. -/
def accepts (env : Env) (now : DateTime) (s : InMemoryStorage) : Call → Option String
  | .acceptDiscovery acceptance =>
      match (s.acceptDiscovery env acceptance now).reply with
      | .ok _ => some acceptance.discoveryId
      | .error _ => none
  | _ => none

/-- The identities accepted along a run, in order. -/
def acceptedIds (env : Env) (s : InMemoryStorage) : List (DateTime × Call) → List String
  | [] => []
  | (now, call) :: calls =>
      (call.accepts env now s).toList ++ acceptedIds env (call.run env now s).2 calls

variable {s : InMemoryStorage}

theorem accepts_some {call : Call} (accepted : call.accepts env now s = some id) :
    ∃ stored, s.proposals.lookup id = some stored ∧ stored.consumed = false ∧
      (call.run env now s).2.proposals.lookup id = some { stored with consumed := true } := by
  cases call with
  | acceptDiscovery acceptance =>
      rw [accepts] at accepted
      split at accepted
      · next record ok =>
          cases accepted
          obtain ⟨stored, found, unconsumed, -, -, post⟩ := acceptDiscovery_ok ok
          refine ⟨stored, found, unconsumed, ?_⟩
          obtain ⟨index, state⟩ := run_state env now s (.acceptDiscovery acceptance)
          have proposals : (gated env now s (.acceptDiscovery acceptance)).post.proposals =
              s.proposals.insert acceptance.discoveryId { stored with consumed := true } := by
            rw [gated, Outcome.map_post, post]
          rw [state]
          dsimp only
          rw [proposals]
          exact AList.lookup_insert _
      · cases accepted
  | _ => cases accepted

theorem runAll_tablesApart (env : Env) (calls : List (DateTime × Call)) (apart : s.TablesApart) :
    (runAll env s calls).TablesApart := by
  induction calls generalizing s with
  | nil => exact apart
  | cons call calls ih => exact ih (apart.moves (run_moves env call.1 s call.2))

theorem runAll_keeps_consumed (env : Env) (calls : List (DateTime × Call))
    (found : s.proposals.lookup id = some stored) (consumed : stored.consumed = true) :
    (runAll env s calls).proposals.lookup id = some stored := by
  induction calls generalizing s with
  | nil => exact found
  | cons call calls ih =>
      exact ih ((run_moves env call.1 s call.2).keeps_consumed found consumed)

/-- An identity whose proposal was accepted before is not accepted along a run. -/
theorem not_mem_acceptedIds (calls : List (DateTime × Call))
    (found : s.proposals.lookup id = some stored) (consumed : stored.consumed = true) :
    id ∉ acceptedIds env s calls := by
  induction calls generalizing s with
  | nil => exact List.not_mem_nil
  | cons call calls ih =>
      obtain ⟨now, call⟩ := call
      rw [acceptedIds, List.mem_append, Option.mem_toList, not_or]
      refine ⟨fun accepted => ?_, ?_⟩
      · obtain ⟨other, same, unconsumed, -⟩ := accepts_some accepted
        rw [found] at same
        cases same
        rw [consumed] at unconsumed
        cases unconsumed
      · exact ih ((run_moves env now s call).keeps_consumed found consumed)

theorem acceptedIds_nodup (env : Env) (calls : List (DateTime × Call)) (s : InMemoryStorage) :
    (acceptedIds env s calls).Nodup := by
  induction calls generalizing s with
  | nil => exact List.nodup_nil
  | cons call calls ih =>
      obtain ⟨now, call⟩ := call
      rw [acceptedIds]
      cases accepted : call.accepts env now s with
      | none => exact ih _
      | some id =>
          obtain ⟨stored, -, -, found⟩ := accepts_some accepted
          exact List.nodup_cons.mpr ⟨not_mem_acceptedIds calls found rfl, ih _⟩

/-- **The life of a discovery**: in every state a run of calls reaches, the two tables
are apart and no identity has been accepted twice. A successful acceptance writes the
edge of the stored proposal once, its companion at most once and one audit row; and a
proposal once accepted stays accepted, is not returned and is refused everywhere. -/
theorem runAll_discovery_lifeCycle (env : Env) (calls : List (DateTime × Call)) :
    let s := runAll env .new calls
    (∀ id, ¬ (id ∈ s.discoveries ∧ id ∈ s.proposals)) ∧
      (acceptedIds env .new calls).Nodup ∧
      (∀ now acceptance record,
        (run env now s (.acceptDiscovery acceptance)).1 = .ok (.record record) →
        ∃ stored, s.proposals.lookup acceptance.discoveryId = some stored ∧
          stored.consumed = false ∧
          acceptance.relationship.source = stored.proposal.source ∧
          acceptance.relationship.target = stored.proposal.target ∧
          acceptance.relationship.kind = stored.proposal.kind ∧
          acceptance.relationship.visibility = stored.proposal.proposedVisibility ∧
          acceptance.callerScope = stored.proposal.callerScope ∧
          (run env now s (.acceptDiscovery acceptance)).2.rels =
            (acceptedVersions env acceptance.relationship record.lsn).foldl
              (fun rels version => rels.push version.id version) s.rels ∧
          (run env now s (.acceptDiscovery acceptance)).2.audits =
            s.audits ++ [auditValue acceptance.audit record.lsn]) ∧
      (∀ id stored, s.proposals.lookup id = some stored → stored.consumed = true →
        ∀ later,
          let t := runAll env s later
          t.proposals.lookup id = some stored ∧ id ∉ t.discoveries ∧
          t.getDiscoveryProposal id = none ∧
          (∀ proposal, proposal.discoveryId = id →
            (t.createDiscoveryProposal proposal).reply ≠ .ok ()) ∧
          (∀ env now acceptance record, acceptance.discoveryId = id →
            (t.acceptDiscovery env acceptance now).reply ≠ .ok record) ∧
          (∀ discovery, discovery.discoveryId = id →
            (t.storeDiscovery discovery).reply ≠ .ok ()) ∧
          (∀ discovery lease now, discovery.discoveryId = id →
            (t.storeDiscoveryFenced discovery lease now).reply ≠ .ok ())) := by
  intro s
  have apart : s.TablesApart :=
    runAll_tablesApart env calls fun id stored => absurd stored (AList.notMem_empty id)
  refine ⟨fun id both => apart id both.1 both.2, acceptedIds_nodup env calls .new, ?_, ?_⟩
  · intro now acceptance record ok
    have accepted : (s.acceptDiscovery env acceptance now).reply = .ok record := by
      rw [run, gated, Outcome.map] at ok
      cases reply : (s.acceptDiscovery env acceptance now).reply with
      | error error => simp [reply, Except.map] at ok
      | ok other => simpa [reply, Except.map] using ok
    obtain ⟨stored, found, unconsumed, matching, number, post⟩ := acceptDiscovery_ok accepted
    obtain ⟨index, state⟩ := run_state env now s (.acceptDiscovery acceptance)
    rw [gated, Outcome.map_post, post] at state
    simp only [acceptanceMismatch, Bool.or_eq_false_iff, decide_eq_false_iff_not, not_not,
      ne_eq] at matching
    obtain ⟨⟨⟨⟨⟨⟨⟨⟨-, scope⟩, source⟩, target⟩, kind⟩, visibility⟩, -⟩, -⟩, -⟩ := matching
    refine ⟨stored, found, unconsumed, source.symm, target.symm, kind.symm, visibility.symm,
      scope.symm, ?_, ?_⟩
    · rw [state, number]
      exact stageAcceptance_rels acceptance.relationship
    · rw [state, number]
      rfl
  · intro id stored found consumed later t
    have kept := runAll_keeps_consumed env later found consumed
    have present : id ∈ t.proposals := AList.lookup_isSome.mp (Option.isSome_of_eq_some kept)
    refine ⟨kept, fun stored => ?_, consumed_final kept consumed⟩
    exact runAll_tablesApart env later apart id stored present

end Call

end Exocortex
