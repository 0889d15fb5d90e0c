import Exocortex.Ingest.Submit

/-!
# Who reads what a submission commits

A producer's memory is within the ceiling of its source. On a shared node its author reads it
back; on a personal node, where any project and team may be named, its author reads it back
unless its label is a project or a team that the author was not granted (`Granted`).

An edge is no wider than the two rows it was made from: rows of the batch, or stored targets as
they were read. Where no identity has two labels among these, it is no wider than what is
current at its two ends after the commit.
-/

namespace Exocortex

open Library InMemoryStorage

/-! ## Memories -/

theorem validateDraft_within {ontology : EffectiveOntology} {draft : MemoryDraft} {source : String}
    {ceiling : Visibility} (ok : validateDraft ontology draft source ceiling = .ok ()) :
    draft.visibility.within ceiling := by
  obtain ⟨-, -, -, -, within⟩ := validateFields_ok_iff.mp (validateDraft_ok_iff.mp ok).1
  exact within

/-- The label of a row names a subject that its author was granted, or none. -/
def Granted (principal : VisibilityContext) (row : Memory) : Prop :=
  match row.visibility with
  | .project => row.context.projectId.any (projectGranted · principal.projectIds)
  | .team => row.context.teamId.any (principal.teamIds.contains ·)
  | _ => True

variable {batch : SubmittedBatch} {context : VisibilityContext} {row : Memory}
  {principal : Option VisibilityContext}

/-- What is known of the scope of a row: it is of its author's tenant, and on a shared node it
names only projects and teams that its author belongs to. -/
theorem rowScope_ok {validator : Validator} {label : Visibility} {scope : RowScope}
    (ok : rowScope validator batch label (some context) = .ok scope) :
    scope.tenantId = some context.orgId ∧ scope.userId = some context.userId ∧
      ¬ context.maxVisibility < label ∧
      (validator.allowPersonalScopes = false →
        (label = .project → scope.projectId.any (context.projectIds.contains ·)) ∧
        (label = .team → scope.teamId.any (context.teamIds.contains ·))) := by
  rw [rowScope] at ok
  split at ok
  · cases ok
  next low =>
    split at ok
    · cases ok
    next project =>
      split at ok
      · cases ok
      next team =>
        cases ok
        refine ⟨rfl, rfl, low, fun shared => ⟨fun isProject => ?_, fun isTeam => ?_⟩⟩
        · rw [shared, isProject] at project
          simpa using project
        · rw [shared, isTeam] at team
          simpa using team

theorem projectGranted_of_contains {project : String} {granted : List String}
    (member : granted.contains project) : projectGranted project granted := by
  rw [projectGranted, List.any_eq_true]
  exact ⟨project, List.contains_iff_mem.mp member, by simp⟩

/-- A row of a project or a team that the author belongs to is granted. -/
theorem granted_of_member (project : row.visibility = .project →
      row.context.projectId.any (context.projectIds.contains ·))
    (team : row.visibility = .team → row.context.teamId.any (context.teamIds.contains ·)) :
    Granted context row := by
  rw [Granted]
  split
  next label =>
    obtain ⟨named, isNamed, member⟩ := Option.any_eq_true _ _ |>.mp (project label)
    exact Option.any_eq_true _ _ |>.mpr ⟨named, isNamed, projectGranted_of_contains member⟩
  next label => exact team label
  · trivial

/-- The author of a row within its tenant and ceiling reads it where its label was granted. -/
theorem memoryVisible_author (tenant : row.context.tenantId = some context.orgId)
    (user : row.context.userId = some context.userId)
    (low : ¬ context.maxVisibility < row.visibility) :
    memoryVisible row context ↔ Granted context row := by
  have effective : ¬ context.maxVisibility < row.visibility.effective := by
    cases label : row.visibility with
    | «public» =>
        rw [label] at low
        rw [Visibility.not_lt_iff] at low ⊢
        exact le_trans (by decide) low
    | _ =>
        rw [label] at low
        exact low
  rw [memoryVisible, if_neg (not_not.mpr tenant), if_neg effective, Granted]
  cases label : row.visibility <;> simp [Visibility.effective, user]

section Rows

variable {server : IngestServer} {call : SubmitCall} {state : IngestState} {source : SourceEntry}
  {validated : ValidatedBatch} {times : BatchTimes} {context : VisibilityContext}

/-- What is known of a producer's memory. -/
structure Written (server : IngestServer) (source : SourceEntry) (context : VisibilityContext)
    (row : Memory) : Prop where
  ceiling : row.visibility.within source.ceiling
  tenant : row.context.tenantId = some context.orgId
  user : row.context.userId = some context.userId
  low : ¬ context.maxVisibility < row.visibility
  granted : server.validator.allowPersonalScopes = false → Granted context row

theorem BatchPassed.written (isPrincipal : call.principal = some context)
    (passed : BatchPassed server.validator call.now call.mint call.principal source state.store
      call.batch validated times) :
    ∀ row ∈ (submittedRows server call source validated).producerMemories,
      Written server source context row := by
  refine forall_right (forall₂_trans passed.drafts
    (producerMemories_same server call source validated) ?_)
  · intro draft memory row checked same
    rw [checkDraft, isPrincipal] at checked
    obtain ⟨memoryType, label, scope, validity, rights, labelled, inScope, ruled, rfl⟩ :=
      validateMemory_ok checked
    obtain ⟨tenant, user, low, shared⟩ := rowScope_ok inScope
    rw [same]
    refine ⟨validateDraft_within ruled, tenant, user, low, fun isShared => ?_⟩
    obtain ⟨project, team⟩ := shared isShared
    exact granted_of_member project team

/-! ## Edges -/

/-- The memory of a key is one of the batch or a stored target. -/
theorem draftIds_mem {loaded : Table MemoryId Memory} {memories : List Memory} {key : String}
    {memory : Memory} (found : draftIds loaded principal batch memories key = some memory) :
    memory ∈ memories ++ loaded.values := by
  obtain ⟨entry, last, rfl⟩ := Option.map_eq_some_iff.mp found
  rcases List.mem_append.mp (lastWith_some last).1 with draft | target
  · exact List.mem_append_left _ (List.of_mem_zip draft).2
  · obtain ⟨_, -, stored⟩ := mem_successes.mp target
    exact List.mem_append_right _ (Table.mem_values.mpr ⟨_, (storedTarget_ok stored).2⟩)

/-- The edges of a batch are no wider than the rows they join. -/
theorem BatchPassed.narrow
    (passed : BatchPassed server.validator call.now call.mint call.principal source state.store
      call.batch validated times) :
    ∀ edge ∈ validated.relationships, NarrowIn (validated.known validated.memories) edge := by
  refine forall_right (passed.edges.imp ?_)
  intro draft edge checked
  obtain ⟨fromMemory, toKey, toMemory, kind, isFrom, -, isTo, -, -, rfl⟩ :=
    validateRelationship_ok checked
  have label := relationshipVisibility_rank fromMemory.visibility toMemory.visibility
  exact ⟨fromMemory, draftIds_mem isFrom, toMemory, draftIds_mem isTo, rfl, rfl,
    label.trans_le (min_le_left _ _), label.trans_le (min_le_right _ _)⟩

/-- The rows that the edges of a submission join: those it writes, and its stored targets. -/
def joined (s : InMemoryStorage) (batch : SubmittedBatch) (rows : CommitRows) : List Memory :=
  rows.memories ++ (loadTargets s batch).values

variable {edge : Relationship} {s t : InMemoryStorage} {rows : CommitRows}

theorem BatchPassed.narrow_rows
    (passed : BatchPassed server.validator call.now call.mint call.principal source state.store
      call.batch validated times)
    (isEdge : EdgeOf server.env (submittedRows server call source validated).relationships edge) :
    NarrowIn (joined state.store call.batch (submittedRows server call source validated)) edge := by
  have own : ∀ edge ∈ (submittedRows server call source validated).relationships,
      NarrowIn (joined state.store call.batch (submittedRows server call source validated))
        edge := by
    rw [joined, ← passed.loaded]
    refine materializeCommitRows_narrow fun edge listed => ?_
    refine (passed.narrow edge listed).mono fun row member => ?_
    rcases List.mem_append.mp member with sent | stored
    · obtain ⟨other, written, same⟩ := exists_right (embedMemories_same server _) sent
      refine ⟨other, List.mem_append_left _ written, ?_⟩
      rw [same]
      exact ⟨rfl, rfl⟩
    · exact ⟨row, List.mem_append_right _ stored, rfl, rfl⟩
  rcases isEdge with listed | ⟨other, listed, made⟩
  · exact own edge listed
  · exact materializeInverse_narrow made (own other listed)

/-- No identity has two labels among these rows. -/
def OneLabel (rows : List Memory) : Prop :=
  ∀ left ∈ rows, ∀ right ∈ rows, left.id = right.id → left.visibility = right.visibility

/-- The edge is no wider than what is current at its two ends. -/
def EndsCover (s : InMemoryStorage) (edge : Relationship) : Prop :=
  ∃ source target, s.currentMemory edge.source = some source ∧
    s.currentMemory edge.target = some target ∧
    edge.visibility.rank ≤ source.visibility.rank ∧ edge.visibility.rank ≤ target.visibility.rank

variable {records : List CommitRecord} {events : List Invalidation}

section Joined

variable {env : Env} {now : DateTime} (keyed : Keyed s.rows)
  (written : s.upsertBatchLocked env rows.memories rows.relationships now =
      .ok (records, events, t))
  (labels : OneLabel (joined s batch rows))
include keyed written labels

/-- With one label for each identity, the rows that were joined have the labels that are current
after the commit. -/
theorem joined_current (member : row ∈ joined s batch rows) :
    ∃ current, t.currentMemory row.id = some current ∧ current.visibility = row.visibility := by
  obtain ⟨listed, unlisted⟩ := upsertBatchLocked_memory written row.id
  cases last : lastWith Memory.id row.id rows.memories with
  | some other =>
      obtain ⟨inside, sameId⟩ := lastWith_some last
      obtain ⟨lsn, current⟩ := listed other last
      exact ⟨_, current, labels other (List.mem_append_left _ inside) row member sameId⟩
  | none =>
      rcases List.mem_append.mp member with inside | stored
      · exact absurd rfl (lastWith_eq_none.mp last row inside)
      · obtain ⟨id, found⟩ := Table.mem_values.mp stored
        obtain ⟨rfl, streamed⟩ := loadTargets_lookup found
        rw [unlisted last]
        exact ⟨row, keyed.mem_memories.mp streamed, rfl⟩

theorem NarrowIn.endsCover (narrow : NarrowIn (joined s batch rows) edge) : EndsCover t edge := by
  obtain ⟨source, isSource, target, isTarget, sourceId, targetId, below, above⟩ := narrow
  obtain ⟨here, isHere, hereLabel⟩ := joined_current keyed written labels isSource
  obtain ⟨there, isThere, thereLabel⟩ := joined_current keyed written labels isTarget
  rw [← hereLabel] at below
  rw [← thereLabel] at above
  exact ⟨here, there, sourceId ▸ isHere, targetId ▸ isThere, below, above⟩

end Joined

end Rows

/-! ## Submissions -/

section Submission

variable (server : IngestServer) (call : SubmitCall) (state : IngestState)

theorem registeredSource_peek {source : SourceEntry}
    (found : registeredSource server state call.batch = .ok source) :
    state.sources.peek call.batch.source = some source := by
  obtain ⟨_, -, rest⟩ := bind_eq_ok_iff.mp found
  obtain ⟨entry, peeked, rest⟩ := bind_eq_ok_iff.mp rest
  obtain ⟨_, -, rest⟩ := bind_eq_ok_iff.mp rest
  obtain ⟨_, -, rest⟩ := bind_eq_ok_iff.mp rest
  obtain ⟨_, -, rest⟩ := bind_eq_ok_iff.mp rest
  have same : entry = source := by
    cases declared : entry.projection with
    | none =>
        rw [declared] at rest
        exact Except.ok.inj rest
    | some projection =>
        rw [declared] at rest
        obtain ⟨_, -, rest⟩ := bind_eq_ok_iff.mp rest
        exact Except.ok.inj rest
  rw [← same]
  exact orReject_ok_iff.mp peeked

theorem submitValidated_store (source : SourceEntry) (validated : ValidatedBatch) :
    (submitValidated server call source validated state).2.store =
      ((commitRows call.batch.toIngestBatch (submittedRows server call source validated)).run
        server.env call.committedAt state.store).2 := by
  rw [submitValidated]
  dsimp only
  split
  · rw [rememberAck, finishCommit_store]
  · rw [rememberAck]
  · rfl

theorem requestPrincipal_ok {authority : SourceAuthority} {given : Option VisibilityContext}
    (known : requestPrincipal authority given = .ok principal) : principal = given := by
  rw [requestPrincipal] at known
  split at known
  · cases known
  · exact (Except.ok.inj known).symm

/-- A submission leaves the store as it was, or commits a batch that passed. -/
theorem submit_store :
    (submit server call state).2.store = state.store ∨
    ∃ source validated times,
      registeredSource server state call.batch = .ok source ∧
      BatchPassed server.validator call.now call.mint call.principal source state.store call.batch
        validated times ∧
      (submit server call state).2.store =
        ((commitRows call.batch.toIngestBatch (submittedRows server call source validated)).run
          server.env call.committedAt state.store).2 := by
  have same := (consult_same server state call.batch).1
  rw [submit]
  split
  · exact .inl rfl
  next principal known =>
    split
    · exact .inl rfl
    · split
      · exact .inl rfl
      · split
        · exact .inl rfl
        · dsimp only
          split
          · exact .inl same
          next source found =>
            split
            · exact .inl same
            next validated checked =>
              rw [same] at checked
              obtain ⟨times, passed⟩ := IngestService.validateBatch_ok checked
              rw [requestPrincipal_ok known] at passed
              refine .inr ⟨source, validated, times, found, passed, ?_⟩
              rw [submitValidated_store, same]

/-- A submission leaves the tables as they were, or commits all of a batch that passed. -/
theorem submit_spec :
    ((submit server call state).2.store.memories = state.store.memories ∧
      (submit server call state).2.store.rels = state.store.rels) ∨
    ∃ source validated times,
      registeredSource server state call.batch = .ok source ∧
      BatchPassed server.validator call.now call.mint call.principal source state.store call.batch
        validated times ∧
      ∃ records events t, state.store.upsertBatchLocked server.env
          (submittedRows server call source validated).memories
          (submittedRows server call source validated).relationships call.committedAt =
            .ok (records, events, t) ∧
        (submit server call state).2.store.memories = t.memories ∧
        (submit server call state).2.store.rels = t.rels ∧
        CommittedWhole server call state.store (submit server call state).2.store
          (submittedRows server call source validated) validated.relationships := by
  rcases submit_store server call state with same |
    ⟨source, validated, times, found, passed, store⟩
  · rw [same]
    exact .inl ⟨rfl, rfl⟩
  · rw [store]
    rcases commitRows_run server.env call.batch.toIngestBatch
        (submittedRows server call source validated) call.committedAt state.store with
      ⟨error, failed⟩ | ⟨settled, -, same⟩ |
        ⟨records, events, t, settled, -, written, -, memories, rels⟩
    · obtain ⟨lsn, armed, same⟩ := Call.run_refused_changes_nothing _ _ _ _ _ failed
      rw [same]
      exact .inl ⟨rfl, rfl⟩
    · rw [same]
      exact .inl ⟨rfl, rfl⟩
    · exact .inr ⟨source, validated, times, found, passed, records, events, t, written,
        memories, rels, passed.committedWhole server call state written memories rels⟩

/-- **What a submission commits, its readers may see.** Every memory of the producer is within
the ceiling of its source, and its author reads it exactly when its label was granted, which on
a shared node it is. No edge is wider than the rows it joins; where no identity has two labels
among these, no edge is wider than what is current at its ends after the commit. -/
theorem submit_keeps_readers {context : VisibilityContext} {calls : List (DateTime × Call)}
    (isPrincipal : call.principal = some context)
    (reached : state.store = Call.runAll server.env .new calls) :
    ((submit server call state).2.store.memories = state.store.memories ∧
      (submit server call state).2.store.rels = state.store.rels) ∨
    ∃ source rows edges, state.sources.peek call.batch.source = some source ∧
      CommittedWhole server call state.store (submit server call state).2.store rows edges ∧
      (∀ row ∈ rows.producerMemories, row.visibility.within source.ceiling ∧
        (memoryVisible row context ↔ Granted context row) ∧
        (server.validator.allowPersonalScopes = false → memoryVisible row context)) ∧
      ∀ id, ∀ edge ∈ (submit server call state).2.store.rels.history id,
        edge ∈ state.store.rels.history id ∨
          NarrowIn (joined state.store call.batch rows) edge ∧
            (OneLabel (joined state.store call.batch rows) →
              EndsCover (submit server call state).2.store edge) := by
  rcases submit_spec server call state with same | ⟨source, validated, times, found, passed,
    records, events, t, written, memories, rels, whole⟩
  · exact .inl same
  · refine .inr ⟨source, _, _, registeredSource_peek server call state found, whole, ?_, ?_⟩
    · intro row member
      have wrote := passed.written isPrincipal row member
      have readers := memoryVisible_author wrote.tenant wrote.user wrote.low
      exact ⟨wrote.ceiling, readers, fun shared => readers.mpr (wrote.granted shared)⟩
    · intro id edge member
      obtain ⟨added, appended, edges⟩ := upsertBatchLocked_added written id
      rw [rels, appended] at member
      rcases List.mem_append.mp member with old | new
      · exact .inl old
      · obtain ⟨edge, lsn, isEdge, rfl⟩ := edges edge new
        have narrow := passed.narrow_rows isEdge
        refine .inr ⟨narrow, fun labels => ?_⟩
        have keyed : Keyed state.store.rows := by
          rw [reached]
          exact runAll_keyed server.env calls
        have ends := narrow.endsCover keyed written labels
        rw [EndsCover, currentMemory, currentMemory, memories]
        exact ends

end Submission

/-! ## A shared and a personal node -/

/-- The store after the note was written. -/
def notedStore : InMemoryStorage := Call.runAll Call.pairEnv .new [(0, .upsertMemory acmeNote)]

def notedState : IngestState := { registeredState ["session://1"] with store := notedStore }

theorem submit_keeps_readers_stored :
    ∃ rows edges, CommittedWhole (openServer false)
      (agentCall [sessionEdge "draft" "" acmeNoteText])
        notedStore (submit (openServer false) (agentCall [sessionEdge "draft" "" acmeNoteText])
          notedState).2.store rows edges ∧
      ∀ row ∈ rows.producerMemories, memoryVisible row acmeAgent := by
  rcases submit_keeps_readers (openServer false) (agentCall [sessionEdge "draft" "" acmeNoteText])
    notedState rfl rfl with ⟨memories, -⟩ | ⟨source, rows, edges, -, whole, readers, -⟩
  · exact absurd (congrArg (fun table => table.keys.length) memories) (by decide +kernel)
  · exact ⟨rows, edges, whole, fun row member => (readers row member).2.2 rfl⟩

/-- A draft for a project, sent by an agent that belongs to none. -/
def projectCall : SubmitCall :=
  { agentCall [] with
    batch := { signedBatch [] with
      memories := [{ problemDraft "draft" with visibility := 1 }]
      producer := some ⟨[1], some ⟨"project-created-locally", ""⟩⟩ } }

/-- A server that tells identities apart by the sums of the bytes they are derived from. -/
def summingServer : IngestServer :=
  { openServer false with
    validator := { smallValidator false with
      blake3 := fun bytes => .fill 32 (bytes.foldl (· + ·) 0) } }

/-- A draft for a row of an external table. -/
def rowDraft (key : String) (label : ℤ) : WireMemory :=
  { problemDraft key with
    visibility := label, externalKey := some ⟨List.replicate 16 1, "1", 1⟩ }

/-- One row twice, once for everybody and once for its author, with an edge from the former. -/
def twofoldCall : SubmitCall :=
  { agentCall [sessionEdge "wide" "" acmeNoteText] with
    batch := { signedBatch [sessionEdge "wide" "" acmeNoteText] with
      memories := [rowDraft "wide" 3, rowDraft "narrow" 0] } }

/-- On a personal node an author may name a project that it cannot read; and an edge may be wider
than its end, when a batch holds two drafts for one row. -/
theorem not_submit_keeps_readers :
    (¬ ∀ (server : IngestServer) (call : SubmitCall) (state : IngestState)
      (context : VisibilityContext) (calls : List (DateTime × Call)) (rows : CommitRows)
      (edges : List Relationship), call.principal = some context →
      state.store = Call.runAll server.env .new calls →
      CommittedWhole server call state.store (submit server call state).2.store rows edges →
      ∀ row ∈ rows.producerMemories, memoryVisible row context) ∧
    ¬ ∀ (server : IngestServer) (call : SubmitCall) (state : IngestState)
      (context : VisibilityContext) (calls : List (DateTime × Call)),
      call.principal = some context → state.store = Call.runAll server.env .new calls →
      ∀ id, ∀ edge ∈ (submit server call state).2.store.rels.history id,
        edge ∈ state.store.rels.history id ∨
          EndsCover (submit server call state).2.store edge := by
  constructor
  · intro always
    rcases submit_spec (openServer true) projectCall notedState with ⟨memories, -⟩ |
      ⟨source, validated, times, found, passed, records, events, t, -, -, -, whole⟩
    · exact absurd (congrArg (fun table => table.keys.length) memories) (by decide +kernel)
    · have visible := always _ _ _ acmeAgent _ _ _ rfl rfl whole
      obtain ⟨row, rows, ⟨-, -, label⟩, -, listed⟩ := List.forall₂_cons_left_iff.mp whole.drafts
      have member : row ∈ (submittedRows (openServer true) projectCall source
          validated).producerMemories := by
        rw [listed]
        exact List.mem_cons_self
      have wrote := passed.written rfl row member
      have granted := (memoryVisible_author wrote.tenant wrote.user wrote.low).mp
        (visible row member)
      rw [Granted, ← Except.ok.inj label] at granted
      cases named : row.context.projectId <;> rw [named] at granted <;> cases granted
  · intro always
    have covers := always summingServer twofoldCall notedState acmeAgent _ rfl rfl
    have wide : ∃ id ∈ (submit summingServer twofoldCall notedState).2.store.rels.keys,
        ∃ edge ∈ (submit summingServer twofoldCall notedState).2.store.rels.history id,
          edge ∉ notedState.store.rels.history id ∧
          ((submit summingServer twofoldCall notedState).2.store.currentMemory edge.source).all
            (·.visibility.rank < edge.visibility.rank) := by decide +kernel
    obtain ⟨id, -, edge, member, new, wider⟩ := wide
    rcases covers id edge member with old | ⟨source, -, current, -, below, -⟩
    · exact new old
    · rw [current, Option.all_some, decide_eq_true_iff] at wider
      exact absurd below (Nat.not_le.mpr wider)

end Exocortex
