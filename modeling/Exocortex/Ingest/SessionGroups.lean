import Exocortex.Ingest.Readers

/-!
# The group of a session, batch after batch

The batches of a session share one grouping node. Each of them writes the node anew, with the
narrowest label of its own memories and the scope of the first of these; the memories of earlier
batches stay linked to it.

A batch leaves the node no wider than its members when its narrowest label is no wider than that
of any member it does not rewrite, and it leaves the readers of the node their access when the
node's audience lies within the batch's own (`Admits`). A session all of whose batches are such
has both at every point (`sessionMachine_run`).
-/

namespace Exocortex

open Library InMemoryStorage

/-! ## Groups -/

/-- A group as it is read: the current version of its node, and those of its members. -/
structure GroupView where
  node : Option Memory
  linked : Memory → Prop

namespace GroupView

/-- The node is no wider than any member. -/
def Narrow (view : GroupView) : Prop :=
  ∀ node ∈ view.node, ∀ member, view.linked member →
    node.visibility.rank ≤ member.visibility.rank

/-- Whoever read the node reads it still. -/
def Keeps (before after : GroupView) : Prop :=
  ∀ node ∈ before.node, ∃ later ∈ after.node, node.readers ⊆ later.readers

theorem Keeps.refl (view : GroupView) : view.Keeps view :=
  fun node current => ⟨node, current, subset_rfl⟩

/-- Rows of the given identities join a group, with a node like the given one. -/
structure Joins (planned : Memory) (rewrites : MemoryId → Prop) (before after : GroupView) :
    Prop where
  label : ∀ node ∈ after.node, node.visibility = planned.visibility
  node : ∀ node ∈ before.node, ∃ later ∈ after.node, later.audience = planned.audience
  linked : ∀ member, after.linked member → planned.visibility.rank ≤ member.visibility.rank ∨
    ∃ old, before.linked old ∧ ¬ rewrites old.id ∧ old.visibility = member.visibility

/-- The group can take such a node: it is no wider than the members that are not rewritten, and
its audience is not smaller. -/
structure Admits (planned : Memory) (rewrites : MemoryId → Prop) (before : GroupView) : Prop where
  members : ∀ member, before.linked member →
    rewrites member.id ∨ planned.visibility.rank ≤ member.visibility.rank
  readers : ∀ node ∈ before.node, node.AudienceWithin planned

variable {planned : Memory} {rewrites : MemoryId → Prop} {before after : GroupView}

theorem Joins.narrow (joins : Joins planned rewrites before after)
    (admits : Admits planned rewrites before) : after.Narrow := by
  intro node current member linked
  rw [joins.label node current]
  rcases joins.linked member linked with wide | ⟨old, wasLinked, kept, label⟩
  · exact wide
  · rw [← label]
    exact (admits.members old wasLinked).resolve_left kept

theorem Joins.keeps (joins : Joins planned rewrites before after)
    (admits : Admits planned rewrites before) : before.Keeps after := by
  intro node current
  obtain ⟨later, isLater, audience⟩ := joins.node node current
  refine ⟨later, isLater, readers_subset_iff.mpr ?_⟩
  rw [Memory.AudienceWithin, audience]
  exact admits.readers node current

end GroupView

/-! ## Labels and scopes of a batch -/

/-- The label of a batch's grouping node. -/
def groupLabel (batch : SubmittedBatch) : Visibility :=
  match batch.memories.filterMap fun draft => (visFromI32 draft.visibility).toOption with
  | [] => .project
  | first :: rest => (first :: rest).foldl relationshipVisibility first

/-- The scope of the rows of a batch. -/
def givenScope (principal : Option VisibilityContext) (batch : SubmittedBatch) : RowScope :=
  match principal with
  | none => ⟨none, none, none, none⟩
  | some principal => ⟨some principal.orgId, some principal.userId,
      requested batch (·.projectId), requested batch (·.teamId)⟩

/-- A memory with the label and the scope that a batch gives to its grouping node. -/
def plannedNode (principal : Option VisibilityContext) (batch : SubmittedBatch) : Memory :=
  let scope := if batch.memories.isEmpty then ⟨none, none, none, none⟩
    else givenScope principal batch
  { Memory.blank ⟨.fill 16 0⟩ with
    visibility := groupLabel batch
    context := ⟨0, scope.projectId, scope.teamId, scope.tenantId, none, scope.userId, []⟩ }

variable {batch : SubmittedBatch} {validator : Validator}

theorem rowScope_eq {label : Visibility} {principal : Option VisibilityContext} {scope : RowScope}
    (ok : rowScope validator batch label principal = .ok scope) :
    scope = givenScope principal batch := by
  cases principal with
  | none => exact (Except.ok.inj ok).symm
  | some principal =>
      rw [rowScope] at ok
      split at ok
      · cases ok
      · split at ok
        · cases ok
        · split at ok
          · cases ok
          · exact (Except.ok.inj ok).symm

/-- The labels of the drafts are those of the rows. -/
theorem draft_labels {drafts : List WireMemory} {rows : List Memory}
    (carried : List.Forall₂ Carries drafts rows) :
    drafts.filterMap (fun draft => (visFromI32 draft.visibility).toOption) =
      rows.map (·.visibility) := by
  induction carried with
  | nil => rfl
  | cons here _ ih =>
      rw [List.filterMap_cons, here.2.2, ih]
      rfl

variable {node : Memory} {s t : InMemoryStorage} {records : List CommitRecord}
  {events : List Invalidation}

section Carried

variable {batch : SubmittedBatch} {rows : List Memory}
  (carried : List.Forall₂ Carries batch.memories rows)
include carried

theorem groupLabel_le : ∀ row ∈ rows, (groupLabel batch).rank ≤ row.visibility.rank := by
  intro row member
  rw [groupLabel, draft_labels carried]
  cases rows with
  | nil => cases member
  | cons first rest =>
      exact (foldl_relationshipVisibility_le _ _).2 _ (List.mem_map_of_mem member)

/-- The node of a batch has the label of its drafts. -/
theorem withScope_label (label : node.visibility = .project) :
    (withScope rows node).visibility = groupLabel batch := by
  rw [groupLabel, draft_labels carried]
  cases rows with
  | nil => exact label
  | cons first rest =>
      change narrowestLabel first (first :: rest) = _
      rw [narrowestLabel, ← List.foldl_map]
      rfl

end Carried

theorem audience_congr {left right : Memory} (label : left.visibility = right.visibility)
    (tenant : left.context.tenantId = right.context.tenantId)
    (user : left.context.userId = right.context.userId)
    (project : left.context.projectId = right.context.projectId)
    (team : left.context.teamId = right.context.teamId) : left.audience = right.audience := by
  rw [Memory.audience, Memory.audience, Memory.scope, Memory.scope, label, tenant, user, project,
    team]

theorem audience_of_no_tenant (memory : Memory) (tenant : memory.context.tenantId = none) :
    memory.audience = none := by
  rw [Memory.audience, tenant]

/-! ## The rows of a batch in its group -/

/-- The identity of a session's node. -/
abbrev SessionNode (validator : Validator) (rule : GroupingRule) (org key : String) : MemoryId :=
  groupingId validator.blake3 org rule.flavor key

/-- A group as a store has it. -/
def groupView (validator : Validator) (rule : GroupingRule) (org key : String)
    (s : InMemoryStorage) : GroupView where
  node := (validator.ontology.memoryTypeId rule.nodeType).bind fun _ =>
    s.currentMemory (SessionNode validator rule org key)
  linked member := ∃ id edge, s.currentRelationship id = some edge ∧ edge.validUntil = none ∧
    validator.ontology.kindId rule.edgeKind = some edge.kind ∧
    edge.target = SessionNode validator rule org key ∧ s.currentMemory edge.source = some member

/-- The identities that a batch writes: its drafts and the node. -/
def rewrites (validator : Validator) (rule : GroupingRule) (org key : String) (call : SubmitCall)
    (id : MemoryId) : Prop :=
  id = SessionNode validator rule org key ∨ ∃ draft ∈ call.batch.memories.zipIdx,
    rowIdentity validator call.batch draft.1 (call.mint draft.2) = id

/-- The stored memory that a key of the batch leads to. -/
def storedEnd (s : InMemoryStorage) (call : SubmitCall) (key : String) : Option Memory :=
  lookupDraft (successes (storedTarget (loadTargets s call.batch) call.principal)
    (batchTargets call.batch)) key

section Rows

variable {server : IngestServer} {call : SubmitCall} {state : IngestState} {source : SourceEntry}
  {validated : ValidatedBatch} {times : BatchTimes}

theorem BatchPassed.identities
    (passed : BatchPassed server.validator call.now call.mint call.principal source state.store
      call.batch validated times) :
    List.Forall₂ (fun draft row =>
      row.id = rowIdentity server.validator call.batch draft.1 (call.mint draft.2))
      call.batch.memories.zipIdx (submittedRows server call source validated).producerMemories := by
  refine forall₂_trans passed.drafts (producerMemories_same server call source validated) ?_
  intro draft memory row checked same
  obtain ⟨memoryType, label, scope, validity, rights, -, -, -, rfl⟩ := validateMemory_ok checked
  rw [same]
  rfl

theorem BatchPassed.scopes
    (passed : BatchPassed server.validator call.now call.mint call.principal source state.store
      call.batch validated times) :
    ∀ row ∈ (submittedRows server call source validated).producerMemories,
      row.context.tenantId = (givenScope call.principal call.batch).tenantId ∧
      row.context.userId = (givenScope call.principal call.batch).userId ∧
      row.context.projectId = (givenScope call.principal call.batch).projectId ∧
      row.context.teamId = (givenScope call.principal call.batch).teamId := by
  refine forall_right (forall₂_trans passed.drafts
    (producerMemories_same server call source validated) ?_)
  intro draft memory row checked same
  obtain ⟨memoryType, label, scope, validity, rights, -, inScope, -, rfl⟩ :=
    validateMemory_ok checked
  rw [same, ← rowScope_eq inScope]
  exact ⟨rfl, rfl, rfl, rfl⟩

variable {rule : GroupingRule} {key : String} {memory : Memory}

/-- The node of a batch has the label and the scope of its drafts. -/
theorem BatchPassed.node_audience
    (passed : BatchPassed server.validator call.now call.mint call.principal source state.store
      call.batch validated times) {org : String}
    (made : groupingNode server.validator.ontology server.validator.blake3 org rule key
      call.groupedAt = some node) :
    (withScope (submittedRows server call source validated).producerMemories node).audience =
      (plannedNode call.principal call.batch).audience := by
  have label : node.visibility = .project := by
    obtain ⟨memoryType, -, rfl⟩ := Option.map_eq_some_iff.mp made
    rfl
  have tenant : node.context.tenantId = none := by
    obtain ⟨memoryType, -, rfl⟩ := Option.map_eq_some_iff.mp made
    rfl
  have carried := passed.carries server call state
  have scopes := passed.scopes
  have labelled := withScope_label carried label
  generalize (submittedRows server call source validated).producerMemories = rows
    at carried scopes labelled ⊢
  cases rows with
  | nil =>
      rw [audience_of_no_tenant (withScope [] node) tenant,
        audience_of_no_tenant (plannedNode call.principal call.batch)]
      rw [plannedNode, List.forall₂_nil_right_iff.mp carried]
      rfl
  | cons first rest =>
      have filled : call.batch.memories.isEmpty = false := by
        obtain ⟨draft, drafts, -, -, listed⟩ := List.forall₂_cons_right_iff.mp carried
        rw [listed]
        rfl
      obtain ⟨sameTenant, user, project, team⟩ := scopes first List.mem_cons_self
      refine audience_congr labelled ?_ ?_ ?_ ?_
      · simpa [plannedNode, filled, withScope] using sameTenant
      · simpa [plannedNode, filled, withScope] using user
      · simpa [plannedNode, filled, withScope] using project
      · simpa [plannedNode, filled, withScope] using team

/-- The memories that a grouped batch writes: those of its producer, superseded ones and the
node. -/
theorem submittedRows_memories
    (grouped : groupingKey call.batch.toIngestBatch source.flavor server.rules = some (rule, key))
    (made : groupingNode server.validator.ontology server.validator.blake3 call.batch.orgId rule
      key call.groupedAt = some node) :
    (submittedRows server call source validated).memories =
      (submittedRows server call source validated).producerMemories ++
        staleRows server.validator.ontology
          { validated with memories := embedMemories server validated.memories } ++
        [withScope (submittedRows server call source validated).producerMemories node] := by
  rw [submittedRows, materializeCommitRows, materializeGrouping, grouped]
  dsimp only
  rw [show call.batch.toIngestBatch.orgId = call.batch.orgId from rfl, made]

/-- A superseded memory keeps its label and is no draft of the batch. -/
theorem mem_staleRows {ontology : EffectiveOntology} (validated : ValidatedBatch) {row : Memory}
    (loaded : validated.loaded = loadTargets s batch)
    (member : row ∈ staleRows ontology validated) :
    ∃ old ∈ s.streamAllMemories, old.id = row.id ∧ old.visibility = row.visibility ∧
      ∀ memory ∈ validated.memories, memory.id ≠ row.id := by
  obtain ⟨target, -, stale⟩ := List.mem_filterMap.mp member
  rw [staleRow] at stale
  split at stale
  · cases stale
  next absent =>
    obtain ⟨old, found, rfl⟩ := Option.map_eq_some_iff.mp stale
    rw [loaded] at found
    obtain ⟨rfl, streamed⟩ := loadTargets_lookup (Option.filter_eq_some_iff.mp found).1
    obtain ⟨sameId, sameLabel, -⟩ := floored_same old
    refine ⟨old, streamed, sameId.symm, sameLabel.symm, fun memory sent same => absent ?_⟩
    rw [List.any_eq_true]
    exact ⟨memory, sent, decide_eq_true (same.trans sameId)⟩

/-- What is current after a grouped batch: the node, a draft of the batch, or a memory with the
label it had. -/
theorem BatchPassed.current_after
    (passed : BatchPassed server.validator call.now call.mint call.principal source state.store
      call.batch validated times) (keyed : Keyed state.store.rows)
    (grouped : groupingKey call.batch.toIngestBatch source.flavor server.rules = some (rule, key))
    (made : groupingNode server.validator.ontology server.validator.blake3 call.batch.orgId rule
      key call.groupedAt = some node) (written : state.store.upsertBatchLocked server.env
      (submittedRows server call source validated).memories
      (submittedRows server call source validated).relationships call.committedAt =
        .ok (records, events, t)) {id : MemoryId} {row : Memory}
    (current : t.currentMemory id = some row) :
    (groupLabel call.batch).rank ≤ row.visibility.rank ∨
      ∃ old, state.store.currentMemory id = some old ∧ old.visibility = row.visibility ∧
        ¬ rewrites server.validator rule call.batch.orgId key call id := by
  have carried := passed.carries server call state
  have isNode : (withScope (submittedRows server call source validated).producerMemories node).id =
      SessionNode server.validator rule call.batch.orgId key := by
    obtain ⟨memoryType, -, rfl⟩ := Option.map_eq_some_iff.mp made
    exact withScope_id _ _
  have label : node.visibility = .project := by
    obtain ⟨memoryType, -, rfl⟩ := Option.map_eq_some_iff.mp made
    rfl
  -- An identity under which the producer has no memory is that of no draft.
  have unwritten : id ≠ SessionNode server.validator rule call.batch.orgId key →
      (∀ memory ∈ (submittedRows server call source validated).producerMemories,
        memory.id ≠ id) →
      ¬ rewrites server.validator rule call.batch.orgId key call id := by
    rintro other absent (isNode | ⟨draft, listed, identity⟩)
    · exact other isNode
    · obtain ⟨memory, written, sameId⟩ := exists_right passed.identities listed
      exact absent memory written (sameId.trans identity)
  obtain ⟨listed, unlisted⟩ := upsertBatchLocked_memory written id
  rw [submittedRows_memories grouped made, lastWith_concat, isNode] at listed unlisted
  by_cases session : SessionNode server.validator rule call.batch.orgId key = id
  · rw [if_pos session] at listed
    obtain ⟨lsn, isRow⟩ := listed _ rfl
    rw [current] at isRow
    cases isRow
    exact .inl (congrArg Visibility.rank (withScope_label carried label)).ge
  · rw [if_neg session, lastWith_append] at listed unlisted
    cases last : lastWith Memory.id id (staleRows server.validator.ontology
        { validated with memories := embedMemories server validated.memories }) with
    | some stale =>
        rw [last, Option.some_or] at listed
        obtain ⟨lsn, isRow⟩ := listed _ rfl
        rw [current] at isRow
        cases isRow
        obtain ⟨member, rfl⟩ := lastWith_some last
        obtain ⟨old, streamed, sameId, sameLabel, absent⟩ := mem_staleRows
          { validated with memories := embedMemories server validated.memories }
          passed.loaded member
        refine .inr ⟨old, sameId ▸ keyed.mem_memories.mp streamed, sameLabel, ?_⟩
        refine unwritten (Ne.symm session) fun memory sent same => ?_
        obtain ⟨draft, listed, sameAgain⟩ := mem_producerRows sent
        exact absent draft listed (sameAgain.trans same)
    | none =>
        rw [last, Option.none_or] at listed unlisted
        cases own : lastWith Memory.id id
            (submittedRows server call source validated).producerMemories with
        | some memory =>
            obtain ⟨lsn, isRow⟩ := listed memory own
            rw [current] at isRow
            cases isRow
            exact .inl (groupLabel_le carried memory (lastWith_some own).1)
        | none =>
            rw [unlisted own] at current
            exact .inr ⟨row, current, rfl, unwritten (Ne.symm session) (lastWith_eq_none.mp own)⟩

/-- A key leads to a stored memory or to one of the batch. -/
theorem draftIds_cases {memories : List Memory}
    (found : draftIds (loadTargets s call.batch) call.principal call.batch
      memories key = some memory) : storedEnd s call key = some memory ∨ memory ∈ memories := by
  rw [draftIds, lookupDraft, lastWith_append] at found
  rw [storedEnd, lookupDraft]
  cases stored : lastWith Prod.fst key (successes (storedTarget (loadTargets s call.batch)
      call.principal) (batchTargets call.batch)) with
  | some entry =>
      rw [stored, Option.some_or] at found
      exact .inl found
  | none =>
      rw [stored, Option.none_or] at found
      obtain ⟨entry, last, rfl⟩ := Option.map_eq_some_iff.mp found
      exact .inr (List.of_mem_zip (lastWith_some last).1).2

theorem storedEnd_streamed (stored : storedEnd s call key = some memory) :
    memory ∈ s.streamAllMemories := by
  obtain ⟨entry, last, rfl⟩ := Option.map_eq_some_iff.mp stored
  obtain ⟨target, -, found⟩ := mem_successes.mp (lastWith_some last).1
  exact (loadTargets_lookup (storedTarget_ok found).2).2

/-- The memories of a batch have the identities of its drafts. -/
theorem BatchPassed.draft_of
    (passed : BatchPassed server.validator call.now call.mint call.principal source state.store
      call.batch validated times) (member : memory ∈ validated.memories) :
    ∃ draft ∈ call.batch.memories.zipIdx,
      rowIdentity server.validator call.batch draft.1 (call.mint draft.2) = memory.id := by
  obtain ⟨draft, listed, checked⟩ := exists_right passed.drafts.flip member
  obtain ⟨memoryType, label, scope, validity, rights, -, -, -, rfl⟩ := validateMemory_ok checked
  exact ⟨draft, listed, rfl⟩

end Rows

/-- A batch leaves the group of its session as it should be: the group admits its node, no draft
has the node's identity, and no edge of it joins the node to a stored memory that is narrower
than the batch. -/
structure KeepsGroup (validator : Validator) (rule : GroupingRule) (org key : String)
    (s : InMemoryStorage) (call : SubmitCall) : Prop where
  admits : GroupView.Admits (plannedNode call.principal call.batch)
    (rewrites validator rule org key call) (groupView validator rule org key s)
  apart : ∀ draft ∈ call.batch.memories.zipIdx,
    rowIdentity validator call.batch draft.1 (call.mint draft.2) ≠
      SessionNode validator rule org key
  edges : ∀ edge ∈ call.batch.relationships, ∀ toKey, targetKey edge = .ok toKey →
    ∀ source ∈ storedEnd s call edge.fromDraftKey, ∀ target ∈ storedEnd s call toKey,
      (target.id = SessionNode validator rule org key →
        (groupLabel call.batch).rank ≤ source.visibility.rank) ∧
      (source.id = SessionNode validator rule org key →
        (groupLabel call.batch).rank ≤ target.visibility.rank)

section Edges

variable {server : IngestServer} {call : SubmitCall} {state : IngestState} {source : SourceEntry}
  {validated : ValidatedBatch} {times : BatchTimes} {rule : GroupingRule} {key : String}

/-- The identity is one that the batch writes, or of a stored memory no narrower than the batch. -/
def WideEnd (validator : Validator) (rule : GroupingRule) (key : String) (s : InMemoryStorage)
    (call : SubmitCall) (id : MemoryId) : Prop :=
  rewrites validator rule call.batch.orgId key call id ∨
    ∃ memory ∈ s.streamAllMemories, memory.id = id ∧
      (groupLabel call.batch).rank ≤ memory.visibility.rank

/-- An edge at the node, in either direction, has a wide other end. -/
def WideAtNode (validator : Validator) (rule : GroupingRule) (key : String) (s : InMemoryStorage)
    (call : SubmitCall) (edge : Relationship) : Prop :=
  (edge.target = SessionNode validator rule call.batch.orgId key →
    WideEnd validator rule key s call edge.source) ∧
  (edge.source = SessionNode validator rule call.batch.orgId key →
    WideEnd validator rule key s call edge.target)

variable {edge : Relationship}

theorem WideAtNode.inverse {inverse : Relationship} {ontology : Ontology}
    {blake3 : List UInt8 → Bytes 32} (wide : WideAtNode validator rule key s call edge)
    (made : materializeInverse ontology blake3 edge = some inverse) :
    WideAtNode validator rule key s call inverse := by
  obtain ⟨isTarget, isSource, -⟩ := materializeInverse_ends made
  rw [WideAtNode, isTarget, isSource]
  exact ⟨wide.2, wide.1⟩

section Passed

variable (passed : BatchPassed server.validator call.now call.mint call.principal source state.store
      call.batch validated times)
include passed

theorem BatchPassed.wide_asserted
    (keeps : KeepsGroup server.validator rule call.batch.orgId key state.store call)
    (asserted : edge ∈ validated.relationships) :
    WideAtNode server.validator rule key state.store call edge := by
  obtain ⟨draft, listed, checked⟩ := exists_right passed.edges.flip asserted
  obtain ⟨fromMemory, toKey, toMemory, kind, isFrom, isKey, isTo, -, -, rfl⟩ :=
    validateRelationship_ok checked
  rw [passed.loaded] at isFrom isTo
  -- A draft is written by the batch, and is not the node.
  have drafted : ∀ memory ∈ validated.memories,
      rewrites server.validator rule call.batch.orgId key call memory.id ∧
        memory.id ≠ SessionNode server.validator rule call.batch.orgId key := by
    intro memory sent
    obtain ⟨draft, member, identity⟩ := passed.draft_of sent
    exact ⟨.inr ⟨draft, member, identity⟩, identity ▸ keeps.apart draft member⟩
  rcases draftIds_cases isFrom with storedFrom | sentFrom <;>
    rcases draftIds_cases isTo with storedTo | sentTo
  · obtain ⟨into, out⟩ := keeps.edges draft listed toKey isKey fromMemory storedFrom toMemory
      storedTo
    exact ⟨fun isNode => .inr ⟨fromMemory, storedEnd_streamed storedFrom, rfl, into isNode⟩,
      fun isNode => .inr ⟨toMemory, storedEnd_streamed storedTo, rfl, out isNode⟩⟩
  · exact ⟨fun isNode => absurd isNode (drafted toMemory sentTo).2,
      fun _ => .inl (drafted toMemory sentTo).1⟩
  · exact ⟨fun _ => .inl (drafted fromMemory sentFrom).1,
      fun isNode => absurd isNode (drafted fromMemory sentFrom).2⟩
  · exact ⟨fun _ => .inl (drafted fromMemory sentFrom).1,
      fun _ => .inl (drafted toMemory sentTo).1⟩

theorem BatchPassed.wide_grouping
    (grouped : groupingKey call.batch.toIngestBatch source.flavor server.rules = some (rule, key))
    (made : edge ∈ (materializeGrouping server.validator server.rules call.batch.toIngestBatch
      source.flavor (submittedRows server call source validated).producerMemories
      call.groupedAt).2) : WideAtNode server.validator rule key state.store call edge := by
  rcases materializeGrouping_cases server.validator server.rules call.batch.toIngestBatch
      source.flavor (submittedRows server call source validated).producerMemories call.groupedAt
    with none | ⟨rule', key', node, found, isNode, rows⟩
  · rw [none] at made
    cases made
  · rw [grouped] at found
    cases found
    rw [rows] at made
    obtain ⟨member, isMember, isEdge⟩ := List.mem_filterMap.mp made
    obtain ⟨isSource, isTarget, -, -⟩ := groupingEdge_narrow isEdge
    obtain ⟨memoryType, -, rfl⟩ := Option.map_eq_some_iff.mp isNode
    obtain ⟨draft, listed, identity⟩ := exists_right passed.identities.flip isMember
    rw [WideAtNode, isSource, isTarget, withScope_id]
    exact ⟨fun _ => .inl (.inr ⟨draft, listed, identity.symm⟩), fun _ => .inl (.inl rfl)⟩

theorem BatchPassed.wide_rows
    (grouped : groupingKey call.batch.toIngestBatch source.flavor server.rules = some (rule, key))
    (keeps : KeepsGroup server.validator rule call.batch.orgId key state.store call)
    (isEdge : EdgeOf server.env (submittedRows server call source validated).relationships edge) :
    WideAtNode server.validator rule key state.store call edge := by
  have own : ∀ edge ∈ (submittedRows server call source validated).relationships,
      WideAtNode server.validator rule key state.store call edge := by
    refine materializeInverses_rule (fun edge listed => ?_)
      fun edge inverse wide made => wide.inverse made
    rcases List.mem_append.mp listed with asserted | group
    · exact passed.wide_asserted keeps asserted
    · exact passed.wide_grouping grouped group
  rcases isEdge with listed | ⟨other, listed, made⟩
  · exact own edge listed
  · exact (own other listed).inverse made

/-- **A grouped batch joins its group.** -/
theorem BatchPassed.joins (keyed : Keyed state.store.rows)
    (grouped : groupingKey call.batch.toIngestBatch source.flavor server.rules = some (rule, key))
    (keeps : KeepsGroup server.validator rule call.batch.orgId key state.store call)
    (made : groupingNode server.validator.ontology server.validator.blake3 call.batch.orgId rule
      key call.groupedAt = some node) (written : state.store.upsertBatchLocked server.env
      (submittedRows server call source validated).memories
      (submittedRows server call source validated).relationships call.committedAt =
        .ok (records, events, t)) :
    GroupView.Joins (plannedNode call.principal call.batch)
      (rewrites server.validator rule call.batch.orgId key call)
      (groupView server.validator rule call.batch.orgId key state.store)
      (groupView server.validator rule call.batch.orgId key t) := by
  obtain ⟨memoryType, isType, isNode⟩ := Option.map_eq_some_iff.mp made
  have identity : node.id = SessionNode server.validator rule call.batch.orgId key := by
    rw [← isNode]
  have label : node.visibility = .project := by
    rw [← isNode]
  obtain ⟨lsn, current⟩ := (upsertBatchLocked_memory written
    (SessionNode server.validator rule call.batch.orgId key)).1
    (withScope (submittedRows server call source validated).producerMemories node) (by
      rw [submittedRows_memories grouped made, lastWith_concat, withScope_id, if_pos identity])
  have after : (groupView server.validator rule call.batch.orgId key t).node =
      some { withScope (submittedRows server call source validated).producerMemories node with
        lsn := lsn } := by
    rw [groupView, isType]
    exact current
  refine ⟨?_, ?_, ?_⟩
  · rw [after]
    rintro _ ⟨⟩
    exact withScope_label (passed.carries server call state) label
  · intro _ _
    exact ⟨_, after, passed.node_audience made⟩
  · rintro member ⟨id, edge, isCurrent, isOpen, kind, target, isMember⟩
    rcases passed.current_after keyed grouped made written isMember with
      wide | ⟨old, wasCurrent, sameLabel, kept⟩
    · exact .inl wide
    · have sameId : old.id = edge.source := keyed.memory_id wasCurrent
      rcases upsertBatchLocked_current written isCurrent with before | ⟨edge, lsn, isEdge, rfl⟩
      · refine .inr ⟨old, ⟨id, edge, before, isOpen, kind, target, wasCurrent⟩, ?_, sameLabel⟩
        rwa [sameId]
      · rcases (passed.wide_rows grouped keeps isEdge).1 target with
          rewritten | ⟨memory, streamed, isSource, wide⟩
        · exact absurd rewritten kept
        · rw [← sameLabel]
          have isOld : memory = old := by
            have here := keyed.mem_memories.mp streamed
            rw [isSource] at here
            exact Option.some.inj (here.symm.trans wasCurrent)
          rw [isOld] at wide
          exact .inl wide

end Passed

end Edges

/-! ## Sessions -/

/-- The batch belongs to the session. -/
def OfSession (server : IngestServer) (rule : GroupingRule) (org key : String)
    (state : IngestState) (call : SubmitCall) : Prop :=
  call.batch.orgId = org ∧ ∀ source, state.sources.peek call.batch.source = some source →
    groupingKey call.batch.toIngestBatch source.flavor server.rules = some (rule, key)

/-- The submissions of a session. -/
def sessionMachine (server : IngestServer) (rule : GroupingRule) (org key : String) :
    Machine IngestState SubmitCall where
  allowed := OfSession server rule org key
  step state call := (submit server call state).2

/-- The submissions of a session, each of a batch that keeps its group. -/
def keepingSession (server : IngestServer) (rule : GroupingRule) (org key : String) :
    Machine IngestState SubmitCall :=
  (sessionMachine server rule org key).restrict fun state call =>
    KeepsGroup server.validator rule org key state.store call

section Sessions

variable {server : IngestServer} {rule : GroupingRule} {org key : String} {state : IngestState}
  {call : SubmitCall}

theorem groupView_congr (validator : Validator) (memories : s.memories = t.memories)
    (rels : s.rels = t.rels) :
    groupView validator rule org key s = groupView validator rule org key t := by
  simp only [groupView, currentMemory, currentRelationship, memories, rels]

/-- One submission of a session. -/
theorem submit_group (keyed : Keyed state.store.rows)
    (narrow : (groupView server.validator rule org key state.store).Narrow)
    (ofSession : OfSession server rule org key state call)
    (keeps : KeepsGroup server.validator rule org key state.store call) :
    (groupView server.validator rule org key (submit server call state).2.store).Narrow ∧
      (groupView server.validator rule org key state.store).Keeps
        (groupView server.validator rule org key (submit server call state).2.store) := by
  rcases submit_spec server call state with ⟨memories, rels⟩ |
    ⟨source, validated, times, found, passed, records, events, t, written, memories, rels, -⟩
  · rw [groupView_congr server.validator memories rels]
    exact ⟨narrow, .refl _⟩
  · obtain ⟨rfl, inSession⟩ := ofSession
    have grouped := inSession source (registeredSource_peek server call state found)
    rw [groupView_congr server.validator memories rels]
    cases made : groupingNode server.validator.ontology server.validator.blake3 call.batch.orgId
        rule key call.groupedAt with
    | none =>
        -- Without its type there is no node.
        have untyped := Option.map_eq_none_iff.mp made
        rw [GroupView.Narrow, GroupView.Keeps, groupView, groupView, untyped]
        exact ⟨fun _ impossible => (by cases impossible), fun _ impossible => (by cases impossible)⟩
    | some node =>
        have joins := passed.joins keyed grouped keeps made written
        exact ⟨joins.narrow keeps.admits, joins.keeps keeps.admits⟩

/-- The store of a server was reached by calls. -/
def IngestState.Reached (env : Env) (state : IngestState) : Prop :=
  ∃ calls, state.store = Call.runAll env .new calls

theorem submit_reached (server : IngestServer) (call : SubmitCall)
    (reached : state.Reached server.env) : (submit server call state).2.Reached server.env := by
  obtain ⟨calls, store⟩ := reached
  rcases submit_store server call state with same | ⟨source, validated, times, -, -, committed⟩
  · exact ⟨calls, same.trans store⟩
  · refine ⟨calls ++ [(call.committedAt, commitRows call.batch.toIngestBatch
      (submittedRows server call source validated))], ?_⟩
    rw [committed, store, Call.runAll, Call.runAll, List.foldl_append]
    rfl

/-- **Along a session whose batches keep its group, the node is never wider than a member, and
nobody who reads it loses it.** -/
theorem sessionMachine_run {start : IngestState} {before : List SubmitCall}
    (reached : start.Reached server.env)
    (narrow : (groupView server.validator rule org key start.store).Narrow)
    (allows : (keepingSession server rule org key).Allows start (before ++ [call])) :
    (groupView server.validator rule org key
        ((sessionMachine server rule org key).run start (before ++ [call])).store).Narrow ∧
      (groupView server.validator rule org key
        ((sessionMachine server rule org key).run start before).store).Keeps
        (groupView server.validator rule org key
          ((sessionMachine server rule org key).run start (before ++ [call])).store) := by
  obtain ⟨front, last⟩ := Machine.allows_append.mp allows
  have keyedOf : ∀ state : IngestState, state.Reached server.env → Keyed state.store.rows := by
    rintro state ⟨calls, store⟩
    rw [store]
    exact runAll_keyed server.env calls
  obtain ⟨here, narrowHere⟩ := front.invariant (I := fun state : IngestState =>
    state.Reached server.env ∧ (groupView server.validator rule org key state.store).Narrow)
    ⟨reached, narrow⟩ fun state call inv allowed =>
      ⟨submit_reached server call inv.1,
        (submit_group (keyedOf state inv.1) inv.2 allowed.1 allowed.2).1⟩
  obtain ⟨⟨ofSession, keeps⟩, -⟩ := last
  rw [Machine.run_append]
  rw [keepingSession, Machine.run_restrict] at here narrowHere ofSession keeps
  exact submit_group (keyedOf _ here) narrowHere ofSession keeps

end Sessions

end Exocortex
