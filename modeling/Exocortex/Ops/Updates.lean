import Exocortex.Ingest.Readers

/-!
# Operations that read a memory and write it back

A submission lowers the confidence of superseded memories, a reindexing run renews embeddings,
the resolution of a contradiction lowers the confidence of the loser, and a promotion widens a
label. Each of them reads a row, does other work, and then writes the whole row back; only the
reindexing run looks again before it does, and compares sequence numbers.

The operations in flight, the store and the other writers are a machine. A write-back differs
from the current version in its own field only when nobody else has changed the memory since
the operation last looked at it; along runs in which this is so it never loses an update
(`deskMachine_run`).
-/

namespace Exocortex

open Library InMemoryStorage

/-! ## The operations -/

inductive OpError where
  | badInput (text : String)
  | unauthorized (text : String)
  | notFound
  | storage (error : StorageError)
  | other (text : String)
deriving DecidableEq

/-- Who calls, and what the surface knows. -/
structure OpContext where
  visibility : VisibilityContext
  ontology : Option EffectiveOntology
  fingerprint : Bytes 32

/-- A version that was read, and the row to write in its place. -/
structure Edit where
  read : Memory
  row : Memory
deriving DecidableEq

/-- The audit record of an operation on behalf of a caller. -/
def OpContext.audit (ctx : OpContext) (action : String) (inputDigest : Bytes 32)
    (outputIds : List String) (now : DateTime) : AuditEvent :=
  ⟨action, ctx.visibility.userId, ctx.visibility.orgId, inputDigest, outputIds, ctx.fingerprint,
    none, now⟩

/-- The labels that a promotion may ask for. -/
def promotionLabel : String → Except OpError Visibility
  | "project" => .ok .project
  | "team" => .ok .team
  | "org" => .ok .org
  | label => .error (.badInput ("cannot promote to " ++ label))

/-- The read of `promote_visibility`: the row as it will be written. -/
def promoteRead (ctx : OpContext) (id : MemoryId) (label : String) (s : InMemoryStorage) :
    Except OpError Edit := do
  let wider ← promotionLabel label
  require (¬ Visibility.org < wider) (.badInput "promotion capped at Org (R-T11a)")
  require (¬ ctx.visibility.maxVisibility < wider)
    (.unauthorized "promotion exceeds caller visibility ceiling")
  match s.getMemoryFor id ctx.visibility with
  | .error .permissionDenied => .error (.unauthorized "caller may not read this memory")
  | .error error => .error (.storage error)
  | .ok none => .error .notFound
  | .ok (some memory) =>
      require (¬ wider < memory.visibility) (.badInput "promotion only widens")
      return ⟨memory, { memory with visibility := wider }⟩

/-- Who wins a contradiction. -/
inductive Resolution where
  | source
  | target
  | neither
deriving DecidableEq

/-- The first read of `resolve_contradiction`: an open contradiction. -/
def resolveEdge (ctx : OpContext) (id : RelationshipId) (s : InMemoryStorage) :
    Except OpError Relationship := do
  let ontology ← orReject ctx.ontology (.other
    "resolve_contradiction requires the effective ontology (surface misconfiguration)")
  let edge ← orReject (s.getRelationship id) .notFound
  require edge.validUntil.isNone (.badInput "contradiction edge is already resolved")
  let kindName := ((ontology.kindMeta edge.kind).map (·.displayName)).getD ""
  require (kindName = "Contradicts") (.badInput ("edge is `" ++ kindName ++
    "`, not Contradicts — resolution is a contradiction-record operation"))
  return edge

/-- The second read: both ends, of which the loser is superseded. -/
def resolveRows (ctx : OpContext) (edge : Relationship) (resolution : Resolution) (now : DateTime)
    (s : InMemoryStorage) : Except OpError (List Edit) := do
  let endpoints := s.getVisibleMemories [edge.source, edge.target] ctx.visibility
  require (endpoints.length = 2)
    (.unauthorized "caller may not see both endpoints of this contradiction")
  let supersede (loser : MemoryId) : Except OpError (List Edit) := do
    let row ← orReject (endpoints.find? (·.id = loser)) .notFound
    return if aboveFloor row then [⟨row, { row with confidence := .floor, recordedAt := now }⟩]
      else []
  match resolution with
  | .neither => return []
  | .source => supersede edge.target
  | .target => supersede edge.source

/-- The scan of a chunk: the rows whose embedding is to change. -/
def reindexRows (model : EmbeddingModel) (vectors : List (List F32)) (rows : List Memory) :
    List Edit :=
  ((rows.zip vectors).map fun row =>
      ⟨row.1, { row.1 with embedding := some ⟨model, row.2⟩ }⟩).filter fun edit : Edit =>
    edit.row.embedding ≠ edit.read.embedding

/-! ## Operations in flight -/

/-- An operation between its reads and its commit. -/
inductive Operation where
  | submission (call : SubmitCall) (source : SourceEntry) (validated : ValidatedBatch)
  | reindexing (todo kept : List Edit) (audit : AuditEvent)
  | contradiction (ctx : OpContext) (resolution : Resolution) (edge : Relationship)
  | resolving (edits : List Edit) (closed : Relationship) (audit : AuditEvent)
  | promotion (edit : Edit) (audit : AuditEvent)

/-- The superseded memories that a submission found stored, and what it makes of them. -/
def staleEdits (ontology : EffectiveOntology) (validated : ValidatedBatch) : List Edit :=
  (supersessionTargets ontology validated.relationships).filterMap fun target =>
    if validated.memories.any (·.id = target) then none
    else ((validated.loaded.lookup target).filter aboveFloor).map fun read => ⟨read, floored read⟩

variable {slot : ℕ} {operation : Operation} {now : DateTime}

section Desk

variable (server : IngestServer)

/-- The validated batch with its vectors. -/
def embedded (validated : ValidatedBatch) : ValidatedBatch :=
  { validated with memories := embedMemories server validated.memories }

/-- The edits that an operation is about to commit. -/
def Operation.edits : Operation → List Edit
  | .submission _ _ validated => staleEdits server.validator.ontology (embedded server validated)
  | .reindexing _ kept _ => kept
  | .contradiction _ _ _ => []
  | .resolving edits _ _ => edits
  | .promotion edit _ => [edit]

/-- The call with which an operation commits, once it is ready. -/
def Operation.commit : Operation → Option Call
  | .submission call source validated =>
      some (commitRows call.batch.toIngestBatch (submittedRows server call source validated))
  | .reindexing todo kept audit =>
      if todo.isEmpty && !kept.isEmpty then some (.upsertBatchAudited (kept.map (·.row)) [] audit)
      else none
  | .contradiction _ _ _ => none
  | .resolving edits closed audit =>
      some (.upsertBatchAudited (edits.map (·.row)) [closed] audit)
  | .promotion edit audit => some (.promoteMemoryVisibilityAudited edit.row audit)

/-- The store, and the operations in flight. -/
structure Desk where
  store : InMemoryStorage
  inFlight : ℕ → Option Operation

/-- What may happen next: a call of any other writer, a read of an operation, or its commit. -/
inductive DeskAction where
  | call (now : DateTime) (call : Call)
  | submit (slot : ℕ) (call : SubmitCall) (source : SourceEntry)
  | scan (slot : ℕ) (ids : List MemoryId) (model : EmbeddingModel) (vectors : List (List F32))
      (audit : AuditEvent)
  | recheck (slot : ℕ)
  | readEdge (slot : ℕ) (ctx : OpContext) (id : RelationshipId) (resolution : Resolution)
  | readEnds (slot : ℕ) (inputDigest : Bytes 32) (outputIds : List String) (now : DateTime)
  | promote (slot : ℕ) (ctx : OpContext) (id : MemoryId) (label : String) (inputDigest : Bytes 32)
      (now : DateTime)
  | commit (slot : ℕ) (now : DateTime)

namespace Desk

/-- An operation takes a slot, or leaves it. -/
def set (desk : Desk) (slot : ℕ) (operation : Option Operation) : Desk :=
  { desk with inFlight := Function.update desk.inFlight slot operation }

@[simp] theorem set_inFlight_self (desk : Desk) (slot : ℕ) (operation : Option Operation) :
    (desk.set slot operation).inFlight slot = operation := Function.update_self ..

theorem set_inFlight_of_ne (desk : Desk) {other : ℕ} (apart : other ≠ slot)
    (operation : Option Operation) :
    (desk.set slot operation).inFlight other = desk.inFlight other := Function.update_of_ne apart ..

/-- An operation starts with what it read; a failed read ends it. -/
def start {α : Type} (desk : Desk) (slot : ℕ) (read : Except OpError α) (next : α → Operation) :
    Desk :=
  match desk.inFlight slot, read with
  | none, .ok value => desk.set slot (some (next value))
  | _, _ => desk

/-- The next row of a chunk is kept if its sequence number is still the current one. -/
def recheck (desk : Desk) (slot : ℕ) : Desk :=
  match desk.inFlight slot with
  | some (.reindexing (edit :: todo) kept audit) =>
      let current := desk.store.getMemory edit.row.id
      if current.any (·.lsn = edit.row.lsn) then
        desk.set slot (some (.reindexing todo (kept ++ [edit]) audit))
      else desk.set slot (some (.reindexing todo kept audit))
  | _ => desk

def readEnds (desk : Desk) (slot : ℕ) (inputDigest : Bytes 32) (outputIds : List String)
    (now : DateTime) : Desk :=
  match desk.inFlight slot with
  | some (.contradiction ctx resolution edge) =>
      match resolveRows ctx edge resolution now desk.store with
      | .error _ => desk.set slot none
      | .ok edits => desk.set slot (some (.resolving edits
          { edge with validUntil := some now, recordedAt := now }
          (ctx.audit "resolve_contradiction" inputDigest outputIds now)))
  | _ => desk

def commit (desk : Desk) (slot : ℕ) (now : DateTime) : Desk :=
  match (desk.inFlight slot).bind (Operation.commit server) with
  | none => desk
  | some call => { desk.set slot none with store := (call.run server.env now desk.store).2 }

def step (desk : Desk) : DeskAction → Desk
  | .call now call => { desk with store := (call.run server.env now desk.store).2 }
  | .submit slot call source =>
      desk.start slot ((IngestService.validateBatch server.validator call.now call.mint
        call.principal source desk.store call.batch).mapError fun _ => OpError.other "rejected")
        (.submission call source ·)
  | .scan slot ids model vectors audit =>
      let rows := ids.dedup.filterMap desk.store.currentMemory
      desk.start slot (require (vectors.length = rows.length) (OpError.other "embedder failed"))
        fun _ => .reindexing (reindexRows model vectors rows) [] audit
  | .recheck slot => desk.recheck slot
  | .readEdge slot ctx id resolution =>
      desk.start slot (resolveEdge ctx id desk.store) (.contradiction ctx resolution ·)
  | .readEnds slot inputDigest outputIds now => desk.readEnds slot inputDigest outputIds now
  | .promote slot ctx id label inputDigest now =>
      desk.start slot (promoteRead ctx id label desk.store) fun edit =>
        .promotion edit (ctx.audit "promote_visibility" inputDigest [id.toHex] now)
  | .commit slot now => desk.commit server slot now

end Desk

end Desk

/-! ## What a commit may change -/

/-- Two versions that differ in the field of an operation only, and in their sequence number. -/
def Operation.OnlyField (operation : Operation) (current version : Memory) : Prop :=
  match operation with
  | .submission _ _ _ =>
      version = { current with confidence := version.confidence, lsn := version.lsn }
  | .reindexing _ _ _ =>
      version = { current with embedding := version.embedding, lsn := version.lsn }
  | .contradiction _ _ _ | .resolving _ _ _ => version = { current with
      confidence := version.confidence, recordedAt := version.recordedAt, lsn := version.lsn }
  | .promotion _ _ =>
      version = { current with visibility := version.visibility, lsn := version.lsn }

/-- The memories that a submission brings itself: those of its producer, and a grouping node. -/
def Operation.fresh (server : IngestServer) : Operation → List Memory
  | .submission call source validated =>
      (submittedRows server call source validated).producerMemories ++
        (materializeGrouping server.validator server.rules call.batch.toIngestBatch source.flavor
          (submittedRows server call source validated).producerMemories call.groupedAt).1
  | _ => []

/-- A commit appends memories of the operation's own, and for any other memory the current version
with the field of the operation changed. -/
def NoLostUpdate (server : IngestServer) (operation : Operation) (before after : InMemoryStorage) :
    Prop :=
  ∀ id, ∃ added, after.memories.history id = before.memories.history id ++ added ∧
    ∀ version ∈ added,
      (∃ row ∈ operation.fresh server, ∃ lsn, version = { row with lsn := lsn }) ∨
        ∃ current, before.currentMemory id = some current ∧ operation.OnlyField current version

/-! ## Edits -/

/-- The row of an edit is what was read, with the field of the operation changed. -/
def Operation.Sound (operation : Operation) (edit : Edit) : Prop :=
  operation.OnlyField edit.read edit.row ∧ edit.row.id = edit.read.id ∧
    edit.row.lsn = edit.read.lsn

theorem Operation.OnlyField.stamped {current version : Memory}
    (only : operation.OnlyField current version) (lsn : LSN) :
    operation.OnlyField current { version with lsn := lsn } := by
  cases operation <;>
    (simp only [Operation.OnlyField] at only ⊢; rw [only])

/-- No other version than the given one has its sequence number. -/
def Remembered (s : InMemoryStorage) (memory : Memory) : Prop :=
  memory.lsn.value ≤ s.lsn ∧ ∀ id, ∀ version ∈ s.memories.history id,
    version.lsn = memory.lsn → version = memory

variable {s : InMemoryStorage}

theorem remembered_of_current (stamped : s.WellStamped) {id : MemoryId} {memory : Memory}
    (current : s.currentMemory id = some memory) : Remembered s memory := by
  have ordered := LsnOrdered.of_wellStamped stamped
  have listed := List.mem_of_getLast? current
  refine ⟨ordered.memories_le id memory listed, fun other version member same => ?_⟩
  have rows := (ordered.distinct (.memory other) (.memory id) (.memory version)
    (List.mem_map_of_mem member) (.memory memory) (List.mem_map_of_mem listed)
    (congrArg LSN.value same)).2
  exact Row.memory.inj rows

/-- Every call keeps what is remembered: new versions get new numbers. -/
theorem Remembered.run {memory : Memory} (remembered : Remembered s memory) (env : Env)
    (now : DateTime) (call : Call) : Remembered (call.run env now s).2 memory := by
  obtain ⟨below, unique⟩ := remembered
  obtain ⟨rows, lsn⟩ := Call.run_rows env now s call
  have sound := Call.gated_sound env now s call
  have older : ∀ id, ∀ version ∈ (call.run env now s).2.memories.history id,
      version ∈ s.memories.history id ∨ s.lsn < version.lsn.value := by
    intro id version member
    have inRows : Row.memory version ∈ (call.gated env now s).post.rows (.memory id) := by
      rw [← rows]
      exact List.mem_map_of_mem member
    have inside : Row.memory version ∈ s.rows (.memory id) → version ∈ s.memories.history id := by
      intro listed
      obtain ⟨other, isOther, same⟩ := List.mem_map.mp listed
      exact Row.memory.inj same ▸ isOther
    by_cases restore : call.IsRestore
    · exact .inl (inside ((sound.sublist restore).2 (.memory id) |>.subset inRows))
    · obtain ⟨fresh, appended, later, -⟩ := (sound.grows restore).grown
      rw [appended] at inRows
      rcases List.mem_append.mp inRows with old | new
      · exact .inl (inside old)
      · exact .inr (later (.memory id) _ new)
  have counter : s.lsn ≤ (call.run env now s).2.lsn := by
    rw [lsn]
    by_cases restore : call.IsRestore
    · exact (sound.sublist restore).1
    · exact (sound.grows restore).counter_le
  refine ⟨below.trans counter, fun id version member same => ?_⟩
  rcases older id version member with old | new
  · exact unique id version old same
  · rw [same] at new
    exact absurd below (Nat.not_le.mpr new)

/-! ## The reads -/

section Reads

variable {s : InMemoryStorage} {ctx : OpContext}

variable {edit : Edit}

/-- The edit of a promotion is one of the current version. -/
theorem promoteRead_ok (keyed : Keyed s.rows) {id : MemoryId} {label : String}
    (read : promoteRead ctx id label s = .ok edit) (audit : AuditEvent) :
    (Operation.promotion edit audit).Sound edit ∧
      s.currentMemory edit.read.id = some edit.read := by
  obtain ⟨wider, -, read⟩ := bind_eq_ok_iff.mp read
  obtain ⟨_, -, read⟩ := bind_eq_ok_iff.mp read
  obtain ⟨_, -, read⟩ := bind_eq_ok_iff.mp read
  cases found : s.getMemoryFor id ctx.visibility with
  | error error =>
      rw [found] at read
      cases error <;> cases read
  | ok memory =>
      rw [found] at read
      cases memory with
      | none => cases read
      | some memory =>
          obtain ⟨_, -, read⟩ := bind_eq_ok_iff.mp read
          cases read
          have current : s.currentMemory id = some memory := by
            rw [getMemoryFor] at found
            split at found
            · cases found
            next here =>
              split at found
              · cases found
                exact here
              · cases found
          exact ⟨⟨rfl, rfl, rfl⟩, keyed.memory_id current ▸ current⟩

/-- The edits of a resolution are of current versions. -/
theorem resolveRows_ok (keyed : Keyed s.rows) {edge : Relationship} {resolution : Resolution}
    {edits : List Edit} (read : resolveRows ctx edge resolution now s = .ok edits)
    (closed : Relationship) (audit : AuditEvent) :
    ∀ edit ∈ edits, (Operation.resolving edits closed audit).Sound edit ∧
      s.currentMemory edit.read.id = some edit.read := by
  obtain ⟨_, -, read⟩ := bind_eq_ok_iff.mp read
  have superseded : ∀ loser, (do
      let row ← orReject ((s.getVisibleMemories [edge.source, edge.target] ctx.visibility).find?
        (·.id = loser)) .notFound
      return if aboveFloor row then [⟨row, { row with confidence := .floor, recordedAt := now }⟩]
        else []) = Except.ok (ε := OpError) edits →
      ∀ edit ∈ edits, (Operation.resolving edits closed audit).Sound edit ∧
        s.currentMemory edit.read.id = some edit.read := by
    intro loser read edit member
    obtain ⟨row, found, read⟩ := bind_eq_ok_iff.mp read
    have visible := List.mem_of_find?_eq_some (orReject_ok_iff.mp found)
    obtain ⟨id, -, current⟩ := List.mem_filterMap.mp (List.mem_filter.mp visible).1
    have here : s.currentMemory row.id = some row := keyed.memory_id current ▸ current
    cases read
    split at member
    · rw [List.mem_singleton.mp member]
      exact ⟨⟨rfl, rfl, rfl⟩, here⟩
    · cases member
  cases resolution with
  | neither =>
      cases read
      exact fun edit member => absurd member List.not_mem_nil
  | source => exact superseded _ read
  | target => exact superseded _ read

/-- The edits of a submission are of the stored versions that its validation loaded. -/
theorem staleEdits_ok (keyed : Keyed s.rows) {ontology : EffectiveOntology}
    {batch : SubmittedBatch} (validated : ValidatedBatch)
    (loaded : validated.loaded = loadTargets s batch)
    (member : edit ∈ staleEdits ontology validated) :
    edit.row = floored edit.read ∧ s.currentMemory edit.read.id = some edit.read := by
  obtain ⟨target, -, stale⟩ := List.mem_filterMap.mp member
  split at stale
  · cases stale
  · obtain ⟨read, found, rfl⟩ := Option.map_eq_some_iff.mp stale
    rw [loaded] at found
    obtain ⟨rfl, streamed⟩ := loadTargets_lookup (Option.filter_eq_some_iff.mp found).1
    exact ⟨rfl, keyed.mem_memories.mp streamed⟩

theorem staleEdits_rows (ontology : EffectiveOntology) (validated : ValidatedBatch) :
    staleRows ontology validated = (staleEdits ontology validated).map (·.row) := by
  rw [staleRows, staleEdits, List.map_filterMap]
  congr 1
  funext target
  rw [staleRow]
  split
  · rfl
  · rw [Option.map_map]
    rfl

/-- The edits of a chunk are of rows of the chunk. -/
theorem mem_reindexRows {model : EmbeddingModel} {vectors : List (List F32)} {rows : List Memory}
    (member : edit ∈ reindexRows model vectors rows) :
    edit.read ∈ rows ∧ ∃ embedding, edit.row = { edit.read with embedding := embedding } := by
  obtain ⟨listed, -⟩ := List.mem_filter.mp member
  obtain ⟨row, inside, rfl⟩ := List.mem_map.mp listed
  exact ⟨(List.of_mem_zip inside).1, _, rfl⟩

end Reads

/-! ## What is held -/

/-- The operation at a slot will write back what is current. -/
structure Operation.Holds (server : IngestServer) (s : InMemoryStorage) (operation : Operation) :
    Prop where
  edits : ∀ edit ∈ operation.edits server, operation.Sound edit ∧
    s.currentMemory edit.read.id = some edit.read
  todo : ∀ todo kept audit, operation = .reindexing todo kept audit →
    ∀ edit ∈ todo, operation.Sound edit ∧ Remembered s edit.read

/-- The store is one that calls reach, and every operation in flight will write back what is
current. -/
structure Desk.Holds (server : IngestServer) (desk : Desk) : Prop where
  stamped : desk.store.WellStamped
  keyed : Keyed desk.store.rows
  operations : ∀ slot operation, desk.inFlight slot = some operation →
    operation.Holds server desk.store

namespace Desk

variable {server : IngestServer} {desk : Desk}

theorem Holds.set (holds : desk.Holds server) {operation : Option Operation}
    (new : ∀ op ∈ operation, op.Holds server desk.store) :
    (desk.set slot operation).Holds server := by
  refine ⟨holds.stamped, holds.keyed, fun other op found => ?_⟩
  by_cases same : other = slot
  · rw [same, set_inFlight_self] at found
    exact new op found
  · rw [set_inFlight_of_ne desk same] at found
    exact holds.operations other op found

theorem Holds.start {α : Type} (holds : desk.Holds server) {read : Except OpError α}
    {next : α → Operation}
    (new : ∀ value, read = .ok value → (next value).Holds server desk.store) :
    (desk.start slot read next).Holds server := by
  unfold Desk.start
  split
  · refine holds.set ?_
    rintro op ⟨⟩
    exact new _ rfl
  · exact holds

/-- Nobody but the operation itself changes what it is about to write back. -/
def Undisturbed (server : IngestServer) (desk : Desk) (action : DeskAction) : Prop :=
  ∀ slot operation, desk.inFlight slot = some operation →
    (∀ now, action ≠ .commit slot now) → ∀ edit ∈ operation.edits server,
      (desk.step server action).store.currentMemory edit.read.id =
        desk.store.currentMemory edit.read.id

/-- A call that disturbs no operation. -/
theorem Holds.run (holds : desk.Holds server) (now : DateTime) (call : Call)
    (inFlight : ℕ → Option Operation)
    (fewer : ∀ slot operation, inFlight slot = some operation →
      desk.inFlight slot = some operation ∧ ∀ edit ∈ operation.edits server,
        (call.run server.env now desk.store).2.currentMemory edit.read.id =
          desk.store.currentMemory edit.read.id) :
    Holds server ⟨(call.run server.env now desk.store).2, inFlight⟩ := by
  refine ⟨(Call.run_stamped server.env now holds.stamped call).1,
    holds.keyed.run server.env now call, ?_⟩
  intro slot operation found
  obtain ⟨was, same⟩ := fewer slot operation found
  obtain ⟨edits, todo⟩ := holds.operations slot operation was
  refine ⟨fun edit member => ?_, fun rows kept audit isOp edit member => ?_⟩
  · rw [same edit member]
    exact edits edit member
  · obtain ⟨sound, remembered⟩ := todo rows kept audit isOp edit member
    exact ⟨sound, remembered.run server.env now call⟩

theorem Holds.recheck (holds : desk.Holds server) (slot : ℕ) :
    (desk.recheck slot).Holds server := by
  rw [Desk.recheck]
  split
  next edit todo kept audit found =>
    obtain ⟨edits, waiting⟩ := holds.operations slot _ found
    have rest : ∀ other ∈ todo, (Operation.reindexing (edit :: todo) kept audit).Sound other ∧
        Remembered desk.store other.read := fun other member =>
      waiting _ _ _ rfl other (List.mem_cons_of_mem _ member)
    dsimp only
    split
    next same =>
      obtain ⟨sound, -, unique⟩ := waiting _ _ _ rfl edit List.mem_cons_self
      obtain ⟨current, isCurrent, sameLsn⟩ := Option.any_eq_true _ _ |>.mp same
      -- The version that is current has the number of the one that was read.
      have isRead : current = edit.read := unique _ current (List.mem_of_getLast? isCurrent)
        ((of_decide_eq_true sameLsn).trans sound.2.2)
      refine holds.set ?_
      rintro op ⟨⟩
      refine ⟨fun other member => ?_, ?_⟩
      · rcases List.mem_append.mp member with old | new
        · exact edits other old
        · rw [List.mem_singleton.mp new]
          refine ⟨sound, ?_⟩
          rw [getMemory, sound.2.1, isRead] at isCurrent
          exact isCurrent
      · rintro _ _ _ ⟨⟩
        exact rest
    · refine holds.set ?_
      rintro op ⟨⟩
      refine ⟨edits, ?_⟩
      rintro _ _ _ ⟨⟩
      exact rest
  · exact holds

theorem Holds.readEnds (holds : desk.Holds server) (slot : ℕ) (inputDigest : Bytes 32)
    (outputIds : List String) (now : DateTime) :
    (desk.readEnds slot inputDigest outputIds now).Holds server := by
  rw [Desk.readEnds]
  split
  · split
    · exact holds.set fun op impossible => by cases impossible
    next edits read =>
      refine holds.set ?_
      rintro op ⟨⟩
      refine ⟨resolveRows_ok holds.keyed read _ _, ?_⟩
      rintro _ _ _ ⟨⟩
  · exact holds

/-- **A step that disturbs no operation keeps what is held.** -/
theorem Holds.step (holds : desk.Holds server) {action : DeskAction}
    (calm : desk.Undisturbed server action) : (desk.step server action).Holds server := by
  cases action with
  | call now call =>
      refine holds.run now call desk.inFlight fun slot operation found => ⟨found, ?_⟩
      exact calm slot operation found fun _ => by simp
  | submit slot call source =>
      refine holds.start fun validated read => ⟨fun edit member => ?_, ?_⟩
      · obtain ⟨times, passed⟩ := IngestService.validateBatch_ok (mapError_ok_iff.mp read)
        obtain ⟨row, current⟩ := staleEdits_ok holds.keyed (embedded server validated)
          passed.loaded member
        refine ⟨⟨?_, ?_, ?_⟩, current⟩
        · rw [row, Operation.OnlyField, floored]
          split <;> rfl
        · rw [row]
          exact (floored_same _).1
        · rw [row, floored]
          split <;> rfl
      · rintro _ _ _ ⟨⟩
  | scan slot ids model vectors audit =>
      refine holds.start fun _ _ => ⟨fun edit member => absurd member List.not_mem_nil, ?_⟩
      rintro _ _ _ ⟨⟩ edit member
      obtain ⟨listed, embedding, row⟩ := mem_reindexRows member
      obtain ⟨id, -, current⟩ := List.mem_filterMap.mp listed
      refine ⟨?_, remembered_of_current holds.stamped current⟩
      rw [Operation.Sound, Operation.OnlyField, row]
      exact ⟨rfl, rfl, rfl⟩
  | recheck slot => exact holds.recheck slot
  | readEdge slot ctx id resolution =>
      refine holds.start fun edge _ => ⟨fun edit member => absurd member List.not_mem_nil, ?_⟩
      rintro _ _ _ ⟨⟩
  | readEnds slot inputDigest outputIds now => exact holds.readEnds slot inputDigest outputIds now
  | promote slot ctx id label inputDigest now =>
      refine holds.start fun edit read => ⟨fun other member => ?_, ?_⟩
      · rw [List.mem_singleton.mp member]
        exact promoteRead_ok holds.keyed read _
      · rintro _ _ _ ⟨⟩
  | commit slot now =>
      rw [Desk.step, Desk.commit]
      cases ready : (desk.inFlight slot).bind (Operation.commit server) with
      | none => exact holds
      | some call =>
          refine holds.run now call _ fun other operation found => ?_
          have apart : other ≠ slot := by
            rintro rfl
            rw [set_inFlight_self] at found
            cases found
          rw [set_inFlight_of_ne desk apart] at found
          refine ⟨found, fun edit member => ?_⟩
          have same := calm other operation found (fun later => by simp [Ne.symm apart]) edit member
          rw [Desk.step, Desk.commit, ready] at same
          exact same

end Desk

/-! ## Commits -/

section Commits

variable {server : IngestServer} {s : InMemoryStorage}

variable {after : InMemoryStorage}

theorem NoLostUpdate.of_same (same : after.memories = s.memories) :
    NoLostUpdate server operation s after := by
  intro id
  refine ⟨[], ?_, fun version member => absurd member List.not_mem_nil⟩
  rw [same, List.append_nil]

/-- A commit of a batch each of whose memories is the operation's own or the row of an edit. -/
theorem Operation.Holds.noLostUpdate (holds : operation.Holds server s) {t : InMemoryStorage}
    {env : Env} {ms : List Memory} {rs : List Relationship} {records : List CommitRecord}
    {events : List Invalidation}
    (written : s.upsertBatchLocked env ms rs now = .ok (records, events, t))
    (memories : after.memories = t.memories)
    (known : ∀ m ∈ ms, m ∈ operation.fresh server ∨ ∃ edit ∈ operation.edits server, edit.row = m) :
    NoLostUpdate server operation s after := by
  intro id
  obtain ⟨added, appended, rows⟩ := upsertBatchLocked_memories_added written id
  refine ⟨added, by rw [memories, appended], fun version member => ?_⟩
  obtain ⟨m, listed, rfl, lsn, rfl⟩ := rows version member
  rcases known m listed with own | ⟨edit, isEdit, rfl⟩
  · exact .inl ⟨m, own, lsn, rfl⟩
  · obtain ⟨⟨only, sameId, -⟩, current⟩ := holds.edits edit isEdit
    rw [← sameId] at current
    exact .inr ⟨edit.read, current, only.stamped lsn⟩

/-- A batch with an audit row is written as a whole, or not at all. -/
theorem Operation.Holds.upsertBatchAudited (holds : operation.Holds server s) {ms : List Memory}
    (rs : List Relationship) (audit : AuditEvent) (now : DateTime)
    (known : ∀ m ∈ ms, ∃ edit ∈ operation.edits server, edit.row = m) :
    NoLostUpdate server operation s
      ((Call.upsertBatchAudited ms rs audit).run server.env now s).2 := by
  obtain ⟨index, state⟩ := Call.run_state server.env now s (.upsertBatchAudited ms rs audit)
  have memories : ((Call.upsertBatchAudited ms rs audit).run server.env now s).2.memories =
      (s.upsertBatchAudited server.env ms rs audit now).post.memories := by
    rw [state]
    rfl
  rw [InMemoryStorage.upsertBatchAudited] at memories
  split at memories
  · exact .of_same memories
  next records events t written =>
    exact holds.noLostUpdate written memories fun m listed => .inr (known m listed)

/-- **A commit of what is held loses no update.** -/
theorem Operation.Holds.commit (holds : operation.Holds server s) {call : Call}
    (ready : operation.commit server = some call) (now : DateTime) :
    NoLostUpdate server operation s (call.run server.env now s).2 := by
  cases operation with
  | submission submitted source validated =>
      cases ready
      rcases commitRows_run server.env submitted.batch.toIngestBatch
          (submittedRows server submitted source validated) now s with
        ⟨error, failed⟩ | ⟨settled, -, same⟩ |
          ⟨records, events, t, settled, -, written, -, memories, -⟩
      · obtain ⟨lsn, armed, same⟩ := Call.run_refused_changes_nothing _ _ _ _ _ failed
        rw [same]
        exact .of_same rfl
      · rw [same]
        exact .of_same rfl
      · refine holds.noLostUpdate written memories fun m listed => ?_
        rcases List.mem_append.mp listed with producer | node
        · rcases List.mem_append.mp producer with own | stale
          · exact .inl (List.mem_append_left _ own)
          · rw [staleEdits_rows] at stale
            obtain ⟨edit, isEdit, row⟩ := List.mem_map.mp stale
            exact .inr ⟨edit, isEdit, row⟩
        · exact .inl (List.mem_append_right _ node)
  | reindexing todo kept audit =>
      rw [Operation.commit] at ready
      split at ready
      · cases ready
        exact holds.upsertBatchAudited [] audit now fun m listed => List.mem_map.mp listed
      · cases ready
  | contradiction ctx resolution edge => cases ready
  | resolving edits closed audit =>
      cases ready
      exact holds.upsertBatchAudited [closed] audit now fun m listed => List.mem_map.mp listed
  | promotion edit audit =>
      cases ready
      obtain ⟨⟨only, sameId, -⟩, current⟩ := holds.edits edit List.mem_cons_self
      obtain ⟨index, state⟩ := Call.run_state server.env now s
        (.promoteMemoryVisibilityAudited edit.row audit)
      have written : ((Call.promoteMemoryVisibilityAudited edit.row audit).run server.env now
          s).2.memories = s.memories ∨ ∃ lsn, ((Call.promoteMemoryVisibilityAudited edit.row
            audit).run server.env now s).2.memories = s.memories.push edit.row.id
              { edit.row with lsn := lsn } := by
        rw [state]
        change (s.promoteMemoryVisibilityAudited edit.row audit now).post.memories = _ ∨ ∃ lsn,
          (s.promoteMemoryVisibilityAudited edit.row audit now).post.memories = _
        rw [promoteMemoryVisibilityAudited]
        split
        · exact .inl rfl
        · split
          · exact .inl rfl
          · exact .inr ⟨_, rfl⟩
      rcases written with same | ⟨lsn, pushed⟩
      · exact .of_same same
      · intro id
        rw [pushed, Table.history_push]
        refine ⟨_, rfl, fun version member => ?_⟩
        split at member
        next isRow =>
          rw [List.mem_singleton.mp member]
          rw [← sameId, ← isRow] at current
          exact .inr ⟨edit.read, current, only.stamped lsn⟩
        · cases member

end Commits

/-! ## Runs -/

theorem Desk.commit_store {server : IngestServer} {desk : Desk} {call : Call}
    (inFlight : desk.inFlight slot = some operation) (ready : operation.commit server = some call) :
    (desk.commit server slot now).store = (call.run server.env now desk.store).2 := by
  have isCall : (desk.inFlight slot).bind (Operation.commit server) = some call := by
    rw [inFlight]
    exact ready
  rw [Desk.commit, isCall]

/-- The operations in flight and the other writers, in any order. -/
def deskMachine (server : IngestServer) : Machine Desk DeskAction where
  allowed _ _ := True
  step desk action := desk.step server action

/-- The runs in which nobody changes a memory between the moment an operation last looks at it
and the operation's commit. -/
def calmDesk (server : IngestServer) : Machine Desk DeskAction :=
  (deskMachine server).restrict (Desk.Undisturbed server)

/-- A store that calls reach, and no operation in flight. -/
def Desk.open (env : Env) (calls : List (DateTime × Call)) : Desk :=
  ⟨Call.runAll env .new calls, fun _ => none⟩

theorem Desk.open_holds (server : IngestServer) (calls : List (DateTime × Call)) :
    (Desk.open server.env calls).Holds server :=
  ⟨Call.runAll_stamped server.env calls, runAll_keyed server.env calls,
    fun _ _ impossible => by cases impossible⟩

/-- **No operation loses an update** in a run in which nobody changes a memory between the moment
an operation last looks at it and the operation's commit. -/
theorem calmDesk_noLostUpdate (server : IngestServer) (calls : List (DateTime × Call))
    (before : List DeskAction) (slot : ℕ) (now : DateTime) {operation : Operation} {call : Call}
    (calm : (calmDesk server).Allows (.open server.env calls) before)
    (inFlight : ((deskMachine server).run (.open server.env calls) before).inFlight slot =
      some operation) (ready : operation.commit server = some call) :
    NoLostUpdate server operation
      ((deskMachine server).run (.open server.env calls) before).store
      ((deskMachine server).run (.open server.env calls) (before ++ [.commit slot now])).store := by
  have holds := calm.invariant (I := Desk.Holds server) (Desk.open_holds server calls)
    fun desk action inv allowed => inv.step allowed.2
  have commits := (holds.operations slot operation inFlight).commit ready now
  rw [Machine.run_append]
  change NoLostUpdate server operation _ (Desk.commit server _ slot now).store
  rw [Desk.commit_store inFlight ready]
  exact commits

/-! ## A promotion -/

/-- A private note of the agent. -/
def privateNote : Memory :=
  { acmeNote with
    visibility := .private, context := ⟨0, none, none, some "acme", none, some "ada", []⟩ }

/-- A store with the note. -/
def noteCalls : List (DateTime × Call) := [(0, .upsertMemory privateNote)]

def agentContext : OpContext := ⟨acmeAgent, none, .fill 32 0⟩

/-- The agent reads its note in order to show it to the organization. -/
def promoteNote : DeskAction := .promote 0 agentContext privateNote.id "org" (.fill 32 0) 1

theorem promoteNote_inFlight (calls : List (DateTime × Call))
    (read : (promoteRead agentContext privateNote.id "org"
      (Call.runAll Call.pairEnv .new calls)).toOption.map (·.read.id) = some privateNote.id) :
    ∃ edit audit, edit.read.id = privateNote.id ∧ ∀ slot,
      ((Desk.open Call.pairEnv calls).step (openServer false) promoteNote).inFlight slot =
        if slot = 0 then some (.promotion edit audit) else none := by
  cases isEdit : promoteRead agentContext privateNote.id "org"
    (Call.runAll Call.pairEnv .new calls) with
  | error error =>
      rw [isEdit] at read
      cases read
  | ok edit =>
      rw [isEdit] at read
      refine ⟨edit, agentContext.audit "promote_visibility" (.fill 32 0) [privateNote.id.toHex] 1,
        Option.some.inj read, fun slot => ?_⟩
      change ((Desk.open Call.pairEnv calls).start 0 (promoteRead agentContext privateNote.id "org"
        (Call.runAll Call.pairEnv .new calls)) _).inFlight slot = _
      rw [isEdit]
      exact Function.update_apply ..

/-- While the note is promoted, another one is written and deleted. -/
def promoteAmongOthers : List DeskAction :=
  [promoteNote, .call 1 (.upsertMemory (.blank ⟨.fill 16 5⟩)), .call 2 (.deleteMemory ⟨.fill 16 5⟩)]

theorem calmDesk_noLostUpdate_promotion : ∃ edit audit,
    NoLostUpdate (openServer false) (.promotion edit audit)
      ((deskMachine (openServer false)).run (.open Call.pairEnv noteCalls)
        promoteAmongOthers).store
      ((deskMachine (openServer false)).run (.open Call.pairEnv noteCalls)
        (promoteAmongOthers ++ [.commit 0 3])).store := by
  obtain ⟨edit, audit, isNote, inFlight⟩ := promoteNote_inFlight noteCalls (by decide +kernel)
  let read := (Desk.open Call.pairEnv noteCalls).step (openServer false) promoteNote
  -- only the promotion is in flight, and it writes its note
  have undisturbed : ∀ (desk : Desk) (action : DeskAction), desk.inFlight = read.inFlight →
      (desk.step (openServer false) action).store.currentMemory privateNote.id =
        desk.store.currentMemory privateNote.id →
      desk.Undisturbed (openServer false) action := by
    intro desk action same kept slot operation found _ other member
    rw [same, inFlight slot] at found
    split_ifs at found
    cases found
    rw [List.mem_singleton.mp member, isNote]
    exact kept
  have calm : (calmDesk (openServer false)).Allows (.open Call.pairEnv noteCalls)
      promoteAmongOthers :=
    ⟨⟨trivial, fun _ _ impossible => by cases impossible⟩,
      ⟨trivial, undisturbed _ _ rfl (by decide +kernel)⟩,
      ⟨trivial, undisturbed _ _ rfl (by decide +kernel)⟩, trivial⟩
  exact ⟨edit, audit, calmDesk_noLostUpdate (openServer false) noteCalls promoteAmongOthers 0 3 calm
    (inFlight 0) rfl⟩

/-- A promotion revives a note that was deleted after the promotion had read it. -/
theorem not_calmDesk_noLostUpdate :
    ¬ ∀ (server : IngestServer) (calls : List (DateTime × Call)) (before : List DeskAction)
      (slot : ℕ) (now : DateTime) (operation : Operation) (call : Call),
      ((deskMachine server).run (.open server.env calls) before).inFlight slot = some operation →
      operation.commit server = some call →
      NoLostUpdate server operation
        ((deskMachine server).run (.open server.env calls) before).store
        ((deskMachine server).run (.open server.env calls)
          (before ++ [.commit slot now])).store := by
  intro always
  obtain ⟨edit, audit, -, inFlight⟩ := promoteNote_inFlight noteCalls (by decide +kernel)
  have kept := always (openServer false) noteCalls
    [promoteNote, .call 2 (.deleteMemory privateNote.id)] 0 3 (.promotion edit audit) _ (inFlight 0)
    rfl
  obtain ⟨added, appended, versions⟩ := kept privateNote.id
  have revived : ∃ version ∈ ((deskMachine (openServer false)).run (.open Call.pairEnv noteCalls)
      ([promoteNote, .call 2 (.deleteMemory privateNote.id)] ++
        [.commit 0 3])).store.memories.history privateNote.id, version.validUntil = none ∧
      version ∉ ((deskMachine (openServer false)).run (.open Call.pairEnv noteCalls)
        [promoteNote, .call 2 (.deleteMemory privateNote.id)]).store.memories.history
          privateNote.id := by decide +kernel
  have closed : ∀ current ∈ ((deskMachine (openServer false)).run (.open Call.pairEnv noteCalls)
      [promoteNote, .call 2 (.deleteMemory privateNote.id)]).store.currentMemory privateNote.id,
      current.validUntil ≠ none := by decide +kernel
  obtain ⟨version, member, isOpen, new⟩ := revived
  rw [show ((deskMachine (openServer false)).run (.open Call.pairEnv noteCalls)
    ([promoteNote, .call 2 (.deleteMemory privateNote.id)] ++
      [.commit 0 3])).store.memories.history privateNote.id = _ from appended] at member
  rcases List.mem_append.mp member with old | here
  · exact new old
  · rcases versions version here with ⟨row, impossible, -⟩ | ⟨current, isCurrent, only⟩
    · cases impossible
    · have same : version.validUntil = current.validUntil := by
        rw [show version = _ from only]
      exact closed current isCurrent (same ▸ isOpen)

end Exocortex
