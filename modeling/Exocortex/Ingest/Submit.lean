import Exocortex.Ingest.Grouping
import Exocortex.Ingest.Registry
import Exocortex.Storage.Outbox

/-!
# Submission of a batch

A batch is admitted, its source looked up, its rows validated, and all of it committed at once.
A preflight is the same up to the commit. Both read the registry through its cache, so both
make the source they look up the most recently used one; a preflight changes nothing else.

The signature and the checksum of a batch stand for the libraries that compute them, and so
does the embedder. Hints at similar memories are not part of the acknowledgement here.
-/

namespace Exocortex

open Library InMemoryStorage

/-! ## The server -/

structure Embedder where
  modelId : String
  modelVersion : String
  embedBatch : List String → Except String (List (List F32))

/-- A server, and the libraries it uses. -/
structure IngestServer where
  authority : SourceAuthority
  validator : Validator
  env : Env
  rules : List GroupingRule
  embedder : Option Embedder
  fingerprint : Bytes 32
  recognized : List (Bytes 32)
  encodeBatch : SubmittedBatch → List UInt8
  canonicalChecksum : SubmittedBatch → String

abbrev SeenBatchRegistry := Lru IngestBatchKey IngestAck

/-- What a server remembers, with its store. -/
structure IngestState where
  sources : SourceRegistry
  seenBatches : SeenBatchRegistry
  seenSnapshots : Table SourcePolicyKey (List String)
  submitPermits : ℕ
  store : InMemoryStorage

def SubmittedBatch.source (batch : SubmittedBatch) : SourcePolicyKey :=
  (batch.orgId, batch.sourceUri, batch.producerId)

section Admission

variable (server : IngestServer)

/-! ## Admission -/

def producerAuthKey (batch : SubmittedBatch) : Except Status (Bytes 32) := do
  let producer ← orReject batch.producer ⟨.unauthenticated, "no producer"⟩
  require (!producer.hmacSignature.isEmpty) ⟨.unauthenticated, "missing hmac"⟩
  producerKey server.authority batch.source

/-- The batch without its signature. -/
def SubmittedBatch.unsigned (batch : SubmittedBatch) : SubmittedBatch :=
  { batch with producer := batch.producer.map ({ · with hmacSignature := [] }) }

def verifySignature (signingKey : Bytes 32) (batch : SubmittedBatch) : Bool :=
  batch.producer.any fun producer =>
    !producer.hmacSignature.isEmpty &&
      server.authority.hmac signingKey (server.encodeBatch batch.unsigned) = producer.hmacSignature

/-- The fingerprint of the producer is the server's, or one that it still recognizes. -/
def ontologyMatches (batch : SubmittedBatch) : Except String Unit :=
  if batch.ontologyFingerprint = server.fingerprint.bytes ||
      server.recognized.any (batch.ontologyFingerprint = ·.bytes) then .ok ()
  else
    let offered := if batch.ontologyFingerprint.length = 32 then batch.ontologyFingerprint
      else List.replicate 32 0
    .error ("ontology fingerprint " ++ hex32 offered ++
      " is not accepted by this server (current " ++
      hex32 server.fingerprint.bytes ++ "); producers may know less than the server, " ++
      "never more — re-negotiate with a Fingerprint request")

def admitBatch (permits : ℕ) (batch : SubmittedBatch) : Except IngestAck Unit := do
  let signingKey ← (producerAuthKey server batch).mapError fun status =>
    ackRejectAll batch .unauthorized status.message
  (validateBatchResources batch.memories batch.relationships).mapError fun detail =>
    ackRejectAll batch .resourceLimitExceeded detail
  require (0 < permits) (ackRejectAll batch .rateLimited "concurrent ingestion limit reached")
  require (verifySignature server signingKey batch)
    (ackRejectAll batch .unauthorized "hmac verification failed")
  require (batch.checksum = server.canonicalChecksum batch)
    (ackRejectAll batch .badChecksum "checksum mismatch")
  (ontologyMatches server batch).mapError fun detail =>
    ackRejectAll batch .incompatibleOntology detail
  require (server.authority.orgGuard.all (batch.orgId = ·))
    (ackRejectAll batch .unknownSource "org does not match this node")

/-! ## The registered source -/

/-- The snapshot was superseded by another one of its source. -/
def rewound (history : List String) (snapshotId : String) : Option String :=
  history.getLast?.filter fun last => snapshotId ≠ last && history.contains snapshotId

/-- What a declared projection says to a batch. -/
def checkSubmission (seenSnapshots : Table SourcePolicyKey (List String)) (batch : SubmittedBatch)
    (projection : StoredProjection) : Except IngestAck Unit := do
  let rows := batch.memories.length
  require (!(0 < projection.maxRowsPerWindow && projection.maxRowsPerWindow < rows))
    (ackRejectAll batch .projectionBoundExceeded ("batch carries " ++ toString rows ++
      " rows; the declared max_rows_per_window is " ++ toString projection.maxRowsPerWindow))
  match batch.snapshot with
  | none => .ok ()
  | some snapshot =>
      require ((hex32 snapshot.schemaHash).map Char.toLower =
          projection.schemaHash.map Char.toLower)
        (ackRejectAll batch .schemaDrift ("snapshot schema_hash differs from the registered " ++
          "mapping — re-register the projection deliberately with a bumped mapping_version"))
      match rewound ((seenSnapshots.lookup batch.source).getD []) snapshot.snapshotId with
      | none => .ok ()
      | some last => .error (ackRejectAll batch .sourceRewound ("snapshot " ++
          snapshot.snapshotId ++ " was already superseded by " ++ last ++
          " — the source was rewound and needs an operator"))

def registeredSource (state : IngestState) (batch : SubmittedBatch) :
    Except IngestAck SourceEntry := do
  require (!server.authority.sourceRegistryError)
    (ackRejectAll batch .unknownSource "source registry unavailable")
  let source ← orReject (state.sources.peek batch.source)
    (ackRejectAll batch .unknownSource "producer not registered")
  let requested ← (visFromI32 batch.ceiling).mapError fun _ =>
    ackRejectAll batch .unknownSource "unknown source ceiling discriminant"
  require (requested = source.ceiling)
    (ackRejectAll batch .unknownSource "ceiling mismatch (R-I3)")
  require (batch.snapshot.all (·.sourceFlavor = source.flavor))
    (ackRejectAll batch .unknownSource "snapshot source_flavor differs from the registered source")
  match source.projection with
  | none => return source
  | some projection =>
      checkSubmission state.seenSnapshots batch projection
      return source

/-- The state after the source was looked up. -/
def consult (batch : SubmittedBatch) (state : IngestState) : IngestState :=
  if server.authority.sourceRegistryError then state
  else { state with sources := state.sources.touch batch.source }

/-! ## Embeddings -/

/-- The memories with the vectors of their texts; without vectors when there are none. -/
def embedMemories (memories : List Memory) : List Memory :=
  match server.embedder with
  | none => memories
  | some embedder =>
      match embedder.embedBatch
          (memories.map fun memory => memory.title ++ "\n" ++ memory.content) with
      | .error _ => memories
      | .ok vectors =>
          if vectors.length = memories.length then
            memories.zipWith (fun memory vector => { memory with
              embedding := some ⟨⟨embedder.modelId, embedder.modelVersion⟩, vector⟩ }) vectors
          else memories

/-! ## Calls -/

/-- A submission: who submits what, the clock at each step, and the identities minted for it. -/
structure SubmitCall where
  principal : Option VisibilityContext
  batch : SubmittedBatch
  now : DateTime
  groupedAt : DateTime
  committedAt : DateTime
  mint : ℕ → MemoryId

/-- The acknowledgement of an earlier submission. -/
def replayAck (state : IngestState) (batch : SubmittedBatch) : Option IngestAck :=
  (state.seenBatches.peek batch.key).map
    ({ · with rejections := [⟨"", .duplicateBatch, "idempotent replay"⟩] })

def duplicateAck (batch : SubmittedBatch) (settled : SettledIngestBatch) : IngestAck where
  batchId := batch.batchId
  accepted := settled.accepted
  rejected := settled.rejected
  rejections := [⟨"", .duplicateBatch, "idempotent replay"⟩]
  assignedLsn := settled.assignedLsn

/-- The snapshots of a source, the last sixteen of them, with another one. -/
def rememberSnapshot (history : List String) (snapshotId : String) : List String :=
  if history.getLast? = some snapshotId then history
  else
    let longer := history ++ [snapshotId]
    if 16 < longer.length then longer.tail else longer

def finishCommit (batch : SubmittedBatch) (state : IngestState) : IngestState :=
  match batch.snapshot with
  | none => state
  | some snapshot =>
      let history := (state.seenSnapshots.lookup batch.source).getD []
      let longer := rememberSnapshot history snapshot.snapshotId
      { state with seenSnapshots := state.seenSnapshots.insert batch.source longer }

def rememberAck (batch : SubmittedBatch) (ack : IngestAck) (state : IngestState) : IngestState :=
  { state with seenBatches := state.seenBatches.put batch.key ack }

@[simp] theorem finishCommit_store (batch : SubmittedBatch) (state : IngestState) :
    (finishCommit batch state).store = state.store := by
  rw [finishCommit]
  split <;> rfl

/-- Every row of the batch accepted. -/
def acceptedAck (batch : SubmittedBatch) (accepted assignedLsn : ℕ) : IngestAck :=
  ⟨batch.batchId, accepted, 0, [], assignedLsn⟩

/-- The rows that a validated batch commits. -/
def submittedRows (call : SubmitCall) (source : SourceEntry) (validated : ValidatedBatch) :
    CommitRows :=
  materializeCommitRows server.validator server.rules call.batch.toIngestBatch source.flavor
    { validated with memories := embedMemories server validated.memories } call.groupedAt

/-- The commit of a validated batch. -/
def submitValidated (call : SubmitCall) (source : SourceEntry) (validated : ValidatedBatch)
    (state : IngestState) : Except Status IngestAck × IngestState :=
  let rows := submittedRows server call source validated
  let (reply, store) := (commitRows call.batch.toIngestBatch rows).run server.env call.committedAt
    state.store
  let state := { state with store := store }
  match reply with
  | .ok (.ingest (.committed _ settled)) =>
      let ack := acceptedAck call.batch rows.accepted settled.assignedLsn
      (.ok ack, rememberAck call.batch ack (finishCommit call.batch state))
  | .ok (.ingest (.duplicate settled)) =>
      let ack := duplicateAck call.batch settled
      (.ok ack, rememberAck call.batch ack state)
  | _ => (.error ⟨.internal, "internal storage error"⟩, state)

def submit (call : SubmitCall) (state : IngestState) : Except Status IngestAck × IngestState :=
  match requestPrincipal server.authority call.principal with
  | .error status => (.error status, state)
  | .ok principal =>
      if principal.any (·.orgId ≠ call.batch.orgId) then
        (.error ⟨.permissionDenied, "authenticated principal cannot write another org"⟩, state)
      else
        match admitBatch server state.submitPermits call.batch with
        | .error ack => (.ok ack, state)
        | .ok _ =>
            match replayAck state call.batch with
            | some ack =>
                (.ok ack, { state with seenBatches := state.seenBatches.touch call.batch.key })
            | none =>
                let consulted := consult server call.batch state
                match registeredSource server state call.batch with
                | .error ack => (.ok ack, consulted)
                | .ok source =>
                    match IngestService.validateBatch server.validator call.now call.mint principal
                        source consulted.store call.batch with
                    | .error ack => (.ok ack, consulted)
                    | .ok validated => submitValidated server call source validated consulted

/-- The verdict on a batch, with nothing committed. -/
def preflightBatch (principal : Option VisibilityContext) (batch : SubmittedBatch) (now : DateTime)
    (mint : ℕ → MemoryId) (state : IngestState) : IngestAck × IngestState :=
  match admitBatch server state.submitPermits batch with
  | .error ack => (ack, state)
  | .ok _ =>
      let consulted := consult server batch state
      match registeredSource server state batch with
      | .error ack => (ack, consulted)
      | .ok source =>
          match IngestService.validateBatch server.validator now mint principal source
              consulted.store batch with
          | .error ack => (ack, consulted)
          | .ok validated => (acceptedAck batch
              (validated.memories.length + validated.relationships.length) 0, consulted)

end Admission

/-! ## Refusals -/

/-- The acknowledgement refuses the whole batch. -/
def RefusesAll (batch : SubmittedBatch) (ack : IngestAck) : Prop :=
  ack.accepted = 0 ∧ ack.rejected = batch.rows

/-- The computation fails with a refusal of the whole batch, or not at all. -/
def Refuses {α : Type} (batch : SubmittedBatch) (result : Except IngestAck α) : Prop :=
  ∀ ack, result = .error ack → RefusesAll batch ack

namespace Refuses

variable {batch : SubmittedBatch} {α β : Type}

theorem bind {x : Except IngestAck α} {f : α → Except IngestAck β} (first : Refuses batch x)
    (rest : ∀ value, Refuses batch (f value)) : Refuses batch (x >>= f) := by
  cases x with
  | error ack =>
      rintro _ ⟨⟩
      exact first ack rfl
  | ok value => exact rest value

theorem ok (value : α) : Refuses batch (.ok value) := fun _ impossible => by cases impossible

theorem ofAll (code : RejectCode) (detail : String) :
    Refuses batch (.error (ackRejectAll batch code detail) : Except IngestAck α) := by
  rintro _ ⟨⟩
  exact ⟨rfl, rfl⟩

theorem require {condition : Bool} {code : RejectCode} {detail : String} :
    Refuses batch (require condition (ackRejectAll batch code detail)) := by
  rw [Exocortex.require]
  split
  · exact .ok _
  · exact .ofAll _ _

theorem orReject {found : Option α} {code : RejectCode} {detail : String} :
    Refuses batch (orReject found (ackRejectAll batch code detail)) := by
  cases found with
  | none => exact .ofAll _ _
  | some value => exact .ok _

theorem mapError {E : Type} {x : Except E α} {code : E → RejectCode} {detail : E → String} :
    Refuses batch (x.mapError fun error => ackRejectAll batch (code error) (detail error)) := by
  cases x with
  | error error => exact .ofAll _ _
  | ok value => exact .ok _

end Refuses

theorem admitBatch_refuses (server : IngestServer) (permits : ℕ) (batch : SubmittedBatch) :
    Refuses batch (admitBatch server permits batch) := by
  refine .bind .mapError fun signingKey => .bind .mapError fun _ => .bind .require fun _ =>
    .bind .require fun _ => .bind .require fun _ => .bind .mapError fun _ => .require

theorem checkSubmission_refuses (seen : Table SourcePolicyKey (List String))
    (batch : SubmittedBatch) (projection : StoredProjection) :
    Refuses batch (checkSubmission seen batch projection) := by
  refine .bind .require fun _ => ?_
  split
  · exact .ok _
  · refine .bind .require fun _ => ?_
    split
    · exact .ok _
    · exact .ofAll _ _

theorem registeredSource_refuses (server : IngestServer) (state : IngestState)
    (batch : SubmittedBatch) : Refuses batch (registeredSource server state batch) := by
  refine .bind .require fun _ => .bind .orReject fun source => .bind .mapError fun requested =>
    .bind .require fun _ => .bind .require fun _ => ?_
  split
  · exact .ok _
  · exact .bind (checkSubmission_refuses _ _ _) fun _ => .ok _

theorem validateBatch_refuses (validator : Validator) (now : DateTime) (mint : ℕ → MemoryId)
    (principal : Option VisibilityContext) (source : SourceEntry) (s : InMemoryStorage)
    (batch : SubmittedBatch) :
    Refuses batch (IngestService.validateBatch validator now mint principal source s batch) := by
  rw [IngestService.validateBatch]
  split
  · exact .ofAll _ _
  · dsimp only
    split
    · rintro _ ⟨⟩
      exact ⟨rfl, rfl⟩
    · split
      · rintro _ ⟨⟩
        exact ⟨rfl, rfl⟩
      · split
        · rintro _ ⟨⟩
          exact ⟨rfl, rfl⟩
        · exact .ok _

/-! ## The commit -/

section Commit

variable (env : Env) (batch : IngestBatch) (rows : CommitRows) (now : DateTime)
  (s : InMemoryStorage)

/-- What a commit does: it fails, is answered from a settlement, or writes the rows. -/
theorem commitIngestBatchWithEffect_cases (key : IngestBatchKey) (effect : PostIngestEffect) :
    (∃ error, (s.commitIngestBatchWithEffect env key rows.memories rows.relationships
      rows.accepted effect now).reply = .error error) ∨
    (∃ settled, s.settledIngest.lookup key = some settled ∧
      s.commitIngestBatchWithEffect env key rows.memories rows.relationships rows.accepted effect
        now = ⟨.ok (.duplicate settled), [], s⟩) ∨
    ∃ records events t settled, s.settledIngest.lookup key = none ∧
      s.upsertBatchLocked env rows.memories rows.relationships now = .ok (records, events, t) ∧
      (s.commitIngestBatchWithEffect env key rows.memories rows.relationships rows.accepted effect
        now).reply = .ok (.committed records settled) ∧
      (s.commitIngestBatchWithEffect env key rows.memories rows.relationships rows.accepted effect
        now).post.memories = t.memories ∧
      (s.commitIngestBatchWithEffect env key rows.memories rows.relationships rows.accepted effect
        now).post.rels = t.rels := by
  rw [commitIngestBatchWithEffect]
  split
  · exact .inl ⟨_, rfl⟩
  · rw [commitIngestLocked]
    split
    next settled found => exact .inr (.inl ⟨settled, found, rfl⟩)
    next unsettled =>
      split
      · exact .inl ⟨_, rfl⟩
      · split
        · exact .inl ⟨_, rfl⟩
        next records events t written =>
          exact .inr (.inr ⟨records, events, t, ⟨rows.accepted, 0, lastLsn records⟩, unsettled,
            written, rfl, rfl, rfl⟩)

/-- The same of the whole call. -/
theorem commitRows_run :
    (∃ error, ((commitRows batch rows).run env now s).1 = .error error) ∨
    (∃ settled, s.settledIngest.lookup batch.key = some settled ∧
      (commitRows batch rows).run env now s = (.ok (.ingest (.duplicate settled)), s)) ∨
    ∃ records events t settled, s.settledIngest.lookup batch.key = none ∧
      s.upsertBatchLocked env rows.memories rows.relationships now = .ok (records, events, t) ∧
      ((commitRows batch rows).run env now s).1 = .ok (.ingest (.committed records settled)) ∧
      ((commitRows batch rows).run env now s).2.memories = t.memories ∧
      ((commitRows batch rows).run env now s).2.rels = t.rels := by
  obtain ⟨index, state⟩ := Call.run_state env now s (commitRows batch rows)
  have reply : ((commitRows batch rows).run env now s).1 =
      (s.commitIngestBatchWithEffect env batch.key rows.memories rows.relationships rows.accepted
        (postIngestEffect batch rows batch.key) now).reply.map Reply.ingest := rfl
  rcases commitIngestBatchWithEffect_cases env rows now s batch.key
    (postIngestEffect batch rows batch.key) with ⟨error, failed⟩ | ⟨settled, found, same⟩ |
      ⟨records, events, t, settled, unsettled, written, committed, memories, rels⟩
  · exact .inl ⟨error, reply.trans (by rw [failed]; rfl)⟩
  · refine .inr (.inl ⟨settled, found, ?_⟩)
    rw [commitRows, Call.run, Call.gated, same]
    rfl
  · refine .inr (.inr ⟨records, events, t, settled, unsettled, written,
      reply.trans (by rw [committed]; rfl), ?_, ?_⟩)
    · rw [state]
      exact memories
    · rw [state]
      exact rels

end Commit

/-! ## The rows of a submission -/

/-- A row as it was validated, up to its vector and its confidence. -/
def SameRow (memory row : Memory) : Prop :=
  row = { memory with embedding := row.embedding, confidence := row.confidence }

theorem forall₂_zipWith {memories : List Memory} {vectors : List (List F32)}
    (model : EmbeddingModel)
    (size : vectors.length = memories.length) :
    List.Forall₂ SameRow memories (memories.zipWith (fun memory vector =>
      { memory with embedding := some ⟨model, vector⟩ }) vectors) := by
  induction memories generalizing vectors with
  | nil => exact .nil
  | cons memory memories ih =>
      cases vectors with
      | nil => cases size
      | cons vector vectors => exact .cons rfl (ih (Nat.succ.inj size))

theorem embedMemories_same (server : IngestServer) (memories : List Memory) :
    List.Forall₂ SameRow memories (embedMemories server memories) := by
  have same : List.Forall₂ SameRow memories memories := List.forall₂_same.mpr fun _ _ => rfl
  rw [embedMemories]
  split
  · exact same
  · split
    · exact same
    · split
      next size => exact forall₂_zipWith _ size
      · exact same

/-- The rows of the producer are its memories, up to vectors and confidences. -/
theorem producerMemories_same (server : IngestServer) (call : SubmitCall) (source : SourceEntry)
    (validated : ValidatedBatch) : List.Forall₂ SameRow validated.memories
      (submittedRows server call source validated).producerMemories := by
  change List.Forall₂ SameRow validated.memories (List.map _ (embedMemories server _))
  rw [List.forall₂_map_right_iff]
  refine (embedMemories_same server validated.memories).imp ?_
  intro memory row same
  rw [SameRow] at same ⊢
  split
  · rw [floored]
    split
    · rw [same]
    · exact same
  · exact same

/-! ## A preflight and its submission -/

variable {validated : ValidatedBatch} {times : BatchTimes}

theorem BatchPassed.sizes {validator : Validator} {now : DateTime} {mint : ℕ → MemoryId}
    {principal : Option VisibilityContext} {source : SourceEntry} {s : InMemoryStorage}
    {batch : SubmittedBatch}
    (passed : BatchPassed validator now mint principal source s batch validated times) :
    validated.memories.length = batch.memories.length ∧
      validated.relationships.length = batch.relationships.length := by
  refine ⟨?_, passed.edges.length_eq.symm⟩
  rw [← passed.drafts.length_eq, List.length_zipIdx]

section Agreement

variable (server : IngestServer) (call : SubmitCall) (mint : ℕ → MemoryId) (state : IngestState)

/-- A preflight looks its source up, and that is all. -/
theorem preflightBatch_state (principal : Option VisibilityContext) (batch : SubmittedBatch)
    (now : DateTime) :
    (preflightBatch server principal batch now mint state).2 = state ∨
      (preflightBatch server principal batch now mint state).2 = consult server batch state := by
  rw [preflightBatch]
  split
  · exact .inl rfl
  · refine .inr ?_
    dsimp only
    split
    · rfl
    · split <;> rfl

/-- A lookup leaves everything but the order of the registry as it was. -/
theorem consult_same (batch : SubmittedBatch) :
    (consult server batch state).store = state.store ∧
      (consult server batch state).seenBatches = state.seenBatches ∧
      (consult server batch state).seenSnapshots = state.seenSnapshots ∧
      ∀ key, (consult server batch state).sources.peek key = state.sources.peek key := by
  rw [consult]
  split
  · exact ⟨rfl, rfl, rfl, fun _ => rfl⟩
  · exact ⟨rfl, rfl, rfl, fun key => Lru.peek_touch _ _ _⟩

/-- A submission that is no replay is refused as its preflight is, or goes on to the commit of
what the preflight accepts. -/
theorem submit_cases {context : VisibilityContext} (isPrincipal : call.principal = some context)
    (sameOrg : context.orgId = call.batch.orgId)
    (fresh : state.seenBatches.peek call.batch.key = none) :
    (∃ ack later, RefusesAll call.batch ack ∧ later.store = state.store ∧
      submit server call state = (.ok ack, later) ∧
      (preflightBatch server call.principal call.batch call.now mint state).1 = ack) ∨
    ∃ source validated times,
      registeredSource server state call.batch = .ok source ∧
      BatchPassed server.validator call.now call.mint call.principal source state.store call.batch
        validated times ∧
      submit server call state =
        submitValidated server call source validated (consult server call.batch state) ∧
      (preflightBatch server call.principal call.batch call.now mint state).1 =
        acceptedAck call.batch call.batch.rows 0 := by
  have known : requestPrincipal server.authority call.principal = .ok call.principal := by
    rw [isPrincipal, requestPrincipal]
    simp
  have own : call.principal.any (·.orgId ≠ call.batch.orgId) = false := by
    rw [isPrincipal]
    simp [sameOrg]
  have unseen : replayAck state call.batch = none := by
    rw [replayAck, fresh]
    rfl
  rw [submit, known, preflightBatch]
  dsimp only
  rw [own, if_neg (by simp)]
  cases admitted : admitBatch server state.submitPermits call.batch with
  | error ack =>
      exact .inl ⟨ack, state, admitBatch_refuses _ _ _ _ admitted, rfl, rfl, rfl⟩
  | ok permit =>
      dsimp only
      rw [unseen]
      dsimp only
      cases found : registeredSource server state call.batch with
      | error ack =>
          exact .inl ⟨ack, _, registeredSource_refuses _ _ _ _ found,
            (consult_same server state call.batch).1, rfl, rfl⟩
      | ok source =>
          dsimp only
          have agree := validateBatch_agree server.validator call.batch source call.now
            call.principal call.mint mint (consult server call.batch state).store
          cases checked : IngestService.validateBatch server.validator call.now call.mint
              call.principal source (consult server call.batch state).store call.batch with
          | error ack =>
              rw [checked] at agree
              rw [agree.error_left]
              exact .inl ⟨ack, _, validateBatch_refuses _ _ _ _ _ _ _ _ checked,
                (consult_same server state call.batch).1, rfl, rfl⟩
          | ok validated =>
              rw [checked] at agree
              obtain ⟨other, again, -⟩ := agree.ok_left
              obtain ⟨times, passed⟩ := IngestService.validateBatch_ok checked
              obtain ⟨_, otherPassed⟩ := IngestService.validateBatch_ok again
              rw [(consult_same server state call.batch).1] at passed
              refine .inr ⟨source, validated, times, rfl, passed, rfl, ?_⟩
              rw [again]
              dsimp only
              rw [otherPassed.sizes.1, otherPassed.sizes.2]
              rfl

/-- Neither the server nor its store has settled the batch. -/
def Unsettled (state : IngestState) (batch : SubmittedBatch) : Prop :=
  state.seenBatches.peek batch.key = none ∧ state.store.settledIngest.lookup batch.key = none

/-- The row carries what the draft says. -/
def Carries (draft : WireMemory) (row : Memory) : Prop :=
  row.title = draft.title ∧ row.content = draft.content ∧
    visFromI32 draft.visibility = .ok row.visibility

/-- One commit wrote every draft and every edge of the batch. -/
structure CommittedWhole (before after : InMemoryStorage) (rows : CommitRows)
    (edges : List Relationship) : Prop where
  once : after = ((commitRows call.batch.toIngestBatch rows).run server.env call.committedAt
    before).2
  drafts : List.Forall₂ Carries call.batch.memories rows.producerMemories
  kinds : List.Forall₂ (fun edge row => server.validator.ontology.kindId edge.kind = some row.kind)
    call.batch.relationships edges
  memories : ∀ row ∈ rows.producerMemories, ∃ lsn,
    { row with lsn := lsn } ∈ after.memories.history row.id
  relationships : ∀ row ∈ edges, ∃ lsn, { row with lsn := lsn } ∈ after.rels.history row.id

section Passed

variable {source : SourceEntry}
  (passed : BatchPassed server.validator call.now call.mint call.principal source state.store
      call.batch validated times)
include passed

theorem BatchPassed.carries :
    List.Forall₂ Carries call.batch.memories
      (submittedRows server call source validated).producerMemories := by
  have numbered := forall₂_trans passed.drafts (producerMemories_same server call source validated)
    (T := fun draft row => Carries draft.1 row) ?_
  · rw [← List.zipIdx_map_fst 0 call.batch.memories, List.forall₂_map_left_iff]
    exact numbered
  · intro draft memory row checked same
    obtain ⟨memoryType, label, scope, validity, rights, labelled, -, -, rfl⟩ :=
      validateMemory_ok checked
    rw [same]
    exact ⟨rfl, rfl, labelled⟩

theorem BatchPassed.kinds :
    List.Forall₂ (fun edge row => server.validator.ontology.kindId edge.kind = some row.kind)
      call.batch.relationships validated.relationships := by
  refine passed.edges.imp fun edge row checked => ?_
  obtain ⟨-, -, -, kind, -, -, -, isKind, -, rfl⟩ := validateRelationship_ok checked
  exact isKind

/-- The commit of an accepted batch writes all of it. -/
theorem BatchPassed.committedWhole {records : List CommitRecord} {events : List Invalidation}
    {t : InMemoryStorage} (written : state.store.upsertBatchLocked server.env
      (submittedRows server call source validated).memories
      (submittedRows server call source validated).relationships call.committedAt =
        .ok (records, events, t)) (memories : ((commitRows call.batch.toIngestBatch
      (submittedRows server call source validated)).run server.env call.committedAt
        state.store).2.memories = t.memories) (rels : ((commitRows call.batch.toIngestBatch
      (submittedRows server call source validated)).run server.env call.committedAt
        state.store).2.rels = t.rels) :
    CommittedWhole server call state.store
      ((commitRows call.batch.toIngestBatch (submittedRows server call source validated)).run
        server.env call.committedAt state.store).2
      (submittedRows server call source validated) validated.relationships := by
  refine ⟨rfl, passed.carries, passed.kinds, ?_, ?_⟩
  · intro row member
    rw [memories]
    exact upsertBatchLocked_history written
      (List.mem_append_left _ (List.mem_append_left _ member))
  · intro row member
    rw [rels]
    exact upsertBatchLocked_edges written
      (mem_materializeInverses (List.mem_append_left _ member))

end Passed

/-- What the commit of an accepted batch amounts to. -/
theorem submitValidated_cases {source : SourceEntry}
    (unsettled : state.store.settledIngest.lookup call.batch.key = none)
    (passed : BatchPassed server.validator call.now call.mint call.principal source state.store
      call.batch validated times) :
    (∃ status, (submitValidated server call source validated state).1 = .error status ∧
      (submitValidated server call source validated state).2.store.memories =
        state.store.memories ∧
      (submitValidated server call source validated state).2.store.rels = state.store.rels) ∨
    ∃ lsn, (submitValidated server call source validated state).1 =
        .ok (acceptedAck call.batch call.batch.rows lsn) ∧
      CommittedWhole server call state.store
        (submitValidated server call source validated state).2.store
        (submittedRows server call source validated) validated.relationships := by
  have accepted : (submittedRows server call source validated).accepted = call.batch.rows := by
    change (embedMemories server validated.memories).length + validated.relationships.length = _
    rw [← (embedMemories_same server validated.memories).length_eq, passed.sizes.1,
      passed.sizes.2]
    rfl
  have run := commitRows_run server.env call.batch.toIngestBatch
    (submittedRows server call source validated) call.committedAt state.store
  rw [submitValidated]
  dsimp only
  rcases run with ⟨error, failed⟩ | ⟨settled, found, -⟩ |
    ⟨records, events, t, settled, -, written, committed, memories, rels⟩
  · refine .inl ⟨⟨.internal, "internal storage error"⟩, ?_⟩
    rw [failed]
    obtain ⟨lsn, armed, same⟩ := Call.run_refused_changes_nothing _ _ _ _ _ failed
    dsimp only
    rw [same]
    exact ⟨rfl, rfl, rfl⟩
  · rw [unsettled] at found
    cases found
  · refine .inr ⟨settled.assignedLsn, ?_⟩
    rw [committed]
    dsimp only [rememberAck]
    rw [accepted, finishCommit_store]
    exact ⟨rfl, passed.committedWhole server call state written memories rels⟩

/-- **A preflight agrees with the submission, and a submission is all or nothing.** A preflight
changes neither the store nor what was settled, nor any entry of the registry; it counts and
rejects as the submission at the same instant does, whatever identities the two mint. The
submission commits every draft and every edge at once, or nothing. -/
theorem preflight_agrees_submit {context : VisibilityContext}
    (isPrincipal : call.principal = some context) (sameOrg : context.orgId = call.batch.orgId)
    (unsettled : Unsettled state call.batch) :
    ((preflightBatch server call.principal call.batch call.now mint state).2.store = state.store ∧
      (preflightBatch server call.principal call.batch call.now mint state).2.seenBatches =
        state.seenBatches ∧
      (preflightBatch server call.principal call.batch call.now mint state).2.seenSnapshots =
        state.seenSnapshots ∧
      ∀ key, (preflightBatch server call.principal call.batch call.now mint state).2.sources.peek
        key = state.sources.peek key) ∧
    (∀ ack, (submit server call state).1 = .ok ack →
      (ack.accepted =
          (preflightBatch server call.principal call.batch call.now mint state).1.accepted ∧
        ack.rejected =
          (preflightBatch server call.principal call.batch call.now mint state).1.rejected ∧
        ack.rejections =
          (preflightBatch server call.principal call.batch call.now mint state).1.rejections) ∧
      ((ack.accepted = call.batch.rows ∧ ack.rejected = 0 ∧ ack.rejections = [] ∧
          ∃ rows edges, CommittedWhole server call state.store
            (submit server call state).2.store rows edges) ∨
        (ack.accepted = 0 ∧ (submit server call state).2.store = state.store))) ∧
    ∀ status, (submit server call state).1 = .error status →
      (submit server call state).2.store.memories = state.store.memories ∧
      (submit server call state).2.store.rels = state.store.rels := by
  refine ⟨?_, ?_⟩
  · obtain ⟨store, seen, snapshots, entries⟩ := consult_same server state call.batch
    rcases preflightBatch_state server mint state call.principal call.batch call.now with
      same | same
    · rw [same]
      exact ⟨rfl, rfl, rfl, fun _ => rfl⟩
    · rw [same]
      exact ⟨store, seen, snapshots, entries⟩
  · rcases submit_cases server call mint state isPrincipal sameOrg unsettled.1 with
      ⟨ack, later, refused, store, submitted, preflighted⟩ |
        ⟨source, validated, times, -, passed, submitted, preflighted⟩
    · rw [submitted, preflighted]
      refine ⟨?_, fun _ impossible => by cases impossible⟩
      rintro _ ⟨⟩
      exact ⟨⟨rfl, rfl, rfl⟩, .inr ⟨refused.1, store⟩⟩
    · have same := (consult_same server state call.batch).1
      rw [← same] at passed
      have here := submitValidated_cases server call (consult server call.batch state)
        (by rw [same]; exact unsettled.2) passed
      rw [same] at here
      rw [submitted, preflighted]
      rcases here with ⟨status, failed, memories, rels⟩ | ⟨lsn, acknowledged, whole⟩
      · rw [failed]
        refine ⟨fun _ impossible => ?_, fun _ _ => ⟨memories, rels⟩⟩
        cases impossible
      · rw [acknowledged]
        refine ⟨?_, fun _ impossible => by cases impossible⟩
        rintro _ ⟨⟩
        exact ⟨⟨rfl, rfl, rfl⟩, .inl ⟨rfl, rfl, rfl, _, _, whole⟩⟩

end Agreement

/-- A server that takes every signature. -/
def openServer (personal : Bool) : IngestServer where
  authority := openAuthority
  validator := smallValidator personal
  env := Call.pairEnv
  rules := groupingRules
  embedder := none
  fingerprint := .fill 32 0
  recognized := []
  encodeBatch := fun _ => []
  canonicalChecksum := fun _ => ""

def signedBatch (relationships : List WireRel) : SubmittedBatch :=
  { problemBatch relationships with
    ontologyFingerprint := List.replicate 32 0, producer := some ⟨[1], none⟩ }

def agentCall (relationships : List WireRel) : SubmitCall :=
  ⟨some acmeAgent, signedBatch relationships, 5, 6, 7, freshId⟩

/-- A state with some registered sources, the last one registered first. -/
def registeredState (uris : List String) : IngestState where
  sources := SourceRegistry.new.putAll (uris.map fun uri => (sessionKey uri, sessionEntry .org))
  seenBatches := .empty registryLruCap registryLruCap_pos
  seenSnapshots := ∅
  submitPermits := 64
  store := acmeStore

theorem preflight_agrees_submit_stored :
    ∃ ack, (submit (openServer false) (agentCall [sessionEdge "draft" "" acmeNoteText])
        (registeredState ["session://1"])).1 = .ok ack ∧
      ack.accepted = (preflightBatch (openServer false) (some acmeAgent)
        (signedBatch [sessionEdge "draft" "" acmeNoteText]) 5 freshId
        (registeredState ["session://1"])).1.accepted := by
  obtain ⟨ack, acknowledged⟩ := exists_ok
    (x := (submit (openServer false) (agentCall [sessionEdge "draft" "" acmeNoteText])
      (registeredState ["session://1"])).1) (by decide +kernel)
  have agree := preflight_agrees_submit (openServer false)
    (agentCall [sessionEdge "draft" "" acmeNoteText]) freshId (registeredState ["session://1"])
    rfl rfl ⟨rfl, rfl⟩
  exact ⟨ack, acknowledged, ((agree.2.1 ack acknowledged).1).1⟩

/-- A preflight makes its source the most recently used one. -/
theorem not_preflight_agrees_submit :
    ¬ ∀ (server : IngestServer) (call : SubmitCall) (mint : ℕ → MemoryId) (state : IngestState)
      (context : VisibilityContext), call.principal = some context →
      context.orgId = call.batch.orgId → Unsettled state call.batch →
      (preflightBatch server call.principal call.batch call.now mint state).2.sources =
        state.sources := by
  intro always
  have same := always (openServer false) (agentCall []) freshId
    (registeredState ["session://1", "session://2"]) acmeAgent rfl rfl ⟨rfl, rfl⟩
  have order := congrArg (fun sources : SourceRegistry => sources.entries.map Prod.fst) same
  exact absurd order (by decide +kernel)

end Exocortex
