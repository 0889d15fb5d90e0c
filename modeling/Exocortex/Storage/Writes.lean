import Exocortex.Library.Stamps
import Exocortex.Storage.Calls

/-!
# What each operation does

Every operation of the store has one specification. A section is `Regular` when

* it only appends rows, stamped with numbers it takes from the counter (`Grows`);
* it publishes one event for each number it takes, in order, inside the gate or
  after it but not both (`Publishes`);
* of the three protocols the store carries (leases, outbox, cycles) it touches at
  most the one it belongs to;
* when it refuses, nothing it stores has changed and nothing is published.

Batches are staged by a fold. `StagedFrom` is the invariant of that fold, with one
step lemma (`StagedFrom.push`) for a row of either sort; it also says that the
events of a batch name every row the batch wrote, which is what the rollback
journal is built from (`upsertBatchLocked_spec`).

An audit append and the removal of a relationship that is missing or closed take a
number and publish nothing, and a rollback removes rows. These are not regular, and
have lemmas of their own.
-/

namespace Exocortex

open Library

/-- The protocols the store carries between calls. -/
inductive Part where
  | leases
  | outbox
  | cycles
deriving DecidableEq

/-- The tables of a protocol. -/
def Part.View : Part → Type
  | .leases => Table LeaseKey InMemoryLease × Table LeaseKey ℕ
  | .outbox =>
      Table IngestBatchKey SettledIngestBatch × Table String InMemoryIngestEffect × ℕ × Bool
  | .cycles => Table LeaseKey CycleJournalRecord × Table (LeaseKey × String) String

namespace InMemoryStorage

variable {s t u : InMemoryStorage} {pending : List Invalidation} {part : Option Part} {env : Env}
  {ms : List Memory} {rs : List Relationship} {lease : OwnerLease} {now : DateTime}
  {inGate : Prop}

/-- What a state holds of a protocol. -/
def view (s : InMemoryStorage) : (p : Part) → p.View
  | .leases => (s.leases, s.leaseEpochs)
  | .outbox =>
      (s.settledIngest, s.ingestEffects, s.ingestEffectGeneration, s.failNextIngestCommit)
  | .cycles => (s.cycleJournals, s.succeededCycles)

/-- Rows are appended, under numbers taken from the counter. -/
def Grows (s t : InMemoryStorage) : Prop := Appends Row.lsn s.lsn t.lsn s.rows t.rows

/-- Every number taken is published once, in order: while the gate is held, or by
the events left pending. -/
def Publishes (inGate : Prop) (s t : InMemoryStorage) (pending : List Invalidation) : Prop :=
  ∃ sent, t.feed = s.feed ++ sent ∧ (inGate → pending = []) ∧ (¬ inGate → sent = []) ∧
    Dense s.lsn t.lsn ((sent ++ pending).map Invalidation.lsnOf)

/-- Every protocol but one is as before. -/
def Frames (part : Option Part) (s t : InMemoryStorage) : Prop :=
  ∀ p, part ≠ some p → t.view p = s.view p

/-- Everything stored is as before; only the counter may have moved, and the fault
hook may have been used up. -/
def Untouched (s t : InMemoryStorage) : Prop :=
  t = { s with lsn := t.lsn, failNextIngestCommit := t.failNextIngestCommit }

/-- The specification of an operation that publishes inside the gate or after it,
and belongs to a protocol or to none. -/
structure Regular {α : Type} (inGate : Prop) (part : Option Part) (s : InMemoryStorage)
    (o : Outcome α) : Prop where
  grows : s.Grows o.post
  publishes : Publishes inGate s o.post o.pending
  frames : Frames part s o.post
  refuses : ∀ error, o.reply = .error error → o.pending = [] ∧ Untouched s o.post

/-- Two states agree on the rows, the counter and the feed. -/
structure SameGraph (s t : InMemoryStorage) : Prop where
  memories : t.memories = s.memories
  rels : t.rels = s.rels
  lsn : t.lsn = s.lsn
  feed : t.feed = s.feed

theorem SameGraph.rows (same : SameGraph s t) : t.rows = s.rows := by
  rw [InMemoryStorage.rows, same.memories, same.rels, InMemoryStorage.rows]

theorem Grows.of_same (same : SameGraph s t) : s.Grows t := by
  rw [Grows, same.rows, same.lsn]
  exact Appends.refl _ _

theorem Grows.congr (grows : s.Grows t) (same : SameGraph t u) : s.Grows u := by
  rw [Grows, same.rows, same.lsn]
  exact grows

theorem Publishes.of_same (same : SameGraph s t) : Publishes inGate s t [] := by
  refine ⟨[], by rw [same.feed, List.append_nil], fun _ => rfl, fun _ => rfl, ?_⟩
  rw [same.lsn]
  exact Dense.nil _

theorem Publishes.congr (publishes : Publishes inGate s t pending) (same : SameGraph t u) :
    Publishes inGate s u pending := by
  obtain ⟨sent, feed, inside, after, dense⟩ := publishes
  exact ⟨sent, same.feed.trans feed, inside, after, same.lsn ▸ dense⟩

theorem Publishes.after (feed : t.feed = s.feed)
    (dense : Dense s.lsn t.lsn (pending.map Invalidation.lsnOf)) :
    Publishes False s t pending :=
  ⟨[], by rw [feed, List.append_nil], False.elim, fun _ => rfl, dense⟩

theorem Publishes.trans (first : Publishes True s t []) (second : Publishes True t u []) :
    Publishes True s u [] := by
  obtain ⟨sent, feed, -, -, dense⟩ := first
  obtain ⟨sent', feed', -, -, dense'⟩ := second
  refine ⟨sent ++ sent', ?_, fun _ => rfl, fun outside => absurd trivial outside, ?_⟩
  · rw [feed', feed, List.append_assoc]
  · simp only [List.append_nil, List.map_append] at dense dense' ⊢
    exact dense.append dense'

namespace Regular

variable {α : Type}

theorem ok {reply : α} (grows : s.Grows t) (publishes : Publishes inGate s t pending)
    (frames : Frames part s t) : Regular inGate part s ⟨.ok reply, pending, t⟩ :=
  ⟨grows, publishes, frames, fun _ failed => by cases failed⟩

theorem quiet {reply : α} (same : SameGraph s t) (frames : Frames part s t) :
    Regular inGate part s ⟨.ok reply, [], t⟩ :=
  ok (.of_same same) (.of_same same) frames

theorem idle (s : InMemoryStorage) (reply : α) : Regular inGate part s ⟨.ok reply, [], s⟩ :=
  quiet ⟨rfl, rfl, rfl, rfl⟩ fun _ _ => rfl

theorem fail (s : InMemoryStorage) (error : StorageError) :
    Regular inGate part s (.fail s error : Outcome α) :=
  ⟨.of_same ⟨rfl, rfl, rfl, rfl⟩, .of_same ⟨rfl, rfl, rfl, rfl⟩, fun _ _ => rfl,
    fun _ _ => ⟨rfl, rfl⟩⟩

theorem map {β : Type} {o : Outcome α} (regular : Regular inGate part s o) (f : α → β) :
    Regular inGate part s (o.map f) :=
  ⟨regular.grows, regular.publishes, regular.frames, fun error failed =>
    regular.refuses error (Outcome.map_reply_error.mp failed)⟩

end Regular

/-! ## The fence -/

variable {α : Type} {event : Invalidation}

theorem fenced_current (current : s.leaseCurrent lease now) (body : Outcome α) :
    s.fenced lease now body = body := by
  simp [fenced, checkLeaseCurrent, current]

theorem fenced_stale (stale : ¬ s.leaseCurrent lease now) (body : Outcome α) :
    s.fenced lease now body = .fail s (.fencedWriteRejected lease.epoch) := by
  simp [fenced, checkLeaseCurrent, stale]

/-- The fence only adds a refusal. -/
theorem Regular.fenced {o : Outcome α} (body : Regular inGate part s o) (lease : OwnerLease)
    (now : DateTime) : Regular inGate part s (s.fenced lease now o) := by
  by_cases current : s.leaseCurrent lease now
  · rw [fenced_current current]
    exact body
  · rw [fenced_stale current]
    exact .fail s _

/-! ## One row -/

theorem rows_push_memory (memories : Table MemoryId (List Memory))
    (rels : Table RelationshipId (List Relationship)) (id : MemoryId) (version : Memory)
    (row : RowId) :
    rowsOf (memories.push id version) rels row =
      rowsOf memories rels row ++ if row = .memory id then [.memory version] else [] := by
  cases row with
  | memory other =>
      simp only [rowsOf, Table.history_push, List.map_append, RowId.memory.injEq]
      split <;> simp
  | relationship other => simp [rowsOf]

theorem rows_push_relationship (memories : Table MemoryId (List Memory))
    (rels : Table RelationshipId (List Relationship)) (id : RelationshipId)
    (version : Relationship) (row : RowId) :
    rowsOf memories (rels.push id version) row =
      rowsOf memories rels row ++
        if row = .relationship id then [.relationship version] else [] := by
  cases row with
  | memory other => simp [rowsOf]
  | relationship other =>
      simp only [rowsOf, Table.history_push, List.map_append, RowId.relationship.injEq]
      split <;> simp

theorem grows_push_memory {id : MemoryId} {version : Memory}
    (next : version.lsn.value = s.lsn + 1) (lsn : t.lsn = s.lsn + 1)
    (memories : t.memories = s.memories.push id version) (rels : t.rels = s.rels) :
    s.Grows t := by
  rw [Grows, lsn]
  apply Appends.push (.memory id) (.memory version) next
  intro row
  rw [rows, memories, rels]
  exact rows_push_memory _ _ _ _ _

variable {id : RelationshipId} {events : List Invalidation}

theorem grows_push_relationship {version : Relationship} (next : version.lsn.value = s.lsn + 1)
    (lsn : t.lsn = s.lsn + 1) (memories : t.memories = s.memories)
    (rels : t.rels = s.rels.push id version) : s.Grows t := by
  rw [Grows, lsn]
  apply Appends.push (.relationship id) (.relationship version) next
  intro row
  rw [rows, memories, rels]
  exact rows_push_relationship _ _ _ _ _

/-- No row, and a higher counter. -/
theorem grows_bump (counter_le : s.lsn ≤ t.lsn) (memories : t.memories = s.memories)
    (rels : t.rels = s.rels) : s.Grows t := by
  rw [Grows, rows, rows, memories, rels]
  exact Appends.bump counter_le _

theorem publishes_sent (number : event.lsnOf = s.lsn + 1) (lsn : t.lsn = s.lsn + 1)
    (feed : t.feed = s.feed ++ [event]) : Publishes True s t [] := by
  refine ⟨[event], feed, fun _ => rfl, fun outside => absurd trivial outside, ?_⟩
  rw [lsn]
  simpa [number] using Dense.single s.lsn

theorem publishes_pending (number : event.lsnOf = s.lsn + 1) (lsn : t.lsn = s.lsn + 1)
    (feed : t.feed = s.feed) : Publishes False s t [event] := by
  refine .after feed ?_
  rw [lsn]
  simpa [number] using Dense.single s.lsn

theorem upsertMemory_regular (m : Memory) : Regular True none s (s.upsertMemory m now) :=
  .ok (grows_push_memory rfl rfl rfl rfl) (publishes_sent rfl rfl rfl) (by rintro ⟨⟩ - <;> rfl)

/-- A relationship row is written and published inside the gate. -/
theorem upsertRelationshipRowLocked_spec (r : Relationship) (now : DateTime)
    (s : InMemoryStorage) :
    s.Grows (s.upsertRelationshipRowLocked r now).2 ∧
      Publishes True s (s.upsertRelationshipRowLocked r now).2 [] ∧
      Frames none s (s.upsertRelationshipRowLocked r now).2 :=
  ⟨grows_push_relationship rfl rfl rfl rfl, publishes_sent rfl rfl rfl, by rintro ⟨⟩ - <;> rfl⟩

theorem upsertRelationship_regular (r : Relationship) :
    Regular True none s (s.upsertRelationship env r now) := by
  obtain ⟨grows, publishes, frames⟩ := upsertRelationshipRowLocked_spec r now s
  unfold upsertRelationship
  cases env.inverse r with
  | none => exact .ok grows publishes frames
  | some inverse =>
      dsimp only
      split
      · exact .ok grows publishes frames
      · obtain ⟨grows', publishes', frames'⟩ := upsertRelationshipRowLocked_spec inverse now
          (s.upsertRelationshipRowLocked r now).2
        exact .ok (grows.trans grows') (publishes.trans publishes') fun p other =>
          (frames' p other).trans (frames p other)

/-- A removal of a memory takes a number and publishes it, also when there is
nothing to close. -/
theorem deleteMemory_regular (id : MemoryId) (now : DateTime) (s : InMemoryStorage) :
    Regular False none s (s.deleteMemory id now) := by
  unfold deleteMemory deleteMemoryLocked
  cases (s.memories.history id).getLast? with
  | none =>
      exact .ok (grows_bump (Nat.le_succ _) rfl rfl) (publishes_pending rfl rfl rfl)
        (by rintro ⟨⟩ - <;> rfl)
  | some last =>
      exact .ok (grows_push_memory rfl rfl rfl rfl) (publishes_pending rfl rfl rfl)
        (by rintro ⟨⟩ - <;> rfl)

theorem promoteMemoryVisibilityAudited_regular (memory : Memory) (audit : AuditEvent) :
    Regular False none s (s.promoteMemoryVisibilityAudited memory audit now) := by
  unfold promoteMemoryVisibilityAudited
  cases (s.memories.history memory.id).getLast? with
  | none => exact .fail s _
  | some current =>
      dsimp only
      split
      · exact .fail s _
      · exact .ok (grows_push_memory rfl rfl rfl rfl) (publishes_pending rfl rfl rfl)
          (by rintro ⟨⟩ - <;> rfl)

/-! ## The calls that may waste a number -/

/-- A removal of an open relationship is regular. -/
theorem deleteRelationship_open (present : s.openRelationship id ≠ none) :
    Regular True none s (s.deleteRelationship id now) := by
  obtain ⟨last, found⟩ := Option.ne_none_iff_exists'.mp present
  unfold deleteRelationship
  rw [found]
  exact .ok (grows_push_relationship rfl rfl rfl rfl) (publishes_sent rfl rfl rfl)
    (by rintro ⟨⟩ - <;> rfl)

/-- A removal of a missing or closed relationship refuses, and has taken a number. -/
theorem deleteRelationship_missing (missing : s.openRelationship id = none) (now : DateTime) :
    (s.deleteRelationship id now).post = { s with lsn := s.lsn + 1 } ∧
      (s.deleteRelationship id now).pending = [] := by
  unfold deleteRelationship
  rw [missing]
  exact ⟨rfl, rfl⟩

theorem deleteRelationshipAudited_open (present : s.openRelationship id ≠ none)
    (audit : AuditEvent) : Regular True none s (s.deleteRelationshipAudited id audit now) := by
  obtain ⟨last, found⟩ := Option.ne_none_iff_exists'.mp present
  unfold deleteRelationshipAudited
  rw [found]
  exact .ok (grows_push_relationship rfl rfl rfl rfl) (publishes_sent rfl rfl rfl)
    (by rintro ⟨⟩ - <;> rfl)

theorem deleteRelationshipAudited_missing (missing : s.openRelationship id = none)
    (audit : AuditEvent) (now : DateTime) :
    (s.deleteRelationshipAudited id audit now).post = { s with lsn := s.lsn + 1 } ∧
      (s.deleteRelationshipAudited id audit now).pending = [] := by
  unfold deleteRelationshipAudited
  rw [missing]
  exact ⟨rfl, rfl⟩

/-! ## Batches -/

/-- The row whose version an upsert event announces. -/
def upsertedRow : Invalidation → Option RowId
  | .memoryUpserted id _ => some (.memory id)
  | .relationshipUpserted id _ _ _ _ => some (.relationship id)
  | _ => none

/-- The invariant of staging: rows are appended, the events number what was taken,
and events and staged rows match each other. -/
structure StagedFrom (s : InMemoryStorage) (staged : Staged) : Prop where
  appends : Appends Row.lsn s.lsn staged.next s.rows (rowsOf staged.memories staged.rels)
  dense : Dense s.lsn staged.next (staged.invalidations.map Invalidation.lsnOf)
  named : ∀ row, ∀ version ∈ rowsOf staged.memories staged.rels row, s.lsn < version.lsn →
    version ∈ s.rows row ∨
      ∃ event ∈ staged.invalidations, upsertedRow event = some row ∧ event.lsnOf = version.lsn
  stored : ∀ event ∈ staged.invalidations, ∃ row,
    ∃ version ∈ rowsOf staged.memories staged.rels row,
    version.lsn = event.lsnOf

namespace StagedFrom

variable {staged later : Staged}

theorem start (s : InMemoryStorage) (seen : Finset RelationshipId) :
    StagedFrom s ⟨s.memories, s.rels, s.lsn, seen, [], []⟩ where
  appends := Appends.refl _ _
  dense := Dense.nil _
  named _ _ member _ := .inl member
  stored _ member := absurd member List.not_mem_nil

/-- One more row, with its event. -/
theorem push (staging : StagedFrom s staged) (row : RowId) (version : Row) (event : Invalidation)
    (next : later.next = staged.next + 1) (stamp : version.lsn = staged.next + 1)
    (shape : ∀ other, rowsOf later.memories later.rels other =
      rowsOf staged.memories staged.rels other ++ if other = row then [version] else [])
    (events : later.invalidations = staged.invalidations ++ [event])
    (names : upsertedRow event = some row) (number : event.lsnOf = staged.next + 1) :
    StagedFrom s later where
  appends := by
    rw [next]
    exact staging.appends.trans (Appends.push row version stamp shape)
  dense := by
    rw [next, events]
    simpa [number] using staging.dense.snoc
  named other found member above := by
    rw [shape, List.mem_append] at member
    rw [events]
    rcases member with old | new
    · rcases staging.named other found old above with before | ⟨earlier, inside, rest⟩
      · exact .inl before
      · exact .inr ⟨earlier, List.mem_append_left _ inside, rest⟩
    · split at new
      · next same =>
          obtain rfl := List.mem_singleton.mp new
          exact .inr ⟨event, by simp, same ▸ names, number.trans stamp.symm⟩
      · simp at new
  stored found member := by
    rw [events, List.mem_append] at member
    rcases member with old | new
    · obtain ⟨other, kept, inside, number⟩ := staging.stored found old
      exact ⟨other, kept, by rw [shape]; exact List.mem_append_left _ inside, number⟩
    · obtain rfl := List.mem_singleton.mp new
      exact ⟨row, version, by rw [shape, if_pos rfl]; simp, stamp.trans number.symm⟩

theorem stageMemory (staging : StagedFrom s staged) (now : DateTime) (m : Memory) :
    StagedFrom s (stageMemory now staged m) :=
  staging.push (.memory m.id) (.memory _) _ rfl rfl (rows_push_memory _ _ _ _) rfl rfl rfl

theorem stageRow (staging : StagedFrom s staged) (now : DateTime) (r : Relationship) :
    StagedFrom s (stageRow now staged r) :=
  staging.push (.relationship r.id) (.relationship _) _ rfl rfl (rows_push_relationship _ _ _ _)
    rfl rfl rfl

theorem seen (staging : StagedFrom s staged) (identities : Finset RelationshipId) :
    StagedFrom s { staged with seenRelationships := identities } :=
  ⟨staging.appends, staging.dense, staging.named, staging.stored⟩

theorem stageRelationship (staging : StagedFrom s staged) (env : Env) (now : DateTime)
    (r : Relationship) : StagedFrom s (stageRelationship env now staged r) := by
  have written := staging.stageRow now r
  unfold InMemoryStorage.stageRelationship
  dsimp only
  split
  · exact written
  · split
    · exact written
    · exact (written.seen _).stageRow now _

end StagedFrom

theorem stageBatch_from (env : Env) (ms : List Memory) (rs : List Relationship) (now : DateTime)
    (s : InMemoryStorage) : StagedFrom s (s.stageBatch env ms rs now) := by
  unfold stageBatch
  refine List.foldlRecOn rs _ (List.foldlRecOn ms _ (.start s _) ?_) ?_
  · intro staged staging m _
    exact staging.stageMemory now m
  · intro staged staging r _
    exact staging.stageRelationship env now r

theorem stageAcceptance_from (env : Env) (relationship : Relationship) (now : DateTime)
    (s : InMemoryStorage) : StagedFrom s (s.stageAcceptance env relationship now) := by
  have written := (StagedFrom.start s ∅).stageRow now relationship
  unfold stageAcceptance
  dsimp only
  split
  · exact written
  · exact written.stageRow now _

/-- A staged batch swapped in has appended its rows. -/
theorem StagedFrom.grows {staged : Staged} (staging : StagedFrom s staged)
    (memories : t.memories = staged.memories) (rels : t.rels = staged.rels)
    (lsn : t.lsn = staged.next) : s.Grows t := by
  rw [Grows, lsn, rows, rows, memories, rels]
  exact staging.appends

theorem StagedFrom.publishes {staged : Staged} (staging : StagedFrom s staged)
    (lsn : t.lsn = staged.next) (feed : t.feed = s.feed) :
    Publishes False s t staged.invalidations := by
  refine .after feed ?_
  rw [lsn]
  exact staging.dense

/-- What a batch that commits did: only rows and the counter changed, and events and
new rows match each other. -/
structure BatchCommitted (s t : InMemoryStorage) (events : List Invalidation) : Prop where
  grows : s.Grows t
  publishes : Publishes False s t events
  onlyRows : t = { s with lsn := t.lsn, memories := t.memories, rels := t.rels }
  named : ∀ row, ∀ version ∈ t.rows row, s.lsn < version.lsn → version ∈ s.rows row ∨
    ∃ event ∈ events, upsertedRow event = some row ∧ event.lsnOf = version.lsn
  stored : ∀ event ∈ events, ∃ row, ∃ version ∈ t.rows row, version.lsn = event.lsnOf

theorem upsertBatchLocked_spec {records : List CommitRecord}
    (committed : s.upsertBatchLocked env ms rs now = .ok (records, events, t)) :
    BatchCommitted s t events := by
  unfold upsertBatchLocked at committed
  split at committed
  · cases committed
  · cases committed
    have staging := stageBatch_from env ms rs now s
    exact ⟨staging.grows rfl rfl rfl, staging.publishes rfl rfl, rfl, staging.named,
      staging.stored⟩

/-- A section that commits a batch and then changes tables of its own protocol. -/
theorem BatchCommitted.regular {reply : α} (batch : BatchCommitted s t events)
    (same : SameGraph t u) (frames : Frames part t u) :
    Regular False part s ⟨.ok reply, events, u⟩ := by
  refine .ok (batch.grows.congr same) (batch.publishes.congr same) fun p other => ?_
  rw [frames p other, batch.onlyRows]
  cases p <;> rfl

theorem upsertBatch_regular : Regular False none s (s.upsertBatch env ms rs now) := by
  unfold upsertBatch
  cases committed : s.upsertBatchLocked env ms rs now with
  | error error => exact .fail s error
  | ok batch =>
      exact (upsertBatchLocked_spec committed).regular ⟨rfl, rfl, rfl, rfl⟩ fun _ _ => rfl

theorem upsertBatchAudited_regular (audit : AuditEvent) :
    Regular False none s (s.upsertBatchAudited env ms rs audit now) := by
  unfold upsertBatchAudited
  cases committed : s.upsertBatchLocked env ms rs now with
  | error error => exact .fail s error
  | ok batch =>
      exact (upsertBatchLocked_spec committed).regular ⟨rfl, rfl, rfl, rfl⟩
        (by rintro ⟨⟩ - <;> rfl)

theorem upsertBatchOnce_regular (operationKey : String) :
    Regular False none s (s.upsertBatchOnce env operationKey ms rs now) := by
  unfold upsertBatchOnce
  split
  · exact .idle s _
  · cases committed : s.upsertBatchLocked env ms rs now with
    | error error => exact .fail s error
    | ok batch =>
        exact (upsertBatchLocked_spec committed).regular ⟨rfl, rfl, rfl, rfl⟩
          (by rintro ⟨⟩ - <;> rfl)

theorem acceptDiscovery_regular (acceptance : DiscoveryAcceptance) :
    Regular False none s (s.acceptDiscovery env acceptance now) := by
  have staging := stageAcceptance_from env acceptance.relationship now s
  -- Only relationships are staged, so the memory table is the one before.
  have memories : (s.stageAcceptance env acceptance.relationship now).memories = s.memories := by
    unfold stageAcceptance
    dsimp only
    split <;> rfl
  unfold acceptDiscovery
  cases s.proposals.lookup acceptance.discoveryId with
  | none => exact .fail s _
  | some stored =>
      dsimp only
      split
      · exact .fail s _
      · split
        · exact .fail s _
        · exact .ok (staging.grows memories.symm rfl rfl) (staging.publishes rfl rfl)
            (by rintro ⟨⟩ - <;> rfl)

/-! ## Ingest and its outbox -/

theorem insertEffect_same (effect : Option PostIngestEffect) (s : InMemoryStorage) :
    SameGraph s (s.insertEffect effect) ∧ Frames (some .outbox) s (s.insertEffect effect) := by
  cases effect with
  | none => exact ⟨⟨rfl, rfl, rfl, rfl⟩, fun _ _ => rfl⟩
  | some effect =>
      refine ⟨⟨rfl, rfl, rfl, rfl⟩, ?_⟩
      rintro ⟨⟩ other
      · rfl
      · exact absurd rfl other
      · rfl

theorem commitIngestLocked_regular (key : IngestBatchKey) (memories : List Memory)
    (relationships : List Relationship) (accepted : ℕ) (effect : Option PostIngestEffect) :
    Regular False (some .outbox) s
      (s.commitIngestLocked env key memories relationships accepted effect now) := by
  unfold commitIngestLocked
  cases s.settledIngest.lookup key with
  | some settled => exact .idle s _
  | none =>
      cases s.effectMismatch effect with
      | some other => exact .fail s _
      | none =>
          cases committed : s.upsertBatchLocked env memories relationships now with
          | error error => exact .fail s error
          | ok batch =>
              obtain ⟨records, events, u⟩ := batch
              dsimp only
              obtain ⟨same, frames⟩ := insertEffect_same effect { u with
                settledIngest := u.settledIngest.insert key ⟨accepted, 0, lastLsn records⟩ }
              refine (upsertBatchLocked_spec committed).regular
                ⟨same.memories, same.rels, same.lsn, same.feed⟩ fun p other => ?_
              rw [frames p other]
              cases p with
              | outbox => exact absurd rfl other
              | leases => rfl
              | cycles => rfl

theorem commitIngestBatchWithEffect_regular (key : IngestBatchKey) (memories : List Memory)
    (relationships : List Relationship) (accepted : ℕ) (effect : PostIngestEffect) :
    Regular False (some .outbox) s
      (s.commitIngestBatchWithEffect env key memories relationships accepted effect now) := by
  unfold commitIngestBatchWithEffect
  split
  · refine ⟨.of_same ⟨rfl, rfl, rfl, rfl⟩, .of_same ⟨rfl, rfl, rfl, rfl⟩, ?_,
      fun _ _ => ⟨rfl, rfl⟩⟩
    rintro ⟨⟩ other
    · rfl
    · exact absurd rfl other
    · rfl
  · exact commitIngestLocked_regular _ _ _ _ _

/-- A section that only moves the outbox. -/
theorem Regular.outbox {reply : α} (effects : Table String InMemoryIngestEffect) (generation : ℕ) :
    Regular False (some .outbox) s ⟨.ok reply, [], { s with
      ingestEffects := effects
      ingestEffectGeneration := generation }⟩ := by
  refine .quiet ⟨rfl, rfl, rfl, rfl⟩ ?_
  rintro ⟨⟩ other
  · rfl
  · exact absurd rfl other
  · rfl

theorem claimIngestEffect_regular (claimToken : String) (leaseMs : ℤ) :
    Regular False (some .outbox) s (s.claimIngestEffect claimToken leaseMs now) := by
  unfold claimIngestEffect
  split
  · exact .idle s _
  · split
    · exact .idle s _
    · split
      · exact .idle s _
      · exact .outbox _ _

theorem renewIngestEffectClaim_regular (effectId claimToken : String) (leaseMs : ℤ) :
    Regular False (some .outbox) s (s.renewIngestEffectClaim effectId claimToken leaseMs now) := by
  unfold renewIngestEffectClaim
  split
  · exact .idle s _
  · split
    · exact .outbox _ _
    · exact .idle s _

theorem acknowledgeIngestEffect_regular (effectId claimToken : String) :
    Regular False (some .outbox) s (s.acknowledgeIngestEffect effectId claimToken now) := by
  unfold acknowledgeIngestEffect
  split
  · exact .idle s _
  · split
    · exact .idle s _
    · exact .outbox _ _

theorem completeIngestEffectCleanup_regular (effectId : String) :
    Regular False (some .outbox) s (s.completeIngestEffectCleanup effectId) := by
  unfold completeIngestEffectCleanup
  split
  · exact .idle s _
  · split
    · exact .outbox _ _
    · exact .idle s _

/-! ## Leases -/

theorem Regular.leases {reply : α} (leases : Table LeaseKey InMemoryLease)
    (epochs : Table LeaseKey ℕ) : Regular False (some .leases) s ⟨.ok reply, [], { s with
      leases := leases
      leaseEpochs := epochs }⟩ := by
  refine .quiet ⟨rfl, rfl, rfl, rfl⟩ ?_
  rintro ⟨⟩ other
  · exact absurd rfl other
  · rfl
  · rfl

theorem acquireLease_regular (key : LeaseKey) (ttl : ℕ) :
    Regular False (some .leases) s (s.acquireLease key ttl now) := by
  unfold acquireLease
  split
  · exact .fail s _
  · exact .leases _ _

theorem renewLease_regular : Regular False (some .leases) s (s.renewLease lease now) := by
  unfold renewLease
  split
  · split
    · exact .leases _ _
    · exact .fail s _
  · exact .fail s _

theorem releaseLease_regular : Regular False (some .leases) s (s.releaseLease lease) := by
  unfold releaseLease
  split
  · exact .leases _ _
  · exact .idle s _

/-! ## Discoveries and settlement -/

theorem createDiscoveryProposal_regular (proposal : DiscoveryProposal) :
    Regular False none s (s.createDiscoveryProposal proposal) := by
  unfold createDiscoveryProposal
  split
  · exact .fail s _
  · split
    · split
      · split
        · exact .fail s _
        · exact .idle s _
      · exact .fail s _
    · split
      · exact .fail s _
      · split
        · exact .fail s _
        · exact .quiet ⟨rfl, rfl, rfl, rfl⟩ (by rintro ⟨⟩ - <;> rfl)

theorem storeDiscoveryLocked_regular (discovery : DiscoveryRecord) (s : InMemoryStorage) :
    Regular False none s (s.storeDiscoveryLocked discovery) := by
  unfold storeDiscoveryLocked
  split
  · exact .fail s _
  · split
    · split
      · exact .idle s _
      · exact .fail s _
    · exact .ok (grows_bump (Nat.le_succ _) rfl rfl) (publishes_pending rfl rfl rfl)
        (by rintro ⟨⟩ - <;> rfl)

/-- What the settlement of discoveries does, one record after the other: the
events number what was taken, and only the counter and the discoveries change. -/
structure SettlingFrom (s : InMemoryStorage) (acc : InMemoryStorage × List Invalidation) :
    Prop where
  onlyDiscoveries : acc.1 = { s with lsn := acc.1.lsn, discoveries := acc.1.discoveries }
  dense : Dense s.lsn acc.1.lsn (acc.2.map Invalidation.lsnOf)

theorem settleDiscovery_from {acc : InMemoryStorage × List Invalidation}
    (settling : SettlingFrom s acc) (record : DiscoveryRecord) :
    SettlingFrom s (settleDiscovery acc record) := by
  obtain ⟨u, events⟩ := acc
  unfold settleDiscovery
  dsimp only
  split
  · exact settling
  · obtain ⟨only, dense⟩ := settling
    dsimp only at only dense
    refine ⟨?_, ?_⟩
    · rw [only]
    · simpa [Invalidation.lsnOf] using dense.snoc

theorem settleDiscoveries_from (s : InMemoryStorage) (records : List DiscoveryRecord) :
    SettlingFrom s (records.foldl settleDiscovery (s, [])) := by
  apply List.foldlRecOn records _ (⟨rfl, Dense.nil _⟩ : SettlingFrom s (s, []))
  intro acc settling record _
  exact settleDiscovery_from settling record

/-! ## Cycles -/

theorem upsertBatchFenced_regular :
    Regular False none s (s.upsertBatchFenced env ms rs lease now) := by
  refine Regular.fenced ?_ lease now
  cases committed : s.upsertBatchLocked env ms rs now with
  | error error => exact .fail s error
  | ok batch =>
      exact (upsertBatchLocked_spec committed).regular ⟨rfl, rfl, rfl, rfl⟩ fun _ _ => rfl

theorem setJournal_same (s : InMemoryStorage) (key : LeaseKey) (journal : CycleJournalRecord) :
    SameGraph s (s.setJournal key journal) ∧
      Frames (some .cycles) s (s.setJournal key journal) := by
  refine ⟨⟨rfl, rfl, rfl, rfl⟩, ?_⟩
  rintro ⟨⟩ other
  · rfl
  · rfl
  · exact absurd rfl other

theorem upsertBatchFencedJournaled_regular (prepared : FencedRestore) (cycleId : String) :
    Regular False (some .cycles) s
      (s.upsertBatchFencedJournaled env ms rs prepared cycleId lease now) := by
  refine Regular.fenced ?_ lease now
  dsimp only
  split
  · exact .fail s _
  · cases committed : s.upsertBatchLocked env ms rs now with
    | error error => exact .fail s error
    | ok batch =>
        have same := setJournal_same batch.2.2 lease.key (journalBatch
          (s.cycleJournals.lookup lease.key) prepared (fencedBatchCommit batch.1 batch.2.1)
          cycleId lease)
        exact (upsertBatchLocked_spec committed).regular same.1 same.2

theorem completeCycleJournalFenced_regular (cycleId : String) :
    Regular False (some .cycles) s (s.completeCycleJournalFenced cycleId lease now) := by
  refine Regular.fenced ?_ lease now
  split
  · exact .fail s _
  · split
    · exact .fail s _
    · exact .quiet (setJournal_same s _ _).1 (setJournal_same s _ _).2

theorem settleDreamsCycleFenced_regular (cycleId : String) (records : List DiscoveryRecord) :
    Regular False (some .cycles) s (s.settleDreamsCycleFenced env cycleId records lease now) := by
  unfold settleDreamsCycleFenced
  cases dreamsSettlementEffectDigest env records with
  | error error => exact .fail s error
  | ok digest =>
      refine Regular.fenced ?_ lease now
      cases s.succeededCycles.lookup (lease.key, cycleId) with
      | some stored =>
          dsimp only
          split
          · exact .idle s _
          · exact .fail s _
      | none =>
          dsimp only
          split
          · exact .fail s _
          · split
            · exact .fail s _
            · obtain ⟨only, dense⟩ := settleDiscoveries_from s records
              refine .ok (grows_bump dense.counter_le ?_ ?_) (.after ?_ dense) ?_
              · exact (congrArg memories only :)
              · exact (congrArg rels only :)
              · exact (congrArg feed only :)
              · rintro ⟨⟩ other
                · exact (congrArg (view · .leases) only :)
                · exact (congrArg (view · .outbox) only :)
                · exact absurd rfl other

/-! ## The calls that stage a batch -/

/-- A section leaves everything alone, or commits a batch and then leaves alone what it has left. -/
def Stages {α : Type} (env : Env) (ms : List Memory) (rs : List Relationship) (now : DateTime)
    (s : InMemoryStorage) (o : Outcome α) : Prop :=
  o.Idle s ∨ ∃ records t, s.upsertBatchLocked env ms rs now = .ok (records, o.pending, t) ∧
    Outcome.Idle t ⟨o.reply, [], o.post⟩

variable {α : Type} {env : Env} {ms : List Memory} {rs : List Relationship} {now : DateTime}

theorem Stages.idle {reply : Except StorageError α} {armed : Bool} :
    Stages env ms rs now s ⟨reply, [], { s with failNextIngestCommit := armed }⟩ :=
  .inl ⟨rfl, rfl, rfl, rfl, rfl, rfl, rfl⟩

theorem Stages.map {β : Type} {o : Outcome α} (stages : Stages env ms rs now s o) (f : α → β) :
    Stages env ms rs now s (o.map f) := by
  rcases stages with idle | ⟨records, t, committed, idle⟩
  · exact .inl { idle with }
  · exact .inr ⟨records, t, committed, { idle with }⟩

theorem Stages.fenced {o : Outcome α} (stages : Stages env ms rs now s o) (lease : OwnerLease) :
    Stages env ms rs now s (s.fenced lease now o) := by
  by_cases current : s.leaseCurrent lease now
  · rw [fenced_current current]
    exact stages
  · rw [fenced_stale current]
    exact .idle

theorem commitIngestLocked_stages (key : IngestBatchKey) (accepted : ℕ)
    (effect : Option PostIngestEffect) :
    Stages env ms rs now s (s.commitIngestLocked env key ms rs accepted effect now) := by
  unfold commitIngestLocked
  split
  · exact .idle
  · split
    · exact .idle
    · split
      · exact .idle
      · next committed =>
          refine .inr ⟨_, _, committed, ?_⟩
          cases effect <;> exact ⟨rfl, rfl, rfl, rfl, rfl, rfl, rfl⟩

end InMemoryStorage

namespace Call

open InMemoryStorage

/-- The rows of a call that stages a batch. -/
def batch : Call → Option (List Memory × List Relationship)
  | .upsertBatch ms rs | .upsertBatchAudited ms rs _ | .importBatchOnce _ ms rs
  | .upsertBatchOnce _ ms rs | .commitIngestBatch _ ms rs _
  | .commitIngestBatchWithEffect _ ms rs _ _ | .upsertBatchFenced ms rs _
  | .upsertBatchFencedJournaled ms rs _ _ _ => some (ms, rs)
  | _ => none

theorem gated_stages (env : Env) (now : DateTime) (s : InMemoryStorage) {call : Call}
    {ms : List Memory} {rs : List Relationship} (staged : call.batch = some (ms, rs)) :
    Stages env ms rs now s (call.gated env now s) := by
  cases call with
  | upsertBatch | upsertBatchAudited =>
      cases staged
      simp only [gated, InMemoryStorage.upsertBatch, InMemoryStorage.upsertBatchAudited]
      split
      · exact .idle
      · next committed => exact .inr ⟨_, _, committed, rfl, rfl, rfl, rfl, rfl, rfl, rfl⟩
  | importBatchOnce | upsertBatchOnce =>
      cases staged
      simp only [gated, InMemoryStorage.importBatchOnce, InMemoryStorage.upsertBatchOnce]
      split
      · exact .idle
      · split
        · exact .idle
        · next committed => exact .inr ⟨_, _, committed, rfl, rfl, rfl, rfl, rfl, rfl, rfl⟩
  | commitIngestBatch key _ _ accepted =>
      cases staged
      exact (commitIngestLocked_stages key accepted none).map Reply.ingest
  | commitIngestBatchWithEffect key _ _ accepted effect =>
      cases staged
      simp only [gated, InMemoryStorage.commitIngestBatchWithEffect]
      split
      · exact .idle
      · exact (commitIngestLocked_stages key accepted (some effect)).map Reply.ingest
  | upsertBatchFenced _ _ lease =>
      cases staged
      refine (Stages.fenced ?_ lease).map Reply.batch
      split
      · exact .idle
      · next committed => exact .inr ⟨_, _, committed, rfl, rfl, rfl, rfl, rfl, rfl, rfl⟩
  | upsertBatchFencedJournaled _ _ _ _ lease =>
      cases staged
      refine (Stages.fenced ?_ lease).map Reply.batch
      dsimp only
      split
      · exact .idle
      · split
        · exact .idle
        · next committed => exact .inr ⟨_, _, committed, rfl, rfl, rfl, rfl, rfl, rfl, rfl⟩
  | _ => cases staged

end Call

/-! ## The calls about discoveries -/

/-- A section about discoveries leaves the graph and the feed alone. -/
structure Outcome.Discovers {α : Type} (s : InMemoryStorage) (o : Outcome α) : Prop where
  memories : o.post.memories = s.memories
  rels : o.post.rels = s.rels
  index : o.post.relsByNode = s.relsByNode
  feed : o.post.feed = s.feed
  available : ∀ event ∈ o.pending, ∃ record lsn, event = .discoveryAvailable record lsn

namespace InMemoryStorage

variable {α : Type} {s : InMemoryStorage}

theorem discovers_refl (reply : Except StorageError α) : Outcome.Discovers s ⟨reply, [], s⟩ :=
  ⟨rfl, rfl, rfl, rfl, fun _ member => absurd member List.not_mem_nil⟩

theorem fenced_discovers {o : Outcome α} (discovers : o.Discovers s) (lease : OwnerLease)
    (now : DateTime) : (s.fenced lease now o).Discovers s := by
  by_cases current : s.leaseCurrent lease now
  · rw [fenced_current current]
    exact discovers
  · rw [fenced_stale current]
    exact discovers_refl _

theorem createDiscoveryProposal_discovers (proposal : DiscoveryProposal) (s : InMemoryStorage) :
    (s.createDiscoveryProposal proposal).Discovers s := by
  unfold createDiscoveryProposal
  split
  · exact discovers_refl _
  · split
    · split
      · split <;> exact discovers_refl _
      · exact discovers_refl _
    · split
      · exact discovers_refl _
      · split
        · exact discovers_refl _
        · exact ⟨rfl, rfl, rfl, rfl, fun _ member => absurd member List.not_mem_nil⟩

theorem storeDiscoveryLocked_discovers (discovery : DiscoveryRecord) (s : InMemoryStorage) :
    (s.storeDiscoveryLocked discovery).Discovers s := by
  unfold storeDiscoveryLocked
  split
  · exact discovers_refl _
  · split
    · split <;> exact discovers_refl _
    · refine ⟨rfl, rfl, rfl, rfl, fun event member => ?_⟩
      obtain rfl := List.mem_singleton.mp member
      exact ⟨_, _, rfl⟩

theorem settleDiscoveries_available (s : InMemoryStorage) (records : List DiscoveryRecord) :
    ∀ event ∈ (records.foldl settleDiscovery (s, [])).2,
      ∃ record lsn, event = .discoveryAvailable record lsn := by
  refine List.foldlRecOn (motive := fun acc : InMemoryStorage × List Invalidation =>
    ∀ event ∈ acc.2, ∃ record lsn, event = .discoveryAvailable record lsn) records _
      (fun _ member => absurd member List.not_mem_nil) ?_
  intro acc available record _
  unfold settleDiscovery
  dsimp only
  split
  · exact available
  · intro event member
    rcases List.mem_append.mp member with early | last
    · exact available event early
    · obtain rfl := List.mem_singleton.mp last
      exact ⟨_, _, rfl⟩

theorem settleDreamsCycleFenced_discovers (env : Env) (cycleId : String)
    (records : List DiscoveryRecord) (lease : OwnerLease) (now : DateTime)
    (s : InMemoryStorage) :
    (s.settleDreamsCycleFenced env cycleId records lease now).Discovers s := by
  unfold settleDreamsCycleFenced
  split
  · exact discovers_refl _
  · refine fenced_discovers ?_ lease now
    split
    · split <;> exact discovers_refl _
    · split
      · exact discovers_refl _
      · split
        · exact discovers_refl _
        · have only := (settleDiscoveries_from s records).onlyDiscoveries
          exact ⟨(congrArg memories only :), (congrArg rels only :),
            (congrArg relsByNode only :), (congrArg feed only :),
            settleDiscoveries_available s records⟩

end InMemoryStorage

namespace Call

open InMemoryStorage

/-- The calls about discoveries that write no row. -/
def OfDiscovery : Call → Prop
  | .createDiscoveryProposal _ | .storeDiscovery _ | .storeDiscoveryFenced ..
  | .settleDreamsCycleFenced .. => True
  | _ => False

theorem gated_discovers (env : Env) (now : DateTime) (s : InMemoryStorage) {call : Call}
    (about : call.OfDiscovery) : (call.gated env now s).Discovers s := by
  cases call with
  | createDiscoveryProposal proposal =>
      exact { createDiscoveryProposal_discovers proposal s with }
  | storeDiscovery discovery => exact { storeDiscoveryLocked_discovers discovery s with }
  | storeDiscoveryFenced discovery lease =>
      exact { fenced_discovers (storeDiscoveryLocked_discovers discovery s) lease now with }
  | settleDreamsCycleFenced cycleId records lease =>
      exact { settleDreamsCycleFenced_discovers env cycleId records lease now s with }
  | _ => exact about.elim

end Call

end Exocortex
