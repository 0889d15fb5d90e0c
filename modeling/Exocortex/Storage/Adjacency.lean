import Exocortex.Storage.Reads

/-!
# The adjacency index

The index files a relationship under both of its ends whenever it is upserted, and never takes an
entry back. So it holds what the upsert events of the feed say, each identity under every end it
was ever written with (`Filed`). And every stored version has the two ends of an event
(`Recorded`).

Every call files what it sends and leaves pending, and stores no relationship with other ends than
those of a stored version or of an event (`gated_indexes`).
-/

namespace Exocortex

open Library

/-- The node is an end of the relationship. -/
def Relationship.Touches (r : Relationship) (node : MemoryId) : Prop :=
  node = r.source ∨ node = r.target

/-- The event says that the relationship was written with these ends. -/
def Invalidation.WritesEnds (id : RelationshipId) (source target : MemoryId) :
    Invalidation → Prop
  | .relationshipUpserted other from_ to_ _ _ => other = id ∧ from_ = source ∧ to_ = target
  | _ => False

/-- The event files the relationship under the node. -/
def Invalidation.Files (id : RelationshipId) (node : MemoryId) : Invalidation → Prop
  | .relationshipUpserted other source target _ _ => other = id ∧ (node = source ∨ node = target)
  | _ => False

variable {event : Invalidation}

theorem Invalidation.files_iff {id : RelationshipId} {node : MemoryId} :
    event.Files id node ↔
      ∃ source target, event.WritesEnds id source target ∧ (node = source ∨ node = target) := by
  cases event with
  | relationshipUpserted other source target kind lsn =>
      constructor
      · rintro ⟨same, touches⟩
        exact ⟨source, target, ⟨same, rfl, rfl⟩, touches⟩
      · rintro ⟨_, _, ⟨same, rfl, rfl⟩, touches⟩
        exact ⟨same, touches⟩
  | _ => exact iff_of_false False.elim fun ⟨_, _, writes, _⟩ => writes

namespace InMemoryStorage

variable {s t u : InMemoryStorage} {events more : List Invalidation}

/-- The index is what the feed says. -/
def Filed (s : InMemoryStorage) : Prop :=
  ∀ id node, id ∈ s.relsByNode.members node ↔ ∃ event ∈ s.feed, event.Files id node

/-- Every stored version has the ends of an event. -/
def Recorded (s : InMemoryStorage) : Prop :=
  ∀ id, ∀ r ∈ s.rels.history id, ∃ event ∈ s.feed, event.WritesEnds id r.source r.target

/-- The index grows by what the events say. -/
def FilesInto (s t : InMemoryStorage) (events : List Invalidation) : Prop :=
  ∀ id node, id ∈ t.relsByNode.members node ↔
    id ∈ s.relsByNode.members node ∨ ∃ event ∈ events, event.Files id node

theorem FilesInto.refl (same : t.relsByNode = s.relsByNode) : FilesInto s t [] := by
  intro id node
  simp [same]

theorem FilesInto.trans (first : FilesInto s t events) (second : FilesInto t u more) :
    FilesInto s u (events ++ more) := by
  intro id node
  rw [second id node, first id node, or_assoc, ← exists_or]
  simp only [List.mem_append, or_and_right]

variable {env : Env} {id : RelationshipId}

theorem indexRelationship_files (source target : MemoryId) (kind : RelKindId) (lsn : ℕ) :
    FilesInto s (s.indexRelationship id source target)
      [.relationshipUpserted id source target kind lsn] := by
  intro other node
  simp only [indexRelationship, Table.members_extend, Finset.mem_union, List.mem_singleton,
    exists_eq_left, Invalidation.Files, or_assoc]
  refine or_congr_right ?_
  constructor
  · rintro (inside | inside)
    · split at inside
      · next same => exact ⟨(Finset.mem_singleton.mp inside).symm, .inl same⟩
      · cases inside
    · split at inside
      · next same => exact ⟨(Finset.mem_singleton.mp inside).symm, .inr same⟩
      · cases inside
  · rintro ⟨rfl, rfl | rfl⟩
    · exact .inl (by rw [if_pos rfl]; exact Finset.mem_singleton_self _)
    · exact .inr (by rw [if_pos rfl]; exact Finset.mem_singleton_self _)

/-- Publishing files the event. -/
theorem publish_files (s : InMemoryStorage) (event : Invalidation) :
    FilesInto s (s.publish event) [event] := by
  cases event with
  | relationshipUpserted id source target kind lsn =>
      exact indexRelationship_files source target kind lsn
  | _ =>
      intro id node
      simp [publish, indexInvalidation, send, Invalidation.Files]

theorem foldl_publish_files (events : List Invalidation) : ∀ s : InMemoryStorage,
    FilesInto s (events.foldl publish s) events := by
  induction events with
  | nil => exact fun s => .refl rfl
  | cons event events ih => exact fun s => (publish_files s event).trans (ih _)

/-! ## Stored ends -/

/-- The ends of a new version are those of an old one, or of an event. -/
def EndsFiled (old new : Table RelationshipId (List Relationship)) (events : List Invalidation) :
    Prop :=
  ∀ id, ∀ r ∈ new.history id,
    (∃ before ∈ old.history id, before.source = r.source ∧ before.target = r.target) ∨
      ∃ event ∈ events, event.WritesEnds id r.source r.target

namespace EndsFiled

variable {old new : Table RelationshipId (List Relationship)}

theorem of_subset (subset : ∀ id, new.history id ⊆ old.history id) : EndsFiled old new events :=
  fun id r member => .inl ⟨r, subset id member, rfl, rfl⟩

theorem refl (table : Table RelationshipId (List Relationship)) : EndsFiled table table events :=
  of_subset fun _ _ member => member

/-- One more version, with the event that files it. -/
theorem push (filed : EndsFiled old new events) (r : Relationship) (lsn : LSN) (number : ℕ) :
    EndsFiled old (new.push r.id { r with lsn := lsn })
      (events ++ [.relationshipUpserted r.id r.source r.target r.kind number]) := by
  intro id row member
  rw [Table.history_push, List.mem_append] at member
  rcases member with inside | last
  · rcases filed id row inside with before | ⟨event, listed, writes⟩
    · exact .inl before
    · exact .inr ⟨event, List.mem_append_left _ listed, writes⟩
  · split at last
    · next same =>
        cases List.mem_singleton.mp last
        exact .inr ⟨_, List.mem_append_right _ (List.mem_singleton_self _), same.symm, rfl, rfl⟩
    · cases last

/-- A closed copy has the ends of the version that it closes. -/
theorem close {last closed : Relationship} (current : last ∈ old.history id)
    (ends : closed.source = last.source ∧ closed.target = last.target) :
    EndsFiled old (old.push id closed) events := by
  intro other row member
  rw [Table.history_push, List.mem_append] at member
  rcases member with inside | added
  · exact .inl ⟨row, inside, rfl, rfl⟩
  · split at added
    · next same =>
        cases List.mem_singleton.mp added
        exact .inl ⟨last, same ▸ current, ends.1.symm, ends.2.symm⟩
    · cases added

end EndsFiled

/-- A batch under way files what it wrote. -/
def Staged.Files (s : InMemoryStorage) (staged : Staged) : Prop :=
  EndsFiled s.rels staged.rels staged.invalidations

theorem stageRow_files {staged : Staged} (files : Staged.Files s staged) (now : DateTime)
    (r : Relationship) : Staged.Files s (stageRow now staged r) :=
  EndsFiled.push files r _ _

theorem stageRelationship_files {staged : Staged} (files : Staged.Files s staged) (now : DateTime)
    (r : Relationship) : Staged.Files s (stageRelationship env now staged r) := by
  have written := stageRow_files files now r
  unfold stageRelationship
  dsimp only
  split
  · exact written
  · split
    · exact written
    · exact EndsFiled.push written _ _ _

theorem stageMemories_files (now : DateTime) (ms : List Memory) (seen : Finset RelationshipId) :
    Staged.Files s (ms.foldl (stageMemory now) ⟨s.memories, s.rels, s.lsn, seen, [], []⟩) := by
  rw [Staged.Files, (stageMemories_rels _ _ _).1]
  exact .refl _

theorem stageBatch_files (ms : List Memory) (rs : List Relationship) (now : DateTime) :
    Staged.Files s (s.stageBatch env ms rs now) := by
  unfold stageBatch
  refine List.foldlRecOn rs _ (stageMemories_files now ms _) ?_
  intro staged files r _
  exact stageRelationship_files files now r

theorem stageAcceptance_files (relationship : Relationship) (now : DateTime) :
    Staged.Files s (s.stageAcceptance env relationship now) := by
  have start : Staged.Files s ⟨s.memories, s.rels, s.lsn, ∅, [], []⟩ := .refl s.rels
  have written := stageRow_files start now relationship
  unfold stageAcceptance
  dsimp only
  split
  · exact written
  · exact stageRow_files written now _

/-! ## Calls -/

/-- A section files what it sends, and stores no other ends than those of stored versions and of
events. -/
def Indexes {α : Type} (s : InMemoryStorage) (o : Outcome α) : Prop :=
  ∃ sent, o.post.feed = s.feed ++ sent ∧ FilesInto s o.post sent ∧
    EndsFiled s.rels o.post.rels (sent ++ o.pending)

variable {α : Type} {reply : Except StorageError α}

namespace Indexes

theorem after (feed : t.feed = s.feed) (index : t.relsByNode = s.relsByNode)
    (filed : EndsFiled s.rels t.rels events) : Indexes s ⟨reply, events, t⟩ :=
  ⟨[], by rw [feed, List.append_nil], .refl index, filed⟩

theorem idle (rels : t.rels = s.rels) (index : t.relsByNode = s.relsByNode)
    (feed : t.feed = s.feed) : Indexes s ⟨reply, events, t⟩ :=
  after feed index (by rw [rels]; exact .refl _)

theorem fail (s : InMemoryStorage) (error : StorageError) :
    Indexes s (.fail s error : Outcome α) :=
  idle rfl rfl rfl

theorem fenced {o : Outcome α} (indexes : Indexes s o) (lease : OwnerLease) (now : DateTime) :
    Indexes s (s.fenced lease now o) := by
  by_cases current : s.leaseCurrent lease now
  · rw [fenced_current current]
    exact indexes
  · rw [fenced_stale current]
    exact .fail s _

/-- An event that files nothing is sent. -/
theorem sent (feed : t.feed = s.feed ++ [event]) (index : t.relsByNode = s.relsByNode)
    (silent : ∀ id node, ¬ event.Files id node) (filed : EndsFiled s.rels t.rels []) :
    Indexes s ⟨reply, [], t⟩ := by
  refine ⟨[event], feed, fun id node => ?_, fun id r member => ?_⟩
  · simp [index, silent id node]
  · rcases filed id r member with before | ⟨_, listed, _⟩
    · exact .inl before
    · cases listed

end Indexes

theorem upsertMemory_indexes (m : Memory) (now : DateTime) : Indexes s (s.upsertMemory m now) :=
  .sent rfl rfl (fun _ _ => False.elim) (.refl _)

/-- One row is written, filed and sent. -/
theorem upsertRelationshipRowLocked_indexes (r : Relationship) (now : DateTime)
    (s : InMemoryStorage) :
    FilesInto s (s.upsertRelationshipRowLocked r now).2
        [.relationshipUpserted r.id r.source r.target r.kind (s.lsn + 1)] ∧
      EndsFiled s.rels (s.upsertRelationshipRowLocked r now).2.rels
        [.relationshipUpserted r.id r.source r.target r.kind (s.lsn + 1)] :=
  ⟨indexRelationship_files _ _ _ _, (EndsFiled.refl s.rels : EndsFiled _ _ []).push r _ _⟩

theorem upsertRelationship_indexes (r : Relationship) (now : DateTime) :
    Indexes s (s.upsertRelationship env r now) := by
  obtain ⟨index, filed⟩ := upsertRelationshipRowLocked_indexes r now s
  have written : Indexes s (⟨.ok (.at (s.lsn + 1) now), [],
      (s.upsertRelationshipRowLocked r now).2⟩ : Outcome CommitRecord) :=
    ⟨_, rfl, index, by rw [List.append_nil]; exact filed⟩
  unfold upsertRelationship
  dsimp only
  split
  · exact written
  · next inverse _ =>
      split
      · exact written
      · obtain ⟨also, -⟩ := upsertRelationshipRowLocked_indexes inverse now
          (s.upsertRelationshipRowLocked r now).2
        refine ⟨_, ?_, index.trans also, ?_⟩
        · simp [upsertRelationshipRowLocked, send, indexRelationship]
        · rw [List.append_nil]
          exact filed.push inverse _ _

theorem deleteMemory_indexes (id : MemoryId) (now : DateTime) (s : InMemoryStorage) :
    Indexes s (s.deleteMemory id now) := by
  unfold deleteMemory deleteMemoryLocked
  cases (s.memories.history id).getLast? with
  | none => exact .idle rfl rfl rfl
  | some last => exact .idle rfl rfl rfl

theorem deleteRelationship_indexes (now : DateTime) : Indexes s (s.deleteRelationship id now) := by
  unfold deleteRelationship
  dsimp only
  split
  · exact .idle rfl rfl rfl
  · next last found =>
      obtain ⟨current, -⟩ := Option.filter_eq_some_iff.mp found
      exact .sent rfl rfl (fun _ _ => False.elim) (.close (List.mem_of_getLast? current) ⟨rfl, rfl⟩)

theorem deleteRelationshipAudited_indexes (audit : AuditEvent) (now : DateTime) :
    Indexes s (s.deleteRelationshipAudited id audit now) := by
  unfold deleteRelationshipAudited
  dsimp only
  split
  · exact .idle rfl rfl rfl
  · next last found =>
      obtain ⟨current, -⟩ := Option.filter_eq_some_iff.mp found
      exact .sent rfl rfl (fun _ _ => False.elim) (.close (List.mem_of_getLast? current) ⟨rfl, rfl⟩)

theorem promoteMemoryVisibilityAudited_indexes (memory : Memory) (audit : AuditEvent)
    (now : DateTime) : Indexes s (s.promoteMemoryVisibilityAudited memory audit now) := by
  unfold promoteMemoryVisibilityAudited
  split
  · exact .fail s _
  · split
    · exact .fail s _
    · exact .idle rfl rfl rfl

variable {rs : List Relationship} {ms : List Memory}

theorem upsertBatchLocked_files {now : DateTime} {records : List CommitRecord}
    (committed : s.upsertBatchLocked env ms rs now = .ok (records, events, t)) :
    EndsFiled s.rels t.rels events := by
  unfold upsertBatchLocked at committed
  split at committed
  · cases committed
  · cases committed
    exact stageBatch_files ms rs now

theorem Stages.indexes {now : DateTime} {o : Outcome α} (stages : Stages env ms rs now s o) :
    Indexes s o := by
  rcases stages with ⟨-, -, rels, index, feed, -⟩ |
    ⟨records, t, committed, -, -, rels, index, feed, -⟩
  · exact .idle rels index feed
  · have only := (upsertBatchLocked_spec committed).onlyRows
    refine .after (feed.trans (congrArg InMemoryStorage.feed only :))
      (index.trans (congrArg InMemoryStorage.relsByNode only :)) ?_
    rw [rels]
    exact upsertBatchLocked_files committed

theorem acceptDiscovery_indexes (acceptance : DiscoveryAcceptance) (now : DateTime) :
    Indexes s (s.acceptDiscovery env acceptance now) := by
  unfold acceptDiscovery
  split
  · exact .fail s _
  · split
    · exact .fail s _
    · split
      · exact .fail s _
      · exact .after rfl rfl (stageAcceptance_files acceptance.relationship now)

theorem restoreFenced_indexes (restore : FencedRestore) (lease : OwnerLease) (now : DateTime) :
    Indexes s (s.restoreFenced restore lease now) := by
  refine Indexes.fenced ?_ lease now
  refine .after rfl rfl (.of_subset fun id r member => ?_)
  have rows := restoreAll_rows restore now s (.relationship id)
  have kept : Row.relationship r ∈ (s.restoreAll restore now).rows (.relationship id) :=
    List.mem_map_of_mem member
  rw [rows] at kept
  obtain ⟨before, stored, same⟩ := List.mem_map.mp (List.mem_filter.mp kept).1
  cases same
  exact stored

end InMemoryStorage

namespace Call

open InMemoryStorage

/-- **Every call files what it writes.** -/
theorem gated_indexes (env : Env) (now : DateTime) (s : InMemoryStorage) (call : Call) :
    Indexes s (call.gated env now s) := by
  by_cases aside : call.Aside
  · obtain ⟨-, -, rels, index, feed, -⟩ := gated_idle env now s aside
    exact .idle rels index feed
  by_cases about : call.OfDiscovery
  · obtain ⟨-, rels, index, feed, -⟩ := gated_discovers env now s about
    exact .idle rels index feed
  by_cases batch : call.batch = none
  · cases call with
    | upsertMemory m => exact upsertMemory_indexes m now
    | deleteMemory id => exact deleteMemory_indexes id now s
    | upsertRelationship r => exact upsertRelationship_indexes r now
    | deleteRelationship id => exact deleteRelationship_indexes now
    | deleteRelationshipAudited id audit => exact deleteRelationshipAudited_indexes audit now
    | promoteMemoryVisibilityAudited memory audit =>
        exact promoteMemoryVisibilityAudited_indexes memory audit now
    | acceptDiscovery acceptance => exact acceptDiscovery_indexes acceptance now
    | deleteMemoryFenced id lease => exact (deleteMemory_indexes id now s).fenced lease now
    | restoreFenced restore lease => exact restoreFenced_indexes restore lease now
    | _ => first | exact absurd trivial aside | exact absurd trivial about | cases batch
  · obtain ⟨⟨ms, rs⟩, batch⟩ := Option.ne_none_iff_exists'.mp batch
    exact (gated_stages env now s batch).indexes

/-- A whole call files what it sends. -/
theorem run_indexes (env : Env) (now : DateTime) (s : InMemoryStorage) (call : Call) :
    ∃ sent, (call.run env now s).2.feed = s.feed ++ sent ∧
      FilesInto s (call.run env now s).2 sent ∧
      EndsFiled s.rels (call.run env now s).2.rels sent := by
  obtain ⟨sent, feed, index, filed⟩ := gated_indexes env now s call
  obtain ⟨later, state⟩ := foldl_publish (call.gated env now s).pending (call.gated env now s).post
  refine ⟨sent ++ (call.gated env now s).pending, ?_, index.trans (foldl_publish_files _ _), ?_⟩
  · rw [run, state]
    simp [feed]
  · rw [run, state]
    exact filed

/-- The index of a reached store is what its feed says, and so are the ends it stores. -/
theorem runAll_filed (env : Env) (calls : List (DateTime × Call)) :
    Filed (runAll env .new calls) ∧ Recorded (runAll env .new calls) := by
  have start : Filed InMemoryStorage.new ∧ Recorded InMemoryStorage.new := by
    refine ⟨fun id node => ?_, fun id r member => ?_⟩
    · simp [InMemoryStorage.new]
    · cases member
  refine List.foldlRecOn (motive := fun s => Filed s ∧ Recorded s) calls _ start ?_
  rintro s ⟨filed, recorded⟩ call -
  obtain ⟨sent, feed, index, ends⟩ := run_indexes env call.1 s call.2
  refine ⟨fun id node => ?_, fun id r member => ?_⟩
  · rw [index id node, filed id node, feed, ← exists_or]
    simp only [List.mem_append, or_and_right]
  · rw [feed]
    rcases ends id r member with ⟨before, stored, source, target⟩ | ⟨event, inside, writes⟩
    · obtain ⟨event, early, writes⟩ := recorded id before stored
      rw [source, target] at writes
      exact ⟨event, List.mem_append_left _ early, writes⟩
    · exact ⟨event, List.mem_append_right _ inside, writes⟩

end Call

end Exocortex
