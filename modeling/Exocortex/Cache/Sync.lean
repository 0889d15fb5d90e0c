import Exocortex.Cache.Reseed

/-!
# Following the change feed

`applyBatch` is how a server cache follows the feed: it looks up the rows that a batch of events
names and turns every event into changes of the snapshot. A memory that is not found is removed;
a relationship that is not found fails the batch. Every event moves the frontier to its number.

A `LiveCache` is a store with a cache that follows its feed, in batches of any size and as late
as it likes. The look-up takes the current row, closed or superseded or not, whereas a snapshot
built anew takes the live ones only. The calls after which the two agree are `Followable`:
`live_cache_matches_reseed` is that in every run of such calls the cache has, once it has read
every event, the rows that a snapshot built from the store has; and it has the same frontier
when the last call that published anything wrote a row under its last number.
-/

namespace Exocortex

open Library InMemoryStorage

/-! ## A batch of events -/

/-- The memories a batch upserts, sorted and without repetition. -/
def upsertedMemoryIds (invalidations : List Invalidation) : List MemoryId :=
  ((invalidations.filterMap fun
    | .memoryUpserted id _ => some id
    | _ => none).insertionSort fun left right => left.raw.le right.raw).dedup

/-- The relationships a batch upserts, sorted and without repetition. -/
def upsertedRelationshipIds (invalidations : List Invalidation) : List RelationshipId :=
  ((invalidations.filterMap fun
    | .relationshipUpserted id _ _ _ _ => some id
    | _ => none).insertionSort fun left right => left.raw.le right.raw).dedup

/-- The memories found, by identity. -/
def hydratedMemories (s : InMemoryStorage) (invalidations : List Invalidation) :
    Table MemoryId Memory :=
  (s.getMemories (upsertedMemoryIds invalidations)).foldl (fun found m => found.insert m.id m) ∅

/-- The relationships found, by identity. -/
def hydratedRelationships (s : InMemoryStorage) (invalidations : List Invalidation) :
    Table RelationshipId Relationship :=
  (s.getRelationships (upsertedRelationshipIds invalidations)).foldl
    (fun found r => found.insert r.id r) ∅

/-- The changes an event stands for, with the rows that were found. -/
def snapshotDelta (memories : Table MemoryId Memory)
    (relationships : Table RelationshipId Relationship) :
    Invalidation → Except StorageError (List SnapshotDelta)
  | .memoryUpserted id lsn =>
      match memories.lookup id with
      | some memory => .ok [.upsertMemory memory, .advanceBackendLsn lsn]
      | none => .ok [.deleteMemory id, .advanceBackendLsn lsn]
  | .memoryDeleted id lsn => .ok [.deleteMemory id, .advanceBackendLsn lsn]
  | .relationshipUpserted id _ _ _ lsn =>
      match relationships.lookup id with
      | some relationship => .ok [.upsertRelationship relationship, .advanceBackendLsn lsn]
      | none => .error (.backend "relationship invalidation row missing")
  | .relationshipDeleted id lsn => .ok [.deleteRelationship id, .advanceBackendLsn lsn]
  | .visibilityAdvance lsn => .ok [.advanceBackendLsn lsn]
  | .discoveryAvailable _ lsn => .ok [.advanceBackendLsn lsn]
  | .memorySnapshotUpserted memory lsn => .ok [.upsertMemory memory, .advanceBackendLsn lsn]
  | .relationshipSnapshotUpserted relationship lsn =>
      .ok [.upsertRelationship relationship, .advanceBackendLsn lsn]
  | .graphReseed _ _ => .error (.backend "graph reseed must use the atomic reseed path")

/-- Apply a batch of events to a snapshot, all of it or none of it. -/
def applyBatch (s : InMemoryStorage) (snapshot : GraphSnapshot)
    (invalidations : List Invalidation) : Except StorageError GraphSnapshot :=
  let memories := hydratedMemories s invalidations
  let relationships := hydratedRelationships s invalidations
  match invalidations.mapM (snapshotDelta memories relationships) with
  | .error error => .error error
  | .ok deltas => .ok (SnapshotDelta.applyAll snapshot deltas.flatten)

/-! ## What a batch does -/

/-- Rows collected by identity are found under it. -/
theorem lookup_collected {K V : Type} [DecidableEq K] (key : V → K) {current : K → Option V}
    {rows : List V} (keyed : ∀ row ∈ rows, current (key row) = some row) (id : K)
    (named : ∀ row, current id = some row → row ∈ rows ∧ key row = id) :
    (rows.foldl (fun found row => found.insert (key row) row) (∅ : Table K V)).lookup id =
      current id := by
  have fold : ∀ start : Table K V, (∀ row ∈ rows, key row = id → current id = some row) →
      (rows.foldl (fun found row => found.insert (key row) row) start).lookup id =
        if ∃ row ∈ rows, key row = id then current id else start.lookup id := by
    clear keyed named
    induction rows with
    | nil => intro start _; simp
    | cons row rows ih =>
        intro start known
        rw [List.foldl_cons, ih _ fun other inside => known other (List.mem_cons_of_mem _ inside),
          Table.lookup_insert_eq]
        by_cases same : key row = id
        · rw [known row List.mem_cons_self same]
          simp [same.symm]
        · simp [same, Ne.symm same]
  rw [fold ∅ fun row inside same => same ▸ keyed row inside]
  split
  · rfl
  · next absent =>
      cases found : current id with
      | none => exact AList.lookup_empty id
      | some row =>
          obtain ⟨inside, same⟩ := named row found
          exact absurd ⟨row, inside, same⟩ absent

variable {event : Invalidation} {id : RelationshipId}

section Batch

variable {s : InMemoryStorage} {snap : GraphSnapshot} {invalidations : List Invalidation}

theorem lookup_hydratedMemories (keyed : Keyed s.rows) {id : MemoryId} {lsn : ℕ}
    (member : .memoryUpserted id lsn ∈ invalidations) :
    (hydratedMemories s invalidations).lookup id = s.currentMemory id := by
  refine lookup_collected Memory.id (fun m found => ?_) id fun m current => ?_
  · obtain ⟨other, _, current⟩ := List.mem_filterMap.mp found
    rw [keyed.memory_id current]
    exact current
  · refine ⟨List.mem_filterMap.mpr ⟨id, ?_, current⟩, keyed.memory_id current⟩
    rw [upsertedMemoryIds, List.mem_dedup, List.mem_insertionSort]
    exact List.mem_filterMap.mpr ⟨_, member, rfl⟩

theorem lookup_hydratedRelationships (keyed : Keyed s.rows) {source target : MemoryId}
    {kind : RelKindId} {lsn : ℕ}
    (member : .relationshipUpserted id source target kind lsn ∈ invalidations) :
    (hydratedRelationships s invalidations).lookup id = s.currentRelationship id := by
  refine lookup_collected Relationship.id (fun r found => ?_) id fun r current => ?_
  · obtain ⟨other, _, current⟩ := List.mem_filterMap.mp found
    rw [keyed.relationship_id current]
    exact current
  · refine ⟨List.mem_filterMap.mpr ⟨id, ?_, current⟩, keyed.relationship_id current⟩
    rw [upsertedRelationshipIds, List.mem_dedup, List.mem_insertionSort]
    exact List.mem_filterMap.mpr ⟨_, member, rfl⟩

/-- What an event tells a mirror. -/
def Invalidation.notice : Invalidation → Notice MemoryId RelationshipId
  | .memoryUpserted id _ => .node id
  | .memoryDeleted id _ => .dropNode id
  | .relationshipUpserted id _ _ _ _ => .edge id
  | .relationshipDeleted id _ => .dropEdge id
  | _ => .pass

/-- The row that an upsert of a relationship names is there. -/
def RowFound (s : InMemoryStorage) : Invalidation → Prop
  | .relationshipUpserted id _ _ _ _ => s.currentRelationship id ≠ none
  | _ => True

/-- The changes an event stands for, with its row looked up in the store. -/
def deltaFor (s : InMemoryStorage) : Invalidation → List SnapshotDelta
  | .memoryUpserted id lsn =>
      [(s.currentMemory id).elim (.deleteMemory id) .upsertMemory, .advanceBackendLsn lsn]
  | .memoryDeleted id lsn => [.deleteMemory id, .advanceBackendLsn lsn]
  | .relationshipUpserted id _ _ _ lsn =>
      (s.currentRelationship id).toList.map .upsertRelationship ++ [.advanceBackendLsn lsn]
  | .relationshipDeleted id lsn => [.deleteRelationship id, .advanceBackendLsn lsn]
  | event => [.advanceBackendLsn event.lsnOf]

theorem snapshotDelta_eq (keyed : Keyed s.rows) (member : event ∈ invalidations)
    (stored : event.Stored) (found : RowFound s event) :
    snapshotDelta (hydratedMemories s invalidations) (hydratedRelationships s invalidations) event =
      .ok (deltaFor s event) := by
  cases event with
  | memoryUpserted id lsn =>
      rw [snapshotDelta, lookup_hydratedMemories keyed member, deltaFor]
      cases s.currentMemory id <;> rfl
  | memoryDeleted id lsn => rfl
  | relationshipUpserted id source target kind lsn =>
      obtain ⟨r, current⟩ := Option.ne_none_iff_exists'.mp found
      rw [snapshotDelta, lookup_hydratedRelationships keyed member, current, deltaFor, current]
      rfl
  | relationshipDeleted id lsn => rfl
  | discoveryAvailable record lsn => rfl
  | visibilityAdvance lsn => exact stored.elim
  | memorySnapshotUpserted memory lsn => exact stored.elim
  | relationshipSnapshotUpserted relationship lsn => exact stored.elim
  | graphReseed snapshotJson lsn => exact stored.elim

/-- The changes of a snapshot that an event leads to. -/
structure Follows (s : InMemoryStorage) (snap : GraphSnapshot) (event : Invalidation)
    (next : GraphSnapshot) : Prop where
  consistent : next.Consistent
  graph : next.graph = s.openRows.held.follow snap.graph event.notice
  frontier : next.lastBackendLsn = max snap.lastBackendLsn event.lsnOf

/-- A change of the rows, followed by that of the frontier. -/
theorem Follows.of_changed {changed : GraphSnapshot} (consistent : changed.Consistent)
    (graph : changed.graph = s.openRows.held.follow snap.graph event.notice)
    (frontier : changed.lastBackendLsn = snap.lastBackendLsn) :
    Follows s snap event
      { changed with lastBackendLsn := max changed.lastBackendLsn event.lsnOf } :=
  ⟨⟨consistent.node_of_id, consistent.id_of_node, consistent.edge_of_id, consistent.id_of_edge,
    consistent.ends, consistent.listed⟩, graph, by rw [frontier]⟩

theorem lastBackendLsn_insertMemory (snap : GraphSnapshot) (m : Memory) :
    (snap.insertMemory m).lastBackendLsn = snap.lastBackendLsn := by
  unfold GraphSnapshot.insertMemory
  split
  · dsimp only
    split <;> rfl
  · rfl

theorem lastBackendLsn_removeMemory (snap : GraphSnapshot) (id : MemoryId) :
    (snap.removeMemory id).lastBackendLsn = snap.lastBackendLsn := by
  unfold GraphSnapshot.removeMemory
  split
  · rfl
  · dsimp only
    split <;> rfl

theorem lastBackendLsn_insertRelationship (snap : GraphSnapshot) (r : Relationship) :
    (snap.insertRelationship r).lastBackendLsn = snap.lastBackendLsn := by
  unfold GraphSnapshot.insertRelationship
  split
  · dsimp only
    split <;> rfl
  · rfl

theorem lastBackendLsn_removeRelationship (snap : GraphSnapshot) (id : RelationshipId) :
    (snap.removeRelationship id).lastBackendLsn = snap.lastBackendLsn := by
  unfold GraphSnapshot.removeRelationship
  split <;> rfl

/-- Applying what an event stands for is following its notice. -/
theorem applyAll_follows (keyed : Keyed s.rows) (consistent : snap.Consistent)
    (stored : event.Stored) :
    Follows s snap event (SnapshotDelta.applyAll snap (deltaFor s event)) := by
  cases event with
  | memoryUpserted id lsn =>
      cases current : s.currentMemory id with
      | none =>
          have shape : deltaFor s (.memoryUpserted id lsn) =
              [.deleteMemory id, .advanceBackendLsn lsn] := by rw [deltaFor, current]; rfl
          rw [shape]
          refine .of_changed (consistent.removeMemory id) ?_ (lastBackendLsn_removeMemory snap id)
          rw [SnapshotDelta.apply, GraphSnapshot.graph_removeMemory consistent,
            Invalidation.notice, IdGraph.follow]
          have missing : s.openRows.held.node id = none := current
          rw [missing]
      | some m =>
          have shape : deltaFor s (.memoryUpserted id lsn) =
              [.upsertMemory m, .advanceBackendLsn lsn] := by rw [deltaFor, current]; rfl
          rw [shape]
          refine .of_changed (consistent.insertMemory m) ?_ (lastBackendLsn_insertMemory snap m)
          rw [SnapshotDelta.apply, GraphSnapshot.graph_insertMemory consistent,
            keyed.memory_id current,
            Invalidation.notice, IdGraph.follow]
          have there : s.openRows.held.node id = some m := current
          rw [there]
  | memoryDeleted id lsn =>
      exact .of_changed (consistent.removeMemory id)
        (GraphSnapshot.graph_removeMemory consistent id) (lastBackendLsn_removeMemory snap id)
  | relationshipUpserted id source target kind lsn =>
      cases current : s.currentRelationship id with
      | none =>
          have shape : deltaFor s (.relationshipUpserted id source target kind lsn) =
              [.advanceBackendLsn lsn] := by rw [deltaFor, current]; rfl
          rw [shape]
          refine .of_changed consistent ?_ rfl
          rw [Invalidation.notice, IdGraph.follow]
          have missing : s.openRows.held.edge id = none := Option.map_eq_none_iff.mpr current
          rw [missing]
      | some r =>
          have shape : deltaFor s (.relationshipUpserted id source target kind lsn) =
              [.upsertRelationship r, .advanceBackendLsn lsn] := by rw [deltaFor, current]; rfl
          rw [shape]
          refine .of_changed (consistent.insertRelationship r) ?_
            (lastBackendLsn_insertRelationship snap r)
          rw [SnapshotDelta.apply, GraphSnapshot.graph_insertRelationship consistent,
            keyed.relationship_id current, Invalidation.notice, IdGraph.follow]
          have there : s.openRows.held.edge id = some ⟨r, r.source, r.target⟩ :=
            Option.map_eq_some_iff.mpr ⟨r, current, rfl⟩
          rw [there]
  | relationshipDeleted id lsn =>
      exact .of_changed (consistent.removeRelationship id)
        (GraphSnapshot.graph_removeRelationship consistent id)
        (lastBackendLsn_removeRelationship snap id)
  | discoveryAvailable record lsn => exact .of_changed consistent rfl rfl
  | visibilityAdvance lsn => exact stored.elim
  | memorySnapshotUpserted memory lsn => exact stored.elim
  | relationshipSnapshotUpserted relationship lsn => exact stored.elim
  | graphReseed snapshotJson lsn => exact stored.elim

/-- **A batch is applied event by event.** -/
theorem applyBatch_eq (keyed : Keyed s.rows) (stored : ∀ event ∈ invalidations, event.Stored)
    (found : ∀ event ∈ invalidations, RowFound s event) :
    applyBatch s snap invalidations = .ok (invalidations.foldl
      (fun snap event => SnapshotDelta.applyAll snap (deltaFor s event)) snap) := by
  have deltas : invalidations.mapM (snapshotDelta (hydratedMemories s invalidations)
      (hydratedRelationships s invalidations)) = .ok (invalidations.map (deltaFor s)) :=
    mapM_eq_ok_map fun event member =>
      snapshotDelta_eq keyed member (stored event member) (found event member)
  simp only [applyBatch, deltas, SnapshotDelta.applyAll, List.foldl_flatten, List.foldl_map]

end Batch

/-! ## What a call tells the cache -/

namespace Call

/-- The events a call publishes. -/
def events (env : Env) (now : DateTime) (s : InMemoryStorage) (call : Call) : List Invalidation :=
  (call.run env now s).2.feed.drop s.feed.length

theorem run_announces (env : Env) (now : DateTime) (s : InMemoryStorage) (call : Call) :
    (call.run env now s).2.feed = s.feed ++ call.events env now s ∧
      Announced (¬ call.IsRestore) s.rows (call.run env now s).2.rows (call.events env now s) := by
  obtain ⟨sent, feed, announced⟩ := gated_announces env now s call
  obtain ⟨index, state⟩ := run_state env now s call
  have whole : (call.run env now s).2.feed = s.feed ++
    (sent ++ (call.gated env now s).pending) := by
    rw [state, ← List.append_assoc, ← feed]
  have events : call.events env now s = sent ++ (call.gated env now s).pending := by
    rw [Call.events, whole, List.drop_left]
  rw [events, (run_rows env now s call).1]
  exact ⟨whole, announced⟩

/-- A call publishes nothing, or exactly the numbers it takes. -/
theorem events_dense (env : Env) (now : DateTime) (s : InMemoryStorage) (call : Call) :
    call.events env now s = [] ∨
      Dense s.lsn (call.run env now s).2.lsn ((call.events env now s).map Invalidation.lsnOf) := by
  obtain ⟨index, state⟩ := run_state env now s call
  by_cases wasteful : call.Wasteful s
  · left
    have quiet : (call.gated env now s).pending = [] ∧
      (call.gated env now s).post.feed = s.feed := by
      cases call with
      | appendAudit audit => exact ⟨rfl, rfl⟩
      | deleteRelationship id =>
          obtain ⟨post, pending⟩ := deleteRelationship_missing wasteful now
          exact ⟨pending, (congrArg feed post :)⟩
      | deleteRelationshipAudited id audit =>
          obtain ⟨post, pending⟩ := deleteRelationshipAudited_missing wasteful audit now
          exact ⟨pending, (congrArg feed post :)⟩
      | _ => exact wasteful.elim
    rw [events, state, quiet.1, quiet.2, List.append_nil, List.drop_length]
  · right
    obtain ⟨sent, feed, -, -, dense⟩ := (gated_sound env now s call).publishes wasteful
    have events : call.events env now s = sent ++ (call.gated env now s).pending := by
      rw [Call.events, state, feed, List.append_assoc, List.drop_left]
    rw [events, (run_rows env now s call).2]
    exact dense

end Call

/-! ## Changes a cache can follow -/

namespace InMemoryStorage

/-- The current version of a memory is open. -/
def openMemory (s : InMemoryStorage) (id : MemoryId) : Bool :=
  (s.currentMemory id).any Memory.isOpen

/-- A relationship joins memories whose current versions are open. -/
def joinsOpen (s : InMemoryStorage) (r : Relationship) : Bool :=
  s.openMemory r.source && s.openMemory r.target

end InMemoryStorage

/-- An upserted memory is open afterwards. -/
def UpsertsOpen (t : InMemoryStorage) : Invalidation → Prop
  | .memoryUpserted id _ => t.openMemory id = true
  | _ => True

/-- An upserted relationship is open afterwards if its memories are, and keeps its ends if it
was open between memories that stay open. -/
def KeepsEnds (s t : InMemoryStorage) : Invalidation → Prop
  | .relationshipUpserted id _ _ _ _ => ∀ r ∈ t.currentRelationship id,
      (t.joinsOpen r = true → r.isOpen = true) ∧
        ∀ old ∈ s.currentRelationship id, old.isOpen = true → s.joinsOpen old = true →
          t.joinsOpen old = true → old.source = r.source ∧ old.target = r.target
  | _ => True

/-- A memory that was not open comes back together with the relationships then in force at it. -/
def ReturnsWhole (s t : InMemoryStorage) (events : List Invalidation) : Invalidation → Prop
  | .memoryUpserted id _ => s.openMemory id = false → ∀ r ∈ t.streamAllRelationships,
      r.isOpen = true → t.joinsOpen r = true → r.source = id ∨ r.target = id →
        (.edge r.id : Notice MemoryId RelationshipId) ∈ events.map Invalidation.notice
  | _ => True

instance (t : InMemoryStorage) : DecidablePred (UpsertsOpen t)
  | .memoryUpserted _ _ => inferInstanceAs (Decidable (_ = _))
  | .memoryDeleted .. | .relationshipUpserted .. | .relationshipDeleted ..
  | .discoveryAvailable .. | .visibilityAdvance .. | .memorySnapshotUpserted ..
  | .relationshipSnapshotUpserted .. | .graphReseed .. => isTrue trivial

instance (t : InMemoryStorage) : DecidablePred (RowFound t)
  | .relationshipUpserted .. => inferInstanceAs (Decidable (_ ≠ _))
  | .memoryDeleted .. | .memoryUpserted .. | .relationshipDeleted ..
  | .discoveryAvailable .. | .visibilityAdvance .. | .memorySnapshotUpserted ..
  | .relationshipSnapshotUpserted .. | .graphReseed .. => isTrue trivial

instance (s t : InMemoryStorage) : DecidablePred (KeepsEnds s t)
  | .relationshipUpserted id _ _ _ _ =>
      inferInstanceAs (Decidable (∀ r ∈ t.currentRelationship id, _ ∧ ∀ old ∈ _, _))
  | .memoryDeleted .. | .memoryUpserted .. | .relationshipDeleted ..
  | .discoveryAvailable .. | .visibilityAdvance .. | .memorySnapshotUpserted ..
  | .relationshipSnapshotUpserted .. | .graphReseed .. => isTrue trivial

instance (s t : InMemoryStorage) (events : List Invalidation) :
    DecidablePred (ReturnsWhole s t events)
  | .memoryUpserted _ _ => inferInstanceAs (Decidable (_ → ∀ r ∈ t.streamAllRelationships, _))
  | .memoryDeleted .. | .relationshipUpserted .. | .relationshipDeleted ..
  | .discoveryAvailable .. | .visibilityAdvance .. | .memorySnapshotUpserted ..
  | .relationshipSnapshotUpserted .. | .graphReseed .. => isTrue trivial

/-- A change of the store that a cache can follow, with the events it has yet to read. -/
def Followable (s t : InMemoryStorage) (unread events : List Invalidation) : Prop :=
  (∀ event ∈ events, UpsertsOpen t event) ∧ (∀ event ∈ events, KeepsEnds s t event) ∧
    (∀ event ∈ events, ReturnsWhole s t events event) ∧
    ∀ event ∈ unread ++ events, RowFound t event

instance (s t : InMemoryStorage) (unread events : List Invalidation) :
    Decidable (Followable s t unread events) :=
  inferInstanceAs (Decidable (_ ∧ _ ∧ _ ∧ _))

section Followable

variable {s t : InMemoryStorage} {unread events : List Invalidation} {fresh : Prop}

theorem openRows_node {id : MemoryId} :
    s.openRows.wanted.node id ≠ none ↔ s.openMemory id = true := by
  rw [Option.ne_none_iff_exists', openMemory, Option.any_eq_true]
  exact exists_congr fun m => @source_node s Memory.isOpen Relationship.isOpen id m

variable {r : Relationship}

theorem openRows_between : s.openRows.Between ⟨r, r.source, r.target⟩ ↔ s.joinsOpen r = true := by
  rw [Source.Between, openRows_node, openRows_node, joinsOpen, Bool.and_eq_true]

theorem openRows_edge {link : Link MemoryId Relationship} :
    s.openRows.wanted.edge id = some link ↔ ∃ r, s.currentRelationship id = some r ∧
      r.isOpen = true ∧ link = ⟨r, r.source, r.target⟩ :=
  @source_edge s Memory.isOpen Relationship.isOpen id link

theorem openRows_held_edge (current : s.currentRelationship id = some r) :
    s.openRows.held.edge id = some ⟨r, r.source, r.target⟩ :=
  Option.map_eq_some_iff.mpr ⟨r, current, rfl⟩

/-- A stored event with a notice of a memory names it. -/
theorem names_of_notice_memory {id : MemoryId} (stored : event.Stored)
    (names : event.names = some (.memory id)) :
    event.notice = .node id ∨ event.notice = .dropNode id := by
  cases event <;> cases names
  · exact .inl rfl
  · exact .inr rfl

theorem names_of_notice_relationship (stored : event.Stored)
    (names : event.names = some (.relationship id)) :
    event.notice = .edge id ∨ event.notice = .dropEdge id := by
  cases event <;> cases names
  · exact .inl rfl
  · exact .inr rfl

/-- A memory without notices has the current version it had. -/
theorem InMemoryStorage.Announced.memory_unnamed (announced : Announced fresh s.rows t.rows events)
    {id : MemoryId} (node : .node id ∉ events.map Invalidation.notice)
    (drop : .dropNode id ∉ events.map Invalidation.notice) :
    t.currentMemory id = s.currentMemory id := by
  have same := announced.unnamed (.memory id) fun event member names => by
    rcases names_of_notice_memory (announced.stored event member) names with up | down
    · exact node (up ▸ List.mem_map_of_mem member)
    · exact drop (down ▸ List.mem_map_of_mem member)
  rw [rows, rows, rowsOf, rowsOf, List.getLast?_map, List.getLast?_map] at same
  exact (Option.map_injective Row.memory_injective) same

/-- A relationship without notices has the current version it had. -/
theorem InMemoryStorage.Announced.relationship_unnamed
    (announced : Announced fresh s.rows t.rows events)
    (quiet : Quiet id (events.map Invalidation.notice)) :
    t.currentRelationship id = s.currentRelationship id := by
  have same := announced.unnamed (.relationship id) fun event member names => by
    rcases names_of_notice_relationship (announced.stored event member) names with up | down
    · exact quiet.1 (up ▸ List.mem_map_of_mem member)
    · exact quiet.2 (down ▸ List.mem_map_of_mem member)
  rw [rows, rows, rowsOf, rowsOf, List.getLast?_map, List.getLast?_map] at same
  exact (Option.map_injective Row.relationship_injective) same

theorem nodesFirst_notices (first : MemoriesFirst events) :
    NodesFirst (events.map Invalidation.notice) := by
  obtain ⟨front, back, rfl, noRels, noMemories⟩ := first
  refine ⟨front.map Invalidation.notice, back.map Invalidation.notice, List.map_append, ?_, ?_⟩
  · intro notice member
    obtain ⟨event, inside, rfl⟩ := List.mem_map.mp member
    have apart := noRels event inside
    cases event <;> first | exact id | exact fun _ => apart ⟨_, rfl⟩
  · intro notice member
    obtain ⟨event, inside, rfl⟩ := List.mem_map.mp member
    have apart := noMemories event inside
    cases event <;> first | exact id | exact fun _ => apart ⟨_, rfl⟩

/-- **A change that a cache can follow is announced** as a mirror needs it. -/
theorem Followable.announces (followable : Followable s t unread events)
    (announced : Announced fresh s.rows t.rows events) (keyed : Keyed t.rows) :
    s.openRows.Announces (events.map Invalidation.notice) t.openRows := by
  obtain ⟨upserts, keeps, returns, found⟩ := followable
  refine ⟨nodesFirst_notices announced.memories_first, ?_, ?_, ?_, ?_, ?_, ?_, ?_, ?_⟩
  · intro id node drop
    exact congrArg (Option.filter Memory.isOpen) (announced.memory_unnamed node drop)
  · intro id node
    obtain ⟨event, member, notice⟩ := List.mem_map.mp node
    have isOpen := upserts event member
    rw [openRows_node]
    cases event <;> cases notice
    exact isOpen
  · intro id drop
    obtain ⟨event, member, notice⟩ := List.mem_map.mp drop
    have removes : event.removes = some (.memory id) := by
      cases event <;> cases notice
      rfl
    by_contra wanted
    obtain ⟨m, there⟩ := Option.ne_none_iff_exists'.mp wanted
    obtain ⟨current, isOpen⟩ := Option.filter_eq_some_iff.mp there
    have last : (t.rows (.memory id)).getLast? = some (.memory m) := by
      rw [rows, rowsOf, List.getLast?_map]
      exact Option.map_eq_some_iff.mpr ⟨m, current, rfl⟩
    have ended := announced.removed event member _ removes _ last
    rw [Memory.isOpen, Bool.and_eq_true, Option.isNone_iff_eq_none,
      Option.isNone_iff_eq_none] at isOpen
    exact ended isOpen.2
  · intro id quiet
    exact congrArg (fun current => (Option.filter Relationship.isOpen current).map
      fun r : Relationship => (⟨r, r.source, r.target⟩ : Link MemoryId Relationship))
      (announced.relationship_unnamed quiet)
  · intro id quiet
    exact congrArg (Option.map fun r : Relationship =>
      (⟨r, r.source, r.target⟩ : Link MemoryId Relationship)) (announced.relationship_unnamed quiet)
  · intro id edge
    obtain ⟨event, member, notice⟩ := List.mem_map.mp edge
    have there := found event (List.mem_append_right _ member)
    have kept := keeps event member
    cases event <;> cases notice
    obtain ⟨r, current⟩ := Option.ne_none_iff_exists'.mp there
    obtain ⟨isOpen, ends⟩ := kept r current
    refine ⟨_, openRows_held_edge current, fun between => ?_, ?_⟩
    · exact openRows_edge.mpr ⟨r, current, isOpen (openRows_between.mp between), rfl⟩
    · intro link wanted before after
      obtain ⟨old, was, wasOpen, rfl⟩ := openRows_edge.mp wanted
      exact ends old was wasOpen (openRows_between.mp before) (openRows_between.mp after)
  · intro id drop
    obtain ⟨event, member, notice⟩ := List.mem_map.mp drop
    have removes : event.removes = some (.relationship id) := by
      cases event <;> cases notice
      rfl
    by_contra wanted
    obtain ⟨link, there⟩ := Option.ne_none_iff_exists'.mp wanted
    obtain ⟨r, current, isOpen, -⟩ := openRows_edge.mp there
    have last : (t.rows (.relationship id)).getLast? = some (.relationship r) := by
      rw [rows, rowsOf, List.getLast?_map]
      exact Option.map_eq_some_iff.mpr ⟨r, current, rfl⟩
    have ended := announced.removed event member _ removes _ last
    rw [Relationship.isOpen, Bool.and_eq_true, Option.isNone_iff_eq_none,
      Option.isNone_iff_eq_none] at isOpen
    exact ended isOpen.2
  · intro id node absent rel link wanted between joins
    obtain ⟨event, member, notice⟩ := List.mem_map.mp node
    have whole := returns event member
    cases event <;> cases notice
    have closed : s.openMemory id = false := by
      rw [Bool.eq_false_iff, Ne, ← openRows_node]
      exact not_not.mpr absent
    obtain ⟨r, current, isOpen, rfl⟩ := openRows_edge.mp wanted
    have listed := whole closed r (mem_streamAllRelationships.mpr ⟨rel, current⟩) isOpen
      (openRows_between.mp between) joins
    rw [keyed.relationship_id current] at listed
    exact listed

end Followable

/-! ## Runs -/

/-- A store, the events its cache has yet to read, and the snapshot of the cache. `stamped` says
whether the last call that published anything wrote a row under its last number. -/
structure LiveCache where
  store : InMemoryStorage
  unread : List Invalidation
  snapshot : GraphSnapshot
  stamped : Bool

/-- A call on the store, or the next events applied as one batch. -/
inductive CacheAction where
  | call (now : DateTime) (call : Call)
  | apply (count : ℕ)

/-- The last event of a call is of a row that the call wrote. -/
def stampsLast (call : Call) (events : List Invalidation) : Bool :=
  !decide call.IsRestore && events.getLast?.any fun event => event.writes.isSome

namespace LiveCache

/-- A cache seeded from a store. -/
def seeded (now : DateTime) (s : InMemoryStorage) : LiveCache :=
  ⟨s, [], .fromStorage now s, true⟩

/-- One step. A batch that fails leaves the snapshot as it was, and is not retried. -/
def step (env : Env) (sys : LiveCache) : CacheAction → LiveCache
  | .call now call =>
      let events := call.events env now sys.store
      { sys with
        store := (call.run env now sys.store).2
        unread := sys.unread ++ events
        stamped := if events.isEmpty then sys.stamped else stampsLast call events }
  | .apply count =>
      let snapshot := match applyBatch sys.store sys.snapshot (sys.unread.take count) with
        | .ok snapshot => snapshot
        | .error _ => sys.snapshot
      { sys with unread := sys.unread.drop count, snapshot := snapshot }

/-- The calls the cache can follow. It may read at any time. -/
def Allowed (env : Env) (sys : LiveCache) : CacheAction → Prop
  | .call now call => Followable sys.store (call.run env now sys.store).2 sys.unread
      (call.events env now sys.store)
  | .apply _ => True

instance (env : Env) (sys : LiveCache) : DecidablePred (sys.Allowed env)
  | .call _ _ => inferInstanceAs (Decidable (Followable _ _ _ _))
  | .apply _ => isTrue trivial

def machine (env : Env) : Machine LiveCache CacheAction where
  allowed := Allowed env
  step := step env

instance (env : Env) (sys : LiveCache) (action : CacheAction) :
    Decidable ((machine env).allowed sys action) :=
  inferInstanceAs (Decidable (sys.Allowed env action))

/-- The frontier the cache will have when it has read everything. -/
def target (sys : LiveCache) : ℕ :=
  sys.unread.foldl (fun frontier event => max frontier event.lsnOf) sys.snapshot.lastBackendLsn

/-- A number covers the relationships and the open memories of a store. -/
def Covers (s : InMemoryStorage) (bound : ℕ) : Prop :=
  (∀ id r, s.currentRelationship id = some r → r.lsn.value ≤ bound) ∧
    ∀ id m, s.currentMemory id = some m → m.isOpen = true → m.lsn.value ≤ bound

/-- What holds along every run that the cache can follow. -/
structure Tracks (sys : LiveCache) : Prop where
  keyed : Keyed sys.store.rows
  wellStamped : sys.store.WellStamped
  consistent : sys.snapshot.Consistent
  stored : ∀ event ∈ sys.unread, event.Stored
  found : ∀ event ∈ sys.unread, RowFound sys.store event
  synced : ∃ up, Synced up sys.store.openRows (sys.unread.map Invalidation.notice)
    sys.snapshot.graph
  target_le : sys.target ≤ sys.store.lsn
  target_eq : sys.stamped = true → ∀ bound, sys.target ≤ bound ↔ Covers sys.store bound

variable {env : Env} {sys : LiveCache}

variable {s : InMemoryStorage}

/-- A number that a well-stamped store has reached covers it. -/
theorem covers_of_le (wellStamped : s.WellStamped) {bound : ℕ} (le : s.lsn ≤ bound) :
    Covers s bound := by
  have ordered := LsnOrdered.of_wellStamped wellStamped
  refine ⟨fun id r current => ?_, fun id m current _ => ?_⟩
  · exact (ordered.relationships_le id r (List.mem_of_getLast? current)).trans le
  · exact (ordered.memories_le id m (List.mem_of_getLast? current)).trans le

theorem tracks_seeded {now : DateTime} (keyed : Keyed s.rows) (wellStamped : s.WellStamped)
    (settled : Settled now s) : (seeded now s).Tracks := by
  obtain ⟨consistent, graph⟩ := GraphSnapshot.graph_fromStorage keyed settled
  have frontier := GraphSnapshot.fromStorage_frontier_le keyed settled
  refine ⟨keyed, wellStamped, consistent, ?_, ?_, ?_, ?_, ?_⟩
  · exact fun _ member => absurd member List.not_mem_nil
  · exact fun _ member => absurd member List.not_mem_nil
  · have synced := Synced.start s.openRows
    rw [← graph] at synced
    exact ⟨_, synced⟩
  · exact (frontier _).mpr (covers_of_le wellStamped le_rfl)
  · exact fun _ bound => frontier bound

/-- Reading one event. -/
theorem Tracks.read_one {rest : List Invalidation} (tracks : sys.Tracks)
    (unread : sys.unread = event :: rest) :
    Tracks { sys with
      unread := rest
      snapshot := SnapshotDelta.applyAll sys.snapshot (deltaFor sys.store event) } := by
  have listed : event ∈ sys.unread := unread ▸ List.mem_cons_self
  have later (other : Invalidation) (member : other ∈ rest) : other ∈ sys.unread :=
    unread ▸ List.mem_cons_of_mem _ member
  obtain ⟨consistent, graph, frontier⟩ :=
    applyAll_follows tracks.keyed tracks.consistent (tracks.stored event listed)
  have target : LiveCache.target { sys with
      unread := rest
      snapshot := SnapshotDelta.applyAll sys.snapshot (deltaFor sys.store event) } =
      sys.target := by
    rw [LiveCache.target, LiveCache.target, unread, List.foldl_cons, frontier]
  refine ⟨tracks.keyed, tracks.wellStamped, consistent, fun other member =>
    tracks.stored other (later other member), fun other member =>
    tracks.found other (later other member), ?_, ?_, ?_⟩
  · obtain ⟨up, synced⟩ := tracks.synced
    rw [unread, List.map_cons] at synced
    have followed := synced.follow
    rw [← graph] at followed
    exact ⟨_, followed⟩
  · rw [target]
    exact tracks.target_le
  · rw [target]
    exact tracks.target_eq

/-- Reading events one after the other. -/
theorem Tracks.read (tracks : sys.Tracks) (front back : List Invalidation)
    (unread : sys.unread = front ++ back) :
    Tracks { sys with
      unread := back
      snapshot := front.foldl
        (fun snap event => SnapshotDelta.applyAll snap (deltaFor sys.store event))
        sys.snapshot } := by
  induction front generalizing sys with
  | nil =>
      rw [List.nil_append] at unread
      subst unread
      exact tracks
  | cons event front ih => exact ih (tracks.read_one unread) rfl

/-- A batch is read whole. -/
theorem Tracks.apply (env : Env) (tracks : sys.Tracks) (count : ℕ) :
    (sys.step env (.apply count)).Tracks := by
  have taken (event : Invalidation) (member : event ∈ sys.unread.take count) :
      event ∈ sys.unread := List.mem_of_mem_take member
  have applied : applyBatch sys.store sys.snapshot (sys.unread.take count) =
      .ok ((sys.unread.take count).foldl
        (fun snap event => SnapshotDelta.applyAll snap (deltaFor sys.store event))
        sys.snapshot) :=
    applyBatch_eq tracks.keyed (fun event member => tracks.stored event (taken event member))
      fun event member => tracks.found event (taken event member)
  have read := tracks.read (sys.unread.take count) (sys.unread.drop count)
    (List.take_append_drop count sys.unread).symm
  simp only [step, applied]
  exact read

/-- A version under the last number is the current one. -/
theorem current_of_stamp (wellStamped : s.WellStamped) {row : RowId} {version : Row}
    (member : version ∈ s.rows row) (stamp : version.lsn = s.lsn) :
    (s.rows row).getLast? = some version := by
  obtain ⟨front, back, shape⟩ := List.append_of_mem member
  cases back with
  | nil => rw [shape, List.getLast?_concat]
  | cons next back =>
      -- A later version would carry a higher number.
      have increasing := wellStamped.increasing row
      rw [shape, List.pairwise_append, List.pairwise_cons] at increasing
      have higher := increasing.2.1.1 next List.mem_cons_self
      have bounded := wellStamped.bounded row next (by rw [shape]; simp)
      omega

variable {t : InMemoryStorage}

/-- Only current versions count. -/
theorem covers_congr (memories : t.currentMemory = s.currentMemory)
    (relationships : t.currentRelationship = s.currentRelationship) (bound : ℕ) :
    Covers t bound ↔ Covers s bound := by
  rw [Covers, Covers, memories, relationships]

/-- A call with a last event of a row it wrote: its last number is the frontier. -/
theorem covers_iff_of_stamped {call : Call} {unread : List Invalidation}
    {events : List Invalidation} (announced : Announced (¬ call.IsRestore) s.rows t.rows events)
    (followable : Followable s t unread events) (wellStamped : t.WellStamped)
    (last : events.getLast? = some event) (number : event.lsnOf = t.lsn)
    (stamps : stampsLast call events = true) (bound : ℕ) : t.lsn ≤ bound ↔ Covers t bound := by
  refine ⟨covers_of_le wellStamped, fun covers => ?_⟩
  rw [stampsLast, last, Bool.and_eq_true, Bool.not_eq_true', decide_eq_false_iff_not,
    Option.any_some, Option.isSome_iff_exists] at stamps
  obtain ⟨notRestore, row, writes⟩ := stamps
  have member := List.mem_of_getLast? last
  obtain ⟨version, inside, stamp⟩ := announced.stamps notRestore event member row writes
  have current := current_of_stamp wellStamped inside (stamp.trans number)
  have isOpen := followable.1 event member
  rw [← number, ← stamp]
  cases row with
  | memory id =>
      rw [rows, rowsOf, List.getLast?_map] at current
      obtain ⟨m, found, rfl⟩ := Option.map_eq_some_iff.mp current
      have upserted : t.openMemory id = true := by
        cases event <;> cases writes
        exact isOpen
      have there : t.currentMemory id = some m := found
      rw [openMemory, there] at upserted
      exact covers.2 id m there upserted
  | relationship id =>
      rw [rows, rowsOf, List.getLast?_map] at current
      obtain ⟨r, found, rfl⟩ := Option.map_eq_some_iff.mp current
      exact covers.1 id r found

theorem Tracks.call (tracks : sys.Tracks) (now : DateTime) {call : Call}
    (followable : Followable sys.store (call.run env now sys.store).2 sys.unread
      (call.events env now sys.store)) : (sys.step env (.call now call)).Tracks := by
  obtain ⟨feed, announced⟩ := Call.run_announces env now sys.store call
  obtain ⟨wellStamped, counter_le⟩ := Call.run_stamped env now tracks.wellStamped call
  have keyed := announced.keyed tracks.keyed
  have found := followable.2.2.2
  have target : (sys.step env (.call now call)).target =
      (call.events env now sys.store).foldl (fun frontier event => max frontier event.lsnOf)
        sys.target := by
    rw [LiveCache.target, LiveCache.target, step, List.foldl_append]
  refine ⟨keyed, wellStamped, tracks.consistent, ?_, found, ?_, ?_, ?_⟩
  · intro event member
    rcases List.mem_append.mp member with old | new
    · exact tracks.stored event old
    · exact announced.stored event new
  · obtain ⟨up, synced⟩ := tracks.synced
    refine ⟨up, ?_⟩
    rw [step, List.map_append]
    refine synced.announce (followable.announces announced keyed) fun id member => ?_
    rw [← List.map_append] at member
    obtain ⟨event, listed, notice⟩ := List.mem_map.mp member
    have there := found event listed
    cases event <;> cases notice
    obtain ⟨r, current⟩ := Option.ne_none_iff_exists'.mp there
    rw [openRows_held_edge current]
    simp
  · rw [target, GraphSnapshot.foldl_max_le Invalidation.lsnOf]
    refine ⟨tracks.target_le.trans counter_le, fun event member => ?_⟩
    rcases Call.events_dense env now sys.store call with none | dense
    · rw [none] at member
      cases member
    · exact (dense.mem_iff.mp (List.mem_map_of_mem member)).2
  · intro stamped bound
    by_cases none : call.events env now sys.store = []
    · -- Without events every row is as before.
      have memories : (call.run env now sys.store).2.currentMemory = sys.store.currentMemory :=
        funext fun id => announced.memory_unnamed (by rw [none]; simp) (by rw [none]; simp)
      have relationships : (call.run env now sys.store).2.currentRelationship =
          sys.store.currentRelationship :=
        funext fun id => announced.relationship_unnamed (by rw [none]; exact .nil id)
      have kept : sys.stamped = true := by
        rw [step] at stamped
        simpa [none] using stamped
      rw [target, none, List.foldl_nil, tracks.target_eq kept]
      exact (covers_congr memories relationships bound).symm
    · have dense := (Call.events_dense env now sys.store call).resolve_left none
      obtain ⟨event, last⟩ := Option.isSome_iff_exists.mp (List.getLast?_isSome.mpr none)
      have number := dense.getLast (by rw [List.getLast?_map, last]; rfl)
      have stamps : stampsLast call (call.events env now sys.store) = true := by
        rw [step] at stamped
        simpa [none] using stamped
      have reached : (sys.step env (.call now call)).target ≤ bound ↔
          (call.run env now sys.store).2.lsn ≤ bound := by
        rw [target, GraphSnapshot.foldl_max_le Invalidation.lsnOf]
        constructor
        · rintro ⟨_, all⟩
          exact number ▸ all event (List.mem_of_getLast? last)
        · intro le
          refine ⟨(tracks.target_le.trans counter_le).trans le, fun other member => ?_⟩
          exact (dense.mem_iff.mp (List.mem_map_of_mem member)).2.trans le
      rw [reached]
      exact covers_iff_of_stamped announced followable wellStamped last number stamps bound

/-- **Every run that the cache can follow keeps it on its way.** -/
theorem Tracks.run (tracks : sys.Tracks) {actions : List CacheAction}
    (allows : (machine env).Allows sys actions) : ((machine env).run sys actions).Tracks :=
  allows.invariant tracks fun sys action tracks allowed => by
    cases action with
    | call now call => exact tracks.call now allowed
    | apply count => exact tracks.apply env count

/-- **A cache that followed the feed has the rows of one built anew.** The store is any store a
run of calls reaches; the cache is seeded from it and follows the calls after that, as late as
it likes. Once it has read every event it has the memories and the relationships of a snapshot
built from the store at the end, and the same frontier when the last call that published
anything wrote a row under its last number. -/
theorem live_cache_matches_reseed (env : Env) (before : List (DateTime × Call))
    (start finish : DateTime) (actions : List CacheAction)
    (settledStart : Settled start (Call.runAll env .new before))
    (followed : (machine env).Allows (seeded start (Call.runAll env .new before)) actions)
    (settledFinish : Settled finish
      ((machine env).run (seeded start (Call.runAll env .new before)) actions).store)
    (read : ((machine env).run (seeded start (Call.runAll env .new before)) actions).unread = []) :
    let sys := (machine env).run (seeded start (Call.runAll env .new before)) actions
    sys.snapshot.memories = (GraphSnapshot.fromStorage finish sys.store).memories ∧
      sys.snapshot.relationships = (GraphSnapshot.fromStorage finish sys.store).relationships ∧
      (sys.stamped = true →
        sys.snapshot.lastBackendLsn =
          (GraphSnapshot.fromStorage finish sys.store).lastBackendLsn) := by
  intro sys
  have tracks : sys.Tracks :=
    (tracks_seeded (runAll_keyed env before) (Call.runAll_stamped env before) settledStart).run
      followed
  obtain ⟨consistent, graph⟩ := GraphSnapshot.graph_fromStorage tracks.keyed settledFinish
  have same : sys.snapshot.graph = (GraphSnapshot.fromStorage finish sys.store).graph := by
    obtain ⟨up, synced⟩ := tracks.synced
    rw [read] at synced
    rw [graph]
    exact synced.mirror_eq
  refine ⟨?_, ?_, fun stamped => ?_⟩
  · rw [tracks.consistent.memories_eq, consistent.memories_eq, same]
  · rw [tracks.consistent.relationships_eq, consistent.relationships_eq, same]
  · have covers := tracks.target_eq stamped
    have frontier := GraphSnapshot.fromStorage_frontier_le tracks.keyed settledFinish
    have target : sys.target = sys.snapshot.lastBackendLsn := by
      rw [LiveCache.target, read]
      rfl
    rw [target] at covers
    apply le_antisymm
    · exact (covers _).mpr ((frontier _).mp le_rfl)
    · exact (frontier _).mpr ((covers _).mp le_rfl)

/-- Two memories and a relationship between them, of which the target is removed and comes back
with the relationship. The cache reads late. -/
def removalAndReturn : List CacheAction :=
  [.call 0 (.upsertMemory (.blank ⟨.fill 16 1⟩)), .call 0 (.upsertMemory (.blank ⟨.fill 16 2⟩)),
    .call 0 (.upsertRelationship (.blank ⟨.fill 16 7⟩ ⟨.fill 16 1⟩ ⟨.fill 16 2⟩)), .apply 2,
    .call 0 (.deleteMemory ⟨.fill 16 2⟩), .apply 1,
    .call 0 (.upsertBatch [.blank ⟨.fill 16 2⟩]
      [.blank ⟨.fill 16 7⟩ ⟨.fill 16 1⟩ ⟨.fill 16 2⟩]), .apply 3]

theorem live_cache_matches_reseed_returns :
    let sys := (machine Env.blank).run (seeded 0 (Call.runAll Env.blank .new [])) removalAndReturn
    sys.snapshot.memories = (GraphSnapshot.fromStorage 0 sys.store).memories ∧
      sys.snapshot.relationships = (GraphSnapshot.fromStorage 0 sys.store).relationships ∧
      (sys.stamped = true →
        sys.snapshot.lastBackendLsn = (GraphSnapshot.fromStorage 0 sys.store).lastBackendLsn) :=
  live_cache_matches_reseed Env.blank [] 0 0 removalAndReturn (by decide +kernel)
    (by decide +kernel) (by decide +kernel) (by decide +kernel)

/-- A memory is upserted with a successor named. The row is not live, and a snapshot built anew
leaves it out; the cache that followed the feed keeps it. -/
theorem superseded_memory_stays_cached :
    let superseded : Memory := { Memory.blank ⟨.fill 16 1⟩ with invalidatedBy := some ⟨.fill 16 2⟩ }
    let sys := (machine Env.blank).run (seeded 0 (Call.runAll Env.blank .new []))
      [.call 0 (.upsertMemory (.blank ⟨.fill 16 1⟩)), .apply 1, .call 0 (.upsertMemory superseded),
        .apply 1]
    Settled 0 sys.store ∧ sys.unread = [] ∧
      sys.snapshot.memories ≠ (GraphSnapshot.fromStorage 0 sys.store).memories := by
  intro superseded sys
  refine ⟨by decide +kernel, by decide +kernel, fun same => ?_⟩
  have cached : { superseded with lsn := LSN.newBackend 2 } ∈ sys.snapshot.memories := by
    rw [← GraphSnapshot.mem_nodeWeights]
    decide +kernel
  rw [same, ← GraphSnapshot.mem_nodeWeights] at cached
  exact absurd cached (by decide +kernel)

end LiveCache

end Exocortex
