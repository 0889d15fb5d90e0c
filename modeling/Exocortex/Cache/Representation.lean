import Exocortex.Cache.Indexes
import Exocortex.Library.Runs
import Exocortex.Library.Sums
import Exocortex.Storage.CallSpecs

/-!
# What a snapshot keeps in step

`CachedSnapshot.Indexed` says that all that a snapshot keeps besides its rows is what the rows make
of it: the indexes by identity, by entity, by type and by tag, and the two counters of bytes.

The identities and the counters are kept by every change (`Counted`). The other indexes are kept
exactly by the changes of `Meets`: a memory names each entity once; no other memory with the short
key of one that leaves is of its type or has a tag of it; and a relationship that replaces another
one runs between the same memories (`indexed_apply_iff`).
-/

namespace Exocortex

open Library

variable {ix : ℕ}

namespace GraphSnapshot

variable {snap : GraphSnapshot}

theorem Consistent.congr {later : GraphSnapshot} (consistent : snap.Consistent)
    (petgraph : later.petgraph = snap.petgraph) (byId : later.byId = snap.byId)
    (byRelId : later.byRelId = snap.byRelId) : later.Consistent := by
  cases later with
  | mk laterGraph laterIds _ _ _ laterRels _ _ =>
      subst petgraph byId byRelId
      exact ⟨consistent.node_of_id, consistent.id_of_node, consistent.edge_of_id,
        consistent.id_of_edge, consistent.ends, consistent.listed⟩

/-- Memories are told apart by their identities. -/
theorem Consistent.memory_unique (consistent : snap.Consistent) {m other : Memory}
    (present : m ∈ snap.memories) (also : other ∈ snap.memories) (same : m.id = other.id) :
    m = other := by
  obtain ⟨ix, found⟩ := present
  obtain ⟨ix', found'⟩ := also
  have indexed := consistent.id_of_node ix m found
  rw [same, consistent.id_of_node ix' other found', Option.some.injEq] at indexed
  rw [indexed, found, Option.some.injEq] at found'
  exact found'

variable {id : MemoryId}

theorem Consistent.mem_memories_of_id (consistent : snap.Consistent)
    (indexed : snap.byId.lookup id = some ix) : ∃ m ∈ snap.memories, m.id = id := by
  obtain ⟨m, found, same⟩ := consistent.node_of_id id ix indexed
  exact ⟨m, ⟨ix, found⟩, same⟩

theorem Consistent.replaced_insertMemory (consistent : snap.Consistent) (m : Memory) :
    Replaced snap.memories (snap.insertMemory m).memories m.id (some m) where
  later_iff other := by
    obtain ⟨place, indexed, _, nodes, named, _⟩ := consistent.insertMemory_nodes m
    simp only [memories, Set.mem_ofPred_eq, nodes]
    constructor
    · rintro ⟨ix, found⟩
      split at found
      · exact .inr found
      · next apart =>
          refine .inl ⟨⟨ix, found⟩, fun same => apart ?_⟩
          have after := (consistent.insertMemory m).id_of_node ix other (by
            rw [nodes, if_neg apart, found])
          rw [same, indexed, Option.some.injEq] at after
          exact after.symm
    · rintro (⟨⟨ix, found⟩, apart⟩ | same)
      · refine ⟨ix, ?_⟩
        rw [if_neg, found]
        rintro rfl
        exact apart (named other found)
      · exact ⟨place, by rw [if_pos rfl, same]⟩
  named other same := by
    cases same
    rfl

theorem Consistent.replaced_removeMemory (consistent : snap.Consistent)
    (indexed : snap.byId.lookup id = some ix) :
    Replaced snap.memories (snap.removeMemory id).memories id none where
  later_iff other := by
    obtain ⟨_, nodes, _⟩ := consistent.removeMemory_rows indexed
    simp only [memories, Set.mem_ofPred_eq, nodes, reduceCtorEq, or_false]
    constructor
    · rintro ⟨at_, found⟩
      split at found
      · cases found
      · next apart =>
          refine ⟨⟨at_, found⟩, fun same => apart ?_⟩
          have indexed' := consistent.id_of_node at_ other found
          rw [same, indexed, Option.some.injEq] at indexed'
          exact indexed'.symm
    · rintro ⟨⟨at_, found⟩, apart⟩
      refine ⟨at_, ?_⟩
      rw [if_neg, found]
      rintro rfl
      obtain ⟨m, there, same⟩ := consistent.node_of_id id at_ indexed
      rw [found, Option.some.injEq] at there
      exact apart (there ▸ same)
  named other impossible := by cases impossible

/-- The indexes by entity, type and tag are those of another snapshot. -/
structure SameIndexes (later snap : GraphSnapshot) : Prop where
  byEntity : later.byEntity = snap.byEntity
  byType : later.byType = snap.byType
  byTag : later.byTag = snap.byTag

/-- What inserting a memory does to the other indexes. -/
theorem Consistent.insertMemory_indexes (consistent : snap.Consistent) (m : Memory) :
    (∃ prior ∈ snap.memories, prior.id = m.id ∧
      SameIndexes (snap.insertMemory m) ((snap.removeMemoryIndexes prior).indexMemory m)) ∨
    (∀ other ∈ snap.memories, other.id ≠ m.id) ∧
      SameIndexes (snap.insertMemory m) (snap.indexMemory m) := by
  cases indexed : snap.byId.lookup m.id with
  | some ix =>
      obtain ⟨prior, found, same⟩ := consistent.node_of_id m.id ix indexed
      refine .inl ⟨prior, ⟨ix, found⟩, same, ?_⟩
      have there : snap.petgraph.nodeWeight ix = some prior := found
      rw [GraphSnapshot.insertMemory, indexed]
      simp only [there]
      exact ⟨rfl, rfl, rfl⟩
  | none =>
      refine .inr ⟨?_, ?_⟩
      · rintro other ⟨ix, found⟩ same
        have present := consistent.id_of_node ix other found
        rw [same, indexed] at present
        cases present
      · rw [GraphSnapshot.insertMemory, indexed]
        exact ⟨rfl, rfl, rfl⟩

theorem Consistent.removeMemory_indexes (consistent : snap.Consistent)
    (indexed : snap.byId.lookup id = some ix) :
    ∃ prior ∈ snap.memories, prior.id = id ∧ snap.petgraph.nodes.lookup ix = some prior ∧
      SameIndexes (snap.removeMemory id) (snap.removeMemoryIndexes prior) := by
  obtain ⟨prior, found, same⟩ := consistent.node_of_id id ix indexed
  refine ⟨prior, ⟨ix, found⟩, same, found, ?_⟩
  have there : snap.petgraph.nodeWeight ix = some prior := found
  rw [GraphSnapshot.removeMemory, indexed]
  simp only [there]
  exact ⟨rfl, rfl, rfl⟩

/-- The relationships by identity are as many as the edges. -/
theorem Consistent.total_relationships (consistent : snap.Consistent) (count : ℕ) :
    Table.total (fun _ => count) snap.byRelId =
      Table.total (fun _ => count) snap.petgraph.edges.cells := by
  refine Table.total_const_eq (fun eid => ?_) (fun id id' eid found found' => ?_) count
  · constructor
    · intro present
      obtain ⟨edge, found⟩ := Option.isSome_iff_exists.mp (AList.lookup_isSome.mpr present)
      exact ⟨edge.weight.id, consistent.id_of_edge eid edge found⟩
    · rintro ⟨id, indexed⟩
      obtain ⟨edge, found, _⟩ := consistent.edge_of_id id eid indexed
      exact AList.lookup_isSome.mp (Option.isSome_of_eq_some found)
  · obtain ⟨edge, there, rfl⟩ := consistent.edge_of_id id eid found
    obtain ⟨edge', there', rfl⟩ := consistent.edge_of_id id' eid found'
    rw [there, Option.some.injEq] at there'
    rw [there']

end GraphSnapshot

namespace CachedSnapshot

variable (toLowercase : String → String)

/-- What is counted for the search key of a memory, its separator included. -/
def keyBytes (m : Memory) : ℕ := (searchKey toLowercase m).length + 1

/-- The types and the tags under which a memory is found. -/
def typeKeys (m : Memory) : List UInt8 := [m.memoryType]

/-- The relationships run between the nodes of their ends. -/
def EndsPlaced (snap : GraphSnapshot) : Prop :=
  ∀ eid edge, snap.petgraph.edges.lookup eid = some edge →
    snap.byId.lookup edge.weight.source = some edge.source ∧
      snap.byId.lookup edge.weight.target = some edge.target

/-- **The representation invariant of a snapshot.** -/
structure Indexed (snap : CachedSnapshot) : Prop where
  by_id : ∀ id ix, snap.byId.lookup id = some ix ↔
    ∃ m, snap.petgraph.nodeWeight ix = some m ∧ m.id = id
  by_rel_id : ∀ id eid, snap.byRelId.lookup id = some eid ↔
    ∃ r, snap.petgraph.edgeWeight eid = some r ∧ r.id = id
  ends : EndsPlaced snap.toGraphSnapshot
  by_entity : GraphSnapshot.Lists snap.byEntity snap.memories
  by_type : GraphSnapshot.Marks snap.byType typeKeys snap.memories
  by_tag : GraphSnapshot.Marks snap.byTag Memory.tags snap.memories
  est_bytes : snap.estBytes = Table.total estimate snap.petgraph.nodes.cells +
    Table.total (fun _ => relationshipBytes) snap.petgraph.edges.cells
  search_live_bytes : snap.searchLiveBytes =
    Table.total (keyBytes toLowercase) snap.petgraph.nodes.cells

/-- The part of the invariant that every change keeps. -/
structure Counted (snap : CachedSnapshot) : Prop where
  consistent : snap.Consistent
  est_bytes : snap.estBytes = Table.total estimate snap.petgraph.nodes.cells +
    Table.total (fun _ => relationshipBytes) snap.petgraph.edges.cells
  search_live_bytes : snap.searchLiveBytes =
    Table.total (keyBytes toLowercase) snap.petgraph.nodes.cells

/-- The arena is packed anew when a memory replaces another one. -/
def Compacts (snap : CachedSnapshot) (prior m : Memory) : Prop :=
  Sparse (snap.searchArena.length + keyBytes toLowercase m)
    (snap.searchLiveBytes - keyBytes toLowercase prior + keyBytes toLowercase m)

/-- The changes that keep the indexes exact: a memory names each entity once, no other memory
with the short key of one that leaves is of its type or has a tag that it gives up, and a
relationship that replaces another one has its ends. -/
def Meets (snap : CachedSnapshot) : SnapshotDelta → Prop
  | .upsertMemory m => m.context.entities.Nodup ∧ ∀ prior ∈ snap.memories, prior.id = m.id →
      GraphSnapshot.NoneElse typeKeys snap.memories prior (some m) ∧
        (¬ snap.Compacts toLowercase prior m →
          GraphSnapshot.NoneElse Memory.tags snap.memories prior (some m))
  | .deleteMemory id => ∀ prior ∈ snap.memories, prior.id = id →
      GraphSnapshot.NoneElse typeKeys snap.memories prior none ∧
        GraphSnapshot.NoneElse Memory.tags snap.memories prior none
  | .upsertRelationship r => (∃ m ∈ snap.memories, m.id = r.source) →
      (∃ m ∈ snap.memories, m.id = r.target) →
        ∀ prior ∈ snap.relationships, prior.id = r.id →
          prior.source = r.source ∧ prior.target = r.target
  | _ => True

variable {toLowercase} {snap : CachedSnapshot}

/-- The changes keep the identities and the counters, and what is left of the invariant is the
ends of the relationships and the three other indexes. -/
theorem Counted.indexed_iff (counted : snap.Counted toLowercase) : snap.Indexed toLowercase ↔
    EndsPlaced snap.toGraphSnapshot ∧
      GraphSnapshot.Lists snap.byEntity snap.memories ∧
      GraphSnapshot.Marks snap.byType typeKeys snap.memories ∧
      GraphSnapshot.Marks snap.byTag Memory.tags snap.memories := by
  constructor
  · exact fun indexed => ⟨indexed.ends, indexed.by_entity, indexed.by_type, indexed.by_tag⟩
  · rintro ⟨ends, entities, types, tags⟩
    refine ⟨fun id ix => ?_, fun id eid => ?_, ends, entities, types, tags, counted.est_bytes,
      counted.search_live_bytes⟩
    · constructor
      · exact counted.consistent.node_of_id id ix
      · rintro ⟨m, found, rfl⟩
        exact counted.consistent.id_of_node ix m found
    · constructor
      · intro indexed
        obtain ⟨edge, found, same⟩ := counted.consistent.edge_of_id id eid indexed
        exact ⟨edge.weight, Option.map_eq_some_iff.mpr ⟨edge, found, rfl⟩, same⟩
      · rintro ⟨r, found, rfl⟩
        obtain ⟨edge, there, rfl⟩ := Option.map_eq_some_iff.mp found
        exact counted.consistent.id_of_edge eid edge there

/-! ## Packing the arena -/

/-- The tags of a snapshot, indexed anew. -/
def rebuiltTags (snap : CachedSnapshot) : Table String (Finset UInt32) :=
  snap.rows.foldl (fun byTag row => GraphSnapshot.setBits row.2.tags (lsb32 row.2.id) byTag) ∅

theorem mem_rows {m : Memory} : (ix, m) ∈ snap.rows ↔ snap.petgraph.nodes.lookup ix = some m := by
  simp only [rows, List.mem_filterMap, List.mem_range, Option.map_eq_some_iff, Prod.mk.injEq]
  constructor
  · rintro ⟨ix, _, m, found, rfl, rfl⟩
    exact found
  · intro found
    have below := snap.petgraph.nodes.cells_below ix
      (AList.lookup_isSome.mp (Option.isSome_of_eq_some found))
    exact ⟨ix, below, m, found, rfl, rfl⟩

theorem mem_foldl_setBits (rows : List (ℕ × Memory)) (byTag : Table String (Finset UInt32))
    (tag : String) (short : UInt32) :
    short ∈ (rows.foldl (fun byTag row =>
        GraphSnapshot.setBits row.2.tags (lsb32 row.2.id) byTag) byTag).members tag ↔
      short ∈ byTag.members tag ∨ ∃ row ∈ rows, tag ∈ row.2.tags ∧ lsb32 row.2.id = short := by
  induction rows generalizing byTag with
  | nil => simp
  | cons row rows ih =>
      rw [List.foldl_cons, ih, GraphSnapshot.mem_setBits, List.exists_mem_cons_iff, or_assoc,
        eq_comm (a := short)]

/-- The tags that are indexed anew are exact. -/
theorem marks_rebuiltTags : GraphSnapshot.Marks snap.rebuiltTags Memory.tags snap.memories := by
  intro tag short
  rw [rebuiltTags, mem_foldl_setBits, Table.members_empty]
  constructor
  · rintro (none | ⟨⟨ix, m⟩, listed, tagged, same⟩)
    · exact absurd none (Finset.notMem_empty _)
    · exact ⟨m, ⟨ix, mem_rows.mp listed⟩, tagged, same⟩
  · rintro ⟨m, ⟨ix, found⟩, tagged, same⟩
    exact .inr ⟨(ix, m), mem_rows.mpr found, tagged, same⟩

variable (toLowercase snap) in
theorem compact_rows : (snap.compactSearchIndexIfNeeded toLowercase).toGraphSnapshot =
    { snap.toGraphSnapshot with
      byTag := if Sparse snap.searchArena.length snap.searchLiveBytes then snap.rebuiltTags
        else snap.byTag } := by
  unfold compactSearchIndexIfNeeded
  split <;> rfl

theorem compact_estBytes :
    (snap.compactSearchIndexIfNeeded toLowercase).estBytes = snap.estBytes := by
  unfold compactSearchIndexIfNeeded
  split <;> rfl

theorem compact_searchLiveBytes :
    (snap.compactSearchIndexIfNeeded toLowercase).searchLiveBytes = snap.searchLiveBytes := by
  unfold compactSearchIndexIfNeeded
  split <;> rfl

/-! ## Inserting a memory -/

variable (toLowercase snap) in
/-- Insert a memory, without a look at the arena. -/
def putMemory (m : Memory) : CachedSnapshot :=
  match snap.byId.lookup m.id with
  | some ix =>
      let cleared := match snap.petgraph.nodeWeight ix with
        | some prior =>
            let cleared := snap.removeMemoryIndexes toLowercase prior ix
            { cleared with estBytes := cleared.estBytes - estimate prior }
        | none => snap
      let counted := { cleared with estBytes := cleared.estBytes + estimate m }
      let indexed := counted.indexMemory toLowercase m ix
      { indexed with petgraph := indexed.petgraph.setNodeWeight ix m }
  | none =>
      let ix := snap.petgraph.nodes.next
      let added := { snap with
        estBytes := snap.estBytes + estimate m
        petgraph := snap.petgraph.addNode m }
      let indexed := added.indexMemory toLowercase m ix
      { indexed with byId := indexed.byId.insert m.id ix }

theorem insertMemory_eq (m : Memory) : snap.insertMemory toLowercase m =
    (snap.putMemory toLowercase m).compactSearchIndexIfNeeded toLowercase := by
  unfold insertMemory putMemory
  cases snap.byId.lookup m.id <;> rfl

variable (toLowercase) in
theorem putMemory_rows (m : Memory) :
    (snap.putMemory toLowercase m).toGraphSnapshot = snap.toGraphSnapshot.insertMemory m := by
  unfold putMemory GraphSnapshot.insertMemory
  cases snap.byId.lookup m.id with
  | none => rfl
  | some ix =>
      dsimp only
      cases snap.petgraph.nodeWeight ix <;> rfl

theorem length_blankSlot (keys : SearchKeys) (slot : ℕ) :
    (keys.blankSlot slot).searchArena.length = keys.searchArena.length := by
  unfold SearchKeys.blankSlot
  dsimp only
  split
  · next fits =>
      simp only [blankSearchKeyRange, List.length_append, List.length_take, List.length_replicate,
        List.length_drop]
      omega
  · rfl

theorem length_blankNode (keys : SearchKeys) (ix : ℕ) :
    (keys.blankNode ix).searchArena.length = keys.searchArena.length := by
  unfold SearchKeys.blankNode
  generalize List.range keys.searchNodes.length = slots
  have kept : ∀ later : SearchKeys, later.searchArena.length = keys.searchArena.length →
      (slots.foldl (fun keys slot =>
        if keys.searchNodes[slot]? = some ix then keys.blankSlot slot else keys)
        later).searchArena.length = keys.searchArena.length := by
    induction slots with
    | nil => exact fun _ same => same
    | cons slot slots ih =>
        intro later same
        refine ih _ ?_
        dsimp only
        split
        · rw [length_blankSlot, same]
        · exact same
  exact kept keys rfl

/-- What the counters come to when a memory is inserted where there was another one, and where
there was none. -/
theorem putMemory_counters (consistent : snap.Consistent) (m : Memory) :
    (∃ prior ix, snap.petgraph.nodes.lookup ix = some prior ∧ prior.id = m.id ∧
      (snap.putMemory toLowercase m).petgraph = snap.petgraph.setNodeWeight ix m ∧
      (snap.putMemory toLowercase m).estBytes = snap.estBytes - estimate prior + estimate m ∧
      (snap.putMemory toLowercase m).searchLiveBytes =
        snap.searchLiveBytes - keyBytes toLowercase prior + keyBytes toLowercase m ∧
      (snap.putMemory toLowercase m).searchArena.length =
        snap.searchArena.length + keyBytes toLowercase m) ∨
    snap.byId.lookup m.id = none ∧
      (snap.putMemory toLowercase m).petgraph = snap.petgraph.addNode m ∧
      (snap.putMemory toLowercase m).estBytes = snap.estBytes + estimate m ∧
      (snap.putMemory toLowercase m).searchLiveBytes =
        snap.searchLiveBytes + keyBytes toLowercase m := by
  cases indexed : snap.byId.lookup m.id with
  | none =>
      refine .inr ⟨rfl, ?_⟩
      rw [putMemory, indexed]
      exact ⟨rfl, rfl, rfl⟩
  | some ix =>
      obtain ⟨prior, found, same⟩ := consistent.node_of_id m.id ix indexed
      refine .inl ⟨prior, ix, found, same, ?_⟩
      have there : snap.petgraph.nodeWeight ix = some prior := found
      rw [putMemory, indexed]
      simp only [there]
      refine ⟨rfl, rfl, rfl, ?_⟩
      have kept := length_blankNode snap.toSearchKeys ix
      simp only [indexMemory, removeMemoryIndexes, SearchKeys.push, List.length_append, kept,
        List.length_singleton, keyBytes, Nat.add_assoc]

theorem Counted.putMemory (counted : snap.Counted toLowercase) (m : Memory) :
    (snap.putMemory toLowercase m).Counted toLowercase := by
  have est := counted.est_bytes
  have live := counted.search_live_bytes
  have consistent : (snap.putMemory toLowercase m).Consistent :=
    putMemory_rows toLowercase m ▸ counted.consistent.insertMemory m
  rcases putMemory_counters counted.consistent m with
    ⟨prior, ix, found, _, graph, est', live', _⟩ | ⟨_, graph, est', live'⟩
  · have footprint := Slots.total_set estimate found m
    have keys := Slots.total_set (keyBytes toLowercase) found m
    have held := Table.le_total estimate found
    have held' := Table.le_total (keyBytes toLowercase) found
    refine ⟨consistent, ?_, ?_⟩
    · rw [est', graph]
      change _ = Table.total estimate (snap.petgraph.nodes.set ix m).cells + _
      change _ = _ + Table.total _ snap.petgraph.edges.cells
      omega
    · rw [live', graph]
      change _ = Table.total _ (snap.petgraph.nodes.set ix m).cells
      omega
  · have footprint := Slots.total_push estimate snap.petgraph.nodes m
    have keys := Slots.total_push (keyBytes toLowercase) snap.petgraph.nodes m
    refine ⟨consistent, ?_, ?_⟩
    · rw [est', graph]
      change _ = Table.total estimate (snap.petgraph.nodes.push m).cells +
        Table.total _ snap.petgraph.edges.cells
      omega
    · rw [live', graph]
      change _ = Table.total _ (snap.petgraph.nodes.push m).cells
      omega

theorem Counted.insertMemory (counted : snap.Counted toLowercase) (m : Memory) :
    (snap.insertMemory toLowercase m).Counted toLowercase := by
  have put := counted.putMemory m
  rw [insertMemory_eq]
  have rows := compact_rows toLowercase (snap.putMemory toLowercase m)
  refine ⟨put.consistent.congr ?_ ?_ ?_, ?_, ?_⟩
  · rw [rows]
  · rw [rows]
  · rw [rows]
  · rw [compact_estBytes, put.est_bytes, rows]
  · rw [compact_searchLiveBytes, put.search_live_bytes, rows]

/-! ## Removing a memory -/

variable (toLowercase snap) in
theorem removeMemory_rows (id : MemoryId) :
    (snap.removeMemory toLowercase id).toGraphSnapshot = snap.toGraphSnapshot.removeMemory id := by
  unfold removeMemory GraphSnapshot.removeMemory
  cases snap.byId.lookup id with
  | none => rfl
  | some ix =>
      dsimp only
      cases snap.petgraph.nodeWeight ix <;>
        simp only [Table.foldl_erase_dedup, List.foldl_map, removeMemoryIndexes]

theorem foldl_sub (ids : List RelationshipId) (count bytes : ℕ) :
    ids.foldl (fun bytes _ => bytes - count) bytes = bytes - count * ids.length := by
  induction ids generalizing bytes with
  | nil => simp
  | cons id ids ih =>
      rw [List.foldl_cons, ih, List.length_cons, Nat.mul_succ]
      omega

theorem Counted.removeMemory (counted : snap.Counted toLowercase) (id : MemoryId) :
    (snap.removeMemory toLowercase id).Counted toLowercase := by
  cases indexed : snap.byId.lookup id with
  | none =>
      have same : snap.removeMemory toLowercase id = snap := by
        rw [CachedSnapshot.removeMemory, indexed]
      rw [same]
      exact counted
  | some ix =>
      obtain ⟨m, found, _⟩ := counted.consistent.node_of_id id ix indexed
      have consistent : (snap.removeMemory toLowercase id).Consistent :=
        removeMemory_rows toLowercase snap id ▸ counted.consistent.removeMemory id
      have there : snap.petgraph.nodeWeight ix = some m := found
      let incidentIds := (((snap.petgraph.outgoing ix ++ snap.petgraph.incoming ix).filterMap
        snap.petgraph.edgeWeight).map (·.id)).dedup
      have shape : (snap.removeMemory toLowercase id).estBytes =
            snap.estBytes - estimate m - relationshipBytes * incidentIds.length ∧
          (snap.removeMemory toLowercase id).searchLiveBytes =
            snap.searchLiveBytes - keyBytes toLowercase m ∧
          (snap.removeMemory toLowercase id).petgraph = snap.petgraph.removeNode ix ∧
          (snap.removeMemory toLowercase id).byRelId =
            incidentIds.foldl (fun byRelId id => byRelId.erase id) snap.byRelId := by
        rw [CachedSnapshot.removeMemory, indexed]
        simp only [there, foldl_sub]
        exact ⟨rfl, rfl, rfl, rfl⟩
      obtain ⟨est, live, graph, rels⟩ := shape
      have present : ∀ rel ∈ incidentIds, rel ∈ snap.byRelId := by
        intro rel listed
        obtain ⟨r, incident, rfl⟩ := List.mem_map.mp (List.mem_dedup.mp listed)
        obtain ⟨eid, edge, inside, _, same⟩ := counted.consistent.mem_incident.mp ⟨r, incident, rfl⟩
        have placed := counted.consistent.id_of_edge eid edge inside
        rw [same] at placed
        exact AList.lookup_isSome.mp (Option.isSome_of_eq_some placed)
      have gone : _ + relationshipBytes * incidentIds.length = _ :=
        Table.total_foldl_erase relationshipBytes (List.nodup_dedup _) present
      rw [← rels, consistent.total_relationships, counted.consistent.total_relationships] at gone
      have nodes : (snap.removeMemory toLowercase id).petgraph.nodes =
          snap.petgraph.nodes.remove ix := by
        rw [graph, StableGraph.removeNode_occupied (Option.isSome_of_eq_some found),
          StableGraph.nodes_cleared]
      have footprint := Slots.total_remove estimate found
      have keys := Slots.total_remove (keyBytes toLowercase) found
      have before := counted.est_bytes
      have before' := counted.search_live_bytes
      refine ⟨consistent, ?_, ?_⟩
      · rw [est, nodes]
        omega
      · rw [live, nodes]
        omega

/-! ## Relationships -/

variable (snap) in
theorem insertRelationship_rows (r : Relationship) :
    (snap.insertRelationship r).toGraphSnapshot = snap.toGraphSnapshot.insertRelationship r := by
  unfold insertRelationship GraphSnapshot.insertRelationship
  cases snap.byId.lookup r.source with
  | none => rfl
  | some source =>
      cases snap.byId.lookup r.target with
      | none => rfl
      | some target =>
          dsimp only
          cases (snap.byRelId.lookup r.id).filter fun eid =>
            (snap.petgraph.edgeWeight eid).isSome <;> rfl

variable (snap) in
theorem removeRelationship_rows (id : RelationshipId) :
    (snap.removeRelationship id).toGraphSnapshot = snap.toGraphSnapshot.removeRelationship id := by
  unfold removeRelationship GraphSnapshot.removeRelationship
  cases snap.byRelId.lookup id <;> rfl

variable {later : CachedSnapshot} {K : Type} {before after : Table K (Finset UInt32)}
  {keysOf : Memory → List K}

/-- What is left of the invariant when only the edges and what is counted for them change. -/
theorem Counted.edges (counted : snap.Counted toLowercase) (consistent : later.Consistent)
    (nodes : later.petgraph.nodes = snap.petgraph.nodes)
    (live : later.searchLiveBytes = snap.searchLiveBytes)
    (est : later.estBytes + Table.total (fun _ => relationshipBytes) snap.petgraph.edges.cells =
      snap.estBytes + Table.total (fun _ => relationshipBytes) later.petgraph.edges.cells) :
    later.Counted toLowercase := by
  have before := counted.est_bytes
  refine ⟨consistent, ?_, ?_⟩
  · rw [nodes]
    omega
  · rw [live, nodes]
    exact counted.search_live_bytes

theorem Counted.insertRelationship (counted : snap.Counted toLowercase) (r : Relationship) :
    (snap.insertRelationship r).Counted toLowercase := by
  have consistent : (snap.insertRelationship r).Consistent :=
    insertRelationship_rows snap r ▸ counted.consistent.insertRelationship r
  cases left : snap.byId.lookup r.source with
  | none =>
      have same : snap.insertRelationship r = snap := by
        rw [CachedSnapshot.insertRelationship, left]
      exact same.symm ▸ counted
  | some source =>
      cases right : snap.byId.lookup r.target with
      | none =>
          have same : snap.insertRelationship r = snap := by
            rw [CachedSnapshot.insertRelationship, left, right]
          exact same.symm ▸ counted
      | some target =>
          have before := counted.est_bytes
          cases existing : (snap.byRelId.lookup r.id).filter fun eid =>
              (snap.petgraph.edgeWeight eid).isSome with
          | some eid =>
              obtain ⟨_, weighted⟩ := Option.filter_eq_some_iff.mp existing
              obtain ⟨weight, weighted⟩ := Option.isSome_iff_exists.mp weighted
              obtain ⟨edge, found, _⟩ := Option.map_eq_some_iff.mp weighted
              have shape : snap.insertRelationship r = { snap with
                  estBytes := snap.estBytes - relationshipBytes + relationshipBytes
                  petgraph := snap.petgraph.setEdgeWeight eid r } := by
                rw [CachedSnapshot.insertRelationship, left, right]
                simp only [existing]
              have count := Slots.total_set (fun _ => relationshipBytes) found
                (⟨edge.source, edge.target, r⟩ : Edge Relationship)
              have held := Table.le_total (fun _ => relationshipBytes) found
              have graph : snap.petgraph.setEdgeWeight eid r = { snap.petgraph with
                  edges := snap.petgraph.edges.set eid { edge with weight := r } } := by
                rw [StableGraph.setEdgeWeight, found]
              refine counted.edges consistent ?_ ?_ ?_
              · rw [shape, graph]
              · rw [shape]
              · rw [shape, graph]
                dsimp only
                omega
          | none =>
              have shape : snap.insertRelationship r = { snap with
                  estBytes := snap.estBytes + relationshipBytes
                  petgraph := snap.petgraph.addEdge source target r
                  byRelId := snap.byRelId.insert r.id snap.petgraph.edges.next } := by
                rw [CachedSnapshot.insertRelationship, left, right]
                simp only [existing]
              have count := Slots.total_push (fun _ => relationshipBytes) snap.petgraph.edges
                (⟨source, target, r⟩ : Edge Relationship)
              refine counted.edges consistent ?_ ?_ ?_
              · rw [shape]
                rfl
              · rw [shape]
              · rw [shape]
                dsimp only [StableGraph.addEdge]
                omega

theorem Counted.removeRelationship (counted : snap.Counted toLowercase) (id : RelationshipId) :
    (snap.removeRelationship id).Counted toLowercase := by
  have consistent : (snap.removeRelationship id).Consistent :=
    removeRelationship_rows snap id ▸ counted.consistent.removeRelationship id
  cases indexed : snap.byRelId.lookup id with
  | none =>
      have same : snap.removeRelationship id = snap := by
        rw [CachedSnapshot.removeRelationship, indexed]
      exact same.symm ▸ counted
  | some eid =>
      obtain ⟨edge, found, _⟩ := counted.consistent.edge_of_id id eid indexed
      have weighted : snap.petgraph.edgeWeight eid = some edge.weight :=
        Option.map_eq_some_iff.mpr ⟨edge, found, rfl⟩
      have shape : snap.removeRelationship id = { snap with
          byRelId := snap.byRelId.erase id
          petgraph := snap.petgraph.removeEdge eid
          estBytes := snap.estBytes - relationshipBytes } := by
        rw [CachedSnapshot.removeRelationship, indexed]
        simp only [weighted, Option.isSome_some, if_true]
      have count := Slots.total_remove (fun _ => relationshipBytes) found
      have before := counted.est_bytes
      refine counted.edges consistent ?_ ?_ ?_
      · rw [shape]
        rfl
      · rw [shape]
      · rw [shape]
        dsimp only [StableGraph.removeEdge]
        omega

/-- **Every change keeps the identities and the counters.** -/
theorem Counted.apply (counted : snap.Counted toLowercase) (delta : SnapshotDelta) :
    (snap.apply toLowercase delta).Counted toLowercase := by
  cases delta with
  | upsertMemory m => exact counted.insertMemory m
  | deleteMemory id => exact counted.removeMemory id
  | upsertRelationship r => exact counted.insertRelationship r
  | deleteRelationship id => exact counted.removeRelationship id
  | advanceBackendLsn lsn | advanceLocalLsn lsn =>
      exact ⟨counted.consistent.congr rfl rfl rfl, counted.est_bytes, counted.search_live_bytes⟩

theorem counted_empty : (empty : CachedSnapshot).Counted toLowercase :=
  ⟨GraphSnapshot.consistent_empty, rfl, rfl⟩

/-! ## The other indexes -/

theorem endsPlaced_insertMemory {snap : GraphSnapshot} (consistent : snap.Consistent)
    (ends : EndsPlaced snap) (m : Memory) : EndsPlaced (snap.insertMemory m) := by
  have kept : ∀ id ix, snap.byId.lookup id = some ix →
      (snap.insertMemory m).byId.lookup id = some ix := by
    intro id ix found
    rcases snap.insertMemory_cases m with ⟨_, _, _, byId, _⟩ | ⟨absent, _, byId, _⟩
    · rw [byId, found]
    · rw [byId, AList.lookup_insert_ne, found]
      rintro rfl
      rw [absent] at found
      cases found
  obtain ⟨_, _, _, _, _, edges, _⟩ := consistent.insertMemory_nodes m
  intro eid edge found
  rw [edges] at found
  exact (ends eid edge found).imp (kept _ _) (kept _ _)

theorem endsPlaced_removeMemory {snap : GraphSnapshot} (consistent : snap.Consistent)
    (ends : EndsPlaced snap) (id : MemoryId) : EndsPlaced (snap.removeMemory id) := by
  cases indexed : snap.byId.lookup id with
  | none =>
      rw [GraphSnapshot.removeMemory_absent indexed]
      exact ends
  | some ix =>
      obtain ⟨byId, _, edges, _⟩ := consistent.removeMemory_rows indexed
      have kept : ∀ id' ix', snap.byId.lookup id' = some ix' → ix' ≠ ix →
          (snap.removeMemory id).byId.lookup id' = some ix' := by
        intro id' ix' found apart
        rw [byId, AList.lookup_erase_ne, found]
        rintro rfl
        rw [indexed, Option.some.injEq] at found
        exact apart found.symm
      intro eid edge found
      obtain ⟨before, source, target⟩ := (edges eid edge).mp found
      obtain ⟨left, right⟩ := ends eid edge before
      exact ⟨kept _ _ left source, kept _ _ right target⟩

theorem endsPlaced_removeRelationship {snap : GraphSnapshot} (ends : EndsPlaced snap)
    (id : RelationshipId) : EndsPlaced (snap.removeRelationship id) := by
  cases indexed : snap.byRelId.lookup id with
  | none =>
      rw [GraphSnapshot.removeRelationship_absent indexed]
      exact ends
  | some eid =>
      rw [GraphSnapshot.removeRelationship_indexed indexed]
      intro other edge found
      dsimp only at found
      rw [StableGraph.edges_removeEdge] at found
      split at found
      · cases found
      · exact ends other edge found

/-- **A relationship that replaces another one keeps the ends in place just when it has the same
ends.** -/
theorem endsPlaced_insertRelationship_iff {snap : GraphSnapshot} (consistent : snap.Consistent)
    (ends : EndsPlaced snap) (r : Relationship) :
    EndsPlaced (snap.insertRelationship r) ↔
      ((∃ m ∈ snap.memories, m.id = r.source) → (∃ m ∈ snap.memories, m.id = r.target) →
        ∀ prior ∈ snap.relationships, prior.id = r.id →
          prior.source = r.source ∧ prior.target = r.target) := by
  rcases consistent.insertRelationship_cases r with
    ⟨same, absent⟩ | ⟨source, target, left, right, ⟨eid, edge, found, named, shape⟩ |
      ⟨fresh, shape⟩⟩
  · have missing : ∀ id, snap.byId.lookup id = none → ¬ ∃ m ∈ snap.memories, m.id = id := by
      rintro _ absent ⟨m, ⟨ix, there⟩, rfl⟩
      rw [consistent.id_of_node ix m there] at absent
      cases absent
    rw [same]
    refine iff_of_true ends fun from_ to_ => ?_
    rcases absent with absent | absent
    · exact absurd from_ (missing _ absent)
    · exact absurd to_ (missing _ absent)
  · have placed : ∀ id id' ix, snap.byId.lookup id = some ix →
        (snap.byId.lookup id' = some ix ↔ id = id') := by
      intro id id' ix indexed
      constructor
      · intro also
        obtain ⟨m, there, same⟩ := consistent.node_of_id id ix indexed
        obtain ⟨m', there', same'⟩ := consistent.node_of_id id' ix also
        rw [there, Option.some.injEq] at there'
        rw [← same, ← same', there']
      · rintro rfl
        exact indexed
    obtain ⟨oldSource, oldTarget⟩ := ends eid edge found
    have edges (other : ℕ) : (snap.insertRelationship r).petgraph.edges.lookup other =
        if other = eid then some { edge with weight := r }
        else snap.petgraph.edges.lookup other := by
      rw [shape]
      exact snap.petgraph.edges.lookup_set found _ other
    have byId : (snap.insertRelationship r).byId = snap.byId := by rw [shape]
    have replacing : EndsPlaced (snap.insertRelationship r) ↔
        edge.weight.source = r.source ∧ edge.weight.target = r.target := by
      rw [← placed _ r.source _ oldSource, ← placed _ r.target _ oldTarget]
      constructor
      · intro after
        have there := after eid { edge with weight := r } (by rw [edges, if_pos rfl])
        rw [byId] at there
        exact there
      · intro same other old there
        rw [edges] at there
        rw [byId]
        split at there
        · cases there
          exact same
        · exact ends other old there
    rw [replacing]
    constructor
    · rintro same _ _ prior ⟨eid', edge', there, rfl⟩ also
      have one := consistent.id_of_edge eid' edge' there
      rw [also, ← named, consistent.id_of_edge eid edge found, Option.some.injEq] at one
      rw [← one, found, Option.some.injEq] at there
      exact there ▸ same
    · intro all
      exact all (consistent.mem_memories_of_id left) (consistent.mem_memories_of_id right)
        edge.weight ⟨eid, edge, found, rfl⟩ named
  · refine iff_of_true ?_ ?_
    · intro other edge there
      rw [shape] at there ⊢
      dsimp only [StableGraph.addEdge] at there ⊢
      rw [Slots.lookup_push] at there
      split at there
      · cases there
        exact ⟨left, right⟩
      · exact ends other edge there
    · rintro _ _ prior ⟨eid, edge, there, rfl⟩ same
      have indexed := consistent.id_of_edge eid edge there
      rw [same, fresh] at indexed
      cases indexed

theorem lists_insertMemory_iff {snap : GraphSnapshot} (consistent : snap.Consistent)
    (exact : GraphSnapshot.Lists snap.byEntity snap.memories) (m : Memory) :
    GraphSnapshot.Lists (snap.insertMemory m).byEntity (snap.insertMemory m).memories ↔
      m.context.entities.Nodup := by
  have replaced := consistent.replaced_insertMemory m
  rcases consistent.insertMemory_indexes m with
    ⟨prior, present, same, indexes⟩ | ⟨absent, indexes⟩
  · -- the memory leaves the lists, and enters them again
    have left : GraphSnapshot.Replaced snap.memories
        { other | other ∈ snap.memories ∧ other.id ≠ prior.id } prior.id none :=
      ⟨fun other => by simp, fun _ impossible => by cases impossible⟩
    have removed := exact.removed
      (fun other also => consistent.memory_unique also present) left
    rw [indexes.byEntity]
    refine removed.added_iff ⟨fun other => ?_, replaced.named⟩
      fun other also => same ▸ also.2
    rw [replaced.later_iff, same]
    simp only [Set.mem_ofPred_eq, and_assoc, and_self]
  · rw [indexes.byEntity]
    exact exact.added_iff replaced absent

theorem marks_insertMemory_iff [DecidableEq K] {snap : GraphSnapshot}
    (consistent : snap.Consistent) (exact : GraphSnapshot.Marks before keysOf snap.memories)
    (m : Memory) (shape : (∃ prior ∈ snap.memories, prior.id = m.id ∧
        after = GraphSnapshot.setBits (keysOf m) (lsb32 m.id)
          (GraphSnapshot.clearBits (keysOf prior) (lsb32 prior.id) before)) ∨
      (∀ other ∈ snap.memories, other.id ≠ m.id) ∧
        after = GraphSnapshot.setBits (keysOf m) (lsb32 m.id) before) :
    GraphSnapshot.Marks after keysOf (snap.insertMemory m).memories ↔
      ∀ prior ∈ snap.memories, prior.id = m.id →
        GraphSnapshot.NoneElse keysOf snap.memories prior (some m) := by
  have replaced := consistent.replaced_insertMemory m
  rcases shape with ⟨prior, present, same, rfl⟩ | ⟨absent, rfl⟩
  · have only : ∀ other ∈ snap.memories, other.id = prior.id → other = prior :=
      fun other also => consistent.memory_unique also present
    rw [← same] at replaced ⊢
    refine (exact.replaced_iff replaced only).trans ⟨fun none other also named => ?_,
      fun all => all prior present rfl⟩
    exact only other also named ▸ none
  · refine iff_of_true (exact.added replaced absent) fun prior present same => ?_
    exact absurd same (absent prior present)

theorem lists_removeMemory {snap : GraphSnapshot} (consistent : snap.Consistent)
    (exact : GraphSnapshot.Lists snap.byEntity snap.memories) (id : MemoryId) :
    GraphSnapshot.Lists (snap.removeMemory id).byEntity (snap.removeMemory id).memories := by
  cases indexed : snap.byId.lookup id with
  | none =>
      rw [GraphSnapshot.removeMemory_absent indexed]
      exact exact
  | some ix =>
      obtain ⟨prior, present, rfl, _, indexes⟩ := consistent.removeMemory_indexes indexed
      rw [indexes.byEntity]
      exact exact.removed (fun other also => consistent.memory_unique also present)
        (consistent.replaced_removeMemory indexed)

theorem marks_removeMemory_iff [DecidableEq K] {snap : GraphSnapshot}
    (consistent : snap.Consistent) (exact : GraphSnapshot.Marks before keysOf snap.memories)
    {prior : Memory} (indexed : snap.byId.lookup prior.id = some ix)
    (present : prior ∈ snap.memories)
    (shape : after = GraphSnapshot.clearBits (keysOf prior) (lsb32 prior.id) before) :
    GraphSnapshot.Marks after keysOf (snap.removeMemory prior.id).memories ↔
      ∀ other ∈ snap.memories, other.id = prior.id →
        GraphSnapshot.NoneElse keysOf snap.memories other none := by
  have only : ∀ other ∈ snap.memories, other.id = prior.id → other = prior :=
    fun other also => consistent.memory_unique also present
  rw [shape]
  refine (exact.replaced_iff (consistent.replaced_removeMemory indexed) only).trans
    ⟨fun none other also named => ?_, fun all => all prior present rfl⟩
  exact only other also named ▸ none

/-! ## One change -/

variable (toLowercase snap) in
theorem insertMemory_rows (m : Memory) :
    (snap.insertMemory toLowercase m).toGraphSnapshot =
      { snap.toGraphSnapshot.insertMemory m with
        byTag := if Sparse (snap.putMemory toLowercase m).searchArena.length
            (snap.putMemory toLowercase m).searchLiveBytes then
            (snap.putMemory toLowercase m).rebuiltTags
          else (snap.toGraphSnapshot.insertMemory m).byTag } := by
  rw [insertMemory_eq, compact_rows, putMemory_rows]

section Indexed

variable (indexed : snap.Indexed toLowercase)
include indexed

theorem tags_insertMemory_iff (counted : snap.Counted toLowercase) (m : Memory) :
    GraphSnapshot.Marks (snap.insertMemory toLowercase m).byTag Memory.tags
        (snap.toGraphSnapshot.insertMemory m).memories ↔
      ∀ prior ∈ snap.memories, prior.id = m.id → ¬ snap.Compacts toLowercase prior m →
        GraphSnapshot.NoneElse Memory.tags snap.memories prior (some m) := by
  have consistent := counted.consistent
  have kept := marks_insertMemory_iff consistent indexed.by_tag m
    ((consistent.insertMemory_indexes m).imp
      (fun ⟨prior, present, same, indexes⟩ => ⟨prior, present, same, indexes.byTag⟩)
      (fun ⟨absent, indexes⟩ => ⟨absent, indexes.byTag⟩))
  have rebuilt : GraphSnapshot.Marks (snap.putMemory toLowercase m).rebuiltTags Memory.tags
      (snap.toGraphSnapshot.insertMemory m).memories :=
    putMemory_rows toLowercase m ▸ marks_rebuiltTags
  rw [insertMemory_rows]
  dsimp only
  rcases putMemory_counters counted.consistent m with
    ⟨prior, ix, found, same, _, _, live, length⟩ | ⟨absent, _⟩
  · have compacts : ∀ other ∈ snap.memories, other.id = m.id →
        (snap.Compacts toLowercase other m ↔
          Sparse (snap.putMemory toLowercase m).searchArena.length
            (snap.putMemory toLowercase m).searchLiveBytes) := by
      intro other also named
      obtain rfl := consistent.memory_unique also ⟨ix, found⟩ (named.trans same.symm)
      rw [length, live, Compacts]
    split
    · next sparse =>
        exact iff_of_true rebuilt fun other also named loose =>
          absurd ((compacts other also named).mpr sparse) loose
    · next loose =>
        rw [kept]
        refine forall₃_congr fun other also named => ?_
        exact (imp_iff_right (mt (compacts other also named).mp loose)).symm
  · have vacuous : ∀ prior ∈ snap.memories, prior.id ≠ m.id := by
      rintro prior ⟨ix, found⟩ same
      have present := consistent.id_of_node ix prior found
      rw [same, absent] at present
      cases present
    refine iff_of_true ?_ fun prior present same => absurd same (vacuous prior present)
    split
    · exact rebuilt
    · exact kept.mpr fun prior present same => absurd same (vacuous prior present)

theorem indexed_insertMemory_iff (counted : snap.Counted toLowercase) (m : Memory) :
    (snap.insertMemory toLowercase m).Indexed toLowercase ↔
      snap.Meets toLowercase (.upsertMemory m) := by
  have consistent := counted.consistent
  have ends := endsPlaced_insertMemory consistent indexed.ends m
  have lists := lists_insertMemory_iff consistent indexed.by_entity m
  have types := marks_insertMemory_iff consistent indexed.by_type m
    ((consistent.insertMemory_indexes m).imp
      (fun ⟨prior, present, same, indexes⟩ => ⟨prior, present, same, indexes.byType⟩)
      (fun ⟨absent, indexes⟩ => ⟨absent, indexes.byType⟩))
  have tags := tags_insertMemory_iff indexed counted m
  have rows := insertMemory_rows toLowercase snap m
  rw [(counted.insertMemory m).indexed_iff]
  have memories : (snap.insertMemory toLowercase m).memories =
      (snap.toGraphSnapshot.insertMemory m).memories := by
    rw [rows]
    rfl
  rw [memories, tags, rows]
  dsimp only
  rw [lists]
  change EndsPlaced (snap.toGraphSnapshot.insertMemory m) ∧ _ ∧ _ ∧ _ ↔ _
  rw [types, and_iff_right ends, Meets]
  simp only [← forall_and]

theorem indexed_removeMemory_iff (counted : snap.Counted toLowercase) (id : MemoryId) :
    (snap.removeMemory toLowercase id).Indexed toLowercase ↔
      snap.Meets toLowercase (.deleteMemory id) := by
  have consistent := counted.consistent
  rw [(counted.removeMemory id).indexed_iff, removeMemory_rows,
    and_iff_right (endsPlaced_removeMemory consistent indexed.ends id),
    and_iff_right (lists_removeMemory consistent indexed.by_entity id), Meets]
  cases placed : snap.byId.lookup id with
  | none =>
      rw [GraphSnapshot.removeMemory_absent placed]
      refine iff_of_true ⟨indexed.by_type, indexed.by_tag⟩ ?_
      rintro prior ⟨ix, found⟩ rfl
      rw [consistent.id_of_node ix prior found] at placed
      cases placed
  | some ix =>
      obtain ⟨prior, present, rfl, _, indexes⟩ := consistent.removeMemory_indexes placed
      rw [marks_removeMemory_iff consistent indexed.by_type placed present indexes.byType,
        marks_removeMemory_iff consistent indexed.by_tag placed present indexes.byTag]
      simp only [← forall_and]

/-- A change of the edges alone leaves the ends to be placed. -/
theorem Counted.indexed_iff_ends (counted : later.Counted toLowercase)
    (nodes : later.petgraph.nodes = snap.petgraph.nodes)
    (same : GraphSnapshot.SameIndexes later.toGraphSnapshot snap.toGraphSnapshot) :
    later.Indexed toLowercase ↔ EndsPlaced later.toGraphSnapshot := by
  have memories : later.memories = snap.memories := by
    rw [GraphSnapshot.memories, GraphSnapshot.memories, nodes]
  rw [counted.indexed_iff, memories, same.byEntity, same.byType, same.byTag]
  exact and_iff_left ⟨indexed.by_entity, indexed.by_type, indexed.by_tag⟩

theorem indexed_insertRelationship_iff (counted : snap.Counted toLowercase) (r : Relationship) :
    (snap.insertRelationship r).Indexed toLowercase ↔
      snap.Meets toLowercase (.upsertRelationship r) := by
  have rows := insertRelationship_rows snap r
  have kept : (snap.toGraphSnapshot.insertRelationship r).petgraph.nodes = snap.petgraph.nodes ∧
      GraphSnapshot.SameIndexes (snap.toGraphSnapshot.insertRelationship r)
        snap.toGraphSnapshot := by
    rcases counted.consistent.insertRelationship_cases r with
      ⟨same, _⟩ | ⟨_, _, _, _, ⟨_, _, _, _, shape⟩ | ⟨_, shape⟩⟩
    · rw [same]
      exact ⟨rfl, rfl, rfl, rfl⟩
    · rw [shape]
      exact ⟨rfl, rfl, rfl, rfl⟩
    · rw [shape]
      exact ⟨rfl, rfl, rfl, rfl⟩
  rw [← rows] at kept
  rw [(counted.insertRelationship r).indexed_iff_ends indexed kept.1 kept.2, rows]
  exact endsPlaced_insertRelationship_iff counted.consistent indexed.ends r

theorem indexed_removeRelationship (counted : snap.Counted toLowercase) (id : RelationshipId) :
    (snap.removeRelationship id).Indexed toLowercase := by
  have rows := removeRelationship_rows snap id
  have kept : (snap.toGraphSnapshot.removeRelationship id).petgraph.nodes = snap.petgraph.nodes ∧
      GraphSnapshot.SameIndexes (snap.toGraphSnapshot.removeRelationship id)
        snap.toGraphSnapshot := by
    unfold GraphSnapshot.removeRelationship
    cases snap.byRelId.lookup id <;> exact ⟨rfl, rfl, rfl, rfl⟩
  rw [← rows] at kept
  rw [(counted.removeRelationship id).indexed_iff_ends indexed kept.1 kept.2, rows]
  exact endsPlaced_removeRelationship indexed.ends id

/-- **An exact snapshot stays so under the changes of `Meets`, and under no others.** -/
theorem indexed_apply_iff (counted : snap.Counted toLowercase) (delta : SnapshotDelta) :
    (snap.apply toLowercase delta).Indexed toLowercase ↔ snap.Meets toLowercase delta := by
  cases delta with
  | upsertMemory m => exact indexed_insertMemory_iff indexed counted m
  | deleteMemory id => exact indexed_removeMemory_iff indexed counted id
  | upsertRelationship r => exact indexed_insertRelationship_iff indexed counted r
  | deleteRelationship id =>
      exact iff_of_true (indexed_removeRelationship indexed counted id) trivial
  | advanceBackendLsn lsn | advanceLocalLsn lsn =>
      refine iff_of_true ?_ trivial
      exact ⟨indexed.by_id, indexed.by_rel_id, indexed.ends, indexed.by_entity, indexed.by_type,
        indexed.by_tag, indexed.est_bytes, indexed.search_live_bytes⟩

end Indexed

/-! ## Runs -/

theorem marks_empty [DecidableEq K] (keysOf : Memory → List K) :
    GraphSnapshot.Marks ∅ keysOf GraphSnapshot.empty.memories := by
  intro key short
  rw [Table.members_empty]
  refine iff_of_false (Finset.notMem_empty _) ?_
  rintro ⟨m, ⟨ix, found⟩, _⟩
  cases found

theorem indexed_empty : (empty : CachedSnapshot).Indexed toLowercase := by
  refine counted_empty.indexed_iff.mpr ⟨?_, ⟨?_, ?_⟩, marks_empty _, marks_empty _⟩
  · intro eid edge found
    cases found
  · intro entity id
    refine iff_of_false ?_ ?_
    · exact (Table.history_empty entity).symm ▸ List.not_mem_nil
    · rintro ⟨m, ⟨ix, found⟩, _⟩
      cases found
  · intro entity
    exact (Table.history_empty entity).symm ▸ List.nodup_nil

variable (toLowercase) in
/-- The changes of a snapshot, and the conditions of `Meets` on them. -/
def changes : Machine CachedSnapshot SnapshotDelta := ⟨Meets toLowercase, apply toLowercase⟩

/-- **A run of changes keeps the representation invariant in every state just when each of its
changes meets the conditions in the state it finds.** -/
theorem indexed_along_iff (toLowercase : String → String) (deltas : List SnapshotDelta) :
    (changes toLowercase).Always (Indexed toLowercase) empty deltas ↔
      (changes toLowercase).Allows empty deltas :=
  Machine.always_iff_allows (fun _ delta counted => counted.apply delta)
    (fun _ delta counted indexed => indexed_apply_iff indexed counted delta)
    counted_empty indexed_empty

/-- A note that mentions one entity twice. -/
def twiceMentioning : Memory :=
  { Memory.blank ⟨.fill 16 1⟩ with
    context := ⟨0, none, none, none, none, none, [⟨.fill 16 7⟩, ⟨.fill 16 7⟩]⟩ }

/-- Identities that agree on their last four bytes. -/
def shortTwin (first : UInt8) : MemoryId := ⟨⟨first :: List.replicate 15 0, rfl⟩⟩

/-- A relationship of one identity that leaves the first note. -/
def movingEdge (other : UInt8) : Relationship :=
  { Relationship.blank ⟨.fill 16 9⟩ ⟨.fill 16 1⟩ ⟨.fill 16 other⟩ with visibility := .org }

/-- Three notes, and a relationship from the first to the second that is written again, to the
third. -/
def movedEdge : List SnapshotDelta :=
  [.upsertMemory (.blank ⟨.fill 16 1⟩), .upsertMemory (.blank ⟨.fill 16 2⟩),
    .upsertMemory (.blank ⟨.fill 16 3⟩), .upsertRelationship (movingEdge 2),
    .upsertRelationship (movingEdge 3)]

/-- A note is listed twice under the entity it mentions twice; of two notes with one short key the
one that stays is lost from its type; and a relationship that is written again with another end
stays where it was. -/
theorem not_indexed_along :
    ¬ (applyAll id empty [.upsertMemory twiceMentioning]).Indexed id ∧
      ¬ (applyAll id empty [.upsertMemory (.blank (shortTwin 1)),
        .upsertMemory (.blank (shortTwin 2)), .deleteMemory (shortTwin 1)]).Indexed id ∧
      ¬ (applyAll id empty movedEdge).Indexed id := by
  refine ⟨fun indexed => ?_, fun indexed => ?_, fun indexed => ?_⟩
  · exact absurd (indexed.by_entity.once ⟨.fill 16 7⟩) (by decide +kernel)
  · have stays : (applyAll id empty [.upsertMemory (.blank (shortTwin 1)),
        .upsertMemory (.blank (shortTwin 2)),
        .deleteMemory (shortTwin 1)]).petgraph.nodes.lookup 1 = some (.blank (shortTwin 2)) := by
      decide +kernel
    have marked := (indexed.by_type 0 0).mpr
      ⟨.blank (shortTwin 2), ⟨1, stays⟩, by decide, by decide +kernel⟩
    exact absurd marked (by decide +kernel)
  · have there : ((applyAll id empty movedEdge).petgraph.edges.lookup 0).map
        (fun edge => (edge.weight.target, edge.target)) = some (⟨.fill 16 3⟩, 1) := by
      decide +kernel
    obtain ⟨edge, found, same⟩ := Option.map_eq_some_iff.mp there
    obtain ⟨target, end_⟩ := Prod.mk.inj same
    have placed := (indexed.ends 0 edge found).2
    rw [target, end_] at placed
    exact absurd placed (by decide +kernel)

end CachedSnapshot

end Exocortex
