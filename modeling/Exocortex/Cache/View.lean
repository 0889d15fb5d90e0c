import Exocortex.Cache.Snapshot
import Exocortex.Library.Mirror

/-!
# The graph a snapshot holds

A snapshot finds its rows through two indexes, by the identity of a memory and by that of a
relationship. `Consistent` says that the indexes and the stable graph agree: every row is found
under its identity, and what is found there has that identity.

`GraphSnapshot.graph` reads a consistent snapshot as a graph by identities. On it the four
changes of a snapshot are the four changes of such a graph, and each of them keeps the snapshot
consistent (`graph_insertMemory`, `graph_removeMemory`, `graph_insertRelationship`,
`graph_removeRelationship`).
-/

namespace Exocortex

open Library

namespace GraphSnapshot

/-- The memories of a snapshot. -/
def memories (snap : GraphSnapshot) : Set Memory :=
  { m | ∃ ix, snap.petgraph.nodes.lookup ix = some m }

/-- The relationships of a snapshot. -/
def relationships (snap : GraphSnapshot) : Set Relationship :=
  { r | ∃ eid edge, snap.petgraph.edges.lookup eid = some edge ∧ edge.weight = r }

/-- The identity of the memory at an index. -/
def idAt (snap : GraphSnapshot) (ix : ℕ) : Option MemoryId :=
  (snap.petgraph.nodes.lookup ix).map (·.id)

/-- An edge of the stable graph, with its ends by identity. -/
def linkAt (snap : GraphSnapshot) (edge : Edge Relationship) :
    Option (Link MemoryId Relationship) :=
  (snap.idAt edge.source).bind fun source =>
    (snap.idAt edge.target).map fun target => ⟨edge.weight, source, target⟩

/-- The rows by identity. -/
def graph (snap : GraphSnapshot) : IdGraph MemoryId RelationshipId Memory Relationship where
  node id := (snap.byId.lookup id).bind snap.petgraph.nodes.lookup
  edge id := (snap.byRelId.lookup id).bind fun eid =>
    (snap.petgraph.edges.lookup eid).bind snap.linkAt

theorem graph_node (snap : GraphSnapshot) (id : MemoryId) :
    snap.graph.node id = (snap.byId.lookup id).bind snap.petgraph.nodes.lookup := rfl

theorem graph_edge (snap : GraphSnapshot) (id : RelationshipId) :
    snap.graph.edge id = (snap.byRelId.lookup id).bind fun eid =>
      (snap.petgraph.edges.lookup eid).bind snap.linkAt := rfl

/-- The indexes and the stable graph agree. -/
structure Consistent (snap : GraphSnapshot) : Prop where
  node_of_id : ∀ id ix, snap.byId.lookup id = some ix →
    ∃ m, snap.petgraph.nodes.lookup ix = some m ∧ m.id = id
  id_of_node : ∀ ix m, snap.petgraph.nodes.lookup ix = some m → snap.byId.lookup m.id = some ix
  edge_of_id : ∀ id eid, snap.byRelId.lookup id = some eid →
    ∃ edge, snap.petgraph.edges.lookup eid = some edge ∧ edge.weight.id = id
  id_of_edge : ∀ eid edge, snap.petgraph.edges.lookup eid = some edge →
    snap.byRelId.lookup edge.weight.id = some eid
  ends : ∀ eid edge, snap.petgraph.edges.lookup eid = some edge →
    snap.idAt edge.source ≠ none ∧ snap.idAt edge.target ≠ none
  listed : snap.petgraph.Listed

theorem consistent_empty : empty.Consistent where
  node_of_id _ _ found := by cases found
  id_of_node _ _ found := by cases found
  edge_of_id _ _ found := by cases found
  id_of_edge _ _ found := by cases found
  ends _ _ found := by cases found
  listed _ := by
    constructor
    · exact fun member => absurd member List.not_mem_nil
    · exact fun found => by cases found

variable {snap : GraphSnapshot}

variable {id : MemoryId} {ix : ℕ} {link : Link MemoryId Relationship} {edge : Edge Relationship}

theorem idAt_eq_some :
    snap.idAt ix = some id ↔ ∃ m, snap.petgraph.nodes.lookup ix = some m ∧ m.id = id :=
  Option.map_eq_some_iff

theorem linkAt_eq_some :
    snap.linkAt edge = some link ↔ edge.weight = link.weight ∧
      snap.idAt edge.source = some link.source ∧ snap.idAt edge.target = some link.target := by
  cases link with
  | mk weight source target =>
      simp only [linkAt, Option.bind_eq_some_iff, Option.map_eq_some_iff, Link.mk.injEq]
      constructor
      · rintro ⟨from_, left, to_, right, rfl, rfl, rfl⟩
        exact ⟨rfl, left, right⟩
      · rintro ⟨rfl, left, right⟩
        exact ⟨source, left, target, right, rfl, rfl, rfl⟩

/-- A snapshot and its successor agree on an edge when they agree on its ends. -/
theorem linkAt_congr {later : GraphSnapshot}
    (source : later.idAt edge.source = snap.idAt edge.source)
    (target : later.idAt edge.target = snap.idAt edge.target) :
    later.linkAt edge = snap.linkAt edge := by
  rw [linkAt, linkAt, source, target]

namespace Consistent

theorem node_eq_some (consistent : snap.Consistent) {m : Memory} :
    snap.graph.node id = some m ↔ m.id = id ∧ ∃ ix, snap.petgraph.nodes.lookup ix = some m := by
  rw [graph_node, Option.bind_eq_some_iff]
  constructor
  · rintro ⟨ix, indexed, found⟩
    obtain ⟨other, there, named⟩ := consistent.node_of_id id ix indexed
    rw [found] at there
    cases there
    exact ⟨named, ix, found⟩
  · rintro ⟨rfl, ix, found⟩
    exact ⟨ix, consistent.id_of_node ix m found, found⟩

theorem edge_eq_some (consistent : snap.Consistent) {id : RelationshipId} :
    snap.graph.edge id = some link ↔ ∃ eid edge, snap.petgraph.edges.lookup eid = some edge ∧
      edge.weight.id = id ∧ snap.linkAt edge = some link := by
  rw [graph_edge, Option.bind_eq_some_iff]
  constructor
  · rintro ⟨eid, indexed, read⟩
    obtain ⟨edge, found, named⟩ := consistent.edge_of_id id eid indexed
    rw [found] at read
    exact ⟨eid, edge, found, named, read⟩
  · rintro ⟨eid, edge, found, rfl, read⟩
    refine ⟨eid, consistent.id_of_edge eid edge found, ?_⟩
    rw [found]
    exact read

/-- Every edge of the stable graph is an edge of the graph. -/
theorem exists_link (consistent : snap.Consistent) {eid : ℕ}
    (found : snap.petgraph.edges.lookup eid = some edge) :
    ∃ link, snap.linkAt edge = some link ∧ link.weight = edge.weight := by
  obtain ⟨source, target⟩ := consistent.ends eid edge found
  obtain ⟨left, source⟩ := Option.ne_none_iff_exists'.mp source
  obtain ⟨right, target⟩ := Option.ne_none_iff_exists'.mp target
  exact ⟨⟨edge.weight, left, right⟩, linkAt_eq_some.mpr ⟨rfl, source, target⟩, rfl⟩

theorem memories_eq (consistent : snap.Consistent) :
    snap.memories = { m | ∃ id, snap.graph.node id = some m } := by
  ext m
  simp only [memories, Set.mem_ofPred_eq, consistent.node_eq_some]
  constructor
  · exact fun present => ⟨m.id, rfl, present⟩
  · rintro ⟨_, _, present⟩
    exact present

theorem relationships_eq (consistent : snap.Consistent) :
    snap.relationships = { r | ∃ id link, snap.graph.edge id = some link ∧ link.weight = r } := by
  ext r
  simp only [relationships, Set.mem_ofPred_eq, consistent.edge_eq_some]
  constructor
  · rintro ⟨eid, edge, found, rfl⟩
    obtain ⟨link, read, same⟩ := consistent.exists_link found
    exact ⟨edge.weight.id, link, ⟨eid, edge, found, rfl, read⟩, same⟩
  · rintro ⟨_, link, ⟨eid, edge, found, _, read⟩, rfl⟩
    exact ⟨eid, edge, found, (linkAt_eq_some.mp read).1⟩

end Consistent

/-! ## Memories -/

/-- What inserting a memory does to the rows and the indexes by identity. -/
theorem insertMemory_cases (snap : GraphSnapshot) (m : Memory) :
    (∃ ix, snap.byId.lookup m.id = some ix ∧
      (snap.insertMemory m).petgraph = snap.petgraph.setNodeWeight ix m ∧
      (snap.insertMemory m).byId = snap.byId ∧
      (snap.insertMemory m).byRelId = snap.byRelId) ∨
    (snap.byId.lookup m.id = none ∧
      (snap.insertMemory m).petgraph = snap.petgraph.addNode m ∧
      (snap.insertMemory m).byId = snap.byId.insert m.id snap.petgraph.nodes.next ∧
      (snap.insertMemory m).byRelId = snap.byRelId) := by
  cases indexed : snap.byId.lookup m.id with
  | some ix =>
      refine .inl ⟨ix, rfl, ?_⟩
      rw [insertMemory, indexed]
      dsimp only
      split <;> exact ⟨rfl, rfl, rfl⟩
  | none =>
      refine .inr ⟨rfl, ?_⟩
      rw [insertMemory, indexed]
      exact ⟨rfl, rfl, rfl⟩

/-- The nodes after a memory is inserted, and that the index finds it. -/
theorem Consistent.insertMemory_nodes (consistent : snap.Consistent) (m : Memory) :
    ∃ ix, (snap.insertMemory m).byId.lookup m.id = some ix ∧
      (∀ id, id ≠ m.id → (snap.insertMemory m).byId.lookup id = snap.byId.lookup id) ∧
      (∀ other, (snap.insertMemory m).petgraph.nodes.lookup other =
        if other = ix then some m else snap.petgraph.nodes.lookup other) ∧
      (∀ old, snap.petgraph.nodes.lookup ix = some old → old.id = m.id) ∧
      (snap.insertMemory m).petgraph.edges = snap.petgraph.edges ∧
      (snap.insertMemory m).petgraph.recent = snap.petgraph.recent ∧
      (snap.insertMemory m).byRelId = snap.byRelId := by
  rcases snap.insertMemory_cases m with
    ⟨ix, indexed, petgraph, byId, byRelId⟩ | ⟨absent, petgraph, byId, byRelId⟩
  · obtain ⟨old, found, named⟩ := consistent.node_of_id m.id ix indexed
    refine ⟨ix, byId ▸ indexed, fun _ _ => by rw [byId], ?_, ?_, ?_, ?_, byRelId⟩
    · rw [petgraph]
      exact snap.petgraph.nodes.lookup_set found m
    · intro other there
      rw [found] at there
      cases there
      exact named
    · rw [petgraph]
      rfl
    · rw [petgraph]
      rfl
  · refine ⟨snap.petgraph.nodes.next, ?_, ?_, ?_, ?_, ?_, ?_, byRelId⟩
    · rw [byId, AList.lookup_insert]
    · intro id other
      rw [byId, AList.lookup_insert_ne other]
    · rw [petgraph]
      exact snap.petgraph.nodes.lookup_push m
    · intro old found
      rw [Slots.lookup_next] at found
      cases found
    · rw [petgraph]
      rfl
    · rw [petgraph]
      rfl

/-- An index that is occupied keeps its identity. -/
theorem Consistent.idAt_insertMemory (consistent : snap.Consistent) (m : Memory)
    (occupied : snap.idAt ix ≠ none) : (snap.insertMemory m).idAt ix = snap.idAt ix := by
  obtain ⟨place, _, _, nodes, named, _⟩ := consistent.insertMemory_nodes m
  rw [idAt, idAt, nodes]
  split
  · next same =>
      subst same
      obtain ⟨id, there⟩ := Option.ne_none_iff_exists'.mp occupied
      obtain ⟨old, found, rfl⟩ := idAt_eq_some.mp there
      rw [found, Option.map_some, Option.map_some, named old found]
  · rfl

theorem Consistent.insertMemory (consistent : snap.Consistent) (m : Memory) :
    (snap.insertMemory m).Consistent := by
  obtain ⟨place, indexed, others, nodes, named, edges, recent, byRelId⟩ :=
    consistent.insertMemory_nodes m
  refine ⟨?_, ?_, ?_, ?_, ?_, ?_⟩
  · intro id ix found
    by_cases same : id = m.id
    · subst same
      rw [indexed] at found
      cases found
      exact ⟨m, by rw [nodes, if_pos rfl], rfl⟩
    · rw [others id same] at found
      obtain ⟨old, there, rfl⟩ := consistent.node_of_id id ix found
      refine ⟨old, ?_, rfl⟩
      rw [nodes, if_neg, there]
      rintro rfl
      exact same (named old there)
  · intro ix old found
    rw [nodes] at found
    split at found
    · next same =>
        cases found
        rw [same, indexed]
    · next other =>
        have before := consistent.id_of_node ix old found
        rw [others, before]
        intro same
        -- The identity would be indexed at two places.
        rcases snap.insertMemory_cases m with ⟨old', there, _, byId, _⟩ | ⟨absent, _⟩
        · rw [byId, ← same, before] at indexed
          exact other (Option.some.inj indexed)
        · rw [← same, before] at absent
          cases absent
  · rw [byRelId, edges]
    exact consistent.edge_of_id
  · rw [byRelId, edges]
    exact consistent.id_of_edge
  · intro eid edge found
    rw [edges] at found
    obtain ⟨source, target⟩ := consistent.ends eid edge found
    rw [consistent.idAt_insertMemory m source, consistent.idAt_insertMemory m target]
    exact ⟨source, target⟩
  · intro eid
    rw [edges, recent]
    exact consistent.listed eid

theorem graph_insertMemory (consistent : snap.Consistent) (m : Memory) :
    (snap.insertMemory m).graph = snap.graph.setNode m.id m := by
  obtain ⟨place, indexed, others, nodes, named, edges, recent, byRelId⟩ :=
    consistent.insertMemory_nodes m
  have node (id : MemoryId) :
      (snap.insertMemory m).graph.node id = (snap.graph.setNode m.id m).node id := by
    by_cases same : id = m.id
    · subst same
      rw [IdGraph.node_setNode_self, graph_node, indexed, Option.bind_some, nodes, if_pos rfl]
    · rw [IdGraph.node_setNode_of_ne same, graph_node, graph_node, others id same]
      cases found : snap.byId.lookup id with
      | none => rfl
      | some ix =>
          obtain ⟨old, there, rfl⟩ := consistent.node_of_id id ix found
          rw [Option.bind_some, Option.bind_some, nodes, if_neg]
          rintro rfl
          exact same (named old there)
  have edge (id : RelationshipId) :
      (snap.insertMemory m).graph.edge id = snap.graph.edge id := by
    rw [graph_edge, graph_edge, byRelId, edges]
    cases indexed : snap.byRelId.lookup id with
    | none => rfl
    | some eid =>
        obtain ⟨edge, found, _⟩ := consistent.edge_of_id id eid indexed
        obtain ⟨source, target⟩ := consistent.ends eid edge found
        rw [Option.bind_some, Option.bind_some, found, Option.bind_some, Option.bind_some]
        exact linkAt_congr (consistent.idAt_insertMemory m source)
          (consistent.idAt_insertMemory m target)
  exact IdGraph.ext (funext node) (funext edge)

/-- The identities of the relationships at a node. -/
theorem Consistent.mem_incident (consistent : snap.Consistent) {id : RelationshipId} :
    (∃ r ∈ (snap.petgraph.outgoing ix ++ snap.petgraph.incoming ix).filterMap
      snap.petgraph.edgeWeight, r.id = id) ↔
    ∃ eid edge, snap.petgraph.edges.lookup eid = some edge ∧
      (edge.source = ix ∨ edge.target = ix) ∧ edge.weight.id = id := by
  simp only [List.mem_filterMap, List.mem_append, consistent.listed.mem_outgoing,
    consistent.listed.mem_incoming, StableGraph.edgeWeight, Option.map_eq_some_iff]
  constructor
  · rintro ⟨r, ⟨eid, ⟨edge, found, at_⟩ | ⟨edge, found, at_⟩, other, there, rfl⟩, rfl⟩
    · rw [found] at there
      cases there
      exact ⟨eid, edge, found, .inl at_, rfl⟩
    · rw [found] at there
      cases there
      exact ⟨eid, edge, found, .inr at_, rfl⟩
  · rintro ⟨eid, edge, found, at_ | at_, rfl⟩
    · exact ⟨edge.weight, ⟨eid, .inl ⟨edge, found, at_⟩, edge, found, rfl⟩, rfl⟩
    · exact ⟨edge.weight, ⟨eid, .inr ⟨edge, found, at_⟩, edge, found, rfl⟩, rfl⟩

theorem lookup_foldl_erase (gone : List Relationship) (byRelId : Table RelationshipId ℕ)
    (id : RelationshipId) :
    (gone.foldl (fun byRelId r => byRelId.erase r.id) byRelId).lookup id =
      if ∃ r ∈ gone, r.id = id then none else byRelId.lookup id := by
  induction gone generalizing byRelId with
  | nil => simp
  | cons r gone ih =>
      rw [List.foldl_cons, ih, Table.lookup_erase_eq]
      simp only [List.exists_mem_cons_iff, eq_comm (a := id)]
      split <;> split <;> simp_all

/-- What removing a memory does to the rows and the indexes by identity. -/
theorem Consistent.removeMemory_rows (consistent : snap.Consistent)
    (indexed : snap.byId.lookup id = some ix) :
    (snap.removeMemory id).byId = snap.byId.erase id ∧
      (∀ other, (snap.removeMemory id).petgraph.nodes.lookup other =
        if other = ix then none else snap.petgraph.nodes.lookup other) ∧
      (∀ eid edge, (snap.removeMemory id).petgraph.edges.lookup eid = some edge ↔
        snap.petgraph.edges.lookup eid = some edge ∧ edge.source ≠ ix ∧ edge.target ≠ ix) ∧
      (∀ rel eid, (snap.removeMemory id).byRelId.lookup rel = some eid ↔
        snap.byRelId.lookup rel = some eid ∧
          ¬ ∃ other edge, snap.petgraph.edges.lookup other = some edge ∧
            (edge.source = ix ∨ edge.target = ix) ∧ edge.weight.id = rel) ∧
      (snap.removeMemory id).petgraph.Listed := by
  obtain ⟨m, found, _⟩ := consistent.node_of_id id ix indexed
  have shape : (snap.removeMemory id).byId = snap.byId.erase id ∧
      (snap.removeMemory id).petgraph = snap.petgraph.removeNode ix ∧
      (snap.removeMemory id).byRelId =
        ((snap.petgraph.outgoing ix ++ snap.petgraph.incoming ix).filterMap
          snap.petgraph.edgeWeight).foldl (fun byRelId r => byRelId.erase r.id) snap.byRelId := by
    rw [removeMemory, indexed]
    dsimp only
    split <;> exact ⟨rfl, rfl, rfl⟩
  obtain ⟨byId, petgraph, byRelId⟩ := shape
  rw [StableGraph.removeNode_occupied (Option.isSome_of_eq_some found)] at petgraph
  refine ⟨byId, ?_, ?_, ?_, ?_⟩
  · intro other
    rw [petgraph]
    dsimp only
    rw [Slots.lookup_remove, StableGraph.nodes_cleared]
  · intro eid edge
    rw [petgraph]
    exact consistent.listed.edges_cleared edge
  · intro rel eid
    rw [byRelId, lookup_foldl_erase, ← consistent.mem_incident]
    split
    · next gone => exact ⟨nofun, fun both => absurd gone both.2⟩
    · next kept => exact ⟨fun found => ⟨found, kept⟩, And.left⟩
  · rw [petgraph]
    exact consistent.listed.cleared

/-- An index other than the one vacated keeps its identity. -/
theorem Consistent.idAt_removeMemory (consistent : snap.Consistent)
    (indexed : snap.byId.lookup id = some ix) {other : ℕ} (apart : other ≠ ix) :
    (snap.removeMemory id).idAt other = snap.idAt other := by
  obtain ⟨_, nodes, _⟩ := consistent.removeMemory_rows indexed
  rw [idAt, nodes, if_neg apart, idAt]

theorem removeMemory_absent (absent : snap.byId.lookup id = none) :
    snap.removeMemory id = snap := by
  rw [removeMemory, absent]

section Consistent

variable (consistent : snap.Consistent)
include consistent

theorem Consistent.idAt_eq_iff {other : ℕ} (indexed : snap.byId.lookup id = some ix) :
    snap.idAt other = some id ↔ other = ix := by
  rw [idAt_eq_some]
  constructor
  · rintro ⟨m, found, rfl⟩
    have again := consistent.id_of_node other m found
    rw [indexed] at again
    exact (Option.some.inj again).symm
  · rintro rfl
    exact consistent.node_of_id id other indexed

theorem Consistent.removeMemory (id : MemoryId) : (snap.removeMemory id).Consistent := by
  cases indexed : snap.byId.lookup id with
  | none =>
      rw [removeMemory_absent indexed]
      exact consistent
  | some ix =>
      obtain ⟨byId, nodes, edges, byRelId, listed⟩ := consistent.removeMemory_rows indexed
      -- An edge that stays has an identity that no edge at the node has.
      have stays {eid : ℕ} {edge : Edge Relationship}
          (kept : (snap.removeMemory id).petgraph.edges.lookup eid = some edge) :
          (snap.removeMemory id).byRelId.lookup edge.weight.id = some eid := by
        obtain ⟨found, source, target⟩ := (edges eid edge).mp kept
        have before := consistent.id_of_edge eid edge found
        refine (byRelId _ _).mpr ⟨before, ?_⟩
        rintro ⟨other, gone, there, at_, same⟩
        have again := consistent.id_of_edge other gone there
        rw [same, before] at again
        cases again
        rw [found] at there
        cases there
        exact at_.elim source target
      refine ⟨?_, ?_, ?_, fun _ _ => stays, ?_, listed⟩
      · intro name place found
        rw [byId, Table.lookup_erase_eq] at found
        split at found
        · cases found
        · next other =>
            obtain ⟨m, there, rfl⟩ := consistent.node_of_id name place found
            refine ⟨m, ?_, rfl⟩
            rw [nodes, if_neg, there]
            rintro rfl
            exact other (Option.some.inj
              (((consistent.idAt_eq_iff indexed).mpr rfl).symm.trans
                (idAt_eq_some.mpr ⟨m, there, rfl⟩))).symm
      · intro place m found
        rw [nodes] at found
        split at found
        · cases found
        · next other =>
            have before := consistent.id_of_node place m found
            rw [byId, Table.lookup_erase_eq, if_neg, before]
            rintro rfl
            rw [indexed] at before
            exact other (Option.some.inj before).symm
      · intro rel eid found
        obtain ⟨before, apart⟩ := (byRelId rel eid).mp found
        obtain ⟨edge, there, rfl⟩ := consistent.edge_of_id rel eid before
        refine ⟨edge, (edges eid edge).mpr ⟨there, ?_, ?_⟩, rfl⟩
        · exact fun source => apart ⟨eid, edge, there, .inl source, rfl⟩
        · exact fun target => apart ⟨eid, edge, there, .inr target, rfl⟩
      · intro eid edge kept
        obtain ⟨found, source, target⟩ := (edges eid edge).mp kept
        rw [consistent.idAt_removeMemory indexed source,
          consistent.idAt_removeMemory indexed target]
        exact consistent.ends eid edge found

theorem graph_removeMemory (id : MemoryId) :
    (snap.removeMemory id).graph = snap.graph.dropNode id := by
  have later := consistent.removeMemory id
  cases indexed : snap.byId.lookup id with
  | none =>
      rw [removeMemory_absent indexed]
      have node (name : MemoryId) :
          snap.graph.node name = (snap.graph.dropNode id).node name := by
        by_cases same : name = id
        · rw [same, IdGraph.node_dropNode_self, graph_node, indexed]
          rfl
        · rw [IdGraph.node_dropNode_of_ne same]
      have edge (rel : RelationshipId) :
          snap.graph.edge rel = (snap.graph.dropNode id).edge rel := by
        apply Option.ext
        intro link
        rw [IdGraph.edge_dropNode_eq_some]
        refine ⟨fun found => ⟨found, ?_⟩, And.left⟩
        obtain ⟨eid, edge, there, _, read⟩ := consistent.edge_eq_some.mp found
        obtain ⟨_, source, target⟩ := linkAt_eq_some.mp read
        -- An end of an edge is indexed.
        have known {ix : ℕ} {name : MemoryId} (at_ : snap.idAt ix = some name) : name ≠ id := by
          obtain ⟨m, occupied, rfl⟩ := idAt_eq_some.mp at_
          rintro rfl
          rw [consistent.id_of_node ix m occupied] at indexed
          cases indexed
        exact fun joins => joins.elim (known source) (known target)
      exact IdGraph.ext (funext node) (funext edge)
  | some ix =>
      obtain ⟨byId, nodes, edges, byRelId, listed⟩ := consistent.removeMemory_rows indexed
      have node (name : MemoryId) :
          (snap.removeMemory id).graph.node name = (snap.graph.dropNode id).node name := by
        by_cases same : name = id
        · rw [same, IdGraph.node_dropNode_self, graph_node, byId, AList.lookup_erase]
          rfl
        · rw [IdGraph.node_dropNode_of_ne same]
          apply Option.ext
          intro m
          rw [later.node_eq_some, consistent.node_eq_some]
          apply and_congr_right
          rintro rfl
          apply exists_congr
          intro place
          rw [nodes]
          split
          · next here =>
              subst here
              simp only [reduceCtorEq, false_iff]
              intro found
              exact same (Option.some.inj ((idAt_eq_some.mpr ⟨m, found, rfl⟩).symm.trans
                ((consistent.idAt_eq_iff indexed).mpr rfl)))
          · rfl
      have edge (rel : RelationshipId) :
          (snap.removeMemory id).graph.edge rel = (snap.graph.dropNode id).edge rel := by
        apply Option.ext
        intro link
        rw [IdGraph.edge_dropNode_eq_some, later.edge_eq_some, consistent.edge_eq_some]
        constructor
        · rintro ⟨eid, edge, kept, named, read⟩
          obtain ⟨found, source, target⟩ := (edges eid edge).mp kept
          rw [linkAt_congr (consistent.idAt_removeMemory indexed source)
            (consistent.idAt_removeMemory indexed target)] at read
          refine ⟨⟨eid, edge, found, named, read⟩, ?_⟩
          obtain ⟨_, left, right⟩ := linkAt_eq_some.mp read
          rintro (joins | joins)
          · exact source ((consistent.idAt_eq_iff indexed).mp (joins ▸ left))
          · exact target ((consistent.idAt_eq_iff indexed).mp (joins ▸ right))
        · rintro ⟨⟨eid, edge, found, named, read⟩, apart⟩
          obtain ⟨_, left, right⟩ := linkAt_eq_some.mp read
          have source : edge.source ≠ ix := fun same => apart <| .inl <| Option.some.inj <|
            left.symm.trans ((consistent.idAt_eq_iff indexed).mpr same)
          have target : edge.target ≠ ix := fun same => apart <| .inr <| Option.some.inj <|
            right.symm.trans ((consistent.idAt_eq_iff indexed).mpr same)
          refine ⟨eid, edge, (edges eid edge).mpr ⟨found, source, target⟩, named, ?_⟩
          rw [linkAt_congr (consistent.idAt_removeMemory indexed source)
            (consistent.idAt_removeMemory indexed target)]
          exact read
      exact IdGraph.ext (funext node) (funext edge)

/-! ## Relationships -/

/-- What inserting a relationship does: nothing without its ends; the new row at the place of
the old one; or a new edge. -/
theorem Consistent.insertRelationship_cases (r : Relationship) :
    (snap.insertRelationship r = snap ∧
      (snap.byId.lookup r.source = none ∨ snap.byId.lookup r.target = none)) ∨
    (∃ source target, snap.byId.lookup r.source = some source ∧
      snap.byId.lookup r.target = some target ∧
      ((∃ eid edge, snap.petgraph.edges.lookup eid = some edge ∧ edge.weight.id = r.id ∧
        snap.insertRelationship r = { snap with petgraph := { snap.petgraph with
          edges := snap.petgraph.edges.set eid { edge with weight := r } } }) ∨
      (snap.byRelId.lookup r.id = none ∧
        snap.insertRelationship r = { snap with
          petgraph := snap.petgraph.addEdge source target r
          byRelId := snap.byRelId.insert r.id snap.petgraph.edges.next }))) := by
  unfold GraphSnapshot.insertRelationship
  cases left : snap.byId.lookup r.source with
  | none => exact .inl ⟨rfl, .inl rfl⟩
  | some source =>
      cases right : snap.byId.lookup r.target with
      | none => exact .inl ⟨rfl, .inr rfl⟩
      | some target =>
          refine .inr ⟨source, target, rfl, rfl, ?_⟩
          cases indexed : snap.byRelId.lookup r.id with
          | none => exact .inr ⟨rfl, rfl⟩
          | some eid =>
              obtain ⟨edge, found, named⟩ := consistent.edge_of_id r.id eid indexed
              refine .inl ⟨eid, edge, found, named, ?_⟩
              simp [Option.filter_some, StableGraph.edgeWeight, StableGraph.setEdgeWeight, found]

theorem Consistent.insertRelationship (r : Relationship) :
    (snap.insertRelationship r).Consistent := by
  rcases consistent.insertRelationship_cases r with
    ⟨same, _⟩ | ⟨source, target, left, right, ⟨eid, edge, found, named, shape⟩ | ⟨absent, shape⟩⟩
  · rw [same]
    exact consistent
  · have edges (other : ℕ) : (snap.insertRelationship r).petgraph.edges.lookup other =
        if other = eid then some { edge with weight := r }
        else snap.petgraph.edges.lookup other := by
      rw [shape]
      exact snap.petgraph.edges.lookup_set found _ other
    have indexed := consistent.id_of_edge eid edge found
    rw [named] at indexed
    refine ⟨?_, ?_, ?_, ?_, ?_, ?_⟩
    · rw [shape]
      exact consistent.node_of_id
    · rw [shape]
      exact consistent.id_of_node
    · intro rel other there
      rw [edges]
      have before : snap.byRelId.lookup rel = some other := by rw [shape] at there; exact there
      obtain ⟨old, inside, rfl⟩ := consistent.edge_of_id rel other before
      split
      · next same =>
          subst same
          rw [found] at inside
          cases inside
          exact ⟨_, rfl, named.symm⟩
      · exact ⟨old, inside, rfl⟩
    · intro other old there
      have byRelId : (snap.insertRelationship r).byRelId = snap.byRelId := by rw [shape]
      rw [edges] at there
      rw [byRelId]
      split at there
      · next same =>
          cases there
          rw [same]
          exact indexed
      · exact consistent.id_of_edge other old there
    · intro other old there
      have idAt : (snap.insertRelationship r).idAt = snap.idAt := by rw [shape]; rfl
      rw [edges] at there
      rw [idAt]
      split at there
      · cases there
        exact consistent.ends eid edge found
      · exact consistent.ends other old there
    · intro other
      rw [edges]
      have recent : (snap.insertRelationship r).petgraph.recent = snap.petgraph.recent := by
        rw [shape]
      rw [recent, consistent.listed]
      split
      · next same => simp [same, found]
      · rfl
  · have edges (other : ℕ) : (snap.insertRelationship r).petgraph.edges.lookup other =
        if other = snap.petgraph.edges.next then some ⟨source, target, r⟩
        else snap.petgraph.edges.lookup other := by
      rw [shape]
      exact snap.petgraph.edges.lookup_push _ other
    have byRelId (rel : RelationshipId) : (snap.insertRelationship r).byRelId.lookup rel =
        if rel = r.id then some snap.petgraph.edges.next else snap.byRelId.lookup rel := by
      rw [shape]
      exact Table.lookup_insert_eq _ _ _ _
    refine ⟨?_, ?_, ?_, ?_, ?_, ?_⟩
    · rw [shape]
      exact consistent.node_of_id
    · rw [shape]
      exact consistent.id_of_node
    · intro rel other there
      rw [byRelId] at there
      rw [edges]
      split at there
      · next same =>
          cases there
          exact ⟨_, if_pos rfl, same.symm⟩
      · obtain ⟨old, inside, rfl⟩ := consistent.edge_of_id rel other there
        refine ⟨old, ?_, rfl⟩
        rw [if_neg, inside]
        rintro rfl
        rw [Slots.lookup_next] at inside
        cases inside
    · intro other old there
      rw [edges] at there
      rw [byRelId]
      split at there
      · next same =>
          cases there
          rw [if_pos rfl, same]
      · have before := consistent.id_of_edge other old there
        rw [if_neg, before]
        intro same
        rw [same, absent] at before
        cases before
    · intro other old there
      have idAt : (snap.insertRelationship r).idAt = snap.idAt := by rw [shape]; rfl
      rw [edges] at there
      rw [idAt]
      split at there
      · cases there
        rw [(consistent.idAt_eq_iff left).mpr rfl, (consistent.idAt_eq_iff right).mpr rfl]
        simp
      · exact consistent.ends other old there
    · rw [shape]
      exact consistent.listed.addEdge source target r

/-- A memory is indexed when the graph has it. -/
theorem Consistent.node_eq_none : snap.graph.node id = none ↔ snap.byId.lookup id = none := by
  rw [graph_node, Option.bind_eq_none_iff]
  constructor
  · intro unread
    cases indexed : snap.byId.lookup id with
    | none => rfl
    | some ix =>
        obtain ⟨m, found, _⟩ := consistent.node_of_id id ix indexed
        rw [unread ix indexed] at found
        cases found
  · intro absent ix indexed
    rw [absent] at indexed
    cases indexed

theorem graph_insertRelationship (r : Relationship) :
    (snap.insertRelationship r).graph = snap.graph.setEdge r.id ⟨r, r.source, r.target⟩ := by
  rcases consistent.insertRelationship_cases r with
    ⟨same, absent⟩ |
      ⟨source, target, left, right, ⟨eid, edge, found, named, shape⟩ | ⟨absent, shape⟩⟩
  · rw [same, IdGraph.setEdge_absent]
    rw [consistent.node_eq_none, consistent.node_eq_none]
    exact absent
  · have present : snap.graph.node r.source ≠ none ∧ snap.graph.node r.target ≠ none := by
      rw [Ne, Ne, consistent.node_eq_none, consistent.node_eq_none, left, right]
      simp
    have idAt : (snap.insertRelationship r).idAt = snap.idAt := by rw [shape]; rfl
    have byRelId : (snap.insertRelationship r).byRelId = snap.byRelId := by rw [shape]
    have edges (other : ℕ) : (snap.insertRelationship r).petgraph.edges.lookup other =
        if other = eid then some { edge with weight := r }
        else snap.petgraph.edges.lookup other := by
      rw [shape]
      exact snap.petgraph.edges.lookup_set found _ other
    apply IdGraph.ext
    · rw [IdGraph.node_setEdge, shape]
      rfl
    · funext rel
      by_cases same : rel = r.id
      · have indexed := consistent.id_of_edge eid edge found
        rw [named] at indexed
        obtain ⟨link, read, _⟩ := consistent.exists_link found
        obtain ⟨_, source, target⟩ := linkAt_eq_some.mp read
        rw [same, IdGraph.edge_setEdge_self present.1 present.2, graph_edge, graph_edge, byRelId,
          indexed, Option.bind_some, Option.bind_some, edges, if_pos rfl, found, Option.bind_some,
          Option.bind_some, read, linkAt_eq_some, idAt]
        exact ⟨rfl, source, target⟩
      · rw [IdGraph.edge_setEdge_of_ne same, graph_edge, graph_edge, byRelId]
        cases indexed : snap.byRelId.lookup rel with
        | none => rfl
        | some other =>
            obtain ⟨old, there, rfl⟩ := consistent.edge_of_id rel other indexed
            have apart : other ≠ eid := by
              rintro rfl
              rw [found] at there
              cases there
              exact same named
            rw [Option.bind_some, Option.bind_some, edges, if_neg apart, there, Option.bind_some,
              Option.bind_some]
            exact linkAt_congr (congrFun idAt _) (congrFun idAt _)
  · have present : snap.graph.node r.source ≠ none ∧ snap.graph.node r.target ≠ none := by
      rw [Ne, Ne, consistent.node_eq_none, consistent.node_eq_none, left, right]
      simp
    have idAt : (snap.insertRelationship r).idAt = snap.idAt := by rw [shape]; rfl
    have edges (other : ℕ) : (snap.insertRelationship r).petgraph.edges.lookup other =
        if other = snap.petgraph.edges.next then some ⟨source, target, r⟩
        else snap.petgraph.edges.lookup other := by
      rw [shape]
      exact snap.petgraph.edges.lookup_push _ other
    have byRelId (rel : RelationshipId) : (snap.insertRelationship r).byRelId.lookup rel =
        if rel = r.id then some snap.petgraph.edges.next else snap.byRelId.lookup rel := by
      rw [shape]
      exact Table.lookup_insert_eq _ _ _ _
    apply IdGraph.ext
    · rw [IdGraph.node_setEdge, shape]
      rfl
    · funext rel
      by_cases same : rel = r.id
      · rw [same, IdGraph.edge_setEdge_self present.1 present.2, graph_edge, graph_edge, byRelId,
          if_pos rfl, absent, Option.bind_some, edges, if_pos rfl, Option.bind_some,
          linkAt_eq_some, idAt]
        exact ⟨rfl, (consistent.idAt_eq_iff left).mpr rfl, (consistent.idAt_eq_iff right).mpr rfl⟩
      · rw [IdGraph.edge_setEdge_of_ne same, graph_edge, graph_edge, byRelId, if_neg same]
        cases indexed : snap.byRelId.lookup rel with
        | none => rfl
        | some other =>
            obtain ⟨old, there, rfl⟩ := consistent.edge_of_id rel other indexed
            have apart : other ≠ snap.petgraph.edges.next := by
              rintro rfl
              rw [Slots.lookup_next] at there
              cases there
            rw [Option.bind_some, Option.bind_some, edges, if_neg apart, there, Option.bind_some,
              Option.bind_some]
            exact linkAt_congr (congrFun idAt _) (congrFun idAt _)

end Consistent

theorem removeRelationship_absent {id : RelationshipId} (absent : snap.byRelId.lookup id = none) :
    snap.removeRelationship id = snap := by
  rw [removeRelationship, absent]

theorem removeRelationship_indexed {id : RelationshipId} {eid : ℕ}
    (indexed : snap.byRelId.lookup id = some eid) :
    snap.removeRelationship id = { snap with
      byRelId := snap.byRelId.erase id
      petgraph := snap.petgraph.removeEdge eid } := by
  rw [removeRelationship, indexed]

theorem Consistent.removeRelationship (consistent : snap.Consistent) (id : RelationshipId) :
    (snap.removeRelationship id).Consistent := by
  cases indexed : snap.byRelId.lookup id with
  | none =>
      rw [removeRelationship_absent indexed]
      exact consistent
  | some eid =>
      obtain ⟨edge, found, rfl⟩ := consistent.edge_of_id id eid indexed
      rw [removeRelationship_indexed indexed]
      refine ⟨consistent.node_of_id, consistent.id_of_node, ?_, ?_, ?_,
        consistent.listed.removeEdge⟩
      · intro rel other there
        dsimp only at there ⊢
        rw [Table.lookup_erase_eq] at there
        split at there
        · cases there
        · next apart =>
            obtain ⟨old, inside, rfl⟩ := consistent.edge_of_id rel other there
            refine ⟨old, ?_, rfl⟩
            rw [StableGraph.edges_removeEdge, if_neg, inside]
            rintro rfl
            rw [found] at inside
            cases inside
            exact apart rfl
      · intro other old there
        dsimp only at there ⊢
        rw [StableGraph.edges_removeEdge] at there
        split at there
        · cases there
        · next apart =>
            have before := consistent.id_of_edge other old there
            rw [Table.lookup_erase_eq, if_neg, before]
            intro same
            rw [same, indexed] at before
            exact apart (Option.some.inj before).symm
      · intro other old there
        dsimp only at there
        rw [StableGraph.edges_removeEdge] at there
        split at there
        · cases there
        · exact consistent.ends other old there

theorem graph_removeRelationship (consistent : snap.Consistent) (id : RelationshipId) :
    (snap.removeRelationship id).graph = snap.graph.dropEdge id := by
  cases indexed : snap.byRelId.lookup id with
  | none =>
      rw [removeRelationship_absent indexed]
      refine IdGraph.ext rfl (funext fun rel => ?_)
      by_cases same : rel = id
      · rw [same, IdGraph.edge_dropEdge_self, graph_edge, indexed]
        rfl
      · rw [IdGraph.edge_dropEdge_of_ne same]
  | some eid =>
      obtain ⟨edge, found, rfl⟩ := consistent.edge_of_id id eid indexed
      rw [removeRelationship_indexed indexed]
      refine IdGraph.ext rfl (funext fun rel => ?_)
      by_cases same : rel = edge.weight.id
      · rw [same, IdGraph.edge_dropEdge_self, graph_edge]
        dsimp only
        rw [AList.lookup_erase]
        rfl
      · rw [IdGraph.edge_dropEdge_of_ne same, graph_edge, graph_edge]
        dsimp only
        rw [AList.lookup_erase_ne same]
        cases there : snap.byRelId.lookup rel with
        | none => rfl
        | some other =>
            have apart : other ≠ eid := by
              rintro rfl
              obtain ⟨old, inside, rfl⟩ := consistent.edge_of_id rel other there
              rw [found] at inside
              cases inside
              exact same rfl
            rw [Option.bind_some, Option.bind_some, StableGraph.edges_removeEdge, if_neg apart]
            rfl

end GraphSnapshot

/-- Every change keeps a snapshot consistent. -/
theorem SnapshotDelta.apply_consistent {snap : GraphSnapshot} (consistent : snap.Consistent)
    (delta : SnapshotDelta) : (delta.apply snap).Consistent := by
  cases delta with
  | upsertMemory memory => exact consistent.insertMemory memory
  | deleteMemory id => exact consistent.removeMemory id
  | upsertRelationship relationship => exact consistent.insertRelationship relationship
  | deleteRelationship id => exact consistent.removeRelationship id
  | advanceBackendLsn lsn | advanceLocalLsn lsn =>
      exact ⟨consistent.node_of_id, consistent.id_of_node, consistent.edge_of_id,
        consistent.id_of_edge, consistent.ends, consistent.listed⟩

theorem SnapshotDelta.applyAll_consistent (deltas : List SnapshotDelta) :
    (SnapshotDelta.applyAll .empty deltas).Consistent :=
  List.foldlRecOn deltas _ GraphSnapshot.consistent_empty fun _ consistent delta _ =>
    delta.apply_consistent consistent

end Exocortex
