import Exocortex.Cache.View
import Exocortex.Storage.Reads

/-!
# A snapshot built from the store

`GraphSnapshot.fromStorage` reads the current version of every row, keeps the memories that are
live and then the relationships that are live between them, and takes the highest sequence
number among the relationships and the memories it kept as its frontier.

Rows are stored under their own identity, so no two of them compete for a place
(`graph_seed`): at a time at which no end of validity lies in the future, the snapshot is the
image of the store (`graph_fromStorage`, `fromStorage_frontier_le`).
-/

namespace Exocortex

open Library

/-! ## Live rows -/

/-- An end of validity that is unset or in the future. -/
def liveUntil (now : DateTime) (validUntil : Option DateTime) : Bool :=
  validUntil.all fun ending => decide (now < ending)

/-- The memory is neither superseded nor ended. -/
def Memory.live (now : DateTime) (m : Memory) : Bool :=
  m.invalidatedBy.isNone && liveUntil now m.validUntil

def Relationship.live (now : DateTime) (r : Relationship) : Bool :=
  r.invalidatedBy.isNone && liveUntil now r.validUntil

/-- The memory has no end and no successor. -/
def Memory.isOpen (m : Memory) : Bool := m.invalidatedBy.isNone && m.validUntil.isNone

def Relationship.isOpen (r : Relationship) : Bool := r.invalidatedBy.isNone && r.validUntil.isNone

/-- No end of validity lies in the future. -/
def Settled (now : DateTime) (s : InMemoryStorage) : Prop :=
  (∀ m ∈ s.streamAllMemories, ∀ ending ∈ m.validUntil, ending ≤ now) ∧
    ∀ r ∈ s.streamAllRelationships, ∀ ending ∈ r.validUntil, ending ≤ now

instance (now : DateTime) (s : InMemoryStorage) : Decidable (Settled now s) :=
  inferInstanceAs (Decidable (_ ∧ _))

variable {now : DateTime}

theorem liveUntil_of_past {validUntil : Option DateTime}
    (past : ∀ ending ∈ validUntil, ending ≤ now) :
    liveUntil now validUntil = validUntil.isNone := by
  cases validUntil with
  | none => rfl
  | some ending => simpa [liveUntil] using past ending rfl

variable {s : InMemoryStorage}

theorem Settled.memory_live (settled : Settled now s) {m : Memory}
    (member : m ∈ s.streamAllMemories) : m.live now = m.isOpen := by
  rw [Memory.live, liveUntil_of_past (settled.1 m member), Memory.isOpen]

theorem Settled.relationship_live (settled : Settled now s) {r : Relationship}
    (member : r ∈ s.streamAllRelationships) : r.live now = r.isOpen := by
  rw [Relationship.live, liveUntil_of_past (settled.2 r member), Relationship.isOpen]

namespace GraphSnapshot

/-! ## Inserting lists of rows -/

/-- The memories, and then the relationships, into an empty snapshot. -/
def seed (ms : List Memory) (rs : List Relationship) : GraphSnapshot :=
  rs.foldl insertRelationship (ms.foldl insertMemory empty)

variable {snap : GraphSnapshot}

variable {ms : List Memory}

/-- The memories inserted, when no two have one identity. -/
theorem graph_seedMemories (unique : ∀ m ∈ ms, ∀ other ∈ ms, m.id = other.id → m = other) :
    (ms.foldl insertMemory empty).Consistent ∧
      (∀ id m, (ms.foldl insertMemory empty).graph.node id = some m ↔ m ∈ ms ∧ m.id = id) ∧
      ∀ id, (ms.foldl insertMemory empty).graph.edge id = none := by
  induction ms using List.reverseRecOn with
  | nil =>
      refine ⟨consistent_empty, fun id m => ?_, fun _ => rfl⟩
      constructor
      · intro found
        cases found
      · rintro ⟨member, _⟩
        cases member
  | append_singleton ms last ih =>
      obtain ⟨consistent, nodes, edges⟩ := ih fun m inside other there =>
        unique m (List.mem_append_left _ inside) other (List.mem_append_left _ there)
      rw [List.foldl_append, List.foldl_cons, List.foldl_nil]
      refine ⟨consistent.insertMemory last, fun id m => ?_, fun id => ?_⟩
      · rw [graph_insertMemory consistent]
        by_cases same : id = last.id
        · subst same
          rw [IdGraph.node_setNode_self, Option.some.injEq]
          constructor
          · rintro rfl
            exact ⟨by simp, rfl⟩
          · rintro ⟨member, named⟩
            exact (unique m member last (by simp) named).symm
        · rw [IdGraph.node_setNode_of_ne same, nodes]
          simp only [List.mem_append, List.mem_singleton]
          constructor
          · exact fun both => ⟨.inl both.1, both.2⟩
          · rintro ⟨inside | rfl, named⟩
            · exact ⟨inside, named⟩
            · exact absurd named.symm same
      · rw [graph_insertMemory consistent]
        exact edges id

/-- The graph of the rows inserted, when no two have one identity. -/
theorem graph_seed {rs : List Relationship}
    (uniqueMemories : ∀ m ∈ ms, ∀ other ∈ ms, m.id = other.id → m = other)
    (unique : ∀ r ∈ rs, ∀ other ∈ rs, r.id = other.id → r = other) :
    (seed ms rs).Consistent ∧
      (∀ id m, (seed ms rs).graph.node id = some m ↔ m ∈ ms ∧ m.id = id) ∧
      ∀ id link, (seed ms rs).graph.edge id = some link ↔ ∃ r ∈ rs, r.id = id ∧
        link = ⟨r, r.source, r.target⟩ ∧ (∃ m ∈ ms, m.id = r.source) ∧ ∃ m ∈ ms, m.id = r.target
    := by
  obtain ⟨start, startNodes, startEdges⟩ := graph_seedMemories uniqueMemories
  rw [seed]
  induction rs using List.reverseRecOn with
  | nil =>
      refine ⟨start, startNodes, fun id link => ?_⟩
      rw [List.foldl_nil, startEdges]
      constructor
      · intro found
        cases found
      · rintro ⟨r, member, _⟩
        cases member
  | append_singleton rs last ih =>
      obtain ⟨consistent, nodes, edges⟩ := ih fun r inside other there =>
        unique r (List.mem_append_left _ inside) other (List.mem_append_left _ there)
      rw [List.foldl_append, List.foldl_cons, List.foldl_nil]
      have present (id : MemoryId) :
          (rs.foldl insertRelationship (ms.foldl insertMemory empty)).graph.node id ≠ none ↔
            ∃ m ∈ ms, m.id = id := by
        rw [Option.ne_none_iff_exists']
        simp only [nodes]
      refine ⟨consistent.insertRelationship last, fun id m => ?_, fun id link => ?_⟩
      · rw [graph_insertRelationship consistent, IdGraph.node_setEdge, nodes]
      · rw [graph_insertRelationship consistent]
        by_cases ends : (∃ m ∈ ms, m.id = last.source) ∧ ∃ m ∈ ms, m.id = last.target
        · by_cases same : id = last.id
          · subst same
            rw [IdGraph.edge_setEdge_self ((present _).mpr ends.1) ((present _).mpr ends.2)]
            -- A row of the same identity that is there already is this row.
            have entered : (((rs.foldl insertRelationship
                (ms.foldl insertMemory empty)).graph.edge last.id).elim
                (⟨last, last.source, last.target⟩ : Link MemoryId Relationship)
                fun old => { old with weight := last }) = ⟨last, last.source, last.target⟩ := by
              cases found : (rs.foldl insertRelationship
                (ms.foldl insertMemory empty)).graph.edge last.id with
              | none => rfl
              | some old =>
                  obtain ⟨r, inside, named, rfl, _⟩ := (edges _ _).mp found
                  rw [unique r (by simp [inside]) last (by simp) named]
                  rfl
            rw [entered, Option.some.injEq]
            constructor
            · rintro rfl
              exact ⟨last, by simp, rfl, rfl, ends⟩
            · rintro ⟨r, inside, named, rfl, _⟩
              rw [unique r inside last (by simp) named]
          · rw [IdGraph.edge_setEdge_of_ne same, edges]
            simp only [List.mem_append, List.mem_singleton]
            constructor
            · rintro ⟨r, inside, rest⟩
              exact ⟨r, .inl inside, rest⟩
            · rintro ⟨r, inside | rfl, named, rest⟩
              · exact ⟨r, inside, named, rest⟩
              · exact absurd named.symm same
        · rw [IdGraph.setEdge_absent, edges]
          · simp only [List.mem_append, List.mem_singleton]
            constructor
            · rintro ⟨r, inside, rest⟩
              exact ⟨r, .inl inside, rest⟩
            · rintro ⟨r, inside | rfl, named, shape, there⟩
              · exact ⟨r, inside, named, shape, there⟩
              · exact absurd there ends
          · rcases not_and_or.mp ends with source | target
            · exact .inl (not_not.mp fun there => source ((present _).mp there))
            · exact .inr (not_not.mp fun there => target ((present _).mp there))

/-! ## From the store -/

/-- Build a snapshot from the streams of memories and of relationships. -/
def fromStreams (now : DateTime) (ms : List Memory) (rs : List Relationship) : GraphSnapshot :=
  let snap := ms.foldl (fun snap m => if m.live now then snap.insertMemory m else snap) empty
  let (frontier, snap) := rs.foldl (fun (frontier, snap) r =>
    (max frontier r.lsn.value, if r.live now then snap.insertRelationship r else snap)) (0, snap)
  let frontier := snap.petgraph.nodeWeights.foldl
    (fun frontier m => max frontier m.lsn.value) frontier
  { snap with lastBackendLsn := frontier }

def fromStorage (now : DateTime) (s : InMemoryStorage) : GraphSnapshot :=
  fromStreams now s.streamAllMemories s.streamAllRelationships

theorem foldl_relationships (now : DateTime) (rs : List Relationship) (frontier : ℕ)
    (snap : GraphSnapshot) :
    rs.foldl (fun (frontier, snap) r => (max frontier r.lsn.value,
      if r.live now then snap.insertRelationship r else snap)) (frontier, snap) =
      (rs.foldl (fun frontier r => max frontier r.lsn.value) frontier,
        (rs.filter (·.live now)).foldl insertRelationship snap) := by
  induction rs generalizing frontier snap with
  | nil => rfl
  | cons r rs ih =>
      rw [List.foldl_cons, ih, List.foldl_cons]
      by_cases live : r.live now = true
      · rw [List.filter_cons_of_pos live, List.foldl_cons, if_pos live]
      · rw [List.filter_cons_of_neg live, if_neg live]

/-- The rows of the streams that are live, inserted; the frontier is over all relationships and
the memories inserted. -/
theorem fromStreams_eq (now : DateTime) (ms : List Memory) (rs : List Relationship) :
    fromStreams now ms rs =
      { seed (ms.filter (·.live now)) (rs.filter (·.live now)) with
        lastBackendLsn := (seed (ms.filter (·.live now)) (rs.filter (·.live now))).petgraph
          |>.nodeWeights.foldl (fun frontier m => max frontier m.lsn.value)
            (rs.foldl (fun frontier r => max frontier r.lsn.value) 0) } := by
  simp only [fromStreams, foldl_relationships, seed, List.foldl_filter]

theorem foldl_max_le {α : Type} (number : α → ℕ) (rows : List α) (start bound : ℕ) :
    rows.foldl (fun frontier row => max frontier (number row)) start ≤ bound ↔
      start ≤ bound ∧ ∀ row ∈ rows, number row ≤ bound := by
  induction rows generalizing start with
  | nil => simp
  | cons row rows ih =>
      rw [List.foldl_cons, ih, Nat.max_le, List.forall_mem_cons, and_assoc]

theorem mem_nodeWeights {m : Memory} : m ∈ snap.petgraph.nodeWeights ↔ m ∈ snap.memories :=
  Table.mem_values

end GraphSnapshot

/-- The rows of a store, and those of them that are wanted. -/
def InMemoryStorage.source (s : InMemoryStorage) (wantMemory : Memory → Bool)
    (wantRelationship : Relationship → Bool) :
    Source MemoryId RelationshipId Memory Relationship where
  held := {
    node := s.currentMemory
    edge := fun id => (s.currentRelationship id).map fun r => ⟨r, r.source, r.target⟩ }
  wanted := {
    node := fun id => (s.currentMemory id).filter wantMemory
    edge := fun id => ((s.currentRelationship id).filter wantRelationship).map
      fun r => ⟨r, r.source, r.target⟩ }
  node_held _ _ found := (Option.filter_eq_some_iff.mp found).1
  edge_held _ _ found := by
    obtain ⟨r, kept, rfl⟩ := Option.map_eq_some_iff.mp found
    exact Option.map_eq_some_iff.mpr ⟨r, (Option.filter_eq_some_iff.mp kept).1, rfl⟩

section Source

variable {s : InMemoryStorage} {wantMemory : Memory → Bool} {wantRelationship : Relationship → Bool}

theorem InMemoryStorage.source_node {id : MemoryId} {m : Memory} :
    (s.source wantMemory wantRelationship).wanted.node id = some m ↔
      s.currentMemory id = some m ∧ wantMemory m = true :=
  Option.filter_eq_some_iff

theorem InMemoryStorage.source_edge {id : RelationshipId} {link : Link MemoryId Relationship} :
    (s.source wantMemory wantRelationship).wanted.edge id = some link ↔
      ∃ r, s.currentRelationship id = some r ∧ wantRelationship r = true ∧
        link = ⟨r, r.source, r.target⟩ := by
  simp only [source, Option.map_eq_some_iff, Option.filter_eq_some_iff, and_assoc]
  exact exists_congr fun r => and_congr_right fun _ => and_congr_right fun _ => eq_comm

open InMemoryStorage

/-- The wanted rows of a store, inserted into an empty snapshot, are its image. -/
theorem GraphSnapshot.graph_seed_source (keyed : Keyed s.rows) :
    (seed (s.streamAllMemories.filter wantMemory)
      (s.streamAllRelationships.filter wantRelationship)).Consistent ∧
    (seed (s.streamAllMemories.filter wantMemory)
      (s.streamAllRelationships.filter wantRelationship)).graph =
      (s.source wantMemory wantRelationship).image := by
  have memory {m : Memory} : m ∈ s.streamAllMemories.filter wantMemory ↔
      s.currentMemory m.id = some m ∧ wantMemory m = true := by
    rw [List.mem_filter, keyed.mem_memories]
  have relationship {r : Relationship} : r ∈ s.streamAllRelationships.filter wantRelationship ↔
      s.currentRelationship r.id = some r ∧ wantRelationship r = true := by
    rw [List.mem_filter, keyed.mem_relationships]
  have uniqueMemories : ∀ m ∈ s.streamAllMemories.filter wantMemory,
      ∀ other ∈ s.streamAllMemories.filter wantMemory, m.id = other.id → m = other := by
    intro m inside other there same
    have current := (memory.mp inside).1
    rw [same, (memory.mp there).1] at current
    exact (Option.some.inj current).symm
  have unique : ∀ r ∈ s.streamAllRelationships.filter wantRelationship,
      ∀ other ∈ s.streamAllRelationships.filter wantRelationship, r.id = other.id → r = other := by
    intro r inside other there same
    have current := (relationship.mp inside).1
    rw [same, (relationship.mp there).1] at current
    exact (Option.some.inj current).symm
  obtain ⟨consistent, nodes, edges⟩ := graph_seed uniqueMemories unique
  refine ⟨consistent, IdGraph.ext (funext fun id => Option.ext fun m => ?_)
    (funext fun id => Option.ext fun link => ?_)⟩
  · rw [nodes, memory, Source.image, source_node]
    constructor
    · rintro ⟨both, rfl⟩
      exact both
    · intro both
      have named := keyed.memory_id both.1
      subst named
      exact ⟨both, rfl⟩
  · have present (id : MemoryId) : (∃ m ∈ s.streamAllMemories.filter wantMemory, m.id = id) ↔
        (s.source wantMemory wantRelationship).wanted.node id ≠ none := by
      rw [Option.ne_none_iff_exists']
      simp only [source_node, memory]
      constructor
      · rintro ⟨m, both, rfl⟩
        exact ⟨m, both⟩
      · rintro ⟨m, both⟩
        have named := keyed.memory_id both.1
        subst named
        exact ⟨m, both, rfl⟩
    rw [edges, Source.image_edge_eq_some, source_edge, Source.Between]
    simp only [relationship, present]
    constructor
    · rintro ⟨r, ⟨current, wanted⟩, rfl, rfl, ends⟩
      exact ⟨⟨r, current, wanted, rfl⟩, ends⟩
    · rintro ⟨⟨r, current, wanted, rfl⟩, ends⟩
      have named := keyed.relationship_id current
      subst named
      exact ⟨r, ⟨current, wanted⟩, rfl, rfl, ends⟩

/-- The open rows of a store. -/
def InMemoryStorage.openRows (s : InMemoryStorage) :
    Source MemoryId RelationshipId Memory Relationship :=
  s.source Memory.isOpen Relationship.isOpen

namespace GraphSnapshot

variable {now : DateTime}

theorem filter_live_eq (settled : Settled now s) :
    s.streamAllMemories.filter (·.live now) = s.streamAllMemories.filter Memory.isOpen ∧
      s.streamAllRelationships.filter (·.live now) =
        s.streamAllRelationships.filter Relationship.isOpen :=
  ⟨List.filter_congr fun _ member => settled.memory_live member,
    List.filter_congr fun _ member => settled.relationship_live member⟩

/-- **A snapshot built from the store is its image.** -/
theorem graph_fromStorage (keyed : Keyed s.rows) (settled : Settled now s) :
    (fromStorage now s).Consistent ∧ (fromStorage now s).graph = s.openRows.image := by
  obtain ⟨memories, relationships⟩ := filter_live_eq settled
  rw [fromStorage, fromStreams_eq, memories, relationships]
  obtain ⟨consistent, graph⟩ :=
    @graph_seed_source s Memory.isOpen Relationship.isOpen keyed
  exact ⟨⟨consistent.node_of_id, consistent.id_of_node, consistent.edge_of_id,
    consistent.id_of_edge, consistent.ends, consistent.listed⟩, graph⟩

/-- The frontier covers the current relationships and the open memories. -/
theorem fromStorage_frontier_le (keyed : Keyed s.rows) (settled : Settled now s) (bound : ℕ) :
    (fromStorage now s).lastBackendLsn ≤ bound ↔
      (∀ id r, s.currentRelationship id = some r → r.lsn.value ≤ bound) ∧
        ∀ id m, s.currentMemory id = some m → m.isOpen = true → m.lsn.value ≤ bound := by
  obtain ⟨consistent, graph⟩ := graph_fromStorage keyed settled
  have kept (m : Memory) : m ∈ (fromStorage now s).memories ↔
      ∃ id, s.currentMemory id = some m ∧ m.isOpen = true := by
    rw [consistent.memories_eq, graph]
    exact exists_congr fun id => @source_node s Memory.isOpen Relationship.isOpen id m
  have weights : (fromStorage now s).lastBackendLsn =
      (fromStorage now s).petgraph.nodeWeights.foldl (fun frontier m => max frontier m.lsn.value)
        (s.streamAllRelationships.foldl (fun frontier r => max frontier r.lsn.value) 0) := by
    rw [fromStorage, fromStreams_eq]
  rw [weights, foldl_max_le (fun m : Memory => m.lsn.value),
    foldl_max_le (fun r : Relationship => r.lsn.value)]
  simp only [mem_nodeWeights, kept, mem_streamAllRelationships, Nat.zero_le, true_and]
  constructor
  · rintro ⟨relationships, memories⟩
    exact ⟨fun id r current => relationships r ⟨id, current⟩,
      fun id m current isOpen => memories m ⟨id, current, isOpen⟩⟩
  · rintro ⟨relationships, memories⟩
    refine ⟨fun r ⟨id, current⟩ => relationships id r current, ?_⟩
    rintro m ⟨id, current, isOpen⟩
    exact memories id m current isOpen

end GraphSnapshot

end Source

end Exocortex
