import Exocortex.Storage.Reads

/-!
# What a caller sees of a graph

A graph is read by identity. What a caller sees of it are the memories that it may read, and the
edges that it may read between such memories. Two graphs have the same view for a caller when it
sees the same rows in both.

Any edge can be replaced by one that nobody sees without changing a view, where the caller did not
see the edge before (`sameView_hide`).
-/

namespace Exocortex

/-- The current rows of a store, by identity. -/
structure Graph where
  memory : MemoryId → Option Memory
  relationship : RelationshipId → Option Relationship
  memory_id : ∀ id row, memory id = some row → row.id = id
  relationship_id : ∀ id row, relationship id = some row → row.id = id

/-- The graph of a store whose rows are under their identities. -/
def InMemoryStorage.graph (s : InMemoryStorage) (keyed : Keyed s.rows) : Graph where
  memory := s.currentMemory
  relationship := s.currentRelationship
  memory_id := fun _ _ => keyed.memory_id
  relationship_id := fun _ _ => keyed.relationship_id

namespace Graph

variable (g : Graph) (vc : VisibilityContext)

def getVisibleMemories (ids : List MemoryId) : List Memory :=
  (ids.filterMap g.memory).filter (memoryVisible · vc)

def getRelationships (ids : List RelationshipId) : List Relationship :=
  ids.filterMap g.relationship

/-- The memory that a caller sees under an identity. -/
def seesMemory (id : MemoryId) : Option Memory := (g.memory id).filter (memoryVisible · vc)

/-- Both ends of the edge are there, and it is visible between them. -/
def edgeVisible (edge : Relationship) : Bool :=
  match g.memory edge.source, g.memory edge.target with
  | some source, some target => relationshipVisible edge source target vc
  | _, _ => false

/-- The edge that a caller sees under an identity. -/
def seesRelationship (id : RelationshipId) : Option Relationship :=
  (g.relationship id).filter (g.edgeVisible vc)

/-- A caller sees the same rows. -/
structure SameView (g h : Graph) : Prop where
  memory : ∀ id, g.seesMemory vc id = h.seesMemory vc id
  relationship : ∀ id, g.seesRelationship vc id = h.seesRelationship vc id

variable {g vc}

theorem seesMemory_eq_some_iff {id : MemoryId} {row : Memory} :
    g.seesMemory vc id = some row ↔ g.memory id = some row ∧ memoryVisible row vc = true :=
  Option.filter_eq_some_iff

variable {id : RelationshipId} {h : Graph}

theorem seesRelationship_eq_some_iff {edge : Relationship} :
    g.seesRelationship vc id = some edge ↔
      g.relationship id = some edge ∧ g.edgeVisible vc edge = true :=
  Option.filter_eq_some_iff

theorem edgeVisible_ends {edge : Relationship} (visible : g.edgeVisible vc edge = true) :
    (g.seesMemory vc edge.source).isSome ∧ (g.seesMemory vc edge.target).isSome := by
  rw [edgeVisible] at visible
  split at visible
  · next source target foundSource foundTarget =>
      obtain ⟨sourceVisible, targetVisible⟩ := relationshipVisible_ends visible
      simp [seesMemory, foundSource, foundTarget, sourceVisible, targetVisible]
  · cases visible

theorem getVisibleMemories_eq (ids : List MemoryId) :
    g.getVisibleMemories vc ids = ids.filterMap (g.seesMemory vc) := by
  rw [getVisibleMemories, List.filter_filterMap]
  rfl

theorem SameView.getVisibleMemories (same : SameView vc g h) (ids : List MemoryId) :
    h.getVisibleMemories vc ids = g.getVisibleMemories vc ids := by
  rw [getVisibleMemories_eq, getVisibleMemories_eq]
  exact List.filterMap_congr fun id _ => (same.memory id).symm

/-- An edge that the caller sees is stored in every graph of the same view. -/
theorem SameView.relationship_of_sees (same : SameView vc g h)
    (seen : (g.seesRelationship vc id).isSome) : h.relationship id = g.relationship id := by
  obtain ⟨edge, found⟩ := Option.isSome_iff_exists.mp seen
  have there := (seesRelationship_eq_some_iff.mp found).1
  rw [same.relationship] at found
  rw [there, (seesRelationship_eq_some_iff.mp found).1]

/-! ## Edges that nobody sees -/

/-- A derived edge at a memory, with a label that the memory does not carry. -/
def hiddenEdge (row : Option Memory) (id : RelationshipId) (at_id : MemoryId)
    (evidence : List RelationshipId) : Relationship :=
  { Relationship.blank id at_id at_id with
    visibility := if row.any (·.visibility = .private) then .team else .private
    provenance := .derived "" evidence }

variable {evidence : List RelationshipId}

theorem hiddenEdge_hidden (row : Memory) (id : RelationshipId) (at_id : MemoryId) :
    relationshipVisible (hiddenEdge (some row) id at_id evidence) row row vc = false := by
  cases label : row.visibility <;>
    simp [relationshipVisible, hiddenEdge, label, Visibility.effective]

variable (g) in
/-- The graph with another row under the identity of an edge. -/
def withEdge (id : RelationshipId) (row : Option Relationship)
    (named : ∀ edge, row = some edge → edge.id = id) : Graph where
  memory := g.memory
  relationship other := if other = id then row else g.relationship other
  memory_id := g.memory_id
  relationship_id := by
    intro other edge found
    split at found
    · next same => exact (named edge found).trans same.symm
    · exact g.relationship_id other edge found

variable (g) in
/-- The graph with an edge that nobody sees. -/
def hide (id : RelationshipId) (at_id : MemoryId) (evidence : List RelationshipId) : Graph :=
  g.withEdge id (some (hiddenEdge (g.memory at_id) id at_id evidence)) fun _ same => by
    cases same
    rfl

theorem edgeVisible_hiddenEdge (id : RelationshipId) (at_id : MemoryId) :
    g.edgeVisible vc (hiddenEdge (g.memory at_id) id at_id evidence) = false := by
  cases found : g.memory at_id with
  | none => simp [edgeVisible, hiddenEdge, Relationship.blank, found]
  | some row =>
      have ends : g.edgeVisible vc (hiddenEdge (some row) id at_id evidence) =
          relationshipVisible (hiddenEdge (some row) id at_id evidence) row row vc := by
        simp [edgeVisible, hiddenEdge, Relationship.blank, found]
      rw [ends, hiddenEdge_hidden]

/-- A row that the caller does not see may be any other that it does not see. -/
theorem sameView_withEdge {row : Option Relationship}
    (named : ∀ edge, row = some edge → edge.id = id) (unseen : g.seesRelationship vc id = none)
    (hidden : row.filter (g.edgeVisible vc) = none) : SameView vc g (g.withEdge id row named) := by
  refine ⟨fun _ => rfl, fun other => ?_⟩
  have ends (edge : Relationship) :
      (g.withEdge id row named).edgeVisible vc edge = g.edgeVisible vc edge := rfl
  by_cases same : other = id
  · subst same
    rw [unseen, seesRelationship]
    simp only [withEdge, if_pos]
    exact hidden.symm
  · rw [seesRelationship, seesRelationship]
    simp only [withEdge, if_neg same]
    rfl

theorem sameView_hide (unseen : g.seesRelationship vc id = none) (at_id : MemoryId)
    (evidence : List RelationshipId) : SameView vc g (g.hide id at_id evidence) := by
  refine sameView_withEdge _ unseen ?_
  simp [edgeVisible_hiddenEdge]

@[simp] theorem hide_relationship_self (id : RelationshipId) (at_id : MemoryId) :
    (g.hide id at_id evidence).relationship id =
      some (hiddenEdge (g.memory at_id) id at_id evidence) :=
  if_pos rfl

theorem hide_relationship_of_ne {other : RelationshipId} (apart : other ≠ id) (at_id : MemoryId) :
    (g.hide id at_id evidence).relationship other = g.relationship other :=
  if_neg apart

/-! ## The view itself -/

variable (g vc) in
/-- The graph without the edges that a caller does not see. -/
def view : Graph where
  memory := g.memory
  relationship := g.seesRelationship vc
  memory_id := g.memory_id
  relationship_id := fun id edge found =>
    g.relationship_id id edge (seesRelationship_eq_some_iff.mp found).1

theorem sameView_view : SameView vc g (g.view vc) := by
  refine ⟨fun _ => rfl, fun id => ?_⟩
  have again : (g.view vc).seesRelationship vc id =
      (g.seesRelationship vc id).filter (g.edgeVisible vc) := rfl
  rw [again, seesRelationship, Option.filter_filter]
  simp

theorem SameView.trans {f : Graph} (first : SameView vc f g) (second : SameView vc g h) :
    SameView vc f h :=
  ⟨fun id => (first.memory id).trans (second.memory id),
    fun id => (first.relationship id).trans (second.relationship id)⟩

theorem SameView.symm (same : SameView vc g h) : SameView vc h g :=
  ⟨fun id => (same.memory id).symm, fun id => (same.relationship id).symm⟩

end Graph

end Exocortex
