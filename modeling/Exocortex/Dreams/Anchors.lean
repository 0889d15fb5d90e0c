import Exocortex.Storage.Reads
import Exocortex.Dreams.CycleJournal

/-!
# The working set of a cycle, its anchors and the candidate pairs

A consolidation cycle reads its region once, the memories and then the relationships, and
works on that set (`loadRegionWorkingSet`). Its anchors are the open, embedded memories that
were not computed, at most 32 of them: the most recent first, by whole days, and those of one
day by descending identity. Two anchors of one class that are similar enough are a candidate
pair, in the order in which the anchors stand (`mem_identifyMergeCandidates`), so that its
first memory is never of an earlier day than its second (`candidate_order`).

The similarity of two vectors is a parameter.
-/

namespace Exocortex

open Library InMemoryStorage

/-! ## The working set -/

/-- The rows of a region as a cycle holds them, each under its identity. -/
structure RegionWorkingSet where
  memories : Table MemoryId Memory
  relationships : Table RelationshipId Relationship
  memoryKeys : ∀ id memory, memories.lookup id = some memory → memory.id = id
  relationshipKeys : ∀ id relationship, relationships.lookup id = some relationship →
    relationship.id = id

namespace RegionWorkingSet

def empty : RegionWorkingSet :=
  ⟨∅, ∅, fun id memory found => by simp at found, fun id relationship found => by simp at found⟩

def insertMemory (ws : RegionWorkingSet) (memory : Memory) : RegionWorkingSet :=
  { ws with
    memories := ws.memories.insert memory.id memory
    memoryKeys := by
      intro id other found
      rw [Table.lookup_insert_eq] at found
      split at found
      · next same =>
          cases found
          exact same.symm
      · exact ws.memoryKeys id other found }

def insertRelationship (ws : RegionWorkingSet) (relationship : Relationship) :
    RegionWorkingSet :=
  { ws with
    relationships := ws.relationships.insert relationship.id relationship
    relationshipKeys := by
      intro id other found
      rw [Table.lookup_insert_eq] at found
      split at found
      · next same =>
          cases found
          exact same.symm
      · exact ws.relationshipKeys id other found }

/-- Each written row with its companion, which is put in its place whether or not it is
written itself. -/
def applyRelationshipWrites (inverse : Relationship → Option Relationship)
    (ws : RegionWorkingSet) (writes : List Relationship) : RegionWorkingSet :=
  writes.foldl (fun ws relationship =>
    let ws := ws.insertRelationship relationship
    match inverse relationship with
    | none => ws
    | some companion => ws.insertRelationship companion) ws

theorem lookup_insertMemory (ws : RegionWorkingSet) (memory : Memory) (id : MemoryId) :
    (ws.insertMemory memory).memories.lookup id =
      if id = memory.id then some memory else ws.memories.lookup id :=
  Table.lookup_insert_eq _ _ _ _

theorem lookup_insertRelationship (ws : RegionWorkingSet) (relationship : Relationship)
    (id : RelationshipId) :
    (ws.insertRelationship relationship).relationships.lookup id =
      if id = relationship.id then some relationship else ws.relationships.lookup id :=
  Table.lookup_insert_eq _ _ _ _

@[simp] theorem applyRelationshipWrites_memories (inverse : Relationship → Option Relationship)
    (ws : RegionWorkingSet) (writes : List Relationship) :
    (ws.applyRelationshipWrites inverse writes).memories = ws.memories := by
  refine List.foldlRecOn (motive := fun later : RegionWorkingSet =>
    later.memories = ws.memories) writes _ rfl ?_
  intro later same relationship _
  dsimp only
  split <;> exact same

end RegionWorkingSet

/-- A cycle reads at most this many memories, and as many relationships. -/
def maxRegionRows : ℕ := 50000

/-- The rows of a region, the memories as one state of the store has them and the
relationships as a later one does. -/
def loadRegionWorkingSet (region : RegionKey) (first second : InMemoryStorage) :
    Except StorageError RegionWorkingSet := do
  let memories ← first.memoriesInRegion region maxRegionRows
  let relationships ← second.currentRelationshipsInRegion region maxRegionRows
  return relationships.foldl RegionWorkingSet.insertRelationship
    (memories.foldl RegionWorkingSet.insertMemory .empty)

/-! ## Anchors -/

/-- A memory as the scoring engine sees it. -/
structure MemoryWithEmbedding where
  id : MemoryId
  «class» : UInt8
  visibility : Visibility
  embedding : Embedding
deriving DecidableEq

/-- Whole days, rounded towards zero, as seconds and as days. -/
def numDays (elapsed : ℤ) : ℤ := (elapsed.tdiv 1000000000).tdiv 86400

/-- The age of an instant in whole days. -/
def ageDays (now recordedAt : DateTime) : ℤ := numDays (now - recordedAt)

def Provenance.isComputed : Provenance → Bool
  | .computed _ _ => true
  | _ => false

/-- An open memory that nobody computed and that has an embedding. -/
def anchorRow (memory : Memory) : Option (DateTime × MemoryWithEmbedding) :=
  if memory.validUntil.isSome then none
  else if memory.provenance.isComputed then none
  else memory.embedding.map fun embedding =>
    (memory.recordedAt, ⟨memory.id, memory.memoryType, memory.visibility, embedding⟩)

/-- The younger row first; of one day, the larger identity first. -/
def anchorLe (now : DateTime) (left right : DateTime × MemoryWithEmbedding) : Bool :=
  let score (recordedAt : DateTime) := -ageDays now recordedAt
  decide (score right.1 < score left.1) ||
    (decide (score right.1 = score left.1) && right.2.id.raw.le left.2.id.raw)

def selectAnchors (now : DateTime) (ws : RegionWorkingSet) : List MemoryWithEmbedding :=
  (((ws.memories.values.filterMap anchorRow).insertionSort (anchorLe now · ·)).take 32).map (·.2)

/-- A pair of memories to be merged, the second into the first. -/
structure MergeCandidate where
  a : MemoryId
  b : MemoryId
  predictedDeltaRGain : F32
  cosineSimilarity : F32
deriving DecidableEq

/-- 0.9, above which a pair is a candidate. -/
def candidateFloor : F32 := ⟨0x3f666666#32⟩

/-- 0.92, from which a candidate is merged. -/
def mergeBar : F32 := ⟨0x3f6b851f#32⟩

section Candidates

variable (cosine : List F32 → List F32 → F32)

/-- The pair of two anchors, in this order. -/
def candidate (a b : MemoryWithEmbedding) : Option MergeCandidate :=
  if a.class ≠ b.class then none
  else
    let sim := cosine a.embedding.vector b.embedding.vector
    if candidateFloor.lt sim then some ⟨a.id, b.id, sim, sim⟩ else none

/-- Every pair of an anchor with a later one. -/
def candidatePairs : List MemoryWithEmbedding → List MergeCandidate
  | [] => []
  | a :: rest => rest.filterMap (candidate cosine a) ++ candidatePairs rest

/-- The candidates, the most similar first. -/
def identifyMergeCandidates (memories : List MemoryWithEmbedding) : List MergeCandidate :=
  (candidatePairs cosine memories).insertionSort fun x y =>
    y.predictedDeltaRGain.le x.predictedDeltaRGain

end Candidates

/-! ## Which pairs there are -/

/-- What makes a memory an anchor. -/
structure Anchors (memory : Memory) (anchor : MemoryWithEmbedding) : Prop where
  isOpen : memory.validUntil = none
  asserted : memory.provenance.isComputed = false
  embedding : memory.embedding = some anchor.embedding
  id : anchor.id = memory.id
  «class» : anchor.class = memory.memoryType
  visibility : anchor.visibility = memory.visibility

variable {row : DateTime × MemoryWithEmbedding} {now : DateTime} {ws : RegionWorkingSet}
  {a b : MemoryWithEmbedding} {cosine : List F32 → List F32 → F32} {c : MergeCandidate}
  {anchors : List MemoryWithEmbedding}

theorem anchorRow_eq_some {memory : Memory} (found : anchorRow memory = some row) :
    row.1 = memory.recordedAt ∧ Anchors memory row.2 := by
  rw [anchorRow] at found
  split at found
  · cases found
  · next isOpen =>
      split at found
      · cases found
      · next asserted =>
          obtain ⟨embedding, carried, rfl⟩ := Option.map_eq_some_iff.mp found
          exact ⟨rfl, Option.not_isSome_iff_eq_none.mp isOpen, Bool.not_eq_true _ ▸ asserted,
            carried, rfl, rfl, rfl⟩

/-- The first of two rows stands before the second among the anchors: it is younger by whole
days, or of the same day and with an identity at least as large. -/
def StandsBefore (now : DateTime) (left right : Memory) : Prop :=
  ageDays now left.recordedAt < ageDays now right.recordedAt ∨
    ageDays now left.recordedAt = ageDays now right.recordedAt ∧ right.id.raw.le left.id.raw

theorem anchorLe_iff {left right : DateTime × MemoryWithEmbedding} :
    anchorLe now left right ↔
      ageDays now left.1 < ageDays now right.1 ∨
        ageDays now left.1 = ageDays now right.1 ∧ right.2.id.raw.le left.2.id.raw := by
  simp only [anchorLe, Bool.or_eq_true, Bool.and_eq_true, decide_eq_true_eq, neg_lt_neg_iff,
    neg_inj]
  rw [eq_comm]

instance (now : DateTime) : Std.Total (fun left right => anchorLe now left right = true) where
  total left right := by
    rw [anchorLe_iff, anchorLe_iff]
    have order := Bytes.le_total left.2.id.raw right.2.id.raw
    rcases lt_trichotomy (ageDays now left.1) (ageDays now right.1) with less | same | more
    · exact .inl (.inl less)
    · rcases order with below | above
      · exact .inr (.inr ⟨same.symm, below⟩)
      · exact .inl (.inr ⟨same, above⟩)
    · exact .inr (.inl more)

instance (now : DateTime) : IsTrans (DateTime × MemoryWithEmbedding)
    (fun left right => anchorLe now left right = true) where
  trans first second third := by
    rw [anchorLe_iff, anchorLe_iff, anchorLe_iff]
    rintro (less | ⟨same, below⟩) (less' | ⟨same', below'⟩)
    · exact .inl (less.trans less')
    · exact .inl (same' ▸ less)
    · exact .inl (same ▸ less')
    · exact .inr ⟨same.trans same', Bytes.le_trans below' below⟩

/-- The row of an anchor is in the working set. -/
theorem anchorRow_lookup (member : row ∈ ws.memories.values.filterMap anchorRow) :
    ∃ memory, ws.memories.lookup row.2.id = some memory ∧ row.1 = memory.recordedAt ∧
      Anchors memory row.2 := by
  obtain ⟨memory, value, anchored⟩ := List.mem_filterMap.mp member
  obtain ⟨recorded, anchors⟩ := anchorRow_eq_some anchored
  obtain ⟨id, lookup⟩ := Table.mem_values.mp value
  have key := ws.memoryKeys id memory lookup
  refine ⟨memory, ?_, recorded, anchors⟩
  rw [anchors.id, key, lookup]

theorem mem_selectAnchors {anchor : MemoryWithEmbedding} (member : anchor ∈ selectAnchors now ws) :
    ∃ memory, ws.memories.lookup anchor.id = some memory ∧ Anchors memory anchor := by
  rw [selectAnchors] at member
  obtain ⟨row, taken, rfl⟩ := List.mem_map.mp member
  obtain ⟨memory, found, -, anchors⟩ :=
    anchorRow_lookup ((List.mem_insertionSort _).mp (List.mem_of_mem_take taken))
  exact ⟨memory, found, anchors⟩

/-- Of two anchors, the first stands before the second. -/
theorem selectAnchors_pair (pair : [a, b].Sublist (selectAnchors now ws)) :
    ∃ left right, ws.memories.lookup a.id = some left ∧ Anchors left a ∧
      ws.memories.lookup b.id = some right ∧ Anchors right b ∧ StandsBefore now left right := by
  obtain ⟨rows, inside, same⟩ := List.sublist_map_iff.mp pair
  obtain ⟨first, second, rfl, rfl, rfl⟩ :
      ∃ first second, rows = [first, second] ∧ a = first.2 ∧ b = second.2 := by
    match rows, same with
    | [first, second], same =>
        simp only [List.map_cons, List.map_nil, List.cons.injEq, and_true] at same
        exact ⟨first, second, rfl, same.1, same.2⟩
  have sorted := inside.trans (List.take_sublist _ _)
  have pairwise := List.pairwise_insertionSort
    (fun left right => anchorLe now left right = true) (ws.memories.values.filterMap anchorRow)
  have ordered : anchorLe now first second = true :=
    List.pairwise_iff_forall_sublist.mp pairwise sorted
  have found (row : DateTime × MemoryWithEmbedding) (member : row ∈ [first, second]) :=
    anchorRow_lookup ((List.mem_insertionSort _).mp (sorted.subset member))
  obtain ⟨left, leftFound, leftAt, leftAnchors⟩ := found first List.mem_cons_self
  obtain ⟨right, rightFound, rightAt, rightAnchors⟩ :=
    found second (List.mem_cons_of_mem _ List.mem_cons_self)
  refine ⟨left, right, leftFound, leftAnchors, rightFound, rightAnchors, ?_⟩
  rw [anchorLe_iff, leftAt, rightAt, leftAnchors.id, rightAnchors.id] at ordered
  exact ordered

theorem candidate_eq_some (found : candidate cosine a b = some c) :
    a.class = b.class ∧ c.a = a.id ∧ c.b = b.id ∧
      c.cosineSimilarity = cosine a.embedding.vector b.embedding.vector := by
  rw [candidate] at found
  split at found
  · cases found
  · next same =>
      dsimp only at found
      split at found
      · cases found
        exact ⟨not_not.mp same, rfl, rfl, rfl⟩
      · cases found

/-- A candidate is a pair of anchors of one class, in the order of the anchors. -/
theorem mem_candidatePairs (member : c ∈ candidatePairs cosine anchors) :
    ∃ a b, [a, b].Sublist anchors ∧ a.class = b.class ∧ c.a = a.id ∧ c.b = b.id ∧
      c.cosineSimilarity = cosine a.embedding.vector b.embedding.vector := by
  induction anchors with
  | nil => exact absurd member List.not_mem_nil
  | cons a rest ih =>
      rw [candidatePairs] at member
      rcases List.mem_append.mp member with here | later
      · obtain ⟨b, inside, found⟩ := List.mem_filterMap.mp here
        exact ⟨a, b, (List.singleton_sublist.mpr inside).cons_cons a, candidate_eq_some found⟩
      · obtain ⟨first, second, pair, facts⟩ := ih later
        exact ⟨first, second, pair.cons a, facts⟩

theorem mem_identifyMergeCandidates (member : c ∈ identifyMergeCandidates cosine anchors) :
    ∃ a b, [a, b].Sublist anchors ∧ a.class = b.class ∧ c.a = a.id ∧ c.b = b.id ∧
      c.cosineSimilarity = cosine a.embedding.vector b.embedding.vector :=
  mem_candidatePairs ((List.mem_insertionSort _).mp member)

theorem RegionWorkingSet.memoryIds_nodup (ws : RegionWorkingSet) :
    (ws.memories.values.map Memory.id).Nodup := by
  have keys : ws.memories.values.map Memory.id = ws.memories.keys := by
    rw [Table.values, List.map_map]
    apply List.map_congr_left
    rintro ⟨id, memory⟩ entry
    exact ws.memoryKeys id memory (AList.mem_lookup_iff.mpr entry)
  rw [keys]
  exact ws.memories.nodupKeys

theorem selectAnchors_nodup (now : DateTime) (ws : RegionWorkingSet) :
    ((selectAnchors now ws).map (·.id)).Nodup := by
  have rows : ∀ memories : List Memory, ((memories.filterMap anchorRow).map (·.2.id)).Sublist
      (memories.map Memory.id) := by
    intro memories
    induction memories with
    | nil => exact List.nil_sublist _
    | cons memory rest ih =>
        cases found : anchorRow memory with
        | none =>
            rw [List.filterMap_cons_none found]
            exact ih.cons _
        | some row =>
            rw [List.filterMap_cons_some found, List.map_cons, List.map_cons,
              (anchorRow_eq_some found).2.id]
            exact ih.cons_cons _
  have sorted := ((List.perm_insertionSort (anchorLe now · ·)
    (ws.memories.values.filterMap anchorRow)).map (·.2.id)).nodup_iff.mpr
      ((rows _).nodup ws.memoryIds_nodup)
  rw [selectAnchors, List.map_map]
  exact sorted.sublist ((List.take_sublist _ _).map _)

/-- **The first memory of a candidate pair stands before the second**, and the two are
different memories of one type. -/
theorem candidate_order (member : c ∈ identifyMergeCandidates cosine (selectAnchors now ws)) :
    c.a ≠ c.b ∧
      ∃ left right, ws.memories.lookup c.a = some left ∧ ws.memories.lookup c.b = some right ∧
        left.memoryType = right.memoryType ∧ StandsBefore now left right := by
  obtain ⟨a, b, pair, alike, first, second, -⟩ := mem_identifyMergeCandidates member
  obtain ⟨left, right, leftFound, leftAnchors, rightFound, rightAnchors, before⟩ :=
    selectAnchors_pair pair
  refine ⟨?_, left, right, first ▸ leftFound, second ▸ rightFound, ?_, before⟩
  · have apart := (selectAnchors_nodup now ws).sublist (pair.map (·.id))
    rw [first, second]
    simpa using apart
  · rw [← leftAnchors.class, ← rightAnchors.class, alike]

end Exocortex
