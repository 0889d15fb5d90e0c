import Exocortex.Reasoning.Engine
import Exocortex.Storage.Adjacency

/-!
# Relationships at a frontier

`relationships_touching` looks the frontier up in the adjacency index, and keeps the current
versions that are open. It finds every open relationship with an end in the frontier, since what
is stored was filed under its ends.

The index keeps the ends of earlier writes, and the rows it finds are not compared with the
frontier again. So a relationship whose identity was once written with another end is also found
there: `touching_exact_iff` says that the read is exact when this has not happened.
-/

namespace Exocortex

open Library

namespace InMemoryStorage

variable {s : InMemoryStorage}

/-- The current version of a relationship is open and not replaced. -/
def currentOpen (s : InMemoryStorage) (id : RelationshipId) : Option Relationship :=
  (s.currentRelationship id).filter fun row => row.validUntil.isNone && row.invalidatedBy.isNone

/-- The relationships found are the open current ones with an end in the frontier, each once. -/
structure ExactlyTouching (s : InMemoryStorage) (frontier : List MemoryId)
    (found : List Relationship) : Prop where
  once : (found.map (·.id)).Nodup
  exact : ∀ r, r ∈ found ↔
    (∃ id, s.currentOpen id = some r) ∧ (r.source ∈ frontier ∨ r.target ∈ frontier)

/-- Whatever ends the identity of an open relationship was written with are its ends now. -/
def EndsKept (s : InMemoryStorage) : Prop :=
  ∀ id r, s.currentOpen id = some r → ∀ event ∈ s.feed, ∀ node, event.Files id node →
    r.Touches node

/-- With room for all relationships, those are found that are filed under a node of the
frontier. -/
theorem mem_relationshipsTouching (order : HashOrder) {frontier : List MemoryId} {limit : ℕ}
    (room : s.rels.keys.length ≤ limit) {r : Relationship} :
    r ∈ s.relationshipsTouching order frontier limit ↔
      ∃ id, s.currentOpen id = some r ∧ ∃ node ∈ frontier, id ∈ s.relsByNode.members node := by
  have all : ∀ ids : List RelationshipId, ids.length ≤ limit →
      (((order.shuffle ids).filterMap s.currentRelationship).filter fun row =>
        row.validUntil.isNone && row.invalidatedBy.isNone).length ≤ limit := by
    intro ids few
    refine (List.length_filter_le _ _).trans ((List.length_filterMap_le _ _).trans ?_)
    rw [(order.perm ids).length_eq]
    exact few
  rw [relationshipsTouching, List.take_of_length_le
    (all _ ((List.length_filter_le _ _).trans room))]
  simp only [List.mem_filter, List.mem_filterMap, HashOrder.mem_shuffle, List.any_eq_true,
    decide_eq_true_eq, currentOpen, Option.filter_eq_some_iff]
  constructor
  · rintro ⟨⟨id, ⟨_, filed⟩, current⟩, isOpen⟩
    exact ⟨id, ⟨current, isOpen⟩, filed⟩
  · rintro ⟨id, ⟨current, isOpen⟩, filed⟩
    refine ⟨⟨id, ⟨?_, filed⟩, current⟩, isOpen⟩
    have stored := List.mem_of_getLast? current
    rw [Table.history] at stored
    cases found : s.rels.lookup id with
    | none => rw [found] at stored; cases stored
    | some versions => exact AList.mem_keys.mp (AList.lookup_isSome.mp (by rw [found]; rfl))

theorem nodup_relationshipsTouching (keyed : Keyed s.rows) (order : HashOrder)
    (frontier : List MemoryId) (limit : ℕ) :
    ((s.relationshipsTouching order frontier limit).map (·.id)).Nodup := by
  have ids : ((s.rels.keys.filter fun id => frontier.any fun node =>
      id ∈ s.relsByNode.members node)).Nodup := s.rels.keys_nodup.filter _
  have shuffled := (order.perm _).nodup_iff.mpr ids
  refine ((List.take_sublist _ _).trans List.filter_sublist).map _ |>.nodup ?_
  rw [List.Nodup, List.pairwise_map, List.pairwise_filterMap]
  refine shuffled.imp ?_
  intro first second apart row found other also same
  have firstKey := keyed.relationship_id found
  have secondKey := keyed.relationship_id also
  exact apart (firstKey.symm.trans (same.trans secondKey))

/-- **The read is exact for every frontier exactly when open relationships kept their ends.** -/
theorem touching_exact_iff_endsKept (keyed : Keyed s.rows) (filed : Filed s)
    (recorded : Recorded s) :
    (∀ (order : HashOrder) (frontier : List MemoryId) (limit : ℕ), s.rels.keys.length ≤ limit →
        ExactlyTouching s frontier (s.relationshipsTouching order frontier limit)) ↔
      EndsKept s := by
  constructor
  · intro exactly id r found event sent node files
    have listed : r ∈ s.relationshipsTouching .asKnown [node] s.rels.keys.length :=
      (mem_relationshipsTouching .asKnown le_rfl).mpr
      ⟨id, found, node, by simp, (filed id node).mpr ⟨event, sent, files⟩⟩
    have touches := (((exactly .asKnown [node] _ le_rfl).exact r).mp listed).2
    simp only [List.mem_singleton] at touches
    exact touches.imp Eq.symm Eq.symm
  · intro kept order frontier limit room
    refine ⟨nodup_relationshipsTouching keyed order frontier limit, fun r => ?_⟩
    rw [mem_relationshipsTouching order room]
    constructor
    · rintro ⟨id, found, node, inside, files⟩
      obtain ⟨event, sent, files⟩ := (filed id node).mp files
      refine ⟨⟨id, found⟩, ?_⟩
      rcases kept id r found event sent node files with rfl | rfl
      · exact .inl inside
      · exact .inr inside
    · rintro ⟨⟨id, found⟩, touches⟩
      obtain ⟨current, -⟩ := Option.filter_eq_some_iff.mp found
      obtain ⟨event, sent, writes⟩ := recorded id r (List.mem_of_getLast? current)
      have files : ∀ node, r.Touches node → id ∈ s.relsByNode.members node := fun node touches =>
        (filed id node).mpr ⟨event, sent, Invalidation.files_iff.mpr ⟨_, _, writes, touches⟩⟩
      rcases touches with inside | inside
      · exact ⟨id, found, _, inside, files _ (.inl rfl)⟩
      · exact ⟨id, found, _, inside, files _ (.inr rfl)⟩

end InMemoryStorage

open InMemoryStorage

/-- **In the store that any calls lead to, the read is exact for every frontier exactly when the
open relationships were never written with other ends.** -/
theorem touching_exact_iff (env : Env) (calls : List (DateTime × Call)) :
    (∀ (order : HashOrder) (frontier : List MemoryId) (limit : ℕ),
        (Call.runAll env .new calls).rels.keys.length ≤ limit →
        ExactlyTouching (Call.runAll env .new calls) frontier
          ((Call.runAll env .new calls).relationshipsTouching order frontier limit)) ↔
      EndsKept (Call.runAll env .new calls) :=
  touching_exact_iff_endsKept (runAll_keyed env calls) (Call.runAll_filed env calls).1
    (Call.runAll_filed env calls).2

/-- An open edge of one identity, between two nodes. -/
def edgeBetween (source target : UInt8) : Relationship :=
  { Relationship.blank ⟨.fill 16 9⟩ ⟨.fill 16 source⟩ ⟨.fill 16 target⟩ with
    provenance := .derived "" [] }

/-- An edge that is written a second time, with other ends, is still found at the first. -/
theorem not_touching_exact :
    ¬ ∀ (env : Env) (calls : List (DateTime × Call)) (order : HashOrder)
      (frontier : List MemoryId) (limit : ℕ),
      (Call.runAll env .new calls).rels.keys.length ≤ limit →
      ExactlyTouching (Call.runAll env .new calls) frontier
        ((Call.runAll env .new calls).relationshipsTouching order frontier limit) := by
  intro law
  have exactly := law .blank [(0, .upsertRelationship (edgeBetween 1 2)),
    (1, .upsertRelationship (edgeBetween 3 4))] .asKnown [⟨.fill 16 1⟩] 1 (by decide +kernel)
  have listed : { edgeBetween 3 4 with lsn := LSN.newBackend 2 } ∈
      (Call.runAll .blank .new [(0, .upsertRelationship (edgeBetween 1 2)),
        (1, .upsertRelationship (edgeBetween 3 4))]).relationshipsTouching .asKnown
          [⟨.fill 16 1⟩] 1 := by decide +kernel
  have touches := ((exactly.exact _).mp listed).2
  revert touches
  decide +kernel

end Exocortex
