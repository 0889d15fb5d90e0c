import Exocortex.Library.StableGraph
import Exocortex.Storage.Types

/-!
# The in-memory graph

`GraphSnapshot` is the graph a cache serves: the rows in a stable graph, and the
indexes over them by identity, entity, type and tag, with the two frontiers.

Inserting a memory or a relationship replaces the row of the same identity. A memory
that leaves takes its relationships with it, and a relationship enters only between
memories that are present.
-/

namespace Exocortex

open Library

/-- The low 32 bits of an identity, its last four bytes read from the least
significant one up. -/
def lsb32 (id : MemoryId) : UInt32 :=
  (id.raw.bytes.drop 12).foldr (fun byte high => byte.toUInt32 + 256 * high) 0

/-- An immutable graph image. A tag stands for its interned handle. -/
structure GraphSnapshot where
  petgraph : StableGraph Memory Relationship
  byId : Table MemoryId ℕ
  byEntity : Table EntityId (List MemoryId)
  byType : Table UInt8 (Finset UInt32)
  byTag : Table String (Finset UInt32)
  byRelId : Table RelationshipId ℕ
  lastLocalLsn : ℕ
  lastBackendLsn : ℕ

namespace GraphSnapshot

def empty : GraphSnapshot where
  petgraph := .empty
  byId := ∅
  byEntity := ∅
  byType := ∅
  byTag := ∅
  byRelId := ∅
  lastLocalLsn := 0
  lastBackendLsn := 0

/-! ## The indexes -/

/-- Add one bit to the bitmap of a key. -/
def setBit {K : Type} [DecidableEq K] (bitmaps : Table K (Finset UInt32)) (key : K)
    (bit : UInt32) : Table K (Finset UInt32) :=
  bitmaps.insert key (insert bit ((bitmaps.lookup key).getD ∅))

/-- Take one bit out of the bitmap of a key; an empty bitmap is dropped. -/
def clearBit {K : Type} [DecidableEq K] (bitmaps : Table K (Finset UInt32)) (key : K)
    (bit : UInt32) : Table K (Finset UInt32) :=
  match bitmaps.lookup key with
  | none => bitmaps
  | some bits =>
      let left := bits.erase bit
      if left = ∅ then bitmaps.erase key else bitmaps.insert key left

/-- Drop a memory from the list of an entity; an empty list is dropped. -/
def forgetEntity (memory : MemoryId) (byEntity : Table EntityId (List MemoryId))
    (entity : EntityId) : Table EntityId (List MemoryId) :=
  match byEntity.lookup entity with
  | none => byEntity
  | some ids =>
      let left := ids.filter (· ≠ memory)
      if left.isEmpty then byEntity.erase entity else byEntity.insert entity left

def indexMemory (snap : GraphSnapshot) (memory : Memory) : GraphSnapshot :=
  { snap with
    byEntity := memory.context.entities.foldl
      (fun byEntity entity => byEntity.push entity memory.id) snap.byEntity
    byType := setBit snap.byType memory.memoryType (lsb32 memory.id)
    byTag := memory.tags.foldl (fun byTag tag => setBit byTag tag (lsb32 memory.id)) snap.byTag }

def removeMemoryIndexes (snap : GraphSnapshot) (memory : Memory) : GraphSnapshot :=
  { snap with
    byEntity := memory.context.entities.foldl (forgetEntity memory.id) snap.byEntity
    byType := clearBit snap.byType memory.memoryType (lsb32 memory.id)
    byTag := memory.tags.foldl (fun byTag tag => clearBit byTag tag (lsb32 memory.id))
      snap.byTag }

/-! ## Rows -/

/-- Insert a memory, in the place of the one with its identity if there is one. -/
def insertMemory (snap : GraphSnapshot) (m : Memory) : GraphSnapshot :=
  match snap.byId.lookup m.id with
  | some ix =>
      let cleared := match snap.petgraph.nodeWeight ix with
        | some prior => snap.removeMemoryIndexes prior
        | none => snap
      let indexed := cleared.indexMemory m
      { indexed with petgraph := indexed.petgraph.setNodeWeight ix m }
  | none =>
      let ix := snap.petgraph.nodes.next
      let indexed := { snap with petgraph := snap.petgraph.addNode m }.indexMemory m
      { indexed with byId := indexed.byId.insert m.id ix }

/-- Remove a memory with the relationships at it. -/
def removeMemory (snap : GraphSnapshot) (id : MemoryId) : GraphSnapshot :=
  match snap.byId.lookup id with
  | none => snap
  | some ix =>
      let unnamed := { snap with byId := snap.byId.erase id }
      let cleared := match unnamed.petgraph.nodeWeight ix with
        | some m => unnamed.removeMemoryIndexes m
        | none => unnamed
      let incident := (cleared.petgraph.outgoing ix ++ cleared.petgraph.incoming ix).filterMap
        cleared.petgraph.edgeWeight
      { cleared with
        byRelId := incident.foldl (fun byRelId r => byRelId.erase r.id) cleared.byRelId
        petgraph := cleared.petgraph.removeNode ix }

/-- Insert a relationship between memories that are present. One with its identity
keeps its place in the graph and takes the new row. -/
def insertRelationship (snap : GraphSnapshot) (r : Relationship) : GraphSnapshot :=
  match snap.byId.lookup r.source, snap.byId.lookup r.target with
  | some source, some target =>
      let existing := (snap.byRelId.lookup r.id).filter fun eid =>
        (snap.petgraph.edgeWeight eid).isSome
      match existing with
      | some eid => { snap with petgraph := snap.petgraph.setEdgeWeight eid r }
      | none =>
          { snap with
            petgraph := snap.petgraph.addEdge source target r
            byRelId := snap.byRelId.insert r.id snap.petgraph.edges.next }
  | _, _ => snap

def removeRelationship (snap : GraphSnapshot) (id : RelationshipId) : GraphSnapshot :=
  match snap.byRelId.lookup id with
  | none => snap
  | some eid =>
      { snap with
        byRelId := snap.byRelId.erase id
        petgraph := snap.petgraph.removeEdge eid }

end GraphSnapshot

/-! ## Deltas -/

/-- One change to a snapshot. -/
inductive SnapshotDelta where
  | upsertMemory (memory : Memory)
  | deleteMemory (id : MemoryId)
  | upsertRelationship (relationship : Relationship)
  | deleteRelationship (id : RelationshipId)
  | advanceBackendLsn (lsn : ℕ)
  | advanceLocalLsn (lsn : ℕ)
deriving DecidableEq

namespace SnapshotDelta

def apply (snapshot : GraphSnapshot) : SnapshotDelta → GraphSnapshot
  | .upsertMemory memory => snapshot.insertMemory memory
  | .deleteMemory id => snapshot.removeMemory id
  | .upsertRelationship relationship => snapshot.insertRelationship relationship
  | .deleteRelationship id => snapshot.removeRelationship id
  | .advanceBackendLsn lsn => { snapshot with lastBackendLsn := max snapshot.lastBackendLsn lsn }
  | .advanceLocalLsn lsn => { snapshot with lastLocalLsn := max snapshot.lastLocalLsn lsn }

/-- Apply a list of changes in order. -/
def applyAll (snapshot : GraphSnapshot) (delta : List SnapshotDelta) : GraphSnapshot :=
  delta.foldl apply snapshot

end SnapshotDelta

end Exocortex
