import Exocortex.Cache.View

/-!
# The search index and the footprint of a snapshot

`CachedSnapshot` is a snapshot with the rest of what the cache keeps in it: the search keys of its
rows, packed into one arena with the offset and the node of each, and the two counters of bytes.

A row that is replaced or removed has its key overwritten with spaces, and the arena is packed
anew once more than half of it is such garbage. The tags are indexed anew on that occasion. On the
rows and the other indexes the four changes are those of `GraphSnapshot`
(`insertMemory_rows`, `removeMemory_rows`, `insertRelationship_rows`, `removeRelationship_rows`).

How a text is put in lower case is a parameter. Where the arena passes 2³² bytes its offsets wrap;
that a range of bytes then may end inside a character, where the program would stop, is left out.
-/

namespace Exocortex

open Library

/-- The search keys of a snapshot: the bytes of the keys one after another, and for each the
offset where it begins and the node it belongs to. -/
structure SearchKeys where
  searchArena : List UInt8
  searchOffsets : List UInt32
  searchNodes : List ℕ

/-- The separator of the keys, and what a dead key is overwritten with. -/
def newline : UInt8 := 10

def blank : UInt8 := 32

/-- Blank a range of bytes. -/
def blankSearchKeyRange (arena : List UInt8) (start stop : ℕ) : List UInt8 :=
  arena.take start ++ List.replicate (stop - start) blank ++ arena.drop stop

namespace SearchKeys

def empty : SearchKeys := ⟨[], [], []⟩

/-- Append a key for a node. -/
def push (keys : SearchKeys) (key : List UInt8) (ix : ℕ) : SearchKeys where
  searchArena := keys.searchArena ++ key ++ [newline]
  searchOffsets := keys.searchOffsets ++ [UInt32.ofNat keys.searchArena.length]
  searchNodes := keys.searchNodes ++ [ix]

/-- Blank the key in a slot, up to where the next one begins. -/
def blankSlot (keys : SearchKeys) (slot : ℕ) : SearchKeys :=
  let start := (keys.searchOffsets[slot]?.getD 0).toNat
  let stop :=
    (keys.searchOffsets[slot + 1]?.getD (UInt32.ofNat keys.searchArena.length)).toNat
  if start < stop ∧ stop ≤ keys.searchArena.length then
    { keys with searchArena := blankSearchKeyRange keys.searchArena start stop }
  else keys

/-- Blank the keys of a node. -/
def blankNode (keys : SearchKeys) (ix : ℕ) : SearchKeys :=
  (List.range keys.searchNodes.length).foldl
    (fun keys slot => if keys.searchNodes[slot]? = some ix then keys.blankSlot slot else keys) keys

end SearchKeys

/-- A snapshot with its search keys and its counters of bytes. -/
structure CachedSnapshot extends GraphSnapshot, SearchKeys where
  searchLiveBytes : ℕ
  estBytes : ℕ

/-- The estimated footprint of a memory. -/
def estimate (m : Memory) : ℕ :=
  512 + m.title.utf8ByteSize + m.content.utf8ByteSize + (m.tags.map (·.utf8ByteSize + 8)).sum

section Lowercase

variable (toLowercase : String → String)

/-- What a memory is searched by: its title and its tags in lower case. -/
def searchKey (m : Memory) : List UInt8 :=
  m.tags.foldl (fun key tag => key ++ [blank] ++ (toLowercase tag).toUTF8.toList)
    (toLowercase m.title).toUTF8.toList

namespace CachedSnapshot

def empty : CachedSnapshot where
  toGraphSnapshot := .empty
  toSearchKeys := .empty
  searchLiveBytes := 0
  estBytes := 0

def indexMemory (snap : CachedSnapshot) (memory : Memory) (ix : ℕ) : CachedSnapshot :=
  { snap with
    toGraphSnapshot := snap.toGraphSnapshot.indexMemory memory
    toSearchKeys := snap.toSearchKeys.push (searchKey toLowercase memory) ix
    searchLiveBytes := snap.searchLiveBytes + ((searchKey toLowercase memory).length + 1) }

def removeMemoryIndexes (snap : CachedSnapshot) (memory : Memory) (ix : ℕ) : CachedSnapshot :=
  { snap with
    toGraphSnapshot := snap.toGraphSnapshot.removeMemoryIndexes memory
    toSearchKeys := snap.toSearchKeys.blankNode ix
    searchLiveBytes := snap.searchLiveBytes - ((searchKey toLowercase memory).length + 1) }

/-- The garbage from which on the arena is packed anew, if it is more than half of it. -/
def minCompactionGarbage : ℕ := 1024

/-- Most of an arena of so many bytes is garbage. -/
def Sparse (arena live : ℕ) : Prop := minCompactionGarbage ≤ arena - live ∧ live * 2 < arena

instance (arena live : ℕ) : Decidable (Sparse arena live) := inferInstanceAs (Decidable (_ ∧ _))

/-- The indices of the rows, in their order, with the rows. -/
def rows (snap : CachedSnapshot) : List (ℕ × Memory) :=
  (List.range snap.petgraph.nodes.bound).filterMap fun ix =>
    (snap.petgraph.nodeWeight ix).map fun m => (ix, m)

def compactSearchIndexIfNeeded (snap : CachedSnapshot) : CachedSnapshot :=
  if Sparse snap.searchArena.length snap.searchLiveBytes then
    { snap with
      toSearchKeys := snap.rows.foldl
        (fun keys row => keys.push (searchKey toLowercase row.2) row.1) .empty
      byTag := snap.rows.foldl (fun byTag row =>
        row.2.tags.foldl (fun byTag tag =>
          GraphSnapshot.setBit byTag tag (lsb32 row.2.id)) byTag) ∅ }
  else snap

/-! ## Rows -/

def insertMemory (snap : CachedSnapshot) (m : Memory) : CachedSnapshot :=
  match snap.byId.lookup m.id with
  | some ix =>
      let cleared := match snap.petgraph.nodeWeight ix with
        | some prior =>
            let cleared := snap.removeMemoryIndexes toLowercase prior ix
            { cleared with estBytes := cleared.estBytes - estimate prior }
        | none => snap
      let counted := { cleared with estBytes := cleared.estBytes + estimate m }
      let indexed := counted.indexMemory toLowercase m ix
      { indexed with
        petgraph := indexed.petgraph.setNodeWeight ix m }.compactSearchIndexIfNeeded toLowercase
  | none =>
      let ix := snap.petgraph.nodes.next
      let added := { snap with
        estBytes := snap.estBytes + estimate m
        petgraph := snap.petgraph.addNode m }
      let indexed := added.indexMemory toLowercase m ix
      { indexed with byId := indexed.byId.insert m.id ix }.compactSearchIndexIfNeeded toLowercase

/-- What is counted for a relationship. -/
def relationshipBytes : ℕ := 256

def removeMemory (snap : CachedSnapshot) (id : MemoryId) : CachedSnapshot :=
  match snap.byId.lookup id with
  | none => snap
  | some ix =>
      let unnamed := { snap with byId := snap.byId.erase id }
      let cleared := match unnamed.petgraph.nodeWeight ix with
        | some m =>
            { unnamed with estBytes := unnamed.estBytes - estimate m }.removeMemoryIndexes
              toLowercase m ix
        | none => unnamed
      let incidentIds := (((cleared.petgraph.outgoing ix ++ cleared.petgraph.incoming ix).filterMap
        cleared.petgraph.edgeWeight).map (·.id)).dedup
      { cleared with
        byRelId := incidentIds.foldl (fun byRelId id => byRelId.erase id) cleared.byRelId
        estBytes := incidentIds.foldl (fun bytes _ => bytes - relationshipBytes) cleared.estBytes
        petgraph := cleared.petgraph.removeNode ix }

def insertRelationship (snap : CachedSnapshot) (r : Relationship) : CachedSnapshot :=
  match snap.byId.lookup r.source, snap.byId.lookup r.target with
  | some source, some target =>
      let existing := (snap.byRelId.lookup r.id).filter fun eid =>
        (snap.petgraph.edgeWeight eid).isSome
      match existing with
      | some eid =>
          { snap with
            estBytes := snap.estBytes - relationshipBytes + relationshipBytes
            petgraph := snap.petgraph.setEdgeWeight eid r }
      | none =>
          { snap with
            estBytes := snap.estBytes + relationshipBytes
            petgraph := snap.petgraph.addEdge source target r
            byRelId := snap.byRelId.insert r.id snap.petgraph.edges.next }
  | _, _ => snap

def removeRelationship (snap : CachedSnapshot) (id : RelationshipId) : CachedSnapshot :=
  match snap.byRelId.lookup id with
  | none => snap
  | some eid =>
      { snap with
        byRelId := snap.byRelId.erase id
        petgraph := snap.petgraph.removeEdge eid
        estBytes :=
          if (snap.petgraph.edgeWeight eid).isSome then snap.estBytes - relationshipBytes
          else snap.estBytes }

/-- One change to a snapshot. -/
def apply (snap : CachedSnapshot) : SnapshotDelta → CachedSnapshot
  | .upsertMemory memory => snap.insertMemory toLowercase memory
  | .deleteMemory id => snap.removeMemory toLowercase id
  | .upsertRelationship relationship => snap.insertRelationship relationship
  | .deleteRelationship id => snap.removeRelationship id
  | .advanceBackendLsn lsn => { snap with lastBackendLsn := max snap.lastBackendLsn lsn }
  | .advanceLocalLsn lsn => { snap with lastLocalLsn := max snap.lastLocalLsn lsn }

def applyAll (snap : CachedSnapshot) (deltas : List SnapshotDelta) : CachedSnapshot :=
  deltas.foldl (apply toLowercase) snap

end CachedSnapshot

end Lowercase

end Exocortex
