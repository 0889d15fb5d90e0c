import Exocortex.Cache.Admission
import Exocortex.Cache.Representation
import Exocortex.Library.Scans

/-!
# Searching a snapshot

`LocalCache.search` scans the arena of search keys for a query in lower case. A place of the arena
is in the slot that begins last before it, found by a binary search of the offsets; the hit is the
memory at the node of that slot, if the reader sees it. A slot is passed over when the hit before
was in it too.

The score of a hit is computed in floating point; it and the comparison of scores are parameters.

`Keyed` says which keys the arena holds: that of every row once, and blanks. Every change keeps it
while the arena is shorter than 2³² bytes (`Searchable.apply`).
-/

namespace Exocortex

open Library

/-- The slot in which a place of the arena lies. -/
def SearchKeys.slotOf (keys : SearchKeys) (pos : ℕ) : ℕ :=
  match binarySearch keys.searchOffsets (UInt32.ofNat pos) with
  | .ok slot => slot
  | .error slot => slot - 1

section Scores

variable {Score : Type} (score : GraphSnapshot → ℕ → Memory → Score)
  (partialCmp : Score → Score → Option Ordering)

namespace CachedSnapshot

/-- The hit of a slot. -/
def hitAt (snap : CachedSnapshot) (vc : VisibilityContext) (slot : ℕ) : Option (Memory × Score) :=
  snap.searchNodes[slot]?.bind fun ix => (snap.petgraph.nodeWeight ix).bind fun m =>
    if memoryVisible m vc then some (m, score snap.toGraphSnapshot ix m) else none

/-- The scan, for at most so many rounds. -/
def scan (snap : CachedSnapshot) (q : List UInt8) (limit : ℕ) (vc : VisibilityContext) :
    ℕ → ℕ → Option ℕ → List (Memory × Score) → List (Memory × Score)
  | 0, _, _, hits => hits
  | rounds + 1, start, lastIdx, hits =>
      match firstOccurrence q (snap.searchArena.drop start) with
      | none => hits
      | some rel =>
          let pos := start + rel
          let slot := snap.slotOf pos
          let hit := if lastIdx = some slot then none else snap.hitAt score vc slot
          let hits := hits ++ hit.toList
          if hit.isSome ∧ limit * 4 ≤ hits.length then hits
          else if snap.searchArena.length ≤ pos + q.length then hits
          else scan snap q limit vc rounds (pos + q.length) (some slot) hits

/-- The better score comes first; hits whose scores do not compare keep their order. -/
def rank (hits : List (Memory × Score)) : List (Memory × Score) :=
  hits.mergeSort fun a b => ((partialCmp b.2 a.2).getD .eq).isLE

variable (toLowercase : String → String)

/-- Each round of the scan goes on at least one byte further. -/
def search (snap : CachedSnapshot) (query : String) (limit : ℕ) (vc : VisibilityContext) :
    List (Memory × Score) :=
  if limit = 0 then []
  else
    let q := (toLowercase query).toUTF8.toList
    if q = [] then []
    else (rank partialCmp
      (snap.scan score q limit vc (snap.searchArena.length + 1) 0 none [])).take limit

end CachedSnapshot

def LocalCache.search (toLowercase : String → String) (cache : LocalCache) (org query : String)
    (limit : ℕ) (vc : VisibilityContext) : List (Memory × Score) :=
  match cache.graphs.lookup org with
  | none => []
  | some snap => snap.search score partialCmp toLowercase query limit vc

end Scores

/-! ## What the arena holds -/

namespace SearchKeys

/-- The search keys are so many blocks, each with its node. -/
structure Holds (keys : SearchKeys) (slots : List (ℕ × List UInt8)) : Prop where
  arena : keys.searchArena = (slots.map Prod.snd).flatten
  offsets : keys.searchOffsets = (starts 0 (slots.map Prod.snd)).map UInt32.ofNat
  nodes : keys.searchNodes = slots.map Prod.fst

/-- A block of blanks, of the length of another one. -/
def blanked (slot : ℕ × List UInt8) : ℕ × List UInt8 :=
  (slot.1, List.replicate slot.2.length blank)

variable {keys : SearchKeys} {slots : List (ℕ × List UInt8)}

theorem holds_empty : empty.Holds [] := ⟨rfl, rfl, rfl⟩

theorem Holds.push (holds : keys.Holds slots) (key : List UInt8) (ix : ℕ) :
    (keys.push key ix).Holds (slots ++ [(ix, key ++ [newline])]) where
  arena := by
    simp [SearchKeys.push, holds.arena]
  offsets := by
    simp [SearchKeys.push, holds.offsets, holds.arena, starts_append, starts]
  nodes := by
    simp [SearchKeys.push, holds.nodes]

variable {slot : ℕ × List UInt8}

/-- Blanking a slot replaces its block. -/
theorem Holds.blankSlot {front back : List (ℕ × List UInt8)}
    (holds : keys.Holds (front ++ slot :: back)) (some_ : 0 < slot.2.length)
    (small : keys.searchArena.length < 2 ^ 32) :
    (keys.blankSlot front.length).Holds (front ++ blanked slot :: back) := by
  have blocks : (front ++ slot :: back).map Prod.snd =
      front.map Prod.snd ++ slot.2 :: back.map Prod.snd := by
    rw [List.map_append, List.map_cons]
  have arena := holds.arena
  have offsets := holds.offsets
  rw [blocks] at arena offsets
  have length : keys.searchArena.length = (front.map Prod.snd).flatten.length + slot.2.length +
      (back.map Prod.snd).flatten.length := by
    rw [arena, List.flatten_append, List.flatten_cons, List.length_append, List.length_append,
      Nat.add_assoc]
  have begins : (keys.searchOffsets[front.length]?.getD 0).toNat =
      (front.map Prod.snd).flatten.length := by
    have place := getElem?_starts 0 (front.map Prod.snd) slot.2 (back.map Prod.snd)
    rw [List.length_map] at place
    rw [offsets, List.getElem?_map, place, Option.map_some, Option.getD_some, Nat.zero_add]
    exact UInt32.toNat_ofNat_of_lt' (lt_of_le_of_lt (by omega) small)
  have ends : (keys.searchOffsets[front.length + 1]?.getD
      (UInt32.ofNat keys.searchArena.length)).toNat =
        (front.map Prod.snd).flatten.length + slot.2.length := by
    have place := getElem?_starts_succ 0 (front.map Prod.snd) slot.2 (back.map Prod.snd)
    rw [List.length_map, Nat.zero_add, Nat.zero_add, ← arena] at place
    rw [offsets, List.getElem?_map, Option.getD_map, place]
    exact UInt32.toNat_ofNat_of_lt' (lt_of_le_of_lt (by omega) small)
  have shape : keys.blankSlot front.length = { keys with
      searchArena := blankSearchKeyRange keys.searchArena (front.map Prod.snd).flatten.length
        ((front.map Prod.snd).flatten.length + slot.2.length) } := by
    rw [SearchKeys.blankSlot, begins, ends, if_pos ⟨by omega, by omega⟩]
  have sizes : starts 0 ((front ++ blanked slot :: back).map Prod.snd) =
      starts 0 (front.map Prod.snd ++ slot.2 :: back.map Prod.snd) := by
    rw [List.map_append, List.map_cons, starts_append, starts_append, starts, starts, blanked,
      List.length_replicate]
  rw [shape]
  refine ⟨?_, ?_, ?_⟩
  · dsimp only
    rw [List.map_append, List.map_cons, List.flatten_append, List.flatten_cons, blanked, arena,
      blankSearchKeyRange, Nat.add_sub_cancel_left, List.flatten_append, List.flatten_cons,
      List.take_left, List.drop_length_add_append, List.drop_left, List.append_assoc]
  · rw [sizes]
    exact offsets
  · rw [List.map_append, List.map_cons, blanked]
    exact holds.nodes.trans (List.map_append ..)

theorem Holds.blankNode (holds : keys.Holds slots) (some_ : ∀ slot ∈ slots, 0 < slot.2.length)
    (small : keys.searchArena.length < 2 ^ 32) (ix : ℕ) :
    (keys.blankNode ix).Holds
      (slots.map fun slot => if slot.1 = ix then blanked slot else slot) := by
  have along : ∀ (back front : List (ℕ × List UInt8)) (keys : SearchKeys),
      keys.Holds (front ++ back) → (∀ slot ∈ back, 0 < slot.2.length) →
      keys.searchArena.length < 2 ^ 32 →
      ((List.range' front.length back.length).foldl
        (fun keys slot => if keys.searchNodes[slot]? = some ix then keys.blankSlot slot else keys)
        keys).Holds (front ++ back.map fun slot => if slot.1 = ix then blanked slot else slot) := by
    intro back
    induction back with
    | nil => exact fun front keys holds _ _ => holds
    | cons slot back ih =>
        intro front keys holds some_ small
        obtain ⟨first, rest⟩ := List.forall_mem_cons.mp some_
        have node : keys.searchNodes[front.length]? = some slot.1 := by
          rw [holds.nodes, List.getElem?_map, List.getElem?_append_right (Nat.le_refl _),
            Nat.sub_self]
          rfl
        rw [List.length_cons, List.range'_succ, List.foldl_cons, node, List.map_cons,
          List.append_cons]
        have next (slot' : ℕ × List UInt8) :
            front.length + 1 = (front ++ [slot']).length := by
          rw [List.length_append, List.length_singleton]
        by_cases same : slot.1 = ix
        · rw [if_pos (congrArg some same), if_pos same, next (blanked slot)]
          refine ih _ _ ?_ rest ?_
          · rw [← List.append_cons]
            exact holds.blankSlot first small
          · rw [CachedSnapshot.length_blankSlot]
            exact small
        · rw [if_neg (fun eq => same (Option.some.inj eq)), if_neg same, next slot]
          refine ih _ _ ?_ rest small
          rw [← List.append_cons]
          exact holds
  have length : keys.searchNodes.length = slots.length := by
    rw [holds.nodes, List.length_map]
  rw [SearchKeys.blankNode, List.range_eq_range', length]
  exact along slots [] keys holds some_ small

/-- A block of blanks. -/
def Dead (block : List UInt8) : Prop := ∃ n, block = List.replicate (n + 1) blank

theorem dead_blanked (some_ : 0 < slot.2.length) : Dead (blanked slot).2 := by
  refine ⟨slot.2.length - 1, ?_⟩
  rw [Nat.sub_add_cancel some_]
  rfl

variable (toLowercase : String → String)

/-- The blocks are the keys of the rows, each once, and blanks. -/
structure Keyed (keys : SearchKeys) (node : ℕ → Option Memory) (slots : List (ℕ × List UInt8)) :
    Prop where
  holds : keys.Holds slots
  of_slot : ∀ slot ∈ slots, Dead slot.2 ∨
    ∃ m, node slot.1 = some m ∧ slot.2 = searchKey toLowercase m ++ [newline]
  of_row : ∀ ix m, node ix = some m → (ix, searchKey toLowercase m ++ [newline]) ∈ slots
  once : slots.Pairwise fun slot other => slot.1 = other.1 → Dead slot.2 ∨ Dead other.2

variable {toLowercase} {node later : ℕ → Option Memory}

theorem Keyed.nonempty (keyed : keys.Keyed toLowercase node slots) :
    ∀ slot ∈ slots, 0 < slot.2.length := by
  intro slot listed
  rcases keyed.of_slot slot listed with ⟨n, same⟩ | ⟨m, -, same⟩
  · rw [same, List.length_replicate]
    exact Nat.succ_pos n
  · rw [same, List.length_append]
    exact Nat.succ_pos _

theorem keyed_empty : empty.Keyed toLowercase (fun _ => none) [] where
  holds := holds_empty
  of_slot _ listed := absurd listed List.not_mem_nil
  of_row _ _ impossible := by cases impossible
  once := List.Pairwise.nil

/-- The key of a new row. -/
theorem Keyed.push (keyed : keys.Keyed toLowercase node slots) {ix : ℕ} (m : Memory)
    (vacant : node ix = none)
    (nodes : ∀ other, later other = if other = ix then some m else node other) :
    (keys.push (searchKey toLowercase m) ix).Keyed toLowercase later
      (slots ++ [(ix, searchKey toLowercase m ++ [newline])]) where
  holds := keyed.holds.push _ ix
  of_slot slot listed := by
    rcases List.mem_append.mp listed with old | new
    · rcases keyed.of_slot slot old with dead | ⟨m', found, same⟩
      · exact .inl dead
      · refine .inr ⟨m', ?_, same⟩
        rw [nodes, if_neg, found]
        rintro rfl
        rw [vacant] at found
        cases found
    · obtain rfl := List.mem_singleton.mp new
      exact .inr ⟨m, by rw [nodes, if_pos rfl], rfl⟩
  of_row other m' found := by
    rw [nodes] at found
    split at found
    · next same =>
        cases found
        rw [same]
        exact List.mem_append_right _ (List.mem_singleton_self _)
    · exact List.mem_append_left _ (keyed.of_row other m' found)
  once := by
    refine List.pairwise_append.mpr ⟨keyed.once, List.pairwise_singleton _ _, ?_⟩
    intro slot listed new also same
    obtain rfl := List.mem_singleton.mp also
    rcases keyed.of_slot slot listed with dead | ⟨m', found, _⟩
    · exact .inl dead
    · rw [same, vacant] at found
      cases found

/-- The blanks of a row that leaves. -/
theorem Keyed.blankNode (keyed : keys.Keyed toLowercase node slots)
    (small : keys.searchArena.length < 2 ^ 32) {ix : ℕ}
    (nodes : ∀ other, later other = if other = ix then none else node other) :
    (keys.blankNode ix).Keyed toLowercase later
      (slots.map fun slot => if slot.1 = ix then blanked slot else slot) where
  holds := keyed.holds.blankNode keyed.nonempty small ix
  of_slot slot listed := by
    obtain ⟨old, there, rfl⟩ := List.mem_map.mp listed
    split
    · exact .inl (dead_blanked (keyed.nonempty old there))
    · next apart =>
        rcases keyed.of_slot old there with dead | ⟨m, found, same⟩
        · exact .inl dead
        · exact .inr ⟨m, by rw [nodes, if_neg apart, found], same⟩
  of_row other m found := by
    rw [nodes] at found
    split at found
    · cases found
    · next apart =>
        refine List.mem_map.mpr ⟨_, keyed.of_row other m found, ?_⟩
        rw [if_neg apart]
  once := by
    refine List.pairwise_map.mpr (keyed.once.imp_of_mem fun {slot other} listed also apart => ?_)
    intro same
    have nodes_ (slot : ℕ × List UInt8) :
        (if slot.1 = ix then blanked slot else slot).1 = slot.1 := by
      split <;> rfl
    rw [nodes_, nodes_] at same
    split
    · exact .inl (dead_blanked (keyed.nonempty slot listed))
    · split
      · exact .inr (dead_blanked (keyed.nonempty other also))
      · exact apart same

theorem Keyed.congr (keyed : keys.Keyed toLowercase node slots)
    (nodes : ∀ ix, later ix = node ix) : keys.Keyed toLowercase later slots :=
  funext nodes ▸ keyed

end SearchKeys

namespace CachedSnapshot

variable (toLowercase : String → String)

/-- A snapshot whose arena holds the keys of its rows. -/
structure Searchable (snap : CachedSnapshot) : Prop where
  consistent : snap.Consistent
  keyed : ∃ slots, snap.toSearchKeys.Keyed toLowercase snap.petgraph.nodes.lookup slots

variable {toLowercase} {snap : CachedSnapshot}

/-- The arena that is packed anew holds the keys of the rows. -/
theorem keyed_rows (snap : CachedSnapshot) :
    ∃ slots, (snap.rows.foldl
      (fun (keys : SearchKeys) row => keys.push (searchKey toLowercase row.2) row.1)
        SearchKeys.empty).Keyed toLowercase snap.petgraph.nodes.lookup slots := by
  have along (bound : ℕ) : ∃ slots, (((List.range bound).filterMap fun ix =>
        (snap.petgraph.nodeWeight ix).map fun m => (ix, m)).foldl
      (fun (keys : SearchKeys) row => keys.push (searchKey toLowercase row.2) row.1)
        SearchKeys.empty).Keyed toLowercase
      (fun ix => if ix < bound then snap.petgraph.nodeWeight ix else none) slots := by
    induction bound with
    | zero => exact ⟨[], SearchKeys.keyed_empty.congr fun ix => if_neg (Nat.not_lt_zero ix)⟩
    | succ bound ih =>
        obtain ⟨slots, keyed⟩ := ih
        rw [List.range_succ, List.filterMap_append, List.foldl_append]
        cases found : snap.petgraph.nodeWeight bound with
        | none =>
            simp only [List.filterMap_cons, found, Option.map_none, List.filterMap_nil,
              List.foldl_nil]
            refine ⟨slots, keyed.congr fun ix => ?_⟩
            rcases Nat.lt_trichotomy ix bound with below | rfl | above
            · rw [if_pos (by omega), if_pos below]
            · rw [if_pos (Nat.lt_succ_self _), if_neg (Nat.lt_irrefl _), found]
            · rw [if_neg (by omega), if_neg (by omega)]
        | some m =>
            simp only [List.filterMap_cons, found, Option.map_some, List.filterMap_nil,
              List.foldl_cons, List.foldl_nil]
            refine ⟨_, keyed.push m (if_neg (Nat.lt_irrefl _)) fun other => ?_⟩
            rcases Nat.lt_trichotomy other bound with below | rfl | above
            · rw [if_pos (by omega), if_neg (by omega), if_pos below]
            · rw [if_pos (Nat.lt_succ_self _), if_pos rfl, found]
            · rw [if_neg (by omega), if_neg (by omega), if_neg (by omega)]
  obtain ⟨slots, keyed⟩ := along snap.petgraph.nodes.bound
  refine ⟨slots, keyed.congr fun ix => ?_⟩
  split
  · rfl
  · next beyond =>
      exact AList.lookup_eq_none.mpr fun present =>
        beyond (snap.petgraph.nodes.cells_below ix present)

section Searchable

variable (searchable : snap.Searchable toLowercase)
include searchable

theorem Searchable.compact :
    (snap.compactSearchIndexIfNeeded toLowercase).Searchable toLowercase := by
  refine ⟨compact_rows toLowercase snap ▸ searchable.consistent.congr rfl rfl rfl, ?_⟩
  rw [compact_rows]
  unfold compactSearchIndexIfNeeded
  split
  · exact keyed_rows snap
  · exact searchable.keyed

theorem Searchable.putMemory (small : snap.searchArena.length < 2 ^ 32) (m : Memory) :
    (snap.putMemory toLowercase m).Searchable toLowercase := by
  refine ⟨putMemory_rows toLowercase m ▸ searchable.consistent.insertMemory m, ?_⟩
  obtain ⟨slots, keyed⟩ := searchable.keyed
  cases indexed : snap.byId.lookup m.id with
  | none =>
      rw [CachedSnapshot.putMemory, indexed]
      exact ⟨_, keyed.push m snap.petgraph.nodes.lookup_next
        (snap.petgraph.nodes.lookup_push m)⟩
  | some ix =>
      obtain ⟨prior, found, same⟩ := searchable.consistent.node_of_id m.id ix indexed
      have there : snap.petgraph.nodeWeight ix = some prior := found
      rw [CachedSnapshot.putMemory, indexed]
      simp only [there]
      refine ⟨_, (keyed.blankNode small fun _ => rfl).push m (if_pos rfl) fun other => ?_⟩
      refine (snap.petgraph.nodes.lookup_set found m other).trans ?_
      split <;> rfl

theorem Searchable.insertMemory (small : snap.searchArena.length < 2 ^ 32) (m : Memory) :
    (snap.insertMemory toLowercase m).Searchable toLowercase := by
  rw [insertMemory_eq]
  exact (searchable.putMemory small m).compact

theorem Searchable.removeMemory (small : snap.searchArena.length < 2 ^ 32) (id : MemoryId) :
    (snap.removeMemory toLowercase id).Searchable toLowercase := by
  have rows := removeMemory_rows toLowercase snap id
  have kept := searchable.consistent.removeMemory id
  refine ⟨rows ▸ kept, ?_⟩
  rw [rows]
  obtain ⟨slots, keyed⟩ := searchable.keyed
  cases indexed : snap.byId.lookup id with
  | none =>
      rw [GraphSnapshot.removeMemory_absent indexed, CachedSnapshot.removeMemory, indexed]
      exact ⟨slots, keyed⟩
  | some ix =>
      obtain ⟨prior, found, same⟩ := searchable.consistent.node_of_id id ix indexed
      have there : snap.petgraph.nodeWeight ix = some prior := found
      obtain ⟨_, nodes, _⟩ := searchable.consistent.removeMemory_rows indexed
      rw [CachedSnapshot.removeMemory, indexed]
      simp only [there]
      exact ⟨_, keyed.blankNode small nodes⟩

theorem Searchable.edges {after : CachedSnapshot} (consistent : after.Consistent)
    (nodes : after.petgraph.nodes = snap.petgraph.nodes)
    (keys : after.toSearchKeys = snap.toSearchKeys) : after.Searchable toLowercase := by
  refine ⟨consistent, ?_⟩
  rw [keys, nodes]
  exact searchable.keyed

end Searchable

theorem edges_insertRelationship (snap : CachedSnapshot) (r : Relationship) :
    (snap.insertRelationship r).petgraph.nodes = snap.petgraph.nodes ∧
      (snap.insertRelationship r).toSearchKeys = snap.toSearchKeys := by
  unfold CachedSnapshot.insertRelationship
  split
  · dsimp only
    split
    · next eid _ =>
        refine ⟨?_, rfl⟩
        dsimp only
        unfold StableGraph.setEdgeWeight
        split <;> rfl
    · exact ⟨rfl, rfl⟩
  · exact ⟨rfl, rfl⟩

theorem edges_removeRelationship (snap : CachedSnapshot) (id : RelationshipId) :
    (snap.removeRelationship id).petgraph.nodes = snap.petgraph.nodes ∧
      (snap.removeRelationship id).toSearchKeys = snap.toSearchKeys := by
  unfold CachedSnapshot.removeRelationship
  split <;> exact ⟨rfl, rfl⟩

/-- **Every change of a short enough arena keeps it in step with the rows.** -/
theorem Searchable.apply (searchable : snap.Searchable toLowercase)
    (small : snap.searchArena.length < 2 ^ 32) (delta : SnapshotDelta) :
    (snap.apply toLowercase delta).Searchable toLowercase := by
  have consistent := searchable.consistent
  cases delta with
  | upsertMemory m => exact searchable.insertMemory small m
  | deleteMemory id => exact searchable.removeMemory small id
  | upsertRelationship r =>
      have kept := edges_insertRelationship snap r
      refine searchable.edges ?_ kept.1 kept.2
      exact insertRelationship_rows snap r ▸ consistent.insertRelationship r
  | deleteRelationship id =>
      have kept := edges_removeRelationship snap id
      refine searchable.edges ?_ kept.1 kept.2
      exact removeRelationship_rows snap id ▸ consistent.removeRelationship id
  | advanceBackendLsn lsn | advanceLocalLsn lsn =>
      exact ⟨consistent.congr rfl rfl rfl, searchable.keyed⟩

theorem searchable_empty : (empty : CachedSnapshot).Searchable toLowercase :=
  ⟨GraphSnapshot.consistent_empty, [], SearchKeys.keyed_empty.congr fun _ => rfl⟩

/-- The arena is shorter than 2³² bytes after every part of a list of changes. -/
def Short (toLowercase : String → String) (deltas : List SnapshotDelta) : Prop :=
  (changes toLowercase).Always (fun snap => snap.searchArena.length < 2 ^ 32) empty deltas

theorem searchable_of_short {deltas : List SnapshotDelta} (short : Short toLowercase deltas) :
    (applyAll toLowercase empty deltas).Searchable toLowercase := by
  have along : ∀ (deltas : List SnapshotDelta) (snap : CachedSnapshot),
      snap.Searchable toLowercase →
      (changes toLowercase).Always (fun snap => snap.searchArena.length < 2 ^ 32) snap deltas →
      (applyAll toLowercase snap deltas).Searchable toLowercase := by
    intro deltas
    induction deltas with
    | nil => exact fun snap searchable _ => searchable
    | cons delta deltas ih =>
        intro snap searchable short
        obtain ⟨here, later⟩ := Machine.always_cons.mp short
        exact ih _ (searchable.apply here delta) later
  exact along deltas empty searchable_empty short

end CachedSnapshot

end Exocortex
