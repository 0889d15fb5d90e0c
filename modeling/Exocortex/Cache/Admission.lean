import Exocortex.Cache.Sync
import Exocortex.Cache.SearchIndex
import Exocortex.Library.Lru

/-!
# Which graphs a cache keeps

`LocalCache` is the cache of a node: the graphs of some organizations, and the two queues by which
it decides which of them to keep within a budget of bytes. An organization enters the first queue,
and the second one when it is met again, or is remembered as one that had to leave.

`CacheCall` has the calls that change the cache. What they read of the storage and which graph a
batch of events is for (the first in the order of a hash map) are part of the call. That a graph is
published by catching up a retired buffer and not by a copy is left out here: the two agree.
-/

namespace Exocortex

open Library

/-- The queues of organizations, and the bytes they are held to have. -/
structure TwoQState where
  a1in : List String
  am : Lru String Unit
  a1out : Lru String Unit
  bytes : ℕ

namespace TwoQState

/-- How many organizations the queues hold: a fourth and a half of the budget, at a kilobyte a
graph. -/
def entryBudget (total : ℕ) : ℕ × ℕ :=
  let entries := max (total / 1024) 8
  (entries / 4, entries / 2)

theorem entryBudget_positive (total : ℕ) :
    0 < (entryBudget total).1 ∧ 0 < (entryBudget total).2 := by
  have least : 8 ≤ max (total / 1024) 8 := le_max_right _ _
  constructor
  · exact Nat.div_pos (le_trans (by decide) least) (by decide)
  · exact Nat.div_pos (le_trans (by decide) least) (by decide)

end TwoQState

/-- The graphs of the organizations, the queues, and the budget. -/
structure LocalCache where
  graphs : Table String CachedSnapshot
  tq : TwoQState
  budget : ℕ

/-- What a storage answers when it is asked for rows. -/
structure RowReplies where
  getMemories : List MemoryId → Except StorageError (List Memory)
  getRelationships : List RelationshipId → Except StorageError (List Relationship)

/-- The changes that a batch of events comes to. -/
def batchDelta (storage : RowReplies) (invalidations : List Invalidation) :
    Except StorageError (List SnapshotDelta) := do
  let memoryIds := upsertedMemoryIds invalidations
  let relationshipIds := upsertedRelationshipIds invalidations
  let memories ← if memoryIds.isEmpty then pure [] else storage.getMemories memoryIds
  let relationships ←
    if relationshipIds.isEmpty then pure [] else storage.getRelationships relationshipIds
  let deltas ← invalidations.mapM (snapshotDelta (Table.collect (·.id) memories)
    (Table.collect (·.id) relationships))
  pure deltas.flatten

namespace LocalCache

def new (budget : ℕ) : LocalCache where
  graphs := ∅
  tq :=
    { a1in := []
      am := .empty (TwoQState.entryBudget budget).2 (TwoQState.entryBudget_positive budget).2
      a1out := .empty (TwoQState.entryBudget budget).1 (TwoQState.entryBudget_positive budget).1
      bytes := 0 }
  budget := budget

/-! ## Admission -/

/-- Put an organization in a queue. -/
def enqueue (tq : TwoQState) (org : String) : TwoQState :=
  if (tq.am.peek org).isSome then { tq with am := tq.am.put org () }
  else if (tq.a1out.peek org).isSome then
    { tq with
      am := tq.am.put org ()
      a1out := tq.a1out.pop org }
  else if org ∈ tq.a1in then
    { tq with
      a1in := tq.a1in.filter (· ≠ org)
      am := tq.am.put org () }
  else { tq with a1in := tq.a1in ++ [org] }

/-- Drop the graph of an organization that has left its queue. -/
def drop (cache : LocalCache) (evicted : String) : LocalCache :=
  { cache with
    tq := { cache.tq with
      bytes := match cache.graphs.lookup evicted with
        | none => cache.tq.bytes
        | some graph => cache.tq.bytes - graph.estBytes }
    graphs := cache.graphs.erase evicted }

/-- One round of making room: nothing within the budget, or with both queues empty. -/
def evictRound (cache : LocalCache) : LocalCache :=
  if cache.tq.bytes ≤ cache.budget then cache
  else
    match cache.tq.a1in with
    | evicted :: a1in =>
        { cache with tq := { cache.tq with
          a1in := a1in
          a1out := cache.tq.a1out.put evicted () } }.drop evicted
    | [] =>
        match cache.tq.am.popLru with
        | none => cache
        | some (evicted, am) => { cache with tq := { cache.tq with am := am } }.drop evicted.1

/-- Make room. It is over after as many rounds as there are organizations in the queues. -/
def evictAll (cache : LocalCache) : LocalCache :=
  evictRound^[cache.tq.a1in.length + cache.tq.am.entries.length] cache

def admitOrg (cache : LocalCache) (org : String) : LocalCache :=
  { cache with tq := enqueue cache.tq org }.evictAll

/-! ## Publications -/

/-- Count a graph that was replaced. -/
def recount (tq : TwoQState) (oldBytes newBytes : ℕ) : TwoQState :=
  { tq with
    bytes := if oldBytes ≤ newBytes then tq.bytes + (newBytes - oldBytes)
      else tq.bytes - (oldBytes - newBytes) }

/-- The graph of an organization, or a new one. -/
def graphOf (cache : LocalCache) (org : String) : CachedSnapshot :=
  (cache.graphs.lookup org).getD .empty

/-- The graphs, with one for an organization. -/
def entry (cache : LocalCache) (org : String) : Table String CachedSnapshot :=
  match cache.graphs.lookup org with
  | some _ => cache.graphs
  | none => cache.graphs.insert org .empty

/-- Publish a graph. -/
def publish (cache : LocalCache) (org : String) (snapshot : CachedSnapshot) : LocalCache :=
  let oldBytes := ((cache.graphs.lookup org).map (·.estBytes)).getD 0
  { cache with
    tq := { cache.tq with bytes := cache.tq.bytes - oldBytes + snapshot.estBytes }
    graphs := cache.graphs.insert org snapshot }.admitOrg org

/-- The writer drops the graph of an organization. -/
def evict (cache : LocalCache) (org : String) : LocalCache :=
  { cache with graphs := cache.graphs.erase org }

section Lowercase

variable (toLowercase : String → String)

/-- Publish the graph of an organization with some changes. -/
def publishDelta (cache : LocalCache) (org : String) (delta : List SnapshotDelta) : LocalCache :=
  let current := cache.graphOf org
  let next := CachedSnapshot.applyAll toLowercase current delta
  { cache with
    tq := recount cache.tq current.estBytes next.estBytes
    graphs := cache.graphs.insert org next }.admitOrg org

/-- Apply a batch of events to the graph that it finds, if it finds one. -/
def applyBatch (cache : LocalCache) (org : String) (storage : RowReplies)
    (invalidations : List Invalidation) : LocalCache :=
  match cache.graphs.lookup org with
  | none => cache
  | some _ =>
      match batchDelta storage invalidations with
      | .error _ => cache
      | .ok delta => if delta.isEmpty then cache else cache.publishDelta toLowercase org delta

/-- Apply rows that were written locally. The graph is there from then on, whether or not the rows
are new. -/
def applyLocal (cache : LocalCache) (org : String) (memories : List Memory)
    (relationships : List Relationship) (localLsn : ℕ) : LocalCache :=
  let current := cache.graphOf org
  if memories.isEmpty ∧ relationships.isEmpty ∧ localLsn ≤ current.lastLocalLsn then
    { cache with graphs := cache.entry org }
  else
    cache.publishDelta toLowercase org
      (memories.map .upsertMemory ++ relationships.map .upsertRelationship ++
        [.advanceLocalLsn localLsn])

/-- Take in a memory that was read from the storage. -/
def hydrateMemory (cache : LocalCache) (org : String) (memory : Memory) : LocalCache :=
  cache.publishDelta toLowercase org [.upsertMemory memory, .advanceBackendLsn memory.lsn.value]

end Lowercase

end LocalCache

/-- A call that changes the cache. -/
inductive CacheCall where
  | publish (org : String) (snapshot : CachedSnapshot)
  | reseed (org : String) (snapshot : CachedSnapshot)
  | evict (org : String)
  | applyBatch (org : String) (storage : RowReplies) (invalidations : List Invalidation)
  | applyLocal (org : String) (memories : List Memory) (relationships : List Relationship)
      (localLsn : ℕ)
  | hydrateMemory (org : String) (memory : Memory)
  | touchAdmission (org : String)

def LocalCache.call (toLowercase : String → String) (cache : LocalCache) : CacheCall → LocalCache
  | .publish org snapshot => cache.publish org snapshot
  | .reseed org snapshot => cache.publish org snapshot
  | .evict org => cache.evict org
  | .applyBatch org storage invalidations =>
      cache.applyBatch toLowercase org storage invalidations
  | .applyLocal org memories relationships localLsn =>
      cache.applyLocal toLowercase org memories relationships localLsn
  | .hydrateMemory org memory => cache.hydrateMemory toLowercase org memory
  | .touchAdmission org => cache.admitOrg org

end Exocortex
