import Exocortex.Storage.Announcements
import Exocortex.Storage.Companions
import Exocortex.Storage.Visibility

/-!
# Reading the store

The reads of the store see the current version of a row, its last one: by identity, for a
caller, by a stream over all rows, or by region. A region is a memory type, and a tenant and
a project that may each be left open; the relationships of a region have both ends in it.

A batch leaves its own rows current (`upsertBatchLocked_memory`, `upsertBatchLocked_listed`);
an identity that it does not list keeps its current version, unless the companion of a listed
row is written there (`upsertBatchLocked_unlisted`).
-/

namespace Exocortex

open Library

variable {s : InMemoryStorage} {r : Relationship} {id : RelationshipId} {m : Memory}

namespace InMemoryStorage

/-- The current version of a memory. -/
def currentMemory (s : InMemoryStorage) (id : MemoryId) : Option Memory :=
  (s.memories.history id).getLast?

/-- The current version of a relationship. -/
def currentRelationship (s : InMemoryStorage) (id : RelationshipId) : Option Relationship :=
  (s.rels.history id).getLast?

/-- The current versions, one for each identity. -/
def streamAllMemories (s : InMemoryStorage) : List Memory :=
  s.memories.values.filterMap List.getLast?

def streamAllRelationships (s : InMemoryStorage) : List Relationship :=
  s.rels.values.filterMap List.getLast?

theorem mem_streamAllMemories : m ∈ s.streamAllMemories ↔ ∃ id, s.currentMemory id = some m := by
  simp only [streamAllMemories, List.mem_filterMap, Table.mem_values, currentMemory, Table.history]
  constructor
  · rintro ⟨versions, ⟨id, found⟩, last⟩
    exact ⟨id, by rw [found, Option.getD_some, last]⟩
  · rintro ⟨id, last⟩
    cases found : s.memories.lookup id with
    | none =>
        rw [found] at last
        cases last
    | some versions =>
        rw [found, Option.getD_some] at last
        exact ⟨versions, ⟨id, found⟩, last⟩

theorem mem_streamAllRelationships :
    r ∈ s.streamAllRelationships ↔ ∃ id, s.currentRelationship id = some r := by
  simp only [streamAllRelationships, List.mem_filterMap, Table.mem_values, currentRelationship,
    Table.history]
  constructor
  · rintro ⟨versions, ⟨id, found⟩, last⟩
    exact ⟨id, by rw [found, Option.getD_some, last]⟩
  · rintro ⟨id, last⟩
    cases found : s.rels.lookup id with
    | none =>
        rw [found] at last
        cases last
    | some versions =>
        rw [found, Option.getD_some] at last
        exact ⟨versions, ⟨id, found⟩, last⟩

section Keyed

variable (keyed : Keyed s.rows)
include keyed

theorem Keyed.memories (id : MemoryId) : ∀ m ∈ s.memories.history id, m.id = id :=
  fun m member => RowId.memory.inj (keyed (.memory id) (.memory m) (List.mem_map_of_mem member))

theorem Keyed.relationships (id : RelationshipId) : ∀ r ∈ s.rels.history id, r.id = id :=
  fun r member => RowId.relationship.inj
    (keyed (.relationship id) (.relationship r) (List.mem_map_of_mem member))

theorem Keyed.memory_id {id : MemoryId} (current : s.currentMemory id = some m) : m.id = id :=
  keyed.memories id m (List.mem_of_getLast? current)

theorem Keyed.relationship_id (current : s.currentRelationship id = some r) : r.id = id :=
  keyed.relationships id r (List.mem_of_getLast? current)

/-- With rows under their identities, a streamed memory is the current one of its identity. -/
theorem Keyed.mem_memories : m ∈ s.streamAllMemories ↔ s.currentMemory m.id = some m := by
  rw [mem_streamAllMemories]
  constructor
  · rintro ⟨id, current⟩
    rw [keyed.memory_id current]
    exact current
  · exact fun current => ⟨m.id, current⟩

theorem Keyed.mem_relationships :
    r ∈ s.streamAllRelationships ↔ s.currentRelationship r.id = some r := by
  rw [mem_streamAllRelationships]
  constructor
  · rintro ⟨id, current⟩
    rw [keyed.relationship_id current]
    exact current
  · exact fun current => ⟨r.id, current⟩

theorem Keyed.nodup_memories : (s.streamAllMemories.map Memory.id).Nodup := by
  refine Table.nodup_filterMap_values fun id versions row found last => keyed.memory_id ?_
  rw [currentMemory, Table.history, found]
  exact last

theorem Keyed.nodup_relationships : (s.streamAllRelationships.map Relationship.id).Nodup := by
  refine Table.nodup_filterMap_values fun id versions row found last => keyed.relationship_id ?_
  rw [currentRelationship, Table.history, found]
  exact last

theorem Keyed.run (env : Env) (now : DateTime) (call : Call) :
    Keyed (call.run env now s).2.rows := by
  obtain ⟨sent, -, announced⟩ := Call.gated_announces env now s call
  rw [(Call.run_rows env now s call).1]
  exact announced.keyed keyed

end Keyed

theorem runAll_keyed (env : Env) (calls : List (DateTime × Call)) :
    Keyed (Call.runAll env .new calls).rows := by
  have start : Keyed InMemoryStorage.new.rows := by
    intro row version member
    cases row <;> cases member
  refine List.foldlRecOn (motive := fun s : InMemoryStorage => Keyed s.rows) calls _ start ?_
  intro s keyed call _
  exact keyed.run env call.1 call.2

/-! ## Point reads -/

def getMemory (s : InMemoryStorage) (id : MemoryId) : Option Memory := s.currentMemory id

/-- A row that the caller may not read is refused, not missing. -/
def getMemoryFor (s : InMemoryStorage) (id : MemoryId) (vc : VisibilityContext) :
    Except StorageError (Option Memory) :=
  match s.currentMemory id with
  | none => .ok none
  | some memory => if memoryVisible memory vc then .ok (some memory) else .error .permissionDenied

/-- The current versions of some memories; an unknown identity yields none. -/
def getMemories (s : InMemoryStorage) (ids : List MemoryId) : List Memory :=
  ids.filterMap s.currentMemory

def getRelationships (s : InMemoryStorage) (ids : List RelationshipId) : List Relationship :=
  ids.filterMap s.currentRelationship

def getVisibleMemories (s : InMemoryStorage) (ids : List MemoryId) (vc : VisibilityContext) :
    List Memory :=
  (ids.filterMap s.currentMemory).filter (memoryVisible · vc)

def getRelationship (s : InMemoryStorage) (id : RelationshipId) : Option Relationship :=
  s.currentRelationship id

end InMemoryStorage

/-! ## Regions -/

/-- The memory belongs to the region. -/
def RegionKey.holds (region : RegionKey) (memory : Memory) : Bool :=
  memory.memoryType = region.memoryType &&
    (region.org = "*" || memory.context.tenantId = some region.org) &&
    (region.project = "*" || memory.context.projectId = some region.project)

namespace InMemoryStorage

/-- The current version of the memory belongs to the region. -/
def inRegion (s : InMemoryStorage) (region : RegionKey) (id : MemoryId) : Bool :=
  (s.currentMemory id).any region.holds

/-- The current memories of a region, in identity order. -/
def memoriesInRegion (region : RegionKey) (limit : ℕ) (s : InMemoryStorage) :
    Except StorageError (List Memory) :=
  let rows := (s.streamAllMemories.filter region.holds).insertionSort fun left right =>
    left.id.raw.le right.id.raw
  if limit < rows.length then
    .error (.backend ("region memory budget exceeded: more than " ++ toString limit ++ " rows"))
  else .ok rows

/-- Relationships order by their ends, their kind and their identity. -/
def edgeLe (left right : Relationship) : Bool :=
  if left.source ≠ right.source then left.source.raw.le right.source.raw
  else if left.target ≠ right.target then left.target.raw.le right.target.raw
  else if left.kind ≠ right.kind then left.kind.raw ≤ right.kind.raw
  else left.id.raw.le right.id.raw

/-- The current relationships between memories of a region, closed ones included. -/
def currentRelationshipsInRegion (region : RegionKey) (limit : ℕ) (s : InMemoryStorage) :
    Except StorageError (List Relationship) :=
  let rows := (s.streamAllRelationships.filter fun r =>
    s.inRegion region r.source && s.inRegion region r.target).insertionSort (edgeLe · ·)
  if limit < rows.length then
    .error (.backend
      ("region relationship budget exceeded: more than " ++ toString limit ++ " rows"))
  else .ok rows

theorem mem_currentRelationshipsInRegion {region : RegionKey} {limit : ℕ}
    {rows : List Relationship} (read : s.currentRelationshipsInRegion region limit = .ok rows) :
    r ∈ rows ↔ r ∈ s.streamAllRelationships ∧ s.inRegion region r.source ∧
      s.inRegion region r.target := by
  rw [currentRelationshipsInRegion] at read
  split at read
  · cases read
  · cases read
    rw [List.mem_insertionSort, List.mem_filter, Bool.and_eq_true]

/-! ## What a batch leaves current -/

theorem getLast?_history_push {K V : Type} [DecidableEq K] (t : Table K (List V)) (key other : K)
    (version : V) : ((t.push key version).history other).getLast? =
      if other = key then some version else (t.history other).getLast? := by
  rw [Table.history_push]
  by_cases same : other = key
  · rw [if_pos same, if_pos same, List.getLast?_concat]
  · rw [if_neg same, if_neg same, List.append_nil]

variable {staged : Staged} {now : DateTime} {ms : List Memory}

/-- Staging memories leaves the last one of each identity current, and nothing else. -/
theorem stageMemories_current (id : MemoryId) :
    (∀ m, lastWith Memory.id id ms = some m → ∃ lsn,
      ((ms.foldl (stageMemory now) staged).memories.history id).getLast? =
        some { m with lsn := lsn }) ∧
    (lastWith Memory.id id ms = none →
      ((ms.foldl (stageMemory now) staged).memories.history id).getLast? =
        (staged.memories.history id).getLast?) := by
  induction ms using List.reverseRecOn with
  | nil =>
      refine ⟨?_, fun _ => rfl⟩
      intro m found
      rw [lastWith_nil] at found
      cases found
  | append_singleton ms m ih =>
      rw [lastWith_concat, List.foldl_append, List.foldl_cons, List.foldl_nil]
      simp only [stageMemory, getLast?_history_push]
      by_cases same : m.id = id
      · rw [if_pos same, if_pos same.symm]
        constructor
        · intro last found
          cases found
          exact ⟨_, rfl⟩
        · intro none
          cases none
      · rw [if_neg same, if_neg (Ne.symm same)]
        exact ih

/-- The memories of an identity are appended to its history, in the order of the batch. -/
theorem stageMemories_appended (now : DateTime) (staged : Staged) (ms : List Memory)
    (id : MemoryId) :
    ∃ added, (ms.foldl (stageMemory now) staged).memories.history id =
      staged.memories.history id ++ added ∧
      List.Forall₂ (fun m row => ∃ lsn, row = { m with lsn := lsn }) (ms.filter (·.id = id))
        added := by
  induction ms using List.reverseRecOn with
  | nil => exact ⟨[], by rw [List.append_nil]; rfl, .nil⟩
  | append_singleton ms m ih =>
      obtain ⟨added, sofar, rows⟩ := ih
      rw [List.foldl_append, List.foldl_cons, List.foldl_nil, List.filter_append]
      simp only [stageMemory, Table.history_push, sofar]
      by_cases same : m.id = id
      · refine ⟨added ++ [_], by rw [if_pos same.symm, List.append_assoc], ?_⟩
        rw [List.filter_cons_of_pos (by simpa using same), List.filter_nil]
        exact List.rel_append rows (.cons ⟨_, rfl⟩ .nil)
      · refine ⟨added, by rw [if_neg (Ne.symm same), List.append_nil], ?_⟩
        rw [List.filter_cons_of_neg (by simpa using same), List.filter_nil, List.append_nil]
        exact rows

theorem stageMemories_history (member : m ∈ ms) :
    ∃ lsn, { m with lsn := lsn } ∈ (ms.foldl (stageMemory now) staged).memories.history m.id := by
  obtain ⟨added, appended, rows⟩ := stageMemories_appended now staged ms m.id
  obtain ⟨row, inside, lsn, rfl⟩ := exists_right rows
    (List.mem_filter.mpr ⟨member, decide_eq_true rfl⟩)
  rw [appended]
  exact ⟨lsn, List.mem_append_right _ inside⟩

/-- Staging adds memories of the batch to the history of an identity. -/
theorem stageMemories_added (id : MemoryId) :
    ∃ added, (ms.foldl (stageMemory now) staged).memories.history id =
      staged.memories.history id ++ added ∧
      ∀ row ∈ added, ∃ m ∈ ms, m.id = id ∧ ∃ lsn, row = { m with lsn := lsn } := by
  obtain ⟨added, appended, rows⟩ := stageMemories_appended now staged ms id
  refine ⟨added, appended, fun row inside => ?_⟩
  obtain ⟨m, listed, stamped⟩ := exists_right rows.flip inside
  obtain ⟨member, same⟩ := List.mem_filter.mp listed
  exact ⟨m, member, of_decide_eq_true same, stamped⟩

/-- Every relationship that is staged is in the history of its identity. -/
theorem stageRelationships_history (env : Env) (rs : List Relationship) (member : r ∈ rs) : ∃ lsn,
      { r with lsn := lsn } ∈
        (rs.foldl (stageRelationship env now) staged).rels.history r.id := by
  have kept : ∀ (staged : Staged) (other : Relationship) (row : Relationship),
      row ∈ staged.rels.history row.id → row ∈ (stageRow now staged other).rels.history row.id := by
    intro staged other row inside
    simp only [stageRow, Table.history_push, List.mem_append]
    exact .inl inside
  have written : ∀ (staged : Staged) (other : Relationship) (row : Relationship),
      row ∈ (stageRow now staged other).rels.history row.id →
        row ∈ (stageRelationship env now staged other).rels.history row.id := by
    intro staged other row inside
    rw [stageRelationship]
    split
    · exact inside
    · split
      · exact inside
      · exact kept _ _ _ inside
  induction rs using List.reverseRecOn with
  | nil => exact absurd member List.not_mem_nil
  | append_singleton rs last ih =>
      rw [List.foldl_append, List.foldl_cons, List.foldl_nil]
      rcases List.mem_append.mp member with before | here
      · obtain ⟨lsn, inside⟩ := ih before
        exact ⟨lsn, written _ _ { r with lsn := lsn } (kept _ _ { r with lsn := lsn } inside)⟩
      · rw [List.mem_singleton.mp here]
        have staging : ∀ staged : Staged, { last with lsn := LSN.newBackend (staged.next + 1) } ∈
            (stageRow now staged last).rels.history last.id := by
          intro staged
          simp [stageRow, Table.history_push]
        have inside := written _ last _ (staging (rs.foldl (stageRelationship env now) staged))
        exact ⟨_, inside⟩

theorem stageRelationships_memories (env : Env) (now : DateTime) (staged : Staged)
    (rs : List Relationship) :
    (rs.foldl (stageRelationship env now) staged).memories = staged.memories := by
  refine List.foldlRecOn (motive := fun later : Staged => later.memories = staged.memories)
    rs _ rfl ?_
  intro later same r _
  rw [stageRelationship]
  split
  · exact same
  · split <;> exact same

theorem stageMemories_rels (now : DateTime) (staged : Staged) (ms : List Memory) :
    (ms.foldl (stageMemory now) staged).rels = staged.rels ∧
      (ms.foldl (stageMemory now) staged).seenRelationships = staged.seenRelationships :=
  List.foldlRecOn (motive := fun later : Staged =>
    later.rels = staged.rels ∧ later.seenRelationships = staged.seenRelationships)
    ms _ ⟨rfl, rfl⟩ fun _ same _ _ => same

/-- A part of a batch is staged. `old` is what was current before it. -/
structure StagedRelationships (env : Env) (old : RelationshipId → Option Relationship)
    (all done : List Relationship) (staged : Staged) : Prop where
  listed : ∀ r ∈ all, r.id ∈ staged.seenRelationships
  last : ∀ r ∈ all, ∀ row, lastWith Relationship.id r.id done = some row → ∃ lsn,
    (staged.rels.history r.id).getLast? = some { row with lsn := lsn }
  untouched : ∀ id ∉ staged.seenRelationships,
    (staged.rels.history id).getLast? = old id ∧
      ∀ r ∈ done, ∀ mate, env.inverse r = some mate → mate.id ≠ id
  companion : ∀ id ∈ staged.seenRelationships, (∀ r ∈ all, r.id ≠ id) → ∃ r ∈ done, ∃ mate lsn,
    env.inverse r = some mate ∧ mate.id = id ∧
      (staged.rels.history id).getLast? = some { mate with lsn := lsn }

/-- The sequence number of a row does not matter for its companion. -/
theorem inverse_stamped (env : Env) (r : Relationship) (lsn : LSN) :
    env.inverse { r with lsn := lsn } =
      (env.inverse r).map fun mate => { mate with lsn := lsn } := by
  rw [inverse_eq, inverse_eq, Option.map_map]
  rfl

/-- The edge is a relationship of the batch, or the companion of one. -/
def EdgeOf (env : Env) (rs : List Relationship) (edge : Relationship) : Prop :=
  edge ∈ rs ∨ ∃ other ∈ rs, env.inverse other = some edge

/-- The relationship is an edge of the batch, up to its sequence number. -/
def StampedEdgeOf (env : Env) (rs : List Relationship) (row : Relationship) : Prop :=
  ∃ edge lsn, EdgeOf env rs edge ∧ row = { edge with lsn := lsn }

/-- Staging adds edges of the batch to the history of an identity. -/
theorem stageRelationships_added (env : Env) (now : DateTime) (staged : Staged)
    (rs : List Relationship) (id : RelationshipId) :
    ∃ added, (rs.foldl (stageRelationship env now) staged).rels.history id =
      staged.rels.history id ++ added ∧ ∀ row ∈ added, StampedEdgeOf env rs row := by
  -- One row of the batch more.
  have another : ∀ (later : Staged) (r : Relationship), (∀ lsn, StampedEdgeOf env rs
      { r with lsn := lsn }) → (∃ added, later.rels.history id = staged.rels.history id ++ added ∧
        ∀ row ∈ added, StampedEdgeOf env rs row) →
      ∃ added, (stageRow now later r).rels.history id = staged.rels.history id ++ added ∧
        ∀ row ∈ added, StampedEdgeOf env rs row := by
    rintro later r isEdge ⟨added, sofar, edges⟩
    simp only [stageRow, Table.history_push, sofar]
    split
    · refine ⟨added ++ [_], by rw [List.append_assoc], fun row member => ?_⟩
      rcases List.mem_append.mp member with old | new
      · exact edges row old
      · rw [List.mem_singleton.mp new]
        exact isEdge _
    · exact ⟨added, by rw [List.append_nil], edges⟩
  refine List.foldlRecOn (motive := fun later : Staged => ∃ added, later.rels.history id =
    staged.rels.history id ++ added ∧ ∀ row ∈ added, StampedEdgeOf env rs row) rs _
    ⟨[], by rw [List.append_nil], fun row member => absurd member List.not_mem_nil⟩ ?_
  intro later sofar r listed
  have own := another later r (fun lsn => ⟨r, lsn, .inl listed, rfl⟩) sofar
  rw [stageRelationship]
  split
  · exact own
  next inverse found =>
    rw [inverse_stamped] at found
    obtain ⟨mate, isMate, rfl⟩ := Option.map_eq_some_iff.mp found
    split
    · exact own
    · exact another _ _ (fun lsn => ⟨mate, lsn, .inr ⟨r, listed, isMate⟩, rfl⟩) own

theorem StagedRelationships.stageRelationship {env : Env}
    {old : RelationshipId → Option Relationship} {all done : List Relationship}
    (batch : StagedRelationships env old all done staged) (now : DateTime) (member : r ∈ all) :
    StagedRelationships env old all (done ++ [r]) (stageRelationship env now staged r) := by
  -- The row itself is staged under a listed identity.
  have written : ∀ id, ((stageRow now staged r).rels.history id).getLast? =
      if id = r.id then some { r with lsn := LSN.newBackend (staged.next + 1) }
      else (staged.rels.history id).getLast? := fun id => getLast?_history_push _ _ _ _
  have known := batch.listed r member
  have last : ∀ q ∈ all, ∀ row, lastWith Relationship.id q.id (done ++ [r]) = some row →
      ∃ lsn, ((stageRow now staged r).rels.history q.id).getLast? =
        some { row with lsn := lsn } := by
    intro q inside row found
    rw [lastWith_concat] at found
    rw [written]
    by_cases same : r.id = q.id
    · rw [if_pos same] at found
      cases found
      exact ⟨_, if_pos same.symm⟩
    · rw [if_neg same] at found
      rw [if_neg (Ne.symm same)]
      exact batch.last q inside row found
  have kept : ∀ id, id ≠ r.id → ((stageRow now staged r).rels.history id).getLast? =
      (staged.rels.history id).getLast? := fun id other => (written id).trans (if_neg other)
  have seen_ne : ∀ id ∉ staged.seenRelationships, id ≠ r.id := by
    rintro id unseen rfl
    exact unseen known
  -- An identity that only companions have.
  have mates : ∀ id ∈ staged.seenRelationships, (∀ q ∈ all, q.id ≠ id) →
      ∃ q ∈ done ++ [r], ∃ mate lsn, env.inverse q = some mate ∧ mate.id = id ∧
        ((stageRow now staged r).rels.history id).getLast? = some { mate with lsn := lsn } := by
    intro id seen unlisted
    obtain ⟨q, inside, mate, lsn, found, identity, current⟩ := batch.companion id seen unlisted
    refine ⟨q, List.mem_append_left _ inside, mate, lsn, found, identity, ?_⟩
    rw [kept id (Ne.symm (unlisted r member)), current]
  -- An identity that neither the row nor its companion has.
  have untouched : ∀ id ∉ staged.seenRelationships,
      (∀ mate, env.inverse r = some mate → mate.id ≠ id) →
      ((stageRow now staged r).rels.history id).getLast? = old id ∧
        ∀ q ∈ done ++ [r], ∀ mate, env.inverse q = some mate → mate.id ≠ id := by
    intro id unseen own
    obtain ⟨current, free⟩ := batch.untouched id unseen
    refine ⟨(kept id (seen_ne id unseen)).trans current, fun q inside => ?_⟩
    rcases List.mem_append.mp inside with before | here
    · exact free q before
    · exact List.mem_singleton.mp here ▸ own
  rw [InMemoryStorage.stageRelationship]
  split
  · next alone =>
      rw [inverse_stamped, Option.map_eq_none_iff] at alone
      refine ⟨batch.listed, last, fun id unseen => untouched id unseen ?_, mates⟩
      intro mate found
      rw [alone] at found
      cases found
  · next inverse found =>
      rw [inverse_stamped] at found
      obtain ⟨plain, mate, rfl⟩ := Option.map_eq_some_iff.mp found
      split
      · next seen =>
          refine ⟨batch.listed, last, fun id unseen => untouched id unseen ?_, mates⟩
          rintro _ found rfl
          rw [mate] at found
          cases found
          exact unseen seen
      · next fresh =>
          have later : ∀ id, ((stageRow now { stageRow now staged r with
                seenRelationships := insert plain.id staged.seenRelationships }
                { plain with lsn := LSN.newBackend (staged.next + 1) }).rels.history id).getLast? =
              if id = plain.id then some { plain with lsn := LSN.newBackend (staged.next + 1 + 1) }
              else ((stageRow now staged r).rels.history id).getLast? :=
            fun id => getLast?_history_push _ _ _ _
          refine ⟨?_, ?_, ?_, ?_⟩
          · exact fun q inside => Finset.mem_insert_of_mem (batch.listed q inside)
          · intro q inside row found
            have other : q.id ≠ plain.id := by
              intro same
              exact fresh (same ▸ batch.listed q inside)
            obtain ⟨lsn, current⟩ := last q inside row found
            exact ⟨lsn, (later q.id).trans ((if_neg other).trans current)⟩
          · intro id unseen
            have outside := not_or.mp (mt Finset.mem_insert.mpr unseen)
            obtain ⟨current, free⟩ := untouched id outside.2 fun other found => by
              rw [mate] at found
              cases found
              exact Ne.symm outside.1
            exact ⟨(later id).trans ((if_neg outside.1).trans current), free⟩
          · intro id seen unlisted
            rcases Finset.mem_insert.mp seen with rfl | before
            · exact ⟨r, List.mem_append_right _ List.mem_cons_self, plain, _, mate, rfl,
                (later _).trans (if_pos rfl)⟩
            · obtain ⟨q, inside, other, lsn, found, identity, current⟩ := mates id before unlisted
              have apart : id ≠ plain.id := by
                rintro rfl
                exact fresh before
              exact ⟨q, inside, other, lsn, found, identity,
                (later id).trans ((if_neg apart).trans current)⟩

theorem stageBatch_relationships (env : Env) (ms : List Memory) (rs : List Relationship)
    (now : DateTime) (s : InMemoryStorage) :
    StagedRelationships env s.currentRelationship rs rs (s.stageBatch env ms rs now) := by
  obtain ⟨rels, seen⟩ := stageMemories_rels now
    ⟨s.memories, s.rels, s.lsn, (rs.map (·.id)).toFinset, [], []⟩ ms
  rw [stageBatch]
  -- The induction is on the part of the batch that is staged.
  have staging : ∀ done, (∀ r ∈ done, r ∈ rs) → StagedRelationships env s.currentRelationship rs
      done (done.foldl (InMemoryStorage.stageRelationship env now) (ms.foldl (stageMemory now)
        ⟨s.memories, s.rels, s.lsn, (rs.map (·.id)).toFinset, [], []⟩)) := by
    intro done
    induction done using List.reverseRecOn with
    | nil =>
        intro _
        rw [List.foldl_nil]
        refine ⟨?_, ?_, ?_, ?_⟩
        · intro r member
          rw [seen]
          exact List.mem_toFinset.mpr (List.mem_map_of_mem member)
        · intro r _ row found
          rw [lastWith_nil] at found
          cases found
        · intro id _
          rw [rels]
          exact ⟨rfl, fun r member => absurd member List.not_mem_nil⟩
        · intro id inside unlisted
          rw [seen] at inside
          obtain ⟨r, member, same⟩ := List.mem_map.mp (List.mem_toFinset.mp inside)
          exact absurd same (unlisted r member)
    | append_singleton done r ih =>
        intro inside
        rw [List.foldl_append, List.foldl_cons, List.foldl_nil]
        exact (ih fun q member => inside q (List.mem_append_left _ member)).stageRelationship now
          (inside r (List.mem_append_right _ List.mem_cons_self))
  exact staging rs fun r member => member

section Batches

variable {env : Env} {rs : List Relationship} {t : InMemoryStorage} {records : List CommitRecord}
  {events : List Invalidation}

section Committed

variable (committed : s.upsertBatchLocked env ms rs now = .ok (records, events, t))
include committed

theorem upsertBatchLocked_tables :
    t.memories = (s.stageBatch env ms rs now).memories ∧
      t.rels = (s.stageBatch env ms rs now).rels := by
  rw [upsertBatchLocked] at committed
  split at committed
  · cases committed
  · cases committed
    exact ⟨rfl, rfl⟩

/-- The last memory of an identity that a batch lists is current after it, and an identity
that it does not list keeps its version. -/
theorem upsertBatchLocked_memory (id : MemoryId) :
    (∀ m, lastWith Memory.id id ms = some m → ∃ lsn,
      t.currentMemory id = some { m with lsn := lsn }) ∧
    (lastWith Memory.id id ms = none → t.currentMemory id = s.currentMemory id) := by
  rw [currentMemory, (upsertBatchLocked_tables committed).1, stageBatch,
    stageRelationships_memories]
  exact stageMemories_current id

theorem upsertBatchLocked_history (member : m ∈ ms) :
    ∃ lsn, { m with lsn := lsn } ∈ t.memories.history m.id := by
  rw [(upsertBatchLocked_tables committed).1, stageBatch, stageRelationships_memories]
  exact stageMemories_history member

theorem upsertBatchLocked_edges (member : r ∈ rs) :
    ∃ lsn, { r with lsn := lsn } ∈ t.rels.history r.id := by
  rw [(upsertBatchLocked_tables committed).2, stageBatch]
  exact stageRelationships_history env rs member

theorem upsertBatchLocked_appended (id : MemoryId) :
    ∃ added, t.memories.history id = s.memories.history id ++ added ∧
      List.Forall₂ (fun m row => ∃ lsn, row = { m with lsn := lsn }) (ms.filter (·.id = id))
        added := by
  rw [(upsertBatchLocked_tables committed).1, stageBatch, stageRelationships_memories]
  exact stageMemories_appended now _ ms id

/-- A batch adds memories of its own to the history of an identity. -/
theorem upsertBatchLocked_memories_added (id : MemoryId) :
    ∃ added, t.memories.history id = s.memories.history id ++ added ∧
      ∀ row ∈ added, ∃ m ∈ ms, m.id = id ∧ ∃ lsn, row = { m with lsn := lsn } := by
  rw [(upsertBatchLocked_tables committed).1, stageBatch, stageRelationships_memories]
  exact stageMemories_added id

/-- A batch adds edges of its own to the history of an identity. -/
theorem upsertBatchLocked_added (id : RelationshipId) :
    ∃ added, t.rels.history id = s.rels.history id ++ added ∧
      ∀ row ∈ added, StampedEdgeOf env rs row := by
  obtain ⟨added, appended, edges⟩ := stageRelationships_added env now
    (ms.foldl (stageMemory now) ⟨s.memories, s.rels, s.lsn, (rs.map (·.id)).toFinset, [], []⟩) rs id
  rw [(stageMemories_rels now _ ms).1] at appended
  rw [(upsertBatchLocked_tables committed).2, stageBatch]
  exact ⟨added, appended, edges⟩

variable {row : Relationship}

/-- What is current after a batch is an edge of it, or was current before. -/
theorem upsertBatchLocked_current (current : t.currentRelationship id = some row) :
    s.currentRelationship id = some row ∨ StampedEdgeOf env rs row := by
  obtain ⟨added, appended, edges⟩ := upsertBatchLocked_added committed id
  rw [currentRelationship, appended, List.getLast?_append] at current
  cases last : added.getLast? with
  | none =>
      rw [last, Option.none_or] at current
      exact .inl current
  | some new =>
      rw [last, Option.some_or] at current
      cases current
      exact .inr (edges _ (List.mem_of_getLast? last))

/-- The last row of an identity that a batch lists is current after it. -/
theorem upsertBatchLocked_listed (member : r ∈ rs)
    (last : lastWith Relationship.id r.id rs = some row) :
    ∃ lsn, t.currentRelationship r.id = some { row with lsn := lsn } := by
  rw [currentRelationship, (upsertBatchLocked_tables committed).2]
  exact (stageBatch_relationships env ms rs now s).last r member row last

/-- An identity that a batch does not list has the companion of a listed row current after
it, or what was current before. -/
theorem upsertBatchLocked_unlisted (unlisted : ∀ r ∈ rs, r.id ≠ id) :
    (∃ r ∈ rs, ∃ mate lsn, env.inverse r = some mate ∧ mate.id = id ∧
      t.currentRelationship id = some { mate with lsn := lsn }) ∨
    (t.currentRelationship id = s.currentRelationship id ∧
      ∀ r ∈ rs, ∀ mate, env.inverse r = some mate → mate.id ≠ id) := by
  have batch := stageBatch_relationships env ms rs now s
  rw [currentRelationship, (upsertBatchLocked_tables committed).2]
  by_cases seen : id ∈ (s.stageBatch env ms rs now).seenRelationships
  · exact .inl (batch.companion id seen unlisted)
  · exact .inr (batch.untouched id seen)

end Committed

end Batches

end InMemoryStorage

end Exocortex
