import Exocortex.Dreams.Anchors

/-!
# Merging duplicates

The merge step of a consolidation cycle. Candidate pairs are taken in their order; a pair
that is similar enough, and whose two memories are still open in the working set, is merged:
the second memory is closed, and its open edges in the working set are closed and rewired to
the first (`merge`). All of it is one journaled batch. Between two merges other writers may
call the store; the cycle goes on with its working set.

Merging changes no memory of the working set but the end of its validity and its successor
(`SameRows`), so that every pair the loop comes to has the order that the anchors gave it.
Which memory of a pair is left open is thereby a matter of the anchors' order alone, which puts
the younger memory first.
-/

namespace Exocortex

open Library InMemoryStorage

/-- The state of a cycle: the store, the working set, the journal, and what the result lists
so far. -/
structure Consolidation where
  store : InMemoryStorage
  workingSet : RegionWorkingSet
  journal : CycleJournal
  merged : List MemoryId
  rewired : List RelationshipId
  abstracted : List MemoryId

/-- Commit one journaled batch of a cycle. -/
def commitJournaled (env : Env) (ms : List Memory) (rs : List Relationship)
    (journal : CycleJournal) (lease : OwnerLease) (now : DateTime) (s : InMemoryStorage) :
    Except StorageError FencedBatchCommit × InMemoryStorage :=
  let o := s.upsertBatchFencedJournaled env ms rs journal.restore journal.cycleId lease now
  (o.reply, o.pending.foldl publish o.post)

/-! ## One merge -/

/-- The open edges of the working set at a memory. -/
def RegionWorkingSet.edgesAt (ws : RegionWorkingSet) (id : MemoryId) : List Relationship :=
  ws.relationships.values.filter fun r =>
    r.validUntil.isNone && (r.source = id || r.target = id)

/-- The edge with the survivor in the place of the memory to be closed. -/
def rewire (env : Env) (now : DateTime) (c : MergeCandidate) (r : Relationship) : Relationship :=
  let source := if r.source = c.b then c.a else r.source
  let target := if r.target = c.b then c.a else r.target
  { r with
    source := source
    target := target
    id := RelationshipId.derive env.blake3 source r.kind target none
    recordedAt := now
    validFrom := now
    validUntil := none
    invalidatedBy := none }

/-- The journal, the rewired identities and the rows to write, while the edges are gone
through. -/
structure Rewiring where
  journal : CycleJournal
  rewired : List RelationshipId
  updates : Table RelationshipId Relationship

/-- One edge: it is closed, and rewired unless both of its ends would be the survivor or the
working set has the rewired edge open. -/
def rewireStep (env : Env) (now : DateTime) (c : MergeCandidate) (ws : RegionWorkingSet)
    (acc : Rewiring) (r : Relationship) : Rewiring :=
  let journal := acc.journal.recordRelationship r
  let updates := acc.updates.insert r.id { r with validUntil := some now }
  let moved := rewire env now c r
  if moved.source = moved.target then { acc with journal := journal, updates := updates }
  else
    match ws.relationships.lookup moved.id with
    | some existing =>
        if existing.validUntil.isNone then { acc with journal := journal, updates := updates }
        else
          { journal := journal.recordRelationship existing
            rewired := acc.rewired ++ [moved.id]
            updates := updates.insert moved.id moved }
    | none =>
        { journal := journal.createRelationship moved
          rewired := acc.rewired ++ [moved.id]
          updates := updates.insert moved.id moved }

/-- All edges at the memory to be closed. -/
def rewireAll (env : Env) (now : DateTime) (c : MergeCandidate) (ws : RegionWorkingSet)
    (journal : CycleJournal) (rewired : List RelationshipId) : Rewiring :=
  (ws.edgesAt c.b).foldl (rewireStep env now c ws) ⟨journal, rewired, ∅⟩

/-- The rows to write, in identity order. -/
def Rewiring.writes (rewiring : Rewiring) : List Relationship :=
  (rewiring.updates.sortedEntries fun left right => left.raw.le right.raw).map (·.2)

/-- Merge a candidate pair at `now`; the store commits at `commitAt`. -/
def merge (engine : DreamsEngine) (lease : OwnerLease) (now commitAt : DateTime)
    (c : MergeCandidate) (cycle : Consolidation) : Except StorageError Unit × Consolidation :=
  let ws := cycle.workingSet
  let survivorLive := (ws.memories.lookup c.a).any (·.validUntil.isNone)
  match (ws.memories.lookup c.b).filter (·.validUntil.isNone) with
  | none => (.ok (), cycle)
  | some m =>
      if !survivorLive then (.ok (), cycle)
      else
        let rewiring :=
          rewireAll engine.env now c ws (cycle.journal.recordMemory m) cycle.rewired
        let closed := { m with validUntil := some now, invalidatedBy := some c.a }
        let writes := rewiring.writes
        let journal := rewiring.journal.prepareRelationshipWrites engine.inverse writes
          ws.relationships
        match commitJournaled engine.env [closed] writes journal lease commitAt cycle.store with
        | (.error error, store) =>
            (.error error,
              { cycle with store := store, journal := journal, rewired := rewiring.rewired })
        | (.ok commit, store) =>
            (.ok (), { cycle with
              store := store
              workingSet :=
                (ws.insertMemory closed).applyRelationshipWrites engine.inverse writes
              journal := journal.recordCommit commit
              merged := cycle.merged ++ [c.b]
              rewired := rewiring.rewired })

/-- When a pair's turn comes: the calls that others made in between, and the instants of the
merge and of its commit. -/
structure MergeTurn where
  others : List (DateTime × Call)
  now : DateTime
  commitAt : DateTime

def mergeTurn (engine : DreamsEngine) (lease : OwnerLease) (c : MergeCandidate)
    (turn : MergeTurn) (cycle : Consolidation) : Except StorageError Unit × Consolidation :=
  merge engine lease turn.now turn.commitAt c
    { cycle with store := Call.runAll engine.env cycle.store turn.others }

/-- The loop over the candidates. It ends with the first error. -/
def mergeCandidates (engine : DreamsEngine) (lease : OwnerLease) :
    List (MergeCandidate × MergeTurn) → Consolidation →
      Except StorageError Unit × Consolidation
  | [], cycle => (.ok (), cycle)
  | (c, turn) :: rest, cycle =>
      if mergeBar.le c.cosineSimilarity then
        match mergeTurn engine lease c turn cycle with
        | (.error error, cycle) => (.error error, cycle)
        | (.ok _, cycle) => mergeCandidates engine lease rest cycle
      else mergeCandidates engine lease rest cycle

/-! ## The rows of a merge -/

variable {id : MemoryId} {now commitAt : DateTime} {first second : RegionWorkingSet}
  {c : MergeCandidate} {after cycle : Consolidation} {engine : DreamsEngine} {survivor : Memory}

section Rows

variable {env : Env} {now : DateTime} {c : MergeCandidate} {ws : RegionWorkingSet}

/-- The row that takes the place of an edge, when there is one. -/
def moves (env : Env) (now : DateTime) (c : MergeCandidate) (ws : RegionWorkingSet)
    (r : Relationship) : Option Relationship :=
  let moved := rewire env now c r
  if moved.source = moved.target then none
  else if (ws.relationships.lookup moved.id).any (·.validUntil.isNone) then none
  else some moved

/-- The rows that an edge contributes, in the order of their insertion. -/
def rowsOf (env : Env) (now : DateTime) (c : MergeCandidate) (ws : RegionWorkingSet)
    (r : Relationship) : List Relationship :=
  { r with validUntil := some now } :: (moves env now c ws r).toList

theorem rewireStep_updates (acc : Rewiring) (r : Relationship) :
    (rewireStep env now c ws acc r).updates =
      (rowsOf env now c ws r).foldl (fun t row => t.insert row.id row) acc.updates := by
  rw [rewireStep, rowsOf, moves]
  split
  · rfl
  · cases found : ws.relationships.lookup (rewire env now c r).id with
    | none => rfl
    | some existing =>
        simp only [Option.any_some]
        by_cases isOpen : existing.validUntil.isNone = true
        · simp [isOpen]
        · simp [isOpen]

theorem rewireAll_updates (journal : CycleJournal) (rewired : List RelationshipId) :
    (rewireAll env now c ws journal rewired).updates =
      Table.collect Relationship.id ((ws.edgesAt c.b).flatMap (rowsOf env now c ws)) := by
  rw [rewireAll, Table.collect, List.foldl_flatMap]
  generalize ws.edgesAt c.b = edges
  -- The induction is on the edges gone through.
  induction edges using List.reverseRecOn with
  | nil => rfl
  | append_singleton edges r ih =>
      rw [List.foldl_append, List.foldl_append, List.foldl_cons, List.foldl_nil,
        List.foldl_cons, List.foldl_nil, rewireStep_updates, ih]

theorem rewireStep_rewired (acc : Rewiring) (r : Relationship) :
    (rewireStep env now c ws acc r).rewired =
      acc.rewired ++ (moves env now c ws r).toList.map (·.id) := by
  rw [rewireStep, moves]
  split
  · simp
  · cases found : ws.relationships.lookup (rewire env now c r).id with
    | none => simp
    | some existing =>
        simp only [Option.any_some]
        by_cases isOpen : existing.validUntil.isNone = true
        · simp [isOpen]
        · simp [isOpen]

/-- The result lists the rows that take the place of an edge. -/
theorem rewireAll_rewired (journal : CycleJournal) (rewired : List RelationshipId) :
    (rewireAll env now c ws journal rewired).rewired =
      rewired ++ ((ws.edgesAt c.b).filterMap (moves env now c ws)).map (·.id) := by
  rw [rewireAll]
  generalize ws.edgesAt c.b = edges
  induction edges using List.reverseRecOn with
  | nil => simp
  | append_singleton edges r ih =>
      rw [List.foldl_append, List.foldl_cons, List.foldl_nil, rewireStep_rewired, ih,
        List.filterMap_append, List.map_append, List.append_assoc]
      cases moved : moves env now c ws r with
      | none => simp [moved]
      | some row => simp [moved]

variable {r row : Relationship}

theorem mem_edgesAt :
    r ∈ ws.edgesAt id ↔ ws.relationships.lookup r.id = some r ∧ r.validUntil = none ∧
      (r.source = id ∨ r.target = id) := by
  rw [RegionWorkingSet.edgesAt, List.mem_filter, Table.mem_values]
  simp only [Bool.and_eq_true, Option.isNone_iff_eq_none, Bool.or_eq_true, decide_eq_true_eq]
  constructor
  · rintro ⟨⟨key, found⟩, facts⟩
    exact ⟨(ws.relationshipKeys key r found).symm ▸ found, facts⟩
  · rintro ⟨found, facts⟩
    exact ⟨⟨r.id, found⟩, facts⟩

theorem moves_eq_some :
    moves env now c ws r = some row ↔
      row = rewire env now c r ∧ row.source ≠ row.target ∧
        ¬ (ws.relationships.lookup row.id).any (·.validUntil.isNone) := by
  rw [moves]
  constructor
  · intro moved
    split at moved
    · cases moved
    · next apart =>
        split at moved
        · cases moved
        · next free =>
            cases moved
            exact ⟨rfl, apart, free⟩
  · rintro ⟨rfl, apart, free⟩
    rw [if_neg apart, if_neg free]

variable {q : Relationship}

/-- An edge of the working set is open, a row that takes its place is not there yet. -/
theorem moves_id_ne (edge : q ∈ ws.edgesAt c.b) (moved : moves env now c ws r = some row) :
    row.id ≠ q.id := by
  intro same
  obtain ⟨found, isOpen, -⟩ := mem_edgesAt.mp edge
  obtain ⟨-, -, free⟩ := moves_eq_some.mp moved
  rw [same, found] at free
  simp [isOpen] at free

variable {journal : CycleJournal} {rewired : List RelationshipId}

theorem mem_writes :
    row ∈ (rewireAll env now c ws journal rewired).writes ↔
      lastWith Relationship.id row.id ((ws.edgesAt c.b).flatMap (rowsOf env now c ws)) =
        some row := by
  rw [← Table.lookup_collect, ← rewireAll_updates journal rewired, Rewiring.writes, List.mem_map]
  constructor
  · rintro ⟨⟨key, value⟩, entry, rfl⟩
    have found := Table.mem_sortedEntries.mp entry
    have last := (congrArg (AList.lookup key) (rewireAll_updates journal rewired)).symm.trans found
    rw [Table.lookup_collect] at last
    rw [(lastWith_some last).2]
    exact found
  · intro found
    exact ⟨⟨row.id, row⟩, Table.mem_sortedEntries.mpr found, rfl⟩

theorem writes_nodup :
    ((rewireAll env now c ws journal rewired).writes.map (·.id)).Nodup := by
  have keys : (rewireAll env now c ws journal rewired).writes.map (·.id) =
      ((rewireAll env now c ws journal rewired).updates.sortedEntries fun left right =>
        left.raw.le right.raw).map (·.1) := by
    rw [Rewiring.writes, List.map_map]
    apply List.map_congr_left
    rintro ⟨key, value⟩ entry
    have found := Table.mem_sortedEntries.mp entry
    rw [rewireAll_updates, Table.lookup_collect] at found
    exact (lastWith_some found).2
  rw [keys]
  exact ((List.perm_insertionSort _ _).map _).nodup_iff.mpr
    (rewireAll env now c ws journal rewired).updates.nodupKeys

theorem rowsOf_filter_edge (edge : q ∈ ws.edgesAt c.b) (other : r ∈ ws.edgesAt c.b) :
    ∀ row ∈ rowsOf env now c ws r, row.id = q.id → row = { q with validUntil := some now } := by
  intro row member same
  rcases List.mem_cons.mp member with rfl | moved
  · have found := (mem_edgesAt.mp other).1
    dsimp only at same
    rw [same, (mem_edgesAt.mp edge).1] at found
    cases found
    rfl
  · exact absurd same (moves_id_ne edge (Option.mem_toList.mp moved))

/-- Every edge at the memory is written closed. -/
theorem closed_mem_writes (edge : r ∈ ws.edgesAt c.b) :
    { r with validUntil := some now } ∈ (rewireAll env now c ws journal rewired).writes := by
  refine mem_writes.mpr ?_
  cases found : lastWith Relationship.id r.id
      ((ws.edgesAt c.b).flatMap (rowsOf env now c ws)) with
  | none =>
      refine absurd rfl (lastWith_eq_none.mp found { r with validUntil := some now } ?_)
      exact List.mem_flatMap.mpr ⟨r, edge, List.mem_cons_self⟩
  | some row =>
      obtain ⟨inside, same⟩ := lastWith_some found
      obtain ⟨other, member, among⟩ := List.mem_flatMap.mp inside
      exact congrArg some (rowsOf_filter_edge edge member row among same)

/-- Among the rows under an identity that no edge has, there is no closed one. -/
theorem filter_rowsOf {edges : List Relationship} {id : RelationshipId}
    (free : ∀ q ∈ edges, id ≠ q.id) :
    (edges.flatMap (rowsOf env now c ws)).filter (·.id = id) =
      (edges.filterMap (moves env now c ws)).filter (·.id = id) := by
  induction edges with
  | nil => rfl
  | cons r rest ih =>
      have here : r.id ≠ id := Ne.symm (free r List.mem_cons_self)
      have later := ih fun q member => free q (List.mem_cons_of_mem _ member)
      rw [List.flatMap_cons, List.filter_append, later, rowsOf]
      cases moved : moves env now c ws r with
      | none =>
          rw [List.filterMap_cons_none moved]
          simp [here]
      | some row =>
          rw [List.filterMap_cons_some moved]
          simp [here, List.filter_cons]
          split <;> rfl

/-- The open rows of the batch are the last ones that take the place of an edge. -/
theorem open_mem_writes (isOpen : row.validUntil = none) :
    row ∈ (rewireAll env now c ws journal rewired).writes ↔
      lastWith Relationship.id row.id ((ws.edgesAt c.b).filterMap (moves env now c ws)) =
        some row := by
  rw [mem_writes]
  constructor
  · intro found
    obtain ⟨inside, -⟩ := lastWith_some found
    obtain ⟨r, edge, among⟩ := List.mem_flatMap.mp inside
    rcases List.mem_cons.mp among with rfl | moved
    · cases isOpen
    · have free := fun q member => moves_id_ne (q := q) member (Option.mem_toList.mp moved)
      rw [← found]
      exact congrArg List.getLast? (filter_rowsOf free).symm
  · intro found
    obtain ⟨inside, -⟩ := lastWith_some found
    obtain ⟨r, edge, moved⟩ := List.mem_filterMap.mp inside
    have free := fun q member => moves_id_ne (q := q) member moved
    rw [← found]
    exact congrArg List.getLast? (filter_rowsOf free)

/-- A row of the batch closes an edge or takes the place of one. -/
theorem mem_writes_cases (member : row ∈ (rewireAll env now c ws journal rewired).writes) :
    (∃ r ∈ ws.edgesAt c.b, row = { r with validUntil := some now }) ∨
      ∃ r ∈ ws.edgesAt c.b, moves env now c ws r = some row := by
  obtain ⟨inside, -⟩ := lastWith_some (mem_writes.mp member)
  obtain ⟨r, edge, among⟩ := List.mem_flatMap.mp inside
  rcases List.mem_cons.mp among with rfl | moved
  · exact .inl ⟨r, edge, rfl⟩
  · exact .inr ⟨r, edge, Option.mem_toList.mp moved⟩

end Rows

/-! ## What a merge does -/

/-- A batch that was committed left its rows in the store. -/
theorem commitJournaled_ok {env : Env} {ms : List Memory} {rs : List Relationship}
    {journal : CycleJournal} {lease : OwnerLease} {s store : InMemoryStorage}
    {commit : FencedBatchCommit}
    (committed : commitJournaled env ms rs journal lease now s = (.ok commit, store)) :
    ∃ records events t, s.upsertBatchLocked env ms rs now = .ok (records, events, t) ∧
      store.memories = t.memories ∧ store.rels = t.rels := by
  rw [commitJournaled, Prod.mk.injEq] at committed
  obtain ⟨reply, rfl⟩ := committed
  obtain ⟨index, published⟩ := Call.foldl_publish
    (s.upsertBatchFencedJournaled env ms rs journal.restore journal.cycleId lease now).pending
    (s.upsertBatchFencedJournaled env ms rs journal.restore journal.cycleId lease now).post
  rw [published]
  rw [upsertBatchFencedJournaled, fenced] at reply ⊢
  cases current : s.checkLeaseCurrent lease now with
  | error error =>
      rw [current] at reply
      cases reply
  | ok nothing =>
      rw [current] at reply
      dsimp only at reply ⊢
      split at reply
      · cases reply
      · next idle =>
          cases batch : s.upsertBatchLocked env ms rs now with
          | error error =>
              rw [batch] at reply
              cases reply
          | ok result =>
              obtain ⟨records, events, t⟩ := result
              exact ⟨records, events, t, rfl, rfl, rfl⟩

/-- The closed version of a merged memory. -/
def closedInto (now : DateTime) (c : MergeCandidate) (m : Memory) : Memory :=
  { m with validUntil := some now, invalidatedBy := some c.a }

/-- The rows a merge writes besides the closed memory. -/
def mergeWrites (env : Env) (now : DateTime) (c : MergeCandidate) (cycle : Consolidation)
    (m : Memory) : List Relationship :=
  (rewireAll env now c cycle.workingSet (cycle.journal.recordMemory m) cycle.rewired).writes

/-- A merge of `m` into `survivor` was committed. -/
structure MergedInto (engine : DreamsEngine) (now commitAt : DateTime) (c : MergeCandidate)
    (cycle after : Consolidation) (survivor m : Memory) : Prop where
  survivorFound : cycle.workingSet.memories.lookup c.a = some survivor
  survivorOpen : survivor.validUntil = none
  found : cycle.workingSet.memories.lookup c.b = some m
  isOpen : m.validUntil = none
  merged : after.merged = cycle.merged ++ [c.b]
  abstracted : after.abstracted = cycle.abstracted
  rewired : after.rewired = cycle.rewired ++ ((cycle.workingSet.edgesAt c.b).filterMap
    (moves engine.env now c cycle.workingSet)).map (·.id)
  workingSet : after.workingSet = (cycle.workingSet.insertMemory
    (closedInto now c m)).applyRelationshipWrites engine.inverse
      (mergeWrites engine.env now c cycle m)
  committed : ∃ records events t,
    cycle.store.upsertBatchLocked engine.env [closedInto now c m]
      (mergeWrites engine.env now c cycle m) commitAt = .ok (records, events, t) ∧
    after.store.memories = t.memories ∧ after.store.rels = t.rels

section Merging

variable {engine : DreamsEngine} {lease : OwnerLease} {now commitAt : DateTime}
  {c : MergeCandidate} {cycle : Consolidation}

/-- A merge is committed, or the cycle goes on with the working set and the result that it
had. -/
theorem merge_cases (engine : DreamsEngine) (lease : OwnerLease) (now commitAt : DateTime)
    (c : MergeCandidate) (cycle : Consolidation) :
    ((merge engine lease now commitAt c cycle).2.workingSet = cycle.workingSet ∧
      (merge engine lease now commitAt c cycle).2.merged = cycle.merged ∧
      (merge engine lease now commitAt c cycle).2.abstracted = cycle.abstracted) ∨
    ∃ survivor m, MergedInto engine now commitAt c cycle
      (merge engine lease now commitAt c cycle).2 survivor m := by
  rw [merge]
  split
  · exact .inl ⟨rfl, rfl, rfl⟩
  · next m found =>
      obtain ⟨found, isOpen⟩ := Option.filter_eq_some_iff.mp found
      split
      · exact .inl ⟨rfl, rfl, rfl⟩
      · next live =>
          rw [Bool.not_eq_true', Bool.not_eq_false, Option.any_eq_true] at live
          obtain ⟨survivor, survivorFound, survivorOpen⟩ := live
          dsimp only
          split
          · exact .inl ⟨rfl, rfl, rfl⟩
          · next commit store committed =>
              refine .inr ⟨survivor, m, ?_⟩
              exact ⟨survivorFound, Option.isNone_iff_eq_none.mp survivorOpen, found,
                Option.isNone_iff_eq_none.mp isOpen, rfl, rfl, rewireAll_rewired _ _, rfl,
                commitJournaled_ok committed⟩

/-- A merge that lists its memory as merged was committed. -/
theorem merge_committed
    (listed : (merge engine lease now commitAt c cycle).2.merged = cycle.merged ++ [c.b]) :
    ∃ survivor m, MergedInto engine now commitAt c cycle
      (merge engine lease now commitAt c cycle).2 survivor m := by
  rcases merge_cases engine lease now commitAt c cycle with ⟨-, same, -⟩ | committed
  · rw [same] at listed
    have longer := congrArg List.length listed
    rw [List.length_append, List.length_singleton] at longer
    omega
  · exact committed

end Merging

/-! ## A cycle keeps its rows -/

/-- A memory but for the end of its validity and its successor. -/
def Memory.standing (m : Memory) : Memory :=
  { m with validUntil := none, invalidatedBy := none }

/-- Two working sets have the same memories, up to the end of their validity. -/
def SameRows (first second : RegionWorkingSet) : Prop :=
  ∀ id, (second.memories.lookup id).map Memory.standing =
    (first.memories.lookup id).map Memory.standing

theorem SameRows.refl (ws : RegionWorkingSet) : SameRows ws ws := fun _ => rfl

theorem SameRows.trans {third : RegionWorkingSet} (left : SameRows first second)
    (right : SameRows second third) : SameRows first third :=
  fun id => (right id).trans (left id)

/-- Two rows of one identity differ in the end of their validity only. -/
theorem SameRows.standing_eq (same : SameRows first second) {before after : Memory}
    (found : first.memories.lookup id = some before)
    (found' : second.memories.lookup id = some after) : after.standing = before.standing := by
  have rows := same id
  rw [found, found'] at rows
  exact Option.some.inj rows

variable {m : Memory}

/-- The closed memory is the current version in the store. -/
theorem MergedInto.currentMemory_closed
    (merged : MergedInto engine now commitAt c cycle after survivor m) :
    ∃ lsn, after.store.currentMemory c.b = some { closedInto now c m with lsn := lsn } := by
  obtain ⟨records, events, t, batch, memories, -⟩ := merged.committed
  have key : m.id = c.b := cycle.workingSet.memoryKeys _ _ merged.found
  have last : lastWith Memory.id c.b [closedInto now c m] = some (closedInto now c m) := by
    simp [lastWith, closedInto, key]
  rw [currentMemory, memories]
  exact (upsertBatchLocked_memory batch c.b).1 _ last

/-- A memory that is not the closed one stays in the working set as it was. -/
theorem MergedInto.other_lookup (merged : MergedInto engine now commitAt c cycle after survivor m)
    (other : id ≠ c.b) :
    after.workingSet.memories.lookup id = cycle.workingSet.memories.lookup id := by
  have key : m.id = c.b := cycle.workingSet.memoryKeys _ _ merged.found
  rw [merged.workingSet, RegionWorkingSet.applyRelationshipWrites_memories,
    RegionWorkingSet.lookup_insertMemory, if_neg (by rw [closedInto, key]; exact other)]

theorem MergedInto.sameRows (merged : MergedInto engine now commitAt c cycle after survivor m) :
    SameRows cycle.workingSet after.workingSet := by
  intro id
  by_cases same : id = c.b
  · have key : m.id = c.b := cycle.workingSet.memoryKeys _ _ merged.found
    rw [merged.workingSet, RegionWorkingSet.applyRelationshipWrites_memories,
      RegionWorkingSet.lookup_insertMemory, closedInto, if_pos (same.trans key.symm), same,
      merged.found]
    rfl
  · rw [merged.other_lookup same]

theorem merge_sameRows (engine : DreamsEngine) (lease : OwnerLease) (now commitAt : DateTime)
    (c : MergeCandidate) (cycle : Consolidation) :
    SameRows cycle.workingSet (merge engine lease now commitAt c cycle).2.workingSet := by
  rcases merge_cases engine lease now commitAt c cycle with ⟨same, -, -⟩ | ⟨survivor, m, merged⟩
  · rw [same]
    exact SameRows.refl _
  · exact merged.sameRows

/-- Every turn of the loop keeps the rows, and so does the loop. -/
theorem mergeCandidates_sameRows (engine : DreamsEngine) (lease : OwnerLease)
    (turns : List (MergeCandidate × MergeTurn)) : ∀ cycle : Consolidation,
    SameRows cycle.workingSet (mergeCandidates engine lease turns cycle).2.workingSet := by
  induction turns with
  | nil => exact fun cycle => SameRows.refl _
  | cons turn rest ih =>
      intro cycle
      obtain ⟨c, turn⟩ := turn
      have one : SameRows cycle.workingSet (mergeTurn engine lease c turn cycle).2.workingSet :=
        merge_sameRows engine lease turn.now turn.commitAt c _
      rw [mergeCandidates]
      split
      · split
        · next error after failed =>
            rw [failed] at one
            exact one
        · next done after passed =>
            rw [passed] at one
            exact one.trans (ih after)
      · exact ih cycle

/-! ## Which of the two rows stays -/

/-- The loop of a cycle has come to a candidate: it began with the given working set, whose
anchors were taken at `anchoredAt`, and went without an error through the candidates before
it, at most 31 of them. -/
structure Reaches (engine : DreamsEngine) (lease : OwnerLease)
    (cosine : List F32 → List F32 → F32) (anchoredAt : DateTime) (loaded : RegionWorkingSet)
    (c : MergeCandidate) (cycle : Consolidation) : Prop where
  reached : ∃ (start : Consolidation) (turns : List (MergeCandidate × MergeTurn)),
    start.workingSet = loaded ∧ start.merged = [] ∧ start.rewired = [] ∧ start.abstracted = [] ∧
    (turns.map (·.1) ++ [c]) <+: (identifyMergeCandidates cosine
      (selectAnchors anchoredAt loaded)).take 32 ∧
    mergeCandidates engine lease turns start = (.ok (), cycle)
  similar : mergeBar.le c.cosineSimilarity

namespace Reaches

variable {engine : DreamsEngine} {lease : OwnerLease} {cosine : List F32 → List F32 → F32}
  {anchoredAt : DateTime} {loaded : RegionWorkingSet} {c : MergeCandidate} {cycle : Consolidation}

theorem candidate (reaches : Reaches engine lease cosine anchoredAt loaded c cycle) :
    c ∈ identifyMergeCandidates cosine (selectAnchors anchoredAt loaded) := by
  obtain ⟨start, turns, -, -, -, -, among, -⟩ := reaches.reached
  exact List.mem_of_mem_take
    (among.subset (List.mem_append_right _ List.mem_cons_self))

theorem sameRows (reaches : Reaches engine lease cosine anchoredAt loaded c cycle) :
    SameRows loaded cycle.workingSet := by
  obtain ⟨start, turns, rfl, -, -, -, -, run⟩ := reaches.reached
  have kept := mergeCandidates_sameRows engine lease turns start
  rw [run] at kept
  exact kept

end Reaches

/-- Two rows are of one whole day, and the one with the larger identity is not the younger. -/
def OlderHasLargerId (now : DateTime) (first second : Memory) : Prop :=
  ageDays now first.recordedAt = ageDays now second.recordedAt ∧
    (second.id.raw.le first.id.raw → first.recordedAt ≤ second.recordedAt) ∧
    (first.id.raw.le second.id.raw → second.recordedAt ≤ first.recordedAt)

/-- Age in whole days follows the order of time. -/
theorem ageDays_anti (now : DateTime) {earlier later : DateTime} (order : earlier ≤ later) :
    ageDays now later ≤ ageDays now earlier := by
  have less : now - later ≤ now - earlier := Int.sub_le_sub_left order now
  exact Int.tdiv_le_tdiv (by decide) (Int.tdiv_le_tdiv (by decide) less)

/-- Of two different rows, the one that stands first is not the younger exactly when the
older one has the larger identity and they are of one day. -/
theorem StandsBefore.recordedAt_le_iff {left right : Memory}
    (before : StandsBefore now left right) (distinct : left.id ≠ right.id) :
    left.recordedAt ≤ right.recordedAt ↔ OlderHasLargerId now left right := by
  constructor
  · intro order
    have notLess := ageDays_anti now order
    rcases before with less | ⟨same, larger⟩
    · omega
    · refine ⟨same, fun _ => order, fun smaller => ?_⟩
      exact absurd (congrArg MemoryId.mk (Bytes.le_antisymm smaller larger)) distinct
  · rintro ⟨same, larger, -⟩
    rcases before with less | ⟨-, above⟩
    · omega
    · exact larger above

/-- **A merge leaves the older memory open exactly when the two are of one day and the older
has the larger identity**, in every cycle and at every candidate that it comes to. -/
theorem merge_keeps_older_iff {engine : DreamsEngine} {lease : OwnerLease}
    {cosine : List F32 → List F32 → F32} {anchoredAt : DateTime} {loaded : RegionWorkingSet}
    {c : MergeCandidate} {cycle : Consolidation}
    (reaches : Reaches engine lease cosine anchoredAt loaded c cycle) (turn : MergeTurn)
    (listed : (mergeTurn engine lease c turn cycle).2.merged = cycle.merged ++ [c.b]) :
    ∃ first second survivor closed,
      loaded.memories.lookup c.a = some first ∧ loaded.memories.lookup c.b = some second ∧
      (mergeTurn engine lease c turn cycle).2.workingSet.memories.lookup c.a = some survivor ∧
      survivor.validUntil = none ∧
      (mergeTurn engine lease c turn cycle).2.store.currentMemory c.b = some closed ∧
      closed.validUntil = some turn.now ∧
      (survivor.recordedAt ≤ closed.recordedAt ↔ OlderHasLargerId anchoredAt first second) := by
  obtain ⟨distinct, first, second, firstFound, secondFound, -, before⟩ :=
    candidate_order reaches.candidate
  obtain ⟨survivor, m, merged⟩ := merge_committed listed
  obtain ⟨lsn, current⟩ := merged.currentMemory_closed
  refine ⟨first, second, survivor, { closedInto turn.now c m with lsn := lsn }, firstFound,
    secondFound, ?_, merged.survivorOpen, current, rfl, ?_⟩
  · exact (merged.other_lookup distinct).trans merged.survivorFound
  · have keys : first.id ≠ second.id := by
      rw [loaded.memoryKeys _ _ firstFound, loaded.memoryKeys _ _ secondFound]
      exact distinct
    have survivorAt := congrArg Memory.recordedAt
      (reaches.sameRows.standing_eq firstFound merged.survivorFound)
    have closedAt := congrArg Memory.recordedAt
      (reaches.sameRows.standing_eq secondFound merged.found)
    change survivor.recordedAt = first.recordedAt at survivorAt
    change m.recordedAt = second.recordedAt at closedAt
    rw [survivorAt]
    show first.recordedAt ≤ m.recordedAt ↔ _
    rw [closedAt]
    exact before.recordedAt_le_iff keys

/-- A private memory of one user, with an embedding. -/
def embeddedNote (id : UInt8) (recordedAt : DateTime) : Memory :=
  { Memory.blank ⟨.fill 16 id⟩ with
    recordedAt := recordedAt
    context := ⟨0, none, none, some "acme", none, some "ada", []⟩
    embedding := some ⟨⟨"model", "1"⟩, [F32.one]⟩ }

def noteEngine : DreamsEngine := ⟨Env.blank, .dreams "acme" "project:*", ⟨∅⟩⟩

/-- The lease on the region of the notes. -/
def noteLease : OwnerLease :=
  ⟨noteEngine.key, "in-memory", 1, 0, 60, graceDuration, fencingToken 1⟩

/-- A cycle that has just read what a new store was given. -/
def Consolidation.over (env : Env) (ms : List Memory) (rs : List Relationship) : Consolidation where
  store := Call.runAll env .new [(0, .acquireLease noteEngine.key 60), (0, .upsertBatch ms rs)]
  workingSet := rs.foldl RegionWorkingSet.insertRelationship
    (ms.foldl RegionWorkingSet.insertMemory .empty)
  journal := .new "cycle"
  merged := []
  rewired := []
  abstracted := []

/-- The candidate pair of two notes that are the same. -/
def notePair (a b : UInt8) : MergeCandidate := ⟨⟨.fill 16 a⟩, ⟨.fill 16 b⟩, F32.one, F32.one⟩

theorem reaches_notePair : Reaches noteEngine noteLease (fun _ _ => F32.one) 10
    (Consolidation.over Env.blank [embeddedNote 1 9, embeddedNote 2 8] []).workingSet
    (notePair 2 1) (Consolidation.over Env.blank [embeddedNote 1 9, embeddedNote 2 8] []) :=
  ⟨⟨_, [], rfl, rfl, rfl, rfl, by decide +kernel, rfl⟩, by decide⟩

theorem merge_keeps_older_of_one_day :
    ∃ survivor closed : Memory,
      (mergeTurn noteEngine noteLease (notePair 2 1) ⟨[], 10, 10⟩ (Consolidation.over Env.blank
        [embeddedNote 1 9, embeddedNote 2 8] [])).2.workingSet.memories.lookup ⟨.fill 16 2⟩ =
          some survivor ∧
      (mergeTurn noteEngine noteLease (notePair 2 1) ⟨[], 10, 10⟩ (Consolidation.over Env.blank
        [embeddedNote 1 9, embeddedNote 2 8] [])).2.store.currentMemory ⟨.fill 16 1⟩ =
          some closed ∧
      survivor.recordedAt ≤ closed.recordedAt := by
  obtain ⟨first, second, survivor, closed, firstFound, secondFound, kept, -, current, -, iff⟩ :=
    merge_keeps_older_iff reaches_notePair ⟨[], 10, 10⟩ (by decide +kernel)
  cases firstFound
  cases secondFound
  exact ⟨survivor, closed, kept, current, iff.mpr ⟨by decide, by decide, by decide⟩⟩

/-- A day, in nanoseconds. -/
def oneDay : ℤ := 86400000000000

theorem reaches_notePair_days : Reaches noteEngine noteLease (fun _ _ => F32.one) oneDay
    (Consolidation.over Env.blank [embeddedNote 1 0, embeddedNote 2 oneDay] []).workingSet
    (notePair 2 1) (Consolidation.over Env.blank [embeddedNote 1 0, embeddedNote 2 oneDay] []) :=
  ⟨⟨_, [], rfl, rfl, rfl, rfl, by decide +kernel, rfl⟩, by decide⟩

/-- A note of the day before is closed, and that of the day is left. -/
theorem not_merge_keeps_older :
    ¬ ∀ (engine : DreamsEngine) (lease : OwnerLease) (cosine : List F32 → List F32 → F32)
      (anchoredAt : DateTime) (loaded : RegionWorkingSet) (c : MergeCandidate)
      (cycle : Consolidation) (turn : MergeTurn) (survivor closed : Memory),
      (∀ left right, cosine left right = cosine right left) →
      Reaches engine lease cosine anchoredAt loaded c cycle →
      (mergeTurn engine lease c turn cycle).2.merged = cycle.merged ++ [c.b] →
      (mergeTurn engine lease c turn cycle).2.workingSet.memories.lookup c.a = some survivor →
      (mergeTurn engine lease c turn cycle).2.store.currentMemory c.b = some closed →
      survivor.recordedAt ≤ closed.recordedAt := by
  intro always
  have wrong := always noteEngine noteLease (fun _ _ => F32.one) oneDay _ (notePair 2 1) _
    ⟨[], oneDay, 10⟩ (embeddedNote 2 oneDay)
    { embeddedNote 1 0 with
      validUntil := some oneDay, invalidatedBy := some ⟨.fill 16 2⟩, lsn := LSN.newBackend 3 }
    (fun _ _ => rfl) reaches_notePair_days (by decide +kernel) (by decide +kernel)
    (by decide +kernel)
  exact absurd wrong (by decide)

end Exocortex
