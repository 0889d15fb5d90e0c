import Exocortex.Dreams.Merge

/-!
# What a merge does to readers and to edges

A merge looks at the type and the similarity of two memories, and at the edges of the working
set. Two things are therefore left to the rows that it meets.

The readers of the closed memory are readers of the survivor exactly when its audience lies
within the survivor's, and a rewired edge, which keeps its label, is no wider than its ends
exactly when the edge that it replaces was no wider than the survivor and its other end.

In the store, no open edge is left at the closed memory, and each edge has its counterpart at
the survivor, exactly when every open edge there joins two memories and the working set, which may
be older than the store, carries it over (`EdgesCarriedOver`).
-/

namespace Exocortex

open Library InMemoryStorage

/-! ## Rewired edges -/

/-- A row of the store that a merge has rewired. -/
def Rewired (cycle after : Consolidation) (row : Relationship) : Prop :=
  row.id ∈ after.rewired.drop cycle.rewired.length ∧
    after.store.currentRelationship row.id = some row

/-- An edge at the merged memory has its counterpart in the batch: it is the last of those
that are rewired to one identity. -/
def IsRewired (env : Env) (now : DateTime) (c : MergeCandidate) (ws : RegionWorkingSet)
    (r : Relationship) : Prop :=
  moves env now c ws r = some (rewire env now c r) ∧
    lastWith Relationship.id (rewire env now c r).id
      ((ws.edgesAt c.b).filterMap (moves env now c ws)) = some (rewire env now c r)

section Ends

variable {env : Env} {now : DateTime} {c : MergeCandidate} {ws : RegionWorkingSet}
  {r row : Relationship}

/-- Neither end of a rewired edge is the closed memory. -/
theorem rewire_ends_ne (env : Env) (now : DateTime) (r : Relationship) (distinct : c.a ≠ c.b) :
    (rewire env now c r).source ≠ c.b ∧ (rewire env now c r).target ≠ c.b := by
  constructor
  · show (if r.source = c.b then c.a else r.source) ≠ c.b
    split
    · exact distinct
    · assumption
  · show (if r.target = c.b then c.a else r.target) ≠ c.b
    split
    · exact distinct
    · assumption

theorem rewire_survivor (env : Env) (now : DateTime) (edge : r ∈ ws.edgesAt c.b) :
    (rewire env now c r).source = c.a ∨ (rewire env now c r).target = c.a := by
  obtain ⟨-, -, source | target⟩ := mem_edgesAt.mp edge
  · exact .inl (if_pos source)
  · exact .inr (if_pos target)

/-- The ends of a rewired edge are the survivor and the ends that were not the closed
memory. -/
theorem rewire_end_iff (env : Env) (now : DateTime) (edge : r ∈ ws.edgesAt c.b) {id : MemoryId} :
    (id = (rewire env now c r).source ∨ id = (rewire env now c r).target) ↔
      id = c.a ∨ (id = r.source ∨ id = r.target) ∧ id ≠ c.b := by
  have side (other : MemoryId) (is : id = if other = c.b then c.a else other) :
      id = c.a ∨ id = other ∧ id ≠ c.b := by
    split at is
    · exact .inl is
    · next apart =>
        subst is
        exact .inr ⟨rfl, apart⟩
  constructor
  · rintro (source | target)
    · exact (side _ source).imp_right fun own => ⟨.inl own.1, own.2⟩
    · exact (side _ target).imp_right fun own => ⟨.inr own.1, own.2⟩
  · rintro (rfl | ⟨rfl | rfl, apart⟩)
    · exact (rewire_survivor env now edge).imp Eq.symm Eq.symm
    · exact .inl (if_neg apart).symm
    · exact .inr (if_neg apart).symm

/-- An edge that is rewired is an edge at the closed memory. -/
theorem IsRewired.of_last (last : lastWith Relationship.id row.id
      ((ws.edgesAt c.b).filterMap (moves env now c ws)) = some row) :
    ∃ r ∈ ws.edgesAt c.b, IsRewired env now c ws r ∧ row = rewire env now c r := by
  obtain ⟨r, edge, moved⟩ := List.mem_filterMap.mp (lastWith_some last).1
  obtain ⟨rfl, -, -⟩ := moves_eq_some.mp moved
  exact ⟨r, edge, ⟨moved, last⟩, rfl⟩

end Ends

variable {row r : Relationship} {ws : RegionWorkingSet} {name : EdgeName} {s : InMemoryStorage}

section Store

variable {engine : DreamsEngine} {now commitAt : DateTime} {c : MergeCandidate}
  {cycle after : Consolidation} {survivor m : Memory}

/-- The rows of the batch are current in the store. -/
theorem MergedInto.listed (merged : MergedInto engine now commitAt c cycle after survivor m)
    (member : row ∈ mergeWrites engine.env now c cycle m) :
    ∃ lsn, after.store.currentRelationship row.id = some { row with lsn := lsn } := by
  obtain ⟨records, events, t, batch, -, rels⟩ := merged.committed
  have last : lastWith Relationship.id row.id (mergeWrites engine.env now c cycle m) =
      some row := lastWith_of_nodup writes_nodup member
  rw [currentRelationship, rels]
  exact upsertBatchLocked_listed batch member last

/-- Each edge that is rewired has its counterpart in the store. -/
theorem MergedInto.rewired_current
    (merged : MergedInto engine now commitAt c cycle after survivor m)
    (edge : r ∈ cycle.workingSet.edgesAt c.b)
    (isRewired : IsRewired engine.env now c cycle.workingSet r) :
    ∃ lsn, Rewired cycle after { rewire engine.env now c r with lsn := lsn } := by
  obtain ⟨moved, last⟩ := isRewired
  obtain ⟨lsn, current⟩ := merged.listed ((open_mem_writes rfl).mpr last)
  refine ⟨lsn, ?_, current⟩
  rw [merged.rewired, List.drop_left]
  exact List.mem_map.mpr ⟨_, List.mem_filterMap.mpr ⟨r, edge, moved⟩, rfl⟩

/-- A rewired row of the store is the counterpart of an edge. -/
theorem MergedInto.of_rewired (merged : MergedInto engine now commitAt c cycle after survivor m)
    (isRewired : Rewired cycle after row) :
    ∃ r ∈ cycle.workingSet.edgesAt c.b, IsRewired engine.env now c cycle.workingSet r ∧
      ∃ lsn, row = { rewire engine.env now c r with lsn := lsn } := by
  obtain ⟨listed, current⟩ := isRewired
  rw [merged.rewired, List.drop_left] at listed
  cases found : lastWith Relationship.id row.id ((cycle.workingSet.edgesAt c.b).filterMap
      (moves engine.env now c cycle.workingSet)) with
  | none =>
      obtain ⟨moved, inside, same⟩ := List.mem_map.mp listed
      exact absurd same (lastWith_eq_none.mp found moved inside)
  | some last =>
      have same : last.id = row.id := (lastWith_some found).2
      rw [← same] at found
      obtain ⟨r, edge, isRewired, rfl⟩ := IsRewired.of_last found
      obtain ⟨lsn, written⟩ := merged.listed ((open_mem_writes rfl).mpr found)
      rw [← same] at current
      exact ⟨r, edge, isRewired, lsn, Option.some.inj (current.symm.trans written)⟩

end Store

/-! ## Readers -/

/-- What a merge owes to readers: whoever reads the closed memory reads the survivor, a
rewired edge is no wider than either of its ends, it is seen by nobody who reads neither of
the two memories, and both are of one tenant. -/
structure KeepsAccess (cycle after : Consolidation) (survivor m : Memory) : Prop where
  readers : ∀ vc, memoryVisible m vc → memoryVisible survivor vc
  labels : ∀ row, Rewired cycle after row → ∀ id, id = row.source ∨ id = row.target →
    ∀ found, after.workingSet.memories.lookup id = some found →
      row.visibility.rank ≤ found.visibility.rank
  strangers : ∀ row, Rewired cycle after row → ∀ source target,
    after.workingSet.memories.lookup row.source = some source →
    after.workingSet.memories.lookup row.target = some target →
    ∀ vc, ¬ memoryVisible m vc → ¬ memoryVisible survivor vc →
      ¬ relationshipVisible row source target vc
  tenant : survivor.context.tenantId = m.context.tenantId

/-- The memory to be closed has its audience within that of the survivor and in the same
tenant, and each of its edges that is rewired is no wider than the survivor and than its other
end. -/
structure WithinSurvivor (env : Env) (now : DateTime) (c : MergeCandidate)
    (ws : RegionWorkingSet) (survivor m : Memory) : Prop where
  audience : m.AudienceWithin survivor
  tenant : survivor.context.tenantId = m.context.tenantId
  edges : ∀ r ∈ ws.edgesAt c.b, IsRewired env now c ws r →
    r.visibility.rank ≤ survivor.visibility.rank ∧
      ∀ id, id = r.source ∨ id = r.target → id ≠ c.b →
        ∀ found, ws.memories.lookup id = some found → r.visibility.rank ≤ found.visibility.rank

section Access

variable {engine : DreamsEngine} {now commitAt : DateTime} {c : MergeCandidate}
  {cycle after : Consolidation} {survivor m : Memory}

/-- A rewired edge is seen by readers of the survivor only. -/
theorem MergedInto.strangers (merged : MergedInto engine now commitAt c cycle after survivor m)
    (distinct : c.a ≠ c.b) (isRewired : Rewired cycle after row) {source target : Memory}
    (sourceFound : after.workingSet.memories.lookup row.source = some source)
    (targetFound : after.workingSet.memories.lookup row.target = some target)
    {vc : VisibilityContext} (visible : relationshipVisible row source target vc) :
    memoryVisible survivor vc := by
  obtain ⟨r, edge, -, lsn, rfl⟩ := merged.of_rewired isRewired
  have kept := (merged.other_lookup distinct).trans merged.survivorFound
  obtain ⟨left, right⟩ := relationshipVisible_ends visible
  rcases rewire_survivor engine.env now edge with isSource | isTarget
  · change after.workingSet.memories.lookup (rewire engine.env now c r).source = _ at sourceFound
    rw [isSource, kept] at sourceFound
    cases sourceFound
    exact left
  · change after.workingSet.memories.lookup (rewire engine.env now c r).target = _ at targetFound
    rw [isTarget, kept] at targetFound
    cases targetFound
    exact right

/-- A rewired edge is no wider than its ends when the edge it replaces is no wider than the
survivor and its other end. -/
theorem MergedInto.labels_iff (merged : MergedInto engine now commitAt c cycle after survivor m)
    (distinct : c.a ≠ c.b) :
    (∀ row, Rewired cycle after row → ∀ id, id = row.source ∨ id = row.target →
      ∀ found, after.workingSet.memories.lookup id = some found →
        row.visibility.rank ≤ found.visibility.rank) ↔
    ∀ r ∈ cycle.workingSet.edgesAt c.b, IsRewired engine.env now c cycle.workingSet r →
      r.visibility.rank ≤ survivor.visibility.rank ∧
        ∀ id, id = r.source ∨ id = r.target → id ≠ c.b →
          ∀ found, cycle.workingSet.memories.lookup id = some found →
            r.visibility.rank ≤ found.visibility.rank := by
  have kept := (merged.other_lookup distinct).trans merged.survivorFound
  constructor
  · intro labels r edge isRewired
    obtain ⟨lsn, rewired⟩ := merged.rewired_current edge isRewired
    have narrow := labels _ rewired
    refine ⟨narrow c.a ((rewire_end_iff engine.env now edge).mpr (.inl rfl)) survivor kept, ?_⟩
    intro id isEnd apart found lookup
    exact narrow id ((rewire_end_iff engine.env now edge).mpr (.inr ⟨isEnd, apart⟩)) found
      ((merged.other_lookup apart).trans lookup)
  · intro edges row rewired id isEnd found lookup
    obtain ⟨r, edge, isRewired, lsn, rfl⟩ := merged.of_rewired rewired
    obtain ⟨narrow, other⟩ := edges r edge isRewired
    rcases (rewire_end_iff engine.env now edge).mp isEnd with rfl | ⟨own, apart⟩
    · rw [kept] at lookup
      cases lookup
      exact narrow
    · exact other id own apart found ((merged.other_lookup apart).symm.trans lookup)

end Access

/-- **A merge neither takes access away nor widens it exactly when the closed memory lies
within the survivor's scope**, at every candidate that a cycle comes to. -/
theorem merge_keepsAccess_iff {engine : DreamsEngine} {lease : OwnerLease}
    {cosine : List F32 → List F32 → F32} {anchoredAt : DateTime} {loaded : RegionWorkingSet}
    {c : MergeCandidate} {cycle : Consolidation}
    (reaches : Reaches engine lease cosine anchoredAt loaded c cycle) (turn : MergeTurn)
    (listed : (mergeTurn engine lease c turn cycle).2.merged = cycle.merged ++ [c.b]) :
    ∃ survivor m, cycle.workingSet.memories.lookup c.a = some survivor ∧
      cycle.workingSet.memories.lookup c.b = some m ∧
      (KeepsAccess cycle (mergeTurn engine lease c turn cycle).2 survivor m ↔
        WithinSurvivor engine.env turn.now c cycle.workingSet survivor m) := by
  obtain ⟨distinct, -⟩ := candidate_order reaches.candidate
  obtain ⟨survivor, m, merged⟩ := merge_committed listed
  refine ⟨survivor, m, merged.survivorFound, merged.found, ?_⟩
  constructor
  · intro keeps
    exact ⟨readers_subset_iff.mp keeps.readers, keeps.tenant,
      (merged.labels_iff distinct).mp keeps.labels⟩
  · intro within
    refine ⟨readers_subset_iff.mpr within.audience,
      (merged.labels_iff distinct).mpr within.edges, ?_, within.tenant⟩
    intro row rewired source target sourceFound targetFound vc _ stranger visible
    exact stranger (merged.strangers distinct rewired sourceFound targetFound visible)

theorem merge_keepsAccess_of_one_user :
    KeepsAccess (Consolidation.over Env.blank [embeddedNote 1 9, embeddedNote 2 8] [])
      (mergeTurn noteEngine noteLease (notePair 2 1) ⟨[], 10, 10⟩ (Consolidation.over Env.blank
        [embeddedNote 1 9, embeddedNote 2 8] [])).2 (embeddedNote 2 8) (embeddedNote 1 9) := by
  obtain ⟨survivor, m, survivorFound, found, iff⟩ :=
    merge_keepsAccess_iff reaches_notePair ⟨[], 10, 10⟩ (by decide +kernel)
  cases survivorFound
  cases found
  refine iff.mpr ⟨by decide, rfl, ?_⟩
  intro r edge
  exact absurd edge List.not_mem_nil

/-- A note of another user in the same tenant. -/
def notedBy (user : String) (id : UInt8) : Memory :=
  { embeddedNote id 0 with context := ⟨0, none, none, some "acme", none, some user, []⟩ }

theorem reaches_two_users : Reaches noteEngine noteLease (fun _ _ => F32.one) 0
    (Consolidation.over Env.blank [notedBy "bob" 1, notedBy "ada" 2] []).workingSet
    (notePair 2 1) (Consolidation.over Env.blank [notedBy "bob" 1, notedBy "ada" 2] []) :=
  ⟨⟨_, [], rfl, rfl, rfl, rfl, by decide +kernel, rfl⟩, by decide⟩

/-- A private note of one user is closed in favour of a private note of another. -/
theorem not_merge_keepsAccess :
    ¬ ∀ (engine : DreamsEngine) (lease : OwnerLease) (cosine : List F32 → List F32 → F32)
      (anchoredAt : DateTime) (loaded : RegionWorkingSet) (c : MergeCandidate)
      (cycle : Consolidation) (turn : MergeTurn) (survivor m : Memory),
      Reaches engine lease cosine anchoredAt loaded c cycle →
      (mergeTurn engine lease c turn cycle).2.merged = cycle.merged ++ [c.b] →
      cycle.workingSet.memories.lookup c.a = some survivor →
      cycle.workingSet.memories.lookup c.b = some m →
      KeepsAccess cycle (mergeTurn engine lease c turn cycle).2 survivor m := by
  intro always
  have keeps := always noteEngine noteLease (fun _ _ => F32.one) 0 _ (notePair 2 1) _
    ⟨[], 10, 10⟩ (notedBy "ada" 2) (notedBy "bob" 1) reaches_two_users (by decide +kernel)
    (by decide +kernel) (by decide +kernel)
  exact absurd (keeps.readers ⟨"bob", "acme", [], [], .private⟩ (by decide)) (by decide)

/-! ## Edges -/

/-- The working set has the relationships between memories of a region as the store has them:
under their identities, with their names, open or closed. -/
structure Agrees (region : RegionKey) (s : InMemoryStorage) (ws : RegionWorkingSet) : Prop where
  held : ∀ id r, s.currentRelationship id = some r → s.inRegion region r.source →
    s.inRegion region r.target → ∃ q, ws.relationships.lookup id = some q ∧ q.name = r.name ∧
      (q.validUntil = none ↔ r.validUntil = none)
  only : ∀ id q, ws.relationships.lookup id = some q → ∃ r, s.currentRelationship id = some r ∧
    q.name = r.name ∧ (q.validUntil = none ↔ r.validUntil = none) ∧
      s.inRegion region r.source ∧ s.inRegion region r.target

theorem RegionWorkingSet.foldl_insertMemory_relationships (ms : List Memory)
    (ws : RegionWorkingSet) :
    (ms.foldl RegionWorkingSet.insertMemory ws).relationships = ws.relationships := by
  induction ms generalizing ws with
  | nil => rfl
  | cons m rest ih => exact ih (ws.insertMemory m)

theorem RegionWorkingSet.lookup_foldl_insertRelationship (rs : List Relationship)
    (ws : RegionWorkingSet) (id : RelationshipId) :
    (rs.foldl RegionWorkingSet.insertRelationship ws).relationships.lookup id =
      (lastWith Relationship.id id rs).or (ws.relationships.lookup id) := by
  induction rs using List.reverseRecOn with
  | nil =>
      rw [lastWith_nil]
      rfl
  | append_singleton rs r ih =>
      rw [List.foldl_append, List.foldl_cons, List.foldl_nil, lookup_insertRelationship,
        lastWith_concat]
      by_cases same : id = r.id
      · rw [if_pos same, if_pos same.symm]
        rfl
      · rw [if_neg same, if_neg (Ne.symm same)]
        exact ih

/-- What a cycle reads agrees with the store it reads from. -/
theorem agrees_loadRegionWorkingSet {region : RegionKey} {first second : InMemoryStorage}
    (keyed : Keyed second.rows) (read : loadRegionWorkingSet region first second = .ok ws) :
    Agrees region second ws := by
  rw [loadRegionWorkingSet] at read
  cases memories : first.memoriesInRegion region maxRegionRows with
  | error error =>
      rw [memories] at read
      cases read
  | ok ms =>
      cases relationships : second.currentRelationshipsInRegion region maxRegionRows with
      | error error =>
          rw [memories, relationships] at read
          cases read
      | ok rs =>
          rw [memories, relationships] at read
          cases read
          have lookup (id : RelationshipId) : (rs.foldl RegionWorkingSet.insertRelationship
              (ms.foldl RegionWorkingSet.insertMemory .empty)).relationships.lookup id =
                lastWith Relationship.id id rs := by
            rw [RegionWorkingSet.lookup_foldl_insertRelationship,
              RegionWorkingSet.foldl_insertMemory_relationships]
            exact Option.or_none
          have listed (r : Relationship) : r ∈ rs ↔ second.currentRelationship r.id = some r ∧
              second.inRegion region r.source ∧ second.inRegion region r.target := by
            rw [mem_currentRelationshipsInRegion relationships, keyed.mem_relationships]
          constructor
          · intro id r current source target
            have key := keyed.relationship_id current
            have member := (listed r).mpr ⟨key.symm ▸ current, source, target⟩
            cases last : lastWith Relationship.id id rs with
            | none => exact absurd key (lastWith_eq_none.mp last r member)
            | some q =>
                obtain ⟨inside, same⟩ := lastWith_some last
                obtain ⟨found, -⟩ := (listed q).mp inside
                rw [same, current] at found
                cases found
                exact ⟨r, (lookup id).trans last, rfl, Iff.rfl⟩
          · intro id q found
            obtain ⟨inside, same⟩ := lastWith_some ((lookup id).symm.trans found)
            obtain ⟨current, source, target⟩ := (listed q).mp inside
            exact ⟨q, same ▸ current, rfl, Iff.rfl, source, target⟩

/-- The name with the survivor in the place of the memory to be closed. -/
def EdgeName.moved (c : MergeCandidate) (name : EdgeName) : EdgeName where
  source := if name.source = c.b then c.a else name.source
  kind := name.kind
  target := if name.target = c.b then c.a else name.target

/-- The names that go with an identity in a merge: those of the rows in the store, of the edges at
the closed memory that the working set has, of these when they are rewired, and of companions. -/
inductive NamedAs (env : Env) (c : MergeCandidate) (s : InMemoryStorage) (ws : RegionWorkingSet) :
    RelationshipId → EdgeName → Prop where
  | stored {id : RelationshipId} {r : Relationship} (current : s.currentRelationship id = some r) :
      NamedAs env c s ws id r.name
  | edge {q : Relationship} (edge : q ∈ ws.edgesAt c.b) : NamedAs env c s ws q.id q.name
  | rewired {q : Relationship} (edge : q ∈ ws.edgesAt c.b) :
      NamedAs env c s ws ((q.name.moved c).id env) (q.name.moved c)
  | companion {q : Relationship} {name : EdgeName} (edge : q ∈ ws.edgesAt c.b)
      (of : name ∈ q.name.companion env ∨ name ∈ (q.name.moved c).companion env) :
      NamedAs env c s ws (name.id env) name

/-- No two names at hand have one identity. -/
def NoCollision (env : Env) (c : MergeCandidate) (s : InMemoryStorage) (ws : RegionWorkingSet) :
    Prop :=
  ∀ id left right, NamedAs env c s ws id left → NamedAs env c s ws id right → left = right

/-- The store has an open edge of that name. -/
def HasOpen (s : InMemoryStorage) (name : EdgeName) : Prop :=
  ∃ id r, s.currentRelationship id = some r ∧ r.validUntil = none ∧ r.name = name

/-- An edge of the store at the memory to be closed joins two memories; the working set has it
open, or one whose companion it is; and if it does not lead to the survivor, its counterpart is
open in the store, or such an edge of the working set has none that is open there. -/
structure CarriedOver (env : Env) (c : MergeCandidate) (s : InMemoryStorage)
    (ws : RegionWorkingSet) (id : RelationshipId) (r : Relationship) : Prop where
  straight : r.source ≠ r.target
  known : ∃ q ∈ ws.edgesAt c.b, q.id = id ∨ ∃ name ∈ q.name.companion env, name.id env = id
  counterpart : r.source ≠ c.a → r.target ≠ c.a → HasOpen s (r.name.moved c) ∨
    ∃ q ∈ ws.edgesAt c.b, (q.name = r.name ∨ r.name ∈ q.name.companion env) ∧
      ¬ (ws.relationships.lookup ((q.name.moved c).id env)).any (·.validUntil.isNone)

/-- Every open edge of the store at the memory to be closed is carried over. -/
def EdgesCarriedOver (env : Env) (c : MergeCandidate) (s : InMemoryStorage)
    (ws : RegionWorkingSet) : Prop :=
  ∀ id r, s.currentRelationship id = some r → r.validUntil = none →
    r.source = c.b ∨ r.target = c.b → CarriedOver env c s ws id r

/-- Every open edge at a memory joins two different memories of the region. -/
def EdgesWithin (region : RegionKey) (s : InMemoryStorage) (id : MemoryId) : Prop :=
  ∀ rid r, s.currentRelationship rid = some r → r.validUntil = none →
    r.source = id ∨ r.target = id →
      r.source ≠ r.target ∧ s.inRegion region r.source ∧ s.inRegion region r.target

section Names

variable {env : Env} {c : MergeCandidate} {s : InMemoryStorage} {ws : RegionWorkingSet}

theorem mem_companion_moved {other : EdgeName} :
    other.moved c ∈ (name.moved c).companion env ↔
      ∃ mate ∈ name.companion env, mate.moved c = other.moved c := by
  simp only [EdgeName.companion, Option.mem_def, Option.map_eq_some_iff]
  constructor
  · rintro ⟨kind, inverse, same⟩
    exact ⟨_, ⟨kind, inverse, rfl⟩, same⟩
  · rintro ⟨_, ⟨kind, inverse, rfl⟩, same⟩
    exact ⟨kind, inverse, same⟩

/-- A companion is at the closed memory when its edge is. -/
theorem companion_ends {mate : EdgeName} (found : mate ∈ name.companion env) :
    mate.source = name.target ∧ mate.target = name.source := by
  obtain ⟨kind, -, rfl⟩ := Option.map_eq_some_iff.mp found
  exact ⟨rfl, rfl⟩

end Names

section Conservation

variable {engine : DreamsEngine} {now commitAt : DateTime} {c : MergeCandidate}
  {cycle after : Consolidation} {survivor m : Memory} {region : RegionKey}

variable {mate : Relationship}

/-- A companion joins the ends of its edge the other way round, and is open when it is. -/
theorem inverse_ends {env : Env} (found : env.inverse row = some mate) :
    mate.source = row.target ∧ mate.target = row.source ∧ mate.validUntil = row.validUntil := by
  obtain ⟨name, companion, -, named, validity⟩ := inverse_some found
  rw [EdgeName.companion] at companion
  obtain ⟨kind, -, rfl⟩ := Option.map_eq_some_iff.mp companion
  rw [Relationship.name, EdgeName.mk.injEq] at named
  exact ⟨named.1, named.2.2, validity⟩

variable {id : RelationshipId}

/-- An identity that the batch does not list, and that none of its companions has, keeps its
version. -/
theorem MergedInto.current_of_free
    (merged : MergedInto engine now commitAt c cycle after survivor m)
    (unlisted : ∀ row ∈ mergeWrites engine.env now c cycle m, row.id ≠ id)
    (free : ∀ row ∈ mergeWrites engine.env now c cycle m, ∀ mate,
      engine.env.inverse row = some mate → mate.id ≠ id) :
    after.store.currentRelationship id = cycle.store.currentRelationship id := by
  obtain ⟨records, events, t, batch, -, rels⟩ := merged.committed
  rw [currentRelationship, rels]
  rcases upsertBatchLocked_unlisted batch unlisted with
    ⟨row, member, mate, lsn, found, identity, written⟩ | ⟨same, -⟩
  · exact absurd identity (free row member mate found)
  · exact same

/-- An open row of the batch does not touch the closed memory; a closed one has the name and
the identity of an edge there. -/
theorem mergeWrites_cases (distinct : c.a ≠ c.b)
    (member : row ∈ mergeWrites engine.env now c cycle m) :
    (∃ q ∈ cycle.workingSet.edgesAt c.b, row.id = q.id ∧ row.name = q.name ∧
      row.validUntil = some now) ∨
    (∃ q ∈ cycle.workingSet.edgesAt c.b, row = rewire engine.env now c q) ∧
      row.validUntil = none ∧ row.source ≠ c.b ∧ row.target ≠ c.b := by
  rcases mem_writes_cases member with ⟨q, edge, rfl⟩ | ⟨q, edge, moved⟩
  · exact .inl ⟨q, edge, rfl, rfl, rfl⟩
  · obtain ⟨rfl, -, -⟩ := moves_eq_some.mp moved
    exact .inr ⟨⟨q, edge, rfl⟩, rfl, rewire_ends_ne engine.env now q distinct⟩

/-- The companion of a row of the batch is a companion of an edge or of a rewired one. -/
theorem namedAs_mate (distinct : c.a ≠ c.b) (member : row ∈ mergeWrites engine.env now c cycle m)
    (found : engine.env.inverse row = some mate) :
    NamedAs engine.env c cycle.store cycle.workingSet mate.id mate.name := by
  obtain ⟨name, companion, identity, named, -⟩ := inverse_some found
  rw [identity, named]
  rcases mergeWrites_cases distinct member with ⟨q, edge, -, same, -⟩ | ⟨⟨q, edge, rfl⟩, -⟩
  · exact .companion edge (.inl (same ▸ companion))
  · exact .companion edge (.inr companion)

/-- A name that is not at the closed memory is not the name of a closed row of the batch. -/
theorem NoCollision.open_of_name (unique : NoCollision engine.env c cycle.store cycle.workingSet)
    (distinct : c.a ≠ c.b) (member : row ∈ mergeWrites engine.env now c cycle m)
    (named : NamedAs engine.env c cycle.store cycle.workingSet row.id name)
    (apart : name.source ≠ c.b ∧ name.target ≠ c.b) : row.name = name ∧ row.validUntil = none := by
  rcases mergeWrites_cases distinct member with ⟨q, edge, same, rowName, -⟩ |
    ⟨⟨q, edge, rfl⟩, facts⟩
  · rw [same] at named
    cases unique _ _ _ (.edge edge) named
    obtain ⟨-, -, source | target⟩ := mem_edgesAt.mp edge
    · exact absurd source apart.1
    · exact absurd target apart.2
  · exact ⟨unique _ _ _ (.rewired edge) named, facts.1⟩

section Merged

variable (merged : MergedInto engine now commitAt c cycle after survivor m)
  (unique : NoCollision engine.env c cycle.store cycle.workingSet) (distinct : c.a ≠ c.b)
include merged unique distinct

/-- An identity that the batch writes, with a name that is not at the closed memory, is open
afterwards. -/
theorem MergedInto.opens (named : NamedAs engine.env c cycle.store cycle.workingSet id name)
    (apart : name.source ≠ c.b ∧ name.target ≠ c.b)
    (touched : (∃ row ∈ mergeWrites engine.env now c cycle m, row.id = id) ∨
      ∃ row ∈ mergeWrites engine.env now c cycle m, ∃ mate,
        engine.env.inverse row = some mate ∧ mate.id = id) : HasOpen after.store name := by
  by_cases listed : ∃ row ∈ mergeWrites engine.env now c cycle m, row.id = id
  · obtain ⟨row, member, rfl⟩ := listed
    obtain ⟨lsn, written⟩ := merged.listed member
    obtain ⟨same, still⟩ := unique.open_of_name distinct member named apart
    exact ⟨_, _, written, still, same⟩
  · obtain ⟨records, events, t, batch, -, rels⟩ := merged.committed
    rcases upsertBatchLocked_unlisted batch fun row member same => listed ⟨row, member, same⟩ with
      ⟨row, member, mate, lsn, found, rfl, written⟩ | ⟨-, free⟩
    · obtain rfl := unique _ _ _ (namedAs_mate distinct member found) named
      obtain ⟨source, target, validity⟩ := inverse_ends found
      refine ⟨mate.id, { mate with lsn := lsn }, ?_, ?_, rfl⟩
      · rw [currentRelationship, rels]
        exact written
      · rcases mergeWrites_cases distinct member with ⟨q, edge, -, rowName, -⟩ | ⟨-, still, -⟩
        · -- The companion of a closed edge is at the closed memory.
          obtain ⟨-, -, atSource | atTarget⟩ := mem_edgesAt.mp edge
          · exact absurd (target.trans ((congrArg EdgeName.source rowName).trans atSource)) apart.2
          · exact absurd (source.trans ((congrArg EdgeName.target rowName).trans atTarget)) apart.1
        · exact validity.trans still
    · obtain ⟨row, member, mate, found, same⟩ := touched.resolve_left listed
      exact absurd same (free row member mate found)

/-- An open edge that is not at the closed memory has an open successor of the same name. -/
theorem MergedInto.stays (there : HasOpen cycle.store name)
    (apart : name.source ≠ c.b ∧ name.target ≠ c.b) : HasOpen after.store name := by
  obtain ⟨id, r, current, isOpen, rfl⟩ := there
  by_contra gone
  refine gone ⟨id, r, ?_, isOpen, rfl⟩
  rw [merged.current_of_free, current]
  · exact fun row member same => gone
      (merged.opens unique distinct (.stored current) apart (.inl ⟨row, member, same⟩))
  · exact fun row member mate found same => gone
      (merged.opens unique distinct (.stored current) apart (.inr ⟨row, member, mate, found, same⟩))

/-- An edge of the working set that it does not have open at the survivor is rewired, and so is
its companion. -/
theorem MergedInto.counterpart {q : Relationship} (edge : q ∈ cycle.workingSet.edgesAt c.b)
    (same : q.name = name ∨ name ∈ q.name.companion engine.env)
    (straight : (name.moved c).source ≠ (name.moved c).target)
    (free : ¬ (cycle.workingSet.relationships.lookup ((q.name.moved c).id engine.env)).any
      (·.validUntil.isNone)) : HasOpen after.store (name.moved c) := by
  have ends : (name.moved c).source ≠ c.b ∧ (name.moved c).target ≠ c.b := by
    simp only [EdgeName.moved]
    grind
  have apart : (rewire engine.env now c q).source ≠ (rewire engine.env now c q).target := by
    rcases same with rfl | mate
    · exact straight
    · obtain ⟨source, target⟩ := companion_ends (mem_companion_moved.mpr ⟨name, mate, rfl⟩)
      exact fun loop => straight (source.trans (loop.symm.trans target.symm))
  have moved : moves engine.env now c cycle.workingSet q = some (rewire engine.env now c q) :=
    moves_eq_some.mpr ⟨rfl, apart, free⟩
  -- A row of the batch has the identity of the rewired edge, and hence its name.
  obtain ⟨row, member, identity⟩ : ∃ row ∈ mergeWrites engine.env now c cycle m,
      row.id = (q.name.moved c).id engine.env := by
    cases found : lastWith Relationship.id (rewire engine.env now c q).id
        ((cycle.workingSet.edgesAt c.b).filterMap (moves engine.env now c cycle.workingSet)) with
    | none =>
        exact absurd rfl (lastWith_eq_none.mp found (rewire engine.env now c q)
          (List.mem_filterMap.mpr ⟨q, edge, moved⟩))
    | some row =>
        obtain ⟨inside, identity⟩ := lastWith_some found
        obtain ⟨other, -, moved'⟩ := List.mem_filterMap.mp inside
        obtain ⟨rfl, -, -⟩ := moves_eq_some.mp moved'
        rw [← identity] at found
        exact ⟨_, (open_mem_writes rfl).mpr found, identity⟩
  rcases same with rfl | mate
  · exact merged.opens unique distinct (.rewired edge) ends (.inl ⟨row, member, identity⟩)
  · have companion : name.moved c ∈ (q.name.moved c).companion engine.env :=
      mem_companion_moved.mpr ⟨name, mate, rfl⟩
    refine merged.opens unique distinct (.companion edge (.inr companion)) ends
      (.inr ⟨row, member, ?_⟩)
    have rowName : row.name = q.name.moved c := by
      obtain ⟨source, target⟩ := companion_ends companion
      exact (unique.open_of_name distinct member (identity ▸ .rewired edge)
        ⟨target ▸ ends.2, source ▸ ends.1⟩).1
    rw [← rowName, Option.mem_def] at companion
    exact ⟨_, by rw [inverse_eq, companion]; rfl, rfl⟩

end Merged

/-- An edge that the working set knows is closed, or its companion is. -/
theorem CarriedOver.written (carried : CarriedOver engine.env c s cycle.workingSet id r) :
    (∃ row ∈ mergeWrites engine.env now c cycle m, row.id = id) ∨
      ∃ row ∈ mergeWrites engine.env now c cycle m, ∃ mate,
        engine.env.inverse row = some mate ∧ mate.id = id := by
  obtain ⟨q, edge, same | ⟨name, mate, same⟩⟩ := carried.known
  · exact .inl ⟨_, closed_mem_writes edge, same⟩
  · refine .inr ⟨_, closed_mem_writes edge, ?_⟩
    rw [inverse_eq]
    exact ⟨_, congrArg (Option.map _) mate, same⟩

/-- An open edge at the closed memory that the working set does not know is left as it was. -/
theorem MergedInto.known (merged : MergedInto engine now commitAt c cycle after survivor m)
    (unique : NoCollision engine.env c cycle.store cycle.workingSet) (distinct : c.a ≠ c.b)
    (current : cycle.store.currentRelationship id = some r)
    (atMerged : r.source = c.b ∨ r.target = c.b)
    (gone : after.store.currentRelationship id ≠ some r) : ∃ q ∈ cycle.workingSet.edgesAt c.b,
      q.id = id ∨ ∃ name ∈ q.name.companion engine.env, name.id engine.env = id := by
  by_contra unknown
  have apart {name : EdgeName} (same : name = r.name)
      (ends : name.source ≠ c.b ∧ name.target ≠ c.b) : False := by
    subst same
    exact atMerged.elim ends.1 ends.2
  refine gone ((merged.current_of_free ?_ ?_).trans current)
  · rintro row member rfl
    rcases mergeWrites_cases distinct member with ⟨q, edge, same, -⟩ | ⟨⟨q, edge, rfl⟩, -, ends⟩
    · exact unknown ⟨q, edge, .inl same.symm⟩
    · exact apart (unique _ _ _ (.rewired edge) (.stored current)) ends
  · rintro row member mate found rfl
    obtain ⟨name, companion, identity, named, -⟩ := inverse_some found
    rcases mergeWrites_cases distinct member with ⟨q, edge, -, same, -⟩ | ⟨-, -, ends⟩
    · exact unknown ⟨q, edge, .inr ⟨name, same ▸ companion, identity.symm⟩⟩
    · obtain ⟨source, target, -⟩ := inverse_ends found
      refine apart (unique _ _ _ (namedAs_mate distinct member found) (.stored current)) ?_
      exact ⟨fun same => ends.2 (source.symm.trans same),
        fun same => ends.1 (target.symm.trans same)⟩

/-- In a working set that has the region as the store has it, the edges between two different
memories of the region are carried over. -/
theorem Agrees.edgesCarriedOver_iff (agrees : Agrees region s ws)
    (unique : NoCollision engine.env c s ws) :
    EdgesCarriedOver engine.env c s ws ↔ EdgesWithin region s c.b := by
  constructor
  · intro carried id r current isOpen atMerged
    have here := carried id r current isOpen atMerged
    obtain ⟨q, edge, known⟩ := here.known
    obtain ⟨r₂, current₂, same, -, source, target⟩ := agrees.only q.id q (mem_edgesAt.mp edge).1
    refine ⟨here.straight, ?_⟩
    rcases known with rfl | ⟨name, mate, rfl⟩
    · cases current.symm.trans current₂
      exact ⟨source, target⟩
    · obtain rfl := unique _ _ _ (.stored current) (.companion edge (.inl mate))
      obtain ⟨from_, to_⟩ := companion_ends mate
      rw [show r.source = r₂.target from from_.trans (congrArg EdgeName.target same),
        show r.target = r₂.source from to_.trans (congrArg EdgeName.source same)]
      exact ⟨target, source⟩
  · intro within id r current isOpen atMerged
    obtain ⟨straight, source, target⟩ := within id r current isOpen atMerged
    obtain ⟨q, found, same, openness⟩ := agrees.held id r current source target
    have key := ws.relationshipKeys id q found
    have edge : q ∈ ws.edgesAt c.b := by
      refine mem_edgesAt.mpr ⟨key.symm ▸ found, openness.mpr isOpen, ?_⟩
      exact atMerged.imp (congrArg EdgeName.source same).trans (congrArg EdgeName.target same).trans
    refine ⟨straight, ⟨q, edge, .inl key⟩, fun _ _ => or_iff_not_imp_right.mpr fun none => ?_⟩
    -- What the working set has open at the survivor, the store has open.
    have present := not_not.mp fun free => none ⟨q, edge, .inl same, free⟩
    obtain ⟨existing, there, stillOpen⟩ := Option.any_eq_true _ _ |>.mp present
    obtain ⟨r₂, current₂, -, openness₂, -⟩ := agrees.only _ _ there
    refine ⟨_, r₂, current₂, openness₂.mp (Option.isNone_iff_eq_none.mp stillOpen), ?_⟩
    rw [unique _ _ _ (.stored current₂) (.rewired edge), same]

end Conservation

/-- A cycle that has just read a region. -/
def Consolidation.begun (region : RegionKey) (store : InMemoryStorage) : Consolidation where
  store := store
  workingSet := (loadRegionWorkingSet region store store).toOption.getD .empty
  journal := .new "cycle"
  merged := []
  rewired := []
  abstracted := []

end Exocortex
