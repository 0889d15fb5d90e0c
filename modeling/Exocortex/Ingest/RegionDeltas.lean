import Mathlib
import Exocortex.Ingest.Submit
import Exocortex.Library.Tallies

/-!
# The region deltas of a batch

The effect of a batch says of each region how many memories its producer sent and how many
relationships leave them. Both counts are tallies (`regionCounts_eq`).

The relationships that are counted are those that the service hands to the store with their
companions. The store adds none: where the inverses of kinds lead back, the companions of these rows
are among them (`materializeInverses_closed`), so it writes the rows that were counted
(`upsertedEdges_eq`). A row that the batch has twice is written twice and counted twice
(`postIngestEffect_counts`).
-/

namespace Exocortex

open Library InMemoryStorage

/-! ## The order of regions -/

theorem stringLe_iff {left right : String} : stringLe left right = true ↔ left ≤ right := by
  rw [stringLe, Bool.not_eq_true', decide_eq_false_iff_not]
  exact not_lt

theorem regionLe_iff {left right : RegionKey} : regionLe left right = true ↔
    left.org < right.org ∨ left.org = right.org ∧ (left.project < right.project ∨
      left.project = right.project ∧ left.memoryType ≤ right.memoryType) := by
  rw [regionLe]
  by_cases org : left.org = right.org
  · rw [if_neg (not_not.mpr org)]
    by_cases project : left.project = right.project
    · rw [if_neg (not_not.mpr project), decide_eq_true_iff, org, project]
      exact ⟨fun below => .inr ⟨rfl, .inr ⟨rfl, below⟩⟩, fun below =>
        ((below.resolve_left (lt_irrefl _)).2.resolve_left (lt_irrefl _)).2⟩
    · rw [if_pos project, stringLe_iff, org]
      exact ⟨fun below => .inr ⟨rfl, .inl (lt_of_le_of_ne below project)⟩, fun below =>
        ((below.resolve_left (lt_irrefl _)).2.resolve_right fun same => project same.1).le⟩
  · rw [if_pos org, stringLe_iff]
    exact ⟨fun below => .inl (lt_of_le_of_ne below org), fun below =>
      (below.resolve_right fun same => org same.1).le⟩

theorem regionLe_total (left right : RegionKey) :
    regionLe left right = true ∨ regionLe right left = true := by
  rw [regionLe_iff, regionLe_iff]
  rcases lt_trichotomy left.org right.org with below | same | above
  · exact .inl (.inl below)
  · rcases lt_trichotomy left.project right.project with below | equal | above
    · exact .inl (.inr ⟨same, .inl below⟩)
    · rcases UInt8.le_total left.memoryType right.memoryType with below | above
      · exact .inl (.inr ⟨same, .inr ⟨equal, below⟩⟩)
      · exact .inr (.inr ⟨same.symm, .inr ⟨equal.symm, above⟩⟩)
    · exact .inr (.inr ⟨same.symm, .inl above⟩)
  · exact .inr (.inl above)

theorem regionLe_trans {first second third : RegionKey} (left : regionLe first second = true)
    (right : regionLe second third = true) : regionLe first third = true := by
  rw [regionLe_iff] at left right ⊢
  rcases left with below | ⟨org, left⟩
  · rcases right with further | ⟨org, -⟩
    · exact .inl (below.trans further)
    · exact .inl (org ▸ below)
  · rcases right with further | ⟨org', right⟩
    · exact .inl (org ▸ further)
    · refine .inr ⟨org.trans org', ?_⟩
      rcases left with below | ⟨project, left⟩
      · rcases right with further | ⟨project, -⟩
        · exact .inl (below.trans further)
        · exact .inl (project ▸ below)
      · rcases right with further | ⟨project', right⟩
        · exact .inl (project ▸ further)
        · exact .inr ⟨project.trans project', UInt8.le_trans left right⟩

/-! ## The counts as tallies -/

section Counts

variable (batch : IngestBatch) (rows : CommitRows)

/-- The region of an identity is that of its last row. -/
def sourceRegion (id : MemoryId) : Option RegionKey :=
  (lastWith Memory.id id rows.producerMemories).map (regionOf batch)

theorem countMemory_foldl (memories : List Memory)
    (acc : Table RegionKey (ℕ × ℕ) × Table MemoryId RegionKey) :
    memories.foldl (countMemory batch) acc =
      (tally (fun memory => some (regionOf batch memory)) (fun delta => (delta.1 + 1, delta.2))
          (0, 0) acc.1 memories,
        memories.foldl (fun t memory => t.insert memory.id (regionOf batch memory)) acc.2) := by
  induction memories generalizing acc with
  | nil => rfl
  | cons memory memories ih => exact ih _

theorem lookup_memoryRegions (memories : List Memory) (id : MemoryId) :
    (memories.foldl (fun t memory => t.insert memory.id (regionOf batch memory))
      (∅ : Table MemoryId RegionKey)).lookup id =
      (lastWith Memory.id id memories).map (regionOf batch) := by
  induction memories using List.reverseRecOn with
  | nil => exact AList.lookup_empty id
  | append_singleton memories memory ih =>
      rw [List.foldl_concat, Table.lookup_insert_eq, lastWith_concat, ih]
      by_cases same : id = memory.id
      · rw [if_pos same, if_pos same.symm]
        rfl
      · rw [if_neg same, if_neg (Ne.symm same)]

/-- **The counts are a tally of the memories and a tally of the relationships.** -/
theorem regionCounts_eq : regionCounts batch rows =
    tally (fun edge : Relationship => sourceRegion batch rows edge.source)
      (fun delta => (delta.1, delta.2 + 1)) (0, 0)
      (tally (fun memory => some (regionOf batch memory)) (fun delta => (delta.1 + 1, delta.2))
        (0, 0) ∅ rows.producerMemories) rows.relationships := by
  rw [regionCounts, countMemory_foldl]
  dsimp only
  rw [tally]
  congr 1
  funext regions edge
  rw [countRelationship, lookup_memoryRegions]
  change _ = countAt _ _ _ (sourceRegion batch rows edge.source)
  rw [sourceRegion]
  cases (lastWith Memory.id edge.source rows.producerMemories).map (regionOf batch) with
  | none => rfl
  | some region => rfl

theorem iterate_memories (n : ℕ) (delta : ℕ × ℕ) :
    (fun delta : ℕ × ℕ => (delta.1 + 1, delta.2))^[n] delta = (delta.1 + n, delta.2) := by
  induction n with
  | zero => rfl
  | succ n ih => rw [Function.iterate_succ_apply', ih, Nat.add_assoc]

theorem iterate_relationships (n : ℕ) (delta : ℕ × ℕ) :
    (fun delta : ℕ × ℕ => (delta.1, delta.2 + 1))^[n] delta = (delta.1, delta.2 + n) := by
  induction n with
  | zero => rfl
  | succ n ih => rw [Function.iterate_succ_apply', ih, Nat.add_assoc]

/-- The memories of a region and the relationships that leave it. -/
theorem deltaOf_regionCounts (region : RegionKey) : deltaOf (regionCounts batch rows) region =
    (rows.producerMemories.countP (regionOf batch · = region),
      rows.relationships.countP (sourceRegion batch rows ·.source = some region)) := by
  have memories : rows.producerMemories.countP (fun memory => some (regionOf batch memory) =
      some region) = rows.producerMemories.countP (regionOf batch · = region) :=
    List.countP_congr fun memory _ => by
      rw [decide_eq_true_iff, decide_eq_true_iff, Option.some.injEq]
  rw [deltaOf, regionCounts_eq, getD_tally, getD_tally, iterate_memories, iterate_relationships,
    memories]
  refine Prod.ext ?_ ?_
  · exact Nat.zero_add _
  · exact Nat.zero_add _

theorem sourceRegion_eq_some {id : MemoryId} {region : RegionKey}
    (found : sourceRegion batch rows id = some region) :
    ∃ memory ∈ rows.producerMemories, memory.id = id ∧ regionOf batch memory = region := by
  obtain ⟨memory, last, same⟩ := Option.map_eq_some_iff.mp found
  obtain ⟨listed, identity⟩ := lastWith_some last
  exact ⟨memory, listed, identity, same⟩

theorem sourceRegion_isSome_iff {id : MemoryId} : (sourceRegion batch rows id).isSome = true ↔
    ∃ memory ∈ rows.producerMemories, memory.id = id := by
  rw [sourceRegion, Option.isSome_map, Option.isSome_iff_ne_none, ne_eq, lastWith_eq_none]
  constructor
  · intro held
    by_contra apart
    exact held fun memory listed same => apart ⟨memory, listed, same⟩
  · rintro ⟨memory, listed, same⟩ apart
    exact apart memory listed same

/-- The regions that are counted are those of the producer's memories. -/
theorem mem_regionCounts_iff (region : RegionKey) : region ∈ regionCounts batch rows ↔
    ∃ memory ∈ rows.producerMemories, regionOf batch memory = region := by
  rw [regionCounts_eq, mem_tally_iff, mem_tally_iff]
  constructor
  · rintro (⟨edge, -, found⟩ | ⟨memory, listed, same⟩ | none_)
    · obtain ⟨memory, listed, -, same⟩ := sourceRegion_eq_some batch rows found
      exact ⟨memory, listed, same⟩
    · exact ⟨memory, listed, Option.some.inj same⟩
    · exact absurd none_ (AList.notMem_empty region)
  · rintro ⟨memory, listed, same⟩
    exact .inr (.inl ⟨memory, listed, congrArg some same⟩)

/-! ## The deltas -/

variable (key : IngestBatchKey)

theorem regionDeltas_perm : (postIngestEffect batch rows key).regionDeltas.Perm
    ((regionCounts batch rows).entries.map fun entry => ⟨entry.1, entry.2.1, entry.2.2⟩) :=
  List.perm_insertionSort _ _

theorem regionDeltas_sorted : (postIngestEffect batch rows key).regionDeltas.Pairwise
    fun left right => regionLe left.region right.region = true := by
  have total : Std.Total fun left right : IngestRegionDelta =>
      regionLe left.region right.region = true := ⟨fun _ _ => regionLe_total _ _⟩
  have trans : IsTrans IngestRegionDelta fun left right =>
      regionLe left.region right.region = true := ⟨fun _ _ _ => regionLe_trans⟩
  exact List.pairwise_insertionSort _ _

theorem mem_regionDeltas {delta : IngestRegionDelta}
    (listed : delta ∈ (postIngestEffect batch rows key).regionDeltas) :
    delta.memories = rows.producerMemories.countP (regionOf batch · = delta.region) ∧
      delta.relationships =
        rows.relationships.countP (sourceRegion batch rows ·.source = some delta.region) := by
  obtain ⟨entry, there, rfl⟩ := List.mem_map.mp
    ((regionDeltas_perm batch rows key).mem_iff.mp listed)
  have found : (regionCounts batch rows).lookup entry.1 = some entry.2 :=
    AList.mem_lookup_iff.mpr there
  have counts := deltaOf_regionCounts batch rows entry.1
  rw [deltaOf, found, Option.getD_some] at counts
  exact ⟨congrArg Prod.fst counts, congrArg Prod.snd counts⟩

theorem sum_regionDeltas (weight : ℕ × ℕ → ℕ) :
    ((postIngestEffect batch rows key).regionDeltas.map fun delta =>
      weight (delta.memories, delta.relationships)).sum =
      Table.total weight (regionCounts batch rows) := by
  rw [((regionDeltas_perm batch rows key).map _).sum_eq, Table.total, Table.values, List.map_map,
    List.map_map]
  rfl

theorem sum_memories : ((postIngestEffect batch rows key).regionDeltas.map
    IngestRegionDelta.memories).sum = rows.producerMemories.length := by
  refine (sum_regionDeltas batch rows key Prod.fst).trans ?_
  have still : ∀ delta : ℕ × ℕ, (delta.1, delta.2 + 1).1 = delta.1 + 0 := fun _ => rfl
  have grows : ∀ delta : ℕ × ℕ, (delta.1 + 1, delta.2).1 = delta.1 + 1 := fun _ => rfl
  rw [regionCounts_eq, total_tally Prod.fst 0 rfl still, total_tally Prod.fst 1 rfl grows,
    Table.total_empty, Nat.zero_mul, Nat.one_mul, Nat.zero_add, Nat.add_zero]
  exact List.countP_eq_length.mpr fun _ _ => rfl

theorem sum_relationships : ((postIngestEffect batch rows key).regionDeltas.map
    IngestRegionDelta.relationships).sum =
      rows.relationships.countP (fun edge => (sourceRegion batch rows edge.source).isSome) := by
  refine (sum_regionDeltas batch rows key Prod.snd).trans ?_
  have still : ∀ delta : ℕ × ℕ, (delta.1 + 1, delta.2).2 = delta.2 + 0 := fun _ => rfl
  have grows : ∀ delta : ℕ × ℕ, (delta.1, delta.2 + 1).2 = delta.2 + 1 := fun _ => rfl
  rw [regionCounts_eq, total_tally Prod.snd 1 rfl grows, total_tally Prod.snd 0 rfl still,
    Table.total_empty, Nat.zero_mul, Nat.one_mul, Nat.zero_add]

end Counts

/-! ## The rows that the store writes -/

/-- The identity of a relationship that was written, and where it starts. -/
def Invalidation.upsertedEdge : Invalidation → Option (RelationshipId × MemoryId)
  | .relationshipUpserted id source _ _ _ => some (id, source)
  | _ => none

/-- The relationships that a batch wrote, in order. -/
def upsertedEdges (events : List Invalidation) : List (RelationshipId × MemoryId) :=
  events.filterMap Invalidation.upsertedEdge

variable {events : List Invalidation}

variable {rs : List Relationship} {r : Relationship}

section Staging

variable {env : Env} {now : DateTime}

theorem stageMemories_upserted (ms : List Memory) (staged : Staged) :
    upsertedEdges (ms.foldl (stageMemory now) staged).invalidations =
      upsertedEdges staged.invalidations ∧
    (ms.foldl (stageMemory now) staged).seenRelationships = staged.seenRelationships := by
  induction ms generalizing staged with
  | nil => exact ⟨rfl, rfl⟩
  | cons m ms ih =>
      obtain ⟨events, seen⟩ := ih (stageMemory now staged m)
      refine ⟨events.trans ?_, seen⟩
      rw [stageMemory, upsertedEdges, List.filterMap_append]
      exact List.append_nil _

/-- The companion of a relationship is in the batch, if it has one. -/
def CompanionIn (env : Env) (ids : Finset RelationshipId) (r : Relationship) : Prop :=
  ∀ inverse, env.inverse r = some inverse → inverse.id ∈ ids

/-- A relationship whose companion is in the batch is written alone. -/
theorem stageRelationship_alone {staged : Staged}
    (closed : CompanionIn env staged.seenRelationships r) :
    stageRelationship env now staged r = stageRow now staged r := by
  rw [stageRelationship]
  split
  · rfl
  · next inverse companion =>
      rw [inverse_eq] at companion
      obtain ⟨name, named, rfl⟩ := Option.map_eq_some_iff.mp companion
      have made := inverse_eq env r
      rw [show r.name.companion env = some name from named] at made
      exact if_pos (closed _ made)

theorem stageRelationships_upserted (rs : List Relationship) (staged : Staged)
    (closed : ∀ r ∈ rs, CompanionIn env staged.seenRelationships r) :
    upsertedEdges (rs.foldl (stageRelationship env now) staged).invalidations =
      upsertedEdges staged.invalidations ++ rs.map fun r => (r.id, r.source) := by
  induction rs generalizing staged with
  | nil => exact (List.append_nil _).symm
  | cons r rs ih =>
      rw [List.foldl_cons, stageRelationship_alone (closed r List.mem_cons_self)]
      refine (ih (stageRow now staged r) fun other listed =>
        closed other (List.mem_cons_of_mem _ listed)).trans ?_
      rw [stageRow, upsertedEdges, List.filterMap_append, List.append_assoc]
      rfl

/-- **A batch that has the companions of its relationships writes these only.** -/
theorem upsertedEdges_eq {ms : List Memory} {s t : InMemoryStorage} {records : List CommitRecord}
    (committed : s.upsertBatchLocked env ms rs now = .ok (records, events, t))
    (closed : ∀ r ∈ rs, CompanionIn env (rs.map (·.id)).toFinset r) :
    upsertedEdges events = rs.map fun r => (r.id, r.source) := by
  rw [upsertBatchLocked] at committed
  split at committed
  · cases committed
  · cases committed
    obtain ⟨before, seen⟩ := @stageMemories_upserted now ms
      ⟨s.memories, s.rels, s.lsn, (rs.map (·.id)).toFinset, [], []⟩
    rw [stageBatch, stageRelationships_upserted rs _ (by rw [seen]; exact closed), before]
    rfl

end Staging

/-! ## The companions that the service adds -/

section Companions

variable {env : Env}

/-- The rows with the companion of one of them, unless its identity is in use. -/
def addCompanion (env : Env) (out : List Relationship) (r : Relationship) : List Relationship :=
  match env.inverse r with
  | none => out
  | some inverse => if out.any (·.id = inverse.id) then out else out ++ [inverse]

theorem materializeInverses_eq {validator : Validator}
    (sameOntology : env.ontology = validator.ontology.relations)
    (sameHash : env.blake3 = validator.blake3) (rs : List Relationship) :
    materializeInverses validator rs = rs.foldl (addCompanion env) rs := by
  rw [materializeInverses]
  congr 1
  funext out r
  have same : env.inverse r =
      materializeInverse validator.ontology.relations validator.blake3 r := by
    rw [Env.inverse, sameOntology, sameHash]
  cases found : materializeInverse validator.ontology.relations validator.blake3 r with
  | none => exact (by rw [found] at same; simp only [addCompanion, same])
  | some inverse => exact (by rw [found] at same; simp only [addCompanion, same])

/-- What the companions of some rows add to a list of rows. -/
structure AddsCompanions (env : Env) (rs xs added : List Relationship) : Prop where
  companions : ∀ edge ∈ added, ∃ r ∈ xs, env.inverse r = some edge
  complete : ∀ r ∈ xs, ∀ inverse, env.inverse r = some inverse →
    ∃ edge ∈ rs ++ added, edge.id = inverse.id
  distinct : (rs.map (·.id)).Nodup → ((rs ++ added).map (·.id)).Nodup

theorem exists_addsCompanions (env : Env) (rs xs : List Relationship) :
    ∃ added, xs.foldl (addCompanion env) rs = rs ++ added ∧ AddsCompanions env rs xs added := by
  induction xs using List.reverseRecOn with
  | nil =>
      refine ⟨[], (List.append_nil rs).symm, ?_, ?_, ?_⟩
      · exact fun edge listed => absurd listed List.not_mem_nil
      · exact fun r listed => absurd listed List.not_mem_nil
      · rw [List.append_nil]
        exact id
  | append_singleton xs x ih =>
      obtain ⟨added, same, adds⟩ := ih
      have companions : ∀ edge ∈ added, ∃ r ∈ xs ++ [x], env.inverse r = some edge := by
        intro edge listed
        obtain ⟨r, there, made⟩ := adds.companions edge listed
        exact ⟨r, List.mem_append_left _ there, made⟩
      -- the companions of the rows so far, when that of the last row is there as well
      have complete : ∀ later, (∀ inverse, env.inverse x = some inverse →
          ∃ edge ∈ rs ++ (added ++ later), edge.id = inverse.id) →
          ∀ r ∈ xs ++ [x], ∀ inverse, env.inverse r = some inverse →
            ∃ edge ∈ rs ++ (added ++ later), edge.id = inverse.id := by
        intro later last r listed inverse made
        rcases List.mem_append.mp listed with before | here
        · obtain ⟨edge, there, identity⟩ := adds.complete r before inverse made
          rw [← List.append_assoc]
          exact ⟨edge, List.mem_append_left _ there, identity⟩
        · rw [List.mem_singleton.mp here] at made
          exact last inverse made
      rw [List.foldl_concat, same, addCompanion]
      cases made : env.inverse x with
      | none =>
          refine ⟨added, rfl, companions, ?_, adds.distinct⟩
          have all := complete [] fun inverse found => by rw [made] at found; cases found
          rwa [List.append_nil] at all
      | some inverse =>
          dsimp only
          split
          · next used =>
              refine ⟨added, rfl, companions, ?_, adds.distinct⟩
              have all := complete [] fun other found => by
                rw [made] at found
                cases found
                obtain ⟨edge, listed, identity⟩ := List.any_eq_true.mp used
                rw [List.append_nil]
                exact ⟨edge, listed, of_decide_eq_true identity⟩
              rwa [List.append_nil] at all
          · next unused =>
              refine ⟨added ++ [inverse], List.append_assoc _ _ _, ?_, ?_, ?_⟩
              · intro edge listed
                rcases List.mem_append.mp listed with before | here
                · exact companions edge before
                · rw [List.mem_singleton.mp here]
                  exact ⟨x, List.mem_append_right _ (List.mem_singleton_self x), made⟩
              · refine complete [inverse] fun other found => ?_
                rw [made] at found
                cases found
                exact ⟨inverse, List.mem_append_right _ (List.mem_append_right _
                  (List.mem_singleton_self inverse)), rfl⟩
              · intro once
                rw [← List.append_assoc, List.map_append, List.map_singleton]
                refine List.nodup_append.mpr ⟨adds.distinct once, List.nodup_singleton _, ?_⟩
                intro id listed other here same'
                obtain ⟨edge, there, rfl⟩ := List.mem_map.mp listed
                rw [List.mem_singleton.mp here] at same'
                exact unused (List.any_eq_true.mpr ⟨edge, there, decide_eq_true same'⟩)

/-- The inverses of kinds lead back. -/
def LeadsBack (ontology : Ontology) : Prop :=
  ∀ kind inverse, ontology.inverseKind kind = some inverse →
    ontology.inverseKind inverse = some kind

/-- The companion of a companion has the identity of the row's name. -/
theorem LeadsBack.id_eq (back : LeadsBack env.ontology) {inverse other : Relationship}
    (companion : env.inverse r = some inverse) (returned : env.inverse inverse = some other) :
    other.id = r.name.id env := by
  obtain ⟨name, named, -, inverseName, -⟩ := inverse_some companion
  obtain ⟨again, returnedName, identity, -⟩ := inverse_some returned
  obtain ⟨kind, paired, rfl⟩ := Option.map_eq_some_iff.mp named
  rw [inverseName, EdgeName.companion, back _ _ paired, Option.map_some] at returnedName
  rw [identity, ← Option.some.inj returnedName]

/-- **With the companions of the rows come those of the companions.** -/
theorem companionIn_of_mem (back : LeadsBack env.ontology)
    (derived : ∀ r ∈ rs, r.id = r.name.id env) :
    ∀ edge ∈ rs.foldl (addCompanion env) rs,
      CompanionIn env ((rs.foldl (addCompanion env) rs).map (·.id)).toFinset edge := by
  obtain ⟨added, same, adds⟩ := exists_addsCompanions env rs rs
  rw [same]
  intro edge listed inverse made
  rw [List.mem_toFinset, List.mem_map]
  rcases List.mem_append.mp listed with own | companion
  · exact adds.complete edge own inverse made
  · obtain ⟨r, there, edgeMade⟩ := adds.companions edge companion
    exact ⟨r, List.mem_append_left _ there,
      (derived r there).trans (back.id_eq edgeMade made).symm⟩

end Companions

/-! ## Batches that the service commits -/

section Committed

variable (server : IngestServer) (call : SubmitCall) (source : SourceEntry)
  (validated : ValidatedBatch)

/-- The relationships of a batch before their companions: those that it asserts, and those to the
node of its group. -/
def ownEdges : List Relationship :=
  validated.relationships ++ (materializeGrouping server.validator server.rules
    call.batch.toIngestBatch source.flavor
    (submittedRows server call source validated).producerMemories call.groupedAt).2

variable {server call source validated} {principal : Option VisibilityContext}
  {seen : InMemoryStorage}

theorem ownEdges_derived (sameHash : server.env.blake3 = server.validator.blake3)
    (accepted : IngestService.validateBatch server.validator call.now call.mint principal source
      seen call.batch = .ok validated) :
    ∀ edge ∈ ownEdges server call source validated, edge.id = edge.name.id server.env := by
  intro edge listed
  rw [EdgeName.id, sameHash]
  rcases List.mem_append.mp listed with asserted | grouped
  · obtain ⟨times, passed⟩ := IngestService.validateBatch_ok accepted
    obtain ⟨draft, -, checked⟩ := exists_right passed.edges.flip asserted
    obtain ⟨fromMemory, toKey, toMemory, kind, -, -, -, -, -, rfl⟩ :=
      validateRelationship_ok checked
    rfl
  · rcases materializeGrouping_cases server.validator server.rules call.batch.toIngestBatch
      source.flavor (submittedRows server call source validated).producerMemories
      call.groupedAt with none_ | ⟨rule, key, node, -, -, some_⟩
    · rw [none_] at grouped
      cases grouped
    · rw [some_] at grouped
      obtain ⟨member, -, made⟩ := List.mem_filterMap.mp grouped
      obtain ⟨kind, -, rfl⟩ := Option.map_eq_some_iff.mp made
      rfl

/-- **The deltas account for the rows of a batch**: each region of its producer's memories once, in
order, with as many memories as the producer sent and as many of the edges as leave them. -/
structure AccountsFor (batch : IngestBatch) (rows : CommitRows) (deltas : List IngestRegionDelta)
    (edges : List (RelationshipId × MemoryId)) : Prop where
  once : (deltas.map (·.region)).Nodup
  sorted : deltas.Pairwise fun left right => regionLe left.region right.region = true
  regions : ∀ region, region ∈ deltas.map (·.region) ↔
    ∃ memory ∈ rows.producerMemories, regionOf batch memory = region
  memories : ∀ delta ∈ deltas,
    delta.memories = rows.producerMemories.countP (regionOf batch · = delta.region)
  sumMemories : (deltas.map (·.memories)).sum = rows.producerMemories.length
  relationships : ∀ delta ∈ deltas,
    delta.relationships = edges.countP (sourceRegion batch rows ·.2 = some delta.region)
  sumRelationships : (deltas.map (·.relationships)).sum =
    edges.countP fun edge => ∃ memory ∈ rows.producerMemories, memory.id = edge.2

/-- The deltas of an effect account for the relationships that the batch hands to the store. -/
theorem postIngestEffect_accounts (batch : IngestBatch) (rows : CommitRows) (key : IngestBatchKey) :
    AccountsFor batch rows (postIngestEffect batch rows key).regionDeltas
      (rows.relationships.map fun r => (r.id, r.source)) where
  once := postIngestEffect_regions batch rows key
  sorted := regionDeltas_sorted batch rows key
  regions region := by
    rw [((regionDeltas_perm batch rows key).map _).mem_iff, List.map_map,
      ← mem_regionCounts_iff]
    exact AList.mem_keys.symm
  memories delta listed := (mem_regionDeltas batch rows key listed).1
  sumMemories := sum_memories batch rows key
  relationships delta listed := by
    rw [List.countP_map]
    exact (mem_regionDeltas batch rows key listed).2
  sumRelationships := by
    rw [List.countP_map, sum_relationships]
    refine List.countP_congr fun edge _ => ?_
    rw [sourceRegion_isSome_iff]
    exact decide_eq_true_iff.symm

/-- **The region deltas of a committed batch** account for the relationships that the store writes,
each as often as it is written; and the store writes none twice unless the batch has it twice. -/
theorem postIngestEffect_counts (sameOntology : server.env.ontology =
      server.validator.ontology.relations)
    (sameHash : server.env.blake3 = server.validator.blake3)
    (back : LeadsBack server.env.ontology)
    (accepted : IngestService.validateBatch server.validator call.now call.mint principal source
      seen call.batch = .ok validated) {s t : InMemoryStorage} {now : DateTime}
    {records : List CommitRecord} {events : List Invalidation}
    (committed : s.upsertBatchLocked server.env
      (submittedRows server call source validated).memories
      (submittedRows server call source validated).relationships now = .ok (records, events, t)) :
    AccountsFor call.batch.toIngestBatch (submittedRows server call source validated)
      (postIngestEffect call.batch.toIngestBatch (submittedRows server call source validated)
        call.batch.key).regionDeltas (upsertedEdges events) ∧
    (((ownEdges server call source validated).map (·.id)).Nodup →
      ((upsertedEdges events).map Prod.fst).Nodup) := by
  have rows : (submittedRows server call source validated).relationships =
      (ownEdges server call source validated).foldl (addCompanion server.env)
        (ownEdges server call source validated) :=
    materializeInverses_eq sameOntology sameHash _
  have closed := companionIn_of_mem back (ownEdges_derived sameHash accepted)
  rw [← rows] at closed
  rw [upsertedEdges_eq committed closed]
  refine ⟨postIngestEffect_accounts _ _ _, fun once => ?_⟩
  obtain ⟨added, same, adds⟩ := exists_addsCompanions server.env
    (ownEdges server call source validated) (ownEdges server call source validated)
  rw [rows, same, List.map_map]
  exact adds.distinct once

end Committed

/-- Two kinds that are each other's inverse. -/
def pairedOntology : EffectiveOntology where
  packs := [{ smallPack with
    kinds := smallPack.kinds.take 3 ++ [
      ⟨⟨⟨3⟩, some ⟨4⟩, false⟩, "InSession", .context, ⟨0x3f4ccccd#32⟩, false⟩,
      ⟨⟨⟨4⟩, some ⟨3⟩, false⟩, "SessionOf", .context, ⟨0x3f4ccccd#32⟩, false⟩]
    typeTriples := [⟨⟨3⟩, none, none⟩, ⟨⟨4⟩, none, none⟩] }]
  packNames := by decide
  memoryTypes := by decide
  entityTypes := by decide
  kindIds := by decide
  kindNames := by decide
  bound := by decide

/-- A server that tells identities apart by bytes of what they are derived from. -/
def tellingServer : IngestServer :=
  { openServer false with
    validator := { smallValidator false with
      ontology := pairedOntology, blake3 := Call.pairEnv.blake3 }
    env := { Call.pairEnv with ontology := pairedOntology.relations } }

theorem leadsBack_paired : LeadsBack pairedOntology.relations := by
  intro kind inverse paired
  obtain ⟨row, known, named⟩ := Option.bind_eq_some_iff.mp paired
  rw [EffectiveOntology.relations, Table.lookup_collect] at known
  obtain ⟨listed, rfl⟩ := lastWith_some known
  have back : ∀ row ∈ pairedOntology.kinds.map (·.toRelMeta), ∀ inverse ∈ row.inverse,
      pairedOntology.relations.inverseKind inverse = some row.id := by decide +kernel
  obtain ⟨other, inverted, same⟩ := Option.bind_eq_some_iff.mp named
  split_ifs at same
  cases same
  exact back row listed _ inverted

/-- A validated batch and what the store writes of it. -/
def committedEdges (relationships : List WireRel) : Option (ValidatedBatch × List Invalidation) :=
  (IngestService.validateBatch tellingServer.validator 5 freshId (some acmeAgent)
      (sessionEntry .org) acmeStore (signedBatch relationships)).toOption.bind fun validated =>
    let rows := submittedRows tellingServer (agentCall relationships) (sessionEntry .org) validated
    (acmeStore.upsertBatchLocked tellingServer.env rows.memories rows.relationships 7).toOption.map
      fun batch => (validated, batch.2.1)

theorem committedEdges_eq_some {relationships : List WireRel} {validated : ValidatedBatch}
    (found : committedEdges relationships = some (validated, events)) :
    IngestService.validateBatch tellingServer.validator 5 freshId (some acmeAgent)
      (sessionEntry .org) acmeStore (signedBatch relationships) = .ok validated ∧
    ∃ records t, acmeStore.upsertBatchLocked tellingServer.env
      (submittedRows tellingServer (agentCall relationships) (sessionEntry .org) validated).memories
      (submittedRows tellingServer (agentCall relationships) (sessionEntry .org)
        validated).relationships 7 = .ok (records, events, t) := by
  have ok : ∀ {E α : Type} {x : Except E α} {value : α}, x.toOption = some value →
      x = .ok value := by
    intro E α x value same
    cases x with
    | error error => cases same
    | ok other => exact congrArg Except.ok (Option.some.inj same)
  obtain ⟨_, accepted, found⟩ := Option.bind_eq_some_iff.mp found
  obtain ⟨⟨records, events, t⟩, committed, same⟩ := Option.map_eq_some_iff.mp found
  cases same
  exact ⟨ok accepted, records, t, ok committed⟩

/-- The same edge twice, from a draft to a stored memory. -/
def sameEdges : List WireRel :=
  [sessionEdge "draft" "" acmeNoteText, sessionEdge "draft" "" acmeNoteText]

/-- A repeated edge of a kind with an inverse: three rows are written, and counted. -/
theorem postIngestEffect_counts_twice : ∃ validated events,
    committedEdges sameEdges = some (validated, events) ∧ (upsertedEdges events).length = 3 ∧
      AccountsFor (signedBatch sameEdges).toIngestBatch
        (submittedRows tellingServer (agentCall sameEdges) (sessionEntry .org) validated)
        (postIngestEffect (signedBatch sameEdges).toIngestBatch
          (submittedRows tellingServer (agentCall sameEdges) (sessionEntry .org) validated)
          (signedBatch sameEdges).key).regionDeltas (upsertedEdges events) := by
  have three : (committedEdges sameEdges).map (fun committed =>
      (upsertedEdges committed.2).length) = some 3 := by decide +kernel
  obtain ⟨⟨validated, events⟩, found, length⟩ := Option.map_eq_some_iff.mp three
  obtain ⟨accepted, records, t, committed⟩ := committedEdges_eq_some found
  exact ⟨validated, events, found, length, (@postIngestEffect_counts tellingServer
    (agentCall sameEdges) (sessionEntry .org) validated (some acmeAgent) acmeStore rfl rfl
    leadsBack_paired accepted _ _ _ _ _ committed).1⟩

/-- An edge that a batch has twice is counted twice. -/
theorem not_postIngestEffect_counts :
    ¬ ∀ (server : IngestServer) (call : SubmitCall) (source : SourceEntry)
      (validated : ValidatedBatch) (principal : Option VisibilityContext)
      (seen s t : InMemoryStorage) (now : DateTime) (records : List CommitRecord)
      (events : List Invalidation),
      server.env.ontology = server.validator.ontology.relations →
      server.env.blake3 = server.validator.blake3 → LeadsBack server.env.ontology →
      IngestService.validateBatch server.validator call.now call.mint principal source seen
        call.batch = .ok validated →
      s.upsertBatchLocked server.env (submittedRows server call source validated).memories
        (submittedRows server call source validated).relationships now =
          .ok (records, events, t) →
      AccountsFor call.batch.toIngestBatch (submittedRows server call source validated)
        (postIngestEffect call.batch.toIngestBatch (submittedRows server call source validated)
          call.batch.key).regionDeltas (upsertedEdges events).dedup := by
  intro always
  have counts : (committedEdges sameEdges).map (fun committed =>
      let rows := submittedRows tellingServer (agentCall sameEdges) (sessionEntry .org) committed.1
      (((postIngestEffect (signedBatch sameEdges).toIngestBatch rows
          (signedBatch sameEdges).key).regionDeltas.map (·.relationships)).sum,
        (upsertedEdges committed.2).dedup.countP fun edge =>
          ∃ memory ∈ rows.producerMemories, memory.id = edge.2)) = some (2, 1) := by decide +kernel
  obtain ⟨⟨validated, events⟩, found, differ⟩ := Option.map_eq_some_iff.mp counts
  obtain ⟨accepted, records, t, committed⟩ := committedEdges_eq_some found
  have accounts := always tellingServer (agentCall sameEdges) (sessionEntry .org) validated
    (some acmeAgent) acmeStore _ _ _ _ _ rfl rfl leadsBack_paired accepted committed
  have two := congrArg Prod.fst differ
  have one := congrArg Prod.snd differ
  exact absurd (two.symm.trans (accounts.sumRelationships.trans one)) (by decide)

end Exocortex
