import Exocortex.Storage.Writes

/-!
# What a rollback removes

A rollback folds over the two maps of a journal, memories first. Each entry drops
the versions it owns from one history (`restoreMemory_rows`,
`restoreRelationship_rows`), so the whole rollback keeps, of every row, exactly the
versions the journal does not own (`restoreAll_rows`). It takes one number for each
row it changes and publishes it, and it does nothing when none of its versions is
stored (`restoreAll_idle`).

What a journal owns comes from the events of the batches it recorded:
`mem_lsnsOf_fencedBatchCommit` reads the owned numbers of a batch off its events.
-/

namespace Exocortex

open Library

namespace InMemoryStorage

variable {s t : InMemoryStorage} {restore : FencedRestore} {lease : OwnerLease} {now : DateTime}

/-! ## The fold over a journal -/

/-- The stored versions of a row while a rollback is under way. -/
abbrev Restoring.rows (acc : Restoring) : RowId → List Row := rowsOf acc.memories acc.rels

theorem restoreMemory_tables (now : DateTime) (acc : Restoring)
    (entry : Sigma fun _ : MemoryId => Finset ℕ) :
    (restoreMemory now acc entry).memories =
        acc.memories.retain entry.1 (fun version => decide (version.lsn.value ∉ entry.2)) ∧
      (restoreMemory now acc entry).rels = acc.rels := by
  unfold restoreMemory Table.retain
  cases acc.memories.lookup entry.1 with
  | none => exact ⟨rfl, rfl⟩
  | some versions =>
      dsimp only
      split
      · exact ⟨rfl, rfl⟩
      · split <;> exact ⟨rfl, rfl⟩

theorem restoreRelationship_tables (now : DateTime) (acc : Restoring)
    (entry : Sigma fun _ : RelationshipId => Finset ℕ) :
    (restoreRelationship now acc entry).memories = acc.memories ∧
      (restoreRelationship now acc entry).rels =
        acc.rels.retain entry.1 (fun version => decide (version.lsn.value ∉ entry.2)) := by
  unfold restoreRelationship Table.retain
  cases acc.rels.lookup entry.1 with
  | none => exact ⟨rfl, rfl⟩
  | some versions =>
      dsimp only
      split
      · exact ⟨rfl, rfl⟩
      · split
        · next kept =>
            have some_left := List.getLast?_isSome.mp (Option.isSome_of_eq_some kept)
            rw [if_neg (by simpa using some_left)]
            exact ⟨rfl, rfl⟩
        · next empty =>
            rw [List.getLast?_eq_none_iff] at empty
            rw [if_pos (List.isEmpty_iff.mpr empty)]
            exact ⟨rfl, rfl⟩

/-- One entry of the memory map drops the versions it owns, and no others. -/
theorem restoreMemory_rows (row : RowId) (acc : Restoring)
    (entry : Sigma fun _ : MemoryId => Finset ℕ) :
    (restoreMemory now acc entry).rows row =
      (acc.rows row).filter fun version =>
        decide (row = .memory entry.1 → version.lsn ∉ entry.2) := by
  obtain ⟨memories, rels⟩ := restoreMemory_tables now acc entry
  rw [Restoring.rows, memories, rels]
  cases row with
  | memory id =>
      simp only [rowsOf, Table.history_retain, RowId.memory.injEq, List.filter_map]
      by_cases same : id = entry.1
      · simp [same, Function.comp_def, Row.lsn]
      · simp [same]
  | relationship id => simp [rowsOf]

/-- One entry of the relationship map drops the versions it owns, and no others. -/
theorem restoreRelationship_rows (row : RowId) (acc : Restoring)
    (entry : Sigma fun _ : RelationshipId => Finset ℕ) :
    (restoreRelationship now acc entry).rows row =
      (acc.rows row).filter fun version =>
        decide (row = .relationship entry.1 → version.lsn ∉ entry.2) := by
  obtain ⟨memories, rels⟩ := restoreRelationship_tables now acc entry
  rw [Restoring.rows, memories, rels]
  cases row with
  | memory id => simp [rowsOf]
  | relationship id =>
      simp only [rowsOf, Table.history_retain, RowId.relationship.injEq, List.filter_map]
      by_cases same : id = entry.1
      · simp [same, Function.comp_def, Row.lsn]
      · simp [same]

/-- **A rollback keeps, of every row, exactly the versions it does not own.** -/
theorem restoreAll_rows (restore : FencedRestore) (now : DateTime) (s : InMemoryStorage)
    (row : RowId) :
    (s.restoreAll restore now).rows row =
      (s.rows row).filter fun version => decide (version.lsn ∉ restore.owned row) := by
  rw [restoreAll, Table.foldl_filter (Restoring.rows · row) (restoreRelationship_rows row),
    Table.foldl_filter (Restoring.rows · row) (restoreMemory_rows row), List.filter_filter]
  refine List.filter_congr fun version _ => Bool.eq_iff_iff.mpr ?_
  cases row with
  | memory id =>
      rw [decide_eq_true_iff, FencedRestore.owned,
        Table.not_mem_members_iff fun left right => left.raw.le right.raw]
      simp [imp_iff_not_or]
  | relationship id =>
      rw [decide_eq_true_iff, FencedRestore.owned,
        Table.not_mem_members_iff fun left right => left.raw.le right.raw]
      simp [imp_iff_not_or]

/-- The events of a rollback number what it took. -/
def RestoringFrom (s : InMemoryStorage) (acc : Restoring) : Prop :=
  Dense s.lsn acc.next (acc.invalidations.map Invalidation.lsnOf)

theorem restoreMemory_from {acc : Restoring} (restoring : RestoringFrom s acc)
    (entry : Sigma fun _ : MemoryId => Finset ℕ) :
    RestoringFrom s (restoreMemory now acc entry) := by
  unfold restoreMemory
  split
  · exact restoring
  · dsimp only
    split
    · exact restoring
    · split <;> simpa [RestoringFrom, Invalidation.lsnOf] using Dense.snoc restoring

theorem restoreRelationship_from {acc : Restoring} (restoring : RestoringFrom s acc)
    (entry : Sigma fun _ : RelationshipId => Finset ℕ) :
    RestoringFrom s (restoreRelationship now acc entry) := by
  unfold restoreRelationship
  split
  · exact restoring
  · dsimp only
    split
    · exact restoring
    · split <;> simpa [RestoringFrom, Invalidation.lsnOf] using Dense.snoc restoring

theorem restoreAll_from (restore : FencedRestore) (now : DateTime) (s : InMemoryStorage) :
    RestoringFrom s (s.restoreAll restore now) := by
  have start : RestoringFrom s ⟨s.memories, s.rels, s.lsn, [], []⟩ := Dense.nil s.lsn
  refine List.foldlRecOn _ _ (List.foldlRecOn _ _ start ?_) ?_
  · intro acc restoring entry _
    exact restoreMemory_from restoring entry
  · intro acc restoring entry _
    exact restoreRelationship_from restoring entry

/-- A rollback that finds none of its versions does nothing at all. -/
theorem restoreAll_idle (gone : ∀ row, ∀ version ∈ s.rows row, version.lsn ∉ restore.owned row)
    (now : DateTime) : s.restoreAll restore now = ⟨s.memories, s.rels, s.lsn, [], []⟩ := by
  have memories : ∀ entry ∈ restore.ownedMemoryLsns.sortedEntries
      (fun left right => left.raw.le right.raw),
      restoreMemory now ⟨s.memories, s.rels, s.lsn, [], []⟩ entry =
        ⟨s.memories, s.rels, s.lsn, [], []⟩ := by
    intro entry member
    rw [Table.mem_sortedEntries] at member
    unfold restoreMemory
    cases found : s.memories.lookup entry.1 with
    | none => rfl
    | some versions =>
        have kept : ∀ version ∈ versions, version.lsn.value ∉ entry.2 := fun version inside => by
          have kept := gone (.memory entry.1) (.memory version)
            (List.mem_map_of_mem (by simpa [Table.history, found] using inside))
          simpa [FencedRestore.owned, Table.members, member, Row.lsn] using kept
        simp +contextual [kept]
  have relationships : ∀ entry ∈ restore.ownedRelationshipLsns.sortedEntries
      (fun left right => left.raw.le right.raw),
      restoreRelationship now ⟨s.memories, s.rels, s.lsn, [], []⟩ entry =
        ⟨s.memories, s.rels, s.lsn, [], []⟩ := by
    intro entry member
    rw [Table.mem_sortedEntries] at member
    unfold restoreRelationship
    cases found : s.rels.lookup entry.1 with
    | none => rfl
    | some versions =>
        have kept : ∀ version ∈ versions, version.lsn.value ∉ entry.2 := fun version inside => by
          have kept := gone (.relationship entry.1) (.relationship version)
            (List.mem_map_of_mem (by simpa [Table.history, found] using inside))
          simpa [FencedRestore.owned, Table.members, member, Row.lsn] using kept
        simp +contextual [kept]
  unfold restoreAll
  refine List.foldlRecOn (motive := (· = _)) _ _
    (List.foldlRecOn (motive := (· = _)) _ _ rfl ?_) ?_
  · rintro acc rfl entry member
    exact memories entry member
  · rintro acc rfl entry member
    exact relationships entry member

/-! ## The rollback section -/

/-- A rollback that passes the fence changes rows and the counter, and publishes
what it takes after the gate. -/
structure RolledBack (restore : FencedRestore) (s t : InMemoryStorage)
    (events : List Invalidation) : Prop where
  rows : ∀ row, t.rows row =
    (s.rows row).filter fun version => decide (version.lsn ∉ restore.owned row)
  dense : Dense s.lsn t.lsn (events.map Invalidation.lsnOf)
  onlyRows : t = { s with lsn := t.lsn, memories := t.memories, rels := t.rels }

theorem restoreFenced_current (current : s.leaseCurrent lease now) (restore : FencedRestore) :
    RolledBack restore s (s.restoreFenced restore lease now).post
        (s.restoreFenced restore lease now).pending ∧
      (s.restoreFenced restore lease now).reply = .ok (s.restoreAll restore now).records := by
  rw [restoreFenced, fenced_current current]
  exact ⟨⟨restoreAll_rows restore now s, restoreAll_from restore now s, rfl⟩, rfl⟩

theorem restoreFenced_stale (stale : ¬ s.leaseCurrent lease now) (restore : FencedRestore) :
    s.restoreFenced restore lease now = .fail s (.fencedWriteRejected lease.epoch) :=
  fenced_stale stale _

theorem restoreFenced_publishes :
    Publishes False s (s.restoreFenced restore lease now).post
      (s.restoreFenced restore lease now).pending := by
  by_cases current : s.leaseCurrent lease now
  · have rolled := (restoreFenced_current current restore).1
    refine .after ?_ rolled.dense
    rw [rolled.onlyRows]
  · rw [restoreFenced_stale current]
    exact .of_same ⟨rfl, rfl, rfl, rfl⟩

/-- A rollback keeps a sublist of every history, and the counter does not fall. -/
theorem restoreFenced_sublist :
    s.lsn ≤ (s.restoreFenced restore lease now).post.lsn ∧
      ∀ row, ((s.restoreFenced restore lease now).post.rows row).Sublist (s.rows row) := by
  by_cases current : s.leaseCurrent lease now
  · have rolled := (restoreFenced_current current restore).1
    refine ⟨rolled.dense.counter_le, fun row => ?_⟩
    rw [rolled.rows]
    exact List.filter_sublist
  · rw [restoreFenced_stale current]
    exact ⟨le_rfl, fun row => List.Sublist.refl _⟩

theorem restoreFenced_frames : Frames none s (s.restoreFenced restore lease now).post := by
  intro p _
  by_cases current : s.leaseCurrent lease now
  · rw [(restoreFenced_current current restore).1.onlyRows]
    cases p <;> rfl
  · rw [restoreFenced_stale current]
    rfl

theorem restoreFenced_refuses (error : StorageError)
    (failed : (s.restoreFenced restore lease now).reply = .error error) :
    (s.restoreFenced restore lease now).pending = [] ∧
      Untouched s (s.restoreFenced restore lease now).post := by
  by_cases current : s.leaseCurrent lease now
  · rw [(restoreFenced_current current restore).2] at failed
    cases failed
  · rw [restoreFenced_stale current]
    exact ⟨rfl, rfl⟩

/-! ## What a batch adds to a journal -/

theorem lsnsOf_recordInvalidation (commit : FencedBatchCommit) (event : Invalidation)
    (row : RowId) :
    (recordInvalidation commit event).lsnsOf row =
      commit.lsnsOf row ∪ if upsertedRow event = some row then {event.lsnOf} else ∅ := by
  cases event <;> cases row <;>
    simp [recordInvalidation, FencedBatchCommit.lsnsOf, upsertedRow, Table.members_extend,
      Invalidation.lsnOf, eq_comm]

/-- A batch owns, of a row, the numbers of the events that name it. -/
theorem mem_lsnsOf_fencedBatchCommit (records : List CommitRecord) (events : List Invalidation)
    (row : RowId) (lsn : ℕ) :
    lsn ∈ (fencedBatchCommit records events).lsnsOf row ↔
      ∃ event ∈ events, upsertedRow event = some row ∧ event.lsnOf = lsn := by
  have fold : ∀ commit : FencedBatchCommit,
      lsn ∈ (events.foldl recordInvalidation commit).lsnsOf row ↔
        lsn ∈ commit.lsnsOf row ∨
          ∃ event ∈ events, upsertedRow event = some row ∧ event.lsnOf = lsn := by
    induction events with
    | nil => intro commit; simp
    | cons event events ih =>
        intro commit
        rw [List.foldl_cons, ih, lsnsOf_recordInvalidation]
        by_cases names : upsertedRow event = some row
        · rw [if_pos names, List.exists_mem_cons_iff, Finset.mem_union, Finset.mem_singleton,
            or_assoc, eq_comm, and_iff_right names]
        · rw [if_neg names, List.exists_mem_cons_iff]
          simp [names]
  have start : (⟨records, ∅, ∅⟩ : FencedBatchCommit).lsnsOf row = ∅ := by
    cases row <;> exact Table.members_empty _
  rw [fencedBatchCommit, fold, start]
  simp

/-- What the journal of a key owns after a batch. -/
theorem owned_journalBatch (journal : Option CycleJournalRecord) (prepared : FencedRestore)
    (commit : FencedBatchCommit) (cycleId : String) (lease : OwnerLease) (row : RowId) :
    (journalBatch journal prepared commit cycleId lease).restore.owned row =
      ((journal.map CycleJournalRecord.restore).getD default).owned row ∪ prepared.owned row ∪
        commit.lsnsOf row := by
  rw [← FencedRestore.owned_merge]
  cases row <;> exact Table.members_extendAll _ _ _

end InMemoryStorage

end Exocortex
