import Exocortex.Storage.Leases
import Exocortex.Storage.LsnOrder

/-!
# What the calls of a Dreams cycle do

One inversion for each call a cycle makes: a journaled batch, the rollback, the
completion of a journal, and the settlement. Each either refuses and leaves the
state as it was, or does exactly what its structure says.

The journal of a key after a batch owns what it owned before, what the caller
prepared, and the numbers of the rows just written (`BatchJournaled.owned`).
-/

namespace Exocortex

open Library InMemoryStorage

variable {s t : InMemoryStorage}

/-- What a journaled batch that commits does. -/
structure BatchJournaled (prepared : FencedRestore) (cycleId : String) (lease : OwnerLease)
    (commit : FencedBatchCommit) (s t : InMemoryStorage) : Prop where
  grows : s.Grows t
  named : ∀ row, ∀ version ∈ t.rows row, s.lsn < version.lsn → version.lsn ∈ commit.lsnsOf row
  taken : ∀ row, ∀ lsn ∈ commit.lsnsOf row, s.lsn < lsn ∧ lsn ≤ t.lsn
  stored : ∀ lsn, s.lsn < lsn → lsn ≤ t.lsn → ∃ row, ∃ version ∈ t.rows row, version.lsn = lsn
  journals : t.cycleJournals = s.cycleJournals.insert lease.key
    (journalBatch (s.cycleJournals.lookup lease.key) prepared commit cycleId lease)
  succeeded : t.succeededCycles = s.succeededCycles

/-- What the settlement of a cycle does when it is the first one. -/
structure CycleSettled (cycleId : String) (lease : OwnerLease) (s t : InMemoryStorage) :
    Prop where
  rows : t.rows = s.rows
  counter_le : s.lsn ≤ t.lsn
  journals : t.cycleJournals = s.cycleJournals.insert lease.key
    ⟨cycleId, lease.key, lease.epoch, default, .completed⟩
  succeeded : ∃ digest, t.succeededCycles = s.succeededCycles.insert (lease.key, cycleId) digest

/-- What a rollback that passes the fence does. -/
structure CycleRestored (restore : FencedRestore) (s t : InMemoryStorage) : Prop where
  rows : ∀ row, t.rows row =
    (s.rows row).filter fun version => decide (version.lsn ∉ restore.owned row)
  counter_le : s.lsn ≤ t.lsn
  cycles : t.view .cycles = s.view .cycles

variable {lease : OwnerLease} {cycleId : String}

/-- The journal of the key owns the rows just written, and keeps what it owned. -/
theorem BatchJournaled.owned {prepared : FencedRestore} {commit : FencedBatchCommit}
    (batch : BatchJournaled prepared cycleId lease commit s t) :
    ∃ journal, t.cycleJournals.lookup lease.key = some journal ∧ journal.state = .active ∧
      journal.cycleId = cycleId ∧ ∀ row, journal.restore.owned row =
        (((s.cycleJournals.lookup lease.key).map CycleJournalRecord.restore).getD default).owned
          row ∪ prepared.owned row ∪ commit.lsnsOf row := by
  refine ⟨_, ?_, rfl, rfl, owned_journalBatch (s.cycleJournals.lookup lease.key) prepared commit
    cycleId lease⟩
  rw [batch.journals, Table.lookup_insert_eq, if_pos rfl]

namespace Call

/-- The whole call leaves the cycles as its section does. -/
theorem run_cycles (env : Env) (now : DateTime) (s : InMemoryStorage) (call : Call) :
    (call.run env now s).2.cycleJournals = (call.gated env now s).post.cycleJournals ∧
      (call.run env now s).2.succeededCycles = (call.gated env now s).post.succeededCycles :=
  Prod.mk.inj (run_view env now s call .cycles)

theorem run_upsertBatchFencedJournaled (env : Env) (now : DateTime) (stamped : s.WellStamped)
    (ms : List Memory) (rs : List Relationship) (prepared : FencedRestore) (cycleId : String)
    (lease : OwnerLease) :
    (∃ error, run env now s (.upsertBatchFencedJournaled ms rs prepared cycleId lease) =
        (.error error, s)) ∨
      ∃ commit, (run env now s (.upsertBatchFencedJournaled ms rs prepared cycleId lease)).1 =
          .ok (.batch commit) ∧ s.leaseCurrent lease now ∧
        BatchJournaled prepared cycleId lease commit s
          (run env now s (.upsertBatchFencedJournaled ms rs prepared cycleId lease)).2 := by
  obtain ⟨rows, lsn⟩ :=
    run_rows env now s (.upsertBatchFencedJournaled ms rs prepared cycleId lease)
  obtain ⟨journals, succeeded⟩ :=
    run_cycles env now s (.upsertBatchFencedJournaled ms rs prepared cycleId lease)
  have grows := (gated_sound env now s
    (.upsertBatchFencedJournaled ms rs prepared cycleId lease)).grows id
  by_cases current : s.leaseCurrent lease now
  · cases other : (s.cycleJournals.lookup lease.key).filter (otherCycleActive · cycleId) with
    | some active =>
        left
        simp [run, gated, InMemoryStorage.upsertBatchFencedJournaled, fenced_current current, other,
          Outcome.map, Outcome.fail, Except.map]
    | none =>
        cases committed : s.upsertBatchLocked env ms rs now with
        | error error =>
            left
            simp [run, gated, InMemoryStorage.upsertBatchFencedJournaled, fenced_current current,
              other, committed, Outcome.map, Outcome.fail, Except.map]
        | ok result =>
            obtain ⟨records, events, u⟩ := result
            have ran : s.upsertBatchFencedJournaled env ms rs prepared cycleId lease now =
                ⟨.ok (fencedBatchCommit records events), events, u.setJournal lease.key
                  (journalBatch (s.cycleJournals.lookup lease.key) prepared
                    (fencedBatchCommit records events) cycleId lease)⟩ := by
              simp [InMemoryStorage.upsertBatchFencedJournaled, fenced_current current, other,
                committed]
            have batch := upsertBatchLocked_spec committed
            simp only [gated, ran, Outcome.map] at rows lsn journals succeeded grows
            have sameLsn : (u.setJournal lease.key (journalBatch
                (s.cycleJournals.lookup lease.key) prepared (fencedBatchCommit records events)
                cycleId lease)).lsn = u.lsn := rfl
            rw [sameLsn] at lsn
            obtain ⟨sent, -, -, quiet, dense⟩ := batch.publishes
            rw [quiet id, List.nil_append] at dense
            refine .inr ⟨fencedBatchCommit records events, ?_, current, ?_, ?_, ?_, ?_, ?_, ?_⟩
            · simp [run, gated, ran, Outcome.map, Except.map]
            · rw [Grows, rows, lsn]
              exact grows
            · intro row version member above
              rw [rows] at member
              rw [mem_lsnsOf_fencedBatchCommit]
              rcases batch.named row version member above with old | named
              · exact absurd (stamped.bounded row version old) (not_le.mpr above)
              · exact named
            · intro row number member
              rw [mem_lsnsOf_fencedBatchCommit] at member
              obtain ⟨event, inside, -, rfl⟩ := member
              rw [lsn]
              exact dense.mem_iff.mp (List.mem_map_of_mem inside)
            · intro number above below
              rw [lsn] at below
              obtain ⟨event, inside, rfl⟩ := List.mem_map.mp (dense.mem_iff.mpr ⟨above, below⟩)
              rw [rows]
              exact batch.stored event inside
            · rw [journals, batch.onlyRows]
              rfl
            · rw [succeeded, batch.onlyRows]
              rfl
  · exact .inl (LeaseSystem.fenced_stale_changes_nothing env now rfl current)

/-- A journal of the cycle that is found under a current lease is completed. -/
theorem run_completeCycleJournalFenced_found (env : Env) {now : DateTime}
    {journal : CycleJournalRecord} (current : s.leaseCurrent lease now)
    (found : s.cycleJournals.lookup lease.key = some journal) (same : journal.cycleId = cycleId) :
    run env now s (.completeCycleJournalFenced cycleId lease) =
      (.ok .unit, s.setJournal lease.key { journal with state := .completed }) := by
  simp [run, gated, InMemoryStorage.completeCycleJournalFenced, fenced_current current, found,
    same, Outcome.map, Except.map]

theorem run_completeCycleJournalFenced (env : Env) (now : DateTime) (s : InMemoryStorage)
    (cycleId : String) (lease : OwnerLease) :
    (∃ error, run env now s (.completeCycleJournalFenced cycleId lease) = (.error error, s)) ∨
      ∃ journal, s.leaseCurrent lease now ∧ s.cycleJournals.lookup lease.key = some journal ∧
        journal.cycleId = cycleId ∧
        run env now s (.completeCycleJournalFenced cycleId lease) =
          (.ok .unit, s.setJournal lease.key { journal with state := .completed }) := by
  by_cases current : s.leaseCurrent lease now
  · cases found : s.cycleJournals.lookup lease.key with
    | none =>
        left
        simp [run, gated, InMemoryStorage.completeCycleJournalFenced, fenced_current current,
          found, Outcome.map, Outcome.fail, Except.map]
    | some journal =>
        by_cases same : journal.cycleId = cycleId
        · exact .inr ⟨journal, current, rfl, same,
            run_completeCycleJournalFenced_found env current found same⟩
        · left
          simp [run, gated, InMemoryStorage.completeCycleJournalFenced, fenced_current current,
            found, same, Outcome.map, Outcome.fail, Except.map]
  · exact .inl (LeaseSystem.fenced_stale_changes_nothing env now rfl current)

theorem run_restoreFenced (env : Env) (now : DateTime) (s : InMemoryStorage)
    (restore : FencedRestore) (lease : OwnerLease) :
    (¬ s.leaseCurrent lease now ∧
        ∃ error, run env now s (.restoreFenced restore lease) = (.error error, s)) ∨
      ∃ records, (run env now s (.restoreFenced restore lease)).1 = .ok (.records records) ∧
        s.leaseCurrent lease now ∧
        CycleRestored restore s (run env now s (.restoreFenced restore lease)).2 := by
  by_cases current : s.leaseCurrent lease now
  · obtain ⟨rolled, reply⟩ := restoreFenced_current current restore
    obtain ⟨rows, lsn⟩ := run_rows env now s (.restoreFenced restore lease)
    have sound := gated_sound env now s (.restoreFenced restore lease)
    refine .inr ⟨(s.restoreAll restore now).records, ?_, current, ?_, ?_, ?_⟩
    · simp [run, gated, reply, Outcome.map, Except.map]
    · intro row
      rw [rows]
      exact rolled.rows row
    · rw [lsn]
      exact rolled.dense.counter_le
    · rw [run_view]
      exact sound.frames .cycles (fun none => by cases none)
  · exact .inl ⟨current, LeaseSystem.fenced_stale_changes_nothing env now rfl current⟩

/-- A settlement refuses, or finds the cycle settled before, or settles it. -/
theorem run_settleDreamsCycleFenced (env : Env) (now : DateTime) (s : InMemoryStorage)
    (cycleId : String) (records : List DiscoveryRecord) (lease : OwnerLease) :
    (∃ error, run env now s (.settleDreamsCycleFenced cycleId records lease) =
        (.error error, s)) ∨
      ((lease.key, cycleId) ∈ s.succeededCycles ∧ s.leaseCurrent lease now ∧
        run env now s (.settleDreamsCycleFenced cycleId records lease) = (.ok .unit, s)) ∨
      ((run env now s (.settleDreamsCycleFenced cycleId records lease)).1 = .ok .unit ∧
        s.leaseCurrent lease now ∧
        CycleSettled cycleId lease s
          (run env now s (.settleDreamsCycleFenced cycleId records lease)).2) := by
  cases hashed : dreamsSettlementEffectDigest env records with
  | error error =>
      left
      simp [run, gated, InMemoryStorage.settleDreamsCycleFenced, hashed, Outcome.map, Outcome.fail,
        Except.map]
  | ok digest =>
      by_cases current : s.leaseCurrent lease now
      · have refused (error : StorageError) (fails : s.settleDreamsCycleFenced env cycleId records
            lease now = .fail s error) :
            ∃ error, run env now s (.settleDreamsCycleFenced cycleId records lease) =
              (.error error, s) :=
          ⟨error, by simp [run, gated, fails, Outcome.map, Outcome.fail, Except.map]⟩
        cases stored : s.succeededCycles.lookup (lease.key, cycleId) with
        | some earlier =>
            by_cases same : earlier = digest
            · refine .inr (.inl ⟨AList.lookup_isSome.mp (by rw [stored]; rfl), current, ?_⟩)
              simp [run, gated, InMemoryStorage.settleDreamsCycleFenced, hashed,
                fenced_current current, stored, same, Outcome.map, Except.map]
            · refine .inl (refused .proposalMismatch ?_)
              simp [InMemoryStorage.settleDreamsCycleFenced, hashed, fenced_current current, stored,
                same]
        | none =>
            by_cases other : (s.cycleJournals.lookup lease.key).any (otherCycleActive · cycleId)
            · refine .inl (refused
                (.backend "another active Dreams cycle requires recovery") ?_)
              simp [InMemoryStorage.settleDreamsCycleFenced, hashed, fenced_current current, stored,
                other]
            · by_cases conflict : records.any s.discoveryConflict
              · refine .inl (refused .proposalMismatch ?_)
                simp [InMemoryStorage.settleDreamsCycleFenced, hashed, fenced_current current,
                  stored,
                  other, conflict]
              · right; right
                obtain ⟨only, dense⟩ := settleDiscoveries_from s records
                obtain ⟨rows, lsn⟩ :=
                  run_rows env now s (.settleDreamsCycleFenced cycleId records lease)
                obtain ⟨journals, succeeded⟩ :=
                  run_cycles env now s (.settleDreamsCycleFenced cycleId records lease)
                have settled : s.settleDreamsCycleFenced env cycleId records lease now =
                    ⟨.ok (), (records.foldl settleDiscovery (s, [])).2,
                      { (records.foldl settleDiscovery (s, [])).1.setJournal lease.key
                          ⟨cycleId, lease.key, lease.epoch, default, .completed⟩ with
                        succeededCycles := (records.foldl settleDiscovery
                          (s, [])).1.succeededCycles.insert (lease.key, cycleId) digest }⟩ := by
                  simp [InMemoryStorage.settleDreamsCycleFenced, hashed, fenced_current current,
                    stored, other, conflict]
                simp only [gated, settled, Outcome.map] at rows lsn journals succeeded
                refine ⟨by simp [run, gated, settled, Outcome.map, Except.map], current,
                  ?_, ?_, ?_, digest, ?_⟩
                · rw [rows, only]
                  rfl
                · rw [lsn]
                  exact dense.counter_le
                · rw [journals, only]
                  rfl
                · rw [succeeded, only]
      · exact .inl (LeaseSystem.fenced_stale_changes_nothing env now rfl current)

end Call

end Exocortex
