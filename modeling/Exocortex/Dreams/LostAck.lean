import Exocortex.Dreams.CycleJournal

/-!
# A cycle whose last acknowledgement is lost

A cycle makes journaled batches. Each commits its rows together with the durable
journal, and its caller then notes the commit in the journal it keeps in process. The
reply to a batch may be lost after the commit: the call is cancelled, or fails
ambiguously. The cycle then stops and takes its failure path, which rolls back from
the journal in process and completes the durable one.

A batch whose reply was lost is in the durable journal and not in the one in process.
Recovery reads the durable journal; the failure path does not, so it strands such a
batch exactly when it gets to complete the journal (`CycleRun.Strands`). When every
reply is observed, or the failure path does not complete the journal, nothing of the
cycle remains behind a completed journal.
-/

namespace Exocortex

open Library InMemoryStorage

/-- One batch of a cycle: the notes before it, its rows, and its instant. -/
structure CycleBatch where
  notes : List JournalNote
  ms : List Memory
  rs : List Relationship
  now : DateTime

/-- A cycle under way: the store, the journal in process, and the numbers the cycle's
batches took. -/
structure CycleProgress where
  store : InMemoryStorage
  journal : CycleJournal
  written : Finset ℕ

namespace CycleProgress

/-- The call of a batch. -/
def batchCall (engine : DreamsEngine) (lease : OwnerLease) (p : CycleProgress)
    (batch : CycleBatch) : Call :=
  let journal := p.journal.noteAll engine.inverse batch.notes
  .upsertBatchFencedJournaled batch.ms batch.rs journal.restore journal.cycleId lease

/-- One batch. Its caller notes the commit when it observes the reply. -/
def batch (engine : DreamsEngine) (lease : OwnerLease) (observed : Bool) (p : CycleProgress)
    (batch : CycleBatch) : CycleProgress :=
  let journal := p.journal.noteAll engine.inverse batch.notes
  let result := (p.batchCall engine lease batch).run engine.env batch.now p.store
  { store := result.2
    journal :=
      match observed, result.1 with
      | true, .ok (.batch commit) => journal.recordCommit commit
      | _, _ => journal
    written := p.written ∪ Finset.Ioc p.store.lsn result.2.lsn }

end CycleProgress

/-- A cycle that fails: the calls the store saw before it, its lease and identity, the
batches whose replies it observed, the batch whose reply it lost, and the instants of
its failure path. -/
structure CycleRun where
  before : List (DateTime × Call)
  lease : OwnerLease
  cycleId : String
  batches : List CycleBatch
  lost : Option CycleBatch
  restoreAt : DateTime
  completeAt : DateTime

namespace CycleRun

/-- The cycle after the batches whose replies it observed. -/
def acknowledged (engine : DreamsEngine) (run : CycleRun) : CycleProgress :=
  run.batches.foldl (CycleProgress.batch engine run.lease true)
    ⟨Call.runAll engine.env .new run.before, .new run.cycleId, ∅⟩

/-- The cycle when its failure path starts. -/
def progress (engine : DreamsEngine) (run : CycleRun) : CycleProgress :=
  match run.lost with
  | none => run.acknowledged engine
  | some batch => (run.acknowledged engine).batch engine run.lease false batch

/-- The store after the failure path. -/
def final (engine : DreamsEngine) (run : CycleRun) : InMemoryStorage :=
  (finishCycle engine.env (run.progress engine).journal run.lease run.restoreAt run.completeAt
    (run.progress engine).store).2

/-- A completed journal of a cycle that was not settled leaves no version of the cycle
behind. -/
def AllOrNothing (engine : DreamsEngine) (run : CycleRun) : Prop :=
  (∃ journal, (run.final engine).cycleJournals.lookup run.lease.key = some journal ∧
      journal.state = .completed) →
    (run.lease.key, run.cycleId) ∉ (run.final engine).succeededCycles →
      ∀ row, ∀ version ∈ (run.final engine).rows row,
        version.lsn ∉ (run.progress engine).written

end CycleRun

/-- The store commits a batch: the lease is current, no other cycle is active, and no
endpoint is missing. -/
structure InMemoryStorage.AcceptsBatch (s : InMemoryStorage) (cycleId : String)
    (lease : OwnerLease) (batch : CycleBatch) : Prop where
  current : s.leaseCurrent lease batch.now
  free : (s.cycleJournals.lookup lease.key).filter (otherCycleActive · cycleId) = none
  endpoints : batch.rs.find? (s.endpointMissing batch.ms) = none

/-- The failure path strands the batch whose reply was lost: the batch was committed
and has rows, an earlier batch is in the journal in process, and the lease lets the
rollback and the completion of the unsettled cycle through. -/
structure CycleRun.Strands (engine : DreamsEngine) (run : CycleRun) (batch : CycleBatch) :
    Prop where
  lost : run.lost = some batch
  committed : (run.acknowledged engine).store.AcceptsBatch run.cycleId run.lease batch
  rows : batch.ms ≠ [] ∨ batch.rs ≠ []
  journaled : (run.acknowledged engine).journal.isEmpty = false
  restores : (run.acknowledged engine).store.leaseCurrent run.lease run.restoreAt
  completes : (run.acknowledged engine).store.leaseCurrent run.lease run.completeAt
  unsettled : (run.lease.key, run.cycleId) ∉ (run.acknowledged engine).store.succeededCycles

variable {q : CycleProgress}

namespace CycleProgress

/-! ## What one batch does -/

/-- The counter after the rows of a batch are staged. -/
theorem stageMemories_next (now : DateTime) (ms : List Memory) : ∀ staged : Staged,
    (ms.foldl (stageMemory now) staged).next = staged.next + ms.length := by
  induction ms with
  | nil => intro staged; rfl
  | cons m ms ih =>
      intro staged
      rw [List.foldl_cons, ih, List.length_cons]
      simp only [stageMemory]
      omega

theorem stageRelationships_next (env : Env) (now : DateTime) (rs : List Relationship) :
    ∀ staged : Staged,
      staged.next + rs.length ≤ (rs.foldl (stageRelationship env now) staged).next := by
  induction rs with
  | nil => intro staged; exact le_rfl
  | cons r rs ih =>
      intro staged
      have one : staged.next + 1 ≤ (stageRelationship env now staged r).next := by
        unfold stageRelationship
        dsimp only
        split
        · exact le_rfl
        · split
          · exact le_rfl
          · exact Nat.le_succ _
      have rest := ih (stageRelationship env now staged r)
      rw [List.foldl_cons, List.length_cons]
      omega

theorem stageBatch_next (env : Env) (ms : List Memory) (rs : List Relationship) (now : DateTime)
    (s : InMemoryStorage) :
    s.lsn + ms.length + rs.length ≤ (s.stageBatch env ms rs now).next := by
  have memories := stageMemories_next now ms
    ⟨s.memories, s.rels, s.lsn, (rs.map (·.id)).toFinset, [], []⟩
  have relationships := stageRelationships_next env now rs (ms.foldl (stageMemory now)
    ⟨s.memories, s.rels, s.lsn, (rs.map (·.id)).toFinset, [], []⟩)
  rw [memories] at relationships
  exact relationships

/-- A batch is answered with its commit exactly when the store accepts it, and it takes
a number for each of its rows. -/
theorem run_accepts (env : Env) (s : InMemoryStorage) (cycleId : String) (lease : OwnerLease)
    (prepared : FencedRestore) (batch : CycleBatch) :
    (¬ s.AcceptsBatch cycleId lease batch ∧ ∃ error,
        (Call.run env batch.now s
          (.upsertBatchFencedJournaled batch.ms batch.rs prepared cycleId lease)).1 =
            .error error) ∨
      (s.AcceptsBatch cycleId lease batch ∧
        (Call.run env batch.now s (.upsertBatchFencedJournaled batch.ms batch.rs prepared
          cycleId lease)).2.lsn = (s.stageBatch env batch.ms batch.rs batch.now).next ∧
        ∀ error, (Call.run env batch.now s
          (.upsertBatchFencedJournaled batch.ms batch.rs prepared cycleId lease)).1 ≠
            .error error) := by
  obtain ⟨-, lsn⟩ := Call.run_rows env batch.now s
    (.upsertBatchFencedJournaled batch.ms batch.rs prepared cycleId lease)
  by_cases current : s.leaseCurrent lease batch.now
  · cases other : (s.cycleJournals.lookup lease.key).filter (otherCycleActive · cycleId) with
    | some active =>
        refine .inl ⟨fun accepts => ?_, ?_⟩
        · rw [accepts.free] at other
          cases other
        · simp [Call.run, Call.gated, upsertBatchFencedJournaled, fenced_current current, other,
            Outcome.map, Outcome.fail, Except.map]
    | none =>
        cases missing : batch.rs.find? (s.endpointMissing batch.ms) with
        | some r =>
            refine .inl ⟨fun accepts => ?_, ?_⟩
            · rw [accepts.endpoints] at missing
              cases missing
            · simp [Call.run, Call.gated, upsertBatchFencedJournaled, fenced_current current, other,
                upsertBatchLocked, missing, Outcome.map, Outcome.fail, Except.map]
        | none =>
            refine .inr ⟨⟨current, other, missing⟩, ?_, fun error => ?_⟩
            · rw [lsn]
              simp [Call.gated, upsertBatchFencedJournaled, fenced_current current, other,
                upsertBatchLocked, missing, Outcome.map, setJournal]
            · simp [Call.run, Call.gated, upsertBatchFencedJournaled, fenced_current current, other,
                upsertBatchLocked, missing, Outcome.map, Except.map]
  · obtain ⟨error, refused⟩ := LeaseSystem.fenced_stale_changes_nothing env batch.now
      (show (Call.upsertBatchFencedJournaled batch.ms batch.rs prepared cycleId lease).fencedBy =
        some lease from rfl) current
    exact .inl ⟨fun accepts => current accepts.current, error, by rw [refused]⟩

/-- What is known of a cycle all of whose replies were observed: the journal in process
owns every stored version the cycle wrote, and the durable journal is active. -/
structure Tracked (lease : OwnerLease) (cycleId : String) (p : CycleProgress) : Prop where
  stamped : p.store.WellStamped
  cycleId : p.journal.cycleId = cycleId
  written_le : ∀ lsn ∈ p.written, lsn ≤ p.store.lsn
  owned_le : ∀ row, ∀ lsn ∈ p.journal.owned row, lsn ≤ p.store.lsn
  owns : ∀ row, ∀ version ∈ p.store.rows row, version.lsn ∈ p.written →
    version.lsn ∈ p.journal.owned row
  active : p.written.Nonempty → ∃ journal,
    p.store.cycleJournals.lookup lease.key = some journal ∧ journal.state = .active

variable {engine : DreamsEngine} {lease : OwnerLease} {cycleId : String} {p : CycleProgress}

/-- A batch that commits, whether or not its reply is observed. -/
structure Commits (lease : OwnerLease) (observed : Bool) (p : CycleProgress)
    (batch : CycleBatch) (q : CycleProgress) : Prop where
  journaled : ∃ journal commit, CycleJournal.SameOwner p.journal journal ∧
    q.journal = (if observed then journal.recordCommit commit else journal) ∧
    BatchJournaled journal.restore journal.cycleId lease commit p.store q.store
  written : q.written = p.written ∪ Finset.Ioc p.store.lsn q.store.lsn
  grows : p.store.lsn + batch.ms.length + batch.rs.length ≤ q.store.lsn
  idle : batch.ms = [] → batch.rs = [] → q.store.lsn = p.store.lsn
  stamped : q.store.WellStamped
  leases : q.store.leases = p.store.leases

/-- A batch is refused and only its notes are kept, or it commits. -/
theorem batch_cases (engine : DreamsEngine) (tracked : Tracked lease cycleId p) (observed : Bool)
    (batch : CycleBatch) :
    (¬ p.store.AcceptsBatch cycleId lease batch ∧
      (p.batch engine lease observed batch).store = p.store ∧
      (p.batch engine lease observed batch).written = p.written ∧
      CycleJournal.SameOwner p.journal (p.batch engine lease observed batch).journal) ∨
    (p.store.AcceptsBatch cycleId lease batch ∧
      Commits lease observed p batch (p.batch engine lease observed batch)) := by
  have noted := CycleJournal.noteAll_same engine.inverse p.journal batch.notes
  have ofCycle : (p.journal.noteAll engine.inverse batch.notes).cycleId = cycleId := by
    rw [noted.cycleId, tracked.cycleId]
  have answered := run_accepts engine.env p.store cycleId lease
    (p.journal.noteAll engine.inverse batch.notes).restore batch
  rcases Call.run_upsertBatchFencedJournaled engine.env batch.now tracked.stamped batch.ms
      batch.rs (p.journal.noteAll engine.inverse batch.notes).restore cycleId lease with
    ⟨error, refused⟩ | ⟨commit, reply, -, journaled⟩
  · rw [refused] at answered
    rcases answered with ⟨rejects, -⟩ | ⟨-, -, accepted⟩
    · refine .inl ⟨rejects, ?_⟩
      simp only [CycleProgress.batch, batchCall, ofCycle, refused]
      exact ⟨trivial, by simp, by cases observed <;> exact noted⟩
    · exact absurd rfl (accepted error)
  · rcases answered with ⟨-, error, rejected⟩ | ⟨accepts, counter, -⟩
    · rw [reply] at rejected
      cases rejected
    · refine .inr ⟨accepts, ?_⟩
      have stamped := (Call.run_stamped engine.env batch.now tracked.stamped
        (.upsertBatchFencedJournaled batch.ms batch.rs
          (p.journal.noteAll engine.inverse batch.notes).restore cycleId lease)).1
      have leases := (Prod.mk.inj ((Call.run_view engine.env batch.now p.store
        (.upsertBatchFencedJournaled batch.ms batch.rs
          (p.journal.noteAll engine.inverse batch.notes).restore cycleId lease) .leases).trans
        ((Call.gated_sound engine.env batch.now p.store (.upsertBatchFencedJournaled batch.ms
          batch.rs (p.journal.noteAll engine.inverse batch.notes).restore cycleId
          lease)).frames .leases (fun same => by cases same)))).1
      have next := stageBatch_next engine.env batch.ms batch.rs batch.now p.store
      simp only [CycleProgress.batch, batchCall, ofCycle]
      refine ⟨⟨_, commit, noted, ?_, ?_⟩, rfl, ?_, ?_, stamped, leases⟩
      · rw [reply]
        cases observed <;> rfl
      · rw [ofCycle]
        exact journaled
      · rw [counter]
        exact next
      · intro noMemories noRelationships
        dsimp only
        rw [counter, noMemories, noRelationships]
        rfl

/-- The durable journal is active after a batch that commits. -/
theorem Commits.active {observed : Bool} {batch : CycleBatch}
    (commits : Commits lease observed p batch q) (ofCycle : p.journal.cycleId = cycleId) :
    ∃ journal, q.store.cycleJournals.lookup lease.key = some journal ∧
      journal.state = .active ∧ journal.cycleId = cycleId := by
  obtain ⟨journal, commit, noted, -, journaled⟩ := commits.journaled
  obtain ⟨durable, stored, active, identity, -⟩ := journaled.owned
  exact ⟨durable, stored, active, by rw [identity, noted.cycleId, ofCycle]⟩

/-- A batch refused, or one whose reply is lost and that has no rows, tells the caller
all there is. -/
theorem Tracked.same (tracked : Tracked lease cycleId p) (stamped : q.store.WellStamped)
    (noted : CycleJournal.SameOwner p.journal q.journal) (rows : q.store.rows = p.store.rows)
    (counter : q.store.lsn = p.store.lsn) (written : q.written = p.written)
    (active : q.written.Nonempty → ∃ journal,
      q.store.cycleJournals.lookup lease.key = some journal ∧ journal.state = .active) :
    Tracked lease cycleId q where
  stamped := stamped
  cycleId := by rw [noted.cycleId, tracked.cycleId]
  written_le := by rw [written, counter]; exact tracked.written_le
  owned_le := by rw [noted.owned, counter]; exact tracked.owned_le
  owns := by rw [noted.owned, rows, written]; exact tracked.owns
  active := active

theorem Tracked.idle {batch : CycleBatch} (tracked : Tracked lease cycleId p)
    (commits : Commits lease false p batch q) (noMemories : batch.ms = [])
    (noRelationships : batch.rs = []) : Tracked lease cycleId q := by
  obtain ⟨journal, commit, noted, kept, journaled⟩ := commits.journaled
  rw [if_neg Bool.false_ne_true] at kept
  have counter := commits.idle noMemories noRelationships
  have rows : q.store.rows = p.store.rows := by
    funext row
    obtain ⟨fresh, shape, above, stamped⟩ := journaled.grows.grown
    have none : fresh row = [] := List.eq_nil_iff_forall_not_mem.mpr fun version member => by
      have low := stamped.bounded row version member
      have high := above row version member
      omega
    rw [shape, none, List.append_nil]
  obtain ⟨durable, stored, active, -⟩ := commits.active tracked.cycleId
  refine tracked.same commits.stamped (kept ▸ noted) rows counter ?_
    fun _ => ⟨durable, stored, active⟩
  rw [commits.written, counter, Finset.Ioc_self, Finset.union_empty]

/-- A batch whose reply is observed keeps the journal in process complete. -/
theorem Tracked.observe (tracked : Tracked lease cycleId p) (batch : CycleBatch) :
    Tracked lease cycleId (p.batch engine lease true batch) := by
  rcases batch_cases engine tracked true batch with
    ⟨-, store, written, noted⟩ | ⟨-, commits⟩
  · refine tracked.same ?_ noted (by rw [store]) (by rw [store]) written ?_
    · rw [store]
      exact tracked.stamped
    · rw [written, store]
      exact tracked.active
  · generalize p.batch engine lease true batch = q at commits ⊢
    obtain ⟨journal, commit, noted, kept, journaled⟩ := commits.journaled
    have owned : ∀ row, q.journal.owned row = p.journal.owned row ∪ commit.lsnsOf row := by
      intro row
      rw [kept, if_pos rfl, CycleJournal.owned_recordCommit, noted.owned]
    have counter_le := journaled.grows.counter_le
    obtain ⟨durable, stored, active, -⟩ := commits.active tracked.cycleId
    refine ⟨commits.stamped, ?_, ?_, ?_, ?_, fun _ => ⟨durable, stored, active⟩⟩
    · rw [kept, if_pos rfl]
      exact noted.cycleId.trans tracked.cycleId
    · intro lsn member
      rw [commits.written, Finset.mem_union, Finset.mem_Ioc] at member
      rcases member with old | new
      · exact (tracked.written_le lsn old).trans counter_le
      · exact new.2
    · intro row lsn member
      rw [owned, Finset.mem_union] at member
      rcases member with old | new
      · exact (tracked.owned_le row lsn old).trans counter_le
      · exact (journaled.taken row lsn new).2
    · intro row version member written
      rw [owned, Finset.mem_union]
      by_cases above : p.store.lsn < version.lsn
      · exact .inr (journaled.named row version member above)
      · -- Below the counter nothing is new: neither the row nor its number.
        rw [commits.written, Finset.mem_union, Finset.mem_Ioc] at written
        have old := written.resolve_right fun new => above new.1
        obtain ⟨fresh, shape, new, -⟩ := journaled.grows.grown
        rw [shape, List.mem_append] at member
        exact .inl (tracked.owns row version
          (member.resolve_right fun inside => above (new row version inside)) old)

end CycleProgress

namespace CycleRun

variable {engine : DreamsEngine} {run : CycleRun}

theorem acknowledged_tracked (engine : DreamsEngine) (run : CycleRun) :
    CycleProgress.Tracked run.lease run.cycleId (run.acknowledged engine) := by
  refine List.foldlRecOn run.batches _ ⟨Call.runAll_stamped engine.env run.before, rfl, ?_, ?_, ?_,
    ?_⟩ ?_
  · simp
  · simp
  · simp
  · simp
  · intro p tracked batch _
    exact tracked.observe batch

/-! ## The failure path -/

/-- What the failure path does, from the state it starts in. -/
theorem finishCycle_cases (env : Env) (journal : CycleJournal) (lease : OwnerLease)
    (restoreAt completeAt : DateTime) (s : InMemoryStorage) :
    ((journal.isEmpty ∨ ¬ s.leaseCurrent lease restoreAt) ∧
        (finishCycle env journal lease restoreAt completeAt s).2 = s) ∨
      ∃ t, journal.isEmpty = false ∧ s.leaseCurrent lease restoreAt ∧
        CycleRestored journal.restore s t ∧ t.leases = s.leases ∧
        (finishCycle env journal lease restoreAt completeAt s).2 =
          (Call.run env completeAt t (.completeCycleJournalFenced journal.cycleId lease)).2 := by
  unfold finishCycle
  by_cases empty : journal.isEmpty
  · rw [if_pos empty]
    exact .inl ⟨.inl empty, rfl⟩
  · rw [if_neg empty]
    rcases Call.run_restoreFenced env restoreAt s journal.restore lease with
      ⟨stale, error, refused⟩ | ⟨records, reply, current, restored⟩
    · rw [refused]
      exact .inl ⟨.inr stale, rfl⟩
    · refine .inr ⟨_, by simpa using empty, current, restored, ?_, ?_⟩
      · exact (Prod.mk.inj ((Call.run_view env restoreAt s (.restoreFenced journal.restore lease)
          .leases).trans ((Call.gated_sound env restoreAt s (.restoreFenced journal.restore
            lease)).frames .leases (fun same => by cases same)))).1
      · have answer : Call.run env restoreAt s (.restoreFenced journal.restore lease) =
            (.ok (.records records),
              (Call.run env restoreAt s (.restoreFenced journal.restore lease)).2) :=
          Prod.ext reply rfl
        rw [answer]
        dsimp only
        split
        · next same => rw [same]
        · next same => rw [same]

/-- What the failure path leaves, of a cycle under way: a completed journal only if none
of the cycle's versions remains, or the cycle had succeeded. -/
def Undone (engine : DreamsEngine) (run : CycleRun) (p : CycleProgress) : Prop :=
  (∃ journal, (finishCycle engine.env p.journal run.lease run.restoreAt run.completeAt
      p.store).2.cycleJournals.lookup run.lease.key = some journal ∧
      journal.state = .completed) →
    (run.lease.key, run.cycleId) ∉ (finishCycle engine.env p.journal run.lease run.restoreAt
      run.completeAt p.store).2.succeededCycles →
      ∀ row, ∀ version ∈ (finishCycle engine.env p.journal run.lease run.restoreAt
        run.completeAt p.store).2.rows row, version.lsn ∉ p.written

/-- A completion changes no row and no success. -/
theorem run_complete_rows (env : Env) (now : DateTime) (s : InMemoryStorage) (cycleId : String)
    (lease : OwnerLease) :
    (Call.run env now s (.completeCycleJournalFenced cycleId lease)).2.rows = s.rows ∧
      (Call.run env now s (.completeCycleJournalFenced cycleId lease)).2.succeededCycles =
        s.succeededCycles := by
  rcases Call.run_completeCycleJournalFenced env now s cycleId lease with
    ⟨error, refused⟩ | ⟨journal, -, -, -, completed⟩
  · rw [refused]
    exact ⟨rfl, rfl⟩
  · rw [completed]
    exact ⟨rfl, rfl⟩

/-- When every reply was observed, the journal in process undoes the whole cycle. -/
theorem undone_of_tracked {p : CycleProgress}
    (tracked : CycleProgress.Tracked run.lease run.cycleId p) : Undone engine run p := by
  intro completed _ row version member written
  rcases finishCycle_cases engine.env p.journal run.lease run.restoreAt run.completeAt p.store with
    ⟨-, same⟩ | ⟨t, -, -, restored, -, finished⟩
  · rw [same] at completed
    obtain ⟨journal, stored, done⟩ := completed
    obtain ⟨durable, found, active⟩ := tracked.active ⟨version.lsn, written⟩
    cases stored.symm.trans found
    rw [done] at active
    cases active
  · rw [finished, (run_complete_rows _ _ _ _ _).1, restored.rows, List.mem_filter] at member
    exact of_decide_eq_true member.2 (tracked.owns row version member.1 written)

/-- A batch with rows that was committed and whose reply was lost remains, exactly when
the failure path completes the journal. -/
theorem undone_iff_of_lost {p : CycleProgress} {batch : CycleBatch}
    (tracked : CycleProgress.Tracked run.lease run.cycleId p)
    (commits : CycleProgress.Commits run.lease false p batch q)
    (rows : batch.ms ≠ [] ∨ batch.rs ≠ []) :
    Undone engine run q ↔ ¬ (p.journal.isEmpty = false ∧
      p.store.leaseCurrent run.lease run.restoreAt ∧
      p.store.leaseCurrent run.lease run.completeAt ∧
      (run.lease.key, run.cycleId) ∉ p.store.succeededCycles) := by
  obtain ⟨journal, commit, noted, kept, journaled⟩ := commits.journaled
  obtain ⟨durable, stored, active, ofCycle⟩ := commits.active tracked.cycleId
  rw [if_neg Bool.false_ne_true] at kept
  rw [← kept] at noted
  have leases (s : InMemoryStorage) (same : s.leases = p.store.leases) (now : DateTime) :
      s.leaseCurrent run.lease now = p.store.leaseCurrent run.lease now := by
    rw [leaseCurrent, same, leaseCurrent]
  have ownCycle : q.journal.cycleId = run.cycleId := by rw [noted.cycleId, tracked.cycleId]
  constructor
  · -- The last row of the lost batch is above all the journal in process owns.
    rintro undone ⟨filled, restores, completes, unsettled⟩
    unfold Undone at undone
    rcases finishCycle_cases engine.env q.journal run.lease run.restoreAt run.completeAt q.store
      with ⟨stops, -⟩ | ⟨t, -, -, restored, sameLeases, finished⟩
    · rw [noted.isEmpty, filled, leases _ commits.leases, restores] at stops
      simp at stops
    · obtain ⟨journals, succeeded⟩ := Prod.mk.inj restored.cycles
      have current : t.leaseCurrent run.lease run.completeAt := by
        rw [leases _ (sameLeases.trans commits.leases)]
        exact completes
      have found : t.cycleJournals.lookup run.lease.key = some durable := by
        rw [journals]
        exact stored
      rw [finished, ownCycle,
        Call.run_completeCycleJournalFenced_found engine.env current found ofCycle] at undone
      have above : p.store.lsn < q.store.lsn := by
        have grows := commits.grows
        have some_row : 0 < batch.ms.length + batch.rs.length := by
          rcases rows with memories | relationships
          · exact Nat.add_pos_left (List.length_pos_iff.mpr memories) _
          · exact Nat.add_pos_right _ (List.length_pos_iff.mpr relationships)
        omega
      obtain ⟨row, version, inside, number⟩ := journaled.stored q.store.lsn above le_rfl
      refine undone ⟨{ durable with state := .completed }, ?_, rfl⟩ ?_ row version ?_ ?_
      · rw [setJournal, Table.lookup_insert_eq, if_pos rfl]
      · change _ ∉ t.succeededCycles
        rw [succeeded, journaled.succeeded]
        exact unsettled
      · change version ∈ t.rows row
        rw [restored.rows, List.mem_filter]
        refine ⟨inside, decide_eq_true fun owned => ?_⟩
        have low := tracked.owned_le row version.lsn (noted.owned ▸ owned)
        omega
      · rw [commits.written, Finset.mem_union, Finset.mem_Ioc]
        exact .inr ⟨by omega, by omega⟩
  · rintro avoided ⟨final, completed, done⟩ unsettled row version - -
    have still_active : q.store.cycleJournals.lookup run.lease.key ≠ some final := by
      intro same
      cases stored.symm.trans same
      rw [done] at active
      cases active
    rcases finishCycle_cases engine.env q.journal run.lease run.restoreAt run.completeAt q.store
      with ⟨-, same⟩ | ⟨t, filled, restores, restored, sameLeases, finished⟩
    · rw [same] at completed
      exact still_active completed
    · obtain ⟨journals, succeeded⟩ := Prod.mk.inj restored.cycles
      rw [finished] at completed unsettled
      rw [(run_complete_rows _ _ _ _ _).2, succeeded, journaled.succeeded] at unsettled
      rcases Call.run_completeCycleJournalFenced engine.env run.completeAt t q.journal.cycleId
        run.lease with ⟨error, refused⟩ | ⟨-, current, -⟩
      · rw [refused, journals] at completed
        exact still_active completed
      · refine avoided ⟨by rw [← noted.isEmpty, filled], ?_, ?_, unsettled⟩
        · rw [← leases _ commits.leases]
          exact restores
        · rw [← leases _ (sameLeases.trans commits.leases)]
          exact current

/-- **A failing cycle leaves nothing behind a completed journal, unless the failure path
strands the batch whose reply was lost.** -/
theorem allOrNothing_iff_not_strands (engine : DreamsEngine) (run : CycleRun) :
    run.AllOrNothing engine ↔ ∀ batch, ¬ run.Strands engine batch := by
  change Undone engine run (run.progress engine) ↔ _
  have tracked := acknowledged_tracked engine run
  cases lost : run.lost with
  | none =>
      have same : run.progress engine = run.acknowledged engine := by simp [progress, lost]
      rw [same]
      apply iff_of_true (undone_of_tracked tracked)
      intro batch strands
      rw [strands.lost] at lost
      cases lost
  | some batch =>
      have last : run.progress engine =
          (run.acknowledged engine).batch engine run.lease false batch := by
        simp [progress, lost]
      rw [last]
      have only {other : CycleBatch} (strands : run.Strands engine other) : other = batch :=
        Option.some.inj (strands.lost.symm.trans lost)
      rcases CycleProgress.batch_cases engine tracked false batch with
        ⟨rejects, store, written, noted⟩ | ⟨accepts, commits⟩
      · refine iff_of_true (undone_of_tracked ?_) fun other strands => ?_
        · refine tracked.same ?_ noted (by rw [store]) (by rw [store]) written ?_
          · rw [store]
            exact tracked.stamped
          · rw [written, store]
            exact tracked.active
        · cases only strands
          exact rejects strands.committed
      · by_cases rows : batch.ms ≠ [] ∨ batch.rs ≠ []
        · rw [undone_iff_of_lost tracked commits rows]
          constructor
          · intro avoided other strands
            cases only strands
            exact avoided ⟨strands.journaled, strands.restores, strands.completes,
              strands.unsettled⟩
          · rintro never ⟨journaled, restores, completes, unsettled⟩
            exact never batch ⟨lost, accepts, rows, journaled, restores, completes, unsettled⟩
        · refine iff_of_true (undone_of_tracked ?_) fun other strands => ?_
          · -- A batch without rows writes nothing to lose.
            simp only [not_or, not_not] at rows
            exact tracked.idle commits rows.1 rows.2
          · cases only strands
            exact rows strands.rows

/-- A cycle of two batches of one memory each. The reply to the second is lost. -/
def stranding : CycleRun where
  before := [(0, .acquireLease (.dreams "org" "project:0") 60000000000)]
  lease := ⟨.dreams "org" "project:0", "in-memory", 1, 0, 60000000000, graceDuration,
    fencingToken 1⟩
  cycleId := "cycle"
  batches := [⟨[], [.blank ⟨.fill 16 1⟩], [], 1⟩]
  lost := some ⟨[], [.blank ⟨.fill 16 2⟩], [], 2⟩
  restoreAt := 3
  completeAt := 4

/-- The memory of the second batch stays behind a completed journal. -/
theorem not_allOrNothing_stranding :
    ¬ stranding.AllOrNothing ⟨Env.blank, .dreams "org" "project:0", ⟨∅⟩⟩ := by
  intro undone
  have completed : ((stranding.final
      ⟨Env.blank, .dreams "org" "project:0", ⟨∅⟩⟩).cycleJournals.lookup
        stranding.lease.key).map CycleJournalRecord.state = some .completed := by decide
  have remains : ∃ version ∈ (stranding.final
      ⟨Env.blank, .dreams "org" "project:0", ⟨∅⟩⟩).rows (.memory ⟨.fill 16 2⟩),
      version.lsn ∈ (stranding.progress
        ⟨Env.blank, .dreams "org" "project:0", ⟨∅⟩⟩).written := by decide
  obtain ⟨journal, found, state⟩ := Option.map_eq_some_iff.mp completed
  obtain ⟨version, stored, written⟩ := remains
  exact undone ⟨journal, found, state⟩ (by decide) _ version stored written

end CycleRun

end Exocortex
