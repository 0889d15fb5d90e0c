import Exocortex.Storage.Cycles

/-!
# Settling a Dreams cycle again

The store keeps the digest of the discoveries with which a cycle was settled, and no call takes it
back or changes it (`SettledAs.run`). A later settlement of the cycle with the same discoveries
finds the digest under a current lease and leaves the store as it is.

A settlement looks at the journal of its key only for another cycle's that is active. A journal
that is completed, be it after a rollback of the same cycle, does not matter to it
(`settle_completed`), and so a cycle that was rolled back can be settled when it is tried again.
-/

namespace Exocortex

open Library InMemoryStorage

variable {s : InMemoryStorage} {env : Env} {now : DateTime} {key : LeaseKey}
  {cycleId digest : String} {records : List DiscoveryRecord} {lease : OwnerLease}

/-- A cycle of a key was settled with discoveries of this digest. -/
def SettledAs (key : LeaseKey) (cycleId digest : String) (s : InMemoryStorage) : Prop :=
  s.succeededCycles.lookup (key, cycleId) = some digest

/-- The store after the first settlement of a cycle. -/
def settledStore (cycleId : String) (records : List DiscoveryRecord) (lease : OwnerLease)
    (digest : String) (s : InMemoryStorage) : InMemoryStorage :=
  { (records.foldl settleDiscovery (s, [])).1.setJournal lease.key
      ⟨cycleId, lease.key, lease.epoch, default, .completed⟩ with
    succeededCycles := (records.foldl settleDiscovery (s, [])).1.succeededCycles.insert
      (lease.key, cycleId) digest }

/-- What a settlement can do: refuse, find the cycle settled, or settle it. -/
inductive SettleStep (env : Env) (cycleId : String) (records : List DiscoveryRecord)
    (lease : OwnerLease) (now : DateTime) (s : InMemoryStorage) : Outcome Unit → Prop where
  | refused (error : StorageError) : SettleStep env cycleId records lease now s (.fail s error)
  | found {digest : String} (hashed : dreamsSettlementEffectDigest env records = .ok digest)
      (current : s.leaseCurrent lease now) (settled : SettledAs lease.key cycleId digest s) :
      SettleStep env cycleId records lease now s ⟨.ok (), [], s⟩
  | first {digest : String} (hashed : dreamsSettlementEffectDigest env records = .ok digest)
      (current : s.leaseCurrent lease now)
      (unsettled : s.succeededCycles.lookup (lease.key, cycleId) = none)
      (alone : ¬ (s.cycleJournals.lookup lease.key).any (otherCycleActive · cycleId))
      (fresh : ¬ records.any s.discoveryConflict) :
      SettleStep env cycleId records lease now s ⟨.ok (), (records.foldl settleDiscovery (s, [])).2,
        settledStore cycleId records lease digest s⟩

theorem settleDreamsCycleFenced_cases (env : Env) (cycleId : String)
    (records : List DiscoveryRecord) (lease : OwnerLease) (now : DateTime) (s : InMemoryStorage) :
    SettleStep env cycleId records lease now s
      (s.settleDreamsCycleFenced env cycleId records lease now) := by
  rw [settleDreamsCycleFenced]
  cases hashed : dreamsSettlementEffectDigest env records with
  | error error => exact .refused error
  | ok digest =>
      by_cases current : s.leaseCurrent lease now
      · dsimp only
        rw [fenced_current current]
        cases settled : s.succeededCycles.lookup (lease.key, cycleId) with
        | some stored =>
            dsimp only
            split
            · next same => exact .found hashed current (settled.trans (congrArg some same))
            · exact .refused _
        | none =>
            dsimp only
            split
            · exact .refused _
            · next alone =>
                split
                · exact .refused _
                · next fresh => exact .first hashed current settled alone fresh
      · dsimp only
        rw [fenced_stale current]
        exact .refused _

/-- A journaled batch settles no cycle. -/
theorem succeeded_upsertBatchFencedJournaled (ms : List Memory) (rs : List Relationship)
    (prepared : FencedRestore) (cycleId : String) (lease : OwnerLease) :
    (s.upsertBatchFencedJournaled env ms rs prepared cycleId lease now).post.succeededCycles =
      s.succeededCycles := by
  rw [upsertBatchFencedJournaled]
  by_cases current : s.leaseCurrent lease now
  · rw [fenced_current current]
    cases other : (s.cycleJournals.lookup lease.key).filter (otherCycleActive · cycleId) with
    | some active => simp only [other, Outcome.fail]
    | none =>
        cases committed : s.upsertBatchLocked env ms rs now with
        | error error => simp only [other, Outcome.fail]
        | ok result =>
            have only := (upsertBatchLocked_spec committed).onlyRows
            simp only [other]
            exact (congrArg succeededCycles only :)
  · rw [fenced_stale current]
    rfl

namespace SettledAs

theorem of_same {t : InMemoryStorage} (settled : SettledAs key cycleId digest s)
    (same : t.succeededCycles = s.succeededCycles) : SettledAs key cycleId digest t := by
  rw [SettledAs, same]
  exact settled

/-- No call takes a settlement back. -/
theorem run (settled : SettledAs key cycleId digest s) (call : Call) :
    SettledAs key cycleId digest (call.run env now s).2 := by
  have frames : call.part ≠ some .cycles → SettledAs key cycleId digest (call.run env now s).2 := by
    intro other
    refine settled.of_same ?_
    rw [(Call.run_cycles env now s call).2]
    exact (Prod.mk.inj ((Call.gated_sound env now s call).frames .cycles other)).2
  cases call with
  | upsertBatchFencedJournaled ms rs prepared cycle own =>
      refine settled.of_same ?_
      rw [(Call.run_cycles env now s _).2]
      exact succeeded_upsertBatchFencedJournaled ms rs prepared cycle own
  | completeCycleJournalFenced cycle own =>
      rcases Call.run_completeCycleJournalFenced env now s cycle own with
        ⟨error, refused⟩ | ⟨journal, -, -, -, completed⟩
      · rw [refused]
        exact settled
      · rw [completed]
        exact settled
  | settleDreamsCycleFenced cycle others own =>
      rw [SettledAs, (Call.run_cycles env now s _).2, Call.gated, Outcome.map_post]
      have step := settleDreamsCycleFenced_cases env cycle others own now s
      generalize s.settleDreamsCycleFenced env cycle others own now = outcome at step ⊢
      cases step with
      | refused error => exact settled
      | found hashed current again => exact settled
      | first hashed current unsettled alone fresh =>
          have apart : (key, cycleId) ≠ (own.key, cycle) := by
            intro same
            cases same
            cases settled.symm.trans unsettled
          have only := (settleDiscoveries_from s others).onlyDiscoveries
          have kept : (others.foldl settleDiscovery (s, [])).1.succeededCycles =
              s.succeededCycles := (congrArg succeededCycles only :)
          rw [settledStore, AList.lookup_insert_ne apart, kept]
          exact settled
  | _ =>
      apply frames
      intro same
      cases same

/-- No run of calls takes a settlement back. -/
theorem runAll (settled : SettledAs key cycleId digest s) (calls : List (DateTime × Call)) :
    SettledAs key cycleId digest (Call.runAll env s calls) := by
  induction calls generalizing s with
  | nil => exact settled
  | cons call calls ih => exact ih (settled.run call.2)

/-- Settled again with the same discoveries, the cycle is found settled. -/
theorem gated_settle (settled : SettledAs lease.key cycleId digest s)
    (hashed : dreamsSettlementEffectDigest env records = .ok digest)
    (current : s.leaseCurrent lease now) :
    Call.gated env now s (.settleDreamsCycleFenced cycleId records lease) = ⟨.ok .unit, [], s⟩ := by
  rw [SettledAs] at settled
  rw [Call.gated, settleDreamsCycleFenced, hashed]
  dsimp only
  rw [fenced_current current, settled]
  simp [Outcome.map, Except.map]

/-- What a settlement that succeeds leaves. -/
theorem of_succeeded
    (succeeded : (Call.run env now s (.settleDreamsCycleFenced cycleId records lease)).1 =
      .ok .unit) :
    ∃ digest, dreamsSettlementEffectDigest env records = .ok digest ∧
      SettledAs lease.key cycleId digest
        (Call.run env now s (.settleDreamsCycleFenced cycleId records lease)).2 := by
  rw [Call.run, Call.gated] at succeeded
  have after := (Call.run_cycles env now s (.settleDreamsCycleFenced cycleId records lease)).2
  rw [Call.gated, Outcome.map_post] at after
  have step := settleDreamsCycleFenced_cases env cycleId records lease now s
  generalize s.settleDreamsCycleFenced env cycleId records lease now = outcome
    at step succeeded after
  cases step with
  | refused error => cases succeeded
  | found hashed current settled => exact ⟨_, hashed, settled.of_same after⟩
  | first hashed current unsettled alone fresh =>
      refine ⟨_, hashed, ?_⟩
      rw [SettledAs, after, settledStore, AList.lookup_insert]

end SettledAs

variable {journal : CycleJournalRecord}

/-- A completed journal of the key is no reason to refuse. -/
theorem settle_completed (found : s.cycleJournals.lookup lease.key = some journal)
    (completed : journal.state = .completed) :
    (Call.gated env now s (.settleDreamsCycleFenced cycleId records lease)).reply =
      (Call.gated env now { s with cycleJournals := s.cycleJournals.erase lease.key }
        (.settleDreamsCycleFenced cycleId records lease)).reply := by
  have settles : (s.settleDreamsCycleFenced env cycleId records lease now).reply =
      (settleDreamsCycleFenced env cycleId records lease now
        { s with cycleJournals := s.cycleJournals.erase lease.key }).reply := by
    rw [settleDreamsCycleFenced, settleDreamsCycleFenced]
    cases dreamsSettlementEffectDigest env records with
    | error error => rfl
    | ok digest =>
        dsimp only
        by_cases current : s.leaseCurrent lease now
        · have current' : leaseCurrent { s with cycleJournals := s.cycleJournals.erase lease.key }
              lease now := current
          have idle : otherCycleActive journal cycleId = false := by
            rw [otherCycleActive, completed]
            rfl
          rw [fenced_current current, fenced_current current', found, AList.lookup_erase,
            Option.any_some, Option.any_none, idle]
          cases s.succeededCycles.lookup (lease.key, cycleId) with
          | some stored =>
              dsimp only
              split <;> rfl
          | none =>
              simp only [Bool.false_eq_true, if_false]
              have conflicts : records.any s.discoveryConflict = records.any (discoveryConflict
                  { s with cycleJournals := s.cycleJournals.erase lease.key }) := rfl
              rw [← conflicts]
              split <;> rfl
        · have stale : ¬ leaseCurrent { s with cycleJournals := s.cycleJournals.erase lease.key }
              lease now := current
          rw [fenced_stale current, fenced_stale stale]
          rfl
  rw [Call.gated, Call.gated, Outcome.map, Outcome.map, settles]

/-- A first settlement is refused while another cycle of the key is active. -/
theorem alone_of_succeeded
    (succeeded : (Call.run env now s (.settleDreamsCycleFenced cycleId records lease)).1 =
      .ok .unit) (unsettled : (lease.key, cycleId) ∉ s.succeededCycles)
    (found : s.cycleJournals.lookup lease.key = some journal) (active : journal.state = .active) :
    journal.cycleId = cycleId := by
  rw [Call.run, Call.gated] at succeeded
  have step := settleDreamsCycleFenced_cases env cycleId records lease now s
  generalize s.settleDreamsCycleFenced env cycleId records lease now = outcome at step succeeded
  cases step with
  | refused error => cases succeeded
  | found hashed current settled =>
      exact absurd (AList.lookup_isSome.mp (Option.isSome_of_eq_some settled)) unsettled
  | first hashed current unsettled alone fresh =>
      rw [found, Option.any_some, otherCycleActive, active] at alone
      simpa using alone

/-- **Settling a cycle again does nothing.** Once a settlement succeeded, it succeeds again under
every current lease of the key, whatever was called in between, and changes nothing. A first
settlement is refused while another cycle's journal is active, and a completed journal is as
good as none. -/
theorem settlement_idempotent (env : Env) (now : DateTime) (s : InMemoryStorage)
    (cycleId : String) (records : List DiscoveryRecord) (lease : OwnerLease)
    (succeeded : (Call.run env now s (.settleDreamsCycleFenced cycleId records lease)).1 =
      .ok .unit) :
    (∀ (calls : List (DateTime × Call)) (later : DateTime) (renewed : OwnerLease),
      let t := Call.runAll env
        (Call.run env now s (.settleDreamsCycleFenced cycleId records lease)).2 calls
      renewed.key = lease.key → t.leaseCurrent renewed later →
        Call.run env later t (.settleDreamsCycleFenced cycleId records renewed) = (.ok .unit, t) ∧
        (Call.gated env later t (.settleDreamsCycleFenced cycleId records renewed)).pending = []) ∧
    ∀ journal, s.cycleJournals.lookup lease.key = some journal →
      (journal.state = .active → (lease.key, cycleId) ∈ s.succeededCycles ∨
        journal.cycleId = cycleId) ∧
      (journal.state = .completed →
        (Call.run env now { s with cycleJournals := s.cycleJournals.erase lease.key }
          (.settleDreamsCycleFenced cycleId records lease)).1 = .ok .unit) := by
  refine ⟨fun calls later renewed => ?_, fun journal found => ⟨fun active => ?_, fun done => ?_⟩⟩
  · intro t same current
    obtain ⟨digest, hashed, settled⟩ := SettledAs.of_succeeded succeeded
    have still : SettledAs renewed.key cycleId digest t := same ▸ settled.runAll calls
    have section_ := still.gated_settle hashed current
    rw [Call.run, section_]
    exact ⟨rfl, rfl⟩
  · exact or_iff_not_imp_left.mpr fun unsettled =>
      alone_of_succeeded succeeded unsettled found active
  · exact (settle_completed found done).symm.trans succeeded

/-! ## A cycle that is settled twice, and one that was rolled back -/

def regionKey : LeaseKey := .dreams "acme" "notes:0"

/-- The first lease of the region. -/
def regionLease : OwnerLease := ⟨regionKey, "in-memory", 1, 0, 60000, graceDuration, fencingToken 1⟩

/-- The lease as it is renewed at an instant. -/
def renewedLease (now : DateTime) : OwnerLease :=
  { regionLease with acquiredAt := now, expiresAt := now + 60000 }

def settledDiscovery : DiscoveryRecord where
  discoveryId := "discovery"
  region := ⟨"acme", "notes", 0⟩
  source := ⟨.fill 16 1⟩
  target := ⟨.fill 16 2⟩
  discoveryType := "shared_topic"
  quality := .one
  viaTypes := (0, 0)
  discoveryCycleId := "cycle"
  discoveredAt := 1

/-- A cycle is settled with a discovery; then its lease is renewed and a memory is written. -/
def renewedCalls : List (DateTime × Call) :=
  [(2, .renewLease regionLease), (3, .upsertMemory (.blank ⟨.fill 16 1⟩))]

/-- A cycle of one discovery is settled again after other calls, when its lease would have ended if
it had not been renewed. -/
theorem settlement_idempotent_twice :
    let settled := (Call.run .blank 1 (Call.runAll .blank .new [(0, .acquireLease regionKey 60000)])
      (.settleDreamsCycleFenced "cycle" [settledDiscovery] regionLease)).2
    let later := Call.runAll .blank settled renewedCalls
    settled.discoveries.lookup "discovery" = some settledDiscovery ∧
      settled.leaseCurrent regionLease 60001 = false ∧
      Call.run .blank 60001 later
        (.settleDreamsCycleFenced "cycle" [settledDiscovery] (renewedLease 2)) =
          (.ok .unit, later) := by
  refine ⟨by decide +kernel, by decide +kernel, ?_⟩
  exact ((settlement_idempotent .blank 1 _ "cycle" [settledDiscovery] regionLease
    (by decide +kernel)).1 renewedCalls 60001 (renewedLease 2) rfl (by decide +kernel)).1

/-- A cycle writes a memory, and is rolled back and completed. -/
def rolledBack : List (DateTime × Call) :=
  [(0, .acquireLease regionKey 60000),
    (1, .upsertBatchFencedJournaled [.blank ⟨.fill 16 1⟩] [] default "cycle" regionLease),
    (2, .restoreFenced { (default : FencedRestore) with
      ownedMemoryLsns := (∅ : LsnMap MemoryId).extend ⟨.fill 16 1⟩ {1} } regionLease),
    (3, .completeCycleJournalFenced "cycle" regionLease)]

/-- A cycle that was rolled back and completed is settled. -/
theorem settles_rolledBack :
    (Call.runAll .blank .new (rolledBack.take 2)).memories.history ⟨.fill 16 1⟩ ≠ [] ∧
      (Call.runAll .blank .new rolledBack).memories.history ⟨.fill 16 1⟩ = [] ∧
      ((Call.runAll .blank .new rolledBack).cycleJournals.lookup regionKey).map
        (fun journal => (journal.cycleId, journal.state)) = some ("cycle", .completed) ∧
      (regionKey, "cycle") ∉ (Call.runAll .blank .new rolledBack).succeededCycles ∧
      (Call.run .blank 4 (Call.runAll .blank .new rolledBack)
        (.settleDreamsCycleFenced "cycle" [] regionLease)).1 = .ok .unit := by
  refine ⟨?_, ?_, ?_, ?_, ?_⟩
  · decide +kernel
  · decide +kernel
  · decide +kernel
  · decide +kernel
  · decide +kernel

end Exocortex
