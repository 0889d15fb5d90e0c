import Mathlib
import Exocortex.Library.Runs
import Exocortex.Storage.CallSpecs

/-!
# Leases and the fence

Any number of holders acquire, renew and release leases and make calls under the
leases they were handed, while the clock moves. A `LeaseSystem` is the store with
the clock and the leases handed out so far. A call may present a lease only if it
was handed out; nothing else is asked of a holder, which may keep using a lease that
expired, was released, or was replaced.

The invariant (`Fencing`) ties the three places an epoch is kept in: the lease table
holds the token of the newest epoch of its key, a lease handed out carries the token
of its own epoch, and no epoch handed out exceeds the counter of its key. It follows
that only leases of the newest epoch pass the fence (`Fencing.passes_newest`), and
that a fenced call under any other lease refuses and leaves the state as it was
(`fenced_stale_changes_nothing`).
-/

namespace Exocortex

open Library InMemoryStorage

/-- The newest epoch of a key; `0` when the key was never acquired. -/
def InMemoryStorage.epochOf (s : InMemoryStorage) (key : LeaseKey) : ℕ :=
  (s.leaseEpochs.lookup key).getD 0

theorem fencingToken_injective : Function.Injective fencingToken := by
  intro left right same
  have digits : left.repr = right.repr := by simpa [fencingToken] using same
  exact Nat.repr_injective digits

/-- The store, the clock, the leases acquired in order, and all leases handed out. -/
structure LeaseSystem where
  store : InMemoryStorage
  now : DateTime
  acquired : List OwnerLease
  issued : List OwnerLease

/-- The clock reads another instant, or a call is made. -/
inductive LeaseAction where
  | tick (now : DateTime)
  | call (call : Call)

namespace LeaseSystem

def new (now : DateTime) : LeaseSystem := ⟨.new, now, [], []⟩

/-- The lease an acquisition hands out. -/
def acquiredBy : Call → Except StorageError Reply → List OwnerLease
  | .acquireLease _ _, .ok (.lease lease) => [lease]
  | _, _ => []

/-- The lease an acquisition or a renewal hands out. -/
def issuedBy : Call → Except StorageError Reply → List OwnerLease
  | .acquireLease _ _, .ok (.lease lease) => [lease]
  | .renewLease _, .ok (.lease lease) => [lease]
  | _, _ => []

def step (env : Env) (sys : LeaseSystem) : LeaseAction → LeaseSystem
  | .tick now => { sys with now := now }
  | .call call =>
      let result := call.run env sys.now sys.store
      { sys with
        store := result.2
        acquired := sys.acquired ++ acquiredBy call result.1
        issued := sys.issued ++ issuedBy call result.1 }

/-- A holder presents only leases that were handed out. -/
def Presentable (sys : LeaseSystem) : LeaseAction → Prop
  | .tick _ => True
  | .call call => ∀ lease, call.presents = some lease → lease ∈ sys.issued

def machine (env : Env) : Machine LeaseSystem LeaseAction where
  allowed := Presentable
  step := step env

/-! ## The lease operations -/

/-- What an acquisition does: it refuses and changes nothing, or it hands out the
next epoch of its key. -/
theorem acquireLease_spec (key : LeaseKey) (ttl : ℕ) (now : DateTime) (s : InMemoryStorage) :
    (∃ error, s.acquireLease key ttl now = .fail s error) ∨
      ∃ lease, (s.acquireLease key ttl now).reply = .ok lease ∧ lease.key = key ∧
        lease.epoch = s.epochOf key + 1 ∧ lease.fencingToken = fencingToken lease.epoch ∧
        (s.acquireLease key ttl now).post.leases =
          s.leases.insert key ⟨lease.fencingToken, lease.expiresAt⟩ ∧
        (s.acquireLease key ttl now).post.leaseEpochs = s.leaseEpochs.insert key lease.epoch := by
  unfold acquireLease
  split
  · exact .inl ⟨_, rfl⟩
  · exact .inr ⟨_, rfl, rfl, rfl, rfl, rfl, rfl⟩

/-- What a renewal does: it refuses and changes nothing, or it moves the expiry of
the lease that is held. -/
theorem renewLease_spec (lease : OwnerLease) (now : DateTime) (s : InMemoryStorage) :
    (∃ error, s.renewLease lease now = .fail s error) ∨
      ∃ renewed held, (s.renewLease lease now).reply = .ok renewed ∧
        renewed.key = lease.key ∧ renewed.epoch = lease.epoch ∧
        renewed.fencingToken = lease.fencingToken ∧ s.leases.lookup lease.key = some held ∧
        (s.renewLease lease now).post.leases =
          s.leases.insert lease.key { held with expiresAt := renewed.expiresAt } ∧
        (s.renewLease lease now).post.leaseEpochs = s.leaseEpochs := by
  unfold renewLease
  cases found : s.leases.lookup lease.key with
  | none => exact .inl ⟨_, rfl⟩
  | some held =>
      dsimp only
      split
      · exact .inr ⟨_, held, rfl, rfl, rfl, rfl, rfl, rfl, rfl⟩
      · exact .inl ⟨_, rfl⟩

theorem releaseLease_spec (lease : OwnerLease) (s : InMemoryStorage) :
    (s.releaseLease lease).post.leaseEpochs = s.leaseEpochs ∧
      ((s.releaseLease lease).post.leases = s.leases ∨
        (s.releaseLease lease).post.leases = s.leases.erase lease.key) := by
  unfold releaseLease
  split
  · exact ⟨rfl, .inr rfl⟩
  · exact ⟨rfl, .inl rfl⟩

/-! ## The invariant -/

/-- The lease table holds the token of the newest epoch of each key. -/
def TokensNewest (s : InMemoryStorage) : Prop :=
  ∀ key held, s.leases.lookup key = some held → held.token = fencingToken (s.epochOf key)

/-- A lease that was handed out. -/
structure HandedOut (s : InMemoryStorage) (lease : OwnerLease) : Prop where
  token : lease.fencingToken = fencingToken lease.epoch
  epoch_le : lease.epoch ≤ s.epochOf lease.key

/-- What ties leases, the lease table and the epoch counters. -/
structure Fencing (sys : LeaseSystem) : Prop where
  table : TokensNewest sys.store
  issued : ∀ lease ∈ sys.issued, HandedOut sys.store lease
  acquired_le : ∀ lease ∈ sys.acquired, lease.epoch ≤ sys.store.epochOf lease.key
  increasing : sys.acquired.Pairwise fun earlier later =>
    earlier.key = later.key → earlier.epoch < later.epoch

theorem fencing_new (now : DateTime) : Fencing (.new now) where
  table key held found := by simp [new, InMemoryStorage.new] at found
  issued _ member := by simp [new] at member
  acquired_le _ member := by simp [new] at member
  increasing := .nil

variable {sys : LeaseSystem} {lease : OwnerLease}

/-- The invariant depends on the lease tables only. -/
theorem Fencing.frame {later : LeaseSystem} (fencing : Fencing sys)
    (view : later.store.view .leases = sys.store.view .leases)
    (acquired : later.acquired = sys.acquired) (issued : later.issued = sys.issued) :
    Fencing later := by
  obtain ⟨leases, epochs⟩ := Prod.mk.inj view
  have same : later.store.epochOf = sys.store.epochOf := by
    funext key
    rw [epochOf, epochs, epochOf]
  constructor
  · intro key held found
    rw [same]
    exact fencing.table key held (leases ▸ found)
  · intro lease member
    rw [issued] at member
    obtain ⟨token, epoch_le⟩ := fencing.issued lease member
    exact ⟨token, same ▸ epoch_le⟩
  · rw [acquired, same]
    exact fencing.acquired_le
  · rw [acquired]
    exact fencing.increasing

theorem Fencing.acquire (fencing : Fencing sys) (env : Env) (key : LeaseKey) (ttl : ℕ) :
    Fencing (sys.step env (.call (.acquireLease key ttl))) := by
  rcases acquireLease_spec key ttl sys.now sys.store with
    ⟨error, failed⟩ | ⟨lease, reply, ofKey, epoch, token, leases, epochs⟩
  · refine fencing.frame ?_ ?_ ?_ <;>
      simp [step, Call.run, Call.gated, failed, Outcome.fail, Outcome.map, Except.map, acquiredBy,
        issuedBy]
  · have ran : sys.step env (.call (.acquireLease key ttl)) = { sys with
        store := (sys.store.acquireLease key ttl sys.now).post
        acquired := sys.acquired ++ [lease]
        issued := sys.issued ++ [lease] } := by
      have quiet : (sys.store.acquireLease key ttl sys.now).pending = [] := by
        unfold acquireLease
        split <;> rfl
      simp [step, Call.run, Call.gated, Outcome.map, reply, Except.map, acquiredBy, issuedBy, quiet]
    rw [ran]
    -- The counter of the key moves to the new epoch, every other stays.
    have counters : ∀ other, (sys.store.acquireLease key ttl sys.now).post.epochOf other =
        if other = key then lease.epoch else sys.store.epochOf other := by
      intro other
      rw [epochOf, epochs, Table.lookup_insert_eq]
      split <;> rfl
    have rises : ∀ other, sys.store.epochOf other ≤
        (sys.store.acquireLease key ttl sys.now).post.epochOf other := by
      intro other
      rw [counters]
      split
      · next same => rw [epoch, same]; exact Nat.le_succ _
      · exact le_rfl
    constructor
    · intro other held found
      dsimp only at found ⊢
      rw [leases, Table.lookup_insert_eq] at found
      rw [counters]
      split at found
      · next same =>
          cases found
          rw [if_pos same]
          exact token
      · next apart =>
          rw [if_neg apart]
          exact fencing.table other held found
    · intro other member
      rcases List.mem_append.mp member with old | new
      · obtain ⟨ownToken, epoch_le⟩ := fencing.issued other old
        exact ⟨ownToken, epoch_le.trans (rises _)⟩
      · obtain rfl := List.mem_singleton.mp new
        exact ⟨token, by rw [counters, if_pos ofKey]⟩
    · intro other member
      rcases List.mem_append.mp member with old | new
      · exact (fencing.acquired_le other old).trans (rises _)
      · obtain rfl := List.mem_singleton.mp new
        rw [counters, if_pos ofKey]
    · rw [List.pairwise_append]
      refine ⟨fencing.increasing, List.pairwise_singleton _ _, fun earlier old later new same => ?_⟩
      obtain rfl := List.mem_singleton.mp new
      have bound := fencing.acquired_le earlier old
      rw [same, ofKey] at bound
      omega

theorem Fencing.renew (fencing : Fencing sys) (env : Env) (member : lease ∈ sys.issued) :
    Fencing (sys.step env (.call (.renewLease lease))) := by
  rcases renewLease_spec lease sys.now sys.store with
    ⟨error, failed⟩ | ⟨renewed, held, reply, sameKey, sameEpoch, sameToken, found, leases, epochs⟩
  · refine fencing.frame ?_ ?_ ?_ <;>
      simp [step, Call.run, Call.gated, failed, Outcome.fail, Outcome.map, Except.map, acquiredBy,
        issuedBy]
  · have ran : sys.step env (.call (.renewLease lease)) = { sys with
        store := (sys.store.renewLease lease sys.now).post
        issued := sys.issued ++ [renewed] } := by
      have quiet : (sys.store.renewLease lease sys.now).pending = [] := by
        unfold renewLease
        split
        · split <;> rfl
        · rfl
      simp [step, Call.run, Call.gated, Outcome.map, reply, Except.map, acquiredBy, issuedBy, quiet]
    rw [ran]
    have counters : (sys.store.renewLease lease sys.now).post.epochOf = sys.store.epochOf := by
      funext key
      rw [epochOf, epochs, epochOf]
    constructor
    · intro key other inTable
      dsimp only at inTable ⊢
      rw [leases, Table.lookup_insert_eq] at inTable
      rw [counters]
      split at inTable
      · next same =>
          cases inTable
          rw [same]
          exact fencing.table lease.key held found
      · exact fencing.table key other inTable
    · intro other inIssued
      rcases List.mem_append.mp inIssued with old | new
      · obtain ⟨token, epoch_le⟩ := fencing.issued other old
        exact ⟨token, counters ▸ epoch_le⟩
      · obtain rfl := List.mem_singleton.mp new
        obtain ⟨token, epoch_le⟩ := fencing.issued lease member
        exact ⟨by rw [sameToken, sameEpoch, token],
          by rw [counters, sameEpoch, sameKey]; exact epoch_le⟩
    · rw [counters]
      exact fencing.acquired_le
    · exact fencing.increasing

theorem Fencing.release (fencing : Fencing sys) (env : Env) (lease : OwnerLease) :
    Fencing (sys.step env (.call (.releaseLease lease))) := by
  obtain ⟨epochs, leases⟩ := releaseLease_spec lease sys.store
  have ran : sys.step env (.call (.releaseLease lease)) = { sys with
      store := (sys.store.releaseLease lease).post } := by
    have quiet : (sys.store.releaseLease lease).pending = [] := by
      unfold releaseLease
      split <;> rfl
    simp [step, Call.run, Call.gated, Outcome.map, acquiredBy, issuedBy, quiet]
  rw [ran]
  have counters : (sys.store.releaseLease lease).post.epochOf = sys.store.epochOf := by
    funext key
    rw [epochOf, epochs, epochOf]
  constructor
  · intro key held found
    dsimp only at found ⊢
    rw [counters]
    rcases leases with same | erased
    · exact fencing.table key held (same ▸ found)
    · rw [erased] at found
      by_cases gone : key = lease.key
      · rw [gone, AList.lookup_erase] at found
        cases found
      · rw [AList.lookup_erase_ne gone] at found
        exact fencing.table key held found
  · intro other member
    obtain ⟨token, epoch_le⟩ := fencing.issued other member
    exact ⟨token, counters ▸ epoch_le⟩
  · rw [counters]
    exact fencing.acquired_le
  · exact fencing.increasing

theorem Fencing.step (fencing : Fencing sys) (env : Env) (action : LeaseAction)
    (presentable : sys.Presentable action) : Fencing (sys.step env action) := by
  cases action with
  | tick now => exact fencing.frame rfl rfl rfl
  | call call =>
      by_cases leases : call.part = some .leases
      · cases call with
        | acquireLease key ttl => exact fencing.acquire env key ttl
        | renewLease lease => exact fencing.renew env (presentable lease rfl)
        | releaseLease lease => exact fencing.release env lease
        | _ => cases leases
      · -- No other call touches a lease or hands one out.
        refine fencing.frame ?_ ?_ ?_
        · exact (Call.run_view env sys.now sys.store call .leases).trans
            ((Call.gated_sound env sys.now sys.store call).frames .leases leases)
        · cases call <;> first | exact List.append_nil _ | exact absurd rfl leases
        · cases call <;> first | exact List.append_nil _ | exact absurd rfl leases

theorem run_fencing (env : Env) (now : DateTime) {actions : List LeaseAction}
    (allows : (machine env).Allows (.new now) actions) :
    Fencing ((machine env).run (.new now) actions) :=
  allows.invariant (fencing_new now) fun _ action fencing presentable =>
    fencing.step env action presentable

/-! ## What the fence guarantees -/

/-- Only a lease of the newest epoch passes the fence. -/
theorem Fencing.passes_newest (fencing : Fencing sys) (member : lease ∈ sys.issued)
    {now : DateTime} (current : sys.store.leaseCurrent lease now) :
    lease.epoch = sys.store.epochOf lease.key := by
  unfold leaseCurrent at current
  split at current
  · next held found =>
      simp only [Bool.and_eq_true, decide_eq_true_eq] at current
      have newest := fencing.table lease.key held found
      rw [current.1, (fencing.issued lease member).token] at newest
      exact fencingToken_injective newest
  · cases current

/-- A fenced call under a lease that does not pass refuses, and the state is as
before. -/
theorem fenced_stale_changes_nothing (env : Env) (now : DateTime) {s : InMemoryStorage}
    {call : Call} (fencedBy : call.fencedBy = some lease) (stale : ¬ s.leaseCurrent lease now) :
    ∃ error, call.run env now s = (.error error, s) := by
  cases call with
  | storeDiscoveryFenced discovery own =>
      cases fencedBy
      simp [Call.run, Call.gated, storeDiscoveryFenced, fenced_stale stale, Outcome.fail,
        Outcome.map, Except.map]
  | upsertBatchFenced ms rs own =>
      cases fencedBy
      simp [Call.run, Call.gated, upsertBatchFenced, fenced_stale stale, Outcome.fail,
        Outcome.map, Except.map]
  | upsertBatchFencedJournaled ms rs prepared cycleId own =>
      cases fencedBy
      simp [Call.run, Call.gated, upsertBatchFencedJournaled, fenced_stale stale, Outcome.fail,
        Outcome.map, Except.map]
  | completeCycleJournalFenced cycleId own =>
      cases fencedBy
      simp [Call.run, Call.gated, completeCycleJournalFenced, fenced_stale stale, Outcome.fail,
        Outcome.map, Except.map]
  | settleDreamsCycleFenced cycleId records own =>
      cases fencedBy
      -- A settlement with duplicate records is refused before the fence is asked.
      simp only [Call.run, Call.gated, settleDreamsCycleFenced, fenced_stale stale]
      cases dreamsSettlementEffectDigest env records <;> exact ⟨_, rfl⟩
  | deleteMemoryFenced id own =>
      cases fencedBy
      simp [Call.run, Call.gated, deleteMemoryFenced, fenced_stale stale, Outcome.fail,
        Outcome.map, Except.map]
  | restoreFenced restore own =>
      cases fencedBy
      simp [Call.run, Call.gated, restoreFenced, fenced_stale stale, Outcome.fail,
        Outcome.map, Except.map]
  | _ => cases fencedBy

/-- At each instant the leases of a key that pass the fence have one epoch; the
epochs acquired for a key increase; and once a larger epoch was acquired, a fenced
call under an older lease refuses and changes nothing at all. -/
structure FencesOff (env : Env) (sys : LeaseSystem) : Prop where
  unique : ∀ left ∈ sys.issued, ∀ right ∈ sys.issued, left.key = right.key → ∀ now,
    sys.store.leaseCurrent left now → sys.store.leaseCurrent right now →
      left.epoch = right.epoch
  increasing : sys.acquired.Pairwise fun earlier later =>
    earlier.key = later.key → earlier.epoch < later.epoch
  rejects : ∀ older ∈ sys.issued, ∀ newer ∈ sys.acquired, older.key = newer.key →
    older.epoch < newer.epoch → ∀ (call : Call) now, call.fencedBy = some older →
      ∃ error, call.run env now sys.store = (.error error, sys.store)

/-- **Leases fence.** In every state that any interleaving of holders reaches. -/
theorem run_fencesOff (env : Env) (start : DateTime) (actions : List LeaseAction)
    (allows : (machine env).Allows (.new start) actions) :
    FencesOff env ((machine env).run (.new start) actions) := by
  have fencing := run_fencing env start allows
  refine ⟨?_, fencing.increasing, ?_⟩
  · intro left inLeft right inRight same now currentLeft currentRight
    rw [fencing.passes_newest inLeft currentLeft, fencing.passes_newest inRight currentRight, same]
  · intro older inOlder newer inNewer same smaller call now fencedBy
    refine fenced_stale_changes_nothing env now fencedBy fun current => ?_
    have newest := fencing.passes_newest inOlder current
    have bound := fencing.acquired_le newer inNewer
    rw [← same] at bound
    omega

/-- A lease of ten seconds is acquired, expires, and the key is acquired again. -/
theorem run_fencesOff_reacquired :
    let actions : List LeaseAction := [.call (.acquireLease (.cleanup "org") 10000000000),
      .tick 20000000000, .call (.acquireLease (.cleanup "org") 10000000000)]
    ((machine Env.blank).run (.new 0) actions).acquired.map (·.epoch) = [1, 2] ∧
      FencesOff Env.blank ((machine Env.blank).run (.new 0) actions) :=
  ⟨by decide, run_fencesOff Env.blank 0 _
    ⟨(fun _ presented => by cases presented), trivial, (fun _ presented => by cases presented),
      trivial⟩⟩

end LeaseSystem

end Exocortex
