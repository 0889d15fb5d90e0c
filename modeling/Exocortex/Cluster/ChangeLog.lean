import Mathlib.Order.Basic
import Exocortex.Library.Stamps

/-!
# The replay ring of the change feed

A cluster node keeps the last envelopes it published in a bounded ring, so that a
subscriber which reconnects can be caught up from the position it had reached. The
ring forgets its oldest envelopes; two markers that eviction does not touch remember
that something was observed and the largest number observed.

Everything ever appended is an evicted prefix followed by the ring (`Tracks`). From
this, a replay that is not refused misses nothing (`Tracks.fresh_exact`), and over
consecutive numbers it is refused exactly for a position behind the evicted prefix or
behind the start of the log (`Tracks.tooOld_iff`).
-/

namespace Exocortex

open Library

/-- A change-feed message on the wire: what changed, and the commit it belongs to. -/
structure WireInvalidation (Kind : Type) where
  kind : Option Kind
  backendLsn : UInt64
deriving DecidableEq

/-- A signed change-feed message. -/
structure InvalidationEnvelope (Kind : Type) where
  wireVersion : UInt32
  ontologyFingerprint : List UInt8
  emitterNodeId : String
  inv : Option (WireInvalidation Kind)
  hmac : List UInt8
deriving DecidableEq

/-- The outcome of a replay request. -/
inductive Replay (Kind : Type) where
  | fresh (envelopes : List (InvalidationEnvelope Kind))
  | tooOld

variable {Kind : Type}

def envelopeLsn (env : InvalidationEnvelope Kind) : UInt64 :=
  (env.inv.map WireInvalidation.backendLsn).getD 0

/-- `u64::saturating_add` of one. -/
def saturatingSucc (n : UInt64) : UInt64 := if n.toNat + 1 < UInt64.size then n + 1 else n

/-- `AtomicU64::fetch_max`. -/
def fetchMax (stored offered : UInt64) : UInt64 := if stored < offered then offered else stored

/-- The bounded ring and the markers that survive eviction. -/
structure RingChangeLog (Kind : Type) where
  ring : List (InvalidationEnvelope Kind)
  cap : ℕ
  observedAnything : Bool
  maxObservedLsn : UInt64

namespace RingChangeLog

/-- An empty ring; a capacity of zero is raised to one. -/
def withCapacity (cap : ℕ) : RingChangeLog Kind where
  ring := []
  cap := max cap 1
  observedAnything := false
  maxObservedLsn := 0

/-- Track one envelope, evicting the oldest when the ring is full. -/
def append (log : RingChangeLog Kind) (envelope : InvalidationEnvelope Kind) :
    RingChangeLog Kind where
  ring := (if log.ring.length = log.cap then log.ring.tail else log.ring) ++ [envelope]
  cap := log.cap
  observedAnything := true
  maxObservedLsn := fetchMax log.maxObservedLsn (envelopeLsn envelope)

/-- The envelopes after a position, oldest first, or the demand to reseed. -/
def replaySince (log : RingChangeLog Kind) (sinceLsn : UInt64) : Replay Kind :=
  match log.ring with
  | [] =>
      if log.observedAnything ∧ sinceLsn < log.maxObservedLsn then .tooOld else .fresh []
  | oldest :: _ =>
      if saturatingSucc sinceLsn < envelopeLsn oldest then .tooOld
      else .fresh (log.ring.filter fun env => sinceLsn < envelopeLsn env)

/-- The number of the oldest buffered envelope, 1 when nothing is buffered. -/
def replayFloor (log : RingChangeLog Kind) : UInt64 :=
  (log.ring.head?.map envelopeLsn).getD 1

/-- The largest number appended, once anything was. -/
def frontier (log : RingChangeLog Kind) : Option UInt64 :=
  if log.observedAnything then some log.maxObservedLsn else none

/-- The log after a sequence of appends. -/
def appendAll (log : RingChangeLog Kind) (envelopes : List (InvalidationEnvelope Kind)) :
    RingChangeLog Kind :=
  envelopes.foldl append log

end RingChangeLog

theorem saturatingSucc_toNat (n : UInt64) :
    (saturatingSucc n).toNat = min (n.toNat + 1) (UInt64.size - 1) := by
  have bound := n.toNat_lt_size
  rw [saturatingSucc]
  split
  · next fits =>
      rw [UInt64.toNat_add, UInt64.toNat_one]
      have exact_sum : (n.toNat + 1) % 2 ^ 64 = n.toNat + 1 := Nat.mod_eq_of_lt fits
      omega
  · omega

/-- A number that is not above the saturating successor is at most one above. -/
theorem le_of_not_saturatingSucc_lt {since floor lsn : UInt64}
    (covered : ¬ saturatingSucc since < floor) (below : lsn < floor) : lsn ≤ since := by
  rw [UInt64.lt_iff_toNat_lt, saturatingSucc_toNat] at covered
  rw [UInt64.lt_iff_toNat_lt] at below
  rw [UInt64.le_iff_toNat_le]
  have bound := since.toNat_lt_size
  have floorBound := floor.toNat_lt_size
  omega

theorem fetchMax_toNat (stored offered : UInt64) :
    (fetchMax stored offered).toNat = max stored.toNat offered.toNat := by
  rw [fetchMax]
  split
  · next larger =>
      rw [UInt64.lt_iff_toNat_lt] at larger
      omega
  · next smaller =>
      rw [UInt64.lt_iff_toNat_lt] at smaller
      omega

namespace RingChangeLog

/-! ## What a log remembers -/

/-- A log tracks a sequence of appends, of which it evicted a prefix. -/
structure Tracks (log : RingChangeLog Kind) (evicted appended : List (InvalidationEnvelope Kind)) :
    Prop where
  whole : appended = evicted ++ log.ring
  filled : log.ring.length = min appended.length log.cap
  capacity : 0 < log.cap
  observed : log.observedAnything = !appended.isEmpty
  below : ∀ env ∈ appended, envelopeLsn env ≤ log.maxObservedLsn
  reached : log.maxObservedLsn = 0 ∨ ∃ env ∈ appended, envelopeLsn env = log.maxObservedLsn

theorem tracks_withCapacity (cap : ℕ) :
    Tracks (withCapacity cap : RingChangeLog Kind) [] [] where
  whole := rfl
  filled := (Nat.zero_min _).symm
  capacity := Nat.lt_of_lt_of_le Nat.one_pos (Nat.le_max_right cap 1)
  observed := rfl
  below _ member := absurd member List.not_mem_nil
  reached := .inl rfl

variable {evicted appended : List (InvalidationEnvelope Kind)} {log : RingChangeLog Kind}

/-- One append evicts at most the oldest envelope. -/
theorem Tracks.append (tracks : Tracks log evicted appended)
    (envelope : InvalidationEnvelope Kind) :
    ∃ dropped, Tracks (log.append envelope) dropped (appended ++ [envelope]) := by
  obtain ⟨whole, filled, capacity, -, below, reached⟩ := tracks
  have lengths : appended.length = evicted.length + log.ring.length := by
    rw [whole, List.length_append]
  have observed : true = !(appended ++ [envelope]).isEmpty := by simp
  have belowNow : ∀ env ∈ appended ++ [envelope],
      envelopeLsn env ≤ fetchMax log.maxObservedLsn (envelopeLsn envelope) := by
    intro env member
    rw [UInt64.le_iff_toNat_le, fetchMax_toNat]
    rcases List.mem_append.mp member with old | new
    · have bound := UInt64.le_iff_toNat_le.mp (below env old)
      omega
    · rw [List.mem_singleton.mp new]
      omega
  have reachedNow : fetchMax log.maxObservedLsn (envelopeLsn envelope) = 0 ∨
      ∃ env ∈ appended ++ [envelope],
        envelopeLsn env = fetchMax log.maxObservedLsn (envelopeLsn envelope) := by
    rw [fetchMax]
    split
    · exact .inr ⟨envelope, List.mem_append_right _ (List.mem_singleton_self _), rfl⟩
    · exact reached.imp_right fun ⟨env, member, same⟩ =>
        ⟨env, List.mem_append_left _ member, same⟩
  by_cases full : log.ring.length = log.cap
  · obtain ⟨oldest, rest, ring⟩ : ∃ oldest rest, log.ring = oldest :: rest :=
      List.exists_cons_of_length_pos (full ▸ capacity)
    refine ⟨evicted ++ [oldest], ?_, ?_, capacity, observed, belowNow, reachedNow⟩
    · rw [RingChangeLog.append, if_pos full, whole, ring]
      simp only [List.tail_cons, List.append_assoc, List.cons_append, List.nil_append]
    · simp only [RingChangeLog.append, if_pos full, List.length_append, List.length_tail,
        List.length_singleton]
      omega
  · refine ⟨evicted, ?_, ?_, capacity, observed, belowNow, reachedNow⟩
    · simp only [RingChangeLog.append, if_neg full, whole, List.append_assoc]
    · simp only [RingChangeLog.append, if_neg full, List.length_append, List.length_singleton]
      omega

theorem Tracks.appendAll (tracks : Tracks log evicted appended)
    (envelopes : List (InvalidationEnvelope Kind)) :
    ∃ dropped, Tracks (log.appendAll envelopes) dropped (appended ++ envelopes) := by
  induction envelopes generalizing log evicted appended with
  | nil =>
      rw [List.append_nil]
      exact ⟨evicted, tracks⟩
  | cons envelope envelopes ih =>
      obtain ⟨dropped, next⟩ := tracks.append envelope
      rw [List.append_cons]
      exact ih next

theorem appendAll_cap (log : RingChangeLog Kind) (envelopes : List (InvalidationEnvelope Kind)) :
    (log.appendAll envelopes).cap = log.cap := by
  induction envelopes generalizing log with
  | nil => rfl
  | cons envelope envelopes ih => exact ih (log.append envelope)

/-! ## What a replay answers -/

namespace Tracks

variable {log : RingChangeLog Kind} {evicted appended : List (InvalidationEnvelope Kind)}

/-- An empty ring means that nothing was ever appended. -/
theorem appended_of_ring (tracks : Tracks log evicted appended) (empty : log.ring = []) :
    appended = [] := by
  have filled := tracks.filled
  have capacity := tracks.capacity
  rw [empty, List.length_nil] at filled
  apply List.eq_nil_of_length_eq_zero
  omega

/-- A log that never saw anything refuses nobody. -/
theorem replaySince_nil (tracks : Tracks log evicted appended) (empty : log.ring = [])
    (since : UInt64) : log.replaySince since = .fresh [] := by
  have unseen : log.observedAnything = false := by
    rw [tracks.observed, tracks.appended_of_ring empty]
    rfl
  simp only [replaySince, empty, unseen, Bool.false_eq_true, false_and, if_false]

variable {rest : List (InvalidationEnvelope Kind)} {oldest : InvalidationEnvelope Kind}

theorem replaySince_cons (ring : log.ring = oldest :: rest) (since : UInt64) :
    log.replaySince since =
      if saturatingSucc since < envelopeLsn oldest then .tooOld
      else .fresh (log.ring.filter fun env => since < envelopeLsn env) := by
  simp only [replaySince, ring]

/-- **A replay that is not refused misses nothing**: it holds every envelope ever
appended above the position, in the order of the appends. -/
theorem fresh_exact (tracks : Tracks log evicted appended)
    (ascending : appended.Pairwise fun first second => envelopeLsn first < envelopeLsn second)
    {since : UInt64} {envelopes : List (InvalidationEnvelope Kind)}
    (fresh : log.replaySince since = .fresh envelopes) :
    envelopes = appended.filter fun env => since < envelopeLsn env := by
  rcases shape : log.ring with _ | ⟨oldest, rest⟩
  · rw [tracks.replaySince_nil shape, Replay.fresh.injEq] at fresh
    rw [← fresh, tracks.appended_of_ring shape]
    rfl
  · rw [replaySince_cons shape] at fresh
    split at fresh
    · cases fresh
    · next covered =>
        rw [Replay.fresh.injEq] at fresh
        -- Everything evicted lies below the floor, hence at or below the position.
        have passed : ∀ env ∈ evicted, ¬ since < envelopeLsn env := by
          intro env member
          have below : envelopeLsn env < envelopeLsn oldest := by
            rw [tracks.whole, List.pairwise_append] at ascending
            exact ascending.2.2 env member oldest (shape ▸ List.mem_cons_self)
          exact UInt64.not_lt.mpr (le_of_not_saturatingSucc_lt covered below)
        have none_evicted :
            (evicted.filter fun env => decide (since < envelopeLsn env)) = [] :=
          List.filter_eq_nil_iff.mpr fun env member => by simpa using passed env member
        rw [tracks.whole, List.filter_append, none_evicted, List.nil_append, fresh]

/-- **Refusal over consecutive numbers**: a replay is refused exactly for a position
before the start of a non-empty log, or behind something evicted. -/
theorem tooOld_iff (tracks : Tracks log evicted appended) {before after : ℕ}
    (dense : Dense before after (appended.map fun env => (envelopeLsn env).toNat))
    (since : UInt64) :
    log.replaySince since = .tooOld ↔
      (since.toNat < before ∧ appended ≠ []) ∨ ∃ env ∈ evicted, since < envelopeLsn env := by
  rcases shape : log.ring with _ | ⟨oldest, rest⟩
  · have nothing := tracks.appended_of_ring shape
    have evictedNothing : evicted = [] :=
      (List.append_eq_nil_iff.mp (tracks.whole.symm.trans nothing)).1
    rw [tracks.replaySince_nil shape, nothing, evictedNothing]
    simp
  · have nonempty : appended ≠ [] := by
      rw [tracks.whole, shape]
      simp
    rw [tracks.whole, shape, List.map_append, List.map_cons] at dense
    obtain ⟨early, late⟩ := dense.split
    have floor := late.uncons.1
    rw [List.length_map] at early floor
    have floorBound := (envelopeLsn oldest).toNat_lt_size
    have refused : saturatingSucc since < envelopeLsn oldest ↔
        since.toNat < before + evicted.length := by
      rw [UInt64.lt_iff_toNat_lt, saturatingSucc_toNat, floor]
      omega
    have behind : (∃ env ∈ evicted, since < envelopeLsn env) ↔
        ∃ n ∈ evicted.map fun env => (envelopeLsn env).toNat, since.toNat < n := by
      simp only [List.mem_map, exists_exists_and_eq_and, UInt64.lt_iff_toNat_lt]
    rw [replaySince_cons shape, behind]
    simp only [ite_eq_left_iff, reduceCtorEq, imp_false, not_not, refused, nonempty, ne_eq,
      not_false_iff, and_true, early.mem_iff]
    constructor
    · intro position
      by_cases before_start : since.toNat < before
      · exact .inl before_start
      · exact .inr ⟨before + evicted.length, by omega, position⟩
    · rintro (before_start | ⟨n, range, above⟩) <;> omega

theorem replayFloor_eq (tracks : Tracks log evicted appended)
    (ascending : appended.Pairwise fun first second => envelopeLsn first < envelopeLsn second)
    (ring : log.ring = oldest :: rest) :
    log.replayFloor = envelopeLsn oldest ∧
      ∀ env ∈ log.ring, envelopeLsn oldest ≤ envelopeLsn env := by
  refine ⟨by simp only [replayFloor, ring, List.head?_cons, Option.map_some, Option.getD_some], ?_⟩
  rw [tracks.whole, List.pairwise_append, ring, List.pairwise_cons] at ascending
  intro env member
  rw [ring] at member
  rcases List.mem_cons.mp member with rfl | later
  · exact UInt64.le_refl _
  · exact UInt64.le_of_lt (ascending.2.1.1 env later)

/-- The frontier is the largest number appended, once there is one. -/
theorem frontier_eq (tracks : Tracks log evicted appended) (lsn : UInt64) :
    log.frontier = some lsn ↔
      (∃ env ∈ appended, envelopeLsn env = lsn) ∧ ∀ env ∈ appended, envelopeLsn env ≤ lsn := by
  rcases appended with _ | ⟨first, others⟩
  · have unseen : log.observedAnything = false := tracks.observed
    simp [frontier, unseen]
  · have seen : log.observedAnything = true := tracks.observed
    have attained : ∃ env ∈ first :: others, envelopeLsn env = log.maxObservedLsn := by
      rcases tracks.reached with zero | reached
      · have least := tracks.below first List.mem_cons_self
        rw [zero] at least
        refine ⟨first, List.mem_cons_self, ?_⟩
        rw [zero]
        exact UInt64.le_antisymm least (UInt64.zero_le)
      · exact reached
    rw [frontier, if_pos seen, Option.some.injEq]
    constructor
    · rintro rfl
      exact ⟨attained, tracks.below⟩
    · rintro ⟨⟨env, member, rfl⟩, largest⟩
      obtain ⟨top, inside, same⟩ := attained
      exact UInt64.le_antisymm (same ▸ largest top inside) (tracks.below env member)

end Tracks

/-- **No silent gaps**: after any ascending sequence of appends, a replay that is not
refused is exactly what was appended above the position, and over the numbers
`1, 2, …` it is refused exactly when something above the position was evicted. The
floor is the oldest buffered number and the frontier the largest appended one. -/
theorem replay_without_gaps (cap : ℕ) (appended : List (InvalidationEnvelope Kind))
    (ascending : appended.Pairwise fun first second => envelopeLsn first < envelopeLsn second) :
    let log := (withCapacity cap).appendAll appended
    ∃ evicted, appended = evicted ++ log.ring ∧
      log.ring.length = min appended.length (max cap 1) ∧
      (∀ since envelopes, log.replaySince since = .fresh envelopes →
        envelopes = appended.filter fun env => since < envelopeLsn env) ∧
      ((∃ last, Dense 0 last (appended.map fun env => (envelopeLsn env).toNat)) →
        ∀ since, log.replaySince since = .tooOld ↔
          ∃ env ∈ evicted, since < envelopeLsn env) ∧
      (∀ oldest rest, log.ring = oldest :: rest →
        log.replayFloor = envelopeLsn oldest ∧
          ∀ env ∈ log.ring, envelopeLsn oldest ≤ envelopeLsn env) ∧
      (∀ lsn, log.frontier = some lsn ↔
        (∃ env ∈ appended, envelopeLsn env = lsn) ∧
          ∀ env ∈ appended, envelopeLsn env ≤ lsn) := by
  intro log
  obtain ⟨evicted, tracks⟩ := (@tracks_withCapacity Kind cap).appendAll appended
  rw [List.nil_append] at tracks
  have filled := tracks.filled
  rw [appendAll_cap] at filled
  refine ⟨evicted, tracks.whole, filled, ?_, ?_, ?_, tracks.frontier_eq⟩
  · intro since envelopes fresh
    exact tracks.fresh_exact ascending fresh
  · rintro ⟨last, dense⟩ since
    rw [tracks.tooOld_iff dense since]
    simp
  · intro oldest rest ring
    exact tracks.replayFloor_eq ascending ring

/-- An envelope that carries a number and nothing else. -/
def bareEnvelope (lsn : UInt64) : InvalidationEnvelope Unit :=
  ⟨1, [], "node", some ⟨none, lsn⟩, []⟩

/-- Three envelopes through a ring of two: the first is evicted, so position 0 is
refused, while position 1 is caught up. -/
theorem replay_without_gaps_three :
    let appended := [bareEnvelope 1, bareEnvelope 2, bareEnvelope 3]
    let log := (withCapacity 2).appendAll appended
    log.ring = [bareEnvelope 2, bareEnvelope 3] ∧
      (∀ envelopes, log.replaySince 1 = .fresh envelopes →
        envelopes = [bareEnvelope 2, bareEnvelope 3]) ∧
      log.replaySince 0 = .tooOld := by
  intro appended log
  have ascending : appended.Pairwise
      fun first second => envelopeLsn first < envelopeLsn second := by
    simp only [appended, List.pairwise_cons]
    decide
  obtain ⟨evicted, whole, -, fresh, refused, -, -⟩ := replay_without_gaps 2 appended ascending
  refine ⟨rfl, fun envelopes same => fresh 1 envelopes same, ?_⟩
  refine (refused ⟨3, by omega, rfl⟩ 0).mpr ⟨bareEnvelope 1, ?_, by decide⟩
  have kept : appended = evicted ++ [bareEnvelope 2, bareEnvelope 3] := whole
  have first : evicted = [bareEnvelope 1] :=
    List.append_cancel_right (kept.symm.trans (rfl : appended =
      [bareEnvelope 1] ++ [bareEnvelope 2, bareEnvelope 3]))
  rw [first]
  exact List.mem_singleton_self _

end RingChangeLog

end Exocortex
