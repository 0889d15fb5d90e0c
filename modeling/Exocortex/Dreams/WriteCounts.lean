import Exocortex.Dreams.Fire

/-!
# Writes are counted once

The shared queue as a counter of writes: deliveries run the record script, settlements
the settle script, and a log beside the queue keeps what was added.

The invariant (`Counting`) ties the three memories together. An added share is still in
the processed set of its region, or its effect was acknowledged under a generation that
the region's settled generation has reached; so whoever delivers it again is skipped. A
worker that was skipped by the settled generation alone holds an outdated claim, since an
acknowledged row then carries a generation as large as the worker's; so it can no longer
acknowledge, and whatever is acknowledged was counted (`Counting.complete`).
-/

namespace Exocortex

open Library InMemoryStorage

/-- The shared queue, and what was added to its counters. -/
structure CountedQueue where
  queue : RedisFireQueue
  added : List Contribution

variable {delta : IngestRegionDelta} {region : RegionKey} {c : CountedQueue}

namespace CountedQueue

def new (org : String) : CountedQueue := ⟨.new org, []⟩

def deliver (ctx : RecordContext) (fence : DeliveryFence) (delta : IngestRegionDelta)
    (c : CountedQueue) : Except DeliveryError CountedQueue :=
  match c.queue.onWritesOnce delta.region delta.memories delta.relationships ctx fence with
  | .error error => .error error
  | .ok (_, queue) => .ok ⟨queue,
      if c.queue.alreadyCounted delta.region fence then c.added
      else c.added ++ [⟨fence.eventId, delta⟩]⟩

def settle (fence : DeliveryFence) (retain : Bool) (region : RegionKey) (c : CountedQueue) :
    Except DeliveryError CountedQueue :=
  match c.queue.settleWritesOnce region fence retain with
  | .error error => .error error
  | .ok queue => .ok ⟨queue, c.added⟩

variable {fence : DeliveryFence} {d : CountedQueue}

/-- A delivery is skipped, or its share is recorded and logged. -/
theorem deliver_ok {ctx : RecordContext} (accepted : deliver ctx fence delta c = .ok d) :
    (c.queue.alreadyCounted delta.region fence = true ∧ d = c) ∨
    (c.queue.alreadyCounted delta.region fence = false ∧ ∃ p, RedisFireQueue.Recorded c.queue
      delta.region delta.memories delta.relationships fence p ∧
        d = ⟨p, c.added ++ [⟨fence.eventId, delta⟩]⟩) := by
  simp only [deliver] at accepted
  split at accepted
  · cases accepted
  · next outcome queue ran =>
      cases accepted
      obtain ⟨-, result⟩ := RedisFireQueue.onWritesOnce_ok _ _ ran
      have state := congrArg Prod.snd result
      dsimp only at state
      rcases RedisFireQueue.recordWrite_counts c.queue delta.region delta.memories
        delta.relationships ctx fence with ⟨skipped, same⟩ | ⟨counts, recorded⟩
      · exact .inl ⟨skipped, by rw [state, same, if_pos skipped]⟩
      · exact .inr ⟨counts, _, recorded, by rw [state, counts]; rfl⟩

/-- A settlement runs the script and logs nothing. -/
theorem settle_ok {retain : Bool} (accepted : settle fence retain region c = .ok d) :
    ∃ p, RedisFireQueue.Settled c.queue region fence.eventId fence.generation p ∧
      d = ⟨p, c.added⟩ := by
  simp only [settle] at accepted
  split at accepted
  · cases accepted
  · next queue ran =>
      cases accepted
      rw [RedisFireQueue.settleWritesOnce_ok _ _ ran]
      exact ⟨_, RedisFireQueue.settleWrite_settled _ _ _ _ _, rfl⟩

/-- The share of an effect in a region was added. -/
def Added (c : CountedQueue) (effectId : String) (region : RegionKey) : Prop :=
  (effectId, region) ∈ c.added.map Contribution.key

end CountedQueue

/-- The shared queue counts writes. -/
def distributedCounter : WriteCounter CountedQueue RecordContext :=
  ⟨CountedQueue.deliver, CountedQueue.settle⟩

namespace DeliverySystem

/-! ## The invariant -/

/-- What holds of the queue, the log and the outbox in every state. -/
structure Counting (sys : DeliverySystem CountedQueue) : Prop where
  once : (sys.counters.added.map Contribution.key).Nodup
  tallied : Tallied sys.counters.queue.memories sys.counters.queue.edges sys.counters.added
  owned : ∀ contribution ∈ sys.counters.added, ∃ row,
    sys.store.ingestEffects.lookup contribution.effectId = some row ∧
      contribution.delta ∈ row.effect.regionDeltas
  remembered : ∀ effectId region, sys.counters.Added effectId region →
    effectId ∈ sys.counters.queue.processed region ∨ ∃ generation,
      AcknowledgedAt sys.store effectId generation ∧
        generation ≤ sys.counters.queue.settledGeneration region
  processed : ∀ region, ∀ effectId ∈ sys.counters.queue.processed region,
    sys.counters.Added effectId region
  settled : ∀ region, 0 < sys.counters.queue.settledGeneration region → ∃ effectId,
    AcknowledgedAt sys.store effectId (sys.counters.queue.settledGeneration region)
  delivered : ∀ token worker, sys.workers.lookup token = some worker →
    ∀ region ∈ worker.delivered, sys.counters.Added worker.claimed.effect.effectId region ∨
      ∃ effectId generation, AcknowledgedAt sys.store effectId generation ∧
        worker.claimed.deliveryGeneration ≤ generation
  complete : ∀ effectId generation, AcknowledgedAt sys.store effectId generation →
    ∀ row, sys.store.ingestEffects.lookup effectId = some row →
      ∀ delta ∈ row.effect.regionDeltas, sys.counters.Added effectId delta.region

theorem counting_new (org : String) (now : DateTime) :
    Counting (.new (.new org) now) := by
  refine ⟨List.nodup_nil, ⟨?_, ?_⟩, ?_, ?_, ?_, ?_, ?_, ?_⟩
  · intro region
    rfl
  · intro region
    rfl
  · intro contribution member
    cases member
  · intro effectId region added
    cases added
  · intro region effectId member
    simp [new, CountedQueue.new, RedisFireQueue.new, RedisFireQueue.processed] at member
  · intro region positive
    cases positive
  · intro token worker working
    simp [new] at working
  · rintro effectId generation ⟨row, found, -⟩
    simp [new, InMemoryStorage.new] at found

variable {effectId : String}

section Moves

variable {sys next : DeliverySystem CountedQueue}

/-- The store moves on, the counters stay. -/
theorem Counting.evolve (counting : Counting sys) (evolves : Evolves sys.store next.store)
    (counters : next.counters = sys.counters)
    (workers : ∀ token worker, next.workers.lookup token = some worker →
      sys.workers.lookup token = some worker ∨ worker.delivered = [])
    (complete : ∀ effectId generation, AcknowledgedAt next.store effectId generation →
      ¬ AcknowledgedAt sys.store effectId generation →
        ∀ row, next.store.ingestEffects.lookup effectId = some row →
          ∀ delta ∈ row.effect.regionDeltas, sys.counters.Added effectId delta.region) :
    Counting next := by
  refine ⟨?_, ?_, ?_, ?_, ?_, ?_, ?_, ?_⟩
  · rw [counters]
    exact counting.once
  · rw [counters]
    exact counting.tallied
  · rw [counters]
    intro contribution member
    obtain ⟨row, found, share⟩ := counting.owned contribution member
    obtain ⟨later, present, same, -⟩ := evolves _ row found
    exact ⟨later, present, same ▸ share⟩
  · rw [counters]
    intro effectId region added
    rcases counting.remembered effectId region added with kept | ⟨generation, closed, le⟩
    · exact .inl kept
    · exact .inr ⟨generation, closed.evolve evolves, le⟩
  · rw [counters]
    exact counting.processed
  · rw [counters]
    intro region positive
    obtain ⟨effectId, closed⟩ := counting.settled region positive
    exact ⟨effectId, closed.evolve evolves⟩
  · rw [counters]
    intro token worker working region member
    rcases workers token worker working with old | nothing
    · rcases counting.delivered token worker old region member with added | ⟨e, g, closed, le⟩
      · exact .inl added
      · exact .inr ⟨e, g, closed.evolve evolves, le⟩
    · rw [nothing] at member
      cases member
  · rw [counters]
    intro effectId generation closed row found delta share
    by_cases before : AcknowledgedAt sys.store effectId generation
    · obtain ⟨old, present, isClosed⟩ := before
      obtain ⟨later, there, same, -⟩ := evolves effectId old present
      cases found.symm.trans there
      exact counting.complete effectId generation ⟨old, present, isClosed⟩ old present delta
        (same ▸ share)
    · exact complete effectId generation closed before row found delta share

variable {worker : Worker} {p : RedisFireQueue}

/-- A worker that can acknowledge was never skipped by the settled generation alone. -/
theorem Counting.finished (counting : Counting sys) (delivering : Delivering sys) {token : String}
    (working : sys.workers.lookup token = some worker) (finished : worker.finished = true)
    (open_ : ∀ generation, ¬ AcknowledgedAt sys.store worker.claimed.effect.effectId generation)
    (newest : worker.claimed.deliveryGeneration = sys.store.ingestEffectGeneration)
    (share : delta ∈ worker.claimed.effect.regionDeltas) :
    sys.counters.Added worker.claimed.effect.effectId delta.region := by
  have member : delta.region ∈ worker.delivered :=
    of_decide_eq_true (List.all_eq_true.mp finished delta share)
  rcases counting.delivered token worker working delta.region member with
    added | ⟨effectId, generation, closed, above⟩
  · exact added
  · -- The row acknowledged under so large a generation would be the worker's own.
    obtain ⟨row, reached, found, -, under, le⟩ := (delivering.worker token worker working).row
    obtain ⟨other, present, acknowledged, at_⟩ := closed
    have bound := delivering.generation_le _ row reached found under
    have limit := delivering.generation_le effectId other generation present at_
    have same : generation = reached := by omega
    have own := delivering.unique effectId other _ row reached present found (same ▸ at_) under
    exact absurd ⟨other, own ▸ present, acknowledged, at_⟩ (open_ generation)

/-- A share that is not skipped was never added. -/
theorem Counting.unadded (counting : Counting sys) (holds : Holds sys.store worker)
    (counts : sys.counters.queue.alreadyCounted region worker.claimed.fence = false) :
    ¬ sys.counters.Added worker.claimed.effect.effectId region := by
  intro added
  have skipped : sys.counters.queue.alreadyCounted region worker.claimed.fence = true := by
    rw [RedisFireQueue.alreadyCounted_iff]
    refine ⟨holds.positive, ?_⟩
    rcases counting.remembered _ region added with kept | ⟨generation, closed, le⟩
    · exact .inr kept
    · -- The worker's generation is at most the acknowledged one, which is settled.
      obtain ⟨row, reached, found, -, under, below⟩ := holds.row
      obtain ⟨other, present, -, at_⟩ := closed
      cases found.symm.trans present
      cases under.symm.trans at_
      exact .inl (below.trans le)
  rw [counts] at skipped
  cases skipped

/-- A share that was added before stays so, and the new one is added. -/
theorem added_concat {other : String} :
    CountedQueue.Added ⟨p, c.added ++ [⟨effectId, delta⟩]⟩ other region ↔
      c.Added other region ∨ other = effectId ∧ region = delta.region := by
  simp [CountedQueue.Added, Contribution.key]

/-- A delivery that counts. -/
theorem Counting.record (counting : Counting sys) (holds : Holds sys.store worker)
    (share : delta ∈ worker.claimed.effect.regionDeltas)
    (counts : sys.counters.queue.alreadyCounted delta.region worker.claimed.fence = false)
    (recorded : RedisFireQueue.Recorded sys.counters.queue delta.region delta.memories
      delta.relationships worker.claimed.fence p) :
    Counting { sys with
      counters := ⟨p, sys.counters.added ++ [⟨worker.claimed.effect.effectId, delta⟩]⟩ } := by
  refine ⟨?_, counting.tallied.record _ recorded.memories recorded.edges, ?_, ?_, ?_, ?_, ?_, ?_⟩
  · dsimp only
    rw [List.map_append, List.map_cons, List.map_nil, ← List.concat_eq_append]
    exact counting.once.concat (counting.unadded holds counts)
  · intro contribution member
    rcases List.mem_append.mp member with old | new
    · exact counting.owned contribution old
    · rw [List.mem_singleton.mp new]
      obtain ⟨row, -, found, same, -⟩ := holds.row
      exact ⟨row, found, same ▸ share⟩
  · intro effectId region added
    dsimp only
    rw [recorded.processed holds.positive, recorded.settledGeneration]
    rcases added_concat.mp added with old | ⟨rfl, rfl⟩
    · rcases counting.remembered effectId region old with kept | settled
      · exact .inl (.inl kept)
      · exact .inr settled
    · exact .inl (.inr ⟨rfl, rfl⟩)
  · intro region effectId member
    rcases (recorded.processed holds.positive region effectId).mp member with old | ⟨rfl, rfl⟩
    · exact added_concat.mpr (.inl (counting.processed region effectId old))
    · exact added_concat.mpr (.inr ⟨rfl, rfl⟩)
  · intro region
    dsimp only
    rw [recorded.settledGeneration]
    exact counting.settled region
  · intro token held working region member
    rcases counting.delivered token held working region member with old | outdated
    · exact .inl (added_concat.mpr (.inl old))
    · exact .inr outdated
  · intro effectId generation closed row found other member
    exact added_concat.mpr (.inl
      (counting.complete effectId generation closed row found other member))

/-- A worker notes that a share was counted, or that its claim is outdated. -/
theorem Counting.note (counting : Counting sys) {token : String}
    (working : sys.workers.lookup token = some worker)
    (seen : sys.counters.Added worker.claimed.effect.effectId region ∨
      ∃ effectId generation, AcknowledgedAt sys.store effectId generation ∧
        worker.claimed.deliveryGeneration ≤ generation) :
    Counting { sys with
      workers := sys.workers.insert token
        { worker with delivered := region :: worker.delivered } } := by
  refine { counting with delivered := ?_ }
  intro holding held present other member
  dsimp only at present
  rw [Table.lookup_insert_eq] at present
  split at present
  · cases present
    rcases List.mem_cons.mp member with rfl | old
    · exact seen
    · exact counting.delivered token worker working other old
  · exact counting.delivered holding held present other member

/-- After a delivery the share was added, or the claim is outdated. -/
theorem Counting.skipped (counting : Counting sys)
    (skipped : sys.counters.queue.alreadyCounted region worker.claimed.fence = true) :
    sys.counters.Added worker.claimed.effect.effectId region ∨
      ∃ effectId generation, AcknowledgedAt sys.store effectId generation ∧
        worker.claimed.deliveryGeneration ≤ generation := by
  obtain ⟨positive, fenced | member⟩ := (RedisFireQueue.alreadyCounted_iff _ _ _).mp skipped
  · obtain ⟨effectId, closed⟩ := counting.settled region (Nat.lt_of_lt_of_le positive fenced)
    exact .inr ⟨effectId, _, closed, fenced⟩
  · exact .inl (counting.processed region _ member)

/-- Settling an acknowledged effect. -/
theorem Counting.settle (counting : Counting sys) {claimed : ClaimedPostIngestEffect}
    (settleable : Settleable sys.store claimed)
    (settled : RedisFireQueue.Settled sys.counters.queue region claimed.effect.effectId
      claimed.deliveryGeneration p) :
    Counting { sys with counters := ⟨p, sys.counters.added⟩ } := by
  obtain ⟨row, found, -, acknowledged, under⟩ := settleable
  have closed : AcknowledgedAt sys.store claimed.effect.effectId claimed.deliveryGeneration :=
    ⟨row, found, acknowledged, under⟩
  have raised : ∀ other, sys.counters.queue.settledGeneration other ≤
      p.settledGeneration other := by
    intro other
    rw [settled.settledGeneration]
    split
    · next same => exact same ▸ le_max_left _ _
    · exact le_rfl
  refine ⟨counting.once, ⟨?_, ?_⟩, counting.owned, ?_, ?_, ?_, counting.delivered,
    counting.complete⟩
  · intro other
    exact (settled.memories other).trans (counting.tallied.memories other)
  · intro other
    exact (settled.edges other).trans (counting.tallied.edges other)
  · intro effectId other added
    by_cases own : other = region ∧ effectId = claimed.effect.effectId
    · obtain ⟨rfl, rfl⟩ := own
      refine .inr ⟨_, closed, ?_⟩
      dsimp only
      rw [settled.settledGeneration, if_pos rfl]
      exact le_max_right _ _
    · rcases counting.remembered effectId other added with kept | ⟨generation, before, le⟩
      · exact .inl (settled.keeps other effectId kept own)
      · exact .inr ⟨generation, before, le.trans (raised other)⟩
  · intro other effectId member
    exact counting.processed other effectId (settled.shrinks other member)
  · intro other positive
    dsimp only at positive ⊢
    rw [settled.settledGeneration] at positive ⊢
    split
    · rcases le_total (sys.counters.queue.settledGeneration region) claimed.deliveryGeneration
        with below | above
      · exact ⟨_, by rw [max_eq_right below]; exact closed⟩
      · rw [max_eq_left above]
        rw [if_pos ‹_›, max_eq_left above] at positive
        exact counting.settled region positive
    · rw [if_neg ‹_›] at positive
      exact counting.settled other positive

theorem Counting.moves (delivering : Delivering sys) (moves : Moves distributedCounter sys next)
    (counting : Counting sys) : Counting next := by
  cases moves with
  | quiet quiet =>
      apply counting.evolve quiet.evolves quiet.counters quiet.workers
      intro effectId generation closed before
      exact absurd (quiet.acknowledged effectId generation closed) before
  | deliver token worker delta observed args counters working share counted =>
      have holds := delivering.worker token worker working
      -- The counters move first, then the worker notes what it saw.
      suffices moved : Counting { sys with counters := counters } ∧
          (counters.Added worker.claimed.effect.effectId delta.region ∨
            ∃ effectId generation, AcknowledgedAt sys.store effectId generation ∧
              worker.claimed.deliveryGeneration ≤ generation) by
        cases observed with
        | false => exact moved.1
        | true => exact moved.1.note working moved.2
      rcases CountedQueue.deliver_ok counted with ⟨skipped, rfl⟩ | ⟨counts, p, recorded, rfl⟩
      · exact ⟨counting, counting.skipped skipped⟩
      · exact ⟨counting.record holds share counts recorded,
          .inl (added_concat.mpr (.inr ⟨rfl, rfl⟩))⟩
  | acknowledge token worker working finished open_ newest evolves acknowledged closed workers
      counters =>
      refine counting.evolve evolves counters
        (fun holding held present => .inl (workers ▸ present)) ?_
      intro effectId generation isClosed before row found delta share
      rcases acknowledged effectId generation isClosed with old | ⟨rfl, rfl⟩
      · exact absurd old before
      · obtain ⟨later, present, same, -⟩ := closed
        cases found.symm.trans present
        exact counting.finished delivering working finished open_ newest (same ▸ share)
  | settle claimed delta counters settleable share settled =>
      obtain ⟨p, effect, rfl⟩ := CountedQueue.settle_ok settled
      exact counting.settle settleable effect

end Moves

/-! ## Exactly once -/

/-- Writes are counted once: no effect contributes twice to a region, every share of an
acknowledged effect was added exactly once, only shares of stored effects were added, and
the counters of a region hold the sum of what was added to it, up to the clamp. -/
structure CountsOnce (sys : DeliverySystem CountedQueue) : Prop where
  once : (sys.counters.added.map Contribution.key).Nodup
  acknowledged : ∀ effectId row, sys.store.ingestEffects.lookup effectId = some row →
    row.acknowledged = true → ∀ delta ∈ row.effect.regionDeltas,
      sys.counters.added.count ⟨effectId, delta⟩ = 1
  owned : ∀ contribution ∈ sys.counters.added, ∃ row,
    sys.store.ingestEffects.lookup contribution.effectId = some row ∧
      contribution.delta ∈ row.effect.regionDeltas
  tallied : Tallied sys.counters.queue.memories sys.counters.queue.edges sys.counters.added

/-- The share that was added under an effect's region is the effect's own. -/
theorem Counting.count_eq_one {sys : DeliverySystem CountedQueue} (delivering : Delivering sys)
    (counting : Counting sys) {row : InMemoryIngestEffect}
    (found : sys.store.ingestEffects.lookup effectId = some row)
    (share : delta ∈ row.effect.regionDeltas) (added : sys.counters.Added effectId delta.region) :
    sys.counters.added.count ⟨effectId, delta⟩ = 1 := by
  obtain ⟨contribution, member, key⟩ := List.mem_map.mp added
  obtain ⟨same, region⟩ := Prod.mk.inj key
  obtain ⟨other, present, own⟩ := counting.owned contribution member
  rw [same, found] at present
  cases present
  have delta_eq : contribution.delta = delta :=
    List.inj_on_of_nodup_map (delivering.stored effectId row found).regions own share region
  have shape : contribution = ⟨effectId, delta⟩ := by
    cases contribution
    cases same
    cases delta_eq
    rfl
  exact List.count_eq_one_of_mem (List.Nodup.of_map _ counting.once) (shape ▸ member)

/-- **Every run counts writes once**, whoever delivers, in whatever order and however
late. -/
theorem run_countsOnce (env : Env) (org : String) (now : DateTime)
    (actions : List (DeliveryAction RecordContext)) :
    CountsOnce (run env distributedCounter (.new (.new org) now) actions) := by
  obtain ⟨delivering, counting⟩ := run_invariant env (counting_new org now)
    (fun sys next delivering moves counting => Counting.moves delivering moves counting) actions
  refine ⟨counting.once, ?_, counting.owned, counting.tallied⟩
  intro effectId row found acknowledged delta share
  obtain ⟨generation, under⟩ :=
    Option.isSome_iff_exists.mp (delivering.closed effectId row found acknowledged)
  have added := counting.complete effectId generation ⟨row, found, acknowledged, under⟩ row found
    delta share
  exact counting.count_eq_one delivering found share added

/-- A worker that delivers again after its effect was acknowledged and settled adds
nothing. -/
example : (run Env.blank distributedCounter (.new (.new "org") 0) [
    .submit ⟨"org", "agent", "b1", ""⟩ (.one 1),
    .claim "t1" 30000, .deliver "t1" 0 true ⟨⟨1000, 5000, 30, 6⟩, "node", 0, "fire"⟩,
    .acknowledge "t1", .settle 0 0,
    .deliver "t1" 0 true ⟨⟨1000, 5000, 30, 6⟩, "node", 0, "fire"⟩]).counters.queue.memories
      ⟨"org", "*", 0⟩ = 1 := by
  decide +kernel

end DeliverySystem

end Exocortex
