import Exocortex.Ingest.Delivery

/-!
# The shared fire queue

The queue that all nodes of an organization share: per region a hash of write counters
and a set of processed effects, and the lists that hold the fires. Each script runs
atomically, so each is one function here.

A delivery under a positive generation counts unless its effect is in the processed set
or its generation is at most the settled one (`alreadyCounted`). Settling raises the
settled generation and forgets the effect. `recordWrite_counts` and `settleWrite_state`
say what the two scripts do to the counters, the set and the settled generation.
-/

namespace Exocortex

open Library

/-- The write counters of a region. -/
structure RegionWriteCounters where
  memoriesSinceLastCycle : ℕ
  edgesSinceLastCycle : ℕ
  secondsSinceLastCycle : ℕ
deriving DecidableEq

/-- When a region is due. -/
structure DreamsTrigger where
  memoryThreshold : ℕ
  edgeThreshold : ℕ
  ageFloorDays : ℕ
  minIntervalHours : ℕ

/-- The region is due: the interval has passed and a threshold is reached. The script of
the shared queue repeats this predicate. -/
def DreamsTrigger.shouldFire (trigger : DreamsTrigger) (c : RegionWriteCounters) : Bool :=
  if c.secondsSinceLastCycle < trigger.minIntervalHours * 3600 then false
  else
    decide (trigger.memoryThreshold ≤ c.memoriesSinceLastCycle) ||
      decide (trigger.edgeThreshold ≤ c.edgesSinceLastCycle) ||
      decide (trigger.ageFloorDays * 86400 ≤ c.secondsSinceLastCycle)

/-- A queued region. -/
structure FireMessage where
  region : RegionKey
  firedBy : String
  firedAt : Option RegionWriteCounters
  fireId : Option String
  quietDeferred : Bool
deriving DecidableEq

/-- What recording a write led to. -/
inductive RecordWriteOutcome where
  | accumulated (counters : RegionWriteCounters)
  | queued (counters : RegionWriteCounters)
  | dropped (counters : RegionWriteCounters)

/-- The hash of a region; a field that was never set is `none`. -/
structure CounterHash where
  memories : Option ℕ
  edges : Option ℕ
  lastSuccess : Option ℕ
  settledGeneration : Option ℕ
  pending : Option String

/-- The lists and keys of an organization's queue. -/
structure RedisFireQueue where
  org : String
  queue : List FireMessage
  deferred : Table FireMessage ℕ
  processing : List FireMessage
  counters : Table RegionKey CounterHash
  processedEvents : Table RegionKey (Finset String)

/-- What a delivery takes from its node: the trigger, the node's name, the clock in
seconds, and a fresh identity for a fire. -/
structure RecordContext where
  trigger : DreamsTrigger
  firedBy : String
  now : ℕ
  fireId : String

/-- The ceiling of the queue. -/
def dreamsQueueMax : ℕ := 1000

namespace RedisFireQueue

def new (org : String) : RedisFireQueue := ⟨org, [], ∅, [], ∅, ∅⟩

def hash (q : RedisFireQueue) (region : RegionKey) : CounterHash :=
  (q.counters.lookup region).getD ⟨none, none, none, none, none⟩

def memories (q : RedisFireQueue) (region : RegionKey) : ℕ := (q.hash region).memories.getD 0

def edges (q : RedisFireQueue) (region : RegionKey) : ℕ := (q.hash region).edges.getD 0

def settledGeneration (q : RedisFireQueue) (region : RegionKey) : ℕ :=
  (q.hash region).settledGeneration.getD 0

def processed (q : RedisFireQueue) (region : RegionKey) : Finset String :=
  Table.members q.processedEvents region

/-- The delivery is fenced off or was counted before. -/
def alreadyCounted (q : RedisFireQueue) (region : RegionKey) (delivery : DeliveryFence) : Bool :=
  decide (0 < delivery.generation) &&
    (decide (delivery.generation ≤ q.settledGeneration region) ||
      decide (delivery.eventId ∈ q.processed region))

def backlog (q : RedisFireQueue) : ℕ :=
  q.queue.length + q.deferred.keys.length + q.processing.length

/-- `RECORD_WRITE_LUA`. -/
def recordWrite (q : RedisFireQueue) (region : RegionKey) (memories edges : ℕ)
    (ctx : RecordContext) (delivery : DeliveryFence) : RecordWriteOutcome × RedisFireQueue :=
  let hash := q.hash region
  if q.alreadyCounted region delivery then
    (.accumulated ⟨q.memories region, q.edges region, 0⟩, q)
  else
    let memories := min counterMax (q.memories region + memories)
    let edges := min counterMax (q.edges region + edges)
    let lastSuccess := hash.lastSuccess.getD ctx.now
    let elapsed := ctx.now - lastSuccess
    let counted := { hash with
      memories := some memories, edges := some edges, lastSuccess := some lastSuccess }
    let recorded := { q with
      counters := q.counters.insert region counted
      processedEvents :=
        if 0 < delivery.generation then
          Table.extend q.processedEvents region {delivery.eventId}
        else q.processedEvents }
    if !ctx.trigger.shouldFire ⟨memories, edges, elapsed⟩ || hash.pending.isSome then
      (.accumulated ⟨memories, edges, 0⟩, recorded)
    else if dreamsQueueMax ≤ q.backlog then (.dropped ⟨memories, edges, 0⟩, recorded)
    else
      (.queued ⟨memories, edges, 0⟩, { recorded with
        counters := q.counters.insert region { counted with pending := some ctx.fireId }
        queue := q.queue ++
          [⟨region, ctx.firedBy, some ⟨memories, edges, elapsed⟩, some ctx.fireId, false⟩] })

/-- `SETTLE_WRITE_LUA`. -/
def settleWrite (q : RedisFireQueue) (region : RegionKey) (eventId : String) (generation : ℕ)
    (retainLegacyIdentity : Bool) : RedisFireQueue :=
  let hash := q.hash region
  { q with
    counters :=
      if q.settledGeneration region < generation then
        q.counters.insert region { hash with settledGeneration := some generation }
      else q.counters
    processedEvents :=
      if retainLegacyIdentity then q.processedEvents
      else q.processedEvents.insert region ((q.processed region).erase eventId) }

/-- A queue serves the regions of its organization. -/
def ensureRegion (q : RedisFireQueue) (region : RegionKey) : Except DeliveryError Unit :=
  if region.org = q.org then .ok () else .error (.otherOrganization q.org region.org)

/-- `on_writes_once` with a queue, down to the script. -/
def onWritesOnce (q : RedisFireQueue) (region : RegionKey) (memories edges : ℕ)
    (ctx : RecordContext) (delivery : DeliveryFence) :
    Except DeliveryError (RecordWriteOutcome × RedisFireQueue) := do
  if delivery.eventId.isEmpty then throw .emptyEventId
  if delivery.generation = 0 then throw .zeroGeneration
  q.ensureRegion region
  return q.recordWrite region memories edges ctx delivery

/-- `settle_writes_once` with a queue, for one region. -/
def settleWritesOnce (q : RedisFireQueue) (region : RegionKey) (delivery : DeliveryFence)
    (retainLegacyIdentity : Bool) : Except DeliveryError RedisFireQueue := do
  if delivery.eventId.isEmpty then throw .emptyEventId
  q.ensureRegion region
  if delivery.generation = 0 then throw .zeroGeneration
  return q.settleWrite region delivery.eventId delivery.generation retainLegacyIdentity

/-! ## What the scripts do -/

variable (q : RedisFireQueue) (region other : RegionKey)

theorem alreadyCounted_iff (delivery : DeliveryFence) :
    q.alreadyCounted region delivery = true ↔ 0 < delivery.generation ∧
      (delivery.generation ≤ q.settledGeneration region ∨
        delivery.eventId ∈ q.processed region) := by
  simp [alreadyCounted]

variable {p : RedisFireQueue} {delivery : DeliveryFence}

theorem hash_insert (hash : CounterHash) (counters : p.counters = q.counters.insert region hash) :
    p.hash other = if other = region then hash else q.hash other := by
  rw [RedisFireQueue.hash, counters, Table.lookup_insert_eq]
  split
  · rfl
  · rfl

/-- What a write that counts leaves behind. -/
structure Recorded (q : RedisFireQueue) (region : RegionKey) (memories edges : ℕ)
    (delivery : DeliveryFence) (p : RedisFireQueue) : Prop where
  org : p.org = q.org
  memories : ∀ other, p.memories other =
    if other = region then min counterMax (q.memories region + memories) else q.memories other
  edges : ∀ other, p.edges other =
    if other = region then min counterMax (q.edges region + edges) else q.edges other
  settledGeneration : ∀ other, p.settledGeneration other = q.settledGeneration other
  processed : 0 < delivery.generation → ∀ other eventId, eventId ∈ p.processed other ↔
    eventId ∈ q.processed other ∨ other = region ∧ eventId = delivery.eventId

/-- A queue whose hash and set of a region were updated as the script updates them. -/
theorem recorded_of_fields {memories edges : ℕ} {hash : CounterHash} (org : p.org = q.org)
    (counters : p.counters = q.counters.insert region hash)
    (memory : hash.memories = some (min counterMax (q.memories region + memories)))
    (edge : hash.edges = some (min counterMax (q.edges region + edges)))
    (settled : hash.settledGeneration = (q.hash region).settledGeneration)
    (events : p.processedEvents =
      if 0 < delivery.generation then Table.extend q.processedEvents region {delivery.eventId}
      else q.processedEvents) : Recorded q region memories edges delivery p := by
  refine ⟨org, ?_, ?_, ?_, ?_⟩
  · intro other
    rw [RedisFireQueue.memories, hash_insert q region other hash counters]
    split
    · rw [memory]
      rfl
    · rfl
  · intro other
    rw [RedisFireQueue.edges, hash_insert q region other hash counters]
    split
    · rw [edge]
      rfl
    · rfl
  · intro other
    rw [RedisFireQueue.settledGeneration, hash_insert q region other hash counters]
    split
    · next same => rw [settled, same, RedisFireQueue.settledGeneration]
    · rfl
  · intro positive other eventId
    rw [processed, events, if_pos positive, Table.members_extend]
    by_cases same : other = region
    · subst same
      simp [processed, or_comm]
    · simp [processed, same]

/-- A write counts exactly when it was not counted already; the other branches of the
script only decide whether a fire is queued. -/
theorem recordWrite_counts (memories edges : ℕ) (ctx : RecordContext) (delivery : DeliveryFence) :
    (q.alreadyCounted region delivery = true ∧
      (q.recordWrite region memories edges ctx delivery).2 = q) ∨
    (q.alreadyCounted region delivery = false ∧
      Recorded q region memories edges delivery
        (q.recordWrite region memories edges ctx delivery).2) := by
  cases counted : q.alreadyCounted region delivery with
  | true => exact .inl ⟨rfl, by simp [recordWrite, counted]⟩
  | false =>
      refine .inr ⟨rfl, ?_⟩
      simp only [recordWrite, counted]
      split
      · contradiction
      · split
        · exact recorded_of_fields q region rfl rfl rfl rfl rfl rfl
        · split
          · exact recorded_of_fields q region rfl rfl rfl rfl rfl rfl
          · exact recorded_of_fields q region rfl rfl rfl rfl rfl rfl

/-- What settling leaves behind. -/
structure Settled (q : RedisFireQueue) (region : RegionKey) (eventId : String) (generation : ℕ)
    (p : RedisFireQueue) : Prop where
  org : p.org = q.org
  memories : ∀ other, p.memories other = q.memories other
  edges : ∀ other, p.edges other = q.edges other
  settledGeneration : ∀ other, p.settledGeneration other =
    if other = region then max (q.settledGeneration region) generation
    else q.settledGeneration other
  shrinks : ∀ other, p.processed other ⊆ q.processed other
  keeps : ∀ other kept, kept ∈ q.processed other → ¬ (other = region ∧ kept = eventId) →
    kept ∈ p.processed other

theorem settleWrite_settled (eventId : String) (generation : ℕ) (retain : Bool) :
    Settled q region eventId generation (q.settleWrite region eventId generation retain) := by
  have hash : ∀ other, (q.settleWrite region eventId generation retain).hash other =
      if other = region then { q.hash region with
        settledGeneration :=
          if q.settledGeneration region < generation then some generation
          else (q.hash region).settledGeneration }
      else q.hash other := by
    intro other
    by_cases raised : q.settledGeneration region < generation
    · have counters : (q.settleWrite region eventId generation retain).counters =
          q.counters.insert region { q.hash region with settledGeneration := some generation } := by
        simp only [settleWrite, if_pos raised]
      rw [hash_insert q region other _ counters, if_pos raised]
    · have same : (q.settleWrite region eventId generation retain).hash other = q.hash other := by
        simp only [settleWrite, if_neg raised, RedisFireQueue.hash]
      rw [same, if_neg raised]
      split
      · next equal => rw [equal]
      · rfl
  have set : ∀ other, (q.settleWrite region eventId generation retain).processed other =
      if other = region ∧ retain = false then (q.processed region).erase eventId
      else q.processed other := by
    intro other
    cases retain with
    | true => simp [settleWrite, processed]
    | false =>
        by_cases same : other = region
        · subst same
          simp [settleWrite, processed, Table.members]
        · simp [settleWrite, processed, Table.members, AList.lookup_insert_ne same, same]
  refine ⟨rfl, ?_, ?_, ?_, ?_, ?_⟩
  · intro other
    rw [RedisFireQueue.memories, hash]
    split
    · next same => rw [same, RedisFireQueue.memories]
    · rfl
  · intro other
    rw [RedisFireQueue.edges, hash]
    split
    · next same => rw [same, RedisFireQueue.edges]
    · rfl
  · intro other
    rw [RedisFireQueue.settledGeneration, hash]
    split
    · next same =>
        split
        · next raised => exact (max_eq_right raised.le).symm
        · next kept => exact (max_eq_left (not_lt.mp kept)).symm
    · rfl
  · intro other
    rw [set]
    split
    · next same => exact same.1 ▸ Finset.erase_subset _ _
    · exact Finset.Subset.refl _
  · intro other kept member apart
    rw [set]
    split
    · next same =>
        refine Finset.mem_erase.mpr ⟨?_, same.1 ▸ member⟩
        exact fun equal => apart ⟨same.1, equal⟩
    · exact member

/-- A delivery that is let through runs the script under a positive generation. -/
theorem onWritesOnce_ok {memories edges : ℕ} {ctx : RecordContext}
    {result : RecordWriteOutcome × RedisFireQueue}
    (accepted : q.onWritesOnce region memories edges ctx delivery = .ok result) :
    0 < delivery.generation ∧ result = q.recordWrite region memories edges ctx delivery := by
  simp only [onWritesOnce, ensureRegion] at accepted
  split at accepted
  · cases accepted
  · split at accepted
    · cases accepted
    · next nonzero =>
        split at accepted
        · cases accepted
          exact ⟨Nat.pos_of_ne_zero nonzero, rfl⟩
        · cases accepted

/-- A settlement that is let through runs the script. -/
theorem settleWritesOnce_ok {retain : Bool}
    (accepted : q.settleWritesOnce region delivery retain = .ok p) :
    p = q.settleWrite region delivery.eventId delivery.generation retain := by
  simp only [settleWritesOnce, ensureRegion] at accepted
  split at accepted
  · cases accepted
  · split at accepted
    · simp only [bind, Except.bind] at accepted
      split at accepted
      · cases accepted
      · cases accepted
        rfl
    · cases accepted

end RedisFireQueue

end Exocortex
