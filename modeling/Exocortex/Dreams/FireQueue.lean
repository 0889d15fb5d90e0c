import Exocortex.Library.TokenLedger
import Exocortex.Dreams.Fire

/-!
# Draining and acknowledging fires

An owner promotes the fires that were put off, moves the first of the queue to the list of
those in progress, and puts it off once during quiet hours or hands it to the engine. The
engine acknowledges the notification when its cycle is over; a new owner moves everything
in progress back to the queue.

Each script is one step of the system, so a drain of one owner is interleaved with
everything else (`drain_eq_steps` puts the three steps of a drain together). Owners die at
any point: what they held is never acknowledged, or it is acknowledged late, or more than
once after a lost reply.

The counters are accounts and a fire is a ticket of `TokenLedger`: recording deposits,
firing issues a token, a successful acknowledgement settles, and a failed one that finds
the queue full gives the token up. Every step is such a sequence of moves
(`FireSystem.step_moves`), so the counters and what was subtracted from them add up to what
was recorded.

A payload leaves the list of those in progress only while its token is pending, and one
copy at a time. After a recovery two owners hold one payload: the second acknowledgement
finds the token gone and leaves the second copy in the list.
-/

namespace Exocortex

open Library

/-- What an explicit fire led to. -/
inductive FireOutcome where
  | queued
  | dropped
deriving DecidableEq

/-- A drained fire with the list member that it was read from. The payload of a fire is its
text, which determines the fire, so that a member stands for its text here. -/
structure Notification where
  message : FireMessage
  queuedPayload : Option FireMessage
deriving DecidableEq

/-- What acknowledging a notification led to. -/
inductive AcknowledgeOutcome where
  | stale
  | acknowledged (counters : RegionWriteCounters)
  | requeued (counters : RegionWriteCounters)
  | dropped (counters : RegionWriteCounters)
deriving DecidableEq

/-- What draining led to. -/
inductive DrainResult where
  | timedOut
  | ready (notification : Notification)
  | deferred
deriving DecidableEq

/-- The hours in which cycles are put off while there is other work, at a fixed offset. -/
structure QuietHours where
  startHour : ℕ
  endHour : ℕ
  enabled : Bool
  utcOffsetMinutes : ℤ

/-- Quiet hours put off only while the backlog is shorter than this. -/
def quietHoursBacklogMin : ℕ := 32

namespace QuietHours

def none : QuietHours := ⟨2, 6, false, 0⟩

def contains (quiet : QuietHours) (localHour : ℕ) : Bool :=
  if !quiet.enabled then false
  else if quiet.startHour ≤ quiet.endHour then
    decide (quiet.startHour ≤ localHour) && decide (localHour < quiet.endHour)
  else
    -- The window wraps midnight.
    decide (quiet.startHour ≤ localHour) || decide (localHour < quiet.endHour)

/-- The hour of a time in seconds. -/
def currentHour (quiet : QuietHours) (clock : ℕ) : ℕ :=
  (((clock : ℤ) + quiet.utcOffsetMinutes * 60) / 3600 % 24).toNat

def shouldReorder (quiet : QuietHours) (localHour otherWork : ℕ) : Bool :=
  quiet.contains localHour && decide (0 < otherWork) &&
    decide (otherWork + 1 < quietHoursBacklogMin)

end QuietHours

namespace RedisFireQueue

/-- `record_write_once_inner`. -/
def recordWriteOnceInner (q : RedisFireQueue) (region : RegionKey) (memories edges : ℕ)
    (ctx : RecordContext) (delivery : DeliveryFence) :
    Except DeliveryError (RecordWriteOutcome × RedisFireQueue) := do
  q.ensureRegion region
  if delivery.eventId.isEmpty then throw .emptyEventId
  return q.recordWrite region memories edges ctx delivery

def forgetWriteOnce (q : RedisFireQueue) (region : RegionKey) (eventId : String)
    (deliveryGeneration : ℕ) (retainLegacyIdentity : Bool) :
    Except DeliveryError RedisFireQueue := do
  q.ensureRegion region
  if eventId.isEmpty then throw .emptyEventId
  if deliveryGeneration = 0 then throw .zeroGeneration
  return q.settleWrite region eventId deliveryGeneration retainLegacyIdentity

/-- An explicit fire, with `ENQUEUE_BOUNDED_LUA`; it owns no snapshot of the counters. -/
def fire (q : RedisFireQueue) (region : RegionKey) (firedBy fireId : String) :
    Except DeliveryError (FireOutcome × RedisFireQueue) := do
  q.ensureRegion region
  if dreamsQueueMax ≤ q.backlog then return (.dropped, q)
  return (.queued, { q with queue := q.queue ++ [⟨region, firedBy, none, some fireId, false⟩] })

/-- `ACKNOWLEDGE_LUA`. A failed cycle keeps its snapshot and its counters. -/
def acknowledgeScript (q : RedisFireQueue) (region : RegionKey) (fireId : String)
    (success : Bool) (firedAt : RegionWriteCounters) (payload : FireMessage)
    (retryFireId : String) (ctx : RecordContext) : AcknowledgeOutcome × RedisFireQueue :=
  let hash := q.hash region
  if hash.pending ≠ some fireId then (.stale, q)
  else
    let settled : CounterHash :=
      if success then { hash with
        memories := some (q.memories region - firedAt.memoriesSinceLastCycle)
        edges := some (q.edges region - firedAt.edgesSinceLastCycle)
        lastSuccess := some ctx.now
        pending := none }
      else { hash with pending := none }
    let memories := settled.memories.getD 0
    let edges := settled.edges.getD 0
    let elapsed := ctx.now - settled.lastSuccess.getD ctx.now
    let retry := !success || ctx.trigger.shouldFire ⟨memories, edges, elapsed⟩
    let retryAt : RegionWriteCounters :=
      if success then ⟨memories, edges, elapsed⟩
      else { firedAt with secondsSinceLastCycle := elapsed }
    let cleared := { q with
      processing := q.processing.erase payload
      counters := q.counters.insert region settled }
    if !retry then (.acknowledged ⟨memories, edges, 0⟩, cleared)
    else if dreamsQueueMax ≤ cleared.backlog then (.dropped ⟨memories, edges, 0⟩, cleared)
    else
      (.requeued ⟨memories, edges, 0⟩, { cleared with
        counters := q.counters.insert region { settled with pending := some retryFireId }
        queue := q.queue ++ [⟨region, ctx.firedBy, some retryAt, some retryFireId, false⟩] })

/-- A fire without a snapshot only leaves the list of those in progress. The identity of a
retry is fresh after a success; a failure may hide a success, so its retry keeps the identity. -/
def acknowledge (q : RedisFireQueue) (notification : Notification) (success : Bool)
    (ctx : RecordContext) : Except DeliveryError (AcknowledgeOutcome × RedisFireQueue) := do
  q.ensureRegion notification.message.region
  match notification.message.firedAt, notification.message.fireId,
      notification.queuedPayload with
  | none, _, none => return (.stale, q)
  | none, _, some payload =>
      if payload ∈ q.processing then
        return (.acknowledged ⟨0, 0, 0⟩, { q with processing := q.processing.erase payload })
      return (.stale, q)
  | some firedAt, some fireId, some payload =>
      let retryFireId := if success then ctx.fireId else fireId
      return q.acknowledgeScript notification.message.region fireId success firedAt payload
        retryFireId ctx
  | some _, _, _ => return (.stale, q)

/-- The fires that are due, by time and then by text, at most as many as the queue holds. -/
def dueDeferred (q : RedisFireQueue) (textLe : FireMessage → FireMessage → Bool) (now : ℕ) :
    List FireMessage :=
  let due := q.deferred.entries.filter fun entry => decide (entry.2 ≤ now)
  let sorted := due.mergeSort fun first second =>
    decide (first.2 < second.2) || (decide (first.2 = second.2) && textLe first.1 second.1)
  (sorted.map (·.1)).take dreamsQueueMax

def promoteEach (q : RedisFireQueue) : List FireMessage → RedisFireQueue
  | [] => q
  | payload :: due =>
      if dreamsQueueMax ≤ q.queue.length then q
      else if payload ∈ q.deferred then
        promoteEach { q with
          deferred := q.deferred.erase payload
          queue := q.queue ++ [payload] } due
      else promoteEach q due

/-- `PROMOTE_DEFERRED_LUA`. -/
def promoteDeferred (q : RedisFireQueue) (textLe : FireMessage → FireMessage → Bool)
    (now : ℕ) : RedisFireQueue :=
  q.promoteEach (q.dueDeferred textLe now)

/-- `BLMOVE` from the head of the queue to the list of those in progress. -/
def moveNext (q : RedisFireQueue) : Option (FireMessage × RedisFireQueue) :=
  match q.queue with
  | [] => none
  | payload :: queue =>
      some (payload, { q with queue := queue, processing := q.processing ++ [payload] })

/-- Work that can go before a fire in progress. -/
def reorderableBacklogLen (q : RedisFireQueue) : ℕ := q.queue.length + q.deferred.keys.length

/-- `DEFER_LUA`: the marked fire replaces the payload. -/
def defer (q : RedisFireQueue) (now : ℕ) (payload deferred : FireMessage) : RedisFireQueue :=
  { q with
    processing := q.processing.erase payload
    deferred := q.deferred.insert deferred now }

/-- The part of `drain` after a payload was moved: it is put off once, or handed over. -/
def dispatch (q : RedisFireQueue) (quiet : QuietHours) (now clock otherWork : ℕ)
    (payload : FireMessage) : Except DeliveryError (DrainResult × RedisFireQueue) := do
  q.ensureRegion payload.region
  if !payload.quietDeferred && quiet.shouldReorder (quiet.currentHour clock) otherWork then
    return (.deferred, q.defer now payload { payload with quietDeferred := true })
  return (.ready ⟨payload, some payload⟩, q)

/-- A drain that nothing interrupts; a payload of another organization stays in progress. -/
def drain (q : RedisFireQueue) (quiet : QuietHours) (textLe : FireMessage → FireMessage → Bool)
    (now clock : ℕ) : Except DeliveryError DrainResult × RedisFireQueue :=
  let promoted := q.promoteDeferred textLe now
  match promoted.moveNext with
  | none => (.ok .timedOut, promoted)
  | some (payload, moved) =>
      match moved.dispatch quiet now clock moved.reorderableBacklogLen payload with
      | .error error => (.error error, moved)
      | .ok (result, next) => (.ok result, next)

/-- `RECOVER_INFLIGHT_LUA`. -/
def recoverInflight (q : RedisFireQueue) : ℕ × RedisFireQueue :=
  (q.processing.length, { q with queue := q.queue ++ q.processing, processing := [] })

end RedisFireQueue

/-- The fire that a message stands for: the token, and the snapshot it owns. -/
def FireMessage.ticket (message : FireMessage) : Option (Ticket RegionKey String (ℕ × ℕ)) :=
  match message.firedAt, message.fireId with
  | some firedAt, some fireId =>
      some ⟨message.region, fireId, firedAt.memoriesSinceLastCycle, firedAt.edgesSinceLastCycle⟩
  | _, _ => none

variable {ctx : RecordContext} {payload message : FireMessage} {quiet : QuietHours}
  {delivery : DeliveryFence} {fireId : String} {success : Bool}
  {now clock otherWork memories edges : ℕ}

variable {result : DrainResult}

namespace RedisFireQueue

/-! ## What the scripts do -/

variable (q : RedisFireQueue) {region : RegionKey} {p : RedisFireQueue}

/-- A write that counts, and the fire it may add to the queue. -/
structure RecordsOrFires (q : RedisFireQueue) (region : RegionKey) (newMemories newEdges : ℕ)
    (ctx : RecordContext) (p : RedisFireQueue) (hash : CounterHash) : Prop where
  counters : p.counters = q.counters.insert region hash
  memories : hash.memories = some (min counterMax (q.memories region + newMemories))
  edges : hash.edges = some (min counterMax (q.edges region + newEdges))
  deferred : p.deferred = q.deferred
  processing : p.processing = q.processing
  fires : (hash.pending = (q.hash region).pending ∧ p.queue = q.queue) ∨
    (hash.pending = some ctx.fireId ∧ ∃ message : FireMessage,
      message.region = region ∧ message.fireId = some ctx.fireId ∧
      (∃ elapsed, message.firedAt = some ⟨min counterMax (q.memories region + newMemories),
        min counterMax (q.edges region + newEdges), elapsed⟩) ∧ p.queue = q.queue ++ [message])

theorem recordWrite_recordsOrFires (memories edges : ℕ) (ctx : RecordContext)
    (delivery : DeliveryFence) (counts : q.alreadyCounted region delivery = false) :
    ∃ hash, RecordsOrFires q region memories edges ctx
      (q.recordWrite region memories edges ctx delivery).2 hash := by
  simp only [recordWrite, counts]
  split
  · contradiction
  · split
    · exact ⟨_, rfl, rfl, rfl, rfl, rfl, .inl ⟨rfl, rfl⟩⟩
    · split
      · exact ⟨_, rfl, rfl, rfl, rfl, rfl, .inl ⟨rfl, rfl⟩⟩
      · exact ⟨_, rfl, rfl, rfl, rfl, rfl, .inr ⟨rfl, _, rfl, rfl, ⟨_, rfl⟩, rfl⟩⟩

theorem recordWriteOnceInner_ok {result : RecordWriteOutcome × RedisFireQueue}
    (accepted : q.recordWriteOnceInner region memories edges ctx delivery = .ok result) :
    result = q.recordWrite region memories edges ctx delivery := by
  simp only [recordWriteOnceInner, ensureRegion] at accepted
  split at accepted
  · simp only [bind, Except.bind] at accepted
    split at accepted
    · cases accepted
    · cases accepted
      rfl
  · cases accepted

theorem forgetWriteOnce_ok {eventId : String} {generation : ℕ} {retain : Bool}
    (accepted : q.forgetWriteOnce region eventId generation retain = .ok p) :
    p = q.settleWrite region eventId generation retain := by
  simp only [forgetWriteOnce, ensureRegion] at accepted
  split at accepted
  · simp only [bind, Except.bind] at accepted
    split at accepted
    · cases accepted
    · split at accepted
      · cases accepted
      · cases accepted
        rfl
  · cases accepted

theorem settleWrite_pending (region : RegionKey) (eventId : String) (generation : ℕ)
    (retain : Bool) (other : RegionKey) :
    ((q.settleWrite region eventId generation retain).hash other).pending =
      (q.hash other).pending := by
  by_cases raised : q.settledGeneration region < generation
  · have counters : (q.settleWrite region eventId generation retain).counters =
        q.counters.insert region { q.hash region with settledGeneration := some generation } := by
      simp only [settleWrite, if_pos raised]
    rw [hash_insert q region other _ counters]
    split
    · next same => rw [same]
    · rfl
  · simp only [settleWrite, if_neg raised, RedisFireQueue.hash]

/-- An explicit fire adds at most a message without a snapshot. -/
theorem fire_ok {firedBy : String} {outcome : FireOutcome}
    (accepted : q.fire region firedBy fireId = .ok (outcome, p)) :
    p = q ∨ p = { q with queue := q.queue ++ [⟨region, firedBy, none, some fireId, false⟩] } := by
  simp only [fire, ensureRegion] at accepted
  split at accepted
  · simp only [bind, Except.bind] at accepted
    split at accepted
    · cases accepted
      exact .inl rfl
    · cases accepted
      exact .inr rfl
  · cases accepted

/-- Promoting moves fires from one list to another. -/
theorem promoteEach_moves (due : List FireMessage) :
    ∃ queue deferred, q.promoteEach due = { q with queue := queue, deferred := deferred } ∧
      ∀ message, message ∈ queue ∨ message ∈ deferred →
        message ∈ q.queue ∨ message ∈ q.deferred := by
  induction due generalizing q with
  | nil => exact ⟨q.queue, q.deferred, rfl, fun message member => member⟩
  | cons payload due ih =>
      rw [promoteEach]
      split
      · exact ⟨q.queue, q.deferred, rfl, fun message member => member⟩
      · split
        · next due =>
            obtain ⟨queue, deferred, equal, old⟩ := ih { q with
              deferred := q.deferred.erase payload
              queue := q.queue ++ [payload] }
            refine ⟨queue, deferred, equal, ?_⟩
            intro message member
            rcases old message member with queued | waiting
            · rcases List.mem_append.mp queued with queued | moved
              · exact .inl queued
              · exact .inr (List.mem_singleton.mp moved ▸ due)
            · exact .inr (AList.mem_erase.mp waiting).2
        · exact ih q

theorem moveNext_some (moved : q.moveNext = some (payload, p)) :
    ∃ queue, q.queue = payload :: queue ∧
      p = { q with queue := queue, processing := q.processing ++ [payload] } := by
  simp only [moveNext] at moved
  split at moved
  · cases moved
  · next head queue equal =>
      cases moved
      exact ⟨queue, equal, rfl⟩

/-- A dispatched payload is put off or handed over as it is. -/
theorem dispatch_ok (accepted : q.dispatch quiet now clock otherWork payload = .ok (result, p)) :
    (result = .deferred ∧ p = q.defer now payload { payload with quietDeferred := true }) ∨
      (result = .ready ⟨payload, some payload⟩ ∧ p = q) := by
  simp only [dispatch, ensureRegion] at accepted
  split at accepted
  · simp only [bind, Except.bind] at accepted
    split at accepted
    · cases accepted
      exact .inl ⟨rfl, rfl⟩
    · cases accepted
      exact .inr ⟨rfl, rfl⟩
  · cases accepted

/-- A script that found its token: the payload leaves the list, a success subtracts the
snapshot, and a retry is queued under a token of its own or under the old one. -/
structure Settles (q : RedisFireQueue) (message : FireMessage) (fireId : String)
    (success : Bool) (ctx : RecordContext) (p : RedisFireQueue) (hash : CounterHash)
    (snapshot : ℕ × ℕ) : Prop where
  stands : message.ticket = some ⟨message.region, fireId, snapshot⟩
  pending : (q.hash message.region).pending = some fireId
  counters : p.counters = q.counters.insert message.region hash
  balance : (hash.memories.getD 0, hash.edges.getD 0) =
    if success then (q.memories message.region, q.edges message.region) - snapshot
    else (q.memories message.region, q.edges message.region)
  deferred : p.deferred = q.deferred
  processing : ∀ message ∈ p.processing, message ∈ q.processing
  retries : (hash.pending = none ∧ p.queue = q.queue) ∨
    (hash.pending = some (if success then ctx.fireId else fireId) ∧ ∃ retry : FireMessage,
      retry.ticket = some ⟨message.region, if success then ctx.fireId else fireId,
        if success then (hash.memories.getD 0, hash.edges.getD 0) else snapshot⟩ ∧
      p.queue = q.queue ++ [retry])

theorem acknowledgeScript_cases {firedAt : RegionWriteCounters} (payload : FireMessage)
    (ctx : RecordContext) (identity : message.fireId = some fireId)
    (snapshot : message.firedAt = some firedAt) {result : AcknowledgeOutcome × RedisFireQueue}
    (equal : q.acknowledgeScript message.region fireId success firedAt payload
      (if success then ctx.fireId else fireId) ctx = result) :
    ((q.hash message.region).pending ≠ some fireId ∧ result = (.stale, q)) ∨
    ((q.hash message.region).pending = some fireId ∧ result.1 ≠ .stale ∧
      result.2.processing = q.processing.erase payload ∧
      ∃ hash, Settles q message fireId success ctx result.2 hash
        (firedAt.memoriesSinceLastCycle, firedAt.edgesSinceLastCycle)) := by
  have stands : message.ticket = some ⟨message.region, fireId,
      firedAt.memoriesSinceLastCycle, firedAt.edgesSinceLastCycle⟩ := by
    simp only [FireMessage.ticket, identity, snapshot]
  have fewer : ∀ message ∈ q.processing.erase payload, message ∈ q.processing :=
    fun message member => List.mem_of_mem_erase member
  simp only [acknowledgeScript] at equal
  split at equal
  · next stale => exact .inl ⟨stale, equal.symm⟩
  · next pending =>
      have pending := not_not.mp pending
      refine .inr ⟨pending, ?_⟩
      -- Success and failure write different hashes; the counters and the list go alike.
      cases success
      all_goals
        simp only [if_true, Bool.false_eq_true, if_false] at equal
        split at equal
        · subst equal
          exact ⟨nofun, rfl, _, stands, pending, rfl, rfl, rfl, fewer, .inl ⟨rfl, rfl⟩⟩
        · split at equal
          · subst equal
            exact ⟨nofun, rfl, _, stands, pending, rfl, rfl, rfl, fewer, .inl ⟨rfl, rfl⟩⟩
          · subst equal
            exact ⟨nofun, rfl, _, stands, pending, rfl, rfl, rfl, fewer, .inr ⟨rfl, _, rfl, rfl⟩⟩

/-- The acknowledgement takes the payload out of the list: the fire owns no snapshot, or its
token is pending. -/
def releases (q : RedisFireQueue) (message : FireMessage) : Bool :=
  message.firedAt.isNone ||
    (message.fireId.isSome && decide ((q.hash message.region).pending = message.fireId))

variable {notification : Notification} {success : Bool} {ctx : RecordContext}
  {outcome : AcknowledgeOutcome}

/-- What an acknowledgement does to the counters and to the queue. -/
theorem acknowledge_cases (accepted : q.acknowledge notification success ctx = .ok (outcome, p)) :
    (outcome = .stale ∧ p = q) ∨
    (notification.message.ticket = none ∧ ∃ payload,
      p = { q with processing := q.processing.erase payload }) ∨
    (outcome ≠ .stale ∧ ∃ fireId hash snapshot,
      Settles q notification.message fireId success ctx p hash snapshot) := by
  simp only [acknowledge, ensureRegion] at accepted
  split at accepted
  · simp only [bind, Except.bind] at accepted
    split at accepted
    · cases accepted
      exact .inl ⟨rfl, rfl⟩
    · next payload _ _ _ legacy _ =>
        split at accepted
        · cases accepted
          refine .inr (.inl ⟨?_, _, rfl⟩)
          simp only [FireMessage.ticket, legacy]
        · cases accepted
          exact .inl ⟨rfl, rfl⟩
    · next firedAt fireId payload snapshot identity _ =>
        rcases q.acknowledgeScript_cases payload ctx identity snapshot (Except.ok.inj accepted)
          with ⟨_, stale⟩ | ⟨_, ran, _, hash, settles⟩
        · cases stale
          exact .inl ⟨rfl, rfl⟩
        · exact .inr (.inr ⟨ran, fireId, hash, _, settles⟩)
    · cases accepted
      exact .inl ⟨rfl, rfl⟩
  · cases accepted

/-- What an acknowledgement does to the list of those in progress. -/
theorem acknowledge_processing
    (accepted : q.acknowledge notification success ctx = .ok (outcome, p))
    (queued : notification.queuedPayload = some payload) :
    p.processing =
      if q.releases notification.message then q.processing.erase payload else q.processing := by
  simp only [acknowledge, ensureRegion, queued] at accepted
  split at accepted
  · simp only [bind, Except.bind] at accepted
    split at accepted
    · next none => cases none
    · next payload' _ _ _ legacy same =>
        cases same
        rw [if_pos (by simp [releases, legacy])]
        split at accepted
        · cases accepted
          rfl
        · next absent =>
            cases accepted
            exact (List.erase_of_not_mem absent).symm
    · next firedAt fireId _ snapshot identity same =>
        cases same
        rcases q.acknowledgeScript_cases payload ctx identity snapshot (Except.ok.inj accepted)
          with ⟨absent, stale⟩ | ⟨pending, _, erased, _⟩
        · cases stale
          rw [if_neg (by simp [releases, snapshot, identity, absent])]
        · rw [if_pos (by simp [releases, identity, pending])]
          exact erased
    · next snapshot rest =>
        cases accepted
        cases identity : notification.message.fireId with
        | none => rw [if_neg (by simp [releases, snapshot, identity])]
        | some fireId => exact (rest fireId payload identity rfl).elim
  · cases accepted

/-- **When an acknowledgement leaves no copy of its payload in progress.** -/
theorem acknowledge_clears_iff
    (accepted : q.acknowledge notification success ctx = .ok (outcome, p))
    (queued : notification.queuedPayload = some payload) :
    payload ∉ p.processing ↔
      q.processing.count payload ≤ if q.releases notification.message then 1 else 0 := by
  rw [q.acknowledge_processing accepted queued, ← List.count_eq_zero]
  split
  · rw [List.count_erase_self]
    omega
  · exact Nat.le_zero.symm

end RedisFireQueue

/-! ## The system -/

/-- A write that was counted: what it said, and by how much the counters grew. -/
structure RecordedWrite where
  region : RegionKey
  delta : ℕ × ℕ
  added : ℕ × ℕ

/-- The queue with the payloads that drains are holding and the notifications that were
handed over. The rest is history: the writes that were counted, the snapshots that were
subtracted, and the identities that were drawn. -/
structure FireSystem where
  q : RedisFireQueue
  hands : List FireMessage
  ready : List Notification
  recorded : List RecordedWrite
  subtracted : List (Ticket RegionKey String (ℕ × ℕ))
  issued : Finset String

/-- A script, with what it takes from its caller. The backlog that a drain saw is from some
earlier time. -/
inductive FireAction where
  | record (region : RegionKey) (memories edges : ℕ) (ctx : RecordContext)
      (delivery : DeliveryFence)
  | forget (region : RegionKey) (eventId : String) (generation : ℕ) (retain : Bool)
  | fire (region : RegionKey) (firedBy fireId : String)
  | promote (textLe : FireMessage → FireMessage → Bool) (now : ℕ)
  | move
  | dispatch (payload : FireMessage) (quiet : QuietHours) (now clock otherWork : ℕ)
  | acknowledge (notification : Notification) (success : Bool) (ctx : RecordContext)
  | recover

namespace FireSystem

def start (org : String) : FireSystem := ⟨.new org, [], [], [], [], ∅⟩

/-- The write is counted in full, up to the largest value of a counter. -/
def recordStep (s : FireSystem) (region : RegionKey) (memories edges : ℕ) (ctx : RecordContext)
    (delivery : DeliveryFence) : FireSystem :=
  match s.q.recordWriteOnceInner region memories edges ctx delivery with
  | .error _ => s
  | .ok (_, q) => { s with
      q := q
      recorded :=
        if s.q.alreadyCounted region delivery then s.recorded
        else s.recorded ++ [⟨region, (memories, edges),
          (q.memories region - s.q.memories region, q.edges region - s.q.edges region)⟩]
      issued := insert ctx.fireId s.issued }

def acknowledgeStep (s : FireSystem) (notification : Notification) (success : Bool)
    (ctx : RecordContext) : FireSystem :=
  match s.q.acknowledge notification success ctx with
  | .error _ => s
  | .ok (outcome, q) => { s with
      q := q
      subtracted :=
        if success && decide (outcome ≠ .stale) then
          notification.message.ticket.toList ++ s.subtracted
        else s.subtracted
      issued := insert ctx.fireId s.issued }

def dispatchStep (s : FireSystem) (payload : FireMessage) (quiet : QuietHours)
    (now clock otherWork : ℕ) : FireSystem :=
  match s.q.dispatch quiet now clock otherWork payload with
  | .error _ => { s with hands := s.hands.erase payload }
  | .ok (.ready notification, q) =>
      { s with q := q, hands := s.hands.erase payload, ready := s.ready ++ [notification] }
  | .ok (_, q) => { s with q := q, hands := s.hands.erase payload }

def step (s : FireSystem) : FireAction → FireSystem
  | .record region memories edges ctx delivery => s.recordStep region memories edges ctx delivery
  | .forget region eventId generation retain =>
      match s.q.forgetWriteOnce region eventId generation retain with
      | .error _ => s
      | .ok q => { s with q := q }
  | .fire region firedBy fireId =>
      match s.q.fire region firedBy fireId with
      | .error _ => s
      | .ok (_, q) => { s with q := q, issued := insert fireId s.issued }
  | .promote textLe now => { s with q := s.q.promoteDeferred textLe now }
  | .move =>
      match s.q.moveNext with
      | none => s
      | some (payload, q) => { s with q := q, hands := s.hands ++ [payload] }
  | .dispatch payload quiet now clock otherWork => s.dispatchStep payload quiet now clock otherWork
  | .acknowledge notification success ctx => s.acknowledgeStep notification success ctx
  | .recover => { s with q := s.q.recoverInflight.2 }

/-- Identities are drawn fresh; a drain goes on with a payload it moved, and only what was
handed over is acknowledged. -/
def allowed (s : FireSystem) : FireAction → Prop
  | .record _ _ _ ctx _ => ctx.fireId ∉ s.issued
  | .fire _ _ fireId => fireId ∉ s.issued
  | .dispatch payload _ _ _ _ => payload ∈ s.hands
  | .acknowledge notification _ ctx => notification ∈ s.ready ∧ ctx.fireId ∉ s.issued
  | _ => True

instance (s : FireSystem) : (action : FireAction) → Decidable (s.allowed action)
  | .record _ _ _ ctx _ => inferInstanceAs (Decidable (ctx.fireId ∉ s.issued))
  | .forget _ _ _ _ => isTrue trivial
  | .fire _ _ fireId => inferInstanceAs (Decidable (fireId ∉ s.issued))
  | .promote _ _ => isTrue trivial
  | .move => isTrue trivial
  | .dispatch payload _ _ _ _ => inferInstanceAs (Decidable (payload ∈ s.hands))
  | .acknowledge notification _ ctx =>
      inferInstanceAs (Decidable (notification ∈ s.ready ∧ ctx.fireId ∉ s.issued))
  | .recover => isTrue trivial

/-- The queue under any interleaving. -/
def machine : Machine FireSystem FireAction := ⟨allowed, step⟩

instance (s : FireSystem) (action : FireAction) : Decidable (machine.allowed s action) :=
  inferInstanceAs (Decidable (s.allowed action))

/-- Every fire that is somewhere. -/
def messages (s : FireSystem) : List FireMessage :=
  s.q.queue ++ s.q.deferred.keys ++ s.q.processing ++ s.hands ++ s.ready.map (·.message)

/-- What was counted in a region. -/
def recordedIn (amount : RecordedWrite → ℕ × ℕ) (recorded : List RecordedWrite)
    (region : RegionKey) : ℕ × ℕ :=
  ((recorded.filter (·.region = region)).map amount).sum

/-- The counters as accounts, the fires as tickets. -/
def ledger (s : FireSystem) : TokenLedger RegionKey String (ℕ × ℕ) where
  balance region := (s.q.memories region, s.q.edges region)
  token region := (s.q.hash region).pending
  tickets := { ticket | ∃ message ∈ s.messages, message.ticket = some ticket }
  issued := s.issued
  deposited := recordedIn (·.added) s.recorded
  settled := s.subtracted

/-! ## What a step does to the ledger -/

variable {s t : FireSystem} {region : RegionKey}

theorem mem_messages :
    message ∈ s.messages ↔ message ∈ s.q.queue ∨ message ∈ s.q.deferred ∨
      message ∈ s.q.processing ∨ message ∈ s.hands ∨ ∃ n ∈ s.ready, n.message = message := by
  simp only [messages, List.mem_append, List.mem_map, AList.mem_keys, or_assoc]

/-- What the message stands for is in circulation already. -/
def Known (s : FireSystem) (message : FireMessage) : Prop :=
  ∀ ticket, message.ticket = some ticket → ticket ∈ s.ledger.tickets

theorem known_of_mem (member : message ∈ s.messages) : s.Known message :=
  fun _ stands => ⟨message, member, stands⟩

theorem known_queue (s : FireSystem) : ∀ message ∈ s.q.queue, s.Known message :=
  fun _ member => known_of_mem (mem_messages.mpr (.inl member))

theorem known_deferred (s : FireSystem) : ∀ message ∈ s.q.deferred, s.Known message :=
  fun _ member => known_of_mem (mem_messages.mpr (.inr (.inl member)))

theorem known_processing (s : FireSystem) : ∀ message ∈ s.q.processing, s.Known message :=
  fun _ member => known_of_mem (mem_messages.mpr (.inr (.inr (.inl member))))

theorem known_hands (s : FireSystem) : ∀ message ∈ s.hands, s.Known message :=
  fun _ member => known_of_mem (mem_messages.mpr (.inr (.inr (.inr (.inl member)))))

theorem known_ready (s : FireSystem) : ∀ notification ∈ s.ready, s.Known notification.message :=
  fun notification member =>
    known_of_mem (mem_messages.mpr (.inr (.inr (.inr (.inr ⟨notification, member, rfl⟩)))))

/-- A step brings no new fire into circulation, list by list. -/
theorem tickets_subset_of_lists (queue : ∀ message ∈ t.q.queue, s.Known message)
    (deferred : ∀ message ∈ t.q.deferred, s.Known message)
    (processing : ∀ message ∈ t.q.processing, s.Known message)
    (hands : ∀ message ∈ t.hands, s.Known message)
    (ready : ∀ notification ∈ t.ready, s.Known notification.message) :
    t.ledger.tickets ⊆ s.ledger.tickets := by
  rintro ticket ⟨message, member, stands⟩
  rcases mem_messages.mp member with queued | waiting | inFlight | held | ⟨given, listed, rfl⟩
  · exact queue message queued ticket stands
  · exact deferred message waiting ticket stands
  · exact processing message inFlight ticket stands
  · exact hands message held ticket stands
  · exact ready given listed ticket stands

/-- A step that adds one message to the queue brings at most its fire into circulation. -/
theorem tickets_subset_of_retry {retry : FireMessage} {new : Ticket RegionKey String (ℕ × ℕ)}
    (queue : t.q.queue = s.q.queue ++ [retry]) (deferred : t.q.deferred = s.q.deferred)
    (processing : ∀ message ∈ t.q.processing, message ∈ s.q.processing)
    (hands : t.hands = s.hands) (ready : t.ready = s.ready) (stands : retry.ticket = some new) :
    t.ledger.tickets ⊆ insert new s.ledger.tickets := by
  rintro ticket ⟨message, member, standing⟩
  rw [mem_messages, queue, deferred, hands, ready, List.mem_append, List.mem_singleton] at member
  rcases member with (queued | rfl) | waiting | inFlight | held | ⟨given, listed, rfl⟩
  · exact .inr (s.known_queue message queued ticket standing)
  · exact .inl (Option.some.inj (standing.symm.trans stands))
  · exact .inr (s.known_deferred message waiting ticket standing)
  · exact .inr (s.known_processing message (processing message inFlight) ticket standing)
  · exact .inr (s.known_hands message held ticket standing)
  · exact .inr (s.known_ready given listed ticket standing)

/-- The largest values of the two counters. -/
def counterLimit : ℕ × ℕ := (counterMax, counterMax)

/-- A step that leaves the counters and the tokens alone. -/
theorem moves_of_same (memories : ∀ region, t.q.memories region = s.q.memories region)
    (edges : ∀ region, t.q.edges region = s.q.edges region)
    (pending : ∀ region, (t.q.hash region).pending = (s.q.hash region).pending)
    (recorded : t.recorded = s.recorded) (subtracted : t.subtracted = s.subtracted)
    (issued : s.issued ⊆ t.issued) (fewer : t.ledger.tickets ⊆ s.ledger.tickets) :
    Relation.ReflTransGen (TokenLedger.Move counterLimit) s.ledger t.ledger := by
  apply TokenLedger.moves_keep .refl
  · funext region
    simp only [ledger, memories, edges]
  · funext region
    exact pending region
  · simp only [ledger, recorded]
  · exact subtracted
  · exact fewer
  · exact Finset.coe_subset.mpr issued

variable {hash : CounterHash} {notification : Notification}

/-- A step that rewrites the counters of one region. -/
theorem ledger_of_insert (counters : t.q.counters = s.q.counters.insert region hash) :
    t.ledger.balance =
        Function.update s.ledger.balance region (hash.memories.getD 0, hash.edges.getD 0) ∧
      t.ledger.token = Function.update s.ledger.token region hash.pending := by
  have hashes := fun other => s.q.hash_insert region other hash counters
  constructor
  · funext other
    rw [Function.update_apply]
    simp only [ledger, RedisFireQueue.memories, RedisFireQueue.edges, hashes]
    split
    · rfl
    · rfl
  · funext other
    rw [Function.update_apply]
    simp only [ledger, hashes]
    split
    · rfl
    · rfl

theorem recordedIn_concat (amount : RecordedWrite → ℕ × ℕ) (recorded : List RecordedWrite)
    (write : RecordedWrite) :
    recordedIn amount (recorded ++ [write]) =
      Function.update (recordedIn amount recorded) write.region
        (recordedIn amount recorded write.region + amount write) := by
  funext region
  rw [Function.update_apply]
  by_cases same : region = write.region
  · subst same
    simp [recordedIn]
  · simp [recordedIn, same, Ne.symm same]

/-- A step that leaves the lists as they are, or shorter. -/
theorem tickets_subset_of_same (queue : t.q.queue = s.q.queue)
    (deferred : t.q.deferred = s.q.deferred)
    (processing : ∀ message ∈ t.q.processing, message ∈ s.q.processing)
    (hands : t.hands = s.hands) (ready : t.ready = s.ready) :
    t.ledger.tickets ⊆ s.ledger.tickets := by
  apply tickets_subset_of_lists
  · exact queue ▸ s.known_queue
  · exact deferred ▸ s.known_deferred
  · exact fun message member => s.known_processing message (processing message member)
  · exact hands ▸ s.known_hands
  · exact ready ▸ s.known_ready

/-- A recorded write is a deposit, and a fire is a token over the whole balance. -/
theorem moves_of_records (bounded : ∀ region, s.ledger.balance region ≤ counterLimit)
    (fresh : ctx.fireId ∉ s.issued)
    (records : s.q.RecordsOrFires region memories edges ctx t.q hash)
    (recorded : t.recorded = s.recorded ++ [⟨region, (memories, edges),
      t.ledger.balance region - s.ledger.balance region⟩]) (hands : t.hands = s.hands)
    (ready : t.ready = s.ready) (subtracted : t.subtracted = s.subtracted)
    (issued : t.issued = insert ctx.fireId s.issued) :
    Relation.ReflTransGen (TokenLedger.Move counterLimit) s.ledger t.ledger := by
  obtain ⟨balance, token⟩ := ledger_of_insert (s := s) (t := t) records.counters
  set value : ℕ × ℕ := (hash.memories.getD 0, hash.edges.getD 0) with grown
  have covered : s.ledger.balance region ≤ value := by
    have most := bounded region
    rw [grown, records.memories, records.edges]
    exact ⟨le_min most.1 (Nat.le_add_right _ _), le_min most.2 (Nat.le_add_right _ _)⟩
  have adds : s.ledger.balance region + (value - s.ledger.balance region) = value :=
    add_tsub_cancel_of_le covered
  have deposited : t.ledger.deposited = Function.update s.ledger.deposited region
      (s.ledger.deposited region + (value - s.ledger.balance region)) := by
    have now : t.ledger.balance region = value := by rw [balance, Function.update_self]
    rw [now] at recorded
    simp only [ledger, recorded]
    exact recordedIn_concat _ _ _
  have inFlight : ∀ message ∈ t.q.processing, message ∈ s.q.processing := by
    rw [records.processing]
    exact fun message member => member
  have fits : s.ledger.balance region + (value - s.ledger.balance region) ≤ counterLimit := by
    rw [adds, grown, records.memories, records.edges]
    exact ⟨min_le_left _ _, min_le_left _ _⟩
  have deposit := TokenLedger.Move.deposit (l := s.ledger) region
    (value - s.ledger.balance region) fits
  rw [adds] at deposit
  rcases records.fires with ⟨pending, queue⟩ | ⟨pending, message, place, identity,
    ⟨elapsed, snapshot⟩, queue⟩
  · apply TokenLedger.moves_keep (.single deposit) balance ?_ deposited subtracted
    · exact tickets_subset_of_same queue records.deferred inFlight hands ready
    · simp only [ledger, issued, Finset.coe_subset]
      exact Finset.subset_insert _ _
    · rw [token, pending]
      exact Function.update_eq_self _ _
  · have issue : TokenLedger.Move counterLimit _ _ := TokenLedger.Move.issue (l := { s.ledger with
        balance := Function.update s.ledger.balance region value
        deposited := Function.update s.ledger.deposited region
          (s.ledger.deposited region + (value - s.ledger.balance region)) })
      region ctx.fireId (by simpa [ledger] using fresh)
    apply TokenLedger.moves_keep (.tail (.single deposit) issue) balance ?_ deposited subtracted
    · have stands : message.ticket = some ⟨region, ctx.fireId, value⟩ := by
        simp [FireMessage.ticket, identity, snapshot, place, grown, records.memories,
          records.edges]
      simp only [Function.update_self]
      exact tickets_subset_of_retry queue records.deferred inFlight hands ready stands
    · simp [ledger, issued]
    · rw [token, pending]

theorem recordStep_moves (bounded : ∀ region, s.ledger.balance region ≤ counterLimit)
    (fresh : ctx.fireId ∉ s.issued) :
    Relation.ReflTransGen (TokenLedger.Move counterLimit) s.ledger
      (s.recordStep region memories edges ctx delivery).ledger := by
  rw [recordStep]
  split
  · exact .refl
  · next outcome q accepted =>
      have script : q = (s.q.recordWrite region memories edges ctx delivery).2 :=
        congrArg Prod.snd (s.q.recordWriteOnceInner_ok accepted)
      cases counts : s.q.alreadyCounted region delivery with
      | true =>
          have same : q = s.q := by
            rw [script]
            simp [RedisFireQueue.recordWrite, counts]
          subst same
          exact moves_of_same (fun _ => rfl) (fun _ => rfl) (fun _ => rfl) rfl rfl
            (Finset.subset_insert _ _) subset_rfl
      | false =>
          obtain ⟨hash, records⟩ :=
            s.q.recordWrite_recordsOrFires memories edges ctx delivery counts
          rw [← script] at records
          exact moves_of_records bounded fresh records rfl rfl rfl rfl rfl

/-- An acknowledgement that finds its token settles the fire, gives the token up, or leaves
it to a retry of the same fire. -/
theorem moves_of_settles {snapshot : ℕ × ℕ} (given : notification ∈ s.ready)
    (fresh : ctx.fireId ∉ s.issued)
    (settles : s.q.Settles notification.message fireId success ctx t.q hash snapshot)
    (hands : t.hands = s.hands) (ready : t.ready = s.ready) (recorded : t.recorded = s.recorded)
    (subtracted : t.subtracted = if success then
      ⟨notification.message.region, fireId, snapshot⟩ :: s.subtracted else s.subtracted)
    (issued : t.issued = insert ctx.fireId s.issued) :
    Relation.ReflTransGen (TokenLedger.Move counterLimit) s.ledger t.ledger := by
  obtain ⟨balance, token⟩ := ledger_of_insert (s := s) (t := t) settles.counters
  rw [settles.balance] at balance
  have held : (⟨notification.message.region, fireId, snapshot⟩ : Ticket _ _ _) ∈ s.ledger.tickets :=
    ⟨notification.message, mem_messages.mpr
      (.inr (.inr (.inr (.inr ⟨notification, given, rfl⟩)))), settles.stands⟩
  have deposited : t.ledger.deposited = s.ledger.deposited := by
    simp only [ledger, recorded]
  have more : s.ledger.issued ⊆ t.ledger.issued := by
    simp only [ledger, issued, Finset.coe_subset]
    exact Finset.subset_insert _ _
  cases success with
  | true =>
      have settle : TokenLedger.Move counterLimit _ _ :=
        TokenLedger.Move.settle (l := s.ledger) _ held settles.pending
      rcases settles.retries with ⟨pending, queue⟩ | ⟨pending, retry, stands, queue⟩
      · apply TokenLedger.moves_keep (.single settle) balance ?_ deposited subtracted ?_ more
        · rw [token, pending]
        · exact tickets_subset_of_same queue settles.deferred settles.processing hands ready
      · have issue : TokenLedger.Move counterLimit _ _ := TokenLedger.Move.issue
          (l := { s.ledger with
            balance := Function.update s.ledger.balance notification.message.region
              (s.ledger.balance notification.message.region - snapshot)
            token := Function.update s.ledger.token notification.message.region none
            settled := ⟨notification.message.region, fireId, snapshot⟩ :: s.ledger.settled })
          notification.message.region ctx.fireId (by simpa [ledger] using fresh)
        apply TokenLedger.moves_keep (.tail (.single settle) issue) balance ?_ deposited subtracted
        · rw [settles.balance] at stands
          simp only [Function.update_self]
          exact tickets_subset_of_retry queue settles.deferred settles.processing hands ready stands
        · simp [ledger, issued]
        · rw [token, pending, Function.update_idem]
          rfl
  | false =>
      have unchanged : t.ledger.balance = s.ledger.balance := by
        rw [balance]
        exact Function.update_eq_self _ _
      rcases settles.retries with ⟨pending, queue⟩ | ⟨pending, retry, stands, queue⟩
      · have release : TokenLedger.Move counterLimit _ _ :=
          TokenLedger.Move.release (l := s.ledger) notification.message.region
        apply TokenLedger.moves_keep (.single release) unchanged ?_ deposited subtracted ?_ more
        · rw [token, pending]
        · exact tickets_subset_of_same queue settles.deferred settles.processing hands ready
      · apply TokenLedger.moves_keep .refl unchanged ?_ deposited subtracted ?_ more
        · rw [token, pending]
          -- The retry carries the identity that is pending already.
          have same : s.ledger.token notification.message.region = some fireId := settles.pending
          exact same ▸ Function.update_eq_self _ _
        · have circulating := tickets_subset_of_retry queue settles.deferred settles.processing
            hands ready stands
          exact circulating.trans (Set.insert_subset held subset_rfl)

theorem acknowledgeStep_moves (given : notification ∈ s.ready) (fresh : ctx.fireId ∉ s.issued) :
    Relation.ReflTransGen (TokenLedger.Move counterLimit) s.ledger
      (s.acknowledgeStep notification success ctx).ledger := by
  rw [acknowledgeStep]
  split
  · exact .refl
  · next outcome q accepted =>
      rcases s.q.acknowledge_cases accepted with ⟨rfl, rfl⟩ | ⟨legacy, payload, rfl⟩ |
        ⟨ran, fireId, hash, snapshot, settles⟩
      · exact moves_of_same (fun _ => rfl) (fun _ => rfl) (fun _ => rfl) rfl (by simp)
          (Finset.subset_insert _ _) subset_rfl
      · refine moves_of_same (fun _ => rfl) (fun _ => rfl) (fun _ => rfl) rfl (by simp [legacy])
          (Finset.subset_insert _ _) ?_
        exact tickets_subset_of_lists s.known_queue s.known_deferred
          (fun message member => s.known_processing message (List.mem_of_mem_erase member))
          s.known_hands s.known_ready
      · refine moves_of_settles given fresh settles rfl rfl rfl ?_ rfl
        cases success with
        | true => simp [ran, settles.stands]
        | false => simp

theorem dispatchStep_moves (held : payload ∈ s.hands) :
    Relation.ReflTransGen (TokenLedger.Move counterLimit) s.ledger
      (s.dispatchStep payload quiet now clock otherWork).ledger := by
  have kept : ∀ message ∈ s.hands.erase payload, s.Known message :=
    fun message member => s.known_hands message (List.mem_of_mem_erase member)
  rw [dispatchStep]
  split
  · exact moves_of_same (fun _ => rfl) (fun _ => rfl) (fun _ => rfl) rfl rfl subset_rfl
      (tickets_subset_of_lists s.known_queue s.known_deferred s.known_processing kept s.known_ready)
  · next notification q accepted =>
      rcases s.q.dispatch_ok accepted with ⟨deferred, _⟩ | ⟨same, rfl⟩
      · cases deferred
      · cases same
        refine moves_of_same (fun _ => rfl) (fun _ => rfl) (fun _ => rfl) rfl rfl subset_rfl
          (tickets_subset_of_lists s.known_queue s.known_deferred s.known_processing kept ?_)
        intro given member
        rcases List.mem_append.mp member with listed | new
        · exact s.known_ready given listed
        · rw [List.mem_singleton.mp new]
          exact s.known_hands payload held
  · next result q ready accepted =>
      rcases s.q.dispatch_ok accepted with ⟨_, rfl⟩ | ⟨same, _⟩
      · refine moves_of_same (fun _ => rfl) (fun _ => rfl) (fun _ => rfl) rfl rfl subset_rfl
          (tickets_subset_of_lists s.known_queue ?_ ?_ kept s.known_ready)
        · intro message waiting
          rcases (AList.mem_insert _).mp waiting with rfl | waiting
          · exact s.known_hands payload held
          · exact s.known_deferred message waiting
        · exact fun message member => s.known_processing message (List.mem_of_mem_erase member)
      · exact (ready _ same).elim

/-- **Every step is a sequence of moves of the ledger.** -/
theorem step_moves {action : FireAction}
    (bounded : ∀ region, s.ledger.balance region ≤ counterLimit) (allows : s.allowed action) :
    Relation.ReflTransGen (TokenLedger.Move counterLimit) s.ledger (s.step action).ledger := by
  cases action with
  | record region memories edges ctx delivery => exact recordStep_moves bounded allows
  | forget region eventId generation retain =>
      rw [step]
      split
      · exact .refl
      · next q accepted =>
          have settled := s.q.settleWrite_settled region eventId generation retain
          have pending := s.q.settleWrite_pending region eventId generation retain
          rw [s.q.forgetWriteOnce_ok accepted]
          exact moves_of_same settled.memories settled.edges pending rfl rfl subset_rfl subset_rfl
  | fire region firedBy fireId =>
      rw [step]
      split
      · exact .refl
      · next outcome q accepted =>
          rcases s.q.fire_ok accepted with rfl | rfl
          · exact moves_of_same (fun _ => rfl) (fun _ => rfl) (fun _ => rfl) rfl rfl
              (Finset.subset_insert _ _) subset_rfl
          · refine moves_of_same (fun _ => rfl) (fun _ => rfl) (fun _ => rfl) rfl rfl
              (Finset.subset_insert _ _) (tickets_subset_of_lists ?_ s.known_deferred
                s.known_processing s.known_hands s.known_ready)
            intro message member
            rcases List.mem_append.mp member with queued | new
            · exact s.known_queue message queued
            · rw [List.mem_singleton.mp new]
              exact nofun
  | promote textLe now =>
      obtain ⟨queue, deferred, equal, old⟩ := s.q.promoteEach_moves (s.q.dueDeferred textLe now)
      have known : ∀ message, message ∈ queue ∨ message ∈ deferred → s.Known message := by
        intro message member
        rcases old message member with queued | waiting
        · exact s.known_queue message queued
        · exact s.known_deferred message waiting
      rw [step, RedisFireQueue.promoteDeferred, equal]
      exact moves_of_same (fun _ => rfl) (fun _ => rfl) (fun _ => rfl) rfl rfl subset_rfl
        (tickets_subset_of_lists (fun message member => known message (.inl member))
          (fun message member => known message (.inr member)) s.known_processing s.known_hands
          s.known_ready)
  | move =>
      rw [step]
      split
      · exact .refl
      · next payload q moved =>
          obtain ⟨queue, equal, rfl⟩ := s.q.moveNext_some moved
          have first : s.Known payload := s.known_queue payload (equal ▸ List.mem_cons_self)
          refine moves_of_same (fun _ => rfl) (fun _ => rfl) (fun _ => rfl) rfl rfl subset_rfl
            (tickets_subset_of_lists ?_ s.known_deferred ?_ ?_ s.known_ready)
          · exact fun message member =>
              s.known_queue message (equal ▸ List.mem_cons_of_mem payload member)
          · intro message member
            rcases List.mem_append.mp member with old | new
            · exact s.known_processing message old
            · exact List.mem_singleton.mp new ▸ first
          · intro message member
            rcases List.mem_append.mp member with old | new
            · exact s.known_hands message old
            · exact List.mem_singleton.mp new ▸ first
  | dispatch payload quiet now clock otherWork => exact dispatchStep_moves allows
  | acknowledge notification success ctx => exact acknowledgeStep_moves allows.1 allows.2
  | recover =>
      refine moves_of_same (fun _ => rfl) (fun _ => rfl) (fun _ => rfl) rfl rfl subset_rfl
        (tickets_subset_of_lists ?_ s.known_deferred nofun s.known_hands s.known_ready)
      intro message member
      rcases List.mem_append.mp member with queued | inFlight
      · exact s.known_queue message queued
      · exact s.known_processing message inFlight

theorem dispatchStep_error {error : DeliveryError}
    (failed : s.q.dispatch quiet now clock otherWork payload = .error error) :
    (s.dispatchStep payload quiet now clock otherWork).q = s.q := by
  rw [dispatchStep, failed]

theorem dispatchStep_ok {q : RedisFireQueue}
    (accepted : s.q.dispatch quiet now clock otherWork payload = .ok (result, q)) :
    (s.dispatchStep payload quiet now clock otherWork).q = q ∧
      ∀ notification, result = .ready notification →
        notification ∈ (s.dispatchStep payload quiet now clock otherWork).ready := by
  rw [dispatchStep, accepted]
  cases result with
  | timedOut => exact ⟨rfl, nofun⟩
  | ready notification =>
      refine ⟨rfl, ?_⟩
      rintro _ ⟨⟩
      exact List.mem_append_right _ List.mem_cons_self
  | deferred => exact ⟨rfl, nofun⟩

/-- A drain that nothing interrupts is a run of its steps, and what it returns was handed over. -/
theorem drain_eq_steps (s : FireSystem) (quiet : QuietHours)
    (textLe : FireMessage → FireMessage → Bool) (now clock : ℕ) :
    ∃ actions, machine.Allows s actions ∧
      (machine.run s actions).q = (s.q.drain quiet textLe now clock).2 ∧
      ∀ notification, (s.q.drain quiet textLe now clock).1 = .ok (.ready notification) →
        notification ∈ (machine.run s actions).ready := by
  cases taken : (s.q.promoteDeferred textLe now).moveNext with
  | none =>
      refine ⟨[.promote textLe now], ⟨trivial, trivial⟩, ?_, ?_⟩
      · simp only [RedisFireQueue.drain, taken]
        rfl
      · simp only [RedisFireQueue.drain, taken]
        exact nofun
  | some pair =>
      obtain ⟨payload, moved⟩ := pair
      set holding : FireSystem := { s with q := moved, hands := s.hands ++ [payload] } with held
      have moves : (s.step (.promote textLe now)).step .move = holding := by
        simp only [step, taken, held]
      refine ⟨[.promote textLe now, .move,
        .dispatch payload quiet now clock moved.reorderableBacklogLen], ?_, ?_⟩
      · refine ⟨trivial, trivial, ?_, trivial⟩
        have member : payload ∈ ((s.step (.promote textLe now)).step .move).hands := by
          rw [moves]
          exact List.mem_append_right _ List.mem_cons_self
        exact member
      · have run : machine.run s [.promote textLe now, .move,
            .dispatch payload quiet now clock moved.reorderableBacklogLen] =
            holding.dispatchStep payload quiet now clock moved.reorderableBacklogLen := by
          rw [← moves]
          rfl
        rw [run]
        simp only [RedisFireQueue.drain, taken]
        cases dispatched :
            moved.dispatch quiet now clock moved.reorderableBacklogLen payload with
        | error error => exact ⟨dispatchStep_error (s := holding) dispatched, nofun⟩
        | ok result =>
            obtain ⟨queue, ready⟩ := dispatchStep_ok (s := holding) dispatched
            exact ⟨queue, fun notification same => ready notification (Except.ok.inj same)⟩

/-! ## Runs -/

theorem start_sound (org : String) : (start org).ledger.Sound counterLimit where
  bounded _ := ⟨Nat.zero_le _, Nat.zero_le _⟩
  conserved _ := rfl
  covered ticket held := by
    obtain ⟨message, member, _⟩ := held
    cases member
  single first held := by
    obtain ⟨message, member, _⟩ := held
    cases member
  once := List.nodup_nil
  unsettled _ _ token := by cases token
  apart _ _ _ token := by cases token
  ticketIssued ticket held := by
    obtain ⟨message, member, _⟩ := held
    cases member
  tokenIssued _ _ token := by cases token
  settledIssued _ member := by cases member

theorem run_sound {org : String} {actions : List FireAction}
    (allows : machine.Allows (start org) actions) :
    (machine.run (start org) actions).ledger.Sound counterLimit := by
  apply allows.invariant (I := fun s => s.ledger.Sound counterLimit) (start_sound org)
  intro s action sound allowed
  exact sound.moves (step_moves sound.bounded allowed)

/-- No write to the region was cut off at the largest value of a counter. -/
def BelowClamp (s : FireSystem) (region : RegionKey) : Prop :=
  ∀ write ∈ s.recorded, write.region = region → write.added = write.delta

/-- The token of a fire is the pending one of its region. -/
def Pending (s : FireSystem) (ticket : Ticket RegionKey String (ℕ × ℕ)) : Prop :=
  (s.q.hash ticket.key).pending = some ticket.id

/-- What the fires of a state add up to. -/
structure Conserves (s : FireSystem) : Prop where
  counters : ∀ region, s.BelowClamp region →
    (s.q.memories region, s.q.edges region) + TokenLedger.settledAmount s.subtracted region =
      recordedIn (·.delta) s.recorded region
  onePending : ∀ first ∈ s.messages, ∀ second ∈ s.messages, ∀ one two,
    first.ticket = some one → second.ticket = some two → one.key = two.key →
    s.Pending one → s.Pending two → one = two
  subtractedOnce : (s.subtracted.map (·.id)).Nodup

theorem recordedIn_delta (below : s.BelowClamp region) :
    recordedIn (·.added) s.recorded region = recordedIn (·.delta) s.recorded region := by
  simp only [recordedIn]
  congr 1
  apply List.map_congr_left
  intro write member
  obtain ⟨member, same⟩ := List.mem_filter.mp member
  exact below write member (of_decide_eq_true same)

theorem conserves_of_sound (sound : s.ledger.Sound counterLimit) : s.Conserves where
  counters region below := by
    rw [← recordedIn_delta below]
    exact sound.conserved region
  onePending first one second two ticket other stands standing same pending pending' := by
    have equal : ticket.id = other.id := by
      rw [Pending, same] at pending
      exact Option.some.inj (pending.symm.trans pending')
    exact sound.single ticket ⟨first, one, stands⟩ other ⟨second, two, standing⟩ equal
  subtractedOnce := sound.once

/-- An acknowledgement that returns leaves no copy of its payload in progress. -/
def ClearsPayload (s : FireSystem) (notification : Notification) (success : Bool)
    (ctx : RecordContext) : Prop :=
  ∀ outcome q, s.q.acknowledge notification success ctx = .ok (outcome, q) →
    ∀ payload, notification.queuedPayload = some payload → payload ∉ q.processing

/-- The payload is in progress at most once, and not at all when the fire owns a snapshot
and its token is gone. -/
def PayloadInHand (s : FireSystem) (notification : Notification) : Prop :=
  notification.message.region.org = s.q.org →
    ∀ payload, notification.queuedPayload = some payload →
      s.q.processing.count payload ≤ if s.q.releases notification.message then 1 else 0

theorem clearsPayload_iff :
    s.ClearsPayload notification success ctx ↔ s.PayloadInHand notification := by
  constructor
  · intro clears served payload queued
    have accepted : ∃ outcome q, s.q.acknowledge notification success ctx = .ok (outcome, q) := by
      simp only [RedisFireQueue.acknowledge, RedisFireQueue.ensureRegion, if_pos served, bind,
        Except.bind]
      split
      · exact ⟨_, _, rfl⟩
      · split
        · exact ⟨_, _, rfl⟩
        · exact ⟨_, _, rfl⟩
      · exact ⟨_, _, rfl⟩
      · exact ⟨_, _, rfl⟩
    obtain ⟨outcome, q, accepted⟩ := accepted
    exact (s.q.acknowledge_clears_iff accepted queued).mp (clears outcome q accepted payload queued)
  · intro inHand outcome q accepted payload queued
    have served : notification.message.region.org = s.q.org := by
      by_contra other
      simp only [RedisFireQueue.acknowledge, RedisFireQueue.ensureRegion, if_neg other] at accepted
      cases accepted
    exact (s.q.acknowledge_clears_iff accepted queued).mpr (inHand served payload queued)

/-- **Nothing recorded is lost or subtracted twice, and an acknowledged payload leaves the
list exactly when it was there at most once, under a pending token.** -/
theorem run_conserves {org : String} {actions : List FireAction}
    (allows : machine.Allows (start org) actions) :
    (machine.run (start org) actions).Conserves ∧
    ((∀ front notification success ctx back,
        actions = front ++ .acknowledge notification success ctx :: back →
        (machine.run (start org) front).ClearsPayload notification success ctx) ↔
      ∀ front notification success ctx back,
        actions = front ++ .acknowledge notification success ctx :: back →
        (machine.run (start org) front).PayloadInHand notification) := by
  refine ⟨conserves_of_sound (run_sound allows), ?_⟩
  constructor
  · intro clears front notification success ctx back split
    exact clearsPayload_iff.mp (clears front notification success ctx back split)
  · intro inHand front notification success ctx back split
    exact clearsPayload_iff.mpr (inHand front notification success ctx back split)

/-- One write fires, an owner drains the fire, and its cycle succeeds. -/
def oneFire : List FireAction :=
  let region : RegionKey := ⟨"acme", "atlas", 0⟩
  let message : FireMessage := ⟨region, "node-a", some ⟨1, 0, 0⟩, some "fire-1", false⟩
  [.record region 1 0 ⟨⟨1, 1, 1, 0⟩, "node-a", 100, "fire-1"⟩ ⟨"write-1", 0⟩,
    .promote (fun _ _ => true) 100,
    .move,
    .dispatch message .none 100 100 0,
    .acknowledge ⟨message, some message⟩ true ⟨⟨1, 1, 1, 0⟩, "node-a", 200, "fire-2"⟩]

theorem run_conserves_oneFire :
    machine.Allows (start "acme") oneFire ∧ (machine.run (start "acme") oneFire).Conserves := by
  have allows : machine.Allows (start "acme") oneFire := by decide +kernel
  exact ⟨allows, (run_conserves allows).1⟩

/-- A new owner recovers the fire while the old owner still holds it. The old owner
acknowledges first; the new owner then finds the token gone, and its copy stays. -/
def recoveredFire : List FireAction :=
  let region : RegionKey := ⟨"acme", "atlas", 0⟩
  let message : FireMessage := ⟨region, "node-a", some ⟨1, 0, 0⟩, some "fire-1", false⟩
  [.record region 1 0 ⟨⟨1, 1, 1, 0⟩, "node-a", 100, "fire-1"⟩ ⟨"write-1", 0⟩,
    .promote (fun _ _ => true) 100,
    .move,
    .dispatch message .none 100 100 0,
    .recover,
    .acknowledge ⟨message, some message⟩ true ⟨⟨1, 1, 1, 0⟩, "node-a", 200, "fire-2"⟩,
    .promote (fun _ _ => true) 300,
    .move,
    .dispatch message .none 300 300 0]

theorem acknowledged_payload_stays :
    ¬ ∀ (org : String) (actions : List FireAction), machine.Allows (start org) actions →
      ∀ front notification success ctx back,
        actions = front ++ .acknowledge notification success ctx :: back →
        (machine.run (start org) front).ClearsPayload notification success ctx := by
  intro clears
  let region : RegionKey := ⟨"acme", "atlas", 0⟩
  let message : FireMessage := ⟨region, "node-a", some ⟨1, 0, 0⟩, some "fire-1", false⟩
  let ctx : RecordContext := ⟨⟨1, 1, 1, 0⟩, "node-b", 400, "fire-3"⟩
  have allows : machine.Allows (start "acme")
      (recoveredFire ++ [.acknowledge ⟨message, some message⟩ true ctx]) := by
    decide +kernel
  have inHand := clearsPayload_iff.mp
    (clears "acme" _ allows recoveredFire ⟨message, some message⟩ true ctx [] rfl)
  have served : message.region.org = (machine.run (start "acme") recoveredFire).q.org := by
    decide +kernel
  have stays : ¬ (machine.run (start "acme") recoveredFire).q.processing.count message ≤
      if (machine.run (start "acme") recoveredFire).q.releases message then 1 else 0 := by
    decide +kernel
  exact stays (inHand served message rfl)

end FireSystem

end Exocortex
