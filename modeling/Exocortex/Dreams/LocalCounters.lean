import Exocortex.Dreams.Fire

/-!
# Local write counters

Without a shared queue an engine counts writes in its own tables, and per region it
remembers only the effect that was counted last. A delivery is skipped when it is of that
effect; settling forgets it.

That is enough for a retry that follows at once. It is not enough when the outbox hands
out another effect in between: the next claim always takes the smallest identity, so an
effect that came in later can be delivered before the retry, and the retry is then counted
again. A run adds every share at most once exactly when each delivery of an effect to a
region is the first one there, or follows one of the same effect with no other delivery to
the region and no settlement of the effect in between.
-/

namespace Exocortex

open Library

/-- The counters of an engine without a shared queue. -/
structure LocalCounters where
  counters : Table RegionKey RegionWriteCounters
  lastCycleAt : Table RegionKey DateTime
  lastLocalWriteEvent : Table RegionKey String
  pendingRegions : Finset RegionKey
  fired : List (RegionKey × RegionWriteCounters)

/-- What a delivery takes from its engine: the trigger, whether it leads, and the clock. -/
structure LocalContext where
  trigger : DreamsTrigger
  isLeader : Bool
  now : DateTime

/-- The capacity of the channel to the consolidation loop. -/
def fireChannelMax : ℕ := 1000

namespace LocalCounters

def new : LocalCounters := ⟨∅, ∅, ∅, ∅, []⟩

def counter (c : LocalCounters) (region : RegionKey) : RegionWriteCounters :=
  (c.counters.lookup region).getD ⟨0, 0, 0⟩

def memories (c : LocalCounters) (region : RegionKey) : ℕ :=
  (c.counter region).memoriesSinceLastCycle

def edges (c : LocalCounters) (region : RegionKey) : ℕ :=
  (c.counter region).edgesSinceLastCycle

/-- A region occupies at most one slot of the channel. -/
def scheduleRegion (c : LocalCounters) (region : RegionKey) (snapshot : RegionWriteCounters) :
    LocalCounters :=
  if region ∈ c.pendingRegions then c
  else if fireChannelMax ≤ c.fired.length then c
  else { c with
    pendingRegions := insert region c.pendingRegions
    fired := c.fired ++ [(region, snapshot)] }

def onWrites (c : LocalCounters) (region : RegionKey) (memories edges : ℕ) (ctx : LocalContext) :
    LocalCounters :=
  let anchor := (c.lastCycleAt.lookup region).getD ctx.now
  let updated : RegionWriteCounters :=
    { memoriesSinceLastCycle := min counterMax (c.memories region + memories)
      edgesSinceLastCycle := min counterMax (c.edges region + edges)
      secondsSinceLastCycle := ((ctx.now - anchor) / 1000000000).toNat }
  let counted := { c with
    lastCycleAt := c.lastCycleAt.insert region anchor
    counters := c.counters.insert region updated }
  if ctx.isLeader && ctx.trigger.shouldFire updated then counted.scheduleRegion region updated
  else counted

/-- `on_writes_once` without a queue. -/
def onWritesOnce (c : LocalCounters) (eventId : String) (region : RegionKey)
    (memories edges : ℕ) (ctx : LocalContext) : Except DeliveryError LocalCounters :=
  if eventId.isEmpty then .error .emptyEventId
  else if c.lastLocalWriteEvent.lookup region = some eventId then .ok c
  else
    let counted := c.onWrites region memories edges ctx
    .ok { counted with
      lastLocalWriteEvent := counted.lastLocalWriteEvent.insert region eventId }

/-- `settle_writes_once` without a queue, for one region. -/
def settleWritesOnce (c : LocalCounters) (eventId : String) (region : RegionKey) :
    Except DeliveryError LocalCounters :=
  if eventId.isEmpty then .error .emptyEventId
  else if c.lastLocalWriteEvent.lookup region = some eventId then
    .ok { c with lastLocalWriteEvent := c.lastLocalWriteEvent.erase region }
  else .ok c

/-! ## What counting a write does -/

variable (c : LocalCounters) (region : RegionKey)

/-- Scheduling touches neither the counters nor the last effects. -/
theorem scheduleRegion_fields (snapshot : RegionWriteCounters) :
    (c.scheduleRegion region snapshot).counters = c.counters ∧
      (c.scheduleRegion region snapshot).lastLocalWriteEvent = c.lastLocalWriteEvent := by
  simp only [scheduleRegion]
  split
  · exact ⟨rfl, rfl⟩
  · split
    · exact ⟨rfl, rfl⟩
    · exact ⟨rfl, rfl⟩

theorem onWrites_fields (memories edges : ℕ) (ctx : LocalContext) :
    (∃ seconds, (c.onWrites region memories edges ctx).counters = c.counters.insert region
      ⟨min counterMax (c.memories region + memories), min counterMax (c.edges region + edges),
        seconds⟩) ∧
      (c.onWrites region memories edges ctx).lastLocalWriteEvent = c.lastLocalWriteEvent := by
  simp only [onWrites]
  split
  · obtain ⟨counters, last⟩ := scheduleRegion_fields _ _ _
    exact ⟨⟨_, counters⟩, last⟩
  · exact ⟨⟨_, rfl⟩, rfl⟩

theorem counter_insert {d : LocalCounters} {value : RegionWriteCounters}
    (counters : d.counters = c.counters.insert region value) (other : RegionKey) :
    d.counter other = if other = region then value else c.counter other := by
  rw [counter, counters, Table.lookup_insert_eq]
  split
  · rfl
  · rfl

end LocalCounters

/-! ## The ledger -/

/-- What happened to an effect in a region. -/
inductive LocalEvent where
  | delivered (effectId : String) (region : RegionKey)
  | settled (effectId : String) (region : RegionKey)
deriving DecidableEq

/-- The counters of an engine, what was added to them, and what happened, the newest
first. -/
structure LocalLedger where
  engine : LocalCounters
  added : List Contribution
  history : List LocalEvent

namespace LocalLedger

def new : LocalLedger := ⟨.new, [], []⟩

def deliver (ctx : LocalContext) (fence : DeliveryFence) (delta : IngestRegionDelta)
    (l : LocalLedger) : Except DeliveryError LocalLedger :=
  match l.engine.onWritesOnce fence.eventId delta.region delta.memories delta.relationships ctx with
  | .error error => .error error
  | .ok engine => .ok
      { engine := engine
        added :=
          if l.engine.lastLocalWriteEvent.lookup delta.region = some fence.eventId then l.added
          else l.added ++ [⟨fence.eventId, delta⟩]
        history := .delivered fence.eventId delta.region :: l.history }

def settle (fence : DeliveryFence) (_retain : Bool) (region : RegionKey) (l : LocalLedger) :
    Except DeliveryError LocalLedger :=
  match l.engine.settleWritesOnce fence.eventId region with
  | .error error => .error error
  | .ok engine => .ok
      { l with engine := engine, history := .settled fence.eventId region :: l.history }

/-- The event is a delivery to the region, or settles the effect there. -/
def concerns (effectId : String) (region : RegionKey) : LocalEvent → Bool
  | .delivered _ other => other = region
  | .settled settled other => settled = effectId && other = region

/-- If the effect was delivered to the region before, then nothing was delivered there
since but the effect itself, and it was not settled. -/
def Undisturbed (l : LocalLedger) (effectId : String) (region : RegionKey) : Prop :=
  .delivered effectId region ∈ l.history →
    l.history.find? (concerns effectId region) = some (.delivered effectId region)

/-- No share was added twice, and the counters hold the sum of what was added. -/
structure AddsOnce (l : LocalLedger) : Prop where
  once : (l.added.map Contribution.key).Nodup
  tallied : Tallied l.engine.memories l.engine.edges l.added

/-! ## What is remembered -/

/-- The effect a history leaves remembered for a region. -/
def lastOf (region : RegionKey) : List LocalEvent → Option String
  | [] => none
  | .delivered effectId other :: history =>
      if other = region then some effectId else lastOf region history
  | .settled effectId other :: history =>
      if other = region ∧ lastOf region history = some effectId then none
      else lastOf region history

/-- An effect is remembered exactly when the last event that concerns it delivered it. -/
theorem lastOf_eq_some_iff (effectId : String) (region : RegionKey) (history : List LocalEvent) :
    lastOf region history = some effectId ↔
      history.find? (concerns effectId region) = some (.delivered effectId region) := by
  induction history with
  | nil => simp [lastOf]
  | cons event history ih =>
      cases event with
      | delivered delivered other =>
          by_cases same : other = region
          · simp [lastOf, concerns, same]
          · simp [lastOf, concerns, same, ih]
      | settled settled other =>
          by_cases same : other = region
          · by_cases own : settled = effectId
            · subst own
              simp only [lastOf, concerns, same, List.find?_cons]
              by_cases remembered : lastOf region history = some settled <;> simp [remembered]
            · simp only [lastOf, concerns, same, own, List.find?_cons, true_and]
              by_cases remembered : lastOf region history = some settled
              · have other : ¬ lastOf region history = some effectId := by
                  intro equal
                  exact own (Option.some.inj (remembered.symm.trans equal))
                simpa [remembered] using ih.not.mp other
              · simp [remembered, ih]
          · simp [lastOf, concerns, same, ih]

/-- What the tables and the log have to do with the history. -/
structure Consistent (l : LocalLedger) : Prop where
  last : ∀ region, l.engine.lastLocalWriteEvent.lookup region = lastOf region l.history
  added : ∀ effectId region, (effectId, region) ∈ l.added.map Contribution.key ↔
    .delivered effectId region ∈ l.history
  named : ∀ effectId region, .delivered effectId region ∈ l.history → effectId.isEmpty = false
  tallied : Tallied l.engine.memories l.engine.edges l.added

theorem consistent_new : Consistent new where
  last _ := rfl
  added _ _ := by simp [new]
  named _ _ member := by cases member
  tallied := ⟨fun _ => rfl, fun _ => rfl⟩

section Steps

variable {l next : LocalLedger} {ctx : LocalContext} {fence : DeliveryFence}
  {delta : IngestRegionDelta} {region : RegionKey}

/-- A delivery is skipped when its effect is the remembered one; else it is counted and
remembered. -/
theorem deliver_ok (accepted : deliver ctx fence delta l = .ok next) :
    fence.eventId.isEmpty = false ∧
    next.history = .delivered fence.eventId delta.region :: l.history ∧
    ((l.engine.lastLocalWriteEvent.lookup delta.region = some fence.eventId ∧
        next.engine = l.engine ∧ next.added = l.added) ∨
      (l.engine.lastLocalWriteEvent.lookup delta.region ≠ some fence.eventId ∧
        next.engine = { l.engine.onWrites delta.region delta.memories delta.relationships ctx with
          lastLocalWriteEvent := l.engine.lastLocalWriteEvent.insert delta.region fence.eventId } ∧
        next.added = l.added ++ [⟨fence.eventId, delta⟩])) := by
  simp only [deliver, LocalCounters.onWritesOnce] at accepted
  cases empty : fence.eventId.isEmpty with
  | true =>
      rw [empty] at accepted
      cases accepted
  | false =>
      rw [empty] at accepted
      by_cases remembered : l.engine.lastLocalWriteEvent.lookup delta.region = some fence.eventId
      · simp only [remembered] at accepted
        cases accepted
        exact ⟨rfl, rfl, .inl ⟨remembered, rfl, rfl⟩⟩
      · simp only [remembered, (LocalCounters.onWrites_fields _ _ _ _ _).2] at accepted
        cases accepted
        exact ⟨rfl, rfl, .inr ⟨remembered, rfl, rfl⟩⟩

/-- Only an effect without a name is refused. -/
theorem deliver_error {error : DeliveryError}
    (refused : deliver ctx fence delta l = .error error) : fence.eventId.isEmpty = true := by
  by_contra named
  simp only [deliver, LocalCounters.onWritesOnce, named] at refused
  split at refused
  · next failed =>
      split at failed
      · contradiction
      · split at failed
        · cases failed
        · cases failed
  · cases refused

/-- A settlement forgets the effect if it is the remembered one. -/
theorem settle_ok (retain : Bool) (accepted : settle fence retain region l = .ok next) :
    next.history = .settled fence.eventId region :: l.history ∧ next.added = l.added ∧
      next.engine.counters = l.engine.counters ∧
      ∀ other, next.engine.lastLocalWriteEvent.lookup other =
        if other = region ∧ l.engine.lastLocalWriteEvent.lookup region = some fence.eventId
        then none else l.engine.lastLocalWriteEvent.lookup other := by
  simp only [settle, LocalCounters.settleWritesOnce] at accepted
  cases empty : fence.eventId.isEmpty with
  | true =>
      rw [empty] at accepted
      cases accepted
  | false =>
      rw [empty] at accepted
      by_cases remembered : l.engine.lastLocalWriteEvent.lookup region = some fence.eventId
      · simp only [remembered] at accepted
        cases accepted
        refine ⟨rfl, rfl, rfl, fun other => ?_⟩
        by_cases same : other = region
        · subst same
          simp [remembered]
        · simp [same, AList.lookup_erase_ne same]
      · simp only [remembered] at accepted
        cases accepted
        exact ⟨rfl, rfl, rfl, fun other => by simp [remembered]⟩

/-- The tally after a write was counted. -/
theorem Consistent.tallies (consistent : Consistent l) {engine : LocalCounters}
    (counters : engine.counters =
      (l.engine.onWrites delta.region delta.memories delta.relationships ctx).counters) :
    Tallied engine.memories engine.edges (l.added ++ [⟨fence.eventId, delta⟩]) := by
  obtain ⟨⟨seconds, shape⟩, -⟩ := l.engine.onWrites_fields delta.region delta.memories
    delta.relationships ctx
  have value := l.engine.counter_insert delta.region (counters.trans shape)
  refine consistent.tallied.record _ ?_ ?_
  · intro other
    rw [LocalCounters.memories, value]
    split
    · rfl
    · rfl
  · intro other
    rw [LocalCounters.edges, value]
    split
    · rfl
    · rfl

theorem Consistent.deliver (consistent : Consistent l)
    (accepted : LocalLedger.deliver ctx fence delta l = .ok next) : Consistent next := by
  obtain ⟨named, history, effect⟩ := deliver_ok accepted
  have names : ∀ effectId region, .delivered effectId region ∈ next.history →
      effectId.isEmpty = false := by
    intro effectId region member
    rw [history] at member
    rcases List.mem_cons.mp member with new | old
    · cases new
      exact named
    · exact consistent.named effectId region old
  rcases effect with ⟨remembered, engine, added⟩ | ⟨-, engine, added⟩
  · refine ⟨?_, ?_, names, ?_⟩
    · intro region
      rw [engine, history, lastOf, consistent.last]
      split
      · next same => rw [← same, ← consistent.last, remembered]
      · rfl
    · intro effectId region
      rw [added, history, consistent.added, List.mem_cons]
      constructor
      · exact .inr
      · rintro (new | old)
        · cases new
          -- The remembered effect was delivered.
          have last := consistent.last delta.region
          rw [remembered] at last
          exact List.mem_of_find?_eq_some ((lastOf_eq_some_iff _ _ _).mp last.symm)
        · exact old
    · rw [engine, added]
      exact consistent.tallied
  · refine ⟨?_, ?_, names, ?_⟩
    · intro region
      rw [engine, history, lastOf, Table.lookup_insert_eq, consistent.last]
      by_cases same : region = delta.region
      · rw [if_pos same, if_pos same.symm]
      · rw [if_neg same, if_neg (Ne.symm same)]
    · intro effectId region
      rw [added, history, List.map_append, List.mem_append, consistent.added, List.mem_cons,
        or_comm]
      simp [Contribution.key]
    · rw [engine, added]
      exact consistent.tallies rfl

theorem Consistent.settle (consistent : Consistent l) (retain : Bool)
    (accepted : LocalLedger.settle fence retain region l = .ok next) : Consistent next := by
  obtain ⟨history, added, counters, last⟩ := settle_ok retain accepted
  refine ⟨?_, ?_, ?_, ?_⟩
  · intro other
    rw [last, history, lastOf, consistent.last, consistent.last]
    by_cases same : other = region
    · simp [same]
    · simp [same, Ne.symm same]
  · intro effectId other
    rw [added, history, consistent.added]
    simp
  · intro effectId other member
    rw [history] at member
    exact consistent.named effectId other (by simpa using member)
  · have same : next.engine.counter = l.engine.counter := by
      funext other
      rw [LocalCounters.counter, counters, LocalCounters.counter]
    rw [added]
    refine ⟨fun other => ?_, fun other => ?_⟩
    · rw [LocalCounters.memories, same]
      exact consistent.tallied.memories other
    · rw [LocalCounters.edges, same]
      exact consistent.tallied.edges other

/-- A delivery adds nothing twice exactly when it is undisturbed. -/
theorem Consistent.once_deliver (consistent : Consistent l)
    (accepted : LocalLedger.deliver ctx fence delta l = .ok next) :
    (next.added.map Contribution.key).Nodup ↔ (l.added.map Contribution.key).Nodup ∧
      l.Undisturbed fence.eventId delta.region := by
  obtain ⟨-, -, effect⟩ := deliver_ok accepted
  have last := consistent.last delta.region
  rcases effect with ⟨remembered, -, added⟩ | ⟨forgotten, -, added⟩
  · rw [remembered] at last
    rw [added]
    exact ⟨fun once => ⟨once, fun _ => (lastOf_eq_some_iff _ _ _).mp last.symm⟩, And.left⟩
  · rw [last] at forgotten
    have first : l.Undisturbed fence.eventId delta.region ↔
        (fence.eventId, delta.region) ∉ l.added.map Contribution.key := by
      rw [consistent.added, Undisturbed, ← lastOf_eq_some_iff]
      exact ⟨fun undisturbed member => forgotten (undisturbed member),
        fun absent member => absurd member absent⟩
    rw [added, List.map_append, first, List.map_cons, List.map_nil, ← List.concat_eq_append,
      List.nodup_concat, and_comm]
    rfl

end Steps

end LocalLedger

/-- The counters of an engine count writes. -/
def localCounter : WriteCounter LocalLedger LocalContext :=
  ⟨LocalLedger.deliver, LocalLedger.settle⟩

namespace LocalLedger

open DeliverySystem

/-- A delivery is undisturbed; nothing is asked of the other steps. -/
def UndisturbedStep (sys : DeliverySystem LocalLedger) : DeliveryAction LocalContext → Prop
  | .deliver token share _ _ => ∀ worker delta, sys.workers.lookup token = some worker →
      worker.claimed.effect.regionDeltas[share]? = some delta →
        sys.counters.Undisturbed worker.claimed.effect.effectId delta.region
  | _ => True

def machine (env : Env) : Machine (DeliverySystem LocalLedger) (DeliveryAction LocalContext) where
  allowed := UndisturbedStep
  step := DeliverySystem.step env localCounter

variable {sys : DeliverySystem LocalLedger}

/-- A delivery of a worker's share. -/
theorem deliver_ledger (consistent : Consistent sys.counters) (token : String) (worker : Worker)
    (delta : IngestRegionDelta) (observed : Bool) (ctx : LocalContext) :
    Consistent (sys.deliver localCounter token worker delta observed ctx).counters ∧
      (((sys.deliver localCounter token worker delta observed ctx).counters.added.map
          Contribution.key).Nodup ↔ (sys.counters.added.map Contribution.key).Nodup ∧
        sys.counters.Undisturbed worker.claimed.effect.effectId delta.region) := by
  simp only [DeliverySystem.deliver]
  split
  · next refused =>
      -- An effect without a name was never delivered.
      refine ⟨consistent, fun once => ⟨once, fun member => ?_⟩, And.left⟩
      have named := consistent.named _ _ member
      have empty : worker.claimed.effect.effectId.isEmpty = true := deliver_error refused
      rw [empty] at named
      cases named
  · next counters accepted =>
      exact ⟨consistent.deliver accepted, consistent.once_deliver accepted⟩

/-- A settlement of an effect in a region. -/
theorem settle_ledger (consistent : Consistent sys.counters) (claimed : ClaimedPostIngestEffect)
    (region : RegionKey) :
    Consistent (sys.settle localCounter claimed region).counters ∧
      (sys.settle localCounter claimed region).counters.added = sys.counters.added := by
  simp only [DeliverySystem.settle]
  split
  · exact ⟨consistent, rfl⟩
  · next counters accepted =>
      obtain ⟨-, added, -, -⟩ := settle_ok claimed.retainLegacyIdentity accepted
      exact ⟨consistent.settle claimed.retainLegacyIdentity accepted, added⟩

/-- What a step does to the ledger. -/
theorem step_ledger (env : Env) (consistent : Consistent sys.counters)
    (action : DeliveryAction LocalContext) :
    Consistent (sys.step env localCounter action).counters ∧
      (((sys.step env localCounter action).counters.added.map Contribution.key).Nodup ↔
        (sys.counters.added.map Contribution.key).Nodup ∧ UndisturbedStep sys action) := by
  -- A step that leaves the ledger as it is.
  have stays {next : DeliverySystem LocalLedger} (same : next.counters = sys.counters)
      (free : UndisturbedStep sys action) : Consistent next.counters ∧
        ((next.counters.added.map Contribution.key).Nodup ↔
          (sys.counters.added.map Contribution.key).Nodup ∧ UndisturbedStep sys action) := by
    rw [same]
    exact ⟨consistent, fun once => ⟨once, free⟩, And.left⟩
  cases action with
  | deliver token share observed args =>
      simp only [DeliverySystem.step]
      split
      · next absent =>
          apply stays rfl
          intro worker delta working
          rw [absent] at working
          cases working
      · next worker working =>
          split
          · next absent =>
              apply stays rfl
              intro held delta holds found
              cases working.symm.trans holds
              rw [absent] at found
              cases found
          · next delta found =>
              -- The worker and the share are determined by the action.
              have undisturbed : UndisturbedStep sys (.deliver token share observed args) ↔
                  sys.counters.Undisturbed worker.claimed.effect.effectId delta.region := by
                refine ⟨fun all => all worker delta working found, ?_⟩
                intro one held other holds there
                cases working.symm.trans holds
                cases found.symm.trans there
                exact one
              rw [undisturbed]
              exact deliver_ledger consistent token worker delta observed args
  | settle cleanup share =>
      simp only [DeliverySystem.step]
      split
      · exact stays rfl trivial
      · next claimed member =>
          split
          · exact stays rfl trivial
          · next delta found =>
              obtain ⟨keeps, added⟩ := settle_ledger consistent claimed delta.region
              rw [added]
              exact ⟨keeps, fun once => ⟨once, trivial⟩, And.left⟩
  | _ => exact stays (step_counters env localCounter sys _ id) trivial

/-- What a run does to the ledger. -/
theorem run_ledger (env : Env) (sys : DeliverySystem LocalLedger)
    (consistent : Consistent sys.counters) (actions : List (DeliveryAction LocalContext)) :
    Consistent (DeliverySystem.run env localCounter sys actions).counters ∧
      (((DeliverySystem.run env localCounter sys actions).counters.added.map
          Contribution.key).Nodup ↔
        (sys.counters.added.map Contribution.key).Nodup ∧ (machine env).Allows sys actions) := by
  induction actions generalizing sys with
  | nil => exact ⟨consistent, fun once => ⟨once, trivial⟩, And.left⟩
  | cons action actions ih =>
      obtain ⟨keeps, once⟩ := step_ledger env consistent action
      obtain ⟨still, later⟩ := ih _ keeps
      refine ⟨still, later.trans ?_⟩
      rw [once, and_assoc]
      rfl

/-- **A run adds every share at most once exactly when each of its deliveries is
undisturbed.** -/
theorem addsOnce_iff_undisturbed (env : Env) (start : DateTime)
    (actions : List (DeliveryAction LocalContext)) :
    AddsOnce (DeliverySystem.run env localCounter (.new new start) actions).counters ↔
      (machine env).Allows (.new new start) actions := by
  obtain ⟨consistent, once⟩ := run_ledger env (.new new start) consistent_new actions
  constructor
  · intro adds
    exact (once.mp adds.once).2
  · intro allows
    exact ⟨once.mpr ⟨List.nodup_nil, allows⟩, consistent.tallied⟩

/-- A delivery at the start of time, under the default trigger. -/
def atStart : LocalContext := ⟨⟨1000, 5000, 30, 6⟩, true, 0⟩

/-- The effect of `b2` is delivered, and its claim expires before it is acknowledged. The
effect of `b1`, whose identity is smaller, came in meanwhile: it is claimed first,
delivered to the same region, acknowledged and settled. The retry of `b2` then counts
again. -/
theorem not_addsOnce_retried_late :
    ¬ AddsOnce (DeliverySystem.run Env.blank localCounter (.new new 0) [
      .submit ⟨"org", "agent", "b2", ""⟩ (.one 2), .claim "t1" 30000,
      .deliver "t1" 0 true atStart, .tick 30000000000,
      .submit ⟨"org", "agent", "b1", ""⟩ (.one 1), .claim "t2" 30000,
      .deliver "t2" 0 true atStart, .acknowledge "t2", .settle 0 0,
      .claim "t3" 30000, .deliver "t3" 0 true atStart]).counters := by
  intro adds
  exact absurd adds.once (by decide +kernel)

end LocalLedger

end Exocortex
