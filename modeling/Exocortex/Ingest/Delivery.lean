import Exocortex.Ingest.Effects
import Exocortex.Storage.Claims

/-!
# Delivering effects

Batches are committed with their effects; workers claim effects, count their shares
region by region, acknowledge them, and then let the counters forget them. What counts
the writes is a parameter (`WriteCounter`): the shared queue and the local counters are
two of them.

A worker draws a token that no claim has had before. It acknowledges an effect only
after it saw every share of it counted; an effect is settled only after it was
acknowledged, by the worker or by the sweep over pending cleanups. Everything else may
happen at any time: a worker whose claim ran out, or whose effect was claimed again or
acknowledged, may still deliver, in any order and more than once, and it may or may not
see that a share was counted.

The invariant (`Delivering`) is about the outbox and the workers only. Its heart is
`newest`: a row with an unexpired claim carries the largest generation ever handed out.
-/

namespace Exocortex

open Library InMemoryStorage

/-- Why a share is not counted or not settled. -/
inductive DeliveryError where
  | emptyEventId
  | zeroGeneration
  | otherOrganization (queue region : String)

/-- The identity of an effect and the generation it is delivered under. -/
structure DeliveryFence where
  eventId : String
  generation : ℕ

/-- What counts the writes. `Args` is what a delivery takes from its surroundings. -/
structure WriteCounter (State Args : Type) where
  deliver : Args → DeliveryFence → IngestRegionDelta → State → Except DeliveryError State
  settle : DeliveryFence → Bool → RegionKey → State → Except DeliveryError State

/-- A share of an effect that was added to the counters of its region. -/
structure Contribution where
  effectId : String
  delta : IngestRegionDelta
deriving DecidableEq

/-- No effect contributes twice to a region when these are distinct. -/
def Contribution.key (contribution : Contribution) : String × RegionKey :=
  (contribution.effectId, contribution.delta.region)

/-- What was added to the counters of a region. -/
def addedTo (added : List Contribution) (region : RegionKey) (amount : IngestRegionDelta → ℕ) :
    ℕ :=
  ((added.filter fun contribution => contribution.delta.region = region).map
    fun contribution => amount contribution.delta).sum

theorem addedTo_concat (added : List Contribution) (effectId : String)
    (delta : IngestRegionDelta) (region : RegionKey) (amount : IngestRegionDelta → ℕ) :
    addedTo (added ++ [⟨effectId, delta⟩]) region amount =
      addedTo added region amount + if delta.region = region then amount delta else 0 := by
  by_cases same : delta.region = region
  · simp [addedTo, same]
  · simp [addedTo, same]

/-- Counters have 32 bits and stop at the largest value. -/
def counterMax : ℕ := 4294967295

/-- The counters of every region hold what was added to them, up to the largest value. -/
structure Tallied (memories edges : RegionKey → ℕ) (added : List Contribution) : Prop where
  memories : ∀ region, memories region =
    min counterMax (addedTo added region IngestRegionDelta.memories)
  edges : ∀ region, edges region =
    min counterMax (addedTo added region IngestRegionDelta.relationships)

variable {added : List Contribution} {delta : IngestRegionDelta}

/-- A counter that adds an amount in one region. -/
theorem addedTo_step {counter later : RegionKey → ℕ} {amount : IngestRegionDelta → ℕ}
    (effectId : String)
    (held : ∀ region, counter region = min counterMax (addedTo added region amount))
    (adds : ∀ region, later region =
      if region = delta.region then min counterMax (counter delta.region + amount delta)
      else counter region) (region : RegionKey) :
    later region = min counterMax (addedTo (added ++ [⟨effectId, delta⟩]) region amount) := by
  rw [adds, addedTo_concat, held, held]
  by_cases same : delta.region = region
  · rw [if_pos same.symm, if_pos same, same]
    omega
  · rw [if_neg (Ne.symm same), if_neg same, Nat.add_zero]

/-- Adding a share keeps the tally. -/
theorem Tallied.record {memories edges memories' edges' : RegionKey → ℕ}
    (tallied : Tallied memories edges added) (effectId : String)
    (moreMemories : ∀ region, memories' region =
      if region = delta.region then min counterMax (memories delta.region + delta.memories)
      else memories region) (moreEdges : ∀ region, edges' region =
      if region = delta.region then min counterMax (edges delta.region + delta.relationships)
      else edges region) : Tallied memories' edges' (added ++ [⟨effectId, delta⟩]) :=
  ⟨addedTo_step effectId tallied.memories moreMemories,
    addedTo_step effectId tallied.edges moreEdges⟩

/-- A claimed effect, and the regions whose shares its worker saw counted. -/
structure Worker where
  claimed : ClaimedPostIngestEffect
  delivered : List RegionKey

/-- The fence a claimed effect is delivered and settled under. -/
def ClaimedPostIngestEffect.fence (claimed : ClaimedPostIngestEffect) : DeliveryFence :=
  ⟨claimed.effect.effectId, claimed.deliveryGeneration⟩

/-- Every share of the worker's effect was seen counted. -/
def Worker.finished (worker : Worker) : Bool :=
  worker.claimed.effect.regionDeltas.all fun delta => decide (delta.region ∈ worker.delivered)

/-- A batch of one memory. -/
def CommitRows.one (id : UInt8) : CommitRows :=
  ⟨[.blank ⟨Bytes.fill 16 id⟩], [], [.blank ⟨Bytes.fill 16 id⟩], 1⟩

/-- The store and the clock, the workers by their tokens, the acknowledged effects that
somebody is to settle, and the counters. -/
structure DeliverySystem (State : Type) where
  store : InMemoryStorage
  now : DateTime
  workers : Table String Worker
  cleanups : List ClaimedPostIngestEffect
  counters : State

/-- One step. `observed` says whether the worker sees that its share was counted. -/
inductive DeliveryAction (Args : Type) where
  | tick (elapsed : ℕ)
  | submit (batch : IngestBatch) (rows : CommitRows)
  | call (call : Call) (other : call.part ≠ some .outbox)
  | claim (token : String) (leaseMs : ℤ)
  | renew (token : String) (leaseMs : ℤ)
  | deliver (token : String) (share : ℕ) (observed : Bool) (args : Args)
  | acknowledge (token : String)
  | sweep (limit : ℕ)
  | settle (cleanup share : ℕ)
  | clean (effectId : String)

namespace DeliverySystem

variable {State Args : Type}

def new (counters : State) (now : DateTime) : DeliverySystem State :=
  ⟨.new, now, ∅, [], counters⟩

/-- A call on the store whose reply nobody waits for. -/
def call (env : Env) (sys : DeliverySystem State) (call : Call) : DeliverySystem State :=
  { sys with store := (call.run env sys.now sys.store).2 }

def claim (env : Env) (sys : DeliverySystem State) (token : String) (leaseMs : ℤ) :
    DeliverySystem State :=
  match Call.run env sys.now sys.store (.claimIngestEffect token leaseMs) with
  | (.ok (.claimed (some claimed)), store) =>
      { sys with store := store, workers := sys.workers.insert token ⟨claimed, []⟩ }
  | (_, store) => { sys with store := store }

/-- One share of the worker's effect. -/
def deliver (counter : WriteCounter State Args) (sys : DeliverySystem State) (token : String)
    (worker : Worker) (delta : IngestRegionDelta) (observed : Bool) (args : Args) :
    DeliverySystem State :=
  match counter.deliver args worker.claimed.fence delta sys.counters with
  | .error _ => sys
  | .ok counters => { sys with
      counters := counters
      workers :=
        if observed then
          sys.workers.insert token { worker with delivered := delta.region :: worker.delivered }
        else sys.workers }

def acknowledge (env : Env) (sys : DeliverySystem State) (token : String) (worker : Worker) :
    DeliverySystem State :=
  match Call.run env sys.now sys.store
      (.acknowledgeIngestEffect worker.claimed.effect.effectId token) with
  | (.ok (.flag true), store) =>
      { sys with store := store, cleanups := sys.cleanups ++ [worker.claimed] }
  | (_, store) => { sys with store := store }

def settle (counter : WriteCounter State Args) (sys : DeliverySystem State)
    (claimed : ClaimedPostIngestEffect) (region : RegionKey) : DeliverySystem State :=
  match counter.settle claimed.fence claimed.retainLegacyIdentity region sys.counters with
  | .error _ => sys
  | .ok counters => { sys with counters := counters }

def step (env : Env) (counter : WriteCounter State Args) (sys : DeliverySystem State) :
    DeliveryAction Args → DeliverySystem State
  | .tick elapsed => { sys with now := sys.now + elapsed }
  | .submit batch rows => sys.call env (commitRows batch rows)
  | .call call _ => sys.call env call
  | .claim token leaseMs =>
      -- Tokens are fresh: no two claims share one.
      if token ∈ sys.workers then sys else sys.claim env token leaseMs
  | .renew token leaseMs =>
      match sys.workers.lookup token with
      | none => sys
      | some worker => sys.call env
          (.renewIngestEffectClaim worker.claimed.effect.effectId token leaseMs)
  | .deliver token share observed args =>
      match sys.workers.lookup token with
      | none => sys
      | some worker =>
          match worker.claimed.effect.regionDeltas[share]? with
          | none => sys
          | some delta => sys.deliver counter token worker delta observed args
  | .acknowledge token =>
      match sys.workers.lookup token with
      | none => sys
      | some worker => if worker.finished then sys.acknowledge env token worker else sys
  | .sweep limit =>
      { sys with cleanups := sys.cleanups ++ sys.store.pendingIngestEffectCleanups limit }
  | .settle cleanup share =>
      match sys.cleanups[cleanup]? with
      | none => sys
      | some claimed =>
          match claimed.effect.regionDeltas[share]? with
          | none => sys
          | some delta => sys.settle counter claimed delta.region
  | .clean effectId => sys.call env (.completeIngestEffectCleanup effectId)

def run (env : Env) (counter : WriteCounter State Args) (sys : DeliverySystem State)
    (actions : List (DeliveryAction Args)) : DeliverySystem State :=
  actions.foldl (step env counter) sys

/-- The action delivers or settles a share. -/
def Counts : DeliveryAction Args → Prop
  | .deliver .. | .settle .. => True
  | _ => False

/-- The counters change by deliveries and settlements only. -/
theorem step_counters (env : Env) (counter : WriteCounter State Args) (sys : DeliverySystem State)
    (action : DeliveryAction Args) (other : ¬ Counts action) :
    (sys.step env counter action).counters = sys.counters := by
  cases action with
  | claim token leaseMs =>
      simp only [step]
      split
      · rfl
      · simp only [claim]
        split
        · rfl
        · rfl
  | renew token leaseMs =>
      simp only [step]
      split
      · rfl
      · rfl
  | acknowledge token =>
      simp only [step]
      split
      · rfl
      · split
        · simp only [acknowledge]
          split
          · rfl
          · rfl
        · rfl
  | deliver token share observed args => exact absurd trivial other
  | settle cleanup share => exact absurd trivial other
  | tick elapsed => rfl
  | submit batch rows => rfl
  | call call outside => rfl
  | sweep limit => rfl
  | clean effectId => rfl

/-! ## The outbox and its workers -/

/-- A stored effect names no region twice, and its identity is the text of a settled
key. -/
structure StoredEffect (s : InMemoryStorage) (effectId : String) (row : InMemoryIngestEffect) :
    Prop where
  keyed : row.effect.effectId = effectId
  regions : (row.effect.regionDeltas.map IngestRegionDelta.region).Nodup
  settled : ∃ key, effectId = keyJson key ∧ key ∈ s.settledIngest

/-- A row is acknowledged under a generation. -/
def AcknowledgedAt (s : InMemoryStorage) (effectId : String) (generation : ℕ) : Prop :=
  ∃ row, s.ingestEffects.lookup effectId = some row ∧ row.acknowledged = true ∧
    row.deliveryGeneration = some generation

/-- A worker holds an effect that is stored, under a generation that its row has reached. -/
structure Holds (s : InMemoryStorage) (worker : Worker) : Prop where
  positive : 0 < worker.claimed.deliveryGeneration
  row : ∃ row generation, s.ingestEffects.lookup worker.claimed.effect.effectId = some row ∧
    row.effect = worker.claimed.effect ∧ row.deliveryGeneration = some generation ∧
    worker.claimed.deliveryGeneration ≤ generation

/-- An effect that is to be settled is stored, and acknowledged under its generation. -/
def Settleable (s : InMemoryStorage) (claimed : ClaimedPostIngestEffect) : Prop :=
  ∃ row, s.ingestEffects.lookup claimed.effect.effectId = some row ∧
    row.effect = claimed.effect ∧ row.acknowledged = true ∧
    row.deliveryGeneration = some claimed.deliveryGeneration

/-- What holds of the outbox and the workers in every state. -/
structure Delivering (sys : DeliverySystem State) : Prop where
  unarmed : sys.store.failNextIngestCommit = false
  stored : ∀ effectId row, sys.store.ingestEffects.lookup effectId = some row →
    StoredEffect sys.store effectId row
  generation_le : ∀ effectId row generation,
    sys.store.ingestEffects.lookup effectId = some row →
      row.deliveryGeneration = some generation → generation ≤ sys.store.ingestEffectGeneration
  unique : ∀ effectId row other held generation,
    sys.store.ingestEffects.lookup effectId = some row →
      sys.store.ingestEffects.lookup other = some held →
        row.deliveryGeneration = some generation → held.deliveryGeneration = some generation →
          effectId = other
  closed : ∀ effectId row, sys.store.ingestEffects.lookup effectId = some row →
    row.acknowledged = true → row.deliveryGeneration.isSome
  newest : ∀ effectId row, sys.store.ingestEffects.lookup effectId = some row →
    row.acknowledged = false → row.claimLive sys.now = true →
      row.deliveryGeneration = some sys.store.ingestEffectGeneration
  holder : ∀ effectId row token until_, sys.store.ingestEffects.lookup effectId = some row →
    row.claim = some (token, until_) → ∃ worker, sys.workers.lookup token = some worker ∧
      worker.claimed.effect.effectId = effectId ∧
      row.deliveryGeneration = some worker.claimed.deliveryGeneration
  worker : ∀ token worker, sys.workers.lookup token = some worker → Holds sys.store worker
  cleanup : ∀ claimed ∈ sys.cleanups, Settleable sys.store claimed

theorem delivering_new (counters : State) (now : DateTime) :
    Delivering (.new counters now) where
  unarmed := rfl
  stored _ _ found := by simp [new, InMemoryStorage.new] at found
  generation_le _ _ _ found := by simp [new, InMemoryStorage.new] at found
  unique _ _ _ _ _ found := by simp [new, InMemoryStorage.new] at found
  closed _ _ found := by simp [new, InMemoryStorage.new] at found
  newest _ _ found := by simp [new, InMemoryStorage.new] at found
  holder _ _ _ _ found := by simp [new, InMemoryStorage.new] at found
  worker _ _ found := by simp [new] at found
  cleanup _ member := by simp [new] at member

/-! ## How the outbox changes -/

/-- Effects stay stored with their content, and acknowledged ones stay acknowledged
under their generation. -/
def Evolves (s t : InMemoryStorage) : Prop :=
  ∀ effectId row, s.ingestEffects.lookup effectId = some row →
    ∃ later, t.ingestEffects.lookup effectId = some later ∧ later.effect = row.effect ∧
      (row.acknowledged = true →
        later.acknowledged = true ∧ later.deliveryGeneration = row.deliveryGeneration)

variable {s t : InMemoryStorage} {row later : InMemoryIngestEffect} {effectId token : String}
  {claimed : ClaimedPostIngestEffect} {worker : Worker}

theorem Evolves.refl (same : t.ingestEffects = s.ingestEffects) : Evolves s t := by
  intro effectId row found
  exact ⟨row, by rw [same]; exact found, rfl, fun acknowledged => ⟨acknowledged, rfl⟩⟩

/-- Settled keys stay settled. -/
theorem StoredEffect.mono (stored : StoredEffect s effectId row)
    (settled : ∀ key ∈ s.settledIngest, key ∈ t.settledIngest) : StoredEffect t effectId row := by
  obtain ⟨key, text, isSettled⟩ := stored.settled
  exact ⟨stored.keyed, stored.regions, key, text, settled key isSettled⟩

theorem AcknowledgedAt.evolve {generation : ℕ}
    (acknowledged : AcknowledgedAt s effectId generation) (evolves : Evolves s t) :
    AcknowledgedAt t effectId generation := by
  obtain ⟨row, found, closed, under⟩ := acknowledged
  obtain ⟨later, present, -, keeps⟩ := evolves effectId row found
  obtain ⟨still, same⟩ := keeps closed
  exact ⟨later, present, still, same.trans under⟩

theorem Settleable.evolve (settleable : Settleable s claimed) (evolves : Evolves s t) :
    Settleable t claimed := by
  obtain ⟨row, found, effect, closed, under⟩ := settleable
  obtain ⟨later, present, same, keeps⟩ := evolves _ row found
  obtain ⟨still, generation⟩ := keeps closed
  exact ⟨later, present, same.trans effect, still, generation.trans under⟩

theorem Holds.evolve (holds : Holds s worker)
    (rises : ∀ effectId row, s.ingestEffects.lookup effectId = some row → ∀ generation,
      row.deliveryGeneration = some generation → ∃ later reached,
        t.ingestEffects.lookup effectId = some later ∧ later.effect = row.effect ∧
        later.deliveryGeneration = some reached ∧ generation ≤ reached) : Holds t worker := by
  obtain ⟨row, generation, found, effect, under, reached⟩ := holds.row
  obtain ⟨later, next, present, same, above, le⟩ := rises _ row found generation under
  exact ⟨holds.positive, later, next, present, same.trans effect, above, reached.trans le⟩

/-- A row after one was put in place is that one or an old one. -/
theorem lookup_replaced {other : String} {held : InMemoryIngestEffect}
    (effects : t.ingestEffects = s.ingestEffects.insert effectId later)
    (present : t.ingestEffects.lookup other = some held) :
    (other = effectId ∧ held = later) ∨
      (other ≠ effectId ∧ s.ingestEffects.lookup other = some held) := by
  rw [effects, Table.lookup_insert_eq] at present
  split at present
  · next same => exact .inl ⟨same, (Option.some.inj present).symm⟩
  · next apart => exact .inr ⟨apart, present⟩

/-- Putting a row in place acknowledges nothing when the row was acknowledged under its
generation before. -/
theorem AcknowledgedAt.before (effects : t.ingestEffects = s.ingestEffects.insert effectId later)
    (was : later.acknowledged = true → ∀ generation,
      later.deliveryGeneration = some generation → AcknowledgedAt s effectId generation)
    (other : String) (generation : ℕ) (acknowledged : AcknowledgedAt t other generation) :
    AcknowledgedAt s other generation := by
  obtain ⟨row, present, closed, under⟩ := acknowledged
  rcases lookup_replaced effects present with ⟨rfl, rfl⟩ | ⟨-, old⟩
  · exact was closed generation under
  · exact ⟨row, old, closed, under⟩

/-- A step that acknowledges nothing and counts nothing: acknowledged rows were so
before, and a worker is an old one or has delivered nothing yet. -/
structure Quiet (sys next : DeliverySystem State) : Prop where
  evolves : Evolves sys.store next.store
  acknowledged : ∀ effectId generation, AcknowledgedAt next.store effectId generation →
    AcknowledgedAt sys.store effectId generation
  workers : ∀ token worker, next.workers.lookup token = some worker →
    sys.workers.lookup token = some worker ∨ worker.delivered = []
  counters : next.counters = sys.counters

section Steps

variable {sys : DeliverySystem State} {t : InMemoryStorage}

/-- A change of the store alone is quiet when it acknowledges nothing. -/
theorem Quiet.of_store (evolves : Evolves sys.store t)
    (acknowledged : ∀ effectId generation, AcknowledgedAt t effectId generation →
      AcknowledgedAt sys.store effectId generation) : Quiet sys { sys with store := t } :=
  ⟨evolves, acknowledged, fun _ _ working => .inl working, rfl⟩

/-- A call that leaves the outbox alone. -/
theorem Delivering.frame (delivering : Delivering sys)
    (outbox : t.view .outbox = sys.store.view .outbox) :
    Delivering { sys with store := t } ∧ Quiet sys { sys with store := t } := by
  obtain ⟨settled, effects, generation, armed⟩ := OutboxSystem.outbox_fields outbox
  have evolves : Evolves sys.store t := .refl effects
  refine ⟨⟨armed.trans delivering.unarmed, ?_, ?_, ?_, ?_, ?_, ?_, ?_, ?_⟩, .of_store evolves ?_⟩
  · intro effectId row found
    dsimp only at found ⊢
    rw [effects] at found
    exact (delivering.stored effectId row found).mono fun key member => settled ▸ member
  · dsimp only
    rw [effects, generation]
    exact delivering.generation_le
  · dsimp only
    rw [effects]
    exact delivering.unique
  · dsimp only
    rw [effects]
    exact delivering.closed
  · dsimp only
    rw [effects, generation]
    exact delivering.newest
  · dsimp only
    rw [effects]
    exact delivering.holder
  · intro token worker found
    apply (delivering.worker token worker found).evolve
    intro effectId row present g under
    exact ⟨row, g, by rw [effects]; exact present, rfl, under, le_rfl⟩
  · intro claimed member
    exact (delivering.cleanup claimed member).evolve evolves
  · intro effectId generation acknowledged
    rw [AcknowledgedAt, effects] at acknowledged
    exact acknowledged

/-- What has to hold of a row for it to be put in place, and of the workers after it. -/
structure Fits (sys : DeliverySystem State) (t : InMemoryStorage)
    (workers : Table String Worker) (effectId : String) (later : InMemoryIngestEffect) :
    Prop where
  effects : t.ingestEffects = sys.store.ingestEffects.insert effectId later
  settled : ∀ key ∈ sys.store.settledIngest, key ∈ t.settledIngest
  unarmed : t.failNextIngestCommit = false
  counter : sys.store.ingestEffectGeneration ≤ t.ingestEffectGeneration
  stored : StoredEffect t effectId later
  replaces : ∀ row, sys.store.ingestEffects.lookup effectId = some row →
    later.effect = row.effect ∧
    (row.acknowledged = true →
      later.acknowledged = true ∧ later.deliveryGeneration = row.deliveryGeneration) ∧
    ∀ generation, row.deliveryGeneration = some generation → ∃ reached,
      later.deliveryGeneration = some reached ∧ generation ≤ reached
  generation_le : ∀ generation, later.deliveryGeneration = some generation →
    generation ≤ t.ingestEffectGeneration
  unique : ∀ generation, later.deliveryGeneration = some generation → ∀ other held,
    sys.store.ingestEffects.lookup other = some held →
      held.deliveryGeneration = some generation → other = effectId
  closed : later.acknowledged = true → later.deliveryGeneration.isSome
  newest : later.acknowledged = false → later.claimLive sys.now = true →
    later.deliveryGeneration = some t.ingestEffectGeneration
  others : ∀ other held, sys.store.ingestEffects.lookup other = some held →
    held.acknowledged = false → held.claimLive sys.now = true →
      t.ingestEffectGeneration = sys.store.ingestEffectGeneration
  holder : ∀ token until_, later.claim = some (token, until_) → ∃ worker,
    workers.lookup token = some worker ∧ worker.claimed.effect.effectId = effectId ∧
      later.deliveryGeneration = some worker.claimed.deliveryGeneration
  keeps : ∀ token worker, sys.workers.lookup token = some worker →
    workers.lookup token = some worker
  hires : ∀ token worker, workers.lookup token = some worker →
    sys.workers.lookup token = some worker ∨ Holds t worker

section Put

variable {workers : Table String Worker} {effectId : String} {later : InMemoryIngestEffect}

/-- Every row stays, at its place or replaced by the new one. -/
theorem Fits.later_of (fits : Fits sys t workers effectId later) {other : String}
    (found : sys.store.ingestEffects.lookup other = some row) :
    ∃ held, t.ingestEffects.lookup other = some held ∧ held.effect = row.effect ∧
      (row.acknowledged = true →
        held.acknowledged = true ∧ held.deliveryGeneration = row.deliveryGeneration) ∧
      ∀ generation, row.deliveryGeneration = some generation → ∃ reached,
        held.deliveryGeneration = some reached ∧ generation ≤ reached := by
  rw [fits.effects, Table.lookup_insert_eq]
  by_cases same : other = effectId
  · subst same
    exact ⟨later, if_pos rfl, fits.replaces row found⟩
  · exact ⟨row, by rw [if_neg same]; exact found, rfl, fun closed => ⟨closed, rfl⟩,
      fun generation under => ⟨generation, under, le_rfl⟩⟩

theorem Fits.evolves (fits : Fits sys t workers effectId later) : Evolves sys.store t := by
  intro other row found
  obtain ⟨held, present, effect, closed, -⟩ := fits.later_of found
  exact ⟨held, present, effect, closed⟩

theorem Fits.holds (fits : Fits sys t workers effectId later) (holds : Holds sys.store worker) :
    Holds t worker := by
  apply holds.evolve
  intro other row found generation under
  obtain ⟨held, present, effect, -, rises⟩ := fits.later_of found
  obtain ⟨reached, above, le⟩ := rises generation under
  exact ⟨held, reached, present, effect, above, le⟩

/-- **Putting a row in place.** -/
theorem Delivering.put (delivering : Delivering sys)
    (fits : Fits sys t workers effectId later) :
    Delivering { sys with store := t, workers := workers } := by
  refine ⟨fits.unarmed, ?_, ?_, ?_, ?_, ?_, ?_, ?_, ?_⟩
  · intro other held present
    rcases lookup_replaced fits.effects present with ⟨rfl, rfl⟩ | ⟨-, old⟩
    · exact fits.stored
    · exact (delivering.stored other held old).mono fits.settled
  · intro other held generation present under
    rcases lookup_replaced fits.effects present with ⟨-, rfl⟩ | ⟨-, old⟩
    · exact fits.generation_le generation under
    · exact (delivering.generation_le other held generation old under).trans fits.counter
  · intro left rowLeft right rowRight generation inLeft inRight underLeft underRight
    rcases lookup_replaced fits.effects inLeft with ⟨sameLeft, rfl⟩ | ⟨-, oldLeft⟩
    · rcases lookup_replaced fits.effects inRight with ⟨sameRight, -⟩ | ⟨-, oldRight⟩
      · exact sameLeft.trans sameRight.symm
      · exact sameLeft.trans
          (fits.unique generation underLeft right rowRight oldRight underRight).symm
    · rcases lookup_replaced fits.effects inRight with ⟨sameRight, rfl⟩ | ⟨-, oldRight⟩
      · exact (fits.unique generation underRight left rowLeft oldLeft underLeft).trans
          sameRight.symm
      · exact delivering.unique left rowLeft right rowRight generation oldLeft oldRight underLeft
          underRight
  · intro other held present acknowledged
    rcases lookup_replaced fits.effects present with ⟨-, rfl⟩ | ⟨-, old⟩
    · exact fits.closed acknowledged
    · exact delivering.closed other held old acknowledged
  · intro other held present open_ live
    rcases lookup_replaced fits.effects present with ⟨-, rfl⟩ | ⟨-, old⟩
    · exact fits.newest open_ live
    · dsimp only
      rw [fits.others other held old open_ live]
      exact delivering.newest other held old open_ live
  · intro other held token until_ present claimed
    rcases lookup_replaced fits.effects present with ⟨rfl, rfl⟩ | ⟨-, old⟩
    · exact fits.holder token until_ claimed
    · obtain ⟨worker, working, ofEffect, under⟩ :=
        delivering.holder other held token until_ old claimed
      exact ⟨worker, fits.keeps token worker working, ofEffect, under⟩
  · intro token worker working
    rcases fits.hires token worker working with old | new
    · exact fits.holds (delivering.worker token worker old)
    · exact new
  · intro claimed member
    exact (delivering.cleanup claimed member).evolve fits.evolves

end Put

section Delivering

variable (delivering : Delivering sys)
include delivering

/-- A row is replaced by one of the same effect and generation, whose claim, if it has
one, is held under the same token. -/
theorem Delivering.touch (found : sys.store.ingestEffects.lookup effectId = some row)
    (outbox : t.view .outbox = (sys.store.settledIngest,
      sys.store.ingestEffects.insert effectId later, sys.store.ingestEffectGeneration,
      sys.store.failNextIngestCommit)) (effect : later.effect = row.effect)
    (generation : later.deliveryGeneration = row.deliveryGeneration)
    (closed : row.acknowledged = true → later.acknowledged = true)
    (claimed : later.acknowledged = true → row.deliveryGeneration.isSome)
    (live : later.acknowledged = false → later.claimLive sys.now = true →
      row.acknowledged = false ∧ row.claimLive sys.now = true)
    (claim : ∀ token until_, later.claim = some (token, until_) →
      ∃ before, row.claim = some (token, before)) :
    Delivering { sys with store := t } ∧ Evolves sys.store t := by
  obtain ⟨settled, effects, counter, armed⟩ := OutboxSystem.outbox_fields outbox
  have fits : Fits sys t sys.workers effectId later := by
    refine ⟨effects, fun key member => settled ▸ member, armed.trans delivering.unarmed,
      counter.ge, ?_, ?_, ?_, ?_, ?_, ?_, fun _ _ _ _ _ => counter, ?_,
      fun _ _ working => working, fun _ _ working => .inl working⟩
    · have before := delivering.stored effectId row found
      refine StoredEffect.mono ⟨?_, ?_, before.settled⟩ fun key member => settled ▸ member
      · rw [effect]
        exact before.keyed
      · rw [effect]
        exact before.regions
    · intro held present
      cases found.symm.trans present
      exact ⟨effect, fun acknowledged => ⟨closed acknowledged, generation⟩,
        fun g under => ⟨g, generation.trans under, le_rfl⟩⟩
    · intro g under
      rw [counter]
      exact delivering.generation_le effectId row g found (generation.symm.trans under)
    · intro g under other held present same
      exact delivering.unique other held effectId row g present found same
        (generation.symm.trans under)
    · intro acknowledged
      rw [generation]
      exact claimed acknowledged
    · intro open_ alive
      obtain ⟨wasOpen, wasLive⟩ := live open_ alive
      rw [generation, counter]
      exact delivering.newest effectId row found wasOpen wasLive
    · intro token until_ holds
      obtain ⟨previous, wasClaimed⟩ := claim token until_ holds
      rw [generation]
      exact delivering.holder effectId row token previous found wasClaimed
  exact ⟨delivering.put fits, fits.evolves⟩

/-- A batch that was not settled before leaves a fresh row behind. -/
theorem Delivering.fresh {key : IngestBatchKey} (settlement : SettledIngestBatch)
    (effect : PostIngestEffect) (unsettled : sys.store.settledIngest.lookup key = none)
    (named : effect.effectId = keyJson key)
    (regions : (effect.regionDeltas.map IngestRegionDelta.region).Nodup)
    (outbox : t.view .outbox = (sys.store.settledIngest.insert key settlement,
      sys.store.ingestEffects.insert effect.effectId (freshEffect effect),
      sys.store.ingestEffectGeneration, sys.store.failNextIngestCommit)) :
    Delivering { sys with store := t } ∧ Quiet sys { sys with store := t } := by
  obtain ⟨settled, effects, counter, armed⟩ := OutboxSystem.outbox_fields outbox
  have fits : Fits sys t sys.workers effect.effectId (freshEffect effect) := by
    refine ⟨effects, ?_, armed.trans delivering.unarmed, counter.ge,
      ⟨rfl, regions, key, named, ?_⟩, ?_, fun _ under => ?_, fun _ under => ?_, fun closed => ?_,
      fun _ live => ?_, fun _ _ _ _ _ => counter, fun _ _ claim => ?_,
      fun _ _ working => working, fun _ _ working => .inl working⟩
    · intro other member
      rw [settled, AList.mem_insert]
      exact .inr member
    · rw [settled, AList.mem_insert]
      exact .inl rfl
    · -- A stored row of this identity would be the text of a settled key.
      intro row found
      obtain ⟨other, text, isSettled⟩ := (delivering.stored _ row found).settled
      rw [← keyJson_injective (named.symm.trans text)] at isSettled
      exact absurd isSettled (AList.lookup_eq_none.mp unsettled)
    · cases under
    · cases under
    · cases closed
    · cases live
    · cases claim
  exact ⟨delivering.put fits, .of_store fits.evolves
    (AcknowledgedAt.before effects fun closed => by cases closed)⟩

/-- A worker with a fresh token takes a row under the next generation. -/
theorem Delivering.claim {until_ : DateTime} {retain : Bool}
    (found : sys.store.ingestEffects.lookup effectId = some row)
    (open_ : row.acknowledged = false)
    (alone : ∀ other held, sys.store.ingestEffects.lookup other = some held →
      held.acknowledged = false → held.claimLive sys.now = false) (unused : token ∉ sys.workers)
    (outbox : t.view .outbox = (sys.store.settledIngest, sys.store.ingestEffects.insert effectId
      (claimRow row token until_ (sys.store.ingestEffectGeneration + 1)),
      sys.store.ingestEffectGeneration + 1, sys.store.failNextIngestCommit)) :
    Delivering { sys with
      store := t
      workers := sys.workers.insert token
        ⟨⟨row.effect, sys.store.ingestEffectGeneration + 1, retain⟩, []⟩ } ∧
      Quiet sys { sys with
        store := t
        workers := sys.workers.insert token
          ⟨⟨row.effect, sys.store.ingestEffectGeneration + 1, retain⟩, []⟩ } := by
  obtain ⟨settled, effects, counter, armed⟩ := OutboxSystem.outbox_fields outbox
  have keyed := (delivering.stored effectId row found).keyed
  have hired : ∀ holding worker, (sys.workers.insert token
      ⟨⟨row.effect, sys.store.ingestEffectGeneration + 1, retain⟩, []⟩).lookup holding =
        some worker → sys.workers.lookup holding = some worker ∨
          worker = ⟨⟨row.effect, sys.store.ingestEffectGeneration + 1, retain⟩, []⟩ := by
    intro holding worker working
    rw [Table.lookup_insert_eq] at working
    split at working
    · exact .inr (Option.some.inj working).symm
    · exact .inl working
  have fits : Fits sys t (sys.workers.insert token
      ⟨⟨row.effect, sys.store.ingestEffectGeneration + 1, retain⟩, []⟩) effectId
      (claimRow row token until_ (sys.store.ingestEffectGeneration + 1)) := by
    refine ⟨effects, fun key member => settled ▸ member, armed.trans delivering.unarmed,
      counter ▸ Nat.le_succ _, ?_, ?_, ?_, ?_, fun _ => rfl, fun _ _ => by rw [counter]; rfl, ?_,
      ?_, ?_, ?_⟩
    · have before := delivering.stored effectId row found
      exact StoredEffect.mono ⟨before.keyed, before.regions, before.settled⟩
        fun key member => settled ▸ member
    · intro held present
      cases found.symm.trans present
      refine ⟨rfl, fun closed => ?_, fun generation under => ?_⟩
      · rw [open_] at closed
        cases closed
      · exact ⟨_, rfl, (delivering.generation_le effectId row generation found under).trans
          (Nat.le_succ _)⟩
    · intro generation under
      cases under
      exact counter.ge
    · -- No row carried the new generation before.
      intro generation under other held present same
      cases under
      exact absurd (delivering.generation_le other held _ present same) (Nat.not_succ_le_self _)
    · intro other held present wasOpen live
      rw [alone other held present wasOpen] at live
      cases live
    · intro holding until' claimed
      cases claimed
      exact ⟨_, by rw [Table.lookup_insert_eq, if_pos rfl], keyed, rfl⟩
    · intro holding worker working
      have apart : holding ≠ token := by
        rintro rfl
        exact unused (AList.lookup_isSome.mp (by rw [working]; rfl))
      rw [Table.lookup_insert_eq, if_neg apart]
      exact working
    · intro holding worker working
      rcases hired holding worker working with old | rfl
      · exact .inl old
      · refine .inr ⟨Nat.succ_pos _, claimRow row token until_
          (sys.store.ingestEffectGeneration + 1), _, ?_, rfl, rfl, le_rfl⟩
        rw [effects, Table.lookup_insert_eq, if_pos keyed]
  refine ⟨delivering.put fits, fits.evolves, ?_, ?_, rfl⟩
  · apply AcknowledgedAt.before effects
    intro closed
    rw [claimRow, open_] at closed
    cases closed
  · intro holding worker working
    rcases hired holding worker working with old | rfl
    · exact .inl old
    · exact .inr rfl

theorem Delivering.submit (env : Env) (batch : IngestBatch) (rows : CommitRows) :
    Delivering (sys.call env (commitRows batch rows)) ∧
      Quiet sys (sys.call env (commitRows batch rows)) := by
  have outbox := Call.run_view env sys.now sys.store (commitRows batch rows) .outbox
  simp only [commitRows, Call.gated, Outcome.map_post,
    commitIngestBatchWithEffect_unarmed delivering.unarmed] at outbox
  cases commitIngestLocked_cases env batch.key rows.memories rows.relationships rows.accepted
    (some (postIngestEffect batch rows batch.key)) sys.now sys.store with
  | duplicate settled found shape =>
      rw [shape] at outbox
      exact delivering.frame outbox
  | refused unsettled reason shape =>
      obtain ⟨error, shape⟩ := shape
      rw [shape] at outbox
      exact delivering.frame outbox
  | committed records settled unsettled matching endpoints reply settles effects generation
      armed =>
      refine delivering.fresh settled (postIngestEffect batch rows batch.key) unsettled rfl
        (postIngestEffect_regions batch rows batch.key) ?_
      exact outbox.trans (Prod.ext settles (Prod.ext effects (Prod.ext generation armed)))

theorem Delivering.claimNext (env : Env) (leaseMs : ℤ) (unused : token ∉ sys.workers) :
    Delivering (sys.claim env token leaseMs) ∧ Quiet sys (sys.claim env token leaseMs) := by
  have outbox := Call.run_view env sys.now sys.store (.claimIngestEffect token leaseMs) .outbox
  simp only [Call.gated, Outcome.map_post] at outbox
  have reply : (Call.run env sys.now sys.store (.claimIngestEffect token leaseMs)).1 =
      (sys.store.claimIngestEffect token leaseMs sys.now).reply.map .claimed := rfl
  cases claimIngestEffect_cases token leaseMs sys.now sys.store with
  | nothing shape =>
      rw [shape] at outbox reply
      rw [DeliverySystem.claim, ← Prod.eta (Call.run _ _ _ _), reply]
      exact delivering.frame outbox
  | claimed effectId row found open_ alone shape =>
      rw [shape] at outbox reply
      rw [DeliverySystem.claim, ← Prod.eta (Call.run _ _ _ _), reply]
      exact delivering.claim found open_ alone unused outbox

/-- A renewal moves the expiry of a claim. -/
theorem Delivering.renew (env : Env) (effectId token : String) (leaseMs : ℤ) :
    Delivering (sys.call env (.renewIngestEffectClaim effectId token leaseMs)) ∧
      Quiet sys (sys.call env (.renewIngestEffectClaim effectId token leaseMs)) := by
  have outbox := Call.run_view env sys.now sys.store
    (.renewIngestEffectClaim effectId token leaseMs) .outbox
  simp only [Call.gated, Outcome.map_post] at outbox
  cases renewIngestEffectClaim_cases effectId token leaseMs sys.now sys.store with
  | lost shape =>
      rw [shape] at outbox
      exact delivering.frame outbox
  | renewed row found current shape =>
      rw [shape] at outbox
      obtain ⟨until_, claim, -⟩ := OutboxSystem.claim_of_claimedBy current
      obtain ⟨keeps, evolves⟩ := delivering.touch found outbox rfl rfl (fun closed => closed)
        (delivering.closed effectId row found)
        (fun open_ _ => ⟨open_, OutboxSystem.claimLive_of_claimedBy current⟩)
        (fun other _ later => ⟨until_, by cases later; exact claim⟩)
      obtain ⟨-, effects, -, -⟩ := OutboxSystem.outbox_fields outbox
      exact ⟨keeps, .of_store evolves (AcknowledgedAt.before effects
        fun closed generation under => ⟨row, found, closed, under⟩)⟩

/-- A cleanup marks a row. -/
theorem Delivering.clean (env : Env) (effectId : String) :
    Delivering (sys.call env (.completeIngestEffectCleanup effectId)) ∧
      Quiet sys (sys.call env (.completeIngestEffectCleanup effectId)) := by
  have outbox := Call.run_view env sys.now sys.store (.completeIngestEffectCleanup effectId)
    .outbox
  simp only [Call.gated, Outcome.map_post] at outbox
  cases completeIngestEffectCleanup_cases effectId sys.store with
  | lost shape =>
      rw [shape] at outbox
      exact delivering.frame outbox
  | marked row found acknowledged shape =>
      rw [shape] at outbox
      obtain ⟨keeps, evolves⟩ := delivering.touch found outbox rfl rfl (fun closed => closed)
        (delivering.closed effectId row found) (fun open_ live => ⟨open_, live⟩)
        (fun other until_ later => ⟨until_, later⟩)
      obtain ⟨-, effects, -, -⟩ := OutboxSystem.outbox_fields outbox
      exact ⟨keeps, .of_store evolves (AcknowledgedAt.before effects
        fun closed generation under => ⟨row, found, closed, under⟩)⟩

end Delivering

end Steps

/-! ## What a step does -/

section Moves

variable {sys : DeliverySystem State}

/-- What a step does to the outbox, the workers and the counters. -/
inductive Moves (counter : WriteCounter State Args) (sys : DeliverySystem State) :
    DeliverySystem State → Prop where
  | quiet {next : DeliverySystem State} (quiet : Quiet sys next) : Moves counter sys next
  | deliver (token : String) (worker : Worker) (delta : IngestRegionDelta) (observed : Bool)
      (args : Args) (counters : State) (working : sys.workers.lookup token = some worker)
      (share : delta ∈ worker.claimed.effect.regionDeltas)
      (counted : counter.deliver args worker.claimed.fence delta sys.counters = .ok counters) :
      Moves counter sys { sys with
        counters := counters
        workers :=
          if observed then
            sys.workers.insert token { worker with delivered := delta.region :: worker.delivered }
          else sys.workers }
  | acknowledge {next : DeliverySystem State} (token : String) (worker : Worker)
      (working : sys.workers.lookup token = some worker) (finished : worker.finished = true)
      (open_ : ∀ generation,
        ¬ AcknowledgedAt sys.store worker.claimed.effect.effectId generation)
      (newest : worker.claimed.deliveryGeneration = sys.store.ingestEffectGeneration)
      (evolves : Evolves sys.store next.store)
      (acknowledged : ∀ effectId generation, AcknowledgedAt next.store effectId generation →
        AcknowledgedAt sys.store effectId generation ∨
          effectId = worker.claimed.effect.effectId ∧
            generation = worker.claimed.deliveryGeneration)
      (closed : Settleable next.store worker.claimed)
      (workers : next.workers = sys.workers) (counters : next.counters = sys.counters) :
      Moves counter sys next
  | settle (claimed : ClaimedPostIngestEffect) (delta : IngestRegionDelta) (counters : State)
      (settleable : Settleable sys.store claimed) (share : delta ∈ claimed.effect.regionDeltas)
      (settled : counter.settle claimed.fence claimed.retainLegacyIdentity delta.region
        sys.counters = .ok counters) :
      Moves counter sys { sys with counters := counters }

/-- An acknowledgement is refused, or it closes the row of the worker under the
worker's generation, which is the newest. -/
theorem Delivering.acknowledge (delivering : Delivering sys) (env : Env)
    (counter : WriteCounter State Args) (working : sys.workers.lookup token = some worker)
    (finished : worker.finished = true) :
    Delivering (sys.acknowledge env token worker) ∧
      Moves counter sys (sys.acknowledge env token worker) := by
  have outbox := Call.run_view env sys.now sys.store
    (.acknowledgeIngestEffect worker.claimed.effect.effectId token) .outbox
  simp only [Call.gated, Outcome.map_post] at outbox
  have reply : (Call.run env sys.now sys.store
      (.acknowledgeIngestEffect worker.claimed.effect.effectId token)).1 =
      (sys.store.acknowledgeIngestEffect worker.claimed.effect.effectId token
        sys.now).reply.map .flag := rfl
  cases acknowledgeIngestEffect_cases worker.claimed.effect.effectId token sys.now sys.store with
  | lost shape =>
      rw [shape] at outbox reply
      rw [DeliverySystem.acknowledge, ← Prod.eta (Call.run _ _ _ _), reply]
      obtain ⟨keeps, quiet⟩ := delivering.frame outbox
      exact ⟨keeps, .quiet quiet⟩
  | closed row found open_ current shape =>
      rw [shape] at outbox reply
      rw [DeliverySystem.acknowledge, ← Prod.eta (Call.run _ _ _ _), reply]
      -- The token is this worker's, so the row carries the worker's effect and generation.
      obtain ⟨until_, claim, -⟩ := OutboxSystem.claim_of_claimedBy current
      obtain ⟨holder, holds, -, under⟩ := delivering.holder _ row token until_ found claim
      cases working.symm.trans holds
      have effect : row.effect = worker.claimed.effect := by
        obtain ⟨held, -, present, same, -⟩ := (delivering.worker token worker working).row
        cases found.symm.trans present
        exact same
      have newest := delivering.newest _ row found open_
        (OutboxSystem.claimLive_of_claimedBy current)
      obtain ⟨keeps, evolves⟩ := delivering.touch found outbox rfl rfl (fun _ => rfl)
        (fun _ => by rw [under]; rfl) (fun open_ => by cases open_)
        (fun other until_ later => by cases later)
      obtain ⟨-, effects, -, -⟩ := OutboxSystem.outbox_fields outbox
      have closed : Settleable (Call.run env sys.now sys.store
          (.acknowledgeIngestEffect worker.claimed.effect.effectId token)).2 worker.claimed :=
        ⟨{ row with acknowledged := true, claim := none },
          by rw [effects, lookup_setEffect, if_pos rfl], effect, rfl, under⟩
      refine ⟨{ keeps with cleanup := ?_ }, .acknowledge token worker working finished ?_
        (Option.some.inj (under.symm.trans newest)) evolves ?_ closed rfl rfl⟩
      · intro claimed member
        rcases List.mem_append.mp member with old | new
        · exact keeps.cleanup claimed old
        · rw [List.mem_singleton.mp new]
          exact closed
      · rintro generation ⟨held, present, acknowledged, -⟩
        cases found.symm.trans present
        rw [open_] at acknowledged
        cases acknowledged
      · rintro other generation ⟨held, present, acknowledged, above⟩
        rcases lookup_replaced effects present with ⟨same, rfl⟩ | ⟨-, old⟩
        · exact .inr ⟨same, Option.some.inj (above.symm.trans under)⟩
        · exact .inl ⟨held, old, acknowledged, above⟩

/-- What waits for cleanup is acknowledged. -/
theorem Delivering.settleable (delivering : Delivering sys) {limit : ℕ}
    (pending : claimed ∈ sys.store.pendingIngestEffectCleanups limit) :
    Settleable sys.store claimed := by
  have member := (List.mem_insertionSort _).mp (List.mem_of_mem_take pending)
  obtain ⟨row, inside, shape⟩ := List.mem_filterMap.mp member
  obtain ⟨value, open_⟩ := List.mem_filter.mp inside
  obtain ⟨effectId, found⟩ := Table.mem_values.mp value
  obtain ⟨generation, under, rfl⟩ := Option.map_eq_some_iff.mp shape
  rw [Bool.and_eq_true] at open_
  exact ⟨row, by rw [(delivering.stored effectId row found).keyed]; exact found, rfl, open_.1,
    under⟩

/-- Only the regions a worker delivered change. -/
theorem Delivering.deliver (delivering : Delivering sys)
    (working : sys.workers.lookup token = some worker) (delivered : List RegionKey)
    (counters : State) :
    Delivering { sys with
      counters := counters
      workers := sys.workers.insert token { worker with delivered := delivered } } := by
  refine { delivering with holder := ?_, worker := ?_ }
  · intro effectId row holding until_ found claimed
    obtain ⟨holder, holds, ofEffect, under⟩ :=
      delivering.holder effectId row holding until_ found claimed
    dsimp only
    rw [Table.lookup_insert_eq]
    by_cases same : holding = token
    · subst same
      cases working.symm.trans holds
      exact ⟨_, if_pos rfl, ofEffect, under⟩
    · exact ⟨holder, by rw [if_neg same]; exact holds, ofEffect, under⟩
  · intro holding held present
    dsimp only at present
    rw [Table.lookup_insert_eq] at present
    split at present
    · cases present
      obtain ⟨positive, row⟩ := delivering.worker token worker working
      exact ⟨positive, row⟩
    · exact delivering.worker holding held present

/-- **What a step does**, and that it keeps the invariant. -/
theorem Delivering.step (delivering : Delivering sys) (env : Env)
    (counter : WriteCounter State Args) (action : DeliveryAction Args) :
    Delivering (sys.step env counter action) ∧ Moves counter sys (sys.step env counter action) := by
  have stays : Delivering sys ∧ Moves counter sys sys :=
    ⟨delivering, .quiet (.of_store (.refl rfl) fun _ _ acknowledged => acknowledged)⟩
  have quietly {next : DeliverySystem State} (moved : Delivering next ∧ Quiet sys next) :
      Delivering next ∧ Moves counter sys next := ⟨moved.1, .quiet moved.2⟩
  cases action with
  | tick elapsed =>
      refine ⟨{ delivering with newest := ?_ }, .quiet ⟨.refl rfl, fun _ _ acknowledged =>
        acknowledged, fun _ _ working => .inl working, rfl⟩⟩
      intro effectId row found open_ live
      have le : sys.now ≤ sys.now + (elapsed : ℤ) :=
        Int.le_add_of_nonneg_right (Int.natCast_nonneg _)
      exact delivering.newest effectId row found open_ (OutboxSystem.claimLive_of_later le live)
  | submit batch rows => exact quietly (delivering.submit env batch rows)
  | call call other =>
      refine quietly (delivering.frame ?_)
      exact (Call.run_view env sys.now sys.store call .outbox).trans
        ((Call.gated_sound env sys.now sys.store call).frames .outbox other)
  | claim token leaseMs =>
      simp only [DeliverySystem.step]
      split
      · exact stays
      · next unused => exact quietly (delivering.claimNext env leaseMs unused)
  | renew token leaseMs =>
      simp only [DeliverySystem.step]
      split
      · exact stays
      · exact quietly (delivering.renew env _ token leaseMs)
  | deliver token share observed args =>
      simp only [DeliverySystem.step]
      split
      · exact stays
      · next worker working =>
          split
          · exact stays
          · next delta found =>
              simp only [DeliverySystem.deliver]
              split
              · exact stays
              · next counters counted =>
                  refine ⟨?_, .deliver token worker delta observed args counters working
                    (List.mem_of_getElem? found) counted⟩
                  cases observed with
                  | false => exact { delivering with }
                  | true => exact delivering.deliver working _ counters
  | acknowledge token =>
      simp only [DeliverySystem.step]
      split
      · exact stays
      · next worker working =>
          split
          · next finished => exact delivering.acknowledge env counter working finished
          · exact stays
  | sweep limit =>
      refine ⟨{ delivering with cleanup := ?_ }, .quiet ⟨.refl rfl, fun _ _ acknowledged =>
        acknowledged, fun _ _ working => .inl working, rfl⟩⟩
      intro claimed member
      rcases List.mem_append.mp member with old | new
      · exact delivering.cleanup claimed old
      · exact delivering.settleable new
  | settle cleanup share =>
      simp only [DeliverySystem.step]
      split
      · exact stays
      · next claimed member =>
          split
          · exact stays
          · next delta found =>
              simp only [DeliverySystem.settle]
              split
              · exact stays
              · next counters settled =>
                  exact ⟨{ delivering with }, .settle claimed delta counters
                    (delivering.cleanup claimed (List.mem_of_getElem? member))
                    (List.mem_of_getElem? found) settled⟩
  | clean effectId => exact quietly (delivering.clean env effectId)

/-- **The invariant rule**: what holds at the start and is kept by every move of a system
that satisfies `Delivering` holds after every run. -/
theorem run_invariant (env : Env) {counter : WriteCounter State Args} {counters : State}
    {now : DateTime} {I : DeliverySystem State → Prop} (start : I (.new counters now))
    (keeps : ∀ sys next, Delivering sys → Moves counter sys next → I sys → I next)
    (actions : List (DeliveryAction Args)) :
    Delivering (run env counter (.new counters now) actions) ∧
      I (run env counter (.new counters now) actions) := by
  refine List.foldlRecOn (motive := fun sys => Delivering sys ∧ I sys) actions _
    ⟨delivering_new counters now, start⟩ ?_
  rintro sys ⟨delivering, holds⟩ action -
  obtain ⟨still, moves⟩ := delivering.step env counter action
  exact ⟨still, keeps sys _ delivering moves holds⟩

end Moves

end DeliverySystem

end Exocortex
