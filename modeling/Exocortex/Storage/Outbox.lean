import Exocortex.Library.Runs
import Exocortex.Storage.CallSpecs

/-!
# The ingest outbox

Ingest commits settle a key once and may leave an effect behind; workers claim
effects for a while, renew their claims, acknowledge what they delivered, and mark
acknowledged effects cleaned up. An `OutboxSystem` is the store with the clock and
with the two things the outside sees: which keys were answered with a commit, and
what happened to which effect.

Each operation has one inversion lemma (`commitIngestLocked_cases` to
`completeIngestEffectCleanup_cases`) and every invariant is a case analysis over them.

One step can undo an acknowledgement: a commit under a new key whose effect is
already stored with equal content puts a fresh, unacknowledged row in its place.
`Resubmits` are the commits that do this to an acknowledged effect. Everything else
about idempotency holds of every run, and acknowledgements last exactly when no
commit resubmits.
-/

namespace Exocortex

open Library

variable {s : InMemoryStorage}

namespace InMemoryStorage

/-! ## What the operations do to the outbox -/

theorem lookup_setEffect (s : InMemoryStorage) (effectId other : String)
    (row : InMemoryIngestEffect) :
    (s.setEffect effectId row).ingestEffects.lookup other =
      if other = effectId then some row else s.ingestEffects.lookup other :=
  Table.lookup_insert_eq _ _ _ _

/-- What storing an effect does to the rows. -/
theorem lookup_insertEffect (s : InMemoryStorage) (effect : Option PostIngestEffect)
    (other : String) :
    (s.insertEffect effect).ingestEffects.lookup other =
      match effect with
      | none => s.ingestEffects.lookup other
      | some effect =>
          if other = effect.effectId then some (freshEffect effect)
          else s.ingestEffects.lookup other := by
  cases effect with
  | none => rfl
  | some effect => exact lookup_setEffect s effect.effectId other (freshEffect effect)

/-- A commit is answered from the settlement, refuses, or settles its key and stores
its effect. -/
inductive IngestCommit (env : Env) (key : IngestBatchKey) (memories : List Memory)
    (relationships : List Relationship) (effect : Option PostIngestEffect)
    (s : InMemoryStorage) (o : Outcome IngestCommitOutcome) : Prop where
  | duplicate (settled : SettledIngestBatch) (found : s.settledIngest.lookup key = some settled)
      (shape : o = ⟨.ok (.duplicate settled), [], s⟩)
  | refused (unsettled : s.settledIngest.lookup key = none)
      (reason : (s.effectMismatch effect).isSome ∨
        (relationships.find? (s.endpointMissing memories)).isSome)
      (shape : ∃ error, o = .fail s error)
  | committed (records : List CommitRecord) (settled : SettledIngestBatch)
      (unsettled : s.settledIngest.lookup key = none)
      (matching : s.effectMismatch effect = none)
      (endpoints : relationships.find? (s.endpointMissing memories) = none)
      (reply : o.reply = .ok (.committed records settled))
      (settles : o.post.settledIngest = s.settledIngest.insert key settled)
      (effects : o.post.ingestEffects = (s.insertEffect effect).ingestEffects)
      (generation : o.post.ingestEffectGeneration = s.ingestEffectGeneration)
      (armed : o.post.failNextIngestCommit = s.failNextIngestCommit)

theorem commitIngestLocked_cases (env : Env) (key : IngestBatchKey) (memories : List Memory)
    (relationships : List Relationship) (accepted : ℕ) (effect : Option PostIngestEffect)
    (now : DateTime) (s : InMemoryStorage) :
    IngestCommit env key memories relationships effect s
      (s.commitIngestLocked env key memories relationships accepted effect now) := by
  cases found : s.settledIngest.lookup key with
  | some settled => exact .duplicate settled found (by simp [commitIngestLocked, found])
  | none =>
      cases matching : s.effectMismatch effect with
      | some other =>
          refine .refused found (.inl (by simp [matching])) ?_
          simp only [commitIngestLocked, found, matching]
          exact ⟨_, rfl⟩
      | none =>
          cases endpoints : relationships.find? (s.endpointMissing memories) with
          | some r =>
              refine .refused found (.inr (by simp [endpoints])) ?_
              simp only [commitIngestLocked, found, matching, upsertBatchLocked, endpoints]
              exact ⟨_, rfl⟩
          | none =>
              have batch : s.upsertBatchLocked env memories relationships now =
                  .ok ((stageBatch env memories relationships now s).records,
                    (stageBatch env memories relationships now s).invalidations, { s with
                      lsn := (stageBatch env memories relationships now s).next
                      memories := (stageBatch env memories relationships now s).memories
                      rels := (stageBatch env memories relationships now s).rels }) := by
                simp only [upsertBatchLocked, endpoints]
              refine .committed (stageBatch env memories relationships now s).records
                ⟨accepted, 0, lastLsn (stageBatch env memories relationships now s).records⟩ found
                matching endpoints ?_ ?_ ?_ ?_ ?_ <;>
                simp only [commitIngestLocked, found, matching, batch] <;>
                cases effect <;> rfl

theorem commitIngestBatchWithEffect_unarmed (unarmed : s.failNextIngestCommit = false) (env : Env)
    (key : IngestBatchKey) (memories : List Memory) (relationships : List Relationship)
    (accepted : ℕ) (effect : PostIngestEffect) (now : DateTime) :
    s.commitIngestBatchWithEffect env key memories relationships accepted effect now =
      s.commitIngestLocked env key memories relationships accepted (some effect) now := by
  simp [commitIngestBatchWithEffect, unarmed]

/-- A claim finds nothing to hand out, or takes a row that is not acknowledged and
carries no unexpired claim, while no other such claim exists. -/
inductive EffectClaim (token : String) (leaseMs : ℤ) (now : DateTime) (s : InMemoryStorage)
    (o : Outcome (Option ClaimedPostIngestEffect)) : Prop where
  | nothing (shape : o = ⟨.ok none, [], s⟩)
  | claimed (effectId : String) (row : InMemoryIngestEffect)
      (found : s.ingestEffects.lookup effectId = some row) (open_ : row.acknowledged = false)
      (alone : ∀ other row, s.ingestEffects.lookup other = some row → row.acknowledged = false →
        row.claimLive now = false)
      (shape : o = ⟨.ok (some ⟨row.effect, s.ingestEffectGeneration + 1,
          (claimRow row token (claimUntil now leaseMs)
            (s.ingestEffectGeneration + 1)).retainLegacyIdentity⟩), [],
        { s with ingestEffectGeneration := s.ingestEffectGeneration + 1 }.setEffect effectId
          (claimRow row token (claimUntil now leaseMs) (s.ingestEffectGeneration + 1))⟩)

theorem claimIngestEffect_cases (token : String) (leaseMs : ℤ) (now : DateTime)
    (s : InMemoryStorage) :
    EffectClaim token leaseMs now s (s.claimIngestEffect token leaseMs now) := by
  by_cases live : s.ingestEffects.values.any (fun row => !row.acknowledged && row.claimLive now)
  · exact .nothing (by simp only [claimIngestEffect, live, if_true])
  · cases next : s.nextClaimable now with
    | none => exact .nothing (by simp only [claimIngestEffect, live, next]; rfl)
    | some effectId =>
        -- The identity chosen is one of the rows that can be claimed.
        have chosen : effectId ∈ (s.ingestEffects.entries.filter fun entry =>
            entry.2.claimable now).map (·.1) := by
          have member := List.mem_of_mem_head? (Option.mem_def.mpr next)
          exact (List.mem_insertionSort _).mp member
        obtain ⟨⟨id, row⟩, inside, rfl⟩ := List.mem_map.mp chosen
        obtain ⟨entry, claimable⟩ := List.mem_filter.mp inside
        have found : s.ingestEffects.lookup id = some row := AList.mem_lookup_iff.mpr entry
        refine .claimed id row found ?_ ?_ ?_
        · simp only [InMemoryIngestEffect.claimable, Bool.and_eq_true, Bool.not_eq_true']
            at claimable
          exact claimable.1
        · intro other held present unacknowledged
          by_contra alive
          refine live (List.any_eq_true.mpr ⟨held, Table.mem_values.mpr ⟨other, present⟩, ?_⟩)
          simp [unacknowledged, Bool.not_eq_false _ ▸ alive]
        · simp only [claimIngestEffect, live, next, found]
          rfl

/-- A renewal finds no such claim, or moves the expiry of an unexpired claim. -/
inductive ClaimRenewal (effectId token : String) (leaseMs : ℤ) (now : DateTime)
    (s : InMemoryStorage) (o : Outcome Bool) : Prop where
  | lost (shape : o = ⟨.ok false, [], s⟩)
  | renewed (row : InMemoryIngestEffect) (found : s.ingestEffects.lookup effectId = some row)
      (current : row.claimedBy token now)
      (shape : o = ⟨.ok true, [], s.setEffect effectId
        { row with claim := some (token, claimUntil now leaseMs) }⟩)

theorem renewIngestEffectClaim_cases (effectId token : String) (leaseMs : ℤ) (now : DateTime)
    (s : InMemoryStorage) :
    ClaimRenewal effectId token leaseMs now s
      (s.renewIngestEffectClaim effectId token leaseMs now) := by
  cases found : s.ingestEffects.lookup effectId with
  | none => exact .lost (by simp only [renewIngestEffectClaim, found])
  | some row =>
      by_cases current : row.claimedBy token now
      · refine .renewed row found current ?_
        simp only [renewIngestEffectClaim, found, current, if_true]
      · exact .lost (by simp only [renewIngestEffectClaim, found, current]; rfl)

/-- An acknowledgement is refused, or closes a row under its unexpired claim. -/
inductive Acknowledgement (effectId token : String) (now : DateTime) (s : InMemoryStorage)
    (o : Outcome Bool) : Prop where
  | lost (shape : o = ⟨.ok false, [], s⟩)
  | closed (row : InMemoryIngestEffect) (found : s.ingestEffects.lookup effectId = some row)
      (open_ : row.acknowledged = false) (current : row.claimedBy token now)
      (shape : o = ⟨.ok true, [], s.setEffect effectId
        { row with acknowledged := true, claim := none }⟩)

theorem acknowledgeIngestEffect_cases (effectId token : String) (now : DateTime)
    (s : InMemoryStorage) :
    Acknowledgement effectId token now s (s.acknowledgeIngestEffect effectId token now) := by
  cases found : s.ingestEffects.lookup effectId with
  | none => exact .lost (by simp only [acknowledgeIngestEffect, found])
  | some row =>
      by_cases refused : row.acknowledged || !row.claimedBy token now
      · exact .lost (by simp only [acknowledgeIngestEffect, found, refused, if_true])
      · have accepted : row.acknowledged = false ∧ row.claimedBy token now = true := by
          simpa using refused
        refine .closed row found accepted.1 accepted.2 ?_
        simp only [acknowledgeIngestEffect, found, refused]
        rfl

/-- A cleanup is refused, or marks an acknowledged row. -/
inductive Cleanup (effectId : String) (s : InMemoryStorage) (o : Outcome Bool) : Prop where
  | lost (shape : o = ⟨.ok false, [], s⟩)
  | marked (row : InMemoryIngestEffect) (found : s.ingestEffects.lookup effectId = some row)
      (acknowledged : row.acknowledged = true)
      (shape : o = ⟨.ok true, [], s.setEffect effectId { row with cleanupComplete := true }⟩)

theorem completeIngestEffectCleanup_cases (effectId : String) (s : InMemoryStorage) :
    Cleanup effectId s (s.completeIngestEffectCleanup effectId) := by
  cases found : s.ingestEffects.lookup effectId with
  | none => exact .lost (by simp only [completeIngestEffectCleanup, found])
  | some row =>
      cases acknowledged : row.acknowledged with
      | true =>
          refine .marked row found acknowledged ?_
          simp only [completeIngestEffectCleanup, found, acknowledged, if_true]
      | false =>
          refine .lost ?_
          simp only [completeIngestEffectCleanup, found, acknowledged]
          rfl

end InMemoryStorage

/-! ## The system -/

/-- What the outside sees of an effect. -/
inductive OutboxEvent where
  | claimed (effectId token : String) (generation : ℕ)
  | acknowledged (effectId token : String)
  | cleaned (effectId : String)
deriving DecidableEq

/-- The store, the clock, the keys answered with a commit, and the log of effects. -/
structure OutboxSystem where
  store : InMemoryStorage
  now : DateTime
  committed : List (IngestBatchKey × SettledIngestBatch)
  log : List OutboxEvent

/-- Time passes, or a call is made. -/
inductive OutboxAction where
  | tick (elapsed : ℕ)
  | call (call : Call)

namespace OutboxSystem

open InMemoryStorage

def new (now : DateTime) : OutboxSystem := ⟨.new, now, [], []⟩

/-- The settlement a commit is answered with. -/
def committedBy : Call → Except StorageError Reply → List (IngestBatchKey × SettledIngestBatch)
  | .commitIngestBatch key _ _ _, .ok (.ingest (.committed _ settled)) => [(key, settled)]
  | .commitIngestBatchWithEffect key _ _ _ _, .ok (.ingest (.committed _ settled)) =>
      [(key, settled)]
  | _, _ => []

/-- What a call does to an effect, as its reply says. -/
def loggedBy : Call → Except StorageError Reply → List OutboxEvent
  | .claimIngestEffect token _, .ok (.claimed (some claimed)) =>
      [.claimed claimed.effect.effectId token claimed.deliveryGeneration]
  | .acknowledgeIngestEffect effectId token, .ok (.flag true) => [.acknowledged effectId token]
  | .completeIngestEffectCleanup effectId, .ok (.flag true) => [.cleaned effectId]
  | _, _ => []

def step (env : Env) (sys : OutboxSystem) : OutboxAction → OutboxSystem
  | .tick elapsed => { sys with now := sys.now + elapsed }
  | .call call =>
      let result := call.run env sys.now sys.store
      { sys with
        store := result.2
        committed := sys.committed ++ committedBy call result.1
        log := sys.log ++ loggedBy call result.1 }

/-- The commit puts a fresh row in the place of an acknowledged one: its key is not
settled, its rows are accepted, and its effect is stored with equal content. -/
def Resubmits (s : InMemoryStorage) : Call → Prop
  | .commitIngestBatchWithEffect key memories relationships _ effect =>
      s.settledIngest.lookup key = none ∧
        relationships.find? (s.endpointMissing memories) = none ∧
        ∃ row, s.ingestEffects.lookup effect.effectId = some row ∧ row.effect = effect ∧
          row.acknowledged = true
  | _ => False

/-- No commit resubmits an acknowledged effect. -/
def Fresh (sys : OutboxSystem) : OutboxAction → Prop
  | .tick _ => True
  | .call call => ¬ Resubmits sys.store call

def machine (env : Env) : Machine OutboxSystem OutboxAction where
  allowed := Fresh
  step := step env

/-- The state after a list of steps, whether they resubmit or not. -/
abbrev run (env : Env) : OutboxSystem → List OutboxAction → OutboxSystem := (machine env).run

/-! ## What a step does -/

/-- What a call does to the outbox and to what is seen of it. -/
inductive Does (s : InMemoryStorage) (now : DateTime) (call : Call) (t : InMemoryStorage) :
    List (IngestBatchKey × SettledIngestBatch) → List OutboxEvent → Prop where
  | nothing (outbox : t.view .outbox = s.view .outbox) : Does s now call t [] []
  | commit (key : IngestBatchKey) (settled : SettledIngestBatch)
      (effect : Option PostIngestEffect) (unsettled : s.settledIngest.lookup key = none)
      (resubmits : ∀ stored row, effect = some stored →
        s.ingestEffects.lookup stored.effectId = some row → row.acknowledged = true →
        Resubmits s call)
      (outbox : t.view .outbox = (s.settledIngest.insert key settled,
        (s.insertEffect effect).ingestEffects, s.ingestEffectGeneration,
        s.failNextIngestCommit)) : Does s now call t [(key, settled)] []
  | claim (effectId token : String) (row : InMemoryIngestEffect) (until_ : DateTime)
      (found : s.ingestEffects.lookup effectId = some row) (open_ : row.acknowledged = false)
      (alone : ∀ other row, s.ingestEffects.lookup other = some row → row.acknowledged = false →
        row.claimLive now = false)
      (outbox : t.view .outbox = (s.settledIngest, s.ingestEffects.insert effectId
        (claimRow row token until_ (s.ingestEffectGeneration + 1)),
        s.ingestEffectGeneration + 1, s.failNextIngestCommit)) :
      Does s now call t [] [.claimed row.effect.effectId token (s.ingestEffectGeneration + 1)]
  | renew (effectId token : String) (row : InMemoryIngestEffect) (until_ : DateTime)
      (found : s.ingestEffects.lookup effectId = some row) (current : row.claimedBy token now)
      (outbox : t.view .outbox = (s.settledIngest, s.ingestEffects.insert effectId
        { row with claim := some (token, until_) }, s.ingestEffectGeneration,
        s.failNextIngestCommit)) : Does s now call t [] []
  | acknowledge (effectId token : String) (row : InMemoryIngestEffect)
      (found : s.ingestEffects.lookup effectId = some row) (open_ : row.acknowledged = false)
      (current : row.claimedBy token now)
      (outbox : t.view .outbox = (s.settledIngest, s.ingestEffects.insert effectId
        { row with acknowledged := true, claim := none }, s.ingestEffectGeneration,
        s.failNextIngestCommit)) : Does s now call t [] [.acknowledged effectId token]
  | clean (effectId : String) (row : InMemoryIngestEffect)
      (found : s.ingestEffects.lookup effectId = some row)
      (acknowledged : row.acknowledged = true)
      (outbox : t.view .outbox = (s.settledIngest, s.ingestEffects.insert effectId
        { row with cleanupComplete := true }, s.ingestEffectGeneration,
        s.failNextIngestCommit)) : Does s now call t [] [.cleaned effectId]

variable {row : InMemoryIngestEffect}

theorem effectMismatch_none {effect : PostIngestEffect}
    (matching : s.effectMismatch (some effect) = none)
    (found : s.ingestEffects.lookup effect.effectId = some row) : row.effect = effect := by
  simpa [effectMismatch, found] using matching

theorem run_does (env : Env) (now : DateTime) (unarmed : s.failNextIngestCommit = false)
    (call : Call) :
    Does s now call (call.run env now s).2 (committedBy call (call.run env now s).1)
      (loggedBy call (call.run env now s).1) := by
  have outbox := Call.run_view env now s call .outbox
  by_cases own : call.part = some .outbox
  · cases call with
    | commitIngestBatch key memories relationships accepted =>
        simp only [Call.run, Call.gated, commitIngestBatch] at outbox ⊢
        cases commitIngestLocked_cases env key memories relationships accepted none now s with
        | duplicate settled found shape =>
            rw [shape] at outbox ⊢
            exact .nothing outbox
        | refused unsettled reason shape =>
            obtain ⟨error, shape⟩ := shape
            rw [shape] at outbox ⊢
            exact .nothing outbox
        | committed records settled unsettled matching endpoints reply settles effects generation
            armed =>
            simp only [Outcome.map, reply, Except.map, committedBy, loggedBy]
            refine .commit key settled none unsettled (fun _ _ absent => by cases absent) ?_
            rw [← settles, ← effects, ← generation, ← armed]
            exact outbox
    | commitIngestBatchWithEffect key memories relationships accepted effect =>
        simp only [Call.run, Call.gated, commitIngestBatchWithEffect_unarmed unarmed] at outbox ⊢
        cases commitIngestLocked_cases env key memories relationships accepted (some effect) now s
          with
        | duplicate settled found shape =>
            rw [shape] at outbox ⊢
            exact .nothing outbox
        | refused unsettled reason shape =>
            obtain ⟨error, shape⟩ := shape
            rw [shape] at outbox ⊢
            exact .nothing outbox
        | committed records settled unsettled matching endpoints reply settles effects generation
            armed =>
            simp only [Outcome.map, reply, Except.map, committedBy, loggedBy]
            refine .commit key settled (some effect) unsettled ?_ ?_
            · intro stored row same found acknowledged
              cases same
              exact ⟨unsettled, endpoints, row, found, effectMismatch_none matching found,
                acknowledged⟩
            · rw [← settles, ← effects, ← generation, ← armed]
              exact outbox
    | claimIngestEffect token leaseMs =>
        simp only [Call.run, Call.gated] at outbox ⊢
        cases claimIngestEffect_cases token leaseMs now s with
        | nothing shape =>
            rw [shape] at outbox ⊢
            exact .nothing outbox
        | claimed effectId row found open_ alone shape =>
            rw [shape] at outbox ⊢
            exact .claim effectId token row (claimUntil now leaseMs) found open_ alone outbox
    | renewIngestEffectClaim effectId token leaseMs =>
        simp only [Call.run, Call.gated] at outbox ⊢
        cases renewIngestEffectClaim_cases effectId token leaseMs now s with
        | lost shape =>
            rw [shape] at outbox ⊢
            exact .nothing outbox
        | renewed row found current shape =>
            rw [shape] at outbox ⊢
            exact .renew effectId token row (claimUntil now leaseMs) found current outbox
    | acknowledgeIngestEffect effectId token =>
        simp only [Call.run, Call.gated] at outbox ⊢
        cases acknowledgeIngestEffect_cases effectId token now s with
        | lost shape =>
            rw [shape] at outbox ⊢
            exact .nothing outbox
        | closed row found open_ current shape =>
            rw [shape] at outbox ⊢
            exact .acknowledge effectId token row found open_ current outbox
    | completeIngestEffectCleanup effectId =>
        simp only [Call.run, Call.gated] at outbox ⊢
        cases completeIngestEffectCleanup_cases effectId s with
        | lost shape =>
            rw [shape] at outbox ⊢
            exact .nothing outbox
        | marked row found acknowledged shape =>
            rw [shape] at outbox ⊢
            exact .clean effectId row found acknowledged outbox
    | _ => cases own
  · have framed := outbox.trans ((Call.gated_sound env now s call).frames .outbox own)
    cases call <;> first | exact .nothing framed | exact absurd rfl own

/-- The tables of the outbox, read off its view. -/
theorem outbox_fields {t : InMemoryStorage} {settled : Table IngestBatchKey SettledIngestBatch}
    {effects : Table String InMemoryIngestEffect} {generation : ℕ} {armed : Bool}
    (outbox : t.view .outbox = (settled, effects, generation, armed)) :
    t.settledIngest = settled ∧ t.ingestEffects = effects ∧
      t.ingestEffectGeneration = generation ∧ t.failNextIngestCommit = armed := by
  obtain ⟨first, rest⟩ := Prod.mk.inj outbox
  obtain ⟨second, rest⟩ := Prod.mk.inj rest
  obtain ⟨third, fourth⟩ := Prod.mk.inj rest
  exact ⟨first, second, third, fourth⟩

/-! ## Settlements -/

/-- Every key answered with a commit is settled by it, and none was answered twice. -/
structure Settling (sys : OutboxSystem) : Prop where
  unarmed : sys.store.failNextIngestCommit = false
  once : (sys.committed.map Prod.fst).Nodup
  settled : ∀ key settled, (key, settled) ∈ sys.committed →
    sys.store.settledIngest.lookup key = some settled

theorem settling_new (now : DateTime) : Settling (.new now) where
  unarmed := rfl
  once := List.nodup_nil
  settled _ _ member := by simp [new] at member

section Steps

variable {sys : OutboxSystem} {call : Call} {t : InMemoryStorage}
  {settlements : List (IngestBatchKey × SettledIngestBatch)} {events : List OutboxEvent}

/-- The system after a call that did this. -/
def after (sys : OutboxSystem) (t : InMemoryStorage)
    (settlements : List (IngestBatchKey × SettledIngestBatch)) (events : List OutboxEvent) :
    OutboxSystem :=
  ⟨t, sys.now, sys.committed ++ settlements, sys.log ++ events⟩

/-- Settlements are untouched by what settles nothing. -/
theorem Settling.frame (settling : Settling sys)
    (settled : t.settledIngest = sys.store.settledIngest)
    (armed : t.failNextIngestCommit = sys.store.failNextIngestCommit) :
    Settling (sys.after t [] events) := by
  refine ⟨armed.trans settling.unarmed, ?_, ?_⟩
  · simpa [after] using settling.once
  · intro key value member
    simp only [after, List.append_nil] at member
    simp only [after, settled]
    exact settling.settled key value member

theorem Settling.does (settling : Settling sys)
    (does : Does sys.store sys.now call t settlements events) :
    Settling (sys.after t settlements events) := by
  cases does with
  | nothing outbox =>
      obtain ⟨settled, -, -, armed⟩ := outbox_fields outbox
      exact settling.frame settled armed
  | commit key settled effect unsettled resubmits outbox =>
      obtain ⟨settles, -, -, armed⟩ := outbox_fields outbox
      -- A key that was answered before is settled, so this one was not.
      have unanswered : key ∉ sys.committed.map Prod.fst := by
        intro member
        obtain ⟨⟨other, value⟩, inside, rfl⟩ := List.mem_map.mp member
        rw [settling.settled other value inside] at unsettled
        cases unsettled
      refine ⟨armed.trans settling.unarmed, ?_, ?_⟩
      · simp only [after, List.map_append, List.map_cons, List.map_nil]
        rw [← List.concat_eq_append]
        exact settling.once.concat unanswered
      · intro other value member
        simp only [after] at member ⊢
        rw [settles, Table.lookup_insert_eq]
        rcases List.mem_append.mp member with old | new
        · have apart : other ≠ key := by
            intro same
            exact unanswered (List.mem_map.mpr ⟨(other, value), old, same⟩)
          rw [if_neg apart]
          exact settling.settled other value old
        · cases List.mem_singleton.mp new
          exact if_pos rfl
  | claim effectId token row until_ found open_ alone outbox =>
      obtain ⟨settled, -, -, armed⟩ := outbox_fields outbox
      exact settling.frame settled armed
  | renew effectId token row until_ found current outbox =>
      obtain ⟨settled, -, -, armed⟩ := outbox_fields outbox
      exact settling.frame settled armed
  | acknowledge effectId token row found open_ current outbox =>
      obtain ⟨settled, -, -, armed⟩ := outbox_fields outbox
      exact settling.frame settled armed
  | clean effectId row found acknowledged outbox =>
      obtain ⟨settled, -, -, armed⟩ := outbox_fields outbox
      exact settling.frame settled armed

theorem Settling.step (settling : Settling sys) (env : Env) (action : OutboxAction) :
    Settling (sys.step env action) := by
  cases action with
  | tick elapsed => exact ⟨settling.unarmed, settling.once, settling.settled⟩
  | call call => exact settling.does (run_does env sys.now settling.unarmed call)

theorem run_settling (env : Env) (start : DateTime) (actions : List OutboxAction) :
    Settling (run env (.new start) actions) := by
  apply List.foldlRecOn actions _ (settling_new start)
  intro sys settling action _
  exact settling.step env action

/-! ## Acknowledgements -/

/-- The effect is stored and acknowledged; such a row cannot be claimed. -/
def Acknowledged (s : InMemoryStorage) (effectId : String) : Prop :=
  ∃ row, s.ingestEffects.lookup effectId = some row ∧ row.acknowledged = true

/-- Replacing a row keeps acknowledgements when it keeps its own. -/
theorem Acknowledged.insert {effectId other : String} {changed : InMemoryIngestEffect}
    (acked : Acknowledged s other) (found : s.ingestEffects.lookup effectId = some row)
    (keeps : row.acknowledged = true → changed.acknowledged = true)
    (effects : t.ingestEffects = s.ingestEffects.insert effectId changed) :
    Acknowledged t other := by
  obtain ⟨held, inside, closed⟩ := acked
  by_cases same : other = effectId
  · subst same
    rw [found] at inside
    cases inside
    exact ⟨changed, by rw [effects]; exact AList.lookup_insert _, keeps closed⟩
  · refine ⟨held, ?_, closed⟩
    rw [effects, AList.lookup_insert_ne same]
    exact inside

theorem Does.keeps_acknowledged {now : DateTime} (does : Does s now call t settlements events)
    (fresh : ¬ Resubmits s call) {effectId : String} (acked : Acknowledged s effectId) :
    Acknowledged t effectId := by
  cases does with
  | nothing outbox =>
      obtain ⟨-, effects, -, -⟩ := outbox_fields outbox
      rw [Acknowledged, effects]
      exact acked
  | commit key settled effect unsettled resubmits outbox =>
      obtain ⟨-, effects, -, -⟩ := outbox_fields outbox
      obtain ⟨row, found, closed⟩ := acked
      refine ⟨row, ?_, closed⟩
      rw [effects, lookup_insertEffect]
      cases effect with
      | none => exact found
      | some stored =>
          have apart : effectId ≠ stored.effectId := by
            intro same
            exact fresh (resubmits stored row rfl (same ▸ found) closed)
          simpa only [if_neg apart] using found
  | claim other token row until_ found open_ alone outbox =>
      obtain ⟨-, effects, -, -⟩ := outbox_fields outbox
      refine acked.insert found (fun closed => ?_) effects
      rw [open_] at closed
      cases closed
  | renew other token row until_ found current outbox =>
      obtain ⟨-, effects, -, -⟩ := outbox_fields outbox
      refine acked.insert found ?_ effects
      exact fun closed => closed
  | acknowledge other token row found open_ current outbox =>
      obtain ⟨-, effects, -, -⟩ := outbox_fields outbox
      exact acked.insert found (fun _ => rfl) effects
  | clean other row found acknowledged outbox =>
      obtain ⟨-, effects, -, -⟩ := outbox_fields outbox
      refine acked.insert found ?_ effects
      exact fun closed => closed

end Steps

/-- A commit that resubmits reopens the effect. -/
theorem run_resubmits_reopens (env : Env) (now : DateTime) {call : Call}
    (unarmed : s.failNextIngestCommit = false) (resubmits : Resubmits s call) :
    ∃ effectId, Acknowledged s effectId ∧ ¬ Acknowledged (call.run env now s).2 effectId := by
  cases call with
  | commitIngestBatchWithEffect key memories relationships accepted effect =>
      obtain ⟨unsettled, endpoints, row, found, same, closed⟩ := resubmits
      have view := Call.run_view env now s
        (.commitIngestBatchWithEffect key memories relationships accepted effect) .outbox
      simp only [Call.gated, commitIngestBatchWithEffect_unarmed unarmed, Outcome.map_post] at view
      refine ⟨effect.effectId, ⟨row, found, closed⟩, ?_⟩
      cases commitIngestLocked_cases env key memories relationships accepted (some effect) now s
        with
      | duplicate settled settledBefore shape =>
          rw [unsettled] at settledBefore
          cases settledBefore
      | refused _ reason shape =>
          have matching : s.effectMismatch (some effect) = none := by
            simp [effectMismatch, found, same]
          simp [matching, endpoints] at reason
      | committed records settled _ matching _ reply settles effects generation armed =>
          rintro ⟨later, foundLater, closedLater⟩
          obtain ⟨-, after, -, -⟩ := outbox_fields view
          rw [after, effects, lookup_insertEffect] at foundLater
          simp only [if_true, Option.some.injEq] at foundLater
          subst foundLater
          cases closedLater
  | _ => cases resubmits

/-! ## Idempotency -/

/-- The key a call settles. -/
def ingestKey : Call → Option IngestBatchKey
  | .commitIngestBatch key _ _ _ | .commitIngestBatchWithEffect key _ _ _ _ => some key
  | _ => none

/-- A call under a settled key is answered from the settlement and changes nothing,
whatever rows it brings. -/
theorem run_settled_key (env : Env) (now : DateTime) {call : Call} {key : IngestBatchKey}
    {settled : SettledIngestBatch} (unarmed : s.failNextIngestCommit = false)
    (found : s.settledIngest.lookup key = some settled) (ofKey : ingestKey call = some key) :
    call.run env now s = (.ok (.ingest (.duplicate settled)), s) := by
  cases call with
  | commitIngestBatch other memories relationships accepted =>
      cases ofKey
      simp [Call.run, Call.gated, commitIngestBatch, commitIngestLocked, found, Outcome.map,
        Except.map]
  | commitIngestBatchWithEffect other memories relationships accepted effect =>
      cases ofKey
      simp [Call.run, Call.gated, commitIngestBatchWithEffect_unarmed unarmed, commitIngestLocked,
        found, Outcome.map, Except.map]
  | _ => cases ofKey

/-- Ingest is idempotent along a run: each key is answered with a commit at most
once, a later call under such a key is answered with its settlement and changes
nothing, and an acknowledged effect stays acknowledged. -/
structure IngestsOnce (env : Env) (start : DateTime) (actions : List OutboxAction) : Prop where
  once : ((run env (.new start) actions).committed.map Prod.fst).Nodup
  replays : ∀ front call back, actions = front ++ .call call :: back → ∀ key settled,
    (key, settled) ∈ (run env (.new start) front).committed → ingestKey call = some key →
      call.run env (run env (.new start) front).now (run env (.new start) front).store =
        (.ok (.ingest (.duplicate settled)), (run env (.new start) front).store)
  acknowledged : ∀ front action back, actions = front ++ action :: back → ∀ effectId,
    Acknowledged (run env (.new start) front).store effectId →
      Acknowledged (run env (.new start) (front ++ [action])).store effectId

/-- **Ingest is idempotent exactly when no commit resubmits an acknowledged effect.** -/
theorem ingestsOnce_iff_fresh (env : Env) (start : DateTime) (actions : List OutboxAction) :
    IngestsOnce env start actions ↔ ∀ front call back, actions = front ++ .call call :: back →
      ¬ Resubmits (run env (.new start) front).store call := by
  have last : ∀ front action, run env (.new start) (front ++ [action]) =
      (run env (.new start) front).step env action := by
    intro front action
    exact Machine.run_append (m := machine env) (.new start) front [action]
  constructor
  · intro once front call back split resubmits
    have settling := run_settling env start front
    obtain ⟨effectId, acked, reopened⟩ :=
      run_resubmits_reopens env (run env (.new start) front).now settling.unarmed resubmits
    have kept := once.acknowledged front (.call call) back split effectId acked
    rw [last] at kept
    exact reopened kept
  · intro fresh
    refine ⟨(run_settling env start actions).once, ?_, ?_⟩
    · intro front call back split key settled member ofKey
      have settling := run_settling env start front
      exact run_settled_key env _ settling.unarmed (settling.settled key settled member) ofKey
    · intro front action back split effectId acked
      rw [last]
      cases action with
      | tick elapsed => exact acked
      | call call =>
          have settling := run_settling env start front
          exact (run_does env (run env (.new start) front).now settling.unarmed
            call).keeps_acknowledged (fresh front call back split) acked

/-- The effect of a batch without rows. -/
def emptyEffect (effectId : String) : PostIngestEffect := ⟨effectId, [], []⟩

/-- An effect is committed, claimed and acknowledged. A commit under another key with
the same effect then puts a fresh row in its place. -/
theorem ingestsOnce_fails_on_resubmission :
    ¬ IngestsOnce Env.blank 0 [
      .call (.commitIngestBatchWithEffect ⟨"org", "agent", "b1"⟩ [] [] 0 (emptyEffect "e")),
      .call (.claimIngestEffect "t" 30000), .call (.acknowledgeIngestEffect "e" "t"),
      .call (.commitIngestBatchWithEffect ⟨"org", "agent", "b2"⟩ [] [] 0 (emptyEffect "e"))] := by
  intro once
  have kept := once.acknowledged [
      .call (.commitIngestBatchWithEffect ⟨"org", "agent", "b1"⟩ [] [] 0 (emptyEffect "e")),
      .call (.claimIngestEffect "t" 30000), .call (.acknowledgeIngestEffect "e" "t")]
    (.call (.commitIngestBatchWithEffect ⟨"org", "agent", "b2"⟩ [] [] 0 (emptyEffect "e"))) [] rfl
    "e" ⟨{ freshEffect (emptyEffect "e") with
      acknowledged := true, deliveryGeneration := some 1 }, by decide, rfl⟩
  obtain ⟨row, found, closed⟩ := kept
  have fresh : some row = some (freshEffect (emptyEffect "e")) :=
    found.symm.trans (by decide)
  cases fresh
  cases closed

end OutboxSystem

end Exocortex
