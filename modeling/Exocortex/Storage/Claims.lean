import Exocortex.Storage.Outbox

/-!
# Claims on effects

Workers claim effects, and a claim that is not renewed expires. What holds of the
stored rows at any instant is `RowsClaimed`: an acknowledged row carries no claim, and
at most one row carries an unexpired one, although claims are stored row by row. Every
change of the outbox puts one row in place, so one lemma (`RowsClaimed.insert`) serves
all of them.

`Claiming` adds the log: generations increase, and what was acknowledged stays so and
is never touched again. It is kept by every step that does not resubmit an
acknowledged effect (`Claiming.step`).
-/

namespace Exocortex

open Library

namespace OutboxSystem

open InMemoryStorage

/-! ## The rows -/

/-- What holds of the stored rows: each is stored under the identity of its effect, an
acknowledged row carries no claim, only acknowledged rows are cleaned up, and at most
one row carries an unexpired claim. -/
structure RowsClaimed (effects : Table String InMemoryIngestEffect) (now : DateTime) : Prop where
  keyed : ∀ effectId row, effects.lookup effectId = some row → row.effect.effectId = effectId
  closed : ∀ effectId row, effects.lookup effectId = some row → row.acknowledged = true →
    row.claim = none
  cleaned : ∀ effectId row, effects.lookup effectId = some row → row.cleanupComplete = true →
    row.acknowledged = true
  single : ∀ left right rowLeft rowRight, effects.lookup left = some rowLeft →
    effects.lookup right = some rowRight → rowLeft.claimLive now = true →
    rowRight.claimLive now = true → left = right

variable {row : InMemoryIngestEffect} {now : DateTime} {token effectId : String}

theorem claimLive_of_later {later : DateTime} (le : now ≤ later)
    (live : row.claimLive later = true) : row.claimLive now = true := by
  cases claim : row.claim with
  | none => simp [InMemoryIngestEffect.claimLive, claim] at live
  | some held =>
      simp only [InMemoryIngestEffect.claimLive, claim, Option.any_some, decide_eq_true_eq]
        at live ⊢
      exact lt_of_le_of_lt le live

theorem claimLive_none (now : DateTime) (none : row.claim = none) : row.claimLive now = false := by
  simp [InMemoryIngestEffect.claimLive, none]

/-- A claim held under a token carries that token and is unexpired. -/
theorem claim_of_claimedBy (current : row.claimedBy token now = true) :
    ∃ until_, row.claim = some (token, until_) ∧ now < until_ := by
  cases claim : row.claim with
  | none => simp [InMemoryIngestEffect.claimedBy, claim] at current
  | some held =>
      obtain ⟨own, until_⟩ := held
      simp only [InMemoryIngestEffect.claimedBy, claim, Option.any_some, Bool.and_eq_true,
        decide_eq_true_eq] at current
      exact ⟨until_, by rw [current.1], current.2⟩

theorem claimLive_of_claimedBy (current : row.claimedBy token now = true) :
    row.claimLive now = true := by
  obtain ⟨until_, claim, unexpired⟩ := claim_of_claimedBy current
  simp [InMemoryIngestEffect.claimLive, claim, unexpired]

namespace RowsClaimed

variable {effects : Table String InMemoryIngestEffect} {now : DateTime}

theorem later (rows : RowsClaimed effects now) {then_ : DateTime} (le : now ≤ then_) :
    RowsClaimed effects then_ :=
  ⟨rows.keyed, rows.closed, rows.cleaned,
    fun left right rowLeft rowRight inLeft inRight live live' => rows.single left right rowLeft
      rowRight inLeft inRight (claimLive_of_later le live) (claimLive_of_later le live')⟩

/-- Putting a row in place keeps what holds of the rows when the row itself is well
formed and, if its claim is live, no other is. -/
theorem insert (rows : RowsClaimed effects now) (keyed : row.effect.effectId = effectId)
    (closed : row.acknowledged = true → row.claim = none)
    (cleaned : row.cleanupComplete = true → row.acknowledged = true)
    (single : row.claimLive now = true → ∀ other held, effects.lookup other = some held →
      held.claimLive now = true → other = effectId) :
    RowsClaimed (effects.insert effectId row) now := by
  constructor
  · intro other held found
    rw [Table.lookup_insert_eq] at found
    split at found
    · next same =>
        cases found
        exact keyed.trans same.symm
    · exact rows.keyed other held found
  · intro other held found
    rw [Table.lookup_insert_eq] at found
    split at found
    · cases found
      exact closed
    · exact rows.closed other held found
  · intro other held found
    rw [Table.lookup_insert_eq] at found
    split at found
    · cases found
      exact cleaned
    · exact rows.cleaned other held found
  · intro left right rowLeft rowRight inLeft inRight live live'
    rw [Table.lookup_insert_eq] at inLeft inRight
    split at inLeft <;> split at inRight
    · next sameLeft sameRight => rw [sameLeft, sameRight]
    · next sameLeft _ =>
        cases inLeft
        rw [sameLeft, single live right rowRight inRight live']
    · next _ sameRight =>
        cases inRight
        rw [sameRight, single live' left rowLeft inLeft live]
    · exact rows.single left right rowLeft rowRight inLeft inRight live live'

end RowsClaimed

/-- The generation a claim was handed out with. -/
def generationOf : OutboxEvent → Option ℕ
  | .claimed _ _ generation => some generation
  | _ => none

/-- The event claims or acknowledges an effect. -/
def Touches (effectId : String) : OutboxEvent → Prop
  | .claimed other _ _ | .acknowledged other _ => other = effectId
  | .cleaned _ => False

/-- What the claim protocol keeps, in every run that resubmits nothing. -/
structure Claiming (sys : OutboxSystem) : Prop where
  rows : RowsClaimed sys.store.ingestEffects sys.now
  generations : (sys.log.filterMap generationOf).Pairwise (· < ·)
  generations_le : ∀ g ∈ sys.log.filterMap generationOf, g ≤ sys.store.ingestEffectGeneration
  acked : ∀ effectId token, .acknowledged effectId token ∈ sys.log →
    Acknowledged sys.store effectId
  never : sys.log.Pairwise fun earlier later => ∀ effectId token,
    earlier = .acknowledged effectId token → ¬ Touches effectId later

theorem claiming_new (now : DateTime) : Claiming (.new now) where
  rows := ⟨by simp [new, InMemoryStorage.new], by simp [new, InMemoryStorage.new],
    by simp [new, InMemoryStorage.new], by simp [new, InMemoryStorage.new]⟩
  generations := .nil
  generations_le _ member := by simp [new] at member
  acked _ _ member := by simp [new] at member
  never := .nil

section ClaimSteps

variable {sys : OutboxSystem} {call : Call} {t : InMemoryStorage}
  {settlements : List (IngestBatchKey × SettledIngestBatch)} {events : List OutboxEvent}

/-- The rows after a call. -/
theorem Claiming.rows_does (claiming : Claiming sys)
    (does : Does sys.store sys.now call t settlements events) :
    RowsClaimed t.ingestEffects sys.now := by
  have rows := claiming.rows
  cases does with
  | nothing outbox =>
      obtain ⟨-, effects, -, -⟩ := outbox_fields outbox
      rw [effects]
      exact rows
  | commit key settled effect unsettled resubmits outbox =>
      obtain ⟨-, effects, -, -⟩ := outbox_fields outbox
      rw [effects]
      cases effect with
      | none => exact rows
      | some stored =>
          refine rows.insert rfl (fun _ => rfl) (fun cleaned => ?_) (fun live => ?_)
          · cases cleaned
          · cases live
  | claim effectId token row until_ found open_ alone outbox =>
      obtain ⟨-, effects, -, -⟩ := outbox_fields outbox
      rw [effects]
      refine rows.insert (rows.keyed effectId row found) ?_ (rows.cleaned effectId row found) ?_
      · intro closed
        have open_ : row.acknowledged = true := closed
        simp_all
      · intro _ other held inside live
        cases closed : held.acknowledged with
        | false => rw [alone other held inside closed] at live; cases live
        | true =>
            rw [claimLive_none sys.now (rows.closed other held inside closed)] at live
            cases live
  | renew effectId token row until_ found current outbox =>
      obtain ⟨-, effects, -, -⟩ := outbox_fields outbox
      rw [effects]
      have live := claimLive_of_claimedBy current
      refine rows.insert (rows.keyed effectId row found) ?_ (rows.cleaned effectId row found) ?_
      · intro closed
        have none := rows.closed effectId row found closed
        rw [claimLive_none sys.now none] at live
        cases live
      · intro _ other held inside alive
        exact rows.single other effectId held row inside found alive live
  | acknowledge effectId token row found open_ current outbox =>
      obtain ⟨-, effects, -, -⟩ := outbox_fields outbox
      rw [effects]
      refine rows.insert (rows.keyed effectId row found) (fun _ => rfl) (fun _ => rfl) ?_
      intro live
      cases live
  | clean effectId row found acknowledged outbox =>
      obtain ⟨-, effects, -, -⟩ := outbox_fields outbox
      rw [effects]
      have none := rows.closed effectId row found acknowledged
      refine rows.insert (rows.keyed effectId row found) (fun _ => none) (fun _ => acknowledged) ?_
      intro live
      have dead : InMemoryIngestEffect.claimLive { row with cleanupComplete := true } sys.now =
          false := claimLive_none sys.now none
      rw [dead] at live
      cases live

/-- Nothing that was acknowledged is touched by the events of a call. -/
theorem Claiming.untouched (claiming : Claiming sys)
    (does : Does sys.store sys.now call t settlements events)
    (acked : Acknowledged sys.store effectId) : ∀ event ∈ events, ¬ Touches effectId event := by
  obtain ⟨row, found, closed⟩ := acked
  cases does with
  | nothing outbox => simp
  | commit key settled effect unsettled resubmits outbox => simp
  | claim other token held until_ inside open_ alone outbox =>
      rintro event member touches
      obtain rfl := List.mem_singleton.mp member
      have same : other = effectId := (claiming.rows.keyed other held inside).symm.trans touches
      rw [same, found] at inside
      cases inside
      rw [open_] at closed
      cases closed
  | renew other token held until_ inside current outbox => simp
  | acknowledge other token held inside open_ current outbox =>
      rintro event member touches
      obtain rfl := List.mem_singleton.mp member
      have same : other = effectId := touches
      rw [same, found] at inside
      cases inside
      rw [open_] at closed
      cases closed
  | clean other held inside acknowledged outbox =>
      rintro event member touches
      obtain rfl := List.mem_singleton.mp member
      exact touches

/-- A call hands out the next generation, or none. -/
theorem Does.generations {s : InMemoryStorage} (does : Does s now call t settlements events) :
    (events.filterMap generationOf = [] ∧ t.ingestEffectGeneration = s.ingestEffectGeneration) ∨
      (events.filterMap generationOf = [s.ingestEffectGeneration + 1] ∧
        t.ingestEffectGeneration = s.ingestEffectGeneration + 1) := by
  cases does with
  | claim effectId token row until_ found open_ alone outbox =>
      exact .inr ⟨rfl, (outbox_fields outbox).2.2.1⟩
  | nothing outbox => exact .inl ⟨rfl, (outbox_fields outbox).2.2.1⟩
  | commit key settled effect unsettled resubmits outbox =>
      exact .inl ⟨rfl, (outbox_fields outbox).2.2.1⟩
  | renew effectId token row until_ found current outbox =>
      exact .inl ⟨rfl, (outbox_fields outbox).2.2.1⟩
  | acknowledge effectId token row found open_ current outbox =>
      exact .inl ⟨rfl, (outbox_fields outbox).2.2.1⟩
  | clean effectId row found acknowledged outbox =>
      exact .inl ⟨rfl, (outbox_fields outbox).2.2.1⟩

/-- An acknowledgement that is logged holds. -/
theorem Does.acknowledges {s : InMemoryStorage} (does : Does s now call t settlements events)
    (member : .acknowledged effectId token ∈ events) : Acknowledged t effectId := by
  cases does with
  | acknowledge other _ row found open_ current outbox =>
      obtain ⟨-, effects, -, -⟩ := outbox_fields outbox
      cases List.mem_singleton.mp member
      exact ⟨_, by rw [effects]; exact AList.lookup_insert _, rfl⟩
  | nothing outbox => cases member
  | commit key settled effect unsettled resubmits outbox => cases member
  | claim other _ row until_ found open_ alone outbox => simp at member
  | renew other _ row until_ found current outbox => cases member
  | clean other row found acknowledged outbox => simp at member

theorem Claiming.does (claiming : Claiming sys) (fresh : ¬ Resubmits sys.store call)
    (does : Does sys.store sys.now call t settlements events) :
    Claiming (sys.after t settlements events) := by
  refine ⟨claiming.rows_does does, ?_, ?_, ?_, ?_⟩
  · simp only [after, List.filterMap_append]
    rcases does.generations with ⟨none, -⟩ | ⟨next, -⟩
    · rw [none, List.append_nil]
      exact claiming.generations
    · rw [next, List.pairwise_append]
      refine ⟨claiming.generations, List.pairwise_singleton _ _, fun g member later single => ?_⟩
      rw [List.mem_singleton.mp single]
      exact Nat.lt_succ_of_le (claiming.generations_le g member)
  · intro g member
    simp only [after, List.filterMap_append] at member ⊢
    rcases does.generations with ⟨none, same⟩ | ⟨next, rises⟩
    · rw [none, List.append_nil] at member
      rw [same]
      exact claiming.generations_le g member
    · rw [next, List.mem_append, List.mem_singleton] at member
      rw [rises]
      rcases member with old | rfl
      · exact (claiming.generations_le g old).trans (Nat.le_succ _)
      · exact le_rfl
  · intro effectId token member
    rcases List.mem_append.mp member with old | new
    · exact does.keeps_acknowledged fresh (claiming.acked effectId token old)
    · exact does.acknowledges new
  · simp only [after]
    rw [List.pairwise_append]
    refine ⟨claiming.never, ?_, ?_⟩
    · -- A call logs at most one event.
      cases does <;> first | exact .nil | exact List.pairwise_singleton _ _
    · rintro earlier old later new effectId token rfl
      exact claiming.untouched does (claiming.acked effectId token old) later new

theorem Claiming.step (claiming : Claiming sys) (settling : Settling sys) (env : Env)
    {action : OutboxAction} (fresh : sys.Fresh action) : Claiming (sys.step env action) := by
  cases action with
  | tick elapsed =>
      refine ⟨claiming.rows.later ?_, claiming.generations, claiming.generations_le,
        claiming.acked, claiming.never⟩
      exact Int.le_add_of_nonneg_right (Int.natCast_nonneg elapsed)
  | call call => exact claiming.does fresh (run_does env sys.now settling.unarmed call)

end ClaimSteps

theorem run_claiming (env : Env) (start : DateTime) {actions : List OutboxAction}
    (fresh : (machine env).Allows (.new start) actions) :
    Settling (run env (.new start) actions) ∧ Claiming (run env (.new start) actions) := by
  refine fresh.invariant (I := fun sys => Settling sys ∧ Claiming sys)
    ⟨settling_new start, claiming_new start⟩ ?_
  intro sys action both fresh
  exact ⟨both.1.step env action, both.2.step both.1 env fresh⟩

/-- The claim protocol is safe in a state: at most one unacknowledged effect carries
an unexpired claim; the generations handed out increase; an acknowledgement succeeds
only under the token of the effect's unexpired claim; an acknowledged effect is never
claimed or acknowledged again; and only acknowledged effects are marked cleaned up. -/
structure ClaimsSafely (env : Env) (sys : OutboxSystem) : Prop where
  single : ∀ left right rowLeft rowRight, sys.store.ingestEffects.lookup left = some rowLeft →
    sys.store.ingestEffects.lookup right = some rowRight →
    rowLeft.acknowledged = false → rowRight.acknowledged = false →
    rowLeft.claimLive sys.now = true → rowRight.claimLive sys.now = true → left = right
  generations : (sys.log.filterMap generationOf).Pairwise (· < ·)
  owner : ∀ effectId token, (Call.run env sys.now sys.store
    (.acknowledgeIngestEffect effectId token)).1 = .ok (.flag true) →
      ∃ row until_, sys.store.ingestEffects.lookup effectId = some row ∧
        row.claim = some (token, until_) ∧ sys.now < until_
  never : sys.log.Pairwise fun earlier later => ∀ effectId token,
    earlier = .acknowledged effectId token → ¬ Touches effectId later
  cleaned : ∀ effectId row, sys.store.ingestEffects.lookup effectId = some row →
    row.cleanupComplete = true → row.acknowledged = true

/-- **The claim protocol is safe in every run that resubmits no acknowledged effect.** -/
theorem run_claimsSafely (env : Env) (start : DateTime) (actions : List OutboxAction)
    (fresh : (machine env).Allows (.new start) actions) :
    ClaimsSafely env (run env (.new start) actions) := by
  obtain ⟨-, claiming⟩ := run_claiming env start fresh
  refine ⟨?_, claiming.generations, ?_, claiming.never, claiming.rows.cleaned⟩
  · intro left right rowLeft rowRight inLeft inRight _ _ live live'
    exact claiming.rows.single left right rowLeft rowRight inLeft inRight live live'
  · intro effectId token acknowledged
    simp only [Call.run, Call.gated] at acknowledged
    cases acknowledgeIngestEffect_cases effectId token (run env (.new start) actions).now
      (run env (.new start) actions).store with
    | lost shape =>
        rw [shape] at acknowledged
        cases acknowledged
    | closed row found open_ current shape =>
        obtain ⟨until_, held, unexpired⟩ := claim_of_claimedBy current
        exact ⟨row, until_, found, held, unexpired⟩

/-- An effect is committed, claimed, left to expire, claimed again and acknowledged. -/
theorem run_claimsSafely_reclaimed :
    let actions : List OutboxAction := [
      .call (.commitIngestBatchWithEffect ⟨"org", "agent", "b1"⟩ [] [] 0 (emptyEffect "e")),
      .call (.claimIngestEffect "t1" 30000), .tick 60000000000,
      .call (.claimIngestEffect "t2" 30000), .call (.acknowledgeIngestEffect "e" "t2")]
    (run Env.blank (.new 0) actions).log =
        [.claimed "e" "t1" 1, .claimed "e" "t2" 2, .acknowledged "e" "t2"] ∧
      ClaimsSafely Env.blank (run Env.blank (.new 0) actions) :=
  ⟨by decide, run_claimsSafely Env.blank 0 _
    ⟨(fun ⟨_, _, _, found, _⟩ => by cases found), id, trivial, id, id, trivial⟩⟩

/-- A resubmitted effect is claimed and acknowledged a second time. -/
theorem claimsSafely_fails_on_resubmission :
    ¬ ClaimsSafely Env.blank (run Env.blank (.new 0) [
      .call (.commitIngestBatchWithEffect ⟨"org", "agent", "b1"⟩ [] [] 0 (emptyEffect "e")),
      .call (.claimIngestEffect "t1" 30000), .call (.acknowledgeIngestEffect "e" "t1"),
      .call (.commitIngestBatchWithEffect ⟨"org", "agent", "b2"⟩ [] [] 0 (emptyEffect "e")),
      .call (.claimIngestEffect "t2" 30000), .call (.acknowledgeIngestEffect "e" "t2")]) := by
  intro safely
  have log : (run Env.blank (.new 0) [
      .call (.commitIngestBatchWithEffect ⟨"org", "agent", "b1"⟩ [] [] 0 (emptyEffect "e")),
      .call (.claimIngestEffect "t1" 30000), .call (.acknowledgeIngestEffect "e" "t1"),
      .call (.commitIngestBatchWithEffect ⟨"org", "agent", "b2"⟩ [] [] 0 (emptyEffect "e")),
      .call (.claimIngestEffect "t2" 30000), .call (.acknowledgeIngestEffect "e" "t2")]).log =
      [.claimed "e" "t1" 1, .acknowledged "e" "t1", .claimed "e" "t2" 2,
        .acknowledged "e" "t2"] := by decide
  have never := safely.never
  rw [log, List.pairwise_cons, List.pairwise_cons] at never
  exact never.2.1 (.claimed "e" "t2" 2) (by simp) "e" "t1" rfl rfl

end OutboxSystem

end Exocortex
