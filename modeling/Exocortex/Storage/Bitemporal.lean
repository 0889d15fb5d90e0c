import Exocortex.Library.Bitemporal
import Exocortex.Storage.Reads

/-!
# Bitemporal reads

`valid_at` and `get_state_at` read the store as of an instant: of each history they take the
newest version that is recorded and has begun by then, and drop it when it has ended. The count
of `get_state_at` is the number of identities that `valid_at` answers for, and versions recorded
later change no answer.

A deletion appends a copy of the newest version that ends at the deletion, and begins when the
version began. It changes no answer before the deletion. From the deletion on the memory is
silent once its newest version has begun; a version that is to begin later is passed over until
then, and so is its closed copy, so that an older version answers again although the memory is
deleted. `bitemporalReads_iff` says when this does not happen (`SupersededUntilBegun`).
-/

namespace Exocortex

open Library

/-- The time axes of a memory version. -/
def Memory.times : Validity Memory DateTime where
  recordedAt := Memory.recordedAt
  validFrom := Memory.validFrom
  validUntil := Memory.validUntil

/-- The time axes of a relationship version. -/
def Relationship.times : Validity Relationship DateTime where
  recordedAt := Relationship.recordedAt
  validFrom := Relationship.validFrom
  validUntil := Relationship.validUntil

/-- The graph's metadata as of an instant. -/
structure StateSnapshot where
  asOf : DateTime
  backendLsn : ℕ
  memoryCount : ℕ
  relationshipCount : ℕ
deriving DecidableEq

variable {s : InMemoryStorage} {t now : DateTime} {id : MemoryId} {call : Call}

namespace InMemoryStorage

/-- The version of a memory believed at an instant. -/
def validAt (s : InMemoryStorage) (id : MemoryId) (t : DateTime) : Option Memory :=
  ((s.memories.history id).reverse.find? fun m => m.recordedAt ≤ t && m.validFrom ≤ t).filter
    fun m => m.validUntil.all (t < ·)

def getStateAt (s : InMemoryStorage) (t : DateTime) : StateSnapshot where
  asOf := t
  backendLsn := s.lsn
  memoryCount := (s.memories.values.filter fun h =>
    (h.reverse.find? fun m => m.recordedAt ≤ t && m.validFrom ≤ t).any fun m =>
      m.validFrom ≤ t && m.validUntil.all (t < ·)).length
  relationshipCount := (s.rels.values.filter fun h =>
    (h.reverse.find? fun r => r.recordedAt ≤ t && r.validFrom ≤ t).any fun r =>
      r.validFrom ≤ t && r.validUntil.all (t < ·)).length

/-- The version of a relationship believed at an instant. -/
def relationshipAt (s : InMemoryStorage) (id : RelationshipId) (t : DateTime) :
    Option Relationship :=
  Relationship.times.asOf (s.rels.history id) t

theorem validAt_eq (s : InMemoryStorage) (id : MemoryId) (t : DateTime) :
    s.validAt id t = Memory.times.asOf (s.memories.history id) t := rfl

/-- The count asks again whether the version has begun, which its search has made sure of. -/
theorem Validity_any_eq {V : Type} (times : Validity V DateTime) (h : List V) (t : DateTime) :
    (h.reverse.find? (times.reached t)).any
        (fun v => times.validFrom v ≤ t && times.lasts t v) = (times.asOf h t).isSome := by
  rw [Validity.asOf]
  cases found : h.reverse.find? (times.reached t) with
  | none => rfl
  | some v =>
      have begun := (Validity.reached_iff.mp (List.find?_some found)).2
      rw [Option.any_some, decide_eq_true begun, Bool.true_and, Option.filter_some]
      cases times.lasts t v <;> rfl

/-- As many histories answer as identities have an answer. -/
theorem count_asOf {K V : Type} [DecidableEq K] (times : Validity V DateTime)
    (table : Table K (List V)) (t : DateTime) :
    (table.values.filter fun h => (times.asOf h t).isSome).length =
      {id | (times.asOf (table.history id) t).isSome}.ncard := by
  rw [Table.length_filter_values]
  congr 1
  ext id
  simp only [Set.mem_ofPred_eq, Table.history]
  cases table.lookup id <;> simp

theorem memoryCount_eq (s : InMemoryStorage) (t : DateTime) :
    (s.getStateAt t).memoryCount = {id | (s.validAt id t).isSome}.ncard := by
  have same : (s.getStateAt t).memoryCount =
      (s.memories.values.filter fun h => (Memory.times.asOf h t).isSome).length := by
    have alike := funext fun h => Validity_any_eq Memory.times h t
    exact congrArg (fun keep => (s.memories.values.filter keep).length) alike
  rw [same, count_asOf]
  rfl

theorem relationshipCount_eq (s : InMemoryStorage) (t : DateTime) :
    (s.getStateAt t).relationshipCount = {id | (s.relationshipAt id t).isSome}.ncard := by
  have same : (s.getStateAt t).relationshipCount =
      (s.rels.values.filter fun h => (Relationship.times.asOf h t).isSome).length := by
    have alike := funext fun h => Validity_any_eq Relationship.times h t
    exact congrArg (fun keep => (s.rels.values.filter keep).length) alike
  rw [same, count_asOf]
  rfl

/-! ## Later versions -/

/-- Every history is continued, if at all, by versions recorded after an instant. -/
structure ContinuedAfter (t : DateTime) (s later : InMemoryStorage) : Prop where
  memories : ∀ id, ∃ more, later.memories.history id = s.memories.history id ++ more ∧
    ∀ m ∈ more, t < m.recordedAt
  relationships : ∀ id, ∃ more, later.rels.history id = s.rels.history id ++ more ∧
    ∀ r ∈ more, t < r.recordedAt

variable {later : InMemoryStorage}

theorem ContinuedAfter.validAt (continued : ContinuedAfter t s later) (id : MemoryId) :
    later.validAt id t = s.validAt id t := by
  obtain ⟨more, shape, after⟩ := continued.memories id
  rw [validAt_eq, validAt_eq, shape]
  exact Validity.asOf_append_of_later after

theorem ContinuedAfter.relationshipAt (continued : ContinuedAfter t s later) (id : RelationshipId) :
    later.relationshipAt id t = s.relationshipAt id t := by
  obtain ⟨more, shape, after⟩ := continued.relationships id
  rw [InMemoryStorage.relationshipAt, InMemoryStorage.relationshipAt, shape]
  exact Validity.asOf_append_of_later after

theorem ContinuedAfter.getStateAt (continued : ContinuedAfter t s later) :
    (later.getStateAt t).memoryCount = (s.getStateAt t).memoryCount ∧
      (later.getStateAt t).relationshipCount = (s.getStateAt t).relationshipCount := by
  rw [memoryCount_eq, memoryCount_eq, relationshipCount_eq, relationshipCount_eq]
  simp only [continued.validAt, continued.relationshipAt, and_self]

/-! ## Deletions -/

/-- The closed copy that a deletion appends under a sequence number. -/
def closedMemory (last : Memory) (now : DateTime) (lsn : ℕ) : Memory :=
  { last with validUntil := some now, recordedAt := now, lsn := LSN.newBackend lsn }

theorem closes_closedMemory (last : Memory) (now : DateTime) (lsn : ℕ) :
    Memory.times.Closes now last (closedMemory last now lsn) := ⟨rfl, rfl, rfl⟩

end InMemoryStorage

open InMemoryStorage

/-- The calls that delete a memory. -/
def Call.Deletes (id : MemoryId) : Call → Prop
  | .deleteMemory other | .deleteMemoryFenced other _ => other = id
  | _ => False

/-- A call that was not refused. -/
def Call.Succeeds (env : Env) (now : DateTime) (s : InMemoryStorage) (call : Call) : Prop :=
  ∃ reply, (call.run env now s).1 = .ok reply

/-- A fenced section that succeeds is its body. -/
theorem fenced_of_succeeds {α β : Type} {f : α → β} {lease : OwnerLease} {body : Outcome α}
    {reply : β} (ran : ((s.fenced lease now body).map f).reply = .ok reply) :
    s.fenced lease now body = body := by
  by_cases current : s.leaseCurrent lease now = true
  · exact fenced_current current body
  · rw [fenced_stale current] at ran
    cases ran

/-- A deletion closes the newest version of its memory and writes no other. -/
theorem Call.history_of_deletes {env : Env} (deletes : call.Deletes id)
    (succeeds : call.Succeeds env now s) (other : MemoryId) :
    (call.run env now s).2.memories.history other = s.memories.history other ++
      if other = id then ((s.memories.history id).getLast?.map
        (closedMemory · now (s.lsn + 1))).toList else [] := by
  have same : (call.gated env now s).post = (s.deleteMemory id now).post := by
    cases call with
    | deleteMemory other =>
        cases deletes
        rfl
    | deleteMemoryFenced other lease =>
        cases deletes
        obtain ⟨reply, ran⟩ := succeeds
        have passed : s.fenced lease now (s.deleteMemory id now) = s.deleteMemory id now :=
          fenced_of_succeeds ran
        rw [Call.gated, InMemoryStorage.deleteMemoryFenced, passed]
        rfl
    | _ => cases deletes
  obtain ⟨index, state⟩ := Call.run_state env now s call
  rw [state]
  dsimp only
  rw [same, InMemoryStorage.deleteMemory, deleteMemoryLocked]
  cases newest : (s.memories.history id).getLast? with
  | none => by_cases here : other = id <;> simp [here]
  | some last =>
      dsimp only
      rw [Table.history_push]
      rfl

/-! ## The law -/

/-- What the bitemporal reads promise of a store and of a deletion on it: the counts are those
of the answers, later versions change no answer, and the deletion changes no answer before it
and silences the memory from then on, for as long as nothing else is written to its history. -/
structure BitemporalReads (env : Env) (s : InMemoryStorage) (id : MemoryId) (now : DateTime)
    (deletion : Call) : Prop where
  counts : ∀ t, (s.getStateAt t).memoryCount = {id | (s.validAt id t).isSome}.ncard
  stable : ∀ t later, ContinuedAfter t s later →
    (∀ id, later.validAt id t = s.validAt id t) ∧
      (later.getStateAt t).memoryCount = (s.getStateAt t).memoryCount ∧
      (later.getStateAt t).relationshipCount = (s.getStateAt t).relationshipCount
  past : ∀ other t, t < now → (deletion.run env now s).2.validAt other t = s.validAt other t
  gone : ∀ more, (Call.runAll env (deletion.run env now s).2 more).memories.history id =
      (deletion.run env now s).2.memories.history id →
    ∀ t, now ≤ t → (Call.runAll env (deletion.run env now s).2 more).validAt id t = none

/-- From an instant on until the newest version of a memory begins, each older version that is
believed has another older version behind it that is recorded and has begun. -/
def SupersededUntilBegun (s : InMemoryStorage) (id : MemoryId) (now : DateTime) : Prop :=
  ∀ older newest, s.memories.history id = older ++ [newest] →
    ∀ t, now ≤ t → t < newest.validFrom → Memory.times.Overtaken older t

/-- A deletion changes no answer before it. -/
theorem Call.validAt_of_deletes_of_lt {env : Env} (deletes : call.Deletes id)
    (succeeds : call.Succeeds env now s) (other : MemoryId) (before : t < now) :
    (call.run env now s).2.validAt other t = s.validAt other t := by
  rw [validAt_eq, validAt_eq, Call.history_of_deletes deletes succeeds]
  apply Validity.asOf_append_of_later
  intro m member
  split at member
  · obtain ⟨last, -, rfl⟩ := Option.map_eq_some_iff.mp (Option.mem_toList.mp member)
    exact before
  · cases member

/-- A deleted memory is silent from the deletion on exactly when the versions under its newest
one are superseded until that begins. -/
theorem Call.validAt_of_deletes_iff {env : Env} (deletes : call.Deletes id)
    (succeeds : call.Succeeds env now s) :
    (∀ t, now ≤ t → (call.run env now s).2.validAt id t = none) ↔
      SupersededUntilBegun s id now := by
  simp only [validAt_eq, Call.history_of_deletes deletes succeeds, if_pos]
  rcases List.eq_nil_or_concat (s.memories.history id) with empty | ⟨older, newest, shape⟩
  · rw [empty]
    refine iff_of_true (fun t _ => rfl) ?_
    intro older newest shape
    rw [empty] at shape
    simp at shape
  · rw [List.concat_eq_append] at shape
    rw [shape, List.getLast?_concat]
    have closes := closes_closedMemory newest now (s.lsn + 1)
    refine (Validity.asOf_close_eq_none_iff closes).trans ⟨fun overtaken => ?_, fun law => ?_⟩
    · intro older' newest' shape'
      obtain ⟨rfl, same⟩ := List.append_inj' (shape'.symm.trans shape) rfl
      cases same
      exact overtaken
    · exact law older newest shape

/-- **The bitemporal reads keep their promise for a deletion exactly when, until the newest
version of the deleted memory begins, no older version of it is the newest in force.** -/
theorem bitemporalReads_iff (env : Env) (calls : List (DateTime × Call)) {id : MemoryId}
    {now : DateTime} {deletion : Call} (deletes : deletion.Deletes id)
    (succeeds : deletion.Succeeds env now (Call.runAll env .new calls)) :
    BitemporalReads env (Call.runAll env .new calls) id now deletion ↔
      SupersededUntilBegun (Call.runAll env .new calls) id now := by
  generalize Call.runAll env .new calls = s at *
  rw [← Call.validAt_of_deletes_iff deletes succeeds]
  constructor
  · intro law
    exact law.gone [] rfl
  · intro silent
    refine ⟨memoryCount_eq s, fun t later continued => ?_, fun other t before => ?_, ?_⟩
    · exact ⟨continued.validAt, continued.getStateAt⟩
    · exact Call.validAt_of_deletes_of_lt deletes succeeds other before
    · intro more same t after
      rw [validAt_eq, same, ← validAt_eq]
      exact silent t after

/-- The identity of the memory below. -/
def someMemory : MemoryId := ⟨Bytes.fill 16 1⟩

/-- A memory that is recorded at one instant and begins at another. -/
def Memory.begins (recordedAt validFrom : DateTime) : Memory :=
  { Memory.blank someMemory with recordedAt := recordedAt, validFrom := validFrom }

/-- A memory, and then a version of it that is to begin at instant 100. -/
def pendingVersion : List (DateTime × Call) :=
  [(0, .upsertMemory (.begins 0 0)), (5, .upsertMemory (.begins 5 100))]

/-- Deleted at instant 10, the memory is believed at instant 50. -/
theorem not_bitemporalReads :
    ¬ ∀ (env : Env) (calls : List (DateTime × Call)) (id : MemoryId) (now : DateTime)
      (deletion : Call), deletion.Deletes id →
        deletion.Succeeds env now (Call.runAll env .new calls) →
        BitemporalReads env (Call.runAll env .new calls) id now deletion := by
  intro law
  have gone := (law .blank pendingVersion someMemory 10 (.deleteMemory someMemory)
    rfl ⟨_, rfl⟩).gone [] rfl 50 (by decide)
  have answers : ((Call.runAll .blank (Call.run .blank 10 (Call.runAll .blank .new pendingVersion)
      (.deleteMemory someMemory)).2 []).validAt someMemory 50).isSome = true := by
    decide +kernel
  rw [gone] at answers
  cases answers

/-- A memory with one version is silent from its deletion on. -/
theorem bitemporalReads_iff_single :
    BitemporalReads .blank (Call.runAll .blank .new [(0, .upsertMemory (.begins 0 0))])
        someMemory 10 (.deleteMemory someMemory) ↔
      SupersededUntilBegun (Call.runAll .blank .new [(0, .upsertMemory (.begins 0 0))])
        someMemory 10 :=
  bitemporalReads_iff .blank [(0, .upsertMemory (.begins 0 0))] rfl ⟨_, rfl⟩

end Exocortex
