import Exocortex.Ops.Updates

/-!
# Whom a promotion reaches

A promotion writes a memory back under a wider label. The label decides who is named as its
readers: the author of a private memory, the members of its project or of its team, or all of the
organization. Those of one label are not among those of the next one, so only a promotion to the
organization, or one that leaves the label as it is, keeps every reader who has the ceiling for it
(`promoteVisibility_keeps_iff`).
-/

namespace Exocortex

open Library InMemoryStorage

/-- `promote_visibility`: the row is read, and written back with its new label. -/
def promoteVisibility (ctx : OpContext) (id : MemoryId) (label : String) (inputDigest : Bytes 32)
    (now : DateTime) (s : InMemoryStorage) : Except OpError InMemoryStorage := do
  let edit ← promoteRead ctx id label s
  let commit := s.promoteMemoryVisibilityAudited edit.row
    (ctx.audit "promote_visibility" inputDigest [id.toHex] now) now
  match commit.reply with
  | .error error => .error (.storage error)
  | .ok _ => .ok commit.post

/-! ## Readers with the ceiling -/

/-- Every reader of a memory whose ceiling is no lower than a label reads another one. -/
def KeepsReaders (before after : Memory) (label : Visibility) : Prop :=
  ∀ vc : VisibilityContext, ¬ vc.maxVisibility < label → memoryVisible before vc →
    memoryVisible after vc

/-- A member of a scope, with a ceiling of its own choice. -/
def Scope.caller (scope : Scope) (tenant : String) (ceiling : Visibility) : VisibilityContext :=
  { scope.member tenant "" with maxVisibility := ceiling }

theorem Scope.admits_caller (scope : Scope) (tenant : String) {ceiling : Visibility}
    (high : scope.label.rank ≤ ceiling.rank) : scope.admits (scope.caller tenant ceiling) := by
  have member := scope.admits_member tenant ""
  rw [Scope.admits, Bool.and_eq_true] at member ⊢
  refine ⟨decide_eq_true high, ?_⟩
  cases scope <;> exact member.2

/-- A caller of one scope, and of no other, is not of a wider one. -/
theorem Scope.not_holds_caller {scope wider : Scope} (tenant : String) (ceiling : Visibility)
    (above : scope.label.rank < wider.label.rank) (within : wider.label ≠ .org) :
    ¬ wider.holds (scope.caller tenant ceiling) := by
  cases scope <;> cases wider <;>
    simp_all [Scope.label, Visibility.rank, Scope.holds, Scope.caller, Scope.member, projectGranted]

/-- The label of a memory is changed, and its sequence number. -/
def Relabelled (before after : Memory) (label : Visibility) : Prop :=
  ∃ lsn, after = { before with visibility := label, lsn := lsn }

variable {label : Visibility}

theorem Visibility.eq_of_rank {other : Visibility} (same : label.rank = other.rank) :
    label = other := by
  cases label <;> cases other <;> first | rfl | cases same

theorem effective_eq_of_le (capped : ¬ Visibility.org < label) : label.effective = label := by
  cases label with
  | «public» => exact absurd (by decide) capped
  | _ => rfl

/-- A memory with a reader that gets a wider label, up to that of the organization, keeps the
readers who have the ceiling just when it is that of the organization, or the label it had. -/
theorem keepsReaders_iff {before after : Memory} {vc : VisibilityContext}
    (relabelled : Relabelled before after label) (capped : ¬ Visibility.org < label)
    (wider : ¬ label < before.visibility) (read : memoryVisible before vc) :
    KeepsReaders before after label ↔ label = .org ∨ label = before.visibility := by
  obtain ⟨lsn, rfl⟩ := relabelled
  have within : before.visibility.rank ≤ label.rank := Nat.not_lt.mp wider
  have under : label.rank ≤ Visibility.org.rank := Nat.not_lt.mp capped
  constructor
  · intro keeps
    by_contra neither
    obtain ⟨notOrg, changed⟩ := not_or.mp neither
    obtain ⟨scope, found, _⟩ := memoryVisible_iff.mp read
    have known := (Memory.audience_eq_some.mp found).2
    have labelled : scope.label = before.visibility :=
      (Memory.scope_label known).trans
        (effective_eq_of_le (Nat.not_lt.mpr (within.trans under)))
    have below : scope.label.rank < label.rank := by
      rw [labelled]
      exact lt_of_le_of_ne within fun same => changed (Visibility.eq_of_rank same).symm
    have shown : memoryVisible before (scope.caller vc.orgId label) := by
      refine memoryVisible_iff.mpr ⟨scope, ?_, scope.admits_caller vc.orgId below.le⟩
      rw [Scope.caller, Scope.member_orgId]
      exact found
    obtain ⟨reached, again, admitted⟩ :=
      memoryVisible_iff.mp (keeps (scope.caller vc.orgId label) (Nat.lt_irrefl _) shown)
    have named : reached.label = label :=
      (Memory.scope_label (Memory.audience_eq_some.mp again).2).trans (effective_eq_of_le capped)
    rw [Scope.admits, Bool.and_eq_true] at admitted
    exact Scope.not_holds_caller vc.orgId label (named ▸ below) (named ▸ notOrg) admitted.2
  · rintro (rfl | same) other high shown
    · have tenant : before.context.tenantId = some other.orgId := by
        obtain ⟨_, found, _⟩ := memoryVisible_iff.mp shown
        exact (Memory.audience_eq_some.mp found).1
      rw [memoryVisible, if_neg (not_not.mpr tenant)]
      exact (if_neg high).trans rfl
    · rw [← shown, memoryVisible, memoryVisible]
      dsimp only
      rw [same]

/-! ## Promotions -/

/-- What an accepted promotion has read and written. -/
theorem promoteVisibility_ok {s after : InMemoryStorage} (keyed : Keyed s.rows) {ctx : OpContext}
    {id : MemoryId} {label : String} {inputDigest : Bytes 32} {now : DateTime}
    (accepted : promoteVisibility ctx id label inputDigest now s = .ok after) :
    ∃ before later wider, s.currentMemory id = some before ∧
      after.currentMemory id = some later ∧ promotionLabel label = .ok wider ∧
      Relabelled before later wider ∧ ¬ Visibility.org < wider ∧ ¬ wider < before.visibility ∧
      memoryVisible before ctx.visibility := by
  obtain ⟨edit, read, committed⟩ := bind_eq_ok_iff.mp accepted
  obtain ⟨wider, named, read⟩ := bind_eq_ok_iff.mp read
  obtain ⟨_, capped, read⟩ := bind_eq_ok_iff.mp read
  obtain ⟨_, _, read⟩ := bind_eq_ok_iff.mp read
  cases found : s.currentMemory id with
  | none =>
      rw [getMemoryFor, found] at read
      cases read
  | some before =>
      rw [getMemoryFor, found] at read
      dsimp only at read
      split at read
      · next refused =>
          split at refused <;> cases refused
          cases read
      · next refused =>
          split at refused <;> cases refused
          cases read
      · next refused => split at refused <;> cases refused
      · next memory shown =>
          split at shown
          · next visible =>
              cases shown
              obtain ⟨_, widens, read⟩ := bind_eq_ok_iff.mp read
              cases read
              have last := found
              rw [currentMemory, ← keyed.memory_id found] at last
              have least := of_decide_eq_true (require_ok_iff.mp widens)
              rw [promoteMemoryVisibilityAudited] at committed
              dsimp only at committed
              rw [last] at committed
              dsimp only at committed
              rw [if_neg least] at committed
              cases committed
              refine ⟨before, { before with visibility := wider, lsn := .newBackend (s.lsn + 1) },
                wider, rfl, ?_, named, ⟨_, rfl⟩, of_decide_eq_true (require_ok_iff.mp capped),
                least, visible⟩
              change (Table.history (s.memories.push before.id _) id).getLast? = _
              rw [getLast?_history_push, if_pos (keyed.memory_id found).symm]
          · cases shown

/-- **A promotion keeps the readers who have the ceiling for its label** just when it is one to the
organization, or to the label that the memory has. -/
theorem promoteVisibility_keeps_iff (env : Env) (calls : List (DateTime × Call)) (ctx : OpContext)
    (id : MemoryId) (label : String) (inputDigest : Bytes 32) (now : DateTime)
    {after : InMemoryStorage} (accepted : promoteVisibility ctx id label inputDigest now
      (Call.runAll env .new calls) = .ok after) :
    ∃ before later, (Call.runAll env .new calls).currentMemory id = some before ∧
      after.currentMemory id = some later ∧
      (KeepsReaders before later later.visibility ↔
        label = "org" ∨ later.visibility = before.visibility) := by
  obtain ⟨before, later, wider, was, is, named, relabelled, capped, widens, read⟩ :=
    promoteVisibility_ok (runAll_keyed env calls) accepted
  refine ⟨before, later, was, is, ?_⟩
  have same : later.visibility = wider := by
    obtain ⟨lsn, rfl⟩ := relabelled
    rfl
  rw [same, keepsReaders_iff relabelled capped widens read]
  refine or_congr_left ⟨fun org => ?_, fun org => ?_⟩
  · subst org
    unfold promotionLabel at named
    split at named <;> first | rfl | cases named
  · subst org
    cases named
    rfl

/-- The promotion of a private note to the organization. -/
theorem promoteVisibility_keeps_org : ∃ after,
    promoteVisibility agentContext privateNote.id "org" (.fill 32 0) 1
      (Call.runAll Call.pairEnv .new noteCalls) = .ok after ∧
    ∃ before later, (Call.runAll Call.pairEnv .new noteCalls).currentMemory privateNote.id =
        some before ∧ after.currentMemory privateNote.id = some later ∧
      (KeepsReaders before later later.visibility ↔
        "org" = "org" ∨ later.visibility = before.visibility) := by
  obtain ⟨after, accepted⟩ := exists_ok (show (promoteVisibility agentContext privateNote.id "org"
    (.fill 32 0) 1 (Call.runAll Call.pairEnv .new noteCalls)).toOption.isSome by decide +kernel)
  exact ⟨after, accepted, promoteVisibility_keeps_iff Call.pairEnv noteCalls agentContext
    privateNote.id "org" (.fill 32 0) 1 accepted⟩

/-- A private note that is promoted to its project, of which it has none, is lost to its author. -/
theorem not_promoteVisibility_keeps : ∃ after before later,
    promoteVisibility agentContext privateNote.id "project" (.fill 32 0) 1
      (Call.runAll Call.pairEnv .new noteCalls) = .ok after ∧
    (Call.runAll Call.pairEnv .new noteCalls).currentMemory privateNote.id = some before ∧
    after.currentMemory privateNote.id = some later ∧
    ¬ acmeAgent.maxVisibility < later.visibility ∧ memoryVisible before acmeAgent = true ∧
    memoryVisible later acmeAgent = false := by
  obtain ⟨after, accepted⟩ := exists_ok (show (promoteVisibility agentContext privateNote.id
    "project" (.fill 32 0) 1 (Call.runAll Call.pairEnv .new noteCalls)).toOption.isSome by
      decide +kernel)
  have written : ((promoteVisibility agentContext privateNote.id "project" (.fill 32 0) 1
      (Call.runAll Call.pairEnv .new noteCalls)).toOption.bind
        (·.currentMemory privateNote.id)).any (fun later =>
          !decide (acmeAgent.maxVisibility < later.visibility) && !memoryVisible later acmeAgent) =
      true := by decide +kernel
  have read : ((Call.runAll Call.pairEnv .new noteCalls).currentMemory privateNote.id).any
      (memoryVisible · acmeAgent) = true := by decide +kernel
  obtain ⟨before, was, visible⟩ := Option.any_eq_true _ _ |>.mp read
  rw [accepted] at written
  obtain ⟨later, is, lost⟩ := Option.any_eq_true _ _ |>.mp written
  rw [Bool.and_eq_true, Bool.not_eq_true', Bool.not_eq_true', decide_eq_false_iff_not] at lost
  exact ⟨after, before, later, accepted, was, is, lost.1, visible, lost.2⟩

end Exocortex
