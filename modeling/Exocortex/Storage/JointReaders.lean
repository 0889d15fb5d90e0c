import Exocortex.Storage.Visibility

/-!
# Readers of two memories

An edge is visible between two memories that the caller sees, so its readers are among those of
both. A memory is open to whoever sees two others exactly when nobody sees both, or when the
audience of one of them lies within its own (`open_to_both_iff`); for an edge the same is asked of
its ends, and that one of them carries its label (`edge_open_to_both_iff`).

The converse takes a caller who sees the two memories and little else (`Scope.joint`).
-/

namespace Exocortex

/-! ## Edges and labels -/

/-- The label of an edge is that of the organization or that of one of its ends. -/
def Carried (edge : Relationship) (source target : Memory) : Prop :=
  edge.visibility.effective = .org ∨ edge.visibility = source.visibility ∨
    edge.visibility = target.visibility

instance (edge : Relationship) (source target : Memory) : Decidable (Carried edge source target) :=
  inferInstanceAs (Decidable (_ ∨ _ ∨ _))

variable {vc : VisibilityContext}

/-- A caller who sees a memory is what its label asks for. -/
theorem memoryVisible_subject {memory : Memory} (visible : memoryVisible memory vc) :
    (memory.visibility = .private → memory.context.userId = some vc.userId) ∧
      (memory.visibility = .project →
        memory.context.projectId.any (projectGranted · vc.projectIds)) ∧
      (memory.visibility = .team → memory.context.teamId.any (vc.teamIds.contains ·)) := by
  rw [memoryVisible] at visible
  split at visible
  · cases visible
  · split at visible
    · cases visible
    · cases label : memory.visibility <;> simp_all [Visibility.effective]

/-- Whoever sees both ends of an edge sees the edge, within its ceiling, if an end carries the
label. -/
theorem relationshipVisible_iff {edge : Relationship} {source target : Memory} :
    relationshipVisible edge source target vc ↔ memoryVisible source vc ∧
      memoryVisible target vc ∧ edge.visibility.effective.rank ≤ vc.maxVisibility.rank ∧
      Carried edge source target := by
  by_cases seen : memoryVisible source vc ∧ memoryVisible target vc ∧
      edge.visibility.effective.rank ≤ vc.maxVisibility.rank
  · obtain ⟨seesSource, seesTarget, ceiling⟩ := seen
    have open_ : (decide (vc.maxVisibility < edge.visibility.effective) ||
        !memoryVisible source vc || !memoryVisible target vc) = false := by
      simpa [seesSource, seesTarget] using Visibility.not_lt_iff.mpr ceiling
    have left := memoryVisible_subject seesSource
    have right := memoryVisible_subject seesTarget
    simp only [seesSource, seesTarget, ceiling, true_and]
    rw [relationshipVisible, open_]
    simp only [Bool.false_eq_true, if_false, Carried]
    cases edge.visibility <;> simp only [Visibility.effective] <;> simp [List.any_cons] <;> grind
  · constructor
    · intro visible
      obtain ⟨seesSource, seesTarget⟩ := relationshipVisible_ends visible
      refine absurd ⟨seesSource, seesTarget, ?_⟩ seen
      by_contra above
      have closed : vc.maxVisibility < edge.visibility.effective := Nat.lt_of_not_le above
      simp [relationshipVisible, closed] at visible
    · rintro ⟨seesSource, seesTarget, ceiling, -⟩
      exact absurd ⟨seesSource, seesTarget, ceiling⟩ seen

/-! ## Callers who see two memories -/

namespace Scope

/-- Two scopes have a caller in common, unless they name different users. -/
def Compatible : Scope → Scope → Prop
  | .user left, .user right => left = right
  | _, _ => True

instance (left right : Scope) : Decidable (left.Compatible right) := by
  cases left <;> cases right <;> unfold Compatible <;> infer_instance

/-- A caller who belongs to two scopes, and to little else. -/
def joint (left right : Scope) (tenant other : String) : VisibilityContext :=
  let first := left.member tenant other
  let second := right.member tenant other
  { userId := if left.label = .private then first.userId else second.userId
    orgId := tenant
    projectIds := first.projectIds ++ second.projectIds
    teamIds := first.teamIds ++ second.teamIds
    maxVisibility :=
      if first.maxVisibility < second.maxVisibility then second.maxVisibility
      else first.maxVisibility }

variable {left right outer : Scope} {tenant other : String}

theorem joint_ceiling :
    (left.joint right tenant other).maxVisibility.rank = max left.label.rank right.label.rank := by
  cases left <;> cases right <;> rfl

theorem admits_joint_left (left right : Scope) (tenant other : String) :
    left.admits (left.joint right tenant other) := by
  rw [admits, Bool.and_eq_true, joint_ceiling]
  refine ⟨decide_eq_true (le_max_left _ _), ?_⟩
  cases left <;> simp [holds, joint, member, label, projectGranted]

theorem admits_joint_right (compatible : left.Compatible right) (tenant other : String) :
    right.admits (left.joint right tenant other) := by
  rw [admits, Bool.and_eq_true, joint_ceiling]
  refine ⟨decide_eq_true (le_max_right _ _), ?_⟩
  cases right <;> cases left <;>
    simp_all [holds, joint, member, label, projectGranted, Compatible]

/-- A scope that admits the joint caller is as wide as one of the two. -/
theorem within_of_admits_joint
    (admitted : outer.admits (left.joint right tenant outer.userOf)) :
    left.Within outer ∨ right.Within outer := by
  have plus := append_plus_ne outer.userOf
  rw [admits, Bool.and_eq_true, joint_ceiling, decide_eq_true_eq] at admitted
  obtain ⟨ceiling, held⟩ := admitted
  cases outer with
  | user id => cases left <;> cases right <;> simp_all [holds, joint, member, label, userOf, Within]
  | project id =>
      cases left <;> cases right <;>
        simp_all [holds, joint, member, label, userOf, Within, projectGranted]
  | team id =>
      cases left <;> cases right <;>
        simp_all [holds, joint, member, label, userOf, Within]
      exact held.imp Eq.symm Eq.symm
  | org => cases left <;> cases right <;> simp_all [label, Within, Visibility.rank]

end Scope

section Readers

variable {source target other : Memory} {edge : Relationship} {left right : Memory}

/-- Some caller sees both memories. -/
def Memory.Together (source target : Memory) : Prop :=
  ∃ here ∈ source.audience, ∃ there ∈ target.audience,
    here.1 = there.1 ∧ here.2.Compatible there.2

instance (source target : Memory) : Decidable (source.Together target) :=
  inferInstanceAs (Decidable (∃ here ∈ source.audience, ∃ there ∈ target.audience, _ ∧ _))

theorem together_of_readers (seesSource : memoryVisible source vc)
    (seesTarget : memoryVisible target vc) : source.Together target := by
  obtain ⟨scope, audience, admits⟩ := memoryVisible_iff.mp seesSource
  obtain ⟨scope', audience', admits'⟩ := memoryVisible_iff.mp seesTarget
  refine ⟨_, audience, _, audience', rfl, ?_⟩
  dsimp only
  cases scope <;> cases scope' <;> simp_all [Scope.Compatible, Scope.admits, Scope.holds]

/-- A caller who sees two memories, and no other one that is narrower than both. -/
theorem exists_joint_reader (together : source.Together target) (other : Memory) :
    ∃ vc, memoryVisible source vc ∧ memoryVisible target vc ∧
      (vc.maxVisibility.rank = max source.visibility.effective.rank
        target.visibility.effective.rank) ∧
      (memoryVisible other vc → source.AudienceWithin other ∨ target.AudienceWithin other) := by
  obtain ⟨⟨tenant, scope⟩, audience, ⟨tenant', scope'⟩, audience', same, compatible⟩ := together
  dsimp only at same compatible
  subst same
  obtain ⟨avoided, avoids⟩ : ∃ avoided, ∀ found ∈ other.audience, avoided = found.2.userOf := by
    cases other.audience with
    | none => exact ⟨"", fun _ absent => by cases absent⟩
    | some found => exact ⟨found.2.userOf, fun _ same => by rw [Option.some.inj same]⟩
  refine ⟨scope.joint scope' tenant avoided,
    memoryVisible_iff.mpr ⟨scope, audience, scope.admits_joint_left scope' tenant avoided⟩,
    memoryVisible_iff.mpr ⟨scope', audience', Scope.admits_joint_right compatible tenant avoided⟩,
    ?_, ?_⟩
  · rw [Scope.joint_ceiling, Memory.scope_label (Memory.audience_eq_some.mp audience).2,
      Memory.scope_label (Memory.audience_eq_some.mp audience').2]
  · intro visible
    obtain ⟨outer, reached, admitted⟩ := memoryVisible_iff.mp visible
    rw [avoids _ reached] at admitted
    rcases Scope.within_of_admits_joint admitted with within | within
    · refine .inl fun found here => ⟨_, reached, ?_⟩
      cases Option.some.inj (here.symm.trans audience)
      exact ⟨rfl, within⟩
    · refine .inr fun found here => ⟨_, reached, ?_⟩
      cases Option.some.inj (here.symm.trans audience')
      exact ⟨rfl, within⟩

/-- Whoever sees two memories sees a third, exactly when nobody sees the two or the third is as
wide as one of them. -/
theorem open_to_both_iff :
    (∀ vc, memoryVisible source vc → memoryVisible target vc → memoryVisible other vc) ↔
      (source.Together target →
        source.AudienceWithin other ∨ target.AudienceWithin other) := by
  constructor
  · intro sees together
    obtain ⟨vc, seesSource, seesTarget, -, within⟩ := exists_joint_reader together other
    exact within (sees vc seesSource seesTarget)
  · intro within vc seesSource seesTarget
    rcases within (together_of_readers seesSource seesTarget) with within | within
    · exact readers_subset_iff.mpr within seesSource
    · exact readers_subset_iff.mpr within seesTarget

/-- Both ends of an edge are as wide as one of two memories, an end carries its label, and a label
of the organization is that of one of the two memories. -/
structure OpenTo (source target : Memory) (edge : Relationship) (left right : Memory) : Prop where
  leftWide : source.AudienceWithin left ∨ target.AudienceWithin left
  rightWide : source.AudienceWithin right ∨ target.AudienceWithin right
  carried : Carried edge left right
  org : edge.visibility.effective = .org →
    source.visibility.effective = .org ∨ target.visibility.effective = .org

theorem Visibility.effective_eq_org_iff {label : Visibility} :
    label.effective = .org ↔ 3 ≤ label.effective.rank := by
  cases label <;> decide

/-- The ceiling of a caller who sees a memory is not below its label. -/
theorem memoryVisible_ceiling {memory : Memory} (visible : memoryVisible memory vc) :
    memory.visibility.effective.rank ≤ vc.maxVisibility.rank := by
  obtain ⟨scope, audience, admits⟩ := memoryVisible_iff.mp visible
  rw [Scope.admits, Bool.and_eq_true, decide_eq_true_eq,
    Memory.scope_label (Memory.audience_eq_some.mp audience).2] at admits
  exact admits.1

/-- Whoever sees two memories sees an edge, exactly when nobody sees the two or the edge is open
to them. -/
theorem edge_open_to_both_iff :
    (∀ vc, memoryVisible source vc → memoryVisible target vc →
        relationshipVisible edge left right vc) ↔
      (source.Together target → OpenTo source target edge left right) := by
  constructor
  · intro sees together
    have ends (vc) (seesSource : memoryVisible source vc) (seesTarget : memoryVisible target vc) :=
      relationshipVisible_iff.mp (sees vc seesSource seesTarget)
    obtain ⟨vc, seesSource, seesTarget, ceiling, -⟩ := exists_joint_reader together source
    obtain ⟨-, -, low, carried⟩ := ends vc seesSource seesTarget
    refine ⟨open_to_both_iff.mp (fun vc here there => (ends vc here there).1) together,
      open_to_both_iff.mp (fun vc here there => (ends vc here there).2.1) together, carried, ?_⟩
    intro isOrg
    rw [Visibility.effective_eq_org_iff] at isOrg
    rw [Visibility.effective_eq_org_iff, Visibility.effective_eq_org_iff]
    omega
  · intro open_ vc seesSource seesTarget
    have opened := open_ (together_of_readers seesSource seesTarget)
    have seesLeft := open_to_both_iff.mpr (fun _ => opened.leftWide) vc seesSource seesTarget
    have seesRight := open_to_both_iff.mpr (fun _ => opened.rightWide) vc seesSource seesTarget
    refine relationshipVisible_iff.mpr ⟨seesLeft, seesRight, ?_, opened.carried⟩
    rcases opened.carried with isOrg | same | same
    · rw [isOrg]
      rcases opened.org isOrg with label | label
      · rw [← label]
        exact memoryVisible_ceiling seesSource
      · rw [← label]
        exact memoryVisible_ceiling seesTarget
    · rw [same]
      exact memoryVisible_ceiling seesLeft
    · rw [same]
      exact memoryVisible_ceiling seesRight

end Readers

end Exocortex
