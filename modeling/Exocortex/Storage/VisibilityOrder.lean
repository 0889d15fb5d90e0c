import Exocortex.Storage.Visibility

/-!
# Visibility and wider grants

A caller's context grows with its ceiling, its projects and its teams. The two decisions of the
store follow: they stay within a tenant, an edge is shown only with both of its ends and below the
ceiling, and what a context shows every wider context shows (`memoryVisible_mono`,
`relationshipVisible_mono`).
-/

namespace Exocortex

/-- A context of the same caller, with no lower ceiling and no fewer grants. -/
structure VisibilityContext.GrowsTo (vc wider : VisibilityContext) : Prop where
  userId : wider.userId = vc.userId
  orgId : wider.orgId = vc.orgId
  ceiling : ¬ wider.maxVisibility < vc.maxVisibility
  projects : vc.projectIds ⊆ wider.projectIds
  teams : vc.teamIds ⊆ wider.teamIds

variable {vc wider : VisibilityContext}

theorem VisibilityContext.GrowsTo.not_lt (grows : vc.GrowsTo wider) {label : Visibility}
    (within : ¬ vc.maxVisibility < label) : ¬ wider.maxVisibility < label := by
  have raised := Visibility.not_lt_iff.mp grows.ceiling
  have low := Visibility.not_lt_iff.mp within
  exact Visibility.not_lt_iff.mpr (low.trans raised)

/-! ## Grants -/

theorem projectGranted_mono {granted more : List String} (within : granted ⊆ more)
    {project : String} (shown : projectGranted project granted) : projectGranted project more := by
  obtain ⟨grant, listed, names⟩ := List.any_eq_true.mp shown
  exact List.any_eq_true.mpr ⟨grant, within listed, names⟩

theorem any_projectGranted_mono (grows : vc.GrowsTo wider) {project : Option String}
    (shown : project.any (projectGranted · vc.projectIds)) :
    project.any (projectGranted · wider.projectIds) := by
  cases project with
  | none => exact shown
  | some project => exact projectGranted_mono grows.projects shown

theorem any_team_mono (grows : vc.GrowsTo wider) {team : Option String}
    (shown : team.any (vc.teamIds.contains ·)) : team.any (wider.teamIds.contains ·) := by
  cases team with
  | none => exact shown
  | some team => exact List.contains_iff_mem.mpr (grows.teams (List.contains_iff_mem.mp shown))

/-! ## Decisions -/

theorem memoryVisible_tenant {memory : Memory} (visible : memoryVisible memory vc) :
    memory.context.tenantId = some vc.orgId := by
  by_contra other
  rw [memoryVisible, if_pos other] at visible
  cases visible

/-- **What a context shows of the memories, a wider one shows.** -/
theorem memoryVisible_mono (grows : vc.GrowsTo wider) {memory : Memory}
    (visible : memoryVisible memory vc) : memoryVisible memory wider := by
  have tenant := memoryVisible_tenant visible
  rw [memoryVisible, if_neg (not_not.mpr tenant)] at visible
  rw [memoryVisible, grows.orgId, if_neg (not_not.mpr tenant)]
  by_cases ceiling : vc.maxVisibility < memory.visibility.effective
  · rw [if_pos ceiling] at visible
    cases visible
  · rw [if_neg ceiling] at visible
    rw [if_neg (grows.not_lt ceiling)]
    cases label : memory.visibility.effective <;> rw [label] at visible
    · rw [grows.userId]
      exact visible
    · exact any_projectGranted_mono grows visible
    · exact any_team_mono grows visible

variable {relationship : Relationship}

/-- A relationship is shown below the ceiling, with both of its ends. -/
theorem relationshipVisible_within {source target : Memory}
    (visible : relationshipVisible relationship source target vc) :
    memoryVisible source vc ∧ memoryVisible target vc ∧
      ¬ vc.maxVisibility < relationship.visibility.effective := by
  obtain ⟨left, right⟩ := relationshipVisible_ends visible
  refine ⟨left, right, fun above => ?_⟩
  rw [relationshipVisible, decide_eq_true above, Bool.true_or, Bool.true_or] at visible
  cases visible

theorem any_mono {α : Type} {xs : List α} {p q : α → Bool} (weaker : ∀ x ∈ xs, p x → q x)
    (some_ : xs.any p) : xs.any q := by
  obtain ⟨x, listed, holds⟩ := List.any_eq_true.mp some_
  exact List.any_eq_true.mpr ⟨x, listed, weaker x listed holds⟩

/-- **What a context shows of the relationships, a wider one shows.** -/
theorem relationshipVisible_mono (grows : vc.GrowsTo wider) {source target : Memory}
    (visible : relationshipVisible relationship source target vc) :
    relationshipVisible relationship source target wider := by
  obtain ⟨left, right, ceiling⟩ := relationshipVisible_within visible
  have raised := grows.not_lt ceiling
  have left' := memoryVisible_mono grows left
  have right' := memoryVisible_mono grows right
  rw [relationshipVisible] at visible ⊢
  simp only [ceiling, left, right, decide_false, Bool.not_true, Bool.or_self,
    Bool.false_eq_true, if_false] at visible
  simp only [raised, left', right', decide_false, Bool.not_true, Bool.or_self,
    Bool.false_eq_true, if_false]
  cases label : relationship.visibility.effective <;> rw [label] at visible
  · rw [grows.userId]
    exact visible
  · refine any_mono (fun memory _ shown => ?_) visible
    rw [Bool.and_eq_true] at shown ⊢
    exact ⟨shown.1, any_projectGranted_mono grows shown.2⟩
  · refine any_mono (fun memory _ shown => ?_) visible
    rw [Bool.and_eq_true] at shown ⊢
    exact ⟨shown.1, any_team_mono grows shown.2⟩

/-- **Decisions keep to the tenant, and are monotone in the ceiling and the grants.** -/
theorem visibility_safe_mono :
    (∀ memory vc, memoryVisible memory vc → memory.context.tenantId = some vc.orgId) ∧
    (∀ relationship source target vc, relationshipVisible relationship source target vc →
      memoryVisible source vc ∧ memoryVisible target vc ∧
        ¬ vc.maxVisibility < relationship.visibility.effective) ∧
    ∀ vc wider : VisibilityContext, vc.GrowsTo wider →
      (∀ memory, memoryVisible memory vc → memoryVisible memory wider) ∧
      ∀ relationship source target, relationshipVisible relationship source target vc →
        relationshipVisible relationship source target wider := by
  refine ⟨fun _ _ => memoryVisible_tenant, fun _ _ _ _ => relationshipVisible_within, ?_⟩
  exact fun vc wider grows =>
    ⟨fun _ => memoryVisible_mono grows, fun _ _ _ => relationshipVisible_mono grows⟩

end Exocortex
