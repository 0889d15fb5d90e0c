import Exocortex.Kernel.Rulebook
import Exocortex.Storage.Types

/-!
# Who may read a row

`memoryVisible` and `relationshipVisible` are the store's two decisions about a caller.

A memory that anybody may read has an audience: a tenant, and within the tenant a user, a
project, a team or everybody (`Memory.audience`). A missing tenant, or a missing subject of
the label, leaves no audience. Audiences compare by inclusion of their readers, and that
comparison is decidable: one audience lies within another of the same tenant exactly when
the two are equal, or when the first is the project that is named like the grant of every
project (`readers_subset_iff`).
-/

namespace Exocortex

/-- Public rows are read as rows of the organization. -/
def Visibility.effective : Visibility → Visibility
  | .public => .org
  | label => label

/-- A grant names the project, or every project. -/
def projectGranted (project : String) (granted : List String) : Bool :=
  granted.any fun id => id = project || id = "*"

def memoryVisible (memory : Memory) (vc : VisibilityContext) : Bool :=
  if memory.context.tenantId ≠ some vc.orgId then false
  else if vc.maxVisibility < memory.visibility.effective then false
  else
    match memory.visibility.effective with
    | .private => memory.context.userId = some vc.userId
    | .project => memory.context.projectId.any (projectGranted · vc.projectIds)
    | .team => memory.context.teamId.any (vc.teamIds.contains ·)
    | .org | .public => true

/-- The label of an edge is resolved by an endpoint that carries the same label. -/
def relationshipVisible (relationship : Relationship) (source target : Memory)
    (vc : VisibilityContext) : Bool :=
  let label := relationship.visibility.effective
  if vc.maxVisibility < label || !memoryVisible source vc || !memoryVisible target vc then false
  else
    match label with
    | .private => [source, target].any fun memory =>
        memory.visibility = .private && memory.context.userId = some vc.userId
    | .project => [source, target].any fun memory =>
        memory.visibility = .project &&
          memory.context.projectId.any (projectGranted · vc.projectIds)
    | .team => [source, target].any fun memory =>
        memory.visibility = .team && memory.context.teamId.any (vc.teamIds.contains ·)
    | .org | .public => true

variable {vc : VisibilityContext} {memory : Memory}

/-- An edge is visible to those only who may read both of its ends. -/
theorem relationshipVisible_ends {relationship : Relationship} {source target : Memory}
    (visible : relationshipVisible relationship source target vc) :
    memoryVisible source vc ∧ memoryVisible target vc := by
  rw [relationshipVisible] at visible
  split at visible
  · cases visible
  · next passed =>
      rw [Bool.or_eq_true, Bool.or_eq_true, not_or, not_or] at passed
      exact ⟨by simpa using passed.1.2, by simpa using passed.2⟩

/-! ## Scopes -/

/-- Those within a tenant who may read a row. -/
inductive Scope where
  | user (id : String)
  | project (id : String)
  | team (id : String)
  | org
deriving DecidableEq

namespace Scope

/-- The label a scope stands for. -/
def label : Scope → Visibility
  | .user _ => .private
  | .project _ => .project
  | .team _ => .team
  | .org => .org

/-- The caller belongs to the scope. -/
def holds (scope : Scope) (vc : VisibilityContext) : Bool :=
  match scope with
  | .user id => id = vc.userId
  | .project id => projectGranted id vc.projectIds
  | .team id => vc.teamIds.contains id
  | .org => true

/-- The caller belongs to the scope, and its label is within the caller's ceiling. -/
def admits (scope : Scope) (vc : VisibilityContext) : Bool :=
  decide (scope.label.rank ≤ vc.maxVisibility.rank) && scope.holds vc

/-- Whoever belongs to the inner scope belongs to the outer one. -/
def Within (inner outer : Scope) : Prop :=
  inner = outer ∨ inner = .project "*" ∧ outer.label = .project

instance (inner outer : Scope) : Decidable (inner.Within outer) :=
  inferInstanceAs (Decidable (_ ∨ _ ∧ _))

theorem Within.refl (scope : Scope) : scope.Within scope := .inl rfl

/-- A caller of a tenant who belongs to a scope, and to little else: the user is not the
one given, unless the scope is that of a user. -/
def member (scope : Scope) (tenant other : String) : VisibilityContext :=
  match scope with
  | .user id => ⟨id, tenant, [], [], .private⟩
  | .project id => ⟨other ++ "+", tenant, [id], [], .project⟩
  | .team id => ⟨other ++ "+", tenant, [], [id], .team⟩
  | .org => ⟨other ++ "+", tenant, [], [], .org⟩

@[simp] theorem member_orgId (scope : Scope) (tenant other : String) :
    (scope.member tenant other).orgId = tenant := by
  cases scope <;> rfl

theorem admits_member (scope : Scope) (tenant other : String) :
    scope.admits (scope.member tenant other) := by
  cases scope <;> simp [admits, member, label, holds, projectGranted]

theorem append_plus_ne (id : String) : id ≠ id ++ "+" := by
  intro same
  have longer := congrArg String.length same
  rw [String.length_append] at longer
  have one : "+".length = 1 := by decide
  omega

/-- The user an outer scope names, to be avoided. -/
def userOf : Scope → String
  | .user id => id
  | _ => ""

/-- A scope that admits the member of another is at least as wide. -/
theorem within_of_admits_member {inner outer : Scope} {tenant : String}
    (admitted : outer.admits (inner.member tenant outer.userOf)) : inner.Within outer := by
  have plus := append_plus_ne outer.userOf
  cases inner <;> cases outer <;>
    simp_all [admits, member, label, holds, userOf, projectGranted, Within, Visibility.rank]
  exact (of_decide_eq_true admitted).symm

/-- A wider scope admits whom a narrower one does. -/
theorem Within.admits {inner outer : Scope} (within : inner.Within outer)
    (admitted : inner.admits vc) : outer.admits vc := by
  obtain rfl | ⟨rfl, same⟩ := within
  · exact admitted
  · cases outer with
    | project id =>
        simp only [Scope.admits, label, holds, projectGranted, Bool.and_eq_true,
          List.any_eq_true, Bool.or_eq_true, decide_eq_true_eq, or_self] at admitted ⊢
        obtain ⟨ceiling, grant, granted, every⟩ := admitted
        exact ⟨ceiling, grant, granted, .inr every⟩
    | user id => cases same
    | team id => cases same
    | org => cases same

end Scope

/-! ## Audiences -/

/-- The scope of a row: its label with the label's subject. -/
def Memory.scope (memory : Memory) : Option Scope :=
  match memory.visibility with
  | .private => memory.context.userId.map .user
  | .project => memory.context.projectId.map .project
  | .team => memory.context.teamId.map .team
  | .org | .public => some .org

/-- The tenant and the scope of a row, when it has both. -/
def Memory.audience (memory : Memory) : Option (String × Scope) :=
  match memory.context.tenantId, memory.scope with
  | some tenant, some scope => some (tenant, scope)
  | _, _ => none

theorem Memory.audience_eq_some {tenant : String} {scope : Scope} :
    memory.audience = some (tenant, scope) ↔
      memory.context.tenantId = some tenant ∧ memory.scope = some scope := by
  rw [Memory.audience]
  cases memory.context.tenantId with
  | none => simp
  | some found => cases memory.scope <;> simp

theorem Memory.scope_label {scope : Scope} (known : memory.scope = some scope) :
    scope.label = memory.visibility.effective := by
  rw [Memory.scope] at known
  split at known
  all_goals
    next label =>
      rw [label]
      first
        | obtain ⟨subject, -, rfl⟩ := Option.map_eq_some_iff.mp known
          rfl
        | cases known
          rfl

theorem Visibility.not_lt_iff {ceiling label : Visibility} :
    ¬ ceiling < label ↔ label.rank ≤ ceiling.rank := Nat.not_lt

/-- A caller reads a row when the row's audience is of the caller's tenant and admits the
caller. -/
theorem memoryVisible_iff :
    memoryVisible memory vc ↔
      ∃ scope, memory.audience = some (vc.orgId, scope) ∧ scope.admits vc := by
  simp only [Memory.audience_eq_some, Scope.admits, Bool.and_eq_true, decide_eq_true_eq]
  rw [memoryVisible]
  by_cases tenant : memory.context.tenantId = some vc.orgId
  · rw [if_neg (not_not.mpr tenant)]
    by_cases ceiling : vc.maxVisibility < memory.visibility.effective
    · rw [if_pos ceiling]
      constructor
      · intro visible
        cases visible
      · rintro ⟨scope, ⟨-, known⟩, low, -⟩
        rw [Memory.scope_label known] at low
        exact absurd ceiling (Visibility.not_lt_iff.mpr low)
    · rw [if_neg ceiling]
      have low := Visibility.not_lt_iff.mp ceiling
      cases label : memory.visibility <;>
        simp only [Visibility.effective, Memory.scope, label] at low ⊢
      · cases memory.context.userId <;> simp_all [Scope.holds, Scope.label]
      · cases memory.context.projectId <;> simp_all [Scope.holds, Scope.label]
      · cases memory.context.teamId <;> simp_all [Scope.holds, Scope.label]
      · simp_all [Scope.holds, Scope.label]
      · simp_all [Scope.holds, Scope.label]
  · simp [tenant]

/-- The callers who may read a row. -/
def Memory.readers (memory : Memory) : Set VisibilityContext := {vc | memoryVisible memory vc}

/-- The audience of one row lies within that of another. -/
def Memory.AudienceWithin (inner outer : Memory) : Prop :=
  ∀ found ∈ inner.audience, ∃ wider ∈ outer.audience,
    wider.1 = found.1 ∧ found.2.Within wider.2

instance (inner outer : Memory) : Decidable (inner.AudienceWithin outer) :=
  inferInstanceAs (Decidable (∀ found ∈ inner.audience, ∃ wider ∈ outer.audience, _ ∧ _))

/-- **The readers of one row are readers of another exactly when the one's audience lies
within the other's.** -/
theorem readers_subset_iff {inner outer : Memory} :
    inner.readers ⊆ outer.readers ↔ inner.AudienceWithin outer := by
  constructor
  · rintro subset ⟨tenant, scope⟩ found
    cases reached : outer.audience with
    | none =>
        have read : scope.member tenant "" ∈ inner.readers := by
          refine memoryVisible_iff.mpr ⟨scope, ?_, scope.admits_member tenant ""⟩
          rw [Scope.member_orgId]
          exact found
        obtain ⟨wider, here, -⟩ := memoryVisible_iff.mp (subset read)
        rw [reached] at here
        cases here
    | some wide =>
        obtain ⟨other, wider⟩ := wide
        have read : scope.member tenant wider.userOf ∈ inner.readers := by
          refine memoryVisible_iff.mpr ⟨scope, ?_, scope.admits_member tenant wider.userOf⟩
          rw [Scope.member_orgId]
          exact found
        obtain ⟨again, here, admitted⟩ := memoryVisible_iff.mp (subset read)
        rw [reached, Scope.member_orgId] at here
        cases here
        exact ⟨_, rfl, rfl, Scope.within_of_admits_member admitted⟩
  · intro within vc read
    obtain ⟨scope, found, admitted⟩ := memoryVisible_iff.mp read
    obtain ⟨⟨tenant, wider⟩, reached, same, narrower⟩ := within _ found
    dsimp only at same narrower
    subst same
    exact memoryVisible_iff.mpr ⟨wider, reached, narrower.admits admitted⟩

end Exocortex
