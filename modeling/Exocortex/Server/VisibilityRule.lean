import Exocortex.Cache.Traversal
import Exocortex.Server.Sse

/-!
# One rule of visibility

The store decides by `memoryVisible` and `relationshipVisible` who may read a row. The cache
checks the edges of its snapshot itself when it reads along them, and the feed checks discoveries
itself. `OneVisibilityRule` says that these checks come to what the store decides.

For the cache that is so exactly when every edge of the snapshot carries a label that fits its
ends for the caller. For the feed it is so exactly when a caller with the grant of every project
also holds the project of the discovery by name, or the discovery is of every project
(`oneVisibilityRule_iff`).
-/

namespace Exocortex

open Library

/-! ## The cache -/

namespace GraphSnapshot

variable {snap : GraphSnapshot} {vc : VisibilityContext}

/-- Every edge of a snapshot has a label that fits its ends. -/
def LabelsFit (snap : GraphSnapshot) (vc : VisibilityContext) : Prop :=
  ∀ eid edge source target, snap.petgraph.edges.lookup eid = some edge →
    snap.petgraph.nodeWeight edge.source = some source →
      snap.petgraph.nodeWeight edge.target = some target →
        LabelFits vc edge.weight source target

variable {edge : Edge Relationship}

theorem edgeVisible_eq {source target : Memory}
    (left : snap.petgraph.nodeWeight edge.source = some source)
    (right : snap.petgraph.nodeWeight edge.target = some target) :
    snap.edgeVisible edge vc = relationshipVisible edge.weight source target vc := by
  rw [edgeVisible, left, right]

theorem Consistent.exists_ends (consistent : snap.Consistent) {eid : ℕ}
    (found : snap.petgraph.edges.lookup eid = some edge) :
    ∃ source target, snap.petgraph.nodeWeight edge.source = some source ∧
      snap.petgraph.nodeWeight edge.target = some target := by
  obtain ⟨source, target⟩ := consistent.ends eid edge found
  obtain ⟨_, left⟩ := Option.ne_none_iff_exists'.mp source
  obtain ⟨_, right⟩ := Option.ne_none_iff_exists'.mp target
  obtain ⟨source, left, _⟩ := idAt_eq_some.mp left
  obtain ⟨target, right, _⟩ := idAt_eq_some.mp right
  exact ⟨source, target, left, right⟩

/-- The verdict on an edge that fits its ends agrees with the store, if the edge is followed from
or to a source that the caller may read. -/
theorem judge_agrees {wanted : Bool} {hop : Hop} {source target : Memory}
    (left : snap.petgraph.nodeWeight hop.edge.source = some source)
    (right : snap.petgraph.nodeWeight hop.edge.target = some target)
    (fits : LabelFits vc hop.edge.weight source target)
    (shown : ∀ m, snap.judge vc wanted hop = .follow m → memoryVisible source vc) :
    (snap.judge vc wanted hop).Agrees (snap.edgeVisible hop.edge vc) := by
  rw [edgeVisible_eq left right]
  cases verdict : snap.judge vc wanted hop with
  | otherKind => trivial
  | hidden => trivial
  | follow m =>
      have sees := shown m verdict
      obtain ⟨-, within, -, -⟩ := judge_eq_follow.mp verdict
      cases other : memoryVisible target vc with
      | true => exact ((label_agrees_iff sees other).mpr fits).mp within
      | false => exact absurd (fits.hidden sees other) (Nat.not_lt.mpr within)
  | overCeiling =>
      obtain ⟨-, above⟩ := judge_eq_overCeiling.mp verdict
      by_contra visible
      have shows := Bool.not_eq_false _ ▸ visible
      obtain ⟨sees, other⟩ := relationshipVisible_ends shows
      exact absurd (((label_agrees_iff sees other).mpr fits).mpr shows) (Nat.not_le.mpr above)

/-- What the cache reads along agrees with the store. -/
structure FollowsRule (snap : GraphSnapshot) (vc : VisibilityContext) : Prop where
  traverse : ∀ source spec, spec.visibilityCtx = vc → ∀ hop ∈ snap.traversed source spec,
    (snap.traverseVerdict spec hop).Agrees (snap.edgeVisible hop.edge vc)
  supersededBy : ∀ id supersedesKinds, ∀ hop ∈ snap.supersedingHops id vc supersedesKinds,
    (snap.supersedesVerdict vc supersedesKinds hop).Agrees (snap.edgeVisible hop.edge vc)

/-- **The cache follows the rule exactly when the labels of its edges fit.** -/
theorem Consistent.followsRule_iff (consistent : snap.Consistent) :
    snap.FollowsRule vc ↔ snap.LabelsFit vc := by
  constructor
  · intro follows eid edge source target found left right
    -- the traversal from the source looks at the edge, and its verdict is on the label
    have agrees (sees : memoryVisible source vc) (other : memoryVisible target vc) :
        LabelFits vc edge.weight source target := by
      refine (label_agrees_iff sees other).mp ?_
      have looked : (⟨edge, edge.target⟩ : Hop) ∈ snap.traversed source.id ⟨.out, [], 1, 1, vc⟩ :=
        consistent.traversed_start left sees Nat.one_pos
          (consistent.mem_hopsOut.mpr ⟨eid, edge, found, rfl, rfl⟩)
      have verdict := follows.traverse _ _ rfl _ looked
      rw [edgeVisible_eq left right] at verdict
      constructor
      · intro within
        have passes : snap.traverseVerdict ⟨.out, [], 1, 1, vc⟩ ⟨edge, edge.target⟩ =
            .follow target := judge_eq_follow.mpr ⟨rfl, within, right, other⟩
        rw [passes] at verdict
        exact verdict
      · intro visible
        by_contra above
        have refused : snap.traverseVerdict ⟨.out, [], 1, 1, vc⟩ ⟨edge, edge.target⟩ =
            .overCeiling := judge_eq_overCeiling.mpr ⟨rfl, Nat.lt_of_not_le above⟩
        rw [refused] at verdict
        rw [verdict] at visible
        cases visible
    refine ⟨fun sees other => (agrees sees other).everybody sees other,
      fun sees other => (agrees sees other).carried sees other, fun sees hidden => ?_⟩
    by_contra within
    -- the search for a successor of the hidden target follows this edge or one before it
    have passes : snap.supersedesVerdict vc [edge.weight.kind] ⟨edge, edge.source⟩ =
        .follow source := judge_eq_follow.mpr ⟨by simp, Nat.le_of_not_lt within, left, sees⟩
    obtain ⟨first, looked, entering, answers⟩ := exists_follow_of_mem_hopsIn
      (consistent.id_of_node _ _ right)
      (consistent.mem_hopsIn.mpr ⟨eid, edge, found, rfl, rfl⟩) (by rw [passes]; rfl)
    obtain ⟨m, reached⟩ := Option.isSome_iff_exists.mp answers
    have verdict := follows.supersededBy _ _ first looked
    rw [Verdict.reached_eq_some.mp reached] at verdict
    obtain ⟨other, entry, there, into, rfl⟩ := consistent.mem_hopsIn.mp entering
    obtain ⟨head, tail, first, second⟩ := consistent.exists_ends there
    have same : tail = target := Option.some.inj (second.symm.trans (into ▸ right))
    have ends := relationshipVisible_ends ((edgeVisible_eq first second).symm.trans verdict)
    rw [same, hidden] at ends
    exact absurd ends.2 Bool.false_ne_true
  · intro fits
    constructor
    · rintro start spec rfl hop looked
      obtain ⟨node, ⟨m, found, visible⟩, ⟨eid, there⟩, at_⟩ := consistent.traversed_at looked
      obtain ⟨source, target, left, right⟩ := consistent.exists_ends there
      refine judge_agrees left right (fits eid _ source target there left right)
        fun other verdict => ?_
      obtain ⟨-, -, reached, shown⟩ := judge_eq_follow.mp verdict
      rcases at_ with ⟨leaving, _⟩ | ⟨_, back⟩
      · rw [leaving, found] at left
        exact Option.some.inj left ▸ visible
      · rw [back, left] at reached
        exact Option.some.inj reached ▸ shown
    · intro id supersedesKinds hop looked
      obtain ⟨⟨eid, there⟩, back⟩ := consistent.supersedingHops_at looked
      obtain ⟨source, target, left, right⟩ := consistent.exists_ends there
      refine judge_agrees left right (fits eid _ source target there left right)
        fun other verdict => ?_
      obtain ⟨-, -, reached, shown⟩ := judge_eq_follow.mp verdict
      rw [back, left] at reached
      exact Option.some.inj reached ▸ shown

end GraphSnapshot

/-! ## The feed -/

/-- A discovery of the caller's organization, between memories that the caller may read. -/
def DiscoveryRecord.Shown (record : DiscoveryRecord) (endpoints : List Memory)
    (vc : VisibilityContext) : Prop :=
  (record.region.org = "*" ∨ record.region.org = vc.orgId) ∧
    ∃ source target, endpoints.find? (·.id = record.source) = some source ∧
      endpoints.find? (·.id = record.target) = some target ∧
        memoryVisible source vc ∧ memoryVisible target vc

variable {record : DiscoveryRecord} {endpoints : List Memory} {vc : VisibilityContext}

/-- The filter of the feed lets a discovery through when it is shown and of a project that is
granted by name. -/
theorem discoveryVisible_iff :
    discoveryVisible record endpoints vc = true ↔ record.Shown endpoints vc ∧
      (record.region.project = "*" ∨ record.region.project ∈ vc.projectIds) := by
  unfold discoveryVisible DiscoveryRecord.Shown
  by_cases org : record.region.org = "*" ∨ record.region.org = vc.orgId
  · rw [if_neg fun apart => org.elim apart.1 apart.2]
    simp only [org, true_and]
    by_cases project : record.region.project = "*" ∨ record.region.project ∈ vc.projectIds
    · rw [if_neg fun apart => project.elim apart.1 (by simpa using apart.2)]
      simp only [project, and_true]
      cases endpoints.find? (·.id = record.source) with
      | none => simp
      | some source => cases endpoints.find? (·.id = record.target) <;> simp
    · rw [if_pos ⟨fun every => project (.inl every),
        by simpa using fun named => project (.inr named)⟩]
      simp [project]
  · rw [if_pos ⟨fun every => org (.inl every), fun named => org (.inr named)⟩]
    simp [org]

/-- A caller with the grant of every project is given exactly the discoveries that are shown. -/
def FeedFollowsRule (record : DiscoveryRecord) (endpoints : List Memory)
    (vc : VisibilityContext) : Prop :=
  "*" ∈ vc.projectIds →
    (discoveryVisible record endpoints vc = true ↔ record.Shown endpoints vc)

/-- A discovery that is shown to a caller with the grant of every project is of a project that is
also granted by name, or of every project. -/
def ProjectNamed (record : DiscoveryRecord) (endpoints : List Memory)
    (vc : VisibilityContext) : Prop :=
  "*" ∈ vc.projectIds → record.Shown endpoints vc →
    record.region.project = "*" ∨ record.region.project ∈ vc.projectIds

theorem feedFollowsRule_iff :
    FeedFollowsRule record endpoints vc ↔ ProjectNamed record endpoints vc := by
  unfold FeedFollowsRule ProjectNamed
  rw [discoveryVisible_iff]
  exact forall_congr' fun _ => and_iff_left_iff_imp

/-! ## The rule -/

/-- The cache and the feed decide as the store does. -/
def OneVisibilityRule (snap : GraphSnapshot) (record : DiscoveryRecord) (endpoints : List Memory)
    (vc : VisibilityContext) : Prop :=
  snap.FollowsRule vc ∧ FeedFollowsRule record endpoints vc

/-- **There is one rule of visibility exactly when the labels of the edges fit their ends and the
projects of discoveries are granted by name.** -/
theorem oneVisibilityRule_iff (deltas : List SnapshotDelta) (record : DiscoveryRecord)
    (endpoints : List Memory) (vc : VisibilityContext) :
    OneVisibilityRule (SnapshotDelta.applyAll .empty deltas) record endpoints vc ↔
      (SnapshotDelta.applyAll .empty deltas).LabelsFit vc ∧ ProjectNamed record endpoints vc :=
  and_congr (SnapshotDelta.applyAll_consistent deltas).followsRule_iff feedFollowsRule_iff

/-- A note that the whole tenant reads. -/
def tenantRow (id : UInt8) : Memory :=
  { Memory.blank ⟨.fill 16 id⟩ with
    visibility := .org
    context := ⟨0, none, none, some "acme", none, none, []⟩ }

/-- An edge for everybody between two notes of the tenant. -/
def publicEdge : Relationship :=
  { Relationship.blank ⟨.fill 16 9⟩ ⟨.fill 16 1⟩ ⟨.fill 16 2⟩ with visibility := .public }

/-- Two notes of the tenant with an edge for everybody. -/
def publicPair : List SnapshotDelta :=
  [.upsertMemory (tenantRow 1), .upsertMemory (tenantRow 2), .upsertRelationship publicEdge]

/-- A member of the tenant with the grant of every project. -/
def everyProject : VisibilityContext := ⟨"ada", "acme", ["*"], [], .org⟩

/-- A discovery of a project, between the two notes. -/
def projectDiscovery : DiscoveryRecord :=
  ⟨"d", ⟨"acme", "atlas", 0⟩, ⟨.fill 16 1⟩, ⟨.fill 16 2⟩, "", .zero, (0, 0), "", 0⟩

/-- The cache does not follow an edge for everybody that the store shows, and the feed withholds a
discovery that every project shows. -/
theorem not_oneVisibilityRule :
    ¬ (SnapshotDelta.applyAll .empty publicPair).FollowsRule everyProject ∧
      ¬ FeedFollowsRule projectDiscovery [tenantRow 1, tenantRow 2] everyProject := by
  refine ⟨fun follows => ?_, fun follows => ?_⟩
  · have fits := (SnapshotDelta.applyAll_consistent publicPair).followsRule_iff.mp follows
    exact (fits 0 ⟨0, 1, publicEdge⟩ (tenantRow 1) (tenantRow 2) rfl rfl rfl).everybody
      (by decide +kernel)
      (by decide +kernel) rfl rfl
  · have shown : projectDiscovery.Shown [tenantRow 1, tenantRow 2] everyProject :=
      ⟨.inr rfl, tenantRow 1, tenantRow 2, by decide +kernel, by decide +kernel,
        by decide +kernel, by decide +kernel⟩
    have passes := (follows (by decide)).mpr shown
    revert passes
    decide +kernel

end Exocortex
