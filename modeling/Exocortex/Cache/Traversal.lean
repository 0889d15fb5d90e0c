import Exocortex.Cache.View
import Exocortex.Library.BoundedWalks
import Exocortex.Storage.JointReaders

/-!
# Reading the graph of a snapshot along its edges

`GraphSnapshot.traverse` walks the graph breadth first, and `GraphSnapshot.supersededBy` looks
for a memory that replaces another one. Both check an edge they look at for its kind, for its
label against the ceiling of the caller as numbers, and for the memory at its other end
(`GraphSnapshot.judge`).

The store decides on an edge by `relationshipVisible`. Between two memories that the caller may
read, the comparison of numbers agrees with it exactly when the label fits the ends
(`label_agrees_iff`): it is not the public label under the ceiling of the organization, and if it
is within the ceiling and below the organization then one of the ends carries it.
-/

namespace Exocortex

open Library

/-- Which edges at a node a traversal looks at. -/
inductive Direction where
  | out
  | «in»
  | both
deriving DecidableEq

/-- A bounded traversal; no kinds stand for all kinds. -/
structure TraversalSpec where
  direction : Direction
  kinds : List RelKindId
  maxDepth : ℕ
  maxNodes : ℕ
  visibilityCtx : VisibilityContext

/-- What the checks of an edge come to: the first that fails, or the memory they lead to. -/
inductive Verdict where
  | otherKind
  | overCeiling
  | hidden
  | follow (reached : Memory)
deriving DecidableEq

/-- The memory an edge leads to. -/
def Verdict.reached : Verdict → Option Memory
  | .follow reached => some reached
  | _ => none

variable {m : Memory}

theorem Verdict.reached_eq_some {verdict : Verdict} :
    verdict.reached = some m ↔ verdict = .follow m := by
  cases verdict <;> simp [reached]

/-- An edge looked at from one of its ends, with the index of the other. -/
structure Hop where
  edge : Edge Relationship
  other : ℕ

namespace GraphSnapshot

variable (snap : GraphSnapshot)

def hopsOut (node : ℕ) : List Hop :=
  ((snap.petgraph.outgoing node).filterMap snap.petgraph.edges.lookup).map
    fun edge => ⟨edge, edge.target⟩

def hopsIn (node : ℕ) : List Hop :=
  ((snap.petgraph.incoming node).filterMap snap.petgraph.edges.lookup).map
    fun edge => ⟨edge, edge.source⟩

/-- The checks of an edge whose kind is wanted or not. -/
def judge (vc : VisibilityContext) (wanted : Bool) (hop : Hop) : Verdict :=
  if !wanted then .otherKind
  else if vc.maxVisibility.rank < hop.edge.weight.visibility.rank then .overCeiling
  else
    match snap.petgraph.nodeWeight hop.other with
    | none => .hidden
    | some m => if memoryVisible m vc then .follow m else .hidden

/-! ## The two reads -/

/-- The verdict of a traversal on an edge. -/
def traverseVerdict (spec : TraversalSpec) (hop : Hop) : Verdict :=
  snap.judge spec.visibilityCtx
    (spec.kinds.isEmpty || spec.kinds.contains hop.edge.weight.kind) hop

def traversal (spec : TraversalSpec) : WalkRules ℕ Hop Memory where
  edgesAt node :=
    match spec.direction with
    | .out => snap.hopsOut node
    | .in => snap.hopsIn node
    | .both => snap.hopsOut node ++ snap.hopsIn node
  other := Hop.other
  passes hop := (snap.traverseVerdict spec hop).reached
  maxDepth := spec.maxDepth
  maxNodes := spec.maxNodes

/-- The walk from a memory that the caller may read. It is over after as many rounds as there
are slots for nodes. -/
def walk (source : MemoryId) (spec : TraversalSpec) : Option (Walk ℕ Hop Memory) :=
  (snap.byId.lookup source).bind fun start =>
    if (snap.petgraph.nodeWeight start).any (memoryVisible · spec.visibilityCtx) then
      some ((snap.traversal spec).run start snap.petgraph.nodes.bound)
    else none

def traverse (source : MemoryId) (spec : TraversalSpec) : List Memory :=
  ((snap.walk source spec).map (·.out)).getD []

/-- The edges a traversal looks at. -/
def traversed (source : MemoryId) (spec : TraversalSpec) : List Hop :=
  ((snap.walk source spec).map (·.looked)).getD []

/-- The verdict of the search for a successor on an edge. -/
def supersedesVerdict (vc : VisibilityContext) (supersedesKinds : List RelKindId) (hop : Hop) :
    Verdict :=
  snap.judge vc (supersedesKinds.contains hop.edge.weight.kind) hop

/-- The memory that supersedes another: the source of the first edge into it that passes. -/
def supersededBy (id : MemoryId) (vc : VisibilityContext) (supersedesKinds : List RelKindId) :
    Option Memory :=
  (snap.byId.lookup id).bind fun node =>
    (snap.hopsIn node).findSome? fun hop => (snap.supersedesVerdict vc supersedesKinds hop).reached

/-- The edges the search for a successor looks at: those up to the first that passes. -/
def supersedingHops (id : MemoryId) (vc : VisibilityContext) (supersedesKinds : List RelKindId) :
    List Hop :=
  match snap.byId.lookup id with
  | none => []
  | some node =>
      let hops := snap.hopsIn node
      hops.take (hops.findIdx (fun hop =>
        (snap.supersedesVerdict vc supersedesKinds hop).reached.isSome) + 1)

variable {snap} {vc : VisibilityContext}

/-! ## What the checks let through -/

variable {hop : Hop} {node : ℕ} {spec : TraversalSpec} {supersedesKinds : List RelKindId}

theorem judge_eq_follow {wanted : Bool} :
    snap.judge vc wanted hop = .follow m ↔
      wanted = true ∧ hop.edge.weight.visibility.rank ≤ vc.maxVisibility.rank ∧
        snap.petgraph.nodeWeight hop.other = some m ∧ memoryVisible m vc := by
  unfold judge
  cases wanted with
  | false => simp
  | true =>
      by_cases above : vc.maxVisibility.rank < hop.edge.weight.visibility.rank
      · simp [above]
      · rw [if_neg (by simp), if_neg above]
        cases snap.petgraph.nodeWeight hop.other with
        | none => simp
        | some other =>
            by_cases visible : memoryVisible other vc = true
            · simp only [visible, if_true, Verdict.follow.injEq, Option.some.injEq]
              constructor
              · rintro rfl
                exact ⟨trivial, Nat.le_of_not_lt above, rfl, visible⟩
              · exact fun all => all.2.2.1
            · simp only [visible, Option.some.injEq]
              constructor
              · intro impossible
                cases impossible
              · rintro ⟨_, _, rfl, shown⟩
                exact absurd shown visible

theorem judge_eq_overCeiling {wanted : Bool} :
    snap.judge vc wanted hop = .overCeiling ↔
      wanted = true ∧ vc.maxVisibility.rank < hop.edge.weight.visibility.rank := by
  unfold judge
  cases wanted with
  | false => simp
  | true =>
      by_cases above : vc.maxVisibility.rank < hop.edge.weight.visibility.rank
      · simp [above]
      · rw [if_neg (by simp), if_neg above]
        simp only [above, and_false, iff_false]
        split
        · exact Verdict.noConfusion
        · split <;> exact Verdict.noConfusion

theorem Consistent.mem_hopsOut (consistent : snap.Consistent) :
    hop ∈ snap.hopsOut node ↔ ∃ eid edge, snap.petgraph.edges.lookup eid = some edge ∧
      edge.source = node ∧ hop = ⟨edge, edge.target⟩ := by
  simp only [hopsOut, List.mem_map, List.mem_filterMap, consistent.listed.mem_outgoing]
  constructor
  · rintro ⟨edge, ⟨eid, ⟨other, found, source⟩, same⟩, rfl⟩
    rw [found] at same
    cases same
    exact ⟨eid, edge, found, source, rfl⟩
  · rintro ⟨eid, edge, found, source, rfl⟩
    exact ⟨edge, ⟨eid, ⟨edge, found, source⟩, found⟩, rfl⟩

theorem Consistent.mem_hopsIn (consistent : snap.Consistent) :
    hop ∈ snap.hopsIn node ↔ ∃ eid edge, snap.petgraph.edges.lookup eid = some edge ∧
      edge.target = node ∧ hop = ⟨edge, edge.source⟩ := by
  simp only [hopsIn, List.mem_map, List.mem_filterMap, consistent.listed.mem_incoming]
  constructor
  · rintro ⟨edge, ⟨eid, ⟨other, found, target⟩, same⟩, rfl⟩
    rw [found] at same
    cases same
    exact ⟨eid, edge, found, target, rfl⟩
  · rintro ⟨eid, edge, found, target, rfl⟩
    exact ⟨edge, ⟨eid, ⟨edge, found, target⟩, found⟩, rfl⟩

/-- An edge looked at from a node has the node for one end, and leads to the other. -/
def Hop.At (snap : GraphSnapshot) (node : ℕ) (hop : Hop) : Prop :=
  (∃ eid, snap.petgraph.edges.lookup eid = some hop.edge) ∧
    (hop.edge.source = node ∧ hop.other = hop.edge.target ∨
      hop.edge.target = node ∧ hop.other = hop.edge.source)

theorem Consistent.hop_at (consistent : snap.Consistent)
    (listed : hop ∈ (snap.traversal spec).edgesAt node) : Hop.At snap node hop := by
  have out : ∀ {hop : Hop}, hop ∈ snap.hopsOut node → Hop.At snap node hop := by
    intro hop listed
    obtain ⟨eid, edge, found, source, rfl⟩ := consistent.mem_hopsOut.mp listed
    exact ⟨⟨eid, found⟩, .inl ⟨source, rfl⟩⟩
  have into : ∀ {hop : Hop}, hop ∈ snap.hopsIn node → Hop.At snap node hop := by
    intro hop listed
    obtain ⟨eid, edge, found, target, rfl⟩ := consistent.mem_hopsIn.mp listed
    exact ⟨⟨eid, found⟩, .inr ⟨target, rfl⟩⟩
  unfold traversal at listed
  dsimp only at listed
  split at listed
  · exact out listed
  · exact into listed
  · rcases List.mem_append.mp listed with leaving | entering
    · exact out leaving
    · exact into entering

/-- The memory at an index, if it is one the caller may read. -/
def ShownAt (snap : GraphSnapshot) (vc : VisibilityContext) (node : ℕ) : Prop :=
  ∃ m, snap.petgraph.nodeWeight node = some m ∧ memoryVisible m vc

variable {source : MemoryId}

/-- **A traversal looks at an edge only from a memory that the caller may read.** -/
theorem Consistent.traversed_at (consistent : snap.Consistent)
    (looked : hop ∈ snap.traversed source spec) :
    ∃ node, ShownAt snap spec.visibilityCtx node ∧ Hop.At snap node hop := by
  rw [traversed] at looked
  cases walks : snap.walk source spec with
  | none => simp [walks] at looked
  | some walk =>
      rw [walks] at looked
      obtain ⟨start, _, walks⟩ := Option.bind_eq_some_iff.mp walks
      split at walks
      · next shown =>
          cases walks
          obtain ⟨m, found, visible⟩ := Option.any_eq_true _ _ |>.mp shown
          obtain ⟨node, holds, listed⟩ := WalkRules.looked_from
            (snap.traversal spec) (P := ShownAt snap spec.visibilityCtx) ⟨m, found, visible⟩
            (fun hop reached passes => by
              obtain ⟨-, -, there, visible⟩ := judge_eq_follow.mp
                (Verdict.reached_eq_some.mp passes)
              exact ⟨reached, there, visible⟩) _ hop looked
          exact ⟨node, holds, consistent.hop_at listed⟩
      · cases walks

/-- The walk of a traversal is over: nothing is left in its queue. -/
theorem Consistent.walk_finished (consistent : snap.Consistent) {walk : Walk ℕ Hop Memory}
    (walks : snap.walk source spec = some walk) : walk.queue = [] := by
  have below : ∀ {ix : ℕ} {m : Memory}, snap.petgraph.nodeWeight ix = some m →
      ix ∈ Finset.range snap.petgraph.nodes.bound := fun found =>
    Finset.mem_range.mpr (snap.petgraph.nodes.cells_below _
      (AList.lookup_isSome.mp (Option.isSome_of_eq_some found)))
  obtain ⟨start, indexed, walks⟩ := Option.bind_eq_some_iff.mp walks
  obtain ⟨m, found, _⟩ := consistent.node_of_id source start indexed
  have finished := WalkRules.run_queue_eq_nil (snap.traversal spec) (below found)
    fun hop reached passes => below (judge_eq_follow.mp (Verdict.reached_eq_some.mp passes)).2.2.1
  split at walks
  · cases walks
    rw [Finset.card_range] at finished
    exact finished
  · cases walks

/-- A traversal from a memory that the caller may read looks at every edge that leaves it. -/
theorem Consistent.traversed_start (consistent : snap.Consistent)
    (found : snap.petgraph.nodeWeight node = some m)
    (visible : memoryVisible m spec.visibilityCtx) (room : 0 < spec.maxNodes)
    (listed : hop ∈ (snap.traversal spec).edgesAt node) : hop ∈ snap.traversed m.id spec := by
  have indexed := consistent.id_of_node node m found
  have below := snap.petgraph.nodes.cells_below node
    (AList.lookup_isSome.mp (Option.isSome_of_eq_some found))
  obtain ⟨rounds, bound⟩ := Nat.exists_eq_add_of_lt below
  have walks : snap.walk m.id spec =
      some ((snap.traversal spec).run node snap.petgraph.nodes.bound) := by
    rw [walk, indexed, Option.bind_some, found, Option.any_some, if_pos visible]
  rw [traversed, walks]
  simp only [Option.map_some, Option.getD_some]
  rw [bound]
  exact WalkRules.looked_start (snap.traversal spec) room node _ listed

/-- The search for a successor answers from the edges it looks at. -/
theorem supersededBy_eq (id : MemoryId) (supersedesKinds : List RelKindId) :
    snap.supersededBy id vc supersedesKinds =
      (snap.supersedingHops id vc supersedesKinds).findSome? fun hop =>
        (snap.supersedesVerdict vc supersedesKinds hop).reached := by
  rw [supersededBy, supersedingHops]
  cases snap.byId.lookup id with
  | none => rfl
  | some node =>
      rw [Option.bind_some]
      dsimp only
      generalize snap.hopsIn node = hops
      induction hops with
      | nil => rfl
      | cons hop hops ih =>
          cases passes : (snap.supersedesVerdict vc supersedesKinds hop).reached with
          | some m => simp [List.findIdx_cons, passes]
          | none =>
              simp only [List.findSome?_cons, List.findIdx_cons, passes, Option.isSome_none,
                cond_false, List.take_succ_cons]
              exact ih

/-- The search looks at edges that enter the memory. -/
theorem Consistent.supersedingHops_at (consistent : snap.Consistent) {id : MemoryId}
    (looked : hop ∈ snap.supersedingHops id vc supersedesKinds) :
    (∃ eid, snap.petgraph.edges.lookup eid = some hop.edge) ∧ hop.other = hop.edge.source := by
  unfold supersedingHops at looked
  split at looked
  · cases looked
  · next node _ =>
      obtain ⟨eid, edge, found, -, rfl⟩ := consistent.mem_hopsIn.mp (List.mem_of_mem_take looked)
      exact ⟨⟨eid, found⟩, rfl⟩

/-- An edge into a memory that passes is followed, or one before it is. -/
theorem exists_follow_of_mem_hopsIn {id : MemoryId} (indexed : snap.byId.lookup id = some node)
    (listed : hop ∈ snap.hopsIn node)
    (passes : (snap.supersedesVerdict vc supersedesKinds hop).reached.isSome = true) :
    ∃ first ∈ snap.supersedingHops id vc supersedesKinds,
      first ∈ snap.hopsIn node ∧
        (snap.supersedesVerdict vc supersedesKinds first).reached.isSome = true := by
  let follows := fun hop => (snap.supersedesVerdict vc supersedesKinds hop).reached.isSome
  have found : (snap.hopsIn node).findIdx follows < (snap.hopsIn node).length :=
    List.findIdx_lt_length_of_exists ⟨hop, listed, passes⟩
  have first : follows (snap.hopsIn node)[(snap.hopsIn node).findIdx follows] = true :=
    List.findIdx_getElem
  refine ⟨_, ?_, List.getElem_mem found, first⟩
  rw [supersedingHops, indexed]
  exact List.mem_take_iff_getElem.mpr
    ⟨(snap.hopsIn node).findIdx follows, lt_min (Nat.lt_succ_self _) found, rfl⟩

end GraphSnapshot

/-! ## Labels -/

/-- The store's decision on an edge of a snapshot. -/
def GraphSnapshot.edgeVisible (snap : GraphSnapshot) (edge : Edge Relationship)
    (vc : VisibilityContext) : Bool :=
  match snap.petgraph.nodeWeight edge.source, snap.petgraph.nodeWeight edge.target with
  | some source, some target => relationshipVisible edge.weight source target vc
  | _, _ => false

/-- The cache and the store are not at odds: an edge that is followed is visible, and one that is
refused for its label is not. -/
def Verdict.Agrees : Verdict → Bool → Prop
  | .follow _, visible => visible = true
  | .overCeiling, visible => visible = false
  | _, _ => True

/-- The label of an edge fits its ends, for a caller. -/
structure LabelFits (vc : VisibilityContext) (r : Relationship) (source target : Memory) :
    Prop where
  everybody : memoryVisible source vc → memoryVisible target vc → r.visibility = .public →
    vc.maxVisibility ≠ .org
  carried : memoryVisible source vc → memoryVisible target vc →
    r.visibility.rank ≤ vc.maxVisibility.rank → Carried r source target
  hidden : memoryVisible source vc → memoryVisible target vc = false →
    vc.maxVisibility.rank < r.visibility.rank

/-- **Between memories that the caller may read, the ranks agree with the store exactly when the
label fits.** -/
theorem label_agrees_iff {r : Relationship} {source target : Memory} {vc : VisibilityContext}
    (left : memoryVisible source vc) (right : memoryVisible target vc) :
    (r.visibility.rank ≤ vc.maxVisibility.rank ↔ relationshipVisible r source target vc = true) ↔
      LabelFits vc r source target := by
  simp only [relationshipVisible_iff, left, right, true_and]
  constructor
  · intro agrees
    refine ⟨fun _ _ label ceiling => ?_, fun _ _ within => (agrees.mp within).2, fun _ hidden => ?_⟩
    · rw [label, ceiling] at agrees
      exact absurd (agrees.mpr ⟨le_rfl, .inl (by rw [label]; rfl)⟩) (by decide)
    · rw [right] at hidden
      cases hidden
  · intro fits
    constructor
    · intro within
      refine ⟨le_trans ?_ within, fits.carried left right within⟩
      cases r.visibility <;> decide
    · rintro ⟨effective, _⟩
      cases label : r.visibility with
      | «public» =>
          -- the caller reaches the organization, and so everybody
          have ceiling := fits.everybody left right label
          rw [label] at effective
          cases top : vc.maxVisibility <;> simp_all [Visibility.effective, Visibility.rank]
      | «private» | project | team | org =>
          rw [label] at effective
          exact effective

end Exocortex
