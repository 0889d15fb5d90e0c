import Exocortex.Cache.Traversal
import Exocortex.Library.BreadthFirst
import Exocortex.Storage.CallSpecs

/-!
# What a traversal returns

`BoundedSearch` is what a traversal with a bound on the depth and one on the nodes is for: the
memories that lie within so many edges that the caller may follow, the nearest first, and as many
of them as asked for.

`GraphSnapshot.traverse` looks at the bounds where it takes a memory from its queue and where it
puts one there, and not where it puts a memory out. The memory it starts from is expanded whatever
the depth is, so that a traversal of depth 0 returns neighbours; and all the new neighbours of a
memory are returned, so that one with many of them leads past the number asked for. A traversal is
bounded exactly when neither happens (`traverse_bounded_iff`).
-/

namespace Exocortex

open Library

namespace GraphSnapshot

variable (snap : GraphSnapshot)

/-- An edge of a kind that is asked for, within the ceiling of the caller, joins two nodes in a
direction that is asked for, and the caller may read the memory at the second. -/
def AllowedStep (spec : TraversalSpec) (node other : ℕ) : Prop :=
  ∃ eid edge, snap.petgraph.edges.lookup eid = some edge ∧
    (spec.direction ≠ .in ∧ edge.source = node ∧ edge.target = other ∨
      spec.direction ≠ .out ∧ edge.target = node ∧ edge.source = other) ∧
    (spec.kinds = [] ∨ edge.weight.kind ∈ spec.kinds) ∧
    edge.weight.visibility.rank ≤ spec.visibilityCtx.maxVisibility.rank ∧
    ShownAt snap spec.visibilityCtx other

/-- A node that a traversal from a memory starts at: the caller may read the memory. -/
def StartsAt (source : MemoryId) (spec : TraversalSpec) (start : ℕ) : Prop :=
  snap.byId.lookup source = some start ∧ ShownAt snap spec.visibilityCtx start

/-- A memory lies at the end of a path of at most so many edges that the caller may follow. -/
def ReachedWithin (source : MemoryId) (spec : TraversalSpec) (bound : ℕ) (m : Memory) : Prop :=
  ∃ start node, snap.StartsAt source spec start ∧
    StepsWithin (snap.AllowedStep spec) bound start node ∧ snap.petgraph.nodeWeight node = some m

/-- **What a bounded traversal returns**: distinct memories other than the one it starts from, no
more than asked for, all within the depth, the nearest first, and all of them if fewer than asked
for are returned. -/
structure BoundedSearch (source : MemoryId) (spec : TraversalSpec) (out : List Memory) : Prop where
  distinct : out.Nodup
  others : ∀ m ∈ out, m.id ≠ source
  few : out.length ≤ spec.maxNodes
  within : ∀ m ∈ out, snap.ReachedWithin source spec spec.maxDepth m
  nearest_first : out.Pairwise fun m later => ∀ bound,
    snap.ReachedWithin source spec bound later → snap.ReachedWithin source spec bound m
  complete : out.length < spec.maxNodes → ∀ m, m.id ≠ source →
    snap.ReachedWithin source spec spec.maxDepth m → m ∈ out

/-- The nodes that the edges at a node lead to, as a traversal looks at them. -/
def nextNodes (spec : TraversalSpec) (node : ℕ) : List ℕ :=
  (snap.traversal spec).leads ((snap.traversal spec).edgesAt node)

/-- The search by levels has the nodes up to the depth asked for to expand, and each expansion is
begun with enough nodes or ends with no more than asked for. Nothing is asked of depth 0 unless
the start has a neighbour. -/
structure InBounds (spec : TraversalSpec) (start : ℕ) : Prop where
  depth : spec.maxDepth = 0 → spec.maxNodes = 0 ∨ ∀ other, snap.AllowedStep spec start other →
    other = start
  nodes : ∀ expanded,
    (discovered (snap.nextNodes spec) spec.maxDepth start expanded).length ≤ spec.maxNodes →
    (discovered (snap.nextNodes spec) spec.maxDepth start (expanded + 1)).length ≤
      spec.maxNodes + 1

variable {snap} {spec : TraversalSpec} {source : MemoryId} {start : ℕ}

/-! ## The steps of the search -/

variable {m : Memory}

theorem traverseVerdict_reached {hop : Hop} :
    (snap.traverseVerdict spec hop).reached = some m ↔
      (spec.kinds = [] ∨ hop.edge.weight.kind ∈ spec.kinds) ∧
        hop.edge.weight.visibility.rank ≤ spec.visibilityCtx.maxVisibility.rank ∧
        snap.petgraph.nodeWeight hop.other = some m ∧ memoryVisible m spec.visibilityCtx := by
  rw [Verdict.reached_eq_some, traverseVerdict, judge_eq_follow, Bool.or_eq_true,
    List.isEmpty_iff, List.contains_iff_mem]

variable {node : ℕ}

/-- The nodes that the search goes on to are those an allowed edge leads to. -/
theorem Consistent.mem_nextNodes (consistent : snap.Consistent) {other : ℕ} :
    other ∈ snap.nextNodes spec node ↔ snap.AllowedStep spec node other := by
  have passing : ∀ {hop : Hop}, ((snap.traversal spec).passes hop).isSome = true ↔
      (spec.kinds = [] ∨ hop.edge.weight.kind ∈ spec.kinds) ∧
        hop.edge.weight.visibility.rank ≤ spec.visibilityCtx.maxVisibility.rank ∧
        ShownAt snap spec.visibilityCtx hop.other := by
    intro hop
    simp only [Option.isSome_iff_exists, ShownAt]
    change (∃ m, (snap.traverseVerdict spec hop).reached = some m) ↔ _
    simp only [traverseVerdict_reached, exists_and_left]
  have listed : ∀ {hop : Hop}, hop ∈ (snap.traversal spec).edgesAt node ↔
      (spec.direction ≠ .in ∧ hop ∈ snap.hopsOut node) ∨
        (spec.direction ≠ .out ∧ hop ∈ snap.hopsIn node) := by
    intro hop
    unfold traversal
    cases spec.direction <;> simp
  simp only [nextNodes, WalkRules.leads, List.mem_map, List.mem_filter, passing, listed]
  constructor
  · rintro ⟨hop, ⟨out | into, kind, within, shown⟩, rfl⟩
    · obtain ⟨eid, edge, found, source, rfl⟩ := consistent.mem_hopsOut.mp out.2
      exact ⟨eid, edge, found, .inl ⟨out.1, source, rfl⟩, kind, within, shown⟩
    · obtain ⟨eid, edge, found, target, rfl⟩ := consistent.mem_hopsIn.mp into.2
      exact ⟨eid, edge, found, .inr ⟨into.1, target, rfl⟩, kind, within, shown⟩
  · rintro ⟨eid, edge, found, ⟨asked, source, rfl⟩ | ⟨asked, target, rfl⟩, kind, within, shown⟩
    · exact ⟨⟨edge, edge.target⟩,
        ⟨.inl ⟨asked, consistent.mem_hopsOut.mpr ⟨eid, edge, found, source, rfl⟩⟩,
          kind, within, shown⟩, rfl⟩
    · exact ⟨⟨edge, edge.source⟩,
        ⟨.inr ⟨asked, consistent.mem_hopsIn.mpr ⟨eid, edge, found, target, rfl⟩⟩,
          kind, within, shown⟩, rfl⟩

theorem Consistent.stepsWithin_iff (consistent : snap.Consistent) {bound : ℕ} :
    StepsWithin (fun node other => other ∈ snap.nextNodes spec node) bound start node ↔
      StepsWithin (snap.AllowedStep spec) bound start node :=
  StepsWithin.congr fun _ _ => consistent.mem_nextNodes

/-- Being reached, of a memory at a node. -/
theorem Consistent.reachedWithin_iff (consistent : snap.Consistent)
    (starts : snap.StartsAt source spec start) (found : snap.petgraph.nodeWeight node = some m)
    {bound : ℕ} :
    snap.ReachedWithin source spec bound m ↔
      StepsWithin (fun node other => other ∈ snap.nextNodes spec node) bound start node := by
  rw [consistent.stepsWithin_iff]
  constructor
  · rintro ⟨start', node', starts', within, found'⟩
    obtain rfl : start' = start := Option.some_injective _ (starts'.1.symm.trans starts.1)
    obtain rfl : node' = node := Option.some_injective _
      ((consistent.id_of_node _ _ found').symm.trans (consistent.id_of_node _ _ found))
    exact within
  · exact fun within => ⟨start, node, starts, within, found⟩

/-! ## The walk -/

theorem Consistent.traverse_stops (consistent : snap.Consistent)
    (starts : snap.StartsAt source spec start) :
    ∃ expanded, (snap.traversal spec).Stops snap.petgraph.nodeWeight start expanded
      (snap.traverse source spec) := by
  obtain ⟨indexed, m, found, visible⟩ := starts
  have walks : snap.walk source spec =
      some ((snap.traversal spec).run start snap.petgraph.nodes.bound) := by
    rw [walk, indexed, Option.bind_some, found, Option.any_some, if_pos visible]
  have out : snap.traverse source spec =
      ((snap.traversal spec).run start snap.petgraph.nodes.bound).out := by
    rw [traverse, walks]
    rfl
  rw [out]
  exact (WalkRules.run_reaches (fun hop m passes => (traverseVerdict_reached.mp passes).2.2.1)
    start _).stops (consistent.walk_finished walks)

theorem traverse_eq_nil (hidden : ∀ start, ¬ snap.StartsAt source spec start) :
    snap.traverse source spec = [] := by
  have none : snap.walk source spec = none := by
    rw [walk]
    cases indexed : snap.byId.lookup source with
    | none => rfl
    | some start =>
        rw [Option.bind_some, if_neg]
        intro shown
        obtain ⟨m, found, visible⟩ := Option.any_eq_true _ _ |>.mp shown
        exact hidden start ⟨indexed, m, found, visible⟩
  rw [traverse, none]
  rfl

section Stopped

variable (consistent : snap.Consistent) (starts : snap.StartsAt source spec start) {expanded : ℕ}
  {out : List Memory}
  (stops : (snap.traversal spec).Stops snap.petgraph.nodeWeight start expanded out)
include consistent starts stops

/-- Another memory is returned when its node was met. -/
theorem mem_out_iff (found : snap.petgraph.nodeWeight node = some m) (other : m.id ≠ source) :
    m ∈ out ↔ node ∈ ((snap.traversal spec).met start expanded).map Prod.fst := by
  obtain ⟨others, same⟩ := (WalkRules.met_layered (snap.traversal spec) start expanded).first
  rw [stops.mem, same, List.tail_cons, List.map_cons, List.mem_cons]
  constructor
  · rintro ⟨entry, member, found'⟩
    have indexed := consistent.id_of_node _ _ found
    rw [consistent.id_of_node _ _ found', Option.some.injEq] at indexed
    exact .inr (indexed ▸ List.mem_map_of_mem member)
  · rintro (rfl | member)
    · obtain ⟨m', found', same⟩ := consistent.node_of_id _ _ starts.1
      obtain rfl : m = m' := Option.some_injective _ (found.symm.trans found')
      exact absurd same other
    · obtain ⟨entry, later, rfl⟩ := List.mem_map.mp member
      exact ⟨entry, later, found⟩

omit starts in
theorem out_distinct : out.Nodup := by
  have distinct := (WalkRules.met_layered (snap.traversal spec) start expanded).distinct
  rw [List.Nodup, List.pairwise_map] at distinct
  refine stops.pairwise (distinct.imp ?_)
  rintro entry later different m m' found found' rfl
  exact different (Option.some_injective _
    ((consistent.id_of_node _ _ found).symm.trans (consistent.id_of_node _ _ found')))

theorem out_others : ∀ m ∈ out, m.id ≠ source := by
  intro m member same
  have distinct := (WalkRules.met_layered (snap.traversal spec) start expanded).distinct
  obtain ⟨others, first⟩ := (WalkRules.met_layered (snap.traversal spec) start expanded).first
  obtain ⟨entry, later, found⟩ := stops.mem.mp member
  rw [first] at distinct later
  have indexed := consistent.id_of_node _ _ found
  rw [same, starts.1, Option.some.injEq] at indexed
  exact (List.nodup_cons.mp distinct).1 (List.mem_map.mpr ⟨entry, later, indexed.symm⟩)

theorem out_within : ∀ m ∈ out, snap.ReachedWithin source spec (snap.traversal spec).deep m := by
  intro m member
  have layered := WalkRules.met_layered (snap.traversal spec) start expanded
  obtain ⟨entry, later, found⟩ := stops.mem.mp member
  have known := List.mem_of_mem_tail later
  exact (consistent.reachedWithin_iff starts found).mpr
    ((layered.within entry known).mono (layered.shallow entry known))

theorem out_nearest_first : out.Pairwise fun m later => ∀ bound,
    snap.ReachedWithin source spec bound later → snap.ReachedWithin source spec bound m := by
  have layered := WalkRules.met_layered (snap.traversal spec) start expanded
  refine stops.pairwise (layered.by_distance.imp ?_)
  intro entry later nearer m m' found found' bound reached
  exact (consistent.reachedWithin_iff starts found).mpr
    (nearer bound ((consistent.reachedWithin_iff starts found').mp reached))

theorem out_complete (fewer : out.length < spec.maxNodes) {bound : ℕ}
    (enough : bound ≤ (snap.traversal spec).deep) {m : Memory} (other : m.id ≠ source)
    (reached : snap.ReachedWithin source spec bound m) : m ∈ out := by
  obtain ⟨_, node, _, _, found⟩ := id reached
  have done := stops.done.resolve_left (Nat.not_le.mpr fewer)
  exact (mem_out_iff consistent starts stops found other).mpr
    ((WalkRules.met_layered (snap.traversal spec) start expanded).complete done enough
      ((consistent.reachedWithin_iff starts found).mp reached))

omit consistent starts in
/-- A walk returns nothing when it may return nothing. -/
theorem out_eq_nil_of_maxNodes (nothing : spec.maxNodes = 0) : out = [] := by
  have few := stops.few_iff.mpr fun other under => by
    obtain ⟨others, first⟩ := (WalkRules.met_layered (snap.traversal spec) start other).first
    rw [first, List.length_cons] at under
    change others.length + 1 ≤ spec.maxNodes at under
    omega
  change out.length ≤ spec.maxNodes at few
  exact List.length_eq_zero_iff.mp (by omega)

/-- What lies at the start is not returned. -/
theorem out_eq_nil (only : ∀ m ∈ out, snap.petgraph.nodeWeight start = some m) : out = [] := by
  refine List.eq_nil_iff_forall_not_mem.mpr fun m member => ?_
  obtain ⟨m', found, same⟩ := consistent.node_of_id _ _ starts.1
  obtain rfl : m = m' := Option.some_injective _ ((only m member).symm.trans found)
  exact out_others consistent starts stops m member same

/-- A traversal of depth 0 that is bounded returns nothing, and so there is nothing to return. -/
theorem flat_of_search (search : snap.BoundedSearch source spec out) (flat : spec.maxDepth = 0) :
    spec.maxNodes = 0 ∨ ∀ other, snap.AllowedStep spec start other → other = start := by
  have nothing : out = [] := by
    refine out_eq_nil consistent starts stops fun m member => ?_
    obtain ⟨start', node, starts', same, found⟩ := search.within m member
    obtain rfl : start' = start := Option.some_injective _ (starts'.1.symm.trans starts.1)
    rw [flat] at same
    obtain rfl : node = start' := same
    exact found
  refine (Nat.eq_zero_or_pos spec.maxNodes).imp_right fun room other step => ?_
  by_contra different
  obtain ⟨_, _, _, _, _, _, m, found, _⟩ := id step
  have returned := out_complete consistent starts stops (by rw [nothing]; exact room)
    (le_max_left 1 spec.maxDepth)
    (fun same => different (Option.some_injective _
      ((consistent.id_of_node _ _ found).symm.trans (same ▸ starts.1))))
    ⟨start, other, starts, .inr ⟨start, rfl, step⟩, found⟩
  rw [nothing] at returned
  cases returned

theorem flat_out_eq_nil (flat : spec.maxDepth = 0)
    (alone : spec.maxNodes = 0 ∨ ∀ other, snap.AllowedStep spec start other → other = start) :
    out = [] := by
  rcases alone with none | alone
  · exact out_eq_nil_of_maxNodes stops none
  · refine out_eq_nil consistent starts stops fun m member => ?_
    obtain ⟨start', node, starts', within, found⟩ := out_within consistent starts stops m member
    obtain rfl : start' = start := Option.some_injective _ (starts'.1.symm.trans starts.1)
    have near : StepsWithin (snap.AllowedStep spec) (max 1 spec.maxDepth) start' node := within
    rw [flat] at near
    rcases near with same | ⟨_, rfl, step⟩
    · obtain rfl : node = start' := same
      exact found
    · exact alone node step ▸ found

omit consistent starts in
/-- Below the first level the depths of the walk are those asked for. -/
theorem few_iff_nodes (positive : 0 < spec.maxDepth) : out.length ≤ spec.maxNodes ↔ ∀ expanded,
    (discovered (snap.nextNodes spec) spec.maxDepth start expanded).length ≤ spec.maxNodes →
    (discovered (snap.nextNodes spec) spec.maxDepth start (expanded + 1)).length ≤
      spec.maxNodes + 1 := by
  have same : (snap.traversal spec).deep = spec.maxDepth := max_eq_right positive
  have few := stops.few_iff
  unfold WalkRules.NeverPasses WalkRules.met at few
  rw [same] at few
  exact few

/-- **A traversal is bounded exactly when its two bounds are met where it does not look.** -/
theorem boundedSearch_iff : snap.BoundedSearch source spec out ↔ snap.InBounds spec start := by
  constructor
  · intro search
    refine ⟨flat_of_search consistent starts stops search, ?_⟩
    rcases Nat.eq_zero_or_pos spec.maxDepth with flat | positive
    · intro expanded under
      rw [flat, discovered_zero] at under ⊢
      exact Nat.le_succ_of_le under
    · exact (few_iff_nodes stops positive).mp search.few
  · intro bounds
    have distinct := out_distinct consistent stops
    have others := out_others consistent starts stops
    have nearest := out_nearest_first consistent starts stops
    have complete := fun fewer m other reached =>
      @out_complete snap spec source start consistent starts expanded out stops fewer spec.maxDepth
        (le_max_right 1 spec.maxDepth) m other reached
    rcases Nat.eq_zero_or_pos spec.maxDepth with flat | positive
    · have nothing := flat_out_eq_nil consistent starts stops flat (bounds.depth flat)
      refine ⟨distinct, others, ?_, fun m member => ?_, nearest, complete⟩
      · rw [nothing]
        exact Nat.zero_le _
      · rw [nothing] at member
        cases member
    · have same : (snap.traversal spec).deep = spec.maxDepth := max_eq_right positive
      exact ⟨distinct, others, (few_iff_nodes stops positive).mpr bounds.nodes,
        same ▸ out_within consistent starts stops, nearest, complete⟩

end Stopped

theorem boundedSearch_nil (hidden : ∀ start, ¬ snap.StartsAt source spec start) :
    snap.BoundedSearch source spec [] where
  distinct := List.nodup_nil
  others _ member := absurd member List.not_mem_nil
  few := Nat.zero_le _
  within _ member := absurd member List.not_mem_nil
  nearest_first := List.Pairwise.nil
  complete _ _ _ reached := by
    obtain ⟨start, _, starts, _⟩ := reached
    exact absurd starts (hidden start)

end GraphSnapshot

/-- **A traversal of a snapshot that was built from deltas is bounded exactly when, from the node
it starts at, it asks for no depth 0 with neighbours, and no memory that it expands leads past the
number it asks for.** -/
theorem traverse_bounded_iff (deltas : List SnapshotDelta) (source : MemoryId)
    (spec : TraversalSpec) :
    (SnapshotDelta.applyAll .empty deltas).BoundedSearch source spec
        ((SnapshotDelta.applyAll .empty deltas).traverse source spec) ↔
      ∀ start, (SnapshotDelta.applyAll .empty deltas).StartsAt source spec start →
        (SnapshotDelta.applyAll .empty deltas).InBounds spec start := by
  have consistent := SnapshotDelta.applyAll_consistent deltas
  generalize SnapshotDelta.applyAll .empty deltas = snap at *
  by_cases shown : ∃ start, snap.StartsAt source spec start
  · obtain ⟨start, starts⟩ := shown
    obtain ⟨expanded, stops⟩ := consistent.traverse_stops starts
    rw [GraphSnapshot.boundedSearch_iff consistent starts stops]
    constructor
    · intro bounds other starts'
      obtain rfl : other = start := Option.some_injective _ (starts'.1.symm.trans starts.1)
      exact bounds
    · exact fun bounds => bounds start starts
  · have hidden := not_exists.mp shown
    rw [GraphSnapshot.traverse_eq_nil hidden]
    exact iff_of_true (GraphSnapshot.boundedSearch_nil hidden)
      fun start starts => absurd starts (hidden start)

/-- A note of the tenant. -/
def starRow (id : UInt8) : Memory :=
  { Memory.blank ⟨.fill 16 id⟩ with
    visibility := .org
    context := ⟨0, none, none, some "acme", none, none, []⟩ }

/-- An edge from the first note to another. -/
def starEdge (id other : UInt8) : Relationship :=
  { Relationship.blank ⟨.fill 16 id⟩ ⟨.fill 16 1⟩ ⟨.fill 16 other⟩ with visibility := .org }

/-- A note with two neighbours. -/
def star : List SnapshotDelta :=
  [.upsertMemory (starRow 1), .upsertMemory (starRow 2), .upsertMemory (starRow 3),
    .upsertRelationship (starEdge 8 2), .upsertRelationship (starEdge 9 3)]

/-- A traversal along the edges that leave. -/
def starSpec (maxDepth maxNodes : ℕ) : TraversalSpec :=
  ⟨.out, [], maxDepth, maxNodes, ⟨"ada", "acme", [], [], .org⟩⟩

/-- Asked for one memory, a traversal returns the two neighbours; asked for depth 0, it returns a
neighbour too. -/
theorem not_traverse_bounded :
    ¬ (SnapshotDelta.applyAll .empty star).BoundedSearch ⟨.fill 16 1⟩ (starSpec 1 1)
        ((SnapshotDelta.applyAll .empty star).traverse ⟨.fill 16 1⟩ (starSpec 1 1)) ∧
      ¬ (SnapshotDelta.applyAll .empty star).BoundedSearch ⟨.fill 16 1⟩ (starSpec 0 9)
        ((SnapshotDelta.applyAll .empty star).traverse ⟨.fill 16 1⟩ (starSpec 0 9)) := by
  constructor
  · intro search
    have two : ((SnapshotDelta.applyAll .empty star).traverse ⟨.fill 16 1⟩
        (starSpec 1 1)).length = 2 := by decide +kernel
    have few := search.few
    rw [two] at few
    exact absurd few (by decide)
  · intro search
    have returned : starRow 2 ∈ (SnapshotDelta.applyAll .empty star).traverse ⟨.fill 16 1⟩
        (starSpec 0 9) := by decide +kernel
    obtain ⟨start, node, starts, same, found⟩ := search.within _ returned
    obtain rfl : node = start := same
    have first : (SnapshotDelta.applyAll .empty star).byId.lookup ⟨.fill 16 1⟩ = some 0 := by
      decide +kernel
    obtain rfl : 0 = node := Option.some_injective _ (first.symm.trans starts.1)
    have there : (SnapshotDelta.applyAll .empty star).petgraph.nodeWeight 0 = some (starRow 1) := by
      decide +kernel
    rw [there] at found
    exact absurd found (by decide +kernel)

end Exocortex
