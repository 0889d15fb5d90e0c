import Exocortex.Library.DepthFirst
import Exocortex.Storage.Views
import Exocortex.Ops.Updates

/-!
# Chains and explanations

Two operations follow the evidence of derived rows. `get_chain` goes from a memory to the ends of
the edges that it was derived from, level by level. `explain_edge` goes from an edge to the edges
that it was derived from, the one found last first; a program renders the facts that it finds as a
tree of six levels at most.

Neither looks at who may read the edges that it follows. So a caller gets rows that it must not
read, unless the edges that the operation asks for are there and visible to it: all of them for a
chain, those up to the last one that the tree names for an explanation. Exactly then it learns
nothing from the rows that it does not see (`derivations_respect_iff`). The model has identities
for their digits, and a tree for its text.
-/

namespace Exocortex

/-- The edges that a derived row names. -/
def Provenance.evidence : Provenance → List RelationshipId
  | .derived _ evidence => evidence
  | _ => []

/-- The rule of a derived row. -/
def Provenance.ruleId : Provenance → Option String
  | .derived ruleId _ => some ruleId
  | _ => none

variable (g : Graph) (vc : VisibilityContext)

/-! ## Chains -/

/-- One end of an edge, if it was not seen before: it is next, and seen. -/
def visit (target : MemoryId) (state : List MemoryId × List MemoryId) (id : MemoryId) :
    List MemoryId × List MemoryId :=
  if id ≠ target ∧ id ∉ state.2 then (state.1 ++ [id], id :: state.2) else state

/-- The next level, and what is seen after it. -/
def nextLevel (target : MemoryId) (edges : List Relationship) (seen : List MemoryId) :
    List MemoryId × List MemoryId :=
  edges.foldl (fun state edge => visit target (visit target state edge.source) edge.target)
    ([], seen)

/-- What the memories of a level were derived from. -/
def levelEvidence (frontier : List MemoryId) : List RelationshipId :=
  (g.getVisibleMemories vc frontier).flatMap (·.provenance.evidence)

/-- The levels of the walk after the first. -/
def chainLevels (target : MemoryId) : ℕ → List MemoryId → List MemoryId → List (List MemoryId)
  | 0, _, _ => []
  | depth + 1, frontier, seen =>
      let evidence := levelEvidence g vc frontier
      if evidence.isEmpty then []
      else
        let (next, seen) := nextLevel target (g.getRelationships evidence) seen
        if next.isEmpty then [] else next :: chainLevels target depth next seen

/-- Origin first, the memory asked for last. -/
def getChain (memory : MemoryId) (maxDepth : ℕ) : List MemoryId :=
  ([memory] :: chainLevels g vc memory (min maxDepth 4) [memory] [memory]).reverse.flatten

/-- The edges that the walk asks for. -/
def chainReads (target : MemoryId) : ℕ → List MemoryId → List MemoryId → List RelationshipId
  | 0, _, _ => []
  | depth + 1, frontier, seen =>
      let evidence := levelEvidence g vc frontier
      let (next, seen) := nextLevel target (g.getRelationships evidence) seen
      evidence ++ chainReads target depth next seen

variable {g vc} {h : Graph} {target : MemoryId}

variable {memory : MemoryId} {maxDepth depth : ℕ} {seen frontier : List MemoryId}
  {ids before after : List RelationshipId} {id : RelationshipId}

theorem mem_getChain {id : MemoryId} :
    id ∈ getChain g vc memory maxDepth ↔ id = memory ∨
      id ∈ (chainLevels g vc memory (min maxDepth 4) [memory] [memory]).flatten := by
  rw [getChain, List.mem_flatten]
  simp only [List.mem_reverse, List.mem_cons, List.mem_flatten]
  constructor
  · rintro ⟨level, rfl | listed, member⟩
    · exact .inl (List.mem_singleton.mp member)
    · exact .inr ⟨level, listed, member⟩
  · rintro (rfl | ⟨level, listed, member⟩)
    · exact ⟨[id], .inl rfl, List.mem_singleton.mpr rfl⟩
    · exact ⟨level, .inr listed, member⟩

theorem mem_visit {state : List MemoryId × List MemoryId} {id other : MemoryId}
    (inside : ∀ id ∈ state.1, id ∈ state.2) :
    (other ∈ (visit target state id).1 ↔
      other ∈ state.1 ∨ (other = id ∧ id ≠ target ∧ id ∉ state.2)) ∧
    (other ∈ (visit target state id).2 ↔ other ∈ state.2 ∨ (other = id ∧ id ≠ target)) ∧
    ∀ id' ∈ (visit target state id).1, id' ∈ (visit target state id).2 := by
  by_cases fresh : id ≠ target ∧ id ∉ state.2
  · rw [visit, if_pos fresh]
    refine ⟨by simp [fresh], by simp [fresh.1, or_comm], ?_⟩
    intro id' member
    rcases List.mem_append.mp member with old | new
    · exact List.mem_cons_of_mem _ (inside id' old)
    · rw [List.mem_singleton.mp new]
      exact List.mem_cons_self
  · rw [visit, if_neg fresh]
    refine ⟨by simp [fresh], ?_, inside⟩
    constructor
    · exact .inl
    · rintro (old | ⟨rfl, other⟩)
      · exact old
      · exact not_not.mp fun absent => fresh ⟨other, absent⟩

/-- The next level are the ends that were not seen. -/
theorem mem_nextLevel {edges : List Relationship} {id : MemoryId} :
    (id ∈ (nextLevel target edges seen).1 ↔ id ≠ target ∧ id ∉ seen ∧
      ∃ edge ∈ edges, id = edge.source ∨ id = edge.target) ∧
    (id ∈ (nextLevel target edges seen).2 ↔ id ∈ seen ∨ id ∈ (nextLevel target edges seen).1) := by
  have fold : ∀ (edges : List Relationship) (state : List MemoryId × List MemoryId),
      (∀ id ∈ state.1, id ∈ state.2) →
      let last := edges.foldl (fun state edge =>
        visit target (visit target state edge.source) edge.target) state
      (id ∈ last.1 ↔ id ∈ state.1 ∨ (id ≠ target ∧ id ∉ state.2 ∧
        ∃ edge ∈ edges, id = edge.source ∨ id = edge.target)) ∧
      (id ∈ last.2 ↔ id ∈ state.2 ∨ id ∈ last.1) := by
    intro edges
    induction edges with
    | nil =>
        intro state inside
        simp only [List.foldl_nil, List.not_mem_nil, false_and, exists_false, and_false, or_false,
          true_and]
        exact ⟨.inl, fun either => either.elim (fun seen => seen) (inside _)⟩
    | cons edge edges ih =>
        intro state inside
        obtain ⟨first, firstSeen, insideFirst⟩ :=
          @mem_visit target state edge.source id inside
        obtain ⟨second, secondSeen, insideSecond⟩ :=
          @mem_visit target (visit target state edge.source) edge.target id insideFirst
        obtain ⟨levels, sights⟩ := ih _ insideSecond
        rw [List.foldl_cons]
        refine ⟨?_, ?_⟩
        · rw [levels, second, first, secondSeen, firstSeen]
          simp only [List.mem_cons, exists_eq_or_imp]
          have firstSight := @mem_visit target state edge.source edge.target inside
          rw [firstSight.2.1]
          grind
        · rw [sights, secondSeen, firstSeen, levels, second, first, secondSeen, firstSeen]
          have firstSight := @mem_visit target state edge.source edge.target inside
          rw [firstSight.2.1]
          grind
  obtain ⟨level, sight⟩ := fold edges ([], seen) (fun _ member => absurd member List.not_mem_nil)
  refine ⟨?_, sight⟩
  rw [nextLevel, level]
  simp

theorem SameView.levelEvidence (same : Graph.SameView vc g h) (frontier : List MemoryId) :
    Exocortex.levelEvidence h vc frontier = Exocortex.levelEvidence g vc frontier := by
  rw [Exocortex.levelEvidence, Exocortex.levelEvidence, same.getVisibleMemories]

/-- Edges that the caller sees are read as they are in every graph of the same view. -/
theorem getRelationships_of_sees (same : Graph.SameView vc g h)
    (seen : ∀ id ∈ ids, (g.seesRelationship vc id).isSome) :
    h.getRelationships ids = g.getRelationships ids :=
  List.filterMap_congr fun id member => same.relationship_of_sees (seen id member)

/-- A walk that asks only for edges that the caller sees is the same in every graph of the same
view. -/
theorem chainLevels_of_sees (same : Graph.SameView vc g h)
    (sees : ∀ id ∈ chainReads g vc target depth frontier seen, (g.seesRelationship vc id).isSome) :
    chainLevels h vc target depth frontier seen = chainLevels g vc target depth frontier seen := by
  induction depth generalizing frontier seen with
  | zero => rfl
  | succ depth ih =>
      rw [chainReads, List.forall_mem_append] at sees
      obtain ⟨here, later⟩ := sees
      rw [chainLevels, chainLevels, SameView.levelEvidence same, getRelationships_of_sees same here]
      simp only [ih later]

/-- The levels of such a walk are seen. -/
theorem chainLevels_seen
    (sees : ∀ id ∈ chainReads g vc target depth frontier seen, (g.seesRelationship vc id).isSome) :
    ∀ id ∈ (chainLevels g vc target depth frontier seen).flatten, (g.seesMemory vc id).isSome := by
  induction depth generalizing frontier seen with
  | zero => simp [chainLevels]
  | succ depth ih =>
      rw [chainReads, List.forall_mem_append] at sees
      obtain ⟨here, later⟩ := sees
      intro id member
      rw [chainLevels] at member
      simp only at member
      split at member
      · cases member
      · split at member
        · cases member
        · rw [List.flatten_cons] at member
          rcases List.mem_append.mp member with level | deeper
          · obtain ⟨-, -, edge, listed, isEnd⟩ := mem_nextLevel.1.mp level
            obtain ⟨asked, inReads, found⟩ := List.mem_filterMap.mp listed
            obtain ⟨other, sight⟩ := Option.isSome_iff_exists.mp (here asked inReads)
            obtain ⟨there, visible⟩ := Graph.seesRelationship_eq_some_iff.mp sight
            rw [found] at there
            cases there
            rcases isEnd with rfl | rfl
            · exact (Graph.edgeVisible_ends visible).1
            · exact (Graph.edgeVisible_ends visible).2
          · exact ih later id deeper

theorem chainReads_nil (depth : ℕ) (seen : List MemoryId) :
    chainReads g vc target depth [] seen = [] := by
  induction depth generalizing seen with
  | zero => rfl
  | succ depth ih => exact ih seen

/-- A level that is not the last one. -/
theorem chainLevels_succ
    (more : (nextLevel target (g.getRelationships (levelEvidence g vc frontier)) seen).1 ≠ []) :
    chainLevels g vc target (depth + 1) frontier seen =
      (nextLevel target (g.getRelationships (levelEvidence g vc frontier)) seen).1 ::
        chainLevels g vc target depth
          (nextLevel target (g.getRelationships (levelEvidence g vc frontier)) seen).1
          (nextLevel target (g.getRelationships (levelEvidence g vc frontier)) seen).2 := by
  have some : levelEvidence g vc frontier ≠ [] := by
    intro none
    rw [none] at more
    exact more rfl
  rw [chainLevels]
  simp only [List.isEmpty_iff, some, more, if_false]

/-- An edge that the walk asks for, put at a memory that the walk does not come to, leads there. -/
theorem chainLevels_hide {stranger : MemoryId} (apart : stranger ≠ target)
    (unseen : stranger ∉ seen) (same : Graph.SameView vc g (g.hide id stranger []))
    (absent : stranger ∉ (chainLevels g vc target depth frontier seen).flatten)
    (read : id ∈ chainReads g vc target depth frontier seen) :
    stranger ∈ (chainLevels (g.hide id stranger []) vc target depth frontier seen).flatten := by
  induction depth generalizing frontier seen with
  | zero => cases read
  | succ depth ih =>
      have evidence := SameView.levelEvidence same frontier
      rw [chainReads] at read
      by_cases asked : id ∈ levelEvidence g vc frontier
      · -- The edge is read at this level, and its end is new.
        have next : stranger ∈ (nextLevel target ((g.hide id stranger []).getRelationships
            (levelEvidence (g.hide id stranger []) vc frontier)) seen).1 := by
          rw [evidence]
          refine mem_nextLevel.1.mpr
            ⟨apart, unseen, Graph.hiddenEdge (g.memory stranger) id stranger [], ?_, .inl rfl⟩
          exact List.mem_filterMap.mpr ⟨id, asked, Graph.hide_relationship_self id stranger⟩
        rw [chainLevels_succ (List.ne_nil_of_mem next), List.flatten_cons]
        exact List.mem_append_left _ next
      · -- It is not, so this level is the same.
        have edges : (g.hide id stranger []).getRelationships (levelEvidence g vc frontier) =
            g.getRelationships (levelEvidence g vc frontier) := by
          refine List.filterMap_congr fun other member => ?_
          refine Graph.hide_relationship_of_ne (fun equal => ?_) stranger
          exact asked (equal ▸ member)
        have later : id ∈ chainReads g vc target depth
            (nextLevel target (g.getRelationships (levelEvidence g vc frontier)) seen).1
            (nextLevel target (g.getRelationships (levelEvidence g vc frontier)) seen).2 :=
          (List.mem_append.mp read).resolve_left asked
        by_cases none :
            (nextLevel target (g.getRelationships (levelEvidence g vc frontier)) seen).1 = []
        · rw [none, chainReads_nil] at later
          cases later
        · rw [chainLevels_succ none, List.flatten_cons, List.mem_append, not_or] at absent
          have unseenLater : stranger ∉
              (nextLevel target (g.getRelationships (levelEvidence g vc frontier)) seen).2 := by
            rw [mem_nextLevel.2, not_or]
            exact ⟨unseen, absent.1⟩
          have deeper := ih unseenLater absent.2 later
          have again : (nextLevel target ((g.hide id stranger []).getRelationships
              (levelEvidence (g.hide id stranger []) vc frontier)) seen).1 ≠ [] := by
            rw [evidence, edges]
            exact none
          rw [chainLevels_succ again, evidence, edges, List.flatten_cons]
          exact List.mem_append_right _ deeper

/-- What the caller gets it may see, and rows that it does not see make no difference. -/
structure ChainRespects (g : Graph) (vc : VisibilityContext) (memory : MemoryId) (maxDepth : ℕ) :
    Prop where
  visible : ∀ id ∈ getChain g vc memory maxDepth, (g.seesMemory vc id).isSome
  same : ∀ h, Graph.SameView vc g h → getChain h vc memory maxDepth = getChain g vc memory maxDepth

/-- The memory is visible, and so is every edge that the walk asks for. -/
structure ChainInView (g : Graph) (vc : VisibilityContext) (memory : MemoryId) (maxDepth : ℕ) :
    Prop where
  asked : (g.seesMemory vc memory).isSome
  evidence : ∀ id ∈ chainReads g vc memory (min maxDepth 4) [memory] [memory],
    (g.seesRelationship vc id).isSome

theorem chainRespects_of_inView (inView : ChainInView g vc memory maxDepth) :
    ChainRespects g vc memory maxDepth where
  visible := by
    intro id member
    rcases mem_getChain.mp member with rfl | deeper
    · exact inView.asked
    · exact chainLevels_seen inView.evidence id deeper
  same := by
    intro h same
    rw [getChain, getChain, chainLevels_of_sees same inView.evidence]

/-- With a memory left that is not on the chain, an edge that the caller does not see shows. -/
theorem inView_of_chainRespects (respects : ChainRespects g vc memory maxDepth)
    (stranger : ∃ id, id ∉ getChain g vc memory maxDepth) : ChainInView g vc memory maxDepth where
  asked := respects.visible memory (mem_getChain.mpr (.inl rfl))
  evidence := by
    intro id read
    obtain ⟨other, absent⟩ := stranger
    rw [mem_getChain, not_or] at absent
    by_contra hidden
    have unseen : g.seesRelationship vc id = none := by simpa using hidden
    have view := Graph.sameView_hide unseen other []
    have shown := chainLevels_hide absent.1 (by simpa using absent.1) view absent.2 read
    have member : other ∈ getChain (g.hide id other []) vc memory maxDepth :=
      mem_getChain.mpr (.inr shown)
    rw [respects.same _ view, mem_getChain] at member
    exact member.elim absent.1 absent.2

/-! ## Explanations -/

/-- What the renderer is told about an edge. -/
structure EdgeFacts where
  edge : RelationshipId
  source : MemoryId
  target : MemoryId
  kindName : String
  ruleId : Option String
  parents : List RelationshipId
deriving DecidableEq

/-- What an explanation says of an edge. -/
structure EdgeText where
  source : MemoryId
  target : MemoryId
  kindName : String
deriving DecidableEq

/-- What the program of an explanation returns. An edge that it was told nothing about has no
text. -/
inductive ExplainTree where
  | leaf (edge : RelationshipId) (text : Option EdgeText)
  | derived (edge : RelationshipId) (text : Option EdgeText) (inputs : List ExplainTree)
  | depthBound (edge : RelationshipId) (text : Option EdgeText)

namespace ExplainEngine

variable (chain : List EdgeFacts)

def factsOf (edge : RelationshipId) : Option EdgeFacts :=
  chain.find? (·.edge = edge)

def edgeOf (edge : RelationshipId) : Option EdgeText :=
  (factsOf chain edge).map fun facts => ⟨facts.source, facts.target, facts.kindName⟩

def parentsOf (edge : RelationshipId) : List RelationshipId :=
  ((factsOf chain edge).map (·.parents)).getD []

/-- The tree of an edge, with so many levels left below it. -/
def walk : ℕ → RelationshipId → ExplainTree
  | 0, edge =>
      if (parentsOf chain edge).isEmpty then .leaf edge (edgeOf chain edge)
      else .depthBound edge (edgeOf chain edge)
  | levels + 1, edge =>
      if (parentsOf chain edge).isEmpty then .leaf edge (edgeOf chain edge)
      else .derived edge (edgeOf chain edge) ((parentsOf chain edge).map (walk levels))

def explainTree (target : RelationshipId) : ExplainTree := walk chain 5 target

end ExplainEngine

/-- The display name of a kind, or its handle in hexadecimal digits. -/
def OpContext.kindName (ctx : OpContext) (kind : RelKindId) : String :=
  match ctx.ontology.bind (·.kindMeta kind) with
  | some row => row.displayName
  | none => "0x" ++ String.ofList (Nat.toDigits 16 kind.raw.toNat)

def OpContext.edgeFacts (ctx : OpContext) (edge : Relationship) : EdgeFacts :=
  ⟨edge.id, edge.source, edge.target, ctx.kindName edge.kind, edge.provenance.ruleId,
    edge.provenance.evidence⟩

/-- The walk over the derivation, at most so many edges of it. -/
def explainFacts (ctx : OpContext) (g : Graph) :
    ℕ → List RelationshipId → List RelationshipId → List EdgeFacts
  | 0, _, _ => []
  | _ + 1, [], _ => []
  | budget + 1, id :: stack, seen =>
      match g.relationship id with
      | none => explainFacts ctx g budget stack seen
      | some edge =>
          let (stack, seen) := Library.push edge.provenance.evidence stack seen
          ctx.edgeFacts edge :: explainFacts ctx g budget stack seen

def explainBudget : ℕ := 64

/-- The facts that an explanation is rendered from. -/
def explainChain (ctx : OpContext) (g : Graph) (edge : RelationshipId) : List EdgeFacts :=
  explainFacts ctx g explainBudget [edge] [edge]

def explainEdge (ctx : OpContext) (g : Graph) (edge : RelationshipId) :
    Except OpError ExplainTree :=
  match g.relationship edge with
  | none => .error .notFound
  | some row =>
      if (g.getVisibleMemories ctx.visibility [row.source, row.target]).length ≠ 2 then
        .error (.unauthorized "caller may not see both endpoints of this edge")
      else
        let facts := explainChain ctx g edge
        if facts.any fun fact => fact.edge = edge && fact.ruleId.isSome then
          .ok (ExplainEngine.explainTree facts edge)
        else .error (.badInput "edge is not derived; there is nothing to explain")

/-! ### What a tree names -/

mutual

/-- The edges that a tree names, each with what it says of it. -/
def ExplainTree.nodes : ExplainTree → List (RelationshipId × Option EdgeText)
  | .leaf edge text => [(edge, text)]
  | .derived edge text inputs => (edge, text) :: ExplainTree.nodesOf inputs
  | .depthBound edge text => [(edge, text)]

def ExplainTree.nodesOf : List ExplainTree → List (RelationshipId × Option EdgeText)
  | [] => []
  | tree :: trees => tree.nodes ++ ExplainTree.nodesOf trees

end

namespace ExplainEngine

variable {chain chain' : List EdgeFacts} {levels : ℕ} {edge : RelationshipId}
  {node : RelationshipId × Option EdgeText}

theorem mem_nodesOf {trees : List ExplainTree} :
    node ∈ ExplainTree.nodesOf trees ↔ ∃ tree ∈ trees, node ∈ tree.nodes := by
  induction trees with
  | nil => simp [ExplainTree.nodesOf]
  | cons tree trees ih => simp [ExplainTree.nodesOf, ih]

theorem mem_nodes_zero : node ∈ (walk chain 0 edge).nodes ↔ node = (edge, edgeOf chain edge) := by
  rw [walk]
  split <;> simp [ExplainTree.nodes]

/-- A tree names its edge, and what the trees of the parents name. -/
theorem mem_nodes_succ : node ∈ (walk chain (levels + 1) edge).nodes ↔
    node = (edge, edgeOf chain edge) ∨
      ∃ parent ∈ parentsOf chain edge, node ∈ (walk chain levels parent).nodes := by
  rw [walk]
  split
  · next none =>
      rw [List.isEmpty_iff.mp none]
      simp [ExplainTree.nodes]
  · simp [ExplainTree.nodes, mem_nodesOf]

theorem root_mem_nodes : (edge, edgeOf chain edge) ∈ (walk chain levels edge).nodes := by
  cases levels with
  | zero => exact mem_nodes_zero.mpr rfl
  | succ levels => exact mem_nodes_succ.mpr (.inl rfl)

/-- What a tree says of an edge are its facts. -/
theorem text_of_node (named : node ∈ (walk chain levels edge).nodes) :
    node.2 = edgeOf chain node.1 := by
  induction levels generalizing edge with
  | zero =>
      rw [mem_nodes_zero.mp named]
  | succ levels ih =>
      rcases mem_nodes_succ.mp named with rfl | ⟨parent, -, deeper⟩
      · rfl
      · exact ih deeper

/-- An edge below the first is a parent of an edge that the tree names. -/
theorem parent_of_node (named : node ∈ (walk chain levels edge).nodes) : node.1 = edge ∨
    ∃ other ∈ (walk chain levels edge).nodes, node.1 ∈ parentsOf chain other.1 := by
  induction levels generalizing edge with
  | zero => exact .inl (congrArg Prod.fst (mem_nodes_zero.mp named))
  | succ levels ih =>
      rcases mem_nodes_succ.mp named with rfl | ⟨parent, listed, deeper⟩
      · exact .inl rfl
      · right
        rcases ih deeper with same | ⟨other, above, inputs⟩
        · exact ⟨(edge, edgeOf chain edge), root_mem_nodes, same ▸ listed⟩
        · exact ⟨other, mem_nodes_succ.mpr (.inr ⟨parent, listed, above⟩), inputs⟩

/-- The same facts of the edges that it names give the same tree. -/
theorem walk_congr
    (alike : ∀ node ∈ (walk chain levels edge).nodes,
      factsOf chain' node.1 = factsOf chain node.1) :
    walk chain' levels edge = walk chain levels edge := by
  have here := alike _ root_mem_nodes
  induction levels generalizing edge with
  | zero => rw [walk, walk, parentsOf, edgeOf, here, parentsOf, edgeOf]
  | succ levels ih =>
      have inputs : (parentsOf chain edge).map (walk chain' levels) =
          (parentsOf chain edge).map (walk chain levels) := by
        refine List.map_congr_left fun parent listed => ?_
        have below : ∀ node ∈ (walk chain levels parent).nodes,
            factsOf chain' node.1 = factsOf chain node.1 :=
          fun node named => alike node (mem_nodes_succ.mpr (.inr ⟨parent, listed, named⟩))
        exact ih below (below _ root_mem_nodes)
      rw [walk, walk, parentsOf, edgeOf, here, ← parentsOf, inputs, ← edgeOf]

end ExplainEngine

open ExplainEngine

/-! ### What the walk asks for -/

/-- The edges that a stored edge was derived from. -/
def Graph.evidenceOf (g : Graph) (id : RelationshipId) : List RelationshipId :=
  ((g.relationship id).map (·.provenance.evidence)).getD []

/-- The edges that the walk asks for. -/
def explainReads (g : Graph) (edge : RelationshipId) : List RelationshipId :=
  Library.visits g.evidenceOf explainBudget [edge] [edge]

variable {ctx : OpContext} {edge : RelationshipId}

/-- The facts are those of the edges asked for that are there. -/
theorem explainFacts_eq (budget : ℕ) (stack seen : List RelationshipId) :
    explainFacts ctx g budget stack seen =
      (Library.visits g.evidenceOf budget stack seen).filterMap
        fun id => (g.relationship id).map ctx.edgeFacts := by
  induction budget generalizing stack seen with
  | zero => rfl
  | succ budget ih =>
      cases stack with
      | nil => rfl
      | cons id stack =>
          rw [explainFacts, Library.visits, Graph.evidenceOf]
          cases found : g.relationship id with
          | none => simp [found, ih, Library.push]
          | some row => simp [found, ih]

theorem factsOf_explainChain (id : RelationshipId) : factsOf (explainChain ctx g edge) id =
    if id ∈ explainReads g edge then (g.relationship id).map ctx.edgeFacts else none := by
  rw [explainChain, explainFacts_eq, explainReads]
  generalize Library.visits g.evidenceOf explainBudget [edge] [edge] = reads
  have named : ∀ other row, g.relationship other = some row → (ctx.edgeFacts row).edge = other :=
    g.relationship_id
  rw [factsOf]
  induction reads with
  | nil => rfl
  | cons first reads ih =>
      cases found : g.relationship first with
      | none =>
          rw [List.filterMap_cons_none (by simp [found]), ih]
          by_cases same : id = first
          · subst same
            simp [found]
          · simp [same]
      | some row =>
          rw [List.filterMap_cons_some (b := ctx.edgeFacts row) (by simp [found]), List.find?_cons,
            named first row found]
          by_cases same : first = id
          · subst same
            simp [found]
          · simp [same, Ne.symm same, ih]

/-- What an explanation says of a stored edge. -/
def OpContext.edgeText (ctx : OpContext) (row : Relationship) : EdgeText :=
  ⟨row.source, row.target, ctx.kindName row.kind⟩

theorem edgeOf_explainChain {text : EdgeText} :
    edgeOf (explainChain ctx g edge) id = some text ↔
      id ∈ explainReads g edge ∧ ∃ row, g.relationship id = some row ∧ text = ctx.edgeText row := by
  rw [edgeOf, factsOf_explainChain]
  split
  · next read => cases found : g.relationship id <;> simp [read, eq_comm, OpContext.edgeText,
      OpContext.edgeFacts]
  · next unread => simp [unread]

theorem mem_parentsOf_explainChain {parent : RelationshipId}
    (named : parent ∈ parentsOf (explainChain ctx g edge) id) :
    id ∈ explainReads g edge ∧ parent ∈ g.evidenceOf id := by
  rw [parentsOf, factsOf_explainChain] at named
  split at named
  · next read =>
      refine ⟨read, ?_⟩
      rw [Graph.evidenceOf]
      cases found : g.relationship id <;> rw [found] at named
      · cases named
      · exact named
  · cases named

theorem read_self (g : Graph) (edge : RelationshipId) : edge ∈ explainReads g edge :=
  List.mem_cons_self

/-- Whether an edge can be explained is in its own row. -/
theorem explainEdge_eq {row : Relationship} (found : g.relationship edge = some row) :
    explainEdge ctx g edge =
      if (g.getVisibleMemories ctx.visibility [row.source, row.target]).length ≠ 2 then
        .error (.unauthorized "caller may not see both endpoints of this edge")
      else if row.provenance.ruleId.isSome then .ok (explainTree (explainChain ctx g edge) edge)
      else .error (.badInput "edge is not derived; there is nothing to explain") := by
  have derived : (explainChain ctx g edge).any (fun fact =>
      fact.edge = edge && fact.ruleId.isSome) =
      row.provenance.ruleId.isSome := by
    rw [Bool.eq_iff_iff, List.any_eq_true, explainChain, explainFacts_eq]
    constructor
    · rintro ⟨fact, member, isIt⟩
      obtain ⟨id, -, stored⟩ := List.mem_filterMap.mp member
      obtain ⟨other, there, rfl⟩ := Option.map_eq_some_iff.mp stored
      obtain ⟨same, rule⟩ := Bool.and_eq_true_iff.mp isIt
      replace same : other.id = edge := of_decide_eq_true same
      rw [← g.relationship_id id other there, same, found] at there
      cases there
      exact rule
    · intro rule
      refine ⟨ctx.edgeFacts row, List.mem_filterMap.mpr ⟨edge, read_self g edge, ?_⟩, ?_⟩
      · rw [found]
        rfl
      · simp [OpContext.edgeFacts, g.relationship_id edge row found, rule]
  rw [explainEdge, found]
  simp only [derived]

theorem tree_of_explainEdge {tree : ExplainTree} (explained : explainEdge ctx g edge = .ok tree) :
    tree = explainTree (explainChain ctx g edge) edge := by
  rw [explainEdge] at explained
  split at explained
  · cases explained
  · split at explained
    · cases explained
    · simp only at explained
      split at explained
      · cases explained
        rfl
      · cases explained

/-- What the caller is told about it may see, and rows that it does not see make no difference. -/
structure ExplainRespects (ctx : OpContext) (g : Graph) (edge : RelationshipId) : Prop where
  visible : ∀ tree, explainEdge ctx g edge = .ok tree → ∀ id text, (id, some text) ∈ tree.nodes →
    (g.seesRelationship ctx.visibility id).isSome ∧
      (g.seesMemory ctx.visibility text.source).isSome ∧
      (g.seesMemory ctx.visibility text.target).isSome
  same : ∀ h, Graph.SameView ctx.visibility g h → explainEdge ctx h edge = explainEdge ctx g edge

/-- In what the caller sees, the walk asks for the edges that the tree names before it asks for one
that is not there. -/
def ExplainInView (ctx : OpContext) (g : Graph) (edge : RelationshipId) : Prop :=
  let view := g.view ctx.visibility
  ∀ node ∈ (explainTree (explainChain ctx view edge) edge).nodes,
    node.1 ∈ explainReads view edge →
      node.1 ∈ (explainReads view edge).takeWhile fun id => (view.relationship id).isSome

section Within

variable {v : Graph}

/-- Every edge of a graph is in another. -/
def Graph.Within (v h : Graph) : Prop :=
  ∀ id, (v.relationship id).isSome → h.relationship id = v.relationship id

theorem Graph.SameView.within (same : Graph.SameView vc g h) : (g.view vc).Within h := by
  intro id seen
  obtain ⟨edge, found⟩ := Option.isSome_iff_exists.mp seen
  rw [same.relationship_of_sees seen, found]
  exact (Graph.seesRelationship_eq_some_iff.mp found).1

theorem Graph.Within.evidenceOf (within : v.Within h) (id : RelationshipId) :
    v.evidenceOf id ⊆ h.evidenceOf id := by
  cases found : v.relationship id with
  | none => simp [Graph.evidenceOf, found]
  | some row =>
      rw [Graph.evidenceOf, Graph.evidenceOf, within id (by rw [found]; rfl)]
      exact List.Subset.refl _

/-- Two walks are at the same place when they ask for an edge, if all before it are there. -/
theorem explainReads_split (walk : explainReads v edge = before ++ id :: after) :
    ∃ left below found,
      explainBudget = before.length + (left + 1) ∧ Library.Front before (id :: below) found ∧
      (∀ other ∈ found, other = edge ∨ ∃ parent ∈ before, other ∈ v.evidenceOf parent) ∧
      ∀ h : Graph, (∀ other ∈ before, h.relationship other = v.relationship other) →
        explainReads h edge =
          before ++ Library.visits h.evidenceOf (left + 1) (id :: below) found := by
  have start : Library.Front [] [edge] [edge] :=
    ⟨List.nodup_singleton _, fun _ member => member, fun _ => .inr⟩
  obtain ⟨left, below, found, enough, front, origin, congr⟩ := Library.visits_split start walk
  refine ⟨left, below, found, enough, front, fun other member => ?_, fun h alike => ?_⟩
  · exact (origin other member).imp_left List.mem_singleton.mp
  · refine congr h.evidenceOf fun other member => ?_
    rw [Graph.evidenceOf, alike other member, Graph.evidenceOf]

theorem mem_takeWhile_split {p : RelationshipId → Bool} {reads : List RelationshipId}
    (early : id ∈ reads.takeWhile p) :
    p id ∧ ∃ before after, reads = before ++ id :: after ∧ ∀ other ∈ before, p other := by
  have there := List.all_eq_true.mp (List.all_takeWhile (p := p) (l := reads))
  obtain ⟨before, after, split⟩ := List.append_of_mem early
  refine ⟨there id early, before, after ++ reads.dropWhile p, ?_, fun other member => ?_⟩
  · rw [← List.cons_append, ← List.append_assoc, ← split, List.takeWhile_append_dropWhile]
  · exact there other (split ▸ List.mem_append_left _ member)

/-- In a graph with more edges the walk knows the same of what the tree names. -/
theorem factsOf_within (within : v.Within h)
    (early : ∀ node ∈ (explainTree (explainChain ctx v edge) edge).nodes,
      node.1 ∈ explainReads v edge →
        node.1 ∈ (explainReads v edge).takeWhile fun id => (v.relationship id).isSome) :
    ∀ node ∈ (explainTree (explainChain ctx v edge) edge).nodes,
      factsOf (explainChain ctx h edge) node.1 = factsOf (explainChain ctx v edge) node.1 := by
  intro node named
  rw [factsOf_explainChain, factsOf_explainChain]
  by_cases read : node.1 ∈ explainReads v edge
  · -- It is asked for while both walks are the same.
    have first := early node named read
    obtain ⟨stored, before, after, split, there⟩ := mem_takeWhile_split first
    obtain ⟨left, below, found, -, -, -, congr⟩ := explainReads_split split
    have again : node.1 ∈ explainReads h edge := by
      rw [congr h fun other member => within other (there other member)]
      exact List.mem_append_right _ List.mem_cons_self
    rw [if_pos read, if_pos again, within node.1 stored]
  · -- It waits when its budget ends, and more edges only come before it.
    suffices late : node.1 ∉ explainReads h edge by rw [if_neg read, if_neg late]
    intro again
    rcases parent_of_node named with same | ⟨other, above, inputs⟩
    · rw [same] at read
      exact read (read_self v edge)
    · obtain ⟨asked, evidence⟩ := mem_parentsOf_explainChain inputs
      have first := early other above asked
      obtain ⟨stored, before, after, split, there⟩ := mem_takeWhile_split first
      obtain ⟨left, below, found, -, front, -, congr⟩ := explainReads_split split
      have alike : h.evidenceOf other.1 = v.evidenceOf other.1 := by
        rw [Graph.evidenceOf, within other.1 stored, Graph.evidenceOf]
      rw [congr v fun _ _ => rfl, Library.visits, List.append_cons] at read
      rw [congr h fun o member => within o (there o member), Library.visits, alike,
        List.append_cons] at again
      rw [List.mem_append, not_or] at read
      have next := front.step (v.evidenceOf other.1)
      have waits : node.1 ∈ (Library.push (v.evidenceOf other.1) below found).1 := by
        refine (next.kept node.1 ?_).resolve_left read.1
        obtain ⟨new, pushed, -, isNew⟩ := Library.push_spec (v.evidenceOf other.1) below found
        rw [pushed, List.mem_append, isNew]
        by_cases known : node.1 ∈ found
        · exact .inr known
        · exact .inl ⟨evidence, known⟩
      rcases List.mem_append.mp again with before | later
      · exact read.1 before
      · exact read.2 (Library.visits_mono within.evidenceOf next waits later)

end Within

/-- What is explained is what would be explained of the view. -/
theorem ExplainInView.explainEdge (inView : ExplainInView ctx g edge)
    (same : Graph.SameView ctx.visibility g h) :
    Exocortex.explainEdge ctx h edge =
      Exocortex.explainEdge ctx (g.view ctx.visibility) edge := by
  have first := inView _ root_mem_nodes (read_self _ edge)
  obtain ⟨row, found⟩ := Option.isSome_iff_exists.mp (mem_takeWhile_split first).1
  have stored : h.relationship edge = some row := by
    rw [same.within edge (by rw [found]; rfl), found]
  have trees : explainTree (explainChain ctx h edge) edge =
      explainTree (explainChain ctx (g.view ctx.visibility) edge) edge :=
    walk_congr (factsOf_within same.within inView)
  rw [explainEdge_eq stored, explainEdge_eq found, trees,
    (Graph.sameView_view.symm.trans same).getVisibleMemories]

theorem explainRespects_of_inView (inView : ExplainInView ctx g edge) :
    ExplainRespects ctx g edge where
  visible := by
    intro tree explained id text shown
    rw [inView.explainEdge ⟨fun _ => rfl, fun _ => rfl⟩] at explained
    rw [tree_of_explainEdge explained] at shown
    obtain ⟨-, row, seen, rfl⟩ := edgeOf_explainChain.mp (text_of_node shown).symm
    have ends := Graph.edgeVisible_ends (Graph.seesRelationship_eq_some_iff.mp seen).2
    exact ⟨Option.isSome_iff_exists.mpr ⟨row, seen⟩, ends⟩
  same := by
    intro h same
    rw [inView.explainEdge same, inView.explainEdge ⟨fun _ => rfl, fun _ => rfl⟩]

/-- An operation that respects what the caller sees is asked about an edge that it sees. -/
theorem ExplainRespects.sees_edge (respects : ExplainRespects ctx g edge) :
    (g.seesRelationship ctx.visibility edge).isSome := by
  by_contra hidden
  have unseen : g.seesRelationship ctx.visibility edge = none := by simpa using hidden
  cases found : g.relationship edge with
  | none =>
      -- A hidden edge there is not the same as none.
      have same := respects.same _ (Graph.sameView_hide unseen ⟨.fill 16 0⟩ [])
      rw [explainEdge, explainEdge, found, Graph.hide_relationship_self] at same
      simp only at same
      split at same
      · cases same
      · split at same <;> cases same
  | some row =>
      have named : ∀ row, (none : Option Relationship) = some row → row.id = edge :=
        fun _ impossible => by cases impossible
      have same := respects.same _ (Graph.sameView_withEdge named unseen rfl)
      have gone : explainEdge ctx (g.withEdge edge none fun _ impossible => by cases impossible)
          edge = .error .notFound := by
        rw [explainEdge]
        simp only [Graph.withEdge, if_pos]
      rw [gone, explainEdge, found] at same
      simp only at same
      split at same
      · cases same
      · split at same <;> cases same

/-- A derived edge between memories that the caller sees is explained. -/
theorem explainEdge_ok {row : Relationship} (found : g.relationship edge = some row)
    (source : (g.seesMemory ctx.visibility row.source).isSome)
    (target : (g.seesMemory ctx.visibility row.target).isSome)
    (derived : row.provenance.ruleId.isSome) :
    explainEdge ctx g edge = .ok (explainTree (explainChain ctx g edge) edge) := by
  obtain ⟨left, foundLeft⟩ := Option.isSome_iff_exists.mp source
  obtain ⟨right, foundRight⟩ := Option.isSome_iff_exists.mp target
  rw [explainEdge_eq found, if_neg, if_pos derived]
  simp [Graph.getVisibleMemories_eq, foundLeft, foundRight]

variable {node : RelationshipId × Option EdgeText}

/-- Where the tree names another edge, what it says is the same in every graph of the same view
that has the edge itself. -/
theorem ExplainRespects.told (respects : ExplainRespects ctx g edge)
    (named : node ∈ (explainTree (explainChain ctx (g.view ctx.visibility) edge) edge).nodes)
    (below : node.1 ≠ edge) (same : Graph.SameView ctx.visibility (g.view ctx.visibility) h) :
    edgeOf (explainChain ctx h edge) node.1 =
      edgeOf (explainChain ctx (g.view ctx.visibility) edge) node.1 := by
  obtain ⟨row, sight⟩ := Option.isSome_iff_exists.mp respects.sees_edge
  have view : Graph.SameView ctx.visibility g (g.view ctx.visibility) := Graph.sameView_view
  obtain ⟨source, target⟩ :=
    Graph.edgeVisible_ends (Graph.seesRelationship_eq_some_iff.mp sight).2
  have derived : row.provenance.ruleId.isSome := by
    rcases mem_nodes_succ.mp named with rfl | ⟨parent, listed, -⟩
    · exact absurd rfl below
    · have evidence := (mem_parentsOf_explainChain listed).2
      rw [Graph.evidenceOf, show (g.view ctx.visibility).relationship edge = some row from sight]
        at evidence
      change parent ∈ row.provenance.evidence at evidence
      cases provenance : row.provenance with
      | derived rule evidence => rfl
      | _ =>
          rw [provenance] at evidence
          cases evidence
  have stored : h.relationship edge = some row := by
    rw [(view.trans same).relationship_of_sees respects.sees_edge]
    exact (Graph.seesRelationship_eq_some_iff.mp sight).1
  have trees := (respects.same h (view.trans same)).trans (respects.same _ view).symm
  have sees : ∀ id, h.seesMemory ctx.visibility id = g.seesMemory ctx.visibility id :=
    fun id => ((view.trans same).memory id).symm
  rw [explainEdge_ok stored (by rw [sees]; exact source) (by rw [sees]; exact target) derived,
    explainEdge_ok (g := g.view ctx.visibility) sight source target derived] at trees
  have again := named
  rw [← Except.ok.inj trees] at again
  rw [← text_of_node named, ← text_of_node again]

/-- Nothing stored has or names the identity. -/
def Graph.Unnamed (g : Graph) (id : RelationshipId) : Prop :=
  g.relationship id = none ∧ ∀ other, id ∉ g.evidenceOf other

/-- An edge that is not there may lead to enough identities for the walk to end at them. -/
theorem explainReads_flooded {v : Graph} {gap : RelationshipId} (at_id : MemoryId)
    (missing : v.relationship gap = none) (there : ∀ id ∈ before, (v.relationship id).isSome)
    (walk : explainReads v edge = before ++ gap :: after) (distinct : ids.Nodup)
    (enough : explainBudget ≤ ids.length) (unnamed : ∀ id ∈ ids, id ≠ edge ∧ v.Unnamed id) :
    ∀ id ∈ explainReads (v.hide gap at_id ids) edge, id ∈ before ∨ id = gap ∨ id ∈ ids := by
  obtain ⟨left, below, seen, most, front, origin, congr⟩ := explainReads_split walk
  have fresh : ∀ id ∈ ids, id ∉ seen := by
    intro id spare known
    rcases origin id known with same | ⟨parent, -, listed⟩
    · exact (unnamed id spare).1 same
    · exact (unnamed id spare).2.2 parent listed
  have leads : (v.hide gap at_id ids).evidenceOf gap = ids := by
    rw [Graph.evidenceOf, Graph.hide_relationship_self]
    rfl
  obtain ⟨new, pushed, -, isNew⟩ := Library.push_spec ids below seen
  have same : ∀ id, id ∈ new ↔ id ∈ ids := fun id =>
    (isNew id).trans (and_iff_left_of_imp (fresh id))
  have many := (distinct.subperm fun id member => (same id).mpr member).length_le
  have ends : ∀ id ∈ new, (v.hide gap at_id ids).evidenceOf id = [] := by
    intro id member
    have spare := (same id).mp member
    have apart : id ≠ gap := by
      rintro rfl
      exact fresh id spare (front.known id List.mem_cons_self)
    rw [Graph.evidenceOf, Graph.hide_relationship_of_ne apart, (unnamed id spare).2.1]
    rfl
  intro id read
  have alike : ∀ other ∈ before,
      (v.hide gap at_id ids).relationship other = v.relationship other := by
    intro other member
    refine Graph.hide_relationship_of_ne ?_ at_id
    rintro rfl
    have stored := there other member
    rw [missing] at stored
    cases stored
  rw [congr _ alike, Library.visits, leads, pushed] at read
  rcases List.mem_append.mp read with early | late
  · exact .inl early
  · rcases List.mem_cons.mp late with here | flooded
    · exact .inr (.inl here)
    · exact .inr (.inr ((same id).mp (Library.visits_flooded ends (by omega) id flooded)))

/-- What a caller does not see of the view is not in it. -/
theorem Graph.view_unseen (missing : (g.view vc).relationship id = none) :
    (g.view vc).seesRelationship vc id = none := by
  rw [Graph.seesRelationship, missing, Option.filter_none]

/-- An edge that the tree names and the walk asks for is there: else a hidden one may be. -/
theorem ExplainRespects.stored (respects : ExplainRespects ctx g edge)
    (named : node ∈ (explainTree (explainChain ctx (g.view ctx.visibility) edge) edge).nodes)
    (below : node.1 ≠ edge) (read : node.1 ∈ explainReads (g.view ctx.visibility) edge) :
    ∃ row, (g.view ctx.visibility).relationship node.1 = some row := by
  by_contra none
  have missing := Option.eq_none_iff_forall_ne_some.mpr fun row found => none ⟨row, found⟩
  obtain ⟨before, after, split, first⟩ := List.eq_append_cons_of_mem read
  obtain ⟨left, under, seen, -, -, -, congr⟩ := explainReads_split split
  have asked : node.1 ∈ explainReads
      ((g.view ctx.visibility).hide node.1 ⟨.fill 16 0⟩ []) edge := by
    rw [congr _ fun other member => Graph.hide_relationship_of_ne (by
      rintro rfl
      exact first member) _]
    exact List.mem_append_right _ List.mem_cons_self
  have told := respects.told named below
    (Graph.sameView_hide (Graph.view_unseen missing) ⟨.fill 16 0⟩ [])
  have shown := told.symm.trans
    (edgeOf_explainChain.mpr ⟨asked, _, Graph.hide_relationship_self _ _, rfl⟩)
  obtain ⟨-, row, there, -⟩ := edgeOf_explainChain.mp shown
  exact none ⟨row, there⟩

/-- With as many identities to spare as the budget, an edge that is not there shows: it can be
there, and it can lead away from what comes after it. -/
theorem inView_of_explainRespects (respects : ExplainRespects ctx g edge)
    (spare : ∃ ids : List RelationshipId, ids.Nodup ∧ explainBudget ≤ ids.length ∧
      ∀ id ∈ ids, g.Unnamed id) : ExplainInView ctx g edge := by
  intro node named read
  set view := g.view ctx.visibility
  by_contra late
  have root : (view.relationship edge).isSome = true := respects.sees_edge
  have below : node.1 ≠ edge := by
    intro same
    rw [same, explainReads, explainBudget, Library.visits, List.takeWhile_cons, root] at late
    exact late List.mem_cons_self
  obtain ⟨row, found⟩ := respects.stored named below read
  obtain ⟨ids, distinct, enough, unnamed⟩ := spare
  have within : view.Within g := Graph.SameView.within ⟨fun _ => rfl, fun _ => rfl⟩
  have unused : ∀ id ∈ ids, view.relationship id = none := by
    intro id member
    have missing : g.seesRelationship ctx.visibility id = none := by
      rw [Graph.seesRelationship, (unnamed id member).1, Option.filter_none]
    exact missing
  have spared : ∀ id ∈ ids, id ≠ edge ∧ view.Unnamed id := by
    intro id member
    refine ⟨?_, unused id member,
      fun other listed => (unnamed id member).2 other (within.evidenceOf other listed)⟩
    rintro rfl
    rw [unused id member] at root
    cases root
  have parts := List.takeWhile_append_dropWhile
    (p := fun id => (view.relationship id).isSome) (l := explainReads view edge)
  cases rest : (explainReads view edge).dropWhile fun id => (view.relationship id).isSome with
  | nil =>
      rw [rest, List.append_nil] at parts
      rw [parts] at late
      exact late read
  | cons gap after =>
      have missing : view.relationship gap = none := by
        have head := List.head?_dropWhile_not (fun id => (view.relationship id).isSome)
          (explainReads view edge)
        rw [rest] at head
        simpa using head
      rw [rest] at parts
      have told := respects.told named below
        (Graph.sameView_hide (Graph.view_unseen missing) ⟨.fill 16 0⟩ ids)
      have asked := (edgeOf_explainChain.mp
        (told.trans (edgeOf_explainChain.mpr ⟨read, row, found, rfl⟩))).1
      rcases explainReads_flooded ⟨.fill 16 0⟩ missing (List.all_eq_true.mp List.all_takeWhile)
        parts.symm distinct enough spared node.1 asked with early | same | isSpare
      · exact late early
      · rw [same, missing] at found
        cases found
      · rw [unused _ isSpare] at found
        cases found

/-- **Chains and explanations keep to what the caller sees exactly where the edges that they ask for
are there and visible to it**: a chain, as long as some memory is not on it; an explanation, up to
the last edge that its tree names, as long as enough identities are not in use. -/
theorem derivations_respect_iff (ctx : OpContext) (g : Graph) (memory : MemoryId) (maxDepth : ℕ)
    (edge : RelationshipId) :
    (ChainInView g ctx.visibility memory maxDepth →
      ChainRespects g ctx.visibility memory maxDepth) ∧
    ((∃ id, id ∉ getChain g ctx.visibility memory maxDepth) →
      ChainRespects g ctx.visibility memory maxDepth →
        ChainInView g ctx.visibility memory maxDepth) ∧
    (ExplainInView ctx g edge → ExplainRespects ctx g edge) ∧
    ((∃ ids : List RelationshipId, ids.Nodup ∧ explainBudget ≤ ids.length ∧
        ∀ id ∈ ids, g.Unnamed id) →
      ExplainRespects ctx g edge → ExplainInView ctx g edge) :=
  ⟨chainRespects_of_inView, fun stranger respects => inView_of_chainRespects respects stranger,
    explainRespects_of_inView, fun spare respects => inView_of_explainRespects respects spare⟩

/-! ## A belief that rests on a private plan -/

/-- The graph of some rows, the first of each identity. -/
def Graph.ofRows (memories : List Memory) (edges : List Relationship) : Graph where
  memory id := memories.find? (·.id = id)
  relationship id := edges.find? (·.id = id)
  memory_id := fun _ _ found => by simpa using List.find?_some found
  relationship_id := fun _ _ found => by simpa using List.find?_some found

/-- A belief of the whole tenant, from an edge at a private plan. -/
def belief : Memory :=
  { Memory.blank ⟨.fill 16 1⟩ with
    visibility := .org
    provenance := .derived "co_session" [⟨.fill 16 9⟩]
    context := ⟨0, none, none, some "acme", none, none, []⟩ }

def privatePlan : Memory :=
  { Memory.blank ⟨.fill 16 2⟩ with
    context := ⟨0, none, none, some "acme", none, some "bob", []⟩ }

/-- An edge from the plan to the belief, and an edge of the whole tenant that was derived
from it. -/
def planEdges : List Relationship :=
  [{ Graph.hiddenEdge none ⟨.fill 16 9⟩ ⟨.fill 16 2⟩ [] with target := ⟨.fill 16 1⟩ },
    { Graph.hiddenEdge none ⟨.fill 16 8⟩ ⟨.fill 16 1⟩ [] with
      visibility := .org
      provenance := .derived "co_session" [⟨.fill 16 9⟩] }]

def planGraph : Graph := .ofRows [belief, privatePlan] planEdges

def colleague : OpContext := ⟨⟨"ada", "acme", [], [], .org⟩, none, .fill 32 0⟩

/-- A colleague is told of the private plan, as an origin of the belief and as an end of an edge. -/
theorem not_derivations_respect :
    (¬ ∀ (g : Graph) (vc : VisibilityContext) (memory : MemoryId) (maxDepth : ℕ),
      ChainRespects g vc memory maxDepth) ∧
    ¬ ∀ (ctx : OpContext) (g : Graph) (edge : RelationshipId), ExplainRespects ctx g edge := by
  refine ⟨fun always => ?_, fun always => ?_⟩
  · have shown := (always planGraph colleague.visibility ⟨.fill 16 1⟩ 1).visible ⟨.fill 16 2⟩
      (by decide +kernel)
    exact absurd shown (by decide +kernel)
  · have told : (explainEdge colleague planGraph ⟨.fill 16 8⟩).toOption.isSome := by
      decide +kernel
    obtain ⟨tree, explained⟩ := Library.exists_ok told
    have named : ∃ text, (⟨.fill 16 9⟩, some text) ∈
        (explainTree (explainChain colleague planGraph ⟨.fill 16 8⟩) ⟨.fill 16 8⟩).nodes :=
      ⟨⟨⟨.fill 16 2⟩, ⟨.fill 16 1⟩, "0x0"⟩, by decide +kernel⟩
    rw [← tree_of_explainEdge explained] at named
    obtain ⟨text, shown⟩ := named
    have seen := ((always colleague planGraph ⟨.fill 16 8⟩).visible tree explained _ _ shown).1
    exact absurd seen (by decide +kernel)

end Exocortex
