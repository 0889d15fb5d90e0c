import Exocortex.Library.Tables

/-!
# Graphs whose indices stay valid

A vector of slots hands out an index for every value it takes in. Removing a value
leaves the index of every other value alone; the vacated index is the first to be
handed out again (`Slots`).

A stable graph keeps its nodes and its edges in such vectors. An edge lists its end
nodes by index. Removing a node removes the edges at it.
-/

namespace Library

/-- A vector of slots: the occupied ones, the length of the vector, and the vacated
ones, the most recently vacated first. -/
structure Slots (V : Type*) where
  cells : Table ℕ V
  bound : ℕ
  free : List ℕ
  cells_below : ∀ ix ∈ cells, ix < bound
  free_vacant : ∀ ix ∈ free, ix < bound ∧ ix ∉ cells
  free_nodup : free.Nodup

namespace Slots

variable {V : Type*}

def empty : Slots V where
  cells := ∅
  bound := 0
  free := []
  cells_below _ member := absurd member (AList.notMem_empty _)
  free_vacant _ member := absurd member List.not_mem_nil
  free_nodup := List.nodup_nil

def lookup (slots : Slots V) (ix : ℕ) : Option V := slots.cells.lookup ix

/-- The index the next value will get. -/
def next (slots : Slots V) : ℕ := slots.free.headD slots.bound

theorem next_vacant (slots : Slots V) : slots.next ∉ slots.cells := by
  rw [next]
  cases shape : slots.free with
  | nil => exact fun present => Nat.lt_irrefl _ (slots.cells_below _ present)
  | cons ix rest => exact (slots.free_vacant ix (shape ▸ List.mem_cons_self)).2

theorem next_not_mem_tail (slots : Slots V) : slots.next ∉ slots.free.tail := by
  rw [next]
  have distinct := slots.free_nodup
  cases shape : slots.free with
  | nil => exact List.not_mem_nil
  | cons ix rest =>
      rw [shape, List.nodup_cons] at distinct
      exact distinct.1

/-- Take in a value at the next index. -/
def push (slots : Slots V) (value : V) : Slots V where
  cells := slots.cells.insert slots.next value
  bound := max slots.bound (slots.next + 1)
  free := slots.free.tail
  cells_below ix present := by
    rcases AList.mem_insert _ |>.mp present with rfl | old
    · omega
    · have below := slots.cells_below ix old
      omega
  free_vacant ix member := by
    have old := slots.free_vacant ix (List.mem_of_mem_tail member)
    refine ⟨by omega, fun present => ?_⟩
    rcases AList.mem_insert _ |>.mp present with rfl | inside
    · exact slots.next_not_mem_tail member
    · exact old.2 inside
  free_nodup := slots.free_nodup.tail

/-- Replace the value at an occupied index. -/
def set (slots : Slots V) (ix : ℕ) (value : V) : Slots V :=
  if occupied : ix ∈ slots.cells then
    { slots with
      cells := slots.cells.insert ix value
      cells_below := fun other present => by
        rcases AList.mem_insert _ |>.mp present with rfl | old
        · exact slots.cells_below _ occupied
        · exact slots.cells_below other old
      free_vacant := fun other member => by
        refine ⟨(slots.free_vacant other member).1, fun present => ?_⟩
        rcases AList.mem_insert _ |>.mp present with rfl | old
        · exact (slots.free_vacant _ member).2 occupied
        · exact (slots.free_vacant other member).2 old }
  else slots

/-- Vacate an occupied index. -/
def remove (slots : Slots V) (ix : ℕ) : Slots V :=
  if occupied : ix ∈ slots.cells then
    { slots with
      cells := slots.cells.erase ix
      free := ix :: slots.free
      cells_below := fun other present =>
        slots.cells_below other (AList.mem_erase.mp present).2
      free_vacant := fun other member => by
        rcases List.mem_cons.mp member with rfl | old
        · exact ⟨slots.cells_below _ occupied, fun present => (AList.mem_erase.mp present).1 rfl⟩
        · exact ⟨(slots.free_vacant other old).1, fun present =>
            (slots.free_vacant other old).2 (AList.mem_erase.mp present).2⟩
      free_nodup := List.nodup_cons.mpr
        ⟨fun member => (slots.free_vacant ix member).2 occupied, slots.free_nodup⟩ }
  else slots

theorem lookup_next (slots : Slots V) : slots.lookup slots.next = none :=
  AList.lookup_eq_none.mpr slots.next_vacant

theorem lookup_push (slots : Slots V) (value : V) (ix : ℕ) :
    (slots.push value).lookup ix = if ix = slots.next then some value else slots.lookup ix :=
  Table.lookup_insert_eq slots.cells slots.next ix value

theorem lookup_set (slots : Slots V) {ix : ℕ} {old : V} (occupied : slots.lookup ix = some old)
    (value : V) (other : ℕ) :
    (slots.set ix value).lookup other = if other = ix then some value else slots.lookup other := by
  have present : ix ∈ slots.cells := AList.lookup_isSome.mp (Option.isSome_of_eq_some occupied)
  rw [set, dif_pos present]
  exact Table.lookup_insert_eq slots.cells ix other value

theorem lookup_remove (slots : Slots V) (ix other : ℕ) :
    (slots.remove ix).lookup other = if other = ix then none else slots.lookup other := by
  by_cases present : ix ∈ slots.cells
  · rw [remove, dif_pos present]
    exact Table.lookup_erase_eq slots.cells ix other
  · rw [remove, dif_neg present]
    split
    · next same => exact same ▸ AList.lookup_eq_none.mpr present
    · rfl

end Slots

/-- An edge: the indices of its ends, and its weight. -/
structure Edge (E : Type*) where
  source : ℕ
  target : ℕ
  weight : E

/-- A directed graph in slots. `recent` lists the edges, the most recently added
first. -/
structure StableGraph (N E : Type*) where
  nodes : Slots N
  edges : Slots (Edge E)
  recent : List ℕ

namespace StableGraph

variable {N E : Type*}

def empty : StableGraph N E := ⟨.empty, .empty, []⟩

/-- Add a node; its index is `nodes.next`. -/
def addNode (graph : StableGraph N E) (weight : N) : StableGraph N E :=
  { graph with nodes := graph.nodes.push weight }

/-- Add an edge between two nodes; its index is `edges.next`. -/
def addEdge (graph : StableGraph N E) (source target : ℕ) (weight : E) : StableGraph N E :=
  { graph with
    edges := graph.edges.push ⟨source, target, weight⟩
    recent := graph.edges.next :: graph.recent }

def nodeWeight (graph : StableGraph N E) (ix : ℕ) : Option N := graph.nodes.lookup ix

def edgeWeight (graph : StableGraph N E) (ix : ℕ) : Option E :=
  (graph.edges.lookup ix).map Edge.weight

def setNodeWeight (graph : StableGraph N E) (ix : ℕ) (weight : N) : StableGraph N E :=
  { graph with nodes := graph.nodes.set ix weight }

/-- Replace the weight of an edge; its ends stay. -/
def setEdgeWeight (graph : StableGraph N E) (ix : ℕ) (weight : E) : StableGraph N E :=
  match graph.edges.lookup ix with
  | none => graph
  | some edge => { graph with edges := graph.edges.set ix { edge with weight := weight } }

def removeEdge (graph : StableGraph N E) (ix : ℕ) : StableGraph N E :=
  { graph with
    edges := graph.edges.remove ix
    recent := graph.recent.filter (· ≠ ix) }

/-- The edges that leave a node, and then those that enter it. -/
def outgoing (graph : StableGraph N E) (ix : ℕ) : List ℕ :=
  graph.recent.filter fun edge => (graph.edges.lookup edge).any (·.source = ix)

def incoming (graph : StableGraph N E) (ix : ℕ) : List ℕ :=
  graph.recent.filter fun edge => (graph.edges.lookup edge).any (·.target = ix)

/-- Remove a node and the edges at it, those that leave it first. -/
def removeNode (graph : StableGraph N E) (ix : ℕ) : StableGraph N E :=
  match graph.nodes.lookup ix with
  | none => graph
  | some _ =>
      let cleared := (graph.outgoing ix).foldl removeEdge graph
      let cleared := (cleared.incoming ix).foldl removeEdge cleared
      { cleared with nodes := cleared.nodes.remove ix }

/-- The weights of the nodes. -/
def nodeWeights (graph : StableGraph N E) : List N := graph.nodes.cells.values

/-! ## What removing does -/

variable {graph : StableGraph N E} {ix eid : ℕ}

@[simp] theorem nodes_removeEdge : (graph.removeEdge eid).nodes = graph.nodes := rfl

theorem edges_removeEdge (other : ℕ) :
    (graph.removeEdge eid).edges.lookup other =
      if other = eid then none else graph.edges.lookup other :=
  graph.edges.lookup_remove eid other

theorem nodes_foldl_removeEdge (gone : List ℕ) :
    (gone.foldl removeEdge graph).nodes = graph.nodes := by
  induction gone generalizing graph with
  | nil => rfl
  | cons eid gone ih => rw [List.foldl_cons, ih, nodes_removeEdge]

theorem edges_foldl_removeEdge (gone : List ℕ) (other : ℕ) :
    (gone.foldl removeEdge graph).edges.lookup other =
      if other ∈ gone then none else graph.edges.lookup other := by
  induction gone generalizing graph with
  | nil => rfl
  | cons eid gone ih =>
      rw [List.foldl_cons, ih, edges_removeEdge]
      simp only [List.mem_cons]
      split <;> split <;> simp_all

/-- The list of edges has exactly the edges of the graph. -/
def Listed (graph : StableGraph N E) : Prop :=
  ∀ eid, eid ∈ graph.recent ↔ (graph.edges.lookup eid).isSome = true

theorem Listed.addEdge (listed : graph.Listed) (source target : ℕ) (weight : E) :
    (graph.addEdge source target weight).Listed := by
  intro eid
  rw [StableGraph.addEdge, List.mem_cons, Slots.lookup_push, listed]
  split
  · next same => simp [same]
  · next other => simp [other]

theorem Listed.removeEdge (listed : graph.Listed) : (graph.removeEdge eid).Listed := by
  intro other
  rw [edges_removeEdge, StableGraph.removeEdge, List.mem_filter, listed]
  split
  · next same => simp [same]
  · next distinct => simp [distinct]

theorem Listed.foldl_removeEdge (listed : graph.Listed) (gone : List ℕ) :
    (gone.foldl StableGraph.removeEdge graph).Listed := by
  induction gone generalizing graph with
  | nil => exact listed
  | cons eid gone ih => exact ih listed.removeEdge

theorem Listed.mem_outgoing (listed : graph.Listed) :
    eid ∈ graph.outgoing ix ↔ ∃ edge, graph.edges.lookup eid = some edge ∧ edge.source = ix := by
  rw [outgoing, List.mem_filter, listed, Option.any_eq_true]
  simp only [decide_eq_true_eq, Option.isSome_iff_exists]
  constructor
  · exact fun both => both.2
  · exact fun found => ⟨found.imp fun _ => And.left, found⟩

theorem Listed.mem_incoming (listed : graph.Listed) :
    eid ∈ graph.incoming ix ↔ ∃ edge, graph.edges.lookup eid = some edge ∧ edge.target = ix := by
  rw [incoming, List.mem_filter, listed, Option.any_eq_true]
  simp only [decide_eq_true_eq, Option.isSome_iff_exists]
  constructor
  · exact fun both => both.2
  · exact fun found => ⟨found.imp fun _ => And.left, found⟩

/-- A graph without the edges at a node. -/
def cleared (graph : StableGraph N E) (ix : ℕ) : StableGraph N E :=
  let left := (graph.outgoing ix).foldl removeEdge graph
  (left.incoming ix).foldl removeEdge left

theorem Listed.cleared (listed : graph.Listed) : (graph.cleared ix).Listed :=
  (listed.foldl_removeEdge _).foldl_removeEdge _

theorem nodes_cleared : (graph.cleared ix).nodes = graph.nodes := by
  simp only [StableGraph.cleared, nodes_foldl_removeEdge]

/-- The edges that are left run between other nodes. -/
theorem Listed.edges_cleared (listed : graph.Listed) (edge : Edge E) :
    (graph.cleared ix).edges.lookup eid = some edge ↔
      graph.edges.lookup eid = some edge ∧ edge.source ≠ ix ∧ edge.target ≠ ix := by
  have first := listed.foldl_removeEdge (graph.outgoing ix)
  simp only [StableGraph.cleared, edges_foldl_removeEdge, first.mem_incoming]
  by_cases leaves : eid ∈ graph.outgoing ix
  · obtain ⟨other, found, source⟩ := listed.mem_outgoing.mp leaves
    simp only [leaves, if_true, reduceCtorEq, false_and, exists_false, if_false, false_iff]
    rintro ⟨same, apart, _⟩
    rw [found] at same
    cases same
    exact apart source
  · simp only [leaves, if_false]
    have apart : ∀ other, graph.edges.lookup eid = some other → other.source ≠ ix :=
      fun other found source => leaves (listed.mem_outgoing.mpr ⟨other, found, source⟩)
    split
    · next entering =>
        obtain ⟨other, found, target⟩ := entering
        simp only [reduceCtorEq, false_iff]
        rintro ⟨same, _, far⟩
        rw [found] at same
        cases same
        exact far target
    · next staying =>
        constructor
        · exact fun found => ⟨found, apart edge found, fun target => staying ⟨edge, found, target⟩⟩
        · exact fun both => both.1

theorem removeNode_occupied (occupied : (graph.nodes.lookup ix).isSome = true) :
    graph.removeNode ix =
      { graph.cleared ix with nodes := (graph.cleared ix).nodes.remove ix } := by
  obtain ⟨weight, found⟩ := Option.isSome_iff_exists.mp occupied
  rw [removeNode, found]
  rfl

end StableGraph

end Library
