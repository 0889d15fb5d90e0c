import Mathlib

/-!
# Bounded breadth-first walks

A walk takes the oldest node of its queue, looks at the edges there, and goes over those that
pass. An edge that leads to a node not met before adds to the output, and the node is queued
while it is not too deep. The walk stops once the output is long enough.

Whatever holds at the start and is carried along by the edges that pass holds wherever an edge
is looked at (`looked_from`). The edges at the start are looked at unless nothing may be put out
(`looked_start`). A walk whose passing edges lead into a finite set is over after as many rounds
as the set has nodes (`run_queue_eq_nil`).
-/

namespace Library

/-- A walk under way. `looked` records the edges that were looked at. -/
structure Walk (V E A : Type*) where
  out : List A
  queue : List (V × ℕ)
  seen : Finset V
  looked : List E

/-- A graph as a walk reads it: the edges at a node, where they lead, and what the ones that
pass put out, with the bounds of the walk. -/
structure WalkRules (V E A : Type*) where
  edgesAt : V → List E
  other : E → V
  passes : E → Option A
  maxDepth : ℕ
  maxNodes : ℕ

namespace WalkRules

variable {V E A : Type*} [DecidableEq V] (rules : WalkRules V E A)

/-- Look at an edge from a node at a depth. -/
def visit (depth : ℕ) (walk : Walk V E A) (edge : E) : Walk V E A :=
  let walk := { walk with looked := walk.looked ++ [edge] }
  match rules.passes edge with
  | none => walk
  | some reached =>
      if rules.other edge ∈ walk.seen then walk
      else
        { walk with
          out := walk.out ++ [reached]
          seen := insert (rules.other edge) walk.seen
          queue :=
            if depth + 1 < rules.maxDepth then walk.queue ++ [(rules.other edge, depth + 1)]
            else walk.queue }

/-- Take a node from the queue and look at its edges. -/
def round (walk : Walk V E A) : Walk V E A :=
  match walk.queue with
  | [] => walk
  | (node, depth) :: rest =>
      if rules.maxNodes ≤ walk.out.length then { walk with queue := [] }
      else (rules.edgesAt node).foldl (rules.visit depth) { walk with queue := rest }

def start (node : V) : Walk V E A := ⟨[], [(node, 0)], {node}, []⟩

/-- The walk from a node after a number of rounds. -/
def run (node : V) (rounds : ℕ) : Walk V E A := rules.round^[rounds] (start node)

theorem run_succ (node : V) (rounds : ℕ) :
    rules.run node (rounds + 1) = rules.round (rules.run node rounds) :=
  Function.iterate_succ_apply' _ _ _

/-! ## What is looked at -/

theorem visit_looked (depth : ℕ) (walk : Walk V E A) (edge : E) :
    (rules.visit depth walk edge).looked = walk.looked ++ [edge] := by
  unfold visit
  dsimp only
  split
  · rfl
  · split <;> rfl

theorem foldl_visit_looked (depth : ℕ) (edges : List E) (walk : Walk V E A) :
    (edges.foldl (rules.visit depth) walk).looked = walk.looked ++ edges := by
  induction edges generalizing walk with
  | nil => simp
  | cons edge edges ih => simp [ih, visit_looked]

variable {rules}

/-- A property of nodes that holds in the queue, and from where every edge was looked at. -/
structure Walk.From (rules : WalkRules V E A) (P : V → Prop) (walk : Walk V E A) : Prop where
  queued : ∀ entry ∈ walk.queue, P entry.1
  looked : ∀ edge ∈ walk.looked, ∃ node, P node ∧ edge ∈ rules.edgesAt node

variable {P : V → Prop} {walk : Walk V E A}

theorem Walk.From.visit (along : Walk.From rules P walk)
    (carried : ∀ edge reached, rules.passes edge = some reached → P (rules.other edge))
    {node : V} (holds : P node) {edge : E} (listed : edge ∈ rules.edgesAt node) (depth : ℕ) :
    Walk.From rules P (rules.visit depth walk edge) := by
  constructor
  · intro entry member
    unfold WalkRules.visit at member
    dsimp only at member
    split at member
    · exact along.queued entry member
    · next reached passes =>
        split at member
        · exact along.queued entry member
        · dsimp only at member
          split at member
          · rcases List.mem_append.mp member with old | new
            · exact along.queued entry old
            · rw [List.mem_singleton.mp new]
              exact carried edge reached passes
          · exact along.queued entry member
  · intro other member
    rw [visit_looked] at member
    rcases List.mem_append.mp member with old | new
    · exact along.looked other old
    · rw [List.mem_singleton.mp new]
      exact ⟨node, holds, listed⟩

theorem Walk.From.round (along : Walk.From rules P walk)
    (carried : ∀ edge reached, rules.passes edge = some reached → P (rules.other edge)) :
    Walk.From rules P (rules.round walk) := by
  unfold WalkRules.round
  split
  · exact along
  · next node depth rest queue =>
      have holds : P node := along.queued (node, depth) (queue ▸ List.mem_cons_self)
      split
      · exact ⟨fun _ member => absurd member List.not_mem_nil, along.looked⟩
      · have popped : Walk.From rules P { walk with queue := rest } :=
          ⟨fun entry member => along.queued entry (queue ▸ List.mem_cons_of_mem _ member),
            along.looked⟩
        exact List.foldlRecOn (rules.edgesAt node) _ popped fun _ before edge listed =>
          before.visit carried holds listed depth

variable (rules) in
/-- **Every edge is looked at from a node where the property holds**, when it holds at the start
and the edges that pass carry it along. -/
theorem looked_from {node : V} (holds : P node)
    (carried : ∀ edge reached, rules.passes edge = some reached → P (rules.other edge))
    (rounds : ℕ) :
    ∀ edge ∈ (rules.run node rounds).looked, ∃ at_, P at_ ∧ edge ∈ rules.edgesAt at_ := by
  have along : Walk.From rules P (rules.run node rounds) := by
    induction rounds with
    | zero =>
        refine ⟨fun entry member => ?_, fun _ member => absurd member List.not_mem_nil⟩
        rw [List.mem_singleton.mp member]
        exact holds
    | succ rounds ih => exact run_succ rules node rounds ▸ ih.round carried
  exact along.looked

/-- An edge that was looked at stays so. -/
theorem looked_round (walk : Walk V E A) : walk.looked ⊆ (rules.round walk).looked := by
  unfold round
  split
  · exact List.Subset.refl _
  · split
    · exact List.Subset.refl _
    · rw [foldl_visit_looked]
      exact List.subset_append_left _ _

variable (rules) in
/-- The edges at the start are looked at. -/
theorem looked_start (room : 0 < rules.maxNodes) (node : V) (rounds : ℕ) :
    rules.edgesAt node ⊆ (rules.run node (rounds + 1)).looked := by
  induction rounds with
  | zero =>
      have first : rules.run node 1 =
          (rules.edgesAt node).foldl (rules.visit 0) ⟨[], [], {node}, []⟩ :=
        if_neg (Nat.not_le.mpr room)
      rw [first, foldl_visit_looked, List.nil_append]
      exact List.Subset.refl _
  | succ rounds ih => exact List.Subset.trans ih (run_succ rules node (rounds + 1) ▸ looked_round _)

/-! ## The end of a walk -/

variable {nodes : Finset V}

/-- The nodes met lie in a set, and together with the queue they leave a number of rounds. -/
structure Walk.Ends (nodes : Finset V) (left : ℕ) (walk : Walk V E A) : Prop where
  inside : walk.seen ⊆ nodes
  room : walk.queue.length + nodes.card ≤ left + walk.seen.card

theorem Walk.Ends.visit {left : ℕ} (ends : Walk.Ends nodes left walk)
    (within : ∀ edge reached, rules.passes edge = some reached → rules.other edge ∈ nodes)
    (depth : ℕ) (edge : E) : Walk.Ends nodes left (rules.visit depth walk edge) := by
  unfold WalkRules.visit
  dsimp only
  split
  · exact ⟨ends.inside, ends.room⟩
  · next reached passes =>
      split
      · exact ⟨ends.inside, ends.room⟩
      · next fresh =>
          refine ⟨Finset.insert_subset (within edge reached passes) ends.inside, ?_⟩
          have room := ends.room
          have grows : (insert (rules.other edge) walk.seen).card = walk.seen.card + 1 :=
            Finset.card_insert_of_notMem fresh
          dsimp only
          rw [grows]
          split
          · rw [List.length_append, List.length_singleton]
            omega
          · omega

theorem Walk.Ends.round {left : ℕ} (ends : Walk.Ends nodes (left + 1) walk)
    (within : ∀ edge reached, rules.passes edge = some reached → rules.other edge ∈ nodes)
    (unfinished : (rules.round walk).queue ≠ []) : Walk.Ends nodes left (rules.round walk) := by
  have room := ends.room
  unfold WalkRules.round at unfinished ⊢
  split
  · next queue => simp [queue] at unfinished
  · next node depth rest queue =>
      rw [queue, List.length_cons] at room
      simp only [queue] at unfinished
      split
      · next full => simp [full] at unfinished
      · have popped : Walk.Ends nodes left { walk with queue := rest } :=
          ⟨ends.inside, by dsimp only; omega⟩
        exact List.foldlRecOn (rules.edgesAt node) _ popped fun _ before edge _ =>
          before.visit within depth edge

theorem round_queue_eq_nil (finished : walk.queue = []) : (rules.round walk).queue = [] := by
  unfold round
  rw [finished]
  exact finished

variable (rules) in
/-- **A walk is over after as many rounds as there are nodes**: its queue is empty. -/
theorem run_queue_eq_nil {node : V} (inside : node ∈ nodes)
    (within : ∀ edge reached, rules.passes edge = some reached → rules.other edge ∈ nodes) :
    (rules.run node nodes.card).queue = [] := by
  have under : ∀ rounds ≤ nodes.card, (rules.run node rounds).queue = [] ∨
      Walk.Ends nodes (nodes.card - rounds) (rules.run node rounds) := by
    intro rounds
    induction rounds with
    | zero =>
        refine fun _ => .inr ⟨Finset.singleton_subset_iff.mpr inside, ?_⟩
        change 1 + nodes.card ≤ nodes.card - 0 + ({node} : Finset V).card
        rw [Finset.card_singleton]
        omega
    | succ rounds ih =>
        intro few
        rw [run_succ]
        rcases ih (by omega) with finished | ends
        · exact .inl (round_queue_eq_nil finished)
        · by_cases finished : (rules.round (rules.run node rounds)).queue = []
          · exact .inl finished
          · have left : nodes.card - rounds = nodes.card - (rounds + 1) + 1 := by omega
            exact .inr ((left ▸ ends).round within finished)
  rcases under nodes.card le_rfl with finished | ends
  · exact finished
  · have few := Finset.card_le_card ends.inside
    have room := ends.room
    exact List.length_eq_zero_iff.mp (by omega)

end WalkRules

end Library
