import Mathlib.Tactic.Common

/-!
# A mirror of a graph, kept from notices

A source holds nodes and edges. It publishes a notice for every row that it changes, and a
mirror looks the row up when it comes to the notice, which may be much later: the row it
finds is then the one of a later change. Dropping a node drops the edges at it, and an edge
enters only between nodes that are present, so a mirror need not end up with what the source
wants it to have.

`Source.Announces` says how a change has to be announced for that: a notice of a node is of a
node that is wanted, and a notice of an edge between wanted nodes is of an edge that is wanted;
an edge that is in force keeps its ends; and a node does not come back under an edge that is
then in force and not announced again. Then
`Synced` is an invariant: it holds at the start, every announced change keeps it and so does
every notice the mirror comes to; and when no notice is left the mirror is the image of the
source (`Synced.mirror_eq`).
-/

namespace Library

/-- An edge between two nodes. -/
structure Link (N W : Type*) where
  weight : W
  source : N
  target : N

/-- A node is an end of an edge. -/
def Link.Joins {N W : Type*} (link : Link N W) (x : N) : Prop := link.source = x ∨ link.target = x

instance {N W : Type*} [DecidableEq N] (link : Link N W) (x : N) : Decidable (link.Joins x) :=
  inferInstanceAs (Decidable (_ ∨ _))

/-- Two edges have the same ends. -/
def Link.SameEnds {N W : Type*} (left right : Link N W) : Prop :=
  left.source = right.source ∧ left.target = right.target

/-- Nodes and edges by their identities. -/
@[ext] structure IdGraph (N E V W : Type*) where
  node : N → Option V
  edge : E → Option (Link N W)

/-- What is told about a change. -/
inductive Notice (N E : Type*) where
  | node (x : N)
  | dropNode (x : N)
  | edge (r : E)
  | dropEdge (r : E)
  | pass
deriving DecidableEq

namespace Notice

variable {N E W : Type*}

/-- The notice is about a node. -/
def OfNode : Notice N E → Prop
  | .node _ | .dropNode _ => True
  | _ => False

/-- The notice is about an edge. -/
def OfEdge : Notice N E → Prop
  | .edge _ | .dropEdge _ => True
  | _ => False

/-- The notice takes an edge out of the mirror. -/
def Cuts (r : E) (link : Link N W) : Notice N E → Prop
  | .dropNode x => link.Joins x
  | .dropEdge q => q = r
  | _ => False

theorem Cuts.congr {notice : Notice N E} {r : E} {left right : Link N W}
    (cuts : notice.Cuts r left) (same : right.SameEnds left) : notice.Cuts r right := by
  cases notice with
  | dropNode x => exact cuts.imp same.1.trans same.2.trans
  | dropEdge q => exact cuts
  | node x => exact cuts
  | edge q => exact cuts
  | pass => exact cuts

end Notice

namespace IdGraph

variable {N E V W : Type*}

/-- Every edge runs between nodes of the graph. -/
def Closed (g : IdGraph N E V W) : Prop :=
  ∀ r link, g.edge r = some link → g.node link.source ≠ none ∧ g.node link.target ≠ none

section Nodes

variable [DecidableEq N] {g : IdGraph N E V W} {x y : N} {r : E} {link : Link N W} {value : V}

def setNode (g : IdGraph N E V W) (x : N) (value : V) : IdGraph N E V W :=
  { g with node := Function.update g.node x (some value) }

/-- The node leaves with the edges at it. -/
def dropNode (g : IdGraph N E V W) (x : N) : IdGraph N E V W where
  node := Function.update g.node x none
  edge r := (g.edge r).filter fun link => !decide (link.Joins x)

@[simp] theorem node_setNode_self : (g.setNode x value).node x = some value :=
  Function.update_self _ _ _

@[simp] theorem node_setNode_of_ne (distinct : y ≠ x) : (g.setNode x value).node y = g.node y :=
  Function.update_of_ne distinct _ _

@[simp] theorem node_dropNode_self : (g.dropNode x).node x = none :=
  Function.update_self _ _ _

@[simp] theorem node_dropNode_of_ne (distinct : y ≠ x) : (g.dropNode x).node y = g.node y :=
  Function.update_of_ne distinct _ _

theorem edge_dropNode_eq_some :
    (g.dropNode x).edge r = some link ↔ g.edge r = some link ∧ ¬ link.Joins x := by
  rw [dropNode, Option.filter_eq_some_iff]
  simp

theorem edge_dropNode_some (kept : (g.dropNode x).edge r = some link) :
    g.edge r = some link ∧ ¬ link.Joins x :=
  edge_dropNode_eq_some.mp kept

theorem edge_dropNode_none (gone : (g.dropNode x).edge r = none) :
    g.edge r = none ∨ ∃ link, g.edge r = some link ∧ link.Joins x := by
  cases found : g.edge r with
  | none => exact .inl rfl
  | some link =>
      refine .inr ⟨link, rfl, ?_⟩
      have filtered := Option.filter_eq_none_iff.mp gone link found
      simpa using filtered

theorem Closed.setNode (closed : g.Closed) : (g.setNode x value).Closed := by
  have present {y : N} (there : g.node y ≠ none) : (g.setNode x value).node y ≠ none := by
    by_cases same : y = x
    · subst same
      simp
    · rwa [node_setNode_of_ne same]
  intro r link found
  obtain ⟨source, target⟩ := closed r link found
  exact ⟨present source, present target⟩

theorem Closed.dropNode (closed : g.Closed) : (g.dropNode x).Closed := by
  intro r link kept
  obtain ⟨found, apart⟩ := edge_dropNode_some kept
  rw [node_dropNode_of_ne fun same => apart (.inl same),
    node_dropNode_of_ne fun same => apart (.inr same)]
  exact closed r link found

end Nodes

section Edges

variable [DecidableEq E] {g : IdGraph N E V W} {r q : E} {link : Link N W}

/-- An edge enters between nodes that are present; one that is there keeps its ends. -/
def setEdge (g : IdGraph N E V W) (r : E) (link : Link N W) : IdGraph N E V W :=
  let entered := (g.edge r).elim link fun old => { old with weight := link.weight }
  if (g.node link.source).isSome ∧ (g.node link.target).isSome then
    { g with edge := Function.update g.edge r (some entered) }
  else g

def dropEdge (g : IdGraph N E V W) (r : E) : IdGraph N E V W :=
  { g with edge := Function.update g.edge r none }

@[simp] theorem node_setEdge : (g.setEdge q link).node = g.node := by
  simp only [setEdge]
  split <;> rfl

@[simp] theorem edge_setEdge_of_ne (distinct : r ≠ q) :
    (g.setEdge q link).edge r = g.edge r := by
  simp only [setEdge]
  split
  · exact Function.update_of_ne distinct _ _
  · rfl

/-- An edge between present nodes is there afterwards, with the ends it had. -/
theorem edge_setEdge_self (source : g.node link.source ≠ none)
    (target : g.node link.target ≠ none) :
    (g.setEdge q link).edge q =
      some ((g.edge q).elim link fun old => { old with weight := link.weight }) := by
  simp only [setEdge]
  rw [if_pos ⟨Option.isSome_iff_ne_none.mpr source, Option.isSome_iff_ne_none.mpr target⟩]
  exact Function.update_self _ _ _

/-- An edge with an absent end changes nothing. -/
theorem setEdge_absent (absent : g.node link.source = none ∨ g.node link.target = none) :
    g.setEdge q link = g := by
  simp only [setEdge]
  rw [if_neg]
  rintro ⟨source, target⟩
  rcases absent with missing | missing
  · rw [missing] at source
    cases source
  · rw [missing] at target
    cases target

@[simp] theorem edge_dropEdge_self : (g.dropEdge q).edge q = none :=
  Function.update_self _ _ _

@[simp] theorem edge_dropEdge_of_ne (distinct : r ≠ q) : (g.dropEdge q).edge r = g.edge r :=
  Function.update_of_ne distinct _ _

theorem Closed.dropEdge (closed : g.Closed) : (g.dropEdge q).Closed := by
  intro r link found
  by_cases same : r = q
  · subst same
    rw [edge_dropEdge_self] at found
    cases found
  · rw [edge_dropEdge_of_ne same] at found
    exact closed r link found

theorem Closed.setEdge (closed : g.Closed) : (g.setEdge q link).Closed := by
  intro r other found
  rw [node_setEdge]
  by_cases same : r = q
  · subst same
    by_cases present : g.node link.source ≠ none ∧ g.node link.target ≠ none
    · rw [edge_setEdge_self present.1 present.2] at found
      cases before : g.edge r with
      | none =>
          rw [before] at found
          cases found
          exact present
      | some old =>
          rw [before] at found
          cases found
          exact closed r old before
    · rw [setEdge_absent (by tauto)] at found
      exact closed r other found
  · rw [edge_setEdge_of_ne same] at found
    exact closed r other found

end Edges

variable [DecidableEq N] [DecidableEq E]

/-- One notice, with the rows looked up in the graph that is held. -/
def follow (held g : IdGraph N E V W) : Notice N E → IdGraph N E V W
  | .node x => match held.node x with
      | some value => g.setNode x value
      | none => g.dropNode x
  | .dropNode x => g.dropNode x
  | .edge r => match held.edge r with
      | some link => g.setEdge r link
      | none => g
  | .dropEdge r => g.dropEdge r
  | .pass => g

variable {held g : IdGraph N E V W} {notice : Notice N E} {x : N} {r : E} {link : Link N W}

theorem node_follow_of_ne (node : notice ≠ .node x) (drop : notice ≠ .dropNode x) :
    (held.follow g notice).node x = g.node x := by
  cases notice with
  | node y =>
      have other : x ≠ y := fun same => node (same ▸ rfl)
      rw [follow]
      split
      · exact node_setNode_of_ne other
      · exact node_dropNode_of_ne other
  | dropNode y => exact node_dropNode_of_ne fun same => drop (same ▸ rfl)
  | edge q =>
      rw [follow]
      split
      · rw [node_setEdge]
      · rfl
  | dropEdge q => rfl
  | pass => rfl

/-- Only its own notices bring an edge in or change its weight. -/
theorem edge_follow_some (edge : notice ≠ .edge r)
    (found : (held.follow g notice).edge r = some link) :
    g.edge r = some link ∧ ¬ notice.Cuts r link := by
  cases notice with
  | node y =>
      rw [follow] at found
      split at found
      · exact ⟨found, id⟩
      · exact ⟨(edge_dropNode_some found).1, id⟩
  | dropNode y => exact edge_dropNode_some found
  | edge q =>
      have other : r ≠ q := fun same => edge (same ▸ rfl)
      rw [follow] at found
      split at found
      · rw [edge_setEdge_of_ne other] at found
        exact ⟨found, id⟩
      · exact ⟨found, id⟩
  | dropEdge q =>
      by_cases same : r = q
      · subst same
        rw [follow, edge_dropEdge_self] at found
        cases found
      · rw [follow, edge_dropEdge_of_ne same] at found
        exact ⟨found, fun cuts => same cuts.symm⟩
  | pass => exact ⟨found, id⟩

/-- What takes an edge out, other than a notice about it. -/
theorem edge_follow_none (edge : notice ≠ .edge r) (drop : notice ≠ .dropEdge r)
    (gone : (held.follow g notice).edge r = none) :
    g.edge r = none ∨ ∃ link x, g.edge r = some link ∧ link.Joins x ∧
      (notice = .dropNode x ∨ notice = .node x ∧ held.node x = none) := by
  cases notice with
  | node y =>
      rw [follow] at gone
      split at gone
      · exact .inl gone
      · next missing =>
          rcases edge_dropNode_none gone with before | ⟨link, found, joins⟩
          · exact .inl before
          · exact .inr ⟨link, y, found, joins, .inr ⟨rfl, missing⟩⟩
  | dropNode y =>
      rcases edge_dropNode_none gone with before | ⟨link, found, joins⟩
      · exact .inl before
      · exact .inr ⟨link, y, found, joins, .inl rfl⟩
  | edge q =>
      have other : r ≠ q := fun same => edge (same ▸ rfl)
      rw [follow] at gone
      split at gone
      · rw [edge_setEdge_of_ne other] at gone
        exact .inl gone
      · exact .inl gone
  | dropEdge q =>
      have other : r ≠ q := fun same => drop (same ▸ rfl)
      rw [follow, edge_dropEdge_of_ne other] at gone
      exact .inl gone
  | pass => exact .inl gone

theorem Closed.follow (closed : g.Closed) (held : IdGraph N E V W) (notice : Notice N E) :
    (held.follow g notice).Closed := by
  cases notice with
  | node x =>
      rw [IdGraph.follow]
      split
      · exact closed.setNode
      · exact closed.dropNode
  | dropNode x => exact closed.dropNode
  | edge r =>
      rw [IdGraph.follow]
      split
      · exact closed.setEdge
      · exact closed
  | dropEdge r => exact closed.dropEdge
  | pass => exact closed

end IdGraph

/-! ## Notices in order -/

section Order

variable {N E : Type*}

/-- No notice is about the edge. -/
def Quiet (r : E) (notices : List (Notice N E)) : Prop :=
  .edge r ∉ notices ∧ .dropEdge r ∉ notices

theorem Quiet.nil (r : E) : Quiet r ([] : List (Notice N E)) :=
  ⟨List.not_mem_nil, List.not_mem_nil⟩

variable {front : List (Notice N E)}

variable {back notices : List (Notice N E)} {r : E}

theorem quiet_append : Quiet r (front ++ back) ↔ Quiet r front ∧ Quiet r back := by
  simp only [Quiet, List.mem_append]
  tauto

theorem Quiet.cons {r : E} {notice : Notice N E} {notices : List (Notice N E)}
    (quiet : Quiet r notices) (edge : notice ≠ .edge r) (drop : notice ≠ .dropEdge r) :
    Quiet r (notice :: notices) :=
  ⟨fun member => (List.mem_cons.mp member).elim (fun same => edge same.symm) quiet.1,
    fun member => (List.mem_cons.mp member).elim (fun same => drop same.symm) quiet.2⟩

/-- The last notice about an edge. -/
theorem exists_last_notice (named : ¬ Quiet r notices) :
    ∃ front notice back, notices = front ++ notice :: back ∧
      (notice = .edge r ∨ notice = .dropEdge r) ∧ Quiet r back := by
  induction notices with
  | nil => exact absurd (Quiet.nil r) named
  | cons notice notices ih =>
      by_cases quiet : Quiet r notices
      · refine ⟨[], notice, notices, rfl, ?_, quiet⟩
        by_contra neither
        exact named (quiet.cons (fun same => neither (.inl same)) fun same => neither (.inr same))
      · obtain ⟨front, last, back, rfl, about, after⟩ := ih quiet
        exact ⟨notice :: front, last, back, rfl, about, after⟩

/-- An entry of two lists joined is in the one or in the other. -/
theorem append_eq_split {α : Type*} {first second front back : List α} {x : α}
    (split : first ++ second = front ++ x :: back) :
    (∃ rest, first = front ++ x :: rest ∧ back = rest ++ second) ∨
      ∃ mid, front = first ++ mid ∧ second = mid ++ x :: back := by
  rcases List.append_eq_append_iff.mp split with ⟨mid, left, right⟩ | ⟨rest, left, right⟩
  · exact .inr ⟨mid, left, right⟩
  · cases rest with
    | nil => exact .inr ⟨[], by simpa using left.symm, by simpa using right.symm⟩
    | cons y rest =>
        rw [List.cons_append, List.cons.injEq] at right
        obtain ⟨rfl, rfl⟩ := right
        exact .inl ⟨rest, left, rfl⟩

/-- The notices of nodes come before those of edges. -/
def NodesFirst (notices : List (Notice N E)) : Prop :=
  ∃ nodes edges, notices = nodes ++ edges ∧ (∀ notice ∈ nodes, ¬ notice.OfEdge) ∧
    ∀ notice ∈ edges, ¬ notice.OfNode

theorem NodesFirst.edge_after {x : N} (ordered : NodesFirst notices)
    (split : notices = front ++ .node x :: back) (named : .edge r ∈ notices) : .edge r ∈ back := by
  obtain ⟨nodes, edges, rfl, nodesOnly, edgesOnly⟩ := ordered
  rcases append_eq_split split with ⟨rest, first, rfl⟩ | ⟨mid, rfl, second⟩
  · rcases List.mem_append.mp named with early | late
    · exact absurd trivial (nodesOnly _ early)
    · exact List.mem_append_right _ late
  · exact absurd trivial (edgesOnly (.node x) (second ▸ List.mem_append_right _ List.mem_cons_self))

theorem NodesFirst.edges_after (ordered : NodesFirst notices)
    (split : notices = front ++ .edge r :: back) : ∀ notice ∈ back, ¬ notice.OfNode := by
  obtain ⟨nodes, edges, rfl, nodesOnly, edgesOnly⟩ := ordered
  rcases append_eq_split split with ⟨rest, first, rfl⟩ | ⟨mid, rfl, second⟩
  · exact absurd trivial (nodesOnly (.edge r) (first ▸ List.mem_append_right _ List.mem_cons_self))
  · intro notice member
    exact edgesOnly notice (second ▸ List.mem_append_right _ (List.mem_cons_of_mem _ member))

variable [DecidableEq N]

/-- Whether a node is up after a notice. -/
def upStep (x : N) (up : Bool) : Notice N E → Bool
  | .node y => up || decide (y = x)
  | .dropNode y => up && !decide (y = x)
  | _ => up

/-- Whether a node is up after some notices. -/
def upAfter (x : N) (up : Bool) (notices : List (Notice N E)) : Bool := notices.foldl (upStep x) up

variable {x : N} {up : Bool} {notices front back : List (Notice N E)}

theorem upAfter_append :
    upAfter x up (front ++ back) = upAfter x (upAfter x up front) back :=
  List.foldl_append

theorem upAfter_of_fixed (fixed : ∀ notice ∈ notices, upStep x up notice = up) :
    upAfter x up notices = up := by
  induction notices with
  | nil => rfl
  | cons notice notices ih =>
      rw [upAfter, List.foldl_cons, fixed notice List.mem_cons_self]
      exact ih fun other member => fixed other (List.mem_cons_of_mem _ member)

theorem upStep_node_of_ne {y : N} (other : y ≠ x) :
    upStep x up (.node y : Notice N E) = up := by
  simp [upStep, other]

theorem upStep_dropNode_of_ne {y : N} (other : y ≠ x) :
    upStep x up (.dropNode y : Notice N E) = up := by
  simp [upStep, other]

theorem upStep_of_ne {notice : Notice N E} (node : notice ≠ .node x)
    (drop : notice ≠ .dropNode x) : upStep x up notice = up := by
  cases notice with
  | node y => exact upStep_node_of_ne fun same => node (same ▸ rfl)
  | dropNode y => exact upStep_dropNode_of_ne fun same => drop (same ▸ rfl)
  | edge r => rfl
  | dropEdge r => rfl
  | pass => rfl

theorem upStep_node_self : upStep x up (.node x : Notice N E) = true := by simp [upStep]

theorem upStep_dropNode_self : upStep x up (.dropNode x : Notice N E) = false := by simp [upStep]

theorem upAfter_unnamed (node : .node x ∉ notices) (drop : .dropNode x ∉ notices) :
    upAfter x up notices = up := by
  apply upAfter_of_fixed
  intro notice member
  exact upStep_of_ne (fun same => node (same ▸ member)) fun same => drop (same ▸ member)

theorem upAfter_of_not_drop (kept : .dropNode x ∉ notices) : upAfter x true notices = true := by
  apply upAfter_of_fixed
  intro notice member
  cases notice with
  | dropNode y => exact upStep_dropNode_of_ne fun same => kept (same ▸ member)
  | node y => rfl
  | edge r => rfl
  | dropEdge r => rfl
  | pass => rfl

theorem upAfter_of_not_node (absent : .node x ∉ notices) : upAfter x false notices = false := by
  apply upAfter_of_fixed
  intro notice member
  cases notice with
  | node y => exact upStep_node_of_ne fun same => absent (same ▸ member)
  | dropNode y => rfl
  | edge r => rfl
  | dropEdge r => rfl
  | pass => rfl

theorem mem_of_upAfter_false (down : upAfter x true notices = false) : .dropNode x ∈ notices := by
  by_contra kept
  rw [upAfter_of_not_drop kept] at down
  cases down

/-- A node that is set and not dropped is up. -/
theorem upAfter_of_node (node : .node x ∈ notices) (kept : .dropNode x ∉ notices) :
    upAfter x up notices = true := by
  obtain ⟨front, back, rfl⟩ := List.append_of_mem node
  rw [upAfter_append, upAfter, List.foldl_cons, upStep_node_self]
  exact upAfter_of_not_drop fun member =>
    kept (List.mem_append_right _ (List.mem_cons_of_mem _ member))

/-- A node that is dropped and not set is down. -/
theorem upAfter_of_drop (drop : .dropNode x ∈ notices) (absent : .node x ∉ notices) :
    upAfter x up notices = false := by
  obtain ⟨front, back, rfl⟩ := List.append_of_mem drop
  rw [upAfter_append, upAfter, List.foldl_cons, upStep_dropNode_self]
  exact upAfter_of_not_node fun member =>
    absent (List.mem_append_right _ (List.mem_cons_of_mem _ member))

/-- Notices that are not about nodes leave every node as it is. -/
theorem upAfter_of_edges (edges : ∀ notice ∈ notices, ¬ notice.OfNode) :
    upAfter x up notices = up :=
  upAfter_unnamed (fun member => edges _ member trivial) fun member => edges _ member trivial

end Order

/-! ## The source and its mirror -/

section Mirror

variable {N E V W : Type*}

/-- What a look-up finds, and what of it is wanted in a mirror. -/
structure Source (N E V W : Type*) where
  held : IdGraph N E V W
  wanted : IdGraph N E V W
  node_held : ∀ x value, wanted.node x = some value → held.node x = some value
  edge_held : ∀ r link, wanted.edge r = some link → held.edge r = some link

/-- The wanted nodes, and the wanted edges between them. -/
def Source.image (src : Source N E V W) : IdGraph N E V W where
  node := src.wanted.node
  edge r := (src.wanted.edge r).filter fun link =>
    (src.wanted.node link.source).isSome && (src.wanted.node link.target).isSome

/-- Both ends of an edge are wanted. -/
def Source.Between (src : Source N E V W) (link : Link N W) : Prop :=
  src.wanted.node link.source ≠ none ∧ src.wanted.node link.target ≠ none

variable {src : Source N E V W} {link : Link N W}

theorem Source.not_between (apart : ¬ src.Between link) :
    ∃ x, link.Joins x ∧ src.wanted.node x = none := by
  by_cases source : src.wanted.node link.source = none
  · exact ⟨link.source, .inl rfl, source⟩
  · by_cases target : src.wanted.node link.target = none
    · exact ⟨link.target, .inr rfl, target⟩
    · exact absurd ⟨source, target⟩ apart

theorem Source.Between.congr {left right : Link N W} (between : src.Between left)
    (same : left.SameEnds right) : src.Between right :=
  ⟨same.1 ▸ between.1, same.2 ▸ between.2⟩

variable {r : E}

theorem Source.image_edge_eq_some :
    src.image.edge r = some link ↔ src.wanted.edge r = some link ∧ src.Between link := by
  rw [Source.image, Option.filter_eq_some_iff, Bool.and_eq_true, Option.isSome_iff_ne_none,
    Option.isSome_iff_ne_none, Source.Between]

/-- A change of the source and its notices. -/
structure Source.Announces (src : Source N E V W) (notices : List (Notice N E))
    (next : Source N E V W) : Prop where
  nodes_first : NodesFirst notices
  node_unnamed : ∀ x, .node x ∉ notices → .dropNode x ∉ notices →
    next.wanted.node x = src.wanted.node x
  node_named : ∀ x, .node x ∈ notices → next.wanted.node x ≠ none
  node_dropped : ∀ x, .dropNode x ∈ notices → next.wanted.node x = none
  edge_unnamed : ∀ r, Quiet r notices → next.wanted.edge r = src.wanted.edge r
  edge_untouched : ∀ r, Quiet r notices → next.held.edge r = src.held.edge r
  edge_named : ∀ r, .edge r ∈ notices → ∃ link, next.held.edge r = some link ∧
    (next.Between link → next.wanted.edge r = some link) ∧
    ∀ old, src.wanted.edge r = some old → src.Between old → next.Between old → old.SameEnds link
  edge_dropped : ∀ r, .dropEdge r ∈ notices → next.wanted.edge r = none
  node_returns : ∀ x, .node x ∈ notices → src.wanted.node x = none → ∀ r link,
    next.wanted.edge r = some link → next.Between link → link.Joins x → .edge r ∈ notices

variable [DecidableEq N]

/-- What becomes of an edge at the last notice of it: it enters between its ends, or an end is
down then. An edge that is there keeps its ends, or is cut before. -/
def Enters (up : N → Bool) (src : Source N E V W) (mirror : IdGraph N E V W) (r : E)
    (front : List (Notice N E)) (link : Link N W) : Prop :=
  (src.wanted.edge r = some link ∧ upAfter link.source (up link.source) front = true ∧
    upAfter link.target (up link.target) front = true ∧
    ∀ other, mirror.edge r = some other → other.SameEnds link ∨ ∃ cut ∈ front, cut.Cuts r other) ∨
  ((∃ x, link.Joins x ∧ upAfter x (up x) front = false) ∧
    ∀ other, mirror.edge r = some other → ∃ cut ∈ front, cut.Cuts r other)

/-- The mirror is on its way: what it has, and the notices it has still to come to, lead to
what is wanted. `up` says which nodes are up after the notices it came to already. -/
structure Synced (up : N → Bool) (src : Source N E V W) (pending : List (Notice N E))
    (mirror : IdGraph N E V W) : Prop where
  closed : mirror.Closed
  up_after : ∀ x, upAfter x (up x) pending = (src.wanted.node x).isSome
  up_of_node : ∀ x, mirror.node x ≠ none → up x = true
  node_of_up : ∀ x, up x = true → mirror.node x = none → .dropNode x ∈ pending
  node_eq : ∀ x, .node x ∉ pending → .dropNode x ∉ pending →
    mirror.node x = src.wanted.node x
  edge_none : ∀ r, Quiet r pending → src.wanted.edge r = none → mirror.edge r = none
  edge_eq : ∀ r link other, Quiet r pending → src.wanted.edge r = some link →
    mirror.edge r = some other → other = link
  edge_gone : ∀ r link, Quiet r pending → src.wanted.edge r = some link → mirror.edge r = none →
    ∃ x, link.Joins x ∧ (up x = false ∨ .dropNode x ∈ pending)
  stays_up : ∀ r link x front back, src.wanted.edge r = some link → link.Joins x →
    pending = front ++ .node x :: back → Quiet r back → upAfter x (up x) front = true ∨
      ∃ y, link.Joins y ∧ (upAfter y (up y) (front ++ [.node x]) = false ∨ .dropNode y ∈ back)
  enters : ∀ r front back, pending = front ++ .edge r :: back → Quiet r back →
    ∃ link, src.held.edge r = some link ∧ Enters up src mirror r front link
  leaves : ∀ r front back, pending = front ++ .dropEdge r :: back → Quiet r back →
    src.wanted.edge r = none
  looked_up : ∀ r, .edge r ∈ pending → src.held.edge r ≠ none

namespace Synced

variable {up : N → Bool} {src next : Source N E V W} {pending : List (Notice N E)}
  {mirror : IdGraph N E V W}

/-- A mirror that has come to every notice is the image of its source. -/
theorem mirror_eq (synced : Synced up src [] mirror) : mirror = src.image := by
  have nodes (x : N) : mirror.node x = src.wanted.node x :=
    synced.node_eq x List.not_mem_nil List.not_mem_nil
  have edges (r : E) : mirror.edge r = src.image.edge r := by
    apply Option.ext
    intro link
    rw [Source.image_edge_eq_some]
    constructor
    · intro found
      cases wanted : src.wanted.edge r with
      | none =>
          rw [synced.edge_none r (.nil r) wanted] at found
          cases found
      | some other =>
          obtain rfl := synced.edge_eq r other link (.nil r) wanted found
          rw [Source.Between, ← nodes, ← nodes]
          exact ⟨rfl, synced.closed r link found⟩
    · rintro ⟨wanted, source, target⟩
      cases found : mirror.edge r with
      | none =>
          obtain ⟨x, joins, down | listed⟩ := synced.edge_gone r link (.nil r) wanted found
          · have absent : (src.wanted.node x).isSome = false := by
              rw [← synced.up_after x]
              exact down
            rw [Option.isSome_eq_false_iff, Option.isNone_iff_eq_none] at absent
            rcases joins with rfl | rfl
            · exact absurd absent source
            · exact absurd absent target
          · cases listed
      | some other => rw [synced.edge_eq r link other (.nil r) wanted found]
  exact IdGraph.ext (funext nodes) (funext edges)

/-- The image of a source is in step with it. -/
theorem start (src : Source N E V W) :
    Synced (fun x => (src.wanted.node x).isSome) src [] src.image where
  closed := by
    intro r link found
    exact (Source.image_edge_eq_some.mp found).2
  up_after _ := rfl
  up_of_node _ := Option.isSome_iff_ne_none.mpr
  node_of_up x isUp gone := by
    have absent : src.wanted.node x = none := gone
    rw [absent] at isUp
    cases isUp
  node_eq _ _ _ := rfl
  edge_none r _ wanted := by simp [Source.image, wanted]
  edge_eq r link other _ wanted found := by
    exact Option.some.inj ((Source.image_edge_eq_some.mp found).1.symm.trans wanted)
  edge_gone r link _ wanted gone := by
    have cut := Option.filter_eq_none_iff.mp gone link wanted
    by_cases source : (src.wanted.node link.source).isSome = true
    · refine ⟨link.target, .inr rfl, .inl ?_⟩
      simpa [source] using cut
    · exact ⟨link.source, .inl rfl, .inl (Bool.eq_false_iff.mpr source)⟩
  stays_up _ _ _ front _ _ _ split _ := by
    cases front <;> cases split
  enters _ front _ split _ := by
    cases front <;> cases split
  leaves _ front _ split _ := by
    cases front <;> cases split
  looked_up _ member := by cases member

variable {notices back : List (Notice N E)} {other : Link N W} {notice : Notice N E}

theorem up_announced (announces : src.Announces notices next) (x : N) :
    upAfter x (src.wanted.node x).isSome notices = (next.wanted.node x).isSome := by
  by_cases named : .node x ∈ notices
  · have present := announces.node_named x named
    rw [upAfter_of_node named fun dropped => present (announces.node_dropped x dropped)]
    exact (Option.isSome_iff_ne_none.mpr present).symm
  · by_cases dropped : .dropNode x ∈ notices
    · rw [upAfter_of_drop dropped named, announces.node_dropped x dropped]
      rfl
    · rw [upAfter_unnamed named dropped, announces.node_unnamed x named dropped]

/-- An edge of the mirror has the ends that are wanted, or will be cut. -/
theorem sameEnds_or_cut (synced : Synced up src pending mirror)
    (found : mirror.edge r = some link) :
    (∃ old, src.wanted.edge r = some old ∧ link.SameEnds old) ∨
      ∃ cut ∈ pending, cut.Cuts r link := by
  by_cases quiet : Quiet r pending
  · cases wanted : src.wanted.edge r with
    | none =>
        rw [synced.edge_none r quiet wanted] at found
        cases found
    | some old =>
        rw [synced.edge_eq r old link quiet wanted found]
        exact .inl ⟨old, rfl, rfl, rfl⟩
  · obtain ⟨front, notice, back, split, rfl | rfl, after⟩ := exists_last_notice quiet
    · obtain ⟨old, _, ⟨wanted, _, _, ends⟩ | ⟨_, cutAll⟩⟩ := synced.enters r front back split after
      · rcases ends link found with same | ⟨cut, member, cuts⟩
        · exact .inl ⟨old, wanted, same⟩
        · exact .inr ⟨cut, split ▸ List.mem_append_left _ member, cuts⟩
      · obtain ⟨cut, member, cuts⟩ := cutAll link found
        exact .inr ⟨cut, split ▸ List.mem_append_left _ member, cuts⟩
    · exact .inr ⟨.dropEdge r, split ▸ List.mem_append_right _ List.mem_cons_self, rfl⟩

variable {mid : List (Notice N E)}

section Announcing

variable (synced : Synced up src pending mirror) (announces : src.Announces notices next)
include synced announces

/-- An edge of the mirror is in force before and after a change, or is cut by the notices
before the one of an edge. -/
theorem inForce_or_cut (split : notices = mid ++ .edge r :: back)
    (found : mirror.edge r = some other) :
    (∃ old, src.wanted.edge r = some old ∧ other.SameEnds old ∧ src.Between old ∧
      next.Between old) ∨ ∃ cut ∈ pending ++ mid, cut.Cuts r other := by
  rcases synced.sameEnds_or_cut found with ⟨old, wanted, ends⟩ | ⟨cut, member, cuts⟩
  · by_cases before : src.Between old
    · by_cases after : next.Between old
      · exact .inl ⟨old, wanted, ends, before, after⟩
      · -- An end that is no longer wanted is dropped before the notices of edges.
        obtain ⟨x, joins, gone⟩ := Source.not_between after
        have joined : other.Joins x := joins.imp ends.1.trans ends.2.trans
        have there : src.wanted.node x ≠ none := joins.elim (· ▸ before.1) (· ▸ before.2)
        have dropped : .dropNode x ∈ notices := by
          by_contra kept
          have unnamed : .node x ∉ notices := fun named => announces.node_named x named gone
          exact there ((announces.node_unnamed x unnamed kept).symm.trans gone)
        rw [split, List.mem_append, List.mem_cons] at dropped
        rcases dropped with early | same | late
        · exact .inr ⟨.dropNode x, List.mem_append_right _ early, joined⟩
        · cases same
        · exact absurd trivial (announces.nodes_first.edges_after split _ late)
    · -- An end that is present and not wanted has a notice that drops it.
      obtain ⟨x, joins, gone⟩ := Source.not_between before
      have joined : other.Joins x := joins.imp ends.1.trans ends.2.trans
      obtain ⟨source, target⟩ := synced.closed r other found
      have present : mirror.node x ≠ none := joined.elim (· ▸ source) (· ▸ target)
      have down := synced.up_after x
      rw [synced.up_of_node x present, gone] at down
      exact .inr ⟨.dropNode x, List.mem_append_left _ (mem_of_upAfter_false down), joined⟩
  · exact .inr ⟨cut, List.mem_append_left _ member, cuts⟩

/-- No node changes after the notice of an edge. -/
theorem up_before_edge (split : notices = mid ++ .edge r :: back) (x : N) :
    upAfter x (up x) (pending ++ mid) = (next.wanted.node x).isSome := by
  have whole := up_announced announces x
  have tail : upAfter x (upAfter x (src.wanted.node x).isSome mid) (.edge r :: back) =
      upAfter x (src.wanted.node x).isSome mid :=
    upAfter_of_edges fun notice member => (List.mem_cons.mp member).elim
      (fun same => same ▸ id) (announces.nodes_first.edges_after split notice)
  rw [split, upAfter_append, tail] at whole
  rw [upAfter_append, synced.up_after, whole]

/-- An announced change keeps a mirror on its way. -/
theorem announce (found : ∀ r, .edge r ∈ pending ++ notices → next.held.edge r ≠ none) :
    Synced up next (pending ++ notices) mirror where
  closed := synced.closed
  up_after x := by
    rw [upAfter_append, synced.up_after, up_announced announces]
  up_of_node := synced.up_of_node
  node_of_up x isUp gone := List.mem_append_left _ (synced.node_of_up x isUp gone)
  node_eq x named dropped := by
    rw [List.mem_append, not_or] at named dropped
    rw [synced.node_eq x named.1 dropped.1, announces.node_unnamed x named.2 dropped.2]
  edge_none r quiet wanted := by
    obtain ⟨before, after⟩ := quiet_append.mp quiet
    rw [announces.edge_unnamed r after] at wanted
    exact synced.edge_none r before wanted
  edge_eq r link other quiet wanted there := by
    obtain ⟨before, after⟩ := quiet_append.mp quiet
    rw [announces.edge_unnamed r after] at wanted
    exact synced.edge_eq r link other before wanted there
  edge_gone r link quiet wanted gone := by
    obtain ⟨before, after⟩ := quiet_append.mp quiet
    rw [announces.edge_unnamed r after] at wanted
    obtain ⟨x, joins, down | listed⟩ := synced.edge_gone r link before wanted gone
    · exact ⟨x, joins, .inl down⟩
    · exact ⟨x, joins, .inr (List.mem_append_left _ listed)⟩
  stays_up r link x front back wanted joins split quiet := by
    rcases append_eq_split split with ⟨rest, first, rfl⟩ | ⟨mid, rfl, second⟩
    · obtain ⟨before, after⟩ := quiet_append.mp quiet
      rw [announces.edge_unnamed r after] at wanted
      rcases synced.stays_up r link x front rest wanted joins first before with
        isUp | ⟨y, joined, down | dropped⟩
      · exact .inl isUp
      · exact .inr ⟨y, joined, .inl down⟩
      · exact .inr ⟨y, joined, .inr (List.mem_append_left _ dropped)⟩
    · have named : .node x ∈ notices := second ▸ List.mem_append_right _ List.mem_cons_self
      have kept : .dropNode x ∉ notices := fun dropped =>
        announces.node_named x named (announces.node_dropped x dropped)
      by_cases absent : src.wanted.node x = none
      · by_cases between : next.Between link
        · -- The edge is announced again, and edges are announced after nodes.
          have again := announces.node_returns x named absent r link wanted between joins
          exact absurd (announces.nodes_first.edge_after second again) quiet.1
        · obtain ⟨y, joined, gone⟩ := Source.not_between between
          refine .inr ⟨y, joined, ?_⟩
          have unnamed : .node y ∉ notices := fun other => announces.node_named y other gone
          by_cases later : .dropNode y ∈ back
          · exact .inr later
          · -- Nothing after this notice changes the other end.
            left
            have whole := up_announced announces y
            have shape : notices = (mid ++ [.node x]) ++ back := by
              rw [second, List.append_assoc, List.singleton_append]
            rw [shape, upAfter_append, upAfter_unnamed (fun member => unnamed (shape ▸
              List.mem_append_right _ member)) later, gone] at whole
            rw [List.append_assoc, upAfter_append, synced.up_after, whole]
            rfl
      · left
        rw [upAfter_append, synced.up_after, Option.isSome_iff_ne_none.mpr absent]
        exact upAfter_of_not_drop fun dropped => kept (second ▸ List.mem_append_left _ dropped)
  enters r front back split quiet := by
    rcases append_eq_split split with ⟨rest, first, rfl⟩ | ⟨mid, rfl, second⟩
    · obtain ⟨before, after⟩ := quiet_append.mp quiet
      obtain ⟨link, held, enters⟩ := synced.enters r front rest first before
      refine ⟨link, (announces.edge_untouched r after).trans held, ?_⟩
      rw [Enters, announces.edge_unnamed r after]
      exact enters
    · have named : .edge r ∈ notices := second ▸ List.mem_append_right _ List.mem_cons_self
      obtain ⟨link, held, wanted, keeps⟩ := announces.edge_named r named
      have ups := synced.up_before_edge announces second
      refine ⟨link, held, ?_⟩
      by_cases between : next.Between link
      · refine .inl ⟨wanted between, ?_, ?_, fun other there => ?_⟩
        · rw [ups]
          exact Option.isSome_iff_ne_none.mpr between.1
        · rw [ups]
          exact Option.isSome_iff_ne_none.mpr between.2
        · rcases synced.inForce_or_cut announces second there with
            ⟨old, before, ends, wasBetween, isBetween⟩ | cut
          · have same := keeps old before wasBetween isBetween
            exact .inl ⟨ends.1.trans same.1, ends.2.trans same.2⟩
          · exact .inr cut
      · obtain ⟨x, joins, gone⟩ := Source.not_between between
        refine .inr ⟨⟨x, joins, by rw [ups, gone]; rfl⟩, fun other there => ?_⟩
        rcases synced.inForce_or_cut announces second there with
          ⟨old, before, ends, wasBetween, isBetween⟩ | cut
        · exact absurd (isBetween.congr (keeps old before wasBetween isBetween)) between
        · exact cut
  leaves r front back split quiet := by
    rcases append_eq_split split with ⟨rest, first, rfl⟩ | ⟨mid, rfl, second⟩
    · obtain ⟨before, after⟩ := quiet_append.mp quiet
      rw [announces.edge_unnamed r after]
      exact synced.leaves r front rest first before
    · exact announces.edge_dropped r (second ▸ List.mem_append_right _ List.mem_cons_self)
  looked_up := found

end Announcing

/-- A node whose row is missing when its notice comes will be dropped. -/
theorem dropped_of_missing {x : N} (synced : Synced up src (.node x :: pending) mirror)
    (missing : src.held.node x = none) : .dropNode x ∈ pending := by
  have unwanted : src.wanted.node x = none := by
    by_contra wanted
    obtain ⟨value, there⟩ := Option.ne_none_iff_exists'.mp wanted
    rw [src.node_held x value there] at missing
    cases missing
  have down := synced.up_after x
  rw [unwanted, upAfter, List.foldl_cons, upStep_node_self] at down
  exact mem_of_upAfter_false down

variable [DecidableEq E]

/-- The last notice of an edge brings in the edge that is wanted, unless an end is missing. -/
theorem edge_follow_edge (synced : Synced up src (.edge r :: pending) mirror)
    (quiet : Quiet r pending) :
    ∃ link, src.held.edge r = some link ∧
      ((src.wanted.edge r = some link ∧ (src.held.follow mirror (.edge r)).edge r = some link) ∨
        ((src.held.follow mirror (.edge r)).edge r = none ∧
          ∃ x, link.Joins x ∧ (up x = false ∨ .dropNode x ∈ pending))) := by
  obtain ⟨link, held, enters⟩ := synced.enters r [] pending rfl quiet
  have dropped {x : N} (isUp : up x = true) (absent : mirror.node x = none) :
      .dropNode x ∈ pending :=
    (List.mem_cons.mp (synced.node_of_up x isUp absent)).resolve_left (by simp)
  refine ⟨link, held, ?_⟩
  rw [IdGraph.follow, held]
  simp only
  rcases enters with ⟨wanted, sourceUp, targetUp, ends⟩ | ⟨⟨x, joins, down⟩, cutAll⟩
  · have same : ∀ other, mirror.edge r = some other → other.SameEnds link := by
      intro other found
      rcases ends other found with same | ⟨cut, member, _⟩
      · exact same
      · cases member
    by_cases source : mirror.node link.source = none
    · rw [IdGraph.setEdge_absent (.inl source)]
      refine .inr ⟨?_, link.source, .inl rfl, .inr (dropped sourceUp source)⟩
      by_contra present
      obtain ⟨other, found⟩ := Option.ne_none_iff_exists'.mp present
      exact (synced.closed r other found).1 ((same other found).1 ▸ source)
    · by_cases target : mirror.node link.target = none
      · rw [IdGraph.setEdge_absent (.inr target)]
        refine .inr ⟨?_, link.target, .inr rfl, .inr (dropped targetUp target)⟩
        by_contra present
        obtain ⟨other, found⟩ := Option.ne_none_iff_exists'.mp present
        exact (synced.closed r other found).2 ((same other found).2 ▸ target)
      · rw [IdGraph.edge_setEdge_self source target]
        refine .inl ⟨wanted, ?_⟩
        cases found : mirror.edge r with
        | none => rfl
        | some other =>
            obtain ⟨sameSource, sameTarget⟩ := same other found
            cases other with
            | mk weight source target =>
                cases sameSource
                cases sameTarget
                rfl
  · -- The missing end keeps the edge out.
    have down : up x = false := down
    have absent : mirror.node x = none := by
      by_contra present
      rw [synced.up_of_node x present] at down
      cases down
    have missing : mirror.node link.source = none ∨ mirror.node link.target = none := by
      rcases joins with rfl | rfl
      · exact .inl absent
      · exact .inr absent
    rw [IdGraph.setEdge_absent missing]
    refine .inr ⟨?_, x, joins, .inl down⟩
    by_contra present
    obtain ⟨other, found⟩ := Option.ne_none_iff_exists'.mp present
    obtain ⟨cut, member, _⟩ := cutAll other found
    cases member

/-- An edge that is not there is missing an end, now or after the notices that are left. -/
theorem gone_follow (synced : Synced up src (notice :: pending) mirror)
    (quiet : Quiet r (notice :: pending)) (wanted : src.wanted.edge r = some link)
    (gone : (src.held.follow mirror notice).edge r = none) :
    ∃ x, link.Joins x ∧ (upStep x (up x) notice = false ∨ .dropNode x ∈ pending) := by
  have edge : notice ≠ .edge r := fun same => quiet.1 (same ▸ List.mem_cons_self)
  have drop : notice ≠ .dropEdge r := fun same => quiet.2 (same ▸ List.mem_cons_self)
  rcases IdGraph.edge_follow_none edge drop gone with
    before | ⟨other, x, found, joins, rfl | ⟨rfl, missing⟩⟩
  · obtain ⟨x, joins, down | listed⟩ := synced.edge_gone r link quiet wanted before
    · by_cases node : notice = .node x
      · subst node
        rcases synced.stays_up r link x [] pending wanted joins rfl
          ⟨fun member => quiet.1 (List.mem_cons_of_mem _ member),
            fun member => quiet.2 (List.mem_cons_of_mem _ member)⟩ with isUp | other
        · exact absurd (isUp.symm.trans down) (by decide)
        · exact other
      · refine ⟨x, joins, .inl ?_⟩
        by_cases dropped : notice = .dropNode x
        · subst dropped
          exact upStep_dropNode_self
        · rw [upStep_of_ne node dropped]
          exact down
    · rcases List.mem_cons.mp listed with rfl | later
      · exact ⟨x, joins, .inl upStep_dropNode_self⟩
      · exact ⟨x, joins, .inr later⟩
  · rw [synced.edge_eq r link other quiet wanted found] at joins
    exact ⟨x, joins, .inl upStep_dropNode_self⟩
  · rw [synced.edge_eq r link other quiet wanted found] at joins
    exact ⟨x, joins, .inr (synced.dropped_of_missing missing)⟩

/-- An edge of the mirror after a notice: an edge that the notice does not cut, with its ends,
or one that the notice brought in. -/
theorem edge_of_follow (found : (src.held.follow mirror notice).edge r = some other) :
    (∃ old, mirror.edge r = some old ∧ other.SameEnds old ∧ ¬ notice.Cuts r old) ∨
      src.held.edge r = some other := by
  by_cases edge : notice = .edge r
  · subst edge
    rw [IdGraph.follow] at found
    split at found
    · next link held =>
        by_cases present : mirror.node link.source ≠ none ∧ mirror.node link.target ≠ none
        · rw [IdGraph.edge_setEdge_self present.1 present.2] at found
          cases before : mirror.edge r with
          | none =>
              rw [before] at found
              exact .inr (held.trans found)
          | some old =>
              rw [before] at found
              cases found
              exact .inl ⟨old, rfl, ⟨rfl, rfl⟩, id⟩
        · rw [IdGraph.setEdge_absent (by tauto)] at found
          exact .inl ⟨other, found, ⟨rfl, rfl⟩, id⟩
    · exact .inl ⟨other, found, ⟨rfl, rfl⟩, id⟩
  · obtain ⟨before, uncut⟩ := IdGraph.edge_follow_some edge found
    exact .inl ⟨other, before, ⟨rfl, rfl⟩, uncut⟩

/-- A node of the mirror after a notice is up. -/
theorem up_of_follow (synced : Synced up src (notice :: pending) mirror) {x : N}
    (present : (src.held.follow mirror notice).node x ≠ none) : upStep x (up x) notice = true := by
  by_cases node : notice = .node x
  · subst node
    exact upStep_node_self
  · by_cases drop : notice = .dropNode x
    · subst drop
      exact absurd IdGraph.node_dropNode_self present
    · rw [IdGraph.node_follow_of_ne node drop] at present
      rw [upStep_of_ne node drop]
      exact synced.up_of_node x present

/-- Coming to a notice keeps a mirror on its way. -/
theorem follow (synced : Synced up src (notice :: pending) mirror) :
    Synced (fun x => upStep x (up x) notice) src pending (src.held.follow mirror notice) where
  closed := synced.closed.follow src.held notice
  up_after := synced.up_after
  up_of_node _ := synced.up_of_follow
  node_of_up x isUp gone := by
    by_cases node : notice = .node x
    · subst node
      apply synced.dropped_of_missing
      rw [IdGraph.follow] at gone
      split at gone
      · rw [IdGraph.node_setNode_self] at gone
        cases gone
      · assumption
    · by_cases drop : notice = .dropNode x
      · subst drop
        rw [upStep_dropNode_self] at isUp
        cases isUp
      · rw [upStep_of_ne node drop] at isUp
        rw [IdGraph.node_follow_of_ne node drop] at gone
        exact (List.mem_cons.mp (synced.node_of_up x isUp gone)).resolve_left
          fun same => drop same.symm
  node_eq x named dropped := by
    have wanted := synced.up_after x
    rw [upAfter, List.foldl_cons] at wanted
    by_cases node : notice = .node x
    · subst node
      rw [upStep_node_self] at wanted
      have present : (src.wanted.node x).isSome = true :=
        wanted.symm.trans (upAfter_unnamed named dropped)
      obtain ⟨value, there⟩ := Option.isSome_iff_exists.mp present
      rw [IdGraph.follow, src.node_held x value there, there]
      exact IdGraph.node_setNode_self
    · by_cases drop : notice = .dropNode x
      · subst drop
        rw [upStep_dropNode_self] at wanted
        have absent : (src.wanted.node x).isSome = false :=
          wanted.symm.trans (upAfter_unnamed named dropped)
        rw [Option.isSome_eq_false_iff, Option.isNone_iff_eq_none] at absent
        rw [absent]
        exact IdGraph.node_dropNode_self
      · rw [IdGraph.node_follow_of_ne node drop]
        exact synced.node_eq x
          (fun member => (List.mem_cons.mp member).elim (fun same => node same.symm) named)
          fun member => (List.mem_cons.mp member).elim (fun same => drop same.symm) dropped
  edge_none r quiet unwanted := by
    by_cases edge : notice = .edge r
    · subst edge
      obtain ⟨link, _, ⟨wanted, _⟩ | ⟨outside, _⟩⟩ := synced.edge_follow_edge quiet
      · rw [wanted] at unwanted
        cases unwanted
      · exact outside
    · by_cases drop : notice = .dropEdge r
      · subst drop
        exact IdGraph.edge_dropEdge_self
      · by_contra present
        obtain ⟨link, found⟩ := Option.ne_none_iff_exists'.mp present
        have before := (IdGraph.edge_follow_some edge found).1
        rw [synced.edge_none r (quiet.cons edge drop) unwanted] at before
        cases before
  edge_eq r link other quiet wanted found := by
    by_cases edge : notice = .edge r
    · subst edge
      obtain ⟨entered, _, ⟨there, inside⟩ | ⟨outside, _⟩⟩ := synced.edge_follow_edge quiet
      · rw [inside] at found
        rw [there] at wanted
        exact (Option.some.inj found).symm.trans (Option.some.inj wanted)
      · rw [outside] at found
        cases found
    · by_cases drop : notice = .dropEdge r
      · subst drop
        rw [synced.leaves r [] pending rfl quiet] at wanted
        cases wanted
      · exact synced.edge_eq r link other (quiet.cons edge drop) wanted
          (IdGraph.edge_follow_some edge found).1
  edge_gone r link quiet wanted gone := by
    by_cases edge : notice = .edge r
    · subst edge
      obtain ⟨entered, there, ⟨_, inside⟩ | ⟨_, missing⟩⟩ := synced.edge_follow_edge quiet
      · rw [inside] at gone
        cases gone
      · rw [src.edge_held r link wanted] at there
        cases there
        exact missing
    · by_cases drop : notice = .dropEdge r
      · subst drop
        rw [synced.leaves r [] pending rfl quiet] at wanted
        cases wanted
      · exact synced.gone_follow (quiet.cons edge drop) wanted gone
  stays_up r link x front back wanted joins split quiet :=
    synced.stays_up r link x (notice :: front) back wanted joins (by rw [split]; rfl) quiet
  enters r front back split quiet := by
    obtain ⟨link, held, enters⟩ :=
      synced.enters r (notice :: front) back (by rw [split]; rfl) quiet
    refine ⟨link, held, ?_⟩
    rcases enters with ⟨wanted, source, target, ends⟩ | ⟨⟨x, joins, down⟩, cutAll⟩
    · refine .inl ⟨wanted, source, target, fun other found => ?_⟩
      rcases edge_of_follow found with ⟨old, before, same, uncut⟩ | entered
      · rcases ends old before with equal | ⟨cut, member, cuts⟩
        · exact .inl ⟨same.1.trans equal.1, same.2.trans equal.2⟩
        · rcases List.mem_cons.mp member with rfl | later
          · exact absurd cuts uncut
          · exact .inr ⟨cut, later, cuts.congr same⟩
      · rw [held] at entered
        cases entered
        exact .inl ⟨rfl, rfl⟩
    · refine .inr ⟨⟨x, joins, down⟩, fun other found => ?_⟩
      rcases edge_of_follow found with ⟨old, before, same, uncut⟩ | entered
      · obtain ⟨cut, member, cuts⟩ := cutAll old before
        rcases List.mem_cons.mp member with rfl | later
        · exact absurd cuts uncut
        · exact ⟨cut, later, cuts.congr same⟩
      · -- The edge entered between its ends, of which one goes down before the next notice of it.
        rw [held] at entered
        cases entered
        obtain ⟨sourceThere, targetThere⟩ := synced.closed.follow src.held notice r link found
        have present : (src.held.follow mirror notice).node x ≠ none :=
          joins.elim (· ▸ sourceThere) (· ▸ targetThere)
        have isUp := synced.up_of_follow present
        have falls : upAfter x (upStep x (up x) notice) front = false := down
        rw [isUp] at falls
        exact ⟨.dropNode x, mem_of_upAfter_false falls, joins⟩
  leaves r front back split quiet :=
    synced.leaves r (notice :: front) back (by rw [split]; rfl) quiet
  looked_up r member := synced.looked_up r (List.mem_cons_of_mem _ member)

end Synced

end Mirror

end Library
