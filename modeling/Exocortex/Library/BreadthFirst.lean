import Exocortex.Library.BoundedWalks

/-!
# What a bounded walk finds

`discovered` is the list of the nodes that a breadth-first search has met after it has expanded
some of them, with their depths; it knows nothing of queues and has no bound on the nodes. Its
depths are distances (`Layered.depth_le`), it lists the nodes by distance, and once nothing is
left to expand it has every node that is near enough (`Layered.complete`).

A walk is at each round at the list that belongs to the round, until it has put out enough
(`run_reaches`). It looks whether it has only between two expansions, and it expands the start
whatever its depth may be: it puts out what lies within `max 1 maxDepth` steps, and more than
`maxNodes` values exactly when one expansion passes over that number (`few_iff`).
-/

namespace Library

variable {V : Type*}

/-- A node is at most some steps away from another. -/
def StepsWithin (step : V → V → Prop) : ℕ → V → V → Prop
  | 0, start, node => node = start
  | bound + 1, start, node =>
      StepsWithin step bound start node ∨ ∃ last, StepsWithin step bound start last ∧ step last node

variable {step : V → V → Prop} {node : V} {entry : V × ℕ}

theorem StepsWithin.mono {start : V} {near far : ℕ} (le : near ≤ far)
    (within : StepsWithin step near start node) : StepsWithin step far start node := by
  induction le with
  | refl => exact within
  | step _ ih => exact .inl ih

theorem StepsWithin.congr {step' : V → V → Prop} (same : ∀ a b, step a b ↔ step' a b) {start : V} :
    ∀ {bound : ℕ} {node : V},
      StepsWithin step bound start node ↔ StepsWithin step' bound start node := by
  intro bound
  induction bound with
  | zero => exact Iff.rfl
  | succ bound ih =>
      intro node
      simp only [StepsWithin, ih, same]

/-! ## Depths are distances -/

section Distances

/-- The list of a search that has expanded the first so many of its nodes. -/
structure Layered (neighbors : V → List V) (deep : ℕ) (start : V) (expanded : ℕ)
    (met : List (V × ℕ)) : Prop where
  first : ∃ others, met = (start, 0) :: others
  distinct : (met.map Prod.fst).Nodup
  sorted : met.Pairwise fun earlier later => earlier.2 ≤ later.2
  near : ∀ front, met[expanded]? = some front → ∀ entry ∈ met, entry.2 ≤ front.2 + 1
  shallow : ∀ entry ∈ met, entry.2 ≤ deep
  within : ∀ entry ∈ met,
    StepsWithin (fun node other => other ∈ neighbors node) entry.2 start entry.1
  closed : ∀ entry ∈ met.take expanded, entry.2 < deep → ∀ other ∈ neighbors entry.1,
    ∃ depth ≤ entry.2 + 1, (other, depth) ∈ met

variable {neighbors : V → List V} {deep : ℕ} {start : V} {expanded : ℕ} {met : List (V × ℕ)}

theorem Layered.init : Layered neighbors deep start 0 [(start, 0)] where
  first := ⟨[], rfl⟩
  distinct := List.nodup_singleton _
  sorted := List.pairwise_singleton _ _
  near front found entry member := by
    rw [List.mem_singleton.mp member]
    exact Nat.zero_le _
  shallow entry member := by
    rw [List.mem_singleton.mp member]
    exact Nat.zero_le _
  within entry member := by
    rw [List.mem_singleton.mp member]
    rfl
  closed entry member := by
    rw [List.take_zero] at member
    cases member

/-- In a list by depth, the entry after another one is not above it. -/
theorem depth_le_of_next (sorted : met.Pairwise fun earlier later => earlier.2 ≤ later.2)
    {front next : V × ℕ} (found : met[expanded]? = some front)
    (after : met[expanded + 1]? = some next) : front.2 ≤ next.2 := by
  obtain ⟨below, rfl⟩ := List.getElem?_eq_some_iff.mp found
  obtain ⟨below', rfl⟩ := List.getElem?_eq_some_iff.mp after
  exact List.pairwise_iff_getElem.mp sorted _ _ below below' (Nat.lt_succ_self _)

section Layered

variable (layered : Layered neighbors deep start expanded met)
include layered

theorem Layered.idle (idle : ∀ front, met[expanded]? = some front → deep ≤ front.2) :
    Layered neighbors deep start (expanded + 1) met := by
  refine { layered with near := fun next after entry member => ?_, closed := ?_ }
  · have below := (List.getElem?_eq_some_iff.mp after).1
    have found : met[expanded]? = some met[expanded] := List.getElem?_eq_getElem (by omega)
    exact (layered.near _ found entry member).trans
      (Nat.succ_le_succ (depth_le_of_next layered.sorted found after))
  · intro entry member deeper
    rw [List.take_add_one] at member
    rcases List.mem_append.mp member with old | last
    · exact layered.closed entry old deeper
    · cases found : met[expanded]? with
      | none => simp [found] at last
      | some front =>
          rw [found, Option.toList_some, List.mem_singleton] at last
          subst last
          exact absurd deeper (Nat.not_lt.mpr (idle entry found))

/-- A node that is near enough is known with its depth, or a node nearer than it waits. -/
theorem Layered.known_or_waits :
    ∀ {bound : ℕ} {node : V},
      StepsWithin (fun node other => other ∈ neighbors node) bound start node → bound ≤ deep →
      (∃ depth ≤ bound, (node, depth) ∈ met) ∨ ∃ entry ∈ met.drop expanded, entry.2 < bound := by
  intro bound
  induction bound with
  | zero =>
      rintro node rfl _
      obtain ⟨others, same⟩ := layered.first
      exact .inl ⟨0, le_rfl, same ▸ List.mem_cons_self⟩
  | succ bound ih =>
      rintro node (within | ⟨last, within, listed⟩) enough
      · rcases ih within (by omega) with ⟨depth, le, known⟩ | ⟨entry, waits, less⟩
        · exact .inl ⟨depth, by omega, known⟩
        · exact .inr ⟨entry, waits, by omega⟩
      · rcases ih within (by omega) with ⟨depth, le, known⟩ | ⟨entry, waits, less⟩
        · rw [← List.take_append_drop expanded met] at known
          rcases List.mem_append.mp known with done | waits
          · obtain ⟨depth', le', known'⟩ := layered.closed _ done (by dsimp only; omega) _ listed
            exact .inl ⟨depth', by dsimp only at le'; omega, known'⟩
          · exact .inr ⟨_, waits, by dsimp only; omega⟩
        · exact .inr ⟨entry, waits, by omega⟩

theorem Layered.depth_unique {depth depth' : ℕ} (known : (node, depth) ∈ met)
    (known' : (node, depth') ∈ met) : depth = depth' := by
  have same := List.inj_on_of_nodup_map layered.distinct known known' rfl
  exact (Prod.mk.inj same).2

/-- Whatever waits is not above the first that waits. -/
theorem Layered.least (waits : entry ∈ met.drop expanded) :
    ∃ front, met[expanded]? = some front ∧ front.2 ≤ entry.2 := by
  have below : expanded < met.length := by
    by_contra beyond
    rw [List.drop_eq_nil_of_le (Nat.le_of_not_lt beyond)] at waits
    cases waits
  refine ⟨met[expanded], List.getElem?_eq_getElem below, ?_⟩
  have sorted := layered.sorted.sublist (List.drop_sublist expanded met)
  rw [List.drop_eq_getElem_cons below] at waits sorted
  rcases List.mem_cons.mp waits with rfl | later
  · exact le_rfl
  · exact List.rel_of_pairwise_cons sorted later

/-- **No node is nearer than its depth tells.** -/
theorem Layered.depth_le (known : entry ∈ met) {bound : ℕ}
    (within : StepsWithin (fun node other => other ∈ neighbors node) bound start entry.1) :
    entry.2 ≤ bound := by
  by_cases enough : bound ≤ deep
  · rcases layered.known_or_waits within enough with ⟨depth, le, known'⟩ | ⟨front, waits, less⟩
    · exact (layered.depth_unique known known').trans_le le
    · obtain ⟨next, found, least⟩ := layered.least waits
      exact (layered.near _ found _ known).trans (by omega)
  · exact (layered.shallow _ known).trans (by omega)

/-- The nodes are listed by distance. -/
theorem Layered.by_distance :
    met.Pairwise fun earlier later => ∀ bound,
      StepsWithin (fun node other => other ∈ neighbors node) bound start later.1 →
      StepsWithin (fun node other => other ∈ neighbors node) bound start earlier.1 := by
  refine List.Pairwise.imp_of_mem ?_ layered.sorted
  intro earlier later known known' le bound within
  exact (layered.within _ known).mono (le.trans (layered.depth_le known' within))

/-- **Once nothing is left to expand, every node that is near enough is known.** -/
theorem Layered.complete (done : ∀ entry ∈ met.drop expanded, deep ≤ entry.2) {bound : ℕ}
    (enough : bound ≤ deep)
    (within : StepsWithin (fun node other => other ∈ neighbors node) bound start node) :
    node ∈ met.map Prod.fst := by
  rcases layered.known_or_waits within enough with ⟨depth, _, known⟩ | ⟨entry, waits, less⟩
  · exact List.mem_map_of_mem known
  · exact absurd (done entry waits) (by omega)

end Layered

end Distances

/-! ## The order of discovery -/

section Discovery

variable [DecidableEq V]

/-- Note a node at a depth, unless it is known. -/
def meet (depth : ℕ) (met : List (V × ℕ)) (node : V) : List (V × ℕ) :=
  if node ∈ met.map Prod.fst then met else met ++ [(node, depth)]

/-- The nodes met, in the order of discovery, once the first of them have been expanded: those
that are not too deep give their neighbours. -/
def discovered (neighbors : V → List V) (deep : ℕ) (start : V) : ℕ → List (V × ℕ)
  | 0 => [(start, 0)]
  | expanded + 1 =>
      let met := discovered neighbors deep start expanded
      match met[expanded]? with
      | none => met
      | some (node, depth) =>
          if depth < deep then (neighbors node).foldl (meet (depth + 1)) met else met

variable {neighbors : V → List V} {deep : ℕ} {start : V} {expanded : ℕ} {met : List (V × ℕ)}
  {depth : ℕ}

theorem mem_meet (member : entry ∈ meet depth met node) : entry ∈ met ∨ entry = (node, depth) := by
  unfold meet at member
  split at member
  · exact .inl member
  · simpa using member

theorem prefix_meet (node : V) : met <+: meet depth met node := by
  unfold meet
  split
  · exact List.prefix_rfl
  · exact List.prefix_append _ _

theorem known_meet (node : V) : node ∈ (meet depth met node).map Prod.fst := by
  unfold meet
  split
  · next known => exact known
  · simp

theorem prefix_foldl_meet (depth : ℕ) (nodes : List V) (met : List (V × ℕ)) :
    met <+: nodes.foldl (meet depth) met := by
  induction nodes generalizing met with
  | nil => exact List.prefix_rfl
  | cons node nodes ih => exact (prefix_meet node).trans (ih _)

/-- What is noted in one go is known at its depth or from before. -/
theorem mem_foldl_meet {nodes : List V} (member : entry ∈ nodes.foldl (meet depth) met) :
    entry ∈ met ∨ entry.1 ∈ nodes ∧ entry.2 = depth := by
  induction nodes generalizing met with
  | nil => exact .inl member
  | cons node nodes ih =>
      rcases ih member with old | ⟨listed, same⟩
      · rcases mem_meet old with old | rfl
        · exact .inl old
        · exact .inr ⟨List.mem_cons_self, rfl⟩
      · exact .inr ⟨List.mem_cons_of_mem _ listed, same⟩

theorem known_foldl_meet {nodes : List V} (listed : node ∈ nodes) (met : List (V × ℕ)) :
    node ∈ (nodes.foldl (meet depth) met).map Prod.fst := by
  induction nodes generalizing met with
  | nil => cases listed
  | cons first nodes ih =>
      rcases List.mem_cons.mp listed with rfl | later
      · exact List.map_subset _ (prefix_foldl_meet _ nodes _).subset (known_meet node)
      · exact ih later _

theorem discovered_succ (expanded : ℕ) :
    discovered neighbors deep start expanded <+:
      discovered neighbors deep start (expanded + 1) := by
  rw [discovered]
  split
  · exact List.prefix_rfl
  · split
    · exact prefix_foldl_meet _ _ _
    · exact List.prefix_rfl

/-- Where no node may be expanded, none is met. -/
theorem discovered_zero (neighbors : V → List V) (start : V) (expanded : ℕ) :
    discovered neighbors 0 start expanded = [(start, 0)] := by
  induction expanded with
  | zero => rfl
  | succ expanded ih =>
      rw [discovered, ih]
      split
      · rfl
      · exact if_neg (Nat.not_lt_zero _)

theorem discovered_mono {less more : ℕ} (le : less ≤ more) :
    discovered neighbors deep start less <+: discovered neighbors deep start more := by
  induction le with
  | refl => exact List.prefix_rfl
  | step _ ih => exact ih.trans (discovered_succ _)

theorem meet_distinct (distinct : (met.map Prod.fst).Nodup) (node : V) :
    ((meet depth met node).map Prod.fst).Nodup := by
  unfold meet
  split
  · exact distinct
  · next fresh =>
      rw [List.map_append, List.map_singleton]
      refine List.nodup_append.mpr ⟨distinct, List.nodup_singleton _, ?_⟩
      rintro _ known _ only rfl
      obtain rfl : _ = node := List.mem_singleton.mp only
      exact fresh known

theorem meet_sorted (sorted : met.Pairwise fun earlier later => earlier.2 ≤ later.2)
    (below : ∀ entry ∈ met, entry.2 ≤ depth) (node : V) :
    (meet depth met node).Pairwise fun earlier later => earlier.2 ≤ later.2 := by
  unfold meet
  split
  · exact sorted
  · refine List.pairwise_append.mpr ⟨sorted, List.pairwise_singleton _ _, ?_⟩
    intro entry member last only
    rw [List.mem_singleton.mp only]
    exact below entry member

/-- What an expansion notes keeps the depths in order. -/
theorem foldl_meet_sorted (nodes : List V)
    (sorted : met.Pairwise fun earlier later => earlier.2 ≤ later.2)
    (below : ∀ entry ∈ met, entry.2 ≤ depth) :
    (nodes.foldl (meet depth) met).Pairwise fun earlier later => earlier.2 ≤ later.2 := by
  induction nodes generalizing met with
  | nil => exact sorted
  | cons node nodes ih =>
      refine ih (meet_sorted sorted below node) fun entry member => ?_
      rcases mem_meet member with old | rfl
      · exact below entry old
      · exact le_rfl

theorem foldl_meet_distinct (nodes : List V) (distinct : (met.map Prod.fst).Nodup) :
    ((nodes.foldl (meet depth) met).map Prod.fst).Nodup := by
  induction nodes generalizing met with
  | nil => exact distinct
  | cons node nodes ih => exact ih (meet_distinct distinct node)

/-- The expansion of a node keeps the layers. -/
theorem Layered.expand (layered : Layered neighbors deep start expanded met)
    (found : met[expanded]? = some (node, depth)) (deeper : depth < deep) :
    Layered neighbors deep start (expanded + 1)
      ((neighbors node).foldl (meet (depth + 1)) met) := by
  have grows := prefix_foldl_meet (depth + 1) (neighbors node) met
  have near := layered.near _ found
  have below : expanded < met.length := (List.getElem?_eq_some_iff.mp found).1
  have kept : ((neighbors node).foldl (meet (depth + 1)) met)[expanded]? = some (node, depth) := by
    obtain ⟨more, same⟩ := grows
    rw [← same, List.getElem?_append_left below, found]
  have sorted := foldl_meet_sorted (neighbors node) layered.sorted near
  have near' : ∀ entry ∈ (neighbors node).foldl (meet (depth + 1)) met, entry.2 ≤ depth + 1 := by
    intro entry member
    rcases mem_foldl_meet member with old | ⟨_, same⟩
    · exact near entry old
    · exact same.le
  constructor
  case first =>
    obtain ⟨others, same⟩ := layered.first
    obtain ⟨more, same'⟩ := grows
    exact ⟨others ++ more, by rw [← same', same]; rfl⟩
  case distinct => exact foldl_meet_distinct _ layered.distinct
  case sorted => exact sorted
  case near =>
    intro next after entry member
    exact (near' entry member).trans (Nat.succ_le_succ (depth_le_of_next sorted kept after))
  case shallow =>
    intro entry member
    rcases mem_foldl_meet member with old | ⟨_, same⟩
    · exact layered.shallow entry old
    · exact same.le.trans deeper
  case within =>
    intro entry member
    rcases mem_foldl_meet member with old | ⟨listed, same⟩
    · exact layered.within entry old
    · rw [same]
      exact .inr ⟨node, layered.within _ (List.mem_of_getElem? found), listed⟩
  case closed =>
    intro entry member above other listed
    obtain ⟨more, same⟩ := id grows
    rw [← same, List.take_append_of_le_length below, List.take_add_one, found,
      Option.toList_some] at member
    rcases List.mem_append.mp member with old | last
    · obtain ⟨depth, le, known⟩ := layered.closed entry old above other listed
      exact ⟨depth, le, grows.subset known⟩
    · rw [List.mem_singleton] at last
      subst last
      obtain ⟨⟨_, depth'⟩, known, rfl⟩ := List.mem_map.mp (known_foldl_meet listed met)
      exact ⟨depth', near' _ known, known⟩

theorem discovered_expand
    (found : (discovered neighbors deep start expanded)[expanded]? = some (node, depth))
    (deeper : depth < deep) :
    discovered neighbors deep start (expanded + 1) =
      (neighbors node).foldl (meet (depth + 1)) (discovered neighbors deep start expanded) := by
  rw [discovered, found]
  exact if_pos deeper

/-- **Every list of discovery is layered.** -/
theorem discovered_layered (neighbors : V → List V) (deep : ℕ) (start : V) (expanded : ℕ) :
    Layered neighbors deep start expanded (discovered neighbors deep start expanded) := by
  induction expanded with
  | zero => exact Layered.init
  | succ expanded ih =>
      rw [discovered]
      cases found : (discovered neighbors deep start expanded)[expanded]? with
      | none => exact ih.idle (by simp [found])
      | some front =>
          dsimp only
          split
          · next deeper => exact ih.expand found deeper
          · next shallow =>
              refine ih.idle fun front' found' => ?_
              rw [found, Option.some.injEq] at found'
              exact found' ▸ Nat.le_of_not_lt shallow

end Discovery

/-! ## Walks -/

namespace WalkRules

variable {E A : Type*} [DecidableEq V] (rules : WalkRules V E A)

/-- Where the edges of a list lead that pass. -/
def leads (edges : List E) : List V :=
  (edges.filter fun edge => (rules.passes edge).isSome).map rules.other

/-- The depth up to which a walk expands nodes: the start is expanded in any case. -/
def deep : ℕ := max 1 rules.maxDepth

/-- The nodes met once a number of them have been expanded, were there no bound on them. -/
def met (start : V) (expanded : ℕ) : List (V × ℕ) :=
  discovered (fun node => rules.leads (rules.edgesAt node)) rules.deep start expanded

/-- A walk stands where a search does: it has put out what belongs to the nodes met after the
start, and those that wait and are not too deep are in its queue. -/
structure StandsAt (value : V → Option A) (expanded : ℕ) (met : List (V × ℕ)) (walk : Walk V E A) :
    Prop where
  out : walk.out.map some = met.tail.map fun entry => value entry.1
  seen : ∀ node, node ∈ walk.seen ↔ node ∈ met.map Prod.fst
  queue : walk.queue = (met.drop expanded).filter (·.2 < rules.deep)

variable {rules} {value : V → Option A} {expanded depth : ℕ} {met : List (V × ℕ)}
  {walk : Walk V E A}

theorem StandsAt.visit (stands : StandsAt rules value expanded met walk)
    (valued : ∀ edge reached, rules.passes edge = some reached →
      value (rules.other edge) = some reached)
    (some_met : met ≠ []) (room : expanded ≤ met.length) (edge : E) :
    StandsAt rules value expanded ((rules.leads [edge]).foldl (meet (depth + 1)) met)
      (rules.visit depth walk edge) := by
  unfold WalkRules.visit leads
  cases passes : rules.passes edge with
  | none =>
      rw [List.filter_singleton, passes]
      exact ⟨stands.out, stands.seen, stands.queue⟩
  | some reached =>
      have single : (List.filter (fun edge => (rules.passes edge).isSome) [edge]).map rules.other =
          [rules.other edge] := by
        rw [List.filter_singleton, passes]
        rfl
      rw [single, List.foldl_cons, List.foldl_nil]
      by_cases known : rules.other edge ∈ walk.seen
      · rw [meet, if_pos ((stands.seen _).mp known)]
        simp only [known, if_true]
        exact ⟨stands.out, stands.seen, stands.queue⟩
      · rw [meet, if_neg (fun old => known ((stands.seen _).mpr old))]
        simp only [known, if_false]
        have enough : depth + 1 < rules.deep ↔ depth + 1 < rules.maxDepth := by
          rw [deep]
          omega
        refine ⟨?_, fun node => ?_, ?_⟩
        · rw [List.map_append, stands.out, List.tail_append_of_ne_nil some_met, List.map_append,
            List.map_singleton, List.map_singleton, valued edge reached passes]
        · rw [Finset.mem_insert, stands.seen, List.map_append, List.map_singleton, List.mem_append,
            List.mem_singleton, or_comm]
        · rw [List.drop_append_of_le_length room, List.filter_append, ← stands.queue,
            List.filter_singleton]
          by_cases deeper : depth + 1 < rules.maxDepth
          · simp [deeper, enough.mpr deeper]
          · simp [deeper, mt enough.mp deeper]

theorem StandsAt.foldl_visit
    (valued : ∀ edge reached, rules.passes edge = some reached →
      value (rules.other edge) = some reached) (edges : List E) :
    ∀ {met : List (V × ℕ)} {walk : Walk V E A}, StandsAt rules value expanded met walk →
      met ≠ [] → expanded ≤ met.length →
      StandsAt rules value expanded ((rules.leads edges).foldl (meet (depth + 1)) met)
        (edges.foldl (rules.visit depth) walk) := by
  induction edges with
  | nil => exact fun stands _ _ => stands
  | cons edge edges ih =>
      intro met walk stands some_met room
      have split : rules.leads (edge :: edges) = rules.leads [edge] ++ rules.leads edges := by
        rw [leads, leads, leads, ← List.map_append, ← List.filter_append, List.singleton_append]
      have grows := prefix_foldl_meet (depth + 1) (rules.leads [edge]) met
      rw [split, List.foldl_append, List.foldl_cons]
      exact ih (stands.visit valued some_met room edge)
        (fun empty => some_met (List.prefix_nil.mp (empty ▸ grows)))
        (room.trans grows.length_le)

variable (rules) in
/-- The nodes met are those of the start, or of an expansion that was begun with too few. -/
def CameUnder (start : V) (expanded : ℕ) : Prop :=
  rules.met start expanded = [(start, 0)] ∨ ∃ before,
    (rules.met start before).length ≤ rules.maxNodes ∧
      rules.met start (before + 1) = rules.met start expanded

variable {start : V}

variable (rules) in
theorem met_layered (start : V) (expanded : ℕ) :
    Layered (fun node => rules.leads (rules.edgesAt node)) rules.deep start expanded
      (rules.met start expanded) :=
  discovered_layered _ _ _ _

/-- Where nothing waits that could be expanded, the queue is empty and nothing is met any more. -/
theorem met_succ_of_idle
    (idle : ∀ front, (rules.met start expanded)[expanded]? = some front → rules.deep ≤ front.2) :
    rules.met start (expanded + 1) = rules.met start expanded := by
  rw [met, discovered]
  split
  · rfl
  · next node depth found =>
      rw [if_neg (Nat.not_lt.mpr (idle _ found))]
      rfl

theorem StandsAt.idle (stands : StandsAt rules value expanded (rules.met start expanded) walk)
    (idle : ∀ front, (rules.met start expanded)[expanded]? = some front → rules.deep ≤ front.2) :
    walk.queue = [] := by
  rw [stands.queue, List.filter_eq_nil_iff]
  intro entry waits
  obtain ⟨front, found, least⟩ := (met_layered rules start expanded).least waits
  have above : ¬ entry.2 < rules.deep := Nat.not_lt.mpr ((idle front found).trans least)
  simpa using above

/-- What a number of rounds come to: the search is where the rounds have brought it, or the walk
was ended because it had put out enough. -/
inductive Reaches (rules : WalkRules V E A) (value : V → Option A) (start : V) (rounds : ℕ)
    (walk : Walk V E A) : Prop where
  | stands (stands : StandsAt rules value rounds (rules.met start rounds) walk)
      (came : rules.CameUnder start rounds)
  | ended (expanded : ℕ) (finished : walk.queue = [])
      (out : walk.out.map some = (rules.met start expanded).tail.map fun entry => value entry.1)
      (enough : rules.maxNodes ≤ walk.out.length) (came : rules.CameUnder start expanded)

variable {out : List A}

/-- As many values as nodes met, the start apart. -/
theorem length_met
    (values : out.map some = (rules.met start expanded).tail.map fun entry => value entry.1) :
    (rules.met start expanded).length = out.length + 1 := by
  obtain ⟨others, same⟩ := (met_layered rules start expanded).first
  have lengths := congrArg List.length values
  rw [same, List.tail_cons, List.length_map, List.length_map] at lengths
  rw [same, List.length_cons, lengths]

section Valued

variable (valued : ∀ edge reached, rules.passes edge = some reached →
      value (rules.other edge) = some reached)
include valued

/-- **A round expands one more node, or ends the walk.** -/
theorem StandsAt.round (stands : StandsAt rules value expanded (rules.met start expanded) walk)
    (came : rules.CameUnder start expanded) :
    Reaches rules value start (expanded + 1) (rules.round walk) := by
  have layered := met_layered rules start expanded
  by_cases idle : ∀ front, (rules.met start expanded)[expanded]? = some front → rules.deep ≤ front.2
  case pos =>
    -- nothing is expanded
    have same := met_succ_of_idle idle
    have finished := stands.idle idle
    refine .stands ?_ (came.imp (same.trans ·) fun ⟨before, few, next⟩ => ⟨before, few, ?_⟩)
    · have still : rules.round walk = walk := by rw [WalkRules.round, finished]
      rw [still, same]
      refine ⟨stands.out, stands.seen, ?_⟩
      rw [finished, eq_comm, List.filter_eq_nil_iff]
      intro entry later
      exact List.filter_eq_nil_iff.mp (stands.queue.symm.trans finished) entry
        (List.drop_subset_drop_left _ (Nat.le_succ expanded) later)
    · rw [next, same]
  case neg =>
    simp only [not_forall, not_le] at idle
    obtain ⟨⟨node, depth⟩, found, deeper⟩ := idle
    have below : expanded < (rules.met start expanded).length :=
      (List.getElem?_eq_some_iff.mp found).1
    have queue : walk.queue = (node, depth) ::
        ((rules.met start expanded).drop (expanded + 1)).filter (·.2 < rules.deep) := by
      rw [stands.queue, List.drop_eq_getElem_cons below,
        List.getElem_eq_iff below |>.mpr found, List.filter_cons_of_pos (by simpa using deeper)]
    have next : rules.met start (expanded + 1) =
        (rules.leads (rules.edgesAt node)).foldl (meet (depth + 1)) (rules.met start expanded) :=
      discovered_expand found deeper
    rw [WalkRules.round, queue]
    dsimp only
    split
    · next enough => exact .ended expanded rfl stands.out enough came
    · next few =>
        refine .stands ?_ (.inr ⟨expanded, ?_, rfl⟩)
        · rw [next]
          refine StandsAt.foldl_visit valued _ ⟨stands.out, stands.seen, rfl⟩ ?_ below
          exact List.ne_nil_of_length_pos (by omega)
        · rw [length_met stands.out]
          omega

theorem Reaches.round {rounds : ℕ} (reaches : Reaches rules value start rounds walk) :
    Reaches rules value start (rounds + 1) (rules.round walk) := by
  cases reaches with
  | stands stands came => exact stands.round valued came
  | ended expanded finished out enough came =>
      have still : rules.round walk = walk := by rw [WalkRules.round, finished]
      rw [still]
      exact .ended expanded finished out enough came

theorem run_reaches (start : V) (rounds : ℕ) :
    Reaches rules value start rounds (rules.run start rounds) := by
  induction rounds with
  | zero =>
      refine .stands ⟨rfl, fun node => ?_, ?_⟩ (.inl rfl)
      · change node ∈ ({start} : Finset V) ↔ node ∈ [start]
        rw [Finset.mem_singleton, List.mem_singleton]
      · have positive : 0 < rules.deep := Nat.lt_of_lt_of_le Nat.zero_lt_one (le_max_left _ _)
        change [(start, 0)] = [(start, 0)].filter (·.2 < rules.deep)
        rw [List.filter_cons_of_pos (by simpa using positive), List.filter_nil]
  | succ rounds ih => exact run_succ rules start rounds ▸ ih.round valued

end Valued

/-! ## The end of a walk -/

variable (rules) in
/-- The nodes whose values a walk has put out are those met so far, and these are enough or there
are no more. -/
structure Stops (value : V → Option A) (start : V) (expanded : ℕ) (out : List A) : Prop where
  values : out.map some = (rules.met start expanded).tail.map fun entry => value entry.1
  came : rules.CameUnder start expanded
  done : rules.maxNodes ≤ out.length ∨
    ∀ entry ∈ (rules.met start expanded).drop expanded, rules.deep ≤ entry.2

theorem Reaches.stops {rounds : ℕ} (reaches : Reaches rules value start rounds walk)
    (finished : walk.queue = []) : ∃ expanded, Stops rules value start expanded walk.out := by
  cases reaches with
  | stands stands came =>
      refine ⟨rounds, stands.out, came, .inr fun entry waits => ?_⟩
      have above := List.filter_eq_nil_iff.mp (stands.queue.symm.trans finished) entry waits
      simpa using above
  | ended expanded _ out enough came => exact ⟨expanded, out, came, .inl enough⟩

theorem Stops.mem (stops : Stops rules value start expanded out) {reached : A} :
    reached ∈ out ↔ ∃ entry ∈ (rules.met start expanded).tail, value entry.1 = some reached := by
  rw [← List.mem_map_of_injective (Option.some_injective A), stops.values, List.mem_map]

/-- What holds of the nodes met in their order holds of what is put out. -/
theorem Stops.pairwise (stops : Stops rules value start expanded out) {R : A → A → Prop}
    (holds : (rules.met start expanded).Pairwise fun entry later => ∀ reached reached',
      value entry.1 = some reached → value later.1 = some reached' → R reached reached') :
    out.Pairwise R := by
  have values : (out.map some).Pairwise fun left right => ∀ reached reached',
      left = some reached → right = some reached' → R reached reached' := by
    rw [stops.values, List.pairwise_map]
    exact holds.tail
  exact (List.pairwise_map.mp values).imp fun holds => holds _ _ rfl rfl

/-- With nothing left that could be expanded, no more nodes are met. -/
theorem met_eq_of_done
    (done : ∀ entry ∈ (rules.met start expanded).drop expanded, rules.deep ≤ entry.2) {later : ℕ}
    (le : expanded ≤ later) : rules.met start later = rules.met start expanded := by
  induction le with
  | refl => rfl
  | @step later le ih =>
      have le : expanded ≤ later := le
      rw [← ih]
      refine met_succ_of_idle fun front found => done front ?_
      rw [ih] at found
      obtain ⟨below, rfl⟩ := List.getElem?_eq_some_iff.mp found
      exact List.mem_drop_iff_getElem.mpr ⟨later - expanded, by omega, by simp [le]⟩

variable (rules) in
/-- No expansion that is begun with fewer nodes than may be put out leads past their number. -/
def NeverPasses (start : V) : Prop :=
  ∀ expanded, (rules.met start expanded).length ≤ rules.maxNodes →
    (rules.met start (expanded + 1)).length ≤ rules.maxNodes + 1

/-- **A walk puts out no more than it may exactly when no expansion passes over the number.** -/
theorem Stops.few_iff (stops : Stops rules value start expanded out) :
    out.length ≤ rules.maxNodes ↔ rules.NeverPasses start := by
  have length := length_met stops.values
  constructor
  · intro few other under
    rcases Nat.lt_or_ge other expanded with before | after
    · -- the expansion was made
      have grows : (rules.met start (other + 1)).length ≤ _ := (discovered_mono before).length_le
      exact grows.trans (length.trans_le (Nat.succ_le_succ few))
    · rcases stops.done with enough | done
      · have grows : (rules.met start expanded).length ≤ _ := (discovered_mono after).length_le
        have under := grows.trans under
        omega
      · rw [met_eq_of_done done (Nat.le_succ_of_le after), length]
        exact Nat.succ_le_succ few
  · intro never
    rcases stops.came with first | ⟨before, under, same⟩
    · rw [first, List.length_singleton] at length
      omega
    · have room := never before under
      rw [same, length] at room
      exact Nat.le_of_succ_le_succ room

end WalkRules

end Library
