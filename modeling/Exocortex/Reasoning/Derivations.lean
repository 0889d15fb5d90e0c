import Exocortex.Reasoning.Engine

/-!
# What a derived edge rests on

`Applies` says what each rule asks of a store: open edges of its kinds, or a shared entity, or
tags of one hash. Every edge that a pass writes back comes from such an application
(`passRows_justified`). The rules that chain two edges record them as evidence, looked up again
among all edges that were read; the other rules record none.
-/

namespace Exocortex

open Library

/-- An edge is the current row of its identity, and open. -/
structure OpenEdge (s : InMemoryStorage) (edge : Relationship) : Prop where
  current : s.currentRelationship edge.id = some edge
  unended : edge.validUntil = none
  valid : edge.invalidatedBy = none

namespace ReasoningEngine

variable (engine : ReasoningEngine)

/-- The kinds of the two edges of a rule that chains them. -/
def chainKinds : RuleId → Option (RelKindId × RelKindId)
  | .r4 => some (engine.kinds.dependsOn, engine.kinds.dependsOn)
  | .r5 => some (engine.kinds.requires, engine.kinds.requires)
  | .d2 => some (engine.kinds.buildsOn, engine.kinds.buildsOn)
  | .d3 => some (engine.kinds.blocks, engine.kinds.requires)
  | .d4 => some (engine.kinds.contradicts, engine.kinds.confirms)
  | _ => none

/-- The kind of the edges of a rule that joins two at their end. -/
def joinKind : RuleId → Option RelKindId
  | .r8 => some Rules.SOLVES
  | .d5 => some engine.kinds.modifies
  | .d6 => some Rules.IN_SESSION
  | _ => none

/-- A rule leads from a memory to another, by some edges. -/
inductive Applies (s : InMemoryStorage) : RuleId → MemoryId → MemoryId → List Relationship → Prop
  | chain {rule : RuleId} {first second : RelKindId} {left right : Relationship}
      (kinds : engine.chainKinds rule = some (first, second)) (leftOpen : OpenEdge s left)
      (rightOpen : OpenEdge s right) (leftKind : left.kind = first)
      (rightKind : right.kind = second) (meet : left.target = right.source) :
      Applies s rule left.source right.target [left, right]
  | join {rule : RuleId} {kind : RelKindId} {left right : Relationship}
      (kinds : engine.joinKind rule = some kind) (leftOpen : OpenEdge s left)
      (rightOpen : OpenEdge s right) (leftKind : left.kind = kind) (rightKind : right.kind = kind)
      (meet : left.target = right.target) (apart : left.source ≠ right.source) :
      Applies s rule left.source right.source [left, right]
  | implied {edge : Relationship} {fix : Memory} (isOpen : OpenEdge s edge)
      (kind : edge.kind = Rules.FIXES) (source : s.currentMemory edge.source = some fix)
      (isFix : fix.memoryType = Rules.FIX_TYPE) :
      Applies s .d1 edge.source edge.target [edge]
  | entity {source target : Memory} {entity : EntityId}
      (left : s.currentMemory source.id = some source)
      (right : s.currentMemory target.id = some target)
      (mentions : entity ∈ source.context.entities) (shares : entity ∈ target.context.entities)
      (apart : source.id ≠ target.id) : Applies s .r7 source.id target.id []
  | tag {source target : Memory} {tag other : String}
      (left : s.currentMemory source.id = some source)
      (right : s.currentMemory target.id = some target) (tagged : tag ∈ source.tags)
      (shares : other ∈ target.tags) (same : Rules.fxhashTag tag = Rules.fxhashTag other)
      (apart : source.id ≠ target.id) : Applies s .r9 source.id target.id []

/-- The edges of an application that are recorded as evidence. -/
def recorded (rule : RuleId) (premises : List Relationship) : List Relationship :=
  if (engine.chainKinds rule).isSome then premises else []

/-- An edge comes from an application of a rule, between memories that are there. -/
structure Justified (s : InMemoryStorage) (edge : Relationship) (rule : RuleId)
    (premises : List Relationship) (source target : Memory) : Prop where
  applies : engine.Applies s rule edge.source edge.target premises
  provenance : edge.provenance =
    .derived rule.text ((engine.recorded rule premises).map (·.id))
  sourceRow : s.currentMemory edge.source = some source
  targetRow : s.currentMemory edge.target = some target
  label : narrowestVisibility (source.visibility :: target.visibility ::
    (engine.recorded rule premises).map (·.visibility)) = some edge.visibility

end ReasoningEngine

/-! ## What a pass reads -/

/-- The memories are current, and the edges are current and open. -/
structure Reads (s : InMemoryStorage) (memories : List Memory) (rows : List Relationship) :
    Prop where
  memory : ∀ memory ∈ memories, s.currentMemory memory.id = some memory
  edge : ∀ row ∈ rows, OpenEdge s row

variable {around : Neighborhood} {orders : PassOrders} {row : Relationship} {order : HashOrder}
  {memory : Memory}

section Reading

variable {s : InMemoryStorage} (keyed : InMemoryStorage.Keyed s.rows)
include keyed

variable {frontier : List MemoryId}

theorem relationshipsTouching_open {limit : ℕ}
    (read : row ∈ s.relationshipsTouching order frontier limit) : OpenEdge s row := by
  obtain ⟨found, isOpen⟩ := List.mem_filter.mp (List.mem_of_mem_take read)
  obtain ⟨id, -, current⟩ := List.mem_filterMap.mp found
  rw [Bool.and_eq_true, Option.isNone_iff_eq_none, Option.isNone_iff_eq_none] at isOpen
  refine ⟨?_, isOpen.1, isOpen.2⟩
  rw [keyed.relationship_id current]
  exact current

theorem memoriesSharingAttributes_current {tags : List String} {entities : List EntityId}
    {limit : ℕ} (read : memory ∈ s.memoriesSharingAttributes order tags entities limit) :
    s.currentMemory memory.id = some memory := by
  obtain ⟨found, -⟩ := List.mem_filter.mp (List.mem_of_mem_take read)
  obtain ⟨id, -, current⟩ := List.mem_filterMap.mp found
  rw [keyed.memory_id current]
  exact current

theorem getMemories_current {ids : List MemoryId} (read : memory ∈ s.getMemories ids) :
    s.currentMemory memory.id = some memory := by
  obtain ⟨id, -, current⟩ := List.mem_filterMap.mp read
  rw [keyed.memory_id current]
  exact current

theorem memoryRows_current (read : memory ∈ memoryRows orders s around) :
    s.currentMemory memory.id = some memory := by
  rw [memoryRows] at read
  dsimp only at read
  split at read
  · exact getMemories_current keyed read
  · rcases List.mem_append.mp read with near | far
    · exact getMemories_current keyed near
    · exact memoriesSharingAttributes_current keyed (List.mem_of_mem_filter far)

omit keyed in
theorem mem_rows_visit {other : Relationship} (kept : other ∈ (around.visit row).rows) :
    other ∈ around.rows ∨ other = row := by
  have reach (around : Neighborhood) (id : MemoryId) : (around.reach id).rows = around.rows := by
    rw [Neighborhood.reach]
    split <;> rfl
  rw [Neighborhood.visit] at kept
  split at kept
  · exact .inl kept
  · simpa [reach] using kept

omit keyed in
theorem mem_rows_visits {read : List Relationship} {other : Relationship}
    (kept : other ∈ (read.foldl Neighborhood.visit around).rows) :
    other ∈ around.rows ∨ other ∈ read := by
  induction read generalizing around with
  | nil => exact .inl kept
  | cons row read ih =>
      rcases ih kept with visited | later
      · rcases mem_rows_visit visited with old | rfl
        · exact .inl old
        · exact .inr List.mem_cons_self
      · exact .inr (List.mem_cons_of_mem _ later)

/-- The edges of a walk were open when it read them. -/
theorem gather_open {hops hop : ℕ} (before : ∀ row ∈ around.rows, OpenEdge s row) :
    ∀ row ∈ (Neighborhood.gather orders s hops hop frontier around).rows, OpenEdge s row := by
  induction hops generalizing hop frontier around with
  | zero => exact before
  | succ hops ih =>
      rw [Neighborhood.gather]
      split
      · exact before
      · have after : ∀ row ∈ ((s.relationshipsTouching (orders.hop hop) frontier
            maxReasoningEdges).foldl Neighborhood.visit { around with next := [] }).rows,
            OpenEdge s row := by
          intro row kept
          rcases mem_rows_visits kept with old | new
          · exact before row old
          · exact relationshipsTouching_open keyed new
        dsimp only
        split
        · exact after
        · exact ih after

theorem reads_neighborhood (engine : ReasoningEngine) (orders : PassOrders)
    (seeds : List MemoryId) (k : ℕ) :
    Reads s (memoryRows orders s (engine.neighborhood orders s seeds k))
      (engine.neighborhood orders s seeds k).rows where
  memory _ read := memoryRows_current keyed read
  edge := gather_open keyed fun _ member => absurd member List.not_mem_nil

end Reading

namespace Reads

variable {s : InMemoryStorage} {memories : List Memory} {rows : List Relationship}

theorem lookup_memory (reads : Reads s memories rows) {id : MemoryId}
    (found : lastWith Memory.id id memories = some memory) : s.currentMemory id = some memory := by
  obtain ⟨listed, rfl⟩ := lastWith_some found
  exact reads.memory memory listed

/-- An edge that was read is found by its identity. -/
theorem lookup_edge (reads : Reads s memories rows) (listed : row ∈ rows) :
    lastWith Relationship.id row.id rows = some row := by
  cases found : lastWith Relationship.id row.id rows with
  | none => exact absurd rfl (lastWith_eq_none.mp found row listed)
  | some other =>
      obtain ⟨there, same⟩ := lastWith_some found
      have current := (reads.edge other there).current
      rw [same, (reads.edge row listed).current] at current
      rw [Option.some.inj current]

end Reads

/-! ## What a pass writes -/

namespace ReasoningEngine

variable {engine : ReasoningEngine} {s : InMemoryStorage} {now : DateTime} {memories : List Memory}
  {rows : List Relationship}

/-- Two edges of given kinds lead from a memory to another. -/
structure Across (first second : RelKindId) (pair : MemoryId × MemoryId)
    (left right : Relationship) : Prop where
  leaves : left.source = pair.1
  leftKind : left.kind = first
  meet : left.target = right.source
  rightKind : right.kind = second
  arrives : right.target = pair.2

variable {first second : RelKindId} {pair : MemoryId × MemoryId} {edge : Relationship}
  {rule : RuleId} {shared : ℕ} {pairs : List (MemoryId × MemoryId)}

/-- Where two edges lead across, the lookup finds two that do. -/
theorem support_spec {source target : MemoryId}
    (there : ∃ left ∈ rows, ∃ right ∈ rows, Across first second (source, target) left right) :
    ∃ left ∈ rows, ∃ right ∈ rows, Across first second (source, target) left right ∧
      support rows first second source target = [left.id, right.id] := by
  rw [support]
  cases hops : (rows.filter (·.source = source)).findSome? fun left =>
      if left.kind ≠ first then none
      else ((rows.filter (·.source = left.target)).find? fun right =>
        right.target = target ∧ right.kind = second).map fun right => [left.id, right.id] with
  | none =>
      obtain ⟨left, isLeft, right, isRight, across⟩ := there
      have missing := List.findSome?_eq_none_iff.mp hops left
        (List.mem_filter.mpr ⟨isLeft, decide_eq_true across.leaves⟩)
      rw [if_neg (not_not.mpr across.leftKind), Option.map_eq_none_iff, List.find?_eq_none]
        at missing
      exact absurd (decide_eq_true ⟨across.arrives, across.rightKind⟩)
        (missing right (List.mem_filter.mpr ⟨isRight, decide_eq_true across.meet.symm⟩))
  | some found =>
      obtain ⟨left, isLeft, hop⟩ := List.exists_of_findSome?_eq_some hops
      obtain ⟨isLeft, leaves⟩ := List.mem_filter.mp isLeft
      split at hop
      · cases hop
      · next leftKind =>
          obtain ⟨right, isRight, rfl⟩ := Option.map_eq_some_iff.mp hop
          have ends := List.find?_some isRight
          rw [decide_eq_true_eq] at ends
          obtain ⟨isRight, meet⟩ := List.mem_filter.mp (List.mem_of_find?_eq_some isRight)
          exact ⟨left, isLeft, right, isRight, ⟨of_decide_eq_true leaves, not_not.mp leftKind,
            (of_decide_eq_true meet).symm, ends.2, ends.1⟩, rfl⟩

theorem push_some {evidence : List RelationshipId}
    (pushed : engine.push now memories rows rule shared evidence pair = some edge) :
    ∃ source target, lastWith Memory.id pair.1 memories = some source ∧
      lastWith Memory.id pair.2 memories = some target ∧ edge.source = pair.1 ∧
      edge.target = pair.2 ∧ edge.provenance = .derived rule.text evidence ∧
      narrowestVisibility (source.visibility :: target.visibility ::
        evidence.filterMap fun id => (lastWith Relationship.id id rows).map (·.visibility)) =
          some edge.visibility := by
  simp only [push, Option.bind_eq_bind, Option.bind_eq_some_iff, Option.pure_def,
    Option.some.injEq] at pushed
  obtain ⟨source, foundSource, target, foundTarget, visibility, label, rfl⟩ := pushed
  exact ⟨source, target, foundSource, foundTarget, rfl, rfl, rfl, label⟩

/-- The edge of a pair that a rule leads across, with the recorded edges for evidence. -/
theorem push_justified {premises : List Relationship} (reads : Reads s memories rows)
    (applies : engine.Applies s rule pair.1 pair.2 premises)
    (read : ∀ premise ∈ engine.recorded rule premises, premise ∈ rows)
    (pushed : engine.push now memories rows rule shared
      ((engine.recorded rule premises).map (·.id)) pair = some edge) :
    ∃ premises source target, engine.Justified s edge rule premises source target := by
  obtain ⟨source, target, foundSource, foundTarget, leaves, arrives, provenance, label⟩ :=
    push_some pushed
  refine ⟨premises, source, target, ?_, provenance, ?_, ?_, ?_⟩
  · rw [leaves, arrives]
    exact applies
  · rw [leaves]
    exact reads.lookup_memory foundSource
  · rw [arrives]
    exact reads.lookup_memory foundTarget
  · have labels : ((engine.recorded rule premises).map (·.id)).filterMap
        (fun id => (lastWith Relationship.id id rows).map (·.visibility)) =
          (engine.recorded rule premises).map (·.visibility) := by
      rw [List.filterMap_map, ← List.filterMap_eq_map]
      refine List.filterMap_congr fun premise listed => ?_
      simp [reads.lookup_edge (read premise listed)]
    rw [← labels]
    exact label

/-- A pair that two edges lead across gives a justified edge. -/
theorem hopRows_justified (reads : Reads s memories rows)
    (kinds : engine.chainKinds rule = some (first, second))
    (derived : ∀ pair ∈ pairs, ∃ left ∈ rows, ∃ right ∈ rows, Across first second pair left right)
    (written : edge ∈ engine.hopRows now memories rows rule first second pairs) :
    ∃ premises source target, engine.Justified s edge rule premises source target := by
  obtain ⟨pair, listed, pushed⟩ := List.mem_filterMap.mp written
  obtain ⟨left, isLeft, right, isRight, across, found⟩ := support_spec (derived pair listed)
  have recorded : engine.recorded rule [left, right] = [left, right] := by
    rw [ReasoningEngine.recorded, kinds]
    rfl
  have applies : engine.Applies s rule pair.1 pair.2 [left, right] := by
    rw [← across.leaves, ← across.arrives]
    exact .chain kinds (reads.edge left isLeft) (reads.edge right isRight) across.leftKind
      across.rightKind across.meet
  refine push_justified reads applies ?_ (by rw [recorded]; rw [found] at pushed; exact pushed)
  rw [recorded]
  intro premise listed
  rcases List.mem_cons.mp listed with rfl | last
  · exact isLeft
  · rw [List.mem_singleton.mp last]
    exact isRight

/-- A pair that a rule without evidence leads across gives a justified edge. -/
theorem push_justified_bare (reads : Reads s memories rows) (bare : engine.chainKinds rule = none)
    (applies : ∃ premises, engine.Applies s rule pair.1 pair.2 premises)
    (pushed : engine.push now memories rows rule shared [] pair = some edge) :
    ∃ premises source target, engine.Justified s edge rule premises source target := by
  obtain ⟨premises, applies⟩ := applies
  have recorded : engine.recorded rule premises = [] := by
    rw [ReasoningEngine.recorded, bare]
    rfl
  refine push_justified reads applies ?_ (by rw [recorded]; exact pushed)
  rw [recorded]
  exact fun _ none => absurd none List.not_mem_nil

theorem bridgeRows_justified (reads : Reads s memories rows)
    (bare : engine.chainKinds rule = none)
    (derived : ∀ pair ∈ pairs, ∃ premises, engine.Applies s rule pair.1 pair.2 premises)
    (written : edge ∈ engine.bridgeRows now memories rows rule pairs) :
    ∃ premises source target, engine.Justified s edge rule premises source target := by
  obtain ⟨pair, listed, pushed⟩ := List.mem_filterMap.mp written
  exact push_justified_bare reads bare (derived pair listed) pushed

theorem affinityRows_justified (reads : Reads s memories rows)
    (bare : engine.chainKinds rule = none)
    (derived : ∀ pair ∈ pairs, ∃ premises, engine.Applies s rule pair.1 pair.2 premises)
    (written : edge ∈ engine.affinityRows now memories rows rule pairs) :
    ∃ premises source target, engine.Justified s edge rule premises source target := by
  obtain ⟨counted, listed, pushed⟩ := List.mem_filterMap.mp written
  exact push_justified_bare reads bare (derived _ (Rules.mem_of_mem_pairCounts listed)) pushed

/-! ## What a pass derives -/

section Facts

variable {orders : PassOrders} {around : Neighborhood}

/-- An edge that the rules see was read. -/
theorem row_of_edgeFact {fact : Rules.Edge} (seen : fact ∈ around.edgeFacts) :
    ∃ row ∈ around.rows, row.source = fact.source ∧ row.target = fact.target ∧
      row.kind = fact.kind := by
  obtain ⟨row, kept, rfl⟩ := List.mem_map.mp seen
  exact ⟨row, List.mem_of_mem_filter kept, rfl, rfl, rfl⟩

theorem rows_of_chained (derived : pair ∈ Rules.chained first second around.edgeFacts) :
    ∃ left ∈ around.rows, ∃ right ∈ around.rows, Across first second pair left right := by
  obtain ⟨leftFact, isLeft, rightFact, isRight, ⟨meet, leftKind, rightKind⟩, rfl⟩ :=
    Rules.mem_chained.mp derived
  obtain ⟨left, leftRead, leaves, arrives, kind⟩ := row_of_edgeFact isLeft
  obtain ⟨right, rightRead, leaves', arrives', kind'⟩ := row_of_edgeFact isRight
  exact ⟨left, leftRead, right, rightRead, leaves, kind.trans leftKind,
    arrives.trans (meet.trans leaves'.symm), kind'.trans rightKind, arrives'⟩

variable (reads : Reads s memories around.rows)
include reads

theorem applies_of_joined {kind : RelKindId} (kinds : engine.joinKind rule = some kind)
    (derived : pair ∈ Rules.joined kind around.edgeFacts) :
    ∃ premises, engine.Applies s rule pair.1 pair.2 premises := by
  obtain ⟨leftFact, isLeft, rightFact, isRight, ⟨meet, leftKind, rightKind, apart⟩, rfl⟩ :=
    Rules.mem_joined.mp derived
  obtain ⟨left, leftRead, leaves, arrives, kind⟩ := row_of_edgeFact isLeft
  obtain ⟨right, rightRead, leaves', arrives', kind'⟩ := row_of_edgeFact isRight
  rw [← leaves, ← leaves'] at apart ⊢
  exact ⟨[left, right], .join kinds (reads.edge left leftRead) (reads.edge right rightRead)
    (kind.trans leftKind) (kind'.trans rightKind) (arrives.trans (meet.trans arrives'.symm)) apart⟩

/-- Two memories of a session were both put into it. -/
theorem applies_of_cohort {cohort : List (MemoryId × MemoryId)}
    (members : ∀ member ∈ cohort, member ∈ Rules.sessionCohort around.edgeFacts)
    (derived : pair ∈ cohortPairs cohort) :
    ∃ premises, engine.Applies s .d6 pair.1 pair.2 premises := by
  obtain ⟨session, -, kept⟩ := List.mem_flatMap.mp derived
  obtain ⟨paired, apart⟩ := List.mem_filter.mp kept
  have inSession (id : MemoryId)
      (listed : id ∈ sortIds ((cohort.filter (·.2 = session)).map (·.1))) :
      ∃ row ∈ around.rows, row.source = id ∧ row.target = session ∧
        row.kind = Rules.IN_SESSION := by
    obtain ⟨⟨member, there⟩, kept, rfl⟩ := List.mem_map.mp (mem_sortIds.mp listed)
    obtain ⟨isMember, same⟩ := List.mem_filter.mp kept
    obtain ⟨fact, isFact, found⟩ := List.mem_map.mp (members _ isMember)
    cases found
    obtain ⟨seen, kind⟩ := List.mem_filter.mp isFact
    obtain ⟨row, read, leaves, arrives, ofKind⟩ := row_of_edgeFact seen
    exact ⟨row, read, leaves, arrives.trans (of_decide_eq_true same),
      ofKind.trans (of_decide_eq_true kind)⟩
  obtain ⟨first, second⟩ := mem_of_mem_orderedPairs paired
  obtain ⟨left, leftRead, leaves, arrives, kind⟩ := inSession _ first
  obtain ⟨right, rightRead, leaves', arrives', kind'⟩ := inSession _ second
  have apart := of_decide_eq_true apart
  rw [← leaves, ← leaves'] at apart ⊢
  exact ⟨[left, right], .join rfl (reads.edge left leftRead) (reads.edge right rightRead) kind
    kind' (arrives.trans arrives'.symm) apart⟩

theorem applies_of_impliedSolves (derived : pair ∈ Rules.impliedSolves around.edgeFacts
      (memories.map fun memory => (memory.id, memory.memoryType))) :
    ∃ premises, engine.Applies s .d1 pair.1 pair.2 premises := by
  obtain ⟨fact, kept, rfl⟩ := List.mem_map.mp derived
  obtain ⟨seen, conditions⟩ := List.mem_filter.mp kept
  obtain ⟨kind, isFix⟩ := of_decide_eq_true conditions
  obtain ⟨fix, isMemory, same⟩ := List.mem_map.mp isFix
  obtain ⟨row, read, leaves, arrives, ofKind⟩ := row_of_edgeFact seen
  obtain ⟨isSource, isFix⟩ := Prod.mk.inj same
  have current := reads.memory fix isMemory
  rw [isSource, ← leaves] at current
  dsimp only
  rw [← leaves, ← arrives]
  exact ⟨[row], .implied (reads.edge row read) (ofKind.trans kind) current isFix⟩

/-- What is posted under a key was read off a memory that has it. -/
theorem memory_of_posting {K L : Type} [DecidableEq K] {listOf : Memory → List L} {keyOf : L → K}
    {id : MemoryId} {key : K} (listed : (id, key) ∈ postings (memories.flatMap fun memory =>
      (listOf memory).map fun entry => (memory.id, keyOf entry))) :
    ∃ memory, s.currentMemory memory.id = some memory ∧ memory.id = id ∧
      ∃ entry ∈ listOf memory, keyOf entry = key := by
  obtain ⟨memory, isMemory, found⟩ := List.mem_flatMap.mp (List.mem_of_mem_filter listed)
  obtain ⟨entry, has, same⟩ := List.mem_map.mp found
  cases same
  exact ⟨memory, reads.memory memory isMemory, rfl, entry, has, rfl⟩

theorem applies_of_sharedEntity {fact : MemoryId × MemoryId × EntityId}
    (derived : fact ∈ Rules.sharedEntity (postings (memories.flatMap fun memory =>
      memory.context.entities.map (memory.id, ·)))) :
    ∃ premises, engine.Applies s .r7 fact.1 fact.2.1 premises := by
  obtain ⟨left, right, apart⟩ := Rules.mem_shared.mp derived
  obtain ⟨source, here, isSource, _, mentions, rfl⟩ := memory_of_posting reads left
  obtain ⟨target, there, isTarget, _, shares, rfl⟩ := memory_of_posting reads right
  rw [← isSource, ← isTarget] at apart ⊢
  exact ⟨[], .entity here there mentions shares apart⟩

theorem applies_of_sharedTag {fact : MemoryId × MemoryId × UInt32}
    (derived : fact ∈ Rules.sharedTag (postings (memories.flatMap fun memory =>
      memory.tags.map fun tag => (memory.id, Rules.fxhashTag tag)))) :
    ∃ premises, engine.Applies s .r9 fact.1 fact.2.1 premises := by
  obtain ⟨left, right, apart⟩ := Rules.mem_shared.mp derived
  obtain ⟨source, here, isSource, tag, tagged, hash⟩ := memory_of_posting reads left
  obtain ⟨target, there, isTarget, other, shares, hash'⟩ := memory_of_posting reads right
  rw [← isSource, ← isTarget] at apart ⊢
  exact ⟨[], .tag here there tagged shares (hash.trans hash'.symm) apart⟩

end Facts

theorem mem_of_mem_shuffle_dedup {α : Type} [DecidableEq α] {xs : List α} {x : α}
    (listed : x ∈ order.shuffle xs.dedup) : x ∈ xs :=
  List.mem_dedup.mp (order.mem_shuffle.mp listed)

/-- Every derived pair is one that its rule leads across. -/
structure Entails (engine : ReasoningEngine) (s : InMemoryStorage) (rows : List Relationship)
    (derived : Rules.Derived) : Prop where
  dependsOn : ∀ pair ∈ derived.transitiveDependsOn, ∃ left ∈ rows, ∃ right ∈ rows,
    Across engine.kinds.dependsOn engine.kinds.dependsOn pair left right
  requires : ∀ pair ∈ derived.transitiveRequires, ∃ left ∈ rows, ∃ right ∈ rows,
    Across engine.kinds.requires engine.kinds.requires pair left right
  buildsOn : ∀ pair ∈ derived.transitiveBuildsOn, ∃ left ∈ rows, ∃ right ∈ rows,
    Across engine.kinds.buildsOn engine.kinds.buildsOn pair left right
  blocks : ∀ pair ∈ derived.indirectBlocker, ∃ left ∈ rows, ∃ right ∈ rows,
    Across engine.kinds.blocks engine.kinds.requires pair left right
  contradicts : ∀ pair ∈ derived.contradictionPropagates, ∃ left ∈ rows, ∃ right ∈ rows,
    Across engine.kinds.contradicts engine.kinds.confirms pair left right
  entity : ∀ pair ∈ derived.coOccurrenceAffinity,
    ∃ premises, engine.Applies s .r7 pair.1 pair.2 premises
  bridge : ∀ pair ∈ derived.problemSolutionBridge,
    ∃ premises, engine.Applies s .r8 pair.1 pair.2 premises
  tag : ∀ pair ∈ derived.similarTagsAffinity,
    ∃ premises, engine.Applies s .r9 pair.1 pair.2 premises
  implied : ∀ pair ∈ derived.impliedSolves,
    ∃ premises, engine.Applies s .d1 pair.1 pair.2 premises
  lineage : ∀ pair ∈ derived.sharedTarget,
    ∃ premises, engine.Applies s .d5 pair.1 pair.2 premises
  cohort : ∀ pair ∈ cohortPairs derived.sessionCohort,
    ∃ premises, engine.Applies s .d6 pair.1 pair.2 premises

variable (engine) in
theorem entails_evaluate (order : RuleId → HashOrder) (reads : Reads s memories around.rows) :
    Entails engine s around.rows (Rules.evaluate engine.kinds order around.edgeFacts
      (postings (memories.flatMap fun memory => memory.context.entities.map (memory.id, ·)))
      (postings (memories.flatMap fun memory =>
        memory.tags.map fun tag => (memory.id, Rules.fxhashTag tag)))
      (memories.map fun memory => (memory.id, memory.memoryType))) where
  dependsOn _ listed := rows_of_chained (mem_of_mem_shuffle_dedup listed)
  requires _ listed := rows_of_chained (mem_of_mem_shuffle_dedup listed)
  buildsOn _ listed := rows_of_chained (mem_of_mem_shuffle_dedup listed)
  blocks _ listed := rows_of_chained (mem_of_mem_shuffle_dedup listed)
  contradicts _ listed := rows_of_chained (mem_of_mem_shuffle_dedup listed)
  entity pair listed := by
    obtain ⟨fact, isFact, rfl⟩ := List.mem_map.mp listed
    exact applies_of_sharedEntity reads (mem_of_mem_shuffle_dedup isFact)
  bridge _ listed := applies_of_joined reads rfl (mem_of_mem_shuffle_dedup listed)
  tag pair listed := by
    obtain ⟨fact, isFact, rfl⟩ := List.mem_map.mp listed
    exact applies_of_sharedTag reads (mem_of_mem_shuffle_dedup isFact)
  implied _ listed := applies_of_impliedSolves reads (mem_of_mem_shuffle_dedup listed)
  lineage _ listed := applies_of_joined reads rfl (mem_of_mem_shuffle_dedup listed)
  cohort _ listed := applies_of_cohort reads (fun _ => mem_of_mem_shuffle_dedup) listed

theorem entails_derive (reads : Reads s (memoryRows orders s around) around.rows) :
    Entails engine s around.rows (engine.derive orders s around) := by
  have whole := entails_evaluate engine orders.pairs reads
  rw [derive]
  split
  · exact { whole with
      entity := fun pair kept => whole.entity pair (List.mem_of_mem_take kept)
      tag := fun pair kept => whole.tag pair (List.mem_of_mem_take kept) }
  · exact whole

/-- The edge of each derived pair is justified. -/
theorem derivedRows_justified {derived : Rules.Derived} (reads : Reads s memories rows)
    (entails : Entails engine s rows derived)
    (written : edge ∈ engine.derivedRows now memories rows derived) :
    ∃ rule premises source target, engine.Justified s edge rule premises source target := by
  simp only [derivedRows, List.mem_append, or_assoc] at written
  rcases written with r4 | r5 | r7 | r8 | r9 | d1 | d2 | d3 | d4 | d5 | d6
  · exact ⟨.r4, hopRows_justified reads rfl entails.dependsOn r4⟩
  · exact ⟨.r5, hopRows_justified reads rfl entails.requires r5⟩
  · exact ⟨.r7, affinityRows_justified reads rfl entails.entity r7⟩
  · exact ⟨.r8, bridgeRows_justified reads rfl entails.bridge r8⟩
  · exact ⟨.r9, affinityRows_justified reads rfl entails.tag r9⟩
  · exact ⟨.d1, bridgeRows_justified reads rfl entails.implied d1⟩
  · exact ⟨.d2, hopRows_justified reads rfl entails.buildsOn d2⟩
  · exact ⟨.d3, hopRows_justified reads rfl entails.blocks d3⟩
  · exact ⟨.d4, hopRows_justified reads rfl entails.contradicts d4⟩
  · exact ⟨.d5, bridgeRows_justified reads rfl entails.lineage d5⟩
  · exact ⟨.d6, bridgeRows_justified reads rfl entails.cohort d6⟩

/-- **Every edge that a pass writes back comes from an application of its rule.** -/
theorem passRows_justified (keyed : InMemoryStorage.Keyed s.rows) {seeds : List MemoryId} {k : ℕ}
    (written : edge ∈ engine.passRows orders s seeds k now) :
    ∃ rule premises source target, engine.Justified s edge rule premises source target := by
  have reads := reads_neighborhood keyed engine orders seeds k
  have capped := List.mem_of_mem_filter written
  have kept := mem_of_mem_dedupByKey (List.mem_of_mem_take capped)
  exact derivedRows_justified reads (entails_derive reads) ((List.mem_insertionSort _).mp kept)

end ReasoningEngine

end Exocortex
