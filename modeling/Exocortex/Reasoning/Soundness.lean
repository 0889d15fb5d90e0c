import Exocortex.Ops.Chains
import Exocortex.Reasoning.Access

/-!
# Derived edges and their explanations

A derived edge runs between memories that are there, and comes from an application of its rule
to open edges or shared attributes. Where the rule chains two edges, these are its evidence; an
explanation then reports them with the edge, and they lead from its source to its target. The
bridges carry no evidence.

A chain may lead back to where it started: only the bridges ask for two different memories.
-/

namespace Exocortex

variable {engine : ReasoningEngine} {orders : PassOrders} {s : InMemoryStorage}
  {seeds : List MemoryId} {k : ℕ} {now : DateTime} {edge : Relationship}

theorem passRows_fresh (keyed : InMemoryStorage.Keyed s.rows)
    (written : edge ∈ engine.passRows orders s seeds k now) :
    s.currentRelationship edge.id = none := by
  obtain ⟨candidate, fresh⟩ := List.mem_filter.mp written
  cases there : s.currentRelationship edge.id with
  | none => rfl
  | some row =>
      refine absurd (List.mem_map.mpr ⟨row, ?_, keyed.relationship_id there⟩)
        (of_decide_eq_true fresh)
      exact List.mem_filterMap.mpr ⟨edge.id, List.mem_map_of_mem candidate, there⟩

variable {operationKey : Option String} {premises : List Relationship} {rule : RuleId}
  {start finish : MemoryId}

/-- The rows that are not there are stored, unless the operation was carried out before. -/
theorem writeBack_stores {memories : List Memory} {rows : List Relationship}
    {derived : Rules.Derived} (new : ∀ key ∈ operationKey, key ∉ s.governedImports)
    (ok : (engine.writeBack s now memories rows derived operationKey).reply = .ok ())
    (written : edge ∈ engine.freshRows s now memories rows derived) :
    ∃ lsn, { edge with lsn := lsn } ∈
      (engine.writeBack s now memories rows derived operationKey).post.rels.history edge.id := by
  cases operationKey with
  | none =>
      have some : (engine.freshRows s now memories rows derived).isEmpty = false := by
        rw [List.isEmpty_eq_false_iff]
        exact List.ne_nil_of_mem written
      simp only [ReasoningEngine.writeBack, some, Bool.false_eq_true, if_false,
        InMemoryStorage.upsertBatch] at ok ⊢
      split at ok
      · cases ok
      · next batch =>
          exact InMemoryStorage.upsertBatchLocked_edges batch written
  | some key =>
      simp only [ReasoningEngine.writeBack, InMemoryStorage.upsertBatchOnce, if_neg (new key rfl)]
        at ok ⊢
      split at ok
      · cases ok
      · next batch =>
          have stored := InMemoryStorage.upsertBatchLocked_edges batch written
          exact stored

/-- **What a pass writes back is stored**, unless its operation was carried out before. -/
theorem tryKHopReason_stores (new : ∀ key ∈ operationKey, key ∉ s.governedImports)
    (ok : (engine.tryKHopReason orders s seeds k operationKey now).reply = .ok ())
    (written : edge ∈ engine.passRows orders s seeds k now) :
    ∃ lsn, { edge with lsn := lsn } ∈
      (engine.tryKHopReason orders s seeds k operationKey now).post.rels.history edge.id := by
  rw [ReasoningEngine.tryKHopReason] at ok ⊢
  split at ok
  · cases ok
  · next within =>
      rw [if_neg within]
      exact writeBack_stores new ok written

/-! ## Explanations -/

section Explanations

variable {ctx : OpContext} {g : Graph}

variable (ctx) in
/-- The explanation of a derived edge has what it was derived from as its inputs, with the text of
each that is there unless the walk uses up its budget. -/
theorem explainEdge_derived (row : Relationship) {ruleId : String}
    {evidence : List RelationshipId} (there : g.relationship row.id = some row)
    (derived : row.provenance = .derived ruleId evidence) (some : evidence ≠ [])
    (apart : row.id ∉ evidence) (source : (g.seesMemory ctx.visibility row.source).isSome)
    (target : (g.seesMemory ctx.visibility row.target).isSome) :
    explainEdge ctx g row.id = .ok (.derived row.id (ctx.edgeText row)
      (evidence.map (ExplainEngine.walk (explainChain ctx g row.id) 4))) ∧
    ∀ parent ∈ evidence, ∀ premise ∈ g.relationship parent,
      ExplainEngine.edgeOf (explainChain ctx g row.id) parent = ctx.edgeText premise ∨
        (explainReads g row.id).length = explainBudget := by
  have walk : explainReads g row.id = row.id ::
      Library.visits g.evidenceOf 63 (Library.push evidence [] [row.id]).1
        (Library.push evidence [] [row.id]).2 := by
    have leads : g.evidenceOf row.id = evidence := by
      rw [Graph.evidenceOf, there, Option.map_some, derived]
      rfl
    rw [explainReads, explainBudget, Library.visits, leads]
  refine ⟨?_, fun parent listed premise found => ?_⟩
  · have own : ExplainEngine.factsOf (explainChain ctx g row.id) row.id = ctx.edgeFacts row := by
      rw [factsOf_explainChain, if_pos (read_self g row.id), there]
      rfl
    have parents : ExplainEngine.parentsOf (explainChain ctx g row.id) row.id = evidence := by
      rw [ExplainEngine.parentsOf, own]
      exact congrArg Provenance.evidence derived
    rw [explainEdge_ok there source target (by rw [derived]; rfl), ExplainEngine.explainTree,
      ExplainEngine.walk, parents, ExplainEngine.edgeOf, own, if_neg (by simpa using some)]
    rfl
  · obtain ⟨new, pushed, -, isNew⟩ := Library.push_spec evidence [] [row.id]
    have waits : parent ∈ (Library.push evidence [] [row.id]).1 := by
      rw [pushed, List.append_nil, isNew, List.mem_singleton]
      exact ⟨listed, fun same => apart (same ▸ listed)⟩
    rcases Library.visits_of_waiting 63 waits with read | spent
    · refine .inl (edgeOf_explainChain.mpr ⟨?_, premise, found, rfl⟩)
      rw [walk]
      exact List.mem_cons_of_mem _ read
    · right
      rw [walk, List.length_cons, spent]
      rfl

end Explanations

/-! ## Soundness -/

/-- Two edges that lead from a memory to another. -/
def LeadsFrom (premises : List Relationship) (start finish : MemoryId) : Prop :=
  ∃ left right, premises = [left, right] ∧ left.source = start ∧ left.target = right.source ∧
    right.target = finish

theorem ReasoningEngine.Applies.apart (applies : engine.Applies s rule start finish premises)
    (bridge : engine.chainKinds rule = none) (other : rule ≠ .d1) : start ≠ finish := by
  cases applies with
  | chain kinds =>
      rw [bridge] at kinds
      cases kinds
  | join _ _ _ _ _ _ apart => exact apart
  | implied => exact absurd rfl other
  | entity _ _ _ _ apart => exact apart
  | tag _ _ _ _ _ apart => exact apart

theorem ReasoningEngine.Applies.leads (applies : engine.Applies s rule start finish premises)
    (chain : (engine.chainKinds rule).isSome) : LeadsFrom premises start finish := by
  cases applies with
  | chain _ _ _ _ _ meet => exact ⟨_, _, rfl, rfl, meet, rfl⟩
  | @join _ _ left right kinds =>
      cases rule with
      | r8 | d5 | d6 => cases chain
      | _ => cases kinds
  | implied | entity | tag => cases chain

/-- What an explanation of a derived edge shows of its premises, in a graph that has them all. -/
def Explained (edge : Relationship) (premises : List Relationship) : Prop :=
  ∀ (ctx : OpContext) (g : Graph) (lsn : LSN),
    g.relationship edge.id = some { edge with lsn := lsn } →
    (∀ premise ∈ premises, g.relationship premise.id = some premise) →
    (g.seesMemory ctx.visibility edge.source).isSome →
    (g.seesMemory ctx.visibility edge.target).isSome →
    explainEdge ctx g edge.id = .ok (.derived edge.id (ctx.edgeText edge)
      (premises.map fun premise =>
        ExplainEngine.walk (explainChain ctx g edge.id) 4 premise.id)) ∧
      ∀ premise ∈ premises,
        ExplainEngine.edgeOf (explainChain ctx g edge.id) premise.id = ctx.edgeText premise ∨
          (explainReads g edge.id).length = explainBudget

theorem explained_of_fresh
    (provenance : edge.provenance = .derived rule.text (premises.map (·.id)))
    (some : premises ≠ []) (fresh : s.currentRelationship edge.id = none)
    (isOpen : ∀ premise ∈ premises, OpenEdge s premise) : Explained edge premises := by
  intro ctx g lsn there premises_there source target
  have apart : edge.id ∉ premises.map (·.id) := by
    intro listed
    obtain ⟨premise, member, same⟩ := List.mem_map.mp listed
    have current := (isOpen premise member).current
    rw [same, fresh] at current
    cases current
  obtain ⟨ok, parents⟩ := explainEdge_derived ctx { edge with lsn := lsn } there provenance
    (by simpa using some) apart source target
  refine ⟨?_, fun premise member => ?_⟩
  · rw [List.map_map] at ok
    exact ok
  · exact parents premise.id (List.mem_map_of_mem member) premise (premises_there premise member)

/-- **A derived edge is sound**: it comes from a rule applied to open edges or shared attributes.
Two edges that a rule chains are its evidence, lead from its source to its target, and are
explained with it. An affinity or a bridge joins two different memories and has no evidence. -/
theorem passRows_sound (engine : ReasoningEngine) (orders : PassOrders)
    (s : InMemoryStorage) (keyed : InMemoryStorage.Keyed s.rows) (seeds : List MemoryId) (k : ℕ)
    (now : DateTime) (edge : Relationship) (written : edge ∈ engine.passRows orders s seeds k now) :
    ∃ rule premises, engine.Applies s rule edge.source edge.target premises ∧
      edge.provenance.ruleId = some rule.text ∧
      (∀ premise ∈ premises, OpenEdge s premise) ∧
      (s.currentMemory edge.source).isSome ∧ (s.currentMemory edge.target).isSome ∧
      (rule ∈ [.r4, .r5, .d2, .d3, .d4] →
        edge.provenance.evidence = premises.map (·.id) ∧
          LeadsFrom premises edge.source edge.target ∧ Explained edge premises) ∧
      (rule ∈ [.r7, .r8, .r9, .d5, .d6] →
        edge.provenance.evidence = [] ∧ edge.source ≠ edge.target) := by
  obtain ⟨rule, premises, source, target, justified⟩ :=
    ReasoningEngine.passRows_justified keyed written
  have isOpen := justified.applies.isOpen
  refine ⟨rule, premises, justified.applies, ?_, isOpen, by rw [justified.sourceRow]; rfl,
    by rw [justified.targetRow]; rfl, fun chain => ?_, fun bridge => ?_⟩
  · rw [justified.provenance]
    rfl
  · have chained : (engine.chainKinds rule).isSome := by
      cases rule <;> first | rfl | simp at chain
    have provenance := justified.provenance
    rw [ReasoningEngine.recorded, if_pos chained] at provenance
    have leads := justified.applies.leads chained
    have some : premises ≠ [] := by
      obtain ⟨left, right, rfl, -⟩ := leads
      exact List.cons_ne_nil _ _
    refine ⟨?_, leads, explained_of_fresh provenance some (passRows_fresh keyed written) isOpen⟩
    rw [provenance]
    rfl
  · have bare : engine.chainKinds rule = none := by
      cases rule <;> first | rfl | simp at bridge
    refine ⟨?_, justified.applies.apart bare ?_⟩
    · rw [justified.provenance, ReasoningEngine.recorded, bare]
      rfl
    · rintro rfl
      simp at bridge

/-- Two solutions of a problem are related for no recorded reason. -/
theorem passRows_sound_bridge :
    ∃ edge ∈ reasoningEngine.passRows knownOrders bridgeStore [⟨.fill 16 1⟩] 2 7,
      ∃ rule premises,
        reasoningEngine.Applies bridgeStore rule edge.source edge.target premises := by
  have some : reasoningEngine.passRows knownOrders bridgeStore [⟨.fill 16 1⟩] 2 7 ≠ [] := by
    decide +kernel
  obtain ⟨edge, written⟩ := List.exists_mem_of_ne_nil _ some
  obtain ⟨rule, premises, applies, -⟩ := passRows_sound reasoningEngine knownOrders bridgeStore
    bridgeStore_keyed [⟨.fill 16 1⟩] 2 7 edge written
  exact ⟨edge, written, rule, premises, applies⟩

/-- A bridge does not name the edges that it rests on. -/
theorem not_passRows_sound :
    ¬ ∀ (engine : ReasoningEngine) (orders : PassOrders) (s : InMemoryStorage),
      InMemoryStorage.Keyed s.rows → ∀ (seeds : List MemoryId) (k : ℕ) (now : DateTime),
      ∀ edge ∈ engine.passRows orders s seeds k now, edge.source ≠ edge.target ∧
        ∃ rule premises, engine.Applies s rule edge.source edge.target premises ∧
          edge.provenance = .derived rule.text (premises.map (·.id)) := by
  intro always
  have bridged : ∃ edge ∈ reasoningEngine.passRows knownOrders bridgeStore [⟨.fill 16 1⟩] 2 7,
      edge.provenance = .derived "R8" [] := by
    decide +kernel
  obtain ⟨edge, written, provenance⟩ := bridged
  obtain ⟨-, rule, premises, applies, recorded⟩ := always reasoningEngine knownOrders bridgeStore
    bridgeStore_keyed [⟨.fill 16 1⟩] 2 7 edge written
  rw [provenance, Provenance.derived.injEq] at recorded
  obtain ⟨named, none⟩ := recorded
  have isBridge : RuleId.r8.text = rule.text := named
  obtain rfl := RuleId.text_inj isBridge
  obtain rfl := List.map_eq_nil_iff.mp none.symm
  generalize edge.source = start, edge.target = finish at applies
  cases applies

end Exocortex
