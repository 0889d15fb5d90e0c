import Exocortex.Reasoning.Derivations
import Exocortex.Storage.JointReaders
import Exocortex.Storage.Views

/-!
# Who sees a derived edge

The label of a derived edge is the narrowest of its two ends and of its recorded evidence. So an
edge between two memories is seen by whoever sees both, or, where a recorded edge is narrower than
both and than the organization, by nobody.

That is not enough to keep the premises from those who must not see them: the bridges record no
evidence, and of the chained edges only the labels count, not whose labels they are. A derived
edge gives nothing away exactly when nobody sees it, or when every premise of it is open to
whoever sees its two ends (`passRows_guarded_iff`).
-/

namespace Exocortex

/-! ## The label of a derived edge -/

theorem narrowestVisibility_spec {labels : List Visibility} {narrowest : Visibility}
    (found : narrowestVisibility labels = some narrowest) :
    narrowest ∈ labels ∧ ∀ label ∈ labels, narrowest.rank ≤ label.rank := by
  cases labels with
  | nil => cases found
  | cons first rest =>
      cases found
      refine ⟨foldl_relationshipVisibility_mem rest first, fun label listed => ?_⟩
      rcases List.mem_cons.mp listed with rfl | later
      · exact (foldl_relationshipVisibility_le _ _).1
      · exact (foldl_relationshipVisibility_le _ _).2 label later

namespace ReasoningEngine

variable {engine : ReasoningEngine} {s : InMemoryStorage} {edge : Relationship} {rule : RuleId}
  {premises : List Relationship} {source target : Memory}

/-- A recorded edge is narrower than both ends and than the organization. -/
def Darkened (engine : ReasoningEngine) (rule : RuleId) (premises : List Relationship)
    (source target : Memory) : Prop :=
  ∃ premise ∈ engine.recorded rule premises, premise.visibility.rank < 3 ∧
    premise.visibility.rank < source.visibility.rank ∧
    premise.visibility.rank < target.visibility.rank

instance (rule : RuleId) (premises : List Relationship) (source target : Memory) :
    Decidable (engine.Darkened rule premises source target) :=
  inferInstanceAs (Decidable (∃ premise ∈ engine.recorded rule premises, _))

theorem rank_inj {label other : Visibility} (same : label.rank = other.rank) : label = other := by
  cases label <;> cases other <;> first | rfl | cases same

theorem Justified.carried_iff (justified : engine.Justified s edge rule premises source target) :
    Carried edge source target ↔ ¬ engine.Darkened rule premises source target := by
  obtain ⟨one, least⟩ := narrowestVisibility_spec justified.label
  have belowSource := least source.visibility List.mem_cons_self
  have belowTarget := least target.visibility (List.mem_cons_of_mem _ List.mem_cons_self)
  constructor
  · rintro carried ⟨premise, recorded, belowOrg, underSource, underTarget⟩
    have below := least premise.visibility (List.mem_cons_of_mem _ (List.mem_cons_of_mem _
      (List.mem_map_of_mem recorded)))
    rcases carried with isOrg | same | same
    · have low : edge.visibility.rank < 3 := lt_of_le_of_lt below belowOrg
      cases label : edge.visibility <;> rw [label] at isOrg low <;>
        first | exact absurd low (by decide) | cases isOrg
    · rw [same] at below
      exact absurd underSource (Nat.not_lt.mpr below)
    · rw [same] at below
      exact absurd underTarget (Nat.not_lt.mpr below)
  · intro bright
    by_contra uncarried
    rw [Carried, not_or, not_or] at uncarried
    obtain ⟨notOrg, notSource, notTarget⟩ := uncarried
    rcases List.mem_cons.mp one with same | more
    · exact notSource same
    · rcases List.mem_cons.mp more with same | recorded
      · exact notTarget same
      · obtain ⟨premise, listed, same⟩ := List.mem_map.mp recorded
        have under (label : Visibility) (below : edge.visibility.rank ≤ label.rank)
            (other : edge.visibility ≠ label) : edge.visibility.rank < label.rank :=
          lt_of_le_of_ne below fun ranks => other (rank_inj ranks)
        refine bright ⟨premise, listed, ?_⟩
        rw [same]
        refine ⟨?_, under _ belowSource notSource, under _ belowTarget notTarget⟩
        cases label : edge.visibility <;> rw [label] at notOrg <;>
          first | decide | exact absurd rfl notOrg

/-- A derived edge is seen by whoever sees its two ends, unless it is seen by nobody. -/
theorem Justified.visible_iff (justified : engine.Justified s edge rule premises source target)
    {vc : VisibilityContext} :
    relationshipVisible edge source target vc ↔ memoryVisible source vc ∧
      memoryVisible target vc ∧ ¬ engine.Darkened rule premises source target := by
  rw [relationshipVisible_iff, justified.carried_iff]
  constructor
  · rintro ⟨seesSource, seesTarget, -, bright⟩
    exact ⟨seesSource, seesTarget, bright⟩
  · rintro ⟨seesSource, seesTarget, bright⟩
    refine ⟨seesSource, seesTarget, ?_, bright⟩
    have low := (narrowestVisibility_spec justified.label).2 source.visibility List.mem_cons_self
    refine le_trans ?_ (memoryVisible_ceiling seesSource)
    revert low
    cases edge.visibility <;> cases source.visibility <;> decide

/-! ## What an edge rests on -/

theorem Applies.isOpen {start finish : MemoryId}
    (applies : engine.Applies s rule start finish premises) :
    ∀ premise ∈ premises, OpenEdge s premise := by
  cases applies with
  | chain _ leftOpen rightOpen | join _ leftOpen rightOpen => simp [leftOpen, rightOpen]
  | implied isOpen => simp [isOpen]
  | entity | tag => simp

/-- An application that an edge may come from: one of its rule between its ends, with the recorded
edges as its evidence. -/
structure RestsOn (engine : ReasoningEngine) (s : InMemoryStorage) (edge : Relationship)
    (rule : RuleId) (premises : List Relationship) : Prop where
  applies : engine.Applies s rule edge.source edge.target premises
  provenance : edge.provenance = .derived rule.text ((engine.recorded rule premises).map (·.id))

theorem Justified.restsOn (justified : engine.Justified s edge rule premises source target) :
    engine.RestsOn s edge rule premises := ⟨justified.applies, justified.provenance⟩

theorem recorded_isOpen (isOpen : ∀ premise ∈ premises, OpenEdge s premise) :
    ∀ premise ∈ engine.recorded rule premises, OpenEdge s premise := by
  rw [recorded]
  split
  · exact isOpen
  · exact fun _ none => absurd none List.not_mem_nil

/-- Current rows are told apart by their identities. -/
theorem eq_of_map_id {rows others : List Relationship} (current : ∀ row ∈ rows, OpenEdge s row)
    (current' : ∀ row ∈ others, OpenEdge s row) (same : rows.map (·.id) = others.map (·.id)) :
    rows = others := by
  induction rows generalizing others with
  | nil => exact (List.map_eq_nil_iff.mp same.symm).symm
  | cons row rows ih =>
      cases others with
      | nil => cases same
      | cons other others =>
          rw [List.map_cons, List.map_cons, List.cons.injEq] at same
          rw [List.forall_mem_cons] at current current'
          have first := current.1.current
          rw [same.1, current'.1.current] at first
          rw [Option.some.inj first, ih current.2 current'.2 same.2]

/-- All applications that an edge may come from have the same recorded edges. -/
theorem RestsOn.justified {rule' : RuleId} {premises' : List Relationship}
    (rests : engine.RestsOn s edge rule' premises')
    (justified : engine.Justified s edge rule premises source target) :
    engine.Justified s edge rule' premises' source target := by
  have provenance := rests.provenance.symm.trans justified.provenance
  rw [Provenance.derived.injEq] at provenance
  obtain rfl := RuleId.text_inj provenance.1
  have same := eq_of_map_id (recorded_isOpen rests.applies.isOpen)
    (recorded_isOpen justified.applies.isOpen) provenance.2
  exact ⟨rests.applies, rests.provenance, justified.sourceRow, justified.targetRow,
    same ▸ justified.label⟩

/-- Whoever sees the edge sees its ends and the premises. -/
def Guarded (g : Graph) (edge : Relationship) (premises : List Relationship) : Prop :=
  ∀ vc, g.edgeVisible vc edge →
    (g.seesMemory vc edge.source).isSome ∧ (g.seesMemory vc edge.target).isSome ∧
      ∀ premise ∈ premises, g.edgeVisible vc premise

/-- No caller sees both memories, or a recorded edge is too narrow for all of them, or the
premises are open to whoever sees both. -/
def Shielded (engine : ReasoningEngine) (g : Graph) (rule : RuleId) (start finish : MemoryId)
    (premises : List Relationship) : Prop :=
  ∀ source ∈ g.memory start, ∀ target ∈ g.memory finish, source.Together target →
    engine.Darkened rule premises source target ∨
      ∀ premise ∈ premises, ∃ left ∈ g.memory premise.source, ∃ right ∈ g.memory premise.target,
        OpenTo source target premise left right

/-- An edge is visible to some of those who see two memories only if its ends are there. -/
theorem edgeVisible_all_iff {g : Graph} {premise : Relationship}
    (together : source.Together target) :
    (∀ vc, memoryVisible source vc → memoryVisible target vc → g.edgeVisible vc premise) ↔
      ∃ left ∈ g.memory premise.source, ∃ right ∈ g.memory premise.target,
        OpenTo source target premise left right := by
  constructor
  · intro sees
    obtain ⟨vc, seesSource, seesTarget, -⟩ := exists_joint_reader together source
    have one := sees vc seesSource seesTarget
    rw [Graph.edgeVisible] at one
    split at one
    · next left right foundLeft foundRight =>
        refine ⟨left, foundLeft, right, foundRight, edge_open_to_both_iff.mp ?_ together⟩
        intro vc seesSource seesTarget
        have visible := sees vc seesSource seesTarget
        rwa [Graph.edgeVisible, foundLeft, foundRight] at visible
    · cases one
  · rintro ⟨left, foundLeft, right, foundRight, opened⟩ vc seesSource seesTarget
    have visible := edge_open_to_both_iff.mpr (fun _ => opened) vc seesSource seesTarget
    rw [Graph.edgeVisible, Option.mem_def.mp foundLeft, Option.mem_def.mp foundRight]
    exact visible

theorem Justified.guarded_iff {keyed : InMemoryStorage.Keyed s.rows}
    (justified : engine.Justified s edge rule premises source target) :
    Guarded (s.graph keyed) edge premises ↔
      engine.Shielded (s.graph keyed) rule edge.source edge.target premises := by
  have visible (vc : VisibilityContext) : (s.graph keyed).edgeVisible vc edge ↔
      memoryVisible source vc ∧ memoryVisible target vc ∧
        ¬ engine.Darkened rule premises source target := by
    rw [← justified.visible_iff, Graph.edgeVisible]
    simp only [InMemoryStorage.graph, justified.sourceRow, justified.targetRow]
  constructor
  · intro guarded here isSource there isTarget together
    obtain rfl := Option.some.inj (justified.sourceRow.symm.trans isSource)
    obtain rfl := Option.some.inj (justified.targetRow.symm.trans isTarget)
    refine or_iff_not_imp_left.mpr fun bright premise listed => ?_
    refine (edgeVisible_all_iff together).mp fun vc seesSource seesTarget => ?_
    exact (guarded vc ((visible vc).mpr ⟨seesSource, seesTarget, bright⟩)).2.2 premise listed
  · intro shielded vc seen
    obtain ⟨seesSource, seesTarget, bright⟩ := (visible vc).mp seen
    have together := together_of_readers seesSource seesTarget
    refine ⟨(Graph.edgeVisible_ends seen).1, (Graph.edgeVisible_ends seen).2, ?_⟩
    intro premise listed
    rcases shielded source justified.sourceRow target justified.targetRow together with dark | opens
    · exact absurd dark bright
    · exact (edgeVisible_all_iff together).mpr (opens premise listed) vc seesSource seesTarget

end ReasoningEngine

/-- **A derived edge gives nothing away exactly when it is shielded**: there is an application that
it comes from, and for each such application, whoever sees the edge sees its ends and the premises
if and only if nobody sees the edge or the premises are open to all who see its ends. -/
theorem passRows_guarded_iff (engine : ReasoningEngine) (orders : PassOrders)
    (s : InMemoryStorage) (keyed : InMemoryStorage.Keyed s.rows) (seeds : List MemoryId) (k : ℕ)
    (now : DateTime) (edge : Relationship) (written : edge ∈ engine.passRows orders s seeds k now) :
    (∃ rule premises, engine.RestsOn s edge rule premises) ∧
      ∀ rule premises, engine.RestsOn s edge rule premises →
        (ReasoningEngine.Guarded (s.graph keyed) edge premises ↔
          engine.Shielded (s.graph keyed) rule edge.source edge.target premises) := by
  obtain ⟨rule, premises, source, target, justified⟩ :=
    ReasoningEngine.passRows_justified keyed written
  exact ⟨⟨rule, premises, justified.restsOn⟩,
    fun rule' premises' rests => (rests.justified justified).guarded_iff⟩

/-! ## A bridge over a hidden problem -/

/-- A pack with the kinds that the rules name. -/
def reasoningPack : PackDef where
  name := "reasoning"
  memoryTypeNames :=
    ["Task", "CodePattern", "Problem", "Solution", "Project", "Technology", "Error", "Fix"]
  entityTypeNames := ["File"]
  kinds := [
    ⟨⟨⟨0⟩, none, false⟩, "Solves", .solution, ⟨0x3f59999a#32⟩, false⟩,
    ⟨⟨⟨1⟩, none, false⟩, "Fixes", .causal, ⟨0x3f666666#32⟩, false⟩,
    ⟨⟨⟨2⟩, none, false⟩, "Causes", .causal, ⟨0x3f59999a#32⟩, false⟩,
    ⟨⟨⟨3⟩, none, false⟩, "InSession", .context, ⟨0x3f4ccccd#32⟩, false⟩,
    ⟨⟨⟨4⟩, none, false⟩, "DependsOn", .context, ⟨0x3f333333#32⟩, false⟩,
    ⟨⟨⟨5⟩, none, false⟩, "Requires", .context, ⟨0x3f333333#32⟩, false⟩,
    ⟨⟨⟨6⟩, none, false⟩, "BuildsOn", .learning, ⟨0x3f333333#32⟩, false⟩,
    ⟨⟨⟨7⟩, none, false⟩, "Blocks", .causal, ⟨0x3f400000#32⟩, false⟩,
    ⟨⟨⟨8⟩, none, false⟩, "Contradicts", .learning, ⟨0x3f333333#32⟩, false⟩,
    ⟨⟨⟨9⟩, none, false⟩, "Confirms", .learning, ⟨0x3f333333#32⟩, false⟩,
    ⟨⟨⟨10⟩, none, false⟩, "Modifies", .context, ⟨0x3f333333#32⟩, false⟩,
    ⟨⟨⟨11⟩, none, false⟩, "RelatedTo", .context, ⟨0x3f000000#32⟩, false⟩]
  typeTriples := []
  ruleIds := []
  actions := []
  functions := []

def reasoningOntology : EffectiveOntology where
  packs := [reasoningPack]
  packNames := by decide
  memoryTypes := by decide
  entityTypes := by decide
  kindIds := by decide
  kindNames := by decide
  bound := by decide

def reasoningEngine : ReasoningEngine where
  env := { Env.blank with blake3 := fun bytes => .fill 32 (bytes.foldl (· + ·) 0) }
  ontology := reasoningOntology
  kinds := ⟨⟨4⟩, ⟨5⟩, ⟨6⟩, ⟨7⟩, ⟨8⟩, ⟨9⟩, ⟨10⟩⟩
  relatedTo := ⟨11⟩
  primed := by decide +kernel
  related := by decide +kernel
  kHop := 3
  keep := fun length _ => length

def knownOrders : PassOrders := ⟨fun _ => .asKnown, .asKnown, fun _ => .asKnown⟩

/-- A memory of a type with a label. -/
def typedMemory (index memoryType : UInt8) (label : Visibility) (user : String) : Memory :=
  { Memory.blank ⟨.fill 16 index⟩ with
    memoryType := memoryType, visibility := label,
    context := ⟨0, none, none, some "acme", none, some user, []⟩ }

/-- An edge of a kind with a label. -/
def typedEdge (index source target : UInt8) (kind : UInt32) (label : Visibility) :
    Relationship :=
  { Relationship.blank ⟨.fill 16 index⟩ ⟨.fill 16 source⟩ ⟨.fill 16 target⟩ with
    kind := ⟨kind⟩
    visibility := label
    provenance := .asserted "ada" none
    properties := ⟨.one, .one, none, 1, none, 0, 0, 0⟩ }

/-- Two solutions for everybody of a problem that only its author sees. -/
def bridgeStore : InMemoryStorage :=
  Call.runAll reasoningEngine.env .new [(0, .upsertBatch
    [typedMemory 1 3 .org "ada", typedMemory 2 3 .org "ada", typedMemory 3 2 .private "ada"]
    [typedEdge 101 1 3 0 .private, typedEdge 102 2 3 0 .private])]

theorem bridgeStore_keyed : InMemoryStorage.Keyed bridgeStore.rows :=
  InMemoryStorage.runAll_keyed _ _

/-- Another member of the organization. -/
def bob : VisibilityContext := ⟨"bob", "acme", [], [], .org⟩

theorem passRows_guarded_iff_bridge :
    ∃ edge ∈ reasoningEngine.passRows knownOrders bridgeStore [⟨.fill 16 1⟩] 2 7,
      ∃ rule premises, reasoningEngine.RestsOn bridgeStore edge rule premises ∧
        (ReasoningEngine.Guarded (bridgeStore.graph bridgeStore_keyed) edge premises ↔
          reasoningEngine.Shielded (bridgeStore.graph bridgeStore_keyed) rule edge.source
            edge.target premises) := by
  have some : reasoningEngine.passRows knownOrders bridgeStore [⟨.fill 16 1⟩] 2 7 ≠ [] := by
    decide +kernel
  obtain ⟨edge, written⟩ := List.exists_mem_of_ne_nil _ some
  obtain ⟨⟨rule, premises, rests⟩, guarded⟩ := passRows_guarded_iff reasoningEngine knownOrders
    bridgeStore bridgeStore_keyed [⟨.fill 16 1⟩] 2 7 edge written
  exact ⟨edge, written, rule, premises, rests, guarded rule premises rests⟩

/-- Everybody sees that the two solutions are related, and nobody else sees why. -/
theorem not_passRows_guarded :
    ¬ ∀ (engine : ReasoningEngine) (orders : PassOrders) (s : InMemoryStorage)
      (keyed : InMemoryStorage.Keyed s.rows) (seeds : List MemoryId) (k : ℕ) (now : DateTime),
      ∀ edge ∈ engine.passRows orders s seeds k now,
        ∃ rule premises, engine.RestsOn s edge rule premises ∧
          ReasoningEngine.Guarded (s.graph keyed) edge premises := by
  intro always
  have bridged : ∃ edge ∈ reasoningEngine.passRows knownOrders bridgeStore [⟨.fill 16 1⟩] 2 7,
      edge.provenance = .derived "R8" [] ∧
        (bridgeStore.graph bridgeStore_keyed).edgeVisible bob edge := by
    decide +kernel
  have hidden : ∀ id ∈ bridgeStore.rels.keys, ∀ row ∈ bridgeStore.currentRelationship id,
      ¬ (bridgeStore.graph bridgeStore_keyed).edgeVisible bob row := by
    decide +kernel
  obtain ⟨edge, written, provenance, visible⟩ := bridged
  obtain ⟨rule, premises, rests, guarded⟩ := always reasoningEngine knownOrders bridgeStore
    bridgeStore_keyed [⟨.fill 16 1⟩] 2 7 edge written
  obtain ⟨-, -, sees⟩ := guarded bob visible
  have named : RuleId.text .r8 = rule.text := by
    have same := provenance.symm.trans rests.provenance
    rw [Provenance.derived.injEq] at same
    exact same.1
  obtain rfl := RuleId.text_inj named
  have applies := rests.applies
  generalize edge.source = start, edge.target = finish at applies
  cases applies with
  | chain kinds => cases kinds
  | @join _ _ left right _ leftOpen =>
      have listed : left.id ∈ bridgeStore.rels.keys := by
        by_contra absent
        have current := leftOpen.current
        rw [InMemoryStorage.currentRelationship, Library.Table.history,
          AList.lookup_eq_none.mpr absent] at current
        cases current
      exact hidden left.id listed left leftOpen.current (sees left List.mem_cons_self)

end Exocortex
