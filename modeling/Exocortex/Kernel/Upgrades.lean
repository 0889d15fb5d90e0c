import Exocortex.Library.Recency
import Exocortex.Kernel.Compatibility

/-!
# Upgrading the ontology of a graph

One ontology is a part of another when everything that stored data depends on means the same in
both. Parts of parts are parts (`isSubsetOf_trans`), and everything that a part gives a meaning
to keeps it (`KeepsMeaning`); but a kind whose default strength is a NaN differs from itself, so
only an ontology of numbers is a part of itself (`isSubsetOf_self_iff`).

A graph carries the record of the ontology that was run on it last, and a node may run on it when
its own ontology contains the one in the record (`admitNodeGraph`). Then the record is replaced
(`pinFingerprint`), and the fingerprint of the ontology before is put in front of a short list of
fingerprints that producers may still offer.

The two fingerprints are hashes of encodings of the summary and of the packs. They are parameters
here, since all that the records rely on is that they are functions of these.
-/

namespace Exocortex

open Library

/-! ## Parts -/

theorem F32.eq_self_iff {x : F32} : x.eq x = true ↔ x.isNaN = false := by
  cases nan : x.isNaN <;> simp [F32.eq, nan]

theorem F32.eq_trans {x y z : F32} (first : x.eq y = true) (second : y.eq z = true) :
    x.eq z = true := by
  simp only [F32.eq, Bool.and_eq_true, Bool.or_eq_true, Bool.not_eq_true', decide_eq_true_eq]
    at first second ⊢
  obtain ⟨⟨left, -⟩, near⟩ := first
  obtain ⟨⟨-, right⟩, far⟩ := second
  refine ⟨⟨left, right⟩, ?_⟩
  cases x
  cases y
  cases z
  simp only at near far ⊢
  rcases near with rfl | near
  · exact far
  · rcases far with rfl | far
    · exact .inr near
    · exact .inr ⟨near.1, far.2⟩

/-- The derived equality of two rows of kinds. -/
def KindMeta.same (left right : KindMeta) : Bool :=
  left.toRelMeta = right.toRelMeta && left.displayName = right.displayName &&
    left.bucket = right.bucket && left.defaultStrength.eq right.defaultStrength &&
    left.computedOnly = right.computedOnly

theorem KindSummary.same_iff {left right : KindSummary} : left.same right = true ↔
    left.defaultStrength.eq right.defaultStrength = true ∧
      { left with defaultStrength := right.defaultStrength } = right := by
  rw [KindSummary.ext_iff]
  simp only [KindSummary.same, Bool.and_eq_true, decide_eq_true_eq]
  tauto

theorem bucketParts_inj {left right : RelBucket} (same : bucketParts left = bucketParts right) :
    left = right := by
  cases left <;> cases right <;> simp_all [bucketParts]

/-- A row of a summary has all that a pack says about its kind. -/
theorem KindMeta.same_of_summary {left right : KindMeta}
    (same : (kindSummary left).same (kindSummary right) = true) : left.same right = true := by
  obtain ⟨strengths, rest⟩ := KindSummary.same_iff.mp same
  obtain ⟨⟨⟨id⟩, inverse, both⟩, name, bucket, strength, computed⟩ := left
  obtain ⟨⟨⟨id'⟩, inverse', both'⟩, name', bucket', strength', computed'⟩ := right
  simp only [kindSummary, KindSummary.mk.injEq] at rest strengths
  obtain ⟨ids, names, tags, payloads, inverses, directions, -, computes⟩ := rest
  have buckets := bucketParts_inj (Prod.ext tags payloads)
  have inverses := Option.map_injective (fun x y same => congrArg RelKindId.mk same) inverses
  subst ids names buckets inverses directions computes
  simp [KindMeta.same, strengths]

variable {row : KindSummary} {summary : OntologySummary} {rule : TripleSummary}
  {previous ours : EffectiveOntology} {earlier : List EffectiveOntology}

theorem KindSummary.same_self_iff : row.same row = true ↔ row.defaultStrength.isNaN = false := by
  simp [KindSummary.same_iff, F32.eq_self_iff]

theorem KindSummary.same_trans {first second third : KindSummary}
    (near : first.same second = true) (far : second.same third = true) :
    first.same third = true := by
  rw [KindSummary.same_iff] at near far ⊢
  refine ⟨F32.eq_trans near.1 far.1, ?_⟩
  rw [← far.2, ← near.2]

theorem contains_self {α : Type} [BEq α] [LawfulBEq α] (xs : List α) :
    xs.all xs.contains = true := by
  rw [List.all_eq_true]
  intro x member
  exact List.contains_iff_mem.mpr member

theorem covers_self (side : Option (List UInt8)) : covers side side = true := by
  cases side with
  | none => rfl
  | some types => exact contains_self types

/-- A side that covers a list of types lets every one of them in. -/
theorem covers_all {part whole : Option (List UInt8)} (covered : covers part whole = true)
    {number : UInt8} (inPart : part.all (·.contains number) = true) :
    whole.all (·.contains number) = true := by
  cases whole with
  | none => rfl
  | some types =>
      cases part with
      | none => cases covered
      | some listed =>
          exact List.all_eq_true.mp covered number (List.contains_iff_mem.mp inPart)

theorem covers_trans {first second third : Option (List UInt8)}
    (near : covers first second = true) (far : covers second third = true) :
    covers first third = true := by
  cases third with
  | none => cases first <;> rfl
  | some types =>
      cases second with
      | none => cases far
      | some listed =>
          cases first with
          | none => cases near
          | some part =>
              refine List.all_eq_true.mpr fun number member => ?_
              exact covers_all far (List.all_eq_true.mp near number member)

namespace OntologySummary

variable {superset first second third : OntologySummary}

theorem tripleCovered_of_mem (member : rule ∈ superset.typeTriples) :
    tripleCovered rule superset = true := by
  refine List.any_eq_true.mpr ⟨rule, member, ?_⟩
  simp [covers_self]

theorem tripleCovered_iff :
    tripleCovered rule superset = true ↔ ∃ row ∈ superset.typeTriples, row.kind = rule.kind ∧
      covers rule.fromTypes row.fromTypes = true ∧ covers rule.toTypes row.toTypes = true := by
  simp [tripleCovered, and_assoc]

/-- What it means to be a part, section by section. -/
structure Part (summary superset : OntologySummary) : Prop where
  memoryTypes : summary.memoryTypes <+: superset.memoryTypes
  entityTypes : summary.entityTypes <+: superset.entityTypes
  kinds : ∀ row ∈ summary.kinds, ∃ other, superset.kindRow row.id = some other ∧
    other.same row = true
  triples : ∀ rule ∈ summary.typeTriples, tripleCovered rule superset = true
  ruleIds : summary.ruleIds ⊆ superset.ruleIds
  actions : summary.actions ⊆ superset.actions
  functions : summary.functions ⊆ superset.functions

theorem isSubsetOf_iff : summary.isSubsetOf superset = true ↔ summary.Part superset := by
  have front {names others : List String} :
      names <+: others ↔ ¬ others.length < names.length ∧ ¬ names ≠ others.take names.length := by
    rw [List.prefix_iff_eq_take, not_not]
    constructor
    · intro same
      refine ⟨fun short => ?_, same⟩
      have length := congrArg List.length same
      rw [List.length_take] at length
      omega
    · exact And.right
  have guard {refused : Prop} [Decidable refused] {rest : Bool} :
      (if refused then false else rest) = true ↔ ¬ refused ∧ rest = true := by
    by_cases holds : refused <;> simp [holds]
  have covered (rule : TripleSummary) : (superset.typeTriples.contains rule ||
      tripleCovered rule superset) = true ↔ tripleCovered rule superset = true := by
    rw [Bool.or_eq_true, or_iff_right_of_imp fun listed =>
      tripleCovered_of_mem (List.contains_iff_mem.mp listed)]
  rw [isSubsetOf]
  simp only [guard, not_or, Bool.and_eq_true, List.all_eq_true, List.contains_iff_mem, covered,
    Option.any_eq_true]
  constructor
  · rintro ⟨⟨fewer, fewer'⟩, memory, entity, ⟨⟨⟨kinds, triples⟩, ruleIds⟩, actions⟩, functions⟩
    exact ⟨front.mpr ⟨fewer, memory⟩, front.mpr ⟨fewer', entity⟩, kinds, triples, ruleIds, actions,
      functions⟩
  · rintro ⟨memoryTypes, entityTypes, kinds, triples, ruleIds, actions, functions⟩
    obtain ⟨fewer, memory⟩ := front.mp memoryTypes
    obtain ⟨fewer', entity⟩ := front.mp entityTypes
    exact ⟨⟨fewer, fewer'⟩, memory, entity, ⟨⟨⟨kinds, triples⟩, ruleIds⟩, actions⟩, functions⟩

theorem kindRow_some {kind : UInt32} (found : summary.kindRow kind = some row) :
    row ∈ summary.kinds ∧ row.id = kind :=
  lastWith_some found

/-- With one kind under each number, a kind is found under its own. -/
theorem kindRow_of_mem (unique : (summary.kinds.map (·.id)).Nodup) (member : row ∈ summary.kinds) :
    summary.kindRow row.id = some row :=
  lastWith_of_nodup unique member

/-- A part of itself is what has numbers for its default strengths. -/
theorem isSubsetOf_self_iff (unique : (summary.kinds.map (·.id)).Nodup) :
    summary.isSubsetOf summary = true ↔
      ∀ row ∈ summary.kinds, row.defaultStrength.isNaN = false := by
  rw [isSubsetOf_iff]
  constructor
  · intro part row member
    obtain ⟨other, found, same⟩ := part.kinds row member
    rw [kindRow_of_mem unique member] at found
    cases found
    exact KindSummary.same_self_iff.mp same
  · intro numbers
    refine ⟨List.prefix_refl _, List.prefix_refl _, ?_, fun rule => tripleCovered_of_mem,
      List.Subset.refl _, List.Subset.refl _, List.Subset.refl _⟩
    intro row member
    exact ⟨row, kindRow_of_mem unique member, KindSummary.same_self_iff.mpr (numbers row member)⟩

theorem Part.trans (near : first.Part second) (far : second.Part third) : first.Part third where
  memoryTypes := near.memoryTypes.trans far.memoryTypes
  entityTypes := near.entityTypes.trans far.entityTypes
  kinds := by
    intro row member
    obtain ⟨middle, found, same⟩ := near.kinds row member
    obtain ⟨listed, id⟩ := kindRow_some found
    obtain ⟨last, foundLast, sameLast⟩ := far.kinds middle listed
    rw [id] at foundLast
    exact ⟨last, foundLast, KindSummary.same_trans sameLast same⟩
  triples := by
    intro rule member
    obtain ⟨middle, listed, kind, sources, targets⟩ :=
      tripleCovered_iff.mp (near.triples rule member)
    obtain ⟨last, listedLast, kindLast, sourcesLast, targetsLast⟩ :=
      tripleCovered_iff.mp (far.triples middle listed)
    exact tripleCovered_iff.mpr ⟨last, listedLast, kindLast.trans kind,
      covers_trans sources sourcesLast, covers_trans targets targetsLast⟩
  ruleIds := List.Subset.trans near.ruleIds far.ruleIds
  actions := List.Subset.trans near.actions far.actions
  functions := List.Subset.trans near.functions far.functions

theorem isSubsetOf_trans (near : first.isSubsetOf second = true)
    (far : second.isSubsetOf third = true) : first.isSubsetOf third = true :=
  isSubsetOf_iff.mpr ((isSubsetOf_iff.mp near).trans (isSubsetOf_iff.mp far))

end OntologySummary

/-! ## What a part keeps -/

namespace EffectiveOntology

def entityTypeNames (ontology : EffectiveOntology) : List String :=
  ontology.packs.flatMap (·.entityTypeNames)

/-- `entity_type_by_name`. -/
def entityTypeId (ontology : EffectiveOntology) (name : String) : Option UInt8 :=
  (ontology.entityTypeNames.idxOf? name).map UInt8.ofNat

/-- Everything that an ontology gives a meaning to has it in the other. -/
structure KeepsMeaning (ontology other : EffectiveOntology) : Prop where
  memoryTypes : ∀ (number : ℕ) (name : String), ontology.memoryTypeNames[number]? = some name →
    other.memoryTypeNames[number]? = some name
  memoryTypeIds : ∀ (name : String) (number : UInt8), ontology.memoryTypeId name = some number →
    other.memoryTypeId name = some number
  entityTypes : ∀ (number : ℕ) (name : String), ontology.entityTypeNames[number]? = some name →
    other.entityTypeNames[number]? = some name
  entityTypeIds : ∀ (name : String) (number : UInt8), ontology.entityTypeId name = some number →
    other.entityTypeId name = some number
  kinds : ∀ (kind : RelKindId) (row : KindMeta), ontology.kindMeta kind = some row →
    ∃ kept, other.kindMeta kind = some kept ∧ kept.same row = true
  triples : ∀ (source : UInt8) (kind : RelKindId) (target : UInt8),
    validateTriple ontology source kind target = .ok () →
      validateTriple other source kind target = .ok ()

theorem getElem?_of_prefix {names more : List String} (front : names <+: more) {number : ℕ}
    {name : String} (there : names[number]? = some name) : more[number]? = some name := by
  obtain ⟨rest, rfl⟩ := front
  rw [List.getElem?_append_left (List.getElem?_eq_some_iff.mp there).1, there]

/-- The first place of a name does not change when names are added behind. -/
theorem idxOf?_of_prefix {names more : List String} (front : names <+: more) {index : ℕ}
    {name : String} (found : names.idxOf? name = some index) : more.idxOf? name = some index := by
  obtain ⟨rest, rfl⟩ := front
  rw [List.idxOf?, List.findIdx?_append]
  rw [List.idxOf?] at found
  rw [found]
  rfl

variable {ontology : EffectiveOntology}

theorem mem_summary_kinds :
    row ∈ ontology.summary.kinds ↔ ∃ kind ∈ ontology.kinds, kindSummary kind = row :=
  (List.perm_insertionSort _ _).mem_iff.trans List.mem_map

theorem nodup_summary_kinds (ontology : EffectiveOntology) :
    (ontology.summary.kinds.map (·.id)).Nodup := by
  refine (((List.perm_insertionSort _ _).map _).nodup_iff).mpr ?_
  rw [List.map_map]
  have numbers := ontology.kindIds.map (f := RelKindId.raw) fun _ _ => congrArg RelKindId.mk
  rw [List.map_map] at numbers
  exact numbers

/-- An ontology of finite strengths is a part of itself. -/
theorem isSubsetOf_self (ontology : EffectiveOntology)
    (numbers : ∀ row ∈ ontology.kinds, row.defaultStrength.isFinite = true) :
    ontology.summary.isSubsetOf ontology.summary = true := by
  refine (OntologySummary.isSubsetOf_self_iff ontology.nodup_summary_kinds).mpr ?_
  intro row member
  obtain ⟨kind, there, rfl⟩ := mem_summary_kinds.mp member
  have number : kind.defaultStrength.isFinite = true := numbers kind there
  rw [F32.isFinite, Bool.not_eq_true', decide_eq_false_iff_not] at number
  rw [kindSummary, F32.isNaN, decide_eq_false number, Bool.false_and]

theorem mem_summary_triples :
    rule ∈ ontology.summary.typeTriples ↔
      ∃ triple ∈ ontology.packs.flatMap (·.typeTriples), tripleSummary triple = rule :=
  (List.perm_insertionSort _ _).mem_iff.trans List.mem_map

/-- A triple is accepted when a rule of its kind lets both ends in. -/
theorem validateTriple_ok_iff {source target : UInt8} {kind : RelKindId} :
    validateTriple ontology source kind target = .ok () ↔
      ∃ rule ∈ ontology.packs.flatMap (·.typeTriples), rule.kind = kind ∧
        rule.fromTypes.all (·.contains source) = true ∧
          rule.toTypes.all (·.contains target) = true := by
  have sides : ∀ rule : TypeTriple, matchesTriple rule source (some target) = true ↔
      rule.fromTypes.all (·.contains source) = true ∧
        rule.toTypes.all (·.contains target) = true := by
    rintro ⟨kind, sources, targets⟩
    cases targets <;> simp [matchesTriple]
  have rules : ∀ rule, rule ∈ (ontology.packs.flatMap (·.typeTriples)).filter (·.kind = kind) ↔
      rule ∈ ontology.packs.flatMap (·.typeTriples) ∧ rule.kind = kind := by
    intro rule
    rw [List.mem_filter, decide_eq_true_eq]
  rw [validateTriple, triples]
  generalize (ontology.packs.flatMap (·.typeTriples)).filter (·.kind = kind) = listed at rules
  cases listed with
  | nil =>
      constructor
      · intro accepted
        cases accepted
      · rintro ⟨rule, member, same, -⟩
        exact absurd ((rules rule).mpr ⟨member, same⟩) List.not_mem_nil
  | cons first rest =>
      simp only
      constructor
      · intro accepted
        split at accepted
        · next passed =>
            obtain ⟨rule, member, lets⟩ := List.any_eq_true.mp passed
            obtain ⟨there, same⟩ := (rules rule).mp member
            exact ⟨rule, there, same, (sides rule).mp lets⟩
        · cases accepted
      · rintro ⟨rule, member, same, lets⟩
        rw [if_pos (List.any_eq_true.mpr
          ⟨rule, (rules rule).mpr ⟨member, same⟩, (sides rule).mpr lets⟩)]

theorem keepsMeaning_of_isSubsetOf {other : EffectiveOntology}
    (subset : ontology.summary.isSubsetOf other.summary = true) : ontology.KeepsMeaning other := by
  have part := OntologySummary.isSubsetOf_iff.mp subset
  constructor
  case memoryTypes => exact fun _ _ there => getElem?_of_prefix part.memoryTypes there
  case entityTypes => exact fun _ _ there => getElem?_of_prefix part.entityTypes there
  case memoryTypeIds =>
    intro name number known
    obtain ⟨index, found, rfl⟩ := Option.map_eq_some_iff.mp known
    exact Option.map_eq_some_iff.mpr ⟨index, idxOf?_of_prefix part.memoryTypes found, rfl⟩
  case entityTypeIds =>
    intro name number known
    obtain ⟨index, found, rfl⟩ := Option.map_eq_some_iff.mp known
    exact Option.map_eq_some_iff.mpr ⟨index, idxOf?_of_prefix part.entityTypes found, rfl⟩
  case kinds =>
    intro kind row known
    obtain ⟨member, rfl⟩ := kindMeta_iff.mp known
    obtain ⟨summary, found, same⟩ := part.kinds _ (mem_summary_kinds.mpr ⟨row, member, rfl⟩)
    obtain ⟨listed, id⟩ := OntologySummary.kindRow_some found
    obtain ⟨kept, there, rfl⟩ := mem_summary_kinds.mp listed
    exact ⟨kept, kindMeta_iff.mpr ⟨there, congrArg RelKindId.mk id⟩, KindMeta.same_of_summary same⟩
  case triples =>
    intro source kind target accepted
    obtain ⟨rule, member, same, sources, targets⟩ := validateTriple_ok_iff.mp accepted
    obtain ⟨summary, listed, kinds, from_covered, to_covered⟩ :=
      OntologySummary.tripleCovered_iff.mp
        (part.triples _ (mem_summary_triples.mpr ⟨rule, member, rfl⟩))
    obtain ⟨row, there, rfl⟩ := mem_summary_triples.mp listed
    exact validateTriple_ok_iff.mpr ⟨row, there, (congrArg RelKindId.mk kinds).trans same,
      covers_all from_covered sources, covers_all to_covered targets⟩

end EffectiveOntology

/-- **Being a part is transitive and keeps every meaning**; and exactly a summary of numbers is a
part of itself. -/
theorem isSubsetOf_preorder {summary : OntologySummary}
    (unique : (summary.kinds.map (·.id)).Nodup) :
    (summary.isSubsetOf summary = true ↔
      ∀ row ∈ summary.kinds, row.defaultStrength.isNaN = false) ∧
    (∀ middle last : OntologySummary, summary.isSubsetOf middle = true →
      middle.isSubsetOf last = true → summary.isSubsetOf last = true) ∧
    ∀ ontology other : EffectiveOntology, ontology.summary = summary →
      summary.isSubsetOf other.summary = true → ontology.KeepsMeaning other := by
  refine ⟨OntologySummary.isSubsetOf_self_iff unique, ?_, ?_⟩
  · intro middle last near far
    exact OntologySummary.isSubsetOf_trans near far
  · rintro ontology other rfl subset
    exact EffectiveOntology.keepsMeaning_of_isSubsetOf subset

theorem isSubsetOf_preorder_small :
    smallOntology.summary.isSubsetOf smallOntology.summary = true :=
  (isSubsetOf_preorder smallOntology.nodup_summary_kinds).1.mpr (by decide)

/-- The small ontology with a further kind of a given strength. -/
def relatingOntology (strength : F32) : EffectiveOntology where
  packs := [{ smallPack with
    kinds := smallPack.kinds ++ [⟨⟨⟨4⟩, none, false⟩, "RelatesTo", .context, strength, false⟩] }]
  packNames := by simp
  memoryTypes := by simp [smallPack]
  entityTypes := by simp [smallPack]
  kindIds := by simp [smallPack]
  kindNames := by simp [smallPack]
  bound := by simp [smallPack, kernelConstants]

def nanStrength : F32 := ⟨0x7fc00000#32⟩

/-- Assembling packs does not look at the strengths, and a NaN differs from itself. -/
theorem not_isSubsetOf_preorder :
    ¬ ∀ summary : OntologySummary, (summary.kinds.map (·.id)).Nodup →
      summary.isSubsetOf summary = true := by
  intro always
  have self := always (relatingOntology nanStrength).summary
    (relatingOntology nanStrength).nodup_summary_kinds
  exact absurd self (by decide)

/-! ## The record of a graph -/

/-- The hashes of the summary and of the packs of an ontology. -/
structure Fingerprints where
  compatibility : OntologySummary → Bytes 32
  build : EffectiveOntology → Bytes 32

structure PinnedOntology where
  scheme : ℕ
  compatibility : String
  build : String
  summary : OntologySummary
  accepted : List String
deriving DecidableEq

def maxAcceptedFingerprints : ℕ := 8

variable (hashes : Fingerprints)

/-- The record of an ontology without a history. -/
def PinnedOntology.describing (ontology : EffectiveOntology) : PinnedOntology where
  scheme := 2
  compatibility := (hashes.compatibility ontology.summary).digestHex
  build := (hashes.build ontology).digestHex
  summary := ontology.summary
  accepted := []

/-- What is stored with a graph. -/
inductive PersistedPin where
  | absent
  | legacyV1 (pinned : Bytes 32)
  | v2 (record : PinnedOntology)
deriving DecidableEq

inductive NodeGraphDecision where
  | satisfied
  | advance (next : PinnedOntology)
  | migrate (next : PinnedOntology)
deriving DecidableEq

/-- The list is filled up until it is full. -/
def boundedAccepted (prior : List String) (newest : String) : List String :=
  prior.foldl (appendWithin maxAcceptedFingerprints) [newest]

/-- The derived equality of two summaries, which compares strengths as numbers. -/
def OntologySummary.same (left right : OntologySummary) : Bool :=
  left.memoryTypes = right.memoryTypes && left.entityTypes = right.entityTypes &&
    left.kinds.length = right.kinds.length &&
    (left.kinds.zip right.kinds).all (fun rows => rows.1.same rows.2) &&
    left.typeTriples = right.typeTriples && left.ruleIds = right.ruleIds &&
    left.actions = right.actions && left.functions = right.functions

def admitNodeGraph (pin : PersistedPin) (ours : EffectiveOntology) :
    Except CompatibilityError NodeGraphDecision :=
  match pin with
  | .absent => .ok .satisfied
  | .legacyV1 pinned =>
      if pinned = hashes.build ours then
        .ok (.migrate { PinnedOntology.describing hashes ours with accepted := [pinned.digestHex] })
      else .error (.legacyPinMismatch pinned (hashes.build ours))
  | .v2 record =>
      let stated := (hashes.compatibility record.summary).digestHex
      if stated ≠ record.compatibility then
        .error (.corruptRecord ("summary hashes to " ++ stated ++ " but the record claims " ++
          record.compatibility))
      else if record.summary.same ours.summary then
        if record.build = (hashes.build ours).digestHex then .ok .satisfied
        else .ok (.advance
          { PinnedOntology.describing hashes ours with accepted := record.accepted })
      else if record.summary.isSubsetOf ours.summary then
        .ok (.advance { PinnedOntology.describing hashes ours with
          accepted := boundedAccepted record.accepted record.compatibility })
      else .error (.notASuperset (ours.summary.firstDivergence record.summary))

/-- Starting a node: a graph without a record gets one, and a decision is stored. -/
def pinFingerprint (pin : PersistedPin) (ours : EffectiveOntology) :
    Except CompatibilityError PersistedPin :=
  match pin with
  | .absent => .ok (.v2 (.describing hashes ours))
  | _ => match admitNodeGraph hashes pin ours with
    | .ok .satisfied => .ok pin
    | .ok (.advance next) => .ok (.v2 next)
    | .ok (.migrate next) => .ok (.v2 next)
    | .error error => .error error

/-- One node after the other on the same graph. -/
def pinAll (start : PersistedPin) (ontologies : List EffectiveOntology) :
    Except CompatibilityError PersistedPin :=
  ontologies.foldlM (pinFingerprint hashes) start

/-! ## What the record says after a chain of upgrades -/

/-- The fingerprints of the ontologies before the present one, the latest first. Starting the same
ontology again is no upgrade. -/
def predecessors : List EffectiveOntology → List String
  | ours :: previous :: rest =>
      if previous.summary = ours.summary then predecessors (previous :: rest)
      else (hashes.compatibility previous.summary).digestHex :: predecessors (previous :: rest)
  | _ => []

/-- The fingerprint of an old pin, which producers may offer until it is pushed out. -/
def PersistedPin.oldest : PersistedPin → List String
  | .legacyV1 pinned => [pinned.digestHex]
  | _ => []

/-- The record of an ontology, with a history. -/
def describedBy (start : PersistedPin) (ours : EffectiveOntology)
    (earlier : List EffectiveOntology) : PinnedOntology :=
  { PinnedOntology.describing hashes ours with
    accepted := (recent (predecessors hashes (ours :: earlier) ++ start.oldest)).take
      maxAcceptedFingerprints }

/-- No default strength is a NaN. -/
def EffectiveOntology.Measured (ontology : EffectiveOntology) : Prop :=
  ∀ row ∈ ontology.kinds, row.defaultStrength.isNaN = false

/-- No default strength of a kind changes its sign at zero. -/
def EffectiveOntology.KeepsZeros (previous next : EffectiveOntology) : Prop :=
  ∀ old ∈ previous.kinds, ∀ new ∈ next.kinds, old.id = new.id →
    old.defaultStrength.isZero = true → new.defaultStrength.isZero = true →
      old.defaultStrength = new.defaultStrength

/-! ## One step of the chain -/

theorem OntologySummary.same_iff {left right : OntologySummary} : left.same right = true ↔
    left.memoryTypes = right.memoryTypes ∧ left.entityTypes = right.entityTypes ∧
      List.Forall₂ (fun row other => row.same other = true) left.kinds right.kinds ∧
      left.typeTriples = right.typeTriples ∧ left.ruleIds = right.ruleIds ∧
      left.actions = right.actions ∧ left.functions = right.functions := by
  simp [OntologySummary.same, List.forall₂_iff_zip, and_assoc]

/-- A summary equals itself when its strengths are numbers. -/
theorem OntologySummary.same_self_iff :
    summary.same summary = true ↔ ∀ row ∈ summary.kinds, row.defaultStrength.isNaN = false := by
  simp only [OntologySummary.same_iff, List.forall₂_same, KindSummary.same_self_iff, true_and,
    and_true]

theorem F32.eq_cases {x y : F32} (equal : x.eq y = true) :
    x = y ∨ (x.isZero = true ∧ y.isZero = true) := by
  cases x
  cases y
  simp only [F32.eq, Bool.and_eq_true, Bool.or_eq_true, decide_eq_true_eq] at equal
  rcases equal.2 with same | zeros
  · exact .inl (congrArg F32.mk same)
  · exact .inr zeros

/-- Equal kinds are the same kind when no strength changes its sign at zero. -/
theorem KindSummary.eq_of_same {other : KindSummary} (same : row.same other = true)
    (zeros : row.id = other.id → row.defaultStrength.isZero = true →
      other.defaultStrength.isZero = true → row.defaultStrength = other.defaultStrength) :
    row = other := by
  obtain ⟨strengths, rest⟩ := KindSummary.same_iff.mp same
  have equal : row.defaultStrength = other.defaultStrength := by
    rcases F32.eq_cases strengths with equal | ⟨left, right⟩
    · exact equal
    · refine zeros ?_ left right
      rw [← rest]
  rw [← rest, ← equal]

theorem forall₂_eq_of_same {rows others : List KindSummary}
    (same : List.Forall₂ (fun row other => row.same other = true) rows others)
    (zeros : ∀ row ∈ rows, ∀ other ∈ others, row.id = other.id →
      row.defaultStrength.isZero = true → other.defaultStrength.isZero = true →
        row.defaultStrength = other.defaultStrength) : rows = others := by
  induction same with
  | nil => rfl
  | @cons row other rows others head tail ih =>
      have first : row = other := KindSummary.eq_of_same head
        (zeros row List.mem_cons_self other List.mem_cons_self)
      have rest : rows = others := ih fun row member other there =>
        zeros row (List.mem_cons_of_mem _ member) other (List.mem_cons_of_mem _ there)
      rw [first, rest]

variable {hashes}

/-- Summaries that compare equal are equal when no strength changes its sign at zero. -/
theorem EffectiveOntology.summary_eq_of_same {next : EffectiveOntology}
    (zeros : previous.KeepsZeros next) (same : previous.summary.same next.summary = true) :
    previous.summary = next.summary := by
  obtain ⟨memoryTypes, entityTypes, kinds, triples, ruleIds, actions, functions⟩ :=
    OntologySummary.same_iff.mp same
  have rows : previous.summary.kinds = next.summary.kinds := by
    refine forall₂_eq_of_same kinds fun row member other there ids => ?_
    obtain ⟨old, before, rfl⟩ := EffectiveOntology.mem_summary_kinds.mp member
    obtain ⟨new, after, rfl⟩ := EffectiveOntology.mem_summary_kinds.mp there
    exact zeros old before new after (congrArg RelKindId.mk ids)
  exact OntologySummary.ext memoryTypes entityTypes rows triples ruleIds actions functions

theorem boundedAccepted_recent (newest : String) (history : List String) :
    boundedAccepted ((recent history).take maxAcceptedFingerprints) newest =
      (recent (newest :: history)).take maxAcceptedFingerprints := by
  have distinct := (nodup_recent history).sublist (List.take_sublist maxAcceptedFingerprints _)
  rw [boundedAccepted, foldl_appendWithin_singleton (by decide) distinct,
    remember_recent (by decide)]

theorem predecessors_of_ne (other : previous.summary ≠ ours.summary) :
    predecessors hashes (ours :: previous :: earlier) =
      (hashes.compatibility previous.summary).digestHex ::
        predecessors hashes (previous :: earlier) := by
  rw [predecessors, if_neg other]

variable {start pin : PersistedPin}

/-- With the same summary nothing but the build is replaced. -/
theorem describedBy_of_summary_eq (same : previous.summary = ours.summary) :
    describedBy hashes start ours (previous :: earlier) =
      { PinnedOntology.describing hashes ours with
        accepted := (describedBy hashes start previous earlier).accepted } := by
  rw [describedBy, predecessors, if_pos same]
  rfl

/-- What a start of a node on a graph with a record does. -/
theorem pinFingerprint_step (zeros : previous.KeepsZeros ours)
    (started : pinFingerprint hashes (.v2 (describedBy hashes start previous earlier)) ours =
      .ok pin) :
    previous.summary.isSubsetOf ours.summary = true ∧
      pin = .v2 (describedBy hashes start ours (previous :: earlier)) := by
  have summary : (describedBy hashes start previous earlier).summary = previous.summary := rfl
  have stated : (hashes.compatibility previous.summary).digestHex =
      (describedBy hashes start previous earlier).compatibility := rfl
  simp only [pinFingerprint, admitNodeGraph, summary, ne_eq, stated, not_true_eq_false,
    if_false] at started
  by_cases same : previous.summary.same ours.summary = true
  · have equal := EffectiveOntology.summary_eq_of_same zeros same
    have part : previous.summary.isSubsetOf ours.summary = true := by
      rw [← equal] at same ⊢
      exact (OntologySummary.isSubsetOf_self_iff previous.nodup_summary_kinds).mpr
        (OntologySummary.same_self_iff.mp same)
    refine ⟨part, ?_⟩
    rw [if_pos same] at started
    rw [describedBy_of_summary_eq equal]
    split_ifs at started with build
    · cases started
      -- Neither the summary nor the build changed, so neither did the record.
      have builds : (hashes.build previous).digestHex = (hashes.build ours).digestHex := build
      simp only [describedBy, PinnedOntology.describing, equal, builds]
    · cases started
      rfl
  · rw [if_neg same] at started
    split_ifs at started with part
    · refine ⟨part, ?_⟩
      have other : previous.summary ≠ ours.summary := by
        intro equal
        rw [← equal] at part same
        exact same (OntologySummary.same_self_iff.mpr
          ((OntologySummary.isSubsetOf_self_iff previous.nodup_summary_kinds).mp part))
      cases started
      have history : describedBy hashes start ours (previous :: earlier) =
          { PinnedOntology.describing hashes ours with
            accepted := boundedAccepted (describedBy hashes start previous earlier).accepted
              (hashes.compatibility previous.summary).digestHex } := by
        rw [describedBy, predecessors_of_ne other, List.cons_append, ← boundedAccepted_recent]
        rfl
      rw [history]
      rfl

/-- What the first start of a node on a graph does. -/
theorem pinFingerprint_first (fresh : ∀ record, start ≠ .v2 record)
    (started : pinFingerprint hashes start ours = .ok pin) :
    pin = .v2 (describedBy hashes start ours []) := by
  cases start with
  | absent =>
      cases started
      rfl
  | legacyV1 pinned =>
      simp only [pinFingerprint, admitNodeGraph] at started
      split_ifs at started
      cases started
      rfl
  | v2 record => exact absurd rfl (fresh record)

/-- A chain of upgrades leaves the record of the last ontology, of which every earlier one is a
part. -/
theorem pinAll_describedBy (fresh : ∀ record, start ≠ .v2 record)
    {before : List EffectiveOntology}
    (zeros : (before ++ [ours]).IsChain EffectiveOntology.KeepsZeros)
    (run : pinAll hashes start (before ++ [ours]) = .ok pin) :
    pin = .v2 (describedBy hashes start ours before.reverse) ∧
      ∀ earlier ∈ before, earlier.summary.isSubsetOf ours.summary = true := by
  induction before using List.reverseRecOn generalizing ours pin with
  | nil =>
      have started : pinFingerprint hashes start ours = .ok pin := by
        simpa [pinAll] using run
      exact ⟨pinFingerprint_first fresh started, fun _ member => absurd member List.not_mem_nil⟩
  | append_singleton before previous ih =>
      rw [pinAll, List.foldlM_append] at run
      obtain ⟨middle, first, last⟩ := bind_eq_ok_iff.mp run
      have started : pinFingerprint hashes middle ours = .ok pin := by simpa using last
      obtain ⟨front, -, link⟩ := List.isChain_append.mp zeros
      obtain ⟨rfl, parts⟩ := ih front first
      have step : previous.KeepsZeros ours := link previous (by simp) ours (by simp)
      obtain ⟨part, rfl⟩ := pinFingerprint_step step started
      refine ⟨by rw [List.reverse_append]; rfl, ?_⟩
      intro earlier member
      rcases List.mem_append.mp member with old | last
      · exact OntologySummary.isSubsetOf_trans (parts earlier old) part
      · rw [List.mem_singleton.mp last]
        exact part

/-- A node that starts again finds its own record. -/
theorem admitNodeGraph_again (measured : ours.Measured) :
    admitNodeGraph hashes (.v2 (describedBy hashes start ours earlier)) ours = .ok .satisfied := by
  have same : ours.summary.same ours.summary = true :=
    OntologySummary.same_self_iff.mpr fun row member => by
      obtain ⟨kind, there, rfl⟩ := EffectiveOntology.mem_summary_kinds.mp member
      exact measured kind there
  simp [admitNodeGraph, describedBy, PinnedOntology.describing, same]

/-- **Along every chain of upgrades** from a graph without a record, or with an old pin, in which no
default strength is a NaN and none changes its sign at zero: the record describes the ontology
started last, which is satisfied with it; it lists the most recent predecessors, each once; and
everything that an ontology of the chain gives a meaning to still has it. -/
theorem pinAll_keeps {start pin : PersistedPin} (fresh : ∀ record, start ≠ .v2 record)
    {before : List EffectiveOntology} {ours : EffectiveOntology}
    (measured : ∀ ontology ∈ before ++ [ours], ontology.Measured)
    (zeros : (before ++ [ours]).IsChain EffectiveOntology.KeepsZeros)
    (run : pinAll hashes start (before ++ [ours]) = .ok pin) :
    ∃ record, pin = .v2 record ∧
      { record with accepted := [] } = PinnedOntology.describing hashes ours ∧
      admitNodeGraph hashes pin ours = .ok .satisfied ∧
      record.accepted.Nodup ∧ record.accepted.length ≤ maxAcceptedFingerprints ∧
      record.accepted = (recent (predecessors hashes (ours :: before.reverse) ++
        start.oldest)).take maxAcceptedFingerprints ∧
      (recent (predecessors hashes (ours :: before.reverse))).take maxAcceptedFingerprints ⊆
        record.accepted ∧
      ∀ earlier ∈ before, earlier.summary.isSubsetOf ours.summary = true ∧
        earlier.KeepsMeaning ours := by
  obtain ⟨rfl, parts⟩ := pinAll_describedBy fresh zeros run
  refine ⟨_, rfl, rfl, admitNodeGraph_again (measured ours (by simp)), ?_, ?_, rfl, ?_, ?_⟩
  · exact (nodup_recent _).sublist (List.take_sublist _ _)
  · exact List.length_take_le _ _
  · exact ((recent_isPrefix _ start.oldest).take _).subset
  · intro earlier member
    exact ⟨parts earlier member,
      EffectiveOntology.keepsMeaning_of_isSubsetOf (parts earlier member)⟩

/-! ## A chain of two ontologies -/

/-- Fingerprints that add up bytes: of the strengths, and of the names. -/
def summingHashes : Fingerprints where
  compatibility summary := .fill 32
    ((summary.kinds.flatMap (·.defaultStrength.toLeBytes)).foldl (· + ·) 0)
  build ontology := .fill 32
    ((ontology.kinds.flatMap (·.defaultStrength.toLeBytes)).foldl (· + ·) 1)

/-- A kind is added: the record is replaced, and a second start is satisfied with it. -/
theorem pinAll_keeps_added :
    ∃ pin, pinAll summingHashes .absent [smallOntology, relatingOntology .zero] = .ok pin ∧
      admitNodeGraph summingHashes pin (relatingOntology .zero) = .ok .satisfied := by
  have started : (pinAll summingHashes .absent
      ([smallOntology] ++ [relatingOntology .zero])).toOption.isSome := by decide +kernel
  obtain ⟨pin, run⟩ := exists_ok started
  have measured : ∀ ontology ∈ [smallOntology] ++ [relatingOntology .zero],
      ontology.Measured := by
    intro ontology member
    have listed : ontology = smallOntology ∨ ontology = relatingOntology .zero := by
      simpa using member
    rcases listed with rfl | rfl
    · unfold EffectiveOntology.Measured
      decide
    · unfold EffectiveOntology.Measured
      decide
  have zeros : ([smallOntology] ++ [relatingOntology .zero]).IsChain
      EffectiveOntology.KeepsZeros := by
    refine List.isChain_pair.mpr ?_
    intro old member new there same zero
    have numbers : ∀ row ∈ smallOntology.kinds, row.defaultStrength.isZero = false := by decide
    rw [numbers old member] at zero
    cases zero
  obtain ⟨record, -, -, satisfied, -⟩ :=
    pinAll_keeps (fun record impossible => by cases impossible) measured zeros run
  exact ⟨pin, run, satisfied⟩

/-- A node whose ontology has a NaN refuses the record that it has written itself; and where a
strength becomes minus zero, the fingerprint of the predecessor is not kept. -/
theorem not_pinAll_keeps :
    (¬ ∀ (hashes : Fingerprints) (start pin : PersistedPin) (before : List EffectiveOntology)
      (ours : EffectiveOntology), (∀ record, start ≠ .v2 record) →
      pinAll hashes start (before ++ [ours]) = .ok pin →
      admitNodeGraph hashes pin ours = .ok .satisfied) ∧
    ¬ ∀ (hashes : Fingerprints) (start : PersistedPin) (record : PinnedOntology)
      (before : List EffectiveOntology) (ours : EffectiveOntology), (∀ old, start ≠ .v2 old) →
      pinAll hashes start (before ++ [ours]) = .ok (.v2 record) →
      (recent (predecessors hashes (ours :: before.reverse))).take maxAcceptedFingerprints ⊆
        record.accepted := by
  refine ⟨fun always => ?_, fun always => ?_⟩
  · have again := always summingHashes .absent _ [] (relatingOntology nanStrength)
      (fun record impossible => by cases impossible) rfl
    exact absurd again (by decide +kernel)
  · have kept := always summingHashes .absent
      { PinnedOntology.describing summingHashes (relatingOntology ⟨0x80000000#32⟩) with
        accepted := [] }
      [relatingOntology .zero] (relatingOntology ⟨0x80000000#32⟩)
      (fun record impossible => by cases impossible) (by decide +kernel)
    exact absurd kept (by decide +kernel)

end Exocortex
