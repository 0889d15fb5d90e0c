import Exocortex.Kernel.Summaries

/-!
# Assembling the ontology from packs

`fromPacks` sorts the packs of a process by their names, moves the kinds and the type numbers of
each pack into a range of its own (`canonicalized`), refuses names and kinds that are declared
twice and kernel constants that no pack binds, and then numbers the types and builds the summary.
Everything is computed from the sorted packs, so the order in which packs with distinct names
register does not matter (`fromPacks_perm`).

What is assembled is an effective ontology, as the rulebook has it
(`Ontology.exists_effective`).

Versions, budgets and guidance of packs are left out, which only the build fingerprint covers.
-/

namespace Exocortex

/-- High bit clear. -/
def RelKindId.isKernel (kind : RelKindId) : Bool := kind.raw &&& 0x80000000 = 0

/-- The part of the handle that is local to a pack. -/
def RelKindId.localPart (kind : RelKindId) : UInt32 := kind.raw &&& 0xffff

namespace Assembly

open Library

/-! ## Packs -/

structure PackActionDef where
  name : String
  ceiling : Visibility
  inputType : String
  outputType : String
deriving DecidableEq

structure PackFunctionDef where
  name : String
  engine : String
  inputType : String
  outputType : String
deriving DecidableEq

/-- A pack as it registers, with kinds and types numbered in the pack. -/
structure PackDef where
  name : String
  memoryTypeNames : List String
  entityTypeNames : List String
  kinds : List KindMeta
  typeTriples : List TypeTriple
  ruleIds : List String
  actions : List PackActionDef
  functions : List PackFunctionDef
deriving DecidableEq

/-- Why packs are not assembled. -/
inductive PackError where
  | duplicatePack (name : String)
  | duplicateKind (kind : RelKindId)
  | duplicateKindName (name : String)
  | unboundKernelConstant (kind : RelKindId)
  | duplicateTypeName (name : String)
deriving DecidableEq

/-! ## Canonical packs -/

/-- Addition of bytes that stops at the largest. -/
def saturatingAdd (x y : UInt8) : UInt8 := UInt8.ofNat (min 255 (x.toNat + y.toNat))

/-- The running offset after some packs; each adds the number of its types, as eight bits. -/
def mtOffset (before : List PackDef) : UInt8 :=
  before.foldl (fun acc pack => saturatingAdd acc (UInt8.ofNat pack.memoryTypeNames.length)) 0

/-- A kind of the pack at this place; kernel kinds stay. -/
def canonicalKind (place : ℕ) (kind : RelKindId) : RelKindId :=
  if kind.isKernel then kind
  else ⟨(0x80000000 : UInt32) ||| (UInt32.ofNat place <<< 16) ||| kind.localPart⟩

def canonicalMeta (place : ℕ) (row : KindMeta) : KindMeta :=
  { row with id := canonicalKind place row.id, inverse := row.inverse.map (canonicalKind place) }

def canonicalTriple (place : ℕ) (offset : UInt8) (rule : TypeTriple) : TypeTriple where
  kind := canonicalKind place rule.kind
  fromTypes := rule.fromTypes.map (·.map (saturatingAdd offset))
  toTypes := rule.toTypes.map (·.map (saturatingAdd offset))

def canonicalPack (place : ℕ) (offset : UInt8) (pack : PackDef) : PackDef :=
  { pack with
    kinds := pack.kinds.map (canonicalMeta place)
    typeTriples := pack.typeTriples.map (canonicalTriple place offset) }

def sortedPacks (packs : List PackDef) : List PackDef :=
  packs.insertionSort fun left right => left.name ≤ right.name

/-- The packs by name, each moved into its own range. -/
def canonicalized (packs : List PackDef) : List PackDef :=
  (sortedPacks packs).mapIdx fun place pack =>
    canonicalPack place (mtOffset ((sortedPacks packs).take place)) pack

/-- The pack as the rulebook has it, each verb with its pack and its ceiling or engine. -/
def PackDef.registered (pack : PackDef) : Exocortex.PackDef where
  name := pack.name
  memoryTypeNames := pack.memoryTypeNames
  entityTypeNames := pack.entityTypeNames
  kinds := pack.kinds
  typeTriples := pack.typeTriples
  ruleIds := pack.ruleIds
  actions := pack.actions.map fun verb =>
    ⟨pack.name, verb.name, UInt8.ofNat verb.ceiling.rank, verb.inputType, verb.outputType⟩
  functions := pack.functions.map fun verb =>
    ⟨pack.name, verb.name, verb.engine, verb.inputType, verb.outputType⟩

/-! ## The ontology -/

structure Ontology where
  packs : List PackDef
  kindsById : Table RelKindId KindMeta
  triplesByKind : Table RelKindId (List TypeTriple)
  memoryTypeByName : Table String UInt8
  entityTypeByName : Table String UInt8
  memoryTypeNames : List String
  entityTypeNames : List String
  fingerprint : Bytes 32
  summary : OntologySummary

namespace Ontology

def memoryTypeId (ontology : Ontology) (name : String) : Option UInt8 :=
  ontology.memoryTypeByName.lookup name

end Ontology

/-- Names and their places, as eight bits; a later place replaces an earlier one. -/
def typeIds (names : List String) : Table String UInt8 :=
  names.zipIdx.foldl (fun ids named => ids.insert named.1 (UInt8.ofNat named.2)) ∅

/-- No name is declared twice. -/
def checkNames (names : List String) : Except PackError Unit :=
  match repeated [] names with
  | some name => .error (.duplicateTypeName name)
  | none => .ok ()

/-- No kind and no name of a kind was seen before. -/
def checkKinds : List KindMeta → List KindMeta → Except PackError Unit
  | _, [] => .ok ()
  | seen, row :: rows =>
      if row.id ∈ seen.map (·.id) then .error (.duplicateKind row.id)
      else if row.displayName ∈ seen.map (·.displayName) then
        .error (.duplicateKindName row.displayName)
      else checkKinds (row :: seen) rows

def checkPackNames (packs : List PackDef) : Except PackError Unit :=
  match repeated [] (packs.map (·.name)) with
  | some name => .error (.duplicatePack name)
  | none => .ok ()

/-- Every kernel constant is bound. -/
def checkBound (kinds : List KindMeta) : Except PackError Unit :=
  match kernelConstants.find? (· ∉ kinds.map (·.id)) with
  | some kind => .error (.unboundKernelConstant kind)
  | none => .ok ()

/-- What is assembled from canonical packs. -/
def assembled (sha256 : List UInt8 → Bytes 32) (packs : List PackDef) : Ontology where
  packs := packs
  kindsById := Table.collect (·.id) (packs.flatMap (·.kinds))
  triplesByKind := Table.groupBy (·.kind) (packs.flatMap (·.typeTriples))
  memoryTypeByName := typeIds (packs.flatMap (·.memoryTypeNames))
  entityTypeByName := typeIds (packs.flatMap (·.entityTypeNames))
  memoryTypeNames := packs.flatMap (·.memoryTypeNames)
  entityTypeNames := packs.flatMap (·.entityTypeNames)
  fingerprint := (OntologySummary.ofCanonicalPacks
    (packs.map (·.registered))).compatibilityFingerprint sha256
  summary := .ofCanonicalPacks (packs.map (·.registered))

def fromPacks (sha256 : List UInt8 → Bytes 32) (packs : List PackDef) :
    Except PackError Ontology := do
  checkPackNames packs
  let packs := canonicalized packs
  checkNames (packs.flatMap (·.memoryTypeNames))
  checkNames (packs.flatMap (·.entityTypeNames))
  checkKinds [] (packs.flatMap (·.kinds))
  checkBound (packs.flatMap (·.kinds))
  return assembled sha256 packs

/-! ## What the checks say -/

variable {packs others : List PackDef} {names : List String} {sha256 : List UInt8 → Bytes 32}
  {ontology : Ontology}

theorem checkPackNames_ok_iff : checkPackNames packs = .ok () ↔ (packs.map (·.name)).Nodup := by
  have distinct := @repeated_eq_none_iff _ (packs.map (·.name)) _ []
  rw [checkPackNames]
  cases found : repeated [] (packs.map (·.name)) with
  | some name => simpa [found] using distinct
  | none => simpa [found] using distinct

theorem checkNames_ok_iff : checkNames names = .ok () ↔ names.Nodup := by
  have distinct := @repeated_eq_none_iff _ names _ []
  rw [checkNames]
  cases found : repeated [] names with
  | some name => simpa [found] using distinct
  | none => simpa [found] using distinct

theorem checkKinds_ok_iff {seen rows : List KindMeta} : checkKinds seen rows = .ok () ↔
    ((rows.map (·.id)).Nodup ∧ ∀ row ∈ rows, row.id ∉ seen.map (·.id)) ∧
      (rows.map (·.displayName)).Nodup ∧
        ∀ row ∈ rows, row.displayName ∉ seen.map (·.displayName) := by
  have named {κ : Type} [DecidableEq κ] (key : KindMeta → κ) (rows : List KindMeta) :
      repeated (seen.map key) (rows.map key) = none ↔
        (rows.map key).Nodup ∧ ∀ row ∈ rows, key row ∉ seen.map key :=
    repeated_eq_none_iff.trans (and_congr_right fun _ => List.forall_mem_map)
  rw [← named, ← named]
  clear named
  induction rows generalizing seen with
  | nil => exact iff_of_true rfl ⟨rfl, rfl⟩
  | cons row rows ih =>
      rw [checkKinds, List.map_cons, List.map_cons, repeated, repeated]
      by_cases byId : row.id ∈ seen.map (·.id)
      · simp [byId]
      · by_cases byName : row.displayName ∈ seen.map (·.displayName)
        · simp [byId, byName]
        · rw [if_neg byId, if_neg byName, if_neg byId, if_neg byName]
          exact ih

theorem checkBound_ok_iff {kinds : List KindMeta} : checkBound kinds = .ok () ↔
    ∀ kind ∈ kernelConstants, kind ∈ kinds.map (·.id) := by
  rw [checkBound]
  cases found : kernelConstants.find? (· ∉ kinds.map (·.id)) with
  | some kind =>
      have unbound := List.find?_some found
      rw [decide_eq_true_eq] at unbound
      refine iff_of_false (fun passed => by cases passed) fun bound => ?_
      exact unbound (bound kind (List.mem_of_find?_eq_some found))
  | none =>
      refine iff_of_true rfl fun kind constant => ?_
      simpa using List.find?_eq_none.mp found kind constant

/-- Moving the packs into their ranges keeps what does not depend on the range. -/
theorem map_canonicalized {κ : Type} {part : PackDef → κ} (packs : List PackDef)
    (keeps : ∀ place offset pack, part (canonicalPack place offset pack) = part pack) :
    (canonicalized packs).map part = (sortedPacks packs).map part := by
  refine List.ext_getElem? fun place => ?_
  rw [canonicalized, List.getElem?_map, List.getElem?_map, List.getElem?_mapIdx]
  cases (sortedPacks packs)[place]? with
  | none => rfl
  | some pack => exact congrArg some (keeps _ _ _)

theorem sortedPacks_perm_self (packs : List PackDef) : (sortedPacks packs).Perm packs :=
  List.perm_insertionSort _ _

theorem nodup_canonicalized (distinct : (packs.map (·.name)).Nodup) :
    ((canonicalized packs).map (·.name)).Nodup := by
  rw [map_canonicalized packs fun _ _ _ => rfl]
  exact ((sortedPacks_perm_self packs).map _).nodup_iff.mpr distinct

/-- What packs have to satisfy. -/
structure Registers (packs : List PackDef) : Prop where
  packNames : (packs.map (·.name)).Nodup
  memoryTypes : ((canonicalized packs).flatMap (·.memoryTypeNames)).Nodup
  entityTypes : ((canonicalized packs).flatMap (·.entityTypeNames)).Nodup
  kindIds : (((canonicalized packs).flatMap (·.kinds)).map (·.id)).Nodup
  kindNames : (((canonicalized packs).flatMap (·.kinds)).map (·.displayName)).Nodup
  bound : ∀ kind ∈ kernelConstants, kind ∈ ((canonicalized packs).flatMap (·.kinds)).map (·.id)

theorem fromPacks_ok_iff : fromPacks sha256 packs = .ok ontology ↔
      Registers packs ∧ ontology = assembled sha256 (canonicalized packs) := by
  have unit {x : Except PackError Unit} {rest : Unit → Except PackError Ontology} :
      (x >>= rest) = .ok ontology ↔ x = .ok () ∧ rest () = .ok ontology :=
    bind_eq_ok_iff.trans ⟨fun ⟨_, ok⟩ => ok, fun ok => ⟨(), ok⟩⟩
  rw [fromPacks]
  simp only [unit, checkPackNames_ok_iff, checkNames_ok_iff, checkKinds_ok_iff, checkBound_ok_iff]
  constructor
  · rintro ⟨packNames, memoryTypes, entityTypes, ⟨⟨kindIds, -⟩, kindNames, -⟩, bound, done⟩
    exact ⟨⟨packNames, memoryTypes, entityTypes, kindIds, kindNames, bound⟩,
      (Except.ok.inj done).symm⟩
  · rintro ⟨⟨packNames, memoryTypes, entityTypes, kindIds, kindNames, bound⟩, rfl⟩
    exact ⟨packNames, memoryTypes, entityTypes,
      ⟨⟨kindIds, fun _ _ => List.not_mem_nil⟩, kindNames, fun _ _ => List.not_mem_nil⟩, bound, rfl⟩

/-! ## The order of the packs -/

theorem sortedPacks_perm (permuted : packs.Perm others) (distinct : (packs.map (·.name)).Nodup) :
    sortedPacks packs = sortedPacks others :=
  insertionSort_eq_of_perm distinct permuted

theorem canonicalized_perm (permuted : packs.Perm others) (distinct : (packs.map (·.name)).Nodup) :
    canonicalized packs = canonicalized others := by
  rw [canonicalized, sortedPacks_perm permuted distinct]
  rfl

/-- The order in which packs register does not matter. -/
theorem fromPacks_perm (sha256 : List UInt8 → Bytes 32) (permuted : packs.Perm others)
    (distinct : (packs.map (·.name)).Nodup) : fromPacks sha256 packs = fromPacks sha256 others := by
  have distinct' : (others.map (·.name)).Nodup := (permuted.map _).nodup_iff.mp distinct
  rw [fromPacks, fromPacks, checkPackNames_ok_iff.mpr distinct, checkPackNames_ok_iff.mpr distinct',
    canonicalized_perm permuted distinct]

/-- **A fingerprint identifies its ontology.** Short summaries with the same fingerprint are the
same, and packs with distinct names are assembled alike in every order. -/
theorem fingerprint_identifies :
    (∀ summary other : OntologySummary, summary.Short → other.Short →
      (∀ sha256, summary.compatibilityFingerprint sha256 = other.compatibilityFingerprint sha256) →
        summary = other) ∧
    ∀ (sha256 : List UInt8 → Bytes 32) (packs others : List PackDef), packs.Perm others →
      (packs.map (·.name)).Nodup → fromPacks sha256 packs = fromPacks sha256 others :=
  ⟨fun _ _ short short' same => OntologySummary.compatibilityFingerprint_inj short short' same,
    fun sha256 _ _ permuted distinct => fromPacks_perm sha256 permuted distinct⟩

/-! ## Two packs -/

/-- A problem and the kinds that a kernel names. -/
def basePack : PackDef where
  name := "base"
  memoryTypeNames := ["Problem"]
  entityTypeNames := ["File"]
  kinds := [
    ⟨⟨⟨0⟩, none, false⟩, "Solves", .solution, ⟨0x3f59999a#32⟩, false⟩,
    ⟨⟨⟨1⟩, none, false⟩, "Fixes", .causal, ⟨0x3f666666#32⟩, false⟩,
    ⟨⟨⟨2⟩, none, false⟩, "Causes", .causal, ⟨0x3f59999a#32⟩, false⟩,
    ⟨⟨⟨3⟩, none, false⟩, "InSession", .context, ⟨0x3f4ccccd#32⟩, false⟩]
  typeTriples := [⟨⟨2⟩, none, some [0]⟩, ⟨⟨3⟩, none, none⟩]
  ruleIds := []
  actions := []
  functions := []

/-- Ideas that build on each other. -/
def ideaPack : PackDef where
  name := "ideas"
  memoryTypeNames := ["Idea"]
  entityTypeNames := []
  kinds := [⟨⟨⟨0x80000000⟩, none, false⟩, "BuildsOn", .extension 7, ⟨0x3f59999a#32⟩, false⟩]
  typeTriples := [⟨⟨0x80000000⟩, some [0], some [0]⟩]
  ruleIds := ["grow"]
  actions := [⟨"sketch", .team, "Outline", "Idea"⟩]
  functions := []

/-- The summary of an ontology with these types and nothing else. -/
def OntologySummary.ofNames (names : List String) : OntologySummary :=
  ⟨names, [], [], [], [], [], []⟩

/-- Two summaries whose names are the same text, and two packs in both orders. -/
theorem fingerprint_identifies_two :
    (¬ ∀ sha256, (OntologySummary.ofNames ["ab", "c"]).compatibilityFingerprint sha256 =
      (OntologySummary.ofNames ["a", "bc"]).compatibilityFingerprint sha256) ∧
    ∀ sha256, fromPacks sha256 [basePack, ideaPack] = fromPacks sha256 [ideaPack, basePack] := by
  have few : 2 < 2 ^ 32 := by decide
  have none_ {α : Type} (short : α → Prop) : ShortSection short [] :=
    ⟨Nat.two_pow_pos 32, fun _ inside => absurd inside List.not_mem_nil⟩
  have texts : ∀ text ∈ ["ab", "c", "a", "bc"], text.toUTF8.toList.length < 2 ^ 32 := by
    decide +kernel
  have short (one two : String) (first : ShortString one) (second : ShortString two) :
      (OntologySummary.ofNames [one, two]).Short :=
    ⟨⟨few, List.forall_mem_cons.mpr ⟨first, List.forall_mem_singleton.mpr second⟩⟩, none_ _,
      none_ _, none_ _, none_ _, none_ _, none_ _⟩
  refine ⟨fun same => ?_, fun sha256 => ?_⟩
  · have equal := fingerprint_identifies.1 _ _
      (short _ _ (texts _ (by decide)) (texts _ (by decide)))
      (short _ _ (texts _ (by decide)) (texts _ (by decide))) same
    exact absurd equal (by decide)
  · exact fingerprint_identifies.2 sha256 _ _ (List.Perm.swap _ _ _) (by decide)

/-! ## The effective ontology -/

/-- With distinct names, the number of a name is its place. -/
theorem lookup_typeIds (distinct : names.Nodup) (name : String) :
    (typeIds names).lookup name = (names.idxOf? name).map UInt8.ofNat := by
  induction names using List.reverseRecOn with
  | nil => rfl
  | append_singleton names last ih =>
      rw [List.nodup_append] at distinct
      obtain ⟨distinct, -, apart⟩ := distinct
      have step : typeIds (names ++ [last]) =
          (typeIds names).insert last (UInt8.ofNat names.length) := by
        rw [typeIds, List.zipIdx_append, List.foldl_append, Nat.zero_add]
        rfl
      rw [step, Table.lookup_insert_eq, ih distinct]
      simp only [List.idxOf?, List.findIdx?_append]
      by_cases same : name = last
      · have absent : names.findIdx? (· == name) = none := by
          rw [List.findIdx?_eq_none_iff]
          intro other inside
          exact beq_eq_false_iff_ne.mpr fun equal =>
            apart other inside last (List.mem_singleton.mpr rfl) (equal.trans same)
        rw [if_pos same, absent, same]
        simp
      · have later : [last].findIdx? (· == name) = none := by
          simpa using Ne.symm same
        rw [if_neg same, later]
        simp

/-- A triple of kinds of ends; a kind without rules is unknown. -/
def validateTriple (ontology : Ontology) (source : UInt8) (kind : RelKindId) (target : UInt8) :
    Except KernelError Unit :=
  match ontology.triplesByKind.lookup kind with
  | none => .error (.unknownKind kind)
  | some rules =>
      if rules.any fun rule =>
          rule.fromTypes.all (·.contains source) && rule.toTypes.all (·.contains target) then .ok ()
      else .error (.invalidTypeTriple kind source)

/-- What is assembled is an effective ontology, with the same summary, numbers and rules. -/
theorem Ontology.exists_effective (accepted : fromPacks sha256 packs = .ok ontology) :
    ∃ effective : EffectiveOntology, effective.packs = ontology.packs.map (·.registered) ∧
      effective.summary = ontology.summary ∧
      (∀ name, effective.memoryTypeId name = ontology.memoryTypeId name) ∧
      (∀ kind, effective.kindMeta kind = ontology.kindsById.lookup kind) ∧
      ∀ source kind target,
        Exocortex.validateTriple effective source kind target =
          validateTriple ontology source kind target := by
  obtain ⟨registers, rfl⟩ := fromPacks_ok_iff.mp accepted
  have same {β : Type} (part : Exocortex.PackDef → List β) :
      ((canonicalized packs).map (·.registered)).flatMap part =
        (canonicalized packs).flatMap fun pack => part pack.registered :=
    List.flatMap_map _ _ _
  have packNames : (((canonicalized packs).map (·.registered)).map (·.name)).Nodup := by
    rw [List.map_map]
    exact nodup_canonicalized registers.packNames
  refine ⟨⟨(canonicalized packs).map (·.registered), packNames, ?_, ?_, ?_, ?_, ?_⟩, rfl, rfl,
    ?_, ?_, ?_⟩
  · exact (same _).symm ▸ registers.memoryTypes
  · exact (same _).symm ▸ registers.entityTypes
  · exact (same _).symm ▸ registers.kindIds
  · exact (same _).symm ▸ registers.kindNames
  · exact (same _).symm ▸ registers.bound
  · intro name
    refine Eq.trans ?_ (lookup_typeIds registers.memoryTypes name).symm
    rw [EffectiveOntology.memoryTypeId, EffectiveOntology.memoryTypeNames, same]
    rfl
  · intro kind
    rw [EffectiveOntology.kindMeta, EffectiveOntology.kinds, same]
    exact (find?_eq_lastWith registers.kindIds kind).trans (Table.lookup_collect _ kind).symm
  · intro source kind target
    have sides (rule : TypeTriple) : matchesTriple rule source (some target) =
        (rule.fromTypes.all (·.contains source) && rule.toTypes.all (·.contains target)) := by
      obtain ⟨kind, sources, targets⟩ := rule
      cases targets <;> rfl
    have found : (assembled sha256 (canonicalized packs)).triplesByKind.lookup kind =
        if ((canonicalized packs).flatMap (·.typeTriples)).filter (·.kind = kind) = [] then none
        else some (((canonicalized packs).flatMap (·.typeTriples)).filter (·.kind = kind)) :=
      Table.lookup_groupBy_eq _ _ _
    have listed : ((canonicalized packs).map (·.registered)).flatMap (·.typeTriples) =
        (canonicalized packs).flatMap (·.typeTriples) := same _
    rw [Exocortex.validateTriple, validateTriple, EffectiveOntology.triples, listed, found]
    simp only [sides]
    generalize ((canonicalized packs).flatMap (·.typeTriples)).filter (·.kind = kind) = rules
    cases rules <;> rfl

end Assembly

end Exocortex
