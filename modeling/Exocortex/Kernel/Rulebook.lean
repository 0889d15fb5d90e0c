import Exocortex.Library.Traversals
import Exocortex.Kernel.Rows

/-!
# Drafts, the effective ontology and the rulebook

A producer hands in drafts; the effective ontology is assembled from packs and says which
names, kinds and type triples there are. `validateDraft` is the one rulebook that every
write path runs. It looks at the source side of an edge only: the target is checked with
its own draft, or by the server (`validateTriple`).

The number of a memory type has eight bits, while the list of names is not bounded: from
the 257th name on two names share a number (`memoryTypeNames_memoryTypeId` is about those
before). A kind is looked up by its name, which is unique, so its name is found again from
its handle (`kindMeta_kindId`).
-/

namespace Exocortex

open Library

/-- Neither a NaN nor an infinity. -/
def F32.isFinite (x : F32) : Bool := !decide (x.bits.extractLsb' 23 8 = 0xff#8)

/-- The bytes of a float, least significant first. -/
def F32.toLeBytes (x : F32) : List UInt8 :=
  [⟨x.bits.extractLsb' 0 8⟩, ⟨x.bits.extractLsb' 8 8⟩, ⟨x.bits.extractLsb' 16 8⟩,
    ⟨x.bits.extractLsb' 24 8⟩]

namespace Visibility

def within (visibility ceiling : Visibility) : Bool := decide (visibility.rank ≤ ceiling.rank)

/-- The name the derived `Debug` prints. -/
def debug : Visibility → String
  | .private => "Private"
  | .project => "Project"
  | .team => "Team"
  | .org => "Org"
  | .public => "Public"

end Visibility

/-- An edge is no wider than either end. -/
def relationshipVisibility (source target : Visibility) : Visibility :=
  if target.rank < source.rank then target else source

theorem relationshipVisibility_rank (source target : Visibility) :
    (relationshipVisibility source target).rank = min source.rank target.rank := by
  rw [relationshipVisibility]
  split <;> omega

/-- The narrowest of some labels is no wider than any. -/
theorem foldl_relationshipVisibility_le (first : Visibility) (labels : List Visibility) :
    (labels.foldl relationshipVisibility first).rank ≤ first.rank ∧
      ∀ label ∈ labels, (labels.foldl relationshipVisibility first).rank ≤ label.rank := by
  induction labels generalizing first with
  | nil => exact ⟨le_rfl, fun label member => absurd member List.not_mem_nil⟩
  | cons label labels ih =>
      obtain ⟨below, all⟩ := ih (relationshipVisibility first label)
      rw [relationshipVisibility_rank] at below
      rw [List.foldl_cons]
      refine ⟨below.trans (min_le_left _ _), ?_⟩
      intro other member
      rcases List.mem_cons.mp member with rfl | later
      · exact below.trans (min_le_right _ _)
      · exact all other later

/-- The narrowest of some labels is one of them. -/
theorem foldl_relationshipVisibility_mem (labels : List Visibility) (first : Visibility) :
    labels.foldl relationshipVisibility first ∈ first :: labels := by
  induction labels generalizing first with
  | nil => exact List.mem_cons_self
  | cons label labels ih =>
      have either : relationshipVisibility first label = first ∨
          relationshipVisibility first label = label := by
        rw [relationshipVisibility]
        split
        · exact .inr rfl
        · exact .inl rfl
      rcases List.mem_cons.mp (ih (relationshipVisibility first label)) with same | later
      · rw [List.foldl_cons, same]
        rcases either with kept | taken
        · rw [kept]
          exact List.mem_cons_self
        · rw [taken]
          exact List.mem_cons_of_mem _ List.mem_cons_self
      · exact List.mem_cons_of_mem _ (List.mem_cons_of_mem _ later)

namespace MemoryId

def hexDigit (c : Char) : Option UInt8 :=
  if '0' ≤ c ∧ c ≤ '9' then some (c.toNat - '0'.toNat).toUInt8
  else if 'a' ≤ c ∧ c ≤ 'f' then some (c.toNat - 'a'.toNat + 10).toUInt8
  else if 'A' ≤ c ∧ c ≤ 'F' then some (c.toNat - 'A'.toNat + 10).toUInt8
  else none

/-- Bytes from pairs of digits; a text that is not made of them is refused. -/
def hexBytes : List Char → Option (List UInt8)
  | [] => some []
  | [_] => none
  | high :: low :: rest => do
      let high ← hexDigit high
      let low ← hexDigit low
      let rest ← hexBytes rest
      return (high * 16 + low) :: rest

/-- The canonical 32 digits, in either case. -/
def parseHex (text : String) : Option MemoryId := do
  let bytes ← hexBytes text.toList
  if size : bytes.length = 16 then return ⟨⟨bytes, size⟩⟩ else none

def toHex (id : MemoryId) : String := id.raw.digestHex

end MemoryId

/-! ## Drafts -/

/-- The context of a draft. The metadata is kept as its compact text. -/
structure DraftContext extends MemoryContext where
  projectPath : Option String
  createdBy : Option String
  filesInvolved : List String
  languages : List String
  frameworks : List String
  technologies : List String
  gitCommit : Option String
  gitBranch : Option String
  workingDirectory : Option String
  additionalMetadata : String
deriving DecidableEq

/-- The context of a draft that says nothing. -/
def DraftContext.blank (timestamp : DateTime) : DraftContext where
  projectId := none
  teamId := none
  tenantId := none
  userId := none
  entities := []
  timestamp := timestamp
  projectPath := none
  sessionId := none
  createdBy := none
  filesInvolved := []
  languages := []
  frameworks := []
  technologies := []
  gitCommit := none
  gitBranch := none
  workingDirectory := none
  additionalMetadata := "null"

/-- A typed relationship that a draft declares. -/
structure EdgeHint where
  kind : RelKindId
  target : MemoryId
  strength : Option F32
  confidence : Option F32
deriving DecidableEq

/-- The write shape. -/
structure MemoryDraft where
  memoryType : UInt8
  title : String
  content : String
  summary : Option String
  visibility : Visibility
  context : DraftContext
  edgeHints : List EdgeHint
  externalKey : Option ExternalKey
deriving DecidableEq

/-! ## Packs and the ontology -/

/-- The buckets of kinds. -/
inductive RelBucket where
  | causal
  | solution
  | context
  | learning
  | similarity
  | workflow
  | quality
  | integration
  | extension (tag : UInt16)
deriving DecidableEq

/-- What a pack says about a kind. -/
structure KindMeta extends RelMeta where
  displayName : String
  bucket : RelBucket
  defaultStrength : F32
  computedOnly : Bool
deriving DecidableEq

/-- Which ends a kind may have; `none` is any. -/
structure TypeTriple where
  kind : RelKindId
  fromTypes : Option (List UInt8)
  toTypes : Option (List UInt8)
deriving DecidableEq

/-- The signature of an action of a pack, with the rank of its ceiling. -/
@[ext] structure ActionVerbSummary where
  pack : String
  name : String
  ceiling : UInt8
  inputType : String
  outputType : String
deriving DecidableEq

/-- The signature of a function of a pack. -/
@[ext] structure FunctionVerbSummary where
  pack : String
  name : String
  engine : String
  inputType : String
  outputType : String
deriving DecidableEq

structure PackDef where
  name : String
  memoryTypeNames : List String
  entityTypeNames : List String
  kinds : List KindMeta
  typeTriples : List TypeTriple
  ruleIds : List String
  actions : List ActionVerbSummary
  functions : List FunctionVerbSummary

/-- The kinds that some pack has to bind. -/
def kernelConstants : List RelKindId := [⟨0⟩, ⟨1⟩, ⟨2⟩, ⟨3⟩]

/-- The packs of a process, with what assembling them checks. -/
structure EffectiveOntology where
  packs : List PackDef
  packNames : (packs.map (·.name)).Nodup
  memoryTypes : (packs.flatMap (·.memoryTypeNames)).Nodup
  entityTypes : (packs.flatMap (·.entityTypeNames)).Nodup
  kindIds : ((packs.flatMap (·.kinds)).map (·.id)).Nodup
  kindNames : ((packs.flatMap (·.kinds)).map (·.displayName)).Nodup
  bound : ∀ kind ∈ kernelConstants, kind ∈ (packs.flatMap (·.kinds)).map (·.id)

namespace EffectiveOntology

variable (ontology : EffectiveOntology)

def memoryTypeNames : List String := ontology.packs.flatMap (·.memoryTypeNames)

def kinds : List KindMeta := ontology.packs.flatMap (·.kinds)

/-- The number of a type name, as eight bits. -/
def memoryTypeId (name : String) : Option UInt8 :=
  (ontology.memoryTypeNames.idxOf? name).map UInt8.ofNat

def kindId (name : String) : Option RelKindId :=
  (ontology.kinds.find? (·.displayName = name)).map (·.id)

/-- `kinds_by_id`. -/
def kindMeta (kind : RelKindId) : Option KindMeta := ontology.kinds.find? (·.id = kind)

/-- `triples_by_kind`: a kind without rules has no entry. -/
def triples (kind : RelKindId) : Option (List TypeTriple) :=
  match (ontology.packs.flatMap (·.typeTriples)).filter (·.kind = kind) with
  | [] => none
  | rules => some rules

theorem idxOf?_eq_some {names : List String} {name : String} {index : ℕ}
    (found : names.idxOf? name = some index) : names[index]? = some name := by
  obtain ⟨within, same, _⟩ := List.findIdx?_eq_some_iff_getElem.mp found
  rw [List.getElem?_eq_getElem within, beq_iff_eq.mp same]

/-- A known name has its number read back as the name exactly when it is among the first
256 names. -/
theorem memoryTypeNames_memoryTypeId {name : String} {number : UInt8}
    (known : ontology.memoryTypeId name = some number) :
    ontology.memoryTypeNames[number.toNat]? = some name ↔
      ontology.memoryTypeNames.idxOf name < 256 := by
  obtain ⟨index, found, rfl⟩ := Option.map_eq_some_iff.mp known
  have place := idxOf?_eq_some found
  have same : ontology.memoryTypeNames.idxOf name = index :=
    (List.idxOf_eq_getD_idxOf? _ _).trans (by rw [found]; rfl)
  obtain ⟨within, at_index⟩ := List.getElem?_eq_some_iff.mp place
  rw [same, UInt8.toNat_ofNat']
  constructor
  · intro again
    obtain ⟨within', at_number⟩ := List.getElem?_eq_some_iff.mp again
    -- Names are distinct, so equal names are at equal places.
    have equal : index % 2 ^ 8 = index :=
      (List.Nodup.getElem_inj_iff ontology.memoryTypes).mp (at_number.trans at_index.symm)
    omega
  · intro small
    rw [Nat.mod_eq_of_lt small]
    exact place

theorem kindMeta_iff {ontology : EffectiveOntology} {kind : RelKindId} {row : KindMeta} :
    ontology.kindMeta kind = some row ↔ row ∈ ontology.kinds ∧ row.id = kind := by
  constructor
  · intro found
    exact ⟨List.mem_of_find?_eq_some found, by simpa using List.find?_some found⟩
  · rintro ⟨member, rfl⟩
    rw [kindMeta]
    cases found : ontology.kinds.find? (·.id = row.id) with
    | none =>
        have absent := List.find?_eq_none.mp found row member
        simp at absent
    | some other =>
        have same : other.id = row.id := by simpa using List.find?_some found
        exact congrArg some (List.inj_on_of_nodup_map ontology.kindIds
          (List.mem_of_find?_eq_some found) member same)

/-- A kind is found again under its handle. -/
theorem kindMeta_kindId {name : String} {kind : RelKindId}
    (known : ontology.kindId name = some kind) :
    (ontology.kindMeta kind).map (·.displayName) = some name := by
  obtain ⟨row, found, rfl⟩ := Option.map_eq_some_iff.mp known
  have named : row.displayName = name := by simpa using List.find?_some found
  rw [kindMeta_iff.mpr ⟨List.mem_of_find?_eq_some found, rfl⟩, Option.map_some, named]

end EffectiveOntology

/-! ## The rulebook -/

/-- Why a draft is refused. -/
inductive KernelError where
  | unknownKind (kind : RelKindId)
  | invalidTypeTriple (kind : RelKindId) (source : UInt8)
  | titleBounds
  | emptyContent
  | visibilityWidening (source : String) (ceiling attempted : Visibility)
  | summaryBounds
  | metadataTooLarge
deriving DecidableEq

/-- The text of an error. -/
def KernelError.text : KernelError → String
  | .unknownKind kind =>
      "unknown RelKindId RelKindId(" ++ toString kind.raw.toNat ++ ") in effective ontology"
  | .invalidTypeTriple kind source =>
      "invalid type triple: kind RelKindId(" ++ toString kind.raw.toNat ++ ") on memory_type " ++
        toString source.toNat
  | .titleBounds => "title must be 1..=200 chars (R-T5)"
  | .emptyContent => "content must be non-empty (R-T5)"
  | .visibilityWidening source ceiling attempted =>
      "visibility widening rejected: source=" ++ source ++ " ceiling=" ++ ceiling.debug ++
        " attempted=" ++ attempted.debug
  | .summaryBounds => "summary must be <=500 chars (R-T5)"
  | .metadataTooLarge => "additional_metadata exceeds 8 KiB serialized (R-T10)"

def matchesTriple (rule : TypeTriple) (source : UInt8) (target : Option UInt8) : Bool :=
  let sourceOk := rule.fromTypes.all (·.contains source)
  let targetOk := match rule.toTypes, target with
    | none, _ => true
    | some _, none => true
    | some types, some target => types.contains target
  sourceOk && targetOk

/-- The rules let the kind start at a memory of this type. -/
def validateHint (ontology : EffectiveOntology) (source : UInt8) (kind : RelKindId) :
    Except KernelError Unit :=
  match ontology.triples kind with
  | none => .error (.unknownKind kind)
  | some rules =>
      if rules.any (matchesTriple · source none) then .ok ()
      else .error (.invalidTypeTriple kind source)

/-- The part of `validate_draft` before the edge hints. -/
def validateFields (draft : MemoryDraft) (source : String) (ceiling : Visibility) :
    Except KernelError Unit := do
  if draft.title.isEmpty ∨ 200 < draft.title.length then throw .titleBounds
  if draft.content.isEmpty then throw .emptyContent
  if draft.summary.any (fun summary => 500 < summary.length) then throw .summaryBounds
  if 8 * 1024 < draft.context.additionalMetadata.utf8ByteSize then throw .metadataTooLarge
  if !draft.visibility.within ceiling then
    throw (.visibilityWidening source ceiling draft.visibility)

def validateDraft (ontology : EffectiveOntology) (draft : MemoryDraft) (source : String)
    (ceiling : Visibility) : Except KernelError Unit := do
  validateFields draft source ceiling
  draft.edgeHints.forM fun hint => validateHint ontology draft.memoryType hint.kind

/-- The fields of a draft pass when each of them is within its bounds. -/
theorem validateFields_ok_iff {draft : MemoryDraft} {source : String} {ceiling : Visibility} :
    validateFields draft source ceiling = .ok () ↔
      ¬ (draft.title.isEmpty ∨ 200 < draft.title.length) ∧ ¬ draft.content.isEmpty ∧
        ¬ draft.summary.any (fun summary => 500 < summary.length) ∧
        ¬ 8 * 1024 < draft.context.additionalMetadata.utf8ByteSize ∧
        draft.visibility.within ceiling = true := by
  rw [validateFields]
  simp only [throw, throwThe, MonadExceptOf.throw, bind, Except.bind, pure, Except.pure,
    ite_error_ok_iff]
  simp

/-- A draft passes when its fields do and every kind may start at its type. -/
theorem validateDraft_ok_iff {ontology : EffectiveOntology} {draft : MemoryDraft}
    {source : String} {ceiling : Visibility} :
    validateDraft ontology draft source ceiling = .ok () ↔
      validateFields draft source ceiling = .ok () ∧
        ∀ hint ∈ draft.edgeHints, validateHint ontology draft.memoryType hint.kind = .ok () := by
  rw [validateDraft]
  cases fields : validateFields draft source ceiling with
  | error error =>
      constructor
      · intro passed
        cases passed
      · rintro ⟨passed, _⟩
        cases passed
  | ok nothing =>
      refine forM_eq_ok_iff.trans ?_
      exact ⟨fun hints => ⟨rfl, hints⟩, fun both => both.2⟩

/-- Both ends of an edge. -/
def validateTriple (ontology : EffectiveOntology) (source : UInt8) (kind : RelKindId)
    (target : UInt8) : Except KernelError Unit :=
  match ontology.triples kind with
  | none => .error (.unknownKind kind)
  | some rules =>
      if rules.any (matchesTriple · source (some target)) then .ok ()
      else .error (.invalidTypeTriple kind source)

/-! ## A small ontology -/

/-- Two types and the kinds that a kernel names; a solution solves a problem. -/
def smallPack : PackDef where
  name := "small"
  memoryTypeNames := ["Problem", "Solution"]
  entityTypeNames := ["File"]
  kinds := [
    ⟨⟨⟨0⟩, none, false⟩, "Solves", .solution, ⟨0x3f59999a#32⟩, false⟩,
    ⟨⟨⟨1⟩, none, false⟩, "Fixes", .causal, ⟨0x3f666666#32⟩, false⟩,
    ⟨⟨⟨2⟩, none, false⟩, "Causes", .causal, ⟨0x3f59999a#32⟩, false⟩,
    ⟨⟨⟨3⟩, none, false⟩, "InSession", .context, ⟨0x3f4ccccd#32⟩, false⟩]
  typeTriples := [
    ⟨⟨0⟩, some [1], some [0]⟩, ⟨⟨1⟩, some [1], some [0]⟩, ⟨⟨2⟩, none, some [0]⟩,
    ⟨⟨3⟩, none, none⟩]
  ruleIds := []
  actions := []
  functions := []

def smallOntology : EffectiveOntology where
  packs := [smallPack]
  packNames := by decide
  memoryTypes := by decide
  entityTypes := by decide
  kindIds := by decide
  kindNames := by decide
  bound := by decide

end Exocortex
