import Exocortex.Kernel.Rulebook
import Exocortex.Library.Framing
import Exocortex.Library.Scans

/-!
# Fingerprints of ontologies

The compatibility fingerprint of an ontology is a digest of its summary. The summary has seven
sections. Each of them is written with the number of its entries before it, each string and each
listed side of a rule with its length, and each option with a mark of whether it is there; numbers
have a fixed width. So what is digested can be read back, and summaries with the same fingerprint
are the same (`compatibilityFingerprint_inj`), unless a length does not fit into its four bytes.

The digest is given. A fingerprint is the same by construction when it is under every digest
function. Default strengths are the same when their bits are.
-/

namespace Exocortex

open Library

/-! ## Summaries -/

/-- A kind, with the tag of its bucket and the payload of an extension. -/
@[ext] structure KindSummary where
  id : UInt32
  name : String
  bucket : UInt8
  bucketExtension : UInt16
  inverse : Option UInt32
  bidirectional : Bool
  defaultStrength : F32
  computedOnly : Bool
deriving DecidableEq

/-- A rule, with `none` for a side that any type matches. -/
@[ext] structure TripleSummary where
  kind : UInt32
  fromTypes : Option (List UInt8)
  toTypes : Option (List UInt8)
deriving DecidableEq

@[ext] structure OntologySummary where
  memoryTypes : List String
  entityTypes : List String
  kinds : List KindSummary
  typeTriples : List TripleSummary
  ruleIds : List String
  actions : List ActionVerbSummary
  functions : List FunctionVerbSummary
deriving DecidableEq

def bucketParts : RelBucket → UInt8 × UInt16
  | .causal => (0, 0)
  | .solution => (1, 0)
  | .context => (2, 0)
  | .learning => (3, 0)
  | .similarity => (4, 0)
  | .workflow => (5, 0)
  | .quality => (6, 0)
  | .integration => (7, 0)
  | .extension tag => (8, tag)

def kindSummary (row : KindMeta) : KindSummary where
  id := row.id.raw
  name := row.displayName
  bucket := (bucketParts row.bucket).1
  bucketExtension := (bucketParts row.bucket).2
  inverse := row.inverse.map (·.raw)
  bidirectional := row.bidirectional
  defaultStrength := row.defaultStrength
  computedOnly := row.computedOnly

def tripleSummary (rule : TypeTriple) : TripleSummary :=
  ⟨rule.kind.raw, rule.fromTypes, rule.toTypes⟩

/-- Rules are listed by kind, then by their sides; an open side comes first. -/
def TripleSummary.le (left right : TripleSummary) : Bool :=
  ((compare left.kind right.kind).then ((compare left.fromTypes right.fromTypes).then
    (compare left.toTypes right.toTypes))).isLE

/-- The derived order. -/
def ActionVerbSummary.le (left right : ActionVerbSummary) : Bool :=
  ((compare left.pack right.pack).then ((compare left.name right.name).then
    ((compare left.ceiling right.ceiling).then ((compare left.inputType right.inputType).then
      (compare left.outputType right.outputType))))).isLE

/-- The derived order. -/
def FunctionVerbSummary.le (left right : FunctionVerbSummary) : Bool :=
  ((compare left.pack right.pack).then ((compare left.name right.name).then
    ((compare left.engine right.engine).then ((compare left.inputType right.inputType).then
      (compare left.outputType right.outputType))))).isLE

/-- `of_canonical_packs`. -/
def OntologySummary.ofCanonicalPacks (packs : List PackDef) : OntologySummary where
  memoryTypes := packs.flatMap (·.memoryTypeNames)
  entityTypes := packs.flatMap (·.entityTypeNames)
  kinds := ((packs.flatMap (·.kinds)).map kindSummary).insertionSort fun left right =>
    left.id ≤ right.id
  typeTriples := ((packs.flatMap (·.typeTriples)).map tripleSummary).insertionSort
    (TripleSummary.le · ·)
  ruleIds := packs.flatMap (·.ruleIds)
  actions := (packs.flatMap (·.actions)).insertionSort (ActionVerbSummary.le · ·)
  functions := (packs.flatMap (·.functions)).insertionSort (FunctionVerbSummary.le · ·)

def EffectiveOntology.summary (ontology : EffectiveOntology) : OntologySummary :=
  .ofCanonicalPacks ontology.packs

/-! ## What is digested -/

/-- A length as four bytes. -/
def lengthBytes (n : ℕ) : List UInt8 := leBytes 4 n

def boolByte (b : Bool) : UInt8 := if b then 1 else 0

def stringBytes (text : String) : List UInt8 := frame lengthBytes text.toUTF8.toList

/-- `str_section`. -/
def strSection (values : List String) : List UInt8 := counted lengthBytes stringBytes values

def KindSummary.bytes (row : KindSummary) : List UInt8 :=
  leBytes 4 row.id.toNat ++ stringBytes row.name ++ [row.bucket] ++
    leBytes 2 row.bucketExtension.toNat ++
    optional 0 1 (fun inverse : UInt32 => leBytes 4 inverse.toNat) row.inverse ++
    [boolByte row.bidirectional] ++ leBytes 4 row.defaultStrength.bits.toNat ++
    [boolByte row.computedOnly]

/-- A side of a rule. -/
def sideBytes : Option (List UInt8) → List UInt8 := optional 0 1 (frame lengthBytes)

def TripleSummary.bytes (rule : TripleSummary) : List UInt8 :=
  leBytes 4 rule.kind.toNat ++ sideBytes rule.fromTypes ++ sideBytes rule.toTypes

def ActionVerbSummary.bytes (verb : ActionVerbSummary) : List UInt8 :=
  stringBytes verb.pack ++ stringBytes verb.name ++ [verb.ceiling] ++
    stringBytes verb.inputType ++ stringBytes verb.outputType

def FunctionVerbSummary.bytes (verb : FunctionVerbSummary) : List UInt8 :=
  stringBytes verb.pack ++ stringBytes verb.name ++ stringBytes verb.engine ++
    stringBytes verb.inputType ++ stringBytes verb.outputType

namespace OntologySummary

def preimage (summary : OntologySummary) : List UInt8 :=
  "exocortex-compat-v2\x1e".toUTF8.toList ++ strSection summary.memoryTypes ++
    strSection summary.entityTypes ++ counted lengthBytes KindSummary.bytes summary.kinds ++
    counted lengthBytes TripleSummary.bytes summary.typeTriples ++ strSection summary.ruleIds ++
    counted lengthBytes ActionVerbSummary.bytes summary.actions ++
    counted lengthBytes FunctionVerbSummary.bytes summary.functions

def compatibilityFingerprint (sha256 : List UInt8 → Bytes 32) (summary : OntologySummary) :
    Bytes 32 := sha256 summary.preimage

end OntologySummary

/-! ## Reading it back -/

/-- The length of the text fits into its four bytes. -/
def ShortString (text : String) : Prop := text.toUTF8.toList.length < 2 ^ 32

def ShortSide (side : Option (List UInt8)) : Prop := ∀ types ∈ side, types.length < 2 ^ 32

def KindSummary.Short (row : KindSummary) : Prop := ShortString row.name

def TripleSummary.Short (rule : TripleSummary) : Prop :=
  ShortSide rule.fromTypes ∧ ShortSide rule.toTypes

def ActionVerbSummary.Short (verb : ActionVerbSummary) : Prop :=
  ShortString verb.pack ∧ ShortString verb.name ∧ ShortString verb.inputType ∧
    ShortString verb.outputType

def FunctionVerbSummary.Short (verb : FunctionVerbSummary) : Prop :=
  ShortString verb.pack ∧ ShortString verb.name ∧ ShortString verb.engine ∧
    ShortString verb.inputType ∧ ShortString verb.outputType

/-- Fewer than `2 ^ 32` entries, each of them short. -/
def ShortSection {α : Type} (short : α → Prop) (entries : List α) : Prop :=
  entries.length < 2 ^ 32 ∧ ∀ entry ∈ entries, short entry

/-- Every section, string and listed side is shorter than `2 ^ 32`. -/
structure OntologySummary.Short (summary : OntologySummary) : Prop where
  memoryTypes : ShortSection ShortString summary.memoryTypes
  entityTypes : ShortSection ShortString summary.entityTypes
  kinds : ShortSection KindSummary.Short summary.kinds
  typeTriples : ShortSection TripleSummary.Short summary.typeTriples
  ruleIds : ShortSection ShortString summary.ruleIds
  actions : ShortSection ActionVerbSummary.Short summary.actions
  functions : ShortSection FunctionVerbSummary.Short summary.functions

theorem lengthBytes_selfDelimiting : SelfDelimiting (· < 2 ^ 32) lengthBytes :=
  leBytes_selfDelimiting (Nat.le_refl (256 ^ 4))

theorem stringBytes_selfDelimiting : SelfDelimiting ShortString stringBytes := by
  intro text other short short' rest rest' same
  obtain ⟨bytes, back⟩ := lengthBytes_selfDelimiting.frame short short' same
  exact ⟨toUTF8_inj bytes, back⟩

theorem sideBytes_selfDelimiting : SelfDelimiting ShortSide sideBytes :=
  lengthBytes_selfDelimiting.frame.optional (by decide)

theorem word_selfDelimiting :
    SelfDelimiting (fun _ => True) fun word : UInt32 => leBytes 4 word.toNat := by
  intro word other _ _ rest rest' same
  obtain ⟨number, back⟩ :=
    leBytes_selfDelimiting (Nat.le_refl (256 ^ 4)) word.toNat_lt other.toNat_lt same
  exact ⟨UInt32.toNat_inj.mp number, back⟩

theorem boolByte_inj {b c : Bool} (same : boolByte b = boolByte c) : b = c := by
  cases b <;> cases c <;> first | rfl | cases same

theorem byte_append {byte byte' : UInt8} {rest rest' : List UInt8}
    (same : [byte] ++ rest = [byte'] ++ rest') : byte = byte' ∧ rest = rest' :=
  List.cons.inj same

theorem KindSummary.bytes_selfDelimiting : SelfDelimiting KindSummary.Short KindSummary.bytes := by
  intro row other short short' rest rest' same
  simp only [bytes, List.append_assoc] at same
  obtain ⟨ids, same⟩ := word_selfDelimiting trivial trivial same
  obtain ⟨names, same⟩ := stringBytes_selfDelimiting short short' same
  obtain ⟨buckets, same⟩ := byte_append same
  obtain ⟨payloads, same⟩ :=
    leBytes_selfDelimiting (Nat.le_refl (256 ^ 2)) row.bucketExtension.toNat_lt
      other.bucketExtension.toNat_lt same
  obtain ⟨inverses, same⟩ := word_selfDelimiting.optional (by decide)
    (fun _ _ => trivial) (fun _ _ => trivial) same
  obtain ⟨directions, same⟩ := byte_append same
  obtain ⟨strengths, same⟩ := leBytes_selfDelimiting (Nat.le_refl (256 ^ 4))
    row.defaultStrength.bits.isLt other.defaultStrength.bits.isLt same
  obtain ⟨computed, same⟩ := byte_append same
  exact ⟨KindSummary.ext ids names buckets (UInt16.toNat_inj.mp payloads) inverses
    (boolByte_inj directions) (congrArg F32.mk (BitVec.eq_of_toNat_eq strengths))
    (boolByte_inj computed), same⟩

theorem TripleSummary.bytes_selfDelimiting :
    SelfDelimiting TripleSummary.Short TripleSummary.bytes := by
  intro rule other short short' rest rest' same
  simp only [bytes, List.append_assoc] at same
  obtain ⟨kinds, same⟩ := word_selfDelimiting trivial trivial same
  obtain ⟨sources, same⟩ := sideBytes_selfDelimiting short.1 short'.1 same
  obtain ⟨targets, same⟩ := sideBytes_selfDelimiting short.2 short'.2 same
  exact ⟨TripleSummary.ext kinds sources targets, same⟩

theorem ActionVerbSummary.bytes_selfDelimiting :
    SelfDelimiting ActionVerbSummary.Short ActionVerbSummary.bytes := by
  intro verb other short short' rest rest' same
  simp only [bytes, List.append_assoc] at same
  obtain ⟨packs, same⟩ := stringBytes_selfDelimiting short.1 short'.1 same
  obtain ⟨names, same⟩ := stringBytes_selfDelimiting short.2.1 short'.2.1 same
  obtain ⟨ceilings, same⟩ := byte_append same
  obtain ⟨inputs, same⟩ := stringBytes_selfDelimiting short.2.2.1 short'.2.2.1 same
  obtain ⟨outputs, same⟩ := stringBytes_selfDelimiting short.2.2.2 short'.2.2.2 same
  exact ⟨ActionVerbSummary.ext packs names ceilings inputs outputs, same⟩

theorem FunctionVerbSummary.bytes_selfDelimiting :
    SelfDelimiting FunctionVerbSummary.Short FunctionVerbSummary.bytes := by
  intro verb other short short' rest rest' same
  simp only [bytes, List.append_assoc] at same
  obtain ⟨packs, same⟩ := stringBytes_selfDelimiting short.1 short'.1 same
  obtain ⟨names, same⟩ := stringBytes_selfDelimiting short.2.1 short'.2.1 same
  obtain ⟨engines, same⟩ := stringBytes_selfDelimiting short.2.2.1 short'.2.2.1 same
  obtain ⟨inputs, same⟩ := stringBytes_selfDelimiting short.2.2.2.1 short'.2.2.2.1 same
  obtain ⟨outputs, same⟩ := stringBytes_selfDelimiting short.2.2.2.2 short'.2.2.2.2 same
  exact ⟨FunctionVerbSummary.ext packs names engines inputs outputs, same⟩

/-- A section of short entries can be read back. -/
theorem section_selfDelimiting {α : Type} {short : α → Prop} {bytes : α → List UInt8}
    (entries : SelfDelimiting short bytes) :
    SelfDelimiting (ShortSection short) (counted lengthBytes bytes) :=
  lengthBytes_selfDelimiting.counted entries

namespace OntologySummary

/-- Short summaries are known from what is digested. -/
theorem preimage_inj {summary other : OntologySummary} (short : summary.Short)
    (short' : other.Short) (same : summary.preimage = other.preimage) : summary = other := by
  simp only [preimage, List.append_assoc] at same
  have names := section_selfDelimiting stringBytes_selfDelimiting
  obtain ⟨memory, same⟩ := names short.memoryTypes short'.memoryTypes (List.append_cancel_left same)
  obtain ⟨entity, same⟩ := names short.entityTypes short'.entityTypes same
  obtain ⟨kind, same⟩ :=
    section_selfDelimiting KindSummary.bytes_selfDelimiting short.kinds short'.kinds same
  obtain ⟨triples, same⟩ := section_selfDelimiting TripleSummary.bytes_selfDelimiting
    short.typeTriples short'.typeTriples same
  obtain ⟨rules, same⟩ := names short.ruleIds short'.ruleIds same
  obtain ⟨action, same⟩ := section_selfDelimiting ActionVerbSummary.bytes_selfDelimiting
    short.actions short'.actions same
  have function := (section_selfDelimiting FunctionVerbSummary.bytes_selfDelimiting).injective
    short.functions short'.functions same
  exact OntologySummary.ext memory entity kind triples rules action function

/-- Two summaries have the same fingerprint by construction when the same bytes are digested. -/
theorem compatibilityFingerprint_eq_iff {summary other : OntologySummary} :
    (∀ sha256, summary.compatibilityFingerprint sha256 = other.compatibilityFingerprint sha256) ↔
      summary.preimage = other.preimage := by
  have apart : (id : Bytes 32 → Bytes 32) (.fill 32 0) ≠ id (.fill 32 1) := by decide
  exact ⟨eq_of_digests apart, fun same sha256 => congrArg sha256 same⟩

/-- Short summaries with the same fingerprint are the same. -/
theorem compatibilityFingerprint_inj {summary other : OntologySummary} (short : summary.Short)
    (short' : other.Short)
    (same : ∀ sha256,
      summary.compatibilityFingerprint sha256 = other.compatibilityFingerprint sha256) :
    summary = other :=
  preimage_inj short short' (compatibilityFingerprint_eq_iff.mp same)

end OntologySummary

end Exocortex
