import Exocortex.Kernel.Summaries

/-!
# What two ontologies have to agree on

The summary of an ontology lists everything that stored data depends on. A backup carries
the summary of the ontology it was written under, and is admitted where that is a part of
the ontology at hand: the type names are positional, so a part is a prefix; kinds, rules and
verbs compare by value; and a type triple may have become wider. A refusal carries the first
difference between the two, `firstDivergence`.
-/

namespace Exocortex

open Library

/-! ## Parts -/

/-- The derived equality of two rows of kinds, which compares strengths as numbers. -/
def KindSummary.same (left right : KindSummary) : Bool :=
  left.id = right.id && left.name = right.name && left.bucket = right.bucket &&
    left.bucketExtension = right.bucketExtension && left.inverse = right.inverse &&
    left.bidirectional = right.bidirectional && left.defaultStrength.eq right.defaultStrength &&
    left.computedOnly = right.computedOnly

/-- A set as it is iterated: each element once, in order. -/
def btreeSet {α : Type} [DecidableEq α] (le : α → α → Bool) (xs : List α) : List α :=
  xs.dedup.insertionSort (le · ·)

theorem mem_btreeSet {α : Type} [DecidableEq α] {le : α → α → Bool} {xs : List α} {x : α} :
    x ∈ btreeSet le xs ↔ x ∈ xs :=
  (List.perm_insertionSort _ _).mem_iff.trans List.mem_dedup

/-- An open side covers every side; a side that lists types covers the lists within it. -/
def covers : Option (List UInt8) → Option (List UInt8) → Bool
  | _, none => true
  | none, some _ => false
  | some part, some whole => part.all whole.contains

namespace OntologySummary

/-- A rule of the same kind whose sides are at least as wide. -/
def tripleCovered (pinned : TripleSummary) (superset : OntologySummary) : Bool :=
  superset.typeTriples.any fun row =>
    row.kind = pinned.kind && covers pinned.fromTypes row.fromTypes &&
      covers pinned.toTypes row.toTypes

/-- The kind under a number; of several rows, the last one. -/
def kindRow (summary : OntologySummary) (id : UInt32) : Option KindSummary :=
  lastWith (·.id) id summary.kinds

def isSubsetOf (summary superset : OntologySummary) : Bool :=
  if superset.memoryTypes.length < summary.memoryTypes.length ∨
      superset.entityTypes.length < summary.entityTypes.length then false
  else if summary.memoryTypes ≠ superset.memoryTypes.take summary.memoryTypes.length then false
  else if summary.entityTypes ≠ superset.entityTypes.take summary.entityTypes.length then false
  else
    (summary.kinds.all fun row => (superset.kindRow row.id).any (·.same row)) &&
      (summary.typeTriples.all fun rule =>
        superset.typeTriples.contains rule || tripleCovered rule superset) &&
      summary.ruleIds.all superset.ruleIds.contains &&
      summary.actions.all superset.actions.contains &&
      summary.functions.all superset.functions.contains

end OntologySummary

/-! ## Differences -/

/-- A difference between a summary and another one. -/
inductive Divergence where
  | memoryTypeDiffers (place : ℕ) (here there : String)
  | memoryTypeMissing (name : String) (place : ℕ)
  | entityTypeDiffers (place : ℕ) (here there : String)
  | entityTypeMissing (name : String) (place : ℕ)
  | kindDiffers (id : UInt32)
  | kindMissing (name : String) (id : UInt32)
  | tripleNotCovered (kind : UInt32)
  | ruleMissing (rule : String)
  | actionDiffers (pack name : String)
  | functionDiffers (pack name : String)
deriving DecidableEq

/-- The first name that does not stand at its place in the other list. -/
def firstName (differs : ℕ → String → String → Divergence) (missing : String → ℕ → Divergence)
    (names others : List String) : Option Divergence :=
  names.zipIdx.findSome? fun named =>
    match others[named.2]? with
    | some other => if other = named.1 then none else some (differs named.2 named.1 other)
    | none => some (missing named.1 named.2)

namespace OntologySummary

/-- The difference that a kind makes. -/
def kindDivergence (superset : OntologySummary) (row : KindSummary) : Option Divergence :=
  match superset.kindRow row.id with
  | some other => if other.same row then none else some (.kindDiffers row.id)
  | none => some (.kindMissing row.name row.id)

def firstDivergence (summary superset : OntologySummary) : Option Divergence :=
  (firstName .memoryTypeDiffers .memoryTypeMissing summary.memoryTypes superset.memoryTypes).or <|
  (firstName .entityTypeDiffers .entityTypeMissing summary.entityTypes superset.entityTypes).or <|
  (summary.kinds.findSome? superset.kindDivergence).or <|
  ((summary.typeTriples.find? fun rule =>
    !superset.typeTriples.contains rule && !tripleCovered rule superset).map
      fun rule => .tripleNotCovered rule.kind).or <|
  (((btreeSet (fun left right => left ≤ right) summary.ruleIds).find?
    (!superset.ruleIds.contains ·)).map .ruleMissing).or <|
  (((btreeSet ActionVerbSummary.le summary.actions).find?
    (!superset.actions.contains ·)).map fun verb => .actionDiffers verb.pack verb.name).or <|
  ((btreeSet FunctionVerbSummary.le summary.functions).find?
    (!superset.functions.contains ·)).map fun verb => .functionDiffers verb.pack verb.name

end OntologySummary

/-! ## Admission of backups -/

/-- What a backup says about the ontology it was written under. -/
inductive BackupOntology where
  | summarized (summary : OntologySummary)
  | legacy (fingerprintHex : String)

/-- Why a record is not admitted. -/
inductive CompatibilityError where
  | legacyPinMismatch (pinned runtime : Bytes 32)
  | notASuperset (divergence : Option Divergence)
  | corruptRecord (detail : String)
deriving DecidableEq

/-- A backup without a summary is admitted by the fingerprint of the build alone. -/
def admitBackup (backup : BackupOntology) (ours : EffectiveOntology)
    (buildFingerprint : Bytes 32) : Except CompatibilityError Unit :=
  match backup with
  | .summarized summary =>
      if summary.isSubsetOf ours.summary then .ok ()
      else .error (.notASuperset (ours.summary.firstDivergence summary))
  | .legacy fingerprintHex =>
      if fingerprintHex = buildFingerprint.digestHex then .ok ()
      else .error (.legacyPinMismatch (.fill 32 0) buildFingerprint)

end Exocortex
