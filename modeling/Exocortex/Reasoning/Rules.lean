import Exocortex.Kernel.Rulebook
import Exocortex.Library.Enumerations

/-!
# The rule program

The rules derive pairs of memories from the edges, the entities and the tags of a neighborhood.
Four of them chain two edges of given kinds, and a fifth crosses from contradictions to
confirmations; three join two edges of a kind that end at the same memory; one follows a single
edge from a fix; and two join memories that share an entity or a tag. A tag counts by its hash.

No rule reads what another derives, so one evaluation is the whole fixpoint. Its sets are listed
in any order.
-/

namespace Exocortex

open Library

/-- The rules whose pairs are written back. -/
inductive RuleId where
  | r4
  | r5
  | r7
  | r8
  | r9
  | d1
  | d2
  | d3
  | d4
  | d5
  | d6
deriving DecidableEq

def RuleId.text : RuleId → String
  | .r4 => "R4"
  | .r5 => "R5"
  | .r7 => "R7"
  | .r8 => "R8"
  | .r9 => "R9"
  | .d1 => "D1"
  | .d2 => "D2"
  | .d3 => "D3"
  | .d4 => "D4"
  | .d5 => "D5"
  | .d6 => "D6"

theorem RuleId.text_inj {rule other : RuleId} (same : rule.text = other.text) : rule = other := by
  cases rule <;> cases other <;> first | rfl | exact absurd same (by decide)

namespace Rules

/-! ## Constants -/

def SOLVES : RelKindId := ⟨0⟩

def FIXES : RelKindId := ⟨1⟩

def IN_SESSION : RelKindId := ⟨3⟩

def FIX_TYPE : UInt8 := 7

/-- The kinds of the pack that the rules filter on. -/
structure PackKinds where
  dependsOn : RelKindId
  requires : RelKindId
  buildsOn : RelKindId
  blocks : RelKindId
  contradicts : RelKindId
  confirms : RelKindId
  modifies : RelKindId
deriving DecidableEq

/-- The kinds by their names; there is no engine without them. -/
def prime (ontology : EffectiveOntology) : Option PackKinds := do
  return {
    dependsOn := ← ontology.kindId "DependsOn"
    requires := ← ontology.kindId "Requires"
    buildsOn := ← ontology.kindId "BuildsOn"
    blocks := ← ontology.kindId "Blocks"
    contradicts := ← ontology.kindId "Contradicts"
    confirms := ← ontology.kindId "Confirms"
    modifies := ← ontology.kindId "Modifies" }

/-! ## Facts -/

/-- A directed edge of a kind. -/
structure Edge where
  source : MemoryId
  target : MemoryId
  kind : RelKindId
deriving DecidableEq

abbrev EntityFact := MemoryId × EntityId

abbrev TagFact := MemoryId × UInt32

abbrev MemoryFact := MemoryId × UInt8

/-- The hash that stands for a tag. -/
def fxhashTag (tag : String) : UInt32 :=
  tag.toUTF8.toList.foldl (fun hash byte => (hash ^^^ byte.toUInt32) * 0x01000193) 0x811c9dc5

/-! ## Rules -/

/-- Two edges one after the other. -/
def chained (first second : RelKindId) (edges : List Edge) : List (MemoryId × MemoryId) :=
  edges.flatMap fun left => edges.filterMap fun right =>
    if left.target = right.source ∧ left.kind = first ∧ right.kind = second then
      some (left.source, right.target)
    else none

/-- Two edges from different memories to the same one. -/
def joined (kind : RelKindId) (edges : List Edge) : List (MemoryId × MemoryId) :=
  edges.flatMap fun left => edges.filterMap fun right =>
    if left.target = right.target ∧ left.kind = kind ∧ right.kind = kind ∧
        left.source ≠ right.source then
      some (left.source, right.source)
    else none

/-- Two different memories with the same attribute, once for each attribute. -/
def shared {α : Type} [DecidableEq α] (facts : List (MemoryId × α)) :
    List (MemoryId × MemoryId × α) :=
  facts.flatMap fun left => facts.filterMap fun right =>
    if left.2 = right.2 ∧ left.1 ≠ right.1 then some (left.1, right.1, left.2) else none

variable (kinds : PackKinds)

/-- R4. -/
def transitiveDependsOn : List Edge → List (MemoryId × MemoryId) :=
  chained kinds.dependsOn kinds.dependsOn

/-- R5. -/
def transitiveRequires : List Edge → List (MemoryId × MemoryId) :=
  chained kinds.requires kinds.requires

/-- R7. -/
def sharedEntity : List EntityFact → List (MemoryId × MemoryId × EntityId) := shared

/-- R8: solutions of the same problem are bridged. -/
def problemSolutionBridge : List Edge → List (MemoryId × MemoryId) := joined SOLVES

/-- R9. -/
def sharedTag : List TagFact → List (MemoryId × MemoryId × UInt32) := shared

/-- D1: what a fix fixes, it solves. -/
def impliedSolves (edges : List Edge) (memories : List MemoryFact) :
    List (MemoryId × MemoryId) :=
  (edges.filter fun edge => edge.kind = FIXES ∧ (edge.source, FIX_TYPE) ∈ memories).map
    fun edge => (edge.source, edge.target)

/-- D2. -/
def transitiveBuildsOn : List Edge → List (MemoryId × MemoryId) :=
  chained kinds.buildsOn kinds.buildsOn

/-- D3: what blocks a requirement blocks indirectly. -/
def indirectBlocker : List Edge → List (MemoryId × MemoryId) :=
  chained kinds.blocks kinds.requires

/-- D4: what contradicts a confirmation contradicts what it confirms. -/
def contradictionPropagates : List Edge → List (MemoryId × MemoryId) :=
  chained kinds.contradicts kinds.confirms

/-- D5: two memories that modify the same one. -/
def sharedTarget : List Edge → List (MemoryId × MemoryId) := joined kinds.modifies

/-- D6: the sessions of the memories. -/
def sessionCohort (edges : List Edge) : List (MemoryId × MemoryId) :=
  (edges.filter (·.kind = IN_SESSION)).map fun edge => (edge.source, edge.target)

/-- The derived facts, one for each pair and shared attribute. -/
structure Derived where
  transitiveDependsOn : List (MemoryId × MemoryId)
  transitiveRequires : List (MemoryId × MemoryId)
  coOccurrenceAffinity : List (MemoryId × MemoryId)
  problemSolutionBridge : List (MemoryId × MemoryId)
  similarTagsAffinity : List (MemoryId × MemoryId)
  impliedSolves : List (MemoryId × MemoryId)
  transitiveBuildsOn : List (MemoryId × MemoryId)
  indirectBlocker : List (MemoryId × MemoryId)
  contradictionPropagates : List (MemoryId × MemoryId)
  sessionCohort : List (MemoryId × MemoryId)
  sharedTarget : List (MemoryId × MemoryId)

/-- The sets of the fixpoint, each in an order of its own. -/
def evaluate (order : RuleId → HashOrder) (edges : List Edge) (entities : List EntityFact)
    (tags : List TagFact) (memories : List MemoryFact) : Derived where
  transitiveDependsOn := (order .r4).shuffle (transitiveDependsOn kinds edges).dedup
  transitiveRequires := (order .r5).shuffle (transitiveRequires kinds edges).dedup
  coOccurrenceAffinity := ((order .r7).shuffle (sharedEntity entities).dedup).map
    fun fact => (fact.1, fact.2.1)
  problemSolutionBridge := (order .r8).shuffle (problemSolutionBridge edges).dedup
  similarTagsAffinity := ((order .r9).shuffle (sharedTag tags).dedup).map
    fun fact => (fact.1, fact.2.1)
  impliedSolves := (order .d1).shuffle (impliedSolves edges memories).dedup
  transitiveBuildsOn := (order .d2).shuffle (transitiveBuildsOn kinds edges).dedup
  indirectBlocker := (order .d3).shuffle (indirectBlocker kinds edges).dedup
  contradictionPropagates := (order .d4).shuffle (contradictionPropagates kinds edges).dedup
  sessionCohort := (order .d6).shuffle (sessionCohort edges).dedup
  sharedTarget := (order .d5).shuffle (sharedTarget kinds edges).dedup

def pairLe (x y : MemoryId × MemoryId) : Bool :=
  if x.1 = y.1 then x.2.raw.le y.2.raw else x.1.raw.le y.1.raw

/-- The pairs in their order, each with the number of its facts. -/
def pairCounts (pairs : List (MemoryId × MemoryId)) : List ((MemoryId × MemoryId) × ℕ) :=
  countRuns (pairs.insertionSort (pairLe · ·))

variable {kinds} {edges : List Edge}

variable {pair : MemoryId × MemoryId}

theorem mem_chained {first second : RelKindId} :
    pair ∈ chained first second edges ↔ ∃ left ∈ edges, ∃ right ∈ edges,
      (left.target = right.source ∧ left.kind = first ∧ right.kind = second) ∧
        (left.source, right.target) = pair := by
  simp only [chained, List.mem_flatMap, List.mem_filterMap, Option.ite_none_right_eq_some,
    Option.some.injEq]

theorem mem_joined {kind : RelKindId} :
    pair ∈ joined kind edges ↔ ∃ left ∈ edges, ∃ right ∈ edges,
      (left.target = right.target ∧ left.kind = kind ∧ right.kind = kind ∧
        left.source ≠ right.source) ∧ (left.source, right.source) = pair := by
  simp only [joined, List.mem_flatMap, List.mem_filterMap, Option.ite_none_right_eq_some,
    Option.some.injEq]

theorem mem_shared {α : Type} [DecidableEq α] {facts : List (MemoryId × α)}
    {fact : MemoryId × MemoryId × α} :
    fact ∈ shared facts ↔ (fact.1, fact.2.2) ∈ facts ∧ (fact.2.1, fact.2.2) ∈ facts ∧
      fact.1 ≠ fact.2.1 := by
  simp only [shared, List.mem_flatMap, List.mem_filterMap, Option.ite_none_right_eq_some,
    Option.some.injEq]
  constructor
  · rintro ⟨⟨a, x⟩, left, ⟨b, y⟩, right, ⟨same, apart⟩, rfl⟩
    cases same
    exact ⟨left, right, apart⟩
  · rintro ⟨left, right, apart⟩
    exact ⟨_, left, _, right, ⟨rfl, apart⟩, rfl⟩

theorem mem_of_mem_pairCounts {pairs : List (MemoryId × MemoryId)}
    {counted : (MemoryId × MemoryId) × ℕ} (member : counted ∈ pairCounts pairs) :
    counted.1 ∈ pairs :=
  (List.mem_insertionSort _).mp (mem_of_mem_countRuns member)

end Rules

end Exocortex
