import Exocortex.Reasoning.Rules
import Exocortex.Storage.Reads

/-!
# The reasoning engine

A pass starts from some memories. It gathers the edges around them hop by hop, the memories that
these reach and others that share an attribute with them, evaluates the rules over what it
gathered, and writes the pairs that are new as edges.

The hash sets of a pass have their own orders. How many of too many affinity pairs are kept comes
out of a product of floats; the engine has it as a function of the two counts.
-/

namespace Exocortex

open Library

/-! ## Reads around a neighborhood -/

namespace InMemoryStorage

/-- Current edges that are open and have an end in the frontier, at most so many. -/
def relationshipsTouching (order : HashOrder) (s : InMemoryStorage) (frontier : List MemoryId)
    (limit : ℕ) : List Relationship :=
  let ids := s.rels.keys.filter fun id => frontier.any fun node => id ∈ s.relsByNode.members node
  (((order.shuffle ids).filterMap s.currentRelationship).filter fun row =>
    row.validUntil.isNone && row.invalidatedBy.isNone).take limit

/-- Current memories with one of the tags or entities, at most so many. -/
def memoriesSharingAttributes (order : HashOrder) (s : InMemoryStorage) (tags : List String)
    (entities : List EntityId) (limit : ℕ) : List Memory :=
  (((order.shuffle s.memories.keys).filterMap s.currentMemory).filter fun memory =>
    memory.tags.any (· ∈ tags) || memory.context.entities.any (· ∈ entities)).take limit

end InMemoryStorage

/-- Identities in their order, each once. -/
def sortIds (ids : List MemoryId) : List MemoryId := ids.dedup.insertionSort (·.raw.le ·.raw)

@[simp] theorem mem_sortIds {ids : List MemoryId} {id : MemoryId} :
    id ∈ sortIds ids ↔ id ∈ ids := by
  rw [sortIds, List.mem_insertionSort, List.mem_dedup]

def maxReasoningNodes : ℕ := 512

def maxReasoningEdges : ℕ := 4096

def maxDerivedRelationships : ℕ := 10000

def maxPostingList : ℕ := 256

/-- The orders of the hash sets of a pass: of the edges of each hop, of the stored memories, and
of the pairs of each rule. -/
structure PassOrders where
  hop : ℕ → HashOrder
  memories : HashOrder
  pairs : RuleId → HashOrder

/-! ## The neighborhood -/

/-- The memories that were reached, the edges that were read, and the memories that are new. -/
structure Neighborhood where
  nodes : List MemoryId
  rows : List Relationship
  next : List MemoryId

namespace Neighborhood

/-- One end of an edge joins a neighborhood that has room. -/
def reach (around : Neighborhood) (other : MemoryId) : Neighborhood :=
  if around.nodes.length < maxReasoningNodes ∧ other ∉ around.nodes then
    { around with nodes := around.nodes ++ [other], next := around.next ++ [other] }
  else around

/-- An edge that was not seen before. -/
def visit (around : Neighborhood) (row : Relationship) : Neighborhood :=
  if around.rows.any (·.id = row.id) then around
  else
    let reached := (around.reach row.source).reach row.target
    { reached with rows := reached.rows ++ [row] }

/-- So many hops from a frontier. -/
def gather (orders : PassOrders) (s : InMemoryStorage) :
    ℕ → ℕ → List MemoryId → Neighborhood → Neighborhood
  | 0, _, _, around => around
  | hops + 1, hop, frontier, around =>
      if frontier.isEmpty then around
      else
        let read := s.relationshipsTouching (orders.hop hop) frontier maxReasoningEdges
        let around := read.foldl visit { around with next := [] }
        if around.next.isEmpty || decide (maxReasoningEdges ≤ around.rows.length) then around
        else gather orders s hops (hop + 1) (sortIds around.next) around

/-- The edges with both ends in the neighborhood. -/
def edgeFacts (around : Neighborhood) : List Rules.Edge :=
  (around.rows.filter fun row => row.source ∈ around.nodes ∧ row.target ∈ around.nodes).map
    fun row => ⟨row.source, row.target, row.kind⟩

end Neighborhood

/-- Facts of attributes that are not too frequent. -/
def postings {α : Type} [DecidableEq α] (raw : List (MemoryId × α)) : List (MemoryId × α) :=
  raw.filter fun fact => raw.countP (·.2 = fact.2) ≤ maxPostingList

/-- The memories of a neighborhood, and after them others with an attribute of theirs. -/
def memoryRows (orders : PassOrders) (s : InMemoryStorage) (around : Neighborhood) : List Memory :=
  let rows := s.getMemories (sortIds around.nodes)
  let tags := rows.flatMap (·.tags)
  let entities := rows.flatMap (·.context.entities)
  if tags.isEmpty && entities.isEmpty then rows
  else
    let expansion := s.memoriesSharingAttributes orders.memories tags entities 4096
    rows ++ expansion.filter fun memory => !rows.any (·.id = memory.id)

/-! ## The engine -/

/-- The narrowest of some labels. -/
def narrowestVisibility : List Visibility → Option Visibility
  | [] => none
  | first :: rest => some (rest.foldl relationshipVisibility first)

structure ReasoningEngine where
  env : Env
  ontology : EffectiveOntology
  kinds : Rules.PackKinds
  relatedTo : RelKindId
  primed : Rules.prime ontology = some kinds
  related : ontology.kindId "RelatedTo" = some relatedTo
  kHop : ℕ
  keep : ℕ → ℕ → ℕ

namespace ReasoningEngine

variable (engine : ReasoningEngine) (orders : PassOrders) (s : InMemoryStorage)

/-- The kind of the edges of a rule. -/
def derivedKind : RuleId → RelKindId
  | .r4 => engine.kinds.dependsOn
  | .r5 => engine.kinds.requires
  | .d1 => Rules.SOLVES
  | .d2 => engine.kinds.buildsOn
  | .d3 => engine.kinds.blocks
  | .d4 => engine.kinds.contradicts
  | .r7 | .r8 | .r9 | .d5 | .d6 => engine.relatedTo

/-- A fifth of the shared attributes, at most one. -/
def derivedConfidence (rule : RuleId) (shared : ℕ) : F32 :=
  match rule with
  | .r7 | .r9 =>
      match shared with
      | 0 => .zero
      | 1 => ⟨0x3e4ccccd#32⟩
      | 2 => ⟨0x3ecccccd#32⟩
      | 3 => ⟨0x3f19999a#32⟩
      | 4 => ⟨0x3f4ccccd#32⟩
      | _ => .one
  | .r8 | .d1 => ⟨0x3f4ccccd#32⟩
  | _ => ⟨0x3f000000#32⟩

def ruleStrength : RuleId → F32
  | .r4 | .r5 | .d2 | .d3 | .d4 => ⟨0x3f000000#32⟩
  | .r7 | .r8 | .r9 => ⟨0x3e99999a#32⟩
  | .d1 => ⟨0x3f4ccccd#32⟩
  | .d5 => ⟨0x3ecccccd#32⟩
  | .d6 => ⟨0x3f19999a#32⟩

section WriteBack

variable (now : DateTime) (memories : List Memory) (rows : List Relationship)

/-- The two edges of given kinds that lead from a memory to another, if there are any. -/
def support (first second : RelKindId) (source target : MemoryId) : List RelationshipId :=
  let hops := (rows.filter (·.source = source)).findSome? fun left =>
    if left.kind ≠ first then none
    else ((rows.filter (·.source = left.target)).find? fun right =>
      right.target = target ∧ right.kind = second).map fun right => [left.id, right.id]
  hops.getD []

/-- The edge of a derived pair, where both memories were read. -/
def push (rule : RuleId) (shared : ℕ) (evidence : List RelationshipId)
    (pair : MemoryId × MemoryId) : Option Relationship := do
  let source ← lastWith Memory.id pair.1 memories
  let target ← lastWith Memory.id pair.2 memories
  let visibility ← narrowestVisibility (source.visibility :: target.visibility ::
    evidence.filterMap fun id => (lastWith Relationship.id id rows).map (·.visibility))
  let kind := engine.derivedKind rule
  return {
    id := RelationshipId.derive engine.env.blake3 pair.1 kind pair.2 (some rule.text)
    kind := kind
    source := pair.1
    target := pair.2
    visibility := visibility
    provenance := .derived rule.text evidence
    properties := ⟨ruleStrength rule, derivedConfidence rule shared, none, 1, none, 0, 0, now⟩
    description := none
    bidirectional := false
    validFrom := now
    validUntil := none
    recordedAt := now
    invalidatedBy := none
    lsn := LSN.newLocal 0 }

/-- The edges of pairs that two edges lead across. -/
def hopRows (rule : RuleId) (first second : RelKindId) (pairs : List (MemoryId × MemoryId)) :
    List Relationship :=
  pairs.filterMap fun pair =>
    engine.push now memories rows rule 0 (support rows first second pair.1 pair.2) pair

/-- The edges of pairs without evidence. -/
def bridgeRows (rule : RuleId) (pairs : List (MemoryId × MemoryId)) : List Relationship :=
  pairs.filterMap (engine.push now memories rows rule 0 [])

/-- The edges of pairs that share attributes. -/
def affinityRows (rule : RuleId) (pairs : List (MemoryId × MemoryId)) : List Relationship :=
  (Rules.pairCounts pairs).filterMap fun counted =>
    engine.push now memories rows rule counted.2 [] counted.1

/-- The pairs of memories of a session. -/
def cohortPairs (cohort : List (MemoryId × MemoryId)) : List (MemoryId × MemoryId) :=
  (sortIds (cohort.map (·.2))).flatMap fun session =>
    (orderedPairs (sortIds ((cohort.filter (·.2 = session)).map (·.1)))).filter
      fun pair => pair.1 ≠ pair.2

/-- The edges of everything that was derived. -/
def derivedRows (derived : Rules.Derived) : List Relationship :=
  let kinds := engine.kinds
  let hops := engine.hopRows now memories rows
  let bridges := engine.bridgeRows now memories rows
  let affinities := engine.affinityRows now memories rows
  hops .r4 kinds.dependsOn kinds.dependsOn derived.transitiveDependsOn ++
    hops .r5 kinds.requires kinds.requires derived.transitiveRequires ++
    affinities .r7 derived.coOccurrenceAffinity ++
    bridges .r8 derived.problemSolutionBridge ++
    affinities .r9 derived.similarTagsAffinity ++
    bridges .d1 derived.impliedSolves ++
    hops .d2 kinds.buildsOn kinds.buildsOn derived.transitiveBuildsOn ++
    hops .d3 kinds.blocks kinds.requires derived.indirectBlocker ++
    hops .d4 kinds.contradicts kinds.confirms derived.contradictionPropagates ++
    bridges .d5 derived.sharedTarget ++
    bridges .d6 (cohortPairs derived.sessionCohort)

/-- The first row of each identity, up to the cap. -/
def cappedRows (derived : Rules.Derived) : List Relationship :=
  (dedupByKey Relationship.id ((engine.derivedRows now memories rows derived).insertionSort
    (·.id.raw.le ·.id.raw))).take maxDerivedRelationships

/-- The rows that the store does not have. -/
def freshRows (derived : Rules.Derived) : List Relationship :=
  let candidates := engine.cappedRows now memories rows derived
  let existing := (s.getRelationships (candidates.map (·.id))).map (·.id)
  candidates.filter (·.id ∉ existing)

def writeBack (derived : Rules.Derived) (operationKey : Option String) : Outcome Unit :=
  let fresh := engine.freshRows s now memories rows derived
  match operationKey with
  | some operationKey =>
      (s.upsertBatchOnce engine.env operationKey [] fresh now).map fun _ => ()
  | none =>
      if fresh.isEmpty then ⟨.ok (), [], s⟩
      else (s.upsertBatch engine.env [] fresh now).map fun _ => ()

end WriteBack

/-! ## Passes -/

def neighborhood (seeds : List MemoryId) (k : ℕ) : Neighborhood :=
  let seeds := sortIds seeds
  .gather orders s (max 1 (min k (max engine.kHop 1))) 0 seeds ⟨seeds, [], []⟩

/-- The derived facts of a neighborhood, with the affinity pairs cut to the cap. -/
def derive (around : Neighborhood) : Rules.Derived :=
  let memories := memoryRows orders s around
  let derived := Rules.evaluate engine.kinds orders.pairs around.edgeFacts
    (postings (memories.flatMap fun memory => memory.context.entities.map (memory.id, ·)))
    (postings (memories.flatMap fun memory =>
      memory.tags.map fun tag => (memory.id, Rules.fxhashTag tag)))
    (memories.map fun memory => (memory.id, memory.memoryType))
  let before := derived.coOccurrenceAffinity.length + derived.similarTagsAffinity.length
  if maxDerivedRelationships < before then
    { derived with
      coOccurrenceAffinity := derived.coOccurrenceAffinity.take
        (engine.keep derived.coOccurrenceAffinity.length before)
      similarTagsAffinity := derived.similarTagsAffinity.take
        (engine.keep derived.similarTagsAffinity.length before) }
  else derived

/-- The edges that a pass writes back. -/
def passRows (seeds : List MemoryId) (k : ℕ) (now : DateTime) : List Relationship :=
  let around := engine.neighborhood orders s seeds k
  engine.freshRows s now (memoryRows orders s around) around.rows (engine.derive orders s around)

def tryKHopReason (seeds : List MemoryId) (k : ℕ) (operationKey : Option String)
    (now : DateTime) : Outcome Unit :=
  if maxReasoningNodes < (sortIds seeds).length then
    .fail s (.backend ("reasoning seed cohort exceeds " ++ toString maxReasoningNodes ++
      " memories"))
  else
    let around := engine.neighborhood orders s seeds k
    engine.writeBack s now (memoryRows orders s around) around.rows
      (engine.derive orders s around) operationKey

end ReasoningEngine

end Exocortex
