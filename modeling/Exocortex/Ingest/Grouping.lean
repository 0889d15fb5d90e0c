import Exocortex.Ingest.Validation

/-!
# The rows that a batch commits

Beside the memories and edges that its producer sent, a batch commits rows of the server's own:
the confidence of superseded memories is lowered, a session gets a grouping node with an edge
from each of its memories, and an edge whose kind has an inverse gets its companion.

The edges of the server's own are as narrow as those of the producer: each is no wider than
the two rows it was made from (`materializeCommitRows_narrow`). The grouping node has the
narrowest label of the batch, and the scope of its first memory.
-/

namespace Exocortex

open Library InMemoryStorage

/-! ## Grouping -/

/-- How the batches of a flavor are grouped. -/
structure GroupingRule where
  flavor : String
  keyOf : IngestBatch → Option String
  nodeType : String
  edgeKind : String

/-- The identity in the address of a session. -/
def parseSessionUri (batch : IngestBatch) : Option String :=
  if "session://".toList.isPrefixOf batch.sourceUri.toList then
    let id := String.ofList (batch.sourceUri.toList.drop 10)
    if id.isEmpty then none else some id
  else none

def groupingRules : List GroupingRule :=
  [⟨"session", parseSessionUri, "Conversation", "InSession"⟩]

/-- The rule of the registered flavor, and the key it finds in the batch. -/
def groupingKey (batch : IngestBatch) (sourceFlavor : String) (rules : List GroupingRule) :
    Option (GroupingRule × String) := do
  let rule ← rules.find? (·.flavor = sourceFlavor)
  let key ← rule.keyOf batch
  return (rule, key)

/-- The identity of a grouping node. -/
def groupingId (blake3 : List UInt8 → Bytes 32) (org flavor key : String) : MemoryId :=
  ⟨(blake3 ("exocortex-grouping-v1".toUTF8.toList ++ framed org.toUTF8.toList ++
    framed flavor.toUTF8.toList ++ framed key.toUTF8.toList)).take 16
      Bytes.id_fits⟩

/-- The node of a group, before it has a scope. -/
def groupingNode (ontology : EffectiveOntology) (blake3 : List UInt8 → Bytes 32) (org : String)
    (rule : GroupingRule) (key : String) (now : DateTime) : Option Memory :=
  (ontology.memoryTypeId rule.nodeType).map fun memoryType => {
    id := groupingId blake3 org rule.flavor key
    memoryType := memoryType
    title := "Session " ++ String.ofList (key.toList.take 8)
    content := "Backend grouping node (" ++ rule.flavor ++ ") for " ++ key
    summary := none
    tags := []
    visibility := .project
    provenance := .derived ("grouping:" ++ rule.flavor) []
    context := ⟨now, none, none, none, some key, none, []⟩
    importance := .half
    confidence := .base
    effectiveness := none
    usageCount := 0
    validFrom := now
    validUntil := none
    recordedAt := now
    invalidatedBy := none
    embedding := none
    lsn := LSN.newLocal 0
    rights := none }

/-- The edge from a member to its node. -/
def groupingEdge (ontology : EffectiveOntology) (blake3 : List UInt8 → Bytes 32)
    (rule : GroupingRule) (member node : Memory) (now : DateTime) : Option Relationship :=
  (ontology.kindId rule.edgeKind).map fun kind => {
    id := RelationshipId.derive blake3 member.id kind node.id none
    kind := kind
    source := member.id
    target := node.id
    visibility := relationshipVisibility member.visibility node.visibility
    provenance := .derived ("grouping:" ++ rule.flavor) []
    properties := ⟨((ontology.kindMeta kind).map (·.defaultStrength)).getD ⟨0x3f4ccccd#32⟩,
      ⟨0x3f4ccccd#32⟩, none, 1, none, 0, 0, now⟩
    description := none
    bidirectional := false
    validFrom := now
    validUntil := none
    recordedAt := now
    invalidatedBy := none
    lsn := LSN.newLocal 0 }

/-- The narrowest label of some memories. -/
def narrowestLabel (first : Memory) (members : List Memory) : Visibility :=
  members.foldl (fun label member => relationshipVisibility label member.visibility)
    first.visibility

/-- The node of a group with the narrowest label of its members and the scope of the first. -/
def withScope (members : List Memory) (node : Memory) : Memory :=
  match members with
  | [] => node
  | scope :: _ =>
      { node with
        visibility := narrowestLabel scope members
        context := { node.context with
          tenantId := scope.context.tenantId
          userId := scope.context.userId
          projectId := scope.context.projectId
          teamId := scope.context.teamId } }

@[simp] theorem withScope_id (members : List Memory) (node : Memory) :
    (withScope members node).id = node.id := by
  cases members <;> rfl

/-- The node of a batch's group and the edges to it. -/
def materializeGrouping (validator : Validator) (rules : List GroupingRule) (batch : IngestBatch)
    (sourceFlavor : String) (members : List Memory) (now : DateTime) :
    List Memory × List Relationship :=
  match groupingKey batch sourceFlavor rules with
  | none => ([], [])
  | some (rule, key) =>
      match groupingNode validator.ontology validator.blake3 batch.orgId rule key now with
      | none => ([], [])
      | some node =>
          let node := withScope members node
          ([node], members.filterMap
            (groupingEdge validator.ontology validator.blake3 rule · node now))

/-! ## Superseded memories -/

/-- The kinds of an effective ontology as inverses are looked up. -/
def EffectiveOntology.relations (ontology : EffectiveOntology) : Ontology :=
  ⟨.collect RelMeta.id (ontology.kinds.map (·.toRelMeta))⟩

/-- The kinds that supersede their target. -/
def supersedes (ontology : EffectiveOntology) (relationship : Relationship) : Bool :=
  (ontology.kindMeta relationship.kind).any fun kind =>
    kind.displayName = "Replaces" || kind.displayName = "Contradicts"

def supersessionTargets (ontology : EffectiveOntology) (relationships : List Relationship) :
    List MemoryId :=
  ((relationships.filter (supersedes ontology)).map (·.target)).dedup

/-- The confidence of a memory is above that of a superseded one. -/
def aboveFloor (memory : Memory) : Bool := F01.floor.score.lt memory.confidence.score

def floored (memory : Memory) : Memory :=
  if aboveFloor memory then { memory with confidence := .floor } else memory

/-- A superseded memory that the batch does not write itself. -/
def staleRow (validated : ValidatedBatch) (target : MemoryId) : Option Memory :=
  if validated.memories.any (·.id = target) then none
  else ((validated.loaded.lookup target).filter aboveFloor).map floored

/-! ## The commit -/

/-- The companions of edges, for those whose identity is not in use. -/
def materializeInverses (validator : Validator) (relationships : List Relationship) :
    List Relationship :=
  relationships.foldl (fun out relationship =>
    match materializeInverse validator.ontology.relations validator.blake3 relationship with
    | none => out
    | some inverse => if out.any (·.id = inverse.id) then out else out ++ [inverse]) relationships

/-- The memories of the producer, the superseded ones among them with their confidence lowered. -/
def producerRows (ontology : EffectiveOntology) (validated : ValidatedBatch) : List Memory :=
  let targets := supersessionTargets ontology validated.relationships
  validated.memories.map fun memory =>
    if targets.contains memory.id then floored memory else memory

/-- The superseded memories that are stored already, with their confidence lowered. -/
def staleRows (ontology : EffectiveOntology) (validated : ValidatedBatch) : List Memory :=
  (supersessionTargets ontology validated.relationships).filterMap (staleRow validated)

def materializeCommitRows (validator : Validator) (rules : List GroupingRule) (batch : IngestBatch)
    (sourceFlavor : String) (validated : ValidatedBatch) (now : DateTime) : CommitRows :=
  let producerMemories := producerRows validator.ontology validated
  let grouping := materializeGrouping validator rules batch sourceFlavor producerMemories now
  { memories := producerMemories ++ staleRows validator.ontology validated ++ grouping.1
    relationships := materializeInverses validator (validated.relationships ++ grouping.2)
    producerMemories := producerMemories
    accepted := validated.memories.length + validated.relationships.length }

/-! ## What holds of edges with their ends -/

variable {edge : Relationship} {blake3 : List UInt8 → Bytes 32}
  {P : Memory → Relationship → Memory → Prop} {rows : List Memory} {validator : Validator}
  {relationships : List Relationship} {ontology : EffectiveOntology} {now : DateTime}
  {rules : List GroupingRule} {batch : IngestBatch} {flavor : String} {validated : ValidatedBatch}

/-- A companion joins the same rows, the other way round. -/
theorem materializeInverse_ends {ontology : Ontology} {inverse : Relationship}
    (made : materializeInverse ontology blake3 edge = some inverse) :
    inverse.source = edge.target ∧ inverse.target = edge.source ∧
      inverse.visibility = edge.visibility := by
  rw [materializeInverse] at made
  split at made
  · cases made
  · split at made
    · cases made
    · split at made
      · cases made
      · cases made
        exact ⟨rfl, rfl, rfl⟩

/-- The edge joins two of the rows, of which a property holds with the edge. -/
def JoinsIn (P : Memory → Relationship → Memory → Prop) (rows : List Memory)
    (edge : Relationship) : Prop :=
  ∃ source ∈ rows, ∃ target ∈ rows, source.id = edge.source ∧ target.id = edge.target ∧
    P source edge target

/-- Where the property looks at labels and types only, any rows with these do. -/
theorem JoinsIn.mono {more : List Memory} (joins : JoinsIn P rows edge)
    (congr : ∀ source source' target target', SameKind source source' → SameKind target target' →
      P source edge target → P source' edge target')
    (same : ∀ row ∈ rows, ∃ other ∈ more, other.id = row.id ∧ SameKind row other) :
    JoinsIn P more edge := by
  obtain ⟨source, isSource, target, isTarget, sourceId, targetId, holds⟩ := joins
  obtain ⟨source', isSource', sameSource, sources⟩ := same source isSource
  obtain ⟨target', isTarget', sameTarget, targets⟩ := same target isTarget
  exact ⟨source', isSource', target', isTarget', sameSource.trans sourceId,
    sameTarget.trans targetId, congr _ _ _ _ sources targets holds⟩

/-! ## Labels -/

/-- The edge joins two of the rows and is no wider than either. -/
def NarrowIn (rows : List Memory) (edge : Relationship) : Prop :=
  ∃ source ∈ rows, ∃ target ∈ rows, source.id = edge.source ∧ target.id = edge.target ∧
    edge.visibility.rank ≤ source.visibility.rank ∧ edge.visibility.rank ≤ target.visibility.rank

/-- An edge that is no wider than its ends. -/
def NoWider (source : Memory) (edge : Relationship) (target : Memory) : Prop :=
  edge.visibility.rank ≤ source.visibility.rank ∧ edge.visibility.rank ≤ target.visibility.rank

theorem narrowIn_iff : NarrowIn rows edge ↔ JoinsIn NoWider rows edge := Iff.rfl

theorem NoWider.inverse {ontology : Ontology} {source target : Memory} {inverse : Relationship}
    (narrow : NoWider source edge target)
    (made : materializeInverse ontology blake3 edge = some inverse) :
    NoWider target inverse source := by
  rw [NoWider, (materializeInverse_ends made).2.2]
  exact ⟨narrow.2, narrow.1⟩

theorem NarrowIn.mono {more : List Memory} (narrow : NarrowIn rows edge)
    (same : ∀ row ∈ rows, ∃ other ∈ more, other.id = row.id ∧ other.visibility = row.visibility) :
    NarrowIn more edge := by
  obtain ⟨source, isSource, target, isTarget, sourceId, targetId, below, above⟩ := narrow
  obtain ⟨source', isSource', sameSource, sourceLabel⟩ := same source isSource
  obtain ⟨target', isTarget', sameTarget, targetLabel⟩ := same target isTarget
  exact ⟨source', isSource', target', isTarget', sameSource.trans sourceId,
    sameTarget.trans targetId, by rwa [sourceLabel], by rwa [targetLabel]⟩

/-- A companion joins the rows of its edge, where the property turns with it. -/
theorem materializeInverse_joins {ontology : Ontology} {inverse : Relationship}
    (turns : ∀ source target, P source edge target → P target inverse source)
    (made : materializeInverse ontology blake3 edge = some inverse) (joins : JoinsIn P rows edge) :
    JoinsIn P rows inverse := by
  obtain ⟨source, isSource, target, isTarget, sourceId, targetId, holds⟩ := joins
  obtain ⟨isTargetId, isSourceId, -⟩ := materializeInverse_ends made
  exact ⟨target, isTarget, source, isSource, targetId.trans isTargetId.symm,
    sourceId.trans isSourceId.symm, turns source target holds⟩

/-- A companion is as narrow as the edge it comes from. -/
theorem materializeInverse_narrow {ontology : Ontology} {inverse : Relationship}
    (made : materializeInverse ontology blake3 edge = some inverse) (narrow : NarrowIn rows edge) :
    NarrowIn rows inverse := by
  rw [narrowIn_iff] at narrow ⊢
  exact materializeInverse_joins (fun source target holds => holds.inverse made) made narrow

/-- What holds of edges and of the companions of such edges holds of all that are materialized. -/
theorem materializeInverses_rule {P : Relationship → Prop} (own : ∀ edge ∈ relationships, P edge)
    (inverses : ∀ edge inverse, P edge → materializeInverse validator.ontology.relations
      validator.blake3 edge = some inverse → P inverse) :
    ∀ edge ∈ materializeInverses validator relationships, P edge := by
  refine List.foldlRecOn (motive := fun out : List Relationship => ∀ edge ∈ out, P edge)
    relationships _ own ?_
  intro out sofar edge member
  split
  · exact sofar
  next inverse made =>
    split
    · exact sofar
    · intro other listed
      rcases List.mem_append.mp listed with old | new
      · exact sofar other old
      · rw [List.mem_singleton.mp new]
        exact inverses edge inverse (own edge member) made

/-- The edges themselves are kept. -/
theorem mem_materializeInverses (member : edge ∈ relationships) :
    edge ∈ materializeInverses validator relationships := by
  refine List.foldlRecOn (motive := fun out : List Relationship => edge ∈ out) relationships _
    member ?_
  intro out inside other _
  split
  · exact inside
  · split
    · exact inside
    · exact List.mem_append_left _ inside

/-- A batch gets no group, or the node of its key with an edge from each member. -/
theorem materializeGrouping_cases (validator : Validator) (rules : List GroupingRule)
    (batch : IngestBatch) (flavor : String) (members : List Memory) (now : DateTime) :
    materializeGrouping validator rules batch flavor members now = ([], []) ∨
      ∃ rule key node, groupingKey batch flavor rules = some (rule, key) ∧
        groupingNode validator.ontology validator.blake3 batch.orgId rule key now = some node ∧
        materializeGrouping validator rules batch flavor members now =
          ([withScope members node], members.filterMap (groupingEdge validator.ontology
            validator.blake3 rule · (withScope members node) now)) := by
  rw [materializeGrouping]
  split
  · exact .inl rfl
  next rule key found =>
    split
    · exact .inl rfl
    next node made => exact .inr ⟨rule, key, node, found, made, rfl⟩

theorem groupingEdge_narrow {rule : GroupingRule} {member node : Memory}
    (made : groupingEdge ontology blake3 rule member node now = some edge) :
    edge.source = member.id ∧ edge.target = node.id ∧
      edge.visibility.rank ≤ member.visibility.rank ∧
      edge.visibility.rank ≤ node.visibility.rank := by
  obtain ⟨kind, -, rfl⟩ := Option.map_eq_some_iff.mp made
  refine ⟨rfl, rfl, ?_, ?_⟩
  · exact (relationshipVisibility_rank _ _).trans_le (min_le_left _ _)
  · exact (relationshipVisibility_rank _ _).trans_le (min_le_right _ _)

/-- An edge to a grouping node is no wider than its two ends. -/
theorem materializeGrouping_narrow {members : List Memory} {nodes : List Memory}
    {edges : List Relationship}
    (grouped : materializeGrouping validator rules batch flavor members now = (nodes, edges)) :
    ∀ edge ∈ edges, NarrowIn (members ++ nodes) edge := by
  intro edge listed
  rcases materializeGrouping_cases validator rules batch flavor members now with
    none | ⟨rule, key, node, -, -, made⟩
  · rw [none] at grouped
    cases grouped
    cases listed
  · rw [made] at grouped
    cases grouped
    obtain ⟨member, isMember, isEdge⟩ := List.mem_filterMap.mp listed
    obtain ⟨source, target, below, above⟩ := groupingEdge_narrow isEdge
    exact ⟨member, List.mem_append_left _ isMember, _, List.mem_append_right _
      (List.mem_singleton.mpr rfl), source.symm, target.symm, below, above⟩

theorem floored_same (memory : Memory) :
    (floored memory).id = memory.id ∧ (floored memory).visibility = memory.visibility ∧
      (floored memory).context = memory.context := by
  rw [floored]
  split <;> exact ⟨rfl, rfl, rfl⟩

theorem floored_sameKind (memory : Memory) : SameKind memory (floored memory) := by
  rw [floored]
  split <;> exact ⟨rfl, rfl⟩

/-- A memory of the producer is written with its own identity, label and type. -/
theorem producerRows_same (ontology : EffectiveOntology) {memory : Memory}
    (sent : memory ∈ validated.memories) :
    ∃ row ∈ producerRows ontology validated, row.id = memory.id ∧ SameKind memory row := by
  refine ⟨_, List.mem_map_of_mem sent, ?_⟩
  split
  · exact ⟨(floored_same memory).1, floored_sameKind memory⟩
  · exact ⟨rfl, rfl, rfl⟩

theorem mem_producerRows {row : Memory} (written : row ∈ producerRows ontology validated) :
    ∃ memory ∈ validated.memories, memory.id = row.id := by
  obtain ⟨memory, sent, rfl⟩ := List.mem_map.mp written
  refine ⟨memory, sent, ?_⟩
  split
  · exact (floored_same memory).1.symm
  · rfl

/-- The rows that a batch knows: those it writes and the stored targets. -/
def ValidatedBatch.known (validated : ValidatedBatch) (rows : List Memory) : List Memory :=
  rows ++ validated.loaded.values

/-- What holds of the edges of a producer and of those of a group, with the rows that they join,
holds of all edges that a batch commits. -/
theorem materializeCommitRows_joins
    (congr : ∀ edge source source' target target', SameKind source source' →
      SameKind target target' → P source edge target → P source' edge target')
    (turns : ∀ edge inverse, materializeInverse validator.ontology.relations validator.blake3 edge =
      some inverse → ∀ source target, P source edge target → P target inverse source)
    (own : ∀ edge ∈ validated.relationships, JoinsIn P (validated.known validated.memories) edge)
    (grouped : ∀ edge ∈ (materializeGrouping validator rules batch flavor
      (producerRows validator.ontology validated) now).2,
        JoinsIn P (producerRows validator.ontology validated ++ (materializeGrouping validator rules
          batch flavor (producerRows validator.ontology validated) now).1) edge) :
    ∀ edge ∈ (materializeCommitRows validator rules batch flavor validated now).relationships,
      JoinsIn P (validated.known
        (materializeCommitRows validator rules batch flavor validated now).memories) edge := by
  refine materializeInverses_rule (fun edge listed => ?_)
    fun edge inverse joins made => materializeInverse_joins (turns edge inverse made) made joins
  rcases List.mem_append.mp listed with sent | group
  · refine (own edge sent).mono (congr edge) fun row member => ?_
    rcases List.mem_append.mp member with fresh | stored
    · obtain ⟨other, written, same⟩ := producerRows_same validator.ontology fresh
      exact ⟨other, List.mem_append_left _ (List.mem_append_left _
        (List.mem_append_left _ written)), same⟩
    · exact ⟨row, List.mem_append_right _ stored, rfl, rfl, rfl⟩
  · refine (grouped edge group).mono (congr edge) fun row member => ?_
    refine ⟨row, List.mem_append_left _ ?_, rfl, rfl, rfl⟩
    rcases List.mem_append.mp member with fresh | node
    · exact List.mem_append_left _ (List.mem_append_left _ fresh)
    · exact List.mem_append_right _ node

/-- **The edges that a batch commits are no wider than the rows they join**, when those of its
producer are. -/
theorem materializeCommitRows_narrow (narrow : ∀ edge ∈ validated.relationships,
      NarrowIn (validated.known validated.memories) edge) :
    ∀ edge ∈ (materializeCommitRows validator rules batch flavor validated now).relationships,
      NarrowIn (validated.known
        (materializeCommitRows validator rules batch flavor validated now).memories) edge := by
  simp only [narrowIn_iff] at narrow ⊢
  refine materializeCommitRows_joins ?_ (fun edge inverse made source target holds =>
    holds.inverse made) narrow (materializeGrouping_narrow rfl)
  rintro edge source source' target target' ⟨sources, -⟩ ⟨targets, -⟩ ⟨below, above⟩
  exact ⟨sources ▸ below, targets ▸ above⟩

end Exocortex
