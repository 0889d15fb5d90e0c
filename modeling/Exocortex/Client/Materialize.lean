import Exocortex.Client.Wal
import Exocortex.Ingest.SessionGroups

/-!
# The client's own mirror

A client without a server serves the rows of its log. An entry becomes the memories of its
drafts, the edges of their hints, and for a session the same grouping node and edges that a
server would commit (`materializeEntry`); a log becomes the rows of its entries, one after the
other (`materializeAll`), where a later row takes the place of an earlier one.

The group of a session is therefore read off the mirror as it is read off a store, and an entry
joins it in the same way (`materializeEntry_joins`).
-/

namespace Exocortex

open Library

/-! ## Entries -/

/-- What the client serves of an entry. -/
structure Materialized where
  memories : List Memory
  edges : List Relationship
  droppedEdges : List String

/-- What the client's materializer takes from its surroundings. -/
structure Materializer where
  ontology : EffectiveOntology
  blake3 : List UInt8 → Bytes 32
  outside : TextAndTime
  org : String

/-- The rule of the one grouping that the client knows. -/
def sessionRule : GroupingRule := ⟨"session", parseSessionUri, "Conversation", "InSession"⟩

section Entries

variable (client : Materializer)

/-- The memory of a draft, with its identity, under its place in the entry. -/
def servedMemory (entry : WalEntry) (index : ℕ) (draft : MemoryDraft) (id : MemoryId) : Memory where
  id := id
  memoryType := draft.memoryType
  title := draft.title
  content := draft.content
  summary := none
  tags := normalizeTags client.outside (entry.tags[index]?.getD [])
  visibility := draft.visibility
  provenance := .asserted "session-wrapup" (some .codingAgent)
  context := draft.context.toMemoryContext
  importance := .half
  confidence := .base
  effectiveness := none
  usageCount := 0
  validFrom := draft.context.timestamp
  validUntil := none
  recordedAt := draft.context.timestamp
  invalidatedBy := none
  embedding := none
  lsn := LSN.newLocal entry.localLsn
  rights := none

/-- The memories of the drafts of an entry. -/
def servedMemories (entry : WalEntry) : List Memory :=
  (entry.memories.zip entry.memoryIds).mapIdx fun index draft =>
    servedMemory client entry index draft.1 draft.2

/-- The edge of a hint. -/
def relationshipFromHint (source : Memory) (toLabel : Visibility) (hint : EdgeHint)
    (localLsn : ℕ) : Relationship where
  id := RelationshipId.derive client.blake3 source.id hint.kind hint.target none
  kind := hint.kind
  source := source.id
  target := hint.target
  visibility := relationshipVisibility source.visibility toLabel
  provenance := .asserted "session-wrapup" (some .codingAgent)
  properties := ⟨hint.strength.getD (((client.ontology.kindMeta hint.kind).map
      (·.defaultStrength)).getD ⟨0x3f000000#32⟩),
    hint.confidence.getD ⟨0x3f4ccccd#32⟩, none, 1, none, 0, 0, source.recordedAt⟩
  description := none
  bidirectional := false
  validFrom := source.recordedAt
  validUntil := none
  recordedAt := source.recordedAt
  invalidatedBy := none
  lsn := LSN.newLocal localLsn

/-- A hint of a served memory: its edge, or why there is none. The entry knows its own memories
best. -/
def materializeHint (entry : WalEntry) (own : List Memory)
    (resolveTarget : MemoryId → Option (UInt8 × Visibility)) (source : Memory) (hint : EdgeHint) :
    Except String Relationship :=
  let known := (lastWith Memory.id hint.target own).map fun memory =>
    (memory.memoryType, memory.visibility)
  match known.or (resolveTarget hint.target) with
  | none => .error ("entry " ++ toString entry.localLsn ++ ": edge " ++ source.id.toHex ++ "→" ++
      hint.target.toHex ++ " dropped: no local row for target")
  | some (toType, toLabel) =>
      match validateTriple client.ontology source.memoryType hint.kind toType with
      | .error error => .error ("entry " ++ toString entry.localLsn ++ ": edge " ++
          source.id.toHex ++ " kind " ++ hint.target.toHex ++ " rejected: " ++ error.text)
      | .ok _ => .ok (relationshipFromHint client source toLabel hint entry.localLsn)

/-- The client's copies of the server's two builders. -/
def groupingNodeLocal (key : String) (now : DateTime) : Option Memory :=
  groupingNode client.ontology client.blake3 client.org sessionRule key now

def groupingEdgeLocal (member node : Memory) (now : DateTime) : Option Relationship :=
  groupingEdge client.ontology client.blake3 sessionRule member node now

/-- The group of an entry: its node, the edges to it, and what is missing. -/
def groupEntry (entry : WalEntry) (own : List Memory) : Materialized :=
  match entry.memories.head? with
  | none => ⟨[], [], []⟩
  | some first =>
      if entry.sessionId.isEmpty then ⟨[], [], []⟩
      else
        match groupingNodeLocal client entry.sessionId first.context.timestamp with
        | none => ⟨[], [], ["entry " ++ toString entry.localLsn ++
            ": type `Conversation` missing from ontology; no grouping"]⟩
        | some node =>
            let node := withScope own node
            let edges := own.map (groupingEdgeLocal client · node first.context.timestamp)
            ⟨[node], edges.filterMap id, (edges.filter (·.isNone)).map fun _ =>
              "entry " ++ toString entry.localLsn ++ ": kind `InSession` missing from ontology"⟩

def materializeEntry (entry : WalEntry)
    (resolveTarget : MemoryId → Option (UInt8 × Visibility)) : Materialized :=
  if entry.memories.length ≠ entry.memoryIds.length then
    ⟨[], [], ["entry " ++ toString entry.localLsn ++ ": memories/memory_ids length mismatch (" ++
      toString entry.memories.length ++ " vs " ++ toString entry.memoryIds.length ++ ")"]⟩
  else
    let own := servedMemories client entry
    let hints := (entry.memories.zip own).flatMap fun draft =>
      draft.1.edgeHints.map (materializeHint client entry own resolveTarget draft.2)
    let group := groupEntry client entry own
    { memories := own ++ group.memories
      edges := hints.filterMap Except.toOption ++ group.edges
      droppedEdges := hints.filterMap (fun hint =>
        match hint with
        | .error text => some text
        | .ok _ => none) ++ group.droppedEdges }

/-! ## Logs -/

/-- The rows so far, and the type and the label of each of their memories. -/
structure Mirror where
  rows : Materialized
  known : Table MemoryId (UInt8 × Visibility)

def Mirror.empty : Mirror := ⟨⟨[], [], []⟩, ∅⟩

def Mirror.add (mirror : Mirror) (entry : WalEntry) : Mirror :=
  let rows := materializeEntry client entry mirror.known.lookup
  { rows := ⟨mirror.rows.memories ++ rows.memories, mirror.rows.edges ++ rows.edges,
      mirror.rows.droppedEdges ++ rows.droppedEdges⟩
    known := rows.memories.foldl (fun known memory =>
      known.insert memory.id (memory.memoryType, memory.visibility)) mirror.known }

def materializeAll (entries : List WalEntry) : Materialized :=
  (entries.foldl (Mirror.add client) .empty).rows

end Entries

/-! ## The group of a session in the mirror -/

/-- The identity of a session's node. -/
abbrev LocalNode (client : Materializer) (key : String) : MemoryId :=
  groupingId client.blake3 client.org sessionRule.flavor key

/-- A group as the mirror has it. -/
def mirrorView (client : Materializer) (key : String) (rows : Materialized) : GroupView where
  node := (client.ontology.memoryTypeId sessionRule.nodeType).bind fun _ =>
    lastWith Memory.id (LocalNode client key) rows.memories
  linked member := ∃ edge ∈ rows.edges, edge.validUntil = none ∧
    client.ontology.kindId sessionRule.edgeKind = some edge.kind ∧
    edge.target = LocalNode client key ∧ lastWith Memory.id edge.source rows.memories = some member

/-- A memory with the label and the scope that an entry gives to its grouping node. -/
def plannedEntry (entry : WalEntry) : Memory :=
  match entry.memories with
  | [] => Memory.blank ⟨.fill 16 0⟩
  | first :: rest => { Memory.blank ⟨.fill 16 0⟩ with
      visibility := ((first :: rest).map (·.visibility)).foldl relationshipVisibility
        first.visibility
      context := first.context.toMemoryContext }

/-- The identities that an entry writes: its drafts and the node. -/
def rewritesEntry (client : Materializer) (key : String) (entry : WalEntry) (id : MemoryId) :
    Prop :=
  id = LocalNode client key ∨ id ∈ entry.memoryIds

section Served

variable (client : Materializer) {entry : WalEntry}
  (paired : entry.memories.length = entry.memoryIds.length)
include paired

theorem servedMemories_labels :
    (servedMemories client entry).map (·.visibility) = entry.memories.map (·.visibility) := by
  have labels : (servedMemories client entry).map (·.visibility) =
      (entry.memories.zip entry.memoryIds).map fun draft => draft.1.visibility := by
    apply map_mapIdx
    exact fun _ _ => rfl
  rw [labels]
  conv_rhs => rw [← List.map_fst_zip paired.le, List.map_map]
  rfl

theorem servedMemories_ids : (servedMemories client entry).map (·.id) = entry.memoryIds := by
  have ids : (servedMemories client entry).map (·.id) =
      (entry.memories.zip entry.memoryIds).map Prod.snd := by
    apply map_mapIdx
    exact fun _ _ => rfl
  rw [ids, List.map_snd_zip paired.ge]

theorem mem_memoryIds {id : MemoryId} :
    id ∈ entry.memoryIds ↔ ∃ memory ∈ servedMemories client entry, memory.id = id := by
  rw [← servedMemories_ids client paired, List.mem_map]

/-- The node of an entry has the label and the scope of its drafts. -/
theorem withScope_served (node : Memory) (filled : entry.memories ≠ []) :
    (withScope (servedMemories client entry) node).visibility = (plannedEntry entry).visibility ∧
      (withScope (servedMemories client entry) node).audience = (plannedEntry entry).audience := by
  have labels := servedMemories_labels client paired
  obtain ⟨first, rest, drafts⟩ := List.exists_cons_of_ne_nil filled
  obtain ⟨id, ids, identities⟩ : ∃ id ids, entry.memoryIds = id :: ids := by
    refine List.exists_cons_of_length_pos ?_
    rw [← paired, drafts]
    exact Nat.succ_pos _
  have head : ∃ others, servedMemories client entry =
      servedMemory client entry 0 first id :: others := by
    rw [servedMemories, drafts, identities, List.zip_cons_cons, List.mapIdx_cons]
    exact ⟨_, rfl⟩
  obtain ⟨others, served⟩ := head
  have label : (withScope (servedMemories client entry) node).visibility =
      (plannedEntry entry).visibility := by
    rw [served] at labels ⊢
    rw [plannedEntry, drafts]
    change narrowestLabel _ (_ :: others) = _
    rw [narrowestLabel, ← List.foldl_map, labels, drafts]
    rfl
  refine ⟨label, audience_congr label ?_ ?_ ?_ ?_⟩ <;>
    rw [served, plannedEntry, drafts] <;> rfl

/-- The label of an entry's node is no wider than that of any of its memories. -/
theorem plannedEntry_le : ∀ memory ∈ servedMemories client entry,
    (plannedEntry entry).visibility.rank ≤ memory.visibility.rank := by
  intro memory served
  have labels := servedMemories_labels client paired
  have listed : memory.visibility ∈ entry.memories.map (·.visibility) :=
    labels ▸ List.mem_map_of_mem served
  rw [plannedEntry]
  split
  next empty =>
    rw [empty] at listed
    cases listed
  next first rest drafts =>
    rw [drafts] at listed
    exact (foldl_relationshipVisibility_le _ _).2 _ listed

end Served

section Rows

variable {client : Materializer} {entry : WalEntry}
  {resolveTarget : MemoryId → Option (UInt8 × Visibility)}

variable {edge : Relationship}

variable {own : List Memory}

/-- A hint that is served names a memory of the entry, or one that was resolved, which the rules
let it aim at. -/
theorem materializeHint_ok {source : Memory} {hint : EdgeHint}
    (served : materializeHint client entry own resolveTarget source hint = .ok edge) :
    ∃ toType toLabel, ((lastWith Memory.id hint.target own).map fun memory =>
        (memory.memoryType, memory.visibility)).or (resolveTarget hint.target) =
          some (toType, toLabel) ∧
      validateTriple client.ontology source.memoryType hint.kind toType = .ok () ∧
      edge = relationshipFromHint client source toLabel hint entry.localLsn := by
  rw [materializeHint] at served
  split at served
  · cases served
  · next toType toLabel known =>
      split at served
      · cases served
      · next permitted =>
          cases served
          exact ⟨toType, toLabel, known, permitted, rfl⟩

/-- The edges of a group join the memories of the entry to its node. -/
theorem groupEntry_edge (grouped : edge ∈ (groupEntry client entry own).edges) :
    ∃ member ∈ own, ∃ node ∈ (groupEntry client entry own).memories, ∃ now,
      groupingEdgeLocal client member node now = some edge := by
  rw [groupEntry] at grouped ⊢
  cases first : entry.memories.head? with
  | none =>
      rw [first] at grouped
      cases grouped
  | some draft =>
      rw [first] at grouped
      dsimp only at grouped ⊢
      split at grouped
      · cases grouped
      · next named =>
          rw [if_neg named]
          cases made : groupingNodeLocal client entry.sessionId draft.context.timestamp with
          | none =>
              rw [made] at grouped
              cases grouped
          | some node =>
              rw [made] at grouped
              obtain ⟨found, listed, isEdge⟩ := List.mem_filterMap.mp grouped
              obtain ⟨member, isMember, rfl⟩ := List.mem_map.mp listed
              exact ⟨member, isMember, _, List.mem_singleton.mpr rfl, _, isEdge⟩

/-- The edges of an entry: those of its hints, and those of its group. -/
theorem mem_materializeEntry_edges :
    edge ∈ (materializeEntry client entry resolveTarget).edges ↔
      entry.memories.length = entry.memoryIds.length ∧
        ((∃ draft ∈ entry.memories.zip (servedMemories client entry), ∃ hint ∈ draft.1.edgeHints,
          materializeHint client entry (servedMemories client entry) resolveTarget draft.2 hint =
            .ok edge) ∨
          edge ∈ (groupEntry client entry (servedMemories client entry)).edges) := by
  rw [materializeEntry]
  split
  · next unpaired =>
      constructor
      · intro impossible
        cases impossible
      · exact fun both => absurd both.1 unpaired
  · next paired =>
      have hints : ∀ hint : Except String Relationship,
          hint.toOption = some edge ↔ hint = .ok edge := by
        intro hint
        cases hint <;> simp [Except.toOption]
      simp only [List.mem_append, List.mem_filterMap, List.mem_flatMap, List.mem_map, hints]
      constructor
      · rintro (⟨_, ⟨draft, member, hint, listed, rfl⟩, served⟩ | grouped)
        · exact ⟨not_not.mp paired, .inl ⟨draft, member, hint, listed, served⟩⟩
        · exact ⟨not_not.mp paired, .inr grouped⟩
      · rintro ⟨-, ⟨draft, member, hint, listed, served⟩ | grouped⟩
        · exact .inl ⟨_, ⟨draft, member, hint, listed, rfl⟩, served⟩
        · exact .inr grouped

/-- The edges of an entry start at its own memories. -/
theorem materializeEntry_sources
    (served : edge ∈ (materializeEntry client entry resolveTarget).edges) :
    ∃ memory ∈ servedMemories client entry, memory.id = edge.source := by
  rcases (mem_materializeEntry_edges.mp served).2 with ⟨draft, member, hint, -, ok⟩ | grouped
  · obtain ⟨toType, toLabel, -, -, rfl⟩ := materializeHint_ok ok
    exact ⟨draft.2, (List.of_mem_zip member).2, rfl⟩
  · obtain ⟨member, isMember, node, -, now, made⟩ := groupEntry_edge grouped
    exact ⟨member, isMember, (groupingEdge_narrow made).1.symm⟩

/-- The memories of an entry of a session: those of its drafts and the node. -/
theorem materializeEntry_memories (client : Materializer)
    (resolveTarget : MemoryId → Option (UInt8 × Visibility))
    (paired : entry.memories.length = entry.memoryIds.length)
    (filled : entry.memories ≠ []) (named : entry.sessionId.isEmpty = false)
    (typed : (client.ontology.memoryTypeId sessionRule.nodeType).isSome) :
    ∃ node, node.id = LocalNode client entry.sessionId ∧
      (materializeEntry client entry resolveTarget).memories =
        servedMemories client entry ++ [withScope (servedMemories client entry) node] := by
  obtain ⟨first, rest, drafts⟩ := List.exists_cons_of_ne_nil filled
  obtain ⟨memoryType, isType⟩ := Option.isSome_iff_exists.mp typed
  have made : ∃ node, groupingNodeLocal client entry.sessionId first.context.timestamp = some node ∧
      node.id = LocalNode client entry.sessionId := by
    rw [groupingNodeLocal, groupingNode, isType]
    exact ⟨_, rfl, rfl⟩
  obtain ⟨node, isNode, identity⟩ := made
  refine ⟨node, identity, ?_⟩
  rw [materializeEntry, if_neg (not_not.mpr paired)]
  simp only [groupEntry, drafts, List.head?_cons, named, isNode, Bool.false_eq_true, if_false]

end Rows

section Sessions

variable {client : Materializer} {key : String} {mirror : Mirror} {entry : WalEntry}

/-- **An entry of a session joins its group.** -/
theorem materializeEntry_joins (mirror : Mirror)
    (paired : entry.memories.length = entry.memoryIds.length)
    (filled : entry.memories ≠ []) (inSession : entry.sessionId = key) (named : key ≠ "")
    (typed : (client.ontology.memoryTypeId sessionRule.nodeType).isSome) :
    GroupView.Joins (plannedEntry entry) (rewritesEntry client key entry)
      (mirrorView client key mirror.rows)
      (mirrorView client key (mirror.add client entry).rows) := by
  have sessionNamed : entry.sessionId.isEmpty = false := by
    rw [inSession]
    simpa using named
  obtain ⟨node, identity, memories⟩ := materializeEntry_memories client mirror.known.lookup paired
    filled sessionNamed typed
  rw [inSession] at identity
  obtain ⟨label, audience⟩ := withScope_served client paired node filled
  -- What the mirror serves after the entry: the node, a draft, or what it served before.
  have served : ∀ id, lastWith Memory.id id (mirror.add client entry).rows.memories =
      if node.id = id then some (withScope (servedMemories client entry) node)
      else (lastWith Memory.id id (servedMemories client entry)).or
        (lastWith Memory.id id mirror.rows.memories) := by
    intro id
    change lastWith Memory.id id (mirror.rows.memories ++ _) = _
    rw [memories, lastWith_append, lastWith_concat, withScope_id]
    split
    · rfl
    · rfl
  have current : (mirrorView client key (mirror.add client entry).rows).node =
      some (withScope (servedMemories client entry) node) := by
    obtain ⟨memoryType, isType⟩ := Option.isSome_iff_exists.mp typed
    rw [mirrorView, isType]
    exact (served _).trans (if_pos identity)
  refine ⟨?_, ?_, ?_⟩
  · rw [current]
    rintro _ ⟨⟩
    exact label
  · exact fun _ _ => ⟨_, current, audience⟩
  · rintro member ⟨edge, listed, isOpen, kind, target, isMember⟩
    rw [served] at isMember
    by_cases isNode : node.id = edge.source
    · rw [if_pos isNode] at isMember
      cases isMember
      rw [label]
      exact .inl le_rfl
    · rw [if_neg isNode] at isMember
      cases own : lastWith Memory.id edge.source (servedMemories client entry) with
      | some memory =>
          rw [own, Option.some_or] at isMember
          cases isMember
          exact .inl (plannedEntry_le client paired _ (lastWith_some own).1)
      | none =>
          rw [own, Option.none_or] at isMember
          have absent := lastWith_eq_none.mp own
          rcases List.mem_append.mp listed with before | new
          · refine .inr ⟨member, ⟨edge, before, isOpen, kind, target, isMember⟩, ?_, rfl⟩
            rw [(lastWith_some isMember).2]
            rintro (isLocal | written)
            · exact isNode (identity.trans isLocal.symm)
            · obtain ⟨memory, sent, same⟩ := (mem_memoryIds client paired).mp written
              exact absent memory sent same
          · obtain ⟨memory, sent, same⟩ := materializeEntry_sources new
            exact absurd same (absent memory sent)

/-- The entries of a session. -/
def mirrorMachine (client : Materializer) (key : String) : Machine Mirror WalEntry where
  allowed _ entry := entry.sessionId = key ∧ key ≠ ""
  step mirror entry := mirror.add client entry

/-- The group admits the node of the entry, if the entry makes one. -/
def KeepsMirror (client : Materializer) (key : String) (mirror : Mirror) (entry : WalEntry) :
    Prop :=
  entry.memories ≠ [] → entry.memories.length = entry.memoryIds.length →
    GroupView.Admits (plannedEntry entry) (rewritesEntry client key entry)
      (mirrorView client key mirror.rows)

/-- The entries of a session, each of which keeps its group. -/
def keepingMirror (client : Materializer) (key : String) : Machine Mirror WalEntry :=
  (mirrorMachine client key).restrict (KeepsMirror client key)

/-- An entry without drafts, or with a wrong number of identities, is not served. -/
theorem add_idle (idle : ¬ (entry.memories ≠ [] ∧
    entry.memories.length = entry.memoryIds.length)) :
    mirrorView client key (mirror.add client entry).rows = mirrorView client key mirror.rows := by
  have nothing : (materializeEntry client entry mirror.known.lookup).memories = [] ∧
      (materializeEntry client entry mirror.known.lookup).edges = [] := by
    by_cases paired : entry.memories.length = entry.memoryIds.length
    · have empty : entry.memories = [] := by
        by_contra filled
        exact idle ⟨filled, paired⟩
      rw [materializeEntry, if_neg (not_not.mpr paired)]
      simp [groupEntry, servedMemories, empty]
    · rw [materializeEntry, if_pos paired]
      exact ⟨rfl, rfl⟩
  simp only [mirrorView, Mirror.add, nothing, List.append_nil]

theorem add_group (narrow : (mirrorView client key mirror.rows).Narrow)
    (inSession : entry.sessionId = key) (named : key ≠ "")
    (keeps : KeepsMirror client key mirror entry) :
    (mirrorView client key (mirror.add client entry).rows).Narrow ∧
      (mirrorView client key mirror.rows).Keeps
        (mirrorView client key (mirror.add client entry).rows) := by
  by_cases served : entry.memories ≠ [] ∧ entry.memories.length = entry.memoryIds.length
  · obtain ⟨filled, paired⟩ := served
    cases typed : client.ontology.memoryTypeId sessionRule.nodeType with
    | none =>
        rw [GroupView.Narrow, GroupView.Keeps, mirrorView, mirrorView, typed]
        exact ⟨fun _ impossible => (by cases impossible), fun _ impossible => (by cases impossible)⟩
    | some memoryType =>
        have joins := materializeEntry_joins mirror paired filled inSession named
          (by rw [typed]; rfl)
        have admits := keeps filled paired
        exact ⟨joins.narrow admits, joins.keeps admits⟩
  · rw [add_idle served]
    exact ⟨narrow, .refl _⟩

/-- **Along a log whose entries keep the group of their session, the node is never wider than a
member, and nobody who reads it loses it.** -/
theorem keepingMirror_run {before : List WalEntry}
    (allows : (keepingMirror client key).Allows .empty (before ++ [entry])) :
    (mirrorView client key (materializeAll client (before ++ [entry]))).Narrow ∧
      (mirrorView client key (materializeAll client before)).Keeps
        (mirrorView client key (materializeAll client (before ++ [entry]))) := by
  obtain ⟨front, last⟩ := Machine.allows_append.mp allows
  have start : (mirrorView client key Mirror.empty.rows).Narrow := by
    rintro node current member ⟨edge, listed, -⟩
    cases listed
  have narrow := front.invariant (I := fun mirror : Mirror =>
    (mirrorView client key mirror.rows).Narrow) start fun mirror entry inv allowed =>
      (add_group inv allowed.1.1 allowed.1.2 allowed.2).1
  obtain ⟨⟨⟨inSession, named⟩, keeps⟩, -⟩ := last
  rw [materializeAll, List.foldl_append]
  exact add_group narrow inSession named keeps

end Sessions

/-- **The group of a session stays as it should be, on the server and in the mirror**, along every
run whose batches, or entries, keep it: the node is never wider than a member, and nobody who
reads it loses it. -/
theorem session_groups_stable (server : IngestServer) (rule : GroupingRule) (client : Materializer)
    (org key : String) :
    (∀ (start : IngestState) (before : List SubmitCall) (call : SubmitCall),
      start.Reached server.env → (groupView server.validator rule org key start.store).Narrow →
      (keepingSession server rule org key).Allows start (before ++ [call]) →
      (groupView server.validator rule org key
          ((sessionMachine server rule org key).run start (before ++ [call])).store).Narrow ∧
        (groupView server.validator rule org key
          ((sessionMachine server rule org key).run start before).store).Keeps
          (groupView server.validator rule org key
            ((sessionMachine server rule org key).run start (before ++ [call])).store)) ∧
    ∀ (before : List WalEntry) (entry : WalEntry),
      (keepingMirror client key).Allows .empty (before ++ [entry]) →
      (mirrorView client key (materializeAll client (before ++ [entry]))).Narrow ∧
        (mirrorView client key (materializeAll client before)).Keeps
          (mirrorView client key (materializeAll client (before ++ [entry]))) := by
  refine ⟨?_, fun before entry allows => keepingMirror_run allows⟩
  intro start before call reached narrow allows
  exact sessionMachine_run reached narrow allows

/-! ## A session of two batches -/

/-- The small ontology with a type for the nodes of sessions. -/
def sessionOntology : EffectiveOntology where
  packs := [{ smallPack with memoryTypeNames := ["Problem", "Solution", "Conversation"] }]
  packNames := by decide
  memoryTypes := by decide
  entityTypes := by decide
  kindIds := by decide
  kindNames := by decide
  bound := by decide

/-- A server that groups sessions. -/
def sessionServer : IngestServer :=
  { openServer false with
    validator := { smallValidator false with
      ontology := sessionOntology, blake3 := fun bytes => .fill 32 (bytes.foldl (· + ·) 0) } }

/-- A user of the organization. -/
def acmeUser (name : String) : VisibilityContext := { acmeAgent with userId := name }

/-- A batch of one draft with a label, and the identity minted for it. -/
def labelledCall (user batch : String) (label : ℤ) (minted : ℕ) : SubmitCall :=
  { agentCall [] with
    principal := some (acmeUser user)
    mint := fun _ => freshId minted
    batch := { signedBatch [] with
      batchId := batch, memories := [{ problemDraft "draft" with visibility := label }] } }

def sessionStart : IngestState := { registeredState ["session://1"] with store := .new }

theorem sessionStart_linked (member : Memory) :
    ¬ (groupView sessionServer.validator sessionRule "acme" "1" sessionStart.store).linked
      member := by
  rintro ⟨id, edge, current, -⟩
  cases current

theorem labelledCall_ofSession {state : IngestState}
    (registered : state.sources.peek ("acme", "session://1", "agent") = some (sessionEntry .org))
    (user batch : String) (label : ℤ) (minted : ℕ) :
    OfSession sessionServer sessionRule "acme" "1" state
      (labelledCall user batch label minted) := by
  refine ⟨rfl, fun source found => ?_⟩
  have isEntry : source = sessionEntry .org := Option.some.inj (found.symm.trans registered)
  have named : parseSessionUri (labelledCall user batch label minted).batch.toIngestBatch =
      some "1" := by
    have uri : (labelledCall user batch label minted).batch.toIngestBatch.sourceUri =
        "session://1" := rfl
    rw [parseSessionUri, uri]
    decide +kernel
  rw [isEntry]
  change (parseSessionUri _).bind (fun key => some (sessionRule, key)) = _
  rw [named]
  rfl

/-- A client of the same organization. -/
def sessionClient : Materializer :=
  ⟨sessionOntology, fun bytes => .fill 32 (bytes.foldl (· + ·) 0),
    ⟨fun _ _ => none, fun text => text⟩, "acme"⟩

/-- An entry of one draft with a label. -/
def labelledEntry (lsn : ℕ) (label : Visibility) : WalEntry where
  localLsn := lsn
  sessionId := "1"
  memories := [⟨0, "title", "content", none, label,
    { DraftContext.blank 0 with tenantId := some "acme", userId := some "ada" }, [], none⟩]
  memoryIds := [freshId lsn]
  state := .pending
  batchId := ""
  draftKeys := []
  org := "acme"
  user := "ada"
  tags := []

variable {p : Memory → Prop}

/-- The members of a group are the sources of some listed edges. -/
theorem groupView_members {validator : Validator} {rule : GroupingRule} {org key : String}
    {s : InMemoryStorage}
    (all : ∀ edge ∈ s.streamAllRelationships, ∀ member ∈ s.currentMemory edge.source, p member) :
    ∀ member, (groupView validator rule org key s).linked member → p member := by
  rintro member ⟨id, edge, current, -, -, -, isMember⟩
  exact all edge (InMemoryStorage.mem_streamAllRelationships.mpr ⟨id, current⟩) member isMember

theorem mirrorView_members {client : Materializer} {key : String} {rows : Materialized}
    (all : ∀ edge ∈ rows.edges, ∀ member ∈ lastWith Memory.id edge.source rows.memories, p member) :
    ∀ member, (mirrorView client key rows).linked member → p member := by
  rintro member ⟨edge, listed, -, -, -, isMember⟩
  exact all edge listed member isMember

/-- Two batches of a user, and two entries, of the same label keep the group of their session. -/
theorem session_groups_stable_twice :
    (groupView sessionServer.validator sessionRule "acme" "1"
      ((sessionMachine sessionServer sessionRule "acme" "1").run sessionStart
        [labelledCall "ada" "first" 3 0, labelledCall "ada" "second" 3 1]).store).Narrow ∧
    (mirrorView sessionClient "1" (materializeAll sessionClient
      [labelledEntry 1 .org, labelledEntry 2 .org])).Narrow := by
  have narrow : (groupView sessionServer.validator sessionRule "acme" "1"
      sessionStart.store).Narrow := fun _ _ member linked =>
    absurd linked (sessionStart_linked member)
  have first : KeepsGroup sessionServer.validator sessionRule "acme" "1" sessionStart.store
      (labelledCall "ada" "first" 3 0) := by
    refine ⟨⟨fun member linked => absurd linked (sessionStart_linked member), ?_⟩, ?_, ?_⟩
    · rintro node ⟨⟩
    · decide +kernel
    · intro edge listed
      cases listed
  -- the node is there now, with the member that the first batch has given it
  have second : KeepsGroup sessionServer.validator sessionRule "acme" "1"
      ((sessionMachine sessionServer sessionRule "acme" "1").step sessionStart
        (labelledCall "ada" "first" 3 0)).store (labelledCall "ada" "second" 3 1) := by
    refine ⟨⟨groupView_members fun edge listed member isMember => .inr ?_, ?_⟩, ?_, ?_⟩
    · revert edge member
      decide +kernel
    · decide +kernel
    · decide +kernel
    · intro edge listed
      cases listed
  have allows : (keepingSession sessionServer sessionRule "acme" "1").Allows sessionStart
      ([labelledCall "ada" "first" 3 0] ++ [labelledCall "ada" "second" 3 1]) :=
    ⟨⟨labelledCall_ofSession (by decide +kernel) _ _ _ _, first⟩,
      ⟨labelledCall_ofSession (by decide +kernel) _ _ _ _, second⟩, trivial⟩
  have entries : (keepingMirror sessionClient "1").Allows .empty
      ([labelledEntry 1 .org] ++ [labelledEntry 2 .org]) := by
    refine ⟨⟨⟨rfl, by decide⟩, fun _ _ => ⟨?_, ?_⟩⟩,
      ⟨⟨rfl, by decide⟩, fun _ _ => ⟨?_, ?_⟩⟩, trivial⟩
    · rintro member ⟨edge, listed, -⟩
      cases listed
    · rintro node ⟨⟩
    · refine mirrorView_members fun edge listed member isMember => .inr ?_
      revert edge member
      decide +kernel
    · decide +kernel
  have stable := session_groups_stable sessionServer sessionRule sessionClient "acme" "1"
  exact ⟨(stable.1 sessionStart [labelledCall "ada" "first" 3 0] (labelledCall "ada" "second" 3 1)
    ⟨[], rfl⟩ narrow allows).1, (stable.2 [labelledEntry 1 .org] (labelledEntry 2 .org) entries).1⟩

/-- A later batch widens the node above a member of an earlier one; a later batch of another user
takes the node away from its readers; and the mirror does as the server does. -/
theorem not_session_groups_stable :
    (¬ ∀ (server : IngestServer) (rule : GroupingRule) (org key : String) (start : IngestState)
      (calls : List SubmitCall), start.Reached server.env →
      (groupView server.validator rule org key start.store).Narrow →
      (sessionMachine server rule org key).Allows start calls →
      (groupView server.validator rule org key
        ((sessionMachine server rule org key).run start calls).store).Narrow) ∧
    (¬ ∀ (server : IngestServer) (rule : GroupingRule) (org key : String) (start : IngestState)
      (before : List SubmitCall) (call : SubmitCall), start.Reached server.env →
      (sessionMachine server rule org key).Allows start (before ++ [call]) →
      (groupView server.validator rule org key
        ((sessionMachine server rule org key).run start before).store).Keeps
        (groupView server.validator rule org key
          ((sessionMachine server rule org key).run start (before ++ [call])).store)) ∧
    ¬ ∀ (client : Materializer) (key : String) (entries : List WalEntry),
      (mirrorMachine client key).Allows .empty entries →
      (mirrorView client key (materializeAll client entries)).Narrow := by
  refine ⟨fun always => ?_, fun always => ?_, fun always => ?_⟩
  · have narrow := always sessionServer sessionRule "acme" "1" sessionStart
      [labelledCall "ada" "first" 0 0, labelledCall "ada" "second" 3 1] ⟨[], rfl⟩
      (fun _ _ member linked => absurd linked (sessionStart_linked member))
      ⟨labelledCall_ofSession (by decide +kernel) _ _ _ _,
        labelledCall_ofSession (by decide +kernel) _ _ _ _, trivial⟩
    generalize reached : ((sessionMachine sessionServer sessionRule "acme" "1").run sessionStart
      [labelledCall "ada" "first" 0 0, labelledCall "ada" "second" 3 1]).store = s at narrow
    have wide : ∃ node ∈ (groupView sessionServer.validator sessionRule "acme" "1" s).node,
        ∃ id ∈ s.rels.keys, ∃ edge ∈ s.currentRelationship id, edge.validUntil = none ∧
          sessionOntology.kindId "InSession" = some edge.kind ∧
          edge.target = SessionNode sessionServer.validator sessionRule "acme" "1" ∧
          ∃ member ∈ s.currentMemory edge.source,
            member.visibility.rank < node.visibility.rank := by
      rw [← reached]
      decide +kernel
    obtain ⟨node, isNode, id, -, edge, current, isOpen, kind, target, member, isMember, below⟩ :=
      wide
    exact absurd (narrow node isNode member ⟨id, edge, current, isOpen, kind, target, isMember⟩)
      (Nat.not_le.mpr below)
  · have keeps := always sessionServer sessionRule "acme" "1" sessionStart
      [labelledCall "ada" "first" 3 0] (labelledCall "bob" "second" 0 1) ⟨[], rfl⟩
      ⟨labelledCall_ofSession (by decide +kernel) _ _ _ _,
        labelledCall_ofSession (by decide +kernel) _ _ _ _, trivial⟩
    have before : ∃ node ∈ (groupView sessionServer.validator sessionRule "acme" "1"
        ((sessionMachine sessionServer sessionRule "acme" "1").run sessionStart
          [labelledCall "ada" "first" 3 0]).store).node,
        memoryVisible node (acmeUser "ada") := by decide +kernel
    have after : ∀ node ∈ (groupView sessionServer.validator sessionRule "acme" "1"
        ((sessionMachine sessionServer sessionRule "acme" "1").run sessionStart
          [labelledCall "ada" "first" 3 0, labelledCall "bob" "second" 0 1]).store).node,
        ¬ memoryVisible node (acmeUser "ada") := by decide +kernel
    obtain ⟨node, current, visible⟩ := before
    obtain ⟨later, isLater, readers⟩ := keeps node current
    exact after later isLater (readers visible)
  · have narrow := always sessionClient "1" [labelledEntry 1 .private, labelledEntry 2 .org]
      ⟨⟨rfl, by decide⟩, ⟨rfl, by decide⟩, trivial⟩
    generalize served : materializeAll sessionClient [labelledEntry 1 .private,
      labelledEntry 2 .org] = rows at narrow
    have wide : ∃ node ∈ (mirrorView sessionClient "1" rows).node,
        ∃ edge ∈ rows.edges, edge.validUntil = none ∧
          sessionOntology.kindId "InSession" = some edge.kind ∧
          edge.target = LocalNode sessionClient "1" ∧
          ∃ member ∈ lastWith Memory.id edge.source rows.memories,
            member.visibility.rank < node.visibility.rank := by
      rw [← served]
      decide +kernel
    obtain ⟨node, isNode, edge, listed, isOpen, kind, target, member, isMember, below⟩ := wide
    exact absurd (narrow node isNode member ⟨edge, listed, isOpen, kind, target, isMember⟩)
      (Nat.not_le.mpr below)

end Exocortex
