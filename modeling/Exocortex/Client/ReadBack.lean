import Exocortex.Cache.GraphSlot
import Exocortex.Cache.View
import Exocortex.Client.Materialize

/-!
# Reading back one's own writes

A client without a server serves its log. At boot it materializes the whole log at once; while it
runs it materializes every entry when it is appended, and publishes the rows into the graph that
it serves already. A hint that aims outside its entry is resolved by the rows of the log in the one
case, and in the other by the graph, as far as the session may see it.

The memories are the same in both cases. The relationships are as long as every entry aims at
memories that the session sees (`calmSession_serves`): an edge to a row that is hidden from its own
author, such as a row of a team, is served after a restart only.
-/

namespace Exocortex

open Library

/-! ## Snapshots from rows -/

/-- The visible row of an identity. -/
def GraphSnapshot.getMemory (snap : GraphSnapshot) (id : MemoryId) (vc : VisibilityContext) :
    Option Memory :=
  ((snap.byId.lookup id).bind snap.petgraph.nodeWeight).filter (memoryVisible · vc)

/-- A fresh snapshot of some rows. -/
def seedLocal (memories : List Memory) (relationships : List Relationship) (lastLocalLsn : ℕ) :
    GraphSnapshot :=
  { relationships.foldl GraphSnapshot.insertRelationship
      (memories.foldl GraphSnapshot.insertMemory .empty) with
    lastLocalLsn := lastLocalLsn }

/-- The snapshot has the last row of every identity. -/
structure Serves (snap : GraphSnapshot) (memories : List Memory) (edges : List Relationship) :
    Prop where
  consistent : snap.Consistent
  node : ∀ id, snap.graph.node id = lastWith Memory.id id memories
  edge : ∀ id, (snap.graph.edge id).map (·.weight) = lastWith Relationship.id id edges

/-- Both ends of every edge are among the memories. -/
def Anchored (memories : List Memory) (edges : List Relationship) : Prop :=
  ∀ edge ∈ edges, lastWith Memory.id edge.source memories ≠ none ∧
    lastWith Memory.id edge.target memories ≠ none

variable {edge : Relationship}

section Rows

variable {snap : GraphSnapshot} {memories more : List Memory} {edges others : List Relationship}

theorem serves_empty : Serves .empty [] [] :=
  ⟨GraphSnapshot.consistent_empty, fun _ => rfl, fun _ => rfl⟩

theorem Serves.withLsn (serves : Serves snap memories edges) (lastLocalLsn : ℕ) :
    Serves { snap with lastLocalLsn := lastLocalLsn } memories edges where
  consistent := ⟨serves.consistent.node_of_id, serves.consistent.id_of_node,
    serves.consistent.edge_of_id, serves.consistent.id_of_edge, serves.consistent.ends,
    serves.consistent.listed⟩
  node := serves.node
  edge := serves.edge

theorem Serves.insertMemories (serves : Serves snap memories edges) (more : List Memory) :
    Serves (more.foldl GraphSnapshot.insertMemory snap) (memories ++ more) edges := by
  induction more using List.reverseRecOn with
  | nil => rwa [List.append_nil]
  | append_singleton front last ih =>
      rw [List.foldl_concat, ← List.append_assoc]
      have graph := GraphSnapshot.graph_insertMemory ih.consistent last
      refine ⟨ih.consistent.insertMemory last, fun id => ?_, fun id => ?_⟩
      · rw [graph, lastWith_concat]
        by_cases same : last.id = id
        · subst same
          rw [IdGraph.node_setNode_self, if_pos rfl]
        · rw [IdGraph.node_setNode_of_ne (Ne.symm same), if_neg same, ih.node]
      · rw [graph]
        exact ih.edge id

theorem Serves.insertRelationships (serves : Serves snap memories edges)
    (anchored : Anchored memories others) :
    Serves (others.foldl GraphSnapshot.insertRelationship snap) memories (edges ++ others) := by
  induction others using List.reverseRecOn with
  | nil => rwa [List.append_nil]
  | append_singleton front last ih =>
      rw [Anchored, List.forall_mem_append] at anchored
      obtain ⟨before, here⟩ := anchored
      obtain ⟨source, target⟩ := here last (List.mem_singleton.mpr rfl)
      have served := ih before
      rw [List.foldl_concat, ← List.append_assoc]
      have graph := GraphSnapshot.graph_insertRelationship served.consistent last
      refine ⟨served.consistent.insertRelationship last, fun id => ?_, fun id => ?_⟩
      · rw [graph, IdGraph.node_setEdge]
        exact served.node id
      · rw [graph, lastWith_concat]
        by_cases same : last.id = id
        · subst same
          rw [if_pos rfl, IdGraph.edge_setEdge_self (by rwa [served.node]) (by rwa [served.node])]
          cases (List.foldl GraphSnapshot.insertRelationship snap front).graph.edge last.id <;> rfl
        · rw [if_neg same, IdGraph.edge_setEdge_of_ne (Ne.symm same)]
          exact served.edge id

/-- A fresh snapshot has the rows that it was made of. -/
theorem serves_seedLocal (anchored : Anchored memories edges) (lastLocalLsn : ℕ) :
    Serves (seedLocal memories edges lastLocalLsn) memories edges :=
  ((serves_empty.insertMemories memories).insertRelationships anchored).withLsn lastLocalLsn

/-- A publication puts the rows of an entry after those that are there. -/
theorem Serves.applyLocal (serves : Serves snap memories edges)
    (anchored : Anchored (memories ++ more) others) (localLsn : ℕ) :
    Serves (if SlotSystem.nothingLocal snap more others localLsn then snap
      else SnapshotDelta.applyAll snap (SlotSystem.localDelta more others localLsn))
      (memories ++ more) (edges ++ others) := by
  split
  · next nothing =>
      rw [SlotSystem.nothingLocal, Bool.and_eq_true, Bool.and_eq_true] at nothing
      obtain ⟨⟨noMemories, noEdges⟩, -⟩ := nothing
      rw [List.isEmpty_iff.mp noMemories, List.isEmpty_iff.mp noEdges, List.append_nil,
        List.append_nil]
      exact serves
  · rw [SnapshotDelta.applyAll, SlotSystem.localDelta, List.foldl_append, List.foldl_append,
      List.foldl_map, List.foldl_map]
    exact ((serves.insertMemories more).insertRelationships anchored).withLsn _

theorem Serves.memories_eq {snap' : GraphSnapshot} {edges' : List Relationship}
    (serves : Serves snap memories edges) (serves' : Serves snap' memories edges') :
    snap.memories = snap'.memories := by
  rw [serves.consistent.memories_eq, serves'.consistent.memories_eq]
  simp only [serves.node, serves'.node]

theorem Serves.mem_relationships (serves : Serves snap memories edges) :
    edge ∈ snap.relationships ↔ lastWith Relationship.id edge.id edges = some edge := by
  rw [serves.consistent.relationships_eq]
  constructor
  · rintro ⟨id, link, found, rfl⟩
    have last := serves.edge id
    rw [found, Option.map_some] at last
    rw [(lastWith_some last.symm).2]
    exact last.symm
  · intro last
    rw [← serves.edge] at last
    obtain ⟨link, found, same⟩ := Option.map_eq_some_iff.mp last
    exact ⟨edge.id, link, found, same⟩

theorem Serves.getMemory (serves : Serves snap memories edges) (id : MemoryId)
    (vc : VisibilityContext) :
    snap.getMemory id vc = (lastWith Memory.id id memories).filter (memoryVisible · vc) := by
  rw [GraphSnapshot.getMemory, ← serves.node]
  rfl

end Rows

/-! ## Sessions -/

/-- An entry that was appended, with the project of its batch. -/
structure LiveTurn where
  entry : WalEntry
  project : String

/-- The projects that this process was granted, and the graph that it serves. -/
structure LiveSession where
  granted : List String
  graphs : SlotSystem

/-- The context of the session with the projects that it was granted. -/
def effectiveVc (vc : VisibilityContext) (granted : List String) : VisibilityContext :=
  { vc with
    projectIds := granted.foldl (fun ids id => if ids.contains id then ids else ids ++ [id])
      vc.projectIds }

def grantProject (granted : List String) (project : String) : List String :=
  if project.isEmpty || granted.contains project then granted else granted ++ [project]

/-- The graph that is served. -/
def SlotSystem.served (sys : SlotSystem) : GraphSnapshot := sys.deref sys.slot.current

/-- The type and the label of a memory that the session sees. -/
def liveTarget (snap : GraphSnapshot) (vc : VisibilityContext) (id : MemoryId) :
    Option (UInt8 × Visibility) :=
  (snap.getMemory id vc).map fun memory => (memory.memoryType, memory.visibility)

section Sessions

variable (client : Materializer) (vc : VisibilityContext)

/-- The graph at boot, of the entries that the log has then. -/
def bootSeed (entries : List WalEntry) : GraphSnapshot :=
  let rows := materializeAll client entries
  seedLocal rows.memories rows.edges ((entries.getLast?.map (·.localLsn)).getD 0)

def LiveSession.boot (entries : List WalEntry) : LiveSession :=
  ⟨[], (SlotSystem.new .empty).store (bootSeed client entries)⟩

/-- The part of `end_session_offline` after the entry was appended. -/
def LiveSession.publish (session : LiveSession) (turn : LiveTurn) : LiveSession :=
  let granted := grantProject session.granted turn.project
  let rows := materializeEntry client turn.entry
    (liveTarget session.graphs.served (effectiveVc vc granted))
  ⟨granted, session.graphs.applyLocal rows.memories rows.edges turn.entry.localLsn⟩

def liveMachine : Machine LiveSession LiveTurn where
  allowed _ _ := True
  step session turn := session.publish client vc turn

/-- Every memory outside the entry that it aims at, and that the rules let it aim at, is visible to
the session if it is served. -/
def SeesTargets (session : LiveSession) (turn : LiveTurn) : Prop :=
  turn.entry.memories.length = turn.entry.memoryIds.length →
  ∀ draft ∈ turn.entry.memories, ∀ hint ∈ draft.edgeHints, hint.target ∉ turn.entry.memoryIds →
    ∀ memory, session.graphs.served.graph.node hint.target = some memory →
      validateTriple client.ontology draft.memoryType hint.kind memory.memoryType = .ok () →
        memoryVisible memory (effectiveVc vc (grantProject session.granted turn.project))

/-- A session each of whose entries aims at memories that it sees. -/
def calmSession : Machine LiveSession LiveTurn :=
  (liveMachine client vc).restrict (SeesTargets client vc)

variable {client vc} {session : LiveSession} {turn : LiveTurn} {mirror : Mirror}

/-! ## Entries -/

/-- The rows of an entry that are not edges do not depend on its surroundings. -/
theorem materializeEntry_memories_congr (client : Materializer) (entry : WalEntry)
    (resolve resolve' : MemoryId → Option (UInt8 × Visibility)) :
    (materializeEntry client entry resolve).memories =
      (materializeEntry client entry resolve').memories := by
  rw [materializeEntry, materializeEntry]
  split <;> rfl

variable {resolve : MemoryId → Option (UInt8 × Visibility)} {entry : WalEntry}
  {draft : MemoryDraft × Memory} {edges : List Relationship} {entries : List WalEntry}

/-- The edges of an entry end at its own memories or at those that were resolved. -/
theorem materializeEntry_ends (served : edge ∈ (materializeEntry client entry resolve).edges) :
    (∃ memory ∈ (materializeEntry client entry resolve).memories, memory.id = edge.source) ∧
      ((∃ memory ∈ (materializeEntry client entry resolve).memories, memory.id = edge.target) ∨
        (resolve edge.target).isSome) := by
  obtain ⟨source, own, same⟩ := materializeEntry_sources served
  obtain ⟨paired, kinds⟩ := mem_materializeEntry_edges.mp served
  have memories : (materializeEntry client entry resolve).memories =
      servedMemories client entry ++
        (groupEntry client entry (servedMemories client entry)).memories := by
    rw [materializeEntry, if_neg (not_not.mpr paired)]
  rw [memories]
  refine ⟨⟨source, List.mem_append_left _ own, same⟩, ?_⟩
  rcases kinds with ⟨draft, -, hint, -, ok⟩ | grouped
  · obtain ⟨toType, toLabel, known, -, rfl⟩ := materializeHint_ok ok
    cases inside : lastWith Memory.id hint.target (servedMemories client entry) with
    | some memory =>
        obtain ⟨listed, named⟩ := lastWith_some inside
        exact .inl ⟨memory, List.mem_append_left _ listed, named⟩
    | none =>
        rw [inside, Option.map_none, Option.none_or] at known
        exact .inr (Option.isSome_of_eq_some known)
  · obtain ⟨member, -, node, isNode, now, made⟩ := groupEntry_edge grouped
    exact .inl ⟨node, List.mem_append_right _ isNode, (groupingEdge_narrow made).2.1.symm⟩

/-- The memory of a draft has its type. -/
theorem mem_zip_servedMemories (member : draft ∈ entry.memories.zip (servedMemories client entry)) :
    draft.1 ∈ entry.memories ∧ draft.2.memoryType = draft.1.memoryType := by
  refine ⟨(List.of_mem_zip member).1, ?_⟩
  obtain ⟨index, within, rfl⟩ := List.getElem_of_mem member
  simp [servedMemories, servedMemory]

/-- Surroundings that serve the same hints serve the same edges. -/
theorem materializeEntry_edges_congr {resolve' : MemoryId → Option (UInt8 × Visibility)}
    (same : entry.memories.length = entry.memoryIds.length →
      ∀ draft ∈ entry.memories.zip (servedMemories client entry), ∀ hint ∈ draft.1.edgeHints,
      (materializeHint client entry (servedMemories client entry) resolve draft.2 hint).toOption =
        (materializeHint client entry (servedMemories client entry) resolve' draft.2
          hint).toOption) :
    (materializeEntry client entry resolve).edges =
      (materializeEntry client entry resolve').edges := by
  rw [materializeEntry, materializeEntry]
  split
  · rfl
  · next paired =>
      simp only [List.filterMap_flatMap, List.filterMap_map]
      congr 1
      refine List.flatMap_congr fun draft member => List.filterMap_congr fun hint listed => ?_
      exact same (not_not.mp paired) draft member hint listed

/-! ## The log at boot -/

/-- What is known of the memories of a log, and that its edges are between them. -/
structure Mirror.Sound (mirror : Mirror) : Prop where
  known : ∀ id, mirror.known.lookup id = (lastWith Memory.id id mirror.rows.memories).map
    fun memory => (memory.memoryType, memory.visibility)
  anchored : Anchored mirror.rows.memories mirror.rows.edges

variable {memories : List Memory}

theorem lastWith_append_ne_none {id : MemoryId} (more : List Memory)
    (there : lastWith Memory.id id memories ≠ none) :
    lastWith Memory.id id (memories ++ more) ≠ none := by
  rw [lastWith_append]
  cases lastWith Memory.id id more with
  | none => exact there
  | some memory => exact Option.some_ne_none memory

/-- The edges of an entry are between its memories and those that it was resolved by. -/
theorem anchored_materializeEntry
    (resolved : ∀ id, (resolve id).isSome → lastWith Memory.id id memories ≠ none) :
    Anchored (memories ++ (materializeEntry client entry resolve).memories)
      (materializeEntry client entry resolve).edges := by
  have own : ∀ id, (∃ memory ∈ (materializeEntry client entry resolve).memories, memory.id = id) →
      lastWith Memory.id id (memories ++ (materializeEntry client entry resolve).memories) ≠
        none := by
    rintro id ⟨memory, listed, named⟩ absent
    exact lastWith_eq_none.mp absent memory (List.mem_append_right _ listed) named
  intro edge served
  obtain ⟨source, target⟩ := materializeEntry_ends served
  refine ⟨own _ source, ?_⟩
  rcases target with inside | outside
  · exact own _ inside
  · exact lastWith_append_ne_none _ (resolved _ outside)

theorem Mirror.sound_empty : Mirror.empty.Sound :=
  ⟨fun _ => rfl, fun _ member => absurd member List.not_mem_nil⟩

theorem Mirror.Sound.resolved (sound : mirror.Sound) {id : MemoryId}
    (there : (mirror.known.lookup id).isSome) :
    lastWith Memory.id id mirror.rows.memories ≠ none := by
  intro absent
  rw [sound.known, absent] at there
  cases there

theorem Mirror.Sound.add (sound : mirror.Sound) (entry : WalEntry) :
    (mirror.add client entry).Sound where
  known := by
    have insertAll : ∀ (memories : List Memory) (known : Table MemoryId (UInt8 × Visibility))
        (id : MemoryId), (memories.foldl (fun known memory =>
          known.insert memory.id (memory.memoryType, memory.visibility)) known).lookup id =
        ((lastWith Memory.id id memories).map fun memory =>
          (memory.memoryType, memory.visibility)).or (known.lookup id) := by
      intro memories known id
      induction memories using List.reverseRecOn with
      | nil => rfl
      | append_singleton front last ih =>
          rw [List.foldl_concat, lastWith_concat]
          by_cases same : last.id = id
          · subst same
            rw [AList.lookup_insert, if_pos rfl]
            rfl
          · rw [AList.lookup_insert_ne (Ne.symm same), if_neg same, ih]
    intro id
    have memories : (mirror.add client entry).rows.memories = mirror.rows.memories ++
        (materializeEntry client entry mirror.known.lookup).memories := rfl
    rw [memories, lastWith_append, Option.map_or, ← sound.known]
    exact insertAll _ _ _
  anchored := by
    change Anchored (mirror.rows.memories ++ _) (mirror.rows.edges ++ _)
    intro edge member
    rcases List.mem_append.mp member with old | new
    · obtain ⟨source, target⟩ := sound.anchored edge old
      exact ⟨lastWith_append_ne_none _ source, lastWith_append_ne_none _ target⟩
    · exact anchored_materializeEntry (fun _ there => sound.resolved there) edge new

/-- The log after some entries. -/
def mirrorOf (client : Materializer) (entries : List WalEntry) : Mirror :=
  entries.foldl (Mirror.add client) .empty

theorem mirrorOf_append (entries more : List WalEntry) :
    mirrorOf client (entries ++ more) = more.foldl (Mirror.add client) (mirrorOf client entries) :=
  List.foldl_append

variable (client) in
theorem mirrorOf_sound (entries : List WalEntry) : (mirrorOf client entries).Sound := by
  induction entries using List.reverseRecOn with
  | nil => exact Mirror.sound_empty
  | append_singleton front last ih =>
      rw [mirrorOf_append]
      exact ih.add last

theorem serves_bootSeed (entries : List WalEntry) :
    Serves (bootSeed client entries) (mirrorOf client entries).rows.memories
      (mirrorOf client entries).rows.edges :=
  serves_seedLocal (mirrorOf_sound client entries).anchored _

/-! ## The session -/

/-- The buffers of the graph are in order. -/
def SlotSystem.InOrder (sys : SlotSystem) : Prop :=
  ∃ spec start cut, SlotSystem.Publishes sys spec start cut

theorem SlotSystem.served_applyLocal {sys : SlotSystem} (inOrder : sys.InOrder)
    (memories : List Memory) (edges : List Relationship) (localLsn : ℕ) :
    (sys.applyLocal memories edges localLsn).InOrder ∧
      (sys.applyLocal memories edges localLsn).served =
        if SlotSystem.nothingLocal sys.served memories edges localLsn then sys.served
        else SnapshotDelta.applyAll sys.served (SlotSystem.localDelta memories edges localLsn) := by
  obtain ⟨spec, start, cut, publishes⟩ := inOrder
  obtain ⟨start', cut', after⟩ := publishes.step (.applyLocal memories edges localLsn)
  have before : sys.served = spec.current := by
    rw [SlotSystem.served, SlotSystem.deref, publishes.current, Option.getD_some]
  refine ⟨⟨_, _, _, after⟩, ?_⟩
  have now : (sys.applyLocal memories edges localLsn).served =
      (spec.step (.applyLocal memories edges localLsn)).current := by
    rw [SlotSystem.served, SlotSystem.deref]
    have current := after.current
    rw [SlotSystem.step] at current
    rw [current, Option.getD_some]
  rw [now, before, SlotSpec.step]
  split
  · rfl
  · rw [SlotSpec.current, SlotSpec.publish, image_append]
    rfl

/-- The session serves the memories of a log, and some edges. -/
structure LiveSession.Follows (session : LiveSession) (mirror : Mirror)
    (edges : List Relationship) : Prop where
  inOrder : session.graphs.InOrder
  serves : Serves session.graphs.served mirror.rows.memories edges

variable (client) in
theorem LiveSession.boot_follows (entries : List WalEntry) :
    (LiveSession.boot client entries).Follows (mirrorOf client entries)
      (mirrorOf client entries).rows.edges := by
  have stored := (SlotSystem.publishes_new .empty).store (bootSeed client entries)
  have served : (LiveSession.boot client entries).graphs.served = bootSeed client entries := by
    rw [SlotSystem.served, SlotSystem.deref, LiveSession.boot, stored.current, Option.getD_some]
    rfl
  exact ⟨⟨_, _, _, stored⟩, by rw [served]; exact serves_bootSeed entries⟩

theorem LiveSession.Follows.liveTarget (follows : session.Follows mirror edges)
    (context : VisibilityContext) (id : MemoryId) :
    Exocortex.liveTarget session.graphs.served context id =
      ((lastWith Memory.id id mirror.rows.memories).filter (memoryVisible · context)).map
        fun memory => (memory.memoryType, memory.visibility) := by
  rw [Exocortex.liveTarget, follows.serves.getMemory]

/-- What an entry adds to the graph. -/
def LiveSession.rows (client : Materializer) (vc : VisibilityContext) (session : LiveSession)
    (turn : LiveTurn) : Materialized :=
  materializeEntry client turn.entry (Exocortex.liveTarget session.graphs.served
    (effectiveVc vc (grantProject session.granted turn.project)))

variable (client vc) in
/-- An entry adds its memories, as it does at boot. -/
theorem LiveSession.Follows.publish (follows : session.Follows mirror edges) (turn : LiveTurn) :
    (session.publish client vc turn).Follows (mirror.add client turn.entry)
      (edges ++ (session.rows client vc turn).edges) := by
  have memories : (mirror.add client turn.entry).rows.memories =
      mirror.rows.memories ++ (session.rows client vc turn).memories :=
    congrArg _ (materializeEntry_memories_congr client turn.entry _ _)
  have anchored : Anchored (mirror.rows.memories ++ (session.rows client vc turn).memories)
      (session.rows client vc turn).edges := by
    refine anchored_materializeEntry fun id resolved absent => ?_
    rw [follows.liveTarget, absent] at resolved
    cases resolved
  obtain ⟨inOrder, served⟩ := SlotSystem.served_applyLocal follows.inOrder
    (session.rows client vc turn).memories (session.rows client vc turn).edges turn.entry.localLsn
  refine ⟨inOrder, ?_⟩
  rw [memories]
  have after := follows.serves.applyLocal anchored turn.entry.localLsn
  rw [← served] at after
  exact after

/-- An entry that aims at what the session sees adds the edges that it adds at boot. -/
theorem rows_of_seesTargets (sound : mirror.Sound) (follows : session.Follows mirror edges)
    (sees : SeesTargets client vc session turn) :
    (session.rows client vc turn).edges =
      (materializeEntry client turn.entry mirror.known.lookup).edges := by
  refine materializeEntry_edges_congr fun paired draft member hint listed => ?_
  obtain ⟨isDraft, sameType⟩ := mem_zip_servedMemories member
  rw [materializeHint, materializeHint]
  cases own : lastWith Memory.id hint.target (servedMemories client turn.entry) with
  | some memory => rfl
  | none =>
      have outside : hint.target ∉ turn.entry.memoryIds := by
        rw [mem_memoryIds client paired]
        rintro ⟨memory, served, named⟩
        exact lastWith_eq_none.mp own memory served named
      rw [follows.liveTarget, sound.known]
      cases there : lastWith Memory.id hint.target mirror.rows.memories with
      | none => rfl
      | some memory =>
          by_cases visible : memoryVisible memory
              (effectiveVc vc (grantProject session.granted turn.project)) = true
          · rw [Option.filter_some, if_pos visible]
          · -- The rules refuse the edge at boot as well.
            have refused : validateTriple client.ontology draft.2.memoryType hint.kind
                memory.memoryType ≠ .ok () := by
              intro permitted
              rw [sameType] at permitted
              refine visible (sees paired draft.1 isDraft hint listed outside memory ?_ permitted)
              rw [follows.serves.node, there]
            rw [Option.filter_some, if_neg visible]
            simp only [Option.map_none, Option.none_or, Option.map_some]
            cases verdict : validateTriple client.ontology draft.2.memoryType hint.kind
                memory.memoryType with
            | error error => rfl
            | ok nothing => exact absurd verdict refused

theorem calmSession_follows {turns : List LiveTurn} (sound : mirror.Sound)
    (follows : session.Follows mirror mirror.rows.edges)
    (allows : (calmSession client vc).Allows session turns) :
    ((liveMachine client vc).run session turns).Follows
      ((turns.map (·.entry)).foldl (Mirror.add client) mirror)
      ((turns.map (·.entry)).foldl (Mirror.add client) mirror).rows.edges := by
  induction turns generalizing session mirror with
  | nil => exact follows
  | cons turn turns ih =>
      obtain ⟨⟨-, sees⟩, later⟩ := allows
      refine ih (sound.add turn.entry) ?_ later
      have after := follows.publish client vc turn
      rw [rows_of_seesTargets sound follows sees] at after
      exact after

variable (vc) in
theorem liveMachine_follows (turns : List LiveTurn) (follows : session.Follows mirror edges) :
    ∃ edges, ((liveMachine client vc).run session turns).Follows
      ((turns.map (·.entry)).foldl (Mirror.add client) mirror) edges := by
  induction turns generalizing session mirror edges with
  | nil => exact ⟨edges, follows⟩
  | cons turn turns ih => exact ih (follows.publish client vc turn)

/-! ## Edges that are held back -/

/-- An edge that a log has is of an entry of it, or of a group. -/
theorem mirrorOf_edge (member : edge ∈ (mirrorOf client entries).rows.edges) :
    (∃ entry ∈ entries, edge.lsn = LSN.newLocal entry.localLsn) ∨
      ∃ source node now, groupingEdgeLocal client source node now = some edge := by
  induction entries using List.reverseRecOn with
  | nil => cases member
  | append_singleton front last ih =>
      rw [mirrorOf_append] at member
      rcases List.mem_append.mp member with old | new
      · rcases ih old with ⟨entry, listed, same⟩ | grouped
        · exact .inl ⟨entry, List.mem_append_left _ listed, same⟩
        · exact .inr grouped
      · rcases (mem_materializeEntry_edges.mp new).2 with ⟨draft, -, hint, -, ok⟩ | grouped
        · obtain ⟨toType, toLabel, -, -, rfl⟩ := materializeHint_ok ok
          exact .inl ⟨last, List.mem_append_right _ (List.mem_singleton.mpr rfl), rfl⟩
        · obtain ⟨source, -, node, -, now, made⟩ := groupEntry_edge grouped
          exact .inr ⟨source, node, now, made⟩

/-- The type and the label of a memory that is served, to whomever. -/
def servedTarget (snap : GraphSnapshot) (id : MemoryId) : Option (UInt8 × Visibility) :=
  (snap.graph.node id).map fun memory => (memory.memoryType, memory.visibility)

/-- The edge of a hint that aims at a hidden memory, where the rules permit it and no other edge of
the entry takes its place. -/
structure HeldBack (client : Materializer) (vc : VisibilityContext) (session : LiveSession)
    (turn : LiveTurn) (edge : Relationship) (draft : MemoryDraft × Memory) (hint : EdgeHint)
    (memory : Memory) : Prop where
  paired : turn.entry.memories.length = turn.entry.memoryIds.length
  isDraft : draft ∈ turn.entry.memories.zip (servedMemories client turn.entry)
  isHint : hint ∈ draft.1.edgeHints
  outside : hint.target ∉ turn.entry.memoryIds
  served : session.graphs.served.graph.node hint.target = some memory
  permitted : validateTriple client.ontology draft.1.memoryType hint.kind memory.memoryType =
    .ok ()
  hidden : ¬ memoryVisible memory (effectiveVc vc (grantProject session.granted turn.project))
  isEdge : edge =
    relationshipFromHint client draft.2 memory.visibility hint turn.entry.localLsn
  last : lastWith Relationship.id edge.id
    (materializeEntry client turn.entry (servedTarget session.graphs.served)).edges = some edge

/-- An edge that is held back is missing until the restart. -/
theorem HeldBack.missing {hint : EdgeHint} {memory : Memory}
    (follows : session.Follows (mirrorOf client entries) (mirrorOf client entries).rows.edges)
    (newer : ∀ entry ∈ entries, entry.localLsn ≠ turn.entry.localLsn)
    (held : HeldBack client vc session turn edge draft hint memory) :
    edge ∈ (bootSeed client (entries ++ [turn.entry])).relationships ∧
      edge ∉ (session.publish client vc turn).graphs.served.relationships := by
  have notGrouped : ∀ source node now, groupingEdgeLocal client source node now ≠ some edge := by
    intro source node now made
    obtain ⟨kind, -, same⟩ := Option.map_eq_some_iff.mp made
    have provenance := congrArg Relationship.provenance (same.trans held.isEdge)
    cases provenance
  have sound := mirrorOf_sound client entries
  have there : lastWith Memory.id hint.target (mirrorOf client entries).rows.memories =
      some memory := by
    rw [← follows.serves.node, held.served]
  constructor
  · rw [(serves_bootSeed _).mem_relationships, mirrorOf_append]
    have resolver : (mirrorOf client entries).known.lookup =
        servedTarget session.graphs.served := by
      funext id
      rw [sound.known, servedTarget, follows.serves.node]
    change lastWith Relationship.id edge.id (_ ++
      (materializeEntry client turn.entry (mirrorOf client entries).known.lookup).edges) = _
    rw [resolver, lastWith_append, held.last, Option.some_or]
  · rw [(follows.publish client vc turn).serves.mem_relationships]
    intro last
    rcases List.mem_append.mp (lastWith_some last).1 with old | new
    · rcases mirrorOf_edge old with ⟨entry, listed, same⟩ | ⟨source, node, now, made⟩
      · rw [held.isEdge] at same
        exact newer entry listed (congrArg LSN.value same).symm
      · exact notGrouped source node now made
    · rcases (mem_materializeEntry_edges.mp new).2 with ⟨other, -, hint', -, ok⟩ | grouped
      · obtain ⟨toType, toLabel, known, -, same⟩ := materializeHint_ok ok
        have target : hint'.target = hint.target :=
          congrArg Relationship.target (same.symm.trans held.isEdge)
        have notOwn : lastWith Memory.id hint.target (servedMemories client turn.entry) = none := by
          rw [lastWith_eq_none]
          intro own listed named
          exact held.outside ((mem_memoryIds client held.paired).mpr ⟨own, listed, named⟩)
        rw [target, notOwn, follows.liveTarget, there, Option.filter_some, if_neg held.hidden]
          at known
        cases known
      · obtain ⟨source, -, node, -, now, made⟩ := groupEntry_edge grouped
        exact notGrouped source node now made

end Sessions

/-- **What a session serves is what a restart would serve**: always the memories, and the
relationships too as long as every entry aims at memories that the session sees. An edge of a new
entry to a hidden memory is missing until the restart, unless another edge of the entry takes its
place. -/
theorem calmSession_serves (client : Materializer) (vc : VisibilityContext)
    (older : List WalEntry) (turns : List LiveTurn) :
    ((liveMachine client vc).run (.boot client older) turns).graphs.served.memories =
        (bootSeed client (older ++ turns.map (·.entry))).memories ∧
      ((calmSession client vc).Allows (.boot client older) turns →
        ((liveMachine client vc).run (.boot client older) turns).graphs.served.relationships =
            (bootSeed client (older ++ turns.map (·.entry))).relationships ∧
          ∀ turn edge draft hint memory,
            (∀ entry ∈ older ++ turns.map (·.entry), entry.localLsn < turn.entry.localLsn) →
            HeldBack client vc ((liveMachine client vc).run (.boot client older) turns) turn edge
              draft hint memory →
            edge ∈ (bootSeed client (older ++ turns.map (·.entry) ++ [turn.entry])).relationships ∧
              edge ∉ ((liveMachine client vc).run (.boot client older)
                (turns ++ [turn])).graphs.served.relationships) := by
  have start := LiveSession.boot_follows client older
  refine ⟨?_, fun allows => ?_⟩
  · obtain ⟨edges, follows⟩ := liveMachine_follows vc turns start
    rw [← mirrorOf_append] at follows
    exact follows.serves.memories_eq (serves_bootSeed _)
  · have follows := calmSession_follows (mirrorOf_sound client older) start allows
    rw [← mirrorOf_append] at follows
    refine ⟨?_, fun turn edge draft hint memory newer held => ?_⟩
    · ext edge
      rw [follows.serves.mem_relationships, (serves_bootSeed _).mem_relationships]
    · rw [Machine.run_append]
      exact held.missing follows fun entry listed => (newer entry listed).ne

/-- An entry that aims at the memory of another. -/
def aimingEntry (lsn target : ℕ) : WalEntry :=
  { labelledEntry lsn .org with
    memories := (labelledEntry lsn .org).memories.map fun draft =>
      { draft with edgeHints := [⟨⟨3⟩, freshId target, none, none⟩] } }

/-- A session that aims at its own memory. -/
def ownTurns : List LiveTurn := [⟨labelledEntry 1 .org, ""⟩, ⟨aimingEntry 2 1, ""⟩]

theorem calmSession_serves_own :
    ((liveMachine sessionClient acmeAgent).run (.boot sessionClient [])
        ownTurns).graphs.served.relationships =
      (bootSeed sessionClient ([] ++ ownTurns.map (·.entry))).relationships := by
  have first : SeesTargets sessionClient acmeAgent (.boot sessionClient [])
      ⟨labelledEntry 1 .org, ""⟩ := by
    intro _ draft listed hint hinted
    rw [List.mem_singleton.mp listed] at hinted
    cases hinted
  have visible : ∀ memory ∈ ((LiveSession.boot sessionClient []).publish sessionClient acmeAgent
      ⟨labelledEntry 1 .org, ""⟩).graphs.served.graph.node (freshId 1),
      memoryVisible memory acmeAgent := by
    decide +kernel
  have second : SeesTargets sessionClient acmeAgent
      ((LiveSession.boot sessionClient []).publish sessionClient acmeAgent
        ⟨labelledEntry 1 .org, ""⟩) ⟨aimingEntry 2 1, ""⟩ := by
    intro _ draft listed hint hinted _ memory served _
    obtain rfl := List.mem_singleton.mp listed
    rw [List.mem_singleton.mp hinted] at served
    exact visible memory served
  exact ((calmSession_serves sessionClient acmeAgent [] ownTurns).2
    ⟨⟨trivial, first⟩, ⟨trivial, second⟩, trivial⟩).1

/-- A memory of a team, and another that aims at it: nobody sees the first one. -/
def teamTurns : List LiveTurn := [⟨labelledEntry 1 .team, ""⟩, ⟨aimingEntry 2 1, ""⟩]

/-- An edge to one's own memory is not served before the restart. -/
theorem not_calmSession_serves :
    ¬ ∀ (client : Materializer) (vc : VisibilityContext) (older : List WalEntry)
      (turns : List LiveTurn),
      ((liveMachine client vc).run (.boot client older) turns).graphs.served.memories =
          (bootSeed client (older ++ turns.map (·.entry))).memories ∧
        ((liveMachine client vc).run (.boot client older) turns).graphs.served.relationships =
          (bootSeed client (older ++ turns.map (·.entry))).relationships := by
  intro always
  have same := (always sessionClient acmeAgent [] teamTurns).2
  have restarted : ∃ edge ∈ (mirrorOf sessionClient (teamTurns.map (·.entry))).rows.edges,
      edge.target = freshId 1 ∧ lastWith Relationship.id edge.id
        (mirrorOf sessionClient (teamTurns.map (·.entry))).rows.edges = some edge := by
    decide +kernel
  have live : ∀ link ∈ ((liveMachine sessionClient acmeAgent).run (.boot sessionClient [])
      teamTurns).graphs.served.petgraph.edges.cells.entries,
      link.2.weight.target ≠ freshId 1 := by
    decide +kernel
  obtain ⟨edge, -, target, last⟩ := restarted
  have served := (serves_bootSeed _).mem_relationships.mpr last
  rw [List.nil_append] at same
  rw [← same] at served
  obtain ⟨ix, link, found, rfl⟩ := served
  exact live _ (AList.mem_lookup_iff.mp found) target

end Exocortex
