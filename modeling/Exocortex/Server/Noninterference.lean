import Exocortex.Server.Sse
import Exocortex.Storage.Views

/-!
# What the feed tells a subscriber

What a subscriber is told of an event is decided by the row behind it, as the subscriber sees it:
the row goes on, or an advance with a number and nothing else (`prepareForSubscriber_event`). Two
stores in which a caller sees the same rows seed the same rows (`sameSeed`).

The row of an event is read once, and is not read again when the event is replayed. So a row that
was readable at the first reading and is hidden now goes on being shown: hidden rows stay hidden
exactly where nothing readable is remembered of them (`subscriberNoninterference_iff`).
-/

namespace Exocortex

open Library InMemoryStorage

/-! ## The seed -/

variable {rows : List Memory} {json : FeedCodec}

section Seed

variable {node : ClusterNode} {visibility : Option VisibilityContext} {now : DateTime}

/-- The live memories that a subscriber may read, as it is given them. -/
def seedMemories (visibility : Option VisibilityContext) (now : DateTime) (rows : List Memory) :
    List Memory :=
  (rows.filter fun memory => memory.live now && visibility.all (memoryVisible memory ·)).map
    Memory.stripped

/-- The live relationships that a subscriber may read between the memories it is given. -/
def seedRelationships (visibility : Option VisibilityContext) (now : DateTime)
    (memories : List Memory) (rows : List Relationship) : List Relationship :=
  rows.filter fun relationship =>
    relationship.live now && visibleAmong visibility memories relationship

theorem seedMemories_cons (row : Memory) (rows : List Memory) :
    seedMemories visibility now (row :: rows) =
      (if row.live now && visibility.all (memoryVisible row ·) then [row.stripped] else []) ++
        seedMemories visibility now rows := by
  rw [seedMemories, List.filter_cons]
  split <;> rfl

theorem seedRelationships_cons (memories : List Memory) (row : Relationship)
    (rows : List Relationship) :
    seedRelationships visibility now memories (row :: rows) =
      (if row.live now && visibleAmong visibility memories row then [row] else []) ++
        seedRelationships visibility now memories rows := by
  rw [seedRelationships, List.filter_cons]
  split <;> rfl

variable {scan after : ReseedScan}

theorem scanMemory_ok {memory : Memory}
    (scanned : scanMemory node visibility now scan memory = .ok after) :
    after.memories = scan.memories ++ (if memory.live now && visibility.all (memoryVisible memory ·)
      then [memory.stripped] else []) ∧ after.relationships = scan.relationships := by
  rw [scanMemory] at scanned
  obtain ⟨⟨⟩, -, scanned⟩ := bind_eq_ok_iff.mp scanned
  split at scanned
  · next kept =>
      obtain ⟨⟨⟩, -, scanned⟩ := bind_eq_ok_iff.mp scanned
      cases scanned
      rw [if_pos kept]
      exact ⟨rfl, rfl⟩
  · next dropped =>
      cases scanned
      rw [if_neg dropped]
      exact ⟨(List.append_nil _).symm, rfl⟩

theorem scanRelationship_ok {relationship : Relationship}
    (scanned : scanRelationship node visibility now scan relationship = .ok after) :
    after.memories = scan.memories ∧ after.relationships = scan.relationships ++
      (if relationship.live now && visibleAmong visibility scan.memories relationship
        then [relationship] else []) := by
  rw [scanRelationship] at scanned
  obtain ⟨⟨⟩, -, scanned⟩ := bind_eq_ok_iff.mp scanned
  split at scanned
  · next kept =>
      obtain ⟨⟨⟩, -, scanned⟩ := bind_eq_ok_iff.mp scanned
      cases scanned
      rw [if_pos kept]
      exact ⟨rfl, rfl⟩
  · next dropped =>
      cases scanned
      rw [if_neg dropped]
      exact ⟨rfl, (List.append_nil _).symm⟩

/-- The scan keeps the live memories that the subscriber may read. -/
theorem foldlM_scanMemory
    (scanned : rows.foldlM (scanMemory node visibility now) scan = .ok after) :
    after.memories = scan.memories ++ seedMemories visibility now rows ∧
      after.relationships = scan.relationships := by
  induction rows generalizing scan with
  | nil =>
      cases scanned
      exact ⟨(List.append_nil _).symm, rfl⟩
  | cons row rows ih =>
      rw [List.foldlM_cons] at scanned
      obtain ⟨next, first, rest⟩ := bind_eq_ok_iff.mp scanned
      obtain ⟨memories, relationships⟩ := scanMemory_ok first
      obtain ⟨allMemories, allRelationships⟩ := ih rest
      rw [allMemories, memories, seedMemories_cons, List.append_assoc]
      exact ⟨rfl, allRelationships.trans relationships⟩

theorem foldlM_scanRelationship {rows : List Relationship}
    (scanned : rows.foldlM (scanRelationship node visibility now) scan = .ok after) :
    after.memories = scan.memories ∧ after.relationships = scan.relationships ++
      seedRelationships visibility now scan.memories rows := by
  induction rows generalizing scan with
  | nil =>
      cases scanned
      exact ⟨rfl, (List.append_nil _).symm⟩
  | cons row rows ih =>
      rw [List.foldlM_cons] at scanned
      obtain ⟨next, first, rest⟩ := bind_eq_ok_iff.mp scanned
      obtain ⟨memories, relationships⟩ := scanRelationship_ok first
      obtain ⟨allMemories, allRelationships⟩ := ih rest
      rw [allRelationships, relationships, memories, seedRelationships_cons, List.append_assoc]
      exact ⟨allMemories.trans memories, rfl⟩

/-- A seed within its budget carries the live rows that the subscriber may read. -/
theorem graphReseedEnvelopeAt_ok {memoryRows : List Memory}
    {relationshipRows : List Relationship} {frontier : ℕ} {seed : InvalidationEnvelope WireKind}
    (built : graphReseedEnvelopeAt node visibility now memoryRows relationshipRows frontier =
      .ok seed) :
    let memories := seedMemories visibility now memoryRows
    seed = node.envelope (.graphReseed (node.json.snapshotJson memories
      (seedRelationships visibility now memories relationshipRows)) frontier) := by
  rw [graphReseedEnvelopeAt] at built
  obtain ⟨first, memories, built⟩ := bind_eq_ok_iff.mp built
  obtain ⟨second, relationships, built⟩ := bind_eq_ok_iff.mp built
  obtain ⟨⟨⟩, -, built⟩ := bind_eq_ok_iff.mp built
  cases built
  obtain ⟨kept, none⟩ := foldlM_scanMemory memories
  obtain ⟨same, edges⟩ := foldlM_scanRelationship relationships
  rw [edges, same, none, kept]
  rfl

end Seed

/-! ## The seed and the view -/

section SeedView

variable {s : InMemoryStorage} (keyed : Keyed s.rows) {vc : VisibilityContext} {now : DateTime}

/-- An order in which a store streams its rows. -/
structure InMemoryStorage.Streams (s : InMemoryStorage) where
  memories : List Memory
  relationships : List Relationship
  memories_perm : memories.Perm s.streamAllMemories
  relationships_perm : relationships.Perm s.streamAllRelationships

/-- The order in which a store keeps its rows. -/
def InMemoryStorage.asStored (s : InMemoryStorage) : s.Streams :=
  ⟨s.streamAllMemories, s.streamAllRelationships, .rfl, .rfl⟩

/-- The rows come in the order of their numbers. -/
def InMemoryStorage.Streams.InOrder (streams : s.Streams) : Prop :=
  (streams.memories.Pairwise fun first second => first.lsn.value < second.lsn.value) ∧
    streams.relationships.Pairwise fun first second => first.lsn.value < second.lsn.value

/-- The live memory that a caller sees under an identity. -/
def Graph.seesLive (g : Graph) (vc : VisibilityContext) (now : DateTime) (id : MemoryId) :
    Option Memory :=
  (g.seesMemory vc id).filter (·.live now)

/-- A live edge that is visible between live memories that the caller sees. -/
def Graph.seesLiveEdge (g : Graph) (vc : VisibilityContext) (now : DateTime)
    (edge : Relationship) : Bool :=
  edge.live now &&
    match g.seesLive vc now edge.source, g.seesLive vc now edge.target with
    | some source, some target => relationshipVisible edge source target vc
    | _, _ => false

theorem mem_live_visible (listed : rows.Perm s.streamAllMemories) {memory : Memory} :
    memory ∈ rows.filter (fun memory => memory.live now && memoryVisible memory vc) ↔
      (s.graph keyed).seesLive vc now memory.id = some memory := by
  rw [List.mem_filter, listed.mem_iff, keyed.mem_memories, Graph.seesLive,
    Option.filter_eq_some_iff, Graph.seesMemory_eq_some_iff, Bool.and_eq_true]
  exact ⟨fun ⟨current, live, visible⟩ => ⟨⟨current, visible⟩, live⟩,
    fun ⟨⟨current, visible⟩, live⟩ => ⟨current, live, visible⟩⟩

variable {keyed}

/-- The seed lists under an identity what the caller sees there, if it is live. -/
theorem lastWith_seedMemories (keyed : Keyed s.rows) (listed : rows.Perm s.streamAllMemories)
    (id : MemoryId) :
    lastWith Memory.id id (seedMemories (some vc) now rows) =
      ((s.graph keyed).seesLive vc now id).map Memory.stripped := by
  have distinct : ((seedMemories (some vc) now rows).map Memory.id).Nodup := by
    rw [seedMemories, List.map_map]
    have ids : (rows.map Memory.id).Nodup := (listed.map _).nodup_iff.mpr keyed.nodup_memories
    exact ids.sublist (List.filter_sublist.map _)
  have listed_iff {memory : Memory} : memory ∈ seedMemories (some vc) now rows ↔
      ∃ row, (s.graph keyed).seesLive vc now row.id = some row ∧ row.stripped = memory := by
    rw [seedMemories, List.mem_map]
    exact exists_congr fun row => and_congr_left' (mem_live_visible keyed listed)
  cases seen : (s.graph keyed).seesLive vc now id with
  | none =>
      rw [Option.map_none, lastWith_eq_none]
      intro memory member named
      obtain ⟨row, sees, rfl⟩ := listed_iff.mp member
      have same : row.id = id := named
      rw [same, seen] at sees
      cases sees
  | some row =>
      have named : row.id = id :=
        (s.graph keyed).memory_id id row (Graph.seesMemory_eq_some_iff.mp
          (Option.filter_eq_some_iff.mp seen).1).1
      have member : row.stripped ∈ seedMemories (some vc) now rows :=
        listed_iff.mpr ⟨row, by rw [named, seen], rfl⟩
      have last := lastWith_of_nodup distinct member
      rw [Option.map_some, ← last]
      exact congrArg (lastWith Memory.id · _) named.symm

/-- The seed keeps the live edges that the caller sees between live memories. -/
theorem visibleAmong_seedMemories (keyed : Keyed s.rows) (listed : rows.Perm s.streamAllMemories)
    (edge : Relationship) :
    (edge.live now && visibleAmong (some vc) (seedMemories (some vc) now rows) edge) =
      (s.graph keyed).seesLiveEdge vc now edge := by
  rw [visibleAmong, Option.all_some, lastWith_seedMemories keyed listed,
    lastWith_seedMemories keyed listed, Graph.seesLiveEdge]
  cases (s.graph keyed).seesLive vc now edge.source <;>
    cases (s.graph keyed).seesLive vc now edge.target <;> rfl

variable {edge : Relationship} {g : Graph}

theorem Graph.seesLiveEdge_visible (seen : g.seesLiveEdge vc now edge = true) :
    g.edgeVisible vc edge = true := by
  have present {id : MemoryId} {row : Memory} (sees : g.seesLive vc now id = some row) :
      g.memory id = some row :=
    (seesMemory_eq_some_iff.mp (Option.filter_eq_some_iff.mp sees).1).1
  rw [seesLiveEdge, Bool.and_eq_true] at seen
  obtain ⟨-, between⟩ := seen
  split at between
  · next source target foundSource foundTarget =>
      rw [edgeVisible, present foundSource, present foundTarget]
      exact between
  · cases between

theorem mem_seedRelationships (keyed : Keyed s.rows) {streams : s.Streams} :
    edge ∈ seedRelationships (some vc) now (seedMemories (some vc) now streams.memories)
        streams.relationships ↔
      (s.graph keyed).seesRelationship vc edge.id = some edge ∧
        (s.graph keyed).seesLiveEdge vc now edge = true := by
  rw [seedRelationships, List.mem_filter, streams.relationships_perm.mem_iff,
    keyed.mem_relationships, visibleAmong_seedMemories keyed streams.memories_perm,
    Graph.seesRelationship_eq_some_iff]
  exact ⟨fun ⟨current, seen⟩ => ⟨⟨current, Graph.seesLiveEdge_visible seen⟩, seen⟩,
    fun ⟨⟨current, _⟩, seen⟩ => ⟨current, seen⟩⟩

/-! ### Two stores of one view -/

variable {right : InMemoryStorage} {rightKeyed : Keyed right.rows}

theorem Graph.SameView.seesLive {h : Graph} (same : Graph.SameView vc g h) (id : MemoryId) :
    g.seesLive vc now id = h.seesLive vc now id := by
  rw [Graph.seesLive, Graph.seesLive, same.memory]

theorem Graph.SameView.seesLiveEdge {h : Graph} (same : Graph.SameView vc g h)
    (edge : Relationship) : g.seesLiveEdge vc now edge = h.seesLiveEdge vc now edge := by
  rw [Graph.seesLiveEdge, Graph.seesLiveEdge, same.seesLive, same.seesLive]

theorem seedMemories_perm (same : Graph.SameView vc (s.graph keyed) (right.graph rightKeyed))
    (streams : s.Streams) (others : right.Streams) :
    (streams.memories.filter fun memory => memory.live now && memoryVisible memory vc).Perm
      (others.memories.filter fun memory => memory.live now && memoryVisible memory vc) := by
  have distinct {t : InMemoryStorage} (keyed : Keyed t.rows) (streams : t.Streams) :
      (streams.memories.filter fun memory =>
        memory.live now && memoryVisible memory vc).Nodup :=
    (streams.memories_perm.nodup_iff.mpr (.of_map _ keyed.nodup_memories)).filter _
  refine (List.perm_ext_iff_of_nodup (distinct keyed streams) (distinct rightKeyed others)).mpr
    fun memory => ?_
  rw [mem_live_visible keyed streams.memories_perm,
    mem_live_visible rightKeyed others.memories_perm, same.seesLive]

theorem seedRelationships_perm (now : DateTime)
    (same : Graph.SameView vc (s.graph keyed) (right.graph rightKeyed))
    (streams : s.Streams) (others : right.Streams) :
    (seedRelationships (some vc) now (seedMemories (some vc) now streams.memories)
        streams.relationships).Perm
      (seedRelationships (some vc) now (seedMemories (some vc) now others.memories)
        others.relationships) := by
  have distinct {t : InMemoryStorage} (keyed : Keyed t.rows) (streams : t.Streams) :
      (seedRelationships (some vc) now (seedMemories (some vc) now streams.memories)
        streams.relationships).Nodup :=
    (streams.relationships_perm.nodup_iff.mpr (.of_map _ keyed.nodup_relationships)).filter _
  refine (List.perm_ext_iff_of_nodup (distinct keyed streams) (distinct rightKeyed others)).mpr
    fun edge => ?_
  rw [mem_seedRelationships keyed, mem_seedRelationships rightKeyed, same.relationship,
    same.seesLiveEdge]

end SeedView

/-! ## The row of an event -/

/-- The row that an event names. A discovery is named with all that its finder knew. -/
inductive EventRow where
  | memory (id : MemoryId)
  | relationship (id : RelationshipId)
  | discovery (record : DiscoveryRecord)
deriving DecidableEq

/-- The key and the row of an event. An advance, a seed and a malformed event name no row. -/
def FeedCodec.event (json : FeedCodec) (lsn : UInt64) :
    WireKind → Option (HydrationKey × EventRow)
  | .memoryUpserted id _ | .memoryDeleted id =>
      (decodeId id).toOption.map fun raw => (⟨lsn, 1, id⟩, .memory ⟨raw⟩)
  | .relationshipUpserted id _ _ _ _ | .relationshipDeleted id =>
      (decodeId id).toOption.map fun raw => (⟨lsn, 2, id⟩, .relationship ⟨raw⟩)
  | .discoveryAvailable recordJson => (json.discoveryOfJson recordJson).toOption.map fun record =>
      (⟨lsn, 3, utf8Bytes record.discoveryId⟩, .discovery record)
  | .visibilityAdvance | .graphReseed _ => none

/-- The row behind an event, as it is stored now. -/
def InMemoryStorage.hydrated (s : InMemoryStorage) : EventRow → HydratedEvent
  | .memory id => .memory (s.getMemory id)
  | .relationship id => .relationship ((s.getRelationship id).map fun relationship =>
      (relationship, s.getMemories [relationship.source, relationship.target]))
  | .discovery encoded => .discovery ((s.getDiscovery encoded.discoveryId).map fun record =>
      (record, s.getMemories [record.source, record.target]))

theorem fromUTF8?_utf8Bytes (text : String) :
    String.fromUTF8? ⟨(utf8Bytes text).toArray⟩ = some text := by
  have bytes : (⟨(utf8Bytes text).toArray⟩ : ByteArray) = text.toByteArray := by
    simp [utf8Bytes]
  rw [bytes]
  simp only [String.fromUTF8?, Option.dite_none_right_eq_some, Option.some.injEq]
  exact ⟨text.isValidUTF8, rfl⟩

theorem toOption_map_eq_some {α β E : Type} {x : Except E α} {f : α → β} {y : β}
    (mapped : x.toOption.map f = some y) : ∃ value, x = .ok value ∧ f value = y := by
  cases x with
  | error error => cases mapped
  | ok value => exact ⟨value, rfl, Option.some.inj mapped⟩

/-- What is read under the key of an event is the row that the event names. -/
theorem hydrateEvent_event {lsn : UInt64} {kind : WireKind} {key : HydrationKey} {row : EventRow}
    (event : json.event lsn kind = some (key, row)) (s : InMemoryStorage) :
    hydrateEvent s key = .ok (s.hydrated row) := by
  cases kind with
  | memoryUpserted id _ | memoryDeleted id =>
      obtain ⟨raw, decoded, same⟩ := toOption_map_eq_some event
      cases same
      rw [hydrateEvent, if_pos rfl, decoded]
      rfl
  | relationshipUpserted id _ _ _ _ | relationshipDeleted id =>
      obtain ⟨raw, decoded, same⟩ := toOption_map_eq_some event
      cases same
      rw [hydrateEvent, if_neg (show (2 : UInt8) ≠ 1 by decide), if_pos rfl, decoded]
      rfl
  | discoveryAvailable recordJson =>
      obtain ⟨record, -, same⟩ := toOption_map_eq_some event
      cases same
      rw [hydrateEvent, if_neg (show (3 : UInt8) ≠ 1 by decide),
        if_neg (show (3 : UInt8) ≠ 2 by decide), if_pos rfl, fromUTF8?_utf8Bytes]
      rfl
  | visibilityAdvance | graphReseed _ => cases event

/-- A row as a subscriber sees it. -/
inductive SeenRow where
  | memory (row : Memory)
  | relationship (row : Relationship)
  | discovery (record : DiscoveryRecord)
deriving DecidableEq

/-- What a caller sees of the row behind an event. -/
def HydratedEvent.seen (vc : VisibilityContext) : EventRow → HydratedEvent → Option SeenRow
  | .memory _, .memory row => (row.filter (memoryVisible · vc)).map .memory
  | .relationship _, .relationship row =>
      (row.filter fun found => relationshipVisibleWithEndpoints found.1 found.2 vc).map
        fun found => .relationship found.1
  | .discovery encoded, .discovery row =>
      (row.filter fun found => found.1.eq encoded && discoveryVisible found.1 found.2 vc).map
        fun found => .discovery found.1
  | _, _ => none

/-- An event goes on with the row that the subscriber sees. -/
def ClusterNode.forward (node : ClusterNode) (env : InvalidationEnvelope WireKind) (lsn : ℕ) :
    WireKind → SeenRow → InvalidationEnvelope WireKind
  | .memoryUpserted .., .memory row => node.envelope (.memorySnapshotUpserted row.stripped lsn)
  | .relationshipUpserted .., .relationship row =>
      node.envelope (.relationshipSnapshotUpserted row lsn)
  | _, _ => env

/-- The row of an event, as remembered or as stored. -/
def SharedEventHydration.recall (hydration : SharedEventHydration) (s : InMemoryStorage)
    (key : HydrationKey) (row : EventRow) : HydratedEvent :=
  (hydration.entries.lookup key).getD (s.hydrated row)

section Prepared

variable {node : ClusterNode} {s : InMemoryStorage} {hydration : SharedEventHydration}
  {env : InvalidationEnvelope WireKind} {vc : VisibilityContext} {lsn : UInt64} {kind : WireKind}
  {key : HydrationKey} {row : EventRow}

variable (s hydration) in
theorem recall_kind (event : json.event lsn kind = some (key, row)) :
    (hydration.recall s key row).kind = key.kind := by
  rw [SharedEventHydration.recall]
  cases found : hydration.entries.lookup key with
  | some remembered => exact hydration.typed key remembered found
  | none => exact hydrateEvent_kind (hydrateEvent_event event s)

theorem load_event (event : json.event lsn kind = some (key, row)) :
    (hydration.load s key).1 = .ok (hydration.recall s key row) := by
  have stored := hydrateEvent_event event s
  rw [SharedEventHydration.load, SharedEventHydration.recall]
  split
  · next found => rw [found, Option.getD_some]
  · next none =>
      rw [none, Option.getD_none]
      split
      · next loaded =>
          rw [stored] at loaded
          exact congrArg Except.ok (Except.ok.inj loaded).symm
      · next failed =>
          rw [stored] at failed
          cases failed

theorem withHydrated_event (event : json.event lsn kind = some (key, row))
    (next : HydratedEvent → Except StorageError (InvalidationEnvelope WireKind)) :
    (withHydrated s hydration key next).1 = next (hydration.recall s key row) := by
  rw [withHydrated, load_event event]
  rfl

theorem HydratedEvent.eq_memory {event : HydratedEvent} (typed : event.kind = 1) :
    ∃ stored, event = .memory stored := by
  cases event with
  | memory stored => exact ⟨stored, rfl⟩
  | relationship | discovery => cases typed

theorem HydratedEvent.eq_relationship {event : HydratedEvent} (typed : event.kind = 2) :
    ∃ stored, event = .relationship stored := by
  cases event with
  | relationship stored => exact ⟨stored, rfl⟩
  | memory | discovery => cases typed

theorem HydratedEvent.eq_discovery {event : HydratedEvent} (typed : event.kind = 3) :
    ∃ stored, event = .discovery stored := by
  cases event with
  | discovery stored => exact ⟨stored, rfl⟩
  | memory | relationship => cases typed

/-- A row that is seen lets the envelope itself go on. -/
theorem ite_any_eq_elim {α : Type} (stored : Option α) (sees : α → Bool) (seen : α → SeenRow)
    (advance : InvalidationEnvelope WireKind) {next : SeenRow → InvalidationEnvelope WireKind}
    (unchanged : ∀ found, next (seen found) = env) :
    (if stored.any sees then .ok env else .ok advance :
      Except StorageError (InvalidationEnvelope WireKind)) =
        .ok (((stored.filter sees).map seen).elim advance next) := by
  cases stored with
  | none => rfl
  | some found =>
      rw [Option.any_some, Option.filter_some]
      cases sees found with
      | false => rfl
      | true => exact congrArg Except.ok (unchanged found).symm

/-- **An event goes on with what the subscriber sees of its row, and otherwise as an advance.** -/
theorem prepareForSubscriber_event (inv : env.inv = some ⟨some kind, lsn⟩)
    (event : node.json.event lsn kind = some (key, row)) :
    (prepareForSubscriber node s hydration env (some vc)).1 =
      .ok (((hydration.recall s key row).seen vc row).elim
        (node.envelope (.visibilityAdvance lsn.toNat)) (node.forward env lsn.toNat kind)) := by
  have typed := recall_kind s hydration event
  cases kind with
  | memoryUpserted id _ =>
      obtain ⟨raw, decoded, same⟩ := toOption_map_eq_some event
      cases same
      obtain ⟨stored, recalled⟩ := HydratedEvent.eq_memory typed
      simp only [prepareForSubscriber, inv, withHydrated_event event, recalled,
        HydratedEvent.seen, Option.all_some]
      cases stored.filter (memoryVisible · vc) <;> rfl
  | memoryDeleted id =>
      obtain ⟨raw, decoded, same⟩ := toOption_map_eq_some event
      cases same
      obtain ⟨stored, recalled⟩ := HydratedEvent.eq_memory typed
      simp only [prepareForSubscriber, inv, withHydrated_event event, recalled,
        HydratedEvent.seen, Option.all_some]
      exact ite_any_eq_elim _ _ _ _ fun _ => rfl
  | relationshipUpserted id _ _ _ _ =>
      obtain ⟨raw, decoded, same⟩ := toOption_map_eq_some event
      cases same
      obtain ⟨stored, recalled⟩ := HydratedEvent.eq_relationship typed
      simp only [prepareForSubscriber, inv, withHydrated_event event, recalled,
        HydratedEvent.seen, Option.all_some]
      cases stored.filter fun found => relationshipVisibleWithEndpoints found.1 found.2 vc <;> rfl
  | relationshipDeleted id =>
      obtain ⟨raw, decoded, same⟩ := toOption_map_eq_some event
      cases same
      obtain ⟨stored, recalled⟩ := HydratedEvent.eq_relationship typed
      simp only [prepareForSubscriber, inv, withHydrated_event event, recalled,
        HydratedEvent.seen, Option.all_some]
      exact ite_any_eq_elim _ _ _ _ fun _ => rfl
  | discoveryAvailable recordJson =>
      obtain ⟨encoded, decoded, same⟩ := toOption_map_eq_some event
      cases same
      obtain ⟨stored, recalled⟩ := HydratedEvent.eq_discovery typed
      simp only [prepareForSubscriber, inv, decoded, withHydrated_event event, recalled,
        HydratedEvent.seen, Option.all_some]
      exact ite_any_eq_elim _ _ _ _ fun _ => rfl
  | visibilityAdvance | graphReseed _ => cases event

end Prepared

/-! ## The row of an event and the view -/

/-- The regions of a discovery admit the caller, who sees both of its ends. -/
def Graph.SeesDiscovery (g : Graph) (vc : VisibilityContext) (record : DiscoveryRecord) : Prop :=
  (record.region.org = "*" ∨ record.region.org = vc.orgId) ∧
    (record.region.project = "*" ∨ record.region.project ∈ vc.projectIds) ∧
    (g.seesMemory vc record.source).isSome ∧ (g.seesMemory vc record.target).isSome

/-- A caller does not see the row that an event names. -/
def Hides (s : InMemoryStorage) (keyed : Keyed s.rows) (vc : VisibilityContext) : EventRow → Prop
  | .memory id => (s.graph keyed).seesMemory vc id = none
  | .relationship id => (s.graph keyed).seesRelationship vc id = none
  | .discovery encoded => ∀ stored, s.getDiscovery encoded.discoveryId = some stored →
      stored.eq encoded = true → ¬ (s.graph keyed).SeesDiscovery vc stored

section Stored

variable {s : InMemoryStorage} (keyed : Keyed s.rows) {vc : VisibilityContext}
include keyed

/-- A memory that was asked for is found under its identity. -/
theorem find?_getMemories {ids : List MemoryId} {id : MemoryId} (asked : id ∈ ids) :
    (s.getMemories ids).find? (·.id = id) = s.currentMemory id := by
  have sound {memory : Memory} (found : (s.getMemories ids).find? (·.id = id) = some memory) :
      s.currentMemory id = some memory := by
    obtain ⟨other, -, current⟩ := List.mem_filterMap.mp (List.mem_of_find?_eq_some found)
    have named : memory.id = id := by simpa using List.find?_some found
    rw [← named, keyed.memory_id current]
    exact current
  cases found : (s.getMemories ids).find? (·.id = id) with
  | some memory => exact (sound found).symm
  | none =>
      cases current : s.currentMemory id with
      | none => rfl
      | some memory =>
          have absent := List.find?_eq_none.mp found memory
            (List.mem_filterMap.mpr ⟨id, asked, current⟩)
          exact absurd (decide_eq_true (keyed.memory_id current)) absent

theorem relationshipVisibleWithEndpoints_getMemories (edge : Relationship) :
    relationshipVisibleWithEndpoints edge (s.getMemories [edge.source, edge.target]) vc =
      (s.graph keyed).edgeVisible vc edge := by
  rw [relationshipVisibleWithEndpoints, find?_getMemories keyed (by simp),
    find?_getMemories keyed (by simp)]
  rfl

theorem discoveryVisible_getMemories (record : DiscoveryRecord) :
    discoveryVisible record (s.getMemories [record.source, record.target]) vc = true ↔
      (s.graph keyed).SeesDiscovery vc record := by
  have ends (id : MemoryId) : ((s.graph keyed).seesMemory vc id).isSome ↔
      ∃ memory, s.currentMemory id = some memory ∧ memoryVisible memory vc = true := by
    rw [Option.isSome_iff_exists]
    exact exists_congr fun _ => Graph.seesMemory_eq_some_iff
  rw [discoveryVisible, Graph.SeesDiscovery, ends, ends, find?_getMemories keyed (by simp),
    find?_getMemories keyed (by simp)]
  by_cases org : record.region.org = "*" ∨ record.region.org = vc.orgId
  · rw [if_neg (by tauto)]
    by_cases project : record.region.project = "*" ∨ record.region.project ∈ vc.projectIds
    · rw [if_neg (by simpa [or_iff_not_imp_left] using project)]
      cases s.currentMemory record.source <;> cases s.currentMemory record.target <;>
        simp [org, project]
    · rw [if_pos (by simpa using not_or.mp project)]
      simp [project]
  · rw [if_pos (not_or.mp org)]
    simp [org]

theorem seen_hydrated_memory (id : MemoryId) : (s.hydrated (.memory id)).seen vc (.memory id) =
    ((s.graph keyed).seesMemory vc id).map .memory := rfl

theorem seen_hydrated_relationship (id : RelationshipId) :
    (s.hydrated (.relationship id)).seen vc (.relationship id) =
      ((s.graph keyed).seesRelationship vc id).map .relationship := by
  have sees : ((fun found : Relationship × List Memory =>
      relationshipVisibleWithEndpoints found.1 found.2 vc) ∘ fun edge : Relationship =>
        (edge, s.getMemories [edge.source, edge.target])) = (s.graph keyed).edgeVisible vc :=
    funext (relationshipVisibleWithEndpoints_getMemories keyed)
  rw [InMemoryStorage.hydrated, HydratedEvent.seen, Option.filter_map, sees, Option.map_map]
  rfl

/-- **A caller sees nothing of a stored row exactly where the row is hidden from it.** -/
theorem seen_hydrated_eq_none_iff {row : EventRow} :
    (s.hydrated row).seen vc row = none ↔ Hides s keyed vc row := by
  cases row with
  | memory id => rw [seen_hydrated_memory keyed, Option.map_eq_none_iff, Hides]
  | relationship id => rw [seen_hydrated_relationship keyed, Option.map_eq_none_iff, Hides]
  | discovery encoded =>
      rw [InMemoryStorage.hydrated, HydratedEvent.seen, Option.map_eq_none_iff, Option.filter_map,
        Option.map_eq_none_iff, Hides, Option.filter_eq_none_iff]
      simp [discoveryVisible_getMemories keyed]

end Stored

/-! ## Two stores of one view -/

/-- The row behind an event is remembered from a time at which the caller could read it. -/
def SharedEventHydration.Exposes (hydration : SharedEventHydration) (vc : VisibilityContext)
    (key : HydrationKey) (row : EventRow) : Prop :=
  ∃ event, hydration.entries.lookup key = some event ∧ (event.seen vc row).isSome

section Advance

variable {node : ClusterNode} {s : InMemoryStorage} {keyed : Keyed s.rows}
  {hydration : SharedEventHydration} {env : InvalidationEnvelope WireKind}
  {vc : VisibilityContext} {lsn : UInt64} {kind : WireKind} {key : HydrationKey} {row : EventRow}

theorem envelope_visibilityAdvance_inv :
    (node.envelope (.visibilityAdvance lsn.toNat)).inv = some ⟨some .visibilityAdvance, lsn⟩ := by
  rw [ClusterNode.envelope_inv, invalidationToPb, UInt64.ofNat_toNat]

/-- What goes on is not an advance. -/
theorem forward_ne_advance (inv : env.inv = some ⟨some kind, lsn⟩)
    (event : node.json.event lsn kind = some (key, row)) (seen : SeenRow) :
    node.forward env lsn.toNat kind seen ≠ node.envelope (.visibilityAdvance lsn.toNat) := by
  intro same
  have told := congrArg InvalidationEnvelope.inv same
  rw [envelope_visibilityAdvance_inv] at told
  cases kind with
  | memoryUpserted | relationshipUpserted =>
      cases seen <;> simp [ClusterNode.forward, inv, invalidationToPb] at told
  | memoryDeleted | relationshipDeleted | discoveryAvailable =>
      simp [ClusterNode.forward, inv] at told
  | visibilityAdvance | graphReseed => cases event

/-- The event of a hidden row becomes an advance exactly where the row is not remembered from a
time at which the subscriber could read it. -/
theorem prepareForSubscriber_advance_iff (inv : env.inv = some ⟨some kind, lsn⟩)
    (event : node.json.event lsn kind = some (key, row)) (hidden : Hides s keyed vc row) :
    (prepareForSubscriber node s hydration env (some vc)).1 =
        .ok (node.envelope (.visibilityAdvance lsn.toNat)) ↔
      ¬ hydration.Exposes vc key row := by
  have unseen := (seen_hydrated_eq_none_iff keyed).mpr hidden
  have exposes : hydration.Exposes vc key row ↔
      ((hydration.recall s key row).seen vc row).isSome := by
    rw [SharedEventHydration.Exposes, SharedEventHydration.recall]
    cases hydration.entries.lookup key with
    | none => simp [unseen]
    | some remembered => simp
  rw [prepareForSubscriber_event inv event, exposes]
  cases (hydration.recall s key row).seen vc row with
  | none => simp
  | some seen => simpa using forward_ne_advance inv event seen

end Advance

/-! ## Noninterference -/

/-- Seeds of the same rows at the same frontier, listed in any order. -/
def SameSeed (node : ClusterNode) (frontier : ℕ) (first second : InvalidationEnvelope WireKind) :
    Prop :=
  ∃ memories others relationships edges,
    memories.Perm others ∧ relationships.Perm edges ∧
      first = node.envelope
        (.graphReseed (node.json.snapshotJson memories relationships) frontier) ∧
      second = node.envelope (.graphReseed (node.json.snapshotJson others edges) frontier)

/-- The seed that a subscriber gets from a store. -/
def InMemoryStorage.Streams.seed {s : InMemoryStorage} (streams : s.Streams) (node : ClusterNode)
    (vc : VisibilityContext) (now : DateTime) (frontier : ℕ) :
    Except StorageError (InvalidationEnvelope WireKind) :=
  graphReseedEnvelopeAt node (some vc) now streams.memories streams.relationships frontier

section Noninterference

variable {node : ClusterNode} {vc : VisibilityContext} {now : DateTime} {frontier : ℕ}
  {left right : InMemoryStorage} {leftKeyed : Keyed left.rows} {rightKeyed : Keyed right.rows}
  (same : Graph.SameView vc (left.graph leftKeyed) (right.graph rightKeyed))
  {leftStreams : left.Streams} {rightStreams : right.Streams}
include same

variable {first second : InvalidationEnvelope WireKind}

/-- **Stores of one view give seeds of the same rows.** -/
theorem sameSeed (leftSeed : leftStreams.seed node vc now frontier = .ok first)
    (rightSeed : rightStreams.seed node vc now frontier = .ok second) :
    SameSeed node frontier first second :=
  ⟨_, _, _, _, (seedMemories_perm same leftStreams rightStreams).map _,
    seedRelationships_perm now same leftStreams rightStreams,
    graphReseedEnvelopeAt_ok leftSeed, graphReseedEnvelopeAt_ok rightSeed⟩

/-- Where the rows come in the order of their numbers, the seeds are the same envelope. -/
theorem seed_eq (leftOrder : leftStreams.InOrder) (rightOrder : rightStreams.InOrder)
    (leftSeed : leftStreams.seed node vc now frontier = .ok first)
    (rightSeed : rightStreams.seed node vc now frontier = .ok second) : first = second := by
  have ordered {α : Type} {number : α → ℕ} {rows others : List α} (listed : rows.Perm others)
      (ascending : rows.Pairwise fun first second => number first < number second)
      (also : others.Pairwise fun first second => number first < number second) :
      rows = others :=
    listed.eq_of_pairwise (fun _ _ _ _ below above => absurd below (Nat.lt_asymm above))
      ascending also
  have memories : seedMemories (some vc) now leftStreams.memories =
      seedMemories (some vc) now rightStreams.memories :=
    congrArg (List.map Memory.stripped) (ordered (seedMemories_perm same leftStreams rightStreams)
      (leftOrder.1.filter _) (rightOrder.1.filter _))
  have relationships := ordered (seedRelationships_perm now same leftStreams rightStreams)
    (leftOrder.2.filter _) (rightOrder.2.filter _)
  rw [graphReseedEnvelopeAt_ok leftSeed, graphReseedEnvelopeAt_ok rightSeed]
  rw [relationships, memories]

end Noninterference

/-- What two stores tell a subscriber who sees the same rows in both: seeds of the same rows, the
same envelope where the rows come in the order of their numbers, and an advance with a number and
nothing else for an event of a row that is hidden in both. -/
structure TellsNothing (node : ClusterNode) (vc : VisibilityContext) (now : DateTime)
    (frontier : ℕ) {left right : InMemoryStorage} (leftStreams : left.Streams)
    (rightStreams : right.Streams) (leftHydration rightHydration : SharedEventHydration)
    (env : InvalidationEnvelope WireKind) (lsn : UInt64) : Prop where
  seed : ∀ first second, leftStreams.seed node vc now frontier = .ok first →
    rightStreams.seed node vc now frontier = .ok second → SameSeed node frontier first second
  seedInOrder : leftStreams.InOrder → rightStreams.InOrder → ∀ first second,
    leftStreams.seed node vc now frontier = .ok first →
    rightStreams.seed node vc now frontier = .ok second → first = second
  bare : (node.envelope (.visibilityAdvance lsn.toNat)).inv = some ⟨some .visibilityAdvance, lsn⟩
  leftAdvance : (prepareForSubscriber node left leftHydration env (some vc)).1 =
    .ok (node.envelope (.visibilityAdvance lsn.toNat))
  rightAdvance : (prepareForSubscriber node right rightHydration env (some vc)).1 =
    .ok (node.envelope (.visibilityAdvance lsn.toNat))

/-- **The feed tells a subscriber nothing of hidden rows exactly where no row of the event is
remembered from a time at which the subscriber could read it.** -/
theorem subscriberNoninterference_iff (node : ClusterNode) (vc : VisibilityContext)
    (now : DateTime) (frontier : ℕ) {left right : InMemoryStorage} (leftKeyed : Keyed left.rows)
    (rightKeyed : Keyed right.rows)
    (same : Graph.SameView vc (left.graph leftKeyed) (right.graph rightKeyed))
    (leftStreams : left.Streams) (rightStreams : right.Streams)
    (leftHydration rightHydration : SharedEventHydration) (env : InvalidationEnvelope WireKind)
    (lsn : UInt64) (kind : WireKind) (inv : env.inv = some ⟨some kind, lsn⟩)
    (key : HydrationKey) (row : EventRow) (event : node.json.event lsn kind = some (key, row))
    (leftHidden : Hides left leftKeyed vc row) (rightHidden : Hides right rightKeyed vc row) :
    TellsNothing node vc now frontier leftStreams rightStreams leftHydration rightHydration env
        lsn ↔
      ¬ leftHydration.Exposes vc key row ∧ ¬ rightHydration.Exposes vc key row := by
  rw [← prepareForSubscriber_advance_iff (s := left) inv event leftHidden,
    ← prepareForSubscriber_advance_iff (s := right) inv event rightHidden]
  constructor
  · exact fun tells => ⟨tells.leftAdvance, tells.rightAdvance⟩
  · rintro ⟨leftAdvance, rightAdvance⟩
    exact ⟨fun _ _ => sameSeed same, fun leftOrder rightOrder _ _ => seed_eq same leftOrder
      rightOrder, envelope_visibilityAdvance_inv, leftAdvance, rightAdvance⟩

/-! ## Plans that stay private -/

/-- A node whose libraries write nothing. -/
def quietNode : ClusterNode where
  nodeId := "node"
  fp := .fill 32 0
  hmacKey := .fill 32 0
  hmac := fun _ _ => [1]
  encodeEnvelope := fun _ => []
  json := {
    memoryJson := fun _ => []
    relationshipJson := fun _ => []
    discoveryJson := fun _ => []
    discoveryOfJson := fun _ => .error "expected value"
    snapshotJson := fun _ _ => [] }

/-- A note of a tenant, under a label. -/
def feedNote (visibility : Visibility) (title : String) : Memory :=
  { Memory.blank ⟨.fill 16 1⟩ with
    title := title
    visibility := visibility
    context := ⟨0, none, none, some "acme", none, some "bob", []⟩ }

/-- Somebody else of the tenant. -/
def feedReader : VisibilityContext := ⟨"ada", "acme", [], [], .org⟩

/-- A store of one private plan. -/
def planStore (title : String) : InMemoryStorage :=
  Call.runAll .blank .new [(0, .upsertMemory (feedNote .private title))]

/-- The event of a memory, as the node publishes it. -/
def noteEnvelope : InvalidationEnvelope WireKind :=
  quietNode.envelope (.memoryUpserted ⟨.fill 16 1⟩ 1)

def noteKey : HydrationKey := ⟨1, 1, hex (.fill 16 1)⟩

/-- Stores of which a caller sees nothing have one view. -/
theorem sameView_of_hidden {left right : InMemoryStorage} (leftKeyed : Keyed left.rows)
    (rightKeyed : Keyed right.rows) {vc : VisibilityContext}
    (leftHidden : ∀ memory ∈ left.streamAllMemories, memoryVisible memory vc = false)
    (rightHidden : ∀ memory ∈ right.streamAllMemories, memoryVisible memory vc = false)
    (leftEdges : left.streamAllRelationships = [])
    (rightEdges : right.streamAllRelationships = []) :
    Graph.SameView vc (left.graph leftKeyed) (right.graph rightKeyed) := by
  have noMemory {s : InMemoryStorage} (keyed : Keyed s.rows)
      (hidden : ∀ memory ∈ s.streamAllMemories, memoryVisible memory vc = false) (id : MemoryId) :
      (s.graph keyed).seesMemory vc id = none := by
    refine Option.filter_eq_none_iff.mpr fun memory current => ?_
    rw [hidden memory (mem_streamAllMemories.mpr ⟨id, current⟩)]
    exact Bool.false_ne_true
  have noEdge {s : InMemoryStorage} (keyed : Keyed s.rows) (edges : s.streamAllRelationships = [])
      (id : RelationshipId) : (s.graph keyed).seesRelationship vc id = none := by
    refine Option.filter_eq_none_iff.mpr fun edge current => ?_
    have listed : edge ∈ s.streamAllRelationships := mem_streamAllRelationships.mpr ⟨id, current⟩
    rw [edges] at listed
    cases listed
  exact ⟨fun id => (noMemory leftKeyed leftHidden id).trans
    (noMemory rightKeyed rightHidden id).symm,
    fun id => (noEdge leftKeyed leftEdges id).trans (noEdge rightKeyed rightEdges id).symm⟩

theorem planStore_hides (title : String) (keyed : Keyed (planStore title).rows) :
    Hides (planStore title) keyed feedReader (.memory ⟨.fill 16 1⟩) := rfl

theorem empty_exposes_nothing (vc : VisibilityContext) (key : HydrationKey) (row : EventRow) :
    ¬ SharedEventHydration.empty.Exposes vc key row := by
  rintro ⟨event, found, -⟩
  cases found

/-- A colleague is told the same of one plan and of another. -/
theorem subscriberNoninterference_iff_plans :
    TellsNothing quietNode feedReader 0 1 (planStore "hire").asStored (planStore "fire").asStored
      .empty .empty noteEnvelope 1 :=
  (subscriberNoninterference_iff quietNode feedReader 0 1 (runAll_keyed _ _) (runAll_keyed _ _)
    (sameView_of_hidden _ _ (by decide +kernel) (by decide +kernel) rfl rfl) _ _ .empty .empty
    noteEnvelope 1 (.memoryUpserted (hex (.fill 16 1)) []) rfl noteKey (.memory ⟨.fill 16 1⟩)
    (by decide +kernel) (planStore_hides "hire" _) (planStore_hides "fire" _)).mpr
      ⟨empty_exposes_nothing _ _ _, empty_exposes_nothing _ _ _⟩

/-! ## A note that is withdrawn -/

/-- A note that was shown to the tenant, and then withdrawn by its author. -/
def sharedStore : InMemoryStorage := Call.runAll .blank .new [(0, .upsertMemory (feedNote .org ""))]

def withdrawnStore : InMemoryStorage :=
  Call.runAll .blank .new [(0, .upsertMemory (feedNote .org "")),
    (1, .upsertMemory (feedNote .private ""))]

/-- What is remembered after the first event was told to a reader. -/
def warmHydration : SharedEventHydration :=
  (prepareForSubscriber quietNode sharedStore .empty noteEnvelope (some feedReader)).2

theorem warmHydration_exposes :
    warmHydration.Exposes feedReader noteKey (.memory ⟨.fill 16 1⟩) :=
  ⟨sharedStore.hydrated (.memory ⟨.fill 16 1⟩), by decide +kernel, by decide +kernel⟩

theorem withdrawnStore_hides (keyed : Keyed withdrawnStore.rows) :
    Hides withdrawnStore keyed feedReader (.memory ⟨.fill 16 1⟩) := by
  have hidden : (withdrawnStore.currentMemory ⟨.fill 16 1⟩).filter
      (memoryVisible · feedReader) = none := by decide +kernel
  exact hidden

/-- Whoever asks for the first event again is shown the withdrawn note. -/
theorem not_subscriberNoninterference :
    ¬ ∀ (node : ClusterNode) (vc : VisibilityContext) (now : DateTime) (frontier : ℕ)
      (left right : InMemoryStorage) (leftKeyed : Keyed left.rows) (rightKeyed : Keyed right.rows),
      Graph.SameView vc (left.graph leftKeyed) (right.graph rightKeyed) →
      ∀ (leftStreams : left.Streams) (rightStreams : right.Streams)
        (leftHydration rightHydration : SharedEventHydration)
        (env : InvalidationEnvelope WireKind) (lsn : UInt64) (kind : WireKind),
        env.inv = some ⟨some kind, lsn⟩ →
        ∀ (key : HydrationKey) (row : EventRow), node.json.event lsn kind = some (key, row) →
          Hides left leftKeyed vc row → Hides right rightKeyed vc row →
          TellsNothing node vc now frontier leftStreams rightStreams leftHydration rightHydration
            env lsn := by
  intro always
  have keyed : Keyed withdrawnStore.rows := runAll_keyed _ _
  have tells := always quietNode feedReader 0 2 withdrawnStore withdrawnStore keyed keyed
    ⟨fun _ => rfl, fun _ => rfl⟩ withdrawnStore.asStored withdrawnStore.asStored warmHydration
    warmHydration noteEnvelope 1 (.memoryUpserted (hex (.fill 16 1)) []) rfl noteKey
      (.memory ⟨.fill 16 1⟩)
    (by decide +kernel) (withdrawnStore_hides keyed) (withdrawnStore_hides keyed)
  exact (prepareForSubscriber_advance_iff rfl (by decide +kernel)
    (withdrawnStore_hides keyed)).mp tells.leftAdvance warmHydration_exposes

end Exocortex
