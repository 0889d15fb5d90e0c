import Exocortex.Storage.Cycles

/-!
# The journal a cycle keeps in process

`CycleJournal` is the journal a running Dreams cycle fills: preimages and created
rows before each batch, and the numbers of the rows a batch wrote once the batch is
acknowledged. The notes taken before a batch never touch what the journal owns
(`noteAll_owned`); only an acknowledgement adds to it (`recordCommit_owned`).

`recoverActiveCycle` and `finishCycle` are the two paths that roll a cycle back. The
first reads the durable journal, the second the one kept in process; both then
complete the durable journal.
-/

namespace Exocortex

open Library InMemoryStorage

/-- What the cycles of a region share: the store's environment, the region's lease
key, and the ontology compiled into the engine. -/
structure DreamsEngine where
  env : Env
  key : LeaseKey
  ontology : Ontology

/-- The companion of a relationship under the engine's ontology. -/
def DreamsEngine.inverse (engine : DreamsEngine) (rel : Relationship) : Option Relationship :=
  materializeInverse engine.ontology engine.env.blake3 rel

/-- The in-process journal of a cycle. -/
structure CycleJournal where
  cycleId : String
  memories : Table MemoryId Memory
  relationships : Table RelationshipId Relationship
  createdMemories : Table MemoryId Memory
  createdRelationships : Table RelationshipId Relationship
  ownedMemoryLsns : LsnMap MemoryId
  ownedRelationshipLsns : LsnMap RelationshipId

/-- One entry in a cycle's journal, made before a batch. -/
inductive JournalNote where
  | recordMemory (memory : Memory)
  | recordRelationship (relationship : Relationship)
  | createRelationship (relationship : Relationship)
  | createMemory (memory : Memory)
  | prepareRelationshipWrites (writes : List Relationship)
      (current : Table RelationshipId Relationship)

namespace CycleJournal

def new (cycleId : String) : CycleJournal := ⟨cycleId, ∅, ∅, ∅, ∅, ∅, ∅⟩

/-- The first row of an identity stays. -/
def orInsert {K V : Type} [DecidableEq K] (rows : Table K V) (id : K) (row : V) : Table K V :=
  if id ∈ rows then rows else rows.insert id row

def recordMemory (journal : CycleJournal) (memory : Memory) : CycleJournal :=
  if memory.id ∈ journal.createdMemories then journal
  else { journal with memories := orInsert journal.memories memory.id memory }

def recordRelationship (journal : CycleJournal) (relationship : Relationship) : CycleJournal :=
  if relationship.id ∈ journal.createdRelationships then journal
  else { journal with
    relationships := orInsert journal.relationships relationship.id relationship }

def createRelationship (journal : CycleJournal) (relationship : Relationship) : CycleJournal :=
  if relationship.id ∈ journal.relationships then journal
  else { journal with
    createdRelationships := orInsert journal.createdRelationships relationship.id relationship }

def createMemory (journal : CycleJournal) (memory : Memory) : CycleJournal :=
  if memory.id ∈ journal.memories then journal
  else { journal with
    createdMemories := orInsert journal.createdMemories memory.id memory }

def prepareRelationship (current : Table RelationshipId Relationship) (journal : CycleJournal)
    (relationship : Relationship) : CycleJournal :=
  match current.lookup relationship.id with
  | some preimage => journal.recordRelationship preimage
  | none => journal.createRelationship relationship

/-- Prepare the writes of a batch, each with its companion when the companion is
not itself in the batch. `inverse` is the companion under the engine's own
ontology. -/
def prepareRelationshipWrites (inverse : Relationship → Option Relationship)
    (journal : CycleJournal) (writes : List Relationship)
    (current : Table RelationshipId Relationship) : CycleJournal :=
  (writes.foldl (fun (acc : CycleJournal × Finset RelationshipId) relationship =>
    let journal := acc.1.prepareRelationship current relationship
    match inverse relationship with
    | none => (journal, acc.2)
    | some companion =>
        if companion.id ∈ acc.2 then (journal, acc.2)
        else (journal.prepareRelationship current companion, insert companion.id acc.2))
    (journal, (writes.map (·.id)).toFinset)).1

def recordCommit (journal : CycleJournal) (commit : FencedBatchCommit) : CycleJournal :=
  { journal with
    ownedMemoryLsns := journal.ownedMemoryLsns.extendAll commit.memoryLsns
    ownedRelationshipLsns := journal.ownedRelationshipLsns.extendAll commit.relationshipLsns }

/-- The rollback material, each map in identity order. -/
def restore (journal : CycleJournal) : FencedRestore where
  memories := (journal.memories.sortedEntries fun l r => l.raw.le r.raw).map (·.2)
  relationships := (journal.relationships.sortedEntries fun l r => l.raw.le r.raw).map (·.2)
  createdMemories := (journal.createdMemories.sortedEntries fun l r => l.raw.le r.raw).map (·.2)
  createdRelationships :=
    (journal.createdRelationships.sortedEntries fun l r => l.raw.le r.raw).map (·.2)
  ownedMemoryLsns := journal.ownedMemoryLsns
  ownedRelationshipLsns := journal.ownedRelationshipLsns

def isEmpty (journal : CycleJournal) : Bool :=
  journal.ownedMemoryLsns.entries.isEmpty && journal.ownedRelationshipLsns.entries.isEmpty

def note (inverse : Relationship → Option Relationship) (journal : CycleJournal) :
    JournalNote → CycleJournal
  | .recordMemory memory => journal.recordMemory memory
  | .recordRelationship relationship => journal.recordRelationship relationship
  | .createRelationship relationship => journal.createRelationship relationship
  | .createMemory memory => journal.createMemory memory
  | .prepareRelationshipWrites writes current =>
      journal.prepareRelationshipWrites inverse writes current

/-- The notes taken before a batch. -/
def noteAll (inverse : Relationship → Option Relationship) (journal : CycleJournal)
    (notes : List JournalNote) : CycleJournal :=
  notes.foldl (note inverse) journal

/-! ## What a journal owns -/

/-- The numbers a journal owns of a row. -/
def owned (journal : CycleJournal) : RowId → Finset ℕ := journal.restore.owned

/-- Two journals of one cycle that own the same versions. -/
structure SameOwner (journal other : CycleJournal) : Prop where
  cycleId : other.cycleId = journal.cycleId
  memories : other.ownedMemoryLsns = journal.ownedMemoryLsns
  relationships : other.ownedRelationshipLsns = journal.ownedRelationshipLsns

namespace SameOwner

variable {first second third : CycleJournal}

theorem refl (journal : CycleJournal) : SameOwner journal journal := ⟨rfl, rfl, rfl⟩

theorem trans (left : SameOwner first second) (right : SameOwner second third) :
    SameOwner first third :=
  ⟨right.cycleId.trans left.cycleId, right.memories.trans left.memories,
    right.relationships.trans left.relationships⟩

theorem owned (same : SameOwner first second) : second.owned = first.owned := by
  funext row
  cases row with
  | memory id => exact congrArg (Table.members · id) same.memories
  | relationship id => exact congrArg (Table.members · id) same.relationships

theorem isEmpty (same : SameOwner first second) : second.isEmpty = first.isEmpty := by
  rw [CycleJournal.isEmpty, same.memories, same.relationships, CycleJournal.isEmpty]

end SameOwner

theorem recordRelationship_same (journal : CycleJournal) (relationship : Relationship) :
    SameOwner journal (journal.recordRelationship relationship) := by
  unfold recordRelationship
  split <;> exact ⟨rfl, rfl, rfl⟩

theorem createRelationship_same (journal : CycleJournal) (relationship : Relationship) :
    SameOwner journal (journal.createRelationship relationship) := by
  unfold createRelationship
  split <;> exact ⟨rfl, rfl, rfl⟩

theorem prepareRelationship_same (current : Table RelationshipId Relationship)
    (journal : CycleJournal) (relationship : Relationship) :
    SameOwner journal (journal.prepareRelationship current relationship) := by
  unfold prepareRelationship
  split
  · exact recordRelationship_same journal _
  · exact createRelationship_same journal _

theorem prepareRelationshipWrites_same (inverse : Relationship → Option Relationship)
    (journal : CycleJournal) (writes : List Relationship)
    (current : Table RelationshipId Relationship) :
    SameOwner journal (journal.prepareRelationshipWrites inverse writes current) := by
  refine List.foldlRecOn
    (motive := fun acc : CycleJournal × Finset RelationshipId => SameOwner journal acc.1)
    writes _ (.refl journal) ?_
  intro acc same relationship _
  have prepared := same.trans (prepareRelationship_same current acc.1 relationship)
  dsimp only
  split
  · exact prepared
  · split
    · exact prepared
    · exact prepared.trans (prepareRelationship_same current _ _)

theorem noteAll_same (inverse : Relationship → Option Relationship) (journal : CycleJournal)
    (notes : List JournalNote) : SameOwner journal (journal.noteAll inverse notes) := by
  apply List.foldlRecOn notes _ (.refl journal)
  intro kept same entry _
  apply same.trans
  cases entry with
  | recordMemory memory =>
      simp only [note, recordMemory]
      split <;> exact ⟨rfl, rfl, rfl⟩
  | recordRelationship relationship => exact recordRelationship_same kept relationship
  | createRelationship relationship => exact createRelationship_same kept relationship
  | createMemory memory =>
      simp only [note, createMemory]
      split <;> exact ⟨rfl, rfl, rfl⟩
  | prepareRelationshipWrites writes current =>
      exact prepareRelationshipWrites_same inverse kept writes current

@[simp] theorem owned_new (cycleId : String) (row : RowId) : (new cycleId).owned row = ∅ := by
  cases row with
  | memory id => exact Table.members_empty id
  | relationship id => exact Table.members_empty id

theorem owned_recordCommit (journal : CycleJournal) (commit : FencedBatchCommit) (row : RowId) :
    (journal.recordCommit commit).owned row = journal.owned row ∪ commit.lsnsOf row := by
  cases row with
  | memory id => exact Table.members_extendAll _ _ id
  | relationship id => exact Table.members_extendAll _ _ id

end CycleJournal

/-! ## The two paths that roll a cycle back -/

/-- Roll the active cycle of a key back from its durable journal. The instants are
those of its two fenced calls. -/
def recoverActiveCycle (env : Env) (key : LeaseKey) (lease : OwnerLease) (restoreAt completeAt :
    DateTime) (s : InMemoryStorage) : Except StorageError Unit × InMemoryStorage :=
  match s.getActiveCycleJournal key with
  | none => (.ok (), s)
  | some active =>
      match Call.run env restoreAt s (.restoreFenced active.restore lease) with
      | (.error error, s) => (.error error, s)
      | (.ok _, s) =>
          match Call.run env completeAt s (.completeCycleJournalFenced active.cycleId lease) with
          | (.error error, s) => (.error error, s)
          | (.ok _, s) => (.ok (), s)

/-- The failure path of a cycle: a cycle that wrote nothing has nothing to undo;
otherwise the journal kept in process is rolled back and the durable one completed.
The reply says whether this went through; the cycle's own error is returned either
way. -/
def finishCycle (env : Env) (journal : CycleJournal) (lease : OwnerLease) (restoreAt completeAt :
    DateTime) (s : InMemoryStorage) : Except StorageError Unit × InMemoryStorage :=
  if journal.isEmpty then (.ok (), s)
  else
    match Call.run env restoreAt s (.restoreFenced journal.restore lease) with
    | (.error error, s) => (.error error, s)
    | (.ok _, s) =>
        match Call.run env completeAt s (.completeCycleJournalFenced journal.cycleId lease) with
        | (.error error, s) => (.error error, s)
        | (.ok _, s) => (.ok (), s)

end Exocortex
