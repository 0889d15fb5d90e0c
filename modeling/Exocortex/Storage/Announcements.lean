import Exocortex.Storage.LsnOrder

/-!
# What the events of a call say

A call publishes an event for every row it changes. `Announced` is what a reader of the feed
can rely on: the events of memories come before those of relationships, a row that no event
names has the current version it had, and a row that an event removes has no open version. A
call other than a rollback writes the row of an event under the number of the event.

The events themselves carry identities only, so a reader looks the rows up. Rows are stored
under their own identity (`Keyed`), which every call keeps.

`gated_announces` is this for every call. Batches are folds over one step (`Announced.push`), and
so is a rollback (`Rewound.memory`, `Rewound.relationship`).
-/

namespace Exocortex

open Library

/-- The identity a version carries. -/
def Row.rowId : Row → RowId
  | .memory version => .memory version.id
  | .relationship version => .relationship version.id

/-- When a version ends. -/
def Row.validUntil : Row → Option DateTime
  | .memory version => version.validUntil
  | .relationship version => version.validUntil

variable {event : Invalidation} {row : RowId}

namespace Invalidation

/-- The row an event says was written. -/
def writes : Invalidation → Option RowId
  | .memoryUpserted id _ => some (.memory id)
  | .relationshipUpserted id _ _ _ _ | .relationshipDeleted id _ => some (.relationship id)
  | _ => none

/-- The row an event says has gone. -/
def removes : Invalidation → Option RowId
  | .memoryDeleted id _ => some (.memory id)
  | .relationshipDeleted id _ => some (.relationship id)
  | _ => none

/-- The row an event is about. -/
def names : Invalidation → Option RowId
  | .memoryUpserted id _ | .memoryDeleted id _ => some (.memory id)
  | .relationshipUpserted id _ _ _ _ | .relationshipDeleted id _ => some (.relationship id)
  | _ => none

theorem names_of_writes (written : event.writes = some row) : event.names = some row := by
  cases event <;> cases written <;> rfl

theorem names_of_removes (gone : event.removes = some row) : event.names = some row := by
  cases event <;> cases gone <;> rfl

/-- The event is about a memory. -/
def OfMemory (event : Invalidation) : Prop := ∃ id, event.names = some (.memory id)

/-- The event is about a relationship. -/
def OfRelationship (event : Invalidation) : Prop := ∃ id, event.names = some (.relationship id)

/-- The event is of a sort that a store publishes. -/
def Stored : Invalidation → Prop
  | .memoryUpserted .. | .memoryDeleted .. | .relationshipUpserted .. | .relationshipDeleted ..
  | .discoveryAvailable .. => True
  | _ => False

end Invalidation

namespace InMemoryStorage

/-- Every version is stored under the identity it carries. -/
def Keyed (rows : RowId → List Row) : Prop := ∀ row, ∀ version ∈ rows row, version.rowId = row

/-- The events of memories come before those of relationships. -/
def MemoriesFirst (events : List Invalidation) : Prop :=
  ∃ front back, events = front ++ back ∧ (∀ event ∈ front, ¬ event.OfRelationship) ∧
    ∀ event ∈ back, ¬ event.OfMemory

/-- What the events of a change say about the rows. -/
structure Announced (fresh : Prop) (old new : RowId → List Row) (events : List Invalidation) :
    Prop where
  memories_first : MemoriesFirst events
  stored : ∀ event ∈ events, event.Stored
  unnamed : ∀ row, (∀ event ∈ events, event.names ≠ some row) →
    (new row).getLast? = (old row).getLast?
  removed : ∀ event ∈ events, ∀ row, event.removes = some row →
    ∀ version, (new row).getLast? = some version → version.validUntil ≠ none
  keyed : Keyed old → Keyed new
  stamps : fresh → ∀ event ∈ events, ∀ row, event.writes = some row →
    ∃ version ∈ new row, version.lsn = event.lsnOf

variable {fresh : Prop} {old new later : RowId → List Row} {events : List Invalidation}
  {s : InMemoryStorage} {now : DateTime}

theorem MemoriesFirst.nil : MemoriesFirst [] :=
  ⟨[], [], rfl, fun _ member => absurd member List.not_mem_nil,
    fun _ member => absurd member List.not_mem_nil⟩

theorem MemoriesFirst.single (event : Invalidation) : MemoriesFirst [event] := by
  by_cases memory : event.OfMemory
  · refine ⟨[event], [], rfl, ?_, fun _ member => absurd member List.not_mem_nil⟩
    intro other member
    obtain rfl := List.mem_singleton.mp member
    rintro ⟨rel, named⟩
    obtain ⟨id, also⟩ := memory
    rw [named] at also
    cases also
  · refine ⟨[], [event], rfl, fun _ member => absurd member List.not_mem_nil, ?_⟩
    intro other member
    obtain rfl := List.mem_singleton.mp member
    exact memory

/-- An event that is not about a memory may come at any time. -/
theorem MemoriesFirst.snoc (first : MemoriesFirst events) (rel : ¬ event.OfMemory) :
    MemoriesFirst (events ++ [event]) := by
  obtain ⟨front, back, rfl, noRels, noMemories⟩ := first
  refine ⟨front, back ++ [event], List.append_assoc _ _ _, noRels, ?_⟩
  intro other member
  rcases List.mem_append.mp member with inside | last
  · exact noMemories other inside
  · obtain rfl := List.mem_singleton.mp last
    exact rel

theorem MemoriesFirst.of_no_relationship (none : ∀ event ∈ events, ¬ event.OfRelationship) :
    MemoriesFirst events :=
  ⟨events, [], (List.append_nil _).symm, none, fun _ member => absurd member List.not_mem_nil⟩

namespace Announced

theorem refl (rows : RowId → List Row) : Announced fresh rows rows [] where
  memories_first := .nil
  stored _ member := absurd member List.not_mem_nil
  unnamed _ _ := rfl
  removed _ member := absurd member List.not_mem_nil
  keyed := id
  stamps _ _ member := absurd member List.not_mem_nil

/-- Events that say nothing about rows, over rows that stay. -/
theorem of_unnamed (rows : RowId → List Row)
    (silent : ∀ event ∈ events, event.names = none ∧ event.Stored) :
    Announced fresh rows rows events where
  memories_first := .of_no_relationship fun event member => by
    rintro ⟨id, named⟩
    rw [(silent event member).1] at named
    cases named
  stored event member := (silent event member).2
  unnamed _ _ := rfl
  removed event member row gone := by
    have named := Invalidation.names_of_removes gone
    rw [(silent event member).1] at named
    cases named
  keyed := id
  stamps _ event member row written := by
    have named := Invalidation.names_of_writes written
    rw [(silent event member).1] at named
    cases named

/-- One more version, with the event that names it. Nothing was removed before. -/
theorem push (announced : Announced fresh old new events) {version : Row}
    (shape : ∀ other, later other = new other ++ if other = row then [version] else [])
    (names : event.names = some row) (stored : event.Stored)
    (closes : event.removes = none ∨ version.validUntil ≠ none)
    (kept : ∀ earlier ∈ events, earlier.removes = none)
    (first : MemoriesFirst (events ++ [event])) (key : Keyed new → version.rowId = row)
    (number : version.lsn = event.lsnOf) : Announced fresh old later (events ++ [event]) where
  memories_first := first
  stored other member := by
    rcases List.mem_append.mp member with early | last
    · exact announced.stored other early
    · obtain rfl := List.mem_singleton.mp last
      exact stored
  unnamed other free := by
    have apart : other ≠ row := by
      rintro rfl
      exact free event (by simp) names
    rw [shape, if_neg apart, List.append_nil]
    exact announced.unnamed other fun earlier member => free earlier (List.mem_append_left _ member)
  removed earlier member other gone current found := by
    rcases List.mem_append.mp member with early | last
    · rw [kept earlier early] at gone
      cases gone
    · obtain rfl := List.mem_singleton.mp last
      have same : other = row :=
        Option.some.inj ((Invalidation.names_of_removes gone).symm.trans names)
      rw [shape, if_pos same, List.getLast?_append, List.getLast?_singleton,
        Option.some_or, Option.some.injEq] at found
      subst found
      rcases closes with none | closed
      · rw [none] at gone
        cases gone
      · exact closed
  keyed keyedOld other found member := by
    have before := announced.keyed keyedOld
    rw [shape, List.mem_append] at member
    rcases member with inside | last
    · exact before other found inside
    · split at last
      · next same =>
          obtain rfl := List.mem_singleton.mp last
          rw [same]
          exact key before
      · cases last
  stamps isFresh earlier member other written := by
    rcases List.mem_append.mp member with early | last
    · obtain ⟨found, inside, stamp⟩ := announced.stamps isFresh earlier early other written
      exact ⟨found, by rw [shape]; exact List.mem_append_left _ inside, stamp⟩
    · obtain rfl := List.mem_singleton.mp last
      have same : other = row :=
        Option.some.inj ((Invalidation.names_of_writes written).symm.trans names)
      exact ⟨version, by rw [shape, if_pos same]; simp, number⟩

/-- A version that closes a row goes with its event. -/
theorem close {version : Row}
    (shape : ∀ other, later other = old other ++ if other = row then [version] else [])
    (names : event.names = some row) (stored : event.Stored) (closed : version.validUntil ≠ none)
    (key : Keyed old → version.rowId = row) (number : version.lsn = event.lsnOf) :
    Announced fresh old later [event] :=
  (refl old).push shape names stored (.inr closed) (fun _ member => absurd member List.not_mem_nil)
    (.single event) key number

end Announced

/-! ## Batches -/

/-- A batch under way: its events are upserts and say what it wrote. -/
structure Upserting (fresh : Prop) (s : InMemoryStorage) (staged : Staged) : Prop where
  announced : Announced fresh s.rows (rowsOf staged.memories staged.rels) staged.invalidations
  upserts : ∀ event ∈ staged.invalidations, event.removes = none

namespace Upserting

variable {s : InMemoryStorage} {staged : Staged}

theorem start (s : InMemoryStorage) (seen : Finset RelationshipId) :
    Upserting fresh s ⟨s.memories, s.rels, s.lsn, seen, [], []⟩ :=
  ⟨.refl s.rows, fun _ member => absurd member List.not_mem_nil⟩

section Upserting

variable (upserting : Upserting fresh s staged)
include upserting

theorem upserts_snoc (upsert : event.removes = none) :
    ∀ other ∈ staged.invalidations ++ [event], other.removes = none := by
  intro other member
  rcases List.mem_append.mp member with early | last
  · exact upserting.upserts other early
  · obtain rfl := List.mem_singleton.mp last
    exact upsert

theorem stageMemory (now : DateTime) (m : Memory)
    (first : MemoriesFirst (staged.invalidations ++ [.memoryUpserted m.id (staged.next + 1)])) :
    Upserting fresh s (stageMemory now staged m) :=
  ⟨upserting.announced.push (rows_push_memory _ _ _ _) rfl trivial (.inl rfl) upserting.upserts
    first (fun _ => rfl) rfl, upserting.upserts_snoc rfl⟩

theorem stageRow (now : DateTime) (r : Relationship) :
    Upserting fresh s (stageRow now staged r) := by
  have rel : ¬ (Invalidation.relationshipUpserted r.id r.source r.target r.kind
      (staged.next + 1)).OfMemory := by
    rintro ⟨id, named⟩
    cases named
  exact ⟨upserting.announced.push (rows_push_relationship _ _ _ _) rfl trivial (.inl rfl)
    upserting.upserts (upserting.announced.memories_first.snoc rel) (fun _ => rfl) rfl,
    upserting.upserts_snoc rfl⟩

theorem seen (identities : Finset RelationshipId) :
    Upserting fresh s { staged with seenRelationships := identities } :=
  ⟨upserting.announced, upserting.upserts⟩

theorem stageRelationship (env : Env) (now : DateTime) (r : Relationship) :
    Upserting fresh s (stageRelationship env now staged r) := by
  have written := upserting.stageRow now r
  unfold InMemoryStorage.stageRelationship
  dsimp only
  split
  · exact written
  · split
    · exact written
    · exact (written.seen _).stageRow now _

end Upserting

/-- The memories of a batch come first. -/
theorem stageMemories (ms : List Memory) (seen : Finset RelationshipId) :
    Upserting fresh s (ms.foldl (InMemoryStorage.stageMemory now)
      ⟨s.memories, s.rels, s.lsn, seen, [], []⟩) := by
  refine (List.foldlRecOn (motive := fun staged => Upserting fresh s staged ∧
    ∀ event ∈ staged.invalidations, ¬ event.OfRelationship) ms _
      ⟨start s seen, fun _ member => absurd member List.not_mem_nil⟩ ?_).1
  rintro staged ⟨upserting, none⟩ m -
  have noRels : ∀ event ∈ staged.invalidations ++ [.memoryUpserted m.id (staged.next + 1)],
      ¬ event.OfRelationship := by
    intro event member
    rcases List.mem_append.mp member with early | last
    · exact none event early
    · obtain rfl := List.mem_singleton.mp last
      rintro ⟨id, named⟩
      cases named
  exact ⟨upserting.stageMemory now m (.of_no_relationship noRels), noRels⟩

end Upserting

theorem stageBatch_upserting (env : Env) (ms : List Memory) (rs : List Relationship)
    (now : DateTime) (s : InMemoryStorage) : Upserting fresh s (s.stageBatch env ms rs now) := by
  unfold stageBatch
  refine List.foldlRecOn rs _ (.stageMemories ms _) ?_
  intro staged upserting r _
  exact upserting.stageRelationship env now r

theorem stageAcceptance_upserting (env : Env) (relationship : Relationship) (now : DateTime)
    (s : InMemoryStorage) : Upserting fresh s (s.stageAcceptance env relationship now) := by
  have written : Upserting fresh s (stageRow now ⟨s.memories, s.rels, s.lsn, ∅, [], []⟩
      relationship) := (Upserting.start s ∅).stageRow now relationship
  unfold stageAcceptance
  dsimp only
  split
  · exact written
  · exact written.stageRow now _

/-! ## Rollbacks -/

/-- A rollback under way: its events name the rows that lost versions, and a row that an event
removes has none left. -/
structure Rewound (s : InMemoryStorage) (acc : Restoring) : Prop where
  announced : Announced False s.rows acc.rows acc.invalidations
  gone : ∀ event ∈ acc.invalidations, ∀ row, event.removes = some row → acc.rows row = []

namespace Rewound

variable {s : InMemoryStorage} {acc rewinding : Restoring}

/-- One row loses versions, and an event says so. -/
theorem shrink (rewound : Rewound s acc)
    (events : rewinding.invalidations = acc.invalidations ++ [event])
    (names : event.names = some row) (stored : event.Stored)
    (first : MemoriesFirst (acc.invalidations ++ [event]))
    (sub : ∀ other, (rewinding.rows other).Sublist (acc.rows other))
    (others : ∀ other, other ≠ row → rewinding.rows other = acc.rows other)
    (empty : event.removes = some row → rewinding.rows row = []) : Rewound s rewinding := by
  have gone : ∀ event ∈ rewinding.invalidations, ∀ row, event.removes = some row →
      rewinding.rows row = [] := by
    intro earlier member other removes
    rw [events, List.mem_append, List.mem_singleton] at member
    rcases member with early | rfl
    · have before := sub other
      rw [rewound.gone earlier early other removes] at before
      exact List.sublist_nil.mp before
    · have same : other = row :=
        Option.some.inj ((Invalidation.names_of_removes removes).symm.trans names)
      rw [same]
      exact empty (same ▸ removes)
  refine ⟨⟨events ▸ first, ?_, ?_, ?_, ?_, False.elim⟩, gone⟩
  · intro earlier member
    rw [events, List.mem_append, List.mem_singleton] at member
    rcases member with early | rfl
    · exact rewound.announced.stored earlier early
    · exact stored
  · intro other free
    rw [events] at free
    have apart : other ≠ row := by
      rintro rfl
      exact free event (by simp) names
    rw [others other apart]
    exact rewound.announced.unnamed other fun earlier member =>
      free earlier (List.mem_append_left _ member)
  · intro earlier member other removes version found
    rw [gone earlier member other removes] at found
    cases found
  · intro keyed other version member
    exact rewound.announced.keyed keyed other version ((sub other).subset member)

end Rewound

/-- What one entry of the memory map does to the events. -/
theorem restoreMemory_events (now : DateTime) (acc : Restoring)
    (entry : Sigma fun _ : MemoryId => Finset ℕ) :
    restoreMemory now acc entry = acc ∨ ∃ event,
      (restoreMemory now acc entry).invalidations = acc.invalidations ++ [event] ∧
      event.names = some (.memory entry.1) ∧ event.Stored ∧
      (event.removes = some (.memory entry.1) →
        (restoreMemory now acc entry).rows (.memory entry.1) = []) := by
  unfold restoreMemory
  split
  · exact .inl rfl
  · dsimp only
    split
    · exact .inl rfl
    · split
      · refine .inr ⟨_, rfl, rfl, trivial, fun _ => ?_⟩
        simp [Restoring.rows, rowsOf, Table.history_erase]
      · exact .inr ⟨_, rfl, rfl, trivial, fun removes => by cases removes⟩

/-- What one entry of the relationship map does to the events. -/
theorem restoreRelationship_events (now : DateTime) (acc : Restoring)
    (entry : Sigma fun _ : RelationshipId => Finset ℕ) :
    restoreRelationship now acc entry = acc ∨ ∃ event,
      (restoreRelationship now acc entry).invalidations = acc.invalidations ++ [event] ∧
      event.names = some (.relationship entry.1) ∧ event.Stored ∧
      (event.removes = some (.relationship entry.1) →
        (restoreRelationship now acc entry).rows (.relationship entry.1) = []) := by
  unfold restoreRelationship
  split
  · exact .inl rfl
  · dsimp only
    split
    · exact .inl rfl
    · split
      · exact .inr ⟨_, rfl, rfl, trivial, fun removes => by cases removes⟩
      · refine .inr ⟨_, rfl, rfl, trivial, fun _ => ?_⟩
        simp [Restoring.rows, rowsOf, Table.history_erase]

/-- The events of the memory map are about memories. -/
theorem restoreMemories_rewound (entries : List (Sigma fun _ : MemoryId => Finset ℕ)) :
    Rewound s (entries.foldl (restoreMemory now) ⟨s.memories, s.rels, s.lsn, [], []⟩) := by
  have start : Rewound s ⟨s.memories, s.rels, s.lsn, [], []⟩ :=
    ⟨.refl s.rows, fun _ member => absurd member List.not_mem_nil⟩
  refine (List.foldlRecOn (motive := fun acc => Rewound s acc ∧
    ∀ event ∈ acc.invalidations, ¬ event.OfRelationship) entries _
      ⟨start, fun _ member => absurd member List.not_mem_nil⟩ ?_).1
  rintro acc ⟨rewound, none⟩ entry -
  have rows (row : RowId) : (restoreMemory now acc entry).rows row = _ :=
    restoreMemory_rows row acc entry
  rcases restoreMemory_events now acc entry with same | ⟨event, events, names, stored, empty⟩
  · rw [same]
    exact ⟨rewound, none⟩
  · have noRels : ∀ other ∈ acc.invalidations ++ [event], ¬ other.OfRelationship := by
      intro other member
      rcases List.mem_append.mp member with early | last
      · exact none other early
      · obtain rfl := List.mem_singleton.mp last
        rintro ⟨id, named⟩
        rw [names] at named
        cases named
    refine ⟨rewound.shrink events names stored (.of_no_relationship noRels) ?_ ?_ empty,
      events ▸ noRels⟩
    · intro other
      rw [rows]
      exact List.filter_sublist
    · intro other apart
      rw [rows]
      exact List.filter_eq_self.mpr fun version _ => decide_eq_true fun same => absurd same apart

theorem restoreAll_rewound (restore : FencedRestore) (now : DateTime) (s : InMemoryStorage) :
    Rewound s (s.restoreAll restore now) := by
  refine List.foldlRecOn _ _ (restoreMemories_rewound _) ?_
  intro acc rewound entry _
  have rows (row : RowId) : (restoreRelationship now acc entry).rows row = _ :=
    restoreRelationship_rows row acc entry
  rcases restoreRelationship_events now acc entry with same | ⟨event, events, names, stored, empty⟩
  · rw [same]
    exact rewound
  · have rel : ¬ event.OfMemory := by
      rintro ⟨id, named⟩
      rw [names] at named
      cases named
    refine rewound.shrink events names stored (rewound.announced.memories_first.snoc rel) ?_ ?_
      empty
    · intro other
      rw [rows]
      exact List.filter_sublist
    · intro other apart
      rw [rows]
      exact List.filter_eq_self.mpr fun version _ => decide_eq_true fun same => absurd same apart

/-! ## Calls -/

/-- The events a section sends and leaves pending say what it did. -/
def Announces {α : Type} (fresh : Prop) (s : InMemoryStorage) (o : Outcome α) : Prop :=
  ∃ sent, o.post.feed = s.feed ++ sent ∧ Announced fresh s.rows o.post.rows (sent ++ o.pending)

variable {α : Type} {s t : InMemoryStorage} {reply : Except StorageError α}

variable {o : Outcome α}

namespace Announces

theorem after (feed : t.feed = s.feed) (announced : Announced fresh s.rows t.rows events) :
    Announces fresh s ⟨reply, events, t⟩ :=
  ⟨[], by rw [feed, List.append_nil], announced⟩

theorem inside {sent : List Invalidation} (feed : t.feed = s.feed ++ sent)
    (announced : Announced fresh s.rows t.rows sent) : Announces fresh s ⟨reply, [], t⟩ :=
  ⟨sent, feed, by rw [List.append_nil]; exact announced⟩

theorem idle (memories : t.memories = s.memories) (rels : t.rels = s.rels)
    (feed : t.feed = s.feed) : Announces fresh s ⟨reply, [], t⟩ := by
  refine after feed ?_
  rw [rows, rows, memories, rels]
  exact .refl _

theorem of_idle (idle : o.Idle s) : Announces fresh s o := by
  obtain ⟨reply, pending, post⟩ := o
  obtain ⟨rfl, memories, rels, -, feed, -⟩ := idle
  exact .idle memories rels feed

theorem fail (s : InMemoryStorage) (error : StorageError) :
    Announces fresh s (.fail s error : Outcome α) :=
  idle rfl rfl rfl

theorem fenced (announces : Announces fresh s o) (lease : OwnerLease) (now : DateTime) :
    Announces fresh s (s.fenced lease now o) := by
  by_cases current : s.leaseCurrent lease now
  · rw [fenced_current current]
    exact announces
  · rw [fenced_stale current]
    exact .fail s _

end Announces

theorem upsertMemory_announces (m : Memory) (now : DateTime) :
    Announces fresh s (s.upsertMemory m now) :=
  .inside rfl ((Announced.refl s.rows).push (rows_push_memory _ _ _ _) rfl trivial (.inl rfl)
    (fun _ member => absurd member List.not_mem_nil) (.single _) (fun _ => rfl) rfl)

theorem upsertRelationship_announces (env : Env) (r : Relationship) :
    Announces fresh s (s.upsertRelationship env r now) := by
  have written : Announced fresh s.rows (s.upsertRelationshipRowLocked r now).2.rows
      [.relationshipUpserted r.id r.source r.target r.kind (s.lsn + 1)] :=
    (Announced.refl s.rows).push (rows_push_relationship _ _ _ _) rfl trivial (.inl rfl)
      (fun _ member => absurd member List.not_mem_nil) (.single _) (fun _ => rfl) rfl
  unfold upsertRelationship
  dsimp only
  split
  · exact .inside rfl written
  · next inverse _ =>
      split
      · exact .inside rfl written
      · have rel : ¬ (Invalidation.relationshipUpserted inverse.id inverse.source inverse.target
            inverse.kind (s.lsn + 1 + 1)).OfMemory := by
          rintro ⟨id, named⟩
          cases named
        have upserts : ∀ event ∈ [Invalidation.relationshipUpserted r.id r.source r.target r.kind
            (s.lsn + 1)], event.removes = none := by
          intro event member
          obtain rfl := List.mem_singleton.mp member
          rfl
        have both : Announced fresh s.rows ((s.upsertRelationshipRowLocked r now).2
            |>.upsertRelationshipRowLocked inverse now).2.rows
            ([.relationshipUpserted r.id r.source r.target r.kind (s.lsn + 1)] ++
              [.relationshipUpserted inverse.id inverse.source inverse.target inverse.kind
                (s.lsn + 1 + 1)]) :=
          written.push (rows_push_relationship _ _ _ _) rfl trivial (.inl rfl) upserts
            (written.memories_first.snoc rel) (fun _ => rfl) rfl
        refine .inside ?_ both
        simp [upsertRelationshipRowLocked, send, indexRelationship]

theorem deleteMemory_announces (id : MemoryId) (now : DateTime) (s : InMemoryStorage) :
    Announces fresh s (s.deleteMemory id now) := by
  unfold deleteMemory deleteMemoryLocked
  cases found : (s.memories.history id).getLast? with
  | none =>
      -- There is nothing to close, and the event is published all the same.
      refine .after rfl ⟨.single _, ?_, fun _ _ => rfl, ?_, fun keyed => keyed, ?_⟩
      · intro event member
        obtain rfl := List.mem_singleton.mp member
        trivial
      · intro event member row gone version current
        obtain rfl := List.mem_singleton.mp member
        cases gone
        simp [rows, rowsOf, found] at current
      · intro _ event member row written
        obtain rfl := List.mem_singleton.mp member
        cases written
  | some last =>
      refine .after rfl (.close (rows_push_memory _ _ _ _) rfl trivial (by simp [Row.validUntil])
        ?_ rfl)
      intro keyed
      exact keyed (.memory id) (.memory last)
        (List.mem_map_of_mem (List.mem_of_getLast? found))

/-- The closed version of a relationship goes with its event. -/
theorem closeRelationship_announced {id : RelationshipId} {last : Relationship}
    (found : s.openRelationship id = some last) (memories : t.memories = s.memories)
    (rels : t.rels = s.rels.push id { last with
      validUntil := some now, recordedAt := now, lsn := LSN.newBackend (s.lsn + 1) }) :
    Announced fresh s.rows t.rows [.relationshipDeleted id (s.lsn + 1)] := by
  obtain ⟨current, -⟩ := Option.filter_eq_some_iff.mp found
  have shape (other : RowId) : t.rows other = s.rows other ++
      if other = .relationship id then [.relationship { last with
        validUntil := some now, recordedAt := now, lsn := LSN.newBackend (s.lsn + 1) }]
      else [] := by
    rw [rows, rows, memories, rels]
    exact rows_push_relationship _ _ _ _ _
  refine .close shape rfl trivial (by simp [Row.validUntil]) ?_ rfl
  intro keyed
  exact keyed (.relationship id) (.relationship last)
    (List.mem_map_of_mem (List.mem_of_getLast? current))

theorem deleteRelationship_announces (id : RelationshipId) :
    Announces fresh s (s.deleteRelationship id now) := by
  unfold deleteRelationship
  dsimp only
  split
  · exact .idle rfl rfl rfl
  · next last found => exact .inside rfl (closeRelationship_announced found rfl rfl)

theorem deleteRelationshipAudited_announces (id : RelationshipId) (audit : AuditEvent) :
    Announces fresh s (s.deleteRelationshipAudited id audit now) := by
  unfold deleteRelationshipAudited
  dsimp only
  split
  · exact .idle rfl rfl rfl
  · next last found => exact .inside rfl (closeRelationship_announced found rfl rfl)

theorem promoteMemoryVisibilityAudited_announces (memory : Memory) (audit : AuditEvent) :
    Announces fresh s (s.promoteMemoryVisibilityAudited memory audit now) := by
  unfold promoteMemoryVisibilityAudited
  split
  · exact .fail s _
  · split
    · exact .fail s _
    · exact .after rfl ((Announced.refl s.rows).push (rows_push_memory _ _ _ _) rfl trivial
        (.inl rfl) (fun _ member => absurd member List.not_mem_nil) (.single _) (fun _ => rfl) rfl)

variable {rs : List Relationship} {ms : List Memory}

theorem upsertBatchLocked_announced {env : Env} {records : List CommitRecord}
    (committed : s.upsertBatchLocked env ms rs now = .ok (records, events, t)) :
    Announced fresh s.rows (rowsOf t.memories t.rels) events := by
  unfold upsertBatchLocked at committed
  split at committed
  · cases committed
  · cases committed
    exact (stageBatch_upserting env ms rs now s).announced

theorem Stages.announces {env : Env} (stages : Stages env ms rs now s o) : Announces fresh s o := by
  rcases stages with idle | ⟨records, t, committed, -, memories, rels, -, feed, -⟩
  · exact .of_idle idle
  · have only := (upsertBatchLocked_spec committed).onlyRows
    refine .after (feed.trans (congrArg InMemoryStorage.feed only :)) ?_
    rw [rows, rows, memories, rels]
    exact upsertBatchLocked_announced committed

theorem Announces.of_discovers (discovers : o.Discovers s) : Announces fresh s o := by
  obtain ⟨memories, rels, -, feed, available⟩ := discovers
  refine .after feed ?_
  rw [rows, rows, memories, rels]
  refine .of_unnamed _ fun event member => ?_
  obtain ⟨record, lsn, rfl⟩ := available event member
  exact ⟨rfl, trivial⟩

theorem acceptDiscovery_announces (env : Env) (acceptance : DiscoveryAcceptance) :
    Announces fresh s (s.acceptDiscovery env acceptance now) := by
  have upserting : Upserting fresh s (s.stageAcceptance env acceptance.relationship now) :=
    stageAcceptance_upserting env acceptance.relationship now s
  have announced := upserting.announced
  have memories : (s.stageAcceptance env acceptance.relationship now).memories = s.memories := by
    unfold stageAcceptance
    dsimp only
    split <;> rfl
  rw [memories] at announced
  unfold acceptDiscovery
  split
  · exact .fail s _
  · split
    · exact .fail s _
    · split
      · exact .fail s _
      · exact .after rfl announced

theorem restoreFenced_announces (restore : FencedRestore) (lease : OwnerLease) (now : DateTime)
    (s : InMemoryStorage) : Announces False s (s.restoreFenced restore lease now) := by
  refine Announces.fenced ?_ lease now
  exact .after rfl (restoreAll_rewound restore now s).announced

end InMemoryStorage

namespace Call

open InMemoryStorage

/-- **Every call says what it did.** -/
theorem gated_announces (env : Env) (now : DateTime) (s : InMemoryStorage) (call : Call) :
    Announces (¬ call.IsRestore) s (call.gated env now s) := by
  by_cases aside : call.Aside
  · exact .of_idle (gated_idle env now s aside)
  by_cases about : call.OfDiscovery
  · exact .of_discovers (gated_discovers env now s about)
  by_cases batch : call.batch = none
  · cases call with
    | upsertMemory m => exact upsertMemory_announces m now
    | deleteMemory id => exact deleteMemory_announces id now s
    | upsertRelationship r => exact upsertRelationship_announces env r
    | deleteRelationship id => exact deleteRelationship_announces id
    | deleteRelationshipAudited id audit => exact deleteRelationshipAudited_announces id audit
    | promoteMemoryVisibilityAudited memory audit =>
        exact promoteMemoryVisibilityAudited_announces memory audit
    | acceptDiscovery acceptance => exact acceptDiscovery_announces env acceptance
    | deleteMemoryFenced id lease => exact (deleteMemory_announces id now s).fenced lease now
    | restoreFenced restore lease =>
        obtain ⟨sent, feed, announced⟩ := restoreFenced_announces restore lease now s
        exact ⟨sent, feed, announced.memories_first, announced.stored, announced.unnamed,
          announced.removed, announced.keyed, fun fresh => absurd trivial fresh⟩
    | _ => first | exact absurd trivial aside | exact absurd trivial about | cases batch
  · obtain ⟨⟨ms, rs⟩, batch⟩ := Option.ne_none_iff_exists'.mp batch
    exact (gated_stages env now s batch).announces

end Call

end Exocortex
