import Exocortex.Cache.Snapshot

/-!
# Publication under buffer reuse

A `GraphSlot` publishes one snapshot at a time. Readers take shared pointers to it and
may keep them for as long as they like. A publication replaces the snapshot by a
changed copy; to avoid the copy it reuses a retired snapshot that nobody points to any
more, after catching it up from a journal of the changes published since it was
retired.

The shared pointers are modelled as addresses into a heap, so that what a reader sees
through a pointer is a fact about the heap, and the strong count of a pointer is the
number of places that hold it (`SlotSystem.strongCount`).

Every snapshot in the slot is the image of a prefix of the changes published since the
last store, and the journal is a suffix of them that reaches back to the oldest
retired snapshot (`Publishes`). A reused snapshot is therefore caught up by exactly
the changes it misses.
-/

namespace Exocortex

open Library

/-- A snapshot that was replaced, and the generation it belonged to. -/
structure RetiredSnapshot where
  generation : ℕ
  snapshot : ℕ

/-- The change that made a generation. -/
structure SnapshotJournalEntry where
  generation : ℕ
  delta : List SnapshotDelta

/-- The published snapshot and the writer's reuse state. -/
structure GraphSlot where
  current : ℕ
  generation : ℕ
  retired : List RetiredSnapshot
  journal : List SnapshotJournalEntry

/-- A slot with the heap its pointers point into and the pointers its readers hold. -/
structure SlotSystem where
  arcs : Table ℕ GraphSnapshot
  nextArc : ℕ
  slot : GraphSlot
  readers : Table ℕ ℕ

namespace SlotSystem

/-- How many places hold a pointer: the slot, its retired list, and the readers. -/
def strongCount (sys : SlotSystem) (arc : ℕ) : ℕ :=
  (if sys.slot.current = arc then 1 else 0) + sys.slot.retired.countP (·.snapshot = arc) +
    sys.readers.values.count arc

/-- What a pointer points to. -/
def deref (sys : SlotSystem) (arc : ℕ) : GraphSnapshot := (sys.arcs.lookup arc).getD .empty

/-- `Arc::new`: the value at a fresh address, `nextArc`. -/
def alloc (sys : SlotSystem) (snapshot : GraphSnapshot) : SlotSystem :=
  { sys with arcs := sys.arcs.insert sys.nextArc snapshot, nextArc := sys.nextArc + 1 }

@[simp] theorem alloc_slot (sys : SlotSystem) (snapshot : GraphSnapshot) :
    (sys.alloc snapshot).slot = sys.slot := rfl

/-- A slot with a first snapshot and no readers. -/
def new (snapshot : GraphSnapshot) : SlotSystem where
  arcs := (∅ : Table ℕ GraphSnapshot).insert 0 snapshot
  nextArc := 1
  slot := ⟨0, 0, [], []⟩
  readers := ∅

/-! ## Readers -/

/-- A reader takes a pointer to the published snapshot. -/
def loadFull (sys : SlotSystem) (reader : ℕ) : SlotSystem :=
  { sys with readers := sys.readers.insert reader sys.slot.current }

/-- A reader takes a copy of another reader's pointer. -/
def share (sys : SlotSystem) (holder reader : ℕ) : SlotSystem :=
  match sys.readers.lookup holder with
  | none => sys
  | some arc => { sys with readers := sys.readers.insert reader arc }

/-- A reader drops its pointer. -/
def release (sys : SlotSystem) (reader : ℕ) : SlotSystem :=
  { sys with readers := sys.readers.erase reader }

/-! ## The writer -/

/-- Publish what a pointer points to, and forget the reuse state. -/
def storeArc (sys : SlotSystem) (arc : ℕ) : SlotSystem :=
  { sys with slot := ⟨arc, sys.slot.generation + 1, [], []⟩ }

/-- Store a snapshot under a fresh pointer. -/
def store (sys : SlotSystem) (snapshot : GraphSnapshot) : SlotSystem :=
  (sys.alloc snapshot).storeArc sys.nextArc

/-- Store a pointer that a reader holds. -/
def storeHeld (sys : SlotSystem) (reader : ℕ) : SlotSystem :=
  match sys.readers.lookup reader with
  | none => sys
  | some arc => sys.storeArc arc

/-- The number of snapshots kept for reuse. -/
def retiredBuffers : ℕ := 4

/-- Apply the journal entries a retired snapshot misses. -/
def catchUp (journal : List SnapshotJournalEntry) (generation : ℕ) (snapshot : GraphSnapshot) :
    GraphSnapshot :=
  (journal.filter fun entry => generation < entry.generation).foldl
    (fun snapshot entry => SnapshotDelta.applyAll snapshot entry.delta) snapshot

/-- The buffer a publication starts from: the first retired snapshot that only the
slot points to, taken out of its pointer and caught up, or a clone of the current one. -/
def takeBuffer (sys : SlotSystem) : GraphSnapshot × SlotSystem :=
  let unique := fun retired : RetiredSnapshot => decide (sys.strongCount retired.snapshot = 1)
  match sys.slot.retired.find? unique with
  | none => (sys.deref sys.slot.current, sys)
  | some retired =>
      (catchUp sys.slot.journal retired.generation (sys.deref retired.snapshot),
        { sys with
          arcs := sys.arcs.erase retired.snapshot
          slot := { sys.slot with retired := sys.slot.retired.eraseP unique } })

/-- Drop the entries that no retired snapshot needs. -/
def trimJournal (retired : List RetiredSnapshot) (journal : List SnapshotJournalEntry) :
    List SnapshotJournalEntry :=
  match (retired.map (·.generation)).min? with
  | none => []
  | some oldest => journal.dropWhile fun entry => entry.generation ≤ oldest

def publishDelta (sys : SlotSystem) (delta : List SnapshotDelta) : SlotSystem :=
  let (buffer, sys) := sys.takeBuffer
  let old := sys.slot.current
  let generation := sys.slot.generation + 1
  let published := sys.nextArc
  let sys := sys.alloc (SnapshotDelta.applyAll buffer delta)
  let retired := sys.slot.retired ++ [⟨generation - 1, old⟩]
  let retired := retired.drop (retired.length - retiredBuffers)
  { sys with slot :=
    { current := published
      generation := generation
      retired := retired
      journal := trimJournal retired (sys.slot.journal ++ [⟨generation, delta⟩]) } }

/-- The change a local submission publishes. -/
def localDelta (memories : List Memory) (relationships : List Relationship) (localLsn : ℕ) :
    List SnapshotDelta :=
  memories.map .upsertMemory ++ relationships.map .upsertRelationship ++
    [.advanceLocalLsn localLsn]

/-- A submission without rows whose frontier is not new. -/
def nothingLocal (current : GraphSnapshot) (memories : List Memory)
    (relationships : List Relationship) (localLsn : ℕ) : Bool :=
  memories.isEmpty && relationships.isEmpty && decide (localLsn ≤ current.lastLocalLsn)

def applyLocal (sys : SlotSystem) (memories : List Memory) (relationships : List Relationship)
    (localLsn : ℕ) : SlotSystem :=
  if nothingLocal (sys.deref sys.slot.current) memories relationships localLsn then sys
  else sys.publishDelta (localDelta memories relationships localLsn)

/-! ## Runs -/

end SlotSystem

/-- What can happen to a slot. -/
inductive SlotAction where
  | loadFull (reader : ℕ)
  | share (holder reader : ℕ)
  | release (reader : ℕ)
  | store (snapshot : GraphSnapshot)
  | storeHeld (reader : ℕ)
  | publishDelta (delta : List SnapshotDelta)
  | applyLocal (memories : List Memory) (relationships : List Relationship) (localLsn : ℕ)

namespace SlotSystem

def step (sys : SlotSystem) : SlotAction → SlotSystem
  | .loadFull reader => sys.loadFull reader
  | .share holder reader => sys.share holder reader
  | .release reader => sys.release reader
  | .store snapshot => sys.store snapshot
  | .storeHeld reader => sys.storeHeld reader
  | .publishDelta delta => sys.publishDelta delta
  | .applyLocal memories relationships localLsn =>
      sys.applyLocal memories relationships localLsn

def run (sys : SlotSystem) (actions : List SlotAction) : SlotSystem := actions.foldl step sys

end SlotSystem

/-! ## What the slot is for

The abstract slot has no pointers and no reuse: it remembers the snapshot last stored
and the changes published since, and its readers hold values.
-/

/-- The snapshot last stored, the changes since, and what each reader holds. -/
structure SlotSpec where
  base : GraphSnapshot
  deltas : List (List SnapshotDelta)
  held : Table ℕ GraphSnapshot

/-- A snapshot with a sequence of changes applied. -/
def image (base : GraphSnapshot) (deltas : List (List SnapshotDelta)) : GraphSnapshot :=
  deltas.foldl SnapshotDelta.applyAll base

namespace SlotSpec

def new (snapshot : GraphSnapshot) : SlotSpec := ⟨snapshot, [], ∅⟩

/-- The published snapshot: every change since the store, applied in order. -/
def current (spec : SlotSpec) : GraphSnapshot := image spec.base spec.deltas

def publish (spec : SlotSpec) (delta : List SnapshotDelta) : SlotSpec :=
  { spec with deltas := spec.deltas ++ [delta] }

def step (spec : SlotSpec) : SlotAction → SlotSpec
  | .loadFull reader => { spec with held := spec.held.insert reader spec.current }
  | .share holder reader =>
      match spec.held.lookup holder with
      | none => spec
      | some snapshot => { spec with held := spec.held.insert reader snapshot }
  | .release reader => { spec with held := spec.held.erase reader }
  | .store snapshot => { spec with base := snapshot, deltas := [] }
  | .storeHeld reader =>
      match spec.held.lookup reader with
      | none => spec
      | some snapshot => { spec with base := snapshot, deltas := [] }
  | .publishDelta delta => spec.publish delta
  | .applyLocal memories relationships localLsn =>
      if SlotSystem.nothingLocal spec.current memories relationships localLsn then spec
      else spec.publish (SlotSystem.localDelta memories relationships localLsn)

def run (spec : SlotSpec) (actions : List SlotAction) : SlotSpec := actions.foldl step spec

end SlotSpec

/-! ## The journal -/

/-- The journal entries of a sequence of changes, the first of which made the
generation after `start`. -/
def numbered (start : ℕ) : List (List SnapshotDelta) → List SnapshotJournalEntry
  | [] => []
  | delta :: deltas => ⟨start + 1, delta⟩ :: numbered (start + 1) deltas

theorem numbered_append (start : ℕ) (front back : List (List SnapshotDelta)) :
    numbered start (front ++ back) =
      numbered start front ++ numbered (start + front.length) back := by
  induction front generalizing start with
  | nil => rfl
  | cons delta front ih =>
      rw [List.cons_append, numbered, numbered, ih, List.length_cons, List.cons_append]
      congr 3
      omega

theorem numbered_drop (start count : ℕ) (deltas : List (List SnapshotDelta)) :
    (numbered start deltas).drop count = numbered (start + count) (deltas.drop count) := by
  induction deltas generalizing start count with
  | nil => simp [numbered]
  | cons delta deltas ih =>
      cases count with
      | zero => rfl
      | succ count =>
          rw [numbered, List.drop_succ_cons, List.drop_succ_cons, ih]
          congr 1
          omega

variable {deltas : List (List SnapshotDelta)} {start reader : ℕ} {actions : List SlotAction}

theorem mem_numbered {entry : SnapshotJournalEntry} (member : entry ∈ numbered start deltas) :
    start < entry.generation := by
  induction deltas generalizing start with
  | nil => exact absurd member List.not_mem_nil
  | cons delta deltas ih =>
      rcases List.mem_cons.mp member with rfl | later
      · exact Nat.lt_succ_self start
      · exact Nat.lt_of_succ_lt (ih later)

/-- The entries above a generation are the entries of the changes after it. -/
theorem filter_numbered (start count : ℕ) (deltas : List (List SnapshotDelta)) :
    ((numbered start deltas).filter fun entry => decide (start + count < entry.generation)) =
      numbered (start + count) (deltas.drop count) := by
  induction deltas generalizing start count with
  | nil => simp [numbered]
  | cons delta deltas ih =>
      cases count with
      | zero =>
          rw [List.filter_eq_self.mpr]
          · rfl
          · intro entry member
            exact decide_eq_true (mem_numbered member)
      | succ count =>
          have shifted : start + (count + 1) = start + 1 + count := by omega
          have passed : ¬ start + 1 + count < start + 1 := by omega
          rw [numbered, shifted, List.filter_cons_of_neg, ih, List.drop_succ_cons]
          exact fun later => passed (of_decide_eq_true later)

/-- Trimming up to a generation leaves the entries of the changes after it. -/
theorem dropWhile_numbered (start count : ℕ) (deltas : List (List SnapshotDelta)) :
    ((numbered start deltas).dropWhile fun entry => decide (entry.generation ≤ start + count)) =
      numbered (start + count) (deltas.drop count) := by
  induction deltas generalizing start count with
  | nil => simp [numbered]
  | cons delta deltas ih =>
      cases count with
      | zero =>
          rw [numbered, List.dropWhile_cons_of_neg (by simp)]
          rfl
      | succ count =>
          have shifted : start + (count + 1) = start + 1 + count := by omega
          rw [numbered, shifted, List.dropWhile_cons_of_pos (by simp), ih,
            List.drop_succ_cons]

theorem foldl_numbered (start : ℕ) (deltas : List (List SnapshotDelta)) (base : GraphSnapshot) :
    (numbered start deltas).foldl
        (fun snapshot entry => SnapshotDelta.applyAll snapshot entry.delta) base =
      image base deltas := by
  induction deltas generalizing start base with
  | nil => rfl
  | cons delta deltas ih => exact ih (start + 1) (SnapshotDelta.applyAll base delta)

theorem image_append (base : GraphSnapshot) (front back : List (List SnapshotDelta)) :
    image base (front ++ back) = image (image base front) back :=
  List.foldl_append

/-- A snapshot some changes behind is caught up by a journal that reaches back far
enough. -/
theorem catchUp_image (start cut behind : ℕ) (base : GraphSnapshot)
    (deltas : List (List SnapshotDelta)) (reaches : cut ≤ behind) :
    SlotSystem.catchUp ((numbered start deltas).drop cut) (start + behind)
      (image base (deltas.take behind)) = image base deltas := by
  have position : start + behind = start + cut + (behind - cut) := by omega
  have rest : (deltas.drop cut).drop (behind - cut) = deltas.drop behind := by
    rw [List.drop_drop]
    congr 1
    omega
  rw [SlotSystem.catchUp, numbered_drop, position, filter_numbered, rest, foldl_numbered,
    ← image_append, List.take_append_drop]

theorem numbered_length (start : ℕ) (deltas : List (List SnapshotDelta)) :
    (numbered start deltas).length = deltas.length := by
  induction deltas generalizing start with
  | nil => rfl
  | cons delta deltas ih => rw [numbered, List.length_cons, List.length_cons, ih]

/-- Trimming a journal that misses the first changes lets it miss those up to the
oldest retired snapshot. -/
theorem trimJournal_drop {cut oldest : ℕ} {retired : List RetiredSnapshot}
    (least : (retired.map (·.generation)).min? = some oldest) (reaches : start + cut ≤ oldest) :
    SlotSystem.trimJournal retired ((numbered start deltas).drop cut) =
      (numbered start deltas).drop (oldest - start) := by
  have position : oldest = start + cut + (oldest - start - cut) := by omega
  have total : start + cut + (oldest - start - cut) = start + (oldest - start) := by omega
  have rest : (deltas.drop cut).drop (oldest - start - cut) = deltas.drop (oldest - start) := by
    rw [List.drop_drop]
    congr 1
    omega
  rw [SlotSystem.trimJournal, least]
  dsimp only
  conv_lhs => rw [position]
  rw [numbered_drop, dropWhile_numbered, rest, numbered_drop, total]

/-! ## The invariant -/

namespace SlotSystem

/-- The slot publishes what the abstract slot does: every snapshot it keeps is the
image of a prefix of the changes since the store at generation `start`, the journal
misses the first `cut` of them, and no retired snapshot is that old. -/
structure Publishes (sys : SlotSystem) (spec : SlotSpec) (start cut : ℕ) : Prop where
  generation : sys.slot.generation = start + spec.deltas.length
  cut_le : cut ≤ spec.deltas.length
  current : sys.arcs.lookup sys.slot.current = some spec.current
  retired : ∀ retired ∈ sys.slot.retired, start + cut ≤ retired.generation ∧
    retired.generation < sys.slot.generation ∧ sys.arcs.lookup retired.snapshot =
      some (image spec.base (spec.deltas.take (retired.generation - start)))
  journal : sys.slot.journal = (numbered start spec.deltas).drop cut
  readers : ∀ reader, Option.Rel (fun arc snapshot => sys.arcs.lookup arc = some snapshot)
    (sys.readers.lookup reader) (spec.held.lookup reader)
  allocated : ∀ arc ∈ sys.arcs, arc < sys.nextArc

/-- Related optional values stay related under a relation that holds where they do. -/
theorem rel_imp {α β : Type} {R S : α → β → Prop} {left : Option α} {right : Option β}
    (related : Option.Rel R left right) (weaker : ∀ a b, left = some a → R a b → S a b) :
    Option.Rel S left right := by
  cases related with
  | none => exact .none
  | some pair => exact .some (weaker _ _ rfl pair)

variable {sys : SlotSystem}

/-- A pointer counted once, in the retired list, is held nowhere else. -/
theorem held_once {before after : List RetiredSnapshot} {retired : RetiredSnapshot}
    (shape : sys.slot.retired = before ++ retired :: after)
    (unique : sys.strongCount retired.snapshot = 1) :
    sys.slot.current ≠ retired.snapshot ∧
      (∀ other ∈ before ++ after, other.snapshot ≠ retired.snapshot) ∧
      ∀ reader, sys.readers.lookup reader ≠ some retired.snapshot := by
  have counted : sys.slot.retired.countP (·.snapshot = retired.snapshot) =
      (before ++ after).countP (·.snapshot = retired.snapshot) + 1 := by
    rw [shape, List.countP_append, List.countP_append, List.countP_cons_of_pos (by simp)]
    omega
  rw [strongCount, counted] at unique
  refine ⟨?_, ?_, ?_⟩
  · intro same
    rw [if_pos same] at unique
    omega
  · have none_left : (before ++ after).countP (·.snapshot = retired.snapshot) = 0 := by omega
    intro other member
    simpa using List.countP_eq_zero.mp none_left other member
  · have unread : sys.readers.values.count retired.snapshot = 0 := by omega
    intro reader held
    exact List.count_eq_zero.mp unread (Table.mem_values.mpr ⟨reader, held⟩)

/-- **The buffer of a publication is the current snapshot**, reused or cloned, and
taking it disturbs nobody. -/
theorem takeBuffer_spec {spec : SlotSpec} {cut : ℕ} (publishes : Publishes sys spec start cut) :
    sys.takeBuffer.1 = spec.current ∧ Publishes sys.takeBuffer.2 spec start cut := by
  rw [takeBuffer]
  dsimp only
  split
  · exact ⟨by rw [deref, publishes.current, Option.getD_some], publishes⟩
  · next retired found =>
      obtain ⟨unique, before, after, shape, earlier⟩ := List.find?_eq_some_iff_append.mp found
      have once := of_decide_eq_true unique
      obtain ⟨notCurrent, notRetired, notRead⟩ := held_once shape once
      have member : retired ∈ sys.slot.retired := by
        rw [shape]
        simp
      obtain ⟨reaches, older, content⟩ := publishes.retired retired member
      have kept : sys.slot.retired.eraseP
          (fun retired => decide (sys.strongCount retired.snapshot = 1)) = before ++ after := by
        have skipped : ∀ other ∈ before, ¬ decide (sys.strongCount other.snapshot = 1) = true :=
          fun other inside => by simpa using earlier other inside
        rw [shape, List.eraseP_append_right _ skipped]
        simp [once]
      refine ⟨?_, ?_⟩
      · -- The reused snapshot misses the changes after its own generation.
        have position : retired.generation = start + (retired.generation - start) := by omega
        dsimp only
        rw [deref, content, Option.getD_some, publishes.journal, position,
          Nat.add_sub_cancel_left]
        exact catchUp_image start cut _ spec.base spec.deltas (by omega)
      · have elsewhere : ∀ {arc}, arc ≠ retired.snapshot →
            (sys.arcs.erase retired.snapshot).lookup arc = sys.arcs.lookup arc := fun apart =>
          AList.lookup_erase_ne apart
        refine ⟨publishes.generation, publishes.cut_le,
          (elsewhere notCurrent).trans publishes.current, ?_, publishes.journal, ?_, ?_⟩
        · intro other inside
          dsimp only at inside
          rw [kept] at inside
          have known : other ∈ sys.slot.retired := by
            rw [shape]
            rcases List.mem_append.mp inside with early | late
            · exact List.mem_append_left _ early
            · exact List.mem_append_right _ (List.mem_cons_of_mem _ late)
          obtain ⟨low, high, same⟩ := publishes.retired other known
          exact ⟨low, high, (elsewhere (notRetired other inside)).trans same⟩
        · intro reader
          refine rel_imp (publishes.readers reader) fun arc snapshot held same => ?_
          have apart : arc ≠ retired.snapshot := fun this => notRead reader (this ▸ held)
          exact (elsewhere apart).trans same
        · intro arc present
          exact publishes.allocated arc (AList.mem_erase.mp present).2

/-! ## The steps -/

section Steps

variable {sys : SlotSystem} {spec : SlotSpec} {start cut : ℕ}

variable {arc : ℕ}

/-- A new pointer disturbs no other. -/
theorem alloc_lookup (publishes : Publishes sys spec start cut) (snapshot : GraphSnapshot)
    {content : GraphSnapshot} (known : sys.arcs.lookup arc = some content) :
    (sys.alloc snapshot).arcs.lookup arc = some content := by
  have present : arc ∈ sys.arcs := AList.lookup_isSome.mp (Option.isSome_of_eq_some known)
  have below := publishes.allocated arc present
  rw [alloc, Table.lookup_insert_eq, if_neg (by omega), known]

theorem alloc_allocated (publishes : Publishes sys spec start cut) (snapshot : GraphSnapshot) :
    ∀ arc ∈ (sys.alloc snapshot).arcs, arc < sys.nextArc + 1 := by
  intro arc present
  rcases (AList.mem_insert _).mp present with rfl | old
  · omega
  · exact Nat.lt_succ_of_lt (publishes.allocated arc old)

variable {snapshot : GraphSnapshot}

section Publications

variable (publishes : Publishes sys spec start cut)
include publishes

theorem Publishes.storeArc (known : sys.arcs.lookup arc = some snapshot) :
    Publishes (sys.storeArc arc) { spec with base := snapshot, deltas := [] }
      (sys.slot.generation + 1) 0 where
  generation := rfl
  cut_le := Nat.le_refl 0
  current := known
  retired _ member := absurd member List.not_mem_nil
  journal := rfl
  readers := publishes.readers
  allocated := publishes.allocated

theorem Publishes.store (snapshot : GraphSnapshot) :
    Publishes (sys.store snapshot) { spec with base := snapshot, deltas := [] }
      (sys.slot.generation + 1) 0 where
  generation := rfl
  cut_le := Nat.le_refl 0
  current := AList.lookup_insert _
  retired _ member := absurd member List.not_mem_nil
  journal := rfl
  readers reader := rel_imp (publishes.readers reader) fun _ _ _ known =>
    alloc_lookup publishes snapshot known
  allocated := alloc_allocated publishes snapshot

/-- **A publication applies its change to the current snapshot.** -/
theorem Publishes.publishDelta (delta : List SnapshotDelta) :
    ∃ trimmed, Publishes (sys.publishDelta delta) (spec.publish delta) start trimmed := by
  obtain ⟨buffer, taken⟩ := takeBuffer_spec publishes
  rw [SlotSystem.publishDelta]
  generalize sys.takeBuffer = pair at buffer taken
  obtain ⟨snapshot, sys⟩ := pair
  dsimp only at buffer taken ⊢
  subst buffer
  simp only [alloc_slot]
  generalize applied : SnapshotDelta.applyAll spec.current delta = next
  generalize whole : sys.slot.retired ++
    [(⟨sys.slot.generation + 1 - 1, sys.slot.current⟩ : RetiredSnapshot)] = candidates
  have generation := taken.generation
  have cut_le := taken.cut_le
  -- Every candidate is the image of a prefix of the changes, the new one included.
  have images : ∀ retired ∈ candidates, start + cut ≤ retired.generation ∧
      retired.generation < sys.slot.generation + 1 ∧
      (sys.alloc next).arcs.lookup retired.snapshot = some
        (image spec.base ((spec.deltas ++ [delta]).take (retired.generation - start))) := by
    intro retired member
    rw [← whole] at member
    rcases List.mem_append.mp member with old | new
    · obtain ⟨low, high, known⟩ := taken.retired retired old
      refine ⟨low, by omega, ?_⟩
      rw [List.take_append_of_le_length (by omega)]
      exact alloc_lookup taken next known
    · rw [List.mem_singleton.mp new]
      dsimp only
      refine ⟨by omega, by omega, ?_⟩
      have all : sys.slot.generation + 1 - 1 - start = spec.deltas.length := by omega
      rw [all, List.take_left]
      exact alloc_lookup taken next taken.current
  have subset : ∀ retired ∈ candidates.drop (candidates.length - retiredBuffers),
      retired ∈ candidates := fun _ member => List.mem_of_mem_drop member
  have nonempty : candidates.drop (candidates.length - retiredBuffers) ≠ [] := by
    have length : candidates.length = sys.slot.retired.length + 1 := by
      rw [← whole, List.length_append, List.length_singleton]
    rw [ne_eq, List.drop_eq_nil_iff, retiredBuffers]
    omega
  generalize candidates.drop (candidates.length - retiredBuffers) = kept at subset nonempty
  obtain ⟨oldest, least⟩ : ∃ oldest, (kept.map (·.generation)).min? = some oldest :=
    Option.isSome_iff_exists.mp (List.isSome_min?_of_ne_nil (by simpa using nonempty))
  obtain ⟨attained, lower⟩ := List.min?_eq_some_iff.mp least
  obtain ⟨oldestRetired, inKept, sameGeneration⟩ := List.mem_map.mp attained
  have range := images oldestRetired (subset _ inKept)
  have journal : sys.slot.journal ++ [⟨sys.slot.generation + 1, delta⟩] =
      (numbered start (spec.deltas ++ [delta])).drop cut := by
    rw [taken.journal, numbered_append, List.drop_append_of_le_length
      (by rw [numbered_length]; exact cut_le), generation]
    rfl
  refine ⟨oldest - start, ?_, ?_, ?_, ?_, ?_, ?_, ?_⟩
  · simp only [SlotSpec.publish, List.length_append, List.length_singleton]
    omega
  · simp only [SlotSpec.publish, List.length_append, List.length_singleton]
    omega
  · have published : (spec.publish delta).current = next := by
      rw [SlotSpec.current, SlotSpec.publish, image_append, ← applied]
      rfl
    rw [published]
    exact AList.lookup_insert _
  · intro retired member
    have known := images retired (subset retired member)
    have above := lower _ (List.mem_map_of_mem member)
    exact ⟨by omega, known.2.1, known.2.2⟩
  · dsimp only
    rw [journal, trimJournal_drop least (by omega)]
    rfl
  · intro reader
    exact rel_imp (taken.readers reader) fun _ _ _ known => alloc_lookup taken next known
  · exact alloc_allocated taken next

/-- Binding a reader to a pointer whose content the abstract reader takes. -/
theorem Publishes.bind (reader : ℕ) (known : sys.arcs.lookup arc = some snapshot) :
    Publishes { sys with readers := sys.readers.insert reader arc }
      { spec with held := spec.held.insert reader snapshot } start cut :=
  { publishes with
    readers := fun other => by
      rw [Table.lookup_insert_eq, Table.lookup_insert_eq]
      split
      · exact .some known
      · exact publishes.readers other }

theorem Publishes.release (reader : ℕ) :
    Publishes (sys.release reader) { spec with held := spec.held.erase reader } start cut :=
  { publishes with
    readers := fun other => by
      rw [SlotSystem.release, Table.lookup_erase_eq, Table.lookup_erase_eq]
      split
      · exact .none
      · exact publishes.readers other }

/-- A reader and the abstract reader hold a pointer and its content, or nothing. -/
theorem Publishes.holding (reader : ℕ) :
    (sys.readers.lookup reader = none ∧ spec.held.lookup reader = none) ∨
      ∃ arc snapshot, sys.readers.lookup reader = some arc ∧
        spec.held.lookup reader = some snapshot ∧ sys.arcs.lookup arc = some snapshot := by
  have related := publishes.readers reader
  generalize sys.readers.lookup reader = pointer at related
  generalize spec.held.lookup reader = value at related
  cases related with
  | none => exact .inl ⟨rfl, rfl⟩
  | some known => exact .inr ⟨_, _, rfl, rfl, known⟩

/-- Every action keeps the slot in step with the abstract slot. -/
theorem Publishes.step (action : SlotAction) :
    ∃ start cut, Publishes (sys.step action) (spec.step action) start cut := by
  cases action with
  | loadFull reader => exact ⟨start, cut, publishes.bind reader publishes.current⟩
  | share holder reader =>
      simp only [SlotSystem.step, SlotSystem.share, SlotSpec.step]
      rcases publishes.holding holder with ⟨absent, none_held⟩ | ⟨arc, snapshot, held, value, known⟩
      · rw [absent, none_held]
        exact ⟨start, cut, publishes⟩
      · rw [held, value]
        exact ⟨start, cut, publishes.bind reader known⟩
  | release reader => exact ⟨start, cut, publishes.release reader⟩
  | store snapshot => exact ⟨_, 0, publishes.store snapshot⟩
  | storeHeld reader =>
      simp only [SlotSystem.step, SlotSystem.storeHeld, SlotSpec.step]
      rcases publishes.holding reader with ⟨absent, none_held⟩ | ⟨arc, snapshot, held, value, known⟩
      · rw [absent, none_held]
        exact ⟨start, cut, publishes⟩
      · rw [held, value]
        exact ⟨_, 0, publishes.storeArc known⟩
  | publishDelta delta => exact ⟨start, publishes.publishDelta delta⟩
  | applyLocal memories relationships localLsn =>
      have same : sys.deref sys.slot.current = spec.current := by
        rw [deref, publishes.current, Option.getD_some]
      simp only [SlotSystem.step, SlotSystem.applyLocal, SlotSpec.step, same]
      split
      · exact ⟨start, cut, publishes⟩
      · exact ⟨start, publishes.publishDelta _⟩

theorem Publishes.run (actions : List SlotAction) :
    ∃ start cut, Publishes (sys.run actions) (spec.run actions) start cut := by
  induction actions generalizing sys spec start cut with
  | nil => exact ⟨start, cut, publishes⟩
  | cons action actions ih =>
      obtain ⟨start, cut, next⟩ := publishes.step action
      exact ih next

end Publications

end Steps

theorem publishes_new (snapshot : GraphSnapshot) :
    Publishes (new snapshot) (SlotSpec.new snapshot) 0 0 where
  generation := rfl
  cut_le := Nat.le_refl 0
  current := AList.lookup_insert _
  retired _ member := absurd member List.not_mem_nil
  journal := rfl
  readers _ := .none
  allocated arc present := by
    rcases (AList.mem_insert _).mp present with rfl | old
    · exact Nat.one_pos
    · exact absurd old (AList.notMem_empty _)

end SlotSystem

/-! ## Readers keep what they took -/

/-- The action gives a reader another pointer, or takes its pointer away. -/
def SlotAction.Rebinds (reader : ℕ) : SlotAction → Prop
  | .loadFull other | .share _ other | .release other => other = reader
  | _ => False

variable {action : SlotAction}

namespace SlotSystem

theorem publishDelta_readers (sys : SlotSystem) (delta : List SnapshotDelta) :
    (sys.publishDelta delta).readers = sys.readers := by
  rw [publishDelta, takeBuffer]
  dsimp only
  split <;> rfl

/-- Only a rebinding changes the pointer of a reader. -/
theorem step_readers (sys : SlotSystem) (other : ¬ action.Rebinds reader) :
    (sys.step action).readers.lookup reader = sys.readers.lookup reader := by
  cases action with
  | loadFull target => exact AList.lookup_insert_ne fun same => other same.symm
  | share holder target =>
      simp only [step, share]
      split
      · rfl
      · exact AList.lookup_insert_ne fun same => other same.symm
  | release target => exact AList.lookup_erase_ne fun same => other same.symm
  | store snapshot => rfl
  | storeHeld holder =>
      simp only [step, storeHeld]
      split <;> rfl
  | publishDelta delta => simp only [step, publishDelta_readers]
  | applyLocal memories relationships localLsn =>
      simp only [step, applyLocal]
      split
      · rfl
      · rw [publishDelta_readers]

theorem run_readers (sys : SlotSystem) (others : ∀ action ∈ actions, ¬ action.Rebinds reader) :
    (sys.run actions).readers.lookup reader = sys.readers.lookup reader := by
  induction actions generalizing sys with
  | nil => rfl
  | cons action actions ih =>
      rw [List.forall_mem_cons] at others
      exact (ih (sys.step action) others.2).trans (sys.step_readers others.1)

end SlotSystem

theorem SlotSpec.step_held (spec : SlotSpec) (other : ¬ action.Rebinds reader) :
    (spec.step action).held.lookup reader = spec.held.lookup reader := by
  cases action with
  | loadFull target => exact AList.lookup_insert_ne fun same => other same.symm
  | share holder target =>
      simp only [SlotSpec.step]
      split
      · rfl
      · exact AList.lookup_insert_ne fun same => other same.symm
  | release target => exact AList.lookup_erase_ne fun same => other same.symm
  | store snapshot => rfl
  | storeHeld holder =>
      simp only [SlotSpec.step]
      split <;> rfl
  | publishDelta delta => rfl
  | applyLocal memories relationships localLsn =>
      simp only [SlotSpec.step]
      split <;> rfl

theorem SlotSpec.run_held (spec : SlotSpec) (others : ∀ action ∈ actions, ¬ action.Rebinds reader) :
    (spec.run actions).held.lookup reader = spec.held.lookup reader := by
  induction actions generalizing spec with
  | nil => rfl
  | cons action actions ih =>
      rw [List.forall_mem_cons] at others
      exact (ih (spec.step action) others.2).trans (spec.step_held others.1)

theorem image_eq_applyAll (base : GraphSnapshot) (deltas : List (List SnapshotDelta)) :
    image base deltas = SnapshotDelta.applyAll base deltas.flatten :=
  List.foldl_flatten.symm

/-- **Publication is exact under reuse**: after any run the published snapshot is the
one last stored with every change published since applied in order, and what a reader
points to stays the same until the reader itself moves its pointer. -/
theorem SlotSystem.run_publishes_exactly (first : GraphSnapshot)
    (actions later : List SlotAction) :
    let sys := (SlotSystem.new first).run actions
    let spec := (SlotSpec.new first).run actions
    sys.arcs.lookup sys.slot.current =
        some (SnapshotDelta.applyAll spec.base spec.deltas.flatten) ∧
      ∀ reader arc, sys.readers.lookup reader = some arc →
        (∀ action ∈ later, ¬ action.Rebinds reader) →
        ∃ snapshot, sys.arcs.lookup arc = some snapshot ∧
          (sys.run later).readers.lookup reader = some arc ∧
          (sys.run later).arcs.lookup arc = some snapshot := by
  intro sys spec
  obtain ⟨start, cut, now⟩ := (publishes_new first).run actions
  obtain ⟨start', cut', afterwards⟩ := now.run later
  refine ⟨?_, fun reader arc held untouched => ?_⟩
  · rw [← image_eq_applyAll]
    exact now.current
  · have pointer := run_readers sys untouched
    have value := spec.run_held untouched
    rcases now.holding reader with ⟨absent, -⟩ | ⟨arc', snapshot, holds, taken, known⟩
    · rw [absent] at held
      cases held
    · rw [holds] at held
      cases held
      rw [holds] at pointer
      rw [taken] at value
      refine ⟨snapshot, known, pointer, ?_⟩
      rcases afterwards.holding reader with ⟨absent, -⟩ | ⟨arc', snapshot', holds', taken', known'⟩
      · rw [pointer] at absent
        cases absent
      · rw [pointer] at holds'
        rw [value] at taken'
        cases holds'
        cases taken'
        exact known'

/-- A reader that took the first snapshot still reads it after two publications, the
second of which may reuse a buffer. -/
theorem SlotSystem.run_publishes_exactly_held :
    let sys := (SlotSystem.new .empty).run [.loadFull 7, .publishDelta [.advanceBackendLsn 1]]
    sys.arcs.lookup sys.slot.current =
        some (SnapshotDelta.applyAll .empty [.advanceBackendLsn 1]) ∧
      ∃ snapshot, sys.arcs.lookup 0 = some snapshot ∧
        (sys.run [.publishDelta [.advanceBackendLsn 2]]).arcs.lookup 0 = some snapshot := by
  intro sys
  obtain ⟨published, kept⟩ := run_publishes_exactly .empty
    [.loadFull 7, .publishDelta [.advanceBackendLsn 1]] [.publishDelta [.advanceBackendLsn 2]]
  obtain ⟨snapshot, before, -, afterwards⟩ := kept 7 0 rfl (by simp [SlotAction.Rebinds])
  exact ⟨published, snapshot, before, afterwards⟩

end Exocortex
