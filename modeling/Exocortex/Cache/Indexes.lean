import Exocortex.Cache.SearchIndex

/-!
# The indexes over the rows of a snapshot

An index by type or by tag holds for each key a set of short keys of memories, and an index by
entity a list of identities. `Marks` and `Lists` say that such an index is exact for a set of
memories.

A memory that leaves an index takes its short key along, whoever else has it. So an exact index
stays exact when a memory is replaced or removed just when no other memory with the same short key
is listed under a key that is given up (`Marks.replaced_iff`), and a list stays without doubles
just when the memory names each entity once (`Lists.replaced_iff`).
-/

namespace Exocortex

open Library

namespace GraphSnapshot

variable {K : Type} [DecidableEq K]

/-! ## Sets of short keys -/

theorem mem_setBit (bitmaps : Table K (Finset UInt32)) (key other : K) (bit short : UInt32) :
    short ∈ (setBit bitmaps key bit).members other ↔
      short ∈ bitmaps.members other ∨ other = key ∧ short = bit := by
  rw [setBit, Table.members, Table.lookup_insert_eq]
  split
  · next same =>
      subst same
      simp [Table.members, or_comm]
  · next apart => simp [Table.members, apart]

theorem mem_clearBit (bitmaps : Table K (Finset UInt32)) (key other : K) (bit short : UInt32) :
    short ∈ (clearBit bitmaps key bit).members other ↔
      short ∈ bitmaps.members other ∧ ¬ (other = key ∧ short = bit) := by
  unfold clearBit Table.members
  cases found : bitmaps.lookup key with
  | none =>
      by_cases same : other = key
      · subst same
        simp [found]
      · simp [same]
  | some bits =>
      dsimp only
      by_cases same : other = key
      · subst same
        split
        · next empty =>
            have gone : short ∉ bits.erase bit := by simp [empty]
            rw [Finset.mem_erase] at gone
            simp only [AList.lookup_erase, found, Option.getD_none, Option.getD_some,
              Finset.notMem_empty, true_and, false_iff]
            tauto
        · simp [found, and_comm]
      · split <;> simp [same]

/-- Mark a memory under a list of keys, and take its mark away. -/
def setBits (keys : List K) (bit : UInt32) (bitmaps : Table K (Finset UInt32)) :
    Table K (Finset UInt32) :=
  keys.foldl (fun bitmaps key => setBit bitmaps key bit) bitmaps

def clearBits (keys : List K) (bit : UInt32) (bitmaps : Table K (Finset UInt32)) :
    Table K (Finset UInt32) :=
  keys.foldl (fun bitmaps key => clearBit bitmaps key bit) bitmaps

theorem mem_setBits (keys : List K) (bitmaps : Table K (Finset UInt32)) (other : K)
    (bit short : UInt32) : short ∈ (setBits keys bit bitmaps).members other ↔
      short ∈ bitmaps.members other ∨ other ∈ keys ∧ short = bit := by
  induction keys generalizing bitmaps with
  | nil => simp [setBits]
  | cons key keys ih =>
      change short ∈ (setBits keys bit (setBit bitmaps key bit)).members other ↔ _
      rw [ih, mem_setBit, List.mem_cons]
      tauto

theorem mem_clearBits (keys : List K) (bitmaps : Table K (Finset UInt32)) (other : K)
    (bit short : UInt32) : short ∈ (clearBits keys bit bitmaps).members other ↔
      short ∈ bitmaps.members other ∧ ¬ (other ∈ keys ∧ short = bit) := by
  induction keys generalizing bitmaps with
  | nil => simp [clearBits]
  | cons key keys ih =>
      change short ∈ (clearBits keys bit (clearBit bitmaps key bit)).members other ↔ _
      rw [ih, mem_clearBit, List.mem_cons]
      tauto

/-! ## Exact indexes -/

/-- Under each key stand the short keys of exactly the memories with it. -/
def Marks (bitmaps : Table K (Finset UInt32)) (keysOf : Memory → List K)
    (residents : Set Memory) : Prop :=
  ∀ key short, short ∈ bitmaps.members key ↔
    ∃ m ∈ residents, key ∈ keysOf m ∧ lsb32 m.id = short

/-- Under each entity stand the identities of exactly the memories that mention it, once each. -/
structure Lists (byEntity : Table EntityId (List MemoryId)) (residents : Set Memory) : Prop where
  exact : ∀ entity id, id ∈ byEntity.history entity ↔
    ∃ m ∈ residents, entity ∈ m.context.entities ∧ m.id = id
  once : ∀ entity, (byEntity.history entity).Nodup

/-- A set of memories in which the one with an identity, if there is one, gives way to another
one with it, or to none. -/
structure Replaced (residents later : Set Memory) (id : MemoryId) (new : Option Memory) : Prop where
  later_iff : ∀ m, m ∈ later ↔ m ∈ residents ∧ m.id ≠ id ∨ new = some m
  named : ∀ m, new = some m → m.id = id

/-- The keys that a memory gives up are not those of another memory with its short key. -/
def NoneElse (keysOf : Memory → List K) (residents : Set Memory) (prior : Memory)
    (new : Option Memory) : Prop :=
  ∀ other ∈ residents, other.id ≠ prior.id → lsb32 other.id = lsb32 prior.id →
    ∀ key ∈ keysOf prior, key ∈ keysOf other → ∃ m, new = some m ∧ key ∈ keysOf m

variable {bitmaps : Table K (Finset UInt32)} {keysOf : Memory → List K}
  {residents later : Set Memory} {id : MemoryId} {new : Option Memory}

/-- The keys of a memory that may be there. -/
def newKeys (keysOf : Memory → List K) (new : Option Memory) : List K := (new.map keysOf).getD []

omit [DecidableEq K] in
theorem mem_newKeys {key : K} : key ∈ newKeys keysOf new ↔ ∃ m, new = some m ∧ key ∈ keysOf m := by
  cases new <;> simp [newKeys]

/-- Marking a memory that was not there keeps an index exact. -/
theorem Marks.added (exact : Marks bitmaps keysOf residents)
    (replaced : Replaced residents later id new) (absent : ∀ m ∈ residents, m.id ≠ id) :
    Marks (setBits (newKeys keysOf new) (lsb32 id) bitmaps) keysOf later := by
  intro key short
  rw [mem_setBits, exact, mem_newKeys]
  constructor
  · rintro (⟨m, resident, listed, rfl⟩ | ⟨⟨m, same, listed⟩, rfl⟩)
    · exact ⟨m, (replaced.later_iff m).mpr (.inl ⟨resident, absent m resident⟩), listed, rfl⟩
    · exact ⟨m, (replaced.later_iff m).mpr (.inr same), listed, by rw [replaced.named m same]⟩
  · rintro ⟨m, present, listed, rfl⟩
    rcases (replaced.later_iff m).mp present with ⟨resident, _⟩ | same
    · exact .inl ⟨m, resident, listed, rfl⟩
    · exact .inr ⟨⟨m, same, listed⟩, by rw [replaced.named m same]⟩

/-- **An exact index stays exact when a memory is replaced or removed just when no other memory
has its short key under a key that is given up.** -/
theorem Marks.replaced_iff (exact : Marks bitmaps keysOf residents) {prior : Memory}
    (replaced : Replaced residents later prior.id new)
    (only : ∀ m ∈ residents, m.id = prior.id → m = prior) :
    Marks (setBits (newKeys keysOf new) (lsb32 prior.id)
        (clearBits (keysOf prior) (lsb32 prior.id) bitmaps)) keysOf later ↔
      NoneElse keysOf residents prior new := by
  constructor
  · intro after other resident apart short key old listed
    have marked := (after key (lsb32 prior.id)).mpr
      ⟨other, (replaced.later_iff other).mpr (.inl ⟨resident, apart⟩), listed, short⟩
    rw [mem_setBits, mem_clearBits, mem_newKeys] at marked
    rcases marked with ⟨_, kept⟩ | ⟨named, _⟩
    · exact absurd ⟨old, rfl⟩ kept
    · exact named
  · intro none key short
    rw [mem_setBits, mem_clearBits, exact, mem_newKeys]
    constructor
    · rintro (⟨⟨m, resident, listed, rfl⟩, kept⟩ | ⟨⟨m, same, listed⟩, rfl⟩)
      · refine ⟨m, (replaced.later_iff m).mpr (.inl ⟨resident, fun same => ?_⟩), listed, rfl⟩
        obtain rfl := only m resident same
        exact kept ⟨listed, rfl⟩
      · exact ⟨m, (replaced.later_iff m).mpr (.inr same), listed, by rw [replaced.named m same]⟩
    · rintro ⟨m, present, listed, rfl⟩
      rcases (replaced.later_iff m).mp present with ⟨resident, apart⟩ | same
      · by_cases lost : key ∈ keysOf prior ∧ lsb32 m.id = lsb32 prior.id
        · exact .inr ⟨none m resident apart lost.2 key lost.1 listed, lost.2⟩
        · exact .inl ⟨⟨m, resident, listed, rfl⟩, lost⟩
      · exact .inr ⟨⟨m, same, listed⟩, by rw [replaced.named m same]⟩

/-! ## Lists of identities -/

theorem history_forgetEntity (memory : MemoryId) (byEntity : Table EntityId (List MemoryId))
    (entity other : EntityId) :
    (forgetEntity memory byEntity entity).history other =
      if other = entity then (byEntity.history other).filter (· ≠ memory)
      else byEntity.history other := by
  unfold forgetEntity
  cases found : byEntity.lookup entity with
  | none =>
      dsimp only
      split
      · next same =>
          subst same
          simp [Table.history, found]
      · rfl
  | some ids =>
      dsimp only
      split
      · next empty =>
          rw [Table.history_erase]
          split
          · next same =>
              subst same
              rw [Table.history, found]
              exact (List.isEmpty_iff.mp empty).symm
          · rfl
      · rw [Table.history_insert]
        split
        · next same =>
            subst same
            rw [Table.history, found]
            rfl
        · rfl

theorem history_forgetEntities (memory : MemoryId) (entities : List EntityId)
    (byEntity : Table EntityId (List MemoryId)) (other : EntityId) :
    (entities.foldl (forgetEntity memory) byEntity).history other =
      if other ∈ entities then (byEntity.history other).filter (· ≠ memory)
      else byEntity.history other := by
  induction entities generalizing byEntity with
  | nil => simp
  | cons entity entities ih =>
      rw [List.foldl_cons, ih, history_forgetEntity]
      by_cases first : other = entity <;> by_cases rest : other ∈ entities <;>
        simp [first, rest, List.filter_filter]

theorem history_pushEntities (memory : MemoryId) (entities : List EntityId)
    (byEntity : Table EntityId (List MemoryId)) (other : EntityId) :
    (entities.foldl (fun byEntity entity => byEntity.push entity memory) byEntity).history other =
      byEntity.history other ++ List.replicate (entities.count other) memory := by
  induction entities generalizing byEntity with
  | nil => simp
  | cons entity entities ih =>
      rw [List.foldl_cons, ih, Table.history_push, List.count_cons, List.append_assoc]
      by_cases same : other = entity
      · subst same
        simp [List.replicate_succ]
      · simp [same, Ne.symm same]

variable {byEntity : Table EntityId (List MemoryId)}

/-- **Listing a memory where it is not yet listed keeps an index by entity exact just when the
memory names each entity once.** -/
theorem Lists.added_iff (exact : Lists byEntity residents) {m : Memory}
    (replaced : Replaced residents later m.id (some m)) (absent : ∀ m' ∈ residents, m'.id ≠ m.id) :
    Lists (m.context.entities.foldl (fun byEntity entity => byEntity.push entity m.id) byEntity)
        later ↔ m.context.entities.Nodup := by
  have fresh : ∀ entity, m.id ∉ byEntity.history entity := by
    intro entity listed
    obtain ⟨m', resident, _, same⟩ := (exact.exact entity m.id).mp listed
    exact absent m' resident same
  constructor
  · intro after
    refine List.nodup_iff_count_le_one.mpr fun entity => ?_
    have once := after.once entity
    rw [history_pushEntities, List.nodup_append] at once
    exact List.nodup_replicate.mp once.2.1
  · intro distinct
    constructor
    · intro entity id
      rw [history_pushEntities, List.mem_append, exact.exact, List.mem_replicate,
        ← Nat.pos_iff_ne_zero,
        List.count_pos_iff]
      constructor
      · rintro (⟨m', resident, listed, rfl⟩ | ⟨listed, rfl⟩)
        · exact ⟨m', (replaced.later_iff m').mpr (.inl ⟨resident, absent m' resident⟩), listed, rfl⟩
        · exact ⟨m, (replaced.later_iff m).mpr (.inr rfl), listed, rfl⟩
      · rintro ⟨m', present, listed, rfl⟩
        rcases (replaced.later_iff m').mp present with ⟨resident, _⟩ | same
        · exact .inl ⟨m', resident, listed, rfl⟩
        · cases same
          exact .inr ⟨listed, rfl⟩
    · intro entity
      rw [history_pushEntities, List.nodup_append]
      refine ⟨exact.once entity, ?_, ?_⟩
      · exact List.nodup_replicate.mpr (List.nodup_iff_count_le_one.mp distinct entity)
      · rintro _ old _ new rfl
        obtain rfl := (List.mem_replicate.mp new).2
        exact fresh entity old

/-- A memory that is taken out of the lists is in none of them. -/
theorem Lists.removed (exact : Lists byEntity residents) {prior : Memory}
    (only : ∀ m ∈ residents, m.id = prior.id → m = prior)
    (replaced : Replaced residents later prior.id none) :
    Lists (prior.context.entities.foldl (forgetEntity prior.id) byEntity) later := by
  constructor
  · intro entity id
    rw [history_forgetEntities]
    have member : ∀ {ids : List MemoryId}, id ∈ ids.filter (· ≠ prior.id) ↔
        id ∈ ids ∧ id ≠ prior.id := by simp
    constructor
    · intro listed
      have both : id ∈ byEntity.history entity ∧ id ≠ prior.id := by
        split at listed
        · exact member.mp listed
        · next apart =>
            refine ⟨listed, fun same => apart ?_⟩
            obtain ⟨m, inside, mentions, named⟩ := (exact.exact entity id).mp listed
            exact only m inside (named.trans same) ▸ mentions
      obtain ⟨m, inside, mentions, rfl⟩ := (exact.exact entity id).mp both.1
      exact ⟨m, (replaced.later_iff m).mpr (.inl ⟨inside, both.2⟩), mentions, rfl⟩
    · rintro ⟨m, present, mentions, rfl⟩
      rcases (replaced.later_iff m).mp present with ⟨inside, apart⟩ | impossible
      · have listed := (exact.exact entity m.id).mpr ⟨m, inside, mentions, rfl⟩
        split
        · exact member.mpr ⟨listed, apart⟩
        · exact listed
      · cases impossible
  · intro entity
    rw [history_forgetEntities]
    split
    · exact (exact.once entity).filter _
    · exact exact.once entity

end GraphSnapshot

end Exocortex
