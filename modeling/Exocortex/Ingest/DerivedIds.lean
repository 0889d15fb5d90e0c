import Exocortex.Ingest.Validation
import Exocortex.Library.Framing
import Exocortex.Library.Scans

/-!
# Identities that are derived

Memories, entities and relationships get their identities from a digest of what they are. Two of
them have the same identity by construction when they have it under every digest function, which
is when the same bytes are digested.

The identity of a row of an external table frames each of its parts, and the one of a relationship
has parts of a fixed width. The other three put a separator after the organization, which may
contain that separator, and the lengths that frame the key of an external entity are counted
modulo `2 ^ 32`. The two ways in which a boundary moves are all there are (`derived_known_iff`).
-/

namespace Exocortex

open Library

/-! ## The identities -/

/-- The bytes of a text. -/
def utf8 (text : String) : List UInt8 := text.toUTF8.toList

/-- Record separator. -/
def recordMark : UInt8 := 0x1e

/-- The identity of a row of an external table, by its coordinates. -/
def MemoryId.fromExternal (blake3 : List UInt8 → Bytes 32) (orgId sourceUri : String)
    (tableUuid logicalPk : List UInt8) (mappingVersion : UInt32) : MemoryId :=
  ⟨(blake3 (utf8 "exocortex-external-id-v2" ++ framed (utf8 orgId) ++ framed (utf8 sourceUri) ++
    framed tableUuid ++ framed logicalPk ++ leBytes 4 mappingVersion.toNat)).take 16 Bytes.id_fits⟩

/-- Rows of a batch get this identity. -/
theorem fromExternal_eq (blake3 : List UInt8 → Bytes 32) (orgId sourceUri : String)
    (key : WireExternalKey) : Exocortex.fromExternal blake3 orgId sourceUri key =
      MemoryId.fromExternal blake3 orgId sourceUri key.tableUuid (utf8 key.logicalPk)
        (UInt32.ofNat key.mappingVersion) := by
  have version : (leBytes64 key.mappingVersion).take 4 =
      leBytes 4 (UInt32.ofNat key.mappingVersion).toNat := by
    have same : leBytes 4 (UInt32.ofNat key.mappingVersion).toNat =
        leBytes 4 key.mappingVersion := by
      rw [leBytes_eq_iff, UInt32.toNat_ofNat']
      exact Nat.mod_mod _ _
    rw [same, leBytes64, ← List.map_take]
    rfl
  rw [Exocortex.fromExternal, version]
  rfl

def MemoryId.fromContentHash (blake3 : List UInt8 → Bytes 32) (orgId content : String) :
    MemoryId :=
  ⟨(blake3 (utf8 "content-hash-v1\x1e" ++ utf8 orgId ++ [recordMark] ++ utf8 content)).take 16
    Bytes.id_fits⟩

def EntityId.fromParts (blake3 : List UInt8 → Bytes 32) (orgId : String) (entityType : UInt8)
    (canonicalName : String) : EntityId :=
  ⟨(blake3 (utf8 "entity-v1\x1e" ++ utf8 orgId ++ [recordMark] ++ [entityType] ++ [recordMark] ++
    utf8 canonicalName)).take 16 Bytes.id_fits⟩

def EntityId.fromExternal (blake3 : List UInt8 → Bytes 32) (orgId : String)
    (tableUuid logicalPk : List UInt8) : EntityId :=
  ⟨(blake3 (utf8 "entity-ext-v1\x1e" ++ utf8 orgId ++ [recordMark] ++
    frame (leBytes 4) tableUuid ++ frame (leBytes 4) logicalPk)).take 16 Bytes.id_fits⟩

/-- The arguments of one of the five. -/
inductive IdArgs where
  | externalMemory (orgId sourceUri : String) (tableUuid logicalPk : List UInt8)
      (mappingVersion : UInt32)
  | contentHash (orgId content : String)
  | relationship (source : MemoryId) (kind : RelKindId) (target : MemoryId)
      (snapshot : Option String)
  | entityParts (orgId : String) (entityType : UInt8) (canonicalName : String)
  | externalEntity (orgId : String) (tableUuid logicalPk : List UInt8)
deriving DecidableEq

namespace IdArgs

def derived (blake3 : List UInt8 → Bytes 32) : IdArgs → Bytes 16
  | .externalMemory orgId sourceUri tableUuid logicalPk mappingVersion =>
      (MemoryId.fromExternal blake3 orgId sourceUri tableUuid logicalPk mappingVersion).raw
  | .contentHash orgId content => (MemoryId.fromContentHash blake3 orgId content).raw
  | .relationship source kind target snapshot =>
      (RelationshipId.derive blake3 source kind target snapshot).raw
  | .entityParts orgId entityType canonicalName =>
      (EntityId.fromParts blake3 orgId entityType canonicalName).raw
  | .externalEntity orgId tableUuid logicalPk =>
      (EntityId.fromExternal blake3 orgId tableUuid logicalPk).raw

/-- What is digested. -/
def preimage : IdArgs → List UInt8
  | .externalMemory orgId sourceUri tableUuid logicalPk mappingVersion =>
      utf8 "exocortex-external-id-v2" ++ framed (utf8 orgId) ++ framed (utf8 sourceUri) ++
        framed tableUuid ++ framed logicalPk ++ leBytes 4 mappingVersion.toNat
  | .contentHash orgId content =>
      utf8 "content-hash-v1\x1e" ++ utf8 orgId ++ [recordMark] ++ utf8 content
  | .relationship source kind target snapshot =>
      source.raw.bytes ++ kind.toLeBytes ++ target.raw.bytes ++ utf8 (snapshot.getD "")
  | .entityParts orgId entityType canonicalName =>
      utf8 "entity-v1\x1e" ++ utf8 orgId ++ [recordMark] ++ [entityType] ++ [recordMark] ++
        utf8 canonicalName
  | .externalEntity orgId tableUuid logicalPk =>
      utf8 "entity-ext-v1\x1e" ++ utf8 orgId ++ [recordMark] ++ frame (leBytes 4) tableUuid ++
        frame (leBytes 4) logicalPk

theorem derived_eq (blake3 : List UInt8 → Bytes 32) (args : IdArgs) :
    args.derived blake3 = (blake3 args.preimage).take 16 Bytes.id_fits := by
  cases args <;> rfl

/-- A relationship without a snapshot is one with the empty snapshot. -/
def canonical : IdArgs → IdArgs
  | .relationship source kind target snapshot =>
      .relationship source kind target (some (snapshot.getD ""))
  | args => args

/-- No string or slice is longer than a length can say. -/
def Addressable : IdArgs → Prop
  | .externalMemory orgId sourceUri tableUuid logicalPk _ =>
      (utf8 orgId).length < 2 ^ 64 ∧ (utf8 sourceUri).length < 2 ^ 64 ∧
        tableUuid.length < 2 ^ 64 ∧ logicalPk.length < 2 ^ 64
  | _ => True

end IdArgs

/-! ## Digests -/

theorem IdArgs.derived_eq_iff {args other : IdArgs} :
    (∀ blake3, args.derived blake3 = other.derived blake3) ↔ args.preimage = other.preimage := by
  have apart : (Bytes.fill 32 0).take 16 Bytes.id_fits ≠
      (Bytes.fill 32 1).take 16 Bytes.id_fits := by decide
  simp only [derived_eq]
  exact ⟨eq_of_digests apart, fun same _ => by rw [same]⟩

theorem utf8_inj {text other : String} : utf8 text = utf8 other ↔ text = other :=
  ⟨toUTF8_inj, congrArg utf8⟩

/-! ## Lengths of four bytes -/

/-- The first part is longer by a multiple of `2 ^ 32` bytes, which the second part gives up. -/
def Overlong (first second longer shorter : List UInt8) : Prop :=
  ∃ moved, moved ≠ [] ∧ 2 ^ 32 ∣ moved.length ∧ longer = first ++ moved ∧
    frame (leBytes 4) second = moved ++ frame (leBytes 4) shorter

theorem frame_inj {bytes other : List UInt8}
    (same : frame (leBytes 4) bytes = frame (leBytes 4) other) : bytes = other :=
  (List.append_inj same ((length_leBytes _ _).trans (length_leBytes _ _).symm)).2

theorem Overlong.ne {first second longer shorter : List UInt8}
    (overlong : Overlong first second longer shorter) : first ≠ longer := by
  obtain ⟨moved, some_, -, rfl, -⟩ := overlong
  intro same
  exact some_ (List.append_right_eq_self.mp same.symm)

theorem frames_eq_iff {first second third fourth : List UInt8} :
    frame (leBytes 4) first ++ frame (leBytes 4) second =
        frame (leBytes 4) third ++ frame (leBytes 4) fourth ↔
      (first = third ∧ second = fourth) ∨ Overlong first second third fourth ∨
        Overlong third fourth first second := by
  have sizes (n m : ℕ) : leBytes 4 n = leBytes 4 m ↔ n % 2 ^ 32 = m % 2 ^ 32 := leBytes_eq_iff
  have grown (part moved : List UInt8) :
      leBytes 4 part.length = leBytes 4 (part ++ moved).length ↔ 2 ^ 32 ∣ moved.length := by
    rw [sizes, List.length_append]
    omega
  constructor
  · intro same
    rw [frame_append, frame_append] at same
    obtain ⟨length, rest⟩ := List.append_inj same
      ((length_leBytes _ _).trans (length_leBytes _ _).symm)
    rcases List.append_eq_append_iff.mp rest with ⟨moved, rfl, back⟩ | ⟨moved, rfl, back⟩
    · by_cases none_ : moved = []
      · rw [none_, List.nil_append] at back
        exact .inl ⟨by rw [none_, List.append_nil], frame_inj back⟩
      · exact .inr (.inl ⟨moved, none_, (grown _ _).mp length, rfl, back⟩)
    · by_cases none_ : moved = []
      · rw [none_, List.nil_append] at back
        exact .inl ⟨by rw [none_, List.append_nil], (frame_inj back).symm⟩
      · exact .inr (.inr ⟨moved, none_, (grown _ _).mp length.symm, rfl, back⟩)
  · rintro (⟨rfl, rfl⟩ | ⟨moved, -, divides, rfl, back⟩ | ⟨moved, -, divides, rfl, back⟩)
    · rfl
    · rw [frame_append, frame_append, (grown first moved).mpr divides, back, List.append_assoc]
    · rw [frame_append, frame_append, (grown third moved).mpr divides, back, List.append_assoc]

/-! ## Parts of a known width -/

theorem framed_selfDelimiting : SelfDelimiting (fun bytes => bytes.length < 2 ^ 64) framed :=
  (leBytes_selfDelimiting (Nat.le_refl (256 ^ 8))).frame

theorem RelKindId.toLeBytes_inj {kind other : RelKindId}
    (same : kind.toLeBytes = other.toLeBytes) : kind = other := by
  obtain ⟨raw⟩ := kind
  obtain ⟨raw'⟩ := other
  have bytes (word : UInt32) : RelKindId.toLeBytes ⟨word⟩ = leBytes 4 word.toNat := by
    have size := word.toNat_lt
    simp only [toLeBytes, leBytes_succ, leBytes_zero, List.cons.injEq, ← UInt8.toNat_inj,
      UInt32.toNat_toUInt8, UInt32.toNat_shiftRight, UInt8.toNat_ofNat', and_true]
    simp only [Nat.shiftRight_eq_div_pow, UInt32.reduceToNat, Nat.reduceMod, Nat.reducePow]
    omega
  rw [bytes, bytes] at same
  rw [UInt32.toNat_inj.mp (leBytes_inj_of_lt raw.toNat_lt raw'.toNat_lt same)]

theorem Bytes.ext {n : ℕ} {bytes other : Bytes n} (same : bytes.bytes = other.bytes) :
    bytes = other := by
  cases bytes
  cases other
  cases same
  rfl

theorem MemoryId.ext_bytes {id other : MemoryId} (same : id.raw.bytes = other.raw.bytes) :
    id = other := by
  obtain ⟨raw⟩ := id
  obtain ⟨raw'⟩ := other
  exact congrArg MemoryId.mk (Bytes.ext same)

namespace IdArgs

variable {orgId orgId' : String}

theorem preimage_externalMemory_inj {sourceUri sourceUri' : String}
    {tableUuid tableUuid' logicalPk logicalPk' : List UInt8}
    {mappingVersion mappingVersion' : UInt32}
    (fits : (externalMemory orgId sourceUri tableUuid logicalPk mappingVersion).Addressable)
    (fits' : (externalMemory orgId' sourceUri' tableUuid' logicalPk' mappingVersion').Addressable)
    (same : (externalMemory orgId sourceUri tableUuid logicalPk mappingVersion).preimage =
      (externalMemory orgId' sourceUri' tableUuid' logicalPk' mappingVersion').preimage) :
    externalMemory orgId sourceUri tableUuid logicalPk mappingVersion =
      externalMemory orgId' sourceUri' tableUuid' logicalPk' mappingVersion' := by
  simp only [preimage, List.append_assoc] at same
  obtain ⟨org, same⟩ := framed_selfDelimiting fits.1 fits'.1 (List.append_cancel_left same)
  obtain ⟨uri, same⟩ := framed_selfDelimiting fits.2.1 fits'.2.1 same
  obtain ⟨table, same⟩ := framed_selfDelimiting fits.2.2.1 fits'.2.2.1 same
  obtain ⟨key, same⟩ := framed_selfDelimiting fits.2.2.2 fits'.2.2.2 same
  have version := leBytes_inj_of_lt mappingVersion.toNat_lt mappingVersion'.toNat_lt same
  rw [utf8_inj.mp org, utf8_inj.mp uri, table, key, UInt32.toNat_inj.mp version]

theorem preimage_relationship_inj {source source' target target' : MemoryId}
    {kind kind' : RelKindId} {snapshot snapshot' : Option String}
    (same : (relationship source kind target snapshot).preimage =
      (relationship source' kind' target' snapshot').preimage) :
    (relationship source kind target snapshot).canonical =
      (relationship source' kind' target' snapshot').canonical := by
  simp only [preimage, List.append_assoc] at same
  obtain ⟨first, same⟩ := List.append_inj same (source.raw.size.trans source'.raw.size.symm)
  obtain ⟨second, same⟩ := List.append_inj same rfl
  obtain ⟨third, same⟩ := List.append_inj same (target.raw.size.trans target'.raw.size.symm)
  rw [canonical, canonical, utf8_inj.mp same, RelKindId.toLeBytes_inj second,
    MemoryId.ext_bytes first, MemoryId.ext_bytes third]

theorem preimage_contentHash_iff {content content' : String} :
    ((contentHash orgId content).preimage = (contentHash orgId' content').preimage →
        orgId = orgId' ∧ content = content') ↔
      ¬ Slides recordMark (utf8 orgId) (utf8 content) (utf8 orgId') (utf8 content') ∧
        ¬ Slides recordMark (utf8 orgId') (utf8 content') (utf8 orgId) (utf8 content) := by
  rw [← parts_known_iff, utf8_inj, utf8_inj]
  simp only [preimage, List.append_assoc, List.singleton_append, List.append_cancel_left_eq]

theorem preimage_entityParts_iff {name name' : String} {type type' : UInt8} :
    ((entityParts orgId type name).preimage = (entityParts orgId' type' name').preimage →
        orgId = orgId' ∧ type = type' ∧ name = name') ↔
      ¬ Slides recordMark (utf8 orgId) (type :: recordMark :: utf8 name) (utf8 orgId')
          (type' :: recordMark :: utf8 name') ∧
        ¬ Slides recordMark (utf8 orgId') (type' :: recordMark :: utf8 name') (utf8 orgId)
          (type :: recordMark :: utf8 name) := by
  rw [← parts_known_iff, List.cons.injEq, List.cons.injEq, utf8_inj, utf8_inj,
    eq_self recordMark, true_and]
  simp only [preimage, List.append_assoc, List.singleton_append, List.append_cancel_left_eq]
  rfl

theorem preimage_externalEntity_iff {table table' key key' : List UInt8} :
    ((externalEntity orgId table key).preimage = (externalEntity orgId' table' key').preimage →
        orgId = orgId' ∧ table = table' ∧ key = key') ↔
      (¬ Slides recordMark (utf8 orgId) (frame (leBytes 4) table ++ frame (leBytes 4) key)
          (utf8 orgId') (frame (leBytes 4) table' ++ frame (leBytes 4) key') ∧
        ¬ Slides recordMark (utf8 orgId') (frame (leBytes 4) table' ++ frame (leBytes 4) key')
          (utf8 orgId) (frame (leBytes 4) table ++ frame (leBytes 4) key)) ∧
      ¬ (orgId = orgId' ∧ (Overlong table key table' key' ∨ Overlong table' key' table key)) := by
  have bytes : (externalEntity orgId table key).preimage =
      (externalEntity orgId' table' key').preimage ↔
        (orgId = orgId' ∧ frame (leBytes 4) table ++ frame (leBytes 4) key =
          frame (leBytes 4) table' ++ frame (leBytes 4) key') ∨
        Slides recordMark (utf8 orgId) (frame (leBytes 4) table ++ frame (leBytes 4) key)
          (utf8 orgId') (frame (leBytes 4) table' ++ frame (leBytes 4) key') ∨
        Slides recordMark (utf8 orgId') (frame (leBytes 4) table' ++ frame (leBytes 4) key')
          (utf8 orgId) (frame (leBytes 4) table ++ frame (leBytes 4) key) := by
    rw [← utf8_inj, ← append_cons_eq_iff]
    simp only [preimage, List.append_assoc, List.cons_append, List.nil_append,
      List.append_cancel_left_eq]
  rw [bytes, frames_eq_iff]
  constructor
  · intro known
    refine ⟨⟨fun slides => slides.ne ?_, fun slides => slides.ne ?_⟩, ?_⟩
    · rw [(known (.inr (.inl slides))).1]
    · rw [(known (.inr (.inr slides))).1]
    · rintro ⟨org, overlong | overlong⟩
      · exact overlong.ne (known (.inl ⟨org, .inr (.inl overlong)⟩)).2.1
      · exact overlong.ne (known (.inl ⟨org, .inr (.inr overlong)⟩)).2.1.symm
  · rintro ⟨⟨ahead, behind⟩, short⟩ (⟨org, same | overlong⟩ | slides | slides)
    · exact ⟨org, same⟩
    · exact absurd ⟨org, overlong⟩ short
    · exact absurd slides ahead
    · exact absurd slides behind

/-- A boundary between two of the arguments stands further on in the others: after the organization
where that has a separator, or after a table of `2 ^ 32` bytes or more. -/
def ShiftsTo : IdArgs → IdArgs → Prop
  | .contentHash orgId content, .contentHash orgId' content' =>
      Slides recordMark (utf8 orgId) (utf8 content) (utf8 orgId') (utf8 content')
  | .entityParts orgId type name, .entityParts orgId' type' name' =>
      Slides recordMark (utf8 orgId) (type :: recordMark :: utf8 name)
        (utf8 orgId') (type' :: recordMark :: utf8 name')
  | .externalEntity orgId table key, .externalEntity orgId' table' key' =>
      Slides recordMark (utf8 orgId) (frame (leBytes 4) table ++ frame (leBytes 4) key)
          (utf8 orgId') (frame (leBytes 4) table' ++ frame (leBytes 4) key') ∨
        orgId = orgId' ∧ Overlong table key table' key'
  | _, _ => False

/-- **Which arguments an identity tells apart**: those of external memories and of relationships
all, and of the other three identities those that no shift of a boundary leads to. -/
theorem derived_known_iff {args other : IdArgs} (alike : args.ctorIdx = other.ctorIdx)
    (fits : args.Addressable) (fits' : other.Addressable) :
    ((∀ blake3, args.derived blake3 = other.derived blake3) → args.canonical = other.canonical) ↔
      ¬ args.ShiftsTo other ∧ ¬ other.ShiftsTo args := by
  rw [derived_eq_iff]
  cases args with
  | externalMemory =>
      cases other with
      | externalMemory =>
          refine iff_of_true (fun same => ?_) ⟨id, id⟩
          rw [preimage_externalMemory_inj fits fits' same]
      | _ => cases alike
  | contentHash =>
      cases other with
      | contentHash =>
          simp only [canonical, contentHash.injEq, preimage_contentHash_iff, ShiftsTo]
      | _ => cases alike
  | relationship =>
      cases other with
      | relationship => exact iff_of_true preimage_relationship_inj ⟨id, id⟩
      | _ => cases alike
  | entityParts =>
      cases other with
      | entityParts =>
          simp only [canonical, entityParts.injEq, preimage_entityParts_iff, ShiftsTo]
      | _ => cases alike
  | externalEntity =>
      cases other with
      | externalEntity =>
          simp only [canonical, externalEntity.injEq, preimage_externalEntity_iff, ShiftsTo]
          constructor
          · rintro ⟨⟨ahead, behind⟩, short⟩
            refine ⟨?_, ?_⟩
            · rintro (slides | ⟨org, overlong⟩)
              · exact ahead slides
              · exact short ⟨org, .inl overlong⟩
            · rintro (slides | ⟨org, overlong⟩)
              · exact behind slides
              · exact short ⟨org.symm, .inr overlong⟩
          · rintro ⟨ahead, behind⟩
            refine ⟨⟨fun slides => ahead (.inl slides), fun slides => behind (.inl slides)⟩, ?_⟩
            rintro ⟨org, overlong | overlong⟩
            · exact ahead (.inr ⟨org, overlong⟩)
            · exact behind (.inr ⟨org.symm, overlong⟩)
      | _ => cases alike

end IdArgs

/-- Rows of one table with different keys. -/
theorem derived_known_rows : ¬ ∀ blake3,
    (IdArgs.externalMemory "acme" "crm://" [1] [2] 1).derived blake3 =
      (IdArgs.externalMemory "acme" "crm://" [1] [3] 1).derived blake3 := by
  intro same
  have short : ∀ text ∈ ["acme", "crm://"], (utf8 text).length < 2 ^ 64 := by decide +kernel
  have fits (key : UInt8) : (IdArgs.externalMemory "acme" "crm://" [1] [key] 1).Addressable :=
    ⟨short _ (by decide), short _ (by decide), Nat.one_lt_two_pow (by decide),
      Nat.one_lt_two_pow (by decide)⟩
  have known := (@IdArgs.derived_known_iff (.externalMemory "acme" "crm://" [1] [2] 1)
    (.externalMemory "acme" "crm://" [1] [3] 1) rfl (fits 2) (fits 3)).mpr ⟨id, id⟩ same
  exact absurd known (by decide)

/-- A separator in the organization is taken for the one after it. -/
theorem not_derived_known : ¬ ∀ args other : IdArgs, args.ctorIdx = other.ctorIdx →
    args.Addressable → other.Addressable →
    (∀ blake3, args.derived blake3 = other.derived blake3) → args.canonical = other.canonical := by
  intro always
  have same := always (.contentHash "a" "b\x1ec") (.contentHash "a\x1eb" "c") rfl trivial trivial
    (IdArgs.derived_eq_iff.mpr (by decide +kernel))
  exact absurd same (by decide)

end Exocortex
