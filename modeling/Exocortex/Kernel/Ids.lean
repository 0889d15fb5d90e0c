import Mathlib.Data.List.AList

/-!
# Identities and sequence numbers

The kernel's identities are fixed-width byte strings. A `Bytes n` carries the
proof of its width, so an identity of another width cannot be built. Identities
order as byte strings do, which is the order their `BTreeMap`s iterate in.

BLAKE3 is not part of the repository. A relationship identity is the first
sixteen bytes of its digest of the framed coordinates, for any digest function.
-/

namespace Exocortex

/-- A byte string of width `n`. -/
structure Bytes (n : ℕ) where
  bytes : List UInt8
  size : bytes.length = n
deriving DecidableEq

namespace Bytes

/-- The byte string that repeats one byte. -/
def fill (n : ℕ) (byte : UInt8) : Bytes n := ⟨List.replicate n byte, List.length_replicate⟩

/-- The first bytes of a longer string. -/
def take {n : ℕ} (m : ℕ) (fits : m ≤ n) (digest : Bytes n) : Bytes m :=
  ⟨digest.bytes.take m, by rw [List.length_take, digest.size, min_eq_left fits]⟩

/-- An identity is as long as half a digest. -/
theorem id_fits : 16 ≤ 32 := by decide

/-- Byte strings compare lexicographically. -/
def le {n : ℕ} (left right : Bytes n) : Bool := !decide (right.bytes < left.bytes)

variable {n : ℕ}

theorem le_iff {left right : Bytes n} : left.le right ↔ left.bytes ≤ right.bytes := by
  rw [le, Bool.not_eq_true', decide_eq_false_iff_not]
  rfl

theorem le_total (left right : Bytes n) : left.le right ∨ right.le left := by
  rw [le_iff, le_iff]
  exact List.le_total left.bytes right.bytes

theorem le_trans {first second third : Bytes n} (below : first.le second)
    (above : second.le third) : first.le third :=
  le_iff.mpr (List.le_trans (le_iff.mp below) (le_iff.mp above))

theorem le_antisymm {left right : Bytes n} (below : left.le right) (above : right.le left) :
    left = right := by
  have same := List.le_antisymm (le_iff.mp below) (le_iff.mp above)
  cases left
  cases right
  subst same
  rfl

/-- Two lowercase hexadecimal digits, as `{:02x}` prints a byte. -/
def hexByte (byte : UInt8) : String :=
  let digits := Nat.toDigits 16 byte.toNat
  String.ofList (if digits.length < 2 then '0' :: digits else digits)

/-- The text `{:02x?}` prints for a byte array. -/
def debugHex {n : ℕ} (value : Bytes n) : String :=
  "[" ++ ", ".intercalate (value.bytes.map hexByte) ++ "]"

/-- The text of a digest: its bytes in hexadecimal, without separators. -/
def digestHex {n : ℕ} (value : Bytes n) : String := String.join (value.bytes.map hexByte)

end Bytes

/-- 128-bit deterministic memory identity. -/
structure MemoryId where
  raw : Bytes 16
deriving DecidableEq

/-- Relationship identity, always derived. -/
structure RelationshipId where
  raw : Bytes 16
deriving DecidableEq

/-- Entity identity. -/
structure EntityId where
  raw : Bytes 16
deriving DecidableEq

/-- Interned handle of a relationship kind. -/
structure RelKindId where
  raw : UInt32
deriving DecidableEq

/-- The four bytes of a kind handle, least significant first. -/
def RelKindId.toLeBytes (kind : RelKindId) : List UInt8 :=
  [kind.raw.toUInt8, (kind.raw >>> 8).toUInt8, (kind.raw >>> 16).toUInt8,
    (kind.raw >>> 24).toUInt8]

/-- A relationship identity hashes its source, kind, target and snapshot. -/
def RelationshipId.derive (blake3 : List UInt8 → Bytes 32) (source : MemoryId) (kind : RelKindId)
    (target : MemoryId) (snapshot : Option String) : RelationshipId :=
  ⟨(blake3 (source.raw.bytes ++ kind.toLeBytes ++ target.raw.bytes ++
    (snapshot.getD "").toUTF8.toList)).take 16 Bytes.id_fits⟩

/-- The two spaces a sequence number can come from. -/
inductive LsnSpace where
  | clientWal
  | backend
deriving DecidableEq

/-- A log sequence number together with its space. -/
structure LSN where
  space : LsnSpace
  value : ℕ
deriving DecidableEq

/-- A sequence number of the backend graph log. -/
def LSN.newBackend (value : ℕ) : LSN := ⟨.backend, value⟩

/-- A sequence number of a client's own log. -/
def LSN.newLocal (value : ℕ) : LSN := ⟨.clientWal, value⟩

end Exocortex
