import Mathlib

/-!
# Numbers of variable width

A number is written in bytes of seven bits each, the lowest first, and every byte but the last has
its highest bit set (`Varint`). Such bytes say where they end, and stand for one number
(`Varint.value`); the shortest ones are written (`Varint.encode`). A number with a sign is written
as one without (`zigzag`), so that small numbers of either sign have few bytes.
-/

namespace Library

/-! ## Bytes of seven bits -/

/-- Bytes that end with the first one whose highest bit is not set. -/
structure Varint where
  front : List UInt8
  last : UInt8
  goesOn : ∀ byte ∈ front, 128 ≤ byte.toNat
  ends : last.toNat < 128

namespace Varint

def bytes (v : Varint) : List UInt8 := v.front ++ [v.last]

/-- What seven bits of each byte stand for. -/
def valueOf : List UInt8 → ℕ
  | [] => 0
  | byte :: bytes => byte.toNat % 128 + 128 * valueOf bytes

def value (v : Varint) : ℕ := valueOf v.bytes

@[simp] theorem length_bytes (v : Varint) : v.bytes.length = v.front.length + 1 := by
  rw [bytes, List.length_append, List.length_singleton]

theorem valueOf_append (front back : List UInt8) :
    valueOf (front ++ back) = valueOf front + 128 ^ front.length * valueOf back := by
  induction front with
  | nil => rw [List.nil_append, valueOf, List.length_nil, Nat.pow_zero, Nat.one_mul, Nat.zero_add]
  | cons byte front ih =>
      rw [List.cons_append, valueOf, valueOf, ih, List.length_cons, Nat.pow_succ]
      ring

theorem valueOf_lt (bytes : List UInt8) : valueOf bytes < 128 ^ bytes.length := by
  induction bytes with
  | nil => exact Nat.one_pos
  | cons byte bytes ih =>
      rw [valueOf, List.length_cons, Nat.pow_succ]
      have digit := Nat.mod_lt byte.toNat (show 0 < 128 by decide)
      omega

theorem value_eq (v : Varint) :
    v.value = valueOf v.front + 128 ^ v.front.length * v.last.toNat := by
  rw [value, bytes, valueOf_append, valueOf, valueOf, Nat.mod_eq_of_lt v.ends, Nat.mul_zero,
    Nat.add_zero]

/-- A list either begins with such bytes, or they do not end in it. -/
theorem exists_of_list (bytes : List UInt8) :
    (∃ (v : Varint) (rest : List UInt8), bytes = v.bytes ++ rest) ∨
      ∀ byte ∈ bytes, 128 ≤ byte.toNat := by
  induction bytes with
  | nil => exact .inr nofun
  | cons byte bytes ih =>
      by_cases ends : byte.toNat < 128
      · exact .inl ⟨⟨[], byte, nofun, ends⟩, bytes, rfl⟩
      · have more := Nat.le_of_not_lt ends
        rcases ih with ⟨v, rest, rfl⟩ | all
        · exact .inl ⟨⟨byte :: v.front, v.last, List.forall_mem_cons.mpr ⟨more, v.goesOn⟩, v.ends⟩,
            rest, rfl⟩
        · exact .inr (List.forall_mem_cons.mpr ⟨more, all⟩)

/-! ## The shortest bytes -/

/-- The bytes of a number. -/
def encode (n : ℕ) : Varint :=
  if small : n < 128 then ⟨[], .ofNat n, nofun, by rw [UInt8.toNat_ofNat']; omega⟩
  else
    { front := .ofNat (n % 128 + 128) :: (encode (n / 128)).front
      last := (encode (n / 128)).last
      goesOn := List.forall_mem_cons.mpr
        ⟨by rw [UInt8.toNat_ofNat']; omega, (encode (n / 128)).goesOn⟩
      ends := (encode (n / 128)).ends }
termination_by n

theorem value_encode (n : ℕ) : (encode n).value = n := by
  induction n using Nat.strongRecOn with
  | ind n ih =>
      rw [encode]
      split
      · rw [value, bytes, List.nil_append, valueOf, valueOf, UInt8.toNat_ofNat']
        omega
      · have later := ih (n / 128) (by omega)
        rw [value, bytes] at later ⊢
        rw [List.cons_append, valueOf, later, UInt8.toNat_ofNat']
        omega

theorem length_encode {n count : ℕ} (small : n < 128 ^ (count + 1)) :
    (encode n).front.length ≤ count := by
  induction count generalizing n with
  | zero =>
      rw [encode, dif_pos (by simpa using small)]
      exact Nat.le_refl 0
  | succ count ih =>
      rw [encode]
      split
      · exact Nat.zero_le _
      · rw [List.length_cons]
        have below : n / 128 < 128 ^ (count + 1) := by
          rw [Nat.pow_succ] at small
          omega
        exact Nat.succ_le_succ (ih below)

end Varint

/-! ## Signs -/

/-- Numbers that are not negative are even, and the others odd. -/
def zigzag (n : ℤ) : ℕ := if 0 ≤ n then 2 * n.toNat else 2 * (-n).toNat - 1

def unzigzag (n : ℕ) : ℤ := if n % 2 = 0 then n / 2 else -(n / 2) - 1

theorem unzigzag_zigzag (n : ℤ) : unzigzag (zigzag n) = n := by
  rw [zigzag]
  split
  · rw [unzigzag, if_pos (by omega)]
    omega
  · rw [unzigzag, if_neg (by omega)]
    omega

theorem zigzag_lt {n : ℤ} {width : ℕ} (low : -2 ^ width ≤ n) (high : n < 2 ^ width) :
    zigzag n < 2 ^ (width + 1) := by
  have power : ((2 ^ width : ℕ) : ℤ) = 2 ^ width := Nat.cast_pow 2 width
  rw [zigzag, Nat.pow_succ]
  split <;> omega

end Library
