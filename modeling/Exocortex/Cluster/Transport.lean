import Mathlib.Tactic.Common

/-!
# Base64 text

`base64Encode` writes three bytes as four letters, and pads the last group. `base64DecodeBounded`
refuses a text above a bound before it reads it, skips blanks, checks the padding, and reads the
letters. What was written is read back, if it is within the bound
(`base64DecodeBounded_base64Encode`).

The bits of a group are joined as a number, so that joining disjoint bits is addition.
-/

namespace Exocortex

/-- The letter for six bits. -/
def base64Letter (bits : ℕ) : UInt8 :=
  if bits < 26 then .ofNat (65 + bits)
  else if bits < 52 then .ofNat (97 + (bits - 26))
  else if bits < 62 then .ofNat (48 + (bits - 52))
  else if bits = 62 then 43
  else 47

/-- The bits of a letter. -/
def sextet (byte : UInt8) : Option ℕ :=
  if 65 ≤ byte ∧ byte ≤ 90 then some (byte.toNat - 65)
  else if 97 ≤ byte ∧ byte ≤ 122 then some (byte.toNat - 97 + 26)
  else if 48 ≤ byte ∧ byte ≤ 57 then some (byte.toNat - 48 + 52)
  else if byte = 43 then some 62
  else if byte = 47 then some 63
  else none

/-- The sign that pads the last group. -/
def padSign : UInt8 := 61

def isAsciiWhitespace (byte : UInt8) : Bool := byte ∈ [32, 9, 10, 12, 13]

/-- The letters of a group of three bytes, as many as are asked for. -/
def groupLetters (first second third : UInt8) (count : ℕ) : List UInt8 :=
  let n := first.toNat * 65536 + second.toNat * 256 + third.toNat
  [base64Letter (n / 262144 % 64), base64Letter (n / 4096 % 64), base64Letter (n / 64 % 64),
    base64Letter (n % 64)].take count

def base64Encode : List UInt8 → List UInt8
  | [] => []
  | [first] => groupLetters first 0 0 2 ++ [padSign, padSign]
  | [first, second] => groupLetters first second 0 3 ++ [padSign]
  | first :: second :: third :: rest => groupLetters first second third 4 ++ base64Encode rest

/-- The bytes of a number of 24 bits, the highest first, as many as are asked for. -/
def groupBytes (n count : ℕ) : List UInt8 :=
  [UInt8.ofNat (n / 65536), UInt8.ofNat (n / 256), UInt8.ofNat n].take count

/-- Read letters in groups of four; the last group may be shorter. -/
def decodeLetters : List UInt8 → Option (List UInt8)
  | [] => some []
  | [a] => do
      let a ← sextet a
      return groupBytes (a * 262144) 1
  | [a, b] => do
      let a ← sextet a
      let b ← sextet b
      return groupBytes (a * 262144 + b * 4096) 1
  | [a, b, c] => do
      let a ← sextet a
      let b ← sextet b
      let c ← sextet c
      return groupBytes (a * 262144 + b * 4096 + c * 64) 2
  | a :: b :: c :: d :: rest => do
      let a ← sextet a
      let b ← sextet b
      let c ← sextet c
      let d ← sextet d
      let bytes ← decodeLetters rest
      return groupBytes (a * 262144 + b * 4096 + c * 64 + d) 3 ++ bytes

def base64DecodeBounded (value : List UInt8) (maxEncodedBytes : ℕ) : Option (List UInt8) :=
  if maxEncodedBytes < value.length then none
  else
    let bytes := value.filter fun byte => !isAsciiWhitespace byte
    let unpadded := bytes.takeWhile (· ≠ padSign)
    let padding := bytes.length - unpadded.length
    if bytes.length % 4 ≠ 0 ∨ 2 < padding ∨ (bytes.drop unpadded.length).any (· ≠ padSign) ∨
        (padding = 1 ∧ unpadded.length % 4 ≠ 3) ∨ (padding = 2 ∧ unpadded.length % 4 ≠ 2) then none
    else decodeLetters unpadded

/-! ## What is written is read back -/

/-- A letter stands for its bits, is no blank and does not pad. -/
theorem base64Letter_spec {bits : ℕ} (small : bits < 64) :
    sextet (base64Letter bits) = some bits ∧ isAsciiWhitespace (base64Letter bits) = false ∧
      base64Letter bits ≠ padSign := by
  have every : ∀ value : Fin 64, sextet (base64Letter value) = some value.val ∧
      isAsciiWhitespace (base64Letter value) = false ∧ base64Letter value ≠ padSign := by
    decide
  exact every ⟨bits, small⟩

/-- The letters without the padding. -/
def unpaddedLetters : List UInt8 → List UInt8
  | [] => []
  | [first] => groupLetters first 0 0 2
  | [first, second] => groupLetters first second 0 3
  | first :: second :: third :: rest => groupLetters first second third 4 ++ unpaddedLetters rest

theorem base64Encode_eq (bytes : List UInt8) :
    base64Encode bytes = unpaddedLetters bytes ++
      List.replicate ((3 - bytes.length % 3) % 3) padSign := by
  induction bytes using base64Encode.induct with
  | case1 => rfl
  | case2 first => rfl
  | case3 first second => rfl
  | case4 first second third rest ih =>
      have groups : (first :: second :: third :: rest).length % 3 = rest.length % 3 := by
        simp only [List.length_cons]
        omega
      rw [base64Encode, unpaddedLetters, ih, groups, List.append_assoc]

theorem length_unpaddedLetters (bytes : List UInt8) :
    (unpaddedLetters bytes).length = (bytes.length * 4 + 2) / 3 := by
  have widths : ∀ (first second third : UInt8) (count : ℕ), count ≤ 4 →
      (groupLetters first second third count).length = count := by
    intro first second third count few
    rw [groupLetters, List.length_take]
    exact Nat.min_eq_left few
  induction bytes using unpaddedLetters.induct with
  | case1 => rfl
  | case2 first => rw [unpaddedLetters, widths _ _ _ 2 (by decide), List.length_singleton]
  | case3 first second =>
      rw [unpaddedLetters, widths _ _ _ 3 (by decide), List.length_cons, List.length_singleton]
  | case4 first second third rest ih =>
      rw [unpaddedLetters, List.length_append, ih, widths _ _ _ 4 (Nat.le_refl 4)]
      simp only [List.length_cons]
      omega

/-- Every letter that is written stands for some bits. -/
theorem mem_unpaddedLetters {bytes : List UInt8} {letter : UInt8}
    (member : letter ∈ unpaddedLetters bytes) : ∃ bits < 64, letter = base64Letter bits := by
  have group : ∀ {first second third : UInt8} {count : ℕ},
      letter ∈ groupLetters first second third count → ∃ bits < 64, letter = base64Letter bits := by
    intro first second third count listed
    have among := List.mem_of_mem_take listed
    simp only [List.mem_cons, List.not_mem_nil, or_false] at among
    rcases among with rfl | rfl | rfl | rfl <;> exact ⟨_, Nat.mod_lt _ (by decide), rfl⟩
  induction bytes using unpaddedLetters.induct with
  | case1 => cases member
  | case2 first => exact group member
  | case3 first second => exact group member
  | case4 first second third rest ih =>
      rcases List.mem_append.mp member with here | later
      · exact group here
      · exact ih later

theorem decodeLetters_unpaddedLetters (bytes : List UInt8) :
    decodeLetters (unpaddedLetters bytes) = some bytes := by
  have reads : ∀ n : ℕ, sextet (base64Letter (n % 64)) = some (n % 64) :=
    fun n => (base64Letter_spec (Nat.mod_lt n (by decide))).1
  have byte : ∀ (value : UInt8) (n : ℕ), n % 256 = value.toNat → UInt8.ofNat n = value := by
    intro value n same
    apply UInt8.toNat_inj.mp
    rw [UInt8.toNat_ofNat', same]
  induction bytes using unpaddedLetters.induct with
  | case1 => rfl
  | case2 first =>
      have bound := first.toNat_lt
      simp only [unpaddedLetters, groupLetters, List.take_succ_cons, List.take_zero, decodeLetters,
        reads, groupBytes]
      refine congrArg some (congrArg (· :: []) (byte first _ ?_))
      simp only [UInt8.toNat_zero]
      omega
  | case3 first second =>
      have bound := first.toNat_lt
      have bound' := second.toNat_lt
      simp only [unpaddedLetters, groupLetters, List.take_succ_cons, List.take_zero, decodeLetters,
        reads, groupBytes]
      refine congrArg some (congrArg₂ (· :: · :: []) (byte first _ ?_) (byte second _ ?_)) <;>
        · simp only [UInt8.toNat_zero]
          omega
  | case4 first second third rest ih =>
      have bound := first.toNat_lt
      have bound' := second.toNat_lt
      have bound'' := third.toNat_lt
      simp only [unpaddedLetters, groupLetters, List.take_succ_cons, List.take_zero,
        List.cons_append, List.nil_append, decodeLetters, reads, ih, groupBytes]
      exact congrArg some (congrArg₂ List.cons (byte first _ (by omega))
        (congrArg₂ List.cons (byte second _ (by omega))
          (congrArg (· :: rest) (byte third _ (by omega)))))

/-- The length of the text: four letters for three bytes, or for fewer at the end. -/
theorem length_base64Encode (bytes : List UInt8) :
    (base64Encode bytes).length = (bytes.length + 2) / 3 * 4 := by
  rw [base64Encode_eq, List.length_append, length_unpaddedLetters, List.length_replicate]
  omega

/-- **A text that was written is read back, unless it is above the bound.** -/
theorem base64DecodeBounded_base64Encode (bytes : List UInt8) (maxEncodedBytes : ℕ) :
    base64DecodeBounded (base64Encode bytes) maxEncodedBytes =
      if maxEncodedBytes < (base64Encode bytes).length then none else some bytes := by
  have shape := base64Encode_eq bytes
  have letters : ∀ letter ∈ unpaddedLetters bytes,
      isAsciiWhitespace letter = false ∧ letter ≠ padSign := by
    intro letter member
    obtain ⟨bits, small, rfl⟩ := mem_unpaddedLetters member
    exact (base64Letter_spec small).2
  have filtered : (base64Encode bytes).filter (fun byte => !isAsciiWhitespace byte) =
      base64Encode bytes := by
    refine List.filter_eq_self.mpr fun byte member => ?_
    rw [shape] at member
    rcases List.mem_append.mp member with letter | pad
    · rw [(letters byte letter).1, Bool.not_false]
    · rw [(List.mem_replicate.mp pad).2]
      rfl
  have unpadded : (base64Encode bytes).takeWhile (· ≠ padSign) = unpaddedLetters bytes := by
    rw [shape, List.takeWhile_append_of_pos fun letter member => by
      simpa using (letters letter member).2]
    cases (3 - bytes.length % 3) % 3 with
    | zero => simp
    | succ n => simp [List.replicate_succ]
  have width := length_base64Encode bytes
  have inner := length_unpaddedLetters bytes
  rw [base64DecodeBounded]
  split
  · rfl
  · dsimp only
    rw [filtered, unpadded, if_neg, decodeLetters_unpaddedLetters]
    rintro (uneven | wide | other | one | two)
    · omega
    · omega
    · rw [shape, List.drop_left] at other
      obtain ⟨byte, member, apart⟩ := List.any_eq_true.mp other
      exact absurd (List.mem_replicate.mp member).2 (by simpa using apart)
    · omega
    · omega

end Exocortex
