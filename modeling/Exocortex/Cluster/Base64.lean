import Exocortex.Cluster.Transport
import Exocortex.Library.Buffers

/-!
# Base64 as a codec

`base64DecodeChecked` is the decoder with the places where it takes a piece of a buffer or shifts by
a difference. None of them is outside of what is there, and it comes to what `base64DecodeBounded`
comes to (`base64DecodeChecked_eq`).

In the last letter before the padding, four bits or two stand for nothing. The decoder does not look
at them, so a text with other bits there is read as the same bytes. Without such bits a text that is
read is the one that was written (`base64_canonical_iff`).
-/

namespace Exocortex

open Library

/-! ## The decoder with its buffers -/

/-- One more letter of a chunk, with the bits in their place. -/
def joinLetter (n : ℕ) (letter : UInt8 × ℕ) : Checked Unit ℕ := do
  let bits ← Checked.ofOption () (sextet letter.1)
  let shift ← Checked.sub 18 (6 * letter.2)
  return n ||| bits <<< shift

def chunkBits (chunk : List UInt8) : Checked Unit ℕ := chunk.zipIdx.foldlM joinLetter 0

/-- The bytes of a chunk of so many letters. -/
def chunkBytes (n width : ℕ) : List UInt8 :=
  UInt8.ofNat (n >>> 16) :: ((if 2 < width then [UInt8.ofNat (n >>> 8)] else []) ++
    if 3 < width then [UInt8.ofNat n] else [])

def decodeChunk (chunk : List UInt8) : Checked Unit (List UInt8) := do
  let n ← chunkBits chunk
  return chunkBytes n chunk.length

def base64DecodeChecked (value : Buffer) (maxEncodedBytes : ℕ) : Checked Unit (List UInt8) :=
  if maxEncodedBytes < value.bytes.length then Checked.refuse ()
  else do
    let bytes := value.bytes.filter fun byte => !isAsciiWhitespace byte
    let unpadded := bytes.takeWhile (· ≠ padSign)
    let padding := bytes.length - unpadded.length
    let padded ← Checked.sliceFrom bytes unpadded.length
    if bytes.length % 4 ≠ 0 ∨ 2 < padding ∨ padded.any (· ≠ padSign) ∨
        (padding = 1 ∧ unpadded.length % 4 ≠ 3) ∨ (padding = 2 ∧ unpadded.length % 4 ≠ 2) then
      Checked.refuse ()
    else return (← (chunks 4 unpadded).mapM decodeChunk).flatten

/-- The greatest address. -/
def usizeMax : ℕ := 2 ^ 64 - 1

def base64Decode (value : List UInt8) : Option (List UInt8) := base64DecodeBounded value usizeMax

/-! ## What the decoder with its buffers comes to -/

/-- Bits that are joined below others are added. -/
theorem or_shiftLeft {m bits k : ℕ} (small : bits < 64) :
    m * 2 ^ (k + 6) ||| bits <<< k = m * 2 ^ (k + 6) + bits * 2 ^ k := by
  have below : bits <<< k < 2 ^ (k + 6) := by
    rw [Nat.shiftLeft_eq, Nat.pow_add, Nat.mul_comm]
    exact Nat.mul_lt_mul_of_pos_left small (Nat.two_pow_pos k)
  have joined := Nat.shiftLeft_add_eq_or_of_lt below m
  rw [Nat.shiftLeft_eq, Nat.shiftLeft_eq] at joined
  rw [Nat.shiftLeft_eq]
  exact joined.symm

theorem base64Letter_sextet {byte : UInt8} {bits : ℕ} (known : sextet byte = some bits) :
    bits < 64 ∧ base64Letter bits = byte := by
  have every : (sextet byte).all (fun bits =>
      decide (bits < 64 ∧ base64Letter bits = byte)) = true :=
    forall_bytes (P := fun byte => (sextet byte).all (fun bits =>
      decide (bits < 64 ∧ base64Letter bits = byte)) = true) (by decide +kernel) byte
  rw [known] at every
  exact of_decide_eq_true every

variable {letters : List UInt8}

/-- What the letters of a chunk stand for. -/
theorem foldlM_joinLetter {index room m : ℕ} (few : index + letters.length + room = 4) :
    (letters.zipIdx index).foldlM joinLetter (m * 2 ^ (6 * (letters.length + room))) =
      Checked.ofOption () ((letters.mapM sextet).map fun bits =>
        bits.foldl (fun n value => n * 64 + value) m * 2 ^ (6 * room)) := by
  induction letters generalizing index m with
  | nil =>
      rw [List.zipIdx_nil, List.foldlM_nil, List.length_nil, Nat.zero_add]
      rfl
  | cons letter letters ih =>
      rw [List.length_cons] at few ⊢
      rw [List.zipIdx_cons, List.foldlM_cons, List.mapM_cons, joinLetter]
      cases known : sextet letter with
      | none => rfl
      | some bits =>
          have place : (Checked.sub 18 (6 * index) : Checked Unit ℕ) =
              .ok (6 * (letters.length + room)) := by
            rw [Checked.sub_of_le (by omega)]
            exact congrArg Except.ok (by omega)
          have wide : 6 * (letters.length + 1 + room) = 6 * (letters.length + room) + 6 := by omega
          have joined : m * 2 ^ (6 * (letters.length + 1 + room)) |||
              bits <<< (6 * (letters.length + room)) =
                (m * 64 + bits) * 2 ^ (6 * (letters.length + room)) := by
            rw [wide, or_shiftLeft (base64Letter_sextet known).1, Nat.pow_add]
            ring
          have rest := @ih (index + 1) (m * 64 + bits) (by omega)
          rw [place]
          change List.foldlM joinLetter (m * 2 ^ (6 * (letters.length + 1 + room)) |||
              bits <<< (6 * (letters.length + room))) _ = _
          rw [joined, rest]
          cases letters.mapM sextet with
          | none => rfl
          | some others => rfl

theorem chunkBytes_eq (n : ℕ) : chunkBytes n 1 = groupBytes n 1 ∧ chunkBytes n 2 = groupBytes n 1 ∧
    chunkBytes n 3 = groupBytes n 2 ∧ chunkBytes n 4 = groupBytes n 3 := by
  simp [chunkBytes, groupBytes, Nat.shiftRight_eq_div_pow]

/-- A chunk of up to four letters. -/
theorem decodeChunk_eq (room : ℕ) (few : letters.length + room = 4) :
    decodeChunk letters = Checked.ofOption () ((letters.mapM sextet).map fun bits =>
      chunkBytes (bits.foldl (fun n value => n * 64 + value) 0 * 2 ^ (6 * room))
        letters.length) := by
  have joined := @foldlM_joinLetter letters 0 room 0 (by omega)
  rw [Nat.zero_mul] at joined
  rw [decodeChunk, chunkBits, joined]
  cases letters.mapM sextet with
  | none => rfl
  | some bits => rfl

/-- **The chunks are read as the letters are.** -/
theorem mapM_decodeChunk (letters : List UInt8) :
    ((chunks 4 letters).mapM decodeChunk).map List.flatten =
      Checked.ofOption () (decodeLetters letters) := by
  -- the last chunk, when it is short
  have last : ∀ short : List UInt8, short ≠ [] → short.length ≤ 4 →
      ((chunks 4 short).mapM decodeChunk).map List.flatten = decodeChunk short := by
    intro short some_ few
    rw [chunks_of_ne_nil (by decide) some_, List.take_of_length_le few, List.drop_of_length_le few,
      chunks_nil, List.mapM_cons, List.mapM_nil]
    cases decodeChunk short with
    | error fault => rfl
    | ok bytes => exact congrArg Except.ok (List.append_nil bytes)
  induction letters using decodeLetters.induct with
  | case1 =>
      rw [chunks_nil]
      rfl
  | case2 a =>
      rw [last [a] (List.cons_ne_nil _ _) (by simp), decodeChunk_eq 3 rfl, decodeLetters,
        List.mapM_cons, List.mapM_nil]
      cases sextet a with
      | none => rfl
      | some a =>
          refine congrArg (fun bytes => Checked.ofOption () (some bytes)) ?_
          refine (chunkBytes_eq _).1.trans (congrArg (groupBytes · 1) ?_)
          simp
  | case3 a b =>
      rw [last [a, b] (List.cons_ne_nil _ _) (by simp), decodeChunk_eq 2 rfl,
        decodeLetters, List.mapM_cons, List.mapM_cons, List.mapM_nil]
      cases sextet a with
      | none => rfl
      | some a =>
          cases sextet b with
          | none => rfl
          | some b =>
              refine congrArg (fun bytes => Checked.ofOption () (some bytes)) ?_
              refine (chunkBytes_eq _).2.1.trans (congrArg (groupBytes · 1) ?_)
              simp only [List.foldl_cons, List.foldl_nil]
              omega
  | case4 a b c =>
      rw [last [a, b, c] (List.cons_ne_nil _ _) (by simp), decodeChunk_eq 1 rfl,
        decodeLetters, List.mapM_cons, List.mapM_cons, List.mapM_cons, List.mapM_nil]
      cases sextet a with
      | none => rfl
      | some a =>
          cases sextet b with
          | none => rfl
          | some b =>
              cases sextet c with
              | none => rfl
              | some c =>
                  refine congrArg (fun bytes => Checked.ofOption () (some bytes)) ?_
                  refine (chunkBytes_eq _).2.2.1.trans (congrArg (groupBytes · 2) ?_)
                  simp only [List.foldl_cons, List.foldl_nil]
                  omega
  | case5 a b c d rest ih =>
      have first : chunks 4 (a :: b :: c :: d :: rest) = [a, b, c, d] :: chunks 4 rest := by
        rw [chunks_of_ne_nil (by decide) (List.cons_ne_nil _ _)]
        rfl
      rw [first, List.mapM_cons, decodeChunk_eq 0 rfl, decodeLetters, List.mapM_cons,
        List.mapM_cons, List.mapM_cons, List.mapM_cons, List.mapM_nil]
      cases sextet a with
      | none => rfl
      | some a =>
          cases sextet b with
          | none => rfl
          | some b =>
              cases sextet c with
              | none => rfl
              | some c =>
                  cases sextet d with
                  | none => rfl
                  | some d =>
                      have bytes : chunkBytes
                        ([a, b, c, d].foldl (fun n value => n * 64 + value) 0 *
                          2 ^ (6 * 0)) 4 = groupBytes (a * 262144 + b * 4096 + c * 64 + d) 3 := by
                        refine (chunkBytes_eq _).2.2.2.trans (congrArg (groupBytes · 3) ?_)
                        simp only [List.foldl_cons, List.foldl_nil]
                        omega
                      generalize (chunks 4 rest).mapM decodeChunk = read at ih
                      cases later : decodeLetters rest with
                      | none =>
                          rw [later] at ih
                          cases read with
                          | ok parts => cases ih
                          | error fault =>
                              cases ih
                              rfl
                      | some others =>
                          rw [later] at ih
                          cases read with
                          | error fault => cases ih
                          | ok parts =>
                              cases ih
                              exact congrArg (fun bytes => Except.ok (bytes ++ parts.flatten)) bytes

/-- **Nothing outside of the buffers is asked for**, and the bytes are those that the decoder reads
letter by letter. -/
theorem base64DecodeChecked_eq (value : Buffer) (maxEncodedBytes : ℕ) :
    base64DecodeChecked value maxEncodedBytes =
      Checked.ofOption () (base64DecodeBounded value.bytes maxEncodedBytes) := by
  rw [base64DecodeChecked, base64DecodeBounded]
  split
  · rfl
  · dsimp only
    rw [Checked.sliceFrom_of_le (List.takeWhile_prefix _).length_le]
    change (if _ then _ else _) = _
    split
    · rfl
    · rw [← mapM_decodeChunk]
      rfl

/-! ## What is read, written again -/

theorem base64Letter_inj {n bits : ℕ} {byte : UInt8} (small : n < 64)
    (known : sextet byte = some bits) : base64Letter n = byte ↔ n = bits := by
  obtain ⟨below, same⟩ := base64Letter_sextet known
  constructor
  · intro letters
    have read := (base64Letter_spec small).1
    rw [letters, known] at read
    exact (Option.some.inj read).symm
  · rintro rfl
    exact same

/-- The letters of the bytes of a group, where the bits that are not in a byte are zero. -/
theorem groupLetters_groupBytes {n : ℕ} (small : n < 16777216) :
    groupLetters (.ofNat (n / 65536)) 0 0 2 =
        [base64Letter (n / 262144), base64Letter (n / 65536 % 4 * 16)] ∧
      groupLetters (.ofNat (n / 65536)) (.ofNat (n / 256)) 0 3 =
        [base64Letter (n / 262144), base64Letter (n / 4096 % 64),
          base64Letter (n / 256 % 16 * 4)] ∧
      groupLetters (.ofNat (n / 65536)) (.ofNat (n / 256)) (.ofNat n) 4 =
        [base64Letter (n / 262144), base64Letter (n / 4096 % 64), base64Letter (n / 64 % 64),
          base64Letter (n % 64)] := by
  simp only [groupLetters, List.take_succ_cons, List.take_zero, UInt8.toNat_ofNat',
    UInt8.toNat_zero, List.cons.injEq, and_true]
  refine ⟨⟨?_, ?_⟩, ⟨?_, ?_, ?_⟩, ?_, ?_, ?_, ?_⟩ <;> exact congrArg base64Letter (by omega)

/-- **A text that was read is written again** exactly where the bits of the last letter that stand
for nothing are zero. -/
theorem base64Encode_eq_iff {bytes : List UInt8} {pads : ℕ}
    (read : decodeLetters letters = some bytes) (few : pads ≤ 2)
    (whole : (letters.length + pads) % 4 = 0) :
    base64Encode bytes = letters ++ List.replicate pads padSign ↔
      ∀ last ∈ letters.getLast?, ∀ bits ∈ sextet last, bits % 4 ^ pads = 0 := by
  induction letters using decodeLetters.induct generalizing bytes with
  | case1 =>
      cases read
      obtain rfl : pads = 0 := by
        rw [List.length_nil] at whole
        omega
      exact iff_of_true rfl nofun
  | case2 a =>
      rw [List.length_singleton] at whole
      omega
  | case3 a b =>
      obtain rfl : pads = 2 := by
        simp only [List.length_cons, List.length_nil] at whole
        omega
      obtain ⟨x, first, read⟩ := Option.bind_eq_some_iff.mp read
      obtain ⟨y, second, read⟩ := Option.bind_eq_some_iff.mp read
      cases read
      obtain ⟨small, letter⟩ := base64Letter_sextet first
      obtain ⟨small', -⟩ := base64Letter_sextet second
      have groups := (groupLetters_groupBytes (n := x * 262144 + y * 4096) (by omega)).1
      have front : (x * 262144 + y * 4096) / 262144 = x := by omega
      have back : (x * 262144 + y * 4096) / 65536 % 4 * 16 = y / 16 * 16 := by omega
      rw [front, letter, back] at groups
      have written : base64Encode (groupBytes (x * 262144 + y * 4096) 1) =
          [a, base64Letter (y / 16 * 16)] ++ [padSign, padSign] := by
        rw [← groups]
        rfl
      rw [written]
      simp only [List.getLast?_cons_cons, List.getLast?_singleton, Option.mem_def,
        Option.some.injEq, forall_eq', second, List.cons_append, List.nil_append,
        List.replicate_succ, List.replicate_zero, List.cons.injEq, and_true, true_and,
        base64Letter_inj (show y / 16 * 16 < 64 by omega) second]
      omega
  | case4 a b c =>
      obtain rfl : pads = 1 := by
        simp only [List.length_cons, List.length_nil] at whole
        omega
      obtain ⟨x, first, read⟩ := Option.bind_eq_some_iff.mp read
      obtain ⟨y, second, read⟩ := Option.bind_eq_some_iff.mp read
      obtain ⟨z, third, read⟩ := Option.bind_eq_some_iff.mp read
      cases read
      obtain ⟨small, letter⟩ := base64Letter_sextet first
      obtain ⟨small', letter'⟩ := base64Letter_sextet second
      obtain ⟨small'', -⟩ := base64Letter_sextet third
      have groups :=
        (groupLetters_groupBytes (n := x * 262144 + y * 4096 + z * 64) (by omega)).2.1
      have front : (x * 262144 + y * 4096 + z * 64) / 262144 = x := by omega
      have middle : (x * 262144 + y * 4096 + z * 64) / 4096 % 64 = y := by omega
      have back : (x * 262144 + y * 4096 + z * 64) / 256 % 16 * 4 = z / 4 * 4 := by omega
      rw [front, letter, middle, letter', back] at groups
      have written : base64Encode (groupBytes (x * 262144 + y * 4096 + z * 64) 2) =
          [a, b, base64Letter (z / 4 * 4)] ++ [padSign] := by
        rw [← groups]
        rfl
      rw [written]
      simp only [List.getLast?_cons_cons, List.getLast?_singleton, Option.mem_def,
        Option.some.injEq, forall_eq', third, List.cons_append, List.nil_append,
        List.replicate_succ, List.replicate_zero, List.cons.injEq, and_true, true_and,
        base64Letter_inj (show z / 4 * 4 < 64 by omega) third]
      omega
  | case5 a b c d rest ih =>
      obtain ⟨x, first, read⟩ := Option.bind_eq_some_iff.mp read
      obtain ⟨y, second, read⟩ := Option.bind_eq_some_iff.mp read
      obtain ⟨z, third, read⟩ := Option.bind_eq_some_iff.mp read
      obtain ⟨w, fourth, read⟩ := Option.bind_eq_some_iff.mp read
      obtain ⟨others, later, read⟩ := Option.bind_eq_some_iff.mp read
      cases read
      obtain ⟨small, letter⟩ := base64Letter_sextet first
      obtain ⟨small', letter'⟩ := base64Letter_sextet second
      obtain ⟨small'', letter''⟩ := base64Letter_sextet third
      obtain ⟨small₄, letter₄⟩ := base64Letter_sextet fourth
      have groups :=
        (groupLetters_groupBytes (n := x * 262144 + y * 4096 + z * 64 + w) (by omega)).2.2
      have one : (x * 262144 + y * 4096 + z * 64 + w) / 262144 = x := by omega
      have two : (x * 262144 + y * 4096 + z * 64 + w) / 4096 % 64 = y := by omega
      have three : (x * 262144 + y * 4096 + z * 64 + w) / 64 % 64 = z := by omega
      have four : (x * 262144 + y * 4096 + z * 64 + w) % 64 = w := by omega
      rw [one, letter, two, letter', three, letter'', four, letter₄] at groups
      have written : base64Encode (groupBytes (x * 262144 + y * 4096 + z * 64 + w) 3 ++ others) =
          [a, b, c, d] ++ base64Encode others := by
        rw [← groups]
        rfl
      have rest_ : (rest.length + pads) % 4 = 0 := by
        simp only [List.length_cons] at whole
        omega
      rw [written, show a :: b :: c :: d :: rest = [a, b, c, d] ++ rest from rfl,
        List.append_assoc, List.append_cancel_left_eq, ih later rest_, List.getLast?_append]
      cases ends : rest.getLast? with
      | some last => rw [Option.some_or]
      | none =>
          rw [List.getLast?_eq_none_iff.mp ends, List.length_nil] at rest_
          obtain rfl : pads = 0 := by omega
          exact iff_of_true nofun fun _ _ bits _ => Nat.mod_one bits

/-- Letters are read exactly when each stands for some bits. -/
theorem decodeLetters_isSome_iff (letters : List UInt8) :
    (decodeLetters letters).isSome ↔ ∀ letter ∈ letters, (sextet letter).isSome := by
  induction letters using decodeLetters.induct with
  | case1 => simp [decodeLetters]
  | case2 a => simp [decodeLetters, Option.isSome_iff_exists, Option.bind_eq_some_iff]
  | case3 a b => simp [decodeLetters, Option.isSome_iff_exists, Option.bind_eq_some_iff]
  | case4 a b c => simp [decodeLetters, Option.isSome_iff_exists, Option.bind_eq_some_iff]
  | case5 a b c d rest ih =>
      simp only [Option.isSome_iff_exists] at ih ⊢
      simp [decodeLetters, Option.bind_eq_some_iff, ← ih, exists_comm]

theorem ne_padSign_of_sextet {letter : UInt8} (known : (sextet letter).isSome) :
    letter ≠ padSign := by
  rintro rfl
  exact absurd known (by decide)

/-- **The texts without blanks that are read**: letters, and up to two signs that fill the last
group of four. -/
theorem base64DecodeBounded_eq_some_iff {value bytes : List UInt8} {maxEncodedBytes : ℕ}
    (dense : ∀ byte ∈ value, isAsciiWhitespace byte = false) :
    base64DecodeBounded value maxEncodedBytes = some bytes ↔
      value.length ≤ maxEncodedBytes ∧ ∃ letters pads,
        value = letters ++ List.replicate pads padSign ∧ pads ≤ 2 ∧
          (letters.length + pads) % 4 = 0 ∧ decodeLetters letters = some bytes := by
  have filtered : value.filter (fun byte => !isAsciiWhitespace byte) = value :=
    List.filter_eq_self.mpr fun byte member => by rw [dense byte member, Bool.not_false]
  rw [base64DecodeBounded]
  split
  · next above =>
      exact iff_of_false (Option.some_ne_none bytes).symm fun fits => Nat.not_le.mpr above fits.1
  · next fits =>
      dsimp only
      rw [filtered]
      constructor
      · intro read
        have prefix_ := List.takeWhile_prefix (p := (· ≠ padSign)) (l := value)
        have length := prefix_.length_le
        have parts := List.prefix_iff_eq_append.mp prefix_
        generalize value.takeWhile (· ≠ padSign) = letters at *
        split at read
        · cases read
        · next sound =>
            simp only [not_or, not_and, not_lt, ne_eq, not_not] at sound
            obtain ⟨whole, few, padded, -, -⟩ := sound
            have pads : value.drop letters.length =
                List.replicate (value.length - letters.length) padSign := by
              refine List.eq_replicate_iff.mpr ⟨List.length_drop, fun byte listed => ?_⟩
              by_contra other
              exact padded (List.any_eq_true.mpr ⟨byte, listed, decide_eq_true other⟩)
            refine ⟨Nat.le_of_not_lt fits, letters, value.length - letters.length, ?_, few, ?_,
              read⟩
            · rw [← pads]
              exact parts.symm
            · rwa [Nat.add_sub_of_le length]
      · rintro ⟨-, letters, pads, rfl, few, whole, read⟩
        have known := (decodeLetters_isSome_iff letters).mp (by rw [read]; rfl)
        have front : (letters ++ List.replicate pads padSign).takeWhile (· ≠ padSign) =
            letters := by
          rw [List.takeWhile_append_of_pos fun letter member =>
            decide_eq_true (ne_padSign_of_sextet (known letter member))]
          cases pads with
          | zero => simp
          | succ pads => simp [List.replicate_succ]
        have even_ : (letters ++ List.replicate pads padSign).length = letters.length + pads := by
          rw [List.length_append, List.length_replicate]
        rw [front, even_, if_neg, read]
        rintro (uneven | wide | other | one | two)
        · omega
        · omega
        · rw [List.drop_left] at other
          obtain ⟨byte, member, apart⟩ := List.any_eq_true.mp other
          exact absurd (List.mem_replicate.mp member).2 (of_decide_eq_true apart)
        · omega
        · omega

/-! ## The codec -/

/-- A text of letters and padding whose last letter has bits that stand for nothing and are not
zero: four of them before two signs, and two before one. -/
def Loose (value : List UInt8) : Prop :=
  ∃ letters last pads bits, value = letters ++ last :: List.replicate pads padSign ∧
    (pads = 1 ∨ pads = 2) ∧ value.length % 4 = 0 ∧ (∀ letter ∈ letters, (sextet letter).isSome) ∧
      sextet last = some bits ∧ bits % 4 ^ pads ≠ 0

/-- A text without blanks is the one that is written for the bytes that are read from it. -/
def Canonical (value : Buffer) : Prop :=
  (∀ byte ∈ value.bytes, isAsciiWhitespace byte = false) →
    ∀ bytes, base64Decode value.bytes = some bytes → base64Encode bytes = value.bytes

theorem le_usizeMax (value : Buffer) : value.bytes.length ≤ usizeMax := by
  have fits := value.fits
  rw [usizeMax]
  omega

theorem canonical_iff (value : Buffer)
    (dense : ∀ byte ∈ value.bytes, isAsciiWhitespace byte = false) :
    Canonical value ↔ ¬ Loose value.bytes := by
  constructor
  · rintro canonical ⟨letters, last, pads, bits, parts, one, whole, known, final, odd⟩
    have parts' : value.bytes = (letters ++ [last]) ++ List.replicate pads padSign := by
      rw [parts, List.append_assoc, List.singleton_append]
    have whole' : ((letters ++ [last]).length + pads) % 4 = 0 := by
      rw [parts', List.length_append, List.length_replicate] at whole
      exact whole
    have all : ∀ letter ∈ letters ++ [last], (sextet letter).isSome :=
      List.forall_mem_append.mpr ⟨known, List.forall_mem_singleton.mpr (by rw [final]; rfl)⟩
    obtain ⟨bytes, read⟩ := Option.isSome_iff_exists.mp ((decodeLetters_isSome_iff _).mpr all)
    have few : pads ≤ 2 := by omega
    have written := canonical dense bytes ((base64DecodeBounded_eq_some_iff dense).mpr
      ⟨le_usizeMax value, _, pads, parts', few, whole', read⟩)
    rw [parts', base64Encode_eq_iff read few whole'] at written
    exact odd (written last List.getLast?_concat bits final)
  · intro tight _ bytes read
    obtain ⟨-, letters, pads, parts, few, whole, read⟩ :=
      (base64DecodeBounded_eq_some_iff dense).mp read
    rw [parts, base64Encode_eq_iff read few whole]
    intro last ends bits final
    by_contra odd
    obtain ⟨front, rfl⟩ := List.getLast?_eq_some_iff.mp ends
    have known := (decodeLetters_isSome_iff _).mp (by rw [read]; rfl)
    refine tight ⟨front, last, pads, bits, ?_, ?_, ?_, fun letter listed =>
      known letter (List.mem_append_left _ listed), final, odd⟩
    · rw [parts, List.append_assoc, List.singleton_append]
    · have some_ : pads ≠ 0 := by
        rintro rfl
        exact odd (Nat.mod_one bits)
      omega
    · rw [parts, List.length_append, List.length_replicate]
      exact whole

/-- **When base64 is a canonical codec**: what is written is read back always, and the decoder with
a bound never asks for anything outside of its buffers and is the decoder without one wherever the
text fits; a text without blanks that is read is the one that is written for its bytes unless the
last letter before the padding has bits that stand for nothing and are not zero. -/
theorem base64_canonical_iff (bytes value : Buffer) (maxEncodedBytes : ℕ) :
    base64Decode (base64Encode bytes.bytes) = some bytes.bytes ∧
    (base64DecodeChecked value maxEncodedBytes ≠ .error .panicked ∧
      base64DecodeChecked value maxEncodedBytes =
        Checked.ofOption () (base64DecodeBounded value.bytes maxEncodedBytes) ∧
      (value.bytes.length ≤ maxEncodedBytes →
        base64DecodeBounded value.bytes maxEncodedBytes = base64Decode value.bytes)) ∧
    ((∀ byte ∈ value.bytes, isAsciiWhitespace byte = false) →
      (Canonical value ↔ ¬ Loose value.bytes)) := by
  refine ⟨?_, ⟨?_, ?_, fun fits => ?_⟩, canonical_iff value⟩
  · have fits := bytes.fits
    rw [base64Decode, base64DecodeBounded_base64Encode, if_neg]
    rw [length_base64Encode, usizeMax]
    omega
  · rw [base64DecodeChecked_eq]
    cases base64DecodeBounded value.bytes maxEncodedBytes with
    | none => nofun
    | some bytes => nofun
  · exact base64DecodeChecked_eq value maxEncodedBytes
  · rw [base64Decode, base64DecodeBounded, base64DecodeBounded, if_neg (Nat.not_lt.mpr fits),
      if_neg (Nat.not_lt.mpr (le_usizeMax value))]

/-- The text `Zh==`, which is read as the byte that is written as `Zg==`. -/
def looseText : Buffer := ⟨[90, 104, 61, 61], by decide⟩

theorem not_canonical : base64Decode looseText.bytes = some [102] ∧ ¬ Canonical looseText := by
  refine ⟨by decide, fun canonical => ?_⟩
  have written := canonical (by simp [looseText, isAsciiWhitespace]) [102] (by decide)
  exact absurd written (by decide)

end Exocortex
