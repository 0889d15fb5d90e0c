import Exocortex.Kernel.HexText
import Exocortex.Library.Buffers
import Exocortex.Library.Varints

/-!
# Avro container files

The adapter for Iceberg tables reads container files itself: a header map in blocks, a marker, and
blocks of values, each with its count, its size and the marker behind it. What the crates for JSON,
for Avro values and for deflated blocks do is a parameter.

A number takes up to ten bytes (`readVarint_eq`). The header map and the blocks are read piece by
piece, each between two offsets, and together they are the whole file (`readContainer_meets`). The
reader of numbers stops after the tenth byte, but does not see that of the tenth only one bit fits;
so ten bytes may stand for a number that is too wide and are read as another one
(`avroFraming_exact_iff`).
-/

namespace Exocortex

open Library

namespace AvroFraming

/-! ## Numbers -/

/-- The loop that reads a number: seven bits more from each byte, as far as 64 bits go. -/
def readVarint (bytes : List UInt8) (value : UInt64) (shift offset : ℕ) :
    Checked String (UInt64 × ℕ) :=
  match bytes[offset]? with
  | none => Checked.refuse "avro stream truncated inside a varint"
  | some byte =>
      let value := value ||| (byte &&& 0x7f).toUInt64 <<< UInt64.ofNat shift
      if byte &&& 0x80 = 0 then .ok (value, offset + 1)
      else if 63 < shift + 7 then Checked.refuse "avro varint exceeds 64 bits"
      else readVarint bytes value (shift + 7) (offset + 1)
termination_by 64 - shift

/-- The number with a sign that is written as one without. -/
def unsign (value : UInt64) : Int64 := (value >>> 1).toInt64 ^^^ -(value &&& 1).toInt64

/-- A number, and the offset behind it. -/
def readLong (bytes : List UInt8) (offset : ℕ) : Checked String (ℤ × ℕ) := do
  let (value, offset) ← readVarint bytes 0 0 offset
  return ((unsign value).toInt, offset)

theorem toInt_unsign (value : UInt64) : (unsign value).toInt = unzigzag value.toNat := by
  have size := value.toNat_lt
  have low : (value &&& 1).toNat = value.toNat % 2 := by
    rw [UInt64.toNat_and]
    exact Nat.and_two_pow_sub_one_eq_mod _ 1
  have shifted : (value >>> 1).toNat = value.toNat / 2 := by
    rw [UInt64.toNat_shiftRight]
    simp [Nat.shiftRight_eq_div_pow]
  have half : (value >>> 1).toInt64.toInt = value.toNat / 2 := by
    change (value >>> 1).toBitVec.toInt = _
    have small : 2 * (value >>> 1).toBitVec.toNat < 2 ^ 64 := by
      change 2 * (value >>> 1).toNat < _
      omega
    rw [BitVec.toInt_eq_toNat_of_lt small]
    exact congrArg Int.ofNat shifted
  rw [unsign, unzigzag]
  split
  · next even_ =>
      have zero : value &&& 1 = 0 := UInt64.toNat_inj.mp (by rw [low, even_]; rfl)
      have unchanged : (value >>> 1).toInt64 ^^^ -(0 : UInt64).toInt64 = (value >>> 1).toInt64 := by
        simp
      rw [zero, unchanged, half]
  · next odd =>
      have one : value &&& 1 = 1 :=
        UInt64.toNat_inj.mp (low.trans (Nat.mod_two_ne_zero.mp odd))
      have minus : -(1 : UInt64).toInt64 = -1 := rfl
      have flipped : (value >>> 1).toInt64 ^^^ (-1 : Int64) = ~~~(value >>> 1).toInt64 := by simp
      rw [one, minus, flipped, Int64.toInt_not, half, Int.bmod_def]
      omega

theorem low_bits (byte : UInt8) : (byte &&& 0x7f).toUInt64.toNat = byte.toNat % 128 := by
  rw [UInt8.toNat_toUInt64, UInt8.toNat_and]
  exact Nat.and_two_pow_sub_one_eq_mod _ 7

theorem high_bit (byte : UInt8) : byte &&& 0x80 = 0 ↔ byte.toNat < 128 :=
  forall_bytes (P := fun byte => byte &&& 0x80 = 0 ↔ byte.toNat < 128) (by decide +kernel) byte

theorem toNat_join {value : UInt64} {byte : UInt8} {shift : ℕ} (small : value.toNat < 2 ^ shift)
    (room : shift ≤ 63) :
    (value ||| (byte &&& 0x7f).toUInt64 <<< UInt64.ofNat shift).toNat =
      (value.toNat + byte.toNat % 128 * 2 ^ shift) % 2 ^ 64 := by
  have place : (UInt64.ofNat shift).toNat % 64 = shift := by
    rw [UInt64.toNat_ofNat']
    omega
  rw [UInt64.toNat_or, UInt64.toNat_shiftLeft, place, low_bits, Nat.shiftLeft_eq]
  -- what is joined is a multiple of the place
  have width : 2 ^ 64 = 2 ^ shift * 2 ^ (64 - shift) := by
    rw [← Nat.pow_add, Nat.add_sub_of_le (by omega)]
  have cut : byte.toNat % 128 * 2 ^ shift % 2 ^ 64 =
      byte.toNat % 128 % 2 ^ (64 - shift) * 2 ^ shift := by
    rw [width, Nat.mul_comm, Nat.mul_mod_mul_left, Nat.mul_comm]
  have joined := Nat.shiftLeft_add_eq_or_of_lt small (byte.toNat % 128 % 2 ^ (64 - shift))
  rw [Nat.shiftLeft_eq] at joined
  have below : (value.toNat + byte.toNat % 128 * 2 ^ shift) % 2 ^ shift = value.toNat := by
    rw [Nat.add_mul_mod_self_right, Nat.mod_eq_of_lt small]
  have above : (value.toNat + byte.toNat % 128 * 2 ^ shift) / 2 ^ shift = byte.toNat % 128 := by
    rw [Nat.add_mul_div_right _ _ (Nat.two_pow_pos shift), Nat.div_eq_of_lt small, Nat.zero_add]
  rw [cut, Nat.or_comm, ← joined, width, Nat.mod_mul, below, above, Nat.add_comm, Nat.mul_comm]

/-- **What is read**: up to ten bytes, as far as they fit in 64 bits. -/
theorem readVarint_eq {bytes rest : List UInt8} {v : Varint} {value : UInt64} {count offset : ℕ}
    (here : bytes.drop offset = v.bytes ++ rest) (small : value.toNat < 2 ^ (7 * count))
    (few : count ≤ 9) :
    readVarint bytes value (7 * count) offset =
      if count + v.front.length ≤ 9 then
        .ok (.ofNat (value.toNat + 2 ^ (7 * count) * v.value), offset + v.bytes.length)
      else Checked.refuse "avro varint exceeds 64 bits" := by
  obtain ⟨front, last, goesOn, ends⟩ := v
  induction front generalizing value count offset with
  | nil =>
      have first : bytes[offset]? = some last := by
        rw [← List.head?_drop, here]
        rfl
      have stands : Varint.value ⟨[], last, goesOn, ends⟩ = last.toNat % 128 := rfl
      rw [readVarint, first]
      dsimp only
      rw [if_pos ((high_bit last).mpr ends), if_pos (show count + [].length ≤ 9 from few)]
      refine congrArg (fun value => Except.ok (value, offset + 1)) ?_
      apply UInt64.toNat_inj.mp
      rw [toNat_join small (by omega), UInt64.toNat_ofNat', stands, Nat.mul_comm]
  | cons byte front ih =>
      obtain ⟨more, goesOn⟩ := List.forall_mem_cons.mp goesOn
      have first : bytes[offset]? = some byte := by
        rw [← List.head?_drop, here]
        rfl
      have stands : Varint.value ⟨byte :: front, last, List.forall_mem_cons.mpr ⟨more, goesOn⟩,
          ends⟩ = byte.toNat % 128 + 128 * Varint.value ⟨front, last, goesOn, ends⟩ := rfl
      rw [readVarint, first]
      dsimp only
      rw [if_neg (fun last => absurd ((high_bit byte).mp last) (Nat.not_lt.mpr more))]
      split
      · next wide => rw [if_neg (by rw [List.length_cons]; omega)]
      · next room =>
          have behind : bytes.drop (offset + 1) =
              Varint.bytes ⟨front, last, goesOn, ends⟩ ++ rest := by
            rw [← List.drop_drop, here]
            rfl
          have digit := Nat.mod_lt byte.toNat (show 0 < 128 by decide)
          have power : 2 ^ (7 * (count + 1)) = 128 * 2 ^ (7 * count) := by
            rw [Nat.mul_succ, Nat.pow_add, Nat.mul_comm]
          have below : value.toNat + byte.toNat % 128 * 2 ^ (7 * count) <
              2 ^ (7 * (count + 1)) := by
            rw [power]
            nlinarith
          have joined : (value ||| (byte &&& 0x7f).toUInt64 <<< UInt64.ofNat (7 * count)).toNat =
              value.toNat + byte.toNat % 128 * 2 ^ (7 * count) := by
            rw [toNat_join small (by omega)]
            refine Nat.mod_eq_of_lt (Nat.lt_trans below ?_)
            exact Nat.pow_lt_pow_right (by decide) (by omega)
          have later := @ih (value ||| (byte &&& 0x7f).toUInt64 <<< UInt64.ofNat (7 * count))
            (count + 1) (offset + 1) (by rw [joined]; exact below) (by omega) goesOn behind
          have total (rest : ℕ) : value.toNat + byte.toNat % 128 * 2 ^ (7 * count) +
              128 * 2 ^ (7 * count) * rest =
                value.toNat + 2 ^ (7 * count) * (byte.toNat % 128 + 128 * rest) := by
            ring
          have rounds : count + 1 + front.length = count + (front.length + 1) := by omega
          have passed : offset + 1 + (front.length + 1) =
              offset + (front.length + 1 + 1) := by omega
          rw [show 7 * count + 7 = 7 * (count + 1) from rfl, later, joined, stands, power, total]
          simp only [Varint.length_bytes, List.length_cons, rounds, passed]

variable {offset : ℕ}

theorem readVarint_endless {bytes : List UInt8} {value : UInt64} {shift : ℕ}
    (endless : ∀ byte ∈ bytes.drop offset, 128 ≤ byte.toNat) :
    Checked.Meets (readVarint bytes value shift offset) fun _ => False := by
  fun_induction readVarint bytes value shift offset with
  | case1 value shift offset none_ => trivial
  | case2 value shift offset byte found joined last =>
      have listed : byte ∈ bytes.drop offset := List.mem_of_mem_head? (List.head?_drop ▸ found)
      exact absurd ((high_bit byte).mp last) (Nat.not_lt.mpr (endless byte listed))
  | case3 value shift offset byte found more wide => trivial
  | case4 value shift offset byte found joined more room ih =>
      refine ih fun byte listed => endless byte ?_
      rw [← List.drop_drop] at listed
      exact List.mem_of_mem_drop listed

/-- A number as it is written: up to ten bytes. -/
structure Long where
  text : Varint
  short : text.front.length ≤ 9

namespace Long

def bytes (long : Long) : List UInt8 := long.text.bytes

/-- The number that the bytes stand for. -/
def number (long : Long) : ℤ := unzigzag (long.text.value % 2 ^ 64)

theorem number_lt (long : Long) : long.number < 2 ^ 63 := by
  have small := Nat.mod_lt long.text.value (Nat.two_pow_pos 64)
  rw [number, unzigzag]
  split <;> omega

end Long

theorem readLong_eq {bytes rest : List UInt8} {v : Varint}
    (here : bytes.drop offset = v.bytes ++ rest) :
    readLong bytes offset =
      if v.front.length ≤ 9 then .ok (unzigzag (v.value % 2 ^ 64), offset + v.bytes.length)
      else Checked.refuse "avro varint exceeds 64 bits" := by
  have read := @readVarint_eq bytes rest v 0 0 offset here Nat.one_pos (by decide)
  rw [Nat.zero_add] at read
  rw [readLong, show 0 = 7 * 0 from rfl, read]
  split
  · have total : (UInt64.ofNat (0 + 2 ^ (7 * 0) * v.value)).toNat = v.value % 2 ^ 64 := by
      rw [UInt64.toNat_ofNat', Nat.zero_add, Nat.mul_zero, Nat.pow_zero, Nat.one_mul]
    refine congrArg (fun n => Except.ok (n, offset + v.bytes.length)) ?_
    exact (toInt_unsign _).trans (congrArg unzigzag total)
  · rfl

/-- **A number that is read stands between the offsets.** -/
theorem readLong_meets (bytes : List UInt8) (offset : ℕ) :
    Checked.Meets (readLong bytes offset) fun read =>
      ∃ long : Long, read.1 = long.number ∧ Between bytes offset read.2 long.bytes := by
  rcases Varint.exists_of_list (bytes.drop offset) with ⟨v, rest, here⟩ | endless
  · rw [readLong_eq here]
    split
    · next short =>
        have inside : offset ≤ bytes.length := by
          by_contra outside
          rw [List.drop_of_length_le (Nat.le_of_not_le outside)] at here
          exact List.append_ne_nil_of_left_ne_nil
            (List.append_ne_nil_of_right_ne_nil _ (List.cons_ne_nil _ _)) _ here.symm
        exact ⟨⟨v, short⟩, rfl, .of_drop inside here⟩
    · trivial
  · exact (readVarint_endless endless).bind nofun

/-! ## The container -/

/-- The bytes of a value with their number before them. -/
def readBytes (bytes : List UInt8) (offset : ℕ) : Checked String (List UInt8 × ℕ) := do
  let (length, start) ← readLong bytes offset
  if length < 0 then Checked.refuse "avro negative byte length"
  else
    let stop ← Checked.add start length.toNat
    if bytes.length < stop then Checked.refuse "avro stream truncated inside a bytes value"
    else
      let value ← Checked.slice bytes start stop
      return (value, stop)

def readString (bytes : List UInt8) (offset : ℕ) : Checked String (String × ℕ) := do
  let (raw, offset) ← readBytes bytes offset
  let text ← Checked.ofOption "avro metadata string is not UTF-8" (HexText.fromUtf8 raw)
  return (text, offset)

/-- What the header says that matters. -/
structure FileHeader where
  schemaText : Option String
  codec : String

/-- One entry of the header. -/
def FileHeader.entry (header : FileHeader) (key : String) (value : List UInt8) :
    Checked String FileHeader :=
  if key = "avro.schema" then do
    let text ← Checked.ofOption "schema is not UTF-8" (HexText.fromUtf8 value)
    return { header with schemaText := some text }
  else if key = "avro.codec" then do
    let codec ← Checked.ofOption "codec is not UTF-8" (HexText.fromUtf8 value)
    return { header with codec := codec }
  else return header

def readPairs (raw : List UInt8) : ℕ → FileHeader → ℕ → Checked String (FileHeader × ℕ)
  | 0, header, offset => .ok (header, offset)
  | pairs + 1, header, offset => do
      let (key, offset) ← readString raw offset
      let (value, offset) ← readBytes raw offset
      let header ← header.entry key value
      readPairs raw pairs header offset

/-- A block of a negative count says its size in bytes, which nothing needs. -/
def skipSize (raw : List UInt8) (count : ℤ) (offset : ℕ) : Checked String ℕ :=
  if count < 0 then Prod.snd <$> readLong raw offset else .ok offset

/-- A block of the header map, and whether it is the last one. -/
def readMapBlock (raw : List UInt8) (header : FileHeader) (offset : ℕ) :
    Checked String (Bool × FileHeader × ℕ) := do
  let (count, offset) ← readLong raw offset
  if count = 0 then return (true, header, offset)
  else
    let offset ← skipSize raw count offset
    let (header, offset) ← readPairs raw count.natAbs header offset
    return (false, header, offset)

/-! ## What the pieces of the header are -/

/-- A value with the number of its bytes. -/
structure Sized where
  length : Long
  data : List UInt8
  sized : length.number = data.length

def Sized.bytes (value : Sized) : List UInt8 := value.length.bytes ++ value.data

/-- The entries of a block of the header map. -/
structure MapBlock where
  count : Long
  size : Option Long
  pairs : List (Sized × Sized)
  some_ : count.number ≠ 0
  counted : count.number.natAbs = pairs.length
  sized : size.isSome ↔ count.number < 0

namespace MapBlock

def pairBytes (pair : Sized × Sized) : List UInt8 := pair.1.bytes ++ pair.2.bytes

def bytes (block : MapBlock) : List UInt8 :=
  block.count.bytes ++ (block.size.elim [] Long.bytes ++ block.pairs.flatMap pairBytes)

end MapBlock

/-- One entry as its bytes are read. -/
def FileHeader.pair (header : FileHeader) (pair : Sized × Sized) : Checked String FileHeader := do
  let key ← Checked.ofOption "avro metadata string is not UTF-8" (HexText.fromUtf8 pair.1.data)
  header.entry key pair.2.data

section Header

variable {raw : List UInt8} {offset : ℕ}

theorem readBytes_meets (small : raw.length < 2 ^ 63) :
    Checked.Meets (readBytes raw offset) fun read =>
      ∃ value : Sized, read.1 = value.data ∧ Between raw offset read.2 value.bytes := by
  refine (readLong_meets raw offset).bind ?_
  rintro ⟨_, start⟩ ⟨length, rfl, before⟩
  have inside : start ≤ raw.length := before.inside
  have fits := length.number_lt
  dsimp only
  split
  · trivial
  · next positive =>
      refine (Checked.meets_add (by omega)).bind ?_
      rintro _ rfl
      split
      · trivial
      · next room =>
          refine (Checked.meets_slice (Nat.le_add_right _ _) (Nat.le_of_not_lt room)).bind ?_
          intro data piece
          have stops := piece.stops
          exact ⟨⟨length, data, by omega⟩, rfl, before.append piece⟩

theorem readString_meets (small : raw.length < 2 ^ 63) :
    Checked.Meets (readString raw offset) fun read =>
      ∃ value : Sized, HexText.fromUtf8 value.data = some read.1 ∧
        Between raw offset read.2 value.bytes := by
  refine (readBytes_meets small).bind ?_
  rintro ⟨_, next⟩ ⟨value, rfl, piece⟩
  dsimp only
  cases decoded : HexText.fromUtf8 value.data with
  | none => trivial
  | some text => exact ⟨value, decoded, piece⟩

theorem entry_meets {header : FileHeader} {key : String} {value : List UInt8} :
    Checked.Meets (header.entry key value) fun after => header.entry key value = .ok after := by
  rw [FileHeader.entry]
  split
  · cases HexText.fromUtf8 value with
    | none => trivial
    | some text => exact rfl
  · split
    · cases HexText.fromUtf8 value with
      | none => trivial
      | some text => exact rfl
    · exact rfl

/-- Some entries of a block, one after the other. -/
theorem readPairs_meets (small : raw.length < 2 ^ 63) {count : ℕ} {header : FileHeader} :
    offset ≤ raw.length → Checked.Meets (readPairs raw count header offset) fun read =>
      ∃ pairs : List (Sized × Sized), pairs.length = count ∧
        pairs.foldlM FileHeader.pair header = .ok read.1 ∧
          Between raw offset read.2 (pairs.flatMap MapBlock.pairBytes) := by
  induction count generalizing header offset with
  | zero => exact fun inside => ⟨[], rfl, rfl, .nil inside⟩
  | succ count ih =>
      intro inside
      refine (readString_meets small).bind ?_
      rintro ⟨text, afterKey⟩ ⟨key, decoded, keyPiece⟩
      refine (readBytes_meets small).bind ?_
      rintro ⟨_, afterValue⟩ ⟨value, rfl, valuePiece⟩
      refine entry_meets.bind ?_
      intro next entered
      refine (ih valuePiece.inside).mono ?_
      rintro ⟨last, stop⟩ ⟨pairs, size, entries, piece⟩
      have first : header.pair (key, value) = .ok next := by
        rw [FileHeader.pair]
        dsimp only at decoded
        rw [decoded]
        exact entered
      refine ⟨(key, value) :: pairs, congrArg Nat.succ size, ?_, ?_⟩
      · rw [List.foldlM_cons, first]
        exact entries
      · rw [List.flatMap_cons]
        exact (keyPiece.append valuePiece).append piece

theorem skipSize_meets {count : ℤ} (inside : offset ≤ raw.length) :
    Checked.Meets (skipSize raw count offset) fun after =>
      ∃ size : Option Long, (size.isSome ↔ count < 0) ∧
        Between raw offset after (size.elim [] Long.bytes) := by
  rw [skipSize]
  split
  · next negative =>
      refine (readLong_meets raw offset).bind ?_
      rintro ⟨_, after⟩ ⟨size, rfl, piece⟩
      exact ⟨some size, iff_of_true rfl negative, piece⟩
  · next positive => exact ⟨none, iff_of_false nofun positive, .nil inside⟩

/-- A block of the header map, or the number that ends it. -/
theorem readMapBlock_meets (small : raw.length < 2 ^ 63) {header : FileHeader} :
    Checked.Meets (readMapBlock raw header offset) fun read =>
      if read.1 then ∃ stop : Long, stop.number = 0 ∧ read.2.1 = header ∧
        Between raw offset read.2.2 stop.bytes
      else ∃ block : MapBlock, block.pairs.foldlM FileHeader.pair header = .ok read.2.1 ∧
        Between raw offset read.2.2 block.bytes := by
  refine (readLong_meets raw offset).bind ?_
  rintro ⟨_, next⟩ ⟨count, rfl, before⟩
  dsimp only
  split
  · next zero => exact ⟨count, zero, rfl, before⟩
  · next some_ =>
      refine (skipSize_meets before.inside).bind ?_
      rintro after ⟨size, sized, sizePiece⟩
      refine (readPairs_meets small sizePiece.inside).bind ?_
      rintro ⟨last, stop⟩ ⟨pairs, counted, entries, piece⟩
      exact ⟨⟨count, size, pairs, some_, counted.symm, sized⟩, entries,
        before.append (sizePiece.append piece)⟩

end Header

theorem Long.length_pos (long : Long) : 0 < long.bytes.length := by
  rw [Long.bytes, Varint.length_bytes]
  exact Nat.succ_pos _

theorem readMapBlock_advances {raw : Buffer} {header : FileHeader} {read : Bool × FileHeader × ℕ}
    (known : readMapBlock raw.bytes header offset = .ok read) :
    offset < read.2.2 ∧ read.2.2 ≤ raw.bytes.length := by
  have meets := (readMapBlock_meets raw.fits).of_ok known
  split at meets
  · obtain ⟨stop, -, -, piece⟩ := meets
    have some_ := stop.length_pos
    have stops := piece.stops
    exact ⟨by omega, piece.inside⟩
  · obtain ⟨block, -, piece⟩ := meets
    have some_ := block.count.length_pos
    have stops := piece.stops
    rw [MapBlock.bytes, List.length_append] at stops
    exact ⟨by omega, piece.inside⟩

/-- The header map, block after block. -/
def readHeader (raw : Buffer) (header : FileHeader) (offset : ℕ) :
    Checked String (FileHeader × ℕ) :=
  match _known : readMapBlock raw.bytes header offset with
  | .error fault => .error fault
  | .ok (true, header, next) => .ok (header, next)
  | .ok (false, header, next) => readHeader raw header next
termination_by raw.bytes.length - offset
decreasing_by
  have advances := readMapBlock_advances _known
  dsimp only at advances
  omega

/-! ## Blocks -/

/-- What other crates make of the bytes: the schema of a text, what a block was before it was
deflated, and so many values in a block. -/
structure Decoders (J V : Type) where
  fromStr : String → Option J
  inflateBlock : List UInt8 → Option (List UInt8)
  fromAvroDatum : J → ℕ → List UInt8 → Option (List V)

structure ContainerFile (J V : Type) where
  schema : J
  records : List V

/-- A block: its count, its bytes, and the offset behind its marker. -/
def readBlock (path : String) (raw sync : List UInt8) (offset : ℕ) :
    Checked String (ℕ × List UInt8 × ℕ) := do
  let (count, offset) ← readLong raw offset
  let (size, start) ← readLong raw offset
  if count ≤ 0 ∨ size < 0 then Checked.refuse (path ++ " carries a malformed block header")
  else
    let stop ← Checked.add start size.toNat
    if raw.length < stop then
      Checked.refuse (path ++ " block of " ++ toString size ++ " bytes runs past end of file")
    else
      let block ← Checked.slice raw start stop
      let behind ← Checked.add stop 16
      if raw.length < behind then
        Checked.refuse (path ++ " block is truncated before its sync marker")
      else
        let mark ← Checked.slice raw stop behind
        if mark ≠ sync then
          Checked.refuse (path ++ " block sync marker mismatch — corrupt file")
        else return (count.toNat, block, behind)

/-- Some values with the number of them and of their bytes. -/
structure DataBlock where
  count : Long
  size : Long
  data : List UInt8
  some_ : 0 < count.number
  sized : size.number = data.length

/-- The bytes of a block, with the marker that ends it. -/
def DataBlock.bytes (sync : List UInt8) (block : DataBlock) : List UInt8 :=
  block.count.bytes ++ (block.size.bytes ++ (block.data ++ sync))

theorem readBlock_meets {path : String} {raw sync : List UInt8} {offset : ℕ}
    (small : raw.length < 2 ^ 63) :
    Checked.Meets (readBlock path raw sync offset) fun read =>
      ∃ block : DataBlock, read.1 = block.count.number.toNat ∧ read.2.1 = block.data ∧
        Between raw offset read.2.2 (block.bytes sync) := by
  refine (readLong_meets raw offset).bind ?_
  rintro ⟨_, afterCount⟩ ⟨count, rfl, countPiece⟩
  refine (readLong_meets raw afterCount).bind ?_
  rintro ⟨_, start⟩ ⟨size, rfl, sizePiece⟩
  have inside : start ≤ raw.length := sizePiece.inside
  have fits := size.number_lt
  dsimp only
  split
  · trivial
  · next sound =>
      obtain ⟨some_, positive⟩ := not_or.mp sound
      refine (Checked.meets_add (by omega)).bind ?_
      rintro _ rfl
      split
      · trivial
      · next room =>
          refine (Checked.meets_slice (Nat.le_add_right _ _) (Nat.le_of_not_lt room)).bind ?_
          intro data piece
          refine (Checked.meets_add (by omega)).bind ?_
          rintro _ rfl
          split
          · trivial
          · next room' =>
              refine (Checked.meets_slice (Nat.le_add_right _ _)
                (Nat.le_of_not_lt room')).bind ?_
              intro mark markPiece
              split
              · trivial
              · next same =>
                  rw [not_not] at same
                  have stops := piece.stops
                  exact ⟨⟨count, size, data, Int.not_le.mp some_, by omega⟩, rfl, rfl,
                    countPiece.append (sizePiece.append (piece.append (same ▸ markPiece)))⟩

theorem readBlock_advances {path : String} {raw : Buffer} {sync : List UInt8}
    {read : ℕ × List UInt8 × ℕ} (known : readBlock path raw.bytes sync offset = .ok read) :
    offset < read.2.2 ∧ read.2.2 ≤ raw.bytes.length := by
  obtain ⟨block, -, -, piece⟩ := (readBlock_meets raw.fits).of_ok known
  have some_ := block.count.length_pos
  have stops := piece.stops
  rw [DataBlock.bytes, List.length_append] at stops
  exact ⟨by omega, piece.inside⟩

section Container

variable {J V : Type} (decoders : Decoders J V)

/-- A block as it was before it was deflated, if it was. -/
def plainBlock (path codec : String) (block : List UInt8) : Checked String (List UInt8) :=
  if codec = "deflate" then
    Checked.ofOption ("inflating a deflate-coded Avro block in " ++ path)
      (decoders.inflateBlock block)
  else .ok block

/-- The values of a block. -/
def decodeBlock (path codec : String) (schema : J) (count : ℕ) (block : List UInt8) :
    Checked String (List V) := do
  let plain ← plainBlock decoders path codec block
  Checked.ofOption "decoding an Avro value" (decoders.fromAvroDatum schema count plain)

/-- The values of the blocks from an offset on. -/
def readBlocks (path codec : String) (schema : J) (raw : Buffer) (sync : List UInt8)
    (offset : ℕ) : Checked String (List V) :=
  if offset < raw.bytes.length then
    match _known : readBlock path raw.bytes sync offset with
    | .error fault => .error fault
    | .ok (count, block, next) => do
        let values ← decodeBlock decoders path codec schema count block
        let others ← readBlocks path codec schema raw sync next
        return values ++ others
  else .ok []
termination_by raw.bytes.length - offset
decreasing_by
  have advances := readBlock_advances _known
  dsimp only at advances
  omega

def magic : List UInt8 := [0x4f, 0x62, 0x6a, 0x01]

def readContainer (path : String) (raw : Buffer) : Checked String (ContainerFile J V) :=
  let foreign := path ++ " is not an Avro object container file"
  if raw.bytes.length < magic.length then Checked.refuse foreign
  else do
    let front ← Checked.slice raw.bytes 0 magic.length
    if front ≠ magic then Checked.refuse foreign
    else
      let (header, offset) ← readHeader raw ⟨none, "null"⟩ magic.length
      let schemaText ← Checked.ofOption (path ++ " carries no avro.schema in its header")
        header.schemaText
      let schema ← Checked.ofOption "parsing the embedded writer schema"
        (decoders.fromStr schemaText)
      if header.codec ≠ "null" ∧ header.codec ≠ "deflate" then
        Checked.refuse ("manifest codec " ++ header.codec ++
          " is outside the supported set (null, deflate) — fail closed rather than guess")
      else
        let start ← Checked.add offset 16
        if raw.bytes.length < start then
          Checked.refuse (path ++ " is truncated before its sync marker")
        else
          let sync ← Checked.slice raw.bytes offset start
          let records ← readBlocks decoders path header.codec schema raw sync start
          return ⟨schema, records⟩

end Container

/-! ## The framing is exact -/

/-- How a file is split: the blocks of the header map, the number that ends it, the marker, and the
blocks of values. -/
structure Framing where
  map : List MapBlock
  stop : Long
  sync : List UInt8
  blocks : List DataBlock
  ends : stop.number = 0
  marks : sync.length = 16

namespace Framing

/-- All the bytes, from the first to the last. -/
def bytes (framing : Framing) : List UInt8 :=
  magic ++ (framing.map.flatMap MapBlock.bytes ++ (framing.stop.bytes ++ (framing.sync ++
    framing.blocks.flatMap (DataBlock.bytes framing.sync))))

/-- What the entries of the header say. -/
def header (framing : Framing) : Checked String FileHeader :=
  (framing.map.flatMap MapBlock.pairs).foldlM FileHeader.pair ⟨none, "null"⟩

/-- The file has the schema of the header and the values of the blocks. -/
structure Gives {J V : Type} (decoders : Decoders J V) (path : String) (framing : Framing)
    (file : ContainerFile J V) (header : FileHeader) (schemaText : String)
    (parts : List (List V)) : Prop where
  said : framing.header = .ok header
  schemaSaid : header.schemaText = some schemaText
  schema : decoders.fromStr schemaText = some file.schema
  codec : header.codec = "null" ∨ header.codec = "deflate"
  decoded : framing.blocks.mapM (fun block => decodeBlock decoders path header.codec file.schema
    block.count.number.toNat block.data) = .ok parts
  records : file.records = parts.flatten

end Framing

section Exact

variable {J V : Type} {decoders : Decoders J V} {path : String} {raw : Buffer}

theorem readHeader_meets {header : FileHeader} :
    Checked.Meets (readHeader raw header offset) fun read =>
      ∃ (map : List MapBlock) (stop : Long), stop.number = 0 ∧
        (map.flatMap MapBlock.pairs).foldlM FileHeader.pair header = .ok read.1 ∧
          Between raw.bytes offset read.2 (map.flatMap MapBlock.bytes ++ stop.bytes) := by
  fun_induction readHeader raw header offset with
  | case1 header offset fault known =>
      have meets := @readMapBlock_meets raw.bytes offset raw.fits header
      rw [known] at meets
      exact meets.error
  | case2 header offset after next known =>
      obtain ⟨stop, zero, rfl, piece⟩ := (readMapBlock_meets raw.fits).of_ok known
      exact ⟨[], stop, zero, rfl, piece⟩
  | case3 header offset after next known ih =>
      obtain ⟨block, entries, piece⟩ := (readMapBlock_meets raw.fits).of_ok known
      refine ih.mono ?_
      rintro ⟨last, final⟩ ⟨map, stop, zero, others, rest⟩
      refine ⟨block :: map, stop, zero, ?_, ?_⟩
      · rw [List.flatMap_cons, List.foldlM_append, entries]
        exact others
      · rw [List.flatMap_cons, List.append_assoc]
        exact piece.append rest

theorem decodeBlock_meets {codec : String} {schema : J} {count : ℕ} {block : List UInt8} :
    Checked.Meets (decodeBlock decoders path codec schema count block) fun values =>
      decodeBlock decoders path codec schema count block = .ok values := by
  have plain : Checked.Meets (plainBlock decoders path codec block) fun plain =>
      plainBlock decoders path codec block = .ok plain := by
    rw [plainBlock]
    split
    · cases decoders.inflateBlock block with
      | none => trivial
      | some plain => exact rfl
    · exact rfl
  refine plain.bind fun plain known => ?_
  rw [decodeBlock, known]
  cases found : decoders.fromAvroDatum schema count plain with
  | none => trivial
  | some values => exact congrArg (Checked.ofOption _) found

/-- The blocks cover all that is behind the header. -/
theorem readBlocks_meets {codec : String} {schema : J} {sync : List UInt8} :
    offset ≤ raw.bytes.length →
      Checked.Meets (readBlocks decoders path codec schema raw sync offset) fun records =>
        ∃ (blocks : List DataBlock) (parts : List (List V)),
          blocks.mapM (fun block => decodeBlock decoders path codec schema
            block.count.number.toNat block.data) = .ok parts ∧ records = parts.flatten ∧
          Between raw.bytes offset raw.bytes.length (blocks.flatMap (DataBlock.bytes sync)) := by
  fun_induction readBlocks decoders path codec schema raw sync offset with
  | case1 offset inside fault known =>
      intro _
      have meets := @readBlock_meets path raw.bytes sync offset raw.fits
      rw [known] at meets
      exact meets.error
  | case2 offset inside count block next known ih =>
      intro _
      obtain ⟨block, rfl, rfl, piece⟩ := (readBlock_meets raw.fits).of_ok known
      refine decodeBlock_meets.bind fun values decoded => ?_
      refine (ih piece.inside).bind ?_
      rintro _ ⟨blocks, parts, others, rfl, rest⟩
      refine ⟨block :: blocks, values :: parts, ?_, rfl, ?_⟩
      · rw [List.mapM_cons, decoded, others]
        rfl
      · rw [List.flatMap_cons]
        exact piece.append rest
  | case3 offset outside =>
      intro inside
      have end_ : offset = raw.bytes.length := Nat.le_antisymm inside (Nat.le_of_not_lt outside)
      subst end_
      exact ⟨[], [], rfl, rfl, .nil (Nat.le_refl _)⟩

/-- **The framing splits the file**, from its first byte to its last, or refuses it; nothing outside
of it is asked for. -/
theorem readContainer_meets :
    Checked.Meets (readContainer decoders path raw) fun file =>
      ∃ (framing : Framing) (header : FileHeader) (schemaText : String) (parts : List (List V)),
        raw.bytes = framing.bytes ∧
          framing.Gives decoders path file header schemaText parts := by
  rw [readContainer]
  dsimp only
  split
  · trivial
  · next long =>
      refine (Checked.meets_slice (Nat.zero_le _) (Nat.le_of_not_lt long)).bind ?_
      intro front frontPiece
      split
      · trivial
      · next same =>
          rw [not_not] at same
          subst same
          refine readHeader_meets.bind ?_
          rintro ⟨header, offset⟩ ⟨map, stop, ends, said, headerPiece⟩
          have inside : offset ≤ raw.bytes.length := headerPiece.inside
          have fits := raw.fits
          refine (Checked.meets_ofOption.mpr fun _ given => given).bind
            fun schemaText schemaSaid => ?_
          refine (Checked.meets_ofOption.mpr fun _ given => given).bind fun schema parsed => ?_
          split
          · trivial
          · next codec =>
              refine (Checked.meets_add (by omega)).bind ?_
              rintro _ rfl
              split
              · trivial
              · next room =>
                  refine (Checked.meets_slice (Nat.le_add_right _ _)
                    (Nat.le_of_not_lt room)).bind ?_
                  intro sync syncPiece
                  refine (readBlocks_meets syncPiece.inside).bind ?_
                  rintro _ ⟨blocks, parts, decoded, rfl, rest⟩
                  have marks := syncPiece.stops
                  refine ⟨⟨map, stop, sync, blocks, ends, by omega⟩, header, schemaText, parts, ?_,
                    said, schemaSaid, parsed, ?_, decoded, rfl⟩
                  · refine Between.eq_of_whole (frontPiece.append ?_)
                    rw [← List.append_assoc]
                    exact headerPiece.append (syncPiece.append rest)
                  · by_contra other
                    exact codec (not_or.mp other)

end Exact

/-! ## Numbers that are written and numbers that do not fit -/

/-- A number that is written is read back. -/
theorem readLong_encode (n : Int64) (before rest : List UInt8) :
    readLong (before ++ ((Varint.encode (zigzag n.toInt)).bytes ++ rest)) before.length =
      .ok (n.toInt, before.length + (Varint.encode (zigzag n.toInt)).bytes.length) := by
  have small : zigzag n.toInt < 2 ^ 64 := zigzag_lt n.le_toInt n.toInt_lt
  have short : (Varint.encode (zigzag n.toInt)).front.length ≤ 9 :=
    Varint.length_encode (Nat.lt_trans small (by decide))
  rw [readLong_eq (v := Varint.encode (zigzag n.toInt)) List.drop_left, if_pos short,
    Varint.value_encode, Nat.mod_eq_of_lt small, unzigzag_zigzag]

/-- The last of ten bytes has more than the one bit that still fits. -/
def Spills (v : Varint) : Prop := v.front.length = 9 ∧ 2 ≤ v.last.toNat

/-- The bytes of a number that does not fit in 64 bits are refused. -/
def RefusesWide (v : Varint) : Prop :=
  2 ^ 64 ≤ v.value → ∀ before rest : List UInt8,
    ∃ reason, readLong (before ++ (v.bytes ++ rest)) before.length = Checked.refuse reason

theorem refusesWide_iff (v : Varint) : RefusesWide v ↔ ¬ Spills v := by
  have value := v.value_eq
  have size := Varint.valueOf_lt v.front
  constructor
  · rintro refuses ⟨ten, wide⟩
    rw [ten] at value size
    obtain ⟨reason, refused⟩ := refuses (by omega) [] []
    rw [readLong_eq List.drop_left, if_pos (by omega)] at refused
    cases refused
  · intro tight wide before rest
    refine ⟨"avro varint exceeds 64 bits", ?_⟩
    rw [readLong_eq List.drop_left, if_neg]
    intro short
    rcases Nat.lt_or_eq_of_le short with fewer | nine
    · -- up to nine bytes always fit
      have power : 128 ^ v.bytes.length ≤ 128 ^ 9 :=
        Nat.pow_le_pow_right (by decide) (by rw [Varint.length_bytes]; omega)
      have below := Varint.valueOf_lt v.bytes
      rw [Varint.value] at wide
      omega
    · have bit : v.last.toNat < 2 := Nat.lt_of_not_le fun wide => tight ⟨nine, wide⟩
      rw [nine] at value size
      omega

/-- **When the framing of a container is exact.** A file is split into its header and its blocks
from the first byte to the last, or refused, and nothing outside of it is asked for. A number of 64
bits that is written is read back, with the offset behind it. The bytes of a number that does not
fit in 64 bits are refused, unless they are ten and the last is above one. -/
theorem avroFraming_exact_iff {J V : Type} (decoders : Decoders J V) (path : String)
    (raw : Buffer) (n : Int64) (before rest : List UInt8) (v : Varint) :
    (Checked.Meets (readContainer decoders path raw) fun file =>
      ∃ (framing : Framing) (header : FileHeader) (schemaText : String) (parts : List (List V)),
        raw.bytes = framing.bytes ∧
          framing.Gives decoders path file header schemaText parts) ∧
    readLong (before ++ ((Varint.encode (zigzag n.toInt)).bytes ++ rest)) before.length =
      .ok (n.toInt, before.length + (Varint.encode (zigzag n.toInt)).bytes.length) ∧
    (RefusesWide v ↔ ¬ Spills v) :=
  ⟨readContainer_meets, readLong_encode n before rest, refusesWide_iff v⟩

/-- Ten bytes for twice two to the power of 63. -/
def wideZero : Varint where
  front := List.replicate 9 128
  last := 2
  goesOn := by simp
  ends := by decide

/-- They are read as zero. -/
theorem not_refusesWide :
    readLong wideZero.bytes 0 = .ok (0, 10) ∧ 2 ^ 64 ≤ wideZero.value ∧
      ¬ RefusesWide wideZero := by
  refine ⟨?_, by decide, (refusesWide_iff wideZero).not.mpr (not_not.mpr ⟨rfl, by decide⟩)⟩
  have here : wideZero.bytes.drop 0 = wideZero.bytes ++ [] := rfl
  rw [readLong_eq here]
  decide

end AvroFraming

end Exocortex
