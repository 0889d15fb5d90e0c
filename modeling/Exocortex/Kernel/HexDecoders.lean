import Exocortex.Kernel.HexText
import Exocortex.Library.Traversals

/-!
# When the hexadecimal decoders take exactly hexadecimal digits

A loop over the pairs of a text reads them all, or is refused at the first that is no number, or
comes to a pair that ends inside a character (`readPairs_spec`). The escapes in a path are read one
after another (`unescape_ok_iff`), and those that are written are read back
(`percentDecode_percentEncode`).

Together: the decoders take exactly hexadecimal digits where no pair has a sign, and where no pair
ends inside a character of a relationship's identity (`hexTexts_decode_iff`).
-/

namespace Exocortex

open Library

namespace HexText

/-! ## Reading pair after pair -/

variable {text rest : List Char} {n : ℕ}

section Pairs

variable {ε : Type} {cut : ε} {invalid : ParseIntError → ε}

theorem fillSlots_succ (slot : ℕ → Except ε UInt8) (i n : ℕ) :
    fillSlots slot (i + 1) n = fillSlots (fun j => slot (j + 1)) i n := by
  induction n generalizing i with
  | zero => rfl
  | succ n ih => rw [fillSlots, fillSlots, ih]

variable {pair : List Char}

/-- The first two bytes are read, and then what comes behind them. -/
theorem readPairs_succ (first : cutAt Char.utf8Size text 2 = some (pair, rest)) :
    readPairs cut invalid text (n + 1) =
      ((fromStrRadix pair).mapError invalid >>= fun byte =>
        readPairs cut invalid rest n >>= fun rest => .ok (consByte byte rest)) := by
  obtain ⟨rfl, two⟩ := (cutAt_eq_some_iff Char.utf8Size_pos).mp first
  have front : slice (pair ++ rest) (0 * 2) (0 * 2 + 2) = some pair := by
    rw [slice, Nat.zero_mul, Nat.zero_add, pieceAt_zero, first, Option.map_some]
  have behind : ∀ i, slice (pair ++ rest) ((i + 1) * 2) ((i + 1) * 2 + 2) =
      slice rest (i * 2) (i * 2 + 2) := by
    intro i
    have moved := pieceAt_append Char.utf8Size_pos pair rest (i * 2) (i * 2 + 2)
    rw [two] at moved
    have last : (i + 1) * 2 + 2 = 2 + (i * 2 + 2) := by omega
    have first : (i + 1) * 2 = 2 + i * 2 := by omega
    rw [slice, slice, ← moved, last, first]
  rw [readPairs, fillSlots, fillSlots_succ, front]
  simp only [behind]
  rfl

theorem readPairs_cut (first : cutAt Char.utf8Size text 2 = none) :
    readPairs cut invalid text (n + 1) = .error cut := by
  have front : slice text (0 * 2) (0 * 2 + 2) = none := by
    rw [slice, Nat.zero_mul, Nat.zero_add, pieceAt_zero, first, Option.map_none]
  rw [readPairs, fillSlots, front]
  rfl

/-- What pair after pair comes to, over a text of as many bytes as they have. -/
inductive PairsRead (cut : ε) (invalid : ParseIntError → ε) :
    List Char → (n : ℕ) → Except ε (Bytes n) → Prop
  | read {text : List Char} {n : ℕ} {value : Bytes n} (readable : Readable text)
      (digits : (∀ c ∈ text, c ∈ hexDigits) →
        value.digestHex.toList = text.map Char.toLower) :
      PairsRead cut invalid text n (.ok value)
  | refused {text : List Char} {n : ℕ} (reason : ParseIntError) (unreadable : ¬ Readable text)
      (whole : ∀ front back, text = front ++ back → Readable front → back ≠ [] →
        slice back 0 2 ≠ none) :
      PairsRead cut invalid text n (.error (invalid reason))
  | cut {text front back : List Char} {n : ℕ} (parts : text = front ++ back)
      (readable : Readable front) (more : back ≠ []) (inside : slice back 0 2 = none) :
      PairsRead cut invalid text n (.error cut)

theorem slice_zero (text : List Char) :
    slice text 0 2 = (cutAt Char.utf8Size text 2).map Prod.fst := pieceAt_zero text 2

theorem cutAt_lead {a b : Char} (lead : Lead a) (digit : b ∈ hexDigits) (rest : List Char) :
    cutAt Char.utf8Size (a :: b :: rest) 2 = some ([a, b], rest) := by
  refine (cutAt_eq_some_iff Char.utf8Size_pos).mpr ⟨rfl, ?_⟩
  rw [roomOf_cons, roomOf_cons, roomOf_nil, lead_small lead, hexDigits_small digit]

theorem digestHex_consByte (byte : UInt8) (value : Bytes n) :
    (consByte byte value).digestHex.toList =
      (Bytes.hexByte byte).toList ++ value.digestHex.toList := by
  simp [Bytes.digestHex, consByte, String.toList_join]

/-- The first pair of readable text is read. -/
theorem Readable.first (readable : Readable text)
    (cut : cutAt Char.utf8Size text 2 = some (pair, rest)) :
    (∃ byte, fromStrRadix pair = .ok byte) ∧ Readable rest := by
  obtain ⟨parts, two⟩ := (cutAt_eq_some_iff Char.utf8Size_pos).mp cut
  cases readable with
  | nil =>
      obtain ⟨rfl, -⟩ := List.append_eq_nil_iff.mp parts.symm
      cases two
  | @pair a b others lead digit readable =>
      rw [cutAt_lead lead digit] at cut
      cases cut
      exact ⟨⟨_, (fromStrRadix_ok_iff two).mpr ⟨a, b, rfl, lead, digit, rfl⟩⟩, readable⟩

/-- **Over a text of as many bytes as the pairs have.** -/
theorem readPairs_spec {text : List Char} {n : ℕ} (room : roomOf Char.utf8Size text = 2 * n) :
    PairsRead cut invalid text n (readPairs cut invalid text n) := by
  induction n generalizing text with
  | zero =>
      cases text with
      | nil => exact .read .nil fun _ => rfl
      | cons c text =>
          have some_ := c.utf8Size_pos
          rw [roomOf_cons] at room
          omega
  | succ n ih =>
      have more : text ≠ [] := by
        rintro rfl
        rw [roomOf_nil] at room
        omega
      cases first : cutAt Char.utf8Size text 2 with
      | none =>
          rw [readPairs_cut first]
          exact .cut (List.nil_append text).symm .nil more (by rw [slice_zero, first]; rfl)
      | some parts =>
          obtain ⟨pair, rest⟩ := parts
          obtain ⟨rfl, two⟩ := (cutAt_eq_some_iff Char.utf8Size_pos).mp first
          rw [roomOf_append] at room
          have inner : PairsRead cut invalid rest n (readPairs cut invalid rest n) :=
            ih (by omega)
          have here : slice (pair ++ rest) 0 2 ≠ none := by
            rw [slice_zero, first]
            exact Option.some_ne_none _
          rw [readPairs_succ first]
          cases read : fromStrRadix pair with
          | error reason =>
              refine .refused reason (fun readable => ?_) (fun front back parts readable _ => ?_)
              · obtain ⟨⟨byte, same⟩, -⟩ := readable.first first
                cases same.symm.trans read
              · cases readable with
                | nil => exact List.nil_append back ▸ parts ▸ here
                | @pair a b others lead digit readable =>
                    have cut := cutAt_lead lead digit (others ++ back)
                    rw [← List.cons_append, ← List.cons_append, ← parts, first] at cut
                    cases cut
                    have ok := (fromStrRadix_ok_iff two).mpr ⟨a, b, rfl, lead, digit, rfl⟩
                    cases ok.symm.trans read
          | ok byte =>
              obtain ⟨a, b, rfl, lead, digit, rfl⟩ := (fromStrRadix_ok_iff two).mp read
              generalize readPairs cut invalid rest n = result at inner
              cases inner with
              | @read _ value readable digits =>
                  refine .read (.pair lead digit readable) fun all => ?_
                  obtain ⟨first, second, others⟩ : a ∈ hexDigits ∧ b ∈ hexDigits ∧
                      ∀ c ∈ rest, c ∈ hexDigits := by simpa using all
                  rw [digestHex_consByte, digits others, byteOf_text first second]
                  rfl
              | refused reason unreadable whole =>
                  refine .refused reason (fun readable => unreadable (readable.first first).2) ?_
                  intro front back parts readable more
                  cases readable with
                  | nil => exact List.nil_append back ▸ parts ▸ here
                  | pair _ _ readable =>
                      simp only [List.cons_append, List.cons.injEq, List.nil_append] at parts
                      exact whole _ back parts.2.2 readable more
              | @cut front back _ parts readable more inside =>
                  exact @PairsRead.cut _ _ _ _ (a :: b :: front) back _ (by rw [parts]; rfl)
                    (.pair lead digit readable) more inside

end Pairs

/-! ## Escape after escape -/

section Escapes

variable {Opens : Char → Prop}

theorem escapesWith_nil : EscapesWith Opens [] := by
  intro front back parts
  cases front <;> cases parts

theorem escapesWith_plain {c : Char} (plain : c ≠ '%') :
    EscapesWith Opens (c :: rest) ↔ EscapesWith Opens rest := by
  constructor
  · intro escapes front back parts
    exact escapes (c :: front) back (by rw [parts]; rfl)
  · intro escapes front back parts
    cases front with
    | nil => exact absurd (List.cons.inj parts).1 plain
    | cons d front => exact escapes front back (List.cons.inj parts).2

theorem escapesWith_escape (apart : ¬ Opens '%') :
    EscapesWith Opens ('%' :: rest) ↔
      ∃ a b after, rest = a :: b :: after ∧ Opens a ∧ b ∈ hexDigits ∧
        EscapesWith Opens after := by
  have percent : '%' ∉ hexDigits := by decide
  constructor
  · intro escapes
    obtain ⟨a, b, after, rfl, opens, digit⟩ := escapes [] rest rfl
    refine ⟨a, b, after, rfl, opens, digit, fun front back parts => ?_⟩
    exact escapes ('%' :: a :: b :: front) back (by rw [parts]; rfl)
  · rintro ⟨a, b, after, rfl, opens, digit, escapes⟩ front back parts
    cases front with
    | nil =>
        cases parts
        exact ⟨a, b, after, rfl, opens, digit⟩
    | cons c front =>
        have first : a ≠ '%' := fun same => apart (same ▸ opens)
        have second : b ≠ '%' := fun same => percent (same ▸ digit)
        exact ((escapesWith_plain first).mpr ((escapesWith_plain second).mpr escapes)) front back
          (List.cons.inj parts).2

end Escapes

theorem unescaped_plain {c : Char} (plain : c ≠ '%') (rest : List Char) :
    unescaped (c :: rest) = String.utf8EncodeChar c ++ unescaped rest := by
  rw [unescaped.eq_def]
  exact if_neg plain

theorem unescaped_escape (a b : Char) (rest : List Char) :
    unescaped ('%' :: a :: b :: rest) = byteOf a b :: unescaped rest := by
  rw [unescaped, if_pos rfl]

theorem lead_percent : ¬ Lead '%' := by
  unfold Lead
  decide

variable {bytes : List UInt8} {front back : List Char}

/-- **The escapes that are read, and what they come to.** -/
theorem unescape_ok_iff {input : String} :
    unescape input text = .ok bytes ↔ EscapesWith Lead text ∧ bytes = unescaped text := by
  fun_induction unescape input text generalizing bytes with
  | case1 =>
      rw [Except.ok.injEq, unescaped]
      exact ⟨fun same => ⟨escapesWith_nil, same.symm⟩, fun same => same.2.symm⟩
  | case2 rest uncut =>
      refine ⟨nofun, fun ⟨escapes, _⟩ => ?_⟩
      obtain ⟨a, b, after, rfl, lead, digit, -⟩ := (escapesWith_escape lead_percent).mp escapes
      rw [slice_zero, cutAt_lead lead digit] at uncut
      cases uncut
  | case3 rest pair cut reason refused =>
      refine ⟨nofun, fun ⟨escapes, _⟩ => ?_⟩
      obtain ⟨a, b, after, rfl, lead, digit, -⟩ := (escapesWith_escape lead_percent).mp escapes
      rw [slice_zero, cutAt_lead lead digit] at cut
      cases cut
      have two : roomOf Char.utf8Size [a, b] = 2 :=
        ((cutAt_eq_some_iff Char.utf8Size_pos).mp (cutAt_lead lead digit after)).2
      have ok := (fromStrRadix_ok_iff two).mpr ⟨a, b, rfl, lead, digit, rfl⟩
      cases ok.symm.trans refused
  | case4 rest pair cut byte read ih =>
      rw [slice_zero, Option.map_eq_some_iff] at cut
      obtain ⟨⟨_, after⟩, cut, rfl⟩ := cut
      obtain ⟨rfl, two⟩ := (cutAt_eq_some_iff Char.utf8Size_pos).mp cut
      obtain ⟨a, b, rfl, lead, digit, rfl⟩ := (fromStrRadix_ok_iff two).mp read
      have dropped : ([a, b] ++ after).drop [a, b].length = after := List.drop_left
      rw [dropped] at ih ⊢
      rw [map_ok_iff, escapesWith_escape lead_percent]
      constructor
      · rintro ⟨inner, same, rfl⟩
        obtain ⟨escapes, rfl⟩ := ih.mp same
        exact ⟨⟨a, b, after, rfl, lead, digit, escapes⟩, (unescaped_escape a b after).symm⟩
      · rintro ⟨⟨a', b', after', same, -, -, escapes⟩, rfl⟩
        cases same
        exact ⟨_, ih.mpr ⟨escapes, rfl⟩, (unescaped_escape a b after).symm⟩
  | case5 c rest plain ih =>
      rw [map_ok_iff, escapesWith_plain plain, unescaped_plain plain]
      constructor
      · rintro ⟨inner, same, rfl⟩
        obtain ⟨escapes, rfl⟩ := ih.mp same
        exact ⟨escapes, rfl⟩
      · rintro ⟨escapes, rfl⟩
        exact ⟨_, ih.mpr ⟨escapes, rfl⟩, rfl⟩

/-! ## Bytes and texts -/

theorem fromUtf8_eq_some_iff {text : String} :
    fromUtf8 bytes = some text ↔ text.toUTF8.toList = bytes := by
  rw [fromUtf8, String.fromUTF8?, toList_eq]
  constructor
  · intro decoded
    split at decoded
    · cases decoded
      rfl
    · cases decoded
  · rintro rfl
    exact dif_pos text.isValidUTF8

theorem percentDecode_ok_iff {utf8Error : List UInt8 → String} {input decoded : String} :
    percentDecode utf8Error input = .ok decoded ↔
      EscapesWith Lead input.toList ∧ decoded.toUTF8.toList = unescaped input.toList := by
  rw [percentDecode, bind_eq_ok_iff]
  constructor
  · rintro ⟨out, read, rest⟩
    obtain ⟨escapes, rfl⟩ := unescape_ok_iff.mp read
    cases text : fromUtf8 (unescaped input.toList) with
    | none => simp [text] at rest
    | some text' =>
        simp only [text, Except.ok.injEq] at rest
        exact ⟨escapes, rest ▸ fromUtf8_eq_some_iff.mp text⟩
  · rintro ⟨escapes, same⟩
    refine ⟨_, unescape_ok_iff.mpr ⟨escapes, rfl⟩, ?_⟩
    rw [fromUtf8_eq_some_iff.mpr same]

/-! ## Writing escapes -/

theorem escaped_kept : ∀ n < 256, n < 128 ∧ n ≠ 37 →
    Char.ofNat n ≠ '%' ∧ String.utf8EncodeChar (Char.ofNat n) = [UInt8.ofNat n] := by
  decide +kernel

theorem digitsOf_eq : ∀ n < 256, ∀ upper : Bool, ∃ a b, digitsOf upper (UInt8.ofNat n) = [a, b] ∧
    a ∈ hexDigits ∧ b ∈ hexDigits ∧ byteOf a b = UInt8.ofNat n := by
  have all : ∀ n < 256, ∀ upper : Bool,
      let digits := digitsOf upper (UInt8.ofNat n)
      digits = [digits.getD 0 '%', digits.getD 1 '%'] ∧ digits.getD 0 '%' ∈ hexDigits ∧
        digits.getD 1 '%' ∈ hexDigits ∧
          byteOf (digits.getD 0 '%') (digits.getD 1 '%') = UInt8.ofNat n := by
    decide +kernel
  exact fun n below upper => ⟨_, _, all n below upper⟩

/-- One byte is written, as itself or as an escape, and is read back. -/
theorem escaped_byte (upper : Bool) (keep : UInt8 → Bool) (byte : UInt8) (rest : List Char) :
    (EscapesWith (· ∈ hexDigits) (escaped upper keep byte ++ rest) ↔
      EscapesWith (· ∈ hexDigits) rest) ∧
    unescaped (escaped upper keep byte ++ rest) = byte :: unescaped rest := by
  have same : UInt8.ofNat byte.toNat = byte := UInt8.ofNat_toNat
  rw [escaped]
  split
  · next kept =>
      obtain ⟨-, small, apart⟩ := kept
      have apart' : byte.toNat ≠ 37 := fun eq => apart (by rw [← same, eq]; rfl)
      obtain ⟨plain, bytes⟩ := escaped_kept byte.toNat byte.toNat_lt ⟨small, apart'⟩
      rw [List.singleton_append, escapesWith_plain plain, unescaped_plain plain, bytes, same]
      exact ⟨Iff.rfl, rfl⟩
  · obtain ⟨a, b, pair, first, second, value⟩ := digitsOf_eq byte.toNat byte.toNat_lt upper
    rw [same] at pair value
    have percent : '%' ∉ hexDigits := by decide
    rw [pair, List.cons_append, List.cons_append, List.singleton_append,
      escapesWith_escape percent, unescaped_escape, value]
    refine ⟨⟨?_, fun escapes => ⟨a, b, rest, rfl, first, second, escapes⟩⟩, rfl⟩
    rintro ⟨a', b', after, parts, -, -, escapes⟩
    cases parts
    exact escapes

theorem escaped_bytes (upper : Bool) (keep : UInt8 → Bool) (bytes : List UInt8) :
    EscapesWith (· ∈ hexDigits) (bytes.flatMap (escaped upper keep)) ∧
      unescaped (bytes.flatMap (escaped upper keep)) = bytes := by
  induction bytes with
  | nil => exact ⟨escapesWith_nil, rfl⟩
  | cons byte bytes ih =>
      obtain ⟨escapes, value⟩ := escaped_byte upper keep byte (bytes.flatMap (escaped upper keep))
      rw [List.flatMap_cons]
      exact ⟨escapes.mpr ih.1, by rw [value, ih.2]⟩

theorem EscapesWith.signed (escapes : EscapesWith (· ∈ hexDigits) text) :
    EscapesWith Lead text := by
  intro front back parts
  obtain ⟨a, b, rest, same, first, second⟩ := escapes front back parts
  exact ⟨a, b, rest, same, .inl first, second⟩

/-- **What is written with escapes is read back.** -/
theorem percentDecode_percentEncode (utf8Error : List UInt8 → String) (upper : Bool)
    (keep : UInt8 → Bool) (text : String) :
    percentDecode utf8Error (percentEncode upper keep text) = .ok text := by
  obtain ⟨escapes, value⟩ := escaped_bytes upper keep text.toUTF8.toList
  rw [percentDecode_ok_iff, percentEncode, String.toList_ofList, value]
  exact ⟨escapes.signed, rfl⟩

/-! ## When the decoders take exactly the hexadecimal texts -/

theorem roomOf_toList (text : String) :
    roomOf Char.utf8Size text.toList = text.utf8ByteSize := by
  have all : ∀ chars : List Char,
      roomOf Char.utf8Size chars = (String.ofList chars).utf8ByteSize := by
    intro chars
    induction chars with
    | nil => rfl
    | cons c chars ih =>
        have parts : String.ofList (c :: chars) = String.singleton c ++ String.ofList chars := by
          rw [← String.toList_inj, String.toList_append]
          simp
        rw [roomOf_cons, ih, parts, String.utf8ByteSize_append, String.utf8ByteSize_singleton]
  rw [all, String.ofList_toList]

theorem Readable.length (readable : Readable text) : roomOf Char.utf8Size text = text.length := by
  induction readable with
  | nil => rfl
  | pair lead digit _ ih =>
      rw [roomOf_cons, roomOf_cons, ih, lead_small lead, hexDigits_small digit, List.length_cons,
        List.length_cons]
      omega

/-- Readable text without a plus sign has hexadecimal digits only. -/
theorem Readable.digits (readable : Readable text) (unsigned : '+' ∉ text) :
    ∀ c ∈ text, c ∈ hexDigits := by
  induction readable with
  | nil => exact nofun
  | @pair a b rest lead digit _ ih =>
      simp only [List.mem_cons, not_or] at unsigned
      intro c listed
      rcases List.mem_cons.mp listed with rfl | later
      · exact lead.resolve_right fun same => unsigned.1 same.symm
      · rcases List.mem_cons.mp later with rfl | last
        · exact digit
        · exact ih unsigned.2.2 c last

theorem readable_of_digits (length : text.length = 2 * n) (digits : ∀ c ∈ text, c ∈ hexDigits) :
    Readable text := by
  induction n generalizing text with
  | zero =>
      obtain rfl := List.eq_nil_of_length_eq_zero length
      exact .nil
  | succ n ih =>
      match text with
      | [] => cases length
      | [_] =>
          rw [List.length_singleton] at length
          omega
      | a :: b :: rest =>
          simp only [List.length_cons] at length
          simp only [List.forall_mem_cons] at digits
          exact .pair (.inl digits.1) digits.2.1 (ih (by omega) digits.2.2)

theorem Readable.of_append (readable : Readable front) (whole : Readable (front ++ back)) :
    Readable back := by
  induction readable with
  | nil => exact whole
  | pair _ _ _ ih =>
      cases whole with
      | pair _ _ rest => exact ih rest

/-- No pair of readable text cuts a character. -/
theorem Readable.uncut (whole : Readable text) (parts : text = front ++ back)
    (readable : Readable front) (more : back ≠ []) : slice back 0 2 ≠ none := by
  cases readable.of_append (parts ▸ whole) with
  | nil => exact absurd rfl more
  | pair lead digit _ =>
      rw [slice_zero, cutAt_lead lead digit]
      exact Option.some_ne_none _

section Widths

variable {width : ℕ} {text : String}

theorem isHex_iff : IsHex (2 * width) text ↔
    text.toList.length = 2 * width ∧ Readable text.toList ∧ '+' ∉ text.toList := by
  have plus : '+' ∉ hexDigits := by decide
  constructor
  · rintro ⟨length, digits⟩
    exact ⟨length, readable_of_digits length digits, fun signed => plus (digits _ signed)⟩
  · rintro ⟨length, readable, unsigned⟩
    exact ⟨length, readable.digits unsigned⟩

/-- A decoder that refuses what is not hexadecimal digits does what it is for. -/
theorem DecodesHex.of_refused {result : Except Stop (Bytes width)} {reason : String}
    (other : ¬ IsHex (2 * width) text) (refused : result = .error (.refused reason)) :
    DecodesHex width text result := by
  subst refused
  exact ⟨⟨nofun, fun digits => absurd digits other⟩, nofun, fun _ => ⟨reason, rfl⟩⟩

theorem decodesHex_of_length {result : Except Stop (Bytes width)} {reason : String}
    (short : text.utf8ByteSize ≠ 2 * width) (refused : result = .error (.refused reason)) :
    DecodesHex width text result ∧ ¬ Signed width text ∧ ¬ CutsChar width text := by
  have other : ∀ readable : Readable text.toList, text.toList.length ≠ 2 * width := by
    intro readable length
    rw [← roomOf_toList, readable.length] at short
    exact short length
  refine ⟨.of_refused (fun digits => ?_) refused, fun signed => ?_, fun cuts => short cuts.1⟩
  · obtain ⟨length, readable, -⟩ := isHex_iff.mp digits
    exact other readable length
  · exact other signed.2.1 signed.1

/-- **The loop over the pairs takes exactly the hexadecimal digits** when none of them is a sign
and no pair cuts a character, unless that is refused too. -/
theorem decodesHex_readPairs_iff {cut : Stop} {invalid : ParseIntError → Stop}
    (refuses : ∀ e, ∃ reason, invalid e = .refused reason)
    (size : text.utf8ByteSize = 2 * width) :
    DecodesHex width text (readPairs cut invalid text.toList width) ↔
      ¬ Signed width text ∧ (cut = .panicked → ¬ CutsChar width text) := by
  have room : roomOf Char.utf8Size text.toList = 2 * width := (roomOf_toList text).trans size
  have spec := @readPairs_spec _ cut invalid _ _ room
  generalize readPairs cut invalid text.toList width = result at spec
  cases spec with
  | @read _ value readable digits =>
      have length : text.toList.length = 2 * width := readable.length.symm.trans room
      constructor
      · intro decodes
        have plain := isHex_iff.mp (decodes.accepts.mp ⟨value, rfl⟩)
        refine ⟨fun signed => plain.2.2 signed.2.2, fun _ => ?_⟩
        rintro ⟨_, front, back, parts, first, more, cut⟩
        exact readable.uncut parts first more cut
      · rintro ⟨unsigned, -⟩
        have plain : IsHex (2 * width) text :=
          isHex_iff.mpr ⟨length, readable, fun plus => unsigned ⟨length, readable, plus⟩⟩
        refine ⟨⟨fun _ => plain, fun _ => ⟨value, rfl⟩⟩, ?_, fun other => absurd plain other⟩
        rintro value' same
        cases same
        rw [← String.toList_inj, digits plain.2]
        exact String.toList_map.symm
  | refused reason unreadable whole =>
      obtain ⟨text', same⟩ := refuses reason
      refine iff_of_true (.of_refused (fun plain => unreadable (isHex_iff.mp plain).2.1)
        (congrArg _ same)) ⟨fun signed => unreadable signed.2.1, fun _ => ?_⟩
      rintro ⟨_, front, back, parts, readable, more, cut⟩
      exact whole front back parts readable more cut
  | @cut front back _ parts readable more inside =>
      have unreadable : ¬ Readable text.toList := fun whole =>
        whole.uncut parts readable more inside
      have cuts : CutsChar width text := ⟨size, front, back, parts, readable, more, inside⟩
      have other : ¬ IsHex (2 * width) text := fun plain => unreadable (isHex_iff.mp plain).2.1
      constructor
      · intro decodes
        refine ⟨fun signed => unreadable signed.2.1, fun panics => ?_⟩
        obtain ⟨reason, same⟩ := decodes.refuses other
        rw [panics] at same
        cases same
      · rintro ⟨-, whole⟩
        cases cut with
        | refused reason => exact .of_refused other rfl
        | panicked => exact absurd cuts (whole rfl)

end Widths

theorem readPairs_mapError {ε : Type} (cut : ε) (invalid : ParseIntError → ε) (f : ε → Stop)
    (text : List Char) (n : ℕ) : (readPairs cut invalid text n).mapError f =
      readPairs (f cut) (fun e => f (invalid e)) text n := by
  have slots : ∀ (slot : ℕ → Except ε UInt8) (i n : ℕ),
      (fillSlots slot i n).mapError f = fillSlots (fun j => (slot j).mapError f) i n := by
    intro slot i n
    induction n generalizing i with
    | zero => rfl
    | succ n ih =>
        rw [fillSlots, fillSlots, ← ih]
        cases slot i with
        | error reason => rfl
        | ok byte => cases fillSlots slot (i + 1) n <;> rfl
  rw [readPairs, readPairs, slots]
  congr 1
  funext i
  cases slice text (i * 2) (i * 2 + 2) with
  | none => rfl
  | some pair =>
      dsimp only
      cases fromStrRadix pair <;> rfl

theorem decodesHex_decodeHex32 (text : String) :
    DecodesHex 32 text ((decodeHex32 text).mapError .refused) ↔ ¬ Signed 32 text := by
  rw [decodeHex32]
  split
  · next wrong =>
      obtain ⟨decodes, unsigned, -⟩ := @decodesHex_of_length 32 _ _ _ wrong rfl
      exact iff_of_true decodes unsigned
  · next right =>
      rw [readPairs_mapError, decodesHex_readPairs_iff (fun e => ⟨_, rfl⟩) (not_not.mp right)]
      exact and_iff_left nofun

theorem decodesHex_relUnhex (text : String) :
    DecodesHex 16 text ((relUnhex text).map RelationshipId.raw) ↔
      ¬ Signed 16 text ∧ ¬ CutsChar 16 text := by
  rw [relUnhex]
  split
  · next wrong =>
      obtain ⟨decodes, unsigned, uncut⟩ := @decodesHex_of_length 16 _ _ _ wrong rfl
      exact iff_of_true decodes ⟨unsigned, uncut⟩
  · next right =>
      have same : ∀ result : Except Stop (Bytes 16),
          (result.map RelationshipId.mk).map RelationshipId.raw = result := by
        intro result
        cases result <;> rfl
      rw [same, decodesHex_readPairs_iff (fun _ => ⟨_, rfl⟩) (not_not.mp right)]
      exact and_congr_right fun _ => ⟨fun whole => whole rfl, fun whole _ => whole⟩

theorem decodesPercent_percentDecode (utf8Error : List UInt8 → String) (text : String) :
    DecodesPercent text (percentDecode utf8Error text) ↔ ¬ SignedEscapes text := by
  have accepts : (∃ decoded, percentDecode utf8Error text = .ok decoded) ↔
      EscapesWith Lead text.toList ∧ StandsForText text := by
    simp only [percentDecode_ok_iff, exists_and_left]
    rfl
  constructor
  · rintro decodes ⟨signed, other, stands⟩
    exact other (decodes.accepts.mp (accepts.mpr ⟨signed, stands⟩)).1
  · intro unsigned
    have same : (∃ decoded, percentDecode utf8Error text = .ok decoded) ↔ PercentEncoded text := by
      rw [accepts]
      constructor
      · rintro ⟨signed, stands⟩
        exact ⟨not_not.mp fun other => unsigned ⟨signed, other, stands⟩, stands⟩
      · exact fun ⟨escapes, stands⟩ => ⟨escapes.signed, stands⟩
    refine ⟨same, fun decoded ok => (percentDecode_ok_iff.mp ok).2, fun other => ?_⟩
    cases result : percentDecode utf8Error text with
    | error reason => exact ⟨reason, rfl⟩
    | ok decoded => exact absurd (same.mp ⟨decoded, result⟩) other

/-- **When the decoders take exactly hexadecimal digits.** A plus sign before the second digit of a
pair is taken too, and the identity of a relationship is not refused but panics when a pair ends
inside a character. What is written with escapes is always read back. -/
theorem hexTexts_decode_iff (utf8Error : List UInt8 → String) (text : String) :
    (DecodesHex 32 text ((decodeHex32 text).mapError .refused) ↔ ¬ Signed 32 text) ∧
    (DecodesHex 16 text ((relUnhex text).map RelationshipId.raw) ↔
      ¬ Signed 16 text ∧ ¬ CutsChar 16 text) ∧
    (DecodesPercent text (percentDecode utf8Error text) ↔ ¬ SignedEscapes text) ∧
    ∀ upper keep, percentDecode utf8Error (percentEncode upper keep text) = .ok text :=
  ⟨decodesHex_decodeHex32 text, decodesHex_relUnhex text,
    decodesPercent_percentDecode utf8Error text,
    fun upper keep => percentDecode_percentEncode utf8Error upper keep text⟩

theorem readable_signed (n : ℕ) : Readable (List.replicate n ['+', 'f']).flatten := by
  induction n with
  | zero => exact .nil
  | succ n ih => exact .pair (.inr rfl) (by decide) ih

/-- Signs in place of digits are taken, and a character that is cut panics. -/
theorem not_hexTexts_decode :
    ¬ DecodesHex 32 (String.join (List.replicate 32 "+f"))
      ((decodeHex32 (String.join (List.replicate 32 "+f"))).mapError .refused) ∧
    ¬ DecodesHex 16 (String.join ("0é" :: List.replicate 29 "0"))
      ((relUnhex (String.join ("0é" :: List.replicate 29 "0"))).map RelationshipId.raw) ∧
    ¬ DecodesPercent "%+f" (percentDecode (fun _ => "") "%+f") := by
  refine ⟨fun decodes => ?_, fun decodes => ?_, fun decodes => ?_⟩
  · have readable : Readable (String.join (List.replicate 32 "+f")).toList := readable_signed 32
    exact (decodesHex_decodeHex32 _).mp decodes ⟨by decide, readable, by decide⟩
  · exact ((decodesHex_relUnhex _).mp decodes).2
      ⟨by decide, [], _, rfl, .nil, by decide, by decide⟩
  · have percent : '%' ∉ hexDigits := by decide
    refine (decodesPercent_percentDecode _ _).mp decodes
      ⟨?_, fun plain => ?_, "\x0f", by decide +kernel⟩
    · exact (escapesWith_escape lead_percent).mpr
        ⟨'+', 'f', [], rfl, .inr rfl, by decide, escapesWith_nil⟩
    · obtain ⟨a, b, after, same, digit, -⟩ := (escapesWith_escape percent).mp plain
      cases same
      revert digit
      decide

end HexText

end Exocortex
