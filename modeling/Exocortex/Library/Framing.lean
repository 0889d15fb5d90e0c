import Mathlib

/-!
# Values written one after the other

An encoding is self-delimiting when, of what is written after a valid value, nothing can be taken
for a part of it (`SelfDelimiting`). Encodings of a fixed width are, and so is a list of bytes with
its length before it (`SelfDelimiting.frame`), and a list of values with their number before it
(`SelfDelimiting.counted`). Values that a separator ends are not: where the separator stands inside
of a value, the boundary can slide (`append_cons_eq_iff`).

Numbers are written with their least significant byte first (`leBytes`). Two values have the same
digest by construction when they have it under every digest function (`eq_of_digests`).
-/

namespace Library

/-! ## Numbers -/

/-- The bytes of a number, least significant first. -/
def leBytes (width n : ℕ) : List UInt8 :=
  (List.range width).map fun i => UInt8.ofNat (n / 256 ^ i % 256)

@[simp] theorem length_leBytes (width n : ℕ) : (leBytes width n).length = width := by
  rw [leBytes, List.length_map, List.length_range]

theorem leBytes_zero (n : ℕ) : leBytes 0 n = [] := rfl

theorem leBytes_succ (width n : ℕ) :
    leBytes (width + 1) n = UInt8.ofNat (n % 256) :: leBytes width (n / 256) := by
  rw [leBytes, leBytes, List.range_succ_eq_map, List.map_cons, List.map_map, Nat.pow_zero,
    Nat.div_one]
  refine congrArg (_ :: ·) (List.map_congr_left fun i _ => ?_)
  rw [Function.comp_apply, Nat.succ_eq_add_one, Nat.pow_succ', Nat.div_div_eq_div_mul]

variable {width : ℕ}

theorem leBytes_eq_iff {n m : ℕ} :
    leBytes width n = leBytes width m ↔ n % 256 ^ width = m % 256 ^ width := by
  induction width generalizing n m with
  | zero => simp only [leBytes, List.range_zero, List.map_nil, Nat.pow_zero, Nat.mod_one]
  | succ width ih =>
      have least : UInt8.ofNat (n % 256) = UInt8.ofNat (m % 256) ↔ n % 256 = m % 256 := by
        rw [← UInt8.toNat_inj, UInt8.toNat_ofNat', UInt8.toNat_ofNat']
        omega
      rw [leBytes_succ, leBytes_succ, List.cons.injEq, ih, least, Nat.pow_succ', Nat.mod_mul,
        Nat.mod_mul]
      constructor
      · rintro ⟨first, rest⟩
        rw [first, rest]
      · intro same
        have first : n % 256 = m % 256 := by omega
        exact ⟨first, by omega⟩

theorem leBytes_inj_of_lt {n m : ℕ} (below : n < 256 ^ width) (below' : m < 256 ^ width)
    (same : leBytes width n = leBytes width m) : n = m := by
  have rest := leBytes_eq_iff.mp same
  rwa [Nat.mod_eq_of_lt below, Nat.mod_eq_of_lt below'] at rest

/-- Any bytes are those of a number. -/
theorem exists_leBytes (bytes : List UInt8) :
    ∃ n < 256 ^ bytes.length, leBytes bytes.length n = bytes := by
  induction bytes with
  | nil => exact ⟨0, Nat.one_pos, rfl⟩
  | cons byte bytes ih =>
      obtain ⟨n, below, rest⟩ := ih
      have size := byte.toNat_lt
      refine ⟨byte.toNat + 256 * n, ?_, ?_⟩
      · rw [List.length_cons, Nat.pow_succ']
        omega
      · have first : (byte.toNat + 256 * n) % 256 = byte.toNat := by omega
        have later : (byte.toNat + 256 * n) / 256 = n := by omega
        rw [List.length_cons, leBytes_succ, first, later, rest, UInt8.ofNat_toNat]

/-! ## Self-delimiting encodings -/

section Encodings

variable {α β : Type*}

/-- A valid value and what is written after it can be read back. -/
def SelfDelimiting (valid : α → Prop) (encode : α → List β) : Prop :=
  ∀ ⦃x y⦄, valid x → valid y → ∀ ⦃rest rest'⦄, encode x ++ rest = encode y ++ rest' →
    x = y ∧ rest = rest'

namespace SelfDelimiting

variable {valid : α → Prop} {encode : α → List β}

theorem of_width (width : ℕ) (fixed : ∀ x, valid x → (encode x).length = width)
    (injective : ∀ x y, valid x → valid y → encode x = encode y → x = y) :
    SelfDelimiting valid encode := by
  intro x y isValid isValid' rest rest' same
  obtain ⟨front, back⟩ := List.append_inj same ((fixed x isValid).trans (fixed y isValid').symm)
  exact ⟨injective x y isValid isValid' front, back⟩

theorem injective (delimits : SelfDelimiting valid encode) {x y : α} (isValid : valid x)
    (isValid' : valid y) (same : encode x = encode y) : x = y :=
  (delimits isValid isValid' (congrArg (· ++ []) same)).1

/-- A list of values is read back when its length is known. -/
theorem flatMap (delimits : SelfDelimiting valid encode) {xs ys : List α}
    (size : xs.length = ys.length) (isValid : ∀ x ∈ xs, valid x) (isValid' : ∀ y ∈ ys, valid y)
    {rest rest' : List β} (same : xs.flatMap encode ++ rest = ys.flatMap encode ++ rest') :
    xs = ys ∧ rest = rest' := by
  induction xs generalizing ys with
  | nil =>
      rw [List.length_eq_zero_iff.mp size.symm] at same ⊢
      exact ⟨rfl, same⟩
  | cons x xs ih =>
      cases ys with
      | nil => cases size
      | cons y ys =>
          rw [List.forall_mem_cons] at isValid isValid'
          rw [List.flatMap_cons, List.flatMap_cons, List.append_assoc, List.append_assoc] at same
          obtain ⟨rfl, later⟩ := delimits isValid.1 isValid'.1 same
          obtain ⟨rfl, back⟩ := ih (Nat.succ.inj size) isValid.2 isValid'.2 later
          exact ⟨rfl, back⟩

end SelfDelimiting

variable (size : ℕ → List β)

/-- A list with its length before it. -/
def frame (xs : List β) : List β := size xs.length ++ xs

/-- A list of values with their number before it. -/
def counted (encode : α → List β) (xs : List α) : List β := size xs.length ++ xs.flatMap encode

/-- A value with a mark before it, or the mark that there is none. -/
def optional (absent present : β) (encode : α → List β) : Option α → List β
  | none => [absent]
  | some x => present :: encode x

variable {size} {bound : ℕ}

variable {encode : α → List β}

theorem SelfDelimiting.optional {valid : α → Prop} {absent present : β} (apart : absent ≠ present)
    (delimits : SelfDelimiting valid encode) :
    SelfDelimiting (fun x => ∀ y ∈ x, valid y) (optional absent present encode) := by
  intro x y isValid isValid' rest rest' same
  cases x with
  | none =>
      cases y with
      | none => exact ⟨rfl, List.cons.inj same |>.2⟩
      | some value' => exact absurd (List.cons.inj same).1 apart
  | some value =>
      cases y with
      | none => exact absurd (List.cons.inj same).1.symm apart
      | some value' =>
          obtain ⟨rfl, back⟩ := delimits (isValid value rfl) (isValid' value' rfl)
            (List.cons.inj same).2
          exact ⟨rfl, back⟩

theorem frame_append (xs rest : List β) : frame size xs ++ rest = size xs.length ++ (xs ++ rest) :=
  List.append_assoc _ _ _

theorem SelfDelimiting.frame (sizes : SelfDelimiting (· < bound) size) :
    SelfDelimiting (fun xs : List β => xs.length < bound) (frame size) := by
  intro xs ys short short' rest rest' same
  rw [frame_append, frame_append] at same
  obtain ⟨length, back⟩ := sizes short short' same
  exact List.append_inj back length

theorem SelfDelimiting.counted {valid : α → Prop} (sizes : SelfDelimiting (· < bound) size)
    (delimits : SelfDelimiting valid encode) :
    SelfDelimiting (fun xs => xs.length < bound ∧ ∀ x ∈ xs, valid x) (counted size encode) := by
  rintro xs ys ⟨short, isValid⟩ ⟨short', isValid'⟩ rest rest' same
  rw [Library.counted, Library.counted, List.append_assoc, List.append_assoc] at same
  obtain ⟨length, back⟩ := sizes short short' same
  exact delimits.flatMap length isValid isValid' back

theorem leBytes_selfDelimiting (fits : bound ≤ 256 ^ width) :
    SelfDelimiting (· < bound) (leBytes width) :=
  .of_width width (fun _ _ => length_leBytes width _) fun _ _ below below' =>
    leBytes_inj_of_lt (Nat.lt_of_lt_of_le below fits) (Nat.lt_of_lt_of_le below' fits)

end Encodings

/-! ## Digests -/

/-- What every digest function sends to the same value is the same. -/
theorem eq_of_digests {α δ ε : Type*} {render : δ → ε} {one two : δ}
    (apart : render one ≠ render two) {x y : α}
    (same : ∀ digest : α → δ, render (digest x) = render (digest y)) : x = y := by
  classical
  by_contra different
  have told := same fun input => if input = x then one else two
  rw [if_pos rfl, if_neg (Ne.symm different)] at told
  exact apart told

/-! ## Separators -/

section Separators

variable {α : Type*} {mark : α} {a b x y : List α}

/-- The boundary after the first part is moved on to a later mark. -/
def Slides (mark : α) (a x b y : List α) : Prop :=
  ∃ between, b = a ++ mark :: between ∧ x = between ++ mark :: y

/-- Two parts with a mark between them are the same two parts, or a boundary slid. -/
theorem append_cons_eq_iff : a ++ mark :: x = b ++ mark :: y ↔
    (a = b ∧ x = y) ∨ Slides mark a x b y ∨ Slides mark b y a x := by
  constructor
  · intro same
    rcases List.append_eq_append_iff.mp same with ⟨moved, rfl, rest⟩ | ⟨moved, rfl, rest⟩
    · cases moved with
      | nil =>
          rw [List.nil_append, List.cons.injEq] at rest
          exact .inl ⟨(List.append_nil a).symm, rest.2⟩
      | cons first between =>
          rw [List.cons_append, List.cons.injEq] at rest
          obtain ⟨rfl, rest⟩ := rest
          exact .inr (.inl ⟨between, rfl, rest⟩)
    · cases moved with
      | nil =>
          rw [List.nil_append, List.cons.injEq] at rest
          exact .inl ⟨List.append_nil b, rest.2.symm⟩
      | cons first between =>
          rw [List.cons_append, List.cons.injEq] at rest
          obtain ⟨rfl, rest⟩ := rest
          exact .inr (.inr ⟨between, rfl, rest⟩)
  · rintro (⟨rfl, rfl⟩ | ⟨between, rfl, rfl⟩ | ⟨between, rfl, rfl⟩)
    · rfl
    · rw [List.append_assoc, List.cons_append]
    · rw [List.append_assoc, List.cons_append]

theorem Slides.ne (slides : Slides mark a x b y) : a ≠ b := by
  obtain ⟨between, rfl, -⟩ := slides
  intro same
  have size := congrArg List.length same
  rw [List.length_append, List.length_cons] at size
  omega

/-- The parts are known just when no boundary can slide. -/
theorem parts_known_iff : (a ++ mark :: x = b ++ mark :: y → a = b ∧ x = y) ↔
    ¬ Slides mark a x b y ∧ ¬ Slides mark b y a x := by
  rw [append_cons_eq_iff]
  constructor
  · intro known
    exact ⟨fun slides => slides.ne (known (.inr (.inl slides))).1,
      fun slides => slides.ne (known (.inr (.inr slides))).1.symm⟩
  · rintro ⟨ahead, behind⟩ (same | slides | slides)
    · exact same
    · exact absurd slides ahead
    · exact absurd slides behind

end Separators

end Library
