import Exocortex.Library.Framing

/-!
# Joined parts

Parts that are joined with a mark between them are known from the whole if no part contains the
mark. Parts that have an element and whose number is known are known in more cases: the mark may
stand at the start of the first part, at the end of the last one, and it may be all there is of a
part between (`Solid`). In every other case there are other parts with the same whole
(`Ambiguous`).
-/

namespace Library

variable {α : Type*} {mark : α}

/-- Parts with a mark between them. -/
def joined (mark : α) (parts : List (List α)) : List α := List.intercalate [mark] parts

variable {later parts others : List (List α)} {part before after first : List α}

theorem joined_cons (more : later ≠ []) :
    joined mark (part :: later) = part ++ mark :: joined mark later := by
  obtain ⟨next, others, rfl⟩ := List.exists_cons_of_ne_nil more
  rw [joined, List.intercalate_cons_cons, List.append_assoc]
  rfl

theorem joined_singleton (part : List α) : joined mark [part] = part := List.intercalate_singleton

/-- Each part has an element. -/
def Filled (parts : List (List α)) : Prop := ∀ part ∈ parts, part ≠ []

theorem filled_cons : Filled (part :: later) ↔ part ≠ [] ∧ Filled later := List.forall_mem_cons

theorem joined_ne_nil (filled : Filled parts) (some_ : parts ≠ []) : joined mark parts ≠ [] := by
  obtain ⟨part, later, rfl⟩ := List.exists_cons_of_ne_nil some_
  cases later with
  | nil =>
      rw [joined_singleton]
      exact filled part List.mem_cons_self
  | cons next later =>
      rw [joined_cons (List.cons_ne_nil _ _)]
      exact List.append_ne_nil_of_right_ne_nil _ (List.cons_ne_nil _ _)

/-! ## Solid parts -/

/-- No boundary of the parts behind another one can be moved. -/
def SolidLater (mark : α) : List (List α) → Prop
  | [] => True
  | [last] => mark ∉ last.dropLast
  | part :: next :: later => (mark ∉ part ∨ part = [mark]) ∧ SolidLater mark (next :: later)

/-- No boundary can be moved: the mark stands in the parts only where a part would be empty
otherwise. -/
def Solid (mark : α) : List (List α) → Prop
  | [] => True
  | [_] => True
  | first :: next :: later => mark ∉ first.tail ∧ SolidLater mark (next :: later)

/-- Other parts of the same number with the same whole. -/
def Ambiguous (mark : α) (parts : List (List α)) : Prop :=
  ∃ others : List (List α), others.length = parts.length ∧ Filled others ∧ others ≠ parts ∧
    joined mark others = joined mark parts

/-! ## Parts that are not solid -/

/-- A boundary is moved back over a mark in a part. -/
theorem ambiguous_back {next : List α} (some_ : before ≠ []) (filled : Filled (next :: later)) :
    Ambiguous mark ((before ++ mark :: after) :: next :: later) := by
  obtain ⟨-, others⟩ := filled_cons.mp filled
  refine ⟨before :: (after ++ mark :: next) :: later, rfl, ?_, ?_, ?_⟩
  · refine filled_cons.mpr ⟨some_, filled_cons.mpr ⟨?_, others⟩⟩
    exact List.append_ne_nil_of_right_ne_nil _ (List.cons_ne_nil _ _)
  · exact fun same => absurd (List.cons.inj same).1 (by simp)
  · cases later with
    | nil => simp [joined]
    | cons third later => simp [joined]

/-- A boundary is moved on over a mark in the part behind it. -/
theorem ambiguous_on (some_ : after ≠ []) (filled : Filled later) :
    Ambiguous mark (first :: (before ++ mark :: after) :: later) := by
  refine ⟨(first ++ mark :: before) :: after :: later, rfl, ?_, ?_, ?_⟩
  · refine filled_cons.mpr ⟨?_, filled_cons.mpr ⟨some_, filled⟩⟩
    exact List.append_ne_nil_of_right_ne_nil _ (List.cons_ne_nil _ _)
  · exact fun same => absurd (List.cons.inj same).1 (by simp)
  · cases later with
    | nil => simp [joined]
    | cons third later => simp [joined]

theorem Ambiguous.cons (some_ : first ≠ []) (more : parts ≠ []) (ambiguous : Ambiguous mark parts) :
    Ambiguous mark (first :: parts) := by
  obtain ⟨others, length, filled, different, same⟩ := ambiguous
  have more' : others ≠ [] := by
    rintro rfl
    exact more (List.length_eq_zero_iff.mp length.symm)
  refine ⟨first :: others, congrArg Nat.succ length, filled_cons.mpr ⟨some_, filled⟩, ?_, ?_⟩
  · exact fun equal => different (List.cons.inj equal).2
  · rw [joined_cons more, joined_cons more', same]

/-- Parts behind another one of which a boundary can be moved. -/
theorem ambiguous_of_not_solidLater (filled : Filled (first :: parts))
    (loose : ¬ SolidLater mark parts) : Ambiguous mark (first :: parts) := by
  induction parts generalizing first with
  | nil => exact absurd trivial loose
  | cons part later ih =>
      obtain ⟨some_, filled⟩ := filled_cons.mp filled
      cases later with
      | nil =>
          rw [SolidLater, not_not] at loose
          obtain ⟨before, after, parts⟩ := List.append_of_mem loose
          have whole : part = before ++ mark :: (after ++
            [part.getLast (filled part (by simp))]) := by
            rw [← List.cons_append, ← List.append_assoc, ← parts, List.dropLast_append_getLast]
          rw [whole]
          exact ambiguous_on (List.append_ne_nil_of_right_ne_nil _ (List.cons_ne_nil _ _)) nofun
      | cons next later =>
          obtain ⟨own, filled'⟩ := filled_cons.mp filled
          rw [SolidLater, not_and_or, not_or, not_not] at loose
          rcases loose with ⟨marked, more⟩ | loose
          · obtain ⟨before, after, rfl⟩ := List.append_of_mem marked
            by_cases behind : after = []
            · subst behind
              have some' : before ≠ [] := by
                rintro rfl
                exact more rfl
              exact (ambiguous_back some' filled').cons some_ (List.cons_ne_nil _ _)
            · exact ambiguous_on behind filled'
          · exact (ih filled loose).cons some_ (List.cons_ne_nil _ _)

theorem ambiguous_of_not_solid (filled : Filled parts) (loose : ¬ Solid mark parts) :
    Ambiguous mark parts := by
  match parts with
  | [] => exact absurd trivial loose
  | [_] => exact absurd trivial loose
  | first :: next :: later =>
      rw [Solid, not_and_or, not_not] at loose
      rcases loose with marked | loose
      · obtain ⟨head, tail, rfl⟩ := List.exists_cons_of_ne_nil (filled first List.mem_cons_self)
        obtain ⟨before, after, parts⟩ := List.append_of_mem marked
        rw [List.tail_cons] at parts
        rw [parts, ← List.cons_append]
        exact ambiguous_back (List.cons_ne_nil _ _) (filled_cons.mp filled).2
      · exact ambiguous_of_not_solidLater filled loose

/-! ## Solid parts are known -/

theorem mem_dropLast_of_append (some_ : after ≠ []) :
    mark ∈ (before ++ mark :: after).dropLast := by
  rw [List.dropLast_append_of_ne_nil (List.cons_ne_nil _ _), List.dropLast_cons_of_ne_nil some_]
  exact List.mem_append_right _ List.mem_cons_self

/-- What a whole says of its parts: no other parts are more, as many are the same, and a mark more
or less at the start makes no part more. -/
structure Fixed (mark : α) (parts : List (List α)) : Prop where
  most : ∀ others, Filled others → joined mark others = joined mark parts →
    others.length ≤ parts.length ∧ (others.length = parts.length → others = parts)
  longer : ∀ others, Filled others → joined mark others = mark :: joined mark parts →
    others.length ≤ parts.length
  shorter : ∀ others, Filled others → mark :: joined mark others = joined mark parts →
    others.length < parts.length

/-- What is behind a mark in the whole has fewer parts. -/
theorem Fixed.fewer {between : List α} (fixed : Fixed mark parts) (filled : Filled others)
    (some_ : others ≠ []) (same : joined mark parts = between ++ mark :: joined mark others) :
    others.length < parts.length := by
  by_cases start : between = []
  · subst start
    exact fixed.shorter others filled same.symm
  · rw [← joined_cons some_] at same
    exact (fixed.most (between :: others) (filled_cons.mpr ⟨start, filled⟩) same.symm).1

theorem fixed_singleton {last : List α} (solid : mark ∉ last.dropLast) : Fixed mark [last] where
  most := by
    intro others filled' same
    match others, filled' with
    | [], _ => exact ⟨Nat.zero_le _, nofun⟩
    | [other], _ =>
        rw [joined_singleton, joined_singleton] at same
        exact ⟨Nat.le_refl _, fun _ => by rw [same]⟩
    | other :: next :: later, filled' =>
        rw [joined_singleton, joined_cons (List.cons_ne_nil _ _)] at same
        rw [← same] at solid
        exact absurd (mem_dropLast_of_append (joined_ne_nil (filled_cons.mp filled').2
          (List.cons_ne_nil _ _))) solid
  longer := by
    intro others filled' same
    match others, filled' with
    | [], _ => exact Nat.zero_le _
    | [_], _ => exact Nat.le_refl _
    | other :: next :: later, filled' =>
        obtain ⟨some_, others⟩ := filled_cons.mp filled'
        obtain ⟨head, tail, rfl⟩ := List.exists_cons_of_ne_nil some_
        rw [joined_singleton, joined_cons (List.cons_ne_nil _ _), List.cons_append] at same
        rw [← (List.cons.inj same).2] at solid
        exact absurd (mem_dropLast_of_append (joined_ne_nil others (List.cons_ne_nil _ _))) solid
  shorter := by
    intro others filled' same
    by_cases none_ : others = []
    · subst none_
      exact Nat.zero_lt_one
    · rw [joined_singleton] at same
      rw [← same] at solid
      exact absurd (@mem_dropLast_of_append _ mark [] _ (joined_ne_nil filled' none_)) solid

/-- A part that is the mark or without one keeps what is behind it. -/
theorem Fixed.cons (some_ : part ≠ []) (solid : mark ∉ part ∨ part = [mark]) (more : later ≠ [])
    (fixed : Fixed mark later) : Fixed mark (part :: later) where
  most := by
    intro others filled same
    match others, filled with
    | [], _ => exact ⟨Nat.zero_le _, nofun⟩
    | [_], _ =>
        refine ⟨Nat.le_add_left _ _, fun one => ?_⟩
        exact absurd (List.length_eq_zero_iff.mp (Nat.succ.inj one).symm) more
    | other :: next :: others, filled =>
        obtain ⟨own, filled⟩ := filled_cons.mp filled
        rw [joined_cons more, joined_cons (List.cons_ne_nil _ _)] at same
        rcases append_cons_eq_iff.mp same with ⟨rfl, rest⟩ | ⟨between, parts, -⟩ |
          ⟨between, -, rest⟩
        · obtain ⟨few, equal⟩ := fixed.most _ filled rest
          exact ⟨Nat.succ_le_succ few, fun length => congrArg _ (equal (Nat.succ.inj length))⟩
        · rcases solid with without | single
          · rw [parts] at without
            exact absurd (List.mem_append_right _ List.mem_cons_self) without
          · rw [single] at parts
            have length := congrArg List.length parts
            have positive := List.length_pos_of_ne_nil own
            simp only [List.length_append, List.length_cons, List.length_nil] at length
            omega
        · have fewer := fixed.fewer filled (List.cons_ne_nil _ _) rest
          exact ⟨Nat.succ_le_succ fewer.le, fun length => absurd (Nat.succ.inj length) fewer.ne⟩
  longer := by
    intro others filled same
    match others, filled with
    | [], _ => exact Nat.zero_le _
    | [_], _ => exact Nat.le_add_left _ _
    | other :: next :: others, filled =>
        obtain ⟨own, behind⟩ := filled_cons.mp filled
        rw [joined_cons more, joined_cons (List.cons_ne_nil _ _), ← List.cons_append] at same
        rcases append_cons_eq_iff.mp same with ⟨-, rest⟩ | ⟨between, parts, rest⟩ |
          ⟨between, -, rest⟩
        · exact Nat.succ_le_succ (fixed.most _ behind rest).1
        · obtain ⟨head, tail, rfl⟩ := List.exists_cons_of_ne_nil own
          rw [List.cons_append] at parts
          obtain ⟨-, inner⟩ := List.cons.inj parts
          rcases solid with without | single
          · rw [inner] at without
            exact absurd (List.mem_append_right _ List.mem_cons_self) without
          · rw [single] at inner
            have length := congrArg List.length inner
            simp only [List.length_append, List.length_cons, List.length_nil] at length
            obtain rfl : between = [] := List.length_eq_zero_iff.mp (by omega)
            exact Nat.succ_le_succ (fixed.longer _ behind rest)
        · exact Nat.succ_le_succ (fixed.fewer behind (List.cons_ne_nil _ _) rest).le
  shorter := by
    intro others filled same
    rw [joined_cons more] at same
    obtain ⟨head, tail, rfl⟩ := List.exists_cons_of_ne_nil some_
    rw [List.cons_append] at same
    obtain ⟨first, rest⟩ := List.cons.inj same
    rcases solid with without | single
    · exact absurd (first ▸ List.mem_cons_self) without
    · rw [(List.cons.inj single).2] at rest
      exact Nat.lt_succ_of_le (fixed.longer others filled rest)

theorem SolidLater.fixed (filled : Filled parts) (some_ : parts ≠ [])
    (solid : SolidLater mark parts) : Fixed mark parts := by
  induction parts with
  | nil => exact absurd rfl some_
  | cons part later ih =>
      obtain ⟨own, filled⟩ := filled_cons.mp filled
      cases later with
      | nil => exact fixed_singleton solid
      | cons next later =>
          exact (ih filled (List.cons_ne_nil _ _) solid.2).cons own solid.1 (List.cons_ne_nil _ _)

/-- **Solid parts are known from their whole and their number.** -/
theorem Solid.eq (filled : Filled parts) (solid : Solid mark parts) (filled' : Filled others)
    (length : others.length = parts.length) (same : joined mark others = joined mark parts) :
    others = parts := by
  match parts, others, length with
  | [], [], _ => rfl
  | [part], [other], _ =>
      rw [joined_singleton, joined_singleton] at same
      rw [same]
  | first :: next :: later, other :: next' :: others, length =>
      have fixed := SolidLater.fixed (filled_cons.mp filled).2 (List.cons_ne_nil _ _) solid.2
      obtain ⟨own, filled'⟩ := filled_cons.mp filled'
      rw [joined_cons (List.cons_ne_nil _ _), joined_cons (List.cons_ne_nil _ _)] at same
      rcases append_cons_eq_iff.mp same with ⟨rfl, rest⟩ | ⟨between, parts, -⟩ | ⟨between, -, rest⟩
      · rw [(fixed.most _ filled' rest).2 (Nat.succ.inj length)]
      · obtain ⟨head, tail, rfl⟩ := List.exists_cons_of_ne_nil own
        have inside := solid.1
        rw [parts, List.cons_append, List.tail_cons] at inside
        exact absurd (List.mem_append_right _ List.mem_cons_self) inside
      · exact absurd (Nat.succ.inj length) (fixed.fewer filled' (List.cons_ne_nil _ _) rest).ne

end Library
