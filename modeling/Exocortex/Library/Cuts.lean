import Mathlib

/-!
# Cutting a list at an offset

The elements of a list take up room, each at least one place, and an offset counts places. A list
can be cut at an offset only between two of its elements (`cutAt`), and the piece between two
offsets is there when both are such places (`pieceAt`). What stands before a place does not matter
to the pieces behind it (`pieceAt_append`).
-/

namespace Library

variable {α : Type*} (room : α → ℕ)

/-- The room that a list takes up. -/
def roomOf (xs : List α) : ℕ := (xs.map room).sum

/-- Cut a list at an offset, unless it is inside an element or behind the list. -/
def cutAt : List α → ℕ → Option (List α × List α)
  | xs, 0 => some ([], xs)
  | [], _ + 1 => none
  | x :: xs, offset + 1 =>
      if room x ≤ offset + 1 then
        (cutAt xs (offset + 1 - room x)).map fun (front, back) => (x :: front, back)
      else none

/-- The piece of a list between two offsets. -/
def pieceAt (xs : List α) (start stop : ℕ) : Option (List α) := do
  if stop < start then none
  let (_, rest) ← cutAt room xs start
  let (piece, _) ← cutAt room rest (stop - start)
  some piece

variable {room}

@[simp] theorem roomOf_nil : roomOf room [] = 0 := rfl

@[simp] theorem roomOf_cons (x : α) (xs : List α) :
    roomOf room (x :: xs) = room x + roomOf room xs := by
  rw [roomOf, List.map_cons, List.sum_cons, roomOf]

@[simp] theorem roomOf_append (front back : List α) :
    roomOf room (front ++ back) = roomOf room front + roomOf room back := by
  rw [roomOf, List.map_append, List.sum_append, roomOf, roomOf]

@[simp] theorem cutAt_zero (xs : List α) : cutAt room xs 0 = some ([], xs) := by
  cases xs <;> rfl

/-- **A cut parts a list in two, the first of which takes up the room.** -/
theorem cutAt_eq_some_iff (positive : ∀ x, 0 < room x) {xs front back : List α} {offset : ℕ} :
    cutAt room xs offset = some (front, back) ↔
      xs = front ++ back ∧ roomOf room front = offset := by
  induction xs generalizing offset front with
  | nil =>
      cases offset with
      | zero =>
          constructor
          · intro cut
            cases cut
            exact ⟨rfl, rfl⟩
          · rintro ⟨parts, -⟩
            obtain ⟨rfl, rfl⟩ := List.append_eq_nil_iff.mp parts.symm
            rfl
      | succ offset =>
          constructor
          · intro cut
            cases cut
          · rintro ⟨parts, taken⟩
            obtain ⟨rfl, rfl⟩ := List.append_eq_nil_iff.mp parts.symm
            cases taken
  | cons x xs ih =>
      cases offset with
      | zero =>
          rw [cutAt_zero, Option.some.injEq, Prod.mk.injEq]
          constructor
          · rintro ⟨rfl, rfl⟩
            exact ⟨rfl, rfl⟩
          · rintro ⟨parts, taken⟩
            cases front with
            | nil => exact ⟨rfl, parts⟩
            | cons y front =>
                rw [roomOf_cons] at taken
                have some_ := positive y
                omega
      | succ offset =>
          rw [cutAt]
          constructor
          · intro cut
            split at cut
            · next fits =>
                obtain ⟨⟨before, after⟩, inner, same⟩ := Option.map_eq_some_iff.mp cut
                cases same
                obtain ⟨rfl, taken⟩ := ih.mp inner
                refine ⟨rfl, ?_⟩
                rw [roomOf_cons, taken]
                omega
            · cases cut
          · rintro ⟨parts, taken⟩
            cases front with
            | nil => cases taken
            | cons y front =>
                rw [List.cons_append, List.cons.injEq] at parts
                obtain ⟨rfl, rfl⟩ := parts
                rw [roomOf_cons] at taken
                rw [if_pos (by omega), ih.mpr ⟨rfl, by omega⟩]
                rfl

/-- What stands before a place does not matter to the pieces behind it. -/
theorem pieceAt_append (positive : ∀ x, 0 < room x) (front xs : List α) (start stop : ℕ) :
    pieceAt room (front ++ xs) (roomOf room front + start) (roomOf room front + stop) =
      pieceAt room xs start stop := by
  have moved : cutAt room (front ++ xs) (roomOf room front + start) =
      (cutAt room xs start).map fun (before, after) => (front ++ before, after) := by
    ext ⟨before, after⟩
    rw [cutAt_eq_some_iff positive, Option.map_eq_some_iff]
    constructor
    · rintro ⟨parts, taken⟩
      obtain ⟨inner, rfl, rfl⟩ | ⟨inner, rfl, rfl⟩ := List.append_eq_append_iff.mp parts
      · rw [roomOf_append] at taken
        exact ⟨(inner, after), (cutAt_eq_some_iff positive).mpr ⟨rfl, by omega⟩, rfl⟩
      · rw [roomOf_append] at taken
        have none_ : roomOf room inner = 0 ∧ start = 0 := by omega
        cases inner with
        | nil =>
            obtain ⟨-, rfl⟩ := none_
            exact ⟨([], xs), cutAt_zero _, by simp⟩
        | cons x inner =>
            rw [roomOf_cons] at none_
            have some_ := positive x
            omega
    · rintro ⟨⟨inner, rest⟩, cut, same⟩
      cases same
      obtain ⟨rfl, rfl⟩ := (cutAt_eq_some_iff positive).mp cut
      exact ⟨by rw [List.append_assoc], roomOf_append _ _⟩
  rw [pieceAt, pieceAt, moved]
  by_cases reversed : stop < start
  · rw [if_pos reversed, if_pos (by omega)]
    rfl
  · rw [if_neg reversed, if_neg (by omega), Nat.add_sub_add_left]
    cases cutAt room xs start with
    | none => rfl
    | some parts => rfl

theorem pieceAt_zero (xs : List α) (stop : ℕ) :
    pieceAt room xs 0 stop = (cutAt room xs stop).map Prod.fst := by
  rw [pieceAt, if_neg (Nat.not_lt_zero _), cutAt_zero]
  cases cut : cutAt room xs stop with
  | none => simp [cut]
  | some parts => simp [cut]

end Library
