import Mathlib.Data.List.Destutter

/-!
# The latest elements of a sequence

A bounded history takes in the elements of a sequence one by one, except those that repeat its
latest element, and drops the oldest one where it has no more room. It holds the last elements of
the sequence without its immediate repetitions (`foldl_takeIn`). An element is superseded when
the history has it, and has another one as its latest.
-/

namespace Library

variable {α : Type*} [DecidableEq α]

/-- Take in an element. -/
def takeIn (room : ℕ) (history : List α) (x : α) : List α :=
  if history.getLast? = some x then history
  else if room < (history ++ [x]).length then (history ++ [x]).tail else history ++ [x]

/-- The last elements of a sequence without its immediate repetitions. -/
def newest (room : ℕ) (xs : List α) : List α :=
  (xs.destutter (· ≠ ·)).drop ((xs.destutter (· ≠ ·)).length - room)

/-- The history has the element, and another one as its latest. -/
def Superseded (history : List α) (x : α) : Prop := x ∈ history ∧ history.getLast? ≠ some x

instance (history : List α) (x : α) : Decidable (Superseded history x) :=
  inferInstanceAs (Decidable (_ ∧ _))

/-! ## Immediate repetitions -/

theorem destutter'_concat (a : α) (xs : List α) (x : α) :
    (xs ++ [x]).destutter' (· ≠ ·) a = xs.destutter' (· ≠ ·) a ++
      if (a :: xs).getLast? = some x then [] else [x] := by
  induction xs generalizing a with
  | nil =>
      rw [List.nil_append, List.destutter'_singleton, List.destutter'_nil, List.getLast?_singleton]
      by_cases same : a = x
      · rw [if_neg (not_not.mpr same), if_pos (congrArg some same)]
        rfl
      · rw [if_pos same, if_neg fun eq => same (Option.some.inj eq)]
        rfl
  | cons b xs ih =>
      rw [List.cons_append, List.getLast?_cons_cons]
      by_cases same : a = b
      · rw [List.destutter'_cons_neg _ (not_not.mpr same), List.destutter'_cons_neg _
          (not_not.mpr same), ih, same]
      · rw [List.destutter'_cons_pos _ same, List.destutter'_cons_pos _ same, ih, List.cons_append]

theorem destutter_concat (xs : List α) (x : α) : (xs ++ [x]).destutter (· ≠ ·) =
    xs.destutter (· ≠ ·) ++ if xs.getLast? = some x then [] else [x] := by
  cases xs with
  | nil => rfl
  | cons a xs => exact destutter'_concat a xs x

theorem getLast?_destutter (xs : List α) : (xs.destutter (· ≠ ·)).getLast? = xs.getLast? := by
  induction xs using List.reverseRecOn with
  | nil => rfl
  | append_singleton xs x ih =>
      rw [destutter_concat, List.getLast?_concat]
      split
      · next last => rw [List.append_nil, ih, last]
      · exact List.getLast?_concat

/-! ## The history -/

theorem getLast?_newest {room : ℕ} (some_ : 0 < room) (xs : List α) :
    (newest room xs).getLast? = xs.getLast? := by
  rw [← getLast?_destutter xs, newest]
  generalize xs.destutter (· ≠ ·) = runs
  cases runs with
  | nil => rw [List.drop_nil]
  | cons a runs =>
      rw [List.getLast?_drop, if_neg]
      rw [List.length_cons]
      omega

/-- **The history is the last elements of the sequence, without its immediate repetitions.** -/
theorem foldl_takeIn {room : ℕ} (some_ : 0 < room) (xs : List α) :
    xs.foldl (takeIn room) [] = newest room xs := by
  induction xs using List.reverseRecOn with
  | nil => exact List.drop_nil.symm
  | append_singleton xs x ih =>
      rw [List.foldl_append, List.foldl_cons, List.foldl_nil, ih, takeIn, getLast?_newest some_,
        newest, newest, destutter_concat]
      split
      · rw [List.append_nil]
      · generalize xs.destutter (· ≠ ·) = runs
        rw [List.length_append, List.length_drop, List.length_append, List.length_singleton]
        split
        · have kept : runs.length + 1 - room = runs.length - room + 1 := by omega
          rw [List.tail_append_of_ne_nil, List.tail_drop, kept,
            List.drop_append_of_le_length (by omega)]
          intro none_
          have length := congrArg List.length none_
          rw [List.length_drop, List.length_nil] at length
          omega
        · have all : runs.length - room = 0 := by omega
          have all' : runs.length + 1 - room = 0 := by omega
          rw [all, all', List.drop_zero, List.drop_zero]

end Library
