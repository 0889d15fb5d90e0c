import Mathlib.Data.List.DropRight

/-!
# Words

The words of a list are its parts between blanks that have an element (`words`). Blanks at its ends
do not matter (`words_trimmed`), and there is a word unless there are blanks only
(`words_eq_nil_iff`).
-/

namespace Library

universe u

variable {α : Type u} {blank : α → Bool}

/-- The parts between blanks that have an element. -/
def words (blank : α → Bool) (xs : List α) : List (List α) :=
  (xs.splitOnP blank).filter fun word => !word.isEmpty

/-- A list without the elements of a kind at its ends. -/
def trimmed (blank : α → Bool) (xs : List α) : List α := (xs.dropWhile blank).rdropWhile blank

variable {x : α}

theorem words_cons_of_blank (isBlank : blank x = true) (xs : List α) :
    words blank (x :: xs) = words blank xs := by
  rw [words, List.splitOnP_cons_eq_if_modifyHead, if_pos isBlank]
  exact List.filter_cons_of_neg (by simp)

theorem words_concat_of_blank (isBlank : blank x = true) (xs : List α) :
    words blank (xs ++ [x]) = words blank xs := by
  rw [words, List.splitOnP_append_cons xs [] isBlank, List.filter_append]
  exact List.append_nil _

/-- The words of what is left after the blanks at the start. -/
theorem words_dropWhile (xs : List α) : words blank (xs.dropWhile blank) = words blank xs := by
  induction xs with
  | nil => rfl
  | cons x xs ih =>
      rw [List.dropWhile_cons]
      split
      · next isBlank => rw [ih, words_cons_of_blank isBlank]
      · rfl

theorem words_rdropWhile (xs : List α) : words blank (xs.rdropWhile blank) = words blank xs := by
  induction xs using List.reverseRecOn with
  | nil => rfl
  | append_singleton xs x ih =>
      by_cases isBlank : blank x = true
      · rw [List.rdropWhile_concat_pos _ _ _ isBlank, ih, words_concat_of_blank isBlank]
      · rw [List.rdropWhile_concat_neg _ _ _ isBlank]

/-- Blanks at the ends do not matter. -/
theorem words_trimmed (xs : List α) : words blank (trimmed blank xs) = words blank xs := by
  rw [trimmed, words_rdropWhile, words_dropWhile]

variable {xs : List α}

theorem words_eq_nil_iff : words blank xs = [] ↔ ∀ x ∈ xs, blank x = true := by
  induction xs with
  | nil => exact iff_of_true rfl nofun
  | cons x xs ih =>
      rw [List.forall_mem_cons]
      by_cases isBlank : blank x = true
      · rw [words_cons_of_blank isBlank, ih]
        exact (and_iff_right isBlank).symm
      · refine iff_of_false ?_ fun all => isBlank all.1
        obtain ⟨word, others, parts⟩ := List.exists_cons_of_ne_nil (List.splitOnP_ne_nil blank xs)
        rw [words, List.splitOnP_cons_eq_if_modifyHead, if_neg isBlank, parts]
        exact List.cons_ne_nil _ _

theorem trimmed_eq_nil (none_ : words blank xs = []) : trimmed blank xs = [] := by
  rw [trimmed, List.dropWhile_eq_nil_iff.mpr (words_eq_nil_iff.mp none_)]
  rfl

theorem mem_of_mem_trimmed (listed : x ∈ trimmed blank xs) : x ∈ xs :=
  (List.dropWhile_sublist _).subset ((List.rdropWhile_prefix _ _).subset listed)

/-- What is in a list that was joined is in a part or between the parts. -/
theorem mem_of_mem_intercalate {separator : List α} {parts : List (List α)}
    (listed : x ∈ separator.intercalate parts) : x ∈ separator ∨ ∃ part ∈ parts, x ∈ part := by
  induction parts with
  | nil => exact absurd listed List.not_mem_nil
  | cons part parts ih =>
      cases parts with
      | nil =>
          rw [List.intercalate_singleton] at listed
          exact .inr ⟨part, List.mem_cons_self, listed⟩
      | cons next parts =>
          rw [List.intercalate_cons_cons, List.append_assoc, List.mem_append,
            List.mem_append] at listed
          rcases listed with here | between | later
          · exact .inr ⟨part, List.mem_cons_self, here⟩
          · exact .inl between
          · obtain between | ⟨other, among, inside⟩ := ih later
            · exact .inl between
            · exact .inr ⟨other, List.mem_cons_of_mem _ among, inside⟩

end Library
