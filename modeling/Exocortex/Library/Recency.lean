import Mathlib.Data.List.Nodup
import Mathlib.Tactic.Common

/-!
# Bounded lists of the most recent values

`recent` lists the values of a history, each once and the latest first. A list of the `cap` most
recent values is kept up by putting a value in front, dropping its earlier occurrence and
cutting the list (`remember`): the values that were cut off before are not needed for it
(`remember_recent`).
-/

namespace Library

variable {α : Type*} [DecidableEq α]

/-- The values of a history whose latest value comes first, each once. -/
def recent : List α → List α
  | [] => []
  | x :: xs => x :: (recent xs).filter (· ≠ x)

theorem nodup_recent (xs : List α) : (recent xs).Nodup := by
  induction xs with
  | nil => exact List.nodup_nil
  | cons x xs ih =>
      refine List.nodup_cons.mpr ⟨fun member => ?_, ih.filter _⟩
      simp at member

/-- An older history has its values behind. -/
theorem recent_isPrefix (xs older : List α) : recent xs <+: recent (xs ++ older) := by
  induction xs with
  | nil => exact List.nil_prefix
  | cons x xs ih =>
      rw [List.cons_append, recent, recent]
      exact (List.prefix_cons_inj x).mpr (ih.filter _)

/-- A value put in front of a list of at most `cap` values. -/
def remember (cap : ℕ) (x : α) (xs : List α) : List α := (x :: xs.filter (· ≠ x)).take cap

variable {xs : List α}

/-- Of a list without duplicates, one value more than `n` leaves `n` others. -/
theorem take_filter_ne {x : α} (distinct : xs.Nodup) (n : ℕ) :
    ((xs.take (n + 1)).filter (· ≠ x)).take n = (xs.filter (· ≠ x)).take n := by
  induction xs generalizing n with
  | nil => rfl
  | cons y xs ih =>
      obtain ⟨absent, distinct⟩ := List.nodup_cons.mp distinct
      rw [List.take_succ_cons]
      by_cases same : y = x
      · subst same
        have all : xs.filter (· ≠ y) = xs := by
          refine List.filter_eq_self.mpr fun z member => ?_
          have other : z ≠ y := fun equal => absent (equal ▸ member)
          simpa using other
        have front : (xs.take n).filter (· ≠ y) = xs.take n := by
          refine List.filter_eq_self.mpr fun z member => ?_
          have other : z ≠ y := fun equal => absent (equal ▸ List.mem_of_mem_take member)
          simpa using other
        simp only [ne_eq, decide_not] at all front
        simp [all, front, List.take_take]
      · cases n with
        | zero => rfl
        | succ n =>
            have rest := ih distinct n
            simp only [ne_eq, decide_not] at rest
            simp [same, rest]

variable {cap : ℕ}

/-- The most recent values are kept up from the most recent values. -/
theorem remember_recent (positive : 0 < cap) (x : α) (xs : List α) :
    remember cap x ((recent xs).take cap) = (recent (x :: xs)).take cap := by
  obtain ⟨n, rfl⟩ : ∃ n, cap = n + 1 := ⟨cap - 1, by omega⟩
  rw [remember, recent, List.take_succ_cons, List.take_succ_cons, take_filter_ne (nodup_recent xs)]

/-- Appending every value that is not there yet while there is room. -/
def appendWithin (cap : ℕ) (out : List α) (x : α) : List α :=
  if cap ≤ out.length then out else if x ∈ out then out else out ++ [x]

theorem foldl_appendWithin (distinct : xs.Nodup) (out : List α) (bounded : out.length ≤ cap) :
    xs.foldl (appendWithin cap) out = (out ++ xs.filter (· ∉ out)).take cap := by
  induction xs generalizing out with
  | nil => simp [List.take_of_length_le bounded]
  | cons x xs ih =>
      obtain ⟨absent, distinct⟩ := List.nodup_cons.mp distinct
      rw [List.foldl_cons]
      by_cases full : cap ≤ out.length
      · have exact_length : out.length = cap := by omega
        rw [appendWithin, if_pos full, ih distinct out bounded, ← exact_length, List.take_left,
          List.take_left]
      · by_cases listed : x ∈ out
        · rw [appendWithin, if_neg full, if_pos listed, ih distinct out bounded]
          simp [listed]
        · have room : (out ++ [x]).length ≤ cap := by
            simp
            omega
          rw [appendWithin, if_neg full, if_neg listed, ih distinct _ room]
          -- The value appended does not come again.
          have same : xs.filter (· ∉ out ++ [x]) = xs.filter (· ∉ out) := by
            refine List.filter_congr fun y member => ?_
            have other : y ≠ x := fun equal => absent (equal ▸ member)
            simp [other]
          rw [same]
          simp [listed]

/-- Filling up a list that holds one value is putting that value in front. -/
theorem foldl_appendWithin_singleton (positive : 0 < cap) (distinct : xs.Nodup) (x : α) :
    xs.foldl (appendWithin cap) [x] = remember cap x xs := by
  have room : [x].length ≤ cap := positive
  rw [foldl_appendWithin distinct [x] room, remember]
  simp

end Library
