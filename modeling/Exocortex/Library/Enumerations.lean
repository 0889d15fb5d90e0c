import Mathlib.Data.List.Dedup
import Mathlib.Data.List.Induction
import Mathlib.Data.List.Sort
import Mathlib.Tactic.Common

/-!
# Sets in any order, and runs of equal keys

A hash set is iterated in an order of its own. A `HashOrder` is such an order: it permutes
whatever list the elements are known as.

A list is thinned by keeping the first element of each run of equal keys, and counted by runs of
equal elements.
-/

namespace Library

/-- An order in which hash sets are iterated. -/
structure HashOrder where
  shuffle : {α : Type} → List α → List α
  perm : ∀ {α : Type} (xs : List α), (shuffle xs).Perm xs

/-- The order in which the elements are known. -/
def HashOrder.asKnown : HashOrder := ⟨id, .refl⟩

@[simp] theorem HashOrder.mem_shuffle {α : Type} (order : HashOrder) {xs : List α} {x : α} :
    x ∈ order.shuffle xs ↔ x ∈ xs := (order.perm xs).mem_iff

variable {α κ : Type} [DecidableEq κ]

/-- The first element of each run of equal keys. -/
def dedupByKey (keyOf : α → κ) : List α → List α
  | [] => []
  | x :: xs =>
      match dedupByKey keyOf xs with
      | [] => [x]
      | y :: kept => if keyOf x = keyOf y then x :: kept else x :: y :: kept

variable {xs : List α}

theorem mem_of_mem_dedupByKey {keyOf : α → κ} {x : α} (kept : x ∈ dedupByKey keyOf xs) :
    x ∈ xs := by
  induction xs with
  | nil => exact kept
  | cons first rest ih =>
      rw [dedupByKey] at kept
      split at kept
      · rw [List.mem_singleton.mp kept]
        exact List.mem_cons_self
      · next y others thinned =>
          rw [thinned] at ih
          split at kept
          · rcases List.mem_cons.mp kept with rfl | later
            · exact List.mem_cons_self
            · exact List.mem_cons_of_mem _ (ih (List.mem_cons_of_mem _ later))
          · rcases List.mem_cons.mp kept with rfl | later
            · exact List.mem_cons_self
            · exact List.mem_cons_of_mem _ (ih later)

/-- The pairs of a list, an earlier element first. -/
def orderedPairs : List α → List (α × α)
  | [] => []
  | x :: rest => rest.map (x, ·) ++ orderedPairs rest

theorem mem_of_mem_orderedPairs {pair : α × α} (listed : pair ∈ orderedPairs xs) :
    pair.1 ∈ xs ∧ pair.2 ∈ xs := by
  induction xs with
  | nil => cases listed
  | cons x rest ih =>
      rcases List.mem_append.mp listed with first | later
      · obtain ⟨y, member, rfl⟩ := List.mem_map.mp first
        exact ⟨List.mem_cons_self, List.mem_cons_of_mem _ member⟩
      · exact ⟨List.mem_cons_of_mem _ (ih later).1, List.mem_cons_of_mem _ (ih later).2⟩

variable [DecidableEq α]

/-- One more element after the counted runs. -/
def countRun (runs : List (α × ℕ)) (x : α) : List (α × ℕ) :=
  match runs.getLast? with
  | some last => if last.1 = x then runs.dropLast ++ [(x, last.2 + 1)] else runs ++ [(x, 1)]
  | none => [(x, 1)]

/-- The runs of equal elements with their lengths. -/
def countRuns (xs : List α) : List (α × ℕ) := xs.foldl countRun []

/-- Every run is of an element of the list. -/
theorem mem_of_mem_countRuns {run : α × ℕ} (counted : run ∈ countRuns xs) : run.1 ∈ xs := by
  induction xs using List.reverseRecOn generalizing run with
  | nil => cases counted
  | append_singleton front x ih =>
      rw [countRuns, List.foldl_concat, countRun] at counted
      rw [List.mem_append, List.mem_singleton]
      split at counted
      · next last _ =>
          split at counted
          · rcases List.mem_append.mp counted with old | new
            · exact .inl (ih (List.dropLast_subset _ old))
            · rw [List.mem_singleton.mp new]
              exact .inr rfl
          · rcases List.mem_append.mp counted with old | new
            · exact .inl (ih old)
            · rw [List.mem_singleton.mp new]
              exact .inr rfl
      · rw [List.mem_singleton.mp counted]
        exact .inr rfl

end Library
