import Exocortex.Library.Sums

/-!
# Counting into a table

A tally goes through a list and counts each element under its key, if it has one, from a first
value on. Under a key stands what as many steps make of the first value as the list has elements
with the key (`getD_tally`), and the table gains the keys of the elements (`mem_tally_iff`). What
is counted sums up to the number of elements that have keys (`total_tally`).
-/

namespace Library

variable {α K V : Type*} [DecidableEq K]

/-- The table with one more under a key, if there is one. -/
def countAt (more : V → V) (first : V) (t : Table K V) : Option K → Table K V
  | none => t
  | some key => t.insert key (more ((t.lookup key).getD first))

/-- The table with every element of a list counted. -/
def tally (keyOf : α → Option K) (more : V → V) (first : V) (t : Table K V) (xs : List α) :
    Table K V :=
  xs.foldl (fun t x => countAt more first t (keyOf x)) t

variable {keyOf : α → Option K} {more : V → V} {first : V}

theorem getD_countAt (t : Table K V) (counted : Option K) (key : K) :
    ((countAt more first t counted).lookup key).getD first =
      if counted = some key then more ((t.lookup key).getD first)
      else (t.lookup key).getD first := by
  cases counted with
  | none => rfl
  | some other =>
      rw [countAt, Table.lookup_insert_eq]
      by_cases same : key = other
      · rw [if_pos same, if_pos (congrArg some same.symm), same]
        rfl
      · rw [if_neg same, if_neg fun equal => same (Option.some.inj equal).symm]

/-- **What stands under a key** after counting. -/
theorem getD_tally (t : Table K V) (xs : List α) (key : K) :
    ((tally keyOf more first t xs).lookup key).getD first =
      more^[xs.countP (keyOf · = some key)] ((t.lookup key).getD first) := by
  induction xs generalizing t with
  | nil => rfl
  | cons x xs ih =>
      have rest := ih (countAt more first t (keyOf x))
      rw [getD_countAt] at rest
      rw [tally, List.foldl_cons]
      refine rest.trans ?_
      by_cases same : keyOf x = some key
      · rw [if_pos same, List.countP_cons, if_pos (decide_eq_true same),
          Function.iterate_succ_apply]
      · rw [if_neg same, List.countP_cons, if_neg (fun counted => same (of_decide_eq_true counted))]
        rfl

theorem mem_countAt_iff (t : Table K V) (counted : Option K) (key : K) :
    key ∈ countAt more first t counted ↔ counted = some key ∨ key ∈ t := by
  cases counted with
  | none => exact ⟨.inr, fun held => held.resolve_left fun same => by cases same⟩
  | some other => rw [countAt, AList.mem_insert, Option.some.injEq, eq_comm]

/-- The keys after counting are those before and those of the elements. -/
theorem mem_tally_iff (t : Table K V) (xs : List α) (key : K) :
    key ∈ tally keyOf more first t xs ↔ (∃ x ∈ xs, keyOf x = some key) ∨ key ∈ t := by
  induction xs generalizing t with
  | nil => exact ⟨.inr, fun held => held.resolve_left fun ⟨x, listed, _⟩ => by cases listed⟩
  | cons x xs ih =>
      rw [tally, List.foldl_cons]
      refine (ih _).trans ?_
      rw [mem_countAt_iff, List.exists_mem_cons_iff, or_left_comm, ← or_assoc]

/-- Counting adds as much to a sum over the table as every step does. -/
theorem total_tally (weight : V → ℕ) (each : ℕ) (none_ : weight first = 0)
    (adds : ∀ value, weight (more value) = weight value + each) (t : Table K V) (xs : List α) :
    Table.total weight (tally keyOf more first t xs) =
      Table.total weight t + each * xs.countP fun x => (keyOf x).isSome := by
  induction xs generalizing t with
  | nil => rfl
  | cons x xs ih =>
      rw [tally, List.foldl_cons]
      refine (ih _).trans ?_
      cases counted : keyOf x with
      | none =>
          rw [List.countP_cons, counted]
          rfl
      | some key =>
          have grows : Table.total weight (t.insert key (more ((t.lookup key).getD first))) =
              Table.total weight t + each := by
            cases found : t.lookup key with
            | none =>
                rw [Table.total_insert_new weight found, Option.getD_none, adds,
                  none_, Nat.zero_add]
            | some value =>
                have inserted := Table.total_insert weight found (more value)
                rw [adds] at inserted
                rw [Option.getD_some]
                omega
          rw [countAt, grows, List.countP_cons, counted, if_pos Option.isSome_some, Nat.mul_add,
            Nat.mul_one]
          omega

end Library
