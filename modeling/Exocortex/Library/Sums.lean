import Exocortex.Library.StableGraph
import Mathlib.Algebra.Order.BigOperators.Group.List

/-!
# Sums over lists and tables

Sums of natural numbers over the elements of a list, compared element by element and list by list,
and over the values of a table, as its entries come and go.
-/

namespace Library

variable {α : Type*} {f g : α → ℕ} {xs ys : List α}

/-- Where no element has more, the sums agree only if all elements do. -/
theorem sum_map_eq_iff_of_le (below : ∀ x ∈ xs, f x ≤ g x) :
    (xs.map f).sum = (xs.map g).sum ↔ ∀ x ∈ xs, f x = g x := by
  induction xs with
  | nil => simp
  | cons x xs ih =>
      obtain ⟨first, later⟩ := List.forall_mem_cons.mp below
      have rest := List.sum_le_sum later
      rw [List.forall_mem_cons, ← ih later, List.map_cons, List.map_cons, List.sum_cons,
        List.sum_cons]
      omega

/-! ## Tables -/

namespace Table

variable {K V : Type*} [DecidableEq K] {t : Table K V} (weight : V → ℕ) {key : K} {value old : V}

/-- The sum over the values of a table. -/
def total (weight : V → ℕ) (t : Table K V) : ℕ := (t.values.map weight).sum

omit [DecidableEq K] in
@[simp] theorem total_empty : total weight (∅ : Table K V) = 0 := rfl

theorem total_erase (found : t.lookup key = some old) :
    total weight (t.erase key) + weight old = total weight t := by
  have present : key ∈ t.entries.keys := AList.lookup_isSome.mp (Option.isSome_of_eq_some found)
  obtain ⟨other, before, after, _, entries, erased⟩ := List.exists_of_kerase present
  have same : other = old := by
    have listed : (⟨key, other⟩ : Sigma fun _ : K => V) ∈ t.entries := by
      rw [entries]
      simp
    exact Option.some_injective _ ((AList.mem_lookup_iff.mpr listed).symm.trans found)
  have left : (t.erase key).entries = before ++ after := erased
  rw [total, total, values, values, left, entries, same]
  simp only [List.map_append, List.map_cons, List.sum_append, List.sum_cons]
  omega

theorem total_insert_new (absent : t.lookup key = none) (value : V) :
    total weight (t.insert key value) = total weight t + weight value := by
  rw [total, total, values, values,
    AList.entries_insert_of_notMem (AList.lookup_eq_none.mp absent), List.map_cons, List.map_cons,
    List.sum_cons, Nat.add_comm]

theorem total_insert (found : t.lookup key = some old) (value : V) :
    total weight (t.insert key value) + weight old = total weight t + weight value := by
  have erased : total weight (t.erase key) + weight old = total weight t := total_erase weight found
  have inserted :
      total weight (t.insert key value) = weight value + total weight (t.erase key) := by
    rw [total, values, AList.entries_insert, List.map_cons, List.map_cons, List.sum_cons]
    rfl
  omega

theorem le_total (found : t.lookup key = some old) : weight old ≤ total weight t := by
  have erased : total weight (t.erase key) + weight old = total weight t := total_erase weight found
  omega

/-- As many entries in one table as in another whose keys are its values. -/
theorem total_const_eq {W : Type*} {other : Table V W} [DecidableEq V]
    (keys : ∀ value, value ∈ other ↔ ∃ key, t.lookup key = some value)
    (once : ∀ key key' value, t.lookup key = some value → t.lookup key' = some value → key = key')
    (count : ℕ) : total (fun _ => count) t = total (fun _ => count) other := by
  have distinct : t.values.Nodup := by
    refine (List.nodupKeys_iff_pairwise.mp t.nodupKeys).imp_of_mem ?_ |> List.pairwise_map.mpr
    rintro ⟨first, value⟩ ⟨second, value'⟩ left right apart (rfl : value = value')
    exact apart (once first second value (AList.mem_lookup_iff.mpr left)
      (AList.mem_lookup_iff.mpr right))
  have same : t.values.Perm other.keys := by
    refine (List.perm_ext_iff_of_nodup distinct other.nodupKeys).mpr fun value => ?_
    rw [mem_values, ← keys]
    exact AList.mem_keys.symm
  have lengths := same.length_eq
  simp only [values, AList.keys, List.keys, List.length_map] at lengths
  simp only [total, values, List.map_const', List.sum_replicate, List.length_map, lengths]

theorem entries_foldl_erase (keys : List K) (t : Table K V) :
    (keys.foldl (fun t key => t.erase key) t).entries =
      t.entries.filter fun entry => entry.1 ∉ keys := by
  induction keys generalizing t with
  | nil => simp
  | cons key keys ih =>
      have erased : (t.erase key).entries = t.entries.filter fun entry => entry.1 ≠ key := by
        change List.kerase key t.entries = _
        have distinct := t.nodupKeys
        generalize t.entries = entries at distinct
        induction entries with
        | nil => rfl
        | cons entry entries ih =>
            obtain ⟨fresh, distinct⟩ := List.nodupKeys_cons.mp distinct
            by_cases same : key = entry.1
            · have others : ∀ other ∈ entries, other.1 ≠ key := fun other listed also =>
                fresh (same ▸ also ▸ List.mem_keys_of_mem listed)
              rw [List.kerase_cons_eq same, List.filter_cons_of_neg (by simp [same])]
              exact (List.filter_eq_self.mpr fun other listed => by
                simpa using others other listed).symm
            · rw [List.kerase_cons_ne same, ih distinct,
                List.filter_cons_of_pos (by simpa using Ne.symm same)]
      rw [List.foldl_cons, ih, erased, List.filter_filter]
      refine List.filter_congr fun entry _ => ?_
      simp [Bool.and_comm]

theorem foldl_erase_dedup (keys : List K) (t : Table K V) :
    keys.dedup.foldl (fun t key => t.erase key) t = keys.foldl (fun t key => t.erase key) t := by
  refine AList.ext ?_
  rw [entries_foldl_erase, entries_foldl_erase]
  simp only [List.mem_dedup]

/-- Erasing keys takes the weight of each of them. -/
theorem total_foldl_erase {keys : List K} (count : ℕ) (distinct : keys.Nodup) :
    ∀ {t : Table K V}, (∀ key ∈ keys, key ∈ t) →
      total (fun _ => count) (keys.foldl (fun t key => t.erase key) t) + count * keys.length =
        total (fun _ => count) t := by
  induction keys with
  | nil => simp
  | cons key keys ih =>
      intro t present
      obtain ⟨fresh, distinct⟩ := List.nodup_cons.mp distinct
      obtain ⟨value, found⟩ := Option.isSome_iff_exists.mp
        (AList.lookup_isSome.mpr (present key List.mem_cons_self))
      have erased : total (fun _ => count) (t.erase key) + count = total (fun _ => count) t :=
        total_erase _ found
      have rest := @ih distinct (t.erase key) fun other listed => AList.mem_erase.mpr
        ⟨fun same => fresh (same ▸ listed), present other (List.mem_cons_of_mem _ listed)⟩
      rw [List.foldl_cons, List.length_cons, Nat.mul_succ]
      omega

end Table

/-! ## Slots -/

namespace Slots

variable {V : Type*} (weight : V → ℕ) {slots : Slots V} {ix : ℕ} {old : V}

theorem total_push (slots : Slots V) (value : V) :
    Table.total weight (slots.push value).cells = Table.total weight slots.cells + weight value :=
  Table.total_insert_new weight slots.lookup_next value

theorem total_set (found : slots.lookup ix = some old) (value : V) :
    Table.total weight (slots.set ix value).cells + weight old =
      Table.total weight slots.cells + weight value := by
  have present : ix ∈ slots.cells := AList.lookup_isSome.mp (Option.isSome_of_eq_some found)
  rw [set, dif_pos present]
  exact Table.total_insert weight found value

theorem total_remove (found : slots.lookup ix = some old) :
    Table.total weight (slots.remove ix).cells + weight old = Table.total weight slots.cells := by
  have present : ix ∈ slots.cells := AList.lookup_isSome.mp (Option.isSome_of_eq_some found)
  rw [remove, dif_pos present]
  exact Table.total_erase weight found

end Slots

end Library
