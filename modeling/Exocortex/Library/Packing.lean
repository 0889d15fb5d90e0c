import Mathlib

/-!
# Sorting and packing

A list is sorted by a key, where elements with the same key keep their order; of elements with the
same name the first is kept; and a list is packed from the front: an element goes into the
segment that is being filled, or where that is too full for it the segment is closed and a new
one begins.
-/

namespace Library

variable {α : Type*}

/-! ## Elements with the same key -/

variable {xs : List α} {x : α}

section Stable

variable {K : Type*} [LinearOrder K] {key : α → K} {R : α → α → Prop} {p : α → Bool}

/-- In order of their keys, and where these are the same in the order that they had. -/
def KeyOrder (key : α → K) (R : α → α → Prop) (x y : α) : Prop :=
  key x < key y ∨ key x = key y ∧ R x y

theorem KeyOrder.le {y : α} (ordered : KeyOrder key R x y) : key x ≤ key y :=
  ordered.elim le_of_lt fun same => le_of_eq same.1

theorem pairwise_orderedInsert (sorted : xs.Pairwise (KeyOrder key R)) (before : ∀ y ∈ xs, R x y) :
    (xs.orderedInsert (fun x y => key x ≤ key y) x).Pairwise (KeyOrder key R) := by
  induction xs with
  | nil => exact List.pairwise_singleton _ _
  | cons y xs ih =>
      obtain ⟨first, rest⟩ := List.pairwise_cons.mp sorted
      rw [List.orderedInsert_cons]
      split
      · next below =>
          refine List.pairwise_cons.mpr ⟨?_, sorted⟩
          intro z member
          have least : key y ≤ key z := by
            rcases List.mem_cons.mp member with rfl | later
            · exact le_refl _
            · exact (first z later).le
          exact (lt_or_eq_of_le (le_trans below least)).imp_right fun same =>
            ⟨same, before z member⟩
      · next above =>
          refine List.pairwise_cons.mpr ⟨?_, ih rest fun z member =>
            before z (List.mem_cons_of_mem _ member)⟩
          intro z member
          rcases (List.mem_orderedInsert _).mp member with rfl | later
          · exact .inl (not_le.mp above)
          · exact first z later

/-- Sorting by a key leaves elements with the same key in their order. -/
theorem pairwise_insertionSort_key (ordered : xs.Pairwise R) :
    (xs.insertionSort fun x y => key x ≤ key y).Pairwise (KeyOrder key R) := by
  induction xs with
  | nil => exact List.Pairwise.nil
  | cons x xs ih =>
      obtain ⟨first, rest⟩ := List.pairwise_cons.mp ordered
      rw [List.insertionSort_cons]
      exact pairwise_orderedInsert (ih rest) fun y member =>
        first y ((List.mem_insertionSort _).mp member)

theorem find?_orderedInsert (sorted : xs.Pairwise fun x y => key x ≤ key y) :
    (xs.orderedInsert (fun x y => key x ≤ key y) x).find? p =
      if p x then some (((xs.find? p).filter fun y => decide (key y < key x)).getD x)
      else xs.find? p := by
  induction xs with
  | nil => simp [List.find?_cons]; split <;> simp_all
  | cons y xs ih =>
      obtain ⟨first, rest⟩ := List.pairwise_cons.mp sorted
      rw [List.orderedInsert_cons]
      by_cases below : key x ≤ key y
      · rw [if_pos below, List.find?_cons]
        cases taken : p x with
        | false => rfl
        | true =>
            -- No element of the list is before `x`.
            have late : ((y :: xs).find? p).filter (fun y => decide (key y < key x)) = none := by
              rw [Option.filter_eq_none_iff]
              intro z found
              have member := List.mem_of_find?_eq_some found
              rcases List.mem_cons.mp member with rfl | later
              · simpa using below
              · simpa using le_trans below (first z later)
            rw [late]
            rfl
      · rw [if_neg below, List.find?_cons, List.find?_cons, ih rest]
        cases taken : p y with
        | false => rfl
        | true =>
            have early : key y < key x := not_le.mp below
            cases p x with
            | false => rfl
            | true => simp [Option.filter_some, early]

/-- The first of the sorted elements is the first of those with the least key. -/
theorem find?_insertionSort (xs : List α) :
    (xs.insertionSort fun x y => key x ≤ key y).find? p = (xs.filter p).argmin key := by
  induction xs with
  | nil => rfl
  | cons x xs ih =>
      rw [List.insertionSort_cons, find?_orderedInsert (List.pairwise_insertionSort _ xs), ih,
        List.filter_cons]
      split
      · rw [List.argmin_cons]
        cases (xs.filter p).argmin key with
        | none => rfl
        | some y =>
            by_cases early : key y < key x <;> simp [Option.filter_some, early]
      · rfl

theorem argmin_map {β : Type*} (f : β → α) (xs : List β) :
    (xs.map f).argmin key = (xs.argmin (key ∘ f)).map f := by
  induction xs with
  | nil => rfl
  | cons x xs ih =>
      rw [List.map_cons, List.argmin_cons, List.argmin_cons, ih]
      cases xs.argmin (key ∘ f) with
      | none => rfl
      | some y => by_cases early : key (f y) < key (f x) <;> simp [early]

end Stable

/-! ## Elements with the same name -/

section Names

variable {I : Type*} [DecidableEq I] {nameOf : α → I}

/-- An element is kept when none of its name was kept before it. -/
def keepFirst (nameOf : α → I) (kept : List α) (x : α) : List α :=
  if nameOf x ∈ kept.map nameOf then kept else kept ++ [x]

variable {kept : List α}

theorem mem_foldl_keepFirst (member : x ∈ xs.foldl (keepFirst nameOf) kept) :
    x ∈ kept ∨ x ∈ xs := by
  induction xs generalizing kept with
  | nil => exact .inl member
  | cons first xs ih =>
      rcases ih member with before | later
      · rw [keepFirst] at before
        split at before
        · exact .inl before
        · refine (List.mem_append.mp before).imp_right fun same => ?_
          rw [List.mem_singleton.mp same]
          exact List.mem_cons_self
      · exact .inr (List.mem_cons_of_mem _ later)

theorem subset_foldl_keepFirst : kept ⊆ xs.foldl (keepFirst nameOf) kept := by
  induction xs generalizing kept with
  | nil => exact List.Subset.refl _
  | cons x xs ih =>
      refine List.Subset.trans ?_ ih
      rw [keepFirst]
      split
      · exact List.Subset.refl _
      · exact List.subset_append_left _ _

/-- Each name is kept. -/
theorem name_foldl_keepFirst (member : x ∈ kept ∨ x ∈ xs) :
    ∃ same ∈ xs.foldl (keepFirst nameOf) kept, nameOf same = nameOf x := by
  induction xs generalizing kept with
  | nil => exact ⟨x, member.resolve_right List.not_mem_nil, rfl⟩
  | cons first xs ih =>
      have known : kept ⊆ (first :: xs).foldl (keepFirst nameOf) kept := subset_foldl_keepFirst
      rcases member with before | here
      · exact ⟨x, known before, rfl⟩
      · rcases List.mem_cons.mp here with rfl | later
        · by_cases seen : nameOf x ∈ kept.map nameOf
          · obtain ⟨same, before, named⟩ := List.mem_map.mp seen
            exact ⟨same, known before, named⟩
          · refine ih (.inl ?_)
            rw [keepFirst, if_neg seen]
            exact List.mem_append_right _ (List.mem_singleton.mpr rfl)
        · exact ih (.inr later)

theorem nodup_foldl_keepFirst (distinct : (kept.map nameOf).Nodup) :
    ((xs.foldl (keepFirst nameOf) kept).map nameOf).Nodup := by
  induction xs generalizing kept with
  | nil => exact distinct
  | cons x xs ih =>
      refine ih ?_
      rw [keepFirst]
      split
      · exact distinct
      · next fresh =>
          rw [List.map_append, List.map_singleton]
          refine List.nodup_append.mpr ⟨distinct, List.nodup_singleton _, ?_⟩
          rintro _ before _ here rfl
          rw [List.mem_singleton.mp here] at before
          exact fresh before

theorem length_foldl_keepFirst (xs kept : List α) :
    (xs.foldl (keepFirst nameOf) kept).length ≤ kept.length + xs.length := by
  induction xs generalizing kept with
  | nil => exact Nat.le_refl _
  | cons x xs ih =>
      have step : (keepFirst nameOf kept x).length ≤ kept.length + 1 := by
        rw [keepFirst]
        split
        · exact Nat.le_succ _
        · rw [List.length_append, List.length_singleton]
      have rest := ih (keepFirst nameOf kept x)
      rw [List.foldl_cons, List.length_cons]
      omega

/-- What is kept of a name is the first that has it. -/
theorem mem_foldl_keepFirst_iff :
    x ∈ xs.foldl (keepFirst nameOf) [] ↔ xs.find? (nameOf · = nameOf x) = some x := by
  induction xs using List.reverseRecOn with
  | nil => simp
  | append_singleton xs y ih =>
      rw [List.foldl_append, List.foldl_cons, List.foldl_nil, List.find?_append, keepFirst]
      cases found : xs.find? (nameOf · = nameOf x) with
      | some first =>
          rw [found] at ih
          rw [Option.some_or, ← ih]
          split
          · exact Iff.rfl
          · next fresh =>
              refine List.mem_append.trans (or_iff_left fun last => ?_)
              rw [List.mem_singleton.mp last] at found
              obtain ⟨same, kept, named⟩ : ∃ same ∈ xs.foldl (keepFirst nameOf) [],
                  nameOf same = nameOf first :=
                name_foldl_keepFirst (.inr (List.mem_of_find?_eq_some found))
              have equal : nameOf first = nameOf y := by simpa using List.find?_some found
              exact fresh (List.mem_map.mpr ⟨same, kept, named.trans equal⟩)
      | none =>
          rw [found] at ih
          have absent : ∀ z ∈ xs, nameOf z ≠ nameOf x := by
            simpa using List.find?_eq_none.mp found
          have unkept : x ∉ xs.foldl (keepFirst nameOf) [] := fun kept =>
            absurd (ih.mp kept) nofun
          rw [Option.none_or, List.find?_singleton]
          by_cases named : nameOf y = nameOf x
          · have fresh : nameOf y ∉ (xs.foldl (keepFirst nameOf) []).map nameOf := by
              intro kept
              obtain ⟨z, kept, same⟩ := List.mem_map.mp kept
              exact absent z ((mem_foldl_keepFirst kept).resolve_left List.not_mem_nil)
                (same.trans named)
            rw [if_neg fresh, List.mem_append, List.mem_singleton, or_iff_right unkept]
            simp [named, eq_comm]
          · have other : x ≠ y := fun same => named (same ▸ rfl)
            split
            · simp [named, unkept]
            · simp [named, unkept, other]

end Names

/-! ## Segments -/

/-- The first of several lists that has an element. -/
theorem exists_first_part [DecidableEq α] {parts : List (List α)} (member : x ∈ parts.flatten) :
    ∃ before part after, parts = before ++ part :: after ∧ x ∈ part ∧ x ∉ before.flatten := by
  obtain ⟨part, listed, within⟩ := List.mem_flatten.mp member
  cases found : parts.find? (x ∈ ·) with
  | none => exact absurd within (by simpa using List.find?_eq_none.mp found part listed)
  | some first =>
      obtain ⟨here, before, after, split, earlier⟩ := List.find?_eq_some_iff_append.mp found
      refine ⟨before, first, after, split, of_decide_eq_true here, fun early => ?_⟩
      obtain ⟨part, listed, within⟩ := List.mem_flatten.mp early
      exact absurd within (by simpa using earlier part listed)

section Segments

variable (full : ℕ → List α → α → Bool)

/-- The segments of a list, where so many are closed and one is being filled. Whether a segment is
too full for an element may depend on how many are closed. -/
def segments : ℕ → List α → List α → List (List α)
  | _, [], [] => []
  | _, x :: current, [] => [x :: current]
  | closed, current, x :: xs =>
      if !current.isEmpty && full closed current x then
        current :: segments (closed + 1) [x] xs
      else segments closed (current ++ [x]) xs

variable {full}

theorem flatten_segments (closed : ℕ) (current xs : List α) :
    (segments full closed current xs).flatten = current ++ xs := by
  induction xs generalizing closed current with
  | nil => cases current <;> simp [segments]
  | cons x xs ih =>
      rw [segments]
      split
      · rw [List.flatten_cons, ih, List.singleton_append]
      · rw [ih, List.append_assoc, List.singleton_append]

variable {current segment : List α}

/-- What holds of a segment with one element, and of a segment with one more as long as it is not
too full, holds of each segment. -/
theorem segments_induction {P : List α → Prop} {closed : ℕ} (here : current = [] ∨ P current)
    (one : ∀ x ∈ xs, P [x]) (more : ∀ closed segment x, segment ≠ [] → P segment → x ∈ xs →
      full closed segment x = false → P (segment ++ [x])) :
    ∀ segment ∈ segments full closed current xs, P segment := by
  induction xs generalizing closed current with
  | nil =>
      intro segment member
      cases current with
      | nil => cases member
      | cons x current =>
          rw [List.mem_singleton.mp member]
          exact here.resolve_left (List.cons_ne_nil _ _)
  | cons x xs ih =>
      have single := one x List.mem_cons_self
      have later : ∀ {closed : ℕ} {current : List α}, (current = [] ∨ P current) →
          ∀ segment ∈ segments full closed current xs, P segment := fun here =>
        ih here (fun y member => one y (List.mem_cons_of_mem _ member))
          fun closed segment y some holds member =>
            more closed segment y some holds (List.mem_cons_of_mem _ member)
      rw [segments]
      split
      · next closes =>
          rw [Bool.and_eq_true, Bool.not_eq_true', List.isEmpty_eq_false_iff] at closes
          exact List.forall_mem_cons.mpr ⟨here.resolve_left closes.1, later (.inr single)⟩
      · next open_ =>
          refine later (.inr ?_)
          by_cases empty : current = []
          · rw [empty]
            exact single
          · have room : full closed current x = false := by simpa [empty] using open_
            exact more closed current x empty (here.resolve_left empty) List.mem_cons_self room

/-- The segment that is being filled is the first one. -/
theorem segments_cons {closed : ℕ} {current xs : List α} (some : current ≠ []) :
    ∃ more rest, segments full closed current xs = (current ++ more) :: rest := by
  induction xs generalizing current with
  | nil =>
      obtain ⟨x, rest, rfl⟩ := List.exists_cons_of_ne_nil some
      exact ⟨[], [], by rw [segments, List.append_nil]⟩
  | cons x xs ih =>
      rw [segments]
      split
      · exact ⟨[], _, by rw [List.append_nil]⟩
      · obtain ⟨more, rest, split⟩ := ih (List.append_ne_nil_of_left_ne_nil some [x])
        exact ⟨x :: more, rest, by rw [split, List.append_assoc, List.singleton_append]⟩

/-- A segment is too full for the first element of the next one. -/
theorem segments_closes {closed : ℕ} {next : List α} {before after : List (List α)}
    (parts : segments full closed current xs = before ++ segment :: (x :: next) :: after) :
    ∃ closed, full closed segment x = true := by
  induction xs generalizing closed current before with
  | nil =>
      have short := congrArg List.length parts
      cases current with
      | nil => simp [segments] at short
      | cons y current =>
          simp [segments] at short
          omega
  | cons y xs ih =>
      rw [segments] at parts
      split at parts
      · next closes =>
          cases before with
          | nil =>
              obtain ⟨rfl, rest⟩ := List.cons_eq_cons.mp parts
              obtain ⟨more, later, first⟩ := @segments_cons _ full (closed + 1) [y] xs
                (List.cons_ne_nil y [])
              rw [first] at rest
              obtain ⟨rfl, -⟩ := List.cons_eq_cons.mp (List.cons_eq_cons.mp rest).1
              exact ⟨closed, (Bool.and_eq_true _ _ ▸ closes).2⟩
          | cons first before => exact ih (List.cons_eq_cons.mp parts).2
      · exact ih parts

theorem segments_ne_nil (member : segment ∈ segments full 0 [] xs) : segment ≠ [] :=
  segments_induction (P := (· ≠ [])) (.inl rfl) (fun _ _ => List.cons_ne_nil _ _)
    (fun _ _ _ _ _ _ _ => List.append_ne_nil_of_right_ne_nil _ (List.cons_ne_nil _ _))
    segment member

end Segments

end Library
