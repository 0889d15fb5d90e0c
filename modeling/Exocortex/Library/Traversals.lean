import Mathlib.Data.List.Forall2
import Mathlib.Data.List.Perm.Basic
import Mathlib.Data.List.Sort
import Mathlib.Tactic.Common

/-!
# Lists under functions that can fail, and lists sorted into groups

A traversal with a function that can fail succeeds exactly when the function succeeds at
every element. Sorting the elements of a list into groups by a number and reading the
groups one after the other gives a permutation of the list.
-/

namespace Library

variable {α β γ E : Type*}

theorem bind_eq_ok_iff {A B : Type _} {x : Except E A} {f : A → Except E B} {y : B} :
    (x >>= f) = .ok y ↔ ∃ value, x = .ok value ∧ f value = .ok y := by
  cases x with
  | error error =>
      constructor
      · intro failed
        cases failed
      · rintro ⟨value, failed, _⟩
        cases failed
  | ok value =>
      constructor
      · intro rest
        exact ⟨value, rfl, rest⟩
      · rintro ⟨value', same, rest⟩
        cases same
        exact rest

theorem bind_of_ok {A B : Type _} {x : Except E A} {value : A} (succeeds : x = .ok value)
    (f : A → Except E B) : (x >>= f) = f value := by
  rw [succeeds]
  rfl

variable {A : Type*} {f : α → Except E β} {xs : List α} {ys : List β} {R : α → β → Prop}

theorem map_ok_iff {B : Type*} {x : Except E A} {f : A → B} {y : B} :
    x.map f = .ok y ↔ ∃ value, x = .ok value ∧ y = f value := by
  cases x with
  | error error => exact ⟨nofun, nofun⟩
  | ok value => simp [Except.map, eq_comm]

theorem ite_error_ok_iff {condition : Prop} [Decidable condition] {error : E} {rest : Except E A}
    {value : A} :
    (if condition then .error error else rest) = .ok value ↔ ¬ condition ∧ rest = .ok value := by
  by_cases holds : condition
  · simp [holds]
  · simp [holds]

theorem eq_ok_of_toOption {x : Except E α} {value : α} (read : x.toOption = some value) :
    x = .ok value := by
  cases x with
  | error error => cases read
  | ok other => exact congrArg Except.ok (Option.some.inj read)

theorem exists_ok {x : Except E α} (some : x.toOption.isSome) : ∃ value, x = .ok value :=
  (Option.isSome_iff_exists.mp some).imp fun _ => eq_ok_of_toOption

theorem mapM_eq_ok_iff : xs.mapM f = .ok ys ↔ List.Forall₂ (fun x y => f x = .ok y) xs ys := by
  induction xs generalizing ys with
  | nil =>
      rw [List.mapM_nil, List.forall₂_nil_left_iff]
      exact ⟨fun same => (Except.ok.inj same).symm, fun same => same ▸ rfl⟩
  | cons x xs ih =>
      rw [List.mapM_cons, List.forall₂_cons_left_iff]
      cases first : f x with
      | error error =>
          constructor
          · intro failed
            cases failed
          · rintro ⟨y, rest, failed, _⟩
            cases failed
      | ok y =>
          constructor
          · intro succeeded
            cases rest : xs.mapM f with
            | error error =>
                rw [rest] at succeeded
                cases succeeded
            | ok zs =>
                rw [rest] at succeeded
                exact ⟨y, zs, rfl, ih.mp rest, (Except.ok.inj succeeded).symm⟩
          · rintro ⟨z, zs, same, related, rfl⟩
            cases same
            rw [ih.mpr related]
            rfl

theorem mapM_eq_ok_map {g : α → β} (known : ∀ x ∈ xs, f x = .ok (g x)) :
    xs.mapM f = .ok (xs.map g) := by
  rw [mapM_eq_ok_iff, List.forall₂_map_right_iff, List.forall₂_same]
  exact known

theorem exists_right (related : List.Forall₂ R xs ys) {x : α} (member : x ∈ xs) :
    ∃ y ∈ ys, R x y := by
  induction related with
  | nil => cases member
  | cons here _ ih =>
      rcases List.mem_cons.mp member with rfl | later
      · exact ⟨_, List.mem_cons_self, here⟩
      · obtain ⟨y, listed, relates⟩ := ih later
        exact ⟨y, List.mem_cons_of_mem _ listed, relates⟩

/-- A traversal that succeeded did so at every element. -/
theorem mapM_ok_mem (ok : xs.mapM f = .ok ys) {x : α} (member : x ∈ xs) :
    ∃ y ∈ ys, f x = .ok y :=
  exists_right (mapM_eq_ok_iff.mp ok) member

/-- Each result of a traversal is the result at an element. -/
theorem mapM_ok_result (ok : xs.mapM f = .ok ys) {y : β} (member : y ∈ ys) :
    ∃ x ∈ xs, f x = .ok y :=
  exists_right (mapM_eq_ok_iff.mp ok).flip member

/-- What a function fails with along a list. -/
def failures (f : α → Except E β) (g : α → E → γ) (xs : List α) : List γ :=
  xs.filterMap fun x =>
    match f x with
    | .error error => some (g x error)
    | .ok _ => none

/-- What it succeeds with. -/
def successes (f : α → Except E β) (xs : List α) : List β := xs.filterMap fun x => (f x).toOption

theorem failures_eq_nil_iff {g : α → E → γ} :
    failures f g xs = [] ↔ ∀ x ∈ xs, ∃ y, f x = .ok y := by
  rw [failures, List.filterMap_eq_nil_iff]
  refine forall₂_congr fun x _ => ?_
  cases f x with
  | error error => simp
  | ok y => simp

/-- A function that fails nowhere has its results in order. -/
theorem forall₂_successes (ok : ∀ x ∈ xs, ∃ y, f x = .ok y) :
    List.Forall₂ (fun x y => f x = .ok y) xs (successes f xs) := by
  induction xs with
  | nil => exact .nil
  | cons x xs ih =>
      obtain ⟨y, found⟩ := ok x List.mem_cons_self
      have first : successes f (x :: xs) = y :: successes f xs := by
        simp [successes, found, Except.toOption]
      rw [first]
      exact .cons found (ih fun z member => ok z (List.mem_cons_of_mem _ member))

/-- Related elements that have a property when the left one has another. -/
theorem forall₂_iff_of_forall₂ {S : α → β → Prop} {P : α → Prop} (related : List.Forall₂ R xs ys)
    (each : ∀ {x y}, R x y → (S x y ↔ P x)) : List.Forall₂ S xs ys ↔ ∀ x ∈ xs, P x := by
  induction related with
  | nil => simp
  | cons first rest ih => rw [List.forall₂_cons, List.forall_mem_cons, each first, ih]

theorem forall₂_trans {S : β → γ → Prop} {T : α → γ → Prop} {zs : List γ}
    (first : List.Forall₂ R xs ys) (second : List.Forall₂ S ys zs)
    (compose : ∀ x y z, R x y → S y z → T x z) : List.Forall₂ T xs zs := by
  induction first generalizing zs with
  | nil =>
      cases second
      exact .nil
  | cons here rest ih =>
      cases second with
      | cons there more => exact .cons (compose _ _ _ here there) (ih more)

theorem forall_right {P : β → Prop} (related : List.Forall₂ (fun _ y => P y) xs ys) :
    ∀ y ∈ ys, P y := by
  induction related with
  | nil => exact fun y member => (List.not_mem_nil member).elim
  | cons here _ ih => exact List.forall_mem_cons.mpr ⟨here, ih⟩

/-- What does not depend on the place of an entry. -/
theorem map_mapIdx {f : ℕ → α → β} {g : β → γ} {h : α → γ} (same : ∀ index x, g (f index x) = h x)
    (xs : List α) : (xs.mapIdx f).map g = xs.map h := by
  rw [List.mapIdx_eq_zipIdx_map, List.map_map]
  conv_rhs => rw [← List.zipIdx_map_fst 0 xs, List.map_map]
  exact List.map_congr_left fun entry _ => same entry.2 entry.1

theorem mem_successes {y : β} : y ∈ successes f xs ↔ ∃ x ∈ xs, f x = .ok y := by
  rw [successes, List.mem_filterMap]
  refine exists_congr fun x => and_congr_right fun _ => ?_
  cases f x with
  | error error => simp [Except.toOption]
  | ok z => simp [Except.toOption]

/-- Two computations that fail alike or yield related results. -/
def Agree {E A B : Type*} (R : A → B → Prop) : Except E A → Except E B → Prop
  | .error failed, .error failed' => failed = failed'
  | .ok value, .ok value' => R value value'
  | _, _ => False

theorem Agree.refl {R : A → A → Prop} (related : ∀ value, R value value) (x : Except E A) :
    Agree R x x := by
  cases x with
  | error failed => rfl
  | ok value => exact related value

theorem Agree.error_left {B : Type*} {R : A → B → Prop} {failed : E} {y : Except E B}
    (agree : Agree R (.error failed) y) : y = .error failed := by
  cases y with
  | error failed' => exact congrArg Except.error (Eq.symm agree)
  | ok value' => exact agree.elim

theorem Agree.ok_left {B : Type*} {R : A → B → Prop} {value : A} {y : Except E B}
    (agree : Agree R (.ok value) y) : ∃ value', y = .ok value' ∧ R value value' := by
  cases y with
  | error failed' => exact agree.elim
  | ok value' => exact ⟨value', rfl, agree⟩

theorem Agree.bind {A B C D : Type _} {R : A → B → Prop} {S : C → D → Prop} {x : Except E A}
    {y : Except E B} {f : A → Except E C} {g : B → Except E D} (first : Agree R x y)
    (rest : ∀ a b, R a b → Agree S (f a) (g b)) : Agree S (x >>= f) (y >>= g) := by
  cases x with
  | error failed =>
      cases y with
      | error failed' => exact first
      | ok value' => exact first.elim
  | ok value =>
      cases y with
      | error failed' => exact first.elim
      | ok value' => exact rest value value' first

/-- Functions that agree along a list fail alike and succeed with related results. -/
theorem Agree.traverse {α' : Type*} {R : β → α' → Prop} {f' : α → Except E α'}
    (agree : ∀ x ∈ xs, Agree R (f x) (f' x)) (g : α → E → γ) :
    failures f g xs = failures f' g xs ∧ List.Forall₂ R (successes f xs) (successes f' xs) := by
  induction xs with
  | nil => exact ⟨rfl, .nil⟩
  | cons x xs ih =>
      obtain ⟨failing, succeeding⟩ := ih fun z member => agree z (List.mem_cons_of_mem _ member)
      have here := agree x List.mem_cons_self
      rw [failures, failures, successes, successes, List.filterMap_cons, List.filterMap_cons,
        List.filterMap_cons, List.filterMap_cons]
      cases first : f x with
      | error failed =>
          cases second : f' x with
          | error failed' =>
              rw [first, second] at here
              exact ⟨congrArg₂ List.cons (congrArg (g x) here) failing, succeeding⟩
          | ok value' =>
              rw [first, second] at here
              exact here.elim
      | ok value =>
          cases second : f' x with
          | error failed' =>
              rw [first, second] at here
              exact here.elim
          | ok value' =>
              rw [first, second] at here
              exact ⟨failing, .cons here succeeding⟩

/-- A traversal that succeeded, where a reading of its results is known. -/
theorem map_of_mapM_ok {g : β → γ} {k : α → γ} (ok : xs.mapM f = .ok ys)
    (known : ∀ x ∈ xs, ∀ y, f x = .ok y → g y = k x) : ys.map g = xs.map k := by
  have related := mapM_eq_ok_iff.mp ok
  induction related with
  | nil => rfl
  | cons first rest ih =>
      rw [List.map_cons, List.map_cons, known _ List.mem_cons_self _ first,
        ih (mapM_eq_ok_iff.mpr rest) fun x member => known x (List.mem_cons_of_mem _ member)]

theorem mapM_ok_eq_map {g : α → β} (ok : xs.mapM f = .ok ys)
    (known : ∀ x ∈ xs, ∀ y, f x = .ok y → y = g x) : ys = xs.map g := by
  rw [← map_of_mapM_ok ok known, List.map_id']

theorem forM_eq_ok_iff {f : α → Except E PUnit} : xs.forM f = .ok ⟨⟩ ↔ ∀ x ∈ xs, f x = .ok ⟨⟩ := by
  induction xs with
  | nil => exact ⟨fun _ _ member => (List.not_mem_nil member).elim, fun _ => rfl⟩
  | cons x xs ih =>
      rw [List.forM, List.forall_mem_cons]
      cases first : f x with
      | error error =>
          constructor
          · intro failed
            cases failed
          · rintro ⟨failed, _⟩
            cases failed
      | ok nothing =>
          cases nothing
          exact ⟨fun rest => ⟨rfl, ih.mp rest⟩, fun both => ih.mpr both.2⟩

/-- Two lists are sorted alike exactly when they are permutations of each other. -/
theorem insertionSort_eq_iff {r : α → α → Prop} [DecidableRel r] [Std.Total r] [IsTrans α r]
    [Std.Antisymm r] {ys : List α} : xs.insertionSort r = ys.insertionSort r ↔ xs.Perm ys := by
  constructor
  · intro same
    exact (List.perm_insertionSort r xs).symm.trans (same ▸ List.perm_insertionSort r ys)
  · intro permuted
    refine List.Perm.eq_of_pairwise' (List.pairwise_insertionSort r xs)
      (List.pairwise_insertionSort r ys) ?_
    exact (List.perm_insertionSort r xs).trans (permuted.trans (List.perm_insertionSort r ys).symm)

/-- The first element that was seen before. -/
def repeated [DecidableEq α] : List α → List α → Option α
  | _, [] => none
  | seen, x :: xs => if x ∈ seen then some x else repeated (x :: seen) xs

theorem repeated_eq_none_iff [DecidableEq α] {seen : List α} :
    repeated seen xs = none ↔ xs.Nodup ∧ ∀ x ∈ xs, x ∉ seen := by
  induction xs generalizing seen with
  | nil => exact iff_of_true rfl ⟨List.nodup_nil, fun x inside => absurd inside List.not_mem_nil⟩
  | cons x xs ih =>
      rw [repeated, List.nodup_cons, List.forall_mem_cons]
      by_cases before : x ∈ seen
      · rw [if_pos before]
        exact iff_of_false (Option.some_ne_none x) fun fresh => fresh.2.1 before
      · rw [if_neg before, ih]
        constructor
        · rintro ⟨distinct, fresh⟩
          refine ⟨⟨fun later => fresh x later List.mem_cons_self, distinct⟩, before, ?_⟩
          exact fun y later inside => fresh y later (List.mem_cons_of_mem _ inside)
        · rintro ⟨⟨once, distinct⟩, -, fresh⟩
          refine ⟨distinct, fun y later inside => ?_⟩
          rcases List.mem_cons.mp inside with rfl | inside
          · exact once later
          · exact fresh y later inside

/-- Elements with distinct keys are sorted by their keys in one way only. -/
theorem insertionSort_eq_of_perm {κ : Type*} {r : κ → κ → Prop} [DecidableRel r] [Std.Total r]
    [IsTrans κ r] [Std.Antisymm r] {key : α → κ} {ys : List α} (distinct : (xs.map key).Nodup)
    (permuted : xs.Perm ys) : (xs.insertionSort fun x y => r (key x) (key y)) =
      ys.insertionSort fun x y => r (key x) (key y) := by
  have total : Std.Total fun x y => r (key x) (key y) := ⟨fun x y => Std.Total.total _ _⟩
  have trans : IsTrans α fun x y => r (key x) (key y) := ⟨fun x y z => IsTrans.trans _ _ _⟩
  refine List.Perm.eq_of_pairwise ?_ (List.pairwise_insertionSort _ xs)
    (List.pairwise_insertionSort _ ys) ?_
  · intro x y inside inside' below above
    have member := (List.perm_insertionSort _ xs).mem_iff.mp inside
    have member' := permuted.mem_iff.mpr ((List.perm_insertionSort _ ys).mem_iff.mp inside')
    exact List.inj_on_of_nodup_map distinct member member'
      (Std.Antisymm.antisymm _ _ below above)
  · exact (List.perm_insertionSort _ xs).trans
      (permuted.trans (List.perm_insertionSort _ ys).symm)

/-- Images that are the same up to order stay so under a coarser function. -/
theorem perm_map_of_perm_map {f : α → β} {g : α → γ} {ys : List α}
    (coarser : ∀ x ∈ xs, ∀ y ∈ ys, f x = f y → g x = g y) (permuted : (xs.map f).Perm (ys.map f)) :
    (xs.map g).Perm (ys.map g) := by
  classical
  induction xs generalizing ys with
  | nil =>
      rw [List.map_nil, List.nil_perm, List.map_eq_nil_iff] at permuted
      rw [permuted]
  | cons x xs ih =>
      obtain ⟨y, listed, same⟩ := List.mem_map.mp (permuted.subset List.mem_cons_self)
      have split := List.perm_cons_erase listed
      have rest : (xs.map f).Perm ((ys.erase y).map f) := by
        refine List.Perm.cons_inv (permuted.trans ((split.map f).trans ?_))
        rw [List.map_cons, same]
      have later := ih (fun z isZ w isW =>
        coarser z (List.mem_cons_of_mem _ isZ) w (List.mem_of_mem_erase isW)) rest
      refine List.Perm.trans ?_ (split.map g).symm
      rw [List.map_cons, List.map_cons, coarser x List.mem_cons_self y listed same.symm]
      exact later.cons _

/-- The groups of a list, one after the other. -/
theorem flatMap_filter_perm (xs : List α) (group : α → ℕ) (count : ℕ)
    (below : ∀ x ∈ xs, group x < count) :
    ((List.range count).flatMap fun index => xs.filter (group · = index)).Perm xs := by
  induction count generalizing xs with
  | zero =>
      cases xs with
      | nil => exact .refl _
      | cons x xs => exact (Nat.not_lt_zero _ (below x List.mem_cons_self)).elim
  | succ count ih =>
      rw [List.range_succ, List.flatMap_append, List.flatMap_singleton]
      -- The first groups are those of the elements that are not in the last group.
      have front : ((List.range count).flatMap fun index => xs.filter (group · = index)) =
          (List.range count).flatMap fun index =>
            (xs.filter (group · ≠ count)).filter (group · = index) := by
        apply List.flatMap_congr
        intro index member
        rw [List.filter_filter]
        apply List.filter_congr
        intro x _
        have smaller := List.mem_range.mp member
        by_cases same : group x = index
        · have apart : index ≠ count := by omega
          simp [same, apart]
        · simp [same]
      have rest := ih (xs.filter (group · ≠ count)) (by
        intro x member
        obtain ⟨listed, apart⟩ := List.mem_filter.mp member
        have bound := below x listed
        have different : group x ≠ count := of_decide_eq_true apart
        omega)
      rw [front]
      refine (rest.append_right _).trans ?_
      have parts := List.filter_append_perm (fun x => decide (group x = count)) xs
      refine (List.perm_append_comm.trans ?_)
      simpa using parts

end Library
