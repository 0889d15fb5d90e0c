import Mathlib.Data.Finset.Basic
import Mathlib.Data.List.Nodup
import Mathlib.Tactic.Common

/-!
# Histories stamped by one counter

A family of histories, each version of which carries a stamp drawn from one
counter. The family is well stamped at a counter value (`Stamped`) when stamps
increase along each history, none exceeds the counter, and no stamp is used in
two histories.

Two kinds of change keep a family well stamped. A change *appends* when every
new version goes to the end of its history and all new stamps lie between the
old and the new counter value (`Appends`); appends compose. A change *retains*
when every history is replaced by a sublist and the counter does not fall
(`Stamped.sublist`).

A list of stamps is *dense* between two counter values when it is the list of
all values after the first, up to the second, in order (`Dense`). Dense lists
compose like appends.
-/

namespace Library

variable {ι V : Type*} (stamp : V → ℕ)

/-- Stamps increase along every history, stay within the counter, and are not
shared by two histories. -/
structure Stamped (counter : ℕ) (family : ι → List V) : Prop where
  increasing : ∀ i, (family i).Pairwise fun v w => stamp v < stamp w
  bounded : ∀ i, ∀ v ∈ family i, stamp v ≤ counter
  disjoint : ∀ i j, ∀ v ∈ family i, ∀ w ∈ family j, stamp v = stamp w → i = j

/-- Every history grows at its end, by versions stamped after `before` and up
to `after`. -/
structure Appends (before after : ℕ) (old new : ι → List V) : Prop where
  counter_le : before ≤ after
  grown : ∃ fresh : ι → List V, (∀ i, new i = old i ++ fresh i) ∧
    (∀ i, ∀ v ∈ fresh i, before < stamp v) ∧ Stamped stamp after fresh

variable {stamp}

namespace Stamped

variable {counter : ℕ} {family : ι → List V}

theorem empty (counter : ℕ) : Stamped stamp counter (fun _ : ι => ([] : List V)) where
  increasing _ := List.Pairwise.nil
  bounded _ _ member := absurd member List.not_mem_nil
  disjoint _ _ _ member := absurd member List.not_mem_nil

/-- Two versions with one stamp are the same version of the same history. -/
theorem eq_of_stamp_eq (stamped : Stamped stamp counter family) {i j : ι} {v w : V}
    (hv : v ∈ family i) (hw : w ∈ family j) (same : stamp v = stamp w) : i = j ∧ v = w := by
  have place := stamped.disjoint i j v hv w hw same
  subst place
  refine ⟨rfl, ?_⟩
  have distinct : ((family i).map stamp).Nodup :=
    List.pairwise_map.mpr ((stamped.increasing i).imp fun lt => Nat.ne_of_lt lt)
  exact List.inj_on_of_nodup_map distinct hv hw same

/-- Dropping versions keeps a family well stamped, also when the counter rises. -/
theorem sublist (stamped : Stamped stamp counter family) {later : ℕ} {kept : ι → List V}
    (counter_le : counter ≤ later) (sub : ∀ i, (kept i).Sublist (family i)) :
    Stamped stamp later kept where
  increasing i := (stamped.increasing i).sublist (sub i)
  bounded i v member := (stamped.bounded i v ((sub i).subset member)).trans counter_le
  disjoint i j v hv w hw :=
    stamped.disjoint i j v ((sub i).subset hv) w ((sub j).subset hw)

/-- Appending fresh stamps keeps a family well stamped. -/
theorem appends (stamped : Stamped stamp counter family) {later : ℕ} {grown : ι → List V}
    (growth : Appends stamp counter later family grown) : Stamped stamp later grown := by
  obtain ⟨fresh, shape, above, freshStamped⟩ := growth.grown
  -- A stamp of an old version lies at or below `counter`, a fresh one above it.
  have apart : ∀ i j, ∀ v ∈ family i, ∀ w ∈ fresh j, stamp v < stamp w := fun i j v hv w hw =>
    (stamped.bounded i v hv).trans_lt (above j w hw)
  constructor
  · intro i
    rw [shape, List.pairwise_append]
    exact ⟨stamped.increasing i, freshStamped.increasing i, fun v hv w hw => apart i i v hv w hw⟩
  · intro i v member
    rw [shape, List.mem_append] at member
    rcases member with old | new
    · exact (stamped.bounded i v old).trans growth.counter_le
    · exact freshStamped.bounded i v new
  · intro i j v hv w hw same
    rw [shape, List.mem_append] at hv hw
    rcases hv with hv | hv <;> rcases hw with hw | hw
    · exact stamped.disjoint i j v hv w hw same
    · exact absurd same (apart i j v hv w hw).ne
    · exact absurd same.symm (apart j i w hw v hv).ne
    · exact freshStamped.disjoint i j v hv w hw same

/-- What was appended to a well-stamped family are the versions stamped after the
counter. -/
theorem filter_fresh (stamped : Stamped stamp counter family) {grown fresh : ι → List V}
    (shape : ∀ i, grown i = family i ++ fresh i) (above : ∀ i, ∀ v ∈ fresh i, counter < stamp v)
    (i : ι) : (grown i).filter (fun v => decide (counter < stamp v)) = fresh i := by
  have drops : (family i).filter (fun v => decide (counter < stamp v)) = [] :=
    List.filter_eq_nil_iff.mpr fun v member => by simpa using stamped.bounded i v member
  have keeps : (fresh i).filter (fun v => decide (counter < stamp v)) = fresh i :=
    List.filter_eq_self.mpr fun v member => by simpa using above i v member
  rw [shape, List.filter_append, drops, keeps, List.nil_append]

end Stamped

namespace Appends

variable {before middle after : ℕ} {old mid new : ι → List V}

theorem bump (counter_le : before ≤ after) (family : ι → List V) :
    Appends stamp before after family family where
  counter_le := counter_le
  grown := ⟨fun _ => [], by simp, by simp, Stamped.empty after⟩

theorem refl (counter : ℕ) (family : ι → List V) : Appends stamp counter counter family family :=
  bump le_rfl family

theorem trans (first : Appends stamp before middle old mid)
    (second : Appends stamp middle after mid new) : Appends stamp before after old new := by
  obtain ⟨fresh, shape, above, stamped⟩ := first.grown
  obtain ⟨fresh', shape', above', stamped'⟩ := second.grown
  refine ⟨first.counter_le.trans second.counter_le, fun i => fresh i ++ fresh' i, ?_, ?_, ?_⟩
  · intro i
    rw [shape', shape, List.append_assoc]
  · intro i v member
    rcases List.mem_append.mp member with early | late
    · exact above i v early
    · exact first.counter_le.trans_lt (above' i v late)
  · -- The two fresh families are stamped one after the other.
    exact stamped.appends ⟨second.counter_le, fresh', fun _ => rfl, above', stamped'⟩

/-- One version goes to the end of one history, under the next stamp. -/
theorem push [DecidableEq ι] (key : ι) (version : V) (next : stamp version = before + 1)
    (shape : ∀ i, new i = old i ++ if i = key then [version] else []) :
    Appends stamp before (before + 1) old new := by
  refine ⟨Nat.le_succ before, fun i => if i = key then [version] else [], shape, ?_, ?_, ?_, ?_⟩
  · intro i v member
    dsimp only at member
    split at member
    · rw [List.mem_singleton.mp member, next]
      exact Nat.lt_succ_self before
    · simp at member
  · intro i
    split
    · exact List.pairwise_singleton _ _
    · exact List.Pairwise.nil
  · intro i v member
    split at member
    · exact (List.mem_singleton.mp member ▸ next).le
    · simp at member
  · intro i j v hv w hw _
    split at hv <;> split at hw <;> simp_all

theorem keeps_old (growth : Appends stamp before after old new) (i : ι) : old i <+: new i := by
  obtain ⟨fresh, shape, -, -⟩ := growth.grown
  exact ⟨fresh i, (shape i).symm⟩

end Appends

/-! ## Dense runs of the counter -/

/-- The stamps are exactly the values after `before`, up to `after`, in order. -/
structure Dense (before after : ℕ) (stamps : List ℕ) : Prop where
  counter_le : before ≤ after
  exact_range : stamps = List.range' (before + 1) (after - before)

namespace Dense

variable {before middle after : ℕ} {stamps more : List ℕ}

theorem nil (counter : ℕ) : Dense counter counter [] := ⟨le_rfl, by simp⟩

theorem single (counter : ℕ) : Dense counter (counter + 1) [counter + 1] :=
  ⟨Nat.le_succ counter, by simp⟩

theorem append (first : Dense before middle stamps) (second : Dense middle after more) :
    Dense before after (stamps ++ more) := by
  obtain ⟨le, rfl⟩ := first
  obtain ⟨le', rfl⟩ := second
  refine ⟨le.trans le', ?_⟩
  have start : middle + 1 = before + 1 + (middle - before) := by omega
  have total : after - before = (middle - before) + (after - middle) := by omega
  rw [start, List.range'_append_1, total]

theorem snoc (run : Dense before after stamps) :
    Dense before (after + 1) (stamps ++ [after + 1]) :=
  run.append (single after)

theorem mem_iff (run : Dense before after stamps) {n : ℕ} :
    n ∈ stamps ↔ before < n ∧ n ≤ after := by
  obtain ⟨counter_le, rfl⟩ := run
  rw [List.mem_range'_1]
  omega

theorem increasing (run : Dense before after stamps) : stamps.Pairwise (· < ·) := by
  obtain ⟨-, rfl⟩ := run
  exact List.pairwise_lt_range'

/-- The last stamp of a dense run is the counter after it. -/
theorem getLast {last : ℕ} (run : Dense before after stamps) (found : stamps.getLast? = some last) :
    last = after := by
  obtain ⟨counter_le, rfl⟩ := run
  rw [List.getLast?_range'] at found
  split at found
  · cases found
  · rw [Option.some.injEq] at found
    omega

/-- A dense run is determined by its ends; cutting its first stamp off moves the
lower end up by one. -/
theorem uncons {head : ℕ} (run : Dense before after (head :: stamps)) :
    head = before + 1 ∧ Dense (before + 1) after stamps := by
  obtain ⟨le, shape⟩ := run
  cases length : after - before with
  | zero => simp [length] at shape
  | succ n =>
      rw [length, List.range'_succ, List.cons.injEq] at shape
      refine ⟨shape.1, by omega, ?_⟩
      rw [shape.2]
      congr 1
      omega

/-- Cutting a front off a dense run leaves two dense runs that meet. -/
theorem split {front back : List ℕ} (run : Dense before after (front ++ back)) :
    Dense before (before + front.length) front ∧ Dense (before + front.length) after back := by
  induction front generalizing before with
  | nil => exact ⟨nil before, run⟩
  | cons head front ih =>
      obtain ⟨first, rest⟩ := run.uncons
      obtain ⟨early, late⟩ := ih rest
      have length : before + (head :: front).length = before + 1 + front.length := by
        rw [List.length_cons]
        omega
      rw [length, first]
      exact ⟨(single before).append early, late⟩

end Dense

end Library
