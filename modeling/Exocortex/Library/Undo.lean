import Exocortex.Library.Stamps

/-!
# Undoing writes by their stamps

A family of stamped histories is written to by owners whose writes may still be
undone. `full` is the family as if nothing was ever removed, `rows` is what is
stored, `pending` holds of the stamps whose writes are still to be undone, and a log,
which may be active, lists stamps it owns.

`UndoLog` ties them: what is missing is pending, what the log owns is pending, and
what is pending and still stored is owned by the active log. So when the log is not
active, the stored family is the full one without the pending writes
(`UndoLog.exact`), and at any time it has all the others (`UndoLog.keeps`).

Writing, undoing, retiring the log and settling an owner all keep the tie.
-/

namespace Library

variable {ι V : Type*} {stamp : V → ℕ}

/-- A sublist of a list without repetitions that has all members of a kind contains
them in order. -/
theorem filter_sublist_of_sublist {keep : V → Bool} {rows full : List V}
    (sub : rows.Sublist full) (distinct : full.Nodup)
    (has : ∀ v ∈ full, keep v → v ∈ rows) : (full.filter keep).Sublist rows := by
  induction sub with
  | slnil => exact List.Sublist.slnil
  | cons a sub ih =>
      obtain ⟨fresh, distinct⟩ := List.nodup_cons.mp distinct
      have dropped : ¬ keep a := fun keeps =>
        fresh (sub.subset (has a List.mem_cons_self keeps))
      rw [List.filter_cons_of_neg dropped]
      exact ih distinct fun v member => has v (List.mem_cons_of_mem a member)
  | cons_cons a sub ih =>
      obtain ⟨fresh, distinct⟩ := List.nodup_cons.mp distinct
      have rest := ih distinct fun v member keeps =>
        (List.mem_cons.mp (has v (List.mem_cons_of_mem a member) keeps)).resolve_left
          fun same => fresh (same ▸ member)
      rw [List.filter_cons]
      split
      · exact rest.cons_cons a
      · exact rest.cons a

variable (stamp)

/-- The stored rows against the full run, the stamps to be undone, and the log. -/
structure UndoLog (counter : ℕ) (full rows : ι → List V) (pending : ℕ → Prop)
    (owned : ι → Finset ℕ) (active : Prop) : Prop where
  stamped : Stamped stamp counter full
  kept : ∀ i, (rows i).Sublist (full i)
  missing : ∀ i, ∀ v ∈ full i, v ∉ rows i → pending (stamp v)
  bounded : ∀ n, pending n → n ≤ counter
  owns : ∀ i, ∀ n ∈ owned i, pending n
  covered : ∀ i, ∀ v ∈ rows i, pending (stamp v) → active ∧ stamp v ∈ owned i

variable {stamp}

namespace UndoLog

variable {counter later : ℕ} {full rows full' rows' : ι → List V} {pending pending' : ℕ → Prop}
  {owned owned' : ι → Finset ℕ} {active active' : Prop}

section Logged

variable (log : UndoLog stamp counter full rows pending owned active)
include log

theorem stamped_rows : Stamped stamp counter rows :=
  log.stamped.sublist le_rfl log.kept

/-- Whatever is not to be undone is stored, in the order it was written. -/
theorem keeps [DecidablePred pending] (i : ι) :
    ((full i).filter fun v => decide (¬ pending (stamp v))).Sublist (rows i) := by
  refine filter_sublist_of_sublist (log.kept i) ?_ fun v member keep => ?_
  · exact (log.stamped.increasing i).imp fun lt same => absurd (same ▸ lt) (lt_irrefl _)
  · by_contra gone
    exact of_decide_eq_true keep (log.missing i v member gone)

/-- Without an active log the stored rows are the full run less what is to be
undone. -/
theorem exact [DecidablePred pending] (idle : ¬ active) (i : ι) :
    rows i = (full i).filter fun v => decide (¬ pending (stamp v)) := by
  refine List.Sublist.antisymm ?_ (log.keeps i)
  have none : (rows i).filter (fun v => decide (¬ pending (stamp v))) = rows i :=
    List.filter_eq_self.mpr fun v member => decide_eq_true fun still =>
      idle (log.covered i v member still).1
  rw [← none]
  exact (log.kept i).filter _

/-- New rows are appended to what is stored and to the full run alike. -/
theorem grow (growth : Appends stamp counter later rows rows')
    (grown : ∀ i, full' i = full i ++ (rows' i).filter fun v => decide (counter < stamp v)) :
    UndoLog stamp later full' rows' pending owned active := by
  obtain ⟨fresh, shape, above, stamped⟩ := growth.grown
  have fresh_eq : ∀ i, (rows' i).filter (fun v => decide (counter < stamp v)) = fresh i :=
    log.stamped_rows.filter_fresh shape above
  have full_eq : ∀ i, full' i = full i ++ fresh i := fun i => by rw [grown, fresh_eq]
  constructor
  · exact log.stamped.appends ⟨growth.counter_le, fresh, full_eq, above, stamped⟩
  · intro i
    rw [full_eq, shape]
    exact (log.kept i).append (List.Sublist.refl _)
  · intro i v member gone
    rw [full_eq, List.mem_append] at member
    rw [shape, List.mem_append, not_or] at gone
    exact log.missing i v (member.resolve_right gone.2) gone.1
  · exact fun n still => (log.bounded n still).trans growth.counter_le
  · exact log.owns
  · intro i v member still
    rw [shape, List.mem_append] at member
    rcases member with old | new
    · exact log.covered i v old still
    · exact absurd (log.bounded _ still) (not_le.mpr (above i v new))

/-- The stamps just taken become pending, and the log, now active, owns them. -/
theorem take (growth : Appends stamp counter later rows rows')
    (grown : ∀ i, full' i = full i ++ (rows' i).filter fun v => decide (counter < stamp v))
    (wider : ∀ n, pending' n ↔ pending n ∨ counter < n ∧ n ≤ later)
    (keeps : ∀ i, owned i ⊆ owned' i) (owns : ∀ i, ∀ n ∈ owned' i, pending' n)
    (new : ∀ i, ∀ v ∈ rows' i, counter < stamp v → stamp v ∈ owned' i) (live : active') :
    UndoLog stamp later full' rows' pending' owned' active' := by
  have grew := log.grow growth grown
  refine ⟨grew.stamped, grew.kept, ?_, ?_, owns, ?_⟩
  · intro i v member gone
    exact (wider _).mpr (.inl (grew.missing i v member gone))
  · intro n still
    rcases (wider n).mp still with old | fresh
    · exact grew.bounded n old
    · exact fresh.2
  · intro i v member still
    refine ⟨live, ?_⟩
    rcases (wider _).mp still with old | fresh
    · exact keeps i (grew.covered i v member old).2
    · exact new i v member fresh.1

/-- Pending rows are removed by their stamps. -/
theorem undo (counter_le : counter ≤ later) {gone : ι → Finset ℕ}
    (undone : ∀ i, ∀ n ∈ gone i, pending n)
    (left : ∀ i, rows' i = (rows i).filter fun v => decide (stamp v ∉ gone i)) :
    UndoLog stamp later full rows' pending owned active := by
  have fewer : ∀ i, (rows' i).Sublist (rows i) := fun i => by
    rw [left]
    exact List.filter_sublist
  constructor
  · exact log.stamped.sublist counter_le fun i => List.Sublist.refl _
  · exact fun i => (fewer i).trans (log.kept i)
  · intro i v member absent
    by_cases before : v ∈ rows i
    · apply undone i _
      by_contra outside
      exact absent (by rw [left]; exact List.mem_filter.mpr ⟨before, decide_eq_true outside⟩)
    · exact log.missing i v member before
  · exact fun n still => (log.bounded n still).trans counter_le
  · exact log.owns
  · exact fun i v member => log.covered i v ((fewer i).subset member)

/-- Once nothing pending is stored, the log may be retired. -/
theorem retire (clean : ∀ i, ∀ v ∈ rows i, ¬ pending (stamp v)) :
    UndoLog stamp counter full rows pending owned active' :=
  { log with covered := fun i v member still => absurd still (clean i v member) }

/-- An owner is settled: its stamps are no longer pending, and the log is cleared. -/
theorem settle (counter_le : counter ≤ later) (fewer : ∀ n, pending' n → pending n)
    (missing : ∀ i, ∀ v ∈ full i, v ∉ rows i → pending' (stamp v))
    (clean : ∀ i, ∀ v ∈ rows i, ¬ pending' (stamp v)) (cleared : ∀ i, owned' i = ∅) :
    UndoLog stamp later full rows pending' owned' active' where
  stamped := log.stamped.sublist counter_le fun i => List.Sublist.refl _
  kept := log.kept
  missing := missing
  bounded n still := (log.bounded n (fewer n still)).trans counter_le
  owns i n member := by simp [cleared] at member
  covered i v member still := absurd still (clean i v member)

end Logged

end UndoLog

end Library
