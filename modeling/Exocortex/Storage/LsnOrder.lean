import Exocortex.Storage.CallSpecs

/-!
# Sequence numbers order every history

Along every run of calls from a fresh store the stored rows stay well stamped: the
numbers increase along every history, lie within the counter, and no number is
carried by two stored versions. One call keeps this (`run_stamped`), so every run
does (`runAll_stamped`).

A call other than a rollback leaves every history a prefix of the one after it
(`run_keeps_histories`).
-/

namespace Exocortex

open Library InMemoryStorage

/-- The order of sequence numbers, history by history. -/
structure LsnOrdered (s : InMemoryStorage) : Prop where
  memories : ∀ id, (s.memories.history id).Pairwise fun v w => v.lsn.value < w.lsn.value
  relationships : ∀ id, (s.rels.history id).Pairwise fun v w => v.lsn.value < w.lsn.value
  memories_le : ∀ id, ∀ v ∈ s.memories.history id, v.lsn.value ≤ s.lsn
  relationships_le : ∀ id, ∀ v ∈ s.rels.history id, v.lsn.value ≤ s.lsn
  distinct : ∀ i j, ∀ v ∈ s.rows i, ∀ w ∈ s.rows j, v.lsn = w.lsn → i = j ∧ v = w

/-- Every history of one state starts the history of another. -/
structure KeepsHistories (s t : InMemoryStorage) : Prop where
  memories : ∀ id, s.memories.history id <+: t.memories.history id
  relationships : ∀ id, s.rels.history id <+: t.rels.history id

/-- A state whose rows are well stamped. -/
abbrev InMemoryStorage.WellStamped (s : InMemoryStorage) : Prop := Stamped Row.lsn s.lsn s.rows

variable {s : InMemoryStorage}

theorem LsnOrdered.of_wellStamped (stamped : s.WellStamped) : LsnOrdered s where
  memories id := (List.pairwise_map (f := Row.memory)).mp (stamped.increasing (.memory id))
  relationships id :=
    (List.pairwise_map (f := Row.relationship)).mp (stamped.increasing (.relationship id))
  memories_le id v member := stamped.bounded (.memory id) (.memory v) (List.mem_map_of_mem member)
  relationships_le id v member :=
    stamped.bounded (.relationship id) (.relationship v) (List.mem_map_of_mem member)
  distinct _ _ _ hv _ hw same := stamped.eq_of_stamp_eq hv hw same

theorem KeepsHistories.of_grows {t : InMemoryStorage} (grows : s.Grows t) : KeepsHistories s t where
  memories id :=
    (List.prefix_map_iff_of_injective Row.memory_injective).mp (grows.keeps_old (.memory id))
  relationships id :=
    (List.prefix_map_iff_of_injective Row.relationship_injective).mp
      (grows.keeps_old (.relationship id))

namespace Call

theorem wellStamped_new : WellStamped .new where
  increasing row := by cases row <;> exact List.Pairwise.nil
  bounded row v member := by cases row <;> cases member
  disjoint row _ v member := by cases row <;> cases member

/-- The section of a call keeps the rows well stamped and the counter rising. -/
theorem gated_stamped (env : Env) (now : DateTime) (stamped : s.WellStamped) (call : Call) :
    (call.gated env now s).post.WellStamped ∧ s.lsn ≤ (call.gated env now s).post.lsn := by
  have sound := gated_sound env now s call
  by_cases restore : call.IsRestore
  · obtain ⟨counter_le, sub⟩ := sound.sublist restore
    exact ⟨stamped.sublist counter_le sub, counter_le⟩
  · exact ⟨stamped.appends (sound.grows restore), (sound.grows restore).counter_le⟩

theorem run_stamped (env : Env) (now : DateTime) (stamped : s.WellStamped) (call : Call) :
    (call.run env now s).2.WellStamped ∧ s.lsn ≤ (call.run env now s).2.lsn := by
  obtain ⟨rows, lsn⟩ := run_rows env now s call
  rw [WellStamped, rows, lsn]
  exact gated_stamped env now stamped call

theorem run_keeps_histories (env : Env) (now : DateTime) (s : InMemoryStorage) {call : Call}
    (notRestore : ¬ call.IsRestore) : KeepsHistories s (call.run env now s).2 := by
  obtain ⟨rows, lsn⟩ := run_rows env now s call
  refine .of_grows ?_
  rw [Grows, rows, lsn]
  exact (gated_sound env now s call).grows notRestore

theorem runAll_stamped (env : Env) (calls : List (DateTime × Call)) :
    (runAll env .new calls).WellStamped := by
  apply List.foldlRecOn calls _ wellStamped_new
  intro s stamped call _
  exact (run_stamped env call.1 stamped call.2).1

/-- **Sequence numbers order the store.** In every state a run reaches the numbers
are ordered, and the next call, whatever it is, does not lower the counter and,
unless it is a rollback, only appends to histories. -/
theorem runAll_lsnOrdered (env : Env) (calls : List (DateTime × Call)) :
    LsnOrdered (runAll env .new calls) ∧
      ∀ now call,
        (runAll env .new calls).lsn ≤ (run env now (runAll env .new calls) call).2.lsn ∧
          (¬ call.IsRestore → KeepsHistories (runAll env .new calls)
            (run env now (runAll env .new calls) call).2) := by
  have stamped := runAll_stamped env calls
  refine ⟨.of_wellStamped stamped, fun now call => ⟨?_, fun notRestore => ?_⟩⟩
  · exact (run_stamped env now stamped call).2
  · exact run_keeps_histories env now _ notRestore

end Call

end Exocortex
