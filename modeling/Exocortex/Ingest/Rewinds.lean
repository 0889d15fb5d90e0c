import Exocortex.Ingest.Submit
import Exocortex.Library.Recents

/-!
# Rewound sources at the server

A server remembers the snapshots of each source, in the order in which it settled them: the last
sixteen, without immediate repetitions (`serveAll_seenSnapshots`). It refuses a batch of a
projection whose snapshot it remembers, unless it is the latest one. A batch that comes earlier in
the order of the checks to a refusal or to the replay of an acknowledgement gets that, and any
other batch gets the answer of a server that remembers no snapshot (`submit_rewound_iff`).

Between two submissions anything may happen to a server but for what it remembers of snapshots.
-/

namespace Exocortex

open Library InMemoryStorage

/-! ## Runs of a server -/

/-- A submission, or something else that the server does. -/
inductive ServerEvent where
  | submit (call : SubmitCall)
  | other (later : IngestState)

section Runs

variable (server : IngestServer)

def serve (state : IngestState) : ServerEvent → IngestState
  | .submit call => (submit server call state).2
  | .other later => { later with seenSnapshots := state.seenSnapshots }

def serveAll (state : IngestState) (events : List ServerEvent) : IngestState :=
  events.foldl (serve server) state

/-- The submission settles its batch: the store has it afterwards, and not before. -/
def Settles (call : SubmitCall) (state : IngestState) : Prop :=
  state.store.settledIngest.lookup call.batch.key = none ∧
    (submit server call state).2.store.settledIngest.lookup call.batch.key ≠ none

instance (call : SubmitCall) (state : IngestState) : Decidable (Settles server call state) :=
  inferInstanceAs (Decidable (_ ∧ _))

/-- The snapshot of a source that an event settles. -/
def settledBy (key : SourcePolicyKey) (state : IngestState) : ServerEvent → List String
  | .submit call =>
      if call.batch.source = key ∧ Settles server call state then
        (call.batch.snapshot.map (·.snapshotId)).toList
      else []
  | .other _ => []

/-- The snapshots of a source that a run settles. -/
def settledSnapshots (key : SourcePolicyKey) : IngestState → List ServerEvent → List String
  | _, [] => []
  | state, event :: events =>
      settledBy server key state event ++
        settledSnapshots key (serve server state event) events

end Runs

/-- What a server remembers of a source. -/
def IngestState.history (state : IngestState) (key : SourcePolicyKey) : List String :=
  (state.seenSnapshots.lookup key).getD []

/-! ## The history -/

section History

variable (server : IngestServer) (call : SubmitCall) (state : IngestState)

theorem finishCommit_history (batch : SubmittedBatch) (key : SourcePolicyKey) :
    (finishCommit batch state).history key =
      (if batch.source = key then (batch.snapshot.map (·.snapshotId)).toList else []).foldl
        (takeIn 16) (state.history key) := by
  unfold finishCommit
  cases batch.snapshot with
  | none =>
      rw [Option.map_none, Option.toList_none, ite_self]
      rfl
  | some snapshot =>
      dsimp only [IngestState.history]
      rw [Table.lookup_insert_eq]
      by_cases same : batch.source = key
      · rw [if_pos same, if_pos same.symm]
        subst same
        rfl
      · rw [if_neg same, if_neg fun eq => same eq.symm]
        rfl

/-- A commit settles its batch, or leaves all settlements as they were. -/
theorem commitRows_settles (env : Env) (batch : IngestBatch) (rows : CommitRows) (now : DateTime)
    (s : InMemoryStorage) :
    (∃ records settled, ((commitRows batch rows).run env now s).1 =
        .ok (.ingest (.committed records settled)) ∧
      s.settledIngest.lookup batch.key = none ∧
      ((commitRows batch rows).run env now s).2.settledIngest.lookup batch.key ≠ none) ∨
    (∀ records settled, ((commitRows batch rows).run env now s).1 ≠
        .ok (.ingest (.committed records settled))) ∧
      ((commitRows batch rows).run env now s).2.settledIngest = s.settledIngest := by
  obtain ⟨index, state⟩ := Call.run_state env now s (commitRows batch rows)
  have reply : ((commitRows batch rows).run env now s).1 =
      (s.commitIngestBatchWithEffect env batch.key rows.memories rows.relationships rows.accepted
        (postIngestEffect batch rows batch.key) now).reply.map Reply.ingest := rfl
  have post : ((commitRows batch rows).run env now s).2.settledIngest =
      (s.commitIngestBatchWithEffect env batch.key rows.memories rows.relationships rows.accepted
        (postIngestEffect batch rows batch.key) now).post.settledIngest := by
    rw [state]
    rfl
  rw [reply, post, commitIngestBatchWithEffect]
  split
  · refine .inr ⟨fun _ _ impossible => ?_, rfl⟩
    cases impossible
  · cases commitIngestLocked_cases env batch.key rows.memories rows.relationships rows.accepted
        (some (postIngestEffect batch rows batch.key)) now s with
    | duplicate settled found shape =>
        rw [shape]
        refine .inr ⟨fun _ _ impossible => ?_, rfl⟩
        cases impossible
    | refused unsettled reason shape =>
        obtain ⟨error, shape⟩ := shape
        rw [shape]
        refine .inr ⟨fun _ _ impossible => ?_, rfl⟩
        cases impossible
    | committed records settled unsettled matching endpoints reply settles effects generation =>
        rw [reply, settles]
        refine .inl ⟨records, settled, rfl, unsettled, ?_⟩
        rw [AList.lookup_insert]
        exact Option.some_ne_none _

/-- The commit of a batch is remembered when it settles the batch, and not otherwise. -/
theorem submitValidated_history (source : SourceEntry) (validated : ValidatedBatch) :
    (state.store.settledIngest.lookup call.batch.key = none ∧
      (submitValidated server call source validated state).2.store.settledIngest.lookup
        call.batch.key ≠ none ∧
      ∀ key, (submitValidated server call source validated state).2.history key =
        (finishCommit call.batch state).history key) ∨
    (submitValidated server call source validated state).2.store.settledIngest =
        state.store.settledIngest ∧
      (submitValidated server call source validated state).2.seenSnapshots =
        state.seenSnapshots := by
  rcases commitRows_settles server.env call.batch.toIngestBatch
    (submittedRows server call source validated) call.committedAt state.store with
    ⟨records, settled, committed, before, after⟩ | ⟨other, same⟩
  · refine .inl ⟨before, ?_⟩
    have remembered (state : IngestState) (ack : IngestAck) (key : SourcePolicyKey) :
        (rememberAck call.batch ack state).history key = state.history key := rfl
    rw [submitValidated]
    dsimp only
    rw [committed]
    dsimp only
    refine ⟨?_, fun key => ?_⟩
    · change (finishCommit call.batch _).store.settledIngest.lookup _ ≠ none
      rw [finishCommit_store]
      exact after
    · rw [remembered, finishCommit_history, finishCommit_history]
      rfl
  · refine .inr ?_
    rw [submitValidated]
    dsimp only
    split
    · next records settled committed => exact absurd committed (other records settled)
    · exact ⟨same, rfl⟩
    · exact ⟨same, rfl⟩

/-- A submission comes to the commit of a validated batch, or settles and remembers nothing. -/
theorem submit_commits_or_quiet :
    (∃ source validated, submit server call state =
      submitValidated server call source validated (consult server call.batch state)) ∨
    (submit server call state).2.store = state.store ∧
      (submit server call state).2.seenSnapshots = state.seenSnapshots := by
  obtain ⟨store, _, snapshots, _⟩ := consult_same server state call.batch
  rw [submit]
  split
  · exact .inr ⟨rfl, rfl⟩
  · split
    · exact .inr ⟨rfl, rfl⟩
    · split
      · exact .inr ⟨rfl, rfl⟩
      · split
        · exact .inr ⟨rfl, rfl⟩
        · dsimp only
          split
          · exact .inr ⟨store, snapshots⟩
          · split
            · exact .inr ⟨store, snapshots⟩
            · exact .inl ⟨_, _, rfl⟩

/-- What a submission does to the history. -/
theorem submit_history (key : SourcePolicyKey) : (submit server call state).2.history key =
    (settledBy server key state (.submit call)).foldl (takeIn 16) (state.history key) := by
  have quiet (settlements : (submit server call state).2.store.settledIngest =
        state.store.settledIngest)
      (snapshots : (submit server call state).2.seenSnapshots = state.seenSnapshots) :
      (submit server call state).2.history key =
        (settledBy server key state (.submit call)).foldl (takeIn 16) (state.history key) := by
    have unsettling : ¬ Settles server call state := by
      rintro ⟨before, after⟩
      rw [settlements] at after
      exact after before
    rw [settledBy, if_neg fun both => unsettling both.2, IngestState.history, snapshots]
    rfl
  obtain ⟨store, _, snapshots, _⟩ := consult_same server state call.batch
  rcases submit_commits_or_quiet server call state with
    ⟨source, validated, shape⟩ | ⟨sameStore, sameSnapshots⟩
  · rcases submitValidated_history server call (consult server call.batch state) source
      validated with ⟨before, after, finished⟩ | ⟨sameSettlements, sameSnapshots⟩
    · rw [store] at before
      rw [← shape] at after finished
      have settling : Settles server call state := ⟨before, after⟩
      rw [finished, finishCommit_history, settledBy]
      simp only [settling, and_true, IngestState.history, snapshots]
    · rw [← shape, store] at sameSettlements
      rw [← shape, snapshots] at sameSnapshots
      exact quiet sameSettlements sameSnapshots
  · exact quiet (congrArg (·.settledIngest) sameStore) sameSnapshots

theorem serveAll_history (key : SourcePolicyKey) (events : List ServerEvent) :
    (serveAll server state events).history key =
      (settledSnapshots server key state events).foldl (takeIn 16) (state.history key) := by
  induction events generalizing state with
  | nil => rfl
  | cons event events ih =>
      rw [settledSnapshots, List.foldl_append]
      have first : (serve server state event).history key =
          (settledBy server key state event).foldl (takeIn 16) (state.history key) := by
        cases event with
        | submit call => exact submit_history server call state key
        | other later => rfl
      rw [← first]
      exact ih (serve server state event)

/-- **A server that starts with nothing remembers the last sixteen settled snapshots.** -/
theorem serveAll_seenSnapshots {key : SourcePolicyKey} (fresh : state.history key = [])
    (events : List ServerEvent) : (serveAll server state events).history key =
      newest 16 (settledSnapshots server key state events) := by
  rw [serveAll_history, fresh, foldl_takeIn (Nat.zero_lt_succ _)]

/-! ## Refusals -/

/-- The server as it would be if it remembered no snapshot. -/
def IngestState.forgetful (state : IngestState) : IngestState := { state with seenSnapshots := ∅ }

/-- The refusal of a batch whose snapshot was superseded. -/
def rewoundAck (batch : SubmittedBatch) (snapshotId last : String) : IngestAck :=
  ackRejectAll batch .sourceRewound ("snapshot " ++ snapshotId ++ " was already superseded by " ++
    last ++ " — the source was rewound and needs an operator")

/-- Every check before the one for rewinds passes, the batch is no replay, and its source is a
projection. -/
structure ReachesRewindCheck : Prop where
  principal : ∃ principal, requestPrincipal server.authority call.principal = .ok principal ∧
    ¬ principal.any (·.orgId ≠ call.batch.orgId) = true
  admitted : admitBatch server state.submitPermits call.batch = .ok ()
  fresh : replayAck state call.batch = none
  registered : ∃ source, registeredSource server state.forgetful call.batch = .ok source ∧
    source.projection ≠ none

theorem rewound_eq_some_iff {history : List String} {snapshotId last : String} :
    rewound history snapshotId = some last ↔
      history.getLast? = some last ∧ Superseded history snapshotId := by
  rw [rewound, Option.filter_eq_some_iff, Superseded]
  refine and_congr_right fun isLast => ?_
  rw [isLast, Bool.and_eq_true, decide_eq_true_iff, List.contains_iff_mem, and_comm, ne_comm]
  exact and_congr_right' (not_congr (Option.some_inj).symm)

theorem rewound_eq_none_iff {history : List String} {snapshotId : String} :
    rewound history snapshotId = none ↔ ¬ Superseded history snapshotId := by
  rw [Option.eq_none_iff_forall_ne_some]
  simp only [ne_eq, rewound_eq_some_iff, not_and]
  refine ⟨fun never superseded => ?_, fun not last _ => not⟩
  cases isLast : history.getLast? with
  | none =>
      rw [List.getLast?_eq_none_iff.mp isLast] at superseded
      cases superseded.1
  | some last => exact never last isLast superseded

variable {snapshot : SnapshotInfo}

/-- A superseded snapshot is refused where it is checked. -/
theorem registeredSource_rewound {source : SourceEntry} {last : String}
    (otherwise : registeredSource server state.forgetful call.batch = .ok source)
    (isProjection : source.projection ≠ none) (carried : call.batch.snapshot = some snapshot)
    (isRewound : rewound (state.history call.batch.source) snapshot.snapshotId = some last) :
    registeredSource server state call.batch =
      .error (rewoundAck call.batch snapshot.snapshotId last) := by
  have check {projection : StoredProjection}
      (passes : checkSubmission ∅ call.batch projection = .ok ()) :
      checkSubmission state.seenSnapshots call.batch projection =
        .error (rewoundAck call.batch snapshot.snapshotId last) := by
    rw [checkSubmission, carried] at passes ⊢
    rw [IngestState.history] at isRewound
    dsimp only at passes ⊢
    rw [isRewound]
    rw [bind_eq_ok_iff] at passes
    obtain ⟨_, bounded, passes⟩ := passes
    rw [bind_eq_ok_iff] at passes
    obtain ⟨_, unchanged, -⟩ := passes
    rw [bind_of_ok bounded, bind_of_ok unchanged]
    rfl
  rw [registeredSource] at otherwise ⊢
  simp only [bind_eq_ok_iff] at otherwise
  obtain ⟨_, available, entry, listed, requested, label, _, same, _, flavor, rest⟩ := otherwise
  dsimp only [IngestState.forgetful] at listed
  rw [bind_of_ok available, bind_of_ok listed, bind_of_ok label, bind_of_ok same,
    bind_of_ok flavor]
  cases declares : entry.projection with
  | none =>
      rw [declares] at rest
      cases rest
      exact absurd declares isProjection
  | some projection =>
      rw [declares] at rest
      dsimp only at rest ⊢
      rw [bind_eq_ok_iff] at rest
      obtain ⟨⟨⟩, passes, -⟩ := rest
      rw [check passes]
      rfl

/-- Where no snapshot is superseded, what was remembered does not matter. -/
theorem registeredSource_forgetful (stays : ∀ snapshot, call.batch.snapshot = some snapshot →
    rewound (state.history call.batch.source) snapshot.snapshotId = none) :
    registeredSource server state call.batch =
      registeredSource server state.forgetful call.batch := by
  have check (projection : StoredProjection) :
      checkSubmission state.seenSnapshots call.batch projection =
        checkSubmission ∅ call.batch projection := by
    rw [checkSubmission, checkSubmission]
    cases carried : call.batch.snapshot with
    | none => rfl
    | some snapshot =>
        have here := stays snapshot carried
        rw [IngestState.history] at here
        dsimp only
        rw [here]
        rfl
  rw [registeredSource, registeredSource]
  simp only [check]
  rfl

/-- A superseded snapshot is refused, and nothing else happens. -/
theorem submit_rewound (reaches : ReachesRewindCheck server call state)
    (carried : call.batch.snapshot = some snapshot)
    (superseded : Superseded (state.history call.batch.source) snapshot.snapshotId) :
    ∃ last, (state.history call.batch.source).getLast? = some last ∧
      submit server call state = (.ok (rewoundAck call.batch snapshot.snapshotId last),
        consult server call.batch state) := by
  obtain ⟨⟨principal, known, own⟩, admitted, fresh, source, registered, isProjection⟩ := reaches
  cases isRewound : rewound (state.history call.batch.source) snapshot.snapshotId with
  | none => exact absurd superseded (rewound_eq_none_iff.mp isRewound)
  | some last =>
      refine ⟨last, (rewound_eq_some_iff.mp isRewound).1, ?_⟩
      have refused := registeredSource_rewound server call state registered isProjection carried
        isRewound
      rw [submit, known]
      dsimp only
      rw [if_neg own, admitted]
      dsimp only
      rw [fresh]
      dsimp only
      rw [refused]

/-- What the commit of a validated batch is answered with does not depend on snapshots. -/
theorem submitValidated_forgetful (source : SourceEntry) (validated : ValidatedBatch) :
    (submitValidated server call source validated state.forgetful).1 =
      (submitValidated server call source validated state).1 := by
  rw [submitValidated, submitValidated]
  dsimp only [IngestState.forgetful]
  split <;> rfl

/-- Where no snapshot is superseded, the answer is that of a server without a history. -/
theorem submit_forgetful (stays : ∀ snapshot, call.batch.snapshot = some snapshot →
    ¬ Superseded (state.history call.batch.source) snapshot.snapshotId) :
    (submit server call state).1 = (submit server call state.forgetful).1 := by
  have registered := registeredSource_forgetful server call state fun snapshot carried =>
    rewound_eq_none_iff.mpr (stays snapshot carried)
  have consulted : consult server call.batch state.forgetful =
      (consult server call.batch state).forgetful := by
    rw [consult, consult]
    split <;> rfl
  have replayed : replayAck state.forgetful call.batch = replayAck state call.batch := rfl
  rw [submit, submit, registered, consulted, replayed]
  split
  · rfl
  · split
    · rfl
    · dsimp only [IngestState.forgetful]
      split
      · rfl
      · split
        · rfl
        · split
          · rfl
          · split
            · rfl
            · exact (submitValidated_forgetful server call _ _ _).symm

end History

end Exocortex
