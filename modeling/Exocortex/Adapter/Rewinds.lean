import Exocortex.Adapter.Settlement
import Exocortex.Ingest.Rewinds

/-!
# Rewound sources in a session

A session with declared bounds looks at the snapshots of a window before it builds a batch: one
that it remembers, and that is not the latest one, fails the window. It remembers the last sixteen
snapshots that its windows delivered, without immediate repetitions. The server does the same with
the batches that it settles. So a rewind is seen as long as it does not go back further than that
(`rewinds_detected`).
-/

namespace Exocortex

open Library

/-! ## Runs of a session -/

/-- A window, with what happens outside of the session while it is submitted. -/
structure WindowCall where
  outside : Surroundings
  files : Files
  units : List ChangeUnit
  cursor : String

def unitSnapshots (units : List ChangeUnit) : List String :=
  units.filterMap fun unit => unit.snapshot.map (·.snapshotId)

section Runs

variable (prepareBatches : AdapterSession → List ChangeUnit → Except SdkError (List SubmittedBatch))

def submitCall (session : AdapterSession) (call : WindowCall) :
    Except SdkError WindowOutcome × AdapterSession × Files :=
  submitWindow prepareBatches session call.outside call.files call.units call.cursor

def submitWindows (session : AdapterSession) (calls : List WindowCall) : AdapterSession :=
  calls.foldl (fun session call => (submitCall prepareBatches session call).2.1) session

/-- The snapshots that a window delivers: those of its units when it succeeds, and none else. -/
def deliveredBy (session : AdapterSession) (call : WindowCall) : List String :=
  match (submitCall prepareBatches session call).1 with
  | .ok _ => unitSnapshots call.units
  | .error _ => []

/-- The snapshots that a session delivers. -/
def deliveredSnapshots : AdapterSession → List WindowCall → List String
  | _, [] => []
  | session, call :: calls =>
      deliveredBy prepareBatches session call ++
        deliveredSnapshots (submitCall prepareBatches session call).2.1 calls

end Runs

/-! ## The history -/

section History

variable (prepareBatches : AdapterSession → List ChangeUnit → Except SdkError (List SubmittedBatch))

theorem foldl_recordSnapshot (units : List ChangeUnit) (seen : List String) :
    units.foldl recordSnapshot seen = (unitSnapshots units).foldl (takeIn 16) seen := by
  induction units generalizing seen with
  | nil => rfl
  | cons unit units ih =>
      rw [List.foldl_cons, ih, unitSnapshots, unitSnapshots, List.filterMap_cons, recordSnapshot]
      cases unit.snapshot with
      | none => rfl
      | some snapshot => rfl

theorem submitCall_seenSnapshots (session : AdapterSession) (call : WindowCall) :
    (submitCall prepareBatches session call).2.1.seenSnapshots =
      (deliveredBy prepareBatches session call).foldl (takeIn 16) session.seenSnapshots := by
  rw [deliveredBy, submitCall, submitWindow]
  split
  · rfl
  · split
    · rfl
    · exact foldl_recordSnapshot call.units session.seenSnapshots

theorem submitWindows_history (session : AdapterSession) (calls : List WindowCall) :
    (submitWindows prepareBatches session calls).seenSnapshots =
      (deliveredSnapshots prepareBatches session calls).foldl (takeIn 16)
        session.seenSnapshots := by
  induction calls generalizing session with
  | nil => rfl
  | cons call calls ih =>
      rw [deliveredSnapshots, List.foldl_append, ← submitCall_seenSnapshots]
      exact ih _

/-- **A new session remembers the last sixteen delivered snapshots.** -/
theorem submitWindows_seenSnapshots {session : AdapterSession} (new : session.seenSnapshots = [])
    (calls : List WindowCall) : (submitWindows prepareBatches session calls).seenSnapshots =
      newest 16 (deliveredSnapshots prepareBatches session calls) := by
  rw [submitWindows_history, new, foldl_takeIn (Nat.zero_lt_succ _)]

end History

/-! ## Refusals -/

/-- The session as it would be if it remembered no snapshot. -/
def AdapterSession.forgetful (session : AdapterSession) : AdapterSession :=
  { session with seenSnapshots := [] }

/-- The unit carries a superseded snapshot. -/
def ChangeUnit.Rewinds (unit : ChangeUnit) (seen : List String) : Prop :=
  ∃ snapshot, unit.snapshot = some snapshot ∧ Superseded seen snapshot.snapshotId

section Refusals

variable (prepareBatches : AdapterSession → List ChangeUnit → Except SdkError (List SubmittedBatch))
  (session : AdapterSession) (units : List ChangeUnit) (seen : List String)

theorem checkRewind_rewinds {unit : ChangeUnit} (rewinds : unit.Rewinds seen) :
    ∃ observed last, seen.getLast? = some last ∧ Superseded seen observed ∧
      checkRewind seen unit = .error (.sourceRewound observed last) := by
  obtain ⟨snapshot, carried, listed, other⟩ := rewinds
  cases isLast : seen.getLast? with
  | none =>
      rw [List.getLast?_eq_none_iff.mp isLast] at listed
      cases listed
  | some last =>
      refine ⟨snapshot.snapshotId, last, rfl, ⟨listed, other⟩, ?_⟩
      rw [isLast] at other
      rw [checkRewind, carried, isLast]
      exact if_pos ⟨fun same => other (congrArg some same.symm), listed⟩

theorem checkRewind_stays {unit : ChangeUnit} (stays : ¬ unit.Rewinds seen) :
    checkRewind seen unit = .ok () := by
  rw [checkRewind]
  split
  · next snapshot last carried isLast =>
      refine if_neg fun both => stays ⟨snapshot, carried, both.2, fun same => both.1 ?_⟩
      exact Option.some.inj (same.symm.trans isLast)
  · rfl

theorem forM_checkRewind (rewinds : ∃ unit ∈ units, unit.Rewinds seen) :
    ∃ observed last, seen.getLast? = some last ∧ Superseded seen observed ∧
      units.forM (checkRewind seen) = .error (.sourceRewound observed last) := by
  induction units with
  | nil =>
      obtain ⟨_, listed, _⟩ := rewinds
      cases listed
  | cons unit units ih =>
      rw [List.forM]
      by_cases first : unit.Rewinds seen
      · obtain ⟨observed, last, isLast, superseded, refused⟩ := checkRewind_rewinds seen first
        refine ⟨observed, last, isLast, superseded, ?_⟩
        rw [refused]
        rfl
      · rw [checkRewind_stays seen first]
        refine ih ?_
        obtain ⟨rewound, listed, superseded⟩ := rewinds
        rcases List.mem_cons.mp listed with rfl | listed
        · exact absurd superseded first
        · exact ⟨rewound, listed, superseded⟩

/-- Without a superseded snapshot, what was remembered does not matter. -/
theorem checkBounds_forgetful (stays : ¬ ∃ unit ∈ units, unit.Rewinds session.seenSnapshots) :
    checkBounds session units = checkBounds session.forgetful units := by
  have none_ (seen : List String) (stays : ¬ ∃ unit ∈ units, unit.Rewinds seen) :
      units.forM (checkRewind seen) = .ok () :=
    forM_eq_ok_iff.mpr fun unit listed =>
      checkRewind_stays seen fun rewinds => stays ⟨unit, listed, rewinds⟩
  have unseen : ¬ ∃ unit ∈ units, unit.Rewinds [] := by
    rintro ⟨_, _, _, _, listed, _⟩
    cases listed
  rw [checkBounds, checkBounds, none_ _ stays]
  dsimp only [AdapterSession.forgetful]
  rw [none_ _ unseen]

theorem checkBounds_rewound (declared : session.config.bounds ≠ none)
    (bounded : checkBounds session.forgetful units = .ok ())
    (rewinds : ∃ unit ∈ units, unit.Rewinds session.seenSnapshots) :
    ∃ observed last, session.seenSnapshots.getLast? = some last ∧
      Superseded session.seenSnapshots observed ∧
      checkBounds session units = .error (.sourceRewound observed last) := by
  obtain ⟨observed, last, isLast, superseded, refused⟩ := forM_checkRewind units _ rewinds
  refine ⟨observed, last, isLast, superseded, ?_⟩
  rw [checkBounds] at bounded ⊢
  dsimp only [AdapterSession.forgetful] at bounded
  cases isDeclared : session.config.bounds with
  | none => exact absurd isDeclared declared
  | some bounds =>
      rw [isDeclared] at bounded
      dsimp only at bounded ⊢
      by_cases overWindow : bounds.maxRowsPerWindow < windowRows units
      · rw [if_pos overWindow] at bounded
        cases bounded
      · rw [if_neg overWindow] at bounded ⊢
        by_cases overRun :
            bounds.maxRowsPerRun < saturatingAdd session.rowsThisRun (windowRows units)
        · rw [if_pos overRun] at bounded
          cases bounded
        · rw [if_neg overRun]
          exact refused

theorem submitCall_of_refused {error : SdkError} {call : WindowCall}
    (refused : checkWindow session call.units = .error error) :
    submitCall prepareBatches session call = (.error error, session, call.files) := by
  rw [submitCall, submitWindow, refused]
  rfl

end Refusals

/-! ## Rewinds -/

section Detection

variable (server : IngestServer) (start : IngestState) (events : List ServerEvent)
  (batch : SubmitCall)
  (prepareBatches : AdapterSession → List ChangeUnit → Except SdkError (List SubmittedBatch))
  (session : AdapterSession) (windows : List WindowCall) (window : WindowCall)

/-- What a server that has settled some snapshots makes of a batch. A batch that comes to the check
with one of the last sixteen, not the latest, is refused for it. A batch with the latest one, or
with none of the sixteen, is answered as by a server that remembers nothing. -/
structure ServerDetects (settled : List String) : Prop where
  refused : ReachesRewindCheck server batch (serveAll server start events) →
    ∀ snapshot, batch.batch.snapshot = some snapshot →
      snapshot.snapshotId ∈ newest 16 settled → settled.getLast? ≠ some snapshot.snapshotId →
        ∃ last, settled.getLast? = some last ∧
          submit server batch (serveAll server start events) =
            (.ok (rewoundAck batch.batch snapshot.snapshotId last),
              consult server batch.batch (serveAll server start events))
  passes : (∀ snapshot, batch.batch.snapshot = some snapshot →
      snapshot.snapshotId ∉ newest 16 settled ∨ settled.getLast? = some snapshot.snapshotId) →
    (submit server batch (serveAll server start events)).1 =
      (submit server batch (serveAll server start events).forgetful).1

/-- What a session that has delivered some snapshots makes of a window. A window within its bounds
with one of the last sixteen, not the latest, fails whatever happens outside. A window with none
such is checked as by a session that remembers nothing. -/
structure SessionDetects (delivered : List String) : Prop where
  refused : (submitWindows prepareBatches session windows).config.bounds ≠ none →
    checkBounds (submitWindows prepareBatches session windows).forgetful window.units = .ok () →
    (∃ id ∈ unitSnapshots window.units, id ∈ newest 16 delivered ∧
      delivered.getLast? ≠ some id) →
        ∃ observed last, delivered.getLast? = some last ∧ observed ∈ newest 16 delivered ∧
          observed ≠ last ∧ ∀ outside,
            submitCall prepareBatches (submitWindows prepareBatches session windows)
                { window with outside := outside } =
              (.error (.sourceRewound observed last),
                submitWindows prepareBatches session windows, window.files)
  passes : (∀ id ∈ unitSnapshots window.units,
      id ∉ newest 16 delivered ∨ delivered.getLast? = some id) →
    checkWindow (submitWindows prepareBatches session windows) window.units =
      checkWindow (submitWindows prepareBatches session windows).forgetful window.units

theorem server_detects (unseen : start.history batch.batch.source = []) :
    ServerDetects server start events batch
      (settledSnapshots server batch.batch.source start events) := by
  have remembered := serveAll_seenSnapshots server start unseen events
  have isLast := getLast?_newest (Nat.zero_lt_succ 15)
    (settledSnapshots server batch.batch.source start events)
  constructor
  · intro reaches snapshot carried listed other
    rw [← isLast] at other ⊢
    rw [← remembered] at listed other ⊢
    exact submit_rewound server batch _ reaches carried ⟨listed, other⟩
  · intro allowed
    refine submit_forgetful server batch _ fun snapshot carried => ?_
    rw [remembered]
    rintro ⟨listed, other⟩
    rw [isLast] at other
    exact (allowed snapshot carried).elim (· listed) other

theorem mem_unitSnapshots {units : List ChangeUnit} {id : String} :
    id ∈ unitSnapshots units ↔
      ∃ unit ∈ units, ∃ snapshot, unit.snapshot = some snapshot ∧ snapshot.snapshotId = id := by
  rw [unitSnapshots, List.mem_filterMap]
  simp only [Option.map_eq_some_iff]

theorem session_detects (new : session.seenSnapshots = []) :
    SessionDetects prepareBatches session windows window
      (deliveredSnapshots prepareBatches session windows) := by
  have remembered := submitWindows_seenSnapshots prepareBatches new windows
  have isLast := getLast?_newest (Nat.zero_lt_succ 15)
    (deliveredSnapshots prepareBatches session windows)
  constructor
  · rintro declared bounded ⟨_, named, listed, other⟩
    obtain ⟨unit, isUnit, snapshot, carried, rfl⟩ := mem_unitSnapshots.mp named
    rw [← isLast] at other ⊢
    rw [← remembered] at listed other ⊢
    obtain ⟨observed, last, latest, superseded, refused⟩ := checkBounds_rewound _ _ declared bounded
      ⟨unit, isUnit, snapshot, carried, listed, other⟩
    refine ⟨observed, last, latest, superseded.1, ?_, fun outside => ?_⟩
    · rintro rfl
      exact superseded.2 latest
    · refine @submitCall_of_refused prepareBatches _ _ { window with outside := outside } ?_
      rw [checkWindow, refused]
      rfl
  · intro allowed
    rw [checkWindow, checkWindow, checkBounds_forgetful]
    · rfl
    · rw [remembered]
      rintro ⟨unit, isUnit, snapshot, carried, listed, other⟩
      rw [isLast] at other
      exact (allowed _ (mem_unitSnapshots.mpr ⟨unit, isUnit, snapshot, carried, rfl⟩)).elim
        (· listed) other

/-- **A rewind is refused when it goes back to one of the last sixteen snapshots**, by the server
and by the session alike, and no batch is refused for the latest snapshot or for a new one. -/
theorem rewinds_detected (unseen : start.history batch.batch.source = [])
    (new : session.seenSnapshots = []) :
    ServerDetects server start events batch
        (settledSnapshots server batch.batch.source start events) ∧
      SessionDetects prepareBatches session windows window
        (deliveredSnapshots prepareBatches session windows) := by
  exact ⟨server_detects server start events batch unseen,
    session_detects prepareBatches session windows window new⟩

end Detection

/-! ## A rewind over two snapshots -/

def boundedSession : AdapterSession :=
  { notesSession with config := { notesSession.config with bounds := some ⟨100, 10000⟩ } }

/-- The server accepts whatever comes. -/
def accepting : Surroundings where
  replies _ := .ack ⟨"batch", 1, 0, [], 0⟩
  fingerprintReply := .ok []
  parsesAsMetadata _ := true
  saveFault := none

/-- A window of one unit with the given snapshot. -/
def snapshotWindow (snapshotId : String) : WindowCall where
  outside := accepting
  files := ∅
  units := [{ notesUnit with snapshot := some ⟨snapshotId, [], "custom"⟩ }]
  cursor := snapshotId

def openProjection : StoredProjection := ⟨"", [], [], hex32 (List.replicate 32 0), 1, 0, 0⟩

/-- The source of the session as a projection. -/
def openEntry : SourceEntry :=
  { sessionEntry .org with projection := some openProjection }

def projectionState : IngestState where
  sources := SourceRegistry.new.putAll [(sessionKey "session://1", openEntry)]
  seenBatches := .empty registryLruCap registryLruCap_pos
  seenSnapshots := ∅
  submitPermits := 64
  store := acmeStore

/-- A batch without rows, with a snapshot. -/
def snapshotCall (batchId snapshotId : String) : SubmitCall :=
  { agentCall [] with
    batch := { signedBatch [] with
      batchId := batchId
      memories := []
      snapshot := some ⟨snapshotId, List.replicate 32 0, "session"⟩ } }

/-- Two snapshots are settled, and then the source is registered as a projection. -/
def snapshotEvents : List ServerEvent :=
  [.submit (snapshotCall "1" "a"), .submit (snapshotCall "2" "b"), .other projectionState]

theorem reachesRewindCheck_open (history : Table SourcePolicyKey (List String)) :
    ReachesRewindCheck (openServer false) (snapshotCall "3" "a")
      { projectionState with seenSnapshots := history } := by
  have admitted : admitBatch (openServer false) 64 (snapshotCall "3" "a").batch = .ok () := by
    decide +kernel
  have checked : checkSubmission ∅ (snapshotCall "3" "a").batch openProjection = .ok () := by
    rw [checkSubmission, bind_eq_ok_iff]
    refine ⟨(), rfl, ?_⟩
    change (_ >>= _) = _
    rw [bind_eq_ok_iff]
    exact ⟨(), require_ok_iff.mpr (decide_eq_true rfl), rfl⟩
  have listed : projectionState.sources.peek ("acme", "session://1", "agent") = some openEntry := by
    decide +kernel
  have registered : registeredSource (openServer false) { projectionState with seenSnapshots := ∅ }
      (snapshotCall "3" "a").batch = .ok openEntry := by
    rw [registeredSource]
    simp only [bind_eq_ok_iff]
    refine ⟨(), rfl, openEntry, orReject_ok_iff.mpr listed, .org, rfl, (), rfl, (), rfl, ?_⟩
    change (checkSubmission ∅ _ openProjection >>= _) = _
    rw [bind_of_ok checked]
    rfl
  exact ⟨⟨some acmeAgent, rfl, by decide⟩, admitted, rfl, openEntry, registered,
    Option.some_ne_none openProjection⟩

/-- A server and a session that have seen two snapshots refuse the first one of them. -/
theorem rewinds_detected_two :
    (∃ last, (submit (openServer false) (snapshotCall "3" "a")
      (serveAll (openServer false) (registeredState ["session://1"]) snapshotEvents)).1 =
        .ok (rewoundAck (snapshotCall "3" "a").batch "a" last)) ∧
    ∃ observed last, (submitCall oneBatch
      (submitWindows oneBatch boundedSession [snapshotWindow "a", snapshotWindow "b"])
      (snapshotWindow "a")).1 = .error (.sourceRewound observed last) := by
  obtain ⟨server, session⟩ := rewinds_detected (openServer false)
    (registeredState ["session://1"]) snapshotEvents (snapshotCall "3" "a") oneBatch boundedSession
    [snapshotWindow "a", snapshotWindow "b"] (snapshotWindow "a") rfl rfl
  constructor
  · obtain ⟨last, -, refused⟩ := server.refused (reachesRewindCheck_open _) _ rfl
      (by decide +kernel) (by decide +kernel)
    exact ⟨last, congrArg Prod.fst refused⟩
  · obtain ⟨observed, last, -, -, -, refused⟩ := session.refused (by decide) (by decide +kernel)
      ⟨"a", by decide +kernel, by decide +kernel, by decide +kernel⟩
    exact ⟨observed, last, congrArg Prod.fst (refused accepting)⟩

/-! ## A rewind over seventeen snapshots -/

def snapshotNames : List String :=
  ["a", "b", "c", "d", "e", "f", "g", "h", "i", "j", "k", "l", "m", "n", "o", "p", "q"]

example : deliveredSnapshots oneBatch boundedSession (snapshotNames.map snapshotWindow) =
    snapshotNames := by decide +kernel

/-- After seventeen snapshots the first one passes again. -/
theorem not_rewinds_detected :
    ¬ ∀ (prepareBatches : AdapterSession → List ChangeUnit →
        Except SdkError (List SubmittedBatch)) (session : AdapterSession)
      (windows : List WindowCall) (window : WindowCall),
      session.seenSnapshots = [] → session.config.bounds ≠ none →
      checkBounds (submitWindows prepareBatches session windows).forgetful window.units = .ok () →
      (∃ id ∈ unitSnapshots window.units,
        id ∈ deliveredSnapshots prepareBatches session windows ∧
          (deliveredSnapshots prepareBatches session windows).getLast? ≠ some id) →
      ∃ observed last,
        (submitCall prepareBatches (submitWindows prepareBatches session windows) window).1 =
          .error (.sourceRewound observed last) := by
  intro always
  obtain ⟨observed, last, refused⟩ := always oneBatch boundedSession
    (snapshotNames.map snapshotWindow) (snapshotWindow "a") rfl (by decide) (by decide +kernel)
    ⟨"a", by decide +kernel, by decide +kernel, by decide +kernel⟩
  have accepted : (submitCall oneBatch (submitWindows oneBatch boundedSession
      (snapshotNames.map snapshotWindow)) (snapshotWindow "a")).1.toOption.isSome = true := by
    decide +kernel
  rw [refused] at accepted
  cases accepted

end Exocortex
