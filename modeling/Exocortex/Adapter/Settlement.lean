import Exocortex.Adapter.Session
import Exocortex.Library.Sums

/-!
# What a window settles

A conversation about a window is cut into exchanges, one for each batch: replies that ask for the
batch again, and an acknowledgement that settles it. The outcome of a window is the sum of its
exchanges (`submitBatches_ok_iff`). It lists and counts too much or too little exactly when a
retried acknowledgement rejects a row for good, when an acknowledgement with rejections and without
a replay accepts rows, or when the sum does not fit its field.
-/

namespace Exocortex

open Library

/-! ## Exchanges -/

namespace BatchAck

variable (ack : BatchAck)

/-- The rows that are rejected for good. -/
def permanent : List AckRow := ack.rejections.filter (·.disposition = .permanent)

/-- Some row reports that the batch was there before. -/
def Replays : Prop := ∃ row ∈ ack.rejections, row.disposition = .success

instance : Decidable ack.Replays := inferInstanceAs (Decidable (∃ row ∈ ack.rejections, _))

/-- No row is fatal, and none asks for another attempt. -/
def Settles : Prop :=
  ∀ row ∈ ack.rejections, row.disposition = .success ∨ row.disposition = .permanent

instance : Decidable ack.Settles := inferInstanceAs (Decidable (∀ row ∈ ack.rejections, _))

/-- No row is fatal, and some row asks for another attempt. -/
def AsksAgain : Prop :=
  (∀ row ∈ ack.rejections, row.disposition ≠ .fatal) ∧
    ∃ row ∈ ack.rejections, row.disposition = .retry

/-- The accepted rows that a settling acknowledgement adds to the outcome. -/
def counted : UInt32 := if ack.rejections = [] ∨ ack.Replays then ack.accepted else 0

end BatchAck

namespace SubmitReply

def AsksAgain : SubmitReply → Prop
  | .ack answer => answer.AsksAgain
  | .status failure => classifyStatus failure = .retry

def permanent : SubmitReply → List AckRow
  | .ack answer => answer.permanent
  | .status _ => []

end SubmitReply

/-- The replies to one batch. -/
structure Exchange where
  retried : List SubmitReply
  settling : BatchAck

namespace Exchange

variable (exchange : Exchange)

def replies : List SubmitReply := exchange.retried ++ [.ack exchange.settling]

/-- Each reply before the last one asks for the batch again, and the last one settles it. -/
structure Settles : Prop where
  retried : ∀ reply ∈ exchange.retried, reply.AsksAgain
  settling : exchange.settling.Settles

/-- The rows that the outcome lists for a batch. -/
def listed : List AckRow :=
  exchange.retried.flatMap SubmitReply.permanent ++ exchange.settling.permanent

end Exchange

/-- The outcome with a further exchange. -/
def WindowOutcome.tally (outcome : WindowOutcome) (exchange : Exchange) : WindowOutcome :=
  { outcome with
    accepted := outcome.accepted + exchange.settling.counted
    duplicates := outcome.duplicates + if exchange.settling.Replays then 1 else 0
    permanentRejections := outcome.permanentRejections ++ exchange.listed }

/-- The replies of the server settle each batch, within the attempts that there are. -/
structure Answered (session : AdapterSession) (outside : Surroundings)
    (batches : List SubmittedBatch) (exchanges : List Exchange) : Prop where
  authenticated : batches = [] ∨ authenticatedRequest session outside = .ok ()
  each : exchanges.length = batches.length
  settles : ∀ exchange ∈ exchanges, exchange.Settles
  attempts : ∀ exchange ∈ exchanges,
    exchange.replies.length ≤ session.config.maxAttempts - 1 + 1
  heard : exchanges.flatMap Exchange.replies =
    heard outside.replies 0 (exchanges.flatMap Exchange.replies).length

/-! ## Triage -/

variable {ack : BatchAck} {exchanges : List Exchange}

section Triage

variable {session : AdapterSession} {outside : Surroundings}

theorem foldlM_triageRow_ok_iff {rows : List AckRow} {soFar result : RowTriage} :
    rows.foldlM (triageRow session outside) soFar = .ok result ↔
      (∀ row ∈ rows, row.disposition ≠ .fatal) ∧
        result = ⟨{ soFar.outcome with permanentRejections :=
            soFar.outcome.permanentRejections ++ rows.filter (·.disposition = .permanent) },
          soFar.retry || rows.any (·.disposition = .retry),
          soFar.duplicate || rows.any (·.disposition = .success)⟩ := by
  induction rows generalizing soFar with
  | nil =>
      obtain ⟨outcome, retry, duplicate⟩ := soFar
      simp only [List.foldlM_nil, pure, Except.pure, Except.ok.injEq, List.filter_nil,
        List.append_nil, List.any_nil, Bool.or_false]
      exact ⟨fun same => ⟨by simp, same.symm⟩, fun same => same.2.symm⟩
  | cons row rows ih =>
      rw [List.foldlM_cons, bind_eq_ok_iff]
      simp only [triageRow, ih, List.forall_mem_cons, List.filter_cons, List.any_cons]
      cases kind : row.disposition <;> simp

/-- The verdict on an acknowledgement without fatal rows, and the outcome with it. -/
def BatchAck.judged (ack : BatchAck) (outcome : WindowOutcome) : ReplyVerdict × WindowOutcome :=
  if ∃ row ∈ ack.rejections, row.disposition = .retry then
    (.retry, { outcome with
      permanentRejections := outcome.permanentRejections ++ ack.permanent })
  else (.settled, outcome.tally ⟨[], ack⟩)

variable {outcome outcome' : WindowOutcome}

/-- An acknowledgement is judged unless one of its rows is fatal. -/
theorem triageAck_ok_iff {result : ReplyVerdict × WindowOutcome} :
    triageAck session outside ack outcome = .ok result ↔
      (∀ row ∈ ack.rejections, row.disposition ≠ .fatal) ∧ result = ack.judged outcome := by
  rw [triageAck]
  by_cases accepted : ack.rejections = []
  · simp [accepted, pure, Except.pure, BatchAck.judged, WindowOutcome.tally, BatchAck.counted,
      BatchAck.Replays, Exchange.listed, BatchAck.permanent, eq_comm]
  · have some : ack.rejections.isEmpty = false := by simpa using accepted
    simp only [some, Bool.false_eq_true, if_false, bind_eq_ok_iff, foldlM_triageRow_ok_iff,
      Bool.false_or]
    have judged : ∀ listed : List AckRow, listed = outcome.permanentRejections ++ ack.permanent →
        (if ack.rejections.any (·.disposition = .retry) then
            (.ok (.retry, { outcome with permanentRejections := listed }) :
              Except SdkError (ReplyVerdict × WindowOutcome))
          else if ack.rejections.any (·.disposition = .success) then
            .ok (.settled, { outcome with
              accepted := outcome.accepted + ack.accepted
              duplicates := outcome.duplicates + 1
              permanentRejections := listed })
          else .ok (.settled, { outcome with permanentRejections := listed })) =
            .ok (ack.judged outcome) := by
      rintro _ rfl
      rw [BatchAck.judged]
      by_cases retry : ∃ row ∈ ack.rejections, row.disposition = .retry
      · rw [if_pos (by simpa using retry), if_pos retry]
      · rw [if_neg (by simpa using retry), if_neg retry]
        by_cases replay : ack.Replays
        · rw [if_pos (by simpa [BatchAck.Replays] using replay)]
          simp [WindowOutcome.tally, BatchAck.counted, replay, Exchange.listed]
        · rw [if_neg (by simpa [BatchAck.Replays] using replay)]
          simp [WindowOutcome.tally, BatchAck.counted, replay, accepted, Exchange.listed]
    constructor
    · rintro ⟨soFar, ⟨notFatal, rfl⟩, rest⟩
      exact ⟨notFatal, Except.ok.inj (rest.symm.trans (judged _ rfl))⟩
    · rintro ⟨notFatal, rfl⟩
      exact ⟨_, ⟨notFatal, rfl⟩, judged _ rfl⟩

theorem BatchAck.settles_iff :
    ack.Settles ↔ (∀ row ∈ ack.rejections, row.disposition ≠ .fatal) ∧
      ¬ ∃ row ∈ ack.rejections, row.disposition = .retry := by
  simp only [Settles, not_exists, not_and, ← forall_and]
  refine forall_congr' fun row => ?_
  cases row.disposition <;> simp

/-- The outcome with the rows listed that a reply rejects for good. -/
def WindowOutcome.listing (outcome : WindowOutcome) (reply : SubmitReply) : WindowOutcome :=
  { outcome with permanentRejections := outcome.permanentRejections ++ reply.permanent }

theorem WindowOutcome.tally_cons (outcome : WindowOutcome) (reply : SubmitReply)
    (retried : List SubmitReply) (settling : BatchAck) :
    outcome.tally ⟨reply :: retried, settling⟩ =
      (outcome.listing reply).tally ⟨retried, settling⟩ := by
  simp [tally, listing, Exchange.listed]

theorem attempt_retry_iff {reply : SubmitReply} :
    attempt session outside outcome reply = .ok (.retry, outcome') ↔
      authenticatedRequest session outside = .ok () ∧ reply.AsksAgain ∧
        outcome' = outcome.listing reply := by
  rw [attempt.eq_def, bind_eq_ok_iff, Unique.exists_iff]
  refine and_congr_right fun _ => ?_
  cases reply with
  | status failure =>
      by_cases again : classifyStatus failure = .retry
      · have same : outcome.listing (.status failure) = outcome := by
          simp [WindowOutcome.listing, SubmitReply.permanent]
        simp [again, SubmitReply.AsksAgain, pure, Except.pure, same, eq_comm]
      · simp [again, SubmitReply.AsksAgain, throw, throwThe, MonadExceptOf.throw]
  | ack answer =>
      change triageAck session outside answer outcome = _ ↔ answer.AsksAgain ∧ _
      rw [triageAck_ok_iff, BatchAck.AsksAgain, and_assoc]
      refine and_congr_right fun _ => ?_
      rw [BatchAck.judged]
      split
      · next retry => simp [retry, WindowOutcome.listing, SubmitReply.permanent]
      · next none => simp [none]

theorem attempt_settled_iff {reply : SubmitReply} :
    attempt session outside outcome reply = .ok (.settled, outcome') ↔
      authenticatedRequest session outside = .ok () ∧ ∃ ack, reply = .ack ack ∧ ack.Settles ∧
        outcome' = outcome.tally ⟨[], ack⟩ := by
  rw [attempt.eq_def, bind_eq_ok_iff, Unique.exists_iff]
  refine and_congr_right fun _ => ?_
  cases reply with
  | status failure =>
      by_cases again : classifyStatus failure = .retry
      · simp [again, pure, Except.pure]
      · simp [again, throw, throwThe, MonadExceptOf.throw]
  | ack answer =>
      simp only [SubmitReply.ack.injEq, exists_eq_left']
      rw [triageAck_ok_iff, BatchAck.settles_iff, and_assoc]
      refine and_congr_right fun _ => ?_
      rw [BatchAck.judged]
      split
      · next retry => simp [retry]
      · next none => simp [none]

theorem exchanged_attempt_iff {group : List SubmitReply} :
    Exchanged (attempt session outside) outcome group outcome' ↔
      authenticatedRequest session outside = .ok () ∧ ∃ exchange : Exchange,
        group = exchange.replies ∧ exchange.Settles ∧ outcome' = outcome.tally exchange := by
  constructor
  · intro exchanged
    induction exchanged with
    | settled judged =>
        obtain ⟨token, ack, rfl, settles, rfl⟩ := attempt_settled_iff.mp judged
        exact ⟨token, ⟨[], ack⟩, rfl, ⟨by simp, settles⟩, rfl⟩
    | @retry _ _ _ reply _ judged _ ih =>
        obtain ⟨token, again, rfl⟩ := attempt_retry_iff.mp judged
        obtain ⟨-, exchange, rfl, settles, rfl⟩ := ih
        refine ⟨token, ⟨reply :: exchange.retried, exchange.settling⟩, rfl,
          ⟨List.forall_mem_cons.mpr ⟨again, settles.retried⟩, settles.settling⟩, ?_⟩
        exact (WindowOutcome.tally_cons _ _ _ _).symm
  · rintro ⟨token, ⟨retried, settling⟩, rfl, ⟨again, settles⟩, rfl⟩
    induction retried generalizing outcome with
    | nil => exact .settled (attempt_settled_iff.mpr ⟨token, settling, rfl, settles, rfl⟩)
    | cons reply retried ih =>
        obtain ⟨first, later⟩ := List.forall_mem_cons.mp again
        rw [WindowOutcome.tally_cons]
        exact .retry (attempt_retry_iff.mpr ⟨token, first, rfl⟩) (ih later settles)

theorem conversed_attempt_iff {groups : List (List SubmitReply)} :
    Conversed (attempt session outside) outcome groups outcome' ↔
      (groups = [] ∨ authenticatedRequest session outside = .ok ()) ∧
        ∃ exchanges : List Exchange, groups = exchanges.map Exchange.replies ∧
          (∀ exchange ∈ exchanges, exchange.Settles) ∧
            outcome' = exchanges.foldl WindowOutcome.tally outcome := by
  constructor
  · intro conversed
    induction conversed with
    | nil => exact ⟨.inl rfl, [], rfl, by simp, rfl⟩
    | cons exchanged _ ih =>
        obtain ⟨token, exchange, rfl, settles, rfl⟩ := exchanged_attempt_iff.mp exchanged
        obtain ⟨-, exchanges, rfl, later, rfl⟩ := ih
        exact ⟨.inr token, exchange :: exchanges, rfl,
          List.forall_mem_cons.mpr ⟨settles, later⟩, rfl⟩
  · rintro ⟨token, exchanges, rfl, settles, rfl⟩
    induction exchanges generalizing outcome with
    | nil => exact .nil
    | cons exchange exchanges ih =>
        obtain ⟨first, later⟩ := List.forall_mem_cons.mp settles
        have passes := token.resolve_left (List.cons_ne_nil _ _)
        exact .cons (exchanged_attempt_iff.mpr ⟨passes, exchange, rfl, first, rfl⟩)
          (ih (.inr passes) later)

/-- **The batches are settled** when the server answers each of them with a settling exchange, and
then the outcome is the sum of the exchanges. -/
theorem submitBatches_ok_iff {batches : List SubmittedBatch} :
    submitBatches session outside batches = .ok outcome ↔
      ∃ exchanges, Answered session outside batches exchanges ∧
        outcome = exchanges.foldl WindowOutcome.tally ⟨0, 0, [], false⟩ := by
  have all : submitBatches session outside batches = .ok outcome ↔
      ∃ next, converseAll (attempt session outside) .retriesExhausted outside.replies
        session.config.maxAttempts batches 0 ⟨0, 0, [], false⟩ = .ok (outcome, next) := by
    rw [submitBatches]
    cases converseAll (attempt session outside) .retriesExhausted outside.replies
        session.config.maxAttempts batches 0 ⟨0, 0, [], false⟩ with
    | error error => simp [Except.map]
    | ok result =>
        obtain ⟨gathered, next⟩ := result
        simp [Except.map]
  simp only [all, converseAll_eq_ok_iff, conversed_attempt_iff]
  constructor
  · rintro ⟨_, groups, count, ⟨token, exchanges, rfl, settles, rfl⟩, short, same, -⟩
    rw [List.length_map] at count
    refine ⟨exchanges, ⟨?_, count, settles, List.forall_mem_map.mp short, ?_⟩, rfl⟩
    · refine token.imp_left fun none => ?_
      rw [List.map_eq_nil_iff.mp none] at count
      exact List.length_eq_zero_iff.mp count.symm
    · rwa [List.flatMap_def]
  · rintro ⟨exchanges, answered, rfl⟩
    refine ⟨_, exchanges.map Exchange.replies, by rw [List.length_map, answered.each],
      ⟨?_, exchanges, rfl, answered.settles, rfl⟩, List.forall_mem_map.mpr answered.attempts, ?_,
        rfl⟩
    · refine answered.authenticated.imp_left fun none => ?_
      have count := answered.each
      rw [none] at count
      rw [List.length_eq_zero_iff.mp count, List.map_nil]
    · rw [← List.flatMap_def]
      exact answered.heard

end Triage

/-! ## The sum of the exchanges -/

theorem permanentRejections_foldl_tally (exchanges : List Exchange) (outcome : WindowOutcome) :
    (exchanges.foldl WindowOutcome.tally outcome).permanentRejections =
      outcome.permanentRejections ++ exchanges.flatMap Exchange.listed := by
  induction exchanges generalizing outcome with
  | nil => simp
  | cons exchange exchanges ih =>
      rw [List.foldl_cons, ih, List.flatMap_cons, ← List.append_assoc]
      rfl

theorem accepted_foldl_tally (exchanges : List Exchange) (outcome : WindowOutcome) :
    (exchanges.foldl WindowOutcome.tally outcome).accepted.toNat =
      (outcome.accepted.toNat + (exchanges.map (·.settling.counted.toNat)).sum) % 2 ^ 32 := by
  induction exchanges generalizing outcome with
  | nil => simp [Nat.mod_eq_of_lt outcome.accepted.toNat_lt]
  | cons exchange exchanges ih =>
      rw [List.foldl_cons, ih, List.map_cons, List.sum_cons]
      simp only [WindowOutcome.tally, UInt32.toNat_add]
      omega

/-- Only the settling acknowledgements list rows, each accepted row is counted, and the count fits
its field. -/
structure Countable (exchanges : List Exchange) : Prop where
  retried : ∀ exchange ∈ exchanges, ∀ reply ∈ exchange.retried, reply.permanent = []
  counted : ∀ exchange ∈ exchanges, exchange.settling.rejections = [] ∨
    exchange.settling.Replays ∨ exchange.settling.accepted = 0
  fits : (exchanges.map (·.settling.accepted.toNat)).sum < 2 ^ 32

theorem flatMap_listed_iff :
    exchanges.flatMap Exchange.listed = exchanges.flatMap (·.settling.permanent) ↔
      ∀ exchange ∈ exchanges, ∀ reply ∈ exchange.retried, reply.permanent = [] := by
  have only : ∀ exchange : Exchange, exchange.listed = exchange.settling.permanent ↔
      ∀ reply ∈ exchange.retried, reply.permanent = [] := by
    intro exchange
    rw [Exchange.listed, List.append_left_eq_self, List.flatMap_eq_nil_iff]
  constructor
  · intro same
    have lengths := (congrArg List.length same).symm
    rw [List.length_flatMap, List.length_flatMap, sum_map_eq_iff_of_le] at lengths
    · intro exchange member
      have short := (lengths exchange member).symm
      rw [Exchange.listed, List.length_append, Nat.add_eq_right, List.length_eq_zero_iff,
        List.flatMap_eq_nil_iff] at short
      exact short
    · intro exchange _
      rw [Exchange.listed, List.length_append]
      exact Nat.le_add_left _ _
  · intro none
    exact List.flatMap_congr fun exchange member => (only exchange).mpr (none exchange member)

theorem BatchAck.counted_eq_iff : ack.counted.toNat = ack.accepted.toNat ↔
    ack.rejections = [] ∨ ack.Replays ∨ ack.accepted = 0 := by
  rw [counted, UInt32.toNat_inj, ← or_assoc]
  by_cases counts : ack.rejections = [] ∨ ack.Replays
  · simp [counts]
  · simp [counts, eq_comm]

theorem sum_counted_iff :
    (exchanges.map (·.settling.counted.toNat)).sum % 2 ^ 32 =
        (exchanges.map (·.settling.accepted.toNat)).sum ↔
      (∀ exchange ∈ exchanges, exchange.settling.rejections = [] ∨
        exchange.settling.Replays ∨ exchange.settling.accepted = 0) ∧
      (exchanges.map (·.settling.accepted.toNat)).sum < 2 ^ 32 := by
  have below : ∀ exchange ∈ exchanges,
      exchange.settling.counted.toNat ≤ exchange.settling.accepted.toNat := by
    intro exchange _
    rw [BatchAck.counted]
    split
    · exact le_refl _
    · exact Nat.zero_le _
  have most := List.sum_le_sum below
  simp only [← BatchAck.counted_eq_iff, ← sum_map_eq_iff_of_le below]
  omega

/-! ## Windows -/

/-- What the temporary file holds when saving has failed, if it was written. -/
def SaveFault.leaves (cursor : String) : SaveFault → Option String
  | .createDir => none
  | .write left => left
  | .rename => some cursor

/-- The cursor file is not its own temporary file, or what was written there was there before. -/
def SaveFault.Spares (fault : SaveFault) (path : FilePath) (cursor : String) (files : Files) :
    Prop :=
  path.extension = some "tmp" → ∀ left, fault.leaves cursor = some left →
    files.lookup path = some left

/-- The files after saving has failed. -/
def SaveFault.files (fault : SaveFault) (path : FilePath) (cursor : String) (files : Files) :
    Files :=
  match fault.leaves cursor with
  | none => files
  | some left => files.insert (path.withExtension "tmp") left

theorem saveCursor_fault (fault : SaveFault) (path : FilePath) (cursor : String) (files : Files) :
    ∃ error, saveCursor (some fault) path cursor files =
      (.error error, fault.files path cursor files) := by
  cases fault with
  | createDir => exact ⟨_, rfl⟩
  | write left => cases left <;> exact ⟨_, rfl⟩
  | rename => exact ⟨_, rfl⟩

theorem lookup_files_iff {fault : SaveFault} {path : FilePath} {cursor : String} {files : Files} :
    (fault.files path cursor files).lookup path = files.lookup path ↔
      fault.Spares path cursor files := by
  rw [SaveFault.files, SaveFault.Spares]
  cases left : fault.leaves cursor with
  | none => simp
  | some text =>
      have itself : path = path.withExtension "tmp" ↔ path.extension = some "tmp" := by
        obtain ⟨parent, stem, extension⟩ := path
        simp [FilePath.withExtension]
      rw [Table.lookup_insert_eq]
      simp only [itself, Option.some.injEq, forall_eq']
      by_cases same : path.extension = some "tmp"
      · simp [same, eq_comm]
      · simp [same]

section Windows

variable (prepareBatches : AdapterSession → List ChangeUnit → Except SdkError (List SubmittedBatch))
  (session : AdapterSession) (outside : Surroundings) (files : Files) (units : List ChangeUnit)
  (cursor : String)

/-- The units pass the checks, are built into batches, and the server settles each of them. -/
structure Delivered (batches : List SubmittedBatch) (exchanges : List Exchange) : Prop where
  passes : checkWindow session units = .ok ()
  prepared : prepareBatches session units = .ok batches
  answered : Answered session outside batches exchanges

/-- A window that succeeds has saved its cursor, and its outcome says what the settling
acknowledgements say; a window that fails has changed nothing. -/
structure WindowSettled (result : Except SdkError WindowOutcome × AdapterSession × Files) :
    Prop where
  delivered : ∀ outcome, result.1 = .ok outcome →
    ∃ batches exchanges, Delivered prepareBatches session outside units batches exchanges
  listed : ∀ outcome, result.1 = .ok outcome → ∀ batches exchanges,
    Delivered prepareBatches session outside units batches exchanges →
      outcome.permanentRejections = exchanges.flatMap (·.settling.permanent)
  counted : ∀ outcome, result.1 = .ok outcome → ∀ batches exchanges,
    Delivered prepareBatches session outside units batches exchanges →
      outcome.accepted.toNat = (exchanges.map (·.settling.accepted.toNat)).sum
  advanced : ∀ outcome, result.1 = .ok outcome → outcome.cursorAdvanced = true ∧
    result.2.1.cursor = some cursor ∧ result.2.2.lookup session.config.cursorPath = some cursor
  unchanged : ∀ error, result.1 = .error error → result.2.1 = session ∧
    result.2.2.lookup session.config.cursorPath = files.lookup session.config.cursorPath

theorem delivered_iff {outcome : WindowOutcome} :
    (do
      checkWindow session units
      let batches ← prepareBatches session units
      submitBatches session outside batches : Except SdkError WindowOutcome) = .ok outcome ↔
      ∃ batches exchanges, Delivered prepareBatches session outside units batches exchanges ∧
        outcome = exchanges.foldl WindowOutcome.tally ⟨0, 0, [], false⟩ := by
  simp only [bind_eq_ok_iff, submitBatches_ok_iff]
  constructor
  · rintro ⟨⟨⟩, passes, batches, prepared, exchanges, answered, rfl⟩
    exact ⟨batches, exchanges, ⟨passes, prepared, answered⟩, rfl⟩
  · rintro ⟨batches, exchanges, ⟨passes, prepared, answered⟩, rfl⟩
    exact ⟨(), passes, batches, prepared, exchanges, answered, rfl⟩

/-- **When a window is settled rightly**: if the server settles each batch, then no retried
acknowledgement rejects a row for good, no acknowledgement that rejects rows and is no replay
accepts any, and the accepted rows fit their field; and where saving then fails, the temporary file
is not the cursor itself. -/
theorem submitWindow_settled_iff :
    WindowSettled prepareBatches session outside files units cursor
        (submitWindow prepareBatches session outside files units cursor) ↔
      ∀ batches exchanges, Delivered prepareBatches session outside units batches exchanges →
        match outside.saveFault with
        | none => Countable exchanges
        | some fault => fault.Spares session.config.cursorPath cursor files := by
  have submitted := @delivered_iff prepareBatches session outside units
  cases result : (do
      checkWindow session units
      let batches ← prepareBatches session units
      submitBatches session outside batches : Except SdkError WindowOutcome) with
  | error error =>
      have none : ∀ batches exchanges,
          ¬ Delivered prepareBatches session outside units batches exchanges := by
        intro batches exchanges delivered
        cases result.symm.trans (submitted.mpr ⟨batches, exchanges, delivered, rfl⟩)
      refine iff_of_true ?_ fun batches exchanges delivered =>
        absurd delivered (none batches exchanges)
      rw [submitWindow, result]
      exact ⟨nofun, nofun, nofun, nofun, fun _ _ => ⟨rfl, rfl⟩⟩
  | ok outcome =>
      have sum : ∀ batches exchanges,
          Delivered prepareBatches session outside units batches exchanges →
            outcome = exchanges.foldl WindowOutcome.tally ⟨0, 0, [], false⟩ := by
        intro batches exchanges delivered
        exact Except.ok.inj
          (result.symm.trans (submitted.mpr ⟨batches, exchanges, delivered, rfl⟩))
      obtain ⟨batches, exchanges, delivered, -⟩ := submitted.mp result
      rw [submitWindow, result]
      have rows : ∀ batches exchanges,
          Delivered prepareBatches session outside units batches exchanges →
            outcome.permanentRejections = exchanges.flatMap Exchange.listed := by
        intro batches exchanges delivered
        rw [sum batches exchanges delivered, permanentRejections_foldl_tally]
        rfl
      have count : ∀ batches exchanges,
          Delivered prepareBatches session outside units batches exchanges →
            outcome.accepted.toNat =
              (exchanges.map (·.settling.counted.toNat)).sum % 2 ^ 32 := by
        intro batches exchanges delivered
        rw [sum batches exchanges delivered, accepted_foldl_tally]
        rw [show (0 : UInt32).toNat = 0 from rfl, Nat.zero_add]
      cases outside.saveFault with
      | none =>
          constructor
          · intro settled batches exchanges delivered
            have listed := settled.listed _ rfl batches exchanges delivered
            have counted := settled.counted _ rfl batches exchanges delivered
            obtain ⟨each, fits⟩ := sum_counted_iff.mp ((count _ _ delivered).symm.trans counted)
            exact ⟨flatMap_listed_iff.mp ((rows _ _ delivered).symm.trans listed), each, fits⟩
          · intro countable
            refine ⟨fun _ _ => ⟨_, _, delivered⟩, ?_, ?_, ?_, nofun⟩
            · rintro _ ⟨⟩ batches exchanges delivered
              exact (rows _ _ delivered).trans
                (flatMap_listed_iff.mpr (countable _ _ delivered).retried)
            · rintro _ ⟨⟩ batches exchanges delivered
              have here := countable _ _ delivered
              exact (count _ _ delivered).trans (sum_counted_iff.mpr ⟨here.counted, here.fits⟩)
            · rintro _ ⟨⟩
              exact ⟨rfl, rfl, AList.lookup_insert _⟩
      | some fault =>
          obtain ⟨error, failed⟩ :=
            saveCursor_fault fault session.config.cursorPath cursor files
          simp only [failed]
          constructor
          · intro settled _ _ _
            exact lookup_files_iff.mp (settled.unchanged _ rfl).2
          · intro spares
            exact ⟨nofun, nofun, nofun, nofun, fun _ _ =>
              ⟨rfl, lookup_files_iff.mpr (spares _ _ delivered)⟩⟩

end Windows

/-! ## A batch that is retried with a rejected row -/

/-- A draft with nothing but its key and its title. -/
def bareDraft (key : String) : WireMemory where
  draftKey := key
  memoryType := "Note"
  title := key
  content := key
  tags := []
  visibility := 0
  validFrom := none
  validUntil := none
  externalKey := none
  rights := none

/-- All units in one batch. -/
def oneBatch (session : AdapterSession) (units : List ChangeUnit) :
    Except SdkError (List SubmittedBatch) :=
  .ok [{ orgId := session.config.orgId
         producerId := session.config.producerId
         batchId := "batch"
         sourceUri := session.config.sourceUri
         ontologyFingerprint := session.fingerprint.bytes
         ceiling := session.ceiling
         checksum := ""
         observedAt := none
         recordedAt := none
         snapshot := none
         memories := units.flatMap (·.memories)
         relationships := units.flatMap (·.relationships)
         producer := none }]

def notesSession : AdapterSession where
  config := ⟨"org", "notes://", "notes", "notes-adapter", "node", "custom", "", .fill 32 0, 4194304,
    ⟨"/var", "notes", some "cursor"⟩, 8, none⟩
  fingerprint := .fill 32 0
  ceiling := 3
  cursor := none
  rowsThisRun := 0
  seenSnapshots := []
  manifest := none

def unknownKindRow : AckRow := ⟨"a", 4, "unknown kind"⟩

/-- The first acknowledgement rejects one row for good and another for the load, the second one
rejects only the first row. -/
def shedding : Surroundings where
  replies
    | 0 => .ack ⟨"batch", 0, 2, [unknownKindRow, ⟨"b", 11, "shedding load"⟩], 0⟩
    | _ => .ack ⟨"batch", 0, 2, [unknownKindRow], 0⟩
  fingerprintReply := .ok []
  parsesAsMetadata _ := true
  saveFault := none

def notesUnit : ChangeUnit where
  memories := [bareDraft "a", bareDraft "b"]
  relationships := []
  snapshot := none
  batchIdSeed := "1"
  observedAt := 0

/-- The row is listed for each of the two acknowledgements. -/
theorem not_submitWindow_settled :
    ¬ ∀ (prepareBatches : AdapterSession → List ChangeUnit →
        Except SdkError (List SubmittedBatch)) (session : AdapterSession)
      (outside : Surroundings) (files : Files) (units : List ChangeUnit) (cursor : String),
      WindowSettled prepareBatches session outside files units cursor
        (submitWindow prepareBatches session outside files units cursor) := by
  intro always
  have settled := always oneBatch notesSession shedding ∅ [notesUnit] "2"
  have listed := settled.listed ⟨0, 0, [unknownKindRow, unknownKindRow], true⟩ rfl _
    [⟨[shedding.replies 0], ⟨"batch", 0, 2, [unknownKindRow], 0⟩⟩]
    ⟨rfl, rfl, .inr rfl, rfl, ?_, ?_, rfl⟩
  · exact absurd listed (by decide)
  · refine List.forall_mem_singleton.mpr ⟨List.forall_mem_singleton.mpr ⟨by decide, ?_⟩, by decide⟩
    exact ⟨⟨"b", 11, "shedding load"⟩, by decide, by decide⟩
  · exact List.forall_mem_singleton.mpr (by decide)

end Exocortex
