import Exocortex.Adapter.Changes
import Exocortex.Library.Relays

/-!
# Change-data capture

The replication task reads the frames of the stream, maps each change, hands rows over through a
channel and answers with a status update at the last position it has seen. The submitter takes
rows from the channel into a window, and submits the window when it is full, when the flush
interval has passed, or when the stream has ended. The process may stop at any moment; the
database then sends again what is above a position that it was told.

The adapter is a relay of the rows of the log. What it has acknowledged is settled in every state
of a run exactly when each status update is sent while nothing that was handed over waits
unsettled, and no row up to the position is still to come (`acknowledged_settled_iff`).
-/

namespace Exocortex

open Library

/-! ## Frames -/

/-- A change in the log of the database; its text is missing when its bytes are not UTF-8. Zero is
no position. -/
structure WalRecord where
  walStart : ℕ
  payload : Option String
  positive : 0 < walStart
deriving DecidableEq

/-- A frame of the stream. -/
inductive StreamFrame where
  | xLogData (record : WalRecord)
  | keepAlive (position : ℕ) (replyRequested : Bool)
  | copyDone
  | error (text : String)
  | other

/-- What `blocking_send` does with a row: it queues it, or it finds the channel closed, or it
panics, which is what it does within an asynchronous task. -/
inductive SendOutcome where
  | queued
  | closed
  | panicked
deriving DecidableEq

/-! ## The adapter -/

/-- A row on its way, with the record that it came from. -/
structure HandedRow where
  record : WalRecord
  row : TableRow
deriving DecidableEq

/-- A window under submission. The last one comes after the end of the stream. -/
structure WindowSubmission where
  rows : List HandedRow
  snapshot : ℕ
  final : Bool
deriving DecidableEq

/-- One process of the adapter. It records which records it has received, and the rows that it
has lost with a failed window or a closed channel. -/
structure AdapterProcess where
  start : ℕ
  lastLsn : ℕ
  streamLsn : ℕ
  streaming : Bool
  statusDue : Bool
  channel : List HandedRow
  window : List HandedRow
  submission : Option WindowSubmission
  running : Bool
  received : List WalRecord
  lost : List HandedRow

/-- The adapter with what outlives a process: the cursor file, the settled windows and the status
updates that were sent. -/
structure Cdc where
  process : AdapterProcess
  cursor : Option ℕ
  settled : List (List HandedRow)
  statuses : List ℕ

/-- The declared mapping, the JSON library and the bound on windows. -/
structure CdcConfig where
  mapping : CdcMapping
  json : JsonLibrary
  maxWindow : ℕ

/-- The capacity of the channel. -/
def channelCapacity : ℕ := 1024

namespace AdapterProcess

variable (config : CdcConfig) (process : AdapterProcess)

/-- A process whose stream starts above a position. -/
def connected (start : ℕ) (cursor : Option ℕ) : AdapterProcess where
  start := start
  lastLsn := 0
  streamLsn := cursor.getD 0
  streaming := true
  statusDue := false
  channel := []
  window := []
  submission := none
  running := true
  received := []
  lost := []

/-- The closure of the replication task, on a change. -/
def onChange (record : WalRecord) (payload : String) (send : SendOutcome) : AdapterProcess :=
  let process := { process with streamLsn := max process.streamLsn record.walStart }
  match parseChange config.json payload >>= mapChange config.mapping with
  | .error _ => { process with streaming := false }
  | .ok (.row row) =>
      match send with
      | .queued => { process with
          channel := process.channel ++ [⟨record, row⟩], statusDue := true }
      -- The result of the hand-over is dropped.
      | .closed => { process with lost := process.lost ++ [⟨record, row⟩], statusDue := true }
      | .panicked => { process with streaming := false }
  | .ok _ => { process with statusDue := true }

/-- One round of `stream_changes`, up to the status update that it may owe. -/
def handleFrame (frame : StreamFrame) (send : SendOutcome) : AdapterProcess :=
  match frame with
  | .xLogData record =>
      let process := { process with
        lastLsn := max process.lastLsn record.walStart
        received := process.received ++ [record] }
      match record.payload with
      | none => { process with streaming := false }
      | some payload => process.onChange config record payload send
  | .keepAlive position replyRequested => { process with
      lastLsn := max process.lastLsn position, statusDue := replyRequested }
  | .copyDone | .error _ => { process with streaming := false }
  | .other => process

/-- The window is taken, under the position that the stream has reached. -/
def beginSubmission (final : Bool) : AdapterProcess := { process with
  submission := some ⟨process.window, process.streamLsn, final⟩, window := [] }

/-- The submitter receives a row. -/
def receive : AdapterProcess :=
  match process.channel with
  | [] => process
  | handed :: rest =>
      let process := { process with channel := rest, window := process.window ++ [handed] }
      if config.maxWindow ≤ process.window.length then process.beginSubmission false else process

/-- The rows that have been handed over and are not out of the process yet. -/
def waiting : List HandedRow :=
  process.channel ++ process.window ++ (process.submission.map (·.rows)).getD [] ++ process.lost

theorem mem_waiting {handed : HandedRow} :
    handed ∈ process.waiting ↔ handed ∈ process.channel ∨ handed ∈ process.window ∨
      handed ∈ (process.submission.map (·.rows)).getD [] ∨ handed ∈ process.lost := by
  simp only [waiting, List.mem_append, or_assoc]

end AdapterProcess

/-- The adapter before its first connection, and then connected to a new slot. -/
def Cdc.boot (cursor : Option ℕ) : Cdc := ⟨.connected 0 cursor, cursor, [], []⟩

inductive CdcAction where
  | frame (frame : StreamFrame) (send : SendOutcome)
  | status (written : Bool)
  | receive
  | flush
  | drained
  | settle (saved : Bool)
  | fail
  | restart (start : ℕ)

namespace Cdc

variable (config : CdcConfig) (s : Cdc)

/-- `send_status`: the update is sent, or the connection fails. -/
def sendStatus (written : Bool) : Cdc :=
  if written then { s with
    process := { s.process with statusDue := false }
    statuses := s.statuses ++ [s.process.lastLsn] }
  else { s with process := { s.process with statusDue := false, streaming := false } }

/-- The end of `submit_window`: the window is settled, and its position is saved or not. -/
def settle (saved : Bool) : Cdc :=
  match s.process.submission with
  | none => s
  | some submission => { s with
      process := { s.process with submission := none, running := saved && !submission.final }
      cursor := if saved then some submission.snapshot else s.cursor
      settled := s.settled ++ [submission.rows] }

/-- The window fails, and the adapter stops. -/
def fail : Cdc :=
  match s.process.submission with
  | none => s
  | some submission => { s with
      process := { s.process with
        submission := none, running := false, lost := s.process.lost ++ submission.rows } }

/-- What an action does. -/
def step (s : Cdc) : CdcAction → Cdc
  | .frame frame send => { s with process := s.process.handleFrame config frame send }
  | .status written => s.sendStatus written
  | .receive => { s with process := s.process.receive config }
  | .flush =>
      if s.process.window.isEmpty then s
      else { s with process := s.process.beginSubmission false }
  | .drained =>
      if s.process.window.isEmpty then { s with process := { s.process with running := false } }
      else { s with process := s.process.beginSubmission true }
  | .settle saved => s.settle saved
  | .fail => s.fail
  | .restart start => { s with process := .connected start s.cursor }

/-- When an action may happen. The database sends the changes of its log above the position that
the stream started at. -/
def allowed (wal : List WalRecord) (s : Cdc) : CdcAction → Prop
  | .frame frame send => s.process.streaming = true ∧ s.process.statusDue = false ∧
      (∀ record, frame = .xLogData record → record ∈ wal ∧ s.process.start < record.walStart) ∧
      (send = .queued → s.process.channel.length < channelCapacity) ∧
      (send = .closed → s.process.running = false)
  | .status _ => s.process.streaming = true ∧ s.process.statusDue = true
  | .receive => s.process.running = true ∧ s.process.submission = none ∧ s.process.channel ≠ []
  | .flush => s.process.running = true ∧ s.process.submission = none
  | .drained => s.process.running = true ∧ s.process.submission = none ∧
      s.process.streaming = false ∧ s.process.channel = []
  | .settle _ | .fail => s.process.submission ≠ none
  | .restart start => start = 0 ∨ start ∈ s.statuses

end Cdc

/-- The adapter on a log of the database. -/
def cdcMachine (config : CdcConfig) (wal : List WalRecord) : Machine Cdc CdcAction where
  allowed := Cdc.allowed wal
  step := Cdc.step config

/-! ## The adapter as a relay -/

/-- The record is an insert or an update of the mapped table with a usable key. -/
def WalRecord.IsRow (config : CdcConfig) (record : WalRecord) : Prop :=
  ∃ payload change, record.payload = some payload ∧ parseChange config.json payload = .ok change ∧
    change.IsRowOf config.mapping

/-- The rows of a log. -/
def walRows (config : CdcConfig) (wal : List WalRecord) : Set WalRecord :=
  {record | record ∈ wal ∧ record.IsRow config}

/-- The records of the windows that were settled. -/
def Cdc.settledRecords (s : Cdc) : Set WalRecord :=
  {record | ∃ window ∈ s.settled, ∃ handed ∈ window, handed.record = record}

/-- The relay of rows that the adapter is. -/
def Cdc.relay (s : Cdc) : Relay WalRecord where
  base := s.process.start
  reached := s.process.lastLsn
  live := s.process.streaming = true
  received := {record | record ∈ s.process.received}
  waiting := {record | ∃ handed ∈ s.process.waiting, handed.record = record}
  settled := s.settledRecords
  acked := {position | position ∈ s.statuses}

variable {action : CdcAction} {s : Cdc}

section Relaying

variable {config : CdcConfig} {wal : List WalRecord} {s : Cdc}

/-- What maps to a row is a row, and a row maps to one if it maps at all. -/
theorem isRow_iff {record : WalRecord} {payload : String} {mapped : MappedChange}
    (text : record.payload = some payload)
    (ok : parseChange config.json payload >>= mapChange config.mapping = .ok mapped) :
    (∃ row, mapped = .row row) ↔ record.IsRow config := by
  obtain ⟨change, parsed, ok⟩ := bind_eq_ok_iff.mp ok
  rw [mapChange_row_iff ok]
  constructor
  · exact fun isRow => ⟨payload, change, text, parsed, isRow⟩
  · rintro ⟨again, other, text', parsed', isRow⟩
    obtain rfl := Option.some.inj (text.symm.trans text')
    obtain rfl := Except.ok.inj (parsed.symm.trans parsed')
    exact isRow

variable {t : Cdc}

section Quiet

variable (start : t.process.start = s.process.start) (statuses : t.statuses = s.statuses)
  (settled : s.settledRecords ⊆ t.settledRecords) (reached : s.process.lastLsn ≤ t.process.lastLsn)
  (live : t.process.streaming = true → s.process.streaming = true)
include start statuses settled reached live

/-- A process that goes on with what waits is quiet when it keeps, hands over or settles what
waited. -/
theorem quiet_of_process (waiting : ∀ handed ∈ t.process.waiting, handed ∈ s.process.waiting ∨
      handed.record ∈ walRows config wal ∧ handed.record.walStart ≤ t.process.lastLsn)
    (kept : ∀ handed ∈ s.process.waiting, handed ∈ t.process.waiting ∨
      handed.record ∈ t.settledRecords)
    (received : t.process.streaming = true → ∀ record ∈ t.process.received,
      record ∈ walRows config wal → record ∈ s.process.received ∨
        ∃ handed ∈ t.process.waiting, handed.record = record) :
    Relay.Quiet (walRows config wal) WalRecord.walStart s.relay t.relay where
  base := start
  acked := by simp only [Cdc.relay, statuses]
  settled := settled
  reached := reached
  live := live
  waiting := by
    rintro record ⟨handed, waits, rfl⟩
    exact (waiting handed waits).imp_left fun before => ⟨handed, before, rfl⟩
  kept := by
    rintro record ⟨handed, waits, rfl⟩
    exact (kept handed waits).imp_left fun still => ⟨handed, still, rfl⟩
  received := received

/-- A step that only moves what waits, or drops nothing of it, is quiet. -/
theorem quiet_of_moved (received : t.process.received = s.process.received)
    (waiting : ∀ handed ∈ t.process.waiting, handed ∈ s.process.waiting)
    (kept : ∀ handed ∈ s.process.waiting, handed ∈ t.process.waiting ∨
      handed.record ∈ t.settledRecords) :
    Relay.Quiet (walRows config wal) WalRecord.walStart s.relay t.relay :=
  quiet_of_process start statuses settled reached live
    (fun handed waits => .inl (waiting handed waits)) kept
    (fun _ _ read _ => .inl (received ▸ read))

end Quiet

/-- A stream that has ended is quiet, whatever it has read last. -/
theorem quiet_of_ended (start : t.process.start = s.process.start)
    (statuses : t.statuses = s.statuses) (settled : t.settled = s.settled)
    (reached : s.process.lastLsn ≤ t.process.lastLsn) (ended : t.process.streaming = false)
    (waiting : t.process.waiting = s.process.waiting) :
    Relay.Quiet (walRows config wal) WalRecord.walStart s.relay t.relay := by
  have dead : ¬ t.process.streaming = true := by rw [ended]; exact Bool.false_ne_true
  refine quiet_of_process start statuses ?_ reached (fun live => absurd live dead)
    (fun handed waits => .inl (waiting ▸ waits)) (fun handed waits => .inl (waiting.symm ▸ waits))
    (fun live => absurd live dead)
  rw [Cdc.settledRecords, Cdc.settledRecords, settled]

theorem quiet_of_handed (new : HandedRow) (start : t.process.start = s.process.start)
    (statuses : t.statuses = s.statuses) (settled : t.settled = s.settled)
    (reached : t.process.lastLsn = max s.process.lastLsn new.record.walStart)
    (streaming : t.process.streaming = s.process.streaming)
    (received : t.process.received = s.process.received ++ [new.record])
    (logged : new.record ∈ walRows config wal)
    (waiting : ∀ handed, handed ∈ t.process.waiting ↔ handed ∈ s.process.waiting ∨ handed = new) :
    Relay.Quiet (walRows config wal) WalRecord.walStart s.relay t.relay := by
  refine quiet_of_process start statuses ?_ (reached ▸ le_max_left _ _)
    (fun live => streaming ▸ live) ?_ (fun handed waits => .inl ((waiting handed).mpr (.inl waits)))
    ?_
  · rw [Cdc.settledRecords, Cdc.settledRecords, settled]
  · intro handed waits
    rcases (waiting handed).mp waits with before | rfl
    · exact .inl before
    · exact .inr ⟨logged, reached ▸ le_max_right _ _⟩
  · intro _ record read _
    rw [received, List.mem_append, List.mem_singleton] at read
    exact read.imp_right fun same => ⟨new, (waiting new).mpr (.inr rfl), same.symm⟩

theorem quiet_of_skipped (record : WalRecord) (start : t.process.start = s.process.start)
    (statuses : t.statuses = s.statuses) (settled : t.settled = s.settled)
    (reached : t.process.lastLsn = max s.process.lastLsn record.walStart)
    (streaming : t.process.streaming = s.process.streaming)
    (received : t.process.received = s.process.received ++ [record])
    (noRow : ¬ record.IsRow config) (waiting : t.process.waiting = s.process.waiting) :
    Relay.Quiet (walRows config wal) WalRecord.walStart s.relay t.relay := by
  refine quiet_of_process start statuses ?_ (reached ▸ le_max_left _ _)
    (fun live => streaming ▸ live) (fun handed waits => .inl (waiting ▸ waits))
    (fun handed waits => .inl (waiting.symm ▸ waits)) ?_
  · rw [Cdc.settledRecords, Cdc.settledRecords, settled]
  · intro _ other read logged
    rw [received, List.mem_append, List.mem_singleton] at read
    rcases read with before | rfl
    · exact .inl before
    · exact absurd logged.2 noRow

/-- **Handling a frame is quiet.** -/
theorem quiet_frame {frame : StreamFrame} {send : SendOutcome}
    (comes : ∀ record, frame = .xLogData record →
      record ∈ wal ∧ s.process.start < record.walStart) :
    Relay.Quiet (walRows config wal) WalRecord.walStart s.relay
      (Cdc.step config s (.frame frame send)).relay := by
  cases frame with
  | keepAlive position replyRequested =>
      exact quiet_of_moved rfl rfl subset_rfl (le_max_left _ _) id rfl (fun _ waits => waits)
        (fun _ waits => .inl waits)
  | copyDone => exact quiet_of_ended rfl rfl rfl le_rfl rfl rfl
  | error text => exact quiet_of_ended rfl rfl rfl le_rfl rfl rfl
  | other =>
      exact quiet_of_moved rfl rfl subset_rfl le_rfl id rfl (fun _ waits => waits)
        (fun _ waits => .inl waits)
  | xLogData record =>
      simp only [Cdc.step, AdapterProcess.handleFrame]
      cases text : record.payload with
      | none => exact quiet_of_ended rfl rfl rfl (le_max_left _ _) rfl rfl
      | some payload =>
          simp only [AdapterProcess.onChange]
          cases ok : parseChange config.json payload >>= mapChange config.mapping with
          | error error => exact quiet_of_ended rfl rfl rfl (le_max_left _ _) rfl rfl
          | ok mapped =>
              have isRow := isRow_iff text ok
              have skipped : (∀ row, mapped ≠ .row row) → ¬ record.IsRow config := by
                intro other logged
                obtain ⟨row, same⟩ := isRow.mpr logged
                exact other row same
              cases mapped with
              | row row =>
                  have logged : record ∈ walRows config wal :=
                    ⟨(comes record rfl).1, isRow.mp ⟨row, rfl⟩⟩
                  cases send with
                  | queued =>
                      refine quiet_of_handed ⟨record, row⟩ rfl rfl rfl rfl rfl rfl logged
                        fun handed => ?_
                      simp only [AdapterProcess.mem_waiting, List.mem_append, List.mem_singleton]
                      tauto
                  | closed =>
                      refine quiet_of_handed ⟨record, row⟩ rfl rfl rfl rfl rfl rfl logged
                        fun handed => ?_
                      simp only [AdapterProcess.mem_waiting, List.mem_append, List.mem_singleton]
                      tauto
                  | panicked => exact quiet_of_ended rfl rfl rfl (le_max_left _ _) rfl rfl
              | delete pk =>
                  exact quiet_of_skipped record rfl rfl rfl rfl rfl rfl (skipped nofun) rfl
              | otherTable =>
                  exact quiet_of_skipped record rfl rfl rfl rfl rfl rfl (skipped nofun) rfl
              | skippedNoPk =>
                  exact quiet_of_skipped record rfl rfl rfl rfl rfl rfl (skipped nofun) rfl

/-- What waits after the window is taken is what waited. -/
theorem waiting_beginSubmission (process : AdapterProcess) (final : Bool)
    (idle : process.submission = none) (handed : HandedRow) :
    handed ∈ (process.beginSubmission final).waiting ↔ handed ∈ process.waiting := by
  simp only [AdapterProcess.mem_waiting, AdapterProcess.beginSubmission, idle]
  simp

/-- What waits after the submitter has received a row is what waited. -/
theorem waiting_receive (process : AdapterProcess) (idle : process.submission = none)
    (handed : HandedRow) :
    handed ∈ (process.receive config).waiting ↔ handed ∈ process.waiting := by
  rw [AdapterProcess.receive]
  cases queue : process.channel with
  | nil => rfl
  | cons first rest =>
      have moved : ∀ other : AdapterProcess, other.waiting = rest ++ (process.window ++ [first]) ++
          [] ++ process.lost → (handed ∈ other.waiting ↔ handed ∈ process.waiting) := by
        intro other same
        rw [same, AdapterProcess.mem_waiting, queue, idle]
        simp
        tauto
      dsimp only
      split
      · refine (waiting_beginSubmission _ false ?_ handed).trans (moved _ ?_)
        · exact idle
        · simp [AdapterProcess.waiting, idle]
      · exact moved _ (by simp [AdapterProcess.waiting, idle])

/-- A settled window leaves what waits for the settled ones. -/
theorem quiet_settle (saved : Bool) :
    Relay.Quiet (walRows config wal) WalRecord.walStart s.relay (s.settle saved).relay := by
  rw [Cdc.settle]
  cases under : s.process.submission with
  | none =>
      exact quiet_of_moved rfl rfl subset_rfl le_rfl id rfl (fun _ waits => waits)
        (fun _ waits => .inl waits)
  | some submission =>
      refine quiet_of_moved rfl rfl ?_ le_rfl id rfl ?_ ?_
      · rintro record ⟨window, listed, handed, inside, rfl⟩
        exact ⟨window, List.mem_append_left _ listed, handed, inside, rfl⟩
      · intro handed waits
        simp only [AdapterProcess.mem_waiting, under, Option.map_none, Option.getD_none,
          List.not_mem_nil, false_or] at waits ⊢
        tauto
      · intro handed waits
        simp only [AdapterProcess.mem_waiting, under, Option.map_some, Option.getD_some] at waits ⊢
        rcases waits with queued | pending | inside | gone
        · exact .inl (.inl queued)
        · exact .inl (.inr (.inl pending))
        · exact .inr ⟨submission.rows, List.mem_append_right _ (List.mem_singleton_self _), handed,
            inside, rfl⟩
        · exact .inl (.inr (.inr (.inr gone)))

/-- A failed window is lost, and waits for ever. -/
theorem quiet_fail :
    Relay.Quiet (walRows config wal) WalRecord.walStart s.relay s.fail.relay := by
  rw [Cdc.fail]
  cases under : s.process.submission with
  | none =>
      exact quiet_of_moved rfl rfl subset_rfl le_rfl id rfl (fun _ waits => waits)
        (fun _ waits => .inl waits)
  | some submission =>
      have same : ∀ handed, handed ∈ s.process.waiting ↔ handed ∈ ({ s.process with
          submission := none, running := false, lost := s.process.lost ++ submission.rows } :
            AdapterProcess).waiting := by
        intro handed
        simp only [AdapterProcess.mem_waiting, under, Option.map_some, Option.getD_some,
          Option.map_none, Option.getD_none, List.not_mem_nil, List.mem_append]
        tauto
      exact quiet_of_moved rfl rfl subset_rfl le_rfl id rfl (fun handed waits => (same handed).mpr
        waits) (fun handed waits => .inl ((same handed).mp waits))

/-- The window is taken for submission, or nothing changes. -/
theorem quiet_of_sameWaiting (start : t.process.start = s.process.start)
    (statuses : t.statuses = s.statuses) (settled : t.settled = s.settled)
    (reached : t.process.lastLsn = s.process.lastLsn)
    (streaming : t.process.streaming = s.process.streaming)
    (received : t.process.received = s.process.received)
    (waiting : ∀ handed, handed ∈ t.process.waiting ↔ handed ∈ s.process.waiting) :
    Relay.Quiet (walRows config wal) WalRecord.walStart s.relay t.relay := by
  refine quiet_of_moved start statuses ?_ reached.ge (fun live => streaming ▸ live) received
    (fun handed waits => (waiting handed).mp waits)
    (fun handed waits => .inl ((waiting handed).mpr waits))
  rw [Cdc.settledRecords, Cdc.settledRecords, settled]

variable (config) in
theorem receive_keeps (process : AdapterProcess) :
    (process.receive config).start = process.start ∧
      (process.receive config).lastLsn = process.lastLsn ∧
      (process.receive config).streaming = process.streaming ∧
      (process.receive config).received = process.received := by
  rw [AdapterProcess.receive]
  split
  · exact ⟨rfl, rfl, rfl, rfl⟩
  · dsimp only
    split <;> exact ⟨rfl, rfl, rfl, rfl⟩

variable (config) in
/-- **Every step but an update that goes out and a restart is quiet.** -/
theorem quiet_step (allowed : s.allowed wal action) (noStatus : action ≠ .status true)
    (noRestart : ∀ start, action ≠ .restart start) :
    Relay.Quiet (walRows config wal) WalRecord.walStart s.relay
      (Cdc.step config s action).relay := by
  cases action with
  | frame frame send => exact quiet_frame allowed.2.2.1
  | status written =>
      cases written with
      | false => exact quiet_of_ended rfl rfl rfl le_rfl rfl rfl
      | true => exact absurd rfl noStatus
  | receive =>
      obtain ⟨start, reached, streaming, received⟩ := receive_keeps config s.process
      exact quiet_of_sameWaiting start rfl rfl reached streaming received
        (waiting_receive s.process allowed.2.1)
  | flush =>
      simp only [Cdc.step]
      split
      · exact quiet_of_sameWaiting rfl rfl rfl rfl rfl rfl fun _ => Iff.rfl
      · exact quiet_of_sameWaiting rfl rfl rfl rfl rfl rfl
          (waiting_beginSubmission s.process false allowed.2)
  | drained =>
      simp only [Cdc.step]
      split
      · exact quiet_of_sameWaiting rfl rfl rfl rfl rfl rfl fun _ => Iff.rfl
      · exact quiet_of_sameWaiting rfl rfl rfl rfl rfl rfl
          (waiting_beginSubmission s.process true allowed.2.1)
  | settle saved => exact quiet_settle saved
  | fail => exact quiet_fail
  | restart start => exact absurd rfl (noRestart start)

end Relaying

/-! ## Runs -/

/-- Whenever a status update goes out, the relay is clear: every row that was handed over and is
still in the channel, in a window, under submission or lost was settled by an earlier window, and
every row of the log up to the position has been received or was settled. -/
def clearUpdates (config : CdcConfig) (wal : List WalRecord) : Machine Cdc CdcAction where
  allowed s action := action = .status true →
    Relay.Clear (walRows config wal) WalRecord.walStart s.relay
  step := Cdc.step config

/-- What was acknowledged is settled: every row of the log at or below a flush position that was
sent is in a settled window. -/
def Cdc.AcknowledgedSettled (config : CdcConfig) (wal : List WalRecord) (s : Cdc) : Prop :=
  ∀ position ∈ s.statuses, ∀ record ∈ wal, record.IsRow config → record.walStart ≤ position →
    ∃ window ∈ s.settled, ∃ handed ∈ window, handed.record = record

variable {wal : List WalRecord} {config : CdcConfig}

theorem acknowledgedSettled_iff :
    s.AcknowledgedSettled config wal ↔ Relay.Safe (walRows config wal) WalRecord.walStart s.relay :=
  ⟨fun settled position sent record logged below =>
    settled position sent record logged.1 logged.2 below,
  fun safe position sent record member isRow below =>
    safe position sent record ⟨member, isRow⟩ below⟩

/-- A written status update is the relay's acknowledgement. -/
theorem relay_status (config : CdcConfig) (s : Cdc) :
    (Cdc.step config s (.status true)).relay = s.relay.acknowledge := by
  have acked : {position | position ∈ s.statuses ++ [s.process.lastLsn]} =
      insert s.process.lastLsn {position | position ∈ s.statuses} := by
    ext position
    simp [or_comm]
  simp only [Cdc.step, Cdc.sendStatus, if_pos, Cdc.relay, Relay.acknowledge, acked,
    AdapterProcess.waiting, Cdc.settledRecords]

theorem relay_restart (config : CdcConfig) (s : Cdc) (start : ℕ) :
    (Cdc.step config s (.restart start)).relay = s.relay.reconnect start := by
  simp [Cdc.step, Cdc.relay, Relay.reconnect, AdapterProcess.connected, AdapterProcess.waiting,
    Cdc.settledRecords]

/-- **One step**: it keeps the relay sound, and what was acknowledged settled, unless a status
update goes out from a state that is not clear. -/
theorem step_settled_iff (sound : Relay.Sound (walRows config wal) WalRecord.walStart s.relay)
    (settled : s.AcknowledgedSettled config wal) (allowed : s.allowed wal action) :
    Relay.Sound (walRows config wal) WalRecord.walStart (Cdc.step config s action).relay ∧
      ((Cdc.step config s action).AcknowledgedSettled config wal ↔
        (clearUpdates config wal).allowed s action) := by
  have safe := acknowledgedSettled_iff.mp settled
  rw [acknowledgedSettled_iff]
  by_cases update : action = .status true
  · subst update
    rw [relay_status]
    refine ⟨sound.acknowledge, ?_⟩
    rw [Relay.safe_acknowledge_iff (fun record _ => record.positive) sound allowed.1 safe]
    exact ⟨fun clear _ => clear, fun clear => clear rfl⟩
  by_cases restart : ∃ start, action = .restart start
  · obtain ⟨start, rfl⟩ := restart
    rw [relay_restart]
    exact ⟨.reconnect allowed, fun _ impossible => absurd impossible update, fun _ => safe⟩
  · have quiet := quiet_step config allowed update
      fun start same => restart ⟨start, same⟩
    exact ⟨sound.quiet quiet, fun _ same => absurd same update, fun _ => safe.quiet quiet⟩

/-- The step along a run. -/
theorem always_settled_iff {actions : List CdcAction}
    (sound : Relay.Sound (walRows config wal) WalRecord.walStart s.relay)
    (settled : s.AcknowledgedSettled config wal)
    (allows : (cdcMachine config wal).Allows s actions) :
    (cdcMachine config wal).Always (Cdc.AcknowledgedSettled config wal) s actions ↔
      (clearUpdates config wal).Allows s actions := by
  induction actions generalizing s with
  | nil => exact Machine.always_nil.trans (iff_of_true settled trivial)
  | cons action actions ih =>
      obtain ⟨still, goesOn⟩ := step_settled_iff sound settled allows.1
      rw [Machine.always_cons]
      constructor
      · rintro ⟨-, later⟩
        have next := later [] actions rfl
        exact ⟨goesOn.mp next, (ih still next allows.2).mp later⟩
      · rintro ⟨clear, later⟩
        have next := goesOn.mpr clear
        exact ⟨settled, (ih still next allows.2).mpr later⟩

/-- **In a run of the adapter everything acknowledged is settled, in every state, exactly when each
status update goes out from a clear state.** -/
theorem acknowledged_settled_iff (config : CdcConfig) (wal : List WalRecord) (cursor : Option ℕ)
    (actions : List CdcAction) (allows : (cdcMachine config wal).Allows (.boot cursor) actions) :
    (cdcMachine config wal).Always (Cdc.AcknowledgedSettled config wal) (.boot cursor) actions ↔
      (clearUpdates config wal).Allows (.boot cursor) actions := by
  have sound : Relay.Sound (walRows config wal) WalRecord.walStart (Cdc.boot cursor).relay := by
    refine ⟨.inl rfl, ?_, fun _ record read _ => absurd read List.not_mem_nil⟩
    rintro record ⟨handed, waits, -⟩
    exact absurd waits List.not_mem_nil
  exact always_settled_iff sound (fun position sent => absurd sent List.not_mem_nil) allows

/-! ## An order that is lost -/

/-- A mapping of orders. -/
def ordersMapping : CdcMapping where
  table := "public.orders"
  mapping := {
    memoryType := "Problem"
    titleColumn := "title"
    contentColumns := ["detail"]
    pkColumns := ["id"]
    tagsColumn := some "tags"
    parentColumn := some "parent_id"
    parentKind := some "Causes"
    mappingVersion := 1 }

/-- The insert of order 7. -/
def orderJson : JsonValue :=
  .object [("action", .string "I"), ("table", .string "public.orders"),
    ("columns", .array [.object [("name", .string "id"), ("value", .number "7")],
      .object [("name", .string "title"), ("value", .string "late order")]])]

/-- One text is known, and numbers are spelled as they stand. -/
def ordersConfig : CdcConfig where
  mapping := ordersMapping
  json := ⟨fun text => if text = "order 7" then some orderJson else none, fun
    | .number text => text
    | _ => ""⟩
  maxWindow := 256

def orderRecord : WalRecord := ⟨16, some "order 7", by decide⟩

theorem orderRecord_isRow : orderRecord.IsRow ordersConfig := by
  refine ⟨"order 7", _, rfl, rfl, rfl, .inl rfl, ?_⟩
  intro column listed
  obtain rfl := List.mem_singleton.mp listed
  exact ⟨"7", rfl, by decide⟩

/-- The order is in the channel when its position is acknowledged. -/
def acknowledgedInChannel : List CdcAction :=
  [.frame (.xLogData orderRecord) .queued, .status true, .restart 16]

/-- A keepalive comes before the order, which belongs to a transaction that is still open, and is
answered with its position. -/
def acknowledgedBefore : List CdcAction :=
  [.frame (.keepAlive 32 true) .queued, .status true, .restart 32]

/-- The order may be read by the stream, as the first frame. -/
theorem orderFrame_allowed :
    (Cdc.boot none).allowed [orderRecord] (.frame (.xLogData orderRecord) .queued) := by
  refine ⟨rfl, rfl, ?_, fun _ => by decide, nofun⟩
  rintro record same
  obtain rfl := StreamFrame.xLogData.inj same
  exact ⟨List.mem_singleton_self _, by decide⟩

/-- **The adapter acknowledges an order that it has not delivered**, and is not sent it again. -/
theorem not_acknowledged_settled :
    ((cdcMachine ordersConfig [orderRecord]).Allows (.boot none) acknowledgedInChannel ∧
      ¬ (cdcMachine ordersConfig [orderRecord]).Always
        (Cdc.AcknowledgedSettled ordersConfig [orderRecord]) (.boot none) acknowledgedInChannel) ∧
    (cdcMachine ordersConfig [orderRecord]).Allows (.boot none) acknowledgedBefore ∧
      ¬ (cdcMachine ordersConfig [orderRecord]).Always
        (Cdc.AcknowledgedSettled ordersConfig [orderRecord]) (.boot none) acknowledgedBefore := by
  have unsettled : ∀ {s : Cdc} {position : ℕ}, s.settled = [] → position ∈ s.statuses →
      16 ≤ position → ¬ s.AcknowledgedSettled ordersConfig [orderRecord] := by
    intro s position nothing sent above settled
    obtain ⟨window, listed, -⟩ := settled position sent orderRecord (List.mem_singleton_self _)
      orderRecord_isRow above
    rw [nothing] at listed
    exact absurd listed List.not_mem_nil
  refine ⟨⟨⟨?_, ?_, ?_, trivial⟩, ?_⟩, ⟨?_, ?_, ?_, trivial⟩, ?_⟩
  · exact orderFrame_allowed
  · exact ⟨rfl, rfl⟩
  · exact .inr (List.mem_singleton_self _)
  · intro always
    exact unsettled rfl (List.mem_singleton_self 16) le_rfl (always acknowledgedInChannel [] rfl)
  · exact ⟨rfl, rfl, nofun, fun _ => by decide, nofun⟩
  · exact ⟨rfl, rfl⟩
  · exact .inr (List.mem_singleton_self _)
  · intro always
    exact unsettled rfl (List.mem_singleton_self 32) (by decide)
      (always acknowledgedBefore [] rfl)

/-- The order is settled before its update goes out. -/
def settledFirst : List CdcAction :=
  [.frame (.xLogData orderRecord) .queued, .receive, .flush, .settle true, .status true]

theorem acknowledged_settled_iff_settledFirst :
    (cdcMachine ordersConfig [orderRecord]).Always
        (Cdc.AcknowledgedSettled ordersConfig [orderRecord]) (.boot none) settledFirst ↔
      (clearUpdates ordersConfig [orderRecord]).Allows (.boot none) settledFirst :=
  acknowledged_settled_iff ordersConfig [orderRecord] none settledFirst
    ⟨orderFrame_allowed, ⟨rfl, rfl, List.cons_ne_nil _ _⟩, ⟨rfl, rfl⟩, Option.some_ne_none _,
      ⟨rfl, rfl⟩, trivial⟩

end Exocortex
