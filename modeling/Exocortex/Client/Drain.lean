import Exocortex.Client.EndSession
import Exocortex.Client.LogRuns

/-!
# Draining the log

A drain reads the pending entries, rebuilds the batch of each, submits it, and marks the entry by
the answer. Wrapups may be written, entries imported and other drains be under way in the
meantime (`wrapupMachine`).

A wrapup is written once under its batch identity, and an entry is synced by the answer to its own
batch. But the lookup of a batch identity takes an entry in any state for the batch, also one
that was given up; and an answer without a single row counts as a success. Along a run without
these, an acknowledged wrapup is pending or synced, and synced only when the server has
committed it (`calmWrapups_keep`).
-/

namespace Exocortex

open Library

/-! ## The answers of the server -/

/-- What a producer does with a rejection. -/
inductive Disposition where
  | success
  | retry
  | permanent
  | fatal
deriving DecidableEq

/-- `guidance`, without the texts. -/
def classify : RejectCode → Disposition
  | .duplicateBatch => .success
  | .rateLimited => .retry
  | .unknown | .unknownMemoryType | .unknownKind | .invalidTypeTriple | .visibilityWidening
  | .missingExternalKey | .invalidExternalKey | .resourceLimitExceeded | .badChecksum
  | .computedKindRejected => .permanent
  | .unauthorized | .unknownSource | .incompatibleOntology | .sourceRewound | .schemaDrift
  | .projectionBoundExceeded => .fatal

def Disposition.rank : Disposition → ℕ
  | .success => 0
  | .retry => 1
  | .permanent => 2
  | .fatal => 3

/-- The worst disposition wins. -/
def worstDisposition (rejections : List RejectRow) : Disposition :=
  rejections.foldl (fun worst row =>
    if worst.rank < (classify row.code).rank then classify row.code else worst) .success

theorem classify_eq_success_iff {code : RejectCode} :
    classify code = .success ↔ code = .duplicateBatch := by
  cases code <;> simp [classify]

/-- Nothing is worse than a success exactly when every row is a replay. -/
theorem worstDisposition_eq_success_iff {rejections : List RejectRow} :
    worstDisposition rejections = .success ↔
      ∀ row ∈ rejections, row.code = .duplicateBatch := by
  have grows : ∀ (rows : List RejectRow) (worst : Disposition),
      rows.foldl (fun worst row =>
        if worst.rank < (classify row.code).rank then classify row.code else worst) worst =
          .success ↔ worst = .success ∧ ∀ row ∈ rows, row.code = .duplicateBatch := by
    intro rows
    induction rows with
    | nil => simp
    | cons row rows ih =>
        intro worst
        rw [List.foldl_cons, ih, List.forall_mem_cons, ← and_assoc]
        refine and_congr_left fun _ => ?_
        rw [← classify_eq_success_iff]
        cases worst <;> cases classify row.code <;> simp [Disposition.rank]
  simpa [worstDisposition] using grows rejections .success

/-- Outcome of a pass. -/
structure DrainReport where
  attempted : ℕ
  synced : ℕ
  failed : ℕ
  stillPending : ℕ
deriving DecidableEq

/-- What becomes of an entry whose batch was answered; the outcome of a mark is not looked at. -/
def settle (jsonLen : WalEntry → ℕ) (wal : Wal) (entry : WalEntry) (ack : IngestAck)
    (report : DrainReport) (tree : TreeOutcome) : Wal × DrainReport :=
  if 0 < ack.accepted then
    ((wal.marked jsonLen entry.localLsn (.synced ack.assignedLsn) tree).2,
      { report with synced := report.synced + 1 })
  else
    match worstDisposition ack.rejections with
    | .success => ((wal.marked jsonLen entry.localLsn (.synced ack.assignedLsn) tree).2,
        { report with synced := report.synced + 1 })
    | .retry => (wal, { report with stillPending := report.stillPending + 1 })
    | .permanent | .fatal => ((wal.marked jsonLen entry.localLsn .failed tree).2,
        { report with failed := report.failed + 1 })

/-- The drain input. -/
def Wal.pendingEntries (jsonLen : WalEntry → ℕ) (wal : Wal) : Except WalError (List WalEntry) :=
  (wal.entries jsonLen).map fun entries => entries.filter (·.state = .pending)

/-- How a submission ends. -/
inductive DrainAnswer where
  | unregistered
  | unreachable
  | ack (ack : IngestAck)

/-- A client of a personal node, with what its drains are run with. -/
structure WrapupNode where
  ontology : EffectiveOntology
  client : OfflineClient
  blake3 : List UInt8 → Bytes 32
  jsonLen : WalEntry → ℕ
  fingerprint : Bytes 32
  drainOrg : String

/-- A drain under way: the entries it has still to handle. -/
structure DrainPass where
  left : List WalEntry
  report : DrainReport
deriving DecidableEq

namespace WrapupNode

variable (node : WrapupNode)

/-- The next entry of a pass, from its batch to its mark. -/
def drainEntry (wal : Wal) (entry : WalEntry) (left : List WalEntry) (report : DrainReport)
    (answer : DrainAnswer) (tree : TreeOutcome) : Wal × DrainPass :=
  let report := { report with attempted := report.attempted + 1 }
  match rebuildBatch node.ontology node.blake3 node.fingerprint node.drainOrg entry with
  | .error _ => ((wal.marked node.jsonLen entry.localLsn .failed tree).2,
      ⟨left, { report with failed := report.failed + 1 }⟩)
  | .ok _ =>
      match answer with
      | .unregistered => (wal, ⟨left, { report with stillPending := report.stillPending + 1 }⟩)
      | .unreachable => (wal, ⟨[], { report with stillPending := report.stillPending + 1 }⟩)
      | .ack ack =>
          let (settled, report) := settle node.jsonLen wal entry ack report tree
          (settled, ⟨left, report⟩)

/-- `end_session_offline`, on a tree that may fail. -/
def endSession (now : DateTime) (mint : ℕ → MemoryId) (wal : Wal) (args : EndSessionArgs)
    (tree : TreeOutcome) : Except ToolError ℕ × Wal :=
  match offlineEntry node.ontology node.client node.blake3 now mint args with
  | .error error => (.error error, wal)
  | .ok entry =>
      match wal.appended node.jsonLen (.idempotent entry) tree with
      | (.error error, left) => (.error ⟨"wal-error", error.text⟩, left)
      | (.ok localLsn, written) =>
          match written.entry node.jsonLen localLsn with
          | .error error => (.error ⟨"wal-corrupt", error.text⟩, written)
          | .ok _ => (.ok localLsn, written)

end WrapupNode

/-! ## Interleavings -/

/-- The log, the drains under way, and the numbers that were given to entries appended under their
batch identities. -/
structure Wrapups where
  wal : Wal
  passes : List DrainPass
  numbers : List ℕ

inductive WrapupAction where
  | endSession (now : DateTime) (mint : ℕ → MemoryId) (args : EndSessionArgs) (tree : TreeOutcome)
  | append (call : LogCall) (tree : TreeOutcome)
  | drainStart
  | drainNext (pass : ℕ) (answer : DrainAnswer) (tree : TreeOutcome)

/-- The keys of the rows that were added. -/
def newKeys (wal written : Wal) : List ℕ := (written.rows.drop wal.rows.length).map (·.1)

namespace Wrapups

variable (node : WrapupNode)

def start (budget : ℕ) : Wrapups := ⟨.openWithBudget budget, [], []⟩

def step (s : Wrapups) : WrapupAction → Wrapups
  | .endSession now mint args tree =>
      let written := (node.endSession now mint s.wal args tree).2
      { s with wal := written, numbers := s.numbers ++ newKeys s.wal written }
  | .append call tree =>
      let written := (s.wal.appended node.jsonLen call tree).2
      match call with
      | .idempotent _ =>
          { s with wal := written, numbers := s.numbers ++ newKeys s.wal written }
      | _ => { s with wal := written }
  | .drainStart =>
      match s.wal.pendingEntries node.jsonLen with
      | .ok entries => { s with passes := s.passes ++ [⟨entries, ⟨0, 0, 0, 0⟩⟩] }
      | .error _ => s
  | .drainNext pass answer tree =>
      match s.passes[pass]? with
      | some ⟨entry :: left, report⟩ =>
          let (wal, rest) := node.drainEntry s.wal entry left report answer tree
          { s with wal := wal, passes := s.passes.set pass rest }
      | _ => s

end Wrapups

/-- Wrapups, imports and drains in any order. -/
def wrapupMachine (node : WrapupNode) : Machine Wrapups WrapupAction where
  allowed _ _ := True
  step s action := s.step node action

/-! ## What a step does to the log -/

/-- A log after a step: as it was, with new rows, or with a row marked. -/
inductive Wal.Changed (wal written : Wal) : Prop where
  | same : written = wal → Changed wal written
  | added (first : ℕ) (entries : List WalEntry) : wal.Added written first entries →
      Changed wal written
  | marked (localLsn : ℕ) (state : WalState) : wal.Marked written localLsn state →
      Changed wal written

namespace Wal

variable {jsonLen : WalEntry → ℕ} {wal written : Wal}

theorem changed_appended (call : LogCall) (tree : TreeOutcome) :
    wal.Changed (wal.appended jsonLen call tree).2 := by
  rcases wal.appended_cases jsonLen call tree with
    ⟨-, same⟩ | ⟨localLsn, written, performed, left, -⟩
  · exact .same same
  · rw [left]
    rcases performAppend_cases performed with same | ⟨entries, added⟩
    · exact .same same
    · exact .added localLsn entries added

theorem changed_marked (localLsn : ℕ) (state : WalState) (tree : TreeOutcome) :
    wal.Changed (wal.marked jsonLen localLsn state tree).2 := by
  rcases wal.marked_cases jsonLen localLsn state tree with ⟨-, same⟩ | ⟨-, marked⟩
  · exact .same same
  · exact .marked localLsn state marked

theorem Dense.changed (dense : wal.Dense) (changed : wal.Changed written) : written.Dense := by
  cases changed with
  | same same => exact same ▸ dense
  | added first entries added => exact dense.added added
  | marked localLsn state marked => exact dense.marked marked

variable (jsonLen) in
/-- An append under a batch identity that succeeds names the row that it finds, or the row that it
adds; and the log is otherwise as it was. -/
theorem appended_idempotent (entry : WalEntry) (tree : TreeOutcome) :
    ((wal.appended jsonLen (.idempotent entry) tree).2 = wal ∧
        ∀ localLsn, (wal.appended jsonLen (.idempotent entry) tree).1 = .ok localLsn →
          wal.findEntry jsonLen entry.batchId = .ok (some localLsn)) ∨
      ∃ localLsn, wal.findEntry jsonLen entry.batchId = .ok none ∧
        wal.Added (wal.appended jsonLen (.idempotent entry) tree).2 localLsn [entry.fresh] ∧
        ∀ number, (wal.appended jsonLen (.idempotent entry) tree).1 = .ok number →
          number = localLsn := by
  have batch : entry.fresh.batchId = entry.batchId := rfl
  rcases wal.appended_cases jsonLen (.idempotent entry) tree with
    ⟨⟨error, failed⟩, same⟩ | ⟨localLsn, written, performed, left, replied⟩
  · refine .inl ⟨same, fun localLsn handed => ?_⟩
    rw [failed] at handed
    cases handed
  · have number : ∀ number, (wal.appended jsonLen (.idempotent entry) tree).1 = .ok number →
        number = localLsn := by
      intro number handed
      rcases replied with replied | ⟨text, rfl⟩
      · rw [replied] at handed
        cases handed
        rfl
      · simp only [appended, performed] at handed
        split at handed
        · cases handed
          rfl
        · cases handed
    rw [left]
    rcases appendBatchFullIdempotent_cases performed with ⟨found, rfl⟩ | ⟨missing, inserted⟩
    · refine .inl ⟨rfl, fun other handed => ?_⟩
      rw [number other handed]
      exact batch ▸ found
    · exact .inr ⟨localLsn, batch ▸ missing, (insertEntryLocked_added inserted).1, number⟩

variable {batchId : String}

/-- A batch identity that is missing is on no row. -/
theorem findEntry_none (named : batchId.isEmpty = false)
    (missing : wal.findEntry jsonLen batchId = .ok none) :
    ∀ row ∈ wal.rows, row.2.batchId ≠ batchId := by
  rw [findEntry, named, if_neg Bool.false_ne_true] at missing
  exact findBatch_none missing

theorem findEntry_some {key : ℕ} (found : wal.findEntry jsonLen batchId = .ok (some key)) :
    ∃ stored, (key, stored) ∈ wal.rows := by
  rw [findEntry] at found
  split at found
  · cases found
  · obtain ⟨stored, listed, -⟩ := findBatch_some found
    exact ⟨stored, listed⟩

end Wal

theorem newKeys_self (wal : Wal) : newKeys wal wal = [] := by
  simp [newKeys]

variable {entries : List WalEntry}

theorem newKeys_added {wal written : Wal} {first : ℕ} (added : wal.Added written first entries) :
    newKeys wal written = List.range' first entries.length := by
  rw [newKeys, added.rows, List.drop_left, Wal.rekey_keys]

/-- What the log of a wrapup is: the log as it was, or after an append of its entry. -/
theorem WrapupNode.endSession_cases (node : WrapupNode) (now : DateTime) (mint : ℕ → MemoryId)
    (wal : Wal) (args : EndSessionArgs) (tree : TreeOutcome) :
    ((∃ error, (node.endSession now mint wal args tree).1 = .error error) ∧
        (node.endSession now mint wal args tree).2 = wal) ∨
      ∃ entry, offlineEntry node.ontology node.client node.blake3 now mint args = .ok entry ∧
        (node.endSession now mint wal args tree).2 =
          (wal.appended node.jsonLen (.idempotent entry) tree).2 ∧
        ∀ localLsn, (node.endSession now mint wal args tree).1 = .ok localLsn →
          (wal.appended node.jsonLen (.idempotent entry) tree).1 = .ok localLsn := by
  unfold endSession
  cases accepted : offlineEntry node.ontology node.client node.blake3 now mint args with
  | error error => exact .inl ⟨⟨error, rfl⟩, rfl⟩
  | ok entry =>
      refine .inr ⟨entry, rfl, ?_⟩
      simp only
      generalize wal.appended node.jsonLen (.idempotent entry) tree = outcome
      obtain ⟨reply, written⟩ := outcome
      cases reply with
      | error error =>
          refine ⟨rfl, fun localLsn impossible => ?_⟩
          cases impossible
      | ok localLsn =>
          simp only
          split
          · refine ⟨rfl, fun number impossible => ?_⟩
            cases impossible
          · refine ⟨rfl, fun number handed => ?_⟩
            cases handed
            rfl

/-- What the handling of an entry does to the log: nothing, or it marks the entry; and it marks it
as synced only when its batch was answered so. -/
theorem WrapupNode.drainEntry_cases (node : WrapupNode) (wal : Wal) (entry : WalEntry)
    (left : List WalEntry) (report : DrainReport) (answer : DrainAnswer) (tree : TreeOutcome) :
    ((node.drainEntry wal entry left report answer tree).1 = wal ∨
      ∃ state, (node.drainEntry wal entry left report answer tree).1 =
          (wal.marked node.jsonLen entry.localLsn state tree).2 ∧
        (state = .failed ∨ ∃ ack batch, answer = .ack ack ∧
          rebuildBatch node.ontology node.blake3 node.fingerprint node.drainOrg entry = .ok batch ∧
          state = .synced ack.assignedLsn ∧
          (0 < ack.accepted ∨ ∀ row ∈ ack.rejections, row.code = .duplicateBatch))) ∧
      (node.drainEntry wal entry left report answer tree).2.left ⊆ left := by
  unfold drainEntry
  cases rebuilt : rebuildBatch node.ontology node.blake3 node.fingerprint node.drainOrg entry with
  | error error => exact ⟨.inr ⟨.failed, rfl, .inl rfl⟩, List.Subset.refl _⟩
  | ok batch =>
      cases answer with
      | unregistered => exact ⟨.inl rfl, List.Subset.refl _⟩
      | unreachable => exact ⟨.inl rfl, List.nil_subset _⟩
      | ack ack =>
          refine ⟨?_, List.Subset.refl _⟩
          simp only [settle]
          by_cases accepted : 0 < ack.accepted
          · rw [if_pos accepted]
            exact .inr ⟨_, rfl, .inr ⟨ack, batch, rfl, rfl, rfl, .inl accepted⟩⟩
          · rw [if_neg accepted]
            cases worst : worstDisposition ack.rejections with
            | success =>
                exact .inr ⟨_, rfl, .inr ⟨ack, batch, rfl, rfl, rfl,
                  .inr (worstDisposition_eq_success_iff.mp worst)⟩⟩
            | retry => exact .inl rfl
            | permanent => exact .inr ⟨.failed, rfl, .inl rfl⟩
            | fatal => exact .inr ⟨.failed, rfl, .inl rfl⟩

/-! ## The invariant -/

variable {entry : WalEntry}

namespace Wrapups

/-- Entries appended under one batch identity are one entry. -/
def Once (numbers : List ℕ) (wal : Wal) : Prop :=
  ∀ key ∈ numbers, ∀ other ∈ numbers, ∀ first second : WalEntry, (key, first) ∈ wal.rows →
    (other, second) ∈ wal.rows → first.batchId.isEmpty = false →
      first.batchId = second.batchId → key = other

/-- The entries that a drain holds are the rows of the log as they were when it started. -/
def Drains (passes : List DrainPass) (wal : Wal) : Prop :=
  ∀ pass ∈ passes, ∀ entry ∈ pass.left, ∃ stored, (entry.localLsn, stored) ∈ wal.rows ∧
    entry = { stored.readBack with state := .pending }

structure Held (s : Wrapups) : Prop where
  dense : s.wal.Dense
  given : ∀ number ∈ s.numbers, number ≤ s.wal.rows.length
  once : Once s.numbers s.wal
  drains : Drains s.passes s.wal

variable {jsonLen : WalEntry → ℕ} {wal written : Wal} {numbers : List ℕ} {passes : List DrainPass}

theorem Drains.changed (drains : Drains passes wal) (changed : wal.Changed written) :
    Drains passes written := by
  intro pass member entry listed
  obtain ⟨stored, there, content⟩ := drains pass member entry listed
  cases changed with
  | same same => exact ⟨stored, same ▸ there, content⟩
  | added first entries added =>
      exact ⟨stored, added.rows ▸ List.mem_append_left _ there, content⟩
  | marked localLsn state marked =>
      by_cases here : entry.localLsn = localLsn
      · refine ⟨{ stored.readBack with state := state }, ?_, ?_⟩
        · rw [marked.rows]
          refine List.mem_map.mpr ⟨_, there, ?_⟩
          rw [if_pos here, here]
        · have again := Wal.readBack_readBack stored
          rw [content]
          exact congrArg (fun kept : WalEntry => { kept with state := .pending }) again.symm
      · refine ⟨stored, ?_, content⟩
        rw [marked.rows]
        refine List.mem_map.mpr ⟨_, there, ?_⟩
        rw [if_neg here]

/-- The rows under old numbers keep their batch identities. -/
theorem Once.changed (once : Once numbers wal) (dense : wal.Dense)
    (given : ∀ number ∈ numbers, number ≤ wal.rows.length) (changed : wal.Changed written) :
    Once numbers written := by
  have older : ∀ key ∈ numbers, ∀ entry, (key, entry) ∈ written.rows →
      ∃ old, (key, old) ∈ wal.rows ∧ old.batchId = entry.batchId := by
    intro key member entry listed
    cases changed with
    | same same => exact ⟨entry, same ▸ listed, rfl⟩
    | added first entries added =>
        rw [added.rows] at listed
        rcases List.mem_append.mp listed with old | new
        · exact ⟨entry, old, rfl⟩
        · have place := (Wal.nextLsn_dense dense.keys added.next).1
          have large : key ∈ List.range' first entries.length :=
            Wal.rekey_keys first entries ▸ List.mem_map_of_mem (f := Prod.fst) new
          have bound := given key member
          have low := (List.mem_range'_1.mp large).1
          omega
    | marked localLsn state marked =>
        rw [marked.rows] at listed
        obtain ⟨row, there, same⟩ := List.mem_map.mp listed
        obtain ⟨number, old⟩ := row
        split at same
        · next here =>
            cases same
            cases here
            exact ⟨old, there, rfl⟩
        · cases same
          exact ⟨entry, there, rfl⟩
  intro key member other there first second listed found named same
  obtain ⟨old, oldListed, oldBatch⟩ := older key member first listed
  obtain ⟨older, olderListed, olderBatch⟩ := older other there second found
  refine once key member other there old older oldListed olderListed ?_ ?_
  · rw [oldBatch, named]
  · rw [oldBatch, same, olderBatch]

/-- One more entry under a batch identity that is on no row. -/
theorem Once.added (once : Once numbers wal) (dense : wal.Dense)
    (given : ∀ number ∈ numbers, number ≤ wal.rows.length) {localLsn : ℕ}
    (missing : wal.findEntry jsonLen entry.batchId = .ok none)
    (added : wal.Added written localLsn [entry]) : Once (numbers ++ [localLsn]) written := by
  have place := (Wal.nextLsn_dense dense.keys added.next).1
  have old := once.changed dense given (.added _ _ added)
  -- A row under an old number is an old row, and has another batch identity.
  have apart : ∀ key ∈ numbers, ∀ stored, (key, stored) ∈ written.rows →
      entry.batchId.isEmpty = false → stored.batchId ≠ entry.batchId := by
    intro key member stored listed named
    rw [added.rows] at listed
    rcases List.mem_append.mp listed with there | new
    · exact Wal.findEntry_none named missing _ there
    · have same : key = localLsn := congrArg Prod.fst (List.mem_singleton.mp new)
      have bound := given key member
      omega
  have newest : ∀ stored, (localLsn, stored) ∈ written.rows → stored.batchId = entry.batchId := by
    intro stored listed
    have there : (localLsn, { entry with localLsn := localLsn }) ∈ written.rows := by
      rw [added.rows]
      exact List.mem_append_right _ (List.mem_singleton.mpr rfl)
    rw [Wal.row_unique listed there]
  intro key member other there first second listed found named same
  rcases List.mem_append.mp member with oldKey | newKey
  · rcases List.mem_append.mp there with oldOther | newOther
    · exact old key oldKey other oldOther first second listed found named same
    · rw [List.mem_singleton.mp newOther] at found
      have batch := newest second found
      rw [same.trans batch] at named
      exact absurd (same.trans batch) (apart key oldKey first listed named)
  · rw [List.mem_singleton.mp newKey] at listed
    have batch := newest first listed
    rcases List.mem_append.mp there with oldOther | newOther
    · rw [batch] at named
      exact absurd (same.symm.trans batch) (apart other oldOther second found named)
    · rw [List.mem_singleton.mp newKey, List.mem_singleton.mp newOther]

theorem length_le_of_changed (changed : wal.Changed written) :
    wal.rows.length ≤ written.rows.length := by
  cases changed with
  | same same => rw [same]
  | added first entries added =>
      rw [added.rows, List.length_append]
      exact Nat.le_add_right _ _
  | marked localLsn state marked => rw [marked.rows, List.length_map]

variable {s : Wrapups}

/-- A change of the log that gives out no number under a batch identity. -/
theorem Held.changed (held : s.Held) (changed : s.wal.Changed written)
    (drains : Drains passes written) : (Wrapups.mk written passes s.numbers).Held where
  dense := held.dense.changed changed
  given := fun number member =>
    (held.given number member).trans (length_le_of_changed changed)
  once := held.once.changed held.dense held.given changed
  drains := drains

/-- An append under a batch identity keeps the invariant. -/
theorem Held.idempotent (held : s.Held) (entry : WalEntry) (tree : TreeOutcome) :
    (Wrapups.mk (s.wal.appended jsonLen (.idempotent entry) tree).2 s.passes
      (s.numbers ++
        newKeys s.wal (s.wal.appended jsonLen (.idempotent entry) tree).2)).Held := by
  rcases s.wal.appended_idempotent jsonLen entry tree with
    ⟨same, -⟩ | ⟨localLsn, missing, added, -⟩
  · rw [same, newKeys_self, List.append_nil]
    exact held
  · have changed : s.wal.Changed _ := .added _ _ added
    refine ⟨held.dense.changed changed, ?_, ?_, held.drains.changed changed⟩
    · intro number member
      have longer : s.wal.rows.length + 1 =
          (s.wal.appended jsonLen (.idempotent entry) tree).2.rows.length := by
        rw [added.rows, List.length_append]
        rfl
      rcases List.mem_append.mp member with old | new
      · exact (held.given number old).trans (length_le_of_changed changed)
      · rw [newKeys_added added] at new
        have only : number = localLsn := List.mem_singleton.mp new
        rw [only, (Wal.nextLsn_dense held.dense.keys added.next).1, longer]
    · have batch : entry.fresh.batchId = entry.batchId := rfl
      rw [newKeys_added added]
      exact held.once.added held.dense held.given (batch ▸ missing) added

theorem pendingEntries_rows (dense : wal.Dense) (read : wal.pendingEntries jsonLen = .ok entries) :
    ∀ entry ∈ entries, ∃ stored, (entry.localLsn, stored) ∈ wal.rows ∧
      entry = { stored.readBack with state := .pending } := by
  rw [Wal.pendingEntries] at read
  cases decoded : wal.entries jsonLen with
  | error error =>
      rw [decoded] at read
      cases read
  | ok all =>
      rw [decoded] at read
      cases read
      intro entry member
      obtain ⟨listed, isPending⟩ := List.mem_filter.mp member
      have state : entry.state = .pending := of_decide_eq_true isPending
      obtain ⟨row, there, ok⟩ := mapM_ok_result decoded listed
      have content := Wal.decodeAt_ok jsonLen ok
      obtain ⟨key, stored⟩ := row
      have number : stored.localLsn = key := dense.numbered _ there
      refine ⟨stored, ?_, ?_⟩
      · rw [content]
        exact number ▸ there
      · rw [← content, ← state]

variable {node : WrapupNode}

/-- **Every step keeps the invariant.** -/
theorem Held.step (held : s.Held) (action : WrapupAction) : (s.step node action).Held := by
  cases action with
  | endSession now mint args tree =>
      simp only [Wrapups.step]
      rcases node.endSession_cases now mint s.wal args tree with
        ⟨-, same⟩ | ⟨entry, -, written, -⟩
      · rw [same, newKeys_self, List.append_nil]
        exact held
      · rw [written]
        exact held.idempotent entry tree
  | append call tree =>
      have changed : s.wal.Changed (s.wal.appended node.jsonLen call tree).2 :=
        Wal.changed_appended call tree
      cases call with
      | idempotent entry => exact held.idempotent entry tree
      | full entry => exact held.changed changed (held.drains.changed changed)
      | imported entry => exact held.changed changed (held.drains.changed changed)
      | importedBatch entries => exact held.changed changed (held.drains.changed changed)
  | drainStart =>
      simp only [Wrapups.step]
      split
      · next entries read =>
          refine ⟨held.dense, held.given, held.once, ?_⟩
          intro pass member entry listed
          rcases List.mem_append.mp member with old | new
          · exact held.drains pass old entry listed
          · rw [List.mem_singleton.mp new] at listed
            exact pendingEntries_rows held.dense read entry listed
      · exact held
  | drainNext pass answer tree =>
      simp only [Wrapups.step]
      split
      · next entry left report found =>
          obtain ⟨outcome, rest⟩ := node.drainEntry_cases s.wal entry left report answer tree
          have changed : s.wal.Changed (node.drainEntry s.wal entry left report answer tree).1 := by
            rcases outcome with same | ⟨state, marked, -⟩
            · exact .same same
            · rw [marked]
              exact Wal.changed_marked _ _ _
          refine held.changed changed ?_
          intro other member held_entry listed
          rcases List.mem_or_eq_of_mem_set member with old | rfl
          · exact held.drains.changed changed other old held_entry listed
          · refine held.drains.changed changed _ (List.mem_of_getElem? found) held_entry ?_
            exact List.mem_cons_of_mem _ (rest listed)
      · exact held

theorem held_start (budget : ℕ) : (start budget).Held where
  dense := Wal.dense_openWithBudget budget
  given := fun _ member => absurd member List.not_mem_nil
  once := fun _ member => absurd member List.not_mem_nil
  drains := fun _ member => absurd member List.not_mem_nil

end Wrapups

theorem wrapupMachine_held (node : WrapupNode) (budget : ℕ) (actions : List WrapupAction) :
    ((wrapupMachine node).run (.start budget) actions).Held := by
  refine List.foldlRecOn (motive := Wrapups.Held) actions _ (Wrapups.held_start budget) ?_
  exact fun s held action _ => held.step action

/-! ## Calm runs -/

namespace Wrapups

variable (node : WrapupNode) (s : Wrapups)

/-- The number that a successful append under a batch identity answers with. -/
def answer : WrapupAction → Option ℕ
  | .endSession now mint args tree => (node.endSession now mint s.wal args tree).1.toOption
  | .append (.idempotent entry) tree =>
      (s.wal.appended node.jsonLen (.idempotent entry) tree).1.toOption
  | _ => none

/-- The step hands on the answer of the server that the batch of the entry is committed. -/
structure Committed (action : WrapupAction) (key : ℕ) (content : WalEntry) : Prop where
  answered : ∃ pass report left entry batch ack tree, action = .drainNext pass (.ack ack) tree ∧
    s.passes[pass]? = some ⟨entry :: left, report⟩ ∧ entry.localLsn = key ∧
    entry = { content.readBack with state := .pending } ∧
    rebuildBatch node.ontology node.blake3 node.fingerprint node.drainOrg entry = .ok batch ∧
    (0 < ack.accepted ∨ ∃ row ∈ ack.rejections, row.code = .duplicateBatch)

/-- What a step has to keep: a wrapup that is acknowledged is pending or synced, and an entry
becomes synced only by an answer that says so. -/
structure Keeps (action : WrapupAction) : Prop where
  acknowledged : ∀ localLsn, s.answer node action = some localLsn →
    ∃ stored, (localLsn, stored) ∈ (s.step node action).wal.rows ∧
      (stored.state = .pending ∨ ∃ lsn, stored.state = .synced lsn)
  committed : ∀ key old new lsn, (key, old) ∈ s.wal.rows → (∀ lsn, old.state ≠ .synced lsn) →
    (key, new) ∈ (s.step node action).wal.rows → new.state = .synced lsn →
      s.Committed node action key old

/-- The entry that a batch identity finds is not one that was given up. -/
def NotGivenUp (batchId : String) : Prop :=
  ∀ key stored, s.wal.findEntry node.jsonLen batchId = .ok (some key) →
    (key, stored) ∈ s.wal.rows → stored.state ≠ .failed

/-- No batch is handed in again after it was given up, and no answer is empty. -/
def Calm : WrapupAction → Prop
  | .endSession now mint args _ =>
      ∀ entry, offlineEntry node.ontology node.client node.blake3 now mint args = .ok entry →
        s.NotGivenUp node entry.batchId
  | .append (.idempotent entry) _ => s.NotGivenUp node entry.batchId
  | .drainNext _ (.ack ack) _ => 0 < ack.accepted ∨ ack.rejections ≠ []
  | _ => True

variable {node s}

variable {tree : TreeOutcome}

theorem acknowledged_idempotent {localLsn : ℕ} (calm : s.NotGivenUp node entry.batchId)
    (answered : (s.wal.appended node.jsonLen (.idempotent entry) tree).1 = .ok localLsn) :
    ∃ stored, (localLsn, stored) ∈
        (s.wal.appended node.jsonLen (.idempotent entry) tree).2.rows ∧
      (stored.state = .pending ∨ ∃ lsn, stored.state = .synced lsn) := by
  rcases s.wal.appended_idempotent node.jsonLen entry tree with
    ⟨same, found⟩ | ⟨number, -, added, named⟩
  · have lookup := found localLsn answered
    obtain ⟨stored, listed⟩ := Wal.findEntry_some lookup
    have kept := calm localLsn stored lookup listed
    rw [same]
    refine ⟨stored, listed, ?_⟩
    cases state : stored.state with
    | pending => exact .inl rfl
    | synced lsn => exact .inr ⟨lsn, rfl⟩
    | failed => exact absurd state kept
  · rw [named localLsn answered]
    refine ⟨{ entry.fresh with localLsn := number }, ?_, .inl rfl⟩
    rw [added.rows]
    exact List.mem_append_right _ (List.mem_singleton.mpr rfl)

/-- An append changes no row. -/
theorem row_appended {call : LogCall} {key : ℕ} {old new : WalEntry}
    (there : (key, old) ∈ s.wal.rows)
    (listed : (key, new) ∈ (s.wal.appended node.jsonLen call tree).2.rows) : new = old := by
  rcases s.wal.appended_cases node.jsonLen call tree with
    ⟨-, same⟩ | ⟨localLsn, written, performed, left, -⟩
  · rw [same] at listed
    exact Wal.row_unique listed there
  · rw [left] at listed
    rcases Wal.performAppend_cases performed with rfl | ⟨entries, added⟩
    · exact Wal.row_unique listed there
    · exact Wal.row_unique listed (added.rows ▸ List.mem_append_left _ there)

/-- **A calm step keeps what it should.** -/
theorem Held.keeps (held : s.Held) {action : WrapupAction} (calm : s.Calm node action) :
    s.Keeps node action := by
  constructor
  · intro localLsn answered
    cases action with
    | endSession now mint args tree =>
        have handed : (node.endSession now mint s.wal args tree).1 = .ok localLsn :=
          eq_ok_of_toOption answered
        rcases node.endSession_cases now mint s.wal args tree with
          ⟨⟨error, failed⟩, -⟩ | ⟨entry, accepted, written, replied⟩
        · rw [failed] at handed
          cases handed
        · simp only [Wrapups.step, written]
          exact acknowledged_idempotent (calm entry accepted) (replied localLsn handed)
    | append call tree =>
        cases call with
        | idempotent entry => exact acknowledged_idempotent calm (eq_ok_of_toOption answered)
        | full entry => cases answered
        | imported entry => cases answered
        | importedBatch entries => cases answered
    | drainStart => cases answered
    | drainNext pass answer tree => cases answered
  · intro key old new lsn there unsynced listed synced
    cases action with
    | endSession now mint args tree =>
        simp only [Wrapups.step] at listed
        have same : new = old := by
          rcases node.endSession_cases now mint s.wal args tree with
            ⟨-, same⟩ | ⟨entry, -, written, -⟩
          · rw [same] at listed
            exact Wal.row_unique listed there
          · rw [written] at listed
            exact row_appended there listed
        exact absurd (same ▸ synced) (unsynced lsn)
    | append call tree =>
        have same : new = old := by
          cases call <;> exact row_appended there listed
        exact absurd (same ▸ synced) (unsynced lsn)
    | drainStart =>
        simp only [Wrapups.step] at listed
        have same : new = old := by
          split at listed <;> exact Wal.row_unique listed there
        exact absurd (same ▸ synced) (unsynced lsn)
    | drainNext pass answer tree =>
        simp only [Wrapups.step] at listed
        split at listed
        · next entry left report found =>
            obtain ⟨outcome, -⟩ := node.drainEntry_cases s.wal entry left report answer tree
            rcases outcome with same | ⟨state, result, why⟩
            · rw [same] at listed
              exact absurd (Wal.row_unique listed there ▸ synced) (unsynced lsn)
            · rw [result] at listed
              rcases s.wal.marked_cases node.jsonLen entry.localLsn state tree with
                ⟨-, same⟩ | ⟨-, marked⟩
              · rw [same] at listed
                exact absurd (Wal.row_unique listed there ▸ synced) (unsynced lsn)
              · rw [marked.rows] at listed
                obtain ⟨row, before, equal⟩ := List.mem_map.mp listed
                split at equal
                · next here =>
                    cases equal
                    -- The entry that was marked is the one that the batch was made of.
                    obtain ⟨stored, kept, content⟩ :=
                      held.drains _ (List.mem_of_getElem? found) entry List.mem_cons_self
                    have same := Wal.row_unique kept there
                    rcases why with failed | ⟨ack, batch, rfl, rebuilt, -, committed⟩
                    · rw [failed] at synced
                      cases synced
                    · refine ⟨pass, report, left, entry, batch, ack, tree, rfl, found, rfl,
                        same ▸ content, rebuilt, ?_⟩
                      rcases committed with accepted | replays
                      · exact .inl accepted
                      · rcases calm with accepted | some
                        · exact .inl accepted
                        · obtain ⟨first, rows⟩ := List.exists_mem_of_ne_nil _ some
                          exact .inr ⟨first, rows, replays first rows⟩
                · cases equal
                  exact absurd (Wal.row_unique before there ▸ synced) (unsynced lsn)
        · exact absurd (Wal.row_unique listed there ▸ synced) (unsynced lsn)

end Wrapups

/-- Interleavings of calm steps. -/
def calmWrapups (node : WrapupNode) : Machine Wrapups WrapupAction :=
  (wrapupMachine node).restrict fun s action => s.Calm node action

/-- **Along every calm interleaving** of wrapups, imports and drains, entries that were appended
under one batch identity are one entry, an acknowledged wrapup is pending or synced, and an entry
becomes synced only when the server has acknowledged its batch as committed. -/
theorem calmWrapups_keep {node : WrapupNode} {budget : ℕ} {before : List WrapupAction}
    {action : WrapupAction}
    (calm : (calmWrapups node).Allows (.start budget) (before ++ [action])) :
    Wrapups.Once ((wrapupMachine node).run (.start budget) (before ++ [action])).numbers
        ((wrapupMachine node).run (.start budget) (before ++ [action])).wal ∧
      ((wrapupMachine node).run (.start budget) before).Keeps node action := by
  refine ⟨(wrapupMachine_held node budget _).once, ?_⟩
  obtain ⟨-, ⟨-, last⟩, -⟩ := Machine.allows_append.mp calm
  exact (wrapupMachine_held node budget before).keeps last

/-! ## A wrapup that is handed in twice -/

def sampleNode : WrapupNode :=
  ⟨smallOntology, sampleClient, sampleDigest, sampleLen, .fill 32 1, "acme"⟩

/-- The sample request as an action. -/
def wrapup : WrapupAction := .endSession 5 sampleMint (sampleArgs "" solvesEdge) .done

/-- The server answers the first entry of the first drain. -/
def answered (accepted : ℕ) (rejections : List RejectRow) : WrapupAction :=
  .drainNext 0 (.ack ⟨"", accepted, rejections.length, rejections, 4⟩) .done

/-- A wrapup that the server has committed is synced, and handed in again it is acknowledged. -/
theorem calmWrapups_keep_committed :
    ((wrapupMachine sampleNode).run (.start 10000) [wrapup, .drainStart, answered 2 []]).Keeps
      sampleNode wrapup := by
  have accepted : ∀ wal : Wrapups, wal.wal.rows.all (fun row => row.2.state ≠ .failed) →
      wal.Calm sampleNode wrapup := by
    intro s kept entry _ key stored _ listed
    exact of_decide_eq_true (List.all_eq_true.mp kept _ listed)
  have calm : (calmWrapups sampleNode).Allows (.start 10000)
      ([wrapup, .drainStart, answered 2 []] ++ [wrapup]) := by
    refine ⟨⟨trivial, accepted _ rfl⟩, ⟨trivial, trivial⟩, ⟨trivial, .inl (by decide)⟩,
      ⟨trivial, accepted _ ?_⟩, trivial⟩
    decide +kernel
  exact (calmWrapups_keep calm).2

/-- A wrapup that the server has rejected is acknowledged when it is handed in again, and stays
given up; and an answer without rows makes an entry synced. -/
theorem not_calmWrapups_keep :
    (¬ ∀ (node : WrapupNode) (budget : ℕ) (before : List WrapupAction) (action : WrapupAction)
      (localLsn : ℕ), ((wrapupMachine node).run (.start budget) before).answer node action =
        some localLsn →
      ∀ row ∈ ((wrapupMachine node).run (.start budget) (before ++ [action])).wal.rows,
        row.1 = localLsn → row.2.state ≠ .failed) ∧
    ¬ ∀ (node : WrapupNode) (budget : ℕ) (before : List WrapupAction) (pass : ℕ) (ack : IngestAck),
      ∀ row ∈ ((wrapupMachine node).run (.start budget)
          (before ++ [.drainNext pass (.ack ack) .done])).wal.rows,
        (∀ old ∈ ((wrapupMachine node).run (.start budget) before).wal.rows,
          old.2.state = .pending) → row.2.state ≠ .pending → row.2.state ≠ .failed →
        0 < ack.accepted ∨ ∃ row ∈ ack.rejections, row.code = .duplicateBatch := by
  refine ⟨fun always => ?_, fun always => ?_⟩
  · have kept := always sampleNode 10000
      [wrapup, .drainStart, answered 0 [⟨"fix", .unauthorized, ""⟩]] wrapup 1 (by decide +kernel)
    have given : ∃ row ∈ ((wrapupMachine sampleNode).run (.start 10000)
        ([wrapup, .drainStart, answered 0 [⟨"fix", .unauthorized, ""⟩]] ++ [wrapup])).wal.rows,
        row.1 = 1 ∧ row.2.state = .failed := by decide +kernel
    obtain ⟨row, listed, first, failed⟩ := given
    exact kept row listed first failed
  · have given : ∃ row ∈ ((wrapupMachine sampleNode).run (.start 10000)
        ([wrapup, .drainStart] ++ [answered 0 []])).wal.rows,
        row.2.state ≠ .pending ∧ row.2.state ≠ .failed := by decide +kernel
    obtain ⟨row, listed, settled, kept⟩ := given
    rcases always sampleNode 10000 [wrapup, .drainStart] 0 _ row listed (by decide +kernel) settled
      kept with accepted | ⟨row, listed, -⟩
    · exact absurd accepted (by decide)
    · cases listed

end Exocortex
