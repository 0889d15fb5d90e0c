import Exocortex.Library.Runs
import Exocortex.Kernel.Upgrades
import Exocortex.Client.EndSession

/-!
# Backup and restore of the client's log

A backup is a document with every entry of the log, in order, and the summary of the
ontology. Importing checks the whole document before it writes the first row, and writes all
rows at once. As with rows of the log, the text of a document is not modelled: what matters
of it is its length, and that a float that is no number is written as `null`. In an edge hint
that is read as none; in the summary of a kind it cannot be read.

Importing runs the rulebook on whole drafts, while the offline path had run it on drafts
without their edges, and importing charges rows the overhead that appending left out. So a
log need not be restorable from its own backup. `Restorable` says when it is: every default
strength is a number, every kind of a stored edge may start at its draft, and the rows fit
the budget with their overhead.
-/

namespace Exocortex

open Library

/-- One backup document. -/
structure Backup where
  format : String
  version : ℕ
  createdAt : String
  ontologyFingerprint : String
  ontologySummary : Option OntologySummary
  entries : List WalEntry

namespace Backup

def formatName : String := "exocortex-backup"

def formatVersion : ℕ := 1

def maxBackupBytes : ℕ := 640 * 1024 * 1024

end Backup

inductive ExportError where
  | wal (error : WalError)
  | tooLarge (size : ℕ)
deriving DecidableEq

/-- `export`: the document that is written. -/
def exportBackup (jsonLen : WalEntry → ℕ) (documentLen : Backup → ℕ) (wal : Wal)
    (fingerprint : String) (summary : OntologySummary) (createdAt : String) :
    Except ExportError Backup :=
  match wal.entries jsonLen with
  | .error error => .error (.wal error)
  | .ok entries =>
      let document : Backup :=
        { format := Backup.formatName
          version := Backup.formatVersion
          createdAt := createdAt
          ontologyFingerprint := fingerprint
          ontologySummary := some summary
          entries := entries }
      if Backup.maxBackupBytes < documentLen document then .error (.tooLarge (documentLen document))
      else .ok document

/-- The document that the text of a document is parsed as. -/
def Backup.reparse (document : Backup) : Except String Backup :=
  if document.ontologySummary.all fun summary =>
      summary.kinds.all fun row => row.defaultStrength.isFinite then
    .ok { document with entries := document.entries.map (·.readBack) }
  else .error "invalid type: null, expected f32"

/-- Why an import is refused. -/
inductive ImportError where
  | unreadable (detail : String)
  | notABackup (format : String)
  | unsupportedVersion (version : ℕ)
  | ontologyMismatch (error : CompatibilityError)
  | lengthMismatch (entry : ℕ)
  | invalidDraft (entry draft : ℕ) (error : KernelError)
  | wal (error : WalError)
deriving DecidableEq

structure ImportReport where
  imported : ℕ
  firstLocalLsn : ℕ
deriving DecidableEq

/-- The check of one entry. -/
def checkEntry (ontology : EffectiveOntology) (entry : WalEntry) (index : ℕ) :
    Except ImportError Unit := do
  if entry.memories.length ≠ entry.memoryIds.length then throw (.lengthMismatch index)
  entry.memories.zipIdx.forM fun row =>
    (validateDraft ontology row.1 "backup-import" .org).mapError (.invalidDraft index row.2)

/-- Everything that is checked before the log is touched. -/
def checkBackup (ontology : EffectiveOntology) (buildFingerprint : Bytes 32)
    (document : Backup) : Except ImportError Unit := do
  if document.format ≠ Backup.formatName then throw (.notABackup document.format)
  if document.version ≠ Backup.formatVersion then throw (.unsupportedVersion document.version)
  let written := match document.ontologySummary with
    | some summary => BackupOntology.summarized summary
    | none => .legacy document.ontologyFingerprint
  (admitBackup written ontology buildFingerprint).mapError .ontologyMismatch
  document.entries.zipIdx.forM fun row => checkEntry ontology row.1 row.2

/-- `import` of a file: what it was parsed as, or why it could not be read. -/
def importBackup (jsonLen : WalEntry → ℕ) (ontology : EffectiveOntology)
    (buildFingerprint : Bytes 32) (wal : Wal) (parsed : Except String Backup) :
    Except ImportError ImportReport × Wal :=
  match parsed with
  | .error detail => (.error (.unreadable detail), wal)
  | .ok document =>
      match checkBackup ontology buildFingerprint document with
      | .error error => (.error error, wal)
      | .ok _ =>
          match wal.appendImportedBatch jsonLen document.entries with
          | .error error => (.error (.wal error), wal)
          | .ok (first, written) => (.ok ⟨document.entries.length, first⟩, written)

variable {buildFingerprint : Bytes 32}

/-- A failing import leaves the log as it was. -/
theorem importBackup_error {jsonLen : WalEntry → ℕ} {ontology : EffectiveOntology}
    {wal left : Wal} {parsed : Except String Backup} {error : ImportError}
    (failed : importBackup jsonLen ontology buildFingerprint wal parsed = (.error error, left)) :
    left = wal := by
  unfold importBackup at failed
  split at failed
  · exact (congrArg Prod.snd failed).symm
  · split at failed
    · exact (congrArg Prod.snd failed).symm
    · split at failed
      · exact (congrArg Prod.snd failed).symm
      · cases failed

/-! ## The log of a client -/

/-- A call on the log. -/
inductive WalCall where
  | endSession (client : OfflineClient) (now : DateTime) (mint : ℕ → MemoryId)
      (args : EndSessionArgs)
  | markSynced (localLsn backendLsn : ℕ)
  | markFailed (localLsn : ℕ)

/-- The log after a change of state. -/
def Wal.settled (wal : Wal) : Except WalError Wal → Bool × Wal
  | .error _ => (false, wal)
  | .ok written => (true, written)

section Log

variable (ontology : EffectiveOntology) (blake3 : List UInt8 → Bytes 32)
  (jsonLen : WalEntry → ℕ)

/-- A call: whether it succeeded, and the log after it. -/
def Wal.perform (wal : Wal) : WalCall → Bool × Wal
  | .endSession client now mint args =>
      let (outcome, written) := endSessionOffline ontology client blake3 jsonLen now mint wal args
      (outcome.isOk, written)
  | .markSynced localLsn backendLsn => wal.settled (wal.markSynced jsonLen localLsn backendLsn)
  | .markFailed localLsn => wal.settled (wal.markFailed jsonLen localLsn)

/-- Logs under successful calls. -/
def walMachine : Machine Wal WalCall where
  allowed wal call := (wal.perform ontology blake3 jsonLen call).1 = true
  step wal call := (wal.perform ontology blake3 jsonLen call).2

/-- What holds of a log that only successful calls have written to. -/
structure Wal.Sound (budget : ℕ) (wal : Wal) : Prop where
  maxBytes : wal.maxBytes = budget
  keys : wal.rows.map (·.1) = List.range' 1 wal.rows.length
  few : wal.rows.length < 2 ^ 64
  numbered : ∀ row ∈ wal.rows, row.2.localLsn = row.1
  parallel : ∀ row ∈ wal.rows, row.2.memories.length = row.2.memoryIds.length
  fields : ∀ row ∈ wal.rows, ∀ draft ∈ row.2.memories,
    validateFields draft "offline-wal" .org = .ok ()

variable {ontology blake3 jsonLen} {budget : ℕ} {wal written : Wal}

theorem Wal.Sound.empty : (Wal.openWithBudget budget).Sound budget where
  maxBytes := rfl
  keys := rfl
  few := Nat.two_pow_pos 64
  numbered := by simp [Wal.openWithBudget]
  parallel := by simp [Wal.openWithBudget]
  fields := by simp [Wal.openWithBudget]

variable {entry : WalEntry} {args : EndSessionArgs} {client : OfflineClient}
  {fingerprint createdAt : String}

/-- A new row with drafts that the offline path let through. -/
theorem Wal.Sound.insert (sound : wal.Sound budget) {localLsn : ℕ}
    (inserted : wal.insertEntryLocked jsonLen entry = .ok (localLsn, written))
    (parallel : entry.memories.length = entry.memoryIds.length)
    (fields : ∀ draft ∈ entry.memories, validateFields draft "offline-wal" .org = .ok ()) :
    written.Sound budget := by
  obtain ⟨found, maxBytes, rows⟩ := Wal.insertEntryLocked_ok jsonLen inserted
  obtain ⟨place, small⟩ := Wal.nextLsn_dense sound.keys found
  have member {row : ℕ × WalEntry} (listed : row ∈ written.rows) :
      row ∈ wal.rows ∨ row = (localLsn, { entry with localLsn := localLsn }) := by
    rw [rows] at listed
    simpa using listed
  refine ⟨maxBytes.trans sound.maxBytes, ?_, ?_, ?_, ?_, ?_⟩
  · rw [rows, List.map_append, sound.keys, List.length_append, List.map_singleton,
      List.length_singleton, ← List.range'_append_1, place, Nat.add_comm 1]
    rfl
  · rw [rows, List.length_append, List.length_singleton]
    omega
  · intro row listed
    rcases member listed with old | rfl
    · exact sound.numbered row old
    · rfl
  · intro row listed
    rcases member listed with old | rfl
    · exact sound.parallel row old
    · exact parallel
  · intro row listed
    rcases member listed with old | rfl
    · exact sound.fields row old
    · exact fields

theorem Wal.Sound.updateState (sound : wal.Sound budget) {localLsn : ℕ} {state : WalState}
    (updated : wal.updateState jsonLen localLsn state = .ok written) : written.Sound budget := by
  obtain ⟨stored, listed, rfl⟩ := Wal.updateState_ok jsonLen updated
  have member {row : ℕ × WalEntry}
      (there : row ∈ (wal.setRow localLsn { stored.readBack with state := state }).rows) :
      row ∈ wal.rows ∨ row = (localLsn, { stored.readBack with state := state }) := by
    obtain ⟨old, before, rfl⟩ := List.mem_map.mp there
    split
    · exact .inr rfl
    · exact .inl before
  have keys := Wal.keys_rewritten wal.rows localLsn { stored.readBack with state := state }
  have count : (wal.setRow localLsn { stored.readBack with state := state }).rows.length =
      wal.rows.length := by
    simp only [Wal.setRow, List.length_map]
  refine ⟨sound.maxBytes, ?_, ?_, ?_, ?_, ?_⟩
  · exact keys.trans (count ▸ sound.keys)
  · rw [count]
    exact sound.few
  · intro row there
    rcases member there with old | rfl
    · exact sound.numbered row old
    · exact sound.numbered (localLsn, stored) listed
  · intro row there
    rcases member there with old | rfl
    · exact sound.parallel row old
    · have lengths := sound.parallel _ listed
      simpa [WalEntry.readBack] using lengths
  · intro row there draft drafted
    rcases member there with old | rfl
    · exact sound.fields row old draft drafted
    · obtain ⟨original, kept, rfl⟩ := List.mem_map.mp drafted
      exact sound.fields _ listed original kept

variable {mint : ℕ → MemoryId} {entries : List WalEntry} {document : Backup}
  {documentLen : Backup → ℕ}

/-- What the offline path writes fits a sound log. -/
theorem OfflineAccepts.writable {now : DateTime}
    (accepts : OfflineAccepts ontology (client.context now (args.sessionId.getD "") args) args) :
    (plainEntry ontology client blake3 now mint args).memories.length =
        (plainEntry ontology client blake3 now mint args).memoryIds.length ∧
      ∀ draft ∈ (plainEntry ontology client blake3 now mint args).memories,
        validateFields draft "offline-wal" .org = .ok () := by
  constructor
  · simp [plainEntry, attachHints]
  · intro draft member
    obtain ⟨index, within, rfl⟩ := List.mem_mapIdx.mp member
    rw [List.getElem_map]
    have bound : index < args.memories.length := by simpa using within
    exact accepts.fields _ (List.getElem_mem bound)

theorem Wal.Sound.endSession (sound : wal.Sound budget) {now : DateTime}
    (performed : (endSessionOffline ontology client blake3 jsonLen now mint wal args).1.isOk =
      true) :
    (endSessionOffline ontology client blake3 jsonLen now mint wal args).2.Sound budget := by
  rw [endSessionOffline] at performed ⊢
  split at performed
  · cases performed
  · next entry accepted =>
      obtain ⟨rfl, accepts⟩ := offlineEntry_ok accepted
      split at performed
      · cases performed
      · next localLsn written appended =>
          have kept : written.Sound budget := by
            rcases Wal.appendBatchFullIdempotent_ok jsonLen appended with rfl | inserted
            · exact sound
            · exact sound.insert inserted accepts.writable.1 accepts.writable.2
          split
          · exact kept
          · exact kept

/-- **Successful calls keep a log sound.** -/
theorem Wal.Sound.perform (sound : wal.Sound budget) {call : WalCall}
    (performed : (wal.perform ontology blake3 jsonLen call).1 = true) :
    (wal.perform ontology blake3 jsonLen call).2.Sound budget := by
  cases call with
  | endSession client now mint args => exact sound.endSession performed
  | markSynced localLsn backendLsn =>
      rw [Wal.perform] at performed ⊢
      cases updated : wal.markSynced jsonLen localLsn backendLsn with
      | error error => exact sound
      | ok written => exact sound.updateState updated
  | markFailed localLsn =>
      rw [Wal.perform] at performed ⊢
      cases updated : wal.markFailed jsonLen localLsn with
      | error error => exact sound
      | ok written => exact sound.updateState updated

theorem walMachine_sound {calls : List WalCall}
    (succeeded : (walMachine ontology blake3 jsonLen).Allows (.openWithBudget budget) calls) :
    ((walMachine ontology blake3 jsonLen).run (.openWithBudget budget) calls).Sound budget :=
  succeeded.invariant .empty fun _ _ sound performed => sound.perform performed

/-! ## Restoring a log from its own backup -/

variable (ontology jsonLen) in
/-- What a log has to be like to be restorable from its own backup. -/
structure Restorable (wal : Wal) : Prop where
  strengths : ∀ row ∈ ontology.kinds, row.defaultStrength.isFinite = true
  hints : ∀ row ∈ wal.rows, ∀ draft ∈ row.2.memories, ∀ hint ∈ draft.edgeHints,
    validateHint ontology draft.memoryType hint.kind = .ok ()
  fits : wal.rows = [] ∨ wal.usedBytes jsonLen ≤ wal.maxBytes

/-- The source of a draft matters for the text of an error only. -/
theorem validateFields_source {draft : MemoryDraft} {source other : String} {ceiling : Visibility}
    (valid : validateFields draft source ceiling = .ok ()) :
    validateFields draft other ceiling = .ok () := by
  unfold validateFields at valid ⊢
  by_cases within : draft.visibility.within ceiling = true
  · simp only [within, Bool.not_true, Bool.false_eq_true, if_false] at valid ⊢
    exact valid
  · simp only [within, Bool.not_false, if_true] at valid
    repeat' split at valid
    all_goals cases valid

theorem EdgeHint.readBack_readBack (hint : EdgeHint) : hint.readBack.readBack = hint.readBack := by
  simp only [EdgeHint.readBack, Option.filter_filter, Bool.and_self]

theorem WalEntry.readBack_readBack (entry : WalEntry) :
    entry.readBack.readBack = entry.readBack := by
  simp [WalEntry.readBack, MemoryDraft.readBack, EdgeHint.readBack_readBack, Function.comp_def]

/-- The entries of a log that can be read. -/
theorem Wal.entries_ok (read : wal.entries jsonLen = .ok entries) :
    entries = wal.rows.map (·.2.readBack) ∧
      ∀ row ∈ wal.rows, jsonLen row.2 = jsonLen row.2 % 2 ^ 32 := by
  refine ⟨mapM_ok_eq_map read fun row _ entry ok => Wal.decodeAt_ok jsonLen ok, ?_⟩
  intro row member
  obtain ⟨entry, _, ok⟩ := mapM_ok_mem read member
  by_contra long
  rw [Wal.decodeAt, Wal.decodeEntry] at ok
  simp only [if_neg long] at ok
  cases ok

/-- Entries that carry their numbers already are not changed. -/
theorem Wal.rekey_numbered {rows : List (ℕ × WalEntry)} {first : ℕ}
    (keys : rows.map (·.1) = List.range' first rows.length)
    (numbered : ∀ row ∈ rows, row.2.localLsn = row.1) :
    Wal.rekey first (rows.map (·.2)) = rows := by
  induction rows generalizing first with
  | nil => rfl
  | cons row rows ih =>
      rw [List.map_cons, List.length_cons, List.range'_succ, List.cons.injEq] at keys
      obtain ⟨key, entry⟩ := row
      have number : entry.localLsn = key := numbered (key, entry) List.mem_cons_self
      rw [List.map_cons, Wal.rekey, ih keys.2 fun other member =>
        numbered other (List.mem_cons_of_mem _ member), ← keys.1]
      simp only [← number]

theorem Wal.charge_readBack (nulls : ∀ entry : WalEntry, jsonLen entry.readBack = jsonLen entry)
    (entries : List WalEntry) :
    Wal.charge jsonLen (entries.map (·.readBack)) = Wal.charge jsonLen entries := by
  simp only [Wal.charge, List.foldl_map, Wal.encodedLen, nulls]

/-- Importing into an empty log charges exactly the entries. -/
theorem Wal.appendImportedBatch_empty (few : entries.length < 2 ^ 64)
    (numbered : (Wal.rekey 1 entries).map (·.2) = entries) :
    (∃ first written, (Wal.openWithBudget budget).appendImportedBatch jsonLen entries =
        .ok (first, written)) ↔
      entries = [] ∨ Wal.charge jsonLen entries ≤ budget := by
  have room : saturatingAdd ((Wal.openWithBudget budget).usedBytes jsonLen)
      (Wal.charge jsonLen entries) = Wal.charge jsonLen entries := by
    have bound := Wal.charge_le jsonLen entries
    have unused : (Wal.openWithBudget budget).usedBytes jsonLen = 0 := rfl
    rw [unused, saturatingAdd, Nat.zero_add, Nat.min_eq_right bound]
  have enough : ¬ 2 ^ 64 ≤ 1 + (entries.length - 1) := by omega
  cases entries with
  | nil => exact ⟨fun _ => .inl rfl, fun _ => ⟨0, _, rfl⟩⟩
  | cons entry rest =>
      refine Iff.symm ⟨?_, ?_⟩
      · rintro (none | fits)
        · cases none
        · have charged : ¬ (Wal.openWithBudget budget).maxBytes <
              Wal.charge jsonLen (entry :: rest) := Nat.not_lt.mpr fits
          refine ⟨1, (Wal.openWithBudget budget).append 1 rfl (entry :: rest), ?_⟩
          unfold Wal.appendImportedBatch
          split
          · next empty => cases empty
          · split
            · next failed => cases failed
            · next first found =>
                cases found
                simp only [numbered, room]
                rw [if_neg enough, if_neg charged]
      · rintro ⟨first, written, appended⟩
        unfold Wal.appendImportedBatch at appended
        split at appended
        · next empty => cases empty
        · split at appended
          · cases appended
          · next next found =>
              cases found
              simp only [numbered, room] at appended
              rw [if_neg enough] at appended
              split at appended
              · cases appended
              · next fits => exact .inr (Nat.le_of_not_lt fits)

/-- The rows of a log that was empty before an import. -/
theorem Wal.appendImportedBatch_rows {first : ℕ}
    (appended : (Wal.openWithBudget budget).appendImportedBatch jsonLen entries =
      .ok (first, written)) : written.rows = Wal.rekey 1 entries := by
  unfold Wal.appendImportedBatch at appended
  split at appended
  · next empty =>
      cases appended
      rw [List.isEmpty_iff.mp empty]
      rfl
  · split at appended
    · cases appended
    · next next found =>
        cases found
        simp only at appended
        split at appended
        · cases appended
        · split at appended
          · cases appended
          · cases appended
            rfl

/-- An entry passes when its lists are parallel and its drafts pass. -/
theorem checkEntry_ok_iff {index : ℕ} :
    checkEntry ontology entry index = .ok () ↔
      entry.memories.length = entry.memoryIds.length ∧
        ∀ draft ∈ entry.memories, validateDraft ontology draft "backup-import" .org = .ok () := by
  rw [checkEntry]
  by_cases parallel : entry.memories.length = entry.memoryIds.length
  · simp only [parallel, ne_eq, not_true_eq_false, if_false, true_and]
    refine forM_eq_ok_iff.trans ?_
    constructor
    · intro passed draft member
      obtain ⟨index', place⟩ := List.getElem?_of_mem member
      have row := passed (draft, index') (List.mem_zipIdx_iff_getElem?.mpr place)
      cases valid : validateDraft ontology draft "backup-import" .org with
      | ok nothing => rfl
      | error error =>
          rw [valid] at row
          cases row
    · rintro passed ⟨draft, index'⟩ member
      rw [passed draft (List.fst_mem_of_mem_zipIdx member)]
      rfl
  · simp only [parallel, ne_eq, not_false_eq_true, if_true, false_and, iff_false]
    intro passed
    cases passed

/-- A document of the same ontology passes when its entries do. -/
theorem checkBackup_ok_iff (format : document.format = Backup.formatName)
    (version : document.version = Backup.formatVersion)
    (summary : document.ontologySummary = some ontology.summary)
    (strengths : ∀ row ∈ ontology.kinds, row.defaultStrength.isFinite = true) :
    checkBackup ontology buildFingerprint document = .ok () ↔
      ∀ entry ∈ document.entries, entry.memories.length = entry.memoryIds.length ∧
        ∀ draft ∈ entry.memories, validateDraft ontology draft "backup-import" .org = .ok () := by
  have admitted : (admitBackup (.summarized ontology.summary) ontology buildFingerprint).mapError
      ImportError.ontologyMismatch = .ok () := by
    rw [admitBackup, if_pos (ontology.isSubsetOf_self strengths)]
    rfl
  rw [checkBackup]
  simp only [format, version, summary, ne_eq, not_true_eq_false, if_false, admitted]
  refine forM_eq_ok_iff.trans ?_
  constructor
  · intro passed entry member
    obtain ⟨index, place⟩ := List.getElem?_of_mem member
    exact checkEntry_ok_iff.mp (passed (entry, index) (List.mem_zipIdx_iff_getElem?.mpr place))
  · rintro passed ⟨entry, index⟩ member
    exact checkEntry_ok_iff.mpr (passed entry (List.fst_mem_of_mem_zipIdx member))

/-- An import succeeds when the document passes and its entries are appended. -/
theorem importBackup_ok_iff {report : ImportReport} :
    importBackup jsonLen ontology buildFingerprint wal (.ok document) = (.ok report, written) ↔
      checkBackup ontology buildFingerprint document = .ok () ∧
        report.imported = document.entries.length ∧
        wal.appendImportedBatch jsonLen document.entries = .ok (report.firstLocalLsn, written) := by
  cases checked : checkBackup ontology buildFingerprint document with
  | error error => simp [importBackup, checked]
  | ok nothing =>
      cases appended : wal.appendImportedBatch jsonLen document.entries with
      | error error => simp [importBackup, checked, appended]
      | ok result =>
          simp only [importBackup, checked, appended]
          constructor
          · intro same
            cases same
            exact ⟨trivial, rfl, rfl⟩
          · rintro ⟨_, count, same⟩
            cases same
            rw [← count]

theorem exportBackup_ok {summary : OntologySummary}
    (exported : exportBackup jsonLen documentLen wal fingerprint summary createdAt = .ok document) :
    document.format = Backup.formatName ∧ document.version = Backup.formatVersion ∧
      document.ontologySummary = some summary ∧ wal.entries jsonLen = .ok document.entries := by
  rw [exportBackup] at exported
  split at exported
  · cases exported
  · next entries read =>
      simp only at exported
      split at exported
      · cases exported
      · cases exported
        exact ⟨rfl, rfl, rfl, read⟩

/-- The rows that a restored log has. -/
def Wal.restoredRows (wal : Wal) : List (ℕ × WalEntry) :=
  wal.rows.map fun row => (row.1, row.2.readBack)

/-- The entries of a sound log carry the numbers that importing gives them. -/
theorem Wal.Sound.rekey_entries (sound : wal.Sound budget) :
    Wal.rekey 1 (wal.rows.map (·.2.readBack)) = wal.restoredRows := by
  have entries : wal.rows.map (·.2.readBack) = wal.restoredRows.map (·.2) := by
    rw [Wal.restoredRows, List.map_map]
    rfl
  have keys : wal.restoredRows.map (·.1) = wal.rows.map (·.1) := by
    rw [Wal.restoredRows, List.map_map]
    rfl
  rw [entries]
  apply Wal.rekey_numbered
  · rw [keys, sound.keys, Wal.restoredRows, List.length_map]
  · intro row member
    obtain ⟨old, listed, rfl⟩ := List.mem_map.mp member
    exact sound.numbered old listed

theorem reparse_exported (summary : document.ontologySummary = some ontology.summary)
    (entries : document.entries = wal.rows.map (·.2.readBack)) :
    document.reparse = if ontology.kinds.all (·.defaultStrength.isFinite) then .ok document
      else .error "invalid type: null, expected f32" := by
  have numbers : ontology.summary.kinds.all (·.defaultStrength.isFinite) =
      ontology.kinds.all (·.defaultStrength.isFinite) :=
    (List.perm_insertionSort _ _).all_eq.trans List.all_map
  have again : document.entries.map (·.readBack) = document.entries := by
    rw [entries, List.map_map]
    exact List.map_congr_left fun row _ => row.2.readBack_readBack
  have all : (document.ontologySummary.all fun summary =>
      summary.kinds.all fun row => row.defaultStrength.isFinite) =
        ontology.kinds.all (·.defaultStrength.isFinite) := by
    rw [summary, Option.all_some, numbers]
  simp only [Backup.reparse, all, again]

/-- The drafts of an exported log pass when the kinds of their edges may start at them. -/
theorem Wal.Sound.drafts_valid_iff (sound : wal.Sound budget) :
    (∀ entry ∈ wal.rows.map (·.2.readBack), entry.memories.length = entry.memoryIds.length ∧
        ∀ draft ∈ entry.memories, validateDraft ontology draft "backup-import" .org = .ok ()) ↔
      ∀ row ∈ wal.rows, ∀ draft ∈ row.2.memories, ∀ hint ∈ draft.edgeHints,
        validateHint ontology draft.memoryType hint.kind = .ok () := by
  constructor
  · intro passed row member draft drafted hint hinted
    have valid := (passed row.2.readBack (List.mem_map_of_mem member)).2 draft.readBack
      (List.mem_map_of_mem drafted)
    exact (validateDraft_ok_iff.mp valid).2 hint.readBack (List.mem_map_of_mem hinted)
  · intro passed entry member
    obtain ⟨row, listed, rfl⟩ := List.mem_map.mp member
    refine ⟨?_, ?_⟩
    · have lengths := sound.parallel row listed
      simpa [WalEntry.readBack] using lengths
    · intro draft drafted
      obtain ⟨original, kept, rfl⟩ := List.mem_map.mp drafted
      refine validateDraft_ok_iff.mpr ⟨validateFields_source
        (sound.fields row listed original kept), ?_⟩
      intro hint hinted
      obtain ⟨plain, there, rfl⟩ := List.mem_map.mp hinted
      exact passed row listed original kept plain there

theorem Wal.Sound.restored_iff (sound : wal.Sound budget)
    (nulls : ∀ entry : WalEntry, jsonLen entry.readBack = jsonLen entry)
    (exported : exportBackup jsonLen documentLen wal fingerprint ontology.summary createdAt =
      .ok document) :
    (∃ report restored, importBackup jsonLen ontology buildFingerprint (.openWithBudget budget)
        document.reparse = (.ok report, restored) ∧
        restored.entries jsonLen = .ok ((Wal.rekey 1 document.entries).map (·.2))) ↔
      Restorable ontology jsonLen wal := by
  obtain ⟨format, version, summary, read⟩ := exportBackup_ok exported
  obtain ⟨entries, short⟩ := Wal.entries_ok read
  have rekeyed : Wal.rekey 1 document.entries = wal.restoredRows := entries ▸ sound.rekey_entries
  have numbered : (Wal.rekey 1 document.entries).map (·.2) = document.entries := by
    rw [rekeyed, Wal.restoredRows, List.map_map, entries]
    rfl
  have few : document.entries.length < 2 ^ 64 := by
    rw [entries, List.length_map]
    exact sound.few
  have charged : Wal.charge jsonLen document.entries = wal.usedBytes jsonLen := by
    have same := Wal.charge_readBack nulls (wal.rows.map (·.2))
    rw [List.map_map] at same
    rw [entries]
    exact same
  have none : document.entries = [] ↔ wal.rows = [] := by
    rw [entries, List.map_eq_nil_iff]
  -- The imported rows can be read: they are as long as the rows they come from.
  have readable {restored : Wal} (rows : restored.rows = Wal.rekey 1 document.entries) :
      restored.entries jsonLen = .ok ((Wal.rekey 1 document.entries).map (·.2)) := by
    rw [Wal.entries, rows]
    apply mapM_eq_ok_map
    intro row member
    rw [rekeyed] at member
    obtain ⟨old, listed, rfl⟩ := List.mem_map.mp member
    have fits : jsonLen old.2.readBack = jsonLen old.2.readBack % 2 ^ 32 := by
      rw [nulls]
      exact short old listed
    simp only [Wal.decodeAt, Wal.decodeEntry, if_pos fits, WalEntry.readBack_readBack]
  rw [reparse_exported summary entries]
  constructor
  · rintro ⟨report, restored, imported, _⟩
    split at imported
    · next finite =>
        have strengths := List.all_eq_true.mp finite
        obtain ⟨passed, _, appended⟩ := importBackup_ok_iff.mp imported
        have drafts := (checkBackup_ok_iff format version summary strengths).mp passed
        rw [entries] at drafts
        have fits := (Wal.appendImportedBatch_empty few numbered).mp ⟨_, _, appended⟩
        rw [none, charged, ← sound.maxBytes] at fits
        exact ⟨strengths, sound.drafts_valid_iff.mp drafts, fits⟩
    · cases imported
  · intro restorable
    have drafts := sound.drafts_valid_iff.mpr restorable.hints
    rw [← entries] at drafts
    have passed : checkBackup ontology buildFingerprint document = .ok () :=
      (checkBackup_ok_iff format version summary restorable.strengths).mpr drafts
    have fits := restorable.fits
    rw [← none, ← charged, sound.maxBytes] at fits
    obtain ⟨first, restored, appended⟩ := (Wal.appendImportedBatch_empty few numbered).mpr fits
    rw [if_pos (List.all_eq_true.mpr restorable.strengths)]
    exact ⟨⟨document.entries.length, first⟩, restored,
      importBackup_ok_iff.mpr ⟨passed, rfl, appended⟩,
      readable (Wal.appendImportedBatch_rows appended)⟩

variable (ontology blake3 jsonLen) in
/-- **A log is restored from its own backup exactly when it is restorable, and a failing import
of any document leaves any log unchanged.** -/
theorem import_restores_iff (budget : ℕ) (calls : List WalCall)
    (succeeded : (walMachine ontology blake3 jsonLen).Allows (.openWithBudget budget) calls)
    (nulls : ∀ entry : WalEntry, jsonLen entry.readBack = jsonLen entry)
    (documentLen : Backup → ℕ) (fingerprint createdAt : String) (buildFingerprint : Bytes 32)
    (document : Backup)
    (exported : exportBackup jsonLen documentLen
      ((walMachine ontology blake3 jsonLen).run (.openWithBudget budget) calls) fingerprint
      ontology.summary createdAt = .ok document) :
    ((∃ report restored, importBackup jsonLen ontology buildFingerprint (.openWithBudget budget)
        document.reparse = (.ok report, restored) ∧
        restored.entries jsonLen = .ok ((Wal.rekey 1 document.entries).map (·.2))) ↔
      Restorable ontology jsonLen
        ((walMachine ontology blake3 jsonLen).run (.openWithBudget budget) calls)) ∧
      ∀ (target left : Wal) (parsed : Except String Backup) (error : ImportError),
        importBackup jsonLen ontology buildFingerprint target parsed = (.error error, left) →
          left = target :=
  ⟨(walMachine_sound succeeded).restored_iff nulls exported,
    fun _ _ _ _ failed => importBackup_error failed⟩

end Log

section Sample

/-- A session with one edge, and the news that it was synced. -/
def sampleCalls (edge : PreflightEdgeHint) : List WalCall :=
  [.endSession sampleClient 5 sampleMint (sampleArgs "" edge), .markSynced 1 7]

def sampleWal (edge : PreflightEdgeHint) : Wal :=
  (walMachine smallOntology sampleDigest sampleLen).run (.openWithBudget 10000) (sampleCalls edge)

def sampleExport (edge : PreflightEdgeHint) : Except ExportError Backup :=
  exportBackup sampleLen (fun _ => 4000) (sampleWal edge) "" smallOntology.summary "2026-01-01"

instance (s : Wal) (call : WalCall) :
    Decidable ((walMachine smallOntology sampleDigest sampleLen).allowed s call) :=
  inferInstanceAs (Decidable (_ = true))

theorem sampleLen_readBack (entry : WalEntry) : sampleLen entry.readBack = sampleLen entry := by
  simp [sampleLen, WalEntry.readBack]

theorem import_restores_iff_solves :
    ∃ document, sampleExport solvesEdge = .ok document ∧
      ∃ report restored, importBackup sampleLen smallOntology (.fill 32 1) (.openWithBudget 10000)
        document.reparse = (.ok report, restored) ∧
        restored.entries sampleLen = .ok ((Wal.rekey 1 document.entries).map (·.2)) := by
  have succeeded : (walMachine smallOntology sampleDigest sampleLen).Allows
      (.openWithBudget 10000) (sampleCalls solvesEdge) := by decide +kernel
  have writes : (sampleExport solvesEdge).isOk = true := by decide +kernel
  cases exported : sampleExport solvesEdge with
  | error error =>
      rw [exported] at writes
      cases writes
  | ok document =>
      have restorable : Restorable smallOntology sampleLen (sampleWal solvesEdge) :=
        ⟨by decide +kernel, by decide +kernel, .inr (by decide +kernel)⟩
      exact ⟨document, rfl, (import_restores_iff smallOntology sampleDigest sampleLen 10000
        (sampleCalls solvesEdge) succeeded sampleLen_readBack (fun _ => 4000) "" "2026-01-01"
        (.fill 32 1) document exported).1.mpr restorable⟩

/-- An edge that starts at a type its kind does not start at: a problem solves nothing. -/
def reversedEdge : PreflightEdgeHint := ⟨"bug", "fix", "", "Solves", ⟨0x3f800000#32⟩⟩

/-- The offline path takes the edge, and the backup that holds it cannot be imported. -/
theorem reversed_edge_is_not_restored :
    (walMachine smallOntology sampleDigest sampleLen).Allows (.openWithBudget 10000)
        (sampleCalls reversedEdge) ∧
      ∃ document, sampleExport reversedEdge = .ok document ∧
        (importBackup sampleLen smallOntology (.fill 32 1) (.openWithBudget 10000)
          document.reparse).1 = .error (.invalidDraft 0 1 (.invalidTypeTriple ⟨0⟩ 0)) := by
  refine ⟨by decide +kernel, ?_⟩
  have refused : (match sampleExport reversedEdge with
      | .ok document => decide ((importBackup sampleLen smallOntology (.fill 32 1)
          (.openWithBudget 10000) document.reparse).1 =
            .error (.invalidDraft 0 1 (.invalidTypeTriple ⟨0⟩ 0)))
      | .error _ => false) = true := by decide +kernel
  split at refused
  · next document exported => exact ⟨document, exported, of_decide_eq_true refused⟩
  · cases refused

end Sample

end Exocortex
