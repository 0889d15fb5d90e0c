import Exocortex.Kernel.Rulebook

/-!
# The client's write-ahead log

Offline batches are rows of an ordered tree, keyed by their local sequence number, under a
byte budget. A row holds the JSON text of an entry behind a version byte and a length of 32
bits. The text is not modelled: a row keeps the entry that was written, `jsonLen` is the
number of bytes of its text, and reading the row gives the entry back (`WalEntry.readBack`)
unless the length does not fit. The one thing that JSON loses is a strength that is no
number: it is written as `null`, and read as none.

Appending charges a new row its text without the overhead of 16 bytes that every row in the
tree is charged (`insertEntryLocked`, `usedBytes`); importing charges it in full
(`appendImportedBatch`); and changing the state of a row is not charged at all.
-/

namespace Exocortex

/-- What became of a batch. -/
inductive WalState where
  | pending
  | synced (backendLsn : ℕ)
  | failed
deriving DecidableEq

/-- A batch with its assigned identities. -/
structure WalEntry where
  localLsn : ℕ
  sessionId : String
  memories : List MemoryDraft
  memoryIds : List MemoryId
  state : WalState
  batchId : String
  draftKeys : List String
  org : String
  user : String
  tags : List (List String)
deriving DecidableEq

inductive WalError where
  | io (text : String)
  | corrupt (localLsn : ℕ) (detail : String)
  | full (used budget : ℕ)
deriving DecidableEq

/-- A float that is no number is read back as none. -/
def EdgeHint.readBack (hint : EdgeHint) : EdgeHint :=
  { hint with
    strength := hint.strength.filter (·.isFinite)
    confidence := hint.confidence.filter (·.isFinite) }

def MemoryDraft.readBack (draft : MemoryDraft) : MemoryDraft :=
  { draft with edgeHints := draft.edgeHints.map (·.readBack) }

/-- The entry that its JSON text is read as. -/
def WalEntry.readBack (entry : WalEntry) : WalEntry :=
  { entry with memories := entry.memories.map (·.readBack) }

/-- Addition of 64-bit counters that stops at the largest value. -/
def saturatingAdd (x y : ℕ) : ℕ := min (2 ^ 64 - 1) (x + y)

/-- The tree, in the order of its keys, and the byte budget. -/
structure Wal where
  rows : List (ℕ × WalEntry)
  maxBytes : ℕ
  ordered : (rows.map (·.1)).Pairwise (· < ·)

namespace Wal

def openWithBudget (maxBytes : ℕ) : Wal := ⟨[], maxBytes, List.Pairwise.nil⟩

variable (jsonLen : WalEntry → ℕ)

/-- The version byte, the length, and the text. -/
def encodedLen (entry : WalEntry) : ℕ := jsonLen entry + 5

/-- A row whose text does not have the declared length is refused. -/
def decodeEntry (entry : WalEntry) : Except String WalEntry :=
  let declared := jsonLen entry % 2 ^ 32
  if jsonLen entry = declared then .ok entry.readBack
  else .error ("wal entry length mismatch: declared " ++ toString declared ++ ", actual " ++
    toString (jsonLen entry))

def decodeAt (localLsn : ℕ) (entry : WalEntry) : Except WalError WalEntry :=
  match decodeEntry jsonLen entry with
  | .ok entry => .ok entry
  | .error detail => .error (.corrupt localLsn detail)

variable {stored : WalEntry} {localLsn next : ℕ} {wal written : Wal}

theorem decodeEntry_ok {entry : WalEntry} (decoded : decodeEntry jsonLen stored = .ok entry) :
    entry = stored.readBack := by
  simp only [decodeEntry] at decoded
  split at decoded
  · cases decoded
    rfl
  · cases decoded

theorem decodeAt_ok {entry : WalEntry} (decoded : decodeAt jsonLen localLsn stored = .ok entry) :
    entry = stored.readBack := by
  rw [decodeAt] at decoded
  split at decoded
  · next read =>
      cases decoded
      exact decodeEntry_ok jsonLen read
  · cases decoded

/-- What the rows are charged: their bytes, and 16 more each. -/
def charge (entries : List WalEntry) : ℕ :=
  entries.foldl (fun used entry => saturatingAdd used (encodedLen jsonLen entry + 16)) 0

theorem charge_le (entries : List WalEntry) : charge jsonLen entries ≤ 2 ^ 64 - 1 := by
  rcases List.eq_nil_or_concat entries with rfl | ⟨front, last, rfl⟩
  · exact Nat.zero_le _
  · rw [charge, List.concat_eq_append, List.foldl_concat]
    exact Nat.min_le_left _ _

theorem charge_append (front back : List WalEntry) :
    charge jsonLen (front ++ back) =
      saturatingAdd (charge jsonLen front) (charge jsonLen back) := by
  induction back using List.reverseRecOn with
  | nil =>
      have bound := charge_le jsonLen front
      rw [List.append_nil]
      simp only [charge, List.foldl_nil, saturatingAdd] at bound ⊢
      omega
  | append_singleton back entry ih =>
      have more (entries : List WalEntry) : charge jsonLen (entries ++ [entry]) =
          saturatingAdd (charge jsonLen entries) (encodedLen jsonLen entry + 16) :=
        List.foldl_concat _ _ _ _
      rw [← List.append_assoc, more, more, ih]
      simp only [saturatingAdd]
      omega

def usedBytes (wal : Wal) : ℕ := charge jsonLen (wal.rows.map (·.2))

def nextLsn (wal : Wal) : Except WalError ℕ :=
  match wal.rows.getLast? with
  | none => .ok 1
  | some (key, _) =>
      if key + 1 < 2 ^ 64 then .ok (key + 1)
      else .error (.io "WAL local LSN space is exhausted")

/-- The entries under consecutive numbers. -/
def rekey (first : ℕ) : List WalEntry → List (ℕ × WalEntry)
  | [] => []
  | entry :: entries => (first, { entry with localLsn := first }) :: rekey (first + 1) entries

theorem rekey_keys (first : ℕ) (entries : List WalEntry) :
    (rekey first entries).map (·.1) = List.range' first entries.length := by
  induction entries generalizing first with
  | nil => rfl
  | cons entry entries ih =>
      rw [rekey, List.map_cons, ih, List.length_cons, List.range'_succ]

theorem lt_nextLsn (found : wal.nextLsn = .ok next) {key : ℕ} (member : key ∈ wal.rows.map (·.1)) :
    key < next := by
  rw [nextLsn] at found
  split at found
  · next empty =>
      rw [List.getLast?_eq_none_iff.mp empty] at member
      cases member
  · next last entry final =>
      split at found
      · cases found
        -- The last key of an ordered list is the largest.
        obtain ⟨front, rows⟩ := List.getLast?_eq_some_iff.mp final
        have ordered := wal.ordered
        rw [rows, List.map_append, List.map_singleton] at ordered member
        rcases List.mem_append.mp member with old | new
        · have smaller := (List.pairwise_append.mp ordered).2.2 key old last List.mem_cons_self
          omega
        · rw [List.mem_singleton.mp new]
          omega
      · cases found

/-- With the keys in a row from 1, the next one is one more than their number. -/
theorem nextLsn_dense (keys : wal.rows.map (·.1) = List.range' 1 wal.rows.length)
    (found : wal.nextLsn = .ok next) : next = wal.rows.length + 1 ∧ next < 2 ^ 64 := by
  have last : wal.rows.getLast?.map (·.1) = (List.range' 1 wal.rows.length).getLast? := by
    rw [← keys, List.getLast?_map]
  rw [List.getLast?_range'] at last
  rw [nextLsn] at found
  split at found
  · next empty =>
      cases found
      rw [List.getLast?_eq_none_iff.mp empty]
      exact ⟨rfl, by decide⟩
  · next key entry final =>
      rw [final, Option.map_some] at last
      split at found
      · next small =>
          cases found
          split at last
          · cases last
          · have place := Option.some.inj last
            omega
      · cases found

theorem ordered_append (found : wal.nextLsn = .ok next) (entries : List WalEntry) :
    ((wal.rows ++ rekey next entries).map (·.1)).Pairwise (· < ·) := by
  rw [List.map_append, rekey_keys]
  refine List.pairwise_append.mpr ⟨wal.ordered, List.pairwise_lt_range', ?_⟩
  intro key old other new
  have large := (List.mem_range'_1.mp new).1
  exact (lt_nextLsn found old).trans_le large

/-- Rows after the last one. -/
def append (wal : Wal) (next : ℕ) (found : wal.nextLsn = .ok next) (entries : List WalEntry) :
    Wal :=
  { wal with
    rows := wal.rows ++ rekey next entries
    ordered := ordered_append found entries }

/-- The new row is charged without the overhead. -/
def insertEntryLocked (wal : Wal) (entry : WalEntry) : Except WalError (ℕ × Wal) :=
  match found : wal.nextLsn with
  | .error error => .error error
  | .ok next =>
      let used := wal.usedBytes jsonLen
      if wal.maxBytes < saturatingAdd used (encodedLen jsonLen { entry with localLsn := next }) then
        .error (.full used wal.maxBytes)
      else .ok (next, wal.append next found [entry])

theorem insertEntryLocked_ok {entry : WalEntry}
    (inserted : wal.insertEntryLocked jsonLen entry = .ok (localLsn, written)) :
    wal.nextLsn = .ok localLsn ∧ written.maxBytes = wal.maxBytes ∧
      written.rows = wal.rows ++ [(localLsn, { entry with localLsn := localLsn })] := by
  rw [insertEntryLocked] at inserted
  split at inserted
  · cases inserted
  · next next found =>
      simp only at inserted
      split at inserted
      · cases inserted
      · cases inserted
        exact ⟨found, rfl, rfl⟩

/-- The first row under a batch identity; rows on the way have to be readable. -/
def findBatch (batchId : String) : List (ℕ × WalEntry) → Except WalError (Option ℕ)
  | [] => .ok none
  | (key, stored) :: rows => do
      let entry ← decodeAt jsonLen key stored
      if entry.batchId = batchId then return some key else findBatch batchId rows

/-- An entry under a batch identity that is there already is not written again. -/
def appendBatchFullIdempotent (wal : Wal) (entry : WalEntry) : Except WalError (ℕ × Wal) := do
  if entry.batchId.isEmpty then wal.insertEntryLocked jsonLen entry
  else
    match ← findBatch jsonLen entry.batchId wal.rows with
    | some key => return (key, wal)
    | none => wal.insertEntryLocked jsonLen entry

/-- Either the batch is there already, or its entry is inserted. -/
theorem appendBatchFullIdempotent_ok {entry : WalEntry}
    (appended : wal.appendBatchFullIdempotent jsonLen entry = .ok (localLsn, written)) :
    written = wal ∨ wal.insertEntryLocked jsonLen entry = .ok (localLsn, written) := by
  rw [appendBatchFullIdempotent] at appended
  split at appended
  · exact .inr appended
  · simp only [bind, Except.bind] at appended
    split at appended
    · cases appended
    · split at appended
      · cases appended
        exact .inl rfl
      · exact .inr appended

/-- The whole batch is charged before any row is written. -/
def appendImportedBatch (wal : Wal) (entries : List WalEntry) : Except WalError (ℕ × Wal) :=
  if entries.isEmpty then .ok (0, wal)
  else
    match found : wal.nextLsn with
    | .error error => .error error
    | .ok first =>
        if 2 ^ 64 ≤ first + (entries.length - 1) then
          .error (.io "WAL local LSN overflow during import")
        else
          let used := wal.usedBytes jsonLen
          let encoded := charge jsonLen ((rekey first entries).map (·.2))
          if wal.maxBytes < saturatingAdd used encoded then .error (.full used wal.maxBytes)
          else .ok (first, wal.append first found entries)

def entry (wal : Wal) (localLsn : ℕ) : Except WalError (Option WalEntry) :=
  match wal.rows.find? (·.1 = localLsn) with
  | none => .ok none
  | some (key, stored) => (decodeAt jsonLen key stored).map some

/-- A row that was just written is found under its number. -/
theorem entry_last (found : wal.nextLsn = .ok next)
    (rows : written.rows = wal.rows ++ [(next, stored)]) :
    written.entry jsonLen next = (decodeAt jsonLen next stored).map some := by
  have earlier : wal.rows.find? (·.1 = next) = none := by
    rw [List.find?_eq_none]
    intro row member same
    have smaller := lt_nextLsn found (List.mem_map_of_mem member)
    have equal : row.1 = next := of_decide_eq_true same
    omega
  rw [entry, rows, List.find?_append, earlier, Option.none_or, List.find?_cons_of_pos (by simp)]

/-- Every entry, in the order of the keys. -/
def entries (wal : Wal) : Except WalError (List WalEntry) :=
  wal.rows.mapM fun row => decodeAt jsonLen row.1 row.2

/-- Rewriting the row of a key keeps the keys. -/
theorem keys_rewritten (rows : List (ℕ × WalEntry)) (key : ℕ) (value : WalEntry) :
    (rows.map fun row => if row.1 = key then (key, value) else row).map (·.1) =
      rows.map (·.1) := by
  rw [List.map_map]
  apply List.map_congr_left
  intro row member
  simp only [Function.comp_apply]
  split
  · next equal => exact equal.symm
  · rfl

/-- The row of a key rewritten. -/
def setRow (wal : Wal) (key : ℕ) (value : WalEntry) : Wal where
  rows := wal.rows.map fun row => if row.1 = key then (key, value) else row
  maxBytes := wal.maxBytes
  ordered := by
    rw [keys_rewritten]
    exact wal.ordered

def updateState (wal : Wal) (localLsn : ℕ) (state : WalState) : Except WalError Wal :=
  match wal.rows.find? (·.1 = localLsn) with
  | none => .error (.io ("no wal entry " ++ toString localLsn))
  | some (_, stored) =>
      match decodeEntry jsonLen stored with
      | .error detail => .error (.io detail)
      | .ok entry => .ok (wal.setRow localLsn { entry with state := state })

theorem updateState_ok {state : WalState}
    (updated : wal.updateState jsonLen localLsn state = .ok written) :
    ∃ stored, (localLsn, stored) ∈ wal.rows ∧
      written = wal.setRow localLsn { stored.readBack with state := state } := by
  rw [updateState] at updated
  split at updated
  · cases updated
  · next key stored found =>
      have same : key = localLsn := by simpa using List.find?_some found
      subst same
      split at updated
      · cases updated
      · next entry decoded =>
          cases updated
          cases decodeEntry_ok jsonLen decoded
          exact ⟨stored, List.mem_of_find?_eq_some found, rfl⟩

def markSynced (wal : Wal) (localLsn backendLsn : ℕ) : Except WalError Wal :=
  wal.updateState jsonLen localLsn (.synced backendLsn)

def markFailed (wal : Wal) (localLsn : ℕ) : Except WalError Wal :=
  wal.updateState jsonLen localLsn .failed

end Wal

end Exocortex
