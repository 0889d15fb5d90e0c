import Exocortex.Library.Runs
import Exocortex.Client.Wal

/-!
# The write-ahead log over whole runs

Entries are appended one at a time, once under a batch identity, or as an imported batch; and the
state of an entry is changed when its batch was answered. The tree below may refuse what it is
asked, or take a row and then fail to flush it.

Keys are handed out in a row from 1 along every run (`logMachine_dense`). The budget and the states
of the entries are kept by calm runs (`calmLog_keeps`): an entry that is appended alone is not
charged the overhead of its row, so the last one may overrun the budget by 16 bytes, and the
marks overwrite the state of an entry whatever it is.
-/

namespace Exocortex

open Library

/-- An entry as the append calls make it of their arguments. -/
def WalEntry.fresh (entry : WalEntry) : WalEntry := { entry with localLsn := 0, state := .pending }

/-- A call that appends. -/
inductive LogCall where
  | full (entry : WalEntry)
  | idempotent (entry : WalEntry)
  | imported (entry : WalEntry)
  | importedBatch (entries : List WalEntry)

/-- What the tree does with a write. -/
inductive TreeOutcome where
  | done
  | refused (text : String)
  | unflushed (text : String)

/-- A call on the log, and what the tree does in it. -/
inductive LogAction where
  | append (call : LogCall) (tree : TreeOutcome)
  | mark (localLsn : ℕ) (state : WalState) (tree : TreeOutcome)

namespace Wal

variable (jsonLen : WalEntry → ℕ)

/-- The call, with a tree that does what it is asked. -/
def performAppend (wal : Wal) : LogCall → Except WalError (ℕ × Wal)
  | .full entry => wal.insertEntryLocked jsonLen entry.fresh
  | .idempotent entry => wal.appendBatchFullIdempotent jsonLen entry.fresh
  | .imported entry => wal.insertEntryLocked jsonLen { entry with localLsn := 0 }
  | .importedBatch entries => wal.appendImportedBatch jsonLen entries

/-- The tree is flushed after it was written to, and a failure then leaves the row. -/
def appended (wal : Wal) (call : LogCall) (tree : TreeOutcome) : Except WalError ℕ × Wal :=
  match wal.performAppend jsonLen call with
  | .error error => (.error error, wal)
  | .ok (localLsn, written) =>
      match tree with
      | .done => (.ok localLsn, written)
      | .refused text => (.error (.io text), wal)
      | .unflushed text =>
          if written.rows.length = wal.rows.length then (.ok localLsn, written)
          else (.error (.io text), written)

/-- Marks do not flush. -/
def marked (wal : Wal) (localLsn : ℕ) (state : WalState) (tree : TreeOutcome) :
    Except WalError Unit × Wal :=
  match wal.updateState jsonLen localLsn state with
  | .error error => (.error error, wal)
  | .ok written =>
      match tree with
      | .refused text => (.error (.io text), wal)
      | .done | .unflushed _ => (.ok (), written)

/-- The log after a call. -/
def act (wal : Wal) : LogAction → Wal
  | .append call tree => (wal.appended jsonLen call tree).2
  | .mark localLsn state tree => (wal.marked jsonLen localLsn state tree).2

end Wal

/-- Logs under calls of every kind. -/
def logMachine (jsonLen : WalEntry → ℕ) : Machine Wal LogAction where
  allowed _ _ := True
  step wal action := wal.act jsonLen action

variable {entries : List WalEntry} {entry : WalEntry} {state : WalState} {call : LogCall}
  {localLsn first : ℕ}

namespace Wal

variable {jsonLen : WalEntry → ℕ} {wal written : Wal}

/-! ## What a call can do -/

/-- New rows under the next numbers. -/
structure Added (wal written : Wal) (first : ℕ) (entries : List WalEntry) : Prop where
  next : wal.nextLsn = .ok first
  some : entries ≠ []
  rows : written.rows = wal.rows ++ rekey first entries
  maxBytes : written.maxBytes = wal.maxBytes

/-- The row of a key with another state. -/
structure Marked (wal written : Wal) (localLsn : ℕ) (state : WalState) : Prop where
  rows : written.rows = wal.rows.map fun row =>
    if row.1 = localLsn then (localLsn, { row.2.readBack with state := state }) else row
  maxBytes : written.maxBytes = wal.maxBytes

theorem insertEntryLocked_added
    (inserted : wal.insertEntryLocked jsonLen entry = .ok (localLsn, written)) :
    wal.Added written localLsn [entry] ∧
      saturatingAdd (wal.usedBytes jsonLen)
        (encodedLen jsonLen { entry with localLsn := localLsn }) ≤ wal.maxBytes := by
  obtain ⟨found, maxBytes, rows⟩ := insertEntryLocked_ok jsonLen inserted
  refine ⟨⟨found, List.cons_ne_nil _ _, rows, maxBytes⟩, ?_⟩
  rw [insertEntryLocked] at inserted
  split at inserted
  · cases inserted
  · next next other =>
      simp only at inserted
      split at inserted
      · cases inserted
      · next fits =>
          cases inserted
          exact Nat.le_of_not_lt fits

theorem appendImportedBatch_added
    (appended : wal.appendImportedBatch jsonLen entries = .ok (first, written)) :
    (entries = [] ∧ first = 0 ∧ written = wal) ∨
      (wal.Added written first entries ∧
        saturatingAdd (wal.usedBytes jsonLen)
          (charge jsonLen ((rekey first entries).map (·.2))) ≤ wal.maxBytes) := by
  rw [appendImportedBatch] at appended
  split at appended
  · next none =>
      cases appended
      exact .inl ⟨List.isEmpty_iff.mp none, rfl, rfl⟩
  · next some =>
      split at appended
      · cases appended
      · next next found =>
          split at appended
          · cases appended
          · simp only at appended
            split at appended
            · cases appended
            · next fits =>
                cases appended
                refine .inr ⟨⟨found, ?_, rfl, rfl⟩, Nat.le_of_not_lt fits⟩
                exact fun none => some (List.isEmpty_iff.mpr none)

variable {rows : List (ℕ × WalEntry)}

variable {batchId : String}

theorem findBatch_some {key : ℕ} (found : findBatch jsonLen batchId rows = .ok (some key)) :
    ∃ stored, (key, stored) ∈ rows ∧ stored.batchId = batchId := by
  induction rows with
  | nil => cases found
  | cons row rows ih =>
      obtain ⟨number, stored⟩ := row
      simp only [findBatch, bind, Except.bind] at found
      split at found
      · cases found
      · next entry decoded =>
          cases decodeAt_ok jsonLen decoded
          split at found
          · next same =>
              cases found
              exact ⟨stored, List.mem_cons_self, same⟩
          · obtain ⟨other, listed, same⟩ := ih found
            exact ⟨other, List.mem_cons_of_mem _ listed, same⟩

theorem findBatch_none (found : findBatch jsonLen batchId rows = .ok none) :
    ∀ row ∈ rows, row.2.batchId ≠ batchId := by
  induction rows with
  | nil => exact fun row member => absurd member List.not_mem_nil
  | cons first rows ih =>
      obtain ⟨number, stored⟩ := first
      simp only [findBatch, bind, Except.bind] at found
      split at found
      · cases found
      · next entry decoded =>
          cases decodeAt_ok jsonLen decoded
          split at found
          · cases found
          · next other =>
              intro row member
              rcases List.mem_cons.mp member with rfl | old
              · exact other
              · exact ih found row old

/-- The row that an append under a batch identity finds. -/
def findEntry (jsonLen : WalEntry → ℕ) (wal : Wal) (batchId : String) :
    Except WalError (Option ℕ) :=
  if batchId.isEmpty then .ok none else findBatch jsonLen batchId wal.rows

/-- An append under a batch identity finds its row, or inserts it where there is none. -/
theorem appendBatchFullIdempotent_cases
    (appended : wal.appendBatchFullIdempotent jsonLen entry = .ok (localLsn, written)) :
    (wal.findEntry jsonLen entry.batchId = .ok (some localLsn) ∧ written = wal) ∨
      (wal.findEntry jsonLen entry.batchId = .ok none ∧
        wal.insertEntryLocked jsonLen entry = .ok (localLsn, written)) := by
  rw [appendBatchFullIdempotent] at appended
  rw [findEntry]
  split at appended
  · next anonymous =>
      rw [if_pos anonymous]
      exact .inr ⟨rfl, appended⟩
  · next named =>
      rw [if_neg named]
      simp only [bind, Except.bind] at appended
      split at appended
      · cases appended
      · next found lookup =>
          split at appended
          · cases appended
            exact .inl ⟨lookup, rfl⟩
          · exact .inr ⟨lookup, appended⟩

variable (jsonLen) in
/-- A tree that does what it is asked for leaves what the call makes. -/
theorem appended_cases (call : LogCall) (tree : TreeOutcome) :
    ((∃ error, (wal.appended jsonLen call tree).1 = .error error) ∧
        (wal.appended jsonLen call tree).2 = wal) ∨
      ∃ localLsn written, wal.performAppend jsonLen call = .ok (localLsn, written) ∧
        (wal.appended jsonLen call tree).2 = written ∧
        ((wal.appended jsonLen call tree).1 = .ok localLsn ∨ ∃ text, tree = .unflushed text) := by
  unfold appended
  cases performed : wal.performAppend jsonLen call with
  | error error => exact .inl ⟨⟨error, rfl⟩, rfl⟩
  | ok result =>
      obtain ⟨localLsn, written⟩ := result
      cases tree with
      | done => exact .inr ⟨localLsn, written, rfl, rfl, .inl rfl⟩
      | refused text => exact .inl ⟨⟨_, rfl⟩, rfl⟩
      | unflushed text =>
          refine .inr ⟨localLsn, written, rfl, ?_, .inr ⟨text, rfl⟩⟩
          simp only
          split <;> rfl

/-- A call that appends leaves the log as it is, or adds rows. -/
theorem performAppend_cases (performed : wal.performAppend jsonLen call = .ok (localLsn, written)) :
    written = wal ∨ ∃ entries, wal.Added written localLsn entries := by
  cases call with
  | full entry => exact .inr ⟨_, (insertEntryLocked_added performed).1⟩
  | imported entry => exact .inr ⟨_, (insertEntryLocked_added performed).1⟩
  | idempotent entry =>
      rcases appendBatchFullIdempotent_cases performed with ⟨-, rfl⟩ | ⟨-, inserted⟩
      · exact .inl rfl
      · exact .inr ⟨_, (insertEntryLocked_added inserted).1⟩
  | importedBatch entries =>
      rcases appendImportedBatch_added performed with ⟨-, -, rfl⟩ | ⟨added, -⟩
      · exact .inl rfl
      · exact .inr ⟨_, added⟩

theorem row_unique {key : ℕ} {first second : WalEntry} (one : (key, first) ∈ wal.rows)
    (other : (key, second) ∈ wal.rows) : first = second := by
  have distinct : (wal.rows.map (·.1)).Nodup := wal.ordered.imp fun smaller => Nat.ne_of_lt smaller
  have same : (key, first) = (key, second) := List.inj_on_of_nodup_map distinct one other rfl
  exact congrArg Prod.snd same

theorem updateState_marked (updated : wal.updateState jsonLen localLsn state = .ok written) :
    wal.Marked written localLsn state := by
  obtain ⟨stored, listed, rfl⟩ := updateState_ok jsonLen updated
  refine ⟨List.map_congr_left fun row member => ?_, rfl⟩
  obtain ⟨key, entry⟩ := row
  by_cases here : key = localLsn
  · subst here
    rw [if_pos rfl, if_pos rfl, row_unique member listed]
  · rw [if_neg here, if_neg here]

variable (jsonLen) in
theorem marked_cases (localLsn : ℕ) (state : WalState) (tree : TreeOutcome) :
    ((∃ error, (wal.marked jsonLen localLsn state tree).1 = .error error) ∧
        (wal.marked jsonLen localLsn state tree).2 = wal) ∨
      ((wal.marked jsonLen localLsn state tree).1 = .ok () ∧
        wal.Marked (wal.marked jsonLen localLsn state tree).2 localLsn state) := by
  unfold marked
  cases updated : wal.updateState jsonLen localLsn state with
  | error error => exact .inl ⟨⟨error, rfl⟩, rfl⟩
  | ok written =>
      cases tree with
      | refused text => exact .inl ⟨⟨_, rfl⟩, rfl⟩
      | done => exact .inr ⟨rfl, updateState_marked updated⟩
      | unflushed text => exact .inr ⟨rfl, updateState_marked updated⟩

/-! ## Numbers in a row -/

/-- The keys are 1, 2, and so on, and every entry has its own. -/
structure Dense (wal : Wal) : Prop where
  keys : wal.rows.map (·.1) = List.range' 1 wal.rows.length
  numbered : ∀ row ∈ wal.rows, row.2.localLsn = row.1

theorem rekey_localLsn : ∀ row ∈ rekey first entries, row.2.localLsn = row.1 := by
  induction entries generalizing first with
  | nil => simp [rekey]
  | cons entry entries ih =>
      intro row member
      rcases List.mem_cons.mp member with rfl | later
      · rfl
      · exact ih row later

theorem Dense.added (dense : wal.Dense) (added : wal.Added written first entries) :
    written.Dense := by
  obtain ⟨place, -⟩ := nextLsn_dense dense.keys added.next
  constructor
  · have count : (rekey first entries).length = entries.length := by
      simpa using congrArg List.length (rekey_keys first entries)
    rw [added.rows, List.map_append, dense.keys, rekey_keys, List.length_append, count, place,
      Nat.add_comm wal.rows.length 1]
    exact List.range'_append_1
  · intro row member
    rw [added.rows] at member
    rcases List.mem_append.mp member with old | new
    · exact dense.numbered row old
    · exact rekey_localLsn row new

theorem Dense.marked (dense : wal.Dense) (marked : wal.Marked written localLsn state) :
    written.Dense := by
  constructor
  · rw [marked.rows, List.length_map, List.map_map, ← dense.keys]
    refine List.map_congr_left fun row member => ?_
    simp only [Function.comp_apply]
    split
    · next here => exact here.symm
    · rfl
  · intro row member
    rw [marked.rows] at member
    obtain ⟨old, listed, rfl⟩ := List.mem_map.mp member
    split
    · next here => exact (dense.numbered old listed).trans here
    · exact dense.numbered old listed

theorem Dense.act (dense : wal.Dense) (action : LogAction) : (wal.act jsonLen action).Dense := by
  cases action with
  | append call tree =>
      rcases wal.appended_cases jsonLen call tree with
        ⟨-, same⟩ | ⟨localLsn, written, performed, left, -⟩
      · rw [Wal.act, same]
        exact dense
      · rw [Wal.act, left]
        rcases performAppend_cases performed with rfl | ⟨entries, added⟩
        · exact dense
        · exact dense.added added
  | mark localLsn state tree =>
      rcases wal.marked_cases jsonLen localLsn state tree with ⟨-, same⟩ | ⟨-, marked⟩
      · rw [Wal.act, same]
        exact dense
      · exact dense.marked marked

theorem dense_openWithBudget (budget : ℕ) : (openWithBudget budget).Dense :=
  ⟨rfl, by simp [openWithBudget]⟩

end Wal

theorem logMachine_dense (jsonLen : WalEntry → ℕ) (budget : ℕ) (actions : List LogAction) :
    ((logMachine jsonLen).run (.openWithBudget budget) actions).Dense := by
  refine List.foldlRecOn (motive := Wal.Dense) actions _ (Wal.dense_openWithBudget budget) ?_
  exact fun wal dense action _ => dense.act action

/-! ## What a call keeps -/

namespace Wal

variable (jsonLen : WalEntry → ℕ) (wal : Wal)

/-- A failed append changes nothing; one that succeeds hands out the next number for its rows, or
one that it has given before, and the log is within its budget. -/
structure AppendKeeps (outcome : Except WalError ℕ × Wal) : Prop where
  failed : ∀ error, outcome.1 = .error error → outcome.2 = wal
  handsOut : ∀ localLsn, outcome.1 = .ok localLsn → outcome.2 = wal ∨
    localLsn = wal.rows.length + 1 ∧ ∃ entries, entries ≠ [] ∧
      outcome.2.rows = wal.rows ++ rekey localLsn entries
  within : ∀ localLsn, outcome.1 = .ok localLsn → outcome.2.usedBytes jsonLen ≤ outcome.2.maxBytes

/-- What a mark may do to a row: nothing, unless it is the row of its entry; and there it changes
the state alone, of an entry that is pending. -/
structure MarksRow (localLsn : ℕ) (state : WalState) (old new : ℕ × WalEntry) : Prop where
  key : new.1 = old.1
  others : old.1 ≠ localLsn → new = old
  content : old.1 = localLsn → new.2.readBack = { old.2.readBack with state := state }
  moves : new.2.state = old.2.state ∨ old.2.state = .pending

/-- A failed mark changes nothing either. -/
structure MarkKeeps (localLsn : ℕ) (state : WalState) (outcome : Except WalError Unit × Wal) :
    Prop where
  failed : ∀ error, outcome.1 = .error error → outcome.2 = wal
  rows : outcome.1 = .ok () →
    List.Forall₂ (MarksRow localLsn state) wal.rows outcome.2.rows

/-- What a call of a run has to keep. -/
def Keeps : LogAction → Prop
  | .append call tree => wal.AppendKeeps jsonLen (wal.appended jsonLen call tree)
  | .mark localLsn state tree =>
      wal.MarkKeeps localLsn state (wal.marked jsonLen localLsn state tree)

/-- There is room for the overhead of a row where there is room for its text. -/
def RoomFor (entry : WalEntry) : Prop :=
  ∀ next, wal.nextLsn = .ok next →
    let length := encodedLen jsonLen { entry with localLsn := next }
    saturatingAdd (wal.usedBytes jsonLen) length ≤ wal.maxBytes →
      saturatingAdd (wal.usedBytes jsonLen) (length + 16) ≤ wal.maxBytes

/-- An append that writes one row has room for it; one that writes none meets a log within its
budget. -/
def RoomForCall : LogCall → Prop
  | .full entry => wal.RoomFor jsonLen entry.fresh
  | .imported entry => wal.RoomFor jsonLen { entry with localLsn := 0 }
  | .idempotent entry =>
      match wal.findEntry jsonLen entry.batchId with
      | .ok none => wal.RoomFor jsonLen entry.fresh
      | .ok (some _) => wal.usedBytes jsonLen ≤ wal.maxBytes
      | .error _ => True
  | .importedBatch entries => entries = [] → wal.usedBytes jsonLen ≤ wal.maxBytes

/-- The tree flushes, an append has room, and a mark meets a pending entry or one that is marked
so already. -/
def Calm : LogAction → Prop
  | .append call tree => (∀ text, tree ≠ .unflushed text) ∧ wal.RoomForCall jsonLen call
  | .mark localLsn state _ =>
      ∀ row ∈ wal.rows, row.1 = localLsn → row.2.state = .pending ∨ row.2.state = state

variable {jsonLen wal} {written : Wal}

theorem usedBytes_added (added : wal.Added written first entries) :
    written.usedBytes jsonLen =
      saturatingAdd (wal.usedBytes jsonLen) (charge jsonLen ((rekey first entries).map (·.2))) := by
  rw [usedBytes, added.rows, List.map_append, charge_append]
  rfl

/-- A row that was charged in full is within the budget. -/
theorem within_insert (room : wal.RoomFor jsonLen entry)
    (inserted : wal.insertEntryLocked jsonLen entry = .ok (localLsn, written)) :
    written.usedBytes jsonLen ≤ written.maxBytes := by
  obtain ⟨added, fits⟩ := insertEntryLocked_added inserted
  rw [usedBytes_added added, added.maxBytes]
  have whole := room localLsn added.next fits
  have one : charge jsonLen ((rekey localLsn [entry]).map (·.2)) =
      saturatingAdd 0 (encodedLen jsonLen { entry with localLsn := localLsn } + 16) := rfl
  rw [one]
  simp only [saturatingAdd] at whole ⊢
  omega

theorem within_append (room : wal.RoomForCall jsonLen call)
    (performed : wal.performAppend jsonLen call = .ok (localLsn, written)) :
    written.usedBytes jsonLen ≤ written.maxBytes := by
  cases call with
  | full entry => exact within_insert room performed
  | imported entry => exact within_insert room performed
  | idempotent entry =>
      have batch : entry.fresh.batchId = entry.batchId := rfl
      rcases appendBatchFullIdempotent_cases performed with ⟨found, rfl⟩ | ⟨missing, inserted⟩
      · rw [batch] at found
        rw [RoomForCall, found] at room
        exact room
      · rw [batch] at missing
        rw [RoomForCall, missing] at room
        exact within_insert room inserted
  | importedBatch entries =>
      rcases appendImportedBatch_added performed with ⟨none, -, rfl⟩ | ⟨added, fits⟩
      · exact room none
      · rw [usedBytes_added added, added.maxBytes]
        exact fits

variable {tree : TreeOutcome} {action : LogAction}

/-- A calm append keeps what it should. -/
theorem appendKeeps_of_calm (dense : wal.Dense) (flushed : ∀ text, tree ≠ .unflushed text)
    (room : wal.RoomForCall jsonLen call) :
    wal.AppendKeeps jsonLen (wal.appended jsonLen call tree) := by
  rcases wal.appended_cases jsonLen call tree with
    ⟨⟨error, failed⟩, same⟩ | ⟨localLsn, written, performed, left, replied | ⟨text, unflushed⟩⟩
  · refine ⟨fun _ _ => same, fun localLsn replied => ?_, fun localLsn replied => ?_⟩
    · rw [failed] at replied
      cases replied
    · rw [failed] at replied
      cases replied
  · refine ⟨fun error failed => ?_, fun number handed => ?_, fun number handed => ?_⟩
    · rw [replied] at failed
      cases failed
    · rw [replied] at handed
      cases handed
      rw [left]
      rcases performAppend_cases performed with rfl | ⟨entries, added⟩
      · exact .inl rfl
      · exact .inr ⟨(nextLsn_dense dense.keys added.next).1, entries, added.some, added.rows⟩
    · rw [left]
      exact within_append room performed
  · exact absurd unflushed (flushed text)

theorem readBack_readBack (entry : WalEntry) : entry.readBack.readBack = entry.readBack := by
  have hints (hint : EdgeHint) : hint.readBack.readBack = hint.readBack := by
    simp [EdgeHint.readBack, Option.filter_filter]
  have drafts (draft : MemoryDraft) : draft.readBack.readBack = draft.readBack := by
    simp [MemoryDraft.readBack, hints]
  simp [WalEntry.readBack, drafts]

/-- A mark of an entry that may be marked keeps what it should. -/
theorem markKeeps_of_calm
    (markable : ∀ row ∈ wal.rows, row.1 = localLsn → row.2.state = .pending ∨ row.2.state = state) :
    wal.MarkKeeps localLsn state (wal.marked jsonLen localLsn state tree) := by
  rcases wal.marked_cases jsonLen localLsn state tree with
    ⟨⟨error, failed⟩, same⟩ | ⟨replied, marked⟩
  · refine ⟨fun _ _ => same, fun replied => ?_⟩
    rw [failed] at replied
    cases replied
  · refine ⟨fun error failed => ?_, fun _ => ?_⟩
    · rw [replied] at failed
      cases failed
    · rw [marked.rows, List.forall₂_map_right_iff, List.forall₂_same]
      intro row member
      by_cases here : row.1 = localLsn
      · rw [if_pos here]
        refine ⟨here.symm, fun other => absurd here other, fun _ => ?_, ?_⟩
        · exact congrArg (fun entry : WalEntry => { entry with state := state })
            (readBack_readBack row.2)
        · rcases markable row member here with pending | same
          · exact .inr pending
          · exact .inl same.symm
      · rw [if_neg here]
        exact ⟨rfl, fun _ => rfl, fun same => absurd same here, .inl rfl⟩

/-- **A calm call keeps everything.** -/
theorem Dense.keeps (dense : wal.Dense) (calm : wal.Calm jsonLen action) :
    wal.Keeps jsonLen action := by
  cases action with
  | append call tree => exact appendKeeps_of_calm dense calm.1 calm.2
  | mark localLsn state tree => exact markKeeps_of_calm calm

/-! ## Runs -/

/-- Every entry is still there, in the state that it was settled in. -/
def Settles (earlier later : Wal) : Prop :=
  ∀ row ∈ earlier.rows, ∃ kept ∈ later.rows, kept.1 = row.1 ∧
    (row.2.state ≠ .pending → kept.2.state = row.2.state)

theorem Settles.refl (wal : Wal) : wal.Settles wal :=
  fun row member => ⟨row, member, rfl, fun _ => rfl⟩

theorem Settles.trans {first second third : Wal} (near : first.Settles second)
    (far : second.Settles third) : first.Settles third := by
  intro row member
  obtain ⟨middle, listed, key, state⟩ := near row member
  obtain ⟨last, listedLast, keyLast, stateLast⟩ := far middle listed
  refine ⟨last, listedLast, keyLast.trans key, fun settled => ?_⟩
  have same := state settled
  exact (stateLast (same ▸ settled)).trans same

theorem settles_act (calm : wal.Calm jsonLen action) : wal.Settles (wal.act jsonLen action) := by
  cases action with
  | append call tree =>
      rcases wal.appended_cases jsonLen call tree with
        ⟨-, same⟩ | ⟨localLsn, written, performed, left, -⟩
      · rw [act, same]
        exact .refl wal
      · rw [act, left]
        rcases performAppend_cases performed with rfl | ⟨entries, added⟩
        · exact .refl written
        · intro row member
          exact ⟨row, added.rows ▸ List.mem_append_left _ member, rfl, fun _ => rfl⟩
  | mark localLsn state tree =>
      rcases wal.marked_cases jsonLen localLsn state tree with ⟨-, same⟩ | ⟨-, marked⟩
      · rw [act, same]
        exact .refl wal
      · intro row member
        refine ⟨_, marked.rows ▸ List.mem_map_of_mem member, ?_⟩
        split
        · next here =>
            refine ⟨here.symm, fun settled => ?_⟩
            rcases calm row member here with pending | same
            · exact absurd pending settled
            · exact same.symm
        · exact ⟨rfl, fun _ => rfl⟩

end Wal

/-- Logs under calm calls. -/
def calmLog (jsonLen : WalEntry → ℕ) : Machine Wal LogAction :=
  (logMachine jsonLen).restrict fun wal action => wal.Calm jsonLen action

theorem calmLog_settles {jsonLen : WalEntry → ℕ} {wal : Wal} {actions : List LogAction}
    (calm : (calmLog jsonLen).Allows wal actions) :
    wal.Settles ((calmLog jsonLen).run wal actions) := by
  refine calm.invariant (I := wal.Settles) (.refl wal) fun reached action settles allowed => ?_
  exact settles.trans (Wal.settles_act allowed.2)

/-- **Along every calm run** from an empty log, local numbers are 1, 2, and so on, every call keeps
what it should, and an entry that is settled stays as it is. -/
theorem calmLog_keeps {jsonLen : WalEntry → ℕ} {budget : ℕ} {before : List LogAction}
    {action : LogAction}
    (calm : (calmLog jsonLen).Allows (.openWithBudget budget) (before ++ [action])) :
    ((logMachine jsonLen).run (.openWithBudget budget) (before ++ [action])).Dense ∧
      ((logMachine jsonLen).run (.openWithBudget budget) before).Keeps jsonLen action ∧
      ∀ front back, before ++ [action] = front ++ back →
        ((logMachine jsonLen).run (.openWithBudget budget) front).Settles
          ((logMachine jsonLen).run (.openWithBudget budget) (before ++ [action])) := by
  refine ⟨logMachine_dense jsonLen budget _, ?_, ?_⟩
  · obtain ⟨-, ⟨-, last⟩, -⟩ := Machine.allows_append.mp calm
    exact (logMachine_dense jsonLen budget before).keeps last
  · intro front back split
    rw [split] at calm ⊢
    obtain ⟨-, rest⟩ := Machine.allows_append.mp calm
    rw [Machine.run_append]
    exact calmLog_settles rest

/-! ## A log of one entry -/

/-- An entry without drafts. -/
def emptyEntry : WalEntry := ⟨0, "s", [], [], .pending, "", [], "", "", []⟩

/-- The text of that entry has 139 bytes. -/
def emptyLen (_ : WalEntry) : ℕ := 139

/-- The entry is appended to a log with room for it, and marked. -/
theorem calmLog_keeps_marked :
    ((logMachine emptyLen).run (.openWithBudget 200)
      ([.append (.full emptyEntry) .done] ++ [.mark 1 .failed .done])).Dense := by
  have calm : (calmLog emptyLen).Allows (.openWithBudget 200)
      ([.append (.full emptyEntry) .done] ++ [.mark 1 .failed .done]) := by
    refine ⟨⟨trivial, ?_, ?_⟩, ⟨trivial, ?_⟩, trivial⟩
    · intro text impossible
      cases impossible
    · rintro next ⟨⟩ length fits
      decide
    · intro row member
      have only : row = (1, { emptyEntry.fresh with localLsn := 1 }) := List.mem_singleton.mp member
      rw [only]
      exact fun _ => .inl rfl
  exact (calmLog_keeps calm).1

/-- A row overruns the budget by its overhead; and an entry that was synced is marked failed. -/
theorem not_calmLog_keeps :
    (¬ ∀ (jsonLen : WalEntry → ℕ) (budget : ℕ) (call : LogCall) (localLsn : ℕ),
      ((Wal.openWithBudget budget).appended jsonLen call .done).1 = .ok localLsn →
      ((Wal.openWithBudget budget).appended jsonLen call .done).2.usedBytes jsonLen ≤ budget) ∧
    ¬ ∀ (jsonLen : WalEntry → ℕ) (budget : ℕ) (actions : List LogAction) (action : LogAction),
      ∀ row ∈ ((logMachine jsonLen).run (.openWithBudget budget) actions).rows,
        ∀ later ∈ ((logMachine jsonLen).run (.openWithBudget budget) (actions ++ [action])).rows,
          later.1 = row.1 → later.2.state = row.2.state ∨ row.2.state = .pending := by
  refine ⟨fun always => ?_, fun always => ?_⟩
  · have within := always emptyLen 144 (.full emptyEntry) 1 rfl
    exact absurd within (by decide)
  · have stays := always emptyLen 200
      [.append (.full emptyEntry) .done, .mark 1 (.synced 7) .done] (.mark 1 .failed .done)
      (1, { emptyEntry with localLsn := 1, state := .synced 7 }) (by decide)
      (1, { emptyEntry with localLsn := 1, state := .failed }) (by decide) rfl
    exact absurd stays (by decide)

end Exocortex
