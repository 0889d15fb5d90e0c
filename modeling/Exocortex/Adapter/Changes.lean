import Exocortex.Kernel.Json
import Exocortex.Ingest.Validation

/-!
# Changes of a database table

The adapter for change-data capture receives a JSON record for each change of the database. It
parses the record, and maps an insert or an update of the declared table to a row: the columns of
the new image over those of the identity, as the declared mapping selects them. A change without a
usable primary key is skipped, a deletion is counted.

What maps to a row is an insert or an update of the table with a usable key
(`mapChange_row_iff`).
-/

namespace Exocortex

open Library

/-! ## Records -/

/-- The cells of a row by the names of their columns; a null cell has no text. -/
abbrev Cells := Table String (Option String)

/-- A decoded change. -/
structure CdcChange where
  action : String
  table : String
  columns : Cells
  identity : Cells

/-- Parsing of JSON and the spelling of its values. -/
structure JsonLibrary where
  parse : String → Option JsonValue
  render : JsonValue → String

section Parse

variable (json : JsonLibrary)

def renderCell : JsonValue → Option String
  | .null => none
  | .string text => some text
  | other => some (json.render other)

def cellsOf (columns : JsonValue) : Except String Cells := do
  let list ← orReject columns.asArray
    "wal2json columns are not an array (format-version 2 required)"
  list.foldlM (fun cells column => do
    let name ← orReject ((column.get "name").bind JsonValue.asStr)
      "wal2json column carries no name"
    return cells.insert name ((column.get "value").bind (renderCell json))) ∅

/-- The cells under a name of the record, of which there may be none. -/
def cellsUnder (name : String) (value : JsonValue) : Except String Cells :=
  match value.get name with
  | some columns => cellsOf json columns
  | none => .ok ∅

def parseChange (payload : String) : Except String CdcChange := do
  let value ← orReject (json.parse payload) ("parsing wal2json change `" ++ payload ++ "`")
  let action ← orReject ((value.get "action").bind JsonValue.asStr)
    "wal2json change carries no action"
  require (["I", "U", "D", "T", "M"].contains action) ("unknown wal2json action `" ++ action ++ "`")
  let table := ((value.get "table").bind JsonValue.asStr).getD ""
  let columns ← cellsUnder json "columns" value
  let identity ← cellsUnder json "identity" value
  return ⟨action, table, columns, identity⟩

end Parse

/-! ## The declared mapping -/

/-- The declared mapping of a table's columns. -/
structure TableMapping where
  memoryType : String
  titleColumn : String
  contentColumns : List String
  pkColumns : List String
  tagsColumn : Option String
  parentColumn : Option String
  parentKind : Option String
  mappingVersion : UInt32

/-- A row, with its key joined. -/
structure TableRow where
  pk : String
  title : String
  content : List (String × String)
  tags : List String
  parent : Option String
deriving DecidableEq

/-- The character between the parts of a key. -/
def pkSeparator : String := "\u001f"

namespace TableMapping

variable (mapping : TableMapping)

def validateShape : Except String Unit := do
  require (!(trimText mapping.memoryType).isEmpty) "mapping.memory_type is empty"
  require (!(trimText mapping.titleColumn).isEmpty) "mapping.title_column is empty"
  require (!mapping.pkColumns.isEmpty) "mapping.pk_columns is empty — rows need identity"
  require (!(mapping.parentColumn.isSome && mapping.parentKind.isNone))
    "mapping.parent_column requires mapping.parent_kind"
  require (!(mapping.parentColumn.isNone && mapping.parentKind.isSome))
    "mapping.parent_kind requires mapping.parent_column"
  require (mapping.mappingVersion != 0) "mapping.mapping_version starts at 1"

/-- Every column that the mapping names, in order. -/
def referencedColumns : List String :=
  mapping.titleColumn :: mapping.contentColumns ++ mapping.pkColumns ++
    mapping.tagsColumn.toList ++ mapping.parentColumn.toList

/-- The cell of a column; a column of the mapping may be absent. -/
def resolve (cells overlay : Cells) (name : String) : Except String (Option String) :=
  match cells.lookup name, overlay.lookup name with
  | some value, _ => .ok value
  | none, some value => .ok value
  | none, none =>
      if mapping.referencedColumns.contains name then .ok none
      else .error ("mapped column `" ++ name ++ "` is absent from the change and the overlay")

/-- The tags in a cell. -/
def tagsOf (raw : String) : List String :=
  (((raw.toList.splitOn ',').map fun tag => trimText (String.ofList tag)).filter
    (!·.isEmpty)).map (·.map Char.toLower)

/-- One row of a cell map. A row without a usable key is skipped. -/
def rowFromCells (cells overlay : Cells) : Except String (Option TableRow) := do
  mapping.validateShape
  let pkParts ← mapping.pkColumns.mapM (mapping.resolve cells overlay)
  if pkParts.any fun part => (part.getD "").isEmpty then
    return none
  else
    let title ← mapping.resolve cells overlay mapping.titleColumn
    let content ← mapping.contentColumns.mapM fun column => do
      let value ← mapping.resolve cells overlay column
      return (column, value.getD "")
    let tags ← mapping.resolve cells overlay (mapping.tagsColumn.getD "")
    let parent ← mapping.resolve cells overlay (mapping.parentColumn.getD "")
    return some {
      pk := pkSeparator.intercalate (pkParts.map (·.getD ""))
      title := title.getD ""
      content := content
      tags := (tags.map tagsOf).getD []
      parent := parent.filter (!·.isEmpty) }

end TableMapping

/-- The table to watch and its mapping. -/
structure CdcMapping where
  table : String
  mapping : TableMapping

/-- What becomes of a change. -/
inductive MappedChange where
  | row (row : TableRow)
  | delete (pk : Option String)
  | otherTable
  | skippedNoPk

/-- The cells of a change: the new image, and the identity where it is silent. -/
def CdcChange.cells (change : CdcChange) : Cells :=
  change.columns.entries.foldl (fun cells entry => cells.insert entry.1 entry.2) change.identity

def mapChange (mapping : CdcMapping) (change : CdcChange) : Except String MappedChange :=
  if change.table ≠ mapping.table then .ok .otherTable
  else if change.action = "I" ∨ change.action = "U" then do
    match ← mapping.mapping.rowFromCells change.cells ∅ with
    | some row => return .row row
    | none => return .skippedNoPk
  else if change.action = "D" then do
    let row ← mapping.mapping.rowFromCells change.cells ∅
    return .delete (row.map (·.pk))
  else .ok .otherTable

/-! ## Changes that are rows -/

/-- Every column of the key has a text. -/
def TableMapping.UsableKey (mapping : TableMapping) (cells : Cells) : Prop :=
  ∀ column ∈ mapping.pkColumns, ∃ text, cells.lookup column = some (some text) ∧ text ≠ ""

/-- The change is an insert or an update of the table with a usable key. -/
def CdcChange.IsRowOf (change : CdcChange) (mapping : CdcMapping) : Prop :=
  change.table = mapping.table ∧ (change.action = "I" ∨ change.action = "U") ∧
    mapping.mapping.UsableKey change.cells

theorem resolve_usable_iff {mapping : TableMapping} {cells : Cells} {column : String}
    {part : Option String} (resolved : mapping.resolve cells ∅ column = .ok part) :
    (part.getD "").isEmpty = false ↔
      ∃ text, cells.lookup column = some (some text) ∧ text ≠ "" := by
  have nothing : AList.lookup column (∅ : Cells) = none := rfl
  rw [TableMapping.resolve, nothing] at resolved
  cases cell : cells.lookup column with
  | none =>
      rw [cell] at resolved
      obtain rfl : part = none := by
        dsimp only at resolved
        split at resolved
        · exact (Except.ok.inj resolved).symm
        · cases resolved
      simp
  | some value =>
      rw [cell] at resolved
      obtain rfl := Except.ok.inj resolved
      cases value <;> simp

/-- A cell map gives a row exactly when its key is usable. -/
theorem rowFromCells_isSome_iff {mapping : TableMapping} {cells : Cells} {row : Option TableRow}
    (ok : mapping.rowFromCells cells ∅ = .ok row) :
    row.isSome = true ↔ mapping.UsableKey cells := by
  simp only [TableMapping.rowFromCells, bind_eq_ok_iff] at ok
  obtain ⟨-, -, pkParts, parts, ok⟩ := ok
  have related := mapM_eq_ok_iff.mp parts
  split at ok
  next unusable =>
    obtain rfl := Except.ok.inj ok
    refine ⟨fun impossible => (by cases impossible), fun usable => ?_⟩
    obtain ⟨part, listed, empty⟩ := List.any_eq_true.mp unusable
    obtain ⟨column, named, resolved⟩ := exists_right related.flip listed
    rw [(resolve_usable_iff resolved).mpr (usable column named)] at empty
    cases empty
  next usable =>
    simp only [bind_eq_ok_iff] at ok
    obtain ⟨title, -, content, -, tags, -, parent, -, built⟩ := ok
    obtain rfl := Except.ok.inj built
    refine ⟨fun _ column named => ?_, fun _ => rfl⟩
    obtain ⟨part, listed, resolved⟩ := exists_right related named
    rw [Bool.not_eq_true, List.any_eq_false] at usable
    exact (resolve_usable_iff resolved).mp (Bool.eq_false_iff.mpr (usable part listed))

/-- **What maps to a row is an insert or an update of the table with a usable key.** -/
theorem mapChange_row_iff {mapping : CdcMapping} {change : CdcChange} {mapped : MappedChange}
    (ok : mapChange mapping change = .ok mapped) :
    (∃ row, mapped = .row row) ↔ change.IsRowOf mapping := by
  rw [mapChange] at ok
  split at ok
  next other =>
    obtain rfl := Except.ok.inj ok
    exact ⟨fun ⟨_, impossible⟩ => (by cases impossible), fun isRow => absurd isRow.1 other⟩
  next same =>
    split at ok
    next upsert =>
      obtain ⟨row, found, ok⟩ := bind_eq_ok_iff.mp ok
      have usable := rowFromCells_isSome_iff found
      cases row with
      | none =>
          obtain rfl := Except.ok.inj ok
          exact ⟨fun ⟨_, impossible⟩ => (by cases impossible),
            fun isRow => (by cases usable.mpr isRow.2.2)⟩
      | some row =>
          obtain rfl := Except.ok.inj ok
          exact ⟨fun _ => ⟨not_not.mp same, upsert, usable.mp rfl⟩, fun _ => ⟨row, rfl⟩⟩
    next noUpsert =>
      refine ⟨?_, fun isRow => absurd isRow.2.1 noUpsert⟩
      rintro ⟨row, rfl⟩
      split at ok
      · obtain ⟨found, -, built⟩ := bind_eq_ok_iff.mp ok
        cases built
      · cases ok

end Exocortex
