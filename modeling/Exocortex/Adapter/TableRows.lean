import Exocortex.Adapter.Changes

/-!
# Rows of a record batch

The adapters of tables read rows out of record batches, the adapter for change-data capture one
row out of a cell map (`TableMapping.rowFromCells`). Both resolve the columns of the mapping in the
data first and in the overlay where the data has no such column. They differ in two places. A column
of the mapping that is in neither fails the batch, and is an empty cell of the map. An optional
column that is not declared is no column for the batch, and for the map it is the column with the
empty name (`rowMapping_iff`).

The cells of a record batch are of any type; of their rendering it is known that a text is rendered
as itself.
-/

namespace Exocortex

open Library

/-! ## Record batches -/

/-- The cells of record batches: the cell of a text, and the text of a cell. -/
structure ArrowCells (V : Type) where
  ofText : String → V
  arrayValueToString : V → Option String
  ofText_toString : ∀ text, arrayValueToString (ofText text) = some text

/-- A record batch: its columns by their names, each with as many cells as there are rows. -/
structure RecordBatch (V : Type) where
  columns : List (String × List (Option V))
  numRows : ℕ

namespace RecordBatch

variable {V : Type} (batch : RecordBatch V)

/-- The first column of a name. -/
def indexOf (name : String) : Option ℕ := batch.columns.findIdx? (·.1 = name)

/-- The text of a cell that is not null. -/
def cell (arrow : ArrowCells V) (row ix : ℕ) : Option String :=
  (((batch.columns[ix]?).bind (·.2[row]?)).join).bind arrow.arrayValueToString

/-- A cell of a row: that of its column, or where the batch has no such column the overlay's. -/
def resolve (arrow : ArrowCells V) (overlay : Cells) (row : ℕ) (ix : Option ℕ) (name : String) :
    Option String :=
  match ix with
  | some ix => batch.cell arrow row ix
  | none => (overlay.lookup name).join

/-- The batch whose only row has the given cells. -/
def ofCells (arrow : ArrowCells V) (cells : Cells) : RecordBatch V where
  columns := cells.entries.map fun entry => (entry.1, [entry.2.map arrow.ofText])
  numRows := 1

end RecordBatch

namespace TableMapping

variable {V : Type} (mapping : TableMapping) (arrow : ArrowCells V)

/-- One row of a batch; a row without a usable key is none. -/
def batchRow (batch : RecordBatch V) (overlay : Cells) (row : ℕ) : Option TableRow :=
  let resolve := batch.resolve arrow overlay row
  let pkParts := mapping.pkColumns.map fun name => resolve (batch.indexOf name) name
  if pkParts.any fun part => (part.getD "").isEmpty then none
  else
    let tags := resolve (mapping.tagsColumn.bind batch.indexOf) (mapping.tagsColumn.getD "")
    let parent := resolve (mapping.parentColumn.bind batch.indexOf) (mapping.parentColumn.getD "")
    some {
      pk := pkSeparator.intercalate (pkParts.map (·.getD ""))
      title := (resolve (batch.indexOf mapping.titleColumn) mapping.titleColumn).getD ""
      content := mapping.contentColumns.map fun name =>
        (name, (resolve (batch.indexOf name) name).getD "")
      tags := (tags.map tagsOf).getD []
      parent := parent.filter (!·.isEmpty) }

/-- What a batch without a mapped column fails with. -/
def absentFrom (batch : RecordBatch V) (sourceName column : String) : String :=
  "mapped column `" ++ column ++ "` is absent from " ++ sourceName ++ " (observed: " ++
    ", ".intercalate (batch.columns.map (·.1)) ++ ")"

/-- The rows of a batch, and how many were skipped. -/
def readBatchRows (batch : RecordBatch V) (sourceName : String) (overlay : Cells) :
    Except String (List TableRow × ℕ) := do
  mapping.validateShape
  mapping.referencedColumns.forM fun mapped =>
    require ((batch.indexOf mapped).isSome || (overlay.lookup mapped).isSome)
      (absentFrom batch sourceName mapped)
  let rows := (List.range batch.numRows).map (mapping.batchRow arrow batch overlay)
  return (rows.filterMap id, rows.countP (·.isNone))

end TableMapping

/-! ## The columns of a batch of one row -/

section Cells

variable {V : Type} {arrow : ArrowCells V} {cells overlay : Cells} {mapping : TableMapping}
  {name : String}

/-- The cell of a name: the map's, or the overlay's. -/
def placed (cells overlay : Cells) (name : String) : Option (Option String) :=
  (cells.lookup name).or (overlay.lookup name)

theorem ofCells_indexOf_isSome :
    ((RecordBatch.ofCells arrow cells).indexOf name).isSome = (cells.lookup name).isSome := by
  rw [RecordBatch.indexOf, List.findIdx?_isSome, RecordBatch.ofCells, List.any_map, Bool.eq_iff_iff,
    List.any_eq_true, AList.lookup_isSome]
  simp only [Function.comp_apply, decide_eq_true_eq]
  exact List.mem_map.symm

theorem ofCells_cell {ix : ℕ} (found : (RecordBatch.ofCells arrow cells).indexOf name = some ix) :
    (RecordBatch.ofCells arrow cells).cell arrow 0 ix = (cells.lookup name).join := by
  obtain ⟨inside, same, -⟩ := List.findIdx?_eq_some_iff_getElem.mp found
  have below : ix < cells.entries.length := by simpa [RecordBatch.ofCells] using inside
  have key : cells.entries[ix].1 = name := by simpa [RecordBatch.ofCells] using same
  have listed : cells.lookup name = some cells.entries[ix].2 :=
    AList.mem_lookup_iff.mpr (key ▸ List.getElem_mem below)
  rw [listed, RecordBatch.cell, List.getElem?_eq_getElem inside]
  simp only [RecordBatch.ofCells, List.getElem_map, Option.bind_some, List.getElem?_cons_zero,
    Option.join_some]
  cases cells.entries[ix].2 with
  | none => rfl
  | some text => exact arrow.ofText_toString text

/-- A column is read where the map reads it. -/
theorem ofCells_resolve : (RecordBatch.ofCells arrow cells).resolve arrow overlay 0
    ((RecordBatch.ofCells arrow cells).indexOf name) name = (placed cells overlay name).join := by
  rw [placed]
  have same : ((RecordBatch.ofCells arrow cells).indexOf name).isSome =
    (cells.lookup name).isSome := ofCells_indexOf_isSome
  cases found : (RecordBatch.ofCells arrow cells).indexOf name with
  | some ix =>
      rw [found] at same
      obtain ⟨value, present⟩ := Option.isSome_iff_exists.mp same.symm
      rw [present, Option.some_or]
      exact (ofCells_cell found).trans (congrArg Option.join present)
  | none =>
      rw [found] at same
      have absent : cells.lookup name = none := Option.not_isSome_iff_eq_none.mp (by simp [← same])
      rw [absent, Option.none_or]
      rfl

theorem resolve_placed {value : Option String} (here : placed cells overlay name = some value) :
    mapping.resolve cells overlay name = .ok value := by
  rw [placed, Option.or_eq_some_iff] at here
  rw [TableMapping.resolve]
  rcases here with present | ⟨absent, present⟩
  · rw [present]
  · rw [absent, present]

theorem resolve_missing (nowhere : placed cells overlay name = none) :
    mapping.resolve cells overlay name =
      if mapping.referencedColumns.contains name then .ok none
      else .error ("mapped column `" ++ name ++ "` is absent from the change and the overlay") := by
  rw [placed, Option.or_eq_none_iff] at nowhere
  rw [TableMapping.resolve, nowhere.1, nowhere.2]

/-- A column of the mapping resolves, to an empty cell where it is in neither place. -/
theorem resolve_referenced (listed : name ∈ mapping.referencedColumns) :
    mapping.resolve cells overlay name = .ok (placed cells overlay name).join := by
  cases here : placed cells overlay name with
  | some value => exact resolve_placed here
  | none =>
      rw [resolve_missing here, if_pos (List.contains_iff_mem.mpr listed)]
      rfl

end Cells

/-! ## One row mapping -/

section Mapping

variable {V : Type} (arrow : ArrowCells V) (mapping : TableMapping) (cells overlay : Cells)

/-- Every column of the mapping is in the data or in the overlay. -/
def TableMapping.AllPlaced : Prop :=
  ∀ name ∈ mapping.referencedColumns, (placed cells overlay name).isSome

instance : Decidable (mapping.AllPlaced cells overlay) := inferInstanceAs
  (Decidable (∀ name ∈ mapping.referencedColumns, (placed cells overlay name).isSome = true))

/-- Every column of the key has a text. -/
def TableMapping.UsableHere : Prop :=
  ∀ name ∈ mapping.pkColumns, ∃ text, placed cells overlay name = some (some text) ∧ text ≠ ""

/-- The column with the empty name is there, and as `view` sees it the data does not say anything
else than the overlay. -/
def NamelessAgrees {A : Type} (view : Option String → A) : Prop :=
  ∃ value, placed cells overlay "" = some value ∧ view value = view (overlay.lookup "").join

/-- What the tags, and what the parent of a row are taken from. -/
def tagsIn (value : Option String) : List String := (value.map TableMapping.tagsOf).getD []

def parentIn (value : Option String) : Option String := value.filter (!·.isEmpty)

/-- Where an optional column is not declared, the column with the empty name does no harm. -/
structure TableMapping.OptionalAgrees : Prop where
  tags : mapping.tagsColumn = none → NamelessAgrees cells overlay tagsIn
  parent : mapping.parentColumn = none → NamelessAgrees cells overlay parentIn

/-- The two readers come to the same row, both skip it, or both fail because a column of the mapping
is in neither place. -/
inductive SameOutcome (sourceName : String) :
    Except String (Option TableRow) → Except String (List TableRow × ℕ) → Prop where
  | row (row : TableRow) : SameOutcome sourceName (.ok (some row)) (.ok ([row], 0))
  | skipped (unusable : ¬ mapping.UsableHere cells overlay) :
      SameOutcome sourceName (.ok none) (.ok ([], 1))
  | missing (first second : String) (firstMapped : first ∈ mapping.referencedColumns)
      (secondMapped : second ∈ mapping.referencedColumns)
      (firstNowhere : placed cells overlay first = none)
      (secondNowhere : placed cells overlay second = none) :
      SameOutcome sourceName
        (.error ("mapped column `" ++ first ++ "` is absent from the change and the overlay"))
        (.error (TableMapping.absentFrom (RecordBatch.ofCells arrow cells) sourceName second))

variable {arrow mapping cells overlay}

/-- The parts of a key as both readers resolve them. -/
def TableMapping.pkPartsAt (mapping : TableMapping) (cells overlay : Cells) :
    List (Option String) :=
  mapping.pkColumns.map fun name => (placed cells overlay name).join

theorem mem_referenced_pk {name : String} (listed : name ∈ mapping.pkColumns) :
    name ∈ mapping.referencedColumns := by
  simp [TableMapping.referencedColumns, listed]

theorem mem_referenced_content {name : String} (listed : name ∈ mapping.contentColumns) :
    name ∈ mapping.referencedColumns := by
  simp [TableMapping.referencedColumns, listed]

theorem usableHere_iff : mapping.UsableHere cells overlay ↔
    ¬ (mapping.pkPartsAt cells overlay).any (fun part => (part.getD "").isEmpty) := by
  rw [Bool.not_eq_true, List.any_eq_false, TableMapping.pkPartsAt, TableMapping.UsableHere,
    List.forall_mem_map]
  refine forall₂_congr fun name _ => ?_
  cases placed cells overlay name with
  | none => simp
  | some value => cases value <;> simp

/-- The row that the declared columns give, with what was read for the optional ones. -/
def TableMapping.rowWith (mapping : TableMapping) (cells overlay : Cells)
    (tags parent : Option String) : TableRow where
  pk := pkSeparator.intercalate ((mapping.pkPartsAt cells overlay).map (·.getD ""))
  title := ((placed cells overlay mapping.titleColumn).join).getD ""
  content := mapping.contentColumns.map fun name =>
    (name, ((placed cells overlay name).join).getD "")
  tags := tagsIn tags
  parent := parentIn parent

/-- What the reader of a cell map makes of an accepted mapping. -/
theorem rowFromCells_eq (accepted : mapping.validateShape = .ok ()) :
    mapping.rowFromCells cells overlay =
      if (mapping.pkPartsAt cells overlay).any (fun part => (part.getD "").isEmpty) then .ok none
      else do
        let tags ← mapping.resolve cells overlay (mapping.tagsColumn.getD "")
        let parent ← mapping.resolve cells overlay (mapping.parentColumn.getD "")
        return some (mapping.rowWith cells overlay tags parent) := by
  have parts : mapping.pkColumns.mapM (mapping.resolve cells overlay) =
      .ok (mapping.pkPartsAt cells overlay) :=
    mapM_eq_ok_map fun name listed => resolve_referenced (mem_referenced_pk listed)
  have title : mapping.resolve cells overlay mapping.titleColumn =
      .ok (placed cells overlay mapping.titleColumn).join := resolve_referenced List.mem_cons_self
  have content : mapping.contentColumns.mapM (fun column => do
        let value ← mapping.resolve cells overlay column
        return (column, value.getD "")) =
      Except.ok (ε := String) (mapping.contentColumns.map fun name =>
        (name, ((placed cells overlay name).join).getD "")) := by
    refine mapM_eq_ok_map fun name listed => ?_
    rw [resolve_referenced (mem_referenced_content listed)]
    rfl
  rw [TableMapping.rowFromCells, accepted, parts, title, content]
  rfl

/-- What a batch reads for an optional column. -/
def batchOptional (cells overlay : Cells) : Option String → Option String
  | some name => (placed cells overlay name).join
  | none => (overlay.lookup "").join

/-- What a batch of one row gives. -/
theorem batchRow_ofCells : mapping.batchRow arrow (RecordBatch.ofCells arrow cells) overlay 0 =
    if (mapping.pkPartsAt cells overlay).any (fun part => (part.getD "").isEmpty) then none
    else some (mapping.rowWith cells overlay
      (batchOptional cells overlay mapping.tagsColumn)
      (batchOptional cells overlay mapping.parentColumn)) := by
  have optional (column : Option String) :
      (RecordBatch.ofCells arrow cells).resolve arrow overlay 0
        (column.bind (RecordBatch.ofCells arrow cells).indexOf) (column.getD "") =
      batchOptional cells overlay column := by
    cases column with
    | none => rfl
    | some name => exact ofCells_resolve
  simp only [TableMapping.batchRow, ofCells_resolve, optional]
  rfl

variable {sourceName : String}

theorem readBatchRows_eq (accepted : mapping.validateShape = .ok ())
    (all : mapping.AllPlaced cells overlay) :
    mapping.readBatchRows arrow (RecordBatch.ofCells arrow cells) sourceName overlay =
      match mapping.batchRow arrow (RecordBatch.ofCells arrow cells) overlay 0 with
      | some row => .ok ([row], 0)
      | none => .ok ([], 1) := by
  have checked : mapping.referencedColumns.forM (fun mapped =>
      require (((RecordBatch.ofCells arrow cells).indexOf mapped).isSome ||
        (overlay.lookup mapped).isSome)
        (TableMapping.absentFrom (RecordBatch.ofCells arrow cells) sourceName mapped)) =
      .ok () := by
    refine forM_eq_ok_iff.mpr fun name listed => require_ok_iff.mpr ?_
    rw [ofCells_indexOf_isSome, ← Option.isSome_or]
    exact all name listed
  have one : List.range (RecordBatch.ofCells arrow cells).numRows = [0] := rfl
  rw [TableMapping.readBatchRows, accepted, checked, one]
  cases found : mapping.batchRow arrow (RecordBatch.ofCells arrow cells) overlay 0 with
  | none => simp [found]; rfl
  | some row => simp [found]; rfl

/-- A batch without a mapped column fails. -/
theorem readBatchRows_missing (accepted : mapping.validateShape = .ok ())
    (some_missing : ¬ mapping.AllPlaced cells overlay) :
    ∃ error, mapping.readBatchRows arrow (RecordBatch.ofCells arrow cells) sourceName overlay =
      .error error := by
  cases read : mapping.readBatchRows arrow (RecordBatch.ofCells arrow cells) sourceName overlay with
  | error error => exact ⟨error, rfl⟩
  | ok rows =>
      rw [TableMapping.readBatchRows, accepted] at read
      obtain ⟨_, -, read⟩ := bind_eq_ok_iff.mp read
      obtain ⟨_, checked, -⟩ := bind_eq_ok_iff.mp read
      refine absurd (fun name listed => ?_) some_missing
      have present := require_ok_iff.mp (forM_eq_ok_iff.mp checked name listed)
      rwa [ofCells_indexOf_isSome, ← Option.isSome_or] at present

/-- A cell map fails for a column that the mapping does not name. -/
theorem rowFromCells_error {error : String} (accepted : mapping.validateShape = .ok ())
    (failed : mapping.rowFromCells cells overlay = .error error) :
    ∃ name, name ∉ mapping.referencedColumns ∧
      error = "mapped column `" ++ name ++ "` is absent from the change and the overlay" := by
  have each : ∀ name : String, mapping.resolve cells overlay name = .error error →
      ∃ name, name ∉ mapping.referencedColumns ∧
        error = "mapped column `" ++ name ++ "` is absent from the change and the overlay" := by
    intro name unresolved
    cases here : placed cells overlay name with
    | some value =>
        rw [resolve_placed here] at unresolved
        cases unresolved
    | none =>
        rw [resolve_missing here] at unresolved
        split at unresolved
        · cases unresolved
        · next unlisted =>
            refine ⟨name, fun listed => unlisted (List.contains_iff_mem.mpr listed), ?_⟩
            exact (Except.error.inj unresolved).symm
  rw [rowFromCells_eq accepted] at failed
  split at failed
  · cases failed
  · cases tags : mapping.resolve cells overlay (mapping.tagsColumn.getD "") with
    | error other =>
        rw [tags] at failed
        exact each _ (tags.trans (congrArg Except.error (Except.error.inj failed)))
    | ok value =>
        cases parent : mapping.resolve cells overlay (mapping.parentColumn.getD "") with
        | error other =>
            rw [tags, parent] at failed
            exact each _ (parent.trans (congrArg Except.error (Except.error.inj failed)))
        | ok value' =>
            rw [tags, parent] at failed
            cases failed

/-- The map's value of an optional column, when the batch sees the same. -/
theorem optional_agrees_iff {A : Type} (view : Option String → A) {column : Option String}
    (declared : ∀ name ∈ column, name ∈ mapping.referencedColumns) :
    (∃ value, mapping.resolve cells overlay (column.getD "") = .ok value ∧
      view value = view (batchOptional cells overlay column)) ↔
      (column = none → ∃ value, mapping.resolve cells overlay "" = .ok value ∧
        view value = view (overlay.lookup "").join) := by
  cases column with
  | none => exact ⟨fun agrees _ => agrees, fun agrees => agrees rfl⟩
  | some name =>
      refine iff_of_true ⟨_, resolve_referenced (declared name rfl), rfl⟩ fun impossible => ?_
      cases impossible

/-- Where every column of the mapping is placed, the empty name resolves when it is placed. -/
theorem resolve_nameless_iff {A : Type} {view : Option String → A}
    (all : mapping.AllPlaced cells overlay) :
    (∃ value, mapping.resolve cells overlay "" = .ok value ∧
        view value = view (overlay.lookup "").join) ↔ NamelessAgrees cells overlay view := by
  constructor
  · rintro ⟨value, resolved, same⟩
    cases here : placed cells overlay "" with
    | some found =>
        rw [resolve_placed here] at resolved
        exact ⟨value, here.trans (congrArg some (Except.ok.inj resolved)), same⟩
    | none =>
        rw [resolve_missing here] at resolved
        split at resolved
        · next listed =>
            have present := all "" (List.contains_iff_mem.mp listed)
            rw [here] at present
            cases present
        · cases resolved
  · rintro ⟨value, here, same⟩
    exact ⟨value, resolve_placed here, same⟩

theorem optionalAgrees_iff (all : mapping.AllPlaced cells overlay) :
    (∃ tags parent, mapping.resolve cells overlay (mapping.tagsColumn.getD "") = .ok tags ∧
      mapping.resolve cells overlay (mapping.parentColumn.getD "") = .ok parent ∧
      tagsIn tags = tagsIn (batchOptional cells overlay mapping.tagsColumn) ∧
      parentIn parent = parentIn (batchOptional cells overlay mapping.parentColumn)) ↔
        mapping.OptionalAgrees cells overlay := by
  have tagsListed : ∀ name ∈ mapping.tagsColumn, name ∈ mapping.referencedColumns := by
    intro name declared
    simp [TableMapping.referencedColumns, Option.mem_def.mp declared]
  have parentListed : ∀ name ∈ mapping.parentColumn, name ∈ mapping.referencedColumns := by
    intro name declared
    simp [TableMapping.referencedColumns, Option.mem_def.mp declared]
  have tags := @optional_agrees_iff mapping cells overlay _ tagsIn _ tagsListed
  have parent := @optional_agrees_iff mapping cells overlay _ parentIn _ parentListed
  rw [resolve_nameless_iff all] at tags parent
  constructor
  · rintro ⟨value, value', resolved, resolved', same, same'⟩
    exact ⟨tags.mp ⟨value, resolved, same⟩, parent.mp ⟨value', resolved', same'⟩⟩
  · intro agrees
    obtain ⟨value, resolved, same⟩ := tags.mpr agrees.tags
    obtain ⟨value', resolved', same'⟩ := parent.mpr agrees.parent
    exact ⟨value, value', resolved, resolved', same, same'⟩

theorem sameOutcome_row_iff {first second : TableRow} :
    SameOutcome arrow mapping cells overlay sourceName (.ok (some first)) (.ok ([second], 0)) ↔
      first = second := by
  constructor
  · intro same
    cases same
    rfl
  · rintro rfl
    exact .row first

theorem rowWith_inj {tags parent tags' parent' : Option String} :
    mapping.rowWith cells overlay tags parent = mapping.rowWith cells overlay tags' parent' ↔
      tagsIn tags = tagsIn tags' ∧ parentIn parent = parentIn parent' := by
  simp [TableMapping.rowWith]

/-- **The two readers come to one outcome exactly when** every column of the mapping is in the data
or in the overlay and, for a row with a usable key, the column with the empty name does no harm
where an optional column is not declared. -/
theorem rowMapping_iff (arrow : ArrowCells V) (mapping : TableMapping) (cells overlay : Cells)
    (sourceName : String) (accepted : mapping.validateShape = .ok ()) :
    SameOutcome arrow mapping cells overlay sourceName (mapping.rowFromCells cells overlay)
        (mapping.readBatchRows arrow (.ofCells arrow cells) sourceName overlay) ↔
      mapping.AllPlaced cells overlay ∧
        (mapping.UsableHere cells overlay → mapping.OptionalAgrees cells overlay) := by
  by_cases all : mapping.AllPlaced cells overlay
  swap
  · -- The batch fails, and the map does not fail for a column of the mapping.
    refine iff_of_false (fun same => ?_) fun both => all both.1
    obtain ⟨error, failed⟩ : ∃ error, mapping.readBatchRows arrow (.ofCells arrow cells) sourceName
        overlay = .error error := readBatchRows_missing accepted all
    rw [failed] at same
    generalize outcome : mapping.rowFromCells cells overlay = fromCells at same
    cases same with
    | missing first second firstMapped secondMapped firstNowhere secondNowhere =>
        obtain ⟨name, unlisted, text⟩ := rowFromCells_error accepted outcome
        rw [String.append_left_inj, String.append_right_inj] at text
        exact unlisted (text ▸ firstMapped)
  rw [readBatchRows_eq accepted all, batchRow_ofCells, rowFromCells_eq accepted]
  have usable := @usableHere_iff mapping cells overlay
  by_cases unusable : (mapping.pkPartsAt cells overlay).any fun part => (part.getD "").isEmpty
  · have skips : ¬ mapping.UsableHere cells overlay := fun here => usable.mp here unusable
    rw [if_pos unusable, if_pos unusable]
    exact iff_of_true (.skipped skips) ⟨all, fun here => absurd here skips⟩
  · rw [if_neg unusable, if_neg unusable]
    have here := usable.mpr unusable
    rw [← optionalAgrees_iff all]
    constructor
    · intro same
      refine ⟨all, fun _ => ?_⟩
      cases tags : mapping.resolve cells overlay (mapping.tagsColumn.getD "") with
      | error error =>
          rw [tags] at same
          cases same
      | ok value =>
          cases parent : mapping.resolve cells overlay (mapping.parentColumn.getD "") with
          | error error =>
              rw [tags, parent] at same
              cases same
          | ok value' =>
              rw [tags, parent] at same
              obtain ⟨sameTags, sameParent⟩ := rowWith_inj.mp (sameOutcome_row_iff.mp same)
              exact ⟨value, value', rfl, rfl, sameTags, sameParent⟩
    · rintro ⟨-, agrees⟩
      obtain ⟨value, value', tags, parent, same, same'⟩ := agrees here
      rw [tags, parent]
      exact sameOutcome_row_iff.mpr (rowWith_inj.mpr ⟨same, same'⟩)

end Mapping

/-! ## A mapping without optional columns -/

/-- Notes by their number, with or without tags and a parent. -/
def noteMapping (tagsColumn parentColumn parentKind : Option String) : TableMapping where
  memoryType := "Note"
  titleColumn := "title"
  contentColumns := []
  pkColumns := ["id"]
  tagsColumn := tagsColumn
  parentColumn := parentColumn
  parentKind := parentKind
  mappingVersion := 1

/-- A batch of texts. -/
def textCells : ArrowCells String := ⟨id, some, fun _ => rfl⟩

def noteCells : Cells :=
  (((∅ : Cells).insert "id" (some "7")).insert "title" (some "first")).insert "tags" (some "A, b")

theorem rowMapping_full :
    SameOutcome textCells (noteMapping (some "tags") (some "id") (some "Causes")) noteCells ∅
      "notes"
      ((noteMapping (some "tags") (some "id") (some "Causes")).rowFromCells noteCells ∅)
      ((noteMapping (some "tags") (some "id") (some "Causes")).readBatchRows textCells
        (.ofCells textCells noteCells) "notes" ∅) := by
  refine (rowMapping_iff textCells _ noteCells ∅ "notes" (by decide +kernel)).mpr
    ⟨by decide +kernel, fun _ => ⟨?_, ?_⟩⟩
  · intro undeclared
    cases undeclared
  · intro undeclared
    cases undeclared

/-- Without tags the batch has a row, and the cell map fails. -/
theorem not_rowMapping :
    ¬ ∀ (V : Type) (arrow : ArrowCells V) (mapping : TableMapping) (cells overlay : Cells)
      (sourceName : String), mapping.validateShape = .ok () →
      SameOutcome arrow mapping cells overlay sourceName (mapping.rowFromCells cells overlay)
        (mapping.readBatchRows arrow (.ofCells arrow cells) sourceName overlay) := by
  intro always
  have same := always String textCells (noteMapping none none none) noteCells ∅ "notes"
    (by decide +kernel)
  have failed : (noteMapping none none none).rowFromCells noteCells ∅ = .error
      "mapped column `` is absent from the change and the overlay" := by decide +kernel
  have read : (noteMapping none none none).readBatchRows textCells (.ofCells textCells noteCells)
      "notes" ∅ = .ok ([⟨"7", "first", [], [], none⟩], 0) := by decide +kernel
  rw [failed, read] at same
  generalize "mapped column `` is absent from the change and the overlay" = text at same
  cases same

end Exocortex
