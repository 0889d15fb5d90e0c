import Exocortex.Adapter.TableRows
import Exocortex.Ingest.Manifest
import Exocortex.Library.Joins

/-!
# Keys of rows

The identity of a row is the text of its key: the cells of the key's columns, joined with a
separator. Both readers of rows make it of the cells alone (`ReadAs.spec`). Rows are mapped to
drafts under it, and a row that names the key of a parent is joined to the row of the window that
has it.

The cells of a key may contain the separator. Two rows with other cells have one key then, unless
the separator stands where no cell of the key can end or begin (`rowKeys_faithful_iff`).
-/

namespace Exocortex

open Library

/-! ## Drafts of rows -/

/-- The key of the draft of a row in its window. -/
def rowDraftKey (index : ℕ) : String := "row-" ++ toString index

def truncate200 (text : String) : String := String.ofList (text.toList.take 200)

namespace TableMapping

variable (mapping : TableMapping) (tableUuid schemaHash : List UInt8) (rows : List TableRow)
  (flavorTag : String)

/-- The draft of the row with a key, of the last one where there are several. -/
def pkKey (pk : String) : Option String :=
  (lastWith (fun entry => entry.1.pk) pk rows.zipIdx).map fun entry => rowDraftKey entry.2

def rowMemory (entry : TableRow × ℕ) : WireMemory where
  draftKey := rowDraftKey entry.2
  memoryType := mapping.memoryType
  title := truncate200 (if (trimText entry.1.title).isEmpty then entry.1.pk else entry.1.title)
  content := String.join (entry.1.content.map fun column => column.1 ++ ": " ++ column.2 ++ "\n")
  tags := flavorTag :: entry.1.tags
  visibility := 3
  validFrom := none
  validUntil := none
  externalKey := some ⟨tableUuid, entry.1.pk, mapping.mappingVersion.toNat⟩
  rights := none

def parentEdge (entry : TableRow × ℕ) (parentPk parentKey : String) : WireRel where
  fromDraftKey := rowDraftKey entry.2
  toDraftKey := parentKey
  kind := mapping.parentKind.getD ""
  strength := ⟨0#32⟩
  confidence := ⟨0x3f666666#32⟩
  context := "parent via " ++ mapping.parentColumn.getD "" ++ "=" ++ parentPk
  visibility := 3
  toMemoryId := ""

/-- The edge to the parent of a row, and none where no row of the window has its key. -/
def rowEdge (entry : TableRow × ℕ) : Option WireRel :=
  entry.1.parent.bind fun parentPk => (pkKey rows parentPk).map (mapping.parentEdge entry parentPk)

/-- The drafts of a window, and how many parents are outside of it. -/
def mapRows : BatchUnit × ℕ :=
  ({ memories := rows.zipIdx.map (mapping.rowMemory tableUuid flavorTag)
     relationships := rows.zipIdx.filterMap (mapping.rowEdge rows)
     snapshot := some ⟨"", schemaHash, flavorTag⟩ },
    rows.countP fun row => row.parent.any fun parentPk => (pkKey rows parentPk).isNone)

end TableMapping

/-! ## What is read of a key -/

/-- A row is read, by either reader, from a source row whose key has the given cells. -/
inductive ReadAs (mapping : TableMapping) : List String → TableRow → Prop
  | batch {V : Type} (arrow : ArrowCells V) (batch : RecordBatch V) (sourceName : String)
      (overlay : Cells) (rows : List TableRow) (skipped place : ℕ) (row : TableRow)
      (read : mapping.readBatchRows arrow batch sourceName overlay = .ok (rows, skipped))
      (inside : place < batch.numRows)
      (here : mapping.batchRow arrow batch overlay place = some row) :
      ReadAs mapping (mapping.pkColumns.map fun name =>
        (batch.resolve arrow overlay place (batch.indexOf name) name).getD "") row
  | cells (cells overlay : Cells) (row : TableRow)
      (read : mapping.rowFromCells cells overlay = .ok (some row)) :
      ReadAs mapping (mapping.pkColumns.map fun name =>
        ((placed cells overlay name).join).getD "") row

/-- A row whose key has these cells is told from every other one. -/
def KeyFaithful (mapping : TableMapping) (parts : List String) : Prop :=
  ∀ row parts' row', ReadAs mapping parts row → ReadAs mapping parts' row' →
    (row.pk = row'.pk ↔ parts = parts')

/-- The cells of a key are solid: no cell has the separator in it, but for the start of the first
cell, the end of the last one, and a cell between that is the separator. -/
def SolidKey (parts : List String) : Prop := Solid '\u001f' (parts.map String.toList)

section Keys

variable {mapping : TableMapping} {parts parts' : List String} {row row' : TableRow}

/-- Both readers make the key of its cells, and none of them is empty. -/
theorem ReadAs.spec (read : ReadAs mapping parts row) :
    parts.length = mapping.pkColumns.length ∧ (∀ part ∈ parts, part ≠ "") ∧
      row.pk = pkSeparator.intercalate parts := by
  cases read with
  | batch arrow batch sourceName overlay rows skipped place row read inside here =>
      simp only [TableMapping.batchRow] at here
      split at here
      · cases here
      · next usable =>
          obtain rfl := Option.some.inj here
          refine ⟨List.length_map _, ?_, ?_⟩
          · rw [Bool.not_eq_true, List.any_eq_false, List.forall_mem_map] at usable
            rw [List.forall_mem_map]
            intro name listed none_
            exact usable name listed (by rw [none_]; rfl)
          · rw [List.map_map]
            rfl
  | cells cells overlay row read =>
      have accepted : mapping.validateShape = .ok () := by
        cases shape : mapping.validateShape with
        | ok => rfl
        | error reason =>
            rw [TableMapping.rowFromCells, shape] at read
            cases read
      rw [rowFromCells_eq accepted] at read
      split at read
      · cases read
      · next usable =>
          obtain ⟨tags, -, read⟩ := bind_eq_ok_iff.mp read
          obtain ⟨parent, -, read⟩ := bind_eq_ok_iff.mp read
          obtain rfl := Option.some.inj (Except.ok.inj read)
          refine ⟨List.length_map _, ?_, ?_⟩
          · rw [TableMapping.pkPartsAt, Bool.not_eq_true, List.any_eq_false,
              List.forall_mem_map] at usable
            rw [List.forall_mem_map]
            intro name listed none_
            exact usable name listed (by rw [none_]; rfl)
          · rw [TableMapping.rowWith, TableMapping.pkPartsAt, List.map_map]
            rfl

theorem joined_toList (parts : List String) :
    (pkSeparator.intercalate parts).toList = joined '\u001f' (parts.map String.toList) :=
  String.toList_intercalate

theorem filled_toList : Filled (parts.map String.toList) ↔ ∀ part ∈ parts, part ≠ "" := by
  rw [Filled, List.forall_mem_map]
  refine forall₂_congr fun part _ => not_congr ?_
  exact String.toList_eq_nil_iff

/-- Solid cells are known from the key. -/
theorem SolidKey.eq (solid : SolidKey parts) (filled : ∀ part ∈ parts, part ≠ "")
    (filled' : ∀ part ∈ parts', part ≠ "") (length : parts'.length = parts.length)
    (same : pkSeparator.intercalate parts' = pkSeparator.intercalate parts) : parts' = parts := by
  have joined_ := congrArg String.toList same
  rw [joined_toList, joined_toList] at joined_
  have lists := Solid.eq (filled_toList.mpr filled) solid (filled_toList.mpr filled')
    (by rw [List.length_map, List.length_map, length]) joined_
  exact (List.map_injective_iff.mpr fun _ _ => String.toList_inj.mp) lists

/-- A row with a solid key is told from every other one. -/
theorem SolidKey.faithful (solid : SolidKey parts) : KeyFaithful mapping parts := by
  intro row parts' row' read read'
  obtain ⟨length, filled, pk⟩ := read.spec
  obtain ⟨length', filled', pk'⟩ := read'.spec
  rw [pk, pk']
  constructor
  · intro same
    exact (solid.eq filled filled' (length'.trans length.symm) same.symm).symm
  · rintro rfl
    rfl

/-! ## Every key is read -/

/-- The cells of a row whose key has the given cells. -/
def keyCells : (columns parts : List String) → List (Sigma fun _ : String => Option String)
  | column :: columns, part :: parts => ⟨column, some part⟩ :: keyCells columns parts
  | _, _ => []

variable {columns : List String}

theorem keys_keyCells (length : parts.length = columns.length) :
    (keyCells columns parts).keys = columns := by
  induction columns generalizing parts with
  | nil => cases parts <;> rfl
  | cons column columns ih =>
      match parts, length with
      | part :: parts, length => exact congrArg _ (ih (Nat.succ.inj length))

theorem map_keyCells (distinct : columns.Nodup) (length : parts.length = columns.length) :
    columns.map (fun name => ((List.dlookup name (keyCells columns parts)).join).getD "") =
      parts := by
  induction columns generalizing parts with
  | nil => exact (List.length_eq_zero_iff.mp length).symm
  | cons column columns ih =>
      match parts, length with
      | part :: parts, length =>
          obtain ⟨fresh, distinct⟩ := List.nodup_cons.mp distinct
          rw [List.map_cons, keyCells, List.dlookup_cons_eq]
          refine congrArg _ (Eq.trans (List.map_congr_left fun name listed => ?_)
            (ih distinct (Nat.succ.inj length)))
          have other : name ≠ column := by
            rintro rfl
            exact fresh listed
          have skipped : List.dlookup name (⟨column, some part⟩ :: keyCells columns parts) =
              List.dlookup name (keyCells columns parts) := List.dlookup_cons_ne _ _ other
          rw [skipped]

/-- Where no column is named twice, any texts are the cells of the key of a row. -/
theorem exists_readAs (accepted : mapping.validateShape = .ok ())
    (distinct : mapping.pkColumns.Nodup) (length : parts.length = mapping.pkColumns.length)
    (filled : ∀ part ∈ parts, part ≠ "") : ∃ row, ReadAs mapping parts row := by
  let cells : Cells := ⟨keyCells mapping.pkColumns parts, by
    rw [List.NodupKeys, keys_keyCells length]
    exact distinct⟩
  -- an optional column that is not declared is the one with the empty name
  let overlay : Cells := AList.singleton "" none
  have read : mapping.pkColumns.map (fun name => ((placed cells overlay name).join).getD "") =
      parts := by
    refine Eq.trans (List.map_congr_left fun name listed => ?_) (map_keyCells distinct length)
    have present : (cells.lookup name).isSome := by
      rw [AList.lookup_isSome, AList.mem_keys]
      change name ∈ (keyCells mapping.pkColumns parts).keys
      rwa [keys_keyCells length]
    obtain ⟨value, found⟩ := Option.isSome_iff_exists.mp present
    have found' : List.dlookup name (keyCells mapping.pkColumns parts) = some value := found
    rw [placed, found, found', Option.some_or]
  have optional (column : Option String)
      (declared : ∀ name ∈ column, name ∈ mapping.referencedColumns) :
      ∃ value, mapping.resolve cells overlay (column.getD "") = .ok value := by
    cases column with
    | some name => exact ⟨_, resolve_referenced (declared name rfl)⟩
    | none =>
        cases here : placed cells overlay "" with
        | some value => exact ⟨value, resolve_placed here⟩
        | none =>
            rw [placed, Option.or_eq_none_iff] at here
            exact absurd here.2 (by decide)
  obtain ⟨tags, tagsRead⟩ := optional mapping.tagsColumn fun name declared => by
    simp [TableMapping.referencedColumns, Option.mem_def.mp declared]
  obtain ⟨parent, parentRead⟩ := optional mapping.parentColumn fun name declared => by
    simp [TableMapping.referencedColumns, Option.mem_def.mp declared]
  have usable : (mapping.pkPartsAt cells overlay).any (fun part => (part.getD "").isEmpty) =
      false := by
    rw [TableMapping.pkPartsAt, List.any_eq_false, List.forall_mem_map]
    intro name listed none_
    have inside : ((placed cells overlay name).join).getD "" ∈ parts := by
      rw [← read]
      exact List.mem_map_of_mem listed
    exact filled _ inside (String.isEmpty_iff.mp none_)
  refine ⟨mapping.rowWith cells overlay tags parent, ?_⟩
  have given : mapping.rowFromCells cells overlay =
      .ok (some (mapping.rowWith cells overlay tags parent)) := by
    rw [rowFromCells_eq accepted, usable, tagsRead, parentRead]
    rfl
  have same := ReadAs.cells cells overlay _ given
  rwa [read] at same

/-- A row is told from every other one exactly when its key is solid. -/
theorem keyFaithful_iff (accepted : mapping.validateShape = .ok ())
    (distinct : mapping.pkColumns.Nodup) (length : parts.length = mapping.pkColumns.length)
    (filled : ∀ part ∈ parts, part ≠ "") : KeyFaithful mapping parts ↔ SolidKey parts := by
  refine ⟨fun faithful => ?_, SolidKey.faithful⟩
  by_contra loose
  obtain ⟨others, length', filled', different, same⟩ :=
    ambiguous_of_not_solid (filled_toList.mpr filled) loose
  have texts : (others.map String.ofList).map String.toList = others := by
    rw [List.map_map]
    exact List.map_id'' (fun _ => String.toList_ofList) others
  rw [List.length_map] at length'
  have filled'' : ∀ part ∈ others.map String.ofList, part ≠ "" :=
    filled_toList.mp (texts.symm ▸ filled')
  obtain ⟨row, read⟩ := exists_readAs accepted distinct length filled
  obtain ⟨row', read'⟩ := exists_readAs accepted distinct
    (by rw [List.length_map, length', length]) filled''
  have pk : row.pk = row'.pk := by
    rw [read.spec.2.2, read'.spec.2.2, ← String.toList_inj, joined_toList, joined_toList, texts,
      same]
  have equal := (faithful row _ row' read read').mp pk
  rw [equal, texts] at different
  exact different rfl

/-! ## Windows of rows -/

/-- The drafts of a window tell its rows apart, and a row is joined to the row with the key that it
names and to no other. -/
structure MapsFaithfully (mapping : TableMapping) (unit : BatchUnit) (keys : List (List String))
    (rows : List TableRow) : Prop where
  keyed : ∀ (i j : ℕ) (draft draft' : WireMemory), unit.memories[i]? = some draft →
    unit.memories[j]? = some draft' →
      (draft.externalKey = draft'.externalKey ↔ keys[i]? = keys[j]?)
  parents : ∀ edge ∈ unit.relationships, ∃ (i j : ℕ) (row : TableRow) (key : List String),
    rows[i]? = some row ∧ edge.fromDraftKey = rowDraftKey i ∧
      keys[j]? = some key ∧ edge.toDraftKey = rowDraftKey j ∧
        row.parent = some (pkSeparator.intercalate key) ∧
          ∀ named : List String, named.length = mapping.pkColumns.length →
            (∀ part ∈ named, part ≠ "") →
              pkSeparator.intercalate named = pkSeparator.intercalate key → named = key

theorem mapRows_faithful {tableUuid schemaHash : List UInt8} {flavorTag : String}
    {keys : List (List String)} {rows : List TableRow}
    (read : List.Forall₂ (ReadAs mapping) keys rows) (solid : ∀ key ∈ keys, SolidKey key) :
    MapsFaithfully mapping (mapping.mapRows tableUuid schemaHash rows flavorTag).1 keys rows := by
  -- the key of each row of the window
  have keyAt {i : ℕ} {row : TableRow} (here : rows[i]? = some row) :
      ∃ key, keys[i]? = some key ∧ SolidKey key ∧ ReadAs mapping key row := by
    obtain ⟨inside, rfl⟩ := List.getElem?_eq_some_iff.mp here
    have inside' : i < keys.length := read.length_eq ▸ inside
    exact ⟨keys[i], List.getElem?_eq_getElem inside', solid _ (List.getElem_mem inside'),
      read.get inside' inside⟩
  refine ⟨?_, ?_⟩
  · intro i j draft draft' here here'
    simp only [TableMapping.mapRows, List.getElem?_map, List.getElem?_zipIdx, Option.map_map,
      Option.map_eq_some_iff, Function.comp_apply] at here here'
    obtain ⟨row, rowHere, rfl⟩ := here
    obtain ⟨row', rowHere', rfl⟩ := here'
    obtain ⟨key, keyHere, isSolid, readHere⟩ := keyAt rowHere
    obtain ⟨key', keyHere', -, readHere'⟩ := keyAt rowHere'
    have told := isSolid.faithful row key' row' readHere readHere'
    rw [keyHere, keyHere', Option.some_inj, ← told]
    simp [TableMapping.rowMemory]
  · intro edge listed
    obtain ⟨⟨row, i⟩, rowHere, joins⟩ := List.mem_filterMap.mp listed
    obtain ⟨parentPk, parent, joins⟩ := Option.bind_eq_some_iff.mp joins
    obtain ⟨parentKey, found, rfl⟩ := Option.map_eq_some_iff.mp joins
    obtain ⟨⟨target, j⟩, last, rfl⟩ := Option.map_eq_some_iff.mp found
    obtain ⟨targetHere, same⟩ := lastWith_some last
    rw [List.mem_zipIdx_iff_getElem?] at rowHere targetHere
    obtain ⟨key, keyHere, isSolid, readHere⟩ := keyAt targetHere
    obtain ⟨length, filled, pk⟩ := readHere.spec
    refine ⟨i, j, row, key, rowHere, rfl, keyHere, rfl, ?_, ?_⟩
    · rw [parent, ← pk]
      exact congrArg some same.symm
    · intro named length' filled' joined_
      exact isSolid.eq filled filled' (length'.trans length.symm) joined_

end Keys

/-- **When the identity of a row is faithful.** A row whose key is solid has its key for itself,
whatever reader it was read by, its drafts have their external keys for themselves, and a parent is
the row with the key that was named. Where the columns of the key are distinct, a key that is not
solid is the key of another row too. -/
theorem rowKeys_faithful_iff (mapping : TableMapping) (parts : List String) :
    (SolidKey parts → KeyFaithful mapping parts) ∧
    (mapping.validateShape = .ok () → mapping.pkColumns.Nodup →
      parts.length = mapping.pkColumns.length → (∀ part ∈ parts, part ≠ "") →
        (KeyFaithful mapping parts ↔ SolidKey parts)) ∧
    ∀ (tableUuid schemaHash : List UInt8) (flavorTag : String)
      (keys : List (List String)) (rows : List TableRow),
        List.Forall₂ (ReadAs mapping) keys rows → (∀ key ∈ keys, SolidKey key) →
          MapsFaithfully mapping
            (mapping.mapRows tableUuid schemaHash rows flavorTag).1 keys rows :=
  ⟨fun solid => solid.faithful, keyFaithful_iff,
    fun _ _ _ _ _ read solid => mapRows_faithful read solid⟩

/-- A table with a key of two columns. -/
def pairMapping : TableMapping where
  memoryType := "Note"
  titleColumn := "a"
  contentColumns := []
  pkColumns := ["a", "b"]
  tagsColumn := none
  parentColumn := none
  parentKind := none
  mappingVersion := 1

/-- The separator moves from one cell to the other one, and the key stays. -/
theorem not_keyFaithful :
    pkSeparator.intercalate ["x\u001fy", "z"] = pkSeparator.intercalate ["x", "y\u001fz"] ∧
    ¬ KeyFaithful pairMapping ["x\u001fy", "z"] := by
  refine ⟨by decide, fun faithful => ?_⟩
  have solid := (keyFaithful_iff (by decide) (by decide) (by decide) (by decide)).mp faithful
  exact absurd solid.1 (by decide)

end Exocortex
