import Mathlib
import Exocortex.Adapter.TableRows

/-!
# Partition values as cells

An Iceberg data file does not hold the columns its table is partitioned by an identity transform
of. The reader takes their cells from the partition values that the manifest states for the file.
The values have no names of their own: the value at a position belongs to the field at the same
position of the manifest's partition record, and that field is found in the table's metadata by its
id or by its name.

The fields of all partition specs of a table are put into one table by their source column, and the
transform that was put in last decides for every manifest. A manifest of an older spec is read
right if and only if its last field for a column is an identity of it wherever the transform that
was put in last is (`overlaysStated_iff`).
-/

namespace Exocortex

open Library

/-! ## Numbers in texts -/

/-- The number of a text of decimal digits. -/
def decimal (digits : List Char) : Option ℕ :=
  if digits ≠ [] ∧ digits.all Char.isDigit then
    some (digits.foldl (fun number digit => 10 * number + (digit.toNat - 48)) 0)
  else none

/-- A number of 64 bits with a sign, which may be left out or be a plus. -/
def parseI64 (text : String) : Option ℤ :=
  let number : Option ℤ := match text.toList with
    | '-' :: digits => (decimal digits).map fun number => -(number : ℤ)
    | '+' :: digits => (decimal digits).map fun number => (number : ℤ)
    | digits => (decimal digits).map fun number => (number : ℤ)
  number.filter fun number => -2 ^ 63 ≤ number ∧ number < 2 ^ 63

namespace JsonValue

/-- A number written without a fraction or an exponent; minus zero is written as a fraction. -/
def asI64 : JsonValue → Option ℤ
  | .number text => if text = "-0" then none else parseI64 text
  | _ => none

def asU64 : JsonValue → Option ℕ
  | .number text => (decimal text.toList).filter (· < 2 ^ 64)
  | _ => none

end JsonValue

/-! ## The metadata of the table -/

namespace Iceberg

def pickSchema (metadata : JsonValue) : Except String JsonValue :=
  match (metadata.get "schemas").bind JsonValue.asArray with
  | some schemas =>
      match (metadata.get "current-schema-id").bind JsonValue.asI64 with
      | none => .error "schemas list carries no current-schema-id"
      | some currentId =>
          match schemas.find? fun schema =>
            (schema.get "schema-id").bind JsonValue.asI64 = some currentId with
          | some schema => .ok schema
          | none => .error ("current-schema-id " ++ toString currentId ++ " names no schema")
  | none =>
      match metadata.get "schema" with
      | some schema => .ok schema
      | none => .error "metadata carries neither schemas nor schema"

def fieldsOf (value : JsonValue) : List JsonValue :=
  ((value.get "fields").bind JsonValue.asArray).getD []

def columnId (field : JsonValue) : Option (ℤ × String) := do
  let id ← (field.get "id").bind JsonValue.asI64
  let name ← (field.get "name").bind JsonValue.asStr
  return (id, name)

def columnIds (schema : JsonValue) : Table ℤ String :=
  ((fieldsOf schema).filterMap columnId).foldl (fun ids entry => ids.insert entry.1 entry.2) ∅

def partitionSpecs (metadata : JsonValue) : List JsonValue :=
  match (metadata.get "partition-specs").bind JsonValue.asArray with
  | some specs => specs
  | none =>
      match (metadata.get "partition-spec").bind JsonValue.asArray with
      | some fields => [.object [("spec-id", .number "0"), ("fields", .array fields)]]
      | none => []

/-- A field of a partition spec with all that the reader needs of it. -/
structure PartitionField where
  fieldId : ℤ
  sourceName : String
  transform : String
  fieldName : String

/-- The field, if it is complete and its source is a column of the schema. -/
def partitionField (columnIds : Table ℤ String) (field : JsonValue) : Option PartitionField := do
  let fieldId ← (field.get "field-id").bind JsonValue.asI64
  let sourceId ← (field.get "source-id").bind JsonValue.asI64
  let transform ← (field.get "transform").bind JsonValue.asStr
  let fieldName ← (field.get "name").bind JsonValue.asStr
  let sourceName ← columnIds.lookup sourceId
  return { fieldId, sourceName, transform, fieldName }

/-- What the reader keeps of the partition specs. -/
structure PartitionMaps where
  partitionFields : Table String String
  fieldIdToSource : Table ℤ String
  fieldNameToSource : Table String String

def PartitionMaps.insert (maps : PartitionMaps) (field : PartitionField) : PartitionMaps where
  partitionFields := maps.partitionFields.insert field.sourceName field.transform
  fieldIdToSource := maps.fieldIdToSource.insert field.fieldId field.sourceName
  fieldNameToSource := maps.fieldNameToSource.insert field.fieldName field.sourceName

/-- The complete fields of all specs, in the order in which they are kept. -/
def keptFields (columnIds : Table ℤ String) (specs : List JsonValue) : List PartitionField :=
  specs.flatMap fun spec => (fieldsOf spec).filterMap (partitionField columnIds)

def partitionMaps (columnIds : Table ℤ String) (specs : List JsonValue) : PartitionMaps :=
  specs.foldl (fun maps spec => (fieldsOf spec).foldl (fun maps field =>
    match partitionField columnIds field with
    | some kept => maps.insert kept
    | none => maps) maps) { partitionFields := ∅, fieldIdToSource := ∅, fieldNameToSource := ∅ }

/-! ## The manifests -/

/-- A field of a decoded record, which is a list of pairs of a name and a value. -/
def recordField (record : JsonValue) (name : String) : Option JsonValue :=
  record.asArray.bind fun pairs => pairs.findSome? fun pair => do
    let parts ← pair.asArray
    let key ← parts.head?.bind JsonValue.asStr
    let value ← parts.getLast?
    if key = name then some value else none

/-- The fields of the partition record inside the `data_file` field of a manifest's schema. -/
def partitionRecord (field : JsonValue) : Option (List JsonValue) := do
  if (field.get "name").bind JsonValue.asStr ≠ some "data_file" then none
  let fields ← ((← field.get "type").get "fields").bind JsonValue.asArray
  let partition ← fields.find? fun field =>
    (field.get "name").bind JsonValue.asStr = some "partition"
  ((← partition.get "type").get "fields").bind JsonValue.asArray

def partitionFieldNames (manifestSchema : JsonValue) : List String :=
  ((fieldsOf manifestSchema).filterMap partitionRecord).flatten.filterMap fun field =>
    (field.get "name").bind JsonValue.asStr

/-- What the texts of errors and the paths depend on; a path is known by its text. -/
structure Reading where
  debug : JsonValue → String
  resolvePath : String → Except String String

structure IcebergDataFile where
  path : String
  partition : Cells
  recordCount : ℕ

structure Container where
  schema : JsonValue
  records : List JsonValue

variable (reading : Reading) (maps : PartitionMaps)

def renderPartitionValue : JsonValue → Except String (Option String)
  | .null => .ok none
  | .bool value => .ok (some (toString value))
  | .number text => .ok (some text)
  | .string text => .ok (some text)
  | other => .error ("partition value " ++ reading.debug other ++
      " is not a renderable primitive — fail closed rather than guess")

/-- The cell of a partition value that is given with its name. -/
def partitionCell (pair : JsonValue) : Except String (Option String) :=
  match pair.asArray.bind List.getLast? with
  | some value => renderPartitionValue reading value
  | none => .ok none

/-- The column of a field that a manifest names by its id or by its name. -/
def PartitionMaps.sourceColumn (originalName : String) : Option String :=
  ((parseI64 originalName).bind fun fieldId => maps.fieldIdToSource.lookup fieldId).or
    (maps.fieldNameToSource.lookup originalName)

def PartitionMaps.identity (column : String) : Bool :=
  maps.partitionFields.lookup column = some "identity"

/-- One value of the overlay: a name of the manifest and the pair at its position. -/
def overlayValue (partition : Cells) (originalName : String) (pair : JsonValue) :
    Except String Cells :=
  match maps.sourceColumn originalName with
  | none => .error ("partition field `" ++ originalName ++
      "` resolves to no schema column — the manifest and the metadata partition spec disagree")
  | some column =>
      if maps.identity column then
        (partitionCell reading pair).map fun cell => partition.insert column cell
      else .ok partition

def partitionOverlay (partitionNames : List String) (pairs : List JsonValue) :
    Except String Cells :=
  pairs.zipIdx.foldlM (fun partition entry =>
    match partitionNames[entry.2]? with
    | none => .ok partition
    | some originalName => overlayValue reading maps partition originalName entry.1) ∅

/-- The partition values of a manifest entry. -/
def partitionPairs (dataFile : JsonValue) : List JsonValue :=
  ((recordField dataFile "partition").bind JsonValue.asArray).getD []

/-- A delete file is not a row source. -/
def refuseDeletes (dataFile : JsonValue) : Except String Unit :=
  match (recordField dataFile "content").bind JsonValue.asI64 with
  | some content =>
      if content ≠ 0 then
        .error ("manifest carries delete-file content " ++ toString content ++
          " — delete files are not row sources and this reader refuses to present them as data")
      else .ok ()
  | none => .ok ()

def refuseFormat (filePath : String) (dataFile : JsonValue) : Except String Unit :=
  let format := ((recordField dataFile "file_format").bind JsonValue.asStr).getD "PARQUET"
  if format ≠ "PARQUET" then
    .error ("data file " ++ filePath ++ " is format " ++ format ++
      " — only PARQUET data files are readable")
  else .ok ()

/-- The data file of an entry; one without a path is none. -/
def dataFileOf (partitionNames : List String) (dataFile : JsonValue) :
    Except String (Option IcebergDataFile) := do
  refuseDeletes dataFile
  match (recordField dataFile "file_path").bind JsonValue.asStr with
  | none => return none
  | some filePath =>
      refuseFormat filePath dataFile
      let path ← reading.resolvePath filePath
      let partition ← partitionOverlay reading maps partitionNames (partitionPairs dataFile)
      let recordCount := ((recordField dataFile "record_count").bind JsonValue.asU64).getD 0
      return some { path, partition, recordCount }

/-- One entry of a manifest: the data file it states, if it is a live one. -/
def liveFile (partitionNames : List String) (entry : JsonValue) :
    Except String (Option IcebergDataFile) :=
  if ((recordField entry "status").bind JsonValue.asI64).getD 0 = 2 then .ok none
  else
    match recordField entry "data_file" with
    | none => .ok none
    | some dataFile => dataFileOf reading maps partitionNames dataFile

def collectLiveFiles (container : Container) (files : Table String IcebergDataFile) :
    Except String (Table String IcebergDataFile) :=
  let partitionNames := partitionFieldNames container.schema
  container.records.foldlM (fun files entry => do
    match ← liveFile reading maps partitionNames entry with
    | some file => return files.insert file.path file
    | none => return files) files

/-! ## What the overlay states -/

/-- A field of a partition spec that is an identity of a column. -/
def IsIdentity (columnIds : Table ℤ String) (field : JsonValue) (column : String) : Prop :=
  (field.get "transform").bind JsonValue.asStr = some "identity" ∧
    ((field.get "source-id").bind JsonValue.asI64).bind (fun id => columnIds.lookup id) =
      some column

/-- Every cell is the value of an identity field of its column. -/
def StatedBy (columnIds : Table ℤ String) (fields pairs : List JsonValue) (overlay : Cells) :
    Prop :=
  ∀ column cell, overlay.lookup column = some cell → ∃ (index : ℕ) (field pair : JsonValue),
    fields[index]? = some field ∧ pairs[index]? = some pair ∧ IsIdentity columnIds field column ∧
      partitionCell reading pair = .ok cell

/-- A manifest names a field of its spec by the field's name or by its id. -/
def NamedAfter (name : String) (field : JsonValue) : Prop :=
  (field.get "name").bind JsonValue.asStr = some name ∨
    ∃ id, (field.get "field-id").bind JsonValue.asI64 = some id ∧ name = toString id

/-- A manifest of a table that is written under one of the partition specs of the table. -/
structure WrittenManifest (metadata : JsonValue) where
  tableSchema : JsonValue
  picked : pickSchema metadata = .ok tableSchema
  spec : JsonValue
  listed : spec ∈ partitionSpecs metadata
  schema : JsonValue
  named : List.Forall₂ NamedAfter (partitionFieldNames schema) (fieldsOf spec)

namespace WrittenManifest

variable {metadata : JsonValue} (manifest : WrittenManifest metadata)

def columnIds : Table ℤ String := Iceberg.columnIds manifest.tableSchema

def kept : List PartitionField := keptFields manifest.columnIds (partitionSpecs metadata)

def tableMaps : PartitionMaps := partitionMaps manifest.columnIds (partitionSpecs metadata)

def names : List String := partitionFieldNames manifest.schema

/-- An entry with a partition record of the manifest's schema, if it has any. -/
def Holds (entry : JsonValue) : Prop :=
  ∀ dataFile, recordField entry "data_file" = some dataFile →
    ∀ pairs, (recordField dataFile "partition").bind JsonValue.asArray = some pairs →
      pairs.length = manifest.names.length

/-- Whatever the manifest holds, the overlay of every data file that is collected from it states
only values of identity fields of the manifest's spec. -/
def OverlaysStated : Prop :=
  ∀ reading records, (∀ entry ∈ records, manifest.Holds entry) → ∀ before files,
    collectLiveFiles reading manifest.tableMaps { schema := manifest.schema, records } before =
        .ok files →
      ∀ path file, files.lookup path = some file → before.lookup path = some file ∨
        ∃ entry ∈ records, ∃ dataFile, recordField entry "data_file" = some dataFile ∧
          StatedBy reading manifest.columnIds (fieldsOf manifest.spec) (partitionPairs dataFile)
            file.partition

/-- The column that a name of the manifest stands for. -/
def columnOf (name : String) : Option String :=
  (((parseI64 name).bind fun id => lastWith PartitionField.fieldId id manifest.kept).or
    (lastWith PartitionField.fieldName name manifest.kept)).map PartitionField.sourceName

/-- A column is partitioned by an identity transform in the last place of all specs in which it is
partitioned at all. -/
def KeptAsIdentity (column : String) : Prop :=
  ∃ field, lastWith PartitionField.sourceName column manifest.kept = some field ∧
    field.transform = "identity"

/-- The manifest names a field that is none of the table's, or its last field for every column that
is kept as an identity is an identity of that column. -/
def Straight : Prop :=
  (∃ name ∈ manifest.names, manifest.columnOf name = none) ∨
    ∀ column, manifest.KeptAsIdentity column →
      ∀ entry, lastWith (fun entry => manifest.columnOf entry.1) (some column)
          (manifest.names.zip (fieldsOf manifest.spec)) = some entry →
        IsIdentity manifest.columnIds entry.2 column

end WrittenManifest

/-! ## The tables of the specs -/

section Kept

variable {columnIds : Table ℤ String} {specs : List JsonValue}

def emptyMaps : PartitionMaps :=
  { partitionFields := ∅, fieldIdToSource := ∅, fieldNameToSource := ∅ }

theorem partitionMaps_eq :
    partitionMaps columnIds specs = (keptFields columnIds specs).foldl .insert emptyMaps := by
  rw [partitionMaps, keptFields, List.foldl_flatMap]
  congr 1
  funext maps spec
  rw [List.foldl_filterMap]
  congr 1
  funext maps field
  cases partitionField columnIds field <;> rfl

theorem lookup_foldl_insert (fields : List PartitionField) :
    (∀ column, (fields.foldl .insert emptyMaps).partitionFields.lookup column =
      (lastWith PartitionField.sourceName column fields).map PartitionField.transform) ∧
    (∀ id, (fields.foldl .insert emptyMaps).fieldIdToSource.lookup id =
      (lastWith PartitionField.fieldId id fields).map PartitionField.sourceName) ∧
    ∀ name, (fields.foldl .insert emptyMaps).fieldNameToSource.lookup name =
      (lastWith PartitionField.fieldName name fields).map PartitionField.sourceName := by
  induction fields using List.reverseRecOn with
  | nil => exact ⟨fun _ => rfl, fun _ => rfl, fun _ => rfl⟩
  | append_singleton fields field ih =>
      obtain ⟨transforms, ids, names⟩ := ih
      refine ⟨fun column => ?_, fun id => ?_, fun name => ?_⟩
      · rw [List.foldl_append, List.foldl_cons, List.foldl_nil, PartitionMaps.insert,
          Table.lookup_insert_eq, lastWith_concat, transforms, apply_ite (Option.map _)]
        simp only [eq_comm, Option.map_some]
      · rw [List.foldl_append, List.foldl_cons, List.foldl_nil, PartitionMaps.insert,
          Table.lookup_insert_eq, lastWith_concat, ids, apply_ite (Option.map _)]
        simp only [eq_comm, Option.map_some]
      · rw [List.foldl_append, List.foldl_cons, List.foldl_nil, PartitionMaps.insert,
          Table.lookup_insert_eq, lastWith_concat, names, apply_ite (Option.map _)]
        simp only [eq_comm, Option.map_some]

end Kept

namespace WrittenManifest

variable {metadata : JsonValue} (manifest : WrittenManifest metadata)

theorem sourceColumn_tableMaps (name : String) :
    manifest.tableMaps.sourceColumn name = manifest.columnOf name := by
  obtain ⟨-, ids, names⟩ := lookup_foldl_insert manifest.kept
  rw [PartitionMaps.sourceColumn, tableMaps, partitionMaps_eq, columnOf, Option.map_or,
    Option.map_bind, ← kept, names]
  simp only [ids]
  rfl

theorem identity_tableMaps (column : String) :
    manifest.tableMaps.identity column = true ↔ manifest.KeptAsIdentity column := by
  obtain ⟨transforms, -, -⟩ := lookup_foldl_insert manifest.kept
  rw [PartitionMaps.identity, tableMaps, partitionMaps_eq, ← kept, transforms, decide_eq_true_iff,
    Option.map_eq_some_iff, KeptAsIdentity]

end WrittenManifest

/-! ## The overlay of one data file -/

variable {entries : List (String × JsonValue)} {overlay : Cells}

section Overlay

variable {reading} {maps}

/-- The values behind the names of the manifest are left out. -/
theorem partitionOverlay_eq (partitionNames : List String) (pairs : List JsonValue) :
    partitionOverlay reading maps partitionNames pairs =
      (partitionNames.zip pairs).foldlM
        (fun partition entry => overlayValue reading maps partition entry.1 entry.2) ∅ := by
  rw [partitionOverlay]
  generalize (∅ : Cells) = partition
  suffices general : ∀ start, (pairs.zipIdx start).foldlM (fun partition entry =>
      match partitionNames[entry.2]? with
      | none => .ok partition
      | some originalName => overlayValue reading maps partition originalName entry.1) partition =
      ((partitionNames.drop start).zip pairs).foldlM
        (fun partition entry => overlayValue reading maps partition entry.1 entry.2) partition from
    general 0
  intro start
  induction pairs generalizing start partition with
  | nil => rw [List.zipIdx_nil, List.zip_nil_right, List.foldlM_nil, List.foldlM_nil]
  | cons pair pairs ih =>
      rw [List.zipIdx_cons, List.foldlM_cons]
      rcases Nat.lt_or_ge start partitionNames.length with inside | behind
      · rw [List.drop_eq_getElem_cons inside, List.zip_cons_cons, List.foldlM_cons,
          List.getElem?_eq_getElem inside]
        congr 1
        funext partition
        exact ih partition (start + 1)
      · rw [List.getElem?_eq_none behind, List.drop_of_length_le behind, List.zip_nil_left]
        have rest := ih partition (start + 1)
        rw [List.drop_of_length_le (by omega), List.zip_nil_left] at rest
        exact rest

theorem overlayValue_ok {partition after : Cells} {name : String} {pair : JsonValue}
    (done : overlayValue reading maps partition name pair = .ok after) :
    ∃ column, maps.sourceColumn name = some column ∧
      ((maps.identity column = false ∧ after = partition) ∨
        (maps.identity column = true ∧ ∃ cell, partitionCell reading pair = .ok cell ∧
          after = partition.insert column cell)) := by
  rw [overlayValue] at done
  cases source : maps.sourceColumn name with
  | none => simp [source] at done
  | some column =>
      refine ⟨column, rfl, ?_⟩
      cases identity : maps.identity column with
      | false => exact .inl ⟨rfl, by simpa [source, identity] using done.symm⟩
      | true =>
          cases cell : partitionCell reading pair with
          | error text => simp [source, identity, cell, Except.map] at done
          | ok cell =>
              refine .inr ⟨rfl, _, rfl, ?_⟩
              simpa [source, identity, cell, Except.map] using done.symm

/-- A cell of the overlay is the value at the last position whose name stands for the column. -/
theorem lookup_overlay (done : entries.foldlM
      (fun partition entry => overlayValue reading maps partition entry.1 entry.2) ∅ = .ok overlay)
    (column : String) :
    overlay.lookup column = if maps.identity column then
      (lastWith (fun entry => maps.sourceColumn entry.1) (some column) entries).bind
        fun entry => (partitionCell reading entry.2).toOption
    else none := by
  induction entries using List.reverseRecOn generalizing overlay with
  | nil =>
      obtain rfl : ∅ = overlay := Except.ok.inj done
      rw [lastWith_nil, AList.lookup_empty, Option.bind_none, ite_self]
  | append_singleton entries entry ih =>
      rw [List.foldlM_append] at done
      cases before : entries.foldlM
          (fun partition entry => overlayValue reading maps partition entry.1 entry.2) ∅ with
      | error text => rw [before] at done; exact absurd done nofun
      | ok partition =>
          rw [before] at done
          have last : overlayValue reading maps partition entry.1 entry.2 = .ok overlay :=
            (bind_pure _).symm.trans done
          obtain ⟨target, source, ⟨skipped, rfl⟩ | ⟨taken, cell, value, rfl⟩⟩ :=
            overlayValue_ok last
          · rw [ih before, lastWith_concat, source]
            by_cases same : target = column
            · rw [← same, if_neg (by simp [skipped]), if_neg (by simp [skipped])]
            · rw [if_neg (c := some target = some column) (by simpa using same)]
          · rw [Table.lookup_insert_eq, ih before, lastWith_concat, source]
            by_cases same : column = target
            · subst same
              rw [if_pos rfl, if_pos taken, if_pos rfl, Option.bind_some, value]
              rfl
            · rw [if_neg same, if_neg (c := some target = some column)
                (by simpa [eq_comm] using same)]

/-- With an overlay, every name before a value stands for a column. -/
theorem sourceColumn_of_overlay {before : Cells} (done : entries.foldlM
      (fun partition entry => overlayValue reading maps partition entry.1 entry.2) before =
        .ok overlay) : ∀ entry ∈ entries, maps.sourceColumn entry.1 ≠ none := by
  induction entries generalizing before with
  | nil => exact nofun
  | cons first entries ih =>
      rw [List.foldlM_cons] at done
      obtain ⟨after, value, rest⟩ := bind_eq_ok_iff.mp done
      obtain ⟨column, source, -⟩ := overlayValue_ok value
      exact List.forall_mem_cons.mpr ⟨by rw [source]; exact nofun, ih rest⟩

end Overlay

/-! ## The data files of a manifest -/

section Collect

variable {reading} {maps}

variable {file : IcebergDataFile}

theorem dataFileOf_some {names : List String} {dataFile : JsonValue}
    (done : dataFileOf reading maps names dataFile = .ok (some file)) :
    partitionOverlay reading maps names (partitionPairs dataFile) = .ok file.partition := by
  rw [dataFileOf] at done
  obtain ⟨⟨⟩, -, done⟩ := bind_eq_ok_iff.mp done
  cases filePath : (recordField dataFile "file_path").bind JsonValue.asStr with
  | none => rw [filePath] at done; exact absurd done nofun
  | some filePath =>
      rw [filePath] at done
      obtain ⟨⟨⟩, -, done⟩ := bind_eq_ok_iff.mp done
      obtain ⟨path, -, done⟩ := bind_eq_ok_iff.mp done
      obtain ⟨partition, overlay, done⟩ := bind_eq_ok_iff.mp done
      cases done
      exact overlay

theorem liveFile_some {names : List String} {entry : JsonValue}
    (done : liveFile reading maps names entry = .ok (some file)) :
    ∃ dataFile, recordField entry "data_file" = some dataFile ∧
      partitionOverlay reading maps names (partitionPairs dataFile) = .ok file.partition := by
  rw [liveFile] at done
  split at done
  · exact absurd done nofun
  · cases found : recordField entry "data_file" with
    | none => rw [found] at done; exact absurd done nofun
    | some dataFile => rw [found] at done; exact ⟨dataFile, rfl, dataFileOf_some done⟩

theorem collectLiveFiles_spec {container : Container}
    {before files : Table String IcebergDataFile}
    (done : collectLiveFiles reading maps container before = .ok files) {path : String}
    (found : files.lookup path = some file) :
    before.lookup path = some file ∨ ∃ entry ∈ container.records,
      liveFile reading maps (partitionFieldNames container.schema) entry = .ok (some file) := by
  rw [collectLiveFiles] at done
  generalize container.records = records at done ⊢
  induction records generalizing before with
  | nil =>
      obtain rfl : before = files := Except.ok.inj done
      exact .inl found
  | cons entry records ih =>
      rw [List.foldlM_cons] at done
      cases live : liveFile reading maps (partitionFieldNames container.schema) entry with
      | error text => rw [live] at done; exact absurd done nofun
      | ok made =>
          rw [live] at done
          cases made with
          | none =>
              refine (ih done).imp_right fun ⟨other, inside, same⟩ => ?_
              exact ⟨other, List.mem_cons_of_mem entry inside, same⟩
          | some made =>
              obtain kept | ⟨other, inside, same⟩ := ih done
              · rw [Table.lookup_insert_eq] at kept
                split at kept
                · cases kept
                  exact .inr ⟨entry, List.mem_cons_self, live⟩
                · exact .inl kept
              · exact .inr ⟨other, List.mem_cons_of_mem entry inside, same⟩

end Collect

/-! ## The exact condition -/

namespace WrittenManifest

variable {metadata : JsonValue} (manifest : WrittenManifest metadata) {reading}

theorem length_fields : (fieldsOf manifest.spec).length = manifest.names.length :=
  manifest.named.length_eq.symm

variable {pairs : List JsonValue}

/-- The fields of the spec and the values, position by position. -/
theorem positions (length : pairs.length = manifest.names.length) :
    List.Forall₂ (fun entry value => manifest.columnOf entry.1 = manifest.columnOf value.1 ∧
        ∃ index : ℕ, (fieldsOf manifest.spec)[index]? = some entry.2 ∧
          pairs[index]? = some value.2)
      (manifest.names.zip (fieldsOf manifest.spec)) (manifest.names.zip pairs) := by
  refine List.forall₂_iff_get.mpr ⟨?_, fun index inside inside' => ?_⟩
  · rw [List.length_zip, List.length_zip, length, length_fields]
  · rw [List.length_zip] at inside inside'
    have field : index < (fieldsOf manifest.spec).length := by omega
    have pair : index < pairs.length := by omega
    rw [List.get_eq_getElem, List.get_eq_getElem, List.getElem_zip, List.getElem_zip]
    exact ⟨rfl, index, List.getElem?_eq_getElem field, List.getElem?_eq_getElem pair⟩

theorem lookup_partitionOverlay
    (done : partitionOverlay reading manifest.tableMaps manifest.names pairs = .ok overlay)
    {column : String} {cell : Option String} (found : overlay.lookup column = some cell) :
    manifest.KeptAsIdentity column ∧ ∃ entry,
      lastWith (fun entry => manifest.columnOf entry.1) (some column) (manifest.names.zip pairs) =
        some entry ∧ partitionCell reading entry.2 = .ok cell := by
  rw [partitionOverlay_eq] at done
  have shown := lookup_overlay done column
  rw [found] at shown
  split at shown
  next identity =>
    obtain ⟨entry, last, value⟩ := Option.bind_eq_some_iff.mp shown.symm
    simp only [sourceColumn_tableMaps] at last
    refine ⟨(manifest.identity_tableMaps column).mp identity, entry, last, ?_⟩
    cases rendered : partitionCell reading entry.2 with
    | error text => rw [rendered] at value; cases value
    | ok other => rw [rendered] at value; exact congrArg _ (Option.some.inj value)
  next => cases shown

/-- With an overlay, every name of the manifest stands for a column. -/
theorem columnOf_of_overlay (length : pairs.length = manifest.names.length)
    (done : partitionOverlay reading manifest.tableMaps manifest.names pairs = .ok overlay)
    {name : String} (member : name ∈ manifest.names) : manifest.columnOf name ≠ none := by
  rw [partitionOverlay_eq] at done
  obtain ⟨pair, inside⟩ : ∃ pair, (name, pair) ∈ manifest.names.zip pairs := by
    obtain ⟨index, here, rfl⟩ := List.getElem_of_mem member
    have zipped : index < (manifest.names.zip pairs).length := by
      rw [List.length_zip]; omega
    refine ⟨pairs[index], ?_⟩
    rw [← List.getElem_zip (h := zipped)]
    exact List.getElem_mem zipped
  rw [← sourceColumn_tableMaps]
  exact sourceColumn_of_overlay done (name, pair) inside

theorem Straight.overlaysStated (straight : manifest.Straight) : manifest.OverlaysStated := by
  intro reading records holds before files done path file found
  refine (collectLiveFiles_spec done found).imp_right fun ⟨entry, inside, live⟩ => ?_
  obtain ⟨dataFile, isFile, overlay⟩ := liveFile_some live
  refine ⟨entry, inside, dataFile, isFile, fun column cell stated => ?_⟩
  obtain ⟨identity, value, last, rendered⟩ := manifest.lookup_partitionOverlay overlay stated
  have length : (partitionPairs dataFile).length = manifest.names.length := by
    cases partition : (recordField dataFile "partition").bind JsonValue.asArray with
    | none =>
        rw [partitionPairs, partition, Option.getD_none, List.zip_nil_right] at last
        exact absurd last nofun
    | some pairs =>
        rw [partitionPairs, partition]
        exact holds entry inside dataFile isFile pairs partition
  obtain ⟨field, lastField, index, here, there⟩ := exists_lastWith_right
    (manifest.positions length) last
  obtain ⟨name, member, unknown⟩ | straight := straight
  · exact absurd unknown (manifest.columnOf_of_overlay length overlay member)
  · exact ⟨index, field.2, value.2, here, there, straight column identity field lastField, rendered⟩

/-! ### A manifest that tells its positions apart -/

/-- A decoded field. -/
def pair (name : String) (value : JsonValue) : JsonValue := .array [.string name, value]

/-- As many strokes as a number says. -/
def strokes (index : ℕ) : String := String.ofList (List.replicate index '|')

theorem strokes_injective : Function.Injective strokes := by
  intro index other same
  have lengths := congrArg (fun text : String => text.toList.length) same
  simpa [strokes] using lengths

/-- Under every name the number of its position. -/
def numbered : List JsonValue :=
  manifest.names.zipIdx.map fun entry => pair entry.1 (.string (strokes entry.2))

/-- The entry of a data file with these values. -/
def numberedEntry : JsonValue :=
  .array [pair "data_file" (.array [pair "file_path" (.string "part"),
    pair "partition" (.array manifest.numbered)])]

/-- A reader that takes the paths as they are. -/
def plainReading : Reading where
  debug := fun _ => ""
  resolvePath := .ok

theorem length_numbered : manifest.numbered.length = manifest.names.length := by
  rw [numbered, List.length_map, List.length_zipIdx]

theorem numbered_getElem {index : ℕ} {value : JsonValue}
    (found : manifest.numbered[index]? = some value) :
    partitionCell plainReading value = .ok (some (strokes index)) := by
  rw [numbered, List.getElem?_map, List.getElem?_zipIdx, Option.map_map] at found
  obtain ⟨name, -, rfl⟩ := Option.map_eq_some_iff.mp found
  rw [Nat.zero_add]
  rfl

/-- Where all names stand for columns, the overlay of texts can be made. -/
theorem exists_overlay (before : Cells)
    (known : ∀ entry ∈ entries, maps.sourceColumn entry.1 ≠ none)
    (texts : ∀ entry ∈ entries, ∃ cell, partitionCell reading entry.2 = .ok cell) :
    ∃ overlay, entries.foldlM
      (fun partition entry => overlayValue reading maps partition entry.1 entry.2) before =
        .ok overlay := by
  induction entries generalizing before with
  | nil => exact ⟨before, rfl⟩
  | cons entry entries ih =>
      obtain ⟨⟨cell, value⟩, texts⟩ := List.forall_mem_cons.mp texts
      obtain ⟨here, known⟩ := List.forall_mem_cons.mp known
      obtain ⟨column, source⟩ := Option.ne_none_iff_exists'.mp here
      have step : ∃ after, overlayValue reading maps before entry.1 entry.2 = .ok after := by
        rw [overlayValue, source, value]
        cases identity : maps.identity column with
        | false => exact ⟨before, by simp [identity]⟩
        | true => exact ⟨before.insert column cell, by simp [identity, Except.map]⟩
      obtain ⟨after, made⟩ := step
      rw [List.foldlM_cons, made]
      exact ih after known texts

/-- The manifest with that entry alone is read, and the overlay is the one of the numbers. -/
theorem collectLiveFiles_numbered (done : partitionOverlay plainReading
      manifest.tableMaps manifest.names manifest.numbered = .ok overlay) :
    ∃ files, collectLiveFiles plainReading manifest.tableMaps
        { schema := manifest.schema, records := [manifest.numberedEntry] } ∅ = .ok files ∧
      files.lookup "part" = some { path := "part", partition := overlay, recordCount := 0 } := by
  have live : liveFile plainReading manifest.tableMaps manifest.names manifest.numberedEntry =
      .ok (some { path := "part", partition := overlay, recordCount := 0 }) := by
    have made : liveFile plainReading manifest.tableMaps manifest.names manifest.numberedEntry =
        (partitionOverlay plainReading manifest.tableMaps manifest.names manifest.numbered >>=
          fun partition => .ok (some { path := "part", partition, recordCount := 0 })) := rfl
    rw [made, done]
    rfl
  refine ⟨(∅ : Table String IcebergDataFile).insert "part" _, ?_, AList.lookup_insert ∅⟩
  rw [collectLiveFiles, List.foldlM_cons]
  rw [names] at live
  rw [live]
  rfl

theorem straight_of_overlaysStated (stated : manifest.OverlaysStated) : manifest.Straight := by
  by_cases unknown : ∃ name ∈ manifest.names, manifest.columnOf name = none
  · exact .inl unknown
  refine .inr fun column identity entry last => ?_
  have cellOf : ∀ value ∈ manifest.numbered, ∃ cell,
      partitionCell plainReading value = .ok cell := by
    intro value member
    obtain ⟨index, inside, rfl⟩ := List.getElem_of_mem member
    exact ⟨_, manifest.numbered_getElem (List.getElem?_eq_getElem inside)⟩
  have known : ∀ entry ∈ manifest.names.zip manifest.numbered,
      manifest.tableMaps.sourceColumn entry.1 ≠ none := by
    intro entry inside
    rw [sourceColumn_tableMaps]
    exact fun none => unknown ⟨entry.1, (List.of_mem_zip inside).1, none⟩
  obtain ⟨overlay, made⟩ := exists_overlay manifest.tableMaps ∅ known fun entry inside =>
    cellOf entry.2 (List.of_mem_zip inside).2
  obtain ⟨value, lastValue, index, here, there⟩ :=
    exists_lastWith_left (manifest.positions manifest.length_numbered) last
  have shown : overlay.lookup column = some (some (strokes index)) := by
    rw [lookup_overlay made, if_pos ((manifest.identity_tableMaps column).mpr identity)]
    simp only [sourceColumn_tableMaps]
    rw [lastValue, Option.bind_some, manifest.numbered_getElem there]
    rfl
  obtain ⟨files, collected, file⟩ :=
    manifest.collectLiveFiles_numbered ((partitionOverlay_eq _ _).trans made)
  have holds : ∀ entry ∈ [manifest.numberedEntry], manifest.Holds entry := by
    intro entry inside dataFile isFile pairs partition
    obtain rfl := List.mem_singleton.mp inside
    cases isFile
    cases partition
    exact manifest.length_numbered
  obtain old | ⟨other, inside, dataFile, isFile, backed⟩ :=
    stated plainReading _ holds ∅ files collected "part" _ file
  · cases old
  · obtain rfl := List.mem_singleton.mp inside
    cases isFile
    obtain ⟨index', field, value', here', there', isIdentity, rendered⟩ := backed column _ shown
    have same : index' = index := by
      have texts := (manifest.numbered_getElem there').symm.trans rendered
      exact strokes_injective (Option.some.inj (Except.ok.inj texts))
    subst same
    rw [here] at here'
    cases here'
    exact isIdentity

end WrittenManifest

/-- **What backs a column.** Every cell that the overlays of the data files of a manifest state is
the value of an identity field of its column exactly if the manifest names a field that stands for
no column, and is refused, or its last field for every column that is kept as an identity is one. -/
theorem overlaysStated_iff {metadata : JsonValue} (manifest : WrittenManifest metadata) :
    manifest.OverlaysStated ↔ manifest.Straight :=
  ⟨manifest.straight_of_overlaysStated, fun straight => straight.overlaysStated⟩

/-! ### A column that was partitioned by its buckets first -/

/-- A partition spec with one field for the column with the id one. -/
def citySpec (fieldId transform fieldName : String) : JsonValue :=
  .object [("fields", .array [.object [("field-id", .number fieldId), ("source-id", .number "1"),
    ("transform", .string transform), ("name", .string fieldName)]])]

/-- A table that was partitioned by the buckets of a column, and then by the column itself. -/
def evolvedTable : JsonValue :=
  .object [("schema", .object [("fields", .array
      [.object [("id", .number "1"), ("name", .string "city")]])]),
    ("partition-specs", .array [citySpec "1000" "bucket[4]" "city_bucket",
      citySpec "1001" "identity" "city"])]

/-- A field of a record schema that is a record itself. -/
def recordSchema (name : String) (fields : List JsonValue) : JsonValue :=
  .object [("name", .string name), ("type", .object [("fields", .array fields)])]

/-- A manifest of the time of the buckets. -/
def oldManifest : WrittenManifest evolvedTable where
  tableSchema := .object [("fields", .array
    [.object [("id", .number "1"), ("name", .string "city")]])]
  picked := rfl
  spec := citySpec "1000" "bucket[4]" "city_bucket"
  listed := List.mem_cons_self
  schema := .object [("fields", .array [recordSchema "data_file"
    [recordSchema "partition" [.object [("name", .string "city_bucket")]]]])]
  named := .cons (.inl rfl) .nil

/-- The data file of the third bucket. -/
def bucketEntry : JsonValue :=
  .array [WrittenManifest.pair "data_file" (.array [
    WrittenManifest.pair "file_path" (.string "part"),
    WrittenManifest.pair "partition" (.array [WrittenManifest.pair "city_bucket" (.number "3")])])]

theorem not_overlaysStated : ¬ oldManifest.OverlaysStated := by
  intro stated
  have holds : ∀ entry ∈ [bucketEntry], oldManifest.Holds entry := by
    intro entry inside dataFile isFile pairs partition
    obtain rfl := List.mem_singleton.mp inside
    cases isFile
    cases partition
    rfl
  obtain old | ⟨entry, inside, dataFile, isFile, backed⟩ :=
    stated WrittenManifest.plainReading [bucketEntry] holds ∅ _ rfl "part" _ rfl
  · exact absurd old nofun
  · obtain ⟨index, field, pair, here, -, ⟨identity, -⟩, -⟩ := backed "city" (some "3") rfl
    cases index with
    | zero =>
        cases here
        have bucket : some "bucket[4]" = some "identity" := identity
        exact absurd bucket (by decide)
    | succ index => exact absurd here nofun

end Iceberg

end Exocortex
