import Exocortex.Ingest.Submit
import Exocortex.Kernel.Upgrades

/-!
# The rulebook as data

A server hands its rulebook to adapters as a manifest: its types, kinds and triples, the bounds of
a title, and the ceiling that it has registered for the source. An adapter checks a unit against
the manifest before it sends the unit, in one batch or in several.

What an adapter refuses the server should refuse as well. It does, but for two things: a manifest
does not tell a public ceiling from that of the organization, and an adapter reads an edge by the
drafts that its keys name, where the server takes a stored memory that another edge of the batch
aims at under the same key (`validateUnit_keeps_iff`).
-/

namespace Exocortex

open Library InMemoryStorage

/-! ## Manifests -/

structure ManifestMemoryType where
  name : String
  id : UInt8
deriving DecidableEq

structure ManifestKind where
  id : UInt32
  name : String
  computedOnly : Bool
  defaultStrength : F32
deriving DecidableEq

/-- A rule has the same three fields as in a summary. -/
abbrev ManifestTriple := TripleSummary

def manifestVersion : ℕ := 1

structure ValidationManifest where
  manifestVersion : ℕ
  compatibilityFingerprint : String
  memoryTypes : List ManifestMemoryType
  kinds : List ManifestKind
  typeTriples : List ManifestTriple
  titleMinChars : ℕ
  titleMaxChars : ℕ
  registeredCeiling : Option ℤ
deriving DecidableEq

/-- The number of a registered ceiling; a public one is that of the organization. -/
def ceilingNumber : Visibility → ℤ
  | .private => 0
  | .project => 1
  | .team => 2
  | .org | .public => 3

def sourceEntry (server : SourceAuthority) (sources : SourceRegistry) (key : SourcePolicyKey) :
    Option SourceEntry :=
  if server.sourceRegistryError then none else sources.peek key

def validationManifest (server : IngestServer) (sources : SourceRegistry)
    (key : SourcePolicyKey) : ValidationManifest :=
  let summary := server.validator.ontology.summary
  { manifestVersion := manifestVersion
    compatibilityFingerprint := hex32 server.fingerprint.bytes
    memoryTypes := (summary.memoryTypes.zipIdx.map fun entry =>
      ⟨entry.1, UInt8.ofNat entry.2⟩).insertionSort (stringLe ·.name ·.name)
    kinds := summary.kinds.map fun kind =>
      ⟨kind.id, kind.name, kind.computedOnly, kind.defaultStrength⟩
    typeTriples := summary.typeTriples
    titleMinChars := 1
    titleMaxChars := 200
    registeredCeiling := (sourceEntry server.authority sources key).map (ceilingNumber ·.ceiling) }

/-! ## The check of an adapter -/

/-- The rows of a unit, and the snapshot that they were read from. -/
structure BatchUnit where
  memories : List WireMemory
  relationships : List WireRel
  snapshot : Option SnapshotInfo

abbrev LocalReject := RejectRow

def visibilityOrder (label : ℤ) : Option ℕ :=
  if 0 ≤ label ∧ label ≤ 4 then some label.toNat else none

namespace ValidationManifest

variable (manifest : ValidationManifest) (configured : ℤ) (unit : BatchUnit)

/-- The entry of a name, the last one where there are several. -/
def typeId (name : String) : Option UInt8 :=
  (lastWith ManifestMemoryType.name name manifest.memoryTypes).map (·.id)

def kind (name : String) : Option ManifestKind :=
  lastWith ManifestKind.name name manifest.kinds

def ceilingOrder : ℕ :=
  (visibilityOrder (manifest.registeredCeiling.getD configured)).getD 3

def draftRejects (draft : WireMemory) : List LocalReject :=
  let chars := draft.title.length
  match manifest.typeId draft.memoryType with
  | none =>
      [⟨draft.draftKey, .unknownMemoryType, "unknown memory type `" ++ draft.memoryType ++ "`"⟩]
  | some _ =>
      if chars < manifest.titleMinChars ∨ manifest.titleMaxChars < chars then
        [⟨draft.draftKey, .unknown, "title is " ++ toString chars ++
          " chars; the rulebook bounds are " ++ toString manifest.titleMinChars ++ "..=" ++
            toString manifest.titleMaxChars⟩]
      else if draft.content.isEmpty then [⟨draft.draftKey, .unknown, "content is empty"⟩]
      else
        (match visibilityOrder draft.visibility with
        | none => [⟨draft.draftKey, .visibilityWidening,
            "unknown visibility discriminant " ++ toString draft.visibility⟩]
        | some order =>
            if manifest.ceilingOrder configured < order then
              [⟨draft.draftKey, .visibilityWidening, "visibility " ++ toString order ++
                " exceeds the registered ceiling " ++
                  toString (manifest.ceilingOrder configured)⟩]
            else []) ++
        if unit.snapshot.isSome && draft.externalKey.isNone then
          [⟨draft.draftKey, .missingExternalKey,
            "snapshot batch without an ExternalKey (R-T16a)"⟩]
        else []

/-- The types of the drafts, by their keys; a draft of an unknown type has none. -/
def resolved (drafts : List WireMemory) (key : String) : Option UInt8 :=
  (lastWith Prod.fst key (drafts.filterMap fun draft =>
    (manifest.typeId draft.memoryType).map (draft.draftKey, ·))).map (·.2)

/-- Some rule lets the kind join the two types. -/
def permits (kind : UInt32) (source target : UInt8) : Bool :=
  manifest.typeTriples.any fun triple =>
    triple.kind = kind && triple.fromTypes.all (·.contains source) &&
      triple.toTypes.all (·.contains target)

def edgeRejects (edge : WireRel) : List LocalReject :=
  let arrow := edge.fromDraftKey ++ "->" ++ edge.toDraftKey
  if edge.toMemoryId.isEmpty && edge.toDraftKey.isEmpty then
    [⟨edge.fromDraftKey ++ "->", .invalidTypeTriple,
      "edge names neither to_draft_key nor to_memory_id"⟩]
  else if !edge.toMemoryId.isEmpty then []
  else
    match manifest.kind edge.kind with
    | none => [⟨arrow, .unknownKind, "unknown kind `" ++ edge.kind ++ "`"⟩]
    | some kind =>
        if kind.computedOnly then
          [⟨arrow, .computedKindRejected,
            "`" ++ edge.kind ++ "` is computed-only (R-T14): produced exclusively by Dreams"⟩]
        else
          match manifest.resolved unit.memories edge.fromDraftKey,
            manifest.resolved unit.memories edge.toDraftKey with
          | some source, some target =>
              if manifest.permits kind.id source target then []
              else [⟨arrow, .invalidTypeTriple,
                "kind `" ++ edge.kind ++ "` does not permit this endpoint pair (R-T17)"⟩]
          | _, _ => []

end ValidationManifest

def validateUnit (manifest : ValidationManifest) (configured : ℤ) (unit : BatchUnit) :
    List LocalReject :=
  unit.memories.flatMap (manifest.draftRejects configured unit) ++
    unit.relationships.flatMap (manifest.edgeRejects unit)

/-! ## What the manifest says -/

section Compiled

variable (server : IngestServer) (sources : SourceRegistry) (key : SourcePolicyKey)

theorem typeId_validationManifest (name : String) :
    (validationManifest server sources key).typeId name =
      server.validator.ontology.memoryTypeId name := by
  let ontology := server.validator.ontology
  let rows := ontology.memoryTypeNames.zipIdx.map fun entry =>
    (⟨entry.1, UInt8.ofNat entry.2⟩ : ManifestMemoryType)
  have listed : (rows.insertionSort (stringLe ·.name ·.name)).Perm rows :=
    List.perm_insertionSort _ _
  have names : rows.map (·.name) = ontology.memoryTypeNames := by
    rw [List.map_map]
    exact List.zipIdx_map_fst 0 _
  have distinct : ((rows.insertionSort (stringLe ·.name ·.name)).map (·.name)).Nodup := by
    rw [(listed.map _).nodup_iff, names]
    exact ontology.memoryTypes
  change (lastWith ManifestMemoryType.name name (rows.insertionSort _)).map (·.id) = _
  rw [EffectiveOntology.memoryTypeId]
  cases found : ontology.memoryTypeNames.idxOf? name with
  | none =>
      have absent : lastWith ManifestMemoryType.name name
          (rows.insertionSort (stringLe ·.name ·.name)) = none := by
        rw [lastWith_eq_none]
        intro row member same
        have named := List.mem_map_of_mem (f := ManifestMemoryType.name) (listed.mem_iff.mp member)
        rw [names, same] at named
        exact List.idxOf?_eq_none_iff.mp found named
      rw [absent]
      rfl
  | some index =>
      have place := EffectiveOntology.idxOf?_eq_some found
      have member : (⟨name, UInt8.ofNat index⟩ : ManifestMemoryType) ∈
          rows.insertionSort (stringLe ·.name ·.name) := listed.mem_iff.mpr
        (List.mem_map.mpr ⟨(name, index), List.mem_zipIdx_iff_getElem?.mpr place, rfl⟩)
      have last := lastWith_of_nodup distinct member
      rw [last]
      rfl

theorem kind_validationManifest (name : String) :
    (validationManifest server sources key).kind name =
      (server.validator.ontology.kinds.find? (·.displayName = name)).map fun kind =>
        ⟨kind.id.raw, kind.displayName, kind.computedOnly, kind.defaultStrength⟩ := by
  let ontology := server.validator.ontology
  let rows := ontology.summary.kinds.map fun kind =>
    (⟨kind.id, kind.name, kind.computedOnly, kind.defaultStrength⟩ : ManifestKind)
  have listed : rows.Perm (ontology.kinds.map fun kind =>
      ⟨kind.id.raw, kind.displayName, kind.computedOnly, kind.defaultStrength⟩) := by
    have summed := (List.perm_insertionSort (fun left right : KindSummary => left.id ≤ right.id)
      (ontology.kinds.map kindSummary)).map fun kind =>
        (⟨kind.id, kind.name, kind.computedOnly, kind.defaultStrength⟩ : ManifestKind)
    rwa [List.map_map] at summed
  have distinct : (rows.map (·.name)).Nodup := by
    rw [(listed.map _).nodup_iff, List.map_map]
    exact ontology.kindNames
  change lastWith ManifestKind.name name rows = _
  cases found : server.validator.ontology.kinds.find? (·.displayName = name) with
  | none =>
      rw [lastWith_eq_none.mpr]
      · rfl
      · intro row member same
        obtain ⟨kind, isKind, rfl⟩ := List.mem_map.mp (listed.mem_iff.mp member)
        have absent := List.find?_eq_none.mp found kind isKind
        exact absurd (decide_eq_true same) absent
  | some kind =>
      have named : kind.displayName = name := by simpa using List.find?_some found
      have member := listed.mem_iff.mpr (List.mem_map_of_mem (List.mem_of_find?_eq_some found))
      have last := lastWith_of_nodup distinct member
      rw [← named]
      exact last

/-- A rule of the manifest permits what the rulebook does. -/
theorem permits_validationManifest {kind : RelKindId} {source target : UInt8} :
    (validationManifest server sources key).permits kind.raw source target = true ↔
      validateTriple server.validator.ontology source kind target = .ok () := by
  rw [EffectiveOntology.validateTriple_ok_iff, ValidationManifest.permits, List.any_eq_true]
  constructor
  · rintro ⟨row, member, fits⟩
    obtain ⟨rule, there, rfl⟩ := EffectiveOntology.mem_summary_triples.mp member
    simp only [tripleSummary, Bool.and_eq_true, and_assoc] at fits
    exact ⟨rule, there, congrArg RelKindId.mk (of_decide_eq_true fits.1), fits.2⟩
  · rintro ⟨rule, there, rfl, fits⟩
    refine ⟨tripleSummary rule, EffectiveOntology.mem_summary_triples.mpr ⟨rule, there, rfl⟩, ?_⟩
    simpa [tripleSummary] using fits

end Compiled

/-! ## What the server takes -/

/-- Some row is accepted, and none is rejected. -/
def IngestAck.Accepts (ack : IngestAck) : Prop := ack.rejections = [] ∧ 0 < ack.accepted

variable {server : IngestServer} {state : IngestState} {source : SourceEntry} {draft : WireMemory}
  {unit : BatchUnit}

/-- What is accepted was validated, under the source that is registered. -/
theorem submit_accepts {call : SubmitCall} {ack : IngestAck}
    (reply : (submit server call state).1 = .ok ack) (accepts : ack.Accepts) :
    ∃ principal source validated times, registeredSource server state call.batch = .ok source ∧
      BatchPassed server.validator call.now call.mint principal source state.store call.batch
        validated times := by
  have notRefused : ¬ RefusesAll call.batch ack := fun refused =>
    absurd refused.1 (Nat.pos_iff_ne_zero.mp accepts.2)
  rw [submit] at reply
  split at reply
  · cases reply
  · next principal _ =>
      split at reply
      · cases reply
      · split at reply
        · next refused admitted =>
            cases reply
            exact absurd (admitBatch_refuses _ _ _ _ admitted) notRefused
        · split at reply
          · next replayed again =>
              cases reply
              obtain ⟨earlier, -, rfl⟩ := Option.map_eq_some_iff.mp again
              cases accepts.1
          · dsimp only at reply
            split at reply
            · next refused unknown =>
                cases reply
                exact absurd (registeredSource_refuses _ _ _ _ unknown) notRefused
            · next source known =>
                split at reply
                · next refused failed =>
                    cases reply
                    exact absurd (validateBatch_refuses _ _ _ _ _ _ _ _ failed) notRefused
                · next validated checked =>
                    obtain ⟨times, passed⟩ := IngestService.validateBatch_ok checked
                    rw [(consult_same server state call.batch).1] at passed
                    exact ⟨principal, source, validated, times, known, passed⟩

variable {batch : SubmittedBatch}

theorem registeredSource_ok (known : registeredSource server state batch = .ok source) :
    server.authority.sourceRegistryError = false ∧
      state.sources.peek batch.source = some source := by
  simp only [registeredSource, bind_eq_ok_iff, mapError_ok_iff, orReject_ok_iff,
    require_ok_iff] at known
  obtain ⟨-, available, entry, found, -, -, -, -, -, -, rest⟩ := known
  refine ⟨by simpa using available, ?_⟩
  cases projected : entry.projection with
  | none =>
      rw [projected] at rest
      cases rest
      exact found
  | some projection =>
      rw [projected] at rest
      obtain ⟨-, -, same⟩ := bind_eq_ok_iff.mp rest
      cases same
      exact found

/-- What is known of a draft that the server takes, and of its memory. -/
structure TakenDraft (ontology : EffectiveOntology) (source : SourceEntry) (batch : SubmittedBatch)
    (draft : WireMemory) (memory : Memory) : Prop where
  memoryType : ontology.memoryTypeId draft.memoryType = some memory.memoryType
  label : visFromI32 draft.visibility = .ok memory.visibility
  within : memory.visibility.within source.ceiling = true
  title : ¬ (draft.title.isEmpty ∨ 200 < draft.title.length)
  content : ¬ draft.content.isEmpty
  external : (batch.snapshot.isNone || draft.externalKey.isSome) = true

theorem takenDraft_of_ok {validator : Validator} {times : BatchTimes} {now : DateTime}
    {principal : Option VisibilityContext} {minted : MemoryId} {memory : Memory}
    (passed : validateMemory validator batch source times now principal draft minted = .ok memory) :
    TakenDraft validator.ontology source batch draft memory := by
  simp only [validateMemory, bind_eq_ok_iff, mapError_ok_iff, orReject_ok_iff] at passed
  obtain ⟨memoryType, known, label, labelled, scope, -, ⟨⟩, ruled, ⟨⟩, coordinates, validity, -,
    rights, -, built⟩ := passed
  obtain ⟨title, content, -, -, within⟩ :=
    validateFields_ok_iff.mp (validateDraft_ok_iff.mp ruled).1
  simp only [checkCoordinates, bind_eq_ok_iff, require_ok_iff] at coordinates
  obtain ⟨-, external, -⟩ := coordinates
  cases built
  exact ⟨known, labelled, within, title, content, external⟩

/-! ## Drafts and edges -/

theorem visibilityOrder_of_ok {number : ℤ} {label : Visibility}
    (labelled : visFromI32 number = .ok label) :
    visibilityOrder number = some label.rank ∧ (number = 4 ↔ label = .public) := by
  rw [visFromI32.eq_def] at labelled
  split at labelled <;> cases labelled <;> decide

section Rows

variable {server : IngestServer} {sources : SourceRegistry} {source : SourceEntry}
  {batch : SubmittedBatch} {unit : BatchUnit}

/-- An adapter refuses of the drafts that the server takes those that a public ceiling lets be
public. -/
theorem TakenDraft.rejects_iff {memory : Memory}
    (taken : TakenDraft server.validator.ontology source batch draft memory)
    (registered : sourceEntry server.authority sources batch.source = some source)
    (snapshot : batch.snapshot = unit.snapshot) (configured : ℤ) :
    (validationManifest server sources batch.source).draftRejects configured unit draft = [] ↔
      (source.ceiling = .public → draft.visibility ≠ 4) := by
  obtain ⟨order, isPublic⟩ := visibilityOrder_of_ok taken.label
  have ceiling : (validationManifest server sources batch.source).ceilingOrder configured =
      min source.ceiling.rank 3 := by
    change (visibilityOrder (((sourceEntry _ _ _).map (ceilingNumber ·.ceiling)).getD
      configured)).getD 3 = _
    rw [registered]
    cases label : source.ceiling <;> simp [label, ceilingNumber, visibilityOrder, Visibility.rank]
  have within : memory.visibility.rank ≤ source.ceiling.rank := of_decide_eq_true taken.within
  have keyed : (unit.snapshot.isSome && draft.externalKey.isNone) = false := by
    rw [← snapshot, Bool.and_eq_false_iff]
    rcases Bool.or_eq_true_iff.mp taken.external with plain | external
    · exact .inl (Option.isSome_eq_false_iff.mpr plain)
    · exact .inr (Option.isNone_eq_false_iff.mpr external)
  have bounds : ¬ (draft.title.length <
        (validationManifest server sources batch.source).titleMinChars ∨
      (validationManifest server sources batch.source).titleMaxChars < draft.title.length) := by
    have title := taken.title
    rw [String.isEmpty_iff, not_or] at title
    rintro (short | long)
    · exact title.1 (String.length_eq_zero_iff.mp (Nat.lt_one_iff.mp short))
    · exact title.2 long
  rw [ValidationManifest.draftRejects, typeId_validationManifest, taken.memoryType]
  simp only [order, ceiling, keyed, Bool.false_eq_true, if_false, List.append_nil]
  rw [if_neg bounds, if_neg taken.content, Ne, isPublic]
  have wide : min source.ceiling.rank 3 < memory.visibility.rank ↔
      source.ceiling = .public ∧ memory.visibility = .public := by
    revert within
    cases source.ceiling <;> cases memory.visibility <;> decide
  by_cases both : source.ceiling = .public ∧ memory.visibility = .public
  · rw [if_pos (wide.mpr both)]
    simp [both.1, both.2]
  · rw [if_neg (wide.not.mpr both)]
    simpa using both

/-- The type that the drafts give a key. -/
def draftType (ontology : EffectiveOntology) (drafts : List WireMemory) (key : String) :
    Option UInt8 :=
  (lastWith WireMemory.draftKey key drafts).bind (ontology.memoryTypeId ·.memoryType)

/-- An adapter knows the type of a key when the draft is of a known type. -/
theorem resolved_eq_draftType {drafts : List WireMemory} {key : String}
    (known : ∀ draft, lastWith WireMemory.draftKey key drafts = some draft →
      (server.validator.ontology.memoryTypeId draft.memoryType).isSome) :
    (validationManifest server sources batch.source).resolved drafts key =
      draftType server.validator.ontology drafts key := by
  induction drafts using List.reverseRecOn with
  | nil => rfl
  | append_singleton drafts draft ih =>
      rw [lastWith_concat] at known
      rw [ValidationManifest.resolved, draftType, lastWith_concat, List.filterMap_append,
        List.filterMap_cons, List.filterMap_nil, typeId_validationManifest]
      by_cases same : draft.draftKey = key
      · rw [if_pos same] at known ⊢
        obtain ⟨number, numbered⟩ := Option.isSome_iff_exists.mp (known draft rfl)
        rw [numbered]
        simp only [Option.map_some]
        rw [lastWith_concat, if_pos same, Option.bind_some, numbered]
        rfl
      · rw [if_neg same] at known ⊢
        rw [← draftType, ← ih known, ValidationManifest.resolved]
        cases server.validator.ontology.memoryTypeId draft.memoryType with
        | none => simp
        | some number =>
            simp only [Option.map_some]
            rw [lastWith_concat, if_neg same]

variable {validator : Validator} {now : DateTime} {mint : ℕ → MemoryId}
  {principal : Option VisibilityContext} {s : InMemoryStorage} {validated : ValidatedBatch}
  {times : BatchTimes}

theorem BatchPassed.takenDrafts
    (passed : BatchPassed validator now mint principal source s batch validated times) :
    List.Forall₂ (TakenDraft validator.ontology source batch) batch.memories
      validated.memories := by
  rw [← List.zipIdx_map_fst 0 batch.memories, List.forall₂_map_left_iff]
  exact passed.drafts.imp fun _ _ checked => takenDraft_of_ok checked

/-- A key that no stored target has leads to a memory of the type of its draft. -/
theorem BatchPassed.draftType_eq
    (passed : BatchPassed validator now mint principal source s batch validated times)
    {key : String} (apart : ∀ other ∈ externalEdges batch, other.toMemoryId ≠ key) :
    (draftIds validated.loaded principal batch validated.memories key).map (·.memoryType) =
      draftType validator.ontology batch.memories key := by
  have entries : ∀ {drafts : List WireMemory} {memories : List Memory},
      List.Forall₂ (TakenDraft validator.ontology source batch) drafts memories →
      List.Forall₂ (fun draft (entry : String × Memory) => draft.draftKey = entry.1 ∧
        validator.ontology.memoryTypeId draft.memoryType = some entry.2.memoryType) drafts
        ((drafts.map (·.draftKey)).zip memories) := by
    intro drafts memories taken
    induction taken with
    | nil => exact .nil
    | cons first _ ih => exact .cons ⟨rfl, first.memoryType⟩ ih
  have last := lastWith_rel (entries passed.takenDrafts) key
  rw [draftIds, lookupDraft, lastWith_append, lastWith_storedTargets apart, Option.none_or,
    draftType, Option.map_map]
  generalize lastWith WireMemory.draftKey key _ = draft at last ⊢
  generalize lastWith Prod.fst key _ = entry at last ⊢
  cases last with
  | some typed => exact typed.symm
  | none => rfl

/-- The server permits the edge between the types of its drafts. -/
def DraftsPermit (ontology : EffectiveOntology) (drafts : List WireMemory) (edge : WireRel) :
    Prop :=
  ∀ kind source target, ontology.kindId edge.kind = some kind →
    draftType ontology drafts edge.fromDraftKey = some source →
    draftType ontology drafts edge.toDraftKey = some target →
    validateTriple ontology source kind target = .ok ()

/-- A key of the edge reads like a stored target of the batch. -/
def NamesTarget (batch : SubmittedBatch) (edge : WireRel) : Prop :=
  ∃ other ∈ externalEdges batch,
    other.toMemoryId = edge.fromDraftKey ∨ other.toMemoryId = edge.toDraftKey

/-- What the server found of an edge within the batch. -/
theorem validateRelationship_within {draftIds : String → Option Memory} {edge : WireRel}
    {row : Relationship} (within : edge.toMemoryId.isEmpty)
    (passed : validateRelationship validator batch source times draftIds edge = .ok row) :
    ¬ edge.toDraftKey.isEmpty ∧ ∃ fromMemory toMemory kind,
      draftIds edge.fromDraftKey = some fromMemory ∧ draftIds edge.toDraftKey = some toMemory ∧
      validator.ontology.kindId edge.kind = some kind ∧
      (validator.ontology.kindMeta kind).any (·.computedOnly) = false ∧
      validateTriple validator.ontology fromMemory.memoryType kind toMemory.memoryType =
        .ok () := by
  simp only [validateRelationship, bind_eq_ok_iff, mapError_ok_iff, orReject_ok_iff,
    require_ok_iff] at passed
  obtain ⟨fromMemory, isFrom, toKey, isKey, toMemory, isTo, kind, isKind, -, asserted, -, -, -,
    -, ⟨⟩, permitted, -⟩ := passed
  have named : ¬ edge.toDraftKey.isEmpty := by
    intro none
    rw [targetKey, if_pos within, if_pos none] at isKey
    cases isKey
  rw [targetKey_within within isKey] at isTo
  exact ⟨named, fromMemory, toMemory, kind, isFrom, isTo, isKind, by simpa using asserted,
    permitted⟩

/-- The rows of a unit that one batch carries: with an edge, the drafts that it names. -/
structure BatchUnit.Carries (unit : BatchUnit) (batch : SubmittedBatch) : Prop where
  memories : batch.memories ⊆ unit.memories
  relationships : batch.relationships ⊆ unit.relationships
  snapshot : batch.snapshot = unit.snapshot
  ends : ∀ edge ∈ batch.relationships, ∀ key ∈ [edge.fromDraftKey, edge.toDraftKey],
    lastWith WireMemory.draftKey key unit.memories =
      lastWith WireMemory.draftKey key batch.memories

/-- An adapter refuses of the edges that the server takes those whose drafts do not permit them. -/
theorem BatchPassed.edgeRejects_iff
    (passed : BatchPassed server.validator now mint principal source s batch validated times)
    (carries : unit.Carries batch) {edge : WireRel} (member : edge ∈ batch.relationships) :
    (validationManifest server sources batch.source).edgeRejects unit edge = [] ↔
      (edge.toMemoryId.isEmpty → NamesTarget batch edge →
        DraftsPermit server.validator.ontology batch.memories edge) := by
  obtain ⟨row, -, checked⟩ := exists_right passed.edges member
  by_cases within : edge.toMemoryId.isEmpty
  · obtain ⟨named, fromMemory, toMemory, kind, isFrom, isTo, isKind, asserted, permitted⟩ :=
      validateRelationship_within within checked
    have types : ∀ key ∈ [edge.fromDraftKey, edge.toDraftKey],
        (validationManifest server sources batch.source).resolved unit.memories key =
          draftType server.validator.ontology batch.memories key := by
      intro key isEnd
      rw [draftType, ← carries.ends edge member key isEnd, ← draftType]
      refine resolved_eq_draftType fun draft last => ?_
      rw [carries.ends edge member key isEnd] at last
      obtain ⟨memory, -, taken⟩ := exists_right passed.takenDrafts (lastWith_some last).1
      rw [taken.memoryType]
      rfl
    obtain ⟨kind, found, rfl⟩ := Option.map_eq_some_iff.mp isKind
    rw [EffectiveOntology.kindMeta_iff.mpr ⟨List.mem_of_find?_eq_some found, rfl⟩,
      Option.any_some] at asserted
    have rejects : (validationManifest server sources batch.source).edgeRejects unit edge = [] ↔
        DraftsPermit server.validator.ontology batch.memories edge := by
      have kinds : ∀ other, server.validator.ontology.kindId edge.kind = some other ↔
          kind.id = other := by
        intro other
        rw [isKind, Option.some_inj]
      rw [ValidationManifest.edgeRejects, kind_validationManifest, found, types _ (by simp),
        types _ (by simp), DraftsPermit]
      simp only [within, named, asserted, kinds, Bool.and_false, Bool.not_true, Bool.false_eq_true,
        if_false, Option.map_some, ← permits_validationManifest server sources batch.source]
      cases draftType server.validator.ontology batch.memories edge.fromDraftKey with
      | none => simp
      | some source =>
          cases draftType server.validator.ontology batch.memories edge.toDraftKey with
          | none => simp
          | some target => simp
    rw [rejects]
    refine ⟨fun permit _ _ => permit, fun given => ?_⟩
    by_cases target : NamesTarget batch edge
    · exact given within target
    · -- Both keys lead to drafts, so the types that the server saw are those of the drafts.
      have own : ∀ key ∈ [edge.fromDraftKey, edge.toDraftKey], ∀ memory,
          draftIds validated.loaded principal batch validated.memories key = some memory →
          draftType server.validator.ontology batch.memories key = some memory.memoryType := by
        intro key isEnd memory leads
        rw [← passed.draftType_eq, leads]
        · rfl
        · intro other listed same
          refine target ⟨other, listed, ?_⟩
          simpa [same] using isEnd
      intro other source target known isSource isTarget
      rw [isKind] at known
      cases known
      rw [own _ (by simp) _ isFrom] at isSource
      rw [own _ (by simp) _ isTo] at isTarget
      cases isSource
      cases isTarget
      exact permitted
  · have skipped : (validationManifest server sources batch.source).edgeRejects unit edge = [] := by
      rw [ValidationManifest.edgeRejects]
      simp [within]
    exact ⟨fun _ inside => absurd inside within, fun _ => skipped⟩

end Rows

/-! ## Adapters and the server -/

/-- An adapter refuses no row of a batch. -/
structure RowsPass (manifest : ValidationManifest) (configured : ℤ) (unit : BatchUnit)
    (batch : SubmittedBatch) : Prop where
  drafts : ∀ draft ∈ batch.memories, manifest.draftRejects configured unit draft = []
  edges : ∀ edge ∈ batch.relationships, manifest.edgeRejects unit edge = []

/-- A public ceiling is not made use of, and an edge whose keys read like a stored target is
permitted between its drafts too. -/
structure ReadAlike (ontology : EffectiveOntology) (source : SourceEntry)
    (batch : SubmittedBatch) : Prop where
  labels : source.ceiling = .public → ∀ draft ∈ batch.memories, draft.visibility ≠ 4
  keys : ∀ edge ∈ batch.relationships, edge.toMemoryId.isEmpty → NamesTarget batch edge →
    DraftsPermit ontology batch.memories edge

/-- A batch that carries the whole unit passes when the unit does. -/
theorem rowsPass_iff_of_whole {manifest : ValidationManifest} {configured : ℤ}
    (memories : batch.memories = unit.memories)
    (relationships : batch.relationships = unit.relationships) :
    RowsPass manifest configured unit batch ↔ validateUnit manifest configured unit = [] := by
  rw [validateUnit, List.append_eq_nil_iff, List.flatMap_eq_nil_iff, List.flatMap_eq_nil_iff,
    ← memories, ← relationships]
  exact ⟨fun pass => ⟨pass.drafts, pass.edges⟩, fun both => ⟨both.1, both.2⟩⟩

/-- **An adapter refuses no row that the server accepts exactly where the two read the batch
alike.** The manifest is of any time at which the source was registered as it is at the
submission; the batch is the whole unit or a part of it. -/
theorem validateUnit_keeps_iff {server : IngestServer} {call : SubmitCall} {state : IngestState}
    {source : SourceEntry} {earlier : SourceRegistry} {unit : BatchUnit} {ack : IngestAck}
    (configured : ℤ) (carries : unit.Carries call.batch)
    (registered : state.sources.peek call.batch.source = some source)
    (compiled : earlier.peek call.batch.source = some source)
    (reply : (submit server call state).1 = .ok ack) (accepts : ack.Accepts) :
    (RowsPass (validationManifest server earlier call.batch.source) configured unit call.batch ↔
      ReadAlike server.validator.ontology source call.batch) ∧
    (call.batch.memories = unit.memories → call.batch.relationships = unit.relationships →
      (validateUnit (validationManifest server earlier call.batch.source) configured unit = [] ↔
        ReadAlike server.validator.ontology source call.batch)) := by
  obtain ⟨principal, found, validated, times, known, passed⟩ := submit_accepts reply accepts
  obtain ⟨available, same⟩ := registeredSource_ok known
  rw [registered] at same
  cases same
  have entry : sourceEntry server.authority earlier call.batch.source = some source := by
    rw [sourceEntry, available, compiled]
    rfl
  have alike : RowsPass (validationManifest server earlier call.batch.source) configured unit
      call.batch ↔ ReadAlike server.validator.ontology source call.batch := by
    constructor
    · intro pass
      refine ⟨fun isPublic draft member => ?_, fun edge member => ?_⟩
      · obtain ⟨memory, -, taken⟩ := exists_right passed.takenDrafts member
        exact (taken.rejects_iff entry carries.snapshot configured).mp (pass.drafts draft member)
          isPublic
      · exact (passed.edgeRejects_iff carries member).mp (pass.edges edge member)
    · intro alike
      refine ⟨fun draft member => ?_, fun edge member => ?_⟩
      · obtain ⟨memory, -, taken⟩ := exists_right passed.takenDrafts member
        exact (taken.rejects_iff entry carries.snapshot configured).mpr fun isPublic =>
          alike.labels isPublic draft member
      · exact (passed.edgeRejects_iff carries member).mpr (alike.keys edge member)
  refine ⟨alike, fun memories relationships => ?_⟩
  rw [← rowsPass_iff_of_whole memories relationships]
  exact alike

/-! ## Units of an agent -/

/-- A server that has registered one session under a ceiling. -/
def ceilingState (ceiling : Visibility) : IngestState :=
  { registeredState [] with
    sources := SourceRegistry.new.put (sessionKey "session://1") (sessionEntry ceiling) }

/-- The manifest of that session. -/
def sessionManifest (ceiling : Visibility) : ValidationManifest :=
  validationManifest (openServer false) (ceilingState ceiling).sources (sessionKey "session://1")

/-- An agent submits a whole unit. -/
def unitCall (ceiling : Visibility) (unit : BatchUnit) : SubmitCall where
  principal := some { acmeAgent with maxVisibility := ceiling }
  batch := { signedBatch unit.relationships with
    ceiling := ceiling.rank
    memories := unit.memories }
  now := 5
  groupedAt := 6
  committedAt := 7
  mint := freshId

theorem carries_unitCall (ceiling : Visibility) (plain : unit.snapshot = none) :
    unit.Carries (unitCall ceiling unit).batch :=
  ⟨List.Subset.refl _, List.Subset.refl _, plain.symm, fun _ _ _ _ => rfl⟩

/-- A problem, and an edge to a stored memory. -/
def problemUnit : BatchUnit := ⟨[problemDraft "draft"], [sessionEdge "draft" "" acmeNoteText], none⟩

theorem exists_accepts (reply : Except Status IngestAck)
    (some : reply.toOption.any (fun ack => ack.rejections = [] && 0 < ack.accepted) = true) :
    ∃ ack, reply = .ok ack ∧ ack.Accepts := by
  cases reply with
  | error status => cases some
  | ok ack =>
      obtain ⟨clean, counted⟩ := (Bool.and_eq_true _ _).mp some
      exact ⟨ack, rfl, of_decide_eq_true clean, of_decide_eq_true counted⟩

theorem validateUnit_keeps_problem : validateUnit (sessionManifest .org) 3 problemUnit = [] := by
  obtain ⟨ack, reply, accepts⟩ := exists_accepts (submit (openServer false)
    (unitCall .org problemUnit) (ceilingState .org)).1 (by decide +kernel)
  have registered : (ceilingState .org).sources.peek (unitCall .org problemUnit).batch.source =
      some (sessionEntry .org) := rfl
  refine ((validateUnit_keeps_iff 3 (carries_unitCall .org rfl) registered registered reply
    accepts).2 rfl rfl).mpr ?_
  refine ⟨fun impossible => absurd impossible (by decide), fun edge member within => ?_⟩
  rw [List.mem_singleton.mp member] at within
  exact absurd within (by decide +kernel)

/-- A draft for everybody. -/
def publicUnit : BatchUnit := ⟨[{ problemDraft "draft" with visibility := 4 }], [], none⟩

/-- A solution of the draft that has the text of a stored problem for its key. The draft is a
solution itself. -/
def solvingUnit : BatchUnit where
  memories := [{ problemDraft "draft" with memoryType := "Solution" },
    { problemDraft acmeNoteText with memoryType := "Solution" }]
  relationships := [sessionEdge "draft" "" acmeNoteText,
    { sessionEdge "draft" acmeNoteText "" with kind := "Solves" }]
  snapshot := none

/-- A public draft under a public ceiling is refused, and so is an edge that the server takes to a
stored memory. -/
theorem not_validateUnit_keeps :
    (¬ ∀ (server : IngestServer) (call : SubmitCall) (state : IngestState) (unit : BatchUnit)
      (ack : IngestAck) (configured : ℤ), unit.Carries call.batch →
      (submit server call state).1 = .ok ack → ack.Accepts →
      validateUnit (validationManifest server state.sources call.batch.source) configured unit =
        []) ∧
    ¬ ∀ (server : IngestServer) (call : SubmitCall) (state : IngestState) (unit : BatchUnit)
      (ack : IngestAck) (configured : ℤ), unit.Carries call.batch →
      (submit server call state).1 = .ok ack → ack.Accepts → call.batch.ceiling ≠ 4 →
      validateUnit (validationManifest server state.sources call.batch.source) configured unit =
        [] := by
  refine ⟨fun always => ?_, fun always => ?_⟩
  · obtain ⟨ack, reply, accepts⟩ := exists_accepts (submit (openServer false)
      (unitCall .public publicUnit) (ceilingState .public)).1 (by decide +kernel)
    have passes := always _ _ _ publicUnit ack 4 (carries_unitCall .public rfl) reply accepts
    exact absurd passes (by decide +kernel)
  · obtain ⟨ack, reply, accepts⟩ := exists_accepts (submit (openServer false)
      (unitCall .org solvingUnit) (ceilingState .org)).1 (by decide +kernel)
    have passes := always _ _ _ solvingUnit ack 3 (carries_unitCall .org rfl) reply accepts
      (by decide)
    exact absurd passes (by decide +kernel)

end Exocortex
