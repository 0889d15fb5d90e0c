import Exocortex.Kernel.Json
import Exocortex.Ops.Contradictions

/-!
# Actions of packs

A pack registers actions: a name, a ceiling, and a body that turns an input into memories and
edges. The framework runs the body, checks its product against the rulebook and the ceiling
(`preparePackAction`), and commits the rows with an audit record (`dispatchPackAction`). An edge
may end at a memory of the product or at a stored memory; the stored ones are those that the
input names by their identity and that the caller may read.

`preflightAction` runs the same checks and commits nothing. It takes stored memories from the
caller's cache, whether the input names them or not.

The preparation succeeds exactly on the products that are admissible
(`preparePackAction_ok_iff`).
-/

namespace Exocortex

open Library InMemoryStorage

/-! ## Registrations -/

/-- What a body receives. -/
structure ActionContext where
  ceiling : Visibility

/-- Where an edge of a product ends. -/
inductive ActionTarget where
  | draft (key : String)
  | memory (id : MemoryId)
deriving DecidableEq

/-- A memory of a product; its type is numbered within the pack. -/
structure ActionMemory where
  draftKey : String
  memoryType : UInt8
  title : String
  content : String
  summary : Option String
  visibility : Visibility
  tags : List String
deriving DecidableEq

/-- An edge of a product; its kind is given by name. -/
structure ActionEdge where
  fromDraftKey : String
  to_ : ActionTarget
  kind : String
  strength : Option F32
deriving DecidableEq

structure ActionProduct where
  memories : List ActionMemory
  edges : List ActionEdge
deriving DecidableEq

/-- An action of a pack. A body that fails gives the text of its error. A verb is an identifier
of the source language, and so has no dot; a pack has any name. -/
structure PackActionRegistration where
  packName : String
  verbName : String
  ceiling : Visibility
  run : ActionContext → JsonValue → Except String ActionProduct
  verb_plain : '.' ∉ verbName.toList

/-- The name of the registry entry. -/
def PackActionRegistration.entryName (reg : PackActionRegistration) : String :=
  reg.packName ++ "." ++ reg.verbName

/-- The pack and the verb of an entry: what stands before the first dot, and what after it. -/
def splitEntryName (name : String) : Option (String × String) :=
  match name.toList.span (· ≠ '.') with
  | (_, []) => none
  | (pack, _ :: verb) => some (String.ofList pack, String.ofList verb)

def findRegistered (actions : List PackActionRegistration) (pack verb : String) :
    Option PackActionRegistration :=
  actions.find? fun reg => reg.packName = pack && reg.verbName = verb

def findAction (actions : List PackActionRegistration) (entry : String) :
    Except OpError PackActionRegistration := do
  let (pack, verb) ← orReject (splitEntryName entry)
    (.other ("pack verb entry `" ++ entry ++ "` lacks pack identity"))
  orReject (findRegistered actions pack verb)
    (.other ("no pack action registered as `" ++ pack ++ "." ++ verb ++ "`"))

/-! ## Preparing an action -/

/-- The identities of new memories by their place in the product, the time, and the libraries. -/
structure ActionEnv where
  newId : ℕ → MemoryId
  now : DateTime
  outside : TextAndTime
  blake3 : List UInt8 → Bytes 32
  digestInput : JsonValue → Bytes 32

/-- The validated form of a product. -/
structure PreparedAction where
  memories : List Memory
  relationships : List Relationship
  auditLabel : String

section Prepare

variable (ontology : EffectiveOntology) (reg : PackActionRegistration) (caller : VisibilityContext)
  (env : ActionEnv)

def exceedsCeiling (what : String) (label : Visibility) : OpError :=
  .unauthorized (what ++ " visibility " ++ label.debug ++ " exceeds the " ++ reg.ceiling.debug ++
    " ceiling")

/-- The draft that the rulebook checks. -/
def actionDraft (memoryType : UInt8) (m : ActionMemory) : MemoryDraft where
  memoryType := memoryType
  title := m.title
  content := m.content
  summary := m.summary
  visibility := m.visibility
  context := { DraftContext.blank env.now with
    projectId := caller.projectIds.head?
    teamId := caller.teamIds.head?
    tenantId := some caller.orgId
    userId := some caller.userId }
  edgeHints := []
  externalKey := none

/-- The effective type of a memory of a product, by the name its pack has for it. -/
def effectiveType (pack : PackDef) (memoryType : UInt8) : Except OpError UInt8 := do
  let name ← orReject pack.memoryTypeNames[memoryType.toNat]?
    (.badInput ("unknown pack-local memory type " ++ toString memoryType.toNat))
  orReject (ontology.memoryTypeId name)
    (.badInput ("memory type `" ++ name ++ "` not in the effective ontology"))

/-- The row of a memory of a product. -/
def actionRow (id : MemoryId) (memoryType : UInt8) (m : ActionMemory) : Memory where
  id := id
  memoryType := memoryType
  title := m.title
  content := m.content
  summary := m.summary
  tags := normalizeTags env.outside m.tags
  visibility := m.visibility
  provenance := .asserted reg.entryName (some .custom)
  context := (actionDraft caller env memoryType m).context.toMemoryContext
  importance := .half
  confidence := .base
  effectiveness := none
  usageCount := 0
  validFrom := env.now
  validUntil := none
  recordedAt := env.now
  invalidatedBy := none
  embedding := none
  lsn := LSN.newLocal 0
  rights := none

def prepareMemory (pack : PackDef) (id : MemoryId) (m : ActionMemory) : Except OpError Memory := do
  let memoryType ← effectiveType ontology pack m.memoryType
  require (m.visibility.within reg.ceiling) (exceedsCeiling reg "action product" m.visibility)
  (validateDraft ontology (actionDraft caller env memoryType m) "pack-action" reg.ceiling).mapError
    fun error => .badInput error.text
  return actionRow reg caller env id memoryType m

/-- Prepare the memories of a product in order. The rows are kept under their draft keys. -/
def prepareMemories (pack : PackDef) (rows : List (String × Memory)) :
    List ActionMemory → Except OpError (List (String × Memory))
  | [] => .ok rows
  | m :: rest => do
      let memory ← prepareMemory ontology reg caller env pack (env.newId rows.length) m
      require (!rows.any (·.1 = m.draftKey))
        (.badInput ("duplicate draft_key `" ++ m.draftKey ++ "` in action product"))
      prepareMemories pack (rows ++ [(m.draftKey, memory)]) rest

/-- The row under a draft key. -/
def rowUnder (rows : List (String × Memory)) (key : String) : Option Memory :=
  (rows.find? (·.1 = key)).map (·.2)

variable (resolveTarget : MemoryId → Option Memory)

/-- The memory an edge ends at. -/
def actionTarget (rows : List (String × Memory)) : ActionTarget → Except OpError Memory
  | .draft key => orReject (rowUnder rows key) (.badInput ("edge to unknown draft_key `" ++ key ++
      "`"))
  | .memory id => orReject (resolveTarget id) (.unauthorized ("edge target " ++ id.toHex ++
      " is unknown or not visible to this caller"))

/-- The row of an edge of a product. -/
def actionRelationship (source target : Memory) (kind : RelKindId) (e : ActionEdge) :
    Relationship :=
  let kindMeta := ontology.kindMeta kind
  { id := RelationshipId.derive env.blake3 source.id kind target.id none
    kind := kind
    source := source.id
    target := target.id
    visibility := relationshipVisibility source.visibility target.visibility
    provenance := .asserted reg.entryName (some .custom)
    properties := {
      -- a kind is found again under its handle
      strength := e.strength.getD ((kindMeta.map (·.defaultStrength)).getD .zero)
      confidence := ⟨0x3f4ccccd#32⟩
      context := none
      evidenceCount := 1
      successRate := none
      validationCount := 0
      counterEvidenceCount := 0
      lastValidated := env.now }
    description := none
    bidirectional := kindMeta.any (·.bidirectional)
    validFrom := env.now
    validUntil := none
    recordedAt := env.now
    invalidatedBy := none
    lsn := LSN.newLocal 0 }

def prepareEdge (rows : List (String × Memory)) (e : ActionEdge) : Except OpError Relationship := do
  let source ← orReject (rowUnder rows e.fromDraftKey)
    (.badInput ("edge from unknown draft_key `" ++ e.fromDraftKey ++ "`"))
  let target ← actionTarget resolveTarget rows e.to_
  let kind ← orReject (ontology.kindId e.kind)
    (.badInput ("unknown kind `" ++ e.kind ++ "` in action product"))
  require (!(ontology.kindMeta kind).any (·.computedOnly)) (.unauthorized ("kind `" ++ e.kind ++
    "` is computed-only (R-T14): Dreams proposes it, actions never assert it"))
  let label := relationshipVisibility source.visibility target.visibility
  require (label.within reg.ceiling) (exceedsCeiling reg "edge" label)
  (validateTriple ontology source.memoryType kind target.memoryType).mapError
    fun error => .badInput error.text
  return actionRelationship ontology reg env source target kind e

/-- Run the body and check its product. -/
def preparePackAction (input : JsonValue) : Except OpError PreparedAction := do
  require (!decide (reg.ceiling < caller.maxVisibility))
    (exceedsCeiling reg "caller" caller.maxVisibility)
  let product ← (reg.run ⟨reg.ceiling⟩ input).mapError OpError.badInput
  let pack ← orReject (ontology.packs.find? (·.name = reg.packName))
    (.other ("pack `" ++ reg.packName ++ "` is not loaded in this ontology"))
  let rows ← prepareMemories ontology reg caller env pack [] product.memories
  let relationships ← product.edges.mapM (prepareEdge ontology reg env resolveTarget rows)
  return ⟨rows.map (·.2), relationships, reg.entryName⟩

end Prepare

/-! ## Targets that the input names -/

mutual

/-- The identities among the texts of an input, in order. -/
def harvest : JsonValue → List MemoryId
  | .string text => if text.utf8ByteSize = 32 then (MemoryId.parseHex text).toList else []
  | .array items => harvestItems items
  | .object fields => harvestFields fields
  | .null | .bool _ | .number _ => []

def harvestItems : List JsonValue → List MemoryId
  | [] => []
  | item :: rest => harvest item ++ harvestItems rest

def harvestFields : List (String × JsonValue) → List MemoryId
  | [] => []
  | (_, value) :: rest => harvest value ++ harvestFields rest

end

/-- The rows that the input names and the caller may read. A row is found under its own
identity. -/
def harvestVisibleTargets (s : InMemoryStorage) (caller : VisibilityContext) (input : JsonValue)
    (id : MemoryId) : Option Memory :=
  (s.getVisibleMemories (harvest input) caller).reverse.find? (·.id = id)

/-! ## Dispatch and preflight -/

structure PackActionOutput where
  verb : String
  memories : List String
  edges : List String
  auditLsn : ℕ

/-- What the audit row digests. -/
def dispatchDigest (reg : PackActionRegistration) (caller : VisibilityContext)
    (input : JsonValue) : JsonValue :=
  .object [("pack", .string reg.packName), ("verb", .string reg.verbName),
    ("caller_visibility", .number (toString caller.maxVisibility.rank)), ("input", input)]

/-- Run an action of the registry for a caller, and commit what it produces. -/
def dispatchPackAction (store : Env) (env : ActionEnv) (actions : List PackActionRegistration)
    (entry : String) (ctx : OpContext) (input : JsonValue) (s : InMemoryStorage) :
    Except OpError PackActionOutput × InMemoryStorage :=
  let prepared : Except OpError (PackActionRegistration × PreparedAction) := do
    let reg ← findAction actions entry
    let ontology ← orReject ctx.ontology
      (.other "pack actions require the effective ontology")
    let prepared ← preparePackAction ontology reg ctx.visibility env
      (harvestVisibleTargets s ctx.visibility input) input
    return (reg, prepared)
  match prepared with
  | .error error => (.error error, s)
  | .ok (reg, prepared) =>
      let outputIds := prepared.memories.map (·.id.toHex) ++
        prepared.relationships.map (·.id.raw.digestHex)
      let audit := ctx.audit prepared.auditLabel
        (env.digestInput (dispatchDigest reg ctx.visibility input)) outputIds env.now
      match (Call.upsertBatchAudited prepared.memories prepared.relationships audit).run store
          env.now s with
      | (.error error, after) => (.error (.storage error), after)
      | (.ok reply, after) =>
          let auditLsn := match reply with
            | .records records => lastLsn records
            | _ => 0
          (.ok ⟨prepared.auditLabel, prepared.memories.map (·.id.toHex),
            prepared.relationships.map (·.id.raw.digestHex), auditLsn⟩, after)

/-- One problem of a dry run of an action. -/
structure PackPreflightRejection where
  draftKey : String
  code : String
  detail : String
  correction : String
deriving DecidableEq

structure PackPreflightResult where
  wouldAccept : UInt32
  wouldReject : UInt32
  rejections : List PackPreflightRejection
deriving DecidableEq

/-- Check an action of a pack for a caller, with the stored memories that the cache serves. The
guidance for a widened label is that of the rejection codes. -/
def preflightAction (env : ActionEnv) (actions : List PackActionRegistration) (pack verb : String)
    (ctx : OpContext) (guidance : String) (serves : MemoryId → Option Memory) (input : JsonValue) :
    Except OpError PackPreflightResult := do
  let reg ← orReject (findRegistered actions pack verb) .notFound
  let ontology ← orReject ctx.ontology (.other "preflight requires the effective ontology")
  let rejected (code detail correction : String) : PackPreflightResult :=
    ⟨0, 1, [⟨pack ++ "." ++ verb, code, detail, correction⟩]⟩
  match preparePackAction ontology reg ctx.visibility env serves input with
  | .ok prepared =>
      .ok ⟨.ofNat (prepared.memories.length + prepared.relationships.length), 0, []⟩
  | .error (.unauthorized detail) => .ok (rejected "VisibilityWidening" detail guidance)
  | .error (.badInput detail) => .ok (rejected "Unknown" detail
      "Fix the named field or row; the kernel rulebook rejected it.")
  | .error other => .error other

/-! ## Products that pass -/

section Admission

variable (ontology : EffectiveOntology) (reg : PackActionRegistration) (pack : PackDef)
  (resolveTarget : MemoryId → Option Memory)

/-- The memory has an effective type, and keeps to the ceiling and the bounds on texts. -/
structure ActionMemory.Admissible (m : ActionMemory) (memoryType : UInt8) : Prop where
  type : effectiveType ontology pack m.memoryType = .ok memoryType
  label : m.visibility.within reg.ceiling = true
  title : ¬ (m.title.isEmpty ∨ 200 < m.title.length)
  content : ¬ m.content.isEmpty
  summary : ¬ m.summary.any (fun summary => 500 < summary.length)

/-- A memory of the effective type stands under the key. -/
def ActionProduct.Drafts (product : ActionProduct) (key : String) (memoryType : UInt8) : Prop :=
  ∃ m ∈ product.memories, m.draftKey = key ∧
    effectiveType ontology pack m.memoryType = .ok memoryType

/-- The target is a memory of the effective type. -/
def ActionProduct.Reaches (product : ActionProduct) : ActionTarget → UInt8 → Prop
  | .draft key, memoryType => product.Drafts ontology pack key memoryType
  | .memory id, memoryType => ∃ row, resolveTarget id = some row ∧ row.memoryType = memoryType

/-- The edge has both its ends, and a kind that may be asserted between them. -/
def ActionProduct.Joins (product : ActionProduct) (e : ActionEdge) : Prop :=
  ∃ sourceType targetType kind, product.Drafts ontology pack e.fromDraftKey sourceType ∧
    product.Reaches ontology pack resolveTarget e.to_ targetType ∧
    ontology.kindId e.kind = some kind ∧
    (ontology.kindMeta kind).any (·.computedOnly) = false ∧
    validateTriple ontology sourceType kind targetType = .ok ()

/-- What a product must be like to pass. -/
structure ActionProduct.Admissible (product : ActionProduct) : Prop where
  memories : ∀ m ∈ product.memories, ∃ memoryType, m.Admissible ontology reg pack memoryType
  keys : (product.memories.map (·.draftKey)).Nodup
  edges : ∀ e ∈ product.edges, product.Joins ontology pack resolveTarget e

/-- The body answers with an admissible product of a loaded pack, and the caller keeps to the
ceiling. -/
def PackActionRegistration.Yields (caller : VisibilityContext) (input : JsonValue)
    (product : ActionProduct) : Prop :=
  ¬ reg.ceiling < caller.maxVisibility ∧ reg.run ⟨reg.ceiling⟩ input = .ok product ∧
    ∃ pack, ontology.packs.find? (·.name = reg.packName) = some pack ∧
      product.Admissible ontology reg pack resolveTarget

end Admission

variable {product : ActionProduct} {prepared : PreparedAction} {row : Memory}

section Preparation

variable {ontology : EffectiveOntology} {reg : PackActionRegistration}
  {caller : VisibilityContext} {env : ActionEnv} {pack : PackDef}
  {resolveTarget : MemoryId → Option Memory} {rows : List (String × Memory)}

/-- The row under a draft key of the product. -/
def RowOf (ontology : EffectiveOntology) (reg : PackActionRegistration)
    (caller : VisibilityContext) (env : ActionEnv) (pack : PackDef) (m : ActionMemory)
    (keyed : String × Memory) : Prop :=
  keyed.1 = m.draftKey ∧ ∃ id memoryType, m.Admissible ontology reg pack memoryType ∧
    keyed.2 = actionRow reg caller env id memoryType m

theorem prepareMemory_ok_iff {id : MemoryId} {m : ActionMemory} :
    prepareMemory ontology reg caller env pack id m = .ok row ↔
      ∃ memoryType, m.Admissible ontology reg pack memoryType ∧
        row = actionRow reg caller env id memoryType m := by
  have draft : ∀ memoryType, validateDraft ontology (actionDraft caller env memoryType m)
      "pack-action" reg.ceiling = .ok () ↔ ¬ (m.title.isEmpty ∨ 200 < m.title.length) ∧
        ¬ m.content.isEmpty ∧ ¬ m.summary.any (fun summary => 500 < summary.length) ∧
        m.visibility.within reg.ceiling = true := by
    intro memoryType
    rw [validateDraft_ok_iff, validateFields_ok_iff]
    have bounded : (DraftContext.blank env.now).additionalMetadata.utf8ByteSize ≤ 8192 := by
      change "null".utf8ByteSize ≤ 8192
      decide
    simp [actionDraft, bounded]
  simp only [prepareMemory, bind_eq_ok_iff, require_ok_iff, mapError_ok_iff, draft]
  constructor
  · rintro ⟨memoryType, type, -, label, -, ⟨title, content, summary, -⟩, built⟩
    exact ⟨memoryType, ⟨type, label, title, content, summary⟩, (Except.ok.inj built).symm⟩
  · rintro ⟨memoryType, admitted, rfl⟩
    exact ⟨memoryType, admitted.type, (), admitted.label, (),
      ⟨admitted.title, admitted.content, admitted.summary, admitted.label⟩, rfl⟩

variable {ms : List ActionMemory} {all : List (String × Memory)} {key : String}

theorem prepareMemories_ok (ok : prepareMemories ontology reg caller env pack rows ms = .ok all) :
    ∃ new, all = rows ++ new ∧
      List.Forall₂ (RowOf ontology reg caller env pack) ms new ∧
      ((rows.map Prod.fst).Nodup → (all.map Prod.fst).Nodup) := by
  induction ms generalizing rows with
  | nil =>
      exact ⟨[], by rw [List.append_nil]; exact (Except.ok.inj ok).symm, .nil,
        fun nodup => Except.ok.inj ok ▸ nodup⟩
  | cons m rest ih =>
      simp only [prepareMemories, bind_eq_ok_iff, require_ok_iff] at ok
      obtain ⟨row, prepared, -, fresh, later⟩ := ok
      obtain ⟨new, rfl, related, distinct⟩ := ih later
      obtain ⟨memoryType, admitted, rfl⟩ := prepareMemory_ok_iff.mp prepared
      refine ⟨(m.draftKey, _) :: new, by rw [List.append_assoc]; rfl,
        .cons ⟨rfl, _, _, admitted, rfl⟩ related, fun nodup => distinct ?_⟩
      rw [List.map_append, List.nodup_append]
      refine ⟨nodup, List.nodup_singleton _, ?_⟩
      rintro key member other single rfl
      obtain ⟨keyed, listed, rfl⟩ := List.mem_map.mp member
      simp only [List.map_cons, List.map_nil, List.mem_singleton] at single
      simp only [Bool.not_eq_true', List.any_eq_false, decide_eq_true_eq] at fresh
      exact fresh keyed listed single

theorem prepareMemories_nil_ok (ok : prepareMemories ontology reg caller env pack [] ms = .ok all) :
    List.Forall₂ (RowOf ontology reg caller env pack) ms all ∧ (all.map Prod.fst).Nodup := by
  obtain ⟨new, same, related, distinct⟩ := prepareMemories_ok ok
  rw [List.nil_append] at same
  exact ⟨same ▸ related, distinct List.nodup_nil⟩

theorem prepareMemories_isOk
    (admitted : ∀ m ∈ ms, ∃ memoryType, m.Admissible ontology reg pack memoryType)
    (distinct : (rows.map Prod.fst ++ ms.map (·.draftKey)).Nodup) :
    ∃ all, prepareMemories ontology reg caller env pack rows ms = .ok all := by
  induction ms generalizing rows with
  | nil => exact ⟨rows, rfl⟩
  | cons m rest ih =>
      obtain ⟨memoryType, own⟩ := admitted m List.mem_cons_self
      have prepared : prepareMemory ontology reg caller env pack (env.newId rows.length) m =
          .ok (actionRow reg caller env (env.newId rows.length) memoryType m) :=
        prepareMemory_ok_iff.mpr ⟨memoryType, own, rfl⟩
      have fresh : (!rows.any (·.1 = m.draftKey)) = true := by
        rw [Bool.not_eq_true', List.any_eq_false]
        intro keyed listed same
        rw [List.nodup_append] at distinct
        exact distinct.2.2 keyed.1 (List.mem_map_of_mem listed) m.draftKey
          List.mem_cons_self (of_decide_eq_true same)
      have still : ((rows ++ [(m.draftKey, actionRow reg caller env (env.newId rows.length)
          memoryType m)]).map Prod.fst ++ rest.map (·.draftKey)).Nodup := by
        simpa only [List.map_append, List.map_cons, List.map_nil, List.append_assoc,
          List.singleton_append] using distinct
      obtain ⟨all, later⟩ := ih (fun other listed =>
        admitted other (List.mem_cons_of_mem m listed)) still
      refine ⟨all, ?_⟩
      simp only [prepareMemories, bind_eq_ok_iff, require_ok_iff]
      exact ⟨_, prepared, (), fresh, later⟩

theorem rowUnder_of_mem (distinct : (rows.map Prod.fst).Nodup) (member : (key, row) ∈ rows) :
    rowUnder rows key = some row := by
  induction rows with
  | nil => exact absurd member List.not_mem_nil
  | cons first rest ih =>
      rw [List.map_cons, List.nodup_cons] at distinct
      rw [rowUnder, List.find?_cons]
      rcases List.mem_cons.mp member with rfl | later
      · simp
      · have other : first.1 ≠ key := fun same =>
          distinct.1 (same ▸ List.mem_map_of_mem later)
        rw [decide_eq_false other]
        exact ih distinct.2 later

theorem mem_of_rowUnder (found : rowUnder rows key = some row) : (key, row) ∈ rows := by
  obtain ⟨keyed, first, rfl⟩ := Option.map_eq_some_iff.mp found
  have named : keyed.1 = key := by simpa using List.find?_some first
  exact named ▸ List.mem_of_find?_eq_some first

variable {memoryType : UInt8} {input : JsonValue}

/-- Under the keys of a product stand its memories. -/
theorem drafts_iff
    (related : List.Forall₂ (RowOf ontology reg caller env pack) product.memories rows)
    (distinct : (rows.map Prod.fst).Nodup) :
    product.Drafts ontology pack key memoryType ↔
      ∃ row, rowUnder rows key = some row ∧ row.memoryType = memoryType := by
  constructor
  · rintro ⟨m, listed, rfl, type⟩
    obtain ⟨keyed, member, named, id, own, admitted, row⟩ := exists_right related listed
    refine ⟨keyed.2, rowUnder_of_mem distinct (named ▸ member), ?_⟩
    rw [row]
    exact Except.ok.inj (admitted.type.symm.trans type)
  · rintro ⟨row, found, rfl⟩
    obtain ⟨m, listed, named, id, own, admitted, built⟩ :=
      exists_right related.flip (mem_of_rowUnder found)
    refine ⟨m, listed, named.symm, ?_⟩
    rw [admitted.type, show row = _ from built]
    rfl

theorem reaches_iff {target : ActionTarget}
    (related : List.Forall₂ (RowOf ontology reg caller env pack) product.memories rows)
    (distinct : (rows.map Prod.fst).Nodup) :
    product.Reaches ontology pack resolveTarget target memoryType ↔
      ∃ row, actionTarget resolveTarget rows target = .ok row ∧ row.memoryType = memoryType := by
  cases target with
  | draft key => simp only [ActionProduct.Reaches, actionTarget, orReject_ok_iff,
      drafts_iff related distinct]
  | memory id => simp only [ActionProduct.Reaches, actionTarget, orReject_ok_iff]

theorem prepareEdge_ok_iff {e : ActionEdge} {edge : Relationship} :
    prepareEdge ontology reg env resolveTarget rows e = .ok edge ↔
      ∃ source target kind, rowUnder rows e.fromDraftKey = some source ∧
        actionTarget resolveTarget rows e.to_ = .ok target ∧
        ontology.kindId e.kind = some kind ∧
        (ontology.kindMeta kind).any (·.computedOnly) = false ∧
        (relationshipVisibility source.visibility target.visibility).within reg.ceiling = true ∧
        validateTriple ontology source.memoryType kind target.memoryType = .ok () ∧
        edge = actionRelationship ontology reg env source target kind e := by
  simp only [prepareEdge, bind_eq_ok_iff, orReject_ok_iff, require_ok_iff, mapError_ok_iff,
    Bool.not_eq_true']
  constructor
  · rintro ⟨source, atSource, target, atTarget, kind, named, -, asserted, -, label, ⟨⟩, triple,
      built⟩
    exact ⟨source, target, kind, atSource, atTarget, named, asserted, label, triple,
      (Except.ok.inj built).symm⟩
  · rintro ⟨source, target, kind, atSource, atTarget, named, asserted, label, triple, rfl⟩
    exact ⟨source, atSource, target, atTarget, kind, named, (), asserted, (), label, (), triple,
      rfl⟩

/-- What a prepared action consists of. -/
structure Prepares (ontology : EffectiveOntology) (reg : PackActionRegistration)
    (caller : VisibilityContext) (env : ActionEnv) (resolveTarget : MemoryId → Option Memory)
    (pack : PackDef) (product : ActionProduct) (rows : List (String × Memory))
    (prepared : PreparedAction) : Prop where
  written : List.Forall₂ (RowOf ontology reg caller env pack) product.memories rows
  distinct : (rows.map Prod.fst).Nodup
  memories : prepared.memories = rows.map Prod.snd
  relationships : List.Forall₂ (fun e edge =>
    prepareEdge ontology reg env resolveTarget rows e = .ok edge) product.edges
      prepared.relationships

theorem preparePackAction_ok
    (ok : preparePackAction ontology reg caller env resolveTarget input = .ok prepared) :
    ∃ product pack rows, reg.Yields ontology resolveTarget caller input product ∧
      Prepares ontology reg caller env resolveTarget pack product rows prepared := by
  simp only [preparePackAction, bind_eq_ok_iff, require_ok_iff, mapError_ok_iff, orReject_ok_iff,
    Bool.not_eq_true', decide_eq_false_iff_not] at ok
  obtain ⟨-, ceiling, product, ran, pack, loaded, rows, written, edges, joined, built⟩ := ok
  obtain ⟨related, nodup⟩ := prepareMemories_nil_ok written
  have prepares : Prepares ontology reg caller env resolveTarget pack product rows
      ⟨rows.map Prod.snd, edges, reg.entryName⟩ :=
    ⟨related, nodup, rfl, mapM_eq_ok_iff.mp joined⟩
  refine ⟨product, pack, rows, ⟨ceiling, ran, pack, loaded, ?_, ?_, ?_⟩,
    Except.ok.inj built ▸ prepares⟩
  · intro m listed
    obtain ⟨keyed, -, -, -, memoryType, admitted, -⟩ := exists_right related listed
    exact ⟨memoryType, admitted⟩
  · have keys : product.memories.map (·.draftKey) = rows.map Prod.fst := by
      rw [← List.forall₂_eq_eq_eq, List.forall₂_map_left_iff, List.forall₂_map_right_iff]
      exact related.imp fun _ _ row => row.1.symm
    exact keys ▸ nodup
  · intro e listed
    obtain ⟨edge, -, prepared⟩ := exists_right prepares.relationships listed
    obtain ⟨source, target, kind, atSource, atTarget, named, asserted, -, triple, -⟩ :=
      prepareEdge_ok_iff.mp prepared
    exact ⟨_, _, kind, (drafts_iff related nodup).mpr ⟨source, atSource, rfl⟩,
      (reaches_iff related nodup).mpr ⟨target, atTarget, rfl⟩, named, asserted, triple⟩

/-- **An action is prepared exactly when its body yields an admissible product.** -/
theorem preparePackAction_ok_iff :
    (∃ prepared, preparePackAction ontology reg caller env resolveTarget input = .ok prepared) ↔
      ∃ product, reg.Yields ontology resolveTarget caller input product := by
  constructor
  · rintro ⟨prepared, ok⟩
    obtain ⟨product, -, -, yields, -⟩ := preparePackAction_ok ok
    exact ⟨product, yields⟩
  rintro ⟨product, ceiling, ran, pack, loaded, admissible⟩
  obtain ⟨rows, written⟩ : ∃ rows, prepareMemories ontology reg caller env pack []
      product.memories = .ok rows := prepareMemories_isOk admissible.memories admissible.keys
  obtain ⟨related, nodup⟩ := prepareMemories_nil_ok written
  have edges : ∀ e ∈ product.edges, ∃ edge,
      prepareEdge ontology reg env resolveTarget rows e = .ok edge := by
    intro e listed
    obtain ⟨sourceType, targetType, kind, drafts, reaches, named, asserted, triple⟩ :=
      admissible.edges e listed
    obtain ⟨source, atSource, rfl⟩ := (drafts_iff related nodup).mp drafts
    obtain ⟨target, atTarget, rfl⟩ := (reaches_iff related nodup).mp reaches
    -- An edge is no wider than its source, which keeps to the ceiling.
    have label : (relationshipVisibility source.visibility
        target.visibility).within reg.ceiling = true := by
      obtain ⟨m, -, -, id, memoryType, admitted, row⟩ :=
        exists_right related.flip (mem_of_rowUnder atSource)
      have own := of_decide_eq_true admitted.label
      rw [show source = _ from row, Visibility.within, decide_eq_true_iff,
        relationshipVisibility_rank]
      exact (Nat.min_le_left _ _).trans own
    exact ⟨_, prepareEdge_ok_iff.mpr
      ⟨source, target, kind, atSource, atTarget, named, asserted, label, triple, rfl⟩⟩
  obtain ⟨relationships, joined⟩ : ∃ relationships, product.edges.mapM
      (prepareEdge ontology reg env resolveTarget rows) = .ok relationships :=
    ⟨_, mapM_eq_ok_iff.mpr (forall₂_successes edges)⟩
  refine ⟨⟨rows.map Prod.snd, relationships, reg.entryName⟩, ?_⟩
  simp only [preparePackAction, bind_eq_ok_iff, require_ok_iff, mapError_ok_iff, orReject_ok_iff,
    Bool.not_eq_true', decide_eq_false_iff_not]
  exact ⟨(), ceiling, product, ran, pack, loaded, rows, written, _, joined, rfl⟩

/-- An edge of a prepared action starts at one of its memories, and ends at another or at a memory
that was resolved. -/
theorem Prepares.edge
    (prepares : Prepares ontology reg caller env resolveTarget pack product rows prepared)
    {edge : Relationship} (listed : edge ∈ prepared.relationships) :
    ∃ source target kind e, source ∈ prepared.memories ∧
      (target ∈ prepared.memories ∨ ∃ id, resolveTarget id = some target) ∧
      ontology.kindId e.kind = some kind ∧
      (ontology.kindMeta kind).any (·.computedOnly) = false ∧
      validateTriple ontology source.memoryType kind target.memoryType = .ok () ∧
      edge = actionRelationship ontology reg env source target kind e := by
  have inRows : ∀ {key : String} {row : Memory}, rowUnder rows key = some row →
      row ∈ prepared.memories := by
    intro key row found
    rw [prepares.memories]
    exact List.mem_map_of_mem (mem_of_rowUnder found)
  obtain ⟨e, -, joined⟩ := exists_right prepares.relationships.flip listed
  obtain ⟨source, target, kind, atSource, atTarget, named, asserted, -, triple, rfl⟩ :=
    prepareEdge_ok_iff.mp joined
  refine ⟨source, target, kind, e, inRows atSource, ?_, named, asserted, triple, rfl⟩
  revert atTarget
  cases e.to_ with
  | draft key => exact fun atTarget => .inl (inRows (orReject_ok_iff.mp atTarget))
  | memory id => exact fun atTarget => .inr ⟨id, orReject_ok_iff.mp atTarget⟩

end Preparation

/-! ## What dispatch commits -/

section Dispatch

variable {store : Env} {env : ActionEnv} {actions : List PackActionRegistration} {entry : String}
  {ctx : OpContext} {input : JsonValue} {s : InMemoryStorage}

variable {caller : VisibilityContext} {reg : PackActionRegistration} {ontology : EffectiveOntology}

/-- The targets of an action are the visible current rows that its input names. -/
theorem harvestVisibleTargets_eq_some_iff (keyed : Keyed s.rows) {id : MemoryId} :
    harvestVisibleTargets s caller input id = some row ↔
      id ∈ harvest input ∧ s.currentMemory id = some row ∧ memoryVisible row caller = true := by
  have named : ∀ row : Memory, row ∈ (s.getVisibleMemories (harvest input) caller).reverse ↔
      row.id ∈ harvest input ∧ s.currentMemory row.id = some row ∧
        memoryVisible row caller = true := by
    intro row
    rw [List.mem_reverse, getVisibleMemories, List.mem_filter, List.mem_filterMap]
    constructor
    · rintro ⟨⟨other, asked, current⟩, visible⟩
      obtain rfl := keyed.memory_id current
      exact ⟨asked, current, visible⟩
    · rintro ⟨asked, current, visible⟩
      exact ⟨⟨row.id, asked, current⟩, visible⟩
  constructor
  · intro found
    obtain rfl : row.id = id := by simpa using List.find?_some found
    exact (named row).mp (List.mem_of_find?_eq_some found)
  · rintro ⟨asked, current, visible⟩
    obtain rfl := keyed.memory_id current
    have present := (named row).mpr ⟨asked, current, visible⟩
    rw [harvestVisibleTargets]
    cases found : (s.getVisibleMemories (harvest input) caller).reverse.find? (·.id = row.id) with
    | none => exact absurd (decide_eq_true rfl) (List.find?_eq_none.mp found row present)
    | some other =>
        have same : other.id = row.id := by simpa using List.find?_some found
        obtain ⟨-, stored, -⟩ := (named other).mp (List.mem_of_find?_eq_some found)
        rw [same, current] at stored
        exact stored.symm

/-- The edges of a prepared action have both their ends in the store or in the batch. -/
theorem Prepares.present (keyed : Keyed s.rows) {pack : PackDef} {rows : List (String × Memory)}
    (prepares : Prepares ontology reg caller env (harvestVisibleTargets s caller input) pack product
      rows prepared) :
    ∀ r ∈ prepared.relationships, s.endpointMissing prepared.memories r = false := by
  intro r listed
  obtain ⟨source, target, kind, e, inBatch, end_, -, -, -, rfl⟩ := prepares.edge listed
  have listedIn : ∀ m ∈ prepared.memories, prepared.memories.any (·.id = m.id) = true :=
    fun m member => List.any_eq_true.mpr ⟨m, member, decide_eq_true rfl⟩
  have start : (actionRelationship ontology reg env source target kind e).source = source.id := rfl
  have stop : (actionRelationship ontology reg env source target kind e).target = target.id := rfl
  rw [endpointMissing, start, stop, listedIn source inBatch, Bool.not_true, Bool.and_false,
    Bool.false_or]
  rcases end_ with member | ⟨id, resolved⟩
  · rw [listedIn target member, Bool.not_true, Bool.and_false]
  · obtain ⟨-, current, -⟩ := (harvestVisibleTargets_eq_some_iff keyed).mp resolved
    have stored : target.id ∈ s.memories := by
      rw [keyed.memory_id current]
      exact mem_of_history (List.ne_nil_of_mem (List.mem_of_getLast? current))
    rw [decide_eq_false (not_not_intro stored), Bool.false_and]

/-- A dispatch that commits. -/
structure Dispatched (store : Env) (env : ActionEnv) (actions : List PackActionRegistration)
    (entry : String) (ctx : OpContext) (input : JsonValue) (s : InMemoryStorage)
    (reg : PackActionRegistration) (ontology : EffectiveOntology) (product : ActionProduct)
    (prepared : PreparedAction) : Prop where
  prepares : ∃ pack rows, Prepares ontology reg ctx.visibility env
    (harvestVisibleTargets s ctx.visibility input) pack product rows prepared
  reply : ∃ lsn, (dispatchPackAction store env actions entry ctx input s).1 =
    .ok ⟨prepared.auditLabel, prepared.memories.map (·.id.toHex),
      prepared.relationships.map (·.id.raw.digestHex), lsn⟩
  committed : ∃ records events t, s.upsertBatchLocked store prepared.memories
      prepared.relationships env.now = .ok (records, events, t) ∧
    (dispatchPackAction store env actions entry ctx input s).2.memories = t.memories ∧
    (dispatchPackAction store env actions entry ctx input s).2.rels = t.rels

/-- An action whose body yields an admissible product is committed. -/
theorem dispatchPackAction_commits (keyed : Keyed s.rows)
    (found : findAction actions entry = .ok reg) (loaded : ctx.ontology = some ontology)
    (yields : reg.Yields ontology (harvestVisibleTargets s ctx.visibility input) ctx.visibility
      input product) :
    ∃ prepared, Dispatched store env actions entry ctx input s reg ontology product prepared := by
  obtain ⟨prepared, ok⟩ : ∃ prepared, preparePackAction ontology reg ctx.visibility env
      (harvestVisibleTargets s ctx.visibility input) input = .ok prepared :=
    preparePackAction_ok_iff.mpr ⟨product, yields⟩
  obtain ⟨again, pack, rows, yielded, prepares⟩ := preparePackAction_ok ok
  obtain rfl : again = product := Except.ok.inj (yielded.2.1.symm.trans yields.2.1)
  obtain ⟨records, events, t, committed, reply, memories, rels, -⟩ :=
    run_upsertBatchAudited_ok store (prepares.present keyed) (ctx.audit prepared.auditLabel
      (env.digestInput (dispatchDigest reg ctx.visibility input))
      (prepared.memories.map (·.id.toHex) ++ prepared.relationships.map (·.id.raw.digestHex))
      env.now) env.now
  have run : ∃ lsn, dispatchPackAction store env actions entry ctx input s =
      (.ok ⟨prepared.auditLabel, prepared.memories.map (·.id.toHex),
        prepared.relationships.map (·.id.raw.digestHex), lsn⟩, ((Call.upsertBatchAudited
          prepared.memories prepared.relationships (ctx.audit prepared.auditLabel
            (env.digestInput (dispatchDigest reg ctx.visibility input))
            (prepared.memories.map (·.id.toHex) ++
              prepared.relationships.map (·.id.raw.digestHex))
              env.now)).run store env.now s).2) := by
    rw [dispatchPackAction, found, loaded]
    simp only [bind, Except.bind, orReject, ok, pure, Except.pure]
    split
    next failed => rw [failed] at reply; cases reply
    next answered => rw [answered]; exact ⟨_, rfl⟩
  obtain ⟨lsn, run⟩ := run
  exact ⟨prepared, ⟨pack, rows, prepares⟩, ⟨lsn, by rw [run]⟩, records, events, t, committed,
    by rw [run]; exact memories, by rw [run]; exact rels⟩

/-- An action that yields no admissible product leaves the store as it was. -/
theorem dispatchPackAction_refuses
    (refused : ∀ reg ontology product, findAction actions entry = .ok reg →
      ctx.ontology = some ontology → ¬ reg.Yields ontology
        (harvestVisibleTargets s ctx.visibility input) ctx.visibility input product) :
    ∃ error, dispatchPackAction store env actions entry ctx input s = (.error error, s) := by
  rw [dispatchPackAction]
  cases found : findAction actions entry with
  | error error => exact ⟨error, rfl⟩
  | ok reg =>
      cases loaded : ctx.ontology with
      | none => exact ⟨_, rfl⟩
      | some ontology =>
          cases prepared : preparePackAction ontology reg ctx.visibility env
              (harvestVisibleTargets s ctx.visibility input) input with
          | error error =>
              simp only [bind, Except.bind, orReject, prepared]
              exact ⟨error, rfl⟩
          | ok prepared' =>
              obtain ⟨product, -, -, yields, -⟩ := preparePackAction_ok prepared
              exact absurd yields (refused reg ontology product found loaded)

end Dispatch

end Exocortex
