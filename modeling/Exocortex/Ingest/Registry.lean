import Exocortex.Ingest.Validation
import Exocortex.Library.Lru

/-!
# Registration of sources

A producer registers a source before it submits to it. The first registration fixes the
ceiling, the kind, the flavor and the default rights; a table-shaped source declares its
projection, which later registrations may extend, never shrink. The registry is bounded: when
it is full, a new source pushes the least recently used one out, and a source that was pushed
out registers as if it were new.

A call works on a copy of the registry, which takes the place of the registry once it is
persisted. `hmac` and the encodings stand for the libraries that sign and encode messages.
-/

namespace Exocortex

open Library InMemoryStorage

/-! ## Requests -/

structure ProjectionField where
  sourceField : String
  memoryType : String
  kind : String
deriving DecidableEq

structure SourceColumn where
  name : String
  dataType : String
deriving DecidableEq

structure ProjectionBounds where
  maxRowsPerWindow : ℕ
  maxGraphSharePercent : ℕ
deriving DecidableEq

structure ProjectionDescriptor where
  selector : String
  fields : List ProjectionField
  sourceSchema : List SourceColumn
  mappingVersion : ℕ
  bounds : Option ProjectionBounds
deriving DecidableEq

structure RegisterSourceRequest where
  orgId : String
  sourceUri : String
  producerId : String
  ceiling : ℤ
  sourceFlavor : String
  producer : Option WireProducer
  producerKind : ℤ
  projection : Option ProjectionDescriptor
  defaultRights : Option WireRights
deriving DecidableEq

/-- The organization, the source and the producer. -/
abbrev SourcePolicyKey := String × String × String

def RegisterSourceRequest.key (r : RegisterSourceRequest) : SourcePolicyKey :=
  (r.orgId, r.sourceUri, r.producerId)

/-- The codes of a refused call. -/
inductive StatusCode where
  | invalidArgument
  | permissionDenied
  | failedPrecondition
  | internal
  | unauthenticated
deriving DecidableEq

structure Status where
  code : StatusCode
  message : String
deriving DecidableEq

/-! ## The server -/

structure AdminSourcePolicy where
  ceiling : Visibility
  kind : ProducerKind
  signingKey : Bytes 32
deriving DecidableEq

abbrev SourceRegistry := Lru SourcePolicyKey SourceEntry

/-- The configuration of a server that registration looks at, and the libraries it uses. -/
structure SourceAuthority where
  defaultProducerKey : Option (Bytes 32)
  orgGuard : Option String
  sourceRegistryError : Bool
  adminPolicies : Table SourcePolicyKey AdminSourcePolicy
  requireAdminPolicy : Bool
  requireRequestPrincipal : Bool
  storeFingerprint : Bytes 32
  outside : TextAndTime
  blake3 : List UInt8 → Bytes 32
  sha256 : List UInt8 → Bytes 32
  hmac : Bytes 32 → List UInt8 → List UInt8
  encodeRegistration : RegisterSourceRequest → List UInt8

/-- The entries that a registry has room for. -/
def registryLruCap : ℕ := 1000

theorem registryLruCap_pos : 0 < registryLruCap := Nat.zero_lt_succ 999

/-- The registry of a new server. -/
def SourceRegistry.new : SourceRegistry := .empty registryLruCap registryLruCap_pos

section Server

variable (server : SourceAuthority)

def requestPrincipal (principal : Option VisibilityContext) :
    Except Status (Option VisibilityContext) :=
  if server.requireRequestPrincipal && principal.isNone then
    .error ⟨.unauthenticated, "request has no authenticated principal"⟩
  else .ok principal

def producerKey (key : SourcePolicyKey) : Except Status (Bytes 32) :=
  match ((server.adminPolicies.lookup key).map (·.signingKey)).or server.defaultProducerKey with
  | some signingKey => .ok signingKey
  | none => .error ⟨.permissionDenied, "producer has no administrator signing policy"⟩

/-- The request without its signature. -/
def RegisterSourceRequest.unsigned (r : RegisterSourceRequest) : RegisterSourceRequest :=
  { r with producer := r.producer.map ({ · with hmacSignature := [] }) }

def verifyRegistration (signingKey : Bytes 32) (r : RegisterSourceRequest) : Bool :=
  match r.producer with
  | none => false
  | some producer =>
      !producer.hmacSignature.isEmpty &&
        server.hmac signingKey (server.encodeRegistration r.unsigned) = producer.hmacSignature

/-- The kinds that a producer may declare. -/
def wireKindToKernel : ℤ → Option ProducerKind
  | 1 => some .codingAgent
  | 2 => some .researchAgent
  | 3 => some .docsAdapter
  | 4 => some .analyticsAdapter
  | 5 => some .custom
  | 6 => some .extracted
  | 7 => some .saasAdapter
  | _ => none

/-- What a request declares: its ceiling and its kind. -/
def declared (principal : Option VisibilityContext) (r : RegisterSourceRequest) :
    Except Status (Visibility × ProducerKind) := do
  let principal ← requestPrincipal server principal
  let signingKey ← producerKey server r.key
  require (verifyRegistration server signingKey r)
    ⟨.unauthenticated, "registration requires a valid producer HMAC (R-I8)"⟩
  require (server.orgGuard.all (r.orgId = ·)) ⟨.invalidArgument, "org does not match this node"⟩
  require (principal.all (·.orgId = r.orgId))
    ⟨.permissionDenied, "authenticated principal cannot register another org"⟩
  require (!server.sourceRegistryError) ⟨.failedPrecondition, "source registry unavailable"⟩
  let requested ← (visFromI32 r.ceiling).mapError fun _ =>
    ⟨.invalidArgument, "unknown source ceiling discriminant"⟩
  require (principal.all fun principal => !decide (principal.maxVisibility < requested))
    ⟨.permissionDenied, "requested source ceiling exceeds authenticated principal"⟩
  let kind ← orReject (wireKindToKernel r.producerKind)
    ⟨.invalidArgument, "producer_kind must be a declared ProducerKind (D8)"⟩
  require (kind ≠ .unspecified) ⟨.invalidArgument,
    "producer_kind UNSPECIFIED is rejected: every producer declares what it is (D8)"⟩
  return (requested, kind)

/-- The ceiling of the registered source. An administrator's stands above an earlier
registration's, and that above the one asked for. -/
def effectiveCeiling (policy : Option AdminSourcePolicy) (existing : Option SourceEntry)
    (requested : Visibility) : Except Status Visibility :=
  match policy with
  | some policy =>
      if policy.ceiling < requested then
        .error ⟨.permissionDenied, "requested ceiling exceeds the admin-configured value (R-I3)"⟩
      else .ok policy.ceiling
  | none =>
      if server.requireAdminPolicy then
        .error ⟨.permissionDenied, "source has no administrator-provisioned ceiling (R-I3)"⟩
      else .ok ((existing.map (·.ceiling)).getD requested)

/-- The flavors of tables. -/
def projectionRequired (flavor : String) : Bool :=
  ["iceberg", "delta", "parquet-dir", "cdc-postgres"].contains flavor

/-- Columns in the order of their names and types. -/
def columnLe (left right : String × String) : Bool :=
  if left.1 = right.1 then stringLe left.2 right.2 else stringLe left.1 right.1

/-- The digest of some columns, in any order. -/
def projectionSchemaHash (columns : List (String × String)) : String :=
  let sorted := columns.insertionSort (columnLe · ·)
  let preimage := String.join (sorted.map fun column => column.1 ++ "\x00" ++ column.2 ++ "\x00")
  hex32 (server.sha256 preimage.toUTF8.toList).bytes

/-- The projection that a request declares. -/
def incomingProjection (descriptor : ProjectionDescriptor) : StoredProjection :=
  let columns := descriptor.sourceSchema.map fun column => (column.name, column.dataType)
  { selector := descriptor.selector
    fields := descriptor.fields.map fun field => (field.sourceField, field.memoryType, field.kind)
    columns := columns
    schemaHash := projectionSchemaHash server columns
    mappingVersion := descriptor.mappingVersion
    maxRowsPerWindow := (descriptor.bounds.map (·.maxRowsPerWindow)).getD 0
    maxGraphSharePercent := (descriptor.bounds.map (·.maxGraphSharePercent)).getD 0 }

/-- The type of a column: that of the first of its name. -/
def columnType (columns : List (String × String)) (name : String) : Option String :=
  (columns.find? (·.1 = name)).map (·.2)

/-- A column of the earlier projection that the later one has to have. -/
def checkColumn (incoming : StoredProjection) (column : String × String) : Except Status Unit :=
  match columnType incoming.columns column.1 with
  | none => .error ⟨.failedPrecondition, "mapped-adjacent column `" ++ column.1 ++
      "` was removed or renamed — fail closed until the mapping is re-authored"⟩
  | some dataType =>
      require (dataType = column.2) ⟨.failedPrecondition, "column `" ++ column.1 ++
        "` was retyped (" ++ column.2 ++ " -> " ++ dataType ++
        ") — fail closed until the mapping is re-authored"⟩

/-- The change from an earlier projection to a later one. -/
def checkProjection (previous incoming : StoredProjection) : Except Status Unit := do
  require (previous.mappingVersion < incoming.mappingVersion)
    ⟨.failedPrecondition, "projection change requires a mapping_version bump (D21-a)"⟩
  previous.columns.forM (checkColumn incoming)

/-- The projection to store, and whether it extends an earlier one. -/
def storedProjection (existing : Option SourceEntry) (r : RegisterSourceRequest) :
    Except Status (Option StoredProjection × Bool) :=
  if projectionRequired r.sourceFlavor then do
    let descriptor ← orReject r.projection ⟨.invalidArgument,
      "table-shaped source requires a declared projection: selector, field mapping, " ++
        "source schema, bounds (adapter-contract D21-a)"⟩
    let incoming := incomingProjection server descriptor
    require (incoming.fields.all fun field => incoming.columns.any (·.1 = field.1))
      ⟨.failedPrecondition, "projection maps a field absent from the declared source schema " ++
        "(indistinguishable from a removed or renamed column — fail closed)"⟩
    match existing.bind (·.projection) with
    | none => return (some incoming, false)
    | some previous =>
        if incoming = previous then return (some incoming, false)
        checkProjection previous incoming
        return (some incoming, true)
  else .ok (none, false)

/-- The entry of a request, and whether it extends a projection. -/
def candidateEntry (existing : Option SourceEntry) (requested : Visibility) (kind : ProducerKind)
    (r : RegisterSourceRequest) : Except Status (SourceEntry × Bool) := do
  let policy := server.adminPolicies.lookup r.key
  let ceiling ← effectiveCeiling server policy existing requested
  require (existing.all (·.flavor = r.sourceFlavor))
    ⟨.failedPrecondition, "source_flavor differs from the existing registration"⟩
  let (projection, extended) ← storedProjection server existing r
  return ({
    ceiling := ceiling
    kind := ((policy.map (·.kind)).or (existing.map (·.kind))).getD kind
    flavor := (existing.map (·.flavor)).getD r.sourceFlavor
    projection := projection
    defaultRights := match existing with
      | some previous => previous.defaultRights
      | none => r.defaultRights.map (kernelRights server.outside) }, extended)

/-- The audit row of an extended projection. -/
def schemaExtendedAudit (r : RegisterSourceRequest) (projection : StoredProjection)
    (now : DateTime) : AuditEvent where
  action := "schema_extended"
  actor := r.producerId
  orgId := r.orgId
  inputDigest := server.blake3 (r.sourceUri ++ "|" ++ projection.schemaHash ++ "|" ++
    toString projection.mappingVersion).toUTF8.toList
  outputIds := []
  fingerprint := server.storeFingerprint
  leaseEpoch := none
  recordedAt := now

/-- One call, with what the file and the store say to it. -/
structure RegisterCall where
  principal : Option VisibilityContext
  request : RegisterSourceRequest
  now : DateTime
  persisted : Bool
  audited : Bool

/-- What a call yields: the reply, the registry, and the audit row it went on to append. -/
structure Registration where
  reply : Except Status Visibility
  sources : SourceRegistry
  audit : Option AuditEvent

/-- The entry that a call is about to write. -/
def registration (sources : SourceRegistry) (call : RegisterCall) :
    Except Status (SourceEntry × Bool) := do
  let (requested, kind) ← declared server call.principal call.request
  let entry ← candidateEntry server (sources.peek call.request.key) requested kind call.request
  require call.persisted ⟨.internal, "source registry persistence failed"⟩
  return entry

def registerSource (sources : SourceRegistry) (call : RegisterCall) : Registration :=
  match registration server sources call with
  | .error status => ⟨.error status, sources, none⟩
  | .ok (entry, extended) =>
      let sources := sources.put call.request.key entry
      let audit := (entry.projection.filter fun _ => extended).map
        (schemaExtendedAudit server call.request · call.now)
      if audit.isSome && !call.audited then
        ⟨.error ⟨.internal, "schema-extension audit append failed"⟩, sources, audit⟩
      else ⟨.ok entry.ceiling, sources, audit⟩

/-- The registry after some calls. -/
def registerAll (sources : SourceRegistry) (calls : List RegisterCall) : SourceRegistry :=
  calls.foldl (fun sources call => (registerSource server sources call).sources) sources

end Server

/-! ## What later registrations keep -/

/-- A projection that has every column of another, with its type. -/
structure StoredProjection.Extends (later earlier : StoredProjection) : Prop where
  version : earlier.mappingVersion ≤ later.mappingVersion
  columns : ∀ column ∈ earlier.columns, column ∈ later.columns
  types : ∀ name dataType, columnType earlier.columns name = some dataType →
    columnType later.columns name = some dataType

/-- An entry that says what another one says, its projection possibly extended. -/
structure SourceEntry.Extends (later earlier : SourceEntry) : Prop where
  ceiling : later.ceiling = earlier.ceiling
  kind : later.kind = earlier.kind
  flavor : later.flavor = earlier.flavor
  defaultRights : later.defaultRights = earlier.defaultRights
  projection : ∀ previous, earlier.projection = some previous →
    ∃ incoming, later.projection = some incoming ∧ incoming.Extends previous

theorem StoredProjection.Extends.refl (projection : StoredProjection) :
    projection.Extends projection :=
  ⟨le_rfl, fun _ member => member, fun _ _ same => same⟩

theorem StoredProjection.Extends.trans {first second third : StoredProjection}
    (later : third.Extends second) (earlier : second.Extends first) : third.Extends first :=
  ⟨earlier.version.trans later.version,
    fun column member => later.columns column (earlier.columns column member),
    fun name dataType same => later.types name dataType (earlier.types name dataType same)⟩

theorem SourceEntry.Extends.refl (entry : SourceEntry) : entry.Extends entry :=
  ⟨rfl, rfl, rfl, rfl, fun previous same => ⟨previous, same, .refl previous⟩⟩

theorem SourceEntry.Extends.trans {first second third : SourceEntry}
    (later : third.Extends second) (earlier : second.Extends first) : third.Extends first where
  ceiling := later.ceiling.trans earlier.ceiling
  kind := later.kind.trans earlier.kind
  flavor := later.flavor.trans earlier.flavor
  defaultRights := later.defaultRights.trans earlier.defaultRights
  projection previous same := by
    obtain ⟨middle, inMiddle, extends₁⟩ := earlier.projection previous same
    obtain ⟨last, inLast, extends₂⟩ := later.projection middle inMiddle
    exact ⟨last, inLast, extends₂.trans extends₁⟩

theorem mem_of_columnType {columns : List (String × String)} {name dataType : String}
    (found : columnType columns name = some dataType) : (name, dataType) ∈ columns := by
  obtain ⟨column, first, rfl⟩ := Option.map_eq_some_iff.mp found
  have same : column.1 = name := by simpa using List.find?_some first
  rw [← same]
  exact List.mem_of_find?_eq_some first

variable {incoming : StoredProjection} {sources : SourceRegistry}

theorem checkColumn_ok {column : String × String} (ok : checkColumn incoming column = .ok ()) :
    columnType incoming.columns column.1 = some column.2 := by
  rw [checkColumn] at ok
  split at ok
  · cases ok
  next dataType found =>
    have same : dataType = column.2 := of_decide_eq_true (require_ok_iff.mp ok)
    rw [found, same]

/-- A change that passed keeps every column. -/
theorem checkProjection_ok {previous : StoredProjection}
    (ok : checkProjection previous incoming = .ok ()) : incoming.Extends previous := by
  simp only [checkProjection, bind_eq_ok_iff, require_ok_iff] at ok
  obtain ⟨_, newer, columns⟩ := ok
  have kept := forM_eq_ok_iff.mp columns
  refine ⟨(of_decide_eq_true newer).le, ?_, ?_⟩
  · intro column member
    exact mem_of_columnType (checkColumn_ok (kept column member))
  · intro name dataType found
    exact checkColumn_ok (kept _ (mem_of_columnType found))

section Keeps

variable {server : SourceAuthority}

variable {r : RegisterSourceRequest} {existing : Option SourceEntry}

/-- A stored projection extends the one before it, and is there for tables only. -/
theorem storedProjection_ok {result : Option StoredProjection × Bool}
    (ok : storedProjection server existing r = .ok result) :
    result.1.isSome = projectionRequired r.sourceFlavor ∧
      ∀ previous, existing.bind (·.projection) = some previous → ∀ incoming,
        result.1 = some incoming → incoming.Extends previous := by
  rw [storedProjection] at ok
  split at ok
  next required =>
    simp only [bind_eq_ok_iff, orReject_ok_iff, require_ok_iff] at ok
    obtain ⟨descriptor, -, -, -, ok⟩ := ok
    split at ok
    next absent =>
      cases ok
      rw [absent]
      exact ⟨required.symm, fun _ impossible => by cases impossible⟩
    next previous before =>
      rw [before]
      split at ok
      next same =>
        cases ok
        refine ⟨required.symm, ?_⟩
        rintro _ ⟨⟩ _ ⟨⟩
        rw [same]
        exact .refl previous
      next =>
        obtain ⟨⟨⟩, checked, ok⟩ := bind_eq_ok_iff.mp ok
        cases ok
        refine ⟨required.symm, ?_⟩
        rintro _ ⟨⟩ _ ⟨⟩
        exact checkProjection_ok checked
  next exempt =>
    cases ok
    exact ⟨(Bool.eq_false_of_not_eq_true exempt).symm, fun _ _ _ impossible => by cases impossible⟩

/-- Only tables have a projection. -/
def SourceEntry.Declared (entry : SourceEntry) : Prop :=
  entry.projection.isSome → projectionRequired entry.flavor

/-- A new entry is well declared, and extends the one before it where there is no policy. -/
theorem candidateEntry_ok {requested : Visibility} {kind : ProducerKind}
    {result : SourceEntry × Bool}
    (ok : candidateEntry server existing requested kind r = .ok result) :
    result.1.Declared ∧ (server.adminPolicies.lookup r.key = none → ∀ old, existing = some old →
      old.Declared → result.1.Extends old) := by
  simp only [candidateEntry, bind_eq_ok_iff, require_ok_iff] at ok
  obtain ⟨ceiling, isCeiling, -, sameFlavor, stored, isStored, ok⟩ := ok
  obtain ⟨required, extending⟩ := storedProjection_ok isStored
  cases ok
  have flavor : (existing.map (·.flavor)).getD r.sourceFlavor = r.sourceFlavor := by
    cases existing with
    | none => rfl
    | some old => exact of_decide_eq_true sameFlavor
  refine ⟨?_, ?_⟩
  · intro some
    change projectionRequired ((existing.map (·.flavor)).getD r.sourceFlavor) = true
    rw [flavor, ← required]
    exact some
  · rintro noPolicy old rfl isDeclared
    rw [noPolicy] at isCeiling
    refine ⟨?_, ?_, rfl, rfl, ?_⟩
    · rw [effectiveCeiling] at isCeiling
      split at isCeiling
      · cases isCeiling
      · exact (Except.ok.inj isCeiling).symm
    · change (((server.adminPolicies.lookup r.key).map (·.kind)).or (some old.kind)).getD kind = _
      rw [noPolicy]
      rfl
    · intro previous before
      have table : stored.1.isSome = true := by
        rw [required, ← flavor]
        exact isDeclared (by rw [before]; rfl)
      obtain ⟨incoming, isIncoming⟩ := Option.isSome_iff_exists.mp table
      exact ⟨incoming, isIncoming, extending previous before incoming isIncoming⟩

/-- A call writes the entry of its own source, or nothing. -/
theorem registerSource_sources (server : SourceAuthority) (sources : SourceRegistry)
    (call : RegisterCall) :
    (registerSource server sources call).sources = sources ∨
      ∃ requested kind entry extended,
        candidateEntry server (sources.peek call.request.key) requested kind call.request =
          .ok (entry, extended) ∧
        (registerSource server sources call).sources = sources.put call.request.key entry := by
  rw [registerSource]
  split
  next => exact .inl rfl
  next entry extended written =>
    simp only [registration, bind_eq_ok_iff, require_ok_iff] at written
    obtain ⟨⟨requested, kind⟩, -, result, checked, -, -, ok⟩ := written
    cases ok
    refine .inr ⟨requested, kind, entry, extended, checked, ?_⟩
    dsimp only
    split <;> rfl

theorem registerSource_failed {call : RegisterCall} {status : Status}
    (failed : (registerSource server sources call).reply = .error status)
    (unaudited : (registerSource server sources call).audit = none) :
    (registerSource server sources call).sources = sources := by
  rw [registerSource] at failed unaudited ⊢
  split
  next => rfl
  next entry extended written =>
    rw [written] at failed unaudited
    dsimp only at failed unaudited
    split at failed
    next auditing =>
      rw [if_pos auditing] at unaudited
      dsimp only at unaudited
      rw [unaudited] at auditing
      cases auditing
    next => cases failed

theorem registerAll_append (sources : SourceRegistry) (calls more : List RegisterCall) :
    registerAll server sources (calls ++ more) =
      registerAll server (registerAll server sources calls) more :=
  List.foldl_append

theorem registerAll_concat (sources : SourceRegistry) (calls : List RegisterCall)
    (call : RegisterCall) : registerAll server sources (calls ++ [call]) =
      (registerSource server (registerAll server sources calls) call).sources :=
  registerAll_append sources calls [call]

theorem registerAll_cap (calls : List RegisterCall) :
    (registerAll server .new calls).cap = registryLruCap := by
  refine List.foldlRecOn (motive := fun sources : SourceRegistry => sources.cap = registryLruCap)
    calls _ rfl ?_
  intro sources same call _
  rcases registerSource_sources server sources call with kept | ⟨_, _, entry, _, _, written⟩
  · rw [kept, same]
  · rw [written]
    exact same

/-- Every entry of the registry is well declared. -/
def DeclaredSources (sources : SourceRegistry) : Prop :=
  ∀ key entry, sources.peek key = some entry → entry.Declared

theorem registerSource_declared (declared : DeclaredSources sources) (call : RegisterCall) :
    DeclaredSources (registerSource server sources call).sources := by
  rcases registerSource_sources server sources call with same | written
  · rw [same]
    exact declared
  · obtain ⟨requested, kind, entry, extended, checked, same⟩ := written
    rw [same]
    intro key found after
    by_cases own : key = call.request.key
    · subst own
      rw [Lru.peek_put_self] at after
      cases after
      exact (candidateEntry_ok checked).1
    · exact declared key found (Lru.peek_put_other own after)

theorem registerAll_declared (calls : List RegisterCall) :
    DeclaredSources (registerAll server .new calls) := by
  refine List.foldlRecOn (motive := DeclaredSources) calls _ ?_ ?_
  · intro key entry found
    cases found
  · intro sources declared call _
    exact registerSource_declared declared call

/-- What one call leaves of a source extends what was there. -/
theorem registerSource_extends (declared : DeclaredSources sources) {call : RegisterCall}
    {key : SourcePolicyKey} (noPolicy : server.adminPolicies.lookup key = none)
    {old new : SourceEntry} (before : sources.peek key = some old)
    (after : (registerSource server sources call).sources.peek key = some new) :
    new.Extends old := by
  rcases registerSource_sources server sources call with same | written
  · rw [same, before] at after
    cases after
    exact .refl old
  · obtain ⟨requested, kind, entry, extended, checked, same⟩ := written
    rw [same] at after
    by_cases own : key = call.request.key
    · subst own
      rw [Lru.peek_put_self] at after
      cases after
      exact (candidateEntry_ok checked).2 noPolicy old before (declared _ old before)
    · rw [Lru.peek_put_other own after] at before
      cases before
      exact .refl _

/-- **Registration is monotone while a source stays registered.** What later calls leave of a
source without a policy extends what it registered, as long as it is not pushed out; a call
that fails before its audit row leaves the registry as it was; and only a new source pushes one
out, the least recently used one of a full registry. -/
theorem registerAll_extends (server : SourceAuthority) (before : List RegisterCall) :
    (∀ (key : SourcePolicyKey) (old : SourceEntry) (later : List RegisterCall),
      server.adminPolicies.lookup key = none →
      (registerAll server .new before).peek key = some old →
      (∀ part, part <+: later → (registerAll server .new (before ++ part)).peek key ≠ none) →
      ∃ entry, (registerAll server .new (before ++ later)).peek key = some entry ∧
        entry.Extends old) ∧
    (∀ (call : RegisterCall) (status : Status),
      (registerSource server (registerAll server .new before) call).reply = .error status →
      (registerSource server (registerAll server .new before) call).audit = none →
      (registerSource server (registerAll server .new before) call).sources =
        registerAll server .new before) ∧
    ∀ (key : SourcePolicyKey) (old : SourceEntry) (call : RegisterCall),
      (registerAll server .new before).peek key = some old →
      (registerAll server .new (before ++ [call])).peek key = none →
      (registerAll server .new before).peek call.request.key = none ∧
        (registerAll server .new before).entries.length = registryLruCap ∧
        (registerAll server .new before).entries.getLast? = some (key, old) := by
  refine ⟨?_, ?_, ?_⟩
  · intro key old later noPolicy registered resident
    induction later using List.reverseRecOn with
    | nil => exact ⟨old, by rwa [List.append_nil], .refl old⟩
    | append_singleton later call ih =>
        obtain ⟨entry, found, extends₁⟩ := ih fun part isPart =>
          resident part (isPart.trans (List.prefix_append _ _))
        obtain ⟨last, after⟩ := Option.ne_none_iff_exists'.mp (resident _ (List.prefix_refl _))
        refine ⟨last, after, ?_⟩
        rw [← List.append_assoc, registerAll_concat] at after
        exact (registerSource_extends (registerAll_declared _) noPolicy found after).trans extends₁
  · intro call status failed unaudited
    exact registerSource_failed failed unaudited
  · intro key old call found gone
    rw [registerAll_concat] at gone
    rcases registerSource_sources server (registerAll server .new before) call with same | written
    · rw [same, found] at gone
      cases gone
    · obtain ⟨requested, kind, entry, extended, checked, same⟩ := written
      rw [same] at gone
      obtain ⟨fresh, full, last⟩ := Lru.full_of_put found gone
      exact ⟨fresh, full.trans (registerAll_cap _), last⟩

end Keeps

/-! ## A registry that is too small -/

/-- A server on which every signed producer may register. -/
def openAuthority : SourceAuthority where
  defaultProducerKey := some (.fill 32 0)
  orgGuard := none
  sourceRegistryError := false
  adminPolicies := ∅
  requireAdminPolicy := false
  requireRequestPrincipal := false
  storeFingerprint := .fill 32 0
  outside := ⟨fun _ _ => none, fun text => text⟩
  blake3 := fun _ => .fill 32 0
  sha256 := fun _ => .fill 32 0
  hmac := fun _ _ => [1]
  encodeRegistration := fun _ => []

/-- A session that is registered under a ceiling. -/
def sessionCall (uri : String) (ceiling : ℤ) : RegisterCall where
  principal := none
  request := ⟨"acme", uri, "agent", ceiling, "session", some ⟨[1], none⟩, 1, none, none⟩
  now := 0
  persisted := true
  audited := true

def sessionKey (uri : String) : SourcePolicyKey := ("acme", uri, "agent")

def sessionEntry (ceiling : Visibility) : SourceEntry :=
  ⟨ceiling, .codingAgent, "session", none, none⟩

/-- A new session is registered as it asks. -/
theorem registerSource_session {uri : String} (fresh : sources.peek (sessionKey uri) = none)
    (ceiling : ℤ) (label : Visibility) (isLabel : visFromI32 ceiling = .ok label) :
    (registerSource openAuthority sources (sessionCall uri ceiling)).sources =
      sources.put (sessionKey uri) (sessionEntry label) := by
  have asked : declared openAuthority none (sessionCall uri ceiling).request =
      .ok (label, .codingAgent) := by
    simp only [declared, bind_eq_ok_iff, mapError_ok_iff]
    exact ⟨none, rfl, .fill 32 0, rfl, (), rfl, (), rfl, (), rfl, (), rfl, label, isLabel, (), rfl,
      .codingAgent, rfl, (), rfl, rfl⟩
  have written : registration openAuthority sources (sessionCall uri ceiling) =
      .ok (sessionEntry label, false) := by
    have entry : candidateEntry openAuthority none label .codingAgent
        (sessionCall uri ceiling).request = .ok (sessionEntry label, false) := rfl
    rw [← fresh] at entry
    exact bind_eq_ok_iff.mpr ⟨_, asked, bind_eq_ok_iff.mpr ⟨_, entry, rfl⟩⟩
  rw [registerSource, written]
  rfl

theorem peek_put_session {uri other : String} (apart : other ≠ uri)
    (fresh : sources.peek (sessionKey other) = none) (entry : SourceEntry) :
    (sources.put (sessionKey uri) entry).peek (sessionKey other) = none := by
  by_contra present
  obtain ⟨found, after⟩ := Option.ne_none_iff_exists'.mp present
  have keys : sessionKey other ≠ sessionKey uri :=
    fun same => apart (congrArg (·.2.1) same)
  rw [Lru.peek_put_other keys after] at fresh
  cases fresh

/-- New sessions are registered one after the other. -/
theorem registerAll_sessions {uris : List String} (distinct : uris.Nodup)
    (sources : SourceRegistry) (fresh : ∀ uri ∈ uris, sources.peek (sessionKey uri) = none) :
    registerAll openAuthority sources (uris.map (sessionCall · 0)) =
      sources.putAll (uris.map fun uri => (sessionKey uri, sessionEntry .private)) := by
  induction uris generalizing sources with
  | nil => rfl
  | cons uri uris ih =>
      obtain ⟨first, rest⟩ := List.nodup_cons.mp distinct
      have written := registerSource_session (fresh uri List.mem_cons_self) 0 .private rfl
      have later := ih rest (sources.put (sessionKey uri) (sessionEntry .private)) ?_
      · refine Eq.trans ?_ later
        rw [← written]
        rfl
      · intro other member
        have apart : other ≠ uri := fun same => first (same ▸ member)
        exact peek_put_session apart (fresh other (List.mem_cons_of_mem _ member)) _

/-- As many sessions as the registry has room for. -/
def crowd : List String :=
  (List.range registryLruCap).map fun n => String.ofList (List.replicate n 'a')

theorem crowd_nodup : crowd.Nodup := by
  refine List.Nodup.map ?_ List.nodup_range
  intro m n same
  have lengths := congrArg String.length same
  simpa using lengths

theorem first_not_mem_crowd : "first" ∉ crowd := by
  intro member
  obtain ⟨n, -, same⟩ := List.mem_map.mp member
  have letters : 'f' ∈ List.replicate n 'a' := by
    rw [← String.toList_ofList (l := List.replicate n 'a'), same]
    decide
  exact absurd (List.eq_of_mem_replicate letters) (by decide)

/-- A source registers again under the ceiling it registered. -/
theorem registerAll_extends_twice :
    ∃ entry, (registerAll openAuthority .new
      ([sessionCall "first" 0] ++ [sessionCall "first" 3])).peek (sessionKey "first") =
        some entry ∧ entry.Extends (sessionEntry .private) := by
  refine (registerAll_extends openAuthority [sessionCall "first" 0]).1 (sessionKey "first")
    (sessionEntry .private) [sessionCall "first" 3] rfl ?_ ?_
  · decide +kernel
  · intro part isPart
    have parts : ∀ part ∈ [sessionCall "first" 3].inits,
        ((registerAll openAuthority .new ([sessionCall "first" 0] ++ part)).peek
          (sessionKey "first")).isSome := by decide +kernel
    exact Option.isSome_iff_ne_none.mp (parts part ((List.mem_inits _ _).mpr isPart))

/-- A source that was pushed out registers under another ceiling. -/
theorem not_registerAll_extends :
    ¬ ∀ (server : SourceAuthority) (before later : List RegisterCall) (key : SourcePolicyKey)
      (old entry : SourceEntry), server.adminPolicies.lookup key = none →
      (registerAll server .new before).peek key = some old →
      (registerAll server .new (before ++ later)).peek key = some entry → entry.Extends old := by
  intro always
  have first : registerAll openAuthority .new [sessionCall "first" 0] =
      SourceRegistry.new.put (sessionKey "first") (sessionEntry .private) :=
    registerSource_session rfl 0 .private rfl
  have fresh : ∀ uri ∈ crowd, (SourceRegistry.new.put (sessionKey "first")
      (sessionEntry .private)).peek (sessionKey uri) = none := by
    intro uri member
    have apart : uri ≠ "first" := fun same => first_not_mem_crowd (same ▸ member)
    exact peek_put_session apart rfl _
  -- The crowd pushes the first source out.
  have crowded : registerAll openAuthority .new
      ([sessionCall "first" 0] ++ crowd.map (sessionCall · 0)) =
      (SourceRegistry.new.put (sessionKey "first") (sessionEntry .private)).putAll
        (crowd.map fun uri => (sessionKey uri, sessionEntry .private)) := by
    rw [← registerAll_sessions crowd_nodup _ fresh, registerAll_append, first]
  have keys : (crowd.map fun uri => (sessionKey uri, sessionEntry .private)).map Prod.fst =
      crowd.map sessionKey := List.map_map
  have injective : Function.Injective sessionKey := fun _ _ same => congrArg (·.2.1) same
  have gone : (registerAll openAuthority .new
      ([sessionCall "first" 0] ++ crowd.map (sessionCall · 0))).peek (sessionKey "first") =
        none := by
    rw [crowded]
    refine Lru.peek_putAll _ ?_ ?_ ?_ ?_
    · rw [keys]
      exact crowd_nodup.map injective
    · intro entry member
      obtain ⟨uri, listed, rfl⟩ := List.mem_map.mp member
      exact fresh uri listed
    · rw [List.length_map, crowd, List.length_map, List.length_range]
      exact le_rfl
    · rw [keys, List.mem_map_of_injective injective]
      exact first_not_mem_crowd
  have again : (registerAll openAuthority .new ([sessionCall "first" 0] ++
      (crowd.map (sessionCall · 0) ++ [sessionCall "first" 3]))).peek (sessionKey "first") =
        some (sessionEntry .org) := by
    rw [← List.append_assoc, registerAll_concat, registerSource_session gone 3 .org rfl]
    exact Lru.peek_put_self _ _ _
  have widened := always openAuthority _ _ (sessionKey "first") (sessionEntry .private)
    (sessionEntry .org) rfl (by rw [first]; exact Lru.peek_put_self _ _ _) again
  exact absurd widened.ceiling (by decide)

end Exocortex
