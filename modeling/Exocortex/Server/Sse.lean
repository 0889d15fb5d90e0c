import Exocortex.Cache.Reseed
import Exocortex.Cluster.ChangeLog

/-!
# The change feed as a subscriber gets it

A node signs each change as an envelope that names a row. On its way to a subscriber the envelope
is hydrated: the row is read, and the envelope goes on as a snapshot of the row, as it is, or, for
a subscriber that may not read the row, as an advance that carries a number only. The row behind an
event is read once and remembered for every subscriber, under the number, the kind and the identity
of the event (`SharedEventHydration`). A new subscriber is first given all the live rows that it may
read (`graphReseedEnvelopeAt`).

The hash of a signature and the protobuf and JSON texts stand for the libraries that compute them.
-/

namespace Exocortex

open Library

/-! ## The wire -/

/-- The sixteen digits of hexadecimal text. -/
def hexDigits : List UInt8 := [48, 49, 50, 51, 52, 53, 54, 55, 56, 57, 97, 98, 99, 100, 101, 102]

def hexDigitOf (nibble : UInt8) : UInt8 := hexDigits.getD nibble.toNat 0

def hexOfByte (byte : UInt8) : List UInt8 := [hexDigitOf (byte >>> 4), hexDigitOf (byte &&& 0xF)]

def hex (id : Bytes 16) : List UInt8 := id.bytes.flatMap hexOfByte

/-- The value of a hexadecimal digit, of either case. -/
def toDigit (char : UInt8) : Option UInt8 :=
  if 48 ≤ char ∧ char ≤ 57 then some (char - 48)
  else if 97 ≤ char ∧ char ≤ 102 then some (char - 87)
  else if 65 ≤ char ∧ char ≤ 70 then some (char - 55)
  else none

/-- The bytes of a hexadecimal text. -/
def unhex : List UInt8 → Option (List UInt8)
  | hi :: lo :: rest => do
      let hi ← toDigit hi
      let lo ← toDigit lo
      let bytes ← unhex rest
      return ((hi <<< 4) ||| lo) :: bytes
  | _ => some []

theorem length_unhex {raw bytes : List UInt8} (decoded : unhex raw = some bytes) :
    bytes.length = raw.length / 2 := by
  induction raw using unhex.induct generalizing bytes with
  | case1 hi lo rest ih =>
      simp only [unhex, Option.bind_eq_bind, Option.bind_eq_some_iff, Option.pure_def,
        Option.some.injEq] at decoded
      obtain ⟨_, _, _, _, others, tail, rfl⟩ := decoded
      rw [List.length_cons, ih tail, List.length_cons, List.length_cons]
      omega
  | case2 raw short =>
      rw [unhex, Option.some.injEq] at decoded
      · subst decoded
        rcases raw with _ | ⟨first, _ | ⟨second, rest⟩⟩
        · rfl
        · simp
        · exact absurd rfl (short first second rest)
      · exact short

/-- An identity of a message: sixteen bytes, or their hexadecimal text. -/
def decodeId (raw : List UInt8) : Except StorageError (Bytes 16) :=
  if size : raw.length = 16 then .ok ⟨raw, size⟩
  else if width : raw.length = 32 then
    match decoded : unhex raw with
    | some bytes => .ok ⟨bytes, by rw [length_unhex decoded, width]⟩
    | none => .error (.backend "SSE invalidation id is not hexadecimal")
  else .error (.backend "SSE invalidation id has invalid width")

/-- What changed, as a message tells it. -/
inductive WireKind where
  | memoryUpserted (id snapshotJson : List UInt8)
  | memoryDeleted (id : List UInt8)
  | relationshipUpserted (id source target : List UInt8) (kind : UInt32)
      (snapshotJson : List UInt8)
  | relationshipDeleted (id : List UInt8)
  | visibilityAdvance
  | graphReseed (snapshotJson : List UInt8)
  | discoveryAvailable (recordJson : List UInt8)
deriving DecidableEq

/-- The JSON texts of the rows that messages carry. -/
structure FeedCodec where
  memoryJson : Memory → List UInt8
  relationshipJson : Relationship → List UInt8
  discoveryJson : DiscoveryRecord → List UInt8
  discoveryOfJson : List UInt8 → Except String DiscoveryRecord
  snapshotJson : List Memory → List Relationship → List UInt8

/-- The message of a change. -/
def invalidationToPb (json : FeedCodec) : Invalidation → WireInvalidation WireKind
  | .memoryUpserted id lsn => ⟨some (.memoryUpserted (hex id.raw) []), .ofNat lsn⟩
  | .memoryDeleted id lsn => ⟨some (.memoryDeleted (hex id.raw)), .ofNat lsn⟩
  | .relationshipUpserted id source target kind lsn =>
      ⟨some (.relationshipUpserted (hex id.raw) (hex source.raw) (hex target.raw) kind.raw []),
        .ofNat lsn⟩
  | .relationshipDeleted id lsn => ⟨some (.relationshipDeleted (hex id.raw)), .ofNat lsn⟩
  | .visibilityAdvance lsn => ⟨some .visibilityAdvance, .ofNat lsn⟩
  | .memorySnapshotUpserted memory lsn =>
      ⟨some (.memoryUpserted (hex memory.id.raw) (json.memoryJson memory)), .ofNat lsn⟩
  | .relationshipSnapshotUpserted relationship lsn =>
      ⟨some (.relationshipUpserted (hex relationship.id.raw) (hex relationship.source.raw)
        (hex relationship.target.raw) relationship.kind.raw (json.relationshipJson relationship)),
        .ofNat lsn⟩
  | .graphReseed snapshotJson lsn => ⟨some (.graphReseed snapshotJson), .ofNat lsn⟩
  | .discoveryAvailable record lsn =>
      ⟨some (.discoveryAvailable (json.discoveryJson record)), .ofNat lsn⟩

/-- The two digits of a byte are read as this byte. -/
theorem digits_of_byte (byte : UInt8) :
    toDigit (hexDigitOf (byte >>> 4)) = some (byte >>> 4) ∧
      toDigit (hexDigitOf (byte &&& 0xF)) = some (byte &&& 0xF) ∧
      ((byte >>> 4) <<< 4) ||| (byte &&& 0xF) = byte := by
  have every : ∀ value : Fin 256, let byte := UInt8.ofFin value
      toDigit (hexDigitOf (byte >>> 4)) = some (byte >>> 4) ∧
        toDigit (hexDigitOf (byte &&& 0xF)) = some (byte &&& 0xF) ∧
        ((byte >>> 4) <<< 4) ||| (byte &&& 0xF) = byte := by
    decide +kernel
  exact every byte.toFin

/-- The text of some bytes is read as these bytes. -/
theorem unhex_flatMap (bytes : List UInt8) : unhex (bytes.flatMap hexOfByte) = some bytes := by
  induction bytes with
  | nil => rfl
  | cons byte bytes ih =>
      obtain ⟨high, low, whole⟩ := digits_of_byte byte
      rw [List.flatMap_cons, hexOfByte, List.cons_append, List.cons_append, List.nil_append, unhex,
        high, low, ih]
      simp only [Option.bind_eq_bind, Option.bind_some, Option.pure_def, whole]

theorem length_hex (id : Bytes 16) : (hex id).length = 32 := by
  have widths : ∀ bytes : List UInt8, (bytes.flatMap hexOfByte).length = 2 * bytes.length := by
    intro bytes
    induction bytes with
    | nil => rfl
    | cons byte bytes ih =>
        rw [List.flatMap_cons, List.length_append, ih, List.length_cons, hexOfByte]
        simp only [List.length_cons, List.length_nil]
        omega
  rw [hex, widths, id.size]

/-! ## Signed envelopes -/

/-- A node of the cluster: who it is, and the libraries it signs and encodes messages with. -/
structure ClusterNode where
  nodeId : String
  fp : Bytes 32
  hmacKey : Bytes 32
  hmac : Bytes 32 → List UInt8 → List UInt8
  encodeEnvelope : InvalidationEnvelope WireKind → List UInt8
  json : FeedCodec

def wireVersion : UInt32 := 1

namespace ClusterNode

variable (node : ClusterNode)

/-- The signature covers everything but itself. -/
def signature (key : Bytes 32) (env : InvalidationEnvelope WireKind) : List UInt8 :=
  node.hmac key (node.encodeEnvelope { env with hmac := [] })

def signInvalidationEnvelope (key : Bytes 32) (env : InvalidationEnvelope WireKind) :
    InvalidationEnvelope WireKind :=
  { env with hmac := node.signature key env }

/-- The signed envelope of a change. -/
def envelope (inv : Invalidation) : InvalidationEnvelope WireKind :=
  node.signInvalidationEnvelope node.hmacKey {
    wireVersion := wireVersion
    ontologyFingerprint := node.fp.bytes
    emitterNodeId := node.nodeId
    inv := some (invalidationToPb node.json inv)
    hmac := [] }

@[simp] theorem envelope_inv (inv : Invalidation) :
    (node.envelope inv).inv = some (invalidationToPb node.json inv) := rfl

end ClusterNode

/-! ## Hydration -/

/-- An event of the feed: its number, its kind, and the identity of its row. -/
structure HydrationKey where
  lsn : UInt64
  kind : UInt8
  id : List UInt8
deriving DecidableEq

/-- Keys compare by number, kind and identity. -/
def HydrationKey.le (left right : HydrationKey) : Bool :=
  if left.lsn ≠ right.lsn then left.lsn < right.lsn
  else if left.kind ≠ right.kind then left.kind < right.kind
  else !decide (right.id < left.id)

/-- The row behind an event; an edge or a discovery comes with its ends. -/
inductive HydratedEvent where
  | memory (row : Option Memory)
  | relationship (row : Option (Relationship × List Memory))
  | discovery (row : Option (DiscoveryRecord × List Memory))
deriving DecidableEq

/-- The number that keys give to a kind of event. -/
def HydratedEvent.kind : HydratedEvent → UInt8
  | .memory _ => 1
  | .relationship _ => 2
  | .discovery _ => 3

def InMemoryStorage.getDiscovery (s : InMemoryStorage) (discoveryId : String) :
    Option DiscoveryRecord :=
  s.discoveries.lookup discoveryId

/-- The bytes of a text. -/
def utf8Bytes (text : String) : List UInt8 := text.toUTF8.data.toList

/-- Read the row behind an event. -/
def hydrateEvent (s : InMemoryStorage) (key : HydrationKey) : Except StorageError HydratedEvent :=
  if key.kind = 1 then
    (decodeId key.id).map fun id => .memory (s.getMemory ⟨id⟩)
  else if key.kind = 2 then
    (decodeId key.id).map fun id => .relationship ((s.getRelationship ⟨id⟩).map
      fun relationship =>
        (relationship, s.getMemories [relationship.source, relationship.target]))
  else if key.kind = 3 then
    match String.fromUTF8? ⟨key.id.toArray⟩ with
    | none => .error (.backend "discovery id is not UTF-8")
    | some discoveryId => .ok (.discovery ((s.getDiscovery discoveryId).map fun record =>
        (record, s.getMemories [record.source, record.target])))
  else .error (.backend "unsupported SSE hydration event kind")

theorem hydrateEvent_kind {s : InMemoryStorage} {key : HydrationKey} {event : HydratedEvent}
    (loaded : hydrateEvent s key = .ok event) : event.kind = key.kind := by
  rw [hydrateEvent] at loaded
  split at loaded
  · next isMemory =>
      cases read : decodeId key.id <;> rw [read] at loaded <;> cases loaded
      exact isMemory.symm
  · split at loaded
    · next isRelationship =>
        cases read : decodeId key.id <;> rw [read] at loaded <;> cases loaded
        exact isRelationship.symm
    · split at loaded
      · next isDiscovery =>
          split at loaded <;> cases loaded
          exact isDiscovery.symm
      · cases loaded

/-- The text of an error. -/
def StorageError.message : StorageError → String
  | .backend detail => "backend error: " ++ detail
  | .permissionDenied => "permission denied"
  | .fingerprintMismatch storage runtime =>
      "ontology fingerprint mismatch: storage=" ++ toString storage.bytes ++ " runtime=" ++
        toString runtime.bytes
  | .corruptMetadata key detail => "corrupt storage metadata `" ++ key ++ "`: " ++ detail
  | .fencedWriteRejected leaseEpoch =>
      "fenced write rejected: lease epoch " ++ toString leaseEpoch ++ " is stale"
  | .proposalNotFound => "discovery proposal not found"
  | .proposalMismatch => "discovery proposal scope or fields do not match"

/-- The rows behind the latest events, each under a key of its own kind. -/
structure SharedEventHydration where
  entries : Table HydrationKey HydratedEvent
  typed : ∀ key event, entries.lookup key = some event → event.kind = key.kind

namespace SharedEventHydration

/-- The events that are remembered at once. -/
def maxSharedEvents : ℕ := 1024

def empty : SharedEventHydration := ⟨∅, fun _ _ found => by cases found⟩

variable (hydration : SharedEventHydration)

/-- Forget the event of the least key, when there is no room. -/
def evict : SharedEventHydration :=
  match hydration.entries.sortedEntries HydrationKey.le with
  | [] => hydration
  | oldest :: _ =>
      if hydration.entries.entries.length < maxSharedEvents then hydration
      else {
        entries := hydration.entries.erase oldest.1
        typed := fun key event found => hydration.typed key event (by
          rw [Table.lookup_erase_eq] at found
          split at found
          · cases found
          · exact found) }

/-- Remember the row behind an event. -/
def remember (key : HydrationKey) (event : HydratedEvent) (kind : event.kind = key.kind) :
    SharedEventHydration where
  entries := hydration.entries.insert key event
  typed := fun other stored found => by
    rw [Table.lookup_insert_eq] at found
    split at found
    · next same =>
        cases found
        rw [kind, same]
    · exact hydration.typed other stored found

/-- The row behind an event, as remembered or as read now. A failure is not remembered. -/
def load (s : InMemoryStorage) (key : HydrationKey) :
    Except StorageError HydratedEvent × SharedEventHydration :=
  match hydration.entries.lookup key with
  | some event => (.ok event, hydration)
  | none =>
      match loaded : hydrateEvent s key with
      | .ok event => (.ok event, hydration.evict.remember key event (hydrateEvent_kind loaded))
      | .error error => (.error (.backend error.message), hydration.evict)

end SharedEventHydration

/-! ## What a subscriber is given -/

def discoveryVisible (record : DiscoveryRecord) (endpoints : List Memory)
    (vc : VisibilityContext) : Bool :=
  if record.region.org ≠ "*" ∧ record.region.org ≠ vc.orgId then false
  else if record.region.project ≠ "*" ∧ !vc.projectIds.contains record.region.project then false
  else
    match endpoints.find? (·.id = record.source), endpoints.find? (·.id = record.target) with
    | some source, some target => memoryVisible source vc && memoryVisible target vc
    | _, _ => false

def relationshipVisibleWithEndpoints (relationship : Relationship) (endpoints : List Memory)
    (vc : VisibilityContext) : Bool :=
  match endpoints.find? (·.id = relationship.source),
    endpoints.find? (·.id = relationship.target) with
  | some source, some target => relationshipVisible relationship source target vc
  | _, _ => false

/-- The row without its embedding, which stays in the store. -/
def Memory.stripped (memory : Memory) : Memory := { memory with embedding := none }

section Prepare

variable (node : ClusterNode) (s : InMemoryStorage) (hydration : SharedEventHydration)
  (env : InvalidationEnvelope WireKind) (visibility : Option VisibilityContext)

/-- Load the row behind an event, and go on with it. -/
def withHydrated (key : HydrationKey)
    (next : HydratedEvent → Except StorageError (InvalidationEnvelope WireKind)) :
    Except StorageError (InvalidationEnvelope WireKind) × SharedEventHydration :=
  ((hydration.load s key).1.bind next, (hydration.load s key).2)

/-- An envelope as a subscriber gets it: a snapshot of the row, the envelope itself, or an advance
in the place of a row that the subscriber may not read. -/
def prepareForSubscriber :
    Except StorageError (InvalidationEnvelope WireKind) × SharedEventHydration :=
  match env.inv with
  | none => (.error (.backend "SSE envelope missing invalidation"), hydration)
  | some ⟨kind, lsn⟩ =>
      let advance := node.envelope (.visibilityAdvance lsn.toNat)
      let mismatch := .error (.backend "SSE hydration kind mismatch")
      match kind with
      | some (.memoryUpserted id _) => withHydrated s hydration ⟨lsn, 1, id⟩ fun
          | .memory row =>
              match row.filter fun memory => visibility.all (memoryVisible memory ·) with
              | some memory =>
                  .ok (node.envelope (.memorySnapshotUpserted memory.stripped lsn.toNat))
              | none => .ok advance
          | _ => mismatch
      | some (.memoryDeleted id) => withHydrated s hydration ⟨lsn, 1, id⟩ fun
          | .memory row =>
              if visibility.all fun vc => row.any (memoryVisible · vc) then .ok env
              else .ok advance
          | _ => mismatch
      | some (.relationshipUpserted id _ _ _ _) => withHydrated s hydration ⟨lsn, 2, id⟩ fun
          | .relationship row =>
              match row.filter fun found => visibility.all
                (relationshipVisibleWithEndpoints found.1 found.2 ·) with
              | some found =>
                  .ok (node.envelope (.relationshipSnapshotUpserted found.1 lsn.toNat))
              | none => .ok advance
          | _ => mismatch
      | some (.relationshipDeleted id) => withHydrated s hydration ⟨lsn, 2, id⟩ fun
          | .relationship row =>
              if visibility.all fun vc => row.any fun found =>
                relationshipVisibleWithEndpoints found.1 found.2 vc then .ok env
              else .ok advance
          | _ => mismatch
      | some (.discoveryAvailable recordJson) =>
          match node.json.discoveryOfJson recordJson with
          | .error error => (.error (.backend ("SSE discovery record malformed: " ++ error)),
              hydration)
          | .ok encoded => withHydrated s hydration ⟨lsn, 3, utf8Bytes encoded.discoveryId⟩ fun
              | .discovery row =>
                  if row.any fun found => found.1.eq encoded &&
                    visibility.all (discoveryVisible found.1 found.2 ·) then .ok env
                  else .ok advance
              | _ => mismatch
      | some .visibilityAdvance | some (.graphReseed _) => (.ok env, hydration)
      | none => (.error (.backend "SSE invalidation missing event kind"), hydration)

end Prepare

/-! ## The seed of a subscriber -/

def maxReseedRows : ℕ := 50000

def maxReseedBytes : ℕ := 32 * 1024 * 1024

def ensureReseedBudget (rows bytes : ℕ) : Except StorageError Unit :=
  if maxReseedRows < rows then
    .error (.backend ("SSE hydration exceeds " ++ toString maxReseedRows ++ " rows"))
  else if maxReseedBytes < bytes then
    .error (.backend ("SSE hydration exceeds " ++ toString maxReseedBytes ++ " bytes"))
  else .ok ()

/-- What a scan has kept, with its budget. -/
structure ReseedScan where
  memories : List Memory
  relationships : List Relationship
  retainedJsonBytes : ℕ
  rowsSeen : ℕ

section Reseed

variable (node : ClusterNode) (visibility : Option VisibilityContext) (now : DateTime)

/-- Keep a memory that is live and visible, without its embedding. -/
def scanMemory (scan : ReseedScan) (memory : Memory) : Except StorageError ReseedScan := do
  let rows := scan.rowsSeen + 1
  ensureReseedBudget rows scan.retainedJsonBytes
  if memory.live now && visibility.all (memoryVisible memory ·) then
    let memory := memory.stripped
    let bytes := scan.retainedJsonBytes + (node.json.memoryJson memory).length + 1
    ensureReseedBudget rows bytes
    return { scan with
      memories := scan.memories ++ [memory], retainedJsonBytes := bytes, rowsSeen := rows }
  else return { scan with rowsSeen := rows }

/-- An edge is read between the memories that were kept. -/
def visibleAmong (memories : List Memory) (relationship : Relationship) : Bool :=
  visibility.all fun vc =>
    match lastWith Memory.id relationship.source memories,
      lastWith Memory.id relationship.target memories with
    | some source, some target => relationshipVisible relationship source target vc
    | _, _ => false

/-- Keep a relationship that is live, and visible between memories that were kept. -/
def scanRelationship (scan : ReseedScan) (relationship : Relationship) :
    Except StorageError ReseedScan := do
  let rows := scan.rowsSeen + 1
  ensureReseedBudget rows scan.retainedJsonBytes
  if relationship.live now && visibleAmong visibility scan.memories relationship then
    let bytes := scan.retainedJsonBytes + (node.json.relationshipJson relationship).length + 1
    ensureReseedBudget rows bytes
    return { scan with
      relationships := scan.relationships ++ [relationship], retainedJsonBytes := bytes,
      rowsSeen := rows }
  else return { scan with rowsSeen := rows }

/-- All the live rows that a subscriber may read, at a frontier. The streams list the rows of the
store in an order of their own. -/
def graphReseedEnvelopeAt (memoryRows : List Memory) (relationshipRows : List Relationship)
    (frontier : ℕ) : Except StorageError (InvalidationEnvelope WireKind) := do
  let scan ← memoryRows.foldlM (scanMemory node visibility now) ⟨[], [], 64, 0⟩
  let scan ← relationshipRows.foldlM (scanRelationship node visibility now) scan
  let snapshotJson := node.json.snapshotJson scan.memories scan.relationships
  ensureReseedBudget 0 snapshotJson.length
  return node.envelope (.graphReseed snapshotJson frontier)

end Reseed

end Exocortex
