import Exocortex.Cluster.Transport
import Exocortex.Server.Sse

/-!
# Reading an event of the feed

`decodeEvent` is the client's reading of one event: it undoes the text and the message, checks
the envelope against its own key and fingerprint, and takes the change out of it. A row must
agree with the identities that its envelope names. The client keeps no embedding.

A signed change is read back as it was sent, but for the embedding, unless it is an upsert without
its row or its message is above the bound of the feed (`invalidation_survives`).
-/

namespace Exocortex

open Library

inductive SyncError where
  | badPayload (text : String)
  | rejected (text : String)
deriving DecidableEq

/-- What an event of the feed stands for. -/
inductive DecodedEvent where
  | change (inv : Invalidation) (lsn : UInt64)
  | reseed (memories : List Memory) (relationships : List Relationship) (lsn : UInt64)
deriving DecidableEq

/-- The libraries a client reads messages and rows with. -/
structure FeedReader where
  decodeEnvelope : List UInt8 → Except String (InvalidationEnvelope WireKind)
  memoryOfJson : List UInt8 → Except String Memory
  relationshipOfJson : List UInt8 → Except String Relationship
  discoveryOfJson : List UInt8 → Except String DiscoveryRecord
  snapshotOfJson : List UInt8 → Except String (List Memory × List Relationship)

/-! ## Limits -/

def maxSseReseedJsonBytes : ℕ := 32 * 1024 * 1024

def maxSseEnvelopeBytes : ℕ := maxSseReseedJsonBytes + 4096

def maxSseEventDataBytes : ℕ := (maxSseEnvelopeBytes + 2) / 3 * 4

/-! ## Checks of the envelope -/

/-- A peer of another ontology. -/
structure PeerMismatch where
  offered : Bytes 32
  ours : Bytes 32

def PeerMismatch.message (mismatch : PeerMismatch) : String :=
  "peer ontology fingerprint " ++ mismatch.offered.digestHex ++ " does not match ours " ++
    mismatch.ours.digestHex ++
    " — cluster and SSE boundaries require exact compatibility-fingerprint equality"

/-- A peer is admitted with the same fingerprint only. -/
def admitPeer (offered : List UInt8) (ours : Bytes 32) : Except PeerMismatch Unit :=
  if size : offered.length = 32 then
    if (⟨offered, size⟩ : Bytes 32) = ours then .ok () else .error ⟨⟨offered, size⟩, ours⟩
  else .error ⟨.fill 32 0, ours⟩

section Decode

variable (hmac : Bytes 32 → List UInt8 → List UInt8)
  (encodeEnvelope : InvalidationEnvelope WireKind → List UInt8) (reader : FeedReader)

def verifyInvalidationEnvelope (key : Bytes 32) (env : InvalidationEnvelope WireKind) : Bool :=
  !env.hmac.isEmpty && decide (hmac key (encodeEnvelope { env with hmac := [] }) = env.hmac)

def verifyEnvelope (key fingerprint : Bytes 32) (env : InvalidationEnvelope WireKind) :
    Except SyncError Unit :=
  if env.wireVersion ≠ wireVersion then .error (.rejected "wire version mismatch")
  else
    match admitPeer env.ontologyFingerprint fingerprint with
    | .error mismatch => .error (.rejected mismatch.message)
    | .ok _ =>
        if verifyInvalidationEnvelope hmac encodeEnvelope key env then .ok ()
        else .error (.rejected "hmac verification failed")

/-! ## The change -/

theorem length_unhex_of_wide {raw bytes : List UInt8} (width : raw.length = 32)
    (decoded : unhex raw = some bytes) : bytes.length = 16 := by
  rw [length_unhex decoded, width]

/-- An identity of a message: sixteen bytes, or their hexadecimal text. -/
def id16 (raw : List UInt8) : Except SyncError (Bytes 16) :=
  if size : raw.length = 16 then .ok ⟨raw, size⟩
  else if width : raw.length = 32 then
    match decoded : unhex raw with
    | some bytes => .ok ⟨bytes, length_unhex_of_wide width decoded⟩
    | none => .error (.badPayload "bad hex id")
  else .error (.badPayload "id not 16/32 bytes")

/-- Read a row, or fail with the name of what was to be read. -/
def parseRow {A : Type} (name : String) (parsed : Except String A) : Except SyncError A :=
  parsed.mapError fun error => .badPayload (name ++ ": " ++ error)

def identityMismatch {A : Type} : Except SyncError A :=
  .error (.badPayload "relationship snapshot identity mismatch")

/-- The change that a message tells, with the embeddings left out. -/
def decodeKind (lsn : UInt64) : WireKind → Except SyncError DecodedEvent
  | .memoryUpserted id snapshotJson => do
      let id ← id16 id
      let memory ← parseRow "memory snapshot" (reader.memoryOfJson snapshotJson)
      if memory.id ≠ ⟨id⟩ then .error (.badPayload "memory snapshot id mismatch")
      else .ok (.change (.memorySnapshotUpserted memory.stripped lsn.toNat) lsn)
  | .memoryDeleted id => do
      let id ← id16 id
      .ok (.change (.memoryDeleted ⟨id⟩ lsn.toNat) lsn)
  | .relationshipUpserted id source target kind snapshotJson => do
      let id ← id16 id
      let relationship ← parseRow "relationship snapshot" (reader.relationshipOfJson snapshotJson)
      if relationship.id ≠ ⟨id⟩ then identityMismatch
      else
        let source ← id16 source
        if relationship.source ≠ ⟨source⟩ then identityMismatch
        else
          let target ← id16 target
          if relationship.target ≠ ⟨target⟩ then identityMismatch
          else if relationship.kind ≠ ⟨kind⟩ then identityMismatch
          else .ok (.change (.relationshipSnapshotUpserted relationship lsn.toNat) lsn)
  | .relationshipDeleted id => do
      let id ← id16 id
      .ok (.change (.relationshipDeleted ⟨id⟩ lsn.toNat) lsn)
  | .visibilityAdvance => .ok (.change (.visibilityAdvance lsn.toNat) lsn)
  | .graphReseed snapshotJson => do
      let (memories, relationships) ←
        parseRow "graph snapshot" (reader.snapshotOfJson snapshotJson)
      .ok (.reseed (memories.map Memory.stripped) relationships lsn)
  | .discoveryAvailable recordJson => do
      let record ← parseRow "discovery record" (reader.discoveryOfJson recordJson)
      .ok (.change (.discoveryAvailable record lsn.toNat) lsn)

/-- One event of the feed. -/
def decodeEvent (key fingerprint : Bytes 32) (payload : List UInt8) :
    Except SyncError DecodedEvent :=
  match base64DecodeBounded payload maxSseEventDataBytes with
  | none => .error (.badPayload "base64 or encoded event size")
  | some raw => do
      let env ← (reader.decodeEnvelope raw).mapError SyncError.badPayload
      verifyEnvelope hmac encodeEnvelope key fingerprint env
      match env.inv with
      | none => .error (.badPayload "no inv")
      | some inv =>
          match inv.kind with
          | none => .error (.badPayload "no kind")
          | some kind => decodeKind reader inv.backendLsn kind

end Decode

/-! ## Identities -/

theorem id16_hex (id : Bytes 16) : id16 (hex id) = .ok id := by
  have decoded : unhex (hex id) = some id.bytes := unhex_flatMap id.bytes
  rw [id16, dif_neg (by rw [length_hex]; decide), dif_pos (length_hex id)]
  split
  · next bytes same =>
      rw [decoded, Option.some.injEq] at same
      subst same
      rfl
  · next none => rw [decoded] at none; cases none

theorem admitPeer_self (fp : Bytes 32) : admitPeer fp.bytes fp = .ok () := by
  rw [admitPeer, dif_pos fp.size, if_pos rfl]

/-! ## What is sent is read -/

/-- The change as the client keeps it: a row goes without its embedding. -/
def Invalidation.stripped : Invalidation → Invalidation
  | .memorySnapshotUpserted memory lsn => .memorySnapshotUpserted memory.stripped lsn
  | inv => inv

/-- An upsert that names a row and does not carry it. -/
def Invalidation.NamesRowOnly : Invalidation → Prop
  | .memoryUpserted .. | .relationshipUpserted .. => True
  | _ => False

/-- The text of a row that a change carries is read as this row, and no text is read as none. -/
def Invalidation.Legible (json : FeedCodec) (reader : FeedReader) : Invalidation → Prop
  | .memoryUpserted .. => ∃ error, reader.memoryOfJson [] = .error error
  | .relationshipUpserted .. => ∃ error, reader.relationshipOfJson [] = .error error
  | .memorySnapshotUpserted memory _ =>
      reader.memoryOfJson (json.memoryJson memory) = .ok memory
  | .relationshipSnapshotUpserted relationship _ =>
      reader.relationshipOfJson (json.relationshipJson relationship) = .ok relationship
  | .discoveryAvailable record _ =>
      reader.discoveryOfJson (json.discoveryJson record) = .ok record
  | .graphReseed snapshotJson _ => ∃ image, reader.snapshotOfJson snapshotJson = .ok image
  | .memoryDeleted .. | .relationshipDeleted .. | .visibilityAdvance _ => True

/-- An event tells a change: its kind, its identities, its number and its row, without the
embedding. For a whole graph it tells the rows of the image. -/
def Invalidation.ReadAs (reader : FeedReader) (event : DecodedEvent) : Invalidation → Prop
  | .graphReseed snapshotJson lsn => ∃ memories relationships,
      reader.snapshotOfJson snapshotJson = .ok (memories, relationships) ∧
        event = .reseed (memories.map Memory.stripped) relationships (.ofNat lsn)
  | inv => event = .change inv.stripped (.ofNat inv.lsnOf)

variable {node : ClusterNode} {reader : FeedReader} {key : Bytes 32} {inv : Invalidation}

/-- The message of a change that carries its row, or needs none, is read as the change. -/
theorem decodeKind_of_carried (small : inv.lsnOf < 2 ^ 64) (legible : inv.Legible node.json reader)
    (carries : ¬ inv.NamesRowOnly) :
    ∃ kind event, (invalidationToPb node.json inv).kind = some kind ∧
      decodeKind reader (invalidationToPb node.json inv).backendLsn kind = .ok event ∧
        inv.ReadAs reader event := by
  have number : (UInt64.ofNat inv.lsnOf).toNat = inv.lsnOf := UInt64.toNat_ofNat_of_lt' small
  cases inv with
  | memoryUpserted | relationshipUpserted => exact absurd trivial carries
  | graphReseed text lsn =>
      obtain ⟨⟨memories, relationships⟩, parsed⟩ := legible
      refine ⟨_, .reseed (memories.map Memory.stripped) relationships (.ofNat lsn), rfl, ?_,
        memories, relationships, parsed, rfl⟩
      simp [invalidationToPb, decodeKind, parseRow, parsed, bind, Except.bind, Except.mapError]
  | memoryDeleted | relationshipDeleted | visibilityAdvance =>
      refine ⟨_, _, rfl, ?_, rfl⟩
      simp only [Invalidation.lsnOf] at number
      simp [invalidationToPb, decodeKind, id16_hex, Invalidation.stripped, Invalidation.lsnOf,
        bind, Except.bind, number]
  | memorySnapshotUpserted | relationshipSnapshotUpserted | discoveryAvailable =>
      refine ⟨_, _, rfl, ?_, rfl⟩
      simp only [Invalidation.lsnOf] at number
      simp only [Invalidation.Legible] at legible
      simp [invalidationToPb, decodeKind, id16_hex, parseRow, legible, Invalidation.stripped,
        Invalidation.lsnOf, bind, Except.bind, Except.mapError, number]

/-- The message of an upsert without its row is refused. -/
theorem decodeKind_of_named (legible : inv.Legible node.json reader)
    (named : inv.NamesRowOnly) :
    ∃ kind error, (invalidationToPb node.json inv).kind = some kind ∧
      decodeKind reader (invalidationToPb node.json inv).backendLsn kind = .error error := by
  cases inv with
  | memoryUpserted id lsn =>
      obtain ⟨error, refused⟩ := legible
      refine ⟨_, .badPayload ("memory snapshot: " ++ error), rfl, ?_⟩
      simp [decodeKind, id16_hex, parseRow, refused, bind, Except.bind, Except.mapError]
  | relationshipUpserted id source target kind lsn =>
      obtain ⟨error, refused⟩ := legible
      refine ⟨_, .badPayload ("relationship snapshot: " ++ error), rfl, ?_⟩
      simp [decodeKind, id16_hex, parseRow, refused, bind, Except.bind, Except.mapError]
  | _ => exact named.elim

/-! ## Signed envelopes -/

/-- The envelope of a change, signed with a key. -/
def ClusterNode.signed (node : ClusterNode) (key : Bytes 32) (inv : Invalidation) :
    InvalidationEnvelope WireKind :=
  node.signInvalidationEnvelope key (node.envelope inv)

/-- The text of a signed change, as an event of the feed carries it. -/
def ClusterNode.payload (node : ClusterNode) (key : Bytes 32) (inv : Invalidation) : List UInt8 :=
  base64Encode (node.encodeEnvelope (node.signed key inv))

/-- The client's reading of an event, with the libraries of the node that signed it. -/
def ClusterNode.decodeEvent (node : ClusterNode) (reader : FeedReader) (key : Bytes 32)
    (payload : List UInt8) : Except SyncError DecodedEvent :=
  Exocortex.decodeEvent node.hmac node.encodeEnvelope reader key node.fp payload

/-- An envelope is admitted under the key and the fingerprint it was signed with. -/
theorem verifyEnvelope_signed (signs : (node.signed key inv).hmac ≠ []) :
    verifyEnvelope node.hmac node.encodeEnvelope key node.fp (node.signed key inv) = .ok () := by
  have verified : verifyInvalidationEnvelope node.hmac node.encodeEnvelope key
      (node.signed key inv) = true := by
    rw [verifyInvalidationEnvelope, Bool.and_eq_true, Bool.not_eq_true', List.isEmpty_eq_false_iff]
    exact ⟨signs, decide_eq_true rfl⟩
  have admitted : admitPeer (node.signed key inv).ontologyFingerprint node.fp = .ok () :=
    admitPeer_self node.fp
  have version : ¬ (node.signed key inv).wireVersion ≠ wireVersion := not_not_intro rfl
  rw [verifyEnvelope, if_neg version, admitted]
  exact if_pos verified

variable {kind : WireKind}

/-- An envelope within the bound comes down to its change. -/
theorem decodeEvent_payload (signs : (node.signed key inv).hmac ≠ [])
    (reads : reader.decodeEnvelope (node.encodeEnvelope (node.signed key inv)) =
      .ok (node.signed key inv)) (shape : (invalidationToPb node.json inv).kind = some kind) :
    node.decodeEvent reader key (node.payload key inv) =
      if maxSseEnvelopeBytes < (node.encodeEnvelope (node.signed key inv)).length then
        .error (.badPayload "base64 or encoded event size")
      else decodeKind reader (invalidationToPb node.json inv).backendLsn kind := by
  have bound : maxSseEventDataBytes < (base64Encode
      (node.encodeEnvelope (node.signed key inv))).length ↔
        maxSseEnvelopeBytes < (node.encodeEnvelope (node.signed key inv)).length := by
    rw [length_base64Encode, maxSseEventDataBytes]
    have third : maxSseEnvelopeBytes = 3 * 11186176 := rfl
    omega
  rw [ClusterNode.decodeEvent, Exocortex.decodeEvent, ClusterNode.payload,
    base64DecodeBounded_base64Encode]
  simp only [bound]
  by_cases above : maxSseEnvelopeBytes < (node.encodeEnvelope (node.signed key inv)).length
  · rw [if_pos above, if_pos above]
  · have inside : (node.signed key inv).inv = some (invalidationToPb node.json inv) := rfl
    rw [if_neg above, if_neg above]
    simp only [reads, Except.mapError, bind, Except.bind, verifyEnvelope_signed signs, inside,
      shape]

/-! ## Envelopes at odds with their rows -/

/-- The row of a message has an identity, an end or a kind that its message does not name. -/
def Mismatched (reader : FeedReader) : WireKind → Prop
  | .memoryUpserted id snapshotJson =>
      ∃ memory, reader.memoryOfJson snapshotJson = .ok memory ∧ id16 id ≠ .ok memory.id.raw
  | .relationshipUpserted id source target kind snapshotJson =>
      ∃ r, reader.relationshipOfJson snapshotJson = .ok r ∧
        (id16 id ≠ .ok r.id.raw ∨ id16 source ≠ .ok r.source.raw ∨
          id16 target ≠ .ok r.target.raw ∨ kind ≠ r.kind.raw)
  | _ => False

theorem decodeKind_of_mismatched (mismatched : Mismatched reader kind) (lsn : UInt64) :
    ∃ error, decodeKind reader lsn kind = .error error := by
  cases kind with
  | memoryUpserted id text =>
      obtain ⟨memory, parsed, apart⟩ := mismatched
      cases named : id16 id with
      | error error => exact ⟨error, by simp [decodeKind, named, bind, Except.bind]⟩
      | ok id =>
          have other : memory.id ≠ ⟨id⟩ := fun same => apart (by rw [named, same])
          exact ⟨.badPayload "memory snapshot id mismatch", by
            simp [decodeKind, named, parseRow, parsed, other, bind, Except.bind, Except.mapError]⟩
  | relationshipUpserted id source target kind text =>
      obtain ⟨r, parsed, apart⟩ := mismatched
      let mismatch := SyncError.badPayload "relationship snapshot identity mismatch"
      cases named : id16 id with
      | error error => exact ⟨error, by simp [decodeKind, named, bind, Except.bind]⟩
      | ok first =>
          by_cases own : r.id = ⟨first⟩
          · cases leaving : id16 source with
            | error error =>
                exact ⟨error, by simp [decodeKind, named, parseRow, parsed, own, leaving, bind,
                  Except.bind, Except.mapError]⟩
            | ok second =>
                by_cases source : r.source = ⟨second⟩
                · cases entering : id16 target with
                  | error error =>
                      exact ⟨error, by simp [decodeKind, named, parseRow, parsed, own, leaving,
                        source, entering, bind, Except.bind, Except.mapError]⟩
                  | ok third =>
                      -- the identity and the source agree, and so the target or the kind does not
                      have rest : r.target ≠ ⟨third⟩ ∨ r.kind ≠ ⟨kind⟩ := by
                        by_contra both
                        push Not at both
                        rw [named, leaving, entering, own, source, both.1, both.2] at apart
                        simp at apart
                      refine ⟨mismatch, ?_⟩
                      rcases rest with target | other
                      · simp [decodeKind, named, parseRow, parsed, own, leaving, source, entering,
                          target, identityMismatch, mismatch, bind, Except.bind, Except.mapError]
                      · simp [decodeKind, named, parseRow, parsed, own, leaving, source, entering,
                          other, identityMismatch, mismatch, bind, Except.bind, Except.mapError]
                · exact ⟨mismatch, by simp [decodeKind, named, parseRow, parsed, own, leaving,
                    source, identityMismatch, mismatch, bind, Except.bind, Except.mapError]⟩
          · exact ⟨mismatch, by simp [decodeKind, named, parseRow, parsed, own, identityMismatch,
              mismatch, bind, Except.bind, Except.mapError]⟩
  | _ => exact mismatched.elim

/-- A payload whose row is at odds with its message is refused. -/
theorem decodeEvent_of_mismatched {payload raw : List UInt8} {env : InvalidationEnvelope WireKind}
    {message : WireInvalidation WireKind}
    (text : base64DecodeBounded payload maxSseEventDataBytes = some raw)
    (decoded : reader.decodeEnvelope raw = .ok env) (carries : env.inv = some message)
    (shape : message.kind = some kind) (mismatched : Mismatched reader kind) :
    ∃ error, node.decodeEvent reader key payload = .error error := by
  obtain ⟨refusal, refused⟩ := decodeKind_of_mismatched mismatched message.backendLsn
  rw [ClusterNode.decodeEvent, Exocortex.decodeEvent, text]
  simp only [decoded, Except.mapError, bind, Except.bind]
  cases verifyEnvelope node.hmac node.encodeEnvelope key node.fp env with
  | error error => exact ⟨error, rfl⟩
  | ok _ => exact ⟨refusal, by simp only [carries, shape, refused]⟩

variable (node reader key inv) in
/-- **A signed change is read back as it was sent, without embeddings, unless it is an upsert
without its row or its message is above the bound, and then it is refused. A row at odds with its
message is refused in any payload.** -/
theorem invalidation_survives (small : inv.lsnOf < 2 ^ 64)
    (signs : (node.signed key inv).hmac ≠ [])
    (reads : reader.decodeEnvelope (node.encodeEnvelope (node.signed key inv)) =
      .ok (node.signed key inv))
    (legible : inv.Legible node.json reader) :
    (¬ inv.NamesRowOnly →
      (node.encodeEnvelope (node.signed key inv)).length ≤ maxSseEnvelopeBytes →
        ∃ event, node.decodeEvent reader key (node.payload key inv) = .ok event ∧
          inv.ReadAs reader event) ∧
    (inv.NamesRowOnly ∨
      maxSseEnvelopeBytes < (node.encodeEnvelope (node.signed key inv)).length →
        ∃ error, node.decodeEvent reader key (node.payload key inv) = .error error) ∧
    ∀ payload raw env message kind,
      base64DecodeBounded payload maxSseEventDataBytes = some raw →
        reader.decodeEnvelope raw = .ok env → env.inv = some message →
          message.kind = some kind → Mismatched reader kind →
            ∃ error, node.decodeEvent reader key payload = .error error := by
  refine ⟨fun carries fits => ?_, fun refused => ?_, fun payload raw env message kind text decoded
    carries shape mismatched => decodeEvent_of_mismatched text decoded carries shape mismatched⟩
  · obtain ⟨kind, event, shape, decoded, same⟩ := decodeKind_of_carried small legible carries
    refine ⟨event, ?_, same⟩
    rw [decodeEvent_payload signs reads shape, if_neg (Nat.not_lt.mpr fits), decoded]
  · by_cases named : inv.NamesRowOnly
    · obtain ⟨kind, error, shape, fails⟩ := decodeKind_of_named legible named
      rw [decodeEvent_payload signs reads shape, fails]
      split
      · exact ⟨_, rfl⟩
      · exact ⟨error, rfl⟩
    · obtain ⟨kind, event, shape, -⟩ := decodeKind_of_carried small legible named
      exact ⟨_, by rw [decodeEvent_payload signs reads shape, if_pos (refused.resolve_left named)]⟩

/-! ## Notes on the wire -/

/-- Some fields, each with its length in a byte. -/
def packFields (fields : List (List UInt8)) : List UInt8 :=
  fields.flatMap fun field => .ofNat field.length :: field

/-- At most so many fields are read. -/
def readFields : ℕ → List UInt8 → List (List UInt8)
  | n + 1, size :: rest => rest.take size.toNat :: readFields n (rest.drop size.toNat)
  | _, _ => []

/-- A node whose messages are of memories, and whose rows are titles. The signature is a sum of
bytes. -/
def noteNode : ClusterNode where
  nodeId := "node"
  fp := .fill 32 0
  hmacKey := .fill 32 0
  hmac key bytes := [(key.bytes ++ bytes).foldl (· + ·) 0]
  encodeEnvelope env :=
    match env.inv with
    | some ⟨some (.memoryUpserted id json), lsn⟩ => packFields [env.ontologyFingerprint,
        utf8Bytes env.emitterNodeId, id, json, [env.wireVersion.toUInt8, lsn.toUInt8], env.hmac]
    | _ => []
  json := ⟨fun memory => packFields [memory.id.raw.bytes, utf8Bytes memory.title], fun _ => [],
    fun _ => [], fun _ => .error "expected value", fun _ _ => []⟩

/-- A client that reads the messages of the node and its rows. -/
def noteReader : FeedReader where
  decodeEnvelope bytes :=
    match readFields 6 bytes with
    | [fingerprint, emitter, id, json, [version, lsn], hmac] =>
        match String.fromUTF8? ⟨emitter.toArray⟩ with
        | some emitter => .ok ⟨version.toUInt32, fingerprint, emitter,
            some ⟨some (.memoryUpserted id json), lsn.toUInt64⟩, hmac⟩
        | none => .error "invalid utf-8"
    | _ => .error "buffer underflow"
  memoryOfJson bytes :=
    match readFields 2 bytes with
    | [id, title] =>
        match String.fromUTF8? ⟨title.toArray⟩ with
        | some title => if size : id.length = 16 then .ok { Memory.blank ⟨⟨id, size⟩⟩ with title }
            else .error "invalid length"
        | none => .error "invalid utf-8"
    | _ => .error "EOF while parsing a value at line 1 column 0"
  relationshipOfJson _ := .error "EOF while parsing a value at line 1 column 0"
  discoveryOfJson _ := .error "EOF while parsing a value at line 1 column 0"
  snapshotOfJson _ := .error "EOF while parsing a value at line 1 column 0"

/-- The upsert of a memory that names the memory only is not read back. -/
theorem not_invalidation_survives :
    ¬ ∀ (node : ClusterNode) (reader : FeedReader) (key : Bytes 32) (inv : Invalidation),
      inv.lsnOf < 2 ^ 64 → (node.signed key inv).hmac ≠ [] →
        reader.decodeEnvelope (node.encodeEnvelope (node.signed key inv)) =
          .ok (node.signed key inv) →
        inv.Legible node.json reader →
          ∃ event, node.decodeEvent reader key (node.payload key inv) = .ok event ∧
            inv.ReadAs reader event := by
  intro law
  let upsert := Invalidation.memoryUpserted ⟨.fill 16 1⟩ 1
  obtain ⟨event, read, -⟩ := law noteNode noteReader (.fill 32 0) upsert (by decide)
    (by decide) (by decide +kernel) ⟨_, rfl⟩
  have refused : noteNode.decodeEvent noteReader (.fill 32 0)
      (noteNode.payload (.fill 32 0) upsert) = .error (.badPayload
        "memory snapshot: EOF while parsing a value at line 1 column 0") := by
    decide +kernel
  rw [refused] at read
  cases read

/-- A note that the feed carries. -/
def wireNote : Memory := { Memory.blank ⟨.fill 16 1⟩ with title := "note" }

/-- A message that names another memory than its row. -/
def strayMessage : List UInt8 :=
  packFields [[], [], hex (.fill 16 2), noteNode.json.memoryJson wireNote, [1, 7], [0]]

/-- The upsert of a memory that carries its row is read back, and the other message is refused. -/
theorem invalidation_survives_upsert :
    (∃ event, noteNode.decodeEvent noteReader (.fill 32 5)
      (noteNode.payload (.fill 32 5) (.memorySnapshotUpserted wireNote 7)) = .ok event ∧
        (Invalidation.memorySnapshotUpserted wireNote 7).ReadAs noteReader event) ∧
    ∃ error, noteNode.decodeEvent noteReader (.fill 32 5) (base64Encode strayMessage) =
      .error error := by
  have reads : noteReader.decodeEnvelope (noteNode.encodeEnvelope
      (noteNode.signed (.fill 32 5) (.memorySnapshotUpserted wireNote 7))) =
        .ok (noteNode.signed (.fill 32 5) (.memorySnapshotUpserted wireNote 7)) := by
    decide +kernel
  have legible : noteReader.memoryOfJson (noteNode.json.memoryJson wireNote) = .ok wireNote := by
    decide +kernel
  have survives := invalidation_survives noteNode noteReader (.fill 32 5)
    (.memorySnapshotUpserted wireNote 7) (by decide) (by decide) reads legible
  refine ⟨survives.1 not_false (by decide +kernel), ?_⟩
  exact survives.2.2 _ strayMessage ⟨1, [], "", some ⟨some (.memoryUpserted (hex (.fill 16 2))
    (noteNode.json.memoryJson wireNote)), 7⟩, [0]⟩ _ _ (by decide +kernel) (by decide +kernel)
    rfl rfl ⟨wireNote, legible, by decide +kernel⟩

end Exocortex
