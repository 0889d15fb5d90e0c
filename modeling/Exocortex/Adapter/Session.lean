import Exocortex.Client.Drain
import Exocortex.Ingest.Manifest
import Exocortex.Library.Exchanges

/-!
# The windows of an adapter

An adapter submits its changes window by window. What a window carries is checked, its units are
built into batches, each batch is sent until the server settles it, and then the cursor is saved:
first to a temporary file beside the cursor, then by a rename.

A window that fails leaves the session as it was, and the stored cursor unless that is its own
temporary file. The outcome of a window that succeeds is more or less than what its settling
acknowledgements say: the rows that a retried acknowledgement rejects for good are listed too, and
of an acknowledgement that rejects rows and is no replay the accepted rows are not counted
(`submitWindow_settled_iff`).

The replies of the server, the outcome of saving and the syntax of call metadata are given. So is
`prepareBatches`, of which nothing matters here but the batches that come out of it. Delays, traces
and counters are left out.
-/

namespace Exocortex

open Library

/-! ## Replies -/

/-- The codes of a transport status, in the order of their numbers. -/
inductive RpcCode where
  | ok
  | cancelled
  | unknown
  | invalidArgument
  | deadlineExceeded
  | notFound
  | alreadyExists
  | permissionDenied
  | resourceExhausted
  | failedPrecondition
  | aborted
  | outOfRange
  | unimplemented
  | internal
  | unavailable
  | dataLoss
  | unauthenticated
deriving DecidableEq

def RpcCode.number (code : RpcCode) : ℤ := code.ctorIdx

structure RpcStatus where
  code : RpcCode
  message : String
deriving DecidableEq

/-- A rejected row with its code as it came in. -/
structure AckRow where
  draftKey : String
  code : ℤ
  detail : String
deriving DecidableEq

/-- An acknowledgement as it came in. -/
structure BatchAck where
  batchId : String
  accepted : UInt32
  rejected : UInt32
  rejections : List AckRow
  assignedLsn : ℕ
deriving DecidableEq

/-- The code of a number that is one. -/
def RejectCode.tryFrom : ℤ → Option RejectCode
  | 0 => some .unknown
  | 1 => some .incompatibleOntology
  | 2 => some .unknownSource
  | 3 => some .unknownMemoryType
  | 4 => some .unknownKind
  | 5 => some .invalidTypeTriple
  | 6 => some .visibilityWidening
  | 7 => some .missingExternalKey
  | 8 => some .duplicateBatch
  | 9 => some .badChecksum
  | 10 => some .unauthorized
  | 11 => some .rateLimited
  | 12 => some .computedKindRejected
  | 13 => some .invalidExternalKey
  | 14 => some .resourceLimitExceeded
  | 15 => some .sourceRewound
  | 16 => some .schemaDrift
  | 17 => some .projectionBoundExceeded
  | _ => none

def AckRow.rejectCode (row : AckRow) : RejectCode := (RejectCode.tryFrom row.code).getD .unknown

def AckRow.disposition (row : AckRow) : Disposition := classify row.rejectCode

/-- What comes back when a batch is sent. -/
inductive SubmitReply where
  | ack (ack : BatchAck)
  | status (status : RpcStatus)

/-! ## Sessions -/

inductive SdkError where
  | transport (status : RpcStatus)
  | retriesExhausted (attempts : ℕ)
  | fingerprintMismatch (expected got : Bytes 32)
  | unsplittable (draftKeys : List String) (bound : String)
  | projectionBoundExceeded (bound : String) (value declared : ℕ)
  | sourceRewound (observed last : String)
  | invalidUnit (detail : String)
  | localRejections (rejects : List (String × String × String))
  | fatal (code : ℤ) (detail : String)
  | cursor (detail : String)
deriving DecidableEq

/-- A change, with the seed of its batch ids and the time of its observation in nanoseconds. -/
structure ChangeUnit extends BatchUnit where
  batchIdSeed : String
  observedAt : ℤ

/-- A file by its directory, its stem and its extension. -/
structure FilePath where
  parent : String
  stem : String
  extension : Option String
deriving DecidableEq

def FilePath.withExtension (path : FilePath) (extension : String) : FilePath :=
  { path with extension := some extension }

/-- The declared limits on the rows of a window and of a run. -/
structure RowBounds where
  maxRowsPerWindow : ℕ
  maxRowsPerRun : ℕ
deriving DecidableEq

structure AdapterConfig where
  orgId : String
  sourceUri : String
  producerId : String
  adapterId : String
  nodeId : String
  sourceFlavor : String
  authToken : String
  hmacKey : Bytes 32
  maxBatchBytes : ℕ
  cursorPath : FilePath
  maxAttempts : ℕ
  bounds : Option RowBounds

structure AdapterSession where
  config : AdapterConfig
  fingerprint : Bytes 32
  ceiling : ℤ
  cursor : Option String
  rowsThisRun : ℕ
  seenSnapshots : List String
  manifest : Option ValidationManifest

structure WindowOutcome where
  accepted : UInt32
  duplicates : UInt32
  permanentRejections : List AckRow
  cursorAdvanced : Bool
deriving DecidableEq

/-- Where saving a cursor fails, and what is then in the temporary file. -/
inductive SaveFault where
  | createDir
  | write (left : Option String)
  | rename

abbrev Files := Table FilePath String

/-- What happens outside of an adapter while it submits a window. -/
structure Surroundings where
  replies : ℕ → SubmitReply
  fingerprintReply : Except RpcStatus (List UInt8)
  parsesAsMetadata : String → Bool
  saveFault : Option SaveFault

/-! ## Checks before the wire -/

def windowRows (units : List ChangeUnit) : ℕ := (units.map (·.memories.length)).sum

def checkRewind (seenSnapshots : List String) (unit : ChangeUnit) : Except SdkError Unit :=
  match unit.snapshot, seenSnapshots.getLast? with
  | some snapshot, some last =>
      if snapshot.snapshotId ≠ last ∧ snapshot.snapshotId ∈ seenSnapshots then
        .error (.sourceRewound snapshot.snapshotId last)
      else .ok ()
  | _, _ => .ok ()

def checkBounds (session : AdapterSession) (units : List ChangeUnit) : Except SdkError Unit :=
  match session.config.bounds with
  | none => .ok ()
  | some bounds => do
      if bounds.maxRowsPerWindow < windowRows units then
        throw (.projectionBoundExceeded "max_rows_per_window" (windowRows units)
          bounds.maxRowsPerWindow)
      let runRows := saturatingAdd session.rowsThisRun (windowRows units)
      if bounds.maxRowsPerRun < runRows then
        throw (.projectionBoundExceeded "max_rows_per_run" runRows bounds.maxRowsPerRun)
      units.forM (checkRewind session.seenSnapshots)

def validateUnits (manifest : ValidationManifest) (configured : ℤ) (units : List ChangeUnit) :
    Except SdkError Unit :=
  units.forM fun unit =>
    match validateUnit manifest configured unit.toBatchUnit with
    | [] => .ok ()
    | rejects =>
        .error (.localRejections (rejects.map fun r => (r.draftKey, r.code.debug, r.detail)))

def checkWindow (session : AdapterSession) (units : List ChangeUnit) : Except SdkError Unit := do
  checkBounds session units
  match session.manifest with
  | none => .ok ()
  | some manifest => validateUnits manifest session.ceiling units

/-! ## Triage -/

section Triage

variable (session : AdapterSession) (outside : Surroundings)

def authenticatedRequest : Except SdkError Unit :=
  if outside.parsesAsMetadata ("Bearer " ++ session.config.authToken) then .ok ()
  else .error (.invalidUnit "adapter auth_token contains invalid metadata bytes")

def classifyStatus (status : RpcStatus) : Disposition :=
  match status.code with
  | .unavailable | .deadlineExceeded | .resourceExhausted | .aborted | .internal | .unknown =>
      .retry
  | _ => .fatal

/-- The error of a fatal row. A row that reports another ontology has the session ask again for the
fingerprint of the server. -/
def fatalRow (row : AckRow) : SdkError :=
  if row.rejectCode ≠ .incompatibleOntology then .fatal row.code row.detail
  else
    match authenticatedRequest session outside with
    | .error error => error
    | .ok () =>
        match outside.fingerprintReply with
        | .error status => .transport status
        | .ok got =>
            if size : got.length = 32 then
              if session.fingerprint.bytes = got then .fatal row.code row.detail
              else .fingerprintMismatch session.fingerprint ⟨got, size⟩
            else .invalidUnit ("fingerprint len " ++ toString got.length)

/-- The outcome so far, and whether some row asked for a retry or reported a replay. -/
structure RowTriage where
  outcome : WindowOutcome
  retry : Bool
  duplicate : Bool

def triageRow (soFar : RowTriage) (row : AckRow) : Except SdkError RowTriage :=
  match row.disposition with
  | .success => .ok { soFar with duplicate := true }
  | .retry => .ok { soFar with retry := true }
  | .permanent => .ok { soFar with outcome :=
      { soFar.outcome with permanentRejections := soFar.outcome.permanentRejections ++ [row] } }
  | .fatal => .error (fatalRow session outside row)

def triageAck (ack : BatchAck) (outcome : WindowOutcome) :
    Except SdkError (ReplyVerdict × WindowOutcome) := do
  if ack.rejections.isEmpty then
    return (.settled, { outcome with accepted := outcome.accepted + ack.accepted })
  let soFar ← ack.rejections.foldlM (triageRow session outside) ⟨outcome, false, false⟩
  if soFar.retry then return (.retry, soFar.outcome)
  if soFar.duplicate then
    return (.settled, { soFar.outcome with
      duplicates := soFar.outcome.duplicates + 1
      accepted := soFar.outcome.accepted + ack.accepted })
  return (.settled, soFar.outcome)

/-- One attempt at a batch, with the reply to it. -/
def attempt (outcome : WindowOutcome) (reply : SubmitReply) :
    Except SdkError (ReplyVerdict × WindowOutcome) := do
  authenticatedRequest session outside
  match reply with
  | .status status =>
      if classifyStatus status = .retry then return (.retry, outcome)
      throw (.fatal status.code.number status.message)
  | .ack ack => triageAck session outside ack outcome

end Triage

/-! ## The window -/

/-- The outcome of saving, and the files after it. -/
def saveCursor (fault : Option SaveFault) (path : FilePath) (cursor : String) (files : Files) :
    Except SdkError Unit × Files :=
  let temporary := path.withExtension "tmp"
  match fault with
  | some .createDir => (.error (.cursor "create_dir_all"), files)
  | some (.write none) => (.error (.cursor "write"), files)
  | some (.write (some left)) => (.error (.cursor "write"), files.insert temporary left)
  | some .rename => (.error (.cursor "rename"), files.insert temporary cursor)
  | none => (.ok (), (files.erase temporary).insert path cursor)

def recordSnapshot (seen : List String) (unit : ChangeUnit) : List String :=
  match unit.snapshot with
  | none => seen
  | some snapshot =>
      if seen.getLast? = some snapshot.snapshotId then seen
      else
        let pushed := seen ++ [snapshot.snapshotId]
        if 16 < pushed.length then pushed.tail else pushed

/-- The session after a window that is settled. -/
def AdapterSession.advanced (session : AdapterSession) (units : List ChangeUnit)
    (cursor : String) : AdapterSession :=
  { session with
    cursor := some cursor
    rowsThisRun := saturatingAdd session.rowsThisRun (windowRows units)
    seenSnapshots := units.foldl recordSnapshot session.seenSnapshots }

section Window

variable (prepareBatches : AdapterSession → List ChangeUnit → Except SdkError (List SubmittedBatch))

def submitBatches (session : AdapterSession) (outside : Surroundings)
    (batches : List SubmittedBatch) : Except SdkError WindowOutcome :=
  (converseAll (attempt session outside) .retriesExhausted outside.replies
    session.config.maxAttempts batches 0 ⟨0, 0, [], false⟩).map (·.1)

def submitWindow (session : AdapterSession) (outside : Surroundings) (files : Files)
    (units : List ChangeUnit) (cursor : String) :
    Except SdkError WindowOutcome × AdapterSession × Files :=
  let submitted : Except SdkError WindowOutcome := do
    checkWindow session units
    let batches ← prepareBatches session units
    submitBatches session outside batches
  match submitted with
  | .error error => (.error error, session, files)
  | .ok outcome =>
      match saveCursor outside.saveFault session.config.cursorPath cursor files with
      | (.error error, files) => (.error error, session, files)
      | (.ok (), files) =>
          (.ok { outcome with cursorAdvanced := true }, session.advanced units cursor, files)

end Window

end Exocortex
