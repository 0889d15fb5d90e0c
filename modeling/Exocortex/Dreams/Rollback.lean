import Exocortex.Dreams.CycleJournal
import Exocortex.Library.Undo

/-!
# Rolling Dreams cycles back

Any number of attempts at a cycle run on one region, one after the other or, when a
lease runs out, at the same time. An attempt acquires the region's lease, checks
whether its cycle has succeeded, recovers the active cycle of the region from its
durable journal, writes journaled batches, and then settles, or rolls back from the
journal it kept in process and retires the durable one; it may stop for good at any
point. Other writers make unfenced calls in between, and the clock reads whatever it
reads.

A `CycleSystem` adds to the lease system the attempts, by the epoch of their lease,
and the rows as they would be had nothing ever been removed (`full`). Only the
newest attempt passes the fence, so the invariant (`Consistent`) says something
about the phase of that one only; the rest is `UndoLog`, at the numbers that
attempts wrote and did not settle.
-/

namespace Exocortex

open Library InMemoryStorage

/-- Where an attempt stands: what it does next. -/
inductive Phase where
  | checking
  | recovering
  | restoring (active : CycleJournalRecord)
  | completing (cycleId : String)
  | running
  | retiring
  | finished

/-- One attempt at a cycle. `renewal` is the lease its renewal task holds; `written`
are the numbers its batches took, and `settled` says whether it was settled. -/
structure Attempt where
  lease : OwnerLease
  renewal : OwnerLease
  phase : Phase
  journal : CycleJournal
  written : Finset ℕ
  settled : Bool

def Attempt.new (lease : OwnerLease) (cycleId : String) : Attempt :=
  ⟨lease, lease, .checking, .new cycleId, ∅, false⟩

/-- What an attempt does. -/
inductive Move where
  | check
  | load
  | restore
  | complete
  | batch (notes : List JournalNote) (ms : List Memory) (rs : List Relationship)
  | settle (records : List DiscoveryRecord)
  | rollback
  | retire
  | renew
  | release

/-- The lease system with the attempts on a region and the rows ever written. -/
structure CycleSystem extends LeaseSystem where
  attempts : Table ℕ Attempt
  full : RowId → List Row

/-- One step of the system. -/
inductive CycleAction where
  | tick (now : DateTime)
  | other (call : Call) (unfenced : call.Unfenced)
  | start (ttl : ℕ) (cycleId : String)
  | move (epoch : ℕ) (move : Move)

namespace CycleSystem

def new (now : DateTime) : CycleSystem := ⟨.new now, ∅, fun _ => []⟩

/-- Make a call. The versions it writes are those above the counter before it. -/
def call (env : Env) (sys : CycleSystem) (call : Call) :
    Except StorageError Reply × CycleSystem :=
  let next := sys.toLeaseSystem.step env (.call call)
  ((call.run env sys.now sys.store).1, { sys with
    toLeaseSystem := next
    full := fun row => sys.full row ++
      (next.store.rows row).filter fun version => decide (sys.store.lsn < version.lsn) })

/-- Replace an attempt. -/
def put (sys : CycleSystem) (epoch : ℕ) (attempt : Attempt) : CycleSystem :=
  { sys with attempts := sys.attempts.insert epoch attempt }

/-- A cycle that already succeeded is not attempted again. -/
def check (sys : CycleSystem) (epoch : ℕ) (a : Attempt) : CycleSystem :=
  match sys.store.cycleSucceededFenced a.journal.cycleId a.lease sys.now with
  | .ok false => sys.put epoch { a with phase := .recovering }
  | _ => sys.put epoch { a with phase := .finished }

def load (key : LeaseKey) (sys : CycleSystem) (epoch : ℕ) (a : Attempt) : CycleSystem :=
  match sys.store.getActiveCycleJournal key with
  | none => sys.put epoch { a with phase := .running }
  | some active => sys.put epoch { a with phase := .restoring active }

/-- A rollback, of the loaded journal or of the attempt's own. -/
def restore (env : Env) (sys : CycleSystem) (epoch : ℕ) (a : Attempt) (restore : FencedRestore)
    (next : Phase) : CycleSystem :=
  match sys.call env (.restoreFenced restore a.lease) with
  | (.ok _, sys) => sys.put epoch { a with phase := next }
  | (.error _, sys) => sys.put epoch { a with phase := .finished }

def complete (env : Env) (sys : CycleSystem) (epoch : ℕ) (a : Attempt) (cycleId : String)
    (next : Phase) : CycleSystem :=
  match sys.call env (.completeCycleJournalFenced cycleId a.lease) with
  | (.ok _, sys) => sys.put epoch { a with phase := next }
  | (.error _, sys) => sys.put epoch { a with phase := .finished }

/-- One batch: the notes, the call, and the acknowledgement into the journal. -/
def batch (engine : DreamsEngine) (sys : CycleSystem) (epoch : ℕ) (a : Attempt)
    (notes : List JournalNote) (ms : List Memory) (rs : List Relationship) : CycleSystem :=
  let journal := a.journal.noteAll engine.inverse notes
  match sys.call engine.env
      (.upsertBatchFencedJournaled ms rs journal.restore journal.cycleId a.lease) with
  | (.ok (.batch commit), next) => next.put epoch { a with
      journal := journal.recordCommit commit
      written := a.written ∪ Finset.Ioc sys.store.lsn next.store.lsn }
  | (_, next) => next.put epoch { a with journal := journal }

def settle (env : Env) (sys : CycleSystem) (epoch : ℕ) (a : Attempt)
    (records : List DiscoveryRecord) : CycleSystem :=
  match sys.call env (.settleDreamsCycleFenced a.journal.cycleId records a.lease) with
  | (.ok _, sys) => sys.put epoch { a with phase := .finished, settled := true }
  | (.error _, sys) => sys.put epoch { a with phase := .finished }

def renew (env : Env) (sys : CycleSystem) (epoch : ℕ) (a : Attempt) : CycleSystem :=
  match sys.call env (.renewLease a.renewal) with
  | (.ok (.lease lease), sys) => sys.put epoch { a with renewal := lease }
  | (_, sys) => sys

def release (env : Env) (sys : CycleSystem) (epoch : ℕ) (a : Attempt) : CycleSystem :=
  (sys.call env (.releaseLease a.lease)).2.put epoch { a with phase := .finished }

/-- What an attempt does, when it is where the move belongs. -/
def move (engine : DreamsEngine) (sys : CycleSystem) (epoch : ℕ) (a : Attempt) :
    Phase → Move → CycleSystem
  | .checking, .check => sys.check epoch a
  | .recovering, .load => sys.load engine.key epoch a
  | .restoring active, .restore =>
      sys.restore engine.env epoch a active.restore (.completing active.cycleId)
  | .completing cycleId, .complete => sys.complete engine.env epoch a cycleId .running
  | .running, .batch notes ms rs => sys.batch engine epoch a notes ms rs
  | .running, .settle records => sys.settle engine.env epoch a records
  | .running, .rollback =>
      -- A cycle that owns nothing skips the rollback.
      if a.journal.isEmpty then sys.put epoch { a with phase := .finished }
      else sys.restore engine.env epoch a a.journal.restore .retiring
  | .retiring, .retire => sys.complete engine.env epoch a a.journal.cycleId .finished
  | _, .renew => sys.renew engine.env epoch a
  | _, .release => sys.release engine.env epoch a
  | _, _ => sys

def step (engine : DreamsEngine) (sys : CycleSystem) : CycleAction → CycleSystem
  | .tick now => { sys with now := now }
  | .other call _ => (sys.call engine.env call).2
  | .start ttl cycleId =>
      match sys.call engine.env (.acquireLease engine.key ttl) with
      | (.ok (.lease lease), sys) => sys.put lease.epoch (.new lease cycleId)
      | (_, sys) => sys
  | .move epoch move =>
      match sys.attempts.lookup epoch with
      | none => sys
      | some a => sys.move engine epoch a a.phase move

def run (engine : DreamsEngine) (sys : CycleSystem) (actions : List CycleAction) : CycleSystem :=
  actions.foldl (step engine) sys

/-! ## What the attempts wrote -/

/-- The attempt of an epoch wrote under this number and was not settled. -/
def UnsettledBy (sys : CycleSystem) (epoch lsn : ℕ) : Prop :=
  ∃ a, sys.attempts.lookup epoch = some a ∧ a.settled = false ∧ lsn ∈ a.written

/-- Some attempt wrote under this number and was not settled. -/
def unsettled (sys : CycleSystem) (lsn : ℕ) : Bool :=
  sys.attempts.values.any fun a => !a.settled && decide (lsn ∈ a.written)

theorem unsettled_iff {sys : CycleSystem} {lsn : ℕ} :
    sys.unsettled lsn ↔ ∃ epoch, sys.UnsettledBy epoch lsn := by
  simp only [unsettled, List.any_eq_true, Table.mem_values, Bool.and_eq_true, Bool.not_eq_true',
    decide_eq_true_eq, UnsettledBy]
  constructor
  · rintro ⟨a, ⟨epoch, found⟩, rest⟩
    exact ⟨epoch, a, found, rest⟩
  · rintro ⟨epoch, a, found, rest⟩
    exact ⟨a, ⟨epoch, found⟩, rest⟩

end CycleSystem

end Exocortex
