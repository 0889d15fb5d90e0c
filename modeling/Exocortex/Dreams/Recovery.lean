import Exocortex.Dreams.Rollback

/-!
# Rollback is exact

The invariant of the cycle system and what follows from it. `Base` is what holds of
the store, the leases and the attempts whatever they do next; `PhaseHolds` says what
the newest attempt may rely on in its phase. A step that only adds rows of other
writers keeps both (`Consistent.extend`), and so does a change of an attempt's phase
(`Consistent.put`); the fenced calls of an attempt go through only when it is the
newest (`Base.newest`).

Whenever the durable journal is not active, the stored rows are the rows ever
written less those of attempts that were not settled.
-/

namespace Exocortex

open Library InMemoryStorage

namespace CycleSystem

variable {engine : DreamsEngine} {key : LeaseKey} {sys next : CycleSystem} {epoch : ℕ}
  {a b : Attempt}

/-! ## The invariant -/

/-- What the durable journal of a key owns. -/
def durableOwned (key : LeaseKey) (s : InMemoryStorage) : RowId → Finset ℕ :=
  (((s.cycleJournals.lookup key).map CycleJournalRecord.restore).getD default).owned

/-- The durable journal of a key is active. -/
def durableActive (key : LeaseKey) (s : InMemoryStorage) : Prop :=
  ∃ journal, s.cycleJournals.lookup key = some journal ∧ journal.state = .active

/-- An attempt holds leases that were handed out, under its own epoch. -/
structure Registered (key : LeaseKey) (sys : CycleSystem) (epoch : ℕ) (a : Attempt) : Prop where
  lease : a.lease ∈ sys.issued
  renewal : a.renewal ∈ sys.issued
  key : a.lease.key = key
  epoch : a.lease.epoch = epoch

/-- Nothing that an unsettled attempt wrote is stored. -/
def Clean (sys : CycleSystem) : Prop :=
  ∀ row, ∀ version ∈ sys.store.rows row, ¬ sys.unsettled version.lsn

/-- The attempt has written nothing. -/
structure Fresh (a : Attempt) : Prop where
  written : a.written = ∅
  owned : ∀ row, a.journal.owned row = ∅
  unsettled : a.settled = false

/-- The attempt's cycle has not succeeded. -/
def Open (key : LeaseKey) (sys : CycleSystem) (a : Attempt) : Prop :=
  (key, a.journal.cycleId) ∉ sys.store.succeededCycles

/-- The attempt's journal owns exactly its rows, all of which are stored, and no
other unsettled attempt has rows there. -/
structure Writing (key : LeaseKey) (sys : CycleSystem) (epoch : ℕ) (a : Attempt) : Prop where
  unsettled : a.settled = false
  isOpen : Open key sys a
  owned : ∀ row, ∀ lsn ∈ a.journal.owned row, lsn ∈ a.written
  own : ∀ row, ∀ version ∈ sys.full row, version.lsn ∈ a.written →
    version ∈ sys.store.rows row ∧ version.lsn ∈ a.journal.owned row
  alone : ∀ row, ∀ version ∈ sys.store.rows row, ∀ other,
    sys.UnsettledBy other version.lsn → other = epoch

/-- What the newest attempt relies on in its phase. -/
def PhaseHolds (key : LeaseKey) (sys : CycleSystem) (epoch : ℕ) (a : Attempt) : Phase → Prop
  | .checking => Fresh a
  | .recovering => Fresh a ∧ Open key sys a
  | .restoring active => (Fresh a ∧ Open key sys a) ∧
      sys.store.cycleJournals.lookup key = some active ∧ active.state = .active
  | .completing _ => (Fresh a ∧ Open key sys a) ∧ sys.Clean
  | .running => Writing key sys epoch a
  | .retiring => sys.Clean
  | .finished => True

/-- What holds of the store and the attempts, whatever their phase. -/
structure Base (key : LeaseKey) (sys : CycleSystem) : Prop where
  fencing : LeaseSystem.Fencing sys.toLeaseSystem
  registered : ∀ epoch a, sys.attempts.lookup epoch = some a → Registered key sys epoch a
  log : UndoLog Row.lsn sys.store.lsn sys.full sys.store.rows (fun lsn => sys.unsettled lsn)
    (durableOwned key sys.store) (durableActive key sys.store)

structure Consistent (key : LeaseKey) (sys : CycleSystem) : Prop extends Base key sys where
  phase : ∀ a, sys.attempts.lookup (sys.store.epochOf key) = some a →
    PhaseHolds key sys (sys.store.epochOf key) a a.phase

theorem consistent_new (key : LeaseKey) (now : DateTime) : Consistent key (.new now) where
  fencing := LeaseSystem.fencing_new now
  registered epoch a found := by simp [new] at found
  log :=
    { stamped := Stamped.empty 0
      kept := fun row => by cases row <;> exact List.Sublist.slnil
      missing := fun row version member => by simp [new] at member
      bounded := fun lsn still => by simp [unsettled, new, Table.values] at still
      owns := fun row lsn member => by
        simp [durableOwned, new, LeaseSystem.new, InMemoryStorage.new] at member
      covered := fun row version member still => by
        simp [unsettled, new, Table.values] at still }
  phase a found := by simp [new] at found

/-! ## Replacing an attempt -/

/-- The attempt differs in its phase, its journal and its renewal only. -/
structure Relabels (a b : Attempt) : Prop where
  lease : b.lease = a.lease
  written : b.written = a.written
  settled : b.settled = a.settled

theorem put_unsettledBy (found : sys.attempts.lookup epoch = some a) (same : Relabels a b) :
    (sys.put epoch b).UnsettledBy = sys.UnsettledBy := by
  funext other lsn
  apply propext
  simp only [UnsettledBy, put, Table.lookup_insert_eq]
  by_cases here : other = epoch
  · rw [if_pos here, here, found]
    simp [same.written, same.settled]
  · rw [if_neg here]

theorem put_unsettled (found : sys.attempts.lookup epoch = some a) (same : Relabels a b) :
    (sys.put epoch b).unsettled = sys.unsettled := by
  funext lsn
  rw [Bool.eq_iff_iff, unsettled_iff, unsettled_iff, put_unsettledBy found same]

theorem Clean.put (clean : sys.Clean) (found : sys.attempts.lookup epoch = some a)
    (same : Relabels a b) : (sys.put epoch b).Clean := by
  unfold Clean
  rw [put_unsettled found same]
  exact clean

variable {phase : Phase} {call : Call}

theorem PhaseHolds.put {other : ℕ} {c : Attempt} (holds : PhaseHolds key sys other c phase)
    (found : sys.attempts.lookup epoch = some a) (same : Relabels a b) :
    PhaseHolds key (sys.put epoch b) other c phase := by
  cases phase with
  | checking => exact holds
  | recovering => exact holds
  | restoring active => exact holds
  | completing cycleId => exact ⟨holds.1, Clean.put holds.2 found same⟩
  | running =>
      refine ⟨holds.unsettled, holds.isOpen, holds.owned, holds.own, ?_⟩
      rw [put_unsettledBy found same]
      exact holds.alone
  | retiring => exact Clean.put holds found same
  | finished => trivial

theorem PhaseHolds.relabel (holds : PhaseHolds key sys epoch a phase) (same : Relabels a b)
    (journal : b.journal = a.journal) : PhaseHolds key sys epoch b phase := by
  have fresh (before : Fresh a) : Fresh b :=
    ⟨by rw [same.written, before.written], by rw [journal]; exact before.owned,
      by rw [same.settled, before.unsettled]⟩
  have isOpen (before : Open key sys a) : Open key sys b := by
    rw [Open, journal]
    exact before
  cases phase with
  | checking => exact fresh holds
  | recovering => exact ⟨fresh holds.1, isOpen holds.2⟩
  | restoring active => exact ⟨⟨fresh holds.1.1, isOpen holds.1.2⟩, holds.2⟩
  | completing cycleId => exact ⟨⟨fresh holds.1.1, isOpen holds.1.2⟩, holds.2⟩
  | running =>
      refine ⟨by rw [same.settled, holds.unsettled], isOpen holds.isOpen, ?_, ?_, holds.alone⟩
      · rw [journal, same.written]
        exact holds.owned
      · rw [journal, same.written]
        exact holds.own
  | retiring => exact holds
  | finished => trivial

/-- Replacing an attempt by one under the same lease keeps the attempts registered. -/
theorem registered_put
    (registered : ∀ epoch a, sys.attempts.lookup epoch = some a → Registered key sys epoch a)
    (found : sys.attempts.lookup epoch = some a) (lease : b.lease = a.lease)
    (renewal : b.renewal ∈ sys.issued) (other : ℕ) (c : Attempt)
    (lookup : (sys.put epoch b).attempts.lookup other = some c) :
    Registered key (sys.put epoch b) other c := by
  rw [CycleSystem.put, Table.lookup_insert_eq] at lookup
  split at lookup
  · next here =>
      cases lookup
      obtain ⟨issued, -, ofKey, ofEpoch⟩ := registered epoch a found
      rw [here]
      exact ⟨by rw [lease]; exact issued, renewal, by rw [lease]; exact ofKey,
        by rw [lease]; exact ofEpoch⟩
  · obtain ⟨issued, renewed, ofKey, ofEpoch⟩ := registered other c lookup
    exact ⟨issued, renewed, ofKey, ofEpoch⟩

theorem Base.put (base : Base key sys) (found : sys.attempts.lookup epoch = some a)
    (same : Relabels a b) (renewal : b.renewal ∈ sys.issued) : Base key (sys.put epoch b) where
  fencing := base.fencing
  registered := registered_put base.registered found same.lease renewal
  log := by
    rw [put_unsettled found same]
    exact base.log

/-- The newest attempt moves on to a phase whose conditions hold. -/
theorem Base.advance (base : Base key sys) (found : sys.attempts.lookup epoch = some a)
    (newest : epoch = sys.store.epochOf key) (same : Relabels a b)
    (renewal : b.renewal ∈ sys.issued) (holds : PhaseHolds key sys epoch b b.phase) :
    Consistent key (sys.put epoch b) where
  toBase := base.put found same renewal
  phase c lookup := by
    have here : sys.store.epochOf key = epoch := newest.symm
    change (sys.attempts.insert epoch b).lookup (sys.store.epochOf key) = some c at lookup
    change PhaseHolds key (sys.put epoch b) (sys.store.epochOf key) c c.phase
    rw [here, AList.lookup_insert] at lookup
    cases lookup
    rw [here]
    exact holds.put found same

/-- Any attempt moves on; only the newest one has conditions to meet. -/
theorem Consistent.put (consistent : Consistent key sys)
    (found : sys.attempts.lookup epoch = some a) (same : Relabels a b)
    (renewal : b.renewal ∈ sys.issued)
    (holds : epoch = sys.store.epochOf key → PhaseHolds key sys epoch b b.phase) :
    Consistent key (sys.put epoch b) := by
  by_cases newest : epoch = sys.store.epochOf key
  · exact consistent.toBase.advance found newest same renewal (holds newest)
  · refine ⟨consistent.toBase.put found same renewal, fun c lookup => ?_⟩
    change (sys.attempts.insert epoch b).lookup (sys.store.epochOf key) = some c at lookup
    change PhaseHolds key (sys.put epoch b) (sys.store.epochOf key) c c.phase
    rw [AList.lookup_insert_ne (Ne.symm newest)] at lookup
    exact (consistent.phase c lookup).put found same

/-! ## Calls that leave the cycles alone -/

/-- Rows may be added; the cycles and the attempts are as before. -/
structure Extends (sys next : CycleSystem) : Prop where
  grows : sys.store.Grows next.store
  grown : ∀ row, next.full row = sys.full row ++
    (next.store.rows row).filter fun version => decide (sys.store.lsn < version.lsn)
  cycles : next.store.view .cycles = sys.store.view .cycles
  attempts : next.attempts = sys.attempts
  issued : ∀ lease ∈ sys.issued, lease ∈ next.issued
  fencing : LeaseSystem.Fencing next.toLeaseSystem

theorem Extends.unsettledBy (extends_ : Extends sys next) : next.UnsettledBy = sys.UnsettledBy := by
  funext other lsn
  simp only [UnsettledBy, extends_.attempts]

theorem Extends.unsettled (extends_ : Extends sys next) : next.unsettled = sys.unsettled := by
  funext lsn
  simp only [CycleSystem.unsettled, extends_.attempts]

theorem Extends.journals (extends_ : Extends sys next) :
    next.store.cycleJournals = sys.store.cycleJournals :=
  (Prod.mk.inj extends_.cycles).1

theorem Extends.succeeded (extends_ : Extends sys next) :
    next.store.succeededCycles = sys.store.succeededCycles :=
  (Prod.mk.inj extends_.cycles).2

/-- A row stored or written after the step was there before it, or is above the
numbers any unsettled attempt took. -/
theorem Extends.old_of_unsettled (extends_ : Extends sys next) (base : Base key sys)
    {row : RowId} {version : Row} (still : sys.unsettled version.lsn) :
    (version ∈ next.store.rows row → version ∈ sys.store.rows row) ∧
      (version ∈ next.full row → version ∈ sys.full row) := by
  have low := base.log.bounded _ still
  obtain ⟨fresh, shape, above, -⟩ := extends_.grows.grown
  constructor
  · intro member
    rw [shape, List.mem_append] at member
    exact member.resolve_right fun new => absurd (above row version new) (not_lt.mpr low)
  · intro member
    rw [extends_.grown, List.mem_append] at member
    apply member.resolve_right
    intro new
    exact absurd (of_decide_eq_true (List.mem_filter.mp new).2) (not_lt.mpr low)

theorem Base.extend (base : Base key sys) (extends_ : Extends sys next) : Base key next where
  fencing := extends_.fencing
  registered other c lookup := by
    rw [extends_.attempts] at lookup
    obtain ⟨lease, renewal, ofKey, ofEpoch⟩ := base.registered other c lookup
    exact ⟨extends_.issued _ lease, extends_.issued _ renewal, ofKey, ofEpoch⟩
  log := by
    rw [extends_.unsettled, durableOwned, extends_.journals, durableActive, extends_.journals]
    exact base.log.grow extends_.grows extends_.grown

theorem Clean.extend (clean : sys.Clean) (base : Base key sys) (extends_ : Extends sys next) :
    next.Clean := by
  intro row version member still
  rw [extends_.unsettled] at still
  exact clean row version ((extends_.old_of_unsettled base still).1 member) still

theorem PhaseHolds.extend (holds : PhaseHolds key sys epoch a phase) (base : Base key sys)
    (found : sys.attempts.lookup epoch = some a) (extends_ : Extends sys next) :
    PhaseHolds key next epoch a phase := by
  have isOpen (before : Open key sys a) : Open key next a := by
    rw [Open, extends_.succeeded]
    exact before
  cases phase with
  | checking => exact holds
  | recovering => exact ⟨holds.1, isOpen holds.2⟩
  | restoring active =>
      refine ⟨⟨holds.1.1, isOpen holds.1.2⟩, ?_, holds.2.2⟩
      rw [extends_.journals]
      exact holds.2.1
  | completing cycleId =>
      exact ⟨⟨holds.1.1, isOpen holds.1.2⟩, Clean.extend holds.2 base extends_⟩
  | running =>
      refine ⟨holds.unsettled, isOpen holds.isOpen, holds.owned, ?_, ?_⟩
      · intro row version member written
        have still : sys.unsettled version.lsn :=
          unsettled_iff.mpr ⟨epoch, a, found, holds.unsettled, written⟩
        obtain ⟨stored, owned⟩ :=
          holds.own row version ((extends_.old_of_unsettled base still).2 member) written
        exact ⟨(extends_.grows.keeps_old row).subset stored, owned⟩
      · intro row version member other unsettledBy
        rw [extends_.unsettledBy] at unsettledBy
        have still : sys.unsettled version.lsn := unsettled_iff.mpr ⟨other, unsettledBy⟩
        exact holds.alone row version ((extends_.old_of_unsettled base still).1 member) other
          unsettledBy
  | retiring => exact Clean.extend holds base extends_
  | finished => trivial

theorem Consistent.extend (consistent : Consistent key sys) (extends_ : Extends sys next)
    (newest : next.store.epochOf key = sys.store.epochOf key) : Consistent key next where
  toBase := consistent.toBase.extend extends_
  phase c lookup := by
    rw [newest] at lookup ⊢
    rw [extends_.attempts] at lookup
    exact (consistent.phase c lookup).extend consistent.toBase lookup extends_

/-- A call that neither touches the cycles nor rolls back. -/
theorem Base.call_extends (base : Base key sys) (env : Env)
    (presents : ∀ lease, call.presents = some lease → lease ∈ sys.issued)
    (notRestore : ¬ call.IsRestore) (part : call.part ≠ some .cycles) :
    Extends sys (sys.call env call).2 where
  grows := by
    obtain ⟨rows, lsn⟩ := Call.run_rows env sys.now sys.store call
    change sys.store.Grows (call.run env sys.now sys.store).2
    rw [Grows, rows, lsn]
    exact (Call.gated_sound env sys.now sys.store call).grows notRestore
  grown _ := rfl
  cycles := (Call.run_view env sys.now sys.store call .cycles).trans
    ((Call.gated_sound env sys.now sys.store call).frames .cycles part)
  attempts := rfl
  issued _ member := List.mem_append_left _ member
  fencing := base.fencing.step env (.call call) presents

/-- Only an acquisition moves an epoch. -/
theorem run_epochOf (env : Env) (now : DateTime) (s : InMemoryStorage) (call : Call)
    (notAcquire : ∀ other ttl, call ≠ .acquireLease other ttl) (key : LeaseKey) :
    (call.run env now s).2.epochOf key = s.epochOf key := by
  have epochs := (Prod.mk.inj (Call.run_view env now s call .leases)).2
  rw [epochOf, epochs]
  by_cases leases : call.part = some .leases
  · cases call with
    | acquireLease other ttl => exact absurd rfl (notAcquire other ttl)
    | renewLease lease =>
        rcases LeaseSystem.renewLease_spec lease now s with
          ⟨error, failed⟩ | ⟨_, _, _, _, _, _, _, _, same⟩
        · simp [Call.gated, failed, Outcome.fail, Outcome.map, epochOf]
        · simp [Call.gated, same, epochOf]
    | releaseLease lease =>
        simp [Call.gated, (LeaseSystem.releaseLease_spec lease s).1, epochOf]
    | _ => cases leases
  · have same := (Prod.mk.inj ((Call.gated_sound env now s call).frames .leases leases)).2
    rw [same, epochOf]

theorem Base.none_above (base : Base key sys) (row : RowId) :
    (sys.store.rows row).filter (fun version => decide (sys.store.lsn < version.lsn)) = [] :=
  List.filter_eq_nil_iff.mpr fun version member => by
    simpa using base.log.stamped_rows.bounded row version member

/-- A refused call that changes nothing leaves the system as it was. -/
theorem Base.call_refused (base : Base key sys) (env : Env) {error : StorageError}
    (refused : call.run env sys.now sys.store = (.error error, sys.store)) :
    sys.call env call = (.error error, sys) := by
  have acquired : LeaseSystem.acquiredBy call (.error error) = [] := by cases call <;> rfl
  have issued : LeaseSystem.issuedBy call (.error error) = [] := by cases call <;> rfl
  simp [CycleSystem.call, LeaseSystem.step, refused, acquired, issued, base.none_above]

/-- An attempt whose lease passes the fence is the newest one. -/
theorem Base.newest (base : Base key sys) (found : sys.attempts.lookup epoch = some a)
    {now : DateTime} (current : sys.store.leaseCurrent a.lease now) :
    epoch = sys.store.epochOf key := by
  obtain ⟨lease, -, ofKey, ofEpoch⟩ := base.registered epoch a found
  have newest := base.fencing.passes_newest lease current
  rw [ofKey, ofEpoch] at newest
  exact newest

/-! ## The moves of an attempt -/

theorem Consistent.holds (consistent : Consistent key sys)
    (found : sys.attempts.lookup epoch = some a) (newest : epoch = sys.store.epochOf key) :
    PhaseHolds key sys epoch a a.phase := by
  subst newest
  exact consistent.phase a found

/-- An attempt that stops relies on nothing. -/
theorem Consistent.finish (consistent : Consistent key sys)
    (found : sys.attempts.lookup epoch = some a) :
    Consistent key (sys.put epoch { a with phase := .finished }) :=
  consistent.put found ⟨rfl, rfl, rfl⟩ (consistent.registered epoch a found).renewal
    fun _ => trivial

/-- An attempt that has written nothing may start writing on clean rows. -/
theorem Fresh.writing (fresh : Fresh a) (isOpen : Open key sys a) (clean : sys.Clean) :
    Writing key sys epoch a where
  unsettled := fresh.unsettled
  isOpen := isOpen
  owned row lsn member := by simp [fresh.owned] at member
  own row version _ written := by simp [fresh.written] at written
  alone row version member other still :=
    absurd (unsettled_iff.mpr ⟨other, still⟩) (clean row version member)

theorem Consistent.check (consistent : Consistent key sys)
    (found : sys.attempts.lookup epoch = some a) (here : a.phase = .checking) :
    Consistent key (sys.check epoch a) := by
  have registered := consistent.registered epoch a found
  unfold CycleSystem.check
  split
  · next answer =>
      refine consistent.put found ⟨rfl, rfl, rfl⟩ registered.renewal fun newest => ?_
      have fresh := consistent.holds found newest
      rw [here] at fresh
      refine PhaseHolds.relabel (a := a) ⟨fresh, ?_⟩ ⟨rfl, rfl, rfl⟩ rfl
      unfold cycleSucceededFenced at answer
      split at answer
      · cases answer
      · have absent : ¬ (a.lease.key, a.journal.cycleId) ∈ sys.store.succeededCycles := by
          simpa using answer
        rw [registered.key] at absent
        exact absent
  · exact consistent.finish found

theorem Consistent.load (consistent : Consistent key sys)
    (found : sys.attempts.lookup epoch = some a) (here : a.phase = .recovering) :
    Consistent key (sys.load key epoch a) := by
  have registered := consistent.registered epoch a found
  have relies (newest : epoch = sys.store.epochOf key) : Fresh a ∧ Open key sys a := by
    have holds := consistent.holds found newest
    rw [here] at holds
    exact holds
  unfold CycleSystem.load getActiveCycleJournal
  split
  · next none =>
      refine consistent.put found ⟨rfl, rfl, rfl⟩ registered.renewal fun newest => ?_
      obtain ⟨fresh, isOpen⟩ := relies newest
      -- Without an active journal nothing unsettled is stored.
      have clean : sys.Clean := by
        intro row version member still
        obtain ⟨⟨journal, stored, active⟩, -⟩ := consistent.log.covered row version member still
        simp [stored, Option.filter, active] at none
      exact PhaseHolds.relabel (a := a) (fresh.writing isOpen clean) ⟨rfl, rfl, rfl⟩ rfl
  · next active loaded =>
      refine consistent.put found ⟨rfl, rfl, rfl⟩ registered.renewal fun newest => ?_
      obtain ⟨fresh, isOpen⟩ := relies newest
      rw [Option.filter_eq_some_iff] at loaded
      exact PhaseHolds.relabel (a := a) ⟨⟨fresh, isOpen⟩, loaded.1, of_decide_eq_true loaded.2⟩
        ⟨rfl, rfl, rfl⟩ rfl

/-- What a call under an attempt's own lease does not disturb. -/
structure Follows (key : LeaseKey) (sys next : CycleSystem) : Prop where
  fencing : LeaseSystem.Fencing next.toLeaseSystem
  registered : ∀ epoch a, next.attempts.lookup epoch = some a → Registered key next epoch a
  attempts : next.attempts = sys.attempts
  grown : ∀ row, next.full row = sys.full row ++
    (next.store.rows row).filter fun version => decide (sys.store.lsn < version.lsn)

theorem Base.call_follows (base : Base key sys) (env : Env)
    (found : sys.attempts.lookup epoch = some a) (presents : call.presents = some a.lease) :
    Follows key sys (sys.call env call).2 where
  fencing := base.fencing.step env (.call call) fun lease presented => by
    rw [presents] at presented
    cases presented
    exact (base.registered epoch a found).lease
  registered other c lookup := by
    obtain ⟨lease, renewal, ofKey, ofEpoch⟩ := base.registered other c lookup
    exact ⟨List.mem_append_left _ lease, List.mem_append_left _ renewal, ofKey, ofEpoch⟩
  attempts := rfl
  grown _ := rfl

theorem call_answer {env : Env} {reply : Except StorageError Reply}
    (answer : (call.run env sys.now sys.store).1 = reply) :
    sys.call env call = (reply, (sys.call env call).2) :=
  Prod.ext answer rfl

/-- A call that adds no row leaves the full run as it is. -/
theorem Base.call_full (base : Base key sys) (env : Env)
    (fewer : ∀ row, ((call.run env sys.now sys.store).2.rows row).Sublist (sys.store.rows row)) :
    (sys.call env call).2.full = sys.full := by
  funext row
  have none : ((call.run env sys.now sys.store).2.rows row).filter
      (fun version => decide (sys.store.lsn < version.lsn)) = [] :=
    List.sublist_nil.mp (base.none_above row ▸ (fewer row).filter _)
  change sys.full row ++ _ = sys.full row
  rw [LeaseSystem.step]
  dsimp only
  rw [none, List.append_nil]

theorem Consistent.restore (consistent : Consistent key sys) (env : Env)
    (found : sys.attempts.lookup epoch = some a) {restore : FencedRestore} {after : Phase}
    (undone : epoch = sys.store.epochOf key →
      ∀ row, ∀ lsn ∈ restore.owned row, sys.unsettled lsn)
    (all : epoch = sys.store.epochOf key → ∀ row, ∀ version ∈ sys.store.rows row,
      sys.unsettled version.lsn → version.lsn ∈ restore.owned row)
    (holds : epoch = sys.store.epochOf key → ∀ next : CycleSystem, next.Clean →
      next.store.succeededCycles = sys.store.succeededCycles → PhaseHolds key next epoch a after) :
    Consistent key (sys.restore env epoch a restore after) := by
  have base := consistent.toBase
  unfold CycleSystem.restore
  rcases Call.run_restoreFenced env sys.now sys.store restore a.lease with
    ⟨-, error, refused⟩ | ⟨records, reply, current, restored⟩
  · rw [base.call_refused env refused]
    exact consistent.finish found
  · have newest := base.newest found current
    rw [call_answer reply]
    obtain ⟨journals, succeeded⟩ := Prod.mk.inj restored.cycles
    have full : (sys.call env (.restoreFenced restore a.lease)).2.full = sys.full :=
      base.call_full env fun row => by
        rw [restored.rows]
        exact List.filter_sublist
    -- What is left of the rows is clean: the rollback owned all that was unsettled.
    have clean : (sys.call env (.restoreFenced restore a.lease)).2.Clean := by
      intro row version member still
      change version ∈ (Call.run env sys.now sys.store (.restoreFenced restore a.lease)).2.rows row
        at member
      rw [restored.rows, List.mem_filter] at member
      exact of_decide_eq_true member.2 (all newest row version member.1 still)
    have follows : Follows key sys (sys.call env (.restoreFenced restore a.lease)).2 :=
      base.call_follows env found rfl
    have after_base : Base key (sys.call env (.restoreFenced restore a.lease)).2 := by
      refine ⟨follows.fencing, follows.registered, ?_⟩
      rw [full]
      have undoing := base.log.undo restored.counter_le (undone newest) restored.rows
      rw [durableOwned, ← journals, ← durableOwned, durableActive, ← journals, ← durableActive]
        at undoing
      exact undoing
    have sameEpoch := run_epochOf env sys.now sys.store (.restoreFenced restore a.lease)
      (fun _ _ same => by cases same) key
    exact after_base.advance found (newest.trans sameEpoch.symm) ⟨rfl, rfl, rfl⟩
      (after_base.registered epoch a found).renewal ((holds newest _ clean succeeded).relabel
        ⟨rfl, rfl, rfl⟩ rfl)

theorem Consistent.complete (consistent : Consistent key sys) (env : Env)
    (found : sys.attempts.lookup epoch = some a) {cycleId : String} {after : Phase}
    (clean : epoch = sys.store.epochOf key → sys.Clean)
    (holds : epoch = sys.store.epochOf key → ∀ next : CycleSystem, next.Clean →
      next.store.succeededCycles = sys.store.succeededCycles → PhaseHolds key next epoch a after) :
    Consistent key (sys.complete env epoch a cycleId after) := by
  have base := consistent.toBase
  unfold CycleSystem.complete
  rcases Call.run_completeCycleJournalFenced env sys.now sys.store cycleId a.lease with
    ⟨error, refused⟩ | ⟨journal, current, stored, -, ran⟩
  · rw [base.call_refused env refused]
    exact consistent.finish found
  · have newest := base.newest found current
    rw [(base.registered epoch a found).key] at stored ran
    have store : (sys.call env (.completeCycleJournalFenced cycleId a.lease)).2.store =
        sys.store.setJournal key { journal with state := .completed } :=
      congrArg Prod.snd ran
    have full : (sys.call env (.completeCycleJournalFenced cycleId a.lease)).2.full = sys.full :=
      base.call_full env fun row => by
        rw [ran]
        exact List.Sublist.refl _
    have still_clean : (sys.call env (.completeCycleJournalFenced cycleId a.lease)).2.Clean := by
      unfold Clean
      rw [store]
      exact clean newest
    -- The completed journal owns what it owned.
    have owned : durableOwned key (sys.store.setJournal key { journal with state := .completed }) =
        durableOwned key sys.store := by
      rw [durableOwned, durableOwned, stored, setJournal, Table.lookup_insert_eq, if_pos rfl]
      rfl
    have follows : Follows key sys
        (sys.call env (.completeCycleJournalFenced cycleId a.lease)).2 :=
      base.call_follows env found rfl
    have after_base : Base key
        (sys.call env (.completeCycleJournalFenced cycleId a.lease)).2 := by
      refine ⟨follows.fencing, follows.registered, ?_⟩
      rw [full, store, owned]
      exact base.log.retire (clean newest)
    have sameEpoch := run_epochOf env sys.now sys.store
      (.completeCycleJournalFenced cycleId a.lease) (fun _ _ same => by cases same) key
    rw [call_answer (congrArg Prod.fst ran)]
    refine after_base.advance found (newest.trans sameEpoch.symm) ⟨rfl, rfl, rfl⟩
      (after_base.registered epoch a found).renewal
      ((holds newest _ still_clean ?_).relabel ⟨rfl, rfl, rfl⟩ rfl)
    rw [store]
    rfl

/-- What follows a call waits for the same attempts. -/
theorem Follows.unsettledBy (follows : Follows key sys next) :
    next.UnsettledBy = sys.UnsettledBy := by
  funext other lsn
  rw [UnsettledBy, follows.attempts, UnsettledBy]

/-- The attempt after a batch took these numbers. -/
def wrote (a : Attempt) (journal : CycleJournal) (more : Finset ℕ) : Attempt :=
  { a with journal := journal, written := a.written ∪ more }

/-- The numbers a batch took join those its attempt has yet to settle. -/
theorem put_wrote_unsettledBy (found : sys.attempts.lookup epoch = some a)
    (unsettled : a.settled = false) (journal : CycleJournal) (more : Finset ℕ) (other lsn : ℕ) :
    (sys.put epoch (wrote a journal more)).UnsettledBy other lsn ↔
      sys.UnsettledBy other lsn ∨ other = epoch ∧ lsn ∈ more := by
  simp only [UnsettledBy, put, wrote, Table.lookup_insert_eq]
  by_cases here : other = epoch
  · rw [if_pos here, here, found]
    simp [unsettled]
  · simp [here]

section Commit

variable {prepared : FencedRestore} {cycleId : String} {batch : FencedBatchCommit}
  {journal : CycleJournal}

/-- After a batch an attempt waits for what it waited for and for the new numbers. -/
theorem Writing.wider (writing : Writing key sys epoch a)
    (found : sys.attempts.lookup epoch = some a) (follows : Follows key sys next)
    (journal : CycleJournal) (other lsn : ℕ) :
    (next.put epoch (wrote a journal
      (Finset.Ioc sys.store.lsn next.store.lsn))).UnsettledBy other lsn ↔
        sys.UnsettledBy other lsn ∨
          other = epoch ∧ lsn ∈ Finset.Ioc sys.store.lsn next.store.lsn := by
  have inNext : next.attempts.lookup epoch = some a := by rw [follows.attempts, found]
  rw [put_wrote_unsettledBy inNext writing.unsettled, follows.unsettledBy]

section Writing

variable (writing : Writing key sys epoch a) (base : Base key sys)
  (found : sys.attempts.lookup epoch = some a) (follows : Follows key sys next)
include writing base found follows

/-- The rows of a batch are owned by the durable journal, and waiting to be settled. -/
theorem Writing.commit_log (sources : prepared.owned = a.journal.owned)
    (committed : BatchJournaled prepared cycleId a.lease batch sys.store next.store) :
    UndoLog Row.lsn next.store.lsn next.full next.store.rows
      (fun lsn => (next.put epoch (wrote a journal
        (Finset.Ioc sys.store.lsn next.store.lsn))).unsettled lsn)
      (durableOwned key next.store) (durableActive key next.store) := by
  have pending : ∀ lsn, (next.put epoch (wrote a journal
      (Finset.Ioc sys.store.lsn next.store.lsn))).unsettled lsn ↔
        sys.unsettled lsn ∨ sys.store.lsn < lsn ∧ lsn ≤ next.store.lsn := by
    intro lsn
    simp only [unsettled_iff, writing.wider found follows, exists_or, exists_eq_left,
      Finset.mem_Ioc]
  obtain ⟨durable, stored, active, -, owned⟩ := committed.owned
  rw [(base.registered epoch a found).key] at stored owned
  have durable_eq : durableOwned key next.store = durable.restore.owned := by
    rw [durableOwned, stored]
    rfl
  refine base.log.take committed.grows follows.grown pending ?_ ?_ ?_ ⟨durable, stored, active⟩
  · intro row lsn member
    rw [durable_eq, owned]
    exact Finset.mem_union_left _ (Finset.mem_union_left _ member)
  · intro row lsn member
    rw [durable_eq, owned, Finset.mem_union, Finset.mem_union] at member
    rw [pending]
    rcases member with (before | prepared) | new
    · exact .inl (base.log.owns row lsn before)
    · rw [sources] at prepared
      exact .inl (unsettled_iff.mpr
        ⟨epoch, a, found, writing.unsettled, writing.owned row lsn prepared⟩)
    · exact .inr (committed.taken row lsn new)
  · intro row version member above
    rw [durable_eq, owned]
    exact Finset.mem_union_right _ (committed.named row version member above)

/-- The rows of a batch are owned by the journal in process, which owns nothing else. -/
theorem Writing.commit_writing (noted : CycleJournal.SameOwner a.journal journal)
    (committed : BatchJournaled prepared cycleId a.lease batch sys.store next.store) :
    Writing key (next.put epoch (wrote a (journal.recordCommit batch)
        (Finset.Ioc sys.store.lsn next.store.lsn))) epoch
      (wrote a (journal.recordCommit batch) (Finset.Ioc sys.store.lsn next.store.lsn)) := by
  have journal_owned : ∀ row, (journal.recordCommit batch).owned row =
      a.journal.owned row ∪ batch.lsnsOf row := fun row => by
    rw [CycleJournal.owned_recordCommit, noted.owned]
  refine ⟨writing.unsettled, ?_, ?_, ?_, ?_⟩
  · change (key, journal.cycleId) ∉ next.store.succeededCycles
    rw [committed.succeeded, noted.cycleId]
    exact writing.isOpen
  · intro row lsn member
    change lsn ∈ (journal.recordCommit batch).owned row at member
    rw [journal_owned, Finset.mem_union] at member
    rcases member with before | new
    · exact Finset.mem_union_left _ (writing.owned row lsn before)
    · exact Finset.mem_union_right _ (Finset.mem_Ioc.mpr (committed.taken row lsn new))
  · intro row version member written
    change version ∈ next.full row at member
    change version ∈ next.store.rows row ∧
      version.lsn ∈ (journal.recordCommit batch).owned row
    rw [follows.grown, List.mem_append] at member
    rw [journal_owned]
    rcases member with old | new
    · -- An old row is below the counter, so it was written before.
      have low := base.log.stamped.bounded row version old
      have before : version.lsn ∈ a.written := by
        rcases Finset.mem_union.mp written with before | new
        · exact before
        · exact absurd (Finset.mem_Ioc.mp new).1 (not_lt.mpr low)
      obtain ⟨still, owned⟩ := writing.own row version old before
      exact ⟨(committed.grows.keeps_old row).subset still, Finset.mem_union_left _ owned⟩
    · obtain ⟨inside, above⟩ := List.mem_filter.mp new
      exact ⟨inside, Finset.mem_union_right _
        (committed.named row version inside (of_decide_eq_true above))⟩
  · intro row version member other still
    change version ∈ next.store.rows row at member
    rcases (writing.wider found follows _ other version.lsn).mp still with before | ⟨self, -⟩
    · have low := base.log.bounded _ (unsettled_iff.mpr ⟨other, before⟩)
      obtain ⟨fresh, shape, above, -⟩ := committed.grows.grown
      rw [shape, List.mem_append] at member
      refine writing.alone row version (member.resolve_right fun new => ?_) other before
      exact absurd (above row version new) (not_lt.mpr low)
    · exact self

/-- A batch that commits: its rows are stored, owned by the durable journal and by
the one in process, and waiting to be settled. -/
theorem Writing.commit (newest : next.store.epochOf key = epoch) (here : a.phase = .running)
    (noted : CycleJournal.SameOwner a.journal journal)
    (sources : prepared.owned = a.journal.owned)
    (committed : BatchJournaled prepared cycleId a.lease batch sys.store next.store) :
    Consistent key (next.put epoch (wrote a (journal.recordCommit batch)
      (Finset.Ioc sys.store.lsn next.store.lsn))) := by
  have inNext : next.attempts.lookup epoch = some a := by rw [follows.attempts, found]
  refine ⟨⟨follows.fencing, registered_put follows.registered inNext rfl
    (follows.registered epoch a inNext).renewal,
    writing.commit_log base found follows sources committed⟩, ?_⟩
  intro c lookup
  change (next.attempts.insert epoch _).lookup (next.store.epochOf key) = some c at lookup
  change PhaseHolds key _ (next.store.epochOf key) c c.phase
  rw [newest, AList.lookup_insert] at lookup
  cases lookup
  rw [newest, show (wrote a _ _).phase = .running from here]
  exact writing.commit_writing base found follows noted committed

end Writing

end Commit

theorem Consistent.batch (consistent : Consistent engine.key sys)
    (found : sys.attempts.lookup epoch = some a) (here : a.phase = .running)
    (notes : List JournalNote) (ms : List Memory) (rs : List Relationship) :
    Consistent engine.key (sys.batch engine epoch a notes ms rs) := by
  have base := consistent.toBase
  have registered := base.registered epoch a found
  have noted := CycleJournal.noteAll_same engine.inverse a.journal notes
  have relies (newest : epoch = sys.store.epochOf engine.key) :
      Writing engine.key sys epoch a := by
    have holds := consistent.holds found newest
    rw [here] at holds
    exact holds
  unfold CycleSystem.batch
  generalize a.journal.noteAll engine.inverse notes = journal at noted ⊢
  dsimp only
  rcases Call.run_upsertBatchFencedJournaled engine.env sys.now base.log.stamped_rows ms rs
      journal.restore journal.cycleId a.lease with
    ⟨error, refused⟩ | ⟨commit, reply, current, committed⟩
  · rw [base.call_refused engine.env refused]
    refine consistent.put found ⟨rfl, rfl, rfl⟩ registered.renewal fun newest => ?_
    have writing := relies newest
    dsimp only
    rw [here]
    refine ⟨writing.unsettled, ?_, ?_, ?_, writing.alone⟩
    · rw [Open, noted.cycleId]
      exact writing.isOpen
    · rw [noted.owned]
      exact writing.owned
    · rw [noted.owned]
      exact writing.own
  · have newest := base.newest found current
    rw [call_answer reply]
    exact (relies newest).commit base found (base.call_follows engine.env found rfl)
      ((run_epochOf engine.env sys.now sys.store _ (fun _ _ same => by cases same)
        engine.key).trans newest.symm) here noted noted.owned committed

/-- A settled attempt waits for nothing; the others wait as before. -/
theorem put_settled_unsettledBy (sys : CycleSystem) (epoch : ℕ) (a : Attempt) (other lsn : ℕ) :
    (sys.put epoch { a with phase := .finished, settled := true }).UnsettledBy other lsn ↔
      other ≠ epoch ∧ sys.UnsettledBy other lsn := by
  simp only [UnsettledBy, put, Table.lookup_insert_eq]
  by_cases here : other = epoch
  · simp [here]
  · simp [here]

/-- The settlement of an attempt: its rows are no longer to be undone. -/
theorem Writing.settle (writing : Writing key sys epoch a) (base : Base key sys)
    (found : sys.attempts.lookup epoch = some a) (follows : Follows key sys next)
    (newest : next.store.epochOf key = epoch)
    (settled : CycleSettled a.journal.cycleId a.lease sys.store next.store) :
    Consistent key (next.put epoch { a with phase := .finished, settled := true }) := by
  have inNext : next.attempts.lookup epoch = some a := by rw [follows.attempts, found]
  have fewer := put_settled_unsettledBy next epoch a
  rw [follows.unsettledBy] at fewer
  have full : next.full = sys.full := by
    funext row
    rw [follows.grown, settled.rows, base.none_above, List.append_nil]
  refine ⟨⟨follows.fencing, registered_put follows.registered inNext rfl
    (follows.registered epoch a inNext).renewal, ?_⟩, ?_⟩
  · change UndoLog Row.lsn next.store.lsn next.full next.store.rows _ (durableOwned key next.store)
      (durableActive key next.store)
    rw [full, settled.rows]
    refine base.log.settle settled.counter_le ?_ ?_ ?_ ?_
    · intro lsn still
      obtain ⟨other, unsettledBy⟩ := unsettled_iff.mp still
      exact unsettled_iff.mpr ⟨other, ((fewer other lsn).mp unsettledBy).2⟩
    · intro row version member gone
      obtain ⟨other, unsettledBy⟩ := unsettled_iff.mp (base.log.missing row version member gone)
      refine unsettled_iff.mpr ⟨other, (fewer other _).mpr ⟨?_, unsettledBy⟩⟩
      -- The attempt's own rows are all stored.
      rintro rfl
      obtain ⟨c, lookup, -, written⟩ := unsettledBy
      cases found.symm.trans lookup
      exact gone (writing.own row version member written).1
    · intro row version member still
      obtain ⟨other, unsettledBy⟩ := unsettled_iff.mp still
      obtain ⟨apart, before⟩ := (fewer other _).mp unsettledBy
      exact apart (writing.alone row version member other before)
    · intro row
      rw [durableOwned, settled.journals, (base.registered epoch a found).key,
        Table.lookup_insert_eq, if_pos rfl]
      exact FencedRestore.owned_default row
  · intro c lookup
    change (next.attempts.insert epoch _).lookup (next.store.epochOf key) = some c at lookup
    rw [newest, AList.lookup_insert] at lookup
    cases lookup
    trivial

section Found

variable (consistent : Consistent key sys) (env : Env) (found : sys.attempts.lookup epoch = some a)
include consistent env found

theorem Consistent.settle (here : a.phase = .running) (records : List DiscoveryRecord) :
    Consistent key (sys.settle env epoch a records) := by
  have base := consistent.toBase
  have relies {now : DateTime} (current : sys.store.leaseCurrent a.lease now) :
      Writing key sys epoch a := by
    have holds := consistent.holds found (base.newest found current)
    rw [here] at holds
    exact holds
  unfold CycleSystem.settle
  rcases Call.run_settleDreamsCycleFenced env sys.now sys.store a.journal.cycleId records a.lease
    with ⟨error, refused⟩ | ⟨before, current, -⟩ | ⟨reply, current, settled⟩
  · rw [base.call_refused env refused]
    exact consistent.finish found
  · -- The check at the start found the cycle open, and only this attempt could close it.
    rw [(base.registered epoch a found).key] at before
    exact absurd before (relies current).isOpen
  · rw [call_answer reply]
    exact (relies current).settle base found (base.call_follows env found rfl)
      ((run_epochOf env sys.now sys.store _ (fun _ _ same => by cases same) key).trans
        (base.newest found current).symm) settled

theorem Consistent.renew : Consistent key (sys.renew env epoch a) := by
  have registered := consistent.registered epoch a found
  have extends_ : Extends sys (sys.call env (.renewLease a.renewal)).2 :=
    consistent.toBase.call_extends env
      (fun lease presented => by cases presented; exact registered.renewal) id
      (fun none => by cases none)
  have later := consistent.extend extends_ (run_epochOf env sys.now sys.store
    (.renewLease a.renewal) (fun _ _ same => by cases same) key)
  unfold CycleSystem.renew
  split
  · next lease next answer =>
      have handed : lease ∈ next.issued := by
        have reply : (Call.run env sys.now sys.store (.renewLease a.renewal)).1 =
            .ok (.lease lease) := congrArg Prod.fst answer
        have issued : (sys.call env (.renewLease a.renewal)).2.issued =
            sys.issued ++ LeaseSystem.issuedBy (.renewLease a.renewal)
              (Call.run env sys.now sys.store (.renewLease a.renewal)).1 := rfl
        rw [reply, answer] at issued
        change next.issued = sys.issued ++ [lease] at issued
        simp [issued]
      rw [answer] at later extends_
      have inNext : next.attempts.lookup epoch = some a := by rw [extends_.attempts, found]
      refine later.put inNext ⟨rfl, rfl, rfl⟩ handed fun newest => ?_
      exact (later.holds inNext newest).relabel ⟨rfl, rfl, rfl⟩ rfl
  · next next answer =>
      rw [answer] at later
      exact later

theorem Consistent.release : Consistent key (sys.release env epoch a) := by
  have registered := consistent.registered epoch a found
  have extends_ : Extends sys (sys.call env (.releaseLease a.lease)).2 :=
    consistent.toBase.call_extends env
      (fun lease presented => by cases presented; exact registered.lease) id
      (fun none => by cases none)
  have later := consistent.extend extends_ (run_epochOf env sys.now sys.store
    (.releaseLease a.lease) (fun _ _ same => by cases same) key)
  exact later.finish found

end Found

/-- A new attempt under the newest epoch has written nothing. -/
theorem Base.register (base : Base key sys) {lease : OwnerLease} (cycleId : String)
    (unused : sys.attempts.lookup lease.epoch = none) (handed : lease ∈ sys.issued)
    (ofKey : lease.key = key) (newest : sys.store.epochOf key = lease.epoch) :
    Consistent key (sys.put lease.epoch (.new lease cycleId)) := by
  have same : (sys.put lease.epoch (.new lease cycleId)).unsettled = sys.unsettled := by
    funext lsn
    rw [Bool.eq_iff_iff, unsettled_iff, unsettled_iff]
    apply exists_congr
    intro other
    simp only [UnsettledBy, CycleSystem.put, Table.lookup_insert_eq]
    by_cases here : other = lease.epoch
    · subst here
      simp [unused, Attempt.new]
    · simp [here]
  refine ⟨⟨base.fencing, ?_, ?_⟩, ?_⟩
  · intro other c lookup
    rw [CycleSystem.put, Table.lookup_insert_eq] at lookup
    split at lookup
    · next here =>
        cases lookup
        exact ⟨handed, handed, ofKey, here.symm⟩
    · obtain ⟨held, renewal, heldKey, heldEpoch⟩ := base.registered other c lookup
      exact ⟨held, renewal, heldKey, heldEpoch⟩
  · rw [same]
    exact base.log
  · intro c lookup
    change (sys.attempts.insert lease.epoch _).lookup (sys.store.epochOf key) = some c at lookup
    rw [newest, AList.lookup_insert] at lookup
    cases lookup
    exact ⟨rfl, CycleJournal.owned_new cycleId, rfl⟩

theorem Consistent.start (consistent : Consistent engine.key sys) (ttl : ℕ) (cycleId : String) :
    Consistent engine.key (sys.step engine (.start ttl cycleId)) := by
  have base := consistent.toBase
  have extends_ : Extends sys (sys.call engine.env (.acquireLease engine.key ttl)).2 :=
    base.call_extends engine.env (fun _ presented => by cases presented) id
      (fun none => by cases none)
  unfold CycleSystem.step
  dsimp only
  rcases LeaseSystem.acquireLease_spec engine.key ttl sys.now sys.store with
    ⟨error, failed⟩ | ⟨lease, reply, ofKey, epoch, -, -, epochs⟩
  · have refused : Call.run engine.env sys.now sys.store (.acquireLease engine.key ttl) =
        (.error error, sys.store) := by
      simp [Call.run, Call.gated, failed, Outcome.fail, Outcome.map, Except.map]
    rw [base.call_refused engine.env refused]
    exact consistent
  · have answer : (Call.run engine.env sys.now sys.store (.acquireLease engine.key ttl)).1 =
        .ok (.lease lease) := by
      simp [Call.run, Call.gated, reply, Outcome.map, Except.map]
    have handed : lease ∈ (sys.call engine.env (.acquireLease engine.key ttl)).2.issued := by
      change lease ∈ sys.issued ++ LeaseSystem.issuedBy (.acquireLease engine.key ttl)
        (Call.run engine.env sys.now sys.store (.acquireLease engine.key ttl)).1
      rw [answer]
      exact List.mem_append_right _ List.mem_cons_self
    have newest : (sys.call engine.env (.acquireLease engine.key ttl)).2.store.epochOf engine.key =
        lease.epoch := by
      have view := (Prod.mk.inj (Call.run_view engine.env sys.now sys.store
        (.acquireLease engine.key ttl) .leases)).2
      change (Call.run engine.env sys.now sys.store
        (.acquireLease engine.key ttl)).2.epochOf engine.key = lease.epoch
      rw [epochOf, view]
      simp [Call.gated, epochs]
    rw [call_answer answer]
    generalize (sys.call engine.env (.acquireLease engine.key ttl)).2 = next at *
    have later := base.extend extends_
    -- No attempt has the new epoch yet.
    have unused : next.attempts.lookup lease.epoch = none := by
      rw [extends_.attempts, Option.eq_none_iff_forall_ne_some]
      intro c lookup
      obtain ⟨held, -, heldKey, heldEpoch⟩ := base.registered lease.epoch c lookup
      have bound := (base.fencing.issued c.lease held).epoch_le
      rw [heldKey, heldEpoch] at bound
      omega
    exact later.register cycleId unused handed ofKey newest

theorem Consistent.move (consistent : Consistent engine.key sys)
    (found : sys.attempts.lookup epoch = some a) (move : Move) :
    Consistent engine.key (sys.move engine epoch a a.phase move) := by
  have relies (newest : epoch = sys.store.epochOf engine.key) :=
    consistent.holds found newest
  cases here : a.phase with
  | checking =>
      cases move with
      | check => exact consistent.check found here
      | renew => exact consistent.renew engine.env found
      | release => exact consistent.release engine.env found
      | _ => exact consistent
  | recovering =>
      cases move with
      | load => exact consistent.load found here
      | renew => exact consistent.renew engine.env found
      | release => exact consistent.release engine.env found
      | _ => exact consistent
  | restoring active =>
      rw [here] at relies
      cases move with
      | restore =>
          -- The journal that was loaded is the durable one: it owns all that is unsettled.
          have owned (newest : epoch = sys.store.epochOf engine.key) :
              durableOwned engine.key sys.store = active.restore.owned := by
            rw [durableOwned, (relies newest).2.1]
            rfl
          refine consistent.restore engine.env found (fun newest row lsn member => ?_)
            (fun newest row version member still => ?_) fun newest next clean succeeded => ?_
          · exact consistent.log.owns row lsn (by rw [owned newest]; exact member)
          · rw [← owned newest]
            exact (consistent.log.covered row version member still).2
          · refine ⟨⟨(relies newest).1.1, ?_⟩, clean⟩
            rw [Open, succeeded]
            exact (relies newest).1.2
      | renew => exact consistent.renew engine.env found
      | release => exact consistent.release engine.env found
      | _ => exact consistent
  | completing cycleId =>
      rw [here] at relies
      cases move with
      | complete =>
          refine consistent.complete engine.env found (fun newest => (relies newest).2)
            fun newest next clean succeeded => ?_
          refine (relies newest).1.1.writing ?_ clean
          rw [Open, succeeded]
          exact (relies newest).1.2
      | renew => exact consistent.renew engine.env found
      | release => exact consistent.release engine.env found
      | _ => exact consistent
  | running =>
      rw [here] at relies
      cases move with
      | batch notes ms rs => exact consistent.batch found here notes ms rs
      | settle records => exact consistent.settle engine.env found here records
      | rollback =>
          dsimp only [CycleSystem.move]
          split
          · exact consistent.finish found
          · -- The journal in process owns the attempt's own rows, and no others are unsettled.
            refine consistent.restore engine.env found (fun newest row lsn member => ?_)
              (fun newest row version member still => ?_) fun newest next clean succeeded => clean
            · exact unsettled_iff.mpr ⟨epoch, a, found, (relies newest).unsettled,
                (relies newest).owned row lsn member⟩
            · obtain ⟨other, unsettledBy⟩ := unsettled_iff.mp still
              obtain rfl := (relies newest).alone row version member other unsettledBy
              obtain ⟨c, lookup, -, written⟩ := unsettledBy
              cases found.symm.trans lookup
              exact ((relies newest).own row version
                ((consistent.log.kept row).subset member) written).2
      | renew => exact consistent.renew engine.env found
      | release => exact consistent.release engine.env found
      | _ => exact consistent
  | retiring =>
      rw [here] at relies
      cases move with
      | retire => exact consistent.complete engine.env found relies fun _ _ _ _ => trivial
      | renew => exact consistent.renew engine.env found
      | release => exact consistent.release engine.env found
      | _ => exact consistent
  | finished =>
      cases move with
      | renew => exact consistent.renew engine.env found
      | release => exact consistent.release engine.env found
      | _ => exact consistent

/-- An unfenced call belongs neither to the leases nor to the cycles. -/
theorem unfenced_spec (unfenced : call.Unfenced) :
    call.presents = none ∧ ¬ call.IsRestore ∧ call.part ≠ some .cycles ∧
      ∀ key ttl, call ≠ .acquireLease key ttl := by
  cases call <;> simp_all [Call.Unfenced, Call.presents, Call.fencedBy, Call.IsRestore, Call.part]

theorem Consistent.step (consistent : Consistent engine.key sys) (action : CycleAction) :
    Consistent engine.key (sys.step engine action) := by
  cases action with
  | tick now =>
      refine consistent.extend ⟨.of_same ⟨rfl, rfl, rfl, rfl⟩, fun row => ?_, rfl, rfl,
        fun _ member => member, consistent.fencing.frame rfl rfl rfl⟩ rfl
      change sys.full row = sys.full row ++ (sys.store.rows row).filter _
      rw [consistent.toBase.none_above, List.append_nil]
  | other call unfenced =>
      obtain ⟨presents, notRestore, part, notAcquire⟩ := unfenced_spec unfenced
      refine consistent.extend (consistent.toBase.call_extends engine.env ?_ notRestore part)
        (run_epochOf engine.env sys.now sys.store call notAcquire engine.key)
      intro lease presented
      rw [presents] at presented
      cases presented
  | start ttl cycleId => exact consistent.start ttl cycleId
  | move epoch move =>
      simp only [CycleSystem.step]
      split
      · exact consistent
      · next found => exact consistent.move found move

theorem run_consistent (engine : DreamsEngine) (now : DateTime) (actions : List CycleAction) :
    Consistent engine.key (run engine (.new now) actions) := by
  apply List.foldlRecOn actions _ (consistent_new engine.key now)
  intro sys consistent action _
  exact consistent.step action

/-! ## What rollback guarantees -/

/-- A rollback made a second time changes nothing, whoever makes it. -/
theorem run_restoreFenced_twice (env : Env) (s : InMemoryStorage) (restore : FencedRestore)
    (lease again : OwnerLease) (now later : DateTime) {reply : Reply}
    (restored : (Call.run env now s (.restoreFenced restore lease)).1 = .ok reply) :
    (Call.run env later (Call.run env now s (.restoreFenced restore lease)).2
      (.restoreFenced restore again)).2 =
        (Call.run env now s (.restoreFenced restore lease)).2 := by
  rcases Call.run_restoreFenced env now s restore lease with
    ⟨-, error, refused⟩ | ⟨records, -, -, once⟩
  · rw [refused] at restored
    cases restored
  · generalize (Call.run env now s (.restoreFenced restore lease)).2 = t at once ⊢
    have gone : ∀ row, ∀ version ∈ t.rows row, version.lsn ∉ restore.owned row := by
      intro row version member
      rw [once.rows, List.mem_filter] at member
      exact of_decide_eq_true member.2
    by_cases current : t.leaseCurrent again later
    · simp [Call.run, Call.gated, restoreFenced, fenced_current current, restoreAll_idle gone,
        Outcome.map]
    · have presented : (Call.restoreFenced restore again).fencedBy = some again := rfl
      obtain ⟨error, refused⟩ :=
        LeaseSystem.fenced_stale_changes_nothing env later presented current
      rw [refused]

/-- After a recovery that went through there is nothing to recover. -/
theorem recoverActiveCycle_twice (env : Env) (key : LeaseKey) (s : InMemoryStorage)
    (lease again : OwnerLease) (restoreAt completeAt restoreAgain completeAgain : DateTime)
    (ofKey : lease.key = key)
    (recovered : (recoverActiveCycle env key lease restoreAt completeAt s).1 = .ok ()) :
    recoverActiveCycle env key again restoreAgain completeAgain
        (recoverActiveCycle env key lease restoreAt completeAt s).2 =
      (.ok (), (recoverActiveCycle env key lease restoreAt completeAt s).2) := by
  -- It is enough that the first recovery left no active journal.
  have idle {t : InMemoryStorage} (none : t.getActiveCycleJournal key = none) :
      recoverActiveCycle env key again restoreAgain completeAgain t = (.ok (), t) := by
    simp only [recoverActiveCycle, none]
  apply idle
  unfold recoverActiveCycle at recovered ⊢
  split at recovered
  · next none => simp only [none]
  · next active loaded =>
      cases restored : Call.run env restoreAt s (.restoreFenced active.restore lease) with
      | mk reply t =>
          rw [restored] at recovered
          cases reply with
          | error error => cases recovered
          | ok reply =>
              dsimp only at recovered ⊢
              rcases Call.run_completeCycleJournalFenced env completeAt t active.cycleId lease
                with ⟨error, refused⟩ | ⟨journal, -, -, -, completed⟩
              · rw [refused] at recovered
                cases recovered
              · rw [completed, ofKey]
                simp [getActiveCycleJournal, setJournal, Option.filter]

/-- Whenever the region's journal is not active, the stored histories are those of the
whole run less the versions of attempts that were not settled. At any time every
version of a settled attempt and of every other writer is stored, in its order.
Recovering, or rolling back, a second time changes nothing. -/
structure RollsBackExactly (engine : DreamsEngine) (sys : CycleSystem) : Prop where
  exact : ¬ durableActive engine.key sys.store → ∀ row, sys.store.rows row =
    (sys.full row).filter fun version => decide (¬ sys.unsettled version.lsn)
  kept : ∀ row, ((sys.full row).filter fun version =>
    decide (¬ sys.unsettled version.lsn)).Sublist (sys.store.rows row)
  recoversOnce : ∀ lease again restoreAt completeAt restoreAgain completeAgain,
    lease.key = engine.key →
      (recoverActiveCycle engine.env engine.key lease restoreAt completeAt sys.store).1 = .ok () →
        recoverActiveCycle engine.env engine.key again restoreAgain completeAgain
            (recoverActiveCycle engine.env engine.key lease restoreAt completeAt sys.store).2 =
          (.ok (), (recoverActiveCycle engine.env engine.key lease restoreAt completeAt
            sys.store).2)
  restoresOnce : ∀ restore lease again now later reply,
    (Call.run engine.env now sys.store (.restoreFenced restore lease)).1 = .ok reply →
      (Call.run engine.env later (Call.run engine.env now sys.store
        (.restoreFenced restore lease)).2 (.restoreFenced restore again)).2 =
          (Call.run engine.env now sys.store (.restoreFenced restore lease)).2

/-- **Rollback is exact**, in every state that any attempts and any other writers
reach. -/
theorem run_rollsBackExactly (engine : DreamsEngine) (start : DateTime)
    (actions : List CycleAction) :
    RollsBackExactly engine (run engine (.new start) actions) := by
  have consistent := run_consistent engine start actions
  refine ⟨?_, ?_, ?_, ?_⟩
  · intro idle row
    exact consistent.log.exact idle row
  · intro row
    exact consistent.log.keeps row
  · intro lease again restoreAt completeAt restoreAgain completeAgain ofKey recovered
    exact recoverActiveCycle_twice engine.env engine.key _ lease again restoreAt completeAt
      restoreAgain completeAgain ofKey recovered
  · intro restore lease again now later reply restored
    exact run_restoreFenced_twice engine.env _ restore lease again now later restored

-- An attempt writes a memory and stops, another writer writes the same memory, and the
-- next attempt recovers: of the two versions the second is left.
example :
    let sys := run ⟨Env.blank, .dreams "org" "project:0", ⟨∅⟩⟩ (.new 0)
      [.start 10 "first", .move 1 .check, .move 1 .load,
        .move 1 (.batch [] [.blank ⟨.fill 16 1⟩] []), .tick 20,
        .other (.upsertMemory (.blank ⟨.fill 16 1⟩)) rfl,
        .start 10 "second", .move 2 .check, .move 2 .load, .move 2 .restore, .move 2 .complete]
    (sys.full (.memory ⟨.fill 16 1⟩)).map Row.lsn = [1, 2] ∧
      (sys.store.rows (.memory ⟨.fill 16 1⟩)).map Row.lsn = [2] := by
  decide

end CycleSystem

end Exocortex
