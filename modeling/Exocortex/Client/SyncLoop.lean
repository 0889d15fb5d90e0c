import Exocortex.Storage.Feed

/-!
# The client's sync loop

`run_sse_sync` keeps the cache of a client on the feed of its server. It subscribes behind its
frontier, and the cache gets what the gate releases. A seed is a new image for the cache and moves
the frontier; a gap, an advance, a rejected envelope and the end of a stream make it subscribe
again, with an empty gate.

Whatever arrives late, early, again or not at all: over each image the cache gets one event under
each number, in order and up to the frontier (`SyncLoop.InOrder`). Behind a store these are all the
events of its feed up to there, in whatever order its calls published them (`run_follows_feed`).
-/

namespace Exocortex

open Library

/-- The loop, with the number of the first event over the image that the cache has, and with
the events the cache got over this image. -/
structure SyncLoop where
  nextLsn : ℕ
  needsSeed : Bool
  gate : LsnGate
  first : ℕ
  applied : List Invalidation

/-- What happens to the loop. -/
inductive SyncEvent where
  | change (now : DateTime) (lsn : ℕ) (inv : Invalidation)
  | reseed (now : DateTime) (lsn : ℕ)
  | gapTimer (now : DateTime)
  | interrupted
  | ownerReplaced

def Invalidation.isAdvance : Invalidation → Bool
  | .visibilityAdvance _ => true
  | _ => false

namespace SyncLoop

def start (nextLsn : ℕ) : SyncLoop := ⟨nextLsn, nextLsn == 0, .new nextLsn, nextLsn, []⟩

def reconnect (loop : SyncLoop) : SyncLoop :=
  { loop with needsSeed := true, gate := .new loop.nextLsn }

def checkGap (timeout : ℤ) (now : DateTime) (loop : SyncLoop) : SyncLoop :=
  match loop.gate.gapExpired timeout now with
  | some missing => { loop with nextLsn := missing }.reconnect
  | none => loop

def step (timeout : ℤ) (loop : SyncLoop) : SyncEvent → SyncLoop
  | .change now lsn inv =>
      let released := (loop.gate.push now lsn inv).1
      let gate := (loop.gate.push now lsn inv).2
      let nextLsn := released.foldl (fun next _ => max next (lsn + 1)) loop.nextLsn
      let loop := { loop with
        nextLsn := max nextLsn gate.next, gate, applied := loop.applied ++ released }
      if released.any Invalidation.isAdvance then loop.reconnect else loop.checkGap timeout now
  | .reseed now lsn =>
      checkGap timeout now
        { loop with nextLsn := lsn + 1, gate := .new (lsn + 1), first := lsn + 1, applied := [] }
  | .gapTimer now => loop.checkGap timeout now
  | .interrupted => loop.reconnect
  -- The numbers of another owner have nothing to do with those before.
  | .ownerReplaced => { loop with nextLsn := 0, first := 0, applied := [] }.reconnect

/-! ## The gate -/

variable {told : ℕ → Invalidation → Prop}

/-- The gate holds events that it was told, and not the one it waits for. -/
structure Holds (told : ℕ → Invalidation → Prop) (gate : LsnGate) : Prop where
  missing : gate.held.lookup gate.next = none
  held : ∀ lsn event, gate.held.lookup lsn = some event → told lsn event

theorem holds_new (next : ℕ) : Holds told (.new next) where
  missing := AList.lookup_empty next
  held lsn event found := by
    rw [LsnGate.new, AList.lookup_empty] at found
    cases found

/-- The gate releases an event under each number from the one it waits for to the one it waits
for then. -/
theorem Holds.push {gate : LsnGate} (holds : Holds told gate) (now : DateTime) {lsn : ℕ}
    {inv : Invalidation} (tells : told lsn inv) :
    gate.next ≤ (gate.push now lsn inv).2.next ∧
      List.Forall₂ told (List.range' gate.next ((gate.push now lsn inv).2.next - gate.next))
        (gate.push now lsn inv).1 ∧
      ((gate.push now lsn inv).1 ≠ [] → lsn < (gate.push now lsn inv).2.next) ∧
      Holds told (gate.push now lsn inv).2 := by
  rw [LsnGate.push]
  split
  · exact ⟨le_rfl, by simp, fun some_ => absurd rfl some_, holds⟩
  · have known : ∀ other event, (gate.held.insert lsn inv).lookup other = some event →
        told other event := by
      intro other event found
      rw [Table.lookup_insert_eq] at found
      split at found
      · next same =>
          cases found
          exact same ▸ tells
      · exact holds.held other event found
    obtain ⟨later, run, ends, left⟩ := LsnGate.drain_spec gate.next (gate.held.insert lsn inv)
    rw [LsnGate.release]
    dsimp only
    generalize LsnGate.drain gate.next (gate.held.insert lsn inv) = drained at *
    obtain ⟨released, reached, kept⟩ := drained
    dsimp only at later run ends left ⊢
    refine ⟨later, run.imp known, fun some_ => ?_, ?_, fun other event found => ?_⟩
    · -- The first event released is the one that the gate waited for.
      cases count : reached - gate.next with
      | zero =>
          rw [count] at run
          cases run
          exact absurd rfl some_
      | succ others =>
          rw [count, List.range'_succ] at run
          obtain _ | ⟨found, -⟩ := run
          rw [Table.lookup_insert_eq] at found
          split at found
          · omega
          · rw [holds.missing] at found
            cases found
    · exact (left reached).trans ((if_neg (by omega)).trans ends)
    · rw [left] at found
      split at found
      · cases found
      · exact known other event found

/-! ## Runs -/

/-- The frontier is where the gate waits, and the cache got the events up to it. -/
structure InOrder (told : ℕ → Invalidation → Prop) (loop : SyncLoop) : Prop where
  next : loop.nextLsn = loop.gate.next
  first : loop.first ≤ loop.nextLsn
  applied : List.Forall₂ told (List.range' loop.first (loop.nextLsn - loop.first)) loop.applied
  holds : Holds told loop.gate

variable {loop : SyncLoop}

theorem inOrder_fresh (gate : loop.gate = .new loop.nextLsn) (first : loop.first = loop.nextLsn)
    (applied : loop.applied = []) : InOrder told loop where
  next := by
    rw [gate]
    rfl
  first := first.le
  applied := by
    rw [applied, first, Nat.sub_self]
    exact .nil
  holds := gate ▸ holds_new _

theorem InOrder.reconnect (inOrder : InOrder told loop) : InOrder told loop.reconnect :=
  ⟨rfl, inOrder.first, inOrder.applied, holds_new _⟩

theorem InOrder.checkGap (inOrder : InOrder told loop) (timeout : ℤ) (now : DateTime) :
    InOrder told (loop.checkGap timeout now) := by
  rw [SyncLoop.checkGap]
  split
  · next missing expired =>
      have same : missing = loop.nextLsn := by
        simp only [LsnGate.gapExpired] at expired
        simp [Option.bind_eq_some_iff] at expired
        obtain ⟨-, since, -, -, rfl⟩ := expired
        exact inOrder.next.symm
      subst same
      exact inOrder.reconnect
  · exact inOrder

theorem InOrder.step (inOrder : InOrder told loop) (timeout : ℤ) {event : SyncEvent}
    (tells : ∀ now lsn inv, event = .change now lsn inv → told lsn inv) :
    InOrder told (loop.step timeout event) := by
  cases event with
  | change now lsn inv =>
      obtain ⟨later, released, passed, holds⟩ := inOrder.holds.push now (tells now lsn inv rfl)
      obtain ⟨next, first, applied, -⟩ := inOrder
      simp only [SyncLoop.step]
      generalize loop.gate.push now lsn inv = pushed at *
      rw [next] at first applied
      have frontier : max (pushed.1.foldl (fun next _ => max next (lsn + 1)) loop.nextLsn)
          pushed.2.next = pushed.2.next :=
        max_eq_right <| List.foldlRecOn (motive := (· ≤ pushed.2.next)) _ _ (next ▸ later)
          fun _ below _ member => max_le below (passed (List.ne_nil_of_mem member))
      have numbers := @List.range'_append_1 loop.first (loop.gate.next - loop.first)
        (pushed.2.next - loop.gate.next)
      have total : loop.gate.next - loop.first + (pushed.2.next - loop.gate.next) =
          pushed.2.next - loop.first := by omega
      rw [Nat.add_sub_cancel' first, total] at numbers
      rw [frontier]
      have after : InOrder told { loop with
          nextLsn := pushed.2.next, gate := pushed.2, applied := loop.applied ++ pushed.1 } :=
        ⟨rfl, first.trans later, numbers ▸ List.rel_append applied released, holds⟩
      split
      · exact after.reconnect
      · exact after.checkGap timeout now
  | reseed now lsn =>
      rw [SyncLoop.step]
      exact InOrder.checkGap (inOrder_fresh rfl rfl rfl) timeout now
  | gapTimer now => exact inOrder.checkGap timeout now
  | interrupted => exact inOrder.reconnect
  | ownerReplaced => exact inOrder_fresh rfl rfl rfl

theorem inOrder_run (timeout : ℤ) (nextLsn : ℕ) {events : List SyncEvent}
    (tells : ∀ now lsn inv, SyncEvent.change now lsn inv ∈ events → told lsn inv) :
    InOrder told (events.foldl (step timeout) (start nextLsn)) :=
  List.foldlRecOn (motive := InOrder told) events (step timeout) (inOrder_fresh rfl rfl rfl)
    fun _ inOrder _ member => inOrder.step timeout
      fun now lsn inv same => tells now lsn inv (same ▸ member)

/-! ## The loop behind a store -/

/-- No two events of a feed have one number. -/
theorem sent_nodup (env : Env) (actions : List FeedAction) :
    (FeedSystem.run env .new actions).sent.Nodup := by
  have start : FeedSystem.new.Tracked ∧ FeedSystem.new.sent.Nodup :=
    ⟨FeedSystem.tracked_new, List.nodup_nil⟩
  refine (List.foldlRecOn (motive := fun sys : FeedSystem => sys.Tracked ∧ sys.sent.Nodup) actions
    _ start fun sys ⟨tracked, distinct⟩ action _ => ?_).2
  have moves := FeedSystem.step_moves env sys action
  refine ⟨tracked.step moves, ?_⟩
  change (sys.step env action).sent.Nodup
  cases moves with
  | waste _ _ sent _ | after _ _ _ _ sent _ => exact sent ▸ distinct
  | idle _ same =>
      rw [same]
      exact distinct
  | inside _ _ numbers _ dense sent _ =>
      rw [sent]
      refine distinct.append (dense.increasing.imp Nat.ne_of_lt) fun n old new => ?_
      exact absurd (tracked.sent_le n old) (dense.mem_iff.mp new).1.not_ge
  | publish _ before behind number _ _ sent flying _ =>
      rw [sent]
      refine distinct.append (List.nodup_singleton number) fun n old new => tracked.apart n old ?_
      rw [flying, List.mem_singleton.mp new]
      exact List.mem_append_right before List.mem_cons_self

theorem exists_segment {feed applied : List Invalidation} {lsns : List ℕ}
    {shows : Invalidation → Invalidation → Prop}
    (heard : List.Forall₂ (fun lsn inv =>
      ∃ published ∈ feed, published.lsnOf = lsn ∧ shows published inv) lsns applied) :
    ∃ segment ⊆ feed, List.Forall₂ shows segment applied ∧
      segment.map Invalidation.lsnOf = lsns := by
  induction heard with
  | nil => exact ⟨[], List.nil_subset _, .nil, rfl⟩
  | cons told _ ih =>
      obtain ⟨published, known, number, shown⟩ := told
      obtain ⟨segment, later, rest, numbers⟩ := ih
      exact ⟨published :: segment, List.cons_subset.mpr ⟨known, later⟩, .cons shown rest,
        List.map_cons ▸ congrArg₂ _ number numbers⟩

/-- **No update of a store is lost or doubled on the way to a cache**: in whatever order calls
publish, and whatever happens to the loop, the cache got over its image what stands for each event
of the feed under a number up to the frontier, in the order of the numbers. -/
theorem run_follows_feed (env : Env) (actions : List FeedAction) (timeout : ℤ) (nextLsn : ℕ)
    (shows : Invalidation → Invalidation → Prop) (events : List SyncEvent)
    (heard : ∀ now lsn inv, .change now lsn inv ∈ events →
      ∃ published ∈ (FeedSystem.run env .new actions).store.feed,
        published.lsnOf = lsn ∧ shows published inv) :
    let loop := events.foldl (step timeout) (start nextLsn)
    ∃ segment, List.Forall₂ shows segment loop.applied ∧
      segment.map Invalidation.lsnOf = List.range' loop.first (loop.nextLsn - loop.first) ∧
      ∀ published, published ∈ segment ↔
        published ∈ (FeedSystem.run env .new actions).store.feed ∧
          loop.first ≤ published.lsnOf ∧ published.lsnOf < loop.nextLsn := by
  intro loop
  have inOrder : InOrder _ loop := inOrder_run timeout nextLsn heard
  obtain ⟨segment, known, shown, numbers⟩ := exists_segment inOrder.applied
  have number (lsn : ℕ) : lsn ∈ segment.map Invalidation.lsnOf ↔
      loop.first ≤ lsn ∧ lsn < loop.nextLsn := by
    rw [numbers, List.mem_range'_1, Nat.add_sub_cancel' inOrder.first]
  refine ⟨segment, shown, numbers, fun published => ⟨fun member =>
    ⟨known member, (number _).mp (List.mem_map_of_mem member)⟩, fun ⟨there, between⟩ => ?_⟩⟩
  obtain ⟨other, member, same⟩ := List.mem_map.mp ((number _).mpr between)
  exact List.inj_on_of_nodup_map (sent_nodup env actions) (known member) there same ▸ member

/-- A removal, and the advance that stands for it. -/
theorem run_follows_feed_removal :
    let loop := [.change 0 1 (.visibilityAdvance 1)].foldl (step 5) (start 1)
    ∃ segment, List.Forall₂ (fun published inv => published.lsnOf = inv.lsnOf) segment
      loop.applied ∧ Invalidation.memoryDeleted ⟨.fill 16 1⟩ 1 ∈ segment := by
  obtain ⟨segment, shown, -, inside⟩ := run_follows_feed Env.blank
    [.enter 0 (.deleteMemory ⟨.fill 16 1⟩), .publish 0] 5 1
    (fun published inv => published.lsnOf = inv.lsnOf) [.change 0 1 (.visibilityAdvance 1)]
    fun now lsn inv member => by
      cases List.mem_singleton.mp member
      exact ⟨.memoryDeleted ⟨.fill 16 1⟩ 1, by decide +kernel, rfl, rfl⟩
  exact ⟨segment, shown, (inside _).mpr (by decide +kernel)⟩

end SyncLoop

end Exocortex
