import Exocortex.Library.Stamps
import Exocortex.Storage.Types

/-!
# The client's hold-back gate

`LsnGate` releases events strictly in the order of their numbers. An event ahead of
the expected number is held, and a gap that stays open past a timeout makes the
client resubscribe.

A stream that carries the expected numbers one after the other passes an empty gate
event by event: everything is released, in order, and nothing is ever held
(`pushAll_dense`).
-/

namespace Exocortex

open Library

/-- The gate: the next number to apply, the events held back, and since when a gap
is open. -/
structure LsnGate where
  next : ℕ
  held : Table ℕ Invalidation
  gapSince : Option DateTime

namespace LsnGate

def new (next : ℕ) : LsnGate := ⟨next, ∅, none⟩

/-- Take held events out while the next number is among them. -/
def drain (next : ℕ) (held : Table ℕ Invalidation) :
    List Invalidation × ℕ × Table ℕ Invalidation :=
  match found : held.lookup next with
  | none => ([], next, held)
  | some event =>
      let rest := drain (next + 1) (held.erase next)
      (event :: rest.1, rest.2)
termination_by held.keys.length
decreasing_by
  have present : next ∈ held.keys := AList.lookup_isSome.mp (Option.isSome_of_eq_some found)
  have positive := List.length_pos_of_mem present
  rw [AList.keys_erase, List.length_erase_of_mem present]
  omega

def release (gate : LsnGate) (now : DateTime) : List Invalidation × LsnGate :=
  let (out, next, held) := drain gate.next gate.held
  -- An open gap keeps the instant it was first seen at.
  let gapSince := if held.keys.isEmpty then none else some (gate.gapSince.getD now)
  (out, ⟨next, held, gapSince⟩)

/-- Push one envelope; the events that can now be released, in order. -/
def push (gate : LsnGate) (now : DateTime) (lsn : ℕ) (event : Invalidation) :
    List Invalidation × LsnGate :=
  if lsn < gate.next then ([], gate)
  else
    let gapSince := if gate.held.keys.isEmpty then some now else gate.gapSince
    release ⟨gate.next, gate.held.insert lsn event, gapSince⟩ now

/-- The missing number, once a gap has persisted past the timeout. -/
def gapExpired (gate : LsnGate) (timeout : ℤ) (now : DateTime) : Option ℕ :=
  if gate.held.keys.isEmpty then none
  else gate.gapSince.bind fun since => if timeout ≤ now - since then some gate.next else none

/-- Push a stream of events, each under its own number and at its own instant. -/
def pushAll (gate : LsnGate) : List (DateTime × Invalidation) → List Invalidation × LsnGate
  | [] => ([], gate)
  | (now, event) :: arrivals =>
      let first := gate.push now event.lsnOf event
      let rest := pushAll first.2 arrivals
      (first.1 ++ rest.1, rest.2)

variable {held : Table ℕ Invalidation} {pushed : List (ℕ × Invalidation)} {out : List Invalidation}
  {gate : LsnGate} {start : ℕ}

theorem drain_none {next : ℕ} (missing : held.lookup next = none) :
    drain next held = ([], next, held) := by
  rw [drain]
  split
  · rfl
  · next event found => rw [missing] at found; cases found

theorem drain_some {next : ℕ} {event : Invalidation} (found : held.lookup next = some event) :
    drain next held =
      (event :: (drain (next + 1) (held.erase next)).1,
        (drain (next + 1) (held.erase next)).2) := by
  rw [drain]
  split
  · next missing => rw [found] at missing; cases missing
  · next other same =>
      rw [found] at same
      cases same
      rfl

/-- An empty gate releases the event it awaits at once. -/
theorem push_next (next : ℕ) (since : Option DateTime) (now : DateTime) (event : Invalidation) :
    push ⟨next, ∅, since⟩ now next event = ([event], ⟨next + 1, ∅, none⟩) := by
  have emptied : (AList.insert next event (∅ : Table ℕ Invalidation)).erase next = ∅ := by
    apply AList.ext
    change List.kerase next (AList.insert next event (∅ : Table ℕ Invalidation)).entries = []
    rw [AList.entries_insert]
    exact List.kerase_cons_eq rfl
  rw [push, if_neg (Nat.lt_irrefl next), release]
  simp only [drain_some (AList.lookup_insert _), emptied, drain_none (AList.lookup_empty _)]
  rfl

/-- **A dense stream passes the gate**: every event is released, in order, and the
gate stays empty. -/
theorem pushAll_dense {before after : ℕ} (arrivals : List (DateTime × Invalidation))
    (since : Option DateTime)
    (dense : Dense before after (arrivals.map fun arrival => arrival.2.lsnOf)) :
    (pushAll ⟨before + 1, ∅, since⟩ arrivals).1 = arrivals.map Prod.snd ∧
      (pushAll ⟨before + 1, ∅, since⟩ arrivals).2.next = after + 1 ∧
      (pushAll ⟨before + 1, ∅, since⟩ arrivals).2.held = ∅ := by
  induction arrivals generalizing before since with
  | nil =>
      obtain ⟨counter_le, exact_range⟩ := dense
      have same : after - before = 0 := by simpa using exact_range.symm
      refine ⟨rfl, ?_, rfl⟩
      change before + 1 = after + 1
      omega
  | cons arrival arrivals ih =>
      obtain ⟨now, event⟩ := arrival
      obtain ⟨number, rest⟩ := dense.uncons
      dsimp only at number
      obtain ⟨released, next, held⟩ := ih none rest
      rw [pushAll, number, push_next]
      exact ⟨congrArg (event :: ·) released, next, held⟩

/-! ## Deliveries in any order

After a resubscription events arrive late, early or again. What the gate has released
is then still a run of consecutive numbers: it depends on the set of pushed pairs only.
-/

/-- One delivery: its instant, the number it carries and its event. -/
structure Arrival where
  now : DateTime
  lsn : ℕ
  event : Invalidation

/-- What an arrival delivers. -/
def Arrival.pair (arrival : Arrival) : ℕ × Invalidation := (arrival.lsn, arrival.event)

/-- Push a sequence of deliveries; everything released, in order, and the gate left. -/
def pushEach (gate : LsnGate) : List Arrival → List Invalidation × LsnGate
  | [] => ([], gate)
  | arrival :: arrivals =>
      let first := gate.push arrival.now arrival.lsn arrival.event
      let rest := pushEach first.2 arrivals
      (first.1 ++ rest.1, rest.2)

/-- Two deliveries of one number carry one event. -/
def Agree (pushed : List (ℕ × Invalidation)) : Prop :=
  ∀ first ∈ pushed, ∀ second ∈ pushed, first.1 = second.1 → first.2 = second.2

/-- `drain` takes out a run of consecutive numbers that ends before a missing one, and
leaves the rest of the held events alone. -/
theorem drain_spec (next : ℕ) (held : Table ℕ Invalidation) :
    next ≤ (drain next held).2.1 ∧
      List.Forall₂ (fun lsn event => held.lookup lsn = some event)
        (List.range' next ((drain next held).2.1 - next)) (drain next held).1 ∧
      held.lookup (drain next held).2.1 = none ∧
      ∀ lsn, (drain next held).2.2.lookup lsn =
        if next ≤ lsn ∧ lsn < (drain next held).2.1 then none else held.lookup lsn := by
  induction next, held using drain.induct with
  | case1 next held missing =>
      rw [drain_none missing]
      dsimp only
      refine ⟨le_rfl, by simp, missing, fun lsn => ?_⟩
      rw [if_neg (by omega)]
  | case2 next held event found ih =>
      obtain ⟨later, released, ends, left⟩ := ih
      rw [drain_some found]
      dsimp only
      generalize (drain (next + 1) (held.erase next)).2.1 = reached at later released ends left
      have length : reached - next = (reached - (next + 1)) + 1 := by omega
      simp only [Table.lookup_erase_eq] at released ends left
      refine ⟨by omega, ?_, ?_, fun lsn => ?_⟩
      · rw [length, List.range'_succ]
        refine List.Forall₂.cons found (released.imp fun lsn event kept => ?_)
        exact (ite_eq_iff.mp kept).elim (fun gone => nomatch gone.2) (·.2)
      · rwa [if_neg (by omega)] at ends
      · rw [left lsn]
        split_ifs <;> first | rfl | omega

/-- What the gate has released and still holds, of the pairs pushed so far. -/
structure Delivered (start : ℕ) (pushed : List (ℕ × Invalidation)) (out : List Invalidation)
    (gate : LsnGate) : Prop where
  started : start ≤ gate.next
  released : List.Forall₂ (fun lsn event => (lsn, event) ∈ pushed)
    (List.range' start (gate.next - start)) out
  missing : ∀ event, (gate.next, event) ∉ pushed
  held : ∀ lsn event, gate.held.lookup lsn = some event ↔ gate.next < lsn ∧ (lsn, event) ∈ pushed

theorem delivered_new (start : ℕ) : Delivered start [] [] (new start) where
  started := le_rfl
  released := by simp [new]
  missing _ := List.not_mem_nil
  held lsn event := by simp [new]

/-- A number in the released run was pushed. -/
theorem Delivered.passed (delivered : Delivered start pushed out gate) {lsn : ℕ}
    (low : start ≤ lsn) (high : lsn < gate.next) : ∃ event, (lsn, event) ∈ pushed := by
  have matched : ∀ {lsns : List ℕ} {events : List Invalidation},
      List.Forall₂ (fun lsn event => (lsn, event) ∈ pushed) lsns events →
        ∀ lsn ∈ lsns, ∃ event, (lsn, event) ∈ pushed := by
    intro lsns events pairs
    induction pairs with
    | nil => exact fun _ member => absurd member List.not_mem_nil
    | cons pair _ ih => exact List.forall_mem_cons.mpr ⟨⟨_, pair⟩, ih⟩
  exact matched delivered.released lsn (List.mem_range'_1.mpr (by omega))

/-- One delivery keeps the description: a stale one changes nothing, and any other is
inserted before the run that it may have completed is taken out. -/
theorem Delivered.push (delivered : Delivered start pushed out gate) (now : DateTime) (lsn : ℕ)
    (event : Invalidation) (agree : Agree (pushed ++ [(lsn, event)])) :
    Delivered start (pushed ++ [(lsn, event)]) (out ++ (gate.push now lsn event).1)
      (gate.push now lsn event).2 := by
  obtain ⟨started, released, missing, held⟩ := delivered
  have widened := released.imp fun _ _ member =>
    List.mem_append_left [(lsn, event)] member
  rw [LsnGate.push]
  split
  · next stale =>
      -- The number was released before, with the same event, or lies below the start.
      dsimp only
      refine ⟨started, by simpa using widened, ?_, fun other found => ?_⟩
      · intro other member
        rcases List.mem_append.mp member with old | new
        · exact missing other old
        · cases List.mem_singleton.mp new
          exact Nat.lt_irrefl _ stale
      · rw [held, List.mem_append, List.mem_singleton, Prod.mk.injEq]
        constructor
        · exact fun known => ⟨known.1, .inl known.2⟩
        · rintro ⟨above, old | ⟨rfl, rfl⟩⟩
          · exact ⟨above, old⟩
          · omega
  · next current =>
      have inserted : ∀ other found, (gate.held.insert lsn event).lookup other = some found ↔
          gate.next ≤ other ∧ (other, found) ∈ pushed ++ [(lsn, event)] := by
        intro other found
        rw [Table.lookup_insert_eq]
        by_cases same : other = lsn
        · subst same
          have last : (other, event) ∈ pushed ++ [(other, event)] := by simp
          rw [if_pos rfl, Option.some.injEq]
          constructor
          · rintro rfl
            exact ⟨by omega, last⟩
          · exact fun known => agree _ last _ known.2 rfl
        · rw [if_neg same, held, List.mem_append, List.mem_singleton, Prod.mk.injEq]
          constructor
          · exact fun known => ⟨known.1.le, .inl known.2⟩
          · rintro ⟨above, old | new⟩
            · refine ⟨lt_of_le_of_ne above fun awaited => ?_, old⟩
              exact missing found (awaited ▸ old)
            · exact absurd new.1 same
      obtain ⟨later, run, ends, left⟩ := drain_spec gate.next (gate.held.insert lsn event)
      rw [release]
      dsimp only
      generalize drain gate.next (gate.held.insert lsn event) = drained at later run ends left
      obtain ⟨more, next, kept⟩ := drained
      dsimp only at later run ends left ⊢
      refine ⟨started.trans later, ?_, ?_, fun other found => ?_⟩
      · -- The released run is continued by the one just taken out.
        have joined : List.range' start (next - start) =
            List.range' start (gate.next - start) ++ List.range' gate.next (next - gate.next) := by
          have meet : gate.next = start + (gate.next - start) := by omega
          have total : next - start = (gate.next - start) + (next - gate.next) := by omega
          rw [total, ← List.range'_append_1, ← meet]
        rw [joined]
        exact List.rel_append widened (run.imp fun other found known =>
          ((inserted other found).mp known).2)
      · intro found member
        have present := (inserted next found).mpr ⟨later, member⟩
        rw [ends] at present
        cases present
      · dsimp only
        rw [left other]
        split
        · next taken =>
            constructor
            · exact fun impossible => nomatch impossible
            · exact fun known => by omega
        · next untouched =>
            rw [inserted]
            constructor
            · rintro ⟨above, member⟩
              refine ⟨lt_of_le_of_ne (by omega) fun awaited => ?_, member⟩
              have present := (inserted other found).mpr ⟨above, member⟩
              rw [← awaited, ends] at present
              cases present
            · exact fun known => ⟨by omega, known.2⟩

theorem Delivered.pushEach (delivered : Delivered start pushed out gate) (arrivals : List Arrival)
    (agree : Agree (pushed ++ arrivals.map Arrival.pair)) :
    Delivered start (pushed ++ arrivals.map Arrival.pair) (out ++ (gate.pushEach arrivals).1)
      (gate.pushEach arrivals).2 := by
  induction arrivals generalizing pushed out gate with
  | nil => simpa [LsnGate.pushEach] using delivered
  | cons arrival arrivals ih =>
      rw [List.map_cons, List.append_cons] at agree ⊢
      have first := delivered.push arrival.now arrival.lsn arrival.event
        fun one inOne two inTwo => agree one (List.mem_append_left _ inOne) two
          (List.mem_append_left _ inTwo)
      have rest := ih first agree
      rw [List.append_assoc out] at rest
      exact rest

/-- Two gates that were pushed the same pairs have released the same events. -/
theorem Delivered.unique {others : List (ℕ × Invalidation)} {released : List Invalidation}
    {gate' : LsnGate} (agree : Agree pushed) (same : ∀ pair, pair ∈ others ↔ pair ∈ pushed)
    (first : Delivered start pushed out gate) (second : Delivered start others released gate') :
    gate'.next = gate.next ∧ released = out := by
  have next : gate'.next = gate.next := by
    rcases Nat.lt_trichotomy gate'.next gate.next with less | equal | greater
    · obtain ⟨event, member⟩ := first.passed second.started less
      exact absurd ((same _).mpr member) (second.missing event)
    · exact equal
    · obtain ⟨event, member⟩ := second.passed first.started greater
      exact absurd ((same _).mp member) (first.missing event)
  refine ⟨next, ?_⟩
  have aligned := second.released.imp (S := fun lsn event => (lsn, event) ∈ pushed)
    fun _ _ member => (same _).mp member
  rw [next] at aligned
  have functional : Relator.RightUnique fun lsn event => (lsn, event) ∈ pushed :=
    fun _ _ _ one two => agree _ one _ two rfl
  exact List.right_unique_forall₂' functional aligned first.released

/-- **Exactly once, in order**: whatever the order and the repetitions of the
deliveries, the gate has released the events of a run of consecutive numbers that ends
at the first missing one, and holds exactly the events beyond it. Deliveries of the
same pairs in another order release the same events. -/
theorem pushEach_exactly_once (start : ℕ) (arrivals : List Arrival)
    (agree : Agree (arrivals.map Arrival.pair)) :
    ∃ missing, start ≤ missing ∧
      (∀ lsn, start ≤ lsn → lsn < missing → ∃ arrival ∈ arrivals, arrival.lsn = lsn) ∧
      (∀ arrival ∈ arrivals, arrival.lsn ≠ missing) ∧
      List.Forall₂ (fun lsn event => ∃ arrival ∈ arrivals, arrival.pair = (lsn, event))
        (List.range' start (missing - start)) ((new start).pushEach arrivals).1 ∧
      ((new start).pushEach arrivals).2.next = missing ∧
      (∀ lsn event, ((new start).pushEach arrivals).2.held.lookup lsn = some event ↔
        missing < lsn ∧ ∃ arrival ∈ arrivals, arrival.pair = (lsn, event)) ∧
      ∀ others : List Arrival,
        (∀ pair, pair ∈ others.map Arrival.pair ↔ pair ∈ arrivals.map Arrival.pair) →
        ((new start).pushEach others).1 = ((new start).pushEach arrivals).1 := by
  have delivered := (delivered_new start).pushEach arrivals agree
  rw [List.nil_append, List.nil_append] at delivered
  refine ⟨((new start).pushEach arrivals).2.next, delivered.started, ?_, ?_, ?_, rfl, ?_, ?_⟩
  · intro lsn low high
    obtain ⟨event, member⟩ := delivered.passed low high
    obtain ⟨arrival, inside, pair⟩ := List.mem_map.mp member
    exact ⟨arrival, inside, congrArg Prod.fst pair⟩
  · intro arrival inside same
    exact delivered.missing arrival.event
      (List.mem_map.mpr ⟨arrival, inside, Prod.ext same rfl⟩)
  · exact delivered.released.imp fun _ _ member => List.mem_map.mp member
  · intro lsn event
    rw [delivered.held, List.mem_map]
  · intro others same
    have agreeOthers : Agree (others.map Arrival.pair) := fun one inOne two inTwo =>
      agree one ((same one).mp inOne) two ((same two).mp inTwo)
    have again := (delivered_new start).pushEach others agreeOthers
    exact (delivered.unique agree same again).2

/-- Numbers 2, 1 and again 1 release at a gate that awaits 1 what 1 and 2 release. -/
theorem pushEach_exactly_once_swapped :
    let first := Invalidation.visibilityAdvance 1
    let second := Invalidation.visibilityAdvance 2
    let arrivals : List Arrival := [⟨0, 2, second⟩, ⟨0, 1, first⟩, ⟨0, 1, first⟩]
    (∃ missing, 1 ≤ missing ∧ ((new 1).pushEach arrivals).2.next = missing) ∧
      ((new 1).pushEach [⟨0, 1, first⟩, ⟨0, 2, second⟩]).1 = ((new 1).pushEach arrivals).1 := by
  intro first second arrivals
  have agree : Agree (arrivals.map Arrival.pair) := by
    simp only [Agree, arrivals, first, second]
    decide
  obtain ⟨missing, low, -, -, -, next, -, order⟩ := pushEach_exactly_once 1 arrivals agree
  refine ⟨⟨missing, low, next⟩, order _ fun pair => ?_⟩
  simp [arrivals, Arrival.pair, or_comm]

end LsnGate

end Exocortex
