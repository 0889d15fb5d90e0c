import Mathlib.Data.Set.Insert

/-!
# Relays and their acknowledgements

A relay reads the records of a log, keeps them waiting until somebody downstream has settled
them, and tells the source of the log up to which position it has come. After a reconnection the
source starts again above a position that it was told before, and what was waiting is gone.

The acknowledgements are safe when every record at or below an acknowledged position is settled.
They stay safe along an acknowledgement exactly when the relay is clear: nothing waits that is not
settled, and the source has sent every record up to the position (`safe_acknowledge_iff`).
-/

namespace Library

/-- A relay: the position its source started above, the position it has come to, whether it still
reads, the records it has read, those that wait, those that are settled, and the positions it has
acknowledged. -/
structure Relay (R : Type*) where
  base : ℕ
  reached : ℕ
  live : Prop
  received : Set R
  waiting : Set R
  settled : Set R
  acked : Set ℕ

namespace Relay

variable {R : Type*} (log : Set R) (position : R → ℕ) (s t : Relay R)

/-- Every record of the log at or below an acknowledged position is settled. -/
def Safe : Prop := ∀ p ∈ s.acked, ∀ r ∈ log, position r ≤ p → r ∈ s.settled

/-- Nothing waits that is not settled, and no record up to the position is still to come. -/
structure Clear : Prop where
  waiting : ∀ r ∈ s.waiting, r ∈ s.settled
  sent : ∀ r ∈ log, s.base < position r → position r ≤ s.reached →
    r ∈ s.received ∨ r ∈ s.settled

/-- The relay has started above an acknowledged position, and while it reads it has lost
nothing. -/
structure Sound : Prop where
  base : s.base = 0 ∨ s.base ∈ s.acked
  waiting : ∀ r ∈ s.waiting, r ∈ log ∧ position r ≤ s.reached
  received : s.live → ∀ r ∈ s.received, r ∈ log → r ∈ s.waiting ∨ r ∈ s.settled

/-- A step that acknowledges nothing and does not reconnect. -/
structure Quiet : Prop where
  base : t.base = s.base
  acked : t.acked = s.acked
  settled : s.settled ⊆ t.settled
  reached : s.reached ≤ t.reached
  live : t.live → s.live
  waiting : ∀ r ∈ t.waiting, r ∈ s.waiting ∨ r ∈ log ∧ position r ≤ t.reached
  kept : ∀ r ∈ s.waiting, r ∈ t.waiting ∨ r ∈ t.settled
  received : t.live → ∀ r ∈ t.received, r ∈ log → r ∈ s.received ∨ r ∈ t.waiting

/-- The relay tells its source how far it has come. -/
def acknowledge : Relay R := { s with acked := insert s.reached s.acked }

/-- The relay starts again above a position. -/
def reconnect (base : ℕ) : Relay R where
  base := base
  reached := 0
  live := True
  received := ∅
  waiting := ∅
  settled := s.settled
  acked := s.acked

variable {log position s t}

theorem Sound.quiet (sound : Sound log position s) (quiet : Quiet log position s t) :
    Sound log position t where
  base := by
    rw [quiet.base, quiet.acked]
    exact sound.base
  waiting := by
    intro r waits
    rcases quiet.waiting r waits with before | new
    · exact ⟨(sound.waiting r before).1, (sound.waiting r before).2.trans quiet.reached⟩
    · exact new
  received := by
    intro live r read logged
    rcases quiet.received live r read logged with before | waits
    · rcases sound.received (quiet.live live) r before logged with waits | settled
      · exact quiet.kept r waits
      · exact .inr (quiet.settled settled)
    · exact .inl waits

theorem Sound.acknowledge (sound : Sound log position s) :
    Sound log position s.acknowledge where
  base := sound.base.imp_right (Set.mem_insert_of_mem _)
  waiting := sound.waiting
  received := sound.received

theorem Sound.reconnect {base : ℕ} (known : base = 0 ∨ base ∈ s.acked) :
    Sound log position (s.reconnect base) where
  base := known
  waiting := fun _ waits => absurd waits (Set.notMem_empty _)
  received := fun _ _ read => absurd read (Set.notMem_empty _)

theorem Safe.quiet (safe : Safe log position s) (quiet : Quiet log position s t) :
    Safe log position t := by
  intro p acked r logged below
  exact quiet.settled (safe p (quiet.acked ▸ acked) r logged below)

/-- **An acknowledgement is safe exactly when the relay is clear.** -/
theorem safe_acknowledge_iff (positive : ∀ r ∈ log, 0 < position r)
    (sound : Sound log position s) (live : s.live) (safe : Safe log position s) :
    Safe log position s.acknowledge ↔ Clear log position s := by
  constructor
  · intro after
    have settled := after s.reached (Set.mem_insert _ _)
    exact ⟨fun r waits => settled r (sound.waiting r waits).1 (sound.waiting r waits).2,
      fun r logged _ below => .inr (settled r logged below)⟩
  · intro clear p acked r logged below
    rcases Set.mem_insert_iff.mp acked with rfl | before
    · by_cases above : s.base < position r
      · rcases clear.sent r logged above below with read | settled
        · exact (sound.received live r read logged).elim (clear.waiting r) id
        · exact settled
      · -- The source was told of this position before.
        rcases sound.base with start | told
        · exact absurd (positive r logged) (by omega)
        · exact safe s.base told r logged (by omega)
    · exact safe p before r logged below

end Relay

end Library
