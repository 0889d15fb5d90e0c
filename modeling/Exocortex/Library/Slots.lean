import Mathlib

/-!
# Bytes with fixed places

A list of slots says which places of a serialization are fixed marks and which are free. A list
fits the slots when it has the marks at their places. Two lists of slots have a common list that
fits both, exactly when they are equally long and no place has two different marks
(`Compatible.of_fits`, `Compatible.exists_fits`).
-/

namespace Library

variable {β : Type*}

/-- The list has the marks of the slots at their places. -/
def Fits (slots : List (Option β)) (xs : List β) : Prop :=
  List.Forall₂ (fun slot x => ∀ mark ∈ slot, x = mark) slots xs

/-- The slots are equally many, and no place has two marks. -/
def Compatible (slots other : List (Option β)) : Prop :=
  List.Forall₂ (fun slot slot' => ∀ mark ∈ slot, ∀ mark' ∈ slot', mark = mark') slots other

instance [DecidableEq β] (slots other : List (Option β)) : Decidable (Compatible slots other) :=
  inferInstanceAs (Decidable (List.Forall₂ _ slots other))

/-- Free places. -/
def free (n : ℕ) : List (Option β) := List.replicate n none

variable {xs : List β} {slots slots' other : List (Option β)}

theorem fits_free {n : ℕ} : Fits (free n) xs ↔ xs.length = n := by
  constructor
  · intro fits
    exact fits.length_eq.symm.trans List.length_replicate
  · rintro rfl
    induction xs with
    | nil => exact .nil
    | cons x xs ih => exact .cons nofun ih

theorem fits_mark {mark : β} : Fits [some mark] xs ↔ xs = [mark] := by
  constructor
  · rintro (_ | ⟨here, _ | _⟩)
    rw [here mark rfl]
  · rintro rfl
    refine .cons ?_ .nil
    rintro _ ⟨⟩
    rfl

theorem Fits.append {ys : List β} (front : Fits slots xs) (back : Fits slots' ys) :
    Fits (slots ++ slots') (xs ++ ys) :=
  List.rel_append front back

theorem Fits.split (fits : Fits (slots ++ slots') xs) :
    ∃ front back, xs = front ++ back ∧ Fits slots front ∧ Fits slots' back := by
  have front := List.forall₂_take slots.length fits
  have back := List.forall₂_drop slots.length fits
  rw [List.take_left] at front
  rw [List.drop_left] at back
  exact ⟨_, _, (List.take_append_drop slots.length xs).symm, front, back⟩

/-- What fits both, with something where no place has a mark. -/
theorem Compatible.exists_fits (compatible : Compatible slots other) (filler : β) :
    ∃ xs, Fits slots xs ∧ Fits other xs ∧
      ∀ x ∈ xs, x = filler ∨ some x ∈ slots ∨ some x ∈ other := by
  induction compatible with
  | nil => exact ⟨[], .nil, .nil, nofun⟩
  | @cons slot slot' slots other agree _ ih =>
      obtain ⟨xs, fits, fits', filled⟩ := ih
      have later : ∀ x ∈ xs, x = filler ∨ some x ∈ slot :: slots ∨ some x ∈ slot' :: other :=
        fun x listed => (filled x listed).imp_right
          (Or.imp (List.mem_cons_of_mem _) (List.mem_cons_of_mem _))
      cases slot with
      | some mark =>
          refine ⟨mark :: xs, .cons ?_ fits, .cons (fun mark' here => ?_) fits', ?_⟩
          · rintro _ ⟨⟩
            rfl
          · exact agree mark rfl mark' here
          · exact List.forall_mem_cons.mpr ⟨.inr (.inl List.mem_cons_self), later⟩
      | none =>
          cases slot' with
          | some mark =>
              refine ⟨mark :: xs, .cons nofun fits, .cons ?_ fits', ?_⟩
              · rintro _ ⟨⟩
                rfl
              · exact List.forall_mem_cons.mpr ⟨.inr (.inr List.mem_cons_self), later⟩
          | none =>
              exact ⟨filler :: xs, .cons nofun fits, .cons nofun fits',
                List.forall_mem_cons.mpr ⟨.inl rfl, later⟩⟩

theorem Compatible.of_fits (fits : Fits slots xs) (fits' : Fits other xs) :
    Compatible slots other := by
  induction fits generalizing other with
  | nil =>
      cases fits'
      exact .nil
  | cons here _ ih =>
      cases fits' with
      | cons there rest =>
          refine .cons (fun mark isMark mark' isMark' => ?_) (ih rest)
          exact (here mark isMark).symm.trans (there mark' isMark')

end Library
