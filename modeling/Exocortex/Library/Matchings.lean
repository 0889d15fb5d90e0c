import Mathlib

/-!
# First-come matchings

Those who come are served in order, and each takes the first place that it accepts and that is
still free. What is matched then has no pair that accept each other and would both have been better
served by coming together (`FirstCome.settled`). This does not tell those who come from the places
(`FirstCome.swap`), and there is one such matching only (`FirstCome.unique`). So serving the places
in order gives the same one.
-/

namespace Library

/-- A matching in which no two that accept each other are both unmatched or matched later. -/
structure FirstCome (accepts matched : ℕ → ℕ → Prop) : Prop where
  within : ∀ {i j}, matched i j → accepts i j
  one_place : ∀ {i j j'}, matched i j → matched i j' → j = j'
  one_taker : ∀ {i i' j}, matched i j → matched i' j → i = i'
  settled : ∀ {i j}, accepts i j → (∃ j' ≤ j, matched i j') ∨ ∃ i' ≤ i, matched i' j

/-- Those who have come so far. -/
def UpTo (accepts : ℕ → ℕ → Prop) (count i j : ℕ) : Prop := i < count ∧ accepts i j

namespace FirstCome

variable {accepts matched other : ℕ → ℕ → Prop}

/-- Seen from the places it is one too. -/
theorem swap (first : FirstCome accepts matched) :
    FirstCome (fun j i => accepts i j) (fun j i => matched i j) where
  within := first.within
  one_place := first.one_taker
  one_taker := first.one_place
  settled accepted := (first.settled accepted).symm

/-- What the one has matched the other has, by induction on the sum of the numbers. -/
theorem matched_of_matched (first : FirstCome accepts matched) (second : FirstCome accepts other)
    {i j : ℕ} (taken : matched i j) : other i j := by
  induction size : i + j using Nat.strongRecOn generalizing i j matched other with
  | _ size ih =>
      rcases second.settled (first.within taken) with ⟨j', early, taken'⟩ | ⟨i', early, taken'⟩
      · rcases Nat.lt_or_eq_of_le early with earlier | rfl
        · have back := ih (i + j') (by omega) second first taken' rfl
          exact absurd (first.one_place back taken) (Nat.ne_of_lt earlier)
        · exact taken'
      · rcases Nat.lt_or_eq_of_le early with earlier | rfl
        · have back := ih (i' + j) (by omega) second first taken' rfl
          exact absurd (first.one_taker back taken) (Nat.ne_of_lt earlier)
        · exact taken'

/-- **There is one first-come matching.** -/
theorem unique (first : FirstCome accepts matched) (second : FirstCome accepts other) :
    matched = other := by
  funext i j
  exact propext ⟨first.matched_of_matched second, second.matched_of_matched first⟩

/-- Where everyone accepts the place of their own number, that is what they get. -/
theorem diagonal (both : ∀ {i j}, accepts i j → accepts i i ∧ accepts j j) :
    FirstCome accepts fun i j => i = j ∧ accepts i i where
  within := by
    rintro i j ⟨rfl, own⟩
    exact own
  one_place := by
    rintro i j j' ⟨rfl, -⟩ ⟨rfl, -⟩
    rfl
  one_taker := by
    rintro i i' j ⟨rfl, -⟩ ⟨rfl, -⟩
    rfl
  settled := by
    intro i j accepted
    rcases Nat.le_total i j with before | after
    · exact .inl ⟨i, before, rfl, (both accepted).1⟩
    · exact .inr ⟨j, after, rfl, (both accepted).2⟩

theorem start : FirstCome (UpTo accepts 0) fun _ _ => False where
  within := nofun
  one_place := nofun
  one_taker := nofun
  settled accepted := absurd accepted.1 (Nat.not_lt_zero _)

/-- **Whoever comes next takes the first free place**, or there is none. -/
theorem serve {count : ℕ} {chosen : Option ℕ} (first : FirstCome (UpTo accepts count) matched)
    (free : ∀ j, chosen = some j → accepts count j ∧ ∀ i, ¬ matched i j)
    (earliest : ∀ j, accepts count j → (∃ i, matched i j) ∨ ∃ j' ≤ j, chosen = some j') :
    FirstCome (UpTo accepts (count + 1)) fun i j => matched i j ∨ i = count ∧ chosen = some j where
  within := by
    rintro i j (taken | ⟨rfl, took⟩)
    · exact ⟨Nat.lt_succ_of_lt (first.within taken).1, (first.within taken).2⟩
    · exact ⟨Nat.lt_succ_self _, (free j took).1⟩
  one_place := by
    rintro i j j' (taken | ⟨rfl, took⟩) (taken' | ⟨same, took'⟩)
    · exact first.one_place taken taken'
    · exact absurd (first.within taken).1 (same ▸ Nat.lt_irrefl _)
    · exact absurd (first.within taken').1 (Nat.lt_irrefl _)
    · exact Option.some.inj (took.symm.trans took')
  one_taker := by
    rintro i i' j (taken | ⟨rfl, took⟩) (taken' | ⟨rfl, took'⟩)
    · exact first.one_taker taken taken'
    · exact absurd taken ((free j took').2 i)
    · exact absurd taken' ((free j took).2 i')
    · rfl
  settled := by
    rintro i j ⟨came, accepted⟩
    rcases Nat.lt_succ_iff_lt_or_eq.mp came with before | rfl
    · rcases first.settled ⟨before, accepted⟩ with ⟨j', early, taken⟩ | ⟨i', early, taken⟩
      · exact .inl ⟨j', early, .inl taken⟩
      · exact .inr ⟨i', early, .inl taken⟩
    · rcases earliest j accepted with ⟨i', taken⟩ | ⟨j', early, took⟩
      · exact .inr ⟨i', Nat.le_of_lt (first.within taken).1, .inl taken⟩
      · exact .inl ⟨j', early, .inr ⟨rfl, took⟩⟩

end FirstCome

end Library
