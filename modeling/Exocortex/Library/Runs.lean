import Mathlib.Tactic.Common

/-!
# Machines and their runs

A machine is a step function with a condition under which a step may be taken. A
list of actions is allowed from a state when every step of it is. An invariant that
every allowed step keeps holds at the end of every allowed list of actions, and so
in every state along it.
-/

namespace Library

/-- A step function, and the actions that may be taken in a state. -/
structure Machine (S A : Type*) where
  allowed : S → A → Prop
  step : S → A → S

namespace Machine

variable {S A : Type*} (m : Machine S A)

/-- The state after a list of actions. -/
def run (s : S) (actions : List A) : S := actions.foldl m.step s

/-- Every action of a list may be taken in its turn. -/
def Allows : S → List A → Prop
  | _, [] => True
  | s, action :: actions => m.allowed s action ∧ Allows (m.step s action) actions

instance decidableAllows [∀ s action, Decidable (m.allowed s action)] :
    (s : S) → (actions : List A) → Decidable (m.Allows s actions)
  | _, [] => isTrue trivial
  | s, action :: actions =>
      have := decidableAllows (m.step s action) actions
      inferInstanceAs (Decidable (m.allowed s action ∧ m.Allows (m.step s action) actions))

/-- The property holds in every state along a list of actions. -/
def Always (P : S → Prop) (s : S) (actions : List A) : Prop :=
  ∀ front back, actions = front ++ back → P (m.run s front)

/-- The machine under a further condition on its steps. -/
def restrict (condition : S → A → Prop) : Machine S A where
  allowed s action := m.allowed s action ∧ condition s action
  step := m.step

@[simp] theorem run_restrict (condition : S → A → Prop) (s : S) (actions : List A) :
    (m.restrict condition).run s actions = m.run s actions := rfl

variable {m}

theorem run_append (s : S) (front back : List A) :
    m.run s (front ++ back) = m.run (m.run s front) back :=
  List.foldl_append

variable {s : S} {actions : List A}

theorem allows_append {front back : List A} :
    m.Allows s (front ++ back) ↔ m.Allows s front ∧ m.Allows (m.run s front) back := by
  induction front generalizing s with
  | nil => exact (true_and _).symm ▸ Iff.rfl
  | cons action front ih => exact (and_congr_right fun _ => ih).trans and_assoc.symm

variable {P : S → Prop}

theorem always_nil : m.Always P s [] ↔ P s := by
  constructor
  · exact fun always => always [] [] rfl
  · intro here front back split
    obtain ⟨rfl, -⟩ := List.append_eq_nil_iff.mp split.symm
    exact here

theorem always_cons {action : A} :
    m.Always P s (action :: actions) ↔ P s ∧ m.Always P (m.step s action) actions := by
  constructor
  · refine fun always => ⟨always [] _ rfl, fun front back split => ?_⟩
    exact always (action :: front) back (congrArg (action :: ·) split)
  · rintro ⟨here, later⟩ front back split
    cases front with
    | nil => exact here
    | cons first front =>
        obtain ⟨rfl, rest⟩ := List.cons.inj split
        exact later front back rest

/-- **The rule of exact conditions.** Where a step keeps a property just when it is allowed, the
property holds all along a list of actions just when they are all allowed. -/
theorem always_iff_allows {I : S → Prop} (keeps : ∀ s action, I s → I (m.step s action))
    (exact : ∀ s action, I s → P s → (P (m.step s action) ↔ m.allowed s action)) :
    ∀ {s : S} {actions : List A}, I s → P s → (m.Always P s actions ↔ m.Allows s actions) := by
  intro s actions
  induction actions generalizing s with
  | nil => exact fun _ here => always_nil.trans (iff_of_true here trivial)
  | cons action actions ih =>
      intro inv here
      rw [always_cons, and_iff_right here]
      constructor
      · intro always
        have next : P (m.step s action) := always [] _ rfl
        exact ⟨(exact s action inv here).mp next, (ih (keeps s action inv) next).mp always⟩
      · rintro ⟨allowed, later⟩
        have next := (exact s action inv here).mpr allowed
        exact (ih (keeps s action inv) next).mpr later

/-- **The invariant rule.** -/
theorem Allows.invariant {I : S → Prop} (allows : m.Allows s actions) (start : I s)
    (keeps : ∀ s action, I s → m.allowed s action → I (m.step s action)) : I (m.run s actions) := by
  induction actions generalizing s with
  | nil => exact start
  | cons action actions ih => exact ih allows.2 (keeps s action start allows.1)

end Machine

end Library
