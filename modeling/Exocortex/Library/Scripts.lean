import Mathlib.Tactic.Common

/-!
# Programs that make calls

A script makes calls one after the other and goes on by the answers, which may be any. A run of it
lists the calls with their answers, and ends with a value (`Runs`). A run of two scripts in a row is
a run of the one and then a run of the other (`runs_bind`).

While a script runs, another task may end. `interruptible` asks before every call whether it has,
and gives the script up when it has; what was kept of the answers until then remains. `watched` asks
too, but lets the script run to its end.

`Surely` says that every run makes a call of some kind. It holds of a script when it holds of its
beginning, or of whatever comes behind.
-/

namespace Library

/-- A program over calls with answers. -/
inductive Script (C : Type) (R : C → Type) (α : Type) where
  | done (value : α)
  | call (c : C) (next : R c → Script C R α)

namespace Script

variable {C : Type} {R : C → Type} {α β : Type}

def bind : Script C R α → (α → Script C R β) → Script C R β
  | done value, f => f value
  | call c next, f => call c fun answer => bind (next answer) f

instance : Monad (Script C R) where
  pure := done
  bind := bind

/-- The script with its calls taken for calls of another kind. -/
def lift {D : Type} {S : D → Type} (f : C → D) (answered : ∀ c, S (f c) → R c) :
    Script C R α → Script D S α
  | done value => done value
  | call c next => call (f c) fun answer => lift f answered (next (answered c answer))

/-- A call with its answer. -/
abbrev Event (C : Type) (R : C → Type) : Type := Sigma R

/-- What a script can do. -/
inductive Runs : Script C R α → List (Event C R) → α → Prop where
  | done (value : α) : Runs (done value) [] value
  | call {c : C} {next : R c → Script C R α} {events : List (Event C R)} {value : α}
      (answer : R c) (rest : Runs (next answer) events value) :
      Runs (call c next) (⟨c, answer⟩ :: events) value

variable {events : List (Event C R)} {script : Script C R α} {f : α → Script C R β}

theorem runs_done_iff {value value' : α} :
    Runs (C := C) (R := R) (done value) events value' ↔ events = [] ∧ value' = value := by
  constructor
  · intro run
    cases run
    exact ⟨rfl, rfl⟩
  · rintro ⟨rfl, rfl⟩
    exact .done value'

theorem runs_call_iff {c : C} {next : R c → Script C R α} {value : α} :
    Runs (call c next) events value ↔
      ∃ answer rest, events = ⟨c, answer⟩ :: rest ∧ Runs (next answer) rest value := by
  constructor
  · intro run
    cases run with
    | call answer rest => exact ⟨answer, _, rfl, rest⟩
  · rintro ⟨answer, rest, rfl, run⟩
    exact .call answer run

/-- **A run of two scripts is a run of the one and then a run of the other.** -/
theorem runs_bind_iff {result : β} : Runs (script >>= f) events result ↔
      ∃ front value back, events = front ++ back ∧ Runs script front value ∧
        Runs (f value) back result := by
  induction script generalizing events with
  | done value =>
      constructor
      · exact fun run => ⟨[], value, events, rfl, .done value, run⟩
      · rintro ⟨front, value', back, rfl, first, rest⟩
        cases first
        exact rest
  | call c next ih =>
      constructor
      · intro run
        obtain ⟨answer, others, rfl, inner⟩ := runs_call_iff.mp run
        obtain ⟨front, value, back, rfl, first, later⟩ := (ih answer).mp inner
        exact ⟨⟨c, answer⟩ :: front, value, back, rfl, .call answer first, later⟩
      · rintro ⟨front, value, back, rfl, first, rest⟩
        obtain ⟨answer, others, rfl, inner⟩ := runs_call_iff.mp first
        exact .call answer ((ih answer).mpr ⟨others, value, back, rfl, inner, rest⟩)

/-! ## A task beside the script -/

section Beside

variable {I σ : Type} (poll : C) (read : R poll → Option I) (track : σ → (c : C) → R c → σ)

/-- The script, given up when the other task has ended, with what was kept of the answers. -/
def interruptible : σ → Script C R α → Script C R (σ × (I ⊕ α))
  | kept, done value => call poll fun answer =>
      match read answer with
      | some ended => done (kept, .inl ended)
      | none => done (kept, .inr value)
  | kept, call c next => call poll fun answer =>
      match read answer with
      | some ended => done (kept, .inl ended)
      | none => call c fun answer => interruptible (track kept c answer) (next answer)

/-- The script to its end, and how the other task ended, if it did before. -/
def watched : Script C R α → Script C R (Option I × α)
  | done value => call poll fun answer => done (read answer, value)
  | call c next => call poll fun answer =>
      match read answer with
      | some ended => call c next >>= fun value => done (some ended, value)
      | none => call c fun answer => watched (next answer)

end Beside

/-! ## Calls that are surely made -/

/-- Every run makes a call with this property. -/
def Surely (P : Event C R → Prop) (script : Script C R α) : Prop :=
  ∀ events value, Runs script events value → ∃ event ∈ events, P event

variable {P : Event C R → Prop}

theorem Surely.here {c : C} (holds : ∀ answer, P ⟨c, answer⟩) (next : R c → Script C R α) :
    Surely P (call c next) := by
  intro events value run
  obtain ⟨answer, rest, rfl, -⟩ := runs_call_iff.mp run
  exact ⟨_, List.mem_cons_self, holds answer⟩

theorem Surely.behind (rest : ∀ value, Surely P (f value)) : Surely P (script >>= f) := by
  intro events result run
  obtain ⟨front, value, back, rfl, -, later⟩ := runs_bind_iff.mp run
  obtain ⟨event, listed, holds⟩ := rest value back result later
  exact ⟨event, List.mem_append_right _ listed, holds⟩

theorem Surely.before (surely : Surely P script) (f : α → Script C R β) :
    Surely P (script >>= f) := by
  intro events result run
  obtain ⟨front, value, back, rfl, first, -⟩ := runs_bind_iff.mp run
  obtain ⟨event, listed, holds⟩ := surely front value first
  exact ⟨event, List.mem_append_left _ listed, holds⟩

end Script

end Library
