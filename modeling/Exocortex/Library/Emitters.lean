import Mathlib

/-!
# Machines that read and emit

A machine reads inputs one by one. Each takes it to another state and makes it emit outputs, or
makes it fail, and then it stops (`feedAll`). Its inputs may come in chunks (`feedChunks`); of a
chunk in which it fails, what it emitted before is lost.

How the inputs are cut decides neither the state nor whether it fails, nor, when it does not fail,
what is emitted. When it fails, the outputs for two ways of cutting differ in how far they go
(`feedChunks_of_flatten_eq`).
-/

namespace Library

variable {σ ι ω ε : Type*}

/-- The state after some inputs, what was emitted, and the error that stopped the machine. -/
@[ext] structure Emission (σ ω ε : Type*) where
  state : σ
  outputs : List ω
  failure : Option ε

namespace Emission

/-- A state and nothing else. -/
def quiet (state : σ) : Emission σ ω ε := ⟨state, [], none⟩

/-- Go on from the state, unless there was an error. -/
def andThen (first : Emission σ ω ε) (next : σ → Emission σ ω ε) : Emission σ ω ε :=
  match first.failure with
  | none => ⟨(next first.state).state, first.outputs ++ (next first.state).outputs,
      (next first.state).failure⟩
  | some _ => first

/-- A failure without what was emitted before it. -/
def whole (emission : Emission σ ω ε) : Emission σ ω ε :=
  match emission.failure with
  | none => emission
  | some _ => { emission with outputs := [] }

@[simp] theorem mk_andThen (s : σ) (outputs : List ω) (next : σ → Emission σ ω ε) :
    andThen ⟨s, outputs, none⟩ next =
      ⟨(next s).state, outputs ++ (next s).outputs, (next s).failure⟩ := rfl

@[simp] theorem quiet_andThen (s : σ) (next : σ → Emission σ ω ε) :
    andThen (quiet s) next = next s := rfl

theorem andThen_quiet (first : Emission σ ω ε) : andThen first quiet = first := by
  obtain ⟨s, outputs, failure⟩ := first
  cases failure with
  | none => exact Emission.ext rfl (List.append_nil outputs) rfl
  | some error => rfl

variable {next other : σ → Emission σ ω ε} {first : Emission σ ω ε}

/-- Only the state that was reached matters for how to go on. -/
theorem andThen_congr (same : next first.state = other first.state) :
    andThen first next = andThen first other := by
  obtain ⟨s, outputs, failure⟩ := first
  cases failure with
  | none => rw [mk_andThen, mk_andThen, same]
  | some error => rfl

/-- The same outputs and error later on are the same outputs and error in all. -/
theorem andThen_agree (same : (next first.state).outputs = (other first.state).outputs ∧
      (next first.state).failure = (other first.state).failure) :
    (andThen first next).outputs = (andThen first other).outputs ∧
      (andThen first next).failure = (andThen first other).failure := by
  obtain ⟨s, outputs, failure⟩ := first
  cases failure with
  | none => exact ⟨congrArg (outputs ++ ·) same.1, same.2⟩
  | some error => exact ⟨rfl, rfl⟩

theorem andThen_assoc (first : Emission σ ω ε) (next later : σ → Emission σ ω ε) :
    andThen (andThen first next) later = andThen first fun s => andThen (next s) later := by
  obtain ⟨s, outputs, failure⟩ := first
  cases failure with
  | some error => rfl
  | none =>
      rw [mk_andThen, mk_andThen]
      obtain ⟨t, more, failure⟩ := next s
      cases failure with
      | some error => rfl
      | none => exact Emission.ext rfl (List.append_assoc _ _ _) rfl

end Emission

section Machine

variable (step : σ → ι → Emission σ ω ε)

def feedAll : σ → List ι → Emission σ ω ε
  | s, [] => .quiet s
  | s, x :: xs => (step s x).andThen fun t => feedAll t xs

/-- Chunk by chunk, until the first error. -/
def feedChunks : σ → List (List ι) → Emission σ ω ε
  | s, [] => .quiet s
  | s, chunk :: chunks => (feedAll step s chunk).whole.andThen fun t => feedChunks t chunks

variable {step}

@[simp] theorem feedAll_nil (s : σ) : feedAll step s [] = .quiet s := rfl

theorem feedAll_cons (s : σ) (x : ι) (xs : List ι) :
    feedAll step s (x :: xs) = (step s x).andThen fun t => feedAll step t xs := rfl

theorem feedAll_singleton (s : σ) (x : ι) : feedAll step s [x] = step s x :=
  Emission.andThen_quiet _

theorem feedAll_append (s : σ) (xs ys : List ι) :
    feedAll step s (xs ++ ys) = (feedAll step s xs).andThen fun t => feedAll step t ys := by
  induction xs generalizing s with
  | nil => rfl
  | cons x xs ih =>
      rw [List.cons_append, feedAll_cons, feedAll_cons, Emission.andThen_assoc, funext ih]

/-- What every input keeps, a run keeps. -/
theorem feedAll_keeps {keeps : σ → Prop} (each : ∀ s x, keeps s → keeps (step s x).state) {s : σ}
    (holds : keeps s) (xs : List ι) : keeps (feedAll step s xs).state := by
  induction xs generalizing s with
  | nil => exact holds
  | cons x xs ih =>
      have next := each s x holds
      rw [feedAll_cons]
      generalize step s x = emission at next
      obtain ⟨t, outputs, failure⟩ := emission
      cases failure with
      | none => exact ih next
      | some error => exact next

/-- In chunks, the state and the error are the same, and the outputs are a beginning, all of them
unless there is an error. -/
theorem feedChunks_eq_feedAll (s : σ) (chunks : List (List ι)) :
    (feedChunks step s chunks).state = (feedAll step s chunks.flatten).state ∧
      (feedChunks step s chunks).failure = (feedAll step s chunks.flatten).failure ∧
      ((feedAll step s chunks.flatten).failure = none →
        (feedChunks step s chunks).outputs = (feedAll step s chunks.flatten).outputs) ∧
      (feedChunks step s chunks).outputs <+: (feedAll step s chunks.flatten).outputs := by
  induction chunks generalizing s with
  | nil => exact ⟨rfl, rfl, fun _ => rfl, List.prefix_rfl⟩
  | cons chunk chunks ih =>
      rw [List.flatten_cons, feedAll_append, feedChunks]
      obtain ⟨t, outputs, failure⟩ := feedAll step s chunk
      cases failure with
      | some error => exact ⟨rfl, rfl, fun absent => (by cases absent), List.nil_prefix⟩
      | none =>
          obtain ⟨state, failure, all, front⟩ := ih t
          refine ⟨state, failure, fun none_ => congrArg (outputs ++ ·) (all none_), ?_⟩
          exact (List.prefix_append_right_inj outputs).mpr front

/-- One emission is another one up to how far the outputs of a failure go. -/
structure Emission.Agrees (emission other : Emission σ ω ε) : Prop where
  failure : emission.failure = other.failure
  outputs : emission.failure = none → emission.outputs = other.outputs
  front : emission.outputs <+: other.outputs ∨ other.outputs <+: emission.outputs

variable {chunks others : List (List ι)}

/-- Two ways of cutting inputs, of which the machine makes the same, agree. -/
theorem feedChunks_agrees {s : σ}
    (outputs : (feedAll step s chunks.flatten).outputs = (feedAll step s others.flatten).outputs)
    (failure : (feedAll step s chunks.flatten).failure = (feedAll step s others.flatten).failure) :
    (feedChunks step s chunks).Agrees (feedChunks step s others) := by
  obtain ⟨-, failed, all, front⟩ := @feedChunks_eq_feedAll _ _ _ _ step s chunks
  obtain ⟨-, failed', all', front'⟩ := @feedChunks_eq_feedAll _ _ _ _ step s others
  refine ⟨failed.trans (failure.trans failed'.symm), fun none_ => ?_, ?_⟩
  · rw [failed] at none_
    rw [all none_, outputs, all' (failure.symm.trans none_)]
  · rw [outputs] at front
    exact List.prefix_or_prefix_of_prefix front front'

/-- Two ways of cutting the same inputs agree, and lead to the same state. -/
theorem feedChunks_of_flatten_eq {s : σ} (same : chunks.flatten = others.flatten) :
    (feedChunks step s chunks).Agrees (feedChunks step s others) ∧
      (feedChunks step s chunks).state = (feedChunks step s others).state := by
  refine ⟨feedChunks_agrees (by rw [same]) (by rw [same]), ?_⟩
  rw [(feedChunks_eq_feedAll s chunks).1, (feedChunks_eq_feedAll s others).1, same]

end Machine

end Library
