import Mathlib.Data.List.Basic
import Exocortex.Library.Traversals

/-!
# Messages and their replies

Messages are sent one after the other. Each reply is judged: it settles the message, or the message
is sent again, a bounded number of times, or the whole conversation fails. A judge carries along
what it has gathered from the replies.

The replies come from a stream that may say anything. A conversation ends well exactly when the
stream begins with one group of replies for each message, in which the last reply settles the
message and each reply before it asks for the message again (`converseAll_eq_ok_iff`).
-/

namespace Library

/-- What a reply means for its message. -/
inductive ReplyVerdict where
  | settled
  | retry
deriving DecidableEq

section Conversations

variable {R S E M : Type _} (judge : S → R → Except E (ReplyVerdict × S)) (exhausted : ℕ → E)
  (replies : ℕ → R)

/-- A message is sent until it is settled, and again at most `left` times; the result says how many
replies were heard in all. -/
def converse : ℕ → ℕ → ℕ → S → Except E (S × ℕ)
  | left, attempt, place, gathered =>
      match judge gathered (replies place) with
      | .error error => .error error
      | .ok (.settled, gathered) => .ok (gathered, place + 1)
      | .ok (.retry, gathered) =>
          match left with
          | 0 => .error (exhausted attempt)
          | left + 1 => converse left (attempt + 1) (place + 1) gathered

/-- Each message in its turn. -/
def converseAll (limit : ℕ) : List M → ℕ → S → Except E (S × ℕ)
  | [], place, gathered => .ok (gathered, place)
  | _ :: messages, place, gathered => do
      let next ← converse judge exhausted replies (limit - 1) 1 place gathered
      converseAll limit messages next.2 next.1

/-- The replies from a place on. -/
def heard (place count : ℕ) : List R := (List.range' place count).map replies

/-- The replies that settle one message, and what is gathered from them. -/
inductive Exchanged : S → List R → S → Prop where
  | settled {gathered gathered' : S} {reply : R} :
      judge gathered reply = .ok (.settled, gathered') → Exchanged gathered [reply] gathered'
  | retry {gathered between gathered' : S} {reply : R} {rest : List R} :
      judge gathered reply = .ok (.retry, between) → Exchanged between rest gathered' →
        Exchanged gathered (reply :: rest) gathered'

/-- The groups of replies that settle messages one after the other. -/
inductive Conversed : S → List (List R) → S → Prop where
  | nil {gathered : S} : Conversed gathered [] gathered
  | cons {gathered between gathered' : S} {group : List R} {groups : List (List R)} :
      Exchanged judge gathered group between → Conversed between groups gathered' →
        Conversed gathered (group :: groups) gathered'

variable {judge exhausted replies}

theorem heard_length (place count : ℕ) : (heard replies place count).length = count := by
  rw [heard, List.length_map, List.length_range']

theorem heard_succ (place count : ℕ) :
    heard replies place (count + 1) = replies place :: heard replies (place + 1) count := by
  rw [heard, List.range'_succ, List.map_cons, heard]

theorem heard_add (place first second : ℕ) :
    heard replies place (first + second) =
      heard replies place first ++ heard replies (place + first) second := by
  rw [heard, heard, heard, ← List.map_append, List.range'_append_1]

variable {gathered gathered' : S}

theorem Exchanged.ne_nil {group : List R} (exchanged : Exchanged judge gathered group gathered') :
    group ≠ [] := by
  cases exchanged <;> exact List.cons_ne_nil _ _

/-- **A message is settled** when the stream goes on with replies that settle it. -/
theorem converse_eq_ok_iff {left attempt place next : ℕ} :
    converse judge exhausted replies left attempt place gathered = .ok (gathered', next) ↔
      ∃ group, Exchanged judge gathered group gathered' ∧ group.length ≤ left + 1 ∧
        group = heard replies place group.length ∧ next = place + group.length := by
  induction left generalizing attempt place gathered with
  | zero =>
      rw [converse]
      constructor
      · intro sent
        split at sent
        · cases sent
        · next between judged =>
            cases sent
            exact ⟨[replies place], .settled judged, Nat.le_refl _, rfl, rfl⟩
        · cases sent
      · rintro ⟨group, exchanged, short, same, rfl⟩
        cases exchanged with
        | settled judged =>
            cases same
            rw [judged]
            rfl
        | retry judged later =>
            have some := List.length_pos_iff.mpr later.ne_nil
            rw [List.length_cons] at short
            omega
  | succ left ih =>
      rw [converse]
      constructor
      · intro sent
        split at sent
        · cases sent
        · next between judged =>
            cases sent
            exact ⟨[replies place], .settled judged, by simp, rfl, rfl⟩
        · next between judged =>
            obtain ⟨group, exchanged, short, same, rfl⟩ := ih.mp sent
            refine ⟨replies place :: group, .retry judged exchanged, Nat.succ_le_succ short, ?_, ?_⟩
            · rw [List.length_cons, heard_succ, ← same]
            · rw [List.length_cons]
              omega
      · rintro ⟨group, exchanged, short, same, rfl⟩
        cases exchanged with
        | settled judged =>
            cases same
            rw [judged]
            rfl
        | retry judged later =>
            rw [List.length_cons, heard_succ] at same
            obtain ⟨rfl, tail⟩ := List.cons.inj same
            rw [judged]
            refine ih.mpr ⟨_, later, Nat.le_of_succ_le_succ short, tail, ?_⟩
            rw [List.length_cons]
            omega

/-- **A conversation ends well** when the stream goes on with a settling group of replies for each
of its messages. -/
theorem converseAll_eq_ok_iff {limit place next : ℕ} {messages : List M} :
    converseAll judge exhausted replies limit messages place gathered = .ok (gathered', next) ↔
      ∃ groups : List (List R), groups.length = messages.length ∧
        Conversed judge gathered groups gathered' ∧
        (∀ group ∈ groups, group.length ≤ limit - 1 + 1) ∧
        groups.flatten = heard replies place groups.flatten.length ∧
        next = place + groups.flatten.length := by
  induction messages generalizing place gathered with
  | nil =>
      rw [converseAll]
      constructor
      · intro sent
        cases sent
        exact ⟨[], rfl, .nil, by simp, rfl, rfl⟩
      · rintro ⟨groups, none, conversed, -, -, rfl⟩
        obtain rfl := List.length_eq_zero_iff.mp none
        cases conversed
        rfl
  | cons message messages ih =>
      rw [converseAll, bind_eq_ok_iff]
      constructor
      · rintro ⟨⟨between, middle⟩, sent, later⟩
        obtain ⟨group, exchanged, short, same, rfl⟩ := converse_eq_ok_iff.mp sent
        obtain ⟨groups, count, conversed, shorter, rest, rfl⟩ := ih.mp later
        refine ⟨group :: groups, by simp [count], .cons exchanged conversed,
          List.forall_mem_cons.mpr ⟨short, shorter⟩, ?_, ?_⟩
        · rw [List.flatten_cons, List.length_append, heard_add, ← same, ← rest]
        · rw [List.flatten_cons, List.length_append, Nat.add_assoc]
      · rintro ⟨groups, count, conversed, short, same, rfl⟩
        cases conversed with
        | nil => cases count
        | @cons _ between _ group groups exchanged conversed =>
            rw [List.flatten_cons, List.length_append, heard_add] at same
            obtain ⟨first, rest⟩ := List.append_inj same (heard_length _ _).symm
            obtain ⟨here, shorter⟩ := List.forall_mem_cons.mp short
            refine ⟨(between, place + group.length),
              converse_eq_ok_iff.mpr ⟨group, exchanged, here, first, rfl⟩,
              ih.mpr ⟨groups, Nat.succ.inj count, conversed, shorter, rest, ?_⟩⟩
            rw [List.flatten_cons, List.length_append, Nat.add_assoc]

end Conversations

end Library
