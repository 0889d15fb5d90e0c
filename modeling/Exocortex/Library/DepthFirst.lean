import Mathlib.Data.Finset.Card
import Mathlib.Data.Finset.Dedup
import Mathlib.Data.List.Perm.Subperm

/-!
# Depth-first walks with a budget

A walk visits what is on top of its stack, and puts on the stack what leads on from there and was
not seen before. It ends when nothing waits, or with its budget.

What a walk visits next depends only on what led on from the visits before (`visits_split`). Of
what waits, a walk with fewer steps to go visits all that one with more of them visits
(`visits_mono`), since it puts less on top. Enough new values without a step on are all that a
walk still visits (`visits_flooded`).
-/

namespace Library

variable {α : Type*} [DecidableEq α]

/-- What was not seen before goes on the stack, the last one on top. -/
def push (found stack seen : List α) : List α × List α :=
  found.foldl (fun state id =>
    if id ∈ state.2 then state else (id :: state.1, id :: state.2)) (stack, seen)

/-- What a walk visits, in this order. -/
def visits (next : α → List α) : ℕ → List α → List α → List α
  | 0, _, _ => []
  | _ + 1, [], _ => []
  | budget + 1, id :: stack, seen =>
      id :: visits next budget (push (next id) stack seen).1 (push (next id) stack seen).2

variable {next : α → List α} {id : α}

/-- The stack and what is seen grow by the same new values. -/
theorem push_spec (found stack seen : List α) :
    ∃ new, push found stack seen = (new ++ stack, new ++ seen) ∧ new.Nodup ∧
      ∀ id, id ∈ new ↔ id ∈ found ∧ id ∉ seen := by
  induction found generalizing stack seen with
  | nil => exact ⟨[], rfl, List.nodup_nil, fun id => by simp⟩
  | cons first found ih =>
      have step : push (first :: found) stack seen =
          if first ∈ seen then push found stack seen
          else push found (first :: stack) (first :: seen) := by
        rw [push, List.foldl_cons]
        split <;> rfl
      rw [step]
      split
      · next known =>
          obtain ⟨new, pushed, distinct, isNew⟩ := ih stack seen
          refine ⟨new, pushed, distinct, fun id => ?_⟩
          rw [isNew]
          grind
      · next unknown =>
          obtain ⟨new, pushed, distinct, isNew⟩ := ih (first :: stack) (first :: seen)
          refine ⟨new ++ [first], ?_, ?_, fun id => ?_⟩
          · rw [pushed]
            simp
          · refine List.nodup_append.mpr ⟨distinct, List.nodup_singleton _, ?_⟩
            intro id member other isFirst same
            refine ((isNew id).mp member).2 ?_
            rw [same, List.mem_singleton.mp isFirst]
            exact List.mem_cons_self
          · rw [List.mem_append, isNew, List.mem_singleton]
            grind

/-- What waits is new, and what was seen was visited or waits. -/
structure Front (visited stack seen : List α) : Prop where
  distinct : stack.Nodup
  known : ∀ id ∈ stack, id ∈ seen
  kept : ∀ id ∈ seen, id ∈ visited ∨ id ∈ stack

variable {seen stack visited above below : List α} {budget : ℕ}

theorem Front.step (front : Front visited (id :: stack) seen) (found : List α) :
    Front (visited ++ [id]) (push found stack seen).1 (push found stack seen).2 := by
  obtain ⟨new, pushed, distinct, isNew⟩ := push_spec found stack seen
  rw [pushed]
  refine ⟨?_, fun other member => ?_, fun other member => ?_⟩
  · refine List.nodup_append.mpr ⟨distinct, (List.nodup_cons.mp front.distinct).2, ?_⟩
    rintro other fresh _ waits rfl
    exact ((isNew other).mp fresh).2 (front.known other (List.mem_cons_of_mem _ waits))
  · rcases List.mem_append.mp member with fresh | waits
    · exact List.mem_append_left _ fresh
    · exact List.mem_append_right _ (front.known other (List.mem_cons_of_mem _ waits))
  · rcases List.mem_append.mp member with fresh | old
    · exact .inr (List.mem_append_left _ fresh)
    · have place := front.kept other old
      simp only [List.mem_append, List.mem_cons, List.not_mem_nil, or_false] at place ⊢
      rcases place with before | here | waits
      · exact .inl (.inl before)
      · exact .inl (.inr here)
      · exact .inr (.inr waits)

/-- A walk comes to a visit as every walk does that leads on alike from the visits before. -/
theorem visits_split {before after : List α} (front : Front visited stack seen)
    (walk : visits next budget stack seen = before ++ id :: after) :
    ∃ left below found, budget = before.length + (left + 1) ∧
      Front (visited ++ before) (id :: below) found ∧
      (∀ other ∈ found, other ∈ seen ∨ ∃ parent ∈ before, other ∈ next parent) ∧
      ∀ next' : α → List α, (∀ other ∈ before, next' other = next other) →
        visits next' budget stack seen = before ++ visits next' (left + 1) (id :: below) found := by
  induction before generalizing budget visited stack seen with
  | nil =>
      cases budget with
      | zero => cases walk
      | succ budget =>
          cases stack with
          | nil => cases walk
          | cons top stack =>
              obtain rfl : top = id := (List.cons.inj walk).1
              refine ⟨budget, stack, seen, by simp, ?_, fun other member => .inl member,
                fun _ _ => rfl⟩
              rw [List.append_nil]
              exact front
  | cons first before ih =>
      cases budget with
      | zero => cases walk
      | succ budget =>
          cases stack with
          | nil => cases walk
          | cons top stack =>
              obtain ⟨same, rest⟩ := List.cons.inj walk
              subst same
              obtain ⟨left, below, found, enough, later, origin, congr⟩ :=
                ih (front.step (next top)) rest
              refine ⟨left, below, found, ?_, ?_, fun other member => ?_, fun next' alike => ?_⟩
              · rw [enough, List.length_cons]
                omega
              · rw [List.append_cons]
                exact later
              · obtain ⟨new, pushed, -, isNew⟩ := push_spec (next top) stack seen
                rcases origin other member with old | ⟨parent, listed, named⟩
                · rw [pushed] at old
                  rcases List.mem_append.mp old with fresh | old
                  · exact .inr ⟨top, List.mem_cons_self, ((isNew other).mp fresh).1⟩
                  · exact .inl old
                · exact .inr ⟨parent, List.mem_cons_of_mem _ listed, named⟩
              · have here := alike top List.mem_cons_self
                rw [List.cons_append, ← congr next' fun other member =>
                  alike other (List.mem_cons_of_mem _ member), ← here]
                rfl

/-- What waits is visited, unless the walk uses up its budget. -/
theorem visits_of_waiting (budget : ℕ) (waits : id ∈ stack) :
    id ∈ visits next budget stack seen ∨ (visits next budget stack seen).length = budget := by
  induction budget generalizing stack seen with
  | zero => exact .inr rfl
  | succ budget ih =>
      cases stack with
      | nil => cases waits
      | cons top stack =>
          rw [visits, List.length_cons]
          rcases List.mem_cons.mp waits with rfl | below
          · exact .inl List.mem_cons_self
          · obtain ⟨new, pushed, -, -⟩ := push_spec (next top) stack seen
            rw [pushed]
            exact (ih (List.mem_append_right new below)).imp (List.mem_cons_of_mem _) (congrArg _)

/-! ## Fewer steps -/

/-- What a walk visits before something that waits: as much as lies above it, and what leads on
from there. -/
theorem cover_of_visits (apart : id ∉ above) (isSeen : id ∈ seen)
    (visited : id ∈ visits next budget (above ++ id :: below) seen) :
    ∃ cover : Finset α, cover.card < budget ∧ (∀ other ∈ above, other ∈ cover) ∧
      ∀ other ∈ cover, ∀ found ∈ next other, found ∈ seen ∨ found ∈ cover := by
  induction budget generalizing above seen with
  | zero => cases visited
  | succ budget ih =>
      cases above with
      | nil => exact ⟨∅, by simp, by simp, by simp⟩
      | cons top above =>
          obtain ⟨new, pushed, -, isNew⟩ := push_spec (next top) (above ++ id :: below) seen
          rw [List.cons_append, visits, pushed, ← List.append_assoc] at visited
          rw [List.mem_cons, not_or] at apart
          have higher : id ∉ new ++ above := by
            rw [List.mem_append, not_or]
            exact ⟨fun fresh => ((isNew id).mp fresh).2 isSeen, apart.2⟩
          obtain ⟨cover, few, covers, closed⟩ := ih higher (List.mem_append_right new isSeen)
            ((List.mem_cons.mp visited).resolve_left apart.1)
          have fresh : ∀ found ∈ next top, found ∈ seen ∨ found ∈ cover := by
            intro found named
            by_cases known : found ∈ seen
            · exact .inl known
            · exact .inr (covers found (List.mem_append_left _ ((isNew found).mpr ⟨named, known⟩)))
          refine ⟨insert top cover, ?_, fun other member => ?_, fun other member found named => ?_⟩
          · have := Finset.card_insert_le top cover
            omega
          · rcases List.mem_cons.mp member with rfl | deeper
            · exact Finset.mem_insert_self _ _
            · exact Finset.mem_insert_of_mem (covers other (List.mem_append_right new deeper))
          · rcases Finset.mem_insert.mp member with rfl | inside
            · exact (fresh found named).imp_right Finset.mem_insert_of_mem
            · rcases closed other inside found named with known | covered
              · rcases List.mem_append.mp known with new | old
                · exact .inr (Finset.mem_insert_of_mem (covers found (List.mem_append_left _ new)))
                · exact .inl old
              · exact .inr (Finset.mem_insert_of_mem covered)

/-- A walk whose budget is larger than what can come before something that waits visits it. -/
theorem visits_of_cover (distinct : above.Nodup) (areSeen : ∀ other ∈ above, other ∈ seen)
    (cover : Finset α) (few : cover.card < budget) (covers : ∀ other ∈ above, other ∈ cover)
    (closed : ∀ other ∈ cover, ∀ found ∈ next other, found ∈ seen ∨ found ∈ cover) :
    id ∈ visits next budget (above ++ id :: below) seen := by
  induction budget generalizing above seen cover with
  | zero => exact absurd few (Nat.not_lt_zero _)
  | succ budget ih =>
      cases above with
      | nil => exact List.mem_cons_self
      | cons top above =>
          obtain ⟨new, pushed, isNodup, isNew⟩ :=
            push_spec (next top) (above ++ id :: below) seen
          obtain ⟨apart, distinct⟩ := List.nodup_cons.mp distinct
          have topSeen := areSeen top List.mem_cons_self
          have inside := covers top List.mem_cons_self
          rw [List.cons_append, visits, pushed, ← List.append_assoc]
          refine List.mem_cons_of_mem _ (ih ?_ ?_ (cover.erase top) ?_ ?_ ?_)
          · refine List.nodup_append.mpr ⟨isNodup, distinct, ?_⟩
            rintro other fresh _ waits rfl
            exact ((isNew other).mp fresh).2 (areSeen other (List.mem_cons_of_mem _ waits))
          · intro other member
            rcases List.mem_append.mp member with fresh | waits
            · exact List.mem_append_left _ fresh
            · exact List.mem_append_right _ (areSeen other (List.mem_cons_of_mem _ waits))
          · have := Finset.card_erase_of_mem inside
            have := Finset.card_pos.mpr ⟨top, inside⟩
            omega
          · intro other member
            rcases List.mem_append.mp member with fresh | waits
            · obtain ⟨named, unknown⟩ := (isNew other).mp fresh
              refine Finset.mem_erase.mpr ⟨?_, (closed top inside other named).resolve_left unknown⟩
              rintro rfl
              exact unknown topSeen
            · refine Finset.mem_erase.mpr ⟨?_, covers other (List.mem_cons_of_mem _ waits)⟩
              rintro rfl
              exact apart waits
          · intro other member found named
            by_cases known : found ∈ seen
            · exact .inl (List.mem_append_right _ known)
            · refine .inr (Finset.mem_erase.mpr ⟨?_, ?_⟩)
              · rintro rfl
                exact known topSeen
              · exact (closed other (Finset.mem_of_mem_erase member) found named).resolve_left known

/-- **A walk with fewer steps to go visits what waits** wherever one with more of them does. -/
theorem visits_mono {next' : α → List α} (fewer : ∀ id, next id ⊆ next' id)
    (front : Front visited stack seen) (waits : id ∈ stack)
    (read : id ∈ visits next' budget stack seen) : id ∈ visits next budget stack seen := by
  obtain ⟨above, below, rfl, apart⟩ := List.eq_append_cons_of_mem waits
  obtain ⟨cover, few, covers, closed⟩ := cover_of_visits apart (front.known id waits) read
  refine visits_of_cover (List.nodup_append.mp front.distinct).1 ?_ cover few covers ?_
  · exact fun other member => front.known other (List.mem_append_left _ member)
  · exact fun other member found named => closed other member found (fewer other named)

/-- **Enough values on top without a step on** are all that is visited. -/
theorem visits_flooded (ends : ∀ other ∈ above, next other = []) (enough : budget ≤ above.length) :
    ∀ other ∈ visits next budget (above ++ below) seen, other ∈ above := by
  induction budget generalizing above seen with
  | zero =>
      intro other member
      cases member
  | succ budget ih =>
      cases above with
      | nil => exact absurd enough (Nat.not_succ_le_zero _)
      | cons top above =>
          rw [List.cons_append, visits, ends top List.mem_cons_self, push, List.foldl_nil]
          intro other member
          rcases List.mem_cons.mp member with rfl | later
          · exact List.mem_cons_self
          · refine List.mem_cons_of_mem _ (ih ?_ (Nat.le_of_succ_le_succ enough) other later)
            exact fun value listed => ends value (List.mem_cons_of_mem _ listed)

end Library
