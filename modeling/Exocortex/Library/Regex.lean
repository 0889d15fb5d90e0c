import Mathlib

/-!
# Regular expressions with capture groups

A regular expression matches a piece of a text, depending on what stands before and behind it only
at word boundaries, and says what its groups have taken (`Matches`). An alternative that stands
first is preferred, and a repetition takes as much as it can. `runs` lists the matches at a place in
the order of preference, and `captures` goes through a text and takes the first of them at the first
place that has any, then goes on behind it. All that it finds are matches (`captured_of_mem`).

What a match looks like is read off the expression (`matches_seq_iff` and its like).
-/

namespace Library

inductive Regex where
  | empty
  | set (holds : Char → Bool)
  | boundary
  | seq (first second : Regex)
  | alt (first second : Regex)
  | star (body : Regex)
  | group (index : ℕ) (body : Regex)

/-- What the groups have taken, the latest first. -/
abbrev Groups : Type := List (ℕ × List Char)

namespace Regex

/-- A literal text. -/
def lit (text : List Char) : Regex := text.foldr (fun c => seq (set (· = c))) empty

/-- One of some expressions. -/
def oneOf (choices : List Regex) : Regex := choices.foldr alt (set fun _ => false)

/-- One after the other. -/
def seqs (parts : List Regex) : Regex := parts.foldr seq empty

def plus (body : Regex) : Regex := seq body (star body)

def atLeast (count : ℕ) (body : Regex) : Regex := seqs (List.replicate count body ++ [star body])

def opt (body : Regex) : Regex := alt body empty

variable (isWord : Char → Bool)

/-- A word begins or ends here. -/
def atBoundary (before behind : List Char) : Bool :=
  before.getLast?.any isWord != behind.head?.any isWord

/-- **What an expression matches** between two texts, with its groups. -/
inductive Matches : Regex → List Char → List Char → List Char → Groups → Prop
  | empty {before behind : List Char} : Matches .empty before [] behind []
  | set {holds : Char → Bool} {before behind : List Char} {c : Char} (holdsHere : holds c = true) :
      Matches (.set holds) before [c] behind []
  | boundary {before behind : List Char} (here : atBoundary isWord before behind = true) :
      Matches .boundary before [] behind []
  | seq {r q : Regex} {before taken more behind : List Char} {groups others : Groups}
      (first : Matches r before taken (more ++ behind) groups)
      (second : Matches q (before ++ taken) more behind others) :
      Matches (.seq r q) before (taken ++ more) behind (others ++ groups)
  | altFirst {r q : Regex} {before taken behind : List Char} {groups : Groups}
      (first : Matches r before taken behind groups) : Matches (.alt r q) before taken behind groups
  | altSecond {r q : Regex} {before taken behind : List Char} {groups : Groups}
      (second : Matches q before taken behind groups) :
      Matches (.alt r q) before taken behind groups
  | starNone {r : Regex} {before behind : List Char} : Matches (.star r) before [] behind []
  | starMore {r : Regex} {before taken more behind : List Char} {groups others : Groups}
      (first : Matches r before taken (more ++ behind) groups)
      (rest : Matches (.star r) (before ++ taken) more behind others) :
      Matches (.star r) before (taken ++ more) behind (others ++ groups)
  | group {r : Regex} {before taken behind : List Char} {groups : Groups} {index : ℕ}
      (inside : Matches r before taken behind groups) :
      Matches (.group index r) before taken behind ((index, taken) :: groups)

/-! ## What matches look like -/

section Shapes

variable {isWord} {r q : Regex} {before taken behind : List Char} {groups : Groups}

theorem matches_seq_iff : Matches isWord (.seq r q) before taken behind groups ↔
    ∃ first second earlier later, taken = first ++ second ∧ groups = later ++ earlier ∧
      Matches isWord r before first (second ++ behind) earlier ∧
      Matches isWord q (before ++ first) second behind later := by
  constructor
  · intro holds
    cases holds with
    | seq first second => exact ⟨_, _, _, _, rfl, rfl, first, second⟩
  · rintro ⟨first, second, earlier, later, rfl, rfl, left, right⟩
    exact .seq left right

variable {holds : Char → Bool}

theorem Matches.set_inv (found : Matches isWord (.set holds) before taken behind groups) :
    ∃ c, holds c = true ∧ taken = [c] ∧ groups = [] := by
  cases found with
  | set holdsHere => exact ⟨_, holdsHere, rfl, rfl⟩

theorem Matches.boundary_inv (found : Matches isWord .boundary before taken behind groups) :
    taken = [] ∧ groups = [] := by
  cases found with
  | boundary => exact ⟨rfl, rfl⟩

theorem Matches.empty_inv (found : Matches isWord .empty before taken behind groups) :
    taken = [] ∧ groups = [] := by
  cases found with
  | empty => exact ⟨rfl, rfl⟩

theorem Matches.group_inv {index : ℕ}
    (found : Matches isWord (.group index r) before taken behind groups) :
    ∃ inner, groups = (index, taken) :: inner ∧ Matches isWord r before taken behind inner := by
  cases found with
  | group inside => exact ⟨_, rfl, inside⟩

/-- A repetition of one character takes such characters. -/
theorem Matches.star_set_inv
    (found : Matches isWord (.star (.set holds)) before taken behind groups) :
    (∀ c ∈ taken, holds c = true) ∧ groups = [] := by
  generalize same : Regex.star (.set holds) = r at found
  induction found with
  | starNone => exact ⟨fun c listed => absurd listed List.not_mem_nil, rfl⟩
  | starMore first rest ihFirst ihRest =>
      cases same
      obtain ⟨c, here, rfl, rfl⟩ := first.set_inv
      obtain ⟨all, rfl⟩ := ihRest rfl
      exact ⟨List.forall_mem_append.mpr ⟨List.forall_mem_singleton.mpr here, all⟩, rfl⟩
  | _ => cases same

theorem Matches.lit_inv {text : List Char}
    (found : Matches isWord (lit text) before taken behind groups) :
    taken = text ∧ groups = [] := by
  induction text generalizing before taken groups with
  | nil => exact found.empty_inv
  | cons c text ih =>
      obtain ⟨first, second, earlier, later, rfl, rfl, left, right⟩ := matches_seq_iff.mp found
      obtain ⟨d, here, rfl, rfl⟩ := left.set_inv
      obtain ⟨rfl, rfl⟩ := ih right
      rw [of_decide_eq_true here]
      exact ⟨rfl, rfl⟩

theorem Matches.oneOf_inv {choices : List Regex}
    (found : Matches isWord (oneOf choices) before taken behind groups) :
    ∃ choice ∈ choices, Matches isWord choice before taken behind groups := by
  induction choices with
  | nil =>
      obtain ⟨c, never, -⟩ := found.set_inv
      cases never
  | cons choice choices ih =>
      cases found with
      | altFirst first => exact ⟨choice, List.mem_cons_self, first⟩
      | altSecond second =>
          obtain ⟨other, listed, here⟩ := ih second
          exact ⟨other, List.mem_cons_of_mem _ listed, here⟩

end Shapes

/-! ## Finding matches -/

/-- What a match takes, what is behind it, and its groups. -/
abbrev Run : Type := List Char × List Char × Groups

/-- One run and then the runs from its end. -/
def andThen (before : List Char) (next : List Char → List Char → List Run) (run : Run) : List Run :=
  (next (before ++ run.1) run.2.1).map fun more => (run.1 ++ more.1, more.2.1, more.2.2 ++ run.2.2)

/-- Repetitions, the longest first. Each takes something. -/
def starRuns (body : List Char → List Char → List Run) : ℕ → List Char → List Char → List Run
  | 0, _, text => [([], text, [])]
  | fuel + 1, before, text =>
      ((body before text).filter fun run => !run.1.isEmpty).flatMap
        (andThen before (starRuns body fuel)) ++ [([], text, [])]

/-- The matches at a place, the preferred ones first. -/
def runs : Regex → List Char → List Char → List Run
  | .empty, _, text => [([], text, [])]
  | .set _, _, [] => []
  | .set holds, _, c :: text => if holds c then [([c], text, [])] else []
  | .boundary, before, text => if atBoundary isWord before text then [([], text, [])] else []
  | .seq r q, before, text => (runs r before text).flatMap (andThen before (runs q))
  | .alt r q, before, text => runs r before text ++ runs q before text
  | .star r, before, text => starRuns (runs r) text.length before text
  | .group index r, before, text => (runs r before text).map fun run =>
      (run.1, run.2.1, (index, run.1) :: run.2.2)

/-- A match in a text, with its groups. -/
structure Capture where
  whole : List Char
  groups : Groups
deriving DecidableEq

/-- What a group has taken. -/
def Capture.get (capture : Capture) (index : ℕ) : Option (List Char) := capture.groups.lookup index

/-- The matches from a place on. -/
def capturesFrom (r : Regex) : ℕ → List Char → List Char → List Capture
  | 0, _, _ => []
  | fuel + 1, before, text =>
      let beyond := if text.isEmpty then []
        else capturesFrom r fuel (before ++ text.take 1) (text.drop 1)
      match (runs isWord r before text).head? with
      | none => beyond
      | some run =>
          ⟨run.1, run.2.2⟩ :: if run.1.isEmpty then beyond
            else capturesFrom r fuel (before ++ run.1) run.2.1

/-- The matches in a text, from left to right, apart from each other. -/
def captures (r : Regex) (text : List Char) : List Capture :=
  capturesFrom isWord r (text.length + 1) [] text

/-- A match of an expression somewhere in a text. -/
def Captured (r : Regex) (text : List Char) (capture : Capture) : Prop :=
  ∃ before behind, text = before ++ (capture.whole ++ behind) ∧
    Matches isWord r before capture.whole behind capture.groups

variable {isWord}

/-- All that a list of runs lists are matches at the place. -/
def Sound (holds : List Char → List Char → List Char → Groups → Prop)
    (listed : List Char → List Char → List Run) : Prop :=
  ∀ before text, ∀ run ∈ listed before text,
    text = run.1 ++ run.2.1 ∧ holds before run.1 run.2.1 run.2.2

theorem sound_starRuns {r : Regex} {body : List Char → List Char → List Run}
    (sound : Sound (Matches isWord r) body) (fuel : ℕ) :
    Sound (Matches isWord (.star r)) (starRuns body fuel) := by
  induction fuel with
  | zero =>
      intro before text run listed
      rw [List.mem_singleton.mp listed]
      exact ⟨rfl, .starNone⟩
  | succ fuel ih =>
      intro before text run listed
      rcases List.mem_append.mp listed with more | none_
      · obtain ⟨first, there, further⟩ := List.mem_flatMap.mp more
        obtain ⟨second, after, rfl⟩ := List.mem_map.mp further
        obtain ⟨rfl, here⟩ := sound before text first (List.mem_filter.mp there).1
        obtain ⟨rest, next⟩ := ih _ _ second after
        rw [rest] at here ⊢
        exact ⟨(List.append_assoc _ _ _).symm, .starMore here next⟩
      · rw [List.mem_singleton.mp none_]
        exact ⟨rfl, .starNone⟩

theorem sound_runs (r : Regex) : Sound (Matches isWord r) (runs isWord r) := by
  induction r with
  | empty =>
      intro before text run listed
      rw [List.mem_singleton.mp listed]
      exact ⟨rfl, .empty⟩
  | set holds =>
      intro before text run listed
      cases text with
      | nil => cases listed
      | cons c text =>
          rw [runs] at listed
          split at listed
          · next here =>
              rw [List.mem_singleton.mp listed]
              exact ⟨rfl, .set here⟩
          · cases listed
  | boundary =>
      intro before text run listed
      rw [runs] at listed
      split at listed
      · next here =>
          rw [List.mem_singleton.mp listed]
          exact ⟨rfl, .boundary here⟩
      · cases listed
  | seq r q ihFirst ihSecond =>
      intro before text run listed
      obtain ⟨first, there, further⟩ := List.mem_flatMap.mp listed
      obtain ⟨second, after, rfl⟩ := List.mem_map.mp further
      obtain ⟨rfl, here⟩ := ihFirst before text first there
      obtain ⟨rest, next⟩ := ihSecond _ _ second after
      rw [rest] at here ⊢
      exact ⟨(List.append_assoc _ _ _).symm, .seq here next⟩
  | alt r q ihFirst ihSecond =>
      intro before text run listed
      rcases List.mem_append.mp listed with first | second
      · obtain ⟨same, here⟩ := ihFirst before text run first
        exact ⟨same, .altFirst here⟩
      · obtain ⟨same, here⟩ := ihSecond before text run second
        exact ⟨same, .altSecond here⟩
  | star r ih =>
      intro before text run listed
      exact sound_starRuns ih text.length before text run listed
  | group index r ih =>
      intro before text run listed
      obtain ⟨inner, there, rfl⟩ := List.mem_map.mp listed
      obtain ⟨same, here⟩ := ih before text inner there
      exact ⟨same, .group here⟩

theorem captured_of_mem_from (r : Regex) (fuel : ℕ) (before text : List Char) (capture : Capture)
    (listed : capture ∈ capturesFrom isWord r fuel before text) :
    Captured isWord r (before ++ text) capture := by
  induction fuel generalizing before text with
  | zero => cases listed
  | succ fuel ih =>
      -- the first run at a place is a match there
      have here : ∀ run, (runs isWord r before text).head? = some run →
          Captured isWord r (before ++ text) ⟨run.1, run.2.2⟩ := by
        intro run first
        obtain ⟨rfl, found⟩ := sound_runs r before text run (List.mem_of_head? first)
        exact ⟨before, run.2.1, rfl, found⟩
      have beyond : capture ∈ (if text.isEmpty then []
          else capturesFrom isWord r fuel (before ++ text.take 1) (text.drop 1)) →
            Captured isWord r (before ++ text) capture := by
        intro later
        split at later
        · cases later
        · have found := ih _ _ later
          rwa [List.append_assoc, List.take_append_drop] at found
      rw [capturesFrom] at listed
      cases first : (runs isWord r before text).head? with
      | none =>
          rw [first] at listed
          exact beyond listed
      | some run =>
          rw [first] at listed
          rcases List.mem_cons.mp listed with rfl | later
          · exact here run first
          · split at later
            · exact beyond later
            · obtain ⟨rfl, -⟩ := sound_runs r before text run (List.mem_of_head? first)
              have found := ih _ _ later
              rwa [List.append_assoc] at found

/-- **What is found in a text is a match in it.** -/
theorem captured_of_mem (r : Regex) (text : List Char) (capture : Capture)
    (listed : capture ∈ captures isWord r text) : Captured isWord r text capture :=
  captured_of_mem_from r _ [] text capture listed

end Regex

end Library
