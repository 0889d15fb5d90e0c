import Exocortex.Library.Buffers
import Exocortex.Library.Matchings
import Exocortex.Resolution.Texts

/-!
# Jaro similarity

The characters of the first text are matched one after the other, each with the first character of
the second one that is the same, near enough and not matched yet. This is a first-come matching
(`matchAll_serves`), and so the same one comes from matching the characters of the second text
(`Serves.unique`).
-/

namespace Exocortex.Resolution

open Library

namespace Jaro

/-! ## Matching -/

/-- The first place from one on, among so many, that is free and has the character. -/
def seek (b : Text) (ch : Char) (bMatched : List Bool) : (count j : ℕ) →
    Checked Empty (Option ℕ)
  | 0, _ => return none
  | count + 1, j => do
      let taken ← Checked.get bMatched j
      if taken then seek b ch bMatched count (j + 1)
      else do
        let other ← Checked.get b j
        if ch = other then return some j else seek b ch bMatched count (j + 1)

structure Marks where
  aMatched : List Bool
  bMatched : List Bool
  matches_ : ℕ

/-- One round of the matching loop. -/
def matchRound (b : Text) (window : ℕ) (marks : Marks) (entry : Char × ℕ) :
    Checked Empty Marks := do
  let (ch, i) := entry
  let start := i - window
  let stop := min (i + window + 1) b.length
  match ← seek b ch marks.bMatched (stop - start) start with
  | none => return marks
  | some j =>
      let aMatched ← Checked.set marks.aMatched i true
      let bMatched ← Checked.set marks.bMatched j true
      return ⟨aMatched, bMatched, marks.matches_ + 1⟩

def windowOf (a b : Text) : ℕ := max a.length b.length / 2 - 1

def matchAll (a b : Text) : Checked Empty Marks :=
  a.zipIdx.foldlM (matchRound b (windowOf a b))
    ⟨List.replicate a.length false, List.replicate b.length false, 0⟩

/-! ## Transpositions -/

/-- The first matched place from one on. -/
def nextMatched (bMatched : List Bool) (k : ℕ) : Checked Empty ℕ :=
  if _ : k < bMatched.length then
    if bMatched[k] then .ok k else nextMatched bMatched (k + 1)
  else .error .panicked
termination_by bMatched.length - k

/-- One round of the loop that counts the transpositions. -/
def transposeRound (a b : Text) (marks : Marks) (state : ℕ × ℕ) (i : ℕ) :
    Checked Empty (ℕ × ℕ) := do
  let (transpositions, k) := state
  let matched ← Checked.get marks.aMatched i
  if matched then do
    let k ← nextMatched marks.bMatched k
    let left ← Checked.get a i
    let right ← Checked.get b k
    return (if left ≠ right then transpositions + 1 else transpositions, k + 1)
  else return (transpositions, k)

def transpose (a b : Text) (marks : Marks) : Checked Empty (ℕ × ℕ) :=
  (List.range a.length).foldlM (transposeRound a b marks) (0, 0)

/-! ## Similarity -/

/-- The similarity of texts whose case is folded. -/
def similarity (a b : Text) : Checked Empty ℚ :=
  if a = [] ∧ b = [] then return 1
  else if a = [] ∨ b = [] then return 0
  else do
    let marks ← matchAll a b
    if marks.matches_ = 0 then return 0
    else do
      let (transpositions, _) ← transpose a b marks
      let m : ℚ := marks.matches_
      return (m / a.length + m / b.length + (m - transpositions / 2) / m) / 3

end Jaro

/-- Jaro similarity between two texts. -/
def jaro (tables : CharTables) (a b : Text) : Checked Empty ℚ :=
  Jaro.similarity (a.flatMap tables.toLowercase) (b.flatMap tables.toLowercase)

namespace Jaro

/-! ## What is matched -/

/-- The same character, near enough. -/
def Near (a b : Text) (window i j : ℕ) : Prop :=
  (∃ ch, a[i]? = some ch ∧ b[j]? = some ch) ∧ i ≤ j + window ∧ j ≤ i + window

variable {a b text : Text} {window i : ℕ} {marked : List Bool} {marks : Marks}

theorem near_comm {j : ℕ} : Near a b window i j ↔ Near b a window j i := by
  constructor
  · rintro ⟨⟨ch, left, right⟩, before, after⟩
    exact ⟨⟨ch, right, left⟩, after, before⟩
  · rintro ⟨⟨ch, left, right⟩, before, after⟩
    exact ⟨⟨ch, right, left⟩, after, before⟩

/-- The marks are those of a first-come matching of so many characters. -/
def Serves (a b : Text) (window count : ℕ) (marks : Marks) : Prop :=
  ∃ matched : ℕ → ℕ → Prop, FirstCome (UpTo (Near a b window) count) matched ∧
    (marks.aMatched.length = a.length ∧ marks.bMatched.length = b.length) ∧
    (∀ i, marks.aMatched[i]? = some true ↔ ∃ j, matched i j) ∧
    (∀ j, marks.bMatched[j]? = some true ↔ ∃ i, matched i j) ∧
    marks.aMatched.count true = marks.matches_ ∧ marks.bMatched.count true = marks.matches_

/-- What a search finds is the first free place with the character. -/
theorem seek_ok (ch : Char) {bMatched : List Bool} (same : bMatched.length = b.length)
    (count j : ℕ) (inside : count = 0 ∨ j + count ≤ b.length) :
    ∃ chosen, seek b ch bMatched count j = .ok chosen ∧
      (∀ k, chosen = some k → (j ≤ k ∧ k < j + count) ∧ b[k]? = some ch ∧
        bMatched[k]? = some false) ∧
      ∀ k, j ≤ k → k < j + count → b[k]? = some ch → bMatched[k]? = some true ∨
        ∃ k' ≤ k, chosen = some k' := by
  induction count generalizing j with
  | zero => exact ⟨none, rfl, nofun, fun k least most => absurd most (Nat.not_lt.mpr least)⟩
  | succ count ih =>
      obtain ⟨chosen, sought, found, first⟩ := ih (j + 1) (by omega)
      have room : j < b.length := by omega
      have room' : j < bMatched.length := by omega
      have later (here : b[j]? = some ch → bMatched[j]? = some true) :
          (∀ k, chosen = some k → (j ≤ k ∧ k < j + (count + 1)) ∧ b[k]? = some ch ∧
            bMatched[k]? = some false) ∧
          ∀ k, j ≤ k → k < j + (count + 1) → b[k]? = some ch → bMatched[k]? = some true ∨
            ∃ k' ≤ k, chosen = some k' := by
        refine ⟨fun k chose => ?_, fun k least most holds => ?_⟩
        · obtain ⟨⟨least, most⟩, what⟩ := found k chose
          exact ⟨⟨by omega, by omega⟩, what⟩
        · rcases Nat.eq_or_lt_of_le least with rfl | beyond
          · exact .inl (here holds)
          · exact first k beyond (by omega) holds
      rw [seek, Checked.get_of_lt room']
      change ∃ chosen, (if bMatched[j] = true then _ else _) = _ ∧ _
      split
      · next taken =>
          refine ⟨chosen, sought, later fun _ => ?_⟩
          rw [List.getElem?_eq_getElem room', taken]
      · next free =>
          rw [Checked.get_of_lt room]
          change ∃ chosen, (if ch = b[j] then _ else _) = _ ∧ _
          split
          · next here =>
              refine ⟨some j, rfl, ?_, fun k least _ _ => .inr ⟨j, least, rfl⟩⟩
              rintro k ⟨⟩
              refine ⟨⟨Nat.le_refl _, by omega⟩, ?_, ?_⟩
              · rw [List.getElem?_eq_getElem room, here]
              · rw [List.getElem?_eq_getElem room', eq_false_of_ne_true free]
          · next other =>
              refine ⟨chosen, sought, later fun holds => ?_⟩
              rw [List.getElem?_eq_getElem room] at holds
              exact absurd (Option.some.inj holds).symm other

theorem serves_start (a b : Text) (window : ℕ) :
    Serves a b window 0
      ⟨List.replicate a.length false, List.replicate b.length false, 0⟩ := by
  refine ⟨fun _ _ => False, .start, ⟨List.length_replicate, List.length_replicate⟩, ?_, ?_, ?_, ?_⟩
  · simp [List.getElem?_replicate]
  · simp [List.getElem?_replicate]
  · simp [List.count_replicate]
  · simp [List.count_replicate]

/-- A mark is added where there was none. -/
theorem mark_spec (free : marked[i]? = some false) :
    (∀ k, (marked.set i true)[k]? = some true ↔ marked[k]? = some true ∨ k = i) ∧
      (marked.set i true).count true = marked.count true + 1 := by
  obtain ⟨inside, here⟩ := List.getElem?_eq_some_iff.mp free
  constructor
  · intro k
    rw [List.getElem?_set]
    by_cases same : i = k
    · subst same
      simp [inside]
    · rw [if_neg same]
      exact ⟨.inl, fun marked => marked.resolve_right fun other => same other.symm⟩
  · rw [List.count_set inside, here]
    simp

/-- **A round serves the next character.** -/
theorem matchRound_serves {ch : Char} (here : a[i]? = some ch)
    (serves : Serves a b window i marks) :
    ∃ after, matchRound b window marks (ch, i) = .ok after ∧ Serves a b window (i + 1) after := by
  obtain ⟨matched, first, ⟨aLength, bLength⟩, aMarks, bMarks, aCount, bCount⟩ := serves
  obtain ⟨inside, -⟩ := List.getElem?_eq_some_iff.mp here
  obtain ⟨chosen, sought, found, earliest⟩ := seek_ok ch bLength
    (min (i + window + 1) b.length - (i - window)) (i - window) (by omega)
  have served : FirstCome (UpTo (Near a b window) (i + 1)) fun i' j =>
      matched i' j ∨ i' = i ∧ chosen = some j := by
    refine first.serve (fun j chose => ?_) fun j near => ?_
    · obtain ⟨⟨least, most⟩, holds, free⟩ := found j chose
      refine ⟨⟨⟨ch, here, holds⟩, by omega, by omega⟩, fun i' taken => ?_⟩
      rw [(bMarks j).mpr ⟨i', taken⟩] at free
      cases free
    · obtain ⟨⟨ch', left, right⟩, before, after⟩ := near
      obtain rfl := Option.some.inj (here.symm.trans left)
      obtain ⟨room, -⟩ := List.getElem?_eq_some_iff.mp right
      rcases earliest j (by omega) (by omega) right with taken | chose
      · exact .inl ((bMarks j).mp taken)
      · exact .inr chose
  rw [matchRound, sought]
  cases chosen with
  | none =>
      have same : (fun i' j => matched i' j ∨ i' = i ∧ none = some j) = matched := by
        funext i' j
        simp
      rw [same] at served
      exact ⟨marks, rfl, matched, served, ⟨aLength, bLength⟩, aMarks, bMarks, aCount, bCount⟩
  | some j =>
      obtain ⟨⟨least, most⟩, holds, free⟩ := found j rfl
      have unmarked : marks.aMatched[i]? = some false := by
        have room : i < marks.aMatched.length := aLength ▸ inside
        rw [List.getElem?_eq_getElem room]
        refine congrArg some (eq_false_of_ne_true fun marked => ?_)
        obtain ⟨j', taken⟩ := (aMarks i).mp (by rw [List.getElem?_eq_getElem room, marked])
        exact absurd (first.within taken).1 (Nat.lt_irrefl _)
      obtain ⟨aNew, aMore⟩ := mark_spec unmarked
      obtain ⟨bNew, bMore⟩ := mark_spec free
      change ∃ after, (Checked.set marks.aMatched i true >>= _) = _ ∧ _
      rw [Checked.set_of_lt (aLength ▸ inside)]
      change ∃ after, (Checked.set marks.bMatched j true >>= _) = _ ∧ _
      rw [Checked.set_of_lt (by omega)]
      refine ⟨_, rfl, _, served, ⟨?_, ?_⟩, fun i' => ?_, fun j' => ?_, ?_, ?_⟩
      · rw [List.length_set, aLength]
      · rw [List.length_set, bLength]
      · rw [aNew, aMarks]
        constructor
        · rintro (⟨j', taken⟩ | rfl)
          · exact ⟨j', .inl taken⟩
          · exact ⟨j, .inr ⟨rfl, rfl⟩⟩
        · rintro ⟨j', taken | ⟨rfl, -⟩⟩
          · exact .inl ⟨j', taken⟩
          · exact .inr rfl
      · rw [bNew, bMarks]
        constructor
        · rintro (⟨i', taken⟩ | rfl)
          · exact ⟨i', .inl taken⟩
          · exact ⟨i, .inr ⟨rfl, rfl⟩⟩
        · rintro ⟨i', taken | ⟨-, took⟩⟩
          · exact .inl ⟨i', taken⟩
          · exact .inr (Option.some.inj took).symm
      · rw [aMore, aCount]
      · rw [bMore, bCount]

/-- The rounds that are left serve the characters that are left. -/
theorem matchRounds_serve {rest : Text} (left : a.drop i = rest)
    (serves : Serves a b window i marks) :
    ∃ after, (rest.zipIdx i).foldlM (matchRound b window) marks = .ok after ∧
      Serves a b window (i + rest.length) after := by
  induction rest generalizing i marks with
  | nil => exact ⟨marks, rfl, serves⟩
  | cons ch rest ih =>
      have here : a[i]? = some ch := by
        rw [← List.head?_drop, left]
        rfl
      obtain ⟨next, given, served⟩ := matchRound_serves here serves
      have behind : a.drop (i + 1) = rest := by
        rw [← List.drop_drop, left]
        rfl
      obtain ⟨after, given', served'⟩ := ih behind served
      refine ⟨after, ?_, ?_⟩
      · rw [List.zipIdx_cons, List.foldlM_cons, given]
        exact given'
      · rw [List.length_cons, Nat.add_comm rest.length, ← Nat.add_assoc]
        exact served'

/-- **The marks are those of the first-come matching of all characters.** -/
theorem matchAll_serves (a b : Text) : ∃ marks, matchAll a b = .ok marks ∧
    Serves a b (windowOf a b) a.length marks := by
  obtain ⟨marks, given, serves⟩ := matchRounds_serve (a := a) (b := b) List.drop_zero
    (serves_start a b (windowOf a b))
  rw [Nat.zero_add] at serves
  exact ⟨marks, given, serves⟩

/-- The marks of all characters are those of a matching that knows no order of the texts. -/
theorem Serves.whole (serves : Serves a b window a.length marks) :
    ∃ matched : ℕ → ℕ → Prop, FirstCome (Near a b window) matched ∧
      (marks.aMatched.length = a.length ∧ marks.bMatched.length = b.length) ∧
      (∀ i, marks.aMatched[i]? = some true ↔ ∃ j, matched i j) ∧
      (∀ j, marks.bMatched[j]? = some true ↔ ∃ i, matched i j) ∧
      marks.aMatched.count true = marks.matches_ ∧ marks.bMatched.count true = marks.matches_ := by
  have all : UpTo (Near a b window) a.length = Near a b window := by
    funext i j
    refine propext ⟨And.right, fun near => ⟨?_, near⟩⟩
    obtain ⟨ch, here, -⟩ := near.1
    exact (List.getElem?_eq_some_iff.mp here).1
  rw [Serves, all] at serves
  exact serves

theorem marks_eq {marked' : List Bool} (same : marked.length = marked'.length)
    (each : ∀ i : ℕ, marked[i]? = some true ↔ marked'[i]? = some true) : marked = marked' := by
  refine List.ext_getElem same fun i inside inside' => ?_
  have here := each i
  rw [List.getElem?_eq_getElem inside, List.getElem?_eq_getElem inside', Option.some_inj,
    Option.some_inj] at here
  exact Bool.eq_iff_iff.mpr here

theorem windowOf_comm (a b : Text) : windowOf a b = windowOf b a := by
  rw [windowOf, windowOf, Nat.max_comm]

/-- **Matching the second text gives the marks the other way round.** -/
theorem Serves.swap {other : Marks} (serves : Serves a b window a.length marks)
    (serves' : Serves b a window b.length other) :
    other = ⟨marks.bMatched, marks.aMatched, marks.matches_⟩ := by
  obtain ⟨matched, first, ⟨aLength, bLength⟩, aMarks, bMarks, aCount, bCount⟩ := serves.whole
  obtain ⟨matched', first', ⟨bLength', aLength'⟩, bMarks', aMarks', bCount', -⟩ := serves'.whole
  have near : Near b a window = fun j i => Near a b window i j := by
    funext j i
    exact propext near_comm
  rw [near] at first'
  obtain rfl := first'.unique first.swap
  have bSame : other.aMatched = marks.bMatched :=
    marks_eq (bLength'.trans bLength.symm) fun j => (bMarks' j).trans (bMarks j).symm
  have aSame : other.bMatched = marks.aMatched :=
    marks_eq (aLength'.trans aLength.symm) fun i => (aMarks' i).trans (aMarks i).symm
  have count : other.matches_ = marks.matches_ := by rw [← bCount', bSame, bCount]
  rw [← bSame, ← aSame, ← count]

/-! ## What is counted -/

/-- The characters that are marked. -/
def kept : Text → List Bool → Text
  | ch :: text, mark :: marks => if mark then ch :: kept text marks else kept text marks
  | _, _ => []

theorem length_kept {marks : List Bool} (same : marks.length = text.length) :
    (kept text marks).length = marks.count true := by
  induction text generalizing marks with
  | nil =>
      obtain rfl := List.length_eq_zero_iff.mp same
      rfl
  | cons ch text ih =>
      match marks, same with
      | mark :: marks, same =>
          have rest := ih (Nat.succ.inj same)
          cases mark with
          | false => simpa [kept] using rest
          | true => simpa [kept] using rest

/-- What is marked from a place on. -/
theorem kept_drop {marks : List Bool} (inside : i < text.length) (inside' : i < marks.length) :
    kept (text.drop i) (marks.drop i) =
      if marks[i] then text[i] :: kept (text.drop (i + 1)) (marks.drop (i + 1))
      else kept (text.drop (i + 1)) (marks.drop (i + 1)) := by
  rw [List.drop_eq_getElem_cons inside, List.drop_eq_getElem_cons inside', kept]

/-- How many places two texts of the same length differ at. -/
def misplaced (left right : Text) : ℕ := (left.zip right).countP fun pair => pair.1 ≠ pair.2

theorem misplaced_cons (ch ch' : Char) (left right : Text) :
    misplaced (ch :: left) (ch' :: right) =
      misplaced left right + if ch ≠ ch' then 1 else 0 := by
  rw [misplaced, List.zip_cons_cons, List.countP_cons]
  simp [misplaced]

theorem misplaced_comm (left right : Text) : misplaced left right = misplaced right left := by
  induction left generalizing right with
  | nil => cases right <;> rfl
  | cons ch left ih =>
      cases right with
      | nil => rfl
      | cons ch' right => simp only [misplaced_cons, ih right, ne_comm]

theorem misplaced_le (left right : Text) : misplaced left right ≤ left.length := by
  rw [misplaced]
  refine Nat.le_trans List.countP_le_length ?_
  rw [List.length_zip]
  exact Nat.min_le_left _ _

/-- Texts of the same length that differ nowhere are the same. -/
theorem eq_of_misplaced_eq_zero {left right : Text} (same : left.length = right.length)
    (none_ : misplaced left right = 0) : left = right := by
  induction left generalizing right with
  | nil => exact (List.length_eq_zero_iff.mp same.symm).symm
  | cons ch left ih =>
      match right, same with
      | ch' :: right, same =>
          rw [misplaced_cons] at none_
          have first : ch = ch' := by
            by_contra other
            rw [if_pos other] at none_
            omega
          rw [first, ih (Nat.succ.inj same) (by omega)]

theorem misplaced_self (text : Text) : misplaced text text = 0 := by
  induction text with
  | nil => rfl
  | cons ch text ih => rw [misplaced_cons, ih, if_neg fun other => other rfl]

/-- The next marked place holds the next character that is marked. -/
theorem nextMatched_ok (same : marked.length = text.length) {k : ℕ} {ch : Char} {rest : Text}
    (left : kept (text.drop k) (marked.drop k) = ch :: rest) :
    ∃ k', nextMatched marked k = .ok k' ∧ text[k']? = some ch ∧
      kept (text.drop (k' + 1)) (marked.drop (k' + 1)) = rest := by
  have inside : k < marked.length := by
    by_contra beyond
    have none_ : text.drop k = [] := List.drop_eq_nil_of_le (by omega)
    rw [none_] at left
    cases left
  have inside' : k < text.length := same ▸ inside
  rw [kept_drop inside' inside] at left
  rw [nextMatched, dif_pos inside]
  split
  · next here =>
      rw [if_pos here] at left
      obtain ⟨rfl, rest⟩ := List.cons.inj left
      exact ⟨k, rfl, List.getElem?_eq_getElem inside', rest⟩
  · next free =>
      rw [if_neg free] at left
      exact nextMatched_ok same left
termination_by marked.length - k

/-- The rounds that are left count what is misplaced in what is left. -/
theorem transposeRounds_ok (aLength : marks.aMatched.length = a.length)
    (bLength : marks.bMatched.length = b.length) {count k : ℕ} (transpositions : ℕ)
    (upTo : i + count = a.length) (even : (kept (a.drop i) (marks.aMatched.drop i)).length =
      (kept (b.drop k) (marks.bMatched.drop k)).length) :
    ∃ k', (List.range' i count).foldlM (transposeRound a b marks) (transpositions, k) =
      .ok (transpositions + misplaced (kept (a.drop i) (marks.aMatched.drop i))
        (kept (b.drop k) (marks.bMatched.drop k)), k') := by
  induction count generalizing i k transpositions with
  | zero =>
      have none_ : kept (a.drop i) (marks.aMatched.drop i) = [] := by
        rw [List.drop_eq_nil_of_le (by omega), kept]
        exact nofun
      rw [none_]
      exact ⟨k, rfl⟩
  | succ count ih =>
      have inside : i < a.length := by omega
      have inside' : i < marks.aMatched.length := aLength ▸ inside
      rw [kept_drop inside inside'] at even ⊢
      rw [List.range'_succ, List.foldlM_cons, transposeRound, Checked.get_of_lt inside']
      change ∃ k', ((if marks.aMatched[i] = true then _ else _) >>= _) = _
      split
      · next here =>
          rw [if_pos here, List.length_cons] at even
          obtain ⟨ch, rest, some_⟩ := List.exists_cons_of_length_eq_add_one even.symm
          obtain ⟨k', next, found, behind⟩ := nextMatched_ok bLength some_
          obtain ⟨place, found⟩ := List.getElem?_eq_some_iff.mp found
          rw [some_, List.length_cons, ← behind] at even
          obtain ⟨k'', done⟩ := ih (if a[i] ≠ b[k'] then transpositions + 1
            else transpositions) (by omega) (Nat.succ.inj even)
          refine ⟨k'', ?_⟩
          rw [next]
          change ((Checked.get a i >>= _) >>= _) = _
          rw [Checked.get_of_lt inside]
          change ((Checked.get b k' >>= _) >>= _) = _
          rw [Checked.get_of_lt place]
          refine done.trans ?_
          rw [some_, misplaced_cons, found, behind]
          refine congrArg Except.ok (Prod.ext ?_ rfl)
          dsimp only
          split <;> omega
      · next free =>
          rw [if_neg free] at even
          exact ih transpositions (by omega) even

/-! ## The similarity as a number -/

/-- The similarity of texts of two lengths with so many matches and transpositions. -/
def score (p q m t : ℕ) : ℚ :=
  if m = 0 then 0 else ((m : ℚ) / p + m / q + (m - t / 2) / m) / 3

theorem similarity_eq (aSome : a ≠ []) (bSome : b ≠ []) :
    ∃ marks, Serves a b (windowOf a b) a.length marks ∧
      similarity a b = .ok (score a.length b.length marks.matches_
        (misplaced (kept a marks.aMatched) (kept b marks.bMatched))) := by
  obtain ⟨marks, given, serves⟩ := matchAll_serves a b
  have ⟨_, _, ⟨aLength, bLength⟩, _, _, aCount, bCount⟩ := serves
  refine ⟨marks, serves, ?_⟩
  have even : (kept (a.drop 0) (marks.aMatched.drop 0)).length =
      (kept (b.drop 0) (marks.bMatched.drop 0)).length := by
    rw [List.drop_zero, List.drop_zero, List.drop_zero, List.drop_zero, length_kept aLength,
      length_kept bLength, aCount, bCount]
  obtain ⟨k, counted⟩ := transposeRounds_ok aLength bLength 0
    (Nat.zero_add a.length) even
  rw [similarity, if_neg fun both => aSome both.1, if_neg (not_or.mpr ⟨aSome, bSome⟩), given, score]
  change (if marks.matches_ = 0 then _ else _) = _
  split
  · rfl
  · rw [transpose, List.range_eq_range', counted]
    change Except.ok _ = _
    rw [List.drop_zero, List.drop_zero, List.drop_zero, List.drop_zero, Nat.zero_add]

/-- The order of the texts does not matter. -/
theorem similarity_comm (a b : Text) : similarity a b = similarity b a := by
  by_cases none_ : a = [] ∨ b = []
  · rw [similarity, similarity, if_pos none_, if_pos none_.symm]
    exact if_congr and_comm rfl rfl
  · obtain ⟨aSome, bSome⟩ := not_or.mp none_
    obtain ⟨marks, serves, given⟩ := similarity_eq aSome bSome
    obtain ⟨other, serves', given'⟩ := similarity_eq bSome aSome
    rw [windowOf_comm b a] at serves'
    obtain rfl := serves.swap serves'
    rw [given, given', misplaced_comm, score, score, add_comm (_ / (b.length : ℚ))]

theorem score_bounds {p q m t : ℕ} (left : m ≤ p) (right : m ≤ q) (few : t ≤ m) :
    0 ≤ score p q m t ∧ score p q m t ≤ 1 ∧
      (score p q m t = 1 ↔ m ≠ 0 ∧ m = p ∧ m = q ∧ t = 0) := by
  rw [score]
  split
  · next none_ =>
      refine ⟨le_refl 0, zero_le_one, fun same => absurd same zero_ne_one, fun all => ?_⟩
      exact absurd none_ all.1
  · next some_ =>
      have positive : (0 : ℚ) < m := Nat.cast_pos.mpr (Nat.pos_of_ne_zero some_)
      have positive' : (0 : ℚ) < p := Nat.cast_pos.mpr (by omega)
      have positive'' : (0 : ℚ) < q := Nat.cast_pos.mpr (by omega)
      have left' : (m : ℚ) ≤ p := Nat.cast_le.mpr left
      have right' : (m : ℚ) ≤ q := Nat.cast_le.mpr right
      have few' : (t : ℚ) ≤ m := Nat.cast_le.mpr few
      have least : (0 : ℚ) ≤ t := Nat.cast_nonneg t
      have first : (m : ℚ) / p ≤ 1 := (div_le_one positive').mpr left'
      have second : (m : ℚ) / q ≤ 1 := (div_le_one positive'').mpr right'
      have third : ((m : ℚ) - t / 2) / m ≤ 1 := (div_le_one positive).mpr (by linarith)
      have first' : 0 ≤ (m : ℚ) / p := by positivity
      have second' : 0 ≤ (m : ℚ) / q := by positivity
      have third' : 0 ≤ ((m : ℚ) - t / 2) / m := div_nonneg (by linarith) positive.le
      refine ⟨by linarith, by linarith, fun one => ?_, fun all => ?_⟩
      · have one' : (m : ℚ) / p = 1 := by linarith
        have one'' : (m : ℚ) / q = 1 := by linarith
        have one₃ : ((m : ℚ) - t / 2) / m = 1 := by linarith
        rw [div_eq_one_iff_eq positive'.ne'] at one'
        rw [div_eq_one_iff_eq positive''.ne'] at one''
        rw [div_eq_one_iff_eq positive.ne'] at one₃
        have none_ : (t : ℚ) = 0 := by linarith
        exact ⟨some_, Nat.cast_injective one', Nat.cast_injective one'', Nat.cast_eq_zero.mp none_⟩
      · obtain ⟨-, rfl, rfl, rfl⟩ := all
        rw [div_self positive.ne', Nat.cast_zero, zero_div, sub_zero, div_self positive.ne']
        norm_num

theorem kept_sublist (text : Text) (marks : List Bool) :
    List.Sublist (kept text marks) text := by
  induction text generalizing marks with
  | nil => exact .refl _
  | cons ch text ih =>
      cases marks with
      | nil => exact List.nil_sublist _
      | cons mark marks =>
          cases mark with
          | false => exact (ih marks).cons ch
          | true => exact (ih marks).cons_cons ch

/-- Where there are as many marks as characters, all of them are kept. -/
theorem kept_all {marks : List Bool} (same : marks.length = text.length)
    (all : marks.count true = text.length) : kept text marks = text :=
  (kept_sublist text marks).eq_of_length ((length_kept same).trans all)

/-- All characters of a text are matched with itself. -/
theorem Serves.self (serves : Serves a a window a.length marks) : marks.matches_ = a.length := by
  obtain ⟨matched, first, ⟨aLength, -⟩, aMarks, -, aCount, -⟩ := serves.whole
  have own {i j : ℕ} (near : Near a a window i j) : Near a a window i i ∧ Near a a window j j := by
    obtain ⟨⟨ch, left, right⟩, -⟩ := near
    exact ⟨⟨⟨ch, left, left⟩, Nat.le_add_right _ _, Nat.le_add_right _ _⟩,
      ⟨⟨ch, right, right⟩, Nat.le_add_right _ _, Nat.le_add_right _ _⟩⟩
  have diagonal := first.unique (FirstCome.diagonal own)
  subst diagonal
  rw [← aCount, ← aLength, List.count_eq_length]
  intro mark listed
  obtain ⟨i, inside, rfl⟩ := List.getElem_of_mem listed
  have room : i < a.length := aLength ▸ inside
  have here : a[i]? = some a[i] := List.getElem?_eq_getElem room
  have marked := (aMarks i).mpr ⟨i, rfl, ⟨_, here, here⟩, Nat.le_add_right _ _,
    Nat.le_add_right _ _⟩
  rw [List.getElem?_eq_getElem inside] at marked
  exact (Option.some.inj marked).symm

/-- **The similarity is between zero and one, and one for the same text only.** -/
theorem similarity_spec (a b : Text) :
    ∃ s, similarity a b = .ok s ∧ 0 ≤ s ∧ s ≤ 1 ∧ (s = 1 ↔ a = b) := by
  by_cases aSome : a = []
  · subst aSome
    cases b with
    | nil => exact ⟨1, rfl, zero_le_one, le_refl 1, iff_of_true rfl rfl⟩
    | cons ch b => exact ⟨0, rfl, le_refl 0, zero_le_one, iff_of_false zero_ne_one nofun⟩
  by_cases bSome : b = []
  · subst bSome
    refine ⟨0, ?_, le_refl 0, zero_le_one, iff_of_false zero_ne_one aSome⟩
    rw [similarity, if_neg fun both => aSome both.1, if_pos (.inr rfl)]
    rfl
  obtain ⟨marks, serves, given⟩ := similarity_eq aSome bSome
  have ⟨_, _, ⟨aLength, bLength⟩, _, _, aCount, bCount⟩ := serves
  have aKept := (length_kept aLength).trans aCount
  have bKept := (length_kept bLength).trans bCount
  have few := misplaced_le (kept a marks.aMatched) (kept b marks.bMatched)
  rw [aKept] at few
  obtain ⟨least, most, one⟩ := score_bounds (aCount ▸ aLength ▸ List.count_le_length)
    (bCount ▸ bLength ▸ List.count_le_length) few
  refine ⟨_, given, least, most, one.trans ⟨?_, ?_⟩⟩
  · rintro ⟨-, aAll, bAll, none_⟩
    have same := eq_of_misplaced_eq_zero (aKept.trans bKept.symm) none_
    rwa [kept_all aLength (aCount.trans aAll), kept_all bLength (bCount.trans bAll)] at same
  · rintro rfl
    have all := serves.self
    refine ⟨?_, all, all, ?_⟩
    · rw [all]
      exact fun none_ => aSome (List.length_eq_zero_iff.mp none_)
    · rw [kept_all aLength (aCount.trans all), kept_all bLength (bCount.trans all), misplaced_self]

end Jaro

section

variable (tables : CharTables) (a b : Text)

theorem jaro_comm : jaro tables a b = jaro tables b a := Jaro.similarity_comm _ _

theorem jaro_spec : ∃ s, jaro tables a b = .ok s ∧ 0 ≤ s ∧ s ≤ 1 ∧
    (s = 1 ↔ a.flatMap tables.toLowercase = b.flatMap tables.toLowercase) :=
  Jaro.similarity_spec _ _

end

end Exocortex.Resolution
