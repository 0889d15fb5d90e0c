import Mathlib

/-!
# Scanning a text for a word

A scan looks for a word in a text, goes on behind each occurrence that it finds, and so steps over
those that overlap it (`jumps`). Every occurrence begins inside one that the scan finds
(`jumps_covers`).

Where the text is made of blocks that each end with a separator, and the word has no separator, an
occurrence lies in one block (`occurs_in_block`), which a binary search of the places where the
blocks begin will find (`slotOf_eq`). `visited` are the blocks that the scan comes through, one
after another.

The last part reads texts as their bytes in UTF-8. A text occurs in another one just when its bytes
do (`contains_iff`).
-/

namespace Library

/-! ## Occurrences -/

section Words

variable {α : Type*}

/-- A word stands at a place of a text. -/
def Occurs (word text : List α) (place : ℕ) : Prop := word <+: text.drop place

instance [DecidableEq α] (word text : List α) (place : ℕ) : Decidable (Occurs word text place) :=
  inferInstanceAs (Decidable (word <+: text.drop place))

variable {word text : List α}

variable {place start within : ℕ} {block : List α} {blocks : List (List α)}

theorem occurs_iff (within : place ≤ text.length) :
    Occurs word text place ↔ ∃ front back, text = front ++ word ++ back ∧ front.length = place := by
  constructor
  · rintro ⟨back, same⟩
    refine ⟨text.take place, back, ?_, List.length_take_of_le within⟩
    rw [List.append_assoc, same, List.take_append_drop]
  · rintro ⟨front, back, rfl, rfl⟩
    exact ⟨back, by rw [List.append_assoc, List.drop_left]⟩

theorem Occurs.place_add_le (occurs : Occurs word text place) (some_ : word ≠ []) :
    place + word.length ≤ text.length := by
  have fits := occurs.length_le
  have positive := List.length_pos_iff.mpr some_
  rw [List.length_drop] at fits
  omega

theorem occurs_drop : Occurs word (text.drop start) place ↔ Occurs word text (start + place) := by
  rw [Occurs, Occurs, List.drop_drop]

theorem infix_iff_occurs (some_ : word ≠ []) :
    word <:+: text ↔ ∃ place, Occurs word text place := by
  constructor
  · rintro ⟨front, back, same⟩
    refine ⟨front.length, (occurs_iff ?_).mpr ⟨front, back, same.symm, rfl⟩⟩
    rw [← same, List.append_assoc, List.length_append]
    exact Nat.le_add_right _ _
  · rintro ⟨place, occurs⟩
    have within := occurs.place_add_le some_
    obtain ⟨front, back, same, -⟩ := (occurs_iff (by omega)).mp occurs
    exact ⟨front, back, same.symm⟩

/-! ## Separators -/

variable {separator : α}

theorem prefix_append_separator {xs ys : List α} (apart : separator ∉ word) :
    word <+: xs ++ separator :: ys ↔ word <+: xs := by
  constructor
  · intro begins
    induction xs generalizing word with
    | nil =>
        cases word with
        | nil => exact List.nil_prefix
        | cons a word =>
            obtain ⟨rfl, -⟩ := List.cons_prefix_cons.mp begins
            exact absurd List.mem_cons_self apart
    | cons x xs ih =>
        cases word with
        | nil => exact List.nil_prefix
        | cons a word =>
            obtain ⟨rfl, rest⟩ := List.cons_prefix_cons.mp begins
            exact List.cons_prefix_cons.mpr ⟨rfl, ih (fun inside => apart (.tail _ inside)) rest⟩
  · exact fun begins => begins.trans (List.prefix_append _ _)

/-- A word without the separator occurs on one side of it. -/
theorem infix_append_separator {xs ys : List α} (apart : separator ∉ word) (some_ : word ≠ []) :
    word <:+: xs ++ separator :: ys ↔ word <:+: xs ∨ word <:+: ys := by
  constructor
  · intro inside
    obtain ⟨place, occurs⟩ := (infix_iff_occurs some_).mp inside
    rw [infix_iff_occurs some_, infix_iff_occurs some_]
    rcases Nat.lt_or_ge xs.length place with behind | before
    · refine .inr ⟨place - (xs.length + 1), ?_⟩
      obtain ⟨further, rfl⟩ := Nat.exists_eq_add_of_lt behind
      rw [Occurs, Nat.add_assoc, List.drop_length_add_append, List.drop_succ_cons] at occurs
      rwa [Nat.add_assoc, Nat.add_comm further, ← Nat.add_assoc, Nat.add_sub_cancel_left]
    · rw [Occurs, List.drop_append_of_le_length before] at occurs
      exact .inl ⟨place, (prefix_append_separator apart).mp occurs⟩
  · rintro (inside | inside)
    · exact inside.trans (List.prefix_append _ _).isInfix
    · exact inside.trans ((List.suffix_cons _ _).trans (List.suffix_append _ _)).isInfix

/-! ## Scanning -/

section Scanning

variable [DecidableEq α]

/-- Where a word first occurs in a text. -/
def firstOccurrence (word text : List α) : Option ℕ :=
  text.tails.findIdx? fun rest => decide (word <+: rest)

theorem firstOccurrence_eq_some (found : firstOccurrence word text = some place) :
    Occurs word text place ∧ ∀ earlier < place, ¬ Occurs word text earlier := by
  obtain ⟨below, here, before⟩ := List.findIdx?_eq_some_iff_getElem.mp found
  simp only [List.getElem_tails, decide_eq_true_eq] at here before
  exact ⟨here, before⟩

theorem firstOccurrence_eq_none (found : firstOccurrence word text = none) (place : ℕ) :
    ¬ Occurs word text place := by
  have nowhere := List.findIdx?_eq_none_iff.mp found
  have listed : text.drop place ∈ text.tails :=
    (List.mem_tails _ _).mpr (List.drop_suffix _ _)
  simpa [Occurs] using nowhere _ listed

theorem firstOccurrence_append (word rest : List α) :
    firstOccurrence word (word ++ rest) = some 0 := by
  refine List.findIdx?_eq_some_iff_getElem.mpr ⟨?_, ?_, fun earlier before => ?_⟩
  · rw [List.length_tails]
    exact Nat.succ_pos _
  · rw [List.getElem_tails, List.drop_zero]
    exact decide_eq_true (List.prefix_append word rest)
  · exact absurd before (Nat.not_lt_zero _)

/-- The occurrences that a scan of a text finds. -/
def jumps (word text : List α) : ℕ → ℕ → List ℕ
  | 0, _ => []
  | rounds + 1, start =>
      match firstOccurrence word (text.drop start) with
      | none => []
      | some distance =>
          (start + distance) ::
            if text.length ≤ start + distance + word.length then []
            else jumps word text rounds (start + distance + word.length)

/-- The scan finds occurrences, from where it starts on. -/
theorem occurs_of_mem_jumps {rounds : ℕ} (listed : place ∈ jumps word text rounds start) :
    start ≤ place ∧ Occurs word text place := by
  induction rounds generalizing start with
  | zero => cases listed
  | succ rounds ih =>
      rw [jumps] at listed
      cases found : firstOccurrence word (text.drop start) with
      | none => simp [found] at listed
      | some distance =>
          rw [found] at listed
          rcases List.mem_cons.mp listed with rfl | later
          · exact ⟨Nat.le_add_right _ _, occurs_drop.mp (firstOccurrence_eq_some found).1⟩
          · split at later
            · cases later
            · obtain ⟨after, occurs⟩ := ih later
              exact ⟨by omega, occurs⟩

/-- The scan finds its occurrences in their order. -/
theorem jumps_ascending (some_ : word ≠ []) (rounds start : ℕ) :
    (jumps word text rounds start).Pairwise (· < ·) := by
  induction rounds generalizing start with
  | zero => exact List.Pairwise.nil
  | succ rounds ih =>
      rw [jumps]
      cases firstOccurrence word (text.drop start) with
      | none => exact List.Pairwise.nil
      | some distance =>
          have positive := List.length_pos_iff.mpr some_
          refine List.pairwise_cons.mpr ⟨fun later listed => ?_, ?_⟩
          · split at listed
            · cases listed
            · have after := (occurs_of_mem_jumps listed).1
              omega
          · split
            · exact List.Pairwise.nil
            · exact ih _

/-- **Every occurrence begins inside one that the scan finds.** -/
theorem jumps_covers (some_ : word ≠ []) {rounds : ℕ}
    (rounds_enough : text.length < start + rounds) (after : start ≤ place)
    (occurs : Occurs word text place) :
    ∃ found ∈ jumps word text rounds start, found ≤ place ∧ place < found + word.length := by
  have positive := List.length_pos_iff.mpr some_
  have within := occurs.place_add_le some_
  induction rounds generalizing start with
  | zero => omega
  | succ rounds ih =>
      rw [jumps]
      have here : Occurs word (text.drop start) (place - start) :=
        occurs_drop.mpr (by rwa [Nat.add_sub_cancel' after])
      cases found : firstOccurrence word (text.drop start) with
      | none =>
          exact absurd here (firstOccurrence_eq_none found _)
      | some distance =>
          have first : distance ≤ place - start := by
            by_contra earlier
            exact (firstOccurrence_eq_some found).2 _ (by omega) here
          rcases Nat.lt_or_ge place (start + distance + word.length) with inside | behind
          · exact ⟨_, List.mem_cons_self, by omega, inside⟩
          · dsimp only
            rw [if_neg (by omega)]
            obtain ⟨later, listed, covers⟩ := ih (by omega) behind
            exact ⟨later, List.mem_cons_of_mem _ listed, covers⟩

end Scanning

/-! ## Blocks -/

/-- A block ends with a separator that the word has not. -/
def Separated (word block : List α) : Prop :=
  ∃ body separator, block = body ++ [separator] ∧ separator ∉ word

theorem Separated.length_pos (separated : Separated word block) : 0 < block.length := by
  obtain ⟨body, separator, rfl, -⟩ := separated
  simp

/-- The places where blocks begin that follow one another. -/
def starts : ℕ → List (List α) → List ℕ
  | _, [] => []
  | start, block :: blocks => start :: starts (start + block.length) blocks

theorem starts_append (start : ℕ) (front back : List (List α)) :
    starts start (front ++ back) =
      starts start front ++ starts (start + front.flatten.length) back := by
  induction front generalizing start with
  | nil => rfl
  | cons block front ih =>
      rw [List.cons_append, starts, starts, ih, List.flatten_cons, List.length_append,
        Nat.add_assoc, List.cons_append]

@[simp] theorem length_starts (start : ℕ) (blocks : List (List α)) :
    (starts start blocks).length = blocks.length := by
  induction blocks generalizing start with
  | nil => rfl
  | cons block blocks ih => rw [starts, List.length_cons, List.length_cons, ih]

theorem getElem?_starts (start : ℕ) (front : List (List α)) (block : List α)
    (back : List (List α)) :
    (starts start (front ++ block :: back))[front.length]? =
      some (start + front.flatten.length) := by
  rw [starts_append, List.getElem?_append_right (length_starts start front).le, length_starts,
    Nat.sub_self]
  rfl

/-- Where the next block begins, or else where the text ends. -/
theorem getElem?_starts_succ (start : ℕ) (front : List (List α)) (block : List α)
    (back : List (List α)) :
    (starts start (front ++ block :: back))[front.length + 1]?.getD
        (start + (front ++ block :: back).flatten.length) =
      start + front.flatten.length + block.length := by
  rw [List.append_cons front block back]
  have length : front.length + 1 = (front ++ [block]).length := by
    rw [List.length_append, List.length_singleton]
  have flat : (front ++ [block]).flatten.length = front.flatten.length + block.length := by
    rw [List.flatten_append, List.flatten_singleton, List.length_append]
  cases back with
  | nil =>
      rw [List.append_nil, List.getElem?_eq_none (by rw [length_starts, length]), Option.getD_none,
        flat, Nat.add_assoc]
  | cons next back =>
      rw [length, getElem?_starts, Option.getD_some, flat, Nat.add_assoc]

theorem lt_of_mem_starts (nonempty : ∀ block ∈ blocks, 0 < block.length)
    (listed : place ∈ starts start blocks) :
    start ≤ place ∧ place < start + blocks.flatten.length := by
  induction blocks generalizing start with
  | nil => cases listed
  | cons block blocks ih =>
      obtain ⟨first, rest⟩ := List.forall_mem_cons.mp nonempty
      rw [List.flatten_cons, List.length_append]
      rcases List.mem_cons.mp listed with rfl | later
      · omega
      · have bounds := ih rest later
        omega

/-- The block in which a place lies. -/
def blockOf : List (List α) → ℕ → ℕ
  | [], _ => 0
  | block :: blocks, place =>
      if place < block.length then 0 else blockOf blocks (place - block.length) + 1

theorem blockOf_eq (front : List (List α)) {back : List (List α)} (below : within < block.length) :
    blockOf (front ++ block :: back) (front.flatten.length + within) = front.length := by
  induction front with
  | nil =>
      rw [List.nil_append, blockOf, List.flatten_nil, List.length_nil, Nat.zero_add, if_pos below]
      rfl
  | cons first front ih =>
      rw [List.cons_append, blockOf, List.flatten_cons, List.length_append, if_neg (by omega),
        Nat.add_assoc, Nat.add_sub_cancel_left, ih, List.length_cons]

theorem exists_block (inside : place < blocks.flatten.length) :
    ∃ front block back within, blocks = front ++ block :: back ∧
      place = front.flatten.length + within ∧ within < block.length := by
  induction blocks generalizing place with
  | nil => cases inside
  | cons block blocks ih =>
      rw [List.flatten_cons, List.length_append] at inside
      rcases Nat.lt_or_ge place block.length with here | beyond
      · exact ⟨[], block, blocks, place, rfl, (Nat.zero_add _).symm, here⟩
      · obtain ⟨distance, rfl⟩ := Nat.exists_eq_add_of_le beyond
        have rest : distance < blocks.flatten.length := by omega
        obtain ⟨front, found, back, within, rfl, rfl, below⟩ := ih rest
        refine ⟨block :: front, found, back, within, rfl, ?_, below⟩
        rw [List.flatten_cons, List.length_append, Nat.add_assoc]

theorem blockOf_mono (blocks : List (List α)) {later : ℕ} (before : place ≤ later) :
    blockOf blocks place ≤ blockOf blocks later := by
  induction blocks generalizing place later with
  | nil => exact Nat.le_refl _
  | cons block blocks ih =>
      rw [blockOf, blockOf]
      split
      · exact Nat.zero_le _
      · rw [if_neg (by omega)]
        exact Nat.succ_le_succ (ih (by omega))

/-- **An occurrence lies in one block.** -/
theorem occurs_in_block {front back : List (List α)} (separated : Separated word block)
    (below : within < block.length)
    (occurs : Occurs word (front ++ block :: back).flatten (front.flatten.length + within)) :
    Occurs word block within := by
  obtain ⟨body, separator, rfl, apart⟩ := separated
  rw [List.length_append, List.length_singleton] at below
  rw [Occurs, List.flatten_append, List.drop_length_add_append, List.flatten_cons,
    List.append_assoc, List.singleton_append, List.drop_append_of_le_length (by omega),
    prefix_append_separator apart] at occurs
  rw [Occurs, List.drop_append_of_le_length (by omega)]
  exact occurs.trans (List.prefix_append _ _)

theorem occurs_flatten (front back : List (List α)) (occurs : Occurs word block within)
    (below : within ≤ block.length) :
    Occurs word (front ++ block :: back).flatten (front.flatten.length + within) := by
  rw [Occurs, List.flatten_append, List.flatten_cons, List.drop_length_add_append,
    List.drop_append_of_le_length below]
  exact occurs.trans (List.prefix_append _ _)

end Words

/-! ## Finding the block of a place -/

section Search

variable {K : Type*} [DecidableEq K] [LT K] [DecidableLT K]

/-- Where a key stands in an ascending list, or else where it would. -/
def binarySearch (keys : List K) (key : K) : Except ℕ ℕ :=
  match keys.idxOf? key with
  | some place => .ok place
  | none => .error (keys.countP (· < key))

theorem binarySearch_found {front : List K} (back : List K) {key : K} (absent : key ∉ front) :
    binarySearch (front ++ key :: back) key = .ok front.length := by
  have place : (front ++ key :: back).idxOf? key = some front.length := by
    refine List.idxOf?_eq_some_iff.mpr ⟨by simp, by simp, fun earlier before same => absent ?_⟩
    rw [List.getElem_append_left before] at same
    exact same ▸ List.getElem_mem before
  rw [binarySearch, place]

theorem binarySearch_between {front back : List K} {key : K} (below : ∀ k ∈ front, k < key)
    (above : ∀ k ∈ back, ¬ k < key) (absent : key ∉ front ++ back) :
    binarySearch (front ++ back) key = .error front.length := by
  have place : (front ++ back).idxOf? key = none :=
    List.idxOf?_eq_none_iff.mpr absent
  have none_ : back.countP (· < key) = 0 := List.countP_eq_zero.mpr (by simpa using above)
  have all : front.countP (· < key) = front.length :=
    List.countP_eq_length.mpr (by simpa using below)
  rw [binarySearch, place, List.countP_append, none_, all]
  rfl

end Search

/-! ## One after another -/

section Visits

variable {ι : Type*}

/-- A list without what repeats the element before it. -/
def visited [DecidableEq ι] : Option ι → List ι → List ι
  | _, [] => []
  | last, x :: xs => if last = some x then visited last xs else x :: visited (some x) xs

theorem filterMap_visited_cons {β : Type*} [DecidableEq ι] (f : ι → Option β) (last : Option ι)
    (x : ι) (xs : List ι) : (visited last (x :: xs)).filterMap f =
      (if last = some x then none else f x).toList ++ (visited (some x) xs).filterMap f := by
  rw [visited]
  split
  · next same => rw [same, Option.toList_none, List.nil_append]
  · cases shape : f x with
    | none => rw [List.filterMap_cons_none shape, Option.toList_none, List.nil_append]
    | some y => rw [List.filterMap_cons_some shape, Option.toList_some, List.singleton_append]

theorem mem_visited {last : Option ℕ} {xs : List ℕ} {x : ℕ} (ascending : xs.Pairwise (· ≤ ·))
    (behind : ∀ y ∈ last, ∀ z ∈ xs, y ≤ z) :
    x ∈ visited last xs ↔ x ∈ xs ∧ last ≠ some x := by
  induction xs generalizing last with
  | nil => simp [visited]
  | cons z xs ih =>
      obtain ⟨first, rest⟩ := List.pairwise_cons.mp ascending
      rw [visited]
      split
      · next same =>
          rw [ih rest fun y there w listed => behind y there w (.tail _ listed), List.mem_cons]
          constructor
          · exact fun ⟨listed, apart⟩ => ⟨.inr listed, apart⟩
          · rintro ⟨rfl | listed, apart⟩
            · exact absurd same apart
            · exact ⟨listed, apart⟩
      · next apart =>
          rw [List.mem_cons, ih rest (by simpa using first), List.mem_cons]
          constructor
          · rintro (rfl | ⟨listed, other⟩)
            · exact ⟨.inl rfl, apart⟩
            · refine ⟨.inr listed, fun same => ?_⟩
              have low := behind x same z List.mem_cons_self
              have high := first x listed
              exact other (congrArg some (by omega))
          · rintro ⟨rfl | listed, other⟩
            · exact .inl rfl
            · by_cases same : z = x
              · exact .inl same.symm
              · exact .inr ⟨listed, fun eq => same (Option.some.inj eq)⟩

theorem visited_ascending {last : Option ℕ} {xs : List ℕ} (ascending : xs.Pairwise (· ≤ ·)) :
    (visited last xs).Pairwise (· < ·) := by
  induction xs generalizing last with
  | nil => exact List.Pairwise.nil
  | cons z xs ih =>
      obtain ⟨first, rest⟩ := List.pairwise_cons.mp ascending
      rw [visited]
      split
      · exact ih rest
      · refine List.pairwise_cons.mpr ⟨fun x listed => ?_, ih rest⟩
        obtain ⟨later, apart⟩ := (mem_visited rest (by simpa using first)).mp listed
        have low := first x later
        have other : z ≠ x := fun same => apart (congrArg some same)
        omega

end Visits

/-! ## Texts -/

/-- A text occurs in another one. -/
def Contains (text query : String) : Prop := ∃ front back, text = front ++ query ++ back

/-- The bytes of a text in UTF-8. -/
theorem toList_eq (bytes : ByteArray) : bytes.toList = bytes.data.toList := by
  have loop : ∀ (rest i : ℕ) (front : List UInt8), bytes.size - i = rest →
      ByteArray.toList.loop bytes i front = front.reverse ++ bytes.data.toList.drop i := by
    intro rest
    induction rest with
    | zero =>
        intro i front done
        have size : bytes.data.size = bytes.size := rfl
        rw [ByteArray.toList.loop, if_neg (by omega), List.drop_eq_nil_of_le, List.append_nil]
        rw [Array.length_toList]
        omega
    | succ rest ih =>
        intro i front left
        have size : bytes.data.size = bytes.size := rfl
        have below : i < bytes.data.toList.length := by
          rw [Array.length_toList]
          omega
        rw [ByteArray.toList.loop, if_pos (by omega), ih _ _ (by omega), List.reverse_cons,
          List.append_assoc, List.singleton_append, List.drop_eq_getElem_cons below]
        congr 2
        rw [ByteArray.get!]
        simp only [Array.getElem_toList]
        exact getElem!_pos bytes.data i (by omega)
  rw [ByteArray.toList, loop _ 0 [] rfl]
  rfl

theorem length_toUTF8 (text : String) : text.toUTF8.toList.length = text.utf8ByteSize := by
  rw [toList_eq, ← String.size_toByteArray]
  rfl

theorem toUTF8_append (front back : String) :
    (front ++ back).toUTF8.toList = front.toUTF8.toList ++ back.toUTF8.toList := by
  simp only [toList_eq, String.toUTF8, String.toByteArray_append, ByteArray.toList_data_append]

variable {text : String}

theorem toUTF8_inj {other : String} (same : text.toUTF8.toList = other.toUTF8.toList) :
    text = other := by
  rw [toList_eq, toList_eq] at same
  exact String.toByteArray_inj.mp (ByteArray.ext (Array.toList_inj.mp same))

theorem toUTF8_eq_nil : text.toUTF8.toList = [] ↔ text = "" :=
  ⟨fun none_ => toUTF8_inj (none_.trans ByteArray.toList_empty.symm),
    fun none_ => none_ ▸ ByteArray.toList_empty⟩

/-- A character begins wherever the bytes of a text stand that is not empty. -/
theorem exists_append_of_bytes {query : String} {before after : List UInt8} (some_ : query ≠ "")
    (same : text.toUTF8.toList = before ++ (query.toUTF8.toList ++ after)) :
    ∃ front rest, text = front ++ rest ∧ rest.toUTF8.toList = query.toUTF8.toList ++ after := by
  have bytes : text.toByteArray.data.toList =
      before ++ (query.toByteArray.data.toList ++ after) := by
    rw [toList_eq, toList_eq] at same
    exact same
  have begun : 0 < query.toByteArray.size := by
    have size := List.length_pos_iff.mpr fun none_ => some_ (toUTF8_eq_nil.mp none_)
    rwa [toList_eq] at size
  have length : text.toByteArray.size =
      before.length + (query.toByteArray.size + after.length) := by
    have size := congrArg List.length bytes
    simpa using size
  have inside : before.length < text.toByteArray.size := by omega
  have first : text.toByteArray[before.length] = query.toByteArray[0] := by
    have listed : text.toByteArray.data.toList[before.length]? =
        query.toByteArray.data.toList[0]? := by
      rw [bytes, List.getElem?_append_right (Nat.le_refl _), Nat.sub_self,
        List.getElem?_append_left (by rw [Array.length_toList]; exact begun)]
    rw [Array.getElem?_toList, Array.getElem?_toList, Array.getElem?_eq_getElem inside,
      Array.getElem?_eq_getElem begun] at listed
    exact Option.some.inj listed
  have valid : (⟨before.length⟩ : String.Pos.Raw).IsValid text := by
    refine String.Pos.Raw.isValid_iff_isUTF8FirstByte.mpr (.inr ⟨?_, ?_⟩)
    · rw [String.Pos.Raw.lt_iff, String.byteIdx_rawEndPos, ← String.size_toByteArray]
      exact inside
    · rw [String.getUTF8Byte, first]
      exact query.isValidUTF8.isUTF8FirstByte_getElem_zero begun
  obtain ⟨front, rest, rfl, place⟩ := String.Pos.Raw.isValid_iff_exists_append.mp valid
  refine ⟨front, rest, rfl, ?_⟩
  have size : before.length = front.toUTF8.toList.length := by
    have ends := congrArg String.Pos.Raw.byteIdx place
    rw [String.byteIdx_rawEndPos, ← String.size_toByteArray] at ends
    rw [toList_eq]
    exact ends
  rw [toUTF8_append] at same
  exact (List.append_inj same size.symm).2

/-- **A text occurs in another one just when its bytes do.** -/
theorem contains_iff {query : String} :
    Contains text query ↔ query.toUTF8.toList <:+: text.toUTF8.toList := by
  constructor
  · rintro ⟨front, back, rfl⟩
    exact ⟨front.toUTF8.toList, back.toUTF8.toList, by rw [toUTF8_append, toUTF8_append]⟩
  · rintro ⟨before, after, same⟩
    by_cases none_ : query = ""
    · exact ⟨"", text, by rw [none_, String.empty_append, String.empty_append]⟩
    · obtain ⟨front, rest, rfl, bytes⟩ :=
        exists_append_of_bytes none_ (by rw [← same, List.append_assoc])
      have begins : query.toList <+: rest.toList := by
        refine List.isPrefix_of_utf8Encode_append_eq_utf8Encode after.toByteArray ?_
        rw [String.utf8Encode_toList, String.utf8Encode_toList]
        refine ByteArray.ext (Array.toList_inj.mp ?_)
        rw [toList_eq, toList_eq] at bytes
        rw [ByteArray.toList_data_append, List.toList_data_toByteArray]
        exact bytes.symm
      obtain ⟨back, same⟩ := begins
      refine ⟨front, String.ofList back, ?_⟩
      have split : rest = query ++ String.ofList back := by
        rw [← String.toList_inj, String.toList_append, String.toList_ofList, same]
      rw [split, String.append_assoc]

theorem contains_singleton {c : Char} : Contains text (String.singleton c) ↔ c ∈ text.toList := by
  constructor
  · rintro ⟨front, back, rfl⟩
    simp
  · intro listed
    obtain ⟨front, back, same⟩ := List.append_of_mem listed
    refine ⟨String.ofList front, String.ofList back, ?_⟩
    rw [← String.toList_inj, String.toList_append, String.toList_append, String.toList_ofList,
      String.toList_ofList, same]
    simp

/-- A byte that is a character by itself stands for nothing else. -/
theorem mem_toUTF8_iff {c : Char} {byte : UInt8}
    (single : (String.singleton c).toUTF8.toList = [byte]) :
    byte ∈ text.toUTF8.toList ↔ c ∈ text.toList := by
  rw [← contains_singleton, contains_iff, single, List.singleton_infix_iff]

end Library
