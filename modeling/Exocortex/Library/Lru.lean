import Mathlib.Data.List.Induction
import Mathlib.Data.List.Nodup
import Mathlib.Tactic.Common

/-!
# Bounded caches of the most recently used entries

A cache keeps at most `cap` entries, the one used last at the front. Writing a key moves it to
the front and pushes the last entry out when there is no room; looking a key up moves it to the
front as well.

A write changes no other entry, except that it may push one out (`peek_put_other`), and only a
new key pushes one out, the last of a full cache (`full_of_put`). Writing as many new keys as there
is room pushes everything else out (`peek_putAll`).
-/

namespace Library

/-- A cache of at most `cap` entries, the most recently used first. -/
structure Lru (K V : Type*) where
  cap : ℕ
  entries : List (K × V)
  positive : 0 < cap
  distinct : (entries.map Prod.fst).Nodup
  bounded : entries.length ≤ cap

namespace Lru

variable {K V : Type*}

theorem cap_succ (c : Lru K V) : ∃ n, c.cap = n + 1 := by
  have positive := c.positive
  exact ⟨c.cap - 1, by omega⟩

/-- A cache without entries. -/
def empty (cap : ℕ) (positive : 0 < cap) : Lru K V :=
  ⟨cap, [], positive, List.nodup_nil, cap.zero_le⟩

variable [DecidableEq K]

/-- The value of a key, the order left as it is. -/
def peek (c : Lru K V) (key : K) : Option V := (c.entries.find? (·.1 = key)).map Prod.snd

/-- The entries of all other keys. -/
def others (key : K) (entries : List (K × V)) : List (K × V) := entries.filter (·.1 ≠ key)

variable {entries : List (K × V)} {c : Lru K V} {key : K}

omit [DecidableEq K] in
theorem nodup_take (distinct : (entries.map Prod.fst).Nodup) (n : ℕ) :
    ((entries.take n).map Prod.fst).Nodup := by
  rw [List.map_take]
  exact distinct.sublist (List.take_sublist _ _)

theorem nodup_front (distinct : (entries.map Prod.fst).Nodup) (key : K) (value : V) :
    (((key, value) :: others key entries).map Prod.fst).Nodup := by
  rw [List.map_cons, List.nodup_cons]
  constructor
  · intro member
    obtain ⟨entry, listed, same⟩ := List.mem_map.mp member
    exact of_decide_eq_true (List.mem_filter.mp listed).2 same
  · exact distinct.sublist (List.filter_sublist.map _)

/-- Write a key. -/
def put (c : Lru K V) (key : K) (value : V) : Lru K V where
  cap := c.cap
  entries := ((key, value) :: others key c.entries).take c.cap
  positive := c.positive
  distinct := nodup_take (nodup_front c.distinct key value) _
  bounded := List.length_take_le _ _

theorem put_entries (c : Lru K V) (key : K) (value : V) :
    (c.put key value).entries = ((key, value) :: others key c.entries).take c.cap := rfl

/-- Look a key up: its entry moves to the front. -/
def touch (c : Lru K V) (key : K) : Lru K V :=
  match c.peek key with
  | none => c
  | some value => c.put key value

variable {value : V} {other : K} {news : List (K × V)}

theorem peek_eq_some_iff : c.peek key = some value ↔ (key, value) ∈ c.entries := by
  rw [peek, Option.map_eq_some_iff]
  constructor
  · rintro ⟨entry, found, rfl⟩
    have same : entry.1 = key := by simpa using List.find?_some found
    rw [← same]
    exact List.mem_of_find?_eq_some found
  · intro member
    cases found : c.entries.find? (·.1 = key) with
    | none => exact absurd (List.find?_eq_none.mp found _ member) (by simp)
    | some entry =>
        have same : entry.1 = key := by simpa using List.find?_some found
        exact ⟨entry, rfl, congrArg Prod.snd
          (List.inj_on_of_nodup_map c.distinct (List.mem_of_find?_eq_some found) member same)⟩

theorem peek_eq_none_iff : c.peek key = none ↔ ∀ entry ∈ c.entries, entry.1 ≠ key := by
  rw [peek, Option.map_eq_none_iff, List.find?_eq_none]
  simp

theorem mem_others {entry : K × V} :
    entry ∈ others key entries ↔ entry ∈ entries ∧ entry.1 ≠ key := by
  rw [others, List.mem_filter]
  simp

@[simp] theorem peek_put_self (c : Lru K V) (key : K) (value : V) :
    (c.put key value).peek key = some value := by
  rw [peek_eq_some_iff, put_entries]
  obtain ⟨n, more⟩ := c.cap_succ
  rw [more, List.take_succ_cons]
  exact List.mem_cons_self

/-- What a cache has after a write was written or was there before. -/
theorem peek_put_other {found : V} (apart : other ≠ key)
    (after : (c.put key value).peek other = some found) : c.peek other = some found := by
  rw [peek_eq_some_iff] at after ⊢
  rcases List.mem_cons.mp (List.mem_of_mem_take after) with written | before
  · exact absurd (congrArg Prod.fst written) apart
  · exact (mem_others.mp before).1

/-- There is room for a key that the cache has, and for any key while it is not full. -/
def Room (c : Lru K V) (key : K) : Prop := c.peek key ≠ none ∨ c.entries.length < c.cap

theorem length_others (room : c.Room key) : (others key c.entries).length < c.cap := by
  rcases room with present | short
  · obtain ⟨value, found⟩ := Option.ne_none_iff_exists'.mp present
    refine Nat.lt_of_lt_of_le ?_ c.bounded
    exact List.length_filter_lt_length_iff_exists.mpr
      ⟨_, peek_eq_some_iff.mp found, by simp⟩
  · exact Nat.lt_of_le_of_lt (List.length_filter_le _ _) short

/-- With room, a write changes its own entry only. -/
theorem peek_put_of_room (room : c.Room key) (value : V) (apart : other ≠ key) :
    (c.put key value).peek other = c.peek other := by
  have whole : (c.put key value).entries = (key, value) :: others key c.entries :=
    List.take_of_length_le (length_others room)
  have kept : ∀ found, (c.put key value).peek other = some found ↔ c.peek other = some found := by
    intro found
    rw [peek_eq_some_iff, peek_eq_some_iff, whole, List.mem_cons, mem_others]
    constructor
    · rintro (written | before)
      · exact absurd (congrArg Prod.fst written) apart
      · exact before.1
    · exact fun before => .inr ⟨before, apart⟩
  exact Option.ext kept

theorem put_entries_of_new (new : c.peek key = none) (value : V) :
    (c.put key value).entries = ((key, value) :: c.entries).take c.cap := by
  have whole : others key c.entries = c.entries :=
    List.filter_eq_self.mpr fun entry member =>
      decide_eq_true (peek_eq_none_iff.mp new entry member)
  rw [put_entries, whole]

/-- Only a new key pushes an entry out, and only the last entry of a full cache. -/
theorem full_of_put {held : V} (before : c.peek other = some held)
    (after : (c.put key value).peek other = none) :
    c.peek key = none ∧ c.entries.length = c.cap ∧ c.entries.getLast? = some (other, held) := by
  have apart : other ≠ key := by
    rintro rfl
    rw [peek_put_self] at after
    cases after
  have noRoom : ¬ c.Room key := by
    intro room
    rw [peek_put_of_room room value apart, before] at after
    cases after
  obtain ⟨fresh, full⟩ := not_or.mp noRoom
  have missing : c.peek key = none := not_not.mp fresh
  have size : c.entries.length = c.cap :=
    Nat.le_antisymm c.bounded (Nat.le_of_not_lt full)
  refine ⟨missing, size, ?_⟩
  -- The entries after the write are the new one and all but the last of those before.
  have entries : (c.put key value).entries = (key, value) :: c.entries.dropLast := by
    obtain ⟨n, more⟩ := c.cap_succ
    rw [put_entries_of_new missing, more, List.take_succ_cons, List.dropLast_eq_take, size, more,
      Nat.add_sub_cancel]
  have member := peek_eq_some_iff.mp before
  have notFirst : (other, held) ∉ c.entries.dropLast := by
    intro listed
    have found : (c.put key value).peek other = some held :=
      peek_eq_some_iff.mpr (entries ▸ List.mem_cons_of_mem _ listed)
    rw [found] at after
    cases after
  have some : c.entries ≠ [] := List.ne_nil_of_mem member
  rw [← List.dropLast_append_getLast some, List.mem_append, List.mem_singleton] at member
  rw [List.getLast?_eq_getLast_of_ne_nil some, member.resolve_left notFirst]

/-- A write of a key without room pushes another one out. -/
theorem exists_pushed_out (full : ¬ c.Room key) (value : V) :
    ∃ other held, c.peek other = some held ∧ (c.put key value).peek other = none := by
  obtain ⟨fresh, full⟩ := not_or.mp full
  have missing : c.peek key = none := not_not.mp fresh
  have size : c.entries.length = c.cap := Nat.le_antisymm c.bounded (Nat.le_of_not_lt full)
  obtain ⟨n, more⟩ := c.cap_succ
  have entries : (c.put key value).entries = (key, value) :: c.entries.dropLast := by
    rw [put_entries_of_new missing, more, List.take_succ_cons, List.dropLast_eq_take, size, more,
      Nat.add_sub_cancel]
  have some : c.entries ≠ [] := List.ne_nil_of_length_pos (by omega)
  have split := List.dropLast_append_getLast some
  refine ⟨(c.entries.getLast some).1, (c.entries.getLast some).2,
    peek_eq_some_iff.mpr (List.getLast_mem some), peek_eq_none_iff.mpr fun entry member same => ?_⟩
  rw [entries] at member
  rcases List.mem_cons.mp member with rfl | old
  · exact peek_eq_none_iff.mp missing _ (List.getLast_mem some) same.symm
  · have distinct := c.distinct
    rw [← split, List.map_append, List.nodup_append] at distinct
    exact distinct.2.2 _ (List.mem_map_of_mem old) _ (by simp) same

/-- Take a key out. -/
def pop (c : Lru K V) (key : K) : Lru K V where
  cap := c.cap
  entries := others key c.entries
  positive := c.positive
  distinct := c.distinct.sublist (List.filter_sublist.map _)
  bounded := Nat.le_trans (List.length_filter_le _ _) c.bounded

theorem peek_pop (c : Lru K V) (key other : K) :
    (c.pop key).peek other = if other = key then none else c.peek other := by
  split
  · next same =>
      exact peek_eq_none_iff.mpr fun entry member =>
        same.symm ▸ (mem_others.mp member).2
  · next apart =>
      refine Option.ext fun value => ?_
      rw [peek_eq_some_iff, peek_eq_some_iff]
      exact mem_others.trans (and_iff_left apart)

/-- Take the entry out that was used least recently. -/
def popLru (c : Lru K V) : Option ((K × V) × Lru K V) :=
  c.entries.getLast?.map fun entry => (entry, c.pop entry.1)

theorem popLru_eq_none : c.popLru = none ↔ c.entries = [] := by
  rw [popLru, Option.map_eq_none_iff, List.getLast?_eq_none_iff]

theorem peek_popLru {rest : Lru K V} {entry : K × V} (popped : c.popLru = some (entry, rest)) :
    c.peek entry.1 = some entry.2 ∧ rest = c.pop entry.1 := by
  obtain ⟨last, found, same⟩ := Option.map_eq_some_iff.mp popped
  obtain ⟨rfl, rfl⟩ := Prod.mk.inj same
  exact ⟨peek_eq_some_iff.mpr (List.mem_of_getLast? found), rfl⟩

@[simp] theorem peek_touch (c : Lru K V) (key other : K) :
    (c.touch key).peek other = c.peek other := by
  rw [touch]
  split
  · rfl
  next value found =>
    by_cases same : other = key
    · rw [same, peek_put_self, found]
    · exact peek_put_of_room (.inl (by rw [found]; exact Option.some_ne_none _)) value same

/-- Write some entries, one after the other. -/
def putAll (c : Lru K V) (news : List (K × V)) : Lru K V :=
  news.foldl (fun c entry => c.put entry.1 entry.2) c

@[simp] theorem putAll_cap (c : Lru K V) (news : List (K × V)) : (c.putAll news).cap = c.cap :=
  List.foldlRecOn (motive := fun d : Lru K V => d.cap = c.cap) news _ rfl fun _ same _ _ => same

theorem putAll_entries (c : Lru K V) (distinct : (news.map Prod.fst).Nodup)
    (fresh : ∀ entry ∈ news, c.peek entry.1 = none) :
    (c.putAll news).entries = (news.reverse ++ c.entries).take c.cap := by
  induction news using List.reverseRecOn with
  | nil => exact (List.take_of_length_le c.bounded).symm
  | append_singleton news entry ih =>
      rw [List.map_append, List.nodup_append] at distinct
      have before := ih distinct.1 fun other member =>
        fresh other (List.mem_append_left _ member)
      have new : (c.putAll news).peek entry.1 = none := by
        rw [peek_eq_none_iff, before]
        intro other member same
        rcases List.mem_append.mp (List.mem_of_mem_take member) with written | old
        · exact distinct.2.2 other.1 (List.mem_map_of_mem (List.mem_reverse.mp written)) entry.1
            (by simp) same
        · have missing := fresh entry (List.mem_append_right _ List.mem_cons_self)
          exact peek_eq_none_iff.mp missing other old same
      have step : c.putAll (news ++ [entry]) = (c.putAll news).put entry.1 entry.2 := by
        rw [putAll, List.foldl_append]
        rfl
      rw [step, put_entries_of_new new, putAll_cap, before, List.reverse_append]
      obtain ⟨n, more⟩ := c.cap_succ
      rw [more, List.reverse_singleton, List.singleton_append, List.cons_append,
        List.take_succ_cons, List.take_succ_cons, List.take_take, Nat.min_eq_left (by omega)]

/-- Writing as many new keys as there is room for pushes everything else out. -/
theorem peek_putAll (c : Lru K V) (distinct : (news.map Prod.fst).Nodup)
    (fresh : ∀ entry ∈ news, c.peek entry.1 = none) (many : c.cap ≤ news.length)
    (apart : key ∉ news.map Prod.fst) : (c.putAll news).peek key = none := by
  rw [peek_eq_none_iff, putAll_entries c distinct fresh,
    List.take_append_of_le_length (by rwa [List.length_reverse])]
  intro entry member same
  have listed := List.mem_reverse.mp (List.mem_of_mem_take member)
  exact apart (same ▸ List.mem_map_of_mem listed)

end Lru

end Library
