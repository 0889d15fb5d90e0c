import Mathlib.Data.List.AList
import Mathlib.Data.Set.Card

/-!
# Finite tables, version histories and member sets

A table maps finitely many keys to one value each. It is Mathlib's `AList` at a
constant family, so `lookup`, `insert` and `erase` and their equations are used
from there.

Two uses have their own operations. A table of lists holds a history per key:
`history` reads it, with no versions for an absent key, and `push` appends one
version. A table of finite sets holds the members per key: `members` reads them,
`extend` adds to one key, and `extendAll` adds a whole table (`members_extendAll`).

An ordered table is read in the order of its keys by `sortedEntries`, which is a
permutation of the entries.

`lastWith` is the row of a list that remains when later rows replace earlier ones of the same
identity.
-/

namespace Library

/-- A finite table: each key has at most one value. -/
abbrev Table (K V : Type*) := AList (fun _ : K => V)

namespace Table

variable {K V α : Type*} [DecidableEq K]

theorem lookup_insert_eq (t : Table K V) (key other : K) (value : V) :
    (t.insert key value).lookup other = if other = key then some value else t.lookup other := by
  by_cases same : other = key
  · subst same
    simp
  · simp [same]

theorem lookup_erase_eq (t : Table K V) (key other : K) :
    (t.erase key).lookup other = if other = key then none else t.lookup other := by
  by_cases same : other = key
  · subst same
    simp
  · simp [same]

/-- The values of a table, in entry order. -/
def values (t : Table K V) : List V := t.entries.map (·.2)

variable {t : Table K V} {key : K}

theorem mem_values {value : V} : value ∈ t.values ↔ ∃ key, t.lookup key = some value := by
  constructor
  · intro member
    obtain ⟨⟨key, found⟩, entry, rfl⟩ := List.mem_map.mp member
    exact ⟨key, AList.mem_lookup_iff.mpr entry⟩
  · rintro ⟨key, found⟩
    exact List.mem_map.mpr ⟨⟨key, value⟩, AList.mem_lookup_iff.mp found, rfl⟩

/-- What is taken from the values is told apart by their keys. -/
theorem nodup_filterMap_values {W : Type*} {f : V → Option W} {keyOf : W → K}
    (keyed : ∀ key value row, t.lookup key = some value → f value = some row → keyOf row = key) :
    ((t.values.filterMap f).map keyOf).Nodup := by
  rw [values, List.filterMap_map, List.Nodup, List.pairwise_map, List.pairwise_filterMap]
  refine (List.nodupKeys_iff_pairwise.mp t.nodupKeys).imp_of_mem ?_
  intro first second inFirst inSecond apart row found other also same
  have firstKey := keyed first.1 first.2 row (AList.mem_lookup_iff.mpr inFirst) found
  have secondKey := keyed second.1 second.2 other (AList.mem_lookup_iff.mpr inSecond) also
  exact apart (firstKey.symm.trans (same.trans secondKey))

/-- As many values of a kind as keys that hold one. -/
theorem length_filter_values (t : Table K V) (p : V → Bool) :
    (t.values.filter p).length = {key | ∃ value, t.lookup key = some value ∧ p value}.ncard := by
  have distinct : ((t.entries.filter fun entry => p entry.2).map Sigma.fst).Nodup :=
    (List.filter_sublist.map _).nodup t.nodupKeys
  have keys : {key | ∃ value, t.lookup key = some value ∧ p value} =
      ↑((t.entries.filter fun entry => p entry.2).map Sigma.fst).toFinset := by
    ext key
    simp only [Set.mem_ofPred_eq, List.coe_toFinset, List.mem_map, List.mem_filter]
    constructor
    · rintro ⟨value, found, holds⟩
      exact ⟨⟨key, value⟩, ⟨AList.mem_lookup_iff.mp found, holds⟩, rfl⟩
    · rintro ⟨⟨_, value⟩, ⟨entry, holds⟩, rfl⟩
      exact ⟨value, AList.mem_lookup_iff.mpr entry, holds⟩
  rw [keys, Set.ncard_coe_finset, List.toFinset_card_of_nodup distinct, List.length_map, values,
    List.filter_map, List.length_map]
  rfl

/-- The entries of a table whose keys are ordered by `le`, smallest key first. -/
def sortedEntries (t : Table K V) (le : K → K → Bool) : List (Sigma fun _ : K => V) :=
  t.entries.insertionSort fun left right => le left.1 right.1

theorem mem_sortedEntries {le : K → K → Bool} {entry : Sigma fun _ : K => V} :
    entry ∈ t.sortedEntries le ↔ t.lookup entry.1 = some entry.2 := by
  rw [sortedEntries, List.mem_insertionSort]
  exact AList.mem_lookup_iff.symm

/-! ## Histories -/

/-- The versions of a key, oldest first. An absent key has none. -/
def history (t : Table K (List V)) (key : K) : List V := (t.lookup key).getD []

/-- Append one version to the history of a key. -/
def push (t : Table K (List V)) (key : K) (version : V) : Table K (List V) :=
  t.insert key (t.history key ++ [version])

@[simp] theorem history_empty (key : K) : history (∅ : Table K (List V)) key = [] := by
  simp [history]

theorem history_insert (t : Table K (List V)) (key other : K) (versions : List V) :
    history (t.insert key versions) other = if other = key then versions else t.history other := by
  unfold history
  rw [lookup_insert_eq]
  split <;> simp

theorem history_push (t : Table K (List V)) (key other : K) (version : V) :
    (t.push key version).history other =
      t.history other ++ if other = key then [version] else [] := by
  rw [push, history_insert]
  by_cases same : other = key
  · subst same
    simp
  · simp [same]

theorem history_erase (t : Table K (List V)) (key other : K) :
    history (t.erase key) other = if other = key then [] else t.history other := by
  unfold history
  by_cases same : other = key
  · subst same
    simp
  · simp [same]

/-- The rows of each key, in their order. -/
def groupBy (keyOf : V → K) (rows : List V) : Table K (List V) :=
  rows.foldl (fun t row => t.push (keyOf row) row) ∅

theorem history_groupBy (keyOf : V → K) (rows : List V) (key : K) :
    history (groupBy keyOf rows) key = rows.filter (keyOf · = key) := by
  rw [groupBy]
  induction rows using List.reverseRecOn with
  | nil => rfl
  | append_singleton rows row ih =>
      rw [List.foldl_append, List.foldl_cons, List.foldl_nil, history_push, ih, List.filter_append]
      by_cases same : keyOf row = key
      · simp [same]
      · simp [same, Ne.symm same]

theorem lookup_groupBy {keyOf : V → K} {rows members : List V}
    (found : (groupBy keyOf rows).lookup key = some members) :
    members = rows.filter (keyOf · = key) := by
  rw [← history_groupBy, history, found, Option.getD_some]

/-- A key without rows has no entry. -/
theorem lookup_groupBy_eq (keyOf : V → K) (rows : List V) (key : K) :
    (groupBy keyOf rows).lookup key =
      if rows.filter (keyOf · = key) = [] then none else some (rows.filter (keyOf · = key)) := by
  induction rows using List.reverseRecOn with
  | nil => rfl
  | append_singleton rows row ih =>
      have step : groupBy keyOf (rows ++ [row]) = (groupBy keyOf rows).push (keyOf row) row := by
        rw [groupBy, List.foldl_append]
        rfl
      rw [step, push, lookup_insert_eq, history_groupBy, ih, List.filter_append]
      by_cases same : key = keyOf row
      · rw [if_pos same, same]
        simp
      · simp [same, Ne.symm same]

/-- Drop versions of one key. A key left without versions is removed, and one
that loses none keeps its place. -/
def retain (t : Table K (List V)) (key : K) (keep : V → Bool) : Table K (List V) :=
  match t.lookup key with
  | none => t
  | some versions =>
      let kept := versions.filter keep
      if kept.length = versions.length then t
      else if kept.isEmpty then t.erase key
      else t.insert key kept

theorem history_retain (t : Table K (List V)) (key other : K) (keep : V → Bool) :
    (t.retain key keep).history other =
      if other = key then (t.history other).filter keep else t.history other := by
  unfold retain
  cases found : t.lookup key with
  | none =>
      by_cases same : other = key
      · subst same
        simp [history, found]
      · simp [same]
  | some versions =>
      have whole : t.history key = versions := by simp [history, found]
      dsimp only
      split
      · next all =>
          rw [List.length_filter_eq_length_iff] at all
          by_cases same : other = key
          · rw [if_pos same, same, whole, List.filter_eq_self.mpr all]
          · rw [if_neg same]
      · split
        · next none =>
            rw [List.isEmpty_iff] at none
            rw [history_erase]
            by_cases same : other = key
            · rw [if_pos same, if_pos same, same, whole, none]
            · rw [if_neg same, if_neg same]
        · rw [history_insert]
          by_cases same : other = key
          · rw [if_pos same, if_pos same, same, whole]
          · rw [if_neg same, if_neg same]

/-- A fold each step of which drops versions drops what any step drops. -/
theorem foldl_filter {A E : Type*} {step : A → E → A} (view : A → List V) {keep : E → V → Bool}
    (each : ∀ acc entry, view (step acc entry) = (view acc).filter (keep entry))
    (entries : List E) : ∀ acc, view (entries.foldl step acc) =
      (view acc).filter fun version => entries.all fun entry => keep entry version := by
  induction entries with
  | nil => intro acc; simp
  | cons entry entries ih =>
      intro acc
      rw [List.foldl_cons, ih, each, List.filter_filter]
      apply List.filter_congr
      intro version _
      rw [List.all_cons, Bool.and_comm]

/-! ## Member sets -/

/-- The members of a key. An absent key has none. -/
def members (t : Table K (Finset α)) (key : K) : Finset α := (t.lookup key).getD ∅

@[simp] theorem members_empty (key : K) : members (∅ : Table K (Finset α)) key = ∅ := by
  simp [members]

variable {t : Table K (Finset α)}

theorem mem_members_iff {x : α} :
    x ∈ t.members key ↔ ∃ entry ∈ t.entries, entry.1 = key ∧ x ∈ entry.2 := by
  constructor
  · intro member
    cases found : t.lookup key with
    | none => simp [members, found] at member
    | some more =>
        refine ⟨⟨key, more⟩, AList.mem_lookup_iff.mp found, rfl, ?_⟩
        simpa [members, found] using member
  · rintro ⟨⟨other, more⟩, entry, rfl, member⟩
    have found : t.lookup other = some more := AList.mem_lookup_iff.mpr entry
    simpa [members, found] using member

/-- No entry of a key holds what is not a member of it. -/
theorem not_mem_members_iff (le : K → K → Bool) {x : α} :
    x ∉ t.members key ↔ ∀ entry ∈ t.sortedEntries le, key = entry.1 → x ∉ entry.2 := by
  rw [mem_members_iff]
  push Not
  apply forall_congr'
  intro entry
  rw [mem_sortedEntries, ← AList.mem_lookup_iff, Option.mem_def, eq_comm (a := key)]

variable [DecidableEq α]

/-- Add members to one key. -/
def extend (t : Table K (Finset α)) (key : K) (more : Finset α) : Table K (Finset α) :=
  t.insert key (t.members key ∪ more)

/-- Add every entry of another table. -/
def extendAll (t more : Table K (Finset α)) : Table K (Finset α) :=
  more.entries.foldl (fun acc entry => acc.extend entry.1 entry.2) t

theorem members_extend (t : Table K (Finset α)) (key other : K) (more : Finset α) :
    (t.extend key more).members other =
      t.members other ∪ if other = key then more else ∅ := by
  unfold extend
  by_cases same : other = key
  · subst same
    simp [members]
  · simp [members, same]

/-- Folding entries into a table adds, at each key, what the entries of that key hold. -/
theorem mem_members_foldl_extend (entries : List (Sigma fun _ : K => Finset α)) (key : K)
    (x : α) : ∀ t : Table K (Finset α),
    x ∈ (entries.foldl (fun acc entry => acc.extend entry.1 entry.2) t).members key ↔
      x ∈ t.members key ∨ ∃ entry ∈ entries, entry.1 = key ∧ x ∈ entry.2 := by
  induction entries with
  | nil => intro t; simp
  | cons entry entries ih =>
      intro t
      rw [List.foldl_cons, ih, members_extend]
      by_cases same : key = entry.1
      · subst same
        simp [or_assoc]
      · simp [same, Ne.symm same]

theorem members_extendAll (t more : Table K (Finset α)) (key : K) :
    (t.extendAll more).members key = t.members key ∪ more.members key := by
  ext x
  rw [extendAll, mem_members_foldl_extend, Finset.mem_union, mem_members_iff (t := more)]

end Table

/-! ## The last row under an identity -/

section LastWith

variable {α Id : Type*} [DecidableEq Id] {idOf : α → Id}

/-- The last row of a list that has an identity. -/
def lastWith (idOf : α → Id) (id : Id) (rows : List α) : Option α :=
  (rows.filter (idOf · = id)).getLast?

@[simp] theorem lastWith_nil (id : Id) : lastWith idOf id [] = none := rfl

theorem lastWith_concat (id : Id) (rows : List α) (row : α) :
    lastWith idOf id (rows ++ [row]) =
      if idOf row = id then some row else lastWith idOf id rows := by
  rw [lastWith, List.filter_append]
  by_cases same : idOf row = id
  · simp [same]
  · simp [same, lastWith]

variable {rows : List α} {id : Id}

theorem lastWith_some {row : α} (found : lastWith idOf id rows = some row) :
    row ∈ rows ∧ idOf row = id := by
  have member := List.mem_filter.mp (List.mem_of_getLast? found)
  exact ⟨member.1, of_decide_eq_true member.2⟩

theorem lastWith_eq_none : lastWith idOf id rows = none ↔ ∀ row ∈ rows, idOf row ≠ id := by
  rw [lastWith, List.getLast?_eq_none_iff, List.filter_eq_nil_iff]
  simp

theorem lastWith_append (id : Id) (rows more : List α) :
    lastWith idOf id (rows ++ more) = (lastWith idOf id more).or (lastWith idOf id rows) := by
  rw [lastWith, List.filter_append, List.getLast?_append, lastWith, lastWith]

theorem lastWith_cons (id : Id) (row : α) (rows : List α) : lastWith idOf id (row :: rows) =
    (lastWith idOf id rows).or (if idOf row = id then some row else none) :=
  (lastWith_append id [row] rows).trans (congrArg _ (lastWith_concat id [] row))

section Related

variable {β : Type*} {idOf' : β → Id} {R : α → β → Prop} {others : List β} {row : α} {other : β}
  (related : List.Forall₂ (fun row other => idOf row = idOf' other ∧ R row other) rows others)
include related

/-- Rows that are related one by one have related last rows. -/
theorem lastWith_rel (id : Id) :
    Option.Rel R (lastWith idOf id rows) (lastWith idOf' id others) := by
  induction related with
  | nil => exact .none
  | cons here _ ih =>
      rw [lastWith_cons, lastWith_cons, here.1]
      generalize lastWith idOf id _ = last at ih ⊢
      generalize lastWith idOf' id _ = last' at ih ⊢
      cases ih with
      | some later => exact .some later
      | none =>
          rw [Option.none_or, Option.none_or]
          split
          · exact .some here.2
          · exact .none

theorem exists_lastWith_left (found : lastWith idOf id rows = some row) :
    ∃ other, lastWith idOf' id others = some other ∧ R row other := by
  have last := lastWith_rel related id
  rw [found] at last
  generalize lastWith idOf' id others = other at last
  cases last with
  | some here => exact ⟨_, rfl, here⟩

theorem exists_lastWith_right (found : lastWith idOf' id others = some other) :
    ∃ row, lastWith idOf id rows = some row ∧ R row other := by
  have last := lastWith_rel related id
  rw [found] at last
  generalize lastWith idOf id rows = row at last
  cases last with
  | some here => exact ⟨_, rfl, here⟩

end Related

theorem lastWith_of_nodup (distinct : (rows.map idOf).Nodup) {row : α} (member : row ∈ rows) :
    lastWith idOf (idOf row) rows = some row := by
  cases found : lastWith idOf (idOf row) rows with
  | none => exact absurd rfl (lastWith_eq_none.mp found row member)
  | some other =>
      obtain ⟨inside, same⟩ := lastWith_some found
      exact congrArg some (List.inj_on_of_nodup_map distinct inside member same)

/-- With distinct identities, the last row of an identity is the first one. -/
theorem find?_eq_lastWith (distinct : (rows.map idOf).Nodup) (id : Id) :
    rows.find? (idOf · = id) = lastWith idOf id rows := by
  cases found : rows.find? (idOf · = id) with
  | none =>
      refine (lastWith_eq_none.mpr fun row inside => ?_).symm
      simpa using List.find?_eq_none.mp found row inside
  | some row =>
      have same : idOf row = id := by simpa using List.find?_some found
      rw [← same, lastWith_of_nodup distinct (List.mem_of_find?_eq_some found)]

/-- The table of some rows, each under its identity; a later row replaces an earlier one. -/
def Table.collect (idOf : α → Id) (rows : List α) : Table Id α :=
  rows.foldl (fun t row => t.insert (idOf row) row) ∅

theorem Table.collect_concat (rows : List α) (row : α) :
    Table.collect idOf (rows ++ [row]) = (Table.collect idOf rows).insert (idOf row) row := by
  rw [Table.collect, List.foldl_append]
  rfl

theorem Table.lookup_collect (rows : List α) (id : Id) :
    (Table.collect idOf rows).lookup id = lastWith idOf id rows := by
  induction rows using List.reverseRecOn with
  | nil => exact AList.lookup_empty id
  | append_singleton rows row ih =>
      rw [collect_concat, lookup_insert_eq, lastWith_concat, ih]
      by_cases same : id = idOf row
      · rw [if_pos same, if_pos same.symm]
      · rw [if_neg same, if_neg (Ne.symm same)]

end LastWith

end Library
