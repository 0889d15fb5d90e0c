import Exocortex.Library.Packing
import Exocortex.Library.Sums
import Exocortex.Library.Traversals

/-!
# The windows of the issue adapter

A run of the adapter for issues and pull requests fetches both, and sorts what it fetched into
windows. A pull stays with the issues that it closes; such a group, and each other issue by itself,
goes by its newest row. After each window the run saves a cursor, the newest time in the window,
held back where a walk of the run was cut short.

Times are texts that compare as such. The mapping of rows to drafts and the walks themselves are
left out.
-/

namespace Exocortex

open Library

/-! ## Rows -/

structure GhIssue where
  number : ℕ
  title : String
  body : String
  url : String
  updatedAt : String
  closedAt : String
  state : String
  author : String
  labels : List String
  repo : Option String
deriving DecidableEq

structure GhPull where
  number : ℕ
  title : String
  body : String
  url : String
  createdAt : String
  updatedAt : String
  closedAt : String
  state : String
  author : String
  headBranch : String
  baseBranch : String
  closing : List GhIssue
deriving DecidableEq

/-- The number of an issue, and its repository where that is another one. -/
def GhIssue.identity (issue : GhIssue) : Option String × ℕ := (issue.repo, issue.number)

/-- The identities that ride with a pull. -/
def carried (pulls : List GhPull) : List (Option String × ℕ) :=
  pulls.flatMap fun pull => pull.closing.map GhIssue.identity

/-- A pull closes an issue. -/
def closes (identity : Option String × ℕ) (pull : GhPull) : Bool :=
  decide (identity ∈ pull.closing.map GhIssue.identity)

/-- The issue rows and the pull rows of a window. -/
abbrev Window := List GhIssue × List GhPull

/-! ## Windows -/

/-- Rows that go into one window. -/
structure Group where
  sortKey : String
  issues : List GhIssue
  pull : Option GhPull
  cost : ℕ
deriving DecidableEq

def issueGroup (issue : GhIssue) : Group := ⟨issue.updatedAt, [issue], none, 1⟩

/-- The times of a pull and of the issues that it closes. -/
def GhPull.times (pull : GhPull) : List String :=
  pull.closing.map GhIssue.updatedAt ++ [pull.updatedAt]

def groupOfPull (pull : GhPull) : Group where
  sortKey := pull.times.max?.getD ""
  issues := pull.closing.insertionSort fun x y => x.updatedAt ≤ y.updatedAt
  pull := some pull
  cost := 1 + pull.closing.length

def pullGroup (maxWindow : ℕ) (pull : GhPull) : Except String Group :=
  let group := groupOfPull pull
  if maxWindow < group.cost then
    .error ("a pull request carries " ++ toString pull.closing.length ++
      " closing references, exceeding the window bound " ++ toString maxWindow ++
      "; raise --max-window above " ++ toString group.cost)
  else .ok group

/-- A group has a row of an issue. -/
def Group.has (identity : Option String × ℕ) (group : Group) : Bool :=
  decide (identity ∈ group.issues.map GhIssue.identity)

/-- The windows so far, the window that is being filled, and the issues that it has seen. -/
structure Chunks where
  out : List Window
  rows : ℕ
  issues : List GhIssue
  pulls : List GhPull
  seen : List (Option String × ℕ)

namespace Chunks

def addIssue (chunks : Chunks) (issue : GhIssue) : Chunks :=
  if issue.identity ∈ chunks.seen then chunks
  else { chunks with
    issues := chunks.issues ++ [issue]
    seen := chunks.seen ++ [issue.identity] }

def addGroup (maxWindow : ℕ) (chunks : Chunks) (group : Group) : Chunks :=
  let chunks :=
    if maxWindow < chunks.rows + group.cost ∧ ¬ (chunks.issues = [] ∧ chunks.pulls = []) then
      ⟨chunks.out ++ [(chunks.issues, chunks.pulls)], 0, [], [], []⟩
    else chunks
  let chunks := group.issues.foldl addIssue chunks
  { chunks with
    pulls := chunks.pulls ++ group.pull.toList
    rows := chunks.rows + group.cost }

def windows (chunks : Chunks) : List Window :=
  if chunks.issues ≠ [] ∨ chunks.pulls ≠ [] then chunks.out ++ [(chunks.issues, chunks.pulls)]
  else chunks.out

end Chunks

/-- The groups, oldest first. -/
def sortGroups (issues : List GhIssue) (groups : List Group) (pulls : List GhPull) : List Group :=
  (((issues.filter (·.identity ∉ carried pulls)).map issueGroup) ++ groups).insertionSort
    fun x y => x.sortKey ≤ y.sortKey

def chunkWindows (issues : List GhIssue) (pulls : List GhPull) (maxWindow : ℕ) :
    Except String (List Window) := do
  let groups ← pulls.mapM (pullGroup maxWindow)
  return ((sortGroups issues groups pulls).foldl (Chunks.addGroup maxWindow)
    ⟨[], 0, [], [], []⟩).windows

/-! ## The cursor -/

/-- The newest time in a window. -/
def cursorFor (window : Window) : Option String :=
  (window.1.map GhIssue.updatedAt ++ window.2.map GhPull.updatedAt).max?

/-- The highest cursor that a run may save; the empty text holds it back altogether. -/
def safeCursorCeiling (issuesTruncated : Bool) (issuesFrontier : Option String)
    (pullsTruncated : Bool) (resume : Option String) : Option String :=
  let ceiling := if issuesTruncated then some (issuesFrontier.getD "") else none
  if pullsTruncated then
    let hold := resume.getD ""
    match ceiling with
    | some existing => if existing.isEmpty then some hold else some (min existing hold)
    | none => some hold
  else ceiling

def effectiveCursor (ceiling : Option String) (cursor : String) : String :=
  match ceiling with
  | some highest => if highest.isEmpty then "" else min highest cursor
  | none => cursor

/-- The cursor that is saved after a window, if one is. -/
def savedCursor (ceiling : Option String) (window : Window) : Option String := do
  let cursor ← cursorFor window
  let effective := effectiveCursor ceiling cursor
  if effective.isEmpty then none else some effective

/-! ## Windows as segments -/

/-- The window of some groups. -/
def assemble (groups : List Group) : Window :=
  ((groups.flatMap Group.issues).foldl (keepFirst GhIssue.identity) [], groups.flatMap
    (·.pull.toList))

/-- A group with more rows would not fit the window. -/
def fullWindow (maxWindow : ℕ) (_ : ℕ) (groups : List Group) (group : Group) : Bool :=
  maxWindow < (groups.map Group.cost).sum + group.cost

/-- Some row of the group is there. -/
def Group.Solid (group : Group) : Prop := group.issues ≠ [] ∨ group.pull.isSome

/-- The state of the loop, by the windows that are closed and the groups of the current one. -/
def Chunks.filled (closed : List Window) (current : List Group) : Chunks where
  out := closed
  rows := (current.map Group.cost).sum
  issues := (assemble current).1
  pulls := (assemble current).2
  seen := (assemble current).1.map GhIssue.identity

theorem foldl_addIssue (issues : List GhIssue) (chunks : Chunks)
    (seen : chunks.seen = chunks.issues.map GhIssue.identity) :
    issues.foldl Chunks.addIssue chunks =
      { chunks with
        issues := issues.foldl (keepFirst GhIssue.identity) chunks.issues
        seen :=
          (issues.foldl (keepFirst GhIssue.identity) chunks.issues).map GhIssue.identity } := by
  induction issues generalizing chunks with
  | nil =>
      rw [List.foldl_nil, List.foldl_nil, ← seen]
  | cons issue issues ih =>
      rw [List.foldl_cons, List.foldl_cons, ih]
      · rw [Chunks.addIssue, keepFirst, seen]
        split <;> rfl
      · rw [Chunks.addIssue]
        split
        · exact seen
        · rw [List.map_append, seen]
          rfl

theorem assemble_eq_nil_iff {groups : List Group} (solid : ∀ group ∈ groups, group.Solid) :
    (assemble groups).1 = [] ∧ (assemble groups).2 = [] ↔ groups = [] := by
  constructor
  · rintro ⟨noIssues, noPulls⟩
    by_contra some
    obtain ⟨group, member⟩ := List.exists_mem_of_ne_nil _ some
    rcases solid group member with issues | pull
    · obtain ⟨issue, listed⟩ := List.exists_mem_of_ne_nil _ issues
      obtain ⟨same, kept, -⟩ : ∃ same ∈ (assemble groups).1, same.identity = issue.identity :=
        name_foldl_keepFirst (.inr (List.mem_flatMap.mpr ⟨group, member, listed⟩))
      rw [noIssues] at kept
      cases kept
    · obtain ⟨pull, here⟩ := Option.isSome_iff_exists.mp pull
      have listed : pull ∈ (assemble groups).2 :=
        List.mem_flatMap.mpr ⟨group, member, Option.mem_toList.mpr here⟩
      rw [noPulls] at listed
      cases listed
  · rintro rfl
    exact ⟨rfl, rfl⟩

theorem assemble_concat (groups : List Group) (group : Group) :
    assemble (groups ++ [group]) =
      (group.issues.foldl (keepFirst GhIssue.identity) (assemble groups).1,
        (assemble groups).2 ++ group.pull.toList) := by
  simp [assemble]

variable {maxWindow : ℕ}

theorem addGroup_filled {closed : List Window} {current : List Group} {group : Group}
    (solid : ∀ group ∈ current, group.Solid) :
    (Chunks.filled closed current).addGroup maxWindow group =
      if !current.isEmpty && fullWindow maxWindow closed.length current group then
        Chunks.filled (closed ++ [assemble current]) [group]
      else Chunks.filled closed (current ++ [group]) := by
  have closes : (maxWindow < (Chunks.filled closed current).rows + group.cost ∧
      ¬ ((Chunks.filled closed current).issues = [] ∧
        (Chunks.filled closed current).pulls = [])) ↔
      (!current.isEmpty && fullWindow maxWindow closed.length current group) = true := by
    rw [Chunks.filled, assemble_eq_nil_iff solid, fullWindow]
    simp [and_comm]
  rw [Chunks.addGroup]
  by_cases full : (!current.isEmpty && fullWindow maxWindow closed.length current group) = true
  · rw [if_pos full, if_pos (closes.mpr full), foldl_addIssue _ _ rfl]
    simp [Chunks.filled, assemble]
  · rw [if_neg full, if_neg (closes.not.mpr full), foldl_addIssue _ _ rfl]
    simp [Chunks.filled, assemble_concat]

/-- **The windows are the segments** of the sorted groups. -/
theorem windows_foldl_addGroup {closed : List Window} {current groups : List Group}
    (solid : ∀ group ∈ current ++ groups, group.Solid) :
    (groups.foldl (Chunks.addGroup maxWindow) (Chunks.filled closed current)).windows =
      closed ++ (segments (fullWindow maxWindow) closed.length current groups).map assemble := by
  induction groups generalizing closed current with
  | nil =>
      have empty := @assemble_eq_nil_iff current (by simpa using solid)
      cases current with
      | nil => simp [Chunks.windows, Chunks.filled, segments, assemble]
      | cons first current =>
          have some : (assemble (first :: current)).1 ≠ [] ∨ (assemble (first :: current)).2 ≠ [] :=
            not_and_or.mp (empty.not.mpr (List.cons_ne_nil _ _))
          rw [List.foldl_nil, Chunks.windows, Chunks.filled, if_pos some, segments]
          rfl
  | cons group groups ih =>
      have before : ∀ group ∈ current, group.Solid := fun group member =>
        solid group (List.mem_append_left _ member)
      rw [List.foldl_cons, addGroup_filled before, segments]
      split
      · rw [ih, List.length_append, List.length_singleton, List.map_cons, List.append_assoc,
          List.singleton_append]
        exact fun other member => solid other (List.mem_append_right _ member)
      · exact ih (by simpa using solid)

theorem pullGroup_ok_iff {pull : GhPull} {group : Group} :
    pullGroup maxWindow pull = .ok group ↔
      (groupOfPull pull).cost ≤ maxWindow ∧ group = groupOfPull pull := by
  rw [pullGroup]
  split
  · next above => exact iff_of_false nofun fun fits => absurd fits.1 (Nat.not_le.mpr above)
  · next fits =>
      rw [Except.ok.injEq]
      exact ⟨fun same => ⟨Nat.le_of_not_lt fits, same.symm⟩, fun both => both.2.symm⟩

/-- The groups of a fetch, oldest first. -/
def fetchedGroups (issues : List GhIssue) (pulls : List GhPull) : List Group :=
  sortGroups issues (pulls.map groupOfPull) pulls

variable {issues : List GhIssue} {pulls : List GhPull}

theorem solid_fetchedGroups : ∀ group ∈ fetchedGroups issues pulls, group.Solid := by
  intro group member
  rcases List.mem_append.mp ((List.mem_insertionSort _).mp member) with issue | pull
  · obtain ⟨issue, -, rfl⟩ := List.mem_map.mp issue
    exact .inl (List.cons_ne_nil _ _)
  · obtain ⟨pull, -, rfl⟩ := List.mem_map.mp pull
    exact .inr rfl

theorem chunkWindows_ok_iff {windows : List Window} :
    chunkWindows issues pulls maxWindow = .ok windows ↔
      (∀ pull ∈ pulls, (groupOfPull pull).cost ≤ maxWindow) ∧
        windows = (segments (fullWindow maxWindow) 0 [] (fetchedGroups issues pulls)).map
          assemble := by
  have start : (⟨[], 0, [], [], []⟩ : Chunks) = Chunks.filled [] [] := rfl
  have packed := @windows_foldl_addGroup maxWindow [] [] (fetchedGroups issues pulls)
    (by simpa using solid_fetchedGroups)
  have groups : ∀ list, pulls.mapM (pullGroup maxWindow) = .ok list ↔
      (∀ pull ∈ pulls, (groupOfPull pull).cost ≤ maxWindow) ∧ list = pulls.map groupOfPull := by
    intro list
    constructor
    · intro ok
      refine ⟨fun pull member => ?_, mapM_ok_eq_map ok fun pull _ group built =>
        (pullGroup_ok_iff.mp built).2⟩
      obtain ⟨group, -, built⟩ := mapM_ok_mem ok member
      exact (pullGroup_ok_iff.mp built).1
    · rintro ⟨fits, rfl⟩
      exact mapM_eq_ok_map fun pull member => pullGroup_ok_iff.mpr ⟨fits pull member, rfl⟩
  rw [chunkWindows, bind_eq_ok_iff]
  constructor
  · rintro ⟨list, built, same⟩
    obtain ⟨fits, rfl⟩ := (groups list).mp built
    exact ⟨fits, (Except.ok.inj same).symm.trans packed⟩
  · rintro ⟨fits, rfl⟩
    exact ⟨_, (groups _).mpr ⟨fits, rfl⟩, congrArg Except.ok packed⟩

end Exocortex
