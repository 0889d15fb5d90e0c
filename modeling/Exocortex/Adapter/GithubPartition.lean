import Exocortex.Adapter.GithubCursor
import Exocortex.Adapter.RowKeys

/-!
# The rows of a window

A window of the adapter for issues and pulls is mapped to drafts: one for every issue and every
pull, and an edge from a pull to each issue that it closes. Issues of other repositories are told
apart from those of the adapter's own, whose references are made alike before.

The windows of a fetch are a partition of its pulls, each with the issues that it closes, no draft
has the key of another in its window, no edge has an end outside of it, and no window is above the
bound. Whether the newest version of an issue is among the rows depends on the fetch: of the
versions that come into one window the first is kept, and the groups come oldest first. And a pull
with two versions of an issue may send the cursors back (`githubWindows_iff`).
-/

namespace Exocortex

open Library

/-! ## Drafts of issues and pulls -/

/-- The repository of the adapter, and what is computed for it elsewhere. -/
structure GithubRepository where
  owner : String
  repo : String
  tableUuid : List UInt8
  schemaHash : List UInt8
  rfc3339ToTimestamp : String → Option WireTimestamp
  visibility : ℤ

def eqIgnoreAsciiCase (left right : List Char) : Bool :=
  left.map Char.toLower = right.map Char.toLower

/-- The classes of issues that are problems. -/
def bugVocabulary : List String := ["bug", "defect", "incident", "regression"]

def issueMemoryTypeFor (labels : List String) : String :=
  if labels.any fun label => bugVocabulary.any fun word =>
    decide (word.toList <:+: label.toList.map Char.toLower) then "Problem"
  else "Task"

def pullMemoryTypeFor (pull : GhPull) : String :=
  let title := (trimText pull.title).toList.map Char.toLower
  if "fix:".toList <+: title ∨ "fix(".toList <+: title then "Fix"
  else if pull.closing ≠ [] then "Solution"
  else "Command"

def bound4000 (text : String) : String :=
  if text.toList.length ≤ 4000 then text
  else String.ofList (text.toList.take 4000) ++ "\n\n[body bounded at 4000 chars by the adapter]"

/-- A body between line ends, and nothing for a blank one. -/
def bodyParagraph (body : String) : String :=
  if (trimText body).isEmpty then "" else "\n" ++ bound4000 body ++ "\n"

def authorText (author : String) : String := if author.isEmpty then "unknown" else author

def issueContent (label : String) (issue : GhIssue) : String :=
  label ++ "#" ++ toString issue.number ++ ": " ++ issue.title ++ "\n\nState: " ++ issue.state ++
    "\nAuthor: " ++ authorText issue.author ++ "\nUpdated: " ++ issue.updatedAt ++ "\nURL: " ++
    issue.url ++ "\n" ++
    (if issue.labels ≠ [] then "Labels: " ++ ", ".intercalate issue.labels ++ "\n" else "") ++
    bodyParagraph issue.body

def pullContent (pull : GhPull) : String :=
  "PR #" ++ toString pull.number ++ ": " ++ pull.title ++ "\n\nState: " ++ pull.state ++
    "\nAuthor: " ++ authorText pull.author ++ "\nBranches: " ++ pull.headBranch ++ " -> " ++
    pull.baseBranch ++ "\nUpdated: " ++ pull.updatedAt ++ "\nURL: " ++ pull.url ++ "\n" ++
    (if pull.closing ≠ [] then "Closes: " ++
      ", ".intercalate (pull.closing.map fun issue => "#" ++ toString issue.number) ++ "\n"
    else "") ++ bodyParagraph pull.body

def pullKey (pull : GhPull) : String := "pull-" ++ toString pull.number

namespace GithubRepository

variable (target : GithubRepository)

def sameRepo (nameWithOwner : String) : Bool :=
  let name := nameWithOwner.toList
  decide ('/' ∈ name) && eqIgnoreAsciiCase (name.takeWhile (· ≠ '/')) target.owner.toList &&
    eqIgnoreAsciiCase ((name.dropWhile (· ≠ '/')).drop 1) target.repo.toList

/-- The draft key and the logical key of an issue. -/
def issueIdentity (issue : GhIssue) : String × String :=
  match issue.repo with
  | some foreign =>
      if target.sameRepo foreign then
        ("issue-" ++ toString issue.number, "issue:" ++ toString issue.number)
      else
        ("issue-" ++ foreign ++ "-" ++ toString issue.number,
          "issue:" ++ foreign ++ "#" ++ toString issue.number)
  | none => ("issue-" ++ toString issue.number, "issue:" ++ toString issue.number)

def normalizeClosingRepo (issue : GhIssue) : GhIssue :=
  if issue.repo.any target.sameRepo then { issue with repo := none } else issue

def normalizeClosingRepos (pulls : List GhPull) : List GhPull :=
  pulls.map fun pull => { pull with closing := pull.closing.map target.normalizeClosingRepo }

def issueMemory (issue : GhIssue) : WireMemory where
  draftKey := (target.issueIdentity issue).1
  memoryType := issueMemoryTypeFor issue.labels
  title := truncate200 issue.title
  content := issueContent "Issue" issue
  tags := ["github", "issue"]
  visibility := target.visibility
  validFrom := none
  validUntil := none
  externalKey := some ⟨target.tableUuid, (target.issueIdentity issue).2, 1⟩
  rights := none

def pullMemory (pull : GhPull) : WireMemory where
  draftKey := pullKey pull
  memoryType := pullMemoryTypeFor pull
  title := truncate200 pull.title
  content := pullContent pull
  tags := ["github", "pull-request"]
  visibility := target.visibility
  validFrom := target.rfc3339ToTimestamp pull.createdAt
  validUntil :=
    if pull.state = "closed" ∧ ¬ pull.closedAt.isEmpty then
      target.rfc3339ToTimestamp pull.closedAt
    else none
  externalKey := some ⟨target.tableUuid, "pull:" ++ toString pull.number, 1⟩
  rights := none

def closingEdge (pull : GhPull) (issue : GhIssue) : WireRel where
  fromDraftKey := pullKey pull
  toDraftKey := (target.issueIdentity issue).1
  kind :=
    match pullMemoryTypeFor pull, issueMemoryTypeFor issue.labels with
    | "Fix", "Problem" => "Fixes"
    | "Solution", "Problem" => "Solves"
    | _, _ => "RelatedTo"
  strength := ⟨0#32⟩
  confidence := ⟨0x3f666666#32⟩
  context := "github closingIssuesReferences (" ++ target.owner ++ "/" ++ target.repo ++ ")"
  visibility := target.visibility
  toMemoryId := ""

def mapWindow (window : Window) : BatchUnit where
  memories := window.1.map target.issueMemory ++ window.2.map target.pullMemory
  relationships := window.2.flatMap fun pull => pull.closing.map (target.closingEdge pull)
  snapshot := some ⟨(cursorFor window).getD "empty", target.schemaHash, "github"⟩

end GithubRepository

/-! ## Fetches -/

/-- What a run fetches: its issues are the repository's own, and its pulls have distinct
numbers. -/
structure GithubFetch where
  issues : List GhIssue
  home : ∀ issue ∈ issues, issue.repo = none
  pulls : List GhPull
  distinct : (pulls.map GhPull.number).Nodup

/-- The versions of issues that are fetched, by themselves or with a pull. -/
def versions (issues : List GhIssue) (pulls : List GhPull) : List GhIssue :=
  issues ++ pulls.flatMap GhPull.closing

/-- Of every issue some window has a version that none is newer than. -/
def NewestKept (issues : List GhIssue) (pulls : List GhPull) (windows : List Window) : Prop :=
  ∀ version ∈ versions issues pulls, ∃ window ∈ windows, ∃ row ∈ window.1,
    row.identity = version.identity ∧ version.updatedAt ≤ row.updatedAt

/-- The cursors of the windows never decrease. -/
def CursorsGrow (windows : List Window) : Prop :=
  windows.Pairwise fun earlier later => ∀ cursor ∈ cursorFor earlier, ∀ next ∈ cursorFor later,
    cursor ≤ next

/-- The windows of some pulls: every pull is in one of them and in no other, with a row for each
issue that it closes; a window has no more rows than the bound and no draft key twice; and its
edges go between its rows. -/
structure Partitions (target : GithubRepository) (pulls : List GhPull) (maxWindow : ℕ)
    (windows : List Window) : Prop where
  once : ∀ pull ∈ pulls, ∃ before window after, windows = before ++ window :: after ∧
    pull ∈ window.2 ∧ (∀ other ∈ before ++ after, pull ∉ other.2) ∧
      ∀ issue ∈ pull.closing, ∃ row ∈ window.1, row.identity = issue.identity
  rows : ∀ window ∈ windows, (target.mapWindow window).memories.length ≤ maxWindow
  keys : ∀ window ∈ windows, ((target.mapWindow window).memories.map WireMemory.draftKey).Nodup
  ends : ∀ window ∈ windows, ∀ edge ∈ (target.mapWindow window).relationships,
    ∀ key ∈ [edge.fromDraftKey, edge.toDraftKey],
      key ∈ (target.mapWindow window).memories.map WireMemory.draftKey

/-! ## Draft keys -/

theorem dash_not_mem_digits (number : ℕ) : '-' ∉ (toString number).toList := by
  intro dash
  rw [Nat.toString_eq_repr, Nat.toList_repr] at dash
  exact absurd (Nat.isDigit_of_mem_toDigits (by decide) (by decide) dash) (by decide)

theorem toString_inj {number other : ℕ} (same : toString number = toString other) :
    number = other :=
  Nat.repr_injective same

/-- A text without a dash behind a dash is known from the whole. -/
theorem last_dash {front front' digits digits' : List Char} (plain : '-' ∉ digits)
    (plain' : '-' ∉ digits') (same : front ++ '-' :: digits = front' ++ '-' :: digits') :
    front = front' ∧ digits = digits' := by
  rcases List.append_eq_append_iff.mp same with ⟨more, rfl, rest⟩ | ⟨more, rfl, rest⟩
  · cases more with
    | nil => exact ⟨(List.append_nil _).symm, (List.cons.inj rest).2⟩
    | cons c more =>
        refine absurd ?_ plain
        rw [(List.cons.inj rest).2]
        exact List.mem_append_right _ List.mem_cons_self
  · cases more with
    | nil => exact ⟨List.append_nil _, (List.cons.inj rest).2.symm⟩
    | cons c more =>
        refine absurd ?_ plain'
        rw [(List.cons.inj rest).2]
        exact List.mem_append_right _ List.mem_cons_self

namespace GithubRepository

variable (target : GithubRepository)

theorem issueIdentity_congr {x y : GhIssue} (same : x.identity = y.identity) :
    target.issueIdentity x = target.issueIdentity y := by
  obtain ⟨repo, number⟩ := Prod.mk.inj same
  rw [issueIdentity, issueIdentity, repo, number]

/-- Issues that are told apart have different drafts. -/
theorem issueIdentity_inj {x y : GhIssue} (told : x.repo.any target.sameRepo = false)
    (told' : y.repo.any target.sameRepo = false)
    (same : (target.issueIdentity x).1 = (target.issueIdentity y).1) : x.identity = y.identity := by
  have letters := congrArg String.toList same
  rw [issueIdentity, issueIdentity] at letters
  rw [GhIssue.identity, GhIssue.identity]
  cases here : x.repo with
  | none =>
      cases there : y.repo with
      | none =>
          rw [here, there] at letters
          simp only [String.toList_append, List.append_cancel_left_eq, String.toList_inj] at letters
          rw [toString_inj letters]
      | some other =>
          rw [there, Option.any_some] at told'
          rw [here, there] at letters
          simp only [told', Bool.false_eq_true, if_false, String.toList_append, List.append_assoc,
            List.append_cancel_left_eq] at letters
          refine absurd ?_ (dash_not_mem_digits x.number)
          rw [letters]
          simp
  | some foreign =>
      rw [here, Option.any_some] at told
      cases there : y.repo with
      | none =>
          rw [here, there] at letters
          simp only [told, Bool.false_eq_true, if_false, String.toList_append, List.append_assoc,
            List.append_cancel_left_eq] at letters
          refine absurd ?_ (dash_not_mem_digits y.number)
          rw [← letters]
          simp
      | some other =>
          rw [there, Option.any_some] at told'
          rw [here, there] at letters
          simp only [told, told', Bool.false_eq_true, if_false, String.toList_append,
            List.append_assoc, List.append_cancel_left_eq] at letters
          obtain ⟨repo, number⟩ := last_dash (dash_not_mem_digits x.number)
            (dash_not_mem_digits y.number) letters
          rw [String.toList_inj] at repo number
          rw [repo, toString_inj number]

/-- Drafts of issues and of pulls are told apart by the first letter of their keys. -/
theorem issueIdentity_ne_pullKey (issue : GhIssue) (pull : GhPull) :
    (target.issueIdentity issue).1 ≠ pullKey pull := by
  intro same
  have first : (target.issueIdentity issue).1.toList.head? = some 'i' := by
    rw [issueIdentity]
    split
    · split <;> simp
    · simp
  rw [same, pullKey] at first
  simp at first

theorem any_normalizeClosingRepo (issue : GhIssue) :
    (target.normalizeClosingRepo issue).repo.any target.sameRepo = false := by
  rw [normalizeClosingRepo]
  split
  · rfl
  · next apart => exact Bool.eq_false_iff.mpr apart

end GithubRepository

/-! ## Rows of windows -/

variable {windows : List Window} {groups : List Group} {row : GhIssue} {group : Group}
  {pull : GhPull} {maxWindow : ℕ}

section Windows

variable {issues : List GhIssue} {pulls : List GhPull}

/-- Every pull is in one group. -/
theorem pulls_fetchedGroups :
    ((fetchedGroups issues pulls).flatMap (·.pull.toList)).Perm pulls := by
  have sorted : (fetchedGroups issues pulls).Perm _ := List.perm_insertionSort _ _
  refine (sorted.flatMap_right _).trans (List.Perm.of_eq ?_)
  simp [List.flatMap_append, List.flatMap_map, issueGroup, groupOfPull, List.flatMap_singleton']

/-- A row of a window is a version that was fetched. -/
theorem mem_versions (fetched : groups ⊆ fetchedGroups issues pulls)
    (kept : row ∈ (assemble groups).1) : row ∈ versions issues pulls := by
  obtain ⟨group, here, within⟩ := List.mem_flatMap.mp
    ((mem_foldl_keepFirst kept).resolve_left List.not_mem_nil)
  rcases mem_fetchedGroups.mp (fetched here) with ⟨issue, listed, -, rfl⟩ | ⟨pull, listed, rfl⟩
  · rw [List.mem_singleton.mp within]
    exact List.mem_append_left _ listed
  · exact List.mem_append_right _
      (List.mem_flatMap.mpr ⟨pull, listed, (List.mem_insertionSort _).mp within⟩)

/-- A pull comes with a row for each issue that it closes. -/
theorem exists_row (here : groupOfPull pull ∈ groups) {issue : GhIssue}
    (closed : issue ∈ pull.closing) : ∃ row ∈ (assemble groups).1, row.identity = issue.identity :=
  name_foldl_keepFirst (.inr (List.mem_flatMap.mpr
    ⟨_, here, (List.mem_insertionSort _).mpr closed⟩))

theorem cost_eq (member : group ∈ fetchedGroups issues pulls) :
    group.cost = group.issues.length + group.pull.toList.length := by
  rcases mem_fetchedGroups.mp member with ⟨issue, -, -, rfl⟩ | ⟨pull, -, rfl⟩
  · rfl
  · rw [groupOfPull, List.length_insertionSort, Nat.add_comm]
    rfl

theorem length_assemble_le (fetched : groups ⊆ fetchedGroups issues pulls) :
    (assemble groups).1.length + (assemble groups).2.length ≤ (groups.map Group.cost).sum := by
  have costs : groups.map Group.cost =
      groups.map fun group => group.issues.length + group.pull.toList.length :=
    List.map_congr_left fun group member => cost_eq (fetched member)
  have kept := @length_foldl_keepFirst _ _ _ GhIssue.identity (groups.flatMap Group.issues) []
  rw [costs, List.sum_map_add]
  rw [List.length_flatMap, List.length_nil, Nat.zero_add] at kept
  rw [assemble, List.length_flatMap]
  exact Nat.add_le_add_right kept _

theorem segment_cost_le (some : 0 < maxWindow)
    (fits : ∀ pull ∈ pulls, (groupOfPull pull).cost ≤ maxWindow) :
    ∀ segment ∈ segments (fullWindow maxWindow) 0 [] (fetchedGroups issues pulls),
      (segment.map Group.cost).sum ≤ maxWindow := by
  refine segments_induction (.inl rfl) ?_ ?_
  · intro group member
    rw [List.map_singleton, List.sum_singleton]
    rcases mem_fetchedGroups.mp member with ⟨issue, -, -, rfl⟩ | ⟨pull, listed, rfl⟩
    · exact some
    · exact fits pull listed
  · intro closed segment group _ _ _ room
    rw [List.map_append, List.sum_append, List.map_singleton, List.sum_singleton]
    exact Nat.le_of_not_lt (of_decide_eq_false room)

theorem segment_subset {segment : List Group}
    (member : segment ∈ segments (fullWindow maxWindow) 0 [] (fetchedGroups issues pulls)) :
    segment ⊆ fetchedGroups issues pulls := by
  intro group here
  have whole := @flatten_segments _ (fullWindow maxWindow) 0 [] (fetchedGroups issues pulls)
  rw [List.nil_append] at whole
  rw [← whole]
  exact List.mem_flatten.mpr ⟨segment, member, here⟩

/-- A window is the rows of a segment of the groups. -/
theorem exists_segment {window : Window}
    (chunked : chunkWindows issues pulls maxWindow = .ok windows) (member : window ∈ windows) :
    ∃ segment ∈ segments (fullWindow maxWindow) 0 [] (fetchedGroups issues pulls),
      segment ⊆ fetchedGroups issues pulls ∧ assemble segment = window := by
  obtain ⟨-, rfl⟩ := chunkWindows_ok_iff.mp chunked
  obtain ⟨segment, listed, rfl⟩ := List.mem_map.mp member
  exact ⟨segment, listed, segment_subset listed, rfl⟩

/-- The windows have every pull once. -/
theorem pulls_windows (chunked : chunkWindows issues pulls maxWindow = .ok windows) :
    (windows.flatMap Prod.snd).Perm pulls := by
  obtain ⟨-, rfl⟩ := chunkWindows_ok_iff.mp chunked
  have whole := @flatten_segments _ (fullWindow maxWindow) 0 [] (fetchedGroups issues pulls)
  rw [List.nil_append] at whole
  generalize segments (fullWindow maxWindow) 0 [] (fetchedGroups issues pulls) = parts at whole ⊢
  refine List.Perm.trans (List.Perm.of_eq ?_) (@pulls_fetchedGroups issues pulls)
  rw [← whole, List.flatMap_map, List.flatten_eq_flatMap, List.flatMap_assoc]
  rfl

end Windows

/-! ## The partition -/

namespace GithubFetch

variable (fetch : GithubFetch) (target : GithubRepository)

/-- The pulls with references that are told apart. -/
def closed : List GhPull := target.normalizeClosingRepos fetch.pulls

theorem distinct_closed : ((fetch.closed target).map GhPull.number).Nodup := by
  rw [closed, GithubRepository.normalizeClosingRepos, List.map_map]
  exact fetch.distinct

theorem told_versions (member : row ∈ versions fetch.issues (fetch.closed target)) :
    row.repo.any target.sameRepo = false := by
  rcases List.mem_append.mp member with own | closing
  · rw [fetch.home row own]
    rfl
  · obtain ⟨pull, listed, closes⟩ := List.mem_flatMap.mp closing
    obtain ⟨before, -, rfl⟩ := List.mem_map.mp listed
    obtain ⟨issue, -, rfl⟩ := List.mem_map.mp closes
    exact target.any_normalizeClosingRepo issue

/-- **The windows of a fetch are a partition of its pulls**, within the bound. -/
theorem partitions (some : 0 < maxWindow)
    (chunked : chunkWindows fetch.issues (fetch.closed target) maxWindow = .ok windows) :
    Partitions target (fetch.closed target) maxWindow windows := by
  have once := pulls_windows chunked
  have distinct : (windows.flatMap Prod.snd).Nodup :=
    once.nodup_iff.mpr (List.Nodup.of_map _ (fetch.distinct_closed target))
  refine ⟨fun pull listed => ?_, fun window member => ?_, fun window member => ?_,
    fun window member => ?_⟩
  · obtain ⟨window, member, within⟩ := List.mem_flatMap.mp (once.mem_iff.mpr listed)
    obtain ⟨segment, -, fetched, rfl⟩ := exists_segment chunked member
    obtain ⟨before, after, rfl⟩ := List.append_of_mem member
    refine ⟨before, assemble segment, after, rfl, within, fun other elsewhere inside => ?_,
      fun issue closes => exists_row (mem_assemble_pull fetched within) closes⟩
    rw [List.flatMap_append, List.flatMap_cons] at distinct
    obtain ⟨-, rest, front⟩ := List.nodup_append.mp distinct
    rcases List.mem_append.mp elsewhere with early | late
    · exact front pull (List.mem_flatMap.mpr ⟨other, early, inside⟩) pull
        (List.mem_append_left _ within) rfl
    · exact (List.nodup_append.mp rest).2.2 pull within pull
        (List.mem_flatMap.mpr ⟨other, late, inside⟩) rfl
  · obtain ⟨segment, listed, fetched, rfl⟩ := exists_segment chunked member
    have cost := segment_cost_le some (chunkWindows_ok_iff.mp chunked).1 segment listed
    rw [GithubRepository.mapWindow, List.length_append, List.length_map, List.length_map]
    exact le_trans (length_assemble_le fetched) cost
  · obtain ⟨segment, listed, fetched, rfl⟩ := exists_segment chunked member
    rw [GithubRepository.mapWindow, List.map_append, List.map_map, List.map_map]
    refine List.nodup_append.mpr ⟨?_, ?_, ?_⟩
    · have apart : ((assemble segment).1.map GhIssue.identity).Nodup :=
        nodup_foldl_keepFirst List.nodup_nil
      refine List.Nodup.map_on (fun x kept y kept' same => ?_) apart.of_map
      exact List.inj_on_of_nodup_map apart kept kept' (target.issueIdentity_inj
        (fetch.told_versions target (mem_versions fetched kept))
        (fetch.told_versions target (mem_versions fetched kept')) same)
    · have numbers : ((assemble segment).2.map GhPull.number).Nodup := by
        refine List.Nodup.sublist ?_ ((once.map GhPull.number).nodup_iff.mpr
          (fetch.distinct_closed target))
        exact (List.sublist_flatten_of_mem (List.mem_map_of_mem member)).map _
      refine List.Nodup.map_on (fun x kept y kept' same => ?_) numbers.of_map
      refine List.inj_on_of_nodup_map numbers kept kept' (toString_inj ?_)
      exact (String.append_right_inj _).mp same
    · intro key issues key' pulls
      obtain ⟨issue, -, rfl⟩ := List.mem_map.mp issues
      obtain ⟨pull, -, rfl⟩ := List.mem_map.mp pulls
      exact target.issueIdentity_ne_pullKey issue pull
  · obtain ⟨segment, listed, fetched, rfl⟩ := exists_segment chunked member
    intro edge drawn
    obtain ⟨pull, within, closing⟩ := List.mem_flatMap.mp drawn
    obtain ⟨issue, closes, rfl⟩ := List.mem_map.mp closing
    obtain ⟨row, kept, same⟩ := exists_row (mem_assemble_pull fetched within) closes
    rw [GithubRepository.mapWindow, List.map_append, List.map_map, List.map_map]
    refine List.forall_mem_cons.mpr ⟨?_, List.forall_mem_singleton.mpr ?_⟩
    · exact List.mem_append_right _ (List.mem_map.mpr ⟨pull, within, rfl⟩)
    · refine List.mem_append_left _ (List.mem_map.mpr ⟨row, kept, ?_⟩)
      exact congrArg Prod.fst (target.issueIdentity_congr same)

end GithubFetch

/-! ## The first version of an issue -/

/-- Of the pulls that close an issue, the first with the oldest group. -/
def firstToClose (pulls : List GhPull) (identity : Option String × ℕ) : Option GhPull :=
  (pulls.filter (closes identity)).argmin fun pull => (groupOfPull pull).sortKey

/-- No version is newer than those that the first pull to close the issue has, or where no pull
closes it, than any other. -/
def FirstIsNewest (issues : List GhIssue) (pulls : List GhPull) : Prop :=
  ∀ version ∈ versions issues pulls,
    ∀ copy ∈ ((firstToClose pulls version.identity).map GhPull.closing).getD issues,
      copy.identity = version.identity → version.updatedAt ≤ copy.updatedAt

section First

variable {issues : List GhIssue} {pulls : List GhPull} {identity : Option String × ℕ}

theorem exists_first_row (has : group.has identity = true) :
    ∃ row, group.issues.find? (·.identity = identity) = some row ∧ row.identity = identity := by
  obtain ⟨issue, listed, same⟩ := List.mem_map.mp (of_decide_eq_true has)
  have some : (group.issues.find? (·.identity = identity)).isSome :=
    List.find?_isSome.mpr ⟨issue, listed, decide_eq_true same⟩
  obtain ⟨row, found⟩ := Option.isSome_iff_exists.mp some
  exact ⟨row, found, by simpa using List.find?_some found⟩

/-- The first row of the first group that has one is kept. -/
theorem kept_of_first (first : groups.find? (·.has identity) = some group)
    (here : group.issues.find? (·.identity = identity) = some row) : row ∈ (assemble groups).1 := by
  have same : row.identity = identity := by simpa using List.find?_some here
  obtain ⟨-, before, after, rfl, none⟩ := List.find?_eq_some_iff_append.mp first
  refine mem_foldl_keepFirst_iff.mpr ?_
  rw [List.find?_flatMap, List.findSome?_eq_some_iff]
  refine ⟨before, group, after, rfl, by rw [same]; exact here, fun other early => ?_⟩
  rw [List.find?_eq_none]
  intro issue listed named
  have has : other.has identity = true :=
    decide_eq_true (List.mem_map.mpr ⟨issue, listed, (of_decide_eq_true named).trans same⟩)
  simpa [has] using none other early

theorem has_groupOfPull (pull : GhPull) :
    (groupOfPull pull).has identity = closes identity pull := by
  rw [Group.has, closes, decide_eq_decide]
  simp only [groupOfPull, List.mem_map, List.mem_insertionSort]

/-- The first of the groups with a row of an issue. -/
theorem find?_fetchedGroups : (fetchedGroups issues pulls).find? (·.has identity) =
    (((issues.filter (·.identity ∉ carried pulls)).map issueGroup ++
      pulls.map groupOfPull).filter (·.has identity)).argmin Group.sortKey := by
  rw [fetchedGroups, sortGroups]
  exact find?_insertionSort _

theorem carried_iff : identity ∈ carried pulls ↔ ∃ pull ∈ pulls, closes identity pull = true := by
  rw [carried, List.mem_flatMap]
  simp only [closes, decide_eq_true_eq]

theorem firstToClose_eq_none : firstToClose pulls identity = none ↔ identity ∉ carried pulls := by
  rw [firstToClose, List.argmin_eq_none, List.filter_eq_nil_iff, carried_iff]
  simp only [not_exists, not_and]

/-- The first pull to close an issue is the first group that has a row of it. -/
theorem find?_of_firstToClose {pull : GhPull} (first : firstToClose pulls identity = some pull) :
    (fetchedGroups issues pulls).find? (·.has identity) = some (groupOfPull pull) := by
  have rides : identity ∈ carried pulls := by
    by_contra alone
    rw [firstToClose_eq_none.mpr alone] at first
    cases first
  have standalone : ((issues.filter (·.identity ∉ carried pulls)).map issueGroup).filter
      (·.has identity) = [] := by
    refine List.filter_eq_nil_iff.mpr fun group member has => ?_
    obtain ⟨issue, listed, rfl⟩ := List.mem_map.mp member
    have apart := of_decide_eq_true (List.mem_filter.mp listed).2
    rw [List.mem_singleton.mp (of_decide_eq_true has)] at rides
    exact apart rides
  rw [find?_fetchedGroups, List.filter_append, standalone, List.nil_append, List.filter_map,
    argmin_map]
  have same : (fun group => Group.has identity group) ∘ groupOfPull = closes identity := by
    funext pull
    exact has_groupOfPull pull
  rw [same]
  exact congrArg (Option.map groupOfPull) first

theorem mem_of_firstToClose (first : firstToClose pulls identity = some pull) :
    pull ∈ pulls ∧ closes identity pull = true :=
  List.mem_filter.mp (List.argmin_mem first)

/-- A row of an issue that no pull closes is one that was fetched by itself. -/
theorem mem_issues_of_versions (member : row ∈ versions issues pulls)
    (alone : row.identity ∉ carried pulls) : row ∈ issues := by
  refine (List.mem_append.mp member).resolve_right fun closing => alone ?_
  obtain ⟨pull, listed, closed⟩ := List.mem_flatMap.mp closing
  exact List.mem_flatMap.mpr ⟨pull, listed, List.mem_map_of_mem closed⟩

/-- **The newest version of every issue is in some window** where the first is the newest. -/
theorem FirstIsNewest.kept (newest : FirstIsNewest issues pulls)
    (chunked : chunkWindows issues pulls maxWindow = .ok windows) :
    NewestKept issues pulls windows := by
  intro version listed
  obtain ⟨-, rfl⟩ := chunkWindows_ok_iff.mp chunked
  have whole := @flatten_segments _ (fullWindow maxWindow) 0 [] (fetchedGroups issues pulls)
  rw [List.nil_append] at whole
  have least := newest version listed
  cases first : firstToClose pulls version.identity with
  | some pull =>
      rw [first] at least
      have found := @find?_of_firstToClose issues _ _ _ first
      rw [← whole, List.find?_flatten_eq_some_iff] at found
      obtain ⟨has, before, early, late, after, parts, -, none⟩ := found
      have inSegment : (early ++ groupOfPull pull :: late).find? (·.has version.identity) =
          some (groupOfPull pull) :=
        List.find?_eq_some_iff_append.mpr ⟨has, early, late, rfl, none⟩
      obtain ⟨row, here, same⟩ := exists_first_row has
      refine ⟨_, List.mem_map_of_mem (parts ▸ List.mem_append_right _ List.mem_cons_self), row,
        kept_of_first inSegment here, same, least row ?_ same⟩
      exact (List.mem_insertionSort _).mp (List.mem_of_find?_eq_some here)
  | none =>
      rw [first] at least
      have alone := firstToClose_eq_none.mp first
      have own := mem_issues_of_versions listed alone
      have member : issueGroup version ∈ (segments (fullWindow maxWindow) 0 []
          (fetchedGroups issues pulls)).flatten := by
        rw [whole]
        exact mem_fetchedGroups.mpr (.inl ⟨version, own, alone, rfl⟩)
      obtain ⟨segment, inside, here⟩ := List.mem_flatten.mp member
      obtain ⟨row, kept, same⟩ : ∃ row ∈ (assemble segment).1, row.identity = version.identity :=
        name_foldl_keepFirst (.inr (List.mem_flatMap.mpr ⟨_, here, List.mem_singleton.mpr rfl⟩))
      refine ⟨_, List.mem_map_of_mem inside, row, kept, same, least row ?_ same⟩
      exact mem_issues_of_versions (mem_versions (segment_subset inside) kept) (same ▸ alone)

/-- Of the groups with a row of an issue, the first that comes is the oldest. -/
theorem sortKey_first_le {other : Group}
    (first : (fetchedGroups issues pulls).find? (·.has identity) = some group)
    (member : other ∈ fetchedGroups issues pulls) (has : other.has identity = true) :
    group.sortKey ≤ other.sortKey := by
  rw [find?_fetchedGroups] at first
  refine List.le_of_mem_argmin (List.mem_filter.mpr ⟨?_, has⟩) first
  rw [fetchedGroups, sortGroups, List.mem_insertionSort] at member
  exact member

/-- Of the versions in a pull, the first row is the oldest. -/
theorem updatedAt_first_le {copy : GhIssue}
    (first : (groupOfPull pull).issues.find? (·.identity = identity) = some row)
    (closed : copy ∈ pull.closing) (same : copy.identity = identity) :
    row.updatedAt ≤ copy.updatedAt := by
  rw [groupOfPull, find?_insertionSort] at first
  exact List.le_of_mem_argmin (List.mem_filter.mpr ⟨closed, decide_eq_true same⟩) first

/-- **The first version has to be the newest**, or a window for everything keeps an older one. -/
theorem FirstIsNewest.of_kept (kept : ∀ maxWindow windows,
    chunkWindows issues pulls maxWindow = .ok windows → NewestKept issues pulls windows) :
    FirstIsNewest issues pulls := by
  intro version listed copy copied same
  let groups := fetchedGroups issues pulls
  have has : ∃ group ∈ groups, group.has version.identity = true := by
    by_cases rides : version.identity ∈ carried pulls
    · obtain ⟨pull, known, closing⟩ := carried_iff.mp rides
      exact ⟨_, mem_fetchedGroups.mpr (.inr ⟨pull, known, rfl⟩),
        (has_groupOfPull pull).trans closing⟩
    · exact ⟨_, mem_fetchedGroups.mpr (.inl ⟨version, mem_issues_of_versions listed rides, rides,
        rfl⟩), decide_eq_true List.mem_cons_self⟩
  obtain ⟨some, fetched, -⟩ := has
  have chunked := chunkWindows_whole (List.ne_nil_of_mem fetched)
  obtain ⟨window, only, row, inside, named, upTo⟩ := kept _ _ chunked version listed
  obtain rfl := List.mem_singleton.mp only
  have apart : ((assemble groups).1.map GhIssue.identity).Nodup :=
    nodup_foldl_keepFirst List.nodup_nil
  refine le_trans upTo ?_
  cases first : firstToClose pulls version.identity with
  | some pull =>
      rw [first] at copied
      obtain ⟨first', here, same'⟩ := exists_first_row
        ((has_groupOfPull pull).trans (mem_of_firstToClose first).2)
      have kept' := kept_of_first (@find?_of_firstToClose issues _ _ _ first) here
      rw [List.inj_on_of_nodup_map apart inside kept' (named.trans same'.symm)]
      exact updatedAt_first_le here copied same
  | none =>
      rw [first] at copied
      have alone := firstToClose_eq_none.mp first
      have member : issueGroup copy ∈ groups :=
        mem_fetchedGroups.mpr (.inl ⟨copy, copied, same ▸ alone, rfl⟩)
      have hasCopy : (issueGroup copy).has version.identity = true :=
        decide_eq_true (List.mem_singleton.mpr same.symm)
      obtain ⟨group, found⟩ := Option.isSome_iff_exists.mp
        (List.find?_isSome.mpr ⟨_, member, hasCopy⟩)
      obtain ⟨first', here, same'⟩ := exists_first_row (of_decide_eq_true (by
        simpa using List.find?_some found))
      rw [List.inj_on_of_nodup_map apart inside (kept_of_first found here)
        (named.trans same'.symm)]
      refine le_trans ?_ (sortKey_first_le found member hasCopy)
      exact (updatedAt_le_sortKey (List.mem_of_find?_eq_some found)).1 first'
        (List.mem_of_find?_eq_some here)

end First

/-! ## Cursors -/

/-- The newest time of a pull and the issues that it closes is its own, or that of all its versions
of some issue. -/
def NewestStays (pull : GhPull) : Prop :=
  (∀ time ∈ pull.times, time ≤ pull.updatedAt) ∨
    ∃ issue ∈ pull.closing, ∀ copy ∈ pull.closing, copy.identity = issue.identity →
      ∀ time ∈ pull.times, time ≤ copy.updatedAt

section Cursors

variable {issues : List GhIssue} {pulls : List GhPull}

/-- A window that begins with a group is as new as the group. -/
theorem sortKey_le_cursor {rest : List Group} {cursor : String}
    (stays : ∀ pull ∈ pulls, NewestStays pull) (member : group ∈ fetchedGroups issues pulls)
    (newest : cursorFor (assemble (group :: rest)) = some cursor) : group.sortKey ≤ cursor := by
  have upTo := (List.max?_eq_some_iff.mp newest).2
  have ofRow : ∀ row ∈ (assemble (group :: rest)).1, row.updatedAt ≤ cursor := fun row kept =>
    upTo _ (List.mem_append_left _ (List.mem_map_of_mem kept))
  -- The first row of an issue that the group has is kept.
  have leads : ∀ issue ∈ group.issues, ∃ row ∈ (assemble (group :: rest)).1,
      row ∈ group.issues ∧ row.identity = issue.identity := by
    intro issue listed
    have has : group.has issue.identity = true := decide_eq_true (List.mem_map_of_mem listed)
    obtain ⟨row, here, same⟩ := exists_first_row has
    have first : (group :: rest).find? (·.has issue.identity) = some group :=
      List.find?_cons_of_pos has
    exact ⟨row, kept_of_first first here, List.mem_of_find?_eq_some here, same⟩
  rcases mem_fetchedGroups.mp member with ⟨issue, -, -, rfl⟩ | ⟨pull, known, rfl⟩
  · obtain ⟨row, kept, within, -⟩ := leads issue (List.mem_singleton.mpr rfl)
    rw [List.mem_singleton.mp within] at kept
    exact ofRow issue kept
  · have newestTime := (sortKey_groupOfPull pull).1
    rcases stays pull known with own | ⟨issue, closed, all⟩
    · refine le_trans (own _ newestTime) (upTo _ (List.mem_append_right _ (List.mem_map_of_mem ?_)))
      exact List.mem_flatMap.mpr ⟨_, List.mem_cons_self, List.mem_singleton.mpr rfl⟩
    · obtain ⟨row, kept, within, same⟩ := leads issue ((List.mem_insertionSort _).mpr closed)
      exact le_trans (all row ((List.mem_insertionSort _).mp within) same _ newestTime)
        (ofRow row kept)

/-- **The cursors never decrease** where the newest time of every pull stays. -/
theorem cursorsGrow_of_stays (stays : ∀ pull ∈ pulls, NewestStays pull)
    (chunked : chunkWindows issues pulls maxWindow = .ok windows) : CursorsGrow windows := by
  obtain ⟨-, rfl⟩ := chunkWindows_ok_iff.mp chunked
  have whole := @flatten_segments _ (fullWindow maxWindow) 0 [] (fetchedGroups issues pulls)
  have some : ∀ segment ∈ segments (fullWindow maxWindow) 0 [] (fetchedGroups issues pulls),
      segment ≠ [] := fun segment member => segments_ne_nil member
  generalize segments (fullWindow maxWindow) 0 [] (fetchedGroups issues pulls) = parts
    at whole some ⊢
  -- The induction is on the windows that are left, with the groups before them.
  suffices grow : ∀ before, before ++ parts.flatten = fetchedGroups issues pulls →
      CursorsGrow (parts.map assemble) from grow [] whole
  clear whole
  intro before split
  induction parts generalizing before with
  | nil => exact List.Pairwise.nil
  | cons segment parts ih =>
      rw [List.flatten_cons] at split
      obtain ⟨-, some⟩ := List.forall_mem_cons.mp some
      refine List.pairwise_cons.mpr ⟨fun window later cursor newest next newest' => ?_,
        ih some (before ++ segment) (by rw [List.append_assoc, split])⟩
      obtain ⟨other, member, rfl⟩ := List.mem_map.mp later
      obtain ⟨group, rest, rfl⟩ := List.exists_cons_of_ne_nil (some other member)
      have after : group ∈ parts.flatten := List.mem_flatten.mpr ⟨_, member, List.mem_cons_self⟩
      have fetched : group ∈ fetchedGroups issues pulls := by
        rw [← split]
        exact List.mem_append_right _ (List.mem_append_right _ after)
      have parted : fetchedGroups issues pulls = before ++ segment ++ parts.flatten := by
        rw [List.append_assoc, split]
      exact le_trans (cursorFor_le parted newest group after)
        (sortKey_le_cursor stays fetched newest')

/-- Before a pull with a newer version that is not kept, an issue of that time is a window of its
own. -/
theorem newestStays_of_grow (grow : ∀ issues : List GhIssue,
    (∀ issue ∈ issues, issue.repo = none) → ∀ maxWindow windows,
      chunkWindows issues [pull] maxWindow = .ok windows → CursorsGrow windows) :
    NewestStays pull := by
  let fresh := bareIssue (((carried [pull]).map Prod.snd).sum + 1) (groupOfPull pull).sortKey
  have apart : fresh.identity ∉ carried [pull] := bareIssue_not_carried [pull] _
  have groups : fetchedGroups [fresh] [pull] = [issueGroup fresh, groupOfPull pull] := by
    rw [fetchedGroups, sortGroups, List.filter_cons_of_pos (by simpa using apart)]
    simp [issueGroup, fresh, bareIssue]
  have parts : segments (fullWindow (groupOfPull pull).cost) 0 [] (fetchedGroups [fresh] [pull]) =
      [[issueGroup fresh], [groupOfPull pull]] := by
    rw [groups]
    simp [segments, fullWindow, issueGroup]
  have chunked : chunkWindows [fresh] [pull] (groupOfPull pull).cost =
      .ok [assemble [issueGroup fresh], assemble [groupOfPull pull]] := by
    refine chunkWindows_ok_iff.mpr ⟨List.forall_mem_singleton.mpr (le_refl _), ?_⟩
    rw [parts]
    rfl
  have grows := grow [fresh] (List.forall_mem_singleton.mpr rfl) _ _ chunked
  have newestTime := (sortKey_groupOfPull pull).2
  cases newest : cursorFor (assemble [groupOfPull pull]) with
  | none =>
      have times := List.max?_eq_none_iff.mp newest
      simp [assemble, groupOfPull] at times
  | some cursor =>
      have upTo : (groupOfPull pull).sortKey ≤ cursor :=
        (List.pairwise_cons.mp grows).1 _ (List.mem_singleton.mpr rfl) _ rfl cursor newest
      rcases List.mem_append.mp (List.max?_eq_some_iff.mp newest).1 with row | own
      · obtain ⟨version, kept, rfl⟩ := List.mem_map.mp row
        have first := mem_foldl_keepFirst_iff.mp kept
        rw [List.flatMap_singleton] at first
        have member := (List.mem_insertionSort _).mp (List.mem_of_find?_eq_some first)
        refine .inr ⟨version, member, fun copy closed same time listed => ?_⟩
        exact le_trans (newestTime time listed)
          (le_trans upTo (updatedAt_first_le first closed same))
      · obtain ⟨other, kept, rfl⟩ := List.mem_map.mp own
        have same : other = pull := by simpa [assemble, groupOfPull] using kept
        subst same
        exact .inl fun time listed => le_trans (newestTime time listed) upTo

end Cursors

/-- **When the windows of a fetch are what they are for.** They are a partition of the pulls within
the bound in any case; they keep the newest version of every issue exactly if the first version is
the newest; and their cursors never decrease if the newest time of every pull stays, which is
needed of each pull by itself. -/
theorem githubWindows_iff (target : GithubRepository) (fetch : GithubFetch) :
    (∀ maxWindow windows, 0 < maxWindow →
      chunkWindows fetch.issues (fetch.closed target) maxWindow = .ok windows →
        Partitions target (fetch.closed target) maxWindow windows) ∧
    ((∀ maxWindow windows, chunkWindows fetch.issues (fetch.closed target) maxWindow = .ok windows →
      NewestKept fetch.issues (fetch.closed target) windows) ↔
        FirstIsNewest fetch.issues (fetch.closed target)) ∧
    ((∀ pull ∈ fetch.closed target, NewestStays pull) → ∀ maxWindow windows,
      chunkWindows fetch.issues (fetch.closed target) maxWindow = .ok windows →
        CursorsGrow windows) ∧
    ∀ pull : GhPull, NewestStays pull ↔ ∀ issues : List GhIssue,
      (∀ issue ∈ issues, issue.repo = none) → ∀ maxWindow windows,
        chunkWindows issues [pull] maxWindow = .ok windows → CursorsGrow windows :=
  ⟨fun _ _ some chunked => fetch.partitions target some chunked,
    ⟨FirstIsNewest.of_kept, fun newest _ _ chunked => newest.kept chunked⟩,
    fun stays _ _ chunked => cursorsGrow_of_stays stays chunked,
    fun _ => ⟨fun stays _ _ _ _ chunked =>
      cursorsGrow_of_stays (List.forall_mem_singleton.mpr stays) chunked, newestStays_of_grow⟩⟩

/-- An issue that is fetched a second time after it was updated. -/
def movedIssue : List GhIssue :=
  [bareIssue 5 "2026-09-01T00:00:00Z", bareIssue 5 "2026-09-02T00:00:00Z"]

/-- One window takes both versions and keeps the older. -/
theorem not_newestKept : chunkWindows movedIssue [] 100 =
      .ok [([bareIssue 5 "2026-09-01T00:00:00Z"], [])] ∧
    ¬ ∀ maxWindow windows, chunkWindows movedIssue [] maxWindow = .ok windows →
      NewestKept movedIssue [] windows := by
  have chunked : chunkWindows movedIssue [] 100 =
      .ok [([bareIssue 5 "2026-09-01T00:00:00Z"], [])] := by decide +kernel
  refine ⟨chunked, fun kept => ?_⟩
  obtain ⟨window, only, row, inside, -, upTo⟩ := kept 100 _ chunked
    (bareIssue 5 "2026-09-02T00:00:00Z") (List.mem_cons_of_mem _ List.mem_cons_self)
  rw [List.mem_singleton.mp only] at inside
  rw [List.mem_singleton.mp inside] at upTo
  exact absurd upTo (by decide +kernel)

end Exocortex
