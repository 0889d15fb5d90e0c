import Exocortex.Adapter.GithubWindows

/-!
# Rows behind the cursor

The next run fetches what is not older than the cursor that was saved last. So a row that is older
must be in a window that is settled. A pull goes by its newest row, so it may be in a window that
comes after the cursor has passed it; and of two rows of one issue a window keeps only the first.

Groups that together cost no more than the widest pull are in one window whatever the bound is. So
a pull is stranded only where a window can end before it and has a row that is newer, and a
repeated row only where a window has a row that is newer than it. For a fetch with one version of
every issue this says exactly when a row is stranded (`neverStrands_iff`). Pulls that are not older
than their issues are never stranded (`CursorSafe.of_newest`).
-/

namespace Exocortex

open Library

/-! ## The claim on a fetch -/

/-- Wherever a run stops, the rows that are older than the saved cursor are in settled windows. -/
def NeverStrands (issues : List GhIssue) (pulls : List GhPull) : Prop :=
  ∀ maxWindow windows, chunkWindows issues pulls maxWindow = .ok windows →
    ∀ settled last rest, windows = settled ++ last :: rest →
      ∀ issuesTruncated issuesFrontier pullsTruncated resume saved,
        savedCursor (safeCursorCeiling issuesTruncated issuesFrontier pullsTruncated resume)
            last = some saved →
          (∀ pull ∈ pulls, pull.updatedAt < saved →
            ∃ window ∈ settled ++ [last], pull ∈ window.2) ∧
          ∀ issue ∈ issues, issue.identity ∉ carried pulls → issue.updatedAt < saved →
            ∃ window ∈ settled ++ [last], issue ∈ window.1

/-- The times of the rows of a window. -/
def Window.times (window : Window) : List String :=
  window.1.map GhIssue.updatedAt ++ window.2.map GhPull.updatedAt

/-- Under some bound a window ends before a group: the groups up to it cost more than any pull. -/
def CanEnd (pulls : List GhPull) (front : List Group) (group : Group) : Prop :=
  ∀ pull ∈ pulls, (groupOfPull pull).cost < ((front ++ [group]).map Group.cost).sum

/-- A window may show a row of that time: the first row of its issue, or the first one in a group
that may begin a window. -/
def MayShow (pulls : List GhPull) (groups : List Group) (time : String) : Prop :=
  time ∈ (assemble groups).times ∨ ∃ front group back, groups = front ++ group :: back ∧
    CanEnd pulls front group ∧ time ∈ (assemble [group]).times

/-- Where a window can end before a pull, no row that is shown before it is newer. -/
def PullsInTime (shows : List Group → String → Prop) (issues : List GhIssue)
    (pulls : List GhPull) : Prop :=
  ∀ front pull back, fetchedGroups issues pulls = front ++ groupOfPull pull :: back →
    groupOfPull pull ∉ front → CanEnd pulls front (groupOfPull pull) →
      ∀ time, shows front time → time ≤ pull.updatedAt

/-- Where a row of an issue by itself is not the first one of the issue, no row is shown that is
newer. -/
def RepeatsInTime (issues : List GhIssue) (pulls : List GhPull) : Prop :=
  ∀ issue ∈ issues, issue.identity ∉ carried pulls →
    issue ∉ (assemble (fetchedGroups issues pulls)).1 →
      ∀ time, MayShow pulls (fetchedGroups issues pulls) time → time ≤ issue.updatedAt

structure CursorSafe (issues : List GhIssue) (pulls : List GhPull) : Prop where
  pullsInTime : PullsInTime (MayShow pulls) issues pulls
  repeatsInTime : RepeatsInTime issues pulls

/-- No issue was fetched in two versions, by itself or with a pull. -/
def OneVersion (issues : List GhIssue) (pulls : List GhPull) : Prop :=
  ∀ x ∈ (fetchedGroups issues pulls).flatMap Group.issues,
    ∀ y ∈ (fetchedGroups issues pulls).flatMap Group.issues, x.identity = y.identity → x = y

/-! ## Times -/

theorem empty_le (text : String) : "" ≤ text := by
  rw [String.le_iff_toList_le, String.toList_empty]
  exact not_lt.mp (List.not_lt_nil _)

theorem sortKey_groupOfPull (pull : GhPull) :
    (groupOfPull pull).sortKey ∈ pull.times ∧
      ∀ time ∈ pull.times, time ≤ (groupOfPull pull).sortKey := by
  have some : pull.times ≠ [] := List.append_ne_nil_of_right_ne_nil _ (List.cons_ne_nil _ _)
  cases newest : pull.times.max? with
  | none => exact absurd (List.max?_eq_none_iff.mp newest) some
  | some last =>
      have key : (groupOfPull pull).sortKey = last := by
        rw [groupOfPull, newest, Option.getD_some]
      rw [key]
      exact List.max?_eq_some_iff.mp newest

theorem savedCursor_le {ceiling : Option String} {window : Window} {saved : String}
    (found : savedCursor ceiling window = some saved) :
    ∃ cursor, cursorFor window = some cursor ∧ saved ≤ cursor := by
  obtain ⟨cursor, newest, rest⟩ := Option.bind_eq_some_iff.mp found
  refine ⟨cursor, newest, ?_⟩
  dsimp only at rest
  split at rest
  · cases rest
  · obtain rfl := Option.some.inj rest
    rw [effectiveCursor.eq_def]
    split
    · split
      · exact empty_le cursor
      · exact min_le_right _ _
    · exact le_refl _

/-! ## Rows and their groups -/

section Fetch

variable {issues : List GhIssue} {pulls : List GhPull}

variable {group : Group} {front back : List Group} {issue : GhIssue} {time : String}

theorem mem_fetchedGroups : group ∈ fetchedGroups issues pulls ↔
    (∃ issue ∈ issues, issue.identity ∉ carried pulls ∧ group = issueGroup issue) ∨
      ∃ pull ∈ pulls, group = groupOfPull pull := by
  rw [fetchedGroups, sortGroups, List.mem_insertionSort, List.mem_append, List.mem_map,
    List.mem_map]
  simp only [List.mem_filter, decide_eq_true_eq, and_assoc, @eq_comm Group _ group]

theorem mem_of_split (groups : fetchedGroups issues pulls = front ++ group :: back) :
    group ∈ fetchedGroups issues pulls := by
  rw [groups]
  exact List.mem_append_right _ List.mem_cons_self

theorem mem_pulls {pull : GhPull} (member : groupOfPull pull ∈ fetchedGroups issues pulls) :
    pull ∈ pulls := by
  rcases mem_fetchedGroups.mp member with ⟨issue, -, -, same⟩ | ⟨other, known, same⟩
  · cases congrArg Group.pull same
  · cases congrArg Group.pull same
    exact known

/-- Oldest first; of groups with the same time those without a pull come first. -/
theorem pairwise_fetchedGroups : (fetchedGroups issues pulls).Pairwise
    (KeyOrder Group.sortKey fun x y => x.pull.isSome → y.pull.isSome) := by
  refine pairwise_insertionSort_key (List.pairwise_append.mpr ⟨?_, ?_, ?_⟩)
  · exact List.pairwise_map.mpr (List.pairwise_of_forall fun _ _ => nofun)
  · exact List.pairwise_map.mpr (List.pairwise_of_forall fun _ _ _ => rfl)
  · intro x issue
    obtain ⟨_, -, rfl⟩ := List.mem_map.mp issue
    exact fun _ _ => nofun

/-- A row is not newer than its group. -/
theorem updatedAt_le_sortKey (member : group ∈ fetchedGroups issues pulls) :
    (∀ issue ∈ group.issues, issue.updatedAt ≤ group.sortKey) ∧
      ∀ pull ∈ group.pull.toList, pull.updatedAt ≤ group.sortKey := by
  rcases mem_fetchedGroups.mp member with ⟨issue, -, -, rfl⟩ | ⟨pull, -, rfl⟩
  · refine ⟨fun other listed => ?_, nofun⟩
    rw [List.mem_singleton.mp listed]
    exact le_refl _
  · have newest := (sortKey_groupOfPull pull).2
    constructor
    · intro issue listed
      exact newest _ (List.mem_append_left _
        (List.mem_map_of_mem ((List.mem_insertionSort _).mp listed)))
    · intro other same
      rw [List.mem_singleton.mp same]
      exact newest _ (List.mem_append_right _ (List.mem_singleton.mpr rfl))

variable {groups segment : List Group}

/-- What a window shows, it shows of one of its groups. -/
theorem exists_group (shown : time ∈ (assemble groups).times) :
    ∃ front group back, groups = front ++ group :: back ∧ time ∈ (assemble [group]).times := by
  rcases List.mem_append.mp shown with row | row
  · obtain ⟨issue, kept, rfl⟩ := List.mem_map.mp row
    have first := mem_foldl_keepFirst_iff.mp kept
    rw [List.find?_flatMap] at first
    obtain ⟨front, group, back, rfl, here, -⟩ := List.findSome?_eq_some_iff.mp first
    refine ⟨front, group, back, rfl, List.mem_append_left _ (List.mem_map_of_mem ?_)⟩
    refine mem_foldl_keepFirst_iff.mpr ?_
    rwa [List.flatMap_singleton]
  · obtain ⟨pull, kept, rfl⟩ := List.mem_map.mp row
    obtain ⟨group, here, listed⟩ := List.mem_flatMap.mp kept
    obtain ⟨front, back, rfl⟩ := List.append_of_mem here
    refine ⟨front, group, back, rfl, List.mem_append_right _ (List.mem_map_of_mem ?_)⟩
    exact List.mem_flatMap.mpr ⟨group, List.mem_singleton.mpr rfl, listed⟩

theorem times_le_sortKey (member : group ∈ fetchedGroups issues pulls)
    (shown : time ∈ (assemble [group]).times) : time ≤ group.sortKey := by
  rcases List.mem_append.mp shown with row | row
  · obtain ⟨issue, kept, rfl⟩ := List.mem_map.mp row
    have listed := (mem_foldl_keepFirst kept).resolve_left List.not_mem_nil
    rw [List.flatMap_singleton] at listed
    exact (updatedAt_le_sortKey member).1 issue listed
  · obtain ⟨pull, kept, rfl⟩ := List.mem_map.mp row
    obtain ⟨first, here, listed⟩ := List.mem_flatMap.mp kept
    rw [List.mem_singleton.mp here] at listed
    exact (updatedAt_le_sortKey member).2 pull listed

/-- Groups in order are in the order of their times. -/
theorem sortKey_le {other : Group} (groups : fetchedGroups issues pulls = front ++ group :: back)
    (later : other ∈ back) : group.sortKey ≤ other.sortKey := by
  have sorted := @pairwise_fetchedGroups issues pulls
  rw [groups] at sorted
  exact ((List.pairwise_cons.mp (List.pairwise_append.mp sorted).2.1).1 other later).le

/-- A window is not newer than what comes after it. -/
theorem cursorFor_le {before after : List Group} {cursor : String}
    (groups : fetchedGroups issues pulls = before ++ segment ++ after)
    (newest : cursorFor (assemble segment) = some cursor) :
    ∀ group ∈ after, cursor ≤ group.sortKey := by
  intro group later
  obtain ⟨front, first, back, rfl, shown⟩ := exists_group (List.max?_eq_some_iff.mp newest).1
  have split : fetchedGroups issues pulls = (before ++ front) ++ first :: (back ++ after) := by
    rw [groups]
    simp
  exact le_trans (times_le_sortKey (mem_of_split split) shown)
    (sortKey_le split (List.mem_append_right _ later))

/-- What a window shows, a longer one from the same group on shows. -/
theorem times_subset (front back : List Group) :
    (assemble front).times ⊆ (assemble (front ++ back)).times := by
  have rows : (assemble front).1 ⊆ (assemble (front ++ back)).1 := by
    rw [assemble, assemble, List.flatMap_append, List.foldl_append]
    exact subset_foldl_keepFirst
  have pulls : (assemble front).2 ⊆ (assemble (front ++ back)).2 := by
    intro pull listed
    obtain ⟨group, here, inside⟩ := List.mem_flatMap.mp listed
    exact List.mem_flatMap.mpr ⟨group, List.mem_append_left _ here, inside⟩
  intro time shown
  refine List.mem_append.mpr ((List.mem_append.mp shown).imp ?_ ?_)
  · exact fun row => List.map_subset _ rows row
  · exact fun row => List.map_subset _ pulls row

/-! ## Segments -/

/-- Groups that fit go on with the segment that is being filled. -/
theorem segments_fits {maxWindow closed : ℕ} {current front back : List Group}
    (room : ((current ++ front).map Group.cost).sum ≤ maxWindow) :
    segments (fullWindow maxWindow) closed current (front ++ back) =
      segments (fullWindow maxWindow) closed (current ++ front) back := by
  induction front generalizing current with
  | nil => rw [List.nil_append, List.append_nil]
  | cons group front ih =>
      rw [List.append_cons] at room ⊢
      have fits : fullWindow maxWindow closed current group = false := by
        simp only [List.map_append, List.map_singleton, List.sum_append, List.sum_singleton] at room
        exact decide_eq_false (by omega)
      rw [List.cons_append, segments, fits, Bool.and_false, if_neg Bool.false_ne_true]
      exact ih room

/-- Groups that fit together are one window. -/
theorem segments_one {maxWindow closed : ℕ} {current groups : List Group}
    (room : ((current ++ groups).map Group.cost).sum ≤ maxWindow)
    (some : current ++ groups ≠ []) :
    segments (fullWindow maxWindow) closed current groups = [current ++ groups] := by
  have whole := @segments_fits maxWindow closed current groups [] room
  rw [List.append_nil] at whole
  obtain ⟨group, rest, same⟩ := List.exists_cons_of_ne_nil some
  rw [whole, same, segments]

variable {maxWindow : ℕ}

/-- After the first window, a window can end before each group. -/
theorem canEnd_of_later (fits : ∀ pull ∈ pulls, (groupOfPull pull).cost ≤ maxWindow)
    {settled after : List (List Group)} {front back : List Group} {group : Group}
    (parts : segments (fullWindow maxWindow) 0 [] (fetchedGroups issues pulls) =
      settled ++ (front ++ group :: back) :: after) (some : settled ≠ []) :
    CanEnd pulls (settled.flatten ++ front) group := by
  intro pull listed
  obtain ⟨before, last, rfl⟩ := (List.eq_nil_or_concat settled).resolve_left some
  obtain ⟨first, rest, head⟩ := List.exists_cons_of_ne_nil (List.append_ne_nil_of_right_ne_nil front
    (List.cons_ne_nil group []))
  have split : front ++ group :: back = first :: (rest ++ back) := by
    rw [← List.cons_append, ← head, List.append_assoc, List.singleton_append]
  have adjacent : segments (fullWindow maxWindow) 0 [] (fetchedGroups issues pulls) =
      before ++ last :: (first :: (rest ++ back)) :: after := by
    rw [parts, split]
    simp
  obtain ⟨closed, full⟩ := segments_closes adjacent
  have above := of_decide_eq_true full
  have fit := fits pull listed
  rw [List.append_assoc, head]
  simp
  omega

/-- What a window shows, it may show with any groups after it. -/
theorem mayShow_of_window (fits : ∀ pull ∈ pulls, (groupOfPull pull).cost ≤ maxWindow)
    {settled after : List (List Group)}
    (parts : segments (fullWindow maxWindow) 0 [] (fetchedGroups issues pulls) =
      settled ++ segment :: after) (shown : time ∈ (assemble segment).times) (more : List Group) :
    MayShow pulls (settled.flatten ++ (segment ++ more)) time := by
  by_cases first : settled = []
  · subst first
    exact .inl (times_subset segment more shown)
  · obtain ⟨front, group, back, rfl, own⟩ := exists_group shown
    exact .inr ⟨settled.flatten ++ front, group, back ++ more, by simp,
      canEnd_of_later fits parts first, own⟩

/-- A window for everything takes all groups. -/
theorem chunkWindows_whole (some : fetchedGroups issues pulls ≠ []) :
    chunkWindows issues pulls ((fetchedGroups issues pulls).map Group.cost).sum =
      .ok [assemble (fetchedGroups issues pulls)] := by
  refine chunkWindows_ok_iff.mpr ⟨fun pull known => ?_, ?_⟩
  · exact List.le_sum_of_mem (List.mem_map_of_mem (mem_fetchedGroups.mpr (.inr ⟨pull, known, rfl⟩)))
  · have one := @segments_one _ 0 [] (fetchedGroups issues pulls) (le_refl _) some
    exact (congrArg (List.map assemble) one).symm

/-- Where a window can end before a group, under some bound the first one does. -/
theorem exists_windows (groups : fetchedGroups issues pulls = front ++ group :: back)
    (some : front ≠ []) (canEnd : CanEnd pulls front group) :
    ∃ bound more behind rest, back = more ++ behind ∧
      chunkWindows issues pulls bound =
        .ok (assemble front :: assemble (group :: more) :: rest) := by
  have positive : 0 < group.cost := by
    rcases mem_fetchedGroups.mp (mem_of_split groups) with ⟨issue, -, -, rfl⟩ | ⟨pull, -, rfl⟩
    · exact Nat.one_pos
    · exact Nat.lt_of_lt_of_le Nat.one_pos (Nat.le_add_right _ _)
  have total : ((front ++ [group]).map Group.cost).sum =
      (front.map Group.cost).sum + group.cost := by simp
  rw [CanEnd, total] at canEnd
  let bound := (front.map Group.cost).sum + group.cost - 1
  obtain ⟨more, rest, second⟩ := @segments_cons _ (fullWindow bound) 1 [group] back
    (List.cons_ne_nil group [])
  have parts : segments (fullWindow bound) 0 [] (fetchedGroups issues pulls) =
      front :: (group :: more) :: rest := by
    have above : fullWindow bound 0 front group = true := decide_eq_true (by omega)
    rw [groups, segments_fits (by rw [List.nil_append]; omega), List.nil_append, segments, above,
      List.isEmpty_eq_false_iff.mpr some]
    exact congrArg (front :: ·) second
  refine ⟨bound, more, rest.flatten, rest.map assemble, ?_, ?_⟩
  · have whole := @flatten_segments _ (fullWindow bound) 0 [] (fetchedGroups issues pulls)
    rw [parts, groups] at whole
    simpa using whole.symm
  · refine chunkWindows_ok_iff.mpr ⟨fun pull listed => ?_, by rw [parts]; rfl⟩
    have room := canEnd pull listed
    omega

/-! ## What is enough -/

/-- A row of a group that is an issue which no pull closes. -/
theorem eq_issueGroup (member : group ∈ fetchedGroups issues pulls)
    (within : issue ∈ group.issues) (standalone : issue.identity ∉ carried pulls) :
    group = issueGroup issue := by
  rcases mem_fetchedGroups.mp member with ⟨other, -, -, rfl⟩ | ⟨pull, known, rfl⟩
  · rw [List.mem_singleton.mp within]
  · have closed := (List.mem_insertionSort _).mp within
    exact absurd (List.mem_flatMap.mpr ⟨pull, known, List.mem_map_of_mem closed⟩) standalone

/-- What one window for everything keeps, some window keeps. -/
theorem exists_part {parts : List (List Group)} (kept : issue ∈ (assemble parts.flatten).1) :
    ∃ part ∈ parts, issue ∈ (assemble part).1 := by
  have first := mem_foldl_keepFirst_iff.mp kept
  rw [List.flatten_eq_flatMap, List.flatMap_assoc, List.find?_flatMap] at first
  obtain ⟨before, part, after, rfl, here, -⟩ := List.findSome?_eq_some_iff.mp first
  exact ⟨part, List.mem_append_right _ List.mem_cons_self, mem_foldl_keepFirst_iff.mpr here⟩

theorem mem_assemble_pull (fetched : groups ⊆ fetchedGroups issues pulls) {pull : GhPull}
    (member : pull ∈ (assemble groups).2) : groupOfPull pull ∈ groups := by
  obtain ⟨group, here, within⟩ := List.mem_flatMap.mp member
  rcases mem_fetchedGroups.mp (fetched here) with ⟨issue, -, -, rfl⟩ | ⟨other, -, rfl⟩
  · cases within
  · rw [List.mem_singleton.mp within]
    exact here

/-- **No row is stranded** where the pulls and the repeated rows are in time. -/
theorem CursorSafe.neverStrands (safe : CursorSafe issues pulls) : NeverStrands issues pulls := by
  intro maxWindow windows chunked settled last rest split _ _ _ _ saved found
  obtain ⟨fits, rfl⟩ := chunkWindows_ok_iff.mp chunked
  obtain ⟨before, later, parts, rfl, tail⟩ := List.map_eq_append_iff.mp split
  obtain ⟨segment, after, rfl, rfl, -⟩ := List.map_eq_cons_iff.mp tail
  have groups : fetchedGroups issues pulls =
      before.flatten ++ (segment ++ after.flatten) := by
    have all := @flatten_segments _ (fullWindow maxWindow) 0 [] (fetchedGroups issues pulls)
    rw [parts, List.nil_append] at all
    simpa using all.symm
  obtain ⟨cursor, newest, below⟩ := savedCursor_le found
  have shown : cursor ∈ (assemble segment).times := (List.max?_eq_some_iff.mp newest).1
  have windowOf : ∀ part, part ∈ before ∨ part = segment →
      assemble part ∈ before.map assemble ++ [assemble segment] := by
    rintro part (early | rfl)
    · exact List.mem_append_left _ (List.mem_map_of_mem early)
    · exact List.mem_append_right _ (List.mem_singleton.mpr rfl)
  constructor
  · intro pull member older
    by_contra missing
    have notIn : ∀ part, part ∈ before ∨ part = segment → groupOfPull pull ∉ part :=
      fun part listed within => missing ⟨_, windowOf part listed,
        List.mem_flatMap.mpr ⟨_, within, List.mem_singleton.mpr rfl⟩⟩
    have notBefore : groupOfPull pull ∉ before.flatten := fun early => by
      obtain ⟨part, listed, within⟩ := List.mem_flatten.mp early
      exact notIn part (.inl listed) within
    have there : groupOfPull pull ∈ after.flatten := by
      have fetched : groupOfPull pull ∈ fetchedGroups issues pulls :=
        mem_fetchedGroups.mpr (.inr ⟨pull, member, rfl⟩)
      rw [groups, List.mem_append, List.mem_append] at fetched
      exact (fetched.resolve_left notBefore).resolve_left (notIn segment (.inr rfl))
    -- The pull comes first in a later window.
    obtain ⟨mid, part, behind, rfl, within, first⟩ := exists_first_part there
    obtain ⟨front, back, rfl, apart⟩ := List.eq_append_cons_of_mem within
    have canEnd := @canEnd_of_later issues pulls maxWindow fits (before ++ segment :: mid) behind
      front back (groupOfPull pull) (by rw [parts]; simp) (by simp)
    have inTime := safe.pullsInTime _ pull (back ++ behind.flatten) (by rw [groups]; simp)
      (by simp [notBefore, notIn segment (.inr rfl), first, apart]) canEnd cursor (by
        simpa using mayShow_of_window fits parts shown (mid.flatten ++ front))
    exact absurd (lt_of_lt_of_le older (le_trans below inTime)) (lt_irrefl _)
  · intro issue member standalone older
    by_contra missing
    refine absurd (lt_of_lt_of_le older (le_trans below ?_)) (lt_irrefl _)
    by_cases hidden : issue ∈ (assemble (fetchedGroups issues pulls)).1
    · have whole := @flatten_segments _ (fullWindow maxWindow) 0 [] (fetchedGroups issues pulls)
      rw [List.nil_append] at whole
      rw [← whole, parts] at hidden
      obtain ⟨part, listed, kept⟩ := exists_part hidden
      rcases List.mem_append.mp listed with early | late
      · exact absurd ⟨_, windowOf part (.inl early), kept⟩ missing
      · rcases List.mem_cons.mp late with rfl | late
        · exact absurd ⟨_, windowOf part (.inr rfl), kept⟩ missing
        · -- A window that comes later has nothing older than the cursor.
          obtain ⟨group, here, within⟩ := List.mem_flatMap.mp
            ((mem_foldl_keepFirst kept).resolve_left List.not_mem_nil)
          have inAfter : group ∈ after.flatten := List.mem_flatten.mpr ⟨part, late, here⟩
          have fetched : group ∈ fetchedGroups issues pulls := by
            rw [groups]
            exact List.mem_append_right _ (List.mem_append_right _ inAfter)
          have upTo := cursorFor_le (groups.trans (List.append_assoc _ _ _).symm)
            newest group inAfter
          rwa [eq_issueGroup fetched within standalone] at upTo
    · exact safe.repeatsInTime issue member standalone hidden cursor
        (groups ▸ mayShow_of_window fits parts shown after.flatten)

/-! ## What is needed -/

/-- Where no walk is cut short, a window that shows a row newer than another saves a newer
cursor. -/
theorem exists_saved {window : Window} {older : String} (shown : time ∈ window.times)
    (newer : older < time) : ∃ cursor, older < cursor ∧
      savedCursor (safeCursorCeiling false none false none) window = some cursor := by
  cases newest : cursorFor window with
  | none =>
      have empty : window.times = [] := List.max?_eq_none_iff.mp newest
      rw [empty] at shown
      cases shown
  | some cursor =>
      have upTo : older < cursor :=
        lt_of_lt_of_le newer ((List.max?_eq_some_iff.mp newest).2 _ shown)
      have later : cursor ≠ "" := by
        rintro rfl
        exact absurd (empty_le older) (not_le.mpr upTo)
      refine ⟨cursor, upTo, ?_⟩
      rw [savedCursor, newest]
      simp [safeCursorCeiling, effectiveCursor, later]

/-- A repeated row that is older than a row that may be shown is in no window of some bound. -/
theorem NeverStrands.repeatsInTime (never : NeverStrands issues pulls) :
    RepeatsInTime issues pulls := by
  intro issue member standalone hidden time shown
  by_contra older
  rw [not_le] at older
  have whole : time ∉ (assemble (fetchedGroups issues pulls)).times := by
    intro shown
    obtain ⟨cursor, upTo, saves⟩ := exists_saved shown older
    have some : fetchedGroups issues pulls ≠ [] := List.ne_nil_of_mem
      (mem_fetchedGroups.mpr (.inl ⟨issue, member, standalone, rfl⟩))
    obtain ⟨window, settled, kept⟩ := (never _ _ (chunkWindows_whole some) [] _ [] rfl false none
      false none cursor saves).2 issue member standalone upTo
    rw [List.mem_singleton.mp settled] at kept
    exact hidden kept
  obtain ⟨front, group, back, groups, canEnd, own⟩ := shown.resolve_left whole
  have shows := times_subset [group] back own
  have some : front ≠ [] := by
    rintro rfl
    rw [groups] at whole
    exact whole shows
  obtain ⟨bound, more, behind, rest, rfl, chunked⟩ := exists_windows groups some canEnd
  obtain ⟨cursor, upTo, saves⟩ := exists_saved (times_subset [group] more own) older
  obtain ⟨window, settled, kept⟩ := (never bound _ chunked [_] _ rest rfl false none false none
    cursor saves).2 issue member standalone upTo
  rcases List.mem_cons.mp settled with rfl | second
  · -- The first window keeps what one window for everything keeps.
    rw [groups, assemble, List.flatMap_append, List.foldl_append] at hidden
    exact hidden (subset_foldl_keepFirst kept)
  · rw [List.mem_singleton.mp second] at kept
    obtain ⟨other, here, within⟩ := List.mem_flatMap.mp
      ((mem_foldl_keepFirst kept).resolve_left List.not_mem_nil)
    have fetched : ∀ group' ∈ group :: more, group' ∈ fetchedGroups issues pulls := by
      intro group' listed
      rw [groups, ← List.cons_append]
      exact List.mem_append_right _ (List.mem_append_left _ listed)
    have least : group.sortKey ≤ other.sortKey := by
      rcases List.mem_cons.mp here with rfl | later
      · exact le_refl _
      · exact sortKey_le groups (List.mem_append_left _ later)
    rw [eq_issueGroup (fetched other here) within standalone] at least
    have upTo := times_le_sortKey (fetched group List.mem_cons_self) own
    exact absurd (lt_of_lt_of_le older (le_trans upTo least)) (lt_irrefl _)

/-- A pull that is older than the first rows before it is in a later window under some bound. -/
theorem NeverStrands.pullsInTime (never : NeverStrands issues pulls) :
    PullsInTime (fun groups time => time ∈ (assemble groups).times) issues pulls := by
  intro front pull back groups apart canEnd time shown
  by_contra older
  rw [not_le] at older
  have some : front ≠ [] := by
    rintro rfl
    cases shown
  obtain ⟨bound, more, behind, rest, -, chunked⟩ := exists_windows groups some canEnd
  obtain ⟨cursor, upTo, saves⟩ := exists_saved shown older
  obtain ⟨window, settled, found⟩ := (never bound _ chunked [] _ _ rfl false none false none
    cursor saves).1 pull (mem_pulls (mem_of_split groups)) upTo
  rw [List.mem_singleton.mp settled] at found
  have fetched : front ⊆ fetchedGroups issues pulls := by
    rw [groups]
    exact List.subset_append_left _ _
  exact apart (mem_assemble_pull fetched found)

/-! ## The exact condition -/

/-- Where every issue has one version, a window shows what its groups show. -/
theorem OneVersion.shows (one : OneVersion issues pulls)
    (groups : fetchedGroups issues pulls = front ++ back) (shown : MayShow pulls front time) :
    time ∈ (assemble front).times := by
  rcases shown with whole | ⟨first, group, rest, rfl, -, own⟩
  · exact whole
  · have here : group ∈ first ++ group :: rest := List.mem_append_right _ List.mem_cons_self
    rcases List.mem_append.mp own with row | row
    · obtain ⟨issue, kept, rfl⟩ := List.mem_map.mp row
      have within := (mem_foldl_keepFirst kept).resolve_left List.not_mem_nil
      rw [List.flatMap_singleton] at within
      obtain ⟨same, kept', named⟩ : ∃ same ∈ (assemble (first ++ group :: rest)).1,
          same.identity = issue.identity :=
        name_foldl_keepFirst (.inr (List.mem_flatMap.mpr ⟨group, here, within⟩))
      have listed := (mem_foldl_keepFirst kept').resolve_left List.not_mem_nil
      have fetched : ∀ row ∈ (first ++ group :: rest).flatMap Group.issues,
          row ∈ (fetchedGroups issues pulls).flatMap Group.issues := by
        intro row listed
        rw [groups, List.flatMap_append]
        exact List.mem_append_left _ listed
      rw [← one same (fetched same listed) issue
        (fetched issue (List.mem_flatMap.mpr ⟨group, here, within⟩)) named]
      exact List.mem_append_left _ (List.mem_map_of_mem kept')
    · obtain ⟨pull, kept, rfl⟩ := List.mem_map.mp row
      obtain ⟨only, isGroup, listed⟩ := List.mem_flatMap.mp kept
      rw [List.mem_singleton.mp isGroup] at listed
      exact List.mem_append_right _ (List.mem_map_of_mem
        (List.mem_flatMap.mpr ⟨group, here, listed⟩))

end Fetch

/-- **When the cursor strands no row.** It strands none where pulls and repeated rows are in time,
in every fetch. The repeated rows have to be, and so have the pulls, as far as the first rows of
the issues before them go; where every issue has one version these are all rows. -/
theorem neverStrands_iff (issues : List GhIssue) (pulls : List GhPull) :
    (CursorSafe issues pulls → NeverStrands issues pulls) ∧
    (NeverStrands issues pulls → RepeatsInTime issues pulls ∧
      PullsInTime (fun groups time => time ∈ (assemble groups).times) issues pulls) ∧
    (OneVersion issues pulls → (NeverStrands issues pulls ↔ CursorSafe issues pulls)) := by
  refine ⟨CursorSafe.neverStrands, fun never => ⟨never.repeatsInTime, never.pullsInTime⟩,
    fun one => ⟨fun never => ⟨?_, never.repeatsInTime⟩, CursorSafe.neverStrands⟩⟩
  intro front pull back groups apart canEnd time shown
  exact never.pullsInTime front pull back groups apart canEnd time (one.shows groups shown)

/-- An issue with nothing but its number and its time. -/
def bareIssue (number : ℕ) (updatedAt : String) : GhIssue where
  number := number
  title := ""
  body := ""
  url := ""
  updatedAt := updatedAt
  closedAt := ""
  state := "open"
  author := ""
  labels := []
  repo := none

theorem bareIssue_not_carried (pulls : List GhPull) (updatedAt : String) :
    (bareIssue (((carried pulls).map Prod.snd).sum + 1) updatedAt).identity ∉ carried pulls := by
  intro named
  have most := List.le_sum_of_mem (List.mem_map_of_mem (f := Prod.snd) named)
  exact absurd most (Nat.not_succ_le_self _)

/-- A pull of the second that closes an issue of the third. -/
def stalePull : GhPull where
  number := 5
  title := ""
  body := ""
  url := ""
  createdAt := ""
  updatedAt := "2026-09-02T00:00:00Z"
  closedAt := ""
  state := "open"
  author := ""
  headBranch := ""
  baseBranch := ""
  closing := [bareIssue 77 "2026-09-03T00:00:00Z"]

/-- The cursor of the first window is noon of the second, and the pull is in the second window. -/
theorem not_neverStrands :
    ¬ ∀ (issues : List GhIssue) (pulls : List GhPull), NeverStrands issues pulls := by
  intro always
  have never := always [bareIssue 2 "2026-09-02T12:00:00Z"] [stalePull] 2
    [([bareIssue 2 "2026-09-02T12:00:00Z"], []),
      ([bareIssue 77 "2026-09-03T00:00:00Z"], [stalePull])] (by decide +kernel) []
    ([bareIssue 2 "2026-09-02T12:00:00Z"], []) _ rfl false none false none "2026-09-02T12:00:00Z"
    (by decide +kernel)
  obtain ⟨window, settled, found⟩ := never.1 stalePull (List.mem_singleton.mpr rfl)
    (by decide +kernel)
  rw [List.mem_singleton.mp settled] at found
  cases found

end Exocortex
