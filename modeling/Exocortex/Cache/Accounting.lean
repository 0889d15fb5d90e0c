import Exocortex.Cache.Admission
import Exocortex.Library.Sums

/-!
# The books of the cache

`LocalCache.Accounted` says what the queues are for: their bytes are those of the graphs that are
resident, each of these is in one of the two queues and no other organization is, and the bytes
are within the budget.

Three things go past the books. A graph that the writer drops stays in its queue and is counted on;
an organization without a graph that is touched enters a queue; and the second queue, when it is
full, pushes an organization out whose graph stays. `Counts` names the calls that do none of this,
and the books are in order all along a list of calls exactly when all of them are of this kind
(`accounted_along_iff`).
-/

namespace Exocortex

open Library

namespace TwoQState

variable {tq : TwoQState} {org other : String}

/-- An organization is in one of the queues. -/
def Holds (tq : TwoQState) (org : String) : Prop := org ∈ tq.a1in ∨ tq.am.peek org ≠ none

/-- No organization is in two places. -/
structure Separate (tq : TwoQState) : Prop where
  once : tq.a1in.Nodup
  apart : ∀ org ∈ tq.a1in, tq.am.peek org = none
  ghosts : ∀ org, tq.Holds org → tq.a1out.peek org = none

/-- An organization that would enter the second queue finds it not full. -/
def RoomFor (tq : TwoQState) (org : String) : Prop :=
  tq.am.peek org = none → org ∈ tq.a1in ∨ tq.a1out.peek org ≠ none →
    tq.am.entries.length < tq.am.cap

end TwoQState

namespace LocalCache

open TwoQState

variable {tq : TwoQState} {org other : String}

/-! ## Entering a queue -/

theorem enqueue_cases (tq : TwoQState) (org : String) :
    (tq.am.peek org ≠ none ∧ enqueue tq org = { tq with am := tq.am.put org () }) ∨
    (tq.am.peek org = none ∧ tq.a1out.peek org ≠ none ∧
      enqueue tq org = { tq with am := tq.am.put org (), a1out := tq.a1out.pop org }) ∨
    (tq.am.peek org = none ∧ tq.a1out.peek org = none ∧ org ∈ tq.a1in ∧
      enqueue tq org = { tq with a1in := tq.a1in.filter (· ≠ org), am := tq.am.put org () }) ∨
    (tq.am.peek org = none ∧ tq.a1out.peek org = none ∧ org ∉ tq.a1in ∧
      enqueue tq org = { tq with a1in := tq.a1in ++ [org] }) := by
  unfold enqueue
  by_cases met : tq.am.peek org = none
  · by_cases ghost : tq.a1out.peek org = none
    · by_cases first : org ∈ tq.a1in
      · simp [met, ghost, first]
      · simp [met, ghost, first]
    · obtain ⟨_, found⟩ := Option.ne_none_iff_exists'.mp ghost
      simp [met, found]
  · obtain ⟨_, found⟩ := Option.ne_none_iff_exists'.mp met
    simp [found]

theorem enqueue_bytes : (enqueue tq org).bytes = tq.bytes := by
  rcases enqueue_cases tq org with ⟨_, same⟩ | ⟨_, _, same⟩ | ⟨_, _, _, same⟩ | ⟨_, _, _, same⟩ <;>
    rw [same]

theorem peek_put_ne_none (lru : Lru String Unit) : (lru.put org ()).peek org ≠ none := by
  rw [Lru.peek_put_self]
  exact Option.some_ne_none _

theorem enqueue_self : (enqueue tq org).Holds org := by
  rcases enqueue_cases tq org with ⟨_, same⟩ | ⟨_, _, same⟩ | ⟨_, _, _, same⟩ | ⟨_, _, _, same⟩ <;>
    rw [same]
  · exact .inr (peek_put_ne_none _)
  · exact .inr (peek_put_ne_none _)
  · exact .inr (peek_put_ne_none _)
  · exact .inl (by simp)

/-- A write of the second queue shows what was there before. -/
theorem peek_put_imp {lru : Lru String Unit} (after : (lru.put org ()).peek other ≠ none) :
    other = org ∨ lru.peek other ≠ none := by
  by_cases same : other = org
  · exact .inl same
  · obtain ⟨_, found⟩ := Option.ne_none_iff_exists'.mp after
    exact .inr (by rw [Lru.peek_put_other same found]; exact Option.some_ne_none _)

theorem enqueue_imp (after : (enqueue tq org).Holds other) : other = org ∨ tq.Holds other := by
  rcases enqueue_cases tq org with ⟨_, same⟩ | ⟨_, _, same⟩ | ⟨_, _, _, same⟩ | ⟨_, _, _, same⟩ <;>
    rw [same] at after
  · rcases after with first | met
    · exact .inr (.inl first)
    · exact (peek_put_imp met).imp_right .inr
  · rcases after with first | met
    · exact .inr (.inl first)
    · exact (peek_put_imp met).imp_right .inr
  · rcases after with first | met
    · exact .inr (.inl (List.mem_of_mem_filter first))
    · exact (peek_put_imp met).imp_right .inr
  · rcases after with first | met
    · rcases List.mem_append.mp first with old | new
      · exact .inr (.inl old)
      · exact .inl (List.mem_singleton.mp new)
    · exact .inr (.inr met)

/-- What is not in the second queue and is not written there is not in it after the write. -/
theorem peek_put_eq_none {lru : Lru String Unit} (apart : other ≠ org)
    (absent : lru.peek other = none) : (lru.put org ()).peek other = none := by
  by_contra present
  exact (peek_put_imp present).elim apart (absurd absent)

theorem separate_enqueue (separate : tq.Separate) (org : String) : (enqueue tq org).Separate := by
  have ghosts : ∀ {lru : Lru String Unit},
      (∀ other, other ≠ org → lru.peek other = tq.a1out.peek other) → lru.peek org = none →
      ∀ other, (enqueue tq org).Holds other → lru.peek other = none := by
    intro lru others gone other held
    by_cases same : other = org
    · exact same ▸ gone
    · rw [others other same]
      exact separate.ghosts other ((enqueue_imp held).resolve_left same)
  rcases enqueue_cases tq org with
    ⟨met, same⟩ | ⟨absent, ghost, same⟩ | ⟨_, ghost, first, same⟩ | ⟨absent, ghost, fresh, same⟩ <;>
    rw [same] at ghosts ⊢
  · refine ⟨separate.once, fun other first => ?_,
      ghosts (fun _ _ => rfl) (separate.ghosts org (.inr met))⟩
    refine peek_put_eq_none ?_ (separate.apart other first)
    rintro rfl
    exact met (separate.apart other first)
  · refine ⟨separate.once, fun other first => ?_, ghosts (fun other apart => ?_) ?_⟩
    · refine peek_put_eq_none ?_ (separate.apart other first)
      rintro rfl
      exact ghost (separate.ghosts other (.inl first))
    · rw [Lru.peek_pop, if_neg apart]
    · rw [Lru.peek_pop, if_pos rfl]
  · refine ⟨separate.once.filter _, fun other left => ?_, ghosts (fun _ _ => rfl) ghost⟩
    obtain ⟨first, apart⟩ := List.mem_filter.mp left
    exact peek_put_eq_none (of_decide_eq_true apart) (separate.apart other first)
  · refine ⟨?_, fun other first => ?_, ghosts (fun _ _ => rfl) ghost⟩
    · refine List.nodup_append.mpr ⟨separate.once, List.nodup_singleton _, ?_⟩
      rintro _ first _ only rfl
      exact fresh (List.mem_singleton.mp only ▸ first)
    · rcases List.mem_append.mp first with old | new
      · exact separate.apart other old
      · exact List.mem_singleton.mp new ▸ absent

/-- With room, whatever was in a queue is in one. -/
theorem enqueue_keeps (room : tq.RoomFor org) (held : tq.Holds other) :
    (enqueue tq org).Holds other := by
  by_cases self : other = org
  · exact self ▸ enqueue_self
  · rcases enqueue_cases tq org with
      ⟨met, same⟩ | ⟨absent, ghost, same⟩ | ⟨absent, _, first, same⟩ | ⟨_, _, _, same⟩ <;> rw [same]
    · refine held.imp_right fun there => ?_
      rwa [Lru.peek_put_of_room (.inl met) () self]
    · refine held.imp_right fun there => ?_
      rwa [Lru.peek_put_of_room (.inr (room absent (.inr ghost))) () self]
    · refine held.imp (fun old => List.mem_filter.mpr ⟨old, decide_eq_true self⟩) fun there => ?_
      rwa [Lru.peek_put_of_room (.inr (room absent (.inl first))) () self]
    · exact held.imp_left fun old => List.mem_append_left _ old

/-- Without room, another organization is in no queue any more. -/
theorem enqueue_pushes (separate : tq.Separate) (full : ¬ tq.RoomFor org) :
    ∃ other, other ≠ org ∧ tq.Holds other ∧ ¬ (enqueue tq org).Holds other := by
  simp only [RoomFor, Classical.not_imp] at full
  obtain ⟨absent, enters, full⟩ := full
  obtain ⟨other, held, before, after⟩ := Lru.exists_pushed_out
    (not_or.mpr ⟨not_not.mpr absent, full⟩) ()
  have there : tq.am.peek other ≠ none := by
    rw [before]
    exact Option.some_ne_none _
  have second : ∀ {a1in : List String}, a1in ⊆ tq.a1in → other ∉ a1in :=
    fun within first => there (separate.apart other (within first))
  refine ⟨other, ?_, .inr there, ?_⟩
  · rintro rfl
    exact there absent
  · rcases enqueue_cases tq org with
      ⟨met, _⟩ | ⟨_, _, same⟩ | ⟨_, _, _, same⟩ | ⟨_, ghost, fresh, _⟩
    · exact absurd absent met
    · rw [same]
      exact not_or.mpr ⟨second (List.Subset.refl _), not_not.mpr after⟩
    · rw [same]
      exact not_or.mpr ⟨second (List.filter_subset_self _), not_not.mpr after⟩
    · exact absurd enters (not_or.mpr ⟨fresh, not_not.mpr ghost⟩)

/-! ## Making room -/

variable {cache : LocalCache}

/-- The books are balanced: the bytes are those of the resident graphs, and these are the
organizations in the queues. -/
structure Balanced (cache : LocalCache) : Prop where
  bytes : cache.tq.bytes = Table.total CachedSnapshot.estBytes cache.graphs
  resident_iff : ∀ org, org ∈ cache.graphs ↔ cache.tq.Holds org

/-- What a round does: nothing, within the budget or with empty queues; or it drops an
organization that it takes out of its queue. -/
theorem evictRound_cases (cache : LocalCache) :
    (cache.evictRound = cache ∧ (cache.tq.bytes ≤ cache.budget ∨
      cache.tq.a1in = [] ∧ cache.tq.am.entries = [])) ∨
    (∃ evicted a1in, cache.tq.a1in = evicted :: a1in ∧ cache.evictRound =
      { cache with tq := { cache.tq with
        a1in := a1in
        a1out := cache.tq.a1out.put evicted () } }.drop evicted) ∨
    (∃ evicted, cache.tq.a1in = [] ∧ cache.tq.am.peek evicted ≠ none ∧
      cache.tq.am.entries ≠ [] ∧ cache.evictRound =
        { cache with tq := { cache.tq with am := cache.tq.am.pop evicted } }.drop evicted) := by
  unfold evictRound
  split
  · next within => exact .inl ⟨rfl, .inl within⟩
  · cases queued : cache.tq.a1in with
    | cons evicted a1in => exact .inr (.inl ⟨evicted, a1in, rfl, rfl⟩)
    | nil =>
        cases popped : cache.tq.am.popLru with
        | none => exact .inl ⟨rfl, .inr ⟨rfl, Lru.popLru_eq_none.mp popped⟩⟩
        | some pair =>
            obtain ⟨there, rest⟩ := Lru.peek_popLru popped
            refine .inr (.inr ⟨pair.1.1, rfl, ?_, ?_, ?_⟩)
            · rw [there]
              exact Option.some_ne_none _
            · intro empty
              rw [Lru.popLru_eq_none.mpr empty] at popped
              cases popped
            · rw [← rest]

variable {evicted : String}

/-- An organization leaves its queue and no other one does. -/
theorem holds_evicted {a1in : List String} (separate : cache.tq.Separate)
    (first : cache.tq.a1in = evicted :: a1in) (lru : Lru String Unit) (bytes : ℕ) :
    TwoQState.Holds ⟨a1in, cache.tq.am, lru, bytes⟩ org ↔ cache.tq.Holds org ∧ org ≠ evicted := by
  have once := separate.once
  have apart := separate.apart evicted (first ▸ List.mem_cons_self)
  rw [first] at once
  obtain ⟨fresh, _⟩ := List.nodup_cons.mp once
  simp only [TwoQState.Holds, first, List.mem_cons]
  constructor
  · rintro (there | met)
    · exact ⟨.inl (.inr there), fun same => fresh (same ▸ there)⟩
    · exact ⟨.inr met, fun same => met (same ▸ apart)⟩
  · rintro ⟨(same | there) | met, other⟩
    · exact absurd same other
    · exact .inl there
    · exact .inr met

theorem holds_popped (empty : cache.tq.a1in = []) (lru : Lru String Unit) (bytes : ℕ) :
    TwoQState.Holds ⟨cache.tq.a1in, cache.tq.am.pop evicted, lru, bytes⟩ org ↔
      cache.tq.Holds org ∧ org ≠ evicted := by
  simp only [TwoQState.Holds, empty, List.not_mem_nil, false_or, Lru.peek_pop]
  split
  · next same => simp [same]
  · next apart => simp [apart]

theorem separate_evictRound (separate : cache.tq.Separate) : cache.evictRound.tq.Separate := by
  rcases cache.evictRound_cases with
    ⟨same, _⟩ | ⟨evicted, a1in, first, same⟩ | ⟨evicted, empty, there, _, same⟩
  · rw [same]
    exact separate
  · rw [same]
    have once := separate.once
    rw [first] at once
    refine ⟨(List.nodup_cons.mp once).2, fun other listed => ?_, fun other held => ?_⟩
    · exact separate.apart other (first ▸ List.mem_cons_of_mem _ listed)
    · obtain ⟨before, apart⟩ := (holds_evicted separate first _ _).mp held
      exact peek_put_eq_none apart (separate.ghosts other before)
  · rw [same]
    refine ⟨separate.once, fun other listed => ?_, fun other held => ?_⟩
    · change other ∈ cache.tq.a1in at listed
      rw [empty] at listed
      cases listed
    · exact separate.ghosts other ((holds_popped empty _ _).mp held).1

theorem balanced_drop (balanced : cache.Balanced) (there : cache.tq.Holds evicted)
    (bytes : tq.bytes = cache.tq.bytes)
    (left : ∀ org, tq.Holds org ↔ cache.tq.Holds org ∧ org ≠ evicted) :
    ({ cache with tq := tq }.drop evicted).Balanced := by
  have resident := (balanced.resident_iff evicted).mpr there
  obtain ⟨graph, found⟩ := Option.isSome_iff_exists.mp (AList.lookup_isSome.mpr resident)
  have erased := Table.total_erase CachedSnapshot.estBytes found
  have before := balanced.bytes
  constructor
  · simp only [drop, found, bytes]
    omega
  · intro org
    simp only [drop]
    rw [AList.mem_erase, balanced.resident_iff, and_comm]
    exact (left org).symm

theorem balanced_evictRound (separate : cache.tq.Separate) (balanced : cache.Balanced) :
    cache.evictRound.Balanced := by
  rcases cache.evictRound_cases with
    ⟨same, _⟩ | ⟨evicted, a1in, first, same⟩ | ⟨evicted, empty, there, _, same⟩
  · rw [same]
    exact balanced
  · rw [same]
    exact balanced_drop balanced (.inl (first ▸ List.mem_cons_self)) rfl
      fun org => holds_evicted separate first _ _
  · rw [same]
    exact balanced_drop balanced (.inr there) rfl fun org => holds_popped empty _ _

/-- The graph of an organization is there, and it is in no queue. -/
def Lost (cache : LocalCache) (org : String) : Prop := org ∈ cache.graphs ∧ ¬ cache.tq.Holds org

theorem lost_evictRound (separate : cache.tq.Separate) (lost : cache.Lost org) :
    cache.evictRound.Lost org := by
  have kept : ∀ {tq : TwoQState} {evicted : String}, cache.tq.Holds evicted →
      (∀ org, tq.Holds org ↔ cache.tq.Holds org ∧ org ≠ evicted) →
      ({ cache with tq := tq }.drop evicted).Lost org := by
    intro tq evicted there left
    refine ⟨AList.mem_erase.mpr ⟨?_, lost.1⟩, fun held => lost.2 ((left org).mp held).1⟩
    rintro rfl
    exact lost.2 there
  rcases cache.evictRound_cases with
    ⟨same, _⟩ | ⟨evicted, a1in, first, same⟩ | ⟨evicted, empty, there, _, same⟩
  · rw [same]
    exact lost
  · rw [same]
    exact kept (.inl (first ▸ List.mem_cons_self)) fun org => holds_evicted separate first _ _
  · rw [same]
    exact kept (.inr there) fun org => holds_popped empty _ _

/-- A cache is within its budget, or its queues are empty. -/
def Over (cache : LocalCache) : Prop :=
  cache.tq.bytes ≤ cache.budget ∨ cache.tq.a1in = [] ∧ cache.tq.am.entries = []

theorem evictRound_of_over (done : cache.Over) : cache.evictRound = cache := by
  unfold evictRound
  rcases done with within | ⟨first, second⟩
  · rw [if_pos within]
  · have none := Lru.popLru_eq_none.mpr second
    simp only [first, none, ite_self]

/-- The organizations in the queues. -/
def queued (cache : LocalCache) : ℕ := cache.tq.a1in.length + cache.tq.am.entries.length

theorem evictRound_progress (cache : LocalCache) :
    cache.evictRound.budget = cache.budget ∧
      (cache.Over ∨ cache.evictRound.queued < cache.queued) := by
  rcases cache.evictRound_cases with
    ⟨same, done⟩ | ⟨evicted, a1in, first, same⟩ | ⟨evicted, empty, there, _, same⟩
  · exact ⟨by rw [same], .inl done⟩
  · rw [same]
    refine ⟨rfl, .inr ?_⟩
    simp only [queued, drop, first, List.length_cons]
    omega
  · rw [same]
    refine ⟨rfl, .inr ?_⟩
    have shorter : (cache.tq.am.pop evicted).entries.length < cache.tq.am.entries.length := by
      obtain ⟨_, found⟩ := Option.ne_none_iff_exists'.mp there
      exact List.length_filter_lt_length_iff_exists.mpr
        ⟨_, Lru.peek_eq_some_iff.mp found, by simp⟩
    simp only [queued, drop]
    omega

/-- **After as many rounds as organizations in the queues, room is made.** -/
theorem evictAll_over (cache : LocalCache) :
    cache.evictAll.Over ∧ cache.evictAll.budget = cache.budget := by
  have rounds : ∀ n, (evictRound^[n] cache).budget = cache.budget ∧
      ((evictRound^[n] cache).Over ∨ (evictRound^[n] cache).queued + n ≤ cache.queued) := by
    intro n
    induction n with
    | zero => exact ⟨rfl, .inr le_rfl⟩
    | succ n ih =>
        obtain ⟨kept, done⟩ := (evictRound^[n] cache).evictRound_progress
        rw [Function.iterate_succ_apply']
        refine ⟨kept.trans ih.1, ?_⟩
        rcases done with ended | less
        · exact .inl ((evictRound_of_over ended).symm ▸ ended)
        · rcases ih.2 with ended | few
          · exact .inl ((evictRound_of_over ended).symm ▸ ended)
          · exact .inr (by omega)
  obtain ⟨kept, ended | few⟩ := rounds cache.queued
  · exact ⟨ended, kept⟩
  · refine ⟨.inr ?_, kept⟩
    have none : (evictRound^[cache.queued] cache).queued = 0 := by omega
    obtain ⟨first, second⟩ := Nat.add_eq_zero_iff.mp none
    exact ⟨List.length_eq_zero_iff.mp first, List.length_eq_zero_iff.mp second⟩

theorem separate_evictAll (separate : cache.tq.Separate) : cache.evictAll.tq.Separate :=
  Function.Iterate.rec (fun cache : LocalCache => cache.tq.Separate) separate
    (fun _ kept => separate_evictRound kept) _

theorem balanced_evictAll (separate : cache.tq.Separate) (balanced : cache.Balanced) :
    cache.evictAll.Balanced :=
  (Function.Iterate.rec (fun cache : LocalCache => cache.tq.Separate ∧ cache.Balanced)
    ⟨separate, balanced⟩
    (fun _ kept => ⟨separate_evictRound kept.1, balanced_evictRound kept.1 kept.2⟩) _).2

theorem lost_evictAll (separate : cache.tq.Separate) (lost : cache.Lost org) :
    cache.evictAll.Lost org :=
  (Function.Iterate.rec (fun cache : LocalCache => cache.tq.Separate ∧ cache.Lost org)
    ⟨separate, lost⟩
    (fun _ kept => ⟨separate_evictRound kept.1, lost_evictRound kept.1 kept.2⟩) _).2

theorem evictAll_of_within (within : cache.tq.bytes ≤ cache.budget) : cache.evictAll = cache :=
  Function.iterate_fixed (evictRound_of_over (.inl within)) _

/-! ## The books -/

/-- **The books are in order**: the bytes are those of the resident graphs, each of these is in
one of the two queues, no other organization is in one, and the bytes are within the budget or
nothing is resident. -/
structure Accounted (cache : LocalCache) : Prop where
  bytes : cache.tq.bytes = Table.total CachedSnapshot.estBytes cache.graphs
  one_queue : ∀ org ∈ cache.graphs, Xor (org ∈ cache.tq.a1in) (cache.tq.am.peek org ≠ none)
  no_other : ∀ org, org ∉ cache.graphs → org ∉ cache.tq.a1in ∧ cache.tq.am.peek org = none
  bounded : Table.total CachedSnapshot.estBytes cache.graphs ≤ cache.budget ∨
    ∀ org, org ∉ cache.graphs

theorem accounted_iff (separate : cache.tq.Separate) : cache.Accounted ↔ cache.Balanced ∧
    (Table.total CachedSnapshot.estBytes cache.graphs ≤ cache.budget ∨
      ∀ org, org ∉ cache.graphs) := by
  constructor
  · intro accounted
    refine ⟨⟨accounted.bytes, fun org => ⟨fun resident => ?_, fun held => ?_⟩⟩, accounted.bounded⟩
    · exact (accounted.one_queue org resident).imp And.left And.left
    · by_contra absent
      obtain ⟨first, second⟩ := accounted.no_other org absent
      exact held.elim first (absurd second)
  · rintro ⟨balanced, bounded⟩
    refine ⟨balanced.bytes, fun org resident => ?_, fun org absent => ?_, bounded⟩
    · rcases (balanced.resident_iff org).mp resident with first | second
      · exact .inl ⟨first, not_not.mpr (separate.apart org first)⟩
      · exact .inr ⟨second, fun first => second (separate.apart org first)⟩
    · obtain ⟨first, second⟩ := not_or.mp (mt (balanced.resident_iff org).mpr absent)
      exact ⟨first, not_not.mp second⟩

/-- An empty table has no bytes, so that books in order are within the budget. -/
theorem Accounted.within (accounted : cache.Accounted) : cache.tq.bytes ≤ cache.budget := by
  rw [accounted.bytes]
  rcases accounted.bounded with within | none
  · exact within
  · have empty : cache.graphs = ∅ := AList.ext (List.eq_nil_iff_forall_not_mem.mpr
      fun entry listed => none entry.1 (List.mem_keys_of_mem listed))
    rw [empty, Table.total_empty]
    exact Nat.zero_le _

theorem not_accounted_of_lost (separate : cache.tq.Separate) (lost : cache.Lost org) :
    ¬ cache.Accounted := by
  intro accounted
  have balanced := ((accounted_iff separate).mp accounted).1
  exact lost.2 ((balanced.resident_iff org).mp lost.1)

/-- A cache before an admission: the books are in order, but that the organization to be admitted
may be in no queue yet and its bytes may be too many. -/
structure Admissible (cache : LocalCache) (org : String) : Prop where
  bytes : cache.tq.bytes = Table.total CachedSnapshot.estBytes cache.graphs
  resident : org ∈ cache.graphs
  others : ∀ other, other ≠ org → (other ∈ cache.graphs ↔ cache.tq.Holds other)

/-- **An admission keeps the books in order exactly when the organization finds room.** -/
theorem admit_accounted_iff (separate : cache.tq.Separate) (ready : cache.Admissible org) :
    (cache.admitOrg org).Accounted ↔ cache.tq.RoomFor org := by
  have separate' : (enqueue cache.tq org).Separate := separate_enqueue separate org
  constructor
  · intro accounted
    by_contra full
    obtain ⟨other, apart, held, pushed⟩ := enqueue_pushes separate full
    have lost : ({ cache with tq := enqueue cache.tq org } : LocalCache).Lost other :=
      ⟨(ready.others other apart).mpr held, pushed⟩
    exact not_accounted_of_lost (separate_evictAll separate') (lost_evictAll separate' lost)
      accounted
  · intro room
    have balanced : ({ cache with tq := enqueue cache.tq org } : LocalCache).Balanced := by
      refine ⟨enqueue_bytes.trans ready.bytes, fun other => ?_⟩
      by_cases same : other = org
      · rw [same]
        exact iff_of_true ready.resident enqueue_self
      · refine (ready.others other same).trans ⟨enqueue_keeps room, fun held => ?_⟩
        exact (enqueue_imp held).resolve_left same
    have after := balanced_evictAll separate' balanced
    refine (accounted_iff (separate_evictAll separate')).mpr ⟨after, ?_⟩
    obtain ⟨ended, _⟩ := evictAll_over { cache with tq := enqueue cache.tq org }
    rcases ended with within | ⟨first, second⟩
    · exact .inl (after.bytes ▸ within)
    · refine .inr fun other resident => ?_
      rcases (after.resident_iff other).mp resident with listed | met
      · rw [first] at listed
        cases listed
      · exact met (Lru.peek_eq_none_iff.mpr fun entry listed => by
          rw [second] at listed
          cases listed)

/-! ## The calls -/

variable {toLowercase : String → String}

/-- What is counted for the graph of an organization. -/
def bytesOf (cache : LocalCache) (org : String) : ℕ :=
  ((cache.graphs.lookup org).map (·.estBytes)).getD 0

theorem estBytes_graphOf (cache : LocalCache) (org : String) :
    (cache.graphOf org).estBytes = cache.bytesOf org := by
  unfold graphOf bytesOf
  cases cache.graphs.lookup org <;> rfl

theorem total_store (cache : LocalCache) (org : String) (snapshot : CachedSnapshot) :
    Table.total CachedSnapshot.estBytes (cache.graphs.insert org snapshot) + cache.bytesOf org =
        Table.total CachedSnapshot.estBytes cache.graphs + snapshot.estBytes ∧
      cache.bytesOf org ≤ Table.total CachedSnapshot.estBytes cache.graphs := by
  unfold bytesOf
  cases found : cache.graphs.lookup org with
  | none => exact ⟨Table.total_insert_new _ found _, Nat.zero_le _⟩
  | some old => exact ⟨Table.total_insert _ found _, Table.le_total CachedSnapshot.estBytes found⟩

/-- A graph that is stored and counted may be admitted. -/
theorem Accounted.stored (accounted : cache.Accounted) (separate : cache.tq.Separate)
    {snapshot : CachedSnapshot} {bytes : ℕ}
    (counted : bytes + cache.bytesOf org = cache.tq.bytes + snapshot.estBytes) :
    ({ cache with
      tq := { cache.tq with bytes := bytes }
      graphs := cache.graphs.insert org snapshot } : LocalCache).Admissible org := by
  have balanced := ((accounted_iff separate).mp accounted).1
  obtain ⟨stored, _⟩ := cache.total_store org snapshot
  have before := balanced.bytes
  refine ⟨?_, (AList.mem_insert _).mpr (.inl rfl), fun other apart => ?_⟩
  · dsimp only
    omega
  · rw [AList.mem_insert, or_iff_right apart]
    exact balanced.resident_iff other

theorem separate_bytes (separate : cache.tq.Separate) (bytes : ℕ) :
    ({ cache.tq with bytes := bytes } : TwoQState).Separate :=
  ⟨separate.once, separate.apart, separate.ghosts⟩

theorem publish_iff (separate : cache.tq.Separate) (accounted : cache.Accounted)
    (snapshot : CachedSnapshot) :
    (cache.publish org snapshot).Accounted ↔ cache.tq.RoomFor org := by
  have within := (cache.total_store org snapshot).2
  have before := accounted.bytes
  refine admit_accounted_iff (separate_bytes separate _) (accounted.stored separate ?_)
  change cache.tq.bytes - cache.bytesOf org + snapshot.estBytes + _ = _
  omega

theorem publishDelta_iff (separate : cache.tq.Separate) (accounted : cache.Accounted)
    (delta : List SnapshotDelta) :
    (cache.publishDelta toLowercase org delta).Accounted ↔ cache.tq.RoomFor org := by
  have within := (cache.total_store org (cache.graphOf org)).2
  have before := accounted.bytes
  refine admit_accounted_iff (separate_bytes separate _) (accounted.stored separate ?_)
  rw [estBytes_graphOf]
  split <;> omega

/-- An organization without a graph that is touched is in a queue all the same. -/
theorem admit_iff (separate : cache.tq.Separate) (accounted : cache.Accounted) :
    (cache.admitOrg org).Accounted ↔ org ∈ cache.graphs ∧ cache.tq.RoomFor org := by
  have balanced := ((accounted_iff separate).mp accounted).1
  by_cases resident : org ∈ cache.graphs
  · rw [and_iff_right resident]
    exact admit_accounted_iff separate
      ⟨accounted.bytes, resident, fun other _ => balanced.resident_iff other⟩
  · refine iff_of_false (fun after => ?_) (fun both => resident both.1)
    have same : cache.admitOrg org = { cache with tq := enqueue cache.tq org } := by
      refine evictAll_of_within ?_
      rw [enqueue_bytes]
      exact accounted.within
    rw [same] at after
    obtain ⟨first, second⟩ := after.no_other org resident
    exact enqueue_self.elim first (absurd second)

/-- A graph that is dropped leaves its organization in a queue. -/
theorem evict_iff (accounted : cache.Accounted) :
    (cache.evict org).Accounted ↔ org ∉ cache.graphs := by
  constructor
  · intro after resident
    obtain ⟨first, second⟩ := after.no_other org fun left => (AList.mem_erase.mp left).1 rfl
    rcases accounted.one_queue org resident with ⟨there, _⟩ | ⟨there, _⟩
    · exact first there
    · exact there second
  · intro absent
    have same : cache.evict org = cache := by
      have graphs : cache.graphs.erase org = cache.graphs :=
        AList.ext (List.kerase_of_notMem_keys absent)
      rw [evict, graphs]
    rw [same]
    exact accounted

theorem entry_iff (separate : cache.tq.Separate) (accounted : cache.Accounted) :
    ({ cache with graphs := cache.entry org } : LocalCache).Accounted ↔ org ∈ cache.graphs := by
  unfold entry
  cases found : cache.graphs.lookup org with
  | some graph =>
      exact iff_of_true accounted (AList.lookup_isSome.mp (Option.isSome_of_eq_some found))
  | none =>
      have absent : org ∉ cache.graphs := AList.lookup_eq_none.mp found
      refine iff_of_false ?_ absent
      have balanced := ((accounted_iff separate).mp accounted).1
      refine not_accounted_of_lost separate
        ⟨(AList.mem_insert _).mpr (.inl rfl), fun held => absent ?_⟩
      exact (balanced.resident_iff org).mpr held

/-- The calls that keep the books: what is published finds room in its queue, a graph that is
dropped is not there, what is touched has a graph, and so has what gets no new rows. -/
def Counts (cache : LocalCache) : CacheCall → Prop
  | .publish org _ | .reseed org _ | .hydrateMemory org _ => cache.tq.RoomFor org
  | .evict org => org ∉ cache.graphs
  | .applyBatch org storage invalidations => org ∈ cache.graphs →
      ∀ delta, batchDelta storage invalidations = .ok delta → delta ≠ [] → cache.tq.RoomFor org
  | .applyLocal org memories relationships localLsn =>
      if memories = [] ∧ relationships = [] ∧ localLsn ≤ (cache.graphOf org).lastLocalLsn then
        org ∈ cache.graphs
      else cache.tq.RoomFor org
  | .touchAdmission org => org ∈ cache.graphs ∧ cache.tq.RoomFor org

section Separate

variable (separate : cache.tq.Separate)
include separate

theorem applyBatch_iff (accounted : cache.Accounted) (storage : RowReplies)
    (invalidations : List Invalidation) :
    (cache.applyBatch toLowercase org storage invalidations).Accounted ↔
      cache.Counts (.applyBatch org storage invalidations) := by
  unfold applyBatch
  simp only [Counts]
  cases found : cache.graphs.lookup org with
  | none =>
      exact iff_of_true accounted fun resident => absurd resident (AList.lookup_eq_none.mp found)
  | some graph =>
      rw [imp_iff_right (AList.lookup_isSome.mp (Option.isSome_of_eq_some found))]
      cases batch : batchDelta storage invalidations with
      | error error => exact iff_of_true accounted fun delta impossible => by cases impossible
      | ok delta =>
          dsimp only
          split
          · next none =>
              refine iff_of_true accounted fun other same some => ?_
              cases same
              exact absurd (List.isEmpty_iff.mp none) some
          · next some =>
              rw [publishDelta_iff separate accounted]
              constructor
              · intro room _ _ _
                exact room
              · intro all
                exact all delta rfl fun none => some (List.isEmpty_iff.mpr none)

theorem applyLocal_iff (accounted : cache.Accounted) (memories : List Memory)
    (relationships : List Relationship) (localLsn : ℕ) :
    (cache.applyLocal toLowercase org memories relationships localLsn).Accounted ↔
      cache.Counts (.applyLocal org memories relationships localLsn) := by
  unfold applyLocal
  simp only [Counts, List.isEmpty_iff]
  split
  · exact entry_iff separate accounted
  · exact publishDelta_iff separate accounted _

/-- **A call keeps the books in order exactly when it is one of those that do.** -/
theorem call_accounted_iff (accounted : cache.Accounted) (call : CacheCall) :
    (cache.call toLowercase call).Accounted ↔ cache.Counts call := by
  cases call with
  | publish org snapshot | reseed org snapshot => exact publish_iff separate accounted snapshot
  | evict org => exact evict_iff accounted
  | applyBatch org storage invalidations =>
      exact applyBatch_iff separate accounted storage invalidations
  | applyLocal org memories relationships localLsn =>
      exact applyLocal_iff separate accounted memories relationships localLsn
  | hydrateMemory org memory => exact publishDelta_iff separate accounted _
  | touchAdmission org => exact admit_iff separate accounted

/-! ## Lists of calls -/

theorem separate_admitOrg : (cache.admitOrg org).tq.Separate :=
  separate_evictAll (separate_enqueue separate org)

theorem separate_publishDelta (delta : List SnapshotDelta) :
    (cache.publishDelta toLowercase org delta).tq.Separate :=
  separate_admitOrg (separate_bytes separate _)

/-- No call puts an organization in two places. -/
theorem separate_call (call : CacheCall) : (cache.call toLowercase call).tq.Separate := by
  cases call with
  | publish org snapshot | reseed org snapshot =>
      exact separate_admitOrg (separate_bytes separate _)
  | evict org => exact separate
  | applyBatch org storage invalidations =>
      change (cache.applyBatch toLowercase org storage invalidations).tq.Separate
      unfold applyBatch
      split
      · exact separate
      · split
        · exact separate
        · split
          · exact separate
          · exact separate_publishDelta separate _
  | applyLocal org memories relationships localLsn =>
      change (cache.applyLocal toLowercase org memories relationships localLsn).tq.Separate
      unfold applyLocal
      dsimp only
      split
      · exact separate
      · exact separate_publishDelta separate _
  | hydrateMemory org memory => exact separate_publishDelta separate _
  | touchAdmission org => exact separate_admitOrg separate

end Separate

theorem separate_new (budget : ℕ) : (new budget).tq.Separate :=
  ⟨List.nodup_nil, fun _ listed => absurd listed List.not_mem_nil, fun _ _ => rfl⟩

theorem accounted_new (budget : ℕ) : (new budget).Accounted where
  bytes := rfl
  one_queue org resident := absurd resident (AList.notMem_empty org)
  no_other _ _ := ⟨List.not_mem_nil, rfl⟩
  bounded := .inl (Nat.zero_le _)

/-- The calls on a cache, and the conditions of `Counts` on them. -/
def calls (toLowercase : String → String) : Machine LocalCache CacheCall :=
  ⟨Counts, call toLowercase⟩

/-- **The books are in order all along a list of calls exactly when each call, in the state it
finds, is one of those that keep them.** -/
theorem accounted_along_iff (toLowercase : String → String) (budget : ℕ) (list : List CacheCall) :
    (calls toLowercase).Always Accounted (new budget) list ↔
      (calls toLowercase).Allows (new budget) list :=
  Machine.always_iff_allows (fun _ call separate => separate_call separate call)
    (fun _ call separate accounted => call_accounted_iff separate accounted call)
    (separate_new budget) (accounted_new budget)

/-- Each of these calls publishes an empty graph, of one of five organizations, and then again. -/
def fiveTwice : List CacheCall :=
  ["a", "b", "c", "d", "e", "a", "b", "c", "d", "e"].map fun org => .publish org .empty

/-- A graph that the writer drops stays in its queue; so does an organization without a graph that
is touched; of five organizations that are met again the first is pushed out of the second queue
with its graph resident; and a graph that is made for no rows is in no queue. -/
theorem not_accounted_along :
    ¬ ((calls id).run (new 8192) [.publish "a" .empty, .evict "a"]).Accounted ∧
      ¬ ((calls id).run (new 8192) [.touchAdmission "a"]).Accounted ∧
      ¬ ((calls id).run (new 8192) fiveTwice).Accounted ∧
      ¬ ((calls id).run (new 8192) [.applyLocal "a" [] [] 0]).Accounted := by
  refine ⟨fun accounted => ?_, fun accounted => ?_, fun accounted => ?_, fun accounted => ?_⟩
  · exact absurd (accounted.no_other "a" (by decide +kernel)) (by decide +kernel)
  · exact absurd (accounted.no_other "a" (by decide +kernel)) (by decide +kernel)
  · exact absurd (accounted.one_queue "a" (by decide +kernel)) (by decide +kernel)
  · exact absurd (accounted.one_queue "a" (by decide +kernel)) (by decide +kernel)

end LocalCache

end Exocortex
