import Exocortex.Client.LsnGate
import Exocortex.Library.Runs
import Exocortex.Storage.CallSpecs

/-!
# The change feed under concurrent calls

Calls run their gated sections one at a time, but most of them publish their events
after they have released the gate, and there nothing orders them. A `FeedSystem` is
the store with the events each call in flight has yet to publish, calls in the order
they took the gate. Its steps are the gated section of a call and the publication of
one event of a call in flight, in any order.

A step is `InOrder` when it leaves no hole and overtakes nothing: the call entered is
not wasteful, a call that publishes inside the gate enters only when no event is in
flight, and an event is published only when no earlier call has events left. The feed
is dense exactly under this condition: once all calls have returned, the numbers on
the feed are `1, 2, …, n` for the counter value `n` if and only if every step of the
run was in order.

One direction keeps the numbers of the feed and of the events in flight contiguous
(`Contiguous.step`). The other is read backwards: a feed that ends up dense was a
dense beginning in every earlier state, with no number lost (`Unbroken.back`).
-/

namespace Exocortex

open Library InMemoryStorage

/-- The store, and the events that calls in flight have yet to publish. -/
structure FeedSystem where
  store : InMemoryStorage
  inFlight : List (List Invalidation)

/-- A gated section, or the publication of one event of a call in flight. -/
inductive FeedAction where
  | enter (now : DateTime) (call : Call)
  | publish (caller : ℕ)

namespace FeedSystem

def new : FeedSystem := ⟨.new, []⟩

/-- One step. A call without events left has returned, and takes no more steps. -/
def step (env : Env) (sys : FeedSystem) : FeedAction → FeedSystem
  | .enter now call =>
      let o := call.gated env now sys.store
      ⟨o.post, sys.inFlight ++ [o.pending]⟩
  | .publish caller =>
      match sys.inFlight[caller]? with
      | some (event :: rest) => ⟨sys.store.publish event, sys.inFlight.set caller rest⟩
      | _ => sys

/-- Every call has published its events and returned. -/
def Returned (sys : FeedSystem) : Prop := sys.inFlight.flatten = []

/-- The step takes no number it will not publish, and overtakes no event. -/
def InOrder (sys : FeedSystem) : FeedAction → Prop
  | .enter _ call => ¬ call.Wasteful sys.store ∧ (call.InGate → sys.inFlight.flatten = [])
  | .publish caller =>
      sys.inFlight.getD caller [] ≠ [] → (sys.inFlight.take caller).flatten = []

/-- The calls, with the steps that are in order. -/
def machine (env : Env) : Machine FeedSystem FeedAction where
  allowed := InOrder
  step := step env

/-- The state after a list of steps, in order or not. -/
abbrev run (env : Env) : FeedSystem → List FeedAction → FeedSystem := (machine env).run

/-- Every step of a run is in order. -/
abbrev RunInOrder (env : Env) : FeedSystem → List FeedAction → Prop := (machine env).Allows

/-- The numbers sent on the feed. -/
def sent (sys : FeedSystem) : List ℕ := sys.store.feed.map Invalidation.lsnOf

/-- The numbers in flight, in the order their calls took the gate. -/
def flying (sys : FeedSystem) : List ℕ := sys.inFlight.flatten.map Invalidation.lsnOf

/-! ## What a step does to the numbers -/

/-- What one step does: a wasteful call raises the counter, any other call sends or
leaves in flight exactly the numbers it takes, and a publication moves one number. -/
inductive Moves (sys later : FeedSystem) : FeedAction → Prop where
  | waste {now : DateTime} {call : Call} (wasteful : call.Wasteful sys.store)
      (lsn : later.store.lsn = sys.store.lsn + 1) (sent : later.sent = sys.sent)
      (flying : later.flying = sys.flying) : Moves sys later (.enter now call)
  | inside {now : DateTime} {call : Call} (useful : ¬ call.Wasteful sys.store)
      (inGate : call.InGate) (numbers : List ℕ)
      (rises : sys.store.lsn < later.store.lsn)
      (dense : Dense sys.store.lsn later.store.lsn numbers)
      (sent : later.sent = sys.sent ++ numbers) (flying : later.flying = sys.flying) :
      Moves sys later (.enter now call)
  | after {now : DateTime} {call : Call} (useful : ¬ call.Wasteful sys.store)
      (outside : ¬ call.InGate) (numbers : List ℕ)
      (dense : Dense sys.store.lsn later.store.lsn numbers)
      (sent : later.sent = sys.sent) (flying : later.flying = sys.flying ++ numbers) :
      Moves sys later (.enter now call)
  | idle {caller : ℕ} (returned : sys.inFlight.getD caller [] = []) (same : later = sys) :
      Moves sys later (.publish caller)
  | publish {caller : ℕ} (waiting : sys.inFlight.getD caller [] ≠ []) (before behind : List ℕ)
      (number : ℕ) (lsn : later.store.lsn = sys.store.lsn)
      (earlier : before = (sys.inFlight.take caller).flatten.map Invalidation.lsnOf)
      (sent : later.sent = sys.sent ++ [number])
      (flying : sys.flying = before ++ number :: behind)
      (rest : later.flying = before ++ behind) : Moves sys later (.publish caller)

end FeedSystem

namespace Call

/-- A wasteful call takes one number and publishes nothing. -/
theorem gated_wasteful (env : Env) (now : DateTime) {s : InMemoryStorage} {call : Call}
    (wasteful : call.Wasteful s) :
    (call.gated env now s).post.lsn = s.lsn + 1 ∧ (call.gated env now s).post.feed = s.feed ∧
      (call.gated env now s).pending = [] := by
  cases call with
  | appendAudit audit => exact ⟨rfl, rfl, rfl⟩
  | deleteRelationship id =>
      obtain ⟨post, pending⟩ := deleteRelationship_missing wasteful now
      exact ⟨(congrArg lsn post :), (congrArg feed post :), pending⟩
  | deleteRelationshipAudited id audit =>
      obtain ⟨post, pending⟩ := deleteRelationshipAudited_missing wasteful audit now
      exact ⟨(congrArg lsn post :), (congrArg feed post :), pending⟩
  | _ => cases wasteful

/-- A call that publishes inside the gate takes a number. -/
theorem gated_inGate_rises (env : Env) (now : DateTime) {s : InMemoryStorage} {call : Call}
    (inGate : call.InGate) : s.lsn < (call.gated env now s).post.lsn := by
  cases call with
  | upsertMemory m => exact Nat.lt_succ_self s.lsn
  | upsertRelationship r =>
      change s.lsn < (s.upsertRelationship env r now).post.lsn
      unfold InMemoryStorage.upsertRelationship
      cases env.inverse r with
      | none => exact Nat.lt_succ_self s.lsn
      | some inverse =>
          dsimp only
          split
          · exact Nat.lt_succ_self s.lsn
          · exact Nat.lt_add_of_pos_right (by decide : 0 < 2)
  | deleteRelationship id =>
      change s.lsn < (s.deleteRelationship id now).post.lsn
      unfold InMemoryStorage.deleteRelationship
      cases s.openRelationship id <;> exact Nat.lt_succ_self s.lsn
  | deleteRelationshipAudited id audit =>
      change s.lsn < (s.deleteRelationshipAudited id audit now).post.lsn
      unfold InMemoryStorage.deleteRelationshipAudited
      cases s.openRelationship id <;> exact Nat.lt_succ_self s.lsn
  | _ => cases inGate

end Call

namespace FeedSystem

open Call

theorem step_moves (env : Env) (sys : FeedSystem) (action : FeedAction) :
    Moves sys (sys.step env action) action := by
  cases action with
  | enter now call =>
      by_cases wasteful : call.Wasteful sys.store
      · obtain ⟨lsn, feed, pending⟩ := gated_wasteful env now wasteful
        refine .waste wasteful lsn (congrArg (List.map Invalidation.lsnOf) feed) ?_
        simp [flying, step, pending]
      · obtain ⟨events, feed, inside, after, dense⟩ :=
          (gated_sound env now sys.store call).publishes wasteful
        by_cases inGate : call.InGate
        · have none := inside inGate
          rw [none, List.append_nil] at dense
          refine .inside wasteful inGate _ (gated_inGate_rises env now inGate) dense ?_ ?_
          · simp [sent, step, feed]
          · simp [flying, step, none]
        · have none := after inGate
          rw [none, List.nil_append] at dense
          refine .after wasteful inGate _ dense ?_ ?_
          · simp [sent, step, feed, none]
          · simp [flying, step]
  | publish caller =>
      cases found : sys.inFlight[caller]? with
      | none =>
          refine .idle (by simp [List.getD, found]) ?_
          simp [step, found]
      | some events =>
          cases events with
          | nil =>
              refine .idle (by simp [List.getD, found]) ?_
              simp [step, found]
          | cons event rest =>
              obtain ⟨inside, same⟩ := List.getElem?_eq_some_iff.mp found
              have whole : sys.inFlight.flatten = (sys.inFlight.take caller).flatten ++
                  (event :: rest) ++ (sys.inFlight.drop (caller + 1)).flatten := by
                conv_lhs => rw [← List.take_append_drop caller sys.inFlight,
                  ← List.getElem_cons_drop inside, same]
                simp
              have left : (sys.inFlight.set caller rest).flatten =
                  (sys.inFlight.take caller).flatten ++ rest ++
                    (sys.inFlight.drop (caller + 1)).flatten := by
                rw [List.set_eq_take_append_cons_drop, if_pos inside]
                simp
              obtain ⟨index, state⟩ := foldl_publish [event] sys.store
              have published : sys.store.publish event = { sys.store with
                  relsByNode := index
                  feed := sys.store.feed ++ [event] } := state
              refine .publish (by simp [List.getD, found]) _
                ((rest ++ (sys.inFlight.drop (caller + 1)).flatten).map Invalidation.lsnOf)
                event.lsnOf ?_ rfl ?_ ?_ ?_
              · simp [step, found, published]
              · simp [sent, step, found, published]
              · simp [flying, whole]
              · simp [flying, step, found, left]

/-! ## In order, the numbers stay contiguous -/

/-- The numbers sent and in flight are those taken so far, in order. -/
def Contiguous (sys : FeedSystem) : Prop := Dense 0 sys.store.lsn (sys.sent ++ sys.flying)

variable {sys later : FeedSystem} {action : FeedAction} {actions : List FeedAction}

theorem Contiguous.step (contiguous : sys.Contiguous) (moves : Moves sys later action)
    (inOrder : sys.InOrder action) : later.Contiguous := by
  unfold Contiguous at contiguous ⊢
  cases moves with
  | waste wasteful lsn sent flying => exact absurd wasteful inOrder.1
  | inside useful inGate numbers rises dense sent flying =>
      have landed : sys.flying = [] := by rw [FeedSystem.flying, inOrder.2 inGate, List.map_nil]
      rw [sent, flying, landed, List.append_nil]
      rw [landed, List.append_nil] at contiguous
      exact contiguous.append dense
  | after useful outside numbers dense sent flying =>
      rw [sent, flying, ← List.append_assoc]
      exact contiguous.append dense
  | idle returned same => rw [same]; exact contiguous
  | publish waiting before behind number lsn earlier sent flying rest =>
      have first : before = [] := by rw [earlier, inOrder waiting, List.map_nil]
      rw [first, List.nil_append] at flying rest
      rw [lsn, sent, rest, List.append_assoc, List.singleton_append, ← flying]
      exact contiguous

theorem Contiguous.run (env : Env) (contiguous : sys.Contiguous)
    (inOrder : RunInOrder env sys actions) : (run env sys actions).Contiguous :=
  inOrder.invariant contiguous fun sys action contiguous inOrder =>
    contiguous.step (step_moves env sys action) inOrder

/-! ## A dense feed was in order -/

/-- What holds in every order: numbers in flight are increasing, no number exceeds
the counter, and none is both sent and in flight. -/
structure Tracked (sys : FeedSystem) : Prop where
  increasing : sys.flying.Pairwise (· < ·)
  sent_le : ∀ n ∈ sys.sent, n ≤ sys.store.lsn
  flying_le : ∀ n ∈ sys.flying, n ≤ sys.store.lsn
  flying_pos : ∀ n ∈ sys.flying, 0 < n
  apart : ∀ n ∈ sys.sent, n ∉ sys.flying

theorem Tracked.step (tracked : sys.Tracked) (moves : Moves sys later action) : later.Tracked := by
  obtain ⟨increasing, sent_le, flying_le, flying_pos, apart⟩ := tracked
  cases moves with
  | waste wasteful lsn sent flying =>
      refine ⟨flying ▸ increasing, ?_, ?_, flying ▸ flying_pos, sent ▸ flying ▸ apart⟩
      · rw [sent, lsn]
        exact fun n member => (sent_le n member).trans (Nat.le_succ _)
      · rw [flying, lsn]
        exact fun n member => (flying_le n member).trans (Nat.le_succ _)
  | inside useful inGate numbers rises dense sent flying =>
      refine ⟨flying ▸ increasing, ?_, ?_, flying ▸ flying_pos, ?_⟩
      · intro n member
        rw [sent, List.mem_append] at member
        rcases member with old | new
        · exact (sent_le n old).trans dense.counter_le
        · exact (dense.mem_iff.mp new).2
      · rw [flying]
        exact fun n member => (flying_le n member).trans dense.counter_le
      · intro n member inFlight
        rw [sent, List.mem_append] at member
        rw [flying] at inFlight
        rcases member with old | new
        · exact apart n old inFlight
        · exact absurd (flying_le n inFlight) (dense.mem_iff.mp new).1.not_ge
  | after useful outside numbers dense sent flying =>
      refine ⟨?_, ?_, ?_, ?_, ?_⟩
      · rw [flying, List.pairwise_append]
        exact ⟨increasing, dense.increasing, fun n old m new =>
          (flying_le n old).trans_lt (dense.mem_iff.mp new).1⟩
      · rw [sent]
        exact fun n member => (sent_le n member).trans dense.counter_le
      · intro n member
        rw [flying, List.mem_append] at member
        rcases member with old | new
        · exact (flying_le n old).trans dense.counter_le
        · exact (dense.mem_iff.mp new).2
      · intro n member
        rw [flying, List.mem_append] at member
        rcases member with old | new
        · exact flying_pos n old
        · exact (Nat.zero_le _).trans_lt (dense.mem_iff.mp new).1
      · intro n member inFlight
        rw [sent] at member
        rw [flying, List.mem_append] at inFlight
        rcases inFlight with old | new
        · exact apart n member old
        · exact absurd (sent_le n member) (dense.mem_iff.mp new).1.not_ge
  | idle returned same => rw [same]; exact ⟨increasing, sent_le, flying_le, flying_pos, apart⟩
  | publish waiting before behind number lsn earlier sent flying rest =>
      rw [flying] at increasing
      have distinct : number ∉ before ++ behind :=
        (List.nodup_middle.mp (increasing.imp fun lt => Nat.ne_of_lt lt)).notMem
      have still : ∀ n ∈ later.flying, n ∈ sys.flying := by
        rw [rest, flying]
        exact fun n member => List.Sublist.subset
          ((List.sublist_cons_self number behind).append_left before) member
      refine ⟨?_, ?_, ?_, fun n member => flying_pos n (still n member), ?_⟩
      · rw [rest]
        exact increasing.sublist ((List.sublist_cons_self number behind).append_left before)
      · intro n member
        rw [sent, List.mem_append, List.mem_singleton] at member
        rw [lsn]
        rcases member with old | rfl
        · exact sent_le n old
        · exact flying_le n (by simp [flying])
      · rw [lsn]
        exact fun n member => flying_le n (still n member)
      · intro n member inFlight
        rw [sent, List.mem_append, List.mem_singleton] at member
        rcases member with old | rfl
        · exact apart n old (still n inFlight)
        · exact distinct (rest ▸ inFlight)

/-- The feed so far is a dense beginning, and no number is lost. -/
structure Unbroken (sys : FeedSystem) : Prop where
  beginning : ∃ k, sys.sent = List.range' 1 k
  covered : ∀ n, 0 < n → n ≤ sys.store.lsn → n ∈ sys.sent ∨ n ∈ sys.flying

/-- The beginning of a dense feed is dense. -/
theorem beginning_of_append {front back : List ℕ} {k : ℕ}
    (whole : front ++ back = List.range' 1 k) : ∃ k, front = List.range' 1 k := by
  obtain ⟨length, -, same, -⟩ := List.range'_eq_append_iff.mp whole.symm
  exact ⟨length, same⟩

/-- A number that a dense feed has passed was sent. -/
theorem mem_of_beginning {front : List ℕ} {k n m : ℕ} (whole : front = List.range' 1 k)
    (member : m ∈ front) (positive : 0 < n) (lt : n ≤ m) : n ∈ front := by
  rw [whole, List.mem_range'_1] at member ⊢
  omega

/-- **Read backwards**: a step that leads to an unbroken feed was in order, and
started from an unbroken feed. -/
theorem Unbroken.back (tracked : sys.Tracked) (moves : Moves sys later action)
    (unbroken : later.Unbroken) : sys.Unbroken ∧ sys.InOrder action := by
  obtain ⟨⟨k, beginning⟩, covered⟩ := unbroken
  cases moves with
  | waste wasteful lsn sent flying =>
      -- The wasted number is neither sent nor in flight.
      rcases covered (sys.store.lsn + 1) (Nat.succ_pos _) lsn.ge with member | member
      · rw [sent] at member
        exact absurd (tracked.sent_le _ member) (Nat.not_succ_le_self _)
      · rw [flying] at member
        exact absurd (tracked.flying_le _ member) (Nat.not_succ_le_self _)
  | inside useful inGate numbers rises dense sent flying =>
      have old : ∀ n, n ≤ sys.store.lsn → n ∈ later.sent → n ∈ sys.sent := by
        intro n small member
        rw [sent, List.mem_append] at member
        rcases member with old | new
        · exact old
        · exact absurd small (dense.mem_iff.mp new).1.not_ge
      refine ⟨⟨beginning_of_append (sent ▸ beginning), fun n above small => ?_⟩, useful,
        fun _ => ?_⟩
      · rcases covered n above (small.trans dense.counter_le) with member | member
        · exact .inl (old n small member)
        · exact .inr (flying ▸ member)
      · -- An event in flight would be overtaken by the number sent inside the gate.
        by_contra waiting
        obtain ⟨event, member⟩ := List.exists_mem_of_ne_nil _ waiting
        have inFlight : event.lsnOf ∈ sys.flying := List.mem_map_of_mem member
        have last : later.store.lsn ∈ later.sent := by
          rw [sent]
          exact List.mem_append_right _ (dense.mem_iff.mpr ⟨rises, le_rfl⟩)
        have small := tracked.flying_le _ inFlight
        have passed := mem_of_beginning beginning last (tracked.flying_pos _ inFlight)
          (small.trans rises.le)
        exact tracked.apart _ (old _ small passed) inFlight
  | after useful outside numbers dense sent flying =>
      refine ⟨⟨⟨k, sent ▸ beginning⟩, fun n above small => ?_⟩, useful, (absurd · outside)⟩
      rcases covered n above (small.trans dense.counter_le) with member | member
      · exact .inl (sent ▸ member)
      · rw [flying, List.mem_append] at member
        rcases member with old | new
        · exact .inr old
        · exact absurd small (dense.mem_iff.mp new).1.not_ge
  | idle returned same =>
      rw [same] at beginning covered
      exact ⟨⟨⟨k, beginning⟩, covered⟩, (absurd returned ·)⟩
  | publish waiting before behind number lsn earlier sent flying rest =>
      refine ⟨⟨beginning_of_append (sent ▸ beginning), fun n above small => ?_⟩, fun _ => ?_⟩
      · rw [flying]
        rcases covered n above (lsn ▸ small) with member | member
        · rw [sent, List.mem_append, List.mem_singleton] at member
          rcases member with old | rfl
          · exact .inl old
          · exact .inr (by simp)
        · rw [rest, List.mem_append] at member
          rcases member with front | back
          · exact .inr (List.mem_append_left _ front)
          · exact .inr (List.mem_append_right _ (List.mem_cons_of_mem _ back))
      · -- An event of an earlier call would be overtaken by this one.
        by_contra ahead
        obtain ⟨event, member⟩ := List.exists_mem_of_ne_nil _ ahead
        have inFront : event.lsnOf ∈ before := earlier ▸ List.mem_map_of_mem member
        have inFlight : event.lsnOf ∈ sys.flying := flying ▸ List.mem_append_left _ inFront
        have smaller : event.lsnOf < number := by
          have increasing := tracked.increasing
          rw [flying, List.pairwise_append] at increasing
          exact increasing.2.2 _ inFront number (by simp)
        have passed := mem_of_beginning beginning (m := number) (by simp [sent])
          (tracked.flying_pos _ inFlight) smaller.le
        rw [sent, List.mem_append, List.mem_singleton] at passed
        rcases passed with old | same
        · exact tracked.apart _ old inFlight
        · exact smaller.ne same

theorem tracked_new : Tracked .new := ⟨.nil, by simp [sent, new, InMemoryStorage.new],
  by simp [flying, new], by simp [flying, new], by simp [flying, new]⟩

theorem Unbroken.run_inOrder (env : Env) (tracked : sys.Tracked)
    (unbroken : (run env sys actions).Unbroken) : sys.Unbroken ∧ RunInOrder env sys actions := by
  induction actions generalizing sys with
  | nil => exact ⟨unbroken, trivial⟩
  | cons action actions ih =>
      have moves := step_moves env sys action
      obtain ⟨middle, rest⟩ := ih (tracked.step moves) unbroken
      obtain ⟨first, inOrder⟩ := middle.back tracked moves
      exact ⟨first, inOrder, rest⟩

/-! ## The feed and the client's gate -/

/-- The feed carries `1, 2, …, n` for the counter value `n`, and a client gate
started at `1` releases all of it and never has a gap. -/
structure DenselyFed (sys : FeedSystem) : Prop where
  numbers : sys.sent = List.range' 1 sys.store.lsn
  released : ∀ arrivals, arrivals.map Prod.snd = sys.store.feed →
    ((LsnGate.new 1).pushAll arrivals).1 = sys.store.feed ∧
      ∀ timeout now, ((LsnGate.new 1).pushAll arrivals).2.gapExpired timeout now = none

theorem DenselyFed.of_numbers (numbers : sys.sent = List.range' 1 sys.store.lsn) :
    sys.DenselyFed := by
  refine ⟨numbers, fun arrivals same => ?_⟩
  have dense : Dense 0 sys.store.lsn (arrivals.map fun arrival => arrival.2.lsnOf) := by
    have sent : arrivals.map (fun arrival => arrival.2.lsnOf) = sys.sent := by
      rw [FeedSystem.sent, ← same, List.map_map]
      rfl
    exact ⟨Nat.zero_le _, sent.trans numbers⟩
  obtain ⟨released, -, held⟩ := LsnGate.pushAll_dense arrivals none dense
  refine ⟨released.trans same, fun timeout now => ?_⟩
  rw [LsnGate.gapExpired, LsnGate.new, held]
  rfl

/-- **The feed is dense exactly when nothing is wasted and nothing is overtaken.**
For every interleaving, once all calls have returned. -/
theorem feed_dense_iff_inOrder (env : Env) (actions : List FeedAction)
    (returned : (run env .new actions).Returned) :
    (run env .new actions).DenselyFed ↔ RunInOrder env .new actions := by
  have landed : (run env .new actions).flying = [] := by rw [flying, returned, List.map_nil]
  constructor
  · intro fed
    refine (Unbroken.run_inOrder env tracked_new ⟨⟨_, fed.numbers⟩, fun n above small => ?_⟩).2
    rw [fed.numbers, List.mem_range'_1]
    exact .inl ⟨above, by omega⟩
  · intro inOrder
    have start : Contiguous .new := Dense.nil 0
    have contiguous := start.run env inOrder
    rw [Contiguous, landed, List.append_nil] at contiguous
    exact .of_numbers contiguous.exact_range

/-- A removal and its publication. -/
theorem feed_dense_iff_inOrder_removal :
    (run Env.blank .new [.enter 0 (.deleteMemory ⟨.fill 16 1⟩), .publish 0]).DenselyFed ↔
      RunInOrder Env.blank .new [.enter 0 (.deleteMemory ⟨.fill 16 1⟩), .publish 0] :=
  feed_dense_iff_inOrder Env.blank [.enter 0 (.deleteMemory ⟨.fill 16 1⟩), .publish 0] rfl

/-- An audit row takes the number `1`. The removal after it publishes `2`, and the
client waits for `1` forever. -/
theorem feed_not_dense_after_audit :
    ∃ actions, (run Env.blank .new actions).Returned ∧
      ¬ (run Env.blank .new actions).DenselyFed ∧
      (run Env.blank .new actions).sent = [2] := by
  refine ⟨[.enter 0 (.appendAudit ⟨"promote", "ann", "org", .fill 32 0, [], .fill 32 0, none, 0⟩),
    .enter 0 (.deleteMemory ⟨.fill 16 1⟩), .publish 1], rfl, fun fed => ?_, rfl⟩
  have numbers : [2] = [1, 2] := fed.numbers
  exact absurd numbers (by decide)

end FeedSystem

end Exocortex
