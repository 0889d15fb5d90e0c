import Exocortex.Ops.Updates
import Exocortex.Reasoning.Adjacency

/-!
# Resolving a contradiction

A resolution reads the edge, refuses when it is closed already, reads the ends, and later commits
the closed edge and the lowered loser in one audited batch. The commit looks at nothing again.

Several resolutions of one edge, in any interleaving, are runs of the desk. The first commit finds
the edge open and closes it; every later one closes it once more. So the contradiction is resolved
at most once exactly when every commit finds the edge open (`resolvedOnce_iff`).
-/

namespace Exocortex

open Library InMemoryStorage

/-- The actions of resolutions of one edge. -/
def DeskAction.Resolves (id : RelationshipId) : DeskAction → Prop
  | .readEdge _ _ other _ => other = id
  | .readEnds .. | .commit .. => True
  | _ => False

variable {s : InMemoryStorage}

/-- A batch with an audit row whose edges have their ends stored is committed. -/
theorem run_upsertBatchAudited_ok (env : Env) {ms : List Memory} {rs : List Relationship}
    (present : ∀ r ∈ rs, s.endpointMissing ms r = false) (audit : AuditEvent) (now : DateTime) :
    ∃ records events t, s.upsertBatchLocked env ms rs now = .ok (records, events, t) ∧
      ((Call.upsertBatchAudited ms rs audit).run env now s).1 = .ok (.records records) ∧
      ((Call.upsertBatchAudited ms rs audit).run env now s).2.memories = t.memories ∧
      ((Call.upsertBatchAudited ms rs audit).run env now s).2.rels = t.rels ∧
      ((Call.upsertBatchAudited ms rs audit).run env now s).2.audits =
        s.audits ++ [auditValue audit (lastLsn records)] := by
  have none : rs.find? (s.endpointMissing ms) = none := by
    rw [List.find?_eq_none]
    intro r member
    rw [present r member]
    exact Bool.false_ne_true
  have written : ∃ records events t, s.upsertBatchLocked env ms rs now =
      .ok (records, events, t) ∧ t.audits = s.audits := by
    rw [upsertBatchLocked, none]
    exact ⟨_, _, _, rfl, rfl⟩
  obtain ⟨records, events, t, committed, audits⟩ := written
  have section_ : (Call.upsertBatchAudited ms rs audit).gated env now s =
      ⟨.ok (.records records), events,
        { t with audits := t.audits ++ [auditValue audit (lastLsn records)] }⟩ := by
    change (s.upsertBatchAudited env ms rs audit now).map _ = _
    rw [upsertBatchAudited, committed]
    rfl
  obtain ⟨index, state⟩ := Call.run_state env now s (.upsertBatchAudited ms rs audit)
  refine ⟨records, events, t, committed, ?_, ?_, ?_, ?_⟩
  · rw [Call.run, section_]
  · rw [state, section_]
  · rw [state, section_]
  · rw [state, section_, ← audits]

section Desk

variable (server : IngestServer) (id : RelationshipId)

/-- The batch that an action commits, if it is the commit of an operation that is ready. -/
def Desk.committing (desk : Desk) : DeskAction → Option (DateTime × Call)
  | .commit slot now => ((desk.inFlight slot).bind (Operation.commit server)).map (now, ·)
  | _ => none

/-- The action is a commit that the store accepts. -/
def Desk.succeeds (desk : Desk) (action : DeskAction) : Bool :=
  match desk.committing server action with
  | some (now, call) => (call.run server.env now desk.store).1.isOk
  | none => false

/-- How many resolutions of a run succeed. -/
def Desk.successes : Desk → List DeskAction → ℕ
  | _, [] => 0
  | desk, action :: actions =>
      (desk.succeeds server action).toNat + Desk.successes (desk.step server action) actions

/-- Resolutions of one edge, in any interleaving. -/
def resolveMachine : Machine Desk DeskAction where
  allowed _ action := action.Resolves id
  step desk action := desk.step server action

/-- The runs in which every commit finds the edge open. -/
def openAtCommit : Machine Desk DeskAction :=
  (resolveMachine server id).restrict fun desk action =>
    (desk.committing server action).isSome → (desk.store.openRelationship id).isSome

/-- At most one resolution succeeds, at most one memory is changed, and there is one more audit
row for each success. -/
structure ResolvedOnce (desk : Desk) (actions : List DeskAction) : Prop where
  once : desk.successes server actions ≤ 1
  lowered : ∃ loser, ∀ node, node ≠ loser →
    ((resolveMachine server id).run desk actions).store.currentMemory node =
      desk.store.currentMemory node
  audited : ∃ audits : List AuditValue, audits.length = desk.successes server actions ∧
    ((resolveMachine server id).run desk actions).store.audits = desk.store.audits ++ audits

/-- A resolution of the edge that has read it, and the ends if it is ready. -/
def Operation.ResolvesEdge (s : InMemoryStorage) : Operation → Prop
  | .contradiction _ _ edge => edge.id = id
  | .resolving edits closed _ => closed.id = id ∧ closed.validUntil.isSome ∧
      (∀ node, closed.Touches node → s.memories.history node ≠ []) ∧
      ∃ loser, ∀ edit ∈ edits, edit.row.id = loser
  | _ => False

/-- Every operation in flight is a resolution of the edge. -/
def Desk.Resolving (desk : Desk) : Prop :=
  ∀ slot operation, desk.inFlight slot = some operation →
    operation.ResolvesEdge id desk.store

variable {server id} {desk : Desk}

variable {edge : Relationship} {action : DeskAction} {actions : List DeskAction}

theorem resolveEdge_open {ctx : OpContext} (read : resolveEdge ctx id s = .ok edge) :
    s.openRelationship id = some edge := by
  obtain ⟨_, -, read⟩ := bind_eq_ok_iff.mp read
  obtain ⟨found, stored, read⟩ := bind_eq_ok_iff.mp read
  obtain ⟨_, isOpen, read⟩ := bind_eq_ok_iff.mp read
  obtain ⟨_, -, read⟩ := bind_eq_ok_iff.mp read
  cases read
  rw [openRelationship, Option.filter_eq_some_iff]
  exact ⟨orReject_ok_iff.mp stored, require_ok_iff.mp isOpen⟩

/-- What the second read makes sure of: both ends are stored, and one memory at most is to
change. -/
theorem resolveRows_ends {ctx : OpContext} {resolution : Resolution} {now : DateTime}
    {edits : List Edit} (read : resolveRows ctx edge resolution now s = .ok edits) :
    (∀ node, edge.Touches node → s.memories.history node ≠ []) ∧
      ∃ loser, ∀ edit ∈ edits, edit.row.id = loser := by
  obtain ⟨_, both, read⟩ := bind_eq_ok_iff.mp read
  refine ⟨?_, ?_⟩
  · have two := require_ok_iff.mp both
    have found : ([edge.source, edge.target].filterMap s.currentMemory).length = 2 := by
      refine le_antisymm (List.length_filterMap_le _ _) ?_
      rw [← decide_eq_true_iff.mp two]
      exact List.length_filter_le _ _
    intro node touches empty
    have missing : s.currentMemory node = none := by rw [currentMemory, empty]; rfl
    rcases touches with rfl | rfl
    · cases other : s.currentMemory edge.target <;> simp [missing, other] at found
    · cases other : s.currentMemory edge.source <;> simp [missing, other] at found
  · have superseded : ∀ loser, (do
        let row ← orReject ((s.getVisibleMemories [edge.source, edge.target] ctx.visibility).find?
          (·.id = loser)) .notFound
        return if aboveFloor row then
            [⟨row, { row with confidence := .floor, recordedAt := now }⟩]
          else []) = Except.ok (ε := OpError) edits →
        ∃ loser, ∀ edit ∈ edits, edit.row.id = loser := by
      intro loser read
      obtain ⟨row, -, read⟩ := bind_eq_ok_iff.mp read
      cases read
      refine ⟨row.id, fun edit member => ?_⟩
      split at member
      · rw [List.mem_singleton.mp member]
      · cases member
    cases resolution with
    | neither =>
        cases read
        exact ⟨edge.source, fun edit member => absurd member List.not_mem_nil⟩
    | source => exact superseded _ read
    | target => exact superseded _ read

/-- An operation takes a slot. -/
theorem Desk.Resolving.set (resolving : desk.Resolving id) {slot : ℕ}
    {operation : Option Operation}
    (resolves : ∀ op, operation = some op → op.ResolvesEdge id desk.store) :
    (desk.set slot operation).Resolving id := by
  intro other op inFlight
  by_cases same : other = slot
  · rw [same, Desk.set_inFlight_self] at inFlight
    exact resolves op inFlight
  · rw [Desk.set_inFlight_of_ne desk same] at inFlight
    exact resolving other op inFlight

theorem Desk.Resolving.start {α : Type} (resolving : desk.Resolving id) {slot : ℕ}
    {read : Except OpError α} {next : α → Operation}
    (resolves : ∀ value, read = .ok value → (next value).ResolvesEdge id desk.store) :
    (desk.start slot read next).Resolving id ∧ (desk.start slot read next).store = desk.store := by
  unfold Desk.start
  split
  · refine ⟨resolving.set ?_, rfl⟩
    rintro op ⟨⟩
    exact resolves _ rfl
  · exact ⟨resolving, rfl⟩

variable (server) in
/-- A read keeps the store, and what is in flight resolves the edge. -/
theorem Desk.Resolving.read (resolving : desk.Resolving id) (keyed : Keyed desk.store.rows)
    {action : DeskAction} (resolves : action.Resolves id)
    (reads : desk.committing server action = none) :
    (desk.step server action).Resolving id ∧ (desk.step server action).store = desk.store := by
  cases action with
  | readEdge slot ctx other resolution =>
      cases resolves
      refine resolving.start fun edge read => ?_
      obtain ⟨current, -⟩ := Option.filter_eq_some_iff.mp (resolveEdge_open read)
      exact keyed.relationship_id current
  | readEnds slot inputDigest outputIds now =>
      rw [Desk.step, Desk.readEnds]
      split
      · next ctx resolution edge inFlight =>
          split
          · exact ⟨resolving.set fun op impossible => (by cases impossible), rfl⟩
          · next edits read =>
              refine ⟨resolving.set fun op isOp => ?_, rfl⟩
              cases isOp
              obtain ⟨stored, single⟩ := resolveRows_ends read
              exact ⟨resolving slot _ inFlight, rfl, stored, single⟩
      · exact ⟨resolving, rfl⟩
  | commit slot now =>
      have idle := Option.map_eq_none_iff.mp reads
      rw [Desk.step, Desk.commit, idle]
      exact ⟨resolving, rfl⟩
  | _ => cases resolves

theorem Desk.start_error {α : Type} (desk : Desk) (slot : ℕ) (error : OpError)
    (next : α → Operation) : desk.start slot (.error error) next = desk := by
  unfold Desk.start
  cases desk.inFlight slot <;> rfl

/-- Nothing is in flight, or the edge is open. -/
def Desk.QuietOrOpen (id : RelationshipId) (desk : Desk) : Prop :=
  (∀ slot, desk.inFlight slot = none) ∨ (desk.store.openRelationship id).isSome

/-- A read starts a resolution of an open edge only. -/
theorem Desk.QuietOrOpen.read (either : desk.QuietOrOpen id) {action : DeskAction}
    (resolves : action.Resolves id) (reads : desk.committing server action = none)
    (same : (desk.step server action).store = desk.store) :
    (desk.step server action).QuietOrOpen id := by
  rcases either with quiet | isOpen
  · cases action with
    | readEdge slot ctx other resolution =>
        cases resolves
        cases read : resolveEdge ctx id desk.store with
        | error error =>
            rw [Desk.step, read, Desk.start_error]
            exact .inl quiet
        | ok edge =>
            refine .inr ?_
            rw [same, resolveEdge_open read]
            rfl
    | readEnds slot inputDigest outputIds now =>
        rw [Desk.step, Desk.readEnds, quiet slot]
        exact .inl quiet
    | commit slot now =>
        rw [Desk.step, Desk.commit, Option.map_eq_none_iff.mp reads]
        exact .inl quiet
    | _ => cases resolves
  · exact .inr (by rw [same]; exact isOpen)

/-- A commit is one of an operation in flight. -/
theorem Desk.QuietOrOpen.open (either : desk.QuietOrOpen id)
    (commits : (desk.committing server action).isSome) :
    (desk.store.openRelationship id).isSome := by
  rcases either with quiet | isOpen
  · cases action with
    | commit slot now =>
        rw [Desk.committing, quiet slot] at commits
        cases commits
    | _ => cases commits
  · exact isOpen

/-- A memory with versions has an entry. -/
theorem mem_of_history {node : MemoryId} (stored : s.memories.history node ≠ []) :
    node ∈ s.memories := by
  rw [← AList.lookup_isSome]
  cases found : s.memories.lookup node with
  | none => exact absurd (by rw [Table.history, found]; rfl) stored
  | some versions => rfl

/-- Histories that grow keep the ends of what is in flight. -/
theorem Operation.ResolvesEdge.grown {t : InMemoryStorage} {operation : Operation}
    (resolves : operation.ResolvesEdge id s)
    (grown : ∀ node, s.memories.history node ≠ [] → t.memories.history node ≠ []) :
    operation.ResolvesEdge id t := by
  cases operation with
  | contradiction ctx resolution edge => exact resolves
  | resolving edits closed audit =>
      obtain ⟨isEdge, isClosed, stored, single⟩ := resolves
      exact ⟨isEdge, isClosed, fun node touches => grown node (stored node touches), single⟩
  | _ => exact resolves

variable (id) in
/-- What a commit of a resolution does. -/
structure Closing (desk after : Desk) : Prop where
  keyed : Keyed desk.store.rows → Keyed after.store.rows
  resolving : after.Resolving id
  closed : after.store.openRelationship id = none
  lowered : ∃ loser, ∀ node, node ≠ loser →
    after.store.currentMemory node = desk.store.currentMemory node
  audited : ∃ audit, after.store.audits = desk.store.audits ++ [audit]

variable (server) in
/-- A commit of a resolution succeeds, closes the edge, changes one memory at most and adds an
audit row. -/
theorem Desk.Resolving.commit (resolving : desk.Resolving id)
    (commits : (desk.committing server action).isSome) :
    desk.succeeds server action = true ∧ Closing id desk (desk.step server action) := by
  cases action with
  | commit slot now =>
      obtain ⟨⟨_, call⟩, committing⟩ := Option.isSome_iff_exists.mp commits
      obtain ⟨_, ready, same⟩ := Option.map_eq_some_iff.mp committing
      cases same
      obtain ⟨operation, inFlight, isCall⟩ := Option.bind_eq_some_iff.mp ready
      have resolves := resolving slot operation inFlight
      cases operation with
      | resolving edits closed audit =>
          cases isCall
          obtain ⟨isEdge, isClosed, stored, loser, single⟩ := resolves
          have present : ∀ r ∈ [closed],
              desk.store.endpointMissing (edits.map (·.row)) r = false := by
            intro r member
            cases List.mem_singleton.mp member
            simp [endpointMissing, mem_of_history (stored _ (.inl rfl)),
              mem_of_history (stored _ (.inr rfl))]
          obtain ⟨records, events, t, committed, ran, memories, rels, audits⟩ :=
            run_upsertBatchAudited_ok server.env present audit now
          have after : desk.step server (.commit slot now) = { desk.set slot none with
              store := ((Call.upsertBatchAudited (edits.map (·.row)) [closed] audit).run server.env
                now desk.store).2 } := by
            rw [Desk.step, Desk.commit, ready]
          refine ⟨?_, ?_⟩
          · rw [Desk.succeeds, committing]
            simp [ran, Except.isOk, Except.toBool]
          · rw [after]
            refine ⟨fun keyed => keyed.run _ _ _, fun other op inFlight => ?_, ?_,
              ⟨loser, fun node apart => ?_⟩, ⟨_, audits⟩⟩
            · have before : op.ResolvesEdge id desk.store := by
                by_cases same : other = slot
                · rw [same] at inFlight
                  exact absurd inFlight (by simp)
                · exact resolving other op ((Desk.set_inFlight_of_ne desk same none) ▸ inFlight)
              refine before.grown fun node kept => ?_
              obtain ⟨added, appended, -⟩ := upsertBatchLocked_memories_added committed node
              rw [memories, appended]
              exact fun empty => kept (List.append_eq_nil_iff.mp empty).1
            · obtain ⟨lsn, current⟩ := upsertBatchLocked_listed committed
                (List.mem_singleton_self closed)
                (by rw [← List.nil_append [closed], lastWith_concat, if_pos rfl])
              rw [isEdge, currentRelationship, ← rels] at current
              rw [openRelationship, current]
              obtain ⟨ends, isSome⟩ := Option.isSome_iff_exists.mp isClosed
              simp [isSome]
            · rw [currentMemory, memories]
              refine (upsertBatchLocked_memory committed node).2 (lastWith_eq_none.mpr ?_)
              intro m member
              obtain ⟨edit, isEdit, rfl⟩ := List.mem_map.mp member
              rw [single edit isEdit]
              exact Ne.symm apart
      | _ => cases resolves <;> cases isCall
  | _ => cases commits

/-- An action that commits nothing does not succeed. -/
theorem Desk.succeeds_of_reads (reads : desk.committing server action = none) :
    desk.succeeds server action = false := by
  rw [Desk.succeeds, reads]

/-! ## Runs -/

variable (server) in
/-- Once the edge is closed, no resolution succeeds exactly when none commits, and then nothing is
written. -/
theorem Desk.Resolving.closed_run (resolving : desk.Resolving id) (keyed : Keyed desk.store.rows)
    (closed : desk.store.openRelationship id = none)
    (allows : (resolveMachine server id).Allows desk actions) :
    (desk.successes server actions = 0 ↔ (openAtCommit server id).Allows desk actions) ∧
      (desk.successes server actions = 0 →
        ((resolveMachine server id).run desk actions).store = desk.store) := by
  induction actions generalizing desk with
  | nil => exact ⟨iff_of_true rfl trivial, fun _ => rfl⟩
  | cons action actions ih =>
      rw [Desk.successes]
      cases reads : desk.committing server action with
      | none =>
          obtain ⟨still, same⟩ := resolving.read server keyed allows.1 reads
          obtain ⟨counts, keeps⟩ := ih still (same ▸ keyed) (same ▸ closed) allows.2
          rw [Desk.succeeds_of_reads reads, Bool.toNat_false, Nat.zero_add]
          refine ⟨counts.trans ?_, fun none => (keeps none).trans same⟩
          exact ⟨fun rest => ⟨⟨allows.1, fun commits => by rw [reads] at commits; cases commits⟩,
            rest⟩, fun all => all.2⟩
      | some call =>
          have commits : (desk.committing server action).isSome := by rw [reads]; rfl
          obtain ⟨succeeds, -⟩ := resolving.commit server commits
          rw [succeeds, Bool.toNat_true]
          refine ⟨iff_of_false (by omega) fun all => ?_, fun none => by omega⟩
          have isOpen := all.1.2 commits
          rw [closed] at isOpen
          cases isOpen

/-- While nothing has committed, at most one resolution succeeds exactly when every commit finds
the edge open. -/
theorem Desk.Resolving.open_run (resolving : desk.Resolving id) (keyed : Keyed desk.store.rows)
    (either : desk.QuietOrOpen id) (allows : (resolveMachine server id).Allows desk actions) :
    ResolvedOnce server id desk actions ↔ (openAtCommit server id).Allows desk actions := by
  induction actions generalizing desk with
  | nil =>
      exact iff_of_true ⟨Nat.zero_le 1, ⟨⟨.fill 16 0⟩, fun _ _ => rfl⟩, [], rfl,
        (List.append_nil _).symm⟩ trivial
  | cons action actions ih =>
      cases reads : desk.committing server action with
      | none =>
          obtain ⟨still, same⟩ := resolving.read server keyed allows.1 reads
          have rest := ih still (same ▸ keyed) (either.read allows.1 reads same) allows.2
          have counts : desk.successes server (action :: actions) =
              (desk.step server action).successes server actions := by
            rw [Desk.successes, Desk.succeeds_of_reads reads, Bool.toNat_false, Nat.zero_add]
          have allowed : (openAtCommit server id).Allows desk (action :: actions) ↔
              (openAtCommit server id).Allows (desk.step server action) actions :=
            ⟨fun all => all.2, fun all =>
              ⟨⟨allows.1, fun commits => by rw [reads] at commits; cases commits⟩, all⟩⟩
          rw [allowed, ← rest]
          constructor
          · rintro ⟨once, lowered, audited⟩
            exact ⟨counts ▸ once, same ▸ lowered, same ▸ counts ▸ audited⟩
          · rintro ⟨once, lowered, audited⟩
            exact ⟨counts ▸ once, same ▸ lowered, counts ▸ same ▸ audited⟩
      | some call =>
          have commits : (desk.committing server action).isSome := by rw [reads]; rfl
          obtain ⟨succeeds, closing⟩ := resolving.commit server commits
          obtain ⟨counts, keeps⟩ := closing.resolving.closed_run server
            (closing.keyed keyed) closing.closed allows.2
          have total : desk.successes server (action :: actions) =
              1 + (desk.step server action).successes server actions := by
            rw [Desk.successes, succeeds, Bool.toNat_true]
          constructor
          · intro resolved
            have once := resolved.once
            rw [total] at once
            exact ⟨⟨allows.1, fun _ => either.open commits⟩, counts.mp (by omega)⟩
          · intro all
            have none := counts.mpr all.2
            have final : ((resolveMachine server id).run desk (action :: actions)).store =
                (desk.step server action).store := keeps none
            obtain ⟨audit, audits⟩ := closing.audited
            refine ⟨by rw [total, none], ?_, [audit], by rw [total, none]; rfl, ?_⟩
            · rw [final]
              exact closing.lowered
            · rw [final]
              exact audits

end Desk

/-- **The resolutions of one edge, in any interleaving from any store, resolve it at most once
exactly when every commit finds the edge open.** -/
theorem resolvedOnce_iff (server : IngestServer) (calls : List (DateTime × Call))
    (id : RelationshipId) (actions : List DeskAction)
    (allows : (resolveMachine server id).Allows (.open server.env calls) actions) :
    ResolvedOnce server id (.open server.env calls) actions ↔
      (openAtCommit server id).Allows (.open server.env calls) actions :=
  Desk.Resolving.open_run (fun _ _ impossible => by cases impossible)
    (runAll_keyed server.env calls) (.inl fun _ => rfl) allows

/-! ## Two decisions -/

/-- The small ontology with the kind of contradictions. -/
def disputedOntology : EffectiveOntology where
  packs := [{ smallPack with
    kinds := smallPack.kinds ++
      [⟨⟨⟨4⟩, none, false⟩, "Contradicts", .quality, ⟨0x3f59999a#32⟩, false⟩] }]
  packNames := by decide
  memoryTypes := by decide
  entityTypes := by decide
  kindIds := by decide
  kindNames := by decide
  bound := by decide

/-- One of two memories of the organization. -/
def disputed (which : UInt8) : Memory :=
  { acmeNote with id := ⟨.fill 16 which⟩ }

/-- An open contradiction between the two. -/
def disputeEdge : Relationship :=
  { edgeBetween 1 2 with kind := ⟨4⟩, visibility := .org }

def disputeCalls : List (DateTime × Call) :=
  [(0, .upsertBatch [disputed 1, disputed 2] [disputeEdge])]

def disputeContext : OpContext := ⟨acmeAgent, some disputedOntology, .fill 32 0⟩

/-- Two callers read the contradiction, and then both decide it, for different winners. -/
def twoDecisions : List DeskAction :=
  [.readEdge 0 disputeContext disputeEdge.id .source,
    .readEdge 1 disputeContext disputeEdge.id .target,
    .readEnds 0 (.fill 32 0) [] 1, .readEnds 1 (.fill 32 0) [] 1, .commit 0 2, .commit 1 3]

theorem not_resolvedOnce :
    ¬ ∀ (server : IngestServer) (calls : List (DateTime × Call)) (id : RelationshipId)
      (actions : List DeskAction),
      (resolveMachine server id).Allows (.open server.env calls) actions →
      ResolvedOnce server id (.open server.env calls) actions := by
  intro law
  have once := (law (openServer false) disputeCalls disputeEdge.id twoDecisions
    ⟨rfl, rfl, trivial, trivial, trivial, trivial, trivial⟩).once
  revert once
  decide +kernel

/-- One decision, while another caller has only read the edge. -/
theorem resolvedOnce_iff_decision :
    ResolvedOnce (openServer false) disputeEdge.id (.open (openServer false).env disputeCalls)
        (twoDecisions.take 3 ++ [.commit 0 2]) ↔
      (openAtCommit (openServer false) disputeEdge.id).Allows
        (.open (openServer false).env disputeCalls) (twoDecisions.take 3 ++ [.commit 0 2]) :=
  resolvedOnce_iff (openServer false) disputeCalls disputeEdge.id _
    ⟨rfl, rfl, trivial, trivial, trivial⟩

end Exocortex
