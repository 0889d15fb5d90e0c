import Exocortex.Ops.PackActions

/-!
# What an action can write

Whatever its body does, a committed action writes memories within its ceiling, and edges that
start at them, end at them or at stored memories of the caller, have an asserted kind between the
right types, and are no wider than their ends. Every edge is such an edge or the companion of
one. An action that is refused writes nothing (`actionKeeps_iff`).

The memories that it writes are also the caller's to read when their labels are. The ceiling
bounds the label; nothing asks whether the caller holds a grant of that label, as the ingestion of
a batch does. A memory labelled for a project by a caller without projects is written with no
project at all, and nobody reads it.
-/

namespace Exocortex

open Library InMemoryStorage

/-- The caller holds a grant of the label. -/
def VisibilityContext.Grants (caller : VisibilityContext) (label : Visibility) : Prop :=
  ¬ caller.maxVisibility < label.effective ∧ (label = .project → caller.projectIds ≠ []) ∧
    (label = .team → caller.teamIds ≠ [])

section Reach

variable (store : Env) (ontology : EffectiveOntology) (reg : PackActionRegistration)
  (caller : VisibilityContext) (before after : InMemoryStorage)

/-- The memory is written between the two stores, up to its sequence number. -/
def WrittenMemory (m : Memory) : Prop :=
  ∃ added lsn, after.memories.history m.id = before.memories.history m.id ++ added ∧
    { m with lsn := lsn } ∈ added

/-- An edge that the framework may author. -/
def MayAuthor (edge : Relationship) : Prop :=
  ∃ source target kind, edge.source = source.id ∧ edge.target = target.id ∧
    WrittenMemory before after source ∧
    (WrittenMemory before after target ∨
      before.currentMemory target.id = some target ∧ memoryVisible target caller = true) ∧
    ontology.kindMeta edge.kind = some kind ∧ kind.computedOnly = false ∧
    validateTriple ontology source.memoryType edge.kind target.memoryType = .ok () ∧
    edge.visibility.rank ≤ source.visibility.rank ∧ edge.visibility.rank ≤ target.visibility.rank

/-- What a committed action may have written. -/
structure KeepsToFramework : Prop where
  memories : ∀ id, ∃ added, after.memories.history id = before.memories.history id ++ added ∧
    ∀ row ∈ added, row.visibility.within reg.ceiling = true ∧ memoryVisible row caller = true
  edges : ∀ id, ∃ added, after.rels.history id = before.rels.history id ++ added ∧
    ∀ row ∈ added, ∃ edge lsn, row = { edge with lsn := lsn } ∧
      (MayAuthor ontology caller before after edge ∨ ∃ authored,
        MayAuthor ontology caller before after authored ∧ store.inverse authored = some edge)

end Reach

/-- A dispatch keeps to the framework when it commits, and writes nothing when it does not. -/
def ActionKeeps (store : Env) (env : ActionEnv) (actions : List PackActionRegistration)
    (entry : String) (ctx : OpContext) (input : JsonValue) (s : InMemoryStorage) : Prop :=
  match dispatchPackAction store env actions entry ctx input s with
  | (.error _, after) => after = s
  | (.ok _, after) => ∃ reg ontology, findAction actions entry = .ok reg ∧
      ctx.ontology = some ontology ∧
      KeepsToFramework store ontology reg ctx.visibility s after

section Reached

variable {store : Env} {env : ActionEnv} {actions : List PackActionRegistration} {entry : String}
  {ctx : OpContext} {input : JsonValue} {s : InMemoryStorage} {ontology : EffectiveOntology}
  {reg : PackActionRegistration} {product : ActionProduct} {prepared : PreparedAction}

/-- The row of a memory carries the scope of the caller, who reads it with a grant of its
label. -/
theorem memoryVisible_actionRow (caller : VisibilityContext) (id : MemoryId) (memoryType : UInt8)
    (m : ActionMemory) (lsn : LSN) :
    memoryVisible { actionRow reg caller env id memoryType m with lsn := lsn } caller = true ↔
      caller.Grants m.visibility := by
  obtain ⟨user, org, projects, teams, ceiling⟩ := caller
  rw [memoryVisible, VisibilityContext.Grants]
  cases label : m.visibility <;> cases projects <;> cases teams <;>
    simp [actionRow, actionDraft, label, Visibility.effective, projectGranted]

/-- The memories of a prepared action are the rows of its product. -/
theorem Prepares.mem_memories {resolveTarget : MemoryId → Option Memory} {pack : PackDef}
    {caller : VisibilityContext} {rows : List (String × Memory)}
    (prepares : Prepares ontology reg caller env resolveTarget pack product rows prepared) :
    (∀ row ∈ prepared.memories, ∃ m ∈ product.memories, ∃ id memoryType,
      m.visibility.within reg.ceiling = true ∧ row = actionRow reg caller env id memoryType m) ∧
    ∀ m ∈ product.memories, ∃ id memoryType,
      actionRow reg caller env id memoryType m ∈ prepared.memories := by
  rw [prepares.memories]
  constructor
  · intro row listed
    obtain ⟨keyed, member, rfl⟩ := List.mem_map.mp listed
    obtain ⟨m, produced, -, id, memoryType, admitted, built⟩ :=
      exists_right prepares.written.flip member
    exact ⟨m, produced, id, memoryType, admitted.label, built⟩
  · intro m produced
    obtain ⟨keyed, member, -, id, memoryType, -, built⟩ := exists_right prepares.written produced
    exact ⟨id, memoryType, built ▸ List.mem_map_of_mem member⟩

/-- Every memory of a committed action is written. -/
theorem Dispatched.written
    (dispatched : Dispatched store env actions entry ctx input s reg ontology product prepared)
    {m : Memory} (listed : m ∈ prepared.memories) :
    WrittenMemory s (dispatchPackAction store env actions entry ctx input s).2 m := by
  obtain ⟨records, events, t, committed, memories, -⟩ := dispatched.committed
  obtain ⟨added, appended, rows⟩ := upsertBatchLocked_appended committed m.id
  obtain ⟨row, inside, lsn, rfl⟩ := exists_right rows
    (List.mem_filter.mpr ⟨listed, decide_eq_true rfl⟩)
  exact ⟨added, lsn, memories ▸ appended, inside⟩

/-- The edges of a committed action are authored as the framework may. -/
theorem Dispatched.mayAuthor (keyed : Keyed s.rows)
    (dispatched : Dispatched store env actions entry ctx input s reg ontology product prepared)
    {edge : Relationship} (listed : edge ∈ prepared.relationships) :
    MayAuthor ontology ctx.visibility s
      (dispatchPackAction store env actions entry ctx input s).2 edge := by
  obtain ⟨pack, rows, prepares⟩ := dispatched.prepares
  obtain ⟨source, target, kind, e, starts, ends, named, asserted, triple, rfl⟩ :=
    prepares.edge listed
  have label := relationshipVisibility_rank source.visibility target.visibility
  have known := ontology.kindMeta_kindId named
  obtain ⟨row, found, -⟩ := Option.map_eq_some_iff.mp known
  rw [found, Option.any_some] at asserted
  refine ⟨source, target, row, rfl, rfl, dispatched.written starts, ?_, found, asserted, triple,
    label ▸ Nat.min_le_left _ _, label ▸ Nat.min_le_right _ _⟩
  rcases ends with member | ⟨id, resolved⟩
  · exact .inl (dispatched.written member)
  · obtain ⟨-, current, visible⟩ := (harvestVisibleTargets_eq_some_iff keyed).mp resolved
    exact .inr ⟨keyed.memory_id current ▸ current, visible⟩

/-- **A committed action keeps to the framework exactly when the caller holds a grant of every
label of its product.** -/
theorem Dispatched.keeps_iff (keyed : Keyed s.rows)
    (dispatched : Dispatched store env actions entry ctx input s reg ontology product prepared) :
    KeepsToFramework store ontology reg ctx.visibility s
        (dispatchPackAction store env actions entry ctx input s).2 ↔
      ∀ m ∈ product.memories, ctx.visibility.Grants m.visibility := by
  obtain ⟨pack, keyedRows, prepares⟩ := dispatched.prepares
  constructor
  · intro keeps m produced
    obtain ⟨id, memoryType, listed⟩ := prepares.mem_memories.2 m produced
    obtain ⟨added, lsn, appended, inside⟩ := dispatched.written listed
    obtain ⟨others, grown, visible⟩ := keeps.memories (actionRow reg ctx.visibility env id
      memoryType m).id
    obtain rfl : added = others := List.append_cancel_left (appended.symm.trans grown)
    exact (memoryVisible_actionRow ctx.visibility id memoryType m lsn).mp (visible _ inside).2
  · intro grants
    obtain ⟨records, events, t, committed, memories, rels⟩ := dispatched.committed
    refine ⟨fun id => ?_, fun id => ?_⟩
    · obtain ⟨added, appended, rows⟩ := upsertBatchLocked_memories_added committed id
      refine ⟨added, memories ▸ appended, fun row inside => ?_⟩
      obtain ⟨m, listed, -, lsn, rfl⟩ := rows row inside
      obtain ⟨own, produced, newId, memoryType, within, rfl⟩ := prepares.mem_memories.1 m listed
      exact ⟨within, (memoryVisible_actionRow ctx.visibility newId memoryType own lsn).mpr
        (grants own produced)⟩
    · obtain ⟨added, appended, rows⟩ := upsertBatchLocked_added committed id
      refine ⟨added, rels ▸ appended, fun row inside => ?_⟩
      obtain ⟨edge, lsn, authored | ⟨other, authored, companion⟩, rfl⟩ := rows row inside
      · exact ⟨edge, lsn, rfl, .inl (dispatched.mayAuthor keyed authored)⟩
      · exact ⟨edge, lsn, rfl, .inr ⟨other, dispatched.mayAuthor keyed authored, companion⟩⟩

end Reached

/-- The caller holds a grant of every label that an admissible product of the action carries. -/
def GrantsProducts (actions : List PackActionRegistration) (entry : String) (ctx : OpContext)
    (input : JsonValue) (s : InMemoryStorage) : Prop :=
  ∀ reg ontology product, findAction actions entry = .ok reg → ctx.ontology = some ontology →
    reg.Yields ontology (harvestVisibleTargets s ctx.visibility input) ctx.visibility input
      product →
    ∀ m ∈ product.memories, ctx.visibility.Grants m.visibility

theorem actionKeeps_iff (store : Env) (env : ActionEnv)
    (actions : List PackActionRegistration) (entry : String) (ctx : OpContext) (input : JsonValue)
    {s : InMemoryStorage} (keyed : Keyed s.rows) :
    ActionKeeps store env actions entry ctx input s ↔
      GrantsProducts actions entry ctx input s := by
  by_cases yielded : ∃ reg ontology product, findAction actions entry = .ok reg ∧
      ctx.ontology = some ontology ∧ reg.Yields ontology
        (harvestVisibleTargets s ctx.visibility input) ctx.visibility input product
  · obtain ⟨reg, ontology, product, found, loaded, yields⟩ := yielded
    obtain ⟨prepared, dispatched⟩ : ∃ prepared,
        Dispatched store env actions entry ctx input s reg ontology product prepared :=
      dispatchPackAction_commits keyed found loaded yields
    have keeps := dispatched.keeps_iff keyed
    obtain ⟨lsn, reply⟩ := dispatched.reply
    rw [ActionKeeps]
    rcases run : dispatchPackAction store env actions entry ctx input s with ⟨result, after⟩
    rw [run] at reply keeps
    obtain rfl := reply
    constructor
    · rintro ⟨again, loadedAgain, foundAgain, same, confined⟩ other _ produced isOther isLoaded
        othersYield
      obtain rfl := Except.ok.inj (found.symm.trans foundAgain)
      obtain rfl := Except.ok.inj (found.symm.trans isOther)
      obtain rfl := Option.some.inj (loaded.symm.trans same)
      obtain rfl := Except.ok.inj (yields.2.1.symm.trans othersYield.2.1)
      exact keeps.mp confined
    · exact fun grants => ⟨reg, ontology, found, loaded,
        keeps.mpr (grants reg ontology product found loaded yields)⟩
  · have refused : ∀ reg ontology product, findAction actions entry = .ok reg →
        ctx.ontology = some ontology → ¬ reg.Yields ontology
          (harvestVisibleTargets s ctx.visibility input) ctx.visibility input product :=
      fun reg ontology product found loaded yields =>
        yielded ⟨reg, ontology, product, found, loaded, yields⟩
    obtain ⟨error, run⟩ : ∃ error,
        dispatchPackAction store env actions entry ctx input s = (.error error, s) :=
      dispatchPackAction_refuses refused
    rw [ActionKeeps, run]
    exact ⟨fun _ reg ontology product found loaded yields =>
      absurd yields (refused reg ontology product found loaded), fun _ => rfl⟩

/-- **From every store that the calls reach, an action keeps to the framework exactly when the
caller holds a grant of every label that an admissible product of it carries.** -/
theorem packAction_keeps_iff (store : Env) (env : ActionEnv)
    (actions : List PackActionRegistration) (entry : String) (ctx : OpContext)
    (input : JsonValue) (calls : List (DateTime × Call)) :
    ActionKeeps store env actions entry ctx input (Call.runAll store .new calls) ↔
      GrantsProducts actions entry ctx input (Call.runAll store .new calls) :=
  actionKeeps_iff store env actions entry ctx input (runAll_keyed store calls)

/-! ## A label without a grant -/

/-- New identities in order, and functions that tell nothing apart. -/
def countingEnv : ActionEnv where
  newId := fun place => ⟨.fill 16 (.ofNat place)⟩
  now := 0
  outside := ⟨fun _ _ => none, fun text => text⟩
  blake3 := fun _ => .fill 32 0
  digestInput := fun _ => .fill 32 0

/-- A note for the project. -/
def findingNote : ActionMemory where
  draftKey := "finding"
  memoryType := 0
  title := "finding"
  content := "the rule does not hold"
  summary := none
  visibility := .project
  tags := []

/-- An action that files the note. -/
def fileFinding : PackActionRegistration where
  packName := "small"
  verbName := "FileFinding"
  ceiling := .project
  run := fun _ _ => .ok ⟨[findingNote], []⟩
  verb_plain := by decide

/-- A caller of the project level who has no project. -/
def projectless : OpContext where
  visibility := ⟨"alice", "acme", [], [], .project⟩
  ontology := some smallOntology
  fingerprint := .fill 32 0

theorem fileFinding_yields (resolveTarget : MemoryId → Option Memory) :
    fileFinding.Yields smallOntology resolveTarget projectless.visibility .null
      ⟨[findingNote], []⟩ := by
  refine ⟨by decide, rfl, smallPack, rfl, ?_, by decide, ?_⟩
  · intro m listed
    obtain rfl := List.mem_singleton.mp listed
    exact ⟨0, rfl, rfl, by decide, by decide, by decide⟩
  · exact fun e listed => absurd listed List.not_mem_nil

/-- **An action writes a memory that its caller may not read.** -/
theorem not_packAction_keeps :
    ¬ ActionKeeps Call.pairEnv countingEnv [fileFinding] "small.FileFinding" projectless .null
      .new := by
  intro keeps
  have grants := (actionKeeps_iff _ _ _ _ _ _ (runAll_keyed Call.pairEnv [])).mp keeps
  exact (grants fileFinding smallOntology _ rfl rfl (fileFinding_yields _) findingNote
    List.mem_cons_self).2.1 rfl rfl

end Exocortex
