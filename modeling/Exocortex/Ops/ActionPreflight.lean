import Exocortex.Ops.ActionReach

/-!
# A dry run of an action, and the action

The dry run and the dispatch prepare the same product under the same rules. They differ in three
ways. The dry run takes stored memories from the cache under whatever identity the body produced,
the dispatch only those whose identity is a text of the input. The dispatch finds its
registration through the name of the registry entry, which it splits at the first dot. And the
dry run counts in 32 bits.

Where the cache serves the visible rows of the store, the two agree exactly when none of these
matters for an admissible product (`preflight_agrees_iff`).
-/

namespace Exocortex

open Library InMemoryStorage

/-- The cache serves a caller the current rows that the caller may read. -/
def cacheServes (s : InMemoryStorage) (caller : VisibilityContext) (id : MemoryId) :
    Option Memory :=
  (s.currentMemory id).filter (memoryVisible · caller)

/-! ## Entry names -/

/-- A name splits at its first dot. -/
theorem splitEntryName_eq (name : String) {first : List Char} {rest : List Char}
    (plain : '.' ∉ first) (parts : name.toList = first ++ '.' :: rest) :
    splitEntryName name = some (String.ofList first, String.ofList rest) := by
  have keep : ∀ c ∈ first, decide (c ≠ '.') = true :=
    fun c listed => decide_eq_true fun same => plain (same ▸ listed)
  have stop : decide ('.' ≠ '.') = false := by decide
  rw [splitEntryName, parts, List.span_eq_takeWhile_dropWhile,
    List.takeWhile_append_of_pos keep, List.dropWhile_append_of_pos keep]
  simp

variable {reg : PackActionRegistration}

theorem findAction_entry_iff {actions : List PackActionRegistration} {pack verb : String} :
    findAction actions (pack ++ "." ++ verb) = .ok reg ↔
      '.' ∉ pack.toList ∧ findRegistered actions pack verb = some reg := by
  have parts : (pack ++ "." ++ verb).toList = pack.toList ++ '.' :: verb.toList := by
    simp
  by_cases dotted : '.' ∈ pack.toList
  · -- What stands after the first dot then has a dot itself, and no verb has one.
    obtain ⟨first, rest, split, plain⟩ := List.eq_append_cons_of_mem dotted
    have later : (pack ++ "." ++ verb).toList = first ++ '.' :: (rest ++ '.' :: verb.toList) := by
      rw [parts, split, List.append_assoc, List.cons_append]
    rw [findAction, splitEntryName_eq _ plain later]
    refine ⟨fun ok => ?_, fun both => absurd dotted both.1⟩
    have found := orReject_ok_iff.mp ok
    have named := List.find?_some found
    simp only [Bool.and_eq_true, decide_eq_true_eq] at named
    have dot : '.' ∈ reg.verbName.toList := by
      rw [named.2, String.toList_ofList]
      simp
    exact absurd dot reg.verb_plain
  · rw [findAction, splitEntryName_eq _ dotted parts, String.ofList_toList, String.ofList_toList]
    exact ⟨fun ok => ⟨dotted, orReject_ok_iff.mp ok⟩, fun both => orReject_ok_iff.mpr both.2⟩

/-! ## The two readers of targets -/

/-- The input names the stored memories that the edges of the product end at. -/
def ActionProduct.TargetsNamed (product : ActionProduct) (input : JsonValue) : Prop :=
  ∀ e ∈ product.edges, ∀ id, e.to_ = .memory id → id ∈ harvest input

section Readers

variable {s : InMemoryStorage} {caller : VisibilityContext} {input : JsonValue}
  {ontology : EffectiveOntology} {reg : PackActionRegistration} {pack : PackDef}
  {product : ActionProduct}

theorem harvest_eq_some_iff (keyed : Keyed s.rows) {id : MemoryId} {row : Memory} :
    harvestVisibleTargets s caller input id = some row ↔
      id ∈ harvest input ∧ cacheServes s caller id = some row := by
  rw [harvestVisibleTargets_eq_some_iff keyed, cacheServes, Option.filter_eq_some_iff]

theorem joins_harvest_iff (keyed : Keyed s.rows) {e : ActionEdge} :
    product.Joins ontology pack (harvestVisibleTargets s caller input) e ↔
      product.Joins ontology pack (cacheServes s caller) e ∧
        ∀ id, e.to_ = .memory id → id ∈ harvest input := by
  have reaches : ∀ memoryType, product.Reaches ontology pack
      (harvestVisibleTargets s caller input) e.to_ memoryType ↔
        product.Reaches ontology pack (cacheServes s caller) e.to_ memoryType ∧
          ∀ id, e.to_ = .memory id → id ∈ harvest input := by
    intro memoryType
    cases e.to_ with
    | draft key => exact ⟨fun drafts => ⟨drafts, fun _ impossible => by cases impossible⟩,
        fun both => both.1⟩
    | memory id =>
        simp only [ActionProduct.Reaches, harvest_eq_some_iff keyed]
        constructor
        · rintro ⟨row, ⟨asked, served⟩, type⟩
          exact ⟨⟨row, served, type⟩, fun _ same => ActionTarget.memory.inj same ▸ asked⟩
        · rintro ⟨⟨row, served, type⟩, asked⟩
          exact ⟨row, ⟨asked id rfl, served⟩, type⟩
  constructor
  · rintro ⟨sourceType, targetType, kind, starts, ends, rules⟩
    obtain ⟨served, asked⟩ := (reaches targetType).mp ends
    exact ⟨⟨sourceType, targetType, kind, starts, served, rules⟩, asked⟩
  · rintro ⟨⟨sourceType, targetType, kind, starts, served, rules⟩, asked⟩
    exact ⟨sourceType, targetType, kind, starts, (reaches targetType).mpr ⟨served, asked⟩, rules⟩

/-- An admissible product passes with the targets of the input when the input names its
targets. -/
theorem yields_harvest_iff (keyed : Keyed s.rows) :
    reg.Yields ontology (harvestVisibleTargets s caller input) caller input product ↔
      reg.Yields ontology (cacheServes s caller) caller input product ∧
        product.TargetsNamed input := by
  constructor
  · rintro ⟨ceiling, ran, pack, loaded, memories, keys, edges⟩
    have joins := fun e listed => (joins_harvest_iff keyed).mp (edges e listed)
    exact ⟨⟨ceiling, ran, pack, loaded, memories, keys, fun e listed => (joins e listed).1⟩,
      fun e listed => (joins e listed).2⟩
  · rintro ⟨⟨ceiling, ran, pack, loaded, memories, keys, edges⟩, named⟩
    exact ⟨ceiling, ran, pack, loaded, memories, keys,
      fun e listed => (joins_harvest_iff keyed).mpr ⟨edges e listed, named e listed⟩⟩

end Readers

/-! ## The verdicts -/

section Verdicts

variable {store : Env} {env : ActionEnv} {actions : List PackActionRegistration}
  {pack verb entry : String} {ctx : OpContext} {guidance : String} {input : JsonValue}
  {s : InMemoryStorage} {serves : MemoryId → Option Memory}

/-- The number of rows of a product. -/
def ActionProduct.rowCount (product : ActionProduct) : ℕ :=
  product.memories.length + product.edges.length

theorem Prepares.count {ontology : EffectiveOntology} {caller : VisibilityContext}
    {packDef : PackDef} {product : ActionProduct} {rows : List (String × Memory)}
    {prepared : PreparedAction}
    (prepares : Prepares ontology reg caller env serves packDef product rows prepared) :
    prepared.memories.length + prepared.relationships.length = product.rowCount := by
  rw [prepares.memories, List.length_map, ← prepares.written.length_eq,
    ← prepares.relationships.length_eq]
  rfl

/-- A dry run without rejections has found, and counts, an admissible product. -/
theorem preflightAction_accepts_iff {count : UInt32} :
    (∃ verdict, preflightAction env actions pack verb ctx guidance serves input = .ok verdict ∧
        verdict.rejections = [] ∧ verdict.wouldAccept = count) ↔
      ∃ reg ontology product, findRegistered actions pack verb = some reg ∧
        ctx.ontology = some ontology ∧
        reg.Yields ontology serves ctx.visibility input product ∧
        count = .ofNat product.rowCount := by
  constructor
  · rintro ⟨verdict, ran, clean, rfl⟩
    simp only [preflightAction, bind_eq_ok_iff, orReject_ok_iff] at ran
    obtain ⟨reg, found, ontology, loaded, ran⟩ := ran
    split at ran
    next prepared ok =>
      obtain ⟨product, packDef, rows, yields, prepares⟩ := preparePackAction_ok ok
      obtain rfl := Except.ok.inj ran
      exact ⟨reg, ontology, product, found, loaded, yields, prepares.count ▸ rfl⟩
    next =>
      obtain rfl := Except.ok.inj ran
      cases clean
    next =>
      obtain rfl := Except.ok.inj ran
      cases clean
    next => cases ran
  · rintro ⟨reg, ontology, product, found, loaded, yields, rfl⟩
    obtain ⟨prepared, ok⟩ : ∃ prepared, preparePackAction ontology reg ctx.visibility env serves
        input = .ok prepared := preparePackAction_ok_iff.mpr ⟨product, yields⟩
    obtain ⟨again, packDef, rows, yielded, prepares⟩ := preparePackAction_ok ok
    obtain rfl : again = product := Except.ok.inj (yielded.2.1.symm.trans yields.2.1)
    refine ⟨⟨.ofNat (prepared.memories.length + prepared.relationships.length), 0, []⟩, ?_, rfl,
      congrArg UInt32.ofNat prepares.count⟩
    simp only [preflightAction, bind_eq_ok_iff, orReject_ok_iff]
    exact ⟨reg, found, ontology, loaded, by rw [ok]⟩

/-- A dispatch answers with the rows of the product that it committed. -/
theorem dispatchPackAction_accepts_iff (keyed : Keyed s.rows) {count : ℕ} :
    (∃ output, (dispatchPackAction store env actions entry ctx input s).1 = .ok output ∧
        output.memories.length + output.edges.length = count) ↔
      ∃ reg ontology product, findAction actions entry = .ok reg ∧ ctx.ontology = some ontology ∧
        reg.Yields ontology (harvestVisibleTargets s ctx.visibility input) ctx.visibility input
          product ∧ count = product.rowCount := by
  have commits : ∀ reg ontology product, findAction actions entry = .ok reg →
      ctx.ontology = some ontology → reg.Yields ontology
        (harvestVisibleTargets s ctx.visibility input) ctx.visibility input product →
      ∃ output, (dispatchPackAction store env actions entry ctx input s).1 = .ok output ∧
        output.memories.length + output.edges.length = product.rowCount := by
    intro reg ontology product found loaded yields
    obtain ⟨prepared, dispatched⟩ : ∃ prepared,
        Dispatched store env actions entry ctx input s reg ontology product prepared :=
      dispatchPackAction_commits keyed found loaded yields
    obtain ⟨packDef, rows, prepares⟩ := dispatched.prepares
    obtain ⟨lsn, reply⟩ := dispatched.reply
    refine ⟨_, reply, ?_⟩
    rw [List.length_map, List.length_map, prepares.count]
  constructor
  · rintro ⟨output, committed, rfl⟩
    by_contra none
    have refused : ∀ reg ontology product, findAction actions entry = .ok reg →
        ctx.ontology = some ontology → ¬ reg.Yields ontology
          (harvestVisibleTargets s ctx.visibility input) ctx.visibility input product := by
      intro reg ontology product found loaded yields
      obtain ⟨again, answered, count⟩ := commits reg ontology product found loaded yields
      obtain rfl := Except.ok.inj (answered.symm.trans committed)
      exact none ⟨reg, ontology, product, found, loaded, yields, count⟩
    obtain ⟨error, run⟩ : ∃ error,
        dispatchPackAction store env actions entry ctx input s = (.error error, s) :=
      dispatchPackAction_refuses refused
    rw [run] at committed
    cases committed
  · rintro ⟨reg, ontology, product, found, loaded, yields, rfl⟩
    exact commits reg ontology product found loaded yields

end Verdicts

/-- The dry run reports no rejection exactly when the action commits, and then counts the memories
and authored edges that it commits. -/
def PreflightAgrees (store : Env) (dryEnv env : ActionEnv) (actions : List PackActionRegistration)
    (pack verb : String) (ctx : OpContext) (guidance : String) (input : JsonValue)
    (s : InMemoryStorage) : Prop :=
  ((∃ verdict, preflightAction dryEnv actions pack verb ctx guidance
      (cacheServes s ctx.visibility) input = .ok verdict ∧ verdict.rejections = []) ↔
    ∃ output, (dispatchPackAction store env actions (pack ++ "." ++ verb) ctx input s).1 =
      .ok output) ∧
  ∀ verdict output, preflightAction dryEnv actions pack verb ctx guidance
      (cacheServes s ctx.visibility) input = .ok verdict → verdict.rejections = [] →
    (dispatchPackAction store env actions (pack ++ "." ++ verb) ctx input s).1 = .ok output →
    verdict.wouldAccept.toNat = output.memories.length + output.edges.length

/-- Where the body yields a product that is admissible with the rows of the cache, the pack has no
dot in its name, the input names the targets, and the rows are counted in 32 bits. -/
def PlainlyNamed (actions : List PackActionRegistration) (pack verb : String) (ctx : OpContext)
    (input : JsonValue) (s : InMemoryStorage) : Prop :=
  ∀ reg ontology product, findRegistered actions pack verb = some reg →
    ctx.ontology = some ontology →
    reg.Yields ontology (cacheServes s ctx.visibility) ctx.visibility input product →
    '.' ∉ pack.toList ∧ product.TargetsNamed input ∧ product.rowCount < 2 ^ 32

theorem preflightAgrees_iff (store : Env) (dryEnv env : ActionEnv)
    (actions : List PackActionRegistration) (pack verb : String) (ctx : OpContext)
    (guidance : String) (input : JsonValue) {s : InMemoryStorage} (keyed : Keyed s.rows) :
    PreflightAgrees store dryEnv env actions pack verb ctx guidance input s ↔
      PlainlyNamed actions pack verb ctx input s := by
  -- A commit is one of the registration that the dry run finds, of the same product.
  have commits : ∀ {output : PackActionOutput},
      (dispatchPackAction store env actions (pack ++ "." ++ verb) ctx input s).1 = .ok output →
      ∃ reg ontology product, '.' ∉ pack.toList ∧ findRegistered actions pack verb = some reg ∧
        ctx.ontology = some ontology ∧
        reg.Yields ontology (cacheServes s ctx.visibility) ctx.visibility input product ∧
        product.TargetsNamed input ∧
        output.memories.length + output.edges.length = product.rowCount := by
    intro output committed
    obtain ⟨reg, ontology, product, isEntry, loaded, yields, count⟩ :=
      (dispatchPackAction_accepts_iff keyed).mp ⟨output, committed, rfl⟩
    obtain ⟨plain, found⟩ := findAction_entry_iff.mp isEntry
    obtain ⟨served, named⟩ := (yields_harvest_iff keyed).mp yields
    exact ⟨reg, ontology, product, plain, found, loaded, served, named, count⟩
  constructor
  · rintro ⟨agree, counts⟩ reg ontology product found loaded yields
    obtain ⟨verdict, dry, clean, accept⟩ := preflightAction_accepts_iff.mpr
      ⟨reg, ontology, product, found, loaded, yields, rfl⟩
    obtain ⟨output, committed⟩ := agree.mp ⟨verdict, dry, clean⟩
    obtain ⟨other, _, again, plain, registered, same, served, named, count⟩ := commits committed
    obtain rfl := Option.some.inj (found.symm.trans registered)
    obtain rfl := Except.ok.inj (yields.2.1.symm.trans served.2.1)
    have counted := counts verdict output dry clean committed
    rw [accept, count, UInt32.toNat_ofNat'] at counted
    exact ⟨plain, named, counted ▸ Nat.mod_lt _ (by decide)⟩
  · intro plainly
    refine ⟨⟨?_, ?_⟩, ?_⟩
    · rintro ⟨verdict, dry, clean⟩
      obtain ⟨reg, ontology, product, found, loaded, yields, -⟩ :=
        preflightAction_accepts_iff.mp ⟨verdict, dry, clean, rfl⟩
      obtain ⟨plain, named, -⟩ := plainly reg ontology product found loaded yields
      obtain ⟨output, committed, -⟩ := (dispatchPackAction_accepts_iff keyed).mpr ⟨reg, ontology,
        product, findAction_entry_iff.mpr ⟨plain, found⟩, loaded,
        (yields_harvest_iff keyed).mpr ⟨yields, named⟩, rfl⟩
      exact ⟨output, committed⟩
    · rintro ⟨output, committed⟩
      obtain ⟨reg, ontology, product, -, found, loaded, served, -⟩ := commits committed
      obtain ⟨verdict, dry, clean, -⟩ := preflightAction_accepts_iff.mpr
        ⟨reg, ontology, product, found, loaded, served, rfl⟩
      exact ⟨verdict, dry, clean⟩
    · intro verdict output dry clean committed
      obtain ⟨reg, ontology, product, -, found, loaded, served, -, count⟩ := commits committed
      obtain ⟨other, _, again, registered, same, yields, accept⟩ :=
        preflightAction_accepts_iff.mp ⟨verdict, dry, clean, rfl⟩
      obtain rfl := Option.some.inj (found.symm.trans registered)
      obtain rfl := Option.some.inj (loaded.symm.trans same)
      obtain rfl := Except.ok.inj (yields.2.1.symm.trans served.2.1)
      obtain ⟨-, -, bounded⟩ := plainly _ _ _ found loaded served
      rw [accept, count, UInt32.toNat_ofNat', Nat.mod_eq_of_lt bounded]

/-- **In every store that the calls reach, with a cache that serves its visible rows, the dry run
agrees with the action exactly when an admissible product is plainly named.** -/
theorem preflight_agrees_iff (store : Env) (dryEnv env : ActionEnv)
    (actions : List PackActionRegistration) (pack verb : String) (ctx : OpContext)
    (guidance : String) (input : JsonValue) (calls : List (DateTime × Call)) :
    PreflightAgrees store dryEnv env actions pack verb ctx guidance input
        (Call.runAll store .new calls) ↔
      PlainlyNamed actions pack verb ctx input (Call.runAll store .new calls) :=
  preflightAgrees_iff store dryEnv env actions pack verb ctx guidance input
    (runAll_keyed store calls)

/-! ## A target that the body knows -/

/-- A solution of the note, whose identity the body knows. -/
def citingProduct : ActionProduct where
  memories := [{ findingNote with draftKey := "solution", memoryType := 1, visibility := .org }]
  edges := [⟨"solution", .memory acmeNote.id, "Solves", none⟩]

def citeNote : PackActionRegistration where
  packName := "small"
  verbName := "CiteNote"
  ceiling := .org
  run := fun _ _ => .ok citingProduct
  verb_plain := by decide

def citingContext : OpContext where
  visibility := ⟨"alice", "acme", [], [], .org⟩
  ontology := some smallOntology
  fingerprint := .fill 32 0

theorem citeNote_yields :
    citeNote.Yields smallOntology (cacheServes notedStore citingContext.visibility)
      citingContext.visibility .null citingProduct := by
  refine ⟨by decide, rfl, smallPack, rfl, ?_, by decide, ?_⟩
  · intro m listed
    obtain rfl := List.mem_singleton.mp listed
    exact ⟨1, rfl, rfl, by decide, by decide, by decide⟩
  · intro e listed
    obtain rfl := List.mem_singleton.mp listed
    exact ⟨1, 0, ⟨0⟩, ⟨_, List.mem_cons_self, rfl, rfl⟩, ⟨_, rfl, rfl⟩, rfl, rfl, rfl⟩

/-- **The dry run accepts an action that the dispatch rejects.** -/
theorem not_preflight_agrees :
    ¬ PreflightAgrees Call.pairEnv countingEnv countingEnv [citeNote] "small" "CiteNote"
      citingContext "" .null notedStore := by
  intro agrees
  have plainly := (preflightAgrees_iff _ _ _ _ _ _ _ _ _ (runAll_keyed Call.pairEnv _)).mp agrees
  have named := (plainly citeNote smallOntology citingProduct rfl rfl citeNote_yields).2.1
  exact absurd (named _ List.mem_cons_self acmeNote.id rfl) List.not_mem_nil

end Exocortex
