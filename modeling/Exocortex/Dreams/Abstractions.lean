import Exocortex.Dreams.Merge

/-!
# Abstractions of classes

After the merges a cycle writes one abstraction row for each class of three or more of its
remaining anchors. A class is a memory type with an access scope, which is a label and the
subject of the label; the row has the label of the members, the context of the member with the
smallest identity, and the titles of the members as its content.

A scope does not name the tenant. Where the members of a class are of one tenant, the row's
readers are the readers of each of them; where they are not, the tenant of the first member
reads the titles of all.

The mean similarity of a class, its centroid and the names of the memory types are parameters.
-/

namespace Exocortex

open Library InMemoryStorage

/-- What the engine takes from its pack: the type that carries abstractions, the kind of the
membership edges and the names of the memory types. -/
structure AbstractionPack where
  carrierType : Option UInt8
  summarizes : Option RelKindId
  typeNames : List String

/-- The scores of a class. -/
structure ClassScores where
  cohesion : List MemoryWithEmbedding → F32
  centroid : List MemoryWithEmbedding → List F32

/-- `clamp` to the scores; what is not a number stays so. -/
def F32.clamp01 (x : F32) : F32 :=
  if x.lt .zero then .zero else if F32.one.lt x then .one else x

/-! ## Classes -/

/-- The subject that a label is resolved against. -/
def MemoryContext.subject (context : MemoryContext) : Visibility → Option String
  | .project => context.projectId
  | .team => context.teamId
  | .private => context.userId
  | .org | .public => none

/-- A label with its subject. -/
def scopeOf (ws : RegionWorkingSet) (anchor : MemoryWithEmbedding) : Visibility × Option String :=
  (anchor.visibility, (ws.memories.lookup anchor.id).bind (·.context.subject anchor.visibility))

/-- A memory type with an access scope. -/
abbrev ScopeKey := UInt8 × Visibility × Option String

def scopeKey (ws : RegionWorkingSet) (anchor : MemoryWithEmbedding) : ScopeKey :=
  (anchor.class, scopeOf ws anchor)

/-- Keys order by their type, their label and their subject. -/
def scopeKeyLe (left right : ScopeKey) : Bool :=
  if left.1 ≠ right.1 then left.1 < right.1
  else if left.2.1 ≠ right.2.1 then left.2.1 < right.2.1
  else
    match left.2.2, right.2.2 with
    | none, _ => true
    | some _, none => false
    | some left, some right => !decide (right < left)

/-- The classes of the anchors that were not merged, in the order of their keys. -/
def classes (ws : RegionWorkingSet) (merged : List MemoryId)
    (anchors : List MemoryWithEmbedding) : List (List MemoryWithEmbedding) :=
  ((Table.groupBy (scopeKey ws) (anchors.filter (!merged.contains ·.id))).sortedEntries
    scopeKeyLe).map (·.2)

/-! ## One abstraction -/

def memberIds (members : List MemoryWithEmbedding) : List MemoryId :=
  (members.map (·.id)).insertionSort (·.raw.le ·.raw)

/-- The identity of an abstraction hashes those of its members. -/
def deriveAbstractionId (env : Env) (members : List MemoryId) : MemoryId :=
  ⟨(env.sha256 ("exocortex-abstraction-v1".toUTF8.toList ++
    members.flatMap (·.raw.bytes))).take 16 Bytes.id_fits⟩

/-- At most eight titles, and the number of the others. -/
def titleList (titles : List String) : String :=
  let shown := "\n".intercalate (titles.take 8)
  if 8 < titles.length then shown ++ "\n…and " ++ toString (titles.length - 8) ++ " more"
  else shown

/-- The name of a memory type, or its number. -/
def className (pack : AbstractionPack) (type : UInt8) : String :=
  match pack.typeNames[type.toNat]? with
  | some name => name
  | none => "class-" ++ toString type.toNat

/-- The narrowest label of some members. -/
def narrowest : List MemoryWithEmbedding → Visibility
  | [] => .public
  | [member] => member.visibility
  | member :: rest =>
      if narrowest rest < member.visibility then narrowest rest else member.visibility

/-- The row of a class. Without its first member in the working set there is none. -/
def abstractionRow (env : Env) (pack : AbstractionPack) (scores : ClassScores) (now : DateTime)
    (carrierType : UInt8) (ws : RegionWorkingSet) (members : List MemoryWithEmbedding) :
    Option Memory := do
  let ids := memberIds members
  let first ← ids.head?
  let row ← ws.memories.lookup first
  let head ← members.head?
  let cohesion := scores.cohesion members
  return {
    id := deriveAbstractionId env ids
    memoryType := carrierType
    title := "Abstraction of " ++ toString members.length ++ " " ++ className pack head.class
    content := titleList (ids.filterMap fun id => (ws.memories.lookup id).map (·.title))
    summary := none
    tags := []
    visibility := narrowest members
    provenance := .computed .abstraction cohesion
    context := { row.context with timestamp := now }
    importance := .half
    confidence := (F01.new cohesion.clamp01).getD .half
    effectiveness := none
    usageCount := 0
    validFrom := now
    validUntil := none
    recordedAt := now
    invalidatedBy := none
    embedding := some ⟨head.embedding.model, scores.centroid members⟩
    lsn := LSN.newLocal 0
    rights := none }

/-- The edge from an abstraction to a member. -/
def summarizesEdge (env : Env) (kind : RelKindId) (scores : ClassScores) (now : DateTime)
    (row : Memory) (members : List MemoryWithEmbedding) (member : MemoryWithEmbedding) :
    Relationship where
  id := RelationshipId.derive env.blake3 row.id kind member.id none
  kind := kind
  source := row.id
  target := member.id
  visibility := relationshipVisibility row.visibility member.visibility
  provenance := .computed .abstraction (scores.cohesion members)
  properties := ⟨(scores.cohesion members).clamp01, (scores.cohesion members).clamp01, none,
    members.length, none, 0, 0, now⟩
  description := none
  bidirectional := true
  validFrom := now
  validUntil := none
  recordedAt := now
  invalidatedBy := none
  lsn := LSN.newLocal 0

/-- The rows to be written, while the classes are gone through. -/
structure Abstracting where
  journal : CycleJournal
  memories : List Memory
  edges : List Relationship
  abstracted : List MemoryId

section Writing

variable (env : Env) (pack : AbstractionPack) (scores : ClassScores) (now : DateTime)
  (carrierType : UInt8) (summarizes : RelKindId) (ws : RegionWorkingSet)
  (known : MemoryId → Bool)

/-- The class is large enough, and neither the working set nor the store, when it was asked,
has its abstraction. -/
def abstracts (members : List MemoryWithEmbedding) : Bool :=
  decide (3 ≤ members.length) &&
    let id := deriveAbstractionId env (memberIds members)
    !((ws.memories.lookup id).isSome || known id)

/-- One class. -/
def abstractClass (acc : Abstracting) (members : List MemoryWithEmbedding) : Abstracting :=
  let id := deriveAbstractionId env (memberIds members)
  if members.length < 3 then acc
  else if (ws.memories.lookup id).isSome || known id then
    { acc with abstracted := acc.abstracted ++ [id] }
  else
    match abstractionRow env pack scores now carrierType ws members with
    | none => acc
    | some row =>
        let edges := (members.map (summarizesEdge env summarizes scores now row members)).filter
          fun edge => (ws.relationships.lookup edge.id).isNone
        { journal := edges.foldl CycleJournal.createRelationship (acc.journal.createMemory row)
          memories := acc.memories ++ [row]
          edges := acc.edges ++ edges
          abstracted := acc.abstracted ++ [id] }

end Writing

/-- The abstractions of a cycle, written as one batch. `known` is what the store answered
about their identities. -/
def writeAbstractions (engine : DreamsEngine) (pack : AbstractionPack) (scores : ClassScores)
    (lease : OwnerLease) (now commitAt : DateTime) (known : MemoryId → Bool)
    (anchors : List MemoryWithEmbedding) (cycle : Consolidation) :
    Except StorageError Unit × Consolidation :=
  match pack.carrierType, pack.summarizes with
  | some carrierType, some summarizes =>
      let ws := cycle.workingSet
      let acc := (classes ws cycle.merged anchors).foldl
        (abstractClass engine.env pack scores now carrierType summarizes ws known)
        ⟨cycle.journal, [], [], cycle.abstracted⟩
      if acc.memories.isEmpty && acc.edges.isEmpty then
        (.ok (), { cycle with journal := acc.journal, abstracted := acc.abstracted })
      else
        let journal := acc.journal.prepareRelationshipWrites engine.inverse acc.edges
          ws.relationships
        match commitJournaled engine.env acc.memories acc.edges journal lease commitAt
            cycle.store with
        | (.error error, store) =>
            (.error error, { cycle with
              store := store, journal := journal, abstracted := acc.abstracted })
        | (.ok commit, store) =>
            (.ok (), { cycle with
              store := store
              workingSet := (acc.memories.foldl RegionWorkingSet.insertMemory
                ws).applyRelationshipWrites engine.inverse acc.edges
              journal := journal.recordCommit commit
              abstracted := acc.abstracted })
  | _, _ => (.ok (), cycle)

/-! ## Which rows are written -/

variable {members : List MemoryWithEmbedding}

section Rows

variable {env : Env} {pack : AbstractionPack} {scores : ClassScores} {now : DateTime}
  {carrierType : UInt8} {summarizes : RelKindId} {ws : RegionWorkingSet}
  {known : MemoryId → Bool}

/-- The rows of the classes gone through are those of the classes that are abstracted. -/
theorem foldl_abstractClass_memories (cs : List (List MemoryWithEmbedding)) (acc : Abstracting) :
    (cs.foldl (abstractClass env pack scores now carrierType summarizes ws known) acc).memories =
      acc.memories ++ (cs.filter (abstracts env ws known)).filterMap
        (abstractionRow env pack scores now carrierType ws) := by
  induction cs using List.reverseRecOn with
  | nil => simp
  | append_singleton cs members ih =>
      rw [List.foldl_append, List.foldl_cons, List.foldl_nil, List.filter_append,
        List.filterMap_append, ← List.append_assoc, ← ih, abstractClass]
      by_cases small : members.length < 3
      · simp [small, abstracts, Nat.not_le.mpr small]
      · rw [if_neg small]
        by_cases present : ((ws.memories.lookup (deriveAbstractionId env
            (memberIds members))).isSome || known (deriveAbstractionId env (memberIds members)))
            = true
        · simp [present, abstracts]
        · have taken : abstracts env ws known members = true := by
            simp only [abstracts, Bool.and_eq_true, decide_eq_true_eq]
            exact ⟨Nat.le_of_not_lt small, by simpa using present⟩
          rw [if_neg present]
          cases row : abstractionRow env pack scores now carrierType ws members with
          | none => simp [taken, row]
          | some row' => simp [taken, row]

theorem mem_classes {merged : List MemoryId} {anchors : List MemoryWithEmbedding}
    (isClass : members ∈ classes ws merged anchors) :
    ∃ key, members = (anchors.filter (!merged.contains ·.id)).filter (scopeKey ws · = key) := by
  rw [classes, List.mem_map] at isClass
  obtain ⟨⟨key, rows⟩, entry, rfl⟩ := isClass
  exact ⟨key, Table.lookup_groupBy (Table.mem_sortedEntries.mp entry)⟩

/-- The narrowest of labels that are all the same. -/
theorem narrowest_eq {label : Visibility} (some : members ≠ [])
    (same : ∀ member ∈ members, member.visibility = label) : narrowest members = label := by
  induction members with
  | nil => exact absurd rfl some
  | cons member rest ih =>
      have here := same member List.mem_cons_self
      cases rest with
      | nil => exact here
      | cons next rest =>
          have later := ih (List.cons_ne_nil _ _) fun other inside =>
            same other (List.mem_cons_of_mem _ inside)
          rw [narrowest, later, here]
          · split <;> rfl
          · exact fun h => List.cons_ne_nil _ _ h

end Rows

/-- A class of a cycle and the row that is written for it. -/
structure IsAbstraction (engine : DreamsEngine) (pack : AbstractionPack) (scores : ClassScores)
    (now : DateTime) (known : MemoryId → Bool) (anchors : List MemoryWithEmbedding)
    (cycle : Consolidation) (members : List MemoryWithEmbedding) (row : Memory) : Prop where
  isClass : members ∈ classes cycle.workingSet cycle.merged anchors
  abstracts : abstracts engine.env cycle.workingSet known members = true
  linked : pack.summarizes.isSome
  written : ∃ carrierType, pack.carrierType = some carrierType ∧
    abstractionRow engine.env pack scores now carrierType cycle.workingSet members = some row

section Committed

variable {engine : DreamsEngine} {pack : AbstractionPack} {scores : ClassScores}
  {lease : OwnerLease} {now commitAt : DateTime} {known : MemoryId → Bool}
  {anchors : List MemoryWithEmbedding} {cycle : Consolidation}

/-- The rows of the classes are committed, all of them. -/
theorem IsAbstraction.committed {row : Memory}
    (isAbstraction : IsAbstraction engine pack scores now known anchors cycle members row)
    (done : (writeAbstractions engine pack scores lease now commitAt known anchors cycle).1 =
      .ok ()) :
    ∃ lsn, { row with lsn := lsn } ∈ (writeAbstractions engine pack scores lease now commitAt
      known anchors cycle).2.store.memories.history row.id := by
  obtain ⟨carrierType, carried, built⟩ := isAbstraction.written
  obtain ⟨summarizes, linked⟩ := Option.isSome_iff_exists.mp isAbstraction.linked
  rw [writeAbstractions, carried, linked] at done ⊢
  dsimp only at done ⊢
  have listed : row ∈ ((classes cycle.workingSet cycle.merged anchors).foldl
      (abstractClass engine.env pack scores now carrierType summarizes cycle.workingSet known)
      ⟨cycle.journal, [], [], cycle.abstracted⟩).memories := by
    rw [foldl_abstractClass_memories]
    exact List.mem_append_right _ (List.mem_filterMap.mpr
      ⟨members, List.mem_filter.mpr ⟨isAbstraction.isClass, isAbstraction.abstracts⟩, built⟩)
  revert done
  split
  · next empty =>
      rw [Bool.and_eq_true, List.isEmpty_iff] at empty
      rw [empty.1] at listed
      exact absurd listed List.not_mem_nil
  · split
    · intro done
      cases done
    · next commit store committed =>
        intro _
        obtain ⟨records, events, t, batch, memories, -⟩ := commitJournaled_ok committed
        obtain ⟨lsn, inside⟩ := upsertBatchLocked_history batch listed
        rw [← memories] at inside
        exact ⟨lsn, inside⟩

end Committed

/-! ## Who reads an abstraction -/

/-- Two rows of one label and one subject of it have one scope. -/
theorem Memory.scope_congr {left right : Memory} (labels : left.visibility = right.visibility)
    (subjects : left.context.subject left.visibility =
      right.context.subject left.visibility) : left.scope = right.scope := by
  rw [Memory.scope, Memory.scope, ← labels]
  cases label : left.visibility <;> rw [label] at subjects <;>
    simp only [MemoryContext.subject] at subjects ⊢
  · rw [subjects]
  · rw [subjects]
  · rw [subjects]

/-- A row of the scope of another is read by its readers exactly when nobody reads that one,
or both are of one tenant. -/
theorem visible_of_scope_iff {row found : Memory} (scopes : row.scope = found.scope) :
    (∀ vc, memoryVisible row vc → memoryVisible found vc) ↔
      (row.audience.isSome → found.context.tenantId = row.context.tenantId) := by
  have subset : (∀ vc, memoryVisible row vc → memoryVisible found vc) ↔
      row.AudienceWithin found := readers_subset_iff
  rw [subset]
  constructor
  · intro within some
    obtain ⟨⟨tenant, scope⟩, audience⟩ := Option.isSome_iff_exists.mp some
    obtain ⟨⟨tenant', scope'⟩, audience', same, -⟩ := within _ audience
    dsimp only at same
    rw [(Memory.audience_eq_some.mp audience').1, (Memory.audience_eq_some.mp audience).1, same]
  · rintro tenants ⟨tenant, scope⟩ audience
    have own := Memory.audience_eq_some.mp audience
    refine ⟨(tenant, scope), ?_, rfl, .refl scope⟩
    refine Memory.audience_eq_some.mpr ⟨?_, scopes ▸ own.2⟩
    rw [tenants (Option.isSome_iff_exists.mpr ⟨_, audience⟩), own.1]

/-- Nobody reads the first member of a class, or all its members are of that one's tenant. -/
def OneTenant (ws : RegionWorkingSet) (members : List MemoryWithEmbedding) : Prop :=
  ∀ first ∈ (memberIds members).head?, ∀ row, ws.memories.lookup first = some row →
    row.audience.isSome → ∀ member ∈ members, ∀ found, ws.memories.lookup member.id = some found →
      found.context.tenantId = row.context.tenantId

/-- The members of an abstraction are readable to whoever reads the abstraction. -/
def Confined (ws : RegionWorkingSet) (members : List MemoryWithEmbedding) (row : Memory) : Prop :=
  ∀ member ∈ members, ∀ found, ws.memories.lookup member.id = some found →
    ∀ vc, memoryVisible row vc → memoryVisible found vc

section Members

variable {anchoredAt : DateTime} {loaded : RegionWorkingSet} {engine : DreamsEngine}
  {pack : AbstractionPack} {scores : ClassScores} {now : DateTime} {known : MemoryId → Bool}
  {cycle : Consolidation} {members : List MemoryWithEmbedding} {row : Memory}

/-- A row of the working set has the label of its anchor. -/
theorem anchor_visibility (sameRows : SameRows loaded cycle.workingSet)
    {anchor : MemoryWithEmbedding} (member : anchor ∈ selectAnchors anchoredAt loaded)
    {found : Memory} (lookup : cycle.workingSet.memories.lookup anchor.id = some found) :
    found.visibility = anchor.visibility := by
  obtain ⟨memory, here, anchors⟩ := mem_selectAnchors member
  have label := congrArg Memory.visibility (sameRows.standing_eq here lookup)
  exact label.trans anchors.visibility.symm

/-- The abstraction of a class has the scope of each of its members. -/
theorem IsAbstraction.scopes (sameRows : SameRows loaded cycle.workingSet)
    (isAbstraction : IsAbstraction engine pack scores now known
      (selectAnchors anchoredAt loaded) cycle members row) :
    ∃ first firstRow, (memberIds members).head? = some first ∧
      cycle.workingSet.memories.lookup first = some firstRow ∧
      row.context = { firstRow.context with timestamp := now } ∧ row.scope = firstRow.scope ∧
      ∀ member ∈ members, ∀ found, cycle.workingSet.memories.lookup member.id = some found →
        row.scope = found.scope := by
  obtain ⟨key, isClass⟩ := mem_classes isAbstraction.isClass
  have inside : ∀ member ∈ members, member ∈ selectAnchors anchoredAt loaded ∧
      scopeKey cycle.workingSet member = key := by
    intro member inside
    rw [isClass, List.mem_filter, List.mem_filter, decide_eq_true_eq] at inside
    exact ⟨inside.1.1, inside.2⟩
  obtain ⟨carrierType, -, built⟩ := isAbstraction.written
  simp only [abstractionRow, Option.bind_eq_bind, Option.bind_eq_some_iff, Option.pure_def,
    Option.some.injEq] at built
  obtain ⟨first, isFirst, firstRow, firstFound, head, isHead, rfl⟩ := built
  obtain ⟨firstMember, isMember, rfl⟩ : ∃ member ∈ members, member.id = first := by
    have listed := List.mem_of_mem_head? isFirst
    rw [memberIds, List.mem_insertionSort] at listed
    exact List.mem_map.mp listed
  -- Every member has the label and the subject of the key.
  have keyed : ∀ member ∈ members, ∀ found, cycle.workingSet.memories.lookup member.id =
      some found → found.visibility = key.2.1 ∧ found.context.subject key.2.1 = key.2.2 := by
    intro member among found lookup
    obtain ⟨anchored, same⟩ := inside member among
    have label := anchor_visibility sameRows anchored lookup
    rw [← same]
    refine ⟨label, ?_⟩
    simp [scopeKey, scopeOf, lookup]
  have narrow : narrowest members = key.2.1 := by
    refine narrowest_eq (List.ne_nil_of_mem isMember) fun member among => ?_
    exact congrArg (·.2.1) (inside member among).2
  have scopes : ∀ member ∈ members, ∀ found, cycle.workingSet.memories.lookup member.id =
      some found → firstRow.scope = found.scope := by
    intro member among found lookup
    obtain ⟨firstLabel, firstSubject⟩ := keyed firstMember isMember firstRow firstFound
    obtain ⟨label, subject⟩ := keyed member among found lookup
    refine Memory.scope_congr (firstLabel.trans label.symm) ?_
    rw [firstLabel, firstSubject, subject]
  refine ⟨_, firstRow, isFirst, firstFound, rfl, ?_⟩
  have own {row : Memory} (label : row.visibility = narrowest members)
      (context : row.context = { firstRow.context with timestamp := now }) :
      row.scope = firstRow.scope := by
    refine Memory.scope_congr ?_ ?_
    · rw [label, narrow, (keyed firstMember isMember firstRow firstFound).1]
    · rw [context]
      cases row.visibility <;> rfl
  refine ⟨own rfl rfl, fun member among found lookup => ?_⟩
  exact (own rfl rfl).trans (scopes member among found lookup)

/-- The readers of an abstraction read its members exactly when the members are of one
tenant. -/
theorem IsAbstraction.confined_iff (sameRows : SameRows loaded cycle.workingSet)
    (isAbstraction : IsAbstraction engine pack scores now known
      (selectAnchors anchoredAt loaded) cycle members row) :
    Confined cycle.workingSet members row ↔ OneTenant cycle.workingSet members := by
  obtain ⟨first, firstRow, isFirst, firstFound, context, own, scopes⟩ :=
    isAbstraction.scopes sameRows
  have tenant : row.context.tenantId = firstRow.context.tenantId := by rw [context]
  have audience : row.audience = firstRow.audience := by
    rw [Memory.audience, Memory.audience, tenant, own]
  constructor
  · intro confined first' isFirst' row' found' read member among found lookup
    cases isFirst.symm.trans isFirst'
    cases firstFound.symm.trans found'
    rw [← audience] at read
    rw [← tenant]
    exact (visible_of_scope_iff (scopes member among found lookup)).mp
      (confined member among found lookup) read
  · intro oneTenant member among found lookup
    refine (visible_of_scope_iff (scopes member among found lookup)).mpr fun read => ?_
    rw [audience] at read
    rw [tenant]
    exact oneTenant first isFirst firstRow firstFound read member among found lookup

end Members

/-- **Abstractions confine their titles exactly when every class that is abstracted is of one
tenant**, or its first member readable to nobody, in every cycle over every working set. The
store is any that the cycle finds when it writes them. -/
theorem abstractions_confined_iff {engine : DreamsEngine} {pack : AbstractionPack}
    {scores : ClassScores} {lease : OwnerLease} {anchoredAt now commitAt : DateTime}
    {known : MemoryId → Bool} {start cycle : Consolidation}
    {turns : List (MergeCandidate × MergeTurn)}
    (run : mergeCandidates engine lease turns start = (.ok (), cycle)) (store : InMemoryStorage)
    (done : (writeAbstractions engine pack scores lease now commitAt known
      (selectAnchors anchoredAt start.workingSet) { cycle with store := store }).1 = .ok ()) :
    (∀ members row, IsAbstraction engine pack scores now known
      (selectAnchors anchoredAt start.workingSet) cycle members row →
        ∃ lsn, { row with lsn := lsn } ∈ (writeAbstractions engine pack scores lease now commitAt
          known (selectAnchors anchoredAt start.workingSet)
            { cycle with store := store }).2.store.memories.history row.id) ∧
    ((∀ members row, IsAbstraction engine pack scores now known
      (selectAnchors anchoredAt start.workingSet) cycle members row →
        Confined cycle.workingSet members row) ↔
    ∀ members row, IsAbstraction engine pack scores now known
      (selectAnchors anchoredAt start.workingSet) cycle members row →
        OneTenant cycle.workingSet members) := by
  have sameRows : SameRows start.workingSet cycle.workingSet := by
    have kept := mergeCandidates_sameRows engine lease turns start
    rw [run] at kept
    exact kept
  refine ⟨?_, ?_, ?_⟩
  · intro members row isAbstraction
    have here : IsAbstraction engine pack scores now known
        (selectAnchors anchoredAt start.workingSet) { cycle with store := store } members row :=
      ⟨isAbstraction.isClass, isAbstraction.abstracts, isAbstraction.linked,
        isAbstraction.written⟩
    exact here.committed done
  · intro confined members row isAbstraction
    exact (isAbstraction.confined_iff sameRows).mp (confined members row isAbstraction)
  · intro oneTenant members row isAbstraction
    exact (isAbstraction.confined_iff sameRows).mpr (oneTenant members row isAbstraction)

/-- A note for everybody in a tenant. -/
def tenantNote (tenant : String) (id : UInt8) : Memory :=
  { embeddedNote id 0 with
    visibility := .org, context := ⟨0, none, none, some tenant, none, none, []⟩ }

/-- A cycle over three such notes, the third of the given tenant. -/
def threeNotes (tenant : String) : Consolidation :=
  .over Call.pairEnv [tenantNote "acme" 1, tenantNote "acme" 2, tenantNote tenant 3] []

def noteScores : ClassScores := ⟨fun _ => F32.one, fun _ => [F32.one]⟩

def notePack : AbstractionPack := ⟨some 5, some ⟨7⟩, ["Note"]⟩

def abstractionEngine : DreamsEngine := ⟨Call.pairEnv, noteEngine.key, Call.pairEnv.ontology⟩

theorem abstractions_confined_of_one_tenant :
    (writeAbstractions abstractionEngine notePack noteScores noteLease 10 10 (fun _ => false)
        (selectAnchors 0 (threeNotes "acme").workingSet)
        { threeNotes "acme" with store := (threeNotes "acme").store }).1 = .ok () ∧
      ∀ members row, IsAbstraction abstractionEngine notePack noteScores 10 (fun _ => false)
        (selectAnchors 0 (threeNotes "acme").workingSet) (threeNotes "acme") members row →
          Confined (threeNotes "acme").workingSet members row := by
  have done : (writeAbstractions abstractionEngine notePack noteScores noteLease 10 10
      (fun _ => false) (selectAnchors 0 (threeNotes "acme").workingSet)
        { threeNotes "acme" with store := (threeNotes "acme").store }).1 = .ok () := by
    decide +kernel
  have run : mergeCandidates abstractionEngine noteLease [] (threeNotes "acme") =
      (.ok (), threeNotes "acme") := rfl
  refine ⟨done, (abstractions_confined_iff run _ done).2.mpr ?_⟩
  intro members row _ first _ firstRow firstFound _ member _ found lookup
  have tenants : ∀ m ∈ (threeNotes "acme").workingSet.memories.values,
      m.context.tenantId = some "acme" := by decide +kernel
  rw [tenants _ (Table.mem_values.mpr ⟨_, lookup⟩),
    tenants _ (Table.mem_values.mpr ⟨_, firstFound⟩)]

/-- The titles of two tenants are in one row. -/
theorem not_abstractions_confined :
    ¬ ∀ (engine : DreamsEngine) (pack : AbstractionPack) (scores : ClassScores)
      (lease : OwnerLease) (anchoredAt now commitAt : DateTime) (known : MemoryId → Bool)
      (start cycle : Consolidation) (turns : List (MergeCandidate × MergeTurn))
      (store : InMemoryStorage), mergeCandidates engine lease turns start = (.ok (), cycle) →
      (writeAbstractions engine pack scores lease now commitAt known
        (selectAnchors anchoredAt start.workingSet) { cycle with store := store }).1 = .ok () →
      ∀ members row, IsAbstraction engine pack scores now known
        (selectAnchors anchoredAt start.workingSet) cycle members row →
          Confined cycle.workingSet members row := by
  intro always
  have done : (writeAbstractions abstractionEngine notePack noteScores noteLease 10 10
      (fun _ => false) (selectAnchors 0 (threeNotes "zeta").workingSet)
        { threeNotes "zeta" with store := (threeNotes "zeta").store }).1 = .ok () := by
    decide +kernel
  have visible : (abstractionRow Call.pairEnv notePack noteScores 10 5
      (threeNotes "zeta").workingSet (selectAnchors 0 (threeNotes "zeta").workingSet)).any
        (memoryVisible · ⟨"ada", "acme", [], [], .org⟩) = true := by decide +kernel
  obtain ⟨row, built, read⟩ := Option.any_eq_true _ _ |>.mp visible
  have isAbstraction : IsAbstraction abstractionEngine notePack noteScores 10 (fun _ => false)
      (selectAnchors 0 (threeNotes "zeta").workingSet) (threeNotes "zeta")
      (selectAnchors 0 (threeNotes "zeta").workingSet) row :=
    ⟨by decide +kernel, by decide +kernel, rfl, 5, rfl, built⟩
  have confined := always abstractionEngine notePack noteScores noteLease 0 10 10 (fun _ => false)
    (threeNotes "zeta") (threeNotes "zeta") [] (threeNotes "zeta").store rfl done _ row
    isAbstraction
  have other := confined ⟨⟨.fill 16 3⟩, 0, .org, ⟨⟨"model", "1"⟩, [F32.one]⟩⟩ (by decide +kernel)
    (tenantNote "zeta" 3) (by decide +kernel) ⟨"ada", "acme", [], [], .org⟩ read
  exact absurd other (by decide)

end Exocortex
