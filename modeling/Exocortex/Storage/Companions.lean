import Exocortex.Library.Runs
import Exocortex.Storage.CallSpecs

/-!
# Inverse companions

Writing `k(a, b)` also writes its companion `k'(b, a)` when the ontology gives `k` the
inverse `k'`. Whether the two stay open together depends on the writer: an upsert of a
single row leaves an open companion alone, a batch writes at most one companion for an
edge and none for an edge that it lists itself, an acceptance always writes the
companion, and a deletion closes one side only.

An edge is named by its source, kind and target, and the identity of a companion is
derived from its name. Over names that the inverse pairs up and whose identities are
distinct, the two sides of a pair are open together as long as every call is
`InStepCall`: no edge of a pair is deleted, no closed version is upserted beside an open
companion, and the rows a batch lists for one pair end alike.
-/

namespace Exocortex

open Library

/-- What names an edge. -/
structure EdgeName where
  source : MemoryId
  kind : RelKindId
  target : MemoryId
deriving DecidableEq

def Relationship.name (r : Relationship) : EdgeName := ⟨r.source, r.kind, r.target⟩

/-- The kind a companion of this kind is written under. -/
def Ontology.inverseKind (ontology : Ontology) (kind : RelKindId) : Option RelKindId :=
  (ontology.kindsById.lookup kind).bind fun kindMeta =>
    kindMeta.inverse.bind fun inverse =>
      if inverse = kind ∨ kindMeta.bidirectional then none else some inverse

namespace EdgeName

/-- The identity of an edge without a snapshot. -/
def id (env : Env) (name : EdgeName) : RelationshipId :=
  RelationshipId.derive env.blake3 name.source name.kind name.target none

/-- The name of the companion. -/
def companion (env : Env) (name : EdgeName) : Option EdgeName :=
  (env.ontology.inverseKind name.kind).map fun inverse => ⟨name.target, inverse, name.source⟩

end EdgeName

/-- The companion row has the companion's name, the identity of that name, and the
validity of the edge. -/
theorem inverse_eq (env : Env) (r : Relationship) :
    env.inverse r = (r.name.companion env).map fun name => { r with
      id := name.id env
      kind := name.kind
      source := name.source
      target := name.target
      bidirectional := false
      invalidatedBy := none } := by
  rw [Env.inverse, materializeInverse, EdgeName.companion, Ontology.inverseKind, Relationship.name]
  dsimp only
  cases env.ontology.kindsById.lookup r.kind with
  | none => rfl
  | some kindMeta =>
      cases inverse : kindMeta.inverse with
      | none => simp [inverse]
      | some kind =>
          by_cases own : kind = r.kind ∨ kindMeta.bidirectional = true
          · simp only [inverse, Option.bind_some, if_pos own, Option.map_none]
          · simp only [inverse, Option.bind_some, if_neg own, Option.map_some, EdgeName.id]

variable {r : Relationship} {s : InMemoryStorage}

variable {env : Env}

theorem inverse_some {inverse : Relationship} (found : env.inverse r = some inverse) :
    ∃ name, r.name.companion env = some name ∧ inverse.id = name.id env ∧ inverse.name = name ∧
      inverse.validUntil = r.validUntil := by
  rw [inverse_eq] at found
  obtain ⟨name, companion, rfl⟩ := Option.map_eq_some_iff.mp found
  exact ⟨name, companion, rfl, rfl, rfl⟩

/-! ## Open edges -/

/-- Every version of every relationship. -/
abbrev RelTable := Table RelationshipId (List Relationship)

/-- The current version of a relationship is open. -/
def openIn (rels : RelTable) (id : RelationshipId) : Bool :=
  (rels.history id).getLast?.any (·.validUntil.isNone)

theorem openIn_push (rels : RelTable) (id other : RelationshipId) (version : Relationship) :
    openIn (rels.push id version) other =
      if other = id then version.validUntil.isNone else openIn rels other := by
  rw [openIn, Table.history_push]
  by_cases same : other = id
  · rw [if_pos same, if_pos same, List.getLast?_concat]
    rfl
  · rw [if_neg same, if_neg same, List.append_nil, openIn]

/-! ## Names that pair up -/

/-- A set of names that the inverse pairs up, with distinct identities. -/
structure PairedNames (env : Env) (edges : Set EdgeName) : Prop where
  paired : ∀ name ∈ edges, ∃ other ∈ edges, name.companion env = some other ∧
    other.companion env = some name
  distinct : Set.InjOn (EdgeName.id env) edges

/-- A row is stored under the identity of its name; a row without a companion may have
any identity that no paired name has. -/
def NamedRow (env : Env) (edges : Set EdgeName) (r : Relationship) : Prop :=
  (r.name ∈ edges ∧ r.id = r.name.id env) ∨
    (r.name.companion env = none ∧ ∀ name ∈ edges, name.id env ≠ r.id)

section Paired

variable {env : Env} {edges : Set EdgeName}

/-- A row whose name has no companion stays away from the paired names. -/
theorem NamedRow.foreign (row : NamedRow env edges r) (names : PairedNames env edges)
    (alone : r.name.companion env = none) : ∀ name ∈ edges, name.id env ≠ r.id := by
  rcases row with ⟨member, -⟩ | ⟨-, foreign⟩
  · obtain ⟨other, -, companion, -⟩ := names.paired _ member
    rw [alone] at companion
    cases companion
  · exact foreign

variable {other edge : EdgeName} {rels : RelTable} {version : Relationship}
  {rs all : List Relationship}

/-- A row whose name has a companion is named by it. -/
theorem NamedRow.member (row : NamedRow env edges r)
    (companion : r.name.companion env = some other) : r.name ∈ edges ∧ r.id = r.name.id env := by
  rcases row with known | ⟨alone, -⟩
  · exact known
  · rw [alone] at companion
    cases companion

theorem PairedNames.companion_mem (names : PairedNames env edges) {name : EdgeName}
    (member : name ∈ edges) (companion : name.companion env = some other) :
    other ∈ edges ∧ other.companion env = some name := by
  obtain ⟨found, inside, forth, back⟩ := names.paired name member
  rw [companion] at forth
  cases forth
  exact ⟨inside, back⟩

/-- The two names of a pair differ. -/
theorem companion_ne {name : EdgeName} (companion : name.companion env = some other) :
    other ≠ name := by
  rintro rfl
  rw [EdgeName.companion] at companion
  obtain ⟨kind, inverse, shape⟩ := Option.map_eq_some_iff.mp companion
  rw [Ontology.inverseKind] at inverse
  obtain ⟨kindMeta, -, found⟩ := Option.bind_eq_some_iff.mp inverse
  obtain ⟨other', -, allowed⟩ := Option.bind_eq_some_iff.mp found
  split at allowed
  · cases allowed
  · next foreign =>
      cases allowed
      exact foreign (.inl (congrArg EdgeName.kind shape))

/-- Two names whose companions have one identity are the same name. -/
theorem PairedNames.eq_of_companion_id (names : PairedNames env edges)
    {name mate mate' : EdgeName} (member : name ∈ edges) (member' : other ∈ edges)
    (companion : name.companion env = some mate) (companion' : other.companion env = some mate')
    (same : mate.id env = mate'.id env) : name = other := by
  obtain ⟨inside, back⟩ := names.companion_mem member companion
  obtain ⟨inside', back'⟩ := names.companion_mem member' companion'
  have mates := names.distinct inside inside' same
  subst mates
  rw [back] at back'
  exact Option.some.inj back'

/-- The stored rows are named, and the two sides of a pair are open together. -/
structure InStep (env : Env) (edges : Set EdgeName) (rels : RelTable) : Prop where
  named : ∀ id, ∀ r ∈ rels.history id, r.id = id ∧ NamedRow env edges r
  together : ∀ name ∈ edges, ∀ other, name.companion env = some other →
    openIn rels (name.id env) = openIn rels (other.id env)

theorem inStep_empty : InStep env edges ∅ where
  named id r member := by
    rw [Table.history_empty] at member
    exact absurd member List.not_mem_nil
  together _ _ _ _ := by simp [openIn]

theorem named_push (named : ∀ id, ∀ r ∈ rels.history id, r.id = id ∧ NamedRow env edges r)
    (row : NamedRow env edges version) :
    ∀ id, ∀ r ∈ (rels.push version.id version).history id, r.id = id ∧ NamedRow env edges r := by
  intro id r member
  rw [Table.history_push] at member
  rcases List.mem_append.mp member with old | new
  · exact named id r old
  · split at new
    · next same =>
        rw [List.mem_singleton.mp new]
        exact ⟨same.symm, row⟩
    · exact absurd new List.not_mem_nil

theorem NamedRow.stamped (row : NamedRow env edges r) (lsn : LSN) :
    NamedRow env edges { r with lsn := lsn } := row

theorem NamedRow.inverse (names : PairedNames env edges) {inverse : Relationship}
    (row : NamedRow env edges r) (found : env.inverse r = some inverse) :
    NamedRow env edges inverse := by
  obtain ⟨name, companion, identity, named, -⟩ := inverse_some found
  have member := (row.member companion).1
  exact .inl ⟨named ▸ (names.companion_mem member companion).1, named.symm ▸ identity⟩

/-- A row without a companion touches no pair. -/
theorem InStep.push_alone (inStep : InStep env edges rels) (row : NamedRow env edges version)
    (foreign : ∀ name ∈ edges, name.id env ≠ version.id) (names : PairedNames env edges) :
    InStep env edges (rels.push version.id version) where
  named := named_push inStep.named row
  together name member other companion := by
    have mate := (names.companion_mem member companion).1
    rw [openIn_push, openIn_push, if_neg (foreign name member), if_neg (foreign other mate)]
    exact inStep.together name member other companion

/-- A change that sets both sides of one pair alike and no other edge keeps the pairs
together. -/
theorem together_of_pair (names : PairedNames env edges) {changed : RelTable}
    (together : ∀ name ∈ edges, ∀ other, name.companion env = some other →
      openIn rels (name.id env) = openIn rels (other.id env)) {name : EdgeName} {o : Bool}
    (member : name ∈ edges) (companion : name.companion env = some other)
    (flags : ∀ edge ∈ edges, openIn changed (edge.id env) =
      if edge = name ∨ edge = other then o else openIn rels (edge.id env)) :
    ∀ edge ∈ edges, ∀ mate, edge.companion env = some mate →
      openIn changed (edge.id env) = openIn changed (mate.id env) := by
  intro edge inside mate forth
  obtain ⟨mateInside, back⟩ := names.companion_mem inside forth
  have otherBack := (names.companion_mem member companion).2
  rw [flags edge inside, flags mate mateInside]
  by_cases same : edge = name ∨ edge = other
  · have mateSame : mate = name ∨ mate = other := by
      rcases same with rfl | rfl
      · rw [companion] at forth
        exact .inr (Option.some.inj forth).symm
      · rw [otherBack] at forth
        exact .inl (Option.some.inj forth).symm
    rw [if_pos same, if_pos mateSame]
  · have mateApart : ¬ (mate = name ∨ mate = other) := by
      rintro (rfl | rfl)
      · rw [companion] at back
        exact same (.inr (Option.some.inj back).symm)
      · rw [otherBack] at back
        exact same (.inl (Option.some.inj back).symm)
    rw [if_neg same, if_neg mateApart]
    exact together edge inside mate forth

/-- Appending a version of a paired edge changes that edge only. -/
theorem PairedNames.openIn_push (names : PairedNames env edges) (rels : RelTable)
    (version : Relationship) {id : RelationshipId} {name : EdgeName} (member : name ∈ edges)
    (identity : id = name.id env) (inside : edge ∈ edges) :
    openIn (rels.push id version) (edge.id env) =
      if edge = name then version.validUntil.isNone else openIn rels (edge.id env) := by
  have same : edge.id env = id ↔ edge = name := by
    rw [identity]
    exact names.distinct.eq_iff inside member
  rw [Exocortex.openIn_push]
  by_cases equal : edge = name
  · rw [if_pos (same.mpr equal), if_pos equal]
  · rw [if_neg fun known => equal (same.mp known), if_neg equal]

/-- Writing both sides of a pair alike keeps the pairs together. -/
theorem InStep.push_pair (inStep : InStep env edges rels) (names : PairedNames env edges)
    {mate : Relationship} (member : version.name ∈ edges)
    (identity : version.id = version.name.id env)
    (companion : version.name.companion env = some mate.name)
    (mateIdentity : mate.id = mate.name.id env) (alike : mate.validUntil = version.validUntil)
    (lsn mateLsn : LSN) :
    InStep env edges ((rels.push version.id { version with lsn := lsn }).push mate.id
      { mate with lsn := mateLsn }) := by
  have mateMember := (names.companion_mem member companion).1
  have row : NamedRow env edges { version with lsn := lsn } := .inl ⟨member, identity⟩
  have mateRow : NamedRow env edges { mate with lsn := mateLsn } := .inl ⟨mateMember, mateIdentity⟩
  refine ⟨named_push (named_push inStep.named row) mateRow, ?_⟩
  refine together_of_pair names inStep.together member companion
    (o := version.validUntil.isNone) fun edge inside => ?_
  rw [names.openIn_push _ _ mateMember mateIdentity inside,
    names.openIn_push _ _ member identity inside, alike]
  by_cases first : edge = mate.name
  · rw [if_pos first, if_pos (.inr first)]
  · by_cases second : edge = version.name
    · rw [if_neg first, if_pos second, if_pos (.inl second)]
    · rw [if_neg first, if_neg second, if_neg (by simp [first, second])]

/-- Writing one side of a pair as the other already is keeps the pairs together. -/
theorem InStep.push_side (inStep : InStep env edges rels) (names : PairedNames env edges)
    (member : version.name ∈ edges) (identity : version.id = version.name.id env)
    (companion : version.name.companion env = some other)
    (alike : openIn rels (other.id env) = version.validUntil.isNone) (lsn : LSN) :
    InStep env edges (rels.push version.id { version with lsn := lsn }) := by
  have row : NamedRow env edges { version with lsn := lsn } := .inl ⟨member, identity⟩
  refine ⟨named_push inStep.named row, ?_⟩
  refine together_of_pair names inStep.together member companion
    (o := version.validUntil.isNone) fun edge inside => ?_
  rw [names.openIn_push _ _ member identity inside]
  by_cases first : edge = version.name
  · rw [if_pos first, if_pos (.inl first)]
  · by_cases second : edge = other
    · rw [if_neg first, if_pos (.inr second), second, alike]
    · rw [if_neg first, if_neg (by simp [first, second])]

/-! ## Batches -/

/-- Whether the last row of an edge that a batch lists is open. -/
def lastOpen (rs : List Relationship) (name : EdgeName) : Option Bool :=
  (rs.filter (·.name = name)).getLast?.map (·.validUntil.isNone)

/-- Whether the first row of an edge that a batch lists is open. -/
def firstOpen (rs : List Relationship) (name : EdgeName) : Option Bool :=
  (rs.filter (·.name = name)).head?.map (·.validUntil.isNone)

theorem lastOpen_concat (rs : List Relationship) (r : Relationship) (name : EdgeName) :
    lastOpen (rs ++ [r]) name =
      if r.name = name then some r.validUntil.isNone else lastOpen rs name := by
  rw [lastOpen, List.filter_append]
  by_cases same : r.name = name
  · simp [same]
  · simp [same, lastOpen]

theorem firstOpen_concat (rs : List Relationship) (r : Relationship) (name : EdgeName) :
    firstOpen (rs ++ [r]) name =
      (firstOpen rs name).or (if r.name = name then some r.validUntil.isNone else none) := by
  rw [firstOpen, List.filter_append, List.head?_append, firstOpen]
  by_cases same : r.name = name
  · cases (rs.filter (·.name = name)).head? <;> simp [same]
  · cases (rs.filter (·.name = name)).head? <;> simp [same]

/-- An edge that a list names has a first and a last row in it. -/
theorem isSome_firstOpen {name : EdgeName} :
    (firstOpen rs name).isSome ↔ ∃ r ∈ rs, r.name = name := by
  rw [firstOpen, Option.isSome_map, Option.isSome_iff_ne_none]
  simp

theorem isSome_lastOpen {name : EdgeName} :
    (lastOpen rs name).isSome ↔ ∃ r ∈ rs, r.name = name := by
  rw [lastOpen, Option.isSome_map, Option.isSome_iff_ne_none]
  simp

/-- Whether an edge is open once a part of a batch is staged: as its last row says when
the batch lists the edge, else as the first row of its companion says. -/
def openAfter (env : Env) (rels : RelTable) (all done : List Relationship) (name : EdgeName) :
    Bool :=
  if all.any (·.name = name) then (lastOpen done name).getD (openIn rels (name.id env))
  else ((name.companion env).bind (firstOpen done)).getD (openIn rels (name.id env))

/-- A batch of which the rows `done` are staged. -/
structure BatchFlags (env : Env) (edges : Set EdgeName) (rels : RelTable)
    (all done : List Relationship) (staged : InMemoryStorage.Staged) : Prop where
  named : ∀ id, ∀ r ∈ staged.rels.history id, r.id = id ∧ NamedRow env edges r
  seen : ∀ id, id ∈ staged.seenRelationships ↔ (∃ r ∈ all, r.id = id) ∨
    ∃ r ∈ done, ∃ other, r.name.companion env = some other ∧ other.id env = id
  flags : ∀ name ∈ edges, openIn staged.rels (name.id env) = openAfter env rels all done name

/-- Among named rows, the identity of a paired edge is listed only with that edge. -/
theorem listed_iff (names : PairedNames env edges) (rows : ∀ r ∈ all, NamedRow env edges r)
    {name : EdgeName} (member : name ∈ edges) :
    (∃ r ∈ all, r.id = name.id env) ↔ all.any (·.name = name) = true := by
  rw [List.any_eq_true]
  constructor
  · rintro ⟨r, inside, identity⟩
    rcases rows r inside with ⟨known, own⟩ | ⟨-, foreign⟩
    · exact ⟨r, inside, decide_eq_true (names.distinct known member (own.symm.trans identity))⟩
    · exact absurd identity.symm (foreign name member)
  · rintro ⟨r, inside, same⟩
    have same := of_decide_eq_true same
    rcases rows r inside with ⟨-, own⟩ | ⟨alone, -⟩
    · exact ⟨r, inside, same ▸ own⟩
    · obtain ⟨other, -, companion, -⟩ := names.paired name member
      rw [same, companion] at alone
      cases alone

/-- A row outside the pairs does not change what the batch says of them. -/
theorem openAfter_concat_outside (names : PairedNames env edges) (rels : RelTable)
    (all done : List Relationship) (outside : r.name ∉ edges) (inside : edge ∈ edges) :
    openAfter env rels all (done ++ [r]) edge = openAfter env rels all done edge := by
  obtain ⟨mate, mateInside, companion, -⟩ := names.paired edge inside
  have apart : r.name ≠ edge := fun same => outside (same ▸ inside)
  have mateApart : r.name ≠ mate := fun same => outside (same ▸ mateInside)
  simp only [openAfter, companion, Option.bind_some, lastOpen_concat, firstOpen_concat,
    if_neg apart, if_neg mateApart, Option.or_none]

/-- A row of a pair decides its own side, and the other side when the batch neither
lists that nor had an earlier row of this one. -/
theorem openAfter_concat_side (names : PairedNames env edges) (rels : RelTable)
    {done : List Relationship} (listed : r ∈ all) (member : r.name ∈ edges)
    (companion : r.name.companion env = some other) (inside : edge ∈ edges) :
    openAfter env rels all (done ++ [r]) edge =
      if edge = r.name then r.validUntil.isNone
      else if edge = other ∧ all.any (·.name = other) = false ∧ firstOpen done r.name = none
        then r.validUntil.isNone
      else openAfter env rels all done edge := by
  obtain ⟨mate, mateInside, forth, back⟩ := names.paired edge inside
  have otherBack := (names.companion_mem member companion).2
  by_cases own : edge = r.name
  · have explicit : all.any (·.name = edge) = true :=
      List.any_eq_true.mpr ⟨r, listed, decide_eq_true own.symm⟩
    rw [if_pos own, openAfter, if_pos explicit, lastOpen_concat, if_pos own.symm, Option.getD_some]
  · rw [if_neg own]
    have notOwn : r.name ≠ edge := fun same => own same.symm
    simp only [openAfter, forth, Option.bind_some, lastOpen_concat, firstOpen_concat,
      if_neg notOwn]
    by_cases side : edge = other
    · have mateOwn : mate = r.name := by
        rw [side, otherBack] at forth
        exact (Option.some.inj forth).symm
      rw [if_pos mateOwn.symm, mateOwn, side]
      cases explicit : all.any (·.name = other) with
      | true => simp
      | false =>
          cases first : firstOpen done r.name with
          | none => simp
          | some value => simp
    · have mateApart : r.name ≠ mate := by
        intro same
        rw [← same, companion] at back
        exact side (Option.some.inj back).symm
      have otherSide : ¬ (edge = other ∧ all.any (·.name = other) = false ∧
          firstOpen done r.name = none) := fun known => side known.1
      rw [if_neg mateApart, Option.or_none, if_neg otherSide]

section Staging

variable {rels : RelTable} {all done : List Relationship} {staged : InMemoryStorage.Staged}

section BatchFlags

variable (batch : BatchFlags env edges rels all done staged) (names : PairedNames env edges)
include batch names

/-- Staging a row without a companion touches no pair. -/
theorem BatchFlags.alone (now : DateTime) (alone : r.name.companion env = none)
    (foreign : ∀ name ∈ edges, name.id env ≠ r.id) :
    BatchFlags env edges rels all (done ++ [r])
      (InMemoryStorage.stageRelationship env now staged r) := by
  have noInverse : ∀ lsn, env.inverse { r with lsn := lsn } = none := fun lsn => by
    rw [inverse_eq]
    exact congrArg (Option.map _) alone
  have outside : r.name ∉ edges := by
    intro member
    obtain ⟨other, -, companion, -⟩ := names.paired _ member
    rw [alone] at companion
    cases companion
  rw [InMemoryStorage.stageRelationship]
  simp only [noInverse]
  have row : NamedRow env edges { r with lsn := LSN.newBackend (staged.next + 1) } :=
    .inr ⟨alone, foreign⟩
  refine ⟨named_push batch.named row, ?_, ?_⟩
  · intro id
    refine (batch.seen id).trans (or_congr_right ?_)
    simp only [List.mem_append, List.mem_singleton, or_and_right, exists_or, exists_eq_left,
      alone, reduceCtorEq, false_and, exists_false, or_false]
  · intro name member
    rw [openAfter_concat_outside names rels all done outside member, ← batch.flags name member]
    exact (openIn_push _ _ _ _).trans (if_neg (foreign name member))

/-- The identity of a companion is seen when the batch lists it or staged it before. -/
theorem BatchFlags.seen_companion (rows : ∀ r ∈ all, NamedRow env edges r)
    (before : ∀ r ∈ done, r ∈ all) {name : EdgeName} (member : name ∈ edges)
    (companion : name.companion env = some other) :
    other.id env ∈ staged.seenRelationships ↔
      all.any (·.name = other) = true ∨ (firstOpen done name).isSome := by
  obtain ⟨mateMember, back⟩ := names.companion_mem member companion
  rw [batch.seen, listed_iff names rows mateMember, isSome_firstOpen]
  refine or_congr_right ⟨?_, ?_⟩
  · rintro ⟨r, inside, mate, forth, same⟩
    have known := ((rows r (before r inside)).member forth).1
    exact ⟨r, inside, names.eq_of_companion_id known member forth companion same⟩
  · rintro ⟨r, inside, rfl⟩
    exact ⟨r, inside, other, companion, rfl⟩

/-- Staging a row of a pair. -/
theorem BatchFlags.side (rows : ∀ r ∈ all, NamedRow env edges r) (before : ∀ r ∈ done, r ∈ all)
    (now : DateTime) (listed : r ∈ all) (member : r.name ∈ edges)
    (identity : r.id = r.name.id env) :
    BatchFlags env edges rels all (done ++ [r])
      (InMemoryStorage.stageRelationship env now staged r) := by
  obtain ⟨other, mateMember, companion, back⟩ := names.paired _ member
  have seen := batch.seen_companion names rows before member companion
  have row : NamedRow env edges { r with lsn := LSN.newBackend (staged.next + 1) } :=
    .inl ⟨member, identity⟩
  -- The rows that name the other side now include this one.
  have seenNow : ∀ id, ((∃ r ∈ all, r.id = id) ∨ ∃ row ∈ done ++ [r], ∃ mate,
      row.name.companion env = some mate ∧ mate.id env = id) ↔
      id ∈ staged.seenRelationships ∨ other.id env = id := by
    intro id
    rw [batch.seen, or_assoc]
    refine or_congr_right ?_
    simp only [List.mem_append, List.mem_singleton, or_and_right, exists_or, exists_eq_left,
      companion, Option.some.injEq, exists_eq_left']
  obtain ⟨inverse, found⟩ : ∃ inverse,
      env.inverse { r with lsn := LSN.newBackend (staged.next + 1) } = some inverse := by
    rw [inverse_eq]
    exact ⟨_, congrArg (Option.map _) companion⟩
  obtain ⟨mate, forth, inverseIdentity, inverseName, alike⟩ := inverse_some found
  cases Option.some.inj (companion.symm.trans forth)
  have staging : InMemoryStorage.stageRelationship env now staged r =
      if inverse.id ∈ staged.seenRelationships then InMemoryStorage.stageRow now staged r
      else InMemoryStorage.stageRow now { InMemoryStorage.stageRow now staged r with
        seenRelationships := insert inverse.id staged.seenRelationships } inverse := by
    rw [InMemoryStorage.stageRelationship]
    have next : (InMemoryStorage.stageRow now staged r).next = staged.next + 1 := rfl
    simp only [next, found]
    rfl
  rw [staging, inverseIdentity]
  split
  · next known =>
      refine ⟨named_push batch.named row, fun id => ?_, fun name inside => ?_⟩
      · rw [seenNow id]
        constructor
        · exact .inl
        · rintro (old | rfl)
          · exact old
          · exact known
      · have settled : ¬ (name = other ∧ all.any (·.name = other) = false ∧
            firstOpen done r.name = none) := by
          rintro ⟨-, unlisted, first⟩
          rw [seen, unlisted, first] at known
          simp at known
        rw [openAfter_concat_side names rels listed member companion inside, if_neg settled,
          ← batch.flags name inside]
        exact names.openIn_push _ _ member identity inside
  · next unknown =>
      have undecided : all.any (·.name = other) = false ∧ firstOpen done r.name = none := by
        rw [seen, not_or] at unknown
        exact ⟨by simpa using unknown.1, by simpa using unknown.2⟩
      have mateRow : NamedRow env edges { inverse with lsn := LSN.newBackend (staged.next + 2) } :=
        (row.inverse names found).stamped _
      refine ⟨named_push (named_push batch.named row) mateRow, fun id => ?_, fun name inside => ?_⟩
      · rw [seenNow id]
        simp only [InMemoryStorage.stageRow, Finset.mem_insert, eq_comm, or_comm]
      · have both : openIn ((staged.rels.push r.id
              { r with lsn := LSN.newBackend (staged.next + 1) }).push inverse.id
              { inverse with lsn := LSN.newBackend (staged.next + 2) }) (name.id env) =
            if name = other then inverse.validUntil.isNone
            else if name = r.name then r.validUntil.isNone
            else openIn staged.rels (name.id env) :=
          (names.openIn_push _ _ mateMember inverseIdentity inside).trans
            (by rw [names.openIn_push staged.rels _ member identity inside])
        rw [openAfter_concat_side names rels listed member companion inside,
          ← batch.flags name inside]
        refine both.trans ?_
        by_cases side : name = other
        · have apart : name ≠ r.name := side ▸ companion_ne companion
          rw [if_pos side, if_neg apart, if_pos ⟨side, undecided⟩, alike]
        · rw [if_neg side]
          by_cases own : name = r.name
          · rw [if_pos own, if_pos own]
          · rw [if_neg own, if_neg own, if_neg fun known => side known.1]

end BatchFlags

theorem BatchFlags.foldl (names : PairedNames env edges) (rows : ∀ r ∈ all, NamedRow env edges r)
    (now : DateTime) (rest : List Relationship) (whole : all = done ++ rest)
    (batch : BatchFlags env edges rels all done staged) :
    BatchFlags env edges rels all all
      (rest.foldl (InMemoryStorage.stageRelationship env now) staged) := by
  induction rest generalizing done staged with
  | nil =>
      rw [List.append_nil] at whole
      rw [← whole] at batch
      exact batch
  | cons r rest ih =>
      have listed : r ∈ all := by
        rw [whole]
        simp
      have before : ∀ row ∈ done, row ∈ all := by
        intro row inside
        rw [whole]
        exact List.mem_append_left _ inside
      have shifted : all = (done ++ [r]) ++ rest := by
        rw [whole, List.append_cons]
      refine ih shifted ?_
      rcases rows r listed with ⟨member, identity⟩ | ⟨alone, foreign⟩
      · exact batch.side names rows before now listed member identity
      · exact batch.alone names now alone foreign

end Staging

/-- The rows a batch lists for one pair end alike: the last row of an edge is as the last
row of its companion or, where the batch lists no companion, as the first row of the
edge, after which the companion is written. -/
def BatchAgrees (env : Env) (rs : List Relationship) : Prop :=
  ∀ r ∈ rs, ∀ other, r.name.companion env = some other →
    lastOpen rs r.name = (lastOpen rs other).or (firstOpen rs r.name)

/-- Half of the agreement of a pair after a batch: an edge that the batch lists. -/
theorem openAfter_listed (agrees : BatchAgrees env rs) {name : EdgeName}
    (companion : name.companion env = some other) (back : other.companion env = some name)
    (listed : rs.any (·.name = name) = true) :
    openAfter env rels rs rs name = openAfter env rels rs rs other := by
  obtain ⟨r, inside, same⟩ := List.any_eq_true.mp listed
  have same := of_decide_eq_true same
  have agree := agrees r inside other (same ▸ companion)
  rw [same] at agree
  have first := isSome_firstOpen.mpr ⟨r, inside, same⟩
  obtain ⟨value, firstValue⟩ := Option.isSome_iff_exists.mp first
  rw [openAfter, if_pos listed, agree, openAfter, back, Option.bind_some, firstValue]
  cases listedOther : rs.any (·.name = other) with
  | true =>
      obtain ⟨mate, mateInside, mateSame⟩ := List.any_eq_true.mp listedOther
      obtain ⟨last, lastValue⟩ := Option.isSome_iff_exists.mp
        (isSome_lastOpen.mpr ⟨mate, mateInside, of_decide_eq_true mateSame⟩)
      simp [lastValue]
  | false =>
      have none_last : lastOpen rs other = none := by
        rw [← Option.not_isSome_iff_eq_none, isSome_lastOpen]
        rintro ⟨mate, mateInside, mateSame⟩
        have listedMate : rs.any (·.name = other) = true :=
          List.any_eq_true.mpr ⟨mate, mateInside, decide_eq_true mateSame⟩
        rw [listedOther] at listedMate
        cases listedMate
      simp [none_last]

section InStep

variable (inStep : InStep env edges s.rels) (names : PairedNames env edges)
include inStep names

theorem InStep.batch (rows : ∀ r ∈ rs, NamedRow env edges r) (agrees : BatchAgrees env rs)
    (ms : List Memory) (now : DateTime) :
    InStep env edges (InMemoryStorage.stageBatch env ms rs now s).rels := by
  have staged : ∀ start : InMemoryStorage.Staged,
      (ms.foldl (InMemoryStorage.stageMemory now) start).rels = start.rels ∧
        (ms.foldl (InMemoryStorage.stageMemory now) start).seenRelationships =
          start.seenRelationships := by
    intro start
    induction ms generalizing start with
    | nil => exact ⟨rfl, rfl⟩
    | cons m ms ih => exact ih (InMemoryStorage.stageMemory now start m)
  have start : BatchFlags env edges s.rels rs [] (ms.foldl (InMemoryStorage.stageMemory now)
      ⟨s.memories, s.rels, s.lsn, (rs.map (·.id)).toFinset, [], []⟩) := by
    refine ⟨?_, fun id => ?_, fun name member => ?_⟩
    · rw [(staged _).1]
      exact inStep.named
    · rw [(staged _).2]
      simp
    · rw [(staged _).1]
      obtain ⟨other, -, companion, -⟩ := names.paired name member
      simp [openAfter, lastOpen, firstOpen, companion]
  have batch := start.foldl names rows now rs rfl
  refine ⟨batch.named, fun name member other companion => ?_⟩
  obtain ⟨mateMember, back⟩ := names.companion_mem member companion
  rw [InMemoryStorage.stageBatch, batch.flags name member, batch.flags other mateMember]
  by_cases listed : rs.any (·.name = name) = true
  · exact openAfter_listed agrees companion back listed
  · by_cases listedOther : rs.any (·.name = other) = true
    · exact (openAfter_listed agrees back companion listedOther).symm
    · have unnamed : ∀ edge : EdgeName, ¬ rs.any (·.name = edge) = true →
          firstOpen rs edge = none := by
        intro edge unlisted
        rw [← Option.not_isSome_iff_eq_none, isSome_firstOpen]
        rintro ⟨r, inside, same⟩
        exact unlisted (List.any_eq_true.mpr ⟨r, inside, decide_eq_true same⟩)
      rw [openAfter, openAfter, if_neg listed, if_neg listedOther, companion, back,
        Option.bind_some, Option.bind_some, unnamed other listedOther, unnamed name listed]
      exact inStep.together name member other companion

/-! ## Calls -/

open InMemoryStorage

/-- A deletion that closes an edge without a companion keeps the pairs together. -/
theorem InStep.close {id : RelationshipId} {last : Relationship}
    (found : s.openRelationship id = some last) (alone : last.name.companion env = none) (lsn : ℕ)
    (now : DateTime) :
    InStep env edges (s.rels.push id { last with
      validUntil := some now, recordedAt := now, lsn := LSN.newBackend lsn }) := by
  obtain ⟨current, -⟩ := Option.filter_eq_some_iff.mp found
  obtain ⟨same, row⟩ := inStep.named id last (List.mem_of_getLast? current)
  have foreign := row.foreign names alone
  subst same
  have closed : NamedRow env edges { last with
      validUntil := some now, recordedAt := now, lsn := LSN.newBackend lsn } :=
    .inr ⟨alone, foreign⟩
  exact inStep.push_alone closed foreign names

theorem InStep.upsertRelationship (row : NamedRow env edges r)
    (guarded : ∀ other, r.name.companion env = some other → r.validUntil ≠ none →
      openIn s.rels (other.id env) = false) (now : DateTime) :
    InStep env edges (s.upsertRelationship env r now).post.rels := by
  have stamped := row.stamped (LSN.newBackend (s.lsn + 1))
  rw [InMemoryStorage.upsertRelationship]
  dsimp only
  split
  · next none_found =>
      rw [inverse_eq, Option.map_eq_none_iff] at none_found
      exact inStep.push_alone stamped (row.foreign names none_found) names
  · next inverse found =>
      obtain ⟨other, companion, identity', inverseName, alike⟩ := inverse_some found
      obtain ⟨member, identity⟩ := row.member companion
      have mateMember := (names.companion_mem member companion).1
      -- Writing the row itself does not touch the companion's side.
      have untouched : openIn (s.rels.push r.id { r with lsn := LSN.newBackend (s.lsn + 1) })
          inverse.id = openIn s.rels (other.id env) := by
        rw [identity', names.openIn_push _ _ member identity mateMember,
          if_neg (companion_ne companion)]
      split
      · next current =>
          have isOpen : openIn s.rels (other.id env) = true := untouched.symm.trans current
          refine inStep.push_side names member identity companion (isOpen.trans ?_) _
          cases validity : r.validUntil with
          | none => rfl
          | some closedAt =>
              have shut := guarded other companion (by rw [validity]; simp)
              rw [isOpen] at shut
              cases shut
      · exact inStep.push_pair names member identity (by rw [inverseName]; exact companion)
          (by rw [inverseName]; exact identity') alike _ _

theorem InStep.acceptance (row : NamedRow env edges r) (now : DateTime) :
    InStep env edges (s.stageAcceptance env r now).rels := by
  have stamped := row.stamped (LSN.newBackend (s.lsn + 1))
  rw [stageAcceptance]
  split
  · next none_found =>
      rw [inverse_eq, Option.map_eq_none_iff] at none_found
      exact inStep.push_alone stamped (row.foreign names none_found) names
  · next inverse found =>
      obtain ⟨other, companion, identity', inverseName, alike⟩ := inverse_some found
      obtain ⟨member, identity⟩ := row.member companion
      exact inStep.push_pair names member identity (by rw [inverseName]; exact companion)
        (by rw [inverseName]; exact identity') alike _ _

end InStep

end Paired

namespace Call

open InMemoryStorage

/-- The calls under which companions stay in step. A row of a pair is never deleted, and
a closed version is not upserted beside an open companion. -/
def InStepCall (env : Env) (edges : Set EdgeName) (s : InMemoryStorage) : Call → Prop
  | .upsertRelationship r => NamedRow env edges r ∧
      ∀ other, r.name.companion env = some other → r.validUntil ≠ none →
        openIn s.rels (other.id env) = false
  | .upsertBatch ms rs => (∀ r ∈ rs, NamedRow env edges r) ∧
      ((∀ r ∈ rs, s.endpointMissing ms r = false) → BatchAgrees env rs)
  | .acceptDiscovery acceptance => NamedRow env edges acceptance.relationship
  | .deleteRelationship id | .deleteRelationshipAudited id _ =>
      ∀ last, s.openRelationship id = some last → last.name.companion env = none
  | .upsertMemory _ | .deleteMemory _ | .storeDiscovery _ | .createDiscoveryProposal _ => True
  | _ => False

variable {edges : Set EdgeName}

theorem gated_inStep (inStep : InStep env edges s.rels) (names : PairedNames env edges)
    (now : DateTime) {call : Call} (allowed : call.InStepCall env edges s) :
    InStep env edges (call.gated env now s).post.rels := by
  by_cases about : call.OfDiscovery
  · rw [(gated_discovers env now s about).rels]
    exact inStep
  cases call with
  | storeDiscovery | createDiscoveryProposal => exact absurd trivial about
  | upsertMemory m => exact inStep
  | deleteMemory id =>
      simp only [gated, Outcome.map_post, InMemoryStorage.deleteMemory, deleteMemoryLocked]
      cases (s.memories.history id).getLast? <;> exact inStep
  | upsertRelationship r => exact inStep.upsertRelationship names allowed.1 allowed.2 now
  | upsertBatch ms rs =>
      simp only [gated, Outcome.map_post, InMemoryStorage.upsertBatch, upsertBatchLocked]
      cases missing : rs.find? (s.endpointMissing ms) with
      | some r => exact inStep
      | none =>
          have present : ∀ r ∈ rs, s.endpointMissing ms r = false := fun r inside => by
            simpa using List.find?_eq_none.mp missing r inside
          exact inStep.batch names allowed.1 (allowed.2 present) ms now
  | acceptDiscovery acceptance =>
      simp only [gated, Outcome.map_post, InMemoryStorage.acceptDiscovery]
      split
      · exact inStep
      · split
        · exact inStep
        · split
          · exact inStep
          · exact inStep.acceptance names allowed now
  | deleteRelationship id =>
      simp only [gated, Outcome.map_post, InMemoryStorage.deleteRelationship]
      split
      · exact inStep
      · next last found => exact inStep.close names found (allowed last found) _ now
  | deleteRelationshipAudited id audit =>
      simp only [gated, Outcome.map_post, InMemoryStorage.deleteRelationshipAudited]
      split
      · exact inStep
      · next last found => exact inStep.close names found (allowed last found) _ now
  | _ => exact allowed.elim

/-- Runs of calls, of which the ones that keep companions in step may be taken. -/
def companionRuns (env : Env) (edges : Set EdgeName) :
    Machine InMemoryStorage (DateTime × Call) where
  allowed s call := call.2.InStepCall env edges s
  step s call := (call.2.run env call.1 s).2

/-- The current version of every edge with a companion is open exactly when the current
version of the companion is. -/
def CompanionsInStep (env : Env) (s : InMemoryStorage) : Prop :=
  ∀ id r inverse, (s.rels.history id).getLast? = some r → env.inverse r = some inverse →
    (r.validUntil = none ↔ openIn s.rels inverse.id = true)

theorem companionsInStep_of_inStep (inStep : InStep env edges s.rels) : CompanionsInStep env s := by
  intro id r inverse current found
  obtain ⟨other, companion, identity, -, -⟩ := inverse_some found
  obtain ⟨rfl, row⟩ := inStep.named id r (List.mem_of_getLast? current)
  obtain ⟨member, own⟩ := row.member companion
  have openNow : openIn s.rels r.id = r.validUntil.isNone := by
    rw [openIn, current]
    rfl
  rw [identity, ← inStep.together _ member other companion, ← own, openNow,
    Option.isNone_iff_eq_none]

/-- **Companions stay in step** in every state that a run of such calls reaches from an
empty store. -/
theorem run_companionsInStep (env : Env) (edges : Set EdgeName) (names : PairedNames env edges)
    (calls : List (DateTime × Call)) (allows : (companionRuns env edges).Allows .new calls) :
    CompanionsInStep env (runAll env .new calls) := by
  have inStep : InStep env edges ((companionRuns env edges).run .new calls).rels := by
    refine allows.invariant (I := fun s => InStep env edges s.rels) inStep_empty
      fun s call inStep allowed => ?_
    obtain ⟨index, state⟩ := run_state env call.1 s call.2
    have rels : ((companionRuns env edges).step s call).rels =
        (call.2.gated env call.1 s).post.rels := by
      rw [companionRuns]
      dsimp only
      rw [state]
    rw [rels]
    exact gated_inStep inStep names call.1 allowed
  exact companionsInStep_of_inStep inStep

/-! ### A pair of kinds -/

/-- Kinds 1 and 2 are each other's inverse; the digest keeps the first byte of the source,
of the kind and of the target. -/
def pairEnv : Env where
  ontology := ⟨((∅ : Table RelKindId RelMeta).insert ⟨1⟩ ⟨⟨1⟩, some ⟨2⟩, false⟩).insert ⟨2⟩
    ⟨⟨2⟩, some ⟨1⟩, false⟩⟩
  blake3 input := ⟨[input.getD 0 0, input.getD 16 0, input.getD 20 0] ++ List.replicate 29 0, rfl⟩
  sha256 _ := Bytes.fill 32 0
  discoveryJson _ := []

/-- The name of an edge of kind 1. -/
def pairName : EdgeName := ⟨⟨.fill 16 1⟩, ⟨1⟩, ⟨.fill 16 2⟩⟩

/-- An open row of that edge. -/
def pairEdge : Relationship :=
  { Relationship.blank (pairName.id pairEnv) pairName.source pairName.target with
    kind := pairName.kind }

/-- A deletion closes the edge and leaves its companion open. -/
theorem companions_apart_after_deletion :
    ¬ CompanionsInStep pairEnv (runAll pairEnv .new
      [(0, .upsertRelationship pairEdge), (1, .deleteRelationship pairEdge.id)]) := by
  intro inStep
  have closed := inStep pairEdge.id { pairEdge with
    validUntil := some 1, recordedAt := 1, lsn := LSN.newBackend 3 } _ (by decide +kernel) rfl
  exact nomatch closed.mpr (by decide +kernel)

/-- An open edge upserted twice keeps its pair open. -/
theorem run_companionsInStep_repeated :
    CompanionsInStep pairEnv (runAll pairEnv .new
      [(0, .upsertRelationship pairEdge), (1, .upsertRelationship pairEdge)]) := by
  have names : PairedNames pairEnv {pairName, ⟨pairName.target, ⟨2⟩, pairName.source⟩} := by
    refine ⟨?_, ?_⟩
    · rintro name (rfl | rfl)
      · exact ⟨_, .inr rfl, by decide +kernel, by decide +kernel⟩
      · exact ⟨_, .inl rfl, by decide +kernel, by decide +kernel⟩
    · rintro first (rfl | rfl) second (rfl | rfl) same
      · rfl
      · exact absurd same (by decide +kernel)
      · exact absurd same (by decide +kernel)
      · rfl
  have row : NamedRow pairEnv {pairName, ⟨pairName.target, ⟨2⟩, pairName.source⟩} pairEdge :=
    .inl ⟨.inl rfl, rfl⟩
  refine run_companionsInStep pairEnv _ names _ ⟨⟨row, ?_⟩, ⟨row, ?_⟩, trivial⟩
  · exact fun _ _ closed => absurd rfl closed
  · exact fun _ _ closed => absurd rfl closed

end Call

end Exocortex
