import Exocortex.Kernel.Upgrades

/-!
# What a refusal says

A node is not started on a graph, and a backup is not restored, when the ontology at hand does not
contain the one in the record. The refusal carries the first difference that `firstDivergence`
finds between two summaries: the first element of the one that the other one lacks or has
otherwise (`firstDivergence_eq`), and there is none exactly when the one is a part of the other
(`firstDivergence_eq_none_iff`).

Both refusals ask it for what the record lacks of the ontology at hand, not for what the ontology
at hand lacks of the record. So there can be no difference, or it can be about something that was
added. It is about an element of the record that was lost exactly when the first addition or
change has its place, number or name in common with one (`LostShowsFirst`, `refusals_name_iff`).
-/

namespace Exocortex

open Library

/-! ## Elements -/

/-- An element of an ontology. -/
inductive Element where
  | memoryType (place : ℕ) (name : String)
  | entityType (place : ℕ) (name : String)
  | kind (row : KindSummary)
  | triple (rule : TripleSummary)
  | ruleId (rule : String)
  | action (verb : ActionVerbSummary)
  | function (verb : FunctionVerbSummary)
deriving DecidableEq

/-- By what an element is called. -/
inductive ElementKey where
  | memoryType (place : ℕ)
  | entityType (place : ℕ)
  | kind (id : UInt32)
  | triple (kind : UInt32)
  | ruleId (rule : String)
  | action (pack name : String)
  | function (pack name : String)
deriving DecidableEq

def Element.key : Element → ElementKey
  | .memoryType place _ => .memoryType place
  | .entityType place _ => .entityType place
  | .kind row => .kind row.id
  | .triple rule => .triple rule.kind
  | .ruleId rule => .ruleId rule
  | .action verb => .action verb.pack verb.name
  | .function verb => .function verb.pack verb.name

/-- What a difference is about. -/
def Divergence.key : Divergence → ElementKey
  | .memoryTypeDiffers place _ _ => .memoryType place
  | .memoryTypeMissing _ place => .memoryType place
  | .entityTypeDiffers place _ _ => .entityType place
  | .entityTypeMissing _ place => .entityType place
  | .kindDiffers id => .kind id
  | .kindMissing _ id => .kind id
  | .tripleNotCovered kind => .triple kind
  | .ruleMissing rule => .ruleId rule
  | .actionDiffers pack name => .action pack name
  | .functionDiffers pack name => .function pack name

namespace OntologySummary

/-- The elements of a summary, in the order of its sections. -/
def elements (summary : OntologySummary) : List Element :=
  (summary.memoryTypes.zipIdx.map fun named => .memoryType named.2 named.1) ++
    ((summary.entityTypes.zipIdx.map fun named => .entityType named.2 named.1) ++
    (summary.kinds.map .kind ++ (summary.typeTriples.map .triple ++
    ((btreeSet (fun left right => left ≤ right) summary.ruleIds).map .ruleId ++
    ((btreeSet ActionVerbSummary.le summary.actions).map .action ++
    (btreeSet FunctionVerbSummary.le summary.functions).map .function)))))

/-- The ontology has the element, or a rule that covers it. -/
def keeps (summary : OntologySummary) : Element → Bool
  | .memoryType place name => summary.memoryTypes[place]? = some name
  | .entityType place name => summary.entityTypes[place]? = some name
  | .kind row => (summary.kindRow row.id).any (·.same row)
  | .triple rule => summary.typeTriples.contains rule || tripleCovered rule summary
  | .ruleId rule => summary.ruleIds.contains rule
  | .action verb => summary.actions.contains verb
  | .function verb => summary.functions.contains verb

/-- The difference that an element makes which the other ontology does not keep. -/
def difference (superset : OntologySummary) : Element → Divergence
  | .memoryType place name => match superset.memoryTypes[place]? with
    | some other => .memoryTypeDiffers place name other
    | none => .memoryTypeMissing name place
  | .entityType place name => match superset.entityTypes[place]? with
    | some other => .entityTypeDiffers place name other
    | none => .entityTypeMissing name place
  | .kind row => match superset.kindRow row.id with
    | some _ => .kindDiffers row.id
    | none => .kindMissing row.name row.id
  | .triple rule => .tripleNotCovered rule.kind
  | .ruleId rule => .ruleMissing rule
  | .action verb => .actionDiffers verb.pack verb.name
  | .function verb => .functionDiffers verb.pack verb.name

theorem key_difference (superset : OntologySummary) (element : Element) :
    (superset.difference element).key = element.key := by
  cases element with
  | memoryType place name =>
      rw [difference]
      split <;> rfl
  | entityType place name =>
      rw [difference]
      split <;> rfl
  | kind row =>
      rw [difference]
      split <;> rfl
  | triple rule => rfl
  | ruleId rule => rfl
  | action verb => rfl
  | function verb => rfl

/-! ## The first difference -/

/-- The first element that is not kept makes the difference. -/
theorem findSome?_eq_find? {α β γ : Type} {f : α → Option β} {g : α → γ} {lost : γ → Bool}
    {h : γ → β} {xs : List α}
    (known : ∀ x, f x = if lost (g x) then some (h (g x)) else none) :
    xs.findSome? f = ((xs.map g).find? lost).map h := by
  induction xs with
  | nil => rfl
  | cons x xs ih =>
      rw [List.findSome?_cons, List.map_cons, List.find?_cons, known x]
      cases lost (g x) with
      | true => rfl
      | false => exact ih

/-- The first difference is that of the first element which the other ontology does not keep. -/
theorem firstDivergence_eq (summary superset : OntologySummary) :
    summary.firstDivergence superset =
      (summary.elements.find? fun element => !superset.keeps element).map superset.difference := by
  have memory : firstName .memoryTypeDiffers .memoryTypeMissing summary.memoryTypes
      superset.memoryTypes = ((summary.memoryTypes.zipIdx.map fun named =>
        Element.memoryType named.2 named.1).find? fun element => !superset.keeps element).map
          superset.difference := by
    refine findSome?_eq_find? fun named => ?_
    rw [keeps, difference]
    cases superset.memoryTypes[named.2]? with
    | none => rfl
    | some other => by_cases same : other = named.1 <;> simp [same]
  have entity : firstName .entityTypeDiffers .entityTypeMissing summary.entityTypes
      superset.entityTypes = ((summary.entityTypes.zipIdx.map fun named =>
        Element.entityType named.2 named.1).find? fun element => !superset.keeps element).map
          superset.difference := by
    refine findSome?_eq_find? fun named => ?_
    rw [keeps, difference]
    cases superset.entityTypes[named.2]? with
    | none => rfl
    | some other => by_cases same : other = named.1 <;> simp [same]
  have kinds : summary.kinds.findSome? superset.kindDivergence =
      ((summary.kinds.map Element.kind).find? fun element => !superset.keeps element).map
        superset.difference := by
    refine findSome?_eq_find? fun row => ?_
    rw [kindDivergence, keeps, difference]
    cases superset.kindRow row.id with
    | none => rfl
    | some other => cases same : other.same row <;> simp [same]
  have triples (rule : TripleSummary) :
      (!superset.typeTriples.contains rule && !tripleCovered rule superset) =
        !superset.keeps (.triple rule) := (Bool.not_or _ _).symm
  rw [firstDivergence, elements, memory, entity, kinds]
  simp only [List.find?_append, Option.map_or, List.find?_map, Option.map_map, triples]
  rfl

theorem keeps_names_iff {names others : List String} {element : ℕ → String → Element}
    {superset : OntologySummary}
    (known : ∀ place name, superset.keeps (element place name) = true ↔
      others[place]? = some name) :
    (∀ e ∈ names.zipIdx.map fun named => element named.2 named.1, superset.keeps e = true) ↔
      names <+: others := by
  rw [List.forall_mem_map, List.prefix_iff_getElem?]
  constructor
  · intro kept place inside
    have listed : (names[place], place) ∈ names.zipIdx :=
      List.mem_zipIdx_iff_getElem?.mpr (List.getElem?_eq_getElem inside)
    exact (known _ _).mp (kept _ listed)
  · intro front named listed
    obtain ⟨inside, same⟩ := List.getElem?_eq_some_iff.mp (List.mem_zipIdx_iff_getElem?.mp listed)
    refine (known _ _).mpr ?_
    rw [front named.2 inside, same]

variable {summary superset : OntologySummary}

/-- A part is what the other ontology keeps all elements of. -/
theorem isSubsetOf_iff_keeps :
    summary.isSubsetOf superset = true ↔
      ∀ element ∈ summary.elements, superset.keeps element = true := by
  have memory := @keeps_names_iff summary.memoryTypes superset.memoryTypes .memoryType superset
    fun place name => decide_eq_true_iff
  have entity := @keeps_names_iff summary.entityTypes superset.entityTypes .entityType superset
    fun place name => decide_eq_true_iff
  have covered (rule : TripleSummary) :
      superset.keeps (.triple rule) = true ↔ tripleCovered rule superset = true := by
    rw [keeps, Bool.or_eq_true, or_iff_right_of_imp fun listed =>
      tripleCovered_of_mem (List.contains_iff_mem.mp listed)]
  rw [isSubsetOf_iff, elements]
  simp only [List.forall_mem_append]
  rw [memory, entity]
  simp only [List.forall_mem_map, mem_btreeSet, covered]
  simp only [keeps, List.contains_iff_mem, Option.any_eq_true]
  exact ⟨fun ⟨memory, entity, kinds, triples, ruleIds, actions, functions⟩ =>
    ⟨memory, entity, kinds, triples, ruleIds, actions, functions⟩,
    fun ⟨memory, entity, kinds, triples, ruleIds, actions, functions⟩ =>
      ⟨memory, entity, kinds, triples, ruleIds, actions, functions⟩⟩

/-- There is no first difference exactly when the one ontology is a part of the other. -/
theorem firstDivergence_eq_none_iff :
    summary.firstDivergence superset = none ↔ summary.isSubsetOf superset = true := by
  rw [firstDivergence_eq, Option.map_eq_none_iff, List.find?_eq_none, isSubsetOf_iff_keeps]
  simp

end OntologySummary

/-! ## What refusals name -/

/-- The difference is about an element of the record that the ontology at hand lacks or has
otherwise. -/
def NamesLost (pinned runtime : OntologySummary) (divergence : Option Divergence) : Prop :=
  ∃ difference, divergence = some difference ∧ ∃ lost ∈ pinned.elements,
    runtime.keeps lost = false ∧ difference.key = lost.key

/-- The first element at hand that the record lacks or has otherwise is called as an element of the
record is that the ontology at hand lacks or has otherwise. -/
def LostShowsFirst (pinned runtime : OntologySummary) : Prop :=
  ∃ before element after, runtime.elements = before ++ element :: after ∧
    (∀ other ∈ before, pinned.keeps other = true) ∧ pinned.keeps element = false ∧
      ∃ lost ∈ pinned.elements, runtime.keeps lost = false ∧ element.key = lost.key

theorem namesLost_iff {pinned runtime : OntologySummary} :
    NamesLost pinned runtime (runtime.firstDivergence pinned) ↔ LostShowsFirst pinned runtime := by
  rw [OntologySummary.firstDivergence_eq, NamesLost]
  constructor
  · rintro ⟨difference, found, lost, inside, gone, named⟩
    obtain ⟨element, first, rfl⟩ := Option.map_eq_some_iff.mp found
    obtain ⟨fresh, before, after, split, kept⟩ := List.find?_eq_some_iff_append.mp first
    rw [pinned.key_difference] at named
    exact ⟨before, element, after, split, by simpa using kept, by simpa using fresh, lost, inside,
      gone, named⟩
  · rintro ⟨before, element, after, split, kept, fresh, lost, inside, gone, named⟩
    refine ⟨pinned.difference element, Option.map_eq_some_iff.mpr ⟨element, ?_, rfl⟩, lost, inside,
      gone, (pinned.key_difference element).trans named⟩
    exact List.find?_eq_some_iff_append.mpr
      ⟨by simpa using fresh, before, after, split, by simpa using kept⟩

variable {ours : EffectiveOntology} {divergence : Option Divergence}

theorem admitNodeGraph_refuses {hashes : Fingerprints} {pin : PersistedPin}
    (refused : admitNodeGraph hashes pin ours = .error (.notASuperset divergence)) :
    ∃ record, pin = .v2 record ∧ divergence = ours.summary.firstDivergence record.summary := by
  unfold admitNodeGraph at refused
  cases pin with
  | absent => cases refused
  | legacyV1 pinned =>
      simp only at refused
      split at refused <;> cases refused
  | v2 record =>
      simp only at refused
      split at refused
      · cases refused
      · split at refused
        · split at refused <;> cases refused
        · split at refused
          · cases refused
          · cases refused
            exact ⟨record, rfl, rfl⟩

theorem admitBackup_refuses {buildFingerprint : Bytes 32} {backup : BackupOntology}
    (refused : admitBackup backup ours buildFingerprint = .error (.notASuperset divergence)) :
    ∃ summary, backup = .summarized summary ∧
      divergence = ours.summary.firstDivergence summary := by
  cases backup with
  | summarized summary =>
      rw [admitBackup] at refused
      split at refused
      · cases refused
      · cases refused
        exact ⟨summary, rfl, rfl⟩
  | legacy fingerprintHex =>
      rw [admitBackup] at refused
      split at refused <;> cases refused

/-- **When refusals name their reason.** There is no difference exactly for a part. The difference
that a refusal carries is about something lost exactly when the first thing that the record lacks
or has otherwise is called like something lost. -/
theorem refusals_name_iff (ours : EffectiveOntology) (buildFingerprint : Bytes 32) :
    (∀ summary superset : OntologySummary,
      summary.firstDivergence superset = none ↔ summary.isSubsetOf superset = true) ∧
    (∀ (hashes : Fingerprints) (pin : PersistedPin) (divergence : Option Divergence),
      admitNodeGraph hashes pin ours = .error (.notASuperset divergence) →
        ∃ record, pin = .v2 record ∧ (NamesLost record.summary ours.summary divergence ↔
          LostShowsFirst record.summary ours.summary)) ∧
    ∀ (backup : BackupOntology) (divergence : Option Divergence),
      admitBackup backup ours buildFingerprint = .error (.notASuperset divergence) →
        ∃ summary, backup = .summarized summary ∧ (NamesLost summary ours.summary divergence ↔
          LostShowsFirst summary ours.summary) := by
  refine ⟨fun _ _ => OntologySummary.firstDivergence_eq_none_iff, ?_, ?_⟩
  · intro hashes pin divergence refused
    obtain ⟨record, same, rfl⟩ := admitNodeGraph_refuses refused
    exact ⟨record, same, namesLost_iff⟩
  · intro backup divergence refused
    obtain ⟨summary, same, rfl⟩ := admitBackup_refuses refused
    exact ⟨summary, same, namesLost_iff⟩

/-- A backup under an ontology with another type at a place is refused with that place. -/
theorem refusals_name_renamed : ∃ divergence,
    admitBackup (.summarized { smallOntology.summary with memoryTypes := ["Idea"] })
        smallOntology (.fill 32 0) = .error (.notASuperset divergence) ∧
      NamesLost { smallOntology.summary with memoryTypes := ["Idea"] } smallOntology.summary
        divergence := by
  have refused : admitBackup (.summarized { smallOntology.summary with memoryTypes := ["Idea"] })
      smallOntology (.fill 32 0) =
        .error (.notASuperset (some (.memoryTypeDiffers 0 "Problem" "Idea"))) := by decide +kernel
  obtain ⟨summary, same, exactly⟩ := (refusals_name_iff _ _).2.2 _ _ refused
  cases same
  refine ⟨_, refused, exactly.mpr ⟨[], .memoryType 0 "Problem", _, rfl, ?_, ?_, ?_⟩⟩
  · exact fun _ inside => absurd inside List.not_mem_nil
  · decide
  · exact ⟨.memoryType 0 "Idea", List.mem_cons_self, by decide, rfl⟩

/-- A backup under an ontology with a rule that was removed is refused without a difference. -/
theorem not_refusals_name : ¬ ∀ (ours : EffectiveOntology) (buildFingerprint : Bytes 32)
    (backup : BackupOntology) (divergence : Option Divergence),
    admitBackup backup ours buildFingerprint = .error (.notASuperset divergence) →
      ∃ summary, backup = .summarized summary ∧ NamesLost summary ours.summary divergence := by
  intro always
  have refused : admitBackup (.summarized { smallOntology.summary with ruleIds := ["audit"] })
      smallOntology (.fill 32 0) = .error (.notASuperset none) := by decide +kernel
  obtain ⟨_, _, difference, absent, _⟩ := always _ _ _ _ refused
  cases absent

end Exocortex
