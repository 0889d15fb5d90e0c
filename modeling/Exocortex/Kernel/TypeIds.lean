import Exocortex.Kernel.Assembly
import Exocortex.Kernel.Upgrades

/-!
# Numbers of memory types

A memory type has two numbers: its place among the types of its pack, which the rules of the pack
use, and its number in the assembled ontology, which rows use. The first is moved into the second
by a running offset. Both have eight bits, and nothing bounds the number of types or checks the
numbers in the rules of a pack.

The numbers are faithful when they name one type each, when the assembled rules let in the types
that the rules of the packs name, and when exactly the declared triples are valid
(`FaithfulTypes`). This holds exactly when all types together fit into eight bits and no rule of
a pack has a number that comes to lie on a type it does not name (`fromPacks_faithful_iff`).
-/

namespace Exocortex.Assembly

open Library

/-! ## Faithful numbers -/

/-- A side of a rule of the pack names the type. -/
def PackDef.Names (pack : PackDef) (side : Option (List UInt8)) (name : String) : Prop :=
  ∀ numbers ∈ side, ∃ number ∈ numbers, pack.memoryTypeNames[number.toNat]? = some name

/-- A rule of a pack and what it is in the assembled ontology. -/
def Assembles (packs : List PackDef) (ontology : Ontology) (pack : PackDef)
    (rule canonical : TypeTriple) : Prop :=
  pack ∈ packs ∧ ∃ moved ∈ ontology.packs, moved.name = pack.name ∧
    (rule, canonical) ∈ pack.typeTriples.zip moved.typeTriples

/-- Numbers name types, and rules admit what their packs name. -/
structure FaithfulTypes (packs : List PackDef) (ontology : Ontology) : Prop where
  distinct : ∀ name other number, ontology.memoryTypeId name = some number →
    ontology.memoryTypeId other = some number → name = other
  named : ∀ name number, ontology.memoryTypeId name = some number →
    ontology.memoryTypeNames[number.toNat]? = some name
  sides : ∀ pack rule canonical, Assembles packs ontology pack rule canonical →
    ∀ name number, ontology.memoryTypeId name = some number →
      (canonical.fromTypes.all (·.contains number) = true ↔ pack.Names rule.fromTypes name) ∧
        (canonical.toTypes.all (·.contains number) = true ↔ pack.Names rule.toTypes name)
  triples : ∀ source target number number' kind, ontology.memoryTypeId source = some number →
    ontology.memoryTypeId target = some number' →
      (validateTriple ontology number kind number' = .ok () ↔
        ∃ pack rule canonical, Assembles packs ontology pack rule canonical ∧
          canonical.kind = kind ∧ pack.Names rule.fromTypes source ∧
            pack.Names rule.toTypes target)

/-! ## When they are -/

/-- How many memory types the packs declare. -/
def typeCount (packs : List PackDef) : ℕ := (packs.map (·.memoryTypeNames.length)).sum

/-- A listed number is one of the own types of the pack, or it lies behind all types, or, when all
256 numbers are taken, it stops at the last own type, which is listed as well. -/
def Harmless (before own total : ℕ) (numbers : List UInt8) (number : UInt8) : Prop :=
  number.toNat < own ∨ (total < 256 ∧ total ≤ before + number.toNat) ∨
    (total = 256 ∧ before + own = 256 ∧ ∃ last ∈ numbers, last.toNat + 1 = own)

instance (before own total : ℕ) (numbers : List UInt8) (number : UInt8) :
    Decidable (Harmless before own total numbers number) :=
  inferInstanceAs (Decidable (_ ∨ _ ∨ _))

/-- All types fit into eight bits, and so do the listed numbers, where they lie. -/
structure FitsByte (packs : List PackDef) : Prop where
  few : typeCount packs ≤ 256
  listed : ∀ pack ∈ packs, ∀ rule ∈ pack.typeTriples, ∀ side ∈ [rule.fromTypes, rule.toTypes],
    ∀ numbers ∈ side, ∀ number ∈ numbers,
      Harmless (typeCount (packs.filter (·.name < pack.name))) pack.memoryTypeNames.length
        (typeCount packs) numbers number

/-! ## Where numbers come to lie -/

theorem toNat_saturatingAdd (x y : UInt8) :
    (saturatingAdd x y).toNat = min 255 (x.toNat + y.toNat) := by
  rw [saturatingAdd, UInt8.toNat_ofNat']
  omega

variable {front back : List PackDef} {pack : PackDef}

/-- The offset is exact as long as it fits. -/
theorem toNat_mtOffset (fits : typeCount front < 256) :
    (mtOffset front).toNat = typeCount front := by
  induction front using List.reverseRecOn with
  | nil => rfl
  | append_singleton front pack ih =>
      have step : mtOffset (front ++ [pack]) =
          saturatingAdd (mtOffset front) (UInt8.ofNat pack.memoryTypeNames.length) := by
        rw [mtOffset, List.foldl_append]
        rfl
      have count : typeCount (front ++ [pack]) = typeCount front + pack.memoryTypeNames.length := by
        rw [typeCount, List.map_append, List.sum_append]
        simp [typeCount]
      rw [count] at fits ⊢
      rw [step, toNat_saturatingAdd, ih (by omega), UInt8.toNat_ofNat']
      omega

variable {own : ℕ} {packs : List PackDef} {name : String}

/-- The listed numbers lie on the own types that they name just when each of them is harmless. -/
theorem lands_iff {before total offset : ℕ} {numbers : List UInt8} (room : before + own ≤ total)
    (few : total ≤ 256) (exact_ : before < 256 → offset = before) :
    (∀ place < total, (∃ number ∈ numbers, min 255 (offset + number.toNat) = place) ↔
        ∃ number ∈ numbers, number.toNat < own ∧ before + number.toNat = place) ↔
      ∀ number ∈ numbers, Harmless before own total numbers number := by
  constructor
  · intro lands number listed
    have byte := number.toNat_lt
    by_cases inside : min 255 (offset + number.toNat) < total
    · obtain ⟨last, listed', own', there⟩ := (lands _ inside).mp ⟨number, listed, rfl⟩
      by_cases mine : number.toNat < own
      · exact .inl mine
      · refine .inr (.inr ⟨?_, ?_, last, listed', ?_⟩)
        all_goals omega
    · exact .inr (.inl (by omega))
  · intro harmless place below
    constructor
    · rintro ⟨number, listed, there⟩
      rcases harmless number listed with mine | behind | ⟨full, back, last, listed', ends⟩
      · exact ⟨number, listed, mine, by omega⟩
      · omega
      · by_cases mine : number.toNat < own
        · exact ⟨number, listed, mine, by omega⟩
        · exact ⟨last, listed', by omega, by omega⟩
    · rintro ⟨number, listed, mine, there⟩
      exact ⟨number, listed, by omega⟩

/-! ## The packs in their order -/

theorem mem_canonicalized_iff {moved : PackDef} :
    moved ∈ canonicalized packs ↔ ∃ front pack back, sortedPacks packs = front ++ pack :: back ∧
      moved = canonicalPack front.length (mtOffset front) pack := by
  rw [canonicalized, List.mem_mapIdx]
  constructor
  · rintro ⟨place, below, rfl⟩
    refine ⟨(sortedPacks packs).take place, (sortedPacks packs)[place],
      (sortedPacks packs).drop (place + 1), ?_, ?_⟩
    · rw [List.getElem_cons_drop, List.take_append_drop]
    · rw [List.length_take, min_eq_left below.le]
  · rintro ⟨front, pack, back, split, rfl⟩
    refine ⟨front.length, ?_, ?_⟩
    · rw [split, List.length_append, List.length_cons]
      omega
    · simp only [split, List.take_left, List.getElem_append_right, le_refl, Nat.sub_self,
        List.getElem_cons_zero]

theorem typeNames_canonicalized (packs : List PackDef) :
    (canonicalized packs).flatMap (·.memoryTypeNames) =
      (sortedPacks packs).flatMap (·.memoryTypeNames) := by
  rw [List.flatMap_def, List.flatMap_def, map_canonicalized packs fun _ _ _ => rfl]

theorem length_typeNames (packs : List PackDef) :
    (packs.flatMap (·.memoryTypeNames)).length = typeCount packs := List.length_flatMap

theorem typeCount_perm {others : List PackDef} (permuted : packs.Perm others) :
    typeCount packs = typeCount others := (permuted.map _).sum_eq

/-- Packs with distinct names stand in the order of their names. -/
theorem sortedPacks_pairwise (distinct : (packs.map (·.name)).Nodup) :
    (sortedPacks packs).Pairwise (·.name < ·.name) := by
  have total : Std.Total fun left right : PackDef => left.name ≤ right.name :=
    ⟨fun _ _ => Std.Total.total _ _⟩
  have trans : IsTrans PackDef fun left right => left.name ≤ right.name :=
    ⟨fun _ _ _ => Std.le_trans⟩
  have apart : (sortedPacks packs).Pairwise (·.name ≠ ·.name) :=
    List.pairwise_map.mp (((sortedPacks_perm_self packs).map _).nodup_iff.mpr distinct)
  exact (List.pairwise_insertionSort _ packs).imp₂
    (fun _ _ below other => Std.lt_of_le_of_ne below other) apart

/-- The types before a pack are those of the packs with smaller names. -/
theorem typeCount_before (distinct : (packs.map (·.name)).Nodup)
    (split : sortedPacks packs = front ++ pack :: back) :
    typeCount (packs.filter (·.name < pack.name)) = typeCount front := by
  have order := sortedPacks_pairwise distinct
  rw [split, List.pairwise_append, List.pairwise_cons] at order
  obtain ⟨-, ⟨behind, -⟩, ahead⟩ := order
  have before : front.filter (·.name < pack.name) = front := by
    rw [List.filter_eq_self]
    exact fun other inside => decide_eq_true (ahead other inside pack List.mem_cons_self)
  have after : (pack :: back).filter (·.name < pack.name) = [] := by
    rw [List.filter_eq_nil_iff]
    intro other inside
    rw [decide_eq_true_eq]
    rcases List.mem_cons.mp inside with rfl | inside
    · exact Std.lt_irrefl
    · exact fun below => Std.lt_irrefl (Std.lt_trans below (behind other inside))
  rw [← typeCount_perm ((sortedPacks_perm_self packs).filter _), split, List.filter_append, before,
    after, List.append_nil]

theorem mem_zip_map {α β : Type} {f : α → β} {xs : List α} {x : α} {y : β} :
    (x, y) ∈ xs.zip (xs.map f) ↔ x ∈ xs ∧ y = f x := by
  have pairs : xs.zip (xs.map f) = xs.map fun x => (x, f x) := by
    have both : (xs.map id).zip (xs.map f) = xs.map fun x => (x, f x) := List.zip_map'
    rwa [List.map_id] at both
  rw [pairs, List.mem_map]
  constructor
  · rintro ⟨z, inside, same⟩
    cases same
    exact ⟨inside, rfl⟩
  · rintro ⟨inside, rfl⟩
    exact ⟨x, inside, rfl⟩

theorem assembles_iff {sha256 : List UInt8 → Bytes 32} {rule canonical : TypeTriple}
    (distinct : (packs.map (·.name)).Nodup) :
    Assembles packs (assembled sha256 (canonicalized packs)) pack rule canonical ↔
      ∃ front back, sortedPacks packs = front ++ pack :: back ∧ rule ∈ pack.typeTriples ∧
        canonical = canonicalTriple front.length (mtOffset front) rule := by
  have listed {front back : List PackDef} {other : PackDef}
      (split : sortedPacks packs = front ++ other :: back) : other ∈ packs := by
    rw [← (sortedPacks_perm_self packs).mem_iff, split]
    exact List.mem_append_right _ List.mem_cons_self
  constructor
  · rintro ⟨inside, moved, there, named, zipped⟩
    obtain ⟨front, other, back, split, rfl⟩ := mem_canonicalized_iff.mp there
    cases List.inj_on_of_nodup_map distinct (listed split) inside named
    exact ⟨front, back, split, mem_zip_map.mp zipped⟩
  · rintro ⟨front, back, split, inside⟩
    exact ⟨listed split, _, mem_canonicalized_iff.mpr ⟨front, pack, back, split, rfl⟩, rfl,
      mem_zip_map.mpr inside⟩

/-! ## Numbers and names -/

theorem idxOf?_eq_some_iff {names : List String} (distinct : names.Nodup) {place : ℕ} :
    names.idxOf? name = some place ↔ names[place]? = some name := by
  refine ⟨EffectiveOntology.idxOf?_eq_some, fun there => ?_⟩
  cases found : names.idxOf? name with
  | none =>
      exact absurd (List.mem_of_getElem? there) (List.idxOf?_eq_none_iff.mp found)
  | some first =>
      obtain ⟨inside, here⟩ := List.getElem?_eq_some_iff.mp
        (EffectiveOntology.idxOf?_eq_some found)
      obtain ⟨inside', here'⟩ := List.getElem?_eq_some_iff.mp there
      exact congrArg some (distinct.getElem_inj_iff.mp (here.trans here'.symm))

section Registered

variable {sha256 : List UInt8 → Bytes 32} {packs : List PackDef} (registers : Registers packs)
include registers

theorem memoryTypeId_iff {number : UInt8} :
    (assembled sha256 (canonicalized packs)).memoryTypeId name = some number ↔
      ∃ place, ((sortedPacks packs).flatMap (·.memoryTypeNames))[place]? = some name ∧
        UInt8.ofNat place = number := by
  have distinct := registers.memoryTypes
  have found : (assembled sha256 (canonicalized packs)).memoryTypeId name =
      (((canonicalized packs).flatMap (·.memoryTypeNames)).idxOf? name).map UInt8.ofNat :=
    lookup_typeIds distinct name
  rw [found, Option.map_eq_some_iff, ← typeNames_canonicalized]
  exact exists_congr fun place => and_congr_left' (idxOf?_eq_some_iff distinct)

/-- With at most 256 types, a number is the place of the name. -/
theorem memoryTypeId_iff_of_few (few : typeCount packs ≤ 256) {name : String} {number : UInt8} :
    (assembled sha256 (canonicalized packs)).memoryTypeId name = some number ↔
      ((sortedPacks packs).flatMap (·.memoryTypeNames))[number.toNat]? = some name := by
  have size : ((sortedPacks packs).flatMap (·.memoryTypeNames)).length ≤ 256 := by
    rw [length_typeNames, typeCount_perm (sortedPacks_perm_self packs)]
    exact few
  rw [memoryTypeId_iff registers]
  constructor
  · rintro ⟨place, there, rfl⟩
    have below := (List.getElem?_eq_some_iff.mp there).1
    rwa [UInt8.toNat_ofNat', Nat.mod_eq_of_lt (by omega)]
  · intro there
    exact ⟨number.toNat, there, UInt8.ofNat_toNat⟩

omit registers in
/-- The own types of a pack stand behind those of the packs before it. -/
theorem own_getElem? (split : sortedPacks packs = front ++ pack :: back)
    (mine : own < pack.memoryTypeNames.length) :
    ((sortedPacks packs).flatMap (·.memoryTypeNames))[typeCount front + own]? =
      pack.memoryTypeNames[own]? := by
  rw [split, List.flatMap_append, List.flatMap_cons, ← length_typeNames,
    List.getElem?_append_right (Nat.le_add_right _ _), Nat.add_sub_cancel_left,
    List.getElem?_append_left mine]

/-- A type is the own one with its number just when it stands there. -/
theorem own_iff (split : sortedPacks packs = front ++ pack :: back) {place : ℕ}
    (there : ((sortedPacks packs).flatMap (·.memoryTypeNames))[place]? = some name) :
    pack.memoryTypeNames[own]? = some name ↔
      own < pack.memoryTypeNames.length ∧ typeCount front + own = place := by
  have distinct := registers.memoryTypes
  rw [typeNames_canonicalized] at distinct
  constructor
  · intro here
    have mine := (List.getElem?_eq_some_iff.mp here).1
    refine ⟨mine, ?_⟩
    rw [← own_getElem? split mine] at here
    obtain ⟨inside, at_own⟩ := List.getElem?_eq_some_iff.mp here
    obtain ⟨inside', at_place⟩ := List.getElem?_eq_some_iff.mp there
    exact distinct.getElem_inj_iff.mp (at_own.trans at_place.symm)
  · rintro ⟨mine, rfl⟩
    rwa [← own_getElem? split mine]

/-- An assembled side lets in the types that the pack names just when its numbers are harmless. -/
theorem side_iff (few : typeCount packs ≤ 256) (split : sortedPacks packs = front ++ pack :: back)
    (side : Option (List UInt8)) :
    (∀ name number, (assembled sha256 (canonicalized packs)).memoryTypeId name = some number →
        ((side.map (·.map (saturatingAdd (mtOffset front)))).all (·.contains number) = true ↔
          pack.Names side name)) ↔
      ∀ numbers ∈ side, ∀ number ∈ numbers, Harmless (typeCount front)
        pack.memoryTypeNames.length (typeCount packs) numbers number := by
  cases side with
  | none =>
      refine iff_of_true (fun name number _ => ?_) fun numbers absent => by cases absent
      exact iff_of_true rfl fun numbers absent => by cases absent
  | some numbers =>
      have total := typeCount_perm (sortedPacks_perm_self packs)
      have room : typeCount front + pack.memoryTypeNames.length ≤ typeCount packs := by
        rw [← total, split, typeCount, typeCount, List.map_append, List.sum_append, List.map_cons,
          List.sum_cons]
        omega
      have exact_ : typeCount front < 256 → (mtOffset front).toNat = typeCount front :=
        toNat_mtOffset
      have admits (number : UInt8) :
          ((some numbers).map (·.map (saturatingAdd (mtOffset front)))).all
              (·.contains number) = true ↔
            ∃ listed ∈ numbers, min 255 ((mtOffset front).toNat + listed.toNat) =
              number.toNat := by
        rw [Option.map_some, Option.all_some, List.contains_iff_mem, List.mem_map]
        refine exists_congr fun listed => and_congr_right' ?_
        rw [← toNat_saturatingAdd, UInt8.toNat_inj]
      have names (name : String) : pack.Names (some numbers) name ↔
          ∃ listed ∈ numbers, pack.memoryTypeNames[listed.toNat]? = some name := by
        simp [PackDef.Names]
      have rest : (∀ sides ∈ some numbers, ∀ number ∈ sides, Harmless (typeCount front)
            pack.memoryTypeNames.length (typeCount packs) sides number) ↔
          ∀ number ∈ numbers, Harmless (typeCount front) pack.memoryTypeNames.length
            (typeCount packs) numbers number := by
        simp
      rw [rest, ← lands_iff room few exact_]
      simp only [admits, names, memoryTypeId_iff_of_few registers few]
      constructor
      · intro faithful place below
        rw [← total, ← length_typeNames] at below
        have byte : (UInt8.ofNat place).toNat = place := by
          rw [UInt8.toNat_ofNat', Nat.mod_eq_of_lt]
          rw [length_typeNames, total] at below
          omega
        have there := List.getElem?_eq_getElem below
        have known := faithful _ (UInt8.ofNat place) (by rwa [byte])
        simp only [byte, own_iff registers split there] at known
        exact known
      · intro lands name number there
        have below := (List.getElem?_eq_some_iff.mp there).1
        rw [length_typeNames, total] at below
        simp only [own_iff registers split there]
        exact lands number.toNat below

/-- Types with numbers of their own are at most 256. -/
theorem few_of_distinct
    (distinct : ∀ name other number,
      (assembled sha256 (canonicalized packs)).memoryTypeId name = some number →
        (assembled sha256 (canonicalized packs)).memoryTypeId other = some number → name = other) :
    typeCount packs ≤ 256 := by
  by_contra many
  have unique := registers.memoryTypes
  have size := length_typeNames (sortedPacks packs)
  rw [typeNames_canonicalized] at unique
  rw [typeCount_perm (sortedPacks_perm_self packs)] at size
  simp only [memoryTypeId_iff registers] at distinct
  generalize (sortedPacks packs).flatMap (·.memoryTypeNames) = names at distinct unique size
  have first : 0 < names.length := by omega
  have last : 256 < names.length := by omega
  have same := distinct names[0] names[256] 0 ⟨0, List.getElem?_eq_getElem first, rfl⟩
    ⟨256, List.getElem?_eq_getElem last, rfl⟩
  exact absurd (unique.getElem_inj_iff.mp same) (by decide)

/-- A triple is valid when some rule of a pack, as it is assembled, lets both ends in. -/
theorem validateTriple_ok_iff {source target : UInt8} {kind : RelKindId} :
    validateTriple (assembled sha256 (canonicalized packs)) source kind target = .ok () ↔
      ∃ pack rule canonical,
        Assembles packs (assembled sha256 (canonicalized packs)) pack rule canonical ∧
          canonical.kind = kind ∧ canonical.fromTypes.all (·.contains source) = true ∧
            canonical.toTypes.all (·.contains target) = true := by
  obtain ⟨effective, listed, -, -, -, valid⟩ :=
    Ontology.exists_effective (fromPacks_ok_iff.mpr ⟨registers, Eq.refl (assembled sha256 _)⟩)
  rw [← valid, EffectiveOntology.validateTriple_ok_iff, listed]
  constructor
  · rintro ⟨canonical, inside, lets⟩
    obtain ⟨registered, there, own⟩ := List.mem_flatMap.mp inside
    obtain ⟨moved, here, rfl⟩ := List.mem_map.mp there
    obtain ⟨front, pack, back, split, rfl⟩ := mem_canonicalized_iff.mp here
    obtain ⟨rule, mine, rfl⟩ := List.mem_map.mp own
    exact ⟨pack, rule, _, (assembles_iff registers.packNames).mpr ⟨front, back, split, mine, rfl⟩,
      lets⟩
  · rintro ⟨pack, rule, canonical, ⟨-, moved, there, -, zipped⟩, lets⟩
    refine ⟨canonical, List.mem_flatMap.mpr ⟨moved.registered, ?_, ?_⟩, lets⟩
    · exact List.mem_map.mpr ⟨moved, there, rfl⟩
    · exact (List.of_mem_zip zipped).2

end Registered

/-! ## The condition -/

/-- **When type numbers are faithful**: exactly when all types together fit into eight bits and
every number in a rule of a pack is harmless where it comes to lie. -/
theorem fromPacks_faithful_iff {sha256 : List UInt8 → Bytes 32} {packs : List PackDef}
    {ontology : Ontology} (accepted : fromPacks sha256 packs = .ok ontology) :
    FaithfulTypes packs ontology ↔ FitsByte packs := by
  obtain ⟨registers, rfl⟩ := fromPacks_ok_iff.mp accepted
  have names := registers.packNames
  constructor
  · intro faithful
    have few := few_of_distinct registers faithful.distinct
    refine ⟨few, fun pack inside rule own side either => ?_⟩
    obtain ⟨front, back, split⟩ :=
      List.append_of_mem ((sortedPacks_perm_self packs).mem_iff.mpr inside)
    have sides := faithful.sides pack rule _
      ((assembles_iff names).mpr ⟨front, back, split, own, rfl⟩)
    rw [typeCount_before names split]
    rw [List.mem_pair] at either
    rcases either with rfl | rfl
    · exact (side_iff registers few split _).mp fun name number known => (sides name number known).1
    · exact (side_iff registers few split _).mp fun name number known => (sides name number known).2
  · rintro ⟨few, listed⟩
    have known {name : String} {number : UInt8} :=
      @memoryTypeId_iff_of_few sha256 packs registers few name number
    have sides : ∀ pack rule canonical,
        Assembles packs (assembled sha256 (canonicalized packs)) pack rule canonical →
        ∀ name number,
          (assembled sha256 (canonicalized packs)).memoryTypeId name = some number →
          (canonical.fromTypes.all (·.contains number) = true ↔ pack.Names rule.fromTypes name) ∧
            (canonical.toTypes.all (·.contains number) = true ↔
              pack.Names rule.toTypes name) := by
      intro pack rule canonical origin name number found
      have inside := origin.1
      obtain ⟨front, back, split, own, rfl⟩ := (assembles_iff names).mp origin
      have harmless := listed pack inside rule own
      rw [typeCount_before names split] at harmless
      exact ⟨(side_iff registers few split _).mpr (harmless _ List.mem_cons_self) name number found,
        (side_iff registers few split _).mpr
          (harmless _ (List.mem_cons_of_mem _ List.mem_cons_self)) name number found⟩
    constructor
    case distinct =>
      intro name other number found found'
      exact Option.some.inj ((known.mp found).symm.trans (known.mp found'))
    case named =>
      intro name number found
      exact (congrArg (·[number.toNat]?) (typeNames_canonicalized packs)).trans (known.mp found)
    case sides => exact sides
    case triples =>
      intro source target number number' kind found found'
      rw [validateTriple_ok_iff registers]
      refine exists_congr fun pack => exists_congr fun rule => exists_congr fun canonical => ?_
      refine and_congr_right fun origin => and_congr_right' (and_congr ?_ ?_)
      · exact (sides pack rule canonical origin source number found).1
      · exact (sides pack rule canonical origin target number' found').2

/-! ## Two packs, and one with too many types -/

/-- The numbers of two small packs are faithful. -/
theorem fromPacks_faithful_two : ∃ ontology,
    fromPacks (fun _ => .fill 32 0) [basePack, ideaPack] = .ok ontology ∧
      FaithfulTypes [basePack, ideaPack] ontology := by
  have registers : Registers [basePack, ideaPack] := by
    constructor <;> decide
  have accepted := fromPacks_ok_iff.mpr ⟨registers, Eq.refl (assembled (fun _ => .fill 32 0) _)⟩
  exact ⟨_, accepted, (fromPacks_faithful_iff accepted).mpr ⟨by decide, by decide +kernel⟩⟩

/-- The kinds that a kernel names, and types whose names differ in their lengths. -/
def widePack (count : ℕ) : PackDef :=
  { basePack with
    memoryTypeNames := (List.range count).map fun n => String.ofList (List.replicate n 'x') }

theorem registers_widePack (count : ℕ) : Registers [widePack count] := by
  have kinds : (canonicalized [widePack count]).flatMap (·.kinds) = basePack.kinds := rfl
  refine ⟨List.nodup_singleton _, ?_, List.nodup_singleton "File", ?_, ?_, ?_⟩
  · have names : (canonicalized [widePack count]).flatMap (·.memoryTypeNames) =
        (widePack count).memoryTypeNames := List.append_nil _
    rw [names]
    refine List.nodup_range.map fun n m same => ?_
    have lengths := congrArg String.length same
    rwa [String.length_ofList, String.length_ofList, List.length_replicate,
      List.length_replicate] at lengths
  all_goals
    rw [kinds]
    decide

/-- The 257th type has the number of the first. -/
theorem not_fromPacks_faithful : ¬ ∀ (sha256 : List UInt8 → Bytes 32) (packs : List PackDef)
    (ontology : Ontology), fromPacks sha256 packs = .ok ontology →
      FaithfulTypes packs ontology := by
  intro always
  have registers := registers_widePack 257
  have faithful := always (fun _ => .fill 32 0) _ _ (fromPacks_ok_iff.mpr ⟨registers, rfl⟩)
  have few := few_of_distinct registers faithful.distinct
  exact absurd few (by decide +kernel)

end Exocortex.Assembly
