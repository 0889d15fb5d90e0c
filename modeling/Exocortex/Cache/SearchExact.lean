import Exocortex.Cache.Search

/-!
# Which memories a search finds

A search whose query has no blank and no line feed in it, and is not empty, finds the memories that
the reader sees and that have the query in their title or in a tag, each once
(`Searchable.search_exact`). A blank lets a query match from a title into a tag, and a line feed
from a key into the next one; an empty query finds nothing (`search_exact_iff`).
-/

namespace Exocortex

open Library

section Exact

variable {Score : Type} {score : GraphSnapshot → ℕ → Memory → Score}
  {partialCmp : Score → Score → Option Ordering} {toLowercase : String → String}

/-! ## Keys -/

/-- A query that no key has only by its joints. -/
def Plain (query : String) : Prop := query ≠ "" ∧ ' ' ∉ query.toList ∧ '\n' ∉ query.toList

instance (query : String) : Decidable (Plain query) :=
  inferInstanceAs (Decidable (_ ∧ _ ∧ _))

/-- The title or a tag has the query, all in lower case. -/
def Memory.FoundBy (toLowercase : String → String) (query : String) (m : Memory) : Prop :=
  Contains (toLowercase m.title) (toLowercase query) ∨
    ∃ tag ∈ m.tags, Contains (toLowercase tag) (toLowercase query)

/-- The bytes of a query that no key has only by its joints. -/
structure PlainBytes (q : List UInt8) : Prop where
  some_ : q ≠ []
  no_blank : blank ∉ q
  no_newline : newline ∉ q

theorem utf8_blank : (String.singleton ' ').toUTF8.toList = [blank] := by decide +kernel

theorem utf8_newline : (String.singleton '\n').toUTF8.toList = [newline] := by decide +kernel

variable {query : String} {q : List UInt8} {k : ℕ}

theorem Plain.bytes (plain : Plain query) : PlainBytes query.toUTF8.toList where
  some_ none_ := plain.1 (toUTF8_eq_nil.mp none_)
  no_blank inside := plain.2.1 ((mem_toUTF8_iff utf8_blank).mp inside)
  no_newline inside := plain.2.2 ((mem_toUTF8_iff utf8_newline).mp inside)

/-- A plain query is in a key just when it is in a part of it. -/
theorem PlainBytes.infix_searchKey_iff (plain : PlainBytes q) (m : Memory) :
    q <:+: searchKey toLowercase m ↔ q <:+: (toLowercase m.title).toUTF8.toList ∨
      ∃ tag ∈ m.tags, q <:+: (toLowercase tag).toUTF8.toList := by
  have along (tags : List String) (key : List UInt8) :
      q <:+: tags.foldl (fun key tag => key ++ [blank] ++ (toLowercase tag).toUTF8.toList) key ↔
        q <:+: key ∨ ∃ tag ∈ tags, q <:+: (toLowercase tag).toUTF8.toList := by
    induction tags generalizing key with
    | nil => simp
    | cons tag tags ih =>
        rw [List.foldl_cons, ih, List.append_assoc, List.singleton_append,
          infix_append_separator plain.no_blank plain.some_, List.exists_mem_cons_iff, or_assoc]
  exact along m.tags _

theorem PlainBytes.not_dead {block : List UInt8} (plain : PlainBytes q) (inside : q <:+: block) :
    ¬ SearchKeys.Dead block := by
  rintro ⟨n, rfl⟩
  obtain ⟨byte, listed⟩ := List.exists_mem_of_ne_nil q plain.some_
  have same := List.eq_of_mem_replicate (inside.subset listed)
  exact plain.no_blank (same ▸ listed)

/-! ## Slots -/

namespace SearchKeys

variable {keys : SearchKeys} {slots : List (ℕ × List UInt8)}

theorem ofNat_inj_of_lt {n : ℕ} (below : n < 2 ^ 32) (below' : k < 2 ^ 32) :
    UInt32.ofNat n = UInt32.ofNat k ↔ n = k := by
  rw [← UInt32.toNat_inj, UInt32.toNat_ofNat_of_lt' below, UInt32.toNat_ofNat_of_lt' below']

theorem ofNat_lt_of_lt {n : ℕ} (below : n < 2 ^ 32) (below' : k < 2 ^ 32) :
    UInt32.ofNat n < UInt32.ofNat k ↔ n < k :=
  UInt32.ofNat_lt_iff_lt below below'

/-- The binary search finds the block of a place. -/
theorem Holds.slotOf_eq (holds : keys.Holds slots) (some_ : ∀ slot ∈ slots, 0 < slot.2.length)
    (small : keys.searchArena.length < 2 ^ 32) {pos : ℕ} (inside : pos < keys.searchArena.length) :
    keys.slotOf pos = blockOf (slots.map Prod.snd) pos := by
  have arena := holds.arena
  have offsets := holds.offsets
  have nonempty : ∀ block ∈ slots.map Prod.snd, 0 < block.length := by
    intro block listed
    obtain ⟨slot, there, rfl⟩ := List.mem_map.mp listed
    exact some_ slot there
  generalize slots.map Prod.snd = blocks at arena offsets nonempty
  rw [arena] at small inside
  obtain ⟨front, block, back, within, rfl, rfl, below⟩ := exists_block inside
  have ahead : ∀ start ∈ starts 0 front, start < front.flatten.length := by
    intro start listed
    have bounds := lt_of_mem_starts
      (fun block there => nonempty block (List.mem_append_left _ there)) listed
    omega
  have behind : ∀ start ∈ starts (front.flatten.length + block.length) back,
      front.flatten.length + within < start ∧ start < 2 ^ 32 := by
    intro start listed
    have bounds := lt_of_mem_starts (fun block there =>
      nonempty block (List.mem_append_right _ (List.mem_cons_of_mem _ there))) listed
    rw [List.flatten_append, List.flatten_cons, List.length_append, List.length_append] at small
    omega
  have bound : front.flatten.length + within < 2 ^ 32 := lt_trans inside small
  have split : keys.searchOffsets = (starts 0 front).map UInt32.ofNat ++
      UInt32.ofNat front.flatten.length ::
        (starts (front.flatten.length + block.length) back).map UInt32.ofNat := by
    rw [offsets, starts_append, List.map_append, starts, List.map_cons, Nat.zero_add]
  rw [blockOf_eq front below, slotOf, split]
  have lengths : ((starts 0 front).map UInt32.ofNat).length = front.length := by
    rw [List.length_map, length_starts]
  cases within with
  | zero =>
      have absent : UInt32.ofNat (front.flatten.length + 0) ∉
          (starts 0 front).map UInt32.ofNat := by
        intro listed
        obtain ⟨start, there, same⟩ := List.mem_map.mp listed
        have apart := ahead start there
        have eq := (ofNat_inj_of_lt (by omega) bound).mp same
        omega
      rw [Nat.add_zero] at absent ⊢
      rw [binarySearch_found _ absent, lengths]
  | succ within =>
      have first : ∀ k ∈ (starts 0 front).map UInt32.ofNat ++ [UInt32.ofNat front.flatten.length],
          ∃ start, k = UInt32.ofNat start ∧ start < front.flatten.length + (within + 1) := by
        intro k listed
        rcases List.mem_append.mp listed with earlier | here
        · obtain ⟨start, there, rfl⟩ := List.mem_map.mp earlier
          exact ⟨start, rfl, lt_trans (ahead start there) (by omega)⟩
        · exact ⟨_, List.mem_singleton.mp here, by omega⟩
      have last : ∀ k ∈ (starts (front.flatten.length + block.length) back).map UInt32.ofNat,
          ∃ start, k = UInt32.ofNat start ∧ start < 2 ^ 32 ∧
            front.flatten.length + (within + 1) < start := by
        intro k listed
        obtain ⟨start, there, rfl⟩ := List.mem_map.mp listed
        exact ⟨start, rfl, (behind start there).2, (behind start there).1⟩
      rw [List.append_cons, binarySearch_between]
      · rw [List.length_append, lengths]
        rfl
      · intro k listed
        obtain ⟨start, rfl, before⟩ := first k listed
        exact (ofNat_lt_of_lt (by omega) bound).mpr before
      · intro k listed
        obtain ⟨start, rfl, short, after⟩ := last k listed
        rw [ofNat_lt_of_lt short bound]
        omega
      · intro listed
        rcases List.mem_append.mp listed with earlier | later
        · obtain ⟨start, same, before⟩ := first _ earlier
          have eq := (ofNat_inj_of_lt bound (by omega)).mp same
          omega
        · obtain ⟨start, same, short, after⟩ := last _ later
          have eq := (ofNat_inj_of_lt bound short).mp same
          omega

end SearchKeys

/-! ## The scan -/

variable {m : Memory} {offsets : List UInt32} {rest : List UInt8} {nodes : List ℕ}

namespace CachedSnapshot

variable {snap : CachedSnapshot}

/-- The slots that the scan looks at. -/
def slotsOf (snap : CachedSnapshot) (q : List UInt8) : List ℕ :=
  visited none ((jumps q snap.searchArena (snap.searchArena.length + 1) 0).map snap.slotOf)

variable (score snap) in
/-- While the hits are few, the scan looks at all of the slots. -/
theorem scan_eq (q : List UInt8) (limit : ℕ) (vc : VisibilityContext) (rounds start : ℕ)
    (lastIdx : Option ℕ) (hits : List (Memory × Score))
    (few : (hits ++ (visited lastIdx ((jumps q snap.searchArena rounds start).map
      snap.slotOf)).filterMap (snap.hitAt score vc)).length < limit * 4) :
    snap.scan score q limit vc rounds start lastIdx hits = hits ++ (visited lastIdx
      ((jumps q snap.searchArena rounds start).map snap.slotOf)).filterMap
        (snap.hitAt score vc) := by
  induction rounds generalizing start lastIdx hits with
  | zero => exact (List.append_nil hits).symm
  | succ rounds ih =>
      rw [jumps] at few ⊢
      rw [scan]
      cases found : firstOccurrence q (snap.searchArena.drop start) with
      | none => exact (List.append_nil hits).symm
      | some rel =>
          rw [found] at few
          dsimp only at few ⊢
          rw [List.map_cons, filterMap_visited_cons] at few ⊢
          generalize (if lastIdx = some (snap.slotOf (start + rel)) then none
            else snap.hitAt score vc (snap.slotOf (start + rel))) = hit at few ⊢
          rw [← List.append_assoc] at few ⊢
          have room : ¬ limit * 4 ≤ (hits ++ hit.toList).length := by
            rw [List.length_append] at few
            omega
          rw [if_neg fun full => room full.2]
          split
          · exact (List.append_nil _).symm
          · next further =>
              rw [if_neg further] at few
              exact ih _ _ _ few

variable {slots : List (ℕ × List UInt8)} {slot : ℕ × List UInt8} {node : ℕ → Option Memory}

/-- The slots that the scan looks at are those whose block has the query, in their order. -/
theorem mem_slotsOf (holds : snap.toSearchKeys.Holds slots) (some_ : q ≠ [])
    (separated : ∀ slot ∈ slots, Separated q slot.2) (small : snap.searchArena.length < 2 ^ 32) :
    (snap.slotsOf q).Pairwise (· < ·) ∧ ∀ k, k ∈ snap.slotsOf q ↔
      ∃ slot, slots[k]? = some slot ∧ q <:+: slot.2 := by
  have nonempty : ∀ slot ∈ slots, 0 < slot.2.length :=
    fun slot listed => (separated slot listed).length_pos
  have inArena : ∀ pos ∈ jumps q snap.searchArena (snap.searchArena.length + 1) 0,
      pos < snap.searchArena.length := by
    intro pos listed
    have fits := (occurs_of_mem_jumps listed).2.place_add_le some_
    have positive := List.length_pos_iff.mpr some_
    omega
  have ordered : ((jumps q snap.searchArena (snap.searchArena.length + 1) 0).map
      snap.slotOf).Pairwise (· ≤ ·) := by
    refine List.pairwise_map.mpr ((jumps_ascending some_ _ _).imp_of_mem ?_)
    intro pos later listed also before
    rw [holds.slotOf_eq nonempty small (inArena pos listed),
      holds.slotOf_eq nonempty small (inArena later also)]
    exact blockOf_mono _ before.le
  refine ⟨visited_ascending ordered, fun k => ?_⟩
  have arena := holds.arena
  have blockwise : ∀ block ∈ slots.map Prod.snd, Separated q block := by
    intro block listed
    obtain ⟨slot, there, rfl⟩ := List.mem_map.mp listed
    exact separated slot there
  rw [slotsOf, mem_visited ordered (by simp), List.mem_map, and_iff_left (by simp)]
  constructor
  · rintro ⟨pos, listed, rfl⟩
    have inside := inArena pos listed
    rw [holds.slotOf_eq nonempty small inside]
    have occurs := (occurs_of_mem_jumps listed).2
    rw [arena] at inside occurs
    obtain ⟨front, block, back, within, split, rfl, below⟩ := exists_block inside
    have there : (slots.map Prod.snd)[front.length]? = some block := by
      rw [split, List.getElem?_append_right (Nat.le_refl _), Nat.sub_self]
      rfl
    rw [List.getElem?_map] at there
    obtain ⟨slot, found, rfl⟩ := Option.map_eq_some_iff.mp there
    rw [split] at occurs ⊢
    rw [blockOf_eq front below]
    have apart := blockwise slot.2 (split ▸ List.mem_append_right _ List.mem_cons_self)
    exact ⟨slot, found, (infix_iff_occurs some_).mpr ⟨within, occurs_in_block apart below occurs⟩⟩
  · rintro ⟨slot, found, has⟩
    obtain ⟨within, occurs⟩ := (infix_iff_occurs some_).mp has
    have fits := occurs.place_add_le some_
    have positive := List.length_pos_iff.mpr some_
    have split : slots.map Prod.snd =
        (slots.take k).map Prod.snd ++ slot.2 :: (slots.drop (k + 1)).map Prod.snd := by
      obtain ⟨below, there⟩ := List.getElem?_eq_some_iff.mp found
      rw [← List.map_cons, ← there, ← List.drop_eq_getElem_cons below, ← List.map_append,
        List.take_append_drop]
    have length : ((slots.take k).map Prod.snd).length = k := by
      obtain ⟨below, _⟩ := List.getElem?_eq_some_iff.mp found
      rw [List.length_map, List.length_take_of_le below.le]
    have there := occurs_flatten ((slots.take k).map Prod.snd)
      ((slots.drop (k + 1)).map Prod.snd) occurs (by omega)
    rw [← split, ← arena] at there
    obtain ⟨pos, listed, before, covers⟩ := jumps_covers some_
      (by omega : snap.searchArena.length < 0 + (snap.searchArena.length + 1)) (Nat.zero_le _) there
    refine ⟨pos, listed, ?_⟩
    have inside := inArena pos listed
    rw [holds.slotOf_eq nonempty small inside]
    have occurs' := (occurs_of_mem_jumps listed).2
    rw [arena] at inside occurs'
    obtain ⟨front, block, back, place, split', rfl, below⟩ := exists_block inside
    have fits' : place + q.length ≤ block.length := by
      rw [split'] at occurs'
      have apart := blockwise block (split' ▸ List.mem_append_right _ List.mem_cons_self)
      exact (occurs_in_block apart below occurs').place_add_le some_
    have same : blockOf (slots.map Prod.snd)
        (((slots.take k).map Prod.snd).flatten.length + within) = k := by
      rw [split, blockOf_eq _ (by omega), length]
    obtain ⟨distance, far⟩ := Nat.exists_eq_add_of_le before
    rw [far, Nat.add_assoc, split', blockOf_eq front (by omega)] at same
    rw [split', blockOf_eq front below, same]

/-- What a slot of a row shows. -/
theorem hitAt_eq (holds : snap.toSearchKeys.Holds slots) (vc : VisibilityContext)
    (found : slots[k]? = some slot) (node : snap.petgraph.nodes.lookup slot.1 = some m) :
    (snap.hitAt score vc k).map Prod.fst = if memoryVisible m vc then some m else none := by
  have there : snap.petgraph.nodeWeight slot.1 = some m := node
  rw [hitAt, holds.nodes, List.getElem?_map, found, Option.map_some, Option.bind_some, there,
    Option.bind_some]
  split <;> rfl

variable {keys : SearchKeys}

/-- A block with a plain query is the key of a row. -/
theorem row_of_slot (keyed : keys.Keyed toLowercase node slots) (plain : PlainBytes q)
    (found : slots[k]? = some slot) (has : q <:+: slot.2) :
    ∃ m, node slot.1 = some m ∧ slot.2 = searchKey toLowercase m ++ [newline] ∧
      q <:+: searchKey toLowercase m := by
  rcases keyed.of_slot slot (List.mem_of_getElem? found) with dead | ⟨m, there, same⟩
  · exact absurd dead (plain.not_dead has)
  · refine ⟨m, there, same, ?_⟩
    rw [same, infix_append_separator plain.no_newline plain.some_] at has
    exact has.resolve_right fun none_ => plain.some_ (List.eq_nil_of_infix_nil none_)

theorem separated_slots (keyed : keys.Keyed toLowercase node slots) (plain : PlainBytes q) :
    ∀ slot ∈ slots, Separated q slot.2 := by
  intro slot listed
  rcases keyed.of_slot slot listed with ⟨n, same⟩ | ⟨m, _, same⟩
  · exact ⟨_, blank, same.trans List.replicate_succ', plain.no_blank⟩
  · exact ⟨_, newline, same, plain.no_newline⟩

variable (score) in
/-- **The slots of a plain query show the rows that have it in their key, each once.** -/
theorem Searchable.hits_exact (searchable : snap.Searchable toLowercase)
    (small : snap.searchArena.length < 2 ^ 32) (plain : PlainBytes q) (vc : VisibilityContext) :
    (((snap.slotsOf q).filterMap (snap.hitAt score vc)).map Prod.fst).Nodup ∧
      ∀ m, m ∈ ((snap.slotsOf q).filterMap (snap.hitAt score vc)).map Prod.fst ↔
        m ∈ snap.memories ∧ memoryVisible m vc = true ∧ q <:+: searchKey toLowercase m := by
  obtain ⟨slots, keyed⟩ := searchable.keyed
  obtain ⟨ascending, listed_iff⟩ := mem_slotsOf keyed.holds plain.some_
    (separated_slots keyed plain) small
  rw [List.map_filterMap]
  constructor
  · refine List.pairwise_filterMap.mpr (ascending.imp_of_mem ?_)
    intro k later listed also before m shown other shown' same
    obtain ⟨slot, found, has⟩ := (listed_iff k).mp listed
    obtain ⟨slot', found', has'⟩ := (listed_iff later).mp also
    obtain ⟨row, node, _⟩ := row_of_slot keyed plain found has
    obtain ⟨row', node', _⟩ := row_of_slot keyed plain found' has'
    rw [hitAt_eq keyed.holds vc found node] at shown
    rw [hitAt_eq keyed.holds vc found' node'] at shown'
    obtain ⟨_, shown⟩ := Option.ite_none_right_eq_some.mp shown
    obtain ⟨_, shown'⟩ := Option.ite_none_right_eq_some.mp shown'
    cases shown
    cases shown'
    subst same
    have place := searchable.consistent.id_of_node _ _ node
    rw [searchable.consistent.id_of_node _ _ node', Option.some.injEq] at place
    have pair := List.pairwise_iff_getElem.mp keyed.once k later
      (List.getElem?_eq_some_iff.mp found).1 (List.getElem?_eq_some_iff.mp found').1 before
    rw [(List.getElem?_eq_some_iff.mp found).2, (List.getElem?_eq_some_iff.mp found').2] at pair
    rcases pair place.symm with dead | dead
    · exact plain.not_dead has dead
    · exact plain.not_dead has' dead
  · intro m
    rw [List.mem_filterMap]
    constructor
    · rintro ⟨k, listed, shown⟩
      obtain ⟨slot, found, has⟩ := (listed_iff k).mp listed
      obtain ⟨row, node, _, inside⟩ := row_of_slot keyed plain found has
      rw [hitAt_eq keyed.holds vc found node] at shown
      obtain ⟨visible, shown⟩ := Option.ite_none_right_eq_some.mp shown
      cases shown
      exact ⟨⟨slot.1, node⟩, visible, inside⟩
    · rintro ⟨⟨ix, node⟩, visible, inside⟩
      obtain ⟨k, below, found⟩ := List.getElem_of_mem (keyed.of_row ix m node)
      have there : slots[k]? = some (ix, searchKey toLowercase m ++ [newline]) :=
        List.getElem?_eq_some_iff.mpr ⟨below, found⟩
      refine ⟨k, (listed_iff k).mpr ⟨_, there, ?_⟩, ?_⟩
      · exact inside.trans (List.prefix_append _ _).isInfix
      · rw [hitAt_eq keyed.holds vc there node, if_pos visible]

theorem mem_rows_map : m ∈ snap.rows.map Prod.snd ↔ m ∈ snap.memories := by
  rw [List.mem_map]
  constructor
  · rintro ⟨⟨ix, row⟩, listed, rfl⟩
    exact ⟨ix, mem_rows.mp listed⟩
  · rintro ⟨ix, found⟩
    exact ⟨(ix, m), mem_rows.mpr found, rfl⟩

/-- **A plain query finds the memories that have it, each once.** -/
theorem Searchable.search_exact (searchable : snap.Searchable toLowercase)
    (small : snap.searchArena.length < 2 ^ 32) (plain : Plain (toLowercase query)) {limit : ℕ}
    (large : snap.rows.length < limit) (vc : VisibilityContext) :
    ((snap.search score partialCmp toLowercase query limit vc).map Prod.fst).Nodup ∧
      ∀ m, m ∈ (snap.search score partialCmp toLowercase query limit vc).map Prod.fst ↔
        m ∈ snap.memories ∧ memoryVisible m vc = true ∧ m.FoundBy toLowercase query := by
  have bytes := plain.bytes
  obtain ⟨distinct, found_iff⟩ := searchable.hits_exact score small bytes vc
  have few : ((snap.slotsOf (toLowercase query).toUTF8.toList).filterMap
      (snap.hitAt score vc)).length ≤ snap.rows.length := by
    have within := distinct.subperm fun m listed =>
      mem_rows_map.mpr ((found_iff m).mp listed).1
    simpa using within.length_le
  have scanned := scan_eq score snap (toLowercase query).toUTF8.toList limit vc
    (snap.searchArena.length + 1) 0 none [] (by
      rw [List.nil_append]
      change ((snap.slotsOf (toLowercase query).toUTF8.toList).filterMap _).length < _
      omega)
  rw [List.nil_append] at scanned
  have same := List.mergeSort_perm ((snap.slotsOf (toLowercase query).toUTF8.toList).filterMap
    (snap.hitAt score vc)) fun a b => ((partialCmp b.2 a.2).getD .eq).isLE
  have shape : snap.search score partialCmp toLowercase query limit vc =
      rank partialCmp ((snap.slotsOf (toLowercase query).toUTF8.toList).filterMap
        (snap.hitAt score vc)) := by
    rw [search, if_neg (by omega), if_neg bytes.some_, scanned]
    refine List.take_of_length_le ?_
    exact same.length_eq.le.trans (few.trans large.le)
  rw [shape, rank]
  refine ⟨(same.map Prod.fst).nodup_iff.mpr distinct, fun m => ?_⟩
  rw [(same.map Prod.fst).mem_iff, found_iff, bytes.infix_searchKey_iff, Memory.FoundBy]
  simp only [contains_iff]

/-! ## Queries that are not plain -/

variable (score snap) in
/-- The scan keeps its hits, and has at most one more for each round. -/
theorem scan_extends (q : List UInt8) (limit : ℕ) (vc : VisibilityContext) (rounds start : ℕ)
    (lastIdx : Option ℕ) (hits : List (Memory × Score)) :
    hits <+: snap.scan score q limit vc rounds start lastIdx hits ∧
      (snap.scan score q limit vc rounds start lastIdx hits).length ≤ hits.length + rounds := by
  induction rounds generalizing start lastIdx hits with
  | zero => exact ⟨List.prefix_refl _, Nat.le_refl _⟩
  | succ rounds ih =>
      rw [scan]
      cases firstOccurrence q (snap.searchArena.drop start) with
      | none => exact ⟨List.prefix_refl _, Nat.le_add_right _ _⟩
      | some rel =>
          dsimp only
          generalize (if lastIdx = some (snap.slotOf (start + rel)) then none
            else snap.hitAt score vc (snap.slotOf (start + rel))) = hit
          have one : hit.toList.length ≤ 1 := by
            cases hit <;> simp
          have length : (hits ++ hit.toList).length ≤ hits.length + 1 := by
            rw [List.length_append]
            omega
          split
          · exact ⟨List.prefix_append _ _, by omega⟩
          · split
            · exact ⟨List.prefix_append _ _, by omega⟩
            · have later := ih (start + rel + q.length) (some (snap.slotOf (start + rel)))
                (hits ++ hit.toList)
              exact ⟨(List.prefix_append _ _).trans later.1, by omega⟩

variable (score partialCmp) in
/-- A query at the beginning of the arena finds the memory of the first slot. -/
theorem mem_search_of_first {ix : ℕ} {vc : VisibilityContext} (limit : ℕ)
    (some_ : toLowercase query ≠ "")
    (arena : snap.searchArena = (toLowercase query).toUTF8.toList ++ rest)
    (begins : snap.searchOffsets = 0 :: offsets) (first : snap.searchNodes = ix :: nodes)
    (node : snap.petgraph.nodes.lookup ix = some m) (visible : memoryVisible m vc = true)
    (large : snap.searchArena.length + 1 < limit) :
    m ∈ (snap.search score partialCmp toLowercase query limit vc).map Prod.fst := by
  have bytes : (toLowercase query).toUTF8.toList ≠ [] :=
    fun none_ => some_ (toUTF8_eq_nil.mp none_)
  have found : firstOccurrence (toLowercase query).toUTF8.toList (snap.searchArena.drop 0) =
      some 0 := by
    rw [List.drop_zero, arena]
    exact firstOccurrence_append _ _
  have slot : snap.slotOf (0 + 0) = 0 := by
    have place := binarySearch_found offsets (List.not_mem_nil (a := (0 : UInt32)))
    have here : binarySearch snap.searchOffsets (UInt32.ofNat (0 + 0)) = .ok 0 := by
      rw [begins]
      exact place
    rw [SearchKeys.slotOf, here]
  have there : snap.petgraph.nodeWeight ix = some m := node
  have hit : snap.hitAt score vc 0 = some (m, score snap.toGraphSnapshot ix m) := by
    rw [hitAt, first, List.getElem?_cons_zero, Option.bind_some, there, Option.bind_some,
      if_pos visible]
  have extends_ := scan_extends score snap (toLowercase query).toUTF8.toList limit
    vc (snap.searchArena.length + 1) 0 none []
  have listed : (m, score snap.toGraphSnapshot ix m) ∈ snap.scan score
      (toLowercase query).toUTF8.toList limit vc (snap.searchArena.length + 1) 0 none [] := by
    rw [scan, found]
    dsimp only
    have fresh : (none : Option ℕ) ≠ some 0 := nofun
    rw [slot, hit, if_neg fresh, Option.toList_some, List.nil_append]
    split
    · exact List.mem_singleton_self _
    · split
      · exact List.mem_singleton_self _
      · exact (scan_extends _ _ _ _ _ _ _ _ _).1.subset (List.mem_singleton_self _)
  have same := List.mergeSort_perm (snap.scan score (toLowercase query).toUTF8.toList limit vc
    (snap.searchArena.length + 1) 0 none []) fun a b => ((partialCmp b.2 a.2).getD .eq).isLE
  rw [search, if_neg (by omega)]
  dsimp only
  rw [if_neg bytes, List.take_of_length_le, rank]
  · exact List.mem_map.mpr ⟨_, same.mem_iff.mpr listed, rfl⟩
  · rw [rank, same.length_eq]
    have bound := extends_.2
    rw [List.length_nil] at bound
    omega

variable (toLowercase) in
/-- A memory that is new to a snapshot without garbage. -/
theorem insertMemory_new {m : Memory} (absent : snap.byId.lookup m.id = none)
    (tight : snap.searchLiveBytes = snap.searchArena.length) :
    snap.insertMemory toLowercase m = snap.putMemory toLowercase m ∧
      (snap.putMemory toLowercase m).toSearchKeys =
        snap.toSearchKeys.push (searchKey toLowercase m) snap.petgraph.nodes.next ∧
      (snap.putMemory toLowercase m).petgraph.nodes = snap.petgraph.nodes.push m ∧
      (snap.putMemory toLowercase m).byId = snap.byId.insert m.id snap.petgraph.nodes.next ∧
      (snap.putMemory toLowercase m).searchLiveBytes =
        (snap.putMemory toLowercase m).searchArena.length := by
  have shape : (snap.putMemory toLowercase m).searchLiveBytes =
      (snap.putMemory toLowercase m).searchArena.length := by
    rw [putMemory, absent]
    simp [indexMemory, SearchKeys.push, tight]
  refine ⟨?_, ?_, ?_, ?_, shape⟩
  · rw [insertMemory_eq, compactSearchIndexIfNeeded, shape, if_neg]
    rintro ⟨garbage, -⟩
    rw [Nat.sub_self] at garbage
    exact absurd garbage (by decide)
  · rw [putMemory, absent]
    rfl
  · rw [putMemory, absent]
    rfl
  · rw [putMemory, absent]
    rfl

end CachedSnapshot

/-- A note that all of its organization read. -/
def sharedNote (first : UInt8) (title : String) (tags : List String) : Memory :=
  { Memory.blank ⟨.fill 16 first⟩ with
    title := title
    tags := tags
    visibility := .org
    context := ⟨0, none, none, some "acme", none, none, []⟩ }

/-- A reader of that organization. -/
def acmeReader : VisibilityContext := ⟨"ada", "acme", [], [], .org⟩

variable (score partialCmp toLowercase) in
/-- The searches for a query are exact: in every snapshot that changes lead to with a short arena,
for every reader and every limit above the number of the memories, the hits are the memories that
the reader sees and that have the query, each once. -/
def ExactFor (query : String) : Prop :=
  ∀ deltas, CachedSnapshot.Short toLowercase deltas → ∀ (cache : LocalCache) (org : String),
    cache.graphs.lookup org = some (CachedSnapshot.applyAll toLowercase .empty deltas) →
    ∀ limit, (CachedSnapshot.applyAll toLowercase .empty deltas).rows.length < limit →
    ∀ vc,
      ((cache.search score partialCmp toLowercase org query limit vc).map Prod.fst).Nodup ∧
      ∀ m, m ∈ (cache.search score partialCmp toLowercase org query limit vc).map Prod.fst ↔
        m ∈ (CachedSnapshot.applyAll toLowercase .empty deltas).memories ∧
          memoryVisible m vc = true ∧ m.FoundBy toLowercase query

theorem exactFor_of_plain (plain : Plain (toLowercase query)) :
    ExactFor score partialCmp toLowercase query := by
  intro deltas short cache org graph limit large vc
  have searchable := CachedSnapshot.searchable_of_short short
  have small := short deltas [] (List.append_nil _).symm
  rw [LocalCache.search, graph]
  exact searchable.search_exact small plain large vc

namespace CachedSnapshot

/-- A cache whose one graph is a snapshot. -/
def soleCache (snap : CachedSnapshot) : LocalCache :=
  { LocalCache.new 0 with graphs := (∅ : Table String CachedSnapshot).insert "acme" snap }

theorem soleCache_graph (snap : CachedSnapshot) :
    (soleCache snap).graphs.lookup "acme" = some snap :=
  AList.lookup_insert _

/-- What an exact search finds at the beginning of the arena has the query. -/
theorem foundBy_of_exact {deltas : List SnapshotDelta} {ix : ℕ}
    (exact : ExactFor score partialCmp toLowercase query) (short : Short toLowercase deltas)
    (some_ : toLowercase query ≠ "") (arena : (applyAll toLowercase empty deltas).searchArena =
      (toLowercase query).toUTF8.toList ++ rest)
    (begins : (applyAll toLowercase empty deltas).searchOffsets = 0 :: offsets)
    (first : (applyAll toLowercase empty deltas).searchNodes = ix :: nodes)
    (node : (applyAll toLowercase empty deltas).petgraph.nodes.lookup ix = some m)
    (visible : memoryVisible m acmeReader = true) : m.FoundBy toLowercase query := by
  have found := mem_search_of_first score partialCmp
    ((applyAll toLowercase empty deltas).searchArena.length + 2 +
      (applyAll toLowercase empty deltas).rows.length)
    some_ arena begins first node visible (by omega)
  have graph := soleCache_graph (applyAll toLowercase empty deltas)
  have listed := ((exact deltas short _ "acme" graph
    ((applyAll toLowercase empty deltas).searchArena.length + 2 +
      (applyAll toLowercase empty deltas).rows.length) (by omega) acmeReader).2 m)
  rw [LocalCache.search, graph] at listed
  exact (listed.mp found).2.2

variable (toLowercase) in
/-- One memory in a snapshot. -/
theorem apply_one (m : Memory) :
    (applyAll toLowercase empty [.upsertMemory m]).searchArena =
        searchKey toLowercase m ++ [newline] ∧
      (applyAll toLowercase empty [.upsertMemory m]).searchOffsets = [0] ∧
      (applyAll toLowercase empty [.upsertMemory m]).searchNodes = [0] ∧
      (applyAll toLowercase empty [.upsertMemory m]).petgraph.nodes.lookup 0 = some m := by
  obtain ⟨inserted, keys, nodes, _, _⟩ :=
    @insertMemory_new toLowercase empty m rfl rfl
  change (insertMemory toLowercase empty m).searchArena = _ ∧
    (insertMemory toLowercase empty m).searchOffsets = _ ∧
    (insertMemory toLowercase empty m).searchNodes = _ ∧
    (insertMemory toLowercase empty m).petgraph.nodes.lookup 0 = _
  rw [inserted, keys, nodes]
  exact ⟨rfl, rfl, rfl, (Slots.lookup_push _ _ _).trans (if_pos rfl)⟩

variable (toLowercase) in
theorem apply_two {other : Memory} (apart : other.id ≠ m.id) :
    (applyAll toLowercase empty [.upsertMemory m, .upsertMemory other]).searchArena =
        searchKey toLowercase m ++ newline :: (searchKey toLowercase other ++ [newline]) ∧
      (applyAll toLowercase empty [.upsertMemory m, .upsertMemory other]).searchOffsets =
        [0, UInt32.ofNat (searchKey toLowercase m ++ [newline]).length] ∧
      (applyAll toLowercase empty [.upsertMemory m, .upsertMemory other]).searchNodes = [0, 1] ∧
      (applyAll toLowercase empty [.upsertMemory m, .upsertMemory other]).petgraph.nodes.lookup 0 =
        some m := by
  obtain ⟨inserted, keys, nodes, byId, tight⟩ :=
    @insertMemory_new toLowercase empty m rfl rfl
  obtain ⟨inserted', keys', nodes', _, _⟩ := @insertMemory_new toLowercase
    (putMemory toLowercase empty m) other (by
      rw [byId, AList.lookup_insert_ne apart]
      rfl) tight
  have shape : applyAll toLowercase empty [.upsertMemory m, .upsertMemory other] =
      putMemory toLowercase (putMemory toLowercase empty m) other := by
    rw [← inserted', ← inserted]
    rfl
  rw [shape, keys', keys, nodes', nodes]
  refine ⟨?_, rfl, rfl, ?_⟩
  · simp [SearchKeys.push, empty, SearchKeys.empty]
  · have second : 0 ≠ ((empty : CachedSnapshot).petgraph.nodes.push m).next := Nat.zero_ne_one
    rw [Slots.lookup_push, if_neg second]
    exact (Slots.lookup_push _ _ _).trans (if_pos rfl)

end CachedSnapshot

/-- A text has no longer one in it. -/
theorem not_contains_of_longer {text : String}
    (longer : text.toUTF8.toList.length < query.toUTF8.toList.length) : ¬ Contains text query :=
  fun has => absurd (contains_iff.mp has).length_le (Nat.not_le.mpr longer)

/-- Text on both sides of a character in a text. -/
theorem exists_split {text : String} {c : Char} (inside : c ∈ text.toList) :
    ∃ front back : String, text = front ++ (String.singleton c ++ back) ∧
      Contains text front ∧ Contains text back := by
  obtain ⟨front, back, rfl⟩ := contains_singleton.mpr inside
  refine ⟨front, back, String.append_assoc, ⟨"", String.singleton c ++ back, ?_⟩,
    ⟨front ++ String.singleton c, "", ?_⟩⟩
  · rw [String.empty_append, String.append_assoc]
  · rw [String.append_empty]

namespace CachedSnapshot

theorem short_one (small : (searchKey toLowercase m).length + 1 < 2 ^ 32) :
    Short toLowercase [.upsertMemory m] := by
  refine Machine.always_cons.mpr ⟨by decide, Machine.always_nil.mpr ?_⟩
  change (applyAll toLowercase empty [.upsertMemory m]).searchArena.length < 2 ^ 32
  rw [(apply_one toLowercase m).1, List.length_append]
  exact small

theorem short_two {other : Memory} (apart : other.id ≠ m.id)
    (small : (searchKey toLowercase m).length + (searchKey toLowercase other).length + 2 < 2 ^ 32) :
    Short toLowercase [.upsertMemory m, .upsertMemory other] := by
  refine Machine.always_cons.mpr ⟨by decide, Machine.always_cons.mpr
    ⟨?_, Machine.always_nil.mpr ?_⟩⟩
  · change (applyAll toLowercase empty [.upsertMemory m]).searchArena.length < 2 ^ 32
    rw [(apply_one toLowercase m).1, List.length_append, List.length_singleton]
    omega
  · change (applyAll toLowercase empty [.upsertMemory m, .upsertMemory other]).searchArena.length
      < 2 ^ 32
    rw [(apply_two toLowercase apart).1, List.length_append, List.length_cons, List.length_append,
      List.length_singleton]
    omega

end CachedSnapshot

section Converse

variable (lower : ∀ text part, Contains (toLowercase text) part → toLowercase part = part)
  {query : String} (short : (toLowercase query).utf8ByteSize + 1 < 2 ^ 32)
  (exact_ : ExactFor score partialCmp toLowercase query)
include lower exact_ in
/-- An empty query finds nothing, and every note has it. -/
theorem not_empty_of_exact : toLowercase query ≠ "" := by
  intro none_
  have emptied : toLowercase "" = "" := lower query "" ⟨"", "", by rw [none_]; rfl⟩
  have small : (searchKey toLowercase (sharedNote 1 "" [])).length + 1 < 2 ^ 32 := by
    change (toLowercase "").toUTF8.toList.length + 1 < 2 ^ 32
    rw [emptied, toUTF8_eq_nil.mpr rfl]
    decide
  have graph := CachedSnapshot.soleCache_graph
    (CachedSnapshot.applyAll toLowercase .empty [.upsertMemory (sharedNote 1 "" [])])
  have listed := (exact_ [.upsertMemory (sharedNote 1 "" [])] (CachedSnapshot.short_one small) _
    "acme" graph _ (Nat.lt_succ_self _) acmeReader).2 (sharedNote 1 "" [])
  have has : Contains (toLowercase "") (toLowercase query) := by
    rw [emptied, none_]
    exact ⟨"", "", rfl⟩
  have found := listed.mpr
    ⟨⟨0, (CachedSnapshot.apply_one toLowercase _).2.2.2⟩, rfl, .inl has⟩
  rw [LocalCache.search, graph] at found
  dsimp only at found
  rw [CachedSnapshot.search, if_neg (Nat.succ_ne_zero _)] at found
  dsimp only at found
  rw [if_pos (toUTF8_eq_nil.mpr none_)] at found
  cases found
include lower short exact_ in
/-- A query with a blank is found at the joint of a title and a tag. -/
theorem no_blank_of_exact : ' ' ∉ (toLowercase query).toList := by
  intro inside
  have some_ := not_empty_of_exact lower exact_
  obtain ⟨title, tag, split, titled, tagged⟩ := exists_split inside
  have title_ := lower _ _ titled
  have tag_ := lower _ _ tagged
  have bytes : (toLowercase query).toUTF8.toList =
      title.toUTF8.toList ++ ([blank] ++ tag.toUTF8.toList) := by
    rw [split, toUTF8_append, toUTF8_append, utf8_blank]
  have key : searchKey toLowercase (sharedNote 1 title [tag]) =
      (toLowercase query).toUTF8.toList := by
    rw [bytes, ← List.append_assoc]
    change (toLowercase title).toUTF8.toList ++ [blank] ++ (toLowercase tag).toUTF8.toList = _
    rw [title_, tag_]
  have length : (toLowercase query).toUTF8.toList.length + 1 < 2 ^ 32 :=
    length_toUTF8 _ ▸ short
  have lengths := congrArg List.length bytes
  rw [List.length_append, List.length_append, List.length_singleton] at lengths
  obtain ⟨arena, offsets, nodes, node⟩ :=
    CachedSnapshot.apply_one toLowercase (sharedNote 1 title [tag])
  have found := CachedSnapshot.foundBy_of_exact exact_ (CachedSnapshot.short_one (key ▸ length))
    some_ (key ▸ arena) offsets nodes node rfl
  rcases found with has | ⟨other, listed, has⟩
  · refine not_contains_of_longer ?_ has
    change (toLowercase title).toUTF8.toList.length < _
    rw [title_]
    omega
  · obtain rfl := List.mem_singleton.mp listed
    refine not_contains_of_longer ?_ has
    rw [tag_]
    omega
include lower short exact_ in
/-- A query with a line feed is found at the joint of two keys. -/
theorem no_newline_of_exact : '\n' ∉ (toLowercase query).toList := by
  intro inside
  have some_ := not_empty_of_exact lower exact_
  obtain ⟨title, other, split, titled, others⟩ := exists_split inside
  have title_ := lower _ _ titled
  have other_ := lower _ _ others
  have bytes : (toLowercase query).toUTF8.toList =
      title.toUTF8.toList ++ ([newline] ++ other.toUTF8.toList) := by
    rw [split, toUTF8_append, toUTF8_append, utf8_newline]
  have key (first : UInt8) (text : String) (same : toLowercase text = text) :
      searchKey toLowercase (sharedNote first text []) = text.toUTF8.toList := by
    change (toLowercase text).toUTF8.toList = _
    rw [same]
  have length : (toLowercase query).toUTF8.toList.length + 1 < 2 ^ 32 :=
    length_toUTF8 _ ▸ short
  have lengths := congrArg List.length bytes
  rw [List.length_append, List.length_append, List.length_singleton] at lengths
  have apart : (sharedNote 2 other []).id ≠ (sharedNote 1 title []).id := by
    change (⟨.fill 16 2⟩ : MemoryId) ≠ ⟨.fill 16 1⟩
    decide
  obtain ⟨arena, offsets, nodes, node⟩ := CachedSnapshot.apply_two toLowercase apart
  have short_ : CachedSnapshot.Short toLowercase
      [.upsertMemory (sharedNote 1 title []), .upsertMemory (sharedNote 2 other [])] := by
    refine CachedSnapshot.short_two apart ?_
    rw [key 1 title title_, key 2 other other_]
    omega
  have begins : (CachedSnapshot.applyAll toLowercase .empty [.upsertMemory (sharedNote 1 title []),
      .upsertMemory (sharedNote 2 other [])]).searchArena =
      (toLowercase query).toUTF8.toList ++ [newline] := by
    rw [arena, key 1 title title_, key 2 other other_, bytes]
    simp
  have found := CachedSnapshot.foundBy_of_exact exact_ short_ some_ begins offsets nodes node rfl
  rcases found with has | ⟨tag, listed, _⟩
  · refine not_contains_of_longer ?_ has
    change (toLowercase title).toUTF8.toList.length < _
    rw [title_]
    omega
  · cases listed

end Converse

end Exact

/-- **Searches are exact for plain queries, and for no others that an arena can hold.** In lower
case, a part of a text that is in lower case is left as it is. -/
theorem search_exact_iff {Score : Type} (score : GraphSnapshot → ℕ → Memory → Score)
    (partialCmp : Score → Score → Option Ordering) (toLowercase : String → String)
    (lower : ∀ text part, Contains (toLowercase text) part → toLowercase part = part)
    (query : String) :
    (Plain (toLowercase query) → ExactFor score partialCmp toLowercase query) ∧
      ((toLowercase query).utf8ByteSize + 1 < 2 ^ 32 →
        ExactFor score partialCmp toLowercase query → Plain (toLowercase query)) := by
  refine ⟨exactFor_of_plain, fun short exact => ⟨?_, ?_, ?_⟩⟩
  · exact not_empty_of_exact lower exact
  · exact no_blank_of_exact lower short exact
  · exact no_newline_of_exact lower short exact

/-- The searches for a word without capitals are exact. -/
theorem search_exact_word :
    ExactFor (fun _ _ _ => (0 : ℕ)) (fun a b => some (compare a b)) id "atlas" :=
  (search_exact_iff (fun _ _ _ => (0 : ℕ)) (fun a b => some (compare a b)) id
    (fun _ _ _ => rfl) "atlas").1 (by decide)

/-- A title and a tag, two titles, and nothing at all: the note with title `a` and tag `b` is found
for `a b`, the note with title `a` for `a`, a line feed and `b`, and no note for the empty query. -/
theorem not_search_exact :
    ¬ ExactFor (fun _ _ _ => (0 : ℕ)) (fun a b => some (compare a b)) id "a b" ∧
    ¬ ExactFor (fun _ _ _ => (0 : ℕ)) (fun a b => some (compare a b)) id "a\nb" ∧
    ¬ ExactFor (fun _ _ _ => (0 : ℕ)) (fun a b => some (compare a b)) id "" := by
  have lower : ∀ text part, Contains (id text) part → id part = part := fun _ _ _ => rfl
  refine ⟨fun exact => ?_, fun exact => ?_, fun exact => ?_⟩
  · exact no_blank_of_exact lower (by decide) exact (by decide)
  · exact no_newline_of_exact lower (by decide) exact (by decide)
  · exact not_empty_of_exact lower exact rfl

end Exocortex
