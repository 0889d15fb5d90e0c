import Exocortex.Client.EndSession
import Exocortex.Library.Framing
import Exocortex.Library.Scans
import Exocortex.Library.Slots

/-!
# The identity of a batch

A batch is named by a digest of its session, its drafts and its edges, written one after the other
with a mark after each text. Nothing says how long the texts are and how many drafts, tags and
edges there are, nor where the session ends. The sizes of a batch say which places of its bytes are
marks. Batches of the same sizes are told apart. Batches of two different sizes are told apart just
when their bytes are not equally many, or some place would have to be two different marks
(`contentBatchId_known_iff`).

Two batches have the same identity by construction when they have it under every digest function.
-/

namespace Exocortex

open Library

deriving instance DecidableEq for BatchIdDraft
deriving instance DecidableEq for BatchIdEdge

/-! ## Batches and their sizes -/

/-- The visibility is a 32-bit integer. -/
def BatchIdDraft.InRange (draft : BatchIdDraft) : Prop :=
  -2 ^ 31 ≤ draft.visibility ∧ draft.visibility < 2 ^ 31

/-- What a batch is named by. -/
structure BatchContent where
  sessionId : String
  drafts : List BatchIdDraft
  rels : List BatchIdEdge
  inRange : ∀ draft ∈ drafts, draft.InRange
deriving DecidableEq

def BatchContent.batchId (blake3 : List UInt8 → Bytes 32) (content : BatchContent) : String :=
  contentBatchId blake3 content.sessionId content.drafts content.rels

/-- What is digested. -/
def BatchContent.preimage (content : BatchContent) : List UInt8 :=
  content.sessionId.toUTF8.toList ++ content.drafts.flatMap (·.bytes) ++
    content.rels.flatMap (·.bytes)

/-- The lengths of the texts of a draft. -/
structure DraftSizes where
  draftKey : ℕ
  memoryType : ℕ
  title : ℕ
  content : ℕ
  tags : List ℕ
deriving DecidableEq

/-- The lengths of the texts of an edge. -/
structure EdgeSizes where
  sourceKey : ℕ
  toMemoryId : ℕ
  toDraftKey : ℕ
  kind : ℕ
deriving DecidableEq

structure BatchSizes where
  sessionId : ℕ
  drafts : List DraftSizes
  rels : List EdgeSizes
deriving DecidableEq

/-- The length of a text in bytes. -/
def byteLength (text : String) : ℕ := text.toUTF8.toList.length

def BatchIdDraft.sizes (draft : BatchIdDraft) : DraftSizes :=
  ⟨byteLength draft.draftKey, byteLength draft.memoryType, byteLength draft.title,
    byteLength draft.content, draft.tags.map byteLength⟩

def BatchIdEdge.sizes (edge : BatchIdEdge) : EdgeSizes :=
  ⟨byteLength edge.sourceKey, byteLength edge.toMemoryId, byteLength edge.toDraftKey,
    byteLength edge.kind⟩

def BatchContent.sizes (content : BatchContent) : BatchSizes :=
  ⟨byteLength content.sessionId, content.drafts.map (·.sizes), content.rels.map (·.sizes)⟩

/-! ## The places of the marks -/

/-- A text and the mark after it. -/
def markedSlots (mark : UInt8) (length : ℕ) : List (Option UInt8) := free length ++ [some mark]

def DraftSizes.slots (sizes : DraftSizes) : List (Option UInt8) :=
  markedSlots 0x1e sizes.draftKey ++ markedSlots 0x1e sizes.memoryType ++
    markedSlots 0x1e sizes.title ++ markedSlots 0x1e sizes.content ++ free 4 ++
    sizes.tags.flatMap (markedSlots 0x1f) ++ [some 0x1e]

def EdgeSizes.slots (sizes : EdgeSizes) : List (Option UInt8) :=
  markedSlots 0x1e sizes.sourceKey ++ markedSlots 0x1e sizes.toMemoryId ++
    markedSlots 0x1e sizes.toDraftKey ++ markedSlots 0x1e sizes.kind ++ free 4

def BatchSizes.slots (sizes : BatchSizes) : List (Option UInt8) :=
  free sizes.sessionId ++ sizes.drafts.flatMap (·.slots) ++ sizes.rels.flatMap (·.slots)

/-- A text with the mark after it. -/
def marked (mark : UInt8) (text : String) : List UInt8 := text.toUTF8.toList ++ [mark]

theorem BatchIdDraft.bytes_eq (draft : BatchIdDraft) : draft.bytes =
    marked 0x1e draft.draftKey ++ marked 0x1e draft.memoryType ++ marked 0x1e draft.title ++
      marked 0x1e draft.content ++ i32LeBytes draft.visibility ++
      draft.tags.flatMap (marked 0x1f) ++ [0x1e] := by
  simp only [bytes, marked, List.append_assoc]
  rfl

theorem BatchIdEdge.bytes_eq (edge : BatchIdEdge) : edge.bytes =
    marked 0x1e edge.sourceKey ++ marked 0x1e edge.toMemoryId ++ marked 0x1e edge.toDraftKey ++
      marked 0x1e edge.kind ++ edge.strength.toLeBytes := by
  simp only [bytes, marked, List.append_assoc]

/-! ## The bytes fit the sizes -/

theorem fits_marked (mark : UInt8) (text : String) :
    Fits (markedSlots mark (byteLength text)) (marked mark text) :=
  .append (fits_free.mpr rfl) (fits_mark.mpr rfl)

variable {γ : Type} {rest rest' bytes : List UInt8} {mark byte : UInt8}

theorem fits_flatMap {α : Type} {f : α → List UInt8} {size : α → γ}
    {slots : γ → List (Option UInt8)} {xs : List α} (fits : ∀ x ∈ xs, Fits (slots (size x)) (f x)) :
    Fits ((xs.map size).flatMap slots) (xs.flatMap f) := by
  induction xs with
  | nil => exact .nil
  | cons x xs ih =>
      rw [List.forall_mem_cons] at fits
      exact fits.1.append (ih fits.2)

theorem BatchIdDraft.fits (draft : BatchIdDraft) : Fits draft.sizes.slots draft.bytes := by
  have word : Fits (free 4) (i32LeBytes draft.visibility) := fits_free.mpr rfl
  have tags : Fits (draft.sizes.tags.flatMap (markedSlots 0x1f))
      (draft.tags.flatMap (marked 0x1f)) := fits_flatMap fun tag _ => fits_marked 0x1f tag
  have ending : Fits [some 0x1e] [(0x1e : UInt8)] := fits_mark.mpr rfl
  rw [bytes_eq]
  exact ((((((fits_marked _ _).append (fits_marked _ _)).append (fits_marked _ _)).append
    (fits_marked _ _)).append word).append tags).append ending

theorem BatchIdEdge.fits (edge : BatchIdEdge) : Fits edge.sizes.slots edge.bytes := by
  have word : Fits (free 4) edge.strength.toLeBytes := fits_free.mpr rfl
  rw [bytes_eq]
  exact ((((fits_marked _ _).append (fits_marked _ _)).append (fits_marked _ _)).append
    (fits_marked _ _)).append word

theorem BatchContent.fits (content : BatchContent) : Fits content.sizes.slots content.preimage :=
  (Fits.append (fits_free.mpr rfl) (fits_flatMap fun draft _ => draft.fits)).append
    (fits_flatMap fun edge _ => edge.fits)

/-! ## Batches of the same sizes -/

theorem F32.toLeBytes_eq (x : F32) : x.toLeBytes = leBytes 4 x.bits.toNat := by
  have size := x.bits.isLt
  have byte (bits : BitVec 8) : (UInt8.ofBitVec bits).toNat = bits.toNat := rfl
  simp only [toLeBytes, leBytes_succ, leBytes_zero, List.cons.injEq, ← UInt8.toNat_inj,
    UInt8.toNat_ofNat', and_true]
  simp only [byte, BitVec.extractLsb'_toNat, Nat.shiftRight_eq_div_pow]
  omega

theorem F32.toLeBytes_inj {x y : F32} (same : x.toLeBytes = y.toLeBytes) : x = y := by
  rw [toLeBytes_eq, toLeBytes_eq] at same
  obtain ⟨bits⟩ := x
  obtain ⟨bits'⟩ := y
  exact congrArg F32.mk (BitVec.eq_of_toNat_eq (leBytes_inj_of_lt bits.isLt bits'.isLt same))

theorem i32LeBytes_inj {x y : ℤ} (low : -2 ^ 31 ≤ x) (high : x < 2 ^ 31) (low' : -2 ^ 31 ≤ y)
    (high' : y < 2 ^ 31) (same : i32LeBytes x = i32LeBytes y) : x = y := by
  have bits := congrArg BitVec.toInt (F32.mk.inj (F32.toLeBytes_inj same))
  rw [BitVec.toInt_ofInt, BitVec.toInt_ofInt] at bits
  rwa [Int.bmod_eq_of_le (by omega) (by omega), Int.bmod_eq_of_le (by omega) (by omega)] at bits

theorem marked_inj {text other : String} (size : byteLength text = byteLength other)
    (same : marked mark text ++ rest = marked mark other ++ rest') :
    text = other ∧ rest = rest' := by
  rw [marked, marked, List.append_assoc, List.append_assoc] at same
  obtain ⟨front, back⟩ := List.append_inj same size
  exact ⟨toUTF8_inj front, (List.append_inj back rfl).2⟩

/-- Values of known sizes are read back one after the other. -/
theorem flatMap_inj_of_sizes {α : Type} {f : α → List UInt8} {size : α → γ} {xs ys : List α}
    (tell : ∀ x ∈ xs, ∀ y ∈ ys, size x = size y → ∀ rest rest', f x ++ rest = f y ++ rest' →
      x = y ∧ rest = rest') (sizes : xs.map size = ys.map size)
    (same : xs.flatMap f ++ rest = ys.flatMap f ++ rest') : xs = ys ∧ rest = rest' := by
  induction xs generalizing ys with
  | nil =>
      rw [List.map_nil, eq_comm, List.map_eq_nil_iff] at sizes
      rw [sizes] at same ⊢
      exact ⟨rfl, same⟩
  | cons x xs ih =>
      cases ys with
      | nil => cases sizes
      | cons y ys =>
          rw [List.map_cons, List.map_cons, List.cons.injEq] at sizes
          rw [List.flatMap_cons, List.flatMap_cons, List.append_assoc, List.append_assoc] at same
          obtain ⟨rfl, later⟩ := tell x List.mem_cons_self y List.mem_cons_self sizes.1 _ _ same
          obtain ⟨rfl, back⟩ := ih (fun x' listed y' listed' =>
            tell x' (List.mem_cons_of_mem _ listed) y' (List.mem_cons_of_mem _ listed'))
            sizes.2 later
          exact ⟨rfl, back⟩

theorem BatchIdDraft.bytes_inj {draft other : BatchIdDraft} (inRange : draft.InRange)
    (inRange' : other.InRange) (size : draft.sizes = other.sizes)
    (same : draft.bytes ++ rest = other.bytes ++ rest') : draft = other ∧ rest = rest' := by
  rw [sizes, sizes, DraftSizes.mk.injEq] at size
  obtain ⟨size₁, size₂, size₃, size₄, sizes⟩ := size
  simp only [bytes_eq, List.append_assoc] at same
  obtain ⟨key, same⟩ := marked_inj size₁ same
  obtain ⟨type, same⟩ := marked_inj size₂ same
  obtain ⟨title, same⟩ := marked_inj size₃ same
  obtain ⟨content, same⟩ := marked_inj size₄ same
  obtain ⟨word, same⟩ := List.append_inj same rfl
  obtain ⟨tags, same⟩ := flatMap_inj_of_sizes (fun _ _ _ _ size _ _ => marked_inj size) sizes same
  have visibility := i32LeBytes_inj inRange.1 inRange.2 inRange'.1 inRange'.2 word
  refine ⟨?_, (List.append_inj same rfl).2⟩
  cases draft
  cases other
  rw [BatchIdDraft.mk.injEq]
  exact ⟨key, type, title, content, visibility, tags⟩

theorem BatchIdEdge.bytes_inj {edge other : BatchIdEdge} (size : edge.sizes = other.sizes)
    (same : edge.bytes ++ rest = other.bytes ++ rest') : edge = other ∧ rest = rest' := by
  rw [sizes, sizes, EdgeSizes.mk.injEq] at size
  obtain ⟨size₁, size₂, size₃, size₄⟩ := size
  simp only [bytes_eq, List.append_assoc] at same
  obtain ⟨source, same⟩ := marked_inj size₁ same
  obtain ⟨memory, same⟩ := marked_inj size₂ same
  obtain ⟨target, same⟩ := marked_inj size₃ same
  obtain ⟨kind, same⟩ := marked_inj size₄ same
  obtain ⟨word, same⟩ := List.append_inj same rfl
  refine ⟨?_, same⟩
  cases edge
  cases other
  rw [BatchIdEdge.mk.injEq]
  exact ⟨source, memory, target, kind, F32.toLeBytes_inj word⟩

/-- Batches of the same sizes are told apart. -/
theorem BatchContent.preimage_inj {content other : BatchContent}
    (size : content.sizes = other.sizes) (same : content.preimage = other.preimage) :
    content = other := by
  rw [sizes, sizes, BatchSizes.mk.injEq] at size
  obtain ⟨session, drafts, rels⟩ := size
  simp only [preimage, List.append_assoc] at same
  obtain ⟨sessionId, same⟩ := List.append_inj same session
  obtain ⟨sameDrafts, same⟩ := flatMap_inj_of_sizes (fun draft listed draft' listed' size _ _ =>
    BatchIdDraft.bytes_inj (content.inRange draft listed) (other.inRange draft' listed') size)
    drafts same
  obtain ⟨sameRels, -⟩ := flatMap_inj_of_sizes (fun _ _ _ _ size _ _ => BatchIdEdge.bytes_inj size)
    rels (congrArg (· ++ []) same)
  cases content
  cases other
  rw [BatchContent.mk.injEq]
  exact ⟨toUTF8_inj sessionId, sameDrafts, sameRels⟩

/-! ## Batches with given bytes -/

/-- The bytes are letters and marks. -/
def Lettered (bytes : List UInt8) : Prop := ∀ byte ∈ bytes, byte = 0x61 ∨ byte = 0x1e ∨ byte = 0x1f

theorem lettered_append {front back : List UInt8} :
    Lettered (front ++ back) ↔ Lettered front ∧ Lettered back := List.forall_mem_append

theorem exists_text (plain : Lettered bytes) : ∃ text : String, text.toUTF8.toList = bytes := by
  induction bytes with
  | nil => exact ⟨"", ByteArray.toList_empty⟩
  | cons byte bytes ih =>
      obtain ⟨first, later⟩ := List.forall_mem_cons.mp plain
      obtain ⟨text, rfl⟩ := ih later
      have letter : ∃ c : String, c.toUTF8.toList = [byte] := by
        rcases first with rfl | rfl | rfl
        · exact ⟨"a", by decide +kernel⟩
        · exact ⟨"\x1e", by decide +kernel⟩
        · exact ⟨"\x1f", by decide +kernel⟩
      obtain ⟨c, single⟩ := letter
      exact ⟨c ++ text, by rw [toUTF8_append, single]; rfl⟩

theorem exists_marked {length : ℕ} (plain : Lettered bytes)
    (fits : Fits (markedSlots mark length) bytes) :
    ∃ text, byteLength text = length ∧ marked mark text = bytes := by
  obtain ⟨front, back, rfl, isFree, isMark⟩ := fits.split
  obtain ⟨text, rfl⟩ := exists_text (lettered_append.mp plain).1
  rw [fits_free] at isFree
  rw [fits_mark] at isMark
  exact ⟨text, isFree, congrArg (_ ++ ·) isMark.symm⟩

theorem exists_flatMap {α : Type} {f : α → List UInt8} {size : α → γ}
    {slots : γ → List (Option UInt8)}
    (each : ∀ n bytes, Lettered bytes → Fits (slots n) bytes → ∃ x, size x = n ∧ f x = bytes)
    {ns : List γ} (plain : Lettered bytes) (fits : Fits (ns.flatMap slots) bytes) :
    ∃ xs : List α, xs.map size = ns ∧ xs.flatMap f = bytes := by
  induction ns generalizing bytes with
  | nil =>
      cases fits
      exact ⟨[], rfl, rfl⟩
  | cons n ns ih =>
      obtain ⟨front, back, rfl, first, later⟩ := Fits.split fits
      rw [lettered_append] at plain
      obtain ⟨x, rfl, rfl⟩ := each n front plain.1 first
      obtain ⟨xs, rfl, rfl⟩ := ih plain.2 later
      exact ⟨x :: xs, rfl, rfl⟩

theorem exists_f32 (size : bytes.length = 4) : ∃ x : F32, x.toLeBytes = bytes := by
  obtain ⟨n, below, written⟩ := exists_leBytes bytes
  rw [size] at below written
  refine ⟨⟨BitVec.ofNat 32 n⟩, ?_⟩
  have small : n % 2 ^ 32 = n := Nat.mod_eq_of_lt below
  rw [F32.toLeBytes_eq, BitVec.toNat_ofNat]
  exact (congrArg (leBytes 4) small).trans written

theorem exists_i32 (size : bytes.length = 4) :
    ∃ value : ℤ, (-2 ^ 31 ≤ value ∧ value < 2 ^ 31) ∧ i32LeBytes value = bytes := by
  obtain ⟨x, written⟩ := exists_f32 size
  have low := BitVec.le_toInt x.bits
  have high := BitVec.toInt_lt (x := x.bits)
  refine ⟨x.bits.toInt, ⟨by simpa using low, by simpa using high⟩, ?_⟩
  rw [i32LeBytes, BitVec.ofInt_toInt]
  exact written

theorem exists_draft {n : DraftSizes} (plain : Lettered bytes) (fits : Fits n.slots bytes) :
    ∃ draft : { draft : BatchIdDraft // draft.InRange }, draft.val.sizes = n ∧
      draft.val.bytes = bytes := by
  obtain ⟨bytes, ending, rfl, fits, isMark⟩ := Fits.split fits
  obtain ⟨bytes, tagged, rfl, fits, isTags⟩ := Fits.split fits
  obtain ⟨bytes, word, rfl, fits, isWord⟩ := Fits.split fits
  obtain ⟨bytes, bytes₄, rfl, fits, fits₄⟩ := Fits.split fits
  obtain ⟨bytes, bytes₃, rfl, fits, fits₃⟩ := Fits.split fits
  obtain ⟨bytes₁, bytes₂, rfl, fits₁, fits₂⟩ := Fits.split fits
  simp only [lettered_append] at plain
  obtain ⟨⟨⟨⟨⟨⟨plain₁, plain₂⟩, plain₃⟩, plain₄⟩, -⟩, plainTags⟩, -⟩ := plain
  obtain ⟨key, size₁, rfl⟩ := exists_marked plain₁ fits₁
  obtain ⟨type, size₂, rfl⟩ := exists_marked plain₂ fits₂
  obtain ⟨title, size₃, rfl⟩ := exists_marked plain₃ fits₃
  obtain ⟨content, size₄, rfl⟩ := exists_marked plain₄ fits₄
  obtain ⟨visibility, inRange, rfl⟩ := exists_i32 (fits_free.mp isWord)
  obtain ⟨tags, sizes, rfl⟩ := exists_flatMap (fun _ _ => exists_marked) plainTags isTags
  refine ⟨⟨⟨key, type, title, content, visibility, tags⟩, inRange⟩, ?_, ?_⟩
  · rw [BatchIdDraft.sizes, size₁, size₂, size₃, size₄, sizes]
  · rw [BatchIdDraft.bytes_eq, fits_mark.mp isMark]

theorem exists_edge {n : EdgeSizes} (plain : Lettered bytes) (fits : Fits n.slots bytes) :
    ∃ edge : BatchIdEdge, edge.sizes = n ∧ edge.bytes = bytes := by
  obtain ⟨bytes, word, rfl, fits, isWord⟩ := Fits.split fits
  obtain ⟨bytes, bytes₄, rfl, fits, fits₄⟩ := Fits.split fits
  obtain ⟨bytes, bytes₃, rfl, fits, fits₃⟩ := Fits.split fits
  obtain ⟨bytes₁, bytes₂, rfl, fits₁, fits₂⟩ := Fits.split fits
  simp only [lettered_append] at plain
  obtain ⟨⟨⟨⟨plain₁, plain₂⟩, plain₃⟩, plain₄⟩, -⟩ := plain
  obtain ⟨source, size₁, rfl⟩ := exists_marked plain₁ fits₁
  obtain ⟨memory, size₂, rfl⟩ := exists_marked plain₂ fits₂
  obtain ⟨target, size₃, rfl⟩ := exists_marked plain₃ fits₃
  obtain ⟨kind, size₄, rfl⟩ := exists_marked plain₄ fits₄
  obtain ⟨strength, rfl⟩ := exists_f32 (fits_free.mp isWord)
  refine ⟨⟨source, memory, target, kind, strength⟩, ?_, ?_⟩
  · rw [BatchIdEdge.sizes, size₁, size₂, size₃, size₄]
  · rw [BatchIdEdge.bytes_eq]

/-- Bytes that fit the sizes are those of a batch. -/
theorem exists_content {sizes : BatchSizes} (plain : Lettered bytes)
    (fits : Fits sizes.slots bytes) :
    ∃ content : BatchContent, content.sizes = sizes ∧ content.preimage = bytes := by
  obtain ⟨bytes, edged, rfl, fits, isRels⟩ := Fits.split fits
  obtain ⟨session, drafted, rfl, isSession, isDrafts⟩ := Fits.split fits
  simp only [lettered_append] at plain
  obtain ⟨⟨plainSession, plainDrafts⟩, plainRels⟩ := plain
  obtain ⟨sessionId, rfl⟩ := exists_text plainSession
  obtain ⟨rels, relSizes, rfl⟩ := exists_flatMap (fun _ _ => exists_edge) plainRels isRels
  obtain ⟨drafts, draftSizes, rfl⟩ := exists_flatMap (fun _ _ => exists_draft) plainDrafts isDrafts
  refine ⟨⟨sessionId, drafts.map (·.val), rels, ?_⟩, ?_, ?_⟩
  · intro draft listed
    obtain ⟨⟨_, inRange⟩, -, rfl⟩ := List.mem_map.mp listed
    exact inRange
  · rw [BatchContent.sizes, List.map_map, relSizes]
    exact congrArg₂ (BatchSizes.mk · · _) (fits_free.mp isSession) draftSizes
  · rw [BatchContent.preimage, List.flatMap_map]

/-! ## Digests -/

theorem batchId_eq_iff {content other : BatchContent} :
    (∀ blake3, content.batchId blake3 = other.batchId blake3) ↔
      content.preimage = other.preimage := by
  have written (blake3 : List UInt8 → Bytes 32) (content : BatchContent) :
      content.batchId blake3 = (blake3 content.preimage).digestHex := rfl
  have apart : (Bytes.fill 32 0).digestHex ≠ (Bytes.fill 32 1).digestHex := by decide +kernel
  simp only [written]
  exact ⟨eq_of_digests apart, fun same _ => by rw [same]⟩

/-! ## Marks and letters -/

theorem mem_flatMap_slots {slots : γ → List (Option UInt8)} {ns : List γ}
    (each : ∀ n, some byte ∈ slots n → byte = 0x1e ∨ byte = 0x1f)
    (listed : some byte ∈ ns.flatMap slots) : byte = 0x1e ∨ byte = 0x1f := by
  obtain ⟨n, -, here⟩ := List.mem_flatMap.mp listed
  exact each n here

theorem not_mem_free {n : ℕ} : some byte ∉ free n := by
  intro listed
  cases List.eq_of_mem_replicate listed

theorem mem_markedSlots {length : ℕ} (listed : some byte ∈ markedSlots mark length) :
    byte = mark := by
  rcases List.mem_append.mp listed with here | here
  · exact absurd here not_mem_free
  · exact Option.some.inj (List.mem_singleton.mp here)

theorem BatchSizes.mark_of_mem {sizes : BatchSizes} (listed : some byte ∈ sizes.slots) :
    byte = 0x1e ∨ byte = 0x1f := by
  rw [slots, List.mem_append, List.mem_append] at listed
  rcases listed with (here | here) | here
  · exact absurd here not_mem_free
  · refine mem_flatMap_slots (fun n listed => ?_) here
    simp only [DraftSizes.slots, List.mem_append, not_mem_free, or_false, List.mem_singleton,
      Option.some.injEq] at listed
    rcases listed with ((((here | here) | here) | here) | here) | here
    · exact .inl (mem_markedSlots here)
    · exact .inl (mem_markedSlots here)
    · exact .inl (mem_markedSlots here)
    · exact .inl (mem_markedSlots here)
    · exact mem_flatMap_slots (fun _ listed => .inr (mem_markedSlots listed)) here
    · exact .inl here
  · refine mem_flatMap_slots (fun n listed => ?_) here
    simp only [EdgeSizes.slots, List.mem_append, not_mem_free, or_false] at listed
    rcases listed with ((here | here) | here) | here <;> exact .inl (mem_markedSlots here)

/-- **Which batches an identity tells apart**: all those of two sizes, if these are the same, or
their bytes are not equally many, or some place has two different marks; and otherwise there are two
different batches of these sizes with the same identity. -/
theorem contentBatchId_known_iff (left right : BatchSizes) :
    (∀ content other : BatchContent, content.sizes = left → other.sizes = right →
        (∀ blake3, content.batchId blake3 = other.batchId blake3) → content = other) ↔
      left = right ∨ ¬ Compatible left.slots right.slots := by
  simp only [batchId_eq_iff]
  constructor
  · intro known
    by_contra neither
    rw [not_or, not_not] at neither
    obtain ⟨different, compatible⟩ := neither
    obtain ⟨bytes, fits, fits', filled⟩ := compatible.exists_fits 0x61
    have plain : Lettered bytes := by
      intro byte listed
      rcases filled byte listed with letter | mark | mark
      · exact .inl letter
      · exact .inr (BatchSizes.mark_of_mem mark)
      · exact .inr (BatchSizes.mark_of_mem mark)
    obtain ⟨content, rfl, written⟩ := exists_content plain fits
    obtain ⟨other, rfl, written'⟩ := exists_content plain fits'
    exact different (congrArg BatchContent.sizes
      (known content other rfl rfl (written.trans written'.symm)))
  · rintro (rfl | apart) content other size size' same
    · exact content.preimage_inj (size.trans size'.symm) same
    · subst size
      subst size'
      have fits := content.fits
      rw [same] at fits
      exact absurd (.of_fits fits other.fits) apart

/-! ## A letter that moves -/

/-- A draft with nothing but its key and its title. -/
def keyedDraft (key : String) : BatchIdDraft := ⟨key, "Note", "a note", "", 3, []⟩

theorem keyedDraft_inRange (key : String) : (keyedDraft key).InRange := by
  have low : (-2 ^ 31 : ℤ) ≤ 3 := by decide
  have high : (3 : ℤ) < 2 ^ 31 := by decide
  exact ⟨low, high⟩

def keyedContent (session key : String) : BatchContent where
  sessionId := session
  drafts := [keyedDraft key]
  rels := []
  inRange := List.forall_mem_singleton.mpr (keyedDraft_inRange key)

/-- The last letter of the session is taken for the first one of the key. -/
theorem not_contentBatchId_known :
    ¬ ∀ content other : BatchContent,
      (∀ blake3, content.batchId blake3 = other.batchId blake3) → content = other := by
  intro always
  have same := always (keyedContent "ab" "c") (keyedContent "a" "bc")
    (batchId_eq_iff.mpr (by decide +kernel))
  exact absurd (congrArg BatchContent.sessionId same) (by decide)

end Exocortex
