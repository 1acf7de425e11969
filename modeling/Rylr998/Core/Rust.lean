import Mathlib.Algebra.Group.Nat.Defs
import Mathlib.Data.List.Induction
import Mathlib.Order.Basic

/-!
# The parts of Rust the driver is written in

Operations that can panic live in `Except Panic`: slicing, indexing, `copy_from_slice`,
`copy_within` and the arithmetic that is checked against underflow and overflow. The buffers carry
their invariant: an `HVec` (`heapless::Vec`) never holds more than its capacity, and a `ByteArr`
(`[u8; N]`) always has its length.

`usize` is the one type whose width depends on the target (64 bits on the hosts of `rylr998-std`
and `rylr998-tokio`, 32 bits on the microcontrollers of `rylr998-embassy`); `Target` is a parameter
of what depends on it.
-/

namespace Rylr998

/-- Why an operation panics. -/
inductive Panic where
  /-- A range or an index is out of bounds. -/
  | outOfBounds
  /-- `copy_from_slice` with slices of different lengths. -/
  | lengthMismatch
  /-- A subtraction below zero. -/
  | subOverflow
  /-- An addition past `usize::MAX`. -/
  | addOverflow
  deriving DecidableEq

/-- The machine the code is compiled for. -/
class Target where
  /-- The width of `usize`. -/
  usizeBits : Nat
  /-- `usize` has at least 16 bits on every target. -/
  le_usizeBits : 16 ≤ usizeBits

/-- A target with 64-bit pointers. -/
@[reducible] def Target.host : Target := ⟨64, by decide⟩

/-- `usize::MAX`. -/
def usizeMax [Target] : Nat := 2 ^ Target.usizeBits - 1

theorem usizeMax_ge [Target] : 65535 ≤ usizeMax := by
  have h : 2 ^ 16 ≤ 2 ^ Target.usizeBits :=
    Nat.pow_le_pow_right (by decide) Target.le_usizeBits
  unfold usizeMax
  omega

/-- `usize`. -/
@[ext] structure Usize [Target] where
  /-- The number. -/
  val : Nat
  /-- It is representable. -/
  val_le : val ≤ usizeMax
  deriving DecidableEq

/-! ### Checked operations -/

section Checked

variable {α : Type}

/-- `&xs[..n]`. -/
def sliceTo (xs : List α) (n : Nat) : Except Panic (List α) :=
  if n ≤ xs.length then .ok (xs.take n) else .error .outOfBounds

/-- `&xs[n..]`. -/
def sliceFrom (xs : List α) (n : Nat) : Except Panic (List α) :=
  if n ≤ xs.length then .ok (xs.drop n) else .error .outOfBounds

/-- `xs[i]`. -/
def index (xs : List α) (i : Nat) : Except Panic α :=
  match xs[i]? with
  | some x => .ok x
  | none => .error .outOfBounds

/-- `xs[i] = x`. -/
def indexSet (xs : List α) (i : Nat) (x : α) : Except Panic (List α) :=
  if i < xs.length then .ok (xs.set i x) else .error .outOfBounds

/-- `xs[from..to].copy_from_slice(src)`. -/
def copyFromSlice (xs : List α) (start stop : Nat) (src : List α) : Except Panic (List α) :=
  if start ≤ stop ∧ stop ≤ xs.length then
    if src.length = stop - start then .ok (xs.take start ++ src ++ xs.drop stop)
    else .error .lengthMismatch
  else .error .outOfBounds

/-- `a - b`. -/
def checkedSub (a b : Nat) : Except Panic Nat :=
  if b ≤ a then .ok (a - b) else .error .subOverflow

/-- `a + b`. -/
def checkedAdd [Target] (a b : Nat) : Except Panic Nat :=
  if a + b ≤ usizeMax then .ok (a + b) else .error .addOverflow

/-- What a build does with an addition past `usize::MAX`. -/
inductive Build where
  /-- It panics. -/
  | checked
  /-- It wraps around. -/
  | wrapping
  deriving DecidableEq

/-- `a + b`. -/
def Build.add [Target] : Build → Nat → Nat → Except Panic Nat
  | .checked, a, b => checkedAdd a b
  | .wrapping, a, b => .ok ((a + b) % (usizeMax + 1))

theorem sliceTo_of_le {xs : List α} {n : Nat} (h : n ≤ xs.length) :
    sliceTo xs n = .ok (xs.take n) := if_pos h

theorem sliceFrom_of_le {xs : List α} {n : Nat} (h : n ≤ xs.length) :
    sliceFrom xs n = .ok (xs.drop n) := if_pos h

theorem index_of_lt {xs : List α} {i : Nat} (h : i < xs.length) : index xs i = .ok xs[i] := by
  simp [index, h]

theorem indexSet_of_lt {xs : List α} {i : Nat} (h : i < xs.length) (x : α) :
    indexSet xs i x = .ok (xs.set i x) := if_pos h

theorem checkedSub_of_le {a b : Nat} (h : b ≤ a) : checkedSub a b = .ok (a - b) := if_pos h

end Checked

/-! ### Buffers -/

/-- `heapless::Vec<T, N>`. -/
@[ext] structure HVec (α : Type) (cap : Nat) where
  /-- The elements. -/
  data : List α
  /-- They fit. -/
  length_le : data.length ≤ cap
  deriving DecidableEq

namespace HVec

variable {α : Type} {cap : Nat}

/-- `Vec::new()`. -/
def new : HVec α cap := ⟨[], Nat.zero_le _⟩

/-- `len()`. -/
def len (v : HVec α cap) : Nat := v.data.length

/-- `is_empty()`. -/
def isEmpty (v : HVec α cap) : Bool := v.data.isEmpty

/-- `extend_from_slice(xs)`: nothing is appended when `xs` does not fit. -/
def extendFromSlice (v : HVec α cap) (xs : List α) : Option (HVec α cap) :=
  if h : v.data.length + xs.length ≤ cap then some ⟨v.data ++ xs, by simpa using h⟩ else none

/-- `truncate(n)`. -/
def truncate (v : HVec α cap) (n : Nat) : HVec α cap :=
  ⟨v.data.take n, by have := v.length_le; simp; omega⟩

/-- `copy_within(start..stop, dest)`. -/
def copyWithin (v : HVec α cap) (start stop dest : Nat) : Except Panic (HVec α cap) :=
  if h : start ≤ stop ∧ stop ≤ v.data.length ∧ dest ≤ v.data.length - (stop - start) then
    .ok ⟨v.data.take dest ++ (v.data.drop start).take (stop - start) ++
      v.data.drop (dest + (stop - start)), by have := v.length_le; simp; omega⟩
  else .error .outOfBounds

/-- The vector without its first `n` elements: the effect of `copy_within(n..len, 0)` and
`truncate(len - n)`. -/
def dropFront (v : HVec α cap) (n : Nat) : HVec α cap :=
  ⟨v.data.drop n, by have := v.length_le; simp; omega⟩

@[simp] theorem data_new : (new : HVec α cap).data = [] := rfl

@[simp] theorem data_dropFront (v : HVec α cap) (n : Nat) :
    (v.dropFront n).data = v.data.drop n := rfl

theorem isEmpty_iff {v : HVec α cap} : v.isEmpty = true ↔ v.data = [] := by
  simp [isEmpty]

theorem extendFromSlice_eq_some {v w : HVec α cap} {xs : List α} :
    v.extendFromSlice xs = some w ↔ w.data = v.data ++ xs := by
  unfold extendFromSlice
  split_ifs with h
  · simp [HVec.ext_iff, eq_comm]
  · refine ⟨nofun, fun hw => absurd w.length_le ?_⟩
    rw [hw, List.length_append]
    exact h

theorem extendFromSlice_eq_none {v : HVec α cap} {xs : List α} :
    v.extendFromSlice xs = none ↔ cap < v.data.length + xs.length := by
  unfold extendFromSlice
  split_ifs with h <;> simp <;> omega

/-- Shifting the elements from `n` on to the front and truncating drops the first `n`. -/
theorem copyWithin_truncate {v : HVec α cap} {n : Nat} (h : n ≤ v.len) :
    ((v.copyWithin n v.len 0).map fun w => w.truncate (v.len - n)) = .ok (v.dropFront n) := by
  unfold len at h ⊢
  rw [copyWithin, dif_pos ⟨h, Nat.le_refl _, Nat.zero_le _⟩]
  simp only [Except.map, Except.ok.injEq]
  ext1
  simp only [truncate, dropFront, List.take_zero, List.nil_append]
  rw [List.take_of_length_le (l := v.data.drop n) (by simp),
    List.take_append_of_le_length (by simp), List.take_of_length_le (by simp)]

end HVec

/-- `[u8; N]`. -/
@[ext] structure ByteArr (n : Nat) where
  /-- The bytes. -/
  data : List UInt8
  /-- There are `n` of them. -/
  length_eq : data.length = n
  deriving DecidableEq

namespace ByteArr

variable {n : Nat}

/-- `[0u8; N]`. -/
def zeroed : ByteArr n := ⟨List.replicate n 0, by simp⟩

/-- `self[..stop].copy_from_slice(src)`. -/
def copyTo (a : ByteArr n) (stop : Nat) (src : List UInt8) : Except Panic (ByteArr n) :=
  if h : stop ≤ n then
    if hs : src.length = stop then
      .ok ⟨src ++ a.data.drop stop, by have := a.length_eq; simp; omega⟩
    else .error .lengthMismatch
  else .error .outOfBounds

/-- The array with `src` written at the front, as far as it fits. -/
def load (a : ByteArr n) (src : List UInt8) : ByteArr n :=
  ⟨(src ++ a.data.drop src.length).take n, by have := a.length_eq; simp; omega⟩

theorem copyTo_length {a : ByteArr n} {src : List UInt8} (h : src.length ≤ n) :
    a.copyTo src.length src = .ok (a.load src) := by
  rw [copyTo, dif_pos h, dif_pos rfl]
  congr 1
  ext1
  have := a.length_eq
  show src ++ a.data.drop src.length = (src ++ a.data.drop src.length).take n
  rw [List.take_of_length_le (by simp; omega)]

theorem copyTo_of_lt {a : ByteArr n} {stop : Nat} {src : List UInt8} (h : n < stop) :
    a.copyTo stop src = .error .outOfBounds := by
  rw [copyTo, dif_neg (by omega)]

/-- The bytes just written can be read back. -/
theorem sliceTo_load {a : ByteArr n} {src : List UInt8} (h : src.length ≤ n) :
    sliceTo (a.load src).data src.length = .ok src := by
  rw [sliceTo_of_le (by rw [length_eq]; exact h)]
  simp [load, List.take_take, Nat.min_eq_left h]

end ByteArr

/-! ### Text -/

/-- The bytes of a string; `utf8 "…"` is the byte string `b"…"` of the source. -/
def utf8 (s : String) : List UInt8 := s.toUTF8.data.toList

/-- `core::str::from_utf8`. -/
def fromUtf8 (bs : List UInt8) : Option String := String.fromUTF8? ⟨bs.toArray⟩

theorem fromUtf8_eq_some_iff {bs : List UInt8} {s : String} :
    fromUtf8 bs = some s ↔ utf8 s = bs := by
  unfold fromUtf8 utf8 String.fromUTF8?
  constructor
  · intro h
    split_ifs at h with hv
    obtain rfl := Option.some.inj h
    rfl
  · rintro rfl
    have hv : (⟨s.toUTF8.data.toList.toArray⟩ : ByteArray).IsValidUTF8 := by
      simpa using s.isValidUTF8
    rw [dif_pos hv]
    rfl

/-- ASCII bytes are valid UTF-8. -/
theorem exists_utf8_of_ascii {bs : List UInt8} (h : ∀ b ∈ bs, b.toNat < 128) :
    ∃ s, fromUtf8 bs = some s := by
  suffices hv : (⟨bs.toArray⟩ : ByteArray).IsValidUTF8 from
    ⟨String.fromUTF8 _ hv, by rw [fromUtf8, String.fromUTF8?, dif_pos hv]⟩
  induction bs using List.reverseRecOn with
  | nil => exact ByteArray.isValidUTF8_empty
  | append_singleton bs b ih =>
    have hb : b.toNat < 128 := h b (by simp)
    have hv := (ih fun x hx => h x (by simp [hx])).push (c := Char.ofUInt8 b) (by
      rw [Char.utf8Size_eq_one_iff, UInt32.le_iff_toNat_le]
      show b.toUInt32.toNat ≤ 127
      simpa using Nat.le_of_lt_succ hb)
    have hpush : (⟨bs.toArray⟩ : ByteArray).push (Char.ofUInt8 b).toUInt8 =
        ⟨(bs ++ [b]).toArray⟩ := by
      show (⟨bs.toArray.push b.toUInt32.toUInt8⟩ : ByteArray) = _
      simp
    rwa [hpush] at hv

end Rylr998
