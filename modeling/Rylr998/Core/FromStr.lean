import Rylr998.Core.Rust
import Rylr998.Lib.Decimal

/-!
# `FromStr` for the integer types

`str::parse` for the integers of the protocol. A type of integers is a `Scalar`: a range of
numbers with its conversions; `FromStr` reads a numeral with an optional `+` (and an optional `-`
for signed types), at least one digit and a value in range, as Rust documents it.
-/

namespace Rylr998

/-- `core::str::FromStr`. -/
class FromStr (α : Type) where
  /-- `from_str`; `none` is any error. -/
  fromStr : String → Option α

/-- A fixed-width integer type. -/
class Scalar (α : Type) where
  /-- Does a numeral of the type admit a minus sign? -/
  signed : Bool
  /-- `MIN` -/
  lo : Int
  /-- `MAX` -/
  hi : Int
  /-- The number an element stands for. -/
  toInt : α → Int
  /-- The element for a number in range. -/
  ofInt : Int → α
  /-- `ofInt` undoes `toInt`. -/
  ofInt_toInt : ∀ a, ofInt (toInt a) = a
  /-- `toInt` undoes `ofInt` in range. -/
  toInt_ofInt : ∀ v, lo ≤ v → v ≤ hi → toInt (ofInt v) = v
  /-- The number of an element is in range. -/
  toInt_mem : ∀ a, lo ≤ toInt a ∧ toInt a ≤ hi
  /-- Only signed types have negative numbers. -/
  signed_of_neg : ∀ v, lo ≤ v → v < 0 → signed = true

instance : Scalar UInt8 where
  signed := false
  lo := 0
  hi := 255
  toInt a := a.toNat
  ofInt v := UInt8.ofNat v.toNat
  ofInt_toInt a := by simp
  toInt_ofInt v h₁ h₂ := by simp; omega
  toInt_mem a := by have := a.toNat_lt; omega
  signed_of_neg v h₁ h₂ := by omega

instance : Scalar UInt16 where
  signed := false
  lo := 0
  hi := 65535
  toInt a := a.toNat
  ofInt v := UInt16.ofNat v.toNat
  ofInt_toInt a := by simp
  toInt_ofInt v h₁ h₂ := by simp; omega
  toInt_mem a := by have := a.toNat_lt; omega
  signed_of_neg v h₁ h₂ := by omega

instance : Scalar UInt32 where
  signed := false
  lo := 0
  hi := 4294967295
  toInt a := a.toNat
  ofInt v := UInt32.ofNat v.toNat
  ofInt_toInt a := by simp
  toInt_ofInt v h₁ h₂ := by simp; omega
  toInt_mem a := by have := a.toNat_lt; omega
  signed_of_neg v h₁ h₂ := by omega

instance : Scalar Int16 where
  signed := true
  lo := -32768
  hi := 32767
  toInt a := a.toInt
  ofInt v := Int16.ofInt v
  ofInt_toInt a := by simp
  toInt_ofInt v h₁ h₂ := Int16.toInt_ofInt_of_le (by simpa using h₁) (by simp; omega)
  toInt_mem a := by have h := a.le_toInt; have h' := a.toInt_lt; simp at h h'; omega
  signed_of_neg _ _ _ := rfl

instance [Target] : Scalar Usize where
  signed := false
  lo := 0
  hi := usizeMax
  toInt a := a.val
  ofInt v := ⟨min v.toNat usizeMax, Nat.min_le_right _ _⟩
  ofInt_toInt a := by ext; simpa using a.val_le
  toInt_ofInt v h₁ h₂ := by simp; omega
  toInt_mem a := by have := a.val_le; omega
  signed_of_neg v h₁ h₂ := by omega

instance {α : Type} [Scalar α] : FromStr α where
  fromStr s :=
    (Decimal.read (Scalar.signed α) (Scalar.lo α) (Scalar.hi α) (utf8 s)).map Scalar.ofInt

/-- `text` is a numeral of the number `a`. -/
def Denotes {α : Type} [Scalar α] (text : List UInt8) (a : α) : Prop :=
  Decimal.Denotes (Scalar.signed α) (Scalar.lo α) (Scalar.hi α) text (Scalar.toInt a)

/-- The canonical numeral of a number. -/
def numeral {α : Type} [Scalar α] (a : α) : List UInt8 := Decimal.textInt (Scalar.toInt a)

theorem numeral_of_nonneg {α : Type} [Scalar α] {a : α} {n : Nat} (h : Scalar.toInt a = n) :
    numeral a = Decimal.text n := by
  rw [numeral, Decimal.textInt, h, if_neg (by omega), Int.natAbs_natCast]

end Rylr998
