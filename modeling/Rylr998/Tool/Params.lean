import Rylr998.Core.FromStr
import Rylr998.Core.Types

/-!
# Parameters on the command line

`rylr998-tool provision --params S,B,C,P`: clap hands the text behind `--params` to `parse_params`.
An error is the text that the user gets to read, so `str::parse` is modelled here with its errors.
-/

namespace Rylr998.Tool

/-- `str::split` at a character. -/
def split (s : String) (sep : Char) : List String := (s.toList.splitOn sep).map String.ofList

/-- `core::num::IntErrorKind`, as far as `u8` has it. -/
inductive IntErrorKind where
  | empty
  | invalidDigit
  | posOverflow
  deriving DecidableEq

/-- `ParseIntError::to_string`. -/
def IntErrorKind.text : IntErrorKind → String
  | .empty => "cannot parse integer from empty string"
  | .invalidDigit => "invalid digit found in string"
  | .posOverflow => "number too large to fit in target type"

/-- The digits of a `u8` behind those of `acc`. A byte that is no digit is found before an overflow
at that byte. -/
def readDigits (acc : Nat) : List UInt8 → Except IntErrorKind Nat
  | [] => .ok acc
  | b :: bytes =>
    if Decimal.isDigit b then
      if 10 * acc + (b.toNat - 48) ≤ 255 then readDigits (10 * acc + (b.toNat - 48)) bytes
      else .error .posOverflow
    else .error .invalidDigit

/-- `u8::from_str`. No minus sign is taken off. -/
def u8FromStr (s : String) : Except IntErrorKind UInt8 :=
  let bytes := utf8 s
  if bytes = [] then .error .empty
  else if bytes = [Decimal.plus] ∨ bytes = [Decimal.minus] then .error .invalidDigit
  else (readDigits 0 (Decimal.splitSign false bytes).2).map UInt8.ofNat

/-- The closure `n` of `parse_params`. -/
def n (s : String) : Except String UInt8 := (u8FromStr s).mapError IntErrorKind.text

/-- `parse_params` -/
def parseParams (s : String) : Except String RfParams :=
  match split s ',' with
  | [sf, bw, cr, preamble] => do
    return { sf := ← n sf, bw := ← n bw, cr := ← n cr, preamble := ← n preamble }
  | parts => .error ("expected S,B,C,P (4 ints), got " ++ toString parts.length ++ " parts")

end Rylr998.Tool
