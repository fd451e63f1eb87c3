import DecisionTable.Json.Basic
import DecisionTable.Json.Magnitude

/-!
# Numbers in JSON text

A number is an optional minus sign, digits without a leading zero, an optional fraction part and an
optional exponent. Written with neither of the last two it is an integer, except for minus zero. The
range is that of double precision, whatever the notation: an integer too long for 64 bits is kept to
the last digit, but only if it would be in range as a product of its leading digits and a power of
ten.
-/

namespace DecisionTable.Json

/-- A number as it is written. -/
structure Numeral where
  negative : Bool
  whole : List Char
  decimals : List Char
  exponent : Option Int
  deriving DecidableEq

namespace Numeral

/-- All digits as one number. -/
def digits (n : Numeral) : Nat :=
  Nat.ofDigitChars 10 (n.whole ++ n.decimals) 0

/-- The significand of a numeral and the power of ten that goes with it. Each digit of the whole
part that is left over raises the power, each decimal in the significand lowers it, and the other
decimals are dropped. -/
def scientific (n : Numeral) : Nat × Int :=
  let (significand, wholeLeft) := appendDigits 0 n.whole
  let (significand, decimalsLeft) := appendDigits significand n.decimals
  (significand,
    n.exponent.getD 0 + wholeLeft.length + decimalsLeft.length - n.decimals.length)

/-- The value that a numeral stands for. -/
def toJson (n : Numeral) : Json :=
  let (significand, exponent) := n.scientific
  if !inRange significand exponent then .unreadable
  else if n.decimals.isEmpty && n.exponent.isNone && !(n.negative && n.digits == 0) then
    .integer (if n.negative then -Int.ofNat n.digits else Int.ofNat n.digits)
  else .fraction

end Numeral

/-- A run of digits that may not be empty, and what follows it. -/
def scanDigits (cs : List Char) : Option (List Char × List Char) :=
  let (digits, rest) := cs.span Char.isDigit
  if digits.isEmpty then none else some (digits, rest)

/-- The whole part of a number: it starts with zero only if it is zero. -/
def scanWhole (cs : List Char) : Option (List Char × List Char) := do
  let (digits, rest) ← scanDigits cs
  if digits.head? = some '0' ∧ digits.length ≠ 1 then none
  return (digits, rest)

/-- The fraction part, if there is a point. -/
def scanFraction : List Char → Option (List Char × List Char)
  | '.' :: cs => scanDigits cs
  | cs => some ([], cs)

/-- The digits of an exponent after its optional sign. -/
def scanExponentDigits : List Char → Option (Int × List Char)
  | '-' :: cs => do
    let (digits, rest) ← scanDigits cs
    return (-Int.ofNat (Nat.ofDigitChars 10 digits 0), rest)
  | '+' :: cs => do
    let (digits, rest) ← scanDigits cs
    return (Int.ofNat (Nat.ofDigitChars 10 digits 0), rest)
  | cs => do
    let (digits, rest) ← scanDigits cs
    return (Int.ofNat (Nat.ofDigitChars 10 digits 0), rest)

/-- The exponent, if there is one. -/
def scanExponent : List Char → Option (Option Int × List Char)
  | c :: cs =>
    if c = 'e' ∨ c = 'E' then (fun (e, rest) => (some e, rest)) <$> scanExponentDigits cs
    else some (none, c :: cs)
  | [] => some (none, [])

/-- A numeral at the front of the text, without its sign, and what follows it. -/
def scanUnsigned (negative : Bool) (cs : List Char) : Option (Numeral × List Char) := do
  let (whole, cs) ← scanWhole cs
  let (decimals, cs) ← scanFraction cs
  let (exponent, cs) ← scanExponent cs
  return (⟨negative, whole, decimals, exponent⟩, cs)

/-- A numeral at the front of the text, and what follows it. -/
def scanNumber : List Char → Option (Numeral × List Char)
  | '-' :: cs => scanUnsigned true cs
  | cs => scanUnsigned false cs

end DecisionTable.Json
