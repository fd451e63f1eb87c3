/-!
# Magnitudes of numbers

A number that is not an integer of 64 bits is held in double precision. Its magnitude is a product:
the leading digits, as many as fit into 64 bits, times a power of ten. Both factors are rounded to
double precision and so is the product, so two ways to write a number next to the end of the range
may differ in whether it is still within.

* `roundDouble n` : `n` to double precision, its range left aside;
* `appendDigits` : as many digits as fit;
* `inRange` : whether a product stays finite.
-/

namespace DecisionTable.Json

/-! ## Double precision -/

/-- A number to 53 significant bits. A tie goes to the even neighbour. -/
def roundDouble (n : Nat) : Nat :=
  let unit := Nat.pow 2 (n.log2 - 52)
  let quotient := n / unit
  let excess := 2 * (n % unit)
  if unit < excess ∨ unit = excess ∧ quotient % 2 = 1 then (quotient + 1) * unit
  else quotient * unit

/-- Whether `significand * 10 ^ exponent` stays finite in double precision. A power of ten that is
not finite itself is too large for any significand but zero. -/
def inRange (significand : Nat) (exponent : Int) : Bool :=
  if significand = 0 ∨ exponent ≤ 0 then true
  else if 308 < exponent then false
  else
    roundDouble (roundDouble significand * roundDouble (Nat.pow 10 exponent.toNat)) <
      Nat.pow 2 1024

/-! ## Significands -/

/-- Appends decimal digits to a significand up to the first that would take it beyond 64 bits, and
tells what is left. -/
def appendDigits (significand : Nat) : List Char → Nat × List Char
  | [] => (significand, [])
  | c :: cs =>
    let next := 10 * significand + (c.toNat - '0'.toNat)
    if next < UInt64.size then appendDigits next cs else (significand, c :: cs)

end DecisionTable.Json
