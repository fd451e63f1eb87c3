/-!
# Decimal text

Reading integers written in decimal, and writing numbers with leading zeros. The written form of an
integer is an optional sign and one or more ASCII digits; leading zeros are allowed and blanks are
not. `readDigits_toDigits` says that the digits of a number read back to it.
-/

namespace DecisionTable.Text

/-- The number that a non-empty run of ASCII digits stands for. -/
def readDigits (cs : List Char) : Option Nat :=
  if !cs.isEmpty && cs.all Char.isDigit then some (Nat.ofDigitChars 10 cs 0) else none

/-- The integer that an optional sign and a run of digits stand for. -/
def readInteger : List Char → Option Int
  | '+' :: cs => (readDigits cs).map Int.ofNat
  | '-' :: cs => (readDigits cs).map fun n => -Int.ofNat n
  | cs => (readDigits cs).map Int.ofNat

/-- An integer as a 64-bit signed word, if it is one. -/
def toInt64? (n : Int) : Option Int64 :=
  if Int64.minValue.toInt ≤ n ∧ n ≤ Int64.maxValue.toInt then some (Int64.ofInt n) else none

/-- Reads a decimal integer of the 64-bit signed range. -/
def readInt64 (s : String) : Option Int64 :=
  readInteger s.toList >>= toInt64?

/-- The decimal digits of a number, with zeros in front up to `width` characters. -/
def zeroPadded (width n : Nat) : String :=
  let digits := Nat.toDigits 10 n
  String.ofList (List.replicate (width - digits.length) '0' ++ digits)

theorem readDigits_toDigits (n : Nat) : readDigits (Nat.toDigits 10 n) = some n := by
  have all : (Nat.toDigits 10 n).all Char.isDigit = true :=
    List.all_eq_true.2 fun _ h => Nat.isDigit_of_mem_toDigits (by decide) (by decide) h
  have nonempty : (Nat.toDigits 10 n).isEmpty = false :=
    List.isEmpty_eq_false_iff.2 Nat.toDigits_ne_nil
  simp [readDigits, all, nonempty, Nat.ofDigitChars_toDigits]

end DecisionTable.Text
