import DecisionTable.Sample.Rates
import DecisionTable.Text.Decimal

/-!
# Generated rate tables

Tables of any size: a number of regions, each with the same number of adjacent amount bands of one
width. The payloads count the rows as they are made.

Sizes have 64 bits. The room for all rows is set aside before the first one is made, so too large a
number of rows ends in a panic at once. An outcome here is a value or the message of a panic.
-/

namespace DecisionTable.Sample

/-- The value of an outcome that is expected to have one. -/
def expect {α : Type} (message : String) : Except TableError α → Except String α :=
  Except.mapError fun error => message ++ ": " ++ error.record

/-! ## Room -/

/-- The bytes that a vector may take: no more than a signed size tells. -/
def maxBytes : Nat := Int64.maxValue.toNatClampNeg

/-- The bytes of a row: three words for its keys, two for its payload. -/
def rowBytes : Nat := 40

/-- Sets the room for all rows aside. -/
def reserve (regions bands : UInt64) : Except String Unit :=
  let rows := regions.toNat * bands.toNat
  if UInt64.size ≤ rows then throw "attempt to multiply with overflow"
  else if maxBytes < rows * rowBytes then throw "capacity overflow"
  else return ()

/-! ## Rows -/

def bandWidth : Nat := 10

/-- The name of a region, of at least four digits. -/
def regionName (index : Nat) : String :=
  "R" ++ Text.zeroPadded 4 index

/-- The amounts of a band. -/
def bandInterval (band : Int64) : Except TableError Interval :=
  let lower := band * Int64.ofNat bandWidth
  Interval.bounded (.integer lower) (.integer (lower + Int64.ofNat bandWidth))

/-- Adds the row of a band, with the number of rows so far as its payload. -/
def pushBand (region : Nat) (rows : Array (Row Nat)) (band : Nat) :
    Except String (Array (Row Nat)) := do
  let amount ← expect "band bounds are ordered" (bandInterval (Int64.ofNat band))
  return rows.push (rateRow (regionName region) amount rows.size)

/-- Adds the rows of a region, one for each band. -/
def pushRegion (bands : Int64) (rows : Array (Row Nat)) (region : Nat) :
    Except String (Array (Row Nat)) :=
  (List.range bands.toNatClampNeg).foldlM (pushBand region) rows

/-- The rows of all regions, each with all its bands. -/
def generateRows (regions bands : UInt64) : Except String (Array (Row Nat)) := do
  reserve regions bands
  (List.range regions.toNat).foldlM (pushRegion bands.toInt64) #[]

/-! ## Tables -/

/-- The table of the generated rows. -/
def generateTable (regions bands : UInt64) : Logged (Except String (Table Nat)) :=
  match generateRows regions bands with
  | .ok rows => do
    let table ← Table.build (rateSchema .unique) {} rows.toList
    return expect "generated rows are disjoint" table
  | .error panic => return .error panic

end DecisionTable.Sample
