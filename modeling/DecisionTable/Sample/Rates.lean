import DecisionTable.TableFile
import DecisionTable.Table.Builder

/-!
# Rate tables

Tables that lead from a region and an amount to a rate: the reference table that serves as an
example everywhere, and tables made from the amount intervals of each region.

| region | amount   | payload |
|--------|----------|---------|
| A      | [0, 10)  | P1      |
| A      | [10, 20) | P2      |
| B      | [0, 100) | P3      |
-/

namespace DecisionTable.Sample

/-- An exact text column for the region and a bounded integer range column for the amount. -/
def rateSchema (policy : Policy) : Schema where
  columns := [(Column.exact "region").withType .text, (Column.range "amount").withType .integer]
  policy := policy

/-- A row of a rate table. -/
def rateRow {P : Type} (region : String) (amount : Interval) (payload : P) : Row P where
  keys := [.exact (.text region), .range amount]
  payload := some payload

/-- The interval between two integers. -/
def between (lower upper : Int64) : Interval :=
  ⟨some (.integer lower), some (.integer upper)⟩

/-- The rows of the reference table. -/
def scenarioRows : List (Row String) :=
  [rateRow "A" (between 0 10) "P1", rateRow "A" (between 10 20) "P2",
    rateRow "B" (between 0 100) "P3"]

/-- The reference table as it is built. -/
def scenarioTable : Logged (Except TableError (Table String)) :=
  Table.build (rateSchema .unique) {} scenarioRows

/-- The reference table as a file. -/
def scenarioFile : TableFile where
  schema := rateSchema .unique
  rows := scenarioRows

/-- The rows of some regions, in their order, one per amount interval; the payloads count up from
zero. -/
def rowsFromIntervals (regions : List (String × List Interval)) : List (Row Nat) :=
  (regions.flatMap fun (region, amounts) => amounts.map fun amount => (region, amount)).mapIdx
    fun index (region, amount) => rateRow region amount index

end DecisionTable.Sample
