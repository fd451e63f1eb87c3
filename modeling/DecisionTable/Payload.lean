import DecisionTable.Text.Record

/-!
# Payloads

What the rows of a table lead to. Payloads are totally ordered, so that a set of them has one form,
and have a text by which a conflict names them.
-/

namespace DecisionTable

class Payload (P : Type) extends Ord P, Std.TransOrd P, Std.LawfulEqOrd P where
  /-- How a payload is shown in a diagnostic. -/
  display : P → String

instance : Payload String where
  display := Text.quoted

instance : Payload Int64 where
  display n := toString n.toInt

instance : Payload Nat where
  display n := toString n

instance : Payload (List String) where
  display items := Text.bracketed (items.map Text.quoted)

end DecisionTable
