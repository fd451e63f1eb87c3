import DecisionTable.Text.Quoted

/-!
# Key values

A discrete key is a truth value, a 64-bit signed integer or a text. Keys are totally ordered: truth
values come before integers and integers before texts, and within a kind the order is the usual one,
texts by code point. Columns declare a `KeyType`, so keys of two kinds meet only in a column of type
`any`.
-/

namespace DecisionTable

inductive KeyValue where
  | bool (b : Bool)
  | integer (n : Int64)
  | text (s : String)
  deriving DecidableEq, Inhabited

inductive KeyType where
  | bool
  | integer
  | text
  | any
  deriving DecidableEq, Inhabited

/-! ## Order -/

namespace KeyValue

protected def compare : KeyValue → KeyValue → Ordering
  | .bool a, .bool b => compare a b
  | .bool _, _ => .lt
  | _, .bool _ => .gt
  | .integer a, .integer b => compare a b
  | .integer _, _ => .lt
  | _, .integer _ => .gt
  | .text a, .text b => compare a b

instance : Ord KeyValue := ⟨KeyValue.compare⟩
instance : LT KeyValue := ltOfOrd
instance : LE KeyValue := leOfOrd

theorem compare_refl : ∀ a : KeyValue, compare a a = .eq
  | .bool b => show compare b b = .eq from Std.ReflOrd.compare_self
  | .integer n => show compare n n = .eq from Std.ReflOrd.compare_self
  | .text s => show compare s s = .eq from Std.ReflOrd.compare_self

theorem eq_of_compare_eq : ∀ {a b : KeyValue}, compare a b = .eq → a = b
  | .bool a, .bool b, h =>
    congrArg bool (Std.LawfulEqOrd.eq_of_compare (show compare a b = .eq from h))
  | .integer a, .integer b, h =>
    congrArg integer (Std.LawfulEqOrd.eq_of_compare (show compare a b = .eq from h))
  | .text a, .text b, h =>
    congrArg text (Std.LawfulEqOrd.eq_of_compare (show compare a b = .eq from h))

theorem compare_swap : ∀ a b : KeyValue, compare a b = (compare b a).swap
  | .bool a, .bool b => show compare a b = (compare b a).swap from Std.OrientedOrd.eq_swap
  | .integer a, .integer b => show compare a b = (compare b a).swap from Std.OrientedOrd.eq_swap
  | .text a, .text b => show compare a b = (compare b a).swap from Std.OrientedOrd.eq_swap
  | .bool _, .integer _ | .bool _, .text _ | .integer _, .text _ => rfl
  | .integer _, .bool _ | .text _, .bool _ | .text _, .integer _ => rfl

theorem compare_isLE_trans : ∀ {a b c : KeyValue},
    (compare a b).isLE → (compare b c).isLE → (compare a c).isLE
  | .bool a, .bool b, .bool c, hab, hbc => show (compare a c).isLE from
    Std.TransOrd.isLE_trans (show (compare a b).isLE from hab) (show (compare b c).isLE from hbc)
  | .integer a, .integer b, .integer c, hab, hbc => show (compare a c).isLE from
    Std.TransOrd.isLE_trans (show (compare a b).isLE from hab) (show (compare b c).isLE from hbc)
  | .text a, .text b, .text c, hab, hbc => show (compare a c).isLE from
    Std.TransOrd.isLE_trans (show (compare a b).isLE from hab) (show (compare b c).isLE from hbc)
  | .bool _, _, .integer _, _, _ | .bool _, _, .text _, _, _ | .integer _, _, .text _, _, _ => rfl
  | .integer _, .integer _, .bool _, _, h | .text _, .text _, .integer _, _, h
  | .text _, .text _, .bool _, _, h | .text _, .integer _, .bool _, _, h => nomatch h
  | .integer _, .bool _, _, h, _ | .text _, .bool _, _, h, _ | .text _, .integer _, _, h, _ =>
    nomatch h
  | .integer _, .text _, .bool _, _, h => nomatch h
  | .bool _, .integer _, .bool _, _, h | .bool _, .text _, .bool _, _, h => nomatch h
  | .integer _, .text _, .integer _, _, h => nomatch h

instance : Std.LawfulEqOrd KeyValue where
  compare_self := compare_refl _
  eq_of_compare := eq_of_compare_eq

instance : Std.TransOrd KeyValue where
  eq_swap := compare_swap _ _
  isLE_trans := compare_isLE_trans

/-! ## Types and text -/

/-- The type of a value. -/
def keyType : KeyValue → KeyType
  | .bool _ => .bool
  | .integer _ => .integer
  | .text _ => .text

/-- How a key is shown in a diagnostic; texts stand in quotes. -/
def display : KeyValue → String
  | .bool b => toString b
  | .integer n => toString n.toInt
  | .text s => Text.quoted s

end KeyValue

namespace KeyType

/-- Whether a column of this type may hold the value. -/
def accepts (type : KeyType) (value : KeyValue) : Bool :=
  type == .any || type == value.keyType

def name : KeyType → String
  | .bool => "bool"
  | .integer => "integer"
  | .text => "text"
  | .any => "any"

/-- The types by which a column may be declared. -/
def all : List KeyType := [.bool, .integer, .text, .any]

end KeyType

end DecisionTable
