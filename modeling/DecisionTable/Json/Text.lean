/-!
# Strings in JSON text

The characters of a string between its quotes, written and read. Writing escapes the quote, the
backslash and the control characters below U+0020. Reading knows every escape of the format. An
escape by code may name half a surrogate pair; `joinHalves` puts two halves together and refuses one
that stands alone.
-/

namespace DecisionTable.Json

/-! ## Writing -/

/-- How one character stands inside a string. -/
def escapedChar (c : Char) : List Char :=
  if c = '"' then ['\\', '"']
  else if c = '\\' then ['\\', '\\']
  else if c = '\x08' then ['\\', 'b']
  else if c = '\t' then ['\\', 't']
  else if c = '\n' then ['\\', 'n']
  else if c = '\x0c' then ['\\', 'f']
  else if c = '\r' then ['\\', 'r']
  else if c.toNat < 0x20 then
    ['\\', 'u', '0', '0', Nat.digitChar (c.toNat / 16), Nat.digitChar (c.toNat % 16)]
  else [c]

/-- A string with its quotes. -/
def renderText (s : String) : List Char :=
  '"' :: s.toList.flatMap escapedChar ++ ['"']

/-! ## Reading -/

/-- What one step of reading a string yields: a character, or half of a surrogate pair. -/
inductive TextUnit where
  | char (c : Char)
  | half (code : Nat)
  deriving DecidableEq

/-- The value of a hexadecimal digit of either case. -/
def hexValue? (c : Char) : Option Nat :=
  if '0' ≤ c ∧ c ≤ '9' then some (c.toNat - '0'.toNat)
  else if 'a' ≤ c ∧ c ≤ 'f' then some (c.toNat - 'a'.toNat + 10)
  else if 'A' ≤ c ∧ c ≤ 'F' then some (c.toNat - 'A'.toNat + 10)
  else none

/-- The code that four hexadecimal digits name. -/
def hexCode? (a b c d : Char) : Option Nat := do
  return (((← hexValue? a) * 16 + (← hexValue? b)) * 16 + (← hexValue? c)) * 16 + (← hexValue? d)

/-- The unit that a code of at most four hexadecimal digits stands for. -/
def TextUnit.ofCode (code : Nat) : TextUnit :=
  if 0xd800 ≤ code ∧ code ≤ 0xdfff then .half code else .char (Char.ofNat code)

/-- The character that a letter after a backslash stands for. -/
def simpleEscape? : Char → Option Char
  | '"' => some '"'
  | '\\' => some '\\'
  | '/' => some '/'
  | 'b' => some '\x08'
  | 'f' => some '\x0c'
  | 'n' => some '\n'
  | 'r' => some '\r'
  | 't' => some '\t'
  | _ => none

/-- The units of a string, up to its closing quote, and what follows the quote. -/
def scanText : List Char → Option (List TextUnit × List Char)
  | [] => none
  | '"' :: rest => some ([], rest)
  | '\\' :: 'u' :: a :: b :: c :: d :: rest => do
    let code ← hexCode? a b c d
    let (units, rest) ← scanText rest
    return (.ofCode code :: units, rest)
  | '\\' :: escape :: rest => do
    let c ← simpleEscape? escape
    let (units, rest) ← scanText rest
    return (.char c :: units, rest)
  | c :: rest => do
    if c = '\\' ∨ c.toNat < 0x20 then none
    let (units, rest) ← scanText rest
    return (.char c :: units, rest)

/-- The characters that units stand for: a first half must be followed by a second one, and the two
name one character above U+FFFF. -/
def joinHalves : List TextUnit → Option (List Char)
  | [] => some []
  | .char c :: rest => (c :: ·) <$> joinHalves rest
  | .half first :: .half second :: rest =>
    if first < 0xdc00 ∧ 0xdc00 ≤ second then
      (Char.ofNat (0x10000 + (first - 0xd800) * 0x400 + (second - 0xdc00)) :: ·) <$> joinHalves rest
    else none
  | .half _ :: _ => none

end DecisionTable.Json
