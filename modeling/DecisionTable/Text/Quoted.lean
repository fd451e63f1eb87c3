import DecisionTable.Text.Printable
import DecisionTable.Text.GraphemeExtend

/-!
# Quoted text

How a text is shown inside a diagnostic: between double quotes, with every character that would be
misread there written as an escape. Four characters have escapes of their own, the quote and the
backslash are preceded by a backslash, and what has no printed form, or would merge with the
character before it, is written by its code point.
-/

namespace DecisionTable.Text

/-- The escape that names a character by its code point, in lower-case hexadecimal. -/
def codePointEscape (c : Char) : List Char :=
  ['\\', 'u', '{'] ++ Nat.toDigits 16 c.toNat ++ ['}']

/-- How one character stands inside a quoted text. -/
def quotedChar (c : Char) : List Char :=
  if c = '\x00' then ['\\', '0']
  else if c = '\t' then ['\\', 't']
  else if c = '\r' then ['\\', 'r']
  else if c = '\n' then ['\\', 'n']
  else if c = '"' then ['\\', '"']
  else if c = '\\' then ['\\', '\\']
  else if extendsGrapheme c || !isPrintable c then codePointEscape c
  else [c]

/-- The characters of a quoted text, quotes included. -/
def quotedChars (s : List Char) : List Char :=
  '"' :: s.flatMap quotedChar ++ ['"']

/-- A text between double quotes, its special characters escaped. -/
def quoted (s : String) : String :=
  String.ofList (quotedChars s.toList)

end DecisionTable.Text
