import DynValue.Text.Hidden

/-!
# Quoted text

The debugging form of a text stands between double quotes. Quotes,
backslashes and the four commonest control characters are written with a
backslash, every other character without a visible form by its code point
in braces, and the rest as they are. An unescaped double quote therefore
ends the text, and an escape can be told from the characters it spells.
-/

namespace DynValue.Text

/-- A character by its code point: in braces, in hexadecimal. -/
def codePoint (c : Char) : List Char :=
  "\\u\x7b".toList ++ Nat.toDigits 16 c.toNat ++ "\x7d".toList

/-- **How one character is written inside quotes.** -/
def escapeChar (c : Char) : List Char :=
  if c = '\x00' then ['\\', '0']
  else if c = '\t' then ['\\', 't']
  else if c = '\n' then ['\\', 'n']
  else if c = '\r' then ['\\', 'r']
  else if c = '\\' then ['\\', '\\']
  else if c = '"' then ['\\', '"']
  else if isHidden c then codePoint c
  else [c]

/-- **The quoted form of a text.** -/
def quote (s : String) : String :=
  String.ofList ('"' :: s.toList.flatMap escapeChar ++ ['"'])

/-- The debugging form of an optional text. -/
def quoteOption : Option String → String
  | none => "None"
  | some s => "Some(" ++ quote s ++ ")"

end DynValue.Text
