import Horn.Text.Invisible

/-!
# Quoted text

A text between double quotes on one line. A double quote and a backslash are
written after a backslash, the common control characters as a backslash and a
letter, and any other invisible character by its code point, as in `\u{200b}`.
-/

namespace Horn.Text

/-- The code point of a character in lower-case hexadecimal digits. -/
def hexadecimal (c : Char) : List Char :=
  Nat.toDigits 16 c.toNat

namespace Quoted

/-- How one character is written inside quotes. -/
def escape (c : Char) : List Char :=
  if c = '"' then ['\\', '"']
  else if c = '\\' then ['\\', '\\']
  else if c = '\x00' then ['\\', '0']
  else if c = '\t' then ['\\', 't']
  else if c = '\n' then ['\\', 'n']
  else if c = '\r' then ['\\', 'r']
  else if isInvisible c then ['\\', 'u', '\x7b'] ++ hexadecimal c ++ ['\x7d']
  else [c]

end Quoted

/-- The text between double quotes, with escapes. -/
def quote (text : String) : String :=
  String.ofList ('"' :: text.toList.flatMap Quoted.escape ++ ['"'])

end Horn.Text
