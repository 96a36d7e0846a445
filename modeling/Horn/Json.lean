/-!
# JSON text

Strings, arrays and objects in compact JSON: no blanks, members in the order
given. Strings escape the double quote, the backslash and the characters below
the space, and hold everything else as it is.
-/

namespace Horn.Json

/-- How one character is written inside a string. Characters below the space that
have no letter of their own take four hexadecimal digits. -/
def escape (c : Char) : List Char :=
  if c = '"' then ['\\', '"']
  else if c = '\\' then ['\\', '\\']
  else if c = '\x08' then ['\\', 'b']
  else if c = '\x0c' then ['\\', 'f']
  else if c = '\n' then ['\\', 'n']
  else if c = '\r' then ['\\', 'r']
  else if c = '\t' then ['\\', 't']
  else if c < ' ' then
    ['\\', 'u', '0', '0', (c.toNat / 16).digitChar, (c.toNat % 16).digitChar]
  else [c]

/-- A JSON string. -/
def string (content : String) : String :=
  String.ofList ('"' :: content.toList.flatMap escape ++ ['"'])

/-- A JSON array of values that are JSON text already. -/
def array (values : List String) : String :=
  "[" ++ ",".intercalate values ++ "]"

/-- One member of an object: its key and its value, the value being JSON text
already. -/
def member (entry : String × String) : String :=
  string entry.1 ++ ":" ++ entry.2

/-- A JSON object. Keys that coincide are all written. -/
def object (members : List (String × String)) : String :=
  "\x7b" ++ ",".intercalate (members.map member) ++ "\x7d"

end Horn.Json
