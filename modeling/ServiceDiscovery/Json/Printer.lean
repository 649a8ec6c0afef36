/-!
# Writing JSON

Objects and arrays without any space in them, and string literals in which only the characters
that have to be escaped are.

Main definitions:

- {lit}`Json.escape`: one character inside a literal.
- {lit}`Json.quote`: a string literal.
- {lit}`Json.object`, {lit}`Json.array`: members and items that are written already.
-/

namespace ServiceDiscovery
namespace Json

/-- A hexadecimal digit of a code below 256, in lower case. -/
def hexDigit (n : Nat) : Char :=
  Nat.digitChar (n % 16)

/-- One character inside a literal. Quotes, backslashes and control characters are escaped, the
latter by a letter where there is one. -/
def escape (c : Char) : List Char :=
  if c = '"' then ['\\', '"']
  else if c = '\\' then ['\\', '\\']
  else if c = '\x08' then ['\\', 'b']
  else if c = '\x0c' then ['\\', 'f']
  else if c = '\n' then ['\\', 'n']
  else if c = '\r' then ['\\', 'r']
  else if c = '\t' then ['\\', 't']
  else if c.toNat < 0x20 then
    ['\\', 'u', '0', '0', hexDigit (c.toNat / 16), hexDigit c.toNat]
  else [c]

/-- A string literal. -/
def quote (s : String) : String :=
  String.ofList ('"' :: s.toList.flatMap escape ++ ['"'])

/-- An integer literal. -/
def integer (n : Int64) : String :=
  toString n.toInt

/-- One member of an object, of which the value is written already. -/
def member (m : String × String) : String :=
  quote m.1 ++ ":" ++ m.2

/-- An object, of whose members the values are written already. -/
def object (members : List (String × String)) : String :=
  "\x7b" ++ ",".intercalate (members.map member) ++ "\x7d"

/-- An array of items that are written already. -/
def array (items : List String) : String :=
  "[" ++ ",".intercalate items ++ "]"

end Json
end ServiceDiscovery
