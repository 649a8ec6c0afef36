import ServiceDiscovery.Text.Blank
import ServiceDiscovery.Text.Combining
import ServiceDiscovery.Text.Unprintable

/-!
# Quoted text

How a diagnostic shows a text or a list of texts: between double quotes, with everything that a
reader could not see, or could take for something else, written as an escape.

Main definitions:

- {lit}`Text.isShown`: the character stands for itself.
- {lit}`Text.quoted`: one text between quotes.
- {lit}`Text.quotedList`: a bracketed list of quoted texts.
-/

namespace ServiceDiscovery
namespace Text

/-- The character stands for itself in a diagnostic: it has a glyph of its own. -/
def isShown (c : Char) : Bool :=
  let n := c.toNat
  if n < 0x7f then 0x20 ≤ n
  else !inRanges combiningRanges n && !inRanges unprintableRanges n

/-- The hexadecimal digits of a number, in lower case and without leading zeros. -/
def hex (n : Nat) : String :=
  String.ofList (Nat.toDigits 16 n)

/-- One character of a quoted text. -/
def quotedChar (c : Char) : String :=
  match c with
  | '\x00' => "\\0"
  | '\t' => "\\t"
  | '\r' => "\\r"
  | '\n' => "\\n"
  | '\\' => "\\\\"
  | '"' => "\\\""
  | _ => if isShown c then c.toString else "\\u\x7b" ++ hex c.toNat ++ "\x7d"

/-- A text between quotes. -/
def quoted (s : String) : String :=
  "\"" ++ String.join (s.toList.map quotedChar) ++ "\""

/-- A bracketed list of quoted texts. -/
def quotedList (items : List String) : String :=
  "[" ++ ", ".intercalate (items.map quoted) ++ "]"

end Text
end ServiceDiscovery
