/-!
# Blank characters

The Unicode property White_Space, which decides whether a name or an address is blank.

Main definitions:

- {lit}`Text.isBlankChar`: the character has the property.
- {lit}`Text.isBlank`: every character of a text has it.
-/

namespace ServiceDiscovery
namespace Text

/-- The code points with the property White_Space, as closed intervals. -/
def blankRanges : List (Nat × Nat) :=
  [(0x09, 0x0d), (0x20, 0x20), (0x85, 0x85), (0xa0, 0xa0), (0x1680, 0x1680), (0x2000, 0x200a),
    (0x2028, 0x2029), (0x202f, 0x202f), (0x205f, 0x205f), (0x3000, 0x3000)]

/-- Membership of a code point in a list of closed intervals. -/
def inRanges (ranges : List (Nat × Nat)) (n : Nat) : Bool :=
  ranges.any fun r => r.1 ≤ n && n ≤ r.2

/-- The character is white space. -/
def isBlankChar (c : Char) : Bool :=
  inRanges blankRanges c.toNat

/-- Nothing is left of the text once white space is trimmed from its ends. -/
def isBlank (s : String) : Bool :=
  s.toList.all isBlankChar

end Text
end ServiceDiscovery
