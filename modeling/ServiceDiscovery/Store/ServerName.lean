import ServiceDiscovery.Text.Pieces

/-!
# Server names

What the certificate of a store can be made out to: a domain, or an address of either kind.

Main definitions:

- {lit}`ServerName.isDomain`: labels with dots between them.
- {lit}`ServerName.isAddress4`: four octets with dots between them.
- {lit}`ServerName.isAddress6`: eight groups with colons between them.
- {lit}`ServerName.isValid`: any of the three.
-/

namespace ServiceDiscovery
namespace ServerName

/-! ## Domains -/

/-- A label: up to 63 letters, digits, underscores and hyphens, with no hyphen at either end. -/
def isLabel (label : List Char) : Bool :=
  label ≠ [] && label.length ≤ 63
    && label.all (fun c => c.isAlphanum || c = '_' || c = '-')
    && label.head? ≠ some '-' && label.getLast? ≠ some '-'

/-- The labels of a domain, where one dot at the end means nothing. -/
def labels (name : List Char) : List (List Char) :=
  let all := Text.pieces '.' name
  if 1 < all.length && all.getLast? = some [] then all.dropLast else all

/-- A domain: up to 253 characters in labels, of which the last one is more than a number. -/
def isDomain (name : List Char) : Bool :=
  name.length ≤ 253 && (labels name).all isLabel
    && (labels name).getLast?.any fun last => !last.all Char.isDigit

/-! ## Addresses -/

/-- The value of a row of decimal digits. -/
def decimal (digits : List Char) : Nat :=
  digits.foldl (fun n c => 10 * n + (c.toNat - '0'.toNat)) 0

/-- An octet: a number up to 255 without leading zeros. -/
def isOctet (digits : List Char) : Bool :=
  digits ≠ [] && digits.length ≤ 3 && digits.all Char.isDigit
    && (digits.length = 1 || digits.head? ≠ some '0') && decimal digits ≤ 255

/-- An address of four octets. -/
def isAddress4 (name : List Char) : Bool :=
  let octets := Text.pieces '.' name
  octets.length = 4 && octets.all isOctet

/-- A hexadecimal digit. -/
def isHexDigit (c : Char) : Bool :=
  c.isDigit || ('a' ≤ c && c ≤ 'f') || ('A' ≤ c && c ≤ 'F')

/-- A group: one to four hexadecimal digits. -/
def isGroup (group : List Char) : Bool :=
  group ≠ [] && group.length ≤ 4 && group.all isHexDigit

/-- How many groups there are, if all of them are; an address of four octets may stand for the last
two of them. -/
def groupCount? : List (List Char) → Option Nat
  | [] => some 0
  | [last] => if isGroup last then some 1 else if isAddress4 last then some 2 else none
  | group :: rest => if isGroup group then (groupCount? rest).map (· + 1) else none

/-- How many groups a text holds, with colons between them. -/
def groupsIn? (text : List Char) : Option Nat :=
  if text.isEmpty then some 0 else groupCount? (Text.pieces ':' text)

/-- What stands before and after the first two colons in a row. -/
def splitAtGap : List Char → Option (List Char × List Char)
  | [] => none
  | ':' :: ':' :: rest => some ([], rest)
  | c :: rest => (splitAtGap rest).map fun parts => (c :: parts.1, parts.2)

/-- An address of eight groups. Two colons in a row stand for one group or more, all zero; no octets
come before them. -/
def isAddress6 (name : List Char) : Bool :=
  match splitAtGap name with
  | none => groupsIn? name = some 8
  | some (front, back) =>
    !front.contains '.' &&
      match groupsIn? front, groupsIn? back with
      | some n, some m => n + m ≤ 7
      | _, _ => false

/-- A name to which a certificate can be made out. -/
def isValid (name : List Char) : Bool :=
  isDomain name || isAddress4 name || isAddress6 name

end ServerName
end ServiceDiscovery
