import ServiceDiscovery.Key

/-!
# Endpoints

The address of a store: a scheme, an authority, which holds the store's host, and a path. Only the
first fault is told of an address that is not well-formed.

Main definitions:

- {lit}`Endpoint`: a well-formed address.
- {lit}`Endpoint.Fault`: what can be wrong with one.
- {lit}`Endpoint.scheme?`: the scheme with which a text begins.
- {lit}`Endpoint.read`: reads what follows the scheme.
- {lit}`Endpoint.host`: the host, without credentials and port.
-/

namespace ServiceDiscovery

/-- The address of a store. -/
structure Endpoint where
  /-- The connection is encrypted. -/
  encrypted : Bool
  /-- What stands between the scheme and the path. -/
  authority : List Char
  deriving DecidableEq, Repr

namespace Endpoint

/-- What can be wrong with an address. -/
inductive Fault where
  /-- The address is too long. -/
  | length
  /-- Nothing follows the scheme. -/
  | empty
  /-- A character may not stand where it does. -/
  | character
  /-- The parts of the authority do not fit together. -/
  | authority
  /-- There is no authority. -/
  | format
  deriving DecidableEq, Repr

/-- The words for a fault. -/
def Fault.message : Fault → String
  | .length => "uri too long"
  | .empty => "empty string"
  | .character => "invalid uri character"
  | .authority => "invalid authority"
  | .format => "invalid format"

/-! ## Schemes -/

/-- The scheme of an address. -/
def scheme (encrypted : Bool) : String :=
  if encrypted then "https://" else "http://"

/-- The scheme with which a text begins, if there is one: whether it asks for encryption, and what
follows it. -/
def scheme? (text : String) : Option (Bool × String) :=
  ((Key.after? (scheme false) text).map fun rest => (false, String.ofList rest)).or
    ((Key.after? (scheme true) text).map fun rest => (true, String.ofList rest))

/-! ## Authorities -/

/-- What is known of an authority after its first few characters. -/
structure Scan where
  /-- The colons since the last credentials or bracketed address. -/
  colons : Nat := 0
  /-- A bracket was opened. -/
  opened : Bool := false
  /-- A bracket was closed. -/
  closed : Bool := false
  /-- There was a percent sign since the last credentials or bracketed address. -/
  escaped : Bool := false
  deriving DecidableEq, Repr

/-- The character ends an authority. -/
def endsAuthority (c : Char) : Bool :=
  c = '/' || c = '?' || c = '#'

/-- The character may stand in an authority and means nothing there. -/
def isPlainChar (c : Char) : Bool :=
  c.isAlphanum || "!$&'()*+,-.;=_~".toList.contains c

/-- The most colons in one part of an authority: as many as an address in brackets and a port could
hold together. -/
def maxColons : Nat := 8

/-- Takes note of one character of an authority. There may be one pair of brackets; what it holds,
and what stands before an at sign, is not looked into any further. -/
def Scan.next (s : Scan) (c : Char) : Except Fault Scan :=
  match c with
  | ':' => if s.colons < maxColons then .ok { s with colons := s.colons + 1 } else .error .authority
  | '[' => if s.opened || s.escaped then .error .authority else .ok { s with opened := true }
  | ']' =>
    if s.opened && !s.closed then
      .ok { s with closed := true, colons := 0, escaped := false }
    else .error .authority
  | '@' => .ok { s with colons := 0, escaped := false }
  | '%' => .ok { s with escaped := true }
  | c => if isPlainChar c then .ok s else .error .character

/-- The authority may end here: brackets are closed, there is at most a port, and no part of the
host is escaped. -/
def Scan.mayEnd (s : Scan) : Bool :=
  s.opened = s.closed && s.colons ≤ 1 && !s.escaped

/-- Checks an authority. -/
def checkAuthority (authority : List Char) : Except Fault Unit :=
  match authority.foldlM Scan.next {} with
  | .error fault => .error fault
  | .ok s =>
    if s.mayEnd && authority.getLast? ≠ some '@' then .ok () else .error .authority

/-! ## Paths -/

/-- The character may stand in a path. -/
def isPathChar (c : Char) : Bool :=
  ' ' < c && c ≠ '<' && c ≠ '>' && c ≠ '\x60'

/-- The character may stand in a query. -/
def isQueryChar (c : Char) : Bool :=
  ' ' < c && c ≠ '\x22' && c ≠ '<' && c ≠ '>'

/-- Checks a path and the query behind it; what follows a number sign may be anything. -/
def checkPath (path : List Char) : Except Fault Unit :=
  let path := path.takeWhile (· ≠ '#')
  let query := (path.dropWhile (· ≠ '?')).drop 1
  if (path.takeWhile (· ≠ '?')).all isPathChar && query.all isQueryChar then .ok ()
  else .error .character

/-! ## Addresses -/

/-- The most bytes that an address may take. -/
def maxBytes : Nat := 65534

/-- Reads what follows the scheme. -/
def read (encrypted : Bool) (rest : String) : Except Fault Endpoint :=
  if maxBytes < (scheme encrypted ++ rest).utf8ByteSize then .error .length
  else if rest.isEmpty then .error .empty
  else
    let authority := rest.toList.takeWhile fun c => !endsAuthority c
    match checkAuthority authority with
    | .error fault => .error fault
    | .ok () =>
      if authority.isEmpty then .error .format
      else
        match checkPath (rest.toList.dropWhile fun c => !endsAuthority c) with
        | .error fault => .error fault
        | .ok () => .ok ⟨encrypted, authority⟩

/-- What follows the last occurrence of a character, or everything if there is none. -/
def afterLast (c : Char) (text : List Char) : List Char :=
  (text.reverse.takeWhile (· ≠ c)).reverse

/-- The host: what is left of the authority without credentials and port. An address in brackets
keeps them. -/
def host (e : Endpoint) : List Char :=
  let place := afterLast '@' e.authority
  if place.head? = some '[' then place.takeWhile (· ≠ ']') ++ [']']
  else place.takeWhile (· ≠ ':')

end Endpoint
end ServiceDiscovery
