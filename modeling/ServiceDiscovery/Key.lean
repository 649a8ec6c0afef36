import ServiceDiscovery.Uuid

/-!
# Keys

Every instance is published under its own key: a slash, the root, a slash, the service's name, a
slash, and the name once more with a unique identifier. Slashes around a root mean nothing.

Main definitions:

- {lit}`Key.normalizeRoot`: a root without the slashes around it.
- {lit}`Key.rootPrefix`: what every key under a root starts with.
- {lit}`Key.ofInstance`: the key of one instance.
- {lit}`Key.name?`: the service's name, read back from a key.
-/

namespace ServiceDiscovery
namespace Key

/-- What is left of a list once the front items that meet a test, and then the back ones, are
dropped. -/
def trim (p : Char → Bool) (cs : List Char) : List Char :=
  ((cs.dropWhile p).reverse.dropWhile p).reverse

/-- A root without the slashes around it. -/
def normalizeRoot (root : String) : String :=
  String.ofList (trim (· = '/') root.toList)

/-- What every key under a root starts with. -/
def rootPrefix (root : String) : String :=
  "/" ++ normalizeRoot root ++ "/"

/-- The key of one instance of a service. -/
def ofInstance (root name : String) (unique : Uuid) : String :=
  rootPrefix root ++ name ++ "/" ++ name ++ "_" ++ unique.text

/-- A text starts with another one. -/
def startsWith (s start : String) : Bool :=
  start.toList.isPrefixOf s.toList

/-- What follows a given start of a text. -/
def after? (start s : String) : Option (List Char) :=
  if startsWith s start then some (s.toList.drop start.length) else none

/-- The part of a text before its first slash, if there is one. -/
def segment? (cs : List Char) : Option (List Char) :=
  if cs.contains '/' then some (cs.takeWhile (· ≠ '/')) else none

/-- The service's name in a key under a root: the part that ends at the first slash after the
root's own, unless it is empty. -/
def name? (root key : String) : Option String :=
  match (after? (rootPrefix root) key).bind segment? with
  | none | some [] => none
  | some name => some (String.ofList name)

end Key
end ServiceDiscovery
