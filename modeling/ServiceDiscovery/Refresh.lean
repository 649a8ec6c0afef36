import ServiceDiscovery.Log
import ServiceDiscovery.Registry
import ServiceDiscovery.Store.Operation

/-!
# Refreshes

A refresh confirms in a registry what a scan of a root has found. A value that is no description
is passed over, and so is one that gives no name when its key gives none either. Nothing is ever
removed.

Main definitions:

- {lit}`Finding.ofEntry`: what a scanned entry turns out to be.
- {lit}`Registry.refresh`: confirms the findings of a scan.
-/

namespace ServiceDiscovery

/-- What a scanned entry turns out to be. -/
inductive Finding where
  /-- A description of the named service. -/
  | sighting (name : String) (d : Descriptor)
  /-- No description. -/
  | malformed (fault : Json.Fault)
  /-- A description of a service without a name. -/
  | nameless
  deriving DecidableEq, Repr

namespace Finding

/-- What an entry under a root turns out to be. The description's own name goes before the one in
the key. -/
def ofEntry (root key : String) (value : Bytes) : Finding :=
  match Descriptor.ofJson value with
  | .error fault => .malformed fault
  | .ok d =>
    if d.name.isEmpty then
      match Key.name? root key with
      | some name => .sighting name d
      | none => .nameless
    else .sighting d.name d

end Finding

/-- What a refresh leaves behind. -/
structure Refreshed where
  registry : Registry
  /-- How many entries were confirmed. -/
  confirmed : Nat
  notes : List Note

namespace Refreshed

/-- The note on an instance that was not known before. -/
def discovery (key name : String) (d : Descriptor) : Note :=
  .info ("Discovered instance | service: " ++ name ++ " | address: " ++ d.address ++ " | key: "
    ++ key)

/-- Confirms one scanned entry. -/
def confirm (root : String) (now : Reading) (so : Refreshed) (entry : String × Bytes) :
    Refreshed :=
  let key := entry.1
  match Finding.ofEntry root key entry.2 with
  | .malformed fault =>
    { so with
      notes := so.notes ++ [.debug ("Skipping malformed entry " ++ key ++ ": " ++ fault.message)] }
  | .nameless =>
    { so with
      notes := so.notes ++ [.debug ("Skipping entry " ++ key ++ " with no service name")] }
  | .sighting name d =>
    { registry := so.registry.observe now key name d
      confirmed := so.confirmed + 1
      notes :=
        if (so.registry.get? key).isSome then so.notes
        else so.notes ++ [discovery key name d] }

end Refreshed

/-- Confirms the findings of a scan of a root. -/
def Registry.refresh (r : Registry) (root : String) (now : Reading) (entries : Entries) :
    Refreshed :=
  entries.foldl (Refreshed.confirm root now) ⟨r, 0, []⟩

end ServiceDiscovery
