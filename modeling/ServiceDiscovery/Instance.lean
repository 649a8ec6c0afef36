import ServiceDiscovery.Clock
import ServiceDiscovery.Descriptor
import ServiceDiscovery.Key

/-!
# Instances

An instance is a published description as a registry remembers it: under the key where it was
seen, with the time of the last sighting and the stamp of the last pick. A summary is the part of
it that a snapshot of all services shows.

Main definitions:

- {lit}`Instance.ofDescriptor`: an instance at its first sighting.
- {lit}`Instance.endpoint`: its address, with the transport in front of it for web services.
- {lit}`Summary`: address, source and display name, with a stored form of their own.
-/

namespace ServiceDiscovery

/-- A published description as a registry remembers it. -/
structure Instance where
  /-- The key under which it is published, which identifies it. -/
  key : String
  name : String
  displayName : String
  address : String
  interface : String
  protocol : String
  sourceIp : String
  /-- The stamp of its last pick; zero until it has been picked. -/
  pickStamp : UInt64
  /-- The clock's reading at its last sighting. -/
  activeAt : Reading
  deriving DecidableEq, Repr

namespace Instance

/-- An instance at its first sighting. Without a display name of its own it goes by the service's
name. -/
def ofDescriptor (key name : String) (d : Descriptor) (now : Reading) : Instance :=
  { key
    name
    displayName := if d.displayName.isEmpty then name else d.displayName
    address := d.address
    interface := d.interface
    protocol := d.protocol
    sourceIp := d.source
    pickStamp := 0
    activeAt := now }

/-- The address, with the transport in front of it for web services. -/
def endpoint (i : Instance) : String :=
  if Key.startsWith i.interface "http" then i.interface ++ "://" ++ i.address else i.address

end Instance

/-! ## Summaries -/

/-- The part of an instance that a snapshot shows. -/
structure Summary where
  address : String
  sourceIp : String
  displayName : String
  deriving DecidableEq, Repr

namespace Summary

/-- The summary of an instance. -/
def ofInstance (i : Instance) : Summary :=
  ⟨i.address, i.sourceIp, i.displayName⟩

/-- The fields of the stored form, in the order in which they are written. All are required. -/
def schema : Json.Schema where
  title := "struct ServiceSummary"
  fields := [("address", .text), ("sourceIp", .text), ("alias", .text)]
  required := true

/-- The stored form. -/
def toJson (s : Summary) : String :=
  Json.object
    [("address", Json.quote s.address), ("sourceIp", Json.quote s.sourceIp),
      ("alias", Json.quote s.displayName)]

/-- The summary that a record gives. -/
def ofRecord (record : Json.Record) : Summary :=
  let text (field : String) : String := (record.text? field).getD ""
  ⟨text "address", text "sourceIp", text "alias"⟩

/-- Reads the stored form. -/
def ofJson (stored : Bytes) : Except Json.Fault Summary :=
  (Json.readDocument schema stored).map ofRecord

end Summary
end ServiceDiscovery
