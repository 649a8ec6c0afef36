import ServiceDiscovery.Failure
import ServiceDiscovery.Json.Printer
import ServiceDiscovery.Json.Record

/-!
# Descriptors

What a process publishes about itself: seven texts and two times, stored as a JSON object. Fields
that a stored description does not give are empty texts and zero times.

Main definitions:

- {lit}`Descriptor`: the published description.
- {lit}`Descriptor.address`: where to reach the service.
- {lit}`Descriptor.toJson`, {lit}`Descriptor.ofJson`: its stored form, written and read.
-/

namespace ServiceDiscovery

/-- What a process publishes about itself. -/
structure Descriptor where
  /-- The service's name. -/
  name : String
  ip : String
  /-- The port, or nothing if the service has none of its own. -/
  port : String
  /-- The name shown to people. -/
  displayName : String
  /-- The transport, such as http or tcp. -/
  interface : String
  /-- The encoding of the payload. -/
  protocol : String
  /-- The host that the description comes from. -/
  source : String
  /-- When the service connected, in seconds since the epoch. -/
  timeConnect : Int64
  /-- When the service was last active, in seconds since the epoch. -/
  timeActive : Int64
  deriving DecidableEq, Repr

namespace Descriptor

/-- A description in which nothing but the service's name and where it listens is given. -/
def ofAddress (name ip port : String) : Descriptor :=
  ⟨name, ip, port, "", "", "", "", 0, 0⟩

/-- The host with its port, or the bare host if there is no port. -/
def address (d : Descriptor) : String :=
  if d.port.isEmpty then d.ip else d.ip ++ ":" ++ d.port

/-! ## Stored form -/

/-- The fields of the stored form, in the order in which they are written. None is required. -/
def schema : Json.Schema where
  title := "struct ServiceDescriptor"
  fields :=
    [("ip", .text), ("port", .text), ("name", .text), ("alias", .text), ("INTFC", .text),
      ("protocol", .text), ("timeConnect", .integer), ("timeActive", .integer), ("source", .text)]
  required := false

/-- The stored form. -/
def toJson (d : Descriptor) : String :=
  Json.object
    [("ip", Json.quote d.ip), ("port", Json.quote d.port), ("name", Json.quote d.name),
      ("alias", Json.quote d.displayName), ("INTFC", Json.quote d.interface),
      ("protocol", Json.quote d.protocol), ("timeConnect", Json.integer d.timeConnect),
      ("timeActive", Json.integer d.timeActive), ("source", Json.quote d.source)]

/-- The description that a record gives. -/
def ofRecord (record : Json.Record) : Descriptor :=
  let text (field : String) : String := (record.text? field).getD ""
  let time (field : String) : Int64 := (record.integer? field).getD 0
  { name := text "name"
    ip := text "ip"
    port := text "port"
    displayName := text "alias"
    interface := text "INTFC"
    protocol := text "protocol"
    source := text "source"
    timeConnect := time "timeConnect"
    timeActive := time "timeActive" }

/-- Reads the stored form. -/
def ofJson (stored : Bytes) : Except Json.Fault Descriptor :=
  (Json.readDocument schema stored).map ofRecord

end Descriptor

/-- The failure of a stored value that cannot be read. -/
def Failure.ofFault (fault : Json.Fault) : Failure :=
  .malformed fault.message

end ServiceDiscovery
