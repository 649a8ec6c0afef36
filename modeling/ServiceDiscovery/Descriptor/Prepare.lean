import ServiceDiscovery.Clock
import ServiceDiscovery.Descriptor
import ServiceDiscovery.Text.Blank

/-!
# Preparing a descriptor

What a description has to have before it is published, and what is filled in for its author.

Main definitions:

- {lit}`Descriptor.check`: the first reason why a description cannot be published.
- {lit}`Descriptor.complete`: the display name, the source and the times that were left open.
- {lit}`Descriptor.prepare`: both.
-/

namespace ServiceDiscovery
namespace Descriptor

/-- A description needs a name that is not blank and holds no slash, and an address that is not
blank. -/
def check (d : Descriptor) : Except Failure Unit :=
  if Text.isBlank d.name then .error (.misconfigured "service name is required")
  else if d.name.toList.contains '/' then
    .error (.misconfigured ("service name must not contain '/': " ++ d.name))
  else if Text.isBlank d.ip then
    .error (.misconfigured ("service address is required for " ++ d.name))
  else .ok ()

/-- Fills in what was left open: the service's name for the one on display, the local address for
the source, and the present second for both times. -/
def complete (localAddress : String) (now : Reading) (d : Descriptor) : Descriptor :=
  { d with
    displayName := if d.displayName.isEmpty then d.name else d.displayName
    source := if d.source.isEmpty then localAddress else d.source
    timeConnect := if d.timeConnect = 0 then now.seconds else d.timeConnect
    timeActive := if d.timeActive = 0 then now.seconds else d.timeActive }

/-- The description as it is published. -/
def prepare (localAddress : String) (now : Reading) (d : Descriptor) :
    Except Failure Descriptor :=
  match d.check with
  | .error failure => .error failure
  | .ok () => .ok (d.complete localAddress now)

end Descriptor
end ServiceDiscovery
