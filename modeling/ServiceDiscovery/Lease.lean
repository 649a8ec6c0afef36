import ServiceDiscovery.Clock
import ServiceDiscovery.Text.Quoted

/-!
# Leases

A lease keeps the keys bound to it alive until its deadline. Deadlines are clock readings, so a
span that does not fit into the clock's word wraps like the clock itself.

Main definitions:

- {lit}`LeaseId`, {lit}`LeaseAck`: a lease's name, and the acknowledgement of a renewal.
- {lit}`Lease.granted`: a lease granted or renewed at a reading.
- {lit}`Lease.lapsed`: the deadline has been reached.
- {lit}`Lease.renewalPeriod`: how often a lease of some length is renewed.
-/

namespace ServiceDiscovery

/-- The name that the store gave a lease. -/
structure LeaseId where
  id : Int64
  deriving DecidableEq, Repr

/-- A lease's name in hexadecimal; a negative one shows its 64 bits. -/
def LeaseId.text (lease : LeaseId) : String :=
  Text.hex lease.id.toUInt64.toNat

/-- The acknowledgement of a renewal. -/
structure LeaseAck where
  lease : LeaseId
  /-- Seconds left to live; none are left at zero and below. -/
  ttl : Int64
  deriving DecidableEq, Repr

/-- A lease held in a store. -/
structure Lease where
  /-- The seconds for which it was granted, and for which each renewal extends it. -/
  ttl : Int64
  /-- The reading from which on it is gone. -/
  deadline : Reading
  deriving DecidableEq, Repr

namespace Lease

/-- The span that a renewal adds, as clock nanoseconds. -/
def span (ttl : Int64) : UInt64 :=
  (Duration.ofSeconds ttl.toInt.toNat).word

/-- A lease granted, or renewed, at a reading. -/
def granted (ttl : Int64) (now : Reading) : Lease :=
  ⟨ttl, now + span ttl⟩

/-- The deadline has been reached. -/
def lapsed (lease : Lease) (now : Reading) : Bool :=
  lease.deadline ≤ now

/-- A third of the time to live in whole milliseconds, one at the least. -/
def renewalPeriod (ttl : Int64) : Duration :=
  Duration.ofMillis (max (ttl.toUInt64 * 1000 / 3) 1).toNat

end Lease
end ServiceDiscovery
