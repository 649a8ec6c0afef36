import ServiceDiscovery.Duration
import ServiceDiscovery.Failure
import ServiceDiscovery.Instance

/-!
# Registries

A registry remembers which instances were seen and when. An instance that was not seen for the
length of the expiry window is dead; it stays in the registry until a query comes across it.
Picking takes the instance whose last pick is the longest ago, and stamps it.

Main definitions:

- {lit}`Registry.observe`: a sighting.
- {lit}`Registry.live`, {lit}`Registry.expired`: the instances of a service that count, and those
  that are dead.
- {lit}`Registry.candidates`, {lit}`Registry.select`, {lit}`Registry.services`: the queries.
- {lit}`Registry.reportDead`: forgets whatever is at an address.
-/

namespace ServiceDiscovery

/-- What was seen. -/
structure Registry where
  /-- The instances, one for each key. Their order means nothing. -/
  instances : List Instance
  /-- The length of the expiry window, as clock nanoseconds. -/
  window : UInt64
  /-- The last stamp that was handed out. -/
  lastStamp : UInt64
  deriving DecidableEq, Repr

namespace Registry

/-- A registry before the first sighting. -/
def empty (window : Duration) : Registry := ⟨[], window.word, 0⟩

/-- What is remembered under a key, dead or not. -/
def get? (r : Registry) (key : String) : Option Instance :=
  r.instances.find? fun i => i.key = key

/-- How many instances are remembered, dead ones among them. -/
def size (r : Registry) : Nat := r.instances.length

/-- The registry's shape, for diagnostics. -/
def summary (r : Registry) : String :=
  "InstanceRegistry \x7b instances: " ++ toString r.size ++ ", expiry_window_ns: "
    ++ toString r.window.toNat ++ " \x7d"

/-! ## Sightings -/

/-- The time since a sighting; none when the clock has been put back since. -/
def age (now : Reading) (i : Instance) : UInt64 :=
  if i.activeAt ≤ now then now - i.activeAt else 0

/-- The instance was not seen for the length of the expiry window. -/
def isDead (r : Registry) (now : Reading) (i : Instance) : Bool :=
  r.window ≤ age now i

/-- The instance was seen within the expiry window. -/
def isLive (r : Registry) (now : Reading) (i : Instance) : Bool :=
  !r.isDead now i

/-- A sighting. An instance under a known key is only seen again; it keeps what is remembered of
it. -/
def observe (r : Registry) (now : Reading) (key name : String) (d : Descriptor) : Registry :=
  if (r.get? key).isSome then
    { r with
      instances := r.instances.map fun i => if i.key = key then { i with activeAt := now } else i }
  else { r with instances := r.instances ++ [Instance.ofDescriptor key name d now] }

/-! ## Queries -/

/-- The instances of a service that count. -/
def live (r : Registry) (now : Reading) (name : String) : List Instance :=
  r.instances.filter fun i => i.name = name && r.isLive now i

/-- The instances of a service that are dead. -/
def expired (r : Registry) (now : Reading) (name : String) : List Instance :=
  r.instances.filter fun i => i.name = name && r.isDead now i

/-- Forgets the dead instances of a service. -/
def evict (r : Registry) (now : Reading) (name : String) : Registry :=
  { r with instances := r.instances.filter fun i => !(i.name = name && r.isDead now i) }

/-- The instances of a service that count; the dead ones are forgotten. -/
def candidates (r : Registry) (now : Reading) (name : String) : List Instance × Registry :=
  (r.live now name, r.evict now name)

/-- The addresses of the instances of a service; the dead ones are forgotten. -/
def addresses (r : Registry) (now : Reading) (name : String) : List String × Registry :=
  ((r.live now name).map (·.address), r.evict now name)

/-! ## Picking -/

/-- One more, but no more than the last word. -/
def successor (n : UInt64) : UInt64 :=
  if n = UInt64.ofNat (UInt64.size - 1) then n else n + 1

/-- The stamp of the next pick: later than every stamp before it, and not before the clock. -/
def nextStamp (r : Registry) (now : Reading) : UInt64 :=
  max (successor r.lastStamp) now

/-- The first of two instances is to be picked before the second: its last pick is longer ago, or
neither is and its key is smaller. -/
def precedes (i j : Instance) : Bool :=
  i.pickStamp < j.pickStamp || (i.pickStamp = j.pickStamp && i.key < j.key)

/-- The instance to be picked first. -/
def leastRecent : List Instance → Option Instance
  | [] => none
  | i :: rest =>
    match leastRecent rest with
    | none => some i
    | some j => if precedes j i then some j else some i

/-- The failure of a pick from nothing. -/
def unmatched (name : String) : Failure :=
  .notFound ("no matching server: " ++ name)

/-- Puts a stamp on the instance with a key. -/
def stamp (r : Registry) (key : String) (value : UInt64) : Registry :=
  { r with
    instances := r.instances.map fun i => if i.key = key then { i with pickStamp := value } else i
    lastStamp := value }

/-- Picks the instance of a service whose last pick is the longest ago. -/
def select (r : Registry) (now : Reading) (name : String) :
    Except Failure Instance × Registry :=
  let (found, kept) := r.candidates now name
  match leastRecent found with
  | none => (.error (unmatched name), kept)
  | some i =>
    let value := kept.nextStamp now
    (.ok { i with pickStamp := value }, kept.stamp i.key value)

/-- The address of the picked instance. -/
def pick (r : Registry) (now : Reading) (name : String) : Except Failure String × Registry :=
  let (picked, r) := r.select now name
  (picked.map (·.address), r)

/-- The endpoint of the picked instance. -/
def pickEndpoint (r : Registry) (now : Reading) (name : String) :
    Except Failure String × Registry :=
  let (picked, r) := r.select now name
  (picked.map (·.endpoint), r)

/-! ## Dead servers -/

/-- Forgets whatever is at an address, and tells how much that was. -/
def reportDead (r : Registry) (address : String) : Nat × Registry :=
  ((r.instances.filter fun i => i.address = address).length,
    { r with instances := r.instances.filter fun i => i.address ≠ address })

/-! ## Snapshots -/

/-- Puts a summary into its place in a list, behind those with the same address. -/
def insertSummary (s : Summary) : List Summary → List Summary
  | [] => [s]
  | t :: rest => if s.address < t.address then s :: t :: rest else t :: insertSummary s rest

/-- Adds a summary to the group of its name; groups are in increasing order of their names. -/
def addToGroup (name : String) (s : Summary) :
    List (String × List Summary) → List (String × List Summary)
  | [] => [(name, [s])]
  | (n, group) :: rest =>
    if name < n then (name, [s]) :: (n, group) :: rest
    else if name = n then (n, insertSummary s group) :: rest
    else (n, group) :: addToGroup name s rest

/-- Every instance of any service that counts. -/
def liveAnywhere (r : Registry) (now : Reading) : List Instance :=
  r.instances.filter (r.isLive now)

/-- The dead instances of all services. -/
def expiredAnywhere (r : Registry) (now : Reading) : List Instance :=
  r.instances.filter (r.isDead now)

/-- All services with the summaries of their instances, in increasing order of names and
addresses; the dead instances are forgotten. -/
def services (r : Registry) (now : Reading) : List (String × List Summary) × Registry :=
  ((r.liveAnywhere now).foldl (fun groups i => addToGroup i.name (.ofInstance i) groups) [],
    { r with instances := r.liveAnywhere now })

/-- A snapshot of all services as a JSON object. -/
def snapshot (groups : List (String × List Summary)) : String :=
  Json.object (groups.map fun g => (g.1, Json.array (g.2.map Summary.toJson)))

end Registry
end ServiceDiscovery
