import ServiceDiscovery.AckStream
import ServiceDiscovery.Call
import ServiceDiscovery.Config
import ServiceDiscovery.Refresh
import ServiceDiscovery.Store.Remote

/-!
# The environment of the tasks

Everything that tasks share: the time that has passed, the clock, the store and how long it takes
to answer, the clients with their registries, the signals that were given, and the log.

Main definitions:

- {lit}`Client`: settings and a registry.
- {lit}`Signal`: a request to stop.
- {lit}`Environment`: what is shared.
- {lit}`Environment.scan`, {lit}`Environment.put`, {lit}`Environment.grant`,
  {lit}`Environment.keepAlive`, {lit}`Environment.revoke`: requests to the store, carried out at
  once.
-/

namespace ServiceDiscovery

/-- A client: its settings, under a normalized root, and what it has seen. -/
structure Client where
  config : Config
  registry : Registry

/-- A client that has not seen anything. -/
def Client.ofConfig (config : Config) : Client :=
  ⟨config.withRoot config.root, .empty config.expiryWindow⟩

/-- A request to stop, which is never taken back. -/
inductive Signal where
  /-- Stops everything that a client does. -/
  | shutdown (client : Nat)
  /-- Stops what was started with this token. -/
  | token (name : String)
  deriving DecidableEq, Repr

/-- What tasks share. -/
structure Environment where
  /-- The milliseconds that have passed. -/
  time : Nat
  clock : Clock
  store : MemoryStore
  /-- Whether the store answers at all. -/
  reachable : Bool
  /-- The time between two renewals, if it does not follow from the lease. -/
  renewalPeriod : Option Duration
  /-- The milliseconds that the store takes for an operation. -/
  delays : Operation → Nat
  /-- What streams of acknowledgements give in place of renewals. -/
  script : Option (List ScriptedAck)
  clients : List Client
  /-- The signals that were given. -/
  raised : List Signal
  /-- The address of this host, as others see it. -/
  localAddress : String
  /-- The random bits of the next identifier. -/
  bits : Nat
  /-- The log, with the last entry in front. -/
  journal : List LogEntry

namespace Environment

/-- The environment at its beginning, with a clock and the settings of its clients. -/
def initial (clock : Clock) (configs : List Config) : Environment :=
  { time := 0
    clock
    store := .empty
    reachable := true
    renewalPeriod := none
    delays := fun _ => 0
    script := none
    clients := configs.map .ofConfig
    raised := []
    localAddress := ""
    bits := 0
    journal := [] }

/-- The clock's present reading. -/
def now (env : Environment) : Reading :=
  env.clock.read env.time

/-- Adds notes to the log. -/
def say (env : Environment) (notes : List Note) : Environment :=
  { env with journal := (notes.map fun n => ⟨env.time, n⟩).reverse ++ env.journal }

/-- Draws an identifier. -/
def draw (env : Environment) : Uuid × Environment :=
  (.random env.bits, { env with bits := env.bits + 1 })

/-- Gives a signal. -/
def raise (env : Environment) (s : Signal) : Environment :=
  { env with raised := s :: env.raised }

/-- A signal was given. -/
def isRaised (env : Environment) (s : Signal) : Bool :=
  env.raised.contains s

/-- A client's registry; an empty one if there is no such client. -/
def registry (env : Environment) (client : Nat) : Registry :=
  (env.clients[client]?.map (·.registry)).getD (.empty ⟨0⟩)

/-- A client's settings; the defaults if there is no such client. -/
def config (env : Environment) (client : Nat) : Config :=
  (env.clients[client]?.map (·.config)).getD {}

/-- Changes what a client has seen. -/
def setRegistry (env : Environment) (client : Nat) (r : Registry) : Environment :=
  { env with clients := env.clients.modify client fun c => { c with registry := r } }

/-- Changes the root under which a client works from now on. -/
def setRoot (env : Environment) (client : Nat) (root : String) : Environment :=
  { env with
    clients := env.clients.modify client fun c => { c with config := c.config.withRoot root } }

/-- Sets how long the store takes for an operation. -/
def setDelay (env : Environment) (op : Operation) (millis : Nat) : Environment :=
  { env with delays := fun o => if o = op then millis else env.delays o }

/-! ## Requests to the store -/

/-- Carries a request out on the store, or fails because nobody answers. -/
def ask {α : Type} (env : Environment) (request : Request)
    (run : MemoryStore → Except Failure α × MemoryStore) : Except Failure α × Environment :=
  if env.reachable then
    let (answer, store) := run env.store
    (answer, { env with store })
  else (.error (Remote.unanswered request), env)

/-- Everything under keys with a given start. -/
def scan (env : Environment) (start : String) : Except Failure Entries × Environment :=
  env.ask (.scan start) fun s => s.scan env.now start

/-- Writes a value, bound to a lease. -/
def put (env : Environment) (key : String) (value : Bytes) (lease : LeaseId) :
    Except Failure Unit × Environment :=
  env.ask (.put key value lease) fun s => s.putLeased env.now key value lease

/-- A new lease. -/
def grant (env : Environment) (ttl : Int64) : Except Failure LeaseId × Environment :=
  env.ask (.grant ttl) fun s => s.grant env.now ttl

/-- Gives a lease back. -/
def revoke (env : Environment) (lease : LeaseId) : Except Failure Unit × Environment :=
  env.ask (.revoke lease) fun s => s.revoke lease

/-- Opens a stream that renews a lease. -/
def openStream (env : Environment) (lease : LeaseId) : Except Failure AckStream × Environment :=
  let (renewal, env) := env.ask (.keepAlive lease) fun s => s.renew env.now lease
  (AckStream.opening env.time env.renewalPeriod lease renewal, env)

/-- Keeps a lease alive: by renewals, or as the script has it. -/
def keepAlive (env : Environment) (lease : LeaseId) : Except Failure AckStream × Environment :=
  match env.script with
  | some items => (.ok (.scripted lease env.time items), env)
  | none => env.openStream lease

/-- Takes the item that is due from a stream. -/
def takeAck (env : Environment) (stream : AckStream) : (AckItem × AckStream) × Environment :=
  let (taken, store) := stream.take env.time env.now env.store
  (taken, { env with store })

/-! ## Refreshes -/

/-- Confirms what a scan of a root has found in a client's registry, all at the present reading of
the clock, and tells how much that was. -/
def confirm (env : Environment) (client : Nat) (root : String) (entries : Entries) :
    Nat × Environment :=
  let so := (env.registry client).refresh root env.now entries
  (so.confirmed, (env.setRegistry client so.registry).say so.notes)

/-- Scans a root and confirms what is found there. The scan and all its sightings share one reading
of the clock: nothing is waited for between the answer of the store and the last sighting. -/
def refresh (env : Environment) (client : Nat) (root : String) :
    Except Failure Nat × Environment :=
  match env.scan (Key.rootPrefix root) with
  | (.error failure, env) => (.error failure, env)
  | (.ok entries, env) =>
    let (confirmed, env) := env.confirm client root entries
    (.ok confirmed, env)

end Environment
end ServiceDiscovery
