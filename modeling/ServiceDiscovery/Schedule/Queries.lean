import ServiceDiscovery.Schedule.Environment

/-!
# Queries through a client

The queries of a client's registry, at the clock's present reading. What a query forgets is noted
in the log.

Main definitions:

- {lit}`Environment.candidates`, {lit}`Environment.select`, {lit}`Environment.pick`,
  {lit}`Environment.services`: the queries.
- {lit}`Environment.reportDead`: forgets whatever is at an address.
-/

namespace ServiceDiscovery
namespace Environment

/-- The notes on instances that are forgotten because they are dead. -/
def evictionNotes (forgotten : List Instance) : List Note :=
  forgotten.map fun i =>
    .debug ("Evicted expired instance " ++ i.key ++ " | service: " ++ i.name ++ " | address: "
      ++ i.address)

/-- Answers a query of a client's registry about one service. -/
def query {α : Type} (env : Environment) (client : Nat) (name : String)
    (run : Registry → Reading → String → α × Registry) : α × Environment :=
  let r := env.registry client
  let (answer, kept) := run r env.now name
  (answer, (env.setRegistry client kept).say (evictionNotes (r.expired env.now name)))

/-- The instances of a service that count. -/
def candidates (env : Environment) (client : Nat) (name : String) :
    List Instance × Environment :=
  env.query client name Registry.candidates

/-- Picks an instance of a service. -/
def select (env : Environment) (client : Nat) (name : String) :
    Except Failure Instance × Environment :=
  env.query client name Registry.select

/-- Picks an instance of a service, for its address. -/
def pick (env : Environment) (client : Nat) (name : String) :
    Except Failure String × Environment :=
  env.query client name Registry.pick

/-- Picks an instance of a service, for its endpoint. -/
def pickEndpoint (env : Environment) (client : Nat) (name : String) :
    Except Failure String × Environment :=
  env.query client name Registry.pickEndpoint

/-- The addresses of the instances of a service. -/
def addresses (env : Environment) (client : Nat) (name : String) :
    List String × Environment :=
  env.query client name Registry.addresses

/-- All services with the summaries of their instances. -/
def services (env : Environment) (client : Nat) :
    List (String × List Summary) × Environment :=
  let r := env.registry client
  let (groups, kept) := r.services env.now
  (groups, (env.setRegistry client kept).say (evictionNotes (r.expiredAnywhere env.now)))

/-- A sighting that no refresh has made; tells whether it is the first one of its key. -/
def observe (env : Environment) (client : Nat) (key name : String) (d : Descriptor) :
    Bool × Environment :=
  let r := env.registry client
  ((r.get? key).isNone, env.setRegistry client (r.observe env.now key name d))

/-- Forgets whatever is at an address, and tells how much that was. -/
def reportDead (env : Environment) (client : Nat) (address : String) : Nat × Environment :=
  let (count, kept) := (env.registry client).reportDead address
  let env := env.setRegistry client kept
  if count = 0 then (count, env)
  else
    (count,
      env.say
        [.debug ("Dropped " ++ toString count ++ " instance(s) reported dead at " ++ address)])

end Environment
end ServiceDiscovery
