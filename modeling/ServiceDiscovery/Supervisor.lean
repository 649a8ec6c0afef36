import ServiceDiscovery.Duration
import ServiceDiscovery.Failure
import ServiceDiscovery.Log

/-!
# Supervision

A supervisor starts a registration again whenever it fails, after a rest that doubles from failure
to failure up to a minute. A lost lease tells that the instance was registered until then, so the
rest starts again at one second. A description that cannot be published is not tried again.

Main definitions:

- {lit}`Supervisor.rest`, {lit}`Supervisor.nextDue`: the rest after a failure, and the one due
  after the next.
- {lit}`Supervisor.judge`: what becomes of an attempt that is over.
-/

namespace ServiceDiscovery
namespace Supervisor

/-- The rest that is due after a first failure. -/
def firstRest : Duration := .ofSeconds 1

/-- No rest is longer. -/
def longestRest : Duration := .ofSeconds 60

/-- The rest after a failure, given the one that was due. -/
def rest (due : Duration) (failure : Failure) : Duration :=
  if failure.kind = .leaseLost then firstRest else due

/-- The rest that is due after the failure that follows a rest. -/
def nextDue (rest : Duration) : Duration :=
  rest.double.shorter longestRest

/-- What becomes of an attempt that is over. -/
inductive Decision where
  /-- There is nothing left to do. -/
  | stop
  /-- The description is at fault, and everything else has to stop as well. -/
  | reject (failure : Failure)
  /-- Another attempt follows after a rest. -/
  | retry (rest : Duration)
  deriving DecidableEq, Repr

/-- A note of the agent. -/
def note (level : Level) (text : String) : Note := ⟨.agent, level, text⟩

/-- What becomes of an attempt that is over, given the rest that was due, and what is said about
it. -/
def judge (name : String) (due : Duration) : Option Failure → Decision × List Note
  | none => (.stop, [note .info ("Registration of " ++ name ++ " stopped")])
  | some failure =>
    if failure.kind = .misconfigured then
      (.reject failure,
        [note .error ("Registration of " ++ name ++ " rejected: " ++ failure.message)])
    else
      let rest := rest due failure
      (.retry rest,
        [note .error ("Registration of " ++ name ++ " failed: " ++ failure.message),
          note .warn ("Retrying registration in " ++ toString rest.seconds
            ++ " seconds with exponential backoff")])

end Supervisor
end ServiceDiscovery
