import ServiceDiscovery.Schedule.Queries
import ServiceDiscovery.Ticker

/-!
# Reports

A task that notes a snapshot of all services in the log, at once and then after every period,
until a token stops it.

Main definitions:

- {lit}`Report.moves`: what the task can do at present.
-/

namespace ServiceDiscovery

/-- A report that is repeated. -/
structure Report where
  client : Nat
  token : String
  ticker : Ticker
  finished : Bool
  deriving DecidableEq, Repr

namespace Report

/-- A report that is due at once. -/
def begin (env : Environment) (client : Nat) (token : String) (every : Duration) : Report :=
  ⟨client, token, .started env.time every .burst, false⟩

/-- Makes the report that is due. -/
def tick (r : Report) (env : Environment) : Report × Environment :=
  let (groups, env) := env.services r.client
  ({ r with ticker := r.ticker.take env.time },
    env.say [⟨.agent, .info, "Discovered services: " ++ Registry.snapshot groups⟩])

/-- Everything that the task can do at present. When it is told to stop and a report is due,
either may come first. -/
def moves (r : Report) (env : Environment) : List (Report × Environment) :=
  if r.finished then []
  else
    (if env.isRaised (.token r.token) then [({ r with finished := true }, env)] else [])
      ++ (if r.ticker.dueAt ≤ env.time then [r.tick env] else [])

/-- The millisecond at which the next step is possible, if nobody interferes. -/
def dueAt (r : Report) : Option Nat :=
  if r.finished then none else some r.ticker.dueAt

/-- A report without a move waits for what lies ahead. -/
theorem time_lt_of_idle {r : Report} {env : Environment} {due : Nat} (hidle : r.moves env = [])
    (hdue : r.dueAt = some due) : env.time < due := by
  obtain ⟨hgoing, hdue⟩ := Option.ite_none_left_eq_some.mp hdue
  rw [moves, if_neg hgoing] at hidle
  rw [← Option.some.inj hdue]
  refine Nat.lt_of_not_le fun hover => ?_
  have htick := (List.append_eq_nil_iff.mp hidle).2
  rw [if_pos hover] at htick
  cases htick

end Report
end ServiceDiscovery
