import ServiceDiscovery.Schedule.Environment
import ServiceDiscovery.Ticker

/-!
# Watches

A watch refreshes a client's registry at once and then again and again, until the client is shut
down. A refresh under way is not interrupted.

Main definitions:

- {lit}`Watch.begin`: a watch with a client's settings.
- {lit}`Watch.moves`: what it can do at present.
-/

namespace ServiceDiscovery

/-- Where a watch stands. -/
inductive Watch.Stage where
  | waiting
  /-- A refresh is under way. -/
  | refreshing (call : Call)
  | finished
  deriving DecidableEq, Repr

/-- A watch. -/
structure Watch where
  client : Nat
  root : String
  callTimeout : Duration
  ticker : Ticker
  stage : Watch.Stage
  deriving DecidableEq, Repr

namespace Watch

/-- The root's path, as the log shows it. -/
def path (w : Watch) : String :=
  "/" ++ w.root ++ "/"

/-- A watch with a client's settings, and the note on it. -/
def begin (env : Environment) (client : Nat) : Watch × Environment :=
  let c := env.config client
  let w : Watch :=
    { client
      root := c.root
      callTimeout := c.callTimeout
      ticker := .started env.time c.refreshInterval .delay
      stage := .waiting }
  (w,
    env.say
      [.info ("Starting watcher | root: " ++ w.path ++ " | interval: "
        ++ c.refreshInterval.text)])

/-- Stops. -/
def stop (w : Watch) (env : Environment) : Watch × Environment :=
  ({ w with stage := .finished }, env.say [.info ("Watcher for " ++ w.path ++ " stopped")])

/-- Begins a refresh. -/
def tick (w : Watch) (env : Environment) : Watch × Environment :=
  ({ w with
      ticker := w.ticker.take env.time
      stage := .refreshing (.started env.time (some (env.delays .get)) w.callTimeout) },
    env)

/-- The note on a refresh that is over. -/
def report (w : Watch) : Except Failure Nat → Note
  | .ok count =>
    .debug ("Watcher refreshed " ++ toString count ++ " entries under " ++ w.path)
  | .error failure => .warn ("Watcher refresh under " ++ w.path ++ " failed: " ++ failure.message)

/-- Ends a refresh. -/
def conclude (w : Watch) (call : Call) (env : Environment) : Watch × Environment :=
  let (result, env) :=
    if call.isAnswered then env.refresh w.client w.root
    else (.error (Call.timedOut Operation.get.label w.callTimeout), env)
  ({ w with stage := .waiting }, env.say [w.report result])

/-- Everything that the watch can do at present. When it is told to stop and a refresh is due,
either may come first. -/
def moves (w : Watch) (env : Environment) : List (Watch × Environment) :=
  match w.stage with
  | .finished => []
  | .refreshing call => if call.endsAt ≤ env.time then [w.conclude call env] else []
  | .waiting =>
    (if env.isRaised (.shutdown w.client) then [w.stop env] else [])
      ++ (if w.ticker.dueAt ≤ env.time then [w.tick env] else [])

/-- The millisecond at which the next step is possible, if nobody interferes. -/
def dueAt (w : Watch) : Option Nat :=
  match w.stage with
  | .finished => none
  | .refreshing call => some call.endsAt
  | .waiting => some w.ticker.dueAt

/-- A watch without a move waits for what lies ahead. -/
theorem time_lt_of_idle {w : Watch} {env : Environment} {due : Nat} (hidle : w.moves env = [])
    (hdue : w.dueAt = some due) : env.time < due := by
  unfold moves at hidle
  unfold dueAt at hdue
  refine Nat.lt_of_not_le fun hover => ?_
  cases hstage : w.stage with
  | finished =>
      rw [hstage] at hdue
      cases hdue
  | refreshing call =>
      rw [hstage] at hidle hdue
      simp only [Option.some.injEq] at hdue
      simp only [hdue, if_pos hover] at hidle
      cases hidle
  | waiting =>
      rw [hstage] at hidle hdue
      have htick := (List.append_eq_nil_iff.mp hidle).2
      rw [Option.some.inj hdue, if_pos hover] at htick
      cases htick

end Watch
end ServiceDiscovery
