import ServiceDiscovery.Schedule.Attempt
import ServiceDiscovery.Supervisor

/-!
# Supervision in time

A supervisor as a task: one registration attempt after another, with rests between them, until a
token stops it.

Main definitions:

- {lit}`Client.terms`: the terms of an attempt with a client's settings.
- {lit}`Supervision.moves`: what a supervisor can do at present.
-/

namespace ServiceDiscovery

/-- The terms of an attempt with a client's settings, which the client's shutdown ends, and
another signal too. -/
def Environment.terms (env : Environment) (client : Nat) (stop : Signal) : Terms :=
  let c := env.config client
  { client
    root := c.root
    leaseTtl := c.leaseTtl
    refreshInterval := c.refreshInterval
    callTimeout := c.callTimeout
    refreshes := true
    watched := .shutdown client
    relayed := some stop }

/-- Where a supervisor stands. -/
inductive Supervision.Stage where
  | trying (attempt : Attempt)
  /-- Rests until some millisecond. -/
  | resting (wakeAt : Nat)
  | finished (failure : Option Failure)

/-- A supervisor. -/
structure Supervision where
  client : Nat
  descriptor : Descriptor
  /-- The token that stops it. -/
  token : String
  /-- The rest that is due after the next failure. -/
  due : Duration
  stage : Supervision.Stage

namespace Supervision

/-- The signal that stops a supervisor. -/
def signal (s : Supervision) : Signal :=
  .token s.token

/-- The next attempt. -/
def attempt (s : Supervision) (env : Environment) : Attempt :=
  .unstarted (env.terms s.client s.signal) s.descriptor

/-- A supervisor at its first attempt. -/
def begin (env : Environment) (client : Nat) (d : Descriptor) (token : String) : Supervision :=
  let s : Supervision := ⟨client, d, token, Supervisor.firstRest, .finished none⟩
  { s with stage := .trying (s.attempt env) }

/-- Decides after an attempt. -/
def conclude (s : Supervision) (failure : Option Failure) (env : Environment) :
    Supervision × Environment :=
  let (decision, notes) := Supervisor.judge s.descriptor.name s.due failure
  let env := env.say notes
  match decision with
  | .stop => ({ s with stage := .finished none }, env)
  | .reject failure => ({ s with stage := .finished (some failure) }, env.raise s.signal)
  | .retry rest =>
    ({ s with
        due := Supervisor.nextDue rest
        stage := .resting (env.time + rest.ceilMillis) },
      env)

/-- Everything that the supervisor can do at present. When it is told to stop at the end of a
rest, either may come first. -/
def moves (s : Supervision) (env : Environment) : List (Supervision × Environment) :=
  match s.stage with
  | .finished _ => []
  | .trying a =>
    match a.outcome? with
    | some failure => [s.conclude failure env]
    | none => (a.moves env).map fun next => ({ s with stage := .trying next.1 }, next.2)
  | .resting wakeAt =>
    (if env.isRaised s.signal then [({ s with stage := .finished none }, env)] else [])
      ++ (if wakeAt ≤ env.time then [({ s with stage := .trying (s.attempt env) }, env)] else [])

/-- The millisecond at which the next step is possible, if nobody interferes. -/
def dueAt (s : Supervision) : Option Nat :=
  match s.stage with
  | .finished _ => none
  | .trying a => if a.outcome?.isSome then some 0 else a.dueAt
  | .resting wakeAt => some wakeAt

/-- A supervisor that tries and has no move waits for its attempt, which is not over. -/
theorem attempt_of_idle {s : Supervision} {a : Attempt} {env : Environment}
    (hstage : s.stage = .trying a) (hidle : s.moves env = []) :
    a.outcome? = none ∧ a.moves env = [] := by
  rw [moves, hstage] at hidle
  cases houtcome : a.outcome? with
  | some failure =>
      simp only [houtcome] at hidle
      cases hidle
  | none =>
      simp only [houtcome, List.map_eq_nil_iff] at hidle
      exact ⟨rfl, hidle⟩

/-- While the attempt of a supervisor is not over, it decides what is due. -/
theorem dueAt_of_trying {s : Supervision} {a : Attempt} (hstage : s.stage = .trying a)
    (hgoing : a.outcome? = none) : s.dueAt = a.dueAt := by
  rw [dueAt, hstage]
  simp [hgoing]

/-- A supervisor without a move waits for what lies ahead. -/
theorem time_lt_of_idle {s : Supervision} {env : Environment} {due : Nat}
    (hidle : s.moves env = []) (hdue : s.dueAt = some due) : env.time < due := by
  cases hstage : s.stage with
  | finished failure =>
      rw [dueAt, hstage] at hdue
      cases hdue
  | trying a =>
      obtain ⟨hgoing, hwaits⟩ := attempt_of_idle hstage hidle
      rw [dueAt_of_trying hstage hgoing] at hdue
      exact Attempt.time_lt_of_idle hwaits hdue
  | resting wakeAt =>
      rw [moves, hstage] at hidle
      rw [dueAt, hstage] at hdue
      rw [← Option.some.inj hdue]
      refine Nat.lt_of_not_le fun hover => ?_
      have hwake := (List.append_eq_nil_iff.mp hidle).2
      rw [if_pos hover] at hwake
      cases hwake

end Supervision
end ServiceDiscovery
