import ServiceDiscovery.Registration
import ServiceDiscovery.Schedule.Environment

/-!
# Registration attempts in time

A registration attempt as a task: its requests take time and are given up after a while, its
stream of acknowledgements and its ticker come due, and it is told to stop by a signal. While a
request is under way the attempt attends to nothing else. Otherwise a signal to stop goes before
an acknowledgement, and an acknowledgement before a refresh.

Main definitions:

- {lit}`Attempt`: an attempt and the terms under which it was made.
- {lit}`Attempt.advance`: its next step on its own, if there is one at present.
- {lit}`Attempt.relay`: passes a signal on that the registration itself does not watch.
- {lit}`Attempt.dueAt`: when the next step is possible, if nobody interferes.

Main results:

- Theorem {lit}`Attempt.time_lt_of_idle`: an attempt that has no move waits for what lies ahead.
-/

namespace ServiceDiscovery

/-- The terms of an attempt. -/
structure Terms where
  /-- The client whose registry is refreshed meanwhile. -/
  client : Nat
  root : String
  leaseTtl : Duration
  refreshInterval : Duration
  callTimeout : Duration
  /-- Whether anything is refreshed at all. -/
  refreshes : Bool
  /-- The signal that the registration watches. -/
  watched : Signal
  /-- Another signal, which has to be passed on to the registration. -/
  relayed : Option Signal

/-- A registration that is held: its acknowledgements and its refreshes. -/
structure Hold where
  acks : AckStream
  ticker : Ticker

/-- A registration under way. -/
structure Attempt.Progress where
  plan : Registration.Plan
  phase : Registration.Phase
  /-- The request under way. -/
  pending : Option (Request × Call)
  hold : Option Hold

/-- Where an attempt stands. -/
inductive Attempt.Stage where
  | unstarted (d : Descriptor)
  | running (p : Attempt.Progress)
  /-- It is over, with a failure or after a signal. -/
  | finished (failure : Option Failure)

/-- A registration attempt. -/
structure Attempt where
  terms : Terms
  /-- The other signal has been passed on. -/
  passedOn : Bool
  stage : Attempt.Stage

namespace Attempt

/-- An attempt that has not begun. -/
def unstarted (terms : Terms) (d : Descriptor) : Attempt :=
  ⟨terms, false, .unstarted d⟩

/-- The registration has been told to stop. -/
def isCancelled (a : Attempt) (env : Environment) : Bool :=
  a.passedOn || env.isRaised a.terms.watched

/-! ## Reactions -/

/-- Where a reaction leads: its notes are made, and its request is under way from now on. -/
def follow (terms : Terms) (plan : Registration.Plan) (hold : Option Hold)
    (r : Registration.Reaction) (env : Environment) : Stage × Environment :=
  let stage : Stage :=
    match r.phase with
    | .ended failure => .finished failure
    | phase =>
      let pending := r.request.map fun request =>
        (request, Call.started env.time (some (env.delays request.operation)) terms.callTimeout)
      .running { plan, phase, pending, hold }
  (stage, env.say r.notes)

/-- The event that a request under way leads to when it is given up. -/
def givenUp (failure : Failure) : Request → Registration.Event
  | .grant _ => .granted (.error failure)
  | .put .. => .published (.error failure)
  | .keepAlive _ => .opened (.error failure)
  | .scan _ => .refreshed (.error failure)
  | .revoke _ => .released (.error failure)

/-- Carries out a request: the event that it leads to, and the stream that it opens, if any. -/
def carryOut (terms : Terms) (env : Environment) :
    Request → (Registration.Event × Option AckStream) × Environment
  | .grant ttl =>
    let (lease, env) := env.grant ttl
    ((.granted lease, none), env)
  | .put key value lease =>
    let (done, env) := env.put key value lease
    ((.published done, none), env)
  | .keepAlive lease =>
    match env.keepAlive lease with
    | (.ok stream, env) => ((.opened (.ok ()), some stream), env)
    | (.error failure, env) => ((.opened (.error failure), none), env)
  | .scan start =>
    match env.scan start with
    | (.ok entries, env) =>
      ((.refreshed (.ok ()), none), (env.confirm terms.client terms.root entries).2)
    | (.error failure, env) => ((.refreshed (.error failure), none), env)
  | .revoke lease =>
    let (done, env) := env.revoke lease
    ((.released done, none), env)

/-- The hold of a registration whose stream has just been opened. -/
def held (terms : Terms) (time : Nat) (acks : AckStream) : Hold :=
  ⟨acks, .started time terms.refreshInterval .skip⟩

/-- Ends a request under way. -/
def conclude (terms : Terms) (p : Progress) (request : Request) (call : Call)
    (env : Environment) : Stage × Environment :=
  if call.isAnswered then
    let ((event, opened), env) := carryOut terms env request
    let hold := match opened with
      | some acks => some (held terms env.time acks)
      | none => p.hold
    follow terms p.plan hold (Registration.react p.plan p.phase event) env
  else
    let failure := Call.timedOut request.operation.label terms.callTimeout
    follow terms p.plan p.hold (Registration.react p.plan p.phase (givenUp failure request)) env

/-! ## Steps -/

/-- The first step: the description is prepared, and its key drawn. -/
def start (a : Attempt) (d : Descriptor) (env : Environment) : Stage × Environment :=
  let (unique, env) := env.draw
  match Registration.Plan.make env.localAddress env.now unique a.terms.root a.terms.leaseTtl d with
  | .error failure => (.finished (some failure), env)
  | .ok plan => follow a.terms plan none (Registration.begin plan (a.isCancelled env)) env

/-- The next step of a registration that is held. -/
def attend (a : Attempt) (p : Progress) (hold : Hold) (env : Environment) :
    Option (Stage × Environment) :=
  let react (hold : Hold) (event : Registration.Event) (env : Environment) :=
    follow a.terms p.plan (some hold) (Registration.react p.plan p.phase event) env
  if a.isCancelled env then some (react hold .cancelled env)
  else if hold.acks.isDue env.time then
    let ((item, acks), env) := env.takeAck hold.acks
    some (react { hold with acks } (.acknowledged item) env)
  else if a.terms.refreshes && hold.ticker.dueAt ≤ env.time then
    some (react { hold with ticker := hold.ticker.take env.time } .ticked env)
  else none

/-- The next step of the registration. -/
def nextStage (a : Attempt) (env : Environment) : Option (Stage × Environment) :=
  match a.stage with
  | .unstarted d => some (a.start d env)
  | .finished _ => none
  | .running p =>
    match p.pending, p.hold with
    | some (request, call), _ =>
      if call.endsAt ≤ env.time then some (conclude a.terms p request call env) else none
    | none, some hold => a.attend p hold env
    | none, none => none

/-- The next step on its own, if there is one at present. -/
def advance (a : Attempt) (env : Environment) : Option (Attempt × Environment) :=
  (a.nextStage env).map fun next => ({ a with stage := next.1 }, next.2)

/-- The attempt is over. -/
def outcome? (a : Attempt) : Option (Option Failure) :=
  match a.stage with
  | .finished failure => some failure
  | _ => none

/-- Passes the other signal on, if it was given. -/
def relay (a : Attempt) (env : Environment) : Option Attempt :=
  match a.terms.relayed with
  | some s =>
    if env.isRaised s && !a.passedOn && a.outcome?.isNone then some { a with passedOn := true }
    else none
  | none => none

/-- Everything that the attempt can do at present. Passing a signal on and the registration's own
next step may come in either order. -/
def moves (a : Attempt) (env : Environment) : List (Attempt × Environment) :=
  (a.advance env).toList ++ ((a.relay env).map fun a => (a, env)).toList

/-- The earlier of two moments, of which either may never come. -/
def earlier : Option Nat → Option Nat → Option Nat
  | some s, some t => some (min s t)
  | some s, none => some s
  | none, t => t

/-- The millisecond at which the next step is possible, if nobody interferes. -/
def dueAt (a : Attempt) : Option Nat :=
  match a.stage with
  | .unstarted _ => some 0
  | .finished _ => none
  | .running p =>
    match p.pending, p.hold with
    | some (_, call), _ => some call.endsAt
    | none, some hold =>
      earlier hold.acks.dueAt (if a.terms.refreshes then some hold.ticker.dueAt else none)
    | none, none => none

/-! ## Waiting -/

/-- The earlier of two moments lies ahead if both do. -/
theorem lt_of_earlier {time due : Nat} {s t : Option Nat} (hs : ∀ due, s = some due → time < due)
    (ht : ∀ due, t = some due → time < due) (h : earlier s t = some due) : time < due := by
  cases s with
  | none => exact ht due h
  | some first =>
      cases t with
      | none => exact hs due h
      | some second =>
          rw [← Option.some.inj h]
          exact Nat.lt_min.mpr ⟨hs first rfl, ht second rfl⟩

/-- An attempt without a move has no next step of its own either. -/
theorem nextStage_of_idle {a : Attempt} {env : Environment} (hidle : a.moves env = []) :
    a.nextStage env = none := by
  have hadvance : a.advance env = none :=
    Option.toList_eq_nil_iff.mp (List.append_eq_nil_iff.mp hidle).1
  exact Option.map_eq_none_iff.mp hadvance

/-- A registration that is held and has nothing to attend to waits for what lies ahead. -/
theorem time_lt_of_attend {a : Attempt} {p : Progress} {hold : Hold} {env : Environment}
    {due : Nat} (hidle : a.attend p hold env = none)
    (hdue : earlier hold.acks.dueAt (if a.terms.refreshes then some hold.ticker.dueAt else none) =
      some due) : env.time < due := by
  unfold attend at hidle
  split at hidle
  · cases hidle
  split at hidle
  · cases hidle
  rename_i hacks
  split at hidle
  · cases hidle
  rename_i hticker
  refine lt_of_earlier ?_ ?_ hdue
  · intro due hdue
    exact AckStream.time_lt_of_not_isDue (Bool.eq_false_iff.mpr hacks) hdue
  · intro due hdue
    obtain ⟨hrefreshes, hdue⟩ := Option.ite_none_right_eq_some.mp hdue
    rw [hrefreshes, Bool.true_and, Bool.not_eq_true, decide_eq_false_iff_not] at hticker
    rw [← Option.some.inj hdue]
    exact Nat.lt_of_not_le hticker

/-- An attempt without a move waits for what lies ahead: it is never stuck at its own moment. -/
theorem time_lt_of_idle {a : Attempt} {env : Environment} {due : Nat} (hidle : a.moves env = [])
    (hdue : a.dueAt = some due) : env.time < due := by
  have hnext := nextStage_of_idle hidle
  unfold nextStage at hnext
  unfold dueAt at hdue
  cases hstage : a.stage with
  | unstarted d =>
      rw [hstage] at hnext
      cases hnext
  | finished failure =>
      rw [hstage] at hdue
      cases hdue
  | running p =>
      rw [hstage] at hnext hdue
      obtain ⟨plan, phase, pending, hold⟩ := p
      cases pending with
      | some asked =>
          obtain ⟨request, call⟩ := asked
          rw [← Option.some.inj hdue]
          exact Nat.lt_of_not_le fun hover => by
            simp only [if_pos hover] at hnext
            cases hnext
      | none =>
          cases hold with
          | some hold => exact time_lt_of_attend hnext hdue
          | none => cases hdue

end Attempt
end ServiceDiscovery
