import ServiceDiscovery.Duration
import ServiceDiscovery.Failure

/-!
# Bounded calls

A call to the store is carried out when its answer is ready, unless that takes longer than the
caller is willing to wait; then nothing is carried out at all. An answer that is ready at the very
end of the wait still counts.

Main definitions:

- {lit}`Call.started`: a call and the millisecond at which it is given up.
- {lit}`Call.endsAt`, {lit}`Call.isAnswered`: when and how it ends.
- {lit}`bounded`: the end of a call with a known answer.
-/

namespace ServiceDiscovery

/-- A call under way. -/
structure Call where
  /-- The millisecond at which the answer is ready; none if there will never be one. -/
  readyAt : Option Nat
  /-- The millisecond at which the caller gives up. -/
  givenUpAt : Nat
  deriving DecidableEq, Repr

namespace Call

/-- A call that starts now and whose answer takes some milliseconds. -/
def started (time : Nat) (delay : Option Nat) (timeout : Duration) : Call :=
  ⟨delay.map (time + ·), time + timeout.ceilMillis⟩

/-- The answer is ready before the caller has given up. -/
def isAnswered (c : Call) : Bool :=
  match c.readyAt with
  | some ready => ready ≤ c.givenUpAt
  | none => false

/-- The millisecond at which the call is over. -/
def endsAt (c : Call) : Nat :=
  match c.readyAt with
  | some ready => min ready c.givenUpAt
  | none => c.givenUpAt

/-- The failure of a call that was given up. -/
def timedOut (label : String) (timeout : Duration) : Failure :=
  .connection (label ++ " timed out after " ++ timeout.text)

end Call

/-- The end of a call with a known answer, and the milliseconds it takes to get there. -/
def bounded {α : Type} (timeout : Duration) (label : String) (delay : Option Nat)
    (answer : Except Failure α) : Except Failure α × Nat :=
  let call := Call.started 0 delay timeout
  (if call.isAnswered then answer else .error (Call.timedOut label timeout), call.endsAt)

end ServiceDiscovery
