import ServiceDiscovery.Duration

/-!
# Tickers

A ticker comes due once at its start and then after every period. Deadlines are exact to the
nanosecond, but time itself passes in whole milliseconds, so a tick is taken at the first
millisecond that is not before its deadline. When a tick is taken much too late, the ticker's
policy decides when the next one is due.

Main definitions:

- {lit}`Ticker.dueAt`: the millisecond at which the next tick can be taken.
- {lit}`Ticker.take`: the ticker once that tick has been taken.
-/

namespace ServiceDiscovery

/-- What happens to the ticks that a late one has missed. -/
inductive MissedTicks where
  /-- They are made up for, one right after the other. -/
  | burst
  /-- The period starts again at the late tick. -/
  | delay
  /-- They are left out; the next tick is due where one would have been anyway. -/
  | skip
  deriving DecidableEq, Repr

/-- A ticker. -/
structure Ticker where
  /-- The nanosecond at which the next tick is due. -/
  deadline : Nat
  /-- The nanoseconds between two ticks. -/
  period : Nat
  missed : MissedTicks
  deriving DecidableEq, Repr

namespace Ticker

/-- A ticker that comes due at once. -/
def started (time : Nat) (period : Duration) (missed : MissedTicks) : Ticker :=
  ⟨time * Duration.nanosPerMilli, period.nanos, missed⟩

/-- The millisecond at which the next tick can be taken. -/
def dueAt (t : Ticker) : Nat :=
  Duration.ceilMillis ⟨t.deadline⟩

/-- How many nanoseconds a tick may be late without counting as missed. -/
def tolerance : Nat := 5 * Duration.nanosPerMilli

/-- The deadline that follows a tick taken late. -/
def afterMissed (t : Ticker) (now : Nat) : Nat :=
  match t.missed with
  | .burst => t.deadline + t.period
  | .delay => now + t.period
  | .skip => now + t.period - (now - t.deadline) % t.period

/-- The ticker once the tick that is due has been taken at some millisecond. -/
def take (t : Ticker) (time : Nat) : Ticker :=
  let now := time * Duration.nanosPerMilli
  { t with
    deadline :=
      if t.deadline + tolerance < now then t.afterMissed now else t.deadline + t.period }

end Ticker
end ServiceDiscovery
