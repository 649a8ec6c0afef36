import ServiceDiscovery.Duration

/-!
# Clocks

A clock shows the nanoseconds since the epoch in one 64-bit word. It either stands still until it
is moved, or runs along with the time that passes in a schedule.

Main definitions:

- {lit}`Reading`: what a clock shows.
- {lit}`Clock.read`: the reading after some milliseconds have passed.
- {lit}`Clock.advance`, {lit}`Clock.set`: moving the clock by hand.
-/

namespace ServiceDiscovery

/-- Nanoseconds since the epoch. -/
abbrev Reading := UInt64

/-- The whole seconds of a reading. -/
def Reading.seconds (r : Reading) : Int64 :=
  (r / 1000000000).toInt64

/-- A clock that has been running since some reading. -/
structure Clock where
  /-- What the clock showed when the schedule began, together with every later push. -/
  origin : Reading
  /-- Whether the clock moves on its own as time passes. -/
  runs : Bool
  deriving DecidableEq, Repr

namespace Clock

/-- A clock that only moves when it is told to. -/
def manual (start : Reading) : Clock := ⟨start, false⟩

/-- A clock that runs along with the schedule. -/
def running (start : Reading) : Clock := ⟨start, true⟩

/-- The reading once `millis` have passed. -/
def read (c : Clock) (millis : Nat) : Reading :=
  if c.runs then c.origin + (Duration.ofMillis millis).word else c.origin

/-- Pushes the clock forward; past the last reading it starts again at zero. -/
def advance (c : Clock) (amount : Duration) : Clock :=
  { c with origin := c.origin + amount.word }

/-- Puts a clock that stands still to a reading. -/
def set (c : Clock) (r : Reading) : Clock :=
  { c with origin := r }

end Clock
end ServiceDiscovery
