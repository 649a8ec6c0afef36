/-!
# Durations

Spans of time in whole nanoseconds, the three roundings of them that the rest of the library
uses, and their text.

Main definitions:

- {lit}`Duration.word`: the span as one 64-bit word of nanoseconds; longer spans wrap.
- {lit}`Duration.ceilMillis`: the whole milliseconds that a timer needs to cover the span.
- {lit}`Duration.text`: the span in the largest unit that it fills.
-/

namespace ServiceDiscovery

/-- A span of time. -/
structure Duration where
  /-- Its length in nanoseconds. -/
  nanos : Nat
  deriving DecidableEq, Repr

namespace Duration

/-- Nanoseconds in a second. -/
def nanosPerSecond : Nat := 1000000000

/-- Nanoseconds in a millisecond. -/
def nanosPerMilli : Nat := 1000000

/-- A span of whole seconds. -/
def ofSeconds (n : Nat) : Duration := ⟨n * nanosPerSecond⟩

/-- A span of whole milliseconds. -/
def ofMillis (n : Nat) : Duration := ⟨n * nanosPerMilli⟩

/-- The whole seconds in the span. -/
def seconds (d : Duration) : Nat := d.nanos / nanosPerSecond

/-- The span in nanoseconds as a 64-bit word. A span of 2 ^ 64 nanoseconds or more wraps. -/
def word (d : Duration) : UInt64 := UInt64.ofNat d.nanos

/-- The least number of whole milliseconds that covers the span. -/
def ceilMillis (d : Duration) : Nat := (d.nanos + (nanosPerMilli - 1)) / nanosPerMilli

/-- Twice the span. -/
def double (d : Duration) : Duration := ⟨2 * d.nanos⟩

/-- The shorter of two spans. -/
def shorter (d e : Duration) : Duration := if d.nanos ≤ e.nanos then d else e

/-! ## Text -/

/-- A unit in which a span is written: its symbol, its length in nanoseconds, and the number of
decimal places that a nanosecond needs in it. -/
structure Scale where
  symbol : String
  nanos : Nat
  places : Nat

/-- The unit of a span: the largest one that the span fills, nanoseconds for none. -/
def scale (d : Duration) : Scale :=
  if nanosPerSecond ≤ d.nanos then ⟨"s", nanosPerSecond, 9⟩
  else if nanosPerMilli ≤ d.nanos then ⟨"ms", nanosPerMilli, 6⟩
  else if 1000 ≤ d.nanos then ⟨"µs", 1000, 3⟩
  else ⟨"ns", 1, 0⟩

/-- The decimal digits of a fraction below one, cut after the last digit that is not zero. -/
def fractionDigits (places : Nat) (n : Nat) : List Char :=
  let digits := Nat.toDigits 10 n
  let padded := List.replicate (places - digits.length) '0' ++ digits
  (padded.reverse.dropWhile (· = '0')).reverse

/-- The span in its unit, as a decimal without trailing zeros. -/
def text (d : Duration) : String :=
  let unit := d.scale
  let whole := toString (d.nanos / unit.nanos)
  match fractionDigits unit.places (d.nanos % unit.nanos) with
  | [] => whole ++ unit.symbol
  | digits => whole ++ "." ++ String.ofList digits ++ unit.symbol

end Duration
end ServiceDiscovery
