import ServiceDiscovery.Text.Quoted

/-!
# Shortest decimals

The text of a binary64 number: the fewest decimal digits that still round to it, the nearest of
those to the number itself. Everything is decided in exact arithmetic on natural numbers.

Main definitions:

- {lit}`Decimal.Binary`: the number's magnitude as an exact fraction, with its rounding interval.
- {lit}`Decimal.shortest`: the digits and their power of ten.
- {lit}`Decimal.text`: the digits laid out.
-/

namespace ServiceDiscovery
namespace Decimal

/-- A positive binary64 magnitude. In quarters of the unit {lit}`1 / denominator`, the number is
`value`, and the reals that round to it lie between `low` and `high`. -/
structure Binary where
  low : Nat
  value : Nat
  high : Nat
  denominator : Nat
  /-- The ends of the interval round to the number as well. -/
  closed : Bool

/-- The magnitude with the given 11 exponent bits and 52 fraction bits. -/
def Binary.ofFields (exponent fraction : Nat) : Binary :=
  let mantissa := if exponent = 0 then fraction else Nat.pow 2 52 + fraction
  let shift := max exponent 1
  let below := if fraction = 0 ∧ 1 < exponent then 1 else 2
  let up := Nat.pow 2 (shift - 1075)
  { low := (4 * mantissa - below) * up
    value := 4 * mantissa * up
    high := (4 * mantissa + 2) * up
    denominator := 4 * Nat.pow 2 (1075 - shift)
    closed := mantissa % 2 = 0 }

/-- The decimal `digits * 10 ^ power` lies in the rounding interval. -/
def Binary.holds (b : Binary) (digits : Nat) (power : Int) : Bool :=
  let point := digits * Nat.pow 10 power.toNat * b.denominator
  let unit := Nat.pow 10 (-power).toNat
  if b.closed then b.low * unit ≤ point && point ≤ b.high * unit
  else b.low * unit < point && point < b.high * unit

/-- The greatest number of units `10 ^ power` that does not exceed the magnitude. -/
def Binary.floor (b : Binary) (power : Int) : Nat :=
  b.value * Nat.pow 10 (-power).toNat / (b.denominator * Nat.pow 10 power.toNat)

/-- Of two neighbouring multiples of `10 ^ power`, the magnitude is nearer to the lower one; a
tie goes to the even one. -/
def Binary.nearerLow (b : Binary) (digits : Nat) (power : Int) : Bool :=
  let twice := 2 * b.value * Nat.pow 10 (-power).toNat
  let middle := (2 * digits + 1) * (b.denominator * Nat.pow 10 power.toNat)
  twice < middle || (twice = middle && digits % 2 = 0)

/-- The multiple of `10 ^ power` that stands for the magnitude, if either neighbour of it does. -/
def Binary.onGrid (b : Binary) (power : Int) : Option Nat :=
  let lower := b.floor power
  match b.holds lower power, b.holds (lower + 1) power with
  | true, true => some (if b.nearerLow lower power then lower else lower + 1)
  | true, false => some lower
  | false, true => some (lower + 1)
  | false, false => none

/-- The first hit on ever finer grids, starting at `10 ^ power`. -/
def Binary.search (b : Binary) : Nat → Int → Nat × Int
  | 0, power => (b.floor power, power)
  | steps + 1, power =>
    match b.onGrid power with
    | some digits => (digits, power)
    | none => b.search steps (power - 1)

/-- The exponent of the leading decimal digit of a magnitude, found from above. -/
def Binary.leading (b : Binary) : Nat → Int → Int
  | 0, power => power
  | steps + 1, power => if 0 < b.floor power then power else b.leading steps (power - 1)

/-- Moves trailing zeros of the digits into the power of ten. -/
def dropZeros : Nat → Nat → Int → Nat × Int
  | 0, digits, power => (digits, power)
  | steps + 1, digits, power =>
    if digits ≠ 0 ∧ digits % 10 = 0 then dropZeros steps (digits / 10) (power + 1)
    else (digits, power)

/-- The shortest decimal `digits * 10 ^ power` that rounds to the magnitude. -/
def shortest (b : Binary) : Nat × Int :=
  let found := b.search 20 (b.leading 700 309)
  dropZeros 20 found.1 found.2

/-! ## Layout -/

/-- The decimal exponents that are written without an exponent part. -/
def isPositional (exponent : Int) : Bool :=
  -5 ≤ exponent && exponent < 16

/-- The exponent part: a sign always, and no more digits than the exponent has. -/
def exponentText (exponent : Int) : String :=
  (if exponent < 0 then "e-" else "e+") ++ toString exponent.natAbs

/-- Digits and a power of ten, with a point and at least one decimal when positional. -/
def layout (digits : Nat) (power : Int) : String :=
  let ds := Nat.toDigits 10 digits
  let exponent := power + (ds.length - 1 : Nat)
  if isPositional exponent then
    if 0 ≤ power then String.ofList (ds ++ List.replicate power.toNat '0') ++ ".0"
    else if 0 ≤ exponent then
      let whole := exponent.toNat + 1
      String.ofList (ds.take whole) ++ "." ++ String.ofList (ds.drop whole)
    else
      "0." ++ String.ofList (List.replicate ((-exponent).toNat - 1) '0' ++ ds)
  else
    match ds with
    | [] => ""
    | [d] => d.toString ++ exponentText exponent
    | d :: rest => d.toString ++ "." ++ String.ofList rest ++ exponentText exponent

/-- The text of the binary64 number with the given bits. -/
def text (bits : UInt64) : String :=
  let n := bits.toNat
  let exponent := n / Nat.pow 2 52 % Nat.pow 2 11
  let fraction := n % Nat.pow 2 52
  let sign := if Nat.pow 2 63 ≤ n then "-" else ""
  if exponent = 2047 then
    if fraction = 0 then sign ++ "inf" else "NaN"
  else if exponent = 0 ∧ fraction = 0 then sign ++ "0.0"
  else
    let found := shortest (Binary.ofFields exponent fraction)
    sign ++ layout found.1 found.2

end Decimal
end ServiceDiscovery
