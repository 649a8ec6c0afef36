import ServiceDiscovery.Json.Literal

/-!
# Numbers

Reading a number from raw bytes, after its minus sign if it has one. Integers that fit into 64 bits
stay exact; everything else becomes a binary64 number, which is made in two roundings: the digits
are gathered into a 64-bit significand for as long as they fit, and the significand is then
multiplied or divided by a power of ten.

Main definitions:

- {lit}`Json.Number`: what a number reads as.
- {lit}`Json.readNumber`: the number, and what follows it.
- {lit}`Json.skipNumber`: what follows a number of which only the form matters.

Main results:

- Theorems {lit}`Json.readNumber_length` and {lit}`Json.skipNumber_length`: both consume input.
-/

namespace ServiceDiscovery
namespace Json

/-- What a number reads as. -/
inductive Number where
  /-- An integer from -2 ^ 63 up to 2 ^ 64, the upper end excluded. -/
  | integer (value : Int)
  /-- Any other number, as binary64 bits. -/
  | decimal (bits : UInt64)
  deriving DecidableEq, Repr

/-- The byte is a decimal digit. -/
def isDigit (b : UInt8) : Bool := 0x30 ≤ b && b ≤ 0x39

/-- The value of a decimal digit. -/
def digit (b : UInt8) : Nat := b.toNat - 0x30

/-- The digits at the front, and what follows them. -/
def spanDigits (s : Bytes) : Bytes × Bytes :=
  (s.takeWhile isDigit, s.dropWhile isDigit)

/-- Gathers digits into a significand until one would carry it past 64 bits; gives the significand
and the digits that are left. -/
def absorb (significand : Nat) : Bytes → Nat × Bytes
  | [] => (significand, [])
  | d :: ds =>
    let next := significand * 10 + digit d
    if next < UInt64.size then absorb next ds else (significand, d :: ds)

/-- The number denoted by some digits. -/
def decimalValue (ds : Bytes) : Nat :=
  ds.foldl (fun n d => n * 10 + digit d) 0

/-! ## Binary64 values -/

/-- A binary64 number times a power of ten, with the exponents beyond 308 taken in strides. There
is no result when the product is too large. -/
def scale (x : Float) : Nat → Int → Option Float
  | 0, _ => some x
  | strides + 1, exponent =>
    if exponent.natAbs ≤ 308 then
      let power := Float.ofScientific 1 false exponent.natAbs
      if 0 ≤ exponent then
        let product := x * power
        if product.isInf then none else some product
      else some (x / power)
    else if x == 0 then some x
    else if 0 ≤ exponent then none
    else scale (x / Float.ofScientific 1 false 308) strides (exponent + 308)

/-- The number with a sign, a significand and a decimal exponent. Three strides turn any
significand into zero. -/
def ofParts (negative : Bool) (significand : Nat) (exponent : Int) : Except Fault Number :=
  match scale significand.toUInt64.toFloat 4 exponent with
  | none => .error .numberTooLarge
  | some x => .ok (.decimal (if negative then -x else x).toBits)

/-- The zero that is left when a negative exponent is too long to be read. -/
def vanished (negative : Bool) : Number :=
  .decimal (if negative then -0.0 else 0.0 : Float).toBits

/-! ## Reading -/

/-- Attaches what follows to a number. -/
def followedBy (rest : Bytes) : Except Fault Number → Read Number
  | .error e => .error e
  | .ok n => .ok (n, rest)

/-- The sign of an exponent, if it has one. -/
def exponentSign : Bytes → Bool × Bytes
  | b :: rest => if b = byte '+' then (false, rest) else if b = byte '-' then (true, rest)
    else (false, b :: rest)
  | [] => (false, [])

/-- Reads an exponent, after its letter. -/
def readExponent (negative : Bool) (significand : Nat) (exponent : Int) (s : Bytes) :
    Read Number :=
  let (down, rest) := exponentSign s
  match rest with
  | [] => .error .endInValue
  | b :: _ =>
    if !isDigit b then .error .badNumber
    else
      let (digits, rest) := spanDigits rest
      let value := decimalValue digits
      if value ≤ Int32.maxValue.toInt then
        let exponent := if down then exponent - (value : Int) else exponent + (value : Int)
        followedBy rest (ofParts negative significand exponent)
      else if significand ≠ 0 ∧ !down then .error .numberTooLarge
      else .ok (vanished negative, rest)

/-- Reads what may follow the digits of a number that is no integer. -/
def readScale (negative : Bool) (significand : Nat) (exponent : Int) : Bytes → Read Number
  | b :: rest =>
    if b = byte 'e' ∨ b = byte 'E' then readExponent negative significand exponent rest
    else followedBy (b :: rest) (ofParts negative significand exponent)
  | [] => followedBy [] (ofParts negative significand exponent)

/-- Reads a fraction, after its point. -/
def readFraction (negative : Bool) (significand : Nat) (exponent : Int) (s : Bytes) :
    Read Number :=
  let (digits, rest) := spanDigits s
  if digits.isEmpty then
    if rest.isEmpty then .error .endInValue else .error .badNumber
  else
    let (significand, left) := absorb significand digits
    readScale negative significand (exponent - ((digits.length - left.length : Nat) : Int)) rest

/-- The integer with a sign and a magnitude. A negative zero, and a magnitude that no signed 64-bit
integer has, become binary64 numbers. -/
def signed (negative : Bool) (magnitude : Nat) : Number :=
  if !negative then .integer magnitude
  else if 0 < magnitude ∧ Int64.minValue.toInt ≤ -magnitude then .integer (-magnitude)
  else .decimal (-magnitude.toUInt64.toFloat).toBits

/-- Reads what follows an integer part; `left` counts its digits that the significand could not
take. -/
def readPoint (negative : Bool) (significand left : Nat) : Bytes → Read Number
  | b :: rest =>
    if b = byte '.' then readFraction negative significand left rest
    else if left = 0 ∧ b ≠ byte 'e' ∧ b ≠ byte 'E' then
      .ok (signed negative significand, b :: rest)
    else readScale negative significand left (b :: rest)
  | [] =>
    if left = 0 then .ok (signed negative significand, [])
    else readScale negative significand left []

/-- Reads a number, after its minus sign if it has one. -/
def readNumber (negative : Bool) : Bytes → Read Number
  | [] => .error .endInValue
  | b :: rest =>
    if b = byte '0' then
      if (rest.head?.map isDigit).getD false then .error .badNumber
      else readPoint negative 0 0 rest
    else if isDigit b then
      let (digits, rest) := spanDigits rest
      let (significand, left) := absorb (digit b) digits
      readPoint negative significand left.length rest
    else .error .badNumber

/-! ## Skipping -/

/-- Passes an exponent, after its letter. -/
def skipExponent (s : Bytes) : Except Fault Bytes :=
  match (exponentSign s).2 with
  | b :: rest => if isDigit b then .ok (rest.dropWhile isDigit) else .error .badNumber
  | [] => .error .badNumber

/-- Passes an exponent, if there is one. -/
def skipScale : Bytes → Except Fault Bytes
  | b :: rest => if b = byte 'e' ∨ b = byte 'E' then skipExponent rest else .ok (b :: rest)
  | [] => .ok []

/-- Passes a fraction and an exponent, if there are any. -/
def skipPoint : Bytes → Except Fault Bytes
  | b :: rest =>
    if b = byte '.' then
      if (rest.head?.map isDigit).getD false then skipScale (rest.dropWhile isDigit)
      else .error .badNumber
    else skipScale (b :: rest)
  | [] => .ok []

/-- Passes a number, after its minus sign if it has one. -/
def skipNumber : Bytes → Except Fault Bytes
  | [] => .error .badNumber
  | b :: rest =>
    if b = byte '0' then
      if (rest.head?.map isDigit).getD false then .error .badNumber else skipPoint rest
    else if isDigit b then skipPoint (rest.dropWhile isDigit)
    else .error .badNumber

/-- The sign of an exponent adds nothing to the input. -/
theorem exponentSign_length (s : Bytes) : (exponentSign s).2.length ≤ s.length := by
  unfold exponentSign
  split
  · split
    · simp
    · split <;> simp
  · simp

theorem dropWhile_length_le (p : UInt8 → Bool) (s : Bytes) :
    (s.dropWhile p).length ≤ s.length :=
  (List.dropWhile_sublist p).length_le

/-- Skipping an exponent adds nothing to the input. -/
theorem skipExponent_length {s rest : Bytes} (h : skipExponent s = .ok rest) :
    rest.length ≤ s.length := by
  have hsign := exponentSign_length s
  unfold skipExponent at h
  split at h
  · rename_i b tail heq
    split at h
    · simp only [Except.ok.injEq] at h
      subst h
      have := dropWhile_length_le isDigit tail
      rw [heq, List.length_cons] at hsign
      omega
    · simp at h
  · simp at h

/-- Skipping an exponent, if there is one, adds nothing to the input. -/
theorem skipScale_length {s rest : Bytes} (h : skipScale s = .ok rest) :
    rest.length ≤ s.length := by
  unfold skipScale at h
  split at h
  · split at h
    · have := skipExponent_length h
      simp only [List.length_cons]
      omega
    · simp only [Except.ok.injEq] at h
      subst h
      exact Nat.le_refl _
  · simp only [Except.ok.injEq] at h
    subst h
    exact Nat.le_refl _

/-- Skipping a fraction, if there is one, adds nothing to the input. -/
theorem skipPoint_length {s rest : Bytes} (h : skipPoint s = .ok rest) :
    rest.length ≤ s.length := by
  unfold skipPoint at h
  split at h
  · rename_i b tail
    split at h
    · split at h
      · have := skipScale_length h
        have := dropWhile_length_le isDigit tail
        simp only [List.length_cons]
        omega
      · simp at h
    · exact skipScale_length h
  · simp only [Except.ok.injEq] at h
    subst h
    exact Nat.le_refl _

/-- Skipping a number consumes some input. -/
theorem skipNumber_length {s rest : Bytes} (h : skipNumber s = .ok rest) :
    rest.length < s.length := by
  unfold skipNumber at h
  split at h
  · simp at h
  · rename_i b tail
    simp only [List.length_cons]
    split at h
    · split at h
      · simp at h
      · have := skipPoint_length h
        omega
    · split at h
      · have := skipPoint_length h
        have := dropWhile_length_le isDigit tail
        omega
      · simp at h

/-! ## Reading consumes input -/

/-- Taking digits adds nothing to the input. -/
theorem spanDigits_length (s : Bytes) : (spanDigits s).2.length ≤ s.length :=
  dropWhile_length_le isDigit s

/-- A result that depends on what follows leaves that alone. -/
theorem rest_eq_of_followedBy {rest after : Bytes} {result : Except Fault Number} {n : Number}
    (h : followedBy rest result = .ok (n, after)) : after = rest := by
  cases result with
  | error e => simp [followedBy] at h
  | ok m =>
    simp only [followedBy, Except.ok.injEq, Prod.mk.injEq] at h
    exact h.2.symm

/-- Reading an exponent adds nothing to the input. -/
theorem readExponent_length {negative : Bool} {significand : Nat} {exponent : Int}
    {s rest : Bytes} {n : Number}
    (h : readExponent negative significand exponent s = .ok (n, rest)) :
    rest.length ≤ s.length := by
  have hsign := exponentSign_length s
  have hdigits := spanDigits_length (exponentSign s).2
  unfold readExponent at h
  simp only at h
  split at h
  · simp at h
  · split at h
    · simp at h
    · split at h
      · have := rest_eq_of_followedBy h
        subst this
        omega
      · split at h
        · simp at h
        · simp only [Except.ok.injEq, Prod.mk.injEq] at h
          obtain ⟨-, rfl⟩ := h
          omega

theorem readScale_length {negative : Bool} {significand : Nat} {exponent : Int}
    {s rest : Bytes} {n : Number}
    (h : readScale negative significand exponent s = .ok (n, rest)) :
    rest.length ≤ s.length := by
  unfold readScale at h
  split at h
  · split at h
    · have := readExponent_length h
      simp only [List.length_cons]
      omega
    · exact Nat.le_of_eq (congrArg List.length (rest_eq_of_followedBy h))
  · exact Nat.le_of_eq (congrArg List.length (rest_eq_of_followedBy h))

theorem readFraction_length {negative : Bool} {significand : Nat} {exponent : Int}
    {s rest : Bytes} {n : Number}
    (h : readFraction negative significand exponent s = .ok (n, rest)) :
    rest.length ≤ s.length := by
  have hdigits := spanDigits_length s
  unfold readFraction at h
  simp only at h
  split at h
  · split at h <;> simp at h
  · have := readScale_length h
    omega

theorem readPoint_length {negative : Bool} {significand left : Nat} {s rest : Bytes}
    {n : Number} (h : readPoint negative significand left s = .ok (n, rest)) :
    rest.length ≤ s.length := by
  unfold readPoint at h
  split at h
  · split at h
    · have := readFraction_length h
      simp only [List.length_cons]
      omega
    · split at h
      · simp only [Except.ok.injEq, Prod.mk.injEq] at h
        obtain ⟨-, rfl⟩ := h
        exact Nat.le_refl _
      · exact readScale_length h
  · split at h
    · simp only [Except.ok.injEq, Prod.mk.injEq] at h
      obtain ⟨-, rfl⟩ := h
      exact Nat.le_refl _
    · exact readScale_length h

/-- Reading a number consumes some input. -/
theorem readNumber_length {negative : Bool} {s rest : Bytes} {n : Number}
    (h : readNumber negative s = .ok (n, rest)) : rest.length < s.length := by
  unfold readNumber at h
  split at h
  · simp at h
  · rename_i b tail
    have hdigits := dropWhile_length_le isDigit tail
    simp only [List.length_cons]
    split at h
    · split at h
      · simp at h
      · have := readPoint_length h
        omega
    · split at h
      · have := readPoint_length h
        omega
      · simp at h

end Json
end ServiceDiscovery
