import ServiceDiscovery.Json.Fault
import ServiceDiscovery.Text.Utf8

/-!
# String literals

Reading a string literal from raw bytes, after its opening quote, in two ways: into the text that
it stands for, or only past it. The second way checks no more than the form of the escapes.

Main definitions:

- {lit}`Json.readText`: the text of a literal, and what follows it.
- {lit}`Json.skipText`: what follows a literal.

Main results:

- Theorems {lit}`Json.readRaw_length` and {lit}`Json.skipText_length`: reading consumes input.
-/

namespace ServiceDiscovery
namespace Json

/-- The result of reading from the front of some bytes: a value and the bytes that follow it. -/
abbrev Read (α : Type) := Except Fault (α × Bytes)

/-- A byte written as an ASCII character. -/
def byte (c : Char) : UInt8 := c.toNat.toUInt8

/-- The byte may stand between the parts of a text. -/
def isSpace (b : UInt8) : Bool :=
  b = 0x20 || b = 0x09 || b = 0x0a || b = 0x0d

/-- The bytes from the first one on that is no space. -/
def skipSpace (s : Bytes) : Bytes :=
  s.dropWhile isSpace

/-- The value of a hexadecimal digit. -/
def hexValue? (b : UInt8) : Option Nat :=
  if 0x30 ≤ b ∧ b ≤ 0x39 then some (b.toNat - 0x30)
  else if 0x41 ≤ b ∧ b ≤ 0x46 then some (b.toNat - 0x41 + 10)
  else if 0x61 ≤ b ∧ b ≤ 0x66 then some (b.toNat - 0x61 + 10)
  else none

/-- Reads four hexadecimal digits. -/
def readHex : Bytes → Read Nat
  | a :: b :: c :: d :: rest =>
    match hexValue? a, hexValue? b, hexValue? c, hexValue? d with
    | some a, some b, some c, some d => .ok (((a * 16 + b) * 16 + c) * 16 + d, rest)
    | _, _, _, _ => .error .badEscape
  | _ => .error .endInString

/-- What an escape of one character stands for. -/
def shortEscape? (b : UInt8) : Option UInt8 :=
  if b = 0x22 ∨ b = 0x5c ∨ b = 0x2f then some b
  else if b = byte 'b' then some 0x08
  else if b = byte 'f' then some 0x0c
  else if b = byte 'n' then some 0x0a
  else if b = byte 'r' then some 0x0d
  else if b = byte 't' then some 0x09
  else none

/-- The code unit is the first half of a surrogate pair. -/
def isHighSurrogate (n : Nat) : Bool := 0xd800 ≤ n && n ≤ 0xdbff

/-- The code unit is the second half of a surrogate pair. -/
def isLowSurrogate (n : Nat) : Bool := 0xdc00 ≤ n && n ≤ 0xdfff

/-- Reads the second half of a surrogate pair, which has to be an escape as well. -/
def readSecondHalf (first : Nat) : Bytes → Read Bytes
  | [] | [0x5c] => .error .endInString
  | 0x5c :: 0x75 :: rest =>
    match readHex rest with
    | .error e => .error e
    | .ok (second, rest) =>
      if isLowSurrogate second then
        let point := (first - 0xd800) * 0x400 + (second - 0xdc00) + 0x10000
        .ok (String.utf8EncodeChar (Char.ofNat point), rest)
      else .error .loneSurrogate
  | _ => .error .unfinishedSurrogatePair

/-- Reads the rest of a numeric escape into the bytes of its character. -/
def readNumericEscape (s : Bytes) : Read Bytes :=
  match readHex s with
  | .error e => .error e
  | .ok (unit, rest) =>
    if isLowSurrogate unit then .error .loneSurrogate
    else if isHighSurrogate unit then readSecondHalf unit rest
    else .ok (String.utf8EncodeChar (Char.ofNat unit), rest)

/-- Reads an escape, after its backslash, into the bytes that it stands for. -/
def readEscape : Bytes → Read Bytes
  | [] => .error .endInString
  | b :: rest =>
    match shortEscape? b with
    | some value => .ok ([value], rest)
    | none => if b = byte 'u' then readNumericEscape rest else .error .badEscape

/-- Four hexadecimal digits are consumed. -/
theorem readHex_length {s rest : Bytes} {n : Nat} (h : readHex s = .ok (n, rest)) :
    rest.length < s.length := by
  unfold readHex at h
  split at h
  · split at h
    · simp only [Except.ok.injEq, Prod.mk.injEq] at h
      obtain ⟨-, rfl⟩ := h
      simp only [List.length_cons]
      omega
    · simp at h
  · simp at h

theorem readSecondHalf_length {s rest bytes : Bytes} {first : Nat}
    (h : readSecondHalf first s = .ok (bytes, rest)) : rest.length < s.length := by
  unfold readSecondHalf at h
  split at h
  · simp at h
  · simp at h
  · split at h
    · simp at h
    · rename_i hsecond
      have hlen := readHex_length hsecond
      split at h
      · simp only [Except.ok.injEq, Prod.mk.injEq] at h
        obtain ⟨-, rfl⟩ := h
        simp only [List.length_cons]
        omega
      · simp at h
  · simp at h

/-- Reading a numeric escape consumes some input, whether it has one half or two. -/
theorem readNumericEscape_length {s rest bytes : Bytes}
    (h : readNumericEscape s = .ok (bytes, rest)) : rest.length < s.length := by
  unfold readNumericEscape at h
  split at h
  · simp at h
  · rename_i hfirst
    have hlen := readHex_length hfirst
    split at h
    · simp at h
    · split at h
      · have := readSecondHalf_length h
        omega
      · simp only [Except.ok.injEq, Prod.mk.injEq] at h
        obtain ⟨-, rfl⟩ := h
        exact hlen

/-- Reading an escape consumes some input. -/
theorem readEscape_length {s rest bytes : Bytes} (h : readEscape s = .ok (bytes, rest)) :
    rest.length < s.length := by
  unfold readEscape at h
  split at h
  · simp at h
  · split at h
    · simp only [Except.ok.injEq, Prod.mk.injEq] at h
      obtain ⟨-, rfl⟩ := h
      simp
    · split at h
      · have := readNumericEscape_length h
        simp only [List.length_cons]
        omega
      · simp at h

/-- Reads a literal into the raw bytes that it stands for. -/
def readRaw (s : Bytes) : Read Bytes :=
  match s with
  | [] => .error .endInString
  | b :: rest =>
    if b = 0x22 then .ok ([], rest)
    else if b = 0x5c then
      match h : readEscape rest with
      | .error e => .error e
      | .ok (bytes, after) =>
        have := readEscape_length h
        (readRaw after).map fun r => (bytes ++ r.1, r.2)
    else if b < 0x20 then .error .controlCharacter
    else (readRaw rest).map fun r => (b :: r.1, r.2)
termination_by s.length
decreasing_by
  all_goals simp only [List.length_cons]; omega

/-- Reads a literal into its text. Its bytes are checked once the whole literal has been read. -/
def readText (s : Bytes) : Read String :=
  match readRaw s with
  | .error e => .error e
  | .ok (raw, rest) =>
    match Text.ofUtf8? raw with
    | some text => .ok (text, rest)
    | none => .error .notUtf8

/-- Reading the inside of a string literal consumes its closing quote at least. -/
theorem readRaw_length {s rest bytes : Bytes} (h : readRaw s = .ok (bytes, rest)) :
    rest.length < s.length := by
  fun_induction readRaw s generalizing bytes rest with
  | case1 => simp at h
  | case2 =>
    simp only [Except.ok.injEq, Prod.mk.injEq] at h
    obtain ⟨-, rfl⟩ := h
    simp
  | case3 => simp at h
  | case4 s' _ after _ hlen _ ih =>
    cases hr : readRaw after with
    | error e => simp [hr, Except.map] at h
    | ok r =>
      simp only [hr, Except.map, Except.ok.injEq, Prod.mk.injEq] at h
      obtain ⟨-, rfl⟩ := h
      have := ih hr
      simp only [List.length_cons]
      omega
  | case5 => simp at h
  | case6 b rest' _ _ _ ih =>
    cases hr : readRaw rest' with
    | error e => simp [hr, Except.map] at h
    | ok r =>
      simp only [hr, Except.map, Except.ok.injEq, Prod.mk.injEq] at h
      obtain ⟨-, rfl⟩ := h
      have := ih hr
      simp only [List.length_cons]
      omega

/-- Reading a text consumes its closing quote at least. -/
theorem readText_length {s rest : Bytes} {text : String} (h : readText s = .ok (text, rest)) :
    rest.length < s.length := by
  unfold readText at h
  split at h
  · simp at h
  · rename_i hr
    split at h
    · simp only [Except.ok.injEq, Prod.mk.injEq] at h
      obtain ⟨-, rfl⟩ := h
      exact readRaw_length hr
    · simp at h

/-! ## Skipping -/

/-- Passes an escape, after its backslash. Any four digits will do in a numeric one. -/
def skipEscape : Bytes → Except Fault Bytes
  | [] => .error .endInString
  | b :: rest =>
    match shortEscape? b with
    | some _ => .ok rest
    | none => if b = byte 'u' then (readHex rest).map (·.2) else .error .badEscape

theorem skipEscape_length {s rest : Bytes} (h : skipEscape s = .ok rest) :
    rest.length < s.length := by
  unfold skipEscape at h
  split at h
  · simp at h
  · rename_i tail
    split at h
    · simp only [Except.ok.injEq] at h
      subst h
      simp
    · split at h
      · cases hr : readHex tail with
        | error e => simp [hr, Except.map] at h
        | ok r =>
          simp only [hr, Except.map, Except.ok.injEq] at h
          subst h
          have := readHex_length hr
          simp only [List.length_cons]
          omega
      · simp at h

/-- Passes a literal, after its opening quote. -/
def skipText (s : Bytes) : Except Fault Bytes :=
  match s with
  | [] => .error .endInString
  | b :: rest =>
    if b = 0x22 then .ok rest
    else if b = 0x5c then
      match h : skipEscape rest with
      | .error e => .error e
      | .ok after =>
        have := skipEscape_length h
        skipText after
    else if b < 0x20 then .error .controlCharacter
    else skipText rest
termination_by s.length
decreasing_by
  all_goals simp only [List.length_cons]; omega

/-- Skipping the inside of a string literal consumes its closing quote at least. -/
theorem skipText_length {s rest : Bytes} (h : skipText s = .ok rest) :
    rest.length < s.length := by
  fun_induction skipText s with
  | case1 => simp at h
  | case2 =>
    simp only [Except.ok.injEq] at h
    subst h
    simp
  | case3 => simp at h
  | case4 s' _ after _ hlen ih =>
    have := ih h
    simp only [List.length_cons]
    omega
  | case5 => simp at h
  | case6 b rest' _ _ _ ih =>
    have := ih h
    simp only [List.length_cons]
    omega

end Json
end ServiceDiscovery
