import ServiceDiscovery.Json.Number

/-!
# Skipping values

Passing over a value that nobody asked for. Only its form is checked, and it may be nested to any
depth: the brackets that are open are kept in a list.

Main definitions:

- {lit}`Json.skipValue`: what follows a value inside some open brackets, once all are closed.
- {lit}`Json.skip`: what follows a single value.

Main results:

- Theorem {lit}`Json.skip_length`: skipping consumes input.
-/

namespace ServiceDiscovery
namespace Json

/-- An open bracket. -/
inductive Bracket where
  | list
  | object
  deriving DecidableEq, Repr

/-- The byte that closes a bracket. -/
def Bracket.closer : Bracket → UInt8
  | .list => 0x5d
  | .object => 0x7d

/-- The fault of a text that ends inside a bracket. -/
def Bracket.unclosed : Bracket → Fault
  | .list => .endInList
  | .object => .endInObject

/-- The fault of a text with neither a comma nor the closing byte after an item. -/
def Bracket.unseparated : Bracket → Fault
  | .list => .missingListSeparator
  | .object => .missingObjectSeparator

/-- Passes the given letters, which are the rest of a word. -/
def skipLetters : List Char → Bytes → Except Fault Bytes
  | [], s => .ok s
  | _ :: _, [] => .error .endInValue
  | c :: cs, b :: rest => if b = byte c then skipLetters cs rest else .error .misspelledWord

/-- Passes a name and its colon inside an object. -/
def skipName (s : Bytes) : Except Fault Bytes :=
  match skipSpace s with
  | [] => .error .endInObject
  | b :: rest =>
    if b = 0x22 then
      match skipText rest with
      | .error e => .error e
      | .ok after =>
        match skipSpace after with
        | [] => .error .endInObject
        | b :: rest => if b = 0x3a then .ok rest else .error .missingColon
    else .error .keyNotText

/-- Skipping space adds nothing to the input. -/
theorem skipSpace_length (s : Bytes) : (skipSpace s).length ≤ s.length :=
  dropWhile_length_le isSpace s

/-- What comes after the first byte that is no space is shorter. -/
theorem length_lt_of_skipSpace {s rest : Bytes} {b : UInt8} (h : skipSpace s = b :: rest) :
    rest.length < s.length := by
  have := skipSpace_length s
  rw [h, List.length_cons] at this
  omega

theorem skipLetters_length {cs : List Char} {s rest : Bytes} (h : skipLetters cs s = .ok rest) :
    rest.length ≤ s.length := by
  fun_induction skipLetters cs s with
  | case1 => simp_all
  | case2 => simp at h
  | case3 _ _ _ ih =>
    have := ih h
    simp only [List.length_cons]
    omega
  | case4 => simp at h

/-- Skipping a name with its colon consumes some input. -/
theorem skipName_length {s rest : Bytes} (h : skipName s = .ok rest) :
    rest.length < s.length := by
  unfold skipName at h
  split at h
  · simp at h
  · rename_i hs
    split at h
    · split at h
      · simp at h
      · rename_i htext
        split at h
        · simp at h
        · rename_i hafter
          split at h
          · simp only [Except.ok.injEq] at h
            subst h
            have := length_lt_of_skipSpace hs
            have := skipText_length htext
            have := length_lt_of_skipSpace hafter
            omega
          · simp at h
    · simp at h

/-- Passes a value that is neither a list nor an object. -/
def skipScalar (first : UInt8) (rest : Bytes) : Except Fault Bytes :=
  if first = byte 'n' then skipLetters ['u', 'l', 'l'] rest
  else if first = byte 't' then skipLetters ['r', 'u', 'e'] rest
  else if first = byte 'f' then skipLetters ['a', 'l', 's', 'e'] rest
  else if first = byte '-' then skipNumber rest
  else if isDigit first then skipNumber (first :: rest)
  else if first = 0x22 then skipText rest
  else .error .missingValue

/-- Skipping what is left of a text, a number or a word adds nothing to the input. -/
theorem skipScalar_length {first : UInt8} {s rest : Bytes} (h : skipScalar first s = .ok rest) :
    rest.length ≤ s.length := by
  unfold skipScalar at h
  split at h
  · exact skipLetters_length h
  · split at h
    · exact skipLetters_length h
    · split at h
      · exact skipLetters_length h
      · split at h
        · exact Nat.le_of_lt (skipNumber_length h)
        · split at h
          · have := skipNumber_length h
            simp only [List.length_cons] at this
            omega
          · split at h
            · exact Nat.le_of_lt (skipText_length h)
            · simp at h

mutual

/-- Passes a value and then everything up to the end of the outermost open bracket. -/
def skipValue (opened : List Bracket) (s : Bytes) : Except Fault Bytes :=
  match hs : skipSpace s with
  | [] => .error .endInValue
  | b :: rest =>
    have := length_lt_of_skipSpace hs
    if b = 0x5b then skipFirst .list opened rest
    else if b = 0x7b then skipFirst .object opened rest
    else
      match h : skipScalar b rest with
      | .error e => .error e
      | .ok after =>
        have := skipScalar_length h
        skipAfter opened after
termination_by (s.length, 2)
decreasing_by
  all_goals omega

/-- Passes the first item after an opening byte, or the byte that closes at once. -/
def skipFirst (bracket : Bracket) (opened : List Bracket) (s : Bytes) : Except Fault Bytes :=
  match hs : skipSpace s with
  | [] => .error bracket.unclosed
  | b :: rest =>
    have := length_lt_of_skipSpace hs
    if b = bracket.closer then skipAfter opened rest
    else skipItem bracket opened (b :: rest)
termination_by (s.length, 4)
decreasing_by
  all_goals have := length_lt_of_skipSpace hs
  all_goals have := skipSpace_length s
  all_goals rw [hs] at this
  all_goals simp only [List.length_cons] at *
  all_goals omega

/-- Passes an item of a bracket. -/
def skipItem (bracket : Bracket) (opened : List Bracket) (s : Bytes) : Except Fault Bytes :=
  match bracket with
  | .list => skipValue (.list :: opened) s
  | .object =>
    match h : skipName s with
    | .error e => .error e
    | .ok rest =>
      have := skipName_length h
      skipValue (.object :: opened) rest
termination_by (s.length, 3)
decreasing_by
  all_goals omega

/-- Passes what follows a value: nothing when no bracket is open, else the rest of the innermost
one. -/
def skipAfter (opened : List Bracket) (s : Bytes) : Except Fault Bytes :=
  match opened with
  | [] => .ok s
  | bracket :: outer =>
    match hs : skipSpace s with
    | [] => .error bracket.unclosed
    | b :: rest =>
      have := length_lt_of_skipSpace hs
      if b = 0x2c then skipItem bracket outer rest
      else if b = bracket.closer then skipAfter outer rest
      else .error bracket.unseparated
termination_by (s.length, 0)
decreasing_by
  all_goals omega

end

/-- Skipping a value consumes some input. -/
theorem skipValue_length {opened : List Bracket} {s rest : Bytes}
    (h : skipValue opened s = .ok rest) : rest.length < s.length := by
  revert rest
  refine skipValue.induct
    (fun opened s => ∀ {rest : Bytes}, skipValue opened s = .ok rest → rest.length < s.length)
    (fun opened s => ∀ {rest : Bytes}, skipAfter opened s = .ok rest → rest.length ≤ s.length)
    (fun bracket opened s =>
      ∀ {rest : Bytes}, skipItem bracket opened s = .ok rest → rest.length < s.length)
    (fun bracket opened s =>
      ∀ {rest : Bytes}, skipFirst bracket opened s = .ok rest → rest.length < s.length)
    ?_ ?_ ?_ ?_ ?_ ?_ ?_ ?_ ?_ ?_ ?_ ?_ ?_ ?_ ?_ ?_ opened s
  · intro opened s hs rest h
    rw [skipValue] at h
    grind
  · intro opened s after hs hlen ih rest h
    rw [skipValue] at h
    grind
  · intro opened s after hs hlen _ ih rest h
    rw [skipValue] at h
    grind
  · intro opened s b after hs hlen _ _ e he rest h
    rw [skipValue] at h
    grind
  · intro opened s b after hs hlen _ _ tail htail _ ih rest h
    rw [skipValue] at h
    grind
  · intro s rest h
    rw [skipAfter] at h
    grind
  · intro s bracket outer hs rest h
    rw [skipAfter] at h
    grind
  · intro s bracket outer after hs hlen ih rest h
    rw [skipAfter] at h
    grind
  · intro s bracket outer after hs hlen _ ih rest h
    rw [skipAfter] at h
    grind
  · intro s bracket outer b after hs hlen _ _ rest h
    rw [skipAfter] at h
    grind
  · intro opened s ih rest h
    rw [skipItem] at h
    exact ih h
  · intro opened s e he rest h
    rw [skipItem] at h
    grind
  · intro opened s after hafter hlen ih rest h
    rw [skipItem] at h
    grind
  · intro bracket opened s hs rest h
    rw [skipFirst] at h
    grind
  · intro bracket opened s after hs hlen ih rest h
    rw [skipFirst] at h
    grind
  · intro bracket opened s b after hs hlen _ ih rest h
    rw [skipFirst] at h
    have := skipSpace_length s
    grind

/-- Passes a single value. -/
def skip (s : Bytes) : Except Fault Bytes :=
  skipValue [] s

/-- Skipping consumes input. -/
theorem skip_length {s rest : Bytes} (h : skip s = .ok rest) : rest.length < s.length :=
  skipValue_length h

end Json
end ServiceDiscovery
