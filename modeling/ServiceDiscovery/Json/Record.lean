import ServiceDiscovery.Json.Skip

/-!
# Records

Reading a record with named fields from a JSON object, whose members may come in any order and
among others that the record does not have, or from a JSON array, whose items are the fields in
the record's own order.

Main definitions:

- {lit}`Json.Schema`: the fields of a record, and whether all of them are required.
- {lit}`Json.Record`: the fields that a text gives.
- {lit}`Json.readRecord`: a record, and what follows it.
- {lit}`Json.readDocument`: a record with nothing but space around it.

Main results:

- Theorem {lit}`Json.readMember_length`: every member consumes input.
-/

namespace ServiceDiscovery
namespace Json

/-- The type of a field. -/
inductive FieldType where
  | text
  | integer
  deriving DecidableEq, Repr

/-- The value of a field. -/
inductive FieldValue where
  | text (value : String)
  | integer (value : Int64)
  deriving DecidableEq, Repr

/-- What a reader expects of a record. -/
structure Schema where
  /-- The record's name in diagnostics. -/
  title : String
  /-- The fields' names and types, in the record's own order. -/
  fields : List (String × FieldType)
  /-- Whether a field that is not given is a fault. -/
  required : Bool

/-- The fields that a text gives, in the order of the text. -/
abbrev Record := List (String × FieldValue)

/-- The text given for a field. -/
def Record.text? (record : Record) (name : String) : Option String :=
  match record.lookup name with
  | some (.text value) => some value
  | _ => none

/-- The integer given for a field. -/
def Record.integer? (record : Record) (name : String) : Option Int64 :=
  match record.lookup name with
  | some (.integer value) => some value
  | _ => none

/-! ## Values -/

/-- What a number is, seen as a value of the wrong type. -/
def Number.found : Number → Found
  | .integer value => .integer value
  | .decimal bits => .decimal bits

/-- The fault of a value of the wrong type, which is read as far as it has to be shown. -/
def unexpected (expected : String) (first : UInt8) (rest : Bytes) : Fault :=
  let word (letters : List Char) (found : Found) : Fault :=
    match skipLetters letters rest with
    | .error e => e
    | .ok _ => .wrongType found expected
  let number (read : Read Number) : Fault :=
    match read with
    | .error e => e
    | .ok (n, _) => .wrongType n.found expected
  if first = byte 'n' then word ['u', 'l', 'l'] .null
  else if first = byte 't' then word ['r', 'u', 'e'] (.boolean true)
  else if first = byte 'f' then word ['a', 'l', 's', 'e'] (.boolean false)
  else if first = byte '-' then number (readNumber true rest)
  else if isDigit first then number (readNumber false (first :: rest))
  else if first = 0x22 then
    match readText rest with
    | .error e => e
    | .ok (value, _) => .wrongType (.text value) expected
  else if first = 0x5b then .wrongType .sequence expected
  else if first = 0x7b then .wrongType .map expected
  else .missingValue

/-- The signed 64-bit integer that a number is. -/
def Number.toInt64 : Number → Except Fault Int64
  | .integer value =>
    if value ≤ Int64.maxValue.toInt then .ok (Int64.ofInt value)
    else .error (.wrongValue (.integer value) "i64")
  | .decimal bits => .error (.wrongType (.decimal bits) "i64")

/-- Reads a signed 64-bit integer, after its minus sign if it has one. -/
def readInteger (negative : Bool) (s : Bytes) : Read FieldValue :=
  match readNumber negative s with
  | .error e => .error e
  | .ok (n, rest) => n.toInt64.map fun value => (.integer value, rest)

/-- Reading an integer consumes some input. -/
theorem readInteger_length {negative : Bool} {s rest : Bytes} {value : FieldValue}
    (h : readInteger negative s = .ok (value, rest)) : rest.length < s.length := by
  unfold readInteger at h
  split at h
  · simp at h
  · rename_i n after hnumber
    cases hr : n.toInt64 with
    | error e => simp [hr, Except.map] at h
    | ok r =>
      simp only [hr, Except.map, Except.ok.injEq, Prod.mk.injEq] at h
      have := readNumber_length hnumber
      obtain ⟨-, rfl⟩ := h
      exact this

/-- Reads the value of a field. -/
def readValue (type : FieldType) (s : Bytes) : Read FieldValue :=
  match skipSpace s with
  | [] => .error .endInValue
  | b :: rest =>
    match type with
    | .text =>
      if b = 0x22 then (readText rest).map fun r => (.text r.1, r.2)
      else .error (unexpected "a string" b rest)
    | .integer =>
      if b = byte '-' then readInteger true rest
      else if isDigit b then readInteger false (b :: rest)
      else .error (unexpected "i64" b rest)

/-! ## Objects -/

/-- What comes next in an object. -/
inductive NextMember where
  /-- A member, whose name's opening quote has been read. -/
  | member (s : Bytes)
  /-- The end of the object. -/
  | done (rest : Bytes)

/-- Finds the next member of an object. -/
def nextMember (first : Bool) (s : Bytes) : Except Fault NextMember :=
  match skipSpace s with
  | [] => .error .endInObject
  | b :: rest =>
    if b = 0x7d then .ok (.done rest)
    else if first then if b = 0x22 then .ok (.member rest) else .error .keyNotText
    else if b = 0x2c then
      match skipSpace rest with
      | [] => .error .endInValue
      | c :: tail =>
        if c = 0x22 then .ok (.member tail)
        else if c = 0x7d then .error .trailingComma
        else .error .keyNotText
    else .error .missingObjectSeparator

/-- Reads the colon after a member's name. -/
def readColon (s : Bytes) : Except Fault Bytes :=
  match skipSpace s with
  | [] => .error .endInObject
  | b :: rest => if b = 0x3a then .ok rest else .error .missingColon

/-- Adds the value of a named member to the fields seen so far, or skips it. -/
def readMemberValue (schema : Schema) (seen : Record) (name : String) (s : Bytes) : Read Record :=
  match schema.fields.lookup name with
  | some type =>
    if (seen.lookup name).isSome then .error (.duplicateField name)
    else
      match readColon s with
      | .error e => .error e
      | .ok rest =>
        (readValue type rest).map fun r => (seen ++ [(name, r.1)], r.2)
  | none =>
    match readColon s with
    | .error e => .error e
    | .ok rest => (skip rest).map fun after => (seen, after)

/-- Reads a member, after its name's opening quote. -/
def readMember (schema : Schema) (seen : Record) (s : Bytes) : Read Record :=
  match readText s with
  | .error e => .error e
  | .ok (name, rest) => readMemberValue schema seen name rest

/-- The opening quote of a member's name is consumed. -/
theorem nextMember_length {first : Bool} {s rest : Bytes}
    (h : nextMember first s = .ok (.member rest)) : rest.length < s.length := by
  unfold nextMember at h
  split at h
  · simp at h
  · rename_i hs
    have := length_lt_of_skipSpace hs
    split at h
    · simp at h
    · split at h
      · split at h <;> simp_all
      · split at h
        · split at h
          · simp at h
          · rename_i hrest
            have := length_lt_of_skipSpace hrest
            split at h
            · simp only [Except.ok.injEq, NextMember.member.injEq] at h
              subst h
              omega
            · split at h <;> simp at h
        · simp at h

theorem readColon_length {s rest : Bytes} (h : readColon s = .ok rest) :
    rest.length < s.length := by
  unfold readColon at h
  split at h
  · simp at h
  · rename_i hs
    have := length_lt_of_skipSpace hs
    split at h
    · simp only [Except.ok.injEq] at h
      subst h
      omega
    · simp at h

/-- Reading a value into a field consumes some input. -/
theorem readValue_length {type : FieldType} {s rest : Bytes} {value : FieldValue}
    (h : readValue type s = .ok (value, rest)) : rest.length < s.length := by
  unfold readValue at h
  split at h
  · simp at h
  · rename_i b tail hs
    have hlen := length_lt_of_skipSpace hs
    split at h
    · split at h
      · cases hr : readText tail with
        | error e => simp [hr, Except.map] at h
        | ok r =>
          simp only [hr, Except.map, Except.ok.injEq, Prod.mk.injEq] at h
          have := readText_length hr
          obtain ⟨-, rfl⟩ := h
          omega
      · simp at h
    · split at h
      · exact Nat.lt_trans (readInteger_length h) hlen
      · split at h
        · have := readInteger_length h
          simp only [List.length_cons] at this
          omega
        · simp at h

/-- Reading or skipping the value of a member consumes some input. -/
theorem readMemberValue_length {schema : Schema} {seen record : Record} {name : String}
    {s rest : Bytes} (h : readMemberValue schema seen name s = .ok (record, rest)) :
    rest.length < s.length := by
  unfold readMemberValue at h
  split at h
  · rename_i type _
    split at h
    · simp at h
    · split at h
      · simp at h
      · rename_i after hcolon
        have := readColon_length hcolon
        cases hr : readValue type after with
        | error e => simp [hr, Except.map] at h
        | ok r =>
          simp only [hr, Except.map, Except.ok.injEq, Prod.mk.injEq] at h
          have := readValue_length hr
          obtain ⟨-, rfl⟩ := h
          omega
  · split at h
    · simp at h
    · rename_i after hcolon
      have := readColon_length hcolon
      cases hr : skip after with
      | error e => simp [hr, Except.map] at h
      | ok r =>
        simp only [hr, Except.map, Except.ok.injEq, Prod.mk.injEq] at h
        have := skip_length hr
        obtain ⟨-, rfl⟩ := h
        omega

/-- Every member consumes input. -/
theorem readMember_length {schema : Schema} {seen record : Record} {s rest : Bytes}
    (h : readMember schema seen s = .ok (record, rest)) : rest.length < s.length := by
  unfold readMember at h
  split at h
  · simp at h
  · rename_i hname
    have := readText_length hname
    have := readMemberValue_length h
    omega

/-- Reads the members of an object up to its end, after the fields seen so far. -/
def readMembers (schema : Schema) (first : Bool) (seen : Record) (s : Bytes) : Read Record :=
  match hnext : nextMember first s with
  | .error e => .error e
  | .ok (.done rest) => .ok (seen, rest)
  | .ok (.member tail) =>
    have := nextMember_length hnext
    match hmember : readMember schema seen tail with
    | .error e => .error e
    | .ok (seen, rest) =>
      have := readMember_length hmember
      readMembers schema false seen rest
termination_by s.length

/-- The first field, in the record's own order, that is required and was not given. -/
def Schema.missing? (schema : Schema) (seen : Record) : Option String :=
  if schema.required then
    (schema.fields.find? fun field => (seen.lookup field.1).isNone).map (·.1)
  else none

/-- Reads an object, after its opening brace. -/
def readObject (schema : Schema) (s : Bytes) : Read Record :=
  match readMembers schema true [] s with
  | .error e => .error e
  | .ok (seen, rest) =>
    match schema.missing? seen with
    | some name => .error (.missingField name)
    | none => .ok (seen, rest)

/-! ## Arrays -/

/-- Finds the next item of an array: what it starts with, or nothing at the closing bracket. -/
def nextItem (first : Bool) (s : Bytes) : Except Fault (Option Bytes) :=
  match skipSpace s with
  | [] => .error .endInList
  | b :: rest =>
    if b = 0x5d then .ok none
    else if first then .ok (some (b :: rest))
    else if b = 0x2c then
      match skipSpace rest with
      | [] => .error .endInValue
      | c :: tail => if c = 0x5d then .error .trailingComma else .ok (some (c :: tail))
    else .error .missingListSeparator

/-- Reads the items of an array into the given fields, as far as there are items. What follows
them starts at the closing bracket or after the last field. -/
def readItems (schema : Schema) (first : Bool) (seen : Record) :
    List (String × FieldType) → Bytes → Read Record
  | [], s => .ok (seen, s)
  | (name, type) :: fields, s =>
    match nextItem first s with
    | .error e => .error e
    | .ok none =>
      if schema.required then
        .error (.wrongLength seen.length
          (schema.title ++ " with " ++ toString schema.fields.length ++ " elements"))
      else .ok (seen, s)
    | .ok (some tail) =>
      match readValue type tail with
      | .error e => .error e
      | .ok (value, rest) => readItems schema false (seen ++ [(name, value)]) fields rest

/-- Passes the end of an array. -/
def closeArray (s : Bytes) : Except Fault Bytes :=
  match skipSpace s with
  | [] => .error .endInList
  | b :: rest =>
    if b = 0x5d then .ok rest
    else if b = 0x2c then
      if (skipSpace rest).head? = some 0x5d then .error .trailingComma
      else .error .trailingCharacters
    else .error .trailingCharacters

/-- Reads an array, after its opening bracket. -/
def readArray (schema : Schema) (s : Bytes) : Read Record :=
  match readItems schema true [] schema.fields s with
  | .error e => .error e
  | .ok (seen, rest) => (closeArray rest).map fun after => (seen, after)

/-! ## Documents -/

/-- Reads a record. -/
def readRecord (schema : Schema) (s : Bytes) : Read Record :=
  match skipSpace s with
  | [] => .error .endInValue
  | b :: rest =>
    if b = 0x7b then readObject schema rest
    else if b = 0x5b then readArray schema rest
    else .error (unexpected schema.title b rest)

/-- Reads a record with nothing but space around it. -/
def readDocument (schema : Schema) (s : Bytes) : Except Fault Record :=
  match readRecord schema s with
  | .error e => .error e
  | .ok (record, rest) =>
    if (skipSpace rest).isEmpty then .ok record else .error .trailingCharacters

end Json
end ServiceDiscovery
