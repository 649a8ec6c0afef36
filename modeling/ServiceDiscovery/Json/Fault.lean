import ServiceDiscovery.Decimal.Shortest
import ServiceDiscovery.Text.Quoted

/-!
# Faults in JSON text

Every way in which a stored value can fail to be the record that a reader expects, and its wording.

Main definitions:

- {lit}`Json.Found`: what stands where something else was expected.
- {lit}`Json.Fault`: the first fault that a reader meets.
- {lit}`Json.Fault.message`: its wording.
-/

namespace ServiceDiscovery
namespace Json

/-- What stands in a text where something else was expected. -/
inductive Found where
  | null
  | boolean (value : Bool)
  | integer (value : Int)
  /-- A number with a fraction or an exponent, or beyond 64 bits, as binary64 bits. -/
  | decimal (bits : UInt64)
  | text (value : String)
  | sequence
  | map
  deriving DecidableEq, Repr

/-- What was found, in words. -/
def Found.describe : Found → String
  | .null => "null"
  | .boolean true => "boolean \x60true\x60"
  | .boolean false => "boolean \x60false\x60"
  | .integer value => "integer \x60" ++ toString value ++ "\x60"
  | .decimal bits => "floating point \x60" ++ Decimal.text bits ++ "\x60"
  | .text value => "string " ++ Text.quoted value
  | .sequence => "sequence"
  | .map => "map"

/-- The first fault that a reader meets. -/
inductive Fault where
  | endInValue
  | endInList
  | endInObject
  | endInString
  | missingColon
  | missingListSeparator
  | missingObjectSeparator
  | misspelledWord
  | missingValue
  | badEscape
  | badNumber
  | numberTooLarge
  | notUtf8
  | controlCharacter
  | keyNotText
  | loneSurrogate
  | unfinishedSurrogatePair
  | trailingComma
  | trailingCharacters
  /-- The value has another type than the record asks for. -/
  | wrongType (found : Found) (expected : String)
  /-- The value has the right type and does not fit. -/
  | wrongValue (found : Found) (expected : String)
  | wrongLength (length : Nat) (expected : String)
  | duplicateField (name : String)
  | missingField (name : String)
  deriving DecidableEq, Repr

/-- The wording of a fault. -/
def Fault.message : Fault → String
  | .endInValue => "EOF while parsing a value"
  | .endInList => "EOF while parsing a list"
  | .endInObject => "EOF while parsing an object"
  | .endInString => "EOF while parsing a string"
  | .missingColon => "expected \x60:\x60"
  | .missingListSeparator => "expected \x60,\x60 or \x60]\x60"
  | .missingObjectSeparator => "expected \x60,\x60 or \x60\x7d\x60"
  | .misspelledWord => "expected ident"
  | .missingValue => "expected value"
  | .badEscape => "invalid escape"
  | .badNumber => "invalid number"
  | .numberTooLarge => "number out of range"
  | .notUtf8 => "invalid unicode code point"
  | .controlCharacter => "control character (\\u0000-\\u001F) found while parsing a string"
  | .keyNotText => "key must be a string"
  | .loneSurrogate => "lone leading surrogate in hex escape"
  | .unfinishedSurrogatePair => "unexpected end of hex escape"
  | .trailingComma => "trailing comma"
  | .trailingCharacters => "trailing characters"
  | .wrongType found expected => "invalid type: " ++ found.describe ++ ", expected " ++ expected
  | .wrongValue found expected => "invalid value: " ++ found.describe ++ ", expected " ++ expected
  | .wrongLength length expected =>
    "invalid length " ++ toString length ++ ", expected " ++ expected
  | .duplicateField name => "duplicate field \x60" ++ name ++ "\x60"
  | .missingField name => "missing field \x60" ++ name ++ "\x60"

end Json
end ServiceDiscovery
