import ServiceDiscovery.Descriptor

/-!
# The grammar of JSON

What counts as JSON text, given by rules, apart from the readers: literals with the
text that they stand for, numbers, and values nested to any depth, with space wherever
it may stand. A document is an object of which the members are told apart.

Main definitions:

- {lit}`Json.Spells`: the inside of a string literal, with the bytes that it stands for.
- {lit}`Json.Written`: a value, or the items of a list or an object.
- {lit}`Json.Denotes`: a value that is a text or a 64-bit integer, with what it denotes.
- {lit}`Json.Document`: an object with its members, and what stands around it.
-/

namespace ServiceDiscovery
namespace Json

/-- There is nothing but space. -/
def Space (s : Bytes) : Prop :=
  ∀ b ∈ s, isSpace b = true

/-! ## String literals -/

/-- Four hexadecimal digits with their value. -/
inductive Hex : Bytes → Nat → Prop where
  | digits {a b c d : UInt8} {i j k l : Nat} (ha : hexValue? a = some i)
      (hb : hexValue? b = some j) (hc : hexValue? c = some k) (hd : hexValue? d = some l) :
      Hex [a, b, c, d] (((i * 16 + j) * 16 + k) * 16 + l)

/-- The byte may stand for itself in a literal. -/
def Plain (b : UInt8) : Prop :=
  b ≠ 0x22 ∧ b ≠ 0x5c ∧ ¬ b < 0x20

/-- An escape without its backslash, with the bytes that it stands for. A character beyond the first
plane takes two halves; no half stands alone. -/
inductive Escape : Bytes → Bytes → Prop where
  | short {b value : UInt8} (h : shortEscape? b = some value) : Escape [b] [value]
  | code {s : Bytes} {unit : Nat} (h : Hex s unit) (hlow : isLowSurrogate unit = false)
      (hhigh : isHighSurrogate unit = false) :
      Escape (byte 'u' :: s) (String.utf8EncodeChar (Char.ofNat unit))
  | pair {s t : Bytes} {first second : Nat} (hfirst : Hex s first)
      (hhigh : isHighSurrogate first = true) (hsecond : Hex t second)
      (hlow : isLowSurrogate second = true) :
      Escape (byte 'u' :: s ++ 0x5c :: byte 'u' :: t) (String.utf8EncodeChar
        (Char.ofNat ((first - 0xd800) * 0x400 + (second - 0xdc00) + 0x10000)))

/-- The inside of a string literal, with the bytes that it stands for. -/
inductive Spells : Bytes → Bytes → Prop where
  | nil : Spells [] []
  | plain {b : UInt8} {s raw : Bytes} (hb : Plain b) (h : Spells s raw) :
      Spells (b :: s) (b :: raw)
  | escape {e value s raw : Bytes} (he : Escape e value) (h : Spells s raw) :
      Spells (0x5c :: (e ++ s)) (value ++ raw)

/-- An escape without its backslash, whatever it stands for. -/
inductive EscapeForm : Bytes → Prop where
  | short {b value : UInt8} (h : shortEscape? b = some value) : EscapeForm [b]
  | code {s : Bytes} {unit : Nat} (h : Hex s unit) : EscapeForm (byte 'u' :: s)

/-- The inside of a string literal, whatever it stands for. -/
inductive Literal : Bytes → Prop where
  | nil : Literal []
  | plain {b : UInt8} {s : Bytes} (hb : Plain b) (h : Literal s) : Literal (b :: s)
  | escape {e s : Bytes} (he : EscapeForm e) (h : Literal s) : Literal (0x5c :: (e ++ s))

/-! ## Numbers -/

/-- One digit or more. -/
def Digits (s : Bytes) : Prop :=
  s ≠ [] ∧ ∀ b ∈ s, isDigit b = true

/-- The digits of an integer, without a needless zero in front. -/
def IntPart (s : Bytes) : Prop :=
  Digits s ∧ (s.head? = some (byte '0') → s = [byte '0'])

/-- The fraction of a number, if it has one. -/
inductive Fraction : Bytes → Prop where
  | none : Fraction []
  | point {s : Bytes} (h : Digits s) : Fraction (byte '.' :: s)

/-- The sign of an exponent, if it has one. -/
def ExponentSign (s : Bytes) : Prop :=
  s = [] ∨ s = [byte '+'] ∨ s = [byte '-']

/-- The exponent of a number, if it has one. -/
inductive Exponent : Bytes → Prop where
  | none : Exponent []
  | letter {e : UInt8} {sign s : Bytes} (he : e = byte 'e' ∨ e = byte 'E')
      (hsign : ExponentSign sign) (h : Digits s) : Exponent (e :: (sign ++ s))

/-- A number without its sign. -/
inductive Unsigned : Bytes → Prop where
  | parts {s f e : Bytes} (hs : IntPart s) (hf : Fraction f) (he : Exponent e) :
      Unsigned (s ++ (f ++ e))

/-! ## Values -/

/-- The byte that opens a bracket. -/
def Bracket.opener : Bracket → UInt8
  | .list => 0x5b
  | .object => 0x7b

/-- What stands in front of the values in a bracket: nothing in a list, and in an object a name with
its colon. -/
inductive Label : Bracket → Bytes → Prop where
  | list : Label .list []
  | object {before name after : Bytes} (hbefore : Space before) (hname : Literal name)
      (hafter : Space after) : Label .object (before ++ 0x22 :: (name ++ 0x22 :: (after ++ [0x3a])))

/-- A value that is neither a list nor an object. -/
inductive Scalar : Bytes → Prop where
  | null : Scalar (['n', 'u', 'l', 'l'].map byte)
  | yes : Scalar (['t', 'r', 'u', 'e'].map byte)
  | no : Scalar (['f', 'a', 'l', 's', 'e'].map byte)
  | number {s : Bytes} (h : Unsigned s) : Scalar s
  | negative {s : Bytes} (h : Unsigned s) : Scalar (byte '-' :: s)
  | text {s : Bytes} (h : Literal s) : Scalar (0x22 :: (s ++ [0x22]))

/-- The rules for values. -/
inductive Form where
  | value
  /-- A value with what stands around it in a bracket, up to the next comma. -/
  | item (bracket : Bracket)
  /-- Everything inside a bracket, which is not empty. -/
  | items (bracket : Bracket)

/-- A value, or the items of a list or an object. -/
inductive Written : Form → Bytes → Prop where
  | scalar {s : Bytes} (h : Scalar s) : Written .value s
  | empty {s : Bytes} (bracket : Bracket) (h : Space s) :
      Written .value (bracket.opener :: (s ++ [bracket.closer]))
  | bracket {s : Bytes} (bracket : Bracket) (h : Written (.items bracket) s) :
      Written .value (bracket.opener :: (s ++ [bracket.closer]))
  | item {bracket : Bracket} {label before s after : Bytes} (hlabel : Label bracket label)
      (hbefore : Space before) (h : Written .value s) (hafter : Space after) :
      Written (.item bracket) (label ++ (before ++ (s ++ after)))
  | last {bracket : Bracket} {s : Bytes} (h : Written (.item bracket) s) :
      Written (.items bracket) s
  | more {bracket : Bracket} {s rest : Bytes} (h : Written (.item bracket) s)
      (hrest : Written (.items bracket) rest) : Written (.items bracket) (s ++ 0x2c :: rest)

/-! ## Fields -/

/-- The type of a value. -/
def FieldValue.type : FieldValue → FieldType
  | .text _ => .text
  | .integer _ => .integer

/-- A value that denotes a text or a 64-bit integer. There is no fraction, no exponent and no
negative zero in an integer. -/
inductive Denotes : Bytes → FieldValue → Prop where
  | text {s : Bytes} {value : String} (h : Spells s (Text.utf8 value)) :
      Denotes (0x22 :: (s ++ [0x22])) (.text value)
  | natural {s : Bytes} {value : Int64} (h : IntPart s)
      (hvalue : value.toInt = decimalValue s) : Denotes s (.integer value)
  | negative {s : Bytes} {value : Int64} (h : IntPart s) (hzero : decimalValue s ≠ 0)
      (hvalue : value.toInt = -decimalValue s) : Denotes (byte '-' :: s) (.integer value)

/-- A member of an object, with the space in its four places. -/
structure Member where
  name : String
  /-- The inside of the literal that is its name. -/
  spelling : Bytes
  value : Bytes
  before : Bytes
  middle : Bytes
  gap : Bytes
  after : Bytes
  spells : Spells spelling (Text.utf8 name)
  valid : Written .value value
  before_space : Space before
  middle_space : Space middle
  gap_space : Space gap
  after_space : Space after

/-- The bytes of a member. -/
def Member.bytes (m : Member) : Bytes :=
  m.before ++ 0x22 :: (m.spelling ++ 0x22 :: (m.middle ++ 0x3a :: (m.gap ++ (m.value ++ m.after))))

/-- An object with its members, and what stands around it. The space inside comes before the
members. -/
structure Document where
  lead : Bytes
  inner : Bytes
  members : List Member
  trail : Bytes
  lead_space : Space lead
  inner_space : Space inner

/-- The bytes of a document. -/
def Document.bytes (doc : Document) : Bytes :=
  doc.lead ++ 0x7b ::
    (doc.inner ++ ([0x2c].intercalate (doc.members.map Member.bytes) ++ 0x7d :: doc.trail))

end Json
end ServiceDiscovery
