import Mathlib.Tactic.IntervalCases
import ServiceDiscovery.Instance
import ServiceDiscovery.Proofs.Json.Documents

/-!
# What is written is read back

The writer writes documents of the grammar: its string literals spell the text that
they were written from, and its numbers denote the integer. So a description or a
summary comes back from its stored form as it was, whatever characters its texts hold
and however large its times are.

Main results:

- Theorems {lit}`Json.spells_literal` and {lit}`Json.denotes_integer`: what is written
  spells the text and denotes the integer that it was written from.
- Theorem {lit}`Json.readDocument_object`: an object with the members of a schema is
  read as its members.
- Theorem {lit}`stored_forms_read_back`: descriptions and summaries are read as they
  were written.
-/

namespace ServiceDiscovery
namespace Json

/-! ## Characters -/

/-- An ASCII character is one byte; all bytes of any other one have their first bit set. -/
theorem utf8EncodeChar_cases (c : Char) :
    (c.toNat < 0x80 ∧ String.utf8EncodeChar c = [byte c]) ∨
      (0x80 ≤ c.toNat ∧ ∀ b ∈ String.utf8EncodeChar c, 0x80 ≤ b.toNat) := by
  have hmod (n m : Nat) (hm : 128 ≤ m) (h : n + m < 256) : 128 ≤ (UInt8.ofNat (n + m)).toNat := by
    rw [UInt8.toNat_ofNat']
    omega
  have hval : c.val.toNat = c.toNat := rfl
  rw [String.utf8EncodeChar.eq_1, hval]
  split
  · exact Or.inl ⟨by omega, rfl⟩
  · refine Or.inr ⟨by omega, ?_⟩
    intro b hb
    split at hb
    · simp only [List.mem_cons, List.not_mem_nil, or_false] at hb
      rcases hb with rfl | rfl
      · exact hmod _ _ (by omega) (by omega)
      · exact hmod _ _ (by omega) (by omega)
    · have htop : c.toNat / 262144 % 8 < 8 := Nat.mod_lt _ (by omega)
      split at hb
      · simp only [List.mem_cons, List.not_mem_nil, or_false] at hb
        rcases hb with rfl | rfl | rfl
        · exact hmod _ _ (by omega) (by omega)
        · exact hmod _ _ (by omega) (by omega)
        · exact hmod _ _ (by omega) (by omega)
      · simp only [List.mem_cons, List.not_mem_nil, or_false] at hb
        rcases hb with rfl | rfl | rfl | rfl
        · exact hmod _ _ (by omega) (by omega)
        · exact hmod _ _ (by omega) (by omega)
        · exact hmod _ _ (by omega) (by omega)
        · exact hmod _ _ (by omega) (by omega)

theorem byte_toNat {c : Char} (h : c.toNat < 0x80) : (byte c).toNat = c.toNat := by
  rw [byte, Nat.toUInt8, UInt8.toNat_ofNat']
  omega

/-! ## String literals -/

theorem hexValue?_hexDigit {n : Nat} (h : n < 16) : hexValue? (byte (hexDigit n)) = some n := by
  interval_cases n <;> decide

/-- The code of a control character stands for it. -/
theorem escape_code {n : Nat} (h : n < 0x20) :
    Escape [byte 'u', byte '0', byte '0', byte (hexDigit (n / 16)), byte (hexDigit n)]
      (String.utf8EncodeChar (Char.ofNat n)) := by
  have hzero : hexValue? (byte '0') = some 0 := by decide
  have hhigh : hexValue? (byte (hexDigit (n / 16))) = some (n / 16) :=
    hexValue?_hexDigit (by omega)
  have hlow : hexValue? (byte (hexDigit n)) = some (n % 16) := by
    rw [show hexDigit n = hexDigit (n % 16) by simp [hexDigit]]
    exact hexValue?_hexDigit (Nat.mod_lt n (by omega))
  have hdigits := Hex.digits hzero hzero hhigh hlow
  rw [show ((0 * 16 + 0) * 16 + n / 16) * 16 + n % 16 = n by omega] at hdigits
  refine .code hdigits ?_ ?_
  · simp only [isLowSurrogate, Bool.and_eq_false_iff, decide_eq_false_iff_not]
    omega
  · simp only [isHighSurrogate, Bool.and_eq_false_iff, decide_eq_false_iff_not]
    omega

/-- A character is written as an escape of one letter, by its code, or as it is. -/
theorem escape_cases (c : Char) :
    (∃ letter : Char, escape c = ['\\', letter] ∧ c.toNat < 0x80 ∧ letter.toNat < 0x80 ∧
        shortEscape? (byte letter) = some (byte c)) ∨
      (c.toNat < 0x20 ∧
        escape c = ['\\', 'u', '0', '0', hexDigit (c.toNat / 16), hexDigit c.toNat]) ∨
      (byte c ≠ 0x22 ∧ byte c ≠ 0x5c ∧ 0x20 ≤ c.toNat ∨ 0x80 ≤ c.toNat) ∧ escape c = [c] := by
  by_cases hspecial : c ∈ ['"', '\\', '\x08', '\x0c', '\n', '\r', '\t']
  · left
    simp only [List.mem_cons, List.not_mem_nil, or_false] at hspecial
    rcases hspecial with rfl | rfl | rfl | rfl | rfl | rfl | rfl
    all_goals exact ⟨_, rfl, by decide, by decide, by decide⟩
  · right
    simp only [List.mem_cons, List.not_mem_nil, or_false, not_or] at hspecial
    obtain ⟨hquote, hescape, h8, hc, hn, hr, ht⟩ := hspecial
    unfold escape
    rw [if_neg hquote, if_neg hescape, if_neg h8, if_neg hc, if_neg hn, if_neg hr, if_neg ht]
    by_cases hcontrol : c.toNat < 0x20
    · rw [if_pos hcontrol]
      exact Or.inl ⟨hcontrol, rfl⟩
    · rw [if_neg hcontrol]
      refine Or.inr ⟨?_, rfl⟩
      by_cases hascii : c.toNat < 0x80
      · have hne (d : Char) (hd : c ≠ d) (hsmall : d.toNat < 0x80) : byte c ≠ byte d := by
          intro heq
          have hnat := congrArg UInt8.toNat heq
          rw [byte_toNat hascii, byte_toNat hsmall] at hnat
          exact hd (Char.ext (UInt32.toNat_inj.mp hnat))
        exact Or.inl ⟨hne '"' hquote (by decide), hne '\\' hescape (by decide), by omega⟩
      · exact Or.inr (by omega)

theorem utf8EncodeChar_ascii {c : Char} (h : c.toNat < 0x80) :
    String.utf8EncodeChar c = [byte c] := by
  rcases utf8EncodeChar_cases c with ⟨_, heq⟩ | ⟨hbeyond, _⟩
  · exact heq
  · omega

/-- The digits of a code are ASCII characters. -/
theorem hexDigit_ascii (n : Nat) : (hexDigit n).toNat < 0x80 := by
  have hlt : n % 16 < 16 := Nat.mod_lt n (by omega)
  unfold hexDigit
  generalize n % 16 = m at hlt
  interval_cases m <;> decide

/-- Bytes that may stand for themselves do so. -/
theorem Spells.plains {front s raw : Bytes} (hfront : ∀ b ∈ front, Plain b) (h : Spells s raw) :
    Spells (front ++ s) (front ++ raw) := by
  induction front with
  | nil => exact h
  | cons b front ih =>
      rw [List.forall_mem_cons] at hfront
      exact .plain hfront.1 (ih hfront.2)

/-- Bytes beyond ASCII may stand for themselves. -/
theorem plain_of_beyond {b : UInt8} (h : 0x80 ≤ b.toNat) : Plain b := by
  have hne (n : UInt8) (hn : n.toNat < 0x80) : b ≠ n := by
    rintro rfl
    omega
  refine ⟨hne _ (by decide), hne _ (by decide), ?_⟩
  rw [UInt8.lt_iff_toNat_lt, show (0x20 : UInt8).toNat = 0x20 from rfl]
  omega

/-- A character is spelled by the way in which it is written. -/
theorem spells_escape (c : Char) {s raw : Bytes} (h : Spells s raw) :
    Spells ((escape c).flatMap String.utf8EncodeChar ++ s) (String.utf8EncodeChar c ++ raw) := by
  rcases escape_cases c with
    ⟨letter, heq, hascii, hletter, hshort⟩ | ⟨hcontrol, heq⟩ | ⟨hplain, heq⟩
  · rw [heq, utf8EncodeChar_ascii hascii]
    simp only [List.flatMap_cons, List.flatMap_nil, utf8EncodeChar_ascii hletter,
      utf8EncodeChar_ascii (show ('\\' : Char).toNat < 0x80 by decide), List.append_nil,
      List.cons_append, List.nil_append]
    exact .escape (.short hshort) h
  · have hcode := Spells.escape (escape_code hcontrol) h
    rw [Char.ofNat_toNat] at hcode
    rw [heq]
    simp only [List.flatMap_cons, List.flatMap_nil, utf8EncodeChar_ascii (hexDigit_ascii _),
      utf8EncodeChar_ascii (show ('\\' : Char).toNat < 0x80 by decide),
      utf8EncodeChar_ascii (show ('u' : Char).toNat < 0x80 by decide),
      utf8EncodeChar_ascii (show ('0' : Char).toNat < 0x80 by decide), List.append_nil,
      List.cons_append, List.nil_append]
    exact hcode
  · rw [heq, List.flatMap_cons, List.flatMap_nil, List.append_nil]
    refine .plains ?_ h
    rcases utf8EncodeChar_cases c with ⟨hascii, hbytes⟩ | ⟨_, hbeyond⟩
    · rcases hplain with ⟨hquote, hescape, hcontrol⟩ | hbeyond
      · rw [hbytes, List.forall_mem_singleton]
        refine ⟨hquote, hescape, ?_⟩
        rw [UInt8.lt_iff_toNat_lt, byte_toNat hascii]
        exact Nat.not_lt.mpr hcontrol
      · omega
    · exact fun b hb => plain_of_beyond (hbeyond b hb)

/-- The inside of a string literal as it is written. -/
def literal (s : String) : Bytes :=
  (s.toList.flatMap escape).flatMap String.utf8EncodeChar

theorem utf8_quote (s : String) : Text.utf8 (quote s) = 0x22 :: (literal s ++ [0x22]) := by
  simp only [Text.utf8, quote, String.toList_ofList, List.flatMap_append, List.flatMap_cons,
    List.cons_append]
  rfl

/-- A string literal spells the text that it was written from. -/
theorem spells_literal (s : String) : Spells (literal s) (Text.utf8 s) := by
  unfold literal Text.utf8
  induction s.toList with
  | nil => exact .nil
  | cons c cs ih =>
      rw [List.flatMap_cons, List.flatMap_append]
      exact spells_escape c ih

/-! ## Numbers -/

/-- The bytes of a number in decimal digits. -/
def decimal (n : Nat) : Bytes :=
  (Nat.toDigits 10 n).map byte

theorem isDigit_byte {c : Char} (h : c.isDigit = true) :
    isDigit (byte c) = true ∧ c.toNat < 0x80 ∧ digit (byte c) = c.toNat - '0'.toNat := by
  simp only [Char.isDigit, Bool.and_eq_true, decide_eq_true_eq, ge_iff_le,
    UInt32.le_iff_toNat_le] at h
  have hval : c.val.toNat = c.toNat := rfl
  have hzero : ('0' : Char).val.toNat = 48 := rfl
  have hnine : ('9' : Char).val.toNat = 57 := rfl
  have hascii : c.toNat < 0x80 := by omega
  refine ⟨?_, hascii, ?_⟩
  · simp only [isDigit, Bool.and_eq_true, decide_eq_true_eq, UInt8.le_iff_toNat_le,
      byte_toNat hascii]
    exact ⟨by rw [show (0x30 : UInt8).toNat = 48 from rfl]; omega,
      by rw [show (0x39 : UInt8).toNat = 57 from rfl]; omega⟩
  · rw [digit, byte_toNat hascii]
    rfl

theorem utf8_toString (n : Nat) : Text.utf8 (toString n) = decimal n := by
  have hdigits : ∀ c ∈ Nat.toDigits 10 n, c.toNat < 0x80 := fun c hc =>
    (isDigit_byte (Nat.isDigit_of_mem_toDigits (by omega) (by omega) hc)).2.1
  rw [Nat.toString_eq_ofList_toDigits, Text.utf8, String.toList_ofList, decimal]
  generalize Nat.toDigits 10 n = cs at hdigits
  induction cs with
  | nil => rfl
  | cons c cs ih =>
      rw [List.flatMap_cons, utf8EncodeChar_ascii (hdigits c List.mem_cons_self),
        ih fun d hd => hdigits d (List.mem_cons_of_mem c hd)]
      rfl

/-- A number other than zero has no leading zero. -/
theorem toDigits_head {n : Nat} (h : n ≠ 0) :
    ∃ c cs, Nat.toDigits 10 n = c :: cs ∧ c ≠ '0' := by
  induction n using Nat.strongRecOn with
  | ind n ih =>
      rw [Nat.toDigits_eq_if (by omega)]
      split
      · rename_i hlt
        refine ⟨_, [], rfl, ?_⟩
        interval_cases n <;> first | contradiction | decide
      · obtain ⟨c, cs, heq, hc⟩ := ih (n / 10) (by omega) (by omega)
        rw [heq]
        exact ⟨c, cs ++ [(n % 10).digitChar], rfl, hc⟩

/-- The digits of a number are an integer part. -/
theorem intPart_decimal (n : Nat) : IntPart (decimal n) := by
  have hdigit : ∀ c ∈ Nat.toDigits 10 n, c.isDigit = true := fun c =>
    Nat.isDigit_of_mem_toDigits (by omega) (by omega)
  refine ⟨⟨?_, ?_⟩, ?_⟩
  · rw [decimal, Ne, List.map_eq_nil_iff]
    exact Nat.toDigits_ne_nil
  · intro b hb
    obtain ⟨c, hc, rfl⟩ := List.mem_map.mp hb
    exact (isDigit_byte (hdigit c hc)).1
  · intro hzero
    by_cases hn : n = 0
    · subst hn
      decide
    · obtain ⟨c, cs, heq, hc⟩ := toDigits_head hn
      rw [decimal, heq] at hzero
      have hnat := congrArg UInt8.toNat (Option.some.inj hzero)
      rw [byte_toNat (isDigit_byte (hdigit c (heq ▸ List.mem_cons_self))).2.1,
        byte_toNat (by decide)] at hnat
      exact absurd (Char.ext (UInt32.toNat_inj.mp hnat)) hc

/-- The digits of a number have its value. -/
theorem decimalValue_decimal (n : Nat) : decimalValue (decimal n) = n := by
  have hchars := Nat.ofDigitChars_toDigits (b := 10) (n := n) (by omega) (by omega)
  rw [Nat.ofDigitChars_eq_foldl] at hchars
  rw [decimalValue, decimal, List.foldl_map]
  refine Eq.trans (List.foldl_ext _ _ _ ?_) hchars
  intro m c hc
  rw [(isDigit_byte (Nat.isDigit_of_mem_toDigits (by omega) (by omega) hc)).2.2, Nat.mul_comm]

/-- What is written denotes the integer that it was written from. -/
theorem denotes_integer (n : Int64) : Denotes (Text.utf8 (integer n)) (.integer n) := by
  rcases Int.lt_or_le n.toInt 0 with hneg | hnonneg
  · obtain ⟨m, hm⟩ := Int.eq_negSucc_of_lt_zero hneg
    have htext : Text.utf8 (integer n) = byte '-' :: decimal (m + 1) := by
      rw [integer, hm, ← utf8_toString]
      exact Text.utf8_append "-" (toString (m + 1))
    rw [htext]
    refine .negative (intPart_decimal _) ?_ ?_
    · rw [decimalValue_decimal]
      exact Nat.succ_ne_zero m
    · rw [decimalValue_decimal, hm]
      rfl
  · obtain ⟨m, hm⟩ := Int.eq_ofNat_of_zero_le hnonneg
    have htext : Text.utf8 (integer n) = decimal m := by
      rw [integer, hm]
      exact utf8_toString m
    rw [htext]
    exact .natural (intPart_decimal m) (by rw [decimalValue_decimal, hm])

/-! ## Objects -/

/-- A value as it is written. -/
def FieldValue.written : FieldValue → String
  | .text s => Json.quote s
  | .integer n => Json.integer n

theorem denotes_written (value : FieldValue) : Denotes (Text.utf8 value.written) value := by
  cases value with
  | text s =>
      rw [FieldValue.written, utf8_quote]
      exact .text (spells_literal s)
  | integer n => exact denotes_integer n

/-- A field as a member without any space. -/
def Member.ofField (f : String × FieldValue) : Member where
  name := f.1
  spelling := literal f.1
  value := Text.utf8 f.2.written
  before := []
  middle := []
  gap := []
  after := []
  spells := spells_literal f.1
  valid := .scalar (denotes_written f.2).scalar
  before_space := Space.nil
  middle_space := Space.nil
  gap_space := Space.nil
  after_space := Space.nil

/-- Some fields as a document without any space. -/
def Document.ofFields (record : Record) : Document where
  lead := []
  inner := []
  members := record.map Member.ofField
  trail := []
  lead_space := Space.nil
  inner_space := Space.nil

/-- An object with fields as it is written. -/
def writtenObject (record : Record) : String :=
  object (record.map fun f => (f.1, f.2.written))

theorem utf8_member (m : String × String) :
    Text.utf8 (member m) = 0x22 :: (literal m.1 ++ 0x22 :: 0x3a :: Text.utf8 m.2) := by
  rw [member, Text.utf8_append, Text.utf8_append, utf8_quote]
  simp only [List.cons_append, List.append_assoc, List.nil_append]
  rfl

theorem utf8_intercalate (ss : List String) :
    Text.utf8 (",".intercalate ss) = [0x2c].intercalate (ss.map Text.utf8) := by
  induction ss with
  | nil => rfl
  | cons s ss ih =>
      cases ss with
      | nil => simp [String.intercalate_singleton]
      | cons t ss =>
          rw [String.intercalate_cons_cons, Text.utf8_append, Text.utf8_append, ih]
          simp only [List.map_cons, List.intercalate_cons_cons]
          rfl

theorem utf8_object (members : List (String × String)) :
    Text.utf8 (object members) =
      0x7b :: ([0x2c].intercalate (members.map fun m => Text.utf8 (member m)) ++ [0x7d]) := by
  have hopener : Text.utf8 "\x7b" = [0x7b] := by decide
  have hcloser : Text.utf8 "\x7d" = [0x7d] := by decide
  rw [object, Text.utf8_append, Text.utf8_append, utf8_intercalate, hopener, hcloser, List.map_map]
  simp only [List.cons_append, List.nil_append, Function.comp_def]

/-- The writer writes a document. -/
theorem bytes_ofFields (record : Record) :
    (Document.ofFields record).bytes = Text.utf8 (writtenObject record) := by
  have hmembers : (record.map fun f => (f.1, f.2.written)).map (fun m => Text.utf8 (member m)) =
      (record.map Member.ofField).map Member.bytes := by
    simp [Function.comp_def, utf8_member, Member.bytes, Member.ofField]
  rw [writtenObject, utf8_object, hmembers]
  simp only [Document.bytes, Document.ofFields, List.nil_append]

/-- Members that are fields of a schema, each one once, are gathered as they are. -/
theorem gathers_ofFields {schema : Schema} {record seen : Record}
    (hfields : ∀ f ∈ record, schema.fields.lookup f.1 = some f.2.type)
    (hnodup : ((seen ++ record).map (·.1)).Nodup) :
    Gathers schema (record.map Member.ofField) seen (seen ++ record) := by
  induction record generalizing seen with
  | nil =>
      rw [List.append_nil]
      exact .nil
  | cons f record ih =>
      rw [List.forall_mem_cons] at hfields
      rw [List.append_cons] at hnodup ⊢
      refine .cons (.field hfields.1 ?_ (denotes_written f.2)) (ih hfields.2 hnodup)
      rw [lookup_eq_none_iff]
      rw [List.map_append, List.map_append, List.append_assoc, List.nodup_append] at hnodup
      exact fun hmem => hnodup.2.2 _ hmem _ List.mem_cons_self rfl

/-- An object with all the fields of a schema, each with a value of its type, is read as these
fields, whatever follows it. -/
theorem readRecord_object {schema : Schema} {record : Record}
    (htypes : record.map (fun f => (f.1, f.2.type)) = schema.fields)
    (hnodup : (schema.fields.map (·.1)).Nodup) (rest : Bytes) :
    readRecord schema (Text.utf8 (writtenObject record) ++ rest) = .ok (record, rest) := by
  have hnames : record.map (·.1) = schema.fields.map (·.1) := by
    rw [← htypes, List.map_map]
    rfl
  have hfields : ∀ f ∈ record, schema.fields.lookup f.1 = some f.2.type := by
    intro f hf
    rw [lookup_eq_some_iff hnodup, ← htypes]
    exact List.mem_map.mpr ⟨f, hf, rfl⟩
  have hmissing : schema.missing? record = none := by
    unfold Schema.missing?
    split
    · rw [Option.map_eq_none_iff, List.find?_eq_none]
      intro f hf hnone
      rw [Option.isNone_iff_eq_none, lookup_eq_none_iff, hnames] at hnone
      exact hnone (List.mem_map_of_mem hf)
    · rfl
  have hbytes : ({ Document.ofFields record with trail := rest } : Document).bytes =
      Text.utf8 (writtenObject record) ++ rest := by
    rw [← bytes_ofFields]
    simp [Document.bytes, Document.ofFields]
  rw [← hbytes]
  exact readRecord_eq_ok_iff.mpr ⟨rfl, gathers_ofFields hfields (hnames ▸ hnodup), hmissing⟩

/-- Nothing else is read from such an object when it stands alone. -/
theorem readDocument_object {schema : Schema} {record : Record}
    (htypes : record.map (fun f => (f.1, f.2.type)) = schema.fields)
    (hnodup : (schema.fields.map (·.1)).Nodup) :
    readDocument schema (Text.utf8 (writtenObject record)) = .ok record := by
  have hread := readRecord_object htypes hnodup []
  rw [List.append_nil] at hread
  rw [readDocument, hread]
  rfl

end Json

/-! ## Stored forms -/

namespace Descriptor

/-- The fields of a description, in the order in which they are written. -/
def fields (d : Descriptor) : Json.Record :=
  [("ip", .text d.ip), ("port", .text d.port), ("name", .text d.name),
    ("alias", .text d.displayName), ("INTFC", .text d.interface), ("protocol", .text d.protocol),
    ("timeConnect", .integer d.timeConnect), ("timeActive", .integer d.timeActive),
    ("source", .text d.source)]

theorem types_fields (d : Descriptor) : d.fields.map (fun f => (f.1, f.2.type)) = schema.fields :=
  rfl

theorem toJson_eq (d : Descriptor) : d.toJson = Json.writtenObject d.fields :=
  rfl

/-- A description is read as it was written. -/
theorem ofJson_toJson (d : Descriptor) : ofJson (Text.utf8 d.toJson) = .ok d := by
  rw [ofJson, toJson_eq, Json.readDocument_object d.types_fields (by decide)]
  rfl

end Descriptor

namespace Summary

/-- The fields of a summary, in the order in which they are written. -/
def fields (s : Summary) : Json.Record :=
  [("address", .text s.address), ("sourceIp", .text s.sourceIp), ("alias", .text s.displayName)]

theorem types_fields (s : Summary) : s.fields.map (fun f => (f.1, f.2.type)) = schema.fields :=
  rfl

theorem toJson_eq (s : Summary) : s.toJson = Json.writtenObject s.fields :=
  rfl

/-- A summary is read as it was written. -/
theorem ofJson_toJson (s : Summary) : ofJson (Text.utf8 s.toJson) = .ok s := by
  rw [ofJson, toJson_eq, Json.readDocument_object s.types_fields (by decide)]
  rfl

end Summary

/-- Descriptions and summaries are read as they were written, whatever is in them. -/
theorem stored_forms_read_back (d : Descriptor) (s : Summary) :
    Descriptor.ofJson (Text.utf8 d.toJson) = .ok d ∧ Summary.ofJson (Text.utf8 s.toJson) = .ok s :=
  ⟨d.ofJson_toJson, s.ofJson_toJson⟩

end ServiceDiscovery
