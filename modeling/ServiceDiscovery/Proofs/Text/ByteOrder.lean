import Mathlib.Data.String.Basic
import ServiceDiscovery.Text.Utf8

/-!
# The order of bytes

Texts are compared here character by character, and stored byte by byte.  In UTF-8 that
comes to the same: the number of bytes of a character can be seen from the first one, more
bytes mean a greater first byte, and the others are the last digits of the character's
number.

Main results:

- Theorem {lit}`Text.encode_append_lt`: of two characters, the greater one has the greater
  bytes, whatever follows.
- Theorem {lit}`Text.utf8_lt_iff`: texts are in the order of their bytes.
- Theorem {lit}`Text.utf8_prefix_iff`: one text starts with another one exactly if its
  bytes start with the bytes of the other one.
-/

namespace ServiceDiscovery
namespace Text

/-! ## Characters -/

/-- How many bytes follow the first one of a character with some number. -/
def extraBytes (n : Nat) : Nat :=
  if n ≤ 0x7f then 0 else if n ≤ 0x7ff then 1 else if n ≤ 0xffff then 2 else 3

/-- The least first byte of a character that has so many more. -/
def mark : Nat → Nat
  | 0 => 0
  | 1 => 0xc0
  | 2 => 0xe0
  | _ => 0xf0

/-- The last digits of a number to the base 64, as bytes that continue a character. -/
def continuation : Nat → Nat → Bytes
  | 0, _ => []
  | count + 1, n => UInt8.ofNat (n / 64 ^ count % 64 + 0x80) :: continuation count n

/-- The first byte of the character with some number. -/
def firstByte (n : Nat) : Nat :=
  mark (extraBytes n) + n / 64 ^ extraBytes n

/-- The four forms of characters. -/
theorem firstByte_cases (n : Nat) :
    n ≤ 0x7f ∧ extraBytes n = 0 ∧ firstByte n = n ∨
      0x7f < n ∧ n ≤ 0x7ff ∧ extraBytes n = 1 ∧ firstByte n = 0xc0 + n / 64 ∨
      0x7ff < n ∧ n ≤ 0xffff ∧ extraBytes n = 2 ∧ firstByte n = 0xe0 + n / 4096 ∨
      0xffff < n ∧ extraBytes n = 3 ∧ firstByte n = 0xf0 + n / 262144 := by
  unfold firstByte extraBytes
  by_cases h0 : n ≤ 0x7f
  · simp [mark, h0]
  · by_cases h1 : n ≤ 0x7ff
    · simp [mark, h0, h1, Nat.lt_of_not_le h0]
    · by_cases h2 : n ≤ 0xffff
      · simp [mark, h0, h1, h2, Nat.lt_of_not_le h1]
      · simp [mark, h0, h1, h2, Nat.lt_of_not_le h2]

theorem char_lt (c : Char) : c.toNat < 0x110000 := by
  have hvalid := c.valid
  simp only [UInt32.isValidChar, Nat.isValidChar] at hvalid
  have hval : c.val.toNat = c.toNat := rfl
  omega

theorem encode_eq (c : Char) :
    String.utf8EncodeChar c =
      UInt8.ofNat (firstByte c.toNat) :: continuation (extraBytes c.toNat) c.toNat := by
  have hlt := char_lt c
  have hval : c.val.toNat = c.toNat := rfl
  rw [String.utf8EncodeChar.eq_1, hval]
  generalize c.toNat = n at hlt
  -- The first byte has room for what is above the digits that continue the character.
  rcases firstByte_cases n with ⟨h, hextra, hfirst⟩ | ⟨h, h', hextra, hfirst⟩ |
    ⟨h, h', hextra, hfirst⟩ | ⟨h, hextra, hfirst⟩
  · simp [hextra, hfirst, continuation, h]
  · have hroom : n / 64 % 32 = n / 64 := by omega
    simp [hextra, hfirst, continuation, Nat.not_le.mpr h, h', hroom, Nat.add_comm]
  · have hroom : n / 4096 % 16 = n / 4096 := by omega
    have hmore : ¬ n ≤ 127 := by omega
    simp [hextra, hfirst, continuation, hmore, Nat.not_le.mpr h, h', hroom, Nat.add_comm]
  · have hroom : n / 262144 % 8 = n / 262144 := by omega
    have hmore : ¬ n ≤ 127 ∧ ¬ n ≤ 2047 := by omega
    simp [hextra, hfirst, continuation, hmore, Nat.not_le.mpr h, hroom, Nat.add_comm]

theorem firstByte_lt_size {n : Nat} (h : n < 0x110000) : firstByte n < 256 := by
  have hform := firstByte_cases n
  omega

/-- More bytes mean a greater first byte. -/
theorem firstByte_lt {m n : Nat} (hlt : m < n)
    (hextra : extraBytes m ≠ extraBytes n) : firstByte m < firstByte n := by
  have hm := firstByte_cases m
  have hn := firstByte_cases n
  omega

/-- Numbers that agree above their last digits are in the order of these digits. -/
theorem continuation_append_lt {m n count : Nat} (h : m < n)
    (hsame : m / 64 ^ count = n / 64 ^ count) (s t : Bytes) :
    continuation count m ++ s < continuation count n ++ t := by
  induction count with
  | zero =>
      rw [Nat.pow_zero, Nat.div_one, Nat.div_one] at hsame
      omega
  | succ count ih =>
      rw [Nat.pow_succ, ← Nat.div_div_eq_div_mul, ← Nat.div_div_eq_div_mul] at hsame
      have hle : m / 64 ^ count ≤ n / 64 ^ count := Nat.div_le_div_right h.le
      rw [continuation, continuation, List.cons_append, List.cons_append, List.cons_lt_cons_iff,
        UInt8.lt_iff_toNat_lt, UInt8.toNat_ofNat', UInt8.toNat_ofNat']
      rcases Nat.lt_or_eq_of_le hle with hlt | heq
      · left
        omega
      · right
        rw [heq]
        exact ⟨rfl, ih heq⟩

/-- Of two characters, the greater one has the greater bytes, whatever follows. -/
theorem encode_append_lt {c d : Char} (h : c < d) (s t : Bytes) :
    String.utf8EncodeChar c ++ s < String.utf8EncodeChar d ++ t := by
  have hlt : c.toNat < d.toNat := h
  have hc := firstByte_lt_size (char_lt c)
  have hd := firstByte_lt_size (char_lt d)
  rw [encode_eq, encode_eq, List.cons_append, List.cons_append, List.cons_lt_cons_iff,
    UInt8.lt_iff_toNat_lt, UInt8.toNat_ofNat_of_lt' hc, UInt8.toNat_ofNat_of_lt' hd]
  by_cases hextra : extraBytes c.toNat = extraBytes d.toNat
  · have hle : c.toNat / 64 ^ extraBytes d.toNat ≤ d.toNat / 64 ^ extraBytes d.toNat :=
      Nat.div_le_div_right hlt.le
    rcases Nat.lt_or_eq_of_le hle with habove | hsame
    · left
      rw [firstByte, firstByte, hextra]
      omega
    · right
      rw [firstByte, firstByte, hextra, hsame]
      exact ⟨rfl, continuation_append_lt hlt hsame s t⟩
  · exact Or.inl (firstByte_lt hlt hextra)

/-! ## Texts -/

/-- Characters are told apart by any texts that begin with them. -/
theorem eq_of_encode_prefix {c d : Char} {s t : Bytes}
    (h : String.utf8EncodeChar c ++ s <+: String.utf8EncodeChar d ++ t) : c = d := by
  obtain ⟨u, hu⟩ := h
  rw [List.append_assoc] at hu
  rcases lt_trichotomy c d with hlt | heq | hgt
  · have hless := encode_append_lt hlt (s ++ u) t
    rw [hu] at hless
    exact absurd hless (List.lt_irrefl _)
  · exact heq
  · have hless := encode_append_lt hgt t (s ++ u)
    rw [hu] at hless
    exact absurd hless (List.lt_irrefl _)

theorem append_lt_append_iff {u s t : Bytes} : u ++ s < u ++ t ↔ s < t := by
  induction u with
  | nil => rfl
  | cons b u ih =>
      rw [List.cons_append, List.cons_append, List.cons_lt_cons_iff, ih]
      simp

/-- Lists of characters are in the order of their bytes. -/
theorem flatMap_encode_lt_iff {l m : List Char} :
    l.flatMap String.utf8EncodeChar < m.flatMap String.utf8EncodeChar ↔ l < m := by
  induction l generalizing m with
  | nil =>
      cases m with
      | nil => simp
      | cons d m =>
          rw [List.flatMap_nil, List.flatMap_cons, encode_eq, List.cons_append]
          simp
  | cons c l ih =>
      cases m with
      | nil => simp
      | cons d m =>
          rw [List.flatMap_cons, List.flatMap_cons, List.cons_lt_cons_iff]
          rcases lt_trichotomy c d with hlt | rfl | hgt
          · simp [hlt, encode_append_lt hlt]
          · rw [append_lt_append_iff, ih]
            simp
          · have hless := encode_append_lt hgt (m.flatMap String.utf8EncodeChar)
              (l.flatMap String.utf8EncodeChar)
            simp [List.lt_asymm hless, hgt.not_gt, hgt.ne']

/-- Texts are in the order of their bytes. -/
theorem utf8_lt_iff {s t : String} : utf8 s < utf8 t ↔ s < t := by
  rw [utf8, utf8, flatMap_encode_lt_iff, String.lt_iff]

theorem flatMap_encode_prefix_iff {l m : List Char} :
    l.flatMap String.utf8EncodeChar <+: m.flatMap String.utf8EncodeChar ↔ l <+: m := by
  induction l generalizing m with
  | nil => simp
  | cons c l ih =>
      cases m with
      | nil => simp
      | cons d m =>
          rw [List.flatMap_cons, List.flatMap_cons, List.cons_prefix_cons]
          constructor
          · intro h
            obtain rfl := eq_of_encode_prefix h
            exact ⟨rfl, ih.mp ((List.prefix_append_right_inj _).mp h)⟩
          · rintro ⟨rfl, h⟩
            exact (List.prefix_append_right_inj _).mpr (ih.mpr h)

/-- One text starts with another one exactly if its bytes do so with the bytes of the other one. -/
theorem utf8_prefix_iff {s t : String} : utf8 s <+: utf8 t ↔ s.toList <+: t.toList :=
  flatMap_encode_prefix_iff

end Text
end ServiceDiscovery
