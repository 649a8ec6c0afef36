/-!
# Unique identifiers

An identifier is a 128-bit number, written as 32 hexadecimal digits in groups of 8, 4, 4, 4 and 12.

Main definitions:

- {lit}`Uuid.text`: the canonical text.
- {lit}`Uuid.random`: the identifier made from 122 drawn bits; the other six mark it as random.
-/

namespace ServiceDiscovery

/-- A 128-bit identifier. -/
structure Uuid where
  value : BitVec 128
  deriving DecidableEq, Repr

namespace Uuid

/-- The last `count` hexadecimal digits of a number. -/
def hexDigits : Nat → Nat → List Char
  | 0, _ => []
  | count + 1, n => hexDigits count (n / 16) ++ [Nat.digitChar (n % 16)]

@[simp]
theorem hexDigits_length (count n : Nat) : (hexDigits count n).length = count := by
  induction count generalizing n with
  | zero => rfl
  | succ count ih => simp [hexDigits, ih]

/-- The canonical text of an identifier. -/
def text (u : Uuid) : String :=
  let n := u.value.toNat
  String.ofList
    (hexDigits 8 (n >>> 96) ++ '-' :: hexDigits 4 (n >>> 80) ++ '-' :: hexDigits 4 (n >>> 64)
      ++ '-' :: hexDigits 4 (n >>> 48) ++ '-' :: hexDigits 12 n)

/-- The identifier made from drawn bits: 48 of them, the version 4, 12 more, the variant 10, and
the last 62. -/
def random (bits : Nat) : Uuid :=
  ⟨BitVec.ofNat 48 (bits >>> 74) ++ 4#4 ++ BitVec.ofNat 12 (bits >>> 62) ++ 2#2 ++
    BitVec.ofNat 62 bits⟩

end Uuid
end ServiceDiscovery
