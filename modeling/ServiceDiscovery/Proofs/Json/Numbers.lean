import Mathlib.Data.List.TakeWhile
import ServiceDiscovery.Proofs.Json.Literals

/-!
# Reading numbers

A 64-bit integer is read exactly from its digits, with a minus sign if it is negative;
a fraction or an exponent makes a number something else to the reader, however little
it changes the value.  Any number at all can be skipped.

Main results:

- Theorem {lit}`Json.Unsigned.skipNumber`: every number can be skipped.
- Theorem {lit}`Json.readInteger_eq_ok_iff`: an integer is read exactly from digits of
  which it is the value.
-/

namespace ServiceDiscovery
namespace Json

variable {s rest after : Bytes}

/-! ## Where digits end -/

/-- No digit comes first. -/
def NoDigit (s : Bytes) : Prop :=
  ∀ b, s.head? = some b → isDigit b = false

/-- What comes first does not carry a number on. -/
def EndsNumber (s : Bytes) : Prop :=
  ∀ b, s.head? = some b → isDigit b = false ∧ b ≠ byte '.' ∧ b ≠ byte 'e' ∧ b ≠ byte 'E'

theorem EndsNumber.noDigit (h : EndsNumber s) : NoDigit s :=
  fun b hb => (h b hb).1

theorem NoDigit.of_cons {b : UInt8} (h : isDigit b = false) (s : Bytes) : NoDigit (b :: s) := by
  rintro _ ⟨⟩
  exact h

/-- The digits in front are what can be taken away so that no digit comes first any more. -/
theorem spanDigits_eq_iff {digits : Bytes} :
    spanDigits s = (digits, rest) ↔
      s = digits ++ rest ∧ (∀ b ∈ digits, isDigit b = true) ∧ NoDigit rest := by
  rw [spanDigits, Prod.mk.injEq]
  constructor
  · rintro ⟨rfl, rfl⟩
    refine ⟨List.takeWhile_append_dropWhile.symm, fun b hb => List.mem_takeWhile_imp hb, ?_⟩
    intro b hb
    have := List.head?_dropWhile_not isDigit s
    rw [hb] at this
    simpa using this
  · rintro ⟨rfl, hdigits, hrest⟩
    rw [List.takeWhile_append_of_pos hdigits, List.dropWhile_append_of_pos hdigits]
    cases rest with
    | nil => simp
    | cons b tail => simp [hrest b rfl]

theorem Exponent.noDigit {e : Bytes} (h : Exponent e) (hrest : NoDigit rest) :
    NoDigit (e ++ rest) := by
  cases h with
  | none => exact hrest
  | letter he => rcases he with rfl | rfl <;> exact NoDigit.of_cons (by decide) _

theorem Fraction.noDigit {f : Bytes} (h : Fraction f) (hrest : NoDigit rest) :
    NoDigit (f ++ rest) := by
  cases h with
  | none => exact hrest
  | point => exact NoDigit.of_cons (by decide) _

/-! ## Skipping -/

theorem exponentSign_written {sign : Bytes} (hsign : ExponentSign sign) (h : Digits s)
    (rest : Bytes) : (exponentSign (sign ++ (s ++ rest))).2 = s ++ rest := by
  rcases hsign with rfl | rfl | rfl
  · obtain ⟨hne, hall⟩ := h
    cases s with
    | nil => exact absurd rfl hne
    | cons b tail =>
        have hb := hall b List.mem_cons_self
        have hplus : b ≠ byte '+' := by
          rintro rfl
          exact absurd hb (by decide)
        have hminus : b ≠ byte '-' := by
          rintro rfl
          exact absurd hb (by decide)
        rw [List.nil_append, List.cons_append, exponentSign, if_neg hplus, if_neg hminus]
  · rw [List.cons_append, List.nil_append, exponentSign, if_pos rfl]
  · rw [List.cons_append, List.nil_append, exponentSign, if_neg (by decide), if_pos rfl]

/-- Digits are passed up to what comes after them. -/
theorem dropWhile_digits (h : ∀ b ∈ s, isDigit b = true) (hrest : NoDigit rest) :
    (s ++ rest).dropWhile isDigit = rest :=
  congrArg Prod.snd (spanDigits_eq_iff.mpr ⟨rfl, h, hrest⟩)

/-- An exponent is skipped as far as it goes. -/
theorem Exponent.skipScale {e : Bytes} (h : Exponent e) (hrest : EndsNumber rest) :
    Json.skipScale (e ++ rest) = .ok rest := by
  cases h with
  | none =>
      cases rest with
      | nil => rfl
      | cons b tail =>
          obtain ⟨_, _, he, hE⟩ := hrest b rfl
          rw [List.nil_append, Json.skipScale, if_neg (not_or.mpr ⟨he, hE⟩)]
  | @letter e sign s he hsign h =>
      rw [List.cons_append, List.append_assoc, Json.skipScale, if_pos he, skipExponent,
        exponentSign_written hsign h]
      obtain ⟨hne, hall⟩ := h
      cases s with
      | nil => exact absurd rfl hne
      | cons b tail =>
          rw [List.forall_mem_cons] at hall
          simp only [List.cons_append, hall.1, if_true, dropWhile_digits hall.2 hrest.noDigit]

/-- A fraction is skipped as far as it goes, and an exponent after it too. -/
theorem Fraction.skipPoint {f e : Bytes} (hf : Fraction f) (he : Exponent e)
    (hrest : EndsNumber rest) : Json.skipPoint (f ++ (e ++ rest)) = .ok rest := by
  have hscale := he.skipScale hrest
  cases hf with
  | none =>
      rw [List.nil_append]
      cases hbytes : e ++ rest with
      | nil =>
          rw [(List.append_eq_nil_iff.mp hbytes).2]
          rfl
      | cons b tail =>
          have hpoint : b ≠ byte '.' := by
            cases he with
            | none =>
                rw [List.nil_append] at hbytes
                exact (hrest b (by rw [hbytes]; rfl)).2.1
            | letter he =>
                rw [← (List.cons.inj hbytes).1]
                rcases he with rfl | rfl <;> decide
          rw [Json.skipPoint, if_neg hpoint, ← hbytes, hscale]
  | @point s h =>
      obtain ⟨hne, hall⟩ := h
      cases s with
      | nil => exact absurd rfl hne
      | cons b tail =>
          have hb := hall b List.mem_cons_self
          rw [List.cons_append, Json.skipPoint, if_pos rfl,
            dropWhile_digits hall (he.noDigit hrest.noDigit), hscale]
          simp [hb]

/-- Every number can be skipped. -/
theorem Unsigned.skipNumber (h : Unsigned s) (hrest : EndsNumber rest) :
    Json.skipNumber (s ++ rest) = .ok rest := by
  obtain ⟨⟨⟨hne, hall⟩, hzero⟩, hf, he⟩ := h
  rename_i s f e
  have hpoint := hf.skipPoint he hrest
  have hmore := hf.noDigit (he.noDigit hrest.noDigit)
  rw [List.append_assoc, List.append_assoc]
  cases s with
  | nil => exact absurd rfl hne
  | cons b tail =>
      by_cases hb : b = byte '0'
      · subst hb
        obtain rfl : tail = [] := (List.cons.inj (hzero rfl)).2
        have hhead : ((f ++ (e ++ rest)).head?.map isDigit).getD false = false := by
          cases hbytes : (f ++ (e ++ rest)).head? with
          | none => rfl
          | some c => exact hmore c hbytes
        rw [List.cons_append, List.nil_append, Json.skipNumber, if_pos rfl, hhead,
          if_neg Bool.false_ne_true, hpoint]
      · rw [List.forall_mem_cons] at hall
        rw [List.cons_append, Json.skipNumber, if_neg hb, if_pos hall.1,
          dropWhile_digits hall.2 hmore, hpoint]

/-! ## Reading an integer part -/

/-- Gathering digits never makes a significand smaller. -/
theorem le_foldl_digit (n : Nat) (ds : Bytes) :
    n ≤ ds.foldl (fun n d => n * 10 + digit d) n := by
  induction ds generalizing n with
  | nil => exact Nat.le_refl n
  | cons d ds ih =>
      rw [List.foldl_cons]
      exact Nat.le_trans (by omega) (ih (n * 10 + digit d))

/-- Digits of a number that fits into a word are all gathered. -/
theorem absorb_eq {n : Nat} {ds : Bytes}
    (h : ds.foldl (fun n d => n * 10 + digit d) n < UInt64.size) :
    absorb n ds = (ds.foldl (fun n d => n * 10 + digit d) n, []) := by
  induction ds generalizing n with
  | nil => rfl
  | cons d ds ih =>
      rw [List.foldl_cons] at h ⊢
      have hnext := Nat.lt_of_le_of_lt (le_foldl_digit (n * 10 + digit d) ds) h
      rw [absorb]
      simp only [hnext, if_true]
      exact ih h

/-- If no digit is left, all of them have been gathered. -/
theorem eq_of_absorb_left {n : Nat} {ds : Bytes} (h : (absorb n ds).2 = []) :
    (absorb n ds).1 = ds.foldl (fun n d => n * 10 + digit d) n := by
  induction ds generalizing n with
  | nil => rfl
  | cons d ds ih =>
      simp only [absorb] at h ⊢
      split at h
      · rename_i hnext
        rw [if_pos hnext, List.foldl_cons]
        exact ih h
      · cases h

/-- The first digit is always gathered. -/
theorem absorb_first (b : UInt8) (ds : Bytes) : absorb 0 (b :: ds) = absorb (digit b) ds := by
  have hlt : digit b < UInt64.size := by
    have hb := b.toNat_lt
    have hsize : 2 ^ 8 < UInt64.size := by decide
    simp only [digit]
    omega
  rw [absorb]
  simp only [Nat.zero_mul, Nat.zero_add, hlt, if_true]

/-- The reader takes an integer part and goes on at what follows it. -/
theorem readNumber_written (h : IntPart s) (hrest : NoDigit rest) (negative : Bool) :
    readNumber negative (s ++ rest) =
      readPoint negative (absorb 0 s).1 (absorb 0 s).2.length rest := by
  obtain ⟨⟨hne, hall⟩, hzero⟩ := h
  cases s with
  | nil => exact absurd rfl hne
  | cons b tail =>
      by_cases hb : b = byte '0'
      · subst hb
        obtain rfl : tail = [] := (List.cons.inj (hzero rfl)).2
        have hhead : (rest.head?.map isDigit).getD false = false := by
          cases hbytes : rest.head? with
          | none => rfl
          | some c => exact hrest c hbytes
        rw [List.cons_append, List.nil_append, readNumber, if_pos rfl, hhead,
          if_neg Bool.false_ne_true]
        rfl
      · rw [List.forall_mem_cons] at hall
        rw [List.cons_append, readNumber, if_neg hb, if_pos hall.1,
          spanDigits_eq_iff.mpr ⟨rfl, hall.2, hrest⟩, absorb_first]

/-- Whatever the reader takes for a number starts with an integer part. -/
theorem exists_of_readNumber {negative : Bool} {n : Number}
    (h : readNumber negative s = .ok (n, after)) :
    ∃ digits rest, s = digits ++ rest ∧ IntPart digits ∧ NoDigit rest := by
  unfold readNumber at h
  split at h
  · cases h
  · rename_i b tail
    split at h
    · rename_i hb
      subst hb
      split at h
      · cases h
      · rename_i hhead
        have hdigits : Digits [byte '0'] :=
          ⟨List.cons_ne_nil _ _, List.forall_mem_singleton.mpr (by decide)⟩
        refine ⟨[byte '0'], tail, rfl, ⟨hdigits, fun _ => rfl⟩, ?_⟩
        intro c hc
        rw [hc, Option.map_some, Option.getD_some, Bool.not_eq_true] at hhead
        exact hhead
    · rename_i hzero
      split at h
      · rename_i hb
        obtain ⟨htail, hdigits, hrest⟩ := spanDigits_eq_iff.mp
          (show spanDigits tail = ((spanDigits tail).1, (spanDigits tail).2) from rfl)
        refine ⟨b :: (spanDigits tail).1, (spanDigits tail).2, congrArg (List.cons b) htail,
          ⟨⟨List.cons_ne_nil _ _, ?_⟩, ?_⟩, hrest⟩
        · rw [List.forall_mem_cons]
          exact ⟨hb, hdigits⟩
        · intro hfirst
          exact absurd (Option.some.inj hfirst) hzero
      · cases h

/-! ## Reading what follows -/

variable {negative : Bool} {significand : Nat} {exponent z : Int}

/-- A number that is made of parts is no integer, even if it has an integer's value. -/
theorem ne_integer_of_ofParts (rest : Bytes) :
    followedBy rest (ofParts negative significand exponent) ≠ .ok (.integer z, after) := by
  intro h
  unfold ofParts at h
  split at h
  · cases h
  · cases (Prod.mk.inj (Except.ok.inj h)).1

theorem ne_integer_of_readExponent :
    readExponent negative significand exponent s ≠ .ok (.integer z, after) := by
  intro h
  unfold readExponent at h
  dsimp only at h
  split at h
  · cases h
  · split at h
    · cases h
    · split at h
      · exact ne_integer_of_ofParts _ h
      · split at h
        · cases h
        · cases (Prod.mk.inj (Except.ok.inj h)).1

/-- Where an exponent may stand, no integer is read any more. -/
theorem ne_integer_of_readScale :
    readScale negative significand exponent s ≠ .ok (.integer z, after) := by
  unfold readScale
  split
  · split
    · exact ne_integer_of_readExponent
    · exact ne_integer_of_ofParts _
  · exact ne_integer_of_ofParts _

theorem ne_integer_of_readFraction :
    readFraction negative significand exponent s ≠ .ok (.integer z, after) := by
  intro h
  unfold readFraction at h
  dsimp only at h
  split at h
  · split at h
    · cases h
    · cases h
  · exact ne_integer_of_readScale h

/-- Digits that fit into a word and that nothing carries on are an integer. -/
theorem readPoint_ends (hrest : EndsNumber rest) (negative : Bool) (n : Nat) :
    readPoint negative n 0 rest = .ok (signed negative n, rest) := by
  cases rest with
  | nil => rfl
  | cons b tail =>
      obtain ⟨_, hpoint, he, hE⟩ := hrest b rfl
      rw [readPoint, if_neg hpoint, if_pos ⟨rfl, he, hE⟩]

/-- Only such digits are an integer. -/
theorem of_readPoint_integer {left : Nat} (hrest : NoDigit rest)
    (h : readPoint negative significand left rest = .ok (.integer z, after)) :
    left = 0 ∧ after = rest ∧ EndsNumber rest ∧ signed negative significand = .integer z := by
  unfold readPoint at h
  split at h
  · rename_i b tail
    split at h
    · exact absurd h ne_integer_of_readFraction
    · rename_i hpoint
      split at h
      · rename_i hends
        simp only [Except.ok.injEq, Prod.mk.injEq] at h
        refine ⟨hends.1, h.2.symm, ?_, h.1⟩
        rintro _ ⟨⟩
        exact ⟨hrest b rfl, hpoint, hends.2⟩
      · exact absurd h ne_integer_of_readScale
  · split at h
    · rename_i hleft
      simp only [Except.ok.injEq, Prod.mk.injEq] at h
      refine ⟨hleft, h.2.symm, ?_, h.1⟩
      intro b hb
      cases hb
    · exact absurd h ne_integer_of_readScale

/-! ## Reading integers -/

/-- The magnitude of a 64-bit integer with its sign; zero has none. -/
def IsSigned (negative : Bool) (magnitude : Nat) (value : Int64) : Prop :=
  if negative then magnitude ≠ 0 ∧ value.toInt = -magnitude else value.toInt = magnitude

/-- A sign and a magnitude are a 64-bit integer exactly if there is one with that sign and
magnitude. -/
theorem toInt64_signed_iff {magnitude : Nat} {value : Int64} :
    (signed negative magnitude).toInt64 = .ok value ↔ IsSigned negative magnitude value := by
  have hmax : Int64.maxValue.toInt = 2 ^ 63 - 1 := by decide
  have hmin : Int64.minValue.toInt = -2 ^ 63 := by decide
  have hlower := value.le_toInt
  have hupper := value.toInt_lt
  have hvalue (z : Int) (hz : -2 ^ 63 ≤ z) (hz' : z < 2 ^ 63) :
      Int64.ofInt z = value ↔ value.toInt = z := by
    constructor
    · rintro rfl
      exact Int64.toInt_ofInt_of_le hz hz'
    · rintro rfl
      exact Int64.ofInt_toInt value
  cases negative with
  | false =>
      simp only [signed, Bool.not_false, if_true, Number.toInt64, IsSigned, Bool.false_eq_true,
        if_false]
      split
      · rw [Except.ok.injEq, hvalue _ (by omega) (by omega)]
      · simp only [reduceCtorEq, false_iff]
        omega
  | true =>
      simp only [signed, Bool.not_true, Bool.false_eq_true, if_false, IsSigned, if_true]
      split
      · rename_i hfits
        rw [Number.toInt64, if_pos (by omega), Except.ok.injEq, hvalue _ (by omega) (by omega)]
        exact ⟨fun h => ⟨by omega, h⟩, And.right⟩
      · simp only [Number.toInt64, reduceCtorEq, false_iff]
        omega

/-- An integer is read exactly from digits of which it is the value. -/
theorem readInteger_eq_ok_iff {value : FieldValue} :
    readInteger negative s = .ok (value, rest) ↔
      ∃ digits n, s = digits ++ rest ∧ IntPart digits ∧ EndsNumber rest ∧
        value = .integer n ∧ IsSigned negative (decimalValue digits) n := by
  constructor
  · intro h
    unfold readInteger at h
    split at h
    · cases h
    · rename_i n after hread
      obtain ⟨v, hv, hpair⟩ := map_eq_ok_iff.mp h
      obtain ⟨rfl, rfl⟩ := Prod.mk.inj hpair
      obtain ⟨digits, rest, rfl, hdigits, hrest⟩ := exists_of_readNumber hread
      cases n with
      | decimal bits => cases hv
      | integer z =>
          rw [readNumber_written hdigits hrest] at hread
          obtain ⟨hleft, rfl, hends, hsigned⟩ := of_readPoint_integer hrest hread
          rw [← hsigned, eq_of_absorb_left (List.eq_nil_of_length_eq_zero hleft)] at hv
          exact ⟨digits, v, rfl, hdigits, hends, rfl, toInt64_signed_iff.mp hv⟩
  · rintro ⟨digits, n, rfl, hdigits, hends, rfl, hsigned⟩
    have hfits : decimalValue digits < UInt64.size := by
      have hlower := n.le_toInt
      have hupper := n.toInt_lt
      have hsize : 2 ^ 63 < UInt64.size := by decide
      unfold IsSigned at hsigned
      split at hsigned <;> omega
    have hread : readNumber negative (digits ++ rest) =
        .ok (signed negative (decimalValue digits), rest) := by
      rw [readNumber_written hdigits hends.noDigit, absorb_eq hfits]
      exact readPoint_ends hends negative _
    rw [readInteger, hread]
    simp only [toInt64_signed_iff.mpr hsigned, Except.map]

end Json
end ServiceDiscovery
