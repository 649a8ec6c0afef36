import ServiceDiscovery.Proofs.Json.Grammar

/-!
# Reading string literals

What the readers make of a string literal is what the grammar says that it stands for,
and whatever is read into a text could have been skipped as well.

Main results:

- Theorem {lit}`Json.readText_eq_ok_iff`: a text is read exactly from the literals that
  spell it.
- Theorem {lit}`Json.Literal.skipText`: every literal can be skipped.
- Theorem {lit}`Json.Spells.literal`: what spells a text is a literal.
-/

namespace ServiceDiscovery

namespace Text

theorem toByteArray_of_ofUtf8? {raw : Bytes} {s : String} (h : ofUtf8? raw = some s) :
    s.toByteArray = raw.toByteArray := by
  rw [ofUtf8?, String.fromUTF8?] at h
  split at h
  · rw [← Option.some.inj h]
    rfl
  · cases h

/-- A text is read from its own bytes, and from no others. -/
theorem ofUtf8?_eq_some_iff {raw : Bytes} {s : String} : ofUtf8? raw = some s ↔ raw = utf8 s := by
  constructor
  · intro h
    have hbytes : raw.toByteArray = (utf8 s).toByteArray := by
      rw [← toByteArray_of_ofUtf8? h, toByteArray_of_ofUtf8? (ofUtf8?_utf8 s)]
    have hdata := congrArg ByteArray.data hbytes
    simpa using hdata
  · rintro rfl
    exact ofUtf8?_utf8 s

end Text

namespace Json

variable {s rest raw : Bytes}

/-! ## Escapes -/

theorem readHex_eq_ok_iff {n : Nat} :
    readHex s = .ok (n, rest) ↔ ∃ digits, s = digits ++ rest ∧ Hex digits n := by
  constructor
  · intro h
    unfold readHex at h
    split at h
    · split at h
      · rename_i ha hb hc hd
        simp only [Except.ok.injEq, Prod.mk.injEq] at h
        obtain ⟨rfl, rfl⟩ := h
        exact ⟨_, rfl, .digits ha hb hc hd⟩
      · cases h
    · cases h
  · rintro ⟨_, rfl, ha, hb, hc, hd⟩
    simp only [List.cons_append, List.nil_append, readHex, ha, hb, hc, hd]

theorem readSecondHalf_eq_ok_iff {first : Nat} {bytes : Bytes} :
    readSecondHalf first s = .ok (bytes, rest) ↔
      ∃ digits second, s = 0x5c :: byte 'u' :: digits ++ rest ∧ Hex digits second ∧
        isLowSurrogate second = true ∧ bytes = String.utf8EncodeChar
          (Char.ofNat ((first - 0xd800) * 0x400 + (second - 0xdc00) + 0x10000)) := by
  constructor
  · intro h
    unfold readSecondHalf at h
    split at h
    · cases h
    · cases h
    · split at h
      · cases h
      · rename_i second _ hsecond
        obtain ⟨digits, rfl, hdigits⟩ := readHex_eq_ok_iff.mp hsecond
        split at h
        · rename_i hlow
          simp only [Except.ok.injEq, Prod.mk.injEq] at h
          obtain ⟨rfl, rfl⟩ := h
          exact ⟨digits, second, rfl, hdigits, hlow, rfl⟩
        · cases h
    · cases h
  · rintro ⟨digits, second, rfl, hdigits, hlow, hbytes⟩
    have hread : readHex (digits ++ rest) = .ok (second, rest) :=
      readHex_eq_ok_iff.mpr ⟨digits, rfl, hdigits⟩
    rw [show byte 'u' = 0x75 by decide]
    simp only [List.cons_append, readSecondHalf, hread, hlow, if_true, hbytes]

/-- An escape is read as what it stands for. -/
theorem readEscape_eq_ok_iff {bytes : Bytes} :
    readEscape s = .ok (bytes, rest) ↔ ∃ e, s = e ++ rest ∧ Escape e bytes := by
  constructor
  · intro h
    unfold readEscape at h
    split at h
    · cases h
    · rename_i b tail
      split at h
      · rename_i value hshort
        simp only [Except.ok.injEq, Prod.mk.injEq] at h
        obtain ⟨rfl, rfl⟩ := h
        exact ⟨[b], rfl, .short hshort⟩
      · split at h
        · rename_i hu
          subst hu
          unfold readNumericEscape at h
          split at h
          · cases h
          · rename_i unit _ hunit
            obtain ⟨digits, rfl, hdigits⟩ := readHex_eq_ok_iff.mp hunit
            split at h
            · cases h
            · rename_i hlow
              rw [Bool.not_eq_true] at hlow
              split at h
              · rename_i hhigh
                obtain ⟨digits', second, rfl, hdigits', hlow', hbytes⟩ :=
                  readSecondHalf_eq_ok_iff.mp h
                rw [hbytes]
                exact ⟨_, (List.append_assoc (byte 'u' :: digits) _ rest).symm,
                  .pair hdigits hhigh hdigits' hlow'⟩
              · rename_i hhigh
                rw [Bool.not_eq_true] at hhigh
                simp only [Except.ok.injEq, Prod.mk.injEq] at h
                obtain ⟨rfl, rfl⟩ := h
                exact ⟨byte 'u' :: digits, rfl, .code hdigits hlow hhigh⟩
        · cases h
  · rintro ⟨e, rfl, he⟩
    have hu : shortEscape? (byte 'u') = none := by decide
    cases he with
    | short hshort => simp only [List.cons_append, List.nil_append, readEscape, hshort]
    | @code digits unit hdigits hlow hhigh =>
        have hread : readHex (digits ++ rest) = .ok (unit, rest) :=
          readHex_eq_ok_iff.mpr ⟨digits, rfl, hdigits⟩
        simp only [List.cons_append, readEscape, hu, if_true, readNumericEscape, hread, hlow,
          hhigh, Bool.false_eq_true, if_false]
    | @pair digits digits' first second hfirst hhigh hsecond hlow =>
        have hhalf : readSecondHalf first (0x5c :: byte 'u' :: digits' ++ rest) = .ok (_, rest) :=
          readSecondHalf_eq_ok_iff.mpr ⟨digits', second, rfl, hsecond, hlow, rfl⟩
        have hread : readHex (digits ++ (0x5c :: byte 'u' :: digits' ++ rest)) =
            .ok (first, 0x5c :: byte 'u' :: digits' ++ rest) :=
          readHex_eq_ok_iff.mpr ⟨digits, rfl, hfirst⟩
        have hnotlow : isLowSurrogate first = false := by
          simp only [isHighSurrogate, isLowSurrogate, Bool.and_eq_true, decide_eq_true_eq,
            Bool.and_eq_false_iff, decide_eq_false_iff_not] at hhigh ⊢
          omega
        rw [List.append_assoc, List.cons_append, readEscape, hu]
        simp only [if_true, readNumericEscape, hread, hnotlow, hhigh, Bool.false_eq_true, if_false,
          hhalf]

/-! ## Texts -/

theorem map_eq_ok_iff {α β ε : Type} {f : α → β} {r : Except ε α} {b : β} :
    r.map f = .ok b ↔ ∃ a, r = .ok a ∧ f a = b := by
  cases r with
  | error e => simp [Except.map]
  | ok a => simp [Except.map]

/-- A literal is read as the bytes that it stands for. -/
theorem Spells.readRaw (h : Spells s raw) (rest : Bytes) :
    Json.readRaw (s ++ 0x22 :: rest) = .ok (raw, rest) := by
  induction h with
  | nil => rw [List.nil_append, Json.readRaw, if_pos rfl]
  | @plain b s raw hb h ih =>
      obtain ⟨hquote, hescape, hcontrol⟩ := hb
      rw [List.cons_append, Json.readRaw, if_neg hquote, if_neg hescape, if_neg hcontrol, ih]
      rfl
  | @escape e value s raw he h ih =>
      have hread : readEscape (e ++ (s ++ 0x22 :: rest)) = .ok (value, s ++ 0x22 :: rest) :=
        readEscape_eq_ok_iff.mpr ⟨e, rfl, he⟩
      rw [List.cons_append, List.append_assoc, Json.readRaw, if_neg (by decide), if_pos rfl]
      split
      · rename_i heq
        rw [hread] at heq
        cases heq
      · rename_i heq
        rw [hread] at heq
        cases heq
        rw [ih]
        rfl

/-- What is read of a literal is what it stands for. -/
theorem spells_of_readRaw (h : readRaw s = .ok (raw, rest)) :
    ∃ body, s = body ++ 0x22 :: rest ∧ Spells body raw := by
  fun_induction readRaw s generalizing raw rest with
  | case1 => cases h
  | case2 =>
      simp only [Except.ok.injEq, Prod.mk.injEq] at h
      obtain ⟨rfl, rfl⟩ := h
      exact ⟨[], rfl, .nil⟩
  | case3 => cases h
  | case4 tail _ after hescape _ _ ih =>
      obtain ⟨⟨raw', rest'⟩, hread, hr⟩ := map_eq_ok_iff.mp h
      simp only [Prod.mk.injEq] at hr
      obtain ⟨rfl, rfl⟩ := hr
      obtain ⟨body, rfl, hbody⟩ := ih hread
      obtain ⟨e, rfl, he⟩ := readEscape_eq_ok_iff.mp hescape
      exact ⟨0x5c :: (e ++ body), by simp, .escape he hbody⟩
  | case5 => cases h
  | case6 b tail hquote hescape hcontrol ih =>
      obtain ⟨⟨raw', rest'⟩, hread, hr⟩ := map_eq_ok_iff.mp h
      simp only [Prod.mk.injEq] at hr
      obtain ⟨rfl, rfl⟩ := hr
      obtain ⟨body, rfl, hbody⟩ := ih hread
      exact ⟨b :: body, rfl, .plain ⟨hquote, hescape, hcontrol⟩ hbody⟩

/-- A text is read exactly from the literals that spell it. -/
theorem readText_eq_ok_iff {text : String} :
    readText s = .ok (text, rest) ↔
      ∃ body, s = body ++ 0x22 :: rest ∧ Spells body (Text.utf8 text) := by
  constructor
  · intro h
    unfold readText at h
    split at h
    · cases h
    · rename_i raw _ hraw
      split at h
      · rename_i htext
        simp only [Except.ok.injEq, Prod.mk.injEq] at h
        obtain ⟨rfl, rfl⟩ := h
        rw [← Text.ofUtf8?_eq_some_iff.mp htext]
        exact spells_of_readRaw hraw
      · cases h
  · rintro ⟨body, rfl, hbody⟩
    simp only [readText, hbody.readRaw, Text.ofUtf8?_utf8]

/-! ## Skipping -/

theorem EscapeForm.skipEscape {e : Bytes} (h : EscapeForm e) (rest : Bytes) :
    Json.skipEscape (e ++ rest) = .ok rest := by
  cases h with
  | short hshort => simp only [List.cons_append, List.nil_append, Json.skipEscape, hshort]
  | @code digits unit hdigits =>
      have hread : readHex (digits ++ rest) = .ok (unit, rest) :=
        readHex_eq_ok_iff.mpr ⟨digits, rfl, hdigits⟩
      simp only [List.cons_append, Json.skipEscape, show shortEscape? (byte 'u') = none by decide,
        if_true, hread, Except.map]

/-- Every literal can be skipped. -/
theorem Literal.skipText (h : Literal s) (rest : Bytes) :
    Json.skipText (s ++ 0x22 :: rest) = .ok rest := by
  induction h with
  | nil => rw [List.nil_append, Json.skipText, if_pos rfl]
  | plain hb h ih =>
      obtain ⟨hquote, hescape, hcontrol⟩ := hb
      rw [List.cons_append, Json.skipText, if_neg hquote, if_neg hescape, if_neg hcontrol, ih]
  | @escape e s he h ih =>
      have hskip := he.skipEscape (s ++ 0x22 :: rest)
      rw [List.cons_append, List.append_assoc, Json.skipText, if_neg (by decide), if_pos rfl]
      split
      · rename_i heq
        rw [hskip] at heq
        cases heq
      · rename_i heq
        rw [hskip] at heq
        cases heq
        exact ih

/-- What spells a text is a literal. -/
theorem Spells.literal (h : Spells s raw) : Literal s := by
  induction h with
  | nil => exact .nil
  | plain hb h ih => exact .plain hb ih
  | @escape e value s raw he h ih =>
      cases he with
      | short hshort => exact .escape (.short hshort) ih
      | code hdigits => exact .escape (.code hdigits) ih
      | pair hfirst hhigh hsecond hlow =>
          rw [List.append_assoc]
          exact .escape (.code hfirst) (.escape (.code hsecond) ih)

end Json
end ServiceDiscovery
