import ServiceDiscovery.Proofs.Json.Numbers

/-!
# Reading values

Whatever the grammar calls a value can be skipped, however deep it is nested and
wherever there is space in it; and a value is read into a field exactly if it denotes
something of the field's type.

Main results:

- Theorem {lit}`Json.Written.skips`: values, and the items of a bracket, are passed as
  far as they go.
- Theorem {lit}`Json.readValue_eq_ok_iff`: what a field is given by a value is what the
  value denotes.
-/

namespace ServiceDiscovery
namespace Json

variable {s rest after : Bytes} {opened : List Bracket}

/-! ## Space -/

/-- Space in front makes no difference to skipping space. -/
theorem skipSpace_append {sp : Bytes} (h : Space sp) (rest : Bytes) :
    skipSpace (sp ++ rest) = skipSpace rest :=
  List.dropWhile_append_of_pos h

theorem skipSpace_of_not {b : UInt8} (h : isSpace b = false) (rest : Bytes) :
    skipSpace (b :: rest) = b :: rest := by
  rw [skipSpace, List.dropWhile_cons, h]
  rfl

theorem Space.nil : Space [] := by
  intro b hb
  cases hb

theorem Space.single {b : UInt8} (h : isSpace b = true) : Space [b] :=
  List.forall_mem_singleton.mpr h

/-- Space up to a byte that is none. -/
theorem skipSpace_stops {sp : Bytes} {b : UInt8} (h : Space sp) (hb : isSpace b = false)
    (rest : Bytes) : skipSpace (sp ++ b :: rest) = b :: rest := by
  rw [skipSpace_append h, skipSpace_of_not hb]

/-- Space ends a number. -/
theorem endsNumber_of_isSpace {b : UInt8} (h : isSpace b = true) (s : Bytes) :
    EndsNumber (b :: s) := by
  rintro _ ⟨⟩
  simp only [isSpace, Bool.or_eq_true, decide_eq_true_eq] at h
  rcases h with ((rfl | rfl) | rfl) | rfl
  all_goals decide

/-- Neither space nor what follows it carries a number on. -/
theorem EndsNumber.of_space {sp : Bytes} (hsp : Space sp) (h : EndsNumber rest) :
    EndsNumber (sp ++ rest) := by
  cases sp with
  | nil => exact h
  | cons b sp => exact endsNumber_of_isSpace (hsp b List.mem_cons_self) _

/-! ## Steps of the skipper -/

/-- How skipping a value goes on depends on the first byte that is no space. -/
theorem skipValue_cons {b : UInt8} {tail : Bytes} (h : skipSpace s = b :: tail) :
    skipValue opened s =
      if b = 0x5b then skipFirst .list opened tail
      else if b = 0x7b then skipFirst .object opened tail
      else (skipScalar b tail).bind (skipAfter opened) := by
  rw [skipValue]
  split
  · rename_i heq
    rw [h] at heq
    cases heq
  · rename_i heq
    rw [h] at heq
    cases heq
    split
    · rfl
    · split
      · rfl
      · split
        · rename_i heq
          simp only [heq, Except.bind]
        · rename_i heq
          simp only [heq, Except.bind]

/-- After an opening bracket comes the closing one or an item. -/
theorem skipFirst_cons {bracket : Bracket} {b : UInt8} {tail : Bytes}
    (h : skipSpace s = b :: tail) :
    skipFirst bracket opened s =
      if b = bracket.closer then skipAfter opened tail
      else skipItem bracket opened (b :: tail) := by
  rw [skipFirst]
  split
  · rename_i heq
    rw [h] at heq
    cases heq
  · rename_i heq
    rw [h] at heq
    cases heq
    rfl

/-- After a value inside a bracket comes a comma or the closing bracket. -/
theorem skipAfter_cons {bracket : Bracket} {b : UInt8} {tail : Bytes}
    (h : skipSpace s = b :: tail) :
    skipAfter (bracket :: opened) s =
      if b = 0x2c then skipItem bracket opened tail
      else if b = bracket.closer then skipAfter opened tail
      else .error bracket.unseparated := by
  rw [skipAfter]
  split
  · rename_i heq
    rw [h] at heq
    cases heq
  · rename_i heq
    rw [h] at heq
    cases heq
    rfl

/-- An item of a list is a value. -/
theorem skipItem_list : skipItem .list opened s = skipValue (.list :: opened) s := by
  rw [skipItem]

/-- An opening bracket is followed by the inside of its kind. -/
theorem skipValue_opener {bracket : Bracket} {tail : Bytes}
    (h : skipSpace s = bracket.opener :: tail) :
    skipValue opened s = skipFirst bracket opened tail := by
  rw [skipValue_cons h]
  cases bracket <;> rfl

theorem Bracket.isSpace_closer (bracket : Bracket) : isSpace bracket.closer = false := by
  cases bracket <;> decide

theorem skipAfter_closer {bracket : Bracket} {tail : Bytes} :
    skipAfter (bracket :: opened) (bracket.closer :: tail) = skipAfter opened tail := by
  rw [skipAfter_cons (skipSpace_of_not bracket.isSpace_closer tail), if_pos rfl, if_neg]
  cases bracket <;> decide

/-- An item of an object is a name and then a value. -/
theorem skipItem_object : skipItem .object opened s =
    (skipName s).bind (skipValue (.object :: opened)) := by
  rw [skipItem]
  split
  · rename_i heq
    simp only [heq, Except.bind]
  · rename_i heq
    simp only [heq, Except.bind]

/-- Space in front of an item does not matter. -/
theorem skipItem_stops {bracket : Bracket} {sp : Bytes} {b : UInt8} (hsp : Space sp)
    (hb : isSpace b = false) (tail : Bytes) :
    skipItem bracket opened (sp ++ b :: tail) = skipItem bracket opened (b :: tail) := by
  cases bracket with
  | list =>
      rw [skipItem_list, skipItem_list, skipValue_cons (skipSpace_stops hsp hb tail),
        skipValue_cons (skipSpace_of_not hb tail)]
  | object =>
      rw [skipItem_object, skipItem_object, skipName, skipName, skipSpace_stops hsp hb tail,
        skipSpace_of_not hb tail]

/-! ## Scalars and labels -/

/-- The letters of a word are skipped where they stand. -/
theorem skipLetters_written (cs : List Char) (rest : Bytes) :
    skipLetters cs (cs.map byte ++ rest) = .ok rest := by
  induction cs with
  | nil => rfl
  | cons c cs ih => rw [List.map_cons, List.cons_append, skipLetters, if_pos rfl, ih]

/-- An integer begins with a digit. -/
theorem IntPart.head (h : IntPart s) : ∃ b tail, s = b :: tail ∧ isDigit b = true := by
  obtain ⟨⟨hne, hall⟩, _⟩ := h
  cases s with
  | nil => exact absurd rfl hne
  | cons b tail => exact ⟨b, tail, rfl, hall b List.mem_cons_self⟩

theorem ne_of_isDigit {b c : UInt8} (h : isDigit b = true) (hc : isDigit c = false) : b ≠ c := by
  rintro rfl
  rw [h] at hc
  cases hc

theorem isSpace_of_isDigit {b : UInt8} (h : isDigit b = true) : isSpace b = false := by
  simp only [isSpace, Bool.or_eq_false_iff, decide_eq_false_iff_not]
  exact ⟨⟨⟨ne_of_isDigit h (by decide), ne_of_isDigit h (by decide)⟩,
    ne_of_isDigit h (by decide)⟩, ne_of_isDigit h (by decide)⟩

/-- A value that begins with a digit is skipped as a number. -/
theorem skipScalar_digit {b : UInt8} (hb : isDigit b = true) (tail : Bytes) :
    skipScalar b tail = skipNumber (b :: tail) := by
  rw [skipScalar, if_neg (ne_of_isDigit hb (by decide)), if_neg (ne_of_isDigit hb (by decide)),
    if_neg (ne_of_isDigit hb (by decide)), if_neg (ne_of_isDigit hb (by decide)), if_pos hb]

/-- A scalar starts with a byte that tells it from other values, and can be skipped. -/
theorem Scalar.skipScalar (h : Scalar s) :
    ∃ b tail, s = b :: tail ∧ isSpace b = false ∧ b ≠ 0x5b ∧ b ≠ 0x7b ∧ b ≠ 0x5d ∧
      ∀ rest, EndsNumber rest → Json.skipScalar b (tail ++ rest) = .ok rest := by
  cases h with
  | null =>
      exact ⟨_, _, rfl, by decide, by decide, by decide, by decide, fun rest _ =>
        skipLetters_written ['u', 'l', 'l'] rest⟩
  | yes =>
      exact ⟨_, _, rfl, by decide, by decide, by decide, by decide, fun rest _ =>
        skipLetters_written ['r', 'u', 'e'] rest⟩
  | no =>
      exact ⟨_, _, rfl, by decide, by decide, by decide, by decide, fun rest _ =>
        skipLetters_written ['a', 'l', 's', 'e'] rest⟩
  | number h =>
      obtain ⟨b, tail, rfl, hb⟩ : ∃ b tail, s = b :: tail ∧ isDigit b = true := by
        obtain ⟨hs, _, _⟩ := h
        obtain ⟨b, tail, rfl, hb⟩ := hs.head
        exact ⟨b, _, rfl, hb⟩
      refine ⟨b, tail, rfl, isSpace_of_isDigit hb, ne_of_isDigit hb (by decide),
        ne_of_isDigit hb (by decide), ne_of_isDigit hb (by decide), fun rest hrest => ?_⟩
      rw [skipScalar_digit hb]
      exact h.skipNumber hrest
  | negative h =>
      exact ⟨_, _, rfl, by decide, by decide, by decide, by decide, fun rest hrest =>
        h.skipNumber hrest⟩
  | text h =>
      refine ⟨_, _, rfl, by decide, by decide, by decide, by decide, fun rest _ => ?_⟩
      rw [List.append_assoc]
      exact h.skipText rest

/-- A label is passed: nothing in a list, a name with its colon in an object. -/
theorem Label.skipItem {bracket : Bracket} {label : Bytes} (h : Label bracket label)
    (opened : List Bracket) (rest : Bytes) :
    Json.skipItem bracket opened (label ++ rest) = skipValue (bracket :: opened) rest := by
  cases h with
  | list => exact skipItem_list
  | @object before name after hbefore hname hafter =>
      have hskip : skipName (before ++ 0x22 :: (name ++ 0x22 :: (after ++ [0x3a])) ++ rest) =
          .ok rest := by
        have hcolon : skipSpace (after ++ 0x3a :: rest) = 0x3a :: rest :=
          skipSpace_stops hafter (by decide) rest
        simp only [List.append_assoc, List.cons_append, List.nil_append, skipName,
          skipSpace_stops hbefore (show isSpace 0x22 = false by decide), if_true, hname.skipText,
          hcolon]
      rw [skipItem_object, hskip]
      rfl

/-! ## Values -/

/-- How a value, an item or the items of a bracket start. -/
def Form.Starts : Form → Bytes → Prop
  | .value, s => ∃ b tail, s = b :: tail ∧ isSpace b = false ∧ b ≠ 0x5d
  | .item bracket, s | .items bracket, s =>
    ∃ sp b tail, s = sp ++ b :: tail ∧ Space sp ∧ isSpace b = false ∧ b ≠ bracket.closer

/-- A value does not start with space, and the items of a bracket do not start with what closes
it. -/
theorem Written.starts {form : Form} (h : Written form s) : form.Starts s := by
  induction h with
  | scalar h =>
      obtain ⟨b, tail, rfl, hspace, _, _, hcloser, _⟩ := h.skipScalar
      exact ⟨b, tail, rfl, hspace, hcloser⟩
  | empty bracket => cases bracket <;> exact ⟨_, _, rfl, by decide, by decide⟩
  | bracket bracket => cases bracket <;> exact ⟨_, _, rfl, by decide, by decide⟩
  | item hlabel hbefore _ _ ih =>
      cases hlabel with
      | list =>
          obtain ⟨b, tail, rfl, hspace, hcloser⟩ := ih
          exact ⟨_, b, _, rfl, hbefore, hspace, hcloser⟩
      | object hfront =>
          exact ⟨_, 0x22, _, by rw [List.append_assoc, List.cons_append], hfront, by decide,
            by decide⟩
  | last _ ih => exact ih
  | more _ _ ih _ =>
      obtain ⟨sp, b, tail, rfl, hrest⟩ := ih
      exact ⟨sp, b, _, by rw [List.append_assoc, List.cons_append], hrest⟩

/-- What comes after an item of a bracket. -/
def EndsItem (bracket : Bracket) (rest : Bytes) : Prop :=
  ∃ tail, rest = 0x2c :: tail ∨ rest = bracket.closer :: tail

/-- What ends an item ends a number too. -/
theorem EndsItem.endsNumber {bracket : Bracket} (h : EndsItem bracket rest) : EndsNumber rest := by
  obtain ⟨tail, rfl | rfl⟩ := h
  · rintro _ ⟨⟩
    decide
  · rintro _ ⟨⟩
    cases bracket <;> decide

/-- The skipper passes a value, an item or the items of a bracket as far as they go. -/
def Form.Skips : Form → Bytes → Prop
  | .value, s => ∀ (opened : List Bracket) (sp rest : Bytes), Space sp → EndsNumber rest →
      skipValue opened (sp ++ (s ++ rest)) = skipAfter opened rest
  | .item bracket, s => ∀ (opened : List Bracket) (rest : Bytes), EndsItem bracket rest →
      skipItem bracket opened (s ++ rest) = skipAfter (bracket :: opened) rest
  | .items bracket, s => ∀ (opened : List Bracket) (rest : Bytes),
      skipItem bracket opened (s ++ bracket.closer :: rest) = skipAfter opened rest

/-- Values, and the items of a bracket, are passed as far as they go. -/
theorem Written.skips {form : Form} (h : Written form s) : form.Skips s := by
  induction h with
  | scalar h =>
      intro opened sp rest hsp hrest
      obtain ⟨b, tail, rfl, hspace, hlist, hobject, _, hskip⟩ := h.skipScalar
      rw [List.cons_append, skipValue_cons (skipSpace_stops hsp hspace _), if_neg hlist,
        if_neg hobject, hskip rest hrest]
      rfl
  | empty bracket h =>
      intro opened sp rest hsp _
      have hopener : isSpace bracket.opener = false := by cases bracket <;> decide
      rw [List.cons_append, List.append_assoc, List.cons_append, List.nil_append,
        skipValue_opener (skipSpace_stops hsp hopener _),
        skipFirst_cons (skipSpace_stops h bracket.isSpace_closer rest), if_pos rfl]
  | bracket bracket h ih =>
      intro opened sp rest hsp _
      have hopener : isSpace bracket.opener = false := by cases bracket <;> decide
      have hitems := ih opened rest
      obtain ⟨sp', b, tail, rfl, hsp', hb, hcloser⟩ := h.starts
      simp only [List.append_assoc, List.cons_append, List.nil_append] at hitems ⊢
      rw [skipValue_opener (skipSpace_stops hsp hopener _),
        skipFirst_cons (skipSpace_stops hsp' hb _), if_neg hcloser, ← skipItem_stops hsp' hb,
        hitems]
  | item hlabel hbefore _ hafter ih =>
      intro opened rest hrest
      rw [List.append_assoc, List.append_assoc, List.append_assoc, hlabel.skipItem,
        ih _ _ _ hbefore (hrest.endsNumber.of_space hafter)]
      obtain ⟨tail, rfl | rfl⟩ := hrest
      · rw [skipAfter_cons (skipSpace_stops hafter (by decide) tail),
          skipAfter_cons (skipSpace_of_not (by decide) tail)]
      · rename_i bracket _ _ _ _ _
        rw [skipAfter_cons (skipSpace_stops hafter bracket.isSpace_closer tail),
          skipAfter_cons (skipSpace_of_not bracket.isSpace_closer tail)]
  | last _ ih =>
      intro opened rest
      rw [ih opened _ ⟨rest, Or.inr rfl⟩, skipAfter_closer]
  | more _ _ ih ihrest =>
      intro opened rest
      rw [List.append_assoc, List.cons_append, ih opened _ ⟨_, Or.inl rfl⟩,
        skipAfter_cons (skipSpace_of_not (by decide) _), if_pos rfl, ihrest opened rest]

/-! ## Fields -/

/-- An integer is a number without a sign. -/
theorem IntPart.unsigned (h : IntPart s) : Unsigned s := by
  simpa using Unsigned.parts h .none .none

/-- What denotes something is a value. -/
theorem Denotes.scalar {value : FieldValue} (h : Denotes s value) : Scalar s := by
  cases h with
  | text h => exact .text h.literal
  | natural h => exact .number (h.unsigned)
  | negative h => exact .negative (h.unsigned)

/-- What a value denotes is read from it. -/
theorem Denotes.readValue {value : FieldValue} (h : Denotes s value) {sp : Bytes} (hsp : Space sp)
    (hrest : EndsNumber rest) :
    Json.readValue value.type (sp ++ (s ++ rest)) = .ok (value, rest) := by
  cases h with
  | @text s text h =>
      have hread : readText (s ++ 0x22 :: rest) = .ok (text, rest) :=
        readText_eq_ok_iff.mpr ⟨s, rfl, h⟩
      rw [List.cons_append, List.append_assoc, Json.readValue, skipSpace_stops hsp (by decide)]
      simp only [FieldValue.type, if_true, List.cons_append, List.nil_append, hread, Except.map]
  | @natural s n h hvalue =>
      have hread : readInteger false (s ++ rest) = .ok (.integer n, rest) :=
        readInteger_eq_ok_iff.mpr ⟨s, n, rfl, h, hrest, rfl, hvalue⟩
      obtain ⟨b, tail, rfl, hb⟩ := h.head
      rw [List.cons_append] at hread ⊢
      rw [Json.readValue, skipSpace_stops hsp (isSpace_of_isDigit hb)]
      have hminus : b ≠ byte '-' := ne_of_isDigit hb (by decide)
      simp only [FieldValue.type, if_neg hminus, hb, if_true]
      exact hread
  | @negative s n h hzero hvalue =>
      have hread : readInteger true (s ++ rest) = .ok (.integer n, rest) :=
        readInteger_eq_ok_iff.mpr ⟨s, n, rfl, h, hrest, rfl, hzero, hvalue⟩
      rw [List.cons_append, Json.readValue, skipSpace_stops hsp (by decide)]
      simp only [FieldValue.type, if_true]
      exact hread

/-- A single value is passed as far as it goes. -/
theorem Written.skip (h : Written .value s) {sp : Bytes} (hsp : Space sp)
    (hrest : EndsNumber rest) : Json.skip (sp ++ (s ++ rest)) = .ok rest := by
  rw [Json.skip, h.skips [] sp rest hsp hrest, skipAfter]

/-- What is read of a value is what it denotes, and the value could have been skipped. -/
theorem denotes_of_readValue {type : FieldType} {value : FieldValue}
    (h : readValue type s = .ok (value, rest)) :
    value.type = type ∧ skip s = .ok rest ∧
      ∃ bytes, skipSpace s = bytes ++ rest ∧ Denotes bytes value := by
  have hskip {b : UInt8} {tail : Bytes} (hs : skipSpace s = b :: tail) (hlist : b ≠ 0x5b)
      (hobject : b ≠ 0x7b) (htail : skipScalar b tail = .ok rest) : skip s = .ok rest := by
    rw [skip, skipValue_cons hs, if_neg hlist, if_neg hobject, htail, Except.bind, skipAfter]
  unfold readValue at h
  split at h
  · cases h
  · rename_i b tail hs
    split at h
    · split at h
      · rename_i hb
        subst hb
        obtain ⟨⟨text, _⟩, htext, hpair⟩ := map_eq_ok_iff.mp h
        obtain ⟨rfl, rfl⟩ := Prod.mk.inj hpair
        obtain ⟨body, rfl, hbody⟩ := readText_eq_ok_iff.mp htext
        refine ⟨rfl, hskip hs (by decide) (by decide) (hbody.literal.skipText _), _, ?_,
          .text hbody⟩
        rw [hs, List.cons_append, List.append_assoc]
        rfl
      · cases h
    · split at h
      · rename_i hb
        subst hb
        obtain ⟨digits, n, rfl, hdigits, hrest, rfl, hzero, hvalue⟩ := readInteger_eq_ok_iff.mp h
        exact ⟨rfl, hskip hs (by decide) (by decide) (hdigits.unsigned.skipNumber hrest), _, hs,
          .negative hdigits hzero hvalue⟩
      · split at h
        · rename_i hminus hb
          obtain ⟨digits, n, heq, hdigits, hrest, rfl, hvalue⟩ := readInteger_eq_ok_iff.mp h
          obtain ⟨b, more, rfl, hb⟩ := hdigits.head
          obtain ⟨rfl, rfl⟩ := List.cons.inj heq
          refine ⟨rfl, hskip hs (ne_of_isDigit hb (by decide)) (ne_of_isDigit hb (by decide)) ?_,
            _, hs, .natural hdigits hvalue⟩
          rw [skipScalar_digit hb]
          exact hdigits.unsigned.skipNumber hrest
        · cases h

/-- What a field is given by a value is what the value denotes. -/
theorem readValue_eq_ok_iff {type : FieldType} {value : FieldValue} {sp : Bytes}
    (h : Written .value s) (hsp : Space sp) (hrest : EndsNumber rest) :
    readValue type (sp ++ (s ++ rest)) = .ok (value, after) ↔
      after = rest ∧ value.type = type ∧ Denotes s value := by
  constructor
  · intro hread
    obtain ⟨htype, hskip, bytes, hbytes, hdenotes⟩ := denotes_of_readValue hread
    rw [h.skip hsp hrest] at hskip
    obtain rfl := Except.ok.inj hskip
    obtain ⟨b, tail, rfl, hb, _⟩ := h.starts
    rw [List.cons_append, skipSpace_stops hsp hb, ← List.cons_append] at hbytes
    rw [List.append_cancel_right hbytes]
    exact ⟨rfl, htype, hdenotes⟩
  · rintro ⟨rfl, rfl, hdenotes⟩
    exact hdenotes.readValue hsp hrest

/-- A value denotes no more than one thing of a type. -/
theorem Denotes.unique {value other : FieldValue} (h : Denotes s value) (h' : Denotes s other)
    (htype : other.type = value.type) : other = value := by
  have hends : EndsNumber [] := by
    intro b hb
    cases hb
  have hread := h.readValue Space.nil hends
  rw [← htype, h'.readValue Space.nil hends] at hread
  exact (Prod.mk.inj (Except.ok.inj hread)).1

end Json
end ServiceDiscovery
