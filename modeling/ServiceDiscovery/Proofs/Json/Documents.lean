import Mathlib.Data.List.Nodup
import ServiceDiscovery.Proofs.Json.Values

/-!
# Reading documents

A record is read from the members of a document one after the other.  Members that
the record has no field for are passed; of the others, each adds the value that it
denotes, unless its field has one already.

Main results:

- Definition {lit}`Json.Gathers`: what the members of a document add to a record.
- Theorem {lit}`Json.readDocument_eq_ok_iff`: a document is read as what its members
  gather, exactly if nothing but space follows it and no required field is missing.
- Theorems {lit}`Json.Gathers.mem_iff` and {lit}`Json.exists_gathers`: what members
  gather, and when they do.
-/

namespace ServiceDiscovery
namespace Json

variable {schema : Schema} {m : Member} {ms : List Member} {seen mid record : Record}
  {s rest after : Bytes}

/-! ## What members add -/

/-- What a member adds to the fields seen so far. -/
inductive Member.Adds (schema : Schema) (m : Member) : Record → Record → Prop where
  | field {seen : Record} {value : FieldValue}
      (hfield : schema.fields.lookup m.name = some value.type)
      (hnew : seen.lookup m.name = none) (h : Denotes m.value value) :
      Adds schema m seen (seen ++ [(m.name, value)])
  /-- The schema has no such field. -/
  | other {seen : Record} (h : schema.fields.lookup m.name = none) : Adds schema m seen seen

/-- What members add to the fields seen so far, one after the other. -/
inductive Gathers (schema : Schema) : List Member → Record → Record → Prop where
  | nil {seen : Record} : Gathers schema [] seen seen
  | cons {m : Member} {ms : List Member} {seen mid record : Record} (h : m.Adds schema seen mid)
      (hrest : Gathers schema ms mid record) : Gathers schema (m :: ms) seen record

/-! ## Reading members -/

/-- What stands inside a member after its name's opening quote, and what follows the member. -/
def Member.inside (m : Member) (rest : Bytes) : Bytes :=
  m.spelling ++ 0x22 :: (m.middle ++ 0x3a :: (m.gap ++ (m.value ++ (m.after ++ rest))))

/-- A member up to its name's opening quote, and the inside of it. -/
theorem Member.bytes_append (m : Member) (rest : Bytes) :
    m.bytes ++ rest = m.before ++ 0x22 :: m.inside rest := by
  simp only [bytes, inside, List.append_assoc, List.cons_append]

/-- A step after another succeeds when both do. -/
theorem bind_eq_ok_iff {α β ε : Type} {r : Except ε α} {f : α → Except ε β} {b : β} :
    r.bind f = .ok b ↔ ∃ a, r = .ok a ∧ f a = .ok b := by
  cases r with
  | error e => simp [Except.bind]
  | ok a => simp [Except.bind]

/-- Inside a member its name is read first. -/
theorem readText_inside (m : Member) (rest : Bytes) : readText (m.inside rest) =
    .ok (m.name, m.middle ++ 0x3a :: (m.gap ++ (m.value ++ (m.after ++ rest)))) :=
  readText_eq_ok_iff.mpr ⟨m.spelling, rfl, m.spells⟩

/-- The colon after a name may have space before it. -/
theorem readColon_middle (m : Member) (rest : Bytes) :
    readColon (m.middle ++ 0x3a :: rest) = .ok rest := by
  rw [readColon, skipSpace_stops m.middle_space (by decide)]
  rfl

/-- A member without a field adds nothing. -/
theorem readMember_other (h : schema.fields.lookup m.name = none) (hrest : EndsNumber rest) :
    readMember schema seen (m.inside rest) = .ok (seen, m.after ++ rest) := by
  simp only [readMember, readText_inside, readMemberValue, h, readColon_middle,
    m.valid.skip m.gap_space (hrest.of_space m.after_space), Except.map]

/-- A second value for a field is refused. -/
theorem readMember_duplicate {type : FieldType} (h : schema.fields.lookup m.name = some type)
    (hseen : seen.lookup m.name ≠ none) :
    readMember schema seen (m.inside rest) = .error (.duplicateField m.name) := by
  simp only [readMember, readText_inside, readMemberValue, h, Option.isSome_iff_ne_none.mpr hseen,
    if_true]

/-- A member with a new field adds its value. -/
theorem readMember_field {type : FieldType} (h : schema.fields.lookup m.name = some type)
    (hnew : seen.lookup m.name = none) :
    readMember schema seen (m.inside rest) =
      (readValue type (m.gap ++ (m.value ++ (m.after ++ rest)))).map fun r =>
        (seen ++ [(m.name, r.1)], r.2) := by
  simp only [readMember, readText_inside, readMemberValue, h, hnew, Option.isSome_none,
    Bool.false_eq_true, if_false, readColon_middle]

/-- A member is read as what it adds. -/
theorem readMember_eq_ok_iff (hrest : EndsNumber rest) :
    readMember schema seen (m.inside rest) = .ok (mid, after) ↔
      after = m.after ++ rest ∧ m.Adds schema seen mid := by
  cases hfield : schema.fields.lookup m.name with
  | none =>
      rw [readMember_other hfield hrest]
      constructor
      · rintro ⟨⟩
        exact ⟨rfl, .other hfield⟩
      · rintro ⟨rfl, ⟨h, _, _⟩ | _⟩
        · rw [hfield] at h
          cases h
        · rfl
  | some type =>
      by_cases hnew : seen.lookup m.name = none
      · rw [readMember_field hfield hnew, map_eq_ok_iff]
        have hread (value : FieldValue) (tail : Bytes) :
            readValue type (m.gap ++ (m.value ++ (m.after ++ rest))) = .ok (value, tail) ↔
              tail = m.after ++ rest ∧ value.type = type ∧ Denotes m.value value :=
          readValue_eq_ok_iff m.valid m.gap_space (hrest.of_space m.after_space)
        constructor
        · rintro ⟨⟨value, tail⟩, hvalue, ⟨⟩⟩
          obtain ⟨rfl, rfl, hdenotes⟩ := (hread value tail).mp hvalue
          exact ⟨rfl, .field hfield hnew hdenotes⟩
        · rintro ⟨rfl, hadds⟩
          cases hadds with
          | @field value h _ hdenotes =>
              obtain rfl : type = value.type := Option.some.inj (hfield.symm.trans h)
              exact ⟨(value, _), (hread value _).mpr ⟨rfl, rfl, hdenotes⟩, rfl⟩
          | other h =>
              rw [hfield] at h
              cases h
      · rw [readMember_duplicate hfield hnew]
        constructor
        · intro h
          cases h
        · rintro ⟨_, ⟨_, h, _⟩ | h⟩
          · exact absurd h hnew
          · rw [hfield] at h
            cases h

/-- At the end of an object the fields seen so far are the record. -/
theorem readMembers_done {first : Bool} (h : nextMember first s = .ok (.done rest)) :
    readMembers schema first seen s = .ok (seen, rest) := by
  rw [readMembers]
  split
  · rename_i heq
    rw [h] at heq
    cases heq
  · rename_i heq
    rw [h] at heq
    cases heq
    rfl
  · rename_i heq
    rw [h] at heq
    cases heq

/-- Reading a record goes on after a member. -/
theorem readMembers_member {first : Bool} {tail : Bytes}
    (h : nextMember first s = .ok (.member tail)) :
    readMembers schema first seen s =
      (readMember schema seen tail).bind fun r => readMembers schema false r.1 r.2 := by
  rw [readMembers]
  split
  · rename_i heq
    rw [h] at heq
    cases heq
  · rename_i heq
    rw [h] at heq
    cases heq
  · rename_i heq
    rw [h] at heq
    cases heq
    split
    · rename_i heq
      simp only [heq, Except.bind]
    · rename_i heq
      simp only [heq, Except.bind]

/-- Space and a closing brace end an object. -/
theorem nextMember_closer {first : Bool} {sp : Bytes} (h : Space sp) (rest : Bytes) :
    nextMember first (sp ++ 0x7d :: rest) = .ok (.done rest) := by
  rw [nextMember, skipSpace_stops h (by decide)]
  rfl

/-- The first member has no comma before it. -/
theorem nextMember_first {sp : Bytes} (h : Space sp) (tail : Bytes) :
    nextMember true (sp ++ 0x22 :: tail) = .ok (.member tail) := by
  rw [nextMember, skipSpace_stops h (by decide)]
  rfl

/-- Every other member has a comma before it, with space on both sides of it. -/
theorem nextMember_comma {sp sp' : Bytes} (h : Space sp) (h' : Space sp') (tail : Bytes) :
    nextMember false (sp ++ 0x2c :: (sp' ++ 0x22 :: tail)) = .ok (.member tail) := by
  rw [nextMember, skipSpace_stops h (by decide)]
  simp only [skipSpace_stops h' (show isSpace 0x22 = false by decide)]
  rfl

/-- The members of an object after some of them, and what follows the object. -/
def moreMembers (ms : List Member) (rest : Bytes) : Bytes :=
  ms.flatMap (fun m => 0x2c :: m.bytes) ++ 0x7d :: rest

theorem moreMembers_cons (m : Member) (ms : List Member) (rest : Bytes) :
    moreMembers (m :: ms) rest = 0x2c :: (m.before ++ 0x22 :: m.inside (moreMembers ms rest)) := by
  rw [← m.bytes_append, moreMembers, moreMembers, List.flatMap_cons, List.append_assoc,
    List.cons_append]

/-- What follows a member of an object carries no number on. -/
theorem endsNumber_moreMembers (ms : List Member) (rest : Bytes) :
    EndsNumber (moreMembers ms rest) := by
  cases ms with
  | nil => exact (show EndsItem .object _ from ⟨rest, Or.inr rfl⟩).endsNumber
  | cons m ms =>
      exact (show EndsItem .object _ from ⟨_, Or.inl (moreMembers_cons m ms rest)⟩).endsNumber

/-- Without members nothing is added. -/
theorem gathers_nil_iff :
    Except.ok (seen, rest) = (.ok (record, after) : Read Record) ↔
      after = rest ∧ Gathers schema [] seen record := by
  constructor
  · rintro ⟨⟩
    exact ⟨rfl, .nil⟩
  · rintro ⟨rfl, ⟨⟩⟩
    rfl

/-- If the rest of the members is read as what it adds, then so is the rest with a member in front
of it. -/
theorem readMembers_rest_eq_ok_iff
    (ih : ∀ seen, readMembers schema false seen (m.after ++ moreMembers ms rest) =
      .ok (record, after) ↔ after = rest ∧ Gathers schema ms seen record) :
    ((readMember schema seen (m.inside (moreMembers ms rest))).bind fun r =>
        readMembers schema false r.1 r.2) = .ok (record, after) ↔
      after = rest ∧ Gathers schema (m :: ms) seen record := by
  have hmember (mid : Record) (tail : Bytes) :
      readMember schema seen (m.inside (moreMembers ms rest)) = .ok (mid, tail) ↔
        tail = m.after ++ moreMembers ms rest ∧ m.Adds schema seen mid :=
    readMember_eq_ok_iff (endsNumber_moreMembers ms rest)
  rw [bind_eq_ok_iff]
  constructor
  · rintro ⟨⟨mid, tail⟩, hread, hmore⟩
    obtain ⟨rfl, hadds⟩ := (hmember mid tail).mp hread
    obtain ⟨rfl, hgathers⟩ := (ih mid).mp hmore
    exact ⟨rfl, .cons hadds hgathers⟩
  · rintro ⟨rfl, hgathers⟩
    cases hgathers with
    | @cons _ _ _ mid _ hadds hgathers =>
        exact ⟨(mid, _), (hmember mid _).mpr ⟨rfl, hadds⟩, (ih mid).mpr ⟨rfl, hgathers⟩⟩

/-- The members after the first one are read as what they add. -/
theorem readMembers_more_eq_ok_iff {sp : Bytes} (hsp : Space sp) :
    readMembers schema false seen (sp ++ moreMembers ms rest) = .ok (record, after) ↔
      after = rest ∧ Gathers schema ms seen record := by
  induction ms generalizing sp seen with
  | nil =>
      rw [moreMembers, List.flatMap_nil, List.nil_append,
        readMembers_done (nextMember_closer hsp rest)]
      exact gathers_nil_iff
  | cons m ms ih =>
      rw [moreMembers_cons, readMembers_member (nextMember_comma hsp m.before_space _)]
      exact readMembers_rest_eq_ok_iff fun seen => ih m.after_space

/-- Parts with commas between them are the first part, and the others each behind a comma. -/
theorem intercalate_comma (part : Bytes) (parts : List Bytes) :
    [0x2c].intercalate (part :: parts) = part ++ parts.flatMap fun p => 0x2c :: p := by
  induction parts generalizing part with
  | nil => simp
  | cons next parts ih =>
      rw [List.intercalate_cons_cons, ih, List.flatMap_cons, List.append_assoc]
      rfl

/-- An object is read as what its members add. -/
theorem readMembers_eq_ok_iff {sp : Bytes} (hsp : Space sp) :
    readMembers schema true seen
        (sp ++ ([0x2c].intercalate (ms.map Member.bytes) ++ 0x7d :: rest)) = .ok (record, after) ↔
      after = rest ∧ Gathers schema ms seen record := by
  cases ms with
  | nil =>
      rw [List.map_nil, List.intercalate_nil, List.nil_append,
        readMembers_done (nextMember_closer hsp rest)]
      exact gathers_nil_iff
  | cons m ms =>
      have hbytes : sp ++ ([0x2c].intercalate ((m :: ms).map Member.bytes) ++ 0x7d :: rest) =
          (sp ++ m.before) ++ 0x22 :: m.inside (moreMembers ms rest) := by
        rw [List.map_cons, intercalate_comma, List.flatMap_map, List.append_assoc,
          m.bytes_append, List.append_assoc]
        rfl
      have hspace : Space (sp ++ m.before) := by
        intro b hb
        exact (List.mem_append.mp hb).elim (hsp b) (m.before_space b)
      rw [hbytes, readMembers_member (nextMember_first hspace _)]
      exact readMembers_rest_eq_ok_iff fun seen => readMembers_more_eq_ok_iff m.after_space

/-! ## Documents -/

/-- What stands in front of a document is read as what its members gather, if no required field is
missing. -/
theorem readRecord_eq_ok_iff {doc : Document} :
    readRecord schema doc.bytes = .ok (record, after) ↔
      after = doc.trail ∧ Gathers schema doc.members [] record ∧
        schema.missing? record = none := by
  have hmembers (record : Record) (after : Bytes) :
      readMembers schema true [] (doc.inner ++
          ([0x2c].intercalate (doc.members.map Member.bytes) ++ 0x7d :: doc.trail)) =
          .ok (record, after) ↔
        after = doc.trail ∧ Gathers schema doc.members [] record :=
    readMembers_eq_ok_iff doc.inner_space
  rw [readRecord, Document.bytes, skipSpace_stops doc.lead_space (by decide)]
  simp only [if_true, readObject]
  constructor
  · intro h
    split at h
    · cases h
    · rename_i hread
      split at h
      · cases h
      · rename_i hmissing
        obtain ⟨rfl, rfl⟩ := Prod.mk.inj (Except.ok.inj h)
        obtain ⟨rfl, hgathers⟩ := (hmembers _ _).mp hread
        exact ⟨rfl, hgathers, hmissing⟩
  · rintro ⟨rfl, hgathers, hmissing⟩
    rw [(hmembers record doc.trail).mpr ⟨rfl, hgathers⟩]
    simp only [hmissing]

/-- A document is read as what its members gather, if nothing but space follows it and no required
field is missing. -/
theorem readDocument_eq_ok_iff {doc : Document} :
    readDocument schema doc.bytes = .ok record ↔
      Space doc.trail ∧ Gathers schema doc.members [] record ∧ schema.missing? record = none := by
  have hspace : (skipSpace doc.trail).isEmpty = true ↔ Space doc.trail := by
    rw [List.isEmpty_iff, skipSpace, List.dropWhile_eq_nil_iff]
    rfl
  rw [readDocument]
  constructor
  · intro h
    split at h
    · cases h
    · rename_i hread
      obtain ⟨rfl, hgathers, hmissing⟩ := readRecord_eq_ok_iff.mp hread
      split at h
      · rename_i htrail
        obtain rfl := Except.ok.inj h
        exact ⟨hspace.mp htrail, hgathers, hmissing⟩
      · cases h
  · rintro ⟨htrail, hgathers, hmissing⟩
    rw [readRecord_eq_ok_iff.mpr ⟨rfl, hgathers, hmissing⟩]
    simp only [hspace.mpr htrail, if_true]

/-! ## What is gathered -/

section Lookup

variable {α : Type} {l : List (String × α)} {name : String} {a : α}

theorem lookup_eq_none_iff : l.lookup name = none ↔ name ∉ l.map (·.1) := by
  rw [List.lookup_eq_none_iff, List.mem_map]
  constructor
  · rintro h ⟨f, hf, rfl⟩
    exact bne_iff_ne.mp (h f hf) rfl
  · intro h f hf
    exact bne_iff_ne.mpr fun heq => h ⟨f, hf, heq.symm⟩

theorem mem_of_lookup (h : l.lookup name = some a) : (name, a) ∈ l := by
  obtain ⟨_, _, rfl, _⟩ := List.lookup_eq_some_iff.mp h
  exact List.mem_append_right _ List.mem_cons_self

/-- Where no name occurs twice, what is found under a name is all that stands under it. -/
theorem lookup_eq_some_iff (hnodup : (l.map (·.1)).Nodup) :
    l.lookup name = some a ↔ (name, a) ∈ l := by
  refine ⟨mem_of_lookup, fun hmem => ?_⟩
  cases hlookup : l.lookup name with
  | none => exact absurd (List.mem_map_of_mem hmem) (lookup_eq_none_iff.mp hlookup)
  | some other =>
      rw [Option.some.injEq]
      exact congrArg Prod.snd (List.inj_on_of_nodup_map hnodup (mem_of_lookup hlookup) hmem rfl)

end Lookup

/-- The names of members that are fields of a schema, in turn. -/
def Schema.claimed (schema : Schema) (ms : List Member) : List String :=
  (ms.map (·.name)).filter fun name => (schema.fields.lookup name).isSome

/-- If a member is a field of the schema, its value denotes something of the field's type. -/
def Member.Fits (schema : Schema) (m : Member) : Prop :=
  ∀ type, schema.fields.lookup m.name = some type →
    ∃ value, value.type = type ∧ Denotes m.value value

/-- A member with a field claims its name. -/
theorem claimed_cons_of_some {type : FieldType} (h : schema.fields.lookup m.name = some type) :
    schema.claimed (m :: ms) = m.name :: schema.claimed ms := by
  simp [Schema.claimed, h]

/-- A member without a field claims nothing. -/
theorem claimed_cons_of_none (h : schema.fields.lookup m.name = none) :
    schema.claimed (m :: ms) = schema.claimed ms := by
  simp [Schema.claimed, h]

/-- A record has the fields that were seen before and those that the members claim. -/
theorem Gathers.names (h : Gathers schema ms seen record) :
    record.map (·.1) = seen.map (·.1) ++ schema.claimed ms := by
  induction h with
  | nil => exact (List.append_nil _).symm
  | cons hadds _ ih =>
      cases hadds with
      | field hfield => simp [ih, claimed_cons_of_some hfield]
      | other hother => rw [ih, claimed_cons_of_none hother]

/-- No field is added twice. -/
theorem Gathers.nodup (h : Gathers schema ms seen record) (hseen : (seen.map (·.1)).Nodup) :
    (record.map (·.1)).Nodup := by
  induction h with
  | nil => exact hseen
  | cons hadds _ ih =>
      refine ih ?_
      cases hadds with
      | field _ hnew =>
          rw [List.map_append, List.map_singleton, List.nodup_append]
          refine ⟨hseen, List.nodup_singleton _, ?_⟩
          intro name hmem other hother heq
          rw [heq, List.mem_singleton.mp hother] at hmem
          exact lookup_eq_none_iff.mp hnew hmem
      | other => exact hseen

/-- Members that are gathered fit their fields. -/
theorem Gathers.fits (h : Gathers schema ms seen record) : ∀ m ∈ ms, m.Fits schema := by
  induction h with
  | nil => exact List.forall_mem_nil _
  | cons hadds _ ih =>
      rw [List.forall_mem_cons]
      refine ⟨fun type htype => ?_, ih⟩
      cases hadds with
      | field hfield _ h => exact ⟨_, Option.some.inj (hfield.symm.trans htype), h⟩
      | other hother =>
          rw [hother] at htype
          cases htype

/-- Members of which each claims a field of its own and fits it do gather something. -/
theorem exists_gathers (hfits : ∀ m ∈ ms, m.Fits schema)
    (hnodup : (seen.map (·.1) ++ schema.claimed ms).Nodup) :
    ∃ record, Gathers schema ms seen record := by
  induction ms generalizing seen with
  | nil => exact ⟨seen, .nil⟩
  | cons m ms ih =>
      rw [List.forall_mem_cons] at hfits
      cases hfield : schema.fields.lookup m.name with
      | none =>
          rw [claimed_cons_of_none hfield] at hnodup
          obtain ⟨record, hrest⟩ := ih hfits.2 hnodup
          exact ⟨record, .cons (.other hfield) hrest⟩
      | some type =>
          rw [claimed_cons_of_some hfield] at hnodup
          obtain ⟨value, rfl, hvalue⟩ := hfits.1 type hfield
          have hnew : seen.lookup m.name = none := by
            rw [lookup_eq_none_iff]
            intro hmem
            exact (List.nodup_append.mp hnodup).2.2 _ hmem _ List.mem_cons_self rfl
          rw [← List.singleton_append, ← List.append_assoc] at hnodup
          have hmore : ((seen ++ [(m.name, value)]).map (·.1) ++ schema.claimed ms).Nodup := by
            rw [List.map_append]
            exact hnodup
          obtain ⟨record, hrest⟩ := ih hfits.2 hmore
          exact ⟨record, .cons (.field hfield hnew hvalue) hrest⟩

/-- A record has what was seen before and what the values of the members denote. -/
theorem Gathers.mem_iff (h : Gathers schema ms seen record) {name : String} {value : FieldValue} :
    (name, value) ∈ record ↔ (name, value) ∈ seen ∨
      schema.fields.lookup name = some value.type ∧
        ∃ m ∈ ms, m.name = name ∧ Denotes m.value value := by
  induction h with
  | nil => simp
  | @cons m ms seen mid record hadds _ ih =>
      rw [ih]
      simp only [List.exists_mem_cons_iff]
      cases hadds with
      | @field given hfield _ hgiven =>
          rw [List.mem_append, List.mem_singleton]
          constructor
          · rintro ((hseen | ⟨⟨⟩⟩) | ⟨htype, hmore⟩)
            · exact Or.inl hseen
            · exact Or.inr ⟨hfield, Or.inl ⟨rfl, hgiven⟩⟩
            · exact Or.inr ⟨htype, Or.inr hmore⟩
          · rintro (hseen | ⟨htype, ⟨rfl, hvalue⟩ | hmore⟩)
            · exact Or.inl (Or.inl hseen)
            · obtain rfl := hgiven.unique hvalue (Option.some.inj (htype.symm.trans hfield))
              exact Or.inl (Or.inr rfl)
            · exact Or.inr ⟨htype, hmore⟩
      | other hother =>
          refine or_congr_right (and_congr_right fun htype => ?_)
          refine (or_iff_right ?_).symm
          rintro ⟨rfl, _⟩
          rw [hother] at htype
          cases htype

end Json
end ServiceDiscovery
