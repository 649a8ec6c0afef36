import ServiceDiscovery.Proofs.Json.RoundTrip

/-!
# Descriptions by other writers

A description is read from any object that gives its fields no more than once and with
values of their types, in whatever order and spacing, and with whatever other members
among them.  Objects that do otherwise are refused.

Main results:

- Theorem {lit}`Json.exists_readDocument_iff`: which documents are read.
- Theorem {lit}`Json.lookup_readDocument`: the fields that are read are those that the
  document gives.
- Theorem {lit}`Descriptor.read_tolerantly`: a description is read from exactly the
  documents that are proper, and is made of the given values and of blanks.
-/

namespace ServiceDiscovery
namespace Json

variable {schema : Schema} {doc : Document} {record : Record} {name : String} {value : FieldValue}

/-! ## Proper documents -/

/-- The names of the members of a document. -/
def Document.names (doc : Document) : List String :=
  doc.members.map (·.name)

/-- A member of that name has a value that denotes the given one. -/
def Document.Gives (doc : Document) (name : String) (value : FieldValue) : Prop :=
  ∃ m ∈ doc.members, m.name = name ∧ Denotes m.value value

/-- A document from which a record can be read in which no field is required. -/
structure Document.Proper (schema : Schema) (doc : Document) : Prop where
  /-- No field has more than one member. -/
  once : ∀ f ∈ schema.fields, doc.names.count f.1 ≤ 1
  /-- The members that are fields have values of the fields' types. -/
  fits : ∀ m ∈ doc.members, m.Fits schema
  /-- Nothing but space follows. -/
  trail : Space doc.trail

theorem lookup_isSome_iff : (schema.fields.lookup name).isSome = true ↔
    ∃ f ∈ schema.fields, f.1 = name := by
  rw [Option.isSome_iff_ne_none, Ne, lookup_eq_none_iff, Classical.not_not, List.mem_map]

theorem nodup_claimed_iff : (schema.claimed doc.members).Nodup ↔
    ∀ f ∈ schema.fields, doc.names.count f.1 ≤ 1 := by
  have hcount {name : String} (hname : (schema.fields.lookup name).isSome = true) :
      (schema.claimed doc.members).count name = doc.names.count name :=
    List.count_filter (p := fun name => (schema.fields.lookup name).isSome) hname
  rw [List.nodup_iff_count_le_one]
  constructor
  · intro h f hf
    rw [← hcount (lookup_isSome_iff.mpr ⟨f, hf, rfl⟩)]
    exact h f.1
  · intro h name
    by_cases hname : (schema.fields.lookup name).isSome = true
    · obtain ⟨f, hf, rfl⟩ := lookup_isSome_iff.mp hname
      rw [hcount hname]
      exact h f hf
    · rw [List.count_eq_zero_of_not_mem]
      · exact Nat.zero_le 1
      · rw [Schema.claimed, List.mem_filter]
        exact fun hmem => hname hmem.2

/-- Records in which no field is required are read from proper documents, and from no others. -/
theorem exists_readDocument_iff (hrequired : schema.required = false) :
    (∃ record, readDocument schema doc.bytes = .ok record) ↔ doc.Proper schema := by
  have hmissing (record : Record) : schema.missing? record = none := by
    rw [Schema.missing?, hrequired, if_neg Bool.false_ne_true]
  constructor
  · rintro ⟨record, h⟩
    obtain ⟨htrail, hgathers, _⟩ := readDocument_eq_ok_iff.mp h
    have hnodup := hgathers.nodup List.nodup_nil
    rw [hgathers.names, List.map_nil, List.nil_append] at hnodup
    exact ⟨nodup_claimed_iff.mp hnodup, hgathers.fits, htrail⟩
  · rintro ⟨honce, hfits, htrail⟩
    obtain ⟨record, hgathers⟩ : ∃ record, Gathers schema doc.members [] record :=
      exists_gathers hfits (nodup_claimed_iff.mpr honce)
    exact ⟨record, readDocument_eq_ok_iff.mpr ⟨htrail, hgathers, hmissing record⟩⟩

/-- The fields that are read are those that the document gives. -/
theorem lookup_readDocument (h : readDocument schema doc.bytes = .ok record) :
    record.lookup name = some value ↔
      schema.fields.lookup name = some value.type ∧ doc.Gives name value := by
  obtain ⟨_, hgathers, _⟩ := readDocument_eq_ok_iff.mp h
  rw [lookup_eq_some_iff (hgathers.nodup List.nodup_nil), hgathers.mem_iff]
  exact or_iff_right List.not_mem_nil

/-- A field that is not read has no member. -/
theorem not_mem_names_of_lookup {type : FieldType} (h : readDocument schema doc.bytes = .ok record)
    (hfield : schema.fields.lookup name = some type) (hnone : record.lookup name = none) :
    name ∉ doc.names := by
  intro hmem
  obtain ⟨m, hm, rfl⟩ := List.mem_map.mp hmem
  obtain ⟨_, hgathers, _⟩ := readDocument_eq_ok_iff.mp h
  obtain ⟨value, rfl, hvalue⟩ := hgathers.fits m hm type hfield
  rw [(lookup_readDocument h).mpr ⟨hfield, m, hm, rfl, hvalue⟩] at hnone
  cases hnone

/-- The value of a field that is not given. -/
def FieldType.blank : FieldType → FieldValue
  | .text => .text ""
  | .integer => .integer 0

theorem text_getD (h : ∀ value, record.lookup name = some value → value.type = .text) :
    FieldValue.text ((record.text? name).getD "") =
      (record.lookup name).getD FieldType.text.blank := by
  rw [Record.text?]
  cases hlookup : record.lookup name with
  | none => rfl
  | some value =>
      cases value with
      | text s => rfl
      | integer n => cases h _ hlookup

theorem integer_getD (h : ∀ value, record.lookup name = some value → value.type = .integer) :
    FieldValue.integer ((record.integer? name).getD 0) =
      (record.lookup name).getD FieldType.integer.blank := by
  rw [Record.integer?]
  cases hlookup : record.lookup name with
  | none => rfl
  | some value =>
      cases value with
      | text s => cases h _ hlookup
      | integer n => rfl

end Json

namespace Descriptor

variable {doc : Json.Document} {d : Descriptor} {record : Json.Record}

/-! ## Descriptions -/

/-- The fields of a description have the values that the document gives them; those that have no
member are blank. -/
def GivenBy (d : Descriptor) (doc : Json.Document) : Prop :=
  ∀ f ∈ d.fields, doc.Gives f.1 f.2 ∨ f.1 ∉ doc.names ∧ f.2 = f.2.type.blank

theorem lookup_schema {f : String × Json.FieldValue} (hf : f ∈ d.fields) :
    schema.fields.lookup f.1 = some f.2.type := by
  rw [Json.lookup_eq_some_iff (by decide), ← d.types_fields]
  exact List.mem_map.mpr ⟨f, hf, rfl⟩

theorem fields_injective : Function.Injective fields := by
  intro d d' h
  cases d
  cases d'
  simp only [fields, List.cons.injEq, Prod.mk.injEq, Json.FieldValue.text.injEq,
    Json.FieldValue.integer.injEq, true_and, and_true] at h
  simp [h]

/-- The description that a record gives has the record's values, and blanks where it has none. -/
theorem fields_ofRecord (htypes : ∀ name value, record.lookup name = some value →
      schema.fields.lookup name = some value.type) :
    (ofRecord record).fields = schema.fields.map fun g =>
      (g.1, (record.lookup g.1).getD g.2.blank) := by
  have htype (name : String) {type : Json.FieldType}
      (hname : schema.fields.lookup name = some type) :
      ∀ value, record.lookup name = some value → value.type = type := fun value hvalue =>
    Option.some.inj ((htypes name value hvalue).symm.trans hname)
  simp only [fields, ofRecord, schema, List.map_cons, List.map_nil]
  rw [Json.text_getD (htype "ip" rfl), Json.text_getD (htype "port" rfl),
    Json.text_getD (htype "name" rfl), Json.text_getD (htype "alias" rfl),
    Json.text_getD (htype "INTFC" rfl), Json.text_getD (htype "protocol" rfl),
    Json.integer_getD (htype "timeConnect" rfl), Json.integer_getD (htype "timeActive" rfl),
    Json.text_getD (htype "source" rfl)]

/-- The fields of a description that has the record's values, and blanks where it has none. -/
theorem fields_eq (h : ∀ f ∈ d.fields, f.2 = (record.lookup f.1).getD f.2.type.blank) :
    d.fields = schema.fields.map fun g => (g.1, (record.lookup g.1).getD g.2.blank) := by
  rw [← d.types_fields, List.map_map]
  conv_lhs => rw [← List.map_id d.fields]
  exact List.map_congr_left fun f hf => Prod.ext rfl (h f hf)

/-- The description that is read from a document is the one that is given by it. -/
theorem givenBy_iff (hread : Json.readDocument schema doc.bytes = .ok record) :
    d.GivenBy doc ↔ d = ofRecord record := by
  have hfields := fields_ofRecord fun name value h => ((Json.lookup_readDocument hread).mp h).1
  constructor
  · intro h
    refine fields_injective ?_
    rw [hfields]
    refine fields_eq fun f hf => ?_
    rcases h f hf with hgives | ⟨habsent, hblank⟩
    · rw [(Json.lookup_readDocument hread).mpr ⟨lookup_schema hf, hgives⟩, Option.getD_some]
    · have hnone : record.lookup f.1 = none := by
        rw [Option.eq_none_iff_forall_ne_some]
        intro value hvalue
        obtain ⟨_, m, hm, hname, _⟩ := (Json.lookup_readDocument hread).mp hvalue
        exact habsent (hname ▸ List.mem_map_of_mem hm)
      rw [hnone]
      exact hblank
  · rintro rfl f hf
    have hfield := lookup_schema hf
    rw [hfields] at hf
    obtain ⟨g, _, rfl⟩ := List.mem_map.mp hf
    cases hvalue : record.lookup g.1 with
    | none =>
        rw [hvalue] at hfield
        refine Or.inr ⟨Json.not_mem_names_of_lookup hread hfield hvalue, ?_⟩
        cases g.2 <;> rfl
    | some value => exact Or.inl ((Json.lookup_readDocument hread).mp hvalue).2

/-- How a description is read from an object. -/
structure ReadTolerantly (doc : Json.Document) : Prop where
  /-- From a proper document the one description is read that is given by it. -/
  reads : doc.Proper schema →
    ∃ d, ofJson doc.bytes = .ok d ∧ ∀ d' : Descriptor, d'.GivenBy doc ↔ d' = d
  /-- It does not matter in which order the fields are given, or among which other members. -/
  indifferent : ∀ doc' : Json.Document, doc.Proper schema → doc'.Proper schema →
    (∀ f ∈ schema.fields, ∀ value, doc.Gives f.1 value ↔ doc'.Gives f.1 value) →
      ofJson doc.bytes = ofJson doc'.bytes
  /-- No field may be given twice. -/
  duplicate : ∀ f ∈ schema.fields, 2 ≤ doc.names.count f.1 →
    ∃ fault, ofJson doc.bytes = .error fault
  /-- No field may be given a value of another type. -/
  mistyped : ∀ m ∈ doc.members, ∀ type, (m.name, type) ∈ schema.fields →
    (∀ value, Json.Denotes m.value value → value.type ≠ type) →
      ∃ fault, ofJson doc.bytes = .error fault
  /-- Nothing but space may follow the object. -/
  trailing : ¬ Json.Space doc.trail → ∃ fault, ofJson doc.bytes = .error fault

theorem exists_error_of_not_proper (h : ¬ doc.Proper schema) :
    ∃ fault, ofJson doc.bytes = .error fault := by
  cases hread : Json.readDocument schema doc.bytes with
  | error fault => exact ⟨fault, by rw [ofJson, hread]; rfl⟩
  | ok record => exact absurd ((Json.exists_readDocument_iff rfl).mp ⟨record, hread⟩) h

/-- A proper document is read as the description that is given by it. -/
theorem exists_of_proper (h : doc.Proper schema) :
    ∃ d, ofJson doc.bytes = .ok d ∧ ∀ d' : Descriptor, d'.GivenBy doc ↔ d' = d := by
  obtain ⟨record, hread⟩ := (Json.exists_readDocument_iff rfl).mpr h
  exact ⟨ofRecord record, by rw [ofJson, hread]; rfl, fun _ => givenBy_iff hread⟩

/-- Proper documents that give the fields the same values give the same descriptions. -/
theorem GivenBy.of_gives {doc' : Json.Document} (h : d.GivenBy doc) (hproper : doc'.Proper schema)
    (hsame : ∀ f ∈ schema.fields, ∀ value, doc.Gives f.1 value ↔ doc'.Gives f.1 value) :
    d.GivenBy doc' := by
  intro f hf
  have hfield : (f.1, f.2.type) ∈ schema.fields := Json.mem_of_lookup (lookup_schema hf)
  refine (h f hf).imp (hsame _ hfield f.2).mp (And.imp_left fun habsent hmem => habsent ?_)
  obtain ⟨m, hm, hname⟩ := List.mem_map.mp hmem
  obtain ⟨value, _, hvalue⟩ := hproper.fits m hm f.2.type (hname ▸ lookup_schema hf)
  obtain ⟨m', hm', hname', _⟩ := (hsame _ hfield value).mpr ⟨m, hm, hname, hvalue⟩
  exact List.mem_map.mpr ⟨m', hm', hname'⟩

/-- A description is read from any object whose members give it, in whatever order and among
whatever other members, and from no object in which a field is given twice or with a value of
another type, or which something follows. -/
theorem read_tolerantly (doc : Json.Document) : ReadTolerantly doc where
  reads := exists_of_proper
  indifferent doc' hproper hproper' hsame := by
    obtain ⟨d, hread, hgiven⟩ := exists_of_proper hproper
    obtain ⟨d', hread', hgiven'⟩ := exists_of_proper hproper'
    have hd := ((hgiven d).mpr rfl).of_gives hproper' hsame
    rw [hread, hread', (hgiven' d).mp hd]
  duplicate f hf hcount := by
    refine exists_error_of_not_proper fun h => ?_
    have honce := h.once f hf
    omega
  mistyped m hm type hfield hother := by
    refine exists_error_of_not_proper fun h => ?_
    obtain ⟨value, htype, hvalue⟩ :=
      h.fits m hm type ((Json.lookup_eq_some_iff (by decide)).mpr hfield)
    exact hother value hvalue htype
  trailing htrail := exists_error_of_not_proper fun h => htrail h.trail

/-- A list with an empty object and half a surrogate pair, which nobody asks for. -/
theorem written_nested : Json.Written .value (Text.utf8 "[\x7b\x7d, \"\\ud800\"]") := by
  have hobject : Json.Written .value [0x7b, 0x7d] := .empty .object Json.Space.nil
  have hhalf : Json.Written .value (Text.utf8 "\"\\ud800\"") :=
    .scalar (.text (.escape (.code (.digits rfl rfl rfl rfl)) .nil))
  exact .bracket .list (.more (.item .list Json.Space.nil hobject Json.Space.nil)
    (.last (.item .list (.single (by decide)) hhalf Json.Space.nil)))

/-- Two fields among members that nobody asks for. -/
def sample : Json.Document where
  lead := [0x20]
  inner := []
  members :=
    [{ Json.Member.ofField ("x", .text "") with
        value := Text.utf8 "[\x7b\x7d, \"\\ud800\"]", valid := written_nested },
      Json.Member.ofField ("port", .text "80"), Json.Member.ofField ("timeActive", .integer (-7)),
      Json.Member.ofField ("x", .text "again")]
  trail := [0x0a]
  lead_space := .single (by decide)
  inner_space := Json.Space.nil

theorem proper_sample : sample.Proper schema where
  once := by decide +kernel
  fits := by
    have hother (m : Json.Member) (hname : m.name = "x") : m.Fits schema := by
      intro type htype
      rw [hname] at htype
      cases htype
    have hfield (f : String × Json.FieldValue) (hf : schema.fields.lookup f.1 = some f.2.type) :
        (Json.Member.ofField f).Fits schema := fun type htype =>
      ⟨f.2, Option.some.inj (hf.symm.trans htype), Json.denotes_written f.2⟩
    simp only [sample, List.forall_mem_cons]
    exact ⟨hother _ rfl, hfield _ rfl, hfield _ rfl, hother _ rfl, List.forall_mem_nil _⟩
  trail := .single (by decide)

/-- The two fields are read from the sample, and nothing else. -/
theorem read_tolerantly_sample :
    ofJson (Text.utf8 (" \x7b\"x\":[\x7b\x7d, \"\\ud800\"],\"port\":\"80\"," ++
        "\"timeActive\":-7,\"x\":\"again\"\x7d\n")) =
      .ok { ofAddress "" "" "80" with timeActive := -7 } := by
  obtain ⟨d, hread, hgiven⟩ := (read_tolerantly sample).reads proper_sample
  have habsent (name : String) (value : Json.FieldValue) (hname : name ∉ sample.names)
      (hblank : value = value.type.blank) : sample.Gives name value ∨
        name ∉ sample.names ∧ value = value.type.blank :=
    Or.inr ⟨hname, hblank⟩
  have hport : sample.Gives "port" (.text "80") :=
    ⟨_, .tail _ (.head _), rfl, Json.denotes_written _⟩
  have htime : sample.Gives "timeActive" (.integer (-7)) :=
    ⟨_, .tail _ (.tail _ (.head _)), rfl, Json.denotes_written _⟩
  have hexpected : GivenBy { ofAddress "" "" "80" with timeActive := -7 } sample := by
    simp only [GivenBy, fields, ofAddress, List.forall_mem_cons]
    exact ⟨habsent _ _ (by decide +kernel) rfl, Or.inl hport, habsent _ _ (by decide +kernel) rfl,
      habsent _ _ (by decide +kernel) rfl, habsent _ _ (by decide +kernel) rfl,
      habsent _ _ (by decide +kernel) rfl, habsent _ _ (by decide +kernel) rfl, Or.inl htime,
      habsent _ _ (by decide +kernel) rfl, List.forall_mem_nil _⟩
  rw [(hgiven _).mp hexpected, ← hread]
  exact congrArg ofJson (by decide +kernel)

end Descriptor
end ServiceDiscovery
