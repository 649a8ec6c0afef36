import ServiceDiscovery.Proofs.Json.RoundTrip

/-!
# Lists and maps

A reader for one value gives a reader for lists of such values, and a reader for
objects with such a value under every name.  What the writer writes is a value of the
grammar, and the readers read it back as it was, whatever follows it.

Main results:

- Definition {lit}`Json.Reader`: reads a value from the front of some bytes, and
  consumes some of them.
- Definitions {lit}`Json.Reader.record`, {lit}`Json.Reader.list` and
  {lit}`Json.Reader.object`: the readers of records, lists and objects.
- Theorems {lit}`Json.Reader.record_reads`, {lit}`Json.Reader.list_reads` and
  {lit}`Json.Reader.object_reads`: each of them reads what was written.
-/

namespace ServiceDiscovery
namespace Json

variable {α β : Type} {s rest : Bytes}

/-! ## Readers consume input -/

/-- The end of an object takes a byte. -/
theorem nextMember_done_length {first : Bool} (h : nextMember first s = .ok (.done rest)) :
    rest.length < s.length := by
  unfold nextMember at h
  split at h
  · cases h
  · rename_i hs
    have hlen := length_lt_of_skipSpace hs
    grind

/-- Reading the members of a record consumes some input. -/
theorem readMembers_length {schema : Schema} {first : Bool} {seen record : Record}
    (h : readMembers schema first seen s = .ok (record, rest)) : rest.length < s.length := by
  fun_induction readMembers schema first seen s with
  | case1 => cases h
  | case2 first seen s _ hnext =>
      cases h
      exact nextMember_done_length hnext
  | case3 => cases h
  | case4 first seen s tail hnext hlen seen' after hmember hlen' ih =>
      have hrest := ih h
      omega

/-- Looking for the next item of a list adds nothing to the input. -/
theorem nextItem_length {first : Bool} {tail : Bytes} (h : nextItem first s = .ok (some tail)) :
    tail.length ≤ s.length := by
  have hspace := skipSpace_length s
  unfold nextItem at h
  split at h
  · cases h
  · rename_i b after hs
    have hafter := skipSpace_length after
    rw [hs, List.length_cons] at hspace
    grind

/-- The end of a list takes a byte. -/
theorem closeArray_length (h : closeArray s = .ok rest) : rest.length < s.length := by
  unfold closeArray at h
  split at h
  · cases h
  · rename_i hs
    have hlen := length_lt_of_skipSpace hs
    grind

/-- Reading the fields of a record from a list adds nothing to the input. -/
theorem readItems_length {schema : Schema} {first : Bool} {seen record : Record}
    {fields : List (String × FieldType)}
    (h : readItems schema first seen fields s = .ok (record, rest)) : rest.length ≤ s.length := by
  fun_induction readItems schema first seen fields s with
  | case1 => cases h; exact Nat.le_refl _
  | case2 => cases h
  | case3 => cases h
  | case4 => cases h; exact Nat.le_refl _
  | case5 => cases h
  | case6 first seen name type fields s tail hnext value after hvalue ih =>
      have htail := nextItem_length hnext
      have hafter := readValue_length hvalue
      have hrest := ih h
      omega

/-- Reading a record consumes some input, whichever of its forms it has. -/
theorem readRecord_length {schema : Schema} {record : Record}
    (h : readRecord schema s = .ok (record, rest)) : rest.length < s.length := by
  unfold readRecord at h
  split at h
  · cases h
  · rename_i b tail hs
    have hlen := length_lt_of_skipSpace hs
    split at h
    · unfold readObject at h
      split at h
      · cases h
      · rename_i hmembers
        have hafter := readMembers_length hmembers
        grind
    · split at h
      · unfold readArray at h
        split at h
        · cases h
        · rename_i hitems
          have hafter := readItems_length hitems
          obtain ⟨after, hclose, heq⟩ := map_eq_ok_iff.mp h
          cases heq
          have hrest := closeArray_length hclose
          omega
      · cases h

/-! ## What is written is a value -/

/-- The bytes of a list that was written. -/
theorem utf8_array (items : List String) :
    Text.utf8 (array items) = 0x5b :: ([0x2c].intercalate (items.map Text.utf8) ++ [0x5d]) := by
  have hopener : Text.utf8 "[" = [0x5b] := by decide
  have hcloser : Text.utf8 "]" = [0x5d] := by decide
  rw [array, Text.utf8_append, Text.utf8_append, utf8_intercalate, hopener, hcloser]
  rfl

/-- Values with commas between them are the items of a list, and members those of an object. -/
theorem written_items {b : Bracket} {part : Bytes} {parts : List Bytes}
    (h : ∀ p ∈ part :: parts, Written (.item b) p) :
    Written (.items b) ([0x2c].intercalate (part :: parts)) := by
  induction parts generalizing part with
  | nil =>
      rw [List.intercalate_singleton]
      exact .last (h part List.mem_cons_self)
  | cons next parts ih =>
      rw [List.forall_mem_cons] at h
      rw [List.intercalate_cons_cons, List.append_assoc]
      exact .more h.1 (ih h.2)

/-- Items in brackets of their kind are a value. -/
theorem written_bracket {b : Bracket} {parts : List Bytes}
    (h : ∀ p ∈ parts, Written (.item b) p) :
    Written .value (b.opener :: ([0x2c].intercalate parts ++ [b.closer])) := by
  cases parts with
  | nil => exact .empty b Space.nil
  | cons part parts => exact .bracket b (written_items h)

/-- A name and a written value are a member. -/
theorem written_member (name : String) {t : String} (h : Written .value (Text.utf8 t)) :
    Written (.item .object) (Text.utf8 (member (name, t))) := by
  have hlabel : Label .object (0x22 :: (literal name ++ [0x22, 0x3a])) := by
    simpa using Label.object Space.nil (spells_literal name).literal Space.nil
  simpa [utf8_member] using Written.item hlabel Space.nil h Space.nil

/-- What is written of an object is a value of the grammar. -/
theorem written_object {members : List (String × String)}
    (h : ∀ m ∈ members, Written .value (Text.utf8 m.2)) :
    Written .value (Text.utf8 (object members)) := by
  rw [utf8_object]
  refine written_bracket (b := .object) ?_
  rw [List.forall_mem_map]
  exact fun m hm => written_member m.1 (h m hm)

/-! ## Readers -/

/-- Reads a value from the front of some bytes, and consumes some of them. -/
structure Reader (α : Type) where
  read : Bytes → Read α
  consumes : ∀ {s rest : Bytes} {a : α}, read s = .ok (a, rest) → rest.length < s.length

namespace Reader

/-- Reads a record. -/
def record (schema : Schema) : Reader Record where
  read := readRecord schema
  consumes := readRecord_length

/-- Makes something else of what is read. -/
def map (f : α → β) (r : Reader α) : Reader β where
  read s := (r.read s).map fun r => (f r.1, r.2)
  consumes h := by
    obtain ⟨_, hread, heq⟩ := map_eq_ok_iff.mp h
    cases heq
    exact r.consumes hread

/-- Reads the items of an array up to its end. -/
def readList (item : Reader α) (first : Bool) (s : Bytes) : Read (List α) :=
  match hnext : nextItem first s with
  | .error e => .error e
  | .ok none => (closeArray s).map fun rest => ([], rest)
  | .ok (some tail) =>
    have := nextItem_length hnext
    match hitem : item.read tail with
    | .error e => .error e
    | .ok (a, rest) =>
      have := item.consumes hitem
      (readList item false rest).map fun r => (a :: r.1, r.2)
termination_by s.length

/-- Reads a name and the value under it, after the name's opening quote. -/
def readPair (value : Reader α) (s : Bytes) : Read (String × α) :=
  match readText s with
  | .error e => .error e
  | .ok (name, after) =>
    match readColon after with
    | .error e => .error e
    | .ok rest => (value.read rest).map fun r => ((name, r.1), r.2)

/-- Reading a name with its value consumes some input. -/
theorem readPair_length {value : Reader α} {pair : String × α}
    (h : value.readPair s = .ok (pair, rest)) : rest.length < s.length := by
  unfold readPair at h
  split at h
  · cases h
  · rename_i hname
    split at h
    · cases h
    · rename_i hcolon
      obtain ⟨_, hvalue, heq⟩ := map_eq_ok_iff.mp h
      cases heq
      have hafter := readText_length hname
      have hmiddle := readColon_length hcolon
      have hrest := value.consumes hvalue
      omega

/-- Reads the members of an object up to its end, in the order of the text. -/
def readPairs (value : Reader α) (first : Bool) (s : Bytes) : Read (List (String × α)) :=
  match hnext : nextMember first s with
  | .error e => .error e
  | .ok (.done rest) => .ok ([], rest)
  | .ok (.member tail) =>
    have := nextMember_length hnext
    match hpair : value.readPair tail with
    | .error e => .error e
    | .ok (pair, rest) =>
      have := readPair_length hpair
      (readPairs value false rest).map fun r => (pair :: r.1, r.2)
termination_by s.length

/-- Reading the items of a list consumes some input. -/
theorem readList_length {item : Reader α} {first : Bool} {as : List α}
    (h : item.readList first s = .ok (as, rest)) : rest.length < s.length := by
  fun_induction readList item first s generalizing as with
  | case1 => cases h
  | case2 first s hnext =>
      obtain ⟨_, hclose, heq⟩ := map_eq_ok_iff.mp h
      cases heq
      exact closeArray_length hclose
  | case3 => cases h
  | case4 first s tail hnext hlen a after hitem hlen' ih =>
      obtain ⟨_, hmore, heq⟩ := map_eq_ok_iff.mp h
      cases heq
      have hrest := ih hmore
      omega

/-- Reading the members of an object consumes some input. -/
theorem readPairs_length {value : Reader α} {first : Bool} {pairs : List (String × α)}
    (h : value.readPairs first s = .ok (pairs, rest)) : rest.length < s.length := by
  fun_induction readPairs value first s generalizing pairs with
  | case1 => cases h
  | case2 first s after hnext =>
      cases h
      exact nextMember_done_length hnext
  | case3 => cases h
  | case4 first s tail hnext hlen pair after hpair hlen' ih =>
      obtain ⟨_, hmore, heq⟩ := map_eq_ok_iff.mp h
      cases heq
      have hrest := ih hmore
      omega

/-- Reads what stands in a bracket, of which the rest is read after its opening byte. -/
def bracket (b : Bracket) (expected : String) (inside : Bytes → Read α)
    (hinside : ∀ {s rest : Bytes} {a : α}, inside s = .ok (a, rest) → rest.length < s.length) :
    Reader α where
  read s :=
    match skipSpace s with
    | [] => .error .endInValue
    | c :: rest => if c = b.opener then inside rest else .error (unexpected expected c rest)
  consumes h := by
    split at h
    · cases h
    · rename_i hs
      have hlen := length_lt_of_skipSpace hs
      split at h
      · exact Nat.lt_trans (hinside h) hlen
      · cases h

/-- Reads an array of values. -/
def list (item : Reader α) : Reader (List α) :=
  bracket .list "a sequence" (item.readList true) readList_length

/-- Reads an object with a value under every name. -/
def object (value : Reader α) : Reader (List (String × α)) :=
  bracket .object "a map" (value.readPairs true) readPairs_length

/-- Reads a value with nothing but space around it. -/
def document (r : Reader α) (s : Bytes) : Except Fault α :=
  match r.read s with
  | .error e => .error e
  | .ok (a, rest) => if (skipSpace rest).isEmpty then .ok a else .error .trailingCharacters

/-! ## Reading back -/

/-- A text is a value of the grammar, and is read as something, whatever follows it. -/
structure Reads (r : Reader α) (s : Bytes) (a : α) : Prop where
  written : Written .value s
  reads : ∀ rest, r.read (s ++ rest) = .ok (a, rest)

variable {r : Reader α} {a : α}

/-- What a reader reads is also read as a whole document. -/
theorem Reads.document (h : r.Reads s a) : r.document s = .ok a := by
  have hread := h.reads []
  rw [List.append_nil] at hread
  rw [Reader.document, hread]
  rfl

/-- A reader that reads a value also reads what becomes of it. -/
theorem Reads.map (h : r.Reads s a) (f : α → β) : (r.map f).Reads s (f a) where
  written := h.written
  reads rest := by
    simp only [Reader.map, h.reads rest, Except.map]

/-- A bracket is read as soon as its inside is, up to the closing byte. -/
theorem bracket_reads {b : Bracket} {expected : String} {inside : Bytes → Read α}
    {hinside : ∀ {s rest : Bytes} {a : α}, inside s = .ok (a, rest) → rest.length < s.length}
    {parts : List Bytes} (hparts : ∀ p ∈ parts, Written (.item b) p)
    (h : ∀ rest, inside ([0x2c].intercalate parts ++ b.closer :: rest) = .ok (a, rest)) :
    (bracket b expected inside hinside).Reads
      (b.opener :: ([0x2c].intercalate parts ++ [b.closer])) a where
  written := written_bracket hparts
  reads rest := by
    have hopener : isSpace b.opener = false := by cases b <;> decide
    rw [List.cons_append, List.append_assoc]
    simp only [bracket, skipSpace_of_not hopener, if_true]
    exact h rest

/-- A record with all the fields of a schema is read as it was written. -/
theorem record_reads {schema : Schema} {fields : Record}
    (htypes : fields.map (fun f => (f.1, f.2.type)) = schema.fields)
    (hnodup : (schema.fields.map (·.1)).Nodup) :
    (record schema).Reads (Text.utf8 (writtenObject fields)) fields where
  written := by
    refine written_object ?_
    rw [List.forall_mem_map]
    exact fun f _ => .scalar (denotes_written f.2).scalar
  reads := readRecord_object htypes hnodup

/-- The parts of a bracket after some of them, and what follows the bracket. -/
def moreParts (b : Bracket) (parts : List Bytes) (rest : Bytes) : Bytes :=
  (parts.flatMap fun p => 0x2c :: p) ++ b.closer :: rest

/-- Every further part comes with the comma before it. -/
theorem moreParts_cons (b : Bracket) (part : Bytes) (parts : List Bytes) (rest : Bytes) :
    moreParts b (part :: parts) rest = 0x2c :: (part ++ moreParts b parts rest) := by
  rw [moreParts, moreParts, List.flatMap_cons, List.cons_append, List.cons_append,
    List.append_assoc]

/-- Parts with commas between them are a first part and further ones. -/
theorem intercalate_append (b : Bracket) (part : Bytes) (parts : List Bytes) (rest : Bytes) :
    [0x2c].intercalate (part :: parts) ++ b.closer :: rest = part ++ moreParts b parts rest := by
  rw [intercalate_comma, moreParts, List.append_assoc]

/-! ### Arrays -/

section Arrays

variable {item : Reader α} {f : α → String} {as : List α}

/-- The first item of a list has no comma before it. -/
theorem nextItem_first (h : Written .value s) (rest : Bytes) :
    nextItem true (s ++ rest) = .ok (some (s ++ rest)) := by
  obtain ⟨b, tail, rfl, hspace, hcloser⟩ := h.starts
  rw [List.cons_append, nextItem, skipSpace_of_not hspace]
  simp [hcloser]

/-- Every other item has a comma before it. -/
theorem nextItem_comma (h : Written .value s) (rest : Bytes) :
    nextItem false (0x2c :: (s ++ rest)) = .ok (some (s ++ rest)) := by
  obtain ⟨b, tail, rfl, hspace, hcloser⟩ := h.starts
  rw [nextItem, skipSpace_of_not (by decide)]
  simp [skipSpace_of_not hspace, hcloser]

/-- A closing bracket ends a list, whether or not an item was expected. -/
theorem readList_done (first : Bool) (rest : Bytes) :
    item.readList first (0x5d :: rest) = .ok ([], rest) := by
  have hspace : skipSpace (0x5d :: rest) = 0x5d :: rest := skipSpace_of_not (by decide) rest
  have hnext : nextItem first (0x5d :: rest) = .ok none := by rw [nextItem, hspace]; rfl
  have hclose : closeArray (0x5d :: rest) = .ok rest := by rw [closeArray, hspace]; rfl
  rw [readList]
  split
  · simp_all
  · simp [hclose, Except.map]
  · simp_all

/-- Reading a list goes on after an item. -/
theorem readList_item {first : Bool} {tail : Bytes} (hnext : nextItem first s = .ok (some tail))
    (hitem : item.read tail = .ok (a, rest)) :
    item.readList first s = (item.readList false rest).map fun r => (a :: r.1, r.2) := by
  rw [readList]
  grind

/-- The items after the first one are read back as they were written. -/
theorem readList_more (h : ∀ a ∈ as, item.Reads (Text.utf8 (f a)) a) (rest : Bytes) :
    item.readList false (moreParts .list (as.map fun a => Text.utf8 (f a)) rest) =
      .ok (as, rest) := by
  -- An item is read whatever follows it, so the rest of the array can be what follows.
  induction as with
  | nil => exact readList_done false rest
  | cons a as ih =>
      rw [List.forall_mem_cons] at h
      rw [List.map_cons, moreParts_cons,
        readList_item (nextItem_comma h.1.written _) (h.1.reads _), ih h.2]
      rfl

/-- The inside of a list is read back as it was written. -/
theorem readList_first (h : ∀ a ∈ as, item.Reads (Text.utf8 (f a)) a) (rest : Bytes) :
    item.readList true
        ([0x2c].intercalate (as.map fun a => Text.utf8 (f a)) ++ Bracket.list.closer :: rest) =
      .ok (as, rest) := by
  cases as with
  | nil => exact readList_done true rest
  | cons a as =>
      rw [List.forall_mem_cons] at h
      rw [List.map_cons, intercalate_append,
        readList_item (nextItem_first h.1.written _) (h.1.reads _), readList_more h.2]
      rfl

/-- An array is read as its items were written. -/
theorem list_reads (item : Reader α) (f : α → String) (as : List α)
    (h : ∀ a ∈ as, item.Reads (Text.utf8 (f a)) a) :
    item.list.Reads (Text.utf8 (array (as.map f))) as := by
  simp only [utf8_array, List.map_map, Function.comp_def]
  refine bracket_reads (b := .list) ?_ (readList_first h)
  rw [List.forall_mem_map]
  intro a ha
  simpa using Written.item .list Space.nil (h a ha).written Space.nil

end Arrays

/-! ### Objects -/

section Objects

variable {value : Reader α} {f : α → String} {pairs : List (String × α)}

/-- A member is read from behind the quote in front of its name, as the readers of objects do. -/
theorem readPair_member (name : String) {t : String} (h : value.Reads (Text.utf8 t) a)
    (rest : Bytes) :
    ∃ tail, Text.utf8 (member (name, t)) ++ rest = 0x22 :: tail ∧
      value.readPair tail = .ok ((name, a), rest) := by
  refine ⟨literal name ++ 0x22 :: 0x3a :: (Text.utf8 t ++ rest), by simp [utf8_member], ?_⟩
  have hname : readText (literal name ++ 0x22 :: 0x3a :: (Text.utf8 t ++ rest)) =
      .ok (name, 0x3a :: (Text.utf8 t ++ rest)) :=
    readText_eq_ok_iff.mpr ⟨_, rfl, spells_literal name⟩
  have hcolon : readColon (0x3a :: (Text.utf8 t ++ rest)) = .ok (Text.utf8 t ++ rest) := by
    rw [readColon, skipSpace_of_not (by decide)]
    rfl
  simp only [readPair, hname, hcolon, h.reads rest, Except.map]

/-- A closing brace ends an object. -/
theorem readPairs_done (first : Bool) (rest : Bytes) :
    value.readPairs first (0x7d :: rest) = .ok ([], rest) := by
  have hnext : nextMember first (0x7d :: rest) = .ok (.done rest) :=
    nextMember_closer Space.nil rest
  rw [readPairs]
  grind

/-- Reading an object goes on after a member. -/
theorem readPairs_member {first : Bool} {tail : Bytes} {pair : String × α}
    (hnext : nextMember first s = .ok (.member tail))
    (hpair : value.readPair tail = .ok (pair, rest)) :
    value.readPairs first s = (value.readPairs false rest).map fun r => (pair :: r.1, r.2) := by
  rw [readPairs]
  grind

/-- The members after the first one are read back as they were written. -/
theorem readPairs_more (h : ∀ m ∈ pairs, value.Reads (Text.utf8 (f m.2)) m.2) (rest : Bytes) :
    value.readPairs false
        (moreParts .object (pairs.map fun m => Text.utf8 (member (m.1, f m.2))) rest) =
      .ok (pairs, rest) := by
  induction pairs with
  | nil => exact readPairs_done false rest
  | cons m pairs ih =>
      rw [List.forall_mem_cons] at h
      rw [List.map_cons, moreParts_cons]
      obtain ⟨tail, htail, hpair⟩ := readPair_member m.1 h.1
        (moreParts .object (pairs.map fun m => Text.utf8 (member (m.1, f m.2))) rest)
      have hnext : nextMember false (0x2c :: 0x22 :: tail) = .ok (.member tail) :=
        nextMember_comma Space.nil Space.nil tail
      rw [htail, readPairs_member hnext hpair, ih h.2]
      rfl

/-- The inside of an object is read back as it was written. -/
theorem readPairs_first (h : ∀ m ∈ pairs, value.Reads (Text.utf8 (f m.2)) m.2) (rest : Bytes) :
    value.readPairs true
        ([0x2c].intercalate (pairs.map fun m => Text.utf8 (member (m.1, f m.2))) ++
          Bracket.object.closer :: rest) = .ok (pairs, rest) := by
  cases pairs with
  | nil => exact readPairs_done true rest
  | cons m pairs =>
      rw [List.forall_mem_cons] at h
      rw [List.map_cons, intercalate_append]
      obtain ⟨tail, htail, hpair⟩ := readPair_member m.1 h.1
        (moreParts .object (pairs.map fun m => Text.utf8 (member (m.1, f m.2))) rest)
      have hnext : nextMember true (0x22 :: tail) = .ok (.member tail) :=
        nextMember_first Space.nil tail
      rw [htail, readPairs_member hnext hpair, readPairs_more h.2]
      rfl

/-- An object is read as its members were written. -/
theorem object_reads (value : Reader α) (f : α → String) (pairs : List (String × α))
    (h : ∀ m ∈ pairs, value.Reads (Text.utf8 (f m.2)) m.2) :
    value.object.Reads (Text.utf8 (Json.object (pairs.map fun m => (m.1, f m.2)))) pairs := by
  simp only [utf8_object, List.map_map, Function.comp_def]
  refine bracket_reads (b := .object) ?_ (readPairs_first h)
  rw [List.forall_mem_map]
  exact fun m hm => written_member m.1 (h m hm).written

end Objects

end Reader
end Json
end ServiceDiscovery
