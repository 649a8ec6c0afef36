import Mathlib.Data.List.DropRight
import ServiceDiscovery.Proofs.Roots

/-!
# What a key tells

The name in a key has no slash, and neither has what follows it there, so a key can
be taken apart at its last two slashes: it tells under which root it was made, for
which service, and with which identifier.  Every spelling of a root gives the same
keys, and gives the name back from them.

Main results:

- Theorem {lit}`Key.normalizeRoot_normalizeRoot`: a root without slashes around it is
  its own normal form.
- Theorem {lit}`Key.name?_eq_some_iff`: the keys from which a name is read.
- Theorem {lit}`Key.ofInstance_inj`: two keys are the same only if root, name and
  identifier are.
- Theorem {lit}`Key.keys_tell_apart`: all of this for every name under which a service can be
  published.
-/

namespace ServiceDiscovery

/-! ## Identifiers -/

theorem Uuid.digitChar_inj : ∀ m < 16, ∀ n < 16, Nat.digitChar m = Nat.digitChar n → m = n := by
  decide

/-- The last digits of a number tell its remainder. -/
theorem Uuid.mod_eq_of_hexDigits {count m n : Nat} (h : hexDigits count m = hexDigits count n) :
    m % 16 ^ count = n % 16 ^ count := by
  induction count generalizing m n with
  | zero => simp [Nat.mod_one]
  | succ count ih =>
      obtain ⟨hinit, hlast⟩ := List.append_inj h (by simp)
      have hdigit : m % 16 = n % 16 :=
        digitChar_inj _ (Nat.mod_lt m (by decide)) _ (Nat.mod_lt n (by decide))
          (List.cons.inj hlast).1
      have hmore := ih hinit
      rw [Nat.pow_succ, Nat.mul_comm, Nat.mod_mul, Nat.mod_mul (x := n), hdigit, hmore]

/-- An identifier can be read from its text. -/
theorem Uuid.text_inj {u v : Uuid} : u.text = v.text ↔ u = v := by
  refine ⟨fun h => ?_, congrArg text⟩
  have hu := u.value.isLt
  have hv := v.value.isLt
  simp only [text, String.ofList_inj, List.append_assoc, List.cons_append] at h
  obtain ⟨h8, h⟩ := List.append_inj h (by simp)
  obtain ⟨h4, h⟩ := List.append_inj (List.cons.inj h).2 (by simp)
  obtain ⟨h4', h⟩ := List.append_inj (List.cons.inj h).2 (by simp)
  obtain ⟨h4'', h⟩ := List.append_inj (List.cons.inj h).2 (by simp)
  have hend := mod_eq_of_hexDigits (List.cons.inj h).2
  have hfirst := mod_eq_of_hexDigits h8
  have hsecond := mod_eq_of_hexDigits h4
  have hthird := mod_eq_of_hexDigits h4'
  have hfourth := mod_eq_of_hexDigits h4''
  simp only [Nat.shiftRight_eq_div_pow] at hfirst hsecond hthird hfourth
  have hvalue : u.value.toNat = v.value.toNat := by omega
  cases u
  cases v
  exact congrArg Uuid.mk (BitVec.eq_of_toNat_eq hvalue)

namespace Key

/-! ## Roots -/

theorem head?_dropWhile (p : Char → Bool) (cs : List Char) :
    ∀ c ∈ (cs.dropWhile p).head?, p c = false := by
  intro c hc
  have hall := List.head?_dropWhile_not p cs
  rw [Option.mem_def.mp hc] at hall
  simpa using hall

/-- What is trimmed already stays as it is. -/
theorem trim_trim (p : Char → Bool) (cs : List Char) : trim p (trim p cs) = trim p cs := by
  have hstart : trim p cs <+: cs.dropWhile p := by
    rw [← List.reverse_suffix, trim, List.reverse_reverse]
    exact List.dropWhile_suffix p
  have hfront : (trim p cs).dropWhile p = trim p cs := by
    cases htrim : trim p cs with
    | nil => rfl
    | cons c rest =>
        rw [htrim] at hstart
        obtain ⟨more, hmore⟩ := hstart
        have hc := head?_dropWhile p cs c (by simp [← hmore])
        rw [List.dropWhile_cons, hc, if_neg Bool.false_ne_true]
  rw [trim, hfront, trim, List.reverse_reverse, List.dropWhile_idempotent]

/-- A root without slashes around it is its own normal form. -/
theorem normalizeRoot_normalizeRoot (root : String) :
    normalizeRoot (normalizeRoot root) = normalizeRoot root := by
  rw [normalizeRoot, normalizeRoot, String.toList_ofList, trim_trim]

theorem rootPrefix_congr {root root' : String} (h : normalizeRoot root = normalizeRoot root') :
    rootPrefix root = rootPrefix root' := by
  rw [rootPrefix, rootPrefix, h]

/-! ## Reading the name -/

theorem after?_eq_some_iff {start s : String} {rest : List Char} :
    after? start s = some rest ↔ s.toList = start.toList ++ rest := by
  unfold after?
  split
  · rename_i hstart
    obtain ⟨more, hmore⟩ := startsWith_iff.mp hstart
    rw [← hmore, ← String.length_toList, List.drop_left, Option.some.injEq,
      List.append_cancel_left_eq]
  · rename_i hstart
    constructor
    · intro h
      cases h
    · intro h
      exact absurd (startsWith_iff.mpr ⟨rest, h.symm⟩) hstart

theorem segment?_eq_some_iff {cs name : List Char} :
    segment? cs = some name ↔ '/' ∉ name ∧ ∃ rest, cs = name ++ '/' :: rest := by
  unfold segment?
  constructor
  · intro h
    split at h
    · rename_i hslash
      obtain rfl := Option.some.inj h
      refine ⟨fun hmem => ?_, ?_⟩
      · simpa using List.mem_takeWhile_imp hmem
      · have hsplit := List.takeWhile_append_dropWhile (p := fun c => decide (c ≠ '/')) (l := cs)
        have hhead := head?_dropWhile (fun c => decide (c ≠ '/')) cs
        generalize cs.dropWhile (fun c => decide (c ≠ '/')) = after at hsplit hhead
        cases after with
        | nil =>
            rw [List.append_nil] at hsplit
            rw [← hsplit, List.contains_iff_mem] at hslash
            simpa using List.mem_takeWhile_imp hslash
        | cons c rest =>
            obtain rfl : c = '/' := by simpa using hhead c rfl
            exact ⟨rest, hsplit.symm⟩
    · cases h
  · rintro ⟨hname, rest, rfl⟩
    have hall : ∀ c ∈ name, decide (c ≠ '/') = true := by
      intro c hc
      rw [decide_eq_true_eq]
      rintro rfl
      exact hname hc
    rw [if_pos (by simp), List.takeWhile_append_of_pos hall]
    simp

/-- The name in a key is the first part after the root, if that is not empty. -/
theorem name?_eq_some_iff_bind {root key name : String} :
    name? root key = some name ↔
      name ≠ "" ∧ (after? (rootPrefix root) key).bind segment? = some name.toList := by
  have hempty (s : String) : s.toList = [] ↔ s = "" := by
    rw [← String.toList_inj]
    rfl
  unfold name?
  split
  · rename_i hnone
    simp [hnone]
  · rename_i hnil
    rw [hnil, Option.some.injEq]
    constructor
    · intro h
      cases h
    · rintro ⟨hne, hname⟩
      exact absurd ((hempty name).mp hname.symm) hne
  · rename_i cs hne hcs
    rw [hcs, Option.some.injEq, Option.some.injEq]
    constructor
    · rintro rfl
      refine ⟨fun h => hne ?_, String.toList_ofList.symm⟩
      simpa using (hempty _).mpr h
    · rintro ⟨_, rfl⟩
      exact String.ofList_toList

/-- A name is read from a key exactly if the key goes on with this name and a slash after the root;
the name is not empty and holds no slash itself. -/
theorem name?_eq_some_iff {root key name : String} :
    name? root key = some name ↔
      name ≠ "" ∧ '/' ∉ name.toList ∧ ∃ rest, key = rootPrefix root ++ name ++ "/" ++ rest := by
  rw [name?_eq_some_iff_bind, Option.bind_eq_some_iff]
  simp only [after?_eq_some_iff, segment?_eq_some_iff]
  refine and_congr_right fun _ => ?_
  constructor
  · rintro ⟨_, hkey, hslash, rest, rfl⟩
    refine ⟨hslash, String.ofList rest, ?_⟩
    rw [← String.toList_inj, hkey]
    simp
  · rintro ⟨hslash, rest, rfl⟩
    exact ⟨_, by simp, hslash, rest.toList, rfl⟩

/-! ## Taking keys apart -/

/-- A text is taken apart at its last slash in one way only. -/
theorem append_slash_inj {front front' back back' : List Char} (hback : '/' ∉ back)
    (hback' : '/' ∉ back') (h : front ++ '/' :: back = front' ++ '/' :: back') :
    front = front' ∧ back = back' := by
  rcases List.append_eq_append_iff.mp h with
    ⟨_ | ⟨c, more⟩, rfl, hmore⟩ | ⟨_ | ⟨c, more⟩, rfl, hmore⟩
  · exact ⟨(List.append_nil _).symm, (List.cons.inj hmore).2⟩
  · refine absurd ?_ hback
    simp [(List.cons.inj hmore).2]
  · exact ⟨List.append_nil _, (List.cons.inj hmore).2.symm⟩
  · refine absurd ?_ hback'
    simp [(List.cons.inj hmore).2]

/-- A key is that of another root, name and identifier only if all three are the same, roots up to
the slashes around them. -/
theorem ofInstance_inj {root root' name name' : String} {unique unique' : Uuid}
    (hname : '/' ∉ name.toList) (hname' : '/' ∉ name'.toList) :
    ofInstance root name unique = ofInstance root' name' unique' ↔
      normalizeRoot root = normalizeRoot root' ∧ name = name' ∧ unique = unique' := by
  have hlast {name : String} (hname : '/' ∉ name.toList) (unique : Uuid) :
      '/' ∉ name.toList ++ '_' :: unique.text.toList := by
    simp [hname, Uuid.slash_not_mem_text]
  constructor
  · intro h
    rw [← String.toList_inj, toList_ofInstance, toList_ofInstance, List.cons_inj_right] at h
    have hfront (root name : List Char) (rest : List Char) :
        root ++ '/' :: (name ++ '/' :: rest) = (root ++ '/' :: name) ++ '/' :: rest := by
      simp
    rw [hfront, hfront] at h
    obtain ⟨hparts, hend⟩ := append_slash_inj (hlast hname unique) (hlast hname' unique') h
    obtain ⟨hroot, heq⟩ := append_slash_inj hname hname' hparts
    rw [heq, List.append_cancel_left_eq, List.cons_inj_right, String.toList_inj] at hend
    exact ⟨String.toList_inj.mp hroot, String.toList_inj.mp heq, Uuid.text_inj.mp hend⟩
  · rintro ⟨hroot, rfl, rfl⟩
    rw [ofInstance, ofInstance, rootPrefix_congr hroot]

end Key

/-! ## Names of published services -/

/-- A description that can be published has a name, and the name has no slash. -/
theorem Descriptor.name_of_prepare {localAddress : String} {now : Reading} {d prepared : Descriptor}
    (h : d.prepare localAddress now = .ok prepared) :
    prepared.name ≠ "" ∧ '/' ∉ prepared.name.toList := by
  unfold prepare at h
  split at h
  · cases h
  · rename_i hcheck
    obtain rfl := Except.ok.inj h
    obtain ⟨hblank, hslash⟩ := Registration.Plan.name_of_check hcheck
    refine ⟨?_, hslash⟩
    rintro hempty
    have hname : d.name = "" := hempty
    rw [hname] at hblank
    cases hblank

/-- The keys of all services that can be published, under roots in every spelling. The name can be
read from a key, with any root that means the same; the key tells the root, the name and the
identifier apart from all others; and a name is read from a text under a root exactly if the text
goes on with it, between slashes, after the root. -/
theorem Key.keys_tell_apart {address address' : String} {now now' : Reading}
    {d d' prepared prepared' : Descriptor} (h : d.prepare address now = .ok prepared)
    (h' : d'.prepare address' now' = .ok prepared') (root root' : String) (unique unique' : Uuid) :
    (normalizeRoot root = normalizeRoot root' →
      name? root' (ofInstance root prepared.name unique) = some prepared.name) ∧
    (ofInstance root prepared.name unique = ofInstance root' prepared'.name unique' ↔
      normalizeRoot root = normalizeRoot root' ∧ prepared.name = prepared'.name ∧
        unique = unique') ∧
    normalizeRoot (normalizeRoot root) = normalizeRoot root ∧
    ∀ key name, name? root key = some name ↔
      name ≠ "" ∧ '/' ∉ name.toList ∧ ∃ rest, key = rootPrefix root ++ name ++ "/" ++ rest := by
  obtain ⟨hname, hslash⟩ := Descriptor.name_of_prepare h
  obtain ⟨_, hslash'⟩ := Descriptor.name_of_prepare h'
  refine ⟨fun hroots => ?_, ofInstance_inj hslash hslash', normalizeRoot_normalizeRoot root,
    fun key name => name?_eq_some_iff⟩
  rw [name?_eq_some_iff, ← rootPrefix_congr hroots]
  refine ⟨hname, hslash, prepared.name ++ "_" ++ unique.text, ?_⟩
  simp only [ofInstance, String.append_assoc]

/-- A service named like a part of a root: its name is read back with another spelling of the root,
and its key is none that it has under the rest of the root. -/
theorem Key.keys_tell_apart_nested :
    name? "//a/b//" (ofInstance "a/b" "b" ⟨1⟩) = some "b" ∧
      ofInstance "a/b" "b" ⟨1⟩ ≠ ofInstance "a" "b" ⟨1⟩ := by
  have h : (Descriptor.ofAddress "b" "10.0.0.1" "80").prepare "" 0 =
      .ok ((Descriptor.ofAddress "b" "10.0.0.1" "80").complete "" 0) := by decide
  refine ⟨(keys_tell_apart h h "a/b" "//a/b//" ⟨1⟩ ⟨1⟩).1 (by decide), fun hsame => ?_⟩
  exact absurd ((keys_tell_apart h h "a/b" "a" ⟨1⟩ ⟨1⟩).2.1.mp hsame).1 (by decide)

end ServiceDiscovery
