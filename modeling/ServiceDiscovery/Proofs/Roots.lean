import ServiceDiscovery.Proofs.Store.Entries
import ServiceDiscovery.Registration

/-!
# Roots and the keys under them

A scan of a root compares texts: it finds every key that starts with the root
between two slashes.  Roots may hold slashes themselves, so a scan can come across
keys that were published under another root: below its own, or above it when the
last part of its own root is the name of the service.

Main results:

- Definition {lit}`Key.Reaches`: the roots whose scans come across the keys of a
  service.
- Theorem {lit}`Key.startsWith_ofInstance_iff`: there are no other such roots.
- Theorem {lit}`Registration.Plan.startsWith_key_iff`: the same of every key that an
  attempt publishes.
-/

namespace ServiceDiscovery

/-! ## Slashes -/

theorem Uuid.slash_not_mem_hexDigits (count n : Nat) : '/' ∉ Uuid.hexDigits count n := by
  induction count generalizing n with
  | zero => exact List.not_mem_nil
  | succ count ih =>
      rw [Uuid.hexDigits, List.mem_append, List.mem_singleton, not_or]
      refine ⟨ih (n / 16), ?_⟩
      have hlt : n % 16 < 16 := Nat.mod_lt n (by omega)
      generalize n % 16 = m at hlt
      revert m
      decide

/-- An identifier holds no slash. -/
theorem Uuid.slash_not_mem_text (u : Uuid) : '/' ∉ u.text.toList := by
  simp [Uuid.text, Uuid.slash_not_mem_hexDigits]

namespace Key

/-- A text that ends with a slash is the start of another one in three ways, as seen from a slash
of the other one. -/
theorem slash_prefix_iff (n m t : List Char) :
    n ++ ['/'] <+: m ++ '/' :: t ↔
      n ++ ['/'] <+: m ∨ n = m ∨ ∃ l, n = m ++ '/' :: l ∧ l ++ ['/'] <+: t := by
  induction m generalizing n with
  | nil =>
      cases n with
      | nil => simp
      | cons c n =>
          simp only [List.nil_append, List.cons_append, List.cons_prefix_cons, List.prefix_nil,
            reduceCtorEq, List.cons.injEq, false_or]
          constructor
          · rintro ⟨rfl, h⟩
            exact ⟨n, ⟨rfl, rfl⟩, h⟩
          · rintro ⟨l, ⟨rfl, rfl⟩, h⟩
            exact ⟨rfl, h⟩
  | cons d m ih =>
      cases n with
      | nil => simp [List.cons_prefix_cons]
      | cons c n =>
          simp only [List.cons_append, List.cons_prefix_cons, ih, List.cons.injEq]
          constructor
          · rintro ⟨rfl, h | rfl | ⟨l, rfl, h⟩⟩
            · exact Or.inl ⟨rfl, h⟩
            · exact Or.inr (Or.inl ⟨rfl, rfl⟩)
            · exact Or.inr (Or.inr ⟨l, ⟨rfl, rfl⟩, h⟩)
          · rintro (⟨rfl, h⟩ | ⟨rfl, rfl⟩ | ⟨l, ⟨rfl, rfl⟩, h⟩)
            · exact ⟨rfl, Or.inl h⟩
            · exact ⟨rfl, Or.inr (Or.inl rfl)⟩
            · exact ⟨rfl, Or.inr (Or.inr ⟨l, rfl, h⟩)⟩

theorem slash_mem_of_start {n m : List Char} (h : n ++ ['/'] <+: m) : '/' ∈ m :=
  h.subset (List.mem_append_right n List.mem_cons_self)

/-! ## Overlaps -/

/-- Scans of one root come across the keys of a service under another root: it is the same root, or
the other one with the name of the service, or one that the other root lies below. -/
def Reaches (scanned published name : String) : Prop :=
  scanned = published ∨ scanned = published ++ "/" ++ name ∨
    ∃ rest, published = scanned ++ "/" ++ rest

theorem toList_rootPrefix (root : String) :
    (rootPrefix root).toList = '/' :: ((normalizeRoot root).toList ++ ['/']) := by
  simp only [rootPrefix, String.toList_append]
  rfl

theorem toList_ofInstance (root name : String) (unique : Uuid) :
    (ofInstance root name unique).toList =
      '/' :: ((normalizeRoot root).toList ++
        '/' :: (name.toList ++ '/' :: (name.toList ++ '_' :: unique.text.toList))) := by
  simp only [ofInstance, String.toList_append, toList_rootPrefix, List.append_assoc,
    List.cons_append]
  rfl

/-- A scan of a root comes across the keys of a service under another root exactly if the one
reaches the other. -/
theorem startsWith_ofInstance_iff {name : String} (hname : '/' ∉ name.toList)
    (scanned published : String) (unique : Uuid) :
    startsWith (ofInstance published name unique) (rootPrefix scanned) = true ↔
      Reaches (normalizeRoot scanned) (normalizeRoot published) name := by
  have hlast : '/' ∉ name.toList ++ '_' :: unique.text.toList := by
    simp [hname, Uuid.slash_not_mem_text]
  have hslash : ("/" : String).toList = ['/'] := rfl
  rw [startsWith_iff, toList_rootPrefix, toList_ofInstance, List.cons_prefix_cons,
    slash_prefix_iff]
  constructor
  -- The slash after the scanned root falls on one of the slashes of the key, or on one within the
  -- published root; the name and the identifier have none.
  · rintro ⟨_, hbelow | heq | ⟨l, heq, hmore⟩⟩
    · right
      right
      obtain ⟨rest, hrest⟩ := hbelow
      refine ⟨String.ofList rest, ?_⟩
      rw [← String.toList_inj]
      simp [← hrest]
    · exact Or.inl (String.toList_inj.mp heq)
    · right
      left
      rw [slash_prefix_iff] at hmore
      rcases hmore with hin | rfl | ⟨l', _, hin⟩
      · exact absurd (slash_mem_of_start hin) hname
      · rw [← String.toList_inj]
        simp [heq]
      · exact absurd (slash_mem_of_start hin) hlast
  · rintro (heq | heq | ⟨rest, heq⟩)
    · exact ⟨rfl, Or.inr (Or.inl (String.toList_inj.mpr heq))⟩
    · refine ⟨rfl, Or.inr (Or.inr ⟨name.toList, ?_, ?_⟩)⟩
      · simp [heq]
      · exact (slash_prefix_iff _ _ _).mpr (Or.inr (Or.inl rfl))
    · refine ⟨rfl, Or.inl ⟨rest.toList, ?_⟩⟩
      simp [heq]

end Key

/-! ## Plans -/

namespace Registration.Plan

/-- What a plan says when there is one. -/
theorem of_make {localAddress root : String} {now : Reading} {unique : Uuid} {ttl : Duration}
    {d : Descriptor} {plan : Plan}
    (h : Plan.make localAddress now unique root ttl d = .ok plan) :
    d.prepare localAddress now = .ok plan.descriptor ∧ d.check = .ok () ∧
      plan.descriptor = d.complete localAddress now ∧
      plan.key = Key.ofInstance root d.name unique ∧ plan.root = root := by
  unfold Plan.make Descriptor.prepare at h
  cases hcheck : d.check with
  | error failure =>
      rw [hcheck] at h
      cases h
  | ok =>
      rw [hcheck] at h
      cases h
      exact ⟨by rw [Descriptor.prepare, hcheck], rfl, rfl, rfl, rfl⟩

/-- A description that can be published has a name without a slash, and one that is not blank. -/
theorem name_of_check {d : Descriptor} (h : d.check = .ok ()) :
    Text.isBlank d.name = false ∧ '/' ∉ d.name.toList := by
  unfold Descriptor.check at h
  split at h
  · cases h
  · rename_i hblank
    split at h
    · cases h
    · rename_i hslash
      refine ⟨by simpa using hblank, ?_⟩
      simpa using hslash

/-- A scan of a root comes across the key of a plan exactly if the root reaches the one under
which the plan publishes. -/
theorem startsWith_key_iff {localAddress root : String} {now : Reading} {unique : Uuid}
    {ttl : Duration} {d : Descriptor} {plan : Plan}
    (h : Plan.make localAddress now unique root ttl d = .ok plan) (scanned : String) :
    Key.startsWith plan.key (Key.rootPrefix scanned) = true ↔
      Key.Reaches (Key.normalizeRoot scanned) (Key.normalizeRoot root) d.name := by
  obtain ⟨_, hcheck, _, hkey, _⟩ := of_make h
  rw [hkey]
  exact Key.startsWith_ofInstance_iff (name_of_check hcheck).2 scanned root unique

end Registration.Plan
end ServiceDiscovery
