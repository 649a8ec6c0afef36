import ServiceDiscovery.Store.Memory

/-!
# Well-formed stores

The invariant of stores in memory, and what purging does to a store that
satisfies it: the leases past their deadline go, together with the entries bound
to them, and nothing else changes.

Main results:

- Definition {lit}`MemoryStore.WellFormed`: entries in order, leases with
  distinct numbers that were handed out before, and no entry without its lease.
- Definition {lit}`MemoryStore.dropLapsed` and theorem
  {lit}`purge_eq_dropLapsed`: the leases that a purge drops, all at once.
- Theorem {lit}`dropLapsed_dropLapsed`: an earlier purge makes no difference to a
  later one.
-/

namespace ServiceDiscovery

theorem Lease.granted_ttl (ttl : Int64) (now : Reading) : (Lease.granted ttl now).ttl = ttl := by
  simp only [Lease.granted]

/-- A lease that has lapsed does not come back as time goes on. -/
theorem Lease.lapsed_mono {l : Lease} {now later : Reading} (hle : now ≤ later)
    (h : l.lapsed now = true) : l.lapsed later = true := by
  simp only [Lease.lapsed, decide_eq_true_eq] at *
  exact UInt64.le_trans h hle

namespace MemoryStore

/-! ## Entries in order -/

/-- Entries in strictly increasing order of their keys. -/
def Ordered (l : List (String × Entry)) : Prop :=
  l.Pairwise fun d e => d.1 < e.1

theorem insertEntry_of_lt {key : String} {entry : Entry} {l : List (String × Entry)}
    (h : ∀ e ∈ l, key < e.1) : insertEntry key entry l = (key, entry) :: l := by
  cases l with
  | nil => rfl
  | cons d l => rw [insertEntry, if_pos (h d List.mem_cons_self)]

/-- An insertion replaces the entry of its key and leaves the others alone. -/
theorem mem_insertEntry {key : String} {entry : Entry} {l : List (String × Entry)}
    (hl : Ordered l) {e : String × Entry} :
    e ∈ insertEntry key entry l ↔ e = (key, entry) ∨ e ∈ l ∧ e.1 ≠ key := by
  induction l with
  | nil => simp [insertEntry]
  | cons d l ih =>
      rcases d with ⟨k, d⟩
      have hcons := List.pairwise_cons.mp hl
      rw [insertEntry]
      by_cases hlt : key < k
      · rw [if_pos hlt, List.mem_cons]
        have hne : ∀ e ∈ (k, d) :: l, e.1 ≠ key := by
          intro e he
          rcases List.mem_cons.mp he with rfl | he
          · grind
          · have := hcons.1 e he
            grind
        grind
      · rw [if_neg hlt]
        by_cases heq : key = k
        · rw [if_pos heq, List.mem_cons]
          have hne : ∀ e ∈ l, e.1 ≠ key := by
            intro e he
            have := hcons.1 e he
            grind
          grind
        · rw [if_neg heq, List.mem_cons, ih hcons.2]
          grind

/-- An insertion keeps entries in order. -/
theorem Ordered.insertEntry {l : List (String × Entry)} (hl : Ordered l) (key : String)
    (entry : Entry) : Ordered (insertEntry key entry l) := by
  induction l with
  | nil => exact List.pairwise_singleton _ _
  | cons d l ih =>
      rcases d with ⟨k, d⟩
      have hcons := List.pairwise_cons.mp hl
      rw [MemoryStore.insertEntry]
      by_cases hlt : key < k
      · rw [if_pos hlt]
        refine List.pairwise_cons.mpr ⟨?_, hl⟩
        intro e he
        rcases List.mem_cons.mp he with rfl | he
        · exact hlt
        · have := hcons.1 e he
          grind
      · rw [if_neg hlt]
        by_cases heq : key = k
        · subst heq
          rw [if_pos rfl]
          exact List.pairwise_cons.mpr ⟨hcons.1, hcons.2⟩
        · rw [if_neg heq]
          refine List.pairwise_cons.mpr ⟨?_, ih hcons.2⟩
          intro e he
          rcases (mem_insertEntry hcons.2).mp he with rfl | ⟨he, _⟩
          · grind
          · exact hcons.1 e he

/-- Filtering keeps an entry that is inserted, whether before or after. -/
theorem filter_insertEntry {l : List (String × Entry)} (hl : Ordered l) {key : String}
    {entry : Entry} {p : String × Entry → Bool} (hp : p (key, entry) = true) :
    (insertEntry key entry l).filter p = insertEntry key entry (l.filter p) := by
  induction l with
  | nil => simp [insertEntry, hp]
  | cons d l ih =>
      rcases d with ⟨k, d⟩
      have hcons := List.pairwise_cons.mp hl
      rw [insertEntry]
      by_cases hlt : key < k
      · rw [if_pos hlt, List.filter_cons, if_pos hp, insertEntry_of_lt]
        intro e he
        rcases List.mem_cons.mp (List.mem_filter.mp he).1 with rfl | he
        · exact hlt
        · have := hcons.1 e he
          grind
      · rw [if_neg hlt]
        by_cases heq : key = k
        · subst heq
          rw [if_pos rfl, List.filter_cons, if_pos hp, List.filter_cons]
          have hfront : insertEntry key entry (l.filter p) = (key, entry) :: l.filter p :=
            insertEntry_of_lt fun e he => hcons.1 e (List.mem_filter.mp he).1
          split
          · rw [insertEntry, if_neg (by grind), if_pos rfl]
          · exact hfront.symm
        · rw [if_neg heq, List.filter_cons, List.filter_cons, ih hcons.2]
          split
          · rw [insertEntry, if_neg hlt, if_neg heq]
          · rfl

/-! ## The invariant -/

/-- What holds of every store that has not run out of lease numbers. -/
structure WellFormed (s : MemoryStore) : Prop where
  ordered : Ordered s.entries
  distinct : (s.leases.map (·.1)).Nodup
  bound : ∀ e ∈ s.entries, ∀ lease, e.2.lease = some lease → lease ∈ s.leases.map (·.1)
  numbered : ∀ l ∈ s.leases, 1 ≤ l.1.id.toInt ∧ l.1.id.toInt < s.nextLease.toInt
  lasting : ∀ l ∈ s.leases, 0 < l.2.ttl.toInt
  counting : 1 ≤ s.nextLease.toInt

theorem WellFormed.empty : MemoryStore.empty.WellFormed where
  ordered := List.Pairwise.nil
  distinct := List.nodup_nil
  bound := by simp [MemoryStore.empty]
  numbered := by simp [MemoryStore.empty]
  lasting := by simp [MemoryStore.empty]
  counting := by decide

/-- Leaving entries and leases out keeps a store well-formed, as long as every entry that is left
keeps its lease. -/
theorem WellFormed.restrict {s : MemoryStore} (h : s.WellFormed) (p : String × Entry → Bool)
    (q : LeaseId × Lease → Bool)
    (hpq : ∀ e ∈ s.entries, p e = true → ∀ l ∈ s.leases, e.2.lease = some l.1 → q l = true) :
    WellFormed { s with entries := s.entries.filter p, leases := s.leases.filter q } where
  ordered := h.ordered.sublist List.filter_sublist
  distinct := h.distinct.sublist (List.filter_sublist.map _)
  bound := by
    intro e he lease hlease
    obtain ⟨he, hp⟩ := List.mem_filter.mp he
    obtain ⟨l, hl, rfl⟩ := List.mem_map.mp (h.bound e he lease hlease)
    exact List.mem_map_of_mem (List.mem_filter.mpr ⟨hl, hpq e he hp l hl hlease⟩)
  numbered := fun l hl => h.numbered l (List.mem_filter.mp hl).1
  lasting := fun l hl => h.lasting l (List.mem_filter.mp hl).1
  counting := h.counting

/-! ## Leases by their numbers -/

theorem lookup_isSome_iff {α β : Type} [DecidableEq α] {l : List (α × β)} {a : α} :
    (l.lookup a).isSome ↔ a ∈ l.map (·.1) := by
  induction l with
  | nil => simp
  | cons x l ih =>
      rcases x with ⟨b, x⟩
      rw [List.lookup_cons, List.map_cons, List.mem_cons]
      by_cases h : a = b
      · simp [h]
      · have hbeq : (a == b) = false := by simpa using h
        simp only [hbeq, h, false_or]
        exact ih

/-- When lease numbers are distinct, a lease is found just if it is there. -/
theorem lookup_eq_some_iff {s : MemoryStore} (h : (s.leases.map (·.1)).Nodup)
    {lease : LeaseId} {l : Lease} :
    s.leases.lookup lease = some l ↔ (lease, l) ∈ s.leases := by
  generalize s.leases = ls at h
  induction ls with
  | nil => simp
  | cons m ls ih =>
      rcases m with ⟨id, m⟩
      rw [List.map_cons, List.nodup_cons] at h
      rw [List.lookup_cons, List.mem_cons]
      by_cases hid : lease = id
      · subst hid
        have hnot : (lease, l) ∉ ls := by
          intro hmem
          exact h.1 (List.mem_map.mpr ⟨_, hmem, rfl⟩)
        simp [hnot, eq_comm]
      · have hbeq : (lease == id) = false := by simpa using hid
        simp only [hbeq, ih h.2, Prod.mk.injEq, hid, false_and, false_or]

/-! ## Purging -/

/-- The store without the leases that have lapsed and without the entries bound to them. -/
def dropLapsed (now : Reading) (s : MemoryStore) : MemoryStore :=
  { s with
    leases := s.leases.filter fun l => !l.2.lapsed now
    entries := s.entries.filter fun e => e.2.lease.all fun lease => !(s.lapsed now).contains lease }

/-- Dropping leases one after the other is dropping them all at once. -/
theorem foldl_dropLease (ids : List LeaseId) (s : MemoryStore) :
    ids.foldl (fun s lease => (s.dropLease lease).2) s =
      { s with
        leases := s.leases.filter fun l => !ids.contains l.1
        entries := s.entries.filter fun e => e.2.lease.all fun lease => !ids.contains lease } := by
  induction ids generalizing s with
  | nil =>
      have hentries : (s.entries.filter fun e => e.2.lease.all fun lease =>
          !([] : List LeaseId).contains lease) = s.entries := by
        rw [List.filter_eq_self]
        intro e _
        cases e.2.lease <;> rfl
      have hleases : (s.leases.filter fun l => !([] : List LeaseId).contains l.1) = s.leases :=
        List.filter_eq_self.mpr fun _ _ => rfl
      rw [hentries, hleases]
      rfl
  | cons id ids ih =>
      rw [List.foldl_cons, ih]
      simp only [dropLease, List.filter_filter]
      congr 1
      · apply List.filter_congr
        intro e _
        cases e.2.lease <;> grind
      · apply List.filter_congr
        intro l _
        grind

/-- The lapsed leases are those whose deadline has passed. -/
theorem mem_lapsed {s : MemoryStore} {now : Reading} {lease : LeaseId} :
    lease ∈ s.lapsed now ↔ ∃ l, (lease, l) ∈ s.leases ∧ l.lapsed now = true := by
  simp only [lapsed, List.mem_map, List.mem_filter]
  constructor
  · rintro ⟨⟨id, l⟩, ⟨hl, hlapsed⟩, rfl⟩
    exact ⟨l, hl, hlapsed⟩
  · rintro ⟨l, hl, hlapsed⟩
    exact ⟨(lease, l), ⟨hl, hlapsed⟩, rfl⟩

/-- When lease numbers are distinct, there is one lease at most under a number. -/
theorem eq_of_mem_leases {s : MemoryStore} (h : (s.leases.map (·.1)).Nodup) {lease : LeaseId}
    {l m : Lease} (hl : (lease, l) ∈ s.leases) (hm : (lease, m) ∈ s.leases) : l = m := by
  rw [← lookup_eq_some_iff h] at hl hm
  rw [hl] at hm
  exact Option.some.inj hm

/-- A purge drops the leases that have lapsed together with their entries. -/
theorem purge_eq_dropLapsed {s : MemoryStore} (h : s.WellFormed) (now : Reading) :
    s.purge now = s.dropLapsed now := by
  rw [purge, foldl_dropLease, dropLapsed]
  congr 1
  apply List.filter_congr
  rintro ⟨lease, l⟩ hl
  congr 1
  rw [Bool.eq_iff_iff, List.contains_iff_mem, mem_lapsed]
  constructor
  · rintro ⟨m, hm, hlapsed⟩
    rw [eq_of_mem_leases h.distinct hl hm]
    exact hlapsed
  · intro hlapsed
    exact ⟨l, hl, hlapsed⟩

/-- A purge at an earlier reading makes no difference to a later one. -/
theorem dropLapsed_dropLapsed (s : MemoryStore) {now later : Reading} (hle : now ≤ later) :
    (s.dropLapsed now).dropLapsed later = s.dropLapsed later := by
  have hunion (lease : LeaseId) :
      lease ∈ s.lapsed now ∨ lease ∈ (s.dropLapsed now).lapsed later ↔
        lease ∈ s.lapsed later := by
    simp only [mem_lapsed, dropLapsed, List.mem_filter]
    constructor
    · rintro (⟨l, hl, hlapsed⟩ | ⟨l, ⟨hl, _⟩, hlapsed⟩)
      · exact ⟨l, hl, Lease.lapsed_mono hle hlapsed⟩
      · exact ⟨l, hl, hlapsed⟩
    · rintro ⟨l, hl, hlapsed⟩
      by_cases hnow : l.lapsed now = true
      · exact Or.inl ⟨l, hl, hnow⟩
      · exact Or.inr ⟨l, ⟨hl, by simpa using hnow⟩, hlapsed⟩
  have hleases : (s.dropLapsed now).leases.filter (fun l => !l.2.lapsed later) =
      s.leases.filter fun l => !l.2.lapsed later := by
    rw [dropLapsed, List.filter_filter]
    apply List.filter_congr
    rintro ⟨lease, l⟩ _
    by_cases hnow : l.lapsed now = true
    · simp [hnow, Lease.lapsed_mono hle hnow]
    · simp [hnow]
  have hentries : (s.dropLapsed now).entries.filter (fun e =>
        e.2.lease.all fun lease => !((s.dropLapsed now).lapsed later).contains lease) =
      s.entries.filter fun e => e.2.lease.all fun lease => !(s.lapsed later).contains lease := by
    rw [show (s.dropLapsed now).entries = s.entries.filter fun e =>
      e.2.lease.all fun lease => !(s.lapsed now).contains lease from rfl, List.filter_filter]
    apply List.filter_congr
    rintro ⟨key, value, lease⟩ _
    cases lease with
    | none => rfl
    | some lease =>
        have := hunion lease
        simp only [Option.all_some]
        grind
  rw [dropLapsed, hleases, hentries]
  rfl

/-- Dropping lapsed leases keeps a store well-formed. -/
theorem WellFormed.dropLapsed {s : MemoryStore} (h : s.WellFormed) (now : Reading) :
    (s.dropLapsed now).WellFormed := by
  refine h.restrict _ _ ?_
  rintro ⟨key, value, lease⟩ _ hp ⟨id, l⟩ hl hlease
  simp only at hlease hp
  rw [hlease, Option.all_some, Bool.not_eq_true', ← Bool.not_eq_true, List.contains_iff_mem,
    mem_lapsed] at hp
  simp only [Bool.not_eq_true', ← Bool.not_eq_true]
  intro hlapsed
  exact hp ⟨l, hl, hlapsed⟩

/-- A purge keeps a store well-formed. -/
theorem WellFormed.purge {s : MemoryStore} (h : s.WellFormed) (now : Reading) :
    (s.purge now).WellFormed := by
  rw [purge_eq_dropLapsed h]
  exact h.dropLapsed now

/-- A store is purged already once the lapsed leases are gone. -/
theorem purge_dropLapsed {s : MemoryStore} (h : s.WellFormed) (now : Reading) :
    (s.dropLapsed now).purge now = s.dropLapsed now := by
  rw [purge_eq_dropLapsed (h.dropLapsed now), dropLapsed_dropLapsed s (UInt64.le_refl now)]

end MemoryStore
end ServiceDiscovery
