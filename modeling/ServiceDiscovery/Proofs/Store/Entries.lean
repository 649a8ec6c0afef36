import Mathlib.Data.String.Basic
import ServiceDiscovery.Proofs.Store.Leases

/-!
# What becomes of an entry

Commands to a store seen from one of its entries: which of them can write it and
which can remove it. A scan walks over keys in order and stops at the first one
without the given start; no key with that start comes after it.

Main results:

- Theorem {lit}`scan_eq`: a scan finds exactly the entries with the given start.
- Theorem {lit}`stored_or_kept`: an entry was there before, or it was stored just now.
- Theorem {lit}`kept_entry_run`: an entry stays as long as its lease does, unless a
  command names its key.
-/

namespace ServiceDiscovery

/-! ## Keys with a start -/

/-- A key has a start just if its characters begin with those of the start. -/
theorem Key.startsWith_iff {s start : String} :
    Key.startsWith s start = true ↔ start.toList <+: s.toList := by
  rw [Key.startsWith, List.isPrefixOf_iff_prefix]

/-- What lies between a text and a longer one starts with the text. -/
theorem prefix_of_between {s t k : List Char} (hlow : ¬ k < s) (hhigh : k < s ++ t) : s <+: k := by
  induction s generalizing k with
  | nil => exact List.nil_prefix
  | cons c s ih =>
      cases k with
      | nil => exact absurd (List.nil_lt_cons c s) hlow
      | cons d k =>
          rw [List.cons_append, List.cons_lt_cons_iff] at hhigh
          rw [List.cons_lt_cons_iff, not_or, not_and] at hlow
          rcases hhigh with hlt | ⟨rfl, hhigh⟩
          · exact absurd hlt hlow.1
          · exact List.cons_prefix_cons.mpr ⟨rfl, ih (hlow.2 rfl) hhigh⟩

/-- A text with a start is not below it. -/
theorem not_lt_of_start {s k : List Char} (h : s <+: k) : ¬ k < s := by
  induction s generalizing k with
  | nil => exact List.not_lt_nil k
  | cons c s ih =>
      obtain ⟨t, rfl⟩ := h
      rw [List.cons_append, List.cons_lt_cons_iff, not_or, not_and]
      exact ⟨lt_irrefl c, fun _ => ih (List.prefix_append s t)⟩

/-- Once a key at or above a start does not have it, no greater key does. -/
theorem Key.not_startsWith_of_lt {start k l : String} (hlow : ¬ k < start)
    (hk : Key.startsWith k start = false) (hlt : k < l) : Key.startsWith l start = false := by
  rw [← Bool.not_eq_true, Key.startsWith_iff] at *
  rintro ⟨t, ht⟩
  rw [String.lt_iff] at hlow hlt
  rw [← ht] at hlt
  exact hk (prefix_of_between hlow hlt)

namespace MemoryStore

variable {s : MemoryStore} {now : Reading}

/-! ## Scans -/

/-- Among keys in order and not below a start, those with the start come first and without a gap. -/
theorem takeWhile_startsWith {start : String} {l : List (String × Entry)} (hl : Ordered l)
    (hlow : ∀ e ∈ l, ¬ e.1 < start) :
    (l.takeWhile fun e => Key.startsWith e.1 start) =
      l.filter fun e => Key.startsWith e.1 start := by
  induction l with
  | nil => rfl
  | cons e l ih =>
      have hcons := List.pairwise_cons.mp hl
      rw [List.takeWhile_cons, List.filter_cons]
      cases he : Key.startsWith e.1 start with
      | true =>
          rw [if_pos rfl, if_pos rfl, ih hcons.2 fun d hd => hlow d (List.mem_cons_of_mem e hd)]
      | false =>
          -- The keys with the start stand together, so after the first one without it there are
          -- none, and the walk may end.
          rw [if_neg Bool.false_ne_true, if_neg Bool.false_ne_true, eq_comm, List.filter_eq_nil_iff]
          intro d hd
          rw [Bool.not_eq_true]
          exact Key.not_startsWith_of_lt (hlow e List.mem_cons_self) he (hcons.1 d hd)

/-- The walk of a scan meets every key with the start, although it stops at the first one without
it. -/
theorem walk_eq {start : String} {l : List (String × Entry)} (hl : Ordered l) :
    ((l.dropWhile fun e => e.1 < start).takeWhile fun e => Key.startsWith e.1 start) =
      l.filter fun e => Key.startsWith e.1 start := by
  induction l with
  | nil => rfl
  | cons e l ih =>
      have hcons := List.pairwise_cons.mp hl
      by_cases hlt : e.1 < start
      · have he : Key.startsWith e.1 start = false := by
          rw [← Bool.not_eq_true, Key.startsWith_iff]
          intro hprefix
          exact not_lt_of_start hprefix (String.lt_iff.mp hlt)
        rw [List.dropWhile_cons, if_pos (by simpa using hlt), ih hcons.2, List.filter_cons, he,
          if_neg Bool.false_ne_true]
      · rw [List.dropWhile_cons, if_neg (by simpa using hlt)]
        refine takeWhile_startsWith hl ?_
        intro d hd
        rcases List.mem_cons.mp hd with rfl | hd
        · exact hlt
        · intro hd'
          exact hlt (lt_trans (hcons.1 d hd) hd')

/-- What a scan finds: the entries with the given start, and none besides. -/
def found (s : MemoryStore) (start : String) : Entries :=
  (s.entries.filter fun e => Key.startsWith e.1 start).map fun e => (e.1, e.2.value)

/-- A purge only leaves entries out. -/
theorem entries_purge_sublist (s : MemoryStore) (now : Reading) :
    (s.purge now).entries.Sublist s.entries := by
  rw [purge, foldl_dropLease]
  exact List.filter_sublist

theorem Ordered.purge (hs : Ordered s.entries) (now : Reading) : Ordered (s.purge now).entries :=
  hs.sublist (entries_purge_sublist s now)

/-- As long as the entries are in order, a scan finds exactly those with the given start. -/
theorem scan_of_ordered (hs : Ordered s.entries) (hget : s.faults.contains .get = false)
    (start : String) : s.scan now start = (.ok ((s.purge now).found start), s.purge now) := by
  rw [scan, guarded, hget, if_neg Bool.false_ne_true]
  simp only [walk_eq (hs.purge now), found]

/-- A scan finds exactly the entries with the given start, after a purge. -/
theorem scan_eq (hs : s.WellFormed) (hget : s.faults.contains .get = false) (start : String) :
    s.scan now start = (.ok ((s.purge now).found start), s.purge now) :=
  scan_of_ordered hs.ordered hget start

/-- A scan fails and changes nothing, or it purges. -/
theorem scan_cases (s : MemoryStore) (now : Reading) (start : String) :
    (∃ failure, s.scan now start = (.error failure, s)) ∨
      ∃ entries, s.scan now start = (.ok entries, s.purge now) := by
  unfold scan guarded
  split
  · exact Or.inl ⟨_, rfl⟩
  · exact Or.inr ⟨_, rfl⟩

/-- A scan that succeeds has found the entries with the given start. -/
theorem found_of_scan (hs : s.WellFormed) {start : String} {entries : Entries} {s' : MemoryStore}
    (h : s.scan now start = (.ok entries, s')) :
    entries = (s.purge now).found start := by
  cases hget : s.faults.contains .get with
  | true =>
      rw [scan, guarded, hget, if_pos rfl] at h
      cases h
  | false =>
      rw [scan_eq hs hget] at h
      exact (Except.ok.inj (Prod.mk.inj h).1).symm

/-- What a scan finds is what is stored under keys with its start. -/
theorem mem_found {start key : String} {value : Bytes} :
    (key, value) ∈ s.found start ↔
      Key.startsWith key start = true ∧ ∃ lease, (key, ⟨value, lease⟩) ∈ s.entries := by
  simp only [found, List.mem_map, List.mem_filter]
  constructor
  · rintro ⟨⟨key, value, lease⟩, ⟨hmem, hstart⟩, heq⟩
    obtain ⟨rfl, rfl⟩ := Prod.mk.inj heq
    exact ⟨hstart, lease, hmem⟩
  · rintro ⟨hstart, lease, hmem⟩
    exact ⟨(key, ⟨value, lease⟩), ⟨hmem, hstart⟩, rfl⟩

/-- A scan finds no key twice. -/
theorem nodup_found (hs : s.WellFormed) (start : String) : ((s.found start).map (·.1)).Nodup := by
  rw [found, List.map_map]
  refine (hs.ordered.sublist List.filter_sublist).imp_of_mem ?_ |>.map _ fun _ _ => id
  intro d e _ _ hlt
  exact ne_of_lt hlt

/-- A key has one entry at most. -/
theorem eq_of_mem_entries {l : List (String × Entry)} (hl : Ordered l) {key : String}
    {d e : Entry} (hd : (key, d) ∈ l) (he : (key, e) ∈ l) : d = e := by
  induction l with
  | nil => cases hd
  | cons x l ih =>
      have hcons := List.pairwise_cons.mp hl
      rcases List.mem_cons.mp hd with rfl | hd' <;> rcases List.mem_cons.mp he with he' | he'
      · exact (congrArg Prod.snd he').symm
      · exact absurd (hcons.1 _ he') (lt_irrefl key)
      · subst he'
        exact absurd (hcons.1 _ hd') (lt_irrefl key)
      · exact ih hcons.2 hd' he'

/-! ## Purging -/

/-- A purge keeps the entries without a lease, and those whose lease has not lapsed. -/
theorem mem_entries_purge (hs : s.WellFormed) {e : String × Entry} :
    e ∈ (s.purge now).entries ↔ e ∈ s.entries ∧
      ∀ lease held, e.2.lease = some lease → (lease, held) ∈ s.leases →
        held.lapsed now = false := by
  rw [purge_eq_dropLapsed hs, dropLapsed, List.mem_filter]
  refine and_congr_right fun _ => ?_
  cases hlease : e.2.lease with
  | none => simp
  | some lease =>
      rw [Option.all_some, Bool.not_eq_true', ← Bool.not_eq_true, List.contains_iff_mem, mem_lapsed]
      constructor
      · rintro hnot _ held heq hmem
        cases heq
        rw [← Bool.not_eq_true]
        exact fun hlapsed => hnot ⟨held, hmem, hlapsed⟩
      · rintro hall ⟨held, hmem, hlapsed⟩
        rw [hall lease held rfl hmem] at hlapsed
        cases hlapsed

theorem mem_entries_of_purge (hs : s.WellFormed) {e : String × Entry}
    (h : e ∈ (s.purge now).entries) : e ∈ s.entries :=
  ((mem_entries_purge hs).mp h).1

/-- An entry outlives a purge together with its lease, if it has one. -/
theorem mem_entries_purge_of_lease (hs : s.WellFormed) {e : String × Entry} (he : e ∈ s.entries)
    (halive : ∀ lease, e.2.lease = some lease → lease ∈ (s.purge now).leases.map (·.1)) :
    e ∈ (s.purge now).entries := by
  refine (mem_entries_purge hs).mpr ⟨he, ?_⟩
  intro lease held hlease hmem
  obtain ⟨⟨lease, alive⟩, hafter, rfl⟩ := List.mem_map.mp (halive lease hlease)
  obtain ⟨halive, hlive⟩ := (mem_leases_purge hs).mp hafter
  rw [eq_of_mem_leases hs.distinct hmem halive]
  exact hlive

/-! ## Every command -/

/-- The key that a command names to write or to delete it. -/
def Command.key? : Command → Option String
  | .put key _ | .putLeased key _ _ | .delete key => some key
  | _ => none

/-- The key that a command has written, by its answer, and the lease to which the key is bound. -/
def Command.written? : Command → Answer → Option (String × Option LeaseId)
  | .put key _, _ => some (key, none)
  | .putLeased key _ lease, .outcome (.ok ()) => some (key, some lease)
  | _, _ => none

/-- The entry that a command has stored, by its answer, under its key. -/
def Command.stored? : Command → Answer → Option (String × Entry)
  | .put key value, _ => some (key, ⟨value, none⟩)
  | .putLeased key value lease, .outcome (.ok ()) => some (key, ⟨value, some lease⟩)
  | _, _ => none

/-- A key is written when an entry is stored under it. -/
theorem Command.written?_eq (c : Command) (answer : Answer) :
    c.written? answer = (c.stored? answer).map fun e => (e.1, e.2.lease) := by
  unfold Command.written? Command.stored?
  split <;> rfl

theorem Command.written?_eq_some_iff {c : Command} {answer : Answer} {key : String}
    {bound : Option LeaseId} : c.written? answer = some (key, bound) ↔
      ∃ value, c.stored? answer = some (key, ⟨value, bound⟩) := by
  rw [c.written?_eq, Option.map_eq_some_iff]
  constructor
  · rintro ⟨⟨_, value, _⟩, hstored, heq⟩
    cases heq
    exact ⟨value, hstored⟩
  · rintro ⟨value, hstored⟩
    exact ⟨_, hstored, rfl⟩

/-- A command that has written a key names that key. -/
theorem Command.key?_of_written? {c : Command} {answer : Answer} {key : String}
    {lease : Option LeaseId} (h : c.written? answer = some (key, lease)) : c.key? = some key := by
  unfold Command.written? at h
  split at h
  · cases h
    rfl
  · cases h
    rfl
  · cases h

/-- What a command with an answer does to the entries of a store. -/
inductive Edit (now : Reading) (s s' : MemoryStore) : Command → Answer → Prop where
  | untouched {c : Command} {answer : Answer} (hwritten : c.written? answer = none)
      (hentries : s'.entries = s.entries) : Edit now s s' c answer
  | purged {c : Command} {answer : Answer} (hwritten : c.written? answer = none)
      (hentries : s'.entries = (s.purge now).entries)
      (hleases : s'.leases.map (·.1) = (s.purge now).leases.map (·.1)) : Edit now s s' c answer
  | put {key : String} {value : Bytes} {answer : Answer}
      (hentries : s'.entries = insertEntry key ⟨value, none⟩ s.entries) :
      Edit now s s' (.put key value) answer
  | putLeased {key : String} {value : Bytes} {lease : LeaseId}
      (hentries : s'.entries = insertEntry key ⟨value, some lease⟩ (s.purge now).entries)
      (hleases : s'.leases = (s.purge now).leases) :
      Edit now s s' (.putLeased key value lease) (.outcome (.ok ()))
  | deleted {key : String} {answer : Answer}
      (hentries : s'.entries = s.entries.filter fun e => e.1 ≠ key) :
      Edit now s s' (.delete key) answer
  | dropped {c : Command} {lease : LeaseId} {answer : Answer}
      (hwritten : c.written? answer = none) (hdropped : s' = (s.dropLease lease).2) :
      Edit now s s' c answer

/-- A renewal has no effect on entries beyond a purge. -/
theorem edit_renew {c : Command} {answer : Answer} (hwritten : c.written? answer = none)
    (now : Reading) (s : MemoryStore) (lease : LeaseId) :
    Edit now s (s.renew now lease).2 c answer := by
  cases hfault : s.faults.contains .keepAlive with
  | true =>
      rw [renew_of_fault now hfault]
      exact .untouched hwritten rfl
  | false =>
      cases hlease : (s.purge now).leases.lookup lease with
      | none =>
          rw [renew_of_none hfault hlease]
          exact .purged hwritten rfl rfl
      | some held =>
          rw [renew_of_some hfault hlease]
          exact .purged hwritten rfl (map_fst_renewed now lease _)

/-- Every command edits entries as its answer says. -/
theorem edit_run (c : Command) (now : Reading) (s : MemoryStore) :
    Edit now s (c.run now s).2 c (c.run now s).1 := by
  cases c with
  | put key value => exact .put rfl
  | delete key => exact .deleted rfl
  | putLeased key value lease =>
      simp only [Command.run, putLeased, guarded]
      split
      · exact .untouched rfl rfl
      · split
        · exact .putLeased rfl rfl
        · exact .purged rfl rfl rfl
  | grant ttl =>
      simp only [Command.run, grant, guarded]
      split
      · exact .untouched rfl rfl
      · split <;> exact .untouched rfl rfl
  | renew lease => exact edit_renew rfl now s lease
  | keepAlive time period lease => exact edit_renew rfl now s lease
  | revoke lease =>
      simp only [Command.run, revoke, guarded]
      split
      · exact .untouched rfl rfl
      · exact .dropped rfl rfl
  | expireLease lease => exact .dropped rfl rfl
  | injectFault op =>
      simp only [Command.run, injectFault]
      split <;> exact .untouched rfl rfl
  | clearFaults => exact .untouched rfl rfl
  | scan start =>
      simp only [Command.run, scan, guarded]
      split
      · exact .untouched rfl rfl
      · exact .purged rfl rfl rfl
  | keys => exact .purged rfl rfl rfl
  | leaseOf key => exact .purged rfl rfl rfl
  | leaseCount => exact .purged rfl rfl rfl

/-- Entries stay in order. -/
theorem Ordered.run (hs : Ordered s.entries) (c : Command) (now : Reading) :
    Ordered (c.run now s).2.entries := by
  have hedit := edit_run c now s
  generalize (c.run now s).1 = answer, (c.run now s).2 = s' at hedit ⊢
  cases hedit with
  | untouched _ hentries => exact hentries ▸ hs
  | purged _ hentries _ => exact hentries ▸ hs.purge now
  | put hentries => exact hentries ▸ hs.insertEntry _ _
  | putLeased hentries _ => exact hentries ▸ (hs.purge now).insertEntry _ _
  | deleted hentries => exact hentries ▸ hs.sublist List.filter_sublist
  | dropped _ hdropped => exact hdropped ▸ hs.sublist List.filter_sublist

/-- An entry was stored just now, or it was there before and nothing was done to its key. -/
theorem stored_or_kept (hs : Ordered s.entries) {c : Command} {e : String × Entry}
    (h : e ∈ (c.run now s).2.entries) :
    c.stored? (c.run now s).1 = some e ∨
      e ∈ s.entries ∧ (∀ entry, c.stored? (c.run now s).1 ≠ some (e.1, entry)) ∧
        c ≠ .delete e.1 := by
  have hdeleted : c ≠ .delete e.1 := by
    rintro rfl
    exact of_decide_eq_true (List.mem_filter.mp h).2 rfl
  have hedit := edit_run c now s
  have hpurge : (s.purge now).entries ⊆ s.entries := (entries_purge_sublist s now).subset
  -- What a command has stored that writes no key.
  have hunwritten {answer : Answer} (hwritten : c.written? answer = none) :
      ∀ entry, c.stored? answer ≠ some (e.1, entry) := by
    intro entry hstored
    rw [c.written?_eq, hstored] at hwritten
    cases hwritten
  generalize (c.run now s).1 = answer, (c.run now s).2 = s' at hedit h ⊢
  cases hedit with
  | untouched hwritten hentries => exact Or.inr ⟨hentries ▸ h, hunwritten hwritten, hdeleted⟩
  | purged hwritten hentries _ =>
      exact Or.inr ⟨hpurge (hentries ▸ h), hunwritten hwritten, hdeleted⟩
  | put hentries =>
      rw [hentries] at h
      rcases (mem_insertEntry hs).mp h with rfl | ⟨h, hne⟩
      · exact Or.inl rfl
      · refine Or.inr ⟨h, ?_, hdeleted⟩
        rintro entry hstored
        exact hne (congrArg Prod.fst (Option.some.inj hstored)).symm
  | putLeased hentries _ =>
      rw [hentries] at h
      rcases (mem_insertEntry (hs.purge now)).mp h with rfl | ⟨h, hne⟩
      · exact Or.inl rfl
      · refine Or.inr ⟨hpurge h, ?_, hdeleted⟩
        rintro entry hstored
        exact hne (congrArg Prod.fst (Option.some.inj hstored)).symm
  | deleted hentries =>
      rw [hentries] at h
      exact Or.inr ⟨(List.mem_filter.mp h).1, nofun, hdeleted⟩
  | dropped hwritten hdropped =>
      rw [hdropped] at h
      exact Or.inr ⟨(List.mem_filter.mp h).1, hunwritten hwritten, hdeleted⟩

/-- An entry was there before and its key was not written, or it was written just now. -/
theorem mem_entries_run (hs : s.WellFormed) {c : Command} {e : String × Entry}
    (h : e ∈ (c.run now s).2.entries) :
    c.written? (c.run now s).1 = some (e.1, e.2.lease) ∨
      e ∈ s.entries ∧ ∀ lease, c.written? (c.run now s).1 ≠ some (e.1, lease) := by
  rcases stored_or_kept hs.ordered h with hstored | ⟨hold, hother, _⟩
  · exact Or.inl (Command.written?_eq_some_iff.mpr ⟨e.2.value, hstored⟩)
  · refine Or.inr ⟨hold, ?_⟩
    intro lease hwritten
    obtain ⟨value, hstored⟩ := Command.written?_eq_some_iff.mp hwritten
    exact hother _ hstored

/-- An entry stays as long as its lease does, if it has one, unless its key is written or
deleted. -/
theorem kept_entry_of_not_written (hs : s.WellFormed) {c : Command} {e : String × Entry}
    (he : e ∈ s.entries) (hwritten : ∀ bound, c.written? (c.run now s).1 ≠ some (e.1, bound))
    (hdeleted : c ≠ .delete e.1)
    (halive : ∀ lease, e.2.lease = some lease → lease ∈ (c.run now s).2.leases.map (·.1)) :
    e ∈ (c.run now s).2.entries := by
  have hedit := edit_run c now s
  generalize (c.run now s).1 = answer, (c.run now s).2 = s' at hedit hwritten halive ⊢
  cases hedit with
  | untouched _ hentries => exact hentries ▸ he
  | purged _ hentries hleases =>
      rw [hleases] at halive
      exact hentries ▸ mem_entries_purge_of_lease hs he halive
  | put hentries =>
      rw [hentries, mem_insertEntry hs.ordered]
      refine Or.inr ⟨he, ?_⟩
      intro heq
      refine hwritten none ?_
      rw [heq]
      rfl
  | @putLeased _ _ lease hentries hleases =>
      rw [hleases] at halive
      rw [hentries, mem_insertEntry (hs.purge now).ordered]
      refine Or.inr ⟨mem_entries_purge_of_lease hs he halive, ?_⟩
      intro heq
      refine hwritten (some lease) ?_
      rw [heq]
      rfl
  | deleted hentries =>
      rw [hentries, List.mem_filter]
      refine ⟨he, decide_eq_true ?_⟩
      intro heq
      exact hdeleted (congrArg Command.delete heq.symm)
  | @dropped _ other _ _ hdropped =>
      rw [hdropped] at halive ⊢
      refine List.mem_filter.mpr ⟨he, decide_eq_true ?_⟩
      intro hlease
      exact not_mem_leases_dropLease s other (halive other hlease)

/-- An entry stays as long as its lease does, if it has one, unless a command names its key. -/
theorem kept_entry_run (hs : s.WellFormed) {c : Command} {e : String × Entry} (he : e ∈ s.entries)
    (hc : c.key? ≠ some e.1)
    (halive : ∀ lease, e.2.lease = some lease → lease ∈ (c.run now s).2.leases.map (·.1)) :
    e ∈ (c.run now s).2.entries := by
  refine kept_entry_of_not_written hs he ?_ ?_ halive
  · intro bound hwritten
    exact hc (Command.key?_of_written? hwritten)
  · rintro rfl
    exact hc rfl

/-- A leased write that succeeds leaves its entry under its key. -/
theorem mem_entries_of_putLeased (hs : s.WellFormed) {key : String} {value : Bytes}
    {lease : LeaseId} (h : (s.putLeased now key value lease).1 = .ok ()) :
    (key, ⟨value, some lease⟩) ∈ (s.putLeased now key value lease).2.entries ∧
      lease ∈ (s.putLeased now key value lease).2.leases.map (·.1) := by
  unfold putLeased guarded at h ⊢
  split at h
  · cases h
  · rename_i hfault
    rw [if_neg hfault]
    dsimp only at h ⊢
    split at h
    · rename_i hlease
      rw [if_pos hlease]
      exact ⟨(mem_insertEntry (hs.purge now).ordered).mpr (Or.inl rfl), lookup_isSome_iff.mp hlease⟩
    · cases h

end MemoryStore
end ServiceDiscovery
