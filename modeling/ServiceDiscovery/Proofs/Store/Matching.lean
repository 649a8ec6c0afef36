import ServiceDiscovery.Proofs.Store.Lifetimes
import ServiceDiscovery.Proofs.Store.LazyPurge
import ServiceDiscovery.Proofs.Store.Renumbering

/-!
# Stores that match

A store does not care about a lease that somebody else has: whatever is done to the
other leases comes to the same with the lease and without it. And the owner of the
lease, as long as only its own key is bound to it, changes nothing else.

Main results:

- Theorem {lit}`run_dropLease`: without a lease, a command does the same to the rest.
- Theorem {lit}`dropLapsed_run_tends`: what the owner of a lease does makes no
  difference to the rest.
- Definition {lit}`Matches` and theorem {lit}`Matches.run`: stores that are the same
  but for one lease stay so when both are given the same commands.
-/

namespace ServiceDiscovery
namespace MemoryStore

variable {s t : MemoryStore} {now : Reading} {lease : LeaseId} {own : Option LeaseId} {c : Command}

/-! ## Without a lease -/

theorem faults_dropLease : (s.dropLease lease).2.faults = s.faults :=
  rfl

/-- To drop a lease that is not there changes nothing. -/
theorem dropLease_of_not_mem (hs : s.WellFormed) (h : lease ∉ s.leases.map (·.1)) :
    (s.dropLease lease).2 = s := by
  have hleases : s.leases.filter (fun l => decide (l.1 ≠ lease)) = s.leases := by
    refine List.filter_eq_self.mpr fun l hl => decide_eq_true ?_
    rintro rfl
    exact h (List.mem_map_of_mem hl)
  have hentries : s.entries.filter (fun e => decide (e.2.lease ≠ some lease)) = s.entries := by
    refine List.filter_eq_self.mpr fun e he => decide_eq_true ?_
    exact fun heq => h (hs.bound e he lease heq)
  simp only [dropLease, hleases, hentries]

/-- Dropping a lease twice is the same as dropping it once. -/
theorem dropLease_idem (s : MemoryStore) (lease : LeaseId) :
    ((s.dropLease lease).2.dropLease lease).2 = (s.dropLease lease).2 := by
  simp only [dropLease, List.filter_filter, Bool.and_self]

/-- Leases may be dropped in any order. -/
theorem dropLease_comm (s : MemoryStore) (lease other : LeaseId) :
    ((s.dropLease lease).2.dropLease other).2 = ((s.dropLease other).2.dropLease lease).2 := by
  simp only [dropLease, List.filter_filter, Bool.and_comm]

/-- A lease may be dropped before a purge or after it. -/
theorem purge_dropLease (hs : s.WellFormed) (now : Reading) (lease : LeaseId) :
    ((s.purge now).dropLease lease).2 = (s.dropLease lease).2.purge now := by
  rw [purge_eq_dropLapsed hs, purge_eq_dropLapsed (hs.dropLease lease), dropLapsed_dropLease]

/-- Dropping a lease leaves the others alone. -/
theorem lookup_dropLease {other : LeaseId} (hne : other ≠ lease) :
    (s.dropLease lease).2.leases.lookup other = s.leases.lookup other := by
  simp only [dropLease]
  induction s.leases with
  | nil => rfl
  | cons l ls ih =>
      rw [List.filter_cons, List.lookup_cons]
      by_cases hl : l.1 = lease
      · have hbeq : (other == l.1) = false := by
          rw [hl]
          simpa using hne
        rw [hbeq, if_neg (by simpa using hl), ih]
      · rw [if_pos (by simpa using hl), List.lookup_cons, ih]

theorem lookup_dropLease_self (s : MemoryStore) (lease : LeaseId) :
    (s.dropLease lease).2.leases.lookup lease = none := by
  rw [← Option.not_isSome_iff_eq_none, lookup_isSome_iff]
  exact not_mem_leases_dropLease s lease

/-- A write under another lease, or one that fails, may come before a lease is dropped or after
it. -/
theorem putLeased_dropLease (hs : s.WellFormed) {key : String} {value : Bytes} {other : LeaseId}
    (hbinds : other = lease → (s.putLeased now key value other).1 ≠ .ok ()) :
    ((s.putLeased now key value other).2.dropLease lease).2 =
      ((s.dropLease lease).2.putLeased now key value other).2 := by
  simp only [putLeased, guarded] at hbinds ⊢
  rw [faults_dropLease, ← purge_dropLease hs]
  split
  · rfl
  · rename_i hfault
    rw [if_neg hfault] at hbinds
    by_cases hother : other = lease
    · subst hother
      rw [lookup_dropLease_self]
      split
      · rename_i hlease
        rw [if_pos hlease] at hbinds
        exact absurd rfl (hbinds rfl)
      · rfl
    · rw [lookup_dropLease hother]
      split
      · simp only [dropLease]
        congr 1
        refine filter_insertEntry (hs.purge now).ordered ?_
        simpa using hother
      · rfl

/-- A renewal makes no difference to the other leases. -/
theorem filter_map_renewed (now : Reading) (lease : LeaseId) (ls : List (LeaseId × Lease)) :
    (ls.map (renewed now lease)).filter (fun l => l.1 ≠ lease) =
      ls.filter fun l => l.1 ≠ lease := by
  rw [List.filter_map]
  have hkept : ls.filter ((fun l => decide (l.1 ≠ lease)) ∘ renewed now lease) =
      ls.filter fun l => l.1 ≠ lease := by
    apply List.filter_congr
    intro l _
    rw [Function.comp_apply, renewed_fst]
  rw [hkept]
  refine (List.map_congr_left ?_).trans (List.map_id _)
  intro l hl
  exact if_neg (of_decide_eq_true (List.mem_filter.mp hl).2)

/-- A renewal may come before a lease is dropped or after it. -/
theorem renew_dropLease (hs : s.WellFormed) (now : Reading) (lease other : LeaseId) :
    ((s.renew now other).2.dropLease lease).2 = ((s.dropLease lease).2.renew now other).2 := by
  simp only [renew, guarded]
  rw [faults_dropLease, ← purge_dropLease hs]
  split
  · rfl
  · generalize s.purge now = t
    by_cases hother : other = lease
    · subst hother
      rw [lookup_dropLease_self]
      split
      · rfl
      · simp only [dropLease]
        congr 1
        exact filter_map_renewed now other t.leases
    · rw [lookup_dropLease hother]
      split
      · rfl
      · simp only [dropLease, List.filter_map]
        congr 2
        apply List.filter_congr
        intro l _
        simp only [Function.comp_apply]
        split <;> rfl

/-- A command that binds nothing to a lease does the same to everything else without it. -/
theorem run_dropLease (hs : s.WellFormed) (hnumber : lease.id.toInt < s.nextLease.toInt)
    {c : Command} (hbinds : ∀ key, c.written? (c.run now s).1 ≠ some (key, some lease)) :
    ((c.run now s).2.dropLease lease).2 = (c.run now (s.dropLease lease).2).2 := by
  cases c with
  | put key value =>
      simp only [Command.run, put, dropLease]
      congr 1
      exact filter_insertEntry hs.ordered rfl
  | delete key =>
      simp only [Command.run, delete, dropLease, Prod.map_snd, id_eq, List.filter_filter,
        Bool.and_comm]
  | putLeased key value other =>
      refine putLeased_dropLease hs ?_
      rintro rfl hok
      refine hbinds key ?_
      simp only [Command.run, Prod.map_fst, hok, Command.written?]
  | grant ttl =>
      simp only [Command.run, grant, guarded, Prod.map_snd, id_eq]
      rw [faults_dropLease]
      split
      · rfl
      · split
        · rfl
        · simp only [dropLease, List.filter_append]
          congr 2
          refine List.filter_eq_self.mpr ?_
          intro l hl
          rw [List.mem_singleton.mp hl]
          refine decide_eq_true ?_
          rintro rfl
          exact Int.lt_irrefl _ hnumber
  | renew other => exact renew_dropLease hs now lease other
  | keepAlive time period other => exact renew_dropLease hs now lease other
  | revoke other =>
      simp only [Command.run, revoke, guarded, Prod.map_snd, id_eq]
      rw [faults_dropLease]
      split
      · rfl
      · exact dropLease_comm s other lease
  | expireLease other => exact dropLease_comm s other lease
  | injectFault op =>
      simp only [Command.run, injectFault]
      rw [faults_dropLease]
      split <;> rfl
  | clearFaults => rfl
  | scan start =>
      simp only [Command.run, scan, guarded, Prod.map_snd, id_eq]
      rw [faults_dropLease]
      split
      · rfl
      · exact purge_dropLease hs now lease
  | keys => exact purge_dropLease hs now lease
  | leaseOf key => exact purge_dropLease hs now lease
  | leaseCount => exact purge_dropLease hs now lease

/-! ## The owner of a lease -/

/-- The commands with which somebody keeps a key alive under a lease. -/
inductive Command.Tends (key : String) (lease : LeaseId) : Command → Prop where
  | putLeased (value : Bytes) : Tends key lease (.putLeased key value lease)
  | renew : Tends key lease (.renew lease)
  | scan (start : String) : Tends key lease (.scan start)
  | revoke : Tends key lease (.revoke lease)

/-- After a purge no lapsed leases are left to drop. -/
theorem dropLapsed_purge (hs : s.WellFormed) (now : Reading) :
    (s.purge now).dropLapsed now = s.dropLapsed now := by
  rw [purge_eq_dropLapsed hs, dropLapsed_idem]

/-- An entry that is filtered out again, like the one that it has replaced, leaves no trace. -/
theorem filter_insertEntry_of_not {key : String} {entry : Entry} {l : List (String × Entry)}
    {p : String × Entry → Bool} (hp : p (key, entry) = false)
    (hl : ∀ e ∈ l, e.1 = key → p e = false) :
    (insertEntry key entry l).filter p = l.filter p := by
  induction l with
  | nil => simp [insertEntry, hp]
  | cons d l ih =>
      rcases d with ⟨k, d⟩
      rw [insertEntry]
      split
      · rw [List.filter_cons, if_neg (by simpa using hp)]
      · split
        · rename_i heq
          have hold : p (k, d) = false := hl (k, d) List.mem_cons_self heq.symm
          rw [List.filter_cons, if_neg (by simpa using hp), List.filter_cons,
            if_neg (by simpa using hold)]
        · rw [List.filter_cons, List.filter_cons, ih fun e he => hl e (List.mem_cons_of_mem _ he)]

/-- Whatever the owner of a lease does about it, and about a key that is bound to nothing else,
everything else stays the same. -/
theorem dropLapsed_run_tends (hs : s.WellFormed) (hnumber : lease.id.toInt < s.nextLease.toInt)
    {key : String} (hkey : ∀ e ∈ s.entries, e.1 = key → e.2.lease = some lease) {c : Command}
    (hc : c.Tends key lease) :
    ((c.run now s).2.dropLease lease).2.dropLapsed now =
      (s.dropLease lease).2.dropLapsed now := by
  have hpurged : ((s.purge now).dropLease lease).2.dropLapsed now =
      (s.dropLease lease).2.dropLapsed now := by
    rw [purge_dropLease hs, dropLapsed_purge (hs.dropLease lease)]
  cases hc with
  | putLeased value =>
      simp only [Command.run, putLeased, guarded, Prod.map_snd, id_eq]
      split
      · rfl
      · split
        · rw [← hpurged]
          congr 1
          simp only [dropLease]
          congr 1
          refine filter_insertEntry_of_not (by simp) ?_
          intro e he heq
          simpa using hkey e (mem_entries_of_purge hs he) heq
        · exact hpurged
  | renew =>
      rw [run_dropLease hs hnumber fun _ hwritten => by cases hwritten]
      refine failed_renew (hs.dropLease lease) ?_
      intro ttl hok
      cases hfault : (s.dropLease lease).2.faults.contains .keepAlive with
      | true =>
          rw [renew_of_fault now hfault] at hok
          cases hok
      | false =>
          rw [renew_of_none hfault] at hok
          · cases hok
          · rw [← purge_dropLease hs]
            exact lookup_dropLease_self _ lease
  | scan start =>
      simp only [Command.run, Prod.map_snd, id_eq]
      rcases scan_cases s now start with ⟨failure, hscan⟩ | ⟨entries, hscan⟩
      · rw [hscan]
      · rw [hscan]
        exact hpurged
  | revoke =>
      simp only [Command.run, revoke, guarded, Prod.map_snd, id_eq]
      split
      · rfl
      · exact congrArg (dropLapsed now) (dropLease_idem s lease)

/-- A lease that was granted just now makes no difference but for the numbers. -/
theorem dropLease_of_grant (hs : s.WellFormed) {ttl : Int64}
    (h : (s.grant now ttl).1 = .ok lease) :
    ((s.grant now ttl).2.dropLease lease).2 = { s with nextLease := s.nextLease + 1 } := by
  obtain ⟨rfl, _⟩ := grant_ok h
  unfold grant guarded at h ⊢
  split at h
  · cases h
  · rename_i hfault
    rw [if_neg hfault]
    split at h
    · cases h
    · rename_i httl
      rw [if_neg httl]
      have hfresh : (⟨s.nextLease⟩ : LeaseId) ∉ s.leases.map (·.1) := by
        intro hmem
        obtain ⟨l, hl, heq⟩ := List.mem_map.mp hmem
        have hbelow := (hs.numbered l hl).2
        rw [heq] at hbelow
        exact Int.lt_irrefl _ hbelow
      have hsame := dropLease_of_not_mem hs hfresh
      have hkept : s.leases.filter (fun l => decide (l.1 ≠ ⟨s.nextLease⟩)) = s.leases :=
        congrArg MemoryStore.leases hsame
      have hleases : (s.leases ++ [((⟨s.nextLease⟩ : LeaseId), Lease.granted ttl now)]).filter
          (fun l => decide (l.1 ≠ ⟨s.nextLease⟩)) = s.leases := by
        rw [List.filter_append, hkept]
        simp
      have hentries : s.entries.filter (fun e => decide (e.2.lease ≠ some ⟨s.nextLease⟩)) =
          s.entries :=
        congrArg MemoryStore.entries hsame
      simp only [dropLease, hleases, hentries]

/-! ## With a lease and without it -/

/-- A store without a lease and everything bound to it, if there is such a lease. -/
def without (own : Option LeaseId) (s : MemoryStore) : MemoryStore :=
  match own with
  | some lease => (s.dropLease lease).2
  | none => s

/-- A store without a lease is well-formed. -/
theorem WellFormed.without (hs : s.WellFormed) (own : Option LeaseId) :
    (s.without own).WellFormed := by
  cases own with
  | none => exact hs
  | some lease => exact hs.dropLease lease

/-- A store without a lease that it does not have. -/
theorem without_of_not_mem (hs : s.WellFormed) (h : ∀ lease ∈ own, lease ∉ s.leases.map (·.1)) :
    s.without own = s := by
  cases own with
  | none => rfl
  | some lease => exact dropLease_of_not_mem hs (h lease rfl)

theorem nextLease_without (own : Option LeaseId) (s : MemoryStore) :
    (s.without own).nextLease = s.nextLease := by
  cases own <;> rfl

/-- A purge uses no number up. -/
theorem nextLease_of_dropLapsed (h : s.dropLapsed now = t.dropLapsed now) :
    s.nextLease = t.nextLease := by
  have hnext : (s.dropLapsed now).nextLease = (t.dropLapsed now).nextLease := by rw [h]
  exact hnext

/-- A command that binds nothing to the lease does the same to the rest. -/
theorem run_without (hs : s.WellFormed) (htaken : ∀ lease ∈ own, lease.id.toInt < s.nextLease.toInt)
    (hbinds : ∀ w ∈ c.written? (c.run now s).1, ∀ lease ∈ own, w.2 ≠ some lease) :
    (c.run now s).2.without own = (c.run now (s.without own)).2 := by
  cases own with
  | none => rfl
  | some lease =>
      refine run_dropLease hs (htaken lease rfl) ?_
      intro key hwritten
      exact hbinds (key, some lease) hwritten lease rfl rfl

/-- The second store is the first one without a lease that is taken, under its own numbers, as far
as lapsed leases do not matter. -/
structure Matches (now : Reading) (own : Option LeaseId) (s t : MemoryStore) : Prop where
  taken : ∀ lease ∈ own, lease.id.toInt < s.nextLease.toInt
  others : t.WellFormed
  rest : (s.without own).dropLapsed now = (t.dropLapsed now).renumber (numbering own)

/-- Both stores count on from corresponding numbers. -/
theorem Matches.nextLease (h : Matches now own s t) :
    s.nextLease = (numbering own ⟨t.nextLease⟩).id := by
  rw [← nextLease_without own s]
  exact congrArg MemoryStore.nextLease h.rest

/-- Stores that match go on matching while nothing happens. -/
theorem Matches.later {later : Reading} (h : Matches now own s t) (hle : now ≤ later) :
    Matches later own s t := by
  refine ⟨h.taken, h.others, ?_⟩
  rw [← dropLapsed_dropLapsed _ hle, h.rest, dropLapsed_renumber (numbering_injective own),
    dropLapsed_dropLapsed _ hle]

/-- Stores match for as long as both are given the same commands. -/
theorem Matches.run (h : Matches now own s t) (hs : s.WellFormed) {c' : Command}
    (hc : c' = c.renumber (numbering own))
    (hbinds : ∀ w ∈ c'.written? (c'.run now s).1, ∀ lease ∈ own, w.2 ≠ some lease)
    (hnumbers : 1 ≤ (c'.run now s).2.nextLease.toInt) :
    Matches now own (c'.run now s).2 (c.run now t).2 := by
  have hinj := numbering_injective own
  -- The lease is dropped before anything is purged, and the numbers change last: a purge of the
  -- first store may find the lease lapsed, and a grant needs both stores to count alike.
  have hpurged : ((c'.run now s).2.without own).dropLapsed now =
      (c'.run now ((t.dropLapsed now).renumber (numbering own))).2.dropLapsed now := by
    rw [run_without hs h.taken hbinds, (run_dropLapsed (hs.without own) c' now).2,
      Command.runPurged, h.rest]
  have hcount : (c'.run now s).2.nextLease =
      (c'.run now ((t.dropLapsed now).renumber (numbering own))).2.nextLease :=
    (nextLease_without own _).symm.trans (nextLease_of_dropLapsed hpurged)
  have htaken : ∀ lease ∈ own, lease.id.toInt < (numbering own ⟨t.nextLease⟩).id.toInt := by
    rw [← h.nextLease]
    exact h.taken
  have hrenumber : (c'.run now ((t.dropLapsed now).renumber (numbering own))).2 =
      (c.run now (t.dropLapsed now)).2.renumber (numbering own) := by
    rw [hc] at hcount hnumbers ⊢
    refine run_renumber hinj fun hsucc => numbering_succ htaken ?_
    rw [hcount, hsucc] at hnumbers
    exact hnumbers
  have hrest : ((c'.run now s).2.without own).dropLapsed now =
      ((c.run now t).2.dropLapsed now).renumber (numbering own) := by
    rw [hpurged, hrenumber, dropLapsed_renumber hinj, (run_dropLapsed h.others c now).2,
      Command.runPurged]
  refine ⟨fun lease hlease => number_run hnumbers (h.taken lease hlease), ?_, hrest⟩
  refine h.others.run c now ?_
  rcases nextLease_run c now t with hsame | ⟨_, hsucc⟩
  · rw [hsame]
    exact h.others.counting
  · have hnext : (c'.run now s).2.nextLease = (numbering own ⟨t.nextLease + 1⟩).id := by
      rw [← nextLease_without own, ← hsucc]
      exact congrArg MemoryStore.nextLease hrest
    rw [hnext] at hnumbers
    rw [hsucc]
    exact le_of_numbering h.others.counting htaken hnumbers

/-- Stores match for as long as only the owner of the lease does something. -/
theorem Matches.tend (h : Matches now (some lease) s t) (hs : s.WellFormed) {key : String}
    (hkey : ∀ e ∈ s.entries, e.1 = key → e.2.lease = some lease) (hc : c.Tends key lease)
    (hnumbers : 1 ≤ (c.run now s).2.nextLease.toInt) :
    Matches now (some lease) (c.run now s).2 t := by
  have htaken := h.taken lease rfl
  refine ⟨?_, h.others, ?_⟩
  · rintro _ ⟨⟩
    exact number_run hnumbers htaken
  · exact (dropLapsed_run_tends hs htaken hkey hc).trans h.rest

/-- The lease that is granted next is the one that makes the difference from then on. -/
theorem Matches.grant (h : Matches now none s t) (hs : s.WellFormed) {ttl : Int64}
    (hgrant : (s.grant now ttl).1 = .ok lease)
    (hnumbers : 1 ≤ (s.grant now ttl).2.nextLease.toInt) :
    Matches now (some lease) (s.grant now ttl).2 t := by
  refine ⟨?_, h.others, ?_⟩
  · rintro _ ⟨⟩
    exact number_of_grant hgrant hnumbers
  · have hrest : s.dropLapsed now = t.dropLapsed now := h.rest.trans (renumber_id _)
    have hnext : s.nextLease = t.nextLease := nextLease_of_dropLapsed hrest
    have hdrop := congrArg (dropLapsed now) (dropLease_of_grant hs hgrant)
    obtain ⟨rfl, hsucc⟩ := grant_ok hgrant
    rw [hsucc, hnext] at hnumbers
    calc ((s.grant now ttl).2.dropLease ⟨s.nextLease⟩).2.dropLapsed now
        = { s.dropLapsed now with nextLease := s.nextLease + 1 } := hdrop
      _ = { t.dropLapsed now with nextLease := t.nextLease + 1 } := by rw [hrest, hnext]
      _ = (t.dropLapsed now).renumber (numbering (some ⟨t.nextLease⟩)) :=
          (renumber_skipping (h.others.dropLapsed now) hnumbers).symm
      _ = (t.dropLapsed now).renumber (numbering (some ⟨s.nextLease⟩)) := by rw [hnext]

end MemoryStore
end ServiceDiscovery
