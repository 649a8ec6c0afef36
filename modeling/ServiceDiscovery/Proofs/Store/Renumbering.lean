import Mathlib.Data.List.Basic
import Mathlib.Data.Option.Basic
import ServiceDiscovery.Proofs.Store.Commands

/-!
# Lease numbers

A store does not care about the numbers of its leases, except that it hands them out
in order. So a store in which one number is taken does the same as one in which it is
not, under numbers that are greater by one from there on.

Main results:

- Definitions {lit}`MemoryStore.renumber` and {lit}`Command.renumber`: a store and a
  command under other lease numbers.
- Theorem {lit}`run_renumber`: under other numbers, a command does the same.
- Definition {lit}`numbering`: the numbers that leases get when one of them may be
  taken.
-/

namespace ServiceDiscovery

/-! ## Other numbers -/

/-- An entry under other lease numbers. -/
def Entry.renumber (g : LeaseId → LeaseId) (e : Entry) : Entry :=
  { e with lease := e.lease.map g }

namespace MemoryStore

/-- A store under other lease numbers. -/
def renumber (g : LeaseId → LeaseId) (s : MemoryStore) : MemoryStore :=
  { s with
    entries := s.entries.map fun e => (e.1, e.2.renumber g)
    leases := s.leases.map fun l => (g l.1, l.2)
    nextLease := (g ⟨s.nextLease⟩).id }

/-- A command under other lease numbers. -/
def Command.renumber (g : LeaseId → LeaseId) : Command → Command
  | .putLeased key value lease => .putLeased key value (g lease)
  | .renew lease => .renew (g lease)
  | .keepAlive time period lease => .keepAlive time period (g lease)
  | .revoke lease => .revoke (g lease)
  | .expireLease lease => .expireLease (g lease)
  | c => c

variable {s : MemoryStore} {now : Reading} {lease : LeaseId} {g : LeaseId → LeaseId}

theorem faults_renumber : (s.renumber g).faults = s.faults :=
  rfl

/-- With the numbers that leases have anyway, a store is the same. -/
theorem renumber_id (s : MemoryStore) : s.renumber id = s := by
  have hentry : (fun e : String × Entry => (e.1, e.2.renumber id)) = id := by
    funext e
    rw [Entry.renumber, Option.map_id]
    rfl
  rw [renumber, hentry, List.map_id]
  exact congrArg (fun leases => { s with leases }) (List.map_id _)

/-- A lease is found under its new number. -/
theorem lookup_renumber (hg : Function.Injective g) :
    (s.renumber g).leases.lookup (g lease) = s.leases.lookup lease := by
  simp only [renumber]
  induction s.leases with
  | nil => rfl
  | cons l ls ih =>
      rw [List.map_cons, List.lookup_cons, List.lookup_cons, ih]
      have hbeq : (g lease == g l.1) = (lease == l.1) := by
        rw [Bool.eq_iff_iff, beq_iff_eq, beq_iff_eq]
        exact hg.eq_iff
      rw [hbeq]

/-- Leases may be dropped before they are renumbered or after it. -/
theorem dropLease_renumber (hg : Function.Injective g) :
    ((s.renumber g).dropLease (g lease)).2 = (s.dropLease lease).2.renumber g := by
  simp only [dropLease, renumber, List.filter_map]
  congr 2
  · apply List.filter_congr
    intro e _
    refine decide_eq_decide.mpr (not_congr ?_)
    exact (Option.map_injective hg).eq_iff (b := some lease)
  · apply List.filter_congr
    intro l _
    exact decide_eq_decide.mpr (not_congr hg.eq_iff)

theorem lapsed_renumber : (s.renumber g).lapsed now = (s.lapsed now).map g := by
  simp only [lapsed, renumber, List.filter_map, List.map_map]
  rfl

/-- Lapsed leases may be dropped before leases are renumbered or after it. -/
theorem dropLapsed_renumber (hg : Function.Injective g) :
    (s.renumber g).dropLapsed now = (s.dropLapsed now).renumber g := by
  rw [dropLapsed, lapsed_renumber]
  simp only [dropLapsed, renumber, List.filter_map]
  congr 2
  apply List.filter_congr
  rintro ⟨key, value, id⟩ _
  cases id with
  | none => rfl
  | some id =>
      have hmem : ((s.lapsed now).map g).contains (g id) = (s.lapsed now).contains id := by
        rw [Bool.eq_iff_iff, List.contains_iff_mem, List.contains_iff_mem,
          List.mem_map_of_injective hg]
      exact congrArg not hmem

/-- A purge may come before leases are renumbered or after it. -/
theorem purge_renumber (hg : Function.Injective g) :
    (s.renumber g).purge now = (s.purge now).renumber g := by
  rw [purge, lapsed_renumber, purge]
  induction s.lapsed now generalizing s with
  | nil => rfl
  | cons id ids ih =>
      rw [List.map_cons, List.foldl_cons, List.foldl_cons, dropLease_renumber hg, ih]

theorem insertEntry_renumber (key : String) (entry : Entry) (l : List (String × Entry)) :
    insertEntry key (entry.renumber g) (l.map fun e => (e.1, e.2.renumber g)) =
      (insertEntry key entry l).map fun e => (e.1, e.2.renumber g) := by
  induction l with
  | nil => rfl
  | cons d l ih =>
      rw [List.map_cons, insertEntry, insertEntry, ih]
      split
      · rfl
      · split <;> rfl

/-! ## Commands under other numbers -/

/-- A write under a lease may come before leases are renumbered or after it. -/
theorem putLeased_renumber (hg : Function.Injective g) (key : String) (value : Bytes) :
    ((s.renumber g).putLeased now key value (g lease)).2 =
      (s.putLeased now key value lease).2.renumber g := by
  simp only [putLeased, guarded, purge_renumber hg, lookup_renumber hg]
  rw [faults_renumber]
  split
  · rfl
  · split
    · simp only [renumber]
      congr 1
      exact insertEntry_renumber key ⟨value, some lease⟩ _
    · rfl

/-- A renewal may come before leases are renumbered or after it. -/
theorem renew_renumber (hg : Function.Injective g) :
    ((s.renumber g).renew now (g lease)).2 = (s.renew now lease).2.renumber g := by
  simp only [renew, guarded, purge_renumber hg, lookup_renumber hg]
  rw [faults_renumber]
  split
  · rfl
  · split
    · rfl
    · simp only [renumber, List.map_map]
      congr 1
      apply List.map_congr_left
      intro l _
      simp only [Function.comp_apply, hg.eq_iff]
      split <;> rfl

/-- A store under other numbers grants the next lease under its other number, if the number after
it is the next one there too. -/
theorem grant_renumber {ttl : Int64}
    (hnext : ((s.renumber g).grant now ttl).2.nextLease = (g ⟨s.nextLease⟩).id + 1 →
      (g ⟨s.nextLease + 1⟩).id = (g ⟨s.nextLease⟩).id + 1) :
    ((s.renumber g).grant now ttl).2 = (s.grant now ttl).2.renumber g := by
  simp only [grant, guarded] at hnext ⊢
  rw [faults_renumber] at hnext ⊢
  split
  · rfl
  · rename_i hfault
    rw [if_neg hfault] at hnext
    split
    · rfl
    · rename_i httl
      rw [if_neg httl] at hnext
      simp only [renumber, List.map_append, hnext rfl]
      rfl

/-- A command does the same under other lease numbers, as long as the store goes on to number
leases in order. -/
theorem run_renumber (hg : Function.Injective g) {c : Command}
    (hnext : ((c.renumber g).run now (s.renumber g)).2.nextLease = (g ⟨s.nextLease⟩).id + 1 →
      (g ⟨s.nextLease + 1⟩).id = (g ⟨s.nextLease⟩).id + 1) :
    ((c.renumber g).run now (s.renumber g)).2 = (c.run now s).2.renumber g := by
  cases c with
  | put key value =>
      simp only [Command.renumber, Command.run, put, renumber]
      congr 1
      exact insertEntry_renumber key ⟨value, none⟩ _
  | delete key =>
      simp only [Command.renumber, Command.run, delete, renumber, Prod.map_snd, id_eq,
        List.filter_map]
      rfl
  | putLeased key value lease => exact putLeased_renumber hg key value
  | grant ttl => exact grant_renumber hnext
  | renew lease => exact renew_renumber hg
  | keepAlive time period lease => exact renew_renumber hg
  | revoke lease =>
      simp only [Command.renumber, Command.run, revoke, guarded, Prod.map_snd, id_eq,
        dropLease_renumber hg]
      rw [faults_renumber]
      split <;> rfl
  | expireLease lease => exact dropLease_renumber hg
  | injectFault op =>
      simp only [Command.renumber, Command.run, injectFault]
      rw [faults_renumber]
      split <;> rfl
  | clearFaults => rfl
  | scan start =>
      simp only [Command.renumber, Command.run, scan, guarded, Prod.map_snd, id_eq,
        purge_renumber hg]
      rw [faults_renumber]
      split <;> rfl
  | keys => exact purge_renumber hg
  | leaseOf key => exact purge_renumber hg
  | leaseCount => exact purge_renumber hg

end MemoryStore

/-! ## A number that is taken -/

/-- The numbers that other leases get when one number is taken: from that one on they are greater
by one. The last number, which no lease gets, makes room for the one that is taken. -/
def LeaseId.skipping (own lease : LeaseId) : LeaseId :=
  if lease.id.toInt < own.id.toInt then lease
  else if lease.id.toInt + 1 < 2 ^ 63 then ⟨lease.id + 1⟩
  else own

namespace LeaseId

variable {own lease : LeaseId}

theorem skipping_of_lt (h : lease.id.toInt < own.id.toInt) : own.skipping lease = lease :=
  if_pos h

/-- Where the number of a lease goes: it stays, it is one greater, or it is the last one and takes
the place of the one that is taken. -/
theorem toInt_skipping_cases (own lease : LeaseId) :
    lease.id.toInt < own.id.toInt ∧ (own.skipping lease).id.toInt = lease.id.toInt ∨
      own.id.toInt ≤ lease.id.toInt ∧ lease.id.toInt + 1 < 2 ^ 63 ∧
        (own.skipping lease).id.toInt = lease.id.toInt + 1 ∨
      own.id.toInt ≤ lease.id.toInt ∧ lease.id.toInt + 1 = 2 ^ 63 ∧
        (own.skipping lease).id.toInt = own.id.toInt := by
  have hlast := lease.id.toInt_lt
  unfold skipping
  split
  · rename_i hlt
    exact Or.inl ⟨hlt, rfl⟩
  · split
    · rename_i hle hroom
      exact Or.inr (Or.inl ⟨Int.not_lt.mp hle, hroom, MemoryStore.toInt_succ hroom⟩)
    · exact Or.inr (Or.inr ⟨by omega, by omega, rfl⟩)

/-- No two leases get the same number. -/
theorem skipping_injective (own : LeaseId) : Function.Injective own.skipping := by
  intro l m heq
  have heq : (own.skipping l).id.toInt = (own.skipping m).id.toInt := by rw [heq]
  -- The numbers below, from there on, and the last one go to three separate ranges.
  have hl := toInt_skipping_cases own l
  have hm := toInt_skipping_cases own m
  have hid : l.id.toInt = m.id.toInt := by omega
  exact congrArg LeaseId.mk (Int64.toInt_inj.mp hid)

/-- Above the number that is taken, numbers still follow one another. -/
theorem skipping_succ {n : Int64} (htaken : own.id.toInt < (own.skipping ⟨n⟩).id.toInt)
    (hnext : 1 ≤ ((own.skipping ⟨n⟩).id + 1).toInt) :
    (own.skipping ⟨n + 1⟩).id = (own.skipping ⟨n⟩).id + 1 := by
  have hadd := MemoryStore.toInt_add_one hnext
  have hlast := ((own.skipping ⟨n⟩).id + 1).toInt_lt
  have hn := toInt_skipping_cases own ⟨n⟩
  have hsucc : (n + 1).toInt = n.toInt + 1 :=
    MemoryStore.toInt_succ (by simp only at hn; omega)
  have hn' := toInt_skipping_cases own ⟨n + 1⟩
  rw [← Int64.toInt_inj, hadd]
  simp only [hsucc] at hn hn'
  omega

end LeaseId

namespace MemoryStore

variable {s : MemoryStore}

/-- The numbers that were handed out before do not change when the next one is taken. -/
theorem renumber_skipping (hs : s.WellFormed) (hnext : 1 ≤ (s.nextLease + 1).toInt) :
    s.renumber (LeaseId.skipping ⟨s.nextLease⟩) = { s with nextLease := s.nextLease + 1 } := by
  have hsame (l : LeaseId × Lease) (hl : l ∈ s.leases) :
      LeaseId.skipping ⟨s.nextLease⟩ l.1 = l.1 :=
    LeaseId.skipping_of_lt (hs.numbered l hl).2
  have hentries : s.entries.map (fun e => (e.1, e.2.renumber (LeaseId.skipping ⟨s.nextLease⟩))) =
      s.entries := by
    refine (List.map_congr_left ?_).trans (List.map_id _)
    rintro ⟨key, value, id⟩ he
    cases id with
    | none => rfl
    | some id =>
        obtain ⟨l, hl, rfl⟩ := List.mem_map.mp (hs.bound _ he id rfl)
        simp only [Entry.renumber, Option.map_some, hsame l hl, id_eq]
  have hleases : s.leases.map (fun l => (LeaseId.skipping ⟨s.nextLease⟩ l.1, l.2)) = s.leases := by
    refine (List.map_congr_left ?_).trans (List.map_id _)
    intro l hl
    rw [hsame l hl]
    rfl
  have hnumber : (LeaseId.skipping ⟨s.nextLease⟩ ⟨s.nextLease⟩).id = s.nextLease + 1 := by
    have hadd := toInt_add_one hnext
    have hlast := (s.nextLease + 1).toInt_lt
    have hcases := LeaseId.toInt_skipping_cases ⟨s.nextLease⟩ ⟨s.nextLease⟩
    rw [← Int64.toInt_inj]
    simp only at hcases
    omega
  rw [renumber, hentries, hleases, hnumber]

/-- The numbers that leases get when one of them may be taken. -/
def numbering : Option LeaseId → LeaseId → LeaseId
  | some lease => lease.skipping
  | none => id

theorem numbering_injective (own : Option LeaseId) : Function.Injective (numbering own) := by
  cases own with
  | none => exact Function.injective_id
  | some lease => exact lease.skipping_injective

/-- Above a number that is taken, if there is one, numbers follow one another. -/
theorem numbering_succ {own : Option LeaseId} {n : Int64}
    (htaken : ∀ lease ∈ own, lease.id.toInt < (numbering own ⟨n⟩).id.toInt)
    (hnext : 1 ≤ ((numbering own ⟨n⟩).id + 1).toInt) :
    (numbering own ⟨n + 1⟩).id = (numbering own ⟨n⟩).id + 1 := by
  cases own with
  | none => rfl
  | some lease => exact LeaseId.skipping_succ (htaken lease rfl) hnext

/-- Numbers last as long in a store in which none is taken. -/
theorem le_of_numbering {own : Option LeaseId} {n : Int64} (hn : 1 ≤ n.toInt)
    (htaken : ∀ lease ∈ own, lease.id.toInt < (numbering own ⟨n⟩).id.toInt)
    (hnext : 1 ≤ (numbering own ⟨n + 1⟩).id.toInt) : 1 ≤ (n + 1).toInt := by
  cases own with
  | none => exact hnext
  | some lease =>
      have hcases := LeaseId.toInt_skipping_cases lease ⟨n⟩
      have htaken : lease.id.toInt < (lease.skipping ⟨n⟩).id.toInt := htaken lease rfl
      simp only at hcases
      rw [toInt_succ (by omega)]
      omega

end MemoryStore
end ServiceDiscovery
