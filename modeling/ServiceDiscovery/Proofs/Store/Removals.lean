import ServiceDiscovery.Proofs.Store.Streams

/-!
# Reports of removals

Whoever deletes a key or ends a lease is told whether there was something to remove.
For that the store looks into its tables, where a lease that has lapsed stays, with its
keys, until a command comes by that purges.  So a report can tell of something that
could not be seen any more, and the answers of the run tell exactly when.

Main results:

- Definition {lit}`Since`: something has happened, and since then only other things.
- Theorems {lit}`Tracked.lease_iff` and {lit}`Tracked.entry_iff`: the tables of a store,
  read off the answers that it gave.
- Theorem {lit}`reports_after`: what is reported as removed was visible, or its lease
  was overdue.
-/

namespace ServiceDiscovery
namespace MemoryStore

variable {s : MemoryStore} {now : Reading} {lease : LeaseId} {held : Lease}

/-! ## Commands that purge -/

/-- The command drops the leases that have lapsed before it does anything else, in a store in which
some operations fail. -/
def Command.purges (faults : List Operation) : Command → Bool
  | .putLeased .. => !faults.contains .put
  | .renew _ | .keepAlive .. => !faults.contains .keepAlive
  | .scan _ => !faults.contains .get
  | .keys | .leaseOf _ | .leaseCount => true
  | .put .. | .delete _ | .grant _ | .revoke _ | .expireLease _ | .injectFault _ | .clearFaults =>
    false

/-- An operation that was made to fail changes nothing. -/
theorem guarded_of_fault {α : Type} {op : Operation} {x : Except Failure α × MemoryStore}
    (h : (!s.faults.contains op) = false) : s.guarded op x = (.error (fault op), s) := by
  have hfault : s.faults.contains op = true := by simpa using h
  rw [guarded, if_pos hfault]

/-- A command that does not purge leaves every lease alone that it does not end by its number. -/
theorem kept_of_not_purges {c : Command} (hc : c.purges s.faults = false)
    (hmem : (lease, held) ∈ s.leases) (hdropped : c.dropped? (c.run now s).1 ≠ some lease) :
    (lease, held) ∈ (c.run now s).2.leases := by
  have hdrop {other : LeaseId} (hne : other ≠ lease) :
      (lease, held) ∈ (s.dropLease other).2.leases :=
    List.mem_filter.mpr ⟨hmem, decide_eq_true hne.symm⟩
  cases c with
  | put | delete | clearFaults => exact hmem
  | injectFault op =>
      simp only [Command.run, injectFault]
      split <;> exact hmem
  | grant ttl =>
      simp only [Command.run, grant, guarded]
      split
      · exact hmem
      · split
        · exact hmem
        · exact List.mem_append_left _ hmem
  | revoke other =>
      simp only [Command.run, revoke, guarded] at hdropped ⊢
      split
      · exact hmem
      · rename_i hfault
        rw [if_neg hfault] at hdropped
        exact hdrop fun heq => hdropped (congrArg some heq)
  | expireLease other => exact hdrop fun heq => hdropped (congrArg some heq)
  | putLeased key value other =>
      rw [Command.run, putLeased, guarded_of_fault hc]
      exact hmem
  | scan start =>
      rw [Command.run, scan, guarded_of_fault hc]
      exact hmem
  | renew other =>
      rw [Command.run, renew, guarded_of_fault hc]
      exact hmem
  | keepAlive time period other =>
      rw [Command.run, renew, guarded_of_fault hc]
      exact hmem
  | keys | leaseOf | leaseCount => cases hc

/-- A command that purges finds the store as a purge leaves it. -/
theorem run_purge (hs : s.WellFormed) {c : Command} (hc : c.purges s.faults = true)
    (now : Reading) : c.run now (s.purge now) = c.run now s := by
  have hpurge : (s.purge now).purge now = s.purge now := by
    rw [purge_eq_dropLapsed hs, purge_dropLapsed hs]
  have hguarded {α : Type} {op : Operation} (hop : (!s.faults.contains op) = true)
      (x : Except Failure α × MemoryStore) : (s.purge now).guarded op x = s.guarded op x := by
    rw [Bool.not_eq_true'] at hop
    simp only [guarded, faults_purge, hop, Bool.false_eq_true, if_false]
  cases c with
  | putLeased key value other =>
      simp only [Command.run, putLeased, hpurge, hguarded hc]
  | scan start => simp only [Command.run, scan, hpurge, hguarded hc]
  | renew other => simp only [Command.run, renew, hpurge, hguarded hc]
  | keepAlive time period other => simp only [Command.run, renew, hpurge, hguarded hc]
  | keys => simp only [Command.run, keys, hpurge]
  | leaseOf key => simp only [Command.run, leaseOf, hpurge]
  | leaseCount => simp only [Command.run, leaseCount, hpurge]
  | put | delete | grant | revoke | expireLease | injectFault | clearFaults => cases hc

/-- After a command that does not extend it, a lease is there if it was, unless the command has
ended it by its number, or has purged it. -/
theorem mem_leases_run_iff (hs : s.WellFormed) {c : Command}
    (hextended : c.extended? (c.run now s).1 ≠ some lease) :
    (lease, held) ∈ (c.run now s).2.leases ↔
      (lease, held) ∈ s.leases ∧ c.dropped? (c.run now s).1 ≠ some lease ∧
        (c.purges s.faults = true → held.lapsed now = false) := by
  constructor
  · intro hmem
    refine ⟨?_, ?_, ?_⟩
    · rcases extended_cases hs hmem with ⟨hold, _⟩ | ⟨hyes, _⟩
      · exact hold
      · exact absurd hyes hextended
    · intro hdropped
      exact not_mem_leases_of_dropped hdropped (List.mem_map_of_mem hmem)
    · intro hpurges
      rw [← run_purge hs hpurges now] at hmem hextended
      rcases extended_cases (hs.purge now) hmem with ⟨hold, _⟩ | ⟨hyes, _⟩
      · exact ((mem_leases_purge hs).mp hold).2
      · exact absurd hyes hextended
  · rintro ⟨hold, hdropped, hlive⟩
    cases hpurges : c.purges s.faults with
    | true => exact kept_lease_run hs hold hextended hdropped (hlive hpurges)
    | false => exact kept_of_not_purges hpurges hold hdropped

/-- A lease that a command extends is there afterwards, for as long as it was granted. -/
theorem mem_leases_of_extended (hs : s.WellFormed) {c : Command}
    (hextended : c.extended? (c.run now s).1 = some lease) :
    ∃ held, (lease, held) ∈ (c.run now s).2.leases ∧ held = Lease.granted held.ttl now := by
  have hthere : lease ∈ (c.run now s).2.leases.map (·.1) := by
    rcases live_of_extended hs hextended with hgranted | ⟨old, hold, hlive⟩
    · exact (eq_of_mem_granted hgranted).2.2
    · have hrevoke : c ≠ .revoke lease := by
        rintro rfl
        cases hextended
      have hexpire : c ≠ .expireLease lease := by
        rintro rfl
        cases hextended
      rcases kept_run hs hold hlive hrevoke hexpire with hkept | hrenewed
      · exact List.mem_map_of_mem hkept
      · exact List.mem_map_of_mem hrenewed
  obtain ⟨⟨_, held⟩, hmem, rfl⟩ := List.mem_map.mp hthere
  rcases extended_cases hs hmem with ⟨_, hno⟩ | ⟨_, hheld, _⟩
  · exact absurd hextended hno
  · exact ⟨held, hmem, hheld⟩

/-! ## What has happened since -/

/-- Something of one kind has happened, and since then only things of another kind. -/
def Since (was still : Exchange → Prop) (xs : List Exchange) : Prop :=
  ∃ earlier x later, xs = earlier ++ x :: later ∧ was x ∧ ∀ y ∈ later, still y

/-- What has happened since stays so when less is asked for. -/
theorem Since.mono {was was' still still' : Exchange → Prop} {xs : List Exchange}
    (h : Since was still xs) (hwas : ∀ x, was x → was' x) (hstill : ∀ y, still y → still' y) :
    Since was' still' xs := by
  obtain ⟨earlier, x, later, heq, hx, hlater⟩ := h
  exact ⟨earlier, x, later, heq, hwas x hx, fun y hy => hstill y (hlater y hy)⟩

/-- Nothing has happened in the beginning. -/
theorem not_since_nil {was still : Exchange → Prop} : ¬ Since was still [] := by
  rintro ⟨earlier, x, later, heq, _⟩
  exact List.append_ne_nil_of_right_ne_nil _ (List.cons_ne_nil _ _) heq.symm

/-- The last thing that has happened is the one in question, or one that may follow it. -/
theorem since_concat {was still : Exchange → Prop} {xs : List Exchange} {x : Exchange} :
    Since was still (xs ++ [x]) ↔ was x ∨ still x ∧ Since was still xs := by
  constructor
  · rintro ⟨earlier, y, later, heq, hwas, hstill⟩
    rcases List.eq_nil_or_concat later with rfl | ⟨later, z, rfl⟩
    · obtain ⟨_, hx⟩ := List.append_inj' heq rfl
      obtain rfl := (List.cons.inj hx).1
      exact Or.inl hwas
    · rw [List.concat_eq_append, ← List.cons_append, ← List.append_assoc] at heq
      obtain ⟨rfl, hx⟩ := List.append_inj' heq rfl
      obtain rfl := (List.cons.inj hx).1
      rw [List.concat_eq_append, List.forall_mem_append, List.forall_mem_singleton] at hstill
      exact Or.inr ⟨hstill.2, earlier, y, later, rfl, hwas, hstill.1⟩
  · rintro (hwas | ⟨hx, earlier, y, later, rfl, hwas, hstill⟩)
    · exact ⟨xs, x, [], rfl, hwas, List.forall_mem_nil _⟩
    · refine ⟨earlier, y, later ++ [x], by simp, hwas, ?_⟩
      rw [List.forall_mem_append, List.forall_mem_singleton]
      exact ⟨hstill, hx⟩

/-! ## The tables of a store -/

/-- A lease was ended by its number. -/
def Exchange.Drops (x : Exchange) (lease : LeaseId) : Prop :=
  x.command.dropped? x.answer = some lease

/-- The leases that had lapsed were dropped. -/
def Exchange.Purges (x : Exchange) : Prop :=
  x.command.purges x.before.faults = true

/-- A lease was extended up to a deadline; since then it was neither extended again nor ended by
its number, and whatever has purged did so before the deadline. -/
def Due (xs : List Exchange) (lease : LeaseId) (deadline : Reading) : Prop :=
  ∃ ttl, (lease, ttl) ∈ grantedFor xs ∧
    Since (fun x => x.Extends lease ∧ (Lease.granted ttl x.now).deadline = deadline)
      (fun y => ¬ y.Extends lease ∧ ¬ y.Drops lease ∧ (y.Purges → y.now < deadline)) xs

/-- The deadline of a lease has been reached, and nothing has dropped the lease yet. -/
def Overdue (xs : List Exchange) (lease : LeaseId) (now : Reading) : Prop :=
  ∃ deadline, Due xs lease deadline ∧ deadline ≤ now

/-- A key was written and bound in some way; since then it was neither written again nor deleted. -/
def Written (xs : List Exchange) (key : String) (bound : Option LeaseId) : Prop :=
  Since (fun x => x.command.written? x.answer = some (key, bound))
    (fun y => (∀ other, y.command.written? y.answer ≠ some (key, other)) ∧
      y.command ≠ .delete key) xs

/-- The tables of a store are what the answers that were given say they must be. -/
structure Tracked (xs : List Exchange) (s : MemoryStore) : Prop where
  accounted : Accounted xs s
  termed : Termed xs s
  lease_iff : ∀ lease deadline,
    (∃ held, (lease, held) ∈ s.leases ∧ held.deadline = deadline) ↔ Due xs lease deadline
  entry_iff : ∀ key bound, (∃ value, (key, ⟨value, bound⟩) ∈ s.entries) ↔
    Written xs key bound ∧ ∀ lease, bound = some lease → lease ∈ s.leases.map (·.1)
  granted : ∀ key lease, Written xs key (some lease) → lease ∈ granted xs

theorem Tracked.empty : Tracked [] .empty where
  accounted := Accounted.empty
  termed := by
    intro lease held hmem
    cases hmem
  lease_iff := by
    intro lease deadline
    constructor
    · rintro ⟨held, hmem, _⟩
      cases hmem
    · rintro ⟨ttl, hgranted, _⟩
      cases hgranted
  entry_iff := by
    intro key bound
    constructor
    · rintro ⟨value, hmem⟩
      cases hmem
    · rintro ⟨hwritten, _⟩
      exact absurd hwritten not_since_nil
  granted := fun _ _ hwritten => absurd hwritten not_since_nil

theorem lapsed_eq_false_iff : held.lapsed now = false ↔ now < held.deadline := by
  rw [Lease.lapsed, decide_eq_false_iff_not, UInt64.not_le]

variable {xs : List Exchange} {c : Command}

/-- What a command does to the table of leases, by its answer. -/
theorem Tracked.lease_iff_run (h : Tracked xs s) (lease : LeaseId) (deadline : Reading) :
    (∃ held, (lease, held) ∈ (c.run now s).2.leases ∧ held.deadline = deadline) ↔
      Due (xs ++ [c.exchange now s]) lease deadline := by
  have hs := h.accounted.wellFormed
  have htermed := h.termed.run hs c now
  by_cases hextended : (c.exchange now s).Extends lease
  · -- The command has just settled the deadline; what was before does not matter.
    constructor
    · rintro ⟨held, hmem, rfl⟩
      rcases extended_cases hs hmem with ⟨_, hno⟩ | ⟨_, hheld, _⟩
      · exact absurd hextended hno
      · exact ⟨held.ttl, (htermed lease held hmem).1,
          since_concat.mpr (Or.inl ⟨hextended, congrArg Lease.deadline hheld.symm⟩)⟩
    · rintro ⟨ttl, hgranted, hsince⟩
      obtain ⟨held, hmem, hheld⟩ := mem_leases_of_extended hs hextended
      have hlength := eq_of_mem_grantedFor (h.accounted.nodup_run c now) hgranted
        (htermed lease held hmem).1
      rcases since_concat.mp hsince with ⟨_, rfl⟩ | ⟨⟨hno, _⟩, _⟩
      · refine ⟨held, hmem, ?_⟩
        rw [hlength]
        exact congrArg Lease.deadline hheld
      · exact absurd hextended hno
  · constructor
    · rintro ⟨held, hmem, rfl⟩
      obtain ⟨hold, hdropped, hlive⟩ := (mem_leases_run_iff hs hextended).mp hmem
      obtain ⟨ttl, hgranted, hsince⟩ := (h.lease_iff lease held.deadline).mp ⟨held, hold, rfl⟩
      refine ⟨ttl, ?_, since_concat.mpr (Or.inr ⟨⟨hextended, hdropped, ?_⟩, hsince⟩)⟩
      · rw [grantedFor_append]
        exact List.mem_append_left _ hgranted
      · exact fun hpurges => lapsed_eq_false_iff.mp (hlive hpurges)
    · rintro ⟨ttl, hgranted, hsince⟩
      rcases since_concat.mp hsince with ⟨hyes, _⟩ | ⟨⟨_, hdropped, hlive⟩, hsince⟩
      · exact absurd hyes hextended
      · have hbefore : (lease, ttl) ∈ grantedFor xs := by
          rw [grantedFor_append] at hgranted
          rcases List.mem_append.mp hgranted with hbefore | hnow
          · exact hbefore
          · obtain ⟨_, hmem, hnow⟩ := List.mem_filterMap.mp hnow
            obtain rfl := List.mem_singleton.mp hmem
            exact absurd (Command.extended?_of_granted? hnow) hextended
        obtain ⟨held, hold, rfl⟩ := (h.lease_iff lease deadline).mpr ⟨ttl, hbefore, hsince⟩
        refine ⟨held, (mem_leases_run_iff hs hextended).mpr ⟨hold, hdropped, ?_⟩, rfl⟩
        exact fun hpurges => lapsed_eq_false_iff.mpr (hlive hpurges)

/-- A key that a command has written is there afterwards, bound as it was written. -/
theorem mem_entries_of_written (hs : s.WellFormed) {key : String} {bound : Option LeaseId}
    (h : c.written? (c.run now s).1 = some (key, bound)) :
    ∃ value, (key, ⟨value, bound⟩) ∈ (c.run now s).2.entries := by
  cases c with
  | put other value =>
      obtain ⟨rfl, rfl⟩ := Prod.mk.inj (Option.some.inj h)
      exact ⟨value, (mem_insertEntry hs.ordered).mpr (Or.inl rfl)⟩
  | putLeased other value lease =>
      cases hresult : (s.putLeased now other value lease).1 with
      | error failure => simp [Command.run, Command.written?, hresult] at h
      | ok _ =>
          simp only [Command.run, Command.written?, Prod.map_fst, hresult, Option.some.injEq,
            Prod.mk.injEq] at h
          obtain ⟨rfl, rfl⟩ := h
          exact ⟨value, (mem_entries_of_putLeased hs hresult).1⟩
  | delete | revoke | expireLease | grant | renew | keepAlive | injectFault | clearFaults
  | scan | keys | leaseOf | leaseCount => cases h

/-- What a command does to the table of entries, by its answer. -/
theorem Tracked.entry_iff_run (h : Tracked xs s)
    (hafter : Accounted (xs ++ [c.exchange now s]) (c.run now s).2) (key : String)
    (bound : Option LeaseId) :
    (∃ value, (key, ⟨value, bound⟩) ∈ (c.run now s).2.entries) ↔
      Written (xs ++ [c.exchange now s]) key bound ∧
        ∀ lease, bound = some lease → lease ∈ (c.run now s).2.leases.map (·.1) := by
  have hs := h.accounted.wellFormed
  constructor
  · rintro ⟨value, hmem⟩
    refine ⟨since_concat.mpr ?_, hafter.wellFormed.bound _ hmem⟩
    rcases mem_entries_run hs hmem with hwritten | ⟨hold, hother⟩
    · exact Or.inl hwritten
    · refine Or.inr ⟨⟨hother, ?_⟩, ((h.entry_iff key bound).mp ⟨value, hold⟩).1⟩
      rintro rfl
      exact of_decide_eq_true (List.mem_filter.mp hmem).2 rfl
  · rintro ⟨hwritten, hlease⟩
    rcases since_concat.mp hwritten with hnow | ⟨⟨hother, hdeleted⟩, hbefore⟩
    · exact mem_entries_of_written hs hnow
    · obtain ⟨value, hold⟩ := (h.entry_iff key bound).mpr ⟨hbefore, fun lease hbound =>
        h.accounted.lease_of_append hafter (h.granted key lease (hbound ▸ hbefore))
          (hlease lease hbound)⟩
      exact ⟨value, kept_entry_of_not_written hs hold hother hdeleted hlease⟩

/-- A command keeps the tables in line with the answers, as long as there are lease numbers. -/
theorem Tracked.run (h : Tracked xs s) (c : Command) (now : Reading)
    (hroom : (MemoryStore.granted (xs ++ [c.exchange now s])).length < 2 ^ 63 - 1) :
    Tracked (xs ++ [c.exchange now s]) (c.run now s).2 where
  accounted := h.accounted.run c now hroom
  termed := h.termed.run h.accounted.wellFormed c now
  lease_iff := h.lease_iff_run
  entry_iff := h.entry_iff_run (h.accounted.run c now hroom)
  granted := by
    intro key lease hwritten
    rw [granted_append]
    refine List.mem_append_left _ ?_
    rcases since_concat.mp hwritten with hnow | ⟨_, hbefore⟩
    · obtain ⟨held, hmem, _⟩ := live_of_written h.accounted.wellFormed hnow
      exact ((h.accounted.live lease).mp (List.mem_map_of_mem hmem)).1
    · exact h.granted key lease hbefore

/-- Whatever a store was asked, its tables are in line with its answers. -/
theorem tracked_after {cmds : List (Reading × Command)}
    (hroom : (granted (history cmds)).length < 2 ^ 63 - 1) :
    Tracked (history cmds) (after cmds) := by
  refine after_induction (P := fun xs s => (granted xs).length < 2 ^ 63 - 1 → Tracked xs s)
    (fun _ => Tracked.empty) ?_ cmds hroom
  intro xs s c now ih hroom
  exact (ih (Nat.lt_of_le_of_lt (length_granted_le _ _) hroom)).run c now hroom

/-! ## Reports -/

/-- A removal tells whether there was an entry, even under a lapsed lease. -/
theorem delete_eq_true_iff {key : String} :
    (s.delete key).1 = true ↔ ∃ entry, (key, entry) ∈ s.entries := by
  rw [delete, contains, lookup_isSome_iff, List.mem_map]
  constructor
  · rintro ⟨⟨_, entry⟩, hmem, rfl⟩
    exact ⟨entry, hmem⟩
  · rintro ⟨entry, hmem⟩
    exact ⟨(key, entry), hmem, rfl⟩

/-- Ending a lease tells whether it was there, even if it had lapsed. -/
theorem expireLease_eq_true_iff :
    (s.expireLease lease).1 = true ↔ ∃ held, (lease, held) ∈ s.leases := by
  rw [expireLease, dropLease, lookup_isSome_iff, List.mem_map]
  constructor
  · rintro ⟨⟨_, held⟩, hmem, rfl⟩
    exact ⟨held, hmem⟩
  · rintro ⟨held, hmem⟩
    exact ⟨(lease, held), hmem, rfl⟩

/-- The keys that are shown are those of the entries left by a purge. -/
theorem mem_keys_iff {key : String} :
    key ∈ (s.keys now).1 ↔ ∃ entry, (key, entry) ∈ (s.purge now).entries := by
  rw [keys, List.mem_map]
  constructor
  · rintro ⟨⟨_, entry⟩, hmem, rfl⟩
    exact ⟨entry, hmem⟩
  · rintro ⟨entry, hmem⟩
    exact ⟨(key, entry), hmem, rfl⟩

/-- What a store reports of removals at a reading of the clock, after some things have happened. -/
structure Reports (xs : List Exchange) (s : MemoryStore) (now : Reading) : Prop where
  /-- A key that can be seen is reported. -/
  key_of_visible : ∀ key, key ∈ (s.keys now).1 → (s.delete key).1 = true
  /-- A key that is reported though it cannot be seen is one whose last write bound it to a lease
  that is overdue. -/
  hidden_key_iff : ∀ key, (s.delete key).1 = true ∧ key ∉ (s.keys now).1 ↔
    ∃ lease, Written xs key (some lease) ∧ Overdue xs lease now
  /-- A live lease is reported. -/
  lease_of_live : ∀ lease, s.Live lease now → (s.expireLease lease).1 = true
  /-- A lease that is reported though it is not live is one that is overdue. -/
  dead_lease_iff : ∀ lease,
    (s.expireLease lease).1 = true ∧ ¬ s.Live lease now ↔ Overdue xs lease now
  /-- Right after the keys have been looked at, the reports agree with what can be seen. -/
  key_after_keys : ∀ key, ((s.keys now).2.delete key).1 = true ↔ key ∈ (s.keys now).1
  lease_after_keys : ∀ lease, ((s.keys now).2.expireLease lease).1 = true ↔ s.Live lease now

/-- The leases that have lapsed and are still there are the overdue ones. -/
theorem Tracked.overdue_iff (h : Tracked xs s) :
    Overdue xs lease now ↔ ∃ held, (lease, held) ∈ s.leases ∧ held.deadline ≤ now := by
  constructor
  · rintro ⟨deadline, hdue, hle⟩
    obtain ⟨held, hmem, rfl⟩ := (h.lease_iff lease deadline).mpr hdue
    exact ⟨held, hmem, hle⟩
  · rintro ⟨held, hmem, hle⟩
    exact ⟨held.deadline, (h.lease_iff lease held.deadline).mp ⟨held, hmem, rfl⟩, hle⟩

/-- A lease that is there is live or overdue, and not both. -/
theorem Tracked.not_live_iff (h : Tracked xs s) {held : Lease} (hmem : (lease, held) ∈ s.leases) :
    ¬ s.Live lease now ↔ Overdue xs lease now := by
  have hdistinct := h.accounted.wellFormed.distinct
  rw [h.overdue_iff]
  constructor
  · intro hdead
    refine ⟨held, hmem, UInt64.not_lt.mp ?_⟩
    intro hlive
    exact hdead ⟨held, hmem, lapsed_eq_false_iff.mpr hlive⟩
  · rintro ⟨old, hold, hle⟩ ⟨alive, halive, hlive⟩
    rw [eq_of_mem_leases hdistinct hold halive] at hle
    exact UInt64.not_lt.mpr hle (lapsed_eq_false_iff.mp hlive)

/-- A key that is there is hidden if the lease to which it is bound is overdue. -/
theorem Tracked.hidden_key_iff (h : Tracked xs s) (key : String) :
    (s.delete key).1 = true ∧ key ∉ (s.keys now).1 ↔
      ∃ lease, Written xs key (some lease) ∧ Overdue xs lease now := by
  have hs := h.accounted.wellFormed
  rw [delete_eq_true_iff, mem_keys_iff]
  constructor
  · rintro ⟨⟨⟨value, bound⟩, hmem⟩, hhidden⟩
    cases bound with
    | none => exact absurd ⟨_, (mem_entries_purge hs).mpr ⟨hmem, nofun⟩⟩ hhidden
    | some lease =>
        obtain ⟨hwritten, hlease⟩ := (h.entry_iff key (some lease)).mp ⟨value, hmem⟩
        obtain ⟨⟨_, held⟩, hheld, rfl⟩ := List.mem_map.mp (hlease lease rfl)
        refine ⟨_, hwritten, (h.not_live_iff hheld).mp ?_⟩
        rintro ⟨alive, halive, hlive⟩
        refine hhidden ⟨_, mem_entries_purge_of_lease hs hmem ?_⟩
        rintro _ ⟨⟩
        exact List.mem_map.mpr ⟨(_, alive), (mem_leases_purge hs).mpr ⟨halive, hlive⟩, rfl⟩
  · rintro ⟨lease, hwritten, hoverdue⟩
    obtain ⟨held, hheld, _⟩ := h.overdue_iff.mp hoverdue
    obtain ⟨value, hmem⟩ := (h.entry_iff key (some lease)).mpr
      ⟨hwritten, fun _ heq => Option.some.inj heq ▸ List.mem_map_of_mem hheld⟩
    refine ⟨⟨_, hmem⟩, ?_⟩
    rintro ⟨entry, hvisible⟩
    obtain rfl := eq_of_mem_entries hs.ordered hmem (mem_entries_of_purge hs hvisible)
    exact (h.not_live_iff hheld).mpr hoverdue (live_of_mem_entries_purge hs hvisible rfl)

/-- A lease that is there is dead if it is overdue. -/
theorem Tracked.dead_lease_iff (h : Tracked xs s) (lease : LeaseId) :
    (s.expireLease lease).1 = true ∧ ¬ s.Live lease now ↔ Overdue xs lease now := by
  rw [expireLease_eq_true_iff]
  constructor
  · rintro ⟨⟨held, hmem⟩, hdead⟩
    exact (h.not_live_iff hmem).mp hdead
  · intro hoverdue
    obtain ⟨held, hmem, _⟩ := h.overdue_iff.mp hoverdue
    exact ⟨⟨held, hmem⟩, (h.not_live_iff hmem).mpr hoverdue⟩

/-- A store that is tracked reports removals as its history says. -/
theorem Tracked.reports (h : Tracked xs s) (now : Reading) : Reports xs s now where
  key_of_visible := by
    intro key hvisible
    obtain ⟨entry, hmem⟩ := mem_keys_iff.mp hvisible
    exact delete_eq_true_iff.mpr ⟨entry, mem_entries_of_purge h.accounted.wellFormed hmem⟩
  hidden_key_iff := h.hidden_key_iff
  lease_of_live := by
    rintro lease ⟨held, hmem, _⟩
    exact expireLease_eq_true_iff.mpr ⟨held, hmem⟩
  dead_lease_iff := h.dead_lease_iff
  key_after_keys := by
    intro key
    rw [delete_eq_true_iff, mem_keys_iff]
    rfl
  lease_after_keys := by
    intro lease
    rw [expireLease_eq_true_iff]
    exact exists_congr fun held => mem_leases_purge h.accounted.wellFormed

/-- Whatever a store was asked, and whatever the clock has shown meanwhile: a removal is reported
for everything that can be seen, and besides for what belongs to a lease whose deadline was reached
without anything having purged since. As long as there are lease numbers, nothing else is
reported. -/
theorem reports_after {cmds : List (Reading × Command)}
    (hgrants : (granted (history cmds)).length < 2 ^ 63 - 1) (now : Reading) :
    Reports (history cmds) (after cmds) now :=
  (tracked_after hgrants).reports now

/-- A lease of seven seconds, and a key bound to it. -/
def leased : List (Reading × Command) :=
  [(0, .grant 7), (0, .putLeased "/x" [118] ⟨1⟩)]

/-- The run in which one key is bound to a lease meets the condition: its key is overdue, and so
reported, three seconds after the deadline. -/
theorem reports_after_leased :
    Reports (history leased) (after leased) 10000000000 ∧
      ((after leased).delete "/x").1 = true ∧ ((after leased).expireLease ⟨1⟩).1 = true :=
  ⟨reports_after (by decide +kernel) _, by decide +kernel, by decide +kernel⟩

/-- A removal is reported of what nobody could see. Three seconds after the deadline of its lease,
the key is not among the keys, and the lease is neither counted nor live; the key is deleted and
the lease ended all the same, if that is what is asked first. -/
theorem removed_unseen :
    (leased.map (·.1)).Pairwise (· ≤ ·) ∧ (∀ x ∈ leased, x.1 ≤ 10000000000) ∧
      "/x" ∉ ((after leased).keys 10000000000).1 ∧ ((after leased).delete "/x").1 = true ∧
      ¬ (after leased).Live ⟨1⟩ 10000000000 ∧ ((after leased).expireLease ⟨1⟩).1 = true := by
  refine ⟨by decide, by decide, by decide +kernel, by decide +kernel, ?_, by decide +kernel⟩
  rintro ⟨held, hmem, hlive⟩
  have hleases : (after leased).leases = [(⟨1⟩, ⟨7, 7000000000⟩)] := by decide +kernel
  rw [hleases, List.mem_singleton] at hmem
  cases hmem
  exact absurd hlive (by decide)

end MemoryStore
end ServiceDiscovery
