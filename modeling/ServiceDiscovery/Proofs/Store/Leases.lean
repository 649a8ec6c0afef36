import ServiceDiscovery.Proofs.Store.Commands

/-!
# What becomes of a lease

Commands to a store seen from one of its leases: which of them can end it, which
can put its deadline off, and where a lease that is there has come from.

Main results:

- Theorem {lit}`kept_run`: a lease that has not lapsed outlives every command
  that does not drop it by name.
- Theorem {lit}`mem_leases_run`: a lease was there before, with the same deadline
  unless it was renewed, or it was granted just now under a new number.
- Theorems {lit}`Dated.run` and {lit}`GoneBy.run`: no deadline is further away than
  its lease is long, and without a renewal it stays where it is.
-/

namespace ServiceDiscovery
namespace MemoryStore

variable {s : MemoryStore} {now : Reading} {lease : LeaseId} {held : Lease}

/-! ## Purging and renewing -/

theorem mem_leases_dropLapsed {l : LeaseId × Lease} :
    l ∈ (s.dropLapsed now).leases ↔ l ∈ s.leases ∧ l.2.lapsed now = false := by
  rw [dropLapsed, List.mem_filter, Bool.not_eq_true']

/-- A purge leaves the leases whose deadline has not passed. -/
theorem mem_leases_purge (h : s.WellFormed) {l : LeaseId × Lease} :
    l ∈ (s.purge now).leases ↔ l ∈ s.leases ∧ l.2.lapsed now = false := by
  rw [purge_eq_dropLapsed h, mem_leases_dropLapsed]

/-- A lease that has not lapsed is found. -/
theorem lookup_purge (h : s.WellFormed) (hmem : (lease, held) ∈ s.leases)
    (hlive : held.lapsed now = false) : (s.purge now).leases.lookup lease = some held := by
  rw [lookup_eq_some_iff (h.purge now).distinct, mem_leases_purge h]
  exact ⟨hmem, hlive⟩

/-- A renewal puts the deadline of its lease off, and leaves the other leases alone. -/
theorem mem_leases_renew (h : s.WellFormed) {l : LeaseId × Lease} :
    l ∈ (s.renew now lease).2.leases → l ∈ s.leases ∨
      ∃ old, (lease, old) ∈ s.leases ∧ l = (lease, Lease.granted old.ttl now) := by
  intro hl
  cases hfault : s.faults.contains .keepAlive with
  | true =>
      rw [renew_of_fault now hfault] at hl
      exact Or.inl hl
  | false =>
      cases hlease : (s.purge now).leases.lookup lease with
      | none =>
          rw [renew_of_none hfault hlease] at hl
          exact Or.inl ((mem_leases_purge h).mp hl).1
      | some held =>
          rw [renew_of_some hfault hlease] at hl
          obtain ⟨m, hm, rfl⟩ := List.mem_map.mp hl
          have hm := ((mem_leases_purge h).mp hm).1
          by_cases heq : m.1 = lease
          · subst heq
            exact Or.inr ⟨m.2, hm, if_pos rfl⟩
          · rw [renewed, if_neg heq]
            exact Or.inl hm

/-- A live lease survives any renewal, as it is or with a new deadline. -/
theorem kept_renew (h : s.WellFormed) (hmem : (lease, held) ∈ s.leases)
    (hlive : held.lapsed now = false) (other : LeaseId) :
    (lease, held) ∈ (s.renew now other).2.leases ∨
      (lease, Lease.granted held.ttl now) ∈ (s.renew now other).2.leases := by
  have hpurge : (lease, held) ∈ (s.purge now).leases := (mem_leases_purge h).mpr ⟨hmem, hlive⟩
  cases hfault : s.faults.contains .keepAlive with
  | true =>
      rw [renew_of_fault now hfault]
      exact Or.inl hmem
  | false =>
      cases hother : (s.purge now).leases.lookup other with
      | none =>
          rw [renew_of_none hfault hother]
          exact Or.inl hpurge
      | some l =>
          rw [renew_of_some hfault hother]
          by_cases heq : lease = other
          · refine Or.inr (List.mem_map.mpr ⟨(lease, held), hpurge, ?_⟩)
            rw [renewed, if_pos heq]
          · refine Or.inl (List.mem_map.mpr ⟨(lease, held), hpurge, ?_⟩)
            rw [renewed, if_neg heq]

/-! ## Every command -/

/-- A lease that has not lapsed outlives every command that does not drop it by name, with the
deadline that it had or with a later one. -/
theorem kept_run (h : s.WellFormed) {c : Command} (hmem : (lease, held) ∈ s.leases)
    (hlive : held.lapsed now = false) (hrevoke : c ≠ .revoke lease)
    (hexpire : c ≠ .expireLease lease) :
    (lease, held) ∈ (c.run now s).2.leases ∨
      (lease, Lease.granted held.ttl now) ∈ (c.run now s).2.leases := by
  have hpurge : (lease, held) ∈ (s.purge now).leases := (mem_leases_purge h).mpr ⟨hmem, hlive⟩
  have hdrop {other : LeaseId} (hne : other ≠ lease) :
      (lease, held) ∈ (s.dropLease other).2.leases := by
    refine List.mem_filter.mpr ⟨hmem, ?_⟩
    simpa using hne.symm
  cases c with
  | put | delete | clearFaults => exact Or.inl hmem
  | putLeased key value other =>
      left
      simp only [Command.run, putLeased, guarded]
      split
      · exact hmem
      · split
        · exact hpurge
        · exact hpurge
  | grant ttl =>
      left
      simp only [Command.run, grant, guarded]
      split
      · exact hmem
      · split
        · exact hmem
        · exact List.mem_append_left _ hmem
  | renew other => exact kept_renew h hmem hlive other
  | keepAlive time period other => exact kept_renew h hmem hlive other
  | revoke other =>
      left
      have hne : other ≠ lease := by
        rintro rfl
        exact hrevoke rfl
      simp only [Command.run, revoke, guarded]
      split
      · exact hmem
      · exact hdrop hne
  | expireLease other =>
      left
      have hne : other ≠ lease := by
        rintro rfl
        exact hexpire rfl
      exact hdrop hne
  | injectFault op =>
      left
      simp only [Command.run, injectFault]
      split <;> exact hmem
  | scan start =>
      left
      simp only [Command.run, scan, guarded]
      split
      · exact hmem
      · exact hpurge
  | keys => exact Or.inl hpurge
  | leaseOf key => exact Or.inl hpurge
  | leaseCount => exact Or.inl hpurge

/-- The lease that a command renews, if there is one. -/
def Command.renewed? : Command → Option LeaseId
  | .renew lease | .keepAlive _ _ lease => some lease
  | _ => none

/-- A lease was there before, and if its deadline is another one it was renewed; otherwise it was
granted just now. -/
theorem mem_leases_run (h : s.WellFormed) {c : Command}
    (hmem : (lease, held) ∈ (c.run now s).2.leases) :
    (lease, held) ∈ s.leases ∨
      (c.renewed? = some lease ∧
        ∃ old, (lease, old) ∈ s.leases ∧ held = Lease.granted old.ttl now) ∨
      lease = ⟨s.nextLease⟩ ∧ ∃ ttl, c = .grant ttl ∧ held = Lease.granted ttl now := by
  have hrenew {other : LeaseId} (hmem : (lease, held) ∈ (s.renew now other).2.leases) :
      (lease, held) ∈ s.leases ∨
        some other = some lease ∧
          ∃ old, (lease, old) ∈ s.leases ∧ held = Lease.granted old.ttl now := by
    rcases mem_leases_renew h hmem with hold | ⟨old, hold, heq⟩
    · exact Or.inl hold
    · obtain ⟨rfl, rfl⟩ := Prod.mk.inj heq
      exact Or.inr ⟨rfl, old, hold, rfl⟩
  have hpurge (hmem : (lease, held) ∈ (s.purge now).leases) : (lease, held) ∈ s.leases :=
    ((mem_leases_purge h).mp hmem).1
  cases c with
  | put | delete | clearFaults => exact Or.inl hmem
  | putLeased key value other =>
      left
      simp only [Command.run, putLeased, guarded] at hmem
      split at hmem
      · exact hmem
      · split at hmem
        · exact hpurge hmem
        · exact hpurge hmem
  | grant ttl =>
      simp only [Command.run, grant, guarded] at hmem
      split at hmem
      · exact Or.inl hmem
      · split at hmem
        · exact Or.inl hmem
        · rcases List.mem_append.mp hmem with hmem | hmem
          · exact Or.inl hmem
          · obtain ⟨rfl, rfl⟩ := Prod.mk.inj (List.mem_singleton.mp hmem)
            exact Or.inr (Or.inr ⟨rfl, ttl, rfl, rfl⟩)
  | renew other => exact (hrenew hmem).imp_right Or.inl
  | keepAlive time period other => exact (hrenew hmem).imp_right Or.inl
  | revoke other =>
      left
      simp only [Command.run, revoke, guarded] at hmem
      split at hmem
      · exact hmem
      · exact (List.mem_filter.mp hmem).1
  | expireLease other => exact Or.inl (List.mem_filter.mp hmem).1
  | injectFault op =>
      left
      simp only [Command.run, injectFault] at hmem
      split at hmem <;> exact hmem
  | scan start =>
      left
      simp only [Command.run, scan, guarded] at hmem
      split at hmem
      · exact hmem
      · exact hpurge hmem
  | keys => exact Or.inl (hpurge hmem)
  | leaseOf key => exact Or.inl (hpurge hmem)
  | leaseCount => exact Or.inl (hpurge hmem)

/-! ## Deadlines -/

/-- The deadline of a lease is no further away than the lease is long. -/
theorem granted_deadline_le (ttl : Int64) (now : Reading) :
    (Lease.granted ttl now).deadline.toNat ≤
      now.toNat + (Lease.span (Lease.granted ttl now).ttl).toNat := by
  rw [Lease.granted_ttl, Lease.granted, UInt64.toNat_add]
  exact Nat.mod_le _ _

/-- A lease is as long as it was granted, and its deadline is no further away. -/
def Dated (now : Reading) (lease : LeaseId) (ttl : Int64) (s : MemoryStore) : Prop :=
  ∀ held, (lease, held) ∈ s.leases →
    held.ttl = ttl ∧ held.deadline.toNat ≤ now.toNat + (Lease.span ttl).toNat

/-- The deadline of a lease comes no further away as time goes on. -/
theorem Dated.later {ttl : Int64} {later : Reading} (h : s.Dated now lease ttl)
    (hle : now ≤ later) : s.Dated later lease ttl := by
  intro held hmem
  obtain ⟨httl, hdeadline⟩ := h held hmem
  have := UInt64.le_iff_toNat_le.mp hle
  exact ⟨httl, by omega⟩

/-- A lease that was granted before keeps its length, however often it is renewed. -/
theorem Dated.run (hs : s.WellFormed) {ttl : Int64} (h : s.Dated now lease ttl)
    (hnumber : lease.id.toInt < s.nextLease.toInt) (c : Command) :
    (c.run now s).2.Dated now lease ttl := by
  intro held hmem
  rcases mem_leases_run hs hmem with hold | ⟨_, old, hold, rfl⟩ | ⟨rfl, _⟩
  · exact h held hold
  · obtain ⟨rfl, _⟩ := h old hold
    have hdeadline := granted_deadline_le old.ttl now
    rw [Lease.granted_ttl] at hdeadline
    exact ⟨Lease.granted_ttl old.ttl now, hdeadline⟩
  · exact absurd hnumber (Int.lt_irrefl _)

/-- A lease is gone at some reading, if it is there at all. -/
def GoneBy (limit : Nat) (lease : LeaseId) (s : MemoryStore) : Prop :=
  ∀ held, (lease, held) ∈ s.leases → held.deadline.toNat ≤ limit

/-- Without a renewal a lease is gone when it was to be gone before. -/
theorem GoneBy.run (hs : s.WellFormed) {limit : Nat} (h : s.GoneBy limit lease)
    (hnumber : lease.id.toInt < s.nextLease.toInt) {c : Command} (hc : c.renewed? ≠ some lease) :
    (c.run now s).2.GoneBy limit lease := by
  intro held hmem
  rcases mem_leases_run hs hmem with hold | ⟨hrenews, _⟩ | ⟨rfl, _⟩
  · exact h held hold
  · exact absurd hrenews hc
  · exact absurd hnumber (Int.lt_irrefl _)

/-- A lease that is gone does not come back. -/
theorem not_mem_leases_run (hs : s.WellFormed) (h : lease ∉ s.leases.map (·.1))
    (hnumber : lease.id.toInt < s.nextLease.toInt) (c : Command) :
    lease ∉ (c.run now s).2.leases.map (·.1) := by
  intro hmem
  obtain ⟨⟨lease, held⟩, hafter, rfl⟩ := List.mem_map.mp hmem
  have hgone {old : Lease} (hold : (lease, old) ∈ s.leases) : False :=
    h (List.mem_map.mpr ⟨(lease, old), hold, rfl⟩)
  rcases mem_leases_run hs hafter with hold | ⟨_, old, hold, _⟩ | ⟨rfl, _⟩
  · exact hgone hold
  · exact hgone hold
  · exact absurd hnumber (Int.lt_irrefl _)

/-! ## Lease numbers -/

/-- A number that was used up stays used up, as long as the numbers last. -/
theorem number_run {c : Command} (hnumbers : 1 ≤ (c.run now s).2.nextLease.toInt)
    (h : lease.id.toInt < s.nextLease.toInt) :
    lease.id.toInt < (c.run now s).2.nextLease.toInt := by
  rcases nextLease_run c now s with hnext | ⟨_, hnext⟩
  · rw [hnext]
    exact h
  · rw [hnext] at hnumbers ⊢
    rw [toInt_add_one hnumbers]
    omega

/-- A grant that succeeds hands the next number out. -/
theorem grant_ok {ttl : Int64} (h : (s.grant now ttl).1 = .ok lease) :
    lease = ⟨s.nextLease⟩ ∧ (s.grant now ttl).2.nextLease = s.nextLease + 1 := by
  unfold grant guarded at h ⊢
  split at h
  · cases h
  · rename_i hfault
    rw [if_neg hfault]
    split at h
    · cases h
    · rename_i httl
      rw [if_neg httl]
      exact ⟨(Except.ok.inj h).symm, rfl⟩

/-- The number of a lease that was granted is used up. -/
theorem number_of_grant {ttl : Int64} (h : (s.grant now ttl).1 = .ok lease)
    (hnumbers : 1 ≤ (s.grant now ttl).2.nextLease.toInt) :
    lease.id.toInt < (s.grant now ttl).2.nextLease.toInt := by
  obtain ⟨rfl, hnext⟩ := grant_ok h
  rw [hnext] at hnumbers ⊢
  rw [toInt_add_one hnumbers]
  exact Int.lt_succ _

/-- A lease is as long as it was just granted. -/
theorem dated_of_grant (hs : s.WellFormed) {ttl : Int64} (h : (s.grant now ttl).1 = .ok lease) :
    (s.grant now ttl).2.Dated now lease ttl := by
  intro held hmem
  obtain ⟨rfl, _⟩ := grant_ok h
  rcases mem_leases_run (c := .grant ttl) hs hmem with hold | ⟨hrenews, _⟩ | ⟨_, ttl', heq, rfl⟩
  · exact absurd (hs.numbered _ hold).2 (Int.lt_irrefl _)
  · cases hrenews
  · obtain rfl := Command.grant.inj heq
    have hdeadline := granted_deadline_le ttl now
    rw [Lease.granted_ttl] at hdeadline
    exact ⟨Lease.granted_ttl ttl now, hdeadline⟩

/-- A lease that was dropped is not there any more. -/
theorem not_mem_leases_dropLease (s : MemoryStore) (lease : LeaseId) :
    lease ∉ (s.dropLease lease).2.leases.map (·.1) := by
  intro hmem
  obtain ⟨l, hl, heq⟩ := List.mem_map.mp hmem
  exact of_decide_eq_true (List.mem_filter.mp hl).2 heq

/-- A lease that is given back is gone, unless releases are made to fail. -/
theorem not_mem_leases_revoke (h : Operation.revoke ∉ s.faults) :
    lease ∉ (s.revoke lease).2.leases.map (·.1) := by
  have hfault : ¬ s.faults.contains .revoke = true := by
    rw [List.contains_iff_mem]
    exact h
  rw [revoke, guarded, if_neg hfault]
  exact not_mem_leases_dropLease s lease

end MemoryStore
end ServiceDiscovery
