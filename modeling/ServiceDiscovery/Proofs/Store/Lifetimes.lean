import ServiceDiscovery.Proofs.Store.Entries

/-!
# Lives of leases

What a command has done to the life of a lease can be read off its answer: whether
it was granted or renewed, or given back.

Main results:

- Definitions {lit}`Command.extended?`, {lit}`Command.granted?` and
  {lit}`Command.dropped?`: what answers tell about leases.
- Theorem {lit}`extended_cases`: a lease is what it was, unless the answer tells that
  its life was extended just now.
- Theorem {lit}`not_mem_leases_of_dropped`: a lease that was given back is gone.
-/

namespace ServiceDiscovery
namespace MemoryStore

variable {s : MemoryStore} {now : Reading} {lease : LeaseId} {held : Lease}

/-! ## Answers -/

/-- The lease that a command has granted or renewed, by its answer. -/
def Command.extended? : Command → Answer → Option LeaseId
  | .grant _, .granted (.ok lease) => some lease
  | .renew lease, .renewed (.ok (some _)) => some lease
  | .keepAlive _ _ lease, .opened (.ok _) => some lease
  | _, _ => none

/-- The lease that a command has granted, by its answer, and for how many seconds. -/
def Command.granted? : Command → Answer → Option (LeaseId × Int64)
  | .grant ttl, .granted (.ok lease) => some (lease, ttl)
  | _, _ => none

/-- The lease that a command has ended, by its answer. -/
def Command.dropped? : Command → Answer → Option LeaseId
  | .revoke lease, .outcome (.ok ()) => some lease
  | .expireLease lease, _ => some lease
  | _, _ => none

/-- A grant extends the life of its lease from the beginning. -/
theorem Command.extended?_of_granted? {c : Command} {answer : Answer} {ttl : Int64}
    (h : c.granted? answer = some (lease, ttl)) : c.extended? answer = some lease := by
  unfold Command.granted? at h
  split at h
  · cases h
    rfl
  · cases h

/-! ## Leases after a command -/

/-- A lease is what it was before; or the command, by its answer, has extended its life, and either
it was there before, with the same length, or it was granted for that long. -/
def ExtendedCases (now : Reading) (s : MemoryStore) (lease : LeaseId) (held : Lease)
    (extended : Option LeaseId) (granted : Option (LeaseId × Int64)) : Prop :=
  (lease, held) ∈ s.leases ∧ extended ≠ some lease ∨
    extended = some lease ∧ held = Lease.granted held.ttl now ∧
      ((∃ old, (lease, old) ∈ s.leases ∧ old.ttl = held.ttl) ∧ granted = none ∨
        granted = some (lease, held.ttl))

/-- The same of a renewal, in whatever form its result is answered. -/
theorem extendedCases_renew (hs : s.WellFormed) {other : LeaseId}
    (extended : Except Failure (Option Int64) → Option LeaseId)
    (herror : ∀ failure, extended (.error failure) = none) (hgone : extended (.ok none) = none)
    (hrenewed : ∀ ttl, extended (.ok (some ttl)) = some other)
    (hmem : (lease, held) ∈ (s.renew now other).2.leases) :
    ExtendedCases now s lease held (extended (s.renew now other).1) none := by
  cases hfault : s.faults.contains .keepAlive with
  | true =>
      rw [renew_of_fault now hfault] at hmem ⊢
      rw [herror]
      exact Or.inl ⟨hmem, nofun⟩
  | false =>
      cases hother : (s.purge now).leases.lookup other with
      | none =>
          rw [renew_of_none hfault hother] at hmem ⊢
          rw [hgone]
          exact Or.inl ⟨((mem_leases_purge hs).mp hmem).1, nofun⟩
      | some l =>
          rw [renew_of_some hfault hother] at hmem ⊢
          rw [hrenewed]
          obtain ⟨⟨id, m⟩, hm, heq⟩ := List.mem_map.mp hmem
          have hm := ((mem_leases_purge hs).mp hm).1
          by_cases hid : id = other
          · rw [renewed, if_pos hid] at heq
            obtain ⟨rfl, rfl⟩ := Prod.mk.inj heq
            rw [ExtendedCases, Lease.granted_ttl]
            exact Or.inr ⟨congrArg some hid.symm, rfl, Or.inl ⟨⟨m, hm, rfl⟩, rfl⟩⟩
          · rw [renewed, if_neg hid] at heq
            obtain ⟨rfl, rfl⟩ := Prod.mk.inj heq
            exact Or.inl ⟨hm, fun heq => hid (Option.some.inj heq).symm⟩

/-- A lease is what it was, unless the answer tells that its life was extended just now. -/
theorem extended_cases (hs : s.WellFormed) {c : Command}
    (hmem : (lease, held) ∈ (c.run now s).2.leases) :
    ExtendedCases now s lease held (c.extended? (c.run now s).1) (c.granted? (c.run now s).1) := by
  have hold (hrenewed : c.renewed? = none) (hgrant : ∀ ttl, c ≠ .grant ttl) :
      (lease, held) ∈ s.leases := by
    rcases mem_leases_run hs hmem with hold | ⟨hrenews, _⟩ | ⟨_, ttl, hc, _⟩
    · exact hold
    · rw [hrenewed] at hrenews
      cases hrenews
    · exact absurd hc (hgrant ttl)
  cases c with
  | grant ttl =>
      simp only [Command.run, grant, guarded] at hmem ⊢
      split at hmem
      · rename_i hfault
        rw [if_pos hfault]
        exact Or.inl ⟨hmem, by simp [Command.extended?]⟩
      · rename_i hfault
        rw [if_neg hfault]
        split at hmem
        · rename_i httl
          rw [if_pos httl]
          exact Or.inl ⟨hmem, by simp [Command.extended?]⟩
        · rename_i httl
          rw [if_neg httl]
          rcases List.mem_append.mp hmem with hmem | hmem
          · refine Or.inl ⟨hmem, ?_⟩
            intro heq
            cases heq
            exact absurd (hs.numbered _ hmem).2 (Int.lt_irrefl _)
          · obtain ⟨rfl, rfl⟩ := Prod.mk.inj (List.mem_singleton.mp hmem)
            refine Or.inr ⟨rfl, ?_, Or.inr ?_⟩
            · rw [Lease.granted_ttl]
            · rw [Lease.granted_ttl]
              rfl
  | renew other =>
      exact extendedCases_renew hs (fun r => Command.extended? (.renew other) (.renewed r))
        (fun _ => rfl) rfl (fun _ => rfl) hmem
  | keepAlive time period other =>
      exact extendedCases_renew hs (fun r => Command.extended? (.keepAlive time period other)
        (.opened (AckStream.opening time period other r))) (fun _ => rfl) rfl (fun _ => rfl) hmem
  | put | delete | putLeased | revoke | expireLease | injectFault | clearFaults | scan | keys
  | leaseOf | leaseCount =>
      left
      refine ⟨hold rfl ?_, ?_⟩
      · intro ttl h
        cases h
      · intro h
        cases h

/-- A lease that was given back is gone. -/
theorem not_mem_leases_of_dropped {c : Command}
    (h : c.dropped? (c.run now s).1 = some lease) :
    lease ∉ (c.run now s).2.leases.map (·.1) := by
  cases c with
  | revoke other =>
      simp only [Command.run, revoke, guarded] at h ⊢
      split at h
      · cases h
      · rename_i hfault
        rw [if_neg hfault]
        cases h
        exact not_mem_leases_dropLease s lease
  | expireLease other =>
      cases h
      exact not_mem_leases_dropLease s lease
  | put | delete | putLeased | grant | renew | keepAlive | injectFault | clearFaults | scan | keys
  | leaseOf | leaseCount => cases h

/-- A release that does not end its lease has failed, and changes nothing. -/
theorem revoke_of_not_dropped
    (h : (Command.revoke lease).dropped? ((Command.revoke lease).run now s).1 ≠ some lease) :
    ((Command.revoke lease).run now s).2 = s := by
  simp only [Command.run, revoke, guarded] at h ⊢
  split
  · rfl
  · rename_i hfault
    rw [if_neg hfault] at h
    exact absurd rfl h

/-- Which lease a command ends depends on the command, and on whether releases fail. -/
theorem dropped?_congr {s t : MemoryStore}
    (hrevokes : Operation.revoke ∈ s.faults ↔ Operation.revoke ∈ t.faults) (c : Command)
    (now later : Reading) :
    c.dropped? (c.run now s).1 = c.dropped? (c.run later t).1 := by
  cases c with
  | revoke lease =>
      simp only [Command.run, revoke, guarded, List.contains_iff_mem, hrevokes]
      split <;> rfl
  | expireLease lease => rfl
  | put | delete | putLeased | grant | renew | keepAlive | injectFault | clearFaults | scan | keys
  | leaseOf | leaseCount => rfl

/-! ## Leases that bind entries -/

/-- Whatever a purge leaves is bound to a lease that has not lapsed, if it is bound to one. -/
theorem live_of_mem_entries_purge (hs : s.WellFormed) {e : String × Entry}
    (he : e ∈ (s.purge now).entries) (hlease : e.2.lease = some lease) :
    ∃ held, (lease, held) ∈ s.leases ∧ held.lapsed now = false := by
  obtain ⟨⟨_, held⟩, hmem, rfl⟩ := List.mem_map.mp ((hs.purge now).bound e he lease hlease)
  exact ⟨held, (mem_leases_purge hs).mp hmem⟩

/-- Only a lease that has not lapsed can be bound to a key. -/
theorem live_of_written (hs : s.WellFormed) {c : Command} {key : String}
    (h : c.written? (c.run now s).1 = some (key, some lease)) :
    ∃ held, (lease, held) ∈ s.leases ∧ held.lapsed now = false := by
  cases c with
  | putLeased other value bound =>
      simp only [Command.run, putLeased, guarded] at h
      split at h
      · cases h
      · split at h
        · rename_i hbound
          cases h
          obtain ⟨⟨_, held⟩, hmem, rfl⟩ := List.mem_map.mp (lookup_isSome_iff.mp hbound)
          exact ⟨held, (mem_leases_purge hs).mp hmem⟩
        · cases h
  | put | delete | revoke | expireLease | grant | renew | keepAlive | injectFault | clearFaults
  | scan | keys | leaseOf | leaseCount => cases h

end MemoryStore
end ServiceDiscovery
