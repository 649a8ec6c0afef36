import Mathlib.Algebra.Group.Int.Defs
import Mathlib.Algebra.Group.Nat.Defs
import ServiceDiscovery.AckStream
import ServiceDiscovery.Proofs.Store.WellFormed

/-!
# Commands to a store

Whatever anybody can do to a store in memory, as data, so that a run of a store
is a list of commands with the readings of the clock at which they are given.

Main results:

- Definition {lit}`Command.run`: a command's answer, and the store after it.
- Theorem {lit}`WellFormed.run`: every command leaves a well-formed store
  well-formed, unless lease numbers have run out.
-/

namespace ServiceDiscovery
namespace MemoryStore

/-! ## Commands and answers -/

/-- Something done to a store. -/
inductive Command where
  | put (key : String) (value : Bytes)
  | delete (key : String)
  | putLeased (key : String) (value : Bytes) (lease : LeaseId)
  | grant (ttl : Int64)
  | renew (lease : LeaseId)
  /-- Opens a stream of renewals, at some millisecond and with some period. -/
  | keepAlive (time : Nat) (period : Option Duration) (lease : LeaseId)
  | revoke (lease : LeaseId)
  | expireLease (lease : LeaseId)
  | injectFault (op : Operation)
  | clearFaults
  | scan (start : String)
  | keys
  | leaseOf (key : String)
  | leaseCount

/-- What a command answers. -/
inductive Answer where
  | done
  /-- Whether there was something to remove. -/
  | removed (there : Bool)
  | outcome (result : Except Failure Unit)
  | granted (result : Except Failure LeaseId)
  | renewed (result : Except Failure (Option Int64))
  | opened (result : Except Failure AckStream)
  | found (result : Except Failure Entries)
  | keys (keys : List String)
  | lease (lease : Option LeaseId)
  | count (leases : Nat)

/-- The answer is a failure. -/
def Answer.IsFailure : Answer → Prop
  | .outcome (.error _) | .granted (.error _) | .renewed (.error _) | .opened (.error _)
  | .found (.error _) => True
  | _ => False

/-- The answer to a command at a reading of the clock, and the store after it. -/
def Command.run (c : Command) (now : Reading) (s : MemoryStore) : Answer × MemoryStore :=
  match c with
  | .put key value => (.done, s.put key value)
  | .delete key => Prod.map .removed id (s.delete key)
  | .putLeased key value lease => Prod.map .outcome id (s.putLeased now key value lease)
  | .grant ttl => Prod.map .granted id (s.grant now ttl)
  | .renew lease => Prod.map .renewed id (s.renew now lease)
  | .keepAlive time period lease =>
    Prod.map (fun renewal => .opened (AckStream.opening time period lease renewal)) id
      (s.renew now lease)
  | .revoke lease => Prod.map .outcome id (s.revoke lease)
  | .expireLease lease => Prod.map .removed id (s.expireLease lease)
  | .injectFault op => (.done, s.injectFault op)
  | .clearFaults => (.done, s.clearFaults)
  | .scan start => Prod.map .found id (s.scan now start)
  | .keys => Prod.map .keys id (s.keys now)
  | .leaseOf key => Prod.map .lease id (s.leaseOf now key)
  | .leaseCount => Prod.map .count id (s.leaseCount now)

/-! ## Lease numbers -/

/-- Only a grant uses a lease number up, and it uses one. -/
theorem nextLease_grant (s : MemoryStore) (now : Reading) (ttl : Int64) :
    (s.grant now ttl).2.nextLease = s.nextLease ∨
      (s.grant now ttl).2.nextLease = s.nextLease + 1 := by
  unfold grant guarded
  split
  · exact Or.inl rfl
  · split
    · exact Or.inl rfl
    · exact Or.inr rfl

/-- A purge counts no lease numbers. -/
theorem nextLease_purge (s : MemoryStore) (now : Reading) :
    (s.purge now).nextLease = s.nextLease := by
  rw [purge, foldl_dropLease]

/-- A purge makes no difference to what fails. -/
theorem faults_purge (s : MemoryStore) (now : Reading) : (s.purge now).faults = s.faults := by
  rw [purge, foldl_dropLease]

/-- A renewal counts no lease numbers. -/
theorem nextLease_renew (s : MemoryStore) (now : Reading) (lease : LeaseId) :
    (s.renew now lease).2.nextLease = s.nextLease := by
  unfold renew guarded
  split
  · rfl
  · dsimp only
    split
    · exact nextLease_purge s now
    · exact nextLease_purge s now

/-- The command grants leases. -/
def Command.isGrant : Command → Bool
  | .grant _ => true
  | _ => false

/-- Only a grant uses a lease number up, and it uses one. -/
theorem nextLease_run (c : Command) (now : Reading) (s : MemoryStore) :
    (c.run now s).2.nextLease = s.nextLease ∨
      c.isGrant = true ∧ (c.run now s).2.nextLease = s.nextLease + 1 := by
  cases c with
  | grant ttl =>
      rcases nextLease_grant s now ttl with h | h
      · exact Or.inl h
      · exact Or.inr ⟨rfl, h⟩
  | putLeased key value lease =>
      left
      simp only [Command.run, MemoryStore.putLeased, guarded]
      split
      · rfl
      · split
        · exact nextLease_purge s now
        · exact nextLease_purge s now
  | renew lease => exact Or.inl (nextLease_renew s now lease)
  | keepAlive time period lease => exact Or.inl (nextLease_renew s now lease)
  | revoke lease =>
      left
      simp only [Command.run, MemoryStore.revoke, guarded]
      split <;> rfl
  | injectFault op =>
      left
      simp only [Command.run, MemoryStore.injectFault]
      split <;> rfl
  | scan start =>
      left
      simp only [Command.run, MemoryStore.scan, guarded]
      split
      · rfl
      · exact nextLease_purge s now
  | keys => exact Or.inl (nextLease_purge s now)
  | leaseOf key => exact Or.inl (nextLease_purge s now)
  | leaseCount => exact Or.inl (nextLease_purge s now)
  | put | delete | expireLease | clearFaults => exact Or.inl rfl

/-! ## Faults -/

theorem faults_renew (s : MemoryStore) (now : Reading) (lease : LeaseId) :
    (s.renew now lease).2.faults = s.faults := by
  unfold renew guarded
  split
  · rfl
  · dsimp only
    split
    · exact faults_purge s now
    · exact faults_purge s now

/-- What fails is the same after a command, unless faults are what the command is about. -/
theorem faults_run {c : Command} (hinject : ∀ op, c ≠ .injectFault op) (hclear : c ≠ .clearFaults)
    (now : Reading) (s : MemoryStore) : (c.run now s).2.faults = s.faults := by
  have hpurge : (s.purge now).faults = s.faults := faults_purge s now
  cases c with
  | put | delete | expireLease => rfl
  | putLeased key value lease =>
      simp only [Command.run, MemoryStore.putLeased, guarded]
      split
      · rfl
      · split <;> exact hpurge
  | grant ttl =>
      simp only [Command.run, MemoryStore.grant, guarded]
      split
      · rfl
      · split <;> rfl
  | renew lease => exact faults_renew s now lease
  | keepAlive time period lease => exact faults_renew s now lease
  | revoke lease =>
      simp only [Command.run, MemoryStore.revoke, guarded]
      split <;> rfl
  | injectFault op => exact absurd rfl (hinject op)
  | clearFaults => exact absurd rfl hclear
  | scan start =>
      simp only [Command.run, MemoryStore.scan, guarded]
      split
      · rfl
      · exact hpurge
  | keys => exact hpurge
  | leaseOf key => exact hpurge
  | leaseCount => exact hpurge

/-- What fails after a fault is injected is that operation and whatever failed before. -/
theorem mem_faults_injectFault {s : MemoryStore} {op other : Operation} :
    op ∈ (s.injectFault other).faults ↔ other = op ∨ op ∈ s.faults := by
  unfold injectFault
  split
  · rename_i hthere
    rw [List.contains_iff_mem] at hthere
    constructor
    · exact Or.inr
    · rintro (rfl | hop)
      · exact hthere
      · exact hop
  · rw [List.mem_cons, eq_comm]

/-- An operation fails after a command if it was made to fail, by this command or before. -/
theorem mem_faults_run_iff {c : Command} {now : Reading} {s : MemoryStore} {op : Operation} :
    op ∈ (c.run now s).2.faults ↔ c = .injectFault op ∨ op ∈ s.faults ∧ c ≠ .clearFaults := by
  by_cases hclear : c = .clearFaults
  · subst hclear
    constructor
    · exact nofun
    · rintro (h | ⟨_, h⟩)
      · cases h
      · exact absurd rfl h
  · by_cases hinject : ∃ other, c = .injectFault other
    · obtain ⟨other, rfl⟩ := hinject
      rw [Command.injectFault.injEq, and_iff_left hclear]
      exact mem_faults_injectFault
    · have hother : ∀ other, c ≠ .injectFault other := fun other h => hinject ⟨other, h⟩
      rw [faults_run hother hclear, and_iff_left hclear]
      exact (or_iff_right (hother op)).symm

/-- Only an injected fault makes an operation fail from then on. -/
theorem mem_faults_run {c : Command} {now : Reading} {s : MemoryStore} {op : Operation}
    (h : op ∈ (c.run now s).2.faults) : op ∈ s.faults ∨ c = .injectFault op :=
  (mem_faults_run_iff.mp h).symm.imp_left And.left

/-! ## The invariant -/

/-- A write without a lease keeps a store well-formed. -/
theorem WellFormed.put {s : MemoryStore} (h : s.WellFormed) (key : String) (value : Bytes) :
    (s.put key value).WellFormed where
  ordered := h.ordered.insertEntry _ _
  distinct := h.distinct
  bound := by
    intro e he lease hlease
    rcases (mem_insertEntry h.ordered).mp he with rfl | ⟨he, _⟩
    · simp at hlease
    · exact h.bound e he lease hlease
  numbered := h.numbered
  lasting := h.lasting
  counting := h.counting

theorem WellFormed.delete {s : MemoryStore} (h : s.WellFormed) (key : String) :
    (s.delete key).2.WellFormed := by
  have hall : s.leases.filter (fun _ => true) = s.leases := List.filter_eq_self.mpr (by simp)
  have := h.restrict (fun e => e.1 ≠ key) (fun _ => true) (by simp)
  rw [hall] at this
  exact this

/-- Dropping a lease keeps a store well-formed: the entries bound to it go with it. -/
theorem WellFormed.dropLease {s : MemoryStore} (h : s.WellFormed) (lease : LeaseId) :
    (s.dropLease lease).2.WellFormed := by
  refine h.restrict _ _ ?_
  intro e _ hp l _ hlease
  simp only [decide_not, Bool.not_eq_true', decide_eq_false_iff_not] at hp ⊢
  rintro rfl
  exact hp hlease

/-- A write under a lease keeps a store well-formed: it is carried out only if the lease is
there. -/
theorem WellFormed.putLeased {s : MemoryStore} (h : s.WellFormed) (now : Reading) (key : String)
    (value : Bytes) (lease : LeaseId) : (s.putLeased now key value lease).2.WellFormed := by
  have hp := h.purge now
  unfold MemoryStore.putLeased guarded
  split
  · exact h
  · dsimp only
    split
    · rename_i hlease
      refine ⟨hp.ordered.insertEntry _ _, hp.distinct, ?_, hp.numbered, hp.lasting, hp.counting⟩
      intro e he id hid
      rcases (mem_insertEntry hp.ordered).mp he with rfl | ⟨he, _⟩
      · cases hid
        exact lookup_isSome_iff.mp hlease
      · exact hp.bound e he id hid
    · exact hp

/-- Below the greatest number, the next one is greater by one. -/
theorem toInt_succ {n : Int64} (hroom : n.toInt + 1 < 2 ^ 63) :
    (n + 1).toInt = n.toInt + 1 := by
  have hleast := n.le_toInt
  rw [Int64.toInt_add, Int64.toInt_one]
  exact Int.bmod_eq_of_le (by omega) (by omega)

/-- Numbers have not wrapped around as long as the next one is positive. -/
theorem toInt_add_one {n : Int64} (hnext : 1 ≤ (n + 1).toInt) :
    (n + 1).toInt = n.toInt + 1 := by
  by_cases hroom : n.toInt + 1 < 2 ^ 63
  · exact toInt_succ hroom
  · have hlt := n.toInt_lt
    have hmax : n.toInt + 1 = 2 ^ 63 := by omega
    rw [Int64.toInt_add, Int64.toInt_one, hmax] at hnext
    exact absurd hnext (by decide)

/-- A grant keeps a store well-formed as long as lease numbers have not run out. -/
theorem WellFormed.grant {s : MemoryStore} (h : s.WellFormed) (now : Reading) (ttl : Int64)
    (hnext : 1 ≤ (s.grant now ttl).2.nextLease.toInt) : (s.grant now ttl).2.WellFormed := by
  unfold MemoryStore.grant guarded at hnext ⊢
  split
  · exact h
  · rename_i hfault
    rw [if_neg hfault] at hnext
    split
    · exact h
    · rename_i httl
      rw [if_neg httl] at hnext
      have hsucc := toInt_add_one hnext
      refine ⟨h.ordered, ?_, ?_, ?_, ?_, hnext⟩
      · rw [List.map_append, List.nodup_append]
        refine ⟨h.distinct, by simp, ?_⟩
        intro a ha b hb hab
        obtain ⟨l, hl, rfl⟩ := List.mem_map.mp ha
        have hbound := (h.numbered l hl).2
        simp only [List.map_cons, List.map_nil, List.mem_singleton] at hb
        rw [hab, hb] at hbound
        exact Int.lt_irrefl _ hbound
      · intro e he lease hlease
        rw [List.map_append]
        exact List.mem_append_left _ (h.bound e he lease hlease)
      · intro l hl
        simp only [hsucc]
        rcases List.mem_append.mp hl with hl | hl
        · have := h.numbered l hl
          omega
        · rw [List.mem_singleton] at hl
          subst hl
          have := h.counting
          simp only
          omega
      · intro l hl
        rcases List.mem_append.mp hl with hl | hl
        · exact h.lasting l hl
        · rw [List.mem_singleton] at hl
          subst hl
          rw [Int64.le_iff_toInt_le, Int64.toInt_zero, Int.not_le] at httl
          exact httl

/-- A lease as it is when the lease of some number has been renewed. -/
def renewed (now : Reading) (lease : LeaseId) (l : LeaseId × Lease) : LeaseId × Lease :=
  if l.1 = lease then (l.1, Lease.granted l.2.ttl now) else l

theorem renewed_fst (now : Reading) (lease : LeaseId) (l : LeaseId × Lease) :
    (renewed now lease l).1 = l.1 := by
  unfold renewed
  split <;> rfl

/-- A renewal leaves a lease as long as it is. -/
theorem renewed_ttl (now : Reading) (lease : LeaseId) (l : LeaseId × Lease) :
    (renewed now lease l).2.ttl = l.2.ttl := by
  unfold renewed
  split
  · exact Lease.granted_ttl l.2.ttl now
  · rfl

/-- A renewal leaves the numbers of all leases alone. -/
theorem map_fst_renewed (now : Reading) (lease : LeaseId) (ls : List (LeaseId × Lease)) :
    (ls.map (renewed now lease)).map (·.1) = ls.map (·.1) := by
  rw [List.map_map]
  exact List.map_congr_left fun l _ => renewed_fst now lease l

/-- New deadlines keep a store well-formed. -/
theorem WellFormed.map_renewed {s : MemoryStore} (h : s.WellFormed) (now : Reading)
    (lease : LeaseId) : WellFormed { s with leases := s.leases.map (renewed now lease) } where
  ordered := h.ordered
  distinct := by
    rw [map_fst_renewed]
    exact h.distinct
  bound := by
    rw [map_fst_renewed]
    exact h.bound
  numbered := by
    intro l hl
    obtain ⟨m, hm, rfl⟩ := List.mem_map.mp hl
    rw [renewed_fst]
    exact h.numbered m hm
  lasting := by
    intro l hl
    obtain ⟨m, hm, rfl⟩ := List.mem_map.mp hl
    rw [renewed_ttl]
    exact h.lasting m hm
  counting := h.counting

/-- A renewal that is made to fail changes nothing. -/
theorem renew_of_fault {s : MemoryStore} {lease : LeaseId} (now : Reading)
    (hfault : s.faults.contains .keepAlive = true) :
    s.renew now lease = (.error (fault .keepAlive), s) := by
  rw [renew, guarded, if_pos hfault]

/-- A renewal of a lease that is gone only purges. -/
theorem renew_of_none {s : MemoryStore} {now : Reading} {lease : LeaseId}
    (hfault : s.faults.contains .keepAlive = false)
    (hlease : (s.purge now).leases.lookup lease = none) :
    s.renew now lease = (.ok none, s.purge now) := by
  rw [renew, guarded, hfault, if_neg Bool.false_ne_true]
  simp only [hlease]

/-- A renewal of a lease that is there gives it a new deadline. -/
theorem renew_of_some {s : MemoryStore} {now : Reading} {lease : LeaseId} {held : Lease}
    (hfault : s.faults.contains .keepAlive = false)
    (hlease : (s.purge now).leases.lookup lease = some held) :
    s.renew now lease = (.ok (some held.ttl),
      { s.purge now with leases := (s.purge now).leases.map (renewed now lease) }) := by
  rw [renew, guarded, hfault]
  dsimp only [Bool.false_eq_true, if_false]
  rw [hlease]
  rfl

/-- A renewal keeps a store well-formed. -/
theorem WellFormed.renew {s : MemoryStore} (h : s.WellFormed) (now : Reading) (lease : LeaseId) :
    (s.renew now lease).2.WellFormed := by
  have hp := h.purge now
  cases hfault : s.faults.contains .keepAlive with
  | true =>
      rw [renew_of_fault now hfault]
      exact h
  | false =>
      cases hlease : (s.purge now).leases.lookup lease with
      | none =>
          rw [renew_of_none hfault hlease]
          exact hp
      | some held =>
          rw [renew_of_some hfault hlease]
          exact hp.map_renewed now lease

/-- Faults have nothing to do with what is stored. -/
theorem WellFormed.withFaults {s : MemoryStore} (h : s.WellFormed) (faults : List Operation) :
    WellFormed { s with faults } :=
  ⟨h.ordered, h.distinct, h.bound, h.numbered, h.lasting, h.counting⟩

/-- Every command keeps a store well-formed, unless it uses up the last lease number. -/
theorem WellFormed.run {s : MemoryStore} (h : s.WellFormed) (c : Command) (now : Reading)
    (hnext : 1 ≤ (c.run now s).2.nextLease.toInt) : (c.run now s).2.WellFormed := by
  cases c with
  | put key value => exact h.put key value
  | delete key => exact h.delete key
  | putLeased key value lease => exact h.putLeased now key value lease
  | grant ttl => exact h.grant now ttl hnext
  | renew lease => exact h.renew now lease
  | keepAlive time period lease => exact h.renew now lease
  | revoke lease =>
      simp only [Command.run, MemoryStore.revoke, guarded]
      split
      · exact h
      · exact h.dropLease lease
  | expireLease lease => exact h.dropLease lease
  | injectFault op =>
      simp only [Command.run, MemoryStore.injectFault]
      split
      · exact h
      · exact h.withFaults _
  | clearFaults => exact h.withFaults []
  | scan start =>
      simp only [Command.run, MemoryStore.scan, guarded]
      split
      · exact h
      · exact h.purge now
  | keys => exact h.purge now
  | leaseOf key => exact h.purge now
  | leaseCount => exact h.purge now

/-- The stores that commands lead to, whatever the clock shows, while lease numbers last. -/
inductive Reachable : MemoryStore → Prop where
  | empty : Reachable .empty
  | run {s : MemoryStore} (reachable : Reachable s) (c : Command) (now : Reading)
      (numbers : 1 ≤ (c.run now s).2.nextLease.toInt) : Reachable (c.run now s).2

/-- Whatever commands lead to is well-formed. -/
theorem Reachable.wellFormed {s : MemoryStore} (h : s.Reachable) : s.WellFormed := by
  induction h with
  | empty => exact WellFormed.empty
  | run _ c now numbers ih => exact ih.run c now numbers

/-! ## Refusals -/

section

variable {s : MemoryStore} {now : Reading} {failure : Failure}

/-- Whether an operation was made to fail or fails by itself, the kind of failure is its own. -/
theorem kind_of_guarded {α : Type} {op : Operation} {x : Except Failure α × MemoryStore}
    (hx : x.1 = .error failure → failure.kind = op.refusal)
    (h : (s.guarded op x).1 = .error failure) : failure.kind = op.refusal := by
  unfold guarded at h
  split at h
  · cases h
    rfl
  · exact hx h

/-- A scan fails with the kind of failure of its operation. -/
theorem kind_of_scan {start : String} (h : (s.scan now start).1 = .error failure) :
    failure.kind = Operation.get.refusal := by
  refine kind_of_guarded ?_ h
  exact nofun

theorem kind_of_putLeased {key : String} {value : Bytes} {lease : LeaseId}
    (h : (s.putLeased now key value lease).1 = .error failure) :
    failure.kind = Operation.put.refusal := by
  refine kind_of_guarded ?_ h
  intro hrefused
  dsimp only at hrefused
  split at hrefused
  · cases hrefused
  · cases hrefused
    rfl

theorem kind_of_grant {ttl : Int64} (h : (s.grant now ttl).1 = .error failure) :
    failure.kind = Operation.grant.refusal := by
  refine kind_of_guarded ?_ h
  intro hrefused
  split at hrefused
  · cases hrefused
    rfl
  · cases hrefused

/-- A renewal fails with the kind of failure that means a lost lease. -/
theorem kind_of_renew {lease : LeaseId} (h : (s.renew now lease).1 = .error failure) :
    failure.kind = Operation.keepAlive.refusal := by
  refine kind_of_guarded ?_ h
  intro hrefused
  dsimp only at hrefused
  split at hrefused <;> cases hrefused

theorem kind_of_revoke {lease : LeaseId} (h : (s.revoke lease).1 = .error failure) :
    failure.kind = Operation.revoke.refusal := by
  refine kind_of_guarded ?_ h
  exact nofun

end

end MemoryStore
end ServiceDiscovery
