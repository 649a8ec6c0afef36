import ServiceDiscovery.Proofs.Schedule.OpenRuns

/-!
# A ledger of published keys

A supervisor publishes a fresh key with every attempt. The ledger relates what has
been published so far to the leases of a store: a key whose lease is gone will not
be seen again, and a lease that was lost goes at its deadline.

Main results:

- Definition {lit}`History`: what a supervisor has published and lost so far.
- Definition {lit}`Supervision.Ledger`: every key is gone, or held, or lost.
- Theorem {lit}`Supervision.Ledger.run`: no command brings back a key that is gone,
  and only a renewal by name delays a lost one.
- Theorem {lit}`Supervision.Own.run`: no command takes from an attempt what it knows
  about its lease.
-/

namespace ServiceDiscovery

/-! ## Records -/

/-- A key that was published, with the lease to which it was bound. -/
structure Publication where
  key : String
  lease : LeaseId
  deriving DecidableEq

/-- A registration that was lost while the store had its lease. -/
structure Loss where
  lease : LeaseId
  /-- The seconds for which the lease was granted. -/
  ttl : Int64
  /-- When the registration was lost. -/
  reading : Reading

/-- What a supervisor has published and lost so far. -/
structure History where
  published : List Publication
  losses : List Loss
  /-- The leases that others have renewed. -/
  renewed : List LeaseId

namespace History

/-- Nothing has happened yet. -/
def empty : History :=
  ⟨[], [], []⟩

/-- The registration that published a key was lost. -/
def Lost (h : History) (p : Publication) : Prop :=
  ∃ l ∈ h.losses, l.lease = p.lease

instance (h : History) (p : Publication) : Decidable (h.Lost p) :=
  inferInstanceAs (Decidable (∃ l ∈ h.losses, l.lease = p.lease))

/-- The record after others have done something. -/
def meddled (h : History) : Meddling → History
  | .command c => { h with renewed := c.renewed?.toList ++ h.renewed }
  | _ => h

end History

namespace Attempt

/-- The key and the lease of an attempt, from the grant of the lease until it is given back. -/
def Stage.holding? : Stage → Option Publication
  | .running p =>
    match p.phase with
    | .publishing lease | .opening lease | .held lease | .refreshing lease
    | .releasing lease _ => some ⟨p.plan.key, lease⟩
    | .granting | .ended _ => none
  | _ => none

/-- What a step has published: an attempt goes on to keep its lease alive once its key is there. -/
def Stage.published (before after : Stage) : List Publication :=
  match before, after with
  | .running p, .running q =>
    match p.phase, q.phase with
    | .publishing lease, .opening _ => [⟨p.plan.key, lease⟩]
    | _, _ => []
  | _, _ => []

/-- What a step has lost: a registration is over without having given back a lease that the store
still has. -/
def Stage.lost (env : Environment) (before after : Stage) : List Loss :=
  match before, after with
  | .running p, .finished _ =>
    match p.phase with
    | .held lease =>
      if (env.store.leases.lookup lease).isSome then [⟨lease, p.plan.ttl, env.now⟩] else []
    | _ => []
  | _, _ => []

/-- A release that is under way will not be given up. -/
def Stage.releasesInTime : Stage → Bool
  | .running p =>
    match p.phase, p.pending with
    | .releasing .., some (_, call) => call.isAnswered
    | _, _ => true
  | _ => true

theorem Stage.published_self (stage : Stage) : stage.published stage = [] := by
  cases stage with
  | unstarted d => rfl
  | running p =>
      rcases p with ⟨plan, phase, pending, hold⟩
      cases phase <;> rfl
  | finished failure => rfl

theorem Stage.lost_self (env : Environment) (stage : Stage) : stage.lost env stage = [] := by
  cases stage <;> rfl

end Attempt

/-- The record after a step of an attempt. -/
def History.record (h : History) (env : Environment) (before after : Attempt.Stage) : History :=
  ⟨before.published after ++ h.published, before.lost env after ++ h.losses, h.renewed⟩

/-- A stage that stays the same is nothing to record. -/
theorem History.record_self (h : History) (env : Environment) (stage : Attempt.Stage) :
    h.record env stage stage = h := by
  rw [record, Attempt.Stage.published_self, Attempt.Stage.lost_self]
  rfl

namespace Supervision

/-! ## The record against the store -/

/-- Every key in the record is gone, or held, or lost, and what is lost goes with its lease unless
others renew that. -/
structure Ledger (h : History) (holds : Publication → Prop) (s : MemoryStore) : Prop where
  numbered : ∀ p ∈ h.published, p.lease.id.toInt < s.nextLease.toInt
  accounted : ∀ p ∈ h.published,
    p.lease ∉ s.leases.map (·.1) ∨ holds p ∨ h.Lost p
  lost : ∀ l ∈ h.losses, l.lease.id.toInt < s.nextLease.toInt ∧
    (l.lease ∉ h.renewed → s.GoneBy (l.reading.toNat + (Lease.span l.ttl).toNat) l.lease)

variable {h : History} {holds holds' : Publication → Prop} {s : MemoryStore} {now : Reading}

/-- A command that renews what was lost goes into the record. -/
theorem Ledger.run (hledger : Ledger h holds s) (hs : s.WellFormed) {c : MemoryStore.Command}
    {renewed : List LeaseId} (hrenewed : h.renewed ⊆ renewed)
    (hc : ∀ l ∈ h.losses, c.renewed? = some l.lease → l.lease ∈ renewed)
    (hnumbers : 1 ≤ (c.run now s).2.nextLease.toInt) :
    Ledger { h with renewed } holds (c.run now s).2 where
  numbered := fun p hp => MemoryStore.number_run hnumbers (hledger.numbered p hp)
  accounted := by
    intro p hp
    rcases hledger.accounted p hp with hgone | hrest
    · exact Or.inl (MemoryStore.not_mem_leases_run hs hgone (hledger.numbered p hp) c)
    · exact Or.inr hrest
  lost := by
    intro l hl
    obtain ⟨hnumber, hgone⟩ := hledger.lost l hl
    refine ⟨MemoryStore.number_run hnumbers hnumber, ?_⟩
    intro hnone
    refine (hgone fun hmem => hnone (hrenewed hmem)).run hs hnumber ?_
    intro hrenews
    exact hnone (hc l hl hrenews)

/-- An attempt may let go of a key whose lease is gone. -/
theorem Ledger.letGo (hledger : Ledger h holds s)
    (hholds : ∀ p ∈ h.published, holds p → p.lease ∉ s.leases.map (·.1) ∨ holds' p) :
    Ledger h holds' s where
  numbered := hledger.numbered
  accounted := by
    intro p hp
    rcases hledger.accounted p hp with hgone | hheld | hlost
    · exact Or.inl hgone
    · exact (hholds p hp hheld).imp_right Or.inl
    · exact Or.inr (Or.inr hlost)
  lost := hledger.lost

/-- A publication under a number that was handed out is entered in the ledger. -/
theorem Ledger.publish (hledger : Ledger h holds s) {p : Publication}
    (hnumber : p.lease.id.toInt < s.nextLease.toInt) (hheld : holds p) :
    Ledger { h with published := p :: h.published } holds s where
  numbered := by
    intro q hq
    rcases List.mem_cons.mp hq with rfl | hq
    · exact hnumber
    · exact hledger.numbered q hq
  accounted := by
    intro q hq
    rcases List.mem_cons.mp hq with rfl | hq
    · exact Or.inr (Or.inl hheld)
    · exact hledger.accounted q hq
  lost := hledger.lost

/-- What an attempt loses goes into the record. -/
theorem Ledger.lose (hledger : Ledger h holds s) {l : Loss}
    (hnumber : l.lease.id.toInt < s.nextLease.toInt)
    (hgone : s.GoneBy (l.reading.toNat + (Lease.span l.ttl).toNat) l.lease)
    (hholds : ∀ p ∈ h.published, holds p → p.lease = l.lease) :
    Ledger { h with losses := l :: h.losses } holds' s where
  numbered := hledger.numbered
  accounted := by
    intro p hp
    rcases hledger.accounted p hp with hout | hheld | ⟨m, hm, heq⟩
    · exact Or.inl hout
    · exact Or.inr (Or.inr ⟨l, List.mem_cons_self, (hholds p hp hheld).symm⟩)
    · exact Or.inr (Or.inr ⟨m, List.mem_cons_of_mem l hm, heq⟩)
  lost := by
    intro m hm
    rcases List.mem_cons.mp hm with rfl | hm
    · exact ⟨hnumber, fun _ => hgone⟩
    · exact hledger.lost m hm

/-- What an attempt knows about its lease: it was not lost, and its deadline is no further away
than the lease is long. -/
structure Own (losses : List Loss) (now : Reading) (s : MemoryStore) (plan : Registration.Plan)
    (lease : LeaseId) : Prop where
  number : lease.id.toInt < s.nextLease.toInt
  notLost : ∀ l ∈ losses, l.lease ≠ lease
  dated : s.Dated now lease plan.ttl

variable {losses : List Loss} {plan : Registration.Plan} {lease : LeaseId}

/-- Whatever command is carried out, a lease stays the attempt's own. -/
theorem Own.run (hown : Own losses now s plan lease) (hs : s.WellFormed)
    (c : MemoryStore.Command) (hnumbers : 1 ≤ (c.run now s).2.nextLease.toInt) :
    Own losses now (c.run now s).2 plan lease where
  number := MemoryStore.number_run hnumbers hown.number
  notLost := hown.notLost
  dated := hown.dated.run hs hown.number c

/-- A lease stays the attempt's own as time goes on. -/
theorem Own.later {later : Reading} (hown : Own losses now s plan lease) (hle : now ≤ later) :
    Own losses later s plan lease :=
  ⟨hown.number, hown.notLost, hown.dated.later hle⟩

end Supervision
end ServiceDiscovery
