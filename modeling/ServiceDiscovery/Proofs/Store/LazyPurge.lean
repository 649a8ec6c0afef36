import Mathlib.Data.List.Forall2
import ServiceDiscovery.Proofs.Store.Commands

/-!
# Lapsed leases and what can be seen of them

A store drops a lease that has lapsed only when some command looks at leases. A
reference store drops it before every command. Nobody can tell the two apart,
except by asking whether there was something to remove.

Main results:

- Definition {lit}`Command.runPurged`: a command of the reference store.
- Theorem {lit}`run_dropLapsed`: one command, with and without a purge before it.
- Theorem {lit}`lazy_purge_unobservable`: all answers of a run agree, and what
  fails changes nothing.
-/

namespace ServiceDiscovery
namespace MemoryStore

/-- Purging twice at one reading is purging once. -/
theorem dropLapsed_idem (s : MemoryStore) (now : Reading) :
    (s.dropLapsed now).dropLapsed now = s.dropLapsed now :=
  dropLapsed_dropLapsed s (UInt64.le_refl now)

/-! ## Commands that do not purge -/

/-- Lapsed leases may be dropped before a write or after it. -/
theorem dropLapsed_put {s : MemoryStore} (h : s.WellFormed) (now : Reading) (key : String)
    (value : Bytes) : (s.put key value).dropLapsed now = (s.dropLapsed now).put key value := by
  simp only [dropLapsed, put]
  congr 1
  exact filter_insertEntry h.ordered rfl

/-- They may be dropped before a removal or after it. -/
theorem dropLapsed_delete (s : MemoryStore) (now : Reading) (key : String) :
    (s.delete key).2.dropLapsed now = ((s.dropLapsed now).delete key).2 := by
  simp only [dropLapsed, delete, List.filter_filter]
  congr 1
  apply List.filter_congr
  intro e _
  exact Bool.and_comm _ _

/-- They may be dropped before another lease is or after it. -/
theorem dropLapsed_dropLease (s : MemoryStore) (now : Reading) (lease : LeaseId) :
    (s.dropLease lease).2.dropLapsed now = ((s.dropLapsed now).dropLease lease).2 := by
  have hlapsed (id : LeaseId) :
      id ∈ (s.dropLease lease).2.lapsed now ↔ id ∈ s.lapsed now ∧ id ≠ lease := by
    simp only [mem_lapsed, dropLease, List.mem_filter, decide_eq_true_eq]
    constructor
    · rintro ⟨l, ⟨hl, hne⟩, hlapsed⟩
      exact ⟨⟨l, hl, hlapsed⟩, hne⟩
    · rintro ⟨⟨l, hl, hlapsed⟩, hne⟩
      exact ⟨l, ⟨hl, hne⟩, hlapsed⟩
  have hentries : (s.dropLease lease).2.entries.filter (fun e => e.2.lease.all fun id =>
        !((s.dropLease lease).2.lapsed now).contains id) =
      (s.dropLapsed now).entries.filter fun e => e.2.lease ≠ some lease := by
    simp only [dropLapsed]
    rw [show (s.dropLease lease).2.entries =
      s.entries.filter fun e => e.2.lease ≠ some lease from rfl]
    rw [List.filter_filter, List.filter_filter]
    apply List.filter_congr
    rintro ⟨key, value, id⟩ _
    cases id with
    | none => rfl
    | some id =>
        have := hlapsed id
        simp only [Option.all_some]
        grind
  have hleases : (s.dropLease lease).2.leases.filter (fun l => !l.2.lapsed now) =
      (s.dropLapsed now).leases.filter fun l => l.1 ≠ lease := by
    simp only [dropLapsed, dropLease, List.filter_filter]
    apply List.filter_congr
    intro l _
    exact Bool.and_comm _ _
  rw [dropLapsed, hentries, hleases]
  rfl

theorem dropLapsed_injectFault (s : MemoryStore) (now : Reading) (op : Operation) :
    (s.injectFault op).dropLapsed now = (s.dropLapsed now).injectFault op := by
  unfold injectFault
  rw [show (s.dropLapsed now).faults = s.faults from rfl]
  split <;> rfl

/-- A lease that is added may lapse at once; what lapsed before has no part in it. -/
theorem dropLapsed_append (s : MemoryStore) (now : Reading) (l : LeaseId × Lease) (n : Int64) :
    dropLapsed now { s with leases := s.leases ++ [l], nextLease := n } =
      dropLapsed now { s.dropLapsed now with
        leases := (s.dropLapsed now).leases ++ [l], nextLease := n } := by
  have hlazy (id : LeaseId) :
      id ∈ lapsed { s with leases := s.leases ++ [l], nextLease := n } now ↔
        id ∈ s.lapsed now ∨ l.1 = id ∧ l.2.lapsed now = true := by
    simp only [mem_lapsed, List.mem_append, List.mem_singleton]
    grind
  have hpurged (id : LeaseId) :
      id ∈ lapsed { s.dropLapsed now with
          leases := (s.dropLapsed now).leases ++ [l], nextLease := n } now ↔
        l.1 = id ∧ l.2.lapsed now = true := by
    simp only [mem_lapsed, dropLapsed, List.mem_append, List.mem_singleton, List.mem_filter]
    grind
  unfold dropLapsed at hpurged ⊢
  congr 1
  · rw [List.filter_filter]
    apply List.filter_congr
    rintro ⟨key, value, id⟩ _
    cases id with
    | none => rfl
    | some id =>
        have := hlazy id
        have := hpurged id
        simp only [Option.all_some]
        grind
  · simp only [List.filter_append, List.filter_filter, Bool.and_self]

/-! ## Results alike -/

/-- Results that agree once the lapsed leases are gone. -/
def Alike {α : Type} (now : Reading) (x y : α × MemoryStore) : Prop :=
  x.1 = y.1 ∧ x.2.dropLapsed now = y.2.dropLapsed now

/-- Results that are alike stay so when their answers are read in one way. -/
theorem Alike.map {α β : Type} {now : Reading} {x y : α × MemoryStore} (h : Alike now x y)
    (f : α → β) : Alike now (Prod.map f id x) (Prod.map f id y) :=
  ⟨congrArg f h.1, h.2⟩

theorem Alike.refl {α : Type} (now : Reading) (x : α × MemoryStore) : Alike now x x :=
  ⟨rfl, rfl⟩

/-- What purges by itself does not need a purge before it. -/
theorem purge_after_dropLapsed {s : MemoryStore} (h : s.WellFormed) (now : Reading) :
    (s.dropLapsed now).purge now = s.purge now := by
  rw [purge_dropLapsed h, purge_eq_dropLapsed h]

/-- What fails on account of a fault does so before and after a purge. -/
theorem Alike.guarded {α : Type} {s : MemoryStore} {now : Reading} {op : Operation}
    {x y : Except Failure α × MemoryStore} (h : Alike now x y) :
    Alike now (s.guarded op x) ((s.dropLapsed now).guarded op y) := by
  unfold MemoryStore.guarded
  rw [show (s.dropLapsed now).faults = s.faults from rfl]
  split
  · exact ⟨rfl, (dropLapsed_idem s now).symm⟩
  · exact h

/-- It makes no difference to a grant whether lapsed leases are dropped before it. -/
theorem alike_grant (s : MemoryStore) (now : Reading) (ttl : Int64) :
    Alike now (s.grant now ttl) ((s.dropLapsed now).grant now ttl) := by
  apply Alike.guarded
  split
  · exact ⟨rfl, (dropLapsed_idem s now).symm⟩
  · exact ⟨rfl, dropLapsed_append s now _ _⟩

/-- Nor does it to a write under a lease, which purges anyway. -/
theorem alike_putLeased {s : MemoryStore} (h : s.WellFormed) (now : Reading) (key : String)
    (value : Bytes) (lease : LeaseId) :
    Alike now (s.putLeased now key value lease)
      ((s.dropLapsed now).putLeased now key value lease) := by
  apply Alike.guarded
  rw [purge_after_dropLapsed h]
  exact Alike.refl now _

/-- A renewal finds the same leases whether or not the lapsed ones were dropped before it. -/
theorem alike_renew {s : MemoryStore} (h : s.WellFormed) (now : Reading) (lease : LeaseId) :
    Alike now (s.renew now lease) ((s.dropLapsed now).renew now lease) := by
  apply Alike.guarded
  rw [purge_after_dropLapsed h]
  exact Alike.refl now _

/-- A scan finds the same entries whether or not the lapsed leases were dropped before it. -/
theorem alike_scan {s : MemoryStore} (h : s.WellFormed) (now : Reading) (start : String) :
    Alike now (s.scan now start) ((s.dropLapsed now).scan now start) := by
  apply Alike.guarded
  rw [purge_after_dropLapsed h]
  exact Alike.refl now _

/-- Unless it is made to fail, a revocation succeeds whether its lease has lapsed or not. -/
theorem alike_revoke (s : MemoryStore) (now : Reading) (lease : LeaseId) :
    Alike now (s.revoke lease) ((s.dropLapsed now).revoke lease) := by
  apply Alike.guarded
  refine ⟨rfl, ?_⟩
  rw [dropLapsed_dropLease, dropLapsed_dropLease, dropLapsed_idem]

/-- The keys that are shown are the same. -/
theorem alike_keys {s : MemoryStore} (h : s.WellFormed) (now : Reading) :
    Alike now (s.keys now) ((s.dropLapsed now).keys now) := by
  unfold keys
  rw [purge_after_dropLapsed h]
  exact Alike.refl now _

/-- The lease that is shown for a key is the same. -/
theorem alike_leaseOf {s : MemoryStore} (h : s.WellFormed) (now : Reading) (key : String) :
    Alike now (s.leaseOf now key) ((s.dropLapsed now).leaseOf now key) := by
  unfold leaseOf
  rw [purge_after_dropLapsed h]
  exact Alike.refl now _

/-- The number of leases that is shown is the same. -/
theorem alike_leaseCount {s : MemoryStore} (h : s.WellFormed) (now : Reading) :
    Alike now (s.leaseCount now) ((s.dropLapsed now).leaseCount now) := by
  unfold leaseCount
  rw [purge_after_dropLapsed h]
  exact Alike.refl now _

/-! ## One command -/

/-- Two answers are the same, or both tell whether there was something to remove. -/
def Answer.Same : Answer → Answer → Prop
  | .removed _, .removed _ => True
  | a, b => a = b

theorem Answer.Same.refl (a : Answer) : a.Same a := by
  cases a <;> first | rfl | trivial

/-- A command of a store that drops the lapsed leases before everything it does. -/
def Command.runPurged (c : Command) (now : Reading) (s : MemoryStore) : Answer × MemoryStore :=
  c.run now (s.dropLapsed now)

theorem Alike.same {now : Reading} {x y : Answer × MemoryStore} (h : Alike now x y) :
    x.1.Same y.1 ∧ x.2.dropLapsed now = y.2.dropLapsed now :=
  ⟨h.1 ▸ Answer.Same.refl x.1, h.2⟩

/-- With and without a purge before it, a command gives the same answer and leaves the same
behind, as far as the lapsed leases do not matter. -/
theorem run_dropLapsed {s : MemoryStore} (h : s.WellFormed) (c : Command) (now : Reading) :
    (c.run now s).1.Same (c.runPurged now s).1 ∧
      (c.run now s).2.dropLapsed now = (c.runPurged now s).2.dropLapsed now := by
  have hdone {f : MemoryStore → MemoryStore}
      (hf : ∀ t, t.WellFormed → (f t).dropLapsed now = f (t.dropLapsed now)) :
      (f s).dropLapsed now = (f (s.dropLapsed now)).dropLapsed now := by
    rw [hf s h, hf _ (h.dropLapsed now), dropLapsed_idem]
  cases c with
  | put key value => exact ⟨rfl, hdone fun t ht => dropLapsed_put ht now key value⟩
  | delete key => exact ⟨trivial, hdone fun t _ => dropLapsed_delete t now key⟩
  | putLeased key value lease => exact ((alike_putLeased h now key value lease).map _).same
  | grant ttl => exact ((alike_grant s now ttl).map _).same
  | renew lease => exact ((alike_renew h now lease).map _).same
  | keepAlive time period lease => exact ((alike_renew h now lease).map _).same
  | revoke lease => exact ((alike_revoke s now lease).map _).same
  | expireLease lease => exact ⟨trivial, hdone fun t _ => dropLapsed_dropLease t now lease⟩
  | injectFault op => exact ⟨rfl, hdone fun t _ => dropLapsed_injectFault t now op⟩
  | clearFaults => exact ⟨rfl, hdone fun _ _ => rfl⟩
  | scan start => exact ((alike_scan h now start).map _).same
  | keys => exact ((alike_keys h now).map _).same
  | leaseOf key => exact ((alike_leaseOf h now key).map _).same
  | leaseCount => exact ((alike_leaseCount h now).map _).same

/-! ## Failures -/

/-- An operation that cannot fail by itself changes nothing when it is made to fail. -/
theorem guarded_eq_of_error {α : Type} {s : MemoryStore} {op : Operation}
    {x : Except Failure α × MemoryStore} {failure : Failure}
    (hfail : (s.guarded op x).1 = .error failure) :
    (s.guarded op x).2 = s ∨ x.1 = .error failure ∧ s.guarded op x = x := by
  unfold guarded at hfail ⊢
  by_cases hfault : s.faults.contains op = true
  · rw [if_pos hfault]
    exact Or.inl rfl
  · rw [if_neg hfault] at hfail ⊢
    exact Or.inr ⟨hfail, rfl⟩

/-- A write under a lease that fails has purged at most. -/
theorem failed_putLeased {s : MemoryStore} (h : s.WellFormed) {now : Reading} {key : String}
    {value : Bytes} {lease : LeaseId} {failure : Failure}
    (hfail : (s.putLeased now key value lease).1 = .error failure) :
    (s.putLeased now key value lease).2.dropLapsed now = s.dropLapsed now := by
  rcases guarded_eq_of_error hfail with hsame | ⟨herror, heq⟩
  · exact congrArg (dropLapsed now) hsame
  · rw [putLeased, heq]
    dsimp only at herror ⊢
    split
    · rename_i hlease
      rw [if_pos hlease] at herror
      cases herror
    · rw [purge_eq_dropLapsed h, dropLapsed_idem]

/-- A grant that fails changes nothing. -/
theorem failed_grant {s : MemoryStore} {now : Reading} {ttl : Int64} {failure : Failure}
    (hfail : (s.grant now ttl).1 = .error failure) : (s.grant now ttl).2 = s := by
  rcases guarded_eq_of_error hfail with hsame | ⟨herror, heq⟩
  · exact hsame
  · rw [grant, heq]
    split
    · rfl
    · rename_i httl
      rw [if_neg httl] at herror
      cases herror

/-- A scan that fails changes nothing, not even by a purge. -/
theorem failed_scan {s : MemoryStore} {now : Reading} {start : String} {failure : Failure}
    (hfail : (s.scan now start).1 = .error failure) : (s.scan now start).2 = s := by
  rcases guarded_eq_of_error hfail with hsame | ⟨herror, _⟩
  · exact hsame
  · cases herror

theorem failed_revoke {s : MemoryStore} {lease : LeaseId} {failure : Failure}
    (hfail : (s.revoke lease).1 = .error failure) : (s.revoke lease).2 = s := by
  rcases guarded_eq_of_error hfail with hsame | ⟨herror, _⟩
  · exact hsame
  · cases herror

/-- Without a lease to renew, a renewal changes nothing. -/
theorem failed_renew {s : MemoryStore} (h : s.WellFormed) {now : Reading} {lease : LeaseId}
    (hfail : ∀ ttl, (s.renew now lease).1 ≠ .ok (some ttl)) :
    (s.renew now lease).2.dropLapsed now = s.dropLapsed now := by
  cases hfault : s.faults.contains .keepAlive with
  | true => rw [renew_of_fault now hfault]
  | false =>
      cases hlease : (s.purge now).leases.lookup lease with
      | none => rw [renew_of_none hfault hlease, purge_eq_dropLapsed h, dropLapsed_idem]
      | some held =>
          rw [renew_of_some hfault hlease] at hfail
          exact absurd rfl (hfail held.ttl)

/-- A command that fails leaves behind what was there before it. -/
theorem run_of_failure {s : MemoryStore} (h : s.WellFormed) {c : Command} {now : Reading}
    (hfail : (c.run now s).1.IsFailure) : (c.run now s).2.dropLapsed now = s.dropLapsed now := by
  cases c with
  | putLeased key value lease =>
      cases hresult : (s.putLeased now key value lease).1 with
      | ok _ => simp [Command.run, hresult, Answer.IsFailure] at hfail
      | error failure => exact failed_putLeased h hresult
  | grant ttl =>
      cases hresult : (s.grant now ttl).1 with
      | ok _ => simp [Command.run, hresult, Answer.IsFailure] at hfail
      | error failure => exact congrArg (dropLapsed now) (failed_grant hresult)
  | renew lease =>
      refine failed_renew h fun ttl hresult => ?_
      simp [Command.run, hresult, Answer.IsFailure] at hfail
  | keepAlive time period lease =>
      refine failed_renew h fun ttl hresult => ?_
      simp [Command.run, hresult, AckStream.opening, Answer.IsFailure] at hfail
  | revoke lease =>
      cases hresult : (s.revoke lease).1 with
      | ok _ => simp [Command.run, hresult, Answer.IsFailure] at hfail
      | error failure => exact congrArg (dropLapsed now) (failed_revoke hresult)
  | scan start =>
      cases hresult : (s.scan now start).1 with
      | ok _ => simp [Command.run, hresult, Answer.IsFailure] at hfail
      | error failure => exact congrArg (dropLapsed now) (failed_scan hresult)
  | put | delete | expireLease | injectFault | clearFaults | keys | leaseOf | leaseCount =>
      exact hfail.elim

/-! ## Runs -/

/-- One command of a run: its answer, with the store before and after it. -/
structure Exchange where
  now : Reading
  command : Command
  before : MemoryStore
  answer : Answer
  after : MemoryStore

/-- What fails makes no difference to the store, at its reading and at every later one. -/
def Exchange.Harmless (x : Exchange) : Prop :=
  x.answer.IsFailure → ∀ later, x.now ≤ later → x.after.dropLapsed later = x.before.dropLapsed later

/-- What happens when commands are given one after another, each at a reading of the clock, to a
store that carries them out in some way. -/
def transcript (exec : Command → Reading → MemoryStore → Answer × MemoryStore) :
    List (Reading × Command) → MemoryStore → List Exchange
  | [], _ => []
  | (now, c) :: rest, s =>
    ⟨now, c, s, (exec c now s).1, (exec c now s).2⟩ :: transcript exec rest (exec c now s).2

/-- How many leases some commands ask for. -/
def grants (cmds : List (Reading × Command)) : Nat :=
  cmds.countP fun x => x.2.isGrant

/-- A command leaves lease numbers for those after it, and a well-formed store with them. -/
theorem room_run {s : MemoryStore} (h : s.WellFormed) {c : Command} {now : Reading}
    {rest : List (Reading × Command)}
    (hroom : s.nextLease.toInt + grants ((now, c) :: rest) < 2 ^ 63) :
    (c.run now s).2.WellFormed ∧ (c.run now s).2.nextLease.toInt + grants rest < 2 ^ 63 := by
  have hcount := h.counting
  simp only [grants, List.countP_cons] at hroom ⊢
  rcases nextLease_run c now s with hnext | ⟨hgrant, hnext⟩
  · refine ⟨h.run c now ?_, ?_⟩
    · rw [hnext]
      exact hcount
    · rw [hnext]
      omega
  · simp only [hgrant, if_true] at hroom
    have hsucc : (s.nextLease + 1).toInt = s.nextLease.toInt + 1 := toInt_succ (by omega)
    refine ⟨h.run c now ?_, ?_⟩
    · rw [hnext, hsucc]
      omega
    · rw [hnext, hsucc]
      omega

/-- A command that fails makes no difference that could be noticed later. -/
theorem harmless_run {s : MemoryStore} (h : s.WellFormed) (c : Command) (now : Reading) :
    Exchange.Harmless ⟨now, c, s, (c.run now s).1, (c.run now s).2⟩ := by
  intro hfail later hle
  simp only at hfail hle ⊢
  rw [← dropLapsed_dropLapsed _ hle, run_of_failure h hfail, dropLapsed_dropLapsed _ hle]

/-- Nor does one in a store that drops lapsed leases at once. -/
theorem harmless_runPurged {s : MemoryStore} (h : s.WellFormed) (c : Command) (now : Reading) :
    Exchange.Harmless ⟨now, c, s, (c.runPurged now s).1, (c.runPurged now s).2⟩ := by
  intro hfail later hle
  have := harmless_run (h.dropLapsed now) c now hfail later hle
  rw [dropLapsed_dropLapsed s hle] at this
  exact this

/-- Two stores that agree once the lapsed leases are gone give the same answers from then on,
whether they purge lazily or before every command. -/
theorem transcript_same {last : Reading} {s t : MemoryStore} (hs : s.WellFormed)
    (ht : t.WellFormed) (hst : s.dropLapsed last = t.dropLapsed last)
    {cmds : List (Reading × Command)} (hlast : ∀ x ∈ cmds, last ≤ x.1)
    (hclock : (cmds.map (·.1)).Pairwise (· ≤ ·))
    (hroom : s.nextLease.toInt + grants cmds < 2 ^ 63) :
    List.Forall₂ (fun x y => x.answer.Same y.answer ∧ x.Harmless ∧ y.Harmless)
      (transcript Command.run cmds s) (transcript Command.runPurged cmds t) := by
  induction cmds generalizing last s t with
  | nil => exact List.Forall₂.nil
  | cons x rest ih =>
      rcases x with ⟨now, c⟩
      have hle : last ≤ now := hlast (now, c) List.mem_cons_self
      have hnow : s.dropLapsed now = t.dropLapsed now := by
        rw [← dropLapsed_dropLapsed s hle, hst, dropLapsed_dropLapsed t hle]
      have hnext : (t.dropLapsed last).nextLease = (s.dropLapsed last).nextLease := by rw [hst]
      have hs' := room_run hs hroom
      have ht' : (c.runPurged now t).2.WellFormed := by
        have hroom' : (t.dropLapsed now).nextLease.toInt + grants ((now, c) :: rest) < 2 ^ 63 := by
          rw [show (t.dropLapsed now).nextLease = s.nextLease from hnext]
          exact hroom
        exact (room_run (ht.dropLapsed now) hroom').1
      have hone := run_dropLapsed hs c now
      have hpurged : c.runPurged now s = c.runPurged now t := by
        rw [Command.runPurged, Command.runPurged, hnow]
      rw [hpurged] at hone
      have hpairwise := List.pairwise_cons.mp hclock
      refine List.Forall₂.cons ⟨hone.1, harmless_run hs c now, harmless_runPurged ht c now⟩ ?_
      refine ih hs'.1 ht' hone.2 ?_ hpairwise.2 hs'.2
      intro y hy
      exact hpairwise.1 y.1 (List.mem_map_of_mem hy)

/-- A store that drops lapsed leases lazily is as good as one that drops them before every
command: as long as the clock does not go back and lease numbers do not run out, every answer is
the same but for whether there was something to remove, and what fails changes nothing in
either. -/
theorem lazy_purge_unobservable {cmds : List (Reading × Command)}
    (hclock : (cmds.map (·.1)).Pairwise (· ≤ ·)) (hgrants : grants cmds < 2 ^ 63 - 1) :
    List.Forall₂ (fun x y => x.answer.Same y.answer ∧ x.Harmless ∧ y.Harmless)
      (transcript Command.run cmds .empty) (transcript Command.runPurged cmds .empty) := by
  have hfirst : ∀ x ∈ cmds, 0 ≤ x.1 := fun _ _ => UInt64.zero_le
  refine transcript_same WellFormed.empty WellFormed.empty rfl hfirst hclock ?_
  · have hone : MemoryStore.empty.nextLease.toInt = 1 := by decide
    rw [hone]
    omega

/-- A lease of one second lapses; its key is overwritten before anything purges. -/
def overwritten : List (Reading × Command) :=
  [(0, .grant 1), (0, .putLeased "k" [] ⟨1⟩), (2000000000, .put "k" []),
    (2000000000, .delete "j"), (2000000000, .keys), (3000000000, .leaseCount)]

/-- The run in which a key outlives the lease to which it was bound meets the conditions. -/
theorem lazy_purge_unobservable_overwritten :
    List.Forall₂ (fun x y => x.answer.Same y.answer ∧ x.Harmless ∧ y.Harmless)
      (transcript Command.run overwritten .empty)
      (transcript Command.runPurged overwritten .empty) :=
  lazy_purge_unobservable (by decide) (by decide)

end MemoryStore
end ServiceDiscovery
