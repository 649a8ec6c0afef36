import Mathlib.Data.List.Induction
import ServiceDiscovery.Proofs.Store.LazyPurge
import ServiceDiscovery.Proofs.Store.Lifetimes

/-!
# Keys and the leases to which they are bound

What a store holds at the end of a run, read off the answers that it gave on the
way: the leases that were granted and have not ended since, and under every key
the lease with which it was last written.

Main results:

- Definitions {lit}`granted` and {lit}`lastLease`: what the answers of a run say
  about leases and keys.
- Theorem {lit}`Accounted.run`: a command keeps a store in line with the answers.
- Theorem {lit}`consistent_after`: whatever was asked of it, a store holds no key
  without its lease, brings no lease back, and when it drops a lease, drops with it
  the keys last written under that lease and nothing else.
-/

namespace ServiceDiscovery
namespace MemoryStore

/-! ## Runs -/

/-- A command with its answer, and the stores before and after it. -/
def Command.exchange (c : Command) (now : Reading) (s : MemoryStore) : Exchange :=
  ⟨now, c, s, (c.run now s).1, (c.run now s).2⟩

/-- The store at the end of some commands. -/
def runAll (cmds : List (Reading × Command)) (s : MemoryStore) : MemoryStore :=
  cmds.foldl (fun s x => (x.2.run x.1 s).2) s

/-- What happens with one more command is what has happened before, and that command. -/
theorem transcript_concat (cmds : List (Reading × Command)) (x : Reading × Command)
    (s : MemoryStore) :
    transcript Command.run (cmds ++ [x]) s =
      transcript Command.run cmds s ++ [x.2.exchange x.1 (runAll cmds s)] := by
  induction cmds generalizing s with
  | nil => rfl
  | cons y rest ih => exact congrArg (List.cons _) (ih (y.2.run y.1 s).2)

/-- One more command is carried out on the store after all others. -/
theorem runAll_concat (cmds : List (Reading × Command)) (x : Reading × Command)
    (s : MemoryStore) : runAll (cmds ++ [x]) s = (x.2.run x.1 (runAll cmds s)).2 := by
  rw [runAll, List.foldl_concat]
  rfl

/-- The store after some commands, which found it empty. -/
def after (cmds : List (Reading × Command)) : MemoryStore :=
  runAll cmds .empty

/-- What has happened when some commands were given to an empty store. -/
def history (cmds : List (Reading × Command)) : List Exchange :=
  transcript Command.run cmds .empty

/-- What holds of an empty store before anything has happened, and lasts with every command, holds
after every run. -/
theorem after_induction {P : List Exchange → MemoryStore → Prop} (hempty : P [] .empty)
    (hrun : ∀ xs s c now, P xs s → P (xs ++ [Command.exchange c now s]) (c.run now s).2)
    (cmds : List (Reading × Command)) : P (history cmds) (after cmds) := by
  induction cmds using List.reverseRecOn with
  | nil => exact hempty
  | append_singleton cmds x ih =>
      unfold history after at *
      rw [transcript_concat, runAll_concat]
      exact hrun _ _ x.2 x.1 ih

/-! ## What the answers say -/

/-- The leases that were granted, in turn. -/
def granted (xs : List Exchange) : List LeaseId :=
  xs.filterMap fun x => (x.command.granted? x.answer).map (·.1)

/-- The keys that were written, in turn, each with the lease to which the write bound it. -/
def writes (xs : List Exchange) : List (String × Option LeaseId) :=
  xs.filterMap fun x => x.command.written? x.answer

/-- The lease to which the last write of a key has bound it. -/
def lastLease (xs : List Exchange) (key : String) : Option LeaseId :=
  ((writes xs).reverse.lookup key).join

/-- The lease was there before, and it is not there any more. -/
def Exchange.Ends (x : Exchange) (lease : LeaseId) : Prop :=
  lease ∈ x.before.leases.map (·.1) ∧ lease ∉ x.after.leases.map (·.1)

variable {xs : List Exchange} {x : Exchange} {s : MemoryStore} {now : Reading} {lease : LeaseId}

/-- The leases that are granted in two parts of a run are granted one after the other. -/
theorem granted_append (xs ys : List Exchange) : granted (xs ++ ys) = granted xs ++ granted ys :=
  List.filterMap_append

theorem granted_of_none (h : x.command.granted? x.answer = none) : granted [x] = [] := by
  simp [granted, h]

theorem granted_of_some {ttl : Int64} (h : x.command.granted? x.answer = some (lease, ttl)) :
    granted [x] = [lease] := by
  simp [granted, h]

/-- A write decides the lease of its key. -/
theorem lastLease_of_written {key : String} {bound : Option LeaseId}
    (h : x.command.written? x.answer = some (key, bound)) :
    lastLease (xs ++ [x]) key = bound := by
  simp [lastLease, writes, h]

/-- What is no write of a key leaves its last lease alone. -/
theorem lastLease_of_not_written {key : String}
    (h : ∀ bound, x.command.written? x.answer ≠ some (key, bound)) :
    lastLease (xs ++ [x]) key = lastLease xs key := by
  cases hwritten : x.command.written? x.answer with
  | none => simp [lastLease, writes, hwritten]
  | some write =>
      rcases write with ⟨other, bound⟩
      have hne : (key == other) = false := by
        rw [beq_eq_false_iff_ne]
        rintro rfl
        exact h bound hwritten
      simp [lastLease, writes, hwritten, List.lookup_cons, hne]

/-! ## One command -/

/-- A command grants no lease and uses no number up, or it grants the lease with the next number,
which is used up by that. -/
theorem granted_cases (c : Command) (now : Reading) (s : MemoryStore) :
    granted [c.exchange now s] = [] ∧ (c.run now s).2.nextLease = s.nextLease ∨
      granted [c.exchange now s] = [⟨s.nextLease⟩] ∧
        (c.run now s).2.nextLease = s.nextLease + 1 ∧
        ⟨s.nextLease⟩ ∈ (c.run now s).2.leases.map (·.1) := by
  by_cases hgrant : ∃ ttl, c = .grant ttl
  · obtain ⟨ttl, rfl⟩ := hgrant
    simp only [Command.exchange, Command.run, grant, guarded]
    split
    · exact Or.inl ⟨rfl, rfl⟩
    · split
      · exact Or.inl ⟨rfl, rfl⟩
      · exact Or.inr ⟨rfl, rfl, by simp⟩
  · left
    have hnone : c.granted? (c.run now s).1 = none ∧ c.isGrant = false := by
      cases c with
      | grant ttl => exact absurd ⟨ttl, rfl⟩ hgrant
      | _ => exact ⟨rfl, rfl⟩
    refine ⟨granted_of_none hnone.1, ?_⟩
    rcases nextLease_run c now s with hnext | ⟨hc, _⟩
    · exact hnext
    · rw [hnone.2] at hc
      cases hc

/-- The lease that a command grants has the next number, and is there afterwards. -/
theorem eq_of_mem_granted {c : Command} (h : lease ∈ granted [c.exchange now s]) :
    lease = ⟨s.nextLease⟩ ∧ (c.run now s).2.nextLease = s.nextLease + 1 ∧
      lease ∈ (c.run now s).2.leases.map (·.1) := by
  rcases granted_cases c now s with ⟨hnone, _⟩ | ⟨hsome, hnext, hmem⟩
  · rw [hnone] at h
    cases h
  · rw [hsome, List.mem_singleton] at h
    subst h
    exact ⟨rfl, hnext, hmem⟩

/-- A lease was there before the command, or the command has granted it. -/
theorem old_or_granted (hs : s.WellFormed) (c : Command)
    (h : lease ∈ (c.run now s).2.leases.map (·.1)) :
    lease ∈ s.leases.map (·.1) ∨ lease ∈ granted [c.exchange now s] := by
  obtain ⟨⟨_, held⟩, hmem, rfl⟩ := List.mem_map.mp h
  rcases extended_cases hs hmem with ⟨hold, _⟩ | ⟨_, _, ⟨⟨old, hold, _⟩, _⟩ | hgranted⟩
  · exact Or.inl (List.mem_map_of_mem hold)
  · exact Or.inl (List.mem_map.mpr ⟨_, hold, rfl⟩)
  · right
    rw [granted_of_some hgranted]
    exact List.mem_singleton_self _

/-- A lease is left as it is by a command that neither extends its life nor ends it, unless it has
lapsed. -/
theorem kept_lease_run (hs : s.WellFormed) {c : Command} {held : Lease}
    (hmem : (lease, held) ∈ s.leases) (hextended : c.extended? (c.run now s).1 ≠ some lease)
    (hdropped : c.dropped? (c.run now s).1 ≠ some lease) (hlive : held.lapsed now = false) :
    (lease, held) ∈ (c.run now s).2.leases := by
  by_cases hrevoke : c = .revoke lease
  · subst hrevoke
    rw [revoke_of_not_dropped hdropped]
    exact hmem
  · have hexpire : c ≠ .expireLease lease := by
      rintro rfl
      exact hdropped rfl
    rcases kept_run hs hmem hlive hrevoke hexpire with hkept | hrenewed
    · exact hkept
    · rcases extended_cases hs hrenewed with ⟨hold, _⟩ | ⟨hyes, _⟩
      · rw [eq_of_mem_leases hs.distinct hmem hold]
        exact hrenewed
      · exact absurd hyes hextended

/-! ## Stores in line with the answers -/

/-- A store is what the answers that were given say it must be. -/
structure Accounted (xs : List Exchange) (s : MemoryStore) : Prop where
  wellFormed : s.WellFormed
  counted : s.nextLease.toInt = 1 + (granted xs).length
  used : ∀ lease ∈ granted xs, lease.id.toInt < s.nextLease.toInt
  nodup : (granted xs).Nodup
  known : ∀ x ∈ xs, ∀ lease, x.Ends lease → lease ∈ granted xs
  live : ∀ lease, lease ∈ s.leases.map (·.1) ↔ lease ∈ granted xs ∧ ∀ x ∈ xs, ¬ x.Ends lease
  held : ∀ e ∈ s.entries, e.2.lease = lastLease xs e.1

/-- An empty store is what an empty history says. -/
theorem Accounted.empty : Accounted [] .empty where
  wellFormed := WellFormed.empty
  counted := by decide
  used := by simp [granted]
  nodup := List.nodup_nil
  known := by simp
  live := by simp [MemoryStore.empty, granted]
  held := by simp [MemoryStore.empty]

/-- Every entry is bound to the lease with which it was last written, after a command as before. -/
theorem Accounted.held_run (h : Accounted xs s) (c : Command) (now : Reading) :
    ∀ e ∈ (c.run now s).2.entries, e.2.lease = lastLease (xs ++ [c.exchange now s]) e.1 := by
  intro e he
  rcases mem_entries_run h.wellFormed he with hwritten | ⟨hold, hother⟩
  · exact (lastLease_of_written hwritten).symm
  · rw [h.held e hold]
    exact (lastLease_of_not_written hother).symm

/-- A lease that a command grants was not granted before. -/
theorem Accounted.not_granted_before (h : Accounted xs s) {c : Command}
    (hnew : lease ∈ granted [c.exchange now s]) : lease ∉ granted xs := by
  intro hbefore
  obtain ⟨rfl, _⟩ := eq_of_mem_granted hnew
  have hused := h.used _ hbefore
  exact Int.lt_irrefl _ hused

/-- The leases are those that were granted and not ended, after a command as before. -/
theorem Accounted.live_run (h : Accounted xs s) (c : Command) (now : Reading) (lease : LeaseId) :
    lease ∈ (c.run now s).2.leases.map (·.1) ↔
      lease ∈ granted (xs ++ [c.exchange now s]) ∧
        ∀ x ∈ xs ++ [c.exchange now s], ¬ x.Ends lease := by
  rw [granted_append, List.mem_append]
  simp only [List.forall_mem_append, List.forall_mem_singleton]
  constructor
  · intro hmem
    have hlast : ¬ (c.exchange now s).Ends lease := fun hends => hends.2 hmem
    rcases old_or_granted h.wellFormed c hmem with hold | hnew
    · obtain ⟨hgranted, hends⟩ := (h.live lease).mp hold
      exact ⟨Or.inl hgranted, hends, hlast⟩
    · refine ⟨Or.inr hnew, ?_, hlast⟩
      intro x hx hends
      exact h.not_granted_before hnew (h.known x hx lease hends)
  · rintro ⟨hold | hnew, hends, hlast⟩
    · by_contra hgone
      exact hlast ⟨(h.live lease).mpr ⟨hold, hends⟩, hgone⟩
    · exact (eq_of_mem_granted hnew).2.2

/-- As long as there are lease numbers, a command counts the leases that it grants. -/
theorem Accounted.counted_run (h : Accounted xs s) {c : Command} {now : Reading}
    (hroom : (granted (xs ++ [c.exchange now s])).length < 2 ^ 63 - 1) :
    (c.run now s).2.nextLease.toInt = 1 + (granted (xs ++ [c.exchange now s])).length := by
  have hcounted := h.counted
  rw [granted_append, List.length_append] at hroom ⊢
  rcases granted_cases c now s with ⟨hnone, hnext⟩ | ⟨hsome, hnext, _⟩
  · rw [hnone, hnext, hcounted]
    rfl
  · rw [hsome, List.length_singleton] at hroom ⊢
    rw [hnext, toInt_succ (by omega)]
    omega

/-- The numbers of the leases granted so far are used up, after a command as before. -/
theorem Accounted.used_run (h : Accounted xs s) {c : Command}
    (hnumbers : 1 ≤ (c.run now s).2.nextLease.toInt) :
    ∀ lease ∈ granted (xs ++ [c.exchange now s]),
      lease.id.toInt < (c.run now s).2.nextLease.toInt := by
  intro lease hlease
  rw [granted_append] at hlease
  rcases List.mem_append.mp hlease with hold | hnew
  · exact number_run hnumbers (h.used lease hold)
  · obtain ⟨rfl, hnext, _⟩ := eq_of_mem_granted hnew
    rw [hnext] at hnumbers ⊢
    rw [toInt_add_one hnumbers]
    exact Int.lt_succ _

/-- No lease is granted twice, after a command as before. -/
theorem Accounted.nodup_run (h : Accounted xs s) (c : Command) (now : Reading) :
    (granted (xs ++ [c.exchange now s])).Nodup := by
  rw [granted_append, List.nodup_append]
  refine ⟨h.nodup, ?_, ?_⟩
  · rcases granted_cases c now s with ⟨hnone, _⟩ | ⟨hsome, _⟩
    · rw [hnone]
      exact List.nodup_nil
    · rw [hsome]
      exact List.pairwise_singleton _ _
  · rintro lease hold _ hnew rfl
    exact h.not_granted_before hnew hold

/-- Only a lease that was granted can end, now as before. -/
theorem Accounted.known_run (h : Accounted xs s) (c : Command) (now : Reading) :
    ∀ x ∈ xs ++ [c.exchange now s], ∀ lease, x.Ends lease →
      lease ∈ granted (xs ++ [c.exchange now s]) := by
  intro x hx lease hends
  rw [granted_append]
  refine List.mem_append_left _ ?_
  rcases List.mem_append.mp hx with hx | hx
  · exact h.known x hx lease hends
  · rw [List.mem_singleton] at hx
    subst hx
    exact ((h.live lease).mp hends.1).1

/-- A command keeps a store in line with the answers, as long as there are lease numbers. -/
theorem Accounted.run (h : Accounted xs s) (c : Command) (now : Reading)
    (hroom : (granted (xs ++ [c.exchange now s])).length < 2 ^ 63 - 1) :
    Accounted (xs ++ [c.exchange now s]) (c.run now s).2 := by
  have hcounted := h.counted_run hroom
  have hnumbers : 1 ≤ (c.run now s).2.nextLease.toInt := by omega
  exact
    { wellFormed := h.wellFormed.run c now hnumbers
      counted := hcounted
      used := h.used_run hnumbers
      nodup := h.nodup_run c now
      known := h.known_run c now
      live := h.live_run c now
      held := h.held_run c now }

theorem length_granted_le (xs ys : List Exchange) :
    (granted xs).length ≤ (granted (xs ++ ys)).length := by
  rw [granted_append, List.length_append]
  exact Nat.le_add_right _ _

/-- Every run that does not use the lease numbers up leaves a store in line with its answers. -/
theorem accounted_after {cmds : List (Reading × Command)}
    (hroom : (granted (history cmds)).length < 2 ^ 63 - 1) :
    Accounted (history cmds) (after cmds) := by
  refine after_induction (P := fun xs s => (granted xs).length < 2 ^ 63 - 1 → Accounted xs s)
    (fun _ => Accounted.empty) ?_ cmds hroom
  intro xs s c now ih hroom
  exact (ih (Nat.lt_of_le_of_lt (length_granted_le _ _) hroom)).run c now hroom

/-! ## Dropping leases -/

/-- A store without some leases, and without the keys that were last written under one of them. -/
def less (xs : List Exchange) (gone : List LeaseId) (s : MemoryStore) : MemoryStore :=
  { s with
    entries := s.entries.filter fun e => (lastLease xs e.1).all fun lease => !gone.contains lease
    leases := s.leases.filter fun l => !gone.contains l.1 }

/-- When several leases are dropped, the keys that go are those last written under one of them. -/
theorem Accounted.dropLeases (h : Accounted xs s) (gone : List LeaseId) :
    gone.foldl (fun s lease => (s.dropLease lease).2) s = s.less xs gone := by
  rw [foldl_dropLease, less]
  congr 1
  apply List.filter_congr
  intro e he
  rw [h.held e he]

theorem Accounted.dropLease (h : Accounted xs s) (lease : LeaseId) :
    (s.dropLease lease).2 = s.less xs [lease] :=
  h.dropLeases [lease]

/-- When a store purges, the keys that go are those last written under a lapsed lease. -/
theorem Accounted.purge (h : Accounted xs s) (now : Reading) :
    s.purge now = s.less xs (s.lapsed now) :=
  h.dropLeases (s.lapsed now)

/-- A revocation takes the keys last written under the lease, unless it is made to fail. -/
theorem Accounted.revoke (h : Accounted xs s) (lease : LeaseId) :
    (s.revoke lease).2 = if .revoke ∈ s.faults then s else s.less xs [lease] := by
  simp only [MemoryStore.revoke, guarded, List.contains_iff_mem, ← h.dropLease]
  split <;> rfl

/-! ## The whole run -/

/-- Leases and keys go together, in a store to which some things have happened. -/
structure Consistent (xs : List Exchange) (s : MemoryStore) : Prop where
  /-- No key is bound to a lease that is not there. -/
  bound : ∀ e ∈ s.entries, ∀ lease, e.2.lease = some lease → lease ∈ s.leases.map (·.1)
  /-- The numbers of the leases count from one, and the next one is still to come. -/
  numbered : ∀ l ∈ s.leases, 1 ≤ l.1.id.toInt ∧ l.1.id.toInt < s.nextLease.toInt
  /-- No lease was granted twice. -/
  nodup : (granted xs).Nodup
  /-- The leases are those that were granted and that nothing has ended since: none comes back. -/
  live : ∀ lease, lease ∈ s.leases.map (·.1) ↔ lease ∈ granted xs ∧ ∀ x ∈ xs, ¬ x.Ends lease
  /-- Together with a lease, the keys last written under it are dropped, and nothing else. -/
  expire : ∀ lease, (s.expireLease lease).2 = s.less xs [lease]
  revoke : ∀ lease, (s.revoke lease).2 = if .revoke ∈ s.faults then s else s.less xs [lease]
  purge : ∀ now, s.purge now = s.less xs (s.lapsed now)
  /-- A key stays, with its value, until a command names it or it loses its lease. -/
  key : ∀ (c : Command) (now : Reading), ∀ e ∈ s.entries, c.key? ≠ some e.1 →
    (∀ lease, lastLease xs e.1 = some lease → lease ∈ (c.run now s).2.leases.map (·.1)) →
      e ∈ (c.run now s).2.entries
  /-- A lease stays, with its deadline, until it is extended or ended by its number, or lapses. -/
  lease : ∀ (c : Command) (now : Reading), ∀ l ∈ s.leases,
    c.extended? (c.run now s).1 ≠ some l.1 → c.dropped? (c.run now s).1 ≠ some l.1 →
      l.2.lapsed now = false → l ∈ (c.run now s).2.leases

/-- In a store that is what its history says, leases and keys go together. -/
theorem Accounted.consistent (h : Accounted xs s) : Consistent xs s where
  bound := h.wellFormed.bound
  numbered := h.wellFormed.numbered
  nodup := h.nodup
  live := h.live
  expire := h.dropLease
  revoke := h.revoke
  purge := h.purge
  key := by
    intro c now e he hc halive
    rw [← h.held e he] at halive
    exact kept_entry_run h.wellFormed he hc halive
  lease := fun _ _ _ => kept_lease_run h.wellFormed

/-- Whatever commands a store is given, and whatever the clock shows meanwhile: as long as there
are lease numbers left, its leases and its keys go together. -/
theorem consistent_after {cmds : List (Reading × Command)}
    (hgrants : (granted (history cmds)).length < 2 ^ 63 - 1) :
    Consistent (history cmds) (after cmds) :=
  (accounted_after hgrants).consistent

/-- Two leases; a key moves from one to the other, a second one loses its lease, a third one is
deleted and written again. The clock goes back in the end. -/
def moved : List (Reading × Command) :=
  [(5, .grant 1), (5, .grant 9), (6, .putLeased "a" [1] ⟨1⟩), (6, .putLeased "b" [2] ⟨1⟩),
    (7, .putLeased "c" [3] ⟨1⟩), (7, .putLeased "a" [4] ⟨2⟩), (8, .put "b" [5]),
    (8, .delete "c"), (9, .putLeased "c" [6] ⟨1⟩), (3, .revoke ⟨1⟩), (2, .grant 4)]

/-- The run in which keys move between leases meets the condition. With the first lease goes the
one key that was last written under it. -/
theorem consistent_after_moved :
    Consistent (history moved) (after moved) ∧
      (after moved).entries.map (fun e => (e.1, e.2.lease)) = [("a", some ⟨2⟩), ("b", none)] :=
  ⟨consistent_after (by decide +kernel), by decide +kernel⟩

end MemoryStore
end ServiceDiscovery
