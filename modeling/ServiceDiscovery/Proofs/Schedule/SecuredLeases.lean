import ServiceDiscovery.Proofs.Schedule.Timing

/-!
# Leases that are secured

As long as the surroundings are calm, the store grants, writes and renews on demand,
and a lease that was renewed lasts for all of its seconds. No command shortens it,
except one that drops it by name.

Main results:

- Definitions {lit}`Environment.Calm` and {lit}`Environment.Serving`: the clock runs
  along, and the store answers everything, or renewals at least.
- Definition {lit}`Attempt.Secured`: the store holds a lease that was renewed no
  earlier than at some millisecond.
- Theorem {lit}`Attempt.Secured.run`: a lease stays secured until it lapses.
- Theorem {lit}`Attempt.Secured.taken`: what is taken from a stream in time secures
  the lease afresh.
-/

namespace ServiceDiscovery

/-! ## Calm surroundings -/

/-- An environment with a clock that runs along, and a store that answers grants, writes and
renewals without a fault. -/
structure Environment.Calm (origin : Reading) (env : Environment) : Prop where
  clock : env.clock = .running origin
  reachable : env.reachable = true
  renewalPeriod : env.renewalPeriod = none
  script : env.script = none
  store : env.store.Reachable
  faults : ∀ op ∈ env.store.faults, op = .get ∨ op = .revoke

/-- An environment with a clock that runs along, and a store that answers renewals without a
fault. -/
structure Environment.Serving (origin : Reading) (env : Environment) : Prop where
  clock : env.clock = .running origin
  reachable : env.reachable = true
  renewalPeriod : env.renewalPeriod = none
  script : env.script = none
  store : env.store.WellFormed
  renewals : Operation.keepAlive ∉ env.store.faults

/-- A store that answers without a fault serves renewals. -/
theorem Environment.Calm.serving {origin : Reading} {env : Environment} (h : env.Calm origin) :
    env.Serving origin := by
  refine ⟨h.clock, h.reachable, h.renewalPeriod, h.script, h.store.wellFormed, ?_⟩
  intro hfault
  rcases h.faults _ hfault with heq | heq <;> cases heq

namespace Attempt

variable {origin : Reading} {terms : Terms} {lease : LeaseId} {since : Nat}
  {env env' : Environment}

/-! ## Leases in time -/

/-- No deadline overflows so far. -/
def Fits (origin : Reading) (terms : Terms) (time : Nat) : Prop :=
  origin.toNat + time * 1000000 + terms.seconds * 1000000000 < 2 ^ 64

instance (time : Nat) : Decidable (Fits origin terms time) :=
  inferInstanceAs (Decidable (_ < _))

/-- What does not overflow later does not overflow now. -/
theorem Fits.earlier {time later : Nat} (h : Fits origin terms later) (hle : time ≤ later) :
    Fits origin terms time := by
  have hmillis : time * 1000000 ≤ later * 1000000 := Nat.mul_le_mul_right 1000000 hle
  exact Nat.lt_of_le_of_lt (Nat.add_le_add_right (Nat.add_le_add_left hmillis _) _) h

/-- The seconds of a lease fit into a word, if its deadline does. -/
theorem Fits.seconds {time : Nat} (h : Fits origin terms time) :
    terms.seconds * 1000000000 < 2 ^ 64 := by
  unfold Fits at h
  omega

/-- As long as no deadline overflows, the clock shows the time. -/
theorem Fits.now (h : Fits origin terms env.time) (hclock : env.clock = .running origin) :
    env.now.toNat = origin.toNat + env.time * 1000000 := by
  unfold Fits at h
  exact Environment.now_toNat hclock (by omega)

/-- A lease that is granted or renewed now lasts for its seconds from now on. -/
theorem Fits.deadline (h : Fits origin terms env.time) (hclock : env.clock = .running origin) :
    (Lease.granted terms.ttl env.now).deadline.toNat =
      origin.toNat + env.time * 1000000 + terms.seconds * 1000000000 := by
  have hnow := h.now hclock
  rw [← hnow]
  refine Terms.deadline_granted ?_
  rw [hnow]
  exact h

/-- The store holds a lease that was granted or renewed no earlier than at some millisecond. -/
def Secured (origin : Reading) (terms : Terms) (lease : LeaseId) (since : Nat)
    (s : MemoryStore) : Prop :=
  ∃ held, (lease, held) ∈ s.leases ∧ held.ttl = terms.ttl ∧
    origin.toNat + since * 1000000 + terms.seconds * 1000000000 ≤ held.deadline.toNat

/-- Such a lease is live until its seconds have passed. -/
theorem Secured.live (h : Secured origin terms lease since env.store)
    (hclock : env.clock = .running origin) (hfit : Fits origin terms env.time)
    (htime : env.time < since + 1000 * terms.seconds) :
    ∃ held, (lease, held) ∈ env.store.leases ∧ held.ttl = terms.ttl ∧
      held.lapsed env.now = false := by
  obtain ⟨held, hmem, httl, hdeadline⟩ := h
  refine ⟨held, hmem, httl, ?_⟩
  rw [Lease.lapsed, decide_eq_false_iff_not, UInt64.not_le, UInt64.lt_iff_toNat_lt,
    hfit.now hclock]
  omega

/-- A lease that is granted or renewed now is secured from now on. -/
theorem Secured.granted {s : MemoryStore} (hclock : env.clock = .running origin)
    (hfit : Fits origin terms env.time)
    (hmem : (lease, Lease.granted terms.ttl env.now) ∈ s.leases) :
    Secured origin terms lease env.time s := by
  exact ⟨_, hmem, Lease.granted_ttl _ _, Nat.le_of_eq (hfit.deadline hclock).symm⟩

/-- A lease stays secured whatever command is given, unless it is dropped by name. -/
theorem Secured.run (h : Secured origin terms lease since env.store)
    (hserving : env.Serving origin) (hfit : Fits origin terms env.time) (hsince : since ≤ env.time)
    (htime : env.time < since + 1000 * terms.seconds) {c : MemoryStore.Command}
    (hrevoke : c ≠ .revoke lease) (hexpire : c ≠ .expireLease lease) :
    Secured origin terms lease since (c.run env.now env.store).2 := by
  obtain ⟨held, hmem, httl, hdeadline⟩ := h
  obtain ⟨held', hmem', _, hlive⟩ :=
    Secured.live ⟨held, hmem, httl, hdeadline⟩ hserving.clock hfit htime
  have hsame := MemoryStore.eq_of_mem_leases hserving.store.distinct hmem hmem'
  subst hsame
  rcases MemoryStore.kept_run hserving.store hmem hlive hrevoke hexpire with hkept | hrenewed
  · exact ⟨held, hkept, httl, hdeadline⟩
  · refine ⟨_, hrenewed, ?_, ?_⟩
    · rw [Lease.granted_ttl, httl]
    · rw [httl, hfit.deadline hserving.clock]
      omega

/-! ## Answers in calm surroundings -/

/-- Only scans and releases can fail in a calm environment. -/
theorem Calm.unfaulty (h : env.Calm origin) (op : Operation) (hget : op ≠ .get)
    (hrevoke : op ≠ .revoke) : env.store.faults.contains op = false := by
  rw [← Bool.not_eq_true, List.contains_iff_mem]
  intro hmem
  rcases h.faults op hmem with rfl | rfl
  · exact hget rfl
  · exact hrevoke rfl

/-- A lease is granted on demand. -/
theorem Calm.grant (h : env.Calm origin) (hpos : 0 < terms.ttl) :
    env.grant terms.ttl = (.ok ⟨env.store.nextLease⟩, { env with
      store := { env.store with
        nextLease := env.store.nextLease + 1
        leases := env.store.leases ++
          [(⟨env.store.nextLease⟩, Lease.granted terms.ttl env.now)] } }) := by
  have hfault := Calm.unfaulty h .grant nofun nofun
  have httl : ¬ terms.ttl ≤ 0 := Int64.not_le.mpr hpos
  rw [Environment.grant, Environment.ask_of_reachable h.reachable]
  rw [MemoryStore.grant, MemoryStore.guarded, hfault, if_neg Bool.false_ne_true, if_neg httl]

/-- Under a live lease a write succeeds. -/
theorem Calm.put (h : env.Calm origin) {held : Lease} (hmem : (lease, held) ∈ env.store.leases)
    (hlive : held.lapsed env.now = false) (key : String) (value : Bytes) :
    (env.put key value lease).1 = .ok () := by
  have hfault := Calm.unfaulty h .put nofun nofun
  have hlookup := MemoryStore.lookup_purge h.store.wellFormed hmem hlive
  rw [Environment.put, Environment.ask_of_reachable h.reachable]
  rw [MemoryStore.putLeased, MemoryStore.guarded, hfault, if_neg Bool.false_ne_true]
  simp only [hlookup, Option.isSome_some, if_true]

theorem Calm.sameSetting (h : env.Calm origin) (hsame : env.SameSetting env')
    (hstore : env'.store.Reachable)
    (hfaults : ∀ op ∈ env'.store.faults, op = .get ∨ op = .revoke) : env'.Calm origin :=
  ⟨hsame.clock.trans h.clock, hsame.reachable.trans h.reachable,
    hsame.renewalPeriod.trans h.renewalPeriod, hsame.script.trans h.script, hstore, hfaults⟩

/-! ## Renewals -/

theorem Serving.sameSetting (h : env.Serving origin) (hsame : env.SameSetting env')
    (hstore : env'.store.WellFormed) (hrenewals : Operation.keepAlive ∉ env'.store.faults) :
    env'.Serving origin :=
  ⟨hsame.clock.trans h.clock, hsame.reachable.trans h.reachable,
    hsame.renewalPeriod.trans h.renewalPeriod, hsame.script.trans h.script, hstore, hrenewals⟩

/-- A live lease is renewed. -/
theorem Serving.renew (h : env.Serving origin) {held : Lease}
    (hmem : (lease, held) ∈ env.store.leases) (hlive : held.lapsed env.now = false) :
    ∃ s, env.store.renew env.now lease = (.ok (some held.ttl), s) ∧
      (lease, Lease.granted held.ttl env.now) ∈ s.leases := by
  have hfault : env.store.faults.contains .keepAlive = false := by
    rw [← Bool.not_eq_true, List.contains_iff_mem]
    exact h.renewals
  have hlookup := MemoryStore.lookup_purge h.store hmem hlive
  refine ⟨_, MemoryStore.renew_of_some hfault hlookup, ?_⟩
  have hpurge := (MemoryStore.mem_leases_purge h.store).mpr ⟨hmem, hlive⟩
  refine List.mem_map.mpr ⟨(lease, held), hpurge, ?_⟩
  rw [MemoryStore.renewed, if_pos rfl]

/-- Without a script, keeping a lease alive is renewing it. -/
theorem Serving.openStream (h : env.Serving origin) (lease : LeaseId) :
    env.keepAlive lease = env.openStream lease := by
  unfold Environment.keepAlive
  rw [h.script]

/-- A live lease is kept alive. -/
theorem Serving.keepAlive (h : env.Serving origin) {held : Lease}
    (hmem : (lease, held) ∈ env.store.leases) (hlive : held.lapsed env.now = false) :
    ∃ s, env.keepAlive lease =
        (.ok (AckStream.renewals env.time none lease held.ttl), { env with store := s }) ∧
      (lease, Lease.granted held.ttl env.now) ∈ s.leases := by
  obtain ⟨s, hrenew, hmem'⟩ := Serving.renew h hmem hlive
  refine ⟨s, ?_, hmem'⟩
  rw [Serving.openStream h]
  simp only [Environment.openStream, Environment.ask_of_reachable h.reachable, hrenew,
    h.renewalPeriod, AckStream.opening]

/-- What a held registration takes from its stream while its lease lasts is an acknowledgement,
and it secures the lease afresh. -/
theorem Secured.taken (h : Secured origin terms lease since env.store)
    (hserving : env.Serving origin) (hfit : Fits origin terms env.time)
    (htime : env.time < since + 1000 * terms.seconds) {ticker : Ticker} {item : AckItem}
    {acks : AckStream} (htake : env.takeAck (.renewing lease ticker) = ((item, acks), env')) :
    item = .renewed ⟨lease, terms.ttl⟩ ∧ acks = .renewing lease (ticker.take env.time) ∧
      Secured origin terms lease env.time env'.store := by
  obtain ⟨held, hmem, httl, hlive⟩ := h.live hserving.clock hfit htime
  obtain ⟨s, hrenew, hrenewed⟩ := Serving.renew hserving hmem hlive
  rw [httl] at hrenew hrenewed
  have htaken : env.takeAck (.renewing lease ticker) =
      ((.renewed ⟨lease, terms.ttl⟩, .renewing lease (ticker.take env.time)),
        { env with store := s }) := by
    simp only [Environment.takeAck, AckStream.take, hrenew, AckStream.afterRenewal]
  rw [htaken] at htake
  obtain ⟨hanswer, rfl⟩ := Prod.mk.inj htake
  obtain ⟨rfl, rfl⟩ := Prod.mk.inj hanswer
  exact ⟨rfl, rfl, Secured.granted hserving.clock hfit hrenewed⟩

end Attempt
end ServiceDiscovery
