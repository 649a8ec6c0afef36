import ServiceDiscovery.Proofs.Schedule.Publications
import ServiceDiscovery.Proofs.Store.Matching

/-!
# What an attempt leaves behind

A registration attempt, next to the store that the others would have without it. The
others do the same in both, under lease numbers of their own. Once the attempt is
over, the two stores are the same again.

Main results:

- Definition {lit}`Twin`: an attempt among others, and their store without it.
- Theorem {lit}`Attempt.Tending.turn`: what an attempt does to the store, it does with
  its own lease.
- Theorem {lit}`Twin.no_residue`: an attempt that is over has left nothing behind and
  has taken nothing away, as far as lapsed leases do not matter.
- Theorem {lit}`Twin.purged_early`: lapsed leases are gone earlier than without the
  attempt, which a clock that goes back brings to light.
-/

namespace ServiceDiscovery

open MemoryStore (Command numbering Matches)

namespace Attempt

/-! ## An attempt and its lease -/

/-- The lease that an attempt was granted, if it has got so far. -/
def Stage.owning (own : Option LeaseId) (stage : Stage) : Option LeaseId :=
  (stage.holding?.map (·.lease)).or own

/-- What an attempt knows of its key and its lease in each of its stages. -/
inductive Tending (key : String) (s : MemoryStore) : Option LeaseId → Stage → Prop where
  | unstarted (d : Descriptor) : Tending key s none (.unstarted d)
  | granting (plan : Registration.Plan) (call : Call) : Tending key s none (.granting plan call)
  | publishing {plan : Registration.Plan} {lease : LeaseId} {call : Call} (hkey : plan.key = key) :
      Tending key s (some lease) (.publishing plan lease call)
  | opening (plan : Registration.Plan) (lease : LeaseId) (call : Call) :
      Tending key s (some lease) (.opening plan lease call)
  | held {plan : Registration.Plan} {lease : LeaseId} {hold : Hold}
      (hacks : Supervision.RenewsOnly lease hold.acks) :
      Tending key s (some lease) (.held plan lease hold)
  | refreshing {plan : Registration.Plan} {lease : LeaseId} {call : Call} {hold : Hold}
      (hacks : Supervision.RenewsOnly lease hold.acks) :
      Tending key s (some lease) (.refreshing plan lease call hold)
  | releasing {plan : Registration.Plan} {lease : LeaseId} {cause : Option Failure} {call : Call}
      {hold : Option Hold} (hcall : call.isAnswered = true) :
      Tending key s (some lease) (.releasing plan lease cause call hold)
  | finished {own : Option LeaseId} (failure : Option Failure)
      (hgone : ∀ lease ∈ own, lease ∉ s.leases.map (·.1)) : Tending key s own (.finished failure)

/-- What an attempt does to a store: nothing, or something about its own lease, which it has been
granted before or is granted just now. -/
inductive Upkeep (key : String) (now : Reading) (s s' : MemoryStore) :
    Option LeaseId → Option LeaseId → Prop where
  | none (own : Option LeaseId) (hsame : s' = s) : Upkeep key now s s' own own
  | tend {lease : LeaseId} {c : Command} (hc : c.Tends key lease) (hrun : s' = (c.run now s).2) :
      Upkeep key now s s' (some lease) (some lease)
  | grant {lease : LeaseId} {ttl : Int64} (hgrant : (s.grant now ttl).1 = .ok lease)
      (hrun : s' = (s.grant now ttl).2) : Upkeep key now s s' none (some lease)

variable {key : String} {s s' : MemoryStore} {now : Reading} {own : Option LeaseId}
  {stage stage' : Stage} {lease : LeaseId}

theorem Tending.inOrder (h : Tending key s own stage) : stage.InOrder := by
  cases h <;> constructor

theorem Tending.owning (h : Tending key s own stage) : stage.owning own = own := by
  cases h <;> rfl

/-- The lease of an attempt that is over is gone. -/
theorem Tending.gone (h : Tending key s own stage) {failure : Option Failure}
    (hover : stage = .finished failure) : ∀ lease ∈ own, lease ∉ s.leases.map (·.1) := by
  cases h with
  | finished _ hgone => exact hgone
  | unstarted | granting => exact nofun
  | publishing | opening | held | refreshing | releasing => cases hover

/-- The commands of a stage concern the lease of the attempt. -/
theorem Tending.commands (h : Tending key s (some lease) stage) {c : Command}
    (hc : stage.Commands c) : c.Tends key lease := by
  cases h with
  | publishing hkey =>
      cases hc
      rw [hkey]
      exact .putLeased _
  | opening plan lease call =>
      cases hc
      exact .renew
  | held hacks =>
      cases hc with
      | held plan lease hrenewing =>
          rw [hacks _ _ hrenewing]
          exact .renew
  | refreshing hacks =>
      cases hc
      exact .scan _
  | releasing hcall =>
      cases hc
      exact .revoke
  | finished failure hgone => cases hc

/-- What an attempt knows stays true, whatever is done to the store. -/
theorem Tending.run (h : Tending key s own stage) (hs : s.WellFormed)
    (hnumber : ∀ lease ∈ own, lease.id.toInt < s.nextLease.toInt) (c : Command) :
    Tending key (c.run now s).2 own stage := by
  cases h with
  | unstarted d => exact .unstarted d
  | granting plan call => exact .granting plan call
  | publishing hkey => exact .publishing hkey
  | opening plan lease call => exact .opening plan lease call
  | held hacks => exact .held hacks
  | refreshing hacks => exact .refreshing hacks
  | releasing hcall => exact .releasing hcall
  | finished failure hgone =>
      refine .finished failure fun lease hlease => ?_
      exact MemoryStore.not_mem_leases_run hs (hgone lease hlease) (hnumber lease hlease) c

/-- A grant that fails, or that is given up, changes nothing. -/
theorem store_of_ungranted {terms : Terms} {call : Call} {env env' : Environment} {ttl : Int64}
    {failure : Failure} (hreach : env.reachable = true)
    (h : conclusion terms call .grant env (env.grant ttl) = (.error failure, env')) :
    env'.store = env.store := by
  unfold conclusion at h
  split at h
  · rw [Environment.grant, Environment.ask_of_reachable hreach] at h
    obtain ⟨hfail, rfl⟩ := Prod.mk.inj h
    exact MemoryStore.failed_grant hfail
  · rw [← (Prod.mk.inj h).2]

/-- Whatever an attempt does to the store, it does about its own lease. -/
theorem Tending.turn {a : Attempt} {env env' : Environment} (hreach : env.reachable = true)
    (hrevoke : Operation.revoke ∉ env.store.faults) (h : Tending key env.store own stage)
    (hturn : Turn a env stage stage' env') (hkey : ∀ p ∈ stage'.holding?, p.key = key)
    (hprompt : stage'.releasesInTime = true) (hkept : stage.lost env' stage' = []) :
    Upkeep key env.now env.store env'.store own (stage'.owning own) ∧
      Tending key env'.store (stage'.owning own) stage' := by
  have htend {lease : LeaseId} (h : Tending key env.store (some lease) stage) :
      Upkeep key env.now env.store env'.store (some lease) (some lease) := by
    rcases hturn.store_cases with hsame | ⟨c, hc, hrun⟩
    · exact .none _ hsame
    · exact .tend (h.commands hc) hrun
  cases hturn with
  | refused hplan =>
      cases h
      exact ⟨.none _ rfl, .finished _ nofun⟩
  | stopped notes hplan hcancel =>
      cases h
      exact ⟨.none _ rfl, .finished _ nofun⟩
  | begun hplan hcancel =>
      cases h
      exact ⟨.none _ rfl, .granting _ _⟩
  | ungranted notes hover hresult =>
      cases h
      have hsame := store_of_ungranted hreach hresult
      exact ⟨.none _ hsame, .finished _ nofun⟩
  | @granted plan call lease env'' notes hover hresult =>
      cases h
      have hanswer := answer_of_conclusion hresult
      rw [Environment.grant, Environment.ask_of_reachable hreach] at hanswer
      obtain ⟨hgrant, rfl⟩ := Prod.mk.inj hanswer
      exact ⟨.grant hgrant rfl, .publishing (hkey _ rfl)⟩
  | unpublished notes hover hresult =>
      cases h with
      | publishing hplan => exact ⟨htend (.publishing hplan), .releasing hprompt⟩
  | published notes hover hresult =>
      cases h with
      | publishing hplan => exact ⟨htend (.publishing hplan), .opening _ _ _⟩
  | unopened notes hover hresult =>
      cases h with
      | opening => exact ⟨htend (.opening _ _ _), .releasing hprompt⟩
  | opened notes hover hresult =>
      cases h with
      | opening =>
          have honly := Supervision.renewsOnly_of_keepAlive (answer_of_conclusion hresult)
          exact ⟨htend (.opening _ _ _), .held honly⟩
  | cancelled notes hcancel =>
      cases h with
      | held hacks => exact ⟨htend (.held hacks), .releasing hprompt⟩
  | renewed notes hdue htake httl =>
      cases h with
      | held hacks =>
          exact ⟨htend (.held hacks), .held (Supervision.renewsOnly_of_takeAck hacks htake)⟩
  | @lost plan lease hold item acks env'' reason notes hdue htake hitem =>
      cases h with
      | held hacks =>
          refine ⟨htend (.held hacks), .finished _ ?_⟩
          rintro _ ⟨⟩ hmem
          -- A lease that the store still has would be on the list of losses.
          have hthere := MemoryStore.lookup_isSome_iff.mpr hmem
          have hlost : Stage.lost (env''.say notes) (.held plan lease hold)
              (.finished (some (.leaseLost reason))) = [⟨lease, plan.ttl, env''.now⟩] :=
            if_pos hthere
          rw [hlost] at hkept
          cases hkept
  | ticked notes hacks hdue =>
      cases h with
      | held hrenews => exact ⟨htend (.held hrenews), .refreshing hrenews⟩
  | refreshed notes hover hresult =>
      cases h with
      | refreshing hacks => exact ⟨htend (.refreshing hacks), .held hacks⟩
  | @released plan lease cause call hold env'' notes hover hresult =>
      cases h with
      | releasing hanswered =>
          refine ⟨htend (.releasing hanswered), .finished _ ?_⟩
          rintro _ ⟨⟩
          have hgone : lease ∉ (conclusion a.terms call .revoke env
            (env.revoke lease)).2.store.leases.map (·.1) :=
            Supervision.gone_of_release hreach hrevoke hanswered
          rw [← hresult] at hgone
          exact hgone

section

variable {own' : Option LeaseId} {t : MemoryStore}

theorem Upkeep.taken (h : Upkeep key now s s' own own')
    (hnumbers : 1 ≤ s'.nextLease.toInt)
    (htaken : ∀ lease ∈ own, lease.id.toInt < s.nextLease.toInt) :
    ∀ lease ∈ own', lease.id.toInt < s'.nextLease.toInt := by
  cases h with
  | none own hsame =>
      rw [hsame]
      exact htaken
  | tend hc hrun =>
      subst hrun
      rintro _ ⟨⟩
      exact MemoryStore.number_run hnumbers (htaken _ rfl)
  | grant hgrant hrun =>
      subst hrun
      rintro _ ⟨⟩
      exact MemoryStore.number_of_grant hgrant hnumbers

/-- Whoever tends a lease binds nothing to another one. -/
theorem lease_of_written {c : Command} (hc : c.Tends key lease) {answer : MemoryStore.Answer}
    {w : String × Option LeaseId} (h : c.written? answer = some w) : w.2 = some lease := by
  cases hc with
  | putLeased value =>
      unfold Command.written? at h
      split at h
      · rename_i heq
        cases heq
      · rename_i heq
        cases heq
        cases h
        rfl
      · cases h
  | renew | scan | revoke => cases h

theorem Upkeep.bound (h : Upkeep key now s s' own own') (hs : s.WellFormed)
    (hbound : ∀ e ∈ s.entries, e.1 = key → ∃ lease ∈ own, e.2.lease = some lease) :
    ∀ e ∈ s'.entries, e.1 = key → ∃ lease ∈ own', e.2.lease = some lease := by
  intro e he hkey
  cases h with
  | none own hsame =>
      rw [hsame] at he
      exact hbound e he hkey
  | tend hc hrun =>
      rw [hrun] at he
      rcases MemoryStore.mem_entries_run hs he with hwritten | ⟨hold, _⟩
      · exact ⟨_, rfl, lease_of_written hc hwritten⟩
      · exact hbound e hold hkey
  | @grant lease ttl hgrant hrun =>
      rw [hrun] at he
      rcases MemoryStore.mem_entries_run (c := .grant ttl) hs he with hwritten | ⟨hold, _⟩
      · cases hwritten
      · obtain ⟨_, hnone, _⟩ := hbound e hold hkey
        cases hnone

theorem Upkeep.matched (h : Upkeep key now s s' own own') (hs : s.WellFormed)
    (hbound : ∀ e ∈ s.entries, e.1 = key → ∃ lease ∈ own, e.2.lease = some lease)
    (hnumbers : 1 ≤ s'.nextLease.toInt) (hmatches : Matches now own s t) :
    Matches now own' s' t := by
  cases h with
  | none own hsame =>
      rw [hsame]
      exact hmatches
  | tend hc hrun =>
      subst hrun
      refine hmatches.tend hs ?_ hc hnumbers
      intro e he hkey
      obtain ⟨_, ⟨⟩, hlease⟩ := hbound e he hkey
      exact hlease
  | grant hgrant hrun =>
      subst hrun
      exact hmatches.grant hs hgrant hnumbers

end

end Attempt

/-! ## With an attempt and without it -/

/-- What others do, under other lease numbers. -/
def Meddling.renumber (g : LeaseId → LeaseId) : Meddling → Meddling
  | .command c => .command (c.renumber g)
  | m => m

/-- A store at some reading, after others have done something. -/
def Meddling.alone (m : Meddling) (now : Reading) (s : MemoryStore) : MemoryStore :=
  match m with
  | .command c => (c.run now s).2
  | _ => s

/-- Others write nothing under a key, bind nothing to a lease, and do not make releases fail. -/
def Meddling.Respects (key : String) (own : Option LeaseId) (env : Environment) : Meddling → Prop
  | .command c =>
    Operation.revoke ∉ (c.run env.now env.store).2.faults ∧
      ∀ w ∈ c.written? (c.run env.now env.store).1, w.1 ≠ key ∧ ∀ lease ∈ own, w.2 ≠ some lease
  | _ => True

/-- An attempt among others, next to the store that the others would have without it. -/
structure Twin where
  attempt : Attempt
  env : Environment
  /-- The store as it would be without the attempt. -/
  bare : MemoryStore
  /-- The lease that the attempt was granted. -/
  own : Option LeaseId
  /-- The clock has not gone back so far. -/
  steady : Bool

namespace Twin

/-- An attempt that has not begun. -/
def beginning (terms : Terms) (d : Descriptor) (env : Environment) : Twin :=
  ⟨.unstarted terms d, env, env.store, none, true⟩

/-- A step of the attempt, which the other store knows nothing of. -/
def stepped (x : Twin) (b : Attempt) (env : Environment) : Twin :=
  ⟨b, env, x.bare, b.stage.owning x.own, x.steady && decide (x.env.now ≤ env.now)⟩

/-- Others do the same to both stores, each under its own lease numbers. -/
def meddled (x : Twin) (m : Meddling) : Twin :=
  let env := (m.renumber (numbering x.own)).act x.env
  ⟨x.attempt, env, m.alone x.env.now x.bare, x.own, x.steady && decide (x.env.now ≤ env.now)⟩

/-- Runs of an attempt with a given key among others, with what the others would have without it:
no release is given up or made to fail, no registration is lost while its lease is there, the
others leave the key and the lease to the attempt, and lease numbers last. -/
inductive Run (key : String) (x₀ : Twin) : Twin → Prop where
  | begin : Run key x₀ x₀
  | own {x : Twin} {b : Attempt} {env : Environment} (run : Run key x₀ x)
      (step : OpenStep Attempt.moves Attempt.dueAt (fun _ _ => False) x.attempt x.env b env)
      (named : ∀ p ∈ b.stage.holding?, p.key = key) (prompt : b.stage.releasesInTime = true)
      (kept : x.attempt.stage.lost env b.stage = []) (numbers : 1 ≤ env.store.nextLease.toInt) :
      Run key x₀ (x.stepped b env)
  | others {x : Twin} (m : Meddling) (run : Run key x₀ x)
      (respects : (m.renumber (numbering x.own)).Respects key x.own x.env)
      (numbers : 1 ≤ (x.meddled m).env.store.nextLease.toInt) : Run key x₀ (x.meddled m)

variable {key : String} {x x₀ : Twin}

/-! ## Every step -/

/-- The invariant of an attempt with a given key: whatever is stored under the key is bound to the
attempt's own lease, and while the clock does not go back, nothing else makes a difference. -/
structure Tended (key : String) (x : Twin) : Prop where
  reachable : x.env.reachable = true
  store : x.env.store.Reachable
  revokes : Operation.revoke ∉ x.env.store.faults
  taken : ∀ lease ∈ x.own, lease.id.toInt < x.env.store.nextLease.toInt
  bound : ∀ e ∈ x.env.store.entries, e.1 = key → ∃ lease ∈ x.own, e.2.lease = some lease
  tending : Attempt.Tending key x.env.store x.own x.attempt.stage
  matched : x.steady = true → Matches x.env.now x.own x.env.store x.bare

/-- Where nothing happens to the stores, time may pass. -/
theorem Tended.idle (h : Tended key x) {y : Twin} (hstage : y.attempt.stage = x.attempt.stage)
    (hstore : y.env.store = x.env.store) (hreach : y.env.reachable = x.env.reachable)
    (hbare : y.bare = x.bare) (hown : y.own = x.own)
    (hsteady : y.steady = (x.steady && decide (x.env.now ≤ y.env.now))) : Tended key y where
  reachable := hreach.trans h.reachable
  store := hstore ▸ h.store
  revokes := hstore ▸ h.revokes
  taken := by
    rw [hown, hstore]
    exact h.taken
  bound := by
    rw [hown, hstore]
    exact h.bound
  tending := by
    rw [hown, hstore, hstage]
    exact h.tending
  matched := by
    intro hy
    rw [hsteady, Bool.and_eq_true, decide_eq_true_eq] at hy
    rw [hown, hstore, hbare]
    exact (h.matched hy.1).later hy.2

/-- The steps of the attempt keep the rest as it is. -/
theorem Tended.step (h : Tended key x) {b : Attempt} {env : Environment}
    (hstep : OpenStep Attempt.moves Attempt.dueAt (fun _ _ => False) x.attempt x.env b env)
    (hnamed : ∀ p ∈ b.stage.holding?, p.key = key) (hprompt : b.stage.releasesInTime = true)
    (hkept : x.attempt.stage.lost env b.stage = []) (hnumbers : 1 ≤ env.store.nextLease.toInt) :
    Tended key (x.stepped b env) := by
  cases hstep with
  | move hmove =>
      rcases Attempt.moves_cases h.tending.inOrder hmove with ⟨rfl, rfl, _⟩ | ⟨stage, hturn, rfl⟩
      · exact h.idle rfl rfl rfl rfl h.tending.owning rfl
      · -- A turn takes no time, so what has lapsed before it is all that has lapsed after it.
        have hs := h.store.wellFormed
        obtain ⟨hupkeep, htending⟩ :=
          h.tending.turn h.reachable h.revokes hturn hnamed hprompt hkept
        obtain ⟨hstore, hfaults⟩ := hturn.store_spec h.store hnumbers
        refine ⟨hturn.sameSetting.reachable.trans h.reachable, hstore,
          fun hrevoke => h.revokes (hfaults hrevoke), hupkeep.taken hnumbers h.taken,
          hupkeep.bound hs h.bound, htending, ?_⟩
        intro hsteady
        have hmatches := h.matched (Bool.and_eq_true_iff.mp hsteady).1
        have hnow : env.now = x.env.now := hturn.sameSetting.now
        rw [show (x.stepped _ env).env.now = x.env.now from hnow]
        exact hupkeep.matched hs h.bound hnumbers hmatches
  | pass time idle later awake => exact h.idle rfl rfl rfl rfl h.tending.owning rfl
  | meddle hmeddle => exact hmeddle.elim

/-- Whatever others do, as long as they leave the key and the lease alone, they could do without
the attempt. -/
theorem Tended.meddled (h : Tended key x) {m : Meddling}
    (hrespects : (m.renumber (numbering x.own)).Respects key x.own x.env)
    (hnumbers : 1 ≤ (x.meddled m).env.store.nextLease.toInt) : Tended key (x.meddled m) := by
  have hs := h.store.wellFormed
  cases m with
  | command c =>
      obtain ⟨hfaults, hwrites⟩ := hrespects
      refine ⟨h.reachable, h.store.run _ x.env.now hnumbers, hfaults, ?_, ?_,
        h.tending.run hs h.taken _, ?_⟩
      · intro lease hlease
        exact MemoryStore.number_run hnumbers (h.taken lease hlease)
      · intro e he hkey
        rcases MemoryStore.mem_entries_run hs he with hwritten | ⟨hold, _⟩
        · exact absurd hkey (hwrites _ hwritten).1
        · exact h.bound e hold hkey
      · intro hsteady
        have hmatches := h.matched (Bool.and_eq_true_iff.mp hsteady).1
        exact hmatches.run hs rfl (fun w hw => (hwrites w hw).2) hnumbers
  | turn | slow | script | pace | signal | elsewhere => exact h.idle rfl rfl rfl rfl rfl rfl

theorem Run.tended (hrun : Run key x₀ x) (h : Tended key x₀) : Tended key x := by
  induction hrun with
  | begin => exact h
  | own run step named prompt kept numbers ih => exact ih.step step named prompt kept numbers
  | others m run respects numbers ih => exact ih.meddled respects numbers

/-- A registration attempt leaves no residue. Whatever is in the store at first, whatever the
description is, and whatever others do meanwhile, delays, faults and signals included: once the
attempt is over without having lost its registration, its lease is gone with everything bound to
it, and so is its key. And as long as the clock has not gone back, the store is the one that the
others would have without the attempt, but for the numbers of leases, once the lapsed leases are
purged from both. -/
theorem no_residue {terms : Terms} {d : Descriptor} {env₀ : Environment}
    {failure : Option Failure} (hreach : env₀.reachable = true) (hstore : env₀.store.Reachable)
    (hrevokes : Operation.revoke ∉ env₀.store.faults)
    (hkey : key ∉ env₀.store.entries.map (·.1)) (hrun : Run key (beginning terms d env₀) x)
    (hover : x.attempt.outcome? = some failure) :
    (∀ lease ∈ x.own, lease ∉ x.env.store.leases.map (·.1) ∧
      ∀ e ∈ x.env.store.entries, e.2.lease ≠ some lease) ∧
    key ∉ x.env.store.entries.map (·.1) ∧
    (x.steady = true →
      x.env.store.purge x.env.now = (x.bare.purge x.env.now).renumber (numbering x.own)) := by
  have hbegin : Tended key (beginning terms d env₀) := by
    refine ⟨hreach, hstore, hrevokes, nofun, ?_, .unstarted d, ?_⟩
    · intro e he heq
      exact absurd (List.mem_map.mpr ⟨e, he, heq⟩) hkey
    · intro _
      exact ⟨nofun, hstore.wellFormed, (MemoryStore.renumber_id _).symm⟩
  have h := hrun.tended hbegin
  have hs := h.store.wellFormed
  have hgone := h.tending.gone (Attempt.finished_of_outcome hover)
  have hfree : ∀ lease ∈ x.own, ∀ e ∈ x.env.store.entries, e.2.lease ≠ some lease :=
    fun lease hlease e he heq => hgone lease hlease (hs.bound e he lease heq)
  refine ⟨fun lease hlease => ⟨hgone lease hlease, hfree lease hlease⟩, ?_, ?_⟩
  · intro hmem
    obtain ⟨e, he, heq⟩ := List.mem_map.mp hmem
    obtain ⟨lease, hlease, hbound⟩ := h.bound e he heq
    exact hfree lease hlease e he hbound
  · intro hsteady
    have hmatches := h.matched hsteady
    rw [MemoryStore.purge_eq_dropLapsed hs, MemoryStore.purge_eq_dropLapsed hmatches.others,
      ← hmatches.rest, MemoryStore.without_of_not_mem hs hgone]

/-! ## Runs on cue -/

instance (key : String) (own : Option LeaseId) (env : Environment) (m : Meddling) :
    Decidable (m.Respects key own env) :=
  match m with
  | .command _ => inferInstanceAs (Decidable (_ ∧ _))
  | .turn _ | .slow _ | .script _ | .pace _ | .signal _ | .elsewhere .. =>
    inferInstanceAs (Decidable True)

/-- What happens on a cue: the attempt makes its first move, if it has one, or others do
something. -/
def next (x : Twin) : Supervision.Cue → Twin
  | .own =>
    match x.attempt.moves x.env with
    | [] => x
    | y :: _ => x.stepped y.1 y.2
  | .others m => x.meddled m

/-- What runs ask of a step. -/
def Follows (key : String) (x y : Twin) : Supervision.Cue → Prop
  | .own =>
    (∀ p ∈ y.attempt.stage.holding?, p.key = key) ∧ y.attempt.stage.releasesInTime = true ∧
      x.attempt.stage.lost y.env y.attempt.stage = [] ∧ 1 ≤ y.env.store.nextLease.toInt
  | .others m =>
    (m.renumber (numbering x.own)).Respects key x.own x.env ∧ 1 ≤ y.env.store.nextLease.toInt

instance (key : String) (x y : Twin) (c : Supervision.Cue) : Decidable (x.Follows key y c) :=
  match c with
  | .own => inferInstanceAs (Decidable (_ ∧ _))
  | .others _ => inferInstanceAs (Decidable (_ ∧ _))

/-- Every step on cue is one that runs allow. -/
def sound (key : String) (x : Twin) : List Supervision.Cue → Bool
  | [] => true
  | c :: cues => decide (x.Follows key (x.next c) c) && (x.next c).sound key cues

/-- Cues make a run. -/
theorem run_next {cues : List Supervision.Cue} (hrun : Run key x₀ x)
    (hsound : x.sound key cues = true) : Run key x₀ (cues.foldl next x) := by
  induction cues generalizing x with
  | nil => exact hrun
  | cons c cues ih =>
      obtain ⟨hfollows, hrest⟩ := Bool.and_eq_true_iff.mp hsound
      have hfollows := of_decide_eq_true hfollows
      refine ih ?_ hrest
      cases c with
      | own =>
          cases hmoves : x.attempt.moves x.env with
          | nil =>
              simp only [next, hmoves]
              exact hrun
          | cons y rest =>
              have hnext : x.next .own = x.stepped y.1 y.2 := by simp only [next, hmoves]
              rw [hnext] at hfollows ⊢
              obtain ⟨hnamed, hprompt, hkept, hnumbers⟩ := hfollows
              refine hrun.own (.move ?_) hnamed hprompt hkept hnumbers
              rw [hmoves]
              exact List.mem_cons_self
      | others m => exact hrun.others m hfollows.1 hfollows.2

/-- A store with one key, whose lease lapses after seven seconds. -/
def rented : MemoryStore :=
  [Command.grant 7, .putLeased "/x" [] ⟨1⟩].foldl (fun s c => (c.run 0 s).2) .empty

theorem reachable_rented : rented.Reachable :=
  .run (.run .empty (.grant 7) 0 (by decide)) (.putLeased "/x" [] ⟨1⟩) 0 (by decide)

/-- An environment with this store, a clock that stands at some reading, and one client. -/
def rentedAt (now : Reading) : Environment :=
  { Environment.initial (.manual now) [{}] with store := rented }

/-- A run on cue of an attempt there. -/
def visit (now : Reading) (cues : List Supervision.Cue) : Twin :=
  cues.foldl next (beginning ((rentedAt now).terms 0 (.token "t")) (.ofAddress "a" "h" "")
    (rentedAt now))

/-- The key of this attempt. -/
def visitKey : String := "/rendezvous/a/a_00000000-0000-4000-8000-000000000000"

/-- The attempt registers, others do something, and the attempt is told to stop. -/
def visiting (others : List Meddling) : List Supervision.Cue :=
  List.replicate 4 .own ++ others.map .others ++ [.others (.signal (.shutdown 0)), .own, .own]

theorem run_visit {now : Reading} {others : List Meddling}
    (hsound : (visit now []).sound visitKey (visiting others) = true) :
    Run visitKey (visit now []) (visit now (visiting others)) :=
  run_next .begin hsound

/-- Others who were granted a lease meanwhile, and have bound a key to it, have both afterwards,
under the number that they would have had and one more. -/
theorem no_residue_tenants :
    let x := visit 0 (visiting [.command (.grant 7), .command (.putLeased "/y" [] ⟨2⟩)])
    (⟨2⟩ : LeaseId) ∉ x.env.store.leases.map (·.1) ∧
      x.env.store.purge x.env.now = (x.bare.purge x.env.now).renumber (LeaseId.skipping ⟨2⟩) ∧
      (x.env.store.keys x.env.now).1 = ["/x", "/y"] := by
  intro x
  have hover : x.attempt.outcome? = some none := by decide +kernel
  have hresidue := no_residue rfl reachable_rented (by decide) (by decide +kernel)
    (run_visit (by decide +kernel)) hover
  have hown : x.own = some ⟨2⟩ := by decide +kernel
  have hsame := hresidue.2.2 (by decide +kernel)
  rw [hown] at hsame
  exact ⟨(hresidue.1 ⟨2⟩ hown).1, hsame, by decide +kernel⟩

/-- What has lapsed is purged earlier than without the attempt. A key is gone that could still be
deleted without it; and when the clock goes back meanwhile, to a reading at which the key's lease
had not lapsed, the key is missing among those that others would have. -/
theorem purged_early :
    (rentedAt 10000000000).reachable = true ∧ rented.Reachable ∧
      Operation.revoke ∉ rented.faults ∧ visitKey ∉ rented.entries.map (·.1) ∧
      (∃ x, Run visitKey (visit 10000000000 []) x ∧ x.attempt.outcome? = some none ∧
        x.steady = true ∧ (x.env.store.delete "/x").1 = false ∧ (x.bare.delete "/x").1 = true) ∧
      ∃ x, Run visitKey (visit 10000000000 []) x ∧ x.attempt.outcome? = some none ∧
        (x.env.store.keys x.env.now).1 = [] ∧ (x.bare.keys x.env.now).1 = ["/x"] := by
  refine ⟨rfl, reachable_rented, by decide, by decide +kernel, ?_, ?_⟩
  · exact ⟨visit 10000000000 (visiting []), run_visit (by decide +kernel), by decide +kernel⟩
  · exact ⟨visit 10000000000 (visiting [.turn (.manual 0)]), run_visit (by decide +kernel),
      by decide +kernel⟩

end Twin
end ServiceDiscovery
