import ServiceDiscovery.Proofs.Schedule.Engagement
import ServiceDiscovery.Schedule.Supervision

/-!
# What a supervisor leaves published

A supervisor publishes a fresh key with every attempt. An attempt that fails early
or is told to stop gives its lease back, and its key goes with the lease. A
registration that is lost gives nothing back: when its lease is still there, its
key stays until the lease lapses, next to the key of the following attempt.

Main results:

- Definition {lit}`Supervision.Supervised`: runs of a supervisor with a record of
  what it has published and lost.
- Theorem {lit}`Supervision.Orderly.own`, {lit}`Supervision.Orderly.others`: at every
  step each key that was published is gone, held by the present attempt, or lost.
- Theorem {lit}`Supervision.published_once`: at most one key that is not lost is
  visible, and a lost one vanishes with its lease.
- Theorem {lit}`Supervision.published_twice`: a lost key and the next one are visible
  at the same time.
-/

namespace ServiceDiscovery
namespace Supervision

/-! ## Runs of a supervisor -/

/-- The record after a step of a supervisor. -/
def after (h : History) (env : Environment) (s t : Supervision) : History :=
  match s.stage, t.stage with
  | .trying a, .trying b => h.record env a.stage b.stage
  | _, _ => h

/-- The present attempt has a key and its lease. -/
def Holds (s : Supervision) (p : Publication) : Prop :=
  ∃ a, s.stage = .trying a ∧ a.stage.holding? = some p

/-- A release that is under way will not be given up. -/
def releasesInTime (s : Supervision) : Bool :=
  match s.stage with
  | .trying a => a.stage.releasesInTime
  | _ => true

/-- Runs of a supervisor among others, with what it has published and lost: the clock does not go
back, no release is given up or made to fail, and lease numbers last. -/
inductive Supervised (s₀ : Supervision) (env₀ : Environment) :
    History → Supervision → Environment → Prop where
  | begin : Supervised s₀ env₀ .empty s₀ env₀
  | own {h : History} {s t : Supervision} {env env' : Environment}
      (run : Supervised s₀ env₀ h s env)
      (step : OpenStep moves dueAt (fun _ _ => False) s env t env')
      (clock : env.now ≤ env'.now) (prompt : t.releasesInTime = true)
      (numbers : 1 ≤ env'.store.nextLease.toInt) :
      Supervised s₀ env₀ (after h env' s t) t env'
  | others {h : History} {s : Supervision} {env : Environment} (m : Meddling)
      (run : Supervised s₀ env₀ h s env) (fault : m ≠ .command (.injectFault .revoke))
      (clock : env.now ≤ (m.act env).now) (numbers : 1 ≤ (m.act env).store.nextLease.toInt) :
      Supervised s₀ env₀ (h.meddled m) s (m.act env)

/-- A key that was published is visible under its lease. -/
def Shows (env : Environment) (p : Publication) : Prop :=
  (env.store.leaseOf env.now p.key).1 = some p.lease

instance (env : Environment) (p : Publication) : Decidable (Shows env p) :=
  inferInstanceAs (Decidable (_ = _))

/-- What is visible is bound to a lease that has not lapsed. -/
theorem live_of_shows {env : Environment} {p : Publication} (hstore : env.store.WellFormed)
    (h : Shows env p) :
    ∃ held, (p.lease, held) ∈ env.store.leases ∧ held.lapsed env.now = false := by
  obtain ⟨entry, hlookup, hlease⟩ := Option.bind_eq_some_iff.mp h
  have hentry : (p.key, entry) ∈ (env.store.purge env.now).entries := by
    obtain ⟨l₁, l₂, heq, _⟩ := List.lookup_eq_some_iff.mp hlookup
    rw [heq]
    exact List.mem_append_right _ List.mem_cons_self
  have hbound := (hstore.purge env.now).bound _ hentry p.lease hlease
  obtain ⟨⟨lease, held⟩, hmem, heq⟩ := List.mem_map.mp hbound
  simp only at heq
  subst heq
  exact ⟨held, (MemoryStore.mem_leases_purge hstore).mp hmem⟩

/-! ## Every step -/

/-- The invariant of a supervisor. -/
structure Orderly (h : History) (s : Supervision) (env : Environment) : Prop where
  reachable : env.reachable = true
  store : env.store.Reachable
  revokes : Operation.revoke ∉ env.store.faults
  ledger : Ledger h s.Holds env.store
  engaged : ∀ a, s.stage = .trying a → Engaged h.losses env.now env.store a.stage

section

variable {s t : Supervision} {a b : Attempt} {env env' : Environment}

theorem holds_iff (hstage : s.stage = .trying a) (p : Publication) :
    s.Holds p ↔ a.stage.holding? = some p := by
  constructor
  · rintro ⟨b, hb, hp⟩
    rw [hstage] at hb
    cases hb
    exact hp
  · exact fun hp => ⟨a, hstage, hp⟩

theorem after_trying (h : History) (env : Environment) (hs : s.stage = .trying a)
    (ht : t.stage = .trying b) : after h env s t = h.record env a.stage b.stage := by
  unfold after
  rw [hs, ht]

theorem after_of_not_trying (h : History) (env : Environment)
    (hnone : (∀ a, s.stage ≠ .trying a) ∨ ∀ b, t.stage ≠ .trying b) : after h env s t = h := by
  unfold after
  split
  · rename_i a b hs ht
    rcases hnone with hnone | hnone
    · exact absurd hs (hnone a)
    · exact absurd ht (hnone b)
  · rfl

theorem after_self (h : History) (env : Environment) (s : Supervision) : after h env s s = h := by
  unfold after
  split
  · rename_i a b ha hb
    rw [ha] at hb
    cases hb
    exact h.record_self env a.stage
  · rfl

/-- A decision after an attempt leaves the store alone, and starts no other attempt yet. -/
theorem conclude_spec (s : Supervision) (failure : Option Failure) (env : Environment) :
    (s.conclude failure env).2.store = env.store ∧
      (s.conclude failure env).2.reachable = env.reachable ∧
      ∀ b, (s.conclude failure env).1.stage ≠ .trying b := by
  unfold conclude
  rcases Supervisor.judge s.descriptor.name s.due failure with ⟨decision, notes⟩
  cases decision with
  | stop => exact ⟨rfl, rfl, fun b hb => nomatch hb⟩
  | reject failure => exact ⟨rfl, rfl, fun b hb => nomatch hb⟩
  | retry rest => exact ⟨rfl, rfl, fun b hb => nomatch hb⟩

/-- Everything that a supervisor can do: its attempt moves, or it decides after an attempt, or it
stops at a rest or ends the rest. -/
theorem moves_spec (hmove : (t, env') ∈ s.moves env) :
    (∃ a b, s.stage = .trying a ∧ (b, env') ∈ a.moves env ∧ t = { s with stage := .trying b }) ∨
      (∃ a outcome, s.stage = .trying a ∧ a.outcome? = some outcome ∧
        (t, env') = s.conclude outcome env) ∨
      ∃ wakeAt, s.stage = .resting wakeAt ∧ env' = env ∧
        (env.isRaised s.signal = true ∧ t = { s with stage := .finished none } ∨
          wakeAt ≤ env.time ∧ t = { s with stage := .trying (s.attempt env) }) := by
  unfold moves at hmove
  split at hmove
  · cases hmove
  · rename_i a hstage
    split at hmove
    · rename_i outcome houtcome
      exact Or.inr (Or.inl ⟨a, outcome, hstage, houtcome, List.mem_singleton.mp hmove⟩)
    · obtain ⟨⟨b, env''⟩, hnext, heq⟩ := List.mem_map.mp hmove
      obtain ⟨rfl, rfl⟩ := Prod.mk.inj heq
      exact Or.inl ⟨a, b, hstage, hnext, rfl⟩
  · rename_i wakeAt hstage
    right
    right
    rcases List.mem_append.mp hmove with hmove | hmove
    · split at hmove
      · rename_i hraised
        obtain ⟨rfl, rfl⟩ := Prod.mk.inj (List.mem_singleton.mp hmove)
        exact ⟨wakeAt, hstage, rfl, Or.inl ⟨hraised, rfl⟩⟩
      · cases hmove
    · split at hmove
      · rename_i hrested
        obtain ⟨rfl, rfl⟩ := Prod.mk.inj (List.mem_singleton.mp hmove)
        exact ⟨wakeAt, hstage, rfl, Or.inr ⟨hrested, rfl⟩⟩
      · cases hmove

/-- A move of a supervisor is one of its attempt, the decision after it, or the end of a rest. -/
theorem moves_cases (hmove : (t, env') ∈ s.moves env) :
    (∃ a b, s.stage = .trying a ∧ t.stage = .trying b ∧ (b, env') ∈ a.moves env) ∨
      (∃ a failure, s.stage = .trying a ∧ a.stage = .finished failure ∧
        env'.store = env.store ∧ env'.reachable = env.reachable ∧ ∀ b, t.stage ≠ .trying b) ∨
      ((∀ a, s.stage ≠ .trying a) ∧ env' = env ∧
        ∀ b, t.stage = .trying b → ∃ d, b.stage = .unstarted d) := by
  rcases moves_spec hmove with ⟨a, b, hstage, hnext, rfl⟩ | ⟨a, outcome, hstage, hover, hdecides⟩ |
    ⟨wakeAt, hstage, rfl, hends⟩
  · exact Or.inl ⟨a, b, hstage, rfl, hnext⟩
  · right
    left
    obtain ⟨hstore, hreach, hnone⟩ := conclude_spec s outcome env
    rw [← hdecides] at hstore hreach hnone
    exact ⟨a, outcome, hstage, Attempt.finished_of_outcome hover, hstore, hreach, hnone⟩
  · right
    right
    refine ⟨?_, rfl, ?_⟩
    · intro a ha
      rw [hstage] at ha
      cases ha
    · intro b hb
      rcases hends with ⟨_, rfl⟩ | ⟨_, rfl⟩
      · cases hb
      · cases hb
        exact ⟨s.descriptor, rfl⟩

theorem Orderly.attempt (horderly : Orderly h s env) (hs : s.stage = .trying a)
    (ht : t.stage = .trying b) (hmove : (b, env') ∈ a.moves env)
    (hprompt : t.releasesInTime = true) (hnumbers : 1 ≤ env'.store.nextLease.toInt) :
    Orderly (h.record env' a.stage b.stage) t env' := by
  have hengaged := horderly.engaged a hs
  have hholds : Ledger h (fun p => a.stage.holding? = some p) env.store :=
    horderly.ledger.letGo fun p _ hp => Or.inr ((holds_iff hs p).mp hp)
  have hthis {h' : History} (hledger : Ledger h' (fun p => b.stage.holding? = some p) env'.store) :
      Ledger h' t.Holds env'.store :=
    hledger.letGo fun p _ hp => Or.inr ((holds_iff ht p).mpr hp)
  have honly {losses : List Loss} (hnext : Engaged losses env'.now env'.store b.stage) :
      ∀ c, t.stage = .trying c → Engaged losses env'.now env'.store c.stage := by
    intro c hc
    rw [ht] at hc
    cases hc
    exact hnext
  rcases Attempt.moves_cases hengaged.inOrder hmove with ⟨rfl, rfl, _⟩ | ⟨stage, hturn, rfl⟩
  · rw [History.record_self]
    exact ⟨horderly.reachable, horderly.store, horderly.revokes, hthis hholds, honly hengaged⟩
  · have hanswered : stage.releasesInTime = true := by
      rw [releasesInTime, ht] at hprompt
      exact hprompt
    obtain ⟨hstore, hfaults⟩ := hturn.store_spec horderly.store hnumbers
    obtain ⟨hnext, hledger⟩ := hengaged.turn horderly.reachable horderly.store.wellFormed
      horderly.revokes hanswered hnumbers hholds hturn
    exact ⟨hturn.sameSetting.reachable.trans horderly.reachable, hstore,
      fun hrevoke => horderly.revokes (hfaults hrevoke), hthis hledger, honly hnext⟩

/-- A supervisor that has nothing under way, or begins a fresh attempt, keeps the record as it
is. -/
theorem Orderly.idle (horderly : Orderly h s env) (hstore : env'.store = env.store)
    (hreach : env'.reachable = env.reachable)
    (hs : ∀ a, s.stage = .trying a → ∃ failure, a.stage = .finished failure)
    (ht : ∀ b, t.stage = .trying b → ∃ d, b.stage = .unstarted d) : Orderly h t env' where
  reachable := hreach.trans horderly.reachable
  store := by
    rw [hstore]
    exact horderly.store
  revokes := by
    rw [hstore]
    exact horderly.revokes
  ledger := by
    rw [hstore]
    refine horderly.ledger.letGo ?_
    rintro p _ ⟨a, ha, hp⟩
    obtain ⟨failure, hfinished⟩ := hs a ha
    rw [hfinished] at hp
    cases hp
  engaged := by
    intro b hb
    obtain ⟨d, hfresh⟩ := ht b hb
    rw [hfresh]
    exact .unstarted d

theorem Orderly.move (horderly : Orderly h s env) (hmove : (t, env') ∈ s.moves env)
    (hprompt : t.releasesInTime = true) (hnumbers : 1 ≤ env'.store.nextLease.toInt) :
    Orderly (after h env' s t) t env' := by
  rcases moves_cases hmove with ⟨a, b, hs, ht, hnext⟩ |
    ⟨a, failure, hs, hfinished, hstore, hreach, hnone⟩ | ⟨hresting, rfl, hfresh⟩
  · rw [after_trying h env' hs ht]
    exact horderly.attempt hs ht hnext hprompt hnumbers
  · rw [after_of_not_trying h env' (Or.inr hnone)]
    refine horderly.idle hstore hreach ?_ fun b hb => absurd hb (hnone b)
    intro a' ha'
    rw [hs] at ha'
    cases ha'
    exact ⟨failure, hfinished⟩
  · rw [after_of_not_trying h env' (Or.inl hresting)]
    exact horderly.idle rfl rfl (fun a ha => absurd ha (hresting a)) hfresh

/-- The passing of time and the moves of a supervisor keep the record in order. -/
theorem Orderly.own (horderly : Orderly h s env)
    (hstep : OpenStep moves dueAt (fun _ _ => False) s env t env')
    (hclock : env.now ≤ env'.now) (hprompt : t.releasesInTime = true)
    (hnumbers : 1 ≤ env'.store.nextLease.toInt) : Orderly (after h env' s t) t env' := by
  cases hstep with
  | move hmove => exact horderly.move hmove hprompt hnumbers
  | pass time idle later awake =>
      rw [after_self]
      refine ⟨horderly.reachable, horderly.store, horderly.revokes, horderly.ledger, ?_⟩
      intro a ha
      exact (horderly.engaged a ha).mono fun _ _ hown => hown.later hclock
  | meddle hmeddle => exact hmeddle.elim

/-- Whatever others do, unless they make releases fail, the record stays in order. -/
theorem Orderly.others (horderly : Orderly h s env) {m : Meddling}
    (hfault : m ≠ .command (.injectFault .revoke)) (hclock : env.now ≤ (m.act env).now)
    (hnumbers : 1 ≤ (m.act env).store.nextLease.toInt) :
    Orderly (h.meddled m) s (m.act env) := by
  have hwell := horderly.store.wellFormed
  cases m with
  | command c =>
      refine ⟨horderly.reachable, horderly.store.run c env.now hnumbers, ?_, ?_, ?_⟩
      · intro hrevoke
        rcases MemoryStore.mem_faults_run hrevoke with hrevoke | rfl
        · exact horderly.revokes hrevoke
        · exact hfault rfl
      · refine horderly.ledger.run hwell (List.subset_append_right _ _) ?_ hnumbers
        intro l _ hrenews
        rw [hrenews]
        exact List.mem_cons_self
      · intro a ha
        exact (horderly.engaged a ha).mono fun _ _ hown => hown.run hwell c hnumbers
  | turn | slow | script | pace | signal | elsewhere =>
      refine ⟨horderly.reachable, horderly.store, horderly.revokes, horderly.ledger, ?_⟩
      intro a ha
      exact (horderly.engaged a ha).mono fun _ _ hown => hown.later hclock

theorem Supervised.orderly {s₀ : Supervision} {env₀ : Environment}
    (hbegin : Orderly .empty s₀ env₀) (hrun : Supervised s₀ env₀ h s env) : Orderly h s env := by
  induction hrun with
  | begin => exact hbegin
  | own run step clock prompt numbers ih => exact ih.own step clock prompt numbers
  | others m run fault clock numbers ih => exact ih.others fault clock numbers

end

/-- A supervised service is published once, as far as registrations are not lost. Whatever others
do, as long as the clock does not go back and releases are answered in time and without a fault:

- of the keys that are visible and not lost there is at most one, and the present attempt holds it;
- a lost key is visible for less than the length of its lease after the loss, unless others renew
  the lease. -/
theorem published_once {env₀ env : Environment} {client : Nat} {d : Descriptor} {token : String}
    {h : History} {s : Supervision} (hreach : env₀.reachable = true)
    (hstore : env₀.store.Reachable) (hrevokes : Operation.revoke ∉ env₀.store.faults)
    (hrun : Supervised (begin env₀ client d token) env₀ h s env) :
    (∀ p ∈ h.published, Shows env p → ¬ h.Lost p → s.Holds p) ∧
    (∀ p ∈ h.published, ∀ q ∈ h.published, Shows env p → Shows env q →
      ¬ h.Lost p → ¬ h.Lost q → p = q) ∧
    ∀ p, Shows env p → ∀ l ∈ h.losses, l.lease = p.lease → l.lease ∉ h.renewed →
      env.now.toNat < l.reading.toNat + (Lease.span l.ttl).toNat := by
  have hbegin : Orderly .empty (begin env₀ client d token) env₀ := by
    refine ⟨hreach, hstore, hrevokes, ⟨nofun, nofun, nofun⟩, ?_⟩
    rintro a ha
    cases ha
    exact .unstarted d
  have horderly := hrun.orderly hbegin
  have hholds : ∀ p ∈ h.published, Shows env p → ¬ h.Lost p → s.Holds p := by
    intro p hp hshows hlost
    obtain ⟨held, hmem, _⟩ := live_of_shows horderly.store.wellFormed hshows
    rcases horderly.ledger.accounted p hp with hgone | hholds | hloss
    · exact absurd (List.mem_map.mpr ⟨_, hmem, rfl⟩) hgone
    · exact hholds
    · exact absurd hloss hlost
  refine ⟨hholds, ?_, ?_⟩
  · intro p hp q hq hshowsp hshowsq hlostp hlostq
    obtain ⟨a, ha, hpa⟩ := hholds p hp hshowsp hlostp
    have hqa := (holds_iff ha q).mp (hholds q hq hshowsq hlostq)
    rw [hpa] at hqa
    exact Option.some.inj hqa
  · intro p hshows l hl heq hrenewed
    obtain ⟨held, hmem, hlive⟩ := live_of_shows horderly.store.wellFormed hshows
    rw [← heq] at hmem
    have hlimit := (horderly.ledger.lost l hl).2 hrenewed held hmem
    rw [Lease.lapsed, decide_eq_false_iff_not, UInt64.not_le, UInt64.lt_iff_toNat_lt] at hlive
    exact Nat.lt_of_lt_of_le hlive hlimit

/-! ## A registration that is lost -/

/-- What happens next in a run: the supervisor proceeds, or others do something. -/
inductive Cue where
  | own
  | others (m : Meddling)

/-- A moment of a run. -/
structure Moment where
  history : History
  supervision : Supervision
  env : Environment

/-- The moment after a cue. -/
def Moment.next (x : Moment) : Cue → Moment
  | .own =>
    let y := proceed moves dueAt x.supervision x.env
    ⟨after x.history y.2 x.supervision y.1, y.1, y.2⟩
  | .others m => ⟨x.history.meddled m, x.supervision, m.act x.env⟩

/-- The clock has not gone back, releases are answered in time, and lease numbers last. -/
def Moment.Follows (x y : Moment) : Prop :=
  x.env.now ≤ y.env.now ∧ 1 ≤ y.env.store.nextLease.toInt ∧
    y.supervision.releasesInTime = true

instance (x y : Moment) : Decidable (x.Follows y) :=
  inferInstanceAs (Decidable (_ ∧ _ ∧ _))

/-- Every moment of a run follows the one before it. -/
def Moment.sound (x : Moment) : List Cue → Bool
  | [] => true
  | c :: cues => decide (x.Follows (x.next c)) && (x.next c).sound cues

/-- Cues make a run of a supervisor. -/
theorem supervised_next {s₀ : Supervision} {env₀ : Environment} {x : Moment} {cues : List Cue}
    (hrun : Supervised s₀ env₀ x.history x.supervision x.env)
    (hfault : ∀ m, Cue.others m ∈ cues → m ≠ .command (.injectFault .revoke))
    (hsound : x.sound cues = true) :
    let y := cues.foldl Moment.next x
    Supervised s₀ env₀ y.history y.supervision y.env := by
  induction cues generalizing x with
  | nil => exact hrun
  | cons c cues ih =>
      obtain ⟨hfollows, hrest⟩ := Bool.and_eq_true_iff.mp hsound
      obtain ⟨hclock, hnumbers, hprompt⟩ := of_decide_eq_true hfollows
      refine ih ?_ (fun m hm => hfault m (List.mem_cons_of_mem c hm)) hrest
      cases c with
      | own =>
          rcases openStep_proceed moves dueAt (fun _ _ => False) x.supervision x.env with
            hstill | hstep
          · simp only [Moment.next, hstill, after_self]
            exact hrun
          · exact hrun.own hstep hclock hprompt hnumbers
      | others m => exact hrun.others m (hfault m List.mem_cons_self) hclock hnumbers

/-- A fresh environment with one client. -/
def quiet : Environment := .initial (.running 0) [{}]

/-- A supervisor of one service there. -/
def supervisor : Supervision := begin quiet 0 (.ofAddress "a" "h" "") "t"

/-- Renewals fail once, right after the first key is there; then the supervisor carries on, past
its rest, until the second key is there. -/
def setback : List Cue :=
  List.replicate 4 .own ++ [.others (.command (.injectFault .keepAlive)), .own,
    .others (.command .clearFaults)] ++ List.replicate 6 .own

/-- The moment after the setback. -/
def recovered : Moment := setback.foldl Moment.next ⟨.empty, supervisor, quiet⟩

theorem supervised_recovered :
    Supervised supervisor quiet recovered.history recovered.supervision recovered.env := by
  refine supervised_next .begin ?_ (by decide +kernel)
  intro m hm
  simp only [setback, List.mem_append, List.mem_cons, List.mem_replicate, List.not_mem_nil,
    Cue.others.injEq, reduceCtorEq, and_false, or_false, false_or] at hm
  rcases hm with rfl | rfl
  · exact nofun
  · exact nofun

/-- Without a fault or a delay of releases, two keys of one supervisor are visible at the same
time: the lease of a registration that was lost is left to lapse, and the rest before the next
attempt is shorter than that. -/
theorem published_twice :
    quiet.reachable = true ∧ quiet.store.Reachable ∧ Operation.revoke ∉ quiet.store.faults ∧
      ∃ h s env, Supervised supervisor quiet h s env ∧
        ∃ p ∈ h.published, ∃ q ∈ h.published, p.key ≠ q.key ∧ Shows env p ∧ Shows env q := by
  refine ⟨rfl, .empty, List.not_mem_nil, _, _, _, supervised_recovered, ?_⟩
  decide +kernel

/-- After the setback the supervisor holds the second key. -/
theorem published_once_recovered :
    recovered.supervision.Holds ⟨"/rendezvous/a/a_00000000-0000-4000-8000-000000000001", ⟨2⟩⟩ :=
  (published_once rfl .empty List.not_mem_nil supervised_recovered).1 _ (by decide +kernel)
    (by decide +kernel) (by decide +kernel)

end Supervision
end ServiceDiscovery
