import ServiceDiscovery.Proofs.Registry.History
import ServiceDiscovery.Proofs.Schedule.Announcements
import ServiceDiscovery.Proofs.Schedule.Patrols

/-!
# What a watch keeps in sight

A client that watches a root sees a published instance again and again.  Its
registry has the instance all along, if no two sightings are as far apart as the
expiry window.

Main results:

- Definition {lit}`Environment.Lists`: the queries of a client have an instance.
- Theorem {lit}`Environment.Does.keeps_live`: whatever is done to a registry, a live
  instance stays unless its address is reported.
- Theorem {lit}`Patrol.Stable.lists`: steady scans keep a stable instance listed.
- Theorem {lit}`Patrol.stays_listed`: scans are steady if each of them fits into the
  window together with an interval.
- Theorem {lit}`Patrol.stays_listed_by_default`: with the default settings, they are
  steady if no scan takes two seconds longer than the one before it.
-/

namespace ServiceDiscovery

namespace Environment

variable {env env' : Environment} {client : Nat} {key root : String} {i j : Instance}
  {deed : Deed}

/-! ## Instances that are listed -/

/-- The queries of a client have an instance: it is among the candidates for its service, so is its
address, and a snapshot of all services has its summary. -/
structure Lists (env : Environment) (client : Nat) (i : Instance) : Prop where
  candidates : ∃ j ∈ (env.candidates client i.name).1, i.Same j
  addresses : i.address ∈ (env.addresses client i.name).1
  services : ∃ group, (i.name, group) ∈ (env.services client).1 ∧ Summary.ofInstance i ∈ group

theorem lists_of_isLive (hj : (env.registry client).get? key = some j) (hsame : i.Same j)
    (hlive : (env.registry client).isLive env.now j = true) : env.Lists client i := by
  have hname : j.name = i.name := by rw [hsame]
  have haddress : j.address = i.address := by rw [hsame]
  have hsummary : Summary.ofInstance i = .ofInstance j := by
    rw [hsame]
    rfl
  have hmem := Registry.mem_of_get? hj
  have hcandidate := Registry.mem_live.mpr ⟨hmem, hname, hlive⟩
  refine ⟨⟨j, hcandidate, hsame⟩, ?_, ?_⟩
  · rw [← haddress]
    exact List.mem_map_of_mem hcandidate
  · exact Registry.shows_services.mpr ⟨j, hmem, hlive, hname, hsummary⟩

/-! ## Deeds -/

/-- Whatever is done, a live instance stays, unless its address is reported. -/
theorem Does.keeps_live (h : env.Does deed env') (hr : (env.registry client).Distinct)
    (hi : (env.registry client).get? key = some i)
    (hlive : (env.registry client).isLive env.now i = true)
    (unreported : deed ≠ .query client (.reportDead i.address)) :
    ∃ j, (env'.registry client).get? key = some j ∧ i.Same j ∧
      (j.activeAt = i.activeAt ∨ j.activeAt = env.now) := by
  have hsame {r : Registry} (hr : r.get? key = some i) :
      ∃ j, r.get? key = some j ∧ i.Same j ∧ (j.activeAt = i.activeAt ∨ j.activeAt = env.now) :=
    ⟨i, hr, .refl i, Or.inl rfl⟩
  cases h with
  | command c => exact hsame hi
  | refresh c root =>
      rcases refresh_cases env c root with ⟨failure, heq⟩ | ⟨entries, _, _, _, _, hregistry⟩
      · rw [heq]
        exact hsame hi
      · rw [hregistry, registry_setRegistry]
        split
        · rename_i hclient
          obtain ⟨rfl, _⟩ := hclient
          refine Registry.refresh_induction (P := fun r => ∃ j, r.get? key = some j ∧ i.Same j ∧
            (j.activeAt = i.activeAt ∨ j.activeAt = env.now)) (hsame hi) ?_
          rintro r ⟨j, hj, hlike, hactive⟩ entry _ name d
          rw [Registry.get?_observe]
          by_cases hkey : key = entry.1
          · subst hkey
            rw [if_pos rfl, hj]
            exact ⟨_, rfl, hlike.trans rfl, Or.inr rfl⟩
          · rw [if_neg hkey]
            exact ⟨j, hj, hlike, hactive⟩
        · exact hsame hi
  | query c action =>
      rw [registry_setRegistry]
      split
      · rename_i hclient
        obtain ⟨rfl, _⟩ := hclient
        have hfate := Registry.fate_of_step hr ⟨env.now, action⟩ key
        rw [hi] at hfate
        refine hfate.stays hlive ?_
        rintro rfl
        exact unreported rfl
      · exact hsame hi
  | aside hstore hregistry =>
      rw [hregistry]
      exact hsame hi

/-- The store has a description of some service under a key below a root. -/
def Publishes (env : Environment) (root key : String) : Prop :=
  Key.startsWith key (Key.rootPrefix root) = true ∧
    ∃ value lease name d, (key, ⟨value, lease⟩) ∈ (env.store.purge env.now).entries ∧
      Finding.ofEntry root key value = .sighting name d

/-- A refresh sees whatever is published. -/
theorem Publishes.seen (h : env.Publishes root key) (hsound : env.Sound)
    (hi : (env.registry client).get? key = some i) {n : Nat}
    (hrefresh : env.refresh client root = (.ok n, env')) :
    (env'.registry client).get? key = some { i with activeAt := env.now } := by
  obtain ⟨hstart, value, lease, name, d, hentry, hfinding⟩ := h
  have hclient : client < env.clients.length := by
    by_contra hmissing
    rw [registry_of_missing hmissing] at hi
    cases hi
  rw [get?_of_refresh hsound hclient hrefresh hstart hentry, hfinding, hi]
  rfl

/-- A client saw an instance last at some millisecond, and still knows it. -/
def SawAt (env : Environment) (client : Nat) (key : String) (i : Instance) (origin : Reading)
    (since : Nat) : Prop :=
  since ≤ env.time ∧ ∃ j, (env.registry client).get? key = some j ∧ i.Same j ∧
    j.activeAt.toNat = origin.toNat + since * 1000000

end Environment

theorem Duration.lt_ceilMillis_iff {d : Duration} {n : Nat} :
    n < d.ceilMillis ↔ n * 1000000 < d.nanos := by
  simp only [Duration.ceilMillis, Duration.nanosPerMilli]
  omega

/-- The expiry window of a registry, in whole milliseconds. -/
def Registry.windowMillis (r : Registry) : Nat :=
  Duration.ceilMillis ⟨r.window.toNat⟩

namespace Patrol

variable {env : Environment} {client : Nat} {origin : Reading} {key : String} {i : Instance}
  {p q : Patrol}

/-! ## What stays in sight -/

/-- What was seen within the expiry window is live. -/
theorem isLive_of_sawAt {j : Instance} {since : Nat} (hclock : env.clock = .running origin)
    (hfit : origin.toNat + env.time * 1000000 < 2 ^ 64) (hsince : since ≤ env.time)
    (hactive : j.activeAt.toNat = origin.toNat + since * 1000000)
    (htime : env.time < since + (env.registry client).windowMillis) :
    (env.registry client).isLive env.now j = true := by
  have hnow := Environment.now_toNat hclock hfit
  have hmillis : env.time - since < (env.registry client).windowMillis := by omega
  have hnanos : (env.time - since) * 1000000 < (env.registry client).window.toNat :=
    Duration.lt_ceilMillis_iff.mp hmillis
  rw [Registry.isLive_iff]
  · rw [hnow, hactive]
    omega
  · rw [UInt64.le_iff_toNat_le, hnow, hactive]
    omega

/-- What others do without reporting the address of an instance. -/
def Sparing (client : Nat) (i : Instance) : Environment → Environment → Prop :=
  Meanwhile fun deed => deed ≠ .query client (.reportDead i.address)

/-- What can be relied on in a run of a client's watch, until it has stopped: the client has been
seeing an instance, and will see it again in time. -/
def InSight (env : Environment) (client : Nat) (key : String) (i : Instance) (origin : Reading)
    (p : Patrol) : Prop :=
  p.watch.stage = .finished ∨ ∃ since, p.env.SawAt client key i origin since ∧
    Timely (env.config client).refreshInterval.ceilMillis (env.registry client).windowMillis since p

/-- The scans of a client's watch are steady. -/
def SteadyFor (env : Environment) (client : Nat) (delays : List Nat) : Prop :=
  Steady (env.config client).refreshInterval.ceilMillis (env.config client).callTimeout.ceilMillis
    (env.registry client).windowMillis delays

/-- A live instance. -/
theorem InSight.isLive (h : InSight env client key i origin p)
    (hregular : p.Regular origin (Watch.begin env client).1 (env.registry client).window)
    (hsteady : SteadyFor env client p.delays) (hrunning : p.watch.stage ≠ .finished)
    (hfit : origin.toNat + p.env.time * 1000000 < 2 ^ 64) :
    ∃ j, (p.env.registry client).get? key = some j ∧ i.Same j ∧
      (p.env.registry client).isLive p.env.now j = true := by
  rcases h with hfinished | ⟨since, ⟨hsince, j, hj, hsame, hactive⟩, htimely⟩
  · exact absurd hfinished hrunning
  · have htime := htimely.time_lt hsteady
    refine ⟨j, hj, hsame, isLive_of_sawAt hregular.clock hfit hsince hactive ?_⟩
    rw [Registry.windowMillis, show (p.env.registry client).window = _ from hregular.window]
    exact htime

/-- One step keeps an instance in sight. -/
theorem InSight.step (h : InSight env client key i origin p)
    (hregular : p.Regular origin (Watch.begin env client).1 (env.registry client).window)
    (hstays : p.env.Publishes (env.config client).root key)
    (hstep : p.Step (Sparing client i) q) (hsteady : SteadyFor env client q.delays)
    (hfit : origin.toNat + p.env.time * 1000000 < 2 ^ 64) : InSight env client key i origin q := by
  have hturn := turn_of_step hstep
  have hlive := h.isLive hregular (hsteady.before hturn)
  obtain ⟨hmissed, hperiod⟩ := hregular.follows.ticker
  rcases h with hfinished | ⟨since, ⟨hsince, j, hj, hsame, hactive⟩, htimely⟩
  · exact Or.inl (hturn.finished hfinished)
  · cases hturn with
    | stop waiting => exact Or.inl rfl
    | tick waiting due =>
        rw [SteadyFor, ← hregular.follows.callTimeout] at hsteady
        exact Or.inr ⟨since, ⟨hsince, j, hj, hsame, hactive⟩,
          htimely.tick hmissed hperiod waiting due hsteady⟩
    | @conclude call n refreshing ended succeeds =>
        obtain ⟨hanswered, hnext⟩ := htimely.conclude refreshing ended
        obtain ⟨hclient, hroot⟩ := hregular.follows.place
        rw [hclient, hroot] at succeeds
        have hseen := hstays.seen hregular.sound hj (Prod.ext succeeds rfl)
        refine Or.inr ⟨p.env.time, ⟨?_, { j with activeAt := p.env.now }, ?_, ?_, ?_⟩, hnext⟩
        · exact Nat.le_of_eq (sameSetting_conclude p.watch call p.env).time.symm
        · rw [env_conclude p.env hanswered, hclient, hroot]
          exact hseen
        · exact hsame.trans rfl
        · exact Environment.now_toNat hregular.clock hfit
    | pass time later awake =>
        exact Or.inr ⟨since, ⟨Nat.le_trans hsince later, j, hj, hsame, hactive⟩,
          htimely.pass awake⟩
    | @meddle env' hothers =>
        obtain ⟨deed, hdeed, hdoes, htime, _⟩ := hothers
        obtain ⟨j', hj', _, hjlive⟩ := hlive htimely.running hfit
        rw [hj] at hj'
        cases hj'
        have haddress : j.address = i.address := by rw [hsame]
        rw [← haddress] at hdeed
        obtain ⟨k, hk, hsame', hactive'⟩ :=
          hdoes.keeps_live (hregular.sound.distinct client) hj hjlive hdeed
        rcases hactive' with hold | hnew
        · rw [← hold] at hactive
          exact Or.inr ⟨since, ⟨hsince.trans (Nat.le_of_eq htime.symm), k, hk,
            hsame.trans hsame', hactive⟩, htimely.meddle htime⟩
        · have hnow := Environment.now_toNat hregular.clock hfit
          rw [← hnew] at hnow
          exact Or.inr ⟨p.env.time, ⟨Nat.le_of_eq htime.symm, k, hk, hsame.trans hsame', hnow⟩,
            (htimely.later hsince).meddle htime⟩

/-- An instance that is stable from some moment of a run on, up to another one: a client's watch has
begun in an environment whose clock runs along with time, the client has just seen the instance, and
from then on its key stays published, its address is not reported, and the watch has not stopped. -/
structure Stable (env : Environment) (client : Nat) (origin : Reading) (key : String) (i : Instance)
    (p q : Patrol) : Prop where
  sound : env.Sound
  clock : env.clock = .running origin
  before : Runs (Meanwhile fun _ => True) (fun _ => True) (begin env client) p
  seen : (p.env.registry client).get? key = some i
  now : i.activeAt = p.env.now
  after : Runs (Sparing client i) (·.Publishes (env.config client).root key) p q
  running : q.watch.stage ≠ .finished
  fit : origin.toNat + q.env.time * 1000000 < 2 ^ 64

/-- What is seen at some moment of a run is in sight from then on. -/
theorem inSight_of_runs {stays : Environment → Prop} (hsound : env.Sound)
    (hclock : env.clock = .running origin)
    (hbefore : Runs (Meanwhile fun _ => True) stays (begin env client) p)
    (hseen : (p.env.registry client).get? key = some i) (hnow : i.activeAt = p.env.now)
    (hafter : Runs (Sparing client i) (·.Publishes (env.config client).root key) p q)
    (hsteady : SteadyFor env client q.delays)
    (hfit : origin.toNat + q.env.time * 1000000 < 2 ^ 64) :
    q.Regular origin (Watch.begin env client).1 (env.registry client).window ∧
      InSight env client key i origin q := by
  induction hafter with
  | refl =>
      obtain ⟨hregular, htimely⟩ := timely_of_runs hsound hclock hbefore hsteady
      refine ⟨hregular, htimely.imp_right fun htimely => ?_⟩
      have hreading := Environment.now_toNat hregular.clock hfit
      rw [← hnow] at hreading
      exact ⟨p.env.time, ⟨Nat.le_refl _, i, hseen, .refl i, hreading⟩, htimely⟩
  | @tail q q' run stay step ih =>
      have hturn := turn_of_step step
      have htime := hturn.time_le
      have hfit' : origin.toNat + q.env.time * 1000000 < 2 ^ 64 :=
        Nat.lt_of_le_of_lt (Nat.add_le_add_left (Nat.mul_le_mul_right _ htime) _) hfit
      obtain ⟨hregular, hsight⟩ := ih (hsteady.before hturn) hfit'
      exact ⟨hregular.step step, hsight.step hregular stay step hsteady hfit'⟩

/-- Steady scans keep a stable instance listed. -/
theorem Stable.lists (h : Stable env client origin key i p q)
    (hsteady : SteadyFor env client q.delays) : q.env.Lists client i := by
  obtain ⟨hregular, hsight⟩ :=
    inSight_of_runs h.sound h.clock h.before h.seen h.now h.after hsteady h.fit
  obtain ⟨j, hj, hsame, hlive⟩ := hsight.isLive hregular hsteady h.running h.fit
  exact Environment.lists_of_isLive hj hsame hlive

/-! ## A watch by itself -/

/-- A watch that takes its next step by itself. -/
def next (p : Patrol) : Patrol :=
  let (w, env) := proceed Watch.moves Watch.dueAt p.watch p.env
  ⟨w, env, p.record w⟩

/-- A watch that goes on by itself for some number of steps. -/
def carryOn : Nat → Patrol → Patrol
  | 0, p => p
  | n + 1, p => (carryOn n p).next

section

variable {others : Environment → Environment → Prop} {stays : Environment → Prop}

theorem step_next (hsucceeds : ∃ n, (p.env.refresh p.watch.client p.watch.root).1 = .ok n)
    (hnumbers : 1 ≤ p.next.env.store.nextLease.toInt) : p.next = p ∨ p.Step others p.next := by
  rcases openStep_proceed Watch.moves Watch.dueAt others p.watch p.env with hstill | hstep
  · left
    unfold next
    rw [hstill]
    simp only [record_self]
  · exact Or.inr ⟨hstep, rfl, fun _ _ _ => hsucceeds, hnumbers⟩

theorem step_meddle {env' : Environment} (h : others p.env env')
    (hnumbers : 1 ≤ env'.store.nextLease.toInt) : p.Step others { p with env := env' } where
  step := .meddle h
  delays := (record_self p).symm
  succeeds := by
    intro call hrefreshing hwaiting
    rw [hrefreshing] at hwaiting
    cases hwaiting
  numbers := hnumbers

/-- From now on the store takes some milliseconds for every operation. -/
def slowed (p : Patrol) (millis : Nat) : Patrol :=
  { p with env := { p.env with delays := fun _ => millis } }

theorem step_slowed (p : Patrol) (millis client : Nat) (i : Instance)
    (hnumbers : 1 ≤ p.env.store.nextLease.toInt) : p.Step (Sparing client i) (p.slowed millis) :=
  step_meddle ⟨.aside, nofun, .aside rfl fun _ => rfl, rfl, rfl⟩ hnumbers

theorem runs_carryOn (hrun : Runs others stays p q) (n : Nat)
    (hstays : ∀ k < n, stays (carryOn k q).env)
    (hsucceeds : ∀ k < n, ((carryOn k q).env.refresh (carryOn k q).watch.client
      (carryOn k q).watch.root).1.toOption.isSome = true)
    (hnumbers : ∀ k < n, 1 ≤ (carryOn (k + 1) q).env.store.nextLease.toInt) :
    Runs others stays p (carryOn n q) := by
  induction n with
  | zero => exact hrun
  | succ n ih =>
      have hbefore := ih (fun k hk => hstays k (Nat.lt_succ_of_lt hk))
        (fun k hk => hsucceeds k (Nat.lt_succ_of_lt hk))
        (fun k hk => hnumbers k (Nat.lt_succ_of_lt hk))
      have hlast := hsucceeds n (Nat.lt_succ_self n)
      have hok : ∃ count, ((carryOn n q).env.refresh (carryOn n q).watch.client
          (carryOn n q).watch.root).1 = .ok count := by
        cases hresult : ((carryOn n q).env.refresh (carryOn n q).watch.client
          (carryOn n q).watch.root).1 with
        | ok count => exact ⟨count, rfl⟩
        | error failure => simp [hresult, Except.toOption] at hlast
      have hnext : _ ∨ Step others _ _ := step_next hok (hnumbers n (Nat.lt_succ_self n))
      rcases hnext with hstill | hstep
      · rw [carryOn, hstill]
        exact hbefore
      · exact hbefore.tail (hstays n (Nat.lt_succ_self n)) hstep

end

/-- A fresh environment with one client, in whose root an instance is published. -/
def stocked : Environment :=
  let env := Environment.initial (.running 0) [{}]
  let stock : MemoryStore.Command :=
    .put "/rendezvous/web/web_1" (Text.utf8 (Descriptor.ofAddress "web" "10.0.0.1" "80").toJson)
  { env with store := (stock.run env.now env.store).2 }

/-- The client's watch after its first refresh, which has taken no time. -/
def firstSight : Patrol :=
  carryOn 2 (begin stocked 0)

/-- The next scan has taken some milliseconds, and is about to end. -/
def secondScan (millis : Nat) : Patrol :=
  carryOn 3 (firstSight.slowed millis)

/-- The key of the instance. -/
def webKey : String :=
  "/rendezvous/web/web_1"

/-- What the client has seen. -/
def website : Instance :=
  .ofDescriptor webKey "web" (.ofAddress "web" "10.0.0.1" "80") 0

/-- The instance is in the store, a scan would find it, and lease numbers last. -/
def Healthy (p : Patrol) : Prop :=
  (webKey, ⟨Text.utf8 (Descriptor.ofAddress "web" "10.0.0.1" "80").toJson, none⟩) ∈
      (p.env.store.purge p.env.now).entries ∧
    (p.env.refresh p.watch.client p.watch.root).1.toOption.isSome = true ∧
    1 ≤ p.env.store.nextLease.toInt

instance (p : Patrol) : Decidable p.Healthy :=
  inferInstanceAs (Decidable (_ ∧ _ ∧ _))

theorem Healthy.publishes (h : p.Healthy) : p.env.Publishes "rendezvous" webKey :=
  ⟨by decide +kernel, _, none, "web", .ofAddress "web" "10.0.0.1" "80", h.1, by decide +kernel⟩

/-- The instance is stable, as long as everything is healthy. -/
theorem stable_secondScan (millis : Nat)
    (hhealthy : ∀ k ≤ 3, (carryOn k (firstSight.slowed millis)).Healthy)
    (hrunning : (secondScan millis).watch.stage ≠ .finished)
    (hfit : (secondScan millis).env.time * 1000000 < 2 ^ 64) :
    Stable stocked 0 0 webKey website firstSight (secondScan millis) where
  sound :=
    (Environment.Does.command _).sound (Environment.sound_initial (.running 0) [{}])
      (by decide +kernel)
  clock := rfl
  before := runs_carryOn .refl 2 (fun _ _ => trivial) (by decide +kernel) (by decide +kernel)
  seen := by decide +kernel
  now := by decide +kernel
  after := by
    have hfirst : firstSight.Healthy := by decide +kernel
    have hslow := step_slowed firstSight millis 0 website hfirst.2.2
    refine runs_carryOn (Runs.refl.tail hfirst.publishes hslow) 3 ?_ ?_ ?_
    · intro k hk
      exact (hhealthy k (Nat.le_of_lt hk)).publishes
    · intro k hk
      exact (hhealthy k (Nat.le_of_lt hk)).2.1
    · intro k hk
      exact (hhealthy (k + 1) hk).2.2
  running := hrunning
  fit := by
    rw [show (0 : Reading).toNat = 0 from rfl, Nat.zero_add]
    exact hfit

/-! ## Scans of bounded length -/

/-- A watch keeps stable instances visible. Let the clock run along with time, and let every scan of
a client's watch succeed within a bound that fits into the expiry window of the client's registry
together with a refresh interval. Then an instance that the client has just seen is listed by all of
its queries until the watch stops, whatever others do meanwhile, as long as its key stays published
and its address is not reported. -/
theorem stays_listed {bound : Duration} (h : Stable env client origin key i p q)
    (hbound : bound.nanos ≤ (env.config client).callTimeout.nanos)
    (hwindow : (env.config client).refreshInterval.ceilMillis * 1000000 + bound.nanos <
      (env.registry client).window.toNat)
    (hdelays : ∀ d ∈ q.delays, d * 1000000 ≤ bound.nanos) : q.env.Lists client i := by
  have hlt {n : Nat} (h : n * 1000000 < (env.registry client).window.toNat) :
      n < (env.registry client).windowMillis :=
    Duration.lt_ceilMillis_iff.mpr h
  refine h.lists (steady_of_add_lt ?_ ?_ ?_)
  · apply hlt
    exact Nat.lt_of_le_of_lt (Nat.le_add_right _ _) hwindow
  · intro d hd
    have hnanos := nanos_le_ceilMillis (env.config client).callTimeout
    have hle := (hdelays d hd).trans (hbound.trans hnanos)
    exact Nat.le_of_mul_le_mul_right hle (by decide)
  · intro d hd
    apply hlt
    rw [Nat.add_mul]
    exact Nat.lt_of_le_of_lt (Nat.add_le_add_left (hdelays d hd) _) hwindow

/-- With the default settings and a bound of one second, the instance is still listed four seconds
after it was seen. -/
theorem stays_listed_website : (secondScan 1000).env.time = 4000 ∧
    (secondScan 1000).env.Lists 0 website :=
  ⟨by decide +kernel,
    @stays_listed stocked 0 0 webKey website firstSight (secondScan 1000) (.ofSeconds 1)
      (stable_secondScan 1000 (by decide +kernel) (by decide +kernel) (by decide +kernel))
      (by decide) (by decide +kernel) (by decide +kernel)⟩

/-! ## Default settings -/

/-- A client refreshes and forgets at the default pace. -/
def DefaultPace (env : Environment) (client : Nat) : Prop :=
  (env.config client).refreshInterval = ({} : Config).refreshInterval ∧
    (env.config client).callTimeout = ({} : Config).callTimeout ∧
    (env.registry client).window = ({} : Config).expiryWindow.word

instance (env : Environment) (client : Nat) : Decidable (DefaultPace env client) :=
  inferInstanceAs (Decidable (_ ∧ _ ∧ _))

/-- Scans of three seconds at most are steady at the default pace, as long as none of them takes two
seconds longer than the one before it. -/
theorem DefaultPace.steady {delays : List Nat} (h : DefaultPace env client)
    (hdelays : ∀ d ∈ delays, d ≤ 3000)
    (hchain : delays.IsChain fun next last => next < last + 2000) :
    SteadyFor env client delays := by
  obtain ⟨hinterval, htimeout, hwindow⟩ := h
  have hthree : ({} : Config).refreshInterval.ceilMillis = 3000 := by decide
  have hfive : (env.registry client).windowMillis = 5000 := by
    rw [Registry.windowMillis, hwindow]
    decide
  rw [SteadyFor, hinterval, htimeout, hfive, hthree]
  refine ⟨hdelays, by decide, ?_, ?_⟩
  · intro d hd
    have hle := hdelays d hd
    omega
  · refine hchain.imp_of_mem_imp ?_
    intro next last _ hlast hlt
    have hle := hdelays last hlast
    omega

/-- The default settings keep stable instances visible only as long as scans do not slow down too
fast. Let every scan succeed within the default time for a call, and let none take two seconds
longer than the one before it; these two seconds are what the default expiry window leaves beside
the default refresh interval. Then an instance that the client has just seen is listed by all of its
queries until the watch stops, whatever others do meanwhile, as long as its key stays published and
its address is not reported. -/
theorem stays_listed_by_default (h : Stable env client origin key i p q)
    (hpace : DefaultPace env client) (hdelays : ∀ d ∈ q.delays, d ≤ 3000)
    (hchain : q.delays.IsChain fun next last => next < last + 2000) : q.env.Lists client i :=
  h.lists (hpace.steady hdelays hchain)

/-- After a scan that has taken no time, one of almost two seconds is soon enough. -/
theorem stays_listed_by_default_website : (secondScan 1999).env.time = 4999 ∧
    (secondScan 1999).env.Lists 0 website :=
  ⟨by decide +kernel,
    stays_listed_by_default
      (stable_secondScan 1999 (by decide +kernel) (by decide +kernel) (by decide +kernel))
      (by decide +kernel) (by decide +kernel) (by decide +kernel)⟩

/-- After a scan that has taken no time, one of almost three seconds is too late, although the
client waits for three. Before it ends, the instance is listed no more. -/
theorem default_pace_loses_sight :
    DefaultPace stocked 0 ∧ Stable stocked 0 0 webKey website firstSight (secondScan 2900) ∧
      (∀ d ∈ (secondScan 2900).delays, d ≤ 3000) ∧
      ((secondScan 2900).env.candidates 0 website.name).1 = [] ∧
      ((secondScan 2900).env.addresses 0 website.name).1 = [] :=
  ⟨by decide +kernel,
    stable_secondScan 2900 (by decide +kernel) (by decide +kernel) (by decide +kernel),
    by decide +kernel, by decide +kernel, by decide +kernel⟩

end Patrol
end ServiceDiscovery
