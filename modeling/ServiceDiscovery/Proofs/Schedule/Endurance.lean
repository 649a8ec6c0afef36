import ServiceDiscovery.Proofs.Schedule.Discovery
import ServiceDiscovery.Proofs.Schedule.Renewals
import ServiceDiscovery.Proofs.Store.Lifetimes

/-!
# Registrations that endure

A registration scans now and then, and while it waits for a scan it renews nothing. A
scan may begin in the last millisecond before a renewal is due, and then hang until it
is given up. So a lease must outlast the time between two renewals together with the
patience for one call. If it does, a registration endures whatever happens to scans,
until it is told to stop or somebody else ends the lease.

Main results:

- Definition {lit}`Attempt.Fares`: runs in which anything may happen to scans.
- Theorem {lit}`Attempt.Registers.upheld`: an attempt that registers has just renewed
  its lease.
- Definition {lit}`Attempt.Upheld`: how late a registration can be.
- Theorem {lit}`Attempt.Upheld.turn`: no turn makes it later than that.
- Theorem {lit}`Attempt.Upheld.holds`: it is held until it is told to stop.
-/

namespace ServiceDiscovery

open MemoryStore (Command)

/-! ## What happens to scans, and what others do -/

/-- Scans take some milliseconds from now on, and fail or succeed. -/
def Environment.troubled (env : Environment) (millis : Nat) (failing : Bool) : Environment :=
  let faults := env.store.faults.filter (· ≠ .get)
  { env.setDelay .get millis with
    store := { env.store with faults := if failing then .get :: faults else faults } }

/-- Something happens to scans, and to nothing else. -/
def Environment.Troubles (env env' : Environment) : Prop :=
  ∃ millis failing, env' = env.troubled millis failing

/-- What others may do: they leave the clock and the pace of renewals alone, and do not make
renewals fail. -/
inductive Meddling.LetsRenew : Meddling → Prop where
  | command {c : Command} (hfault : c ≠ .injectFault .keepAlive) : LetsRenew (.command c)
  | slow (delays : Operation → Nat) : LetsRenew (.slow delays)
  | signal (s : Signal) : LetsRenew (.signal s)
  | elsewhere (clients : List Client) (localAddress : String) (bits : Nat)
      (journal : List LogEntry) : LetsRenew (.elsewhere clients localAddress bits journal)

/-- The lease that others end by what they do, if there is one. -/
def Meddling.dropped (m : Meddling) (env : Environment) : List LeaseId :=
  match m with
  | .command c => (c.dropped? (c.run env.now env.store).1).toList
  | _ => []

/-- The milliseconds after which a renewal is made at the latest, counted from the one before: a
scan may begin in the last one before it is due. -/
def Terms.lateness (terms : Terms) : Nat :=
  terms.renewalMillis + (terms.patience - 1)

/-- A renewal comes before the end of a lease, even if a scan holds it up. -/
theorem Terms.lateness_lt {terms : Terms}
    (h : terms.renewalMillis + terms.patience ≤ 1000 * terms.seconds) :
    terms.lateness < 1000 * terms.seconds := by
  have hpos := terms.seconds_pos
  unfold lateness
  unfold renewalMillis at h ⊢
  omega

namespace Attempt

/-- The registration is held: the attempt is registered under a lease, and the lease is live. -/
def Holds (a : Attempt) (env : Environment) (lease : LeaseId) : Prop :=
  a.stage.registered?.map (·.2) = some lease ∧
    ((env.store.purge env.now).leases.lookup lease).isSome = true

instance (a : Attempt) (env : Environment) (lease : LeaseId) : Decidable (a.Holds env lease) :=
  inferInstanceAs (Decidable (_ ∧ _))

/-- Runs of an attempt among others, whatever happens to scans, as long as lease numbers last. -/
inductive Fares (a₀ : Attempt) (env₀ : Environment) : Attempt → Environment → Prop where
  | begin : Fares a₀ env₀ a₀ env₀
  | own {a b : Attempt} {env env' : Environment} (run : Fares a₀ env₀ a env)
      (step : OpenStep moves dueAt Environment.Troubles a env b env')
      (numbers : 1 ≤ env'.store.nextLease.toInt) : Fares a₀ env₀ b env'
  | others {a : Attempt} {env : Environment} (m : Meddling) (run : Fares a₀ env₀ a env)
      (renew : m.LetsRenew) (numbers : 1 ≤ (m.act env).store.nextLease.toInt) :
      Fares a₀ env₀ a (m.act env)

/-- The attempt registers just now under a lease: its last step has led from waiting for a stream
of acknowledgements to holding one. -/
inductive Registers (a₀ : Attempt) (env₀ : Environment) (lease : LeaseId) :
    Attempt → Environment → Prop where
  | intro {a b : Attempt} {env env' : Environment} (run : Fares a₀ env₀ a env)
      (before : a.stage.registered? = none)
      (step : OpenStep moves dueAt Environment.Troubles a env b env')
      (after : b.stage.registered?.map (·.2) = some lease)
      (numbers : 1 ≤ env'.store.nextLease.toInt) : Registers a₀ env₀ lease b env'

section

variable {origin : Reading} {terms : Terms} {lease : LeaseId} {env₀ env env' : Environment}
  {a₀ a b : Attempt} {stage stage' : Stage}

/-! ## Surroundings in which renewals succeed -/

/-- A turn of an attempt leaves an environment that serves renewals. -/
theorem Serving.turn (h : env.Serving origin) (hturn : Turn a env stage stage' env')
    (hnumbers : 1 ≤ env'.store.nextLease.toInt) : env'.Serving origin := by
  refine Serving.sameSetting h hturn.sameSetting (hturn.wellFormed h.store hnumbers) ?_
  rw [hturn.faults]
  exact h.renewals

/-- Time passes without harm to renewals. -/
theorem Serving.later (h : env.Serving origin) (time : Nat) :
    Environment.Serving origin { env with time } :=
  ⟨h.clock, h.reachable, h.renewalPeriod, h.script, h.store, h.renewals⟩

/-- Trouble with scans concerns no other operation. -/
theorem mem_faults_troubled {op : Operation} (hop : op ≠ .get) (millis : Nat) (failing : Bool) :
    op ∈ (env.troubled millis failing).store.faults ↔ op ∈ env.store.faults := by
  cases failing <;> simp [Environment.troubled, hop]

/-- Trouble with scans does no harm to renewals. -/
theorem Serving.troubled (h : env.Serving origin) (millis : Nat) (failing : Bool) :
    (env.troubled millis failing).Serving origin := by
  refine ⟨h.clock, h.reachable, h.renewalPeriod, h.script, h.store.withFaults _, ?_⟩
  rw [mem_faults_troubled (by decide)]
  exact h.renewals

/-- What others may do leaves an environment that serves renewals. -/
theorem Serving.meddle {m : Meddling} (h : env.Serving origin) (hm : m.LetsRenew)
    (hnumbers : 1 ≤ (m.act env).store.nextLease.toInt) : (m.act env).Serving origin := by
  cases hm with
  | @command c hfault =>
      refine ⟨h.clock, h.reachable, h.renewalPeriod, h.script, h.store.run c env.now hnumbers, ?_⟩
      intro hmem
      rcases MemoryStore.mem_faults_run hmem with hmem | hinject
      · exact h.renewals hmem
      · exact hfault hinject
  | slow | signal | elsewhere =>
      exact ⟨h.clock, h.reachable, h.renewalPeriod, h.script, h.store, h.renewals⟩

/-- No time passes while others do something. -/
theorem time_of_letsRenew {m : Meddling} (h : m.LetsRenew) (env : Environment) :
    (m.act env).time = env.time := by
  cases h <;> rfl

/-- A step of an attempt, whatever happens to scans: it moves, time passes, or something happens to
scans. -/
theorem step_cases (horder : a.stage.InOrder)
    (h : OpenStep moves dueAt Environment.Troubles a env b env') :
    (b = { a with passedOn := true } ∧ env' = env ∧ ToldToStop a.terms env) ∨
      (∃ stage, Turn a env a.stage stage env' ∧ b = { a with stage }) ∨
      b = a ∧
        ((∃ time, env' = { env with time } ∧ env.time ≤ time ∧
          ∀ due, a.dueAt = some due → time ≤ due) ∨ env.Troubles env') := by
  cases h with
  | move hmove =>
      rcases moves_cases horder hmove with ⟨hb, henv, s, hs, hraised⟩ | hturn
      · exact Or.inl ⟨hb, henv, Or.inr ⟨s, hs, hraised⟩⟩
      · exact Or.inr (Or.inl hturn)
  | pass time idle later awake => exact Or.inr (Or.inr ⟨rfl, Or.inl ⟨time, rfl, later, awake⟩⟩)
  | meddle htrouble => exact Or.inr (Or.inr ⟨rfl, Or.inr htrouble⟩)

/-! ## The lease before it is registered -/

/-- A lease was granted for as long as the terms ask. -/
structure Granted (terms : Terms) (s : MemoryStore) (lease : LeaseId) : Prop where
  number : lease.id.toInt < s.nextLease.toInt
  ttl : ∀ held, (lease, held) ∈ s.leases → held.ttl = terms.ttl

/-- A lease stays as long as it was granted, whatever command is carried out. -/
theorem Granted.run {s : MemoryStore} {now : Reading} {c : Command} (h : Granted terms s lease)
    (hs : s.WellFormed) (hnumbers : 1 ≤ (c.run now s).2.nextLease.toInt) :
    Granted terms (c.run now s).2 lease := by
  refine ⟨MemoryStore.number_run hnumbers h.number, ?_⟩
  intro held hmem
  rcases MemoryStore.mem_leases_run hs hmem with hold | ⟨_, old, hold, rfl⟩ | ⟨rfl, _⟩
  · exact h.ttl held hold
  · rw [Lease.granted_ttl]
    exact h.ttl old hold
  · exact absurd h.number (Int.lt_irrefl _)

/-- What is known of an attempt from its beginning: it renews in surroundings that let it, its plan
and its lease are as long as its terms ask, and it was told what it passed on. -/
structure Expects (origin : Reading) (a : Attempt) (env : Environment) : Prop where
  order : a.stage.InOrder
  serving : env.Serving origin
  plan : ∀ plan call, a.stage = .granting plan call → plan.ttl = a.terms.ttl
  lease : ∀ lease, a.stage.lease? = some lease → Granted a.terms env.store lease
  passedOn : a.passedOn = true → ToldToStop a.terms env

/-- Nothing is expected of an attempt that has not begun, but that its surroundings let it renew. -/
theorem Expects.unstarted (h : env.Serving origin) (terms : Terms) (d : Descriptor) :
    Expects origin (.unstarted terms d) env :=
  ⟨.unstarted d, h, nofun, nofun, nofun⟩

/-- An attempt that stops was told to. -/
theorem Expects.told (h : Expects origin a env) (hcancel : a.isCancelled env = true) :
    ToldToStop a.terms env :=
  ToldToStop.of_cancelled hcancel h.passedOn

/-- A turn keeps what is known of an attempt. -/
theorem Expects.turn (h : Expects origin a env) (hturn : Turn a env a.stage stage env')
    (hnumbers : 1 ≤ env'.store.nextLease.toInt) : Expects origin { a with stage } env' := by
  have hkept {lease : LeaseId} (hlease : a.stage.lease? = some lease) :
      Granted a.terms env'.store lease := by
    refine hturn.keeps (P := fun s => Granted a.terms s lease) (h.lease lease hlease) ?_
    intro c _ hstore
    rw [hstore] at hnumbers
    exact (h.lease lease hlease).run h.serving.store hnumbers
  have hplan := h.plan
  have htold : ToldToStop a.terms env → ToldToStop a.terms env' := by
    intro htold
    exact htold.mono (by rw [hturn.sameSetting.raised]; exact List.Subset.refl _)
  refine ⟨hturn.inOrder, Serving.turn h.serving hturn hnumbers, ?_, ?_,
    fun hpassed => htold (h.passedOn hpassed)⟩
  · intro plan call hstage
    simp only at hstage
    subst hstage
    generalize a.stage = before at hturn
    cases hturn with
    | begun hmade hcancel => exact ttl_of_make hmade
  · intro lease hlease
    simp only at hlease
    generalize a.stage = before at hturn hkept hplan
    cases hturn with
    | @granted plan call lease' env'' notes hover hresult =>
        have hanswer := answer_of_conclusion hresult
        rw [Environment.grant, Environment.ask_of_reachable h.serving.reachable] at hanswer
        obtain ⟨hgrant, rfl⟩ := Prod.mk.inj hanswer
        obtain rfl := Option.some.inj hlease
        refine ⟨MemoryStore.number_of_grant hgrant hnumbers, ?_⟩
        intro held hmem
        rw [← hplan plan call rfl]
        exact (MemoryStore.dated_of_grant h.serving.store hgrant held hmem).1
    | published | opened | renewed | ticked | refreshed => exact hkept hlease
    | refused | stopped | begun | ungranted | unpublished | unopened | cancelled | lost
    | released =>
        cases hlease

/-- Every step keeps what is known of an attempt, also in trouble. -/
theorem Expects.step (h : Expects origin a env)
    (hstep : OpenStep moves dueAt Environment.Troubles a env b env')
    (hnumbers : 1 ≤ env'.store.nextLease.toInt) : Expects origin b env' := by
  rcases step_cases h.order hstep with ⟨rfl, rfl, htold⟩ | ⟨stage, hturn, rfl⟩ |
    ⟨rfl, ⟨time, rfl, _⟩ | ⟨millis, failing, rfl⟩⟩
  · exact ⟨h.order, h.serving, h.plan, h.lease, fun _ => htold⟩
  · exact h.turn hturn hnumbers
  · exact ⟨h.order, Serving.later h.serving time, h.plan, h.lease, h.passedOn⟩
  · refine ⟨h.order, Serving.troubled h.serving millis failing, h.plan, ?_, h.passedOn⟩
    exact fun lease hlease => ⟨(h.lease lease hlease).number, (h.lease lease hlease).ttl⟩

/-- What others may do keeps what is known of an attempt. -/
theorem Expects.meddle {m : Meddling} (h : Expects origin a env) (hm : m.LetsRenew)
    (hnumbers : 1 ≤ (m.act env).store.nextLease.toInt) : Expects origin a (m.act env) := by
  have hserving := Serving.meddle h.serving hm hnumbers
  cases hm with
  | command hfault =>
      refine ⟨h.order, hserving, h.plan, ?_, h.passedOn⟩
      exact fun lease hlease => (h.lease lease hlease).run h.serving.store hnumbers
  | signal s =>
      refine ⟨h.order, hserving, h.plan, h.lease, fun hpassed => ?_⟩
      exact (h.passedOn hpassed).mono (List.subset_cons_self s env.raised)
  | slow | elsewhere => exact ⟨h.order, hserving, h.plan, h.lease, h.passedOn⟩

/-- What a step leaves as it is: the terms, the signals that were given, and all faults but those of
scans. Time does not go back. -/
theorem step_frame (horder : a.stage.InOrder)
    (hstep : OpenStep moves dueAt Environment.Troubles a env b env') :
    b.terms = a.terms ∧ env'.raised = env.raised ∧ env.time ≤ env'.time ∧
      ∀ op : Operation, op ≠ .get → (op ∈ env'.store.faults ↔ op ∈ env.store.faults) := by
  rcases step_cases horder hstep with ⟨rfl, rfl, _⟩ | ⟨stage, hturn, rfl⟩ |
    ⟨rfl, ⟨time, rfl, hlater, _⟩ | ⟨millis, failing, rfl⟩⟩
  · exact ⟨rfl, rfl, Nat.le_refl _, fun _ _ => Iff.rfl⟩
  · have hsame := hturn.sameSetting
    refine ⟨rfl, hsame.raised, Nat.le_of_eq hsame.time.symm, fun op _ => ?_⟩
    rw [hturn.faults]
  · exact ⟨rfl, rfl, hlater, fun _ _ => Iff.rfl⟩
  · exact ⟨rfl, rfl, Nat.le_refl _, fun op hop => mem_faults_troubled hop millis failing⟩

/-- What is known of an attempt stays true in every run. -/
theorem Fares.expects (hrun : Fares a₀ env₀ a env)
    (h : Expects origin a₀ env₀) :
    Expects origin a env ∧ a.terms = a₀.terms ∧ env₀.time ≤ env.time := by
  induction hrun with
  | begin => exact ⟨h, rfl, Nat.le_refl _⟩
  | own run step numbers ih =>
      obtain ⟨hexpects, hterms, hle⟩ := ih
      obtain ⟨hterms', _, hle', _⟩ := step_frame hexpects.order step
      exact ⟨hexpects.step step numbers, hterms'.trans hterms, Nat.le_trans hle hle'⟩
  | others m run renew numbers ih =>
      obtain ⟨hexpects, hterms, hle⟩ := ih
      rw [time_of_letsRenew renew]
      exact ⟨hexpects.meddle renew numbers, hterms, hle⟩

/-! ## Registrations in time -/

/-- How late a registration can be, counted from the last renewal of its lease, and why it
ends. -/
inductive Upheld (origin : Reading) (terms : Terms) (lease : LeaseId) (told : Prop) (time : Nat)
    (store : MemoryStore) : Stage → Prop where
  | held {plan : Registration.Plan} {hold : Hold} {ticker : Ticker} {since : Nat}
      (hacks : hold.acks = .renewing lease ticker) (hticker : ticker.Paced terms since)
      (hsecured : Secured origin terms lease since store) (hsince : since ≤ time)
      (htime : time ≤ since + terms.lateness) :
      Upheld origin terms lease told time store (.held plan lease hold)
  | refreshing {plan : Registration.Plan} {call : Call} {hold : Hold} {ticker : Ticker}
      {since : Nat} (hacks : hold.acks = .renewing lease ticker)
      (hticker : ticker.Paced terms since) (hsecured : Secured origin terms lease since store)
      (hsince : since ≤ time) (hends : call.endsAt ≤ since + terms.lateness)
      (htime : time ≤ call.endsAt) :
      Upheld origin terms lease told time store (.refreshing plan lease call hold)
  | leaving {plan : Registration.Plan} {call : Call} {hold : Option Hold} (h : told) :
      Upheld origin terms lease told time store (.releasing plan lease none call hold)
  | left (h : told) : Upheld origin terms lease told time store (.finished none)

variable {told told' : Prop} {time : Nat} {store store' : MemoryStore}

/-- What matters of a store is the lease. -/
theorem Upheld.mono (h : Upheld origin terms lease told time store stage)
    (hbound : terms.renewalMillis + terms.patience ≤ 1000 * terms.seconds) (htold : told → told')
    (hstore : ∀ since, since ≤ time → time < since + 1000 * terms.seconds →
      Secured origin terms lease since store → Secured origin terms lease since store') :
    Upheld origin terms lease told' time store' stage := by
  have hlate := Terms.lateness_lt hbound
  cases h with
  | held hacks hticker hsecured hsince htime =>
      exact .held hacks hticker (hstore _ hsince (by omega) hsecured) hsince htime
  | refreshing hacks hticker hsecured hsince hends htime =>
      exact .refreshing hacks hticker (hstore _ hsince (by omega) hsecured) hsince hends htime
  | leaving h => exact .leaving (htold h)
  | left h => exact .left (htold h)

/-- No turn makes a registration late. -/
theorem Upheld.turn (h : Upheld origin a.terms lease told env.time env.store stage)
    (hbound : a.terms.renewalMillis + a.terms.patience ≤ 1000 * a.terms.seconds)
    (hserving : env.Serving origin) (hfit : Fits origin a.terms env.time)
    (hcancel : a.isCancelled env = true → told) (hturn : Turn a env stage stage' env') :
    Upheld origin a.terms lease told env'.time env'.store stage' := by
  have hlate := Terms.lateness_lt hbound
  have hkept {since : Nat} (hsecured : Secured origin a.terms lease since env.store)
      (hsince : since ≤ env.time) (htime : env.time < since + 1000 * a.terms.seconds)
      (hlease : stage.lease? = some lease) : Secured origin a.terms lease since env'.store :=
    hsecured.turn hserving hfit hsince htime hlease hturn
  rw [hturn.sameSetting.time]
  cases hturn with
  | cancelled notes hcancelled =>
      cases h with
      | held => exact .leaving (hcancel hcancelled)
  | renewed notes hdue htake httl =>
      cases h with
      | held hacks hticker hsecured hsince htime =>
          rw [hacks] at hdue htake
          obtain ⟨_, hnext, hsecured'⟩ := hsecured.taken hserving hfit (by omega) htake
          exact .held hnext (hticker.take (of_decide_eq_true hdue)) hsecured' (Nat.le_refl _)
            (by omega)
  | lost reason notes hdue htake hitem =>
      cases h with
      | held hacks hticker hsecured hsince htime =>
          rw [hacks] at htake
          obtain ⟨hrenewed, _, _⟩ := hsecured.taken hserving hfit (by omega) htake
          have hexpired := hitem _ hrenewed
          exact (hexpired (Terms.ttl_pos hfit.seconds)).elim
  | ticked notes hacks hdue =>
      cases h with
      | held hacks' hticker hsecured hsince htime =>
          rw [hacks'] at hacks
          have hearly := Nat.lt_of_not_le (of_decide_eq_false hacks)
          have hnext := hticker.dueAt_le
          obtain ⟨hafter, hends⟩ := endsAt_callFor a.terms env .get
          refine .refreshing hacks' hticker hsecured hsince ?_ hafter
          -- The next renewal is not due yet, so a millisecond of its period is left.
          unfold Terms.lateness at htime ⊢
          omega
  | refreshed notes hover hresult =>
      cases h with
      | refreshing hacks hticker hsecured hsince hends htime =>
          have hsecured' := hkept hsecured hsince (by omega) rfl
          exact .held hacks hticker hsecured' hsince (Nat.le_trans htime hends)
  | released notes hover hresult =>
      cases h with
      | leaving htold => exact .left htold
  | refused | stopped | begun | ungranted | granted | unpublished | published | unopened
  | opened => cases h

/-- Time does not pass the limit of a registration. -/
theorem Upheld.pass (h : Upheld origin terms lease told env.time store a.stage) {later : Nat}
    (hlater : env.time ≤ later) (hawake : ∀ due, a.dueAt = some due → later ≤ due) :
    Upheld origin terms lease told later store a.stage := by
  rcases a with ⟨terms', passedOn, stage⟩
  simp only at h ⊢
  cases h with
  | held hacks hticker hsecured hsince htime =>
      have hdue := hticker.dueAt_le
      have hlimit := le_dueAt_of_awake hacks hawake
      refine .held hacks hticker hsecured (Nat.le_trans hsince hlater) ?_
      unfold Terms.lateness
      omega
  | refreshing hacks hticker hsecured hsince hends htime =>
      exact .refreshing hacks hticker hsecured (Nat.le_trans hsince hlater) hends (hawake _ rfl)
  | leaving h => exact .leaving h
  | left h => exact .left h

/-- A lease that a stream was opened for has just been renewed. -/
theorem Granted.opened (h : Granted terms env.store lease) (hserving : env.Serving origin)
    (hfit : Fits origin terms env.time) {acks : AckStream}
    (hopened : env.keepAlive lease = (.ok acks, env')) :
    acks = AckStream.renewals env.time none lease terms.ttl ∧
      Secured origin terms lease env.time env'.store := by
  cases hlookup : (env.store.purge env.now).leases.lookup lease with
  | none =>
      have hfault : env.store.faults.contains .keepAlive = false := by
        rw [← Bool.not_eq_true, List.contains_iff_mem]
        exact hserving.renewals
      rw [Serving.openStream hserving, Environment.openStream,
        Environment.ask_of_reachable hserving.reachable] at hopened
      simp only [MemoryStore.renew_of_none hfault hlookup, AckStream.opening] at hopened
      cases hopened
  | some held =>
      have hthere := (hserving.store.purge env.now).distinct
      have hmem := (MemoryStore.lookup_eq_some_iff hthere).mp hlookup
      obtain ⟨hmem, hlive⟩ := (MemoryStore.mem_leases_purge hserving.store).mp hmem
      obtain ⟨s, hanswer, hrenewed⟩ := Serving.keepAlive hserving hmem hlive
      rw [h.ttl held hmem] at hanswer hrenewed
      rw [hopened] at hanswer
      obtain ⟨hacks, rfl⟩ := Prod.mk.inj hanswer
      exact ⟨Except.ok.inj hacks, Secured.granted hserving.clock hfit hrenewed⟩

/-- An attempt that registers just now holds its first stream, and has just renewed its lease. -/
theorem Registers.upheld {d : Descriptor}
    (h : Registers (.unstarted terms d) env₀ lease a env) (hserving : env₀.Serving origin)
    (hfit : Fits origin terms env.time) :
    (∃ plan hold, a.stage = .held plan lease hold) ∧
      Upheld origin terms lease told env.time env.store a.stage := by
  cases h with
  | @intro a₁ _ env₁ _ run before step after numbers =>
      obtain ⟨hexpects, hterms, _⟩ := run.expects (.unstarted hserving terms d)
      have hterms : a₁.terms = terms := hterms
      have hgranted := hexpects.lease
      rcases step_cases hexpects.order step with ⟨rfl, rfl, _⟩ | ⟨stage, hturn, rfl⟩ | ⟨rfl, _⟩
      · rw [before] at after
        cases after
      · have htime := hturn.sameSetting.time
        rw [hterms] at hgranted
        rw [htime] at hfit ⊢
        generalize a₁.stage = first at hturn before hgranted
        cases hturn with
        | @opened plan lease' call acks env'' notes hover hresult =>
            obtain rfl : lease' = lease := Option.some.inj after
            obtain ⟨hacks, hsecured⟩ := (hgranted lease' rfl).opened hexpects.serving hfit
              (answer_of_conclusion hresult)
            refine ⟨⟨plan, _, rfl⟩, ?_⟩
            exact .held hacks (Ticker.Paced.started hfit.seconds env₁.time) hsecured
              (Nat.le_refl _) (Nat.le_add_right _ _)
        | renewed | ticked | refreshed | cancelled | lost => cases before
        | refused | stopped | begun | ungranted | granted | unpublished | published | unopened
        | released => cases after
      · rw [before] at after
        cases after

theorem Registers.fares (h : Registers a₀ env₀ lease a env) : Fares a₀ env₀ a env := by
  cases h with
  | intro run before step after numbers => exact run.own step numbers

/-- A lease stays secured unless it is the one that a command ends, by its answer. -/
theorem Secured.spared {since : Nat} (h : Secured origin terms lease since env.store)
    (hserving : env.Serving origin) (hfit : Fits origin terms env.time) (hsince : since ≤ env.time)
    (htime : env.time < since + 1000 * terms.seconds) {c : Command}
    (hspared : c.dropped? (c.run env.now env.store).1 ≠ some lease) :
    Secured origin terms lease since (c.run env.now env.store).2 := by
  by_cases hrevoke : c = .revoke lease
  · subst hrevoke
    rw [MemoryStore.revoke_of_not_dropped hspared]
    exact h
  · refine h.run hserving hfit hsince htime hrevoke ?_
    rintro rfl
    exact hspared rfl

/-- A step keeps a registration up: its lease is renewed before it lapses, also in trouble. -/
theorem Upheld.step (h : Upheld origin a.terms lease (ToldToStop a.terms env) env.time env.store
      a.stage)
    (hbound : a.terms.renewalMillis + a.terms.patience ≤ 1000 * a.terms.seconds)
    (hexpects : Expects origin a env)
    (hstep : OpenStep moves dueAt Environment.Troubles a env b env')
    (hfit : Fits origin a.terms env'.time) :
    Upheld origin b.terms lease (ToldToStop b.terms env') env'.time env'.store b.stage := by
  rcases step_cases hexpects.order hstep with ⟨rfl, rfl, _⟩ | ⟨stage, hturn, rfl⟩ |
    ⟨rfl, ⟨time, rfl, hlater, hawake⟩ | ⟨millis, failing, rfl⟩⟩
  · exact h
  · have hsame := hturn.sameSetting
    rw [hsame.time] at hfit
    have hnext := h.turn hbound hexpects.serving hfit hexpects.told hturn
    refine hnext.mono hbound ?_ fun _ _ _ hsecured => hsecured
    exact fun htold => htold.mono (by rw [hsame.raised]; exact List.Subset.refl _)
  · exact h.pass hlater hawake
  · exact h.mono hbound id fun _ _ _ hsecured => hsecured

/-- What others may do keeps a registration up, unless they end its lease. -/
theorem Upheld.meddle {m : Meddling} (h : Upheld origin a.terms lease (ToldToStop a.terms env)
      env.time env.store a.stage)
    (hbound : a.terms.renewalMillis + a.terms.patience ≤ 1000 * a.terms.seconds)
    (hserving : env.Serving origin) (hm : m.LetsRenew) (hspared : lease ∉ m.dropped env)
    (hfit : Fits origin a.terms env.time) :
    Upheld origin a.terms lease (ToldToStop a.terms (m.act env)) (m.act env).time
      (m.act env).store a.stage := by
  rw [time_of_letsRenew hm]
  cases hm with
  | command hfault =>
      rw [Meddling.dropped, Option.mem_toList] at hspared
      exact h.mono hbound id fun since hsince htime hsecured =>
        hsecured.spared hserving hfit hsince htime hspared
  | signal s =>
      exact h.mono hbound (fun htold => htold.mono (List.subset_cons_self s env.raised))
        fun _ _ _ hsecured => hsecured
  | slow | elsewhere => exact h.mono hbound id fun _ _ _ hsecured => hsecured

/-- A registration that is upheld and was not told to stop is held. -/
theorem Upheld.holds (h : Upheld origin a.terms lease (ToldToStop a.terms env) env.time env.store
      a.stage)
    (hbound : a.terms.renewalMillis + a.terms.patience ≤ 1000 * a.terms.seconds)
    (hserving : env.Serving origin) (hfit : Fits origin a.terms env.time)
    (htold : ¬ ToldToStop a.terms env) : a.Holds env lease := by
  have hlate := Terms.lateness_lt hbound
  have hlive {since : Nat} (hsecured : Secured origin a.terms lease since env.store)
      (htime : env.time < since + 1000 * a.terms.seconds) :
      ((env.store.purge env.now).leases.lookup lease).isSome = true := by
    obtain ⟨held, hmem, _, hlive⟩ := hsecured.live hserving.clock hfit htime
    rw [MemoryStore.lookup_purge hserving.store hmem hlive]
    rfl
  unfold Holds
  generalize a.stage = stage at h
  cases h with
  | held hacks hticker hsecured hsince htime => exact ⟨rfl, hlive hsecured (by omega)⟩
  | refreshing hacks hticker hsecured hsince hends htime =>
      exact ⟨rfl, hlive hsecured (by omega)⟩
  | leaving h => exact absurd h htold
  | left h => exact absurd h htold

end

end Attempt
end ServiceDiscovery
