import ServiceDiscovery.Proofs.Schedule.Endurance

/-!
# Trouble with scans

Two runs of an attempt are compared from the moment at which it registers. Others do the
same in both, but scans are answered at once in the first run, while they may hang or
fail in the second. When the lease outlasts the time between two renewals and the
patience for one call together, the second registration is held as long as the first;
when it does not, a scan that hangs can be the end of it.

Main results:

- Definition {lit}`Attempt.Apart`: two runs that differ in what happens to scans only.
- Theorem {lit}`Attempt.Apart.compares`: what the first run tells about the second.
- Theorem {lit}`Attempt.held_despite_trouble`: what is held as long as every scan is
  answered at once is held in the other run as well.
- Theorem {lit}`Attempt.lost_in_trouble`: with a shorter lease it can be lost there.
-/

namespace ServiceDiscovery

/-- Every scan is answered at once. -/
def Environment.Prompt (env : Environment) : Prop :=
  env.delays .get = 0 ∧ Operation.get ∉ env.store.faults

instance (env : Environment) : Decidable env.Prompt :=
  inferInstanceAs (Decidable (_ ∧ _))

namespace Attempt

/-! ## Two runs -/

/-- Two runs of an attempt from one state, and the leases that others have ended meanwhile. Others
do the same in both, though not necessarily at the same moments. In the first run every scan is
answered at once; in the second anything may happen to scans. -/
inductive Apart (a₀ : Attempt) (env₀ : Environment) :
    List LeaseId → Attempt → Environment → Attempt → Environment → Prop where
  | begin : Apart a₀ env₀ [] a₀ env₀ a₀ env₀
  | first {dropped : List LeaseId} {a b c : Attempt} {env env' env'' : Environment}
      (runs : Apart a₀ env₀ dropped a env b env') (prompt : env.Prompt)
      (step : OpenStep moves dueAt (fun _ _ => False) a env c env'')
      (numbers : 1 ≤ env''.store.nextLease.toInt) : Apart a₀ env₀ dropped c env'' b env'
  | second {dropped : List LeaseId} {a b c : Attempt} {env env' env'' : Environment}
      (runs : Apart a₀ env₀ dropped a env b env')
      (step : OpenStep moves dueAt Environment.Troubles b env' c env'')
      (numbers : 1 ≤ env''.store.nextLease.toInt) : Apart a₀ env₀ dropped a env c env''
  | both {dropped : List LeaseId} {a b : Attempt} {env env' : Environment} (m : Meddling)
      (runs : Apart a₀ env₀ dropped a env b env') (renew : m.LetsRenew)
      (numbers : 1 ≤ (m.act env).store.nextLease.toInt)
      (numbers' : 1 ≤ (m.act env').store.nextLease.toInt) :
      Apart a₀ env₀ (m.dropped env' ++ dropped) a (m.act env) b (m.act env')

section

variable {origin : Reading} {terms : Terms} {lease : LeaseId} {dropped : List LeaseId}
  {a₀ a b c : Attempt} {env₀ env env' env'' : Environment}

theorem Apart.fares (h : Apart a₀ env₀ dropped a env b env') :
    Fares a₀ env₀ a env ∧ Fares a₀ env₀ b env' := by
  induction h with
  | begin => exact ⟨.begin, .begin⟩
  | first runs prompt step numbers ih =>
      exact ⟨ih.1.own (step.mono fun _ _ => False.elim) numbers, ih.2⟩
  | second runs step numbers ih => exact ⟨ih.1, ih.2.own step numbers⟩
  | both m runs renew numbers numbers' ih =>
      exact ⟨ih.1.others m renew numbers, ih.2.others m renew numbers'⟩

/-- A scan that is under way is over. -/
def Answered (a : Attempt) (env : Environment) : Prop :=
  ∀ plan lease call hold, a.stage = .refreshing plan lease call hold → call.endsAt ≤ env.time

/-- Where every scan is answered at once, none is waited for. -/
theorem Answered.step (h : Answered a env) (horder : a.stage.InOrder) (hprompt : env.Prompt)
    (hstep : OpenStep moves dueAt (fun _ _ => False) a env b env') : Answered b env' := by
  intro plan lease call hold hstage
  rcases step_cases horder (hstep.mono fun _ _ => False.elim) with ⟨rfl, rfl, _⟩ |
    ⟨stage, hturn, rfl⟩ | ⟨rfl, ⟨time, rfl, hlater, _⟩ | ⟨millis, failing, rfl⟩⟩
  · exact h plan lease call hold hstage
  · rw [hturn.sameSetting.time]
    simp only at hstage
    subst hstage
    generalize a.stage = before at hturn
    cases hturn with
    | ticked notes hacks hdue =>
        unfold callFor
        rw [hprompt.1]
        exact Nat.min_le_left _ _
  · exact Nat.le_trans (h plan lease call hold hstage) hlater
  · exact h plan lease call hold hstage

/-- A registration that has nothing to do at present was not told to stop. -/
theorem not_told_of_settled {p : Registration.Plan × LeaseId} (horder : a.stage.InOrder)
    (hregistered : a.stage.registered? = some p) (hanswered : Answered a env)
    (hsettled : a.moves env = []) : ¬ ToldToStop a.terms env := by
  obtain ⟨hadvance, hrelay⟩ := List.append_eq_nil_iff.mp hsettled
  rw [Option.toList_eq_nil_iff, Option.map_eq_none_iff] at hrelay
  rw [Option.toList_eq_nil_iff, advance, Option.map_eq_none_iff] at hadvance
  rcases a with ⟨terms, passedOn, stage⟩
  simp only at horder hregistered
  cases horder with
  | held plan lease hold =>
      have hcancel : isCancelled ⟨terms, passedOn, .held plan lease hold⟩ env = false := by
        rw [← Bool.not_eq_true]
        intro hcancel
        simp [nextStage, attend, hcancel] at hadvance
      obtain ⟨hpassed, hraised⟩ := Bool.or_eq_false_iff.mp hcancel
      simp only at hpassed hraised
      rintro (hwatched | ⟨s, hs, hsignal⟩)
      · rw [hraised] at hwatched
        cases hwatched
      · have hs : terms.relayed = some s := hs
        simp [relay, hs, hsignal, hpassed, outcome?] at hrelay
  | refreshing plan lease call hold =>
      have hover := hanswered plan lease call hold rfl
      simp [nextStage, hover] at hadvance
  | unstarted | granting | publishing | opening | releasing | finished => cases hregistered

/-- What the first run tells about the second. -/
structure Compares (origin : Reading) (lease : LeaseId) (dropped : List LeaseId) (a : Attempt)
    (env : Environment) (b : Attempt) (env' : Environment) : Prop where
  answered : Answered a env
  number : lease.id.toInt < env.store.nextLease.toInt
  gone : lease ∈ dropped → lease ∉ env.store.leases.map (·.1)
  upheld : lease ∉ dropped →
    Upheld origin b.terms lease (ToldToStop b.terms env') env'.time env'.store b.stage
  raised : env'.raised = env.raised
  revokes : Operation.revoke ∈ env'.store.faults ↔ Operation.revoke ∈ env.store.faults

/-- A lease that was granted and is gone does not come back with a step. -/
theorem gone_of_step (horder : a.stage.InOrder) (hstore : env.store.WellFormed)
    (hstep : OpenStep moves dueAt Environment.Troubles a env b env')
    (hnumbers : 1 ≤ env'.store.nextLease.toInt)
    (hnumber : lease.id.toInt < env.store.nextLease.toInt) :
    lease.id.toInt < env'.store.nextLease.toInt ∧
      (lease ∉ env.store.leases.map (·.1) → lease ∉ env'.store.leases.map (·.1)) := by
  rcases step_cases horder hstep with ⟨rfl, rfl, _⟩ | ⟨stage, hturn, rfl⟩ |
    ⟨rfl, ⟨time, rfl, _⟩ | ⟨millis, failing, rfl⟩⟩
  · exact ⟨hnumber, id⟩
  · refine hturn.keeps (P := fun s => lease.id.toInt < s.nextLease.toInt ∧
      (lease ∉ env.store.leases.map (·.1) → lease ∉ s.leases.map (·.1))) ⟨hnumber, id⟩ ?_
    intro c _ heq
    rw [heq] at hnumbers
    exact ⟨MemoryStore.number_run hnumbers hnumber,
      fun hgone => MemoryStore.not_mem_leases_run hstore hgone hnumber c⟩
  · exact ⟨hnumber, id⟩
  · exact ⟨hnumber, id⟩

theorem Compares.first (h : Compares origin lease dropped a env b env')
    (hexpects : Expects origin a env) (hprompt : env.Prompt)
    (hstep : OpenStep moves dueAt (fun _ _ => False) a env c env'')
    (hnumbers : 1 ≤ env''.store.nextLease.toInt) :
    Compares origin lease dropped c env'' b env' := by
  have hstep' : OpenStep moves dueAt Environment.Troubles a env c env'' :=
    hstep.mono fun _ _ => False.elim
  obtain ⟨_, hraised, _, hfaults⟩ := step_frame hexpects.order hstep'
  obtain ⟨hnumber, hgone⟩ :=
    gone_of_step hexpects.order hexpects.serving.store hstep' hnumbers h.number
  exact ⟨h.answered.step hexpects.order hprompt hstep, hnumber, fun hmem => hgone (h.gone hmem),
    h.upheld, h.raised.trans hraised.symm,
    h.revokes.trans (hfaults .revoke (by decide)).symm⟩

theorem Compares.second (h : Compares origin lease dropped a env b env')
    (hbound : b.terms.renewalMillis + b.terms.patience ≤ 1000 * b.terms.seconds)
    (hexpects : Expects origin b env')
    (hstep : OpenStep moves dueAt Environment.Troubles b env' c env'')
    (hfit : Fits origin b.terms env''.time) : Compares origin lease dropped a env c env'' := by
  obtain ⟨_, hraised, _, hfaults⟩ := step_frame hexpects.order hstep
  exact ⟨h.answered, h.number, h.gone,
    fun hmem => (h.upheld hmem).step hbound hexpects hstep hfit, hraised.trans h.raised,
    (hfaults .revoke (by decide)).trans h.revokes⟩

/-- Whatever others do is the same to both runs, so a lease that they end in the second is gone from
the first. -/
theorem Compares.both {m : Meddling} (h : Compares origin lease dropped a env b env')
    (hbound : b.terms.renewalMillis + b.terms.patience ≤ 1000 * b.terms.seconds)
    (hstore : env.store.WellFormed) (hserving : env'.Serving origin) (hm : m.LetsRenew)
    (hnumbers : 1 ≤ (m.act env).store.nextLease.toInt) (hfit : Fits origin b.terms env'.time) :
    Compares origin lease (m.dropped env' ++ dropped) a (m.act env) b (m.act env') := by
  have hanswered : Answered a (m.act env) := by
    intro plan lease call hold hstage
    rw [time_of_letsRenew hm]
    exact h.answered plan lease call hold hstage
  have hupheld (hspared : lease ∉ m.dropped env' ++ dropped) : Upheld origin b.terms lease
      (ToldToStop b.terms (m.act env')) (m.act env').time (m.act env').store b.stage := by
    rw [List.mem_append, not_or] at hspared
    exact (h.upheld hspared.2).meddle hbound hserving hm hspared.1 hfit
  cases hm with
  | @command c hfault =>
      refine ⟨hanswered, MemoryStore.number_run hnumbers h.number, ?_, hupheld, h.raised, ?_⟩
      · intro hmem
        rcases List.mem_append.mp hmem with hmem | hmem
        · -- Releases fail in both runs or in neither, so the same command ends the same lease.
          rw [Meddling.dropped, Option.mem_toList,
            MemoryStore.dropped?_congr h.revokes c env'.now env.now] at hmem
          exact MemoryStore.not_mem_leases_of_dropped hmem
        · exact MemoryStore.not_mem_leases_run hstore (h.gone hmem) h.number c
      · simp only [Meddling.act, MemoryStore.mem_faults_run_iff, h.revokes]
  | signal s =>
      exact ⟨hanswered, h.number, h.gone, hupheld, congrArg (s :: ·) h.raised, h.revokes⟩
  | slow | elsewhere => exact ⟨hanswered, h.number, h.gone, hupheld, h.raised, h.revokes⟩

/-- Two runs compare as long as they go on. -/
theorem Apart.compares (hruns : Apart a₀ env₀ dropped a env b env')
    (hexpects : Expects origin a₀ env₀)
    (hbound : a₀.terms.renewalMillis + a₀.terms.patience ≤ 1000 * a₀.terms.seconds)
    (hbegin : Compares origin lease [] a₀ env₀ a₀ env₀) (hfit : Fits origin a₀.terms env'.time) :
    Compares origin lease dropped a env b env' := by
  induction hruns with
  | begin => exact hbegin
  | first runs prompt step numbers ih =>
      obtain ⟨hfirst, _, _⟩ := runs.fares.1.expects hexpects
      exact (ih hfit).first hfirst prompt step numbers
  | second runs step numbers ih =>
      obtain ⟨hsecond, hterms, _⟩ := runs.fares.2.expects hexpects
      obtain ⟨_, _, hle, _⟩ := step_frame hsecond.order step
      have hcompares := ih (hfit.earlier hle)
      rw [← hterms] at hbound hfit
      exact hcompares.second hbound hsecond step hfit
  | both m runs renew numbers numbers' ih =>
      obtain ⟨hfirst, _, _⟩ := runs.fares.1.expects hexpects
      obtain ⟨hsecond, hterms, _⟩ := runs.fares.2.expects hexpects
      rw [time_of_letsRenew renew] at hfit
      have hcompares := ih hfit
      rw [← hterms] at hbound hfit
      exact hcompares.both hbound hfirst.serving.store hsecond.serving renew numbers hfit

/-- Discovery trouble never ends a registration whose lease outlasts the time between two renewals
and the patience for one call. From the moment at which an attempt registers, compare any two runs
in which others do the same and renewals are answered, but in which scans are answered at once in
the one, while they take however long, fail or are given up in the other:

- if the registration is still held when the first run has settled, it is held in the second;
- the second ends with the loss of the lease only if others have ended the lease. -/
theorem held_despite_trouble {d : Descriptor} (hserving : env₀.Serving origin)
    (hbound : terms.renewalMillis + terms.patience ≤ 1000 * terms.seconds)
    {env₁ env₂ : Environment} (hregisters : Registers (.unstarted terms d) env₀ lease a env)
    (hruns : Apart a env dropped b env₁ c env₂) (hfit : Fits origin terms env₂.time) :
    (b.moves env₁ = [] → b.Holds env₁ lease → c.Holds env₂ lease) ∧
      ∀ reason, c.stage = .finished (some (.leaseLost reason)) → lease ∈ dropped := by
  obtain ⟨hexpects, hterms, _⟩ := hregisters.fares.expects (.unstarted hserving terms d)
  have hterms : a.terms = terms := hterms
  obtain ⟨hfirst, hterms₁, _⟩ := hruns.fares.1.expects hexpects
  obtain ⟨hsecond, hterms₂, hle⟩ := hruns.fares.2.expects hexpects
  obtain ⟨⟨plan, hold, hstage⟩, hupheld⟩ := hregisters.upheld hserving (hfit.earlier hle)
  rw [← hterms] at hbound hfit hupheld
  have hanswered : Answered a env := by
    intro _ _ _ _ hrefreshing
    rw [hstage] at hrefreshing
    cases hrefreshing
  have hlease : a.stage.lease? = some lease := by rw [hstage]; rfl
  have hbegin : Compares origin lease [] a env a env :=
    ⟨hanswered, (hexpects.lease lease hlease).number, nofun, fun _ => hupheld, rfl, Iff.rfl⟩
  have hcompares := hruns.compares hexpects hbound hbegin hfit
  constructor
  · rintro hsettled ⟨hregistered, hlive⟩
    have hthere : lease ∈ env₁.store.leases.map (·.1) := by
      obtain ⟨l, hl, rfl⟩ := List.mem_map.mp (MemoryStore.lookup_isSome_iff.mp hlive)
      exact List.mem_map_of_mem ((MemoryStore.mem_leases_purge hfirst.serving.store).mp hl).1
    -- The first run still has the lease, so nobody has ended it in either run.
    have hspared : lease ∉ dropped := fun hmem => hcompares.gone hmem hthere
    obtain ⟨p, hp, _⟩ := Option.map_eq_some_iff.mp hregistered
    have htold := not_told_of_settled hfirst.order hp hcompares.answered hsettled
    rw [← hterms₂] at hbound hfit
    refine (hcompares.upheld hspared).holds hbound hsecond.serving hfit fun htold' => htold ?_
    rw [hterms₁, ← hterms₂]
    exact htold'.mono (by rw [hcompares.raised]; exact List.Subset.refl _)
  · intro reason hlost
    by_contra hspared
    have hlate := hcompares.upheld hspared
    rw [hlost] at hlate
    cases hlate

/-! ## A short lease -/

/-- The first run goes on by itself. -/
theorem Apart.first_carryOn (n : Nat) {x : Attempt × Environment}
    (hruns : Apart a₀ env₀ dropped x.1 x.2 b env') (hprompt : ∀ k < n, (carryOn k x).2.Prompt)
    (hnumbers : ∀ k < n, 1 ≤ (carryOn (k + 1) x).2.store.nextLease.toInt) :
    Apart a₀ env₀ dropped (carryOn n x).1 (carryOn n x).2 b env' := by
  refine carryOn_induction (P := fun y => Apart a₀ env₀ dropped y.1 y.2 b env') n hruns ?_
  intro k hk hnext hstep
  exact hnext.first (hprompt k hk) hstep (hnumbers k hk)

/-- The second run goes on by itself. -/
theorem Apart.second_carryOn (n : Nat) {x : Attempt × Environment}
    (hruns : Apart a₀ env₀ dropped a env x.1 x.2)
    (hnumbers : ∀ k < n, 1 ≤ (carryOn (k + 1) x).2.store.nextLease.toInt) :
    Apart a₀ env₀ dropped a env (carryOn n x).1 (carryOn n x).2 := by
  refine carryOn_induction (P := fun y => Apart a₀ env₀ dropped a env y.1 y.2) n hruns ?_
  intro k hk hnext hstep
  exact hnext.second (hstep.mono fun _ _ => False.elim) (hnumbers k hk)

theorem registers_carryOn (n : Nat) {x : Attempt × Environment}
    (hbefore : (carryOn n x).1.stage.registered? = none)
    (hafter : (carryOn (n + 1) x).1.stage.registered?.map (·.2) = some lease)
    (hnumbers : ∀ k < n + 1, 1 ≤ (carryOn (k + 1) x).2.store.nextLease.toInt) :
    Registers x.1 x.2 lease (carryOn (n + 1) x).1 (carryOn (n + 1) x).2 := by
  have hruns : Apart x.1 x.2 [] x.1 x.2 (carryOn n x).1 (carryOn n x).2 :=
    Apart.begin.second_carryOn n fun k hk => hnumbers k (Nat.lt_succ_of_lt hk)
  rcases openStep_proceed moves dueAt Environment.Troubles (carryOn n x).1 (carryOn n x).2 with
    hstill | hstep
  · rw [show carryOn (n + 1) x = carryOn n x from hstill, hbefore] at hafter
    cases hafter
  · exact .intro hruns.fares.2 hbefore hstep hafter (hnumbers n (Nat.lt_succ_self n))

end

/-- A fresh environment with a lease of two seconds and some patience for each call. -/
def seeking (patience : Nat) : Environment :=
  .initial (.running 0) [{ leaseTtl := .ofSeconds 2, callTimeout := .ofMillis patience }]

theorem serving_seeking (patience : Nat) : (seeking patience).Serving 0 :=
  ⟨rfl, rfl, rfl, rfl, .empty, List.not_mem_nil⟩

/-- An attempt in that environment. -/
def seeker (patience : Nat) : Attempt × Environment :=
  (unstarted ((seeking patience).terms 0 (.shutdown 0)) (.ofAddress "a" "h" ""), seeking patience)

/-- From now on scans hang for ten seconds. -/
def hanging (x : Attempt × Environment) : Attempt × Environment :=
  (x.1, x.2.troubled 10000 false)

/-- A call of 1334 milliseconds and a renewal every 666 milliseconds take two seconds together. The
registration is held after three seconds, while the second scan hangs already. -/
theorem held_despite_trouble_hanging :
    let x := carryOn 11 (hanging (carryOn 4 (seeker 1334)))
    x.2.time = 3000 ∧ x.1.Holds x.2 ⟨1⟩ := by
  intro x
  have hregisters : Registers (seeker 1334).1 (seeking 1334) ⟨1⟩ (carryOn 4 (seeker 1334)).1
      (carryOn 4 (seeker 1334)).2 :=
    registers_carryOn 3 (by decide +kernel) (by decide +kernel) (by decide +kernel)
  have hruns : Apart (carryOn 4 (seeker 1334)).1 (carryOn 4 (seeker 1334)).2 []
      (carryOn 14 (carryOn 4 (seeker 1334))).1 (carryOn 14 (carryOn 4 (seeker 1334))).2 x.1 x.2 :=
    (((Apart.begin.first_carryOn 14 (by decide +kernel) (by decide +kernel)).second
      (.meddle ⟨10000, false, rfl⟩) (by decide +kernel)).second_carryOn 11 (by decide +kernel))
  refine ⟨by decide +kernel, ?_⟩
  exact (held_despite_trouble (serving_seeking 1334) (by decide +kernel) hregisters hruns
    (by decide +kernel)).1 (List.isEmpty_iff.mp (by decide +kernel)) (by decide +kernel)

/-- With three seconds for each call, a lease of two seconds is lost as soon as a scan hangs. Nobody
has ended it, and if scans are answered at once it is held at the same moment. -/
theorem lost_in_trouble :
    let x := carryOn 4 (seeker 3000)
    let y := carryOn 14 x
    let z := carryOn 5 (hanging x)
    (seeking 3000).Serving 0 ∧ Registers (seeker 3000).1 (seeking 3000) ⟨1⟩ x.1 x.2 ∧
      Apart x.1 x.2 [] y.1 y.2 z.1 z.2 ∧ Fits 0 (seeker 3000).1.terms z.2.time ∧
      z.2.time = y.2.time ∧ y.1.moves y.2 = [] ∧ y.1.Holds y.2 ⟨1⟩ ∧
      z.1.stage = .finished (some (.leaseLost "keepalive stream for lease 1 closed")) := by
  intro x y z
  refine ⟨serving_seeking 3000, ?_, ?_, by decide +kernel, by decide +kernel,
    List.isEmpty_iff.mp (by decide +kernel), by decide +kernel,
    finished_of_outcome (by decide +kernel)⟩
  · exact registers_carryOn 3 (by decide +kernel) (by decide +kernel) (by decide +kernel)
  · exact ((Apart.begin.first_carryOn 14 (by decide +kernel) (by decide +kernel)).second
      (.meddle ⟨10000, false, rfl⟩) (by decide +kernel)).second_carryOn 5 (by decide +kernel)

end Attempt
end ServiceDiscovery
