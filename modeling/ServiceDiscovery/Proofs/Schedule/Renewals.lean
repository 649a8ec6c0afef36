import ServiceDiscovery.Proofs.Schedule.Lateness
import ServiceDiscovery.Schedule.Supervision

/-!
# Renewals in time

An attempt whose surroundings are calm is never late, so its lease is live for as
long as the attempt relies on it, however slow the store is.

Main results:

- Definition {lit}`Attempt.Reaches`: runs in which others do not drop the lease.
- Theorem {lit}`Attempt.Reaches.progress`: no run gets stuck before the attempt is over.
- Theorem {lit}`Attempt.Attended.step`: no step makes an attempt late.
- Theorem {lit}`Attempt.renewals_in_time`: the lease of an attempt is live for as
  long as it is needed, and a registration ends only when it is told to.
-/

namespace ServiceDiscovery

/-! ## Runs among others -/

/-- What others may do: they do not drop the lease on which an attempt relies, and they let no
operation fail but scans and releases. -/
inductive Meddling.Spares (lease : Option LeaseId) : Meddling → Prop where
  | command {c : MemoryStore.Command}
      (hdrop : ∀ l, lease = some l → c ≠ .revoke l ∧ c ≠ .expireLease l)
      (hfault : ∀ op, c = .injectFault op → op = .get ∨ op = .revoke) : Spares lease (.command c)
  | slow (delays : Operation → Nat) : Spares lease (.slow delays)
  | signal (s : Signal) : Spares lease (.signal s)
  | elsewhere (clients : List Client) (localAddress : String) (bits : Nat)
      (journal : List LogEntry) : Spares lease (.elsewhere clients localAddress bits journal)

namespace Attempt

/-- The failure with which an attempt has ended, or is about to end. -/
def Stage.failure? : Stage → Option Failure
  | .running p =>
    match p.phase with
    | .releasing _ cause => cause
    | _ => none
  | .finished failure => failure
  | .unstarted _ => none

/-- The attempt is registered. -/
def Stage.IsRegistered (stage : Stage) : Prop :=
  (∃ plan lease hold, stage = .held plan lease hold) ∨
    ∃ plan lease call hold, stage = .refreshing plan lease call hold

/-- The attempt has ended without a failure, or is about to. -/
def Stage.IsLeaving (stage : Stage) : Prop :=
  (∃ plan lease call hold, stage = .releasing plan lease none call hold) ∨ stage = .finished none

/-- The attempt has been told to stop, by either of its signals. -/
def ToldToStop (terms : Terms) (env : Environment) : Prop :=
  env.isRaised terms.watched = true ∨ ∃ s, terms.relayed = some s ∧ env.isRaised s = true

/-- Runs of an attempt on whose lease others lay no hands, as long as lease numbers last. -/
inductive Reaches : Attempt → Environment → Attempt → Environment → Prop where
  | refl (a : Attempt) (env : Environment) : Reaches a env a env
  | tail {a b c : Attempt} {env env' env'' : Environment} (reached : Reaches a env b env')
      (step : OpenStep moves dueAt
        (fun e e' => ∃ m : Meddling, m.Spares b.stage.lease? ∧ e' = m.act e) b env' c env'')
      (numbers : 1 ≤ env''.store.nextLease.toInt) : Reaches a env c env''

section

variable {origin : Reading} {terms : Terms} {env env' : Environment} {stage stage' : Stage}

/-! ## Every step -/

/-- The invariant of runs in which others lay no hands on the lease. -/
structure Attended (origin : Reading) (a : Attempt) (env : Environment) : Prop where
  calm : env.Calm origin
  passedOn : a.passedOn = true → ToldToStop a.terms env
  timely : Timely origin a.terms (ToldToStop a.terms env) env.time env.store a.stage

theorem ToldToStop.of_cancelled {a : Attempt} (h : a.isCancelled env = true)
    (hpassed : a.passedOn = true → ToldToStop a.terms env) : ToldToStop a.terms env := by
  rcases Bool.or_eq_true_iff.mp h with h | h
  · exact hpassed h
  · exact Or.inl h

/-- Whoever was told to stop stays told, since no signal is taken back. -/
theorem ToldToStop.mono (h : ToldToStop terms env) (hraised : env.raised ⊆ env'.raised) :
    ToldToStop terms env' := by
  have hkeep {s : Signal} (hs : env.isRaised s = true) : env'.isRaised s = true := by
    rw [Environment.isRaised, List.contains_iff_mem] at *
    exact hraised hs
  rcases h with h | ⟨s, hs, h⟩
  · exact Or.inl (hkeep h)
  · exact Or.inr ⟨s, hs, hkeep h⟩

/-- A turn leaves the environment calm. -/
theorem Calm.turn {a : Attempt} (h : env.Calm origin) (hturn : Turn a env stage stage' env')
    (hnumbers : 1 ≤ env'.store.nextLease.toInt) : env'.Calm origin := by
  obtain ⟨hstore, hfaults⟩ := hturn.store_spec h.store hnumbers
  exact Calm.sameSetting h hturn.sameSetting hstore fun op hop => h.faults op (hfaults hop)

/-- So does what others may do. -/
theorem Calm.meddle {m : Meddling} (h : env.Calm origin) (hspares : m.Spares (stage.lease?))
    (hnumbers : 1 ≤ (m.act env).store.nextLease.toInt) : (m.act env).Calm origin := by
  cases hspares with
  | @command c hdrop hfault =>
      refine ⟨h.clock, h.reachable, h.renewalPeriod, h.script, h.store.run c env.now hnumbers, ?_⟩
      intro op hop
      rcases MemoryStore.mem_faults_run hop with hop | hop
      · exact h.faults op hop
      · exact hfault op hop
  | slow | signal | elsewhere =>
      exact ⟨h.clock, h.reachable, h.renewalPeriod, h.script, h.store, h.faults⟩

/-- A move keeps the lease attended to. -/
theorem Attended.move {a b : Attempt} (h : Attended origin a env)
    (hfit : Fits origin a.terms env.time)
    (hpatience : 2 * a.terms.patience < 1000 * a.terms.seconds)
    (hmove : (b, env') ∈ a.moves env) (hnumbers : 1 ≤ env'.store.nextLease.toInt) :
    Attended origin b env' := by
  rcases moves_cases h.timely.inOrder hmove with ⟨rfl, rfl, s, hs, hraised⟩ | ⟨stage, hturn, rfl⟩
  · exact ⟨h.calm, fun _ => Or.inr ⟨s, hs, hraised⟩, h.timely⟩
  · have hsame := hturn.sameSetting
    have htold : ToldToStop a.terms env → ToldToStop a.terms env' :=
      fun htold => htold.mono (by rw [hsame.raised]; exact fun _ hs => hs)
    have htimely := h.timely.turn h.calm hfit hpatience
      (fun hcancel => ToldToStop.of_cancelled hcancel h.passedOn) hturn
    refine ⟨Calm.turn h.calm hturn hnumbers, fun hpassed => htold (h.passedOn hpassed), ?_⟩
    exact htimely.mono hpatience htold fun _ _ _ _ _ hsecured => hsecured

/-- What others may do keeps the lease attended to. -/
theorem Attended.meddle {a : Attempt} {m : Meddling} (h : Attended origin a env)
    (hfit : Fits origin a.terms env.time)
    (hpatience : 2 * a.terms.patience < 1000 * a.terms.seconds)
    (hspares : m.Spares a.stage.lease?) (hnumbers : 1 ≤ (m.act env).store.nextLease.toInt) :
    Attended origin a (m.act env) := by
  have hcalm := Calm.meddle h.calm hspares hnumbers
  cases hspares with
  | @command c hdrop hfault =>
      refine ⟨hcalm, h.passedOn, h.timely.mono hpatience id ?_⟩
      intro lease since hlease hsince htime hsecured
      obtain ⟨hrevoke, hexpire⟩ := hdrop lease hlease
      exact hsecured.run h.calm.serving hfit hsince htime hrevoke hexpire
  | slow delays =>
      exact ⟨hcalm, h.passedOn, h.timely.mono hpatience id fun _ _ _ _ _ hs => hs⟩
  | signal s =>
      have htold : ToldToStop a.terms env → ToldToStop a.terms (env.raise s) :=
        fun htold => htold.mono (List.subset_cons_self s env.raised)
      exact ⟨hcalm, fun hpassed => htold (h.passedOn hpassed),
        h.timely.mono hpatience htold fun _ _ _ _ _ hs => hs⟩
  | elsewhere clients localAddress bits journal =>
      exact ⟨hcalm, h.passedOn, h.timely.mono hpatience id fun _ _ _ _ _ hs => hs⟩

theorem time_of_spares {m : Meddling} {relied : Option LeaseId} (h : m.Spares relied)
    (env : Environment) : (m.act env).time = env.time := by
  cases h <;> rfl

/-- No step makes an attempt late. -/
theorem Attended.step {a b : Attempt} (h : Attended origin a env)
    (hpatience : 2 * a.terms.patience < 1000 * a.terms.seconds)
    (hstep : OpenStep moves dueAt
      (fun e e' => ∃ m : Meddling, m.Spares a.stage.lease? ∧ e' = m.act e) a env b env')
    (hfit : Fits origin a.terms env'.time) (hnumbers : 1 ≤ env'.store.nextLease.toInt) :
    Attended origin b env' := by
  cases hstep with
  | move hmove =>
      have htime := (inOrder_of_move h.timely.inOrder hmove).2.time
      rw [htime] at hfit
      exact h.move hfit hpatience hmove hnumbers
  | pass time idle later awake =>
      refine ⟨?_, h.passedOn, h.timely.pass later awake⟩
      exact ⟨h.calm.clock, h.calm.reachable, h.calm.renewalPeriod, h.calm.script, h.calm.store,
        h.calm.faults⟩
  | meddle hmeddle =>
      obtain ⟨m, hspares, rfl⟩ := hmeddle
      rw [time_of_spares hspares] at hfit
      exact h.meddle hfit hpatience hspares hnumbers

/-! ## Runs -/

/-- A run keeps an attempt in order, and time does not go back. -/
theorem Reaches.inOrder {a b : Attempt} (h : Reaches a env b env') (horder : a.stage.InOrder) :
    b.stage.InOrder ∧ env.time ≤ env'.time := by
  induction h with
  | refl => exact ⟨horder, Nat.le_refl _⟩
  | tail reached step numbers ih =>
      obtain ⟨horder', hle⟩ := ih
      cases step with
      | move hmove =>
          obtain ⟨hnext, hsame⟩ := inOrder_of_move horder' hmove
          exact ⟨hnext, Nat.le_trans hle (Nat.le_of_eq hsame.time.symm)⟩
      | pass time idle later awake => exact ⟨horder', Nat.le_trans hle later⟩
      | meddle hmeddle =>
          obtain ⟨m, hspares, rfl⟩ := hmeddle
          exact ⟨horder', Nat.le_trans hle (Nat.le_of_eq (time_of_spares hspares _).symm)⟩

/-- A run leaves the terms of an attempt alone. -/
theorem Reaches.terms_eq {a b : Attempt} (h : Reaches a env b env') (horder : a.stage.InOrder) :
    b.terms = a.terms := by
  induction h with
  | refl => rfl
  | tail reached step numbers ih =>
      cases step with
      | move hmove =>
          rcases moves_cases (reached.inOrder horder).1 hmove with ⟨rfl, _⟩ | ⟨_, _, rfl⟩
          · exact ih
          · exact ih
      | pass | meddle => exact ih

/-- No run of a client's attempt gets stuck before the attempt is over. -/
theorem Reaches.progress {client : Nat} {stop : Signal} {d : Descriptor} {a : Attempt}
    (h : Reaches (unstarted (env.terms client stop) d) env a env')
    (others : Environment → Environment → Prop) (hgoing : a.outcome? = none) :
    a.moves env' ≠ [] ∨ ∃ due, OpenStep moves dueAt others a env' a { env' with time := due } ∧
      a.moves { env' with time := due } ≠ [] := by
  have hterms := h.terms_eq (.unstarted d)
  refine Attempt.progress others (h.inOrder (.unstarted d)).1 ?_ hgoing
  rw [hterms]
  rfl

/-- The invariant holds along every run. -/
theorem Attended.reaches {a b : Attempt} (h : Attended origin a env)
    (hpatience : 2 * a.terms.patience < 1000 * a.terms.seconds) (hreach : Reaches a env b env')
    (hfit : Fits origin a.terms env'.time) : Attended origin b env' := by
  induction hreach with
  | refl => exact h
  | @tail b c env env' env'' reached step numbers ih =>
      have horder := (reached.inOrder h.timely.inOrder).1
      have hle := (((Reaches.refl b env').tail step numbers).inOrder horder).2
      have hattended := ih h (hfit.earlier hle)
      rw [← reached.terms_eq h.timely.inOrder] at hpatience hfit
      exact hattended.step hpatience step hfit numbers

/-- A registration that does not lose its lease stays registered until it leaves. -/
theorem Turn.stays {a : Attempt} (hturn : Turn a env stage stage' env')
    (hlease : ∀ reason, stage' ≠ .finished (some (.leaseLost reason)))
    (h : stage.IsRegistered ∨ stage.IsLeaving) : stage'.IsRegistered ∨ stage'.IsLeaving := by
  cases hturn with
  | cancelled notes hcancel => exact Or.inr (Or.inl ⟨_, _, _, _, rfl⟩)
  | renewed notes hdue htake httl => exact Or.inl (Or.inl ⟨_, _, _, rfl⟩)
  | lost reason notes hdue htake hitem => exact absurd rfl (hlease reason)
  | ticked notes hacks hdue => exact Or.inl (Or.inr ⟨_, _, _, _, rfl⟩)
  | refreshed notes hover hresult => exact Or.inl (Or.inl ⟨_, _, _, rfl⟩)
  | @released plan lease cause call hold env' notes hover hresult =>
      cases cause with
      | none => exact Or.inr (Or.inr rfl)
      | some failure =>
          rcases h with (⟨_, _, _, h⟩ | ⟨_, _, _, _, h⟩) | ⟨_, _, _, _, h⟩ | h <;> cases h
  | refused | stopped | begun | ungranted | granted | unpublished | published | unopened
  | opened =>
      rcases h with (⟨_, _, _, h⟩ | ⟨_, _, _, _, h⟩) | ⟨_, _, _, _, h⟩ | h <;> cases h

/-- Once registered, an attempt stays registered until it leaves. -/
theorem Attended.stays {a b : Attempt} (h : Attended origin a env)
    (hpatience : 2 * a.terms.patience < 1000 * a.terms.seconds) (hreach : Reaches a env b env')
    (hfit : Fits origin a.terms env'.time) (hstage : a.stage.IsRegistered ∨ a.stage.IsLeaving) :
    b.stage.IsRegistered ∨ b.stage.IsLeaving := by
  induction hreach with
  | refl => exact hstage
  | @tail b c env env' env'' reached step numbers ih =>
      have horder := (reached.inOrder h.timely.inOrder).1
      have hle := (((Reaches.refl b env').tail step numbers).inOrder horder).2
      have hbefore := ih h (hfit.earlier hle)
      have hattended := h.reaches hpatience (reached.tail step numbers) hfit
      cases step with
      | move hmove =>
          rcases moves_cases horder hmove with ⟨rfl, _⟩ | ⟨stage, hturn, rfl⟩
          · exact hbefore
          · refine hturn.stays ?_ hbefore
            intro reason hlost
            have htimely := hattended.timely
            simp only [hlost] at htimely
            cases htimely with
            | failed hexcused =>
                rcases hexcused with hkind | ⟨op, _, hop⟩
                · cases hkind
                · cases congrArg Failure.kind hop
      | pass time idle later awake => exact hbefore
      | meddle hmeddle => exact hbefore

end

/-- Renewals are never late. When a call is given up before half of the lease has passed, and
nobody else drops the lease or makes grants, writes or renewals fail, then whatever else happens and
however long the store takes for anything:

- the lease is live for as long as the attempt relies on it;
- the attempt ends with no failure but a description that cannot be published, or a grant, a write
  or a first renewal that was given up;
- once it is registered, it stays so until it is told to stop. -/
theorem renewals_in_time {origin : Reading} {env env₁ env₂ : Environment} {client : Nat}
    {stop : Signal} {d : Descriptor} {a b : Attempt} (hcalm : env.Calm origin)
    (hpatience : 2 * (env.terms client stop).patience < 1000 * (env.terms client stop).seconds)
    (hreach : Reaches (unstarted (env.terms client stop) d) env a env₁)
    (hnext : Reaches a env₁ b env₂) (hfit : Fits origin (env.terms client stop) env₂.time) :
    (∀ lease, a.stage.lease? = some lease →
      ∃ held, (env₁.store.purge env₁.now).leases.lookup lease = some held) ∧
    (∀ failure, a.stage.failure? = some failure → Excused (env.terms client stop) failure) ∧
    (a.stage.IsRegistered → b.stage.IsRegistered ∨
      b.stage.IsLeaving ∧ ToldToStop (env.terms client stop) env₂) := by
  have hbegin : Attended origin (unstarted (env.terms client stop) d) env :=
    ⟨hcalm, nofun, .unstarted d⟩
  have horder := (hreach.inOrder (.unstarted d)).1
  have hfit₁ := hfit.earlier (hnext.inOrder horder).2
  have ha := hbegin.reaches hpatience hreach hfit₁
  have hterms : a.terms = env.terms client stop := hreach.terms_eq (.unstarted d)
  rw [← hterms] at hpatience hfit hfit₁ ⊢
  have hb := ha.reaches hpatience hnext hfit
  refine ⟨?_, ?_, ?_⟩
  · intro lease hlease
    obtain ⟨since, hsecured, hsince, htime⟩ := ha.timely.secured hpatience hlease
    obtain ⟨held, hmem, _, hlive⟩ := hsecured.live ha.calm.clock hfit₁ htime
    exact ⟨held, MemoryStore.lookup_purge ha.calm.store.wellFormed hmem hlive⟩
  · intro failure hfailure
    have htimely := ha.timely
    generalize a.stage = stage at htimely hfailure
    cases htimely with
    | failing hexcused =>
        cases hfailure
        exact hexcused
    | failed hexcused =>
        cases hfailure
        exact hexcused
    | unstarted | granting | publishing | opening | held | refreshing | leaving | left =>
        cases hfailure
  · intro hregistered
    rcases ha.stays hpatience hnext hfit (Or.inl hregistered) with hstays | hleaves
    · exact Or.inl hstays
    · refine Or.inr ⟨hleaves, ?_⟩
      have htimely := hb.timely
      rw [hnext.terms_eq horder] at htimely
      rcases hleaves with ⟨plan, lease, call, hold, hstage⟩ | hstage
      · rw [hstage] at htimely
        cases htimely with
        | leaving htold => exact htold
      · rw [hstage] at htimely
        cases htimely with
        | left htold => exact htold

/-! ## A run with slow scans -/

/-- An attempt that proceeds by itself for some number of steps. -/
def carryOn : Nat → Attempt × Environment → Attempt × Environment
  | 0, x => x
  | n + 1, x => proceed moves dueAt (carryOn n x).1 (carryOn n x).2

/-- What every step of an attempt by itself keeps holds after any number of them. -/
theorem carryOn_induction {P : Attempt × Environment → Prop} {x : Attempt × Environment} (n : Nat)
    (hbegin : P x)
    (hstep : ∀ k < n, P (carryOn k x) →
      OpenStep moves dueAt (fun _ _ => False) (carryOn k x).1 (carryOn k x).2
        (carryOn (k + 1) x).1 (carryOn (k + 1) x).2 → P (carryOn (k + 1) x)) :
    P (carryOn n x) := by
  induction n with
  | zero => exact hbegin
  | succ n ih =>
      have hbefore := ih fun k hk => hstep k (Nat.lt_succ_of_lt hk)
      rcases openStep_proceed moves dueAt (fun _ _ => False) (carryOn n x).1 (carryOn n x).2 with
        hstill | hgoes
      · rw [show carryOn (n + 1) x = carryOn n x from hstill]
        exact hbefore
      · exact hstep n (Nat.lt_succ_self n) hbefore hgoes

theorem reaches_carryOn (n : Nat) (x : Attempt × Environment)
    (hnumbers : ∀ k < n, 1 ≤ (carryOn (k + 1) x).2.store.nextLease.toInt) :
    Reaches x.1 x.2 (carryOn n x).1 (carryOn n x).2 := by
  refine carryOn_induction (P := fun y => Reaches x.1 x.2 y.1 y.2) n (.refl x.1 x.2) ?_
  intro k hk hreach hstep
  exact hreach.tail (hstep.mono fun _ _ => False.elim) (hnumbers k hk)

/-- A fresh environment in which no scan is answered in time. -/
def slowScans : Environment :=
  (Environment.initial (.running 0) [{}]).setDelay .get 100000

/-- An attempt in that environment. -/
def slowAttempt : Attempt × Environment :=
  (unstarted (slowScans.terms 0 (.shutdown 0)) (.ofAddress "a" "h" ""), slowScans)

/-- Although every refresh takes until it is given up, the lease is live after forty steps. -/
theorem renewals_in_time_slow_scans :
    ∃ held, ((carryOn 40 slowAttempt).2.store.purge (carryOn 40 slowAttempt).2.now).leases.lookup
      ⟨1⟩ = some held :=
  (renewals_in_time
    ⟨rfl, rfl, rfl, rfl, .empty, fun _ hop => absurd hop List.not_mem_nil⟩ (by decide)
    (reaches_carryOn 40 slowAttempt (by decide +kernel)) (.refl _ _) (by decide +kernel)).1
    ⟨1⟩ (by decide +kernel)

end Attempt
end ServiceDiscovery
