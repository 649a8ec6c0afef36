import ServiceDiscovery.Proofs.Schedule.SecuredLeases

/-!
# How late an attempt can be

A registration that is held renews its lease three times while the lease lasts,
but not while it waits for a refresh. Counted from the last renewal, each phase of
an attempt has a limit; when a call is given up before half of the lease has
passed, every limit comes before the end of the lease.

Main results:

- Definition {lit}`Attempt.Timely`: how late an attempt can be in each phase.
- Theorem {lit}`Attempt.Timely.secured`: whenever it relies on a lease, the seconds
  of the lease have not passed.
- Theorem {lit}`Attempt.Timely.turn`: no turn makes it later than that.
- Theorem {lit}`Attempt.Timely.pass`: time does not pass its limit.
-/

namespace ServiceDiscovery
namespace Attempt

variable {origin : Reading} {terms : Terms} {lease : LeaseId} {since : Nat}
  {env env' : Environment}

/-! ## Limits -/

/-- The lease on which an attempt relies, from its grant until it is given back. -/
def Stage.lease? : Stage → Option LeaseId
  | .running p =>
    match p.phase with
    | .publishing lease | .opening lease | .held lease | .refreshing lease => some lease
    | .granting | .releasing .. | .ended _ => none
  | _ => none

/-- The failures that an attempt may end with before it is registered: a description that cannot
be published, and a request given up. -/
def Excused (terms : Terms) (failure : Failure) : Prop :=
  failure.kind = .misconfigured ∨
    ∃ op : Operation, (op = .grant ∨ op = .put ∨ op = .keepAlive) ∧
      failure = Call.timedOut op.label terms.callTimeout

/-- How late it can be in each phase, counted from the last renewal of the lease, and what an
attempt that ends may end with. -/
inductive Timely (origin : Reading) (terms : Terms) (told : Prop) (time : Nat)
    (store : MemoryStore) : Stage → Prop where
  | unstarted (d : Descriptor) : Timely origin terms told time store (.unstarted d)
  | granting {plan : Registration.Plan} (call : Call) (hplan : plan.ttl = terms.ttl) :
      Timely origin terms told time store (.granting plan call)
  | publishing {plan : Registration.Plan} {lease : LeaseId} {call : Call} {since : Nat}
      (hsecured : Secured origin terms lease since store) (hsince : since ≤ time)
      (hends : call.endsAt ≤ since + terms.patience) (htime : time ≤ call.endsAt) :
      Timely origin terms told time store (.publishing plan lease call)
  | opening {plan : Registration.Plan} {lease : LeaseId} {call : Call} {since : Nat}
      (hsecured : Secured origin terms lease since store) (hsince : since ≤ time)
      (hends : call.endsAt ≤ since + 2 * terms.patience) (htime : time ≤ call.endsAt) :
      Timely origin terms told time store (.opening plan lease call)
  | held {plan : Registration.Plan} {lease : LeaseId} {hold : Hold} {ticker : Ticker} {since : Nat}
      (hacks : hold.acks = .renewing lease ticker) (hticker : ticker.Paced terms since)
      (hsecured : Secured origin terms lease since store) (hsince : since ≤ time)
      (htime : time ≤ since + terms.renewalMillis + terms.patience) :
      Timely origin terms told time store (.held plan lease hold)
  | refreshing {plan : Registration.Plan} {lease : LeaseId} {call : Call} {hold : Hold}
      {ticker : Ticker} {since : Nat}
      (hacks : hold.acks = .renewing lease ticker) (hticker : ticker.Paced terms since)
      (hsecured : Secured origin terms lease since store) (hsince : since ≤ time)
      (hends : call.endsAt ≤ since + terms.renewalMillis + terms.patience)
      (htime : time ≤ call.endsAt) :
      Timely origin terms told time store (.refreshing plan lease call hold)
  | failing {plan : Registration.Plan} {lease : LeaseId} {failure : Failure} {call : Call}
      {hold : Option Hold} (h : Excused terms failure) :
      Timely origin terms told time store (.releasing plan lease (some failure) call hold)
  | leaving {plan : Registration.Plan} {lease : LeaseId} {call : Call} {hold : Option Hold}
      (h : told) : Timely origin terms told time store (.releasing plan lease none call hold)
  | failed {failure : Failure} (h : Excused terms failure) :
      Timely origin terms told time store (.finished (some failure))
  | left (h : told) : Timely origin terms told time store (.finished none)

variable {told told' : Prop} {time : Nat} {store store' : MemoryStore} {stage stage' : Stage}

theorem Timely.inOrder (h : Timely origin terms told time store stage) : stage.InOrder := by
  cases h <;> constructor

/-- A renewal that waits for a call is in time. -/
theorem renewal_lt (hpatience : 2 * terms.patience < 1000 * terms.seconds) :
    terms.renewalMillis + terms.patience < 1000 * terms.seconds := by
  have hpos := terms.seconds_pos
  unfold Terms.renewalMillis
  omega

/-- Whenever the attempt relies on a lease, its seconds have not passed. -/
theorem Timely.secured (h : Timely origin terms told time store stage)
    (hpatience : 2 * terms.patience < 1000 * terms.seconds) (hlease : stage.lease? = some lease) :
    ∃ since, Secured origin terms lease since store ∧ since ≤ time ∧
      time < since + 1000 * terms.seconds := by
  have hrenewal := renewal_lt hpatience
  cases h with
  | publishing hsecured hsince hends htime =>
      cases hlease
      exact ⟨_, hsecured, hsince, by omega⟩
  | opening hsecured hsince hends htime =>
      cases hlease
      exact ⟨_, hsecured, hsince, by omega⟩
  | held hacks hticker hsecured hsince htime =>
      cases hlease
      exact ⟨_, hsecured, hsince, by omega⟩
  | refreshing hacks hticker hsecured hsince hends htime =>
      cases hlease
      exact ⟨_, hsecured, hsince, by omega⟩
  | unstarted | granting | failing | leaving | failed | left => cases hlease

/-- What matters of a store is the lease on which the attempt relies. -/
theorem Timely.mono (h : Timely origin terms told time store stage)
    (hpatience : 2 * terms.patience < 1000 * terms.seconds) (htold : told → told')
    (hstore : ∀ lease since, stage.lease? = some lease → since ≤ time →
      time < since + 1000 * terms.seconds →
      Secured origin terms lease since store → Secured origin terms lease since store') :
    Timely origin terms told' time store' stage := by
  have hrenewal := renewal_lt hpatience
  cases h with
  | unstarted d => exact .unstarted d
  | granting call hplan => exact .granting call hplan
  | publishing hsecured hsince hends htime =>
      exact .publishing (hstore _ _ rfl hsince (by omega) hsecured) hsince hends htime
  | opening hsecured hsince hends htime =>
      exact .opening (hstore _ _ rfl hsince (by omega) hsecured) hsince hends htime
  | held hacks hticker hsecured hsince htime =>
      exact .held hacks hticker (hstore _ _ rfl hsince (by omega) hsecured) hsince htime
  | refreshing hacks hticker hsecured hsince hends htime =>
      exact .refreshing hacks hticker (hstore _ _ rfl hsince (by omega) hsecured) hsince hends
        htime
  | failing h => exact .failing h
  | leaving h => exact .leaving (htold h)
  | failed h => exact .failed h
  | left h => exact .left (htold h)

/-! ## Turns -/

theorem endsAt_callFor (terms : Terms) (env : Environment) (op : Operation) :
    env.time ≤ (callFor terms env op).endsAt ∧
      (callFor terms env op).endsAt ≤ env.time + terms.patience := by
  unfold callFor Call.started Call.endsAt Terms.patience
  simp only [Option.map_some]
  omega

theorem Stage.Commands.spares {c : MemoryStore.Command} (h : stage.Commands c)
    (hlease : stage.lease? = some lease) : c ≠ .revoke lease ∧ c ≠ .expireLease lease := by
  cases h with
  | releasing => cases hlease
  | granting | publishing | opening | held | refreshing => exact ⟨nofun, nofun⟩

/-- No turn drops the lease on which the attempt relies. -/
theorem Secured.turn {a : Attempt} (h : Secured origin terms lease since env.store)
    (hserving : env.Serving origin) (hfit : Fits origin terms env.time) (hsince : since ≤ env.time)
    (htime : env.time < since + 1000 * terms.seconds) (hlease : stage.lease? = some lease)
    (hturn : Turn a env stage stage' env') : Secured origin terms lease since env'.store := by
  refine hturn.keeps h ?_
  intro c hc _
  obtain ⟨hrevoke, hexpire⟩ := hc.spares hlease
  exact h.run hserving hfit hsince htime hrevoke hexpire

/-- There is no plan for a description that does not pass its check. -/
theorem check_of_make {address root : String} {now : Reading} {unique : Uuid} {ttl : Duration}
    {d : Descriptor} {failure : Failure}
    (h : Registration.Plan.make address now unique root ttl d = .error failure) :
    d.check = .error failure := by
  unfold Registration.Plan.make Descriptor.prepare at h
  cases hcheck : d.check with
  | error f =>
      rw [hcheck] at h
      exact congrArg Except.error (Except.error.inj h)
  | ok =>
      rw [hcheck] at h
      cases h

theorem kind_of_check {d : Descriptor} {failure : Failure} (h : d.check = .error failure) :
    failure.kind = .misconfigured := by
  unfold Descriptor.check at h
  split at h
  · exact Except.error.inj h ▸ rfl
  · split at h
    · exact Except.error.inj h ▸ rfl
    · split at h
      · exact Except.error.inj h ▸ rfl
      · cases h

theorem kind_of_make {address root : String} {now : Reading} {unique : Uuid} {ttl : Duration}
    {d : Descriptor} {failure : Failure}
    (h : Registration.Plan.make address now unique root ttl d = .error failure) :
    failure.kind = .misconfigured :=
  kind_of_check (check_of_make h)

theorem ttl_of_make {address root : String} {now : Reading} {unique : Uuid} {ttl : Duration}
    {d : Descriptor} {plan : Registration.Plan}
    (h : Registration.Plan.make address now unique root ttl d = .ok plan) :
    plan.ttl = Registration.wholeSeconds ttl := by
  unfold Registration.Plan.make at h
  cases hprepared : d.prepare address now with
  | error failure =>
      rw [hprepared] at h
      cases h
  | ok prepared =>
      rw [hprepared] at h
      rw [← Except.ok.inj h]

/-- No turn makes an attempt late. -/
theorem Timely.turn {a : Attempt} (hcalm : env.Calm origin)
    (hfit : Fits origin a.terms env.time)
    (hpatience : 2 * a.terms.patience < 1000 * a.terms.seconds)
    (hcancel : a.isCancelled env = true → told)
    (h : Timely origin a.terms told env.time env.store stage)
    (hturn : Turn a env stage stage' env') :
    Timely origin a.terms told env'.time env'.store stage' := by
  have hkept {lease : LeaseId} {since : Nat}
      (hsecured : Secured origin a.terms lease since env.store)
      (hsince : since ≤ env.time) (htime : env.time < since + 1000 * a.terms.seconds)
      (hlease : stage.lease? = some lease) : Secured origin a.terms lease since env'.store :=
    hsecured.turn hcalm.serving hfit hsince htime hlease hturn
  have hrenewal := renewal_lt hpatience
  rw [hturn.sameSetting.time]
  cases hturn with
  | refused hplan => exact .failed (Or.inl (kind_of_make hplan))
  | stopped notes hplan hcancelled => exact .left (hcancel hcancelled)
  | begun hplan hcancelled => exact .granting _ (ttl_of_make hplan)
  | ungranted notes hover hresult =>
      cases h with
      | granting call hplan =>
          rw [hplan] at hresult
          have hgrant := Calm.grant hcalm (Terms.ttl_pos hfit.seconds)
          have hfailure := failure_of_conclusion (congrArg Prod.fst hgrant) hresult
          exact .failed (Or.inr ⟨.grant, Or.inl rfl, hfailure⟩)
  | granted notes hover hresult =>
      cases h with
      | granting call hplan =>
          rw [hplan] at hresult
          have hgrant := Calm.grant hcalm (Terms.ttl_pos hfit.seconds)
          rw [answer_of_conclusion hresult] at hgrant
          obtain ⟨hlease, henv⟩ := Prod.mk.inj hgrant
          obtain ⟨hafter, hends⟩ := endsAt_callFor a.terms env .put
          refine .publishing ?_ (Nat.le_refl _) hends hafter
          refine Secured.granted hcalm.clock hfit ?_
          rw [Except.ok.inj hlease, henv]
          exact List.mem_append_right _ List.mem_cons_self
  | unpublished notes hover hresult =>
      cases h with
      | publishing hsecured hsince hends htime =>
          obtain ⟨held, hmem, _, hlive⟩ := hsecured.live hcalm.clock hfit (by omega)
          have hfailure := failure_of_conclusion (Calm.put hcalm hmem hlive _ _) hresult
          exact .failing (Or.inr ⟨.put, Or.inr (Or.inl rfl), hfailure⟩)
  | published notes hover hresult =>
      cases h with
      | publishing hsecured hsince hends htime =>
          have hsecured' := hkept hsecured hsince (by omega) rfl
          obtain ⟨hafter, hlimit⟩ := endsAt_callFor a.terms env .keepAlive
          exact .opening hsecured' hsince (by omega) hafter
  | unopened notes hover hresult =>
      cases h with
      | opening hsecured hsince hends htime =>
          obtain ⟨held, hmem, _, hlive⟩ := hsecured.live hcalm.clock hfit (by omega)
          obtain ⟨s, hanswer, _⟩ := Serving.keepAlive hcalm.serving hmem hlive
          have hfailure := failure_of_conclusion (congrArg Prod.fst hanswer) hresult
          exact .failing (Or.inr ⟨.keepAlive, Or.inr (Or.inr rfl), hfailure⟩)
  | opened notes hover hresult =>
      cases h with
      | opening hsecured hsince hends htime =>
          obtain ⟨held, hmem, httl, hlive⟩ := hsecured.live hcalm.clock hfit (by omega)
          obtain ⟨s, hanswer, hrenewed⟩ := Serving.keepAlive hcalm.serving hmem hlive
          rw [answer_of_conclusion hresult, httl] at hanswer
          rw [httl] at hrenewed
          obtain ⟨hacks, henv⟩ := Prod.mk.inj hanswer
          refine .held ?_ (Ticker.Paced.started hfit.seconds env.time) ?_ (Nat.le_refl _) (by omega)
          · exact Except.ok.inj hacks
          · rw [henv]
            exact Secured.granted hcalm.clock hfit hrenewed
  | cancelled notes hcancelled => exact .leaving (hcancel hcancelled)
  | renewed notes hdue htake httl =>
      cases h with
      | held hacks hticker hsecured hsince htime =>
          rw [hacks] at hdue htake
          obtain ⟨_, hnext, hsecured'⟩ := hsecured.taken hcalm.serving hfit (by omega) htake
          exact .held hnext (hticker.take (of_decide_eq_true hdue)) hsecured' (Nat.le_refl _)
            (by omega)
  | lost reason notes hdue htake hitem =>
      cases h with
      | held hacks hticker hsecured hsince htime =>
          rw [hacks] at htake
          obtain ⟨hrenewed, _, _⟩ := hsecured.taken hcalm.serving hfit (by omega) htake
          have hexpired := hitem _ hrenewed
          exact (hexpired (Terms.ttl_pos hfit.seconds)).elim
  | ticked notes hacks hdue =>
      cases h with
      | held hacks' hticker hsecured hsince htime =>
          rw [hacks'] at hacks
          have hearly := Nat.lt_of_not_le (of_decide_eq_false hacks)
          have hlate := hticker.dueAt_le
          obtain ⟨hafter, hends⟩ := endsAt_callFor a.terms env .get
          exact .refreshing hacks' hticker hsecured hsince (by omega) hafter
  | refreshed notes hover hresult =>
      cases h with
      | refreshing hacks hticker hsecured hsince hends htime =>
          have hsecured' := hkept hsecured hsince (by omega) rfl
          exact .held hacks hticker hsecured' hsince (by omega)
  | released notes hover hresult =>
      cases h with
      | failing hexcused => exact .failed hexcused
      | leaving htold => exact .left htold

/-! ## Waits -/

theorem earlier_le (due : Nat) (other : Option Nat) :
    ∃ first, earlier (some due) other = some first ∧ first ≤ due := by
  cases other with
  | none => exact ⟨due, rfl, Nat.le_refl _⟩
  | some other => exact ⟨min due other, rfl, Nat.min_le_left _ _⟩

/-- Time does not pass the moment at which a renewal is due. -/
theorem le_dueAt_of_awake {plan : Registration.Plan} {hold : Hold} {other : LeaseId}
    {ticker : Ticker} {passedOn : Bool} {later : Nat} (hacks : hold.acks = .renewing other ticker)
    (hawake : ∀ due, dueAt ⟨terms, passedOn, .held plan lease hold⟩ = some due → later ≤ due) :
    later ≤ ticker.dueAt := by
  obtain ⟨first, hfirst, hle⟩ := earlier_le ticker.dueAt
    (if terms.refreshes then some hold.ticker.dueAt else none)
  have hlimit : later ≤ first := by
    apply hawake
    rw [← hfirst]
    simp only [dueAt, hacks, AckStream.dueAt]
  exact Nat.le_trans hlimit hle

/-- Time does not pass a moment at which the attempt has something to do. -/
theorem Timely.pass {a : Attempt} (h : Timely origin terms told env.time store a.stage)
    {later : Nat} (hlater : env.time ≤ later)
    (hawake : ∀ due, a.dueAt = some due → later ≤ due) :
    Timely origin terms told later store a.stage := by
  rcases a with ⟨terms', passedOn, stage⟩
  simp only at h ⊢
  cases h with
  | unstarted d => exact .unstarted d
  | granting call hplan => exact .granting call hplan
  | publishing hsecured hsince hends htime =>
      exact .publishing hsecured (Nat.le_trans hsince hlater) hends (hawake _ rfl)
  | opening hsecured hsince hends htime =>
      exact .opening hsecured (Nat.le_trans hsince hlater) hends (hawake _ rfl)
  | held hacks hticker hsecured hsince htime =>
      have hdue := hticker.dueAt_le
      have hlimit := le_dueAt_of_awake hacks hawake
      exact .held hacks hticker hsecured (Nat.le_trans hsince hlater) (by omega)
  | refreshing hacks hticker hsecured hsince hends htime =>
      exact .refreshing hacks hticker hsecured (Nat.le_trans hsince hlater) hends (hawake _ rfl)
  | failing h => exact .failing h
  | leaving h => exact .leaving h
  | failed h => exact .failed h
  | left h => exact .left h

end Attempt
end ServiceDiscovery
