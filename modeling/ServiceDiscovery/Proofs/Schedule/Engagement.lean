import ServiceDiscovery.Proofs.Schedule.Ledger

/-!
# The attempt under way

An attempt holds its key from the moment it is published. When it fails early or is
told to stop, it gives its lease back, and its key goes with the lease. When its
registration is lost, it gives nothing back.

Main results:

- Definition {lit}`Supervision.Engaged`: what holds of an attempt in each stage.
- Theorem {lit}`Supervision.own_of_grant`: a lease that is granted is nobody else's.
- Theorem {lit}`Supervision.gone_of_release`: a release that is answered leaves no
  lease behind.
- Theorem {lit}`Supervision.Engaged.turn`: every turn keeps the ledger in order.
-/

namespace ServiceDiscovery
namespace Supervision

variable {h : History} {losses : List Loss} {holds : Publication → Prop} {s : MemoryStore}
  {now : Reading} {plan : Registration.Plan} {lease : LeaseId}

/-! ## What an attempt knows -/

/-- A stream renews no lease but the given one. -/
def RenewsOnly (lease : LeaseId) (acks : AckStream) : Prop :=
  ∀ other ticker, acks = .renewing other ticker → other = lease

/-- What holds of the present attempt in each of its stages. -/
inductive Engaged (losses : List Loss) (now : Reading) (s : MemoryStore) : Attempt.Stage → Prop where
  | unstarted (d : Descriptor) : Engaged losses now s (.unstarted d)
  | granting (plan : Registration.Plan) (call : Call) : Engaged losses now s (.granting plan call)
  | publishing {plan : Registration.Plan} {lease : LeaseId} {call : Call}
      (hown : Own losses now s plan lease) : Engaged losses now s (.publishing plan lease call)
  | opening {plan : Registration.Plan} {lease : LeaseId} {call : Call}
      (hown : Own losses now s plan lease) : Engaged losses now s (.opening plan lease call)
  | held {plan : Registration.Plan} {lease : LeaseId} {hold : Hold}
      (hown : Own losses now s plan lease) (hacks : RenewsOnly lease hold.acks) :
      Engaged losses now s (.held plan lease hold)
  | refreshing {plan : Registration.Plan} {lease : LeaseId} {call : Call} {hold : Hold}
      (hown : Own losses now s plan lease) (hacks : RenewsOnly lease hold.acks) :
      Engaged losses now s (.refreshing plan lease call hold)
  | releasing {plan : Registration.Plan} {lease : LeaseId} {cause : Option Failure} {call : Call}
      {hold : Option Hold} (hown : Own losses now s plan lease) (hcall : call.isAnswered = true) :
      Engaged losses now s (.releasing plan lease cause call hold)
  | finished (failure : Option Failure) : Engaged losses now s (.finished failure)

variable {stage : Attempt.Stage}

theorem Engaged.inOrder (hengaged : Engaged losses now s stage) : stage.InOrder := by
  cases hengaged <;> constructor

/-- What an attempt relies on goes on as long as its lease stays its own. -/
theorem Engaged.mono {now' : Reading} {s' : MemoryStore} (hengaged : Engaged losses now s stage)
    (hown : ∀ plan lease, Own losses now s plan lease → Own losses now' s' plan lease) :
    Engaged losses now' s' stage := by
  cases hengaged with
  | unstarted d => exact .unstarted d
  | granting plan call => exact .granting plan call
  | publishing howned => exact .publishing (hown _ _ howned)
  | opening howned => exact .opening (hown _ _ howned)
  | held howned hacks => exact .held (hown _ _ howned) hacks
  | refreshing howned hacks => exact .refreshing (hown _ _ howned) hacks
  | releasing howned hcall => exact .releasing (hown _ _ howned) hcall
  | finished failure => exact .finished failure

/-- An attempt renews no lease that was lost. -/
theorem Engaged.commands (hengaged : Engaged losses now s stage) {c : MemoryStore.Command}
    (hc : stage.Commands c) : ∀ l ∈ losses, c.renewed? ≠ some l.lease := by
  intro l hl hrenews
  cases hc with
  | granting | publishing | refreshing | releasing => cases hrenews
  | opening =>
      cases hengaged with
      | opening hown => exact hown.notLost l hl (Option.some.inj hrenews).symm
  | held plan lease hacks =>
      cases hengaged with
      | held hown honly =>
          have hother := honly _ _ hacks
          subst hother
          exact hown.notLost l hl (Option.some.inj hrenews).symm

/-! ## Leases and streams -/

/-- A lease that was granted just now is the attempt's own. -/
theorem own_of_grant (hs : s.WellFormed) (hledger : Ledger h holds s)
    (hgrant : (s.grant now plan.ttl).1 = .ok lease)
    (hnumbers : 1 ≤ (s.grant now plan.ttl).2.nextLease.toInt) :
    Own h.losses now (s.grant now plan.ttl).2 plan lease := by
  refine ⟨MemoryStore.number_of_grant hgrant hnumbers, ?_, MemoryStore.dated_of_grant hs hgrant⟩
  obtain ⟨rfl, _⟩ := MemoryStore.grant_ok hgrant
  intro l hl heq
  have hnumber := (hledger.lost l hl).1
  rw [heq] at hnumber
  exact Int.lt_irrefl _ hnumber

/-- A stream that was opened for a lease renews no other one. -/
theorem renewsOnly_of_keepAlive {env env' : Environment} {acks : AckStream}
    (h : env.keepAlive lease = (.ok acks, env')) : RenewsOnly lease acks := by
  intro other ticker hacks
  subst hacks
  unfold Environment.keepAlive at h
  split at h
  · cases h
  · have hopening := (Prod.mk.inj h).1
    unfold AckStream.opening at hopening
    split at hopening
    · cases hopening
    · cases hopening
    · cases hopening
      rfl

/-- A stream goes on with the lease that it renews. -/
theorem renewsOnly_of_takeAck {env env' : Environment} {stream acks : AckStream} {item : AckItem}
    (hstream : RenewsOnly lease stream) (h : env.takeAck stream = ((item, acks), env')) :
    RenewsOnly lease acks := by
  intro other ticker hacks
  subst hacks
  have htaken : (stream.take env.time env.now env.store).1 = (item, .renewing other ticker) :=
    (Prod.mk.inj h).1
  cases stream with
  | renewing first ticker' =>
      have hrenewal : AckStream.afterRenewal first (ticker'.take env.time)
        (env.store.renew env.now first).1 = (item, .renewing other ticker) := htaken
      unfold AckStream.afterRenewal at hrenewal
      split at hrenewal
      · cases hrenewal
        exact hstream _ _ rfl
      · cases hrenewal
      · cases hrenewal
  | scripted first since items =>
      cases items with
      | nil => cases htaken
      | cons ack items =>
          rcases ack with ⟨delay, _ | _ | _⟩ <;> cases htaken
  | finished => cases htaken

/-- A release that is answered leaves no lease behind. -/
theorem gone_of_release {terms : Terms} {env : Environment} {call : Call}
    (hreach : env.reachable = true) (hrevoke : Operation.revoke ∉ env.store.faults)
    (hcall : call.isAnswered = true) :
    lease ∉ (Attempt.conclusion terms call .revoke env (env.revoke lease)).2.store.leases.map
      (·.1) := by
  rw [Attempt.conclusion_of_answered hcall, Environment.revoke,
    Environment.ask_of_reachable hreach]
  exact MemoryStore.not_mem_leases_revoke hrevoke

/-! ## Turns -/

/-- The record stays in order with every turn of the present attempt. -/
theorem Engaged.turn {a : Attempt} {env env' : Environment} {stage' : Attempt.Stage}
    (hreach : env.reachable = true) (hs : env.store.WellFormed)
    (hrevoke : Operation.revoke ∉ env.store.faults)
    (hprompt : stage'.releasesInTime = true) (hnumbers : 1 ≤ env'.store.nextLease.toInt)
    (hengaged : Engaged h.losses env.now env.store stage)
    (hledger : Ledger h (fun p => stage.holding? = some p) env.store)
    (hturn : Attempt.Turn a env stage stage' env') :
    Engaged (h.record env' stage stage').losses env'.now env'.store stage' ∧
      Ledger (h.record env' stage stage') (fun p => stage'.holding? = some p) env'.store := by
  have hkept : Ledger h (fun p => stage.holding? = some p) env'.store := by
    refine hturn.keeps hledger ?_
    intro c hc hstore
    rw [hstore] at hnumbers
    refine hledger.run hs (List.Subset.refl h.renewed) ?_ hnumbers
    exact fun l hl hrenews => absurd hrenews (hengaged.commands hc l hl)
  have hown {plan : Registration.Plan} {lease : LeaseId}
      (howned : Own h.losses env.now env.store plan lease) :
      Own h.losses env.now env'.store plan lease := by
    refine hturn.keeps (P := fun s => Own h.losses env.now s plan lease) howned ?_
    intro c _ hstore
    rw [hstore] at hnumbers
    exact howned.run hs c hnumbers
  rw [hturn.sameSetting.now]
  cases hturn with
  | refused hplan => exact ⟨.finished _, hkept⟩
  | stopped notes hplan hcancel => exact ⟨.finished _, hkept⟩
  | begun hplan hcancel => exact ⟨.granting _ _, hkept⟩
  | ungranted notes hover hresult => exact ⟨.finished _, hkept⟩
  | @granted plan call lease env'' notes hover hresult =>
      have hanswer := Attempt.answer_of_conclusion hresult
      rw [Environment.grant, Environment.ask_of_reachable hreach] at hanswer
      obtain ⟨hgrant, rfl⟩ := Prod.mk.inj hanswer
      have howned := own_of_grant hs hledger hgrant hnumbers
      exact ⟨.publishing howned, hkept.letGo fun p _ hp => nomatch hp⟩
  | unpublished notes hover hresult =>
      cases hengaged with
      | publishing howned => exact ⟨.releasing (hown howned) hprompt, hkept⟩
  | @published plan lease call env'' notes hover hresult =>
      cases hengaged with
      | publishing howned =>
          have howned' := hown howned
          exact ⟨.opening howned', hkept.publish howned'.number rfl⟩
  | unopened notes hover hresult =>
      cases hengaged with
      | opening howned => exact ⟨.releasing (hown howned) hprompt, hkept⟩
  | opened notes hover hresult =>
      cases hengaged with
      | opening howned =>
          have honly := renewsOnly_of_keepAlive (Attempt.answer_of_conclusion hresult)
          exact ⟨.held (hown howned) honly, hkept⟩
  | cancelled notes hcancel =>
      cases hengaged with
      | held howned hacks => exact ⟨.releasing (hown howned) hprompt, hkept⟩
  | renewed notes hdue htake httl =>
      cases hengaged with
      | held howned hacks =>
          exact ⟨.held (hown howned) (renewsOnly_of_takeAck hacks htake), hkept⟩
  | @lost plan lease hold item acks env'' reason notes hdue htake hitem =>
      cases hengaged with
      | held howned hacks =>
          have howned' := hown howned
          have hnow := Environment.SameSetting.now (Environment.sameSetting_of_takeAck htake)
          refine ⟨.finished _, ?_⟩
          by_cases hthere : (env''.store.leases.lookup lease).isSome = true
          · have hrecord : h.record (env''.say notes) (.held plan lease hold)
                (.finished (some (.leaseLost reason))) =
                  { h with losses := ⟨lease, plan.ttl, env''.now⟩ :: h.losses } :=
              congrArg (fun l => { h with losses := l ++ h.losses }) (if_pos hthere)
            rw [hrecord]
            refine hkept.lose howned'.number ?_ ?_
            · rw [hnow]
              exact fun held hmem => (howned'.dated held hmem).2
            · rintro p _ hp
              exact congrArg Publication.lease (Option.some.inj hp).symm
          · have hrecord : h.record (env''.say notes) (.held plan lease hold)
                (.finished (some (.leaseLost reason))) = h :=
              congrArg (fun l => { h with losses := l ++ h.losses }) (if_neg hthere)
            rw [hrecord]
            refine hkept.letGo ?_
            intro p _ hp
            left
            rw [← congrArg Publication.lease (Option.some.inj hp), ← MemoryStore.lookup_isSome_iff]
            exact hthere
  | ticked notes hacks hdue =>
      cases hengaged with
      | held howned honly => exact ⟨.refreshing (hown howned) honly, hkept⟩
  | refreshed notes hover hresult =>
      cases hengaged with
      | refreshing howned hacks => exact ⟨.held (hown howned) hacks, hkept⟩
  | @released plan lease cause call hold env'' notes hover hresult =>
      cases hengaged with
      | releasing howned hanswered =>
          have hgone : lease ∉ (Attempt.conclusion a.terms call .revoke env
            (env.revoke lease)).2.store.leases.map (·.1) :=
            gone_of_release hreach hrevoke hanswered
          rw [← hresult] at hgone
          refine ⟨.finished _, hkept.letGo ?_⟩
          intro p _ hp
          left
          rw [← congrArg Publication.lease (Option.some.inj hp)]
          exact hgone

end Supervision
end ServiceDiscovery
