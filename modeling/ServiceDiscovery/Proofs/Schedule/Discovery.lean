import ServiceDiscovery.Proofs.Schedule.Announcements
import ServiceDiscovery.Proofs.Schedule.Renewals
import ServiceDiscovery.Proofs.Schedule.TaskDeeds

/-!
# Registrations can be discovered

An attempt publishes its description under a key that nobody has used before.  As
long as others leave the key alone, every refresh of the same root finds exactly
what was published, for as long as the lease is live.

Main results:

- Definition {lit}`Attempt.Runs`: runs of an attempt among others that leave a key
  alone.
- Theorem {lit}`Attempt.Told.step`: what is known of the key at each stage of the
  attempt.
- Theorem {lit}`Attempt.registration_discoverable`: a refresh after the registration
  puts the instance into a registry, and queries show it once.
-/

namespace ServiceDiscovery
namespace Attempt

variable {client : Nat} {key : String} {root : String} {d : Descriptor}
  {plan : Registration.Plan} {lease : LeaseId}

/-! ## Runs -/

/-- Something that others do without touching a key. -/
def Aloof (client : Nat) (key : String) (env env' : Environment) : Prop :=
  ∃ deed, deed.Spares client key ∧ env.Does deed env'

/-- Runs of an attempt among others that leave a key alone, as long as lease numbers last. -/
inductive Runs (client : Nat) (key : String) :
    Attempt → Environment → Attempt → Environment → Prop where
  | refl (a : Attempt) (env : Environment) : Runs client key a env a env
  | tail {a b c : Attempt} {env env' env'' : Environment} (run : Runs client key a env b env')
      (step : OpenStep moves dueAt (Aloof client key) b env' c env'')
      (numbers : 1 ≤ env''.store.nextLease.toInt) : Runs client key a env c env''

/-- The plan and the lease of an attempt that is registered. -/
def Stage.registered? : Stage → Option (Registration.Plan × LeaseId)
  | .running p =>
    match p.phase with
    | .held lease | .refreshing lease => some (p.plan, lease)
    | _ => none
  | _ => none

/-! ## After the publication -/

/-- An attempt has published its plan under its lease. -/
inductive Stage.Past (plan : Registration.Plan) (lease : LeaseId) : Stage → Prop where
  | opening (call : Call) : Past plan lease (.opening plan lease call)
  | held (hold : Hold) : Past plan lease (.held plan lease hold)
  | refreshing (call : Call) (hold : Hold) : Past plan lease (.refreshing plan lease call hold)
  | releasing (cause : Option Failure) (call : Call) (hold : Option Hold) :
      Past plan lease (.releasing plan lease cause call hold)
  | finished (failure : Option Failure) : Past plan lease (.finished failure)

section

variable {a b : Attempt} {env env' : Environment} {stage stage' : Stage}

theorem Turn.past (h : Turn a env stage stage' env') (hpast : stage.Past plan lease) :
    stage'.Past plan lease := by
  cases hpast with
  | opening => cases h <;> constructor
  | held => cases h <;> constructor
  | refreshing =>
      cases h
      constructor
  | releasing =>
      cases h
      constructor
  | finished => cases h

theorem Stage.Past.registered (hpast : stage.Past plan lease) {p : Registration.Plan × LeaseId}
    (h : stage.registered? = some p) : p = (plan, lease) := by
  cases hpast with
  | held | refreshing => exact (Option.some.inj h).symm
  | opening | releasing | finished => cases h

/-- Past its publication an attempt publishes nothing again. -/
theorem Stage.Past.not_publishing (hpast : stage.Past plan lease) (p : Registration.Plan)
    (l : LeaseId) (call : Call) : stage ≠ .publishing p l call := by
  rintro rfl
  cases hpast

/-- A key is touched at one stage only, and only if it is the key of the plan. -/
theorem Stage.Deeds.spares {terms : Terms} {deed : Deed} (h : stage.Deeds terms deed)
    (hstage : ∀ plan lease call, stage = .publishing plan lease call → plan.key ≠ key) :
    deed.Spares client key := by
  cases h with
  | aside => exact not_false
  | command answer hc =>
      cases hc with
      | publishing plan lease call =>
          exact fun heq => hstage plan lease call rfl (Option.some.inj heq)
      | granting | opening | held | refreshing | releasing => exact nofun
  | refresh => exact not_false

/-- A turn that does not publish a key leaves a trace that spares it. -/
theorem Turn.trace (ha : a.Proper) (h : Turn a env a.stage stage' env')
    (hstage : ∀ plan lease call, a.stage = .publishing plan lease call → plan.key ≠ key)
    (hnumbers : 1 ≤ env'.store.nextLease.toInt) :
    ∃ log, (∀ r ∈ log, r.deed.Spares client key) ∧ Trace env log env' := by
  obtain ⟨deed, between, hdeed, hdoes, haside⟩ := h.does ha
  refine ⟨_, ?_, Trace.of_does hdoes haside hnumbers⟩
  rw [List.forall_mem_cons, List.forall_mem_singleton]
  exact ⟨not_false, hdeed.spares hstage⟩

/-- The passing of time, and what others do, leave a trace that spares the key. -/
theorem trace_of_openStep (h : OpenStep moves dueAt (Aloof client key) a env b env')
    (hnumbers : 1 ≤ env'.store.nextLease.toInt) :
    (b, env') ∈ a.moves env ∨
      b = a ∧ ∃ log, (∀ r ∈ log, r.deed.Spares client key) ∧ Trace env log env' := by
  cases h with
  | move hmove => exact Or.inl hmove
  | pass time idle later awake =>
      refine Or.inr ⟨rfl, _, ?_, .single (Environment.does_of_clients rfl rfl) hnumbers⟩
      rw [List.forall_mem_singleton]
      exact not_false
  | meddle hmeddle =>
      obtain ⟨deed, hdeed, hdoes⟩ := hmeddle
      refine Or.inr ⟨rfl, _, ?_, .single hdoes hnumbers⟩
      rw [List.forall_mem_singleton]
      exact hdeed

/-- An attempt that has published its plan spares the key from then on. -/
theorem Runs.trace_of_past (hrun : Runs client key a env b env') (ha : a.Proper)
    (hpast : a.stage.Past plan lease) :
    b.Proper ∧ b.stage.Past plan lease ∧
      ∃ log, (∀ r ∈ log, r.deed.Spares client key) ∧ Trace env log env' := by
  induction hrun with
  | refl => exact ⟨ha, hpast, [], List.forall_mem_nil _, .nil⟩
  | @tail b c env env' env'' run step numbers ih =>
      obtain ⟨hb, hbpast, log, hlog, htrace⟩ := ih
      have hmore {log' : List Record} (hlog' : ∀ r ∈ log', r.deed.Spares client key)
          (htrace' : Trace env' log' env'') :
          ∃ log, (∀ r ∈ log, r.deed.Spares client key) ∧ Trace env log env'' := by
        refine ⟨log' ++ log, ?_, htrace.trans htrace'⟩
        exact List.forall_mem_append.mpr ⟨hlog', hlog⟩
      rcases trace_of_openStep step numbers with hmove | ⟨rfl, log', hlog', htrace'⟩
      · refine ⟨hb.move hmove, ?_⟩
        rcases moves_cases hb.inOrder hmove with ⟨rfl, rfl, _⟩ | ⟨stage, hturn, rfl⟩
        · exact ⟨hbpast, log, hlog, htrace⟩
        · refine ⟨hturn.past hbpast, ?_⟩
          obtain ⟨log', hlog', htrace'⟩ : ∃ log', (∀ r ∈ log', r.deed.Spares client key) ∧
              Trace env' log' env'' :=
            hturn.trace hb (fun p l call heq => absurd heq (hbpast.not_publishing p l call)) numbers
          exact hmore hlog' htrace'
      · exact ⟨hb, hbpast, hmore hlog' htrace'⟩

/-! ## Up to the publication -/

/-- A plan for a description under a root. -/
def MadeFrom (root : String) (d : Descriptor) (plan : Registration.Plan) : Prop :=
  ∃ localAddress now unique ttl,
    Registration.Plan.make localAddress now unique root ttl d = .ok plan

theorem MadeFrom.name (h : MadeFrom root d plan) : plan.descriptor.name.isEmpty = false := by
  obtain ⟨localAddress, now, unique, ttl, hplan⟩ := h
  obtain ⟨_, hcheck, hcomplete, _, _⟩ := Registration.Plan.of_make hplan
  have hblank := (Registration.Plan.name_of_check hcheck).1
  have hname : plan.descriptor.name = d.name := by
    rw [hcomplete]
    rfl
  rw [hname, ← Bool.not_eq_true]
  intro hempty
  rw [String.isEmpty_iff.mp hempty] at hblank
  exact absurd hblank (by decide)

theorem MadeFrom.startsWith_key {published : String} (h : MadeFrom published d plan)
    (hroot : Key.normalizeRoot root = Key.normalizeRoot published) :
    Key.startsWith plan.key (Key.rootPrefix root) = true := by
  obtain ⟨localAddress, now, unique, ttl, hplan⟩ := h
  rw [Registration.Plan.startsWith_key_iff hplan]
  exact Or.inl hroot

/-- What is known of a key at each stage of the attempt that is to publish it. -/
inductive Tells (client : Nat) (key root : String) (d : Descriptor) (env : Environment) :
    Stage → Prop where
  | unstarted (haware : env.Aware client key none) : Tells client key root d env (.unstarted d)
  /-- The plan is for another key. -/
  | other {p : Progress} (hkey : p.plan.key ≠ key) : Tells client key root d env (.running p)
  | granting {plan : Registration.Plan} {call : Call} (hplan : MadeFrom root d plan)
      (hkey : plan.key = key) (haware : env.Aware client key none) :
      Tells client key root d env (.granting plan call)
  | publishing {plan : Registration.Plan} {lease : LeaseId} {call : Call}
      (hplan : MadeFrom root d plan) (hkey : plan.key = key) (haware : env.Aware client key none)
      (hnumber : lease.id.toInt < env.store.nextLease.toInt) :
      Tells client key root d env (.publishing plan lease call)
  | failed {plan : Registration.Plan} {lease : LeaseId} {cause : Option Failure} {call : Call}
      {hold : Option Hold} : Tells client key root d env (.releasing plan lease cause call hold)
  | ended (failure : Option Failure) : Tells client key root d env (.finished failure)
  | past {plan : Registration.Plan} {lease : LeaseId} {stage : Stage}
      (hplan : MadeFrom root d plan) (hkey : plan.key = key) (hpast : stage.Past plan lease)
      (hannounces : env.Announces client key plan.descriptor lease) :
      Tells client key root d env stage

/-- A trace that spares the key changes nothing about it. -/
theorem Tells.trace {log : List Record} (htells : Tells client key root d env stage)
    (htrace : Trace env log env') (hsound : env.Sound)
    (hlog : ∀ r ∈ log, r.deed.Spares client key) : Tells client key root d env' stage := by
  have haware (h : env.Aware client key none) : env'.Aware client key none :=
    htrace.aware hsound nofun h hlog
  cases htells with
  | unstarted h => exact .unstarted (haware h)
  | other hkey => exact .other hkey
  | granting hplan hkey h => exact .granting hplan hkey (haware h)
  | publishing hplan hkey h hnumber =>
      exact .publishing hplan hkey (haware h) (htrace.number hnumber)
  | failed => exact .failed
  | ended failure => exact .ended failure
  | past hplan hkey hpast hannounces =>
      exact .past hplan hkey hpast (htrace.announces hsound hplan.name hannounces hlog)

/-- An attempt that is registered under a key has published its description there. -/
theorem Tells.registered (htells : Tells client plan.key root d env stage)
    (hstage : stage.registered? = some (plan, lease)) :
    MadeFrom root d plan ∧ stage.Past plan lease ∧
      env.Announces client plan.key plan.descriptor lease := by
  cases htells with
  | unstarted | granting | publishing | failed | ended => cases hstage
  | @other p hkey =>
      rcases p with ⟨plan', phase, pending, hold⟩
      cases phase with
      | held | refreshing =>
          cases hstage
          exact absurd rfl hkey
      | granting | publishing | opening | releasing | ended => cases hstage
  | past hplan hkey hpast hannounces =>
      cases hpast.registered hstage
      exact ⟨hplan, hpast, hannounces⟩

/-- What is known of a key after a turn. -/
theorem Tells.turn (ha : a.Proper) (hsound : env.Sound)
    (htells : Tells client key a.terms.root d env a.stage)
    (hturn : Turn a env a.stage stage' env') (hnumbers : 1 ≤ env'.store.nextLease.toInt) :
    Tells client key a.terms.root d env' stage' := by
  -- Only the turn that publishes the key touches it. Every other turn leaves a trace that spares
  -- the key, and what such a trace keeps is known already.
  have hquiet (hstage : ∀ plan lease call, a.stage = .publishing plan lease call → plan.key ≠ key) :
      ∃ log, (∀ r ∈ log, r.deed.Spares client key) ∧ Trace env log env' :=
    hturn.trace ha hstage hnumbers
  generalize a.stage = stage at htells hturn hquiet
  cases htells with
  | unstarted haware =>
      obtain ⟨log, hlog, htrace⟩ := hquiet nofun
      cases hturn with
      | refused | stopped => exact .ended _
      | @begun _ plan hplan hcancel =>
          by_cases hkey : plan.key = key
          · exact .granting ⟨_, _, _, _, hplan⟩ hkey (htrace.aware hsound nofun haware hlog)
          · exact .other hkey
  | @other p hkey =>
      cases hstage' : stage' with
      | unstarted d' =>
          rw [hstage'] at hturn
          cases hturn
      | finished failure => exact .ended failure
      | running p' =>
          rcases hturn.plan_cases hstage' with ⟨q, hq, hplan⟩ | ⟨d', hd', _⟩
          · cases hq
            exact .other (hplan ▸ hkey)
          · cases hd'
  | granting hplan hkey haware =>
      obtain ⟨log, hlog, htrace⟩ := hquiet nofun
      cases hturn with
      | ungranted => exact .ended _
      | @granted plan call lease env'' notes hover hresult =>
          have hnumber : lease.id.toInt < env''.store.nextLease.toInt :=
            Environment.number_of_grant (answer_of_conclusion hresult) hnumbers
          exact .publishing hplan hkey (htrace.aware hsound nofun haware hlog) hnumber
  | publishing hplan hkey haware hnumber =>
      cases hturn with
      | unpublished => exact .failed
      | @published plan lease call env'' notes hover hresult =>
          subst hkey
          have hput := answer_of_conclusion hresult
          have hannounces := Environment.announces_of_put hsound haware hnumber hput
          exact .past hplan rfl (.opening _) (hannounces.say notes)
  | failed =>
      cases hturn
      exact .ended _
  | ended failure => cases hturn
  | past hplan hkey hpast hannounces =>
      obtain ⟨log, hlog, htrace⟩ := hquiet fun p l call heq =>
        absurd heq (hpast.not_publishing p l call)
      exact .past hplan hkey (hturn.past hpast)
        (htrace.announces hsound hplan.name hannounces hlog)

/-- The invariant of an attempt that is to publish a description under a key. -/
structure Told (client : Nat) (key root : String) (d : Descriptor) (a : Attempt)
    (env : Environment) : Prop where
  sound : env.Sound
  proper : a.Proper
  rooted : a.terms.root = root
  tells : Tells client key root d env a.stage

/-- A step of an attempt among others keeps what is told about it. -/
theorem Told.step (htold : Told client key root d a env)
    (hstep : OpenStep moves dueAt (Aloof client key) a env b env')
    (hnumbers : 1 ≤ env'.store.nextLease.toInt) : Told client key root d b env' := by
  rcases trace_of_openStep hstep hnumbers with hmove | ⟨rfl, log, hlog, htrace⟩
  · rcases moves_cases htold.proper.inOrder hmove with ⟨rfl, rfl, _⟩ | ⟨stage, hturn, rfl⟩
    · exact ⟨htold.sound, htold.proper.move hmove, htold.rooted, htold.tells⟩
    · obtain ⟨deed, between, _, hdoes, haside⟩ := hturn.does htold.proper
      refine ⟨(Trace.of_does hdoes haside hnumbers).sound htold.sound, htold.proper.move hmove,
        htold.rooted, ?_⟩
      have htells := htold.tells
      rw [← htold.rooted] at htells ⊢
      exact htells.turn htold.proper htold.sound hturn hnumbers
  · exact ⟨htrace.sound htold.sound, htold.proper, htold.rooted,
      htold.tells.trace htrace htold.sound hlog⟩

/-- What is told about an attempt holds at the end of every run. -/
theorem Told.runs (htold : Told client key root d a env) (hrun : Runs client key a env b env') :
    Told client key root d b env' := by
  induction hrun with
  | refl => exact htold
  | tail run step numbers ih => exact (ih htold).step step numbers

end

/-! ## Discovery -/

/-- A registration is discoverable from end to end. Let an attempt be registered under a key that
nobody else touches and that was new in the beginning, whatever else is in the store. While its
lease is live, let any client with an expiry window refresh a root that is the same but for the
slashes around it. Then the client's registry has the instance, and the candidates for the service
contain exactly one instance under the key, which shows the description as it was prepared. -/
theorem registration_discoverable {terms : Terms} {a₁ a₂ : Attempt}
    {env₀ env₁ env₂ env₃ : Environment} {n : Nat} (hsound : env₀.Sound)
    (hnew : env₀.Aware client plan.key none)
    (hrun : Runs client plan.key (unstarted terms d) env₀ a₁ env₁)
    (hregistered : a₁.stage.registered? = some (plan, lease))
    (hmore : Runs client plan.key a₁ env₁ a₂ env₂)
    (hlive : ∃ held, (lease, held) ∈ env₂.store.leases ∧ held.lapsed env₂.now = false)
    (hroot : Key.normalizeRoot root = Key.normalizeRoot terms.root)
    (hwindow : (env₂.registry client).window ≠ 0)
    (hrefresh : env₂.refresh client root = (.ok n, env₃)) :
    (∃ localAddress now, d.prepare localAddress now = .ok plan.descriptor) ∧
      ∃ i, (env₃.registry client).get? plan.key = some i ∧
        (env₃.candidates client d.name).1.filter (fun i => i.key = plan.key) = [i] ∧
        i.address = d.address ∧
        i.displayName = (if d.displayName.isEmpty then d.name else d.displayName) ∧
        i.interface = d.interface ∧ i.protocol = d.protocol ∧
        i.sourceIp = plan.descriptor.source := by
  have hbegin : Told client plan.key terms.root d (unstarted terms d) env₀ :=
    ⟨hsound, .unstarted terms d, rfl, .unstarted hnew⟩
  have htold := hbegin.runs hrun
  obtain ⟨hplan, hpast, hannounces⟩ := htold.tells.registered hregistered
  obtain ⟨_, _, log, hlog, htrace⟩ := hmore.trace_of_past htold.proper hpast
  have hsound₂ := htrace.sound htold.sound
  have hannounces₂ := htrace.announces htold.sound hplan.name hannounces hlog
  obtain ⟨i, hi, hshows, hcandidate⟩ := hannounces₂.shows_of_refresh hsound₂ hplan.name hlive
    (hplan.startsWith_key hroot) hwindow hrefresh
  obtain ⟨localAddress, now, unique, ttl, hmake⟩ := hplan
  obtain ⟨hprepare, _, hcomplete, _, _⟩ := Registration.Plan.of_make hmake
  have hname : plan.descriptor.name = d.name := by
    rw [hcomplete]
    rfl
  rw [hname] at hcandidate
  obtain ⟨_, hdisplay, haddress, hinterface, hprotocol, hsource⟩ := hshows
  rw [hcomplete] at hdisplay haddress hinterface hprotocol
  refine ⟨⟨localAddress, now, hprepare⟩, i, hi, hcandidate, haddress, ?_, hinterface, hprotocol,
    hsource⟩
  rw [hdisplay]
  unfold Descriptor.complete
  dsimp only
  by_cases hempty : d.displayName.isEmpty = true
  · rw [if_pos hempty, ite_self]
  · rw [if_neg hempty, if_neg hempty]

/-! ## A registration among two clients -/

theorem runs_carryOn (client : Nat) (key : String) (n : Nat) (x : Attempt × Environment)
    (hnumbers : ∀ k < n, 1 ≤ (carryOn (k + 1) x).2.store.nextLease.toInt) :
    Runs client key x.1 x.2 (carryOn n x).1 (carryOn n x).2 := by
  refine carryOn_induction (P := fun y => Runs client key x.1 x.2 y.1 y.2) n (.refl x.1 x.2) ?_
  intro k hk hrun hstep
  exact hrun.tail (hstep.mono fun _ _ => False.elim) (hnumbers k hk)

/-- A fresh environment with two clients. -/
def pair : Environment := .initial (.running 0) [{}, {}]

/-- An attempt of the first client there. -/
def entrant : Attempt × Environment :=
  (unstarted (pair.terms 0 (.shutdown 0)) (.ofAddress "a" "h" ""), pair)

/-- What this attempt publishes. -/
def entrantPlan : Registration.Plan :=
  { root := "rendezvous"
    key := "/rendezvous/a/a_00000000-0000-4000-8000-000000000000"
    descriptor := { Descriptor.ofAddress "a" "h" "" with displayName := "a" }
    ttl := 7 }

/-- Four steps later the second client refreshes its root, which is written with slashes, and has
the instance. -/
theorem registration_discoverable_pair :
    ∃ n env i, (carryOn 4 entrant).2.refresh 1 "/rendezvous/" = (.ok n, env) ∧
      (env.candidates 1 "a").1.filter (fun j => j.key = entrantPlan.key) = [i] ∧
      i.address = "h" ∧ i.displayName = "a" := by
  have hnew : pair.Aware 1 entrantPlan.key none := Environment.aware_initial _ _ _ _
  have hrun := runs_carryOn 1 entrantPlan.key 4 entrant (by decide +kernel)
  have htold : Told 1 entrantPlan.key "rendezvous" _ entrant.1 pair :=
    ⟨Environment.sound_initial _ _, .unstarted _ _, by decide +kernel, .unstarted hnew⟩
  obtain ⟨n, env, hrefresh⟩ := Environment.refresh_ok (htold.runs hrun).sound
    (by decide +kernel) (by decide +kernel) 1 "/rendezvous/"
  have hregistered : (carryOn 4 entrant).1.stage.registered? = some (entrantPlan, ⟨1⟩) := by
    decide +kernel
  have hlive : ∃ held, (⟨1⟩, held) ∈ (carryOn 4 entrant).2.store.leases ∧
      held.lapsed (carryOn 4 entrant).2.now = false :=
    ⟨⟨7, 7000000000⟩, by decide +kernel⟩
  obtain ⟨_, i, _, hi, haddress, hdisplay, _⟩ :=
    registration_discoverable (Environment.sound_initial _ _) hnew hrun hregistered (.refl _ _)
      hlive (by decide +kernel) (by decide +kernel) hrefresh
  exact ⟨n, env, i, hrefresh, hi, haddress, hdisplay⟩

end Attempt
end ServiceDiscovery
