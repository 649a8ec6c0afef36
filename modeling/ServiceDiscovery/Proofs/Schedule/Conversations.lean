import ServiceDiscovery.Proofs.Json.RoundTrip
import ServiceDiscovery.Proofs.Roots
import ServiceDiscovery.Proofs.Schedule.Renewals

/-!
# What a registration says to a store

A registration asks a store for one thing after the other, and the store may answer
whatever it likes, whenever it likes, or not at all.  What is said between the two
still follows one protocol, and the protocol decides how the registration ends.

Main results:

- Definition {lit}`Attempt.Protocol`: the complete conversations of a registration, each
  with its outcome.
- Definition {lit}`Attempt.Converses`: what is said in a run against any store.
- Theorem {lit}`Attempt.converses_of_openStep`: the steps of an attempt in an environment
  are steps of such a run.
- Theorem {lit}`Attempt.Tracks.heard`: the protocol is kept whatever is heard.
- Theorem {lit}`Attempt.registration_protocol`: every run follows the protocol.
-/

namespace ServiceDiscovery
namespace Attempt

open Registration (Plan Phase Event react)

/-! ## Utterances -/

/-- What is said in a conversation of a registration. -/
inductive Utterance where
  /-- The registration asks the store for something. -/
  | call (request : Request)
  /-- The registration learns of something. -/
  | heard (event : Event)
  /-- The registration gives up a request that takes too long. -/
  | gaveUp

/-- The requests in a conversation. -/
def calls (said : List Utterance) : List Request :=
  said.filterMap fun
    | .call request => some request
    | _ => none

/-- An event is an answer to a request. -/
def Answers : Request → Event → Prop
  | .grant _, .granted _ | .put .., .published _ | .keepAlive _, .opened _
  | .scan _, .refreshed _ | .revoke _, .released _ => True
  | _, _ => False

/-- A request is over, by whatever answer or without one. -/
inductive Ends (request : Request) : Utterance → Prop where
  | answered {event : Event} (h : Answers request event) : Ends request (.heard event)
  | gaveUp : Ends request .gaveUp

/-- A request has failed: with the failure that the store gives, or because it took too long. -/
inductive Fails (terms : Terms) (request : Request) : Utterance → Failure → Prop where
  | refused (failure : Failure) : Fails terms request (.heard (givenUp failure request)) failure
  | gaveUp :
      Fails terms request .gaveUp (Call.timedOut request.operation.label terms.callTimeout)

/-! ## The protocol -/

/-- A plan for a description, under the terms of an attempt. -/
structure Planned (terms : Terms) (d : Descriptor) (plan : Plan) : Prop where
  prepared : ∃ localAddress now, d.prepare localAddress now = .ok plan.descriptor
  key : ∃ unique, plan.key = Key.ofInstance terms.root plan.descriptor.name unique
  decodes : Descriptor.ofJson (Text.utf8 plan.descriptor.toJson) = .ok plan.descriptor
  root : plan.root = terms.root
  ttl : plan.ttl = Registration.wholeSeconds terms.leaseTtl

/-- An item of the stream of acknowledgements by which a lease is lost, and the reason. -/
inductive Loss (lease : LeaseId) : AckItem → String → Prop where
  | expired (ack : LeaseAck) (h : ¬ 0 < ack.ttl) :
      Loss lease (.renewed ack)
        ("lease " ++ ack.lease.text ++ " expired (ttl " ++ toString ack.ttl.toInt ++ ")")
  | failed (failure : Failure) : Loss lease (.failed failure) failure.message
  | closed : Loss lease .closed ("keepalive stream for lease " ++ lease.text ++ " closed")

/-- What is written to publish a plan under a lease. -/
def publication (plan : Plan) (lease : LeaseId) : Request :=
  .put plan.key (Text.utf8 plan.descriptor.toJson) lease

/-- The request of a refresh. -/
def lookAround (plan : Plan) : Request :=
  .scan (Key.rootPrefix plan.root)

/-- A conversation up to the publication. -/
def upToPut (plan : Plan) (lease : LeaseId) : List Utterance :=
  [.call (.grant plan.ttl), .heard (.granted (.ok lease)), .call (publication plan lease)]

/-- A conversation up to the request for acknowledgements. -/
def upToKeepAlive (plan : Plan) (lease : LeaseId) : List Utterance :=
  upToPut plan lease ++ [.heard (.published (.ok ())), .call (.keepAlive lease)]

/-- A conversation while the registration is held: acknowledgements with time left to live, and
refreshes, if there are any. -/
inductive Vigil (terms : Terms) (plan : Plan) (lease : LeaseId) : List Utterance → Prop where
  | begun : Vigil terms plan lease (upToKeepAlive plan lease ++ [.heard (.opened (.ok ()))])
  | renewed {said : List Utterance} {ack : LeaseAck} (before : Vigil terms plan lease said)
      (h : 0 < ack.ttl) : Vigil terms plan lease (said ++ [.heard (.acknowledged (.renewed ack))])
  | refreshed {said : List Utterance} {u : Utterance} (before : Vigil terms plan lease said)
      (refreshes : terms.refreshes = true) (h : Ends (lookAround plan) u) :
      Vigil terms plan lease (said ++ [.heard .ticked, .call (lookAround plan), u])

/-- The complete conversations of a registration, with their outcomes. -/
inductive Protocol (terms : Terms) (d : Descriptor) :
    List Utterance → Option Failure → Prop where
  /-- The description cannot be published, and nothing is asked for. -/
  | refused {failure : Failure} (h : d.check = .error failure)
      (kind : failure.kind = .misconfigured) : Protocol terms d [] (some failure)
  /-- The registration is stopped before it has asked for anything. -/
  | stopped {plan : Plan} (planned : Planned terms d plan) : Protocol terms d [] none
  | ungranted {plan : Plan} {u : Utterance} {failure : Failure} (planned : Planned terms d plan)
      (h : Fails terms (.grant plan.ttl) u failure) :
      Protocol terms d [.call (.grant plan.ttl), u] (some failure)
  | unpublished {plan : Plan} {lease : LeaseId} {u v : Utterance} {failure : Failure}
      (planned : Planned terms d plan) (h : Fails terms (publication plan lease) u failure)
      (released : Ends (.revoke lease) v) :
      Protocol terms d (upToPut plan lease ++ [u, .call (.revoke lease), v]) (some failure)
  | unopened {plan : Plan} {lease : LeaseId} {u v : Utterance} {failure : Failure}
      (planned : Planned terms d plan) (h : Fails terms (.keepAlive lease) u failure)
      (released : Ends (.revoke lease) v) :
      Protocol terms d (upToKeepAlive plan lease ++ [u, .call (.revoke lease), v]) (some failure)
  /-- The registration is stopped, and gives its lease back. -/
  | left {plan : Plan} {lease : LeaseId} {said : List Utterance} {v : Utterance}
      (planned : Planned terms d plan) (vigil : Vigil terms plan lease said)
      (released : Ends (.revoke lease) v) :
      Protocol terms d (said ++ [.heard .cancelled, .call (.revoke lease), v]) none
  /-- The lease is lost, and there is nothing to give back. -/
  | lost {plan : Plan} {lease : LeaseId} {said : List Utterance} {item : AckItem} {reason : String}
      (planned : Planned terms d plan) (vigil : Vigil terms plan lease said)
      (h : Loss lease item reason) :
      Protocol terms d (said ++ [.heard (.acknowledged item)]) (some (.leaseLost reason))

/-! ## Runs against any store -/

/-- The request that is made when an attempt comes to a stage. -/
def Stage.asks : Stage → List Utterance
  | .running p => (p.pending.map fun pending => .call pending.1).toList
  | _ => []

/-- What an attempt may learn where it stands, and the event that this is to the registration. While
a request is under way, it is any answer at any time, or none. -/
inductive Hears (a : Attempt) (env : Environment) (p : Progress) : Utterance → Event → Prop where
  | answered {request : Request} {call : Call} {event : Event}
      (pending : p.pending = some (request, call)) (h : Answers request event) :
      Hears a env p (.heard event) event
  | gaveUp {request : Request} {call : Call} (pending : p.pending = some (request, call)) :
      Hears a env p .gaveUp
        (givenUp (Call.timedOut request.operation.label a.terms.callTimeout) request)
  | cancelled (idle : p.pending = none) (h : a.isCancelled env = true) :
      Hears a env p (.heard .cancelled) .cancelled
  | acknowledged (idle : p.pending = none) (item : AckItem) :
      Hears a env p (.heard (.acknowledged item)) (.acknowledged item)
  | ticked (idle : p.pending = none) (h : a.terms.refreshes = true) :
      Hears a env p (.heard .ticked) .ticked

/-- A step of an attempt against any store, with what is said in it. The environment after it is
arbitrary, except that no signal is taken back. -/
inductive Speaks (a : Attempt) (env : Environment) : List Utterance → Stage → Prop where
  | start {d : Descriptor} (unstarted : a.stage = .unstarted d) :
      Speaks a env (a.start d env).1.asks (a.start d env).1
  | reacts {p : Progress} {u : Utterance} {event : Event} (running : a.stage = .running p)
      (hears : Hears a env p u event) (hold : Option Hold) (env' : Environment) :
      Speaks a env
        (u :: (follow a.terms p.plan hold (react p.plan p.phase event) env').1.asks)
        (follow a.terms p.plan hold (react p.plan p.phase event) env').1

/-- What is said in a run of an attempt against any store. In between, anything may happen in the
environment, except that no signal is taken back. -/
inductive Converses (a₀ : Attempt) (env₀ : Environment) :
    List Utterance → Attempt → Environment → Prop where
  | begin : Converses a₀ env₀ [] a₀ env₀
  | meanwhile {said : List Utterance} {a : Attempt} {env env' : Environment}
      (before : Converses a₀ env₀ said a env) (raised : env.raised ⊆ env'.raised) :
      Converses a₀ env₀ said a env'
  | relayed {said : List Utterance} {a : Attempt} {env : Environment} {s : Signal}
      (before : Converses a₀ env₀ said a env) (watched : a.terms.relayed = some s)
      (raised : env.isRaised s = true) : Converses a₀ env₀ said { a with passedOn := true } env
  | speaks {said more : List Utterance} {a : Attempt} {env env' : Environment} {stage : Stage}
      (before : Converses a₀ env₀ said a env) (h : Speaks a env more stage)
      (raised : env.raised ⊆ env'.raised) :
      Converses a₀ env₀ (said ++ more) { a with stage } env'

/-- A run goes on where its first part ends, and so does the conversation. -/
theorem Converses.append {a₀ a b : Attempt} {env₀ env env' : Environment}
    {said more : List Utterance} (h : Converses a₀ env₀ said a env)
    (h' : Converses a env more b env') : Converses a₀ env₀ (said ++ more) b env' := by
  induction h' with
  | begin =>
      rw [List.append_nil]
      exact h
  | meanwhile before raised ih => exact .meanwhile ih raised
  | relayed before watched raised ih => exact .relayed ih watched raised
  | speaks before hspeaks raised ih =>
      rw [← List.append_assoc]
      exact .speaks ih hspeaks raised

/-- A refusal that is heard is of the kind that belongs to what was asked for. -/
def Candid (u : Utterance) : Prop :=
  ∀ failure request, u = .heard (givenUp failure request) →
    failure.kind = request.operation.refusal

/-! ## Attempts converse -/

section

variable {a b : Attempt} {env env' : Environment} {stage : Stage} {p : Progress}

/-- What a store answers is an answer. -/
theorem answers_carryOut (terms : Terms) (env : Environment) (request : Request) :
    Answers request (carryOut terms env request).1.1 := by
  cases request with
  | grant ttl => trivial
  | put key value lease => trivial
  | keepAlive lease =>
      rcases hanswer : env.keepAlive lease with ⟨failure | stream, env'⟩
      · simp only [carryOut, hanswer]
        trivial
      · simp only [carryOut, hanswer]
        trivial
  | scan start =>
      rcases hanswer : env.scan start with ⟨failure | entries, env'⟩
      · simp only [carryOut, hanswer]
        trivial
      · simp only [carryOut, hanswer]
        trivial
  | revoke lease => trivial

/-- A request fails as the store has it fail, or as nobody answers; so its kind of failure is known
if both have the same one. -/
theorem kind_of_ask {α : Type} {request : Request}
    {run : MemoryStore → Except Failure α × MemoryStore} {kind : FailureKind} {failure : Failure}
    (hsilence : (Remote.unanswered request).kind = kind)
    (hrun : (run env.store).1 = .error failure → failure.kind = kind)
    (h : (env.ask request run).1 = .error failure) : failure.kind = kind := by
  unfold Environment.ask at h
  split at h
  · exact hrun h
  · cases h
    exact hsilence

/-- Acknowledgements are refused by the store, or because there is no such lease. -/
theorem kind_of_keepAlive {lease : LeaseId} {failure : Failure}
    (h : (env.keepAlive lease).1 = .error failure) : failure.kind = .leaseLost := by
  unfold Environment.keepAlive at h
  split at h
  · cases h
  · unfold Environment.openStream at h
    rcases hrenewal : env.ask (.keepAlive lease) fun s => s.renew env.now lease with
      ⟨refusal | _ | ttl, env'⟩
    · rw [hrenewal] at h
      cases h
      exact kind_of_ask rfl MemoryStore.kind_of_renew (congrArg Prod.fst hrenewal)
    · rw [hrenewal] at h
      cases h
      rfl
    · rw [hrenewal] at h
      cases h

/-- Whatever a store refuses, it refuses with the kind of failure that belongs to it. -/
theorem candid_carryOut (terms : Terms) (env : Environment) (request : Request) :
    Candid (.heard (carryOut terms env request).1.1) := by
  intro failure asked heq
  have hevent := Utterance.heard.inj heq
  cases request with
  | grant ttl =>
      cases asked with
      | grant =>
          have hrefused : (env.grant ttl).1 = .error failure := Event.granted.inj hevent
          exact kind_of_ask rfl MemoryStore.kind_of_grant hrefused
      | put | keepAlive | scan | revoke => cases hevent
  | put key value lease =>
      cases asked with
      | put =>
          have hrefused : (env.put key value lease).1 = .error failure :=
            Event.published.inj hevent
          exact kind_of_ask rfl MemoryStore.kind_of_putLeased hrefused
      | grant | keepAlive | scan | revoke => cases hevent
  | keepAlive lease =>
      rcases hanswer : env.keepAlive lease with ⟨refusal | stream, env'⟩
      · simp only [carryOut, hanswer] at hevent
        cases asked with
        | keepAlive =>
            rw [← Except.error.inj (Event.opened.inj hevent)]
            exact kind_of_keepAlive (congrArg Prod.fst hanswer)
        | grant | put | scan | revoke => cases hevent
      · simp only [carryOut, hanswer] at hevent
        cases asked <;> cases hevent
  | scan start =>
      rcases hanswer : env.scan start with ⟨refusal | entries, env'⟩
      · simp only [carryOut, hanswer] at hevent
        cases asked with
        | scan =>
            rw [← Except.error.inj (Event.refreshed.inj hevent)]
            have hrefused : (env.scan start).1 = .error refusal := congrArg Prod.fst hanswer
            exact kind_of_ask rfl MemoryStore.kind_of_scan hrefused
        | grant | put | keepAlive | revoke => cases hevent
      · simp only [carryOut, hanswer] at hevent
        cases asked <;> cases hevent
  | revoke lease =>
      cases asked with
      | revoke =>
          have hrefused : (env.revoke lease).1 = .error failure := Event.released.inj hevent
          exact kind_of_ask rfl MemoryStore.kind_of_revoke hrefused
      | grant | put | keepAlive | scan => cases hevent

theorem candid_asks (stage : Stage) : ∀ u ∈ stage.asks, Candid u := by
  intro u hu failure request heq
  subst heq
  cases stage with
  | unstarted | finished => cases hu
  | running p =>
      obtain ⟨pending, _, hcall⟩ := Option.map_eq_some_iff.mp (Option.mem_toList.mp hu)
      cases hcall

/-- What a reaction asks for says nothing of refusals. -/
theorem candid_reaction {u : Utterance} (hu : Candid u) (stage : Stage) :
    ∀ v ∈ u :: stage.asks, Candid v :=
  List.forall_mem_cons.mpr ⟨hu, candid_asks stage⟩

/-- The end of a request is a step of an attempt against any store. -/
theorem speaks_of_conclude {request : Request} {call : Call} (hstage : a.stage = .running p)
    (hpending : p.pending = some (request, call)) :
    ∃ more, (∀ u ∈ more, Candid u) ∧
      Speaks a env more (conclude a.terms p request call env).1 := by
  unfold conclude
  split
  · exact ⟨_, candid_reaction (candid_carryOut a.terms env request) _,
      .reacts hstage (.answered hpending (answers_carryOut a.terms env request)) _ _⟩
  · have hsilent : Candid .gaveUp := by
      intro failure request heq
      cases heq
    exact ⟨_, candid_reaction hsilent _, .reacts hstage (.gaveUp hpending) _ _⟩

/-- What a registration attends to while it is held is a step against any store. -/
theorem speaks_of_attend {hold : Hold} (hstage : a.stage = .running p) (hidle : p.pending = none)
    (h : a.attend p hold env = some (stage, env')) :
    ∃ more, (∀ u ∈ more, Candid u) ∧ Speaks a env more stage := by
  have hquiet {event : Event} (hevent : ∀ request failure, event ≠ givenUp failure request) :
      Candid (.heard event) :=
    fun failure request heq => absurd (Utterance.heard.inj heq) (hevent request failure)
  unfold attend at h
  split at h
  · rename_i hcancel
    obtain ⟨rfl, _⟩ := Prod.mk.inj (Option.some.inj h)
    exact ⟨_, candid_reaction (hquiet fun request _ => by cases request <;> nofun) _,
      .reacts hstage (.cancelled hidle hcancel) _ _⟩
  · split at h
    · obtain ⟨rfl, _⟩ := Prod.mk.inj (Option.some.inj h)
      exact ⟨_, candid_reaction (hquiet fun request _ => by cases request <;> nofun) _,
        .reacts hstage (.acknowledged hidle _) _ _⟩
    · split at h
      · rename_i htick
        obtain ⟨rfl, _⟩ := Prod.mk.inj (Option.some.inj h)
        rw [Bool.and_eq_true] at htick
        exact ⟨_, candid_reaction (hquiet fun request _ => by cases request <;> nofun) _,
          .reacts hstage (.ticked hidle htick.1) _ _⟩
      · cases h

/-- Every step of an attempt is a step against some store. -/
theorem speaks_of_nextStage (h : a.nextStage env = some (stage, env')) :
    ∃ more, (∀ u ∈ more, Candid u) ∧ Speaks a env more stage := by
  unfold nextStage at h
  cases hstage : a.stage with
  | unstarted d =>
      rw [hstage] at h
      have hfirst : (a.start d env).1 = stage := congrArg Prod.fst (Option.some.inj h)
      rw [← hfirst]
      exact ⟨_, candid_asks _, .start hstage⟩
  | finished failure =>
      rw [hstage] at h
      cases h
  | running p =>
      rw [hstage] at h
      simp only at h
      split at h
      · rename_i request call hpending
        split at h
        · have hfirst : (conclude a.terms p request call env).1 = stage :=
            congrArg Prod.fst (Option.some.inj h)
          rw [← hfirst]
          exact speaks_of_conclude hstage hpending
        · cases h
      · rename_i hold hpending hhold
        exact speaks_of_attend hstage hpending h
      · cases h

/-- An attempt in an environment converses with the store there, whatever others do. -/
theorem converses_of_openStep {a₀ : Attempt} {env₀ : Environment} {said : List Utterance}
    {others : Environment → Environment → Prop} (horder : a.stage.InOrder)
    (hothers : ∀ env env', others env env' → env.raised ⊆ env'.raised)
    (h : Converses a₀ env₀ said a env) (hstep : OpenStep moves dueAt others a env b env') :
    b.stage.InOrder ∧ ∃ more, (∀ u ∈ more, Candid u) ∧
      Converses a₀ env₀ (said ++ more) b env' := by
  have hquiet (hsaid : Converses a₀ env₀ said b env') :
      ∃ more, (∀ u ∈ more, Candid u) ∧ Converses a₀ env₀ (said ++ more) b env' :=
    ⟨[], nofun, by rwa [List.append_nil]⟩
  cases hstep with
  | move hmove =>
      obtain ⟨hnextOrder, hsame⟩ := inOrder_of_move horder hmove
      refine ⟨hnextOrder, ?_⟩
      rcases relays_or_advances hmove with ⟨rfl, rfl, s, hs, hraised⟩ | ⟨stage, hnext, rfl⟩
      · exact hquiet (.relayed h hs hraised)
      · obtain ⟨more, hcandid, hspeaks⟩ := speaks_of_nextStage hnext
        refine ⟨more, hcandid, .speaks h hspeaks ?_⟩
        rw [hsame.raised]
        exact List.Subset.refl _
  | pass time => exact ⟨horder, hquiet (.meanwhile h (List.Subset.refl _))⟩
  | meddle hmeddle => exact ⟨horder, hquiet (.meanwhile h (hothers _ _ hmeddle))⟩

end

/-! ## The protocol is kept -/

section

variable {terms : Terms} {d : Descriptor} {plan : Plan} {lease : LeaseId} {a : Attempt}
  {env env' : Environment} {p : Progress} {said : List Utterance} {u : Utterance}
  {event : Event} {request : Request} {call : Call} {hold : Option Hold}

/-- What has been said when an attempt stands at a stage. It is leaving only when it was told to. -/
inductive Tracks (terms : Terms) (d : Descriptor) (told : Prop) :
    List Utterance → Stage → Prop where
  | unstarted : Tracks terms d told [] (.unstarted d)
  | granting {plan : Plan} {call : Call} {hold : Option Hold} (planned : Planned terms d plan) :
      Tracks terms d told [.call (.grant plan.ttl)]
        (.running ⟨plan, .granting, some (.grant plan.ttl, call), hold⟩)
  | publishing {plan : Plan} {lease : LeaseId} {call : Call} {hold : Option Hold}
      (planned : Planned terms d plan) :
      Tracks terms d told (upToPut plan lease)
        (.running ⟨plan, .publishing lease, some (publication plan lease, call), hold⟩)
  | opening {plan : Plan} {lease : LeaseId} {call : Call} {hold : Option Hold}
      (planned : Planned terms d plan) :
      Tracks terms d told (upToKeepAlive plan lease)
        (.running ⟨plan, .opening lease, some (.keepAlive lease, call), hold⟩)
  | held {plan : Plan} {lease : LeaseId} {hold : Option Hold} {said : List Utterance}
      (planned : Planned terms d plan) (vigil : Vigil terms plan lease said) :
      Tracks terms d told said (.running ⟨plan, .held lease, none, hold⟩)
  | refreshing {plan : Plan} {lease : LeaseId} {call : Call} {hold : Option Hold}
      {said : List Utterance} (planned : Planned terms d plan)
      (vigil : Vigil terms plan lease said) (refreshes : terms.refreshes = true) :
      Tracks terms d told (said ++ [.heard .ticked, .call (lookAround plan)])
        (.running ⟨plan, .refreshing lease, some (lookAround plan, call), hold⟩)
  | releasing {plan : Plan} {lease : LeaseId} {cause : Option Failure} {call : Call}
      {hold : Option Hold} {said : List Utterance} (leaving : cause = none → told)
      (completes : ∀ v, Ends (.revoke lease) v → Protocol terms d (said ++ [v]) cause) :
      Tracks terms d told said
        (.running ⟨plan, .releasing lease cause, some (.revoke lease, call), hold⟩)
  | finished {outcome : Option Failure} {said : List Utterance} (left : outcome = none → told)
      (h : Protocol terms d said outcome) : Tracks terms d told said (.finished outcome)

/-- Whoever was told to stop stays told. -/
theorem Tracks.mono {told told' : Prop} {stage : Stage} (h : Tracks terms d told said stage)
    (htold : told → told') : Tracks terms d told' said stage := by
  cases h with
  | unstarted => exact .unstarted
  | granting planned => exact .granting planned
  | publishing planned => exact .publishing planned
  | opening planned => exact .opening planned
  | held planned vigil => exact .held planned vigil
  | refreshing planned vigil refreshes => exact .refreshing planned vigil refreshes
  | releasing leaving completes => exact .releasing (fun h => htold (leaving h)) completes
  | finished left hprotocol => exact .finished (fun h => htold (left h)) hprotocol

/-- While a request is under way, nothing is heard but its end. -/
theorem Hears.of_pending (h : Hears a env p u event) (hpending : p.pending = some (request, call)) :
    Ends request u ∧ Answers request event ∧
      ∀ failure, event = givenUp failure request → Fails a.terms request u failure := by
  cases h with
  | answered pending hanswers =>
      rw [hpending] at pending
      cases pending
      refine ⟨.answered hanswers, hanswers, ?_⟩
      rintro failure rfl
      exact .refused failure
  | gaveUp pending =>
      rw [hpending] at pending
      cases pending
      refine ⟨.gaveUp, ?_, ?_⟩
      · cases request <;> trivial
      · intro failure heq
        have hfailure : Call.timedOut request.operation.label a.terms.callTimeout = failure := by
          cases request <;> cases heq <;> rfl
        rw [← hfailure]
        exact .gaveUp
  | cancelled idle | acknowledged idle | ticked idle =>
      rw [hpending] at idle
      cases idle

/-- An answer that is no failure was heard. -/
theorem Hears.eq_heard (h : Hears a env p u event)
    (hsuccess : ∀ failure request, event ≠ givenUp failure request) : u = .heard event := by
  cases h with
  | gaveUp pending => exact absurd rfl (hsuccess _ _)
  | answered | cancelled | acknowledged | ticked => rfl

/-- A plan that was made is one for its description. -/
theorem planned_of_make {localAddress : String} {now : Reading} {unique : Uuid}
    (h : Plan.make localAddress now unique terms.root terms.leaseTtl d = .ok plan) :
    Planned terms d plan := by
  obtain ⟨hprepare, _, hcomplete, hkey, hroot⟩ := Plan.of_make h
  refine ⟨⟨localAddress, now, hprepare⟩, ⟨unique, ?_⟩, Descriptor.ofJson_toJson _, hroot,
    ttl_of_make h⟩
  rw [hkey, hcomplete]
  rfl

/-- The first step asks for a lease, or for nothing. -/
theorem Tracks.start {told : Prop} (d : Descriptor) (hcancel : a.isCancelled env = true → told) :
    Tracks a.terms d told (a.start d env).1.asks (a.start d env).1 := by
  rw [start_eq]
  cases hplan : Plan.make env.localAddress env.now (.random env.bits) a.terms.root a.terms.leaseTtl
      d with
  | error failure => exact .finished nofun (.refused (check_of_make hplan) (kind_of_make hplan))
  | ok plan =>
      cases hstop : a.isCancelled env with
      | true => exact .finished (fun _ => hcancel hstop) (.stopped (planned_of_make hplan))
      | false => exact .granting (planned_of_make hplan)

/-- Whatever is heard, the protocol is kept. -/
theorem Tracks.heard {told : Prop} (h : Tracks a.terms d told said (.running p))
    (hcancel : a.isCancelled env = true → told) (hears : Hears a env p u event)
    (hold : Option Hold) (env' : Environment) :
    Tracks a.terms d told
      (said ++ u :: (follow a.terms p.plan hold (react p.plan p.phase event) env').1.asks)
      (follow a.terms p.plan hold (react p.plan p.phase event) env').1 := by
  cases h with
  | granting planned =>
      obtain ⟨_, hanswers, hfails⟩ := hears.of_pending rfl
      cases event with
      | granted result =>
          cases result with
          | error failure => exact .finished (by simp) (.ungranted planned (hfails failure rfl))
          | ok lease =>
              have hu := hears.eq_heard fun _ request => by cases request <;> simp [givenUp]
              rw [hu]
              exact .publishing planned
      | published | opened | cancelled | acknowledged | ticked | refreshed | released =>
          cases hanswers
  | publishing planned =>
      obtain ⟨_, hanswers, hfails⟩ := hears.of_pending rfl
      cases event with
      | published result =>
          cases result with
          | error failure =>
              refine .releasing (by simp) ?_
              intro v hv
              rw [List.append_assoc]
              exact .unpublished planned (hfails failure rfl) hv
          | ok =>
              have hu := hears.eq_heard fun _ request => by cases request <;> simp [givenUp]
              rw [hu]
              exact .opening planned
      | granted | opened | cancelled | acknowledged | ticked | refreshed | released =>
          cases hanswers
  | opening planned =>
      obtain ⟨_, hanswers, hfails⟩ := hears.of_pending rfl
      cases event with
      | opened result =>
          cases result with
          | error failure =>
              refine .releasing (by simp) ?_
              intro v hv
              rw [List.append_assoc]
              exact .unopened planned (hfails failure rfl) hv
          | ok =>
              have hu := hears.eq_heard fun _ request => by cases request <;> simp [givenUp]
              rw [hu]
              exact .held planned .begun
      | granted | published | cancelled | acknowledged | ticked | refreshed | released =>
          cases hanswers
  | @held plan lease _ _ planned vigil =>
      cases hears with
      | answered pending | gaveUp pending => cases pending
      | cancelled idle hstop =>
          refine .releasing (fun _ => hcancel hstop) ?_
          intro v hv
          rw [List.append_assoc]
          exact .left planned vigil hv
      | ticked idle refreshes => exact .refreshing planned vigil refreshes
      | acknowledged idle item =>
          cases item with
          | renewed ack =>
              by_cases httl : 0 < ack.ttl
              · simp only [react, Registration.onItem, if_pos httl]
                exact .held planned (.renewed vigil httl)
              · simp only [react, Registration.onItem, if_neg httl]
                exact .finished (by simp) (.lost planned vigil (.expired ack httl))
          | failed failure => exact .finished (by simp) (.lost planned vigil (.failed failure))
          | closed => exact .finished (by simp) (.lost planned vigil .closed)
  | @refreshing plan lease _ _ said planned vigil refreshes =>
      obtain ⟨hends, hanswers, _⟩ := hears.of_pending rfl
      cases event with
      | refreshed result =>
          have hvigil := vigil.refreshed refreshes hends
          rw [List.append_assoc]
          cases result with
          | error failure => exact .held planned hvigil
          | ok => exact .held planned hvigil
      | granted | published | opened | cancelled | acknowledged | ticked | released =>
          cases hanswers
  | @releasing plan lease cause _ _ _ leaving completes =>
      obtain ⟨hends, hanswers, _⟩ := hears.of_pending rfl
      cases event with
      | released result =>
          have hcomplete := completes u hends
          cases cause with
          | none => exact .finished leaving hcomplete
          | some failure => exact .finished leaving hcomplete
      | granted | published | opened | cancelled | acknowledged | ticked | refreshed =>
          cases hanswers

/-- A run against any store keeps the protocol at every stage. -/
theorem Converses.tracks (h : Converses (.unstarted terms d) env said a env') :
    a.terms = terms ∧ (a.passedOn = true → ToldToStop terms env') ∧
      Tracks terms d (ToldToStop terms env') said a.stage := by
  induction h with
  | begin => exact ⟨rfl, nofun, .unstarted⟩
  | meanwhile before raised ih =>
      obtain ⟨hterms, hpassed, htracks⟩ := ih
      exact ⟨hterms, fun h => (hpassed h).mono raised, htracks.mono fun h => h.mono raised⟩
  | @relayed said a env s before watched raised ih =>
      obtain ⟨rfl, _, htracks⟩ := ih
      exact ⟨rfl, fun _ => Or.inr ⟨s, watched, raised⟩, htracks⟩
  | @speaks said more a env₁ env₂ stage before hspeaks raised ih =>
      obtain ⟨rfl, hpassed, htracks⟩ := ih
      refine ⟨rfl, fun h => (hpassed h).mono raised, ?_⟩
      have hcancel (h : a.isCancelled env₁ = true) : ToldToStop a.terms env₁ :=
        .of_cancelled h hpassed
      have htold : ToldToStop a.terms env₁ → ToldToStop a.terms env₂ := fun h => h.mono raised
      refine Tracks.mono ?_ htold
      cases hspeaks with
      | @start d' hstage =>
          rw [hstage] at htracks
          cases htracks
          exact .start d hcancel
      | reacts hstage hears hold env₃ =>
          rw [hstage] at htracks
          exact htracks.heard hcancel hears hold env₃

/-- Every conversation that is not over yet is the beginning of a complete one. -/
theorem Tracks.completes {told : Prop} {stage : Stage} (h : Tracks terms d told said stage) :
    ∃ rest outcome, Protocol terms d (said ++ rest) outcome := by
  cases h with
  | unstarted =>
      cases hplan : Plan.make "" 0 (.random 0) terms.root terms.leaseTtl d with
      | error failure => exact ⟨[], _, .refused (check_of_make hplan) (kind_of_make hplan)⟩
      | ok plan => exact ⟨[], _, .stopped (planned_of_make hplan)⟩
  | granting planned => exact ⟨[.gaveUp], _, .ungranted planned .gaveUp⟩
  | @publishing plan lease _ _ planned =>
      exact ⟨[.gaveUp, .call (.revoke lease), .gaveUp], _, .unpublished planned .gaveUp .gaveUp⟩
  | @opening plan lease _ _ planned =>
      exact ⟨[.gaveUp, .call (.revoke lease), .gaveUp], _, .unopened planned .gaveUp .gaveUp⟩
  | @held plan lease _ _ planned vigil =>
      exact ⟨[.heard .cancelled, .call (.revoke lease), .gaveUp], _,
        .left planned vigil .gaveUp⟩
  | @refreshing plan lease _ _ said planned vigil refreshes =>
      refine ⟨[.gaveUp, .heard .cancelled, .call (.revoke lease), .gaveUp], none, ?_⟩
      have hleft := Protocol.left planned (vigil.refreshed refreshes .gaveUp) .gaveUp
      rw [List.append_assoc] at hleft ⊢
      exact hleft
  | releasing leaving completes => exact ⟨[.gaveUp], _, completes .gaveUp .gaveUp⟩
  | finished left hprotocol => exact ⟨[], _, by rwa [List.append_nil]⟩

/-! ## The requests of a registration -/

/-- All the requests that a registration makes, in order. -/
inductive Asks (plan : Plan) (lease : LeaseId) : List Request → Prop where
  | ungranted : Asks plan lease [.grant plan.ttl]
  | unpublished : Asks plan lease [.grant plan.ttl, publication plan lease, .revoke lease]
  | unopened :
      Asks plan lease [.grant plan.ttl, publication plan lease, .keepAlive lease, .revoke lease]
  | lost (n : Nat) :
      Asks plan lease ([.grant plan.ttl, publication plan lease, .keepAlive lease] ++
        List.replicate n (lookAround plan))
  | left (n : Nat) :
      Asks plan lease ([.grant plan.ttl, publication plan lease, .keepAlive lease] ++
        List.replicate n (lookAround plan) ++ [.revoke lease])

/-- The requests in a conversation come one part after the other. -/
theorem calls_append (said more : List Utterance) :
    calls (said ++ more) = calls said ++ calls more :=
  List.filterMap_append

theorem calls_call (request : Request) (said : List Utterance) :
    calls (.call request :: said) = request :: calls said :=
  rfl

theorem calls_heard (event : Event) (said : List Utterance) :
    calls (.heard event :: said) = calls said :=
  rfl

/-- The end of a request is no request. -/
theorem Ends.calls (h : Ends request u) (said : List Utterance) :
    calls (u :: said) = calls said := by
  cases h <;> rfl

/-- A request that has failed is over. -/
theorem Fails.ends {failure : Failure} (h : Fails terms request u failure) : Ends request u := by
  cases h with
  | refused =>
      apply Ends.answered
      cases request <;> trivial
  | gaveUp => exact .gaveUp

/-- A vigil asks for a lease, a write and a stream, and for nothing but scans after that. -/
theorem Vigil.calls (h : Vigil terms plan lease said) :
    ∃ n, calls said = [.grant plan.ttl, publication plan lease, .keepAlive lease] ++
      List.replicate n (lookAround plan) := by
  induction h with
  | begun => exact ⟨0, rfl⟩
  | renewed before httl ih =>
      obtain ⟨n, hn⟩ := ih
      refine ⟨n, ?_⟩
      rw [calls_append, hn]
      exact List.append_nil _
  | refreshed before refreshes hends ih =>
      obtain ⟨n, hn⟩ := ih
      refine ⟨n + 1, ?_⟩
      rw [calls_append, hn, calls_heard, calls_call, hends.calls, List.replicate_succ',
        List.append_assoc]
      rfl

/-- A registration makes its requests in one of a few ways, or none at all. -/
theorem Protocol.calls {outcome : Option Failure} (h : Protocol terms d said outcome) :
    calls said = [] ∨ ∃ plan lease, Planned terms d plan ∧ Asks plan lease (calls said) := by
  cases h with
  | refused => exact Or.inl rfl
  | stopped => exact Or.inl rfl
  | ungranted planned hfails =>
      right
      refine ⟨_, ⟨0⟩, planned, ?_⟩
      rw [calls_call, hfails.ends.calls]
      exact .ungranted
  | @unpublished plan lease u v failure planned hfails released =>
      right
      refine ⟨plan, lease, planned, ?_⟩
      rw [calls_append, hfails.ends.calls, calls_call, released.calls]
      exact .unpublished
  | @unopened plan lease u v failure planned hfails released =>
      right
      refine ⟨plan, lease, planned, ?_⟩
      rw [calls_append, hfails.ends.calls, calls_call, released.calls]
      exact .unopened
  | @left plan lease said v planned vigil released =>
      right
      obtain ⟨n, hn⟩ := vigil.calls
      refine ⟨plan, lease, planned, ?_⟩
      rw [calls_append, hn, calls_heard, calls_call, released.calls]
      exact .left n
  | @lost plan lease said item reason planned vigil hloss =>
      right
      obtain ⟨n, hn⟩ := vigil.calls
      refine ⟨plan, lease, planned, ?_⟩
      rw [calls_append, hn, calls_heard]
      change Asks plan lease (_ ++ [])
      rw [List.append_nil]
      exact .lost n

/-- Nothing is said about a description that cannot be published. -/
theorem Protocol.nil_of_check {outcome : Option Failure} {failure : Failure}
    (h : Protocol terms d said outcome) (hcheck : d.check = .error failure) :
    said = [] ∧ outcome = some failure ∧ failure.kind = .misconfigured := by
  have hunplanned {plan : Plan} : ¬ Planned terms d plan := by
    rintro ⟨⟨localAddress, now, hprepare⟩, _⟩
    rw [Descriptor.prepare, hcheck] at hprepare
    cases hprepare
  cases h with
  | refused hcheck' kind =>
      rw [hcheck] at hcheck'
      cases hcheck'
      exact ⟨rfl, rfl, kind⟩
  | stopped planned | ungranted planned | unpublished planned | unopened planned | left planned
  | lost planned => exact absurd planned hunplanned

/-- An attempt that is told to stop stays so. -/
theorem isCancelled_mono (h : a.isCancelled env = true) (raised : env.raised ⊆ env'.raised) :
    a.isCancelled env' = true := by
  rw [isCancelled, Bool.or_eq_true, Environment.isRaised, List.contains_iff_mem] at *
  exact h.imp_right fun hraised => raised hraised

/-- An attempt that is told to stop before it begins says nothing; and if its description can be
published, it does not fail. -/
theorem Converses.silent {a₀ : Attempt} (h : Converses a₀ env said a env')
    (hstage : a₀.stage = .unstarted d) (hcancel : a₀.isCancelled env = true) :
    said = [] ∧ a.isCancelled env' = true ∧
      (a.stage = .unstarted d ∨
        ∃ outcome, a.stage = .finished outcome ∧ (d.check = .ok () → outcome = none)) := by
  induction h with
  | begin => exact ⟨rfl, hcancel, Or.inl hstage⟩
  | meanwhile before raised ih =>
      obtain ⟨hsaid, htold, hstands⟩ := ih
      exact ⟨hsaid, isCancelled_mono htold raised, hstands⟩
  | relayed before watched raised ih =>
      obtain ⟨hsaid, _, hstands⟩ := ih
      exact ⟨hsaid, Bool.true_or _, hstands⟩
  | @speaks said more a env₁ env₂ stage before hspeaks raised ih =>
      obtain ⟨rfl, htold, hstands⟩ := ih
      have htold' : ({ a with stage } : Attempt).isCancelled env₂ = true :=
        isCancelled_mono (a := a) htold raised
      cases hspeaks with
      | @start d' hunstarted =>
          have hd : d' = d := by
            rcases hstands with hstands | ⟨_, hstands, _⟩
            · exact Stage.unstarted.inj (hunstarted.symm.trans hstands)
            · rw [hunstarted] at hstands
              cases hstands
          subst hd
          refine ⟨?_, htold', Or.inr ?_⟩
          · rw [start_eq, htold]
            split <;> rfl
          · rw [start_eq, htold]
            split
            · rename_i hplan
              refine ⟨_, rfl, fun hcheck => ?_⟩
              rw [check_of_make hplan] at hcheck
              cases hcheck
            · exact ⟨_, rfl, fun _ => rfl⟩
      | reacts hrunning =>
          rw [hrunning] at hstands
          rcases hstands with hstands | ⟨_, hstands, _⟩
          · cases hstands
          · cases hstands

/-- An attempt that was told to stop beforehand says nothing. -/
theorem Converses.nil_of_cancelled (h : Converses (.unstarted terms d) env said a env')
    (hraised : env.isRaised terms.watched = true) :
    said = [] ∧ a.isCancelled env' = true ∧
      (a.stage = .unstarted d ∨
        ∃ outcome, a.stage = .finished outcome ∧ (d.check = .ok () → outcome = none)) := by
  refine h.silent rfl ?_
  rw [isCancelled]
  exact hraised

/-- Registrations keep to one protocol, whatever a store answers and however long it takes, whatever
the stream of acknowledgements gives, and whenever a signal is given. What has been said at any
moment can be completed to a conversation of the protocol; and once the registration is over, it is
one. Then the requests came in one of a few ways, and the registration ended without a failure only
if it was told to stop. Nothing is asked for if the description cannot be published, and that is the
failure then; nor if the registration was told to stop beforehand. -/
theorem registration_protocol (h : Converses (.unstarted terms d) env said a env') :
    (∃ rest outcome, Protocol terms d (said ++ rest) outcome) ∧
      (∀ outcome, a.stage = .finished outcome →
        Protocol terms d said outcome ∧
        (calls said = [] ∨ ∃ plan lease, Planned terms d plan ∧ Asks plan lease (calls said)) ∧
        (outcome = none → ToldToStop terms env')) ∧
      (∀ failure, d.check = .error failure →
        said = [] ∧ failure.kind = .misconfigured ∧
        ∀ outcome, a.stage = .finished outcome → outcome = some failure) ∧
      (env.isRaised terms.watched = true → said = []) := by
  obtain ⟨_, _, htracks⟩ := h.tracks
  obtain ⟨rest, final, hcomplete⟩ := htracks.completes
  have hover {outcome : Option Failure} (hstage : a.stage = .finished outcome) :
      Protocol terms d said outcome ∧ (outcome = none → ToldToStop terms env') := by
    rw [hstage] at htracks
    cases htracks with
    | finished left hprotocol => exact ⟨hprotocol, left⟩
  refine ⟨⟨rest, final, hcomplete⟩, ?_, ?_, ?_⟩
  · intro outcome hstage
    obtain ⟨hprotocol, hleft⟩ := hover hstage
    exact ⟨hprotocol, hprotocol.calls, hleft⟩
  · intro failure hcheck
    obtain ⟨hsaid, _, hkind⟩ := hcomplete.nil_of_check hcheck
    refine ⟨(List.append_eq_nil_iff.mp hsaid).1, hkind, ?_⟩
    intro outcome hstage
    exact ((hover hstage).1.nil_of_check hcheck).2.1
  · intro hraised
    exact (h.nil_of_cancelled hraised).1

end

/-! ## A registration that is lost -/

/-- An attempt that carries on by itself converses. -/
theorem converses_carryOn (n : Nat) {x : Attempt × Environment} (horder : x.1.stage.InOrder) :
    (carryOn n x).1.stage.InOrder ∧
      ∃ said, Converses x.1 x.2 said (carryOn n x).1 (carryOn n x).2 := by
  have hnobody : ∀ env env' : Environment, False → env.raised ⊆ env'.raised :=
    fun _ _ => False.elim
  refine carryOn_induction (P := fun y => y.1.stage.InOrder ∧
    ∃ said, Converses x.1 x.2 said y.1 y.2) n ⟨horder, [], .begin⟩ ?_
  rintro k _ ⟨hinOrder, said, hsaid⟩ hstep
  obtain ⟨hnext, more, _, hmore⟩ := converses_of_openStep hinOrder hnobody hsaid hstep
  exact ⟨hnext, said ++ more, hmore⟩

/-- A fresh environment in which the second acknowledgement says that no time is left. -/
def ebbing : Environment :=
  { Environment.initial (.running 0) [{}] with
    script := some [⟨0, some (.ok 7)⟩, ⟨5, some (.ok 0)⟩] }

/-- An attempt in that environment. -/
def ebbingAttempt : Attempt × Environment :=
  (unstarted (ebbing.terms 0 (.shutdown 0)) (.ofAddress "a" "h" ""), ebbing)

/-- In that environment the registration is over after nine steps: its lease is lost, and it is not
given back. -/
theorem registration_protocol_ebbing :
    ∃ said, Converses ebbingAttempt.1 ebbingAttempt.2 said (carryOn 9 ebbingAttempt).1
        (carryOn 9 ebbingAttempt).2 ∧
      Protocol ebbingAttempt.1.terms (.ofAddress "a" "h" "") said
        (some (.leaseLost "lease 1 expired (ttl 0)")) := by
  obtain ⟨_, said, hsaid⟩ := converses_carryOn 9 (x := ebbingAttempt) (.unstarted _)
  refine ⟨said, hsaid, ?_⟩
  have hover : (carryOn 9 ebbingAttempt).1.outcome? =
      some (some (.leaseLost "lease 1 expired (ttl 0)")) := by
    decide +kernel
  exact ((registration_protocol hsaid).2.1 _ (finished_of_outcome hover)).1

end Attempt
end ServiceDiscovery
