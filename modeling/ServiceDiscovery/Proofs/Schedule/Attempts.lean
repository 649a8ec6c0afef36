import ServiceDiscovery.Schedule.Attempt

/-!
# What a registration attempt can do

An attempt is a machine with few states: in each phase it waits for one request,
or for one of three things at once, and each outcome leads to one phase. Here the
machine is spelled out, and the attempt is shown to follow it.

Main results:

- Definition {lit}`Attempt.Turn`: every step that an attempt takes on its own.
- Theorem {lit}`turn_of_nextStage`: an attempt in order takes no other steps.
- Theorem {lit}`Turn.sameSetting`: no step touches time, the clock or a signal.
-/

namespace ServiceDiscovery

/-! ## What requests leave alone -/

/-- Environments that differ in the store, the registries, the log and the random bits at most. -/
structure Environment.SameSetting (env env' : Environment) : Prop where
  time : env'.time = env.time
  clock : env'.clock = env.clock
  reachable : env'.reachable = env.reachable
  renewalPeriod : env'.renewalPeriod = env.renewalPeriod
  delays : env'.delays = env.delays
  script : env'.script = env.script
  raised : env'.raised = env.raised

namespace Environment

variable {env env' env'' : Environment}

theorem SameSetting.refl (env : Environment) : env.SameSetting env :=
  ⟨rfl, rfl, rfl, rfl, rfl, rfl, rfl⟩

theorem SameSetting.trans (h : env.SameSetting env') (h' : env'.SameSetting env'') :
    env.SameSetting env'' :=
  ⟨h'.time.trans h.time, h'.clock.trans h.clock, h'.reachable.trans h.reachable,
    h'.renewalPeriod.trans h.renewalPeriod, h'.delays.trans h.delays, h'.script.trans h.script,
    h'.raised.trans h.raised⟩

/-- In the same setting the clock shows the same. -/
theorem SameSetting.now (h : env.SameSetting env') : env'.now = env.now := by
  rw [Environment.now, Environment.now, h.clock, h.time]

theorem sameSetting_say (env : Environment) (notes : List Note) :
    env.SameSetting (env.say notes) :=
  ⟨rfl, rfl, rfl, rfl, rfl, rfl, rfl⟩

theorem sameSetting_draw (env : Environment) : env.SameSetting env.draw.2 :=
  ⟨rfl, rfl, rfl, rfl, rfl, rfl, rfl⟩

/-- A request changes the store at most. -/
theorem sameSetting_ask {α : Type} (env : Environment) (request : Request)
    (run : MemoryStore → Except Failure α × MemoryStore) :
    env.SameSetting (env.ask request run).2 := by
  unfold ask
  split
  · exact ⟨rfl, rfl, rfl, rfl, rfl, rfl, rfl⟩
  · exact SameSetting.refl env

/-- A refresh that is confirmed changes a registry and the log at most. -/
theorem sameSetting_confirm (env : Environment) (client : Nat) (root : String)
    (entries : Entries) : env.SameSetting (env.confirm client root entries).2 :=
  ⟨rfl, rfl, rfl, rfl, rfl, rfl, rfl⟩

/-- Opening a stream of acknowledgements changes the store at most. -/
theorem sameSetting_keepAlive (env : Environment) (lease : LeaseId) :
    env.SameSetting (env.keepAlive lease).2 := by
  unfold keepAlive
  split
  · exact SameSetting.refl env
  · exact sameSetting_ask env (.keepAlive lease) fun s => s.renew env.now lease

/-- Taking an acknowledgement changes the store at most. -/
theorem sameSetting_of_takeAck {stream : AckStream} {taken : AckItem × AckStream}
    (h : env.takeAck stream = (taken, env')) : env.SameSetting env' := by
  obtain ⟨rfl, rfl⟩ := Prod.mk.inj h
  exact ⟨rfl, rfl, rfl, rfl, rfl, rfl, rfl⟩

end Environment

namespace Attempt

/-! ## Stages -/

/-- Waits for a lease. -/
abbrev Stage.granting (plan : Registration.Plan) (call : Call) : Stage :=
  .running ⟨plan, .granting, some (.grant plan.ttl, call), none⟩

/-- Waits until the description is published. -/
abbrev Stage.publishing (plan : Registration.Plan) (lease : LeaseId) (call : Call) : Stage :=
  .running ⟨plan, .publishing lease,
    some (.put plan.key (Text.utf8 plan.descriptor.toJson) lease, call), none⟩

/-- Waits for a stream of acknowledgements. -/
abbrev Stage.opening (plan : Registration.Plan) (lease : LeaseId) (call : Call) : Stage :=
  .running ⟨plan, .opening lease, some (.keepAlive lease, call), none⟩

/-- Is registered, and waits for whatever comes first. -/
abbrev Stage.held (plan : Registration.Plan) (lease : LeaseId) (hold : Hold) : Stage :=
  .running ⟨plan, .held lease, none, some hold⟩

/-- Is registered, and waits for the end of a scan. -/
abbrev Stage.refreshing (plan : Registration.Plan) (lease : LeaseId) (call : Call)
    (hold : Hold) : Stage :=
  .running ⟨plan, .refreshing lease, some (.scan (Key.rootPrefix plan.root), call), some hold⟩

/-- Waits until the lease is given back. -/
abbrev Stage.releasing (plan : Registration.Plan) (lease : LeaseId) (cause : Option Failure)
    (call : Call) (hold : Option Hold) : Stage :=
  .running ⟨plan, .releasing lease cause, some (.revoke lease, call), hold⟩

/-- An attempt in order: what it waits for fits its phase. -/
inductive Stage.InOrder : Stage → Prop where
  | unstarted (d : Descriptor) : InOrder (.unstarted d)
  | granting (plan : Registration.Plan) (call : Call) : InOrder (.granting plan call)
  | publishing (plan : Registration.Plan) (lease : LeaseId) (call : Call) :
      InOrder (.publishing plan lease call)
  | opening (plan : Registration.Plan) (lease : LeaseId) (call : Call) :
      InOrder (.opening plan lease call)
  | held (plan : Registration.Plan) (lease : LeaseId) (hold : Hold) :
      InOrder (.held plan lease hold)
  | refreshing (plan : Registration.Plan) (lease : LeaseId) (call : Call) (hold : Hold) :
      InOrder (.refreshing plan lease call hold)
  | releasing (plan : Registration.Plan) (lease : LeaseId) (cause : Option Failure) (call : Call)
      (hold : Option Hold) : InOrder (.releasing plan lease cause call hold)
  | finished (failure : Option Failure) : InOrder (.finished failure)

/-- An attempt in order has a next step until it is over, if it refreshes at all. -/
theorem dueAt_of_inOrder {a : Attempt} (horder : a.stage.InOrder)
    (hrefreshes : a.terms.refreshes = true) (hgoing : a.outcome? = none) :
    ∃ due, a.dueAt = some due := by
  unfold dueAt
  unfold outcome? at hgoing
  generalize a.stage = stage at horder hgoing ⊢
  cases horder with
  | unstarted d => exact ⟨0, rfl⟩
  | granting plan call | publishing plan lease call | opening plan lease call
  | refreshing plan lease call hold | releasing plan lease cause call hold =>
      exact ⟨call.endsAt, rfl⟩
  | held plan lease hold =>
      -- Acknowledgements may never come, but the ticker always does.
      simp only [hrefreshes, if_true]
      cases hold.acks.dueAt with
      | none => exact ⟨_, rfl⟩
      | some due => exact ⟨_, rfl⟩
  | finished failure => cases hgoing

/-! ## Turns -/

/-- A call for an operation that starts now. -/
def callFor (terms : Terms) (env : Environment) (op : Operation) : Call :=
  .started env.time (some (env.delays op)) terms.callTimeout

/-- What comes of a request whose call is over: its answer, or nothing but a failure when it has
taken too long. -/
def conclusion {α : Type} (terms : Terms) (call : Call) (op : Operation) (env : Environment)
    (answer : Except Failure α × Environment) : Except Failure α × Environment :=
  if call.isAnswered then answer else (.error (Call.timedOut op.label terms.callTimeout), env)

/-- A scan of the root under which an attempt looks for others, whose findings are confirmed. -/
def survey (terms : Terms) (plan : Registration.Plan) (env : Environment) :
    Except Failure Unit × Environment :=
  match env.scan (Key.rootPrefix plan.root) with
  | (.error failure, env) => (.error failure, env)
  | (.ok entries, env) => (.ok (), (env.confirm terms.client terms.root entries).2)

/-- The steps that an attempt takes on its own: the stages before and after, and the environment
after. -/
inductive Turn (a : Attempt) (env : Environment) : Stage → Stage → Environment → Prop where
  | refused {d : Descriptor} {failure : Failure}
      (hplan : Registration.Plan.make env.localAddress env.now (.random env.bits) a.terms.root
        a.terms.leaseTtl d = .error failure) :
      Turn a env (.unstarted d) (.finished (some failure)) env.draw.2
  | stopped {d : Descriptor} {plan : Registration.Plan} (notes : List Note)
      (hplan : Registration.Plan.make env.localAddress env.now (.random env.bits) a.terms.root
        a.terms.leaseTtl d = .ok plan)
      (hcancel : a.isCancelled env = true) :
      Turn a env (.unstarted d) (.finished none) (env.draw.2.say notes)
  | begun {d : Descriptor} {plan : Registration.Plan}
      (hplan : Registration.Plan.make env.localAddress env.now (.random env.bits) a.terms.root
        a.terms.leaseTtl d = .ok plan)
      (hcancel : a.isCancelled env = false) :
      Turn a env (.unstarted d) (.granting plan (callFor a.terms env .grant))
        (env.draw.2.say [])
  | ungranted {plan : Registration.Plan} {call : Call} {failure : Failure} {env' : Environment}
      (notes : List Note) (hover : call.endsAt ≤ env.time)
      (hresult : conclusion a.terms call .grant env (env.grant plan.ttl) = (.error failure, env')) :
      Turn a env (.granting plan call) (.finished (some failure)) (env'.say notes)
  | granted {plan : Registration.Plan} {call : Call} {lease : LeaseId} {env' : Environment}
      (notes : List Note) (hover : call.endsAt ≤ env.time)
      (hresult : conclusion a.terms call .grant env (env.grant plan.ttl) = (.ok lease, env')) :
      Turn a env (.granting plan call) (.publishing plan lease (callFor a.terms env .put))
        (env'.say notes)
  | unpublished {plan : Registration.Plan} {lease : LeaseId} {call : Call} {failure : Failure}
      {env' : Environment} (notes : List Note) (hover : call.endsAt ≤ env.time)
      (hresult : conclusion a.terms call .put env
        (env.put plan.key (Text.utf8 plan.descriptor.toJson) lease) = (.error failure, env')) :
      Turn a env (.publishing plan lease call)
        (.releasing plan lease (some failure) (callFor a.terms env .revoke) none) (env'.say notes)
  | published {plan : Registration.Plan} {lease : LeaseId} {call : Call}
      {env' : Environment} (notes : List Note) (hover : call.endsAt ≤ env.time)
      (hresult : conclusion a.terms call .put env
        (env.put plan.key (Text.utf8 plan.descriptor.toJson) lease) = (.ok (), env')) :
      Turn a env (.publishing plan lease call)
        (.opening plan lease (callFor a.terms env .keepAlive)) (env'.say notes)
  | unopened {plan : Registration.Plan} {lease : LeaseId} {call : Call} {failure : Failure}
      {env' : Environment} (notes : List Note) (hover : call.endsAt ≤ env.time)
      (hresult : conclusion a.terms call .keepAlive env (env.keepAlive lease) =
        (.error failure, env')) :
      Turn a env (.opening plan lease call)
        (.releasing plan lease (some failure) (callFor a.terms env .revoke) none) (env'.say notes)
  | opened {plan : Registration.Plan} {lease : LeaseId} {call : Call} {acks : AckStream}
      {env' : Environment} (notes : List Note) (hover : call.endsAt ≤ env.time)
      (hresult : conclusion a.terms call .keepAlive env (env.keepAlive lease) = (.ok acks, env')) :
      Turn a env (.opening plan lease call)
        (.held plan lease (Attempt.held a.terms env.time acks)) (env'.say notes)
  | cancelled {plan : Registration.Plan} {lease : LeaseId} {hold : Hold} (notes : List Note)
      (hcancel : a.isCancelled env = true) :
      Turn a env (.held plan lease hold)
        (.releasing plan lease none (callFor a.terms env .revoke) (some hold)) (env.say notes)
  | renewed {plan : Registration.Plan} {lease : LeaseId} {hold : Hold} {ack : LeaseAck}
      {acks : AckStream} {env' : Environment} (notes : List Note)
      (hdue : hold.acks.isDue env.time = true)
      (htake : env.takeAck hold.acks = ((.renewed ack, acks), env')) (httl : 0 < ack.ttl) :
      Turn a env (.held plan lease hold) (.held plan lease { hold with acks }) (env'.say notes)
  | lost {plan : Registration.Plan} {lease : LeaseId} {hold : Hold} {item : AckItem}
      {acks : AckStream} {env' : Environment} (reason : String) (notes : List Note)
      (hdue : hold.acks.isDue env.time = true)
      (htake : env.takeAck hold.acks = ((item, acks), env'))
      (hitem : ∀ ack, item = .renewed ack → ¬ 0 < ack.ttl) :
      Turn a env (.held plan lease hold) (.finished (some (.leaseLost reason))) (env'.say notes)
  | ticked {plan : Registration.Plan} {lease : LeaseId} {hold : Hold} (notes : List Note)
      (hacks : hold.acks.isDue env.time = false) (hdue : hold.ticker.dueAt ≤ env.time) :
      Turn a env (.held plan lease hold)
        (.refreshing plan lease (callFor a.terms env .get)
          { hold with ticker := hold.ticker.take env.time }) (env.say notes)
  | refreshed {plan : Registration.Plan} {lease : LeaseId} {call : Call} {hold : Hold}
      {env' : Environment} (notes : List Note) (hover : call.endsAt ≤ env.time)
      (hresult : env' = (conclusion a.terms call .get env (survey a.terms plan env)).2) :
      Turn a env (.refreshing plan lease call hold) (.held plan lease hold) (env'.say notes)
  | released {plan : Registration.Plan} {lease : LeaseId} {cause : Option Failure} {call : Call}
      {hold : Option Hold} {env' : Environment} (notes : List Note)
      (hover : call.endsAt ≤ env.time)
      (hresult : env' = (conclusion a.terms call .revoke env (env.revoke lease)).2) :
      Turn a env (.releasing plan lease cause call hold) (.finished cause) (env'.say notes)

/-- A scan whose findings are confirmed changes the store, a registry and the log at most. -/
theorem sameSetting_survey (terms : Terms) (plan : Registration.Plan) (env : Environment) :
    env.SameSetting (survey terms plan env).2 := by
  have hscan : env.SameSetting (env.scan (Key.rootPrefix plan.root)).2 :=
    Environment.sameSetting_ask env _ _
  unfold survey
  split
  · rename_i heq
    rw [heq] at hscan
    exact hscan
  · rename_i heq
    rw [heq] at hscan
    exact hscan.trans (Environment.sameSetting_confirm _ _ _ _)

/-- A call that is given up changes nothing, and one that is answered what its answer changes. -/
theorem sameSetting_of_conclusion {α : Type} {terms : Terms} {call : Call} {op : Operation}
    {env : Environment} {answer result : Except Failure α × Environment}
    (h : env.SameSetting answer.2) (hresult : conclusion terms call op env answer = result) :
    env.SameSetting result.2 := by
  rw [← hresult]
  unfold conclusion
  split
  · exact h
  · exact Environment.SameSetting.refl env

section

variable {α : Type} {terms : Terms} {call : Call} {op : Operation} {env env' : Environment}
  {answer : Except Failure α × Environment} {x : α} {failure : Failure}

/-- What comes of a call that is answered in time is its answer. -/
theorem conclusion_of_answered (h : call.isAnswered = true) :
    conclusion terms call op env answer = answer :=
  if_pos h

/-- A request succeeds only with its own answer. -/
theorem answer_of_conclusion (h : conclusion terms call op env answer = (.ok x, env')) :
    answer = (.ok x, env') := by
  unfold conclusion at h
  split at h
  · exact h
  · cases (Prod.mk.inj h).1

/-- A request that the store would grant fails only when it is given up. -/
theorem failure_of_conclusion (hanswer : answer.1 = .ok x)
    (h : conclusion terms call op env answer = (.error failure, env')) :
    failure = Call.timedOut op.label terms.callTimeout := by
  unfold conclusion at h
  split at h
  · rw [h] at hanswer
    cases hanswer
  · exact (Except.error.inj (Prod.mk.inj h).1).symm

end

/-- In the same setting calls take as long. -/
theorem callFor_of_sameSetting {env env' : Environment} (h : env.SameSetting env')
    (terms : Terms) (op : Operation) : callFor terms env' op = callFor terms env op := by
  rw [callFor, callFor, h.time, h.delays]

/-- No step of an attempt touches time, the clock or a signal. -/
theorem Turn.sameSetting {a : Attempt} {env env' : Environment} {stage stage' : Stage}
    (h : Turn a env stage stage' env') : env.SameSetting env' := by
  have hconclude {α : Type} {call : Call} {op : Operation} {answer result : _ × Environment}
      (hanswer : env.SameSetting answer.2)
      (hresult : conclusion (α := α) a.terms call op env answer = result) (notes : List Note) :
      env.SameSetting (result.2.say notes) := by
    exact (sameSetting_of_conclusion hanswer hresult).trans (Environment.sameSetting_say _ _)
  cases h with
  | refused => exact Environment.sameSetting_draw env
  | stopped notes =>
      exact (Environment.sameSetting_draw env).trans (Environment.sameSetting_say _ _)
  | begun => exact (Environment.sameSetting_draw env).trans (Environment.sameSetting_say _ _)
  | ungranted notes hover hresult =>
      exact hconclude (Environment.sameSetting_ask env _ _) hresult notes
  | granted notes hover hresult =>
      exact hconclude (Environment.sameSetting_ask env _ _) hresult notes
  | unpublished notes hover hresult =>
      exact hconclude (Environment.sameSetting_ask env _ _) hresult notes
  | published notes hover hresult =>
      exact hconclude (Environment.sameSetting_ask env _ _) hresult notes
  | unopened notes hover hresult =>
      exact hconclude (Environment.sameSetting_keepAlive env _) hresult notes
  | opened notes hover hresult =>
      exact hconclude (Environment.sameSetting_keepAlive env _) hresult notes
  | cancelled notes => exact Environment.sameSetting_say env notes
  | renewed notes hdue htake httl =>
      exact (Environment.sameSetting_of_takeAck htake).trans (Environment.sameSetting_say _ _)
  | lost reason notes hdue htake hitem =>
      exact (Environment.sameSetting_of_takeAck htake).trans (Environment.sameSetting_say _ _)
  | ticked notes => exact Environment.sameSetting_say env notes
  | refreshed notes hover hresult =>
      exact hresult ▸ hconclude (sameSetting_survey a.terms _ env) rfl notes
  | released notes hover hresult =>
      exact hresult ▸ hconclude (Environment.sameSetting_ask env _ _) rfl notes

/-- Every turn leads to a stage in order. -/
theorem Turn.inOrder {a : Attempt} {env env' : Environment} {stage stage' : Stage}
    (h : Turn a env stage stage' env') : stage'.InOrder := by
  cases h <;> constructor

/-! ## The attempt follows the machine -/

/-- How an attempt begins depends on its plan: it is over if there is none. -/
theorem start_eq (a : Attempt) (d : Descriptor) (env : Environment) :
    a.start d env =
      match Registration.Plan.make env.localAddress env.now (.random env.bits) a.terms.root
        a.terms.leaseTtl d with
      | .error failure => (.finished (some failure), env.draw.2)
      | .ok plan =>
        follow a.terms plan none (Registration.begin plan (a.isCancelled env)) env.draw.2 :=
  rfl

/-- The beginning of an attempt is a turn. -/
theorem turn_of_start (a : Attempt) (d : Descriptor) (env : Environment) :
    Turn a env (.unstarted d) (a.start d env).1 (a.start d env).2 := by
  rw [start_eq]
  cases hplan : Registration.Plan.make env.localAddress env.now (.random env.bits) a.terms.root
      a.terms.leaseTtl d with
  | error failure => exact Turn.refused hplan
  | ok plan =>
      cases hcancel : a.isCancelled env with
      | true => exact Turn.stopped _ hplan hcancel
      | false => exact Turn.begun hplan hcancel

section Conclusions

variable (terms : Terms) (plan : Registration.Plan) (lease : LeaseId) (cause : Option Failure)
  (call : Call) (hold : Option Hold) (env : Environment)

/-- The reaction to the end of a request, in terms of what came of it. -/
theorem conclude_granting (pending : Option (Request × Call)) :
    conclude terms ⟨plan, .granting, pending, hold⟩ (.grant plan.ttl) call env =
      let result := conclusion terms call .grant env (env.grant plan.ttl)
      follow terms plan hold (Registration.onGranted plan result.1) result.2 := by
  unfold conclude conclusion
  split <;> rfl

/-- When the write is over, a stream of acknowledgements is asked for, or the lease is given
back. -/
theorem conclude_publishing (pending : Option (Request × Call)) (key : String) (value : Bytes) :
    conclude terms ⟨plan, .publishing lease, pending, hold⟩ (.put key value lease) call env =
      let result := conclusion terms call .put env (env.put key value lease)
      follow terms plan hold (Registration.onPublished plan lease result.1) result.2 := by
  unfold conclude conclusion
  split <;> rfl

/-- When the request for a stream is over, the registration is held, or the lease is given back. -/
theorem conclude_opening (pending : Option (Request × Call)) :
    conclude terms ⟨plan, .opening lease, pending, none⟩ (.keepAlive lease) call env =
      match conclusion terms call .keepAlive env (env.keepAlive lease) with
      | (.error failure, env') =>
        follow terms plan none (Registration.onOpened plan lease (.error failure)) env'
      | (.ok acks, env') =>
        follow terms plan (some (held terms env'.time acks))
          (Registration.onOpened plan lease (.ok ())) env' := by
  unfold conclude conclusion carryOut
  rcases hanswer : env.keepAlive lease with ⟨failure | acks, env'⟩
  · simp only [hanswer]
    split <;> rfl
  · simp only [hanswer]
    split <;> rfl

/-- When a scan is over, the registration is held on, whatever came of the scan. -/
theorem conclude_refreshing (pending : Option (Request × Call)) :
    conclude terms ⟨plan, .refreshing lease, pending, hold⟩
        (.scan (Key.rootPrefix plan.root)) call env =
      let result := conclusion terms call .get env (survey terms plan env)
      follow terms plan hold (Registration.onRefreshed plan lease result.1) result.2 := by
  unfold conclude conclusion carryOut survey
  rcases hanswer : env.scan (Key.rootPrefix plan.root) with ⟨failure | entries, env'⟩
  · simp only [hanswer]
    split <;> rfl
  · simp only [hanswer]
    split <;> rfl

/-- When the lease is given back, or that has failed, the attempt is over. -/
theorem conclude_releasing (pending : Option (Request × Call)) :
    conclude terms ⟨plan, .releasing lease cause, pending, hold⟩ (.revoke lease) call env =
      let result := conclusion terms call .revoke env (env.revoke lease)
      follow terms plan hold (Registration.onReleased plan lease cause result.1) result.2 := by
  unfold conclude conclusion
  split <;> rfl

end Conclusions

/-- The end of a request under way. -/
theorem turn_of_conclude {a : Attempt} {env : Environment} {p : Progress} {request : Request}
    {call : Call} (horder : (Stage.running p).InOrder) (hpending : p.pending = some (request, call))
    (hover : call.endsAt ≤ env.time) :
    Turn a env (.running p) (conclude a.terms p request call env).1
      (conclude a.terms p request call env).2 := by
  cases horder with
  | granting plan call' =>
      obtain ⟨rfl, rfl⟩ := Prod.mk.inj (Option.some.inj hpending)
      rw [conclude_granting]
      rcases hresult : conclusion a.terms call' .grant env (env.grant plan.ttl) with
        ⟨failure | lease, env'⟩
      · exact Turn.ungranted _ hover hresult
      · have hsame := sameSetting_of_conclusion (Environment.sameSetting_ask env _ _) hresult
        have hturn := Turn.granted
          (Registration.onGranted plan (.ok lease)).notes hover hresult
        rw [← callFor_of_sameSetting hsame] at hturn
        exact hturn
  | publishing plan lease call' =>
      obtain ⟨rfl, rfl⟩ := Prod.mk.inj (Option.some.inj hpending)
      rw [conclude_publishing]
      rcases hresult : conclusion a.terms call' .put env
        (env.put plan.key (Text.utf8 plan.descriptor.toJson) lease) with ⟨failure | ⟨⟩, env'⟩
      · have hsame := sameSetting_of_conclusion (Environment.sameSetting_ask env _ _) hresult
        have hturn := Turn.unpublished
          (Registration.onPublished plan lease (.error failure)).notes hover hresult
        rw [← callFor_of_sameSetting hsame] at hturn
        exact hturn
      · have hsame := sameSetting_of_conclusion (Environment.sameSetting_ask env _ _) hresult
        have hturn := Turn.published
          (Registration.onPublished plan lease (.ok ())).notes hover hresult
        rw [← callFor_of_sameSetting hsame] at hturn
        exact hturn
  | opening plan lease call' =>
      obtain ⟨rfl, rfl⟩ := Prod.mk.inj (Option.some.inj hpending)
      rw [conclude_opening]
      rcases hresult : conclusion a.terms call' .keepAlive env (env.keepAlive lease) with
        ⟨failure | acks, env'⟩
      · have hsame := sameSetting_of_conclusion (Environment.sameSetting_keepAlive env _) hresult
        have hturn : Turn a env (.opening plan lease call') _ _ := Turn.unopened
          (Registration.onOpened plan lease (.error failure)).notes hover hresult
        rw [← callFor_of_sameSetting hsame] at hturn
        exact hturn
      · have hsame := sameSetting_of_conclusion (Environment.sameSetting_keepAlive env _) hresult
        have hturn : Turn a env (.opening plan lease call') _ _ := Turn.opened
          (Registration.onOpened plan lease (.ok ())).notes hover hresult
        rw [← hsame.time] at hturn
        exact hturn
  | held plan lease hold => cases hpending
  | refreshing plan lease call' hold =>
      obtain ⟨rfl, rfl⟩ := Prod.mk.inj (Option.some.inj hpending)
      rw [conclude_refreshing]
      rcases hresult : conclusion a.terms call' .get env (survey a.terms plan env) with
        ⟨failure | ⟨⟩, env'⟩
      · exact Turn.refreshed _ hover (congrArg Prod.snd hresult).symm
      · exact Turn.refreshed _ hover (congrArg Prod.snd hresult).symm
  | releasing plan lease cause call' hold =>
      obtain ⟨rfl, rfl⟩ := Prod.mk.inj (Option.some.inj hpending)
      rw [conclude_releasing]
      cases cause with
      | none => exact Turn.released _ hover rfl
      | some failure => exact Turn.released _ hover rfl

/-- A registration that is held attends to a signal first, then to an acknowledgement, and to a
refresh last. -/
theorem turn_of_attend {a : Attempt} {env env' : Environment} {plan : Registration.Plan}
    {lease : LeaseId} {hold : Hold} {stage : Stage}
    (h : a.attend ⟨plan, .held lease, none, some hold⟩ hold env = some (stage, env')) :
    Turn a env (.held plan lease hold) stage env' := by
  unfold attend at h
  by_cases hcancel : a.isCancelled env = true
  · rw [if_pos hcancel] at h
    obtain ⟨rfl, rfl⟩ := Prod.mk.inj (Option.some.inj h)
    exact Turn.cancelled _ hcancel
  · rw [if_neg hcancel] at h
    by_cases hdue : hold.acks.isDue env.time = true
    · rw [if_pos hdue] at h
      rcases htake : env.takeAck hold.acks with ⟨⟨item, acks⟩, env''⟩
      rw [htake] at h
      obtain ⟨rfl, rfl⟩ := Prod.mk.inj (Option.some.inj h)
      cases item with
      | renewed ack =>
          by_cases httl : 0 < ack.ttl
          · simp only [Registration.react, Registration.onItem, if_pos httl]
            exact Turn.renewed _ hdue htake httl
          · simp only [Registration.react, Registration.onItem, if_neg httl]
            refine Turn.lost _ _ hdue htake ?_
            rintro ack' ⟨⟩
            exact httl
      | failed failure => exact Turn.lost _ _ hdue htake nofun
      | closed => exact Turn.lost _ _ hdue htake nofun
    · rw [if_neg hdue] at h
      split at h
      · rename_i htick
        obtain ⟨rfl, rfl⟩ := Prod.mk.inj (Option.some.inj h)
        rw [Bool.and_eq_true, decide_eq_true_eq] at htick
        exact Turn.ticked _ (by simpa using hdue) htick.2
      · cases h

/-- An attempt in order follows the machine. -/
theorem turn_of_nextStage {a : Attempt} {env env' : Environment} {stage : Stage}
    (horder : a.stage.InOrder) (h : a.nextStage env = some (stage, env')) :
    Turn a env a.stage stage env' := by
  have hpending {p : Progress} {request : Request} {call : Call}
      (hp : (Stage.running p).InOrder) (heq : p.pending = some (request, call))
      (h : (if call.endsAt ≤ env.time then some (conclude a.terms p request call env) else none) =
        some (stage, env')) : Turn a env (.running p) stage env' := by
    split at h
    · rename_i hover
      have hturn : Turn a env (.running p) _ _ := turn_of_conclude hp heq hover
      rw [Option.some.inj h] at hturn
      exact hturn
    · cases h
  unfold nextStage at h
  generalize a.stage = current at h horder ⊢
  cases horder with
  | unstarted d =>
      have hturn := turn_of_start a d env
      rw [Option.some.inj h] at hturn
      exact hturn
  | granting plan call => exact hpending (.granting plan call) rfl h
  | publishing plan lease call => exact hpending (.publishing plan lease call) rfl h
  | opening plan lease call => exact hpending (.opening plan lease call) rfl h
  | held plan lease hold => exact turn_of_attend h
  | refreshing plan lease call hold => exact hpending (.refreshing plan lease call hold) rfl h
  | releasing plan lease cause call hold =>
      exact hpending (.releasing plan lease cause call hold) rfl h
  | finished failure => cases h

end Attempt
end ServiceDiscovery
