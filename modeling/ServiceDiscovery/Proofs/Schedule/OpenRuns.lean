import ServiceDiscovery.Proofs.Schedule.Attempts
import ServiceDiscovery.Proofs.Store.Leases

/-!
# Tasks among others

One task in an environment that others share. In between its own moves others may
do whatever they are allowed to, and time passes while it waits.

Main results:

- Definition {lit}`Meddling`: what others can do.
- Definition {lit}`OpenStep`: one step of a task among others.
- Theorem {lit}`OpenStep.wait`: waiting leads to a move.
- Theorem {lit}`Attempt.moves_cases`: the moves of an attempt, as turns.
- Theorem {lit}`Attempt.progress`: an attempt never gets stuck before it is over.
- Theorem {lit}`Attempt.Turn.store_cases`: a turn gives the store one command at
  most, which depends on the stage.
-/

namespace ServiceDiscovery

/-! ## Others -/

/-- Something that others do. -/
inductive Meddling where
  | command (c : MemoryStore.Command)
  | turn (clock : Clock)
  | slow (delays : Operation → Nat)
  | script (items : Option (List ScriptedAck))
  | pace (period : Option Duration)
  | signal (s : Signal)
  /-- Something that is of no concern to leases. -/
  | elsewhere (clients : List Client) (localAddress : String) (bits : Nat)
      (journal : List LogEntry)

/-- The environment after others have done something. -/
def Meddling.act (m : Meddling) (env : Environment) : Environment :=
  match m with
  | .command c => { env with store := (c.run env.now env.store).2 }
  | .turn clock => { env with clock }
  | .slow delays => { env with delays }
  | .script items => { env with script := items }
  | .pace period => { env with renewalPeriod := period }
  | .signal s => env.raise s
  | .elsewhere clients localAddress bits journal =>
    { env with clients, localAddress, bits, journal }

/-- One step of a task with some moves among others: a move, the passing of time while it has
none, or whatever others may do. -/
inductive OpenStep {τ : Type} (moves : τ → Environment → List (τ × Environment))
    (dueAt : τ → Option Nat) (others : Environment → Environment → Prop) :
    τ → Environment → τ → Environment → Prop where
  | move {t t' : τ} {env env' : Environment} (h : (t', env') ∈ moves t env) :
      OpenStep moves dueAt others t env t' env'
  | pass {t : τ} {env : Environment} (time : Nat) (idle : moves t env = [])
      (later : env.time ≤ time) (awake : ∀ due, dueAt t = some due → time ≤ due) :
      OpenStep moves dueAt others t env t { env with time }
  | meddle {t : τ} {env env' : Environment} (h : others env env') :
      OpenStep moves dueAt others t env t env'

/-- What is a step among some others is one among others who may do more. -/
theorem OpenStep.mono {τ : Type} {moves : τ → Environment → List (τ × Environment)}
    {dueAt : τ → Option Nat} {others others' : Environment → Environment → Prop} {t t' : τ}
    {env env' : Environment} (h : OpenStep moves dueAt others t env t' env')
    (hothers : ∀ e e', others e e' → others' e e') :
    OpenStep moves dueAt others' t env t' env' := by
  cases h with
  | move hmove => exact .move hmove
  | pass time idle later awake => exact .pass time idle later awake
  | meddle hmeddle => exact .meddle (hothers _ _ hmeddle)

/-- Waiting leads to a move. If a task without a move always has its next step ahead of it, then time
may pass up to that moment, and the task has a move there. -/
theorem OpenStep.wait {τ : Type} {moves : τ → Environment → List (τ × Environment)}
    {dueAt : τ → Option Nat} {others : Environment → Environment → Prop} {t : τ}
    {env : Environment} {due : Nat}
    (hahead : ∀ env : Environment, moves t env = [] → dueAt t = some due → env.time < due)
    (hidle : moves t env = []) (hdue : dueAt t = some due) :
    OpenStep moves dueAt others t env t { env with time := due } ∧
      moves t { env with time := due } ≠ [] := by
  constructor
  · refine .pass due hidle (Nat.le_of_lt (hahead env hidle hdue)) ?_
    intro due' hdue'
    exact Nat.le_of_eq (Option.some.inj (hdue.symm.trans hdue'))
  · intro hstuck
    exact Nat.lt_irrefl due (hahead _ hstuck hdue)

/-- The first move of a task, if it has one; otherwise time passes until its next step is due. -/
def proceed {τ : Type} (moves : τ → Environment → List (τ × Environment))
    (dueAt : τ → Option Nat) (t : τ) (env : Environment) : τ × Environment :=
  match moves t env, dueAt t with
  | next :: _, _ => next
  | [], some due => if env.time ≤ due then (t, { env with time := due }) else (t, env)
  | [], none => (t, env)

/-- Proceeding is a step, unless there is nothing to wait for. -/
theorem openStep_proceed {τ : Type} (moves : τ → Environment → List (τ × Environment))
    (dueAt : τ → Option Nat) (others : Environment → Environment → Prop) (t : τ)
    (env : Environment) :
    proceed moves dueAt t env = (t, env) ∨
      OpenStep moves dueAt others t env (proceed moves dueAt t env).1
        (proceed moves dueAt t env).2 := by
  unfold proceed
  split
  · rename_i next rest hmoves
    right
    exact .move (by rw [hmoves]; exact List.mem_cons_self)
  · rename_i due hmoves hdue
    split
    · rename_i hle
      right
      refine .pass due hmoves hle ?_
      intro due' hdue'
      rw [hdue] at hdue'
      exact Nat.le_of_eq (Option.some.inj hdue')
    · exact Or.inl rfl
  · exact Or.inl rfl

/-! ## Moves of an attempt -/

namespace Attempt

/-- The outcome of an attempt tells that it is over. -/
theorem finished_of_outcome {a : Attempt} {failure : Option Failure}
    (h : a.outcome? = some failure) : a.stage = .finished failure := by
  unfold outcome? at h
  split at h
  · rename_i failure' hstage
    rw [hstage, Option.some.inj h]
  · cases h

/-- A signal is passed on when it was given. -/
theorem relay_cases {a b : Attempt} {env : Environment} (h : a.relay env = some b) :
    b = { a with passedOn := true } ∧ ∃ s, a.terms.relayed = some s ∧ env.isRaised s = true := by
  unfold relay at h
  split at h
  · rename_i s hs
    split at h
    · rename_i hraised
      simp only [Bool.and_eq_true] at hraised
      exact ⟨(Option.some.inj h).symm, s, hs, hraised.1.1⟩
    · cases h
  · cases h

/-- A move passes a signal on, or goes on to the next stage. -/
theorem relays_or_advances {a b : Attempt} {env env' : Environment}
    (h : (b, env') ∈ a.moves env) :
    (b = { a with passedOn := true } ∧ env' = env ∧
        ∃ s, a.terms.relayed = some s ∧ env.isRaised s = true) ∨
      ∃ stage, a.nextStage env = some (stage, env') ∧ b = { a with stage } := by
  rcases (List.mem_append.mp h).symm with h | h
  · left
    obtain ⟨b', hb', heq⟩ := Option.map_eq_some_iff.mp (Option.mem_toList.mp h)
    obtain ⟨rfl, rfl⟩ := Prod.mk.inj heq
    obtain ⟨hb, hraised⟩ := relay_cases hb'
    exact ⟨hb, rfl, hraised⟩
  · right
    obtain ⟨⟨stage, env''⟩, hnext, heq⟩ := Option.map_eq_some_iff.mp (Option.mem_toList.mp h)
    obtain ⟨rfl, rfl⟩ := Prod.mk.inj heq
    exact ⟨stage, hnext, rfl⟩

/-- A move passes a signal on, or it is a turn. -/
theorem moves_cases {a b : Attempt} {env env' : Environment} (horder : a.stage.InOrder)
    (h : (b, env') ∈ a.moves env) :
    (b = { a with passedOn := true } ∧ env' = env ∧
        ∃ s, a.terms.relayed = some s ∧ env.isRaised s = true) ∨
      ∃ stage, Turn a env a.stage stage env' ∧ b = { a with stage } := by
  rcases relays_or_advances h with hrelayed | ⟨stage, hnext, hb⟩
  · exact Or.inl hrelayed
  · exact Or.inr ⟨stage, turn_of_nextStage horder hnext, hb⟩

/-- A move keeps an attempt in order, and takes no time. -/
theorem inOrder_of_move {a b : Attempt} {env env' : Environment} (horder : a.stage.InOrder)
    (h : (b, env') ∈ a.moves env) : b.stage.InOrder ∧ env.SameSetting env' := by
  rcases moves_cases horder h with ⟨rfl, rfl, _⟩ | ⟨stage, hturn, rfl⟩
  · exact ⟨horder, Environment.SameSetting.refl _⟩
  · exact ⟨hturn.inOrder, hturn.sameSetting⟩

/-- An attempt never gets stuck: until it is over it has a move, or time can pass up to a moment at
which it has one. -/
theorem progress {a : Attempt} {env : Environment} (others : Environment → Environment → Prop)
    (horder : a.stage.InOrder) (hrefreshes : a.terms.refreshes = true)
    (hgoing : a.outcome? = none) :
    a.moves env ≠ [] ∨ ∃ due, OpenStep moves dueAt others a env a { env with time := due } ∧
      a.moves { env with time := due } ≠ [] := by
  by_cases hidle : a.moves env = []
  · obtain ⟨due, hdue⟩ := dueAt_of_inOrder horder hrefreshes hgoing
    exact Or.inr ⟨due, OpenStep.wait (fun _ => time_lt_of_idle) hidle hdue⟩
  · exact Or.inl hidle

/-! ## What a turn does to the store -/

/-- The commands that an attempt may give at a stage. -/
inductive Stage.Commands : Stage → MemoryStore.Command → Prop where
  | granting (plan : Registration.Plan) (call : Call) :
      Commands (.granting plan call) (.grant plan.ttl)
  | publishing (plan : Registration.Plan) (lease : LeaseId) (call : Call) :
      Commands (.publishing plan lease call)
        (.putLeased plan.key (Text.utf8 plan.descriptor.toJson) lease)
  | opening (plan : Registration.Plan) (lease : LeaseId) (call : Call) :
      Commands (.opening plan lease call) (.renew lease)
  | held (plan : Registration.Plan) (lease : LeaseId) {hold : Hold} {other : LeaseId}
      {ticker : Ticker} (hacks : hold.acks = .renewing other ticker) :
      Commands (.held plan lease hold) (.renew other)
  | refreshing (plan : Registration.Plan) (lease : LeaseId) (call : Call) (hold : Hold) :
      Commands (.refreshing plan lease call hold) (.scan (Key.rootPrefix plan.root))
  | releasing (plan : Registration.Plan) (lease : LeaseId) (cause : Option Failure) (call : Call)
      (hold : Option Hold) : Commands (.releasing plan lease cause call hold) (.revoke lease)

/-- An attempt makes nothing fail. -/
theorem Stage.Commands.no_fault {stage : Stage} {c : MemoryStore.Command} (h : stage.Commands c)
    (op : Operation) : c ≠ .injectFault op := by
  cases h <;> exact nofun

/-- Nor does it end a fault. -/
theorem Stage.Commands.no_clear {stage : Stage} {c : MemoryStore.Command} (h : stage.Commands c) :
    c ≠ .clearFaults := by
  cases h <;> exact nofun

end Attempt

namespace Environment

variable {env : Environment}

theorem ask_of_reachable (h : env.reachable = true) {α : Type} (request : Request)
    (run : MemoryStore → Except Failure α × MemoryStore) :
    env.ask request run = ((run env.store).1, { env with store := (run env.store).2 }) := by
  rw [ask, if_pos h]

theorem store_ask {α : Type} (request : Request)
    (run : MemoryStore → Except Failure α × MemoryStore) :
    (env.ask request run).2.store = env.store ∨
      (env.ask request run).2.store = (run env.store).2 := by
  unfold ask
  split
  · exact Or.inr rfl
  · exact Or.inl rfl

theorem store_keepAlive (lease : LeaseId) :
    (env.keepAlive lease).2.store = env.store ∨
      (env.keepAlive lease).2.store = (env.store.renew env.now lease).2 := by
  unfold keepAlive
  split
  · exact Or.inl rfl
  · exact store_ask (.keepAlive lease) fun s => s.renew env.now lease

theorem store_takeAck (stream : AckStream) :
    (env.takeAck stream).2.store = env.store ∨
      ∃ lease ticker, stream = .renewing lease ticker ∧
        (env.takeAck stream).2.store = (env.store.renew env.now lease).2 := by
  cases stream with
  | renewing lease ticker => exact Or.inr ⟨lease, ticker, rfl, rfl⟩
  | scripted lease since items =>
      left
      cases items with
      | nil => rfl
      | cons item items =>
          unfold takeAck AckStream.take
          rcases item with ⟨after, _ | _ | _⟩ <;> rfl
  | finished => exact Or.inl rfl

end Environment

namespace Attempt

theorem store_survey (terms : Terms) (plan : Registration.Plan) (env : Environment) :
    (survey terms plan env).2.store = (env.scan (Key.rootPrefix plan.root)).2.store := by
  unfold survey
  split
  · rename_i heq
    rw [heq]
  · rename_i heq
    rw [heq]
    rfl

theorem store_conclusion {α : Type} {terms : Terms} {call : Call} {op : Operation}
    {env : Environment} {answer result : Except Failure α × Environment} {s : MemoryStore}
    (h : answer.2.store = env.store ∨ answer.2.store = s)
    (hresult : conclusion terms call op env answer = result) :
    result.2.store = env.store ∨ result.2.store = s := by
  rw [← hresult]
  unfold conclusion
  split
  · exact h
  · exact Or.inl rfl

/-- A turn leaves the store alone, or gives it the command that belongs to the stage. -/
theorem Turn.store_cases {a : Attempt} {env env' : Environment} {stage stage' : Stage}
    (h : Turn a env stage stage' env') :
    env'.store = env.store ∨
      ∃ c, stage.Commands c ∧ env'.store = (c.run env.now env.store).2 := by
  have hgive {c : MemoryStore.Command} (hc : stage.Commands c)
      (hstore : env'.store = env.store ∨ env'.store = (c.run env.now env.store).2) :
      env'.store = env.store ∨
        ∃ c, stage.Commands c ∧ env'.store = (c.run env.now env.store).2 :=
    hstore.imp_right fun heq => ⟨c, hc, heq⟩
  cases h with
  | refused | stopped | begun | cancelled | ticked => exact Or.inl rfl
  | ungranted notes hover hresult =>
      exact hgive (.granting _ _) (store_conclusion (Environment.store_ask _ _) hresult)
  | granted notes hover hresult =>
      exact hgive (.granting _ _) (store_conclusion (Environment.store_ask _ _) hresult)
  | unpublished notes hover hresult =>
      exact hgive (.publishing _ _ _) (store_conclusion (Environment.store_ask _ _) hresult)
  | published notes hover hresult =>
      exact hgive (.publishing _ _ _) (store_conclusion (Environment.store_ask _ _) hresult)
  | unopened notes hover hresult =>
      exact hgive (.opening _ _ _) (store_conclusion (Environment.store_keepAlive _) hresult)
  | opened notes hover hresult =>
      exact hgive (.opening _ _ _) (store_conclusion (Environment.store_keepAlive _) hresult)
  | @renewed plan lease hold ack acks env' notes hdue htake httl =>
      rcases Environment.store_takeAck hold.acks with hstore | ⟨other, ticker, hacks, hstore⟩
      · rw [htake] at hstore
        exact Or.inl hstore
      · rw [htake] at hstore
        exact hgive (.held plan lease hacks) (Or.inr hstore)
  | @lost plan lease hold item acks env' reason notes hdue htake hitem =>
      rcases Environment.store_takeAck hold.acks with hstore | ⟨other, ticker, hacks, hstore⟩
      · rw [htake] at hstore
        exact Or.inl hstore
      · rw [htake] at hstore
        exact hgive (.held plan lease hacks) (Or.inr hstore)
  | @refreshed plan lease call hold env' notes hover hresult =>
      have hscan : (survey a.terms plan env).2.store = env.store ∨
          (survey a.terms plan env).2.store =
            (env.store.scan env.now (Key.rootPrefix plan.root)).2 := by
        rw [store_survey]
        exact Environment.store_ask _ _
      have hstore := store_conclusion hscan (Eq.refl (conclusion a.terms call .get env _))
      rw [← hresult] at hstore
      exact hgive (.refreshing plan lease call hold) hstore
  | @released plan lease cause call hold env' notes hover hresult =>
      have hrevoke : (env.revoke lease).2.store = env.store ∨
          (env.revoke lease).2.store = (env.store.revoke lease).2 :=
        Environment.store_ask _ _
      have hstore := store_conclusion hrevoke (Eq.refl (conclusion a.terms call .revoke env _))
      rw [← hresult] at hstore
      exact hgive (.releasing plan lease cause call hold) hstore

/-- What holds of a store before a turn holds after it, if the commands of the stage keep it. -/
theorem Turn.keeps {a : Attempt} {env env' : Environment} {stage stage' : Stage}
    {P : MemoryStore → Prop} (h : Turn a env stage stage' env') (hbefore : P env.store)
    (hcommands : ∀ c, stage.Commands c → env'.store = (c.run env.now env.store).2 →
      P (c.run env.now env.store).2) : P env'.store := by
  rcases h.store_cases with hstore | ⟨c, hc, hstore⟩
  · rw [hstore]
    exact hbefore
  · rw [hstore]
    exact hcommands c hc hstore

/-- No turn makes a difference to what fails. -/
theorem Turn.faults {a : Attempt} {env env' : Environment} {stage stage' : Stage}
    (h : Turn a env stage stage' env') : env'.store.faults = env.store.faults :=
  h.keeps (P := fun s => s.faults = env.store.faults) rfl fun _ hc _ =>
    MemoryStore.faults_run hc.no_fault hc.no_clear env.now env.store

/-- A turn keeps a store well-formed, as long as lease numbers last. -/
theorem Turn.wellFormed {a : Attempt} {env env' : Environment} {stage stage' : Stage}
    (h : Turn a env stage stage' env') (hstore : env.store.WellFormed)
    (hnumbers : 1 ≤ env'.store.nextLease.toInt) : env'.store.WellFormed := by
  refine h.keeps hstore ?_
  intro c _ heq
  rw [heq] at hnumbers
  exact hstore.run c env.now hnumbers

/-- A turn keeps a store reachable, and lets nothing fail that did not fail before. -/
theorem Turn.store_spec {a : Attempt} {env env' : Environment} {stage stage' : Stage}
    (h : Turn a env stage stage' env') (hstore : env.store.Reachable)
    (hnumbers : 1 ≤ env'.store.nextLease.toInt) :
    env'.store.Reachable ∧ env'.store.faults ⊆ env.store.faults := by
  refine ⟨h.keeps hstore ?_, fun op hop => h.faults ▸ hop⟩
  intro c _ heq
  rw [heq] at hnumbers
  exact hstore.run c env.now hnumbers

end Attempt
end ServiceDiscovery
