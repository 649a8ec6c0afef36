import ServiceDiscovery.Proofs.Roots
import ServiceDiscovery.Proofs.Schedule.Deeds
import ServiceDiscovery.Schedule

/-!
# The deeds of tasks

No task does anything to the store or to a registry but the deeds of an environment:
whatever a schedule of attempts, supervisors, watches and reports leads to, a trace
of deeds leads to as well.

Main results:

- Definition {lit}`Attempt.Stage.Deeds`: the deeds that an attempt may do at a stage.
- Theorem {lit}`Attempt.Turn.does`: a turn is one deed of its stage, and something
  aside.
- Theorem {lit}`Schedule.trace_of_reaches`: a run of a schedule leaves a trace of deeds.
-/

namespace ServiceDiscovery

/-! ## Deeds of an attempt -/

namespace Environment

variable {env env' : Environment}

theorem registry_congr (h : env'.clients = env.clients) (client : Nat) :
    env'.registry client = env.registry client := by
  rw [registry, registry, h]

/-- A request to the store makes no difference to clients. -/
theorem clients_ask {α : Type} (env : Environment) (request : Request)
    (run : MemoryStore → Except Failure α × MemoryStore) :
    (env.ask request run).2.clients = env.clients := by
  unfold ask
  split <;> rfl

theorem clients_keepAlive (env : Environment) (lease : LeaseId) :
    (env.keepAlive lease).2.clients = env.clients := by
  unfold keepAlive
  split
  · rfl
  · exact clients_ask env (.keepAlive lease) fun s => s.renew env.now lease

/-- Doing nothing. -/
theorem does_aside (env : Environment) : env.Does .aside env :=
  .aside rfl fun _ => rfl

end Environment

namespace Attempt

/-- The deeds that an attempt may do at a stage. -/
inductive Stage.Deeds (terms : Terms) : Stage → Deed → Prop where
  | aside (stage : Stage) : Deeds terms stage .aside
  | command {stage : Stage} {c : MemoryStore.Command} (answer : MemoryStore.Answer)
      (hc : stage.Commands c) : Deeds terms stage (.command c answer)
  | refresh (plan : Registration.Plan) (lease : LeaseId) (call : Call) (hold : Hold) :
      Deeds terms (.refreshing plan lease call hold) (.refresh terms.client terms.root)

/-- An attempt in order, which looks for others under the root of its terms. -/
structure Proper (a : Attempt) : Prop where
  inOrder : a.stage.InOrder
  rooted : ∀ p, a.stage = .running p → p.plan.root = a.terms.root

theorem Proper.unstarted (terms : Terms) (d : Descriptor) : (unstarted terms d).Proper :=
  ⟨.unstarted d, fun _ hp => Stage.noConfusion hp⟩

/-- A survey is a refresh, if it looks under the root of the terms. -/
theorem survey_snd {terms : Terms} {plan : Registration.Plan} (hroot : plan.root = terms.root)
    (env : Environment) :
    (survey terms plan env).2 = (env.refresh terms.client terms.root).2 := by
  unfold survey Environment.refresh
  rw [hroot]
  rcases env.scan (Key.rootPrefix terms.root) with ⟨failure | entries, env'⟩
  · simp only
  · simp only

/-- A call makes no more difference to clients than its answer does. -/
theorem clients_of_conclusion {α : Type} {terms : Terms} {call : Call} {op : Operation}
    {env : Environment} {answer result : Except Failure α × Environment}
    (h : answer.2.clients = env.clients)
    (hresult : conclusion terms call op env answer = result) :
    result.2.clients = env.clients := by
  rw [← hresult]
  unfold conclusion
  split
  · exact h
  · rfl

/-- Only the end of a refresh changes what a client has seen. -/
theorem Turn.clients {a : Attempt} {env env' : Environment} {stage stage' : Stage}
    (h : Turn a env stage stage' env')
    (hstage : ∀ plan lease call hold, stage ≠ .refreshing plan lease call hold) :
    env'.clients = env.clients := by
  cases h with
  | refused | stopped | begun | cancelled | ticked => rfl
  | ungranted notes hover hresult =>
      exact clients_of_conclusion (Environment.clients_ask _ _ _) hresult
  | granted notes hover hresult =>
      exact clients_of_conclusion (Environment.clients_ask _ _ _) hresult
  | unpublished notes hover hresult =>
      exact clients_of_conclusion (Environment.clients_ask _ _ _) hresult
  | published notes hover hresult =>
      exact clients_of_conclusion (Environment.clients_ask _ _ _) hresult
  | unopened notes hover hresult =>
      exact clients_of_conclusion (Environment.clients_keepAlive _ _) hresult
  | opened notes hover hresult =>
      exact clients_of_conclusion (Environment.clients_keepAlive _ _) hresult
  | renewed notes hdue htake httl =>
      obtain ⟨_, rfl⟩ := Prod.mk.inj htake
      rfl
  | lost reason notes hdue htake hitem =>
      obtain ⟨_, rfl⟩ := Prod.mk.inj htake
      rfl
  | @refreshed plan lease call hold env'' notes hover hresult =>
      exact absurd rfl (hstage plan lease call hold)
  | @released plan lease cause call hold env'' notes hover hresult =>
      have hrevoke : (conclusion a.terms call .revoke env (env.revoke lease)).2.clients =
          env.clients := clients_of_conclusion (Environment.clients_ask _ _ _) rfl
      rw [← hresult] at hrevoke
      exact hrevoke

/-- The plan of an attempt is made in its first step, and never changes. -/
theorem Turn.plan_cases {a : Attempt} {env env' : Environment} {stage stage' : Stage}
    (h : Turn a env stage stage' env') {p' : Progress} (hstage' : stage' = .running p') :
    (∃ p, stage = .running p ∧ p'.plan = p.plan) ∨
      ∃ d, stage = .unstarted d ∧
        Registration.Plan.make env.localAddress env.now (.random env.bits) a.terms.root
          a.terms.leaseTtl d = .ok p'.plan := by
  cases h with
  | refused | stopped | ungranted | lost | released => cases hstage'
  | begun hplan hcancel =>
      cases hstage'
      exact Or.inr ⟨_, rfl, hplan⟩
  | granted | unpublished | published | unopened | opened | cancelled | renewed | ticked
  | refreshed =>
      cases hstage'
      exact Or.inl ⟨_, rfl, rfl⟩

/-- A move keeps an attempt proper. -/
theorem Proper.move {a b : Attempt} {env env' : Environment} (ha : a.Proper)
    (h : (b, env') ∈ a.moves env) : b.Proper := by
  refine ⟨(inOrder_of_move ha.inOrder h).1, ?_⟩
  rcases moves_cases ha.inOrder h with ⟨rfl, _⟩ | ⟨stage, hturn, rfl⟩
  · exact ha.rooted
  · intro p' hp'
    rcases hturn.plan_cases hp' with ⟨p, hp, heq⟩ | ⟨d, _, hplan⟩
    · rw [heq]
      exact ha.rooted p hp
    · exact (Registration.Plan.of_make hplan).2.2.2.2

/-- A turn is one deed of its stage, and something aside. -/
theorem Turn.does {a : Attempt} {env env' : Environment} {stage' : Stage} (ha : a.Proper)
    (h : Turn a env a.stage stage' env') :
    ∃ deed env'', a.stage.Deeds a.terms deed ∧ env.Does deed env'' ∧ env''.Does .aside env' := by
  -- A refresh is one deed although it changes both the store and a registry; every other turn
  -- leaves the registries alone and gives the store one command at most.
  by_cases hstage : ∃ plan lease call hold, a.stage = .refreshing plan lease call hold
  · obtain ⟨plan, lease, call, hold, hstage⟩ := hstage
    have hroot := ha.rooted _ hstage
    rw [hstage] at h ⊢
    cases h with
    | @refreshed _ _ _ _ env'' notes hover hresult =>
        unfold conclusion at hresult
        split at hresult
        · rw [survey_snd hroot] at hresult
          subst hresult
          exact ⟨_, _, .refresh plan lease call hold, .refresh _ _,
            Environment.does_say _ notes⟩
        · subst hresult
          exact ⟨_, _, .aside _, Environment.does_aside _, Environment.does_say _ notes⟩
  · have hclients := h.clients fun plan lease call hold heq =>
      hstage ⟨plan, lease, call, hold, heq⟩
    rcases h.store_cases with hstore | ⟨c, hc, hstore⟩
    · exact ⟨_, _, .aside a.stage, .aside hstore (Environment.registry_congr hclients),
        Environment.does_aside env'⟩
    · exact ⟨_, _, .command _ hc, .command c,
        .aside hstore (Environment.registry_congr hclients)⟩

/-- A move of an attempt is one deed of its stage, and something aside. -/
theorem Proper.does {a b : Attempt} {env env' : Environment} (ha : a.Proper)
    (h : (b, env') ∈ a.moves env) :
    ∃ deed env'', a.stage.Deeds a.terms deed ∧ env.Does deed env'' ∧ env''.Does .aside env' := by
  rcases moves_cases ha.inOrder h with ⟨_, rfl, _⟩ | ⟨stage, hturn, _⟩
  · exact ⟨_, _, .aside a.stage, Environment.does_aside _, Environment.does_aside _⟩
  · exact hturn.does ha

end Attempt

/-! ## Traces of tasks -/

section

variable {env env' env'' : Environment}

/-- One deed is a trace. -/
theorem Trace.single {deed : Deed} (h : env.Does deed env')
    (hnumbers : 1 ≤ env'.store.nextLease.toInt) : Trace env [⟨env.now, deed⟩] env' :=
  .cons .nil h hnumbers

/-- A deed and something aside make a trace. -/
theorem Trace.of_does {deed : Deed} (h : env.Does deed env') (h' : env'.Does .aside env'')
    (hnumbers : 1 ≤ env''.store.nextLease.toInt) :
    Trace env [⟨env'.now, .aside⟩, ⟨env.now, deed⟩] env'' := by
  cases h' with
  | aside hstore hregistry =>
      have hsame := hnumbers
      rw [hstore] at hsame
      exact .cons (.single h hsame) (.aside hstore hregistry) hnumbers

theorem Trace.of_aside (h : env.Does .aside env')
    (hnumbers : 1 ≤ env'.store.nextLease.toInt) : ∃ log, Trace env log env' :=
  ⟨_, .single h hnumbers⟩

/-- What changes neither the store nor a client counts as no deed. -/
theorem Environment.does_of_clients (hstore : env'.store = env.store)
    (hclients : env'.clients = env.clients) : env.Does .aside env' :=
  .aside hstore (registry_congr hclients)

/-- The attempt of a task, if there is one, is proper. -/
def Task.Proper : Task → Prop
  | .attempt a => a.Proper
  | .supervision s => ∀ a, s.stage = .trying a → a.Proper
  | .watch _ | .report _ => True

/-- A move of a watch is a refresh of its client, or no deed. -/
theorem Watch.trace_of_move {w w' : Watch} (h : (w', env') ∈ w.moves env)
    (hnumbers : 1 ≤ env'.store.nextLease.toInt) : ∃ log, Trace env log env' := by
  unfold moves at h
  split at h
  · cases h
  · rename_i call hstage
    split at h
    · have heq := congrArg Prod.snd (List.mem_singleton.mp h)
      by_cases hanswered : call.isAnswered = true
      · simp only [conclude, if_pos hanswered] at heq
        subst heq
        exact ⟨_, Trace.of_does (.refresh w.client w.root) (Environment.does_say _ _) hnumbers⟩
      · simp only [conclude, if_neg hanswered] at heq
        subst heq
        exact Trace.of_aside (Environment.does_say _ _) hnumbers
    · cases h
  · rcases List.mem_append.mp h with h | h
    · split at h
      · obtain ⟨_, rfl⟩ := Prod.mk.inj (List.mem_singleton.mp h)
        exact Trace.of_aside (Environment.does_say _ _) hnumbers
      · cases h
    · split at h
      · obtain ⟨_, rfl⟩ := Prod.mk.inj (List.mem_singleton.mp h)
        exact Trace.of_aside (Environment.does_aside _) hnumbers
      · cases h

/-- A move of a report is a query of its client, or no deed. -/
theorem Report.trace_of_move {r r' : Report} (h : (r', env') ∈ r.moves env)
    (hnumbers : 1 ≤ env'.store.nextLease.toInt) : ∃ log, Trace env log env' := by
  unfold moves at h
  split at h
  · cases h
  · rcases List.mem_append.mp h with h | h
    · split at h
      · obtain ⟨_, rfl⟩ := Prod.mk.inj (List.mem_singleton.mp h)
        exact Trace.of_aside (Environment.does_aside _) hnumbers
      · cases h
    · split at h
      · have heq : env' = (r.tick env).2 := congrArg Prod.snd (List.mem_singleton.mp h)
        have hquery : env.Does (.query r.client .services)
            (env.setRegistry r.client ((env.registry r.client).step ⟨env.now, .services⟩)) :=
          .query r.client .services
        refine ⟨_, Trace.of_does hquery ?_ hnumbers⟩
        rw [heq]
        exact Environment.does_of_clients rfl rfl
      · cases h

/-- The decision after an attempt is no deed. -/
theorem Supervision.does_of_conclude (s : Supervision) (failure : Option Failure)
    (env : Environment) :
    env.Does .aside (s.conclude failure env).2 ∧
      ∀ b, (s.conclude failure env).1.stage ≠ .trying b := by
  unfold conclude
  rcases Supervisor.judge s.descriptor.name s.due failure with ⟨decision, notes⟩
  cases decision with
  | stop => exact ⟨Environment.does_of_clients rfl rfl, fun b hb => nomatch hb⟩
  | reject failure => exact ⟨Environment.does_of_clients rfl rfl, fun b hb => nomatch hb⟩
  | retry rest => exact ⟨Environment.does_of_clients rfl rfl, fun b hb => nomatch hb⟩

/-- The deeds of a supervisor are those of its attempts. -/
theorem Supervision.trace_of_move {s s' : Supervision} (hs : Task.Proper (.supervision s))
    (h : (s', env') ∈ s.moves env) (hnumbers : 1 ≤ env'.store.nextLease.toInt) :
    Task.Proper (.supervision s') ∧ ∃ log, Trace env log env' := by
  unfold moves at h
  split at h
  · cases h
  · rename_i a hstage
    split at h
    · rename_i failure houtcome
      obtain ⟨haside, hnone⟩ := s.does_of_conclude failure env
      rw [← List.mem_singleton.mp h] at haside hnone
      exact ⟨fun b hb => absurd hb (hnone b), Trace.of_aside haside hnumbers⟩
    · obtain ⟨⟨b, env''⟩, hmove, heq⟩ := List.mem_map.mp h
      obtain ⟨rfl, rfl⟩ := Prod.mk.inj heq
      have ha := hs a hstage
      obtain ⟨deed, between, _, hdoes, haside⟩ := ha.does hmove
      refine ⟨?_, _, Trace.of_does hdoes haside hnumbers⟩
      rintro b' heq
      cases heq
      exact ha.move hmove
  · rcases List.mem_append.mp h with h | h
    · split at h
      · obtain ⟨rfl, rfl⟩ := Prod.mk.inj (List.mem_singleton.mp h)
        exact ⟨fun a ha => (nomatch ha), Trace.of_aside (Environment.does_aside _) hnumbers⟩
      · cases h
    · split at h
      · obtain ⟨rfl, rfl⟩ := Prod.mk.inj (List.mem_singleton.mp h)
        refine ⟨?_, Trace.of_aside (Environment.does_aside _) hnumbers⟩
        rintro a heq
        cases heq
        exact .unstarted _ _
      · cases h

/-- A move of any task leaves a trace of deeds. -/
theorem Task.trace_of_move {task task' : Task} (htask : task.Proper)
    (h : (task', env') ∈ task.moves env) (hnumbers : 1 ≤ env'.store.nextLease.toInt) :
    task'.Proper ∧ ∃ log, Trace env log env' := by
  cases task with
  | attempt a =>
      obtain ⟨⟨b, env''⟩, hmove, heq⟩ := List.mem_map.mp h
      obtain ⟨rfl, rfl⟩ := Prod.mk.inj heq
      have ha : a.Proper := htask
      obtain ⟨deed, between, _, hdoes, haside⟩ := ha.does hmove
      exact ⟨ha.move hmove, _, Trace.of_does hdoes haside hnumbers⟩
  | supervision s =>
      obtain ⟨⟨s', env''⟩, hmove, heq⟩ := List.mem_map.mp h
      obtain ⟨rfl, rfl⟩ := Prod.mk.inj heq
      exact Supervision.trace_of_move htask hmove hnumbers
  | watch w =>
      obtain ⟨⟨w', env''⟩, hmove, heq⟩ := List.mem_map.mp h
      obtain ⟨rfl, rfl⟩ := Prod.mk.inj heq
      exact ⟨trivial, Watch.trace_of_move hmove hnumbers⟩
  | report r =>
      obtain ⟨⟨r', env''⟩, hmove, heq⟩ := List.mem_map.mp h
      obtain ⟨rfl, rfl⟩ := Prod.mk.inj heq
      exact ⟨trivial, Report.trace_of_move hmove hnumbers⟩

end

/-! ## Traces of schedules -/

namespace Schedule

/-- All attempts of a schedule are proper. -/
def Proper (s : Schedule) : Prop :=
  ∀ task ∈ s.tasks, task.2.Proper

/-- A move of one task among several leaves a trace of deeds. -/
theorem trace_of_movesOf {env env' : Environment} {tasks tasks' : List (String × Task)}
    (htasks : ∀ task ∈ tasks, task.2.Proper) (h : (tasks', env') ∈ movesOf env tasks)
    (hnumbers : 1 ≤ env'.store.nextLease.toInt) :
    (∀ task ∈ tasks', task.2.Proper) ∧ ∃ log, Trace env log env' := by
  induction tasks generalizing tasks' with
  | nil => cases h
  | cons task tasks ih =>
      rcases task with ⟨name, task⟩
      rcases List.mem_append.mp h with h | h
      · obtain ⟨⟨task', env''⟩, hmove, heq⟩ := List.mem_map.mp h
        obtain ⟨rfl, rfl⟩ := Prod.mk.inj heq
        obtain ⟨htask', htrace⟩ :=
          Task.trace_of_move (htasks _ List.mem_cons_self) hmove hnumbers
        refine ⟨?_, htrace⟩
        rintro other hother
        rcases List.mem_cons.mp hother with rfl | hother
        · exact htask'
        · exact htasks other (List.mem_cons_of_mem _ hother)
      · obtain ⟨⟨rest, env''⟩, hmove, heq⟩ := List.mem_map.mp h
        obtain ⟨rfl, rfl⟩ := Prod.mk.inj heq
        obtain ⟨hrest, htrace⟩ := ih (fun t ht => htasks t (List.mem_cons_of_mem _ ht)) hmove
        refine ⟨?_, htrace⟩
        rintro other hother
        rcases List.mem_cons.mp hother with rfl | hother
        · exact htasks _ List.mem_cons_self
        · exact hrest other hother

/-- A step of a schedule leaves a trace of deeds; time passes without one. -/
theorem trace_of_step {s t : Schedule} (hs : s.Proper) (h : Step s t)
    (hnumbers : 1 ≤ t.env.store.nextLease.toInt) :
    t.Proper ∧ ∃ log, Trace s.env log t.env := by
  cases h with
  | move h =>
      obtain ⟨⟨tasks, env⟩, hmove, rfl⟩ := List.mem_map.mp h
      exact trace_of_movesOf hs hmove hnumbers
  | pass time idle later awake =>
      exact ⟨hs, Trace.of_aside (Environment.does_of_clients rfl rfl) hnumbers⟩

/-- A run of a schedule leaves a trace of deeds, as long as lease numbers last. -/
theorem trace_of_reaches {s t : Schedule} (hs : s.Proper) (h : Reaches s t)
    (hnumbers : ∀ u, Reaches s u → 1 ≤ u.env.store.nextLease.toInt) :
    t.Proper ∧ ∃ log, Trace s.env log t.env := by
  induction h with
  | refl => exact ⟨hs, [], .nil⟩
  | tail reached step ih =>
      obtain ⟨ht, log, htrace⟩ := ih
      obtain ⟨hu, log', hmore⟩ := trace_of_step ht step (hnumbers _ (.tail reached step))
      exact ⟨hu, log' ++ log, htrace.trans hmore⟩

end Schedule
end ServiceDiscovery
