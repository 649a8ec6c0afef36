import ServiceDiscovery.Proofs.Schedule.Conversations

/-!
# Registrations that are stopped beforehand

A client's registration watches the client's own signal; any other signal has to be
passed on to it.  If that signal was given before the registration begins, two things
can happen next: the signal is passed on, or the registration takes its first step.
Which of them comes first decides whether anything is asked for.

Main results:

- Definition {lit}`Attempt.Forestallable`: what either order leads to.
- Theorem {lit}`Attempt.forestallable`: this is so whatever else has happened.
- Theorem {lit}`Attempt.begins_though_stopped`: a registration that goes first is granted
  a lease, and publishes its key.
-/

namespace ServiceDiscovery
namespace Attempt

open Registration (Plan)

variable {terms : Terms} {d : Descriptor} {a a₀ : Attempt} {env env₀ env' : Environment}
  {said : List Utterance} {stage : Stage}

/-! ## Moves -/

/-- The next stage of an attempt is one of its moves. -/
theorem mem_moves_of_nextStage (h : a.nextStage env = some (stage, env')) :
    ({ a with stage }, env') ∈ a.moves env := by
  refine List.mem_append_left _ (Option.mem_toList.mpr ?_)
  rw [advance, h]
  rfl

/-- Passing a signal on is one of the moves of an attempt that is not over. -/
theorem mem_moves_of_raised {s : Signal} (hrelayed : a.terms.relayed = some s)
    (hraised : env.isRaised s = true) (hwaiting : a.passedOn = false)
    (hover : a.outcome? = none) : ({ a with passedOn := true }, env) ∈ a.moves env := by
  have hrelay : a.relay env = some { a with passedOn := true } := by
    rw [relay, hrelayed]
    simp only [hraised, hwaiting, hover, Option.isNone_none, Bool.not_false, Bool.and_self,
      if_true]
  refine List.mem_append_right _ (Option.mem_toList.mpr ?_)
  rw [hrelay]
  rfl

/-- What is raised stays raised in a conversation, which is held under the same terms. -/
theorem Converses.raised (h : Converses a₀ env₀ said a env) :
    a.terms = a₀.terms ∧ env₀.raised ⊆ env.raised := by
  induction h with
  | begin => exact ⟨rfl, List.Subset.refl _⟩
  | meanwhile before raised ih => exact ⟨ih.1, List.Subset.trans ih.2 raised⟩
  | relayed before watched raised ih => exact ih
  | speaks before hspeaks raised ih => exact ⟨ih.1, List.Subset.trans ih.2 raised⟩

/-! ## The first step -/

/-- The first step of an attempt whose description can be published: it is over if it was told to
stop, and otherwise a lease is asked for. The store is left alone. -/
theorem first_step (hcheck : d.check = .ok ()) (hstage : a.stage = .unstarted d)
    (env : Environment) :
    ∃ plan env', Planned a.terms d plan ∧ env'.store = env.store ∧ env'.clients = env.clients ∧
      a.nextStage env =
        some (if a.isCancelled env then .finished none
          else .running ⟨plan, .granting, some (.grant plan.ttl, Call.started env.time
            (some (env.delays .grant)) a.terms.callTimeout), none⟩, env') := by
  cases hplan : Plan.make env.localAddress env.now (.random env.bits) a.terms.root a.terms.leaseTtl
      d with
  | error failure =>
      rw [check_of_make hplan] at hcheck
      cases hcheck
  | ok plan =>
      have hfirst : a.nextStage env = some (a.start d env) := by
        rw [nextStage, hstage]
      refine ⟨plan, (follow a.terms plan none (Registration.begin plan (a.isCancelled env))
        env.draw.2).2, planned_of_make hplan, rfl, rfl, ?_⟩
      rw [hfirst, start_eq, hplan]
      cases a.isCancelled env <;> rfl

/-! ## The two orders -/

/-- What becomes of an attempt that has not begun, while its other signal is given. -/
structure Forestallable (d : Descriptor) (a : Attempt) (env : Environment) : Prop where
  /-- The signal can be passed on now. -/
  relays : a.passedOn = false → ({ a with passedOn := true }, env) ∈ a.moves env
  /-- Once it is, or if the client itself was stopped, the attempt can end at once and without a
  failure, and neither the store nor a registry has changed. -/
  ends : a.isCancelled env = true →
    ∃ env', ({ a with stage := .finished none }, env') ∈ a.moves env ∧
      env'.store = env.store ∧ env'.clients = env.clients
  /-- Whatever happens from then on, nothing is ever asked of a store, and there is no failure. -/
  silent : a.isCancelled env = true → ∀ said b env', Converses a env said b env' →
    said = [] ∧ (b.stage = .unstarted d ∨ b.stage = .finished none)
  /-- If the attempt goes first, it asks for a lease. -/
  asks : a.isCancelled env = false → ∃ plan call env', Planned a.terms d plan ∧
    ({ a with stage := .running ⟨plan, .granting, some (.grant plan.ttl, call), none⟩ }, env') ∈
      a.moves env

/-- An attempt to register a description that can be published, whose other signal was given
beforehand, still has both orders before it when it comes to its first step. If the signal is passed
on first, the attempt asks for nothing and ends without a failure, whatever the store would have
answered; if the attempt goes first, it asks for a lease. -/
theorem forestallable {s : Signal} (hcheck : d.check = .ok ()) (hrelayed : terms.relayed = some s)
    (hraised : env₀.isRaised s = true) (h : Converses (.unstarted terms d) env₀ [] a env)
    (hstage : a.stage = .unstarted d) : Forestallable d a env := by
  obtain ⟨hterms, hsubset⟩ := h.raised
  obtain ⟨plan, env', hplanned, hstore, hclients, hnext⟩ := first_step hcheck hstage env
  have hstill : env.isRaised s = true := by
    rw [Environment.isRaised, List.contains_iff_mem] at hraised ⊢
    exact hsubset hraised
  constructor
  · intro hwaiting
    refine mem_moves_of_raised ?_ hstill hwaiting ?_
    · rw [hterms]
      exact hrelayed
    · rw [outcome?, hstage]
  · intro hstop
    rw [hstop, if_pos rfl] at hnext
    exact ⟨env', mem_moves_of_nextStage hnext, hstore, hclients⟩
  · intro hstop said b env' hlater
    obtain ⟨hsaid, _, hstands⟩ := hlater.silent hstage hstop
    refine ⟨hsaid, hstands.imp_right ?_⟩
    rintro ⟨outcome, hover, hsuccess⟩
    rw [hover, hsuccess hcheck]
  · intro hgoes
    rw [hgoes, if_neg Bool.false_ne_true] at hnext
    exact ⟨plan, _, env', hplanned, mem_moves_of_nextStage hnext⟩

/-! ## A token that was given beforehand -/

/-- An environment in which a token was given, with some store. -/
def forewarned (store : MemoryStore) : Environment :=
  { Environment.initial (.manual 1000000000000) [{}] with raised := [.token "t"], store }

/-- An attempt in that environment, which the token is to stop. -/
def forewarnedAttempt (store : MemoryStore) : Attempt × Environment :=
  (unstarted ((forewarned store).terms 0 (.token "t")) (.ofAddress "web" "10.0.0.1:80" ""),
    forewarned store)

/-- That attempt has both orders before it. -/
theorem forestallable_forewarned :
    Forestallable (.ofAddress "web" "10.0.0.1:80" "") (forewarnedAttempt .empty).1
      (forewarnedAttempt .empty).2 :=
  forestallable (by decide) rfl (by decide) .begin rfl

/-- A registration that goes first is granted a lease though its token was given beforehand, and
publishes its key. If leases cannot be given back, the key is still there when the registration has
ended as if it had been stopped in time; and if none can be granted, the registration fails. -/
theorem begins_though_stopped :
    (forewarnedAttempt .empty).2.isRaised (.token "t") = true ∧
      ((carryOn 2 (forewarnedAttempt .empty)).2.store.leaseCount 1000000000000).1 = 1 ∧
      ((carryOn 3 (forewarnedAttempt .empty)).2.store.keys 1000000000000).1 =
        ["/rendezvous/web/web_00000000-0000-4000-8000-000000000000"] ∧
      (carryOn 10 (forewarnedAttempt .empty)).1.outcome? = some none ∧
      (carryOn 10 (forewarnedAttempt (MemoryStore.empty.injectFault .revoke))).1.outcome? =
        some none ∧
      ((carryOn 10 (forewarnedAttempt (MemoryStore.empty.injectFault .revoke))).2.store.keys
        1000000000000).1 = ["/rendezvous/web/web_00000000-0000-4000-8000-000000000000"] ∧
      (carryOn 2 (forewarnedAttempt (MemoryStore.empty.injectFault .grant))).1.outcome? =
        some (some (.leaseGrant "injected Grant fault")) := by
  refine ⟨?_, ?_, ?_, ?_, ?_, ?_, ?_⟩
  all_goals decide +kernel

end Attempt
end ServiceDiscovery
