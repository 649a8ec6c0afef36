import ServiceDiscovery.Proofs.Schedule.Discovery

/-!
# Roots that do not reach each other

A client never sees what is published under a root that its own refreshes do not
reach.  Roots that merely differ are not enough: a root with a slash can lie below
another one, and then the one client finds the keys of the other.

Main results:

- Definition {lit}`Deed.Overlooks`: deeds with which a client does not come across a
  key.
- Theorem {lit}`Environment.isolated`: such a client's queries never show the key.
- Theorem {lit}`Environment.overlapping_roots`: a refresh of a different root that
  finds a key nevertheless.
-/

namespace ServiceDiscovery

/-- With a deed a client does not come across a key of a service that is published under a root: it
refreshes no root that reaches it, and nobody puts the key into its registry by hand. -/
def Deed.Overlooks (client : Nat) (published name key : String) : Deed → Prop
  | .refresh c scanned =>
    c = client → ¬ Key.Reaches (Key.normalizeRoot scanned) (Key.normalizeRoot published) name
  | deed => ¬ deed.Plants client key

namespace Environment

variable {env₀ env env' : Environment} {deed : Deed} {client : Nat}
  {localAddress root : String} {now : Reading} {unique : Uuid} {ttl : Duration} {d : Descriptor}
  {plan : Registration.Plan}

theorem Does.get?_of_overlooks (h : env.Does deed env') (hsound : env.Sound)
    (hplan : Registration.Plan.make localAddress now unique root ttl d = .ok plan)
    (hdeed : deed.Overlooks client root d.name plan.key)
    (hunseen : (env.registry client).get? plan.key = none) :
    (env'.registry client).get? plan.key = none := by
  cases hseen : (env'.registry client).get? plan.key with
  | none => rfl
  | some i =>
      rcases h.get?_cases hsound hseen with ⟨old, hold, _⟩ |
        ⟨scanned, value, lease, rfl, hstart, _, _⟩ | hplants
      · rw [hunseen] at hold
        cases hold
      · rw [Registration.Plan.startsWith_key_iff hplan] at hstart
        exact absurd hstart (hdeed rfl)
      · cases deed with
        | refresh => exact hplants.elim
        | command | query | aside => exact absurd hplants hdeed

/-- Roots are isolated as far as they do not reach each other. Whatever is published under a root,
by whoever does what to the store and to the registries, a client that refreshes no root that
reaches it never has the key in its registry, and no query of it shows the instance. -/
theorem isolated {log : List Record} (hsound : env₀.Sound)
    (hplan : Registration.Plan.make localAddress now unique root ttl d = .ok plan)
    (hunseen : (env₀.registry client).get? plan.key = none) (htrace : Trace env₀ log env)
    (hlog : ∀ r ∈ log, r.deed.Overlooks client root d.name plan.key) :
    (env.registry client).get? plan.key = none ∧ env.Hides client plan.key := by
  suffices hnone : (env.registry client).get? plan.key = none by
    refine ⟨hnone, hides_of_conceals ((htrace.sound hsound).distinct client) ?_⟩
    exact .of_get?_eq_none hnone
  induction htrace with
  | nil => exact hunseen
  | cons before does _ ih =>
      rw [List.forall_mem_cons] at hlog
      exact does.get?_of_overlooks (before.sound hsound) hplan hlog.1 (ih hlog.2)

/-- A client that refreshes a sibling of a root sees nothing of a description that is written there,
even if the service goes by the sibling's name; a client of the root itself sees it. -/
theorem isolated_siblings :
    let env : Environment := .initial (.running 0) [{ root := "a" }, { root := "b" }]
    let key := Key.ofInstance "a" "b" (.random 0)
    let described := (Descriptor.ofAddress "b" "h" "").complete "" 0
    let written := { env with store := env.store.put key (Text.utf8 described.toJson) }
    (written.refresh 1 "b").2.Hides 1 key ∧
      (((written.refresh 0 "a").2.registry 0).get? key).isSome = true := by
  intro env key described written
  have hplan : Registration.Plan.make "" 0 (.random 0) "a" ⟨0⟩ (.ofAddress "b" "h" "") =
      .ok ⟨"a", key, described, 1⟩ := rfl
  have hwrite : Trace env [⟨env.now, .command (.put key (Text.utf8 described.toJson)) .done⟩]
      written :=
    .cons .nil (.command (.put key (Text.utf8 described.toJson))) (by decide)
  refine ⟨(isolated (sound_initial _ _) hplan (get?_initial _ _ 1 key)
    (.cons hwrite (.refresh 1 "b") (by decide +kernel)) ?_).2, by decide +kernel⟩
  rw [List.forall_mem_cons, List.forall_mem_singleton]
  refine ⟨fun _ => ?_, not_false⟩
  rintro (heq | heq | ⟨rest, heq⟩)
  · exact absurd heq (by decide)
  · exact absurd heq (by decide)
  · have hfront := congrArg (·.toList.head?) heq
    simp [Key.normalizeRoot, Key.trim, String.toList_append] at hfront

/-! ## Roots that overlap -/

/-- A fresh environment with two clients, the root of the second below that of the first. -/
def nested : Environment := .initial (.running 0) [{ root := "a" }, { root := "a/b" }]

/-- An attempt of the first client there, for a service with the name of the other root's last
part. -/
def neighbour : Attempt × Environment :=
  (.unstarted (nested.terms 0 (.shutdown 0)) (.ofAddress "b" "10.0.0.1" "80"), nested)

/-- What this attempt publishes. -/
def neighbourPlan : Registration.Plan :=
  { root := "a"
    key := "/a/b/b_00000000-0000-4000-8000-000000000000"
    descriptor := { Descriptor.ofAddress "b" "10.0.0.1" "80" with displayName := "b" }
    ttl := 7 }

/-- Different roots are not isolated when they overlap: the second client finds what the first one
has registered, and its queries show the instance. -/
theorem overlapping_roots :
    Key.normalizeRoot "a/b" ≠ Key.normalizeRoot "a" ∧
      ∃ a env n env' i, Attempt.Runs 1 neighbourPlan.key neighbour.1 nested a env ∧
        a.stage.registered? = some (neighbourPlan, ⟨1⟩) ∧
        env.refresh 1 "a/b" = (.ok n, env') ∧
        (env'.registry 1).get? neighbourPlan.key = some i ∧
        (env'.candidates 1 "b").1.filter (fun j => j.key = neighbourPlan.key) = [i] ∧
        i.address = "10.0.0.1:80" := by
  have hrun := Attempt.runs_carryOn 1 neighbourPlan.key 4 neighbour (by decide +kernel)
  have hregistered : (Attempt.carryOn 4 neighbour).1.stage.registered? =
      some (neighbourPlan, ⟨1⟩) := by
    decide +kernel
  have hbegin : Attempt.Told 1 neighbourPlan.key "a" _ neighbour.1 nested :=
    ⟨sound_initial _ _, .unstarted _ _, by decide +kernel, .unstarted (aware_initial _ _ _ _)⟩
  have htold := hbegin.runs hrun
  obtain ⟨hplan, _, hannounces⟩ := htold.tells.registered hregistered
  obtain ⟨n, env', hrefresh⟩ := refresh_ok htold.sound (by decide +kernel) (by decide +kernel) 1
    "a/b"
  have hlive : ∃ held, (⟨1⟩, held) ∈ (Attempt.carryOn 4 neighbour).2.store.leases ∧
      held.lapsed (Attempt.carryOn 4 neighbour).2.now = false :=
    ⟨⟨7, 7000000000⟩, by decide +kernel⟩
  obtain ⟨i, hi, hshows, hcandidate⟩ := hannounces.shows_of_refresh htold.sound hplan.name hlive
    (by decide +kernel) (by decide +kernel) hrefresh
  exact ⟨by decide, _, _, n, env', i, hrun, hregistered, hrefresh, hi, hcandidate, hshows.address⟩

end Environment
end ServiceDiscovery
