import ServiceDiscovery.Proofs.Schedule.Persistence

/-!
# Which failures start the rests over

A supervisor starts its rests over when a lease was lost, because the instance was
registered until then.  The failure of an attempt tells that its lease was lost in
two cases: the instance was registered, or the store refused to acknowledge
renewals, and then it never was.

Main results:

- Theorem {lit}`Supervision.leaseLost_iff`: the failures that start the rests over.
- Theorem {lit}`Supervision.backs_off_since_registered`: without such refusals the rests
  double since the instance was registered the last time.
- Theorem {lit}`Supervision.Runs.backs_off`: the same of every supervisor that runs among
  others.
- Theorem {lit}`Supervision.refusals_start_over`: after two such refusals the second rest
  is as short as the first.
-/

namespace ServiceDiscovery
namespace Supervision

open Attempt (Utterance Converses Protocol Vigil Ends Fails)

/-! ## What was heard of acknowledgements -/

/-- The store has agreed to acknowledge renewals. -/
def opens : Utterance → Bool
  | .heard (.opened (.ok ())) => true
  | _ => false

/-- The store has refused to acknowledge renewals. -/
def refuses : Utterance → Bool
  | .heard (.opened (.error _)) => true
  | _ => false

/-- In a trial the instance was registered. -/
def registeredAt (history : List Trial) (n : Nat) : Bool :=
  history[n]?.any fun trial => trial.said.any opens

/-- In a trial the store has refused to acknowledge renewals. -/
def refusedAt (history : List Trial) (n : Nat) : Bool :=
  history[n]?.any fun trial => trial.said.any refuses

section

variable {terms : Terms} {d : Descriptor} {plan : Registration.Plan} {lease : LeaseId}
  {said : List Utterance} {u : Utterance} {failure : Failure} {request : Request}

theorem any_opens_of_vigil (h : Vigil terms plan lease said) : said.any opens = true := by
  induction h with
  | begun => rfl
  | renewed before httl ih => rw [List.any_append, ih, Bool.true_or]
  | refreshed before refreshes hends ih => rw [List.any_append, ih, Bool.true_or]

/-- Nothing is heard of acknowledgements when a lease is given back. -/
theorem silent_of_released {v : Utterance} (h : Ends (.revoke lease) v) :
    (said ++ [u, .call (.revoke lease), v]).any opens = (said ++ [u]).any opens ∧
      (said ++ [u, .call (.revoke lease), v]).any refuses = (said ++ [u]).any refuses := by
  cases h with
  | @answered event hanswers =>
      cases event with
      | released => simp [opens, refuses]
      | granted | published | opened | cancelled | acknowledged | ticked | refreshed =>
          cases hanswers
  | gaveUp => simp [opens, refuses]

/-- A request fails with its own kind of failure, or because it took too long. -/
theorem kind_of_fails (h : Fails terms request u failure) (hcandid : Attempt.Candid u) :
    u = .heard (Attempt.givenUp failure request) ∧ failure.kind = request.operation.refusal ∨
      u = .gaveUp ∧ failure.kind = .connection := by
  cases h with
  | refused => exact Or.inl ⟨rfl, hcandid failure request rfl⟩
  | gaveUp => exact Or.inr ⟨rfl, rfl⟩

/-- An attempt fails with a lost lease in two cases: the instance was registered, or the store has
refused to acknowledge renewals. -/
theorem leaseLost_iff (h : Protocol terms d said (some failure))
    (hcandid : ∀ u ∈ said, Attempt.Candid u) :
    failure.kind = .leaseLost ↔ said.any opens = true ∨ said.any refuses = true := by
  cases h with
  | refused hcheck hkind => simp [hkind]
  | ungranted planned hfails =>
      rcases kind_of_fails hfails (hcandid _ (by simp)) with ⟨rfl, hkind⟩ | ⟨rfl, hkind⟩
      · simp [hkind, Request.operation, Operation.refusal, Attempt.givenUp, opens, refuses]
      · simp [hkind, opens, refuses]
  | unpublished planned hfails released =>
      obtain ⟨hopens, hrefuses⟩ := silent_of_released released
      rw [hopens, hrefuses]
      rcases kind_of_fails hfails (hcandid _ (by simp)) with ⟨rfl, hkind⟩ | ⟨rfl, hkind⟩
      · simp [hkind, Attempt.publication, Attempt.upToPut, Request.operation, Operation.refusal,
          Attempt.givenUp, opens, refuses]
      · simp [hkind, Attempt.upToPut, opens, refuses]
  | unopened planned hfails released =>
      obtain ⟨hopens, hrefuses⟩ := silent_of_released released
      rw [hopens, hrefuses]
      rcases kind_of_fails hfails (hcandid _ (by simp)) with ⟨rfl, hkind⟩ | ⟨rfl, hkind⟩
      · simp [hkind, Request.operation, Operation.refusal, Attempt.givenUp, refuses]
      · simp [hkind, Attempt.upToKeepAlive, Attempt.upToPut, opens, refuses]
  | lost planned vigil hloss =>
      simp [Failure.leaseLost, any_opens_of_vigil vigil]

end

/-! ## Histories -/

section

variable {env₀ env : Environment} {client : Nat} {d : Descriptor} {token : String}
  {history : List Trial} {trial : Trial} {s : Supervision} {n : Nat}

/-- Every trial that is over kept to the protocol. -/
theorem Persists.protocol (h : Persists env₀ client d token history s env) :
    ∀ trial ∈ history, ∀ ended outcome, trial.ending = some (ended, outcome) →
      ∃ terms, Protocol terms d trial.said outcome := by
  have hlast {past : List Trial} {old new : Trial}
      (hpast : ∀ trial ∈ past ++ [old], ∀ ended outcome, trial.ending = some (ended, outcome) →
        ∃ terms, Protocol terms d trial.said outcome)
      (hnew : ∀ ended outcome, new.ending = some (ended, outcome) →
        ∃ terms, Protocol terms d new.said outcome) :
      ∀ trial ∈ past ++ [new], ∀ ended outcome, trial.ending = some (ended, outcome) →
        ∃ terms, Protocol terms d trial.said outcome := by
    intro trial htrial
    rcases List.mem_append.mp htrial with htrial | htrial
    · exact hpast trial (List.mem_append_left _ htrial)
    · rw [List.mem_singleton.mp htrial]
      exact hnew
  induction h with
  | begin => simp [Trial.start]
  | tries before trying converses ih => exact hlast ih nofun
  | concludes before trying concluded ih =>
      refine hlast ih ?_
      rintro ended outcome ⟨⟩
      obtain ⟨past, began, said, env₁, hhistory, _, hconverses, _⟩ :=
        before.standing.of_trying trying
      obtain ⟨_, htrial⟩ := List.append_inj' hhistory rfl
      cases htrial
      obtain ⟨_, _, htracks⟩ := hconverses.tracks
      rw [Attempt.finished_of_outcome concluded] at htracks
      cases htracks with
      | finished left hprotocol => exact ⟨_, hprotocol⟩
  | rests before resting raised awake ih => exact ih
  | stops before resting told ih => exact ih
  | retries before resting rested ih =>
      intro trial htrial ended outcome hending
      rcases List.mem_append.mp htrial with htrial | htrial
      · exact ih trial htrial ended outcome hending
      · rw [List.mem_singleton.mp htrial] at hending
        cases hending

/-- The rests start over with a trial just when the instance was registered in it, or the store has
refused to acknowledge renewals. -/
theorem Persists.lostAt_eq (h : Persists env₀ client d token history s env)
    (hcandid : Candid history) (htrial : history[n]? = some trial) {ended : Nat} {failure : Failure}
    (hending : trial.ending = some (ended, some failure)) :
    lostAt history n = (registeredAt history n || refusedAt history n) := by
  have hmem := List.mem_of_getElem? htrial
  obtain ⟨terms, hprotocol⟩ := h.protocol trial hmem ended _ hending
  have hlost := leaseLost_iff hprotocol (hcandid trial hmem)
  rw [Bool.eq_iff_iff, Bool.or_eq_true]
  simpa [lostAt, registeredAt, refusedAt, htrial, Trial.failure?, hending] using hlost

/-- Every trial before one that is over has failed, too. -/
theorem Linked.failsAt_of_le (h : Linked history) (htrial : history[n]? = some trial)
    {ended : Nat} {failure : Failure} (hfails : trial.FailsAt ended failure) {m : Nat}
    (hm : m ≤ n) :
    ∃ earlier ended failure, history[m]? = some earlier ∧ earlier.FailsAt ended failure := by
  rcases Nat.lt_or_eq_of_le hm with hlt | rfl
  · have hn := (List.getElem?_eq_some_iff.mp htrial).1
    have hearlier : history[m]? = some history[m] := List.getElem?_eq_getElem (by omega)
    have hnext : history[m + 1]? = some history[m + 1] := List.getElem?_eq_getElem (by omega)
    obtain ⟨ended, failure, hfails, _⟩ := h.rest hearlier hnext
    exact ⟨_, ended, failure, hearlier, hfails⟩
  · exact ⟨trial, ended, failure, htrial, hfails⟩

/-- Two ways to start the rests over agree when they agree since the latest start of the first. -/
theorem backoff_eq_of_latest {first second : Nat → Bool}
    (hfirst : ∀ m ≤ n, first m = true → second m = true)
    (hlate : ∀ m ≤ n, Nat.findGreatest (fun m => first m = true) n < m → second m = true →
      first m = true) :
    backoff second n = backoff first n := by
  obtain ⟨hle, hstarts, hgreatest⟩ := Nat.findGreatest_eq_iff.mp
    (Eq.refl (Nat.findGreatest (fun m => first m = true) n))
  have hsame : Nat.findGreatest (fun m => second m = true) n =
      Nat.findGreatest (fun m => first m = true) n := by
    refine Nat.findGreatest_eq_iff.mpr ⟨hle, ?_, ?_⟩
    · exact fun hne => hfirst _ hle (hstarts hne)
    · exact fun m hlt hm hsecond => hgreatest hlt hm (hlate m hm hlt hsecond)
  rw [backoff, backoff, hsame]

/-- Without refusals since the last trial in which the instance was registered, the rests start over
just as if only such trials counted. -/
theorem Persists.backoff_eq (h : Persists env₀ client d token history s env)
    (hcandid : Candid history) (htrial : history[n]? = some trial) {ended : Nat} {failure : Failure}
    (hfails : trial.FailsAt ended failure)
    (hrefused : ∀ m ≤ n, Nat.findGreatest (fun m => registeredAt history m = true) n < m →
      refusedAt history m = false) :
    backoff (lostAt history) n = backoff (registeredAt history) n := by
  have hlinked : Linked history := by cases h.standing <;> assumption
  have hlost (m : Nat) (hm : m ≤ n) :
      lostAt history m = (registeredAt history m || refusedAt history m) := by
    obtain ⟨earlier, ended', failure', hearlier, hfails'⟩ := hlinked.failsAt_of_le htrial hfails hm
    exact h.lostAt_eq hcandid hearlier hfails'.1
  apply backoff_eq_of_latest
  · intro m hm hregistered
    rw [hlost m hm, hregistered, Bool.true_or]
  · intro m hm hlate hlosing
    rw [hlost m hm, hrefused m hm hlate, Bool.or_false] at hlosing
    exact hlosing

/-- The rests of a supervisor that runs among others double since the instance was registered the
last time, unless the store has refused to acknowledge renewals since then. -/
theorem Runs.backs_off {others : Environment → Environment → Prop} {spans : List Span}
    (hothers : ∀ env env', others env env' → env.raised ⊆ env'.raised ∧ env'.time = env.time)
    (hrun : Runs others env₀ client d token spans s env) :
    ∃ history, history.map Trial.span = spans ∧ Persists env₀ client d token history s env ∧
      ∀ n trial ended failure, history[n]? = some trial →
        trial.ending = some (ended, some failure) → failure.kind ≠ .misconfigured →
        (∀ m ≤ n, Nat.findGreatest (fun m => registeredAt history m = true) n < m →
          refusedAt history m = false) →
        RestsAfter history s env n ended (backoff (registeredAt history) n) := by
  obtain ⟨_, history, hspans, hcandid, hpersists⟩ := hrun.persists hothers
  refine ⟨history, hspans, hpersists, ?_⟩
  intro n trial ended failure htrial hending hkind hrefused
  rw [← hpersists.backoff_eq hcandid htrial ⟨hending, hkind⟩ hrefused]
  exact hpersists.standing.restsAfter htrial ⟨hending, hkind⟩

/-- Rests double since the instance was registered the last time. Let the store refuse what it is
asked for with no other kinds of failure than belong to it, and let it not have refused to
acknowledge renewals in a trial since the last one in which the instance was registered (or since
the first one). Then the rest after a failure takes a second, doubled with every failure since then,
and a minute at most. -/
theorem backs_off_since_registered (h : Persists env₀ client d token history s env)
    (hcandid : Candid history) (htrial : history[n]? = some trial) {ended : Nat} {failure : Failure}
    (hending : trial.ending = some (ended, some failure)) (hkind : failure.kind ≠ .misconfigured)
    (hrefused : ∀ m ≤ n, Nat.findGreatest (fun m => registeredAt history m = true) n < m →
      refusedAt history m = false) :
    RestsAfter history s env n ended (backoff (registeredAt history) n) := by
  rw [← h.backoff_eq hcandid htrial ⟨hending, hkind⟩ hrefused]
  exact h.standing.restsAfter htrial ⟨hending, hkind⟩

end

/-! ## A registration that is lost -/

/-- What an attempt hears leads it on. -/
theorem converses_heard {a₀ a : Attempt} {env₀ env : Environment} {said : List Utterance}
    {p : Attempt.Progress} {u : Utterance} {event : Registration.Event}
    (h : Converses a₀ env₀ said a env) (hstage : a.stage = .running p)
    (hears : Attempt.Hears a env p u event) :
    let next := (Attempt.follow a.terms p.plan none (Registration.react p.plan p.phase event) env).1
    Converses a₀ env₀ (said ++ u :: next.asks) { a with stage := next } env :=
  .speaks h (.reacts hstage hears none env) (List.Subset.refl _)

/-- What an attempt is answered leads it on. -/
theorem converses_answered {a₀ a : Attempt} {env₀ env : Environment} {said : List Utterance}
    {p : Attempt.Progress} {request : Request} {call : Call}
    (h : Converses a₀ env₀ said a env) (hstage : a.stage = .running p)
    (hpending : p.pending = some (request, call)) (event : Registration.Event)
    (hanswers : Attempt.Answers request event) :
    let next := (Attempt.follow a.terms p.plan none (Registration.react p.plan p.phase event) env).1
    Converses a₀ env₀ (said ++ .heard event :: next.asks) { a with stage := next } env :=
  converses_heard h hstage (.answered hpending hanswers)

/-- An attempt begins by asking for a lease. -/
theorem converses_granting {a : Attempt} {d : Descriptor} {env : Environment}
    (hstage : a.stage = .unstarted d) (hcheck : d.check = .ok ())
    (hcancel : a.isCancelled env = false) :
    ∃ plan call, Converses a env [.call (.grant plan.ttl)]
      { a with stage := .granting plan call } env := by
  obtain ⟨plan, hplan⟩ : ∃ plan, Registration.Plan.make env.localAddress env.now (.random env.bits)
      a.terms.root a.terms.leaseTtl d = .ok plan := by
    rw [Registration.Plan.make, Descriptor.prepare, hcheck]
    exact ⟨_, rfl⟩
  have hstart : (a.start d env).1 = .granting plan (Attempt.callFor a.terms env .grant) := by
    rw [Attempt.start_eq, hplan, hcancel]
    rfl
  have hasks : Converses a env (a.start d env).1.asks { a with stage := (a.start d env).1 } env :=
    .speaks .begin (.start hstage) (List.Subset.refl _)
  rw [hstart] at hasks
  exact ⟨plan, _, hasks⟩

section

variable {env₀ env : Environment} {client : Nat} {d : Descriptor} {token : String}
  {history past : List Trial} {began : Nat} {s : Supervision}

/-- A trial whose first request is refused. -/
theorem Persists.ungranted (h : Persists env₀ client d token (past ++ [.start began]) s env)
    (hstage : s.stage = .trying (s.attempt env)) (hcheck : s.descriptor.check = .ok ())
    (hcancel : (s.attempt env).isCancelled env = false) (failure : Failure) :
    ∃ ttl, Persists env₀ client d token
      (past ++ [⟨began, [.call (.grant ttl), .heard (.granted (.error failure))],
        some (env.time, some failure)⟩])
      (s.conclude (some failure) env).1 (s.conclude (some failure) env).2 := by
  obtain ⟨plan, call, hgranting⟩ := converses_granting rfl hcheck hcancel
  have hover := converses_answered hgranting rfl rfl (.granted (.error failure)) trivial
  exact ⟨plan.ttl, (h.tries hstage hover).concludes rfl rfl⟩

/-- A rest that nobody disturbs. -/
theorem Persists.rested (h : Persists env₀ client d token history s env) (wakeAt : Nat)
    (hstage : s.stage = .resting wakeAt) (hquiet : env.isRaised s.signal = false)
    (hlater : env.time < wakeAt) :
    Persists env₀ client d token (history ++ [.start wakeAt])
      { s with stage := .trying (s.attempt { env with time := wakeAt }) }
      { env with time := wakeAt } := by
  have hidle : s.moves env = [] := by
    rw [moves, hstage]
    simp [hquiet, Nat.not_le.mpr hlater]
  have hrests : Persists env₀ client d token history s { env with time := wakeAt } :=
    h.rests hstage (List.Subset.refl _) (Or.inr ⟨hidle, Nat.le_refl _⟩)
  exact hrests.retries hstage (Nat.le_refl _)

end

/-- A refusal. -/
def busy : Failure := .leaseGrant "busy"

/-- The failure of a registration whose acknowledgements have ended. -/
def streamClosed : Failure :=
  .leaseLost ("keepalive stream for lease " ++ LeaseId.text ⟨1⟩ ++ " closed")

/-- An attempt that is registered, and then hears that there are no more acknowledgements. -/
theorem converses_closed (a : Attempt) {d : Descriptor} (env : Environment)
    (hstage : a.stage = .unstarted d) (hcheck : d.check = .ok ())
    (hcancel : a.isCancelled env = false) :
    ∃ said, said.any opens = true ∧ said.any refuses = false ∧
      (∀ u ∈ said, Attempt.Candid u) ∧
      Converses a env said { a with stage := .finished (some streamClosed) } env := by
  obtain ⟨plan, call, hgranting⟩ := converses_granting hstage hcheck hcancel
  have hpublishing := converses_answered hgranting rfl rfl (.granted (.ok ⟨1⟩)) trivial
  have hopening := converses_answered hpublishing rfl rfl (.published (.ok ())) trivial
  have hheld := converses_answered hopening rfl rfl (.opened (.ok ())) trivial
  have hlost := converses_heard hheld rfl (.acknowledged rfl .closed)
  refine ⟨Attempt.upToKeepAlive plan ⟨1⟩ ++ [.heard (.opened (.ok ())),
    .heard (.acknowledged .closed)], rfl, rfl, ?_, hlost⟩
  intro u hu failure request heq
  subst heq
  cases request <;> simp [Attempt.upToKeepAlive, Attempt.upToPut, Attempt.givenUp] at hu

/-- The rest after a refusal that follows a lost registration is twice as long as the one before. -/
theorem backs_off_since_registered_once :
    ∃ history s env, Persists quiet 0 (.ofAddress "a" "h" "") "t" history s env ∧
      registeredAt history 0 = true ∧ registeredAt history 1 = false ∧
      RestsAfter history s env 1 1000 2 := by
  have hbegin : Persists quiet 0 (.ofAddress "a" "h" "") "t" ([] ++ [.start 0]) supervisor quiet :=
    .begin
  obtain ⟨said, hopens, hrefuses, hcandid, hconverses⟩ :=
    converses_closed (supervisor.attempt quiet) quiet rfl (by decide +kernel) (by decide +kernel)
  have hlost := (hbegin.tries rfl hconverses).concludes rfl rfl
  have hrested := hlost.rested 1000 rfl (by decide +kernel) (by decide +kernel)
  obtain ⟨ttl, hrefused⟩ := hrested.ungranted rfl (by decide +kernel) (by decide +kernel) busy
  refine ⟨_, _, _, hrefused, hopens, rfl, ?_⟩
  refine backs_off_since_registered hrefused ?_ rfl rfl (by decide) ?_
  · intro trial htrial u hu failure request heq
    subst heq
    rcases List.mem_cons.mp htrial with rfl | htrial
    · exact hcandid _ (by simpa using hu) failure request rfl
    · rw [List.mem_singleton.mp htrial] at hu
      cases request with
      | grant =>
          have hfailure : failure = busy := by simpa [Attempt.givenUp] using hu
          rw [hfailure]
          rfl
      | put | keepAlive | scan | revoke => simp [Attempt.givenUp] at hu
  · intro m hm hlate
    have hlast : m = 1 := by omega
    subst hlast
    rfl

/-! ## Refusals to acknowledge renewals -/

/-- The attempt of a supervisor is registered. -/
def isRegistered (s : Supervision) : Bool :=
  match s.stage with
  | .trying ⟨_, _, .running p⟩ => p.phase.standing = .registered
  | _ => false

/-- The millisecond until which a supervisor rests. -/
def restsUntil? (s : Supervision) : Option Nat :=
  match s.stage with
  | .resting wakeAt => some wakeAt
  | _ => none

/-- A fresh environment whose store refuses to acknowledge renewals. -/
def unacknowledged : Environment :=
  { quiet with store := quiet.store.injectFault .keepAlive }

/-- Attempts that are refused acknowledgements do not make the rests grow, although the instance is
never registered. -/
theorem refusals_start_over :
    let run := fun n => persevere n (supervisor, unacknowledged)
    (∀ n ≤ 14, (run n).1.isRegistered = false) ∧
      (run 6).2.time = 0 ∧ (run 6).1.restsUntil? = some 1000 ∧
      (run 14).2.time = 1000 ∧ (run 14).1.restsUntil? = some 2000 := by
  decide +kernel

end Supervision
end ServiceDiscovery
