import Mathlib.Data.List.ModifyLast
import Mathlib.Data.Nat.Find
import ServiceDiscovery.Proofs.Schedule.Conversations
import ServiceDiscovery.Proofs.Schedule.Publications

/-!
# How a supervisor persists

A supervisor makes one attempt after another, whatever comes of them, until it is
told to stop or the description turns out to be at fault.  The rest after a failure
is one second at first and after every lost lease, and doubles otherwise.

Main results:

- Definition {lit}`Supervision.backoff`: the seconds of a rest, counted from the
  latest failure that starts the rests over.
- Theorem {lit}`Supervision.rest_dueAfter`: the rest that a supervisor takes after a
  failure.
- Definition {lit}`Supervision.Persists`: runs of a supervisor whose attempts deal with
  any store, with the trials that it has made.
- Theorem {lit}`Supervision.Persists.standing`: where a supervisor stands after its
  trials.
- Theorem {lit}`Supervision.Runs.persists`: a supervisor that runs among others persists, with
  the trials that are recorded on the way.
- Theorem {lit}`Supervision.Runs.progress`: no such run gets stuck before the supervisor ends.
- Theorem {lit}`Supervision.Runs.until_told`: how such a run ends and how long it rests.
- Theorem {lit}`Supervision.persists_until_told`: when a supervisor ends, and how long it
  rests.
-/

namespace ServiceDiscovery

/-- A second takes a thousand milliseconds. -/
theorem Duration.ceilMillis_ofSeconds (n : Nat) : (Duration.ofSeconds n).ceilMillis = 1000 * n := by
  simp only [Duration.ofSeconds, Duration.ceilMillis, Duration.nanosPerSecond,
    Duration.nanosPerMilli]
  omega

theorem Duration.double_ofSeconds (n : Nat) :
    (Duration.ofSeconds n).double = .ofSeconds (2 * n) :=
  congrArg Duration.mk (Nat.mul_assoc _ _ _).symm

/-- The shorter of two durations has the smaller number of seconds. -/
theorem Duration.shorter_ofSeconds (m n : Nat) :
    (Duration.ofSeconds m).shorter (.ofSeconds n) = .ofSeconds (min m n) := by
  have hle : (Duration.ofSeconds m).nanos ≤ (Duration.ofSeconds n).nanos ↔ m ≤ n :=
    Nat.mul_le_mul_right_iff (by decide)
  unfold Duration.shorter
  by_cases h : m ≤ n
  · rw [if_pos (hle.mpr h), Nat.min_eq_left h]
  · rw [if_neg (mt hle.mp h), Nat.min_eq_right (Nat.le_of_not_le h)]

namespace Supervision

open Attempt (Utterance Converses ToldToStop Tracks)

/-! ## Rests -/

/-- The seconds of the rest after a failure, when some of the failures before it start the rests
over: one second, doubled with every failure since the latest of those, and a minute at most. -/
def backoff (startsOver : Nat → Bool) (n : Nat) : Nat :=
  min (2 ^ (n - Nat.findGreatest (fun m => startsOver m = true) n)) 60

section

variable {startsOver startsOver' : Nat → Bool} {n : Nat}

/-- A failure that starts the rests over is followed by a rest of one second. -/
theorem backoff_of_startsOver (h : startsOver n = true) : backoff startsOver n = 1 := by
  rw [backoff, Nat.findGreatest_eq h, Nat.sub_self]
  rfl

/-- Any other failure is followed by a rest twice as long as the one before, up to a minute. -/
theorem backoff_succ (h : startsOver (n + 1) = false) :
    backoff startsOver (n + 1) = min (2 * backoff startsOver n) 60 := by
  have hle : Nat.findGreatest (fun m => startsOver m = true) n ≤ n := Nat.findGreatest_le n
  rw [backoff, backoff, Nat.findGreatest_of_not (by simp [h]), Nat.succ_sub hle, Nat.pow_succ]
  omega

/-- A rest depends on no failure after it. -/
theorem backoff_congr (h : ∀ m ≤ n, startsOver m = startsOver' m) :
    backoff startsOver n = backoff startsOver' n := by
  induction n with
  | zero => rfl
  | succ n ih =>
      have hbefore := ih fun m hm => h m (Nat.le_succ_of_le hm)
      have hlast := h (n + 1) (Nat.le_refl _)
      cases hover : startsOver (n + 1) with
      | true =>
          rw [hover] at hlast
          rw [backoff_of_startsOver hover, backoff_of_startsOver hlast.symm]
      | false =>
          rw [hover] at hlast
          rw [backoff_succ hover, backoff_succ hlast.symm, hbefore]

/-- The rest that is due next is twice as long, up to a minute. -/
theorem nextDue_ofSeconds (n : Nat) :
    Supervisor.nextDue (.ofSeconds n) = .ofSeconds (min (2 * n) 60) := by
  rw [Supervisor.nextDue, Duration.double_ofSeconds, Supervisor.longestRest,
    Duration.shorter_ofSeconds]

end

/-! ## Trials -/

/-- An attempt of a supervisor: when it began, what was said in it, and when and how it was over. -/
structure Trial where
  began : Nat
  said : List Utterance
  ending : Option (Nat × Option Failure)

/-- The failure with which a trial was over. -/
def Trial.failure? (t : Trial) : Option Failure :=
  t.ending.bind (·.2)

/-- A trial that begins. -/
def Trial.start (time : Nat) : Trial :=
  ⟨time, [], none⟩

/-- What can be seen of a trial from outside: when it began, and when and how it was over. -/
structure Span where
  began : Nat
  ending : Option (Nat × Option Failure)
  deriving DecidableEq

/-- What can be seen of a trial from outside. -/
def Trial.span (t : Trial) : Span :=
  ⟨t.began, t.ending⟩

/-- A trial has lost a lease. -/
def lostAt (history : List Trial) (n : Nat) : Bool :=
  (history[n]?.bind Trial.failure?).any fun failure => failure.kind = .leaseLost

/-- The rest that is due after the next failure. -/
def dueAfter (history : List Trial) : Duration :=
  match history.length with
  | 0 => Supervisor.firstRest
  | n + 1 => Supervisor.nextDue (.ofSeconds (backoff (lostAt history) n))

section

variable {past : List Trial} {trial : Trial} {failure : Failure}

/-- Later trials make no difference to what an earlier one has lost. -/
theorem lostAt_append {n : Nat} (hn : n < past.length) (more : List Trial) :
    lostAt (past ++ more) n = lostAt past n := by
  rw [lostAt, lostAt, List.getElem?_append_left hn]

/-- A trial has lost a lease just if its failure says so. -/
theorem lostAt_length (hfailure : trial.failure? = some failure) (more : List Trial) :
    lostAt (past ++ trial :: more) past.length = decide (failure.kind = .leaseLost) := by
  simp [lostAt, hfailure]

/-- The rest after a failure starts over with a lost lease, and else doubles from the one before. -/
theorem rest_dueAfter (hfailure : trial.failure? = some failure) (more : List Trial) :
    Supervisor.rest (dueAfter past) failure =
      .ofSeconds (backoff (lostAt (past ++ trial :: more)) past.length) := by
  have hlast : lostAt (past ++ trial :: more) past.length = decide (failure.kind = .leaseLost) :=
    lostAt_length hfailure more
  unfold Supervisor.rest
  by_cases hkind : failure.kind = .leaseLost
  · rw [if_pos hkind, backoff_of_startsOver (by rw [hlast, decide_eq_true hkind])]
    rfl
  · rw [if_neg hkind]
    rw [decide_eq_false hkind] at hlast
    unfold dueAfter
    cases hlength : past.length with
    | zero => rfl
    | succ n =>
        rw [hlength] at hlast
        have hbefore : backoff (lostAt past) n = backoff (lostAt (past ++ trial :: more)) n := by
          apply backoff_congr
          intro m hm
          exact (lostAt_append (by omega) _).symm
        dsimp only
        rw [nextDue_ofSeconds, backoff_succ hlast, hbefore]

/-- The rest that is due after a trial follows from the rest that the trial is followed by. -/
theorem dueAfter_concat (past : List Trial) (trial : Trial) :
    dueAfter (past ++ [trial]) =
      Supervisor.nextDue (.ofSeconds (backoff (lostAt (past ++ [trial])) past.length)) := by
  simp [dueAfter]

end

/-! ## Runs -/

/-- Runs of a supervisor whose attempts deal with any store, until it ends; with the trials that it
has made. In between, anything may happen in the environment, except that no signal is taken back
and that time does not pass during a rest while there is something to do. -/
inductive Persists (env₀ : Environment) (client : Nat) (d : Descriptor) (token : String) :
    List Trial → Supervision → Environment → Prop where
  | begin : Persists env₀ client d token [.start env₀.time] (begin env₀ client d token) env₀
  | tries {past : List Trial} {began : Nat} {said more : List Utterance} {s : Supervision}
      {a b : Attempt} {env env' : Environment}
      (before : Persists env₀ client d token (past ++ [⟨began, said, none⟩]) s env)
      (trying : s.stage = .trying a) (converses : Converses a env more b env') :
      Persists env₀ client d token (past ++ [⟨began, said ++ more, none⟩])
        { s with stage := .trying b } env'
  | concludes {past : List Trial} {began : Nat} {said : List Utterance} {s : Supervision}
      {a : Attempt} {env : Environment} {outcome : Option Failure}
      (before : Persists env₀ client d token (past ++ [⟨began, said, none⟩]) s env)
      (trying : s.stage = .trying a) (concluded : a.outcome? = some outcome) :
      Persists env₀ client d token (past ++ [⟨began, said, some (env.time, outcome)⟩])
        (s.conclude outcome env).1 (s.conclude outcome env).2
  | rests {history : List Trial} {s : Supervision} {env env' : Environment} {wakeAt : Nat}
      (before : Persists env₀ client d token history s env) (resting : s.stage = .resting wakeAt)
      (raised : env.raised ⊆ env'.raised)
      (awake : env'.time = env.time ∨ s.moves env = [] ∧ env'.time ≤ wakeAt) :
      Persists env₀ client d token history s env'
  | stops {history : List Trial} {s : Supervision} {env : Environment} {wakeAt : Nat}
      (before : Persists env₀ client d token history s env) (resting : s.stage = .resting wakeAt)
      (told : env.isRaised s.signal = true) :
      Persists env₀ client d token history { s with stage := .finished none } env
  | retries {history : List Trial} {s : Supervision} {env : Environment} {wakeAt : Nat}
      (before : Persists env₀ client d token history s env) (resting : s.stage = .resting wakeAt)
      (rested : wakeAt ≤ env.time) :
      Persists env₀ client d token (history ++ [.start env.time])
        { s with stage := .trying (s.attempt env) } env

/-- After a trial that was over at some moment, a supervisor rests for some seconds: the next trial
began just then, or the supervisor still rests, or it was told to stop meanwhile. -/
def RestsAfter (history : List Trial) (s : Supervision) (env : Environment)
    (n ended seconds : Nat) : Prop :=
  (∃ next, history[n + 1]? = some next ∧ next.began = ended + 1000 * seconds) ∨
    n + 1 = history.length ∧ env.time ≤ ended + 1000 * seconds ∧
      (s.stage = .resting (ended + 1000 * seconds) ∨
        s.stage = .finished none ∧ env.isRaised s.signal = true)

/-! ## Where a supervisor stands -/

/-- A trial has failed in a way that is worth another one. -/
def Trial.FailsAt (t : Trial) (ended : Nat) (failure : Failure) : Prop :=
  t.ending = some (ended, some failure) ∧ failure.kind ≠ .misconfigured

theorem Trial.FailsAt.failure?_eq {t : Trial} {ended : Nat} {failure : Failure}
    (h : t.FailsAt ended failure) : t.failure? = some failure := by
  rw [failure?, h.1]
  rfl

/-- Every trial but the first one began when the rest after the one before was over. -/
inductive Linked : List Trial → Prop where
  | first (trial : Trial) : Linked [trial]
  | next {past : List Trial} {trial next : Trial} {ended : Nat} {failure : Failure}
      (before : Linked (past ++ [trial])) (fails : trial.FailsAt ended failure)
      (began : next.began =
        ended + 1000 * backoff (lostAt (past ++ [trial])) past.length) :
      Linked (past ++ [trial, next])

/-- Where a supervisor stands after its trials. -/
inductive Standing (client : Nat) (d : Descriptor) (token : String) (env : Environment) :
    List Trial → Supervision → Prop where
  | trying {past : List Trial} {began : Nat} {said : List Utterance} {a : Attempt}
      {env₁ : Environment} (linked : Linked (past ++ [⟨began, said, none⟩]))
      (converses : Converses (.unstarted (env₁.terms client (.token token)) d) env₁ said a env) :
      Standing client d token env (past ++ [⟨began, said, none⟩])
        ⟨client, d, token, dueAfter past, .trying a⟩
  | resting {past : List Trial} {trial : Trial} {ended : Nat} {failure : Failure}
      (linked : Linked (past ++ [trial])) (fails : trial.FailsAt ended failure)
      (awake : env.time ≤ ended + 1000 * backoff (lostAt (past ++ [trial])) past.length) :
      Standing client d token env (past ++ [trial])
        ⟨client, d, token, dueAfter (past ++ [trial]),
          .resting (ended + 1000 * backoff (lostAt (past ++ [trial])) past.length)⟩
  | stopped {past : List Trial} {trial : Trial} {ended : Nat} {failure : Failure} {due : Duration}
      (linked : Linked (past ++ [trial])) (fails : trial.FailsAt ended failure)
      (awake : env.time ≤ ended + 1000 * backoff (lostAt (past ++ [trial])) past.length)
      (told : env.isRaised (.token token) = true) :
      Standing client d token env (past ++ [trial]) ⟨client, d, token, due, .finished none⟩
  | left {past : List Trial} {trial : Trial} {ended : Nat} {due : Duration}
      (linked : Linked (past ++ [trial])) (ending : trial.ending = some (ended, none))
      (told : env.isRaised (.token token) = true ∨ env.isRaised (.shutdown client) = true) :
      Standing client d token env (past ++ [trial]) ⟨client, d, token, due, .finished none⟩
  | rejected {past : List Trial} {trial : Trial} {ended : Nat} {failure : Failure} {due : Duration}
      (linked : Linked (past ++ [trial])) (ending : trial.ending = some (ended, some failure))
      (kind : failure.kind = .misconfigured) (told : env.isRaised (.token token) = true) :
      Standing client d token env (past ++ [trial])
        ⟨client, d, token, due, .finished (some failure)⟩

section

variable {env₀ env : Environment} {client : Nat} {d : Descriptor} {token : String}
  {history past : List Trial} {trial next : Trial} {s : Supervision} {a : Attempt} {n : Nat}

/-- When a trial began is all that counts of the last one. -/
theorem Linked.replace (h : Linked (past ++ [trial])) (hbegan : next.began = trial.began) :
    Linked (past ++ [next]) := by
  generalize hhistory : past ++ [trial] = history at h
  cases h with
  | first only =>
      obtain ⟨rfl, _⟩ := List.append_eq_singleton_iff.mp hhistory |>.resolve_right (by simp)
      exact .first next
  | @next past' before last ended failure linked fails began =>
      rw [List.append_cons past' before [last]] at hhistory
      obtain ⟨rfl, hlast⟩ := List.append_inj' hhistory rfl
      rw [List.append_assoc]
      refine .next linked fails ?_
      rw [hbegan, List.singleton_inj.mp hlast]
      exact began

/-- Every trial that was followed by another one failed, and the rest after it was taken. -/
theorem Linked.rest (h : Linked history) (htrial : history[n]? = some trial)
    (hnext : history[n + 1]? = some next) :
    ∃ ended failure, trial.FailsAt ended failure ∧
      next.began = ended + 1000 * backoff (lostAt history) n := by
  induction h with
  | first only => simp at hnext
  | @next past before last ended failure linked fails began ih =>
      rw [List.append_cons] at htrial hnext ⊢
      have hn : n + 1 < (past ++ [before] ++ [last]).length :=
        (List.getElem?_eq_some_iff.mp hnext).1
      simp only [List.length_append, List.length_singleton] at hn
      have hlost (m : Nat) (hm : m ≤ n) : lostAt (past ++ [before]) m =
          lostAt (past ++ [before] ++ [last]) m :=
        (lostAt_append (by simp; omega) _).symm
      rw [List.getElem?_append_left (by simp; omega)] at htrial
      rw [← backoff_congr hlost]
      by_cases hlast : n = past.length
      · subst hlast
        simp only [List.getElem?_append_right, Nat.le_refl, Nat.sub_self] at htrial
        rw [List.getElem?_append_right (by simp)] at hnext
        simp only [List.length_append, List.length_singleton, Nat.sub_self,
          List.getElem?_cons_zero, Option.some.injEq] at htrial hnext
        subst htrial hnext
        exact ⟨ended, failure, fails, began⟩
      · rw [List.getElem?_append_left (by simp; omega)] at hnext
        exact ih htrial hnext

/-- All trials but the last one have failed in a way that was worth another one. -/
theorem Linked.failed (h : Linked (past ++ [trial])) {t : Trial} (ht : t ∈ past) :
    ∃ ended failure, t.FailsAt ended failure := by
  obtain ⟨n, hn⟩ := List.getElem?_of_mem ht
  have hlt := (List.getElem?_eq_some_iff.mp hn).1
  have hnext : ∃ next, (past ++ [trial])[n + 1]? = some next := by
    simp [hlt]
  obtain ⟨next, hnext⟩ := hnext
  obtain ⟨ended, failure, hfails, _⟩ := h.rest (by rwa [List.getElem?_append_left hlt]) hnext
  exact ⟨ended, failure, hfails⟩

/-- While a supervisor tries, its last trial has no ending yet, and what was said in it is what its
attempt has said. -/
theorem Standing.of_trying (h : Standing client d token env history s)
    (hstage : s.stage = .trying a) :
    ∃ past began said env₁, history = past ++ [⟨began, said, none⟩] ∧ Linked history ∧
      Converses (.unstarted (Environment.terms env₁ client (.token token)) d) env₁ said a env ∧
      s = ⟨client, d, token, dueAfter past, .trying a⟩ := by
  cases h with
  | trying linked converses =>
      cases hstage
      exact ⟨_, _, _, _, rfl, linked, converses, rfl⟩
  | resting | stopped | left | rejected => cases hstage

/-- While a supervisor rests, its last trial has failed, and the rest lasts as long as the law
says. -/
theorem Standing.of_resting (h : Standing client d token env history s) {wakeAt : Nat}
    (hstage : s.stage = .resting wakeAt) :
    ∃ past trial ended failure, history = past ++ [trial] ∧ Linked history ∧
      trial.FailsAt ended failure ∧ env.time ≤ wakeAt ∧
      wakeAt = ended + 1000 * backoff (lostAt history) past.length ∧
      s = ⟨client, d, token, dueAfter history, .resting wakeAt⟩ := by
  cases h with
  | resting linked fails awake =>
      cases hstage
      exact ⟨_, _, _, _, rfl, linked, fails, awake, rfl, rfl⟩
  | trying | stopped | left | rejected => cases hstage

/-- The decision after a trial follows from its outcome. -/
theorem Standing.conclude {began : Nat} {said : List Utterance} {outcome : Option Failure}
    (hlinked : Linked (past ++ [⟨began, said, none⟩]))
    (htold : outcome = none →
      env.isRaised (.token token) = true ∨ env.isRaised (.shutdown client) = true) :
    let s : Supervision := ⟨client, d, token, dueAfter past, .trying a⟩
    Standing client d token (s.conclude outcome env).2
      (past ++ [⟨began, said, some (env.time, outcome)⟩]) (s.conclude outcome env).1 := by
  have hlinked' : Linked (past ++ [⟨began, said, some (env.time, outcome)⟩]) :=
    hlinked.replace rfl
  cases outcome with
  | none => exact .left hlinked' rfl (htold rfl)
  | some failure =>
      by_cases hkind : failure.kind = .misconfigured
      · simp only [Supervision.conclude, Supervisor.judge, if_pos hkind]
        refine .rejected hlinked' rfl hkind ?_
        simp [Environment.isRaised, Environment.raise, signal]
      · have hfails : Trial.failure? ⟨began, said, some (env.time, some failure)⟩ = some failure :=
          rfl
        simp only [Supervision.conclude, Supervisor.judge, if_neg hkind]
        rw [rest_dueAfter hfails [], Duration.ceilMillis_ofSeconds, ← dueAfter_concat]
        exact .resting hlinked' ⟨rfl, hkind⟩ (Nat.le_add_right _ _)

/-- Where a supervisor stands in a run. -/
theorem Persists.standing (h : Persists env₀ client d token history s env) :
    Standing client d token env history s := by
  induction h with
  | begin =>
      have hlinked : Linked ([] ++ [.start env₀.time]) := .first _
      exact .trying hlinked .begin
  | tries before trying converses ih =>
      obtain ⟨past, began, said, env₁, hhistory, hlinked, hconverses, rfl⟩ := ih.of_trying trying
      obtain ⟨rfl, htrial⟩ := List.append_inj' hhistory rfl
      cases htrial
      exact .trying (hlinked.replace rfl) (hconverses.append converses)
  | concludes before trying concluded ih =>
      obtain ⟨past, began, said, env₁, hhistory, hlinked, hconverses, rfl⟩ := ih.of_trying trying
      obtain ⟨rfl, htrial⟩ := List.append_inj' hhistory rfl
      cases htrial
      refine Standing.conclude hlinked ?_
      rintro rfl
      obtain ⟨_, _, htracks⟩ := hconverses.tracks
      rw [Attempt.finished_of_outcome concluded] at htracks
      cases htracks with
      | finished left _ =>
          rcases left rfl with hshutdown | ⟨signal, hsignal, htoken⟩
          · exact Or.inr hshutdown
          · cases hsignal
            exact Or.inl htoken
  | rests before resting raised awake ih =>
      obtain ⟨past, trial, ended, failure, rfl, hlinked, hfails, htime, rfl, rfl⟩ :=
        ih.of_resting resting
      refine .resting hlinked hfails ?_
      rcases awake with hsame | ⟨_, hle⟩
      · rw [hsame]
        exact htime
      · exact hle
  | stops before resting told ih =>
      obtain ⟨past, trial, ended, failure, rfl, hlinked, hfails, htime, rfl, rfl⟩ :=
        ih.of_resting resting
      exact .stopped hlinked hfails htime told
  | @retries history s env wakeAt before resting rested ih =>
      obtain ⟨past, trial, ended, failure, rfl, hlinked, hfails, htime, hwake, rfl⟩ :=
        ih.of_resting resting
      have hbegan := Nat.le_antisymm htime rested
      rw [hwake] at hbegan
      have hnext : Linked (past ++ [trial] ++ [.start env.time]) := by
        rw [List.append_assoc]
        exact .next hlinked hfails hbegan
      exact .trying hnext .begin

/-- What follows a failure that is worth another attempt. -/
theorem Standing.restsAfter (h : Standing client d token env history s)
    (htrial : history[n]? = some trial) {ended : Nat} {failure : Failure}
    (hfails : trial.FailsAt ended failure) :
    RestsAfter history s env n ended (backoff (lostAt history) n) := by
  have hlinked : Linked history := by cases h <;> assumption
  cases hnext : history[n + 1]? with
  | some next =>
      obtain ⟨ended', failure', hfails', hbegan⟩ := hlinked.rest htrial hnext
      have hended := hfails.1.symm.trans hfails'.1
      cases hended
      exact Or.inl ⟨next, hnext, hbegan⟩
  | none =>
      have hn : n + 1 = history.length := by
        have hlt := (List.getElem?_eq_some_iff.mp htrial).1
        have hle := List.getElem?_eq_none_iff.mp hnext
        omega
      have hlast {past : List Trial} {last : Trial} (hhistory : history = past ++ [last]) :
          n = past.length ∧ trial = last := by
        subst hhistory
        have hlength : n = past.length := by simpa using hn
        subst hlength
        exact ⟨rfl, by simpa using htrial.symm⟩
      right
      refine ⟨hn, ?_⟩
      cases h with
      | trying linked converses =>
          obtain ⟨_, rfl⟩ := hlast rfl
          cases hfails.1
      | resting linked fails awake =>
          obtain ⟨rfl, rfl⟩ := hlast rfl
          cases hfails.1.symm.trans fails.1
          exact ⟨awake, Or.inl rfl⟩
      | stopped linked fails awake told =>
          obtain ⟨rfl, rfl⟩ := hlast rfl
          cases hfails.1.symm.trans fails.1
          exact ⟨awake, Or.inr ⟨rfl, told⟩⟩
      | left linked ending told =>
          obtain ⟨_, rfl⟩ := hlast rfl
          cases hfails.1.symm.trans ending
      | rejected linked ending kind told =>
          obtain ⟨_, rfl⟩ := hlast rfl
          cases hfails.1.symm.trans ending
          exact absurd kind hfails.2

/-- Once a description was rejected, the supervisor has ended with that failure. -/
theorem Standing.rejected_iff (h : Standing client d token env history s) (failure : Failure) :
    s.stage = .finished (some failure) ↔
      ∃ trial ∈ history, trial.failure? = some failure ∧ failure.kind = .misconfigured := by
  have hearlier {past : List Trial} {last : Trial} (hlinked : Linked (past ++ [last]))
      (hlast : last.failure? = some failure → failure.kind ≠ .misconfigured) :
      ¬ ∃ trial ∈ past ++ [last],
        trial.failure? = some failure ∧ failure.kind = .misconfigured := by
    rintro ⟨trial, htrial, hfailure, hkind⟩
    rcases List.mem_append.mp htrial with htrial | htrial
    · obtain ⟨ended, failure', hfails⟩ := hlinked.failed htrial
      cases hfailure.symm.trans hfails.failure?_eq
      exact hfails.2 hkind
    · rw [List.mem_singleton.mp htrial] at hfailure
      exact hlast hfailure hkind
  cases h with
  | trying linked converses => simpa using hearlier linked nofun
  | resting linked fails awake =>
      refine iff_of_false nofun (hearlier linked ?_)
      intro hfailure
      cases hfailure.symm.trans fails.failure?_eq
      exact fails.2
  | stopped linked fails awake told =>
      refine iff_of_false nofun (hearlier linked ?_)
      intro hfailure
      cases hfailure.symm.trans fails.failure?_eq
      exact fails.2
  | left linked ending told =>
      refine iff_of_false nofun (hearlier linked ?_)
      intro hfailure
      rw [Trial.failure?, ending] at hfailure
      cases hfailure
  | @rejected past trial ended failure' due linked ending kind told =>
      have hfailure' : trial.failure? = some failure' := by
        rw [Trial.failure?, ending]
        rfl
      constructor
      · rintro ⟨⟩
        exact ⟨trial, by simp, hfailure', kind⟩
      · rintro ⟨t, ht, hfailure, hkind⟩
        by_contra hne
        refine hearlier linked ?_ ⟨t, ht, hfailure, hkind⟩
        intro hlast
        cases hlast.symm.trans hfailure'
        exact absurd rfl hne

/-! ## Steps of a supervisor -/

variable {t : Supervision}

/-- Every refusal in a history is of the kind that belongs to what was asked for. -/
def Candid (history : List Trial) : Prop :=
  ∀ trial ∈ history, ∀ u ∈ trial.said, Attempt.Candid u

theorem Candid.last (h : Candid (past ++ [trial])) : ∀ u ∈ trial.said, Attempt.Candid u :=
  h trial (by simp)

/-- Only what was said in the last trial has changed. -/
theorem Candid.replace (h : Candid (past ++ [trial])) (hsaid : ∀ u ∈ next.said, Attempt.Candid u) :
    Candid (past ++ [next]) := by
  intro t ht
  rcases List.mem_append.mp ht with ht | ht
  · exact h t (List.mem_append_left _ ht)
  · rw [List.mem_singleton.mp ht]
    exact hsaid

/-- In a trial that begins nothing was said yet. -/
theorem Candid.start (h : Candid history) (time : Nat) : Candid (history ++ [.start time]) := by
  intro t ht
  rcases List.mem_append.mp ht with ht | ht
  · exact h t ht
  · rw [List.mem_singleton.mp ht]
    exact fun u hu => absurd hu List.not_mem_nil

/-- The attempt of a supervisor is in order. -/
def InOrder (s : Supervision) : Prop :=
  ∀ a, s.stage = .trying a → a.stage.InOrder

/-- The record of the trials after a step of a supervisor: the one that is over gets its ending, and
one that begins is added. -/
def recorded (spans : List Span) (env : Environment) (s t : Supervision) : List Span :=
  match s.stage, t.stage with
  | .trying _, .trying _ => spans
  | .trying a, _ =>
    spans.modifyLast fun span => { span with ending := a.outcome?.map (env.time, ·) }
  | _, .trying _ => spans ++ [⟨env.time, none⟩]
  | _, _ => spans

/-- While a trial goes on, nothing is recorded. -/
theorem recorded_trying {b : Attempt} (spans : List Span) (env : Environment)
    (hs : s.stage = .trying a) (ht : t.stage = .trying b) : recorded spans env s t = spans := by
  unfold recorded
  rw [hs, ht]

/-- The ending of a trial is recorded with its moment and its outcome. -/
theorem recorded_over {began : Nat} {outcome : Option Failure} (spans : List Span)
    (env : Environment) (hs : s.stage = .trying a) (hover : a.outcome? = some outcome)
    (ht : ∀ b, t.stage ≠ .trying b) :
    recorded (spans ++ [⟨began, none⟩]) env s t =
      spans ++ [⟨began, some (env.time, outcome)⟩] := by
  unfold recorded
  rw [hs]
  cases hstage : t.stage with
  | trying b => exact absurd hstage (ht b)
  | resting wakeAt =>
      dsimp only
      rw [List.modifyLast_concat, hover]
      rfl
  | finished failure =>
      dsimp only
      rw [List.modifyLast_concat, hover]
      rfl

/-- A supervisor that stays where it is records nothing. -/
theorem recorded_self (spans : List Span) (env : Environment) (s : Supervision) :
    recorded spans env s s = spans := by
  unfold recorded
  cases s.stage <;> rfl

/-- A supervisor in an environment persists there, whatever others do, and its trials are as they
are recorded. -/
theorem persists_of_openStep {others : Environment → Environment → Prop} {env' : Environment}
    (hothers : ∀ env env', others env env' → env.raised ⊆ env'.raised ∧ env'.time = env.time)
    (h : Persists env₀ client d token history s env) (hcandid : Candid history)
    (horder : s.InOrder) (hgoing : ∀ outcome, s.stage ≠ .finished outcome)
    (hstep : OpenStep moves dueAt others s env t env') :
    t.InOrder ∧ ∃ history', history'.map Trial.span = recorded (history.map Trial.span) env s t ∧
      Candid history' ∧ Persists env₀ client d token history' t env' := by
  have hattempt {a b : Attempt} (hstage : s.stage = .trying a)
      (hstep : OpenStep Attempt.moves Attempt.dueAt others a env b env') :
      InOrder { s with stage := .trying b } ∧ ∃ history',
        history'.map Trial.span = history.map Trial.span ∧ Candid history' ∧
          Persists env₀ client d token history' { s with stage := .trying b } env' := by
    obtain ⟨past, began, said, env₁, rfl, _⟩ := h.standing.of_trying hstage
    obtain ⟨hnext, more, hmore, hconverses⟩ := Attempt.converses_of_openStep (horder a hstage)
      (fun env env' hothers' => (hothers env env' hothers').1) .begin hstep
    refine ⟨?_, _, by simp [Trial.span], ?_, h.tries hstage hconverses⟩
    · rintro _ ⟨⟩
      exact hnext
    · refine hcandid.replace fun u hu => ?_
      rcases List.mem_append.mp hu with hu | hu
      · exact hcandid.last u hu
      · exact hmore u hu
  have hsame {a : Attempt} (hstage : s.stage = .trying a) : { s with stage := .trying a } = s := by
    rw [← hstage]
  cases hstep with
  | move hmove =>
      rcases moves_spec hmove with ⟨a, b, hstage, hnext, rfl⟩ |
        ⟨a, outcome, hstage, hover, hdecides⟩ | ⟨wakeAt, hstage, rfl, ⟨htold, rfl⟩ | ⟨hrested, rfl⟩⟩
      · rw [recorded_trying _ env hstage rfl]
        exact hattempt hstage (.move hnext)
      · obtain ⟨past, began, said, env₁, rfl, _⟩ := h.standing.of_trying hstage
        have hconcludes := h.concludes hstage hover
        have hnone := (conclude_spec s outcome env).2.2
        rw [← hdecides] at hconcludes hnone
        refine ⟨fun b hb => absurd hb (hnone b), _, ?_, ?_, hconcludes⟩
        · rw [List.map_append, List.map_append]
          exact (recorded_over _ env hstage hover hnone).symm
        · exact hcandid.replace hcandid.last
      · refine ⟨fun b hb => (nomatch hb), history, ?_, hcandid, h.stops hstage htold⟩
        simp only [recorded, hstage]
      · refine ⟨?_, _, ?_, hcandid.start _, h.retries hstage hrested⟩
        · rintro _ ⟨⟩
          exact .unstarted s.descriptor
        · simp only [recorded, hstage, List.map_append]
          rfl
  | pass time idle later awake =>
      rw [recorded_self]
      cases hstage : s.stage with
      | finished outcome => exact absurd hstage (hgoing outcome)
      | trying a =>
          obtain ⟨hattempting, hidle⟩ := attempt_of_idle hstage idle
          rw [dueAt_of_trying hstage hattempting] at awake
          have hpass := hattempt hstage (.pass time hidle later awake)
          rwa [hsame hstage] at hpass
      | resting wakeAt =>
          have hle := awake wakeAt (by rw [dueAt, hstage])
          exact ⟨horder, history, rfl, hcandid,
            h.rests hstage (List.Subset.refl _) (Or.inr ⟨idle, hle⟩)⟩
  | meddle hmeddle =>
      rw [recorded_self]
      obtain ⟨hraised, htime⟩ := hothers env env' hmeddle
      cases hstage : s.stage with
      | finished outcome => exact absurd hstage (hgoing outcome)
      | trying a =>
          have hmeanwhile := hattempt hstage (.meddle hmeddle)
          rwa [hsame hstage] at hmeanwhile
      | resting wakeAt =>
          exact ⟨horder, history, rfl, hcandid, h.rests hstage hraised (Or.inl htime)⟩

/-- Runs of a supervisor among others, until it ends; with the record of its trials. -/
inductive Runs (others : Environment → Environment → Prop) (env₀ : Environment) (client : Nat)
    (d : Descriptor) (token : String) : List Span → Supervision → Environment → Prop where
  | begin : Runs others env₀ client d token [⟨env₀.time, none⟩] (begin env₀ client d token) env₀
  | step {spans : List Span} {s t : Supervision} {env env' : Environment}
      (run : Runs others env₀ client d token spans s env)
      (going : ∀ outcome, s.stage ≠ .finished outcome)
      (step : OpenStep moves dueAt others s env t env') :
      Runs others env₀ client d token (recorded spans env s t) t env'

/-- A supervisor that runs in an environment persists there, with the trials that are recorded. -/
theorem Runs.persists {others : Environment → Environment → Prop} {spans : List Span}
    (hothers : ∀ env env', others env env' → env.raised ⊆ env'.raised ∧ env'.time = env.time)
    (hrun : Runs others env₀ client d token spans s env) :
    s.InOrder ∧ ∃ history, history.map Trial.span = spans ∧ Candid history ∧
      Persists env₀ client d token history s env := by
  induction hrun with
  | begin =>
      have hcandid : Candid [] := nofun
      refine ⟨?_, [.start env₀.time], rfl, hcandid.start env₀.time, .begin⟩
      rintro _ ⟨⟩
      exact .unstarted d
  | step run going step ih =>
      obtain ⟨horder, history, rfl, hcandid, hpersists⟩ := ih
      exact persists_of_openStep hothers hpersists hcandid horder going step

/-- No run of a supervisor gets stuck: until it ends, the supervisor has a move, or time can pass up to
a moment at which it has one. -/
theorem Runs.progress {others : Environment → Environment → Prop} {spans : List Span}
    (hothers : ∀ env env', others env env' → env.raised ⊆ env'.raised ∧ env'.time = env.time)
    (hrun : Runs others env₀ client d token spans s env)
    (hgoing : ∀ outcome, s.stage ≠ .finished outcome) :
    s.moves env ≠ [] ∨ ∃ due, OpenStep moves dueAt others s env s { env with time := due } ∧
      s.moves { env with time := due } ≠ [] := by
  obtain ⟨horder, history, _, _, hpersists⟩ := hrun.persists hothers
  by_cases hidle : s.moves env = []
  · have hdue : ∃ due, s.dueAt = some due := by
      cases hstage : s.stage with
      | finished outcome => exact absurd hstage (hgoing outcome)
      | resting wakeAt => exact ⟨wakeAt, by rw [dueAt, hstage]⟩
      | trying a =>
          obtain ⟨_, _, _, env₁, _, _, hconverses, _⟩ := hpersists.standing.of_trying hstage
          have hterms : a.terms = env₁.terms client (.token token) := hconverses.tracks.1
          have hattempting := (attempt_of_idle hstage hidle).1
          rw [dueAt_of_trying hstage hattempting]
          exact Attempt.dueAt_of_inOrder (horder a hstage) (by rw [hterms]; rfl) hattempting
    obtain ⟨due, hdue⟩ := hdue
    exact Or.inr ⟨due, OpenStep.wait (fun _ => time_lt_of_idle) hidle hdue⟩
  · exact Or.inl hidle

/-- A supervisor that ends with a failure has given its token. -/
theorem Standing.told_of_rejected (h : Standing client d token env history s) {failure : Failure}
    (hstage : s.stage = .finished (some failure)) : env.isRaised (.token token) = true := by
  cases h with
  | rejected linked ending kind told => exact told
  | trying | resting | stopped | left => cases hstage

/-- A supervisor ends without a failure only when it was told to. -/
theorem Standing.told_of_finished (h : Standing client d token env history s)
    (hstage : s.stage = .finished none) :
    env.isRaised (.token token) = true ∨ env.isRaised (.shutdown client) = true := by
  cases h with
  | stopped linked fails awake told => exact Or.inl told
  | left linked ending told => exact told
  | trying | resting | rejected => cases hstage

/-- Whatever others do, a supervisor that runs among them persists until it is told to stop:

- it ends with a failure exactly when an attempt has ended with a description that cannot be
  published; that is the failure then, and the token has been given;
- it ends without a failure only after its token was given or the client was shut down;
- after every other failure that is recorded it makes another attempt when it has rested, unless
  the token is given meanwhile. The rest takes a second, doubled with every failure since the latest
  lost lease (or since the first failure), and a minute at most. -/
theorem Runs.until_told {others : Environment → Environment → Prop} {spans : List Span}
    (hothers : ∀ env env', others env env' → env.raised ⊆ env'.raised ∧ env'.time = env.time)
    (hrun : Runs others env₀ client d token spans s env) :
    ∃ history, history.map Trial.span = spans ∧ Persists env₀ client d token history s env ∧
      (∀ failure, s.stage = .finished (some failure) ↔
        ∃ trial ∈ history, trial.failure? = some failure ∧ failure.kind = .misconfigured) ∧
      (∀ failure, s.stage = .finished (some failure) → env.isRaised (.token token) = true) ∧
      (s.stage = .finished none →
        env.isRaised (.token token) = true ∨ env.isRaised (.shutdown client) = true) ∧
      ∀ n trial ended failure, history[n]? = some trial →
        trial.ending = some (ended, some failure) → failure.kind ≠ .misconfigured →
        RestsAfter history s env n ended (backoff (lostAt history) n) := by
  obtain ⟨_, history, hspans, _, hpersists⟩ := hrun.persists hothers
  have hstanding := hpersists.standing
  refine ⟨history, hspans, hpersists, hstanding.rejected_iff,
    fun failure => hstanding.told_of_rejected, hstanding.told_of_finished, ?_⟩
  intro n trial ended failure htrial hending hkind
  exact hstanding.restsAfter htrial ⟨hending, hkind⟩

/-- Supervisors persist. Whatever a store does to the attempts of a supervisor, and whenever a
signal is given:

- the supervisor ends with a failure exactly when an attempt ends with a description that cannot be
  published; that is the failure then, and the token has been given;
- it ends without a failure only after its token was given or the client was shut down;
- after every other failure it makes another attempt when it has rested, unless the token is given
  meanwhile. The rest takes a second, doubled with every failure since the latest lost lease (or
  since the first failure), and a minute at most. -/
theorem persists_until_told (h : Persists env₀ client d token history s env) :
    (∀ failure, s.stage = .finished (some failure) ↔
      ∃ trial ∈ history, trial.failure? = some failure ∧ failure.kind = .misconfigured) ∧
      (∀ failure, s.stage = .finished (some failure) → env.isRaised (.token token) = true) ∧
      (s.stage = .finished none →
        env.isRaised (.token token) = true ∨ env.isRaised (.shutdown client) = true) ∧
      ∀ n trial ended failure, history[n]? = some trial →
        trial.ending = some (ended, some failure) → failure.kind ≠ .misconfigured →
        RestsAfter history s env n ended (backoff (lostAt history) n) := by
  have hstanding := h.standing
  refine ⟨hstanding.rejected_iff, fun failure => hstanding.told_of_rejected,
    hstanding.told_of_finished, ?_⟩
  intro n trial ended failure htrial hending hkind
  exact hstanding.restsAfter htrial ⟨hending, hkind⟩

end

/-! ## A supervisor whose grants are refused -/

/-- A supervisor that proceeds by itself for some number of steps. -/
def persevere : Nat → Supervision × Environment → Supervision × Environment
  | 0, x => x
  | n + 1, x => proceed moves dueAt (persevere n x).1 (persevere n x).2

/-- The record of the trials that it makes. -/
def recordOf : Nat → Supervision × Environment → List Span
  | 0, x => [⟨x.2.time, none⟩]
  | n + 1, x =>
    recorded (recordOf n x) (persevere n x).2 (persevere n x).1 (persevere (n + 1) x).1

/-- A supervisor that proceeds by itself runs, also when nobody else does anything. -/
theorem runs_persevere (others : Environment → Environment → Prop) (env₀ : Environment)
    (client : Nat) (d : Descriptor) (token : String) (n : Nat) :
    let x := (begin env₀ client d token, env₀)
    Runs others env₀ client d token (recordOf n x) (persevere n x).1 (persevere n x).2 := by
  intro x
  induction n with
  | zero => exact .begin
  | succ n ih =>
      have hstill (h : proceed moves dueAt (persevere n x).1 (persevere n x).2 = persevere n x) :
          Runs others env₀ client d token (recordOf (n + 1) x) (persevere (n + 1) x).1
            (persevere (n + 1) x).2 := by
        rw [recordOf, persevere, h, recorded_self]
        exact ih
      rcases openStep_proceed moves dueAt others (persevere n x).1 (persevere n x).2 with
        hsame | hstep
      · exact hstill hsame
      · by_cases hover : ∃ outcome, (persevere n x).1.stage = .finished outcome
        · obtain ⟨outcome, hover⟩ := hover
          apply hstill
          rw [proceed, moves, dueAt, hover]
        · exact ih.step (fun outcome houtcome => hover ⟨outcome, houtcome⟩) hstep

/-- A fresh environment whose store refuses to grant leases. -/
def ungranting : Environment :=
  { quiet with store := quiet.store.injectFault .grant }

/-- What a supervisor hears there. -/
def ungranted : Failure := MemoryStore.fault .grant

/-- After two refusals the supervisor rests for two seconds. -/
theorem persists_until_told_refused :
    let x := persevere 8 (begin ungranting 0 (.ofAddress "a" "h" "") "t", ungranting)
    ∃ history, Persists ungranting 0 (.ofAddress "a" "h" "") "t" history x.1 x.2 ∧
      history.map Trial.span =
        [⟨0, some (0, some ungranted)⟩, ⟨1000, some (1000, some ungranted)⟩] ∧
      RestsAfter history x.1 x.2 1 1000 2 := by
  intro x
  have hrun := runs_persevere (fun _ _ => False) ungranting 0 (.ofAddress "a" "h" "") "t" 8
  obtain ⟨_, history, hrecord, _, hpersists⟩ := hrun.persists fun _ _ => False.elim
  have hspans : history.map Trial.span =
      [⟨0, some (0, some ungranted)⟩, ⟨1000, some (1000, some ungranted)⟩] := by
    rw [hrecord]
    decide +kernel
  refine ⟨history, hpersists, hspans, ?_⟩
  -- What was said is open, but the endings are known, and the rest depends on nothing else.
  obtain ⟨⟨_, said, _⟩, rest, rfl, ⟨⟩, hrest⟩ := List.map_eq_cons_iff.mp hspans
  obtain ⟨⟨_, said', _⟩, rest', rfl, ⟨⟩, hnone⟩ := List.map_eq_cons_iff.mp hrest
  exact (persists_until_told hpersists).2.2.2 1 _ 1000 ungranted rfl rfl (by decide)

end Supervision
end ServiceDiscovery
