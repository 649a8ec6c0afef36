import Mathlib.Data.List.Chain
import ServiceDiscovery.Proofs.Schedule.TaskDeeds
import ServiceDiscovery.Proofs.Schedule.Timing

/-!
# How far apart the refreshes of a watch are

A watch refreshes again and again.  Its ticker starts the next scan one interval
after the last one was started, or as soon as that one is over if it took longer.
So the time between two refreshes depends on how long two scans in a row take.

Main results:

- Definition {lit}`Patrol.Runs`: runs of a watch among others in which every scan
  succeeds, with a record of how long the scans took.
- Theorem {lit}`Patrol.turn_of_step`: the few things that a watch can do.
- Definition {lit}`Patrol.Steady`: no two scans in a row keep refreshes apart for
  as long as some window.
- Theorem {lit}`Patrol.timely_of_runs`: if the scans are steady, then at every moment of
  a run the next refresh comes within the window.
-/

namespace ServiceDiscovery

/-- A watch in its environment. -/
structure Patrol where
  watch : Watch
  env : Environment
  /-- The milliseconds that its scans take, the latest one in front. -/
  delays : List Nat

namespace Patrol

variable {others : Environment → Environment → Prop} {stays : Environment → Prop}
  {p q : Patrol}

/-! ## Runs -/

/-- What a client's watch is at its beginning. -/
def begin (env : Environment) (client : Nat) : Patrol :=
  ⟨(Watch.begin env client).1, (Watch.begin env client).2, []⟩

/-- The record of the scans once the watch has changed: a scan that begins now is entered. -/
def record (p : Patrol) (w : Watch) : List Nat :=
  match p.watch.stage, w.stage with
  | .waiting, .refreshing _ => p.env.delays .get :: p.delays
  | _, _ => p.delays

/-- One step of a watch among others, in which a scan succeeds if it ends. -/
structure Step (others : Environment → Environment → Prop) (p q : Patrol) : Prop where
  step : OpenStep Watch.moves Watch.dueAt others p.watch p.env q.watch q.env
  delays : q.delays = p.record q.watch
  succeeds : ∀ call, p.watch.stage = .refreshing call → q.watch.stage = .waiting →
    ∃ n, (p.env.refresh p.watch.client p.watch.root).1 = .ok n
  numbers : 1 ≤ q.env.store.nextLease.toInt

/-- Runs of a watch among others, with something that stays as it is. -/
inductive Runs (others : Environment → Environment → Prop) (stays : Environment → Prop)
    (p : Patrol) : Patrol → Prop where
  | refl : Runs others stays p p
  | tail {q q' : Patrol} (run : Runs others stays p q) (stay : stays q.env)
      (step : q.Step others q') : Runs others stays p q'

/-- Something that others do while neither time nor the clock changes. -/
def Meanwhile (allowed : Deed → Prop) (env env' : Environment) : Prop :=
  ∃ deed, allowed deed ∧ env.Does deed env' ∧ env'.time = env.time ∧ env'.clock = env.clock

/-! ## What a watch can do -/

/-- The steps of a watch, one by one. -/
inductive Turn (others : Environment → Environment → Prop) (p : Patrol) : Patrol → Prop where
  | stop (waiting : p.watch.stage = .waiting) :
      Turn others p ⟨(p.watch.stop p.env).1, (p.watch.stop p.env).2, p.delays⟩
  | tick (waiting : p.watch.stage = .waiting) (due : p.watch.ticker.dueAt ≤ p.env.time) :
      Turn others p ⟨(p.watch.tick p.env).1, p.env, p.env.delays .get :: p.delays⟩
  | conclude {call : Call} {n : Nat} (refreshing : p.watch.stage = .refreshing call)
      (ended : call.endsAt ≤ p.env.time)
      (succeeds : (p.env.refresh p.watch.client p.watch.root).1 = .ok n) :
      Turn others p
        ⟨(p.watch.conclude call p.env).1, (p.watch.conclude call p.env).2, p.delays⟩
  | pass (time : Nat) (later : p.env.time ≤ time)
      (awake : ∀ due, p.watch.dueAt = some due → time ≤ due) :
      Turn others p { p with env := { p.env with time } }
  | meddle {env : Environment} (h : others p.env env) : Turn others p { p with env }

/-- Every move of a watch is a turn of its patrol, if its refreshes succeed. -/
theorem turn_of_move {w : Watch} {env : Environment} (h : (w, env) ∈ p.watch.moves p.env)
    (hsucceeds : ∀ call, p.watch.stage = .refreshing call → w.stage = .waiting →
      ∃ n, (p.env.refresh p.watch.client p.watch.root).1 = .ok n) :
    Turn others p ⟨w, env, p.record w⟩ := by
  unfold Watch.moves at h
  cases hstage : p.watch.stage with
  | finished =>
      rw [hstage] at h
      cases h
  | refreshing call =>
      simp only [hstage] at h
      split at h
      · rename_i hover
        obtain ⟨rfl, rfl⟩ := Prod.mk.inj (List.mem_singleton.mp h)
        obtain ⟨n, hn⟩ := hsucceeds call hstage rfl
        have hturn : Turn others p _ := .conclude hstage hover hn
        unfold record
        rw [hstage]
        exact hturn
      · cases h
  | waiting =>
      simp only [hstage] at h
      rcases List.mem_append.mp h with h | h
      · split at h
        · obtain ⟨rfl, rfl⟩ := Prod.mk.inj (List.mem_singleton.mp h)
          have hturn : Turn others p _ := .stop hstage
          unfold record
          rw [hstage]
          exact hturn
        · cases h
      · split at h
        · rename_i hdue
          obtain ⟨rfl, rfl⟩ := Prod.mk.inj (List.mem_singleton.mp h)
          have hturn : Turn others p _ := .tick hstage hdue
          unfold record
          rw [hstage]
          exact hturn
        · cases h

/-- The record does not change while the watch does not. -/
theorem record_self (p : Patrol) : p.record p.watch = p.delays := by
  unfold record
  split
  · rename_i hwaiting hrefreshing
    rw [hwaiting] at hrefreshing
    cases hrefreshing
  · rfl

/-- Every step is one of these. -/
theorem turn_of_step (h : p.Step others q) : Turn others p q := by
  rcases p with ⟨w, env, delays⟩
  rcases q with ⟨w', env', delays'⟩
  obtain ⟨hstep, hdelays, hsucceeds, _⟩ := h
  simp only at hstep hdelays hsucceeds
  subst hdelays
  cases hstep with
  | move hmove => exact turn_of_move hmove hsucceeds
  | pass time idle later awake =>
      rw [record_self ⟨w, env, delays⟩]
      exact .pass time later awake
  | meddle hothers =>
      rw [record_self ⟨w, env, delays⟩]
      exact .meddle hothers

/-! ## What never changes -/

/-- A watch differs from another one in where it stands at most. -/
def Follows (w w' : Watch) : Prop :=
  ∃ deadline stage, w' = { w with ticker := { w.ticker with deadline }, stage }

theorem Follows.refl (w : Watch) : Follows w w :=
  ⟨w.ticker.deadline, w.stage, rfl⟩

theorem Follows.trans {w w' w'' : Watch} (h : Follows w w') (h' : Follows w' w'') :
    Follows w w'' := by
  obtain ⟨_, _, rfl⟩ := h
  obtain ⟨deadline, stage, rfl⟩ := h'
  exact ⟨deadline, stage, rfl⟩

/-- A turn changes nothing of a watch but where it stands. -/
theorem Turn.follows (h : Turn others p q) : Follows p.watch q.watch := by
  cases h with
  | stop => exact ⟨p.watch.ticker.deadline, .finished, rfl⟩
  | tick => exact ⟨_, _, rfl⟩
  | @conclude call => exact ⟨p.watch.ticker.deadline, .waiting, rfl⟩
  | pass => exact .refl p.watch
  | meddle => exact .refl p.watch

/-- The environment after a refresh that was under way. -/
theorem env_conclude {w : Watch} {call : Call} (env : Environment)
    (hanswered : call.isAnswered = true) :
    (w.conclude call env).2 =
      (env.refresh w.client w.root).2.say [w.report (env.refresh w.client w.root).1] := by
  unfold Watch.conclude
  rw [if_pos hanswered]

/-- The end of a refresh changes the store, a registry and the log at most. -/
theorem sameSetting_conclude (w : Watch) (call : Call) (env : Environment) :
    env.SameSetting (w.conclude call env).2 := by
  by_cases hanswered : call.isAnswered = true
  · rw [env_conclude env hanswered]
    exact (Environment.sameSetting_refresh env _ _).trans (Environment.sameSetting_say _ _)
  · unfold Watch.conclude
    rw [if_neg hanswered]
    exact Environment.sameSetting_say env _

/-- Time never goes back. -/
theorem Turn.time_le {allowed : Deed → Prop} (h : Turn (Meanwhile allowed) p q) :
    p.env.time ≤ q.env.time := by
  cases h with
  | stop => exact Nat.le_refl _
  | tick => exact Nat.le_refl _
  | @conclude call => exact Nat.le_of_eq (sameSetting_conclude p.watch call p.env).time.symm
  | pass time later awake => exact later
  | meddle hothers =>
      obtain ⟨_, _, _, htime, _⟩ := hothers
      exact Nat.le_of_eq htime.symm

/-- No turn changes the clock, as long as others leave it alone. -/
theorem Turn.clock {allowed : Deed → Prop} (h : Turn (Meanwhile allowed) p q) :
    q.env.clock = p.env.clock := by
  cases h with
  | stop | tick | pass => rfl
  | @conclude call => exact (sameSetting_conclude p.watch call p.env).clock
  | meddle hothers =>
      obtain ⟨_, _, _, _, hclock⟩ := hothers
      exact hclock

/-- Once stopped, always stopped. -/
theorem Turn.finished (h : Turn others p q) (hfinished : p.watch.stage = .finished) :
    q.watch.stage = .finished := by
  cases h with
  | stop waiting => rfl
  | tick waiting =>
      rw [hfinished] at waiting
      cases waiting
  | conclude refreshing =>
      rw [hfinished] at refreshing
      cases refreshing
  | pass => exact hfinished
  | meddle => exact hfinished

/-- A step does not touch the store or a registry, or it leaves a trace of deeds there. -/
theorem Step.trace {allowed : Deed → Prop} (h : p.Step (Meanwhile allowed) q) :
    (q.env.store = p.env.store ∧ ∀ client, q.env.registry client = p.env.registry client) ∨
      ∃ log, Trace p.env log q.env := by
  rcases p with ⟨w, env, delays⟩
  rcases q with ⟨w', env', delays'⟩
  obtain ⟨hstep, _, _, hnumbers⟩ := h
  cases hstep with
  | move hmove => exact Or.inr (Watch.trace_of_move hmove hnumbers)
  | pass => exact Or.inl ⟨rfl, fun _ => rfl⟩
  | meddle hothers =>
      obtain ⟨deed, _, hdoes, _⟩ := hothers
      exact Or.inr ⟨_, .single hdoes hnumbers⟩

/-- What never changes in a run: the store and the registries are sound, the clock runs, the watch
is the same, and so is its client's expiry window. -/
structure Regular (origin : Reading) (w : Watch) (window : UInt64) (p : Patrol) : Prop where
  sound : p.env.Sound
  clock : p.env.clock = .running origin
  follows : Follows w p.watch
  window : (p.env.registry w.client).window = window

/-- What never changes in a run does not change in a step. -/
theorem Regular.step {allowed : Deed → Prop} {origin : Reading} {w : Watch} {window : UInt64}
    (hp : p.Regular origin w window) (h : p.Step (Meanwhile allowed) q) :
    q.Regular origin w window := by
  have hturn := turn_of_step h
  have hclock := hturn.clock.trans hp.clock
  have hfollows := hp.follows.trans hturn.follows
  rcases h.trace with ⟨hstore, hregistry⟩ | ⟨log, htrace⟩
  · refine ⟨⟨?_, ?_⟩, hclock, hfollows, ?_⟩
    · rw [hstore]
      exact hp.sound.store
    · intro client
      rw [hregistry]
      exact hp.sound.distinct client
    · rw [hregistry]
      exact hp.window
  · exact ⟨htrace.sound hp.sound, hclock, hfollows, (htrace.window w.client).trans hp.window⟩

/-! ## Steady scans -/

/-- Scans that are all answered in time, and that do not keep two refreshes apart for as long as a
window. The next scan begins an interval after the last one, or at its end. All spans of time are in
milliseconds. -/
structure Steady (interval patience window : Nat) (delays : List Nat) : Prop where
  answered : ∀ d ∈ delays, d ≤ patience
  brief : interval < window
  short : ∀ d ∈ delays, d < window
  apart : delays.IsChain fun next last => max last interval + next < window + last

section

variable {interval patience window since : Nat} {delays : List Nat}

/-- Scans that are steady were so before the last one. -/
theorem Steady.tail {d : Nat} (h : Steady interval patience window (d :: delays)) :
    Steady interval patience window delays where
  answered := fun e he => h.answered e (List.mem_cons_of_mem d he)
  brief := h.brief
  short := fun e he => h.short e (List.mem_cons_of_mem d he)
  apart := h.apart.tail

/-- A turn makes the record of scans no shorter, so it was steady before. -/
theorem Steady.before (hturn : Turn others p q)
    (h : Steady interval patience window q.delays) :
    Steady interval patience window p.delays := by
  cases hturn with
  | stop => exact h
  | tick => exact h.tail
  | conclude => exact h
  | pass => exact h
  | meddle => exact h

/-- Scans that all fit into the window together with an interval are steady. -/
theorem steady_of_add_lt (hbrief : interval < window) (hanswered : ∀ d ∈ delays, d ≤ patience)
    (hshort : ∀ d ∈ delays, interval + d < window) : Steady interval patience window delays where
  answered := hanswered
  brief := hbrief
  short := by
    intro d hd
    have hlt := hshort d hd
    omega
  apart := by
    induction delays with
    | nil => exact .nil
    | cons next delays ih =>
        have hrest := ih (fun d hd => hanswered d (List.mem_cons_of_mem _ hd))
          fun d hd => hshort d (List.mem_cons_of_mem _ hd)
        refine List.isChain_cons.mpr ⟨?_, hrest⟩
        intro last hlast
        have hnext := hshort next List.mem_cons_self
        omega

/-! ## The next refresh -/

/-- Where a watch stands, if its client has been seeing something since some millisecond: it will
see it again before the window is over. -/
inductive Timely (interval window since : Nat) (p : Patrol) : Prop where
  /-- It has not scanned anything yet, and does so at once. -/
  | fresh (waiting : p.watch.stage = .waiting) (delays : p.delays = [])
      (due : p.watch.ticker.dueAt ≤ since) (time : p.env.time ≤ since)
  /-- It waits for the next scan. The last one began at {lit}`start` and took {lit}`d`. -/
  | waiting {start d : Nat} {before : List Nat} (waiting : p.watch.stage = .waiting)
      (delays : p.delays = d :: before) (ended : start + d ≤ since)
      (due : p.watch.ticker.dueAt ≤ start + interval)
      (time : p.env.time ≤ max since (start + max d interval))
  /-- It waits for the end of a scan. -/
  | refreshing {start d : Nat} {before : List Nat} {call : Call}
      (refreshing : p.watch.stage = .refreshing call) (delays : p.delays = d :: before)
      (ends : call.endsAt = start + d) (answered : call.isAnswered = true)
      (due : p.watch.ticker.dueAt ≤ start + interval) (time : p.env.time ≤ start + d)
      (last : start + d < since + window)

/-- What was seen even later will be seen again in time all the more. -/
theorem Timely.later {since' : Nat} (h : Timely interval window since p)
    (hle : since ≤ since') : Timely interval window since' p := by
  cases h with
  | fresh waiting delays due time => exact .fresh waiting delays (by omega) (by omega)
  | waiting waiting delays ended due time =>
      exact .waiting waiting delays (by omega) due (by omega)
  | refreshing refreshing delays ends answered due time last =>
      exact .refreshing refreshing delays ends answered due time (by omega)

/-- It has not stopped. -/
theorem Timely.running (h : Timely interval window since p) : p.watch.stage ≠ .finished := by
  intro hfinished
  cases h with
  | fresh waiting | waiting waiting =>
      rw [hfinished] at waiting
      cases waiting
  | refreshing refreshing =>
      rw [hfinished] at refreshing
      cases refreshing

/-- The window is not over. -/
theorem Timely.time_lt (h : Timely interval window since p)
    (hsteady : Steady interval patience window p.delays) : p.env.time < since + window := by
  have hbrief := hsteady.brief
  cases h with
  | fresh waiting delays due time => omega
  | @waiting start d before waiting delays ended due time =>
      have hshort := hsteady.short d (delays ▸ List.mem_cons_self)
      omega
  | refreshing refreshing delays ends answered due time last => omega

/-- Time passes up to the next tick or the end of the scan. -/
theorem Timely.pass (h : Timely interval window since p) {time : Nat}
    (awake : ∀ due, p.watch.dueAt = some due → time ≤ due) :
    Timely interval window since { p with env := { p.env with time } } := by
  unfold Watch.dueAt at awake
  cases h with
  | fresh waiting delays due =>
      have htime := awake p.watch.ticker.dueAt (by rw [waiting])
      exact .fresh waiting delays due (Nat.le_trans htime due)
  | waiting waiting delays ended due =>
      have htime := awake p.watch.ticker.dueAt (by rw [waiting])
      exact .waiting waiting delays ended due (show time ≤ _ by omega)
  | @refreshing start d before call refreshing delays ends answered due _ last =>
      have htime := awake call.endsAt (by rw [refreshing])
      exact .refreshing refreshing delays ends answered due (show time ≤ _ by omega) last

/-- Others take no time. -/
theorem Timely.meddle (h : Timely interval window since p) {env : Environment}
    (htime : env.time = p.env.time) : Timely interval window since { p with env } := by
  cases h with
  | fresh waiting delays due time =>
      exact .fresh waiting delays due (show env.time ≤ _ by omega)
  | waiting waiting delays ended due time =>
      exact .waiting waiting delays ended due (show env.time ≤ _ by omega)
  | refreshing refreshing delays ends answered due time last =>
      exact .refreshing refreshing delays ends answered due (show env.time ≤ _ by omega) last

/-- A ticker that is taken when it is due comes due again no later than one period after that. -/
theorem dueAt_take {ticker : Ticker} {time : Nat} (hmissed : ticker.missed = .delay)
    (hperiod : ticker.period ≤ interval * 1000000) (hdue : ticker.dueAt ≤ time) :
    (ticker.take time).dueAt ≤ time + interval := by
  rw [Ticker.dueAt_le_iff] at hdue ⊢
  rcases ticker with ⟨deadline, period, missed⟩
  simp only at hmissed hperiod hdue
  subst hmissed
  rw [Ticker.deadline_take]
  split <;> omega

/-- A scan that begins now ends in time. -/
theorem Timely.tick (h : Timely interval window since p)
    (hmissed : p.watch.ticker.missed = .delay)
    (hperiod : p.watch.ticker.period ≤ interval * 1000000)
    (hwaiting : p.watch.stage = .waiting) (hdue : p.watch.ticker.dueAt ≤ p.env.time)
    (hsteady : Steady interval p.watch.callTimeout.ceilMillis window
      (p.env.delays .get :: p.delays)) :
    Timely interval window since
      ⟨(p.watch.tick p.env).1, p.env, p.env.delays .get :: p.delays⟩ := by
  have hanswered := hsteady.answered _ List.mem_cons_self
  have hshort := hsteady.short _ List.mem_cons_self
  have hends : (Call.started p.env.time (some (p.env.delays .get)) p.watch.callTimeout).endsAt =
      p.env.time + p.env.delays .get :=
    Nat.min_eq_left (Nat.add_le_add_left hanswered _)
  refine .refreshing rfl rfl hends ?_ (dueAt_take hmissed hperiod hdue) (Nat.le_add_right _ _) ?_
  · exact decide_eq_true (Nat.add_le_add_left hanswered _)
  · cases h with
    | fresh waiting delays due time => omega
    | waiting waiting delays ended due time =>
        have hapart := hsteady.apart
        rw [delays] at hapart
        have hlast := (List.isChain_cons_cons.mp hapart).1
        omega
    | refreshing refreshing =>
        rw [hwaiting] at refreshing
        cases refreshing

/-- A scan that is over was a refresh at this very moment. -/
theorem Timely.conclude (h : Timely interval window since p) {call : Call}
    (hrefreshing : p.watch.stage = .refreshing call) (hover : call.endsAt ≤ p.env.time) :
    call.isAnswered = true ∧
      Timely interval window p.env.time
        ⟨(p.watch.conclude call p.env).1, (p.watch.conclude call p.env).2, p.delays⟩ := by
  cases h with
  | fresh waiting | waiting waiting =>
      rw [hrefreshing] at waiting
      cases waiting
  | refreshing refreshing delays ends answered due time last =>
      rw [hrefreshing] at refreshing
      cases refreshing
      refine ⟨answered, .waiting rfl delays (by omega) due ?_⟩
      rw [(sameSetting_conclude p.watch call p.env).time]
      exact Nat.le_max_left _ _

/-! ## Runs of a client's watch -/

/-- Rounded up to milliseconds, a duration is no shorter. -/
theorem nanos_le_ceilMillis (d : Duration) : d.nanos ≤ d.ceilMillis * 1000000 := by
  simp only [Duration.ceilMillis, Duration.nanosPerMilli]
  omega

/-- A watch whose ticker has the interval of its client. -/
theorem Follows.ticker {env : Environment} {client : Nat} {w : Watch}
    (h : Follows (Watch.begin env client).1 w) :
    w.ticker.missed = .delay ∧
      w.ticker.period ≤ (env.config client).refreshInterval.ceilMillis * 1000000 := by
  obtain ⟨_, _, rfl⟩ := h
  exact ⟨rfl, nanos_le_ceilMillis _⟩

/-- A client's watch stays with its client and root. -/
theorem Follows.place {env : Environment} {client : Nat} {w : Watch}
    (h : Follows (Watch.begin env client).1 w) :
    w.client = client ∧ w.root = (env.config client).root := by
  obtain ⟨_, _, rfl⟩ := h
  exact ⟨rfl, rfl⟩

theorem Follows.callTimeout {env : Environment} {client : Nat} {w : Watch}
    (h : Follows (Watch.begin env client).1 w) :
    w.callTimeout = (env.config client).callTimeout := by
  obtain ⟨_, _, rfl⟩ := h
  rfl

/-- What never changes holds in the beginning. -/
theorem regular_begin {env : Environment} {client : Nat} {origin : Reading}
    (hsound : env.Sound) (hclock : env.clock = .running origin) :
    (begin env client).Regular origin (Watch.begin env client).1
      (env.registry client).window :=
  ⟨⟨hsound.store, hsound.distinct⟩, hclock, .refl _, rfl⟩

variable {env : Environment} {client : Nat} {origin : Reading} {allowed : Deed → Prop}

/-- As long as the scans are steady, whatever is seen at any moment of a run will be seen again in
time. -/
theorem timely_of_runs (hsound : env.Sound) (hclock : env.clock = .running origin)
    (hrun : Runs (Meanwhile allowed) stays (begin env client) p)
    (hsteady : Steady (env.config client).refreshInterval.ceilMillis
      (env.config client).callTimeout.ceilMillis window p.delays) :
    p.Regular origin (Watch.begin env client).1 (env.registry client).window ∧
      (p.watch.stage = .finished ∨
        Timely (env.config client).refreshInterval.ceilMillis window p.env.time p) := by
  induction hrun with
  | refl =>
      refine ⟨regular_begin hsound hclock, Or.inr ?_⟩
      have hdue : (begin env client).watch.ticker.dueAt ≤ env.time :=
        Ticker.dueAt_le_iff.mpr (Nat.le_refl _)
      exact .fresh rfl rfl hdue (Nat.le_refl _)
  | @tail p q run stay step ih =>
      have hturn := turn_of_step step
      obtain ⟨hregular, htimely⟩ := ih (hsteady.before hturn)
      refine ⟨hregular.step step, ?_⟩
      rcases htimely with hfinished | htimely
      · exact Or.inl (hturn.finished hfinished)
      · cases hturn with
        | stop waiting => exact Or.inl rfl
        | tick waiting due =>
            rw [← hregular.follows.callTimeout] at hsteady
            obtain ⟨hmissed, hperiod⟩ := hregular.follows.ticker
            exact Or.inr (htimely.tick hmissed hperiod waiting due hsteady)
        | @conclude call n refreshing ended succeeds =>
            right
            rw [show (p.watch.conclude call p.env).2.time = p.env.time from
              (sameSetting_conclude p.watch call p.env).time]
            exact (htimely.conclude refreshing ended).2
        | pass time later awake => exact Or.inr ((htimely.pass awake).later later)
        | meddle hothers =>
            obtain ⟨_, _, _, htime, _⟩ := hothers
            exact Or.inr ((htimely.meddle htime).later (Nat.le_of_eq htime.symm))

end

end Patrol
end ServiceDiscovery
