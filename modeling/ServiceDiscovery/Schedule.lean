import ServiceDiscovery.Schedule.Report
import ServiceDiscovery.Schedule.Supervision
import ServiceDiscovery.Schedule.Watch

/-!
# Schedules

An environment with the tasks that run in it. Any task may take any of its moves at any moment;
time passes only once no task has a move left, and never past the moment at which a task has one
again. A run takes the first move of the first task that has one.

Main definitions:

- {lit}`Schedule.moves`: everything that can happen at present.
- {lit}`Schedule.Step`, {lit}`Schedule.Reaches`: one step, and any number of them.
- {lit}`Schedule.settle`: runs the tasks until each of them waits.
- {lit}`Schedule.runUntil`: lets time pass up to some millisecond.

Main results:

- Theorem {lit}`Schedule.progress`: as long as something is due, a schedule can take a step, and
  waiting leads to a moment at which a task has a move.
-/

namespace ServiceDiscovery

/-- A task. -/
inductive Task where
  | attempt (a : Attempt)
  | supervision (s : Supervision)
  | watch (w : Watch)
  | report (r : Report)

namespace Task

/-- Everything that a task can do at present. -/
def moves (env : Environment) : Task → List (Task × Environment)
  | .attempt a => (a.moves env).map fun next => (.attempt next.1, next.2)
  | .supervision s => (s.moves env).map fun next => (.supervision next.1, next.2)
  | .watch w => (w.moves env).map fun next => (.watch next.1, next.2)
  | .report r => (r.moves env).map fun next => (.report next.1, next.2)

/-- The millisecond at which a task's next step is possible, if nobody interferes. -/
def dueAt : Task → Option Nat
  | .attempt a => a.dueAt
  | .supervision s => s.dueAt
  | .watch w => w.dueAt
  | .report r => r.dueAt

/-- How a task has ended, if it has: with a failure or without. -/
def outcome? : Task → Option (Option Failure)
  | .attempt a => a.outcome?
  | .supervision s =>
    match s.stage with
    | .finished failure => some failure
    | _ => none
  | .watch w => if w.stage = .finished then some none else none
  | .report r => if r.finished then some none else none

/-- A task without a move waits for what lies ahead. -/
theorem time_lt_of_idle {t : Task} {env : Environment} {due : Nat} (hidle : t.moves env = [])
    (hdue : t.dueAt = some due) : env.time < due := by
  cases t with
  | attempt a => exact Attempt.time_lt_of_idle (List.map_eq_nil_iff.mp hidle) hdue
  | supervision s => exact Supervision.time_lt_of_idle (List.map_eq_nil_iff.mp hidle) hdue
  | watch w => exact Watch.time_lt_of_idle (List.map_eq_nil_iff.mp hidle) hdue
  | report r => exact Report.time_lt_of_idle (List.map_eq_nil_iff.mp hidle) hdue

end Task

/-- A schedule: an environment with the tasks that run in it, each under the name with which it was
started. -/
structure Schedule where
  env : Environment
  /-- The tasks, in the order in which they were started. -/
  tasks : List (String × Task)

namespace Schedule

/-- The moves of some tasks, each with all tasks as they are after it. -/
def movesOf (env : Environment) :
    List (String × Task) → List (List (String × Task) × Environment)
  | [] => []
  | (name, task) :: rest =>
    ((task.moves env).map fun next => ((name, next.1) :: rest, next.2))
      ++ (movesOf env rest).map fun next => ((name, task) :: next.1, next.2)

/-- Everything that can happen at present. -/
def moves (s : Schedule) : List Schedule :=
  (movesOf s.env s.tasks).map fun next => ⟨next.2, next.1⟩

/-- The earliest moment at which some task's next step is possible, if nobody interferes. -/
def dueAt (s : Schedule) : Option Nat :=
  s.tasks.foldl (fun due t => Attempt.earlier due t.2.dueAt) none

/-- The schedule at a later moment. -/
def atTime (s : Schedule) (time : Nat) : Schedule :=
  { s with env := { s.env with time } }

/-! ## Steps -/

/-- One step: a move of a task, or the passing of time. -/
inductive Step : Schedule → Schedule → Prop where
  | move {s t : Schedule} (h : t ∈ s.moves) : Step s t
  | pass {s : Schedule} (time : Nat) (idle : s.moves = []) (later : s.env.time ≤ time)
      (awake : ∀ due, s.dueAt = some due → time ≤ due) : Step s (s.atTime time)

/-- Any number of steps. -/
inductive Reaches : Schedule → Schedule → Prop where
  | refl (s : Schedule) : Reaches s s
  | tail {s t u : Schedule} (reached : Reaches s t) (step : Step t u) : Reaches s u

/-! ## Progress -/

/-- Tasks that have no move together have none each. -/
theorem idle_of_movesOf {env : Environment} {tasks : List (String × Task)}
    (hidle : movesOf env tasks = []) : ∀ t ∈ tasks, t.2.moves env = [] := by
  induction tasks with
  | nil => exact fun t ht => absurd ht List.not_mem_nil
  | cons first rest ih =>
      obtain ⟨name, task⟩ := first
      simp only [movesOf, List.append_eq_nil_iff, List.map_eq_nil_iff] at hidle
      intro t ht
      rcases List.mem_cons.mp ht with rfl | ht
      · exact hidle.1
      · exact ih hidle.2 t ht

/-- A schedule in which nothing can happen at present waits for what lies ahead. -/
theorem time_lt_of_idle {s : Schedule} {due : Nat} (hidle : s.moves = [])
    (hdue : s.dueAt = some due) : s.env.time < due := by
  have hall := idle_of_movesOf (List.map_eq_nil_iff.mp hidle)
  -- The earliest moment is found from the left, so the moment found so far has to be any.
  suffices hfold : ∀ (tasks : List (String × Task)) (sofar : Option Nat),
      (∀ t ∈ tasks, t.2.moves s.env = []) → (∀ due, sofar = some due → s.env.time < due) →
      ∀ due, tasks.foldl (fun due t => Attempt.earlier due t.2.dueAt) sofar = some due →
        s.env.time < due from hfold s.tasks none hall nofun due hdue
  intro tasks
  induction tasks with
  | nil => exact fun _ _ hsofar => hsofar
  | cons first rest ih =>
      intro sofar hidle hsofar due hdue
      refine ih _ (fun t ht => hidle t (List.mem_cons_of_mem first ht)) ?_ due hdue
      intro due hdue
      exact Attempt.lt_of_earlier hsofar
        (fun _ => Task.time_lt_of_idle (hidle first List.mem_cons_self)) hdue

/-- A schedule never gets stuck: when nothing can happen at present but something is due, time
passes up to that moment, and then something can happen. -/
theorem progress {s : Schedule} {due : Nat} (hidle : s.moves = []) (hdue : s.dueAt = some due) :
    Step s (s.atTime due) ∧ (s.atTime due).moves ≠ [] := by
  constructor
  · refine .pass due hidle (Nat.le_of_lt (time_lt_of_idle hidle hdue)) ?_
    intro due' hdue'
    exact Nat.le_of_eq (Option.some.inj (hdue.symm.trans hdue'))
  · intro hstuck
    exact Nat.lt_irrefl due (time_lt_of_idle hstuck hdue)

/-! ## Runs -/

/-- Takes first moves until no task has one, but no more than some number of them. -/
def settleWithin : Nat → Schedule → Schedule
  | 0, s => s
  | n + 1, s =>
    match s.moves with
    | [] => s
    | next :: _ => settleWithin n next

/-- The number of moves after which a run counts as one that never settles. -/
def patience : Nat := 1 <<< 40

/-- Runs the tasks until each of them waits. -/
def settle (s : Schedule) : Schedule :=
  settleWithin patience s

/-- Lets time pass up to some millisecond, with no more than some number of stops. -/
def runWithin : Nat → Nat → Schedule → Schedule
  | 0, _, s => s
  | n + 1, limit, s =>
    let s := s.settle
    match s.dueAt with
    | some due =>
      if due ≤ limit then runWithin n limit (s.atTime (max due s.env.time))
      else s.atTime limit
    | none => s.atTime limit

/-- Lets time pass up to some millisecond. -/
def runUntil (s : Schedule) (limit : Nat) : Schedule :=
  runWithin patience limit s

/-! ## Tasks -/

/-- Changes the environment. -/
def within (s : Schedule) (change : Environment → Environment) : Schedule :=
  { s with env := change s.env }

/-- Starts a task under a name. -/
def start (s : Schedule) (name : String) (task : Task) : Schedule :=
  { s with tasks := s.tasks ++ [(name, task)] }

/-- The task that was started last under a name. -/
def task? (s : Schedule) (name : String) : Option Task :=
  s.tasks.reverse.lookup name

/-- Starts a registration through a client, which the client's shutdown ends, and a token too if
one is given. -/
def register (s : Schedule) (name : String) (client : Nat) (d : Descriptor)
    (token : Option String) : Schedule :=
  let stop := match token with
    | some token => .token token
    | none => .shutdown client
  s.start name (.attempt (.unstarted (s.env.terms client stop) d))

/-- Starts a registration that refreshes nothing and that a token ends. -/
def registerAlone (s : Schedule) (name root : String) (ttl : Duration) (d : Descriptor)
    (token : String) : Schedule :=
  let defaults : Config := {}
  let terms : Terms :=
    { client := 0
      root := Key.normalizeRoot root
      leaseTtl := ttl
      refreshInterval := defaults.refreshInterval
      callTimeout := defaults.callTimeout
      refreshes := false
      watched := .token token
      relayed := none }
  s.start name (.attempt (.unstarted terms d))

/-- Starts a supervisor that a token ends. -/
def supervise (s : Schedule) (name : String) (client : Nat) (d : Descriptor) (token : String) :
    Schedule :=
  s.start name (.supervision (.begin s.env client d token))

/-- Starts a watch. -/
def watch (s : Schedule) (name : String) (client : Nat) : Schedule :=
  let (watch, env) := Watch.begin s.env client
  { s with env }.start name (.watch watch)

/-- Starts a report that a token ends. -/
def report (s : Schedule) (name : String) (client : Nat) (token : String) (every : Duration) :
    Schedule :=
  s.start name (.report (.begin s.env client token every))

/-! ## Requests that wait -/

/-- Refreshes a client's registry, and waits for the end of it. -/
def refresh (s : Schedule) (client : Nat) : Except Failure Nat × Schedule :=
  let c := s.env.config client
  let call := Call.started s.env.time (some (s.env.delays .get)) c.callTimeout
  let s := s.runUntil call.endsAt
  if call.isAnswered then
    let (result, env) := s.env.refresh client c.root
    (result, { s with env })
  else (.error (Call.timedOut Operation.get.label c.callTimeout), s)

/-- Waits for the next item of a stream; there is none if it never comes. -/
def awaitAck (s : Schedule) (stream : AckStream) : Option (AckItem × AckStream) × Schedule :=
  match stream.dueAt with
  | none => (none, s)
  | some due =>
    let s := if due ≤ s.env.time then s else s.runUntil due
    let (taken, env) := s.env.takeAck stream
    (some taken, { s with env })

end Schedule
end ServiceDiscovery
