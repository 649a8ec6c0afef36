import ServiceDiscovery.CommandLine
import ServiceDiscovery.Schedule

/-!
# The agent

The agent registers one service, if it is asked to, and keeps track of all others. It works until
it is interrupted or until its description is rejected, and then stops its tasks in order: the
registration first, the client after it.

Main definitions:

- {lit}`Agent.begin`: the schedule of the agent's tasks.
- {lit}`Agent.finish`: stops the tasks, and tells how the agent ends.
- {lit}`Agent.run`: a whole run, up to an interruption that waits for certain notes.
-/

namespace ServiceDiscovery
namespace Agent

/-- How the agent is interrupted. -/
inductive Interrupt where
  | keyboard
  | termination
  deriving DecidableEq, Repr

/-- The note on an interruption. -/
def Interrupt.note : Interrupt → String
  | .keyboard => "Received Ctrl+C, initiating shutdown"
  | .termination => "Received SIGTERM, initiating shutdown"

/-- The surroundings of the agent: its environment's variables, the files that it can read, and
the address of its host. -/
structure Host where
  lookup : String → Option String
  files : Remote.Files
  address : Option String

/-- The name of the token that stops the agent's tasks. -/
def token : String := "shutdown"

/-- The name of the task that keeps track of the others. -/
def watchName : String := "watch"

/-- The name of the task that reports on them. -/
def reportName : String := "report"

/-- The name of the task that registers this one. -/
def registrationName : String := "registration"

/-- A note of the agent about its work. -/
def info (text : String) : Note := ⟨.agent, .info, text⟩

/-! ## The log's level -/

/-- The level that is asked for, or the one that stands in for it. -/
def level (c : CommandLine) : Level :=
  (Level.named? c.logLevel).getD .info

/-- The complaint about a level that does not exist. -/
def levelComplaint (c : CommandLine) : Option String :=
  if (Level.named? c.logLevel).isSome then none
  else some ("Invalid log level: " ++ c.logLevel ++ ", defaulting to info")

/-! ## Beginning -/

/-- The notes that come before anything else. -/
def greeting (config : Config) : List Note :=
  [info "Starting Rendezvous agent",
    info ("etcd endpoints: " ++ Text.quotedList config.endpoints ++ " | root: /" ++ config.root
      ++ "/")]

/-- The environment of an agent whose store is on other machines and does not answer. -/
def environment (clock : Clock) (host : Host) (config : Config) : Environment :=
  { Environment.initial clock [config] with
    reachable := false
    localAddress := host.address.getD "" }

/-- Starts the agent's tasks: a watch, reports if any are wanted, and a registration if there is
anything to register. -/
def startTasks (c : CommandLine) (d : Option Descriptor) (s : Schedule) : Schedule :=
  let s := s.watch watchName 0
  let s :=
    if c.reportInterval = 0 then s
    else s.report reportName 0 token (.ofSeconds c.reportInterval)
  match d with
  | some d => s.supervise registrationName 0 d token
  | none => s

/-- The schedule of the agent's tasks, and why there are none if it does not get that far. -/
def begin (clock : Clock) (host : Host) (c : CommandLine) : Schedule × Option Failure :=
  let config := c.config
  let s : Schedule := ⟨environment clock host config, []⟩
  match c.descriptor host.address with
  | .error failure => (s, some failure)
  | .ok d =>
    let s := s.within fun env => env.say (greeting config)
    match Remote.connect host.files config with
    | .error failure => (s, some failure)
    | .ok () =>
      let connected := "Connected to etcd | endpoints: " ++ Text.quotedList config.endpoints
      (startTasks c d (s.within fun env => env.say [.info connected]), none)

/-! ## Ending -/

/-- Notes an interruption, and tells the tasks to stop. -/
def interrupt (cause : Interrupt) (s : Schedule) : Schedule :=
  s.within fun env => (env.say [info cause.note]).raise (.token token)

/-- The tasks were told to stop. -/
def isStopping (s : Schedule) : Bool :=
  s.env.isRaised (.token token)

/-- The failure with which the registration has ended, if it has. -/
def registrationFailure (s : Schedule) : Option Failure :=
  ((s.task? registrationName).bind (·.outcome?)).join

/-- Lets the registration end, then stops the client, and tells how the agent ends. -/
def finish (s : Schedule) : Schedule × Option Failure :=
  let s := (s.settle.within fun env => env.raise (.shutdown 0)).settle
  match registrationFailure s with
  | some failure => (s, some failure)
  | none => (s.within fun env => env.say [info "Rendezvous agent shut down gracefully"], none)

/-! ## Whole runs -/

/-- Some characters contain others in one piece. -/
def holds (part : List Char) : List Char → Bool
  | [] => part.isEmpty
  | c :: rest => part.isPrefixOf (c :: rest) || holds part rest

/-- A text contains another one. -/
def contains (text part : String) : Bool :=
  holds part.toList text.toList

/-- The notes of a log that are shown at a level, the first one in front. -/
def shown (level : Level) (s : Schedule) : List Note :=
  (s.env.journal.map (·.note)).reverse.filter fun n => n.level.reaches level

/-- Every text that is waited for is part of some note that is shown. -/
def hasSeen (level : Level) (texts : List String) (s : Schedule) : Bool :=
  texts.all fun text => (shown level s).any fun n => contains n.text text

/-- Lets the agent work until its tasks are told to stop or every text that is waited for was
noted, with no more than some number of stops. -/
def workWithin (level : Level) (texts : List String) : Nat → Schedule → Schedule
  | 0, s => s
  | n + 1, s =>
    let s := s.settle
    if isStopping s || hasSeen level texts s then s
    else
      match s.dueAt with
      | some due => workWithin level texts n (s.atTime (max due s.env.time))
      | none => s

/-- How a run ends. -/
structure Ending where
  /-- The status that the process gives back. -/
  status : Nat
  /-- Why the agent could not go on. -/
  failure : Option Failure
  /-- The complaint about the log's level. -/
  complaint : Option String
  /-- The notes that were shown. -/
  notes : List Note

/-- The end of a run that has come as far as a schedule. -/
def ending (c : CommandLine) (s : Schedule) (failure : Option Failure) : Ending :=
  { status := if failure.isSome then 1 else 0
    failure
    complaint := levelComplaint c
    notes := shown (level c) s }

/-- The status of a command line that is not accepted. -/
def rejectionStatus : CommandLine.Rejection → Nat
  | .help => 0
  | _ => 2

/-- A whole run. It is interrupted once certain texts were noted; without an interruption it lasts
until the registration is rejected. -/
def run (clock : Clock) (host : Host) (args : List String) (texts : List String)
    (cause : Option Interrupt) : Ending :=
  match CommandLine.read args host.lookup with
  | .error rejection => ⟨rejectionStatus rejection, none, none, []⟩
  | .ok c =>
    match begin clock host c with
    | (s, some failure) => ending c s (some failure)
    | (s, none) =>
      let s := workWithin (level c) texts Schedule.patience s
      let s := match cause with
        | some cause => if isStopping s then s else interrupt cause s
        | none => s
      let (s, failure) := finish s
      ending c s failure

end Agent
end ServiceDiscovery
