import ServiceDiscovery.Agent

/-!
# The program

The agent as a program: its tasks run in real time, and its log goes to the standard error. What
it does is decided elsewhere; here arguments, variables and files are read, and notes printed.
-/

namespace ServiceDiscovery
namespace Agent

/-- The environment variables that stand in for parameters, with their values. -/
def readVariables : IO (List (String × Option String)) :=
  (Parameter.all.filterMap Parameter.standIn?).mapM fun name => do
    return (name, ← IO.getEnv name)

/-- The fault behind an error of the host. -/
def faultOf : IO.Error → FileFault
  | .noFileOrDirectory .. => .missing
  | .permissionDenied .. => .denied
  | .inappropriateType _ 20 _ => .noDirectory
  | .inappropriateType _ 21 _ => .directory
  | .invalidArgument _ 36 _ => .tooLong
  | e => .other (toString e)

/-- The contents of a file, or why it cannot be read. -/
def readFile (path : String) : IO (Except FileFault Bytes) := do
  try
    return .ok (← IO.FS.readBinFile path).toList
  catch e =>
    return .error (faultOf e)

/-- The files that a command line names, with what they hold. -/
def readFiles (c : CommandLine) : IO (List (String × Except FileFault Bytes)) :=
  ([c.authority, c.certificate, c.key].filterMap id).mapM fun path => do
    return (path, ← readFile path)

/-- Prints the notes in the log, and empties it. -/
def printNotes (level : Level) (s : Schedule) : IO Schedule := do
  for note in shown level s do
    IO.eprintln (note.level.title ++ " " ++ note.text)
  return s.within fun env => { env with journal := [] }

/-- Lets the tasks run in real time until they are told to stop. -/
partial def work (level : Level) (origin : Nat) (s : Schedule) : IO Schedule := do
  let s ← printNotes level s.settle
  if isStopping s then return s
  let elapsed := (← IO.monoMsNow) - origin
  match s.dueAt with
  | none => return s
  | some due =>
    if elapsed < due then IO.sleep (due - elapsed).toUInt32
    work level origin (s.atTime (max due s.env.time))

/-- Random bits for the identifiers of this run. -/
def randomBits : IO Nat := do
  let bytes ← IO.getRandomBytes 16
  return bytes.toList.foldl (fun n b => n * 256 + b.toNat) 0

/-- Runs the agent with the settings of a command line. -/
def runAgent (host : Host) (c : CommandLine) : IO UInt32 := do
  if let some complaint := levelComplaint c then IO.eprintln complaint
  let level := level c
  let clock := Clock.running (UInt64.ofNat (← IO.monoNanosNow))
  let bits ← randomBits
  let origin ← IO.monoMsNow
  let (s, failure) ← match begin clock host c with
    | (s, some failure) => pure (s, some failure)
    | (s, none) => do
      let s ← work level origin (s.within fun env => { env with bits })
      pure (finish s)
  let _ ← printNotes level s
  match failure with
  | some failure =>
    IO.eprintln ("Error: " ++ failure.message)
    return 1
  | none => return 0

/-- The address that stands in for this host's own. The store never answers, so no other host is
told of it. -/
def loopback : String := "127.0.0.1"

/-- Runs the agent with the arguments of the program. -/
def runProgram (args : List String) : IO UInt32 := do
  let given ← readVariables
  let lookup (name : String) : Option String := (given.lookup name).join
  match CommandLine.read args lookup with
  | .error rejection =>
    match rejection with
    | .help => IO.print rejection.message
    | _ => IO.eprintln rejection.message
    return UInt32.ofNat (rejectionStatus rejection)
  | .ok c =>
    let files ← readFiles c
    let host : Host :=
      { lookup
        files := fun path => (files.lookup path).getD (.error .missing)
        address := some loopback }
    runAgent host c

end Agent
end ServiceDiscovery

/-- The program. -/
def main (args : List String) : IO UInt32 :=
  ServiceDiscovery.Agent.runProgram args
