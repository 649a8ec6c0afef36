/-!
# Log

What the program says while it works.

Main definitions:

- {lit}`Level`: how much a note matters.
- {lit}`Note`: a note, and which part of the program made it.
- {lit}`Level.named?`: the level that a reader of the log asks for.
-/

namespace ServiceDiscovery

/-- How much a note matters. -/
inductive Level where
  | trace
  | debug
  | info
  | warn
  | error
  deriving DecidableEq, Repr

namespace Level

/-- The position of a level, from the least to the most important. -/
def rank : Level → Nat
  | .trace => 0
  | .debug => 1
  | .info => 2
  | .warn => 3
  | .error => 4

/-- The level's name in the log. -/
def title : Level → String
  | .trace => "TRACE"
  | .debug => "DEBUG"
  | .info => "INFO"
  | .warn => "WARN"
  | .error => "ERROR"

/-- A note of this level is shown to a reader who asks for another one. -/
def reaches (level asked : Level) : Bool :=
  asked.rank ≤ level.rank

/-- The level with a name, in whatever case it is written. -/
def named? (name : String) : Option Level :=
  let name := name.toLower
  if name = "trace" then some .trace
  else if name = "debug" then some .debug
  else if name = "info" then some .info
  else if name = "warn" then some .warn
  else if name = "error" then some .error
  else none

end Level

/-- The part of the program that makes a note. -/
inductive Origin where
  /-- Registration and discovery themselves. -/
  | library
  /-- The agent that runs them. -/
  | agent
  deriving DecidableEq, Repr

/-- What is said. -/
structure Note where
  origin : Origin
  level : Level
  text : String
  deriving DecidableEq, Repr

namespace Note

/-- A note of the library for those who look for the cause of a fault. -/
def debug (text : String) : Note := ⟨.library, .debug, text⟩

/-- A note of the library about its work. -/
def info (text : String) : Note := ⟨.library, .info, text⟩

/-- A note of the library about something that it can live with. -/
def warn (text : String) : Note := ⟨.library, .warn, text⟩

/-- A note of the library about something that it cannot live with. -/
def error (text : String) : Note := ⟨.library, .error, text⟩

end Note

/-- A note with the millisecond at which it was made. -/
structure LogEntry where
  time : Nat
  note : Note
  deriving DecidableEq, Repr

end ServiceDiscovery
