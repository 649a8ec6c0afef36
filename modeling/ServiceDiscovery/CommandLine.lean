import ServiceDiscovery.CommandLine.Parameter
import ServiceDiscovery.Config
import ServiceDiscovery.Descriptor
import ServiceDiscovery.Text.Pieces

/-!
# The command line

Reading the agent's command line. Every parameter may be given once, as two arguments or as one
with an equals sign, except that endpoints add up. A parameter is only complete when the next flag
or the end has been reached, and an argument that nobody knows is reported before an incomplete
parameter in front of it.

Main definitions:

- {lit}`CommandLine`: what was given, with the defaults filled in.
- {lit}`CommandLine.Rejection`: why a command line is not accepted.
- {lit}`CommandLine.read`: reads the arguments, with the environment's variables behind them.
- {lit}`CommandLine.config`, {lit}`CommandLine.descriptor`: what follows for the client and for the
  published description.
-/

namespace ServiceDiscovery

/-- A command line. -/
structure CommandLine where
  endpoints : List String
  root : String
  user : Option String
  password : Option String
  /-- The file with the certificate of the store's authority. -/
  authority : Option String
  /-- The file with the client's certificate. -/
  certificate : Option String
  /-- The file with the key of the client's certificate. -/
  key : Option String
  name : Option String
  displayName : Option String
  ip : Option String
  port : String
  interface : String
  protocol : String
  /-- Whether nothing is registered. -/
  discoverOnly : Bool
  /-- The seconds between two reports; none are made if it is zero. -/
  reportInterval : Nat
  logLevel : String
  deriving DecidableEq, Repr

namespace CommandLine

/-- Why a command line is not accepted. -/
inductive Rejection where
  /-- The help was asked for. -/
  | help
  | unknownArgument
  /-- A value is missing, or empty where it must not be. -/
  | invalidValue
  /-- A value is not of the right form. -/
  | unreadableValue
  /-- A flag with a value that it does not take. -/
  | unneededValue
  /-- A parameter that was given before. -/
  | repeated
  /-- Something is missing that is needed alone or together with what was given. -/
  | missing
  deriving DecidableEq, Repr

/-! ## Reading the arguments -/

/-- What was read so far. -/
structure Reader where
  /-- The complete parameters with their values, of which only endpoints have more than one. -/
  given : List (Parameter × List String)
  discoverOnly : Bool
  /-- The last parameter, which still waits for its value or for what comes after it. -/
  pending : Option (Parameter × Option String)
  /-- Whether all further arguments stand for themselves. -/
  literal : Bool

/-- Nothing was read. -/
def Reader.empty : Reader := ⟨[], false, none, false⟩

/-- The values of a parameter. -/
def Reader.values (r : Reader) (p : Parameter) : Option (List String) :=
  r.given.lookup p

/-- A value can be accepted for a parameter. -/
def checkValue (p : Parameter) (value : String) : Except Rejection Unit :=
  match p with
  | .authority | .certificate | .key => if value.isEmpty then .error .invalidValue else .ok ()
  | .reportInterval => if (readCount? value).isNone then .error .unreadableValue else .ok ()
  | _ => .ok ()

/-- Accepts a complete parameter. -/
def Reader.accept (r : Reader) (p : Parameter) (value : String) : Except Rejection Reader :=
  match p, r.values p with
  | .endpoints, some before =>
    .ok { r with
      given := (p, before ++ Text.split ',' value) :: r.given.filter fun g => g.1 ≠ p }
  | .endpoints, none => .ok { r with given := (p, Text.split ',' value) :: r.given }
  | _, some _ => .error .repeated
  | _, none => (checkValue p value).map fun _ => { r with given := (p, [value]) :: r.given }

/-- Completes the parameter that is still waiting. -/
def Reader.settle (r : Reader) : Except Rejection Reader :=
  match r.pending with
  | none => .ok r
  | some (_, none) => .error .invalidValue
  | some (p, some value) => { r with pending := none }.accept p value

/-- Reads a flag, with the value attached to it if there is one. -/
def Reader.readFlag (r : Reader) (flag : String) (attached : Option String) :
    Except Rejection Reader :=
  if flag = "help" ∨ flag = "discover-only" then
    match attached with
    | some _ => .error .unneededValue
    | none =>
      match r.settle with
      | .error e => .error e
      | .ok r =>
        if flag = "help" then .error .help
        else if r.discoverOnly then .error .repeated
        else .ok { r with discoverOnly := true }
  else
    match Parameter.ofFlag? flag with
    | none => .error .unknownArgument
    | some p =>
      match r.settle with
      | .error e => .error e
      | .ok r =>
        match attached with
        | some value => r.accept p value
        | none => .ok { r with pending := some (p, none) }

/-- Reads an argument that is no flag. It can only be the value of the parameter before it. -/
def Reader.readPlain (r : Reader) (arg : String) : Except Rejection Reader :=
  match r.pending with
  | some (p, none) =>
    if r.literal then .error .unknownArgument else .ok { r with pending := some (p, some arg) }
  | _ => .error .unknownArgument

/-- The flag in an argument without its dashes, and the value attached to it. -/
def splitFlag (cs : List Char) : String × Option String :=
  let flag := String.ofList (cs.takeWhile (· ≠ '='))
  match cs.dropWhile (· ≠ '=') with
  | [] => (flag, none)
  | _ :: value => (flag, some (String.ofList value))

/-- Reads an argument. -/
def Reader.readArgument (r : Reader) (arg : String) : Except Rejection Reader :=
  if r.literal then r.readPlain arg
  else
    match arg.toList with
    | ['-', '-'] => .ok { r with literal := true }
    | '-' :: '-' :: long => r.readFlag (splitFlag long).1 (splitFlag long).2
    | '-' :: 'h' :: _ => r.readFlag "help" none
    | '-' :: _ :: _ => .error .unknownArgument
    | _ => r.readPlain arg

/-- Reads all arguments. -/
def readArguments : List String → Reader → Except Rejection Reader
  | [], r => r.settle
  | arg :: args, r =>
    match r.readArgument arg with
    | .error e => .error e
    | .ok r => readArguments args r

/-! ## Completing -/

/-- The values of a parameter: those that were given, or that of its environment variable. -/
def valuesOf (r : Reader) (lookup : String → Option String) (p : Parameter) :
    Option (List String) :=
  match r.values p with
  | some values => some values
  | none =>
    (p.standIn?.bind lookup).map fun value =>
      if p = .endpoints then Text.split ',' value else [value]

/-- The command line that the values give. -/
def ofReader (r : Reader) (lookup : String → Option String) : CommandLine :=
  let value? (p : Parameter) : Option String := (valuesOf r lookup p).bind List.head?
  let value (p : Parameter) (default : String) : String := (value? p).getD default
  { endpoints := (valuesOf r lookup .endpoints).getD ["http://127.0.0.1:2379"]
    root := value .root "rendezvous"
    user := value? .user
    password := value? .password
    authority := value? .authority
    certificate := value? .certificate
    key := value? .key
    name := value? .name
    displayName := value? .displayName
    ip := value? .ip
    port := value .port ""
    interface := value .interface "http"
    protocol := value .protocol "json"
    discoverOnly := r.discoverOnly
    reportInterval := ((value? .reportInterval).bind readCount?).getD 10
    logLevel := value .logLevel "info" }

/-- Nothing that is needed is missing: a name unless nothing is registered, and either both or
none of user and password, and of certificate and key. -/
def isComplete (c : CommandLine) : Bool :=
  (c.discoverOnly || c.name.isSome) && c.user.isSome == c.password.isSome
    && c.certificate.isSome == c.key.isSome

/-- Reads a command line, with the environment's variables behind it. -/
def read (args : List String) (lookup : String → Option String) :
    Except Rejection CommandLine :=
  match readArguments args .empty with
  | .error e => .error e
  | .ok r =>
    let c := ofReader r lookup
    if c.isComplete then .ok c else .error .missing

/-! ## What follows from it -/

/-- The client's settings. -/
def config (c : CommandLine) : Config :=
  let settings : Config := { endpoints := c.endpoints }
  { settings.withRoot c.root with
    credentials :=
      match c.user, c.password with
      | some user, some password => some ⟨user, password⟩
      | _, _ => none
    tls :=
      if c.authority.isSome || c.certificate.isSome then
        some { authority := c.authority, certificate := c.certificate, key := c.key }
      else none }

/-- The description to be published, unless nothing is registered. -/
def descriptor (c : CommandLine) (localAddress : Option String) :
    Except Failure (Option Descriptor) :=
  if c.discoverOnly then .ok none
  else
    match c.name, c.ip <|> localAddress with
    | none, _ => .error (.misconfigured "--name is required")
    | _, none => .error (.misconfigured "cannot determine local ip")
    | some name, some ip =>
      .ok (some
        { Descriptor.ofAddress name ip c.port with
          displayName := c.displayName.getD ""
          interface := c.interface
          protocol := c.protocol })

/-- The help. -/
def usage : String :=
  let line (p : Parameter) : String := "  --" ++ p.flag ++ " <value>  " ++ p.purpose ++ "\n"
  "Registers a service instance and tracks its peers\n\nOptions:\n"
    ++ String.join (Parameter.all.map line)
    ++ "  --discover-only  register nothing\n  -h, --help  print this help\n"

/-- What is said about a command line that is not accepted. -/
def Rejection.message : Rejection → String
  | .help => usage
  | .unknownArgument => "error: unexpected argument"
  | .invalidValue => "error: a value is missing or empty"
  | .unreadableValue => "error: a value cannot be read"
  | .unneededValue => "error: a flag has a value that it does not take"
  | .repeated => "error: an argument is given more than once"
  | .missing => "error: a required argument is missing"

end CommandLine
end ServiceDiscovery
