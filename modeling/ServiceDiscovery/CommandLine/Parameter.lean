/-!
# Parameters of the command line

The parameters that take a value: their flags, what values they accept, and the environment
variables that stand in for some of them.

Main definitions:

- {lit}`Parameter`: which parameter it is.
- {lit}`Parameter.ofFlag?`: the parameter with a flag.
- {lit}`readCount?`: a count below 2 ^ 64.
-/

namespace ServiceDiscovery

/-- A parameter that takes a value. -/
inductive Parameter where
  | endpoints
  | root
  | user
  | password
  | authority
  | certificate
  | key
  | name
  | displayName
  | ip
  | port
  | interface
  | protocol
  | reportInterval
  | logLevel
  deriving DecidableEq, Repr

namespace Parameter

/-- All parameters. -/
def all : List Parameter :=
  [.endpoints, .root, .user, .password, .authority, .certificate, .key, .name, .displayName, .ip,
    .port, .interface, .protocol, .reportInterval, .logLevel]

/-- The parameter's flag, without the two dashes in front of it. -/
def flag : Parameter → String
  | .endpoints => "endpoints"
  | .root => "root"
  | .user => "user"
  | .password => "password"
  | .authority => "ca-cert"
  | .certificate => "cert"
  | .key => "key"
  | .name => "name"
  | .displayName => "alias"
  | .ip => "ip"
  | .port => "port"
  | .interface => "interface"
  | .protocol => "protocol"
  | .reportInterval => "report-interval"
  | .logLevel => "log-level"

/-- The parameter with a flag. -/
def ofFlag? (flag : String) : Option Parameter :=
  all.find? fun p => p.flag = flag

/-- The environment variable that stands in for a parameter. -/
def standIn? : Parameter → Option String
  | .endpoints => some "RENDEZVOUS_ENDPOINTS"
  | .root => some "RENDEZVOUS_ROOT"
  | .user => some "RENDEZVOUS_USER"
  | .password => some "RENDEZVOUS_PASSWORD"
  | _ => none

/-- What the parameter is for, as the help shows it. -/
def purpose : Parameter → String
  | .endpoints => "store endpoints, comma separated"
  | .root => "what instances are published under"
  | .user => "user name for the store"
  | .password => "password for the store"
  | .authority => "certificate of the store's authority (PEM)"
  | .certificate => "certificate of this client (PEM)"
  | .key => "key of this client's certificate (PEM)"
  | .name => "name of the service to register"
  | .displayName => "name shown to people, the service's name by default"
  | .ip => "address to publish, this host's own by default"
  | .port => "port to publish"
  | .interface => "transport, such as http, https or tcp"
  | .protocol => "encoding of the payload"
  | .reportInterval => "seconds between two reports (0 for none)"
  | .logLevel => "log level (trace, debug, info, warn, error)"

end Parameter

/-! ## Counts -/

/-- The number that some decimal digits denote; nothing if there is another character or no digit
at all. -/
def readDigits? (cs : List Char) : Option Nat :=
  if cs.isEmpty || !cs.all Char.isDigit then none
  else some (cs.foldl (fun n c => n * 10 + (c.toNat - '0'.toNat)) 0)

/-- A count below 2 ^ 64 in decimal digits, with or without a plus sign. -/
def readCount? (s : String) : Option Nat :=
  let digits := match s.toList with
    | '+' :: rest => rest
    | cs => cs
  match readDigits? digits with
  | some n => if n < UInt64.size then some n else none
  | none => none

end ServiceDiscovery
