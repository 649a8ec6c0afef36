import ServiceDiscovery.Config
import ServiceDiscovery.FileTree
import ServiceDiscovery.Store.Endpoint
import ServiceDiscovery.Store.Operation
import ServiceDiscovery.Store.ServerName
import ServiceDiscovery.Text.Quoted

/-!
# Remote stores

What is decided about a store on other machines before, or without, an answer from it: whether the
settings allow a connection at all, and the failure of every request when nobody answers.

Main definitions:

- {lit}`Remote.loadTls`: reads the files of an encrypted connection.
- {lit}`Remote.Refusal`: why an endpoint is not accepted.
- {lit}`Remote.connect`: the checks that come before the first request.
- {lit}`Remote.unanswered`: the failure of a request without an answer.
-/

namespace ServiceDiscovery
namespace Remote

/-- The contents of the file at a path, or why it cannot be read. -/
abbrev Files := String → Except FileFault Bytes

/-- What the transport reports of a request without an answer. -/
def silence : String := "grpc request error"

/-! ## Files -/

/-- Reads a file that holds a certificate or a key. -/
def load (files : Files) (path : String) : Except Failure Bytes :=
  match files path with
  | .ok contents => .ok contents
  | .error fault => .error (.misconfigured ("cannot read " ++ path ++ ": " ++ fault.message))

/-- Reads a file if one is named. -/
def loadAny (files : Files) : Option String → Except Failure Unit
  | none => .ok ()
  | some path =>
    match load files path with
    | .error failure => .error failure
    | .ok _ => .ok ()

/-- A client's own certificate and its key. -/
structure Identity where
  certificate : Bytes
  key : Bytes
  deriving DecidableEq, Repr

/-- Both parts are there: an empty file holds neither a certificate nor a key. -/
def Identity.isComplete (i : Identity) : Bool :=
  !i.certificate.isEmpty && !i.key.isEmpty

/-- Reads the files of an encrypted connection: the authority's certificate first, then the
client's own certificate and its key, which need each other. -/
def loadTls (files : Files) (tls : Tls) : Except Failure (Option Identity) :=
  match loadAny files tls.authority with
  | .error failure => .error failure
  | .ok () =>
    match tls.certificate, tls.key with
    | some certificate, some key =>
      match load files certificate with
      | .error failure => .error failure
      | .ok certificate =>
        match load files key with
        | .error failure => .error failure
        | .ok key => .ok (some ⟨certificate, key⟩)
    | none, none => .ok none
    | _, _ => .error (.misconfigured "client certificate and key must be given together")

/-! ## Endpoints -/

/-- Why an endpoint is not accepted. -/
inductive Refusal where
  /-- There are settings for encryption, but the endpoint excludes it. -/
  | unencrypted
  /-- The endpoint is not well-formed. -/
  | malformed (fault : Endpoint.Fault)
  /-- Encryption cannot be set up: there is no name to check the store's certificate against, or the
  client's own one is not complete. -/
  | unusable
  deriving DecidableEq, Repr

/-- The words for a refusal. -/
def Refusal.message : Refusal → String
  | .unencrypted => "invalid arguments: TLS options are only supported with HTTPS URLs"
  | .malformed fault => "invalid uri: " ++ fault.message
  | .unusable => "transport error: transport error"

/-- The name that the certificate of the store at an endpoint has to be made out to: the one that is
asked for, or else the endpoint's host. -/
def expectedName (tls : Option Tls) (endpoint : Endpoint) : List Char :=
  ((tls.bind (·.domain)).map String.toList).getD endpoint.host

/-- Encryption can be set up for an endpoint. -/
def isUsable (tls : Option Tls) (identity : Option Identity) (endpoint : Endpoint) : Bool :=
  identity.all Identity.isComplete && ServerName.isValid (expectedName tls endpoint)

/-- Why an endpoint is not accepted, if it is not. Without a scheme of its own it is encrypted
exactly if there are settings for that. -/
def refusal? (tls : Option Tls) (identity : Option Identity) (text : String) : Option Refusal :=
  let (encrypted, rest) := (Endpoint.scheme? text).getD (tls.isSome, text)
  if tls.isSome && !encrypted then some .unencrypted
  else
    match Endpoint.read encrypted rest with
    | .error fault => some (.malformed fault)
    | .ok endpoint =>
      if encrypted && !isUsable tls identity endpoint then some .unusable else none

/-! ## Connections -/

/-- The failure to connect for some reason. -/
def unconnected (endpoints : List String) (reason : String) : Failure :=
  .connection ("failed to connect to etcd " ++ Text.quotedList endpoints ++ ": " ++ reason)

/-- The checks that come before the first request: there are endpoints, the files can be read, and
every endpoint is accepted. Only credentials make connecting a request of its own, and that one
finds nobody to answer it. -/
def connect (files : Files) (c : Config) : Except Failure Unit :=
  if c.endpoints.isEmpty then
    .error (.misconfigured "at least one store endpoint is required")
  else
    match c.tls.elim (.ok none) (loadTls files) with
    | .error failure => .error failure
    | .ok identity =>
      match c.endpoints.findSome? (refusal? c.tls identity) with
      | some refusal => .error (unconnected c.endpoints refusal.message)
      | none =>
        if c.credentials.isSome then .error (unconnected c.endpoints silence) else .ok ()

/-! ## Requests -/

/-- The failure of a request without an answer. -/
def unanswered : Request → Failure
  | .scan start => .connection ("get " ++ start ++ ": " ++ silence)
  | .put key _ _ => .storeWrite ("put " ++ key ++ ": " ++ silence)
  | .grant _ => .leaseGrant silence
  | .keepAlive lease => .leaseLost ("lease " ++ lease.text ++ ": " ++ silence)
  | .revoke lease => .storeWrite ("revoke lease " ++ lease.text ++ ": " ++ silence)

end Remote
end ServiceDiscovery
