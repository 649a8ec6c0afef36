import ServiceDiscovery.Duration
import ServiceDiscovery.Key

/-!
# Client settings

Which store a client talks to, the root that it works under, and its five time spans.

Main definitions:

- {lit}`Config`: the settings, with their defaults.
- {lit}`Config.withRoot`: settings for another root, which is normalized.
-/

namespace ServiceDiscovery

/-- How a client identifies itself to the store. -/
structure Credentials where
  user : String
  password : String
  deriving DecidableEq, Repr

/-- The files for an encrypted connection to the store. -/
structure Tls where
  /-- The certificate of the authority that signed the store's own. -/
  authority : Option String := none
  /-- The client's certificate, which is of no use without its key. -/
  certificate : Option String := none
  /-- The key of the client's certificate. -/
  key : Option String := none
  /-- The name expected in the store's certificate. -/
  domain : Option String := none
  deriving DecidableEq, Repr

/-- A client's settings. -/
structure Config where
  endpoints : List String := ["http://127.0.0.1:2379"]
  credentials : Option Credentials := none
  tls : Option Tls := none
  /-- What instances are published and looked up under. -/
  root : String := "rendezvous"
  /-- How long a registration outlives its last renewal. -/
  leaseTtl : Duration := .ofSeconds 7
  /-- The time between two refreshes. -/
  refreshInterval : Duration := .ofSeconds 3
  /-- The age at which an instance that is not seen any more counts as dead. -/
  expiryWindow : Duration := .ofSeconds 5
  /-- How long a store call may take. -/
  callTimeout : Duration := .ofSeconds 3
  /-- How long connecting may take. -/
  connectTimeout : Duration := .ofSeconds 5
  deriving DecidableEq, Repr

namespace Config

/-- The settings for another root. -/
def withRoot (c : Config) (root : String) : Config :=
  { c with root := Key.normalizeRoot root }

end Config
end ServiceDiscovery
