import ServiceDiscovery.Lease
import ServiceDiscovery.Failure
import ServiceDiscovery.Text.Utf8

/-!
# Store operations

The five operations that registration and discovery ask of a store.

Main definitions:

- {lit}`Operation`: which operation it is.
- {lit}`Request`: an operation with its arguments.
-/

namespace ServiceDiscovery

/-- An operation of a store. -/
inductive Operation where
  | get
  | put
  | grant
  | keepAlive
  | revoke
  deriving DecidableEq, Repr

namespace Operation

/-- The operation's name in the store's own diagnostics. -/
def title : Operation → String
  | .get => "Get"
  | .put => "Put"
  | .grant => "Grant"
  | .keepAlive => "KeepAlive"
  | .revoke => "Revoke"

/-- The operation's name in the diagnostics of a call that takes too long. -/
def label : Operation → String
  | .get => "get"
  | .put => "put"
  | .grant => "lease grant"
  | .keepAlive => "keepalive"
  | .revoke => "lease revoke"

/-- The kind of failure with which a store refuses the operation. -/
def refusal : Operation → FailureKind
  | .get => .connection
  | .put => .storeWrite
  | .grant => .leaseGrant
  | .keepAlive => .leaseLost
  | .revoke => .storeWrite

end Operation

/-- An operation with its arguments. -/
inductive Request where
  /-- Everything under keys with a given start. -/
  | scan (start : String)
  /-- Writes a value, bound to a lease. -/
  | put (key : String) (value : Bytes) (lease : LeaseId)
  /-- A new lease for some seconds. -/
  | grant (ttl : Int64)
  /-- Acknowledged renewals of a lease from now on. -/
  | keepAlive (lease : LeaseId)
  /-- Gives a lease back, with every key bound to it. -/
  | revoke (lease : LeaseId)
  deriving DecidableEq, Repr

/-- Which operation a request is. -/
def Request.operation : Request → Operation
  | .scan _ => .get
  | .put .. => .put
  | .grant _ => .grant
  | .keepAlive _ => .keepAlive
  | .revoke _ => .revoke

/-- What a scan finds: keys with their values. -/
abbrev Entries := List (String × Bytes)

end ServiceDiscovery
