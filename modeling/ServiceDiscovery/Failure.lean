/-!
# Failures

What a store call, a registration or a query can end with, and the one place where a failure is
put into words.

Main definitions:

- {lit}`FailureKind`: which part of the work failed.
- {lit}`Failure`: a kind together with the detail that its origin gave.
- {lit}`Failure.message`: the text shown to people.
- {lit}`Failure.endsRegistration`: whether a registration attempt is over.
-/

namespace ServiceDiscovery

/-- Which part of the work failed. -/
inductive FailureKind where
  /-- The store did not answer, or not in time. -/
  | connection
  /-- The store refused to grant a lease. -/
  | leaseGrant
  /-- A lease that was held is gone, or could not be kept alive. -/
  | leaseLost
  /-- A write, or the release of a lease, was refused. -/
  | storeWrite
  /-- A stored value is not a well-formed description. -/
  | malformed
  /-- No instance answers to the name. -/
  | notFound
  /-- The caller's own settings cannot be used. -/
  | misconfigured
  deriving DecidableEq, Repr

/-- The words that introduce the detail of a failure of this kind. -/
def FailureKind.lead : FailureKind → String
  | .connection => "coordination store unreachable: "
  | .leaseGrant => "lease grant failed: "
  | .leaseLost => "lease lost: "
  | .storeWrite => "store write failed: "
  | .malformed => "malformed service descriptor: "
  | .notFound => ""
  | .misconfigured => "invalid configuration: "

/-- A failure: its kind and the detail given by whoever noticed it. -/
structure Failure where
  kind : FailureKind
  detail : String
  deriving DecidableEq, Repr

namespace Failure

/-- The text shown to people: the kind's lead, then the detail. -/
def message (f : Failure) : String :=
  f.kind.lead ++ f.detail

/-- A registration attempt ends with every failure of the store or of its lease; the other kinds
blame the caller or a single stored value. -/
def endsRegistration (f : Failure) : Bool :=
  match f.kind with
  | .connection | .leaseGrant | .leaseLost | .storeWrite => true
  | .malformed | .notFound | .misconfigured => false

/-- A store that does not answer. -/
def connection (detail : String) : Failure := ⟨.connection, detail⟩

/-- A refused grant. -/
def leaseGrant (detail : String) : Failure := ⟨.leaseGrant, detail⟩

/-- A lost lease. -/
def leaseLost (detail : String) : Failure := ⟨.leaseLost, detail⟩

/-- A refused write. -/
def storeWrite (detail : String) : Failure := ⟨.storeWrite, detail⟩

/-- A value that is no description. -/
def malformed (detail : String) : Failure := ⟨.malformed, detail⟩

/-- A name that nothing answers to. -/
def notFound (detail : String) : Failure := ⟨.notFound, detail⟩

/-- Settings that cannot be used. -/
def misconfigured (detail : String) : Failure := ⟨.misconfigured, detail⟩

end Failure
end ServiceDiscovery
