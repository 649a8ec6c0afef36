import ServiceDiscovery.Key
import ServiceDiscovery.Store.Operation

/-!
# Stores in memory

A store in one process. Keys may be bound to leases; a lease whose deadline has passed is dropped
with its keys, not when the deadline passes, but when an operation that looks at leases comes by.
Any operation can be made to fail.

Main definitions:

- {lit}`MemoryStore`: entries in the order of their keys, leases, and the operations that fail.
- {lit}`MemoryStore.purge`: drops the leases that have lapsed.
- {lit}`MemoryStore.scan`, {lit}`MemoryStore.putLeased`, {lit}`MemoryStore.grant`,
  {lit}`MemoryStore.renew`, {lit}`MemoryStore.revoke`: the operations that can fail.
-/

namespace ServiceDiscovery

/-- A stored value. -/
structure Entry where
  value : Bytes
  /-- The lease with which it vanishes. -/
  lease : Option LeaseId
  deriving DecidableEq, Repr

/-- A store in memory. -/
structure MemoryStore where
  /-- The entries, in increasing order of their keys. -/
  entries : List (String × Entry)
  /-- The leases that have not been dropped. -/
  leases : List (LeaseId × Lease)
  /-- The number of the next lease. -/
  nextLease : Int64
  /-- The operations that fail. -/
  faults : List Operation
  deriving DecidableEq, Repr

namespace MemoryStore

/-- The store at its beginning. -/
def empty : MemoryStore := ⟨[], [], 1, []⟩

/-! ## Entries -/

/-- Puts an entry into its place, where it replaces an earlier one under the same key. -/
def insertEntry (key : String) (entry : Entry) :
    List (String × Entry) → List (String × Entry)
  | [] => [(key, entry)]
  | (k, e) :: rest =>
    if key < k then (key, entry) :: (k, e) :: rest
    else if key = k then (key, entry) :: rest
    else (k, e) :: insertEntry key entry rest

/-- Writes a value that is bound to no lease. -/
def put (s : MemoryStore) (key : String) (value : Bytes) : MemoryStore :=
  { s with entries := insertEntry key ⟨value, none⟩ s.entries }

/-- Whether there is an entry under a key. -/
def contains (s : MemoryStore) (key : String) : Bool :=
  (s.entries.lookup key).isSome

/-- Removes an entry; tells whether there was one. -/
def delete (s : MemoryStore) (key : String) : Bool × MemoryStore :=
  (s.contains key, { s with entries := s.entries.filter fun e => e.1 ≠ key })

/-! ## Leases -/

/-- Removes a lease with every entry bound to it; tells whether there was such a lease. -/
def dropLease (s : MemoryStore) (lease : LeaseId) : Bool × MemoryStore :=
  ((s.leases.lookup lease).isSome,
    { s with
      leases := s.leases.filter fun l => l.1 ≠ lease
      entries := s.entries.filter fun e => e.2.lease ≠ some lease })

/-- The leases that have lapsed. -/
def lapsed (s : MemoryStore) (now : Reading) : List LeaseId :=
  (s.leases.filter fun l => l.2.lapsed now).map (·.1)

/-- Drops the leases that have lapsed. -/
def purge (s : MemoryStore) (now : Reading) : MemoryStore :=
  (s.lapsed now).foldl (fun s lease => (s.dropLease lease).2) s

/-- Ends a lease as if its deadline had passed; tells whether there was such a lease. -/
def expireLease (s : MemoryStore) (lease : LeaseId) : Bool × MemoryStore :=
  s.dropLease lease

/-- The lease to which a key is bound. -/
def leaseOf (s : MemoryStore) (now : Reading) (key : String) : Option LeaseId × MemoryStore :=
  let s := s.purge now
  ((s.entries.lookup key).bind (·.lease), s)

/-- All keys, in order. -/
def keys (s : MemoryStore) (now : Reading) : List String × MemoryStore :=
  let s := s.purge now
  (s.entries.map (·.1), s)

/-- How many leases there are. -/
def leaseCount (s : MemoryStore) (now : Reading) : Nat × MemoryStore :=
  let s := s.purge now
  (s.leases.length, s)

/-! ## Faults -/

/-- Makes an operation fail from now on. -/
def injectFault (s : MemoryStore) (op : Operation) : MemoryStore :=
  if s.faults.contains op then s else { s with faults := op :: s.faults }

/-- Lets every operation succeed again. -/
def clearFaults (s : MemoryStore) : MemoryStore :=
  { s with faults := [] }

/-- The failure of an operation that was made to fail. -/
def fault (op : Operation) : Failure :=
  ⟨op.refusal, "injected " ++ op.title ++ " fault"⟩

/-- Runs an operation unless it was made to fail. -/
def guarded {α : Type} (s : MemoryStore) (op : Operation)
    (run : Except Failure α × MemoryStore) : Except Failure α × MemoryStore :=
  if s.faults.contains op then (.error (fault op), s) else run

/-! ## Operations that can fail -/

/-- Every entry under a key with a given start. The walk begins at the first key that is not below
the start and ends at the first one without it. -/
def scan (s : MemoryStore) (now : Reading) (start : String) :
    Except Failure Entries × MemoryStore :=
  s.guarded .get <|
    let s := s.purge now
    let found := (s.entries.dropWhile fun e => e.1 < start).takeWhile fun e =>
      Key.startsWith e.1 start
    (.ok (found.map fun e => (e.1, e.2.value)), s)

/-- The failure of a write that names a lease which is not there. -/
def unknownLease (key : String) (lease : LeaseId) : Failure :=
  .storeWrite ("put " ++ key ++ ": lease " ++ lease.text ++ " not found")

/-- Writes a value that is bound to a lease. -/
def putLeased (s : MemoryStore) (now : Reading) (key : String) (value : Bytes)
    (lease : LeaseId) : Except Failure Unit × MemoryStore :=
  s.guarded .put <|
    let s := s.purge now
    if (s.leases.lookup lease).isSome then
      (.ok (), { s with entries := insertEntry key ⟨value, some lease⟩ s.entries })
    else (.error (unknownLease key lease), s)

/-- Grants a lease for a positive number of seconds. -/
def grant (s : MemoryStore) (now : Reading) (ttl : Int64) :
    Except Failure LeaseId × MemoryStore :=
  s.guarded .grant <|
    if ttl ≤ 0 then
      (.error (.leaseGrant ("ttl must be positive, got " ++ toString ttl.toInt)), s)
    else
      (.ok ⟨s.nextLease⟩,
        { s with
          nextLease := s.nextLease + 1
          leases := s.leases ++ [(⟨s.nextLease⟩, Lease.granted ttl now)] })

/-- Renews a lease for as long as it was granted, and tells how long that is; nothing happens when
the lease is gone. -/
def renew (s : MemoryStore) (now : Reading) (lease : LeaseId) :
    Except Failure (Option Int64) × MemoryStore :=
  s.guarded .keepAlive <|
    let s := s.purge now
    match s.leases.lookup lease with
    | none => (.ok none, s)
    | some held =>
      (.ok (some held.ttl),
        { s with
          leases := s.leases.map fun l =>
            if l.1 = lease then (l.1, Lease.granted l.2.ttl now) else l })

/-- Gives a lease back. -/
def revoke (s : MemoryStore) (lease : LeaseId) : Except Failure Unit × MemoryStore :=
  s.guarded .revoke (.ok (), (s.dropLease lease).2)

/-! ## Everything under a start -/

/-- The keys with a given start. -/
def keysUnder (s : MemoryStore) (now : Reading) (start : String) : List String × MemoryStore :=
  let (keys, s) := s.keys now
  (keys.filter fun key => Key.startsWith key start, s)

/-- The lease of each key with a given start that is bound to one, in the order of the keys. -/
def leasesUnder (s : MemoryStore) (now : Reading) (start : String) :
    List LeaseId × MemoryStore :=
  let s := s.purge now
  (s.entries.filterMap fun e => if Key.startsWith e.1 start then e.2.lease else none, s)

/-- Ends the lease of every key with a given start; tells how many leases that were. -/
def expireUnder (s : MemoryStore) (now : Reading) (start : String) : Nat × MemoryStore :=
  let (bound, s) := s.leasesUnder now start
  let leases := bound.eraseDups
  (leases.length, leases.foldl (fun s lease => (s.expireLease lease).2) s)

/-- Removes every key with a given start; tells how many there were. -/
def deleteUnder (s : MemoryStore) (now : Reading) (start : String) : Nat × MemoryStore :=
  let (keys, s) := s.keysUnder now start
  (keys.length, keys.foldl (fun s key => (s.delete key).2) s)

end MemoryStore
end ServiceDiscovery
