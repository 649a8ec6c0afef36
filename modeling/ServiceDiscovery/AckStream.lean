import ServiceDiscovery.Store.Memory
import ServiceDiscovery.Ticker

/-!
# Acknowledgement streams

Keeping a lease alive gives a stream with one item for every renewal. The stream of a store renews
the lease whenever its ticker allows; it ends when the lease is gone, and after a failure. For
rehearsals, a stream can also follow a script and leave the store alone.

Main definitions:

- {lit}`AckStream`: a stream.
- {lit}`AckStream.opening`: the stream that a first renewal opens.
- {lit}`AckStream.dueAt`: the millisecond at which its next item can be taken.
- {lit}`AckStream.take`: that item, and what is left.
-/

namespace ServiceDiscovery

/-- An item of a stream. -/
inductive AckItem where
  | renewed (ack : LeaseAck)
  | failed (failure : Failure)
  /-- There are no more items. -/
  | closed
  deriving DecidableEq, Repr

/-- An item of a script. -/
structure ScriptedAck where
  /-- The milliseconds that it takes. -/
  after : Nat
  /-- The seconds left to live, or a failure; nothing if the item never comes. -/
  outcome : Option (Except Failure Int64)

/-- A stream of acknowledgements. -/
inductive AckStream where
  /-- Renews a lease at every tick. -/
  | renewing (lease : LeaseId) (ticker : Ticker)
  /-- Follows a script, from the millisecond at which it took its last item. -/
  | scripted (lease : LeaseId) (since : Nat) (items : List ScriptedAck)
  /-- Has nothing more to give. -/
  | finished

namespace AckStream

/-- A stream that renews a lease of some seconds: at a given period, or three times while the
lease lasts. -/
def renewals (time : Nat) (period : Option Duration) (lease : LeaseId) (ttl : Int64) : AckStream :=
  .renewing lease (.started time (period.getD (Lease.renewalPeriod ttl)) .delay)

/-- The stream that a first renewal opens. -/
def opening (time : Nat) (period : Option Duration) (lease : LeaseId) :
    Except Failure (Option Int64) → Except Failure AckStream
  | .error failure => .error failure
  | .ok none => .error (.leaseLost ("lease " ++ lease.text ++ " not found"))
  | .ok (some ttl) => .ok (renewals time period lease ttl)

/-- The millisecond at which the next item can be taken; none if it never can. -/
def dueAt : AckStream → Option Nat
  | .renewing _ ticker => some ticker.dueAt
  | .scripted _ since [] => some since
  | .scripted _ since (item :: _) => item.outcome.map fun _ => since + item.after
  | .finished => some 0

/-- The next item can be taken. -/
def isDue (s : AckStream) (time : Nat) : Bool :=
  match s.dueAt with
  | some due => due ≤ time
  | none => false

/-- An item that cannot be taken yet is due later, if it ever is. -/
theorem time_lt_of_not_isDue {s : AckStream} {time due : Nat} (hwaits : s.isDue time = false)
    (hdue : s.dueAt = some due) : time < due := by
  unfold isDue at hwaits
  rw [hdue] at hwaits
  exact Nat.lt_of_not_le (of_decide_eq_false hwaits)

/-- What a renewal says, and the stream after it. -/
def afterRenewal (lease : LeaseId) (ticker : Ticker) :
    Except Failure (Option Int64) → AckItem × AckStream
  | .ok (some ttl) => (.renewed ⟨lease, ttl⟩, .renewing lease ticker)
  | .ok none => (.closed, .finished)
  | .error failure => (.failed failure, .finished)

/-- Takes the item that is due, at some millisecond and reading of the store's clock. -/
def take (s : AckStream) (time : Nat) (now : Reading) (store : MemoryStore) :
    (AckItem × AckStream) × MemoryStore :=
  match s with
  | .renewing lease ticker =>
    let (renewal, store) := store.renew now lease
    (afterRenewal lease (ticker.take time) renewal, store)
  | .scripted _ _ [] => ((.closed, .finished), store)
  | .scripted lease _ (item :: items) =>
    match item.outcome with
    | some (.ok ttl) => ((.renewed ⟨lease, ttl⟩, .scripted lease time items), store)
    | some (.error failure) => ((.failed failure, .finished), store)
    | none => ((.closed, .finished), store)
  | .finished => ((.closed, .finished), store)

end AckStream
end ServiceDiscovery
