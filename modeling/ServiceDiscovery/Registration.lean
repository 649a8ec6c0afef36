import ServiceDiscovery.AckStream
import ServiceDiscovery.Descriptor.Prepare
import ServiceDiscovery.Log

/-!
# Registrations

The protocol of one registration attempt: a lease is granted, the description is published under
it, and renewals of the lease are acknowledged for as long as it lives. Meanwhile a registry may be
refreshed. The attempt ends when it is cancelled, or when the lease is lost. The protocol knows
nothing of time and of stores: it reacts to events with at most one request.

Main definitions:

- {lit}`Registration.Plan`: what is to be published.
- {lit}`Registration.Phase`, {lit}`Registration.Event`: where an attempt stands, and what happens
  to it.
- {lit}`Registration.begin`, {lit}`Registration.react`: its first step and all others.
-/

namespace ServiceDiscovery

/-- How far a registration has come, as its log tells it. -/
inductive Standing where
  | disconnected
  | leaseGranted
  | registered
  deriving DecidableEq, Repr

/-- The log's word for a standing. -/
def Standing.text : Standing → String
  | .disconnected => "disconnected"
  | .leaseGranted => "lease-granted"
  | .registered => "registered"

namespace Registration

/-- What is to be published. -/
structure Plan where
  /-- The root under which other instances are looked for meanwhile. -/
  root : String
  /-- The key of this instance. -/
  key : String
  /-- The description, as it is published. -/
  descriptor : Descriptor
  /-- The seconds for which the lease is granted. -/
  ttl : Int64
  deriving DecidableEq, Repr

/-- The seconds of a lease, of which there is one at least. -/
def wholeSeconds (ttl : Duration) : Int64 :=
  (UInt64.ofNat (max ttl.seconds 1)).toInt64

/-- The plan for a description under a root, if it can be published. -/
def Plan.make (localAddress : String) (now : Reading) (unique : Uuid) (root : String)
    (ttl : Duration) (d : Descriptor) : Except Failure Plan :=
  (d.prepare localAddress now).map fun prepared =>
    { root
      key := Key.ofInstance root prepared.name unique
      descriptor := prepared
      ttl := wholeSeconds ttl }

/-- Where an attempt stands. -/
inductive Phase where
  | granting
  | publishing (lease : LeaseId)
  | opening (lease : LeaseId)
  | held (lease : LeaseId)
  | refreshing (lease : LeaseId)
  /-- Gives the lease back, because of a failure or because of a cancellation. -/
  | releasing (lease : LeaseId) (cause : Option Failure)
  /-- Is over, with a failure or after a cancellation. -/
  | ended (failure : Option Failure)
  deriving DecidableEq, Repr

/-- How far an attempt in some phase has come. -/
def Phase.standing : Phase → Standing
  | .granting | .releasing .. | .ended _ => .disconnected
  | .publishing _ | .opening _ => .leaseGranted
  | .held _ | .refreshing _ => .registered

/-- What happens to an attempt. -/
inductive Event where
  | granted (result : Except Failure LeaseId)
  | published (result : Except Failure Unit)
  | opened (result : Except Failure Unit)
  | cancelled
  | acknowledged (item : AckItem)
  /-- It is time for a refresh. -/
  | ticked
  | refreshed (result : Except Failure Unit)
  | released (result : Except Failure Unit)

/-- What an attempt does about an event. -/
structure Reaction where
  phase : Phase
  notes : List Note := []
  request : Option Request := none
  deriving DecidableEq, Repr

/-! ## Notes -/

/-- The note on a change of standing. -/
def transition (plan : Plan) (before after : Standing) : Note :=
  .debug ("Registration " ++ plan.key ++ ": " ++ before.text ++ " -> " ++ after.text)

/-- The note on an attempt that is held from now on. -/
def announcement (plan : Plan) (lease : LeaseId) : Note :=
  .info ("Registered service instance | service: " ++ plan.descriptor.name ++ " | address: "
    ++ plan.descriptor.address ++ " | key: " ++ plan.key ++ " | lease: " ++ lease.text
    ++ " | ttl: " ++ toString plan.ttl.toInt ++ "s")

/-! ## Steps -/

/-- The first step. An attempt that is cancelled beforehand asks for nothing. -/
def begin (plan : Plan) (cancelled : Bool) : Reaction :=
  if cancelled then
    { phase := .ended none
      notes := [.debug ("Registration of " ++ plan.key ++ " cancelled before lease grant")] }
  else { phase := .granting, request := some (.grant plan.ttl) }

/-- The attempt fails, and gives its lease back. -/
def giveUp (lease : LeaseId) (failure : Failure) (note : String) : Reaction :=
  { phase := .releasing lease (some failure)
    notes := [.error (note ++ failure.message)]
    request := some (.revoke lease) }

/-- The lease is lost, for a reason given in words. -/
def lose (plan : Plan) (reason : String) : Reaction :=
  { phase := .ended (some (.leaseLost reason))
    notes :=
      [transition plan .registered .disconnected,
        .error ("Registrar: lost registration for " ++ plan.key ++ ": " ++ reason)] }

/-- The reaction to a granted lease, or to a refusal. -/
def onGranted (plan : Plan) : Except Failure LeaseId → Reaction
  | .error failure =>
    { phase := .ended (some failure)
      notes :=
        [.error ("Registrar: lease grant for " ++ plan.key ++ " failed: " ++ failure.message)] }
  | .ok lease =>
    { phase := .publishing lease
      notes := [transition plan .disconnected .leaseGranted]
      request := some (.put plan.key (Text.utf8 plan.descriptor.toJson) lease) }

/-- The reaction to the end of publishing. -/
def onPublished (plan : Plan) (lease : LeaseId) : Except Failure Unit → Reaction
  | .error failure =>
    giveUp lease failure ("Registrar: publishing " ++ plan.key ++ " failed: ")
  | .ok () => { phase := .opening lease, request := some (.keepAlive lease) }

/-- The reaction to a stream of acknowledgements, or to its refusal. -/
def onOpened (plan : Plan) (lease : LeaseId) : Except Failure Unit → Reaction
  | .error failure =>
    giveUp lease failure ("Registrar: keepalive for " ++ plan.key ++ " could not start: ")
  | .ok () =>
    { phase := .held lease
      notes := [transition plan .leaseGranted .registered, announcement plan lease] }

/-- The reaction to an item of the stream. Only an acknowledgement with time left to live keeps
the registration. -/
def onItem (plan : Plan) (lease : LeaseId) : AckItem → Reaction
  | .renewed ack =>
    if 0 < ack.ttl then
      { phase := .held lease
        notes :=
          [.debug ("Lease " ++ ack.lease.text ++ " renewed, ttl " ++ toString ack.ttl.toInt
            ++ "s")] }
    else
      lose plan ("lease " ++ ack.lease.text ++ " expired (ttl " ++ toString ack.ttl.toInt ++ ")")
  | .failed failure => lose plan failure.message
  | .closed => lose plan ("keepalive stream for lease " ++ lease.text ++ " closed")

/-- The reaction to the end of a refresh, which never ends a registration. -/
def onRefreshed (plan : Plan) (lease : LeaseId) : Except Failure Unit → Reaction
  | .error failure =>
    { phase := .held lease
      notes :=
        [.warn ("Registrar: discovery refresh under /" ++ Key.normalizeRoot plan.root
          ++ "/ failed: " ++ failure.message)] }
  | .ok () => { phase := .held lease }

/-- The notes on a lease that could not be given back. -/
def releaseNotes (plan : Plan) (lease : LeaseId) : Except Failure Unit → List Note
  | .error failure =>
    [.warn ("Registrar: releasing lease " ++ lease.text ++ " for " ++ plan.key ++ " failed: "
      ++ failure.message)]
  | .ok () => []

/-- The reaction to the end of a release: it ends the attempt whether or not it succeeded. -/
def onReleased (plan : Plan) (lease : LeaseId) (cause : Option Failure)
    (result : Except Failure Unit) : Reaction :=
  let notes := releaseNotes plan lease result
  match cause with
  | some failure => { phase := .ended (some failure), notes }
  | none =>
    { phase := .ended none
      notes :=
        notes ++
          [transition plan .registered .disconnected,
            .info ("Deregistered " ++ plan.key ++ " (lease " ++ lease.text ++ " released)")] }

/-- The reaction to an event. An event that a phase does not wait for changes nothing. -/
def react (plan : Plan) (phase : Phase) (event : Event) : Reaction :=
  match phase, event with
  | .granting, .granted result => onGranted plan result
  | .publishing lease, .published result => onPublished plan lease result
  | .opening lease, .opened result => onOpened plan lease result
  | .held lease, .cancelled =>
    { phase := .releasing lease none, request := some (.revoke lease) }
  | .held lease, .acknowledged item => onItem plan lease item
  | .held lease, .ticked =>
    { phase := .refreshing lease, request := some (.scan (Key.rootPrefix plan.root)) }
  | .refreshing lease, .refreshed result => onRefreshed plan lease result
  | .releasing lease cause, .released result => onReleased plan lease cause result
  | phase, _ => { phase }

end Registration
end ServiceDiscovery
