import Mathlib.Data.List.Nodup
import ServiceDiscovery.Proofs.Store.Bindings

/-!
# Stores with their streams

A store hands out streams of renewals, and whoever holds one polls it whenever he
likes.  Between two polls the store may be asked for anything else, and other streams
may be polled; a stream that still runs renews its lease at every poll, as a command
to the store would.

Main results:

- Definitions {lit}`Hub`, {lit}`Hub.act` and {lit}`Hub.Runs`: a store with the streams
  that were opened on it, and what can happen to both.
- Theorem {lit}`Hub.store_act`: all that reaches the store are commands.
- Theorem {lit}`Hub.Runs.accounted`: so the store stays in line with the answers.
- Theorem {lit}`Hub.Runs.termed`: every lease is as long as it was granted, and has
  the deadline of the last time when it was extended.
-/

namespace ServiceDiscovery
namespace MemoryStore

/-! ## Acts -/

/-- A store with the streams that were opened on it, in turn. -/
structure Hub where
  store : MemoryStore
  streams : List AckStream

/-- Something done to a store or to one of its streams. -/
inductive Act where
  | command (c : Command)
  /-- Takes the next item of a stream, at some millisecond. Polls that come too early wait, so what
  counts is the moment when the item is there; nothing is assumed of it. -/
  | poll (stream time : Nat)

/-- What comes of an act. -/
inductive Outcome where
  | answered (answer : Answer)
  | item (item : AckItem)
  /-- There is no such stream. -/
  | nothing

/-- The stream that an answer hands out. -/
def Answer.stream? : Answer → Option AckStream
  | .opened (.ok stream) => some stream
  | _ => none

namespace Hub

/-- A hub at its beginning. -/
def empty : Hub := ⟨.empty, []⟩

/-- What comes of an act at a reading of the clock, and the hub after it. -/
def act (hub : Hub) (now : Reading) : Act → Outcome × Hub
  | .command c =>
    let (answer, store) := c.run now hub.store
    (.answered answer, ⟨store, hub.streams ++ answer.stream?.toList⟩)
  | .poll i time =>
    match hub.streams[i]? with
    | none => (.nothing, hub)
    | some stream =>
      let ((item, stream), store) := stream.take time now hub.store
      (.item item, ⟨store, hub.streams.set i stream⟩)

/-- The command by which an act reaches the store, if it does. -/
def request? (hub : Hub) : Act → Option Command
  | .command c => some c
  | .poll i _ =>
    match hub.streams[i]? with
    | some (.renewing lease _) => some (.renew lease)
    | _ => none

end Hub

/-- An act with what came of it, and the hubs before and after it. -/
structure Moment where
  now : Reading
  act : Act
  before : Hub
  outcome : Outcome
  after : Hub

/-- The moment of an act. -/
def Act.moment (a : Act) (now : Reading) (hub : Hub) : Moment :=
  ⟨now, a, hub, (hub.act now a).1, (hub.act now a).2⟩

/-- What has happened to the store in a moment. -/
def Moment.exchange? (x : Moment) : Option Exchange :=
  (x.before.request? x.act).map fun c => c.exchange x.now x.before.store

/-- What has happened to the store, seen apart from the streams. -/
def exchanges (xs : List Moment) : List Exchange :=
  xs.filterMap Moment.exchange?

/-- Moments that lead from one hub to another, the latest one at the end. -/
inductive Hub.Runs (start : Hub) : List Moment → Hub → Prop where
  | nil : Runs start [] start
  | step {xs : List Moment} {hub : Hub} (h : Runs start xs hub) (now : Reading) (a : Act) :
      Runs start (xs ++ [a.moment now hub]) (hub.act now a).2

/-- What happens when some things are done to an empty hub, and the hub that results. -/
def Hub.history (acts : List (Reading × Act)) : List Moment × Hub :=
  acts.foldl (fun p x => (p.1 ++ [x.2.moment x.1 p.2], (p.2.act x.1 x.2).2)) ([], .empty)

/-- Whatever is done to an empty hub makes a run. -/
theorem Hub.runs_history (acts : List (Reading × Act)) :
    Runs .empty (history acts).1 (history acts).2 := by
  induction acts using List.reverseRecOn with
  | nil => exact .nil
  | append_singleton acts x ih =>
      rw [history, List.foldl_concat]
      exact ih.step x.1 x.2

/-! ## Runs in parts -/

namespace Hub

variable {start hub : Hub} {xs ys : List Moment} {x : Moment}

/-- A run can be interrupted anywhere. -/
theorem Runs.split {zs : List Moment} (h : Runs start zs hub) (hzs : zs = xs ++ ys) :
    ∃ mid, Runs start xs mid ∧ Runs mid ys hub := by
  induction h generalizing ys with
  | nil =>
      obtain ⟨rfl, rfl⟩ := List.append_eq_nil_iff.mp hzs.symm
      exact ⟨start, .nil, .nil⟩
  | @step zs hub h now a ih =>
      rcases List.eq_nil_or_concat ys with rfl | ⟨ys, y, rfl⟩
      · rw [List.append_nil] at hzs
        exact ⟨_, hzs ▸ h.step now a, .nil⟩
      · rw [List.concat_eq_append, ← List.append_assoc] at hzs
        obtain ⟨rfl, hy⟩ := List.append_inj' hzs rfl
        obtain ⟨mid, hfirst, hsecond⟩ := ih rfl
        rw [List.concat_eq_append, ← (List.cons.inj hy).1]
        exact ⟨mid, hfirst, hsecond.step now a⟩

/-- Two runs one after the other. -/
theorem Runs.append {mid : Hub} (h : Runs start xs mid) (h' : Runs mid ys hub) :
    Runs start (xs ++ ys) hub := by
  induction h' with
  | nil =>
      rw [List.append_nil]
      exact h
  | step _ now a ih =>
      rw [← List.append_assoc]
      exact ih.step now a

theorem Runs.eq_of_nil {zs : List Moment} (h : Runs start zs hub) (hzs : zs = []) :
    hub = start := by
  cases h with
  | nil => rfl
  | step => exact absurd hzs (List.append_ne_nil_of_right_ne_nil _ (List.cons_ne_nil _ _))

/-- A moment leads from the hub before it to the one after it. -/
theorem Runs.moment {zs : List Moment} (h : Runs start zs hub) (hzs : zs = [x]) :
    x = x.act.moment x.now x.before ∧ x.before = start ∧ x.after = hub := by
  cases h with
  | nil => cases hzs
  | @step zs mid h now a =>
      rw [← List.nil_append [x]] at hzs
      obtain ⟨hnil, hx⟩ := List.append_inj' hzs rfl
      obtain rfl := (List.cons.inj hx).1
      exact ⟨rfl, h.eq_of_nil hnil, rfl⟩

/-- A run up to one of its moments, the moment, and the run from there. -/
theorem Runs.at_moment {zs : List Moment} (h : Runs start zs hub) (hzs : zs = xs ++ x :: ys) :
    Runs start xs x.before ∧ x = x.act.moment x.now x.before ∧ Runs x.after ys hub := by
  obtain ⟨mid, hfirst, hrest⟩ := h.split hzs
  obtain ⟨mid', hmoment, hsecond⟩ := hrest.split (show x :: ys = [x] ++ ys from rfl)
  obtain ⟨hx, hbefore, hafter⟩ := hmoment.moment rfl
  exact ⟨hbefore ▸ hfirst, hx, hafter ▸ hsecond⟩

/-- A moment is a run of its own. -/
theorem Runs.single (hx : x = x.act.moment x.now x.before) : Runs x.before [x] x.after := by
  have hstep := (show Runs x.before [] x.before from .nil).step x.now x.act
  rw [List.nil_append, ← hx] at hstep
  rwa [show x.after = (x.before.act x.now x.act).2 from congrArg Moment.after hx]

/-! ## What reaches the store -/

/-- All that reaches the store are commands. -/
theorem store_act (hub : Hub) (now : Reading) (a : Act) :
    (hub.act now a).2.store =
      match hub.request? a with
      | some c => (c.run now hub.store).2
      | none => hub.store := by
  cases a with
  | command c => rfl
  | poll i time =>
      simp only [act, request?]
      cases hstream : hub.streams[i]? with
      | none => rfl
      | some stream =>
          cases stream with
          | renewing lease ticker => rfl
          | finished => rfl
          | scripted lease since items =>
              cases items with
              | nil => rfl
              | cons item items =>
                  rcases item with ⟨after, _ | _ | _⟩ <;> rfl

/-- An act reaches the store with a command, which is all that the store sees of it, or leaves the
store alone. -/
theorem reaches_or_spares (hub : Hub) (now : Reading) (a : Act) :
    (∃ c, hub.request? a = some c ∧ exchanges [a.moment now hub] = [c.exchange now hub.store] ∧
        (hub.act now a).2.store = (c.run now hub.store).2) ∨
      exchanges [a.moment now hub] = [] ∧ (hub.act now a).2.store = hub.store := by
  have hstore := hub.store_act now a
  cases hrequest : hub.request? a with
  | none =>
      rw [hrequest] at hstore
      exact Or.inr ⟨by simp [exchanges, Moment.exchange?, Act.moment, hrequest], hstore⟩
  | some c =>
      rw [hrequest] at hstore
      exact Or.inl ⟨c, rfl, by simp [exchanges, Moment.exchange?, Act.moment, hrequest], hstore⟩

theorem exchanges_append (xs ys : List Moment) :
    exchanges (xs ++ ys) = exchanges xs ++ exchanges ys :=
  List.filterMap_append

/-- What reaches the store does so at the reading of its moment. -/
theorem now_of_mem_exchanges {y : Exchange} (hy : y ∈ exchanges xs) : ∃ z ∈ xs, y.now = z.now := by
  obtain ⟨z, hz, hexchange⟩ := List.mem_filterMap.mp hy
  obtain ⟨c, _, rfl⟩ := Option.map_eq_some_iff.mp hexchange
  exact ⟨z, hz, rfl⟩

/-- As long as there are lease numbers, the store of a hub is in line with the answers. -/
theorem Runs.accounted (h : Runs empty xs hub)
    (hgrants : (granted (exchanges xs)).length < 2 ^ 63 - 1) :
    Accounted (exchanges xs) hub.store := by
  induction h with
  | nil => exact Accounted.empty
  | @step xs hub h now a ih =>
      rw [exchanges_append] at hgrants ⊢
      have hbefore := ih (Nat.lt_of_le_of_lt (length_granted_le _ _) hgrants)
      rcases reaches_or_spares hub now a with ⟨c, _, hexchange, hstore⟩ | ⟨hexchange, hstore⟩
      · rw [hexchange] at hgrants ⊢
        rw [hstore]
        exact hbefore.run c now hgrants
      · rw [hexchange, List.append_nil, hstore]
        exact hbefore

end Hub

/-! ## Lengths and deadlines -/

/-- The leases that were granted, in turn, each with its length in seconds. -/
def grantedFor (xs : List Exchange) : List (LeaseId × Int64) :=
  xs.filterMap fun x => x.command.granted? x.answer

/-- The leases that were granted, with their lengths left out. -/
theorem map_fst_grantedFor (xs : List Exchange) : (grantedFor xs).map (·.1) = granted xs := by
  simp only [grantedFor, granted, List.map_filterMap]

theorem grantedFor_append (xs ys : List Exchange) :
    grantedFor (xs ++ ys) = grantedFor xs ++ grantedFor ys :=
  List.filterMap_append

/-- A lease is granted for one length. -/
theorem eq_of_mem_grantedFor {xs : List Exchange} {lease : LeaseId} {ttl ttl' : Int64}
    (hnodup : (granted xs).Nodup) (h : (lease, ttl) ∈ grantedFor xs)
    (h' : (lease, ttl') ∈ grantedFor xs) : ttl = ttl' := by
  rw [← map_fst_grantedFor] at hnodup
  exact congrArg Prod.snd (List.inj_on_of_nodup_map hnodup h h' rfl)

/-- The answer has extended the life of a lease. -/
def Exchange.Extends (x : Exchange) (lease : LeaseId) : Prop :=
  x.command.extended? x.answer = some lease

/-- Every lease is as long as it was granted, and has the deadline of a time when it was
extended. -/
def Termed (xs : List Exchange) (s : MemoryStore) : Prop :=
  ∀ lease held, (lease, held) ∈ s.leases →
    (lease, held.ttl) ∈ grantedFor xs ∧
      ∃ x ∈ xs, x.Extends lease ∧ held = Lease.granted held.ttl x.now

/-- Commands keep to the lengths and deadlines of leases. -/
theorem Termed.run {xs : List Exchange} {s : MemoryStore} (h : Termed xs s) (hs : s.WellFormed)
    (c : Command) (now : Reading) : Termed (xs ++ [c.exchange now s]) (c.run now s).2 := by
  intro lease held hmem
  rw [grantedFor_append]
  rcases extended_cases hs hmem with ⟨hold, _⟩ | ⟨hextended, hheld, hlength⟩
  · obtain ⟨hgranted, x, hx, hdeadline⟩ := h lease held hold
    exact ⟨List.mem_append_left _ hgranted, x, List.mem_append_left _ hx, hdeadline⟩
  · refine ⟨?_, _, List.mem_append_right _ (List.mem_singleton_self _), hextended, hheld⟩
    rcases hlength with ⟨⟨old, hold, httl⟩, _⟩ | hgranted
    · rw [← httl]
      exact List.mem_append_left _ (h lease old hold).1
    · refine List.mem_append_right _ ?_
      simp [grantedFor, Command.exchange, hgranted]

/-- The leases in a hub are as long as they were granted, and have the deadlines of times when they
were extended. -/
theorem Hub.Runs.termed {xs : List Moment} {hub : Hub} (h : Runs .empty xs hub)
    (hgrants : (granted (exchanges xs)).length < 2 ^ 63 - 1) :
    Termed (exchanges xs) hub.store := by
  induction h with
  | nil =>
      intro lease held hmem
      cases hmem
  | @step xs hub h now a ih =>
      rw [exchanges_append] at hgrants ⊢
      have hroom := Nat.lt_of_le_of_lt (length_granted_le _ _) hgrants
      rcases reaches_or_spares hub now a with ⟨c, _, hexchange, hstore⟩ | ⟨hexchange, hstore⟩
      · rw [hexchange, hstore]
        exact (ih hroom).run (h.accounted hroom).wellFormed c now
      · rw [hexchange, List.append_nil, hstore]
        exact ih hroom

end MemoryStore
end ServiceDiscovery
