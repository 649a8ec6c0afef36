import ServiceDiscovery.Proofs.Store.Hubs

/-!
# Streams of renewals

A stream renews its lease whenever it is polled, for as long as the lease is there and
renewals are not made to fail.  What it yields, and for how long a lease is kept alive
by it, is settled at the moment of the poll, whatever is done to the store and to
other streams in between.

Main results:

- Theorem {lit}`renewal`: the three outcomes of a renewal.
- Theorem {lit}`Hub.Runs.attended`: every stream has yielded renewals, then nothing or
  one failure, then the end.
- Theorems {lit}`Hub.Runs.assured` and {lit}`Hub.Runs.goneBy`: after a renewal a lease
  stays until its new deadline, and once it has lapsed it does not come back.
- Theorem {lit}`Hub.Runs.renews_as_promised`: all of this for every run.
-/

namespace ServiceDiscovery
namespace MemoryStore

variable {s : MemoryStore} {now : Reading} {lease : LeaseId} {ttl : Int64}

/-! ## Renewals -/

/-- The lease is there and has not lapsed. -/
def Live (s : MemoryStore) (lease : LeaseId) (now : Reading) : Prop :=
  ∃ held, (lease, held) ∈ s.leases ∧ held.lapsed now = false

/-- What a renewal of a lease results in: a failure if renewals are made to fail; else a later
deadline if the lease is live, and nothing but a purge if it is not. -/
inductive Renewal (s : MemoryStore) (now : Reading) (lease : LeaseId) :
    Except Failure (Option Int64) × MemoryStore → Prop where
  | refused (hfault : .keepAlive ∈ s.faults) : Renewal s now lease (.error (fault .keepAlive), s)
  | renewed {held : Lease} (hfault : .keepAlive ∉ s.faults) (hmem : (lease, held) ∈ s.leases)
      (hlive : held.lapsed now = false) :
      Renewal s now lease (.ok (some held.ttl),
        { s.purge now with leases := (s.purge now).leases.map (renewed now lease) })
  | gone (hfault : .keepAlive ∉ s.faults) (hdead : ¬ s.Live lease now) :
      Renewal s now lease (.ok none, s.purge now)

/-- A renewal results in one of three ways. -/
theorem renewal (hs : s.WellFormed) (now : Reading) (lease : LeaseId) :
    Renewal s now lease (s.renew now lease) := by
  cases hfault : s.faults.contains .keepAlive with
  | true =>
      rw [renew_of_fault now hfault]
      exact .refused (List.contains_iff_mem.mp hfault)
  | false =>
      have hunfaulty : .keepAlive ∉ s.faults := by
        rw [← List.contains_iff_mem, hfault]
        exact Bool.false_ne_true
      cases hlease : (s.purge now).leases.lookup lease with
      | none =>
          rw [renew_of_none hfault hlease]
          refine .gone hunfaulty ?_
          rintro ⟨held, hmem, hlive⟩
          rw [lookup_purge hs hmem hlive] at hlease
          cases hlease
      | some held =>
          rw [renew_of_some hfault hlease]
          obtain ⟨hmem, hlive⟩ :=
            (mem_leases_purge hs).mp ((lookup_eq_some_iff (hs.purge now).distinct).mp hlease)
          exact .renewed hunfaulty hmem hlive

/-- A lease whose life is extended by a renewal was live. -/
theorem live_of_extended_renew (hs : s.WellFormed) {other : LeaseId}
    (extended : Except Failure (Option Int64) → Option LeaseId)
    (herror : ∀ failure, extended (.error failure) = none) (hgone : extended (.ok none) = none)
    (hrenewed : ∀ ttl, extended (.ok (some ttl)) = some other)
    (h : extended (s.renew now other).1 = some lease) : s.Live lease now := by
  have hrenewal := renewal hs now other
  generalize s.renew now other = result at h hrenewal
  cases hrenewal with
  | refused =>
      rw [herror] at h
      cases h
  | renewed _ hmem hlive =>
      rw [hrenewed] at h
      obtain rfl := Option.some.inj h
      exact ⟨_, hmem, hlive⟩
  | gone =>
      rw [hgone] at h
      cases h

/-- A command extends the life of a lease that it grants, or of one that is live. -/
theorem live_of_extended (hs : s.WellFormed) {c : Command}
    (h : c.extended? (c.run now s).1 = some lease) :
    lease ∈ granted [c.exchange now s] ∨ s.Live lease now := by
  cases c with
  | grant ttl =>
      left
      cases hgrant : (s.grant now ttl).1 with
      | error failure => simp [Command.run, Command.extended?, hgrant] at h
      | ok other =>
          simp only [Command.run, Command.extended?, Prod.map_fst, hgrant,
            Option.some.injEq] at h
          simp [granted, Command.exchange, Command.run, Command.granted?, hgrant, h]
  | renew other =>
      right
      exact live_of_extended_renew hs (fun r => Command.extended? (.renew other) (.renewed r))
        (fun _ => rfl) rfl (fun _ => rfl) h
  | keepAlive time period other =>
      right
      exact live_of_extended_renew hs (fun r => Command.extended? (.keepAlive time period other)
        (.opened (AckStream.opening time period other r))) (fun _ => rfl) rfl (fun _ => rfl) h
  | put | delete | putLeased | revoke | expireLease | injectFault | clearFaults | scan | keys
  | leaseOf | leaseCount => cases h

/-! ## Deadlines to come -/

/-- A lease of some length stays at least up to some nanosecond. -/
def Assured (limit : Nat) (lease : LeaseId) (ttl : Int64) (s : MemoryStore) : Prop :=
  ∃ held, (lease, held) ∈ s.leases ∧ held.ttl = ttl ∧ limit ≤ held.deadline.toNat

/-- A lease that is assured up to some moment is live before it. -/
theorem Assured.live {limit : Nat} (h : s.Assured limit lease ttl) (hnow : now.toNat < limit) :
    s.Live lease now := by
  obtain ⟨held, hmem, _, hdeadline⟩ := h
  refine ⟨held, hmem, ?_⟩
  rw [Lease.lapsed, decide_eq_false_iff_not, UInt64.le_iff_toNat_le]
  omega

/-- A lease that is assured beyond the present stays assured, unless it is ended by its number; if
its life is extended, that must not bring its deadline forward. -/
theorem Assured.run {limit : Nat} (h : s.Assured limit lease ttl) (hs : s.WellFormed) {c : Command}
    (hnow : now.toNat < limit) (hdropped : c.dropped? (c.run now s).1 ≠ some lease)
    (hextended : c.extended? (c.run now s).1 = some lease →
      limit ≤ (Lease.granted ttl now).deadline.toNat) :
    (c.run now s).2.Assured limit lease ttl := by
  obtain ⟨held, hmem, httl, hdeadline⟩ := h
  obtain ⟨alive, halive, hlive⟩ := Assured.live ⟨held, hmem, httl, hdeadline⟩ hnow
  obtain rfl := eq_of_mem_leases hs.distinct hmem halive
  by_cases hc : c.extended? (c.run now s).1 = some lease
  · have hrevoke : c ≠ .revoke lease := by
      rintro rfl
      cases hc
    have hexpire : c ≠ .expireLease lease := by
      rintro rfl
      cases hc
    rcases kept_run hs hmem hlive hrevoke hexpire with hkept | hrenewed
    · exact ⟨held, hkept, httl, hdeadline⟩
    · rw [httl] at hrenewed
      exact ⟨_, hrenewed, Lease.granted_ttl ttl now, hextended hc⟩
  · exact ⟨held, kept_lease_run hs hmem hc hdropped hlive, httl, hdeadline⟩

/-- A lease that has lapsed does not come back. -/
theorem GoneBy.run_of_le {limit : Nat} (h : s.GoneBy limit lease) (hs : s.WellFormed)
    (hnumber : lease.id.toInt < s.nextLease.toInt) (hnow : limit ≤ now.toNat) (c : Command) :
    (c.run now s).2.GoneBy limit lease := by
  intro held hmem
  rcases extended_cases hs hmem with ⟨hold, _⟩ | ⟨hextended, _⟩
  · exact h held hold
  · rcases live_of_extended hs hextended with hgranted | ⟨old, hold, hlive⟩
    · rw [(eq_of_mem_granted hgranted).1] at hnumber
      exact absurd hnumber (Int.lt_irrefl _)
    · have hlapsed := h old hold
      rw [Lease.lapsed, decide_eq_false_iff_not, UInt64.le_iff_toNat_le] at hlive
      omega

theorem goneBy_of_not_live (h : ¬ s.Live lease now) : s.GoneBy now.toNat lease := by
  intro held hmem
  by_contra hlate
  refine h ⟨held, hmem, ?_⟩
  rw [Lease.lapsed, decide_eq_false_iff_not, UInt64.le_iff_toNat_le]
  exact hlate

/-- A lease that is gone by some moment is not live from then on. -/
theorem GoneBy.not_live {limit : Nat} (h : s.GoneBy limit lease) (hnow : limit ≤ now.toNat) :
    ¬ s.Live lease now := by
  rintro ⟨held, hmem, hlive⟩
  have := h held hmem
  rw [Lease.lapsed, decide_eq_false_iff_not, UInt64.le_iff_toNat_le] at hlive
  omega

/-! ## What a stream has yielded -/

/-- The lease of the stream that a command has opened, by its answer. -/
def Command.opened? : Command → Answer → Option LeaseId
  | .keepAlive _ _ lease, .opened (.ok _) => some lease
  | _, _ => none

/-- The lease of the stream that was opened in a moment. -/
def Moment.opened? (x : Moment) : Option LeaseId :=
  match x.act, x.outcome with
  | .command c, .answered answer => c.opened? answer
  | _, _ => none

/-- The leases of the streams that were opened, in turn. -/
def openings (xs : List Moment) : List LeaseId :=
  xs.filterMap Moment.opened?

/-- The item that a stream has yielded in a moment. -/
def Moment.item? (i : Nat) (x : Moment) : Option AckItem :=
  match x.act, x.outcome with
  | .poll j _, .item item => if j = i then some item else none
  | _, _ => none

/-- What a stream has yielded. -/
def items (i : Nat) (xs : List Moment) : List AckItem :=
  xs.filterMap (Moment.item? i)

theorem openings_concat (xs : List Moment) (x : Moment) :
    openings (xs ++ [x]) = openings xs ++ x.opened?.toList := by
  rw [openings, List.filterMap_append, List.filterMap_cons]
  cases x.opened? <;> rfl

theorem items_concat (i : Nat) (xs : List Moment) (x : Moment) :
    items i (xs ++ [x]) = items i xs ++ (x.item? i).toList := by
  rw [items, List.filterMap_append, List.filterMap_cons]
  cases x.item? i <;> rfl

/-- Renewals, then nothing or one failure, then the end for good. -/
def InOrder (lease : LeaseId) (ttl : Int64) (yielded : List AckItem) : Prop :=
  ∃ n k, yielded = List.replicate n (.renewed ⟨lease, ttl⟩) ++ List.replicate k .closed ∨
    yielded = List.replicate n (.renewed ⟨lease, ttl⟩) ++
      .failed (fault .keepAlive) :: List.replicate k .closed

/-- Where a stream stands, by what it has yielded. -/
inductive Standing (lease : LeaseId) (ttl : Int64) : List AckItem → AckStream → Prop where
  | running (n : Nat) (ticker : Ticker) :
      Standing lease ttl (List.replicate n (.renewed ⟨lease, ttl⟩)) (.renewing lease ticker)
  | ended (n k : Nat) :
      Standing lease ttl
        (List.replicate n (.renewed ⟨lease, ttl⟩) ++ List.replicate (k + 1) .closed) .finished
  | failed (n k : Nat) :
      Standing lease ttl
        (List.replicate n (.renewed ⟨lease, ttl⟩) ++
          .failed (fault .keepAlive) :: List.replicate k .closed) .finished

variable {yielded : List AckItem} {stream : AckStream}

/-- A stream yields renewals, then perhaps a failure, and then its end for good. -/
theorem Standing.inOrder (h : Standing lease ttl yielded stream) : InOrder lease ttl yielded := by
  cases h with
  | running n => exact ⟨n, 0, Or.inl (List.append_nil _).symm⟩
  | ended n k => exact ⟨n, k + 1, Or.inl rfl⟩
  | failed n k => exact ⟨n, k, Or.inr rfl⟩

/-- A stream that has only renewed so far still runs. -/
theorem Standing.running_of_renewed (h : Standing lease ttl yielded stream)
    (hall : ∀ item ∈ yielded, item = .renewed ⟨lease, ttl⟩) :
    ∃ ticker, stream = .renewing lease ticker := by
  cases h with
  | running n ticker => exact ⟨ticker, rfl⟩
  | ended n k =>
      have hclosed := hall .closed (by simp)
      cases hclosed
  | failed n k =>
      have hfailed := hall (.failed (fault .keepAlive)) (by simp)
      cases hfailed

/-- The item that a poll of a running stream yields. -/
theorem item_of_renewal (hs : s.WellFormed)
    (hlength : ∀ held, (lease, held) ∈ s.leases → held.ttl = ttl) (ticker : Ticker)
    (now : Reading) :
    (s.Live lease now ∧ .keepAlive ∉ s.faults ∧
        AckStream.afterRenewal lease ticker (s.renew now lease).1 =
          (.renewed ⟨lease, ttl⟩, .renewing lease ticker)) ∨
      (.keepAlive ∈ s.faults ∧ AckStream.afterRenewal lease ticker (s.renew now lease).1 =
          (.failed (fault .keepAlive), .finished)) ∨
      ¬ s.Live lease now ∧ .keepAlive ∉ s.faults ∧
        AckStream.afterRenewal lease ticker (s.renew now lease).1 = (.closed, .finished) := by
  have hrenewal := renewal hs now lease
  generalize s.renew now lease = result at hrenewal
  cases hrenewal with
  | refused hfault => exact Or.inr (Or.inl ⟨hfault, rfl⟩)
  | renewed hfault hmem hlive =>
      obtain rfl := hlength _ hmem
      exact Or.inl ⟨⟨_, hmem, hlive⟩, hfault, rfl⟩
  | gone hfault hdead => exact Or.inr (Or.inr ⟨hdead, hfault, rfl⟩)

/-- A poll carries on with what the stream has yielded. -/
theorem Standing.take (h : Standing lease ttl yielded stream) (hs : s.WellFormed)
    (hlength : ∀ held, (lease, held) ∈ s.leases → held.ttl = ttl) (time : Nat) (now : Reading) :
    Standing lease ttl (yielded ++ [(stream.take time now s).1.1])
      (stream.take time now s).1.2 := by
  have hmore (k : Nat) :
      List.replicate k AckItem.closed ++ [.closed] = List.replicate (k + 1) .closed :=
    List.replicate_succ'.symm
  cases h with
  | running n ticker =>
      show Standing lease ttl
        (_ ++ [(AckStream.afterRenewal lease (ticker.take time) (s.renew now lease).1).1])
        (AckStream.afterRenewal lease (ticker.take time) (s.renew now lease).1).2
      rcases item_of_renewal hs hlength (ticker.take time) now with
        ⟨_, _, hitem⟩ | ⟨_, hitem⟩ | ⟨_, _, hitem⟩
      · rw [hitem, ← List.replicate_succ']
        exact .running (n + 1) (ticker.take time)
      · rw [hitem]
        exact .failed n 0
      · rw [hitem]
        exact .ended n 0
  | ended n k =>
      rw [List.append_assoc]
      show Standing lease ttl (_ ++ (List.replicate (k + 1) .closed ++ [.closed])) .finished
      rw [hmore]
      exact .ended n (k + 1)
  | failed n k =>
      rw [List.append_assoc, List.cons_append]
      show Standing lease ttl (_ ++ _ :: (List.replicate k .closed ++ [.closed])) .finished
      rw [hmore]
      exact .failed n (k + 1)

/-! ## All streams of a hub -/

/-- A command opens no stream, or one that runs for a live lease. -/
theorem opened_cases (hs : s.WellFormed) (c : Command) (now : Reading) :
    c.opened? (c.run now s).1 = none ∧ (c.run now s).1.stream? = none ∨
      ∃ lease ticker, s.Live lease now ∧ c.opened? (c.run now s).1 = some lease ∧
        (c.run now s).1.stream? = some (.renewing lease ticker) := by
  cases c with
  | keepAlive time period lease =>
      have hrenewal := renewal hs now lease
      simp only [Command.run]
      generalize s.renew now lease = result at hrenewal
      cases hrenewal with
      | refused => exact Or.inl ⟨rfl, rfl⟩
      | renewed _ hmem hlive => exact Or.inr ⟨lease, _, ⟨_, hmem, hlive⟩, rfl, rfl⟩
      | gone => exact Or.inl ⟨rfl, rfl⟩
  | put | delete | putLeased | grant | renew | revoke | expireLease | injectFault | clearFaults
  | scan | keys | leaseOf | leaseCount => exact Or.inl ⟨rfl, rfl⟩

variable {xs : List Moment} {hub : Hub} {a : Act}

/-- Every stream of a hub stands where it must by what it has yielded. -/
structure Attended (xs : List Moment) (hub : Hub) : Prop where
  length : hub.streams.length = (openings xs).length
  unopened : ∀ i, (openings xs).length ≤ i → items i xs = []
  standing : ∀ i lease, (openings xs)[i]? = some lease →
    ∃ ttl stream, (lease, ttl) ∈ grantedFor (exchanges xs) ∧ hub.streams[i]? = some stream ∧
      Standing lease ttl (items i xs) stream

theorem Attended.empty : Attended [] .empty where
  length := rfl
  unopened := fun _ _ => rfl
  standing := by simp [openings]

/-- What was granted before counts as granted later on. -/
theorem mem_grantedFor_left (xs ys : List Moment) {l : LeaseId × Int64}
    (h : l ∈ grantedFor (exchanges xs)) : l ∈ grantedFor (exchanges (xs ++ ys)) := by
  rw [Hub.exchanges_append, grantedFor_append]
  exact List.mem_append_left _ h

/-- A moment in which no stream is opened or polled. -/
theorem Attended.spare (h : Attended xs hub) {x : Moment} {hub' : Hub} (hopened : x.opened? = none)
    (hitem : ∀ i, x.item? i = none) (hstreams : hub'.streams = hub.streams) :
    Attended (xs ++ [x]) hub' := by
  have hopenings : openings (xs ++ [x]) = openings xs := by
    rw [openings_concat, hopened, Option.toList_none, List.append_nil]
  have hitems (i : Nat) : items i (xs ++ [x]) = items i xs := by
    rw [items_concat, hitem, Option.toList_none, List.append_nil]
  constructor
  · rw [hopenings, hstreams]
    exact h.length
  · intro i hi
    rw [hopenings] at hi
    rw [hitems]
    exact h.unopened i hi
  · intro i lease hi
    rw [hopenings] at hi
    obtain ⟨ttl, stream, hgranted, hmem, hstanding⟩ := h.standing i lease hi
    rw [hstreams, hitems]
    exact ⟨ttl, stream, mem_grantedFor_left _ _ hgranted, hmem, hstanding⟩

/-- A moment in which a stream is opened: it comes last, and nobody has polled it yet. -/
theorem Attended.opening (h : Attended xs hub) {x : Moment} {hub' : Hub} {ticker : Ticker}
    (hopened : x.opened? = some lease) (hitem : ∀ i, x.item? i = none)
    (hstreams : hub'.streams = hub.streams ++ [.renewing lease ticker])
    (hgranted : (lease, ttl) ∈ grantedFor (exchanges xs)) : Attended (xs ++ [x]) hub' := by
  have hopenings : openings (xs ++ [x]) = openings xs ++ [lease] := by
    rw [openings_concat, hopened, Option.toList_some]
  have hitems (i : Nat) : items i (xs ++ [x]) = items i xs := by
    rw [items_concat, hitem, Option.toList_none, List.append_nil]
  constructor
  · rw [hopenings, hstreams, List.length_append, List.length_append, h.length]
    rfl
  · intro i hi
    rw [hopenings, List.length_append] at hi
    rw [hitems]
    exact h.unopened i (Nat.le_trans (Nat.le_add_right _ _) hi)
  · intro i other hi
    rw [hopenings] at hi
    rw [hstreams, hitems]
    by_cases hlt : i < (openings xs).length
    · rw [List.getElem?_append_left hlt] at hi
      obtain ⟨ttl, stream, hgranted, hmem, hstanding⟩ := h.standing i other hi
      rw [List.getElem?_append_left (h.length ▸ hlt)]
      exact ⟨ttl, stream, mem_grantedFor_left _ _ hgranted, hmem, hstanding⟩
    · have hle := Nat.le_of_not_lt hlt
      obtain ⟨hlast, rfl⟩ : i = (openings xs).length ∧ lease = other := by
        rw [List.getElem?_append_right hle, List.getElem?_singleton] at hi
        split at hi
        · exact ⟨by omega, Option.some.inj hi⟩
        · cases hi
      refine ⟨ttl, .renewing lease ticker, mem_grantedFor_left _ _ hgranted, ?_, ?_⟩
      · rw [hlast, ← h.length]
        exact List.getElem?_concat_length
      · rw [h.unopened i hle]
        exact .running 0 ticker

/-- A moment in which a stream is polled. -/
theorem Attended.polled (h : Attended xs hub) {x : Moment} {hub' : Hub} {i : Nat} {item : AckItem}
    {stream stream' : AckStream} (hstream : hub.streams[i]? = some stream)
    (hopened : x.opened? = none) (hitem : ∀ j, x.item? j = if i = j then some item else none)
    (hstreams : hub'.streams = hub.streams.set i stream')
    (htake : ∀ lease ttl yielded, (lease, ttl) ∈ grantedFor (exchanges xs) →
      Standing lease ttl yielded stream → Standing lease ttl (yielded ++ [item]) stream') :
    Attended (xs ++ [x]) hub' := by
  have hopenings : openings (xs ++ [x]) = openings xs := by
    rw [openings_concat, hopened, Option.toList_none, List.append_nil]
  have hrange : i < hub.streams.length := (List.getElem?_eq_some_iff.mp hstream).1
  constructor
  · rw [hopenings, hstreams, List.length_set]
    exact h.length
  · intro j hj
    rw [hopenings] at hj
    have hne : i ≠ j := by
      rw [h.length] at hrange
      omega
    rw [items_concat, hitem, if_neg hne, h.unopened j hj]
    rfl
  · intro j lease hj
    rw [hopenings] at hj
    obtain ⟨ttl, other, hgranted, hmem, hstanding⟩ := h.standing j lease hj
    rw [hstreams, items_concat, hitem]
    by_cases heq : i = j
    · subst heq
      obtain rfl : stream = other := Option.some.inj (hstream.symm.trans hmem)
      rw [if_pos rfl, List.getElem?_set_self hrange]
      exact ⟨ttl, stream', mem_grantedFor_left _ _ hgranted, rfl,
        htake lease ttl _ hgranted hstanding⟩
    · rw [if_neg heq, List.getElem?_set_ne heq, Option.toList_none, List.append_nil]
      exact ⟨ttl, other, mem_grantedFor_left _ _ hgranted, hmem, hstanding⟩

/-- Whatever is done, every stream stands where it must. -/
theorem Attended.act (h : Attended xs hub) (haccounted : Accounted (exchanges xs) hub.store)
    (hterm : Termed (exchanges xs) hub.store) (now : Reading) (a : Act) :
    Attended (xs ++ [a.moment now hub]) (hub.act now a).2 := by
  have hs := haccounted.wellFormed
  cases a with
  | command c =>
      rcases opened_cases hs c now with
        ⟨hopened, hstream⟩ | ⟨lease, ticker, ⟨held, hmem, _⟩, hopened, hstream⟩
      · refine h.spare hopened (fun _ => rfl) ?_
        simp [Hub.act, hstream]
      · have hstreams : (hub.act now (.command c)).2.streams =
            hub.streams ++ [.renewing lease ticker] := by
          simp [Hub.act, hstream]
        exact h.opening hopened (fun _ => rfl) hstreams (hterm lease held hmem).1
  | poll i time =>
      cases hstream : hub.streams[i]? with
      | none =>
          refine h.spare rfl (fun _ => ?_) ?_
          · simp [Moment.item?, Act.moment, Hub.act, hstream]
          · simp [Hub.act, hstream]
      | some stream =>
          have hitem (j : Nat) : ((Act.poll i time).moment now hub).item? j =
              if i = j then some (stream.take time now hub.store).1.1 else none := by
            simp [Moment.item?, Act.moment, Hub.act, hstream]
          have hstreams : (hub.act now (.poll i time)).2.streams =
              hub.streams.set i (stream.take time now hub.store).1.2 := by
            simp [Hub.act, hstream]
          refine h.polled hstream rfl hitem hstreams fun lease ttl yielded hgranted hstanding => ?_
          refine hstanding.take hs (fun held hmem => ?_) time now
          exact eq_of_mem_grantedFor haccounted.nodup (hterm lease held hmem).1 hgranted

/-- In every run, each stream stands where it must by what it has yielded. -/
theorem Hub.Runs.attended (h : Runs .empty xs hub)
    (hgrants : (granted (exchanges xs)).length < 2 ^ 63 - 1) : Attended xs hub := by
  induction h with
  | nil => exact Attended.empty
  | @step xs hub h now a ih =>
      rw [exchanges_append] at hgrants
      have hroom := Nat.lt_of_le_of_lt (length_granted_le _ _) hgrants
      exact (ih hroom).act (h.accounted hroom) (h.termed hroom) now a

/-! ## From a renewal on -/

/-- A lease that is assured up to some nanosecond stays assured in a run that is over by then,
unless it is ended by its number. -/
theorem Hub.Runs.assured {earlier later : List Moment} {mid : Hub} {limit : Nat}
    (hearlier : Runs .empty earlier mid) (h : Runs mid later hub)
    (hgrants : (granted (exchanges (earlier ++ later))).length < 2 ^ 63 - 1)
    (hassured : mid.store.Assured limit lease ttl)
    (hnow : ∀ y ∈ exchanges later, y.now.toNat < limit)
    (hdropped : ∀ y ∈ exchanges later, y.command.dropped? y.answer ≠ some lease)
    (hextended : ∀ y ∈ exchanges later, y.Extends lease →
      limit ≤ (Lease.granted ttl y.now).deadline.toNat) :
    hub.store.Assured limit lease ttl := by
  induction h with
  | nil => exact hassured
  | @step ys hub h now a ih =>
      rw [← List.append_assoc, exchanges_append] at hgrants
      simp only [exchanges_append, List.forall_mem_append] at hnow hdropped hextended
      have hroom := Nat.lt_of_le_of_lt (length_granted_le _ _) hgrants
      have hbefore := ih hroom hnow.1 hdropped.1 hextended.1
      rcases reaches_or_spares hub now a with ⟨c, _, hexchange, hstore⟩ | ⟨_, hstore⟩
      · rw [hexchange] at hnow hdropped hextended
        simp only [List.forall_mem_singleton] at hnow hdropped hextended
        rw [hstore]
        exact hbefore.run ((hearlier.append h).accounted hroom).wellFormed hnow.2 hdropped.2
          hextended.2
      · rw [hstore]
        exact hbefore

/-- A lease that is there in the end has been there since it was granted. -/
theorem Accounted.lease_of_append {ys zs : List Exchange} {s' : MemoryStore} (h : Accounted ys s)
    (h' : Accounted (ys ++ zs) s') (hgranted : lease ∈ granted ys)
    (hlease : lease ∈ s'.leases.map (·.1)) : lease ∈ s.leases.map (·.1) :=
  (h.live lease).mpr ⟨hgranted, fun y hy =>
    ((h'.live lease).mp hlease).2 y (List.mem_append_left _ hy)⟩

/-- What is bound to a lease that is there in the end stays until then, unless its key is named. -/
theorem Hub.Runs.kept_entry {earlier later : List Moment} {mid : Hub} {e : String × Entry}
    (hearlier : Runs .empty earlier mid) (h : Runs mid later hub)
    (hgrants : (granted (exchanges (earlier ++ later))).length < 2 ^ 63 - 1)
    (he : e ∈ mid.store.entries) (hbound : e.2.lease = some lease)
    (hkey : ∀ y ∈ exchanges later, y.command.key? ≠ some e.1)
    (hlease : lease ∈ hub.store.leases.map (·.1)) : e ∈ hub.store.entries := by
  have hgranted : lease ∈ granted (exchanges earlier) := by
    rw [exchanges_append] at hgrants
    have hmid := hearlier.accounted (Nat.lt_of_le_of_lt (length_granted_le _ _) hgrants)
    exact ((hmid.live lease).mp (hmid.wellFormed.bound e he lease hbound)).1
  induction h with
  | nil => exact he
  | @step ys hub h now a ih =>
      have hafter := (hearlier.append (h.step now a)).accounted hgrants
      rw [← List.append_assoc, exchanges_append] at hgrants hafter
      rw [exchanges_append, List.forall_mem_append] at hkey
      have hroom := Nat.lt_of_le_of_lt (length_granted_le _ _) hgrants
      have hbefore := (hearlier.append h).accounted hroom
      have hgranted' : lease ∈ granted (exchanges (earlier ++ ys)) := by
        rw [exchanges_append, granted_append]
        exact List.mem_append_left _ hgranted
      have hkept := ih hroom hkey.1 (hbefore.lease_of_append hafter hgranted' hlease)
      rcases reaches_or_spares hub now a with ⟨c, _, hexchange, hstore⟩ | ⟨_, hstore⟩
      · rw [hexchange, List.forall_mem_singleton] at hkey
        rw [hstore] at hlease ⊢
        refine kept_entry_run hbefore.wellFormed hkept hkey.2 fun other hother => ?_
        obtain rfl := Option.some.inj (hbound.symm.trans hother)
        exact hlease
      · rw [hstore]
        exact hkept

/-- A lease that was granted and has lapsed, or is gone, does not come back. -/
theorem Hub.Runs.goneBy {earlier later : List Moment} {mid : Hub} {limit : Nat}
    (hearlier : Runs .empty earlier mid) (h : Runs mid later hub)
    (hgrants : (granted (exchanges (earlier ++ later))).length < 2 ^ 63 - 1)
    (hgranted : lease ∈ granted (exchanges earlier)) (hgone : mid.store.GoneBy limit lease)
    (hnow : ∀ y ∈ exchanges later, limit ≤ y.now.toNat) : hub.store.GoneBy limit lease := by
  induction h with
  | nil => exact hgone
  | @step ys hub h now a ih =>
      rw [← List.append_assoc, exchanges_append] at hgrants
      simp only [exchanges_append, List.forall_mem_append] at hnow
      have hroom := Nat.lt_of_le_of_lt (length_granted_le _ _) hgrants
      have haccounted := (hearlier.append h).accounted hroom
      rcases reaches_or_spares hub now a with ⟨c, _, hexchange, hstore⟩ | ⟨_, hstore⟩
      · rw [hexchange, List.forall_mem_singleton] at hnow
        rw [hstore]
        refine (ih hroom hnow.1).run_of_le haccounted.wellFormed (haccounted.used lease ?_) hnow.2 c
        rw [exchanges_append, granted_append]
        exact List.mem_append_left _ hgranted
      · rw [hstore]
        exact ih hroom hnow.1

/-! ## One poll -/

/-- The nanoseconds that a lease of some seconds lasts. -/
def lasting (ttl : Int64) : Nat :=
  (Duration.ofSeconds ttl.toInt.toNat).nanos

/-- A deadline that fits into a word is exact. -/
theorem granted_deadline_eq (h : now.toNat + lasting ttl < 2 ^ 64) :
    (Lease.granted ttl now).deadline.toNat = now.toNat + lasting ttl := by
  have hspan : (Lease.span ttl).toNat = lasting ttl := by
    rw [Lease.span, Duration.word, UInt64.toNat_ofNat']
    exact Nat.mod_eq_of_lt (Nat.lt_of_le_of_lt (Nat.le_add_left _ _) h)
  rw [Lease.granted, UInt64.toNat_add, hspan, Nat.mod_eq_of_lt h]

theorem granted_deadline_le_lasting (ttl : Int64) (now : Reading) :
    (Lease.granted ttl now).deadline.toNat ≤ now.toNat + lasting ttl := by
  have hspan : (Lease.span ttl).toNat ≤ lasting ttl := by
    rw [Lease.span, Duration.word, UInt64.toNat_ofNat']
    exact Nat.mod_le _ _
  have hdeadline := granted_deadline_le ttl now
  rw [Lease.granted_ttl] at hdeadline
  omega

/-- A poll has renewed a lease of some length. -/
def Moment.Renews (x : Moment) (lease : LeaseId) (ttl : Int64) : Prop :=
  ∃ i time, x.act = .poll i time ∧ x.outcome = .item (.renewed ⟨lease, ttl⟩)

/-- A poll of a stream that runs is a renewal. -/
theorem Hub.act_poll {i : Nat} {ticker : Ticker}
    (hstream : hub.streams[i]? = some (.renewing lease ticker)) (time : Nat) (now : Reading) :
    (hub.act now (.poll i time)).1 = .item
        (AckStream.afterRenewal lease (ticker.take time) (hub.store.renew now lease).1).1 ∧
      (hub.act now (.poll i time)).2.store = (hub.store.renew now lease).2 ∧
      exchanges [(Act.poll i time).moment now hub] =
        [(Command.renew lease).exchange now hub.store] := by
  refine ⟨?_, ?_, ?_⟩
  · simp [act, hstream, AckStream.take]
  · simp [act, hstream, AckStream.take]
  · simp [exchanges, Moment.exchange?, Act.moment, request?, hstream]

/-- A stream yields renewals of its own lease only. -/
theorem lease_of_afterRenewal {other : LeaseId} {ticker : Ticker}
    {result : Except Failure (Option Int64)}
    (h : (AckStream.afterRenewal other ticker result).1 = .renewed ⟨lease, ttl⟩) :
    other = lease := by
  cases result with
  | error failure => cases h
  | ok renewed =>
      cases renewed with
      | none => cases h
      | some ttl' => exact (LeaseAck.mk.inj (AckItem.renewed.inj h)).1

/-- Only a stream that runs for a lease yields a renewal of it. -/
theorem Attended.running_of_renewed (h : Attended xs hub) {i time : Nat}
    (hitem : (hub.act now (.poll i time)).1 = .item (.renewed ⟨lease, ttl⟩)) :
    ∃ ticker, hub.streams[i]? = some (.renewing lease ticker) := by
  cases hstream : hub.streams[i]? with
  | none =>
      simp only [Hub.act, hstream] at hitem
      cases hitem
  | some stream =>
      have hrange : i < (openings xs).length := by
        rw [← h.length]
        exact (List.getElem?_eq_some_iff.mp hstream).1
      obtain ⟨_, other, _, hother, hstanding⟩ :=
        h.standing i _ (List.getElem?_eq_getElem hrange)
      obtain rfl : stream = other := Option.some.inj (hstream.symm.trans hother)
      simp only [Hub.act, hstream] at hitem
      generalize items i xs = yielded at hstanding
      cases hstanding with
      | running n ticker =>
          refine ⟨ticker, ?_⟩
          rw [lease_of_afterRenewal (Outcome.item.inj hitem)]
      | ended => cases hitem
      | failed => cases hitem

/-- What a renewal does: the lease was live, and has a new deadline. -/
theorem Attended.renews (h : Attended xs hub) (hs : hub.store.WellFormed)
    (hrenews : (a.moment now hub).Renews lease ttl) :
    ∃ held, (lease, held) ∈ hub.store.leases ∧ held.lapsed now = false ∧ held.ttl = ttl ∧
      (lease, Lease.granted ttl now) ∈ (hub.act now a).2.store.leases ∧
      ∃ e ∈ exchanges [a.moment now hub], e.now = now ∧ e.Extends lease := by
  obtain ⟨i, time, hact, hitem⟩ := hrenews
  obtain rfl : a = .poll i time := hact
  obtain ⟨ticker, hstream⟩ := h.running_of_renewed hitem
  obtain ⟨houtcome, hstore, hexchange⟩ := Hub.act_poll hstream time now
  rw [show ((Act.poll i time).moment now hub).outcome = (hub.act now (.poll i time)).1 from rfl,
    houtcome, Outcome.item.injEq] at hitem
  rw [hstore, hexchange]
  have hextends (ttl' : Int64) (hok : (hub.store.renew now lease).1 = .ok (some ttl')) :
      ((Command.renew lease).exchange now hub.store).Extends lease := by
    simp [Exchange.Extends, Command.exchange, Command.run, Command.extended?, hok]
  have hrenewal := renewal hs now lease
  generalize hub.store.renew now lease = result at hitem hextends hrenewal ⊢
  cases hrenewal with
  | refused => cases hitem
  | @renewed held _ hmem hlive =>
      obtain rfl : held.ttl = ttl := (LeaseAck.mk.inj (AckItem.renewed.inj hitem)).2
      refine ⟨held, hmem, hlive, rfl, ?_, _, List.mem_singleton_self _, rfl, hextends _ rfl⟩
      refine List.mem_map.mpr ⟨(lease, held), (mem_leases_purge hs).mpr ⟨hmem, hlive⟩, ?_⟩
      exact if_pos rfl
  | gone => cases hitem

/-! ## The whole run -/

/-- What a store promises about a lease of some length and the streams that renew it, in a run that
has led to some hub. -/
structure Promised (lease : LeaseId) (ttl : Int64) (xs : List Moment) (hub : Hub) : Prop where
  /-- Each stream yields renewals, then nothing or one failure, then the end. -/
  order : ∀ i, (openings xs)[i]? = some lease → InOrder lease ttl (items i xs)
  /-- As long as a stream has only renewed, its next item is a renewal exactly if the lease is live
  at that moment and renewals do not fail, a failure exactly if they fail, and the end exactly if
  they do not and the lease is gone. -/
  item : ∀ earlier x later i time, xs = earlier ++ x :: later → x.act = .poll i time →
    (openings earlier)[i]? = some lease →
    (∀ item ∈ items i earlier, item = .renewed ⟨lease, ttl⟩) →
      (x.outcome = .item (.renewed ⟨lease, ttl⟩) ↔
        x.before.store.Live lease x.now ∧ .keepAlive ∉ x.before.store.faults) ∧
      (x.outcome = .item (.failed (fault .keepAlive)) ↔ .keepAlive ∈ x.before.store.faults) ∧
      (x.outcome = .item .closed ↔
        ¬ x.before.store.Live lease x.now ∧ .keepAlive ∉ x.before.store.faults)
  /-- A renewal puts the deadline to its own time and the whole length of the lease, and not before
  the old one if the clock has not gone back. -/
  deadline : ∀ earlier x later, xs = earlier ++ x :: later → x.Renews lease ttl →
    ∃ old new, (lease, old) ∈ x.before.store.leases ∧ (lease, new) ∈ x.after.store.leases ∧
      new.deadline.toNat = x.now.toNat + lasting ttl ∧
      ((∀ y ∈ earlier, y.now ≤ x.now) → old.deadline ≤ new.deadline)
  /-- After a renewal the lease stays live up to that deadline, unless it is ended by its number,
  and so stays every key that is or comes to be bound to it, unless it is written or deleted. -/
  stays : ∀ earlier x later (t : Reading), xs = earlier ++ x :: later → x.Renews lease ttl →
    (∀ y ∈ later, x.now ≤ y.now ∧ y.now ≤ t) → t.toNat < x.now.toNat + lasting ttl →
    (∀ y ∈ exchanges later, y.command.dropped? y.answer ≠ some lease) →
      hub.store.Live lease t ∧
        ∀ first y rest, x :: later = first ++ y :: rest →
          ∀ e ∈ y.after.store.entries, e.2.lease = some lease →
            (∀ z ∈ exchanges rest, z.command.key? ≠ some e.1) → e ∈ (hub.store.purge t).entries
  /-- Once the lease has lapsed or is gone, no poll brings it back, nor does anything else. -/
  gone : ∀ earlier x later (t : Reading), xs = earlier ++ x :: later →
    lease ∈ granted (exchanges earlier) → ¬ x.before.store.Live lease x.now →
    (∀ y ∈ later, x.now ≤ y.now) → x.now ≤ t → ¬ hub.store.Live lease t

variable {earlier later : List Moment} {x : Moment}

/-- There were no more grants before some moment than in the end. -/
theorem granted_lt_of_append (hxs : xs = earlier ++ x :: later)
    (hgrants : (granted (exchanges xs)).length < 2 ^ 63 - 1) :
    (granted (exchanges earlier)).length < 2 ^ 63 - 1 := by
  rw [hxs, Hub.exchanges_append] at hgrants
  exact Nat.lt_of_le_of_lt (length_granted_le _ _) hgrants

/-- What a poll yields is settled by what holds at its moment. -/
theorem Hub.Runs.item_of_poll (h : Runs .empty xs hub)
    (hgrants : (granted (exchanges xs)).length < 2 ^ 63 - 1)
    (hgranted : (lease, ttl) ∈ grantedFor (exchanges xs)) {i time : Nat}
    (hxs : xs = earlier ++ x :: later) (hact : x.act = .poll i time)
    (hopened : (openings earlier)[i]? = some lease)
    (hall : ∀ item ∈ items i earlier, item = .renewed ⟨lease, ttl⟩) :
    (x.before.store.Live lease x.now ∧ .keepAlive ∉ x.before.store.faults ∧
        x.outcome = .item (.renewed ⟨lease, ttl⟩)) ∨
      (.keepAlive ∈ x.before.store.faults ∧ x.outcome = .item (.failed (fault .keepAlive))) ∨
      ¬ x.before.store.Live lease x.now ∧ .keepAlive ∉ x.before.store.faults ∧
        x.outcome = .item .closed := by
  obtain ⟨hearlier, hx, _⟩ := h.at_moment hxs
  have hroom := granted_lt_of_append hxs hgrants
  have hlength (ttl' : Int64) (hmem : (lease, ttl') ∈ grantedFor (exchanges earlier)) :
      ttl' = ttl := by
    have hlater := mem_grantedFor_left earlier (x :: later) hmem
    rw [← hxs] at hlater
    exact eq_of_mem_grantedFor (h.accounted hgrants).nodup hlater hgranted
  obtain ⟨ttl', stream, hgranted', hstream, hstanding⟩ :=
    (hearlier.attended hroom).standing i lease hopened
  obtain rfl := hlength ttl' hgranted'
  obtain ⟨ticker, rfl⟩ := hstanding.running_of_renewed hall
  have houtcome : x.outcome = .item
      (AckStream.afterRenewal lease (ticker.take time) (x.before.store.renew x.now lease).1).1 := by
    rw [congrArg Moment.outcome hx, hact]
    exact (Hub.act_poll hstream time x.now).1
  have hterm := hearlier.termed hroom
  rw [houtcome]
  rcases item_of_renewal (hearlier.accounted hroom).wellFormed
      (fun held hmem => hlength held.ttl (hterm lease held hmem).1) (ticker.take time) x.now with
    ⟨hlive, hfault, hitem⟩ | ⟨hfault, hitem⟩ | ⟨hdead, hfault, hitem⟩
  · exact Or.inl ⟨hlive, hfault, by rw [hitem]⟩
  · exact Or.inr (Or.inl ⟨hfault, by rw [hitem]⟩)
  · exact Or.inr (Or.inr ⟨hdead, hfault, by rw [hitem]⟩)

/-- A renewal in a run: the lease was live, and has a new deadline. -/
theorem Hub.Runs.renews (h : Runs .empty xs hub)
    (hgrants : (granted (exchanges xs)).length < 2 ^ 63 - 1) (hxs : xs = earlier ++ x :: later)
    (hrenews : x.Renews lease ttl) :
    ∃ held, (lease, held) ∈ x.before.store.leases ∧ held.lapsed x.now = false ∧ held.ttl = ttl ∧
      (lease, Lease.granted ttl x.now) ∈ x.after.store.leases ∧
      ∃ e ∈ exchanges [x], e.now = x.now ∧ e.Extends lease := by
  obtain ⟨hearlier, hx, _⟩ := h.at_moment hxs
  have hroom := granted_lt_of_append hxs hgrants
  rw [hx] at hrenews
  have hspec := (hearlier.attended hroom).renews (hearlier.accounted hroom).wellFormed hrenews
  rwa [← hx, ← show x.after = (x.before.act x.now x.act).2 from congrArg Moment.after hx] at hspec

/-- A renewal puts the deadline to its own time and the whole length of the lease. -/
theorem Hub.Runs.deadline_of_renewal (h : Runs .empty xs hub)
    (hgrants : (granted (exchanges xs)).length < 2 ^ 63 - 1)
    (hroom : ∀ y ∈ exchanges xs, y.Extends lease → y.now.toNat + lasting ttl < 2 ^ 64)
    (hxs : xs = earlier ++ x :: later) (hrenews : x.Renews lease ttl) :
    (Lease.granted ttl x.now).deadline.toNat = x.now.toNat + lasting ttl := by
  obtain ⟨_, _, _, _, _, e, he, hnow, hextends⟩ := h.renews hgrants hxs hrenews
  rw [hxs, List.append_cons, exchanges_append, exchanges_append] at hroom
  have hfits := hroom e (List.mem_append_left _ (List.mem_append_right _ he)) hextends
  rw [hnow] at hfits
  exact granted_deadline_eq hfits

/-- As long as the clock has not gone back, no lease lasts longer than if it were renewed now. -/
theorem Hub.Runs.deadline_le (h : Runs .empty xs hub)
    (hgrants : (granted (exchanges xs)).length < 2 ^ 63 - 1) {held : Lease}
    (hmem : (lease, held) ∈ hub.store.leases) (hclock : ∀ y ∈ xs, y.now ≤ now) :
    held.deadline.toNat ≤ now.toNat + lasting held.ttl := by
  obtain ⟨_, y, hy, _, hheld⟩ := h.termed hgrants lease held hmem
  obtain ⟨z, hz, hyz⟩ := now_of_mem_exchanges hy
  have hdeadline := granted_deadline_le_lasting held.ttl y.now
  rw [← hheld, hyz] at hdeadline
  have hle := UInt64.le_iff_toNat_le.mp (hclock z hz)
  omega

/-- After a renewal the lease is assured until the new deadline. -/
theorem Hub.Runs.assured_of_renewal (h : Runs .empty xs hub)
    (hgrants : (granted (exchanges xs)).length < 2 ^ 63 - 1)
    (hroom : ∀ y ∈ exchanges xs, y.Extends lease → y.now.toNat + lasting ttl < 2 ^ 64)
    (hxs : xs = earlier ++ x :: later) (hrenews : x.Renews lease ttl)
    (hclock : ∀ y ∈ exchanges later, x.now.toNat ≤ y.now.toNat ∧
      y.now.toNat < x.now.toNat + lasting ttl)
    (hdropped : ∀ y ∈ exchanges later, y.command.dropped? y.answer ≠ some lease) :
    hub.store.Assured (x.now.toNat + lasting ttl) lease ttl := by
  obtain ⟨hearlier, hx, hlater⟩ := h.at_moment hxs
  obtain ⟨_, _, _, _, hmem, _⟩ := h.renews hgrants hxs hrenews
  have hdeadline := h.deadline_of_renewal hgrants hroom hxs hrenews
  rw [hxs, List.append_cons] at hgrants hroom
  rw [exchanges_append] at hroom
  have hassured : x.after.store.Assured (x.now.toNat + lasting ttl) lease ttl :=
    ⟨_, hmem, rfl, hdeadline.ge⟩
  refine (hearlier.append (.single hx)).assured hlater hgrants hassured
    (fun y hy => (hclock y hy).2) hdropped fun y hy hextends => ?_
  rw [granted_deadline_eq (hroom y (List.mem_append_right _ hy) hextends)]
  exact Nat.add_le_add_right (hclock y hy).1 _

/-- What is bound to a lease that is live at some reading in the end is there at that reading,
unless its key is named in between. -/
theorem Hub.Runs.mem_entries_of_live (h : Runs .empty xs hub)
    (hgrants : (granted (exchanges xs)).length < 2 ^ 63 - 1) (hxs : xs = earlier ++ x :: later)
    {t : Reading} (hlive : hub.store.Live lease t) {e : String × Entry}
    (he : e ∈ x.after.store.entries) (hbound : e.2.lease = some lease)
    (hkey : ∀ y ∈ exchanges later, y.command.key? ≠ some e.1) :
    e ∈ (hub.store.purge t).entries := by
  obtain ⟨hearlier, hx, hlater⟩ := h.at_moment hxs
  obtain ⟨alive, halive, hlapsed⟩ := hlive
  have hs := (h.accounted hgrants).wellFormed
  rw [hxs, List.append_cons] at hgrants
  have hkept := (hearlier.append (.single hx)).kept_entry hlater hgrants he hbound hkey
    (List.mem_map_of_mem halive)
  refine mem_entries_purge_of_lease hs hkept fun other hother => ?_
  obtain rfl := Option.some.inj (hbound.symm.trans hother)
  exact List.mem_map_of_mem ((mem_leases_purge hs).mpr ⟨halive, hlapsed⟩)

/-- Once a lease has lapsed or is gone, it is not live again. -/
theorem Hub.Runs.not_live_again (h : Runs .empty xs hub)
    (hgrants : (granted (exchanges xs)).length < 2 ^ 63 - 1) (hxs : xs = earlier ++ x :: later)
    (hgranted : lease ∈ granted (exchanges earlier)) (hdead : ¬ x.before.store.Live lease x.now)
    (hclock : ∀ y ∈ later, x.now ≤ y.now) {t : Reading} (ht : x.now ≤ t) :
    ¬ hub.store.Live lease t := by
  obtain ⟨hearlier, hx, hlater⟩ := h.at_moment hxs
  have hrest : Runs x.before (x :: later) hub := (Hub.Runs.single hx).append hlater
  rw [hxs] at hgrants
  have hgone : hub.store.GoneBy x.now.toNat lease := by
    refine hearlier.goneBy hrest hgrants hgranted (goneBy_of_not_live hdead) fun y hy => ?_
    obtain ⟨z, hz, hyz⟩ := now_of_mem_exchanges hy
    rw [hyz, ← UInt64.le_iff_toNat_le]
    rcases List.mem_cons.mp hz with rfl | hz
    · exact UInt64.le_refl _
    · exact hclock z hz
  exact hgone.not_live (UInt64.le_iff_toNat_le.mp ht)

/-- As long as there are lease numbers and deadlines fit into the clock's word, a store keeps in
every run what it promises about a granted lease and its streams. -/
theorem Hub.Runs.renews_as_promised (h : Runs .empty xs hub)
    (hgrants : (granted (exchanges xs)).length < 2 ^ 63 - 1)
    (hgranted : (lease, ttl) ∈ grantedFor (exchanges xs))
    (hroom : ∀ y ∈ exchanges xs, y.Extends lease → y.now.toNat + lasting ttl < 2 ^ 64) :
    Promised lease ttl xs hub where
  order i hopened := by
    obtain ⟨ttl', _, hgranted', _, hstanding⟩ := (h.attended hgrants).standing i lease hopened
    obtain rfl := eq_of_mem_grantedFor (h.accounted hgrants).nodup hgranted hgranted'
    exact hstanding.inOrder
  item earlier x later i time hxs hact hopened hall := by
    rcases h.item_of_poll hgrants hgranted hxs hact hopened hall with
      ⟨hlive, hfault, hitem⟩ | ⟨hfault, hitem⟩ | ⟨hdead, hfault, hitem⟩
    · simp [hitem, hlive, hfault]
    · simp [hitem, hfault]
    · simp [hitem, hdead, hfault]
  deadline earlier x later hxs hrenews := by
    obtain ⟨old, hold, _, rfl, hnew, _⟩ := h.renews hgrants hxs hrenews
    have hdeadline := h.deadline_of_renewal hgrants hroom hxs hrenews
    refine ⟨old, _, hold, hnew, hdeadline, fun hclock => ?_⟩
    rw [UInt64.le_iff_toNat_le, hdeadline]
    exact (h.at_moment hxs).1.deadline_le (granted_lt_of_append hxs hgrants) hold hclock
  stays earlier x later t hxs hrenews hclock ht hdropped := by
    have htimes (y : Exchange) (hy : y ∈ exchanges later) : x.now.toNat ≤ y.now.toNat ∧
        y.now.toNat < x.now.toNat + lasting ttl := by
      obtain ⟨z, hz, hyz⟩ := Hub.now_of_mem_exchanges hy
      obtain ⟨hfrom, hto⟩ := hclock z hz
      rw [UInt64.le_iff_toNat_le] at hfrom hto
      rw [hyz]
      exact ⟨hfrom, Nat.lt_of_le_of_lt hto ht⟩
    have hlive := (h.assured_of_renewal hgrants hroom hxs hrenews htimes hdropped).live ht
    refine ⟨hlive, fun first y rest hrest e => ?_⟩
    rw [hrest, ← List.append_assoc] at hxs
    exact h.mem_entries_of_live hgrants hxs hlive
  gone _ _ _ _ hxs hmem hdead hclock ht := h.not_live_again hgrants hxs hmem hdead hclock ht

/-- A lease of two seconds with a key and two streams. One of them is polled while renewals fail;
the other one goes on after that, until it is polled too late. -/
def polled : List (Reading × Act) :=
  [(5, .command (.grant 2)), (6, .command (.putLeased "a" [1] ⟨1⟩)),
    (7, .command (.keepAlive 0 none ⟨1⟩)), (7, .command (.keepAlive 0 (some ⟨100⟩) ⟨1⟩)),
    (8, .poll 0 1), (9, .command (.injectFault .keepAlive)), (10, .poll 1 1),
    (11, .command .clearFaults), (12, .poll 1 2), (1900000000, .poll 0 1900),
    (3800000000, .command .keys), (3900000000, .poll 0 3900), (3900000000, .poll 0 3901)]

/-- The run with two streams meets the conditions. -/
theorem Hub.Runs.renews_as_promised_polled :
    Promised ⟨1⟩ 2 (history polled).1 (history polled).2 ∧
      items 0 (history polled).1 =
        [.renewed ⟨⟨1⟩, 2⟩, .renewed ⟨⟨1⟩, 2⟩, .closed, .closed] ∧
      items 1 (history polled).1 = [.failed (fault .keepAlive), .closed] := by
  refine ⟨?_, by decide +kernel, by decide +kernel⟩
  refine (runs_history polled).renews_as_promised (by decide +kernel) (by decide +kernel) ?_
  unfold Exchange.Extends
  decide +kernel

end MemoryStore
end ServiceDiscovery
