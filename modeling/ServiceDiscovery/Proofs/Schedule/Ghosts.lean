import ServiceDiscovery.Proofs.Schedule.Deeds
import ServiceDiscovery.Proofs.Store.Lifetimes

/-!
# Ghosts vanish

A key outlives its lease in two places: in the store until somebody purges it, and in
a registry until its expiry window is over.  Both are lazy, and still the key is not
shown any more once the lease has lapsed and the window has passed after that: from
the deadline on no refresh finds the key.

Main results:

- Definitions {lit}`lastTold`, {lit}`extendedAt?` and {lit}`Lapse`: what a log tells
  of a key and of the life of a lease.
- Theorem {lit}`Trace.logged`: what the store has agrees with the log.
- Theorem {lit}`Trace.activeAt_le`: no client sees a key after its lease has lapsed.
- Theorem {lit}`Trace.ghosts_vanish`: no query shows the key once the expiry window
  has passed as well.
-/

namespace ServiceDiscovery

open MemoryStore (Command Answer)

/-! ## What a log tells -/

/-- What the answer to a command tells, if the deed is one. -/
def Deed.told? {α : Type} (f : Command → Answer → Option α) : Deed → Option α
  | .command c answer => f c answer
  | _ => none

/-- What answers have told last about something that has a name. -/
def lastTold {κ ν : Type} [DecidableEq κ] (f : Command → Answer → Option (κ × ν)) (k : κ)
    (log : List Record) : Option ν :=
  log.findSome? fun r => ((r.deed.told? f).filter fun p => p.1 = k).map (·.2)

/-- When a lease was last granted or renewed. -/
def extendedAt? (lease : LeaseId) (log : List Record) : Option Reading :=
  (log.find? fun r => r.deed.told? Command.extended? = some lease).map (·.now)

/-- The nanosecond from which on a lease is gone for good: it was not extended in time, or it was
given back and not granted since. -/
inductive Lapse (lease : LeaseId) : List Record → Nat → Prop where
  | unextended {log : List Record} {r : Reading} {ttl : Int64}
      (hgranted : lastTold Command.granted? lease log = some ttl)
      (hextended : extendedAt? lease log = some r) :
      Lapse lease log (r.toNat + ttl.toInt.toNat * 1000000000)
  | dropped {newer older : List Record} {r : Record}
      (hdropped : r.deed.told? Command.dropped? = some lease)
      (hnewer : ∀ x ∈ newer, x.deed.told? Command.extended? ≠ some lease) :
      Lapse lease (newer ++ r :: older) r.now.toNat

/-- The clock has not gone back between the deeds of a log, nor since. -/
def Advancing (now : Reading) : List Record → Prop
  | [] => True
  | r :: log => r.now ≤ now ∧ Advancing r.now log

section

variable {κ ν : Type} [DecidableEq κ] {f : Command → Answer → Option (κ × ν)} {k : κ} {v : ν}
  {lease : LeaseId} {log : List Record} {r : Record}

/-- The latest answer about something is the last one that was told. -/
theorem lastTold_cons_of_told (h : r.deed.told? f = some (k, v)) :
    lastTold f k (r :: log) = some v := by
  simp [lastTold, h]

/-- Deeds that tell nothing about it change nothing. -/
theorem lastTold_cons_of_not (h : ∀ v, r.deed.told? f ≠ some (k, v)) :
    lastTold f k (r :: log) = lastTold f k log := by
  unfold lastTold
  cases htold : r.deed.told? f with
  | none => simp [htold]
  | some p =>
      have hne : p.1 ≠ k := by
        rintro rfl
        exact h p.2 htold
      simp [htold, hne]

/-- A lease that is granted or renewed was extended just now. -/
theorem extendedAt?_cons_of_extended (h : r.deed.told? Command.extended? = some lease) :
    extendedAt? lease (r :: log) = some r.now := by
  simp [extendedAt?, h]

/-- Other deeds extend no lease. -/
theorem extendedAt?_cons_of_not (h : r.deed.told? Command.extended? ≠ some lease) :
    extendedAt? lease (r :: log) = extendedAt? lease log := by
  simp [extendedAt?, h]

theorem Deed.extended_of_granted {deed : Deed} {ttl : Int64}
    (h : deed.told? Command.granted? = some (lease, ttl)) :
    deed.told? Command.extended? = some lease := by
  cases deed with
  | command c answer => exact Command.extended?_of_granted? h
  | refresh | query | aside => cases h

/-- A moment that is over by the time of the last deed was set before. -/
theorem Lapse.of_cons {limit : Nat} (h : Lapse lease (r :: log) limit)
    (hlimit : limit < r.now.toNat) :
    Lapse lease log limit ∧ r.deed.told? Command.extended? ≠ some lease := by
  generalize hlog : r :: log = log' at h
  cases h with
  | @unextended _ since ttl hgranted hextended =>
      subst hlog
      have hnot : r.deed.told? Command.extended? ≠ some lease := by
        intro htold
        rw [extendedAt?_cons_of_extended htold] at hextended
        rw [Option.some.inj hextended] at hlimit
        omega
      have hungranted (ttl : Int64) : r.deed.told? Command.granted? ≠ some (lease, ttl) :=
        fun htold => hnot (Deed.extended_of_granted htold)
      rw [extendedAt?_cons_of_not hnot] at hextended
      rw [lastTold_cons_of_not hungranted] at hgranted
      exact ⟨.unextended hgranted hextended, hnot⟩
  | @dropped newer older d hdropped hnewer =>
      cases newer with
      | nil =>
          obtain ⟨rfl, _⟩ := List.cons.inj hlog
          exact absurd hlimit (Nat.lt_irrefl _)
      | cons x newer =>
          obtain ⟨rfl, rfl⟩ := List.cons.inj hlog
          rw [List.forall_mem_cons] at hnewer
          exact ⟨.dropped hdropped hnewer.2, hnewer.1⟩

end

/-! ## The store and the log -/

namespace Environment

variable {env env' : Environment} {deed : Deed} {log : List Record} {client : Nat} {key : String}

/-- What the store has agrees with what the log tells. -/
structure Logged (env : Environment) (log : List Record) : Prop where
  entries : ∀ key e, (key, e) ∈ env.store.entries →
    lastTold Command.written? key log = some e.lease
  leases : ∀ lease held, (lease, held) ∈ env.store.leases →
    lastTold Command.granted? lease log = some held.ttl ∧
      ∃ since, extendedAt? lease log = some since ∧ held = Lease.granted held.ttl since

/-- Deeds that are no commands purge the store at most. -/
theorem Does.store_of_quiet (h : env.Does deed env')
    (hdeed : ∀ c answer, deed ≠ .command c answer) :
    env'.store = env.store ∨ env'.store = env.store.purge env.now := by
  rcases h.store_cases with hstore | ⟨c, hstore, hc | ⟨rfl, _⟩⟩
  · exact Or.inl hstore
  · exact absurd hc (hdeed c _)
  · exact Or.inr hstore

/-- An entry was there before and its key was not written, or the deed tells that it was. -/
theorem Does.entries_told (h : env.Does deed env') (hsound : env.Sound) {e : Entry}
    (he : (key, e) ∈ env'.store.entries) :
    deed.told? Command.written? = some (key, e.lease) ∨
      (key, e) ∈ env.store.entries ∧ ∀ lease, deed.told? Command.written? ≠ some (key, lease) := by
  have hs := hsound.store.wellFormed
  cases deed with
  | command c answer =>
      cases h
      exact MemoryStore.mem_entries_run hs he
  | refresh | query | aside =>
      refine Or.inr ⟨?_, nofun⟩
      rcases h.store_of_quiet fun _ _ => Deed.noConfusion with hstore | hstore
      · exact hstore ▸ he
      · exact MemoryStore.mem_entries_of_purge hs (hstore ▸ he)

/-- A lease is what it was, unless the deed tells that its life was extended just now. -/
theorem Does.leases_told (h : env.Does deed env') (hsound : env.Sound) {lease : LeaseId}
    {held : Lease} (hmem : (lease, held) ∈ env'.store.leases) :
    MemoryStore.ExtendedCases env.now env.store lease held (deed.told? Command.extended?)
      (deed.told? Command.granted?) := by
  have hs := hsound.store.wellFormed
  cases deed with
  | command c answer =>
      cases h
      exact MemoryStore.extended_cases hs hmem
  | refresh | query | aside =>
      refine Or.inl ⟨?_, nofun⟩
      rcases h.store_of_quiet fun _ _ => Deed.noConfusion with hstore | hstore
      · exact hstore ▸ hmem
      · exact ((MemoryStore.mem_leases_purge hs).mp (hstore ▸ hmem)).1

/-- With every deed the store agrees with the log as it grows. -/
theorem Does.logged (h : env.Does deed env') (hsound : env.Sound) (hlogged : env.Logged log) :
    env'.Logged (⟨env.now, deed⟩ :: log) where
  entries := by
    intro key e he
    rcases h.entries_told hsound he with htold | ⟨he, hnot⟩
    · exact lastTold_cons_of_told htold
    · rw [lastTold_cons_of_not hnot]
      exact hlogged.entries key e he
  leases := by
    intro lease held hmem
    rcases h.leases_told hsound hmem with ⟨hold, hnot⟩ | ⟨htold, hheld, hgranted⟩
    · have hungranted (ttl : Int64) : deed.told? Command.granted? ≠ some (lease, ttl) :=
        fun htold => hnot (Deed.extended_of_granted htold)
      rw [lastTold_cons_of_not hungranted, extendedAt?_cons_of_not hnot]
      exact hlogged.leases lease held hold
    · refine ⟨?_, env.now, extendedAt?_cons_of_extended htold, hheld⟩
      rcases hgranted with ⟨⟨old, hold, httl⟩, hnone⟩ | hgranted
      · rw [lastTold_cons_of_not (by rw [hnone]; exact nofun), ← httl]
        exact (hlogged.leases lease old hold).1
      · exact lastTold_cons_of_told hgranted

/-- A deed makes no instance look younger than the present reading. -/
theorem Does.activeAt_le (h : env.Does deed env') (hsound : env.Sound)
    (hplants : ¬ deed.Plants client key)
    (hold : ∀ i, (env.registry client).get? key = some i → i.activeAt ≤ env.now) {i : Instance}
    (hi : (env'.registry client).get? key = some i) : i.activeAt ≤ env.now := by
  rcases h.get?_cases hsound hi with ⟨old, hget, heq⟩ | ⟨_, _, _, _, _, _, hremembered⟩ | hplanted
  · rw [heq]
    exact hold old hget
  · rcases Finding.activeAt_of_remembered hremembered with hactive | hget
    · rw [hactive]
      exact UInt64.le_refl _
    · exact hold i hget
  · exact absurd hplanted hplants

end Environment

/-! ## Traces from the beginning -/

namespace Trace

variable {env₀ env : Environment} {log : List Record} {client : Nat} {key : String}
  {lease : LeaseId} {limit : Nat} {clock : Clock} {configs : List Config}

/-- What the store has agrees with the log of all that has happened. -/
theorem logged (h : Trace (.initial clock configs) log env) : env.Logged log := by
  induction h with
  | nil => exact ⟨nofun, nofun⟩
  | cons before does _ ih => exact does.logged (before.sound (Environment.sound_initial _ _)) ih

/-- A lease that was given back, and not granted since, is gone. -/
theorem not_mem_of_dropped {newer older : List Record} {r : Record}
    (h : Trace env₀ (newer ++ r :: older) env) (hsound : env₀.Sound)
    (hdropped : r.deed.told? Command.dropped? = some lease)
    (hnewer : ∀ x ∈ newer, x.deed.told? Command.extended? ≠ some lease) :
    lease ∉ env.store.leases.map (·.1) := by
  induction newer generalizing env with
  | nil =>
      cases h with
      | @cons _ _ _ deed before does _ =>
          cases deed with
          | command c answer =>
              cases does
              exact MemoryStore.not_mem_leases_of_dropped hdropped
          | refresh | query | aside => cases hdropped
  | cons x newer ih =>
      rw [List.forall_mem_cons] at hnewer
      cases h with
      | cons before does _ =>
          intro hmem
          obtain ⟨⟨lease, held⟩, hheld, rfl⟩ := List.mem_map.mp hmem
          rcases does.leases_told (before.sound hsound) hheld with ⟨hold, _⟩ | ⟨htold, _⟩
          · exact ih before hnewer.2 (List.mem_map_of_mem hold)
          · exact hnewer.1 htold

/-- A lease lasts no longer than its seconds. -/
theorem span_le (ttl : Int64) : (Lease.span ttl).toNat ≤ ttl.toInt.toNat * 1000000000 := by
  rw [Lease.span, Duration.word, UInt64.toNat_ofNat', Duration.ofSeconds]
  exact Nat.mod_le _ _

/-- A lease is gone from the store at the moment that the log tells. -/
theorem goneBy (h : Trace (.initial clock configs) log env) (hlapse : Lapse lease log limit) :
    env.store.GoneBy limit lease := by
  intro held hmem
  cases hlapse with
  | @unextended _ since ttl hgranted hextended =>
      obtain ⟨httl, since', hsince, hheld⟩ := h.logged.leases lease held hmem
      rw [hgranted] at httl
      rw [hextended] at hsince
      cases httl
      cases hsince
      have hdeadline := MemoryStore.granted_deadline_le held.ttl since
      rw [Lease.granted_ttl, ← hheld] at hdeadline
      exact hdeadline.trans (Nat.add_le_add_left (span_le _) _)
  | dropped hdropped hnewer =>
      exact absurd (List.mem_map_of_mem hmem)
        (h.not_mem_of_dropped (Environment.sound_initial _ _) hdropped hnewer)

/-- After the moment that the log tells the lease has lapsed, if it is still there. -/
theorem not_live (h : Trace (.initial clock configs) log env) (hlapse : Lapse lease log limit)
    (hlater : limit < env.now.toNat) :
    ¬ ∃ held, (lease, held) ∈ env.store.leases ∧ held.lapsed env.now = false := by
  rintro ⟨held, hmem, hlive⟩
  have hdeadline := h.goneBy hlapse held hmem
  rw [Lease.lapsed, decide_eq_false_iff_not, UInt64.le_iff_toNat_le] at hlive
  omega

/-- No sighting is in the future, as long as the clock does not go back. -/
theorem activeAt_le_now (h : Trace (.initial clock configs) log env)
    (hclock : Advancing env.now log) (hplants : ∀ r ∈ log, ¬ r.deed.Plants client key)
    {i : Instance} (hi : (env.registry client).get? key = some i) : i.activeAt ≤ env.now := by
  induction h generalizing i with
  | nil =>
      rw [Environment.get?_initial] at hi
      cases hi
  | cons before does _ ih =>
      rw [List.forall_mem_cons] at hplants
      have hnow := does.activeAt_le (before.sound (Environment.sound_initial _ _)) hplants.1
        (fun _ => ih hclock.2 hplants.2) hi
      exact UInt64.le_trans hnow hclock.1

/-- No client sees a key after the lease is gone under which it was written last. -/
theorem activeAt_le (h : Trace (.initial clock configs) log env)
    (hclock : Advancing env.now log) (hplants : ∀ r ∈ log, ¬ r.deed.Plants client key)
    (hwritten : lastTold Command.written? key log = some (some lease))
    (hlapse : Lapse lease log limit) {i : Instance}
    (hi : (env.registry client).get? key = some i) : i.activeAt.toNat ≤ limit := by
  induction h generalizing i with
  | nil =>
      rw [Environment.get?_initial] at hi
      cases hi
  | @cons log env env' deed before does _ ih =>
      have hsound := before.sound (Environment.sound_initial _ _)
      have hs := hsound.store.wellFormed
      rw [List.forall_mem_cons] at hplants
      have hnow := does.activeAt_le hsound hplants.1
        (fun _ => before.activeAt_le_now hclock.2 hplants.2) hi
      by_contra hyounger
      have hlater : limit < env.now.toNat :=
        Nat.lt_of_lt_of_le (Nat.lt_of_not_le hyounger) (UInt64.le_iff_toNat_le.mp hnow)
      obtain ⟨hlapsed, _⟩ := hlapse.of_cons hlater
      -- The lease was gone before the last deed already, so this deed has neither written the key
      -- under it nor found the key; and what was seen before is within the limit by induction.
      have hdead := before.not_live hlapsed hlater
      have hunwritten (l : Option LeaseId) :
          deed.told? Command.written? ≠ some (key, l) := by
        intro htold
        have hlast : lastTold Command.written? key (⟨env.now, deed⟩ :: log) = some l :=
          lastTold_cons_of_told htold
        rw [hwritten] at hlast
        cases hlast
        cases deed with
        | command c answer =>
            cases does
            exact hdead (MemoryStore.live_of_written hs htold)
        | refresh | query | aside => cases htold
      rw [lastTold_cons_of_not hunwritten] at hwritten
      rcases does.get?_cases hsound hi with ⟨old, hold, heq⟩ |
        ⟨root, value, bound, _, _, hentry, _⟩ | hplanted
      · have hactive := ih hclock.2 hplants.2 hwritten hlapsed hold
        rw [heq] at hyounger
        exact hyounger hactive
      · have hlast := before.logged.entries key _ (MemoryStore.mem_entries_of_purge hs hentry)
        rw [hwritten] at hlast
        exact hdead (MemoryStore.live_of_mem_entries_purge hs hentry (Option.some.inj hlast).symm)
      · exact absurd hplanted hplants.1

/-- Ghosts vanish. Whatever tasks and others do to the store and to the registries, in whatever
order, as long as the clock does not go back and nobody puts the key into the client's registry by
hand: let the key have been written last under a lease, and let the lease be gone from some
nanosecond on, because it was not extended any more or because it was given back. Once the client's
expiry window has passed after that, none of its queries shows the key. -/
theorem ghosts_vanish (h : Trace (.initial clock configs) log env)
    (hclock : Advancing env.now log) (hplants : ∀ r ∈ log, ¬ r.deed.Plants client key)
    (hwritten : lastTold Command.written? key log = some (some lease))
    (hlapse : Lapse lease log limit)
    (hlater : limit + (env.registry client).window.toNat ≤ env.now.toNat) :
    env.Hides client key := by
  have hdistinct := (h.sound (Environment.sound_initial _ _)).distinct client
  refine Environment.hides_of_conceals hdistinct ?_
  intro i hi
  have hnow := h.activeAt_le_now hclock hplants hi
  have hlimit := h.activeAt_le hclock hplants hwritten hlapse hi
  rw [Registry.isDead, Registry.age, if_pos hnow, decide_eq_true_eq, UInt64.le_iff_toNat_le,
    UInt64.toNat_sub_of_le _ _ hnow]
  omega

end Trace

/-! ## A lease that is not renewed -/

namespace Environment

/-- An environment after a command to its store. -/
def obey (env : Environment) (c : Command) : Environment :=
  { env with store := (c.run env.now env.store).2 }

theorem does_obey (env : Environment) (c : Command) :
    env.Does (.command c (c.run env.now env.store).1) (env.obey c) :=
  .command c

/-- Publishes a description under the lease that is granted first. -/
def publication : Command :=
  .putLeased "/rendezvous/a/1" (Text.utf8 (Descriptor.ofAddress "a" "h" "").toJson) ⟨1⟩

/-- A fresh environment with one client, where a description is published for one second. -/
def offered : Environment :=
  ((initial (.running 0) [{}]).obey (.grant 1)).obey publication

/-- The client has seen it, and that second and the expiry window are over. -/
def haunted : Environment :=
  { (offered.refresh 0 "rendezvous").2 with time := 6000 }

end Environment

/-- The client does not show the description any more. -/
theorem Trace.ghosts_vanish_unrenewed : Environment.haunted.Hides 0 "/rendezvous/a/1" := by
  have hgrant := Trace.cons .nil (Environment.does_obey (.initial (.running 0) [{}]) (.grant 1))
    (by decide)
  have hput := hgrant.cons (Environment.does_obey _ Environment.publication) (by decide +kernel)
  have hrefresh := hput.cons (.refresh 0 "rendezvous") (by decide +kernel)
  have hpass : Trace _ _ Environment.haunted :=
    hrefresh.cons (.aside rfl fun _ => rfl) (by decide +kernel)
  have hclock : Environment.haunted.now = 6000000000 := by decide +kernel
  have hwindow : (Environment.haunted.registry 0).window = 5000000000 := hpass.window 0
  refine hpass.ghosts_vanish ?_ ?_ ?_ (@Lapse.unextended ⟨1⟩ _ 0 1 ?_ ?_) ?_
  · simp only [Advancing]
    decide +kernel
  · simp [Deed.Plants]
  · decide +kernel
  · decide +kernel
  · decide +kernel
  · rw [hclock, hwindow]
    decide +kernel

end ServiceDiscovery
