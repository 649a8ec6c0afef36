import ServiceDiscovery.Proofs.Json.RoundTrip
import ServiceDiscovery.Proofs.Roots
import ServiceDiscovery.Proofs.Schedule.Deeds

/-!
# What is known of a key

A key is unknown until somebody publishes a description there.  From then on the
store has nothing else under it, and no registry shows anything else, whatever
others do with other keys.

Main results:

- Definitions {lit}`Environment.Aware` and {lit}`Environment.Announces`: what the
  store and a client know of a key.
- Theorems {lit}`Environment.Does.aware` and {lit}`Environment.Does.announces`: this
  stays so with every deed that spares the key.
- Theorem {lit}`Environment.get?_of_refresh`: a refresh confirms what the store has
  under a key that it comes across.
-/

namespace ServiceDiscovery

open MemoryStore (Command)

/-! ## Instances and descriptions -/

/-- An instance shows what a description says. -/
structure Instance.Shows (i : Instance) (d : Descriptor) : Prop where
  name : i.name = d.name
  displayName : i.displayName = if d.displayName.isEmpty then d.name else d.displayName
  address : i.address = d.address
  interface : i.interface = d.interface
  protocol : i.protocol = d.protocol
  sourceIp : i.sourceIp = d.source

/-- A description that was written with a name is found as it was written. -/
theorem Finding.ofEntry_toJson {d : Descriptor} (hname : d.name.isEmpty = false)
    (root key : String) : ofEntry root key (Text.utf8 d.toJson) = .sighting d.name d := by
  simp only [ofEntry, Descriptor.ofJson_toJson, hname, Bool.false_eq_true, if_false]

/-- What is remembered of a description that was found shows the description, and was seen just
now. -/
theorem Finding.shows_remembered {d : Descriptor} (hname : d.name.isEmpty = false)
    (root key : String) (now : Reading) {known : Option Instance}
    (hknown : ∀ old, known = some old → old.Shows d) :
    ∃ i, (ofEntry root key (Text.utf8 d.toJson)).remembered now key known = some i ∧
      i.activeAt = now ∧ i.Shows d := by
  rw [ofEntry_toJson hname]
  cases known with
  | none => exact ⟨Instance.ofDescriptor key d.name d now, rfl, rfl, ⟨rfl, rfl, rfl, rfl, rfl, rfl⟩⟩
  | some old =>
      obtain ⟨hold, hdisplay, haddress, hinterface, hprotocol, hsource⟩ := hknown old rfl
      exact ⟨{ old with activeAt := now }, rfl, rfl,
        ⟨hold, hdisplay, haddress, hinterface, hprotocol, hsource⟩⟩

/-! ## Deeds that spare a key -/

/-- A deed neither writes nor deletes a key, and puts nothing under it into a client's registry by
hand. -/
def Deed.Spares (client : Nat) (key : String) : Deed → Prop
  | .command c _ => c.key? ≠ some key
  | deed => ¬ deed.Plants client key

theorem Deed.Spares.not_plants {client : Nat} {key : String} {deed : Deed}
    (h : deed.Spares client key) : ¬ deed.Plants client key := by
  cases deed with
  | command c answer => exact not_false
  | refresh | query | aside => exact h

namespace Environment

variable {env env' : Environment} {deed : Deed} {client : Nat} {key : String}

theorem Does.spares_cases (h : env.Does deed env') (hdeed : deed.Spares client key) :
    env'.store = env.store ∨
      ∃ c : Command, c.key? ≠ some key ∧ env'.store = (c.run env.now env.store).2 := by
  rcases h.store_cases with hstore | ⟨c, hstore, rfl | ⟨rfl, _⟩⟩
  · exact Or.inl hstore
  · exact Or.inr ⟨c, hdeed, hstore⟩
  · exact Or.inr ⟨.keys, nofun, hstore⟩

theorem Does.mem_entries (h : env.Does deed env') (hsound : env.Sound)
    (hdeed : deed.Spares client key) {e : Entry} (he : (key, e) ∈ env'.store.entries) :
    (key, e) ∈ env.store.entries := by
  rcases h.spares_cases hdeed with hstore | ⟨c, hc, hstore⟩
  · rw [← hstore]
    exact he
  · rw [hstore] at he
    rcases MemoryStore.mem_entries_run hsound.store.wellFormed he with hwritten | ⟨he, _⟩
    · exact absurd (MemoryStore.Command.key?_of_written? hwritten) hc
    · exact he

/-! ## What is known -/

/-- What the store and a client know of a key: nothing, or a description that was published there
under a lease. -/
structure Aware (env : Environment) (client : Nat) (key : String)
    (what : Option (Descriptor × LeaseId)) : Prop where
  entries : ∀ e, (key, e) ∈ env.store.entries →
    ∃ p ∈ what, e = ⟨Text.utf8 p.1.toJson, some p.2⟩
  seen : ∀ i, (env.registry client).get? key = some i → ∃ p ∈ what, i.Shows p.1

/-- No deed that spares a key changes what is known of it. -/
theorem Does.aware (h : env.Does deed env') (hsound : env.Sound)
    {what : Option (Descriptor × LeaseId)} (hname : ∀ p ∈ what, p.1.name.isEmpty = false)
    (haware : env.Aware client key what) (hdeed : deed.Spares client key) :
    env'.Aware client key what where
  entries := fun e he => haware.entries e (h.mem_entries hsound hdeed he)
  seen := by
    intro i hi
    rcases h.get?_cases hsound hi with ⟨old, hold, heq⟩ |
      ⟨root, value, lease, _, _, hentry, hremembered⟩ | hplants
    · obtain ⟨p, hp, hshows⟩ := haware.seen old hold
      rw [heq]
      exact ⟨p, hp, ⟨hshows.name, hshows.displayName, hshows.address, hshows.interface,
        hshows.protocol, hshows.sourceIp⟩⟩
    · have hstored := MemoryStore.mem_entries_of_purge hsound.store.wellFormed hentry
      obtain ⟨p, hp, heq⟩ := haware.entries _ hstored
      rw [Entry.mk.injEq] at heq
      have hknown (old : Instance) (hold : (env.registry client).get? key = some old) :
          old.Shows p.1 := by
        obtain ⟨q, hq, hshows⟩ := haware.seen old hold
        rw [Option.mem_def] at hp hq
        rw [hp] at hq
        exact Option.some.inj hq ▸ hshows
      obtain ⟨j, hj, _, hshows⟩ :=
        Finding.shows_remembered (hname p hp) root key env.now hknown
      rw [heq.1, hj] at hremembered
      exact ⟨p, hp, Option.some.inj hremembered ▸ hshows⟩
    · exact absurd hplants hdeed.not_plants

/-- Nothing is known of a key in a fresh environment. -/
theorem aware_initial (clock : Clock) (configs : List Config) (client : Nat) (key : String) :
    (initial clock configs).Aware client key none := by
  refine ⟨nofun, fun i hi => ?_⟩
  rw [get?_initial] at hi
  cases hi

/-- A description is published under a key, for as long as its lease is there. -/
structure Announces (env : Environment) (client : Nat) (key : String) (d : Descriptor)
    (lease : LeaseId) : Prop extends env.Aware client key (some (d, lease)) where
  number : lease.id.toInt < env.store.nextLease.toInt
  there : lease ∈ env.store.leases.map (·.1) →
    (key, ⟨Text.utf8 d.toJson, some lease⟩) ∈ env.store.entries

/-- What is published stays published with every deed that spares the key. -/
theorem Does.announces (h : env.Does deed env') (hsound : env.Sound) {d : Descriptor}
    {lease : LeaseId} (hname : d.name.isEmpty = false)
    (hannounces : env.Announces client key d lease) (hdeed : deed.Spares client key)
    (hnumbers : 1 ≤ env'.store.nextLease.toInt) : env'.Announces client key d lease := by
  have hs := hsound.store.wellFormed
  have haware : env'.Aware client key (some (d, lease)) := by
    refine h.aware hsound ?_ hannounces.toAware hdeed
    intro p hp
    rw [← Option.some.inj hp]
    exact hname
  refine ⟨haware, h.number hnumbers hannounces.number, ?_⟩
  rcases h.spares_cases hdeed with hstore | ⟨c, hc, hstore⟩
  · rw [hstore]
    exact hannounces.there
  · rw [hstore]
    intro hlease
    -- A number that was handed out does not come back: a lease that is there after the command
    -- was there before it, and its entry with it.
    have hbefore : lease ∈ env.store.leases.map (·.1) := by
      by_contra hgone
      exact MemoryStore.not_mem_leases_run hs hgone hannounces.number c hlease
    refine MemoryStore.kept_entry_run hs (hannounces.there hbefore) hc ?_
    intro _ heq
    cases heq
    exact hlease

/-- A description is published by a leased write that succeeds. -/
theorem announces_of_put {d : Descriptor} {lease : LeaseId} (hsound : env.Sound)
    (haware : env.Aware client key none) (hnumber : lease.id.toInt < env.store.nextLease.toInt)
    (hput : env.put key (Text.utf8 d.toJson) lease = (.ok (), env')) :
    env'.Announces client key d lease := by
  have hs := hsound.store.wellFormed
  unfold put ask at hput
  split at hput
  · obtain ⟨hanswer, rfl⟩ := Prod.mk.inj hput
    have hrun : (Command.putLeased key (Text.utf8 d.toJson) lease).run env.now env.store =
        (.outcome (.ok ()), (env.store.putLeased env.now key (Text.utf8 d.toJson) lease).2) := by
      rw [← hanswer]
      rfl
    refine ⟨⟨?_, ?_⟩, ?_, fun _ => (MemoryStore.mem_entries_of_putLeased hs hanswer).1⟩
    · intro e he
      refine ⟨_, rfl, ?_⟩
      have hordered := (hs.putLeased env.now key (Text.utf8 d.toJson) lease).ordered
      have hthere := (MemoryStore.mem_entries_of_putLeased hs hanswer).1
      exact MemoryStore.eq_of_mem_entries hordered he hthere
    · intro i hi
      obtain ⟨p, hp, _⟩ := haware.seen i hi
      cases hp
    · rcases MemoryStore.nextLease_run (.putLeased key (Text.utf8 d.toJson) lease) env.now
        env.store with hnext | ⟨hgrant, _⟩
      · rw [hrun] at hnext
        exact hnext ▸ hnumber
      · cases hgrant
  · cases (Prod.mk.inj hput).1

theorem Announces.say {d : Descriptor} {lease : LeaseId} (h : env.Announces client key d lease)
    (notes : List Note) : (env.say notes).Announces client key d lease :=
  ⟨⟨h.entries, h.seen⟩, h.number, h.there⟩

theorem number_of_grant {ttl : Int64} {lease : LeaseId}
    (hgrant : env.grant ttl = (.ok lease, env')) (hnumbers : 1 ≤ env'.store.nextLease.toInt) :
    lease.id.toInt < env'.store.nextLease.toInt := by
  unfold grant ask at hgrant
  split at hgrant
  · obtain ⟨hanswer, rfl⟩ := Prod.mk.inj hgrant
    exact MemoryStore.number_of_grant hanswer hnumbers
  · cases (Prod.mk.inj hgrant).1

end Environment

/-! ## Traces -/

namespace Trace

variable {env₀ env : Environment} {log : List Record} {client : Nat} {key : String}
  {d : Descriptor} {lease : LeaseId}

theorem aware (h : Trace env₀ log env) (hsound : env₀.Sound)
    {what : Option (Descriptor × LeaseId)} (hname : ∀ p ∈ what, p.1.name.isEmpty = false)
    (haware : env₀.Aware client key what) (hlog : ∀ r ∈ log, r.deed.Spares client key) :
    env.Aware client key what := by
  induction h with
  | nil => exact haware
  | cons before does _ ih =>
      rw [List.forall_mem_cons] at hlog
      exact does.aware (before.sound hsound) hname (ih hlog.2) hlog.1

theorem announces (h : Trace env₀ log env) (hsound : env₀.Sound)
    (hname : d.name.isEmpty = false) (hannounces : env₀.Announces client key d lease)
    (hlog : ∀ r ∈ log, r.deed.Spares client key) : env.Announces client key d lease := by
  induction h with
  | nil => exact hannounces
  | cons before does numbers ih =>
      rw [List.forall_mem_cons] at hlog
      exact does.announces (before.sound hsound) hname (ih hlog.2) hlog.1 numbers

end Trace

namespace Environment

variable {env env' : Environment} {client : Nat} {key : String}

/-! ## Refreshes -/

/-- A refresh succeeds, unless scans are made to fail. -/
theorem refresh_ok (hsound : env.Sound) (hreach : env.reachable = true)
    (hget : env.store.faults.contains .get = false) (client : Nat) (root : String) :
    ∃ n env', env.refresh client root = (.ok n, env') := by
  rw [refresh, scan, ask_of_reachable hreach,
    MemoryStore.scan_eq hsound.store.wellFormed hget]
  exact ⟨_, _, rfl⟩

/-- A refresh confirms what the store has under a key that it comes across. -/
theorem get?_of_refresh {root : String} {n : Nat} {value : Bytes} {lease : Option LeaseId}
    (hsound : env.Sound) (hclient : client < env.clients.length)
    (hrefresh : env.refresh client root = (.ok n, env'))
    (hstart : Key.startsWith key (Key.rootPrefix root) = true)
    (hentry : (key, ⟨value, lease⟩) ∈ (env.store.purge env.now).entries) :
    (env'.registry client).get? key =
      (Finding.ofEntry root key value).remembered env.now key
        ((env.registry client).get? key) := by
  have hs := hsound.store.wellFormed
  rcases refresh_cases env client root with ⟨failure, heq⟩ |
    ⟨entries, confirmed, hscan, _, _, hregistry⟩
  · rw [hrefresh] at heq
    cases (Prod.mk.inj heq).1
  · rw [hrefresh] at hregistry
    rw [hregistry, registry_setRegistry, if_pos ⟨rfl, hclient⟩]
    have hfound := MemoryStore.found_of_scan hs hscan
    refine Registry.get?_refresh_of_mem ?_ ?_
    · rw [hfound]
      exact MemoryStore.nodup_found (hs.purge env.now) _
    · rw [hfound, MemoryStore.mem_found]
      exact ⟨hstart, lease, hentry⟩

/-- A client that refreshes a root sees whatever is published there under a lease that is live, and
its queries show it once. -/
theorem Announces.shows_of_refresh {d : Descriptor} {lease : LeaseId} {root : String} {n : Nat}
    (h : env.Announces client key d lease) (hsound : env.Sound) (hname : d.name.isEmpty = false)
    (hlive : ∃ held, (lease, held) ∈ env.store.leases ∧ held.lapsed env.now = false)
    (hstart : Key.startsWith key (Key.rootPrefix root) = true)
    (hwindow : (env.registry client).window ≠ 0)
    (hrefresh : env.refresh client root = (.ok n, env')) :
    ∃ i, (env'.registry client).get? key = some i ∧ i.Shows d ∧
      (env'.candidates client d.name).1.filter (fun i => i.key = key) = [i] := by
  have hs := hsound.store.wellFormed
  have hclient : client < env.clients.length := by
    by_contra hmissing
    rw [registry_of_missing hmissing] at hwindow
    exact hwindow rfl
  have hdoes : env.Does (.refresh client root) (env.refresh client root).2 := .refresh client root
  have hsame := sameSetting_refresh env client root
  rw [hrefresh] at hdoes hsame
  obtain ⟨held, hmem, hlapsed⟩ := hlive
  have hstored := h.there (List.mem_map_of_mem hmem)
  have hkept := (MemoryStore.mem_leases_purge hs).mpr ⟨hmem, hlapsed⟩
  have hentry : (key, ⟨Text.utf8 d.toJson, some lease⟩) ∈ (env.store.purge env.now).entries := by
    refine MemoryStore.mem_entries_purge_of_lease hs hstored ?_
    intro _ heq
    cases heq
    exact List.mem_map_of_mem hkept
  have hknown (old : Instance) (hold : (env.registry client).get? key = some old) :
      old.Shows d := by
    obtain ⟨p, hp, hshows⟩ := h.seen old hold
    rw [← Option.some.inj hp] at hshows
    exact hshows
  obtain ⟨i, hi, hactive, hshows⟩ := Finding.shows_remembered hname root key env.now hknown
  rw [← get?_of_refresh hsound hclient hrefresh hstart hentry] at hi
  refine ⟨i, hi, hshows, ?_⟩
  refine Registry.filter_candidates (hdoes.distinct hsound.distinct client) hi hshows.name ?_
  exact Registry.isLive_of_activeAt (hactive.trans hsame.now.symm) (hdoes.window client ▸ hwindow)

end Environment
end ServiceDiscovery
