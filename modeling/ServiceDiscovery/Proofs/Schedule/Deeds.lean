import ServiceDiscovery.Proofs.Registry.Sightings
import ServiceDiscovery.Proofs.Schedule.OpenRuns
import ServiceDiscovery.Proofs.Store.Entries
import ServiceDiscovery.Schedule.Queries

/-!
# Deeds in an environment

Whatever happens to the store and to the registries of an environment is one of three
deeds: a command to the store, a refresh of some client's registry, or a query of
one.  Everything else happens aside from them.  A trace is a list of deeds, the
newest one in front, each with the reading of the clock at its moment.

Main results:

- Definitions {lit}`Environment.Does` and {lit}`Trace`: one deed, and what deeds lead
  to.
- Theorem {lit}`Environment.Does.store_cases`: a deed gives the store one command at
  most.
- Theorem {lit}`Environment.Does.get?_cases`: an instance in a registry was there
  before, or a refresh has just found its key in the store.
- Theorem {lit}`Environment.hides_of_conceals`: no query of a client shows what its
  registry conceals.
-/

namespace ServiceDiscovery

open MemoryStore (Command Answer)

/-! ## Deeds -/

/-- What happens to the store or to a registry. -/
inductive Deed where
  /-- A command to the store, with its answer. -/
  | command (c : Command) (answer : Answer)
  /-- A refresh of a client's registry under a root, from the scan to the last sighting. -/
  | refresh (client : Nat) (root : String)
  /-- A query of a client's registry, or something that is done to it by hand. -/
  | query (client : Nat) (action : Registry.Action)
  /-- Nothing. -/
  | aside

/-- Somebody puts a key into a client's registry by hand. -/
def Deed.Plants (client : Nat) (key : String) : Deed → Prop
  | .query c (.observe k _ _) => c = client ∧ k = key
  | _ => False

/-- A deed with the clock's reading at its moment. -/
structure Record where
  now : Reading
  deed : Deed

namespace Environment

variable {env env' : Environment} {deed : Deed}

/-- The environments to which a deed leads. Each deed is done at one reading of the clock. -/
inductive Does (env : Environment) : Deed → Environment → Prop where
  | command (c : Command) :
      Does env (.command c (c.run env.now env.store).1)
        { env with store := (c.run env.now env.store).2 }
  /-- The scan and the sightings of a refresh share the reading of the clock at its moment, so what
  a refresh confirms was in the store at that very reading. -/
  | refresh (client : Nat) (root : String) :
      Does env (.refresh client root) (env.refresh client root).2
  | query (client : Nat) (action : Registry.Action) :
      Does env (.query client action)
        (env.setRegistry client ((env.registry client).step ⟨env.now, action⟩))
  | aside {env' : Environment} (hstore : env'.store = env.store)
      (hregistry : ∀ client, env'.registry client = env.registry client) : Does env .aside env'

theorem does_say (env : Environment) (notes : List Note) : env.Does .aside (env.say notes) :=
  .aside rfl fun _ => rfl

/-! ## Registries -/

theorem registry_setRegistry (env : Environment) (client : Nat) (r : Registry) (c : Nat) :
    (env.setRegistry client r).registry c =
      if c = client ∧ client < env.clients.length then r else env.registry c := by
  unfold setRegistry registry
  rw [List.getElem?_modify]
  by_cases hc : c = client
  · subst hc
    cases hclient : env.clients[c]? with
    | none =>
        have hlen : ¬ c < env.clients.length := by
          simpa using hclient
        simp [hlen]
    | some client =>
        obtain ⟨hlen, _⟩ := List.getElem?_eq_some_iff.mp hclient
        simp [hlen]
  · have hne : ¬ client = c := fun heq => hc heq.symm
    simp [hc, hne]

/-- A client that is not there has seen nothing. -/
theorem registry_of_missing {client : Nat} (h : ¬ client < env.clients.length) :
    env.registry client = .empty ⟨0⟩ := by
  have hnone : env.clients[client]? = none := by simpa using h
  rw [registry, hnone]
  rfl

/-! ## Refreshes -/

/-- A scan fails and changes nothing, or it is carried out. -/
theorem scan_cases (env : Environment) (start : String) :
    (∃ failure, env.scan start = (.error failure, env)) ∨
      ∃ entries, env.store.scan env.now start = (.ok entries, env.store.purge env.now) ∧
        env.scan start = (.ok entries, { env with store := env.store.purge env.now }) := by
  unfold scan ask
  split
  · rcases MemoryStore.scan_cases env.store env.now start with ⟨failure, heq⟩ | ⟨entries, heq⟩
    · simp only [heq]
      exact Or.inl ⟨failure, rfl⟩
    · simp only [heq]
      exact Or.inr ⟨entries, rfl, rfl⟩
  · exact Or.inl ⟨_, rfl⟩

/-- A refresh fails and changes nothing, or it confirms what a scan has found. -/
theorem refresh_cases (env : Environment) (client : Nat) (root : String) :
    (∃ failure, env.refresh client root = (.error failure, env)) ∨
      ∃ entries confirmed,
        env.store.scan env.now (Key.rootPrefix root) = (.ok entries, env.store.purge env.now) ∧
        (env.refresh client root).1 = .ok confirmed ∧
        (env.refresh client root).2.store = env.store.purge env.now ∧
        ∀ c, (env.refresh client root).2.registry c =
          (env.setRegistry client
            ((env.registry client).refresh root env.now entries).registry).registry c := by
  rcases scan_cases env (Key.rootPrefix root) with ⟨failure, heq⟩ | ⟨entries, hentries, heq⟩
  · left
    rw [refresh, heq]
    exact ⟨failure, rfl⟩
  · right
    rw [refresh, heq]
    exact ⟨entries, _, hentries, rfl, rfl, fun _ => rfl⟩

theorem sameSetting_refresh (env : Environment) (client : Nat) (root : String) :
    env.SameSetting (env.refresh client root).2 := by
  rcases scan_cases env (Key.rootPrefix root) with ⟨failure, heq⟩ | ⟨entries, hentries, heq⟩
  · rw [refresh, heq]
    exact SameSetting.refl env
  · rw [refresh, heq]
    exact ⟨rfl, rfl, rfl, rfl, rfl, rfl, rfl⟩

/-! ## What a deed does -/

/-- A store that commands have led to, and registries that know every key once. -/
structure Sound (env : Environment) : Prop where
  store : env.store.Reachable
  distinct : ∀ client, (env.registry client).Distinct

/-- A deed gives the store one command at most: the one that it names, or what a refresh does, which
is no more than to purge. -/
theorem Does.store_cases (h : env.Does deed env') :
    env'.store = env.store ∨
      ∃ c : Command, env'.store = (c.run env.now env.store).2 ∧
        (deed = .command c (c.run env.now env.store).1 ∨
          c = .keys ∧ ∃ client root, deed = .refresh client root) := by
  cases h with
  | command c => exact Or.inr ⟨c, rfl, Or.inl rfl⟩
  | refresh client root =>
      rcases refresh_cases env client root with ⟨failure, heq⟩ | ⟨_, _, _, _, hstore, _⟩
      · rw [heq]
        exact Or.inl rfl
      · exact Or.inr ⟨.keys, hstore, Or.inr ⟨rfl, client, root, rfl⟩⟩
  | query client action => exact Or.inl rfl
  | aside hstore hregistry => exact Or.inl hstore

/-- A store stays reachable with every deed, as long as lease numbers last. -/
theorem Does.reachable (h : env.Does deed env') (hs : env.store.Reachable)
    (hnumbers : 1 ≤ env'.store.nextLease.toInt) : env'.store.Reachable := by
  rcases h.store_cases with hstore | ⟨c, hstore, _⟩
  · rw [hstore]
    exact hs
  · rw [hstore] at hnumbers ⊢
    exact hs.run c env.now hnumbers

/-- A lease number that was used up stays used up. -/
theorem Does.number (h : env.Does deed env')
    (hnumbers : 1 ≤ env'.store.nextLease.toInt) {lease : LeaseId}
    (hnumber : lease.id.toInt < env.store.nextLease.toInt) :
    lease.id.toInt < env'.store.nextLease.toInt := by
  rcases h.store_cases with hstore | ⟨c, hstore, _⟩
  · rw [hstore]
    exact hnumber
  · rw [hstore] at hnumbers ⊢
    exact MemoryStore.number_run hnumbers hnumber

/-- What holds of every registry before a deed holds after it, if it is kept by whatever is done to
a registry. -/
theorem Does.registry_induction {P : Registry → Prop} (h : env.Does deed env')
    (hbefore : ∀ client, P (env.registry client))
    (hstep : ∀ r, P r → ∀ e : Registry.Event, P (r.step e)) (client : Nat) :
    P (env'.registry client) := by
  cases h with
  | command c => exact hbefore client
  | refresh c root =>
      rcases refresh_cases env c root with ⟨failure, heq⟩ | ⟨entries, _, _, _, _, hregistry⟩
      · rw [heq]
        exact hbefore client
      · rw [hregistry, registry_setRegistry]
        split
        · exact Registry.refresh_induction (hbefore c)
            fun r hr entry _ name d => hstep r hr ⟨env.now, .observe entry.1 name d⟩
        · exact hbefore client
  | query c action =>
      rw [registry_setRegistry]
      split
      · exact hstep _ (hbefore c) _
      · exact hbefore client
  | aside hstore hregistry =>
      rw [hregistry]
      exact hbefore client

theorem Does.distinct (h : env.Does deed env') (hr : ∀ client, (env.registry client).Distinct)
    (client : Nat) : (env'.registry client).Distinct :=
  h.registry_induction (P := Registry.Distinct) hr (fun _ hr e => hr.step e) client

/-- No deed changes an expiry window. -/
theorem Does.window (h : env.Does deed env') (client : Nat) :
    (env'.registry client).window = (env.registry client).window := by
  cases h with
  | command c => rfl
  | refresh c root =>
      rcases refresh_cases env c root with ⟨failure, heq⟩ | ⟨entries, _, _, _, _, hregistry⟩
      · rw [heq]
      · rw [hregistry, registry_setRegistry]
        split
        · rename_i hclient
          rw [Registry.window_refresh, hclient.1]
        · rfl
  | query c action =>
      rw [registry_setRegistry]
      split
      · rename_i hclient
        rw [Registry.window_step, hclient.1]
      · rfl
  | aside hstore hregistry => rw [hregistry]

/-- An environment stays sound with every deed, as long as lease numbers last. -/
theorem Does.sound (h : env.Does deed env') (hsound : env.Sound)
    (hnumbers : 1 ≤ env'.store.nextLease.toInt) : env'.Sound :=
  ⟨h.reachable hsound.store hnumbers, h.distinct hsound.distinct⟩

/-- An instance in a registry was there before, and was not seen again; or a refresh has just
confirmed what it found under the instance's key in the store; or somebody has put it there by
hand. -/
theorem Does.get?_cases (h : env.Does deed env') (hsound : env.Sound) {client : Nat}
    {key : String} {i : Instance} (hi : (env'.registry client).get? key = some i) :
    (∃ old, (env.registry client).get? key = some old ∧
        i = { old with pickStamp := i.pickStamp }) ∨
      (∃ root value lease, deed = .refresh client root ∧
        Key.startsWith key (Key.rootPrefix root) = true ∧
        (key, ⟨value, lease⟩) ∈ (env.store.purge env.now).entries ∧
        (Finding.ofEntry root key value).remembered env.now key
          ((env.registry client).get? key) = some i) ∨
      deed.Plants client key := by
  have hkept (hi : (env.registry client).get? key = some i) :
      ∃ old, (env.registry client).get? key = some old ∧
        i = { old with pickStamp := i.pickStamp } :=
    ⟨i, hi, rfl⟩
  cases h with
  | command c => exact Or.inl (hkept hi)
  | refresh c root =>
      rcases refresh_cases env c root with ⟨failure, heq⟩ | ⟨entries, _, hscan, _, _, hregistry⟩
      · rw [heq] at hi
        exact Or.inl (hkept hi)
      · rw [hregistry, registry_setRegistry] at hi
        split at hi
        · rename_i hclient
          obtain ⟨rfl, _⟩ := hclient
          have hs := hsound.store.wellFormed
          have hfound := MemoryStore.found_of_scan hs hscan
          have hkeys := MemoryStore.nodup_found (hs.purge env.now) (Key.rootPrefix root)
          rw [← hfound] at hkeys
          by_cases hmem : key ∈ entries.map (·.1)
          · obtain ⟨⟨key, value⟩, hentry, rfl⟩ := List.mem_map.mp hmem
            rw [Registry.get?_refresh_of_mem hkeys hentry] at hi
            rw [hfound, MemoryStore.mem_found] at hentry
            obtain ⟨hstart, lease, hentry⟩ := hentry
            exact Or.inr (Or.inl ⟨root, value, lease, rfl, hstart, hentry, hi⟩)
          · rw [Registry.get?_refresh_of_not_mem hmem] at hi
            exact Or.inl (hkept hi)
        · exact Or.inl (hkept hi)
  | query c action =>
      rw [registry_setRegistry] at hi
      split at hi
      · rename_i hclient
        obtain ⟨rfl, _⟩ := hclient
        rcases Registry.get?_of_step (hsound.distinct client) hi with hold | ⟨name, d, rfl⟩
        · exact Or.inl hold
        · exact Or.inr (Or.inr ⟨rfl, rfl⟩)
      · exact Or.inl (hkept hi)
  | aside hstore hregistry =>
      rw [hregistry] at hi
      exact Or.inl (hkept hi)

end Environment

/-! ## Traces -/

/-- What deeds lead to, from an environment on, as long as lease numbers last. The newest deed is in
front. -/
inductive Trace (env₀ : Environment) : List Record → Environment → Prop where
  | nil : Trace env₀ [] env₀
  | cons {log : List Record} {env env' : Environment} {deed : Deed} (before : Trace env₀ log env)
      (does : env.Does deed env') (numbers : 1 ≤ env'.store.nextLease.toInt) :
      Trace env₀ (⟨env.now, deed⟩ :: log) env'

namespace Trace

variable {env₀ env env' env'' : Environment} {log log' : List Record}

theorem trans (h : Trace env log env') (h' : Trace env' log' env'') :
    Trace env (log' ++ log) env'' := by
  induction h' with
  | nil => exact h
  | cons _ does numbers ih => exact .cons ih does numbers

theorem sound (h : Trace env₀ log env) (hsound : env₀.Sound) : env.Sound := by
  induction h with
  | nil => exact hsound
  | cons _ does numbers ih => exact does.sound ih numbers

theorem window (h : Trace env₀ log env) (client : Nat) :
    (env.registry client).window = (env₀.registry client).window := by
  induction h with
  | nil => rfl
  | cons _ does _ ih => exact (does.window client).trans ih

theorem number (h : Trace env₀ log env) {lease : LeaseId}
    (hnumber : lease.id.toInt < env₀.store.nextLease.toInt) :
    lease.id.toInt < env.store.nextLease.toInt := by
  induction h with
  | nil => exact hnumber
  | cons _ does numbers ih => exact does.number numbers ih

end Trace

/-- In the beginning nobody has seen anything. -/
theorem Environment.get?_initial (clock : Clock) (configs : List Config) (client : Nat)
    (key : String) : ((Environment.initial clock configs).registry client).get? key = none := by
  unfold registry initial
  rw [List.getElem?_map]
  cases configs[client]? <;> rfl

theorem Environment.sound_initial (clock : Clock) (configs : List Config) :
    (Environment.initial clock configs).Sound := by
  refine ⟨.empty, fun client => ?_⟩
  unfold registry initial
  rw [List.getElem?_map]
  cases configs[client]? <;> exact List.nodup_nil

/-! ## What queries show -/

/-- No query of a client has anything of an instance with a key: all answers are what they would be
had the key been forgotten. -/
structure Environment.Hides (env : Environment) (client : Nat) (key : String) : Prop where
  candidates : ∀ name, ∀ i ∈ (env.candidates client name).1, i.key ≠ key
  select : ∀ name i, (env.select client name).1 = .ok i → i.key ≠ key
  pick : ∀ name, (env.pick client name).1 =
    (((env.registry client).forget key).pick env.now name).1
  pickEndpoint : ∀ name, (env.pickEndpoint client name).1 =
    (((env.registry client).forget key).pickEndpoint env.now name).1
  addresses : ∀ name, (env.addresses client name).1 =
    (((env.registry client).forget key).addresses env.now name).1
  services : (env.services client).1 = (((env.registry client).forget key).services env.now).1

/-- No query of a client shows what its registry conceals. -/
theorem Environment.hides_of_conceals {env : Environment} {client : Nat} {key : String}
    (hr : (env.registry client).Distinct) (h : (env.registry client).Conceals env.now key) :
    env.Hides client key where
  candidates := fun _ _ hi => h.key_ne_of_candidate hr hi
  select := fun _ _ hi => h.key_ne_of_select hr hi
  pick := fun name => congrArg (·.map (·.address)) (h.select_forget hr name).symm
  pickEndpoint := fun name => congrArg (·.map (·.endpoint)) (h.select_forget hr name).symm
  addresses := fun name => (h.addresses_forget hr name).symm
  services := (h.services_forget hr).symm

end ServiceDiscovery
