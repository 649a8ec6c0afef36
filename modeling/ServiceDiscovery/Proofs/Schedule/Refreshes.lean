import ServiceDiscovery.Proofs.Registry.Orders
import ServiceDiscovery.Proofs.Schedule.Deeds
import ServiceDiscovery.Schedule

/-!
# What a refresh does

A refresh goes through what a scan has found, pair by pair. The pairs do not get
into each other's way: what becomes of a key depends on its own pair alone, in
whatever order they come and whatever is malformed among them.

Main results:

- Definition {lit}`Reports`: the name under which a value describes a service.
- Definition {lit}`Registry.Merges`: what a refresh makes of a registry.
- Theorem {lit}`refresh_merges`: every refresh merges what was found, key by key, and
  whoever asked for it gets the count, or the failure of the scan and the registry as
  it was.
-/

namespace ServiceDiscovery

/-! ## What is confirmed -/

/-- The value under a key describes a service under some name: the description's own one, or, if it
has none, the one in the key. -/
def Reports (root key : String) (value : Bytes) (name : String) (d : Descriptor) : Prop :=
  Descriptor.ofJson value = .ok d ∧
    (d.name ≠ "" ∧ name = d.name ∨ d.name = "" ∧ Key.name? root key = some name)

/-- A pair of a key and a value that describes a service. -/
def Confirmed (root : String) (entry : String × Bytes) : Prop :=
  ∃ name d, Reports root entry.1 entry.2 name d

variable {root key name : String} {value : Bytes} {d : Descriptor} {entry : String × Bytes}

/-- A pair is found to be a sighting just if its value describes a service. -/
theorem Finding.ofEntry_eq_sighting_iff :
    Finding.ofEntry root key value = .sighting name d ↔ Reports root key value name d := by
  unfold Finding.ofEntry Reports
  cases hvalue : Descriptor.ofJson value with
  | error fault => simp
  | ok described =>
      by_cases hname : described.name = ""
      · have hempty : described.name.isEmpty = true := String.isEmpty_iff.mpr hname
        cases hkey : Key.name? root key <;> grind
      · have hempty : described.name.isEmpty = false := by simpa using hname
        grind

/-- A pair is confirmed just if it is found to be a sighting. -/
theorem confirmed_iff :
    Confirmed root entry ↔
      ∃ name d, Finding.ofEntry root entry.1 entry.2 = .sighting name d := by
  simp only [Confirmed, Finding.ofEntry_eq_sighting_iff]

instance (root : String) : DecidablePred (Confirmed root) := fun entry =>
  match h : Finding.ofEntry root entry.1 entry.2 with
  | .sighting name d => isTrue (confirmed_iff.mpr ⟨name, d, h⟩)
  | .malformed fault => isFalse (by rw [confirmed_iff, h]; exact nofun)
  | .nameless => isFalse (by rw [confirmed_iff, h]; exact nofun)

/-- What does not describe a service leaves what is remembered as it is. -/
theorem remembered_of_not_confirmed (h : ¬ Confirmed root entry) (now : Reading)
    (known : Option Instance) :
    (Finding.ofEntry root entry.1 entry.2).remembered now entry.1 known = known := by
  rw [confirmed_iff] at h
  cases hfinding : Finding.ofEntry root entry.1 entry.2 with
  | sighting name d => exact absurd ⟨name, d, hfinding⟩ h
  | malformed fault => rfl
  | nameless => rfl

namespace Refreshed

variable {now : Reading}

/-- A pair counts if it is confirmed. -/
theorem confirmed_confirm (so : Refreshed) (entry : String × Bytes) :
    (confirm root now so entry).confirmed =
      so.confirmed + if Confirmed root entry then 1 else 0 := by
  unfold confirm
  cases hfinding : Finding.ofEntry root entry.1 entry.2 <;> simp [confirmed_iff, hfinding]

/-- A pair that is not confirmed is ignored. -/
theorem registry_confirm_of_not_confirmed (so : Refreshed) (h : ¬ Confirmed root entry) :
    (confirm root now so entry).registry = so.registry := by
  rw [registry_confirm]
  split
  · rename_i name d hfinding
    exact absurd (confirmed_iff.mpr ⟨name, d, hfinding⟩) h
  · rfl

end Refreshed

namespace Registry

variable {r r' : Registry} {now : Reading} {entries entries' : Entries}

/-- A refresh counts the pairs that describe a service. -/
theorem confirmed_refresh (r : Registry) (root : String) (now : Reading) (entries : Entries) :
    (r.refresh root now entries).confirmed = entries.countP (Confirmed root) := by
  suffices h : ∀ so : Refreshed, (entries.foldl (Refreshed.confirm root now) so).confirmed =
      so.confirmed + entries.countP (Confirmed root) by
    rw [refresh, h, Nat.zero_add]
  induction entries with
  | nil => exact fun _ => rfl
  | cons entry rest ih =>
      intro so
      rw [List.foldl_cons, ih, Refreshed.confirmed_confirm, List.countP_cons]
      simp only [decide_eq_true_eq]
      omega

/-- What does not describe a service might as well not be there. -/
theorem refresh_filter (r : Registry) (root : String) (now : Reading) (entries : Entries) :
    (r.refresh root now (entries.filter (Confirmed root))).registry =
      (r.refresh root now entries).registry := by
  suffices h : ∀ so so' : Refreshed, so.registry = so'.registry →
      ((entries.filter (Confirmed root)).foldl (Refreshed.confirm root now) so).registry =
        (entries.foldl (Refreshed.confirm root now) so').registry from h _ _ rfl
  induction entries with
  | nil => exact fun _ _ => id
  | cons entry rest ih =>
      intro so so' hso
      rw [List.filter_cons, List.foldl_cons]
      by_cases hentry : Confirmed root entry
      · rw [if_pos (decide_eq_true hentry), List.foldl_cons]
        refine ih _ _ ?_
        rw [Refreshed.registry_confirm, Refreshed.registry_confirm, hso]
      · rw [if_neg (by simpa using hentry)]
        refine ih _ _ ?_
        rw [Refreshed.registry_confirm_of_not_confirmed so' hentry, hso]

/-- A refresh hands out no stamp. -/
theorem lastStamp_refresh (r : Registry) (root : String) (now : Reading) (entries : Entries) :
    (r.refresh root now entries).registry.lastStamp = r.lastStamp :=
  refresh_induction (P := fun r' => r'.lastStamp = r.lastStamp) rfl
    fun r' hr' _ _ _ _ => (lastStamp_observe r' _ _ _ _).trans hr'

/-- A refresh leaves alone what it has found no description of. -/
theorem get?_refresh_of_not_confirmed (hkeys : (entries.map (·.1)).Nodup)
    (h : ∀ value, (key, value) ∈ entries → ¬ Confirmed root (key, value)) :
    (r.refresh root now entries).registry.get? key = r.get? key := by
  by_cases hkey : key ∈ entries.map (·.1)
  · obtain ⟨⟨key, value⟩, hmem, rfl⟩ := List.mem_map.mp hkey
    rw [get?_refresh_of_mem hkeys hmem]
    exact remembered_of_not_confirmed (h value hmem) now _
  · exact get?_refresh_of_not_mem hkey

/-- A service that is described is known after a refresh: as it was known before, or as a new
one. -/
theorem get?_refresh_of_reports (hkeys : (entries.map (·.1)).Nodup)
    (hmem : (key, value) ∈ entries) (h : Reports root key value name d) :
    (r.refresh root now entries).registry.get? key =
      some (match r.get? key with
        | some i => { i with activeAt := now }
        | none => Instance.ofDescriptor key name d now) := by
  rw [get?_refresh_of_mem hkeys hmem, Finding.ofEntry_eq_sighting_iff.mpr h]
  rfl

/-! ## The order of what is found -/

/-- Only the descriptions that a scan has found matter to a refresh, and their order does not. -/
theorem refresh_alike (hr : r.Distinct) (hkeys : (entries.map (·.1)).Nodup)
    (hkeys' : (entries'.map (·.1)).Nodup)
    (hperm : (entries'.filter (Confirmed root)).Perm (entries.filter (Confirmed root))) :
    (r.refresh root now entries').registry.Alike (r.refresh root now entries).registry := by
  have hmem (entry : String × Bytes) (h : Confirmed root entry) :
      entry ∈ entries' ↔ entry ∈ entries := by
    simpa [List.mem_filter, h] using hperm.mem_iff (a := entry)
  refine ⟨perm_of_get?_eq (hr.refresh _ _ _) (hr.refresh _ _ _) ?_, ?_, ?_⟩
  · intro key
    by_cases hkey : ∃ value, (key, value) ∈ entries ∧ Confirmed root (key, value)
    · obtain ⟨value, hentry, hconfirmed⟩ := hkey
      rw [get?_refresh_of_mem hkeys hentry,
        get?_refresh_of_mem hkeys' ((hmem _ hconfirmed).mpr hentry)]
    · have hnone (value : Bytes) (hentry : (key, value) ∈ entries) :
          ¬ Confirmed root (key, value) :=
        fun hconfirmed => hkey ⟨value, hentry, hconfirmed⟩
      have hnone' (value : Bytes) (hentry : (key, value) ∈ entries') :
          ¬ Confirmed root (key, value) :=
        fun hconfirmed => hnone value ((hmem _ hconfirmed).mp hentry) hconfirmed
      rw [get?_refresh_of_not_confirmed hkeys hnone, get?_refresh_of_not_confirmed hkeys' hnone']
  · rw [window_refresh, window_refresh]
  · rw [lastStamp_refresh, lastStamp_refresh]

/-! ## Refreshing twice -/

/-- Seeing an instance once more at one reading changes nothing. -/
theorem observe_of_seen (hr : r.Distinct) {i : Instance} (hi : r.get? key = some i)
    (hactive : i.activeAt = now) (name : String) (d : Descriptor) :
    r.observe now key name d = r := by
  have hsame : (r.instances.map fun j => if j.key = key then { j with activeAt := now } else j) =
      r.instances := by
    conv_rhs => rw [← List.map_id r.instances]
    apply List.map_congr_left
    intro j hj
    split
    · rename_i hkey
      have hj := (mem_instances_iff hr).mp hj
      rw [hkey, hi] at hj
      cases hj
      rw [← hactive]
      rfl
    · rfl
  rw [observe, hi, if_pos Option.isSome_some, hsame]

/-- A refresh changes nothing if whatever it finds was seen at its reading already. -/
theorem refresh_of_seen (hr : r.Distinct)
    (h : ∀ entry ∈ entries, Confirmed root entry →
      ∃ i, r.get? entry.1 = some i ∧ i.activeAt = now) :
    (r.refresh root now entries).registry = r := by
  rw [← refresh_filter]
  refine refresh_induction (P := fun r' => r' = r) rfl ?_
  rintro _ rfl entry hentry name d
  obtain ⟨hentry, hconfirmed⟩ := List.mem_filter.mp hentry
  obtain ⟨i, hi, hactive⟩ := h entry hentry (of_decide_eq_true hconfirmed)
  exact observe_of_seen hr hi hactive name d

/-- A refresh that finds the same again changes nothing. -/
theorem refresh_refresh (hr : r.Distinct) (hkeys : (entries.map (·.1)).Nodup) :
    ((r.refresh root now entries).registry.refresh root now entries).registry =
      (r.refresh root now entries).registry := by
  refine refresh_of_seen (hr.refresh root now entries) ?_
  rintro ⟨key, value⟩ hentry ⟨name, d, hreports⟩
  rw [get?_refresh_of_reports hkeys hentry hreports]
  refine ⟨_, rfl, ?_⟩
  cases r.get? key <;> rfl

/-! ## Merging -/

/-- What a refresh makes of a registry: each pair that describes a service is merged in, under its
own key. -/
structure Merges (root : String) (now : Reading) (entries : Entries) (r : Registry)
    (so : Refreshed) : Prop where
  /-- What describes a service is counted. -/
  count : so.confirmed = entries.countP (Confirmed root)
  /-- An instance that was not known is remembered as it is described. -/
  first : ∀ key value name d, (key, value) ∈ entries → Reports root key value name d →
    r.get? key = none → so.registry.get? key = some (.ofDescriptor key name d now)
  /-- An instance that was known is only seen again. -/
  known : ∀ key value i, (key, value) ∈ entries → Confirmed root (key, value) →
    r.get? key = some i → so.registry.get? key = some { i with activeAt := now }
  /-- Nothing else is touched. -/
  others : ∀ key, (∀ value, (key, value) ∈ entries → ¬ Confirmed root (key, value)) →
    so.registry.get? key = r.get? key
  distinct : so.registry.Distinct
  window : so.registry.window = r.window
  lastStamp : so.registry.lastStamp = r.lastStamp
  /-- Neither the order of the pairs nor the malformed ones among them make a difference. -/
  order : ∀ entries' : Entries, (entries'.map (·.1)).Nodup →
    (entries'.filter (Confirmed root)).Perm (entries.filter (Confirmed root)) →
      (r.refresh root now entries').registry.Alike so.registry
  malformed : (r.refresh root now (entries.filter (Confirmed root))).registry = so.registry
  /-- To refresh again at the same reading changes nothing. -/
  twice : (so.registry.refresh root now entries).registry = so.registry

/-- A refresh merges what a scan has found into a registry. -/
theorem merges_refresh (hr : r.Distinct) (hkeys : (entries.map (·.1)).Nodup) :
    Merges root now entries r (r.refresh root now entries) where
  count := confirmed_refresh r root now entries
  first := by
    intro key value name d hentry hreports hnone
    rw [get?_refresh_of_reports hkeys hentry hreports, hnone]
  known := by
    rintro key value i hentry ⟨name, d, hreports⟩ hi
    rw [get?_refresh_of_reports hkeys hentry hreports, hi]
  others := fun _ => get?_refresh_of_not_confirmed hkeys
  distinct := hr.refresh root now entries
  window := window_refresh r root now entries
  lastStamp := lastStamp_refresh r root now entries
  order := fun _ hkeys' hperm => refresh_alike hr hkeys hkeys' hperm
  malformed := refresh_filter r root now entries
  twice := refresh_refresh hr hkeys

end Registry

/-! ## Whoever refreshes -/

namespace Environment

variable {env : Environment}

/-- What comes of a scan that was waited for: its answer, or a failure if that took too long. -/
def awaited (env : Environment) (call : Call) (timeout : Duration) (start : String) :
    Except Failure Entries :=
  if call.isAnswered then (env.scan start).1
  else .error (Call.timedOut Operation.get.label timeout)

/-- A refresh of a client's registry ends: with the scan's failure, and then no registry has
changed; or with the count, and then what was found is merged into the client's registry. -/
def Concludes (env : Environment) (client : Nat) (root : String) (result : Except Failure Nat)
    (env' : Environment) : Except Failure Entries → Prop
  | .error failure => result = .error failure ∧ ∀ c, env'.registry c = env.registry c
  | .ok entries =>
    let so := (env.registry client).refresh root env.now entries
    result = .ok so.confirmed ∧
      ∀ c, env'.registry c =
        if c = client ∧ client < env.clients.length then so.registry else env.registry c

/-- Confirming what a scan has just found ends a refresh. -/
theorem concludes_confirm (client : Nat) (root : String) {start : String} {entries : Entries}
    (h : env.scan start = (.ok entries, { env with store := env.store.purge env.now })) :
    env.Concludes client root (.ok ((env.scan start).2.confirm client root entries).1)
      ((env.scan start).2.confirm client root entries).2 (.ok entries) := by
  rw [h]
  refine ⟨rfl, fun c => ?_⟩
  exact registry_setRegistry { env with store := env.store.purge env.now } client _ c

/-- A refresh of a client either fails and changes no registry, or it merges and counts. -/
theorem concludes_refresh (env : Environment) (client : Nat) (root : String) :
    env.Concludes client root (env.refresh client root).1 (env.refresh client root).2
      (env.scan (Key.rootPrefix root)).1 := by
  rcases scan_cases env (Key.rootPrefix root) with ⟨failure, heq⟩ | ⟨entries, _, heq⟩
  · rw [refresh, heq]
    exact ⟨rfl, fun _ => rfl⟩
  · have hconfirm := concludes_confirm client root heq
    rw [heq] at hconfirm
    rw [refresh, heq]
    exact hconfirm

/-- What takes too long changes no registry. -/
theorem concludes_timedOut (env : Environment) (client : Nat) (root : String) (failure : Failure) :
    env.Concludes client root (.error failure) env (.error failure) :=
  ⟨rfl, fun _ => rfl⟩

end Environment

/-- A refresh that somebody waits for ends with the count, or with the failure of its scan. -/
theorem Schedule.concludes_refresh (s : Schedule) (client : Nat) :
    let c := s.env.config client
    let call := Call.started s.env.time (some (s.env.delays .get)) c.callTimeout
    let t := s.runUntil call.endsAt
    t.env.Concludes client c.root (s.refresh client).1 (s.refresh client).2.env
      (t.env.awaited call c.callTimeout (Key.rootPrefix c.root)) := by
  intro c call t
  unfold Environment.awaited
  by_cases hanswered : call.isAnswered = true
  · have hrefresh : s.refresh client =
        ((t.env.refresh client c.root).1, { t with env := (t.env.refresh client c.root).2 }) :=
      if_pos hanswered
    rw [hrefresh, if_pos hanswered]
    exact t.env.concludes_refresh client c.root
  · have hrefresh : s.refresh client =
        (.error (Call.timedOut Operation.get.label c.callTimeout), t) :=
      if_neg hanswered
    rw [hrefresh, if_neg hanswered]
    exact t.env.concludes_timedOut client c.root _

/-- A refresh of a watch ends with the count, or with the failure of its scan, and is reported. -/
theorem Watch.concludes_refresh (w : Watch) (call : Call) (env : Environment) :
    ∃ result env', env.Concludes w.client w.root result env'
        (env.awaited call w.callTimeout (Key.rootPrefix w.root)) ∧
      w.conclude call env = ({ w with stage := .waiting }, env'.say [w.report result]) := by
  unfold Watch.conclude Environment.awaited
  by_cases hanswered : call.isAnswered = true
  · rw [if_pos hanswered, if_pos hanswered]
    exact ⟨_, _, env.concludes_refresh w.client w.root, rfl⟩
  · rw [if_neg hanswered, if_neg hanswered]
    exact ⟨_, _, env.concludes_timedOut w.client w.root _, rfl⟩

/-- A refresh of a registration ends with the count, or with the failure of its scan, and that is
what the registration is told. -/
theorem Attempt.concludes_refresh (terms : Terms) (p : Progress) (start : String) (call : Call)
    (env : Environment) :
    ∃ result env', env.Concludes terms.client terms.root result env'
        (env.awaited call terms.callTimeout start) ∧
      conclude terms p (.scan start) call env =
        follow terms p.plan p.hold
          (Registration.react p.plan p.phase (.refreshed (result.map fun _ => ()))) env' := by
  unfold conclude Environment.awaited
  by_cases hanswered : call.isAnswered = true
  · rw [if_pos hanswered, if_pos hanswered]
    rcases env.scan_cases start with ⟨failure, heq⟩ | ⟨entries, _, heq⟩
    · simp only [carryOut, heq]
      exact ⟨_, _, env.concludes_timedOut terms.client terms.root failure, rfl⟩
    · have hconfirm := Environment.concludes_confirm terms.client terms.root heq
      simp only [carryOut, heq] at hconfirm ⊢
      exact ⟨_, _, hconfirm, rfl⟩
  · rw [if_neg hanswered, if_neg hanswered]
    exact ⟨_, _, env.concludes_timedOut terms.client terms.root _, rfl⟩

/-- A refresh is an exact merge.  What becomes of a key depends on its own pair only, whatever the
other pairs are; and whoever has asked for a refresh, a client, a watch or a registration, gets the
count, or the failure of the scan and every registry as it was. -/
theorem refresh_merges {r : Registry} {root : String} {now : Reading} {entries : Entries}
    (hr : r.Distinct) (hkeys : (entries.map (·.1)).Nodup) :
    r.Merges root now entries (r.refresh root now entries) ∧
      (∀ (s : Schedule) (client : Nat),
        let c := s.env.config client
        let call := Call.started s.env.time (some (s.env.delays .get)) c.callTimeout
        let t := s.runUntil call.endsAt
        t.env.Concludes client c.root (s.refresh client).1 (s.refresh client).2.env
          (t.env.awaited call c.callTimeout (Key.rootPrefix c.root))) ∧
      (∀ (w : Watch) (call : Call) (env : Environment), ∃ result env',
        env.Concludes w.client w.root result env'
            (env.awaited call w.callTimeout (Key.rootPrefix w.root)) ∧
          w.conclude call env = ({ w with stage := .waiting }, env'.say [w.report result])) ∧
      ∀ (terms : Terms) (p : Attempt.Progress) (start : String) (call : Call) (env : Environment),
        ∃ result env', env.Concludes terms.client terms.root result env'
            (env.awaited call terms.callTimeout start) ∧
          Attempt.conclude terms p (.scan start) call env =
            Attempt.follow terms p.plan p.hold
              (Registration.react p.plan p.phase (.refreshed (result.map fun _ => ()))) env' :=
  ⟨Registry.merges_refresh hr hkeys, Schedule.concludes_refresh, Watch.concludes_refresh,
    Attempt.concludes_refresh⟩

/-- An instance that is known, one without a name that is new, and something malformed. -/
def mixed : Registry × Entries :=
  (⟨[.ofDescriptor "/r/a/a_1" "a" (.ofAddress "a" "x" "") 3], 5, 0⟩,
    [("/r/a/a_1", Text.utf8 "\x7b\"ip\":\"y\"\x7d"), ("/r/a/a_2", Text.utf8 "\x7b"),
      ("/r/b/b_1", Text.utf8 "\x7b\"ip\":\"z\"\x7d")])

/-- The refresh of the mixed entries counts two of them, and takes a name from a key. -/
theorem refresh_merges_mixed :
    mixed.1.Merges "r" 7 mixed.2 (mixed.1.refresh "r" 7 mixed.2) ∧
      (mixed.1.refresh "r" 7 mixed.2).confirmed = 2 ∧
      ((mixed.1.refresh "r" 7 mixed.2).registry.get? "/r/b/b_1").map (·.name) = some "b" := by
  have hr : mixed.1.Distinct := by
    unfold Registry.Distinct
    decide
  exact ⟨(refresh_merges hr (by decide)).1, by decide +kernel, by decide +kernel⟩

end ServiceDiscovery
