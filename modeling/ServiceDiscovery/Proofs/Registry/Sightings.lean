import ServiceDiscovery.Proofs.Registry.Runs
import ServiceDiscovery.Refresh

/-!
# Sightings and what queries show of them

A refresh goes through the findings of a scan one by one.  Seen from one key, only
its own finding matters.  An instance that is dead, or that was never seen, has no
part in any answer: every query answers as if its key had been forgotten.

Main results:

- Theorems {lit}`get?_refresh_of_mem` and {lit}`get?_refresh_of_not_mem`: the entry
  of a key after a refresh.
- Theorem {lit}`get?_of_step`: only a sighting makes an instance look younger.
- Theorems {lit}`Conceals.select_forget` and {lit}`Conceals.services_forget`, with their
  likes for the other queries: what is dead has no part in an answer.
-/

namespace ServiceDiscovery

/-! ## Refreshes -/

/-- What is remembered under a key once a finding is confirmed there. -/
def Finding.remembered (now : Reading) (key : String) (known : Option Instance) :
    Finding → Option Instance
  | .sighting name d =>
    some (match known with
      | some i => { i with activeAt := now }
      | none => Instance.ofDescriptor key name d now)
  | .malformed _ | .nameless => known

/-- Whatever a finding confirms was seen just now. -/
theorem Finding.activeAt_of_remembered {f : Finding} {now : Reading} {key : String}
    {known : Option Instance} {i : Instance} (h : f.remembered now key known = some i) :
    i.activeAt = now ∨ known = some i := by
  cases f with
  | sighting name d =>
      left
      cases known <;> cases h <;> rfl
  | malformed fault => exact Or.inr h
  | nameless => exact Or.inr h

/-- What a refresh does to the registry with one entry of a scan. -/
theorem Refreshed.registry_confirm (root : String) (now : Reading) (so : Refreshed)
    (entry : String × Bytes) :
    (Refreshed.confirm root now so entry).registry =
      match Finding.ofEntry root entry.1 entry.2 with
      | .sighting name d => so.registry.observe now entry.1 name d
      | _ => so.registry := by
  unfold Refreshed.confirm
  dsimp only
  split <;> simp_all

/-- An entry of a scan changes what is remembered under its own key, and nothing else. -/
theorem Refreshed.get?_confirm (root : String) (now : Reading) (so : Refreshed)
    (entry : String × Bytes) (k : String) :
    (Refreshed.confirm root now so entry).registry.get? k =
      if k = entry.1 then
        (Finding.ofEntry root entry.1 entry.2).remembered now entry.1 (so.registry.get? entry.1)
      else so.registry.get? k := by
  have hunchanged : so.registry.get? k =
      if k = entry.1 then so.registry.get? entry.1 else so.registry.get? k := by
    split
    · rename_i hk
      rw [hk]
    · rfl
  rw [Refreshed.registry_confirm]
  cases Finding.ofEntry root entry.1 entry.2 with
  | sighting name d => exact Registry.get?_observe so.registry now entry.1 name d k
  | malformed fault => exact hunchanged
  | nameless => exact hunchanged

namespace Registry

variable {r : Registry} {now : Reading} {root key : String} {entries : Entries}

/-- A sighting leaves the expiry window alone. -/
theorem window_observe (r : Registry) (now : Reading) (key name : String) (d : Descriptor) :
    (r.observe now key name d).window = r.window := by
  unfold Registry.observe
  split <;> rfl

/-- What holds of a registry after every sighting holds of it after a refresh. -/
theorem refresh_induction {P : Registry → Prop} (hr : P r)
    (hobserve : ∀ r, P r → ∀ entry ∈ entries, ∀ name d, P (r.observe now entry.1 name d)) :
    P (r.refresh root now entries).registry := by
  unfold refresh
  suffices h : ∀ es : Entries, es ⊆ entries → ∀ so : Refreshed, P so.registry →
      P (es.foldl (Refreshed.confirm root now) so).registry from
    h entries (List.Subset.refl entries) ⟨r, 0, []⟩ hr
  intro es hes
  induction es with
  | nil => exact fun so hso => hso
  | cons entry es ih =>
      intro so hso
      rw [List.cons_subset] at hes
      refine ih hes.2 _ ?_
      rw [Refreshed.registry_confirm]
      cases Finding.ofEntry root entry.1 entry.2 with
      | sighting name d => exact hobserve so.registry hso entry hes.1 name d
      | malformed fault => exact hso
      | nameless => exact hso

/-- A refresh leaves keys distinct. -/
theorem Distinct.refresh (hr : r.Distinct) (root : String) (now : Reading) (entries : Entries) :
    (r.refresh root now entries).registry.Distinct :=
  refresh_induction hr fun _ hr _ _ _ _ => hr.observe _ _ _ _

/-- A refresh leaves the expiry window alone. -/
theorem window_refresh (r : Registry) (root : String) (now : Reading) (entries : Entries) :
    (r.refresh root now entries).registry.window = r.window :=
  refresh_induction (P := fun r' => r'.window = r.window) rfl
    fun r' hr' _ _ _ _ => (window_observe r' _ _ _ _).trans hr'

/-- A refresh does not touch the entry of a key that the scan has not found. -/
theorem get?_refresh_of_not_mem (h : key ∉ entries.map (·.1)) :
    (r.refresh root now entries).registry.get? key = r.get? key := by
  refine refresh_induction (P := fun r' => r'.get? key = r.get? key) rfl ?_
  intro r' hr' entry hentry name d
  have hne : key ≠ entry.1 := fun heq => h (heq ▸ List.mem_map_of_mem hentry)
  rw [get?_observe, if_neg hne]
  exact hr'

/-- A refresh confirms the finding under a key that the scan has found. -/
theorem get?_refresh_of_mem {value : Bytes} (hkeys : (entries.map (·.1)).Nodup)
    (h : (key, value) ∈ entries) :
    (r.refresh root now entries).registry.get? key =
      (Finding.ofEntry root key value).remembered now key (r.get? key) := by
  obtain ⟨before, after, rfl⟩ := List.append_of_mem h
  rw [List.map_append, List.map_cons, List.nodup_append] at hkeys
  obtain ⟨_, hafter, hdisjoint⟩ := hkeys
  have hbefore : key ∉ before.map (·.1) := fun hmem =>
    hdisjoint key hmem key List.mem_cons_self rfl
  have hrest (so : Refreshed) :
      (after.foldl (Refreshed.confirm root now) so).registry.get? key = so.registry.get? key := by
    have hnot := (List.nodup_cons.mp hafter).1
    clear h hafter hdisjoint
    induction after generalizing so with
    | nil => rfl
    | cons entry after ih =>
        rw [List.map_cons, List.mem_cons, not_or] at hnot
        rw [List.foldl_cons, ih _ hnot.2, Refreshed.get?_confirm, if_neg hnot.1]
  have hfirst : (before.foldl (Refreshed.confirm root now) ⟨r, 0, []⟩).registry.get? key =
      r.get? key := get?_refresh_of_not_mem hbefore
  rw [refresh, List.foldl_append, List.foldl_cons, hrest, Refreshed.get?_confirm, if_pos rfl,
    hfirst]

/-! ## Actions -/

/-- No action changes the expiry window. -/
theorem window_step (r : Registry) (e : Event) : (r.step e).window = r.window := by
  cases h : e.action.service? with
  | some name =>
      rw [step_of_service h]
      rcases select_cases r e.now name with ⟨_, hs⟩ | ⟨i, _, _, _, _, hs⟩
      · rw [hs]
        rfl
      · rw [hs]
        rfl
  | none =>
      rcases e with ⟨now, action⟩
      cases action with
      | observe key name d => exact window_observe r now key name d
      | select name => simp [Action.service?] at h
      | pick name => simp [Action.service?] at h
      | pickEndpoint name => simp [Action.service?] at h
      | candidates | addresses | services | reportDead => rfl

/-- Only a sighting makes an instance look younger, or lets one appear. -/
theorem get?_of_step (hr : r.Distinct) {e : Event} {i : Instance}
    (h : (r.step e).get? key = some i) :
    (∃ old, r.get? key = some old ∧ i = { old with pickStamp := i.pickStamp }) ∨
      ∃ name d, e.action = .observe key name d := by
  have hkept {p : Instance → Bool} (h : (r.get? key).filter p = some i) :
      ∃ old, r.get? key = some old ∧ i = { old with pickStamp := i.pickStamp } :=
    ⟨i, (Option.filter_eq_some_iff.mp h).1, rfl⟩
  cases hservice : e.action.service? with
  | some name =>
      left
      rw [step_of_service hservice] at h
      rcases select_cases r e.now name with ⟨_, hs⟩ | ⟨m, _, _, _, _, hs⟩
      · rw [hs, get?_evict hr] at h
        exact hkept h
      · rw [hs, get?_stamp, get?_evict hr, Option.map_eq_some_iff] at h
        obtain ⟨old, hold, heq⟩ := h
        refine ⟨old, (Option.filter_eq_some_iff.mp hold).1, ?_⟩
        subst heq
        split <;> rfl
  | none =>
      rcases e with ⟨now, action⟩
      cases action with
      | observe other name d =>
          simp only [step, get?_observe] at h
          split at h
          · rename_i heq
            exact Or.inr ⟨name, d, by rw [heq]⟩
          · exact Or.inl ⟨i, h, rfl⟩
      | select name => simp [Action.service?] at hservice
      | pick name => simp [Action.service?] at hservice
      | pickEndpoint name => simp [Action.service?] at hservice
      | candidates name => exact Or.inl (hkept ((get?_evict hr now name key).symm.trans h))
      | addresses name => exact Or.inl (hkept ((get?_evict hr now name key).symm.trans h))
      | services => exact Or.inl (hkept ((get?_services hr now key).symm.trans h))
      | reportDead address => exact Or.inl (hkept ((get?_reportDead hr address key).symm.trans h))

/-! ## Keys that are shown -/

/-- When keys are distinct, one instance at most has the key of another. -/
theorem filter_key {l : List Instance} (hl : (l.map (·.key)).Nodup) {i : Instance} (hi : i ∈ l) :
    l.filter (fun j => j.key = i.key) = [i] := by
  induction l with
  | nil => cases hi
  | cons j l ih =>
      rw [List.map_cons, List.nodup_cons] at hl
      rcases List.mem_cons.mp hi with rfl | hi
      · rw [List.filter_cons, if_pos (decide_eq_true rfl), List.cons_eq_cons]
        refine ⟨rfl, List.filter_eq_nil_iff.mpr ?_⟩
        intro k hk heq
        exact hl.1 (of_decide_eq_true heq ▸ List.mem_map_of_mem hk)
      · have hne : j.key ≠ i.key := fun heq => hl.1 (heq ▸ List.mem_map_of_mem hi)
        rw [List.filter_cons, if_neg (by simpa using hne), ih hl.2 hi]

/-- An instance that counts is the only candidate under its key. -/
theorem filter_candidates (hr : r.Distinct) {name : String} {i : Instance}
    (hi : r.get? key = some i) (hname : i.name = name) (hlive : r.isLive now i = true) :
    (r.candidates now name).1.filter (fun i => i.key = key) = [i] := by
  have hkeys : ((r.candidates now name).1.map (·.key)).Nodup :=
    hr.sublist (List.filter_sublist.map _)
  rw [← key_of_get? hi]
  exact filter_key hkeys (mem_live.mpr ⟨mem_of_get? hi, hname, hlive⟩)

/-- Whatever was seen just now counts, unless the expiry window is empty. -/
theorem isLive_of_activeAt {i : Instance} (hactive : i.activeAt = now) (hwindow : r.window ≠ 0) :
    r.isLive now i = true := by
  have hage : age now i = 0 := by
    rw [age, hactive, if_pos (UInt64.le_refl now), UInt64.sub_self]
  rw [isLive, isDead, hage, Bool.not_eq_true', decide_eq_false_iff_not, UInt64.le_zero_iff]
  exact hwindow

/-! ## Concealed keys -/

/-- Forgets what is remembered under a key. -/
def forget (r : Registry) (key : String) : Registry :=
  { r with instances := r.instances.filter fun i => i.key ≠ key }

/-- Whatever is remembered under a key is dead. -/
def Conceals (r : Registry) (now : Reading) (key : String) : Prop :=
  ∀ i, r.get? key = some i → r.isDead now i = true

/-- A key without an entry is concealed. -/
theorem Conceals.of_get?_eq_none (h : r.get? key = none) : r.Conceals now key := by
  intro i hi
  rw [h] at hi
  cases hi

theorem key_ne_of_mem_forget {i : Instance} (h : i ∈ (r.forget key).instances) : i.key ≠ key :=
  of_decide_eq_true (List.mem_filter.mp h).2

section

variable (hr : r.Distinct) (h : r.Conceals now key)

include hr h

/-- Forgetting a concealed key takes away nothing that counts. -/
theorem Conceals.filter_forget (p : Instance → Bool) :
    ((r.forget key).instances.filter fun i => p i && r.isLive now i) =
      r.instances.filter fun i => p i && r.isLive now i := by
  rw [forget, List.filter_filter]
  apply List.filter_congr
  intro i hi
  by_cases hkey : i.key = key
  · subst hkey
    simp [isLive, h i ((mem_instances_iff hr).mp hi)]
  · simp [hkey]

theorem Conceals.live_forget (name : String) :
    (r.forget key).live now name = r.live now name :=
  h.filter_forget hr fun i => i.name = name

theorem Conceals.liveAnywhere_forget :
    (r.forget key).liveAnywhere now = r.liveAnywhere now := by
  have hfilter := h.filter_forget hr fun _ => true
  simp only [Bool.true_and] at hfilter
  exact hfilter

/-- The candidates of a service are the same without a concealed key. -/
theorem Conceals.candidates_forget (name : String) :
    ((r.forget key).candidates now name).1 = (r.candidates now name).1 :=
  h.live_forget hr name

theorem Conceals.addresses_forget (name : String) :
    ((r.forget key).addresses now name).1 = (r.addresses now name).1 := by
  unfold addresses
  rw [h.live_forget hr name]

/-- A snapshot is the same without a concealed key. -/
theorem Conceals.services_forget :
    ((r.forget key).services now).1 = (r.services now).1 := by
  unfold services
  rw [h.liveAnywhere_forget hr]

/-- A pick is the same without a concealed key. -/
theorem Conceals.select_forget (name : String) :
    ((r.forget key).select now name).1 = (r.select now name).1 := by
  simp only [select, candidates, h.live_forget hr name]
  cases leastRecent (r.live now name) with
  | none => rfl
  | some i => rfl

/-- A concealed key is not among the candidates. -/
theorem Conceals.key_ne_of_candidate {name : String} {i : Instance}
    (hi : i ∈ (r.candidates now name).1) : i.key ≠ key := by
  rw [← h.candidates_forget hr] at hi
  exact key_ne_of_mem_forget (List.mem_filter.mp hi).1

/-- A concealed key is not picked. -/
theorem Conceals.key_ne_of_select {name : String} {i : Instance}
    (hi : (r.select now name).1 = .ok i) : i.key ≠ key := by
  rcases select_cases r now name with ⟨_, hs⟩ | ⟨j, hj, hname, hlive, _, hs⟩
  · rw [hs] at hi
    cases hi
  · rw [hs] at hi
    cases hi
    have hcandidate : j ∈ (r.candidates now name).1 := mem_live.mpr ⟨hj, hname, hlive⟩
    have hne : j.key ≠ key := h.key_ne_of_candidate hr hcandidate
    exact hne

end

end Registry
end ServiceDiscovery
