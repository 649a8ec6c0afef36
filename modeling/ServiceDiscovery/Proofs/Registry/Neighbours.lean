import Mathlib.Data.List.Basic
import ServiceDiscovery.Proofs.Registry.Undisturbed

/-!
# Services side by side

All services share one registry and one counter of stamps, so what is done for one
service shows in the stamps of the others.  It does not show in their picks: stamps are
only compared within a service, and there their order depends on nothing but the picks
of that service.

Main results:

- Definition {lit}`Registry.Mirrors`: one registry holds the instances of a service that
  another one holds, with stamps of its own in the same order.
- Theorems {lit}`Mirrors.step` and {lit}`Mirrors.pass`: it goes on doing so, whether an
  action is for the service and is taken in both, or is for another service and is taken
  in the other registry alone.
- Theorem {lit}`undisturbed_by_other_services`: a run answers questions about a service
  as if nothing had been done for any other service.
-/

namespace ServiceDiscovery

/-- The instance but for its stamp. -/
def Instance.unstamped (i : Instance) : Instance :=
  { i with pickStamp := 0 }

/-- The instance with another stamp, which depends on the one that it has. -/
def Instance.restamped (f : UInt64 → UInt64) (i : Instance) : Instance :=
  { i with pickStamp := f i.pickStamp }

namespace Registry

variable {service : String → String} {name : String} {f : UInt64 → UInt64} {r r' : Registry}
  {e : Event} {now : Reading}

/-! ## Actions for a service -/

/-- An action is for a service: for this one alone, or for all of them. -/
def Event.concerns (name : String) (e : Event) : Bool :=
  match e.action with
  | .observe _ n _ | .select n | .pick n | .pickEndpoint n | .candidates n | .addresses n =>
    n = name
  | .services | .reportDead _ => true

/-- Each key is seen for one service only. -/
def Assigned (service : String → String) (es : List Event) : Prop :=
  ∀ e ∈ es, ∀ key n d, e.action = .observe key n d → service key = n

theorem Assigned.head {es : List Event} (h : Assigned service (e :: es)) :
    Assigned service [e] :=
  fun _ hf => h _ (List.mem_singleton.mp hf ▸ List.mem_cons_self)

theorem Assigned.tail {es : List Event} (h : Assigned service (e :: es)) :
    Assigned service es :=
  fun _ hf => h _ (List.mem_cons_of_mem _ hf)

/-- Whatever is remembered under a key belongs to the key's service. -/
def Sorted (service : String → String) (r : Registry) : Prop :=
  ∀ key i, r.get? key = some i → i.name = service key

/-- Actions that assign keys to services leave every key with its service. -/
theorem Sorted.step (hr : r.Distinct) (h : r.Sorted service) (he : Assigned service [e]) :
    (r.step e).Sorted service := by
  intro key j hj
  have hfate := fate_of_step hr e key
  rw [hj] at hfate
  generalize hknown : r.get? key = known at hfate
  cases hfate with
  | found hsees => exact (he e List.mem_cons_self _ _ _ hsees).symm
  | @seen i => exact h key i hknown
  | @kept i => exact h key i hknown

/-! ## The instances of a service -/

/-- The instances of a service, dead or not. -/
def members (r : Registry) (name : String) : List Instance :=
  r.instances.filter fun i => i.name = name

/-- The members of a service are the instances of its name. -/
theorem mem_members {i : Instance} : i ∈ r.members name ↔ i ∈ r.instances ∧ i.name = name := by
  rw [members, List.mem_filter, decide_eq_true_eq]

/-- Instances of one service that have one key are the same. -/
theorem Sorted.name_eq (hr : r.Distinct) (h : r.Sorted service) {i j : Instance}
    (hi : i ∈ r.instances) (hj : j ∈ r.instances) (hkey : i.key = j.key) : i.name = j.name := by
  rw [h _ i ((mem_instances_iff hr).mp hi), h _ j ((mem_instances_iff hr).mp hj), hkey]

/-- Forgetting and taking the members of a service can change places. -/
theorem members_filter (r : Registry) (name : String) (p : Instance → Bool) :
    members { r with instances := r.instances.filter p } name = (r.members name).filter p := by
  simp only [members, List.filter_filter, Bool.and_comm]

/-- So can any change to instances that leaves their names alone. -/
theorem members_map {g : Instance → Instance} (hg : ∀ i, (g i).name = i.name) (r : Registry)
    (name : String) (stamp : UInt64) :
    members { r with instances := r.instances.map g, lastStamp := stamp } name =
      (r.members name).map g := by
  simp only [members, List.filter_map, Function.comp_def, hg]

/-- The instances that count are live members. -/
theorem live_eq_filter_members (r : Registry) (now : Reading) (name : String) :
    r.live now name = (r.members name).filter (r.isLive now) := by
  simp only [live, members, List.filter_filter, Bool.and_comm]

/-- An eviction takes dead members of its own service only. -/
theorem members_evict (r : Registry) (now : Reading) (name other : String) :
    (r.evict now other).members name =
      (r.members name).filter fun i => !(i.name = other && r.isDead now i) :=
  members_filter r name _

/-- Forgetting dead instances of another service leaves those of this one alone. -/
theorem members_evict_of_ne {other : String} (hne : other ≠ name) :
    (r.evict now other).members name = r.members name := by
  rw [members_evict, List.filter_eq_self]
  intro i hi
  have hname : i.name ≠ other := by
    rw [(mem_members.mp hi).2]
    exact hne.symm
  simp [hname]

/-- Changing instances of other services leaves those of this one alone. -/
theorem members_map_of_fixed {g : Instance → Instance} (hg : ∀ i, (g i).name = i.name)
    (hfixed : ∀ i ∈ r.members name, g i = i) (stamp : UInt64) :
    members { r with instances := r.instances.map g, lastStamp := stamp } name =
      r.members name := by
  rw [members_map hg, List.map_congr_left hfixed, List.map_id']

/-- An action for another service leaves the instances of this one alone. -/
theorem members_step_of_other (hr : r.Distinct) (hsorted : r.Sorted service)
    (he : Assigned service [e]) (hother : e.concerns name = false) :
    (r.step e).members name = r.members name := by
  cases hservice : e.action.service? with
  | some other =>
      have hne : other ≠ name := by
        rcases e with ⟨now, action⟩
        cases action <;> simp_all [Action.service?, Event.concerns]
      rw [step_of_service hservice]
      rcases select_cases r e.now other with ⟨_, hs⟩ | ⟨m, hm, hmname, _, _, hs⟩
      · rw [hs]
        exact members_evict_of_ne hne
      · have hevict : (r.evict e.now other).members name = r.members name :=
          members_evict_of_ne hne
        rw [hs, ← hevict]
        refine members_map_of_fixed (by intro i; split <;> rfl) ?_ _
        intro i hi
        obtain ⟨hi, hname⟩ := mem_members.mp hi
        refine if_neg fun hkey => hne ?_
        rw [← hname, ← hmname]
        exact (hsorted.name_eq hr (List.mem_filter.mp hi).1 hm hkey).symm
  | none =>
      rcases e with ⟨now, action⟩
      cases action with
      | observe key other d =>
          have hne : other ≠ name := by simpa [Event.concerns] using hother
          have hkey : service key = other := he _ List.mem_cons_self _ _ _ rfl
          simp only [step, Registry.observe]
          split
          · refine members_map_of_fixed (by intro i; split <;> rfl) ?_ _
            intro i hi
            obtain ⟨hi, hname⟩ := mem_members.mp hi
            refine if_neg fun hikey => hne ?_
            rw [← hname, hsorted _ i ((mem_instances_iff hr).mp hi), hikey, hkey]
          · rw [members, List.filter_append, List.filter_singleton]
            simp [Instance.ofDescriptor, hne, members]
      | candidates other | addresses other =>
          exact members_evict_of_ne (by simpa [Event.concerns] using hother)
      | select | pick | pickEndpoint => cases hservice
      | services | reportDead => cases hother

/-! ## Registries with the same instances of a service -/

/-- A stamp that an instance of a service has, or that it would have as a new one. -/
def Bears (r : Registry) (name : String) (stamp : UInt64) : Prop :=
  stamp = 0 ∨ ∃ i ∈ r.members name, i.pickStamp = stamp

/-- The second registry holds the instances of a service that the first one holds, and no others.
Its stamps are others, but in the same order, and new instances are new in both. -/
structure Mirrors (name : String) (f : UInt64 → UInt64) (r r' : Registry) : Prop where
  window : r'.window = r.window
  lastStamp : r'.lastStamp ≤ r.lastStamp
  instances : r'.instances = (r.members name).map (·.restamped f)
  zero : f 0 = 0
  increasing : ∀ a b, r.Bears name a → r.Bears name b → a < b → f a < f b

/-- Another stamp makes no instance dead or alive. -/
theorem Mirrors.isDead (h : Mirrors name f r r') (i : Instance) :
    r'.isDead now (i.restamped f) = r.isDead now i := by
  rw [Registry.isDead, Registry.isDead, h.window]
  rfl

theorem Mirrors.isLive (h : Mirrors name f r r') (i : Instance) :
    r'.isLive now (i.restamped f) = r.isLive now i := by
  rw [Registry.isLive, Registry.isLive, h.isDead]

/-- In the mirror a key has the same entry with another stamp, if it is of the service. -/
theorem Mirrors.get?_eq (h : Mirrors name f r r') (hr : r.Distinct) (key : String) :
    r'.get? key = ((r.get? key).filter fun i => i.name = name).map (·.restamped f) := by
  have hkey (i : Instance) : (i.restamped f).key = i.key := rfl
  rw [get?_eq_findKey, h.instances, findKey_map hkey, members, findKey_filter hr,
    ← get?_eq_findKey]

/-- In the mirror the same instances of the service count. -/
theorem Mirrors.live_eq (h : Mirrors name f r r') :
    r'.live now name = (r.live now name).map (·.restamped f) := by
  have hown : r'.members name = r'.instances := by
    rw [members, List.filter_eq_self, h.instances]
    intro i hi
    obtain ⟨j, hj, rfl⟩ := List.mem_map.mp hi
    exact decide_eq_true (mem_members.mp hj).2
  rw [live_eq_filter_members, live_eq_filter_members, hown, h.instances, List.filter_map]
  exact congrArg _ (List.filter_congr fun i _ => h.isLive i)

/-- The order of two stamps is the same in both. -/
theorem Mirrors.lt_iff (h : Mirrors name f r r') {a b : UInt64} (ha : r.Bears name a)
    (hb : r.Bears name b) : f a < f b ↔ a < b := by
  constructor
  · intro hlt
    rcases Std.lt_trichotomy a b with hab | rfl | hba
    · exact hab
    · exact absurd hlt (UInt64.lt_irrefl _)
    · exact absurd (h.increasing b a hb ha hba) (UInt64.lt_asymm hlt)
  · exact h.increasing a b ha hb

/-- Different stamps of the service stay different in the mirror. -/
theorem Mirrors.eq_iff (h : Mirrors name f r r') {a b : UInt64} (ha : r.Bears name a)
    (hb : r.Bears name b) : f a = f b ↔ a = b := by
  constructor
  · intro heq
    rcases Std.lt_trichotomy a b with hab | hab | hba
    · exact absurd heq (UInt64.ne_of_lt (h.increasing a b ha hb hab))
    · exact hab
    · exact absurd heq.symm (UInt64.ne_of_lt (h.increasing b a hb ha hba))
  · exact congrArg f

/-- A change that leaves the order of picks alone leaves the first pick alone. -/
theorem leastRecent_map {g : Instance → Instance} {l : List Instance}
    (hg : ∀ i ∈ l, ∀ j ∈ l, precedes (g i) (g j) = precedes i j) :
    leastRecent (l.map g) = (leastRecent l).map g := by
  induction l with
  | nil => rfl
  | cons i l ih =>
      have hrest := ih fun i hi j hj =>
        hg i (List.mem_cons_of_mem _ hi) j (List.mem_cons_of_mem _ hj)
      rw [List.map_cons, leastRecent, leastRecent, hrest]
      cases hleast : leastRecent l with
      | none => rfl
      | some j =>
          have hj := List.mem_cons_of_mem i (leastRecent_mem hleast)
          simp only [Option.map_some, hg j hj i List.mem_cons_self]
          split <;> rfl

/-- Both pick the same instance first. -/
theorem Mirrors.leastRecent_eq (h : Mirrors name f r r') :
    leastRecent (r'.live now name) = (leastRecent (r.live now name)).map (·.restamped f) := by
  rw [h.live_eq]
  apply leastRecent_map
  intro i hi j hj
  rw [live_eq_filter_members, List.mem_filter] at hi hj
  have ha : r.Bears name i.pickStamp := Or.inr ⟨i, hi.1, rfl⟩
  have hb : r.Bears name j.pickStamp := Or.inr ⟨j, hj.1, rfl⟩
  rw [Bool.eq_iff_iff, precedes_iff, precedes_iff]
  exact or_congr (h.lt_iff ha hb) (and_congr_left fun _ => h.eq_iff ha hb)

/-! ## Steps for another service -/

/-- What does not change the instances of the service is not noticed. -/
theorem Mirrors.unnoticed (h : Mirrors name f r r') {s : Registry} (hwindow : s.window = r.window)
    (hstamp : r.lastStamp ≤ s.lastStamp) (hmembers : s.members name = r.members name) :
    Mirrors name f s r' where
  window := h.window.trans hwindow.symm
  lastStamp := UInt64.le_trans h.lastStamp hstamp
  instances := by rw [h.instances, hmembers]
  zero := h.zero
  increasing := by
    unfold Bears
    rw [hmembers]
    exact h.increasing

/-- What is no concern of the service need not happen in the mirror. -/
theorem Mirrors.pass (h : Mirrors name f r r') (hr : r.Distinct) (hsorted : r.Sorted service)
    (he : Assigned service [e]) (hother : e.concerns name = false) :
    Mirrors name f (r.step e) r' :=
  h.unnoticed (window_step r e) (lastStamp_le_step r e)
    (members_step_of_other hr hsorted he hother)

/-! ## Steps for the service -/

/-- Instances that change but for their stamps do so in both. -/
theorem Mirrors.update (h : Mirrors name f r r') {s s' : Registry}
    (hwindow : s.window = r.window) (hwindow' : s'.window = r'.window)
    (hstamp : s.lastStamp = r.lastStamp) (hstamp' : s'.lastStamp = r'.lastStamp)
    (hinstances : s'.instances = (s.members name).map (·.restamped f))
    (hbears : ∀ a, s.Bears name a → r.Bears name a) : Mirrors name f s s' where
  window := by rw [hwindow', h.window, hwindow]
  lastStamp := by
    rw [hstamp, hstamp']
    exact h.lastStamp
  instances := hinstances
  zero := h.zero
  increasing := fun a b ha hb => h.increasing a b (hbears a ha) (hbears b hb)

/-- Instances are forgotten in both. -/
theorem Mirrors.filter (h : Mirrors name f r r') {p p' : Instance → Bool}
    (hp : ∀ i, p' (i.restamped f) = p i) :
    Mirrors name f { r with instances := r.instances.filter p }
      { r' with instances := r'.instances.filter p' } := by
  refine h.update rfl rfl rfl rfl ?_ ?_
  · rw [members_filter, h.instances, List.filter_map]
    exact congrArg _ (List.filter_congr fun i _ => hp i)
  · rintro a (rfl | ⟨i, hi, rfl⟩)
    · exact Or.inl rfl
    · rw [members_filter] at hi
      exact Or.inr ⟨i, (List.mem_filter.mp hi).1, rfl⟩

/-- An eviction keeps a mirror. -/
theorem Mirrors.evict (h : Mirrors name f r r') :
    Mirrors name f (r.evict now name) (r'.evict now name) := by
  refine h.filter fun i => ?_
  rw [h.isDead]
  rfl

/-- A sighting for the service keeps a mirror, whether the key is known or not. -/
theorem Mirrors.observe (h : Mirrors name f r r') (hr : r.Distinct) (hsorted : r.Sorted service)
    {key : String} (hkey : service key = name) (d : Descriptor) :
    Mirrors name f (r.observe now key name d) (r'.observe now key name d) := by
  have hboth : (r'.get? key).isSome = (r.get? key).isSome := by
    rw [h.get?_eq hr]
    cases hi : r.get? key with
    | none => rfl
    | some i =>
        have hname : i.name = name := (hsorted key i hi).trans hkey
        simp [hname]
  unfold Registry.observe
  rw [hboth]
  split
  · have hname : ∀ i : Instance,
        (if i.key = key then { i with activeAt := now } else i).name = i.name := by
      intro i
      split <;> rfl
    refine h.update rfl rfl rfl rfl ?_ ?_
    · rw [members_map hname, h.instances, List.map_map, List.map_map]
      refine List.map_congr_left fun i _ => ?_
      simp only [Function.comp_apply, Instance.restamped]
      split <;> rfl
    · rintro a (rfl | ⟨i, hi, rfl⟩)
      · exact Or.inl rfl
      · rw [members_map hname] at hi
        obtain ⟨j, hj, rfl⟩ := List.mem_map.mp hi
        refine Or.inr ⟨j, hj, ?_⟩
        split <;> rfl
  · have hnew : members { r with
        instances := r.instances ++ [Instance.ofDescriptor key name d now] } name =
          r.members name ++ [Instance.ofDescriptor key name d now] := by
      rw [members, List.filter_append, List.filter_singleton]
      simp [Instance.ofDescriptor, members]
    refine h.update rfl rfl rfl rfl ?_ ?_
    · rw [hnew, List.map_append, ← h.instances]
      simp [Instance.restamped, Instance.ofDescriptor, h.zero]
    · rintro a (rfl | ⟨i, hi, rfl⟩)
      · exact Or.inl rfl
      · rw [hnew, List.mem_append, List.mem_singleton] at hi
        rcases hi with hi | rfl
        · exact Or.inr ⟨i, hi, rfl⟩
        · exact Or.inl rfl

/-- The stamp after a later one is no earlier. -/
theorem successor_mono {m n : UInt64} (h : m ≤ n) : successor m ≤ successor n := by
  by_cases hn : n = UInt64.ofNat (UInt64.size - 1)
  · rw [successor, successor, if_pos hn, hn, UInt64.le_iff_toNat_le]
    exact Nat.le_of_lt_succ (UInt64.toNat_lt _)
  · have hm : m ≠ UInt64.ofNat (UInt64.size - 1) := by grind
    rw [successor, successor, if_neg hm, if_neg hn]
    grind

/-- The counter of stamps that is behind stays behind. -/
theorem Mirrors.nextStamp_le (h : Mirrors name f r r') : r'.nextStamp now ≤ r.nextStamp now := by
  have hstamp := successor_mono h.lastStamp
  rw [nextStamp, nextStamp, max_eq_ite, max_eq_ite]
  generalize successor r'.lastStamp = m, successor r.lastStamp = n at hstamp
  grind

/-- A stamp of the first registry is no later than its last one, nor is its image in the second. -/
theorem Mirrors.bears_le (h : Mirrors name f r r') (hr : r.Sound) (hr' : r'.Sound) {a : UInt64}
    (ha : r.Bears name a) : a ≤ r.lastStamp ∧ f a ≤ r'.lastStamp := by
  rcases ha with rfl | ⟨i, hi, rfl⟩
  · rw [h.zero]
    exact ⟨UInt64.zero_le, UInt64.zero_le⟩
  · have hmem : i.restamped f ∈ r'.instances := by
      rw [h.instances]
      exact List.mem_map_of_mem hi
    exact ⟨hr.stamped _ _ ((mem_instances_iff hr.distinct).mp (mem_members.mp hi).1),
      hr'.stamped _ _ ((mem_instances_iff hr'.distinct).mp hmem)⟩

/-- An instance gets the next stamp in both, which comes after all others. -/
theorem Mirrors.stamp (h : Mirrors name f r r') (hr : r.Sound) (hr' : r'.Sound)
    (hroom : (r.nextStamp now).toNat < 2 ^ 64 - 1) (key : String) :
    Mirrors name (Function.update f (r.nextStamp now) (r'.nextStamp now))
      (r.stamp key (r.nextStamp now)) (r'.stamp key (r'.nextStamp now)) := by
  have hnext := lastStamp_lt_nextStamp hroom
  have hnext' : r'.lastStamp < r'.nextStamp now :=
    lastStamp_lt_nextStamp (Nat.lt_of_le_of_lt (UInt64.le_iff_toNat_le.mp h.nextStamp_le) hroom)
  have hold {a : UInt64} (ha : r.Bears name a) :
      a < r.nextStamp now ∧ f a < r'.nextStamp now :=
    ⟨UInt64.lt_of_le_of_lt (h.bears_le hr hr' ha).1 hnext,
      UInt64.lt_of_le_of_lt (h.bears_le hr hr' ha).2 hnext'⟩
  have hkeep {a : UInt64} (ha : r.Bears name a) :
      Function.update f (r.nextStamp now) (r'.nextStamp now) a = f a :=
    Function.update_of_ne (UInt64.ne_of_lt (hold ha).1) _ _
  have hname : ∀ i : Instance,
      (if i.key = key then { i with pickStamp := r.nextStamp now } else i).name = i.name := by
    intro i
    split <;> rfl
  have hbears {a : UInt64} (ha : (r.stamp key (r.nextStamp now)).Bears name a) :
      a = r.nextStamp now ∨ r.Bears name a := by
    rcases ha with rfl | ⟨i, hi, rfl⟩
    · exact Or.inr (Or.inl rfl)
    · rw [Registry.stamp, members_map hname] at hi
      obtain ⟨j, hj, rfl⟩ := List.mem_map.mp hi
      split
      · exact Or.inl rfl
      · exact Or.inr (Or.inr ⟨j, hj, rfl⟩)
  refine ⟨h.window, h.nextStamp_le, ?_, ?_, ?_⟩
  · rw [Registry.stamp, Registry.stamp, members_map hname, h.instances, List.map_map,
      List.map_map]
    refine List.map_congr_left fun i hi => ?_
    simp only [Function.comp_apply, Instance.restamped]
    split
    · simp only [Function.update_self]
    · rw [hkeep (Or.inr ⟨i, hi, rfl⟩)]
  · rw [hkeep (Or.inl rfl), h.zero]
  · intro a b ha hb hab
    rcases hbears ha with rfl | ha
    · -- Nothing is later than the new stamp.
      rcases hbears hb with rfl | hb
      · exact absurd hab (UInt64.lt_irrefl _)
      · exact absurd (hold hb).1 (UInt64.lt_asymm hab)
    · rw [hkeep ha]
      rcases hbears hb with rfl | hb
      · rw [Function.update_self]
        exact (hold ha).2
      · rw [hkeep hb]
        exact h.increasing a b ha hb hab

/-- A pick for the service keeps a mirror: its stamp is the latest one in both registries. -/
theorem Mirrors.select (h : Mirrors name f r r') (hr : r.Sound) (hr' : r'.Sound)
    (hroom : (r.select now name).2.HasRoom) :
    ∃ f', Mirrors name f' (r.select now name).2 (r'.select now name).2 := by
  simp only [Registry.select, candidates, h.leastRecent_eq] at hroom ⊢
  cases hleast : leastRecent (r.live now name) with
  | none => exact ⟨f, h.evict⟩
  | some i =>
      rw [hleast] at hroom
      have hsound : (r.evict now name).Sound := hr.step ⟨now, .candidates name⟩
      have hsound' : (r'.evict now name).Sound := hr'.step ⟨now, .candidates name⟩
      exact ⟨_, h.evict.stamp hsound hsound' hroom i.key⟩

/-- Every action for the service keeps a mirror, perhaps with another order-preserving map of
stamps. -/
theorem Mirrors.step (h : Mirrors name f r r') (hr : r.Sound) (hr' : r'.Sound)
    (hsorted : r.Sorted service) (he : Assigned service [e]) (hown : e.concerns name = true)
    (hroom : (r.step e).HasRoom) : ∃ f', Mirrors name f' (r.step e) (r'.step e) := by
  rcases e with ⟨now, action⟩
  cases action with
  | observe key n d =>
      obtain rfl : n = name := of_decide_eq_true hown
      exact ⟨f, h.observe hr.distinct hsorted (he _ List.mem_cons_self _ _ _ rfl) d⟩
  | select n | pick n | pickEndpoint n =>
      obtain rfl : n = name := of_decide_eq_true hown
      exact h.select hr hr' hroom
  | candidates n | addresses n =>
      obtain rfl : n = name := of_decide_eq_true hown
      exact ⟨f, h.evict⟩
  | services => exact ⟨f, h.filter h.isLive⟩
  | reportDead address => exact ⟨f, h.filter fun _ => rfl⟩

/-! ## Runs -/

/-- A run with everything, and the run without what is for other services. -/
theorem Mirrors.run (h : Mirrors name f r r') (hr : r.Sound) (hr' : r'.Sound)
    (hsorted : r.Sorted service) {es : List Event} (hes : Assigned service es)
    (hroom : (r.run es).HasRoom) :
    ∃ f', Mirrors name f' (r.run es) (r'.run (es.filter (·.concerns name))) := by
  induction es generalizing r r' f with
  | nil => exact ⟨f, h⟩
  | cons e es ih =>
      have hsorted' := hsorted.step hr.distinct hes.head
      cases hconcerns : e.concerns name with
      | true =>
          rw [List.filter_cons_of_pos hconcerns]
          obtain ⟨f', h'⟩ := h.step hr hr' hsorted hes.head hconcerns (HasRoom.of_run hroom)
          exact ih h' (hr.step e) (hr'.step e) hsorted' hes.tail hroom
      | false =>
          rw [List.filter_cons_of_neg (by simp [hconcerns])]
          have h' := h.pass hr.distinct hsorted hes.head hconcerns
          exact ih h' (hr.step e) hr' hsorted' hes.tail hroom

/-- Registries that have seen nothing are mirrors of each other. -/
theorem Mirrors.empty (name : String) (window : Duration) :
    Mirrors name id (.empty window) (.empty window) :=
  ⟨rfl, UInt64.le_refl _, rfl, rfl, fun _ _ _ _ hab => hab⟩

section

variable {α : Type} {read : Instance → α}
  (hread : ∀ (i : Instance) (stamp : UInt64), read { i with pickStamp := stamp } = read i)

include hread

/-- What can be read off an instance without its stamp is the same of the picked ones. -/
theorem Mirrors.select_map_eq (h : Mirrors name f r r') :
    (r'.select now name).1.map read = (r.select now name).1.map read := by
  simp only [Registry.select, candidates, h.leastRecent_eq]
  cases leastRecent (r.live now name) with
  | none => rfl
  | some i =>
      refine congrArg Except.ok ?_
      exact (hread i _).trans (hread i _).symm

/-- What can be read off an instance without its stamp is the same of the listed ones. -/
theorem Mirrors.live_map_eq (h : Mirrors name f r r') :
    (r'.live now name).map read = (r.live now name).map read := by
  rw [h.live_eq, List.map_map]
  exact List.map_congr_left fun i _ => hread i _

end

/-- Services do not disturb each other.  Let each key be seen for one service only, and take out of
a run whatever is done for other services than one.  At every point of the run, what is picked for
the service and what is listed for it stays the same, but for the numbers on the stamps. -/
theorem undisturbed_by_other_services {window : Duration} {es : List Event}
    (hes : Assigned service es) (hroom : ((empty window).run es).HasRoom) (name : String)
    (now : Reading) :
    let full := (empty window).run es
    let own := (empty window).run (es.filter (·.concerns name))
    (own.select now name).1.map Instance.unstamped =
        (full.select now name).1.map Instance.unstamped ∧
      (own.pick now name).1 = (full.pick now name).1 ∧
      (own.pickEndpoint now name).1 = (full.pickEndpoint now name).1 ∧
      ((own.candidates now name).1.map Instance.unstamped).Perm
        ((full.candidates now name).1.map Instance.unstamped) ∧
      (own.addresses now name).1.Perm (full.addresses now name).1 := by
  intro full own
  have hsorted : (empty window).Sorted service := by
    intro key i hi
    cases hi
  obtain ⟨f, h⟩ := (Mirrors.empty name window).run (.empty window) (.empty window) hsorted hes hroom
  have hwhole : ∀ (i : Instance) (stamp : UInt64),
      Instance.unstamped { i with pickStamp := stamp } = i.unstamped := fun _ _ => rfl
  have haddress : ∀ (i : Instance) (stamp : UInt64),
      Instance.address { i with pickStamp := stamp } = i.address := fun _ _ => rfl
  have hendpoint : ∀ (i : Instance) (stamp : UInt64),
      Instance.endpoint { i with pickStamp := stamp } = i.endpoint := fun _ _ => rfl
  exact ⟨h.select_map_eq hwhole, h.select_map_eq haddress, h.select_map_eq hendpoint,
    List.Perm.of_eq (h.live_map_eq hwhole), List.Perm.of_eq (h.live_map_eq haddress)⟩

/-- Two services side by side, whose picks alternate on a clock that stands still. -/
def alternating : List Event :=
  [webSeen 1 "a", ⟨1, .observe "x" "db" (.ofAddress "db" "x" "")⟩, webSeen 1 "b",
    ⟨1, .pick "db"⟩, ⟨1, .pick "web"⟩, ⟨1, .candidates "db"⟩, ⟨1, .pick "db"⟩]

/-- The picks of one service raise the stamps of the other, and change nothing else. -/
theorem undisturbed_by_other_services_alternating :
    let full := (empty ⟨5⟩).run alternating
    let own := (empty ⟨5⟩).run (alternating.filter (·.concerns "web"))
    (full.select 1 "web").1.toOption.map (·.pickStamp) = some 4 ∧
      (own.select 1 "web").1.toOption.map (·.pickStamp) = some 2 ∧
      (own.pick 1 "web").1 = (full.pick 1 "web").1 ∧
      (full.pick 1 "web").1.toOption = some "b" := by
  have hes : Assigned (fun key => if key = "x" then "db" else "web") alternating := by
    intro e he key n d haction
    simp only [alternating, webSeen, List.mem_cons, List.not_mem_nil, or_false] at he
    rcases he with rfl | rfl | rfl | rfl | rfl | rfl | rfl <;> cases haction <;> rfl
  have hroom : ((empty ⟨5⟩).run alternating).HasRoom := by decide +kernel
  exact ⟨by decide +kernel, by decide +kernel,
    (undisturbed_by_other_services hes hroom "web" 1).2.1, by decide +kernel⟩

end Registry
end ServiceDiscovery
