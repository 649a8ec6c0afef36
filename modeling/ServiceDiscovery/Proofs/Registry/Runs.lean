import Mathlib.Algebra.Group.Nat.Defs
import ServiceDiscovery.Proofs.Registry.Lookup

/-!
# Runs of a registry

A run applies actions to a registry, each at its own reading of the clock.
Nothing is assumed about the readings: the clock may stand still or be put back
between two actions.

Main results:

- Definitions {lit}`Registry.step`, {lit}`Registry.run` and
  {lit}`Registry.steps`: one action, a whole run, and the states it passes.
- Theorem {lit}`Sound.run`: in every state of a run keys are distinct and no
  stamp is later than the last one handed out.
- Theorem {lit}`kept_of_step`: what an action leaves of an entry.
- Theorem {lit}`picks_cases`: the picked instance is live and none precedes it.
-/

namespace ServiceDiscovery
namespace Registry

/-! ## Actions -/

/-- What is done to a registry. -/
inductive Action where
  /-- An instance is seen under a key. -/
  | observe (key name : String) (d : Descriptor)
  | select (name : String)
  | pick (name : String)
  | pickEndpoint (name : String)
  | candidates (name : String)
  | addresses (name : String)
  | services
  | reportDead (address : String)

/-- The service from which an action picks. -/
def Action.service? : Action → Option String
  | .select name | .pick name | .pickEndpoint name => some name
  | _ => none

/-- An action with the clock's reading at its moment. -/
structure Event where
  now : Reading
  action : Action

/-- The registry after an action. -/
def step (r : Registry) (e : Event) : Registry :=
  match e.action with
  | .observe key name d => r.observe e.now key name d
  | .select name => (r.select e.now name).2
  | .pick name => (r.pick e.now name).2
  | .pickEndpoint name => (r.pickEndpoint e.now name).2
  | .candidates name => (r.candidates e.now name).2
  | .addresses name => (r.addresses e.now name).2
  | .services => (r.services e.now).2
  | .reportDead address => (r.reportDead address).2

/-- The instance that an action picks. -/
def picked? (r : Registry) (e : Event) : Option Instance :=
  e.action.service?.bind fun name => (r.select e.now name).1.toOption

/-- The key of the instance that an action picks. -/
def pickedKey? (r : Registry) (e : Event) : Option String :=
  (r.picked? e).map (·.key)

/-- An action picks the instance under a key, for a service. -/
def Picks (r : Registry) (e : Event) (name key : String) : Prop :=
  e.action.service? = some name ∧ r.pickedKey? e = some key

instance (r : Registry) (e : Event) (name key : String) : Decidable (r.Picks e name key) :=
  inferInstanceAs (Decidable (_ ∧ _))

/-- The registry after a run. -/
def run (r : Registry) (es : List Event) : Registry :=
  es.foldl step r

/-- The actions of a run, each with the registry that it meets. -/
def steps (r : Registry) : List Event → List (Registry × Event)
  | [] => []
  | e :: es => (r, e) :: (r.step e).steps es

/-- Some run from an empty registry leads to the registry. -/
def Reachable (r : Registry) : Prop :=
  ∃ window es, r = (empty window).run es

@[simp]
theorem run_nil (r : Registry) : r.run [] = r :=
  rfl

@[simp]
theorem run_cons (r : Registry) (e : Event) (es : List Event) :
    r.run (e :: es) = (r.step e).run es :=
  rfl

/-- A run goes on where its first part ends. -/
theorem run_append (r : Registry) (es fs : List Event) :
    r.run (es ++ fs) = (r.run es).run fs :=
  List.foldl_append

/-- The last action of a run meets the registry after all others. -/
theorem steps_concat (r : Registry) (es : List Event) (e : Event) :
    r.steps (es ++ [e]) = r.steps es ++ [(r.run es, e)] := by
  induction es generalizing r with
  | nil => rfl
  | cons f es ih => simp [steps, ih]

/-- The actions that pick from a service are all a selection at heart. -/
theorem step_of_service {r : Registry} {e : Event} {name : String}
    (h : e.action.service? = some name) : r.step e = (r.select e.now name).2 := by
  rcases e with ⟨now, action⟩
  cases action <;> simp_all [Action.service?, step, pick, pickEndpoint]

/-- What an action picks from a service is what the selection picks. -/
theorem picked?_of_service {r : Registry} {e : Event} {name : String}
    (h : e.action.service? = some name) : r.picked? e = (r.select e.now name).1.toOption := by
  simp [picked?, h]

/-! ## Stamps -/

/-- The last stamp that was handed out is not the last word. -/
def HasRoom (r : Registry) : Prop :=
  r.lastStamp.toNat < 2 ^ 64 - 1

instance (r : Registry) : Decidable r.HasRoom :=
  inferInstanceAs (Decidable (_ < _))

theorem max_eq_ite (a b : UInt64) : max a b = if a ≤ b then b else a :=
  rfl

/-- The next stamp is no earlier than the last one. -/
theorem lastStamp_le_nextStamp (r : Registry) (now : Reading) :
    r.lastStamp ≤ r.nextStamp now := by
  rw [nextStamp, successor, max_eq_ite]
  grind

/-- The next stamp is later than the last one, unless it is the last word. -/
theorem lastStamp_lt_nextStamp {r : Registry} {now : Reading}
    (h : (r.nextStamp now).toNat < 2 ^ 64 - 1) : r.lastStamp < r.nextStamp now := by
  have hne : r.nextStamp now ≠ UInt64.ofNat (2 ^ 64 - 1) := by
    intro htop
    rw [htop] at h
    exact absurd h (by decide)
  rw [nextStamp, successor, max_eq_ite] at hne ⊢
  grind

/-- What an action does to the counter of stamps. -/
theorem lastStamp_step (r : Registry) (e : Event) :
    (r.step e).lastStamp =
      if (r.picked? e).isSome then r.nextStamp e.now else r.lastStamp := by
  cases h : e.action.service? with
  | some name =>
      rw [step_of_service h, picked?_of_service h]
      rcases select_cases r e.now name with ⟨_, hs⟩ | ⟨i, _, _, _, _, hs⟩
      · rw [hs]
        rfl
      · rw [hs]
        rfl
  | none =>
      rcases e with ⟨now, action⟩
      cases action with
      | observe key name d =>
          simp only [step, picked?, Action.service?, Registry.observe]
          split <;> rfl
      | select name => simp [Action.service?] at h
      | pick name => simp [Action.service?] at h
      | pickEndpoint name => simp [Action.service?] at h
      | candidates name => rfl
      | addresses name => rfl
      | services => rfl
      | reportDead address => rfl

/-- A pick hands out the next stamp. -/
theorem lastStamp_of_picked {r : Registry} {e : Event} {k : String}
    (h : r.pickedKey? e = some k) : (r.step e).lastStamp = r.nextStamp e.now := by
  have hsome : (r.picked? e).isSome := by
    rw [← Option.isSome_map (f := (·.key)), ← pickedKey?, h]
    rfl
  rw [lastStamp_step, if_pos hsome]

/-- The last stamp never goes back with an action. -/
theorem lastStamp_le_step (r : Registry) (e : Event) :
    r.lastStamp ≤ (r.step e).lastStamp := by
  rw [lastStamp_step]
  split
  · exact lastStamp_le_nextStamp r e.now
  · exact UInt64.le_refl _

/-- The last stamp never goes back in a run. -/
theorem lastStamp_le_run (r : Registry) (es : List Event) :
    r.lastStamp ≤ (r.run es).lastStamp := by
  induction es generalizing r with
  | nil => exact UInt64.le_refl _
  | cons e es ih => exact UInt64.le_trans (lastStamp_le_step r e) (ih (r.step e))

/-- The counter never goes back, so a run that leaves room had room all along. -/
theorem HasRoom.of_run {r : Registry} {es : List Event} (h : (r.run es).HasRoom) :
    r.HasRoom :=
  Nat.lt_of_le_of_lt (UInt64.le_iff_toNat_le.mp (lastStamp_le_run r es)) h

/-! ## What holds in every state -/

/-- Keys are distinct, and no stamp is later than the last one handed out. -/
structure Sound (r : Registry) : Prop where
  distinct : r.Distinct
  stamped : ∀ k i, r.get? k = some i → i.pickStamp ≤ r.lastStamp

theorem Sound.empty (window : Duration) : (empty window).Sound where
  distinct := Distinct.empty window
  stamped := by
    intro k i h
    simp [Registry.empty, Registry.get?] at h

/-- The next stamp is later than every stamp in a sound registry. -/
theorem Sound.pickStamp_lt {r : Registry} (hr : r.Sound) {k : String} {i : Instance}
    (hi : r.get? k = some i) {now : Reading} (hnext : (r.nextStamp now).toNat < 2 ^ 64 - 1) :
    i.pickStamp < r.nextStamp now := by
  have hle := hr.stamped k i hi
  have hlt := lastStamp_lt_nextStamp hnext
  exact UInt64.lt_of_le_of_lt hle hlt

/-- Every action leaves keys distinct. -/
theorem Distinct.step {r : Registry} (hr : r.Distinct) (e : Event) : (r.step e).Distinct := by
  have hselect (name : String) : (r.select e.now name).2.Distinct := by
    rcases select_cases r e.now name with ⟨_, hs⟩ | ⟨i, _, _, _, _, hs⟩
    · rw [hs]
      exact hr.evict e.now name
    · rw [hs]
      exact (hr.evict e.now name).stamp i.key _
  unfold Registry.step
  split
  · exact hr.observe _ _ _ _
  · exact hselect _
  · exact hselect _
  · exact hselect _
  · exact hr.evict _ _
  · exact hr.evict _ _
  · exact hr.filter _
  · exact hr.filter _

/-- What an action leaves of an entry: everything but the time of its last sighting and, if the
action picks it, its stamp. -/
structure Kept (r : Registry) (e : Event) (k : String) (i j : Instance) : Prop where
  name_eq : j.name = i.name
  address_eq : j.address = i.address
  picked : r.pickedKey? e = some k → j.pickStamp = r.nextStamp e.now
  unpicked : r.pickedKey? e ≠ some k → j.pickStamp = i.pickStamp

/-- An action that picks from a service leaves entries as they are, but for the stamp of the one
that is picked; and what is left of the service counts. -/
theorem kept_of_service {r : Registry} (hr : r.Distinct) {e : Event} {name k : String}
    {i j : Instance} (h : e.action.service? = some name) (hi : r.get? k = some i)
    (hj : (r.step e).get? k = some j) :
    r.Kept e k i j ∧ (i.name = name → r.isLive e.now i = true) := by
  rw [step_of_service h] at hj
  have hlive : ((r.get? k).filter fun i => !(i.name = name && r.isDead e.now i)).isSome →
      i.name = name → r.isLive e.now i = true := by
    simp only [hi, isLive, Option.filter_some]
    grind
  rcases select_cases r e.now name with ⟨_, hs⟩ | ⟨m, _, _, _, _, hs⟩
  · have hpicked : r.pickedKey? e = none := by
      rw [pickedKey?, picked?_of_service h, hs]
      rfl
    rw [hs, get?_evict hr] at hj
    refine ⟨?_, hlive (by rw [hj]; rfl)⟩
    rw [hi, Option.filter_eq_some_iff] at hj
    cases hj.1
    exact ⟨rfl, rfl, by simp [hpicked], fun _ => rfl⟩
  · have hpicked : r.pickedKey? e = some m.key := by
      rw [pickedKey?, picked?_of_service h, hs]
      rfl
    rw [hs, get?_stamp, get?_evict hr] at hj
    refine ⟨?_, hlive (by grind)⟩
    rw [hi, Option.map_eq_some_iff] at hj
    obtain ⟨i', hi', hj⟩ := hj
    rw [Option.filter_eq_some_iff] at hi'
    cases hi'.1
    subst hj
    have hkey : i.key = k := key_of_get? hi
    by_cases hm : m.key = k
    · rw [if_pos (by rw [hkey, hm])]
      exact ⟨rfl, rfl, fun _ => rfl, by simp [hpicked, hm]⟩
    · rw [if_neg (by rw [hkey]; exact Ne.symm hm)]
      exact ⟨rfl, rfl, by simp [hpicked, hm], fun _ => rfl⟩

/-- An entry that an action keeps is kept as it is, up to sighting and stamp. -/
theorem kept_of_step {r : Registry} (hr : r.Distinct) {e : Event} {k : String}
    {i j : Instance} (hi : r.get? k = some i) (hj : (r.step e).get? k = some j) :
    r.Kept e k i j := by
  cases h : e.action.service? with
  | some name => exact (kept_of_service hr h hi hj).1
  | none =>
      have hpicked : r.pickedKey? e = none := by simp [pickedKey?, picked?, h]
      suffices j.name = i.name ∧ j.address = i.address ∧ j.pickStamp = i.pickStamp from
        ⟨this.1, this.2.1, by simp [hpicked], fun _ => this.2.2⟩
      have hfilter (p : Instance → Bool) (hj : (r.get? k).filter p = some j) :
          j.name = i.name ∧ j.address = i.address ∧ j.pickStamp = i.pickStamp := by
        rw [hi, Option.filter_eq_some_iff] at hj
        cases hj.1
        simp
      rcases e with ⟨now, action⟩
      cases action with
      | observe key name d =>
          simp only [step, get?_observe] at hj
          by_cases hk : k = key
          · subst hk
            simp only [hi, if_true, Option.some.injEq] at hj
            subst hj
            simp
          · rw [if_neg hk, hi] at hj
            cases hj
            simp
      | select name => simp [Action.service?] at h
      | pick name => simp [Action.service?] at h
      | pickEndpoint name => simp [Action.service?] at h
      | candidates name => exact hfilter _ ((get?_evict hr now name k).symm.trans hj)
      | addresses name => exact hfilter _ ((get?_evict hr now name k).symm.trans hj)
      | services => exact hfilter _ ((get?_services hr now k).symm.trans hj)
      | reportDead address => exact hfilter _ ((get?_reportDead hr address k).symm.trans hj)

/-- A new entry has never been picked. -/
theorem stamp_of_new {r : Registry} (hr : r.Distinct) {e : Event} {k : String} {j : Instance}
    (hi : r.get? k = none) (hj : (r.step e).get? k = some j) : j.pickStamp = 0 := by
  cases h : e.action.service? with
  | some name =>
      rw [step_of_service h] at hj
      rcases select_cases r e.now name with ⟨_, hs⟩ | ⟨m, _, _, _, _, hs⟩
      · simp [hs, get?_evict hr, hi] at hj
      · simp [hs, get?_stamp, get?_evict hr, hi] at hj
  | none =>
      rcases e with ⟨now, action⟩
      cases action with
      | observe key name d =>
          simp only [step, get?_observe] at hj
          by_cases hk : k = key
          · subst hk
            simp only [hi, if_true, Option.some.injEq] at hj
            subst hj
            rfl
          · simp [hk, hi] at hj
      | select name => simp [Action.service?] at h
      | pick name => simp [Action.service?] at h
      | pickEndpoint name => simp [Action.service?] at h
      | candidates name => simp [step, candidates, get?_evict hr, hi] at hj
      | addresses name => simp [step, addresses, get?_evict hr, hi] at hj
      | services => simp [step, get?_services hr, hi] at hj
      | reportDead address => simp [step, get?_reportDead hr, hi] at hj

/-- Every action keeps what holds in every state. -/
theorem Sound.step {r : Registry} (hr : r.Sound) (e : Event) : (r.step e).Sound where
  distinct := hr.distinct.step e
  stamped := by
    intro k j hj
    cases hi : r.get? k with
    | none =>
        rw [stamp_of_new hr.distinct hi hj]
        exact UInt64.zero_le
    | some i =>
        have hkept := kept_of_step hr.distinct hi hj
        by_cases hp : r.pickedKey? e = some k
        · rw [hkept.picked hp, lastStamp_of_picked hp]
          exact UInt64.le_refl _
        · rw [hkept.unpicked hp]
          exact UInt64.le_trans (hr.stamped k i hi) (lastStamp_le_step r e)

theorem Sound.run {r : Registry} (hr : r.Sound) (es : List Event) : (r.run es).Sound := by
  induction es generalizing r with
  | nil => exact hr
  | cons e es ih => exact ih (hr.step e)

/-- Whatever holds in every state holds of a registry that can be reached. -/
theorem Reachable.sound {r : Registry} (h : r.Reachable) : r.Sound := by
  obtain ⟨window, es, rfl⟩ := h
  exact (Sound.empty window).run es

/-! ## Picks -/

/-- A picked instance belongs to the service, is live, and no other live instance of the service
precedes it. -/
theorem picks_cases {r : Registry} (hr : r.Distinct) {e : Event} {name k : String}
    (h : r.Picks e name k) :
    ∃ i, r.get? k = some i ∧ i.name = name ∧ r.isLive e.now i = true ∧
      ∀ l j, r.get? l = some j → j.name = name → r.isLive e.now j = true →
        precedes j i = false := by
  obtain ⟨hservice, hkey⟩ := h
  rw [pickedKey?, picked?_of_service hservice] at hkey
  rcases select_cases r e.now name with ⟨_, hs⟩ | ⟨i, hi, hname, hlive, hleast, hs⟩
  · rw [hs] at hkey
    simp [Except.toOption] at hkey
  · rw [hs] at hkey
    have hk : i.key = k := by simpa [Except.toOption] using hkey
    refine ⟨i, ?_, hname, hlive, ?_⟩
    · rw [← hk]
      exact (mem_instances_iff hr).mp hi
    · intro l j hj hjname hjlive
      exact hleast j (mem_of_get? hj) hjname hjlive

/-- The service of a pick is the one in the picked entry. -/
theorem service_of_picked {r : Registry} (hr : r.Distinct) {e : Event} {k : String}
    {i : Instance} (hi : r.get? k = some i) (h : r.pickedKey? e = some k) :
    r.Picks e i.name k := by
  cases hservice : e.action.service? with
  | none => simp [pickedKey?, picked?, hservice] at h
  | some name =>
      have hpicks : r.Picks e name k := ⟨hservice, h⟩
      obtain ⟨i', hi', hname, _⟩ := picks_cases hr hpicks
      rw [hi] at hi'
      cases hi'
      rw [hname]
      exact ⟨hservice, h⟩

end Registry
end ServiceDiscovery
