import Mathlib.Data.List.Induction
import ServiceDiscovery.Proofs.Registry.History
import ServiceDiscovery.Proofs.Registry.Rotation

/-!
# Queries between picks

A query forgets the dead instances that it comes across.  A dead instance that was
not forgotten comes back as it was when it is seen again, with its stamp and all
that is remembered of it; one that was forgotten comes back new.  This is the only
way in which a query can show in a later pick.

Main results:

- Definition {lit}`Registry.Sheds`: two registries are alike but for dead instances
  that only the first one remembers.
- Theorem {lit}`Sheds.select_eq`: both pick the same instance.
- Theorem {lit}`Sheds.step`: they stay alike, unless a sighting finds more in the
  first one than it brings along.
- Theorem {lit}`picks_undisturbed`: a query between the steps of a run does not change
  what is picked later, unless such a sighting follows it.
-/

namespace ServiceDiscovery
namespace Registry

variable {r r' : Registry} {lost : String → Prop} {now moment : Reading} {e : Event} {key : String}

/-! ## Dead instances stay dead -/

/-- What is dead stays dead while it is not seen. -/
theorem isDead_of_le (hle : now ≤ moment) {i : Instance} (h : r.isDead now i = true) :
    r.isDead moment i = true := by
  rw [isDead, decide_eq_true_eq] at *
  apply UInt64.le_trans h
  by_cases hactive : i.activeAt ≤ now
  · rw [UInt64.le_iff_toNat_le, age_toNat hactive, age_toNat (UInt64.le_trans hactive hle)]
    rw [UInt64.le_iff_toNat_le] at hle
    omega
  · rw [age, if_neg hactive]
    exact UInt64.zero_le

/-- A key that is concealed stays concealed while it is not seen. -/
theorem Conceals.later (h : r.Conceals now key) (hle : now ≤ moment) : r.Conceals moment key :=
  fun i hi => isDead_of_le hle (h i hi)

/-! ## Registries that are alike but for dead instances -/

/-- Two registries are alike, except that the second one has lost dead instances which the first one
still remembers. -/
structure Sheds (lost : String → Prop) (now : Reading) (r r' : Registry) : Prop where
  distinct : r.Distinct
  distinct' : r'.Distinct
  window : r'.window = r.window
  lastStamp : r'.lastStamp = r.lastStamp
  entry : ∀ key, r'.get? key = r.get? key ∨
    lost key ∧ r'.get? key = none ∧ r.Conceals now key

/-- Registries that differ by dead instances alone still do so later. -/
theorem Sheds.later (h : Sheds lost now r r') (hle : now ≤ moment) : Sheds lost moment r r' where
  distinct := h.distinct
  distinct' := h.distinct'
  window := h.window
  lastStamp := h.lastStamp
  entry := by
    intro key
    apply (h.entry key).imp_right
    rintro ⟨hlost, hmissing, hconceals⟩
    exact ⟨hlost, hmissing, hconceals.later hle⟩

/-- Both registries agree on what is dead. -/
theorem Sheds.isDead (h : Sheds lost now r r') (i : Instance) :
    r'.isDead moment i = r.isDead moment i := by
  rw [Registry.isDead, Registry.isDead, h.window]

theorem Sheds.isLive (h : Sheds lost now r r') (i : Instance) :
    r'.isLive moment i = r.isLive moment i := by
  rw [Registry.isLive, Registry.isLive, h.isDead]

/-- Both registries hand out the same stamp next. -/
theorem Sheds.nextStamp (h : Sheds lost now r r') : r'.nextStamp moment = r.nextStamp moment := by
  rw [Registry.nextStamp, Registry.nextStamp, h.lastStamp]

/-- The same instances count. -/
theorem Sheds.mem_live (h : Sheds lost now r r') {name : String} {i : Instance} :
    i ∈ r'.live now name ↔ i ∈ r.live now name := by
  rw [Registry.mem_live, Registry.mem_live, mem_instances_iff h.distinct,
    mem_instances_iff h.distinct', h.isLive]
  rcases h.entry i.key with heq | ⟨_, hmissing, hconceals⟩
  · rw [heq]
  · constructor
    · rintro ⟨hi, _⟩
      rw [hmissing] at hi
      cases hi
    · rintro ⟨hi, _, hlive⟩
      simp [Registry.isLive, hconceals i hi] at hlive

/-- What is picked first does not depend on the order in which instances are remembered. -/
theorem leastRecent_congr {l l' : List Instance} (hmem : ∀ i, i ∈ l' ↔ i ∈ l)
    (hkeys : ∀ i ∈ l, ∀ j ∈ l, i.key = j.key → i = j) : leastRecent l' = leastRecent l := by
  cases h : leastRecent l with
  | none =>
      rw [leastRecent_eq_none_iff] at h ⊢
      apply List.eq_nil_iff_forall_not_mem.mpr
      intro i hi
      rw [hmem, h] at hi
      cases hi
  | some i =>
      have hi := leastRecent_mem h
      cases h' : leastRecent l' with
      | none =>
          rw [leastRecent_eq_none_iff] at h'
          rw [← hmem, h'] at hi
          cases hi
      | some j =>
          have hj := (hmem j).mp (leastRecent_mem h')
          have hij := not_precedes_leastRecent h' i ((hmem i).mpr hi)
          have hji := not_precedes_leastRecent h j hj
          by_cases hkey : i.key = j.key
          · rw [hkeys i hi j hj hkey]
          · rw [precedes_total hkey hji] at hij
            cases hij

/-- The same instance comes first in both registries, since dead ones are never picked. -/
theorem Sheds.leastRecent_eq (h : Sheds lost now r r') (name : String) :
    leastRecent (r'.live now name) = leastRecent (r.live now name) := by
  apply leastRecent_congr fun i => h.mem_live
  intro i hi j hj hkey
  have hi' := (mem_instances_iff h.distinct).mp (Registry.mem_live.mp hi).1
  have hj' := (mem_instances_iff h.distinct).mp (Registry.mem_live.mp hj).1
  rw [hkey, hj'] at hi'
  exact (Option.some.inj hi').symm

/-- Both pick the same instance. -/
theorem Sheds.select_eq (h : Sheds lost now r r') (name : String) :
    (r'.select now name).1 = (r.select now name).1 := by
  simp only [select, candidates, h.leastRecent_eq]
  cases leastRecent (r.live now name) with
  | none => rfl
  | some i =>
      have hstamp : (r'.evict now name).nextStamp now = (r.evict now name).nextStamp now :=
        h.nextStamp
      simp only [hstamp]

/-! ## Steps -/

/-- An action that looks at each entry by itself, and lets none look younger, keeps registries
alike. -/
theorem Sheds.update (h : Sheds lost now r r') {s s' : Registry}
    (change : Option Instance → Option Instance) (hnone : change none = none)
    (hactive : ∀ i j, change (some i) = some j → j.activeAt = i.activeAt)
    (hs : ∀ k, s.get? k = change (r.get? k)) (hs' : ∀ k, s'.get? k = change (r'.get? k))
    (hdistinct : s.Distinct) (hdistinct' : s'.Distinct) (hwindow : s.window = r.window)
    (hwindow' : s'.window = r'.window) (hstamp : s'.lastStamp = s.lastStamp) :
    Sheds lost now s s' where
  distinct := hdistinct
  distinct' := hdistinct'
  window := by rw [hwindow, hwindow', h.window]
  lastStamp := hstamp
  entry := by
    intro k
    rw [hs, hs']
    rcases h.entry k with heq | ⟨hlost, hmissing, hconceals⟩
    · left
      rw [heq]
    · right
      refine ⟨hlost, by rw [hmissing, hnone], ?_⟩
      intro j hj
      rw [hs] at hj
      cases hi : r.get? k with
      | none =>
          rw [hi, hnone] at hj
          cases hj
      | some i =>
          rw [hi] at hj
          have hdead := hconceals i hi
          rw [Registry.isDead, age, hactive i j hj, hwindow]
          rwa [Registry.isDead, age] at hdead

/-- Forgetting the same instances in both registries keeps them alike. -/
theorem Sheds.filter (h : Sheds lost now r r') (p : Instance → Bool) :
    Sheds lost now { r with instances := r.instances.filter p }
      { r' with instances := r'.instances.filter p } := by
  refine h.update (·.filter p) rfl ?_ (findKey_filter h.distinct p) (findKey_filter h.distinct' p)
    (h.distinct.filter p) (h.distinct'.filter p) rfl rfl h.lastStamp
  intro i j hij
  obtain ⟨heq, _⟩ := Option.filter_eq_some_iff.mp hij
  cases heq
  rfl

/-- An eviction keeps them alike. -/
theorem Sheds.evict (h : Sheds lost now r r') (name : String) :
    Sheds lost now (r.evict now name) (r'.evict now name) := by
  unfold Registry.evict
  simp only [h.isDead]
  exact h.filter _

/-- So does a snapshot. -/
theorem Sheds.services (h : Sheds lost now r r') :
    Sheds lost now (r.services now).2 (r'.services now).2 := by
  unfold Registry.services liveAnywhere
  simp only [funext h.isLive]
  exact h.filter _

/-- So does a stamp. -/
theorem Sheds.stamp (h : Sheds lost now r r') (key : String) (value : UInt64) :
    Sheds lost now (r.stamp key value) (r'.stamp key value) := by
  refine h.update (·.map fun i => if i.key = key then { i with pickStamp := value } else i) rfl ?_
    (get?_stamp r key value) (get?_stamp r' key value) (h.distinct.stamp key value)
    (h.distinct'.stamp key value) rfl rfl rfl
  intro i j hij
  cases hij
  dsimp only
  split <;> rfl

/-- A pick keeps registries alike, for it is the same one in both. -/
theorem Sheds.select (h : Sheds lost now r r') (name : String) :
    Sheds lost now (r.select now name).2 (r'.select now name).2 := by
  simp only [Registry.select, candidates, h.leastRecent_eq]
  cases leastRecent (r.live now name) with
  | none => exact h.evict name
  | some i =>
      have hevict := h.evict name
      rw [hevict.nextStamp]
      exact hevict.stamp i.key _

theorem lastStamp_observe (r : Registry) (now : Reading) (key name : String) (d : Descriptor) :
    (r.observe now key name d).lastStamp = r.lastStamp := by
  unfold Registry.observe
  split <;> rfl

/-- A sighting brings a key back to both, and finds no more in the first than it brings along. -/
theorem Sheds.observe (h : Sheds lost now r r') {name : String} {d : Descriptor}
    (hplain : lost key → ∀ i, r.get? key = some i →
      { i with activeAt := now } = Instance.ofDescriptor key name d now) :
    Sheds (fun k => lost k ∧ k ≠ key) now (r.observe now key name d)
      (r'.observe now key name d) where
  distinct := h.distinct.observe now key name d
  distinct' := h.distinct'.observe now key name d
  window := by rw [window_observe, window_observe, h.window]
  lastStamp := by rw [lastStamp_observe, lastStamp_observe, h.lastStamp]
  entry := by
    intro k
    rw [get?_observe, get?_observe]
    by_cases hkey : k = key
    · subst hkey
      left
      rw [if_pos rfl, if_pos rfl]
      rcases h.entry k with heq | ⟨hlost, hmissing, _⟩
      · rw [heq]
      · rw [hmissing]
        cases hi : r.get? k with
        | none => rfl
        | some i => exact congrArg some (hplain hlost i hi).symm
    · rw [if_neg hkey, if_neg hkey]
      apply (h.entry k).imp_right
      rintro ⟨hlost, hmissing, hconceals⟩
      refine ⟨⟨hlost, hkey⟩, hmissing, ?_⟩
      intro i hi
      rw [get?_observe, if_neg hkey] at hi
      rw [Registry.isDead, window_observe]
      exact hconceals i hi

/-- Registries that differ in some keys at most differ in more keys at most. -/
theorem Sheds.mono (h : Sheds lost now r r') {lost' : String → Prop}
    (hlost : ∀ k, lost k → lost' k) : Sheds lost' now r r' :=
  { h with entry := fun k => (h.entry k).imp_right fun ⟨hk, hrest⟩ => ⟨hlost k hk, hrest⟩ }

/-- A sighting finds an instance that was picked, or that was remembered otherwise than it is seen
now. -/
def Revives (r : Registry) (e : Event) (key : String) : Prop :=
  ∃ i name d, r.get? key = some i ∧ e.action = .observe key name d ∧
    { i with activeAt := e.now } ≠ Instance.ofDescriptor key name d e.now

/-- An action keeps registries alike unless it revives what was lost; a sighting ends the difference
in its key. -/
theorem Sheds.step (h : Sheds lost e.now r r') (hlost : ∀ k, lost k → ¬ r.Revives e k) :
    Sheds (fun k => lost k ∧ ¬ e.Sees k) e.now (r.step e) (r'.step e) := by
  rcases e with ⟨now, action⟩
  cases action with
  | observe key name d =>
      have hobserve : Sheds (fun k => lost k ∧ k ≠ key) now (r.observe now key name d)
          (r'.observe now key name d) := by
        apply h.observe
        intro hkey i hi
        by_contra hne
        exact hlost key hkey ⟨i, name, d, hi, rfl, hne⟩
      refine hobserve.mono ?_
      rintro k ⟨hk, hne⟩
      refine ⟨hk, ?_⟩
      rintro ⟨name', d', hsees⟩
      cases hsees
      exact hne rfl
  | select name | pick name | pickEndpoint name =>
      exact (h.select name).mono fun k hk => ⟨hk, by simp [Event.Sees]⟩
  | candidates name | addresses name =>
      exact (h.evict name).mono fun k hk => ⟨hk, by simp [Event.Sees]⟩
  | services => exact h.services.mono fun k hk => ⟨hk, by simp [Event.Sees]⟩
  | reportDead address => exact (h.filter _).mono fun k hk => ⟨hk, by simp [Event.Sees]⟩

/-! ## Queries -/

/-- The actions that only show what is remembered, and forget dead instances on the way. -/
def Action.IsQuery : Action → Prop
  | .candidates _ | .addresses _ | .services => True
  | _ => False

/-- An action forgets what is remembered under a key. -/
def Forgets (r : Registry) (e : Event) (key : String) : Prop :=
  r.get? key ≠ none ∧ (r.step e).get? key = none

/-- A query loses some dead instances, and does nothing else. -/
theorem get?_of_query (hr : r.Distinct) {q : Event} (hq : q.action.IsQuery) :
    ∃ p : Instance → Bool, (∀ k, (r.step q).get? k = (r.get? k).filter p) ∧
      ∀ i, p i = false → r.isDead q.now i = true := by
  rcases q with ⟨now, action⟩
  cases action with
  | candidates name | addresses name =>
      refine ⟨_, get?_evict hr now name, ?_⟩
      intro i hi
      simp only [Bool.not_eq_false', Bool.and_eq_true] at hi
      exact hi.2
  | services =>
      refine ⟨_, get?_services hr now, ?_⟩
      intro i hi
      simpa [isLive] using hi
  | observe | select | pick | pickEndpoint | reportDead => cases hq

/-- A query makes a difference in the dead instances that it forgets, and in nothing else. -/
theorem Sheds.of_query (hr : r.Distinct) {q : Event} (hq : q.action.IsQuery) :
    Sheds (r.Forgets q) q.now r (r.step q) where
  distinct := hr
  distinct' := hr.step q
  window := window_step r q
  lastStamp := by
    have hpicked : r.picked? q = none := by
      rcases q with ⟨now, action⟩
      cases action with
      | candidates | addresses | services => rfl
      | observe | select | pick | pickEndpoint | reportDead => cases hq
    rw [lastStamp_step, hpicked]
    rfl
  entry := by
    obtain ⟨p, hget, hp⟩ := get?_of_query hr hq
    intro k
    rw [hget]
    cases hi : r.get? k with
    | none => exact Or.inl rfl
    | some i =>
        cases hpi : p i with
        | true => exact Or.inl (Option.filter_some_pos hpi)
        | false =>
            have hnone : (some i).filter p = none := Option.filter_some_neg (by simp [hpi])
            right
            refine ⟨⟨by simp [hi], by rw [hget, hi, hnone]⟩, hnone, ?_⟩
            intro j hj
            rw [hi] at hj
            cases hj
            exact hp i hpi

/-! ## Runs -/

/-- What an action would forget is not missed in a run.  The first sighting of such a key finds
nothing there, or no more than it brings along. -/
def Unmissed (r : Registry) (q : Event) (es : List Event) : Prop :=
  ∀ before e after key, es = before ++ e :: after → r.Forgets q key →
    (∀ f ∈ before, ¬ f.Sees key) → ¬ (r.run before).Revives e key

/-- What is not missed in a run is not missed in the beginning of it. -/
theorem Unmissed.of_concat {q : Event} {es : List Event} (h : r.Unmissed q (es ++ [e])) :
    r.Unmissed q es := by
  intro before f after key hes
  exact h before f (after ++ [e]) key (by simp [hes])

/-- A run with a query before it leads to a registry that is alike but for dead instances which the
query has forgotten, and which were not seen again. -/
theorem Sheds.run (hr : r.Distinct) {q : Event} (hq : q.action.IsQuery) {es : List Event}
    (htime : Chronological (q :: es) now) (hunmissed : r.Unmissed q es) :
    Sheds (fun k => r.Forgets q k ∧ ∀ f ∈ es, ¬ f.Sees k) now (r.run es)
      ((r.step q).run es) := by
  induction es using List.reverseRecOn generalizing now with
  | nil =>
      have hquery := (Sheds.of_query hr hq).later (htime.le List.mem_cons_self)
      exact hquery.mono fun k hk => ⟨hk, nofun⟩
  | append_singleton es e ih =>
      have hbefore := ih (Chronological.of_concat htime) hunmissed.of_concat
      have hstep := hbefore.step fun k hk =>
        hunmissed es e [] k rfl hk.1 hk.2
      rw [run_append, run_append]
      refine (hstep.later (htime.le (by simp))).mono ?_
      rintro k ⟨⟨hforgets, hunseen⟩, hlast⟩
      refine ⟨hforgets, ?_⟩
      intro f hf
      rcases List.mem_append.mp hf with hf | hf
      · exact hunseen f hf
      · rw [List.mem_singleton.mp hf]
        exact hlast

/-- Queries do not disturb picking.  Let a query come between the steps of a run, on a clock that
does not go back.  Every later pick gives what it would have given without the query, unless some
instance that the query has forgotten is seen again, and would have been found with a stamp or with
other data than it is seen with. -/
theorem picks_undisturbed (hr : r.Reachable) {q : Event} (hq : q.action.IsQuery)
    {es : List Event} (htime : Chronological (q :: es) now) (hunmissed : r.Unmissed q es)
    (name : String) :
    (((r.step q).run es).select now name).1 = ((r.run es).select now name).1 ∧
      (((r.step q).run es).pick now name).1 = ((r.run es).pick now name).1 ∧
      (((r.step q).run es).pickEndpoint now name).1 = ((r.run es).pickEndpoint now name).1 := by
  have hselect := (Sheds.run hr.sound.distinct hq htime hunmissed).select_eq name
  refine ⟨hselect, ?_, ?_⟩
  · exact congrArg (Except.map (·.address)) hselect
  · exact congrArg (Except.map (·.endpoint)) hselect

/-! ## A query that shows, and one that does not -/

/-- An instance of the service is seen, at the address that is its key. -/
def webSeen (now : Reading) (key : String) : Event :=
  ⟨now, .observe key "web" (.ofAddress "web" key "")⟩

/-- A query between two sightings forgets that one of two instances was picked before, and so the
same one is picked again. -/
theorem query_disturbs_pick :
    let before := [webSeen 0 "a", webSeen 0 "b", ⟨1, .pick "web"⟩]
    let after := [webSeen 11 "a", webSeen 11 "b"]
    Chronological (before ++ ⟨10, .candidates "web"⟩ :: after) 12 ∧
      (((empty ⟨5⟩).run (before ++ after)).select 12 "web").1.toOption.map (·.key) = some "b" ∧
      (((empty ⟨5⟩).run (before ++ ⟨10, .candidates "web"⟩ :: after)).select 12
        "web").1.toOption.map (·.key) = some "a" := by
  decide +kernel

/-- One instance is seen all along and picked, the other one is seen once. -/
def unevenlySeen : Registry :=
  (empty ⟨5⟩).run [webSeen 0 "a", webSeen 0 "b", webSeen 4 "a", ⟨4, .pick "web"⟩]

/-- The second instance is forgotten by a query before it was ever picked.  When it comes back it is
picked next, as it would have been without the query. -/
theorem picks_undisturbed_unpicked :
    unevenlySeen.Forgets ⟨7, .candidates "web"⟩ "b" ∧
      (((unevenlySeen.step ⟨7, .candidates "web"⟩).run [webSeen 8 "b"]).pick 9 "web").1 =
        ((unevenlySeen.run [webSeen 8 "b"]).pick 9 "web").1 ∧
      ((unevenlySeen.run [webSeen 8 "b"]).pick 9 "web").1.toOption = some "b" := by
  have hunmissed : unevenlySeen.Unmissed ⟨7, .candidates "web"⟩ [webSeen 8 "b"] := by
    intro before e after key hes _ _
    rcases List.cons_eq_append_iff.mp hes with ⟨rfl, hes⟩ | ⟨rest, _, hrest⟩
    · cases hes
      rintro ⟨i, name, d, hi, haction, hne⟩
      cases haction
      have hplain : (unevenlySeen.get? "b").map (fun i => { i with activeAt := 8 }) =
          some (Instance.ofDescriptor "b" "web" (.ofAddress "web" "b" "") 8) := by decide +kernel
      rw [show unevenlySeen.get? "b" = some i from hi] at hplain
      exact hne (Option.some.inj hplain)
    · simp at hrest
  have htime : Chronological [⟨7, .candidates "web"⟩, webSeen 8 "b"] 9 := by decide +kernel
  have hreachable : unevenlySeen.Reachable := ⟨⟨5⟩, _, rfl⟩
  have hpick := picks_undisturbed hreachable (by exact trivial) htime hunmissed "web"
  exact ⟨⟨by decide +kernel, by decide +kernel⟩, hpick.2.1, by decide +kernel⟩

end Registry
end ServiceDiscovery
