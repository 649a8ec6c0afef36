import Mathlib.Data.List.Perm.Subperm
import ServiceDiscovery.Proofs.Registry.History
import ServiceDiscovery.Proofs.Registry.Rotation

/-!
# Picks while instances come and go

An instance that has just appeared was never picked, and so it is picked before those
that were.  Whoever waits for a turn may be overtaken again and again, but by each new
entry only once, for a picked instance comes behind all others.

Main results:

- Definition {lit}`Registry.ahead`: the instances of a service that may still come
  before one of them.
- Theorems {lit}`length_ahead_of_picked` and {lit}`length_ahead_step`: a pick takes one
  of them away, and only a new entry of the service adds one.
- Theorem {lit}`picked_despite_arrivals`: an instance whose entry stays is among the
  first picks of its service, of which there are as many as it had entries at first and
  has got since.
-/

namespace ServiceDiscovery
namespace Registry

variable {r : Registry} {e : Event} {name key k : String} {i : Instance}

/-! ## Arrivals -/

/-- An action inserts an entry of a service. -/
def inserts (r : Registry) (e : Event) (name : String) : Bool :=
  match e.action with
  | .observe key n _ => n = name && (r.get? key).isNone
  | _ => false

/-- How many entries of a service a run inserts. -/
def arrivals (r : Registry) (name : String) (es : List Event) : Nat :=
  (r.steps es).countP fun p => p.1.inserts p.2 name

theorem arrivals_cons (r : Registry) (name : String) (e : Event) (es : List Event) :
    r.arrivals name (e :: es) =
      (r.step e).arrivals name es + if r.inserts e name then 1 else 0 :=
  List.countP_cons

theorem inserts_of_service {other : String} (h : e.action.service? = some other) :
    r.inserts e name = false := by
  rcases e with ⟨now, action⟩
  cases action with
  | select | pick | pickEndpoint => rfl
  | observe | candidates | addresses | services | reportDead => cases h

/-- An entry that was not there before was inserted, under the key that was just seen. -/
theorem inserts_of_new (hr : r.Distinct) (hnone : r.get? k = none)
    (hi : (r.step e).get? k = some i) : e.Sees k ∧ r.inserts e i.name = true := by
  have hfate := fate_of_step hr e k
  rw [hnone, hi] at hfate
  cases hfate with
  | found hsees =>
      refine ⟨⟨_, _, hsees⟩, ?_⟩
      simp [inserts, hsees, hnone, Instance.ofDescriptor]

/-! ## Who may come before -/

/-- The keys of the other instances of a service that were not picked after some stamp. -/
def ahead (r : Registry) (name key : String) (stamp : UInt64) : List String :=
  (r.instances.filter fun i => i.name = name && i.key ≠ key && i.pickStamp ≤ stamp).map (·.key)

theorem mem_ahead (hr : r.Distinct) {stamp : UInt64} :
    k ∈ r.ahead name key stamp ↔
      k ≠ key ∧ ∃ i, r.get? k = some i ∧ i.name = name ∧ i.pickStamp ≤ stamp := by
  simp only [ahead, List.mem_map, List.mem_filter, Bool.and_eq_true, decide_eq_true_eq]
  constructor
  · rintro ⟨i, ⟨hi, ⟨hname, hne⟩, hstamp⟩, rfl⟩
    exact ⟨hne, i, (mem_instances_iff hr).mp hi, hname, hstamp⟩
  · rintro ⟨hne, i, hi, hname, hstamp⟩
    have hkey := key_of_get? hi
    exact ⟨i, ⟨mem_of_get? hi, ⟨hname, hkey ▸ hne⟩, hstamp⟩, hkey⟩

theorem nodup_ahead (hr : r.Distinct) (name key : String) (stamp : UInt64) :
    (r.ahead name key stamp).Nodup :=
  hr.sublist (List.filter_sublist.map _)

/-- An instance does not come before itself. -/
theorem length_ahead_lt (hr : r.Distinct) (hkey : key ∈ r.keysOf name) (stamp : UInt64) :
    (r.ahead name key stamp).length < (r.keysOf name).length := by
  have hsub : r.ahead name key stamp ⊆ (r.keysOf name).erase key := by
    intro k hk
    obtain ⟨hne, i, hi, hname, _⟩ := (mem_ahead hr).mp hk
    exact (List.mem_erase_of_ne hne).mpr ((mem_keysOf hr).mpr ⟨i, hi, hname⟩)
  have hle := ((nodup_ahead hr name key stamp).subperm hsub).length_le
  rw [List.length_erase_of_mem hkey] at hle
  have hpos := List.length_pos_of_mem hkey
  omega

/-! ## Steps -/

/-- Whoever may come before an instance after a step was not picked in the step, and might have come
before already, or has just been inserted. -/
theorem ahead_of_step (hr : r.Sound) (hi : r.get? key = some i) (hroom : (r.step e).HasRoom)
    (hk : k ∈ (r.step e).ahead name key i.pickStamp) :
    k ∈ r.ahead name key i.pickStamp ∧ r.pickedKey? e ≠ some k ∨
      e.Sees k ∧ r.inserts e name = true := by
  obtain ⟨hne, j', hj', hname, hstamp⟩ := (mem_ahead (hr.distinct.step e)).mp hk
  cases hj : r.get? k with
  | none =>
      right
      rw [← hname]
      exact inserts_of_new hr.distinct hj hj'
  | some j =>
      left
      have hkept := kept_of_step hr.distinct hj hj'
      have hunpicked : r.pickedKey? e ≠ some k := by
        intro hpicked
        have hlater := hr.pickStamp_lt hi (nextStamp_lt_of_picked hpicked hroom)
        rw [hkept.picked hpicked] at hstamp
        exact UInt64.not_le.mpr hlater hstamp
      rw [hkept.unpicked hunpicked] at hstamp
      exact ⟨(mem_ahead hr.distinct).mpr ⟨hne, j, hj, hkept.name_eq.symm.trans hname, hstamp⟩,
        hunpicked⟩

/-- No more can come before an instance than before, unless an entry was inserted. -/
theorem length_ahead_step (hr : r.Sound) (hi : r.get? key = some i)
    (hroom : (r.step e).HasRoom) :
    ((r.step e).ahead name key i.pickStamp).length ≤
      (r.ahead name key i.pickStamp).length + if r.inserts e name then 1 else 0 := by
  have hnodup := nodup_ahead (hr.distinct.step e) name key i.pickStamp
  cases hinserts : r.inserts e name with
  | false =>
      refine (hnodup.subperm ?_).length_le
      intro k hk
      rcases ahead_of_step hr hi hroom hk with ⟨hold, _⟩ | ⟨_, hnew⟩
      · exact hold
      · rw [hinserts] at hnew
        cases hnew
  | true =>
      -- Only a sighting inserts, and it inserts under one key.
      obtain ⟨now, action⟩ := e
      cases action with
      | observe other n d =>
          have hsubset : ((r.step ⟨now, .observe other n d⟩).ahead name key i.pickStamp) ⊆
              other :: r.ahead name key i.pickStamp := by
            intro k hk
            rcases ahead_of_step hr hi hroom hk with ⟨hold, _⟩ | ⟨⟨n', d', hsees⟩, _⟩
            · exact List.mem_cons_of_mem _ hold
            · cases hsees
              exact List.mem_cons_self
          exact (hnodup.subperm hsubset).length_le
      | select | pick | pickEndpoint | candidates | addresses | services | reportDead =>
          cases hinserts

/-- When another instance is picked, one fewer can come before this one. -/
theorem length_ahead_of_picked (hr : r.Sound) (hi : r.get? key = some i) (hname : i.name = name)
    (hstays : ((r.step e).get? key).isSome) (hroom : (r.step e).HasRoom)
    (hpicks : r.Picks e name k) (hne : k ≠ key) :
    ((r.step e).ahead name key i.pickStamp).length < (r.ahead name key i.pickStamp).length := by
  obtain ⟨i', hi'⟩ := Option.isSome_iff_exists.mp hstays
  obtain ⟨j, hj, hjname, _, hleast⟩ := picks_cases hr.distinct hpicks
  -- The pick would have forgotten the instance if it were dead.
  have hlive := (kept_of_service hr.distinct hpicks.1 hi hi').2 hname
  have hnot := hleast key i hi hname hlive
  rw [← Bool.not_eq_true, precedes_iff, not_or, UInt64.not_lt] at hnot
  have hmem : k ∈ r.ahead name key i.pickStamp :=
    (mem_ahead hr.distinct).mpr ⟨hne, j, hj, hjname, hnot.1⟩
  have hsub : (r.step e).ahead name key i.pickStamp ⊆ (r.ahead name key i.pickStamp).erase k := by
    intro l hl
    rcases ahead_of_step hr hi hroom hl with ⟨hold, hunpicked⟩ | ⟨_, hnew⟩
    · rw [hpicks.2] at hunpicked
      exact (List.mem_erase_of_ne fun heq => hunpicked (congrArg some heq.symm)).mpr hold
    · rw [inserts_of_service hpicks.1] at hnew
      cases hnew
  have hle := ((nodup_ahead (hr.distinct.step e) name key i.pickStamp).subperm hsub).length_le
  rw [List.length_erase_of_mem hmem] at hle
  have hpos := List.length_pos_of_mem hmem
  omega

/-! ## Runs -/

/-- An instance is picked before those run out who may come before it. -/
theorem mem_take_pickedKeys (hr : r.Sound) {es : List Event} (hi : r.get? key = some i)
    (hname : i.name = name) (hstays : ∀ p ∈ r.steps es, ((p.1.step p.2).get? key).isSome)
    (hroom : (r.run es).HasRoom) {picks : Nat}
    (hahead : (r.ahead name key i.pickStamp).length + r.arrivals name es < picks)
    (hpicks : picks ≤ (r.pickedKeys name es).length) :
    key ∈ (r.pickedKeys name es).take picks := by
  induction es generalizing r i picks with
  | nil =>
      have hzero : (r.pickedKeys name []).length = 0 := rfl
      omega
  | cons e es ih =>
      have hkeeps : ((r.step e).get? key).isSome := hstays (r, e) List.mem_cons_self
      have hroom' : (r.step e).HasRoom := HasRoom.of_run hroom
      rw [pickedKeys_cons] at hpicks ⊢
      rw [arrivals_cons] at hahead
      by_cases hself : r.pickedKey? e = some key
      · have hservice := (service_of_picked hr.distinct hi hself).1
        rw [hname] at hservice
        rw [if_pos hservice, hself]
        obtain ⟨n, rfl⟩ := Nat.exists_eq_add_one_of_ne_zero (Nat.ne_zero_of_lt hahead)
        exact List.mem_cons_self
      · obtain ⟨i', hi'⟩ := Option.isSome_iff_exists.mp hkeeps
        have hkept := kept_of_step hr.distinct hi hi'
        have hname' := hkept.name_eq.trans hname
        have hrest : ∀ p ∈ (r.step e).steps es, ((p.1.step p.2).get? key).isSome :=
          fun p hp => hstays p (List.mem_cons_of_mem _ hp)
        have hstep : ((r.step e).ahead name key i.pickStamp).length ≤ _ :=
          length_ahead_step hr hi hroom'
        rw [← hkept.unpicked hself] at hahead hstep
        cases hpicked : if e.action.service? = some name then r.pickedKey? e else none with
        | none =>
            rw [hpicked] at hpicks
            exact ih (hr.step e) hi' hname' hrest hroom (by omega) hpicks
        | some k =>
            have hpick : r.Picks e name k := by
              split at hpicked
              · exact ⟨‹_›, hpicked⟩
              · cases hpicked
            have hne : k ≠ key := by
              rintro rfl
              exact hself hpick.2
            have hfewer := length_ahead_of_picked hr hi hname hkeeps hroom' hpick hne
            rw [← hkept.unpicked hself] at hfewer
            obtain ⟨n, rfl⟩ := Nat.exists_eq_add_one_of_ne_zero (Nat.ne_zero_of_lt hahead)
            rw [hpicked] at hpicks
            refine List.mem_cons_of_mem _ (ih (hr.step e) hi' hname' hrest hroom (by omega) ?_)
            exact Nat.le_of_succ_le_succ hpicks

/-- Nobody starves.  Let a service have some entries, of which one stays throughout a run, and let
the run insert others.  Then the one that stays is among the first picks of the service, as many as
there were entries at first and were inserted. -/
theorem picked_despite_arrivals (hr : r.Reachable) {es : List Event} (hkey : key ∈ r.keysOf name)
    (hstays : ∀ p ∈ r.steps es, ((p.1.step p.2).get? key).isSome) (hroom : (r.run es).HasRoom)
    (hpicks : (r.keysOf name).length + r.arrivals name es ≤ (r.pickedKeys name es).length) :
    key ∈ (r.pickedKeys name es).take ((r.keysOf name).length + r.arrivals name es) := by
  obtain ⟨i, hi, hname⟩ := (mem_keysOf hr.sound.distinct).mp hkey
  have hfewer := length_ahead_lt hr.sound.distinct hkey i.pickStamp
  exact mem_take_pickedKeys hr.sound hi hname hstays hroom (by omega) hpicks

/-- Picks among two instances and one that comes later, and is picked at once. -/
def picksAround : List Event :=
  [⟨10, .pick "a"⟩, ⟨10, .observe "/r/a/a_0" "a" (.ofAddress "a" "h0" "")⟩, ⟨9, .select "b"⟩,
    ⟨11, .select "a"⟩, ⟨11, .candidates "a"⟩, ⟨11, .pickEndpoint "a"⟩]

/-- The second of two instances is overtaken by the first one and by the new one, and comes up at
the last moment. -/
theorem picked_despite_arrivals_last :
    (twoSeen.keysOf "a").length + twoSeen.arrivals "a" picksAround = 3 ∧
      twoSeen.pickedKeys "a" picksAround = ["/r/a/a_1", "/r/a/a_0", "/r/a/a_2"] ∧
      "/r/a/a_2" ∈ (twoSeen.pickedKeys "a" picksAround).take
        ((twoSeen.keysOf "a").length + twoSeen.arrivals "a" picksAround) := by
  refine ⟨by decide +kernel, by decide +kernel, ?_⟩
  exact picked_despite_arrivals ⟨_, _, rfl⟩ (by decide +kernel) (by decide +kernel)
    (by decide +kernel) (by decide +kernel)

end Registry
end ServiceDiscovery
