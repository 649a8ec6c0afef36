import Mathlib.Data.List.Induction
import ServiceDiscovery.Proofs.Registry.Runs

/-!
# Rotation of picks

Picking takes turns.  Between two picks of one instance every other live instance
of its service comes up exactly once, whatever else happens meanwhile; and as
long as the instances of a service stay the same, the picks go through one
arrangement of them over and over.

Main results:

- Theorem {lit}`Behind.step`: between two picks of an instance, each other entry
  of the service either has an earlier stamp and was not picked yet, or a later
  one and was picked once.
- Theorem {lit}`Queue.pickedKeys_eq`: the instances of a service stand in a
  queue whose front goes to the back when it is picked.
- Theorem {lit}`picks_take_turns`: both facts about runs.
-/

namespace ServiceDiscovery
namespace Registry

/-! ## Between two picks of one instance -/

/-- The steps of a run since the entry of a key was last missing, the latest one first. -/
def stepsSinceEntered (r : Registry) (key : String) (es : List Event) :
    List (Registry × Event) :=
  (r.steps es).reverse.takeWhile fun p => (p.1.get? key).isSome

/-- How often a run picks an instance for a service, counted since its entry was inserted. -/
def picksSinceEntered (r : Registry) (name key : String) (es : List Event) : Nat :=
  (r.stepsSinceEntered key es).countP fun p => p.1.Picks p.2 name key

theorem picksSinceEntered_concat (r : Registry) (name key : String) (es : List Event)
    (e : Event) :
    r.picksSinceEntered name key (es ++ [e]) =
      if ((r.run es).get? key).isSome then
        r.picksSinceEntered name key es + if (r.run es).Picks e name key then 1 else 0
      else 0 := by
  unfold picksSinceEntered stepsSinceEntered
  rw [steps_concat, List.reverse_concat, List.takeWhile_cons]
  by_cases h : ((r.run es).get? key).isSome
  · rw [if_pos h, if_pos h, List.countP_cons]
    simp only [decide_eq_true_eq]
  · rw [if_neg h, if_neg h]
    rfl

/-- An instance is picked for a service, and picked for it again after a while.  Its entry stays
meanwhile, and nothing in between picks it. -/
structure Recurs (r : Registry) (first : Event) (between : List Event) (second : Event)
    (name key : String) : Prop where
  first_picks : r.Picks first name key
  second_picks : ((r.step first).run between).Picks second name key
  stays : ∀ p ∈ (r.step first).steps between, (p.1.get? key).isSome
  unpicked : ∀ p ∈ (r.step first).steps between, ¬ p.1.Picks p.2 name key

/-- An instance was picked last at some stamp.  Another entry of its service has either an earlier
stamp and was not picked since, or a later one and was picked once. -/
structure Behind (r : Registry) (name key other : String) (stamp : UInt64) (count : Nat) :
    Prop where
  entry : ∃ i, r.get? key = some i ∧ i.name = name ∧ i.pickStamp = stamp
  positive : 0 < stamp
  turn : ∀ j, r.get? other = some j → j.name = name →
    count = 0 ∧ j.pickStamp < stamp ∨ count = 1 ∧ stamp < j.pickStamp

theorem nextStamp_pos (r : Registry) (now : Reading) (h : (r.nextStamp now).toNat < 2 ^ 64 - 1) :
    0 < r.nextStamp now := by
  have hlt := lastStamp_lt_nextStamp h
  grind

theorem nextStamp_lt_of_picked {r : Registry} {e : Event} {k : String}
    (h : r.pickedKey? e = some k) (hroom : (r.step e).HasRoom) :
    (r.nextStamp e.now).toNat < 2 ^ 64 - 1 := by
  rw [← lastStamp_of_picked h]
  exact hroom

/-- Right after a pick every other entry is behind. -/
theorem Behind.start {r : Registry} (hr : r.Sound) {e : Event} {name key other : String}
    (hpick : r.Picks e name key) (hother : other ≠ key) (hkeep : ((r.step e).get? key).isSome)
    (hroom : (r.step e).HasRoom) :
    (r.step e).Behind name key other (r.nextStamp e.now) 0 := by
  obtain ⟨i, hi, hname, _, _⟩ := picks_cases hr.distinct hpick
  obtain ⟨j, hj⟩ := Option.isSome_iff_exists.mp hkeep
  have hkept := kept_of_step hr.distinct hi hj
  have hnext := nextStamp_lt_of_picked hpick.2 hroom
  refine ⟨⟨j, hj, hkept.name_eq.trans hname, hkept.picked hpick.2⟩,
    nextStamp_pos r e.now hnext, ?_⟩
  intro l hl _
  left
  refine ⟨rfl, ?_⟩
  cases hm : r.get? other with
  | none =>
      rw [stamp_of_new hr.distinct hm hl]
      exact nextStamp_pos r e.now hnext
  | some m =>
      have hunpicked : r.pickedKey? e ≠ some other := by
        rw [hpick.2]
        intro h
        exact hother (Option.some.inj h).symm
      rw [(kept_of_step hr.distinct hm hl).unpicked hunpicked]
      exact hr.pickStamp_lt hm hnext

/-- A step that keeps the instance and does not pick it leaves every other entry behind, or lets
it pass once. -/
theorem Behind.step {r : Registry} (hr : r.Sound) {e : Event} {name key other : String}
    {stamp : UInt64} {count : Nat} (h : r.Behind name key other stamp count)
    (hpick : ¬ r.Picks e name key) (hkeep : ((r.step e).get? key).isSome)
    (hroom : (r.step e).HasRoom) :
    (r.step e).Behind name key other stamp
      (if (r.get? other).isSome then count + if r.Picks e name other then 1 else 0 else 0) := by
  obtain ⟨i, hi, hname, hstamp⟩ := h.entry
  obtain ⟨i', hi'⟩ := Option.isSome_iff_exists.mp hkeep
  have hkept := kept_of_step hr.distinct hi hi'
  have hunpicked : r.pickedKey? e ≠ some key := by
    intro hp
    have := service_of_picked hr.distinct hi hp
    rw [hname] at this
    exact hpick this
  refine ⟨⟨i', hi', hkept.name_eq.trans hname, (hkept.unpicked hunpicked).trans hstamp⟩,
    h.positive, ?_⟩
  intro j' hj' hjname
  cases hj : r.get? other with
  | none =>
      left
      refine ⟨rfl, ?_⟩
      rw [stamp_of_new hr.distinct hj hj']
      exact h.positive
  | some j =>
      have hjkept := kept_of_step hr.distinct hj hj'
      have hjold : j.name = name := hjkept.name_eq.symm.trans hjname
      rw [Option.isSome_some, if_pos rfl]
      by_cases hp : r.Picks e name other
      · rw [if_pos hp]
        -- The instance is live, or else this pick would have forgotten it; so the other one
        -- could only be picked from behind.
        have hlive : r.isLive e.now i = true :=
          (kept_of_service hr.distinct hp.1 hi hi').2 hname
        obtain ⟨m, hm, _, _, hleast⟩ := picks_cases hr.distinct hp
        rw [hj] at hm
        cases hm
        have hnot := hleast key i hi hname hlive
        rw [← Bool.not_eq_true, precedes_iff, hstamp] at hnot
        rcases h.turn j hj hjold with ⟨hcount, _⟩ | ⟨_, hlater⟩
        · right
          refine ⟨by rw [hcount], ?_⟩
          rw [hjkept.picked hp.2]
          have hnext := hr.pickStamp_lt hi (nextStamp_lt_of_picked hp.2 hroom)
          rwa [hstamp] at hnext
        · exact (hnot (Or.inl hlater)).elim
      · rw [if_neg hp, Nat.add_zero]
        have hnone : r.pickedKey? e ≠ some other := by
          intro hpo
          have := service_of_picked hr.distinct hj hpo
          rw [hjold] at this
          exact hp this
        rw [hjkept.unpicked hnone]
        exact h.turn j hj hjold

/-- Step by step, every other entry of the service stays behind or has passed once. -/
theorem Behind.run {r : Registry} (hr : r.Sound) {name key other : String} {stamp : UInt64}
    (h : r.Behind name key other stamp 0) {es : List Event}
    (hstays : ∀ p ∈ r.steps es, (p.1.get? key).isSome)
    (hend : ((r.run es).get? key).isSome)
    (hunpicked : ∀ p ∈ r.steps es, ¬ p.1.Picks p.2 name key) (hroom : (r.run es).HasRoom) :
    (r.run es).Behind name key other stamp (r.picksSinceEntered name other es) := by
  induction es using List.reverseRecOn with
  | nil => exact h
  | append_singleton es e ih =>
      rw [steps_concat] at hstays hunpicked
      simp only [List.mem_append, List.mem_singleton] at hstays hunpicked
      rw [run_append] at hroom hend ⊢
      rw [picksSinceEntered_concat]
      have hbefore : (r.run es).Behind name key other stamp (r.picksSinceEntered name other es) :=
        ih (fun p hp => hstays p (Or.inl hp)) (hstays _ (Or.inr rfl))
          (fun p hp => hunpicked p (Or.inl hp)) hroom.of_run
      exact hbefore.step (hr.run es) (hunpicked _ (Or.inr rfl)) hend hroom

/-- Between two picks of one instance every other live one of the service is picked once. -/
theorem picksSinceEntered_of_recurs {r : Registry} (hr : r.Sound) {first second : Event}
    {between : List Event} {name key : String} (h : r.Recurs first between second name key)
    (hroom : (r.run (first :: between)).HasRoom) {j : Instance}
    (hj : j ∈ ((r.step first).run between).live second.now name) (hne : j.key ≠ key) :
    (r.step first).picksSinceEntered name j.key between = 1 := by
  have hsound : ((r.step first).run between).Sound := (hr.step first).run between
  obtain ⟨i, hi, hname, hlive, hleast⟩ := picks_cases hsound.distinct h.second_picks
  have hend : (((r.step first).run between).get? key).isSome := by
    rw [hi]
    rfl
  have hfirst : ((r.step first).get? key).isSome := by
    cases between with
    | nil => exact hend
    | cons e es => exact h.stays (r.step first, e) (by simp [steps])
  rw [run_cons] at hroom
  have hstart := Behind.start hr h.first_picks hne hfirst hroom.of_run
  have hturns := hstart.run (hr.step first) h.stays hend h.unpicked hroom
  obtain ⟨i', hi', _, hstamp⟩ := hturns.entry
  rw [hi] at hi'
  cases hi'
  obtain ⟨hmem, hjname, hjlive⟩ := mem_live.mp hj
  have hget := (mem_instances_iff hsound.distinct).mp hmem
  have hnot := hleast j.key j hget hjname hjlive
  rw [← Bool.not_eq_true, precedes_iff, hstamp] at hnot
  rcases hturns.turn j hget hjname with ⟨_, hearlier⟩ | ⟨hcount, _⟩
  · exact (hnot (Or.inl hearlier)).elim
  · exact hcount

/-! ## The queue of a service -/

/-- The first of two keys is to be picked before the second. -/
def Before (r : Registry) (k l : String) : Prop :=
  ∃ i j, r.get? k = some i ∧ r.get? l = some j ∧ precedes i j = true

/-- The keys of a service's instances, in no particular order. -/
def keysOf (r : Registry) (name : String) : List String :=
  (r.instances.filter fun i => i.name = name).map (·.key)

theorem mem_keysOf {r : Registry} (hr : r.Distinct) {name k : String} :
    k ∈ r.keysOf name ↔ ∃ i, r.get? k = some i ∧ i.name = name := by
  simp only [keysOf, List.mem_map, List.mem_filter, decide_eq_true_eq]
  constructor
  · rintro ⟨i, ⟨hi, hname⟩, rfl⟩
    exact ⟨i, (mem_instances_iff hr).mp hi, hname⟩
  · rintro ⟨i, hi, hname⟩
    exact ⟨i, ⟨mem_of_get? hi, hname⟩, key_of_get? hi⟩

/-- The keys of a service, in the order in which its instances are to be picked. -/
structure Queue (r : Registry) (name : String) (q : List String) : Prop where
  mem_iff : ∀ k, k ∈ q ↔ ∃ i, r.get? k = some i ∧ i.name = name
  ordered : q.Pairwise r.Before

/-- The keys that a run picks for a service, in the order of the picks. -/
def pickedKeys (r : Registry) (name : String) (es : List Event) : List String :=
  (r.steps es).filterMap fun p =>
    if p.2.action.service? = some name then p.1.pickedKey? p.2 else none

/-- The number of picks for a service in a run. -/
def pickCount (name : String) (es : List Event) : Nat :=
  es.countP fun e => e.action.service? = some name

theorem precedes_total {i j : Instance} (h : i.key ≠ j.key) (hnot : precedes j i = false) :
    precedes i j = true := by
  rw [← Bool.not_eq_true] at hnot
  rw [precedes_iff] at *
  grind

/-- Every service has a queue. -/
theorem exists_queue {r : Registry} (hr : r.Distinct) (name : String) :
    ∃ q, q.Perm (r.keysOf name) ∧ r.Queue name q := by
  let members := r.instances.filter fun i => i.name = name
  let sorted := members.mergeSort fun i j => !precedes j i
  have hperm : sorted.Perm members := List.mergeSort_perm _ _
  have hmem (i : Instance) : i ∈ sorted ↔ i ∈ r.instances ∧ i.name = name := by
    rw [hperm.mem_iff, List.mem_filter, decide_eq_true_eq]
  have hnodup : (sorted.map (·.key)).Nodup :=
    (hperm.map _).nodup_iff.mpr (hr.sublist (List.filter_sublist.map _))
  have hsorted : sorted.Pairwise fun i j => (!precedes j i) = true := by
    refine List.pairwise_mergeSort ?_ ?_ _
    · intro i j k hij hjk
      rw [Bool.not_eq_true'] at *
      exact not_precedes_trans hjk hij
    · intro i j
      cases h : precedes j i with
      | false => rfl
      | true => simp [not_precedes_of_precedes h]
  refine ⟨sorted.map (·.key), hperm.map _, ?_, ?_⟩
  · intro k
    rw [(hperm.map _).mem_iff]
    exact mem_keysOf hr
  · rw [List.pairwise_map]
    rw [List.Nodup, List.pairwise_map] at hnodup
    have hboth := hsorted.and hnodup
    refine hboth.imp_of_mem ?_
    intro i j hi hj hij
    refine ⟨i, j, (mem_instances_iff hr).mp ((hmem i).mp hi).1,
      (mem_instances_iff hr).mp ((hmem j).mp hj).1, ?_⟩
    exact precedes_total hij.2 (by simpa using hij.1)

/-- The instances of a service stay the same throughout a run, and all of them are live whenever
one is picked. -/
structure Steady (r : Registry) (name : String) (es : List Event) : Prop where
  stays : ∀ p ∈ r.steps es, ((p.1.step p.2).keysOf name).Perm (p.1.keysOf name)
  live : ∀ p ∈ r.steps es, p.2.action.service? = some name →
    ∀ i ∈ p.1.instances, i.name = name → p.1.isLive p.2.now i = true

theorem Steady.tail {r : Registry} {name : String} {e : Event} {es : List Event}
    (h : r.Steady name (e :: es)) : (r.step e).Steady name es where
  stays := fun p hp => h.stays p (List.mem_cons_of_mem _ hp)
  live := fun p hp => h.live p (List.mem_cons_of_mem _ hp)

/-- A step that picks neither of two entries does not change their order. -/
theorem Before.step {r : Registry} (hr : r.Distinct) {e : Event} {k l : String}
    (h : r.Before k l) (hk : r.pickedKey? e ≠ some k) (hl : r.pickedKey? e ≠ some l)
    (hk' : ((r.step e).get? k).isSome) (hl' : ((r.step e).get? l).isSome) :
    (r.step e).Before k l := by
  obtain ⟨i, j, hi, hj, hij⟩ := h
  obtain ⟨i', hi'⟩ := Option.isSome_iff_exists.mp hk'
  obtain ⟨j', hj'⟩ := Option.isSome_iff_exists.mp hl'
  refine ⟨i', j', hi', hj', ?_⟩
  rw [precedes_iff] at hij ⊢
  rw [(kept_of_step hr hi hi').unpicked hk, (kept_of_step hr hj hj').unpicked hl,
    key_of_get? hi', key_of_get? hj', ← key_of_get? hi, ← key_of_get? hj]
  exact hij

/-- A picked entry comes behind every other one. -/
theorem before_of_picked {r : Registry} (hr : r.Sound) {e : Event} {k l : String}
    {i : Instance} (hi : r.get? k = some i) (hne : k ≠ l) (hl : r.pickedKey? e = some l)
    (hk' : ((r.step e).get? k).isSome) (hl' : ((r.step e).get? l).isSome)
    (hroom : (r.step e).HasRoom) : (r.step e).Before k l := by
  obtain ⟨i', hi'⟩ := Option.isSome_iff_exists.mp hk'
  obtain ⟨j', hj'⟩ := Option.isSome_iff_exists.mp hl'
  have hunpicked : r.pickedKey? e ≠ some k := by
    rw [hl]
    intro h
    exact hne (Option.some.inj h).symm
  have hj'stamp : j'.pickStamp = r.nextStamp e.now := by
    cases hj : r.get? l with
    | some j => exact (kept_of_step hr.distinct hj hj').picked hl
    | none =>
        cases hservice : e.action.service? with
        | none => simp [pickedKey?, picked?, hservice] at hl
        | some name =>
            obtain ⟨j, hj₂, _⟩ := picks_cases hr.distinct ⟨hservice, hl⟩
            simp [hj] at hj₂
  refine ⟨i', j', hi', hj', ?_⟩
  rw [precedes_iff, hj'stamp, (kept_of_step hr.distinct hi hi').unpicked hunpicked]
  left
  exact hr.pickStamp_lt hi (nextStamp_lt_of_picked hl hroom)

/-- A step that does not pick from the service leaves its queue alone. -/
theorem Queue.keep {r : Registry} (hr : r.Distinct) {e : Event} {name : String}
    {q : List String} (h : r.Queue name q) (he : e.action.service? ≠ some name)
    (hstays : ∀ k, k ∈ q ↔ ∃ i, (r.step e).get? k = some i ∧ i.name = name) :
    (r.step e).Queue name q := by
  have hunpicked (k : String) (hk : k ∈ q) : r.pickedKey? e ≠ some k := by
    intro hp
    obtain ⟨i, hi, hname⟩ := (h.mem_iff k).mp hk
    have := (service_of_picked hr hi hp).1
    rw [hname] at this
    exact he this
  have hpresent (k : String) (hk : k ∈ q) : ((r.step e).get? k).isSome := by
    obtain ⟨i, hi, _⟩ := (hstays k).mp hk
    rw [hi]
    rfl
  refine ⟨hstays, h.ordered.imp_of_mem ?_⟩
  intro k l hk hl hkl
  exact hkl.step hr (hunpicked k hk) (hunpicked l hl) (hpresent k hk) (hpresent l hl)

/-- A pick takes the front of the queue, which then goes to the back. -/
theorem Queue.rotate {r : Registry} (hr : r.Sound) {e : Event} {name a : String}
    {q : List String} (h : r.Queue name (a :: q)) (he : e.action.service? = some name)
    (hlive : ∀ i ∈ r.instances, i.name = name → r.isLive e.now i = true)
    (hstays : ∀ k, k ∈ a :: q ↔ ∃ i, (r.step e).get? k = some i ∧ i.name = name)
    (hroom : (r.step e).HasRoom) :
    r.pickedKey? e = some a ∧ (r.step e).Queue name (q ++ [a]) := by
  have hordered := List.pairwise_cons.mp h.ordered
  obtain ⟨i, hi, hname⟩ := (h.mem_iff a).mp List.mem_cons_self
  have hilive := hlive i (mem_of_get? hi) hname
  have hfront : r.pickedKey? e = some a := by
    rcases select_cases r e.now name with ⟨hnone, _⟩ | ⟨m, hm, hmname, hmlive, hleast, hs⟩
    · have hmem := mem_live.mpr ⟨mem_of_get? hi, hname, hilive⟩
      rw [hnone] at hmem
      exact (List.not_mem_nil hmem).elim
    · have hpicked : r.pickedKey? e = some m.key := by
        rw [pickedKey?, picked?_of_service he, hs]
        rfl
      have hget := (mem_instances_iff hr.distinct).mp hm
      have hmq : m.key ∈ a :: q := (h.mem_iff m.key).mpr ⟨m, hget, hmname⟩
      rcases List.mem_cons.mp hmq with hma | hmq
      · rw [hpicked, hma]
      · obtain ⟨i', m', hi', hm', hprecedes⟩ := hordered.1 m.key hmq
        rw [hi] at hi'
        cases hi'
        rw [hget] at hm'
        cases hm'
        have := hleast i (mem_of_get? hi) hname hilive
        rw [this] at hprecedes
        exact (Bool.false_ne_true hprecedes).elim
  have hpresent (k : String) (hk : k ∈ a :: q) : ((r.step e).get? k).isSome := by
    obtain ⟨j, hj, _⟩ := (hstays k).mp hk
    rw [hj]
    rfl
  have hne (k : String) (hk : k ∈ q) : k ≠ a := by
    rintro rfl
    obtain ⟨j, j', hj, hj', hprecedes⟩ := hordered.1 k hk
    rw [hj] at hj'
    cases hj'
    have := not_precedes_of_precedes hprecedes
    rw [this] at hprecedes
    exact Bool.false_ne_true hprecedes
  have hunpicked (k : String) (hk : k ∈ q) : r.pickedKey? e ≠ some k := by
    rw [hfront]
    intro h
    exact hne k hk (Option.some.inj h).symm
  refine ⟨hfront, ?_, ?_⟩
  · intro k
    rw [← hstays k]
    simp [or_comm]
  · rw [List.pairwise_append]
    refine ⟨hordered.2.imp_of_mem ?_, by simp, ?_⟩
    · intro k l hk hl hkl
      exact hkl.step hr.distinct (hunpicked k hk) (hunpicked l hl)
        (hpresent k (List.mem_cons_of_mem _ hk)) (hpresent l (List.mem_cons_of_mem _ hl))
    · intro k hk l hl
      rw [List.mem_singleton] at hl
      subst hl
      obtain ⟨j, hj, _⟩ := (h.mem_iff k).mp (List.mem_cons_of_mem _ hk)
      exact before_of_picked hr hj (hne k hk) hfront (hpresent k (List.mem_cons_of_mem _ hk))
        (hpresent l List.mem_cons_self) hroom

/-- Going around a list from its second element on is going around the rotated list. -/
theorem getElem?_rotate (a : String) (q : List String) (n : Nat) :
    (q ++ [a])[n % (q ++ [a]).length]? = (a :: q)[(n + 1) % (a :: q).length]? := by
  have hlt : n % (q.length + 1) < q.length + 1 := Nat.mod_lt _ (Nat.succ_pos _)
  have hmod : (n + 1) % (q.length + 1) = (n % (q.length + 1) + 1) % (q.length + 1) := by
    simp
  simp only [List.length_append, List.length_cons, List.length_nil, Nat.zero_add]
  rw [hmod]
  generalize n % (q.length + 1) = m at hlt
  by_cases hm : m < q.length
  · rw [Nat.mod_eq_of_lt (by omega), List.getElem?_append_left hm, List.getElem?_cons_succ]
  · have hend : m = q.length := by omega
    subst hend
    simp

theorem pickedKeys_cons (r : Registry) (name : String) (e : Event) (es : List Event) :
    r.pickedKeys name (e :: es) =
      (if e.action.service? = some name then r.pickedKey? e else none).toList ++
        (r.step e).pickedKeys name es := by
  simp only [pickedKeys, steps, List.filterMap_cons]
  split <;> simp_all

/-- While the instances of a service stay the same, its picks go around the queue. -/
theorem Queue.pickedKeys_eq {r : Registry} (hr : r.Sound) {name : String} {q : List String}
    {es : List Event} (hq : r.Queue name q) (h : r.Steady name es)
    (hroom : (r.run es).HasRoom) :
    r.pickedKeys name es =
      (List.range (pickCount name es)).filterMap fun n => q[n % q.length]? := by
  induction es generalizing r q with
  | nil => rfl
  | cons e es ih =>
      have hstays : ∀ k, k ∈ q ↔ ∃ i, (r.step e).get? k = some i ∧ i.name = name := by
        intro k
        rw [hq.mem_iff, ← mem_keysOf hr.distinct, ← mem_keysOf (hr.distinct.step e)]
        exact (h.stays (r, e) List.mem_cons_self).mem_iff.symm
      rw [pickedKeys_cons]
      by_cases he : e.action.service? = some name
      · have hcount : pickCount name (e :: es) = pickCount name es + 1 := by
          simp [pickCount, he]
        rw [if_pos he, hcount]
        cases q with
        | nil =>
            have hnone : r.pickedKey? e = none := by
              cases hp : r.pickedKey? e with
              | none => rfl
              | some k =>
                  obtain ⟨i, hi, hname, _⟩ := picks_cases hr.distinct ⟨he, hp⟩
                  have := (hq.mem_iff k).mpr ⟨i, hi, hname⟩
                  exact (List.not_mem_nil this).elim
            have hq' : (r.step e).Queue name [] := ⟨hstays, List.Pairwise.nil⟩
            rw [hnone, ih (hr.step e) hq' h.tail hroom]
            rw [List.filterMap_eq_nil_iff.mpr (by simp), List.filterMap_eq_nil_iff.mpr (by simp)]
            rfl
        | cons a q =>
            obtain ⟨hfront, hq'⟩ := hq.rotate hr he (h.live (r, e) List.mem_cons_self he) hstays
              (HasRoom.of_run hroom)
            rw [hfront, ih (hr.step e) hq' h.tail hroom, List.range_succ_eq_map,
              List.filterMap_cons, List.filterMap_map]
            simp only [Nat.zero_mod, List.getElem?_cons_zero, Function.comp_def,
              ← getElem?_rotate]
            rfl
      · have hcount : pickCount name (e :: es) = pickCount name es := by
          simp [pickCount, he]
        rw [if_neg he, hcount]
        exact ih (hr.step e) (hq.keep hr.distinct he hstays) h.tail hroom

/-! ## Taking turns -/

/-- Picks take turns.  Between two successive picks of one instance, whose entry stays, every
other instance of the service that is live at the second pick is picked exactly once since it was
inserted.  While the instances of the service stay the same, the picks repeat one arrangement of
them. -/
theorem picks_take_turns {r : Registry} (hr : r.Reachable) (name : String) :
    (∀ first between second key, r.Recurs first between second name key →
        (r.run (first :: between)).HasRoom →
        ∀ j ∈ ((r.step first).run between).live second.now name, j.key ≠ key →
          (r.step first).picksSinceEntered name j.key between = 1) ∧
      ∀ es, r.Steady name es → (r.run es).HasRoom →
        ∃ q : List String, q.Perm (r.keysOf name) ∧
          r.pickedKeys name es =
            (List.range (pickCount name es)).filterMap fun n => q[n % q.length]? := by
  constructor
  · intro first between second key h hroom j hj hne
    exact picksSinceEntered_of_recurs hr.sound h hroom hj hne
  · intro es h hroom
    obtain ⟨q, hperm, hq⟩ := exists_queue hr.sound.distinct name
    exact ⟨q, hperm, hq.pickedKeys_eq hr.sound h hroom⟩

/-- Two instances of one service, seen at the start. -/
def twoSeen : Registry :=
  (empty (.ofSeconds 5)).run
    [⟨10, .observe "/r/a/a_1" "a" (.ofAddress "a" "h1" "")⟩,
      ⟨10, .observe "/r/a/a_2" "a" (.ofAddress "a" "h2" "")⟩]

/-- Three picks on a clock that stands still. -/
def threePicks : List Event :=
  [⟨10, .select "a"⟩, ⟨10, .pick "a"⟩, ⟨10, .pickEndpoint "a"⟩]

/-- Of two instances, the first one comes up again only after the second. -/
theorem picks_take_turns_two :
    twoSeen.Recurs ⟨10, .select "a"⟩ [⟨10, .pick "a"⟩] ⟨10, .pickEndpoint "a"⟩ "a" "/r/a/a_1" ∧
      (twoSeen.step ⟨10, .select "a"⟩).picksSinceEntered "a" "/r/a/a_2" [⟨10, .pick "a"⟩] = 1 ∧
      ∃ q : List String, q.Perm ["/r/a/a_1", "/r/a/a_2"] ∧
        twoSeen.pickedKeys "a" threePicks = (List.range 3).filterMap fun n => q[n % q.length]? := by
  have hr : twoSeen.Reachable := ⟨_, _, rfl⟩
  have hrecurs : twoSeen.Recurs ⟨10, .select "a"⟩ [⟨10, .pick "a"⟩] ⟨10, .pickEndpoint "a"⟩ "a"
      "/r/a/a_1" :=
    ⟨by decide +kernel, by decide +kernel, by decide +kernel, by decide +kernel⟩
  have hsteady : twoSeen.Steady "a" threePicks := ⟨by decide +kernel, by decide +kernel⟩
  refine ⟨hrecurs, ?_, ?_⟩
  · exact (picks_take_turns hr "a").1 _ _ _ _ hrecurs (by decide +kernel)
      { Instance.ofDescriptor "/r/a/a_2" "a" (.ofAddress "a" "h2" "") 10 with pickStamp := 11 }
      (by decide +kernel) (by decide)
  · exact (picks_take_turns hr "a").2 _ hsteady (by decide +kernel)

end Registry
end ServiceDiscovery
