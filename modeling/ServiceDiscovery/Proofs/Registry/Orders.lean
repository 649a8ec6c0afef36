import Mathlib.Data.List.Nodup
import ServiceDiscovery.Proofs.Registry.Snapshots
import ServiceDiscovery.Proofs.Registry.Undisturbed

/-!
# The order of instances

The order in which a registry remembers its instances means nothing, and may be another one
each time they are visited.  No pick shows it: of two instances, one always comes first.  A
snapshot puts the instances of a service in the order of their addresses, and leaves those at
one address in the order in which they were visited; so it shows as much of that order as
there is to see of it.

Main results:

- Definition {lit}`Registry.Alike`: registries that differ at most in the order.
- Theorem {lit}`Visits.same_picks`: whatever the order at each step, a run picks the same and
  ends in the same registry.
- Theorem {lit}`shown_at_address`: instances at one address are shown in the order in which
  they were visited.
- Theorem {lit}`snapshot_settled_iff`: the text of a snapshot is the same in every order
  exactly if live instances at one address cannot be told apart.
-/

namespace ServiceDiscovery
namespace Registry

variable {r r' : Registry} {now : Reading} {name : String} {s t : Summary}
  {groups : List (String × List Summary)}

/-! ## Registries alike -/

/-- Registries that differ at most in the order of what they remember, which means nothing. -/
def Alike (r r' : Registry) : Prop :=
  r.instances.Perm r'.instances ∧ r.window = r'.window ∧ r.lastStamp = r'.lastStamp

instance (r r' : Registry) : Decidable (r.Alike r') :=
  inferInstanceAs (Decidable (_ ∧ _))

/-- Registries that remember the same under every key remember the same. -/
theorem perm_of_get?_eq (hr : r.Distinct) (hr' : r'.Distinct)
    (h : ∀ key, r.get? key = r'.get? key) : r.instances.Perm r'.instances := by
  rw [List.perm_ext_iff_of_nodup (List.Nodup.of_map _ hr) (List.Nodup.of_map _ hr')]
  intro i
  rw [mem_instances_iff hr, mem_instances_iff hr', h]

theorem Alike.trans {r'' : Registry} (h : r.Alike r') (h' : r'.Alike r'') : r.Alike r'' :=
  ⟨h.1.trans h'.1, h.2.1.trans h'.2.1, h.2.2.trans h'.2.2⟩

theorem Alike.distinct (h : r.Alike r') (hr : r.Distinct) : r'.Distinct :=
  (h.1.map Instance.key).nodup_iff.mp hr

/-- When keys are distinct, the order of instances makes no difference to an entry. -/
theorem Alike.get?_eq (h : r.Alike r') (hr : r.Distinct) (key : String) :
    r'.get? key = r.get? key := by
  ext i
  rw [get?_eq_findKey, get?_eq_findKey, findKey_eq_some_iff hr,
    findKey_eq_some_iff (h.distinct hr), h.1.mem_iff]

/-- Registries are alike if neither remembers anything that the other one does not. -/
theorem alike_iff_sheds (hr : r.Distinct) (now : Reading) :
    r.Alike r' ↔ Sheds (fun _ => False) now r r' := by
  constructor
  · intro h
    exact ⟨hr, h.distinct hr, h.2.1.symm, h.2.2.symm, fun key => Or.inl (h.get?_eq hr key)⟩
  · intro h
    refine ⟨perm_of_get?_eq hr h.distinct' ?_, h.window.symm, h.lastStamp.symm⟩
    intro key
    rcases h.entry key with heq | ⟨hlost, _⟩
    · exact heq.symm
    · exact hlost.elim

/-! ## Picks -/

/-- What is picked does not depend on the order. -/
theorem Alike.select_eq (h : r.Alike r') (hr : r.Distinct) (now : Reading) (name : String) :
    (r'.select now name).1 = (r.select now name).1 :=
  ((alike_iff_sheds hr now).mp h).select_eq name

/-- Nor does it to a pick. -/
theorem Alike.picked?_eq (h : r.Alike r') (hr : r.Distinct) (e : Event) :
    r'.picked? e = r.picked? e := by
  unfold picked?
  congr 1
  funext name
  rw [h.select_eq hr]

/-- Every action leaves registries alike. -/
theorem Alike.step (h : r.Alike r') (hr : r.Distinct) (e : Event) :
    (r.step e).Alike (r'.step e) := by
  have hstep := ((alike_iff_sheds hr e.now).mp h).step fun _ hlost => hlost.elim
  exact (alike_iff_sheds (hr.step e) e.now).mpr (hstep.mono fun _ hlost => hlost.1)

/-- A run in which the instances may be put into any order before each action, what its actions
pick, and where it leads. -/
inductive Visits : Registry → List Event → List (Option Instance) → Registry → Prop where
  | done {r r' : Registry} (h : r.Alike r') : Visits r [] [] r'
  | act {r q r' : Registry} {e : Event} {es : List Event} {picks : List (Option Instance)}
      (h : r.Alike q) (rest : Visits (q.step e) es picks r') :
      Visits r (e :: es) (q.picked? e :: picks) r'

/-- Whatever the order of the instances at each action, a run picks what it would have picked
without any change of the order, and ends in the same registry. -/
theorem Visits.same_picks {r₀ : Registry} {es : List Event} {picks : List (Option Instance)}
    (h : Visits r es picks r') (h₀ : r₀.Alike r) (hr₀ : r₀.Distinct) :
    picks = (r₀.steps es).map (fun p => p.1.picked? p.2) ∧ (r₀.run es).Alike r' := by
  induction h generalizing r₀ with
  | done h => exact ⟨rfl, h₀.trans h⟩
  | @act r q r' e es picks h _ ih =>
      have hq := h₀.trans h
      obtain ⟨hpicks, hend⟩ := ih (hq.step hr₀ e) (hr₀.step e)
      rw [hq.picked?_eq hr₀, hpicks]
      exact ⟨rfl, hend⟩

/-! ## Snapshots that do not depend on the order -/

/-- Live instances of one service at one address look the same in a snapshot. -/
def Settled (r : Registry) (now : Reading) : Prop :=
  ∀ i ∈ r.liveAnywhere now, ∀ j ∈ r.liveAnywhere now, i.name = j.name → i.address = j.address →
    Summary.ofInstance i = Summary.ofInstance j

/-- Two summaries may be put into their places in any order, unless they differ under one
address. -/
theorem insertSummary_comm (h : s.address = t.address → s = t) (l : List Summary) :
    insertSummary s (insertSummary t l) = insertSummary t (insertSummary s l) := by
  by_cases heq : s.address = t.address
  · rw [h heq]
  · induction l with
    | nil => grind [insertSummary]
    | cons u l ih => grind [insertSummary]

theorem addToGroup_comm {m n : String} (h : m = n → s.address = t.address → s = t)
    (groups : List (String × List Summary)) :
    addToGroup m s (addToGroup n t groups) = addToGroup n t (addToGroup m s groups) := by
  by_cases heq : m = n
  · -- Both go into one group.
    subst heq
    have hcomm := insertSummary_comm (h rfl)
    have hnew : insertSummary s [t] = insertSummary t [s] := hcomm []
    induction groups with
    | nil => simp [addToGroup, hnew]
    | cons group groups ih => grind [addToGroup]
  · induction groups with
    | nil => grind [addToGroup]
    | cons group groups ih => grind [addToGroup]

/-- The same instances count, in some order. -/
theorem Alike.liveAnywhere (h : r.Alike r') (now : Reading) :
    (r.liveAnywhere now).Perm (r'.liveAnywhere now) := by
  have hlive : r'.isLive now = r.isLive now := by
    funext i
    rw [Registry.isLive, Registry.isLive, isDead, isDead, h.2.1]
  rw [Registry.liveAnywhere, Registry.liveAnywhere, hlive]
  exact h.1.filter _

/-- A snapshot does not depend on the order when instances at one address look the same. -/
theorem Settled.services_eq (h : r.Settled now) (halike : r.Alike r') :
    (r'.services now).1 = (r.services now).1 := by
  refine (halike.liveAnywhere now).symm.foldl_eq' ?_ []
  intro i hi j hj groups
  have hperm := halike.liveAnywhere now
  exact addToGroup_comm (fun hname haddress =>
    h j (hperm.mem_iff.mpr hj) i (hperm.mem_iff.mpr hi) hname haddress) groups

/-! ## Snapshots that show the order -/

/-- A summary comes behind those with the same address. -/
theorem filter_insertSummary {l : List Summary}
    (h : l.Pairwise fun s t => s.address ≤ t.address) (s : Summary) (address : String) :
    (insertSummary s l).filter (·.address = address) =
      l.filter (·.address = address) ++ [s].filter (·.address = address) := by
  induction l with
  | nil => rfl
  | cons t l ih =>
      have hcons := List.pairwise_cons.mp h
      rw [insertSummary]
      split
      · rename_i hlt
        by_cases hs : s.address = address
        · -- Everything from here on has a greater address.
          have hnone : (t :: l).filter (·.address = address) = [] := by
            rw [List.filter_eq_nil_iff, List.forall_mem_cons]
            have hgreater {u : Summary} (hle : t.address ≤ u.address) : ¬ u.address = address := by
              intro hu
              rw [hs, ← hu] at hlt
              exact String.not_lt.mpr hle hlt
            exact ⟨by simpa using hgreater (String.le_refl _),
              fun u hu => by simpa using hgreater (hcons.1 u hu)⟩
          rw [List.filter_cons, hnone]
          simp [hs]
        · simp [hs]
      · rw [List.filter_cons, List.filter_cons, ih hcons.2]
        split <;> rfl

/-- A summary is added to the group of its name, and to no other. -/
theorem shownUnder_addToGroup (h : (groups.map (·.1)).Pairwise (· < ·)) (n name : String)
    (s : Summary) : shownUnder (addToGroup n s groups) name =
      if n = name then insertSummary s (shownUnder groups name) else shownUnder groups name := by
  induction groups with
  | nil =>
      rw [addToGroup]
      grind [shownUnder, insertSummary]
  | cons group groups ih =>
      obtain ⟨m, members⟩ := group
      have hcons := List.pairwise_cons.mp h
      have ih := ih hcons.2
      have hlast : n < m → ((m, members) :: groups).lookup n = none := by
        intro hlt
        refine Json.lookup_eq_none_iff.mpr fun hmem => ?_
        rcases List.mem_cons.mp hmem with rfl | hmem
        · exact String.lt_irrefl _ hlt
        · exact String.lt_irrefl _ (String.lt_trans hlt (hcons.1 n hmem))
      rw [addToGroup]
      grind [shownUnder, insertSummary]

theorem Grouped.sorted_shownUnder (h : Grouped groups) (name : String) :
    (shownUnder groups name).Pairwise fun s t => s.address ≤ t.address := by
  rw [shownUnder]
  cases hlookup : groups.lookup name with
  | none => exact List.Pairwise.nil
  | some group => exact h.sorted (name, group) (Json.mem_of_lookup hlookup)

theorem filter_shownUnder_foldl (h : Grouped groups) (l : List Instance) (name address : String) :
    (shownUnder (l.foldl (fun groups i => addToGroup i.name (.ofInstance i) groups) groups)
        name).filter (·.address = address) =
      (shownUnder groups name).filter (·.address = address) ++
        (l.filter fun i => i.name = name ∧ i.address = address).map Summary.ofInstance := by
  induction l generalizing groups with
  | nil => simp
  | cons i l ih =>
      rw [List.foldl_cons, ih (h.addToGroup i.name (.ofInstance i)),
        shownUnder_addToGroup h.names, List.filter_cons]
      by_cases hname : i.name = name
      · rw [if_pos hname, filter_insertSummary (h.sorted_shownUnder name)]
        by_cases haddress : i.address = address
        · simp [hname, haddress, Summary.ofInstance]
        · simp [hname, haddress, Summary.ofInstance]
      · simp [hname]

/-- The instances of a service at one address are shown in the order in which they were
visited. -/
theorem shown_at_address (r : Registry) (now : Reading) (name address : String) :
    (shownUnder (r.services now).1 name).filter (·.address = address) =
      ((r.live now name).filter (·.address = address)).map Summary.ofInstance := by
  have hempty : Grouped [] :=
    ⟨List.Pairwise.nil, List.forall_mem_nil _, List.forall_mem_nil _⟩
  rw [services, filter_shownUnder_foldl hempty, live_eq_filter, List.filter_filter]
  simp [shownUnder, Bool.and_comm]

/-- Snapshots with one text are one snapshot. -/
theorem snapshot_inj {groups' : List (String × List Summary)}
    (h : snapshot groups = snapshot groups') : groups = groups' := by
  have hread := (reads_snapshot groups).document
  rw [h, (reads_snapshot groups').document] at hread
  exact (Except.ok.inj hread).symm

/-- Any instance may be the first one that is visited. -/
theorem alike_of_mem {i : Instance} (hi : i ∈ r.instances) :
    r.Alike { r with instances := i :: r.instances.erase i } :=
  ⟨List.perm_cons_erase hi, rfl, rfl⟩

/-- A live instance that is visited first is the first one that is shown at its address. -/
theorem head?_shown {i : Instance} (hlive : r.isLive now i = true) (rest : List Instance) :
    ((shownUnder (services { r with instances := i :: rest } now).1 i.name).filter
      (·.address = i.address)).head? = some (.ofInstance i) := by
  have hkept : decide (i.name = i.name) && isLive { r with instances := i :: rest } now i := by
    rw [decide_eq_true rfl, Bool.true_and]
    exact hlive
  rw [shown_at_address, live, List.filter_cons, if_pos hkept, List.filter_cons,
    if_pos (decide_eq_true rfl), List.map_cons, List.head?_cons]

/-- The text of a snapshot is the same in whatever order the instances are visited, exactly if live
instances of one service at one address look the same. -/
theorem snapshot_settled_iff (r : Registry) (now : Reading) :
    (∀ r', r.Alike r' → snapshot (r'.services now).1 = snapshot (r.services now).1) ↔
      r.Settled now := by
  constructor
  · intro h i hi j hj hname haddress
    obtain ⟨hi, hilive⟩ := List.mem_filter.mp hi
    obtain ⟨hj, hjlive⟩ := List.mem_filter.mp hj
    have hsame := snapshot_inj ((h _ (alike_of_mem hi)).trans (h _ (alike_of_mem hj)).symm)
    have hifirst := head?_shown hilive (r.instances.erase i)
    rw [hsame, hname, haddress, head?_shown hjlive] at hifirst
    exact (Option.some.inj hifirst).symm
  · intro h r' halike
    rw [h.services_eq halike]

/-- Two instances are published at one address. In either order they are the same to a pick, and
not to a snapshot. -/
example :
    let r : Registry := (empty (.ofSeconds 9)).run
      [⟨1, .observe "a" "web" { Descriptor.ofAddress "web" "ip" "80" with source := "one" }⟩,
        ⟨1, .observe "b" "web" { Descriptor.ofAddress "web" "ip" "80" with source := "two" }⟩]
    let r' : Registry := { r with instances := r.instances.reverse }
    r.Alike r' ∧ (r'.select 2 "web").1 = (r.select 2 "web").1 ∧
      (r.services 2).1 = [("web", [⟨"ip:80", "one", "web"⟩, ⟨"ip:80", "two", "web"⟩])] ∧
      (r'.services 2).1 = [("web", [⟨"ip:80", "two", "web"⟩, ⟨"ip:80", "one", "web"⟩])] := by
  decide +kernel

end Registry
end ServiceDiscovery
