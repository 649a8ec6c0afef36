import ServiceDiscovery.Registry

/-!
# Looking instances up

A registry is read through {lit}`Registry.get?`.  This module says what each
operation does to what is remembered under a key, so that later proofs need not
look at the list of instances again.

Main results:

- Definition {lit}`Registry.Distinct`: no two instances share a key.  Every
  operation preserves it.
- Theorems {lit}`get?_observe`, {lit}`get?_evict`, {lit}`get?_stamp`,
  {lit}`get?_reportDead` and {lit}`get?_services`: the entry of a key after each
  operation.
- Theorem {lit}`select_cases`: a pick either finds nothing, or stamps a live
  instance that no other live instance of the service precedes.
- Theorem {lit}`shows_services`: a snapshot shows the live instances.
-/

namespace ServiceDiscovery
namespace Registry

/-! ## Lists of instances -/

/-- The instance with a key, in a list of instances. -/
def findKey (k : String) (l : List Instance) : Option Instance :=
  l.find? fun i => i.key = k

theorem get?_eq_findKey (r : Registry) (k : String) : r.get? k = findKey k r.instances :=
  rfl

theorem findKey_cons (k : String) (i : Instance) (l : List Instance) :
    findKey k (i :: l) = if i.key = k then some i else findKey k l := by
  by_cases h : i.key = k
  · simp [findKey, h]
  · simp [findKey, h]

/-- What is found under a key has that key. -/
theorem key_of_findKey {k : String} {l : List Instance} {i : Instance}
    (h : findKey k l = some i) : i.key = k := by
  simpa using List.find?_some h

/-- Nothing is found just under the keys that are not there. -/
theorem findKey_eq_none_iff {k : String} {l : List Instance} :
    findKey k l = none ↔ k ∉ l.map (·.key) := by
  simp [findKey]

/-- Among instances with distinct keys, each one is found under its own key. -/
theorem findKey_eq_some_iff {l : List Instance} (hl : (l.map (·.key)).Nodup)
    {k : String} {i : Instance} : findKey k l = some i ↔ i ∈ l ∧ i.key = k := by
  induction l with
  | nil => simp [findKey]
  | cons j l ih =>
      rw [List.map_cons, List.nodup_cons] at hl
      rw [findKey_cons]
      by_cases hj : j.key = k
      · subst hj
        rw [if_pos rfl]
        constructor
        · intro h
          cases h
          simp
        · rintro ⟨hi, hkey⟩
          rcases List.mem_cons.mp hi with rfl | hi
          · rfl
          · exact (hl.1 (hkey ▸ List.mem_map_of_mem hi)).elim
      · rw [if_neg hj, ih hl.2]
        constructor
        · rintro ⟨hi, hkey⟩
          exact ⟨List.mem_cons_of_mem _ hi, hkey⟩
        · rintro ⟨hi, hkey⟩
          rcases List.mem_cons.mp hi with rfl | hi
          · exact (hj hkey).elim
          · exact ⟨hi, hkey⟩

/-- Filtering instances with distinct keys filters what is found. -/
theorem findKey_filter {l : List Instance} (hl : (l.map (·.key)).Nodup)
    (p : Instance → Bool) (k : String) :
    findKey k (l.filter p) = (findKey k l).filter p := by
  have hfilter : ((l.filter p).map (·.key)).Nodup :=
    hl.sublist (List.filter_sublist.map _)
  cases h : findKey k (l.filter p) with
  | some i =>
      rw [findKey_eq_some_iff hfilter, List.mem_filter] at h
      have hi : findKey k l = some i := (findKey_eq_some_iff hl).mpr ⟨h.1.1, h.2⟩
      rw [hi, Option.filter_some_pos h.1.2]
  | none =>
      cases hi : findKey k l with
      | none => rfl
      | some i =>
          rw [findKey_eq_some_iff hl] at hi
          rw [findKey_eq_none_iff] at h
          by_cases hp : p i
          · refine (h ?_).elim
            rw [← hi.2]
            exact List.mem_map_of_mem (List.mem_filter.mpr ⟨hi.1, hp⟩)
          · rw [Option.filter_some_neg (by simpa using hp)]

/-- Changing instances without changing their keys changes what is found. -/
theorem findKey_map {f : Instance → Instance} (hf : ∀ i, (f i).key = i.key)
    (l : List Instance) (k : String) : findKey k (l.map f) = (findKey k l).map f := by
  induction l with
  | nil => rfl
  | cons i l ih =>
      rw [List.map_cons, findKey_cons, findKey_cons, hf]
      by_cases h : i.key = k
      · simp [h]
      · simp [h, ih]

/-- A change that leaves keys alone leaves the list of keys alone. -/
theorem map_key_map {f : Instance → Instance} (hf : ∀ i, (f i).key = i.key)
    (l : List Instance) : (l.map f).map (·.key) = l.map (·.key) := by
  simp [List.map_map, Function.comp_def, hf]

/-! ## Distinct keys -/

/-- No two instances share a key. -/
def Distinct (r : Registry) : Prop :=
  (r.instances.map (·.key)).Nodup

theorem Distinct.empty (window : Duration) : (empty window).Distinct :=
  List.nodup_nil

/-- When keys are distinct, an instance is remembered just if it is found under its key. -/
theorem mem_instances_iff {r : Registry} (hr : r.Distinct) {i : Instance} :
    i ∈ r.instances ↔ r.get? i.key = some i := by
  rw [get?_eq_findKey, findKey_eq_some_iff hr]
  simp

theorem key_of_get? {r : Registry} {k : String} {i : Instance} (h : r.get? k = some i) :
    i.key = k :=
  key_of_findKey h

/-- What is found under a key is remembered. -/
theorem mem_of_get? {r : Registry} {k : String} {i : Instance} (h : r.get? k = some i) :
    i ∈ r.instances :=
  List.mem_of_find?_eq_some h

/-- Forgetting some instances leaves keys distinct. -/
theorem Distinct.filter {r : Registry} (hr : r.Distinct) (p : Instance → Bool) :
    Distinct { r with instances := r.instances.filter p } :=
  hr.sublist (List.filter_sublist.map _)

/-- A sighting leaves keys distinct: it adds an instance only under a new key. -/
theorem Distinct.observe {r : Registry} (hr : r.Distinct) (now : Reading) (key name : String)
    (d : Descriptor) : (r.observe now key name d).Distinct := by
  unfold Distinct Registry.observe
  by_cases h : (r.get? key).isSome
  · rw [if_pos h, map_key_map (by intro i; split <;> rfl)]
    exact hr
  · rw [if_neg h, List.map_append, List.nodup_append]
    have hnew : r.get? key = none := by simpa using h
    rw [get?_eq_findKey, findKey_eq_none_iff] at hnew
    refine ⟨hr, by simp, ?_⟩
    intro a ha b hb hab
    simp only [List.map_cons, List.map_nil, List.mem_singleton, Instance.ofDescriptor] at hb
    subst hb
    subst hab
    exact hnew ha

theorem Distinct.evict {r : Registry} (hr : r.Distinct) (now : Reading) (name : String) :
    (r.evict now name).Distinct :=
  hr.filter _

/-- A stamp leaves every key as it is. -/
theorem Distinct.stamp {r : Registry} (hr : r.Distinct) (key : String) (value : UInt64) :
    (r.stamp key value).Distinct := by
  unfold Distinct Registry.stamp
  rw [map_key_map (by intro i; split <;> rfl)]
  exact hr

/-! ## The entry of a key -/

/-- A sighting touches the entry of its own key only. -/
theorem get?_observe (r : Registry) (now : Reading) (key name : String) (d : Descriptor)
    (k : String) :
    (r.observe now key name d).get? k =
      if k = key then
        some (match r.get? key with
          | some i => { i with activeAt := now }
          | none => Instance.ofDescriptor key name d now)
      else r.get? k := by
  unfold Registry.observe
  cases h : r.get? key with
  | some i =>
      have hkey : i.key = key := key_of_get? h
      simp only [Option.isSome_some, if_true]
      rw [get?_eq_findKey, findKey_map (by intro i; split <;> rfl), ← get?_eq_findKey]
      by_cases hk : k = key
      · subst hk
        simp [h, hkey]
      · rw [if_neg hk]
        cases hj : r.get? k with
        | none => rfl
        | some j => simp [key_of_get? hj, hk]
  | none =>
      simp only [Option.isSome_none, Bool.false_eq_true, if_false]
      rw [get?_eq_findKey] at h
      rw [get?_eq_findKey, get?_eq_findKey, findKey, List.find?_append, ← findKey, ← findKey]
      by_cases hk : k = key
      · subst hk
        rw [h]
        simp [findKey, Instance.ofDescriptor]
      · simp [findKey, Instance.ofDescriptor, hk, Ne.symm hk]

/-- An eviction takes away the entries of dead instances of its service, and no others. -/
theorem get?_evict {r : Registry} (hr : r.Distinct) (now : Reading) (name k : String) :
    (r.evict now name).get? k =
      (r.get? k).filter fun i => !(i.name = name && r.isDead now i) :=
  findKey_filter hr _ k

/-- A stamp is put on the entry of its key, and on no other. -/
theorem get?_stamp (r : Registry) (key : String) (value : UInt64) (k : String) :
    (r.stamp key value).get? k =
      (r.get? k).map fun i => if i.key = key then { i with pickStamp := value } else i :=
  findKey_map (by intro i; split <;> rfl) _ k

/-- A report takes away the entries at its address, whatever their keys. -/
theorem get?_reportDead {r : Registry} (hr : r.Distinct) (address k : String) :
    (r.reportDead address).2.get? k = (r.get? k).filter fun i => i.address ≠ address :=
  findKey_filter hr _ k

/-- A snapshot takes away every entry that is dead. -/
theorem get?_services {r : Registry} (hr : r.Distinct) (now : Reading) (k : String) :
    (r.services now).2.get? k = (r.get? k).filter (r.isLive now) :=
  findKey_filter hr _ k

/-! ## The least recent instance -/

/-- The instance to be picked first is one of those that count. -/
theorem leastRecent_mem {l : List Instance} {i : Instance} (h : leastRecent l = some i) :
    i ∈ l := by
  induction l generalizing i with
  | nil => simp [leastRecent] at h
  | cons j l ih =>
      simp only [leastRecent] at h
      split at h
      · simp_all
      · split at h
        · simp_all
        · simp_all

/-- There is an instance to be picked unless none counts. -/
theorem leastRecent_eq_none_iff {l : List Instance} : leastRecent l = none ↔ l = [] := by
  cases l with
  | nil => simp [leastRecent]
  | cons i l =>
      simp only [leastRecent, reduceCtorEq, iff_false]
      split
      · simp
      · split <;> simp

theorem precedes_iff {i j : Instance} :
    precedes i j = true ↔
      i.pickStamp < j.pickStamp ∨ i.pickStamp = j.pickStamp ∧ i.key < j.key := by
  simp only [precedes, Bool.or_eq_true, Bool.and_eq_true, decide_eq_true_eq]

/-- Precedence is a strict weak order. -/
theorem not_precedes_trans {i j k : Instance} (hij : precedes i j = false)
    (hjk : precedes j k = false) : precedes i k = false := by
  rw [← Bool.not_eq_true, precedes_iff] at *
  grind

/-- Of two instances at most one precedes the other. -/
theorem not_precedes_of_precedes {i j : Instance} (h : precedes i j = true) :
    precedes j i = false := by
  rw [← Bool.not_eq_true]
  rw [precedes_iff] at *
  grind

/-- Nothing in a list precedes its least recent instance. -/
theorem not_precedes_leastRecent {l : List Instance} {i : Instance}
    (h : leastRecent l = some i) : ∀ j ∈ l, precedes j i = false := by
  induction l generalizing i with
  | nil => simp [leastRecent] at h
  | cons j l ih =>
      have hself : ∀ k : Instance, precedes k k = false := by
        intro k
        rw [← Bool.not_eq_true, precedes_iff]
        grind
      intro k hk
      simp only [leastRecent] at h
      split at h
      · rename_i hnone
        rw [leastRecent_eq_none_iff] at hnone
        subst hnone
        simp_all
      · rename_i m hm
        split at h
        · rename_i hmj
          cases h
          rcases List.mem_cons.mp hk with rfl | hk
          · exact not_precedes_of_precedes hmj
          · exact ih hm k hk
        · rename_i hmj
          cases h
          rcases List.mem_cons.mp hk with rfl | hk
          · exact hself k
          · exact not_precedes_trans (ih hm k hk) (by simpa using hmj)

/-! ## Picks -/

/-- The instances that count are those of the service that were seen within the window. -/
theorem mem_live {r : Registry} {now : Reading} {name : String} {i : Instance} :
    i ∈ r.live now name ↔ i ∈ r.instances ∧ i.name = name ∧ r.isLive now i = true := by
  simp [live]

/-- A pick finds nothing and forgets the dead, or it also stamps a live instance of the service
that no other live one precedes. -/
theorem select_cases (r : Registry) (now : Reading) (name : String) :
    (r.live now name = [] ∧
        r.select now name = (.error (unmatched name), r.evict now name)) ∨
      ∃ i ∈ r.instances, i.name = name ∧ r.isLive now i = true ∧
        (∀ j ∈ r.instances, j.name = name → r.isLive now j = true → precedes j i = false) ∧
        r.select now name =
          (.ok { i with pickStamp := r.nextStamp now },
            (r.evict now name).stamp i.key (r.nextStamp now)) := by
  cases h : leastRecent (r.live now name) with
  | none =>
      left
      refine ⟨leastRecent_eq_none_iff.mp h, ?_⟩
      simp [select, candidates, h]
  | some i =>
      right
      have hi := mem_live.mp (leastRecent_mem h)
      refine ⟨i, hi.1, hi.2.1, hi.2.2, ?_, ?_⟩
      · intro j hj hname hlive
        exact not_precedes_leastRecent h j (mem_live.mpr ⟨hj, hname, hlive⟩)
      · simp [select, candidates, h, nextStamp, evict]

/-! ## Snapshots -/

/-- A snapshot has a summary in the group of a name. -/
def Shows (groups : List (String × List Summary)) (name : String) (s : Summary) : Prop :=
  ∃ group, (name, group) ∈ groups ∧ s ∈ group

/-- A summary that is put into its place is added to the others. -/
theorem mem_insertSummary {s t : Summary} {l : List Summary} :
    t ∈ insertSummary s l ↔ t = s ∨ t ∈ l := by
  induction l with
  | nil => simp [insertSummary]
  | cons u l ih =>
      simp only [insertSummary]
      by_cases h : s.address < u.address
      · rw [if_pos h, List.mem_cons]
      · rw [if_neg h, List.mem_cons, ih, List.mem_cons]
        exact or_left_comm

/-- A snapshot without groups shows nothing. -/
theorem shows_nil {name : String} {s : Summary} : ¬ Shows [] name s := by
  rintro ⟨group, hgroup, _⟩
  cases hgroup

/-- A snapshot shows what its first group shows and what the others show. -/
theorem shows_cons {name : String} {s : Summary} {group : String × List Summary}
    {groups : List (String × List Summary)} :
    Shows (group :: groups) name s ↔ group.1 = name ∧ s ∈ group.2 ∨ Shows groups name s := by
  constructor
  · rintro ⟨members, hmem, hs⟩
    rcases List.mem_cons.mp hmem with rfl | hmem
    · exact Or.inl ⟨rfl, hs⟩
    · exact Or.inr ⟨members, hmem, hs⟩
  · rintro (⟨rfl, hs⟩ | ⟨members, hmem, hs⟩)
    · exact ⟨group.2, List.mem_cons_self, hs⟩
    · exact ⟨members, List.mem_cons_of_mem _ hmem, hs⟩

/-- A summary that is added to the group of its name is shown there, beside what was shown
before. -/
theorem shows_addToGroup {name other : String} {s t : Summary}
    {groups : List (String × List Summary)} :
    Shows (addToGroup name s groups) other t ↔
      name = other ∧ t = s ∨ Shows groups other t := by
  induction groups with
  | nil =>
      rw [addToGroup, shows_cons]
      simp [shows_nil]
  | cons group groups ih =>
      obtain ⟨n, members⟩ := group
      simp only [addToGroup]
      by_cases hlt : name < n
      · rw [if_pos hlt, shows_cons]
        simp
      · rw [if_neg hlt]
        by_cases heq : name = n
        · subst heq
          rw [if_pos rfl, shows_cons, shows_cons, mem_insertSummary, and_or_left, or_assoc]
        · rw [if_neg heq, shows_cons, ih, shows_cons]
          exact or_left_comm

/-- A snapshot shows the live instances, each under its name. -/
theorem shows_services {r : Registry} {now : Reading} {name : String} {s : Summary} :
    Shows (r.services now).1 name s ↔
      ∃ i ∈ r.instances, r.isLive now i = true ∧ i.name = name ∧ s = .ofInstance i := by
  have hfold (l : List Instance) (groups : List (String × List Summary)) :
      Shows (l.foldl (fun groups i => addToGroup i.name (.ofInstance i) groups) groups) name s ↔
        (∃ i ∈ l, i.name = name ∧ s = .ofInstance i) ∨ Shows groups name s := by
    induction l generalizing groups with
    | nil => simp
    | cons i l ih =>
        rw [List.foldl_cons, ih, shows_addToGroup]
        simp only [List.mem_cons, exists_eq_or_imp]
        rw [or_left_comm, or_assoc]
  rw [services, hfold]
  simp [shows_nil, liveAnywhere, and_assoc]

end Registry
end ServiceDiscovery
