import ServiceDiscovery.Proofs.Json.Collections
import ServiceDiscovery.Proofs.Registry.History

/-!
# Snapshots

A snapshot goes once over all instances, groups those that live by the names of their
services and forgets the others.  This module compares it with the registry and with
the queries about single services: no instance is lost, shown twice, or shown in a group
of another service, and the text of a snapshot gives the snapshot back.

Main results:

- Definition {lit}`Registry.listed`: the names and summaries in a snapshot, each as often
  as it is shown.
- Theorem {lit}`Registry.perm_listed_addToGroup`: adding to a group adds one pair.
- Theorem {lit}`Registry.reads_snapshot`: the text of a snapshot is JSON, and is read as
  the snapshot.
- Theorem {lit}`Registry.services_partition`: a snapshot of a registry that some run
  leads to is a partition of its live instances.
-/

namespace ServiceDiscovery
namespace Registry

variable {r : Registry} {now : Reading} {name : String} {s : Summary}
  {groups : List (String × List Summary)}

/-! ## Live instances -/

/-- The time since an instance was last seen is shorter than the expiry window; it is zero for one
that was seen later than now. -/
def Fresh (r : Registry) (now : Reading) (i : Instance) : Prop :=
  now.toNat - i.activeAt.toNat < r.window.toNat

instance (r : Registry) (now : Reading) (i : Instance) : Decidable (r.Fresh now i) :=
  inferInstanceAs (Decidable (_ < _))

/-- An instance counts just as long as it is fresh. -/
theorem isLive_iff_fresh {i : Instance} : r.isLive now i = true ↔ r.Fresh now i := by
  by_cases h : i.activeAt ≤ now
  · exact isLive_iff h
  · have hlater : now.toNat - i.activeAt.toNat = 0 := by
      rw [UInt64.le_iff_toNat_le] at h
      omega
    have hage : (age now i).toNat = 0 := by
      rw [age, if_neg h]
      rfl
    rw [isLive, isDead, Bool.not_eq_true', decide_eq_false_iff_not, UInt64.le_iff_toNat_le, hage,
      Nat.not_le, Fresh, hlater]

theorem isLive_eq : r.isLive now = fun i => decide (r.Fresh now i) := by
  funext i
  rw [Bool.eq_iff_iff, isLive_iff_fresh, decide_eq_true_eq]

/-- The instances of a service that count are those of all services that have its name. -/
theorem live_eq_filter : r.live now name = (r.liveAnywhere now).filter (·.name = name) := by
  rw [live, liveAnywhere, List.filter_filter]

/-- A service has the same live instances when the dead ones of all services are forgotten. -/
theorem live_services : (r.services now).2.live now name = r.live now name := by
  rw [live_eq_filter, live_eq_filter]
  exact congrArg (List.filter _) (List.filter_eq_self.mpr fun _ hi => List.of_mem_filter hi)

/-! ## Groups -/

/-- The names and summaries in a snapshot, each as often as it is shown. -/
def listed (groups : List (String × List Summary)) : List (String × Summary) :=
  groups.flatMap fun group => group.2.map fun s => (group.1, s)

/-- The summaries that are shown under a name. -/
def shownUnder (groups : List (String × List Summary)) (name : String) : List Summary :=
  (groups.lookup name).getD []

/-- The groups are in increasing order of their names, none is empty, and each is in the order of
the addresses. -/
structure Grouped (groups : List (String × List Summary)) : Prop where
  names : (groups.map (·.1)).Pairwise (· < ·)
  nonempty : ∀ group ∈ groups, group.2 ≠ []
  sorted : ∀ group ∈ groups, group.2.Pairwise fun s t => s.address ≤ t.address

/-- What a snapshot lists begins with its first group. -/
theorem listed_cons (group : String × List Summary) :
    listed (group :: groups) = group.2.map (fun s => (group.1, s)) ++ listed groups :=
  List.flatMap_cons

/-- Putting a summary into its place loses and adds no other. -/
theorem perm_insertSummary (s : Summary) (l : List Summary) :
    (insertSummary s l).Perm (s :: l) := by
  induction l with
  | nil => exact .refl _
  | cons t l ih =>
      rw [insertSummary]
      split
      · exact .refl _
      · exact (ih.cons t).trans (.swap s t l)

/-- A summary is put into its place in the order of addresses. -/
theorem sorted_insertSummary {l : List Summary} (h : l.Pairwise fun s t => s.address ≤ t.address) :
    (insertSummary s l).Pairwise fun s t => s.address ≤ t.address := by
  induction l with
  | nil => exact List.pairwise_singleton _ _
  | cons t l ih =>
      rw [List.pairwise_cons] at h
      rw [insertSummary]
      split
      · rename_i hlt
        have hle : s.address ≤ t.address := String.not_lt.mp (String.lt_asymm hlt)
        refine List.pairwise_cons.mpr ⟨?_, List.pairwise_cons.mpr h⟩
        rw [List.forall_mem_cons]
        exact ⟨hle, fun u hu => String.le_trans hle (h.1 u hu)⟩
      · rename_i hlt
        refine List.pairwise_cons.mpr ⟨?_, ih h.2⟩
        intro u hu
        rcases mem_insertSummary.mp hu with rfl | hu
        · exact String.not_lt.mp hlt
        · exact h.1 u hu

/-- Adding to a group adds one pair. -/
theorem perm_listed_addToGroup (name : String) (s : Summary)
    (groups : List (String × List Summary)) :
    (listed (addToGroup name s groups)).Perm ((name, s) :: listed groups) := by
  induction groups with
  | nil => exact .refl _
  | cons group groups ih =>
      obtain ⟨n, members⟩ := group
      rw [addToGroup]
      split
      · exact .refl _
      · split
        · rename_i heq
          subst heq
          rw [listed_cons, listed_cons]
          exact ((perm_insertSummary s members).map _).append_right _
        · rw [listed_cons, listed_cons]
          exact (ih.append_left _).trans List.perm_middle

/-- What holds of a group of one, and lasts when a group grows, holds of every group. -/
theorem forall_mem_addToGroup {P : List Summary → Prop} (hnew : P [s])
    (hmore : ∀ members, P members → P (insertSummary s members)) (h : ∀ g ∈ groups, P g.2) :
    ∀ g ∈ addToGroup name s groups, P g.2 := by
  induction groups with
  | nil => exact List.forall_mem_singleton.mpr hnew
  | cons group groups ih =>
      obtain ⟨n, members⟩ := group
      have hcons := List.forall_mem_cons.mp h
      rw [addToGroup]
      split
      · exact List.forall_mem_cons.mpr ⟨hnew, h⟩
      · split
        · exact List.forall_mem_cons.mpr ⟨hmore members hcons.1, hcons.2⟩
        · exact List.forall_mem_cons.mpr ⟨hcons.1, ih hcons.2⟩

/-- Adding to a group makes at most one new name. -/
theorem mem_names_addToGroup {n : String} (h : n ∈ (addToGroup name s groups).map (·.1)) :
    n = name ∨ n ∈ groups.map (·.1) := by
  induction groups with
  | nil => exact Or.inl (List.mem_singleton.mp h)
  | cons group groups ih =>
      rw [addToGroup] at h
      grind

/-- A new group is put into its place in the order of names. -/
theorem names_addToGroup (h : (groups.map (·.1)).Pairwise (· < ·)) :
    ((addToGroup name s groups).map (·.1)).Pairwise (· < ·) := by
  induction groups with
  | nil => exact List.pairwise_singleton _ _
  | cons group groups ih =>
      obtain ⟨n, members⟩ := group
      have hcons := List.pairwise_cons.mp h
      rw [addToGroup]
      split
      · rename_i hlt
        refine List.pairwise_cons.mpr ⟨?_, h⟩
        intro m hm
        rcases List.mem_cons.mp hm with rfl | hm
        · exact hlt
        · exact String.lt_trans hlt (hcons.1 m hm)
      · split
        · exact h
        · -- The name comes after this group, as all the others do that follow it.
          rename_i hlt hne
          refine List.pairwise_cons.mpr ⟨?_, ih hcons.2⟩
          intro m hm
          rcases mem_names_addToGroup hm with rfl | hm
          · have hle : n ≤ m := String.not_lt.mp hlt
            grind
          · exact hcons.1 m hm

/-- Adding a summary keeps a snapshot in order. -/
theorem Grouped.addToGroup (h : Grouped groups) (name : String) (s : Summary) :
    Grouped (Registry.addToGroup name s groups) where
  names := names_addToGroup h.names
  nonempty :=
    forall_mem_addToGroup (P := fun members => members ≠ []) (List.cons_ne_nil s [])
      (fun _ _ => List.ne_nil_of_mem (mem_insertSummary.mpr (Or.inl rfl))) h.nonempty
  sorted :=
    forall_mem_addToGroup (List.pairwise_singleton _ s) (fun _ => sorted_insertSummary) h.sorted

/-- Where every name has one group, the pairs with a name are those of its group. -/
theorem filter_listed (h : (groups.map (·.1)).Nodup) (name : String) :
    (listed groups).filter (·.1 = name) = (shownUnder groups name).map fun s => (name, s) := by
  induction groups with
  | nil => rfl
  | cons group groups ih =>
      obtain ⟨n, members⟩ := group
      rw [List.map_cons, List.nodup_cons] at h
      rw [listed_cons, List.filter_append, ih h.2]
      by_cases heq : n = name
      · subst heq
        have hnone : groups.lookup n = none := Json.lookup_eq_none_iff.mpr h.1
        simp [shownUnder, hnone, List.filter_map, Function.comp_def]
      · have hne : (name == n) = false := beq_false_of_ne (Ne.symm heq)
        simp [shownUnder, List.lookup_cons, heq, hne, List.filter_map, Function.comp_def]

/-! ## The groups of the live instances -/

/-- Grouping loses no summary and adds none. -/
theorem perm_listed_foldl (l : List Instance) (groups : List (String × List Summary)) :
    (listed (l.foldl (fun groups i => addToGroup i.name (.ofInstance i) groups) groups)).Perm
      (l.map (fun i => (i.name, .ofInstance i)) ++ listed groups) := by
  induction l generalizing groups with
  | nil => exact .refl _
  | cons i l ih =>
      rw [List.foldl_cons, List.map_cons]
      have hadded := (perm_listed_addToGroup i.name (.ofInstance i) groups).append_left
        (l.map fun i => (i.name, Summary.ofInstance i))
      exact ((ih _).trans hadded).trans List.perm_middle

theorem grouped_foldl (h : Grouped groups) (l : List Instance) :
    Grouped (l.foldl (fun groups i => addToGroup i.name (.ofInstance i) groups) groups) := by
  induction l generalizing groups with
  | nil => exact h
  | cons i l ih => exact ih (h.addToGroup i.name (.ofInstance i))

/-- A snapshot lists the live instances, and each of them once. -/
theorem perm_listed_services (r : Registry) (now : Reading) :
    (listed (r.services now).1).Perm
      ((r.liveAnywhere now).map fun i => (i.name, .ofInstance i)) := by
  have hperm := perm_listed_foldl (r.liveAnywhere now) []
  rwa [show listed [] = [] from rfl, List.append_nil] at hperm

/-- The groups of a snapshot are in order. -/
theorem grouped_services (r : Registry) (now : Reading) : Grouped (r.services now).1 :=
  grouped_foldl ⟨List.Pairwise.nil, List.forall_mem_nil _, List.forall_mem_nil _⟩ _

theorem Grouped.nodup (h : Grouped groups) : (groups.map (·.1)).Nodup := by
  refine h.names.imp ?_
  rintro n _ hlt rfl
  exact String.lt_irrefl n hlt

/-- Under a name, a snapshot shows the live instances of the service. -/
theorem perm_shownUnder_services (r : Registry) (now : Reading) (name : String) :
    ((shownUnder (r.services now).1 name).map (·.address)).Perm
      ((r.live now name).map (·.address)) := by
  -- The pairs with the name are the group on one side, and the instances of the service on the
  -- other.
  have hfilter := (perm_listed_services r now).filter (·.1 = name)
  rw [filter_listed (grouped_services r now).nodup, List.filter_map] at hfilter
  have haddress := hfilter.map fun pair => pair.2.address
  rw [List.map_map, List.map_map] at haddress
  rw [live_eq_filter]
  exact haddress

/-! ## The text of a snapshot -/

/-- Reads a summary. -/
def summaryReader : Json.Reader Summary :=
  (Json.Reader.record Summary.schema).map Summary.ofRecord

/-- Reads a snapshot: an object with an array of summaries under every name. -/
def snapshotReader : Json.Reader (List (String × List Summary)) :=
  summaryReader.list.object

/-- A summary is read back as it was written. -/
theorem reads_summary (s : Summary) : summaryReader.Reads (Text.utf8 s.toJson) s :=
  (Json.Reader.record_reads s.types_fields (by decide)).map Summary.ofRecord

/-- A group is read back as it was written. -/
theorem reads_group (group : List Summary) :
    summaryReader.list.Reads (Text.utf8 (Json.array (group.map Summary.toJson))) group :=
  Json.Reader.list_reads summaryReader Summary.toJson group fun s _ => reads_summary s

/-- The text of a snapshot is JSON and is read as the snapshot, whatever is in it. -/
theorem reads_snapshot (groups : List (String × List Summary)) :
    snapshotReader.Reads (Text.utf8 (snapshot groups)) groups := by
  have hobject := Json.Reader.object_reads summaryReader.list
    (fun group => Json.array (group.map Summary.toJson)) groups fun group _ => reads_group group.2
  exact hobject

/-! ## Partitions -/

/-- What a snapshot at a reading shows of a registry, and what it leaves there. -/
structure Partitions (r : Registry) (now : Reading) : Prop where
  /-- Its names and summaries are those of the live instances, each as often as it occurs. -/
  pairs : (listed (r.services now).1).Perm
    ((r.instances.filter fun i => r.Fresh now i).map fun i => (i.name, .ofInstance i))
  grouped : Grouped (r.services now).1
  /-- Under every name stand the addresses that a query about the service gives. -/
  addresses : ∀ name,
    ((shownUnder (r.services now).1 name).map (·.address)).Perm (r.addresses now name).1
  /-- It makes no difference to such a query whether it comes before or after the snapshot. -/
  afterwards : ∀ name, ((r.services now).2.addresses now name).1 = (r.addresses now name).1
  /-- The live instances are left as they were, and nothing else is. -/
  entries : ∀ key i, (r.services now).2.get? key = some i ↔ r.get? key = some i ∧ r.Fresh now i
  settings : (r.services now).2.window = r.window ∧ (r.services now).2.lastStamp = r.lastStamp
  /-- Its text is JSON. -/
  written : Json.Written .value (Text.utf8 (snapshot (r.services now).1))
  /-- Its text is read as the snapshot. -/
  decoded : snapshotReader.document (Text.utf8 (snapshot (r.services now).1)) =
    .ok (r.services now).1

/-- When keys are distinct, a snapshot shows each instance that counts once, in the group of its
service. -/
theorem partitions_of_distinct (h : r.Distinct) (now : Reading) : r.Partitions now where
  pairs := by
    rw [← isLive_eq]
    exact perm_listed_services r now
  grouped := grouped_services r now
  addresses := perm_shownUnder_services r now
  afterwards := by
    intro name
    exact congrArg (List.map (·.address)) live_services
  entries := by
    intro key i
    rw [get?_services h, Option.filter_eq_some_iff, isLive_iff_fresh]
  settings := ⟨rfl, rfl⟩
  written := (reads_snapshot _).written
  decoded := (reads_snapshot _).document

/-- A snapshot of a registry is a partition of its live instances, whatever has happened to it and
in whatever order its instances are visited: none is lost, shown twice or shown under another name.
It shows what the queries about single services find, forgets the dead instances and leaves the live
ones as they were; and it can be read back from its text, whatever characters the names, addresses
and sources contain. -/
theorem services_partition (h : r.Reachable) {order : List Instance}
    (horder : order.Perm r.instances) (now : Reading) :
    Partitions { r with instances := order } now := by
  have hdistinct : Distinct { r with instances := order } :=
    (horder.map Instance.key).nodup_iff.mpr h.sound.distinct
  exact partitions_of_distinct hdistinct now

/-- Four instances, with an expiry window of ten nanoseconds. There are quotes, a backslash and
control characters in what is known of them. -/
def oddities : Registry :=
  (empty ⟨10⟩).run
    [⟨1, .observe "a" "web" (.ofAddress "web" "10.0.0.1" "80")⟩,
      ⟨7, .observe "b" "web" (.ofAddress "web" "10.0.0.2" "80")⟩,
      ⟨8, .observe "c" "say \"hi\"" (.ofAddress "" "back\\slash" "")⟩,
      ⟨9, .observe "d" "web"
        { Descriptor.ofAddress "web" "10.0.0.1" "" with displayName := "\t", source := "\x01é" }⟩]

/-- The first of them is dead in the end. The others are visited from the last one to the first. -/
theorem services_partition_oddities :
    oddities.Reachable ∧ oddities.instances.reverse.Perm oddities.instances ∧
      ({ oddities with instances := oddities.instances.reverse }.services 14).1 =
        [("say \"hi\"", [⟨"back\\slash", "", "say \"hi\""⟩]),
          ("web", [⟨"10.0.0.1", "\x01é", "\t"⟩, ⟨"10.0.0.2:80", "", "web"⟩])] ∧
      Partitions { oddities with instances := oddities.instances.reverse } 14 :=
  ⟨⟨⟨10⟩, _, rfl⟩, List.reverse_perm _, by decide +kernel,
    services_partition ⟨⟨10⟩, _, rfl⟩ (List.reverse_perm _) 14⟩

end Registry
end ServiceDiscovery
