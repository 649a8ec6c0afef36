import ServiceDiscovery.Proofs.Store.Removals
import ServiceDiscovery.Proofs.Text.ByteOrder

/-!
# Scans of a store

A scan walks over the keys in order, begins at the first one that is not below the given
start, and ends at the first one without it.  Nothing is missed by that, whatever bytes the
start consists of: the keys that begin with it stand together.

Main results:

- Definition {lit}`Stored`: the entry that a key was last given, read off the answers.
- Theorem {lit}`recorded_after`: every entry of a store is the one that its key was last
  given.
- Theorem {lit}`scans_exactly`: a scan finds the visible keys with the given start, with
  their latest values and in the order of their bytes.
-/

namespace ServiceDiscovery
namespace MemoryStore

variable {s : MemoryStore} {now : Reading} {xs : List Exchange}

/-! ## The latest values -/

/-- An entry was stored under a key; since then nothing was stored under it, and it was not
deleted. -/
def Stored (xs : List Exchange) (key : String) (entry : Entry) : Prop :=
  Since (fun x => x.command.stored? x.answer = some (key, entry))
    (fun y => (∀ other, y.command.stored? y.answer ≠ some (key, other)) ∧
      y.command ≠ .delete key) xs

/-- A key has one latest entry at most. -/
theorem Stored.unique {key : String} {d e : Entry} (hd : Stored xs key d) (he : Stored xs key e) :
    d = e := by
  unfold Stored at hd he
  induction xs using List.reverseRecOn with
  | nil => exact absurd hd not_since_nil
  | append_singleton xs x ih =>
      rcases since_concat.mp hd with hd | ⟨hother, hd⟩ <;>
        rcases since_concat.mp he with he | ⟨hother', he⟩
      · rw [hd] at he
        exact (Prod.mk.inj (Option.some.inj he)).2
      · exact absurd hd (hother'.1 d)
      · exact absurd he (hother.1 e)
      · exact ih hd he

/-- A key was written if an entry was stored under it. -/
theorem written_iff {key : String} {bound : Option LeaseId} :
    Written xs key bound ↔ ∃ value, Stored xs key ⟨value, bound⟩ := by
  constructor
  · rintro ⟨earlier, x, later, heq, hwritten, hlater⟩
    obtain ⟨value, hstored⟩ := Command.written?_eq_some_iff.mp hwritten
    refine ⟨value, earlier, x, later, heq, hstored, ?_⟩
    intro y hy
    refine ⟨?_, (hlater y hy).2⟩
    intro other hother
    exact (hlater y hy).1 other.lease (Command.written?_eq_some_iff.mpr ⟨other.value, hother⟩)
  · rintro ⟨value, hstored⟩
    refine hstored.mono (fun x hx => Command.written?_eq_some_iff.mpr ⟨value, hx⟩) ?_
    intro y hy
    refine ⟨?_, hy.2⟩
    intro bound hwritten
    obtain ⟨value, hother⟩ := Command.written?_eq_some_iff.mp hwritten
    exact hy.1 _ hother

/-- The entries of a store are in order, and each is the one that its key was last given. -/
structure Recorded (xs : List Exchange) (s : MemoryStore) : Prop where
  ordered : Ordered s.entries
  stored : ∀ e ∈ s.entries, Stored xs e.1 e.2

theorem Recorded.empty : Recorded [] .empty where
  ordered := List.Pairwise.nil
  stored := List.forall_mem_nil _

/-- Every command keeps the record of what was stored. -/
theorem Recorded.run (h : Recorded xs s) (c : Command) (now : Reading) :
    Recorded (xs ++ [c.exchange now s]) (c.run now s).2 where
  ordered := h.ordered.run c now
  stored := by
    intro e he
    rcases stored_or_kept h.ordered he with hstored | ⟨hold, hkept⟩
    · exact since_concat.mpr (Or.inl hstored)
    · exact since_concat.mpr (Or.inr ⟨hkept, h.stored e hold⟩)

/-- Whatever a store was asked, each of its entries is the one that its key was last given. -/
theorem recorded_after (cmds : List (Reading × Command)) :
    Recorded (history cmds) (after cmds) :=
  after_induction Recorded.empty (fun _ _ c now h => h.run c now) cmds

/-! ## What can be seen -/

/-- A lease was granted or renewed, nothing has ended it since, and its deadline is still to
come. -/
def InForce (xs : List Exchange) (lease : LeaseId) (now : Reading) : Prop :=
  ∃ deadline, Due xs lease deadline ∧ now < deadline

/-- A key was last given a value, without a lease or under one that is in force. -/
def Visible (xs : List Exchange) (now : Reading) (key : String) (value : Bytes) : Prop :=
  ∃ bound, Stored xs key ⟨value, bound⟩ ∧ ∀ lease, bound = some lease → InForce xs lease now

/-- A lease is in force just as long as it is there and has not lapsed. -/
theorem Tracked.inForce_iff (h : Tracked xs s) {lease : LeaseId} :
    InForce xs lease now ↔ ∃ held, (lease, held) ∈ s.leases ∧ held.lapsed now = false := by
  constructor
  · rintro ⟨deadline, hdue, hlt⟩
    obtain ⟨held, hmem, rfl⟩ := (h.lease_iff lease deadline).mpr hdue
    exact ⟨held, hmem, lapsed_eq_false_iff.mpr hlt⟩
  · rintro ⟨held, hmem, hlive⟩
    exact ⟨held.deadline, (h.lease_iff lease held.deadline).mp ⟨held, hmem, rfl⟩,
      lapsed_eq_false_iff.mp hlive⟩

/-- What a purge leaves is what can be seen. -/
theorem Tracked.visible_iff (h : Tracked xs s) (hs : Recorded xs s) {key : String}
    {value : Bytes} : (∃ bound, (key, ⟨value, bound⟩) ∈ (s.purge now).entries) ↔
      Visible xs now key value := by
  have hwell := h.accounted.wellFormed
  constructor
  · rintro ⟨bound, hmem⟩
    refine ⟨bound, hs.stored _ (mem_entries_of_purge hwell hmem), ?_⟩
    intro lease hbound
    exact h.inForce_iff.mpr (live_of_mem_entries_purge hwell hmem hbound)
  · rintro ⟨bound, hstored, hforce⟩
    have hlease : ∀ lease, bound = some lease → lease ∈ (s.purge now).leases.map (·.1) := by
      intro lease hbound
      obtain ⟨held, hheld⟩ := h.inForce_iff.mp (hforce lease hbound)
      exact List.mem_map_of_mem ((mem_leases_purge hwell).mpr hheld)
    obtain ⟨other, hmem⟩ := (h.entry_iff key bound).mpr ⟨written_iff.mpr ⟨value, hstored⟩, by
      intro lease hbound
      obtain ⟨held, hheld, _⟩ := h.inForce_iff.mp (hforce lease hbound)
      exact List.mem_map_of_mem hheld⟩
    obtain ⟨rfl, _⟩ := Entry.mk.inj (hstored.unique (hs.stored _ hmem))
    exact ⟨bound, mem_entries_purge_of_lease hwell hmem hlease⟩

/-! ## Scans -/

/-- What a scan with some start finds in a store, after some things have happened. -/
structure Exact (xs : List Exchange) (s : MemoryStore) (now : Reading) (start : String)
    (found : Entries) : Prop where
  /-- The keys are those of all keys that begin with the bytes of the start. -/
  keys : found.map (·.1) =
    (s.keys now).1.filter fun key => (Text.utf8 start).isPrefixOf (Text.utf8 key)
  /-- Each value is the last one that its key was given. -/
  latest : ∀ e ∈ found, ∃ bound, Stored xs e.1 ⟨e.2, bound⟩
  /-- Each key comes once, in the order of the bytes. -/
  increasing : found.Pairwise fun d e => Text.utf8 d.1 < Text.utf8 e.1
  /-- As long as there are lease numbers, what is found can be told from the answers. -/
  visible : (granted xs).length < 2 ^ 63 - 1 → ∀ key value,
    (key, value) ∈ found ↔ Text.utf8 start <+: Text.utf8 key ∧ Visible xs now key value

/-- A key has a start just if its bytes begin with those of the start. -/
theorem startsWith_eq (key start : String) :
    Key.startsWith key start = (Text.utf8 start).isPrefixOf (Text.utf8 key) := by
  rw [Bool.eq_iff_iff, Key.startsWith_iff, List.isPrefixOf_iff_prefix, Text.utf8_prefix_iff]

/-- The entries that a scan finds are what it should find. -/
theorem Recorded.exact (h : Recorded xs s)
    (htracked : (granted xs).length < 2 ^ 63 - 1 → Tracked xs s) (now : Reading)
    (start : String) : Exact xs s now start ((s.purge now).found start) where
  keys := by
    rw [found, List.map_map, MemoryStore.keys, List.filter_map]
    congr 1
    refine List.filter_congr fun e _ => ?_
    exact startsWith_eq e.1 start
  latest := by
    rintro ⟨key, value⟩ he
    obtain ⟨_, bound, hmem⟩ := mem_found.mp he
    exact ⟨bound, h.stored _ ((entries_purge_sublist s now).subset hmem)⟩
  increasing := by
    refine List.Pairwise.map _ ?_ ((h.ordered.purge now).sublist List.filter_sublist)
    intro d e hlt
    exact Text.utf8_lt_iff.mpr hlt
  visible := by
    intro hroom key value
    rw [mem_found, startsWith_eq, List.isPrefixOf_iff_prefix, (htracked hroom).visible_iff h]

/-- Whatever a store was asked, and whatever the clock has shown meanwhile: unless reads were made
to fail, a scan finds all visible keys with the given start and no others, each once, in the order
of their bytes and with the value that it was last given. -/
theorem scans_exactly {cmds : List (Reading × Command)} (hget : .get ∉ (after cmds).faults)
    (now : Reading) (start : String) :
    ∃ found, ((after cmds).scan now start).1 = .ok found ∧
      Exact (history cmds) (after cmds) now start found := by
  have hrecorded := recorded_after cmds
  have hfault : (after cmds).faults.contains .get = false := by
    rw [← Bool.not_eq_true, List.contains_iff_mem]
    exact hget
  refine ⟨((after cmds).purge now).found start, ?_, hrecorded.exact tracked_after now start⟩
  rw [scan_of_ordered hrecorded.ordered hfault]

/-- Keys around one that ends in a character of two bytes: below it, above it, longer than it, and
one of them twice. Two of them are bound to leases. -/
def accented : List (Reading × Command) :=
  [(0, .grant 7), (0, .grant 9), (1, .put "/z" [1]), (1, .put "/ê" [2]), (1, .put "/é" [3]),
    (2, .putLeased "/éa" [4] ⟨1⟩), (2, .putLeased "/é🦀" [5] ⟨2⟩), (3, .put "/è" [7]),
    (3, .put "/é" [6])]

/-- The run meets the condition. After the first lease has lapsed, the key itself and the one with
the longer character are found, and none of the keys next to them. -/
theorem scans_exactly_accented :
    (∃ found, ((after accented).scan 8000000000 "/é").1 = .ok found ∧
        Exact (history accented) (after accented) 8000000000 "/é" found) ∧
      ((after accented).scan 8000000000 "/é").1 = .ok [("/é", [6]), ("/é🦀", [5])] :=
  ⟨scans_exactly (by decide +kernel) _ _, by decide +kernel⟩

end MemoryStore
end ServiceDiscovery
