import ServiceDiscovery.Proofs.Registry.History
import ServiceDiscovery.Proofs.Schedule.Timing
import ServiceDiscovery.Proofs.Store.Removals

/-!
# Spans that fit into words

Deadlines and expiry windows are nanoseconds in one word.  A span that does not fit
wraps, and then a lease lapses, or an instance dies, before its time.  Which spans fit
depends on the length of the lease and the reading at which it is extended; for a window
on nothing but its length.

Main results:

- Theorem {lit}`MemoryStore.lastsOut_iff`: the leases that last as long as they were
  granted.
- Theorem {lit}`Lease.unwrapped_iff`: nothing wraps just for these.
- Theorem {lit}`Registry.judges_iff`: the windows for which instances live as long as
  they should.
-/

namespace ServiceDiscovery

/-- The last reading that a clock can show. -/
theorem toNat_lastReading : (UInt64.ofNat (2 ^ 64 - 1)).toNat = 2 ^ 64 - 1 :=
  toNat_ofNat (by decide)

/-! ## Leases -/

namespace MemoryStore

variable {ttl : Int64} {now : Reading}

/-- Whenever a lease of some length is granted or renewed at a reading, it is live at each reading
from then on until its length is over, whatever else the store is asked in that time, unless it is
extended again or ended by its number. -/
def LastsOut (ttl : Int64) (now : Reading) : Prop :=
  ∀ (cmds : List (Reading × Command)) (lease : LeaseId) (later : Reading),
    (granted (history cmds)).length < 2 ^ 63 - 1 → (lease, ttl) ∈ grantedFor (history cmds) →
    Since (fun x => x.Extends lease ∧ x.now = now)
      (fun y => ¬ y.Extends lease ∧ ¬ y.Drops lease ∧ y.now.toNat < now.toNat + lasting ttl)
      (history cmds) →
    now ≤ later → later.toNat < now.toNat + lasting ttl → (after cmds).Live lease later

theorem lastsOut_of_fits (hfits : now.toNat + lasting ttl < 2 ^ 64) : LastsOut ttl now := by
  intro cmds lease later hgrants hgranted hsince _ hlater
  have hdeadline := granted_deadline_eq hfits
  have hdue : Due (history cmds) lease (Lease.granted ttl now).deadline := by
    refine ⟨ttl, hgranted, hsince.mono ?_ ?_⟩
    · rintro x ⟨hextends, rfl⟩
      exact ⟨hextends, rfl⟩
    · rintro y ⟨hextends, hdrops, hnow⟩
      refine ⟨hextends, hdrops, fun _ => ?_⟩
      rw [UInt64.lt_iff_toNat_lt, hdeadline]
      exact hnow
  obtain ⟨held, hmem, heq⟩ := ((tracked_after hgrants).lease_iff lease _).mpr hdue
  refine ⟨held, hmem, lapsed_eq_false_iff.mpr ?_⟩
  rw [heq, UInt64.lt_iff_toNat_lt, hdeadline]
  exact hlater

/-- No lease outlasts the last reading. -/
theorem not_live_lastReading (s : MemoryStore) (lease : LeaseId) :
    ¬ s.Live lease (UInt64.ofNat (2 ^ 64 - 1)) := by
  rintro ⟨held, _, hlive⟩
  have hdeadline := held.deadline.toNat_lt
  rw [lapsed_eq_false_iff, UInt64.lt_iff_toNat_lt, toNat_lastReading] at hlive
  omega

/-- What happens when the first thing that a store is asked for is a lease. -/
theorem grant_first (httl : 0 < ttl) (now : Reading) :
    (MemoryStore.empty.grant now ttl).1 = .ok ⟨1⟩ := by
  have hpositive : ¬ ttl ≤ 0 := Int64.not_le.mpr httl
  rw [grant, guarded, if_neg (by decide), if_neg hpositive]
  rfl

/-- A lease lasts as long as it was granted just if its deadline fits into a word: past the last
reading there is nothing for which it could last. -/
theorem lastsOut_iff (httl : 0 < ttl) (now : Reading) :
    LastsOut ttl now ↔ now.toNat + lasting ttl < 2 ^ 64 := by
  constructor
  · intro hlasts
    by_contra hlong
    have hgrant := grant_first httl now
    have hnow := now.toNat_lt
    have hhistory : history [(now, .grant ttl)] = [(Command.grant ttl).exchange now .empty] := rfl
    have hgranted : grantedFor (history [(now, .grant ttl)]) = [(⟨1⟩, ttl)] := by
      simp [hhistory, grantedFor, Command.exchange, Command.run, Command.granted?, hgrant]
    have hextends : ((Command.grant ttl).exchange now .empty).Extends ⟨1⟩ := by
      simp [Exchange.Extends, Command.exchange, Command.run, Command.extended?, hgrant]
    refine not_live_lastReading _ _ (hlasts [(now, .grant ttl)] ⟨1⟩ _ ?_ ?_ ?_ ?_ ?_)
    · rw [← map_fst_grantedFor, hgranted]
      exact (by decide : 1 < 2 ^ 63 - 1)
    · rw [hgranted]
      exact List.mem_singleton_self _
    · exact ⟨[], _, [], hhistory, ⟨hextends, rfl⟩, List.forall_mem_nil _⟩
    · rw [UInt64.le_iff_toNat_le, toNat_lastReading]
      omega
    · rw [toNat_lastReading]
      omega
  · exact lastsOut_of_fits

end MemoryStore

namespace Lease

/-- Nothing wraps when a lease of some length is granted or renewed at a reading: neither its span
nor its deadline, nor the milliseconds between two renewals. -/
structure Unwrapped (ttl : Int64) (now : Reading) : Prop where
  span : (span ttl).toNat = MemoryStore.lasting ttl
  deadline : (granted ttl now).deadline.toNat = now.toNat + (Lease.span ttl).toNat
  period : (renewalPeriod ttl).nanos = max (ttl.toInt.toNat * 1000 / 3) 1 * 1000000

/-- A positive number of seconds is the same with and without a sign. -/
theorem toNat_toUInt64 {ttl : Int64} (httl : 0 < ttl) : ttl.toUInt64.toNat = ttl.toInt.toNat := by
  have hpositive : 0 < ttl.toInt := by
    rw [Int64.lt_iff_toInt_lt, Int64.toInt_zero] at httl
    exact httl
  have hbits : ttl.toUInt64.toNat = ttl.toBitVec.toNat := rfl
  have hsigned := BitVec.toInt_eq_toNat_cond ttl.toBitVec
  have hlt := ttl.toBitVec.isLt
  rw [Int64.toInt_toBitVec] at hsigned
  rw [hbits]
  split at hsigned <;> omega

theorem unwrapped_iff {ttl : Int64} (httl : 0 < ttl) (now : Reading) :
    Unwrapped ttl now ↔ now.toNat + MemoryStore.lasting ttl < 2 ^ 64 := by
  constructor
  · intro h
    have hlt := (granted ttl now).deadline.toNat_lt
    rw [h.deadline, h.span] at hlt
    exact hlt
  · intro hfits
    have hspan : (span ttl).toNat = MemoryStore.lasting ttl :=
      Duration.word_toNat (Nat.lt_of_le_of_lt (Nat.le_add_left _ _) hfits)
    refine ⟨hspan, ?_, ?_⟩
    · rw [MemoryStore.granted_deadline_eq hfits, hspan]
    · have hmillis : ttl.toUInt64.toNat * 1000 < 2 ^ 64 := by
        have hnanos : now.toNat + ttl.toInt.toNat * 1000000000 < 2 ^ 64 := hfits
        rw [toNat_toUInt64 httl]
        omega
      rw [renewalPeriod_nanos hmillis, toNat_toUInt64 httl]

end Lease

/-! ## Expiry windows -/

namespace Registry

variable {window : Duration}

/-- Whatever has happened to a registry with some expiry window, its instances live as long as the
time since their last sighting is shorter than the window. -/
def Judges (window : Duration) : Prop :=
  ∀ (es : List Event) (now : Reading), ∀ i ∈ ((empty window).run es).instances, i.activeAt ≤ now →
    (((empty window).run es).isLive now i = true ↔ now.toNat - i.activeAt.toNat < window.nanos)

theorem judges_of_fits (hfits : window.nanos < 2 ^ 64) : Judges window := by
  intro es now i _ hactive
  rw [isLive_iff hactive, window_run]
  exact iff_of_eq (congrArg _ (Duration.word_toNat hfits))

/-- Instances live as long as they should just if the window fits into a word: what was seen at zero
is dead at the last reading, for which a longer window would not do. -/
theorem judges_iff : Judges window ↔ window.nanos < 2 ^ 64 := by
  constructor
  · intro hjudges
    by_contra hlong
    let seen : Event := ⟨0, .observe "" "" (.ofAddress "" "" "")⟩
    have hseen := hjudges [seen] (UInt64.ofNat (2 ^ 64 - 1)) _ (List.mem_singleton_self _)
      UInt64.zero_le
    have hlive := hseen.mpr (by rw [toNat_lastReading]; omega)
    rw [isLive_iff UInt64.zero_le, toNat_lastReading] at hlive
    have hwindow : 2 ^ 64 - 1 < window.word.toNat := hlive
    have hlt := window.word.toNat_lt
    omega
  · exact judges_of_fits

/-- With a longer window that fits, nothing dies earlier. -/
theorem isLive_of_longer {longer : Duration} (hle : window.nanos ≤ longer.nanos)
    (hfits : longer.nanos < 2 ^ 64) {now : Reading} {i : Instance}
    (h : (empty window).isLive now i = true) : (empty longer).isLive now i = true := by
  have hword : window.word ≤ longer.word := by
    rw [UInt64.le_iff_toNat_le, Duration.word_toNat hfits,
      Duration.word_toNat (Nat.lt_of_le_of_lt hle hfits)]
    exact hle
  rw [isLive, isDead, Bool.not_eq_true', decide_eq_false_iff_not, UInt64.not_le] at h ⊢
  exact UInt64.lt_of_lt_of_le h hword

end Registry

/-! ## Every span -/

/-- Which spans of time are exact. A lease that is granted or renewed at a reading is live for as
long as it was granted, and nothing wraps on the way, just if its deadline fits into a word; and
instances live for the length of the expiry window just if the window does. Among windows that fit,
nothing dies earlier with a longer one. -/
theorem exact_iff_fits {ttl : Int64} (httl : 0 < ttl) (now : Reading) (window : Duration) :
    (MemoryStore.LastsOut ttl now ↔ now.toNat + MemoryStore.lasting ttl < 2 ^ 64) ∧
      (Lease.Unwrapped ttl now ↔ now.toNat + MemoryStore.lasting ttl < 2 ^ 64) ∧
      (Registry.Judges window ↔ window.nanos < 2 ^ 64) ∧
      ∀ shorter : Duration, shorter.nanos ≤ window.nanos → window.nanos < 2 ^ 64 →
        ∀ (later : Reading) (i : Instance), (Registry.empty shorter).isLive later i = true →
          (Registry.empty window).isLive later i = true :=
  ⟨MemoryStore.lastsOut_iff httl now, Lease.unwrapped_iff httl now, Registry.judges_iff,
    fun _ hle hfits _ _ => Registry.isLive_of_longer hle hfits⟩

/-- Half a minute is exact, for a lease as for a window. -/
theorem exact_iff_fits_thirty :
    (0 : Int64) < 30 ∧ MemoryStore.LastsOut 30 1000000000000 ∧
      Lease.Unwrapped 30 1000000000000 ∧ Registry.Judges (.ofSeconds 30) := by
  obtain ⟨hlease, hwords, hwindow, _⟩ :=
    exact_iff_fits (by decide : (0 : Int64) < 30) 1000000000000 (.ofSeconds 30)
  exact ⟨by decide, hlease.mpr (by decide), hwords.mpr (by decide), hwindow.mpr (by decide)⟩

/-- A lease of some six hundred years lapses within a second, and is not counted any more then. An
expiry window that is as long is over at once, while a window of one nanosecond is not. -/
theorem lapses_early :
    ¬ MemoryStore.LastsOut 18446744074 1000000000000 ∧
      ((MemoryStore.empty.grant 1000000000000 18446744074).2.leaseCount 1001000000000).1 = 0 ∧
      ¬ Registry.Judges ⟨18446744073709551616⟩ ∧
      ∀ i : Instance,
        (Registry.empty ⟨18446744073709551616⟩).isLive i.activeAt i = false ∧
          (Registry.empty ⟨1⟩).isLive i.activeAt i = true := by
  refine ⟨?_, by decide +kernel, ?_, ?_⟩
  · rw [MemoryStore.lastsOut_iff (by decide)]
    decide
  · rw [Registry.judges_iff]
    decide
  · intro i
    constructor
    · have hzero : (Registry.empty ⟨18446744073709551616⟩).window = 0 := by decide
      rw [← Bool.not_eq_true, Registry.isLive_iff (UInt64.le_refl _), hzero]
      exact Nat.not_lt_zero _
    · have hone : (Registry.empty ⟨1⟩).window = 1 := by decide
      rw [Registry.isLive_iff (UInt64.le_refl _), hone, Nat.sub_self]
      decide

end ServiceDiscovery
