import Mathlib.Data.List.Induction
import ServiceDiscovery.Proofs.Registry.Runs

/-!
# Stamps of picks

Every pick takes a stamp from the one counter of a registry, whatever the service.  The
next stamp is one more than the last one, or the clock's reading if that is greater; so a
clock that stands still or goes back does no harm, and stamps repeat only once there is no
greater word.

Main results:

- Theorem {lit}`lastStamp_lt_or`: the next stamp is greater than the last one, or it is the
  last word.
- Theorem {lit}`stamp_step_cases`: where the stamp of an entry comes from.
- Theorem {lit}`stamped_run`: the stamps in a registry, and those that were handed out, after
  any run and with any clock.
-/

namespace ServiceDiscovery
namespace Registry

variable {r : Registry} {e : Event} {stamps : List (Reading × UInt64)}

/-! ## The next stamp -/

/-- The greatest word. -/
def lastWord : UInt64 :=
  UInt64.ofNat (2 ^ 64 - 1)

theorem le_lastWord (n : UInt64) : n ≤ lastWord := by
  rw [UInt64.le_iff_toNat_le]
  exact Nat.le_of_lt_succ n.toNat_lt

/-- The next stamp is not before the clock. -/
theorem now_le_nextStamp (r : Registry) (now : Reading) : now ≤ r.nextStamp now := by
  rw [nextStamp, max_eq_ite]
  split
  · exact UInt64.le_refl now
  · exact UInt64.le_of_lt (UInt64.not_le.mp ‹_›)

/-- The next stamp is greater than the last one, unless there is nothing greater. -/
theorem lastStamp_lt_or (r : Registry) (now : Reading) :
    r.lastStamp < r.nextStamp now ∨ r.nextStamp now = lastWord := by
  by_cases h : (r.nextStamp now).toNat < 2 ^ 64 - 1
  · exact Or.inl (lastStamp_lt_nextStamp h)
  · right
    have hlast : lastWord ≤ r.nextStamp now :=
      UInt64.le_iff_toNat_le.mpr (Nat.le_of_not_lt h)
    exact UInt64.le_antisymm (le_lastWord _) hlast

/-- A stamp that was handed out before, or taken from an entry, comes before the next one, or both
are the last word. -/
theorem lt_nextStamp_or {stamp : UInt64} (h : stamp ≤ r.lastStamp) (now : Reading) :
    stamp < r.nextStamp now ∨ stamp = lastWord ∧ r.nextStamp now = lastWord := by
  rcases lastStamp_lt_or r now with hlt | htop
  · exact Or.inl (UInt64.lt_of_le_of_lt h hlt)
  · rcases UInt64.lt_or_eq_of_le (le_lastWord stamp) with hlt | heq
    · exact Or.inl (htop ▸ hlt)
    · exact Or.inr ⟨heq, htop⟩

/-! ## Stamps that are handed out -/

/-- The stamp that an action hands out, with the reading at which it does so. -/
def issue? (r : Registry) (e : Event) : Option (Reading × UInt64) :=
  (r.picked? e).map fun i => (e.now, i.pickStamp)

/-- The stamps that a run hands out, in turn, to whatever service. -/
def issued (r : Registry) (es : List Event) : List (Reading × UInt64) :=
  (r.steps es).filterMap fun p => p.1.issue? p.2

theorem issued_concat (r : Registry) (es : List Event) (e : Event) :
    r.issued (es ++ [e]) = r.issued es ++ ((r.run es).issue? e).toList := by
  rw [issued, steps_concat, List.filterMap_append]
  cases h : (r.run es).issue? e with
  | none => simp [issued, h]
  | some s => simp [issued, h]

/-- A pick hands out the next stamp, and the counter goes on with it. -/
theorem issue_cases (r : Registry) (e : Event) :
    r.issue? e = none ∧ (r.step e).lastStamp = r.lastStamp ∨
      r.issue? e = some (e.now, r.nextStamp e.now) ∧
        (r.step e).lastStamp = r.nextStamp e.now := by
  rw [lastStamp_step]
  cases hservice : e.action.service? with
  | none =>
      have hnone : r.picked? e = none := by rw [picked?, hservice, Option.bind_none]
      exact Or.inl (by simp [issue?, hnone])
  | some name =>
      rw [issue?, picked?_of_service hservice]
      rcases select_cases r e.now name with ⟨_, hs⟩ | ⟨i, _, _, _, _, hs⟩
      · rw [hs]
        exact Or.inl ⟨rfl, rfl⟩
      · rw [hs]
        exact Or.inr ⟨rfl, rfl⟩

/-! ## Stamps of entries -/

/-- An entry was never picked, was picked just now, or was there before with the same stamp. -/
theorem stamp_step_cases (hr : r.Distinct) {j : Instance} (hj : j ∈ (r.step e).instances) :
    j.pickStamp = 0 ∨
      r.pickedKey? e = some j.key ∧ j.pickStamp = r.nextStamp e.now ∨
      ∃ i ∈ r.instances, i.key = j.key ∧ i.pickStamp = j.pickStamp := by
  have hfound : (r.step e).get? j.key = some j := (mem_instances_iff (hr.step e)).mp hj
  cases hi : r.get? j.key with
  | none => exact Or.inl (stamp_of_new hr hi hfound)
  | some i =>
      have hkept := kept_of_step hr hi hfound
      by_cases hp : r.pickedKey? e = some j.key
      · exact Or.inr (Or.inl ⟨hp, hkept.picked hp⟩)
      · exact Or.inr (Or.inr ⟨i, mem_of_get? hi, key_of_get? hi, (hkept.unpicked hp).symm⟩)

/-- The stamps in a registry, and those that it has handed out. -/
structure Stamped (r : Registry) (stamps : List (Reading × UInt64)) : Prop where
  distinct : r.Distinct
  /-- No entry has a stamp later than the counter. -/
  bounded : ∀ i ∈ r.instances, i.pickStamp ≤ r.lastStamp
  /-- Entries that were picked have different stamps, unless these are the last word. -/
  unique : ∀ i ∈ r.instances, ∀ j ∈ r.instances, i ≠ j → i.pickStamp = j.pickStamp →
    i.pickStamp ≠ 0 → i.pickStamp = lastWord
  /-- A stamp is not before the clock's reading at which it was handed out. -/
  timely : ∀ s ∈ stamps, s.1 ≤ s.2
  /-- Stamps get greater and greater, up to the last word. -/
  increasing : stamps.Pairwise fun s t => s.2 < t.2 ∨ s.2 = lastWord ∧ t.2 = lastWord
  /-- No stamp was handed out that is later than the counter. -/
  spent : ∀ s ∈ stamps, s.2 ≤ r.lastStamp

theorem Stamped.empty (window : Duration) : Stamped (empty window) [] where
  distinct := Distinct.empty window
  bounded := List.forall_mem_nil _
  unique := List.forall_mem_nil _
  timely := List.forall_mem_nil _
  increasing := List.Pairwise.nil
  spent := List.forall_mem_nil _

theorem Stamped.bounded_step (h : Stamped r stamps) (e : Event) :
    ∀ j ∈ (r.step e).instances, j.pickStamp ≤ (r.step e).lastStamp := by
  have hsound : r.Sound := ⟨h.distinct, fun k i hi => h.bounded i (mem_of_get? hi)⟩
  intro j hj
  exact (hsound.step e).stamped j.key j ((mem_instances_iff (h.distinct.step e)).mp hj)

/-- Only the last word can be the stamp of an entry and the next stamp as well. -/
theorem Stamped.eq_lastWord_of_next (h : Stamped r stamps) {i : Instance} (hi : i ∈ r.instances)
    {now : Reading} (hnext : i.pickStamp = r.nextStamp now) : i.pickStamp = lastWord := by
  rcases lt_nextStamp_or (h.bounded i hi) now with hlt | ⟨htop, _⟩
  · rw [hnext] at hlt
    exact absurd hlt (UInt64.lt_irrefl _)
  · exact htop

theorem Stamped.unique_step (h : Stamped r stamps) (e : Event) :
    ∀ i ∈ (r.step e).instances, ∀ j ∈ (r.step e).instances, i ≠ j →
      i.pickStamp = j.pickStamp → i.pickStamp ≠ 0 → i.pickStamp = lastWord := by
  intro i hi j hj hne heq hpicked
  have hkeys : i.key ≠ j.key := by
    intro hkey
    have hifound := (mem_instances_iff (h.distinct.step e)).mp hi
    have hjfound := (mem_instances_iff (h.distinct.step e)).mp hj
    rw [hkey, hjfound] at hifound
    exact hne (Option.some.inj hifound).symm
  rcases stamp_step_cases h.distinct hi with hzero | ⟨hi, hinext⟩ | ⟨a, ha, hakey, hastamp⟩
  · exact absurd hzero hpicked
  · rcases stamp_step_cases h.distinct hj with hzero | ⟨hj, _⟩ | ⟨b, hb, _, hbstamp⟩
    · exact absurd (heq.trans hzero) hpicked
    · exact absurd (Option.some.inj (hi.symm.trans hj)) hkeys
    · rw [heq, ← hbstamp]
      exact h.eq_lastWord_of_next hb (hbstamp.trans (heq.symm.trans hinext))
  · rcases stamp_step_cases h.distinct hj with hzero | ⟨_, hjnext⟩ | ⟨b, hb, hbkey, hbstamp⟩
    · exact absurd (heq.trans hzero) hpicked
    · rw [← hastamp]
      exact h.eq_lastWord_of_next ha (hastamp.trans (heq.trans hjnext))
    · -- Both entries were there before, under the same keys as now.
      rw [← hastamp] at heq hpicked ⊢
      rw [← hbstamp] at heq
      refine h.unique a ha b hb ?_ heq hpicked
      rintro rfl
      exact hkeys (hakey.symm.trans hbkey)

/-- An action keeps all that is known of stamps, with the stamp that it hands out. -/
theorem Stamped.step (h : Stamped r stamps) (e : Event) :
    Stamped (r.step e) (stamps ++ (r.issue? e).toList) := by
  have hspent : ∀ s ∈ stamps, s.2 ≤ (r.step e).lastStamp := fun s hs =>
    UInt64.le_trans (h.spent s hs) (lastStamp_le_step r e)
  rcases issue_cases r e with ⟨hnone, _⟩ | ⟨hsome, hlast⟩
  · rw [hnone, Option.toList_none, List.append_nil]
    exact ⟨h.distinct.step e, h.bounded_step e, h.unique_step e, h.timely, h.increasing, hspent⟩
  · rw [hsome, Option.toList_some]
    refine ⟨h.distinct.step e, h.bounded_step e, h.unique_step e, ?_, ?_, ?_⟩
    · rw [List.forall_mem_append, List.forall_mem_singleton]
      exact ⟨h.timely, now_le_nextStamp r e.now⟩
    · rw [List.pairwise_append]
      refine ⟨h.increasing, List.pairwise_singleton _ _, ?_⟩
      intro s hs t ht
      rw [List.mem_singleton.mp ht]
      exact lt_nextStamp_or (h.spent s hs) e.now
    · rw [List.forall_mem_append, List.forall_mem_singleton, hlast]
      exact ⟨hlast ▸ hspent, UInt64.le_refl _⟩

/-- Whatever is done to a registry, and whatever the clock shows meanwhile: no entry has a stamp
later than the counter, entries that were picked have different stamps, each stamp that was handed
out is not before the clock, and each is greater than those before it.  Stamps repeat only once
the last word is reached. -/
theorem stamped_run (window : Duration) (es : List Event) :
    Stamped ((empty window).run es) ((empty window).issued es) := by
  induction es using List.reverseRecOn with
  | nil => exact Stamped.empty window
  | append_singleton es e ih =>
      rw [run_append, issued_concat]
      exact ih.step e

/-- The clock stands still, goes back and jumps to its end.  The stamps go on one by one, and the
last word is handed out twice. -/
example :
    let seen (key name : String) : Action := .observe key name (.ofAddress name "ip" "")
    ((empty (.ofSeconds 9)).issued
      [⟨5, seen "a" "x"⟩, ⟨5, seen "b" "y"⟩, ⟨5, .select "x"⟩, ⟨5, .pick "y"⟩, ⟨3, .select "x"⟩,
        ⟨lastWord, seen "a" "x"⟩, ⟨lastWord, .select "x"⟩, ⟨5, .select "y"⟩]) =
      [(5, 5), (5, 6), (3, 7), (lastWord, lastWord), (5, lastWord)] := by
  decide +kernel

end Registry
end ServiceDiscovery
