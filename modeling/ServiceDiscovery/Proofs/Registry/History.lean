import Mathlib.Data.List.Basic
import Mathlib.Data.List.Induction
import ServiceDiscovery.Proofs.Registry.Sightings

/-!
# What queries answer, by what has happened

A registry forgets dead instances only when a query comes across them, and each
query comes across different ones.  None of this shows: what a query answers
follows from the sightings and the reports so far.

Main results:

- Definition {lit}`Registry.Fate`: everything that an action can do to the entry of
  a key.  Theorem {lit}`Registry.fate_of_step`: it does nothing else.
- Definition {lit}`Registry.Stands`: the last sighting of a key was not followed by a
  report of its address.
- Theorem {lit}`Registry.Recalls.run`: an entry is remembered as long as its last
  sighting stands, and longer than the expiry window if nobody asks.
- Theorem {lit}`Registry.queries_match_history`: the queries show exactly the keys
  whose last sighting stands and lies within the expiry window.
-/

namespace ServiceDiscovery

/-- The same instance, perhaps seen or picked since. -/
def Instance.Same (i j : Instance) : Prop :=
  j = { i with pickStamp := j.pickStamp, activeAt := j.activeAt }

theorem Instance.Same.refl (i : Instance) : i.Same i :=
  rfl

/-- An instance stays the same from one change to the next. -/
theorem Instance.Same.trans {i j k : Instance} (h : i.Same j) (h' : j.Same k) : i.Same k := by
  calc
    k = { j with pickStamp := k.pickStamp, activeAt := k.activeAt } := h'
    _ = { i with pickStamp := k.pickStamp, activeAt := k.activeAt } := by rw [h]

namespace Registry

variable {r : Registry} {e : Event} {key : String} {i : Instance}

/-! ## The age of a sighting -/

/-- The time since a sighting that is not in the future is the difference of the readings. -/
theorem age_toNat {now : Reading} (h : i.activeAt ≤ now) :
    (age now i).toNat = now.toNat - i.activeAt.toNat := by
  rw [age, if_pos h, UInt64.toNat_sub_of_le _ _ h]

/-- An instance is dead when the window has passed since its last sighting. -/
theorem isDead_iff {now : Reading} (h : i.activeAt ≤ now) :
    r.isDead now i = true ↔ r.window.toNat ≤ now.toNat - i.activeAt.toNat := by
  rw [isDead, decide_eq_true_eq, UInt64.le_iff_toNat_le, age_toNat h]

/-- An instance counts as long as less than the window has passed since its last sighting. -/
theorem isLive_iff {now : Reading} (h : i.activeAt ≤ now) :
    r.isLive now i = true ↔ now.toNat - i.activeAt.toNat < r.window.toNat := by
  rw [isLive, Bool.not_eq_true', ← Bool.not_eq_true, isDead_iff h, Nat.not_le]

/-! ## What becomes of an entry -/

/-- An instance is seen under a key. -/
def Event.Sees (e : Event) (key : String) : Prop :=
  ∃ name d, e.action = .observe key name d

/-- What an action can do to the entry of a key: the entry before, and the entry after. -/
inductive Fate (r : Registry) (e : Event) (key : String) :
    Option Instance → Option Instance → Prop where
  /-- The instance is seen for the first time. -/
  | found {name : String} {d : Descriptor} (h : e.action = .observe key name d) :
      Fate r e key none (some (.ofDescriptor key name d e.now))
  /-- The instance is seen again. -/
  | seen {i : Instance} (h : e.Sees key) :
      Fate r e key (some i) (some { i with activeAt := e.now })
  /-- The instance stays, perhaps with a new stamp. -/
  | kept {i : Instance} (stamp : UInt64) (unseen : ¬ e.Sees key)
      (unreported : e.action ≠ .reportDead i.address) :
      Fate r e key (some i) (some { i with pickStamp := stamp })
  /-- The instance was dead, and is forgotten. -/
  | evicted {i : Instance} (unseen : ¬ e.Sees key) (dead : r.isDead e.now i = true) :
      Fate r e key (some i) none
  | reported {i : Instance} (h : e.action = .reportDead i.address) : Fate r e key (some i) none
  | missing (unseen : ¬ e.Sees key) : Fate r e key none none

/-- What is left of an entry when some dead instances are forgotten. -/
theorem Fate.of_filter {p : Instance → Bool} (known : Option Instance) (unseen : ¬ e.Sees key)
    (unreported : ∀ address, e.action ≠ .reportDead address)
    (hp : ∀ i, p i = false → r.isDead e.now i = true) :
    Fate r e key known (known.filter p) := by
  cases known with
  | none => exact .missing unseen
  | some i =>
      cases hi : p i with
      | false =>
          rw [Option.filter_some_neg (by simp [hi])]
          exact .evicted unseen (hp i hi)
      | true =>
          rw [Option.filter_some_pos hi]
          exact .kept i.pickStamp unseen (unreported _)

/-- It makes no difference when what is left gets a new stamp. -/
theorem Fate.restamp {f : Instance → Instance} {known known' : Option Instance}
    (h : Fate r e key known known') (unseen : ¬ e.Sees key)
    (hf : ∀ i, ∃ stamp, f i = { i with pickStamp := stamp }) :
    Fate r e key known (known'.map f) := by
  cases h with
  | found hsees => exact absurd ⟨_, _, hsees⟩ unseen
  | seen hsees => exact absurd hsees unseen
  | @kept i stamp hunseen unreported =>
      obtain ⟨stamp', hstamp⟩ := hf { i with pickStamp := stamp }
      rw [Option.map_some, hstamp]
      exact .kept stamp' hunseen unreported
  | evicted hunseen dead => exact .evicted hunseen dead
  | reported hreport => exact .reported hreport
  | missing hunseen => exact .missing hunseen

/-- Every action does one of these things to the entry of a key. -/
theorem fate_of_step (hr : r.Distinct) (e : Event) (key : String) :
    Fate r e key (r.get? key) ((r.step e).get? key) := by
  have hevict (name : String) (i : Instance)
      (h : (!(i.name = name && r.isDead e.now i)) = false) : r.isDead e.now i = true := by
    simp only [Bool.not_eq_false', Bool.and_eq_true] at h
    exact h.2
  cases hservice : e.action.service? with
  | some name =>
      have unseen : ¬ e.Sees key := by
        rintro ⟨name', d, h⟩
        rw [h] at hservice
        cases hservice
      have unreported (address : String) : e.action ≠ .reportDead address := by
        intro h
        rw [h] at hservice
        cases hservice
      rw [step_of_service hservice]
      rcases select_cases r e.now name with ⟨_, hs⟩ | ⟨m, _, _, _, _, hs⟩
      · rw [hs, get?_evict hr]
        exact .of_filter _ unseen unreported (hevict name)
      · rw [hs, get?_stamp, get?_evict hr]
        apply (Fate.of_filter _ unseen unreported (hevict name)).restamp unseen
        intro i
        by_cases hkey : i.key = m.key
        · exact ⟨r.nextStamp e.now, if_pos hkey⟩
        · exact ⟨i.pickStamp, if_neg hkey⟩
  | none =>
      rcases e with ⟨now, action⟩
      cases action with
      | observe other name d =>
          simp only [step, get?_observe]
          by_cases hkey : key = other
          · subst hkey
            rw [if_pos rfl]
            cases r.get? key with
            | none => exact .found rfl
            | some i => exact .seen ⟨name, d, rfl⟩
          · have unseen : ¬ Event.Sees ⟨now, .observe other name d⟩ key := by
              rintro ⟨name', d', h⟩
              cases h
              exact hkey rfl
            rw [if_neg hkey]
            cases r.get? key with
            | none => exact .missing unseen
            | some i => exact .kept i.pickStamp unseen (by simp)
      | select | pick | pickEndpoint => cases hservice
      | candidates name =>
          simp only [step, candidates, get?_evict hr]
          exact .of_filter _ (by simp [Event.Sees]) (by simp) (hevict name)
      | addresses name =>
          simp only [step, addresses, get?_evict hr]
          exact .of_filter _ (by simp [Event.Sees]) (by simp) (hevict name)
      | services =>
          simp only [step, get?_services hr]
          refine .of_filter _ (by simp [Event.Sees]) (by simp) ?_
          intro i hi
          simpa [isLive] using hi
      | reportDead address =>
          simp only [step, get?_reportDead hr]
          cases r.get? key with
          | none => exact .missing (by simp [Event.Sees])
          | some i =>
              by_cases haddress : i.address = address
              · rw [Option.filter_some_neg (by simpa using haddress)]
                exact .reported (by rw [haddress])
              · rw [Option.filter_some_pos (by simpa using haddress)]
                refine .kept i.pickStamp (by simp [Event.Sees]) ?_
                rintro ⟨⟩
                exact haddress rfl

/-- A live instance whose address is not reported stays.  It looks as young as before, or was just
seen. -/
theorem Fate.stays {i : Instance} {known : Option Instance} (h : Fate r e key (some i) known)
    (hlive : r.isLive e.now i = true) (unreported : e.action ≠ .reportDead i.address) :
    ∃ j, known = some j ∧ i.Same j ∧ (j.activeAt = i.activeAt ∨ j.activeAt = e.now) := by
  cases h with
  | seen hseen => exact ⟨_, rfl, rfl, Or.inr rfl⟩
  | kept stamp => exact ⟨_, rfl, rfl, Or.inl rfl⟩
  | evicted unseen dead => simp [isLive, dead] at hlive
  | reported hreport => exact absurd hreport unreported

/-! ## Sightings that stand -/

/-- The last sighting of a key was at some reading, and was not followed by a report of an
address. -/
def Stands (key address : String) (es : List Event) (seen : Reading) : Prop :=
  ∃ before name d after, es = before ++ ⟨seen, .observe key name d⟩ :: after ∧
    ∀ e ∈ after, ¬ e.Sees key ∧ e.action ≠ .reportDead address

/-- A sighting stands after another action, unless the key is seen again or its address is
reported. -/
theorem stands_concat {address : String} {es : List Event} {seen : Reading} :
    Stands key address (es ++ [e]) seen ↔
      e.Sees key ∧ e.now = seen ∨
        ¬ e.Sees key ∧ e.action ≠ .reportDead address ∧ Stands key address es seen := by
  constructor
  · rintro ⟨before, name, d, after, hes, hafter⟩
    rcases List.eq_nil_or_concat after with rfl | ⟨after, last, rfl⟩
    · left
      obtain ⟨_, heq⟩ := List.append_inj' hes rfl
      cases heq
      exact ⟨⟨name, d, rfl⟩, rfl⟩
    · right
      rw [List.concat_eq_append, ← List.cons_append, ← List.append_assoc] at hes
      obtain ⟨hbefore, heq⟩ := List.append_inj' hes rfl
      cases heq
      obtain ⟨hsees, hreport⟩ := hafter e (by simp)
      refine ⟨hsees, hreport, before, name, d, after, hbefore, ?_⟩
      intro f hf
      exact hafter f (by simp [hf])
  · rintro (⟨⟨name, d, haction⟩, rfl⟩ | ⟨hsees, hreport, before, name, d, after, rfl, hafter⟩)
    · refine ⟨es, name, d, [], ?_, nofun⟩
      rw [← haction]
    · refine ⟨before, name, d, after ++ [e], by simp, ?_⟩
      intro f hf
      rcases List.mem_append.mp hf with hf | hf
      · exact hafter f hf
      · rw [List.mem_singleton.mp hf]
        exact ⟨hsees, hreport⟩

/-- Only one sighting of a key is the last one. -/
theorem Stands.unique {address : String} {es : List Event} {seen seen' : Reading}
    (h : Stands key address es seen) (h' : Stands key address es seen') : seen = seen' := by
  induction es using List.reverseRecOn with
  | nil =>
      obtain ⟨before, name, d, after, hes, _⟩ := h
      simp at hes
  | append_singleton es e ih =>
      rcases stands_concat.mp h with ⟨hsees, hnow⟩ | ⟨hunseen, _, hes⟩
      · rcases stands_concat.mp h' with ⟨_, hnow'⟩ | ⟨hunseen', _⟩
        · exact hnow.symm.trans hnow'
        · exact absurd hsees hunseen'
      · rcases stands_concat.mp h' with ⟨hsees', _⟩ | ⟨_, _, hes'⟩
        · exact absurd hsees' hunseen
        · exact ih hes hes'

/-! ## What a registry recalls -/

/-- Readings that never go back, up to the present one. -/
def Chronological (es : List Event) (now : Reading) : Prop :=
  (es.map (·.now) ++ [now]).Pairwise (· ≤ ·)

instance (es : List Event) (now : Reading) : Decidable (Chronological es now) :=
  inferInstanceAs (Decidable (List.Pairwise _ _))

/-- A key is always seen with the same name and description. -/
def Describes (about : String → String × Descriptor) (es : List Event) : Prop :=
  ∀ e ∈ es, ∀ key name d, e.action = .observe key name d → about key = (name, d)

/-- Nothing in a run is later than the present reading. -/
theorem Chronological.le {es : List Event} {now : Reading} (h : Chronological es now)
    (he : e ∈ es) : e.now ≤ now :=
  (List.pairwise_append.mp h).2.2 _ (List.mem_map_of_mem he) _ (List.mem_singleton.mpr rfl)

/-- The beginning of a run is chronological up to its last action. -/
theorem Chronological.of_concat {es : List Event} {now : Reading}
    (h : Chronological (es ++ [e]) now) : Chronological es e.now := by
  unfold Chronological at h
  rw [List.map_append] at h
  exact (List.pairwise_append.mp h).1

/-- No sighting is in the future. -/
theorem Stands.le {address : String} {es : List Event} {seen now : Reading}
    (h : Stands key address es seen) (htime : Chronological es now) : seen ≤ now := by
  obtain ⟨before, name, d, after, rfl, _⟩ := h
  exact htime.le (e := ⟨seen, .observe key name d⟩) (by simp)

/-- What a registry remembers of what has happened to it.  An entry shows what is told about its key
and when it was last seen.  A key without an entry was reported dead since it was last seen, or
that was longer ago than the expiry window. -/
structure Recalls (about : String → String × Descriptor) (r : Registry) (es : List Event)
    (now : Reading) : Prop where
  distinct : r.Distinct
  entry : ∀ key i, r.get? key = some i →
    Stands key (about key).2.address es i.activeAt ∧
      i = { Instance.ofDescriptor key (about key).1 (about key).2 i.activeAt with
            pickStamp := i.pickStamp }
  missing : ∀ key seen, r.get? key = none → Stands key (about key).2.address es seen →
    r.window.toNat ≤ now.toNat - seen.toNat

section

variable {about : String → String × Descriptor} {es : List Event} {now : Reading}

/-- The address of an entry is the one that is told about its key. -/
theorem Recalls.address (h : r.Recalls about es now) (hi : r.get? key = some i) :
    i.address = (about key).2.address := by
  rw [(h.entry key i hi).2]
  rfl

/-- A registry recalls what has happened to it as time goes on. -/
theorem Recalls.later (h : r.Recalls about es now) {later : Reading} (hle : now ≤ later) :
    r.Recalls about es later where
  distinct := h.distinct
  entry := h.entry
  missing := by
    intro key seen hkey hseen
    have hwindow := h.missing key seen hkey hseen
    rw [UInt64.le_iff_toNat_le] at hle
    omega

/-- Every action keeps a registry's memory right: it recalls that action too. -/
theorem Recalls.step (h : r.Recalls about es e.now) (htime : Chronological es e.now)
    (habout : Describes about [e]) : (r.step e).Recalls about (es ++ [e]) e.now where
  distinct := h.distinct.step e
  entry := by
    intro key j hj
    have hfate := fate_of_step h.distinct e key
    rw [hj] at hfate
    generalize hknown : r.get? key = known at hfate
    cases hfate with
    | found hsees =>
        have hkey := habout e (List.mem_singleton.mpr rfl) _ _ _ hsees
        rw [hkey]
        exact ⟨stands_concat.mpr (Or.inl ⟨⟨_, _, hsees⟩, rfl⟩), rfl⟩
    | @seen i hsees =>
        obtain ⟨_, hshows⟩ := h.entry key i hknown
        refine ⟨stands_concat.mpr (Or.inl ⟨hsees, rfl⟩), ?_⟩
        rw [hshows]
        rfl
    | @kept i stamp unseen unreported =>
        obtain ⟨hstands, hshows⟩ := h.entry key i hknown
        rw [h.address hknown] at unreported
        refine ⟨stands_concat.mpr (Or.inr ⟨unseen, unreported, hstands⟩), ?_⟩
        rw [hshows]
        rfl
  missing := by
    intro key seen hkey hseen
    have hfate := fate_of_step h.distinct e key
    rw [hkey] at hfate
    generalize hknown : r.get? key = known at hfate
    rw [window_step]
    have hbefore (hunseen : ¬ e.Sees key) :
        e.action ≠ .reportDead (about key).2.address ∧
          Stands key (about key).2.address es seen := by
      rcases stands_concat.mp hseen with ⟨hsees, _⟩ | ⟨_, hunreported, hes⟩
      · exact absurd hsees hunseen
      · exact ⟨hunreported, hes⟩
    cases hfate with
    | @evicted i unseen dead =>
        have hstands := (h.entry key i hknown).1
        rw [(hbefore unseen).2.unique hstands]
        exact (isDead_iff (hstands.le htime)).mp dead
    | @reported i hreport =>
        rw [h.address hknown] at hreport
        have hunseen : ¬ e.Sees key := by
          rintro ⟨name, d, hobserve⟩
          rw [hreport] at hobserve
          cases hobserve
        exact absurd hreport (hbefore hunseen).1
    | missing unseen => exact h.missing key seen hknown (hbefore unseen).2

/-- No run changes the expiry window. -/
theorem window_run (r : Registry) (es : List Event) : (r.run es).window = r.window := by
  induction es generalizing r with
  | nil => rfl
  | cons e es ih => exact (ih (r.step e)).trans (window_step r e)

/-- A registry recalls every run that has led to it. -/
theorem Recalls.run (window : Duration) (htime : Chronological es now)
    (habout : Describes about es) : ((empty window).run es).Recalls about es now := by
  induction es using List.reverseRecOn generalizing now with
  | nil =>
      refine ⟨Distinct.empty window, nofun, ?_⟩
      rintro key seen - ⟨before, name, d, after, hes, _⟩
      simp at hes
  | append_singleton es e ih =>
      have hbefore := ih htime.of_concat fun f hf => habout f (List.mem_append_left _ hf)
      have hstep := hbefore.step htime.of_concat fun f hf => habout f (List.mem_append_right _ hf)
      rw [run_append]
      exact hstep.later (htime.le (by simp))

/-! ## Queries -/

/-- A key of a service whose last sighting stands and lies within the expiry window. -/
def Counts (about : String → String × Descriptor) (es : List Event) (window : Duration)
    (now : Reading) (name key : String) : Prop :=
  (about key).1 = name ∧
    ∃ seen, Stands key (about key).2.address es seen ∧ now.toNat - seen.toNat < window.nanos

/-- The queries about a service show the keys that count, each of them once, and nothing else. -/
structure Exact (about : String → String × Descriptor) (r : Registry) (es : List Event)
    (window : Duration) (now : Reading) (name : String) : Prop where
  once : ((r.candidates now name).1.map (·.key)).Nodup
  keys : ∀ key, key ∈ (r.candidates now name).1.map (·.key) ↔ Counts about es window now name key
  shows : ∀ i ∈ (r.candidates now name).1, ∃ seen, Stands i.key i.address es seen ∧
    i = { Instance.ofDescriptor i.key name (about i.key).2 seen with pickStamp := i.pickStamp }
  addresses : (r.addresses now name).1 =
    ((r.candidates now name).1.map (·.key)).map fun key => (about key).2.address
  select : (∃ i ∈ (r.candidates now name).1, ∃ stamp,
      (r.select now name).1 = .ok { i with pickStamp := stamp }) ∨
    (∃ message, (r.select now name).1 = .error (.notFound message)) ∧
      ∀ key, ¬ Counts about es window now name key

/-- A report of an address removes what is there, whatever its service, and counts it. -/
structure Drops (r : Registry) (address : String) : Prop where
  entries : ∀ key, (r.reportDead address).2.get? key = (r.get? key).filter (·.address ≠ address)
  count : (r.reportDead address).1 + (r.reportDead address).2.size = r.size

/-- When keys are distinct, a report removes and counts just what is at its address. -/
theorem drops_of_distinct (hr : r.Distinct) (address : String) : r.Drops address where
  entries := get?_reportDead hr address
  count := by
    simp only [reportDead, size]
    have hcount := List.length_eq_length_filter_add (l := r.instances)
      fun i : Instance => decide (i.address = address)
    simp only [hcount, ← decide_not]

/-- The candidates of a service are the keys that count. -/
theorem Recalls.mem_keys (h : r.Recalls about es now) (htime : Chronological es now)
    {window : Duration} (hwindow : r.window.toNat = window.nanos) {name : String} :
    key ∈ (r.candidates now name).1.map (·.key) ↔ Counts about es window now name key := by
  constructor
  · intro hkey
    obtain ⟨i, hi, rfl⟩ := List.mem_map.mp hkey
    obtain ⟨hmem, hname, hlive⟩ := mem_live.mp hi
    obtain ⟨hstands, hshows⟩ := h.entry i.key i ((mem_instances_iff h.distinct).mp hmem)
    refine ⟨?_, i.activeAt, hstands, ?_⟩
    · rw [← hname, hshows]
      rfl
    · rw [← hwindow]
      exact (isLive_iff (hstands.le htime)).mp hlive
  · rintro ⟨hname, seen, hstands, hyoung⟩
    cases hi : r.get? key with
    | none =>
        have hold := h.missing key seen hi hstands
        omega
    | some i =>
        obtain ⟨hactive, hshows⟩ := h.entry key i hi
        rw [← hactive.unique hstands, ← hwindow] at hyoung
        have hlive := (isLive_iff (hactive.le htime)).mpr hyoung
        have hservice : i.name = name := by
          rw [← hname, hshows]
          rfl
        rw [← key_of_get? hi]
        exact List.mem_map_of_mem (mem_live.mpr ⟨mem_of_get? hi, hservice, hlive⟩)

/-- A registry that recalls its history answers every query about a service from it. -/
theorem Recalls.exact (h : r.Recalls about es now) (htime : Chronological es now)
    {window : Duration} (hwindow : r.window.toNat = window.nanos) (name : String) :
    r.Exact about es window now name where
  once := h.distinct.sublist (List.filter_sublist.map _)
  keys := fun _ => h.mem_keys htime hwindow
  shows := by
    intro i hi
    obtain ⟨hmem, hname, _⟩ := mem_live.mp hi
    have hget := (mem_instances_iff h.distinct).mp hmem
    obtain ⟨hstands, hshows⟩ := h.entry i.key i hget
    have hservice : (about i.key).1 = name := by
      rw [← hname, hshows]
      rfl
    rw [← h.address hget] at hstands
    rw [hservice] at hshows
    exact ⟨i.activeAt, hstands, hshows⟩
  addresses := by
    rw [List.map_map]
    apply List.map_congr_left
    intro i hi
    exact h.address ((mem_instances_iff h.distinct).mp (mem_live.mp hi).1)
  select := by
    rcases select_cases r now name with ⟨hnone, hs⟩ | ⟨i, hi, hname, hlive, _, hs⟩
    · right
      rw [hs]
      refine ⟨⟨_, rfl⟩, ?_⟩
      intro key hcounts
      have hkey := (h.mem_keys htime hwindow).mpr hcounts
      rw [candidates, hnone] at hkey
      cases hkey
    · left
      rw [hs]
      exact ⟨i, mem_live.mpr ⟨hi, hname, hlive⟩, _, rfl⟩

/-- Queries return exactly the live instances.  Let the clock never go back in a run, and let every
key always be seen with the same name and description.  Then a query about a service shows those of
its keys whose last sighting lies within the expiry window and was not followed by a report of its
address; each of them once, as it was seen, and nothing else.  A pick takes one of them, and finds
nothing just when there is none.  A report removes whatever is at its address, and counts it. -/
theorem queries_match_history (window : Duration) (hwindow : window.nanos < 2 ^ 64)
    (htime : Chronological es now) (habout : Describes about es) :
    (∀ name, ((empty window).run es).Exact about es window now name) ∧
      ∀ address, ((empty window).run es).Drops address := by
  have hrecalls := Recalls.run window htime habout
  have hword : ((empty window).run es).window.toNat = window.nanos := by
    rw [window_run]
    exact UInt64.toNat_ofNat_of_lt' hwindow
  constructor
  · exact hrecalls.exact htime hword
  · exact drops_of_distinct hrecalls.distinct

end

/-! ## A run with a report -/

/-- Three instances of one service, each at the address that is its key. -/
def threefold (key : String) : String × Descriptor :=
  ("web", .ofAddress "web" key "")

/-- One of them is seen. -/
def sighted (now : Reading) (key : String) : Event :=
  ⟨now, .observe key (threefold key).1 (threefold key).2⟩

/-- The first instance is seen once, the second one is reported and comes back, and the third one is
reported last. -/
def sightings : List Event :=
  [sighted 1 "a", sighted 1 "b", sighted 2 "c", ⟨5, .pick "web"⟩, ⟨6, .reportDead "b"⟩,
    sighted 8 "c", ⟨11, .services⟩, sighted 12 "b", ⟨13, .reportDead "c"⟩]

theorem describes_sightings : Describes threefold sightings := by
  intro e he key name d h
  simp only [sightings, List.mem_cons, List.not_mem_nil, or_false] at he
  rcases he with rfl | rfl | rfl | rfl | rfl | rfl | rfl | rfl | rfl
  all_goals cases h
  all_goals rfl

/-- With an expiry window of ten nanoseconds only the second one is left in the end. -/
theorem queries_match_history_returned :
    (((empty ⟨10⟩).run sightings).candidates 14 "web").1.map (·.key) = ["b"] ∧
      ((empty ⟨10⟩).run sightings).Exact threefold sightings ⟨10⟩ 14 "web" :=
  ⟨by decide +kernel,
    (queries_match_history ⟨10⟩ (by decide) (by decide +kernel) describes_sightings).1 "web"⟩

end Registry
end ServiceDiscovery
