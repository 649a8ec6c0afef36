import ServiceDiscovery.Proofs.Schedule.OpenRuns

/-!
# Milliseconds, readings and deadlines

Time passes in whole milliseconds, clocks show nanoseconds in one word, and
leases last for whole seconds. As long as the word does not overflow, all three
are the same time.

Main results:

- Theorem {lit}`Environment.now_toNat`: what a running clock shows.
- Theorems {lit}`Terms.toInt_ttl` and {lit}`Terms.renewalPeriod_nanos`: the
  seconds of a lease, and the nanoseconds between two renewals of it.
- Theorem {lit}`Ticker.Paced.take`: a ticker that is taken when it is due comes
  due again no later than one period after that.
-/

namespace ServiceDiscovery

/-! ## Words -/

theorem toNat_ofNat {n : Nat} (h : n < 2 ^ 64) : (UInt64.ofNat n).toNat = n :=
  UInt64.toNat_ofNat_of_lt' h

/-- A duration that fits into a word is that many nanoseconds there. -/
theorem Duration.word_toNat {d : Duration} (h : d.nanos < 2 ^ 64) : d.word.toNat = d.nanos :=
  toNat_ofNat h

/-- A number below the sign bit stays the same as a signed word. -/
theorem toInt_toInt64_ofNat {n : Nat} (h : n < 2 ^ 63) :
    (UInt64.ofNat n).toInt64.toInt = n := by
  have hnat : (UInt64.ofNat n).toBitVec.toNat = n := toNat_ofNat (by omega)
  rw [← Int64.toInt_toBitVec, UInt64.toBitVec_toInt64, BitVec.toInt_eq_toNat_of_lt, hnat]
  rw [hnat]
  omega

/-- What a running clock shows. -/
theorem Environment.now_toNat {env : Environment} {origin : Reading}
    (hclock : env.clock = .running origin) (hfit : origin.toNat + env.time * 1000000 < 2 ^ 64) :
    env.now.toNat = origin.toNat + env.time * 1000000 := by
  have hword : (Duration.ofMillis env.time).word.toNat = env.time * 1000000 := by
    apply Duration.word_toNat
    simp only [Duration.ofMillis, Duration.nanosPerMilli]
    omega
  rw [Environment.now, hclock]
  simp only [Clock.running, Clock.read, if_true]
  rw [UInt64.toNat_add, hword]
  exact Nat.mod_eq_of_lt hfit

/-- The greater of two words is the greater number. -/
theorem toNat_max (m n : UInt64) : (max m n).toNat = max m.toNat n.toNat := by
  rw [show max m n = if m ≤ n then n else m from rfl, Nat.max_def]
  simp only [UInt64.le_iff_toNat_le]
  split <;> rfl

/-- How often a lease is renewed, if its milliseconds fit into a word. -/
theorem Lease.renewalPeriod_nanos {ttl : Int64} (h : ttl.toUInt64.toNat * 1000 < 2 ^ 64) :
    (Lease.renewalPeriod ttl).nanos = max (ttl.toUInt64.toNat * 1000 / 3) 1 * 1000000 := by
  have hthousand : (1000 : UInt64).toNat = 1000 := by decide
  have hthree : (3 : UInt64).toNat = 3 := by decide
  have hone : (1 : UInt64).toNat = 1 := by decide
  have hthird : (ttl.toUInt64 * 1000 / 3).toNat = ttl.toUInt64.toNat * 1000 / 3 := by
    rw [UInt64.toNat_div, UInt64.toNat_mul, hthousand, hthree, Nat.mod_eq_of_lt h]
  rw [Lease.renewalPeriod, Duration.ofMillis, toNat_max, hthird, hone, Duration.nanosPerMilli]

/-! ## The lease of an attempt -/

namespace Terms

/-- The whole seconds for which an attempt is granted its lease. -/
def seconds (terms : Terms) : Nat :=
  max terms.leaseTtl.seconds 1

/-- These seconds, as the store is told. -/
def ttl (terms : Terms) : Int64 :=
  Registration.wholeSeconds terms.leaseTtl

/-- The milliseconds after which a call is given up. -/
def patience (terms : Terms) : Nat :=
  terms.callTimeout.ceilMillis

/-- The milliseconds between two renewals. -/
def renewalMillis (terms : Terms) : Nat :=
  max (terms.seconds * 1000 / 3) 1

variable {terms : Terms}

/-- No lease is granted for less than a second. -/
theorem seconds_pos (terms : Terms) : 1 ≤ terms.seconds :=
  Nat.le_max_right _ _

/-- The store is told the seconds as they are, if their nanoseconds fit into a word. -/
theorem toInt_ttl (h : terms.seconds * 1000000000 < 2 ^ 64) : terms.ttl.toInt = terms.seconds :=
  toInt_toInt64_ofNat (by have := h; simp only [seconds] at this; omega)

/-- The store is asked for a positive number of seconds. -/
theorem ttl_pos (h : terms.seconds * 1000000000 < 2 ^ 64) : 0 < terms.ttl := by
  have := terms.seconds_pos
  rw [Int64.lt_iff_toInt_lt, toInt_ttl h, Int64.toInt_zero]
  omega

/-- The lease lasts for as many nanoseconds as its seconds have. -/
theorem span_ttl (h : terms.seconds * 1000000000 < 2 ^ 64) :
    (Lease.span terms.ttl).toNat = terms.seconds * 1000000000 := by
  rw [Lease.span, toInt_ttl h, Int.toNat_natCast]
  exact Duration.word_toNat h

/-- The deadline of a lease that is granted or renewed now. -/
theorem deadline_granted {now : Reading}
    (hfit : now.toNat + terms.seconds * 1000000000 < 2 ^ 64) :
    (Lease.granted terms.ttl now).deadline.toNat = now.toNat + terms.seconds * 1000000000 := by
  have hseconds : terms.seconds * 1000000000 < 2 ^ 64 := by omega
  have hspan := span_ttl hseconds
  rw [Lease.granted, UInt64.toNat_add, hspan]
  exact Nat.mod_eq_of_lt hfit

theorem toNat_ttl (h : terms.seconds * 1000000000 < 2 ^ 64) :
    terms.ttl.toUInt64.toNat = terms.seconds := by
  have hfit : terms.seconds < 2 ^ 64 := by omega
  rw [ttl, Registration.wholeSeconds, UInt64.toUInt64_toInt64]
  exact toNat_ofNat hfit

/-- A lease is renewed three times while it lasts, in whole milliseconds. -/
theorem renewalPeriod_nanos (h : terms.seconds * 1000000000 < 2 ^ 64) :
    (Lease.renewalPeriod terms.ttl).nanos = terms.renewalMillis * 1000000 := by
  have hfit : terms.ttl.toUInt64.toNat * 1000 < 2 ^ 64 := by
    rw [toNat_ttl h]
    exact Nat.lt_of_le_of_lt (Nat.mul_le_mul_left _ (by decide)) h
  rw [Lease.renewalPeriod_nanos hfit, toNat_ttl h, renewalMillis]

end Terms

/-! ## Tickers -/

/-- A ticker that comes due no later than one period after some millisecond. -/
structure Ticker.Paced (terms : Terms) (since : Nat) (ticker : Ticker) : Prop where
  missed : ticker.missed = .delay
  period : ticker.period = terms.renewalMillis * 1000000
  deadline : ticker.deadline ≤ (since + terms.renewalMillis) * 1000000

/-- A ticker is due at a millisecond just if its deadline is not after it. -/
theorem Ticker.dueAt_le_iff {ticker : Ticker} {time : Nat} :
    ticker.dueAt ≤ time ↔ ticker.deadline ≤ time * 1000000 := by
  simp only [Ticker.dueAt, Duration.ceilMillis, Duration.nanosPerMilli]
  omega

/-- A ticker that is paced comes due within one period. -/
theorem Ticker.Paced.dueAt_le {terms : Terms} {since : Nat} {ticker : Ticker}
    (h : ticker.Paced terms since) : ticker.dueAt ≤ since + terms.renewalMillis :=
  Ticker.dueAt_le_iff.mpr h.deadline

/-- A new ticker has the period that it is given. -/
theorem Ticker.period_started (time : Nat) (period : Duration) (missed : MissedTicks) :
    (Ticker.started time period missed).period = period.nanos := rfl

/-- A new ticker is due at once. -/
theorem Ticker.deadline_started (time : Nat) (period : Duration) (missed : MissedTicks) :
    (Ticker.started time period missed).deadline = time * 1000000 := rfl

/-- The ticker of a new stream is paced from the moment at which it is opened. -/
theorem Ticker.Paced.started {terms : Terms} (h : terms.seconds * 1000000000 < 2 ^ 64)
    (time : Nat) : (Ticker.started time (Lease.renewalPeriod terms.ttl) .delay).Paced terms time where
  missed := rfl
  period := by
    rw [Ticker.period_started, Terms.renewalPeriod_nanos h]
  deadline := by
    rw [Ticker.deadline_started]
    omega

/-- A tick that is taken late by more than the tolerance starts the period again; any other one
moves the deadline by one period. -/
theorem Ticker.deadline_take (deadline period time : Nat) :
    (Ticker.take ⟨deadline, period, .delay⟩ time).deadline =
      if deadline + 5 * 1000000 < time * 1000000 then time * 1000000 + period
      else deadline + period := rfl

/-- A ticker that is taken when it is due comes due again no later than one period after that. -/
theorem Ticker.Paced.take {terms : Terms} {since time : Nat} {ticker : Ticker}
    (h : ticker.Paced terms since) (hdue : ticker.dueAt ≤ time) :
    (ticker.take time).Paced terms time := by
  rcases ticker with ⟨deadline, period, missed⟩
  obtain ⟨hmissed, hperiod, _⟩ := h
  have hdeadline := Ticker.dueAt_le_iff.mp hdue
  simp only at hmissed hperiod hdeadline
  subst hmissed
  refine ⟨rfl, hperiod, ?_⟩
  rw [Ticker.deadline_take]
  split <;> omega

end ServiceDiscovery
