import Mathlib.Algebra.Order.Field.Basic
import Mathlib.Data.Nat.Cast.Order.Ring
import Mathlib.Order.Lattice
import Mathlib.Tactic.FieldSimp
import Mathlib.Tactic.Ring
import Xfiles.Lib.TokenBucket

/-!
# Ideal token buckets

A bucket that is filled continuously, next to one that holds whole tokens.

* `IdealBucket` is the continuous bucket, over an ordered field.
* `Rate.refilled` is the refill of a bucket of whole tokens, which rounds down
  and then moves the time of the last refill.
* `Lossless` says that such a refill drops no part of a token.
* `InStep` relates the two as long as nothing was dropped.  `InStep.check` is
  the step: the answers agree.
* `Behind` relates them after a part of a token was dropped.
  `Behind.exists_refused` says that this is seen: the gap that dropped it can be
  repeated until a call is refused that the ideal bucket admits.

The level of an ideal bucket is counted in parts of a token, of which there are
`period` in one.
-/

namespace TokenBucket

/-- The answers to the calls at the given times. -/
def answers {σ : Type*} (step : σ → Nat → Bool × σ) (s : σ) : List Nat → List Bool
  | [] => []
  | now :: rest => (step s now).1 :: answers step (step s now).2 rest

/-- Each call that is admitted on the left is admitted on the right. -/
def Serves (ideal actual : List Bool) : Prop :=
  List.Forall₂ (fun wanted given => wanted = true → given = true) ideal actual

theorem Serves.of_eq {ideal actual : List Bool} (h : ideal = actual) : Serves ideal actual := by
  subst h
  exact List.forall₂_refl _

/-- A bucket that is filled continuously. -/
structure IdealBucket (K : Type*) where
  level : K
  seen : Nat

namespace IdealBucket

variable {K : Type*} [Field K] [LinearOrder K]

/-- A full bucket. -/
def full (rate : Rate) : IdealBucket K where
  level := rate.capacity
  seen := 0

/-- The level at the time of a call. -/
def gained (rate : Rate) (i : IdealBucket K) (now : Nat) : K :=
  min (i.level + ((now - i.seen : Nat) : K) * rate.capacity / rate.period) rate.capacity

/-- A call takes one token if the bucket holds that much. -/
def check (rate : Rate) (i : IdealBucket K) (now : Nat) : Bool × IdealBucket K :=
  if 1 ≤ i.gained rate now then (true, ⟨i.gained rate now - 1, now⟩)
  else (false, ⟨i.gained rate now, now⟩)

/-- The level in parts of a token. -/
def Holds (rate : Rate) (i : IdealBucket K) (parts : Nat) : Prop :=
  i.level = (parts : K) / rate.period

end IdealBucket

namespace Rate

variable (rate : Rate)

/-- The refill of a bucket of whole tokens. -/
def refilled (b : Bucket) (now : Nat) : Bucket :=
  if 0 < rate.earned (now - b.lastRefill) then
    ⟨min (b.tokens + rate.earned (now - b.lastRefill)) rate.capacity, now⟩
  else
    b

/-- A refill drops no part of a token: there is none, or whole tokens were
earned, or the bucket is full. -/
def Lossless (b : Bucket) (now : Nat) : Prop :=
  rate.earned (now - b.lastRefill) = 0 ∨
    rate.period ∣ (now - b.lastRefill) * rate.capacity ∨
    rate.capacity ≤ b.tokens + rate.earned (now - b.lastRefill)

instance (b : Bucket) (now : Nat) : Decidable (rate.Lossless b now) :=
  inferInstanceAs (Decidable (_ ∨ _ ∨ _))

/-- What is earned, and the part that is not a whole token. -/
theorem earned_parts (elapsed : Nat) :
    elapsed * rate.capacity =
        rate.earned elapsed * rate.period + elapsed * rate.capacity % rate.period ∧
      elapsed * rate.capacity % rate.period < rate.period := by
  refine ⟨?_, Nat.mod_lt _ rate.period_pos⟩
  rw [earned, Nat.mul_comm _ rate.period]
  exact (Nat.div_add_mod _ _).symm

end Rate

namespace IdealBucket

variable {K : Type*} [Field K] [LinearOrder K] {rate : Rate} {i : IdealBucket K} {parts now : Nat}

theorem seen_check (rate : Rate) (i : IdealBucket K) (now : Nat) :
    (i.check rate now).2.seen = now := by
  unfold check
  split
  · rfl
  · rfl

variable [IsStrictOrderedRing K]

theorem period_pos (rate : Rate) : (0 : K) < rate.period := Nat.cast_pos.mpr rate.period_pos

theorem capacity_eq (rate : Rate) :
    (rate.capacity : K) = ((rate.capacity * rate.period : Nat) : K) / rate.period := by
  have hne : (rate.period : K) ≠ 0 := ne_of_gt (period_pos rate)
  rw [Nat.cast_mul]
  field_simp

theorem holds_full (rate : Rate) :
    (full rate : IdealBucket K).Holds rate (rate.capacity * rate.period) :=
  capacity_eq rate

/-- The level at a call, in parts. -/
theorem Holds.gained (h : i.Holds rate parts) (now : Nat) :
    i.gained rate now =
      ((min (parts + (now - i.seen) * rate.capacity) (rate.capacity * rate.period) : Nat) : K) /
        rate.period := by
  have hpos : (0 : K) < rate.period := period_pos rate
  have hlevel : i.level + ((now - i.seen : Nat) : K) * rate.capacity / rate.period =
      ((parts + (now - i.seen) * rate.capacity : Nat) : K) / rate.period := by
    rw [h, Nat.cast_add, Nat.cast_mul]
    ring
  have hcapacity : (rate.capacity : K) =
      ((rate.capacity * rate.period : Nat) : K) / rate.period := capacity_eq rate
  rw [IdealBucket.gained, hlevel, hcapacity, min_div_div_right hpos.le, Nat.cast_min]

/-- A call that finds a whole token. -/
theorem Holds.check_of_le (h : i.Holds rate parts) {held : Nat}
    (hheld : min (parts + (now - i.seen) * rate.capacity) (rate.capacity * rate.period) = held)
    (hle : rate.period ≤ held) :
    (i.check rate now).1 = true ∧ (i.check rate now).2.Holds rate (held - rate.period) ∧
      (i.check rate now).2.seen = now := by
  have hpos : (0 : K) < rate.period := period_pos rate
  have hgained : i.gained rate now = (held : K) / rate.period := by
    rw [h.gained, hheld]
  have hone : 1 ≤ i.gained rate now := by
    rw [hgained, one_le_div hpos]
    exact Nat.cast_le.mpr hle
  rw [check, if_pos hone]
  refine ⟨rfl, ?_, rfl⟩
  show i.gained rate now - 1 = ((held - rate.period : Nat) : K) / rate.period
  rw [hgained, Nat.cast_sub hle, sub_div, div_self (ne_of_gt hpos)]

/-- A call that does not. -/
theorem Holds.check_of_lt (h : i.Holds rate parts) {held : Nat}
    (hheld : min (parts + (now - i.seen) * rate.capacity) (rate.capacity * rate.period) = held)
    (hlt : held < rate.period) :
    (i.check rate now).1 = false ∧ (i.check rate now).2.Holds rate held ∧
      (i.check rate now).2.seen = now := by
  have hpos : (0 : K) < rate.period := period_pos rate
  have hgained : i.gained rate now = (held : K) / rate.period := by
    rw [h.gained, hheld]
  have hone : ¬ 1 ≤ i.gained rate now := by
    rw [hgained, one_le_div hpos, not_le]
    exact Nat.cast_lt.mpr hlt
  rw [check, if_neg hone]
  exact ⟨rfl, hgained, rfl⟩

end IdealBucket

/-! ## In step -/

variable {K : Type*} [Field K] [LinearOrder K] [IsStrictOrderedRing K]
variable {rate : Rate} {i : IdealBucket K} {b : Bucket} {now : Nat}

/-- The ideal bucket holds the whole tokens and what was earned since the last
refill. -/
structure InStep (rate : Rate) (i : IdealBucket K) (b : Bucket) : Prop where
  last_le : b.lastRefill ≤ i.seen
  holds : i.Holds rate (b.tokens * rate.period + (i.seen - b.lastRefill) * rate.capacity)
  /-- A check has left room for one token. -/
  spent : b.tokens + 1 ≤ rate.capacity

namespace Bucket

theorem take_of_pos {b : Bucket} (h : 0 < b.tokens) :
    b.take = (true, ⟨b.tokens - 1, b.lastRefill⟩) :=
  if_pos h

theorem take_of_zero {b : Bucket} (h : b.tokens = 0) : b.take = (false, b) :=
  if_neg (by omega)

end Bucket

/-- A whole number of tokens is at least one token. -/
theorem period_le_mul {tokens : Nat} (h : 0 < tokens) : rate.period ≤ tokens * rate.period :=
  Nat.le_mul_of_pos_left rate.period h

/-- There is room for one more token. -/
theorem mul_period_add_le {tokens : Nat} (h : tokens < rate.capacity) :
    tokens * rate.period + rate.period ≤ rate.capacity * rate.period := by
  have hle := Nat.mul_le_mul_right rate.period (Nat.succ_le_of_lt h)
  rw [Nat.succ_mul] at hle
  exact hle

theorem sub_one_mul_period (tokens : Nat) :
    (tokens - 1) * rate.period = tokens * rate.period - rate.period := by
  rw [Nat.sub_mul, Nat.one_mul]

omit [LinearOrder K] [IsStrictOrderedRing K] in
/-- What both buckets have earned since the last refill. -/
theorem InStep.elapsed (h : InStep rate i b) (hnow : i.seen ≤ now) :
    b.tokens * rate.period + (i.seen - b.lastRefill) * rate.capacity +
        (now - i.seen) * rate.capacity =
      b.tokens * rate.period + (now - b.lastRefill) * rate.capacity := by
  have hlast := h.last_le
  have htime : i.seen - b.lastRefill + (now - i.seen) = now - b.lastRefill := by omega
  rw [Nat.add_assoc, ← Nat.add_mul, htime]

/-- A call before a whole token was earned. -/
theorem InStep.check_of_none (h : InStep rate i b) (hnow : i.seen ≤ now)
    (hnone : rate.earned (now - b.lastRefill) = 0) :
    (i.check rate now).1 = b.take.1 ∧ InStep rate (i.check rate now).2 b.take.2 := by
  have hlast := h.last_le
  have hspent := h.spent
  obtain ⟨hparts, hmod⟩ := rate.earned_parts (now - b.lastRefill)
  rw [hnone, Nat.zero_mul, Nat.zero_add] at hparts
  have hroom := mul_period_add_le hspent
  have hheld : min (b.tokens * rate.period + (i.seen - b.lastRefill) * rate.capacity +
      (now - i.seen) * rate.capacity) (rate.capacity * rate.period) =
        b.tokens * rate.period + (now - b.lastRefill) * rate.capacity := by
    rw [h.elapsed hnow]
    omega
  rcases Nat.eq_zero_or_pos b.tokens with hempty | htokens
  · have hlt : b.tokens * rate.period + (now - b.lastRefill) * rate.capacity < rate.period := by
      rw [hempty, Nat.zero_mul]
      omega
    obtain ⟨hrefused, hholds, hseen⟩ := h.holds.check_of_lt hheld hlt
    rw [Bucket.take_of_zero hempty]
    refine ⟨hrefused, ?_, ?_, hspent⟩
    · show b.lastRefill ≤ _
      omega
    · rw [hseen]
      exact hholds
  · have hle := @period_le_mul rate _ htokens
    obtain ⟨hadmitted, hholds, hseen⟩ := h.holds.check_of_le hheld (by omega)
    rw [Bucket.take_of_pos htokens]
    refine ⟨hadmitted, ?_, ?_, ?_⟩
    · show b.lastRefill ≤ _
      omega
    · show IdealBucket.Holds rate _ ((b.tokens - 1) * rate.period + _)
      have hsplit : b.tokens * rate.period - rate.period + (now - b.lastRefill) * rate.capacity =
          b.tokens * rate.period + (now - b.lastRefill) * rate.capacity - rate.period := by
        omega
      rw [hseen, sub_one_mul_period, hsplit]
      exact hholds
    · show b.tokens - 1 + 1 ≤ rate.capacity
      omega

/-- A call that finds whole tokens and nothing else in the ideal bucket. -/
theorem InStep.of_whole {parts tokens : Nat} (h : i.Holds rate parts)
    (hheld : min (parts + (now - i.seen) * rate.capacity) (rate.capacity * rate.period) =
      tokens * rate.period)
    (hpos : 0 < tokens) (hle : tokens ≤ rate.capacity) :
    (i.check rate now).1 = true ∧ InStep rate (i.check rate now).2 ⟨tokens - 1, now⟩ := by
  obtain ⟨hadmitted, hholds, hseen⟩ := h.check_of_le hheld (period_le_mul hpos)
  refine ⟨hadmitted, ?_, ?_, ?_⟩
  · show now ≤ _
    omega
  · show IdealBucket.Holds rate _ ((tokens - 1) * rate.period + (_ - now) * rate.capacity)
    rw [hseen, sub_one_mul_period, Nat.sub_self, Nat.zero_mul, Nat.add_zero]
    exact hholds
  · show tokens - 1 + 1 ≤ rate.capacity
    omega

/-- The first call finds both buckets full. -/
theorem InStep.first (rate : Rate) (now : Nat) :
    ((IdealBucket.full rate : IdealBucket K).check rate now).1 = true ∧
      InStep rate ((IdealBucket.full rate : IdealBucket K).check rate now).2
        ⟨rate.capacity - 1, now⟩ :=
  InStep.of_whole (IdealBucket.holds_full rate) (Nat.min_eq_right (Nat.le_add_right _ _))
    rate.capacity_pos (Nat.le_refl _)

/-- A call after which no part of a token is dropped. -/
theorem InStep.check (h : InStep rate i b) (hnow : i.seen ≤ now) (hkept : rate.Lossless b now) :
    (i.check rate now).1 = (rate.refilled b now).take.1 ∧
      InStep rate (i.check rate now).2 (rate.refilled b now).take.2 := by
  rcases Nat.eq_zero_or_pos (rate.earned (now - b.lastRefill)) with hnone | hearned
  · have hsame : rate.refilled b now = b := if_neg (by omega)
    rw [hsame]
    exact h.check_of_none hnow hnone
  · have hcapacity := rate.capacity_pos
    obtain ⟨hparts, hmod⟩ := rate.earned_parts (now - b.lastRefill)
    have hfilled : rate.refilled b now =
        ⟨min (b.tokens + rate.earned (now - b.lastRefill)) rate.capacity, now⟩ := if_pos hearned
    have hheld : min (b.tokens * rate.period + (i.seen - b.lastRefill) * rate.capacity +
        (now - i.seen) * rate.capacity) (rate.capacity * rate.period) =
          min (b.tokens + rate.earned (now - b.lastRefill)) rate.capacity * rate.period := by
      rw [h.elapsed hnow, ← Nat.mul_min_mul_right, Nat.add_mul]
      rcases hkept with hnone | hwhole | hfull
      · omega
      · have hzero := Nat.mod_eq_zero_of_dvd hwhole
        omega
      · have hcapped := Nat.mul_le_mul_right rate.period hfull
        rw [Nat.add_mul] at hcapped
        omega
    have hpos : 0 < min (b.tokens + rate.earned (now - b.lastRefill)) rate.capacity := by omega
    rw [hfilled, Bucket.take_of_pos hpos]
    exact InStep.of_whole h.holds hheld hpos (Nat.min_le_right _ _)

/-! ## Behind -/

/-- Right after a refill, the whole tokens fall short of the ideal bucket by
some parts of a token. -/
structure Behind (rate : Rate) (lag : Nat) (i : IdealBucket K) (b : Bucket) : Prop where
  seen_eq : i.seen = b.lastRefill
  holds : i.Holds rate (b.tokens * rate.period + lag)
  level_le : b.tokens * rate.period + lag ≤ rate.capacity * rate.period

/-- From these states, calls from `now` on that are not all served. -/
def RefusedAfter (rate : Rate) (step : Bucket → Nat → Bool × Bucket) (i : IdealBucket K)
    (b : Bucket) (now : Nat) : Prop :=
  ∃ more : List Nat, (now :: more).Pairwise (· ≤ ·) ∧
    ¬ Serves (answers (IdealBucket.check rate) i more) (answers step b more)

variable {step : Bucket → Nat → Bool × Bucket} {lag : Nat}

omit [IsStrictOrderedRing K] in
/-- A call in front. -/
theorem RefusedAfter.cons {start : Nat} (hnow : start ≤ now)
    (h : RefusedAfter rate step (i.check rate now).2 (step b now).2 now) :
    RefusedAfter rate step i b start := by
  obtain ⟨more, hsorted, hrefused⟩ := h
  refine ⟨now :: more, ?_, ?_⟩
  · refine List.pairwise_cons.mpr ⟨?_, hsorted⟩
    intro time hmem
    rcases List.mem_cons.mp hmem with rfl | hlater
    · exact hnow
    · have hle := (List.pairwise_cons.mp hsorted).1 time hlater
      omega
  · intro hserves
    exact hrefused (List.forall₂_cons.mp hserves).2

/-- The call at `now` and later ones, that are not all served. -/
def RefusedFrom (rate : Rate) (step : Bucket → Nat → Bool × Bucket) (i : IdealBucket K) (b : Bucket)
    (now : Nat) : Prop :=
  ∃ more : List Nat, (now :: more).Pairwise (· ≤ ·) ∧
    ¬ Serves (answers (IdealBucket.check rate) i (now :: more)) (answers step b (now :: more))

omit [IsStrictOrderedRing K] in
theorem RefusedAfter.call (h : RefusedAfter rate step (i.check rate now).2 (step b now).2 now) :
    RefusedFrom rate step i b now := by
  obtain ⟨more, hsorted, hrefused⟩ := h
  exact ⟨more, hsorted, fun hserves => hrefused (List.forall₂_cons.mp hserves).2⟩

omit [IsStrictOrderedRing K] in
/-- A call that is refused at once. -/
theorem RefusedFrom.here (hwanted : (i.check rate now).1 = true)
    (hrefused : (step b now).1 = false) : RefusedFrom rate step i b now := by
  refine ⟨[], List.pairwise_singleton _ now, fun hserves => ?_⟩
  have hgiven := (List.forall₂_cons.mp hserves).1 hwanted
  rw [hrefused] at hgiven
  exact Bool.false_ne_true hgiven

omit [IsStrictOrderedRing K] in
theorem RefusedFrom.after (h : RefusedFrom rate step i b now) : RefusedAfter rate step i b now := by
  obtain ⟨more, hsorted, hrefused⟩ := h
  refine ⟨now :: more, List.pairwise_cons.mpr ⟨?_, hsorted⟩, hrefused⟩
  intro time hmem
  rcases List.mem_cons.mp hmem with rfl | hlater
  · exact Nat.le_refl _
  · exact (List.pairwise_cons.mp hsorted).1 time hlater

omit [LinearOrder K] [IsStrictOrderedRing K] in
/-- Nothing was earned yet at the time of the refill. -/
theorem Behind.held (h : Behind rate lag i b) :
    min (b.tokens * rate.period + lag + (b.lastRefill - i.seen) * rate.capacity)
      (rate.capacity * rate.period) = b.tokens * rate.period + lag := by
  have hlevel := h.level_le
  rw [h.seen_eq, Nat.sub_self, Nat.zero_mul]
  omega

/-- A call at the time of the refill that both buckets admit. -/
theorem Behind.take (h : Behind rate lag i b) (htokens : 0 < b.tokens) :
    Behind rate lag (i.check rate b.lastRefill).2 b.take.2 := by
  have hle := @period_le_mul rate _ htokens
  have hlevel := h.level_le
  have hparts : (b.tokens - 1) * rate.period + lag =
      b.tokens * rate.period + lag - rate.period := by
    rw [sub_one_mul_period]
    omega
  obtain ⟨_, hholds, hseen⟩ := h.holds.check_of_le h.held (by omega)
  rw [Bucket.take_of_pos htokens]
  refine ⟨hseen, ?_, ?_⟩
  · show IdealBucket.Holds rate _ ((b.tokens - 1) * rate.period + lag)
    rw [hparts]
    exact hholds
  · show (b.tokens - 1) * rate.period + lag ≤ _
    omega

/-- The tokens can be taken first, at the time of the refill. -/
theorem Behind.drain (hsame : ∀ b, step b b.lastRefill = b.take)
    (hempty : ∀ i : IdealBucket K, ∀ last, Behind rate lag i ⟨0, last⟩ →
      RefusedAfter rate step i ⟨0, last⟩ last)
    (h : Behind rate lag i b) : RefusedAfter rate step i b b.lastRefill := by
  obtain ⟨tokens, last⟩ := b
  induction tokens generalizing i with
  | zero => exact hempty i last h
  | succ tokens ih =>
    have hnext := h.take (Nat.succ_pos tokens)
    refine .cons (Nat.le_refl last) ?_
    have htaken : step ⟨tokens + 1, last⟩ last = (true, ⟨tokens, last⟩) := hsame ⟨tokens + 1, last⟩
    rw [htaken]
    exact ih hnext

/-- A whole token behind: there is a call too many. -/
theorem Behind.refused_of_le (hsame : ∀ b, step b b.lastRefill = b.take)
    (h : Behind rate lag i b) (hlag : rate.period ≤ lag) :
    RefusedAfter rate step i b b.lastRefill := by
  refine h.drain hsame ?_
  intro i last hbehind
  have hwhole : rate.period ≤ 0 * rate.period + lag := by omega
  have hwanted := (hbehind.holds.check_of_le hbehind.held hwhole).1
  have hrefused : step ⟨0, last⟩ last = (false, ⟨0, last⟩) := hsame ⟨0, last⟩
  exact (RefusedFrom.here hwanted (by rw [hrefused])).after

/-- After a gap that drops a part of a token the lag has grown. -/
theorem Behind.repeat_gap {last elapsed : Nat} (h : Behind rate lag i ⟨0, last⟩)
    (hearned : 0 < rate.earned elapsed) (hroom : rate.earned elapsed + 1 ≤ rate.capacity)
    (hpart : 0 < elapsed * rate.capacity % rate.period) (hlag : lag < rate.period) :
    ∃ lag', lag < lag' ∧ Behind rate lag' (i.check rate (last + elapsed)).2
      (rate.refilled ⟨0, last⟩ (last + elapsed)).take.2 ∧
      (rate.refilled ⟨0, last⟩ (last + elapsed)).take.2.lastRefill = last + elapsed := by
  obtain ⟨hparts, _⟩ := rate.earned_parts elapsed
  have hcapped := mul_period_add_le hroom
  have hle := @period_le_mul rate _ hearned
  have hheld : min (0 * rate.period + lag + (last + elapsed - i.seen) * rate.capacity)
      (rate.capacity * rate.period) =
        min (lag + elapsed * rate.capacity) (rate.capacity * rate.period) := by
    rw [show i.seen = last from h.seen_eq, Nat.add_sub_cancel_left, Nat.zero_mul, Nat.zero_add]
  obtain ⟨_, hholds, hseen⟩ := h.holds.check_of_le hheld (by omega)
  have hfilled : rate.refilled ⟨0, last⟩ (last + elapsed) =
      ⟨rate.earned elapsed, last + elapsed⟩ := by
    simp only [Rate.refilled, Nat.add_sub_cancel_left, Nat.zero_add, if_pos hearned]
    rw [Nat.min_eq_left (by omega)]
  have hsplit : (rate.earned elapsed - 1) * rate.period +
      (min (lag + elapsed * rate.capacity) (rate.capacity * rate.period) -
        rate.earned elapsed * rate.period) =
      min (lag + elapsed * rate.capacity) (rate.capacity * rate.period) - rate.period := by
    rw [sub_one_mul_period]
    omega
  rw [hfilled, Bucket.take_of_pos hearned]
  refine ⟨min (lag + elapsed * rate.capacity) (rate.capacity * rate.period) -
    rate.earned elapsed * rate.period, by omega, ⟨hseen, ?_, ?_⟩, rfl⟩
  · show IdealBucket.Holds rate _ ((rate.earned elapsed - 1) * rate.period + _)
    rw [hsplit]
    exact hholds
  · show (rate.earned elapsed - 1) * rate.period + _ ≤ _
    omega

/-- So the gap is repeated until the lag is a whole token.  The measure is what
is left to it. -/
theorem Behind.exists_refused (hsame : ∀ b, step b b.lastRefill = b.take) {elapsed : Nat}
    (hstep : ∀ last, step ⟨0, last⟩ (last + elapsed) =
      (rate.refilled ⟨0, last⟩ (last + elapsed)).take)
    (hearned : 0 < rate.earned elapsed) (hroom : rate.earned elapsed + 1 ≤ rate.capacity)
    (hpart : 0 < elapsed * rate.capacity % rate.period) (h : Behind rate lag i b) :
    RefusedAfter rate step i b b.lastRefill := by
  induction hleft : rate.period - lag using Nat.strongRecOn generalizing lag i b with
  | ind left ih =>
    rcases Nat.lt_or_ge lag rate.period with hlag | hlag
    · refine h.drain hsame ?_
      intro i last hempty
      obtain ⟨lag', hgrows, hbehind, hlast⟩ := hempty.repeat_gap hearned hroom hpart hlag
      have hmore := ih (rate.period - lag') (by omega) hbehind rfl
      rw [hlast, ← hstep] at hmore
      exact hmore.cons (Nat.le_add_right last elapsed)
    · exact h.refused_of_le hsame hlag

/-- A call that drops a part of a token leaves the whole tokens behind. -/
theorem InStep.behind (h : InStep rate i b) (hnow : i.seen ≤ now)
    (hearned : 0 < rate.earned (now - b.lastRefill))
    (hroom : b.tokens + rate.earned (now - b.lastRefill) < rate.capacity) :
    Behind rate ((now - b.lastRefill) * rate.capacity % rate.period) (i.check rate now).2
        (rate.refilled b now).take.2 ∧
      (rate.refilled b now).take.2.lastRefill = now := by
  obtain ⟨hparts, hmod⟩ := rate.earned_parts (now - b.lastRefill)
  have hcapped := mul_period_add_le hroom
  rw [Nat.add_mul] at hcapped
  have hle := @period_le_mul rate _ hearned
  have hheld : min (b.tokens * rate.period + (i.seen - b.lastRefill) * rate.capacity +
      (now - i.seen) * rate.capacity) (rate.capacity * rate.period) =
        b.tokens * rate.period + (now - b.lastRefill) * rate.capacity := by
    rw [h.elapsed hnow]
    omega
  obtain ⟨_, hholds, hseen⟩ := h.holds.check_of_le hheld (by omega)
  have hfilled : rate.refilled b now =
      ⟨b.tokens + rate.earned (now - b.lastRefill), now⟩ := by
    rw [Rate.refilled, if_pos hearned, Nat.min_eq_left (by omega)]
  have hpos : 0 < b.tokens + rate.earned (now - b.lastRefill) := by omega
  have hsplit : (b.tokens + rate.earned (now - b.lastRefill) - 1) * rate.period +
      (now - b.lastRefill) * rate.capacity % rate.period =
        b.tokens * rate.period + (now - b.lastRefill) * rate.capacity - rate.period := by
    rw [sub_one_mul_period, Nat.add_mul]
    omega
  rw [hfilled, Bucket.take_of_pos hpos]
  refine ⟨⟨hseen, ?_, ?_⟩, rfl⟩
  · show IdealBucket.Holds rate _
      ((b.tokens + rate.earned (now - b.lastRefill) - 1) * rate.period + _)
    rw [hsplit]
    exact hholds
  · show (b.tokens + rate.earned (now - b.lastRefill) - 1) * rate.period + _ ≤ _
    omega

/-- A call that drops a part of a token is followed by calls that are not all
served. -/
theorem InStep.exists_refused (h : InStep rate i b) (hnow : i.seen ≤ now)
    (hlossy : ¬ rate.Lossless b now) (hsame : ∀ b, step b b.lastRefill = b.take)
    (hcall : step b now = (rate.refilled b now).take)
    (hstep : ∀ last, step ⟨0, last⟩ (last + (now - b.lastRefill)) =
      (rate.refilled ⟨0, last⟩ (last + (now - b.lastRefill))).take) :
    RefusedFrom rate step i b now := by
  unfold Rate.Lossless at hlossy
  push Not at hlossy
  obtain ⟨hearned, hpart, hroom⟩ := hlossy
  have hpos : 0 < (now - b.lastRefill) * rate.capacity % rate.period :=
    Nat.pos_of_ne_zero fun hzero => hpart (Nat.dvd_of_mod_eq_zero hzero)
  obtain ⟨hbehind, hlast⟩ := h.behind hnow (Nat.pos_of_ne_zero hearned) hroom
  have hmore := hbehind.exists_refused hsame hstep (Nat.pos_of_ne_zero hearned) (by omega) hpos
  rw [hlast, ← hcall] at hmore
  exact hmore.call

/-- So does a call that finds a full ideal bucket next to fewer tokens. -/
theorem InStep.refused_of_full (h : InStep rate i b) (hnow : i.seen ≤ now)
    (hfull : rate.capacity ≤ b.tokens + rate.earned (now - b.lastRefill)) {tokens : Nat}
    (hfew : tokens < rate.capacity) (hsame : ∀ b, step b b.lastRefill = b.take)
    (hcall : step b now = Bucket.take ⟨tokens, now⟩) : RefusedFrom rate step i b now := by
  obtain ⟨hparts, _⟩ := rate.earned_parts (now - b.lastRefill)
  have hcapped := Nat.mul_le_mul_right rate.period hfull
  have hshort := mul_period_add_le hfew
  rw [Nat.add_mul] at hcapped
  have hheld : min (b.tokens * rate.period + (i.seen - b.lastRefill) * rate.capacity +
      (now - i.seen) * rate.capacity) (rate.capacity * rate.period) =
        rate.capacity * rate.period := by
    rw [h.elapsed hnow]
    omega
  obtain ⟨hwanted, hholds, hseen⟩ :=
    h.holds.check_of_le hheld (period_le_mul rate.capacity_pos)
  rcases Nat.eq_zero_or_pos tokens with hzero | htokens
  · rw [Bucket.take_of_zero hzero] at hcall
    exact .here hwanted (by rw [hcall])
  · -- the ideal bucket has `capacity - tokens` whole tokens more
    rw [Bucket.take_of_pos htokens] at hcall
    have hle := @period_le_mul rate _ htokens
    have hsplit : (tokens - 1) * rate.period +
        (rate.capacity * rate.period - tokens * rate.period) =
          rate.capacity * rate.period - rate.period := by
      rw [sub_one_mul_period]
      omega
    have hbehind : Behind rate (rate.capacity * rate.period - tokens * rate.period)
        (i.check rate now).2 ⟨tokens - 1, now⟩ := by
      refine ⟨hseen, ?_, ?_⟩
      · show IdealBucket.Holds rate _ ((tokens - 1) * rate.period + _)
        rw [hsplit]
        exact hholds
      · show (tokens - 1) * rate.period + _ ≤ _
        omega
    have hmore := hbehind.refused_of_le hsame (by omega)
    refine RefusedAfter.call ?_
    rw [hcall]
    exact hmore

end TokenBucket
