import Mathlib.Algebra.Order.Ring.Nat
import Mathlib.Data.Nat.Basic

/-!
# Token buckets

A bucket that is filled at most at a given rate, and from which a check takes
one token if there is one.

* `Rate.earned` is what a rate earns in a time, rounded down.
* `Refill` says that a bucket is refilled no faster than the rate allows.  The
  time of the last refill moves only when there is something to add.
* `Quota s c` is the invariant for an interval that starts at `s`: it bounds
  the `c` tokens taken since `s` together with the tokens that are left.
  `Quota.check` is the step, and `Quota.le` reads the bound off.

A time is a natural number, of any unit.
-/

namespace TokenBucket

/-- `capacity` tokens per `period`, and no more than `capacity` at a time. -/
structure Rate where
  capacity : Nat
  period : Nat
  capacity_pos : 0 < capacity
  period_pos : 0 < period

/-- The whole tokens that are earned in a time. -/
def Rate.earned (rate : Rate) (elapsed : Nat) : Nat :=
  elapsed * rate.capacity / rate.period

structure Bucket where
  tokens : Nat
  lastRefill : Nat
  deriving DecidableEq, Repr

/-- Take one token if there is one. -/
def Bucket.take (b : Bucket) : Bool × Bucket :=
  if 0 < b.tokens then (true, { b with tokens := b.tokens - 1 }) else (false, b)

namespace Rate

variable (rate : Rate)

theorem earned_mono {a b : Nat} (h : a ≤ b) : rate.earned a ≤ rate.earned b :=
  Nat.div_le_div_right (Nat.mul_le_mul_right rate.capacity h)

/-- Rounding down twice loses no less than rounding down once. -/
theorem earned_add_le (a b : Nat) : rate.earned a + rate.earned b ≤ rate.earned (a + b) := by
  unfold earned
  rw [Nat.add_mul, Nat.add_div rate.period_pos]
  split
  · omega
  · omega

/-- It loses at most one token more. -/
theorem earned_add_le_succ (a b : Nat) :
    rate.earned (a + b) ≤ rate.earned a + rate.earned b + 1 := by
  unfold earned
  rw [Nat.add_mul, Nat.add_div rate.period_pos]
  split
  · omega
  · omega

end Rate

/-- Between a check and the next one the bucket gets at most what the rate has
earned since the last refill. -/
inductive Refill (rate : Rate) (b : Bucket) (now : Nat) : Bucket → Prop where
  | skip (h : rate.earned (now - b.lastRefill) = 0) : Refill rate b now b
  | fill (tokens : Nat) (hcapacity : tokens ≤ rate.capacity)
      (hearned : tokens ≤ b.tokens + rate.earned (now - b.lastRefill)) :
      Refill rate b now ⟨tokens, now⟩

/-- The bound on a bucket that was last checked at `seen`, when `c` checks from
time `s` on have taken a token. -/
structure Quota (rate : Rate) (s seen c : Nat) (b : Bucket) : Prop where
  last_le : b.lastRefill ≤ seen
  /-- A check has left room for one token. -/
  spent : b.tokens + 1 ≤ rate.capacity
  counted : 0 < c → s ≤ seen
  since : s ≤ b.lastRefill → c + b.tokens ≤ rate.capacity + rate.earned (b.lastRefill - s)
  /-- Before the first refill from `s` on, only what is left is taken. -/
  before : b.lastRefill < s →
    c + b.tokens + 1 ≤ rate.capacity ∧ (0 < c → rate.earned (s - b.lastRefill) = 0)

namespace Quota

variable {rate : Rate} {s seen c : Nat} {b : Bucket}

/-- What a check at `now` adds to the count of the interval from `s` on. -/
def charge (s now : Nat) (admitted : Bool) : Nat :=
  if admitted = true ∧ s ≤ now then 1 else 0

theorem charge_le_one (s now : Nat) (admitted : Bool) : charge s now admitted ≤ 1 := by
  unfold charge
  split
  · omega
  · omega

theorem charge_refused (s now : Nat) : charge s now false = 0 := rfl

theorem le_of_charge_pos {now : Nat} {admitted : Bool} (h : 0 < charge s now admitted) :
    s ≤ now := by
  unfold charge at h
  split at h
  · rename_i hboth
    exact hboth.2
  · omega

/-- A check takes a token for its charge, and leaves room for one. -/
theorem take_tokens (hcapacity : b.tokens ≤ rate.capacity) (s now : Nat) :
    charge s now b.take.1 + b.take.2.tokens ≤ b.tokens ∧
      b.take.2.tokens + 1 ≤ rate.capacity ∧ b.take.2.lastRefill = b.lastRefill := by
  have hpos := rate.capacity_pos
  unfold Bucket.take
  split
  · have hcharge := charge_le_one s now true
    refine ⟨?_, ?_, rfl⟩
    · show charge s now true + (b.tokens - 1) ≤ b.tokens
      omega
    · show b.tokens - 1 + 1 ≤ rate.capacity
      omega
  · refine ⟨?_, ?_, rfl⟩
    · show charge s now false + b.tokens ≤ b.tokens
      rw [charge_refused]
      omega
    · show b.tokens + 1 ≤ rate.capacity
      omega

/-- The first check of a full bucket. -/
theorem fresh (rate : Rate) (s now : Nat) :
    Quota rate s now (charge s now (Bucket.take ⟨rate.capacity, now⟩).1)
      (Bucket.take ⟨rate.capacity, now⟩).2 := by
  obtain ⟨htokens, hroom, hlast⟩ := take_tokens (b := ⟨rate.capacity, now⟩) (Nat.le_refl _) s now
  have htokens : charge s now (Bucket.take ⟨rate.capacity, now⟩).1 +
      (Bucket.take ⟨rate.capacity, now⟩).2.tokens ≤ rate.capacity := htokens
  have hlast : (Bucket.take ⟨rate.capacity, now⟩).2.lastRefill = now := hlast
  refine { last_le := by omega, spent := hroom, counted := le_of_charge_pos, since := ?_,
           before := ?_ }
  · intro _
    omega
  · intro hbefore
    have hzero : ¬ 0 < charge s now (Bucket.take ⟨rate.capacity, now⟩).1 := by
      intro hpos
      have hle := le_of_charge_pos hpos
      omega
    omega

/-- The quota of a refilled bucket, before the check takes its token. -/
theorem refill (h : Quota rate s seen c b) {now : Nat} (hnow : seen ≤ now) {b' : Bucket}
    (hrefill : Refill rate b now b') :
    b'.lastRefill ≤ now ∧ b'.tokens ≤ rate.capacity ∧
      (s ≤ b'.lastRefill → c + b'.tokens ≤ rate.capacity + rate.earned (b'.lastRefill - s)) ∧
      (b'.lastRefill < s → c + b'.tokens ≤ rate.capacity ∧
        (b' = b ∧ rate.earned (now - b.lastRefill) = 0 ∨ now < s)) := by
  have hlast := h.last_le
  have hspent := h.spent
  cases hrefill with
  | skip hnone =>
    refine ⟨by omega, by omega, h.since, ?_⟩
    intro hbefore
    have hleft := (h.before hbefore).1
    exact ⟨by omega, Or.inl ⟨rfl, hnone⟩⟩
  | fill tokens hcapacity hearned =>
    refine ⟨Nat.le_refl _, hcapacity, ?_, ?_⟩
    · intro hs
      show c + tokens ≤ rate.capacity + rate.earned (now - s)
      have hs : s ≤ now := hs
      rcases Nat.lt_or_ge b.lastRefill s with hbefore | hsince
      · obtain ⟨hleft, hnone⟩ := h.before hbefore
        rcases Nat.eq_zero_or_pos c with hzero | hpos
        · omega
        · have hsplit := rate.earned_add_le_succ (now - s) (s - b.lastRefill)
          have htime : now - s + (s - b.lastRefill) = now - b.lastRefill := by omega
          rw [htime, hnone hpos] at hsplit
          omega
      · have hquota := h.since hsince
        have hsplit := rate.earned_add_le (b.lastRefill - s) (now - b.lastRefill)
        have htime : b.lastRefill - s + (now - b.lastRefill) = now - s := by omega
        rw [htime] at hsplit
        omega
    · intro hs
      have hs : now < s := hs
      have hzero : ¬ 0 < c := fun hpos => by
        have hle := h.counted hpos
        omega
      refine ⟨?_, Or.inr hs⟩
      show c + tokens ≤ rate.capacity
      omega

/-- A check keeps the quota, with its own charge. -/
theorem check (h : Quota rate s seen c b) {now : Nat} (hnow : seen ≤ now) {b' : Bucket}
    (hrefill : Refill rate b now b') :
    Quota rate s now (c + charge s now b'.take.1) b'.take.2 := by
  obtain ⟨hlast, hcapacity, hsince, hbefore⟩ := h.refill hnow hrefill
  obtain ⟨htokens, hroom, hsame⟩ := take_tokens hcapacity s now
  have hcharge : 0 < charge s now b'.take.1 → s ≤ now := le_of_charge_pos
  refine { last_le := by omega, spent := hroom, counted := ?_, since := ?_, before := ?_ }
  · intro hpos
    rcases Nat.eq_zero_or_pos c with hzero | hc
    · exact hcharge (by omega)
    · have hle := h.counted hc
      omega
  · intro hs
    rw [hsame] at hs ⊢
    have hquota := hsince hs
    omega
  · intro hs
    rw [hsame] at hs ⊢
    obtain ⟨hquota, hwhich⟩ := hbefore hs
    rcases hwhich with ⟨rfl, hnone⟩ | hearly
    · obtain ⟨hleft, hold⟩ := h.before hs
      refine ⟨by omega, ?_⟩
      intro hpos
      rcases Nat.eq_zero_or_pos c with hzero | hc
      · have hle := hcharge (by omega)
        have hmono :=
          rate.earned_mono (a := s - b'.lastRefill) (b := now - b'.lastRefill) (by omega)
        omega
      · exact hold hc
    · have hzero : ¬ 0 < c := fun hpos => by
        have hle := h.counted hpos
        omega
      have hfree : ¬ 0 < charge s now b'.take.1 := fun hpos => by
        have hle := hcharge hpos
        omega
      omega

/-- A count that is too high stays within a quota when it is lowered. -/
theorem lower (h : Quota rate s seen c b) {c' : Nat} (hle : c' ≤ c) : Quota rate s seen c' b where
  last_le := h.last_le
  spent := h.spent
  counted := by
    intro hpos
    exact h.counted (by omega)
  since := by
    intro hs
    have hquota := h.since hs
    omega
  before := by
    intro hs
    obtain ⟨hquota, hnone⟩ := h.before hs
    refine ⟨by omega, ?_⟩
    intro hpos
    exact hnone (by omega)

/-- Time that passes without a check changes nothing. -/
theorem wait (h : Quota rate s seen c b) {now : Nat} (hnow : seen ≤ now) :
    Quota rate s now c b where
  last_le := Nat.le_trans h.last_le hnow
  spent := h.spent
  counted := fun hpos => Nat.le_trans (h.counted hpos) hnow
  since := h.since
  before := h.before

/-- At most a full bucket and what is earned in the interval is taken. -/
theorem le (h : Quota rate s seen c b) {t : Nat} (ht : seen ≤ t) :
    c ≤ rate.capacity + rate.earned (t - s) := by
  have hlast := h.last_le
  rcases Nat.lt_or_ge b.lastRefill s with hbefore | hsince
  · have hquota := (h.before hbefore).1
    omega
  · have hquota := h.since hsince
    have hmono := rate.earned_mono (a := b.lastRefill - s) (b := t - s) (by omega)
    omega

end Quota

end TokenBucket
