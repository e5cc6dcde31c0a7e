import Mathlib.Algebra.Order.Floor.Semiring
import Xfiles.Http.RateLimit

/-!
# The token arithmetic

The addition and the subtraction of a check, on `u64`, with a refill that is computed in
`f64`.

* `asSecsF64_mono` says that more nanoseconds are no fewer seconds, and `earnedF64_mono`
  that they earn no less.
* `SafeAt` says that the addition and the subtraction stay within `u64` at a call, and
  `Safe` that they do so in a run.
* `safeAt_iff` reads the addition off the state before the call.
* `Spent` is the invariant: after a check there is room for one token.
* `safe_of_rested` is a run whose buckets do not wait too long for a refill, and
  `lasts_of_safe` one whose second call comes late.
* `safe_iff` says how long that is.  `exceeds_unlimited` is the run with the greatest limit.
-/

namespace Xfiles.Http

open TokenBucket RateLimiter Rounding

/-! ## Seconds in `f64` -/

theorem f64_nonneg {x : ℚ} (h : 0 ≤ x) : 0 ≤ f64 x := rounded_nonneg 53 h

theorem f64_mono {x y : ℚ} (hx : 0 ≤ x) (h : x ≤ y) : f64 x ≤ f64 y :=
  rounded_mono (by decide) hx h

theorem f64_f64 {x : ℚ} (h : 0 ≤ x) : f64 (f64 x) = f64 x := rounded_rounded (by decide) h

/-- The part of a second. -/
def fractionF64 (nanos : Nat) : ℚ :=
  f64 ((nanos % 1000000000 : Nat) / 1000000000)

theorem fractionF64_nonneg (nanos : Nat) : 0 ≤ fractionF64 nanos :=
  f64_nonneg (by positivity)

theorem fractionF64_mono {a b : Nat} (h : a % 1000000000 ≤ b % 1000000000) :
    fractionF64 a ≤ fractionF64 b := by
  refine f64_mono (by positivity) ?_
  exact div_le_div_of_nonneg_right (Nat.cast_le.mpr h) (by norm_num)

/-- It is less than a second also when it is rounded. -/
theorem fractionF64_lt_one (nanos : Nat) : fractionF64 nanos < 1 := by
  have hlast : f64 (((999999999 : Nat) : ℚ) / 1000000000) < 1 := by decide +kernel
  refine lt_of_le_of_lt (f64_mono (by positivity) ?_) hlast
  refine div_le_div_of_nonneg_right (Nat.cast_le.mpr ?_) (by norm_num)
  omega

/-- With a part of a second, the seconds are at most the next number of seconds: that part is
rounded together with them, or is lost beside them. -/
theorem f64_add_fraction_le (seconds nanos : Nat) :
    f64 (f64 seconds + fractionF64 nanos) ≤ f64 (seconds + 1 : Nat) := by
  have hnonneg := fractionF64_nonneg nanos
  have hlt := fractionF64_lt_one nanos
  rcases Nat.lt_or_ge seconds (2 ^ 53) with hsmall | hlarge
  · have hexact : f64 seconds = seconds := rounded_natCast (by decide) hsmall.le
    rw [hexact]
    refine f64_mono (by positivity) ?_
    push_cast
    linarith
  · have hrepresentable := representable_rounded 53 (Nat.cast_nonneg (α := ℚ) seconds)
    have hpow : (2 : ℚ) ^ 53 ≤ f64 seconds := by
      have hcast : ((2 ^ 53 : Nat) : ℚ) ≤ seconds := Nat.cast_le.mpr hlarge
      have hmono := f64_mono (by positivity) hcast
      have hexact : f64 ((2 ^ 53 : Nat) : ℚ) = (2 ^ 53 : Nat) :=
        rounded_natCast (by decide) le_rfl
      rw [hexact] at hmono
      exact_mod_cast hmono
    have hlost : f64 (f64 seconds + fractionF64 nanos) = f64 seconds :=
      rounded_add_of_lt_one (by decide) hrepresentable hpow hnonneg hlt
    rw [hlost]
    refine f64_mono (by positivity) ?_
    push_cast
    linarith

theorem asSecsF64_nonneg (nanos : Nat) : 0 ≤ asSecsF64 nanos :=
  f64_nonneg (add_nonneg (f64_nonneg (by positivity)) (fractionF64_nonneg nanos))

theorem f64_seconds_le (nanos : Nat) : f64 (nanos / 1000000000 : Nat) ≤ asSecsF64 nanos := by
  have hnonneg : 0 ≤ f64 (nanos / 1000000000 : Nat) := f64_nonneg (by positivity)
  have hfraction := fractionF64_nonneg nanos
  rw [← f64_f64 (by positivity)]
  exact f64_mono hnonneg (le_add_of_nonneg_right hfraction)

/-- More nanoseconds are no fewer seconds. -/
theorem asSecsF64_mono {a b : Nat} (h : a ≤ b) : asSecsF64 a ≤ asSecsF64 b := by
  rcases (Nat.div_le_div_right h : a / 1000000000 ≤ b / 1000000000).lt_or_eq with hlt | heq
  · calc asSecsF64 a ≤ f64 (a / 1000000000 + 1 : Nat) := f64_add_fraction_le _ a
      _ ≤ f64 (b / 1000000000 : Nat) := f64_mono (by positivity) (Nat.cast_le.mpr hlt)
      _ ≤ asSecsF64 b := f64_seconds_le b
  · have hfraction : fractionF64 a ≤ fractionF64 b := fractionF64_mono (by omega)
    show f64 (f64 (a / 1000000000 : Nat) + fractionF64 a) ≤
      f64 (f64 (b / 1000000000 : Nat) + fractionF64 b)
    rw [heq]
    refine f64_mono ?_ (by linarith)
    exact add_nonneg (f64_nonneg (by positivity)) (fractionF64_nonneg a)

theorem earnedF64_nonneg (elapsed windowSecs maxRequests : Nat) :
    0 ≤ earnedF64 elapsed windowSecs maxRequests :=
  f64_nonneg (mul_nonneg (f64_nonneg (div_nonneg (asSecsF64_nonneg _) (asSecsF64_nonneg _)))
    (f64_nonneg (by positivity)))

theorem earnedF64_mono {a b : Nat} (h : a ≤ b) (windowSecs maxRequests : Nat) :
    earnedF64 a windowSecs maxRequests ≤ earnedF64 b windowSecs maxRequests := by
  have hwindow := asSecsF64_nonneg (1000000000 * windowSecs)
  have hlimit : 0 ≤ f64 maxRequests := f64_nonneg (by positivity)
  have hfraction : 0 ≤ asSecsF64 a / asSecsF64 (1000000000 * windowSecs) :=
    div_nonneg (asSecsF64_nonneg a) hwindow
  have hquotient := f64_mono hfraction
    (div_le_div_of_nonneg_right (asSecsF64_mono h) hwindow)
  refine f64_mono (mul_nonneg (f64_nonneg hfraction) hlimit) ?_
  exact mul_le_mul_of_nonneg_right hquotient hlimit

/-- A limiter with these limits, given the time `idle`, earns no more than fits a `u64` beside
the tokens that can be left. -/
def Lasts (maxRequests windowSecs idle : Nat) : Prop :=
  max maxRequests 1 = 1 ∨ earnedF64 idle (max windowSecs 1) (max maxRequests 1) <
    (u64Modulus - max maxRequests 1 + 1 : Nat)

instance (maxRequests windowSecs idle : Nat) : Decidable (Lasts maxRequests windowSecs idle) :=
  inferInstanceAs (Decidable (_ ∨ _))

/-- The refill of a bucket that has room for one token. -/
theorem lasts_iff {maxRequests : Nat} (hmax : maxRequests < u64Modulus) (windowSecs idle : Nat) :
    Lasts maxRequests windowSecs idle ↔
      max maxRequests 1 - 1 +
        Arithmetic.f64.refill idle (max windowSecs 1) (max maxRequests 1) < u64Modulus := by
  have hfloor := Nat.floor_lt (n := u64Modulus - max maxRequests 1 + 1)
    (earnedF64_nonneg idle (max windowSecs 1) (max maxRequests 1))
  have hlt := Arithmetic.f64.refill_lt idle (max windowSecs 1) (max maxRequests 1)
  have hrefill : Arithmetic.f64.refill idle (max windowSecs 1) (max maxRequests 1) =
      min ⌊earnedF64 idle (max windowSecs 1) (max maxRequests 1)⌋₊ (u64Modulus - 1) := rfl
  rw [Lasts, ← hfloor]
  unfold u64Modulus at *
  omega

theorem Lasts.mono {maxRequests windowSecs a b : Nat} (h : Lasts maxRequests windowSecs b)
    (hle : a ≤ b) : Lasts maxRequests windowSecs a :=
  h.imp_right (lt_of_le_of_lt (earnedF64_mono hle _ _))

/-! ## Calls -/

variable {ar : Arithmetic}

/-- The sum of a refill is a `u64`, and a token that is taken is there. -/
def SafeAt (l : RateLimiter ar) (key : String) (now : Nat) : Prop :=
  (0 < l.refill (now - (l.entry key now).lastRefill) →
    (l.entry key now).tokens + l.refill (now - (l.entry key now).lastRefill) < u64Modulus) ∧
  ((l.check key now).1 = true → 1 ≤ (l.refilled (l.entry key now) now).tokens)

/-- It is so at each call of a run. -/
def Safe (l : RateLimiter ar) : List Check → Prop
  | [] => True
  | call :: rest => SafeAt l call.key call.time ∧ Safe (l.check call.key call.time).2 rest

/-- At each call of a run, the last refill of its bucket is not longer ago than
`idle`. -/
def Rested (idle : Nat) (l : RateLimiter ar) : List Check → Prop
  | [] => True
  | call :: rest =>
    call.time - (l.entry call.key call.time).lastRefill ≤ idle ∧
      Rested idle (l.check call.key call.time).2 rest

instance (l : RateLimiter ar) (key : String) (now : Nat) : Decidable (SafeAt l key now) :=
  inferInstanceAs (Decidable (_ ∧ _))

instance Safe.decidable (l : RateLimiter ar) : (calls : List Check) → Decidable (Safe l calls)
  | [] => inferInstanceAs (Decidable True)
  | call :: rest =>
    have := Safe.decidable (l.check call.key call.time).2 rest
    inferInstanceAs (Decidable (SafeAt l call.key call.time ∧
      Safe (l.check call.key call.time).2 rest))

/-- A token is taken only if there is one. -/
theorem pos_of_taken {b : Bucket} (h : b.take.1 = true) : 1 ≤ b.tokens := by
  by_contra hzero
  rw [Bucket.take, if_neg (by omega)] at h
  exact absurd h Bool.false_ne_true

/-- The addition, from the state before the call. -/
theorem safeAt_iff {l : RateLimiter ar} (hmax : l.maxRequests < u64Modulus) {key : String}
    {now : Nat} (htokens : (l.entry key now).tokens ≤ l.maxRequests) :
    SafeAt l key now ↔
      (l.entry key now).tokens + l.refill (now - (l.entry key now).lastRefill) < u64Modulus := by
  unfold SafeAt
  constructor
  · intro h
    have hsum := h.1
    omega
  · intro h
    refine ⟨fun _ => h, ?_⟩
    intro htaken
    rw [l.check_fst] at htaken
    exact pos_of_taken htaken

/-! ## Runs -/

/-- Each bucket has room for one token. -/
def Spent (l : RateLimiter ar) : Prop :=
  ∀ key bucket, l.buckets key = some bucket → bucket.tokens + 1 ≤ l.maxRequests

theorem spent_new (maxRequests windowSecs : Nat) : Spent (.new ar maxRequests windowSecs) :=
  fun _ _ h => nomatch h

theorem Spent.entry_le {l : RateLimiter ar} (h : Spent l) (key : String) (now : Nat) :
    (l.entry key now).tokens ≤ l.maxRequests := by
  cases hbucket : l.buckets key with
  | none => rw [l.entry_of_none hbucket]
  | some bucket =>
    have hroom := h key bucket hbucket
    rw [l.entry_of_some hbucket]
    omega

theorem Spent.check {l : RateLimiter ar} (h : Spent l) (key : String) (now : Nat) :
    Spent (l.check key now).2 := by
  intro other bucket hbucket
  by_cases hkey : other = key
  · subst hkey
    rw [l.buckets_check_self] at hbucket
    obtain rfl := Option.some.inj hbucket
    have hfilled := tokens_refilled_le l (h.entry_le other now) now
    exact (@Quota.take_tokens l.rate _ hfilled 0 now).2.1
  · rw [l.buckets_check_of_ne now hkey] at hbucket
    exact h other bucket hbucket

/-- The refill of a bucket that has not waited too long. -/
theorem Spent.safeAt {l : RateLimiter ar} (h : Spent l) (hmax : l.maxRequests < u64Modulus)
    {key : String} {now : Nat} (hlimit : l.maxRequests - 1 +
      l.refill (now - (l.entry key now).lastRefill) < u64Modulus) : SafeAt l key now := by
  rw [safeAt_iff hmax (h.entry_le key now)]
  cases hbucket : l.buckets key with
  | none =>
    rw [l.entry_of_none hbucket, Nat.sub_self, RateLimiter.refill, ar.refill_zero]
    exact hmax
  | some bucket =>
    have hroom := h key bucket hbucket
    rw [l.entry_of_some hbucket] at hlimit ⊢
    omega

/-- A run whose buckets do not wait too long for a refill. -/
theorem safe_of_rested {l : RateLimiter ar} (h : Spent l) (hmax : l.maxRequests < u64Modulus)
    {idle : Nat}
    (hlimit : ∀ elapsed ≤ idle, l.maxRequests - 1 + l.refill elapsed < u64Modulus)
    (calls : List Check) (hrested : Rested idle l calls) : Safe l calls := by
  induction calls generalizing l with
  | nil => trivial
  | cons call rest ih =>
    obtain ⟨hidle, hrest⟩ := hrested
    exact ⟨h.safeAt hmax (hlimit _ hidle), ih (h.check _ _) hmax hlimit hrest⟩

/-- The first request of a client, and another one after a pause. -/
def pause (idle : Nat) : List Check :=
  [⟨"10.0.0.1:4001", 0⟩, ⟨"10.0.0.1:4001", idle⟩]

/-- The bucket after the first call. -/
theorem entry_after_first (maxRequests windowSecs : Nat) (key : String) (now : Nat) :
    ((RateLimiter.new ar maxRequests windowSecs).check key 0).2.entry key now =
      ⟨max maxRequests 1 - 1, 0⟩ := by
  let l := RateLimiter.new ar maxRequests windowSecs
  have hfull : l.refilled (l.entry key 0) 0 = ⟨max maxRequests 1, 0⟩ :=
    l.refilled_self ⟨max maxRequests 1, 0⟩
  have hbucket := l.buckets_check_self key 0
  rw [hfull, Bucket.take, if_pos (show 0 < max maxRequests 1 by omega)] at hbucket
  exact RateLimiter.entry_of_some _ hbucket now

theorem rested_pause (maxRequests windowSecs idle : Nat) :
    Rested idle (.new ar maxRequests windowSecs) (pause idle) := by
  refine ⟨Nat.zero_le idle, ?_, trivial⟩
  show idle - (RateLimiter.entry _ _ idle).lastRefill ≤ idle
  omega

/-- The call after the pause. -/
theorem lasts_of_safe {maxRequests windowSecs idle : Nat} (hmax : maxRequests < u64Modulus)
    (hsafe : Safe (.new .f64 maxRequests windowSecs) (pause idle)) :
    Lasts maxRequests windowSecs idle := by
  let l := ((RateLimiter.new .f64 maxRequests windowSecs).check "10.0.0.1:4001" 0).2
  have hlimit : l.maxRequests < u64Modulus := by
    show max maxRequests 1 < u64Modulus
    unfold u64Modulus at *
    omega
  have hspent : Spent l := (spent_new maxRequests windowSecs).check "10.0.0.1:4001" 0
  have hsum := (safeAt_iff hlimit (hspent.entry_le "10.0.0.1:4001" idle)).mp hsafe.2.1
  have hafter : l.entry "10.0.0.1:4001" idle = ⟨max maxRequests 1 - 1, 0⟩ :=
    entry_after_first maxRequests windowSecs _ idle
  rw [hafter] at hsum
  exact (lasts_iff hmax windowSecs idle).mpr hsum

/-- The arithmetic is safe in every run in which no call comes later than `idle` after the last
refill of its bucket, exactly when the limit is one request, or what `f64` earns in that time
is less than what is left of a `u64`. -/
theorem safe_iff (maxRequests windowSecs : UInt64) (idle : Nat) :
    (∀ calls : List Check, calls.Pairwise (fun a b => a.time ≤ b.time) →
      Rested idle (.new .f64 maxRequests.toNat windowSecs.toNat) calls →
      Safe (.new .f64 maxRequests.toNat windowSecs.toNat) calls) ↔
    (max maxRequests.toNat 1 = 1 ∨
      f64 (f64 (asSecsF64 idle / asSecsF64 (1000000000 * max windowSecs.toNat 1)) *
          f64 (max maxRequests.toNat 1 : Nat)) <
        (u64Modulus - max maxRequests.toNat 1 + 1 : Nat)) := by
  have hmax : maxRequests.toNat < u64Modulus := maxRequests.toNat_lt
  constructor
  · intro hsafe
    refine lasts_of_safe hmax (hsafe (pause idle) ?_ (rested_pause _ _ idle))
    exact List.pairwise_pair.mpr (Nat.zero_le idle)
  · intro hlimit calls _ hrested
    have hlasts : Lasts maxRequests.toNat windowSecs.toNat idle := hlimit
    refine safe_of_rested (spent_new _ _) ?_ ?_ calls hrested
    · show max maxRequests.toNat 1 < u64Modulus
      unfold u64Modulus at *
      omega
    · intro elapsed hle
      exact (lasts_iff hmax _ elapsed).mp (hlasts.mono hle)

/-- The greatest limit, in a window of one second: after one more second the
sum is twice that. -/
theorem exceeds_unlimited :
    ¬ ∀ (maxRequests windowSecs : UInt64) (calls : List Check),
        calls.Pairwise (fun a b => a.time ≤ b.time) →
          Safe (.new .f64 maxRequests.toNat windowSecs.toNat) calls := by
  intro h
  have hsafe := h 18446744073709551615 1
    [⟨"10.0.0.1:4001", 0⟩, ⟨"10.0.0.1:4001", 1000000000⟩] (by decide)
  revert hsafe
  decide +kernel

end Xfiles.Http
