import Mathlib.Algebra.Order.Ring.Rat
import Mathlib.Data.List.Pairwise
import Xfiles.Http.RateLimit
import Xfiles.Lib.IdealBucket

/-!
# The configured rate

The checks of a key, next to an ideal bucket with the configured rate.

* `refilled_eq` says that the refill in exact arithmetic is the one of whole
  tokens, as long as the sum fits a `u64`.
* `Kept` is the condition on a call under which no token is lost.
* `answers_of_kept` is a run of such calls: the answers are those of the ideal
  bucket.  `refused_of_not_kept` is the first call that loses something.
* `delivers_of_kept` puts them together.  `refused_after_gap` is a run in which
  half a token is lost.
-/

namespace Xfiles.Http

open TokenBucket

namespace RateLimiter

/-- The sum of the tokens and the refill fits a `u64`.  An empty bucket is
refilled by a saturated number. -/
def Fits (l : RateLimiter .exact) (b : Bucket) (now : Nat) : Prop :=
  b.tokens = 0 ∨ b.tokens + l.rate.earned (now - b.lastRefill) < u64Modulus

instance (l : RateLimiter .exact) (b : Bucket) (now : Nat) : Decidable (l.Fits b now) :=
  inferInstanceAs (Decidable (_ ∨ _))

theorem refill_eq (l : RateLimiter .exact) (elapsed : Nat) :
    l.refill elapsed = min (l.rate.earned elapsed) (u64Modulus - 1) := rfl

/-- The refill of whole tokens. -/
theorem refilled_eq {l : RateLimiter .exact} (hmax : l.maxRequests < u64Modulus) {b : Bucket}
    {now : Nat} (hfits : l.Fits b now) : l.refilled b now = l.rate.refilled b now := by
  have hcapacity : l.rate.capacity = l.maxRequests := rfl
  unfold refilled Rate.refilled
  rw [refill_eq, hcapacity]
  unfold Fits u64Modulus at *
  by_cases hpos : 0 < l.rate.earned (now - b.lastRefill)
  · rw [if_pos (by omega), if_pos hpos]
    congr 1
    omega
  · rw [if_neg (by omega), if_neg hpos]

/-- A sum that does not fit leaves fewer tokens than the bucket can hold. -/
theorem refilled_of_not_fits {l : RateLimiter .exact} (hmax : l.maxRequests < u64Modulus)
    {b : Bucket} {now : Nat} (hspent : b.tokens + 1 ≤ l.maxRequests) (hwraps : ¬ l.Fits b now) :
    ∃ tokens, tokens < l.maxRequests ∧ l.refilled b now = ⟨tokens, now⟩ := by
  unfold Fits at hwraps
  refine ⟨min ((b.tokens + l.refill (now - b.lastRefill)) % u64Modulus) l.maxRequests, ?_, ?_⟩
  · rw [refill_eq]
    unfold u64Modulus at *
    omega
  · refine if_pos ?_
    rw [refill_eq]
    unfold u64Modulus at *
    omega

/-- The checks of a key that has a bucket are a run of that bucket. -/
theorem answers_check (l : RateLimiter .exact) {key : String} {b : Bucket}
    (h : l.buckets key = some b) (times : List Nat) :
    answers (fun l now => check l key now) l times =
      answers (fun b now => (l.refilled b now).take) b times := by
  induction times generalizing l b with
  | nil => rfl
  | cons now rest ih =>
    have hbucket := l.buckets_check_self key now
    rw [l.entry_of_some h] at hbucket
    show (l.check key now).1 :: _ = (l.refilled b now).take.1 :: _
    rw [l.check_fst, l.entry_of_some h]
    exact congrArg _ (ih (l.check key now).2 hbucket)

end RateLimiter

open RateLimiter

/-- The ideal bucket with the configured rate admits no call that the limiter
refuses. -/
def Delivers (maxRequests windowSecs : UInt64) (key : String) (times : List Nat) : Prop :=
  let l := RateLimiter.new .exact maxRequests.toNat windowSecs.toNat
  Serves (answers (IdealBucket.check l.rate) (IdealBucket.full l.rate : IdealBucket ℚ) times)
    (answers (fun l now => l.check key now) l times)

instance (maxRequests windowSecs : UInt64) (key : String) (times : List Nat) :
    Decidable (Delivers maxRequests windowSecs key times) :=
  inferInstanceAs (Decidable (List.Forall₂ _ _ _))

/-- A call that adds tokens adds all that was earned: it is a whole number of
tokens or fills the bucket, and the sum fits. -/
def KeptAt (l : RateLimiter .exact) (key : String) (now : Nat) : Prop :=
  l.rate.Lossless (l.entry key now) now ∧ l.Fits (l.entry key now) now

instance (l : RateLimiter .exact) (key : String) (now : Nat) : Decidable (KeptAt l key now) :=
  inferInstanceAs (Decidable (_ ∧ _))

/-- It is so at each call of a run. -/
def Kept (l : RateLimiter .exact) (key : String) : List Nat → Prop
  | [] => True
  | now :: rest => KeptAt l key now ∧ Kept (l.check key now).2 key rest

instance Kept.decidable (l : RateLimiter .exact) (key : String) :
    (times : List Nat) → Decidable (Kept l key times)
  | [] => inferInstanceAs (Decidable True)
  | now :: rest =>
    have := Kept.decidable (l.check key now).2 key rest
    inferInstanceAs (Decidable (KeptAt l key now ∧ Kept (l.check key now).2 key rest))

/-! ## Runs -/

/-- A key without a bucket starts with a full one. -/
theorem keptAt_of_none {l : RateLimiter .exact} (hmax : l.maxRequests < u64Modulus) {key : String}
    (h : l.buckets key = none) (now : Nat) : KeptAt l key now := by
  have hzero : l.rate.earned (now - now) = 0 := by
    rw [Nat.sub_self, Rate.earned, Nat.zero_mul, Nat.zero_div]
  rw [KeptAt, l.entry_of_none h]
  refine ⟨Or.inl hzero, Or.inr ?_⟩
  show l.maxRequests + l.rate.earned (now - now) < u64Modulus
  rw [hzero]
  exact hmax

section Runs

variable {key : String} {times : List Nat} {i : IdealBucket ℚ}

/-- The answers to a run of calls that lose nothing. -/
theorem answers_of_kept {l : RateLimiter .exact} (hmax : l.maxRequests < u64Modulus) {b : Bucket}
    (hbucket : l.buckets key = some b) (h : InStep l.rate i b)
    (hsorted : (i.seen :: times).Pairwise (· ≤ ·)) (hkept : Kept l key times) :
    answers (IdealBucket.check l.rate) i times =
      answers (fun l now => l.check key now) l times := by
  induction times generalizing l b i with
  | nil => rfl
  | cons now rest ih =>
    obtain ⟨⟨hlossless, hfits⟩, hrest⟩ := hkept
    obtain ⟨hlater, hsorted⟩ := List.pairwise_cons.mp hsorted
    rw [l.entry_of_some hbucket] at hlossless hfits
    obtain ⟨hanswer, hnext⟩ := h.check (hlater now List.mem_cons_self) hlossless
    have hafter := l.buckets_check_self key now
    rw [l.entry_of_some hbucket, refilled_eq hmax hfits] at hafter
    rw [← IdealBucket.seen_check l.rate i now] at hsorted
    have hsame := ih (l := (l.check key now).2) hmax hafter hnext hsorted hrest
    show (i.check l.rate now).1 :: _ = (l.check key now).1 :: _
    rw [l.check_fst, l.entry_of_some hbucket, refilled_eq hmax hfits, hanswer]
    exact congrArg _ hsame

/-- A call that loses something, with the calls that follow it. -/
theorem refused_of_not_keptAt {l : RateLimiter .exact} (hmax : l.maxRequests < u64Modulus)
    {b : Bucket} (hbucket : l.buckets key = some b) (h : InStep l.rate i b) {now : Nat}
    (hnow : i.seen ≤ now) (hlost : ¬ KeptAt l key now) :
    RefusedFrom l.rate (fun b now => (l.refilled b now).take) i b now := by
  have hsame : ∀ b : Bucket, (l.refilled b b.lastRefill).take = b.take := by
    intro b
    rw [l.refilled_self]
  have hempty : ∀ last elapsed, (l.refilled ⟨0, last⟩ elapsed).take =
      (l.rate.refilled ⟨0, last⟩ elapsed).take := by
    intro last elapsed
    rw [refilled_eq hmax (Or.inl rfl)]
  rw [KeptAt, l.entry_of_some hbucket] at hlost
  by_cases hfits : l.Fits b now
  · refine h.exists_refused hnow (fun hlossless => hlost ⟨hlossless, hfits⟩) hsame ?_
      fun last => hempty last _
    show (l.refilled b now).take = _
    rw [refilled_eq hmax hfits]
  · obtain ⟨tokens, hfew, hfilled⟩ := refilled_of_not_fits hmax h.spent hfits
    refine h.refused_of_full hnow ?_ hfew hsame ?_
    · show l.maxRequests ≤ _
      unfold Fits at hfits
      omega
    · show (l.refilled b now).take = _
      rw [hfilled]

/-- The first call of a run that loses something. -/
theorem refused_of_not_kept {l : RateLimiter .exact} (hmax : l.maxRequests < u64Modulus)
    {b : Bucket} (hbucket : l.buckets key = some b) (h : InStep l.rate i b)
    (hsorted : (i.seen :: times).Pairwise (· ≤ ·)) (hlost : ¬ Kept l key times) :
    ∃ early more, early <+: times ∧ (i.seen :: (early ++ more)).Pairwise (· ≤ ·) ∧
      ¬ Serves (answers (IdealBucket.check l.rate) i (early ++ more))
        (answers (fun l now => l.check key now) l (early ++ more)) := by
  induction times generalizing l b i with
  | nil => exact absurd trivial hlost
  | cons now rest ih =>
    obtain ⟨hnow, hsorted⟩ := List.pairwise_cons_cons_iff_of_trans.mp hsorted
    by_cases hcall : KeptAt l key now
    · obtain ⟨hlossless, hfits⟩ := hcall
      have hrest : ¬ Kept (l.check key now).2 key rest := by
        intro hkept
        exact hlost ⟨⟨hlossless, hfits⟩, hkept⟩
      rw [l.entry_of_some hbucket] at hlossless hfits
      have hnext := (h.check hnow hlossless).2
      have hafter := l.buckets_check_self key now
      rw [l.entry_of_some hbucket, refilled_eq hmax hfits] at hafter
      rw [← IdealBucket.seen_check l.rate i now] at hsorted
      obtain ⟨early, more, hprefix, hclock, hrefused⟩ :=
        ih (l := (l.check key now).2) hmax hafter hnext hsorted hrest
      rw [IdealBucket.seen_check] at hclock
      refine ⟨now :: early, more, List.cons_prefix_cons.mpr ⟨rfl, hprefix⟩,
        List.pairwise_cons_cons_iff_of_trans.mpr ⟨hnow, hclock⟩, ?_⟩
      intro hserves
      exact hrefused (List.forall₂_cons.mp hserves).2
    · obtain ⟨more, hclock, hrefused⟩ := refused_of_not_keptAt hmax hbucket h hnow hcall
      refine ⟨[now], more, List.cons_prefix_cons.mpr ⟨rfl, List.nil_prefix⟩,
        List.pairwise_cons_cons_iff_of_trans.mpr ⟨hnow, hclock⟩, ?_⟩
      rw [answers_check l hbucket]
      exact hrefused

end Runs

/-- A run in which no call loses tokens is served as the ideal bucket serves
it.  A run in which one does has a beginning that can be continued to a run
which is not. -/
theorem delivers_of_kept (maxRequests windowSecs : UInt64) (key : String) (times : List Nat)
    (hsorted : times.Pairwise (· ≤ ·)) :
    (Kept (.new .exact maxRequests.toNat windowSecs.toNat) key times →
      Delivers maxRequests windowSecs key times) ∧
    (¬ Kept (.new .exact maxRequests.toNat windowSecs.toNat) key times →
      ∃ early more, early <+: times ∧ (early ++ more).Pairwise (· ≤ ·) ∧
        ¬ Delivers maxRequests windowSecs key (early ++ more)) := by
  let l := RateLimiter.new .exact maxRequests.toNat windowSecs.toNat
  have hmax : l.maxRequests < u64Modulus := by
    have hlt := maxRequests.toNat_lt
    show max maxRequests.toNat 1 < u64Modulus
    unfold u64Modulus
    omega
  cases times with
  | nil => exact ⟨fun _ => .nil, fun hlost => absurd trivial hlost⟩
  | cons now rest =>
    have hfirst : KeptAt l key now := keptAt_of_none hmax rfl now
    have hfull : l.refilled (l.entry key now) now = ⟨l.rate.capacity, now⟩ :=
      l.refilled_self ⟨l.maxRequests, now⟩
    have htaken := Bucket.take_of_pos (b := ⟨l.rate.capacity, now⟩) l.rate.capacity_pos
    have hbucket := l.buckets_check_self key now
    rw [hfull, htaken] at hbucket
    obtain ⟨hadmitted, hinStep⟩ := InStep.first (K := ℚ) l.rate now
    have hclock :
        (((IdealBucket.full l.rate : IdealBucket ℚ).check l.rate now).2.seen :: rest).Pairwise
          (· ≤ ·) := by
      rw [IdealBucket.seen_check]
      exact hsorted
    have hgiven : (l.check key now).1 = true := by
      rw [l.check_fst, hfull, htaken]
    constructor
    · intro hkept
      have hsame := answers_of_kept (l := (l.check key now).2) hmax hbucket hinStep hclock hkept.2
      exact .cons (fun _ => hgiven) (Serves.of_eq hsame)
    · intro hlost
      have hrest : ¬ Kept (l.check key now).2 key rest := fun hkept => hlost ⟨hfirst, hkept⟩
      obtain ⟨early, more, hprefix, hafter, hrefused⟩ :=
        refused_of_not_kept (l := (l.check key now).2) hmax hbucket hinStep hclock hrest
      rw [IdealBucket.seen_check] at hafter
      refine ⟨now :: early, more, List.cons_prefix_cons.mpr ⟨rfl, hprefix⟩, hafter, ?_⟩
      intro hserves
      exact hrefused (List.forall₂_cons.mp hserves).2

/-- A bucket that is used up, and refilled after half a minute and after a whole one. -/
theorem delivers_of_kept_refill :
    Delivers 2 60 "10.0.0.1:4001" [0, 0, 0, 30000000000, 30000000000, 60000000000] :=
  (delivers_of_kept 2 60 "10.0.0.1:4001" [0, 0, 0, 30000000000, 30000000000, 60000000000]
    (by decide)).1 (by decide)

/-- Two requests in each second.  After 0.75 s one and a half tokens are
earned, and the half is lost: the call after 1 s is refused. -/
theorem refused_after_gap :
    ¬ ∀ (maxRequests windowSecs : UInt64) (key : String) (times : List Nat),
        1 ≤ maxRequests → 1 ≤ windowSecs → times.Pairwise (· ≤ ·) →
          Delivers maxRequests windowSecs key times := by
  intro h
  have hdelivers := h 2 1 "10.0.0.1:4001" [0, 0, 750000000, 1000000000] (by decide) (by decide)
    (by decide)
  revert hdelivers
  decide +kernel

end Xfiles.Http
