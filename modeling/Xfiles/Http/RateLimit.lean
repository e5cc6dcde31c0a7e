import Mathlib.Data.Set.Subsingleton
import Mathlib.Logic.Function.Basic
import Xfiles.Lib.Rounding
import Xfiles.Lib.TokenBucket

/-!
# The HTTP rate limit

The model of `ratelimit.rs`, with the text of socket addresses, from which the
middleware takes the key of a bucket.

* `IpAddr.text` and `SocketAddr.text` are the `Display` outputs of the standard
  library.
* `RateLimiter.check` is the check of one key.  `refill_check` says that it
  refills a bucket no faster than the configured rate.
* `checkAll` is a run of checks.  `granted_le` is the induction that bounds what
  is granted to one key in an interval, and `filter_checkAll` says that the
  answers to a key are those of its own calls alone.
* `serve` is the middleware on a list of arrivals.
* `perIp_iff_subsingleton` says that the requests of an IP address are bounded
  by the configured rate exactly when they all come from one source port.
  `two_ports_pass` is a run with two.

An `Instant` is a number of nanoseconds.  The refill is computed in an
`Arithmetic`.  That of the code is `Arithmetic.f64`.  In `Arithmetic.exact` the
quotient is the exact one, rounded down and saturated as the cast to `u64` does,
and the bounds by the configured rate are about this one.  The sum with the
tokens wraps as in a release build.
-/

namespace Xfiles.Http

open TokenBucket

/-! ## Addresses -/

/-- An IP address.  An IPv6 address has a zone, which is 0 unless it is
link-local. -/
inductive IpAddr where
  | v4 (a b c d : UInt8)
  | v6 (segments : Vector UInt16 8) (scopeId : UInt32)
  deriving DecidableEq

structure SocketAddr where
  ip : IpAddr
  port : UInt16
  deriving DecidableEq

/-- A run of zero segments. -/
structure Span where
  start : Nat
  len : Nat

/-- The next segment, at index `i`, with the current and the longest run of
zeros. -/
def Span.next (i : Nat) (segment : UInt16) (current longest : Span) : Span × Span :=
  if segment = 0 then
    let current := if current.len = 0 then ⟨i, 1⟩ else { current with len := current.len + 1 }
    (current, if longest.len < current.len then current else longest)
  else
    (⟨0, 0⟩, longest)

def longestZeros (i : Nat) (current longest : Span) : List UInt16 → Span
  | [] => longest
  | segment :: rest =>
    let next := Span.next i segment current longest
    longestZeros (i + 1) next.1 next.2 rest

def hexText (segments : List UInt16) : String :=
  ":".intercalate (segments.map fun segment => String.ofList (Nat.toDigits 16 segment.toNat))

def ipv4Text (a b c d : Nat) : String :=
  ".".intercalate [toString a, toString b, toString c, toString d]

/-- The text of the segments: an IPv4-mapped address ends with the IPv4
address, and the longest run of more than one zero is left out. -/
def ipv6Text (segments : List UInt16) : String :=
  match segments with
  | [0, 0, 0, 0, 0, 0xffff, x, y] =>
    "::ffff:" ++ ipv4Text (x.toNat / 256) (x.toNat % 256) (y.toNat / 256) (y.toNat % 256)
  | _ =>
    let zeros := longestZeros 0 ⟨0, 0⟩ ⟨0, 0⟩ segments
    if 1 < zeros.len then
      hexText (segments.take zeros.start) ++ "::" ++
        hexText (segments.drop (zeros.start + zeros.len))
    else
      hexText segments

/-- The address in front of the port. -/
def IpAddr.text : IpAddr → String
  | .v4 a b c d => ipv4Text a.toNat b.toNat c.toNat d.toNat
  | .v6 segments scopeId =>
    if scopeId = 0 then "[" ++ ipv6Text segments.toList ++ "]"
    else "[" ++ ipv6Text segments.toList ++ "%" ++ toString scopeId.toNat ++ "]"

def SocketAddr.text (addr : SocketAddr) : String :=
  addr.ip.text ++ ":" ++ toString addr.port.toNat

theorem toString_injective {m n : Nat} (h : toString m = toString n) : m = n := by
  rw [Nat.toString_eq_ofList_toDigits, Nat.toString_eq_ofList_toDigits] at h
  have hdigits : Nat.toDigits 10 m = Nat.toDigits 10 n := by
    simpa using congrArg String.toList h
  have hvalue := congrArg (fun digits => Nat.ofDigitChars 10 digits 0) hdigits
  simpa [Nat.ofDigitChars_ten_toDigits] using hvalue

/-- The text of an address tells its ports apart. -/
theorem text_port_injective {ip : IpAddr} {p q : UInt16}
    (h : SocketAddr.text ⟨ip, p⟩ = SocketAddr.text ⟨ip, q⟩) : p = q := by
  have hports : toString p.toNat = toString q.toNat := (String.append_right_inj _).mp h
  exact UInt16.toNat_inj.mp (toString_injective hports)

/-! ## Arithmetic -/

/-- The number of values of a `u64`. -/
def u64Modulus : Nat := 18446744073709551616

/-- How a refill is computed: a `u64`, of the elapsed nanoseconds, the seconds of the window
and the limit. -/
structure Arithmetic where
  refill (elapsed windowSecs maxRequests : Nat) : Nat
  refill_zero : ∀ windowSecs maxRequests, refill 0 windowSecs maxRequests = 0
  refill_lt : ∀ elapsed windowSecs maxRequests,
    refill elapsed windowSecs maxRequests < u64Modulus

/-- The cast of a number that is not negative to `u64` saturates. -/
def toU64 (n : Nat) : Nat := min n (u64Modulus - 1)

theorem toU64_zero : toU64 0 = 0 := by decide

theorem toU64_lt (n : Nat) : toU64 n < u64Modulus :=
  (Nat.min_le_right n (u64Modulus - 1)).trans_lt (by decide)

/-- The quotient of rational numbers, rounded down. -/
def Arithmetic.exact : Arithmetic where
  refill elapsed windowSecs maxRequests :=
    toU64 (elapsed * maxRequests / (1000000000 * windowSecs))
  refill_zero windowSecs maxRequests := by rw [Nat.zero_mul, Nat.zero_div, toU64_zero]
  refill_lt _ _ _ := toU64_lt _

/-- The result of an operation in `f64`.  All numbers here are 0 or between `2 ^ (-100)` and
`2 ^ 200`, where the exponents suffice. -/
def f64 (x : ℚ) : ℚ := Rounding.rounded 53 x

/-- `Duration::as_secs_f64`. -/
def asSecsF64 (nanos : Nat) : ℚ :=
  f64 (f64 (nanos / 1000000000 : Nat) + f64 ((nanos % 1000000000 : Nat) / 1000000000))

/-- `elapsed.as_secs_f64() / window.as_secs_f64() * self.max_requests as f64`. -/
def earnedF64 (elapsed windowSecs maxRequests : Nat) : ℚ :=
  f64 (f64 (asSecsF64 elapsed / asSecsF64 (1000000000 * windowSecs)) * f64 maxRequests)

theorem asSecsF64_zero : asSecsF64 0 = 0 := by
  simp [asSecsF64, f64]

theorem earnedF64_zero (windowSecs maxRequests : Nat) : earnedF64 0 windowSecs maxRequests = 0 := by
  simp [earnedF64, asSecsF64_zero, f64]

/-- The arithmetic of the code. -/
def Arithmetic.f64 : Arithmetic where
  refill elapsed windowSecs maxRequests := toU64 ⌊earnedF64 elapsed windowSecs maxRequests⌋₊
  refill_zero windowSecs maxRequests := by rw [earnedF64_zero, Nat.floor_zero, toU64_zero]
  refill_lt _ _ _ := toU64_lt _

/-! ## The limiter -/

variable {ar : Arithmetic}

/-- Simple token-bucket rate limiter keyed by client IP. -/
structure RateLimiter (ar : Arithmetic) where
  buckets : String → Option Bucket
  maxRequests : Nat
  windowSecs : Nat
  maxRequests_pos : 0 < maxRequests
  windowSecs_pos : 0 < windowSecs

namespace RateLimiter

/-- `RateLimiter::new`, which raises both limits to 1. -/
def new (ar : Arithmetic) (maxRequests windowSecs : Nat) : RateLimiter ar where
  buckets _ := none
  maxRequests := max maxRequests 1
  windowSecs := max windowSecs 1
  maxRequests_pos := by omega
  windowSecs_pos := by omega

/-- The configured rate, in nanoseconds. -/
def rate (l : RateLimiter ar) : Rate where
  capacity := l.maxRequests
  period := 1000000000 * l.windowSecs
  capacity_pos := l.maxRequests_pos
  period_pos := by
    have hpos := l.windowSecs_pos
    omega

/-- `entry(key).or_insert_with(..)`. -/
def entry (l : RateLimiter ar) (key : String) (now : Nat) : Bucket :=
  (l.buckets key).getD ⟨l.maxRequests, now⟩

/-- The tokens to add, as a `u64`. -/
def refill (l : RateLimiter ar) (elapsed : Nat) : Nat :=
  ar.refill elapsed l.windowSecs l.maxRequests

/-- Refill tokens based on elapsed time. -/
def refilled (l : RateLimiter ar) (bucket : Bucket) (now : Nat) : Bucket :=
  if 0 < l.refill (now - bucket.lastRefill) then
    ⟨min ((bucket.tokens + l.refill (now - bucket.lastRefill)) % u64Modulus) l.maxRequests, now⟩
  else
    bucket

def check (l : RateLimiter ar) (key : String) (now : Nat) : Bool × RateLimiter ar :=
  let taken := (l.refilled (l.entry key now) now).take
  (taken.1, { l with buckets := Function.update l.buckets key (some taken.2) })

/-- A check refills the bucket no faster than the rate. -/
theorem refill_check (l : RateLimiter .exact) (bucket : Bucket) (now : Nat) :
    Refill l.rate bucket now (l.refilled bucket now) := by
  have hearned : l.refill (now - bucket.lastRefill) ≤
      l.rate.earned (now - bucket.lastRefill) := Nat.min_le_left _ _
  by_cases hpos : 0 < l.refill (now - bucket.lastRefill)
  · rw [refilled, if_pos hpos]
    refine .fill _ (Nat.min_le_right _ _) ?_
    have hwrap := Nat.mod_le (bucket.tokens + l.refill (now - bucket.lastRefill)) u64Modulus
    omega
  · rw [refilled, if_neg hpos]
    refine .skip ?_
    have hmin : l.refill (now - bucket.lastRefill) =
        min (l.rate.earned (now - bucket.lastRefill)) (u64Modulus - 1) := rfl
    have hmax : 0 < u64Modulus - 1 := by decide
    omega

/-- A bucket that was just refilled is not refilled. -/
theorem refilled_self (l : RateLimiter ar) (bucket : Bucket) :
    l.refilled bucket bucket.lastRefill = bucket := by
  have hzero : ¬ 0 < l.refill (bucket.lastRefill - bucket.lastRefill) := by
    rw [Nat.sub_self, refill, ar.refill_zero]
    exact Nat.lt_irrefl 0
  rw [refilled, if_neg hzero]

theorem check_fst (l : RateLimiter ar) (key : String) (now : Nat) :
    (l.check key now).1 = (l.refilled (l.entry key now) now).take.1 := rfl

theorem rate_check (l : RateLimiter ar) (key : String) (now : Nat) :
    (l.check key now).2.rate = l.rate := rfl

theorem buckets_check_self (l : RateLimiter ar) (key : String) (now : Nat) :
    (l.check key now).2.buckets key = some (l.refilled (l.entry key now) now).take.2 :=
  Function.update_self key _ l.buckets

theorem buckets_check_of_ne (l : RateLimiter ar) {key other : String} (now : Nat)
    (h : other ≠ key) : (l.check key now).2.buckets other = l.buckets other :=
  Function.update_of_ne h _ l.buckets

theorem entry_of_none (l : RateLimiter ar) {key : String} (h : l.buckets key = none) (now : Nat) :
    l.entry key now = ⟨l.maxRequests, now⟩ := by
  rw [entry, h]
  rfl

theorem entry_of_some (l : RateLimiter ar) {key : String} {bucket : Bucket}
    (h : l.buckets key = some bucket) (now : Nat) : l.entry key now = bucket := by
  rw [entry, h]
  rfl

end RateLimiter

/-! ## The middleware -/

/-- What the middleware reads of a request. -/
structure Request where
  connectInfo : Option SocketAddr
  path : String
  deriving DecidableEq

/-- Extract client IP or fallback to path. -/
def Request.key (request : Request) : String :=
  (request.connectInfo.map SocketAddr.text).getD request.path

/-- `rate_limit_middleware`: whether the request passes, and the limiter
after it. -/
def rateLimitMiddleware (l : RateLimiter ar) (request : Request) (now : Nat) :
    Bool × RateLimiter ar :=
  l.check request.key now

structure Arrival where
  time : Nat
  request : Request
  deriving DecidableEq

/-- The middleware on each arrival in turn. -/
def serve (l : RateLimiter ar) : List Arrival → List (Arrival × Bool) × RateLimiter ar
  | [] => ([], l)
  | arrival :: rest =>
    let answer := rateLimitMiddleware l arrival.request arrival.time
    let more := serve answer.2 rest
    ((arrival, answer.1) :: more.1, more.2)

/-- A request of the IP address. -/
def Arrival.IsFrom (arrival : Arrival) (ip : IpAddr) : Prop :=
  ∃ port, arrival.request.connectInfo = some ⟨ip, port⟩

instance (arrival : Arrival) (ip : IpAddr) : Decidable (arrival.IsFrom ip) :=
  decidable_of_iff (arrival.request.connectInfo.map (·.ip) = some ip) <| by
    constructor
    · intro h
      obtain ⟨addr, haddr, rfl⟩ := Option.map_eq_some_iff.mp h
      exact ⟨addr.port, haddr⟩
    · rintro ⟨port, hport⟩
      rw [hport]
      rfl

/-- The requests of the IP address that pass in the interval from `s` to
`t`. -/
def passed (ip : IpAddr) (s t : Nat) (answers : List (Arrival × Bool)) : Nat :=
  answers.countP fun answer =>
    answer.2 && answer.1.IsFrom ip && s ≤ answer.1.time && answer.1.time ≤ t

/-- The quota of a key, which is whole as long as there is no bucket. -/
def QuotaOf (l : RateLimiter .exact) (key : String) (s seen c : Nat) : Prop :=
  match l.buckets key with
  | none => c = 0
  | some bucket => Quota l.rate s seen c bucket

namespace QuotaOf

variable {l : RateLimiter .exact} {key : String} {s seen c : Nat}

theorem le (h : QuotaOf l key s seen c) {t : Nat} (ht : seen ≤ t) :
    c ≤ l.rate.capacity + l.rate.earned (t - s) := by
  unfold QuotaOf at h
  split at h
  · omega
  · exact h.le ht

theorem wait (h : QuotaOf l key s seen c) {now : Nat} (hnow : seen ≤ now) :
    QuotaOf l key s now c := by
  unfold QuotaOf at *
  split at h
  · exact h
  · exact h.wait hnow

/-- A check of the key. -/
theorem check (h : QuotaOf l key s seen c) {now : Nat} (hnow : seen ≤ now) :
    QuotaOf (l.check key now).2 key s now (c + Quota.charge s now (l.check key now).1) := by
  unfold QuotaOf at *
  rw [l.buckets_check_self key now, l.rate_check key now, l.check_fst key now]
  cases hbucket : l.buckets key with
  | none =>
    rw [hbucket] at h
    have hzero : c = 0 := h
    have hfull : l.refilled ⟨l.maxRequests, now⟩ now = ⟨l.maxRequests, now⟩ :=
      l.refilled_self ⟨l.maxRequests, now⟩
    rw [l.entry_of_none hbucket, hfull, hzero, Nat.zero_add]
    exact Quota.fresh l.rate s now
  | some bucket =>
    rw [hbucket] at h
    have hquota : Quota l.rate s seen c bucket := h
    rw [l.entry_of_some hbucket]
    exact hquota.check hnow (l.refill_check bucket now)

theorem lower (h : QuotaOf l key s seen c) {c' : Nat} (hle : c' ≤ c) :
    QuotaOf l key s seen c' := by
  unfold QuotaOf at *
  split at h
  · omega
  · exact h.lower hle

/-- A check of any key, which is charged at most if it is for this one. -/
theorem check_any (h : QuotaOf l key s seen c) {now : Nat} (hnow : seen ≤ now) (other : String)
    {charged : Nat} (hcharged : charged ≤ if other = key then
      Quota.charge s now (l.check other now).1 else 0) :
    QuotaOf (l.check other now).2 key s now (c + charged) := by
  by_cases hkey : other = key
  · subst hkey
    rw [if_pos rfl] at hcharged
    exact (h.check hnow).lower (by omega)
  · rw [if_neg hkey] at hcharged
    have hsame := l.buckets_check_of_ne now (Ne.symm hkey)
    have hwait := h.wait hnow
    unfold QuotaOf at *
    rw [hsame]
    obtain rfl : charged = 0 := by omega
    exact hwait

end QuotaOf

/-! ## Runs of checks -/

/-- A call of `check`. -/
structure Check where
  key : String
  time : Nat
  deriving DecidableEq

/-- The calls in turn, with their answers. -/
def checkAll (l : RateLimiter ar) : List Check → List (Check × Bool) × RateLimiter ar
  | [] => ([], l)
  | call :: rest =>
    let answer := l.check call.key call.time
    let more := checkAll answer.2 rest
    ((call, answer.1) :: more.1, more.2)

/-- The calls for a key that return true in the interval from `s` to `t`. -/
def granted (key : String) (s t : Nat) (answers : List (Check × Bool)) : Nat :=
  answers.countP fun answer =>
    answer.2 && answer.1.key = key && s ≤ answer.1.time && answer.1.time ≤ t

theorem checkAll_cons (l : RateLimiter ar) (call : Check) (rest : List Check) :
    checkAll l (call :: rest) =
      ((call, (l.check call.key call.time).1) ::
          (checkAll (l.check call.key call.time).2 rest).1,
        (checkAll (l.check call.key call.time).2 rest).2) := rfl

theorem granted_cons (key : String) (s t : Nat) (call : Check) (admitted : Bool)
    (rest : List (Check × Bool)) :
    granted key s t ((call, admitted) :: rest) =
      (if admitted = true ∧ call.key = key ∧ s ≤ call.time ∧ call.time ≤ t then 1 else 0) +
        granted key s t rest := by
  rw [granted, List.countP_cons, Nat.add_comm]
  simp only [Bool.and_eq_true, decide_eq_true_eq, and_assoc]
  rfl

theorem map_fst_checkAll (l : RateLimiter ar) (calls : List Check) :
    (checkAll l calls).1.map Prod.fst = calls := by
  induction calls generalizing l with
  | nil => rfl
  | cons call rest ih => exact congrArg (call :: ·) (ih _)

/-- After the interval nothing is granted. -/
theorem granted_of_lt {key : String} {s t : Nat} (l : RateLimiter ar) {calls : List Check}
    (h : ∀ call ∈ calls, t < call.time) : granted key s t (checkAll l calls).1 = 0 := by
  rw [granted, List.countP_eq_zero]
  intro answer hanswer hcounts
  have hcall : answer.1 ∈ calls := by
    rw [← map_fst_checkAll l calls]
    exact List.mem_map_of_mem hanswer
  have hlate := h answer.1 hcall
  simp only [Bool.and_eq_true, decide_eq_true_eq] at hcounts
  omega

/-- What is granted to a key is bounded by its quota. -/
theorem granted_le (key : String) {s t : Nat} {calls : List Check}
    (hsorted : calls.Pairwise fun a b => a.time ≤ b.time) (l : RateLimiter .exact) (seen c : Nat)
    (hseen : ∀ call ∈ calls, seen ≤ call.time) (ht : seen ≤ t)
    (hquota : QuotaOf l key s seen c) :
    c + granted key s t (checkAll l calls).1 ≤ l.rate.capacity + l.rate.earned (t - s) := by
  induction calls generalizing l seen c with
  | nil => exact hquota.le ht
  | cons call rest ih =>
    obtain ⟨hfirst, hrest⟩ := List.pairwise_cons.mp hsorted
    have hnow := hseen call List.mem_cons_self
    by_cases hlate : t < call.time
    · rw [granted_of_lt]
      · exact hquota.le ht
      · intro other hmem
        rcases List.mem_cons.mp hmem with rfl | htail
        · exact hlate
        · have hle := hfirst other htail
          omega
    · rw [checkAll_cons, granted_cons, ← Nat.add_assoc]
      have hcharged : (if (l.check call.key call.time).1 = true ∧ call.key = key ∧
            s ≤ call.time ∧ call.time ≤ t then 1 else 0) ≤
          if call.key = key then Quota.charge s call.time (l.check call.key call.time).1
          else 0 := by
        split
        · rename_i hcounts
          rw [if_pos hcounts.2.1]
          exact Nat.le_of_eq (if_pos ⟨hcounts.1, hcounts.2.2.1⟩).symm
        · exact Nat.zero_le _
      have hnext := ih hrest _ call.time _ hfirst (by omega) (hquota.check_any hnow _ hcharged)
      rw [l.rate_check] at hnext
      exact hnext

/-! ### Buckets -/

/-- No bucket holds more than the limit. -/
def Capped (l : RateLimiter ar) : Prop :=
  ∀ key bucket, l.buckets key = some bucket → bucket.tokens ≤ l.maxRequests

theorem capped_new (maxRequests windowSecs : Nat) : Capped (.new ar maxRequests windowSecs) :=
  fun _ _ h => nomatch h

theorem tokens_refilled_le (l : RateLimiter ar) {bucket : Bucket}
    (hbucket : bucket.tokens ≤ l.maxRequests) (now : Nat) :
    (l.refilled bucket now).tokens ≤ l.maxRequests := by
  rw [RateLimiter.refilled]
  split
  · exact Nat.min_le_right _ _
  · exact hbucket

theorem capped_check {l : RateLimiter ar} (h : Capped l) (key : String) (now : Nat) :
    Capped (l.check key now).2 := by
  intro other bucket hbucket
  show bucket.tokens ≤ l.maxRequests
  by_cases hkey : other = key
  · subst hkey
    rw [l.buckets_check_self] at hbucket
    obtain rfl := Option.some.inj hbucket
    have hentry : (l.entry other now).tokens ≤ l.maxRequests := by
      cases hold : l.buckets other with
      | none => rw [l.entry_of_none hold]
      | some old =>
        rw [l.entry_of_some hold]
        exact h other old hold
    have hfilled := tokens_refilled_le l hentry now
    have htaken := (@Quota.take_tokens l.rate _ hfilled 0 now).1
    omega
  · rw [l.buckets_check_of_ne now hkey] at hbucket
    exact h other bucket hbucket

theorem capped_checkAll {l : RateLimiter ar} (h : Capped l) (calls : List Check) :
    Capped (checkAll l calls).2 ∧ (checkAll l calls).2.maxRequests = l.maxRequests := by
  induction calls generalizing l with
  | nil => exact ⟨h, rfl⟩
  | cons call rest ih => exact ih (capped_check h call.key call.time)

/-! ### Keys -/

/-- Two limiters that treat a key alike. -/
structure SameFor (key : String) (l l' : RateLimiter ar) : Prop where
  bucket : l.buckets key = l'.buckets key
  maxRequests : l.maxRequests = l'.maxRequests
  windowSecs : l.windowSecs = l'.windowSecs

theorem SameFor.symm {key : String} {l l' : RateLimiter ar} (h : SameFor key l l') :
    SameFor key l' l :=
  ⟨h.bucket.symm, h.maxRequests.symm, h.windowSecs.symm⟩

theorem SameFor.refilled {key : String} {l l' : RateLimiter ar} (h : SameFor key l l') (now : Nat) :
    l.refilled (l.entry key now) now = l'.refilled (l'.entry key now) now := by
  have hentry : l.entry key now = l'.entry key now := by
    rw [RateLimiter.entry, RateLimiter.entry, h.bucket, h.maxRequests]
  have hrefill : ∀ elapsed, l.refill elapsed = l'.refill elapsed := fun elapsed => by
    rw [RateLimiter.refill, RateLimiter.refill, h.maxRequests, h.windowSecs]
  rw [hentry, RateLimiter.refilled, RateLimiter.refilled, hrefill, h.maxRequests]

theorem SameFor.check {key : String} {l l' : RateLimiter ar} (h : SameFor key l l') (now : Nat) :
    SameFor key (l.check key now).2 (l'.check key now).2 where
  bucket := by rw [l.buckets_check_self, l'.buckets_check_self, h.refilled]
  maxRequests := h.maxRequests
  windowSecs := h.windowSecs

theorem SameFor.check_of_ne {key other : String} {l l' : RateLimiter ar} (h : SameFor key l l')
    (hne : key ≠ other) (now : Nat) : SameFor key (l.check other now).2 l' where
  bucket := by rw [l.buckets_check_of_ne now hne, h.bucket]
  maxRequests := h.maxRequests
  windowSecs := h.windowSecs

/-- The answers to a key are those of its own calls alone. -/
theorem filter_checkAll {key : String} {l l' : RateLimiter ar} (h : SameFor key l l')
    (calls : List Check) :
    (checkAll l calls).1.filter (fun answer => answer.1.key = key) =
      (checkAll l' (calls.filter fun call => call.key = key)).1 := by
  induction calls generalizing l l' with
  | nil => rfl
  | cons call rest ih =>
    rw [checkAll_cons]
    by_cases hkey : call.key = key
    · rw [List.filter_cons_of_pos (by simpa using hkey),
        List.filter_cons_of_pos (by simpa using hkey), checkAll_cons, hkey, ih (h.check call.time),
        l.check_fst, l'.check_fst, h.refilled]
    · rw [List.filter_cons_of_neg (by simpa using hkey),
        List.filter_cons_of_neg (by simpa using hkey)]
      exact ih (h.check_of_ne (Ne.symm hkey) call.time)

/-- What a bucket holds, and what is granted to a key over any interval of a
run. -/
theorem granted_checkAll_le {maxRequests windowSecs : Nat} (hmax : 1 ≤ maxRequests)
    (hwindow : 1 ≤ windowSecs) {calls : List Check}
    (hclock : calls.Pairwise fun a b => a.time ≤ b.time) (key : String) :
    (∀ bucket, (checkAll (.new .exact maxRequests windowSecs) calls).2.buckets key = some bucket →
      0 ≤ bucket.tokens ∧ bucket.tokens ≤ maxRequests) ∧
    (∀ s t, s ≤ t → granted key s t (checkAll (.new .exact maxRequests windowSecs) calls).1 ≤
      maxRequests + (t - s) * maxRequests / (1000000000 * windowSecs)) ∧
    (checkAll (.new .exact maxRequests windowSecs) calls).1.filter
        (fun answer => answer.1.key = key) =
      (checkAll (.new .exact maxRequests windowSecs)
        (calls.filter fun call => call.key = key)).1 := by
  have hcapacity : (RateLimiter.new .exact maxRequests windowSecs).maxRequests = maxRequests :=
    Nat.max_eq_left hmax
  have hperiod : (RateLimiter.new .exact maxRequests windowSecs).rate.period =
      1000000000 * windowSecs :=
    congrArg (1000000000 * ·) (Nat.max_eq_left hwindow)
  refine ⟨fun bucket hbucket => ?_, fun s t hst => ?_, filter_checkAll ⟨rfl, rfl, rfl⟩ calls⟩
  · obtain ⟨hcapped, hsame⟩ := capped_checkAll (capped_new maxRequests windowSecs) calls
    have hle := hcapped key bucket hbucket
    omega
  · have hle := @granted_le key s t _ hclock (.new .exact maxRequests windowSecs) 0 0
      (fun _ _ => Nat.zero_le _) (Nat.zero_le t) rfl
    have hrate : (RateLimiter.new .exact maxRequests windowSecs).rate.capacity = maxRequests :=
      hcapacity
    rw [Rate.earned, hrate, hperiod, Nat.zero_add] at hle
    exact hle

/-- A key that uses up its tokens at once, among another key's calls, and gets one more for
each half minute. -/
theorem granted_checkAll_le_refill :
    let calls : List Check := [⟨"a", 0⟩, ⟨"b", 0⟩, ⟨"a", 0⟩, ⟨"a", 0⟩, ⟨"a", 30000000000⟩,
      ⟨"a", 30000000000⟩, ⟨"a", 60000000000⟩]
    let answers := (checkAll (.new .exact 2 60) calls).1
    answers.map (·.2) = [true, true, true, false, true, false, true] ∧
      granted "a" 0 60000000000 answers ≤ 2 + (60000000000 - 0) * 2 / (1000000000 * 60) :=
  ⟨by decide,
    (granted_checkAll_le (by decide) (by decide) (by decide) "a").2.1 0 60000000000 (by decide)⟩

/-! ## Runs of the middleware -/

theorem serve_cons (l : RateLimiter ar) (arrival : Arrival) (rest : List Arrival) :
    (serve l (arrival :: rest)).1 =
      (arrival, (l.check arrival.request.key arrival.time).1) ::
        (serve (l.check arrival.request.key arrival.time).2 rest).1 := rfl

/-- Whether an answer counts for the IP address in the interval. -/
def Counts (ip : IpAddr) (s t : Nat) (arrival : Arrival) (admitted : Bool) : Prop :=
  admitted = true ∧ arrival.IsFrom ip ∧ s ≤ arrival.time ∧ arrival.time ≤ t

instance (ip : IpAddr) (s t : Nat) (arrival : Arrival) (admitted : Bool) :
    Decidable (Counts ip s t arrival admitted) :=
  inferInstanceAs (Decidable (_ ∧ _))

theorem passed_cons (ip : IpAddr) (s t : Nat) (arrival : Arrival) (admitted : Bool)
    (rest : List (Arrival × Bool)) :
    passed ip s t ((arrival, admitted) :: rest) =
      (if Counts ip s t arrival admitted then 1 else 0) + passed ip s t rest := by
  rw [passed, List.countP_cons, Nat.add_comm]
  simp only [Bool.and_eq_true, decide_eq_true_eq, and_assoc]
  rfl

/-- The check that the middleware makes for an arrival. -/
def Arrival.check (arrival : Arrival) : Check where
  key := arrival.request.key
  time := arrival.time

/-- If all requests of an IP address have one key, they are among what is
granted to that key. -/
theorem passed_le_granted {ip : IpAddr} {key : String} {arrivals : List Arrival}
    (hkey : ∀ arrival ∈ arrivals, arrival.IsFrom ip → arrival.request.key = key)
    (l : RateLimiter ar) (s t : Nat) :
    passed ip s t (serve l arrivals).1 ≤
      granted key s t (checkAll l (arrivals.map Arrival.check)).1 := by
  induction arrivals generalizing l with
  | nil => exact Nat.le_refl 0
  | cons arrival rest ih =>
    have hrest := ih (fun other hmem => hkey other (List.mem_cons_of_mem _ hmem))
      (l.check arrival.request.key arrival.time).2
    rw [serve_cons, passed_cons, List.map_cons, checkAll_cons, granted_cons]
    refine Nat.add_le_add ?_ hrest
    split
    · rename_i hcounts
      have hown := hkey arrival List.mem_cons_self hcounts.2.1
      exact Nat.le_of_eq (if_pos ⟨hcounts.1, hown, hcounts.2.2⟩).symm
    · exact Nat.zero_le _

/-- So they are bounded by the quota of that key. -/
theorem serve_le {ip : IpAddr} {key : String} {s t : Nat} {arrivals : List Arrival}
    (hkey : ∀ arrival ∈ arrivals, arrival.IsFrom ip → arrival.request.key = key)
    (hsorted : arrivals.Pairwise fun a b => a.time ≤ b.time) (l : RateLimiter .exact) (seen c : Nat)
    (hseen : ∀ arrival ∈ arrivals, seen ≤ arrival.time) (ht : seen ≤ t)
    (hquota : QuotaOf l key s seen c) :
    c + passed ip s t (serve l arrivals).1 ≤ l.rate.capacity + l.rate.earned (t - s) := by
  have hchecks : (arrivals.map Arrival.check).Pairwise fun a b => a.time ≤ b.time :=
    List.pairwise_map.mpr hsorted
  have hlate : ∀ call ∈ arrivals.map Arrival.check, seen ≤ call.time := by
    intro call hcall
    obtain ⟨arrival, hmem, rfl⟩ := List.mem_map.mp hcall
    exact hseen arrival hmem
  have hgranted := granted_le key hchecks l seen c hlate ht hquota
  have hpassed := passed_le_granted hkey l s t
  omega

/-! ## One source port, or several -/

/-- A request over the connection from a source port. -/
def requestFrom (ip : IpAddr) (port : UInt16) : Request where
  connectInfo := some ⟨ip, port⟩
  path := "/v1/chat/completions"

/-- The arrivals at time 0 from a source port. -/
def burst (ip : IpAddr) (port : UInt16) (n : Nat) : List Arrival :=
  List.replicate n ⟨0, requestFrom ip port⟩

/-- A bucket with enough tokens lets a burst pass. -/
theorem passed_burst (l : RateLimiter ar) (ip : IpAddr) (port : UInt16) {n : Nat} (tokens : Nat)
    (htokens : n ≤ tokens) (hentry : l.entry (requestFrom ip port).key 0 = ⟨tokens, 0⟩)
    (rest : List Arrival) :
    ∃ l' : RateLimiter ar,
      (∀ key, key ≠ (requestFrom ip port).key → l'.buckets key = l.buckets key) ∧
      l'.maxRequests = l.maxRequests ∧
      passed ip 0 0 (serve l (burst ip port n ++ rest)).1 =
        n + passed ip 0 0 (serve l' rest).1 := by
  induction n generalizing l tokens with
  | zero =>
    refine ⟨l, fun _ _ => rfl, rfl, ?_⟩
    rw [Nat.zero_add]
    rfl
  | succ n ih =>
    let key := (requestFrom ip port).key
    have htake : (l.refilled (l.entry key 0) 0).take = (true, ⟨tokens - 1, 0⟩) := by
      have hfull : l.refilled ⟨tokens, 0⟩ 0 = ⟨tokens, 0⟩ := l.refilled_self ⟨tokens, 0⟩
      rw [hentry, hfull, Bucket.take, if_pos (by show 0 < tokens; omega)]
    have hbucket : (l.check key 0).2.buckets key = some ⟨tokens - 1, 0⟩ := by
      rw [l.buckets_check_self, htake]
    obtain ⟨l', hothers, hmax, hpassed⟩ :=
      ih (l.check key 0).2 (tokens - 1) (by omega) (RateLimiter.entry_of_some _ hbucket 0)
    refine ⟨l', ?_, hmax, ?_⟩
    · intro other hother
      rw [hothers other hother, l.buckets_check_of_ne 0 hother]
    · have hadmitted : (l.check key 0).1 = true := by
        rw [l.check_fst, htake]
      show passed ip 0 0 (serve l (⟨0, requestFrom ip port⟩ :: (burst ip port n ++ rest))).1 = _
      rw [serve_cons, passed_cons, if_pos, hpassed]
      · omega
      · exact ⟨hadmitted, ⟨port, rfl⟩, Nat.le_refl 0, Nat.le_refl 0⟩

/-- The requests of the IP address are bounded in every run that meets
`admissible`. -/
def PerIp (maxRequests windowSecs : Nat) (ip : IpAddr) (admissible : List Arrival → Prop) : Prop :=
  ∀ arrivals : List Arrival, arrivals.Pairwise (fun a b => a.time ≤ b.time) →
    admissible arrivals → ∀ s t, s ≤ t →
      passed ip s t (serve (.new .exact maxRequests windowSecs) arrivals).1 ≤
        maxRequests + (t - s) * maxRequests / (1000000000 * windowSecs)

/-- All requests of the IP address come from the given source ports. -/
def Over (ip : IpAddr) (ports : Set UInt16) (arrivals : List Arrival) : Prop :=
  ∀ arrival ∈ arrivals, ∀ port, arrival.request.connectInfo = some ⟨ip, port⟩ → port ∈ ports

/-- Over two connections an IP address gets more than its rate: a full bucket
from the one and another request from the other. -/
theorem exceeds_of_ports {maxRequests : Nat} (hmax : 1 ≤ maxRequests) (windowSecs : Nat)
    (ip : IpAddr) {p q : UInt16} (hne : p ≠ q) :
    ∃ arrivals : List Arrival, arrivals.Pairwise (fun a b => a.time ≤ b.time) ∧
      Over ip {p, q} arrivals ∧
      passed ip 0 0 (serve (.new .exact maxRequests windowSecs) arrivals).1 = maxRequests + 1 := by
  refine ⟨burst ip p maxRequests ++ (burst ip q 1 ++ []), ?_, ?_, ?_⟩
  · apply List.pairwise_of_forall_mem_list
    intro a ha b hb
    have htime : ∀ arrival ∈ burst ip p maxRequests ++ (burst ip q 1 ++ []),
        arrival.time = 0 := by
      intro arrival hmem
      simp only [burst, List.mem_append, List.mem_replicate, List.not_mem_nil, or_false] at hmem
      rcases hmem with ⟨_, rfl⟩ | ⟨_, rfl⟩
      · rfl
      · rfl
    rw [htime a ha, htime b hb]
  · intro arrival hmem port hport
    simp only [burst, List.mem_append, List.mem_replicate, List.not_mem_nil, or_false] at hmem
    rcases hmem with ⟨_, rfl⟩ | ⟨_, rfl⟩
    · obtain rfl : p = port := congrArg SocketAddr.port (Option.some.inj hport)
      exact Set.mem_insert _ _
    · obtain rfl : q = port := congrArg SocketAddr.port (Option.some.inj hport)
      exact Set.mem_insert_of_mem _ rfl
  · have hcapacity : (RateLimiter.new .exact maxRequests windowSecs).maxRequests = maxRequests :=
      Nat.max_eq_left hmax
    obtain ⟨l, hothers, hsame, hfirst⟩ := passed_burst (.new .exact maxRequests windowSecs) ip p
      maxRequests (Nat.le_refl maxRequests) (by rw [RateLimiter.entry_of_none _ rfl, hcapacity])
      (burst ip q 1 ++ [])
    have hkey : (requestFrom ip q).key ≠ (requestFrom ip p).key := by
      intro heq
      exact hne (text_port_injective heq).symm
    have hnone : l.buckets (requestFrom ip q).key = none := hothers _ hkey
    obtain ⟨_, _, _, hsecond⟩ := passed_burst l ip q maxRequests hmax
      (by rw [l.entry_of_none hnone, hsame, hcapacity]) []
    rw [hfirst, hsecond]
    rfl

/-- The limit holds for every run over the given source ports of an IP address
exactly when there is at most one of them. -/
theorem perIp_iff_subsingleton {maxRequests windowSecs : Nat} (hmax : 1 ≤ maxRequests)
    (hwindow : 1 ≤ windowSecs) (ip : IpAddr) (ports : Set UInt16) :
    PerIp maxRequests windowSecs ip (Over ip ports) ↔ ports.Subsingleton := by
  constructor
  · intro hbound p hp q hq
    by_contra hne
    obtain ⟨arrivals, hsorted, hover, hpassed⟩ :=
      exceeds_of_ports hmax windowSecs ip hne
    have hports : Over ip ports arrivals := by
      intro arrival hmem port hport
      rcases hover arrival hmem port hport with rfl | rfl
      · exact hp
      · exact hq
    have hle := hbound arrivals hsorted hports 0 0 (Nat.le_refl 0)
    rw [hpassed, Nat.sub_self, Nat.zero_mul, Nat.zero_div] at hle
    omega
  · intro hsub arrivals hsorted hover s t hst
    have hrate : (RateLimiter.new .exact maxRequests windowSecs).rate.capacity = maxRequests :=
      Nat.max_eq_left hmax
    have hperiod : (RateLimiter.new .exact maxRequests windowSecs).rate.period =
        1000000000 * windowSecs :=
      congrArg (1000000000 * ·) (Nat.max_eq_left hwindow)
    -- all requests of the address share the key of its one port
    have hkey : ∃ key, ∀ arrival ∈ arrivals, arrival.IsFrom ip → arrival.request.key = key := by
      rcases hsub.eq_empty_or_singleton with hempty | ⟨p, hp⟩
      · refine ⟨"", fun arrival hmem ⟨port, hport⟩ => ?_⟩
        have hin := hover arrival hmem port hport
        rw [hempty] at hin
        exact absurd hin (Set.notMem_empty port)
      · refine ⟨(requestFrom ip p).key, fun arrival hmem ⟨port, hport⟩ => ?_⟩
        have hin := hover arrival hmem port hport
        rw [hp] at hin
        obtain rfl : port = p := hin
        rw [Request.key, hport]
        rfl
    obtain ⟨key, hkey⟩ := hkey
    have hle := serve_le (t := t) (s := s) hkey hsorted (.new .exact maxRequests windowSecs) 0 0
      (fun _ _ => Nat.zero_le _) (Nat.zero_le t) rfl
    rw [Rate.earned, hrate, hperiod, Nat.zero_add] at hle
    exact hle

/-- The address 10.0.0.1. -/
def clientIp : IpAddr := .v4 10 0 0 1

/-- With one request for each second, two connections from one address get two
requests at once. -/
theorem two_ports_pass :
    ¬ ∀ (maxRequests windowSecs : Nat) (ip : IpAddr), 1 ≤ maxRequests → 1 ≤ windowSecs →
        PerIp maxRequests windowSecs ip fun _ => True := by
  intro h
  obtain ⟨arrivals, hsorted, _, hpassed⟩ :=
    exceeds_of_ports (Nat.le_refl 1) 1 clientIp (p := 4001) (q := 4002) (by decide)
  have hle := h 1 1 clientIp (Nat.le_refl 1) (Nat.le_refl 1) arrivals hsorted trivial 0 0
    (Nat.le_refl 0)
  rw [hpassed] at hle
  omega

/-- Over the port 4001 alone, the limit holds. -/
theorem perIp_iff_subsingleton_one_port : PerIp 1 60 clientIp (Over clientIp {4001}) :=
  (perIp_iff_subsingleton (by decide) (by decide) clientIp {4001}).mpr Set.subsingleton_singleton

end Xfiles.Http
