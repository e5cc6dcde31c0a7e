import Xfiles.Http.Overflow
import Xfiles.Http.Routes
import Xfiles.Lib.Service

/-!
# The layers of the HTTP server

The stack that `run` of `daemon.rs` puts in front of the handlers, on runs of requests.

* `answer` is the stack: the bearer tokens, then the rate limit if it is enabled, then the
  router.  `handle` are the handlers, with the three that need no API key written out.
* `refused_leave_no_trace` says that a run is the same without the requests that a layer
  refused: the other requests get the same answers, and the hub and the limiter end in the
  same state.
* `state_of_credentialed` says that with an API key and an agent token set, the state behind
  the handlers is the work of requests that carry one of them, and that all other requests get
  the answers of a hub without a state.  What these can do to the former is to use up the
  tokens of a connection that both come over.
-/

namespace Xfiles.Http

open Auth Service TokenBucket

/-! ## The stack -/

/-- The answer to a request over the limit. -/
def tooManyRequests : Auth.Response where
  status := 429
  body := "Rate limit exceeded. Try again later."

namespace Server

/-- A request with the time at which it comes and the address that the listener gave it. -/
structure Arrival (V B : Type*) where
  time : Nat
  connectInfo : Option SocketAddr
  request : Auth.Request V B

/-- What the rate limit reads of it. -/
def Arrival.limited {V B : Type*} (a : Arrival V B) : Http.Request where
  connectInfo := a.connectInfo
  path := a.request.path

/-- The limiter, unless it is disabled, and the state that the handlers share. -/
structure Hub (S : Type*) where
  limiter : Option (RateLimiter .f64)
  state : S

variable {V B S : Type*}

/-- The rate limit in front of the router. -/
def rateLimited (next : Auth.Request V B → S → Auth.Response × S) (a : Arrival V B)
    (hub : Hub S) : Auth.Response × Hub S :=
  match hub.limiter with
  | none =>
    let answer := next a.request hub.state
    (answer.1, { hub with state := answer.2 })
  | some l =>
    let verdict := rateLimitMiddleware l a.limited a.time
    if verdict.1 then
      let answer := next a.request hub.state
      (answer.1, ⟨some verdict.2, answer.2⟩)
    else
      (tooManyRequests, { hub with limiter := some verdict.2 })

/-- The layers: the authentication is outermost.  The handlers read the clock. -/
def answer (toStr : V → Option String) (config : AuthConfig)
    (next : Nat → Auth.Request V B → S → Auth.Response × S) (hub : Hub S) (a : Arrival V B) :
    Auth.Response × Hub S :=
  apiKeyMiddleware toStr config (fun _ hub => rateLimited (next a.time) a hub) a.request hub

/-- The limiter of the configuration. -/
def limiterOf (enabled : Bool) (maxRequests windowSecs : UInt64) : Option (RateLimiter .f64) :=
  if enabled then some (.new .f64 maxRequests.toNat windowSecs.toNat) else none

/-- `health_handler`. -/
def healthy : Auth.Response where
  status := 200
  body := "\x7b\"status\":\"ok\"\x7d"

/-- `metrics_handler`, on what the encoder answers. -/
def metricsHandler : Except String String → Auth.Response
  | .ok text => ⟨200, text⟩
  | .error e => ⟨500, e⟩

/-- `ws_handler_wrapped`.  The extractor of the upgrade runs before the agent token is checked. -/
def wsHandlerWrapped (toStr : V → Option String) (config : AuthConfig) (fw : Framework V B)
    (onUpgrade : Auth.Request V B → S → Auth.Response × S) (request : Auth.Request V B) (s : S) :
    Auth.Response × S :=
  match fw.rejectUpgrade request with
  | some rejection => (rejection, s)
  | none =>
    if checkAgentToken toStr config request.headers then onUpgrade request s
    else (unauthorized, s)

/-- The handlers, with those of the public paths. -/
def handle (toStr : V → Option String) (config : AuthConfig) (fw : Framework V B)
    (metrics : Except String String) (handlers : Handlers V B S) : Handlers V B S
  | .healthHandler, _, s => (healthy, s)
  | .metricsHandler, _, s => (metricsHandler metrics, s)
  | .wsHandlerWrapped, request, s =>
    wsHandlerWrapped toStr config fw (handlers .wsHandlerWrapped) request s
  | handler, request, s => handlers handler request s

/-! ## What gets through -/

section Layers

variable (toStr : V → Option String) (config : AuthConfig)

/-- The first layer hands the request on. -/
def passesKey (request : Auth.Request V B) : Bool :=
  (apiKeyMiddleware toStr config (fun _ (_ : Bool) => (unauthorized, true)) request false).2

/-- The second one does. -/
def admits (limiter : Option (RateLimiter .f64)) (a : Arrival V B) : Bool :=
  match limiter with
  | none => true
  | some l => (rateLimitMiddleware l a.limited a.time).1

def limiterAfter (limiter : Option (RateLimiter .f64)) (a : Arrival V B) :
    Option (RateLimiter .f64) :=
  limiter.map fun l => (rateLimitMiddleware l a.limited a.time).2

/-- The router sees the request. -/
def reaches (hub : Hub S) (a : Arrival V B) : Bool :=
  passesKey toStr config a.request && admits hub.limiter a

theorem apiKeyMiddleware_eq {T : Type*} (next : Auth.Request V B → T → Auth.Response × T)
    (request : Auth.Request V B) (t : T) :
    apiKeyMiddleware toStr config next request t =
      if passesKey toStr config request then next request t else (unauthorized, t) := by
  unfold passesKey apiKeyMiddleware
  by_cases hmethod : request.method = "OPTIONS"
  · simp [hmethod]
  · simp only [if_neg hmethod]
    by_cases hpath : request.path = "/health" ∨ request.path = "/metrics" ∨
        StartsWith request.path "/ws/"
    · simp [hpath]
    · simp only [if_neg hpath]
      cases config.apiKey with
      | none => rfl
      | some key => cases hmatches : bearerMatches toStr request.headers key <;> simp [hmatches]

theorem rateLimited_eq (next : Auth.Request V B → S → Auth.Response × S) (a : Arrival V B)
    (hub : Hub S) :
    rateLimited next a hub =
      if admits hub.limiter a then
        ((next a.request hub.state).1, ⟨limiterAfter hub.limiter a, (next a.request hub.state).2⟩)
      else (tooManyRequests, { hub with limiter := limiterAfter hub.limiter a }) := by
  unfold rateLimited admits limiterAfter
  cases hlimiter : hub.limiter with
  | none => rfl
  | some l => rfl

variable (next : Nat → Auth.Request V B → S → Auth.Response × S)

/-- A request that the first layer refuses. -/
theorem answer_of_not_passesKey {hub : Hub S} {a : Arrival V B}
    (h : passesKey toStr config a.request = false) :
    answer toStr config next hub a = (unauthorized, hub) := by
  rw [answer, apiKeyMiddleware_eq, h, if_neg Bool.false_ne_true]

/-- A request that only the second one refuses. -/
theorem answer_of_not_admits {hub : Hub S} {a : Arrival V B}
    (hkey : passesKey toStr config a.request = true) (h : admits hub.limiter a = false) :
    answer toStr config next hub a =
      (tooManyRequests, { hub with limiter := limiterAfter hub.limiter a }) := by
  rw [answer, apiKeyMiddleware_eq, hkey, if_pos rfl, rateLimited_eq, h,
    if_neg Bool.false_ne_true]

theorem answer_of_reaches {hub : Hub S} {a : Arrival V B}
    (h : reaches toStr config hub a = true) :
    answer toStr config next hub a =
      ((next a.time a.request hub.state).1,
        ⟨limiterAfter hub.limiter a, (next a.time a.request hub.state).2⟩) := by
  obtain ⟨hkey, hadmits⟩ := Bool.and_eq_true_iff.mp h
  rw [answer, apiKeyMiddleware_eq, hkey, if_pos rfl, rateLimited_eq, hadmits, if_pos rfl]

/-- An answer, and whether it is one of the router. -/
structure Reply where
  reached : Bool
  response : Auth.Response

def serve (hub : Hub S) (a : Arrival V B) : Reply × Hub S :=
  let answered := answer toStr config next hub a
  (⟨reaches toStr config hub a, answered.1⟩, answered.2)

theorem state_of_refused {hub : Hub S} {a : Arrival V B}
    (h : reaches toStr config hub a = false) :
    (serve toStr config next hub a).2.state = hub.state := by
  cases hkey : passesKey toStr config a.request with
  | false => rw [serve, answer_of_not_passesKey toStr config next hkey]
  | true =>
    rw [reaches, hkey, Bool.true_and] at h
    rw [serve, answer_of_not_admits toStr config next hkey h]

end Layers

/-! ## Refused requests -/

/-- A check that is refused changes nothing, as long as the sum of tokens is a `u64`. -/
theorem check_of_refused {l : RateLimiter .f64} {key : String} {now : Nat}
    (hsafe : SafeAt l key now) (h : (l.check key now).1 = false) : (l.check key now).2 = l := by
  let b := l.entry key now
  have htake : (l.refilled b now).take.1 = false := h
  have hzero : (l.refilled b now).tokens = 0 := by
    by_contra hne
    rw [Bucket.take, if_pos (Nat.pos_of_ne_zero hne)] at htake
    exact absurd htake (by simp)
  have hrefill : l.refill (now - b.lastRefill) = 0 := by
    by_contra hne
    have hpos : 0 < l.refill (now - b.lastRefill) := Nat.pos_of_ne_zero hne
    have hsum : b.tokens + l.refill (now - b.lastRefill) < u64Modulus :=
      hsafe.1 hpos
    rw [RateLimiter.refilled, if_pos hpos] at hzero
    have hmin : min ((b.tokens + l.refill (now - b.lastRefill)) % u64Modulus)
        l.maxRequests = 0 := hzero
    rw [Nat.mod_eq_of_lt hsum] at hmin
    have hmax := l.maxRequests_pos
    omega
  have hsame : l.refilled b now = b := by
    rw [RateLimiter.refilled, hrefill, if_neg (Nat.lt_irrefl 0)]
  have hbucket : l.buckets key = some b := by
    cases hkey : l.buckets key with
    | none =>
      have hfull : b = ⟨l.maxRequests, now⟩ := l.entry_of_none hkey now
      rw [hsame, hfull] at hzero
      exact absurd hzero (Nat.pos_iff_ne_zero.mp l.maxRequests_pos)
    | some bucket => rw [← l.entry_of_some hkey now]
  have htaken : (l.refilled b now).take.2 = b := by
    rw [hsame] at hzero ⊢
    rw [Bucket.take, hzero, if_neg (Nat.lt_irrefl 0)]
  show { l with buckets := Function.update l.buckets key (some (l.refilled b now).take.2) } = l
  rw [htaken, ← hbucket, Function.update_eq_self]

/-- The limiter has the limits of the configuration, and room for one token in each bucket. -/
def Sized (maxRequests windowSecs : Nat) (limiter : Option (RateLimiter .f64)) : Prop :=
  ∀ l, limiter = some l →
    Spent l ∧ l.maxRequests = max maxRequests 1 ∧ l.windowSecs = max windowSecs 1

theorem sized_limiterOf (enabled : Bool) (maxRequests windowSecs : UInt64) :
    Sized maxRequests.toNat windowSecs.toNat (limiterOf enabled maxRequests windowSecs) := by
  intro l hl
  cases enabled with
  | false => exact absurd hl (by simp [limiterOf])
  | true =>
    obtain rfl : RateLimiter.new .f64 maxRequests.toNat windowSecs.toNat = l := Option.some.inj hl
    exact ⟨spent_new _ _, rfl, rfl⟩

theorem Sized.after {maxRequests windowSecs : Nat} {limiter : Option (RateLimiter .f64)}
    (h : Sized maxRequests windowSecs limiter) (a : Arrival V B) :
    Sized maxRequests windowSecs (limiterAfter limiter a) := by
  intro l hl
  obtain ⟨l', hl', rfl⟩ := Option.map_eq_some_iff.mp hl
  obtain ⟨hspent, hmax, hwindow⟩ := h l' hl'
  exact ⟨hspent.check _ _, hmax, hwindow⟩

/-- A refused check of such a limiter. -/
theorem Sized.limiterAfter_eq {maxRequests windowSecs : Nat} {limiter : Option (RateLimiter .f64)}
    (h : Sized maxRequests windowSecs limiter) (hmax : maxRequests < u64Modulus)
    {uptime : Nat} (hlasts : Lasts maxRequests windowSecs uptime) {a : Arrival V B}
    (htime : a.time ≤ uptime) (hrefused : admits limiter a = false) :
    limiterAfter limiter a = limiter := by
  cases limiter with
  | none => rfl
  | some l =>
    obtain ⟨hspent, hlimit, hwindow⟩ := h l rfl
    have hbound : l.maxRequests < u64Modulus := by
      rw [hlimit]
      unfold u64Modulus at *
      omega
    have hidle : a.time - (l.entry a.limited.key a.time).lastRefill ≤ uptime := by omega
    have hsum := (lasts_iff hmax windowSecs _).mp (hlasts.mono hidle)
    rw [← hlimit, ← hwindow] at hsum
    exact congrArg some (check_of_refused (hspent.safeAt hbound hsum) hrefused)

/-- A refused request changes neither the limiter nor the state. -/
theorem Sized.serve_snd {maxRequests windowSecs : Nat} {hub : Hub S}
    (h : Sized maxRequests windowSecs hub.limiter) (hmax : maxRequests < u64Modulus)
    {uptime : Nat} (hlasts : Lasts maxRequests windowSecs uptime)
    (toStr : V → Option String) (config : AuthConfig)
    (next : Nat → Auth.Request V B → S → Auth.Response × S) {a : Arrival V B}
    (htime : a.time ≤ uptime) (hrefused : reaches toStr config hub a = false) :
    (serve toStr config next hub a).2 = hub := by
  cases hkey : passesKey toStr config a.request with
  | false => rw [serve, answer_of_not_passesKey toStr config next hkey]
  | true =>
    have hadmits : admits hub.limiter a = false := by
      rwa [reaches, hkey, Bool.true_and] at hrefused
    have hsame := h.limiterAfter_eq hmax hlasts htime hadmits
    rw [serve, answer_of_not_admits toStr config next hkey hadmits, hsame]

/-- **Refused requests leave no trace.**  A run without the requests that a layer refused gives
the other requests the same answers, and ends with the same limiter and the same state. -/
theorem refused_leave_no_trace (toStr : V → Option String) (config : AuthConfig)
    (next : Nat → Auth.Request V B → S → Auth.Response × S) (enabled : Bool)
    (maxRequests windowSecs : UInt64) {uptime : Nat}
    (hlasts : Lasts maxRequests.toNat windowSecs.toNat uptime) (s : S)
    {arrivals : List (Arrival V B)} (htimes : ∀ a ∈ arrivals, a.time ≤ uptime) :
    let start : Hub S := ⟨limiterOf enabled maxRequests windowSecs, s⟩
    let all := serveAll (serve toStr config next) start arrivals
    let reached := all.1.filter fun exchange => exchange.answer.reached
    serveAll (serve toStr config next) start (reached.map Exchange.request) = (reached, all.2) := by
  intro start all reached
  have hfilters : Filters (serve toStr config next) (serve toStr config next)
      (fun a : Arrival V B => a.time ≤ uptime) (fun exchange => exchange.answer.reached) Eq
      (fun hub hub' => hub = hub' ∧ Sized maxRequests.toNat windowSecs.toNat hub.limiter) := by
    constructor
    · intro hub hub' a _ hrelated hreached
      obtain ⟨rfl, hsized⟩ := hrelated
      refine ⟨rfl, rfl, ?_⟩
      rw [serve, answer_of_reaches toStr config next hreached]
      exact hsized.after a
    · intro hub hub' a htime hrelated hrefused
      obtain ⟨rfl, hsized⟩ := hrelated
      have hsame := hsized.serve_snd maxRequests.toNat_lt hlasts toStr config next htime hrefused
      rw [hsame]
      exact ⟨rfl, hsized⟩
  obtain ⟨hanswers, hstate, _⟩ := hfilters.serveAll htimes
    ⟨rfl, sized_limiterOf enabled maxRequests windowSecs⟩ (s := start) (t := start)
  exact Prod.ext hanswers hstate.symm

/-- A connection asks three times with a limit of two, and once without a key. -/
def refusedArrivals : List (Arrival String Unit) :=
  let request : Auth.Request String Unit :=
    ⟨"POST", "/msg", [("authorization", "Bearer k")], ()⟩
  [⟨0, some ⟨.v4 10 0 0 1, 4001⟩, request⟩,
    ⟨4, some ⟨.v4 10 0 0 1, 4001⟩, request⟩,
    ⟨5, some ⟨.v4 10 0 0 1, 4001⟩, { request with headers := [] }⟩,
    ⟨6, some ⟨.v4 10 0 0 1, 4001⟩, request⟩]

theorem refused_leave_no_trace_twice :
    let next := fun (_ : Nat) (_ : Auth.Request String Unit) (count : Nat) =>
      ((⟨200, "ok"⟩ : Auth.Response), count + 1)
    let all := serveAll (serve some ⟨some "k", none⟩ next) ⟨limiterOf true 2 60, 0⟩ refusedArrivals
    all.1.map (fun exchange => exchange.answer.response.status) = [200, 200, 401, 429] ∧
      (serveAll (serve some ⟨some "k", none⟩ next) ⟨limiterOf true 2 60, 0⟩
        ((all.1.filter fun exchange => exchange.answer.reached).map Exchange.request)).2.state =
          all.2.state := by
  intro next all
  have hlasts : Lasts (2 : UInt64).toNat (60 : UInt64).toNat 6 := by decide +kernel
  have htimes : ∀ a ∈ refusedArrivals, a.time ≤ 6 := by decide
  have hsame := refused_leave_no_trace some ⟨some "k", none⟩ next true 2 60 hlasts 0 htimes
  refine ⟨by decide +kernel, ?_⟩
  exact congrArg (fun result => result.2.state) hsame

/-! ## Requests without a credential -/

section Strangers

variable (toStr : V → Option String) (fw : Framework V B)

/-- The router over the handlers. -/
def server (config : AuthConfig) (metrics : Nat → Except String String)
    (handlers : Nat → Handlers V B S) (now : Nat) : Auth.Request V B → S → Auth.Response × S :=
  app fw (handle toStr config fw (metrics now) (handlers now))

/-- The request carries the API key or the agent token. -/
def credentialed (key token : String) (request : Auth.Request V B) : Bool :=
  bearerMatches toStr request.headers key || bearerMatches toStr request.headers token

/-- The answer of a hub without a state, of which only the public handlers are there. -/
def stateless (config : AuthConfig) (metrics : Nat → Except String String) (a : Arrival V B)
    (reached : Bool) : Auth.Response :=
  if passesKey toStr config a.request then
    if reached then
      (server toStr fw config metrics (fun _ _ _ s => (unauthorized, s)) a.time a.request ()).1
    else tooManyRequests
  else unauthorized

variable {key token : String} (metrics : Nat → Except String String)
  (handlers : Nat → Handlers V B S)

/-- Without the key a request passes by its method or its path. -/
theorem public_of_passesKey {other : Option String} {request : Auth.Request V B}
    (hpasses : passesKey toStr ⟨some key, other⟩ request = true)
    (hkey : bearerMatches toStr request.headers key = false)
    (hmethod : request.method ≠ "OPTIONS") :
    Public request.path := by
  unfold passesKey apiKeyMiddleware at hpasses
  rw [if_neg hmethod] at hpasses
  by_contra hpath
  have hprivate : ¬ (request.path = "/health" ∨ request.path = "/metrics" ∨
      StartsWith request.path "/ws/") := hpath
  rw [if_neg hprivate] at hpasses
  simp [hkey] at hpasses

theorem wsHandlerWrapped_of_stranger {request : Auth.Request V B}
    (htoken : bearerMatches toStr request.headers token = false) {other : Option String}
    (onUpgrade : Auth.Request V B → S → Auth.Response × S) (s : S) :
    wsHandlerWrapped toStr ⟨other, some token⟩ fw onUpgrade request s =
      ((fw.rejectUpgrade request).getD unauthorized, s) := by
  have hcheck : checkAgentToken toStr ⟨other, some token⟩ request.headers = false := htoken
  unfold wsHandlerWrapped
  cases fw.rejectUpgrade request with
  | some rejection => rfl
  | none => rw [hcheck, if_neg Bool.false_ne_true, Option.getD_none]

/-- The public handlers, for a request without the agent token. -/
theorem handle_of_public {handler : Handler} (hpublic : handler ∈ publicRoutes.map (·.2))
    {request : Auth.Request V B} (htoken : bearerMatches toStr request.headers token = false)
    (other : Option String) (answers : Except String String) (hs : Handlers V B S) (s : S) :
    handle toStr ⟨other, some token⟩ fw answers hs handler request s =
      ((handle toStr ⟨other, some token⟩ fw answers (fun _ _ (_ : Unit) => (unauthorized, ()))
        handler request ()).1, s) := by
  simp only [publicRoutes, List.map_cons, List.map_nil, List.mem_cons, List.not_mem_nil,
    or_false] at hpublic
  rcases hpublic with rfl | rfl | rfl
  · rfl
  · rfl
  · rw [handle, handle, wsHandlerWrapped_of_stranger toStr fw htoken,
      wsHandlerWrapped_of_stranger toStr fw htoken]

/-- A request that passes without a credential does nothing, and its answer does not depend on
the state or on the other handlers. -/
theorem server_of_stranger {a : Arrival V B}
    (hpasses : passesKey toStr ⟨some key, some token⟩ a.request = true)
    (hstranger : credentialed toStr key token a.request = false) (s : S) :
    server toStr fw ⟨some key, some token⟩ metrics handlers a.time a.request s =
      (stateless toStr fw ⟨some key, some token⟩ metrics a true, s) := by
  obtain ⟨hkey, htoken⟩ := Bool.or_eq_false_iff.mp hstranger
  rw [stateless, if_pos hpasses, if_pos rfl, server, server, app, app]
  by_cases hmethod : a.request.method = "OPTIONS"
  · rw [if_pos hmethod, if_pos hmethod]
  · have hpath := public_of_passesKey toStr hpasses hkey hmethod
    rw [if_neg hmethod, if_neg hmethod]
    cases hroute : fw.findRoute appRoutes a.request.path with
    | none => rfl
    | some route =>
      cases hfind : route.methods.find a.request.method with
      | none => simp only [hfind]
      | some handler =>
        have hpublic := handler_of_public hpath (fw.mem_of_findRoute hroute)
          (fw.fits_of_findRoute hroute) hfind
        have hhandle := handle_of_public toStr fw hpublic htoken (some key)
          (metrics a.time) (handlers a.time) s
        simp only [hfind, hhandle]
        split <;> rfl

/-- Such a request, or one that is refused. -/
theorem serve_of_stranger (hub : Hub S) {a : Arrival V B}
    (hstranger : credentialed toStr key token a.request = false) :
    let config : AuthConfig := ⟨some key, some token⟩
    let served := serve toStr config (server toStr fw config metrics handlers) hub a
    served.1.response = stateless toStr fw config metrics a served.1.reached ∧
      served.2.state = hub.state := by
  intro config served
  cases hkey : passesKey toStr config a.request with
  | false =>
    have hserved : served = (⟨reaches toStr config hub a, unauthorized⟩, hub) := by
      show serve _ _ _ hub a = _
      rw [serve, answer_of_not_passesKey toStr config _ hkey]
    rw [hserved, stateless, hkey]
    exact ⟨rfl, rfl⟩
  | true =>
    cases hadmits : admits hub.limiter a with
    | false =>
      have hanswer := answer_of_not_admits toStr config
        (server toStr fw config metrics handlers) hkey hadmits
      have hreached : reaches toStr config hub a = false := by rw [reaches, hkey, hadmits]; rfl
      have hserved : served = (⟨false, tooManyRequests⟩,
          { hub with limiter := limiterAfter hub.limiter a }) := by
        show serve _ _ _ hub a = _
        rw [serve, hanswer, hreached]
      rw [hserved, stateless, hkey]
      exact ⟨rfl, rfl⟩
    | true =>
      have hreached : reaches toStr config hub a = true := by rw [reaches, hkey, hadmits]; rfl
      have hanswer := answer_of_reaches toStr config
        (server toStr fw config metrics handlers) hreached
      rw [server_of_stranger toStr fw metrics handlers hkey hstranger] at hanswer
      have hserved : served = (⟨true, stateless toStr fw config metrics a true⟩,
          ⟨limiterAfter hub.limiter a, hub.state⟩) := by
        show serve _ _ _ hub a = _
        rw [serve, hanswer, hreached]
      rw [hserved]
      exact ⟨rfl, rfl⟩

/-- The strangers that reach the limiter do not come over a connection of the others. -/
def Apart (key token : String) (arrivals : List (Arrival V B)) : Prop :=
  ∀ a ∈ arrivals, credentialed toStr key token a.request = false →
    passesKey toStr ⟨some key, some token⟩ a.request = true →
    ∀ b ∈ arrivals, credentialed toStr key token b.request = true →
      a.limited.key ≠ b.limited.key

/-- The keys of the limiter that the requests with a credential use. -/
def keysOf (key token : String) (arrivals : List (Arrival V B)) (used : String) : Prop :=
  ∃ b ∈ arrivals, credentialed toStr key token b.request = true ∧ b.limited.key = used

/-- Two hubs with the same state, whose limiters treat the keys in `K` alike. -/
structure Alike (K : String → Prop) (hub hub' : Hub S) : Prop where
  state : hub.state = hub'.state
  limiter : Option.Rel (fun l l' => ∀ key, K key → SameFor key l l') hub.limiter hub'.limiter

theorem sameFor_refl (l : RateLimiter .f64) (key : String) : SameFor key l l := ⟨rfl, rfl, rfl⟩

theorem alike_refl (K : String → Prop) (hub : Hub S) : Alike K hub hub := by
  refine ⟨rfl, ?_⟩
  cases hub.limiter with
  | none => exact .none
  | some l => exact .some fun key _ => sameFor_refl l key

theorem Alike.admits {K : String → Prop} {hub hub' : Hub S} (h : Alike K hub hub')
    {a : Arrival V B} (ha : K a.limited.key) : admits hub.limiter a = admits hub'.limiter a := by
  cases hub with
  | mk limiter state =>
    cases hub' with
    | mk limiter' state' =>
      cases h.limiter with
      | none => rfl
      | some hsame => exact congrArg (fun b : Bucket => b.take.1) ((hsame _ ha).refilled a.time)

/-- A check by both. -/
theorem Alike.after {K : String → Prop} {hub hub' : Hub S} (h : Alike K hub hub')
    (a : Arrival V B) {s s' : S} (hstate : s = s') :
    Alike K ⟨limiterAfter hub.limiter a, s⟩ ⟨limiterAfter hub'.limiter a, s'⟩ := by
  refine ⟨hstate, ?_⟩
  cases hub with
  | mk limiter state =>
    cases hub' with
    | mk limiter' state' =>
      cases h.limiter with
      | none => exact .none
      | some hsame =>
        refine .some fun key hkey => ?_
        by_cases heq : key = a.limited.key
        · subst heq
          exact (hsame _ hkey).check a.time
        · exact (((hsame _ hkey).check_of_ne heq a.time).symm.check_of_ne heq a.time).symm

/-- A check of another key by the first one, if there is a limiter. -/
theorem Alike.after_left {K : String → Prop} {hub hub' : Hub S} (h : Alike K hub hub')
    {a : Arrival V B} (ha : hub.limiter = none ∨ ¬ K a.limited.key) :
    Alike K { hub with limiter := limiterAfter hub.limiter a } hub' := by
  refine ⟨h.state, ?_⟩
  cases hub with
  | mk limiter state =>
    cases hub' with
    | mk limiter' state' =>
      cases h.limiter with
      | none => exact .none
      | some hsame =>
        refine .some fun key hkey => ?_
        have hne : key ≠ a.limited.key := by
          intro heq
          exact (ha.resolve_left (by simp)) (heq ▸ hkey)
        exact (hsame _ hkey).check_of_ne hne a.time

/-- A stranger leaves the state and the keys of the others as they are. -/
theorem Alike.stranger {K : String → Prop} {hub hub' : Hub S} (h : Alike K hub hub')
    {a : Arrival V B} (hstranger : credentialed toStr key token a.request = false)
    (hkey : passesKey toStr ⟨some key, some token⟩ a.request = true →
      hub.limiter = none ∨ ¬ K a.limited.key) :
    let config : AuthConfig := ⟨some key, some token⟩
    Alike K (serve toStr config (server toStr fw config metrics handlers) hub a).2 hub' := by
  intro config
  cases hpasses : passesKey toStr config a.request with
  | false =>
    rw [serve, answer_of_not_passesKey toStr config _ hpasses]
    exact h
  | true =>
    have hleft := h.after_left (hkey hpasses)
    have hstate := (serve_of_stranger toStr fw metrics handlers hub hstranger).2
    have hlimiter : (serve toStr config (server toStr fw config metrics handlers) hub a).2.limiter =
        limiterAfter hub.limiter a := by
      rw [serve]
      cases hadmits : Server.admits hub.limiter a with
      | false => rw [answer_of_not_admits toStr config _ hpasses hadmits]
      | true =>
        rw [answer_of_reaches toStr config _ (by rw [reaches, hpasses, hadmits]; rfl)]
    refine ⟨hstate.trans h.state, ?_⟩
    rw [hlimiter]
    exact hleft.limiter

/-- A request with a credential is answered alike by both. -/
theorem Alike.serve {K : String → Prop} {hub hub' : Hub S} (h : Alike K hub hub')
    {a : Arrival V B} (ha : K a.limited.key) (config : AuthConfig)
    (next : Nat → Auth.Request V B → S → Auth.Response × S) :
    (Server.serve toStr config next hub' a).1 = (Server.serve toStr config next hub a).1 ∧
      Alike K (Server.serve toStr config next hub a).2
        (Server.serve toStr config next hub' a).2 := by
  have hadmits := h.admits ha
  have hreaches : reaches toStr config hub' a = reaches toStr config hub a := by
    rw [reaches, reaches, hadmits]
  cases hpasses : passesKey toStr config a.request with
  | false =>
    rw [Server.serve, Server.serve, hreaches, answer_of_not_passesKey toStr config next hpasses,
      answer_of_not_passesKey toStr config next hpasses]
    exact ⟨rfl, h⟩
  | true =>
    cases hadmit : Server.admits hub.limiter a with
    | false =>
      rw [Server.serve, Server.serve, hreaches,
        answer_of_not_admits toStr config next hpasses hadmit,
        answer_of_not_admits toStr config next hpasses (hadmits ▸ hadmit)]
      exact ⟨rfl, h.after a h.state⟩
    | true =>
      have hreached : reaches toStr config hub a = true := by rw [reaches, hpasses, hadmit]; rfl
      rw [Server.serve, Server.serve, answer_of_reaches toStr config next hreached,
        answer_of_reaches toStr config next (hreaches.trans hreached), hreaches, h.state]
      exact ⟨rfl, h.after a rfl⟩

theorem limiter_serve_none {config : AuthConfig}
    {next : Nat → Auth.Request V B → S → Auth.Response × S} {hub : Hub S}
    (h : hub.limiter = none) (a : Arrival V B) :
    (Server.serve toStr config next hub a).2.limiter = none := by
  rw [Server.serve, answer, apiKeyMiddleware_eq]
  split
  · rw [rateLimited, h]
  · exact h

/-- Strangers on other connections are not noticed by the requests with a credential. -/
theorem filter_credentialed {hub : Hub S} {arrivals : List (Arrival V B)}
    (hapart : hub.limiter = none ∨ Apart toStr key token arrivals) :
    let config : AuthConfig := ⟨some key, some token⟩
    let serve := serve toStr config (server toStr fw config metrics handlers)
    let mine := fun a : Arrival V B => credentialed toStr key token a.request
    let alone := serveAll serve hub (arrivals.filter mine)
    alone.1 = (serveAll serve hub arrivals).1.filter (fun exchange => mine exchange.request) ∧
      alone.2.state = (serveAll serve hub arrivals).2.state := by
  intro config serve mine alone
  let K := keysOf toStr key token arrivals
  have hfilters : Filters serve serve (· ∈ arrivals) (fun exchange => mine exchange.request) Eq
      fun s t => Alike K s t ∧ (hub.limiter = none → s.limiter = none) := by
    constructor
    · intro s t a hmem hrelated hkeep
      obtain ⟨halike, hnone⟩ := hrelated
      obtain ⟨hanswer, hafter⟩ := halike.serve toStr (a := a) ⟨a, hmem, hkeep, rfl⟩ config
        (server toStr fw config metrics handlers)
      exact ⟨hanswer, hafter, fun h => limiter_serve_none toStr (hnone h) a⟩
    · intro s t a hmem hrelated hdrop
      obtain ⟨halike, hnone⟩ := hrelated
      refine ⟨halike.stranger toStr fw metrics handlers hdrop fun hpasses => ?_,
        fun h => limiter_serve_none toStr (hnone h) a⟩
      rcases hapart with hoff | hapart
      · exact .inl (hnone hoff)
      · refine .inr ?_
        rintro ⟨b, hb, hmine, hsame⟩
        exact hapart a hmem hdrop hpasses b hb hmine hsame.symm
  have hstart : Alike K hub hub ∧ (hub.limiter = none → hub.limiter = none) :=
    ⟨alike_refl K hub, id⟩
  obtain ⟨hanswers, hlast, _⟩ := hfilters.serveAll (fun a ha => ha) hstart
  rw [map_request_filter] at hanswers hlast
  exact ⟨hanswers, hlast.state.symm⟩

/-- **Nothing without a credential.**  With an API key and an agent token set, the state behind
the handlers after a run is the work of the requests that carry one of the two and reached the
router.  The answer to any other request is that of a hub without a state.  Without a rate
limit, or if the others come over connections of their own, the requests with a credential are
answered as if they were alone. -/
theorem state_of_credentialed (key token : String) (hub : Hub S) (arrivals : List (Arrival V B)) :
    let config : AuthConfig := ⟨some key, some token⟩
    let serve := serve toStr config (server toStr fw config metrics handlers)
    let mine := fun a : Arrival V B => credentialed toStr key token a.request
    let all := serveAll serve hub arrivals
    all.2.state =
      ((all.1.filter fun exchange => exchange.answer.reached && mine exchange.request).map
          Exchange.request).foldl
        (fun s a => (server toStr fw config metrics handlers a.time a.request s).2) hub.state ∧
    (∀ exchange ∈ all.1, mine exchange.request = false →
      exchange.answer.response =
        stateless toStr fw config metrics exchange.request exchange.answer.reached) ∧
    (hub.limiter = none ∨ Apart toStr key token arrivals →
      let alone := serveAll serve hub (arrivals.filter mine)
      alone.1 = all.1.filter (fun exchange => mine exchange.request) ∧
        alone.2.state = all.2.state) := by
  intro config serve mine all
  refine ⟨view_serveAll Hub.state _ _ ?_ ?_ hub arrivals, ?_,
    filter_credentialed toStr fw metrics handlers⟩
  · intro t a hkeep
    obtain ⟨hreached, _⟩ := Bool.and_eq_true_iff.mp hkeep
    show (Server.serve toStr config _ t a).2.state = _
    rw [Server.serve, answer_of_reaches toStr config _ hreached]
  · intro t a hdrop
    rcases Bool.and_eq_false_iff.mp hdrop with hrefused | hstranger
    · exact state_of_refused toStr config _ hrefused
    · exact (serve_of_stranger toStr fw metrics handlers t hstranger).2
  · intro exchange hmem hstranger
    obtain ⟨t, _, hanswer⟩ := (invariant_serveAll (fun _ : Hub S => True)
      (fun _ _ _ _ => trivial) trivial).2 exchange hmem
    rw [hanswer]
    exact (serve_of_stranger toStr fw metrics handlers t hstranger).1

end Strangers

/-- A connection with the key, and the health checks of a stranger on another one. -/
def apartArrivals : List (Arrival String Unit) :=
  let mine : Auth.Request String Unit := ⟨"POST", "/msg", [("authorization", "Bearer k")], ()⟩
  let health : Auth.Request String Unit := ⟨"GET", "/health", [], ()⟩
  [⟨0, some ⟨.v4 10 0 0 1, 4002⟩, health⟩, ⟨1, some ⟨.v4 10 0 0 1, 4001⟩, mine⟩,
    ⟨2, some ⟨.v4 10 0 0 1, 4002⟩, health⟩, ⟨3, some ⟨.v4 10 0 0 1, 4001⟩, mine⟩]

theorem state_of_credentialed_apart :
    let handlers : Nat → Handlers String Unit Nat := fun _ _ _ count => (⟨200, "ok"⟩, count + 1)
    let serve := serve some ⟨some "k", some "t"⟩
      (server some firstFit ⟨some "k", some "t"⟩ (fun _ => .ok "") handlers)
    let all := serveAll serve ⟨limiterOf true 1 60, 0⟩ apartArrivals
    all.1.map (fun exchange => exchange.answer.response.status) = [200, 200, 429, 429] ∧
      (serveAll serve ⟨limiterOf true 1 60, 0⟩ (apartArrivals.filter fun a =>
        credentialed some "k" "t" a.request)).2.state = all.2.state := by
  intro handlers serve all
  refine ⟨by decide +kernel, ?_⟩
  have hapart : Apart some "k" "t" apartArrivals := by
    unfold Apart
    decide +kernel
  exact ((state_of_credentialed some firstFit (fun _ => .ok "") handlers "k" "t"
    ⟨limiterOf true 1 60, 0⟩ apartArrivals).2.2 (.inr hapart)).2

end Server

end Xfiles.Http
