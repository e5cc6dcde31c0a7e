import Mathlib.Data.List.Forall2

/-!
# Bearer tokens

The model of `auth.rs`: the check of an API key in front of the handlers, and
the check of an agent token.

* `constantTimeEq` compares two strings without an early exit.
  `constantTimeEq_iff` says that it decides equality.
* `bearerMatches` is the check of a header, which `apiKeyMiddleware` and
  `checkAgentToken` both make.  `bearerMatches_iff` is its meaning.
* `MayPass` says which requests are let through, and `gate_iff` that it is these
  and no others, whatever the handler and the state of the hub.

A header value is of any type, with the `to_str` of the header library as a
parameter.
-/

namespace Xfiles.Auth

/-! ## Comparing tokens -/

/-- `str::as_bytes`. -/
def asBytes (s : String) : List UInt8 := s.toByteArray.data.toList

/-- `str::starts_with`. -/
def StartsWith (s start : String) : Prop := start.toList <+: s.toList

instance (s start : String) : Decidable (StartsWith s start) :=
  inferInstanceAs (Decidable (_ <+: _))

/-- Compare two tokens without early-exiting on the first differing byte. -/
def constantTimeEq (a b : String) : Bool :=
  if (asBytes a).length ≠ (asBytes b).length then false
  else ((asBytes a).zip (asBytes b)).foldl (fun diff pair => diff ||| (pair.1 ^^^ pair.2)) 0 == 0

theorem asBytes_injective {a b : String} (h : asBytes a = asBytes b) : a = b := by
  refine String.toByteArray_inj.mp (ByteArray.ext ?_)
  exact Array.toList_inj.mp h

/-- The accumulated bits are zero only if no pair differs. -/
theorem foldl_diff_eq_zero (pairs : List (UInt8 × UInt8)) (diff : UInt8) :
    pairs.foldl (fun diff pair => diff ||| (pair.1 ^^^ pair.2)) diff = 0 ↔
      diff = 0 ∧ ∀ pair ∈ pairs, pair.1 = pair.2 := by
  induction pairs generalizing diff with
  | nil => simp
  | cons pair rest ih =>
    rw [List.foldl_cons, ih, UInt8.or_eq_zero_iff, UInt8.xor_eq_zero_iff, List.forall_mem_cons,
      and_assoc]

/-- Bytes of one length are equal if no pair differs. -/
theorem eq_iff_zip {a b : List UInt8} (hlength : a.length = b.length) :
    (∀ pair ∈ a.zip b, pair.1 = pair.2) ↔ a = b := by
  rw [← List.forall₂_eq_eq_eq, List.forall₂_iff_zip]
  constructor
  · intro h
    exact ⟨hlength, fun hmem => h _ hmem⟩
  · intro h pair hmem
    exact h.2 hmem

theorem constantTimeEq_iff (a b : String) : constantTimeEq a b = true ↔ a = b := by
  unfold constantTimeEq
  constructor
  · intro h
    refine asBytes_injective ?_
    split at h
    · exact absurd h Bool.false_ne_true
    · rename_i hlength
      have hzero := (foldl_diff_eq_zero _ 0).mp (eq_of_beq h)
      exact (eq_iff_zip (not_not.mp hlength)).mp hzero.2
  · intro h
    subst h
    rw [if_neg (not_not.mpr rfl), beq_iff_eq, foldl_diff_eq_zero]
    exact ⟨rfl, (eq_iff_zip rfl).mpr rfl⟩

/-! ## Requests -/

/-- Authentication configuration. -/
structure AuthConfig where
  /-- API key required for proxy and admin endpoints. -/
  apiKey : Option String
  /-- Optional token required for WebSocket agent connections. -/
  agentToken : Option String

/-- The values by header name, in the order in which they were sent. -/
abbrev HeaderMap (V : Type*) := List (String × V)

/-- `HeaderMap::get`, the first value of a name. -/
def HeaderMap.get {V : Type*} (headers : HeaderMap V) (name : String) : Option V :=
  (headers.find? fun entry => entry.1 = name).map (·.2)

structure Request (V B : Type*) where
  method : String
  path : String
  headers : HeaderMap V
  body : B

structure Response where
  status : Nat
  body : String
  deriving DecidableEq

/-- The answer to a request without a valid key. -/
def unauthorized : Response where
  status := 401
  body := "Unauthorized"

section Gate

variable {V B : Type*} (toStr : V → Option String)

/-- The authorization header carries the token.  The scheme is ASCII, so that
its seven bytes are seven characters. -/
def bearerMatches (headers : HeaderMap V) (token : String) : Bool :=
  match (headers.get "authorization").bind toStr with
  | some header =>
    if StartsWith header "Bearer " then
      constantTimeEq (String.ofList (header.toList.drop 7)) token
    else false
  | none => false

/-- Tower middleware that enforces bearer-token auth on protected routes.  The
handler is run on the state of the hub. -/
def apiKeyMiddleware {S : Type*} (config : AuthConfig) (next : Request V B → S → Response × S)
    (request : Request V B) (s : S) : Response × S :=
  -- CORS preflight requests carry no credentials
  if request.method = "OPTIONS" then next request s
  -- public routes
  else if request.path = "/health" ∨ request.path = "/metrics" ∨
      StartsWith request.path "/ws/" then
    next request s
  else
    match config.apiKey with
    | some key =>
      if bearerMatches toStr request.headers key then next request s else (unauthorized, s)
    | none => next request s

/-- WebSocket-specific auth check (agent token). -/
def checkAgentToken (config : AuthConfig) (headers : HeaderMap V) : Bool :=
  match config.agentToken with
  | some token => bearerMatches toStr headers token
  | none => true

/-- The first authorization header is readable text: the scheme and the
token. -/
def Bears (headers : HeaderMap V) (token : String) : Prop :=
  ∃ value, headers.get "authorization" = some value ∧ toStr value = some ("Bearer " ++ token)

theorem drop_scheme (rest : List Char) : ("Bearer ".toList ++ rest).drop 7 = rest := rfl

/-- The text behind the scheme is the token. -/
theorem scheme_iff (header token : String) :
    (if StartsWith header "Bearer " then
      constantTimeEq (String.ofList (header.toList.drop 7)) token
      else false) = true ↔ header = "Bearer " ++ token := by
  have happend : header = "Bearer " ++ token ↔
      header.toList = "Bearer ".toList ++ token.toList := by
    rw [← String.toList_inj, String.toList_append]
  rw [happend]
  constructor
  · intro h
    split at h
    · rename_i hprefix
      obtain ⟨rest, hrest⟩ := hprefix
      have htoken := (constantTimeEq_iff _ _).mp h
      rw [← hrest, drop_scheme] at htoken
      rw [← hrest, ← htoken]
      exact congrArg _ String.toList_ofList.symm
    · exact absurd h Bool.false_ne_true
  · intro h
    have hstarts : StartsWith header "Bearer " := by
      rw [StartsWith, h]
      exact List.prefix_append _ _
    rw [if_pos hstarts, h, drop_scheme, String.ofList_toList]
    exact (constantTimeEq_iff token token).mpr rfl

theorem bearerMatches_iff (headers : HeaderMap V) (token : String) :
    bearerMatches toStr headers token = true ↔ Bears toStr headers token := by
  unfold bearerMatches Bears
  split
  · rename_i header hheader
    obtain ⟨value, hvalue, htext⟩ := Option.bind_eq_some_iff.mp hheader
    rw [scheme_iff]
    constructor
    · intro h
      exact ⟨value, hvalue, by rw [htext, h]⟩
    · intro hbears
      rcases hbears with ⟨other, hother, h⟩
      obtain rfl := Option.some.inj (hvalue.symm.trans hother)
      exact Option.some.inj (htext.symm.trans h)
  · rename_i hnone
    refine iff_of_false Bool.false_ne_true ?_
    intro hbears
    rcases hbears with ⟨value, hvalue, h⟩
    rw [hvalue, Option.bind_some, h] at hnone
    exact absurd hnone (Option.some_ne_none _)

/-- A request that is let through with the API key `key`. -/
def MayPass (key : String) (request : Request V B) : Prop :=
  request.method = "OPTIONS" ∨
    (request.path = "/health" ∨ request.path = "/metrics" ∨
      StartsWith request.path "/ws/") ∨
    Bears toStr request.headers key

/-- A request that may pass is handed on as it is. -/
theorem apiKeyMiddleware_of_mayPass {S : Type*} {key : String} {agentToken : Option String}
    {request : Request V B} (h : MayPass toStr key request)
    (next : Request V B → S → Response × S) (s : S) :
    apiKeyMiddleware toStr ⟨some key, agentToken⟩ next request s = next request s := by
  unfold apiKeyMiddleware
  split_ifs with hmethod hpath
  · rfl
  · rfl
  · rcases h with hoptions | hpublic | hbears
    · exact absurd hoptions hmethod
    · exact absurd hpublic hpath
    · show (if bearerMatches toStr request.headers key then _ else _) = _
      rw [if_pos ((bearerMatches_iff toStr _ _).mpr hbears)]

/-- Any other request is answered at once. -/
theorem apiKeyMiddleware_of_not_mayPass {S : Type*} {key : String} {agentToken : Option String}
    {request : Request V B} (h : ¬ MayPass toStr key request)
    (next : Request V B → S → Response × S) (s : S) :
    apiKeyMiddleware toStr ⟨some key, agentToken⟩ next request s = (unauthorized, s) := by
  obtain ⟨hmethod, hrest⟩ := not_or.mp h
  obtain ⟨hpath, hbears⟩ := not_or.mp hrest
  unfold apiKeyMiddleware
  rw [if_neg hmethod, if_neg hpath]
  show (if bearerMatches toStr request.headers key then _ else _) = _
  rw [if_neg fun hmatches => hbears ((bearerMatches_iff toStr _ _).mp hmatches)]

/-- With an API key, a request is handed on exactly if it may pass, and the
answer to any other one does not depend on the handler or on the state.  The
agent token is checked in the same way. -/
theorem gate_iff (key token : String) (other : Option String) (request : Request V B)
    (headers : HeaderMap V) (a b : String) :
    (MayPass toStr key request → ∀ (S : Type) (next : Request V B → S → Response × S) (s : S),
      apiKeyMiddleware toStr ⟨some key, other⟩ next request s = next request s) ∧
    (¬ MayPass toStr key request → ∀ (S : Type) (next : Request V B → S → Response × S) (s : S),
      apiKeyMiddleware toStr ⟨some key, other⟩ next request s = (unauthorized, s)) ∧
    (checkAgentToken toStr ⟨other, some token⟩ headers = true ↔ Bears toStr headers token) ∧
    (constantTimeEq a b = true ↔ a = b) :=
  ⟨fun h _ next s => apiKeyMiddleware_of_mayPass toStr h next s,
    fun h _ next s => apiKeyMiddleware_of_not_mayPass toStr h next s,
    bearerMatches_iff toStr headers token, constantTimeEq_iff a b⟩

end Gate

end Xfiles.Auth
