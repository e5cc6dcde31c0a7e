import Xfiles.Circuit.Basic
import Xfiles.Quantum.Router

/-!
# The outcome of a proxied request

`chat_completions_handler` from the call of the upstream on, with
`ObservingStream`, which goes on observing while the client reads the answer.

* `Upstream` is what the upstream and the client do: the call fails, or there
  is an answer with a status and the results of polling its body.  The client
  may go away at any point.
* `Learners` is the circuit breaker and the quantum router, with a log of the
  outcomes recorded in each, which nothing reads.
* `quantumLog_pollAll` is the induction over the polls: a stream observes its
  first end or error, and nothing else.
* `oneTruthfulOutcome_iff_agrees` says that each learner gets one outcome, the
  same in both and true of the request, exactly when the request is of a kind
  on which the recording places agree.  `broken_stream_counts_twice` is a
  request on which they do not.

The body decoder and the texts of transport errors belong to other libraries,
and are arguments.
-/

namespace Xfiles.Proxy

open Xfiles.Circuit Xfiles.Quantum

/-- The clock readings that are at hand when an outcome is recorded. -/
structure Moment where
  latencyMs : Nat
  instant : Nat
  now : Int
  deriving DecidableEq, Repr

/-- The result of one poll of the upstream body. -/
inductive Poll where
  | pending
  | data (bytes : List UInt8)
  | error (text : String)
  | done
  deriving DecidableEq, Repr

/-- What happens after the call of the upstream.  Where the list of polls
stops without an end, the client has gone away. -/
inductive Upstream where
  /-- The client goes away before there is an answer. -/
  | abandoned
  | failed (text : String) (moment : Moment)
  | answered (status : Nat) (moment : Moment) (polls : List (Poll × Moment))
  deriving DecidableEq, Repr

/-- What the handler knows of the request when it calls the upstream. -/
structure Forwarded where
  conversationId : Uuid
  endpointId : String
  endpointName : String
  stream : Bool
  deriving DecidableEq, Repr

/-- The answer to the client. -/
inductive Response where
  | json (status : Nat) (body : Json)
  | stream (status : Nat) (polls : List Poll)

/-- `StatusCode::is_success`. -/
def isSuccess (status : Nat) : Bool :=
  200 ≤ status && status < 300

/-- The two learners, and the outcomes recorded in each. -/
structure Learners (F : Type*) where
  circuit : Option CircuitBreaker
  quantum : Option (QuantumRouter F)
  circuitLog : List (String × Bool)
  quantumLog : List (String × Bool)

variable {F : Type*}

/-- `record_success` or `record_failure`, if there is a breaker. -/
def Learners.recordCircuit (s : Learners F) (endpointId : String) (success : Bool)
    (moment : Moment) : Learners F :=
  match s.circuit with
  | some c =>
    { s with
      circuit :=
        some (if success then c.recordSuccess endpointId
          else c.recordFailure endpointId moment.instant)
      circuitLog := s.circuitLog ++ [(endpointId, success)] }
  | none => s

/-- How a body ends, for the client that polls it. -/
inductive Ending where
  | whole
  | broken
  deriving DecidableEq, Repr

/-- The first end or error among the polls. -/
def ending : List (Poll × Moment) → Option Ending
  | [] => none
  | (.done, _) :: _ => some .whole
  | (.error _, _) :: _ => some .broken
  | (.pending, _) :: rest => ending rest
  | (.data _, _) :: rest => ending rest

/-- `Response::json`: the bytes up to the end, decoded.  There is no result
when the polls stop before. -/
def readJson (decode : List UInt8 → Except String Json) (bytes : List UInt8) :
    List (Poll × Moment) → Option (Except String Json)
  | [] => none
  | (.done, _) :: _ => some (decode bytes)
  | (.error text, _) :: _ => some (.error text)
  | (.pending, _) :: rest => readJson decode bytes rest
  | (.data more, _) :: rest => readJson decode (bytes ++ more) rest

/-- The answer to a buffered request: the upstream body with the routing
fields, or an error. -/
def bufferedResponse (fwd : Forwarded) (status latencyMs : Nat) : Except String Json → Response
  | .ok (.object fields) =>
    .json status <| .object <|
      Json.insertField "xfiles_latency_ms" (.number (toString latencyMs)) <|
        Json.insertField "xfiles_endpoint_id" (.string fwd.endpointId) <|
          Json.insertField "xfiles_routed_to" (.string fwd.endpointName) fields
  | .ok body => .json status body
  | .error text =>
    .json 502 (.object [("error", .string ("failed to decode upstream response: " ++ text))])

/-- Stream wrapper that observes failures. -/
structure ObservingStream where
  conversationId : Uuid
  endpointId : String
  observed : Bool
  success : Bool
  deriving DecidableEq, Repr

section

variable [Arith F]

/-- `observe`, if there is a quantum router. -/
def Learners.observe (s : Learners F) (conversationId : Uuid) (endpointId : String)
    (success : Bool) (moment : Moment) : Learners F :=
  match s.quantum with
  | some q =>
    { s with
      quantum :=
        some (q.observe conversationId endpointId success moment.latencyMs moment.now).1
      quantumLog := s.quantumLog ++ [(endpointId, success)] }
  | none => s

namespace ObservingStream

/-- The first end or error is observed, with the flag given. -/
def observeOnce (this : ObservingStream) (success : Bool) (moment : Moment) (s : Learners F) :
    ObservingStream × Learners F :=
  if this.observed then (this, s)
  else ({ this with observed := true },
    s.observe this.conversationId this.endpointId success moment)

/-- `poll_next`, with the result of the inner stream. -/
def pollNext (this : ObservingStream) (poll : Poll) (moment : Moment) (s : Learners F) :
    Poll × ObservingStream × Learners F :=
  match poll with
  | .done => (.done, this.observeOnce this.success moment s)
  | .error text => (.error text, this.observeOnce false moment s)
  | other => (other, this, s)

/-- The client polls until the list ends, and then drops the stream. -/
def pollAll (this : ObservingStream) (s : Learners F) :
    List (Poll × Moment) → List Poll × Learners F
  | [] => ([], s)
  | (poll, moment) :: rest =>
    let next := this.pollNext poll moment s
    let more := next.2.1.pollAll next.2.2 rest
    (next.1 :: more.1, more.2)

end ObservingStream

/-- `chat_completions_handler` from the call of the upstream on, until the
answer has been produced or dropped. -/
def relay (decode : List UInt8 → Except String Json) (fwd : Forwarded) (s : Learners F) :
    Upstream → Option Response × Learners F
  | .abandoned => (none, s)
  | .failed text moment =>
    (some (.json 502 (.object [("error", .string ("upstream error: " ++ text))])),
      (s.observe fwd.conversationId fwd.endpointId false moment).recordCircuit fwd.endpointId false
        moment)
  | .answered status moment polls =>
    let success := isSuccess status
    let observed :=
      if fwd.stream then s else s.observe fwd.conversationId fwd.endpointId success moment
    let recorded := observed.recordCircuit fwd.endpointId success moment
    if fwd.stream then
      let stream : ObservingStream := ⟨fwd.conversationId, fwd.endpointId, false, success⟩
      let polled := stream.pollAll recorded polls
      (some (.stream status polled.1), polled.2)
    else
      ((readJson decode [] polls).map (bufferedResponse fwd status moment.latencyMs), recorded)

end

/-- The upstream answers with a success status, and its whole body reaches the
client without an error. -/
def Relayed (decode : List UInt8 → Except String Json) (stream : Bool) : Upstream → Prop
  | .abandoned => False
  | .failed _ _ => False
  | .answered status _ polls =>
    isSuccess status = true ∧
      if stream then ending polls = some .whole
      else ∃ json, readJson decode [] polls = some (.ok json)

/-- One outcome in each learner, the same in both, and true exactly when the
request succeeded. -/
def OneTruthfulOutcome (s : Learners F) (endpointId : String) (relayed : Prop) : Prop :=
  ∃ flag : Bool, s.circuitLog = [(endpointId, flag)] ∧ s.quantumLog = [(endpointId, flag)] ∧
    (flag = true ↔ relayed)

/-- The requests on which the recording places agree: the call fails; or a
buffered answer has another status, or a body that decodes; or a stream is
polled to its end, or breaks under another status. -/
def Agrees (decode : List UInt8 → Except String Json) (stream : Bool) : Upstream → Prop
  | .abandoned => False
  | .failed _ _ => True
  | .answered status _ polls =>
    if stream then
      match ending polls with
      | none => False
      | some .whole => True
      | some .broken => isSuccess status = false
    else
      isSuccess status = true → ∃ json, readJson decode [] polls = some (.ok json)

/-! ## What is recorded -/

/-- The outcomes of one request agree and are true of it exactly when its two
logs hold one flag that says so. -/
theorem oneTruthfulOutcome_iff {s : Learners F} {endpointId : String} {relayed : Prop}
    {first : Bool} {second : List (String × Bool)} (hcircuit : s.circuitLog = [(endpointId, first)])
    (hquantum : s.quantumLog = second) :
    OneTruthfulOutcome s endpointId relayed ↔
      second = [(endpointId, first)] ∧ (first = true ↔ relayed) := by
  constructor
  · rintro ⟨flag, hfirst, hsecond, hflag⟩
    obtain rfl : first = flag := by simpa [hcircuit] using hfirst
    exact ⟨hquantum.symm.trans hsecond, hflag⟩
  · rintro ⟨rfl, hflag⟩
    exact ⟨first, hcircuit, hquantum, hflag⟩

section

variable [Arith F]

@[simp] theorem circuitLog_observe (s : Learners F) (conversationId : Uuid)
    (endpointId : String) (success : Bool) (moment : Moment) :
    (s.observe conversationId endpointId success moment).circuitLog = s.circuitLog := by
  unfold Learners.observe
  split
  · rfl
  · rfl

theorem quantumLog_observe {s : Learners F} {q : QuantumRouter F} (h : s.quantum = some q)
    (conversationId : Uuid) (endpointId : String) (success : Bool) (moment : Moment) :
    (s.observe conversationId endpointId success moment).quantumLog =
      s.quantumLog ++ [(endpointId, success)] := by
  simp only [Learners.observe, h]

namespace ObservingStream

theorem circuitLog_pollAll (this : ObservingStream) (s : Learners F)
    (polls : List (Poll × Moment)) : (this.pollAll s polls).2.circuitLog = s.circuitLog := by
  induction polls generalizing this s with
  | nil => rfl
  | cons entry rest ih =>
    obtain ⟨poll, moment⟩ := entry
    show ((this.pollNext poll moment s).2.1.pollAll _ rest).2.circuitLog = _
    rw [ih]
    cases poll with
    | pending => rfl
    | data bytes => rfl
    | error text =>
      simp only [pollNext, observeOnce]
      split
      · rfl
      · exact circuitLog_observe s _ _ _ _
    | done =>
      simp only [pollNext, observeOnce]
      split
      · rfl
      · exact circuitLog_observe s _ _ _ _

/-- A stream that has observed observes nothing more. -/
theorem pollAll_of_observed {this : ObservingStream} (h : this.observed = true)
    (s : Learners F) (polls : List (Poll × Moment)) : (this.pollAll s polls).2 = s := by
  induction polls with
  | nil => rfl
  | cons entry rest ih =>
    obtain ⟨poll, moment⟩ := entry
    have hnext : (this.pollNext poll moment s).2 = (this, s) := by
      cases poll with
      | pending => rfl
      | data bytes => rfl
      | error text => simp only [pollNext, observeOnce, h, if_true]
      | done => simp only [pollNext, observeOnce, h, if_true]
    show ((this.pollNext poll moment s).2.1.pollAll (this.pollNext poll moment s).2.2 rest).2 = s
    rw [hnext]
    exact ih

/-- A stream that has not observed yet observes an error that it meets as a
failure. -/
theorem pollAll_cons_error {this : ObservingStream} (hfresh : this.observed = false)
    (s : Learners F) (text : String) (moment : Moment) (rest : List (Poll × Moment)) :
    (this.pollAll s ((.error text, moment) :: rest)).2 =
      s.observe this.conversationId this.endpointId false moment := by
  have hnext : (this.pollNext (.error text) moment s).2 =
      ({ this with observed := true },
        s.observe this.conversationId this.endpointId false moment) := by
    simp [pollNext, observeOnce, hfresh]
  show ((this.pollNext (.error text) moment s).2.1.pollAll
    (this.pollNext (.error text) moment s).2.2 rest).2 = _
  rw [hnext, pollAll_of_observed rfl]

/-- It observes an end with its own flag. -/
theorem pollAll_cons_done {this : ObservingStream} (hfresh : this.observed = false)
    (s : Learners F) (moment : Moment) (rest : List (Poll × Moment)) :
    (this.pollAll s ((.done, moment) :: rest)).2 =
      s.observe this.conversationId this.endpointId this.success moment := by
  have hnext : (this.pollNext .done moment s).2 =
      ({ this with observed := true },
        s.observe this.conversationId this.endpointId this.success moment) := by
    simp [pollNext, observeOnce, hfresh]
  show ((this.pollNext .done moment s).2.1.pollAll
    (this.pollNext .done moment s).2.2 rest).2 = _
  rw [hnext, pollAll_of_observed rfl]

/-- Only its first end or error is observed. -/
theorem quantumLog_pollAll {this : ObservingStream} (hfresh : this.observed = false)
    {s : Learners F} {q : QuantumRouter F} (hq : s.quantum = some q)
    (polls : List (Poll × Moment)) :
    (this.pollAll s polls).2.quantumLog =
      match ending polls with
      | none => s.quantumLog
      | some .whole => s.quantumLog ++ [(this.endpointId, this.success)]
      | some .broken => s.quantumLog ++ [(this.endpointId, false)] := by
  induction polls with
  | nil => rfl
  | cons entry rest ih =>
    obtain ⟨poll, moment⟩ := entry
    cases poll with
    | pending => exact ih
    | data bytes => exact ih
    | error text =>
      rw [pollAll_cons_error hfresh, quantumLog_observe hq]
      rfl
    | done =>
      rw [pollAll_cons_done hfresh, quantumLog_observe hq]
      rfl

end ObservingStream

/-! ## One outcome per request -/

/-- The learners before the outcome of a request is recorded. -/
def Learners.ready (c : CircuitBreaker) (q : QuantumRouter F) : Learners F where
  circuit := some c
  quantum := some q
  circuitLog := []
  quantumLog := []

variable (decode : List UInt8 → Except String Json) (fwd : Forwarded)

theorem circuitLog_answered (c : CircuitBreaker) (q : QuantumRouter F) (status : Nat)
    (moment : Moment) (polls : List (Poll × Moment)) :
    (relay decode fwd (.ready c q) (.answered status moment polls)).2.circuitLog =
      [(fwd.endpointId, isSuccess status)] := by
  unfold relay
  cases hstream : fwd.stream with
  | true =>
    simp only [if_true]
    rw [ObservingStream.circuitLog_pollAll]
    rfl
  | false => rfl

theorem quantumLog_answered_stream (hstream : fwd.stream = true) (c : CircuitBreaker)
    (q : QuantumRouter F) (status : Nat) (moment : Moment) (polls : List (Poll × Moment)) :
    (relay decode fwd (.ready c q) (.answered status moment polls)).2.quantumLog =
      match ending polls with
      | none => []
      | some .whole => [(fwd.endpointId, isSuccess status)]
      | some .broken => [(fwd.endpointId, false)] := by
  unfold relay
  simp only [hstream, if_true]
  rw [ObservingStream.quantumLog_pollAll rfl (q := q) rfl]
  cases ending polls with
  | none => rfl
  | some e =>
    cases e with
    | whole => rfl
    | broken => rfl

/-- For every upstream and client, one truthful outcome is recorded in each
learner exactly when the recording places agree on the request. -/
theorem oneTruthfulOutcome_iff_agrees (c : CircuitBreaker) (q : QuantumRouter F)
    (upstream : Upstream) :
    OneTruthfulOutcome (relay decode fwd (.ready c q) upstream).2 fwd.endpointId
        (Relayed decode fwd.stream upstream) ↔
      Agrees decode fwd.stream upstream := by
  cases upstream with
  | abandoned =>
    refine iff_of_false ?_ id
    rintro ⟨flag, hcircuit, _⟩
    exact absurd hcircuit (List.cons_ne_nil _ _).symm
  | failed text moment =>
    refine iff_of_true ⟨false, rfl, rfl, ?_⟩ trivial
    exact iff_of_false Bool.false_ne_true id
  | answered status moment polls =>
    have hcircuit := circuitLog_answered decode fwd c q status moment polls
    cases hstream : fwd.stream with
    | false =>
      have hquantum : (relay decode fwd (.ready c q)
          (.answered status moment polls)).2.quantumLog = [(fwd.endpointId, isSuccess status)] := by
        unfold relay
        simp only [hstream]
        rfl
      rw [oneTruthfulOutcome_iff hcircuit hquantum]
      simp only [Relayed, Agrees, Bool.false_eq_true, if_false, true_and]
      constructor
      · intro hflag hsuccess
        exact (hflag.mp hsuccess).2
      · intro hbody
        exact ⟨fun hsuccess => ⟨hsuccess, hbody hsuccess⟩, fun hrelayed => hrelayed.1⟩
    | true =>
      have hquantum := quantumLog_answered_stream decode fwd hstream c q status moment polls
      rw [oneTruthfulOutcome_iff hcircuit hquantum]
      simp only [Relayed, Agrees, if_true]
      cases hending : ending polls with
      | none => simp
      | some e =>
        cases e with
        | whole => simp
        | broken =>
          cases hsuccess : isSuccess status with
          | true => simp
          | false => simp

end

/-- A stream with status 200 that breaks after its first bytes. -/
def brokenStream : Upstream :=
  .answered 200 ⟨10, 0, 0⟩
    [(.data [123], ⟨20, 0, 0⟩), (.error "connection reset", ⟨30, 0, 0⟩)]

/-- The circuit breaker counts it as a success, and the quantum router as a
failure. -/
theorem broken_stream_counts_twice :
    ¬ ∀ (decode : List UInt8 → Except String Json) (fwd : Forwarded) (c : CircuitBreaker)
        (q : QuantumRouter Float) (upstream : Upstream),
        OneTruthfulOutcome (relay decode fwd (.ready c q) upstream).2 fwd.endpointId
          (Relayed decode fwd.stream upstream) := by
  intro h
  obtain ⟨flag, hcircuit, hquantum, _⟩ :=
    h (fun _ => .ok .null) ⟨1, "ep-a", "A", true⟩ (.new 3 30 1) (.new ⟨0.1, 0.1⟩) brokenStream
  have htrue : [("ep-a", true)] = [("ep-a", flag)] := hcircuit
  have hfalse : [("ep-a", false)] = [("ep-a", flag)] := hquantum
  exact absurd (htrue.trans hfalse.symm) (by decide)

end Xfiles.Proxy
