import Mathlib.Logic.Function.Basic

/-!
# The circuit breaker

The model of `circuit.rs`.  A breaker keeps one `EndpointCircuit` for each
endpoint id in a concurrent map.  The map is a function to `Option`, so a
missing key is `none`.  Each method locks the one entry that it names, so a
call is one atomic step, and the model takes the clock reading of the call
as an argument.

* `allowEntry`, `recordSuccessEntry` and `recordFailureEntry` are the bodies
  of the three methods on the locked entry.
* `allow`, `recordSuccess` and `recordFailure` are the methods.
* `Call` and `exec` are a sequence of calls.
* `entry_step` is the lemma that every later proof uses: a call changes the
  entry that it names by its body, and no other entry.

An `Instant` is a number of nanoseconds, and a `Duration` likewise.
`elapsed` saturates, which is subtraction on `Nat`.  The two counters are
`u32`, and `failures += 1` wraps as in a release build.
-/

namespace Xfiles.Circuit

/-- Per-endpoint circuit state. -/
inductive CircuitState where
  | closed
  | opened
  | halfOpen
  deriving DecidableEq, Repr

/-- The entry of one endpoint. -/
structure EndpointCircuit where
  state : CircuitState
  failures : UInt32
  lastFailure : Option Nat
  halfOpenCalls : UInt32
  deriving DecidableEq, Repr

/-- `EndpointCircuit::default`, the entry of an endpoint never seen. -/
instance : Inhabited EndpointCircuit where
  default :=
    { state := .closed, failures := 0, lastFailure := none, halfOpenCalls := 0 }

/-- The fields of a breaker that no method changes. -/
structure Limits where
  failureThreshold : UInt32
  recoveryTimeout : Nat
  halfOpenMaxCalls : UInt32
  deriving DecidableEq, Repr

/-- A breaker: its limits, and one entry for each endpoint id seen. -/
structure CircuitBreaker extends Limits where
  state : String → Option EndpointCircuit

/-- A breaker that has seen no endpoint. -/
def CircuitBreaker.ofLimits (limits : Limits) : CircuitBreaker :=
  { limits with state := fun _ => none }

/-- `CircuitBreaker::new`.  The recovery timeout arrives in seconds. -/
def CircuitBreaker.new (failureThreshold : UInt32) (recoveryTimeoutSecs : Nat)
    (halfOpenMaxCalls : UInt32) : CircuitBreaker :=
  .ofLimits { failureThreshold, recoveryTimeout := recoveryTimeoutSecs * 1000000000,
              halfOpenMaxCalls }

/-! ## The bodies on one entry -/

/-- The body of `allow` on the locked entry: the answer, and the entry
after the call. -/
def Limits.allowEntry (limits : Limits) (now : Nat) (entry : EndpointCircuit) :
    Bool × EndpointCircuit :=
  match entry.state with
  | .closed => (true, entry)
  | .opened =>
    match entry.lastFailure with
    | some last =>
      if limits.recoveryTimeout ≤ now - last then
        (true, { entry with state := .halfOpen, halfOpenCalls := 1 })
      else
        (false, entry)
    | none => (false, entry)
  | .halfOpen =>
    if entry.halfOpenCalls < limits.halfOpenMaxCalls then
      (true, { entry with halfOpenCalls := entry.halfOpenCalls + 1 })
    else
      (false, entry)

/-- The body of `record_success` on the locked entry. -/
def recordSuccessEntry (entry : EndpointCircuit) : EndpointCircuit :=
  match entry.state with
  | .halfOpen => { entry with state := .closed, failures := 0, lastFailure := none }
  | .closed => { entry with failures := 0 }
  | .opened => entry

/-- The body of `record_failure` on the locked entry. -/
def Limits.recordFailureEntry (limits : Limits) (now : Nat)
    (entry : EndpointCircuit) : EndpointCircuit :=
  let counted :=
    { entry with failures := entry.failures + 1, lastFailure := some now }
  if counted.state = .halfOpen then
    { counted with state := .opened }
  else if limits.failureThreshold ≤ counted.failures then
    { counted with state := .opened }
  else
    counted

section Bodies

variable {limits : Limits} {entry : EndpointCircuit}

theorem allowEntry_closed (h : entry.state = .closed) (now : Nat) :
    limits.allowEntry now entry = (true, entry) := by
  simp only [Limits.allowEntry, h]

theorem allowEntry_opened {last : Nat} (h : entry.state = .opened)
    (hlast : entry.lastFailure = some last) (now : Nat) :
    limits.allowEntry now entry =
      if limits.recoveryTimeout ≤ now - last then
        (true, { entry with state := .halfOpen, halfOpenCalls := 1 })
      else (false, entry) := by
  simp only [Limits.allowEntry, h, hlast]

theorem allowEntry_halfOpen (h : entry.state = .halfOpen) (now : Nat) :
    limits.allowEntry now entry =
      if entry.halfOpenCalls < limits.halfOpenMaxCalls then
        (true, { entry with halfOpenCalls := entry.halfOpenCalls + 1 })
      else (false, entry) := by
  simp only [Limits.allowEntry, h]

/-- `allow` leaves the failure count alone. -/
@[simp] theorem allowEntry_failures (limits : Limits) (now : Nat)
    (entry : EndpointCircuit) :
    (limits.allowEntry now entry).2.failures = entry.failures := by
  unfold Limits.allowEntry
  repeat' split
  all_goals rfl

/-- `allow` leaves the time of the last failure alone. -/
@[simp] theorem allowEntry_lastFailure (limits : Limits) (now : Nat)
    (entry : EndpointCircuit) :
    (limits.allowEntry now entry).2.lastFailure = entry.lastFailure := by
  unfold Limits.allowEntry
  repeat' split
  all_goals rfl

/-- `allow` neither opens nor closes a circuit. -/
theorem allowEntry_closed_iff (limits : Limits) (now : Nat)
    (entry : EndpointCircuit) :
    (limits.allowEntry now entry).2.state = .closed ↔ entry.state = .closed := by
  unfold Limits.allowEntry
  repeat' split
  all_goals simp_all

theorem recordSuccessEntry_closed (h : entry.state = .closed) :
    recordSuccessEntry entry = { entry with failures := 0 } := by
  simp only [recordSuccessEntry, h]

theorem recordSuccessEntry_halfOpen (h : entry.state = .halfOpen) :
    recordSuccessEntry entry =
      { entry with state := .closed, failures := 0, lastFailure := none } := by
  simp only [recordSuccessEntry, h]

theorem recordSuccessEntry_opened (h : entry.state = .opened) :
    recordSuccessEntry entry = entry := by
  simp only [recordSuccessEntry, h]

/-- A failure in the half-open state opens the circuit, whatever the
count. -/
theorem recordFailureEntry_halfOpen (h : entry.state = .halfOpen) (now : Nat) :
    limits.recordFailureEntry now entry =
      { entry with state := .opened, failures := entry.failures + 1,
                   lastFailure := some now } := by
  simp only [Limits.recordFailureEntry, h, if_true]

theorem recordFailureEntry_of_ne (h : entry.state ≠ .halfOpen) (now : Nat) :
    limits.recordFailureEntry now entry =
      { entry with
        state := if limits.failureThreshold ≤ entry.failures + 1 then .opened
                 else entry.state
        failures := entry.failures + 1
        lastFailure := some now } := by
  simp only [Limits.recordFailureEntry, h, if_false]
  split <;> rfl

/-- A success ends a half-open episode or finds none. -/
theorem recordSuccessEntry_ne_halfOpen (entry : EndpointCircuit) :
    (recordSuccessEntry entry).state ≠ .halfOpen := by
  unfold recordSuccessEntry
  split <;> simp_all

/-- A failure ends a half-open episode or finds none. -/
theorem recordFailureEntry_ne_halfOpen (limits : Limits) (now : Nat)
    (entry : EndpointCircuit) :
    (limits.recordFailureEntry now entry).state ≠ .halfOpen := by
  by_cases h : entry.state = .halfOpen
  · simp [recordFailureEntry_halfOpen h]
  · rw [recordFailureEntry_of_ne h]
    dsimp only
    split
    · simp
    · exact h

/-- `allow` leaves a circuit half-open only if it found it so, or if it
opened the episode by returning `true`. -/
theorem allowEntry_halfOpen_cases {now : Nat}
    (h : (limits.allowEntry now entry).2.state = .halfOpen) :
    entry.state = .halfOpen ∨
      entry.state = .opened ∧ (limits.allowEntry now entry).1 = true := by
  cases hs : entry.state with
  | closed =>
    rw [allowEntry_closed hs, hs] at h
    exact absurd h (by simp)
  | halfOpen => exact Or.inl rfl
  | opened =>
    refine Or.inr ⟨rfl, ?_⟩
    cases hlast : entry.lastFailure with
    | none => simp [Limits.allowEntry, hs, hlast] at h
    | some last =>
      rw [allowEntry_opened hs hlast] at h ⊢
      split at h
      · rename_i htime
        rw [if_pos htime]
      · exact absurd (hs.symm.trans h) (by simp)

end Bodies

/-! ## The methods -/

namespace CircuitBreaker

/-- `entry(id).or_default()`. -/
def entry (cb : CircuitBreaker) (endpointId : String) : EndpointCircuit :=
  (cb.state endpointId).getD default

/-- The map after a write through the locked entry. -/
def put (cb : CircuitBreaker) (endpointId : String) (entry : EndpointCircuit) :
    CircuitBreaker :=
  { cb with state := Function.update cb.state endpointId (some entry) }

/-- Check if a request should be allowed through for this endpoint. -/
def allow (cb : CircuitBreaker) (endpointId : String) (now : Nat) :
    Bool × CircuitBreaker :=
  let answer := cb.allowEntry now (cb.entry endpointId)
  (answer.1, cb.put endpointId answer.2)

/-- Record a success for this endpoint.  An endpoint never seen keeps no
entry. -/
def recordSuccess (cb : CircuitBreaker) (endpointId : String) : CircuitBreaker :=
  match cb.state endpointId with
  | some entry => cb.put endpointId (recordSuccessEntry entry)
  | none => cb

/-- Record a failure for this endpoint. -/
def recordFailure (cb : CircuitBreaker) (endpointId : String) (now : Nat) :
    CircuitBreaker :=
  cb.put endpointId (cb.recordFailureEntry now (cb.entry endpointId))

/-- `get_state`: an endpoint never seen is closed. -/
def getState (cb : CircuitBreaker) (endpointId : String) : CircuitState :=
  ((cb.state endpointId).map (·.state)).getD .closed

end CircuitBreaker

/-! ## Sequences of calls -/

/-- The three methods that a caller sequences. -/
inductive Op where
  | allow
  | recordSuccess
  | recordFailure
  deriving DecidableEq, Repr

/-- One call, with the clock reading that it makes. -/
structure Call where
  op : Op
  endpointId : String
  now : Nat
  deriving DecidableEq, Repr

/-- A call, seen from the entry that it names. -/
def Limits.stepEntry (limits : Limits) (entry : EndpointCircuit) (call : Call) :
    EndpointCircuit :=
  match call.op with
  | .allow => (limits.allowEntry call.now entry).2
  | .recordSuccess => recordSuccessEntry entry
  | .recordFailure => limits.recordFailureEntry call.now entry

namespace CircuitBreaker

/-- The breaker after one call. -/
def step (cb : CircuitBreaker) (call : Call) : CircuitBreaker :=
  match call.op with
  | .allow => (cb.allow call.endpointId call.now).2
  | .recordSuccess => cb.recordSuccess call.endpointId
  | .recordFailure => cb.recordFailure call.endpointId call.now

/-- The breaker after a sequence of calls. -/
def exec (cb : CircuitBreaker) (calls : List Call) : CircuitBreaker :=
  calls.foldl step cb

@[simp] theorem exec_nil (cb : CircuitBreaker) : cb.exec [] = cb := rfl

@[simp] theorem exec_cons (cb : CircuitBreaker) (call : Call) (rest : List Call) :
    cb.exec (call :: rest) = (cb.step call).exec rest := rfl

@[simp] theorem exec_append (cb : CircuitBreaker) (first rest : List Call) :
    cb.exec (first ++ rest) = (cb.exec first).exec rest :=
  List.foldl_append

/-! ## What a call does to the map -/

theorem getState_eq (cb : CircuitBreaker) (endpointId : String) :
    cb.getState endpointId = (cb.entry endpointId).state := by
  unfold getState entry
  cases cb.state endpointId <;> rfl

@[simp] theorem entry_ofLimits (limits : Limits) (endpointId : String) :
    (ofLimits limits).entry endpointId = default := rfl

@[simp] theorem toLimits_ofLimits (limits : Limits) :
    (ofLimits limits).toLimits = limits := rfl

@[simp] theorem entry_put_self (cb : CircuitBreaker) (endpointId : String)
    (entry : EndpointCircuit) : (cb.put endpointId entry).entry endpointId = entry := by
  simp [put, CircuitBreaker.entry]

theorem entry_put_of_ne (cb : CircuitBreaker) {endpointId e : String}
    (entry : EndpointCircuit) (h : e ≠ endpointId) :
    (cb.put endpointId entry).entry e = cb.entry e := by
  simp [put, CircuitBreaker.entry, h]

@[simp] theorem allow_fst (cb : CircuitBreaker) (endpointId : String) (now : Nat) :
    (cb.allow endpointId now).1 =
      (cb.allowEntry now (cb.entry endpointId)).1 := rfl

@[simp] theorem toLimits_allow (cb : CircuitBreaker) (endpointId : String)
    (now : Nat) : (cb.allow endpointId now).2.toLimits = cb.toLimits := rfl

@[simp] theorem toLimits_recordFailure (cb : CircuitBreaker)
    (endpointId : String) (now : Nat) :
    (cb.recordFailure endpointId now).toLimits = cb.toLimits := rfl

@[simp] theorem toLimits_recordSuccess (cb : CircuitBreaker)
    (endpointId : String) :
    (cb.recordSuccess endpointId).toLimits = cb.toLimits := by
  unfold recordSuccess
  split <;> rfl

theorem entry_allow (cb : CircuitBreaker) (endpointId e : String) (now : Nat) :
    (cb.allow endpointId now).2.entry e =
      if e = endpointId then (cb.allowEntry now (cb.entry e)).2 else cb.entry e := by
  split
  · rename_i h
    subst h
    exact entry_put_self cb e _
  · rename_i h
    exact entry_put_of_ne cb _ h

/-- An endpoint never seen keeps no entry, and the body leaves the default
entry as it is, so the two cases of `record_success` read alike. -/
theorem entry_recordSuccess (cb : CircuitBreaker) (endpointId e : String) :
    (cb.recordSuccess endpointId).entry e =
      if e = endpointId then recordSuccessEntry (cb.entry e) else cb.entry e := by
  unfold recordSuccess
  by_cases h : e = endpointId
  · subst h
    rw [if_pos rfl]
    cases hfind : cb.state e with
    | none =>
      simp only [entry, hfind, Option.getD_none]
      rfl
    | some found => simp [entry, put, hfind]
  · rw [if_neg h]
    cases cb.state endpointId with
    | none => rfl
    | some found => exact entry_put_of_ne cb _ h

theorem entry_recordFailure (cb : CircuitBreaker) (endpointId e : String)
    (now : Nat) :
    (cb.recordFailure endpointId now).entry e =
      if e = endpointId then cb.recordFailureEntry now (cb.entry e)
      else cb.entry e := by
  split
  · rename_i h
    subst h
    exact entry_put_self cb e _
  · rename_i h
    exact entry_put_of_ne cb _ h

@[simp] theorem toLimits_step (cb : CircuitBreaker) (call : Call) :
    (cb.step call).toLimits = cb.toLimits := by
  unfold step
  cases call.op <;> simp

@[simp] theorem toLimits_exec (cb : CircuitBreaker) (calls : List Call) :
    (cb.exec calls).toLimits = cb.toLimits := by
  induction calls generalizing cb with
  | nil => rfl
  | cons call rest ih => rw [exec_cons, ih, toLimits_step]

/-- A call changes the entry that it names by its body, and no other. -/
theorem entry_step (cb : CircuitBreaker) (call : Call) (e : String) :
    (cb.step call).entry e =
      if e = call.endpointId then cb.stepEntry (cb.entry e) call
      else cb.entry e := by
  unfold step Limits.stepEntry
  cases call.op with
  | allow => exact entry_allow cb call.endpointId e call.now
  | recordSuccess => exact entry_recordSuccess cb call.endpointId e
  | recordFailure => exact entry_recordFailure cb call.endpointId e call.now

theorem entry_step_of_ne (cb : CircuitBreaker) {call : Call} {e : String}
    (h : call.endpointId ≠ e) : (cb.step call).entry e = cb.entry e := by
  rw [entry_step, if_neg (Ne.symm h)]

theorem entry_step_self (cb : CircuitBreaker) {call : Call} {e : String}
    (h : call.endpointId = e) :
    (cb.step call).entry e = cb.stepEntry (cb.entry e) call := by
  rw [entry_step, if_pos h.symm]

end CircuitBreaker

end Xfiles.Circuit
