import Xfiles.Circuit.Basic

/-!
# The three phases of a circuit

What one endpoint's circuit is for, without the mutable fields: it counts
consecutive failures below a bound, then waits out a timeout, then lets a
bounded number of probes through.  `Phase` carries the two bounds as fields,
so a count that is out of bounds cannot be built, and a phase that waits
always knows the failure that it waits on.

`Represents` relates an entry of the breaker to a phase.  The three method
bodies keep the relation and give the answer of the phase, so
`entry_exec_represents` says that every entry of every run stands for the
phase that the calls on its endpoint lead to.  The relation does not bound
the failure counter outside the counting phase, and so it needs no
assumption about the wrap of that counter.
-/

namespace Xfiles.Circuit

/-- The number of consecutive failures that opens a circuit.  A threshold of
zero opens it at the first failure. -/
def Limits.tripBound (limits : Limits) : Nat := max limits.failureThreshold.toNat 1

/-- The number of probes that one half-open episode lets through.  The call
that opens the episode is a probe, whatever the limit. -/
def Limits.probeBound (limits : Limits) : Nat := max limits.halfOpenMaxCalls.toNat 1

theorem Limits.tripBound_pos (limits : Limits) : 0 < limits.tripBound :=
  Nat.lt_of_lt_of_le Nat.zero_lt_one (Nat.le_max_right _ _)

theorem Limits.probeBound_pos (limits : Limits) : 1 ≤ limits.probeBound :=
  Nat.le_max_right _ _

/-- The life of one circuit. -/
inductive Phase (limits : Limits) where
  | counting (failures : Nat) (below : failures < limits.tripBound)
  | waiting (since : Nat)
  | probing (since probes : Nat) (within : probes ≤ limits.probeBound)

namespace Phase

variable {limits : Limits}

/-- A circuit that has seen no failure. -/
def fresh : Phase limits := .counting 0 limits.tripBound_pos

/-- Ask for admission: the answer, and the phase after it. -/
def accept (now : Nat) : Phase limits → Bool × Phase limits
  | .counting failures below => (true, .counting failures below)
  | .waiting since =>
    if limits.recoveryTimeout ≤ now - since then
      (true, .probing since 1 limits.probeBound_pos)
    else
      (false, .waiting since)
  | .probing since probes within =>
    if h : probes < limits.halfOpenMaxCalls.toNat then
      (true, .probing since (probes + 1) (Nat.le_trans h (Nat.le_max_left _ _)))
    else
      (false, .probing since probes within)

/-- A success ends a count and ends a probe.  A circuit that waits ignores
it. -/
def succeed : Phase limits → Phase limits
  | .waiting since => .waiting since
  | _ => fresh

/-- A failure is counted, restarts a wait, and ends a probe. -/
def fail (now : Nat) : Phase limits → Phase limits
  | .counting failures _ =>
    if h : failures + 1 < limits.tripBound then .counting (failures + 1) h
    else .waiting now
  | _ => .waiting now

/-- The phase of `e` after one call on some endpoint. -/
def step (e : String) (phase : Phase limits) (call : Call) : Phase limits :=
  if e = call.endpointId then
    match call.op with
    | .allow => (phase.accept call.now).2
    | .recordSuccess => phase.succeed
    | .recordFailure => phase.fail call.now
  else
    phase

/-- The phase of `e` after a sequence of calls. -/
def exec (e : String) (phase : Phase limits) (calls : List Call) : Phase limits :=
  calls.foldl (step e) phase

/-- The entry stands for the phase. -/
def Represents (entry : EndpointCircuit) : Phase limits → Prop
  | .counting failures _ =>
    entry.state = .closed ∧ entry.failures.toNat = failures
  | .waiting since => entry.state = .opened ∧ entry.lastFailure = some since
  | .probing since probes _ =>
    entry.state = .halfOpen ∧ entry.lastFailure = some since ∧
      entry.halfOpenCalls.toNat = probes

theorem represents_fresh : Represents default (fresh : Phase limits) :=
  ⟨rfl, rfl⟩

/-- `allow` answers as the phase does. -/
theorem represents_allowEntry {entry : EndpointCircuit} {phase : Phase limits}
    (h : Represents entry phase) (now : Nat) :
    (limits.allowEntry now entry).1 = (phase.accept now).1 ∧
      Represents (limits.allowEntry now entry).2 (phase.accept now).2 := by
  cases phase with
  | counting failures below =>
    rw [allowEntry_closed h.1]
    exact ⟨rfl, h⟩
  | waiting since =>
    rw [allowEntry_opened h.1 h.2, accept]
    split
    · exact ⟨rfl, rfl, h.2, rfl⟩
    · exact ⟨rfl, h⟩
  | probing since probes within =>
    obtain ⟨hstate, hlast, hprobes⟩ := h
    rw [allowEntry_halfOpen hstate, accept]
    simp only [UInt32.lt_iff_toNat_lt, hprobes]
    split
    · have hmax := limits.halfOpenMaxCalls.toNat_lt
      refine ⟨rfl, hstate, hlast, ?_⟩
      simp only [UInt32.toNat_add, hprobes, UInt32.toNat_one]
      omega
    · exact ⟨rfl, hstate, hlast, hprobes⟩

theorem represents_recordSuccessEntry {entry : EndpointCircuit}
    {phase : Phase limits} (h : Represents entry phase) :
    Represents (recordSuccessEntry entry) phase.succeed := by
  cases phase with
  | counting failures below =>
    rw [recordSuccessEntry_closed h.1]
    exact ⟨h.1, rfl⟩
  | waiting since =>
    rw [recordSuccessEntry_opened h.1]
    exact h
  | probing since probes within =>
    rw [recordSuccessEntry_halfOpen h.1]
    exact ⟨rfl, rfl⟩

/-- The counter of a counting phase stays below the trip bound, so the next
failure does not wrap it. -/
theorem toNat_failures_succ {entry : EndpointCircuit} {failures : Nat}
    (h : entry.failures.toNat = failures) (below : failures < limits.tripBound) :
    (entry.failures + 1).toNat = failures + 1 := by
  have hthreshold := limits.failureThreshold.toNat_lt
  unfold Limits.tripBound at below
  rw [UInt32.toNat_add, h, UInt32.toNat_one, Nat.mod_eq_of_lt (by omega)]

/-- In a phase that waits or probes, a failure opens the circuit whatever
the counter holds, so a wrapped counter changes nothing. -/
theorem represents_recordFailureEntry {entry : EndpointCircuit}
    {phase : Phase limits} (h : Represents entry phase) (now : Nat) :
    Represents (limits.recordFailureEntry now entry) (phase.fail now) := by
  cases phase with
  | counting failures below =>
    obtain ⟨hstate, hfailures⟩ := h
    have hcount := toNat_failures_succ hfailures below
    rw [recordFailureEntry_of_ne (by simp [hstate]), fail]
    have hbound : limits.failureThreshold ≤ entry.failures + 1 ↔
        ¬ failures + 1 < limits.tripBound := by
      rw [UInt32.le_iff_toNat_le, hcount, Limits.tripBound]
      omega
    by_cases hlt : failures + 1 < limits.tripBound
    · rw [dif_pos hlt, if_neg (fun hle => hbound.mp hle hlt)]
      exact ⟨hstate, hcount⟩
    · rw [dif_neg hlt, if_pos (hbound.mpr hlt)]
      exact ⟨rfl, rfl⟩
  | waiting since =>
    rw [recordFailureEntry_of_ne (by simp [h.1]), h.1, ite_self]
    exact ⟨rfl, rfl⟩
  | probing since probes within =>
    rw [recordFailureEntry_halfOpen h.1]
    exact ⟨rfl, rfl⟩

theorem represents_step {cb : CircuitBreaker} {e : String}
    {phase : Phase cb.toLimits} (h : Represents (cb.entry e) phase) (call : Call) :
    Represents ((cb.step call).entry e) (phase.step e call) := by
  rw [CircuitBreaker.entry_step, step]
  split
  · unfold Limits.stepEntry
    cases call.op with
    | allow => exact (represents_allowEntry h call.now).2
    | recordSuccess => exact represents_recordSuccessEntry h
    | recordFailure => exact represents_recordFailureEntry h call.now
  · exact h

/-- Every entry of every run stands for the phase that the calls lead to. -/
theorem represents_exec (calls : List Call) {cb : CircuitBreaker} {e : String}
    {phase : Phase limits} (hlimits : cb.toLimits = limits)
    (h : Represents (cb.entry e) phase) :
    Represents ((cb.exec calls).entry e) (phase.exec e calls) := by
  induction calls generalizing cb phase with
  | nil => exact h
  | cons call rest ih =>
    subst hlimits
    exact ih (cb.toLimits_step call) (represents_step h call)

/-- The phase of `e` after a sequence of calls on a new breaker. -/
def after (limits : Limits) (e : String) (calls : List Call) : Phase limits :=
  fresh.exec e calls

theorem entry_exec_represents (limits : Limits) (e : String) (calls : List Call) :
    Represents (((CircuitBreaker.ofLimits limits).exec calls).entry e)
      (after limits e calls) :=
  represents_exec calls rfl represents_fresh

end Phase

end Xfiles.Circuit
