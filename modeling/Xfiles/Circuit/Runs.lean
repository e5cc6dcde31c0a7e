import Mathlib.Algebra.Group.Nat.Defs
import Mathlib.Data.List.Induction
import Xfiles.Circuit.Phases

/-!
# Runs of the breaker

What holds in every state that a sequence of calls reaches from a new
breaker.

* `Ledger` counts the failures that the callers recorded for one endpoint.
  It reads the calls and the state before each call, never the counters of
  the breaker.  `Tracks` is the invariant that ties the counters to it.
* `OpenSince` is the state of a circuit that waits out its timeout.
* `trip_and_back_off` assembles the three laws: when a circuit trips, what
  an open circuit remembers, and how long it refuses.
-/

namespace Xfiles.Circuit

open CircuitBreaker

/-! ## The failures that the callers recorded -/

/-- The failures recorded for one endpoint. -/
structure Ledger where
  /-- `record_failure` calls since the last `record_success` that found the
  circuit closed or half-open. -/
  consecutive : Nat
  /-- `record_failure` calls since the circuit last closed. -/
  sinceClosed : Nat
  /-- The clock reading of the latest `record_failure`. -/
  latest : Option Nat
  deriving DecidableEq, Repr

/-- Enter one call on the endpoint, which found the circuit in `state`. -/
def Ledger.note (ledger : Ledger) (state : CircuitState) (call : Call) : Ledger :=
  match call.op with
  | .allow => ledger
  | .recordSuccess =>
    match state with
    | .closed => { ledger with consecutive := 0 }
    | .halfOpen => { ledger with consecutive := 0, sinceClosed := 0 }
    | .opened => ledger
  | .recordFailure =>
    { consecutive := ledger.consecutive + 1
      sinceClosed := ledger.sinceClosed + 1
      latest := some call.now }

theorem Ledger.note_sinceClosed_le (ledger : Ledger) (state : CircuitState)
    (call : Call) : (ledger.note state call).sinceClosed ≤ ledger.sinceClosed + 1 := by
  unfold note
  cases call.op with
  | allow => exact Nat.le_succ _
  | recordSuccess => cases state <;> simp
  | recordFailure => exact Nat.le_refl _

/-- One call of a run, with the ledger of `e` beside the breaker. -/
def audit (e : String) (book : CircuitBreaker × Ledger) (call : Call) :
    CircuitBreaker × Ledger :=
  (book.1.step call,
    if e = call.endpointId then book.2.note (book.1.getState e) call else book.2)

/-- The ledger of `e` after a sequence of calls on a new breaker. -/
def ledgerAfter (limits : Limits) (e : String) (calls : List Call) : Ledger :=
  (calls.foldl (audit e)
    (ofLimits limits, { consecutive := 0, sinceClosed := 0, latest := none })).2

theorem audit_fst (e : String) (calls : List Call)
    (book : CircuitBreaker × Ledger) :
    (calls.foldl (audit e) book).1 = book.1.exec calls := by
  induction calls generalizing book with
  | nil => rfl
  | cons call rest ih => exact ih (audit e book call)

theorem ledgerAfter_concat (limits : Limits) (e : String) (calls : List Call)
    (call : Call) :
    ledgerAfter limits e (calls ++ [call]) =
      if e = call.endpointId then
        (ledgerAfter limits e calls).note
          (((ofLimits limits).exec calls).getState e) call
      else ledgerAfter limits e calls := by
  unfold ledgerAfter
  rw [List.foldl_append, List.foldl_cons, List.foldl_nil, audit, audit_fst]

/-- The latest failure was recorded by one of the calls. -/
theorem latest_mem {limits : Limits} {e : String} {calls : List Call} {last : Nat}
    (h : (ledgerAfter limits e calls).latest = some last) :
    ∃ call ∈ calls, call.now = last := by
  induction calls using List.reverseRecOn with
  | nil => simp [ledgerAfter] at h
  | append_singleton calls call ih =>
    have hearlier : (ledgerAfter limits e calls).latest = some last →
        ∃ c ∈ calls ++ [call], c.now = last := by
      intro hlast
      obtain ⟨c, hc, hnow⟩ := ih hlast
      exact ⟨c, by simp [hc], hnow⟩
    rw [ledgerAfter_concat] at h
    split at h
    · unfold Ledger.note at h
      cases hop : call.op with
      | allow => exact hearlier (by simpa only [hop] using h)
      | recordSuccess =>
        refine hearlier ?_
        rw [hop] at h
        simp only at h
        split at h <;> exact h
      | recordFailure =>
        rw [hop] at h
        exact ⟨call, by simp, Option.some.inj h⟩
    · exact hearlier h

/-- The counters of an entry agree with the ledger. -/
structure Tracks (limits : Limits) (entry : EndpointCircuit) (ledger : Ledger) :
    Prop where
  failures : entry.failures.toNat = ledger.consecutive
  tripped : entry.state ≠ .closed → limits.tripBound ≤ ledger.consecutive
  latest : entry.state ≠ .closed → entry.lastFailure = ledger.latest
  le_sinceClosed : ledger.consecutive ≤ ledger.sinceClosed

theorem Tracks.fresh (limits : Limits) :
    Tracks limits default { consecutive := 0, sinceClosed := 0, latest := none } where
  failures := rfl
  tripped h := absurd rfl h
  latest h := absurd rfl h
  le_sinceClosed := Nat.le_refl 0

/-- One call keeps the counters in agreement, as long as fewer than `2 ^ 32`
failures were recorded since the circuit last closed. -/
theorem Tracks.note {limits : Limits} {entry : EndpointCircuit} {ledger : Ledger}
    (h : Tracks limits entry ledger) (call : Call)
    (hfew : (ledger.note entry.state call).sinceClosed < 2 ^ 32) :
    Tracks limits (limits.stepEntry entry call) (ledger.note entry.state call) := by
  have hle := h.le_sinceClosed
  unfold Limits.stepEntry Ledger.note at *
  cases hop : call.op with
  | allow =>
    simp only
    exact
      { failures := by rw [allowEntry_failures, h.failures]
        tripped := fun hs => h.tripped (fun hc => hs ((allowEntry_closed_iff ..).mpr hc))
        latest := fun hs => by
          rw [allowEntry_lastFailure]
          exact h.latest (fun hc => hs ((allowEntry_closed_iff ..).mpr hc))
        le_sinceClosed := hle }
  | recordSuccess =>
    cases hs : entry.state with
    | closed =>
      simp only [recordSuccessEntry_closed hs]
      exact ⟨rfl, fun hne => absurd hs hne, fun hne => absurd hs hne, Nat.zero_le _⟩
    | opened =>
      simp only [recordSuccessEntry_opened hs]
      exact h
    | halfOpen =>
      simp only [recordSuccessEntry_halfOpen hs]
      exact ⟨rfl, fun hne => absurd rfl hne, fun hne => absurd rfl hne, Nat.le_refl 0⟩
  | recordFailure =>
    simp only [hop] at hfew ⊢
    have hcount : (entry.failures + 1).toNat = ledger.consecutive + 1 := by
      rw [UInt32.toNat_add, h.failures, UInt32.toNat_one, Nat.mod_eq_of_lt (by omega)]
    by_cases hs : entry.state = .halfOpen
    · rw [recordFailureEntry_halfOpen hs]
      have htrip := h.tripped (by simp [hs])
      exact ⟨hcount, fun _ => by simp only; omega, fun _ => rfl, by simp only; omega⟩
    · rw [recordFailureEntry_of_ne hs]
      refine ⟨hcount, fun hne => ?_, fun _ => rfl, by simp only; omega⟩
      simp only [UInt32.le_iff_toNat_le, hcount] at hne ⊢
      by_cases htrip : limits.failureThreshold.toNat ≤ ledger.consecutive + 1
      · unfold Limits.tripBound
        omega
      · rw [if_neg htrip] at hne
        have := h.tripped hne
        omega

/-- Fewer than `2 ^ 32` failures of `e` are recorded between two closings of
its circuit. -/
def FewFailures (limits : Limits) (e : String) (calls : List Call) : Prop :=
  ∀ first, first <+: calls → (ledgerAfter limits e first).sinceClosed < 2 ^ 32

theorem sinceClosed_le_length (limits : Limits) (e : String) (calls : List Call) :
    (ledgerAfter limits e calls).sinceClosed ≤ calls.length := by
  induction calls using List.reverseRecOn with
  | nil => exact Nat.le_refl 0
  | append_singleton calls call ih =>
    rw [ledgerAfter_concat, List.length_append, List.length_singleton]
    split
    · have hnote := (ledgerAfter limits e calls).note_sinceClosed_le
        (((ofLimits limits).exec calls).getState e) call
      omega
    · omega

/-- A run of fewer than `2 ^ 32` calls records few failures. -/
theorem fewFailures_of_length {limits : Limits} {e : String} {calls : List Call}
    (h : calls.length < 2 ^ 32) : FewFailures limits e calls := by
  intro first hfirst
  have hle := hfirst.length_le
  have hcount := sinceClosed_le_length limits e first
  omega

theorem tracks_exec {limits : Limits} {e : String} {calls : List Call}
    (hfew : FewFailures limits e calls) :
    Tracks limits (((ofLimits limits).exec calls).entry e)
      (ledgerAfter limits e calls) := by
  induction calls using List.reverseRecOn with
  | nil => exact Tracks.fresh limits
  | append_singleton calls call ih =>
    have hpre : FewFailures limits e calls :=
      fun first hfirst => hfew first (hfirst.trans (List.prefix_append calls [call]))
    have hcall := hfew _ (List.prefix_refl _)
    rw [ledgerAfter_concat] at hcall ⊢
    rw [exec_append, exec_cons, exec_nil, entry_step, toLimits_exec, toLimits_ofLimits]
    split
    · rename_i he
      rw [if_pos he, getState_eq] at hcall
      rw [getState_eq]
      exact (ih hpre).note call hcall
    · exact ih hpre

/-! ## When a circuit trips -/

/-- A closed entry stands for a count below the trip bound. -/
theorem closed_below {limits : Limits} {e : String} {calls : List Call}
    (hs : ((ofLimits limits).exec calls).getState e = .closed) :
    (((ofLimits limits).exec calls).entry e).failures.toNat < limits.tripBound := by
  have h := Phase.entry_exec_represents limits e calls
  rw [getState_eq] at hs
  cases hphase : Phase.after limits e calls with
  | counting failures below =>
    rw [hphase] at h
    rw [h.2]
    exact below
  | waiting since =>
    rw [hphase] at h
    exact absurd (hs.symm.trans h.1) (by simp)
  | probing since probes within =>
    rw [hphase] at h
    exact absurd (hs.symm.trans h.1) (by simp)

/-- An entry that is not closed remembers a failure. -/
theorem lastFailure_isSome {limits : Limits} {e : String} {calls : List Call}
    (hs : ((ofLimits limits).exec calls).getState e ≠ .closed) :
    (((ofLimits limits).exec calls).entry e).lastFailure.isSome := by
  have h := Phase.entry_exec_represents limits e calls
  rw [getState_eq] at hs
  cases hphase : Phase.after limits e calls with
  | counting failures below =>
    rw [hphase] at h
    exact absurd h.1 hs
  | waiting since =>
    rw [hphase] at h
    simp [h.2]
  | probing since probes within =>
    rw [hphase] at h
    simp [h.2.1]

/-- A closed circuit opens at the failure that reaches the trip bound, and
at no other call. -/
theorem stepEntry_trips_iff {limits : Limits} {entry : EndpointCircuit}
    (hs : entry.state = .closed) (hbelow : entry.failures.toNat < limits.tripBound)
    (call : Call) :
    (limits.stepEntry entry call).state = .opened ↔
      call.op = .recordFailure ∧ entry.failures.toNat + 1 = limits.tripBound := by
  unfold Limits.stepEntry
  cases hop : call.op with
  | allow => simp [allowEntry_closed hs, hs]
  | recordSuccess => simp [recordSuccessEntry_closed hs, hs]
  | recordFailure =>
    have hcount := Phase.toNat_failures_succ rfl hbelow
    have hne : entry.state ≠ .halfOpen := by simp [hs]
    simp only [recordFailureEntry_of_ne hne, UInt32.le_iff_toNat_le, hcount, hs]
    unfold Limits.tripBound at *
    split
    · simp only [true_and, true_iff]
      omega
    · simp only [true_and, reduceCtorEq, false_iff]
      omega

/-! ## How long an open circuit refuses -/

/-- The circuit of `e` is open, and its latest failure is no earlier than
`last`. -/
def OpenSince (cb : CircuitBreaker) (e : String) (last : Nat) : Prop :=
  (cb.entry e).state = .opened ∧
    ∃ since, (cb.entry e).lastFailure = some since ∧ last ≤ since

/-- Before the timeout has run from `last`, the circuit answers no and stays
as it is. -/
theorem OpenSince.allowEntry_eq {cb : CircuitBreaker} {e : String} {last now : Nat}
    (h : OpenSince cb e last) (hlast : last ≤ now)
    (hearly : now < last + cb.recoveryTimeout) :
    cb.allowEntry now (cb.entry e) = (false, cb.entry e) := by
  obtain ⟨hs, since, hsince, hle⟩ := h
  rw [allowEntry_opened hs hsince, if_neg (by omega)]

/-- No call before that time closes the circuit or moves its latest failure
back. -/
theorem OpenSince.step {cb : CircuitBreaker} {e : String} {last : Nat} {call : Call}
    (h : OpenSince cb e last) (hlast : last ≤ call.now)
    (hearly : call.now < last + cb.recoveryTimeout) :
    OpenSince (cb.step call) e last := by
  have hallow := h.allowEntry_eq hlast hearly
  obtain ⟨hs, since, hsince, hle⟩ := h
  unfold OpenSince
  rw [entry_step]
  split
  · unfold Limits.stepEntry
    cases call.op with
    | allow =>
      simp only [hallow]
      exact ⟨hs, since, hsince, hle⟩
    | recordSuccess =>
      simp only [recordSuccessEntry_opened hs]
      exact ⟨hs, since, hsince, hle⟩
    | recordFailure =>
      simp only [recordFailureEntry_of_ne (show (cb.entry e).state ≠ .halfOpen by simp [hs]),
        hs, ite_self]
      exact ⟨trivial, call.now, rfl, hlast⟩
  · exact ⟨hs, since, hsince, hle⟩

theorem OpenSince.exec {e : String} {last : Nat} {calls : List Call}
    {cb : CircuitBreaker} (h : OpenSince cb e last)
    (hcalls : ∀ call ∈ calls, last ≤ call.now ∧ call.now < last + cb.recoveryTimeout) :
    OpenSince (cb.exec calls) e last := by
  induction calls generalizing cb with
  | nil => exact h
  | cons call rest ih =>
    obtain ⟨hlast, hearly⟩ := hcalls call (by simp)
    refine ih (h.step hlast hearly) ?_
    intro c hc
    have hlimits : (cb.step call).recoveryTimeout = cb.recoveryTimeout :=
      congrArg Limits.recoveryTimeout (cb.toLimits_step call)
    rw [hlimits]
    exact hcalls c (by simp [hc])

/-! ## Trip and back-off -/

/-- Trip and back-off of the circuit of `e`, after any calls on any
endpoints with a clock that does not go back.

* `closed` and `trips`: a closed circuit has counted the failures since the
  last success, below the trip bound, and it opens exactly at the failure
  that reaches the bound.
* `tripped`: a circuit that is not closed has counted at least the bound, and
  it remembers a failure, so the branch of `allow` that refuses for lack of
  one is not taken.
* `admits` and `refuses`: an open circuit admits exactly when the timeout has
  run since the latest failure.  Before that it refuses, whatever calls come
  in between. -/
structure TripAndBackOff (limits : Limits) (e : String) (calls : List Call) : Prop where
  closed : ((ofLimits limits).exec calls).getState e = .closed →
    (((ofLimits limits).exec calls).entry e).failures.toNat =
        (ledgerAfter limits e calls).consecutive ∧
      (ledgerAfter limits e calls).consecutive < max limits.failureThreshold.toNat 1
  trips : ∀ call, ((ofLimits limits).exec calls).getState e = .closed →
    (((ofLimits limits).exec (calls ++ [call])).getState e = .opened ↔
      call.op = .recordFailure ∧ call.endpointId = e ∧
        (ledgerAfter limits e calls).consecutive + 1 =
          max limits.failureThreshold.toNat 1)
  tripped : ((ofLimits limits).exec calls).getState e ≠ .closed →
    max limits.failureThreshold.toNat 1 ≤
        (((ofLimits limits).exec calls).entry e).failures.toNat ∧
      (((ofLimits limits).exec calls).entry e).lastFailure.isSome
  admits : ((ofLimits limits).exec calls).getState e = .opened →
    ∃ last, (ledgerAfter limits e calls).latest = some last ∧
      ∀ now, (∀ call ∈ calls, call.now ≤ now) →
        ((((ofLimits limits).exec calls).allow e now).1 = true ↔
          last + limits.recoveryTimeout ≤ now)
  refuses : ∀ last early now, ((ofLimits limits).exec calls).getState e = .opened →
    (ledgerAfter limits e calls).latest = some last →
    (∀ call ∈ early, last ≤ call.now ∧ call.now ≤ now) → last ≤ now →
    now < last + limits.recoveryTimeout →
    (((ofLimits limits).exec (calls ++ early)).allow e now).1 = false

/-- Trip and back-off holds after every sequence of calls.  The clock enters
only through the side conditions of `admits` and `refuses`, which a clock
that does not go back meets. -/
theorem trip_and_back_off (limits : Limits) (calls : List Call) (e : String)
    (hfew : FewFailures limits e calls) : TripAndBackOff limits e calls := by
  have htracks := tracks_exec hfew
  have hopened : ((ofLimits limits).exec calls).getState e = .opened →
      ∃ last, (ledgerAfter limits e calls).latest = some last ∧
        (((ofLimits limits).exec calls).entry e).lastFailure = some last := by
    intro hs
    have hne : ((ofLimits limits).exec calls).getState e ≠ .closed := by simp [hs]
    obtain ⟨last, hlast⟩ := Option.isSome_iff_exists.mp (lastFailure_isSome hne)
    rw [getState_eq] at hne
    exact ⟨last, (htracks.latest hne).symm.trans hlast, hlast⟩
  refine ⟨?_, ?_, ?_, ?_, ?_⟩
  · intro hs
    have hbelow := closed_below hs
    rw [htracks.failures] at hbelow
    exact ⟨htracks.failures, hbelow⟩
  · intro call hs
    have hbelow := closed_below hs
    rw [getState_eq] at hs ⊢
    rw [exec_append, exec_cons, exec_nil, ← htracks.failures]
    by_cases he : call.endpointId = e
    · rw [entry_step_self _ he, toLimits_exec, toLimits_ofLimits,
        stepEntry_trips_iff hs hbelow]
      simp [he, Limits.tripBound]
    · rw [entry_step_of_ne _ he, hs]
      simp [he]
  · intro hs
    have hsome := lastFailure_isSome hs
    rw [getState_eq] at hs
    rw [htracks.failures]
    exact ⟨htracks.tripped hs, hsome⟩
  · intro hs
    obtain ⟨last, hlatest, hlast⟩ := hopened hs
    refine ⟨last, hlatest, fun now hnow => ?_⟩
    obtain ⟨call, hcall, rfl⟩ := latest_mem hlatest
    have hle := hnow call hcall
    rw [getState_eq] at hs
    rw [allow_fst, toLimits_exec, toLimits_ofLimits, allowEntry_opened hs hlast]
    split
    · simp only [true_iff]
      omega
    · simp only [Bool.false_eq_true, false_iff]
      omega
  · intro last early now hs hlatest hearly hlast hnow
    obtain ⟨last', hlatest', hsince⟩ := hopened hs
    obtain rfl : last = last' := Option.some.inj (hlatest.symm.trans hlatest')
    rw [getState_eq] at hs
    have hopen : OpenSince ((ofLimits limits).exec calls) e last :=
      ⟨hs, last, hsince, Nat.le_refl last⟩
    have hstill : OpenSince (((ofLimits limits).exec calls).exec early) e last := by
      refine hopen.exec fun call hcall => ?_
      obtain ⟨hl, hn⟩ := hearly call hcall
      rw [toLimits_exec, toLimits_ofLimits]
      exact ⟨hl, by omega⟩
    rw [exec_append, allow_fst, hstill.allowEntry_eq hlast (by simpa using hnow)]

/-- The laws at the default limits, after a success and five failures. -/
theorem trip_and_back_off_default :
    TripAndBackOff ⟨5, 30000000000, 3⟩ "ollama-11434"
      (⟨.recordSuccess, "ollama-11434", 0⟩ ::
        List.replicate 5 ⟨.recordFailure, "ollama-11434", 7⟩) :=
  trip_and_back_off _ _ _ (fewFailures_of_length (by decide))

end Xfiles.Circuit
