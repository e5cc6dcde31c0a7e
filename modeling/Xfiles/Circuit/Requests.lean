import Xfiles.Lib.Transition
import Xfiles.Circuit.Basic

/-!
# Overlapping requests on the breaker

A proxied request is an `allow` that returned `true`, followed later by one
`record_success` or `record_failure`.  Requests overlap in any order, and the
breaker keeps no tag that would tell them apart.  This module adds the tag
beside the breaker, as a history that no step reads back.

* `Requests` is the breaker, the requests in flight with the episode that
  admitted them, and the requests that were in flight when the current
  half-open episode of an endpoint opened.
* `CarriedOrOwn` is the invariant: a request in flight on a half-open
  endpoint was admitted in the current episode, or it was already in flight
  when that episode opened.
* `closed_by_own_or_carried` reads the invariant at the step that closes the
  circuit.  `stale_success_closes` is a run in which a request of the closed
  state closes the half-open circuit.
-/

namespace Xfiles.Circuit

open CircuitBreaker Transition

/-- The admission of a request: its endpoint, and the half-open episode of
the endpoint that admitted it, or `none` for the closed state. -/
structure Admission where
  endpointId : String
  episode : Option Nat
  deriving DecidableEq, Repr

/-- The breaker with the requests in flight. -/
structure Requests where
  circuit : CircuitBreaker
  inFlight : Nat → Option Admission
  /-- The number of half-open episodes that the endpoint has opened. -/
  episode : String → Nat
  /-- The requests in flight when the latest episode opened. -/
  atOpening : String → Nat → Option Admission

inductive RequestEvent where
  | accept (request : Nat) (endpointId : String) (now : Nat)
  | finish (request : Nat) (success : Bool) (now : Nat)
  deriving DecidableEq, Repr

namespace Requests

def start (limits : Limits) : Requests where
  circuit := ofLimits limits
  inFlight _ := none
  episode _ := 0
  atOpening _ _ := none

/-- A request asks for admission.  An `allow` that returns `true` from the
open state opens an episode. -/
def accept (s : Requests) (request : Nat) (endpointId : String) (now : Nat) :
    Requests :=
  let answer := s.circuit.allow endpointId now
  let opening := s.circuit.getState endpointId = .opened ∧ answer.1 = true
  let episode :=
    if opening then Function.update s.episode endpointId (s.episode endpointId + 1)
    else s.episode
  { circuit := answer.2
    inFlight :=
      if answer.1 = true then
        Function.update s.inFlight request
          (some { endpointId
                  episode :=
                    if answer.2.getState endpointId = .halfOpen then
                      some (episode endpointId)
                    else none })
      else s.inFlight
    episode
    atOpening :=
      if opening then Function.update s.atOpening endpointId s.inFlight
      else s.atOpening }

/-- The outcome of a request arrives. -/
def finish (s : Requests) (request : Nat) (admission : Admission) (success : Bool)
    (now : Nat) : Requests :=
  { s with
    circuit :=
      if success then s.circuit.recordSuccess admission.endpointId
      else s.circuit.recordFailure admission.endpointId now
    inFlight := Function.update s.inFlight request none }

def step (s : Requests) : RequestEvent → Option Requests
  | .accept request endpointId now =>
    match s.inFlight request with
    | none => some (s.accept request endpointId now)
    | some _ => none
  | .finish request success now =>
    (s.inFlight request).map fun admission => s.finish request admission success now

theorem step_accept {s t : Requests} {request : Nat} {endpointId : String} {now : Nat}
    (h : s.step (.accept request endpointId now) = some t) :
    s.inFlight request = none ∧ t = s.accept request endpointId now := by
  simp only [step] at h
  split at h
  · rename_i hnone
    exact ⟨hnone, (Option.some.inj h).symm⟩
  · exact absurd h (by simp)

theorem step_finish {s t : Requests} {request : Nat} {success : Bool} {now : Nat}
    (h : s.step (.finish request success now) = some t) :
    ∃ admission, s.inFlight request = some admission ∧
      t = s.finish request admission success now := by
  simp only [step, Option.map_eq_some_iff] at h
  obtain ⟨admission, hsome, ht⟩ := h
  exact ⟨admission, hsome, ht.symm⟩

/-- A request in flight on a half-open endpoint belongs to the current
episode, or it was already in flight when the episode opened. -/
def CarriedOrOwn (s : Requests) : Prop :=
  ∀ request admission, s.inFlight request = some admission →
    s.circuit.getState admission.endpointId = .halfOpen →
    admission.episode = some (s.episode admission.endpointId) ∨
      s.atOpening admission.endpointId request = some admission

theorem CarriedOrOwn.accept {s : Requests} (h : s.CarriedOrOwn) (request : Nat)
    (endpointId : String) (now : Nat) :
    (s.accept request endpointId now).CarriedOrOwn := by
  intro other admission hflight hhalf
  by_cases hadmitted : (s.circuit.allow endpointId now).1 = true ∧ other = request
  · -- the request admitted by this call belongs to the current episode
    obtain ⟨htrue, rfl⟩ := hadmitted
    simp only [Requests.accept, htrue, if_true, Function.update_self,
      Option.some.injEq] at hflight
    subst hflight
    have hhalf' : (s.circuit.allow endpointId now).2.getState endpointId = .halfOpen :=
      hhalf
    left
    simp only [Requests.accept, htrue, hhalf', if_true]
  · have hbefore : s.inFlight other = some admission := by
      simp only [Requests.accept] at hflight
      split at hflight
      · rename_i htrue
        rwa [Function.update_of_ne (fun heq => hadmitted ⟨htrue, heq⟩)] at hflight
      · exact hflight
    rw [getState_eq] at hhalf
    simp only [Requests.accept, entry_allow] at hhalf ⊢
    by_cases he : admission.endpointId = endpointId
    · subst he
      rw [if_pos rfl] at hhalf
      by_cases hopening : s.circuit.getState admission.endpointId = .opened ∧
          (s.circuit.allow admission.endpointId now).1 = true
      · -- the snapshot at the opening holds every earlier request
        right
        rw [if_pos hopening, Function.update_self]
        exact hbefore
      · rw [if_neg hopening, if_neg hopening]
        refine h other admission hbefore ?_
        rw [getState_eq] at hopening ⊢
        rcases allowEntry_halfOpen_cases hhalf with hs | hs
        · exact hs
        · exact absurd hs hopening
    · rw [if_neg he, ← getState_eq] at hhalf
      have hkeep := h other admission hbefore hhalf
      split
      · rw [Function.update_of_ne he, Function.update_of_ne he]
        exact hkeep
      · exact hkeep

/-- An outcome never makes a circuit half-open, so it can only end
obligations. -/
theorem CarriedOrOwn.finish {s : Requests} (h : s.CarriedOrOwn) (request : Nat)
    (admission : Admission) (success : Bool) (now : Nat) :
    (s.finish request admission success now).CarriedOrOwn := by
  intro other admission' hflight hhalf
  simp only [Requests.finish] at hflight hhalf ⊢
  have hne : other ≠ request := by
    rintro rfl
    rw [Function.update_self] at hflight
    exact absurd hflight (by simp)
  rw [Function.update_of_ne hne] at hflight
  refine h other admission' hflight ?_
  rw [getState_eq] at hhalf ⊢
  cases success with
  | true =>
    rw [if_pos rfl, entry_recordSuccess] at hhalf
    split at hhalf
    · exact absurd hhalf (recordSuccessEntry_ne_halfOpen _)
    · exact hhalf
  | false =>
    rw [if_neg (by simp), entry_recordFailure] at hhalf
    split at hhalf
    · exact absurd hhalf (recordFailureEntry_ne_halfOpen _ _ _)
    · exact hhalf

theorem CarriedOrOwn.step {s t : Requests} {event : RequestEvent}
    (h : s.CarriedOrOwn) (hstep : s.step event = some t) : t.CarriedOrOwn := by
  cases event with
  | accept request endpointId now =>
    obtain ⟨_, rfl⟩ := step_accept hstep
    exact h.accept request endpointId now
  | finish request success now =>
    obtain ⟨admission, _, rfl⟩ := step_finish hstep
    exact h.finish request admission success now

theorem carriedOrOwn_of_run {limits : Limits} {events : List RequestEvent}
    {s : Requests} (hrun : run step (start limits) events = some s) :
    s.CarriedOrOwn := by
  refine invariant_of_run (I := CarriedOrOwn) (fun _ _ _ hs hstep => hs.step hstep) ?_ hrun
  intro request admission hflight
  exact absurd hflight (by simp [start])

/-- Only the success of a request in flight on `e` closes its half-open
circuit. -/
theorem finish_of_closes {s t : Requests} {event : RequestEvent} {e : String}
    (hstep : s.step event = some t) (hhalf : s.circuit.getState e = .halfOpen)
    (hclosed : t.circuit.getState e = .closed) :
    ∃ request now admission, event = .finish request true now ∧
      s.inFlight request = some admission ∧ admission.endpointId = e := by
  rw [getState_eq] at hhalf hclosed
  cases event with
  | accept request endpointId now =>
    obtain ⟨_, rfl⟩ := step_accept hstep
    simp only [Requests.accept, entry_allow] at hclosed
    split at hclosed
    · rw [allowEntry_closed_iff, hhalf] at hclosed
      exact absurd hclosed (by simp)
    · exact absurd (hhalf.symm.trans hclosed) (by simp)
  | finish request success now =>
    obtain ⟨admission, hflight, rfl⟩ := step_finish hstep
    simp only [Requests.finish] at hclosed
    cases success with
    | true =>
      refine ⟨request, now, admission, rfl, hflight, ?_⟩
      by_contra hne
      rw [if_pos rfl, entry_recordSuccess, if_neg (Ne.symm hne), hhalf] at hclosed
      exact absurd hclosed (by simp)
    | false =>
      rw [if_neg (by simp), entry_recordFailure] at hclosed
      split at hclosed
      · rw [recordFailureEntry_halfOpen hhalf] at hclosed
        exact absurd hclosed (by simp)
      · exact absurd (hhalf.symm.trans hclosed) (by simp)

/-- A half-open circuit closes exactly at the success of a request in flight
on its endpoint.  That request was admitted in the same episode, or it was
already in flight when the episode opened. -/
theorem closed_by_own_or_carried (limits : Limits) (events : List RequestEvent)
    (s t : Requests) (event : RequestEvent) (e : String)
    (hrun : run step (start limits) events = some s)
    (hstep : s.step event = some t) (hhalf : s.circuit.getState e = .halfOpen) :
    t.circuit.getState e = .closed ↔
      ∃ request now admission, event = .finish request true now ∧
        s.inFlight request = some admission ∧ admission.endpointId = e ∧
        (admission.episode = some (s.episode e) ∨
          s.atOpening e request = some admission) := by
  constructor
  · intro hclosed
    obtain ⟨request, now, admission, hevent, hflight, rfl⟩ :=
      finish_of_closes hstep hhalf hclosed
    exact ⟨request, now, admission, hevent, hflight, rfl,
      carriedOrOwn_of_run hrun request admission hflight hhalf⟩
  · rintro ⟨request, now, admission, rfl, hflight, rfl, _⟩
    obtain ⟨admission', hflight', rfl⟩ := step_finish hstep
    obtain rfl : admission = admission' :=
      Option.some.inj (hflight.symm.trans hflight')
    rw [getState_eq] at hhalf ⊢
    simp only [Requests.finish, if_true, entry_recordSuccess,
      recordSuccessEntry_halfOpen hhalf]

/-- One failure to trip, a timeout of five seconds and one probe. -/
def oneProbe : Limits := (CircuitBreaker.new 1 5 1).toLimits

/-- A trip, then an episode with one probe, then the late success of a
request that the closed circuit had admitted. -/
def staleRun : List RequestEvent :=
  [.accept 0 "ep-1" 0, .accept 1 "ep-1" 0, .finish 1 false 0, .accept 2 "ep-1" 5000000000]

/-- The state that `staleRun` reaches. -/
def staleState : Requests :=
  (run step (start oneProbe) staleRun).getD (start oneProbe)

theorem staleRun_reaches :
    run step (start oneProbe) staleRun = some staleState := rfl

/-- The success of a request that the closed circuit admitted closes the
half-open circuit, so closing is not kept to the requests of the episode. -/
theorem stale_success_closes :
    ¬ ∀ (limits : Limits) (events : List RequestEvent) (s t : Requests)
        (event : RequestEvent) (e : String),
        run step (start limits) events = some s → s.step event = some t →
        s.circuit.getState e = .halfOpen → t.circuit.getState e = .closed →
        ∃ request now admission, event = .finish request true now ∧
          s.inFlight request = some admission ∧
          admission.episode = some (s.episode e) := by
  intro h
  obtain ⟨request, now, admission, hevent, hflight, hepisode⟩ :=
    h oneProbe staleRun staleState (staleState.finish 0 ⟨"ep-1", none⟩ true 6000000000)
      (.finish 0 true 6000000000) "ep-1" staleRun_reaches rfl rfl rfl
  obtain ⟨rfl, rfl⟩ : 0 = request ∧ 6000000000 = now := by simpa using hevent
  have hadmission : staleState.inFlight 0 = some ⟨"ep-1", none⟩ := rfl
  obtain rfl := Option.some.inj (hadmission.symm.trans hflight)
  exact absurd hepisode (by simp)

/-- In the same run the probe of the episode closes the circuit. -/
theorem closed_by_own_or_carried_probe :
    (staleState.finish 2 ⟨"ep-1", some 1⟩ true 6000000000).circuit.getState "ep-1" = .closed ↔
      ∃ request now admission,
        RequestEvent.finish 2 true 6000000000 = .finish request true now ∧
        staleState.inFlight request = some admission ∧
        admission.endpointId = "ep-1" ∧
        (admission.episode = some (staleState.episode "ep-1") ∨
          staleState.atOpening "ep-1" request = some admission) :=
  closed_by_own_or_carried oneProbe staleRun staleState _ (.finish 2 true 6000000000) "ep-1"
    staleRun_reaches rfl rfl

end Requests

end Xfiles.Circuit
