import Xfiles.Proxy.Hub

/-!
# Half-open slots and lockout

A half-open circuit leaves its state only at an outcome, and outcomes come
only from requests that were admitted.  So the slots of an episode come back
as long as some request in progress holds the endpoint.

* `Exhausted` is a half-open circuit with no slot left, and `TakesLastSlot`
  is what an `allow` needs to bring it about.
* `SlotsHeld` says that each exhausted endpoint has a holder.  `KeepsSlots`
  is the condition that a step lets go of no last slot: a candidate that is
  not selected, a selected endpoint that is gone, or a destination that the
  circuit stage admitted.
* `noLockout_iff_keepsSlots` says that a run avoids lockout exactly when
  each of its steps meets that condition.  `leaked_slot_locks_out` is a run
  of the code in which a candidate that is not selected keeps the last slot.
-/

namespace Xfiles.Proxy

open Xfiles.Circuit Xfiles.Router Transition CircuitBreaker

/-! ## Slots of the breaker -/

/-- The circuit of `e` is half-open with no slot left. -/
def Exhausted (cb : CircuitBreaker) (e : String) : Prop :=
  cb.getState e = .halfOpen ∧ cb.halfOpenMaxCalls ≤ (cb.entry e).halfOpenCalls

/-- An `allow(e)` would take the last slot: it would open an episode that has
one slot, or it would find the circuit half-open with one slot left. -/
def TakesLastSlot (cb : CircuitBreaker) (e : String) (now : Nat) : Prop :=
  (cb.getState e = .opened ∧
      (∃ last, (cb.entry e).lastFailure = some last ∧ cb.recoveryTimeout ≤ now - last) ∧
      cb.halfOpenMaxCalls ≤ 1) ∨
    (cb.getState e = .halfOpen ∧
      (cb.entry e).halfOpenCalls < cb.halfOpenMaxCalls ∧
      cb.halfOpenMaxCalls ≤ (cb.entry e).halfOpenCalls + 1)

/-- A refused call changes nothing. -/
theorem allowEntry_refused {limits : Limits} {now : Nat} {entry : EndpointCircuit}
    (h : (limits.allowEntry now entry).1 = false) :
    (limits.allowEntry now entry).2 = entry := by
  unfold Limits.allowEntry at *
  repeat' split
  all_goals simp_all

theorem exhausted_allow_of_ne {cb : CircuitBreaker} {e endpointId : String} {now : Nat}
    (h : e ≠ endpointId) :
    Exhausted (cb.allow endpointId now).2 e ↔ Exhausted cb e := by
  unfold Exhausted
  rw [getState_eq, getState_eq, entry_allow, if_neg h, toLimits_allow]

/-- An `allow` leaves a circuit exhausted only if it found it so or took its
last slot. -/
theorem exhausted_allow_iff (cb : CircuitBreaker) (e : String) (now : Nat) :
    Exhausted (cb.allow e now).2 e ↔ Exhausted cb e ∨ TakesLastSlot cb e now := by
  unfold Exhausted TakesLastSlot
  simp only [getState_eq, entry_allow, if_true, toLimits_allow]
  cases hs : (cb.entry e).state with
  | closed => simp [allowEntry_closed hs, hs]
  | opened =>
    cases hlast : (cb.entry e).lastFailure with
    | none => simp [Limits.allowEntry, hs, hlast]
    | some last =>
      rw [allowEntry_opened hs hlast]
      split
      · rename_i htime
        simp [htime]
      · rename_i htime
        simp [htime, hs]
  | halfOpen =>
    rw [allowEntry_halfOpen hs]
    split
    · rename_i hlt
      simp [hs, hlt, UInt32.not_le.mpr hlt]
    · rename_i hge
      simp [hs, hge, UInt32.not_lt.mp hge]

/-- A free slot lets the next call through. -/
theorem allow_of_free_slot {cb : CircuitBreaker} {e : String} (now : Nat)
    (hs : cb.getState e = .halfOpen)
    (hlt : (cb.entry e).halfOpenCalls < cb.halfOpenMaxCalls) :
    (cb.allow e now).1 = true := by
  rw [getState_eq] at hs
  rw [allow_fst, allowEntry_halfOpen hs, if_pos hlt]

namespace Hub

/-! ## What a request holds -/

@[simp] theorem setRequest_circuit (s : Hub) (request : Nat) (stage : Option Stage) :
    (s.setRequest request stage).circuit = s.circuit := rfl

@[simp] theorem held_setRequest_self (s : Hub) (request : Nat) (stage : Option Stage) :
    (s.setRequest request stage).held request = (stage.map Stage.held).getD [] := by
  simp [held, setRequest]

theorem held_setRequest_of_ne (s : Hub) {request other : Nat} (stage : Option Stage)
    (h : other ≠ request) : (s.setRequest request stage).held other = s.held other := by
  simp [held, setRequest, h]

theorem held_eq {s : Hub} {request : Nat} {stage : Stage}
    (h : s.requests request = some stage) : s.held request = stage.held := by
  simp [held, h]

/-- Every exhausted endpoint is held by a request in progress. -/
def SlotsHeld (s : Hub) : Prop :=
  ∀ e, Exhausted s.circuit e → ∃ request, e ∈ s.held request

/-- An endpoint that no request in progress was admitted for has a slot left
whenever its circuit is half-open. -/
def NoLockout (s : Hub) : Prop :=
  ∀ e, s.Free e → s.circuit.getState e = .halfOpen →
    (s.circuit.entry e).halfOpenCalls < s.circuit.halfOpenMaxCalls

theorem noLockout_iff_slotsHeld (s : Hub) : s.NoLockout ↔ s.SlotsHeld := by
  constructor
  · intro h e hexhausted
    by_contra hnone
    have hfree : s.Free e := fun request hmem => hnone ⟨request, hmem⟩
    exact UInt32.not_le.mpr (h e hfree hexhausted.1) hexhausted.2
  · intro h e hfree hs
    by_contra hge
    obtain ⟨request, hmem⟩ := h e ⟨hs, UInt32.not_lt.mp hge⟩
    exact hfree request hmem

/-- Another request holds the endpoint as well. -/
def OtherHolder (s : Hub) (request : Nat) (e : String) : Prop :=
  ∃ other, other ≠ request ∧ e ∈ s.held other

/-- A step lets go of no last slot.

* `select` drops the other candidates of the request.
* `forward` drops the selected endpoint when it is no longer registered.
* `check` drops the destination as soon as the breaker has admitted it. -/
def KeepsSlots (s : Hub) : Label → Prop
  | .select request endpointId =>
    ∀ e ∈ s.held request, e ≠ endpointId → Exhausted s.circuit e → s.OtherHolder request e
  | .forward request =>
    ∀ e ∈ s.held request, s.endpoints e = none → Exhausted s.circuit e →
      s.OtherHolder request e
  | .check call =>
    ∀ e rest, s.routes call = some (e :: rest) → TakesLastSlot s.circuit e s.now →
      ∃ request, e ∈ s.held request
  | _ => True

/-- A step that exhausts only endpoints that are then held, and that lets go
of no exhausted endpoint, keeps the slots held. -/
theorem SlotsHeld.mono {s t : Hub} (h : s.SlotsHeld)
    (hnew : ∀ e, Exhausted t.circuit e →
      Exhausted s.circuit e ∨ ∃ request, e ∈ t.held request)
    (hheld : ∀ e request, Exhausted t.circuit e → e ∈ s.held request →
      ∃ other, e ∈ t.held other) : t.SlotsHeld := by
  intro e hexhausted
  rcases hnew e hexhausted with hold | hholder
  · obtain ⟨request, hmem⟩ := h e hold
    exact hheld e request hexhausted hmem
  · exact hholder

/-- Only one request moves, and it holds all that it held. -/
theorem held_of_superset {s : Hub} {request : Nat} {stage : Stage} {e : String}
    (hsub : e ∈ s.held request → e ∈ stage.held) {other : Nat}
    (hmem : e ∈ s.held other) :
    ∃ r, e ∈ (s.setRequest request (some stage)).held r := by
  by_cases hother : other = request
  · subst hother
    exact ⟨other, by simpa using hsub hmem⟩
  · exact ⟨other, by rwa [held_setRequest_of_ne s _ hother]⟩

/-- Another holder stays one when the request lets go. -/
theorem OtherHolder.setRequest {s : Hub} {request : Nat} {e : String}
    (h : s.OtherHolder request e) (stage : Option Stage) :
    ∃ r, e ∈ (s.setRequest request stage).held r := by
  obtain ⟨other, hne, hmem⟩ := h
  exact ⟨other, by rwa [held_setRequest_of_ne s _ hne]⟩

/-! ## One step -/

theorem SlotsHeld.consider {s : Hub} {request : Nat} {endpointId : String}
    {health : HealthStatus} {visited candidates : List String} (h : s.SlotsHeld)
    (hstage : s.requests request = some (.filtering visited candidates)) :
    (s.consider request endpointId health visited candidates).SlotsHeld := by
  have hheld : s.held request = candidates := held_eq hstage
  unfold Hub.consider
  split
  · exact h.mono (fun _ he => Or.inl he)
      (fun e _ _ hmem => held_of_superset (by rw [hheld]; exact id) hmem)
  · refine h.mono (fun e he => ?_) (fun e other _ hmem => ?_)
    · simp only [setRequest_circuit] at he
      by_cases hne : e = endpointId
      · subst hne
        cases hanswer : (s.circuit.allow e s.now).1 with
        | true =>
          rw [allow_fst] at hanswer
          exact Or.inr ⟨request, by simp [Stage.held, hanswer]⟩
        | false =>
          -- a refused call leaves the entry as it was
          left
          unfold Exhausted at he ⊢
          rw [getState_eq, entry_allow, if_pos rfl, allowEntry_refused hanswer,
            toLimits_allow] at he
          rw [getState_eq]
          exact he
      · exact Or.inl ((exhausted_allow_of_ne hne).mp he)
    · refine held_of_superset (s := { s with circuit := (s.circuit.allow endpointId s.now).2 })
        (fun hmem' => ?_) hmem
      have hmem'' : e ∈ candidates := by rwa [← hheld]
      simp only [Stage.held]
      split <;> simp [hmem'']

theorem SlotsHeld.outcome {s : Hub} {request : Nat} {endpointId : String}
    {success : Bool} (h : s.SlotsHeld)
    (hstage : s.requests request = some (.awaiting endpointId)) :
    (s.outcome request endpointId success).SlotsHeld := by
  have hheld : s.held request = [endpointId] := held_eq hstage
  have hentry : ∀ e, Exhausted (s.outcome request endpointId success).circuit e →
      e ≠ endpointId ∧ Exhausted s.circuit e := by
    intro e he
    unfold Exhausted Hub.outcome at *
    simp only [setRequest_circuit, getState_eq] at he ⊢
    cases success with
    | true =>
      simp only [if_true, entry_recordSuccess, toLimits_recordSuccess] at he
      split at he
      · exact absurd he.1 (recordSuccessEntry_ne_halfOpen _)
      · rename_i hne
        exact ⟨hne, he⟩
    | false =>
      simp only [Bool.false_eq_true, if_false, entry_recordFailure,
        toLimits_recordFailure] at he
      split at he
      · exact absurd he.1 (recordFailureEntry_ne_halfOpen _ _ _)
      · rename_i hne
        exact ⟨hne, he⟩
  refine h.mono (fun e he => Or.inl (hentry e he).2) (fun e other he hmem => ?_)
  have hother : other ≠ request := by
    rintro rfl
    rw [hheld, List.mem_singleton] at hmem
    exact (hentry e he).1 hmem
  exact ⟨other, by rw [Hub.outcome, held_setRequest_of_ne _ _ hother]; exact hmem⟩

theorem SlotsHeld.step {s t : Hub} {label : Label} (h : s.SlotsHeld)
    (hok : s.KeepsSlots label) (hstep : s.step label = some t) : t.SlotsHeld := by
  cases label with
  | advance elapsed =>
    obtain rfl := Option.some.inj hstep
    exact h
  | setHealth endpointId health =>
    obtain rfl := Option.some.inj hstep
    exact h
  | arrive request =>
    obtain ⟨hnone, rfl⟩ := step_arrive hstep
    refine h.mono (fun _ he => Or.inl he) fun e _ _ hmem => held_of_superset ?_ hmem
    simp [held, hnone]
  | consider request endpointId =>
    obtain ⟨visited, candidates, health, hstage, rfl⟩ := step_consider hstep
    exact h.consider hstage
  | select request endpointId =>
    obtain ⟨visited, candidates, hstage, _, rfl⟩ := step_select hstep
    refine h.mono (fun _ he => Or.inl he) fun e other he hmem => ?_
    by_cases heq : e = endpointId
    · subst heq
      exact held_of_superset (fun _ => List.mem_singleton.mpr rfl) hmem
    · by_cases hother : other = request
      · subst hother
        exact (hok e hmem heq he).setRequest _
      · exact ⟨other, by rwa [held_setRequest_of_ne s _ hother]⟩
  | reject request =>
    obtain ⟨visited, hstage, rfl⟩ := step_reject hstep
    refine h.mono (fun _ he => Or.inl he) fun e other _ hmem => ?_
    have hother : other ≠ request := by
      rintro rfl
      rw [held_eq hstage] at hmem
      simp [Stage.held] at hmem
    exact ⟨other, by rwa [held_setRequest_of_ne s _ hother]⟩
  | forward request =>
    obtain ⟨endpointId, hstage, ⟨_, rfl⟩ | ⟨hgone, rfl⟩⟩ := step_forward hstep
    · refine h.mono (fun _ he => Or.inl he) fun e _ _ hmem => held_of_superset ?_ hmem
      rw [held_eq hstage]
      exact id
    · refine h.mono (fun _ he => Or.inl he) fun e other he hmem => ?_
      by_cases hother : other = request
      · subst hother
        have heq : e = endpointId := by
          rw [held_eq hstage] at hmem
          exact List.mem_singleton.mp hmem
        exact (hok e hmem (heq ▸ hgone) he).setRequest _
      · exact ⟨other, by rwa [held_setRequest_of_ne s _ hother]⟩
  | outcome request success =>
    obtain ⟨endpointId, hstage, rfl⟩ := step_outcome hstep
    exact h.outcome hstage
  | route call destinations =>
    obtain rfl := step_route hstep
    exact h
  | check call =>
    obtain ⟨epId, rest, hroute, rfl⟩ := step_check hstep
    refine h.mono (fun e he => ?_) fun e other _ hmem => ⟨other, hmem⟩
    simp only [Hub.check, circuitCheck_snd] at he
    by_cases hne : e = epId
    · subst hne
      rcases (exhausted_allow_iff _ _ _).mp he with hold | hlast
      · exact Or.inl hold
      · exact Or.inr (hok e rest hroute hlast)
    · exact Or.inl ((exhausted_allow_of_ne hne).mp he)

/-- A step outside the condition leaves an exhausted endpoint that nobody
holds. -/
theorem not_slotsHeld_of_step {s t : Hub} {label : Label}
    (hbad : ¬ s.KeepsSlots label) (hstep : s.step label = some t) : ¬ t.SlotsHeld := by
  intro h
  apply hbad
  cases label with
  | select request endpointId =>
    obtain ⟨visited, candidates, hstage, _, rfl⟩ := step_select hstep
    intro e hmem hne he
    obtain ⟨other, hother⟩ := h e he
    by_cases heq : other = request
    · subst heq
      simp [Stage.held, hne] at hother
    · exact ⟨other, heq, by rwa [held_setRequest_of_ne s _ heq] at hother⟩
  | forward request =>
    obtain ⟨endpointId, hstage, ⟨hfound, rfl⟩ | ⟨hgone, rfl⟩⟩ := step_forward hstep
    · intro e hmem hnone _
      rw [held_eq hstage] at hmem
      exact absurd (List.mem_singleton.mp hmem ▸ hnone) hfound
    · intro e hmem _ he
      obtain ⟨other, hother⟩ := h e he
      by_cases heq : other = request
      · subst heq
        simp at hother
      · exact ⟨other, heq, by rwa [held_setRequest_of_ne s _ heq] at hother⟩
  | check call =>
    obtain ⟨epId, rest, hroute, rfl⟩ := step_check hstep
    intro e rest' hroute' hlast
    obtain ⟨rfl, rfl⟩ : epId = e ∧ rest = rest' := by
      simpa using hroute.symm.trans hroute'
    exact h epId ((exhausted_allow_iff _ _ _).mpr (Or.inr hlast))
  | _ => trivial

/-! ## Lockout -/

/-- An endpoint that is exhausted and that nobody holds. -/
def LockedOut (s : Hub) (e : String) : Prop := s.Free e ∧ Exhausted s.circuit e

theorem allow_of_exhausted {cb : CircuitBreaker} {e : String} (h : Exhausted cb e)
    (now : Nat) : cb.allowEntry now (cb.entry e) = (false, cb.entry e) := by
  obtain ⟨hs, hge⟩ := h
  rw [getState_eq] at hs
  rw [allowEntry_halfOpen hs, if_neg (UInt32.not_lt.mpr hge)]

/-- A breaker call on `endpointId` keeps `e` exhausted, unless it is an outcome
of `e`. -/
theorem exhausted_allow {cb : CircuitBreaker} {e : String} (h : Exhausted cb e)
    (endpointId : String) (now : Nat) : Exhausted (cb.allow endpointId now).2 e := by
  by_cases hne : e = endpointId
  · subst hne
    exact (exhausted_allow_iff cb e now).mpr (Or.inl h)
  · exact (exhausted_allow_of_ne hne).mpr h

theorem exhausted_outcome {s : Hub} {request : Nat} {endpointId e : String}
    {success : Bool} (h : Exhausted s.circuit e) (hne : e ≠ endpointId) :
    Exhausted (s.outcome request endpointId success).circuit e := by
  unfold Exhausted Hub.outcome at *
  rw [getState_eq] at h ⊢
  cases success with
  | true =>
    simpa only [setRequest_circuit, if_true, entry_recordSuccess,
      toLimits_recordSuccess, hne, if_false] using h
  | false =>
    simpa only [setRequest_circuit, Bool.false_eq_true, if_false, entry_recordFailure,
      toLimits_recordFailure, hne] using h

/-- A request that comes to hold no more than it held leaves `e` free. -/
theorem Free.setRequest {s : Hub} {e : String} (h : s.Free e) (request : Nat)
    {stage : Option Stage} (hsub : e ∉ (stage.map Stage.held).getD []) :
    (s.setRequest request stage).Free e := by
  intro other
  by_cases hother : other = request
  · subst hother
    rwa [held_setRequest_self]
  · rw [held_setRequest_of_ne s _ hother]
    exact h other

/-- Lockout is for good: no step ends it.  The breaker refuses every request
and every route call, and no request is left to record an outcome. -/
theorem LockedOut.step {s t : Hub} {label : Label} {e : String} (h : s.LockedOut e)
    (hstep : s.step label = some t) : t.LockedOut e := by
  obtain ⟨hfree, hexhausted⟩ := h
  cases label with
  | advance elapsed =>
    obtain rfl := Option.some.inj hstep
    exact ⟨hfree, hexhausted⟩
  | setHealth endpointId health =>
    obtain rfl := Option.some.inj hstep
    exact ⟨hfree, hexhausted⟩
  | arrive request =>
    obtain ⟨_, rfl⟩ := step_arrive hstep
    exact ⟨hfree.setRequest request (by simp [Stage.held]), hexhausted⟩
  | consider request endpointId =>
    obtain ⟨visited, candidates, health, hstage, rfl⟩ := step_consider hstep
    have hnot : e ∉ candidates := by
      have := hfree request
      rwa [held_eq hstage] at this
    unfold Hub.consider
    split
    · exact ⟨hfree.setRequest request (by simpa [Stage.held] using hnot), hexhausted⟩
    · refine ⟨Free.setRequest (s := { s with circuit := _ }) hfree request ?_,
        exhausted_allow hexhausted endpointId s.now⟩
      by_cases hanswer : (s.circuit.allowEntry s.now (s.circuit.entry endpointId)).1 = true
      · have hne : e ≠ endpointId := by
          rintro rfl
          rw [allow_of_exhausted hexhausted] at hanswer
          simp at hanswer
        simp [Stage.held, hanswer, hnot, hne]
      · simp [Stage.held, hanswer, hnot]
  | select request endpointId =>
    obtain ⟨visited, candidates, hstage, hmem, rfl⟩ := step_select hstep
    refine ⟨hfree.setRequest request ?_, hexhausted⟩
    have hnot := hfree request
    rw [held_eq hstage] at hnot
    simp only [Option.map_some, Option.getD_some, Stage.held, List.mem_singleton]
    rintro rfl
    exact hnot hmem
  | reject request =>
    obtain ⟨visited, _, rfl⟩ := step_reject hstep
    exact ⟨hfree.setRequest request (by simp), hexhausted⟩
  | forward request =>
    obtain ⟨endpointId, hstage, ⟨_, rfl⟩ | ⟨_, rfl⟩⟩ := step_forward hstep
    · have hnot := hfree request
      rw [held_eq hstage] at hnot
      exact ⟨hfree.setRequest request (by simpa [Stage.held] using hnot), hexhausted⟩
    · exact ⟨hfree.setRequest request (by simp), hexhausted⟩
  | outcome request success =>
    obtain ⟨endpointId, hstage, rfl⟩ := step_outcome hstep
    have hne : e ≠ endpointId := by
      have hnot := hfree request
      rw [held_eq hstage] at hnot
      simpa [Stage.held] using hnot
    exact ⟨Free.setRequest (s := { s with circuit := _ }) hfree request (by simp),
      exhausted_outcome hexhausted hne⟩
  | route call destinations =>
    obtain rfl := step_route hstep
    exact ⟨hfree, hexhausted⟩
  | check call =>
    obtain ⟨epId, rest, _, rfl⟩ := step_check hstep
    exact ⟨hfree, exhausted_allow hexhausted epId s.now⟩

theorem lockedOut_forever {s t : Hub} {labels : List Label} {e : String}
    (h : s.LockedOut e) (hrun : run step s labels = some t) : t.LockedOut e :=
  invariant_of_run (I := fun u => u.LockedOut e) (fun _ _ _ hu hstep => hu.step hstep) h hrun

theorem slotsHeld_start (quantum : Bool) (limits : Limits) (endpoints : EndpointMap) :
    (start quantum limits endpoints).SlotsHeld := by
  intro e he
  exact absurd he.1 (by simp [start, getState_eq, default])

/-- A run avoids lockout exactly when none of its steps lets go of a last
slot.  When no request is in progress every endpoint is free, so every
half-open circuit then has a slot left, and its next `allow` returns
`true`. -/
theorem noLockout_iff_keepsSlots (quantum : Bool) (limits : Limits)
    (endpoints : EndpointMap) (labels : List Label) (s : Hub)
    (hrun : run step (start quantum limits endpoints) labels = some s) :
    (Always step NoLockout (start quantum limits endpoints) labels ↔
        Guarded step KeepsSlots (start quantum limits endpoints) labels) ∧
      (Guarded step KeepsSlots (start quantum limits endpoints) labels →
        (∀ request, s.requests request = none) →
        ∀ e, s.circuit.getState e = .halfOpen →
          (s.circuit.entry e).halfOpenCalls < s.circuit.halfOpenMaxCalls ∧
            ∀ now, (s.circuit.allow e now).1 = true) := by
  have hstart := slotsHeld_start quantum limits endpoints
  constructor
  · exact always_iff_guarded (fun _ _ _ hs hok hstep => hs.step hok hstep)
      (fun t => (noLockout_iff_slotsHeld t).mpr)
      (fun _ _ t _ hbad hstep hno =>
        not_slotsHeld_of_step hbad hstep ((noLockout_iff_slotsHeld t).mp hno))
      hstart hrun
  · intro hok hquiet e hs
    have hheld := invariant_of_guarded (I := SlotsHeld)
      (fun _ _ _ hs hok hstep => hs.step hok hstep) hstart hok hrun
    have hfree : s.Free e := fun request => by simp [held, hquiet request]
    have hlt := (noLockout_iff_slotsHeld s).mpr hheld e hfree hs
    exact ⟨hlt, fun now => allow_of_free_slot now hs hlt⟩

/-- One failure to trip, a timeout of five seconds and one probe slot. -/
def oneProbe : Limits := (CircuitBreaker.new 1 5 1).toLimits

/-- Two healthy endpoints. -/
def twoEndpoints : EndpointMap := fun id =>
  if id = "ep-a" ∨ id = "ep-b" then some .healthy else none

/-- A request trips `ep-a`, the timeout runs, and a second request takes the
probe slot of `ep-a` but is forwarded to `ep-b`. -/
def leakRun : List Label :=
  [.arrive 0, .consider 0 "ep-a", .consider 0 "ep-b", .select 0 "ep-a", .forward 0,
   .outcome 0 false, .advance 5000000000,
   .arrive 1, .consider 1 "ep-a", .consider 1 "ep-b", .select 1 "ep-b", .forward 1,
   .outcome 1 true]

/-- The state that `leakRun` reaches. -/
def leakState : Hub :=
  (run step (start true oneProbe twoEndpoints) leakRun).getD
    (start true oneProbe twoEndpoints)

theorem leakRun_reaches :
    run step (start true oneProbe twoEndpoints) leakRun = some leakState := rfl

theorem leakState_quiet (request : Nat) : leakState.requests request = none := by
  by_cases h1 : request = 1
  · subst h1
    rfl
  · by_cases h0 : request = 0
    · subst h0
      rfl
    · refine requests_run ?_ leakRun_reaches
      simp [leakRun, Label.request, Ne.symm h0, Ne.symm h1]

/-- No request is in progress, `ep-a` is half-open, and its one slot is
gone. -/
theorem leaked_slot_locks_out :
    ¬ ∀ (quantum : Bool) (limits : Limits) (endpoints : EndpointMap)
        (labels : List Label) (s : Hub), 1 ≤ limits.halfOpenMaxCalls →
        run step (start quantum limits endpoints) labels = some s →
        (∀ request, s.requests request = none) →
        ∀ e, s.circuit.getState e = .halfOpen →
          (s.circuit.entry e).halfOpenCalls < s.circuit.halfOpenMaxCalls := by
  intro h
  have hlt := h true oneProbe twoEndpoints leakRun leakState (by decide) leakRun_reaches
    leakState_quiet "ep-a" rfl
  exact absurd hlt (by decide)

/-- A request trips `ep-a`, the timeout runs, and a second request probes
`ep-a` with success. -/
def probeRun : List Label :=
  [.arrive 0, .consider 0 "ep-a", .select 0 "ep-a", .forward 0, .outcome 0 false,
   .advance 5000000000,
   .arrive 1, .consider 1 "ep-a", .select 1 "ep-a", .forward 1, .outcome 1 true]

theorem probeRun_keepsSlots :
    Guarded step KeepsSlots (start true oneProbe twoEndpoints) probeRun := by
  -- each request selects its only candidate, and no endpoint is removed
  have hselect : ∀ {s : Hub} {request : Nat}, s.held request = ["ep-a"] →
      s.KeepsSlots (.select request "ep-a") := by
    intro s request hheld e hmem hne
    rw [hheld, List.mem_singleton] at hmem
    exact absurd hmem hne
  have hforward : ∀ {s : Hub} {request : Nat}, s.held request = ["ep-a"] →
      s.endpoints "ep-a" = some .healthy → s.KeepsSlots (.forward request) := by
    intro s request hheld hfound e hmem hnone
    rw [hheld, List.mem_singleton] at hmem
    rw [hmem, hfound] at hnone
    simp at hnone
  refine (guarded_cons rfl).mpr ⟨trivial, (guarded_cons rfl).mpr ⟨trivial, ?_⟩⟩
  refine (guarded_cons rfl).mpr ⟨hselect rfl, (guarded_cons rfl).mpr ⟨hforward rfl rfl, ?_⟩⟩
  refine (guarded_cons rfl).mpr ⟨trivial, (guarded_cons rfl).mpr ⟨trivial, ?_⟩⟩
  refine (guarded_cons rfl).mpr ⟨trivial, (guarded_cons rfl).mpr ⟨trivial, ?_⟩⟩
  refine (guarded_cons rfl).mpr ⟨hselect rfl, (guarded_cons rfl).mpr ⟨hforward rfl rfl, ?_⟩⟩
  exact (guarded_cons rfl).mpr ⟨trivial, trivial⟩

/-- No state of `probeRun` has a lockout. -/
theorem noLockout_iff_keepsSlots_probe :
    Always step NoLockout (start true oneProbe twoEndpoints) probeRun :=
  (noLockout_iff_keepsSlots true oneProbe twoEndpoints probeRun
    ((run step (start true oneProbe twoEndpoints) probeRun).getD
      (start true oneProbe twoEndpoints)) rfl).1.mpr probeRun_keepsSlots

end Hub

end Xfiles.Proxy
