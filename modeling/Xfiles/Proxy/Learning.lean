import Xfiles.Lib.Transition
import Xfiles.Quantum.Router

/-!
# What the proxy learns from its own traffic

Runs of proxied chat completions on one quantum router.

* `inferenceMessage` is the internal message of a request.  Its conversation
  id is drawn afresh, and the outcome is recorded under it.
* `Traffic` is the router with the requests in progress.  `outcomes` and
  `issued` are histories: the outcomes recorded so far, and the ids drawn.
* `ReadsHistory` says that a request reads, for each candidate, the pulls and
  the rewards that earlier requests recorded.
* `readsHistory_iff_untried` says that it does so exactly when no candidate has
  any: a request only ever reads defaults.  `second_request_reads_default` is
  a run with a candidate that has one.

The candidates are an argument of the request.  A draw that repeats an earlier
id is not a step.
-/

namespace Xfiles.Proxy

open Transition Xfiles.Quantum

variable {F : Type*}

/-- The internal message that `chat_completions_handler` builds for the quantum
router. -/
def inferenceMessage (id conversationId : Uuid) (req : Json) (now : Int) : Message :=
  (Message.new "proxy" "/ai/inference" "llm_request" id conversationId now).withData req

/-- An outcome that a request recorded. -/
structure Outcome (F : Type*) where
  endpointId : String
  reward : F

/-- The router, and the requests whose outcome is still to come. -/
structure Traffic (F : Type*) where
  quantum : QuantumRouter F
  /-- The conversation id of each request in progress, and its selection. -/
  inProgress : List (Uuid × String)
  outcomes : List (Outcome F)
  issued : List Uuid

inductive TrafficEvent (F : Type*) where
  | request (id conversationId : Uuid) (req : Json) (candidates : List String) (now : Int)
      (draws : Draws F)
  | outcome (conversationId : Uuid) (endpointId : String) (success : Bool) (latencyMs : Nat)
      (now : Int)

namespace Traffic

def start (config : QuantumConfig F) : Traffic F where
  quantum := .new config
  inProgress := []
  outcomes := []
  issued := []

/-- The rewards recorded for an endpoint, in order. -/
def rewardsFor (s : Traffic F) (endpointId : String) : List F :=
  (s.outcomes.filter fun outcome => outcome.endpointId = endpointId).map (·.reward)

/-- An endpoint without outcomes has no rewards. -/
theorem rewardsFor_eq_nil_iff (s : Traffic F) (endpointId : String) :
    s.rewardsFor endpointId = [] ↔
      ∀ outcome ∈ s.outcomes, outcome.endpointId ≠ endpointId := by
  rw [rewardsFor, List.map_eq_nil_iff, List.filter_eq_nil_iff]
  simp only [decide_eq_true_eq, ne_eq]

/-- The condition on a request: no candidate has a recorded outcome. -/
def Untried (s : Traffic F) : TrafficEvent F → Prop
  | .request _ conversationId _ candidates _ _ =>
    conversationId ∉ s.issued →
      ∀ endpointId ∈ candidates, ∀ outcome ∈ s.outcomes, outcome.endpointId ≠ endpointId
  | .outcome _ _ _ _ _ => True

/-- Every conversation of the router was drawn by a request. -/
structure Drawn (s : Traffic F) : Prop where
  conversations : ∀ cid, cid ∉ s.issued → s.quantum.state.get cid = none
  inProgress : ∀ entry ∈ s.inProgress, entry.1 ∈ s.issued

theorem drawn_start (config : QuantumConfig F) : (start config).Drawn where
  conversations := by
    intro cid _
    rfl
  inProgress := by
    intro entry hentry
    exact absurd hentry List.not_mem_nil

variable [Arith F]

/-- Routing of a request.  Without a selection the request ends with 503. -/
def request (s : Traffic F) (id conversationId : Uuid) (req : Json) (candidates : List String)
    (now : Int) (draws : Draws F) : Traffic F :=
  let routed := s.quantum.route (inferenceMessage id conversationId req now) candidates now draws
  { s with
    quantum := routed.2
    inProgress := (routed.1.map fun selected => (conversationId, selected)).toList ++ s.inProgress
    issued := id :: conversationId :: s.issued }

/-- The observation of the outcome of a request. -/
def outcome (s : Traffic F) (conversationId : Uuid) (endpointId : String) (success : Bool)
    (latencyMs : Nat) (now : Int) : Traffic F :=
  { s with
    quantum := (s.quantum.observe conversationId endpointId success latencyMs now).1
    inProgress := s.inProgress.erase (conversationId, endpointId)
    outcomes := s.outcomes ++ [⟨endpointId, QuantumRouter.reward success latencyMs⟩] }

def step (s : Traffic F) : TrafficEvent F → Option (Traffic F)
  | .request id conversationId req candidates now draws =>
    if id ∉ s.issued ∧ conversationId ∉ s.issued ∧ id ≠ conversationId then
      some (s.request id conversationId req candidates now draws)
    else
      none
  | .outcome conversationId endpointId success latencyMs now =>
    if (conversationId, endpointId) ∈ s.inProgress then
      some (s.outcome conversationId endpointId success latencyMs now)
    else
      none

/-- A request reads the history of each of its candidates. -/
def ReadsHistory (s : Traffic F) : TrafficEvent F → Prop
  | .request _ conversationId _ candidates now _ =>
    conversationId ∉ s.issued →
      ∀ read ∈ s.quantum.reads conversationId candidates now,
        read.2.pulls = (s.rewardsFor read.1).length ∧
          read.2.totalReward = (s.rewardsFor read.1).foldl (· + ·) 0
  | .outcome _ _ _ _ _ => True

theorem Drawn.request {s : Traffic F} (h : s.Drawn) (id conversationId : Uuid) (req : Json)
    (candidates : List String) (now : Int) (draws : Draws F) :
    (s.request id conversationId req candidates now draws).Drawn where
  conversations := by
    intro cid hcid
    obtain ⟨hid, hconv, hold⟩ : cid ≠ id ∧ cid ≠ conversationId ∧ cid ∉ s.issued := by
      simpa [Traffic.request] using hcid
    show (s.quantum.route _ candidates now draws).2.state.get cid = none
    rw [QuantumRouter.get_route_of_ne _ _ _ _ _ hconv]
    exact h.conversations cid hold
  inProgress := by
    intro entry hentry
    have hcases : entry ∈ ((s.quantum.route (inferenceMessage id conversationId req now) candidates
        now draws).1.map fun selected => (conversationId, selected)).toList ∨
        entry ∈ s.inProgress := List.mem_append.mp hentry
    show entry.1 ∈ id :: conversationId :: s.issued
    rcases hcases with hnew | hold
    · obtain ⟨selected, _, rfl⟩ := Option.map_eq_some_iff.mp (Option.mem_toList.mp hnew)
      exact List.mem_cons_of_mem _ List.mem_cons_self
    · apply List.mem_cons_of_mem
      apply List.mem_cons_of_mem
      exact h.inProgress entry hold

theorem Drawn.outcome {s : Traffic F} (h : s.Drawn) {conversationId : Uuid}
    {endpointId : String} (hmem : (conversationId, endpointId) ∈ s.inProgress) (success : Bool)
    (latencyMs : Nat) (now : Int) :
    (s.outcome conversationId endpointId success latencyMs now).Drawn where
  conversations := by
    intro cid hcid
    have hne : cid ≠ conversationId := by
      rintro rfl
      exact hcid (h.inProgress _ hmem)
    show (s.quantum.observe conversationId endpointId success latencyMs now).1.state.get cid = none
    rw [QuantumRouter.get_observe_of_ne _ _ _ _ _ hne]
    exact h.conversations cid hcid
  inProgress := by
    intro entry hentry
    exact h.inProgress entry (List.mem_of_mem_erase hentry)

theorem Drawn.step {s t : Traffic F} {event : TrafficEvent F} (h : s.Drawn)
    (hstep : s.step event = some t) : t.Drawn := by
  cases event with
  | request id conversationId req candidates now draws =>
    simp only [Traffic.step] at hstep
    split at hstep
    · obtain rfl := Option.some.inj hstep
      exact h.request id conversationId req candidates now draws
    · simp at hstep
  | outcome conversationId endpointId success latencyMs now =>
    simp only [Traffic.step] at hstep
    split at hstep
    · rename_i hmem
      obtain rfl := Option.some.inj hstep
      exact h.outcome hmem success latencyMs now
    · simp at hstep

/-- A request reads the default state of every candidate. -/
theorem Drawn.reads {s : Traffic F} (h : s.Drawn) {conversationId : Uuid}
    (hfresh : conversationId ∉ s.issued) (candidates : List String) (now : Int) :
    s.quantum.reads conversationId candidates now = candidates.map fun c => (c, default) := by
  rw [QuantumRouter.reads_eq]
  apply List.map_congr_left
  intro c _
  rw [QuantumStateManager.stateOf, h.conversations conversationId hfresh]
  rfl

theorem readsHistory_iff_untried_step {s : Traffic F} (h : s.Drawn) (event : TrafficEvent F) :
    s.ReadsHistory event ↔ s.Untried event := by
  cases event with
  | outcome conversationId endpointId success latencyMs now => exact Iff.rfl
  | request id conversationId req candidates now draws =>
    refine forall_congr' fun hfresh => ?_
    rw [h.reads hfresh candidates now]
    constructor
    · intro hreads endpointId hmem
      have hread := hreads (endpointId, default) (List.mem_map_of_mem hmem)
      have hlength : 0 = (s.rewardsFor endpointId).length := hread.1
      rw [← rewardsFor_eq_nil_iff]
      exact List.length_eq_zero_iff.mp hlength.symm
    · intro huntried read hread
      obtain ⟨endpointId, hmem, rfl⟩ := List.mem_map.mp hread
      have hnil := (s.rewardsFor_eq_nil_iff endpointId).mpr (huntried endpointId hmem)
      rw [hnil]
      exact ⟨rfl, rfl⟩

/-- All along a run, requests read what earlier requests recorded exactly when
no request has a candidate with a recorded outcome. -/
theorem readsHistory_iff_untried (config : QuantumConfig F) (events : List (TrafficEvent F)) :
    Guarded step ReadsHistory (start config) events ↔
      Guarded step Untried (start config) events :=
  guarded_congr (I := Drawn) (fun _ _ _ h hstep => h.step hstep)
    (fun _ event h => readsHistory_iff_untried_step h event) (drawn_start config) events

/-- Two requests for one endpoint.  The first succeeds before the second is
routed. -/
def repeatedRun (draws : Draws F) : List (TrafficEvent F) :=
  [.request 1 2 .null ["ep-a"] 0 draws, .outcome 2 "ep-a" true 20 1,
    .request 3 4 .null ["ep-a"] 2 draws]

/-- A request with one candidate selects it. -/
theorem inProgress_request_singleton (s : Traffic F) (id conversationId : Uuid) (req : Json)
    (endpointId : String) (now : Int) (draws : Draws F) :
    (conversationId, endpointId) ∈
      (s.request id conversationId req [endpointId] now draws).inProgress := by
  let msg := inferenceMessage id conversationId req now
  have hsome := s.quantum.route_isSome msg now draws (List.cons_ne_nil endpointId [])
  obtain ⟨selected, hselected⟩ := Option.isSome_iff_exists.mp hsome
  obtain rfl : selected = endpointId := List.mem_singleton.mp (s.quantum.route_mem hselected)
  apply List.mem_append_left
  apply Option.mem_toList.mpr
  exact Option.map_eq_some_iff.mpr ⟨selected, hselected, rfl⟩

/-- The second request reads no pull of the endpoint. -/
theorem second_request_reads_default :
    ¬ ∀ (config : QuantumConfig Float) (events : List (TrafficEvent Float)),
        Guarded step ReadsHistory (start config) events := by
  intro h
  let draws : Draws Float := ⟨0.5, fun _ h => ⟨0, h⟩, fun _ => none⟩
  let s₁ := (start (F := Float) ⟨0.1, 0.1⟩).request 1 2 .null ["ep-a"] 0 draws
  have hmem : (2, "ep-a") ∈ s₁.inProgress := inProgress_request_singleton _ 1 2 .null "ep-a" 0 draws
  have hdrawn : (s₁.outcome 2 "ep-a" true 20 1).Drawn :=
    ((drawn_start _).request 1 2 .null ["ep-a"] 0 draws).outcome hmem true 20 1
  have hfirst := (guarded_cons (t := s₁) rfl).mp (h ⟨0.1, 0.1⟩ (repeatedRun draws))
  have hsecond := (guarded_cons (if_pos hmem)).mp hfirst.2
  have hreads := ((readsHistory_iff_untried_step hdrawn _).mp hsecond.2.1) (by decide)
  exact hreads "ep-a" List.mem_cons_self _ List.mem_cons_self rfl

end Traffic

end Xfiles.Proxy
