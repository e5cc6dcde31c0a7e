import Xfiles.Lib.Transition
import Xfiles.Router.Stages

/-!
# The chat proxy and the pipeline on one breaker

The system that `chat_completions_handler` and `RoutingPipeline::route` make
of one shared breaker and one shared endpoint map.  Every `allow`, every
outcome and every lookup in the endpoint map is a step of its own, so any two
requests, route calls and health changes interleave between them.

* A request filters the endpoint map, one endpoint at a time, selects one of
  the candidates, looks it up again, and awaits the upstream outcome.  The
  quantum router may select any candidate, and without it the first one is
  selected.
* A route call checks the destinations that the plumber gave it, one at a
  time.  It records no outcome.
* Probing, discovery and pruning change the endpoint map at any time.

`Iter` of the concurrent map visits an entry at most once, and an entry that
comes or goes during the pass may be missed.  The model lets a pass end at
any point, which allows every pass of the code.
-/

namespace Xfiles.Proxy

open Xfiles.Circuit Xfiles.Router Transition

/-- Where a request of `chat_completions_handler` stands. -/
inductive Stage where
  | filtering (visited candidates : List String)
  | selected (endpointId : String)
  | awaiting (endpointId : String)
  deriving DecidableEq, Repr

/-- The endpoints that the request was admitted for and has not let go. -/
def Stage.held : Stage → List String
  | .filtering _ candidates => candidates
  | .selected endpointId => [endpointId]
  | .awaiting endpointId => [endpointId]

/-- The shared state, the requests and route calls in progress, and the
clock. -/
structure Hub where
  /-- Whether `state.quantum` is set. -/
  quantum : Bool
  circuit : CircuitBreaker
  endpoints : EndpointMap
  requests : Nat → Option Stage
  /-- The destinations that each route call has yet to check. -/
  routes : Nat → Option (List String)
  now : Nat

inductive Label where
  | advance (elapsed : Nat)
  | setHealth (endpointId : String) (health : Option HealthStatus)
  | arrive (request : Nat)
  | consider (request : Nat) (endpointId : String)
  | select (request : Nat) (endpointId : String)
  | reject (request : Nat)
  | forward (request : Nat)
  | outcome (request : Nat) (success : Bool)
  | route (call : Nat) (destinations : List String)
  | check (call : Nat)
  deriving DecidableEq, Repr

/-- The request of `chat_completions_handler` that takes the step. -/
def Label.request : Label → Option Nat
  | .arrive request | .consider request _ | .select request _ | .reject request
  | .forward request | .outcome request _ => some request
  | .advance _ | .setHealth _ _ | .route _ _ | .check _ => none

namespace Hub

/-- The hub before the first request. -/
def start (quantum : Bool) (limits : Limits) (endpoints : EndpointMap) : Hub where
  quantum := quantum
  circuit := .ofLimits limits
  endpoints := endpoints
  requests _ := none
  routes _ := none
  now := 0

def setRequest (s : Hub) (request : Nat) (stage : Option Stage) : Hub :=
  { s with requests := Function.update s.requests request stage }

/-- The filter closure on one entry of the endpoint map.  The health is
looked at first, and an offline endpoint does not reach the breaker. -/
def consider (s : Hub) (request : Nat) (endpointId : String) (health : HealthStatus)
    (visited candidates : List String) : Hub :=
  if health = .offline then
    s.setRequest request (some (.filtering (endpointId :: visited) candidates))
  else
    let answer := s.circuit.allow endpointId s.now
    let candidates' := if answer.1 then candidates ++ [endpointId] else candidates
    { s with circuit := answer.2 }.setRequest request
      (some (.filtering (endpointId :: visited) candidates'))

/-- Whether the router may select the candidate. -/
def maySelect (s : Hub) (endpointId : String) (candidates : List String) : Bool :=
  if s.quantum then endpointId ∈ candidates else candidates.head? = some endpointId

/-- The outcome of the forwarded request reaches the breaker. -/
def outcome (s : Hub) (request : Nat) (endpointId : String) (success : Bool) : Hub :=
  { s with
    circuit :=
      if success then s.circuit.recordSuccess endpointId
      else s.circuit.recordFailure endpointId s.now }.setRequest request none

/-- The circuit stage on the next destination of a route call. -/
def check (s : Hub) (call : Nat) (epId : String) (rest : List String) : Hub :=
  { s with
    circuit := (circuitCheck s.endpoints s.circuit s.now epId).2
    routes := Function.update s.routes call (some rest) }

def step (s : Hub) : Label → Option Hub
  | .advance elapsed => some { s with now := s.now + elapsed }
  | .setHealth endpointId health =>
    some { s with endpoints := Function.update s.endpoints endpointId health }
  | .arrive request =>
    match s.requests request with
    | none => some (s.setRequest request (some (.filtering [] [])))
    | some _ => none
  | .consider request endpointId =>
    match s.requests request, s.endpoints endpointId with
    | some (.filtering visited candidates), some health =>
      if endpointId ∈ visited then none
      else some (s.consider request endpointId health visited candidates)
    | _, _ => none
  | .select request endpointId =>
    match s.requests request with
    | some (.filtering _ candidates) =>
      if s.maySelect endpointId candidates then
        some (s.setRequest request (some (.selected endpointId)))
      else none
    | _ => none
  | .reject request =>
    -- 503: no healthy AI endpoints available
    match s.requests request with
    | some (.filtering _ []) => some (s.setRequest request none)
    | _ => none
  | .forward request =>
    match s.requests request with
    | some (.selected endpointId) =>
      match s.endpoints endpointId with
      | some _ => some (s.setRequest request (some (.awaiting endpointId)))
      -- 503: selected endpoint no longer exists
      | none => some (s.setRequest request none)
    | _ => none
  | .outcome request success =>
    match s.requests request with
    | some (.awaiting endpointId) => some (s.outcome request endpointId success)
    | _ => none
  | .route call destinations =>
    match s.routes call with
    | none | some [] =>
      some { s with routes := Function.update s.routes call (some destinations) }
    | some (_ :: _) => none
  | .check call =>
    match s.routes call with
    | some (epId :: rest) => some (s.check call epId rest)
    | _ => none

/-! ## What each step does -/

theorem mem_of_maySelect {s : Hub} {endpointId : String} {candidates : List String}
    (h : s.maySelect endpointId candidates = true) : endpointId ∈ candidates := by
  unfold maySelect at h
  split at h
  · simpa using h
  · exact List.mem_of_head? (by simpa using h)

theorem step_arrive {s t : Hub} {request : Nat} (h : s.step (.arrive request) = some t) :
    s.requests request = none ∧
      t = s.setRequest request (some (.filtering [] [])) := by
  simp only [step] at h
  split at h
  · rename_i hnone
    exact ⟨hnone, (Option.some.inj h).symm⟩
  · simp at h

theorem step_consider {s t : Hub} {request : Nat} {endpointId : String}
    (h : s.step (.consider request endpointId) = some t) :
    ∃ visited candidates health,
      s.requests request = some (.filtering visited candidates) ∧
        t = s.consider request endpointId health visited candidates := by
  simp only [step] at h
  split at h
  · rename_i visited candidates health hstage _
    split at h
    · simp at h
    · exact ⟨visited, candidates, health, hstage, (Option.some.inj h).symm⟩
  · simp at h

theorem step_select {s t : Hub} {request : Nat} {endpointId : String}
    (h : s.step (.select request endpointId) = some t) :
    ∃ visited candidates,
      s.requests request = some (.filtering visited candidates) ∧
        endpointId ∈ candidates ∧
        t = s.setRequest request (some (.selected endpointId)) := by
  simp only [step] at h
  split at h
  · rename_i visited candidates hstage
    split at h
    · rename_i hmay
      exact ⟨visited, candidates, hstage, mem_of_maySelect hmay,
        (Option.some.inj h).symm⟩
    · simp at h
  · simp at h

theorem step_reject {s t : Hub} {request : Nat} (h : s.step (.reject request) = some t) :
    ∃ visited, s.requests request = some (.filtering visited []) ∧
      t = s.setRequest request none := by
  simp only [step] at h
  split at h
  · rename_i visited hstage
    exact ⟨visited, hstage, (Option.some.inj h).symm⟩
  · simp at h

theorem step_forward {s t : Hub} {request : Nat} (h : s.step (.forward request) = some t) :
    ∃ endpointId, s.requests request = some (.selected endpointId) ∧
      (s.endpoints endpointId ≠ none ∧
          t = s.setRequest request (some (.awaiting endpointId)) ∨
        s.endpoints endpointId = none ∧ t = s.setRequest request none) := by
  simp only [step] at h
  split at h
  · rename_i endpointId hstage
    refine ⟨endpointId, hstage, ?_⟩
    split at h
    · rename_i health hfound
      exact Or.inl ⟨by simp [hfound], (Option.some.inj h).symm⟩
    · rename_i hgone
      exact Or.inr ⟨hgone, (Option.some.inj h).symm⟩
  · simp at h

theorem step_outcome {s t : Hub} {request : Nat} {success : Bool}
    (h : s.step (.outcome request success) = some t) :
    ∃ endpointId, s.requests request = some (.awaiting endpointId) ∧
      t = s.outcome request endpointId success := by
  simp only [step] at h
  split at h
  · rename_i endpointId hstage
    exact ⟨endpointId, hstage, (Option.some.inj h).symm⟩
  · simp at h

theorem step_route {s t : Hub} {call : Nat} {destinations : List String}
    (h : s.step (.route call destinations) = some t) :
    t = { s with routes := Function.update s.routes call (some destinations) } := by
  simp only [step] at h
  split at h
  · exact (Option.some.inj h).symm
  · exact (Option.some.inj h).symm
  · simp at h

theorem step_check {s t : Hub} {call : Nat} (h : s.step (.check call) = some t) :
    ∃ epId rest, s.routes call = some (epId :: rest) ∧ t = s.check call epId rest := by
  simp only [step] at h
  split at h
  · rename_i epId rest hroute
    exact ⟨epId, rest, hroute, (Option.some.inj h).symm⟩
  · simp at h

/-- A step leaves every other request where it stands. -/
theorem requests_step {s t : Hub} {label : Label} {request : Nat}
    (hother : label.request ≠ some request) (hstep : s.step label = some t) :
    t.requests request = s.requests request := by
  have hset : ∀ (u : Hub) (other : Nat) (stage : Option Stage), some other ≠ some request →
      (u.setRequest other stage).requests request = u.requests request := by
    intro u other stage hne
    exact Function.update_of_ne (fun heq => hne (congrArg some heq.symm)) _ _
  cases label with
  | advance elapsed =>
    obtain rfl := Option.some.inj hstep
    rfl
  | setHealth endpointId health =>
    obtain rfl := Option.some.inj hstep
    rfl
  | arrive other =>
    obtain ⟨_, rfl⟩ := step_arrive hstep
    exact hset _ _ _ hother
  | consider other endpointId =>
    obtain ⟨visited, candidates, health, _, rfl⟩ := step_consider hstep
    unfold Hub.consider
    split
    · exact hset _ _ _ hother
    · exact hset _ _ _ hother
  | select other endpointId =>
    obtain ⟨_, _, _, _, rfl⟩ := step_select hstep
    exact hset _ _ _ hother
  | reject other =>
    obtain ⟨_, _, rfl⟩ := step_reject hstep
    exact hset _ _ _ hother
  | forward other =>
    obtain ⟨_, _, ⟨_, rfl⟩ | ⟨_, rfl⟩⟩ := step_forward hstep
    · exact hset _ _ _ hother
    · exact hset _ _ _ hother
  | outcome other success =>
    obtain ⟨_, _, rfl⟩ := step_outcome hstep
    exact hset _ _ _ hother
  | route call destinations =>
    obtain rfl := step_route hstep
    rfl
  | check call =>
    obtain ⟨_, _, _, rfl⟩ := step_check hstep
    rfl

/-- A run leaves every request that it does not name where it stands. -/
theorem requests_run {s t : Hub} {labels : List Label} {request : Nat}
    (hother : ∀ label ∈ labels, label.request ≠ some request)
    (hrun : run step s labels = some t) : t.requests request = s.requests request := by
  induction labels generalizing s with
  | nil =>
    obtain rfl := Option.some.inj hrun
    rfl
  | cons label labels ih =>
    obtain ⟨u, hstep, hrest⟩ := run_cons_eq_some.mp hrun
    rw [ih (fun l hl => hother l (List.mem_cons_of_mem _ hl)) hrest]
    exact requests_step (hother label List.mem_cons_self) hstep

/-- The endpoints that a request holds. -/
def held (s : Hub) (request : Nat) : List String :=
  ((s.requests request).map Stage.held).getD []

/-- No request in progress was admitted for `e`. -/
def Free (s : Hub) (e : String) : Prop := ∀ request, e ∉ s.held request

end Hub

end Xfiles.Proxy
