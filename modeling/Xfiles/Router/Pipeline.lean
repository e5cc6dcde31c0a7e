import Xfiles.Quantum.Router
import Xfiles.Router.Stages

/-!
# The routing pipeline

The model of `router.rs`: the context that the stages pass on, the five
stages, and the default pipeline.

* `RoutingState` holds the objects that the stages share.  A stage takes it and
  returns it.
* `Readings` is what a route call reads from outside: the clock at each circuit
  check, and the random draws.
* `circuitPass` is the pass of the circuit stage over the candidates, with the
  answer of every check.
* `run` applies stages until one is final.

Circuit checks of one route call follow one another without other calls in
between.
-/

namespace Xfiles.Router

open Xfiles.Circuit Xfiles.Quantum

variable {F : Type*}

/-- Decision produced by the routing pipeline. -/
structure RoutingDecision where
  selected : Option String
  candidates : List String
  explanation : String
  deriving DecidableEq, Repr

/-- Mutable routing context passed through each stage. -/
structure RoutingContext where
  candidates : List String
  selected : Option String
  explanation : List String
  rejected : List String
  deriving DecidableEq, Repr

namespace RoutingContext

def new (candidates : List String) : RoutingContext where
  candidates := candidates
  selected := none
  explanation := []
  rejected := []

def intoDecision (ctx : RoutingContext) : RoutingDecision where
  selected := ctx.selected
  candidates := ctx.candidates
  explanation := "; ".intercalate ctx.explanation

/-- `explanation.push`. -/
def explain (ctx : RoutingContext) (text : String) : RoutingContext :=
  { ctx with explanation := ctx.explanation ++ [text] }

/-- The candidates that are not rejected. -/
def validCandidates (ctx : RoutingContext) : List String :=
  ctx.candidates.filter fun c => c ∉ ctx.rejected

end RoutingContext

/-- The objects that the stages share. -/
structure RoutingState (F : Type*) where
  mcp : McpRegistry
  plumber : Plumber
  quantum : Option (QuantumRouter F)
  circuit : Option CircuitBreaker
  endpoints : EndpointMap

/-- What one route call reads from outside: the clock at its circuit checks,
and the draws of the quantum stage. -/
structure Readings (F : Type*) where
  clock : Nat → Nat
  now : Int
  draws : Draws F

/-! ## The stages -/

/-- The tool that a message calls. -/
def toolName (msg : Message) : String :=
  ((msg.data.get "tool").bind Json.asStr).getD "unknown"

/-- Detects MCP tool calls and routes to the appropriate tool endpoint. -/
def McpRoutingStage.apply (mcp : McpRegistry) (msg : Message) (ctx : RoutingContext) :
    Bool × RoutingContext :=
  if msg.msgType = "mcp_tool_call" then
    match mcp.findEndpointForTool (toolName msg) with
    | some endpoint =>
      (true, { ctx with selected := some endpoint }.explain
        ("mcp tool '" ++ toolName msg ++ "' → " ++ endpoint))
    | none => (false, ctx)
  else
    (false, ctx)

/-- Routes based on plumber content rules. -/
def PlumberRoutingStage.apply (plumber : Plumber) (msg : Message) (ctx : RoutingContext) :
    Bool × RoutingContext :=
  let destinations := plumber.route msg
  (false, { ctx.explain ("plumber matched " ++ toString destinations.length ++ " rule(s)") with
    candidates := destinations })

/-- Probabilistic endpoint selection using the quantum router. -/
def QuantumRoutingStage.apply [Arith F] (quantum : QuantumRouter F) (now : Int)
    (draws : Draws F) (msg : Message) (ctx : RoutingContext) :
    Bool × RoutingContext × QuantumRouter F :=
  if ctx.candidates.isEmpty then (false, ctx, quantum)
  else if ctx.validCandidates.isEmpty then
    (false, ctx.explain "quantum: no valid candidates", quantum)
  else
    let routed := quantum.route msg ctx.validCandidates now draws
    match routed.1 with
    | some selected =>
      (true, { ctx.explain ("quantum selected " ++ selected) with selected := some selected },
        routed.2)
    | none => (false, ctx.explain "quantum: no selection", routed.2)

/-- Fallback stage that selects the first available candidate. -/
def FallbackRoutingStage.apply (ctx : RoutingContext) : Bool × RoutingContext :=
  match ctx.validCandidates.head? with
  | some first =>
    (true, { ctx.explain ("fallback selected " ++ first) with selected := some first })
  | none => (false, ctx.explain "fallback: no candidates available")

/-- The checks of the circuit stage, one for each candidate, from check `i`
on: the answers, and the breaker after them. -/
def circuitPass (endpoints : EndpointMap) (clock : Nat → Nat) (i : Nat)
    (circuit : CircuitBreaker) : List String → List (String × Bool) × CircuitBreaker
  | [] => ([], circuit)
  | epId :: rest =>
    let check := circuitCheck endpoints circuit (clock i) epId
    let more := circuitPass endpoints clock (i + 1) check.2 rest
    ((epId, check.1) :: more.1, more.2)

/-- The ids of the checks with a given answer. -/
def withAnswer (answer : Bool) (checks : List (String × Bool)) : List String :=
  (checks.filter fun check => check.2 = answer).map (·.1)

/-- Filters candidates through the circuit breaker. -/
def CircuitAwareStage.apply (circuit : CircuitBreaker) (endpoints : EndpointMap)
    (clock : Nat → Nat) (ctx : RoutingContext) : Bool × RoutingContext × CircuitBreaker :=
  let pass := circuitPass endpoints clock 0 circuit ctx.candidates
  let kept := withAnswer true pass.1
  let filtered :=
    { ctx with candidates := kept, rejected := ctx.rejected ++ withAnswer false pass.1 }
  (false,
    if kept.length < ctx.candidates.length then
      filtered.explain ("circuit breaker filtered " ++
        toString (ctx.candidates.length - kept.length) ++ " endpoint(s)")
    else filtered,
    pass.2)

/-! ## The pipeline -/

inductive RouterStage where
  | mcp
  | plumber
  | circuitAware
  | quantum
  | fallback
  deriving DecidableEq, Repr

/-- Apply a stage to the routing context.  A stage whose object is missing is
not in the pipeline. -/
def RouterStage.apply [Arith F] (readings : Readings F) (msg : Message) (ctx : RoutingContext)
    (s : RoutingState F) : RouterStage → Bool × RoutingContext × RoutingState F
  | .mcp =>
    let applied := McpRoutingStage.apply s.mcp msg ctx
    (applied.1, applied.2, s)
  | .plumber =>
    let applied := PlumberRoutingStage.apply s.plumber msg ctx
    (applied.1, applied.2, s)
  | .circuitAware =>
    match s.circuit with
    | some c =>
      let applied := CircuitAwareStage.apply c s.endpoints readings.clock ctx
      (applied.1, applied.2.1, { s with circuit := some applied.2.2 })
    | none => (false, ctx, s)
  | .quantum =>
    match s.quantum with
    | some q =>
      let applied := QuantumRoutingStage.apply q readings.now readings.draws msg ctx
      (applied.1, applied.2.1, { s with quantum := some applied.2.2 })
    | none => (false, ctx, s)
  | .fallback =>
    let applied := FallbackRoutingStage.apply ctx
    (applied.1, applied.2, s)

namespace RoutingPipeline

/-- Builds the default routing pipeline. -/
def defaultPipeline (s : RoutingState F) : List RouterStage :=
  [.mcp, .plumber] ++ (if s.circuit.isSome then [.circuitAware] else []) ++
    (if s.quantum.isSome then [.quantum] else []) ++ [.fallback]

/-- The stages in turn, until one is final. -/
def run [Arith F] (readings : Readings F) (msg : Message) :
    List RouterStage → RoutingContext → RoutingState F → RoutingContext × RoutingState F
  | [], ctx, s => (ctx, s)
  | stage :: rest, ctx, s =>
    let applied := stage.apply readings msg ctx s
    if applied.1 then applied.2 else run readings msg rest applied.2.1 applied.2.2

/-- `RoutingPipeline::route`. -/
def route [Arith F] (stages : List RouterStage) (readings : Readings F) (msg : Message)
    (s : RoutingState F) : RoutingDecision × RoutingState F :=
  let final := run readings msg stages (.new []) s
  (final.1.intoDecision, final.2)

end RoutingPipeline

end Xfiles.Router
