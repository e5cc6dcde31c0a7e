import Xfiles.Router.Pipeline

/-!
# What the default pipeline selects

The default pipeline with a circuit breaker, over all messages, rules, tool
indexes, breaker states, endpoint maps and draws.

* `filtered` is the context after the circuit stage.
* `run_default` says that a message that the MCP stage does not resolve is
  routed by the selection stages from that context.  `run_unresolved` says it
  with or without a breaker, where `entered` is what these stages start from.
  `run_selection` says what they select.
* `Admitted` says that the breaker admitted an occurrence of a destination
  during the call.
* `selected_admitted` is the guarantee: a destination is selected because the
  tool index maps the called tool to it, or because the breaker admitted it and
  it is not known to be offline.  `offline_tool_endpoint_selected` shows that
  the MCP stage looks at neither, and `pruned_endpoint_selected` that an
  endpoint which is gone passes the health check.
-/

namespace Xfiles.Router

open Xfiles.Circuit Xfiles.Quantum RoutingPipeline

/-! ## The checks of the circuit stage -/

theorem mem_withAnswer {answer : Bool} {checks : List (String × Bool)} {d : String} :
    d ∈ withAnswer answer checks ↔ (d, answer) ∈ checks := by
  unfold withAnswer
  constructor
  · intro h
    obtain ⟨check, hcheck, rfl⟩ := List.mem_map.mp h
    obtain ⟨hmem, hanswer⟩ := List.mem_filter.mp hcheck
    have heq : check.2 = answer := by simpa using hanswer
    rw [← heq]
    exact hmem
  · intro h
    apply List.mem_map.mpr
    exact ⟨(d, answer), List.mem_filter.mpr ⟨h, by simp⟩, rfl⟩

/-- Each check was made on one occurrence of its destination, after the checks
of the destinations before it. -/
theorem mem_circuitPass {endpoints : EndpointMap} {clock : Nat → Nat} {i : Nat}
    {circuit : CircuitBreaker} {destinations : List String} {d : String} {answer : Bool} :
    (d, answer) ∈ (circuitPass endpoints clock i circuit destinations).1 ↔
      ∃ first rest, destinations = first ++ d :: rest ∧
        (circuitCheck endpoints (circuitPass endpoints clock i circuit first).2
          (clock (i + first.length)) d).1 = answer := by
  induction destinations generalizing i circuit with
  | nil => simp [circuitPass]
  | cons e tail ih =>
    have hsplit : (d, answer) ∈ (circuitPass endpoints clock i circuit (e :: tail)).1 ↔
        (d, answer) = (e, (circuitCheck endpoints circuit (clock i) e).1) ∨
          (d, answer) ∈ (circuitPass endpoints clock (i + 1)
            (circuitCheck endpoints circuit (clock i) e).2 tail).1 := List.mem_cons
    rw [hsplit, ih]
    constructor
    · rintro (hhead | ⟨first, rest, rfl, hanswer⟩)
      · obtain ⟨rfl, rfl⟩ := Prod.mk.inj hhead
        exact ⟨[], tail, rfl, rfl⟩
      · refine ⟨e :: first, rest, rfl, ?_⟩
        rw [List.length_cons, ← Nat.add_assoc, Nat.add_right_comm]
        exact hanswer
    · rintro ⟨first, rest, hdest, hanswer⟩
      cases first with
      | nil =>
        obtain ⟨rfl, rfl⟩ : e = d ∧ tail = rest := by simpa using hdest
        exact Or.inl (Prod.ext rfl hanswer.symm)
      | cons e' first =>
        obtain ⟨rfl, rfl⟩ : e = e' ∧ tail = first ++ d :: rest := by simpa using hdest
        refine Or.inr ⟨first, rest, rfl, ?_⟩
        rw [List.length_cons, ← Nat.add_assoc, Nat.add_right_comm] at hanswer
        exact hanswer

/-- The breaker admits an occurrence of `d` in a pass over the destinations. -/
def Admitted (circuit : CircuitBreaker) (endpoints : EndpointMap) (clock : Nat → Nat)
    (destinations : List String) (d : String) : Prop :=
  ∃ first rest, destinations = first ++ d :: rest ∧
    ((circuitPass endpoints clock 0 circuit first).2.allow d (clock first.length)).1 = true

theorem admitted_of_check {endpoints : EndpointMap} {clock : Nat → Nat}
    {circuit : CircuitBreaker} {destinations : List String} {d : String}
    (h : (d, true) ∈ (circuitPass endpoints clock 0 circuit destinations).1) :
    Admitted circuit endpoints clock destinations d ∧ endpoints d ≠ some .offline := by
  obtain ⟨first, rest, hdest, hanswer⟩ := mem_circuitPass.mp h
  have hboth := Bool.and_eq_true_iff.mp hanswer
  rw [Nat.zero_add] at hboth
  exact ⟨⟨first, rest, hdest, hboth.1⟩, of_decide_eq_true hboth.2⟩

/-! ## The stages of the default pipeline -/

variable {F : Type*}

/-- The MCP stage resolves the message to `d`. -/
def McpResolves (mcp : McpRegistry) (msg : Message) (d : String) : Prop :=
  msg.msgType = "mcp_tool_call" ∧ mcp.findEndpointForTool (toolName msg) = some d

/-- The circuit stage on the destinations of the plumber. -/
def circuitStage (s : RoutingState F) (circuit : CircuitBreaker) (readings : Readings F)
    (msg : Message) : Bool × RoutingContext × CircuitBreaker :=
  CircuitAwareStage.apply circuit s.endpoints readings.clock
    (PlumberRoutingStage.apply s.plumber msg (.new [])).2

/-- The context after the circuit stage. -/
def filtered (s : RoutingState F) (circuit : CircuitBreaker) (readings : Readings F)
    (msg : Message) : RoutingContext :=
  (circuitStage s circuit readings msg).2.1

/-- The checks that the circuit stage makes. -/
def checks (s : RoutingState F) (circuit : CircuitBreaker) (readings : Readings F)
    (msg : Message) : List (String × Bool) :=
  (circuitPass s.endpoints readings.clock 0 circuit (s.plumber.route msg)).1

/-- The stages after the circuit stage. -/
def selectionStages (s : RoutingState F) : List RouterStage :=
  (if s.quantum.isSome then [.quantum] else []) ++ [.fallback]

theorem candidates_filtered (s : RoutingState F) (circuit : CircuitBreaker)
    (readings : Readings F) (msg : Message) :
    (filtered s circuit readings msg).candidates =
      withAnswer true (checks s circuit readings msg) := by
  unfold filtered circuitStage CircuitAwareStage.apply
  dsimp only
  split
  · rfl
  · rfl

theorem rejected_filtered (s : RoutingState F) (circuit : CircuitBreaker)
    (readings : Readings F) (msg : Message) :
    (filtered s circuit readings msg).rejected =
      withAnswer false (checks s circuit readings msg) := by
  unfold filtered circuitStage CircuitAwareStage.apply
  dsimp only
  split
  · rfl
  · rfl

theorem selected_filtered (s : RoutingState F) (circuit : CircuitBreaker)
    (readings : Readings F) (msg : Message) :
    (filtered s circuit readings msg).selected = none := by
  unfold filtered circuitStage CircuitAwareStage.apply
  dsimp only
  split
  · rfl
  · rfl

/-- The context and the breaker after the plumber and the circuit stage. -/
def entered (s : RoutingState F) (readings : Readings F) (msg : Message) :
    RoutingContext × Option CircuitBreaker :=
  match s.circuit with
  | some circuit =>
    (filtered s circuit readings msg, some (circuitStage s circuit readings msg).2.2)
  | none => ((PlumberRoutingStage.apply s.plumber msg (.new [])).2, none)

theorem selected_entered (s : RoutingState F) (readings : Readings F) (msg : Message) :
    (entered s readings msg).1.selected = none := by
  unfold entered
  cases s.circuit with
  | none => rfl
  | some circuit => exact selected_filtered s circuit readings msg

variable [Arith F] (readings : Readings F) (msg : Message)

theorem run_of_not_final {stage : RouterStage} {ctx : RoutingContext} {s : RoutingState F}
    (h : (stage.apply readings msg ctx s).1 = false) (rest : List RouterStage) :
    run readings msg (stage :: rest) ctx s =
      run readings msg rest (stage.apply readings msg ctx s).2.1
        (stage.apply readings msg ctx s).2.2 := by
  simp only [run, h, Bool.false_eq_true, if_false]

theorem run_of_final {stage : RouterStage} {ctx : RoutingContext} {s : RoutingState F}
    (h : (stage.apply readings msg ctx s).1 = true) (rest : List RouterStage) :
    run readings msg (stage :: rest) ctx s = (stage.apply readings msg ctx s).2 := by
  simp only [run, h, if_true]

/-- The MCP stage passes on a message that it does not resolve. -/
theorem mcp_apply {s : RoutingState F} (hmcp : ∀ d, ¬ McpResolves s.mcp msg d) :
    RouterStage.mcp.apply readings msg (.new []) s = (false, .new [], s) := by
  simp only [RouterStage.apply, McpRoutingStage.apply]
  split
  · rename_i htype
    cases hfind : s.mcp.findEndpointForTool (toolName msg) with
    | none => rfl
    | some d => exact absurd ⟨htype, hfind⟩ (hmcp d)
  · rfl

/-- A message that the MCP stage does not resolve goes through the plumber and
the circuit stage to the selection stages. -/
theorem run_default {s : RoutingState F} {circuit : CircuitBreaker} (hc : s.circuit = some circuit)
    (hmcp : ∀ d, ¬ McpResolves s.mcp msg d) :
    run readings msg (defaultPipeline s) (.new []) s =
      run readings msg (selectionStages s) (filtered s circuit readings msg)
        { s with circuit := some (circuitStage s circuit readings msg).2.2 } := by
  have hfirst := mcp_apply readings msg hmcp
  have hstages : defaultPipeline s = .mcp :: .plumber :: .circuitAware :: selectionStages s := by
    simp [defaultPipeline, selectionStages, hc]
  rw [hstages, run_of_not_final readings msg (by rw [hfirst]), hfirst,
    run_of_not_final readings msg rfl]
  have hthird : RouterStage.circuitAware.apply readings msg
      (PlumberRoutingStage.apply s.plumber msg (.new [])).2 s =
        (false, filtered s circuit readings msg,
          { s with circuit := some (circuitStage s circuit readings msg).2.2 }) := by
    simp only [RouterStage.apply, hc]
    rfl
  show run readings msg (.circuitAware :: selectionStages s)
    (PlumberRoutingStage.apply s.plumber msg (.new [])).2 s = _
  rw [run_of_not_final readings msg (by rw [hthird]), hthird]

/-- A message that the MCP stage does not resolve gets to the selection
stages. -/
theorem run_unresolved {s : RoutingState F} (hmcp : ∀ d, ¬ McpResolves s.mcp msg d) :
    run readings msg (defaultPipeline s) (.new []) s =
      run readings msg (selectionStages s) (entered s readings msg).1
        { s with circuit := (entered s readings msg).2 } := by
  unfold entered
  cases hc : s.circuit with
  | some circuit => exact run_default readings msg hc hmcp
  | none =>
    have hstages : defaultPipeline s = .mcp :: .plumber :: selectionStages s := by
      simp [defaultPipeline, selectionStages, hc]
    have hsame : ({ s with circuit := none } : RoutingState F) = s := by
      rw [← hc]
    rw [hstages, run_of_not_final readings msg (by rw [mcp_apply readings msg hmcp]),
      mcp_apply readings msg hmcp, run_of_not_final readings msg rfl, hsame]
    rfl

/-- A message that the MCP stage resolves gets no further. -/
theorem run_resolved {s : RoutingState F} {d : String} (h : McpResolves s.mcp msg d) :
    run readings msg (defaultPipeline s) (.new []) s =
      ({ RoutingContext.new [] with selected := some d }.explain
        ("mcp tool '" ++ toolName msg ++ "' → " ++ d), s) := by
  have hfirst : RouterStage.mcp.apply readings msg (.new []) s =
      (true, { RoutingContext.new [] with selected := some d }.explain
        ("mcp tool '" ++ toolName msg ++ "' → " ++ d), s) := by
    simp only [RouterStage.apply, McpRoutingStage.apply, if_pos h.1, h.2]
  show run readings msg (.mcp :: _) (.new []) s = _
  rw [run_of_final readings msg (by rw [hfirst]), hfirst]

/-- One of the candidates, by the quantum router if there is one, and otherwise
the first. -/
def pick (quantum : Option (QuantumRouter F)) (candidates : List String) : Option String :=
  match quantum with
  | some q => (q.route msg candidates readings.now readings.draws).1
  | none => candidates.head?

theorem pick_mem {quantum : Option (QuantumRouter F)} {candidates : List String} {d : String}
    (h : pick readings msg quantum candidates = some d) : d ∈ candidates := by
  cases quantum with
  | none => exact List.mem_of_head? h
  | some q => exact q.route_mem h

theorem pick_nil (quantum : Option (QuantumRouter F)) :
    pick readings msg quantum [] = none := by
  cases quantum with
  | none => rfl
  | some q => rfl

theorem pick_isSome (quantum : Option (QuantumRouter F)) {candidates : List String}
    (h : candidates ≠ []) : (pick readings msg quantum candidates).isSome := by
  cases quantum with
  | none => exact List.isSome_head?.mpr h
  | some q => exact q.route_isSome msg readings.now readings.draws h

/-- The fallback stage selects the first valid candidate if there is one. -/
theorem fallback_selected {ctx : RoutingContext} (hnone : ctx.selected = none) :
    (FallbackRoutingStage.apply ctx).2.selected = ctx.validCandidates.head? := by
  unfold FallbackRoutingStage.apply
  cases ctx.validCandidates with
  | nil => exact hnone
  | cons d rest => rfl

/-- Without a valid candidate the quantum stage leaves the context to the next
stage, up to an explanation. -/
theorem quantum_empty (q : QuantumRouter F) {ctx : RoutingContext}
    (hempty : ctx.validCandidates = []) :
    let applied := QuantumRoutingStage.apply q readings.now readings.draws msg ctx
    applied.1 = false ∧ applied.2.1.validCandidates = [] ∧
      applied.2.1.selected = ctx.selected := by
  intro applied
  by_cases hcandidates : ctx.candidates.isEmpty = true
  · have happlied : applied = (false, ctx, q) := if_pos hcandidates
    rw [happlied]
    exact ⟨rfl, hempty, rfl⟩
  · have happlied : applied = (false, ctx.explain "quantum: no valid candidates", q) :=
      (if_neg hcandidates).trans (if_pos (by rw [hempty]; rfl))
    rw [happlied]
    exact ⟨rfl, hempty, rfl⟩

/-- With a valid candidate the quantum stage selects what the router routes. -/
theorem quantum_selected (q : QuantumRouter F) {ctx : RoutingContext}
    (hne : ctx.validCandidates ≠ []) :
    let applied := QuantumRoutingStage.apply q readings.now readings.draws msg ctx
    applied.1 = true ∧ applied.2.1.selected =
      (q.route msg ctx.validCandidates readings.now readings.draws).1 := by
  intro applied
  have hcandidates : ¬ ctx.candidates.isEmpty = true := by
    intro h
    exact hne (by simp [RoutingContext.validCandidates, List.isEmpty_iff.mp h])
  have hvalid : ¬ ctx.validCandidates.isEmpty = true := fun h => hne (List.isEmpty_iff.mp h)
  obtain ⟨d, hd⟩ := Option.isSome_iff_exists.mp
    (q.route_isSome msg readings.now readings.draws hne)
  have happlied : applied = (true,
      { ctx.explain ("quantum selected " ++ d) with selected := some d },
      (q.route msg ctx.validCandidates readings.now readings.draws).2) := by
    refine ((if_neg hcandidates).trans (if_neg hvalid)).trans ?_
    simp only [hd]
  rw [happlied, hd]
  exact ⟨rfl, rfl⟩

/-- With or without the quantum stage, the selection stages pick among the
valid candidates. -/
theorem selected_selection {ctx : RoutingContext} (hnone : ctx.selected = none)
    (s s' : RoutingState F) (hq : s'.quantum = s.quantum) :
    (run readings msg (selectionStages s) ctx s').1.selected =
      pick readings msg s.quantum ctx.validCandidates := by
  have hfallback : ∀ (ctx : RoutingContext) (s' : RoutingState F),
      (run readings msg [.fallback] ctx s').1 = (FallbackRoutingStage.apply ctx).2 := by
    intro ctx s'
    by_cases h : (RouterStage.fallback.apply readings msg ctx s').1 = true
    · rw [run_of_final readings msg h]
      rfl
    · rw [run_of_not_final readings msg (Bool.not_eq_true _ ▸ h)]
      rfl
  cases hquantum : s.quantum with
  | none =>
    have hstages : selectionStages s = [.fallback] := by simp [selectionStages, hquantum]
    rw [hstages, hfallback]
    exact fallback_selected hnone
  | some q =>
    have hstages : selectionStages s = [.quantum, .fallback] := by
      simp [selectionStages, hquantum]
    let applied := QuantumRoutingStage.apply q readings.now readings.draws msg ctx
    have happly : RouterStage.quantum.apply readings msg ctx s' =
        (applied.1, applied.2.1, { s' with quantum := some applied.2.2 }) := by
      simp only [RouterStage.apply, hq, hquantum]
      rfl
    rw [hstages]
    by_cases hempty : ctx.validCandidates = []
    · obtain ⟨hfinal, hempty', hselected⟩ := quantum_empty readings msg q hempty
      rw [run_of_not_final readings msg (by rw [happly]; exact hfinal), happly, hfallback,
        fallback_selected (hselected.trans hnone), hempty', hempty, pick_nil]
      rfl
    · obtain ⟨hfinal, hselected⟩ := quantum_selected readings msg q hempty
      rw [run_of_final readings msg (by rw [happly]; exact hfinal), happly]
      exact hselected

/-- The selection stages select a valid candidate if there is one, and nothing
otherwise. -/
theorem run_selection {ctx : RoutingContext} (hnone : ctx.selected = none)
    (s s' : RoutingState F) (hq : s'.quantum = s.quantum) :
    ctx.validCandidates = [] ∧
        (run readings msg (selectionStages s) ctx s').1.selected = none ∨
      ∃ d ∈ ctx.validCandidates,
        (run readings msg (selectionStages s) ctx s').1.selected = some d := by
  rw [selected_selection readings msg hnone s s' hq]
  by_cases hempty : ctx.validCandidates = []
  · rw [hempty]
    exact Or.inl ⟨rfl, pick_nil readings msg s.quantum⟩
  · obtain ⟨d, hd⟩ :=
      Option.isSome_iff_exists.mp (pick_isSome readings msg s.quantum hempty)
    exact Or.inr ⟨d, pick_mem readings msg hd, hd⟩

/-- A message that the MCP stage resolves is routed there. -/
theorem run_mcp {s : RoutingState F} {d : String} (h : McpResolves s.mcp msg d) :
    (run readings msg (defaultPipeline s) (.new []) s).1.selected = some d := by
  rw [run_resolved readings msg h]
  rfl

theorem mem_validCandidates {ctx : RoutingContext} {d : String} :
    d ∈ ctx.validCandidates ↔ d ∈ ctx.candidates ∧ d ∉ ctx.rejected := by
  simp [RoutingContext.validCandidates]

/-- A selected destination is the endpoint that the tool index names, or one
that the breaker admitted during this call and that is not known to be
offline. -/
theorem selected_admitted {s : RoutingState F} {circuit : CircuitBreaker} {d : String}
    (hc : s.circuit = some circuit)
    (h : (route (defaultPipeline s) readings msg s).1.selected = some d) :
    McpResolves s.mcp msg d ∨
      Admitted circuit s.endpoints readings.clock (s.plumber.route msg) d ∧
        s.endpoints d ≠ some .offline := by
  have hselected : (run readings msg (defaultPipeline s) (.new []) s).1.selected = some d := h
  by_cases hmcp : ∃ d', McpResolves s.mcp msg d'
  · obtain ⟨d', hd'⟩ := hmcp
    rw [run_mcp readings msg hd'] at hselected
    obtain rfl := Option.some.inj hselected
    exact Or.inl hd'
  · rw [run_default readings msg hc (fun d' hd' => hmcp ⟨d', hd'⟩)] at hselected
    rcases run_selection readings msg (selected_filtered s circuit readings msg) s
      { s with circuit := some (circuitStage s circuit readings msg).2.2 } rfl with
      ⟨_, hnone⟩ | ⟨d', hd', hsome⟩
    · simp [hnone] at hselected
    · obtain rfl := Option.some.inj (hsome.symm.trans hselected)
      have hcandidate := (mem_validCandidates.mp hd').1
      rw [candidates_filtered, mem_withAnswer] at hcandidate
      exact Or.inr (admitted_of_check hcandidate)

/-! ## Endpoints that drift away from the tool index -/

/-- What happens to the endpoint map after the start. -/
inductive EndpointChange where
  /-- `probe_all` sets the status of an endpoint. -/
  | probe (id : String) (status : HealthStatus)
  /-- A scan finds a new service. -/
  | discover (id : String)
  /-- `prune_offline` removes an endpoint. -/
  | pruneOffline (id : String)
  /-- A scan no longer finds a service. -/
  | pruneStale (id : String)
  deriving DecidableEq, Repr

def EndpointMap.change (endpoints : EndpointMap) : EndpointChange → EndpointMap
  | .probe id status =>
    if (endpoints id).isSome then Function.update endpoints id (some status) else endpoints
  | .discover id =>
    if (endpoints id).isSome then endpoints else Function.update endpoints id (some .healthy)
  | .pruneOffline id =>
    if endpoints id = some .offline then Function.update endpoints id none else endpoints
  | .pruneStale id => Function.update endpoints id none

/-- The endpoints registered at startup, the tools that they offer to
`discover_and_index`, and what happens to the map afterwards. -/
structure History where
  startup : List String
  discoverTools : String → Option (List String)
  changes : List EndpointChange

namespace History

def endpoints (history : History) : EndpointMap :=
  history.changes.foldl EndpointMap.change fun id =>
    if id ∈ history.startup then some .healthy else none

def mcp (history : History) : McpRegistry :=
  (history.startup.foldl McpRegistry.register .new).discoverAndIndex history.discoverTools

/-- `d` is or was the id of an endpoint. -/
def EverEndpoint (history : History) (d : String) : Prop :=
  d ∈ history.startup ∨ .discover d ∈ history.changes

/-- The objects that the pipeline shares after the history. -/
def routingState (history : History) (plumber : Plumber) (quantum : Option (QuantumRouter F))
    (circuit : CircuitBreaker) : RoutingState F where
  mcp := history.mcp
  plumber := plumber
  quantum := quantum
  circuit := some circuit
  endpoints := history.endpoints

end History

/-- The selection of an endpoint is sound: it is registered, it is not offline
and the breaker admitted it during the call. -/
def PicksGood (s : RoutingState F) (circuit : CircuitBreaker) (readings : Readings F)
    (msg : Message) (d : String) : Prop :=
  (∃ status, s.endpoints d = some status ∧ status ≠ .offline) ∧
    Admitted circuit s.endpoints readings.clock (s.plumber.route msg) d

/-- A clock that stands still, and draws that are never made. -/
def noReadings : Readings Float :=
  ⟨fun _ => 0, 0, ⟨0.5, fun _ h => ⟨0, h⟩, fun _ => none⟩⟩

/-- `ep-a` offers `search` at startup, and a probe finds it offline. -/
def offlineToolHistory : History where
  startup := ["ep-a"]
  discoverTools _ := some ["search"]
  changes := [.probe "ep-a" .offline]

/-- A call of `search`. -/
def searchCall : Message :=
  (Message.new "alice" "/mcp" "mcp_tool_call" 1 2 0).withData
    (.object [("tool", .string "search")])

/-- The call goes to the offline endpoint. -/
theorem offline_tool_endpoint_selected :
    ¬ ∀ (history : History) (plumber : Plumber) (quantum : Option (QuantumRouter Float))
        (circuit : CircuitBreaker) (readings : Readings Float) (msg : Message) (d : String),
        let s := history.routingState plumber quantum circuit
        history.EverEndpoint d →
          (route (defaultPipeline s) readings msg s).1.selected = some d →
            PicksGood s circuit readings msg d := by
  intro h
  obtain ⟨⟨status, hstatus, hoffline⟩, _⟩ :=
    h offlineToolHistory ⟨[]⟩ none (.new 3 30 1) noReadings searchCall "ep-a"
      (Or.inl List.mem_cons_self) rfl
  obtain rfl : HealthStatus.offline = status := Option.some.inj hstatus
  exact hoffline rfl

/-- `ep-a` is found offline and pruned. -/
def prunedHistory : History where
  startup := ["ep-a"]
  discoverTools _ := none
  changes := [.probe "ep-a" .offline, .pruneOffline "ep-a"]

/-- A rule that sends everything to `ep-a`. -/
def toEndpoint : PlumberRule where
  name := "all"
  pattern _ := true
  destination := "ep-a"
  priority := 1
  headerMatch := none

/-- A rule that names an endpoint outlives it: the health check of the circuit
stage lets a destination pass that is not in the map. -/
theorem pruned_endpoint_selected :
    let s : RoutingState Float := prunedHistory.routingState ⟨[toEndpoint]⟩ none (.new 3 30 1)
    let msg := Message.new "alice" "/ai" "llm_request" 1 2 0
    (route (defaultPipeline s) noReadings msg s).1.selected = some "ep-a" ∧
      s.endpoints "ep-a" = none :=
  ⟨rfl, rfl⟩

/-- With `ep-a` in the map, the same rule selects an endpoint that the breaker
admitted. -/
theorem selected_admitted_healthy :
    let s : RoutingState Float :=
      (⟨["ep-a"], fun _ => none, []⟩ : History).routingState ⟨[toEndpoint]⟩ none (.new 3 30 1)
    let msg := Message.new "alice" "/ai" "llm_request" 1 2 0
    McpResolves s.mcp msg "ep-a" ∨
      Admitted (.new 3 30 1) s.endpoints noReadings.clock (s.plumber.route msg) "ep-a" ∧
        s.endpoints "ep-a" ≠ some .offline := by
  intro s msg
  exact selected_admitted noReadings msg (s := s) rfl rfl

end Xfiles.Router
