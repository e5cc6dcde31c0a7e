import Xfiles.Router.Admission

/-!
# The pipeline with and without the quantum stage

Two runs of the default pipeline on one message, from one state: with its
quantum router, and without.

* `run_unresolved_frame` says what a message that the MCP stage does not resolve
  leaves the pipeline with.
* `selection_frame` says what the selection stages leave alone.
* `quantum_mode` compares the two runs.
-/

namespace Xfiles.Router

open Xfiles.Circuit Xfiles.Quantum RoutingPipeline

variable {F : Type*}

/-- The same objects without the quantum router. -/
def RoutingState.classical (s : RoutingState F) : RoutingState F :=
  { s with quantum := none }

theorem entered_classical (s : RoutingState F) (readings : Readings F) (msg : Message) :
    entered s.classical readings msg = entered s readings msg := rfl

variable [Arith F] (readings : Readings F) (msg : Message)

/-! ## What the selection stages leave alone -/

/-- The candidates, the rejected ones and the breaker are the same. -/
structure SameAdmission (ctx ctx' : RoutingContext) (s s' : RoutingState F) : Prop where
  candidates : ctx'.candidates = ctx.candidates
  rejected : ctx'.rejected = ctx.rejected
  circuit : s'.circuit = s.circuit

omit [Arith F] in
theorem SameAdmission.trans {ctx ctx' ctx'' : RoutingContext} {s s' s'' : RoutingState F}
    (h : SameAdmission ctx ctx' s s') (h' : SameAdmission ctx' ctx'' s' s'') :
    SameAdmission ctx ctx'' s s'' :=
  ⟨h'.candidates.trans h.candidates, h'.rejected.trans h.rejected, h'.circuit.trans h.circuit⟩

omit [Arith F] in
theorem SameAdmission.validCandidates {ctx ctx' : RoutingContext} {s s' : RoutingState F}
    (h : SameAdmission ctx ctx' s s') : ctx'.validCandidates = ctx.validCandidates := by
  rw [RoutingContext.validCandidates, RoutingContext.validCandidates, h.candidates, h.rejected]

/-- One selection stage. -/
theorem selection_stage {stage : RouterStage} (hstage : stage = .quantum ∨ stage = .fallback)
    (ctx : RoutingContext) (s : RoutingState F) :
    SameAdmission ctx (stage.apply readings msg ctx s).2.1 s
      (stage.apply readings msg ctx s).2.2 := by
  rcases hstage with rfl | rfl
  · cases hq : s.quantum with
    | none =>
      simp only [RouterStage.apply, hq]
      exact ⟨rfl, rfl, rfl⟩
    | some q =>
      simp only [RouterStage.apply, hq, QuantumRoutingStage.apply]
      refine ⟨?_, ?_, rfl⟩
      · split_ifs
        · rfl
        · rfl
        · split <;> rfl
      · split_ifs
        · rfl
        · rfl
        · split <;> rfl
  · simp only [RouterStage.apply, FallbackRoutingStage.apply]
    refine ⟨?_, ?_, rfl⟩
    · split <;> rfl
    · split <;> rfl

theorem selection_frame {stages : List RouterStage}
    (hstages : ∀ stage ∈ stages, stage = .quantum ∨ stage = .fallback) (ctx : RoutingContext)
    (s : RoutingState F) :
    SameAdmission ctx (run readings msg stages ctx s).1 s (run readings msg stages ctx s).2 := by
  induction stages generalizing ctx s with
  | nil => exact ⟨rfl, rfl, rfl⟩
  | cons stage rest ih =>
    have hfirst := selection_stage readings msg (hstages stage List.mem_cons_self) ctx s
    by_cases hfinal : (stage.apply readings msg ctx s).1 = true
    · rw [run_of_final readings msg hfinal]
      exact hfirst
    · rw [run_of_not_final readings msg (Bool.not_eq_true _ ▸ hfinal)]
      exact hfirst.trans (ih (fun later hmem => hstages later (List.mem_cons_of_mem _ hmem)) _ _)

omit [Arith F] in
theorem mem_selectionStages {s : RoutingState F} {stage : RouterStage}
    (h : stage ∈ selectionStages s) : stage = .quantum ∨ stage = .fallback := by
  rw [selectionStages, List.mem_append] at h
  rcases h with h | h
  · split at h
    · exact .inl (List.mem_singleton.mp h)
    · exact absurd h List.not_mem_nil
  · exact .inr (List.mem_singleton.mp h)

/-- An unresolved message leaves the pipeline with what it entered the
selection stages with, and one of the valid candidates picked. -/
theorem run_unresolved_frame {s : RoutingState F} (hmcp : ∀ d, ¬ McpResolves s.mcp msg d) :
    let final := run readings msg (defaultPipeline s) (.new []) s
    let start := entered s readings msg
    SameAdmission start.1 final.1 { s with circuit := start.2 } final.2 ∧
      final.1.selected = pick readings msg s.quantum start.1.validCandidates := by
  intro final start
  have hfinal : final = run readings msg (selectionStages s) start.1
      { s with circuit := start.2 } := run_unresolved readings msg hmcp
  rw [hfinal]
  exact ⟨selection_frame readings msg (fun _ => mem_selectionStages) _ _,
    selected_selection readings msg (selected_entered s readings msg) s _ rfl⟩

/-! ## The two runs -/

/-- The quantum stage changes which of the admitted candidates is picked, and
nothing else. -/
theorem quantum_mode (s : RoutingState F) :
    let quantum := route (defaultPipeline s) readings msg s
    let classical := route (defaultPipeline s.classical) readings msg s.classical
    let rejected := (run readings msg (defaultPipeline s) (.new []) s).1.rejected
    quantum.2.circuit = classical.2.circuit ∧
      quantum.1.candidates = classical.1.candidates ∧
      (run readings msg (defaultPipeline s.classical) (.new []) s.classical).1.rejected =
        rejected ∧
      (quantum.1.selected.isSome = true ↔ classical.1.selected.isSome = true) ∧
      ∀ d d', quantum.1.selected = some d → classical.1.selected = some d' →
        (∃ endpoint, McpResolves s.mcp msg endpoint ∧ d = endpoint ∧ d' = endpoint) ∨
          (∀ endpoint, ¬ McpResolves s.mcp msg endpoint) ∧
            (d ∈ quantum.1.candidates ∧ d ∉ rejected) ∧
            (d' ∈ quantum.1.candidates ∧ d' ∉ rejected) := by
  intro quantum classical rejected
  by_cases hmcp : ∃ endpoint, McpResolves s.mcp msg endpoint
  · obtain ⟨endpoint, hresolves⟩ := hmcp
    have hrun := run_resolved readings msg hresolves
    have hrun' := @run_resolved _ _ readings msg s.classical _ hresolves
    have hselected : quantum.1.selected = some endpoint := congrArg (·.1.selected) hrun
    have hselected' : classical.1.selected = some endpoint := congrArg (·.1.selected) hrun'
    refine ⟨?_, ?_, ?_, ?_, fun d d' hd hd' => .inl ⟨endpoint, hresolves, ?_, ?_⟩⟩
    · exact (congrArg (·.2.circuit) hrun).trans (congrArg (·.2.circuit) hrun').symm
    · exact (congrArg (·.1.candidates) hrun).trans (congrArg (·.1.candidates) hrun').symm
    · exact (congrArg (·.1.rejected) hrun').trans (congrArg (·.1.rejected) hrun).symm
    · rw [hselected, hselected']
    · exact Option.some.inj (hd.symm.trans hselected)
    · exact Option.some.inj (hd'.symm.trans hselected')
  · have hnone : ∀ endpoint, ¬ McpResolves s.mcp msg endpoint := fun e he => hmcp ⟨e, he⟩
    obtain ⟨hframe, hpick⟩ := run_unresolved_frame readings msg hnone
    obtain ⟨hframe', hpick'⟩ := @run_unresolved_frame _ _ readings msg s.classical hnone
    rw [entered_classical] at hframe' hpick'
    have hselected : quantum.1.selected =
        pick readings msg s.quantum (entered s readings msg).1.validCandidates := hpick
    have hselected' : classical.1.selected =
        pick readings msg none (entered s readings msg).1.validCandidates := hpick'
    refine ⟨hframe.circuit.trans hframe'.circuit.symm,
      hframe.candidates.trans hframe'.candidates.symm,
      hframe'.rejected.trans hframe.rejected.symm, ?_, fun d d' hd hd' => .inr ⟨hnone, ?_⟩⟩
    · rw [hselected, hselected']
      by_cases hempty : (entered s readings msg).1.validCandidates = []
      · rw [hempty, pick_nil, pick_nil]
      · simp only [pick_isSome readings msg _ hempty]
    · have hvalid : ∀ c, c ∈ quantum.1.candidates ∧ c ∉ rejected ↔
          c ∈ (entered s readings msg).1.validCandidates := fun c => by
        rw [← hframe.validCandidates, mem_validCandidates]
        rfl
      rw [hvalid, hvalid]
      exact ⟨pick_mem readings msg (hselected.symm.trans hd),
        pick_mem readings msg (hselected'.symm.trans hd')⟩

/-- With one rule that matches, both runs pick its destination. -/
theorem quantum_mode_one_rule :
    let s : RoutingState Float :=
      ⟨.new, ⟨[toEndpoint]⟩, some (.new ⟨0, 0⟩), none, fun _ => none⟩
    let msg := Message.new "alice" "/ai" "llm_request" 1 2 0
    ∃ d, (route (defaultPipeline s) noReadings msg s).1.selected = some d ∧
      d ∈ (route (defaultPipeline s) noReadings msg s).1.candidates := by
  intro s msg
  obtain ⟨-, -, -, hsome, hboth⟩ := quantum_mode noReadings msg s
  obtain ⟨d, hd⟩ := Option.isSome_iff_exists.mp (hsome.mpr rfl)
  rcases hboth d "ep-a" hd rfl with ⟨endpoint, hresolves, -⟩ | ⟨-, hmem, -⟩
  · exact absurd hresolves.1 (by simp [msg, Message.new])
  · exact ⟨d, hd, hmem.1⟩

end Xfiles.Router
