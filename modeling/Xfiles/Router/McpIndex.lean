import Xfiles.Lib.Transition
import Xfiles.Router.Stages

/-!
# Building the tool index

`discover_and_index` clears the index and builds it again over one await for
each endpoint.  It may be dropped at each of them, as the timeout in `run`
does.  This module proves what the index holds in every state.

* `Event` is a registration, or a part of a discovery, and `step` its effect.
  A registration needs the registry for itself, as a discovery does.
* `visits` records what the endpoints of the latest discovery answered, in the
  order in which they were visited.
* `Inv` is the invariant: the index sends a tool to the first visit that
  advertises it, and what was visited or is still to be visited are the clients.
* `run_discover` says that a discovery that nobody drops is
  `discoverAndIndex`.
* `index_exact` is the result for runs.
-/

namespace Xfiles.Router

open Transition

namespace McpRegistry

/-- `get`.  A client is kept as the id of its endpoint. -/
def get (r : McpRegistry) (endpointId : String) : Option String :=
  r.clients.find? (· = endpointId)

/-- Execute a tool call by looking up the right endpoint. -/
def callToolByName {A ε ρ : Type*} (r : McpRegistry)
    (callTool : String → String → A → Except ε ρ) (toolName : String) (arguments : A) :
    Except ε (Option ρ) :=
  match r.findEndpointForTool toolName with
  | none => .ok none
  | some endpointId =>
    match r.get endpointId with
    | none => .ok none
    | some client => (callTool client toolName arguments).map some

end McpRegistry

open McpRegistry

/-- What an endpoint answered when it was visited: its tools, or nothing. -/
structure Visit where
  endpointId : String
  tools : Option (List String)
  deriving DecidableEq

/-- The endpoint answered, and the tool is among its tools. -/
def Visit.Advertises (visit : Visit) (tool : String) : Prop :=
  ∃ tools, visit.tools = some tools ∧ tool ∈ tools

theorem Visit.advertises_iff (visit : Visit) (tool : String) :
    visit.Advertises tool ↔ tool ∈ visit.tools.getD [] := by
  unfold Visit.Advertises
  cases visit.tools with
  | none => simp
  | some tools => simp

instance (visit : Visit) (tool : String) : Decidable (visit.Advertises tool) :=
  decidable_of_iff _ (visit.advertises_iff tool).symm

/-- The registry, with the endpoints that a discovery still has to visit and
the visits of the latest one. -/
structure Indexing where
  registry : McpRegistry
  pending : Option (List String)
  visits : List Visit

namespace Indexing

inductive Event where
  | register (endpointId : String)
  /-- A discovery starts, with the order of the map's iterator. -/
  | discover (order : List String)
  /-- The endpoint that is waited for answers, or fails. -/
  | answer (tools : Option (List String))
  | finish
  /-- The discovery is dropped while it waits. -/
  | cancel

def step (s : Indexing) : Event → Option Indexing
  | .register endpointId =>
    match s.pending with
    | none => some { s with registry := s.registry.register endpointId }
    | some _ => none
  | .discover order =>
    match s.pending with
    | none =>
      if order.Perm s.registry.clients then
        some
          { registry := { s.registry with toolIndex := fun _ => none }
            pending := some order
            visits := [] }
      else none
    | some _ => none
  | .answer tools =>
    match s.pending with
    | some (id :: rest) =>
      some
        { registry :=
            { s.registry with
              toolIndex := (tools.getD []).foldl (indexTool id) s.registry.toolIndex }
          pending := some rest
          visits := s.visits ++ [⟨id, tools⟩] }
    | _ => none
  | .finish =>
    match s.pending with
    | some [] => some { s with pending := none }
    | _ => none
  | .cancel =>
    match s.pending with
    | some (_ :: _) => some { s with pending := none }
    | _ => none

/-- `McpRegistry::new`. -/
def empty : Indexing where
  registry := McpRegistry.new
  pending := none
  visits := []

end Indexing

/-! ## The index of a list of tools -/

theorem indexTool_apply (id : String) (index : String → Option String) (tool name : String) :
    indexTool id index tool name = (index name).or (if name = tool then some id else none) := by
  unfold indexTool
  split
  · rename_i hsome
    by_cases hname : name = tool
    · subst hname
      obtain ⟨other, hother⟩ := Option.isSome_iff_exists.mp hsome
      rw [hother]
      rfl
    · rw [if_neg hname, Option.or_none]
  · rename_i hnone
    by_cases hname : name = tool
    · subst hname
      rw [if_pos rfl, Option.not_isSome_iff_eq_none.mp hnone]
      exact if_pos rfl
    · rw [if_neg hname, Option.or_none]
      exact if_neg hname

/-- A name that is there keeps its endpoint. -/
theorem foldl_indexTool_apply (id : String) (index : String → Option String)
    (tools : List String) (name : String) :
    tools.foldl (indexTool id) index name =
      (index name).or (if name ∈ tools then some id else none) := by
  induction tools generalizing index with
  | nil => exact Option.or_none.symm
  | cons tool rest ih =>
    rw [List.foldl_cons, ih, indexTool_apply, Option.or_assoc]
    congr 1
    by_cases hname : name = tool
    · rw [if_pos hname, if_pos (List.mem_cons.mpr (Or.inl hname))]
      rfl
    · rw [if_neg hname, Option.none_or]
      simp only [List.mem_cons, hname, false_or]

/-- The endpoint of the first visit that advertises a tool. -/
def firstAdvertiser (visits : List Visit) (tool : String) : Option String :=
  (visits.find? fun visit => visit.Advertises tool).map Visit.endpointId

theorem firstAdvertiser_concat (visits : List Visit) (id : String)
    (tools : Option (List String)) (tool : String) :
    firstAdvertiser (visits ++ [⟨id, tools⟩]) tool =
      (firstAdvertiser visits tool).or (if tool ∈ tools.getD [] then some id else none) := by
  unfold firstAdvertiser
  rw [List.find?_append, Option.map_or]
  congr 1
  have hadvertises : Visit.Advertises ⟨id, tools⟩ tool ↔ tool ∈ tools.getD [] :=
    Visit.advertises_iff _ tool
  by_cases htool : tool ∈ tools.getD []
  · rw [if_pos htool, List.find?_cons_of_pos (by simpa using hadvertises.mpr htool)]
    rfl
  · rw [if_neg htool, List.find?_cons_of_neg (by simpa using fun h => htool (hadvertises.mp h))]
    rfl

/-- It is a visit, and no visit before it advertises the tool. -/
theorem firstAdvertiser_eq_some {visits : List Visit} {tool endpointId : String}
    (h : firstAdvertiser visits tool = some endpointId) :
    ∃ before visit after, visits = before ++ visit :: after ∧ visit.endpointId = endpointId ∧
      visit.Advertises tool ∧ ∀ earlier ∈ before, ¬ earlier.Advertises tool := by
  obtain ⟨visit, hfind, hid⟩ := Option.map_eq_some_iff.mp h
  obtain ⟨hadvertises, before, after, hsplit, hbefore⟩ := List.find?_eq_some_iff_append.mp hfind
  refine ⟨before, visit, after, hsplit, hid, by simpa using hadvertises, ?_⟩
  intro earlier hmem
  simpa using hbefore earlier hmem

namespace Indexing

/-! ## The invariant -/

structure Inv (s : Indexing) : Prop where
  index_eq : ∀ tool, s.registry.toolIndex tool = firstAdvertiser s.visits tool
  visited : ∀ visit ∈ s.visits, visit.endpointId ∈ s.registry.clients
  /-- Each client is visited once, or still to be visited. -/
  pending : ∀ rest, s.pending = some rest →
    (s.visits.map Visit.endpointId ++ rest).Perm s.registry.clients

theorem inv_empty : Inv empty where
  index_eq _ := rfl
  visited _ h := nomatch h
  pending _ h := nomatch h

theorem inv_answer {s : Indexing} {id : String} {rest : List String} (h : Inv s)
    (hpending : s.pending = some (id :: rest)) (tools : Option (List String)) :
    Inv { registry :=
            { s.registry with
              toolIndex := (tools.getD []).foldl (indexTool id) s.registry.toolIndex }
          pending := some rest
          visits := s.visits ++ [⟨id, tools⟩] } where
  index_eq tool := by
    show (tools.getD []).foldl (indexTool id) s.registry.toolIndex tool = _
    rw [foldl_indexTool_apply, firstAdvertiser_concat, h.index_eq]
  visited visit hvisit := by
    show visit.endpointId ∈ s.registry.clients
    rcases List.mem_append.mp hvisit with hold | hnew
    · exact h.visited visit hold
    · rw [List.mem_singleton.mp hnew]
      exact (h.pending _ hpending).subset (List.mem_append_right _ List.mem_cons_self)
  pending rest' hrest := by
    obtain rfl := Option.some.inj hrest
    show ((s.visits ++ [Visit.mk id tools]).map Visit.endpointId ++ rest).Perm _
    rw [List.map_append, List.append_assoc]
    exact h.pending _ hpending

theorem inv_step (s : Indexing) (event : Event) (t : Indexing) (h : Inv s)
    (hstep : step s event = some t) : Inv t := by
  cases event with
  | register endpointId =>
    simp only [step] at hstep
    split at hstep
    · rename_i hidle
      obtain rfl := Option.some.inj hstep
      refine { index_eq := h.index_eq, visited := ?_, pending := ?_ }
      · intro visit hvisit
        exact List.mem_insert_of_mem (h.visited visit hvisit)
      · intro rest hrest
        exact absurd (hidle.symm.trans hrest) (Option.some_ne_none rest).symm
    · exact nomatch hstep
  | discover order =>
    simp only [step] at hstep
    split at hstep
    · obtain ⟨hperm, hsome⟩ := Option.ite_none_right_eq_some.mp hstep
      obtain rfl := Option.some.inj hsome
      refine { index_eq := fun _ => rfl, visited := fun _ hvisit => (nomatch hvisit),
               pending := ?_ }
      intro rest hrest
      obtain rfl := Option.some.inj hrest
      exact hperm
    · exact nomatch hstep
  | answer tools =>
    simp only [step] at hstep
    split at hstep
    · rename_i id rest hpending
      obtain rfl := Option.some.inj hstep
      exact inv_answer h hpending tools
    · exact nomatch hstep
  | finish | cancel =>
    simp only [step] at hstep
    split at hstep
    · obtain rfl := Option.some.inj hstep
      exact { index_eq := h.index_eq, visited := h.visited,
              pending := fun _ hrest => nomatch hrest }
    · exact nomatch hstep

/-! ## Runs -/

/-- The answers to a discovery, up to its end. -/
theorem run_answers (s : Indexing) (order : List String) (hpending : s.pending = some order)
    (discoverTools : String → Option (List String)) :
    ∃ t, run step s (order.map (fun id => .answer (discoverTools id)) ++ [.finish]) = some t ∧
      t.registry = { s.registry with
        toolIndex := order.foldl
          (fun index id => ((discoverTools id).getD []).foldl (indexTool id) index)
          s.registry.toolIndex } := by
  induction order generalizing s with
  | nil =>
    refine ⟨{ s with pending := none }, ?_, rfl⟩
    rw [List.map_nil, List.nil_append, run_cons, step, hpending]
    rfl
  | cons id rest ih =>
    obtain ⟨t, hrun, hregistry⟩ := ih
      { registry :=
          { s.registry with
            toolIndex := ((discoverTools id).getD []).foldl (indexTool id) s.registry.toolIndex }
        pending := some rest
        visits := s.visits ++ [⟨id, discoverTools id⟩] } rfl
    refine ⟨t, ?_, hregistry⟩
    rw [List.map_cons, List.cons_append, run_cons, step, hpending]
    exact hrun

/-- A discovery that nobody drops. -/
theorem run_discover (s : Indexing) (hidle : s.pending = none)
    (discoverTools : String → Option (List String)) :
    ∃ t, run step s (.discover s.registry.clients ::
        (s.registry.clients.map (fun id => .answer (discoverTools id)) ++ [.finish])) = some t ∧
      t.registry = s.registry.discoverAndIndex discoverTools := by
  have hstart : step s (.discover s.registry.clients) = some
      { registry := { s.registry with toolIndex := fun _ => none }
        pending := some s.registry.clients
        visits := [] } := by
    rw [step, hidle]
    exact if_pos (List.Perm.refl _)
  rw [run_cons, hstart]
  exact run_answers _ s.registry.clients rfl discoverTools

/-- A registered client is there. -/
theorem get_of_mem {r : McpRegistry} {endpointId : String} (h : endpointId ∈ r.clients) :
    r.get endpointId = some endpointId := by
  rw [McpRegistry.get, List.find?_eq_some_iff_append]
  obtain ⟨before, after, hsplit, hbefore⟩ := List.eq_append_cons_of_mem h
  refine ⟨by simp, before, after, hsplit, ?_⟩
  intro other hother
  have hne : other ≠ endpointId := fun heq => hbefore (heq ▸ hother)
  simpa using hne

/-- In every state the index names only registered clients that advertised the
tool in the latest discovery, and a call of a tool reaches the client.  Each tool
that was advertised goes to the first endpoint that did, and when a discovery has
finished all clients were visited. -/
theorem index_exact {events : List Event} {s : Indexing} (hrun : run step empty events = some s) :
    (∀ tool endpointId, s.registry.findEndpointForTool tool = some endpointId →
      endpointId ∈ s.registry.clients ∧
        ∃ visit ∈ s.visits, visit.endpointId = endpointId ∧ visit.Advertises tool) ∧
    (∀ (A ε ρ : Type) (callTool : String → String → A → Except ε ρ) tool arguments endpointId,
      s.registry.findEndpointForTool tool = some endpointId →
        s.registry.callToolByName callTool tool arguments =
          (callTool endpointId tool arguments).map some) ∧
    (∀ tool, (∃ visit ∈ s.visits, visit.Advertises tool) →
      ∃ before visit after, s.visits = before ++ visit :: after ∧ visit.Advertises tool ∧
        (∀ earlier ∈ before, ¬ earlier.Advertises tool) ∧
        s.registry.findEndpointForTool tool = some visit.endpointId) ∧
    ∀ earlier, events = earlier ++ [.finish] →
      (s.visits.map Visit.endpointId).Perm s.registry.clients := by
  have hinv : Inv s := invariant_of_run inv_step inv_empty hrun
  have hsound : ∀ tool endpointId, s.registry.findEndpointForTool tool = some endpointId →
      endpointId ∈ s.registry.clients ∧
        ∃ visit ∈ s.visits, visit.endpointId = endpointId ∧ visit.Advertises tool := by
    intro tool endpointId hfind
    have hfirst := (hinv.index_eq tool).symm.trans hfind
    obtain ⟨before, visit, after, hsplit, hid, hadvertises, _⟩ := firstAdvertiser_eq_some hfirst
    have hvisit : visit ∈ s.visits := by
      rw [hsplit]
      exact List.mem_append_right _ List.mem_cons_self
    refine ⟨?_, visit, hvisit, hid, hadvertises⟩
    rw [← hid]
    exact hinv.visited visit hvisit
  refine ⟨hsound, ?_, ?_, ?_⟩
  · intro A ε ρ callTool tool arguments endpointId hfind
    rw [callToolByName, hfind]
    show (match s.registry.get endpointId with
      | none => _
      | some client => _) = _
    rw [get_of_mem (hsound tool endpointId hfind).1]
  · intro tool hadvertised
    rcases hadvertised with ⟨visit, hvisit, hadvertises⟩
    have hsome : (firstAdvertiser s.visits tool).isSome := by
      rw [firstAdvertiser, Option.isSome_map, List.find?_isSome]
      exact ⟨visit, hvisit, by simpa using hadvertises⟩
    obtain ⟨endpointId, hfirst⟩ := Option.isSome_iff_exists.mp hsome
    obtain ⟨before, first, after, hsplit, hid, hfirstly, hbefore⟩ :=
      firstAdvertiser_eq_some hfirst
    refine ⟨before, first, after, hsplit, hfirstly, hbefore, ?_⟩
    rw [hid, ← hfirst]
    exact hinv.index_eq tool
  · intro earlier hevents
    rw [hevents] at hrun
    obtain ⟨t, hbefore, hfinish⟩ := run_concat_eq_some.mp hrun
    have hpending := (invariant_of_run inv_step inv_empty hbefore).pending
    simp only [step] at hfinish
    split at hfinish
    · rename_i hdone
      obtain rfl := Option.some.inj hfinish
      have hperm := hpending [] hdone
      rw [List.append_nil] at hperm
      exact hperm
    · exact nomatch hfinish

/-- Two endpoints, one of which fails, and a second discovery that is dropped
after the first answer. -/
def twoDiscoveries : List Event :=
  [.register "a", .register "b", .discover ["a", "b"], .answer none, .answer (some ["t", "t"]),
    .finish, .discover ["b", "a"], .answer (some ["u"]), .cancel]

theorem index_exact_two : ∃ s, run step empty twoDiscoveries = some s ∧
    ∀ tool, (∃ visit ∈ s.visits, visit.Advertises tool) →
      ∃ before visit after, s.visits = before ++ visit :: after ∧ visit.Advertises tool ∧
        (∀ earlier ∈ before, ¬ earlier.Advertises tool) ∧
        s.registry.findEndpointForTool tool = some visit.endpointId := by
  have hsome : (run step empty twoDiscoveries).isSome := by decide
  obtain ⟨s, hs⟩ := Option.isSome_iff_exists.mp hsome
  exact ⟨s, hs, (index_exact hs).2.2.1⟩

end Indexing

end Xfiles.Router
