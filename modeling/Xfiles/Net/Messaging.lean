import Xfiles.Net.Integrity
import Xfiles.Router.EntryPoints

/-!
# From a frame to a socket

The way of a message through the hub: `handle_op`, `send_message`, `msg_handler` and
`grpc_handler` with the destination that each of them chooses, on top of the transport.

* `Messaging` is the state that routing reads beside the transport.  A message that is
  routed to the inbox of an agent becomes a dispatch.  No other destination reaches the
  transport.
* `Move` says what a step does to the transport.
* `Licensed` are the dispatches that a run may have: a message of a connection carries
  the name of its agent, and a rule or the tool of an endpoint led to the inbox.
* `traced_of_run` finds the run of the transport in a run of the hub, and
  `received_as_ruled` reads off what the sockets are sent.
-/

namespace Xfiles.Net

open Circuit Quantum Router Transition
open RoutingPipeline (route defaultPipeline)

variable {F : Type*}

/-- What messages meet on their way. -/
structure Messaging (F : Type*) where
  routing : RoutingState F
  transport : Transport Message

inductive MessagingEvent (F : Type*) where
  /-- A Message frame of a connection. -/
  | frame (c : ChannelId) (d : Nat) (readings : Readings F) (msg : Message)
  /-- A message in the body of a request. -/
  | post (site : Site) (d : Nat) (readings : Readings F) (msg : Message)
  /-- What else happens to the transport. -/
  | transport (event : Transport.Happening Message)
  /-- Other requests and tasks change what routing reads. -/
  | elsewhere (quantum : Option (QuantumRouter F)) (circuit : Option CircuitBreaker)
      (endpoints : EndpointMap)

namespace Messaging

def start (routing : RoutingState F) (now : Int) : Messaging F where
  routing := routing
  transport := .start now

/-- A destination is delivered to when it is the inbox of an agent. -/
def dispatch (s : Messaging F) (site : Site) (d : Nat) (dest : Option String) (msg : Message) :
    Option (Messaging F) :=
  match dest.bind targetAgent with
  | some agentId =>
    (s.transport.step (.lookup d site agentId msg)).map fun transport => { s with transport }
  | none => some s

def step [Arith F] (s : Messaging F) : MessagingEvent F → Option (Messaging F)
  | .frame c d readings msg =>
    match s.transport.connections c with
    | some ⟨agentId, .serving⟩ =>
      let chosen := handleOpDestination agentId readings msg s.routing
      { s with routing := chosen.2 }.dispatch .handleOp d chosen.1 (stamp agentId msg)
    | _ => none
  | .post site d readings msg =>
    match site with
    | .handleOp => none
    | .sendMessage | .msgHandler =>
      let routed := route (defaultPipeline s.routing) readings msg s.routing
      { s with routing := routed.2 }.dispatch site d routed.1.selected msg
    | .grpcHandler =>
      let chosen := grpcDestination readings msg s.routing
      { s with routing := chosen.2 }.dispatch site d chosen.1 msg
  | .transport event =>
    match event with
    | .own (.lookup ..) => none
    | _ => (s.transport.happen event).map fun transport => { s with transport }
  | .elsewhere quantum circuit endpoints =>
    if quantum.isSome = s.routing.quantum.isSome ∧ circuit.isSome = s.routing.circuit.isSome then
      some { s with routing := { s.routing with quantum, circuit, endpoints } }
    else none

end Messaging

/-! ## Where routing leads -/

/-- A rule of the plumber sends the message to the agent. -/
def Ruled (plumber : Plumber) (msg : Message) (agentId : String) : Prop :=
  ∃ rule ∈ plumber.rules, Plumber.ruleMatches rule msg = true ∧
    targetAgent rule.destination = some agentId

/-- The message calls a tool of an endpoint whose id is the inbox of the agent. -/
def ToolOf (mcp : McpRegistry) (msg : Message) (agentId : String) : Prop :=
  ∃ endpoint, McpResolves mcp msg endpoint ∧ targetAgent endpoint = some agentId

/-- The default destination is no inbox. -/
theorem ruled_of_route {plumber : Plumber} {msg : Message} {dest agentId : String}
    (hroute : dest ∈ plumber.route msg) (htarget : targetAgent dest = some agentId) :
    Ruled plumber msg agentId := by
  unfold Plumber.route at hroute
  dsimp only at hroute
  split at hroute
  · obtain rfl := List.mem_singleton.mp hroute
    have hlog : targetAgent "/proc/log" = none := by decide +kernel
    rw [hlog] at htarget
    exact absurd htarget (by simp)
  · obtain ⟨rule, hrule, rfl⟩ := List.mem_map.mp hroute
    obtain ⟨hmem, hmatches⟩ := List.mem_filter.mp hrule
    exact ⟨rule, hmem, hmatches, htarget⟩

section Routing

variable [Arith F] {readings : Readings F} {msg : Message} {s : RoutingState F}

/-- The rules and the tools stay as they are. -/
def SameRules (s t : RoutingState F) : Prop := t.plumber = s.plumber ∧ t.mcp = s.mcp

omit [Arith F] in
theorem SameRules.trans {s t u : RoutingState F} (hst : SameRules s t) (htu : SameRules t u) :
    SameRules s u := ⟨htu.1.trans hst.1, htu.2.trans hst.2⟩

theorem sameRules_chooseDestination : SameRules s (chooseDestination readings msg s).2 := by
  unfold chooseDestination
  cases s.quantum with
  | none => exact ⟨rfl, rfl⟩
  | some q => exact ⟨rfl, rfl⟩

theorem sameRules_stage (stage : RouterStage) (ctx : RoutingContext) :
    SameRules s (stage.apply readings msg ctx s).2.2 := by
  cases stage with
  | mcp | plumber | fallback => exact ⟨rfl, rfl⟩
  | circuitAware =>
    unfold RouterStage.apply
    cases s.circuit with
    | none => exact ⟨rfl, rfl⟩
    | some circuit => exact ⟨rfl, rfl⟩
  | quantum =>
    unfold RouterStage.apply
    cases s.quantum with
    | none => exact ⟨rfl, rfl⟩
    | some q => exact ⟨rfl, rfl⟩

theorem sameRules_run (stages : List RouterStage) (ctx : RoutingContext) (s : RoutingState F) :
    SameRules s (RoutingPipeline.run readings msg stages ctx s).2 := by
  induction stages generalizing ctx s with
  | nil => exact ⟨rfl, rfl⟩
  | cons stage rest ih =>
    have hstage : SameRules s (stage.apply readings msg ctx s).2.2 := sameRules_stage stage ctx
    rw [RoutingPipeline.run]
    split
    · exact hstage
    · exact hstage.trans (ih _ _)

theorem ruled_of_chooseDestination {dest agentId : String}
    (h : (chooseDestination readings msg s).1 = some dest)
    (htarget : targetAgent dest = some agentId) : Ruled s.plumber msg agentId := by
  rw [chooseDestination_fst] at h
  exact ruled_of_route (pick_mem readings msg h) htarget

theorem ruled_of_pipeline {dest agentId : String}
    (h : (route (defaultPipeline s) readings msg s).1.selected = some dest)
    (htarget : targetAgent dest = some agentId) :
    Ruled s.plumber msg agentId ∨ ToolOf s.mcp msg agentId := by
  by_cases hmcp : ∃ endpoint, McpResolves s.mcp msg endpoint
  · obtain ⟨endpoint, hendpoint⟩ := hmcp
    right
    have hsame : endpoint = dest :=
      Option.some.inj ((run_mcp readings msg hendpoint).symm.trans h)
    exact ⟨dest, hsame ▸ hendpoint, htarget⟩
  · left
    rw [selected_pipeline (not_exists.mp hmcp)] at h
    have hpassed := pick_mem readings msg h
    exact ruled_of_route (List.mem_filter.mp hpassed).1 htarget

end Routing

namespace Transport

variable {M : Type*}

theorem submitted_of_concat {events : List (Happening M)} {event : Happening M} {d : Nat}
    {a : String} {msg : M} (h : Submitted (events ++ [event]) d a msg)
    (hlookup : ∀ d site agentId msg, event ≠ .own (.lookup d site agentId msg)) :
    Submitted events d a msg := by
  obtain ⟨site, hmem⟩ := h
  rcases List.mem_append.mp hmem with hold | hnew
  · exact ⟨site, hold⟩
  · exact absurd (List.mem_singleton.mp hnew).symm (hlookup d site a msg)

/-- A connection keeps its agent. -/
theorem Owns.step {s t : Transport M} {event : Event M} {a : String} {c : ChannelId}
    (h : s.Owns a c) (hstep : s.step event = some t) : t.Owns a c := by
  have hset : ∀ {u : Transport M} {c' agentId phase'}, u.connections = s.connections →
      (∀ phase, s.connections c' = some ⟨a, phase⟩ → agentId = a) →
      (u.setPhase c' agentId phase').Owns a c := by
    intro u c' agentId phase' hsame hagent
    obtain ⟨phase, hphase⟩ := h
    rw [Owns, setPhase_connections, hsame]
    by_cases hc : c = c'
    · subst hc
      rw [hagent phase hphase, Function.update_self]
      exact ⟨phase', rfl⟩
    · rw [Function.update_of_ne hc]
      exact ⟨phase, hphase⟩
  have hagent : ∀ {c' : ChannelId} {agentId : String} {phase' : Phase},
      s.connections c' = some ⟨agentId, phase'⟩ →
      ∀ phase, s.connections c' = some ⟨a, phase⟩ → agentId = a := by
    intro c' agentId phase' hconn phase hphase
    rw [hconn] at hphase
    exact congrArg Connection.agentId (Option.some.inj hphase)
  cases event with
  | connect c' agentId =>
    obtain ⟨hnone, rfl⟩ := step_connect hstep
    refine hset rfl fun phase hphase => ?_
    rw [hnone] at hphase
    exact absurd hphase (by simp)
  | hello c' =>
    obtain ⟨agentId, hconn, rfl⟩ := step_hello hstep
    exact hset rfl (hagent hconn)
  | drain c' call =>
    obtain ⟨agentId, hconn, -, rfl⟩ := step_drain hstep
    exact hset rfl (hagent hconn)
  | leave c' =>
    obtain ⟨agentId, hconn, rfl⟩ := step_leave hstep
    exact hset rfl (hagent hconn)
  | teardown c' =>
    obtain ⟨agentId, phase, hconn, -, rfl⟩ := step_teardown hstep
    exact hset rfl (hagent hconn)
  | unregister c' =>
    obtain ⟨agentId, hconn, rfl⟩ := step_unregister hstep
    exact hset rfl (hagent hconn)
  | upkeep | heartbeat | write | close | lookup | send | enqueue =>
    have hsame : t.connections = s.connections := step_frame .connections rfl hstep
    obtain ⟨phase, hphase⟩ := h
    exact ⟨phase, hsame ▸ hphase⟩

theorem Owns.happen {s t : Transport M} {event : Happening M} {a : String} {c : ChannelId}
    (h : s.Owns a c) (hstep : s.happen event = some t) : t.Owns a c := by
  cases event with
  | own event => exact h.step hstep
  | forget agentId =>
    obtain rfl := Option.some.inj hstep
    exact h

end Transport

namespace Messaging

/-! ## What a step does to the transport -/

section Steps

variable [Arith F]

/-- How the transport can move. -/
inductive Move (s t : Messaging F) : MessagingEvent F → Prop
  | still {event} (h : t.transport = s.transport) : Move s t event
  | framed {c d readings frame} (sender agentId : String) (howns : s.transport.Owns sender c)
    (hruled : Ruled s.routing.plumber (stamp sender frame) agentId)
    (hstep : s.transport.happen (.own (.lookup d .handleOp agentId (stamp sender frame))) =
      some t.transport) : Move s t (.frame c d readings frame)
  | posted {site d readings msg} (agentId : String)
    (hled : Ruled s.routing.plumber msg agentId ∨ ToolOf s.routing.mcp msg agentId)
    (hstep : s.transport.happen (.own (.lookup d site agentId msg)) = some t.transport) :
    Move s t (.post site d readings msg)
  | moved {event} (hlookup : ∀ d site agentId msg, event ≠ .own (.lookup d site agentId msg))
    (hstep : s.transport.happen event = some t.transport) : Move s t (.transport event)

omit [Arith F] in
theorem dispatch_cases {s t : Messaging F} {site : Site} {d : Nat} {dest : Option String}
    {msg : Message} (h : s.dispatch site d dest msg = some t) :
    t.routing = s.routing ∧ (t.transport = s.transport ∨ ∃ inbox agentId, dest = some inbox ∧
      targetAgent inbox = some agentId ∧
      s.transport.happen (.own (.lookup d site agentId msg)) = some t.transport) := by
  unfold dispatch at h
  split at h
  · rename_i agentId hagent
    obtain ⟨inbox, hinbox, htarget⟩ := Option.bind_eq_some_iff.mp hagent
    obtain ⟨transport, hstep, rfl⟩ := Option.map_eq_some_iff.mp h
    exact ⟨rfl, .inr ⟨inbox, agentId, hinbox, htarget, hstep⟩⟩
  · obtain rfl := Option.some.inj h
    exact ⟨rfl, .inl rfl⟩

omit [Arith F] in
/-- A message of a request, with where its destination comes from. -/
theorem posted_of_dispatch {s t : Messaging F} {site : Site} {d : Nat} {readings : Readings F}
    {msg : Message} {routing : RoutingState F} {dest : Option String}
    (hrules : SameRules s.routing routing)
    (hled : ∀ inbox agentId, dest = some inbox → targetAgent inbox = some agentId →
      Ruled s.routing.plumber msg agentId ∨ ToolOf s.routing.mcp msg agentId)
    (h : { s with routing }.dispatch site d dest msg = some t) :
    Move s t (.post site d readings msg) ∧ SameRules s.routing t.routing := by
  obtain ⟨hrouting, hmove⟩ := dispatch_cases h
  refine ⟨?_, hrouting ▸ hrules⟩
  rcases hmove with hsame | ⟨inbox, agentId, hinbox, htarget, hlookup⟩
  · exact .still hsame
  · exact .posted agentId (hled inbox agentId hinbox htarget) hlookup

theorem move_step {s t : Messaging F} {event : MessagingEvent F} (hstep : s.step event = some t) :
    Move s t event ∧ SameRules s.routing t.routing := by
  cases event with
  | frame c d readings frame =>
    simp only [step] at hstep
    split at hstep
    · rename_i agentId hconn
      obtain ⟨hrouting, hmove⟩ := dispatch_cases hstep
      rw [handleOpDestination_eq] at hrouting hmove
      refine ⟨?_, hrouting ▸ sameRules_chooseDestination⟩
      rcases hmove with hsame | ⟨inbox, target, hinbox, htarget, hlookup⟩
      · exact .still hsame
      · exact .framed agentId target ⟨_, hconn⟩ (ruled_of_chooseDestination hinbox htarget) hlookup
    · exact absurd hstep (by simp)
  | post site d readings msg =>
    cases site with
    | handleOp => exact absurd hstep (by simp [step])
    | sendMessage | msgHandler =>
      exact posted_of_dispatch (sameRules_run _ _ _)
        (fun _ _ hinbox htarget => ruled_of_pipeline hinbox htarget) hstep
    | grpcHandler =>
      exact posted_of_dispatch sameRules_chooseDestination
        (fun _ _ hinbox htarget => .inl (ruled_of_chooseDestination hinbox htarget)) hstep
  | transport event =>
    have hother : (∀ d site agentId msg, event ≠ .own (.lookup d site agentId msg)) ∧
        (s.transport.happen event).map (fun transport => { s with transport }) = some t := by
      cases event with
      | forget agentId => exact ⟨by simp, hstep⟩
      | own event =>
        cases event with
        | lookup => exact absurd hstep (by simp [step])
        | _ => exact ⟨by simp, hstep⟩
    obtain ⟨transport, hmoved, rfl⟩ := Option.map_eq_some_iff.mp hother.2
    exact ⟨.moved hother.1 hmoved, rfl, rfl⟩
  | elsewhere quantum circuit endpoints =>
    simp only [step] at hstep
    split at hstep
    · obtain rfl := Option.some.inj hstep
      exact ⟨.still rfl, rfl, rfl⟩
    · exact absurd hstep (by simp)

end Steps

/-! ## The dispatches of a run -/

/-- A dispatch that a run may have.  The message comes from a frame on a connection of the
agent it names, or from the body of a request. -/
inductive Licensed (routing : RoutingState F) (events : List (MessagingEvent F))
    (s : Messaging F) (d : Nat) (agentId : String) : Message → Prop
  | framed {c readings frame} (sender : String) (hframe : .frame c d readings frame ∈ events)
    (howns : s.transport.Owns sender c)
    (hruled : Ruled routing.plumber (stamp sender frame) agentId) :
    Licensed routing events s d agentId (stamp sender frame)
  | posted {site readings msg} (hpost : .post site d readings msg ∈ events)
    (hled : Ruled routing.plumber msg agentId ∨ ToolOf routing.mcp msg agentId) :
    Licensed routing events s d agentId msg

/-- The transport has a run of its own, in which every dispatch is licensed. -/
structure Traced (routing : RoutingState F) (now : Int) (events : List (MessagingEvent F))
    (s : Messaging F) : Prop where
  rules : SameRules routing s.routing
  inner : ∃ inner, run Transport.happen (.start now) inner = some s.transport ∧
    ∀ d agentId msg, Transport.Submitted inner d agentId msg →
      Licensed routing events s d agentId msg

section Runs

variable [Arith F] {routing : RoutingState F} {now : Int} {events : List (MessagingEvent F)}

omit [Arith F] in
/-- A longer run has the dispatches of the shorter one. -/
theorem Licensed.concat {s t : Messaging F} {d : Nat} {agentId : String} {msg : Message}
    (h : Licensed routing events s d agentId msg) (event : MessagingEvent F)
    (howns : ∀ a c, s.transport.Owns a c → t.transport.Owns a c) :
    Licensed routing (events ++ [event]) t d agentId msg := by
  cases h with
  | framed sender hframe hsender hruled =>
    exact .framed sender (List.mem_append_left _ hframe) (howns _ _ hsender) hruled
  | posted hpost hled => exact .posted (List.mem_append_left _ hpost) hled

theorem Traced.step {s t : Messaging F} {event : MessagingEvent F}
    (h : Traced routing now events s) (hstep : s.step event = some t) :
    Traced routing now (events ++ [event]) t := by
  obtain ⟨hmove, hrules⟩ := move_step hstep
  obtain ⟨inner, hrun, hlicensed⟩ := h.inner
  refine ⟨h.rules.trans hrules, ?_⟩
  have hplumber := h.rules.1
  have hmcp := h.rules.2
  cases hmove with
  | still hsame =>
    refine ⟨inner, hsame ▸ hrun, fun d agentId msg hsubmitted => ?_⟩
    exact (hlicensed d agentId msg hsubmitted).concat event fun a c howns => hsame ▸ howns
  | framed sender target howns hruled hlookup =>
    refine ⟨_, run_concat_eq_some.mpr ⟨_, hrun, hlookup⟩, fun d agentId msg hsubmitted => ?_⟩
    rcases Transport.submitted_concat.mp hsubmitted with hold | ⟨site, hnew⟩
    · exact (hlicensed d agentId msg hold).concat _ fun a c h => h.happen hlookup
    · obtain ⟨rfl, -, rfl, rfl⟩ := Event.lookup.inj hnew
      exact .framed sender (List.mem_append_right _ List.mem_cons_self) (howns.happen hlookup)
        (hplumber ▸ hruled)
  | posted target hled hlookup =>
    refine ⟨_, run_concat_eq_some.mpr ⟨_, hrun, hlookup⟩, fun d agentId msg hsubmitted => ?_⟩
    rcases Transport.submitted_concat.mp hsubmitted with hold | ⟨site, hnew⟩
    · exact (hlicensed d agentId msg hold).concat _ fun a c h => h.happen hlookup
    · obtain ⟨rfl, -, rfl, rfl⟩ := Event.lookup.inj hnew
      exact .posted (List.mem_append_right _ List.mem_cons_self) (hplumber ▸ hmcp ▸ hled)
  | moved hlookup hmoved =>
    refine ⟨_, run_concat_eq_some.mpr ⟨_, hrun, hmoved⟩, fun d agentId msg hsubmitted => ?_⟩
    have hold := Transport.submitted_of_concat hsubmitted hlookup
    exact (hlicensed d agentId msg hold).concat _ fun a c h => h.happen hmoved

theorem traced_of_run {s : Messaging F} (hrun : run step (start routing now) events = some s) :
    Traced routing now events s := by
  induction events using List.reverseRecOn generalizing s with
  | nil =>
    obtain rfl := Option.some.inj hrun
    exact ⟨⟨rfl, rfl⟩, [], rfl, fun d agentId msg hsubmitted =>
      absurd hsubmitted (by simp [Transport.Submitted])⟩
  | append_singleton events event ih =>
    obtain ⟨t, hbefore, hstep⟩ := run_concat_eq_some.mp hrun
    exact (ih hbefore).step hstep

/-- In every run, whatever a socket of an agent is sent was led to the inbox of this agent:
by a rule that matches the message, or, for the body of a request, by the tool that the
message calls.  A message that no request brought came over a connection of the agent that
it names as its sender. -/
theorem received_as_ruled {s : Messaging F}
    (hrun : run step (start routing now) events = some s) {c : ChannelId} {parcel : Parcel Message}
    (hwritten : parcel ∈ s.transport.journal.written c) :
    ∃ agentId, s.transport.Owns agentId c ∧
      ((∃ sender c' readings frame, .frame c' parcel.dispatch readings frame ∈ events ∧
          s.transport.Owns sender c' ∧ parcel.msg = stamp sender frame ∧
          Ruled routing.plumber parcel.msg agentId) ∨
        ∃ site readings, .post site parcel.dispatch readings parcel.msg ∈ events ∧
          (Ruled routing.plumber parcel.msg agentId ∨ ToolOf routing.mcp parcel.msg agentId)) := by
  obtain ⟨-, inner, hinner, hlicensed⟩ := traced_of_run hrun
  obtain ⟨agentId, howns, hplaced⟩ :=
    (Transport.consistent_of_run hinner).placed_of_written hwritten
  have hsubmitted := (Transport.origin_of_run hinner).placed agentId c parcel hplaced
  refine ⟨agentId, howns, ?_⟩
  generalize parcel.msg = msg at hsubmitted ⊢
  cases hlicensed _ _ _ hsubmitted with
  | framed sender hframe hsender hruled =>
    exact .inl ⟨sender, _, _, _, hframe, hsender, rfl, hruled⟩
  | posted hpost hled => exact .inr ⟨_, _, hpost, hled⟩

end Runs

/-- One rule, which sends everything to the inbox of `bob`. -/
def allToBob : RoutingState Float where
  mcp := .new
  plumber := ⟨[toBob]⟩
  quantum := none
  circuit := none
  endpoints _ := none

/-- A frame of `alice` under the name of `admin`. -/
def forgedRun : List (MessagingEvent Float) :=
  [.transport (.own (.connect 1 "alice")), .transport (.own (.connect 2 "bob")),
    .transport (.own (.hello 2)), .transport (.own (.drain 2 0)),
    .frame 1 0 noReadings (.new "admin" "/x" "chat" 1 2 0), .transport (.own (.send 0)),
    .transport (.forget "bob"), .transport (.own (.write 2))]

theorem received_as_ruled_forged :
    ∃ s parcel agentId, run step (start allToBob 0) forgedRun = some s ∧
      s.transport.journal.written 2 = [parcel] ∧ parcel.msg.sender = "alice" ∧
      s.transport.Owns agentId 2 ∧ Ruled allToBob.plumber parcel.msg agentId := by
  obtain ⟨s, hrun, hwritten⟩ : ∃ s, run step (start allToBob 0) forgedRun = some s ∧
      s.transport.journal.written 2 =
        [⟨0, stamp "alice" (.new "admin" "/x" "chat" 1 2 0)⟩] := ⟨_, rfl, rfl⟩
  obtain ⟨agentId, howns, hled⟩ :=
    received_as_ruled hrun (by rw [hwritten]; exact List.mem_cons_self)
  refine ⟨s, _, agentId, hrun, hwritten, rfl, howns, ?_⟩
  rcases hled with ⟨-, -, -, -, -, -, -, hruled⟩ | ⟨site, readings, hpost, -⟩
  · exact hruled
  · exact absurd hpost (by simp [forgedRun])

end Messaging

end Xfiles.Net
