import Xfiles.Lib.Sweep
import Xfiles.Quantum.Entanglement

/-!
# Maintenance of the quantum router

`QuantumRouter::tick` removes the conversations that were not active for an
hour, and the last endpoints of those that are gone.

What counts as activity is decided elsewhere: `ConversationState::update` sets
the time, and `get_or_insert`, which is all that `route` calls, does not.

* `activeAt` is the time that pruning looks at.
* `Refreshes` are the calls that count: an observation, a feedback, and a route
  that creates the conversation.  `activeAt_cases` says what any call does to the
  time.
* `survives_iff` says that a tick keeps exactly the conversations that such a
  call has refreshed within the hour.  `active_survive_iff` carries it to every
  tick of a run, and `routed_conversation_pruned` is a run that only routes.
-/

namespace Xfiles.Quantum

open Queue (numSeconds)

variable {F : Type*}

/-- `QuantumStateManager::prune_old`, which collects the ids and removes them then. -/
def QuantumStateManager.pruneOld (m : QuantumStateManager F) (maxAgeSecs now : Int) :
    QuantumStateManager F where
  conversations := Sweep.sweep
    (fun conv => decide (maxAgeSecs < numSeconds (now - conv.lastActive))) [] m.conversations

theorem QuantumStateManager.get_pruneOld (m : QuantumStateManager F) (maxAgeSecs now : Int)
    (conversationId : Uuid) :
    (m.pruneOld maxAgeSecs now).get conversationId =
      (m.get conversationId).filter fun conv =>
        ¬ maxAgeSecs < numSeconds (now - conv.lastActive) := by
  ext conv
  show (Sweep.sweep _ [] m.conversations).lookup conversationId = some conv ↔ _
  rw [Sweep.lookup_sweep, Option.filter_eq_some_iff]
  simp [get]

namespace QuantumRouter

/-- Periodic maintenance.  The entanglement window is read from the
configuration here only, and each of the two prunings reads the clock. -/
def tick (entanglementWindow : UInt64) (q : QuantumRouter F) (now later : Int) :
    QuantumRouter F :=
  let state := q.state.pruneOld 3600 now
  { q with
    state
    entanglement := q.entanglement.pruneOld (entanglementWindow * 2).toInt64.toInt later
    lastEndpoint := fun conversationId =>
      (q.lastEndpoint conversationId).filter fun _ => (state.get conversationId).isSome }

/-- The time of the last activity of a conversation, if it is present. -/
def activeAt (q : QuantumRouter F) (conversationId : Uuid) : Option Int :=
  (q.state.get conversationId).map (·.lastActive)

end QuantumRouter

/-! ## Calls -/

inductive RouterCall (F : Type*) where
  | route (msg : Message) (candidates : List String) (now : Int) (draws : Draws F)
  | observe (conversationId : Uuid) (endpointId : String) (success : Bool) (latencyMs : Nat)
      (now : Int)
  | feedback (conversationId : Uuid) (endpointId : String) (qualityScore : F) (now : Int)
  | tick (now later : Int)

namespace RouterCall

/-- The clock that the call reads. -/
def time : RouterCall F → Int
  | .route _ _ now _ => now
  | .observe _ _ _ _ now => now
  | .feedback _ _ _ now => now
  | .tick now _ => now

/-- The call is for the conversation. -/
def Concerns (conversationId : Uuid) : RouterCall F → Prop
  | .route msg _ _ _ => msg.conversationId = conversationId
  | .observe c _ _ _ _ => c = conversationId
  | .feedback c _ _ _ => c = conversationId
  | .tick _ _ => False

/-- The call sets the time of the last activity: it updates the conversation,
or routes to some candidate and finds it absent. -/
def Refreshes (q : QuantumRouter F) (conversationId : Uuid) : RouterCall F → Prop
  | .route msg candidates _ _ =>
    msg.conversationId = conversationId ∧ candidates ≠ [] ∧ q.state.get conversationId = none
  | .observe c _ _ _ _ => c = conversationId
  | .feedback c _ _ _ => c = conversationId
  | .tick _ _ => False

variable [Arith F]

def apply (entanglementWindow : UInt64) (q : QuantumRouter F) : RouterCall F → QuantumRouter F
  | .route msg candidates now draws => (q.route msg candidates now draws).2
  | .observe conversationId endpointId success latencyMs now =>
    (q.observe conversationId endpointId success latencyMs now).1
  | .feedback conversationId endpointId qualityScore now =>
    q.feedback conversationId endpointId qualityScore now
  | .tick now later => q.tick entanglementWindow now later

end RouterCall

section

variable [Arith F]

/-- The router after a list of calls. -/
def runRouter (entanglementWindow : UInt64) (config : QuantumConfig F)
    (calls : List (RouterCall F)) : QuantumRouter F :=
  calls.foldl (RouterCall.apply entanglementWindow) (.new config)

theorem runRouter_concat (entanglementWindow : UInt64) (config : QuantumConfig F)
    (calls : List (RouterCall F)) (call : RouterCall F) :
    runRouter entanglementWindow config (calls ++ [call]) =
      call.apply entanglementWindow (runRouter entanglementWindow config calls) := by
  rw [runRouter, List.foldl_append]
  rfl

/-! ## The time of the last activity -/

theorem ConversationState.lastActive_readAll (conv : ConversationState F)
    (candidates : List String) : (conv.readAll candidates).2.lastActive = conv.lastActive := by
  induction candidates generalizing conv with
  | nil => rfl
  | cons c rest ih => exact ih _

namespace QuantumRouter

variable (q : QuantumRouter F) (conversationId : Uuid)

/-- Routing creates the conversation if there is a candidate, and otherwise
leaves its time as it is. -/
theorem activeAt_route (msg : Message) (candidates : List String) (now : Int) (draws : Draws F) :
    (q.route msg candidates now draws).2.activeAt conversationId =
      if conversationId = msg.conversationId ∧ candidates ≠ [] then
        some ((q.activeAt conversationId).getD now)
      else q.activeAt conversationId := by
  by_cases hc : conversationId = msg.conversationId
  · subst hc
    cases candidates with
    | nil => simp [route]
    | cons c rest =>
      rw [if_pos ⟨rfl, List.cons_ne_nil c rest⟩]
      simp only [activeAt, route, distribution, QuantumStateManager.getOrCreate]
      rw [dif_pos (by simp)]
      dsimp only
      rw [QuantumStateManager.get_put_self, Option.map_some,
        ConversationState.lastActive_readAll]
      cases q.state.get msg.conversationId with
      | none => rfl
      | some conv => rfl
  · rw [if_neg fun h => hc h.1, activeAt, q.get_route_of_ne msg candidates now draws hc, activeAt]

/-- An update sets the time. -/
theorem activeAt_update (m : QuantumStateManager F) (c : Uuid) (endpointId : String)
    (reward rate : F) (now : Int) :
    ((m.update c endpointId reward rate now).get conversationId).map (·.lastActive) =
      if conversationId = c then some now
      else (m.get conversationId).map (·.lastActive) := by
  by_cases hc : conversationId = c
  · subst hc
    rw [if_pos rfl, QuantumStateManager.update, QuantumStateManager.get_put_self]
    rfl
  · rw [if_neg hc, QuantumStateManager.get_update_of_ne m endpointId reward rate now hc]

theorem activeAt_feedback (c : Uuid) (endpointId : String) (qualityScore : F) (now : Int) :
    (q.feedback c endpointId qualityScore now).activeAt conversationId =
      if conversationId = c then some now else q.activeAt conversationId :=
  activeAt_update conversationId q.state c endpointId _ _ now

theorem activeAt_observe (c : Uuid) (endpointId : String) (success : Bool) (latencyMs : Nat)
    (now : Int) :
    (q.observe c endpointId success latencyMs now).1.activeAt conversationId =
      if conversationId = c then some now else q.activeAt conversationId := by
  have hupdate := activeAt_update conversationId q.state c endpointId
    (reward success latencyMs) q.config.decoherenceRate now
  show ((q.observe c endpointId success latencyMs now).1.state.get conversationId).map _ =
    if conversationId = c then some now else (q.state.get conversationId).map (·.lastActive)
  rw [← hupdate, observe]
  by_cases hc : conversationId = c
  · subst hc
    simp only [QuantumStateManager.getOrCreate, QuantumStateManager.get_put_self,
      QuantumStateManager.update, Option.getD_some]
  · simp only [QuantumStateManager.getOrCreate, QuantumStateManager.get_put_of_ne _ _ hc]

end QuantumRouter

end

namespace QuantumRouter

variable (q : QuantumRouter F) (conversationId : Uuid)

theorem activeAt_eq_none_iff : q.activeAt conversationId = none ↔
    q.state.get conversationId = none :=
  Option.map_eq_none_iff

/-- A tick keeps a conversation as it is, or removes it. -/
theorem get_tick (entanglementWindow : UInt64) (now later : Int) :
    (q.tick entanglementWindow now later).state.get conversationId =
      (q.state.get conversationId).filter fun conv =>
        ¬ 3600 < numSeconds (now - conv.lastActive) :=
  q.state.get_pruneOld 3600 now conversationId

theorem activeAt_tick (entanglementWindow : UInt64) (now later : Int) :
    (q.tick entanglementWindow now later).activeAt conversationId =
      (q.activeAt conversationId).filter fun time => ¬ 3600 < numSeconds (now - time) := by
  rw [activeAt, get_tick, activeAt, Option.filter_map]
  rfl

theorem lastEndpoint_tick (entanglementWindow : UInt64) (now later : Int) :
    (q.tick entanglementWindow now later).lastEndpoint conversationId =
      (q.lastEndpoint conversationId).filter fun _ =>
        ((q.tick entanglementWindow now later).state.get conversationId).isSome := rfl

/-- The conversation is present after the tick, with the same endpoint states
and the same last endpoint. -/
def Survives (entanglementWindow : UInt64) (now later : Int) : Prop :=
  ∃ conv, q.state.get conversationId = some conv ∧
    (q.tick entanglementWindow now later).state.get conversationId = some conv ∧
    (q.tick entanglementWindow now later).lastEndpoint conversationId =
      q.lastEndpoint conversationId

theorem survives_iff_activeAt (entanglementWindow : UInt64) (now later : Int) :
    q.Survives conversationId entanglementWindow now later ↔
      ∃ time, q.activeAt conversationId = some time ∧ numSeconds (now - time) ≤ 3600 := by
  constructor
  · rintro ⟨conv, hget, hkept, -⟩
    rw [get_tick, Option.filter_eq_some_iff] at hkept
    exact ⟨conv.lastActive, by rw [activeAt, hget]; rfl, by simpa using hkept.2⟩
  · rintro ⟨time, hactive, hrecent⟩
    obtain ⟨conv, hget, rfl⟩ := Option.map_eq_some_iff.mp hactive
    have hkept : (q.tick entanglementWindow now later).state.get conversationId = some conv := by
      rw [get_tick, Option.filter_eq_some_iff]
      exact ⟨hget, by simpa using hrecent⟩
    refine ⟨conv, hget, hkept, ?_⟩
    rw [lastEndpoint_tick, hkept]
    cases q.lastEndpoint conversationId with
    | none => rfl
    | some endpointId => rfl

end QuantumRouter

/-! ## The calls that refresh -/

section

variable [Arith F] {entanglementWindow : UInt64} {q : QuantumRouter F} {conversationId : Uuid}
  {call : RouterCall F}

variable (entanglementWindow q conversationId call) in
/-- What a call does to the time of the last activity: it sets it, or it is a
tick that removes an old one, or it leaves it alone. -/
theorem activeAt_cases :
    (call.Refreshes q conversationId ∧
      (call.apply entanglementWindow q).activeAt conversationId = some call.time) ∨
    (∃ now later, call = .tick now later ∧
      (call.apply entanglementWindow q).activeAt conversationId =
        (q.activeAt conversationId).filter fun time => ¬ 3600 < numSeconds (now - time)) ∨
    (¬ call.Refreshes q conversationId ∧
      (call.apply entanglementWindow q).activeAt conversationId = q.activeAt conversationId) := by
  cases call with
  | route msg candidates now draws =>
    have hroute := q.activeAt_route conversationId msg candidates now draws
    by_cases hown : conversationId = msg.conversationId ∧ candidates ≠ []
    · rw [if_pos hown] at hroute
      cases hbefore : q.activeAt conversationId with
      | none =>
        rw [hbefore] at hroute
        have habsent := (q.activeAt_eq_none_iff conversationId).mp hbefore
        exact .inl ⟨⟨hown.1.symm, hown.2, habsent⟩, hroute⟩
      | some time =>
        rw [hbefore] at hroute
        refine .inr (.inr ⟨fun h => ?_, hroute⟩)
        rw [(q.activeAt_eq_none_iff conversationId).mpr h.2.2] at hbefore
        exact absurd hbefore.symm (Option.some_ne_none time)
    · rw [if_neg hown] at hroute
      exact .inr (.inr ⟨fun h => hown ⟨h.1.symm, h.2.1⟩, hroute⟩)
  | observe c endpointId success latencyMs now =>
    have hobserve := q.activeAt_observe conversationId c endpointId success latencyMs now
    by_cases hown : conversationId = c
    · exact .inl ⟨hown.symm, hobserve.trans (if_pos hown)⟩
    · exact .inr (.inr ⟨fun h => hown h.symm, hobserve.trans (if_neg hown)⟩)
  | feedback c endpointId qualityScore now =>
    have hfeedback := q.activeAt_feedback conversationId c endpointId qualityScore now
    by_cases hown : conversationId = c
    · exact .inl ⟨hown.symm, hfeedback.trans (if_pos hown)⟩
    · exact .inr (.inr ⟨fun h => hown h.symm, hfeedback.trans (if_neg hown)⟩)
  | tick now later =>
    exact .inr (.inl ⟨now, later, rfl, q.activeAt_tick conversationId entanglementWindow now later⟩)

theorem activeAt_of_refreshes (h : call.Refreshes q conversationId) :
    (call.apply entanglementWindow q).activeAt conversationId = some call.time := by
  rcases activeAt_cases entanglementWindow q conversationId call with
    ⟨-, hset⟩ | ⟨now, later, rfl, -⟩ | ⟨hnot, -⟩
  · exact hset
  · exact h.elim
  · exact absurd h hnot

/-- Any other call has not set the time. -/
theorem activeAt_of_not_refreshes (h : ¬ call.Refreshes q conversationId) {time : Int}
    (hactive : (call.apply entanglementWindow q).activeAt conversationId = some time) :
    q.activeAt conversationId = some time := by
  rcases activeAt_cases entanglementWindow q conversationId call with
    ⟨hrefreshes, -⟩ | ⟨now, later, rfl, hfilter⟩ | ⟨-, hsame⟩
  · exact absurd hrefreshes h
  · rw [hfilter, Option.filter_eq_some_iff] at hactive
    exact hactive.1
  · exact hsame.symm.trans hactive

/-- A conversation that is not too old stays, with its time or that of the
call. -/
theorem activeAt_apply {time : Int} (hactive : q.activeAt conversationId = some time)
    (hrecent : numSeconds (call.time - time) ≤ 3600) :
    ∃ time', (time' = time ∨ time' = call.time) ∧
      (call.apply entanglementWindow q).activeAt conversationId = some time' := by
  rcases activeAt_cases entanglementWindow q conversationId call with
    ⟨-, hset⟩ | ⟨now, later, rfl, hfilter⟩ | ⟨-, hsame⟩
  · exact ⟨call.time, .inr rfl, hset⟩
  · have hlate : numSeconds (now - time) ≤ 3600 := hrecent
    refine ⟨time, .inl rfl, ?_⟩
    rw [hfilter, hactive, Option.filter_eq_some_iff]
    exact ⟨rfl, by simpa using hlate⟩
  · exact ⟨time, .inl rfl, hsame.trans hactive⟩

end

/-! ## Runs -/

section

variable [Arith F] (entanglementWindow : UInt64) (config : QuantumConfig F)

/-- Some call of the run has refreshed the conversation at most an hour before,
in whole seconds. -/
def Refreshed (calls : List (RouterCall F)) (conversationId : Uuid) (now : Int) : Prop :=
  ∃ before call after, calls = before ++ call :: after ∧
    call.Refreshes (runRouter entanglementWindow config before) conversationId ∧
    numSeconds (now - call.time) ≤ 3600

omit [Arith F] in
/-- Some call of the run was for the conversation, at most 3600 seconds
before. -/
def Recent (calls : List (RouterCall F)) (conversationId : Uuid) (now : Int) : Prop :=
  ∃ call ∈ calls, call.Concerns conversationId ∧ now - call.time ≤ 3600 * 1000000000

variable {entanglementWindow config} {calls : List (RouterCall F)} {conversationId : Uuid}

/-- The time of the last activity is that of a call that refreshed. -/
theorem exists_refresh {time : Int}
    (h : (runRouter entanglementWindow config calls).activeAt conversationId = some time) :
    ∃ before call after, calls = before ++ call :: after ∧
      call.Refreshes (runRouter entanglementWindow config before) conversationId ∧
      call.time = time := by
  induction calls using List.reverseRecOn with
  | nil => simp [runRouter, QuantumRouter.new, QuantumRouter.activeAt] at h
  | append_singleton calls call ih =>
    rw [runRouter_concat] at h
    by_cases hrefreshes :
      call.Refreshes (runRouter entanglementWindow config calls) conversationId
    · refine ⟨calls, call, [], rfl, hrefreshes, ?_⟩
      exact Option.some.inj ((activeAt_of_refreshes hrefreshes).symm.trans h)
    · obtain ⟨before, call', after, rfl, hcall⟩ := ih (activeAt_of_not_refreshes hrefreshes h)
      exact ⟨before, call', after ++ [call], by simp, hcall⟩

/-- A conversation stays through calls that are not too late for it. -/
theorem activeAt_foldl {q : QuantumRouter F} {time now : Int}
    (hactive : q.activeAt conversationId = some time) {after : List (RouterCall F)}
    (hclock : ∀ call ∈ after, time ≤ call.time ∧ call.time ≤ now)
    (hrecent : numSeconds (now - time) ≤ 3600) :
    ∃ time', time ≤ time' ∧
      (after.foldl (RouterCall.apply entanglementWindow) q).activeAt conversationId =
        some time' := by
  induction after using List.reverseRecOn with
  | nil => exact ⟨time, le_refl time, hactive⟩
  | append_singleton after call ih =>
    obtain ⟨time', hle, hactive'⟩ := ih fun c hc => hclock c (List.mem_append_left _ hc)
    have hcall := hclock call (by simp)
    have hlate : numSeconds (call.time - time') ≤ 3600 :=
      (Queue.numSeconds_mono (by omega)).trans hrecent
    obtain ⟨time'', hwhich, hactive''⟩ :=
      @activeAt_apply _ _ entanglementWindow _ _ call _ hactive' hlate
    rw [List.foldl_append]
    refine ⟨time'', ?_, hactive''⟩
    rcases hwhich with rfl | rfl
    · exact hle
    · exact hcall.1

/-- A tick keeps exactly the conversations that were refreshed within the
hour. -/
theorem survives_iff (hclock : (calls.map RouterCall.time).Pairwise (· ≤ ·)) {now : Int}
    (hnow : ∀ call ∈ calls, call.time ≤ now) (later : Int) :
    (runRouter entanglementWindow config calls).Survives conversationId entanglementWindow now
        later ↔
      Refreshed entanglementWindow config calls conversationId now := by
  rw [QuantumRouter.survives_iff_activeAt]
  constructor
  · rintro ⟨time, hactive, hrecent⟩
    obtain ⟨before, call, after, hsplit, hrefreshes, rfl⟩ := exists_refresh hactive
    exact ⟨before, call, after, hsplit, hrefreshes, hrecent⟩
  · rintro ⟨before, call, after, rfl, hrefreshes, hrecent⟩
    rw [List.map_append, List.map_cons, List.pairwise_append, List.pairwise_cons] at hclock
    have hlate : ∀ c ∈ after, call.time ≤ c.time ∧ c.time ≤ now := fun c hc =>
      ⟨hclock.2.1.1 _ (List.mem_map_of_mem hc), hnow c (by simp [hc])⟩
    obtain ⟨time, hle, hactive⟩ :=
      @activeAt_foldl _ _ entanglementWindow _ _ _ _ (activeAt_of_refreshes hrefreshes) _ hlate
        hrecent
    refine ⟨time, ?_, (Queue.numSeconds_mono (by omega)).trans hrecent⟩
    rw [runRouter, List.foldl_append]
    exact hactive

/-- At the ticks of a run, the conversations that were called for within the
last 3600 seconds survive exactly when each of them was refreshed within the
hour.  After every tick the last endpoints are those of present
conversations. -/
theorem active_survive_iff (hclock : (calls.map RouterCall.time).Pairwise (· ≤ ·)) :
    ((∀ (before : List (RouterCall F)) (now later : Int) (after : List (RouterCall F))
        (conversationId : Uuid), calls = before ++ RouterCall.tick now later :: after →
        Recent before conversationId now →
        (runRouter entanglementWindow config before).Survives conversationId entanglementWindow
          now later) ↔
      ∀ (before : List (RouterCall F)) (now later : Int) (after : List (RouterCall F))
        (conversationId : Uuid), calls = before ++ RouterCall.tick now later :: after →
        Recent before conversationId now →
        Refreshed entanglementWindow config before conversationId now) ∧
    ∀ (before : List (RouterCall F)) (now later : Int) (after : List (RouterCall F))
      (conversationId : Uuid), calls = before ++ RouterCall.tick now later :: after →
      let q := runRouter entanglementWindow config (before ++ [RouterCall.tick now later])
      q.lastEndpoint conversationId ≠ none → q.state.get conversationId ≠ none := by
  have hsplit : ∀ (before : List (RouterCall F)) (now later : Int)
      (after : List (RouterCall F)) (conversationId : Uuid),
      calls = before ++ RouterCall.tick now later :: after →
      ((runRouter entanglementWindow config before).Survives conversationId entanglementWindow
          now later ↔ Refreshed entanglementWindow config before conversationId now) := by
    rintro before now later after conversationId rfl
    rw [List.map_append, List.map_cons, List.pairwise_append] at hclock
    refine survives_iff hclock.1 (fun call hcall => ?_) later
    exact hclock.2.2 _ (List.mem_map_of_mem hcall) now (by simp [RouterCall.time])
  refine ⟨⟨?_, ?_⟩, ?_⟩
  · intro h before now later after c hcalls hrecent
    exact (hsplit before now later after c hcalls).mp (h before now later after c hcalls hrecent)
  · intro h before now later after c hcalls hrecent
    exact (hsplit before now later after c hcalls).mpr (h before now later after c hcalls hrecent)
  · intro before now later after c _ q hlast habsent
    refine hlast ?_
    have htick : q = (runRouter entanglementWindow config before).tick entanglementWindow now
        later := runRouter_concat entanglementWindow config before _
    rw [htick] at habsent ⊢
    rw [QuantumRouter.lastEndpoint_tick, habsent]
    cases (runRouter entanglementWindow config before).lastEndpoint c with
    | none => rfl
    | some endpointId => rfl

end

/-! ## Routing alone, and routing with an observation -/

/-- A selection is kept as the last endpoint. -/
theorem QuantumRouter.lastEndpoint_route [Arith F] (q : QuantumRouter F) (msg : Message)
    {candidates : List String} (now : Int) (draws : Draws F) (h : candidates ≠ []) :
    (q.route msg candidates now draws).2.lastEndpoint msg.conversationId =
      (q.route msg candidates now draws).1 := by
  have hlen : 0 < candidates.length := List.length_pos_iff.mpr h
  rw [route, dif_pos hlen]
  exact Function.update_self _ _ _

/-- Draws that explore and take the first candidate. -/
def firstDraws : Draws Float where
  toss := 0
  choose _ h := ⟨0, h⟩
  sample _ := none

/-- The message of a conversation with one endpoint. -/
def hourMessage : Message :=
  Message.new "alice" "/ai" "llm_request" 1 2 0

/-- The conversation is routed at the start, and then `call` is made for it a
second after the hour. -/
def hourRun (call : Int → RouterCall Float) : List (RouterCall Float) :=
  [.route hourMessage ["a"] 0 firstDraws, call (3601 * 1000000000)]

/-- A tick a second later removes the conversation, which was routed a second
ago, with its last endpoint. -/
theorem routed_conversation_pruned :
    let before := hourRun fun now => .route hourMessage ["a"] now firstDraws
    let now := 3602 * 1000000000
    let q := runRouter 300 ⟨0, 0⟩ before
    ((before ++ [RouterCall.tick now now]).map RouterCall.time).Pairwise (· ≤ ·) ∧
      Recent before 2 now ∧ ¬ q.Survives 2 300 now now ∧
      q.lastEndpoint 2 = some "a" ∧ (q.tick 300 now now).lastEndpoint 2 = none := by
  intro before now q
  let first := (QuantumRouter.new (⟨0, 0⟩ : QuantumConfig Float)).route hourMessage ["a"] 0
    firstDraws
  have hactive : q.activeAt 2 = some 0 := by
    show (first.2.route hourMessage ["a"] (3601 * 1000000000) firstDraws).2.activeAt 2 = some 0
    rw [first.2.activeAt_route, QuantumRouter.activeAt_route]
    rfl
  have hpruned : (q.tick 300 now now).activeAt 2 = none := by
    rw [q.activeAt_tick, hactive]
    rfl
  have hgone := (QuantumRouter.activeAt_eq_none_iff _ _).mp hpruned
  have hlast : q.lastEndpoint 2 = some "a" := by
    have hsome := first.2.route_isSome hourMessage (3601 * 1000000000) firstDraws
      (List.cons_ne_nil "a" [])
    obtain ⟨selected, hselected⟩ := Option.isSome_iff_exists.mp hsome
    have hmem := first.2.route_mem hselected
    rw [List.mem_singleton.mp hmem] at hselected
    exact (first.2.lastEndpoint_route hourMessage _ firstDraws (List.cons_ne_nil "a" [])).trans
      hselected
  refine ⟨?_, ?_, ?_, hlast, ?_⟩
  · simp [before, now, hourRun, RouterCall.time]
  · exact ⟨_, List.mem_cons_of_mem _ (List.mem_singleton.mpr rfl), rfl, by decide⟩
  · rintro ⟨conv, -, hkept, -⟩
    rw [hgone] at hkept
    exact absurd hkept.symm (Option.some_ne_none conv)
  · rw [q.lastEndpoint_tick, hgone, hlast]
    rfl

/-- With an observation in place of the second route the conversation stays. -/
theorem active_survive_iff_observed :
    let before := hourRun fun now => .observe 2 "a" true 10 now
    let now := 3602 * 1000000000
    (runRouter 300 ⟨0, 0⟩ before).Survives 2 300 now now := by
  intro before now
  have hclock : ((before ++ [RouterCall.tick now now]).map RouterCall.time).Pairwise (· ≤ ·) := by
    simp [before, now, hourRun, RouterCall.time]
  have hobserved : Refreshed 300 ⟨0, 0⟩ before 2 now :=
    ⟨[.route hourMessage ["a"] 0 firstDraws], .observe 2 "a" true 10 (3601 * 1000000000), [], rfl,
      rfl, by decide⟩
  refine (@active_survive_iff Float _ 300 ⟨0, 0⟩ _ hclock).1.mpr ?_ before now now [] 2 rfl ?_
  · intro before' now' later' after' conversationId hsplit hrecent
    -- the run has one tick, and both calls before it are for the one conversation
    obtain ⟨hbefore, htick⟩ : before' = before ∧ now' = now := by
      rcases before' with _ | ⟨first, _ | ⟨second, _ | ⟨third, rest⟩⟩⟩
      · simp [before, hourRun] at hsplit
      · simp [before, hourRun] at hsplit
      · simp only [before, hourRun, List.cons_append, List.nil_append, List.cons.injEq,
          RouterCall.tick.injEq] at hsplit
        obtain ⟨rfl, rfl, ⟨rfl, -⟩, -⟩ := hsplit
        exact ⟨rfl, rfl⟩
      · simp [before, hourRun] at hsplit
    rw [hbefore] at hrecent ⊢
    rw [htick]
    obtain ⟨call, hcall, hconcerns, -⟩ := hrecent
    have hother : conversationId = 2 := by
      rcases List.mem_pair.mp hcall with rfl | rfl
      · exact hconcerns.symm
      · exact hconcerns.symm
    rw [hother]
    exact hobserved
  · exact ⟨_, List.mem_cons_of_mem _ (List.mem_singleton.mpr rfl), rfl, by decide⟩

end Xfiles.Quantum
