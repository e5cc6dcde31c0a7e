import Xfiles.Lib.Service
import Xfiles.Quantum.Maintenance
import Xfiles.Quantum.Selector

/-!
# One conversation among others

The calls that the hub makes on a `QuantumRouter`, and `record_pair`, which it does not make,
with their answers.

* `diagnostics` is the call behind the route that shows a conversation, `allDiagnostics` and
  `conversationCount` are those behind the route that shows all of them.  `HubCall.serve` is
  one call, and `serveAll` of the library a run.
* `SameIn` says that two routers agree in one conversation.  Each call for it keeps that, with
  the same answer (`SameIn.serve`), and each call for another one does not change it
  (`sameIn_serve`).
* `isolated` says that the answers in one conversation are those of a run of its own calls and
  of the maintenance alone.
* `diagnostics_unseen` says that until the next maintenance, reading a conversation changes no
  later answer but those about all conversations, which show it with no endpoints.
  `diagnostics_seen_after_tick` says that the maintenance can tell.
* `entanglement_inert` says that without a recorded pair, which the hub never makes, the
  previous endpoint has no influence on what `route` selects from.
-/

namespace Xfiles.Quantum

open Service Queue

variable {F : Type*}

/-- A call on the router.  `recordPair` is the one that only tests make. -/
inductive HubCall (F : Type*) where
  | traffic (call : RouterCall F)
  | recordPair (conversationId : Uuid) (a b : String) (reward : F) (now : Int)
  | diagnostics (conversationId : Uuid) (now : Int)
  | allDiagnostics
  | conversationCount

inductive HubAnswer (F : Type*) where
  | selected (endpointId : Option String)
  | spawned (task : Option (SaveTask F))
  | diagnosis (rows : List (EndpointDiagnostic F))
  | diagnoses (all : List (Uuid × List (EndpointDiagnostic F)))
  | count (conversations : Nat)
  | done

section

variable [Arith F]

namespace QuantumRouter

/-- Get diagnostics for a conversation's quantum state, which creates the conversation. -/
def diagnostics (q : QuantumRouter F) (conversationId : Uuid) (now : Int) :
    List (EndpointDiagnostic F) × QuantumRouter F :=
  let found := q.state.getOrCreate conversationId now
  (endpointDiagnostics found.1.endpointStates, { q with state := found.2 })

end QuantumRouter

namespace HubCall

/-- The call and its answer. -/
def serve (entanglementWindow : UInt64) (q : QuantumRouter F) :
    HubCall F → HubAnswer F × QuantumRouter F
  | .traffic (.route msg candidates now draws) =>
    let routed := q.route msg candidates now draws
    (.selected routed.1, routed.2)
  | .traffic (.observe conversationId endpointId success latencyMs now) =>
    let observed := q.observe conversationId endpointId success latencyMs now
    (.spawned observed.2, observed.1)
  | .traffic (.feedback conversationId endpointId qualityScore now) =>
    (.done, q.feedback conversationId endpointId qualityScore now)
  | .traffic (.tick now later) => (.done, q.tick entanglementWindow now later)
  | .recordPair conversationId a b reward now =>
    (.done, { q with entanglement := q.entanglement.recordPair conversationId a b reward now })
  | .diagnostics conversationId now =>
    let shown := q.diagnostics conversationId now
    (.diagnosis shown.1, shown.2)
  | .allDiagnostics => (.diagnoses q.state.allDiagnostics, q)
  | .conversationCount => (.count q.state.conversationCount, q)

/-- The calls of the maintenance do what they do there. -/
theorem serve_traffic (entanglementWindow : UInt64) (q : QuantumRouter F) (call : RouterCall F) :
    (serve entanglementWindow q (.traffic call)).2 = call.apply entanglementWindow q := by
  cases call <;> rfl

/-- The call is for the conversation, or is the maintenance. -/
def concerns (conversationId : Uuid) : HubCall F → Bool
  | .traffic (.route msg _ _ _) => msg.conversationId = conversationId
  | .traffic (.observe c _ _ _ _) => c = conversationId
  | .traffic (.feedback c _ _ _) => c = conversationId
  | .traffic (.tick _ _) => true
  | .recordPair c _ _ _ _ => c = conversationId
  | .diagnostics c _ => c = conversationId
  | .allDiagnostics => false
  | .conversationCount => false

end HubCall

end

/-! ## Agreement in one conversation -/

/-- The routers hold the same of a conversation. -/
structure SameIn (c : Uuid) (q q' : QuantumRouter F) : Prop where
  config : q.config = q'.config
  conversation : q.state.get c = q'.state.get c
  correlations : q.entanglement.correlations c = q'.entanglement.correlations c
  lastEndpoint : q.lastEndpoint c = q'.lastEndpoint c

theorem SameIn.refl (c : Uuid) (q : QuantumRouter F) : SameIn c q q := ⟨rfl, rfl, rfl, rfl⟩

theorem SameIn.trans {c : Uuid} {q q' q'' : QuantumRouter F} (h : SameIn c q q')
    (h' : SameIn c q' q'') : SameIn c q q'' where
  config := h.config.trans h'.config
  conversation := h.conversation.trans h'.conversation
  correlations := h.correlations.trans h'.correlations
  lastEndpoint := h.lastEndpoint.trans h'.lastEndpoint

section

variable [Arith F]

theorem applyEntanglement_congr {table table' : EntanglementTable F} {c : Uuid}
    (h : table.correlations c = table'.correlations c) (previousEndpoint : Option String)
    (distribution : List (String × F)) (strength : F) :
    table.applyEntanglement c previousEndpoint distribution strength =
      table'.applyEntanglement c previousEndpoint distribution strength := by
  unfold EntanglementTable.applyEntanglement EntanglementTable.getCorrelation
  rw [h]

theorem QuantumStateManager.get_update_self (m : QuantumStateManager F) (c : Uuid)
    (endpointId : String)
    (reward rate : F) (now : Int) :
    (m.update c endpointId reward rate now).get c =
      some (((m.get c).getD (.new now)).update endpointId reward rate now) := by
  rw [QuantumStateManager.update, QuantumStateManager.get_put_self]
  rfl

theorem QuantumRouter.get_observe_self (q : QuantumRouter F) (c : Uuid) (endpointId : String)
    (success : Bool)
    (latencyMs : Nat) (now : Int) :
    (q.observe c endpointId success latencyMs now).1.state.get c =
      some (((q.state.get c).getD (.new now)).update endpointId
        (QuantumRouter.reward success latencyMs) q.config.decoherenceRate now) := by
  simp only [QuantumRouter.observe, QuantumStateManager.getOrCreate,
    QuantumStateManager.get_put_self]
  rw [QuantumStateManager.get_update_self, Option.getD_some]

/-- A call for another conversation. -/
theorem sameIn_serve (entanglementWindow : UInt64) (q : QuantumRouter F) {call : HubCall F}
    {c : Uuid} (h : call.concerns c = false) :
    SameIn c (call.serve entanglementWindow q).2 q := by
  cases call with
  | traffic call =>
    cases call with
    | route msg candidates now draws =>
      have hne : c ≠ msg.conversationId := by
        simpa [HubCall.concerns, eq_comm] using h
      refine ⟨?_, q.get_route_of_ne msg candidates now draws hne, ?_, ?_⟩
      all_goals
        simp only [HubCall.serve, QuantumRouter.route]
        split
      · rfl
      · rfl
      · rfl
      · rfl
      · exact Function.update_of_ne hne _ _
      · rfl
    | observe conversationId endpointId success latencyMs now =>
      have hne : c ≠ conversationId := by
        simpa [HubCall.concerns, eq_comm] using h
      exact ⟨rfl, q.get_observe_of_ne endpointId success latencyMs now hne, rfl, rfl⟩
    | feedback conversationId endpointId qualityScore now =>
      have hne : c ≠ conversationId := by
        simpa [HubCall.concerns, eq_comm] using h
      exact ⟨rfl, q.state.get_update_of_ne endpointId _ _ now hne, rfl, rfl⟩
    | tick now later => exact absurd h (by simp [HubCall.concerns])
  | recordPair conversationId a b reward now =>
    have hne : c ≠ conversationId := by
      simpa [HubCall.concerns, eq_comm] using h
    exact ⟨rfl, rfl, Function.update_of_ne hne _ _, rfl⟩
  | diagnostics conversationId now =>
    have hne : c ≠ conversationId := by
      simpa [HubCall.concerns, eq_comm] using h
    exact ⟨rfl, QuantumStateManager.get_put_of_ne _ _ hne, rfl, rfl⟩
  | allDiagnostics => exact SameIn.refl c q
  | conversationCount => exact SameIn.refl c q

theorem SameIn.route {q q' : QuantumRouter F} {msg : Message}
    (h : SameIn msg.conversationId q q') (candidates : List String) (now : Int)
    (draws : Draws F) :
    (q.route msg candidates now draws).1 = (q'.route msg candidates now draws).1 ∧
      SameIn msg.conversationId (q.route msg candidates now draws).2
        (q'.route msg candidates now draws).2 := by
  unfold QuantumRouter.route
  by_cases hlen : 0 < candidates.length
  · rw [dif_pos hlen, dif_pos hlen]
    have hbuilt : (q.distribution msg.conversationId candidates now).1 =
        (q'.distribution msg.conversationId candidates now).1 := by
      simp only [QuantumRouter.distribution, QuantumStateManager.getOrCreate, h.conversation,
        h.lastEndpoint]
      exact applyEntanglement_congr h.correlations _ _ _
    refine ⟨?_, h.config, ?_, h.correlations, ?_⟩
    · dsimp only
      rw [hbuilt, h.config]
    · simp only [QuantumRouter.distribution, QuantumStateManager.getOrCreate,
        QuantumStateManager.get_put_self, h.conversation]
    · dsimp only
      rw [Function.update_self, Function.update_self, hbuilt, h.config]
  · rw [dif_neg hlen, dif_neg hlen]
    exact ⟨rfl, h⟩

/-- A call for the conversation, or for all of them. -/
theorem SameIn.serve {c : Uuid} {q q' : QuantumRouter F} (h : SameIn c q q')
    (entanglementWindow : UInt64) {call : HubCall F} (hconcerns : call.concerns c = true) :
    (call.serve entanglementWindow q').1 = (call.serve entanglementWindow q).1 ∧
      SameIn c (call.serve entanglementWindow q).2 (call.serve entanglementWindow q').2 := by
  cases call with
  | traffic call =>
    cases call with
    | route msg candidates now draws =>
      obtain rfl : msg.conversationId = c := by
        simpa [HubCall.concerns] using hconcerns
      obtain ⟨hanswer, hsame⟩ := h.route candidates now draws
      exact ⟨congrArg HubAnswer.selected hanswer.symm, hsame⟩
    | observe conversationId endpointId success latencyMs now =>
      obtain rfl : conversationId = c := by
        simpa [HubCall.concerns] using hconcerns
      have hget : (q.observe conversationId endpointId success latencyMs now).1.state.get
          conversationId = (q'.observe conversationId endpointId success latencyMs now).1.state.get
            conversationId := by
        rw [q.get_observe_self, q'.get_observe_self, h.conversation, h.config]
      refine ⟨?_, h.config, hget, h.correlations, h.lastEndpoint⟩
      show HubAnswer.spawned _ = HubAnswer.spawned _
      rw [q.task_observe, q'.task_observe, QuantumStateManager.stateOf,
        QuantumStateManager.stateOf, hget]
    | feedback conversationId endpointId qualityScore now =>
      obtain rfl : conversationId = c := by
        simpa [HubCall.concerns] using hconcerns
      refine ⟨rfl, h.config, ?_, h.correlations, h.lastEndpoint⟩
      show (q.state.update _ _ _ _ _).get _ = (q'.state.update _ _ _ _ _).get _
      rw [QuantumStateManager.get_update_self, QuantumStateManager.get_update_self,
        h.conversation, h.config]
    | tick now later =>
      have hget : (q.tick entanglementWindow now later).state.get c =
          (q'.tick entanglementWindow now later).state.get c := by
        rw [q.get_tick, q'.get_tick, h.conversation]
      refine ⟨rfl, h.config, hget, ?_, ?_⟩
      · exact congrArg (Option.filter _) h.correlations
      · show (q.tick _ _ _).lastEndpoint c = (q'.tick _ _ _).lastEndpoint c
        rw [q.lastEndpoint_tick, q'.lastEndpoint_tick, hget, h.lastEndpoint]
  | recordPair conversationId a b reward now =>
    obtain rfl : conversationId = c := by
      simpa [HubCall.concerns] using hconcerns
    refine ⟨rfl, h.config, h.conversation, ?_, h.lastEndpoint⟩
    simp only [HubCall.serve, EntanglementTable.recordPair, Function.update_self,
      h.correlations]
  | diagnostics conversationId now =>
    obtain rfl : conversationId = c := by
      simpa [HubCall.concerns] using hconcerns
    refine ⟨?_, h.config, ?_, h.correlations, h.lastEndpoint⟩
    · simp only [HubCall.serve, QuantumRouter.diagnostics, QuantumStateManager.getOrCreate,
        h.conversation]
    · simp only [HubCall.serve, QuantumRouter.diagnostics, QuantumStateManager.getOrCreate,
        QuantumStateManager.get_put_self, h.conversation]
  | allDiagnostics => exact absurd hconcerns Bool.false_ne_true
  | conversationCount => exact absurd hconcerns Bool.false_ne_true

/-- **Isolation.**  Whatever is called for other conversations, the calls for one of them, and
the maintenance, give the answers of a run without the others. -/
theorem isolated (entanglementWindow : UInt64) (q : QuantumRouter F) (calls : List (HubCall F))
    (c : Uuid) :
    (serveAll (HubCall.serve entanglementWindow) q (calls.filter (HubCall.concerns c))).1 =
      (serveAll (HubCall.serve entanglementWindow) q calls).1.filter fun exchange =>
        exchange.request.concerns c := by
  have hfilters : Filters (HubCall.serve (F := F) entanglementWindow)
      (HubCall.serve entanglementWindow) (fun _ => True)
      (fun exchange => exchange.request.concerns c) Eq (SameIn c) := by
    constructor
    · intro s t call _ hsame hconcerns
      exact hsame.serve entanglementWindow hconcerns
    · intro s t call _ hsame hother
      exact (sameIn_serve entanglementWindow s hother).trans hsame
  exact hfilters.filter_serveAll (fun _ _ => trivial) (SameIn.refl c q)

/-! ## Reading a conversation -/

/-- The call reads the diagnostics of a conversation. -/
def HubCall.isDiagnostics : HubCall F → Bool
  | .diagnostics _ _ => true
  | _ => false

def HubCall.isTick : HubCall F → Bool
  | .traffic (.tick _ _) => true
  | _ => false

end

/-- The endpoint states of a conversation, of which a new one has none. -/
def QuantumStateManager.contents (m : QuantumStateManager F) (c : Uuid) : EndpointStates F :=
  ((m.get c).map (·.endpointStates)).getD ∅

theorem contents_put_self (m : QuantumStateManager F) (c : Uuid) (conv : ConversationState F) :
    (m.put c conv).contents c = conv.endpointStates := by
  rw [QuantumStateManager.contents, QuantumStateManager.get_put_self]
  rfl

theorem contents_put_of_ne (m : QuantumStateManager F) {c other : Uuid}
    (conv : ConversationState F) (h : other ≠ c) :
    (m.put c conv).contents other = m.contents other := by
  rw [QuantumStateManager.contents, QuantumStateManager.get_put_of_ne m conv h]
  rfl

theorem endpointStates_getOrCreate (m : QuantumStateManager F) (c : Uuid) (now : Int) :
    (m.getOrCreate c now).1.endpointStates = m.contents c := by
  unfold QuantumStateManager.getOrCreate QuantumStateManager.contents
  cases m.get c with
  | none => rfl
  | some conv => rfl

/-- `get_or_create` creates an empty conversation at most. -/
theorem contents_getOrCreate (m : QuantumStateManager F) (c other : Uuid) (now : Int) :
    (m.getOrCreate c now).2.contents other = m.contents other := by
  show (m.put c (m.getOrCreate c now).1).contents other = _
  by_cases hother : other = c
  · subst hother
    rw [contents_put_self, endpointStates_getOrCreate]
  · rw [contents_put_of_ne _ _ hother]

/-- The first map has the conversations of the second one with their endpoint states, and
maybe empty ones beside them. -/
structure Covers (m m' : QuantumStateManager F) : Prop where
  contents : ∀ c, m.contents c = m'.contents c
  present : ∀ c ∈ m'.conversations, c ∈ m.conversations

namespace Covers

variable {m m' : QuantumStateManager F} (h : Covers m m')
include h

theorem put (c : Uuid) {conv conv' : ConversationState F}
    (hconv : conv.endpointStates = conv'.endpointStates) :
    Covers (m.put c conv) (m'.put c conv') where
  contents other := by
    by_cases hother : other = c
    · rw [hother, contents_put_self, contents_put_self, hconv]
    · rw [contents_put_of_ne _ _ hother, contents_put_of_ne _ _ hother, h.contents]
  present other hmem := by
    rcases (AList.mem_insert _).mp hmem with heq | hold
    · exact (AList.mem_insert _).mpr (.inl heq)
    · exact (AList.mem_insert _).mpr (.inr (h.present other hold))

theorem getOrCreate_fst (c : Uuid) (now : Int) :
    (m.getOrCreate c now).1.endpointStates = (m'.getOrCreate c now).1.endpointStates := by
  rw [endpointStates_getOrCreate, endpointStates_getOrCreate, h.contents]

theorem getOrCreate (c : Uuid) (now : Int) :
    Covers (m.getOrCreate c now).2 (m'.getOrCreate c now).2 :=
  h.put c (h.getOrCreate_fst c now)

/-- The conversation is created on one side only. -/
theorem created (c : Uuid) (now : Int) : Covers (m.getOrCreate c now).2 m' where
  contents other := (contents_getOrCreate m c other now).trans (h.contents other)
  present other hmem := (AList.mem_insert _).mpr (.inr (h.present other hmem))

theorem conversationCount_le : m'.conversationCount ≤ m.conversationCount := by
  have hkeys := (List.subperm_of_subset m'.conversations.keys_nodup h.present).length_le
  simpa [QuantumStateManager.conversationCount, AList.keys, List.keys] using hkeys

end Covers

/-- The routers differ at most in the empty conversations that only the first one has, and in
the times of activity. -/
structure SameContents (q q' : QuantumRouter F) : Prop where
  config : q.config = q'.config
  state : Covers q.state q'.state
  entanglement : q.entanglement = q'.entanglement
  lastEndpoint : q.lastEndpoint = q'.lastEndpoint

/-- The conversations that are shown with endpoints. -/
def nonEmpty (all : List (Uuid × List (EndpointDiagnostic F))) :
    List (Uuid × List (EndpointDiagnostic F)) :=
  all.filter fun shown => !shown.2.isEmpty

section

variable [Arith F]

theorem readAll_congr {conv conv' : ConversationState F}
    (h : conv.endpointStates = conv'.endpointStates) (candidates : List String) :
    (conv.readAll candidates).1 = (conv'.readAll candidates).1 ∧
      (conv.readAll candidates).2.endpointStates =
        (conv'.readAll candidates).2.endpointStates := by
  induction candidates generalizing conv conv' with
  | nil => exact ⟨rfl, h⟩
  | cons candidate rest ih =>
    have hstate : conv.stateOf candidate = conv'.stateOf candidate := by
      rw [ConversationState.stateOf, h]
      rfl
    have hnext : (conv.getOrInsert candidate).2.endpointStates =
        (conv'.getOrInsert candidate).2.endpointStates := by
      show conv.endpointStates.insert _ _ = conv'.endpointStates.insert _ _
      rw [h, hstate]
    obtain ⟨hread, hlast⟩ := ih hnext
    refine ⟨?_, hlast⟩
    show (candidate, conv.stateOf candidate) :: _ = (candidate, conv'.stateOf candidate) :: _
    rw [hstate, hread]

theorem update_congr {conv conv' : ConversationState F}
    (h : conv.endpointStates = conv'.endpointStates) (endpointId : String) (reward rate : F)
    (now : Int) :
    (conv.update endpointId reward rate now).endpointStates =
      (conv'.update endpointId reward rate now).endpointStates := by
  have hstate : conv.stateOf endpointId = conv'.stateOf endpointId := by
    rw [ConversationState.stateOf, h]
    rfl
  simp only [ConversationState.update, ConversationState.applyDecoherence, ConversationState.put,
    h, hstate]

theorem Covers.update {m m' : QuantumStateManager F} (h : Covers m m') (c : Uuid)
    (endpointId : String) (reward rate : F) (now : Int) :
    Covers (m.update c endpointId reward rate now) (m'.update c endpointId reward rate now) :=
  (h.getOrCreate c now).put c (update_congr (h.getOrCreate_fst c now) endpointId reward rate now)

theorem mem_nonEmpty_allDiagnostics (m : QuantumStateManager F)
    (shown : Uuid × List (EndpointDiagnostic F)) :
    shown ∈ nonEmpty m.allDiagnostics ↔
      shown.2 ≠ [] ∧ endpointDiagnostics (m.contents shown.1) = shown.2 := by
  rw [nonEmpty, List.mem_filter, QuantumStateManager.allDiagnostics, List.mem_map]
  constructor
  · rintro ⟨⟨⟨c, conv⟩, hentry, rfl⟩, hshown⟩
    have hget : m.get c = some conv := AList.mem_lookup_iff.mpr hentry
    refine ⟨by simpa using hshown, ?_⟩
    rw [QuantumStateManager.contents, hget]
    rfl
  · rintro ⟨hshown, hrows⟩
    cases hget : m.get shown.1 with
    | none =>
      rw [QuantumStateManager.contents, hget] at hrows
      exact absurd hrows.symm hshown
    | some conv =>
      rw [QuantumStateManager.contents, hget] at hrows
      exact ⟨⟨⟨shown.1, conv⟩, AList.mem_lookup_iff.mp hget, Prod.ext rfl hrows⟩,
        by simpa using hshown⟩

theorem nodup_allDiagnostics (m : QuantumStateManager F) : m.allDiagnostics.Nodup := by
  refine List.Nodup.of_map Prod.fst ?_
  rw [QuantumStateManager.allDiagnostics, List.map_map]
  exact m.conversations.keys_nodup

/-- A read of all conversations shows the same ones with endpoints. -/
theorem Covers.allDiagnostics_perm {m m' : QuantumStateManager F} (h : Covers m m') :
    (nonEmpty m'.allDiagnostics).Perm (nonEmpty m.allDiagnostics) := by
  refine (List.perm_ext_iff_of_nodup ((nodup_allDiagnostics m').filter _)
    ((nodup_allDiagnostics m).filter _)).mpr fun shown => ?_
  show shown ∈ nonEmpty _ ↔ shown ∈ nonEmpty _
  rw [mem_nonEmpty_allDiagnostics, mem_nonEmpty_allDiagnostics, h.contents]

theorem SameContents.route {q q' : QuantumRouter F} (h : SameContents q q') (msg : Message)
    (candidates : List String) (now : Int) (draws : Draws F) :
    (q.route msg candidates now draws).1 = (q'.route msg candidates now draws).1 ∧
      SameContents (q.route msg candidates now draws).2 (q'.route msg candidates now draws).2 := by
  unfold QuantumRouter.route
  by_cases hlen : 0 < candidates.length
  · rw [dif_pos hlen, dif_pos hlen]
    obtain ⟨hread, hstates⟩ :=
      readAll_congr (h.state.getOrCreate_fst msg.conversationId now) candidates
    have hbuilt : (q.distribution msg.conversationId candidates now).1 =
        (q'.distribution msg.conversationId candidates now).1 := by
      simp only [QuantumRouter.distribution, hread, h.entanglement, h.lastEndpoint]
    refine ⟨?_, h.config, (h.state.getOrCreate _ now).put _ hstates, h.entanglement, ?_⟩
    · dsimp only
      rw [hbuilt, h.config]
    · dsimp only
      rw [hbuilt, h.config, h.lastEndpoint]
  · rw [dif_neg hlen, dif_neg hlen]
    exact ⟨rfl, h⟩

theorem SameContents.observe {q q' : QuantumRouter F} (h : SameContents q q') (c : Uuid)
    (endpointId : String) (success : Bool) (latencyMs : Nat) (now : Int) :
    (q.observe c endpointId success latencyMs now).2 =
        (q'.observe c endpointId success latencyMs now).2 ∧
      SameContents (q.observe c endpointId success latencyMs now).1
        (q'.observe c endpointId success latencyMs now).1 := by
  have hupdate := h.state.update c endpointId (QuantumRouter.reward success latencyMs)
    q'.config.decoherenceRate now
  rw [QuantumRouter.observe, QuantumRouter.observe, h.config]
  refine ⟨?_, rfl, hupdate.getOrCreate c now, h.entanglement, h.lastEndpoint⟩
  dsimp only
  rw [hupdate.getOrCreate_fst]

/-- The answers are the same, up to the empty conversations among those of all of them. -/
def HubAnswer.Alike : HubAnswer F → HubAnswer F → Prop
  | .diagnoses all, .diagnoses all' => (nonEmpty all).Perm (nonEmpty all')
  | .count conversations, .count conversations' => conversations ≤ conversations'
  | answer, answer' => answer = answer'

/-- Any call but the maintenance. -/
theorem SameContents.serve {q q' : QuantumRouter F} (h : SameContents q q')
    (entanglementWindow : UInt64) {call : HubCall F} (htick : call.isTick = false) :
    (call.serve entanglementWindow q').1.Alike (call.serve entanglementWindow q).1 ∧
      SameContents (call.serve entanglementWindow q).2 (call.serve entanglementWindow q').2 := by
  cases call with
  | traffic call =>
    cases call with
    | route msg candidates now draws =>
      obtain ⟨hanswer, hsame⟩ := h.route msg candidates now draws
      exact ⟨congrArg HubAnswer.selected hanswer.symm, hsame⟩
    | observe c endpointId success latencyMs now =>
      obtain ⟨hanswer, hsame⟩ := h.observe c endpointId success latencyMs now
      exact ⟨congrArg HubAnswer.spawned hanswer.symm, hsame⟩
    | feedback c endpointId qualityScore now =>
      refine ⟨rfl, h.config, ?_, h.entanglement, h.lastEndpoint⟩
      have hupdate :=
        h.state.update c endpointId (clamp01 qualityScore) q'.config.decoherenceRate now
      show Covers (q.state.update _ _ _ q.config.decoherenceRate _) _
      rw [h.config]
      exact hupdate
    | tick now later => exact absurd htick (by simp [HubCall.isTick])
  | recordPair c a b reward now =>
    refine ⟨rfl, h.config, h.state, ?_, h.lastEndpoint⟩
    show q.entanglement.recordPair _ _ _ _ _ = q'.entanglement.recordPair _ _ _ _ _
    rw [h.entanglement]
  | diagnostics c now =>
    refine ⟨?_, h.config, h.state.getOrCreate c now, h.entanglement, h.lastEndpoint⟩
    exact congrArg (HubAnswer.diagnosis ∘ endpointDiagnostics) (h.state.getOrCreate_fst c now).symm
  | allDiagnostics => exact ⟨h.state.allDiagnostics_perm, h⟩
  | conversationCount => exact ⟨h.state.conversationCount_le, h⟩

/-- In a run without maintenance, reading conversations one by one is seen only where all of
them are read: without any of the reads, the other calls are answered alike, up to empty
conversations. -/
theorem diagnostics_unseen (entanglementWindow : UInt64) (q : QuantumRouter F)
    {calls : List (HubCall F)} (hticks : ∀ call ∈ calls, call.isTick = false)
    {keep : HubCall F → Bool} (hkeep : ∀ call, keep call = false → call.isDiagnostics = true) :
    List.Forall₂ (Exchange.Related HubAnswer.Alike)
      (serveAll (HubCall.serve entanglementWindow) q (calls.filter keep)).1
      ((serveAll (HubCall.serve entanglementWindow) q calls).1.filter fun exchange =>
        keep exchange.request) := by
  have hfilters : Filters (HubCall.serve (F := F) entanglementWindow)
      (HubCall.serve entanglementWindow) (fun call => call.isTick = false)
      (fun exchange => keep exchange.request) HubAnswer.Alike SameContents := by
    constructor
    · intro s t call htick hsame _
      exact hsame.serve entanglementWindow htick
    · intro s t call _ hsame hdrop
      cases call with
      | diagnostics c now =>
        exact ⟨hsame.config, hsame.state.created c now, hsame.entanglement, hsame.lastEndpoint⟩
      | traffic | recordPair | allDiagnostics | conversationCount =>
        exact absurd (hkeep _ hdrop) Bool.false_ne_true
  exact hfilters.forall₂_filter hticks ⟨rfl, ⟨fun _ => rfl, fun _ => id⟩, rfl, rfl⟩

/-- The conversation 9 is only read. -/
theorem diagnostics_unseen_route :
    let calls : List (HubCall Float) := [.diagnostics 9 0,
      .traffic (.route hourMessage ["a"] 10000000000 firstDraws), .allDiagnostics,
      .conversationCount, .diagnostics 2 20000000000]
    List.Forall₂ (Exchange.Related HubAnswer.Alike)
      (serveAll (HubCall.serve 300) (.new ⟨0, 0⟩)
        (calls.filter fun call => !call.isDiagnostics)).1
      ((serveAll (HubCall.serve 300) (.new ⟨0, 0⟩) calls).1.filter fun exchange =>
        !exchange.request.isDiagnostics) :=
  diagnostics_unseen 300 (.new ⟨0, 0⟩) (by simp [HubCall.isTick]) (by simp)

/-- The number of rows that a call shows. -/
def HubAnswer.shown : HubAnswer F → Option Nat
  | .diagnosis rows => some rows.length
  | _ => none

/-- A conversation is routed, and shown after the maintenance of more than an hour. -/
def shownRun (config : QuantumConfig F) (draws : Draws F) (calls : List (HubCall F)) :
    List (Option Nat) :=
  ((serveAll (HubCall.serve 300) (.new config) (calls ++
    [.traffic (.route hourMessage ["a"] 10000000000 draws),
      .traffic (.tick 3605000000000 3605000000000),
      .diagnostics 2 3606000000000])).1.map fun exchange => exchange.answer.shown)

/-- A read at the start makes the conversation old enough to be removed with what was routed. -/
theorem diagnostics_seen_after_tick (config : QuantumConfig F) (draws : Draws F) :
    shownRun config draws [] = [none, none, some 1] ∧
      shownRun config draws [.diagnostics 2 0] = [some 0, none, none, some 0] :=
  ⟨rfl, rfl⟩

end

/-! ## Entanglement in the hub -/

/-- The call is one that the hub makes. -/
def HubCall.InHub : HubCall F → Prop
  | .recordPair _ _ _ _ _ => False
  | _ => True

/-- No call of the hub records a pair. -/
theorem correlations_serve [Arith F] (entanglementWindow : UInt64) {q : QuantumRouter F}
    (h : ∀ c, q.entanglement.correlations c = none) {call : HubCall F} (hcall : call.InHub)
    (c : Uuid) : (call.serve entanglementWindow q).2.entanglement.correlations c = none := by
  cases call with
  | traffic call =>
    cases call with
    | route msg candidates now draws =>
      simp only [HubCall.serve, QuantumRouter.route]
      split
      · exact h c
      · exact h c
    | observe _ _ _ _ _ => exact h c
    | feedback _ _ _ _ => exact h c
    | tick now later =>
      show ((q.entanglement.correlations c).filter _) = none
      rw [h c]
      rfl
  | recordPair _ _ _ _ _ => exact absurd hcall id
  | diagnostics _ _ => exact h c
  | allDiagnostics => exact h c
  | conversationCount => exact h c

theorem getCorrelation_eq_zero [Arith F] {table : EntanglementTable F}
    (h : ∀ c, table.correlations c = none) (c : Uuid) (a b : String) :
    table.getCorrelation c a b = 0 := by
  rw [EntanglementTable.getCorrelation, h c]
  rfl

/-- Weights that were divided by their sum are not changed by factors of one. -/
theorem applyEntanglement_normalize {table : EntanglementTable ℝ}
    (h : ∀ c, table.correlations c = none) (c : Uuid) (previousEndpoint : Option String)
    (l : List (String × ℝ)) (strength : ℝ) :
    table.applyEntanglement c previousEndpoint (Weights.normalize l) strength =
      Weights.normalize l := by
  cases previousEndpoint with
  | none => rfl
  | some prev =>
    have hboost : ∀ endpointId, table.boost c prev strength endpointId = 1 := by
      intro endpointId
      rw [EntanglementTable.boost, getCorrelation_eq_zero h, zero_mul, add_zero]
    rw [EntanglementTable.applyEntanglement_eq, Weights.scale_of_one hboost,
      Weights.normalize_normalize]

/-- The hub routes without entanglement: after any run of its calls, `route` selects from the
priors alone, and the last endpoints make no difference to it. -/
theorem entanglement_inert (entanglementWindow : UInt64) (config : QuantumConfig ℝ)
    {calls : List (HubCall ℝ)} (hcalls : ∀ call ∈ calls, call.InHub) (msg : Message)
    (candidates : List String) (now : Int) (draws : Draws ℝ) (lastEndpoint : Uuid → Option String) :
    let q := (serveAll (HubCall.serve entanglementWindow) (.new config) calls).2
    (q.distribution msg.conversationId candidates now).1 =
        Weights.normalize (q.priors msg.conversationId candidates) ∧
      ({ q with lastEndpoint := lastEndpoint }.route msg candidates now draws).1 =
        (q.route msg candidates now draws).1 := by
  intro q
  have hnone : ∀ c, q.entanglement.correlations c = none := by
    refine (invariant_serveAll (fun q : QuantumRouter ℝ =>
      ∀ c, q.entanglement.correlations c = none) ?_ ?_).1
    · intro s call hmem hs
      exact correlations_serve entanglementWindow hs (hcalls call hmem)
    · exact fun _ => rfl
  have hbuilt : ∀ last : Uuid → Option String,
      ({ q with lastEndpoint := last }.distribution msg.conversationId candidates now).1 =
        Weights.normalize (q.priors msg.conversationId candidates) := by
    intro last
    rw [QuantumRouter.distribution_fst]
    exact applyEntanglement_normalize hnone _ _ _ _
  refine ⟨hbuilt q.lastEndpoint, ?_⟩
  unfold QuantumRouter.route
  by_cases hlen : 0 < candidates.length
  · rw [dif_pos hlen, dif_pos hlen]
    dsimp only
    rw [hbuilt lastEndpoint]
    have hown := hbuilt q.lastEndpoint
    exact congrArg (fun d => some (select draws q.config.explorationRate candidates hlen d))
      hown.symm
  · rw [dif_neg hlen, dif_neg hlen]

/-- Two endpoints, of which one has failed. -/
theorem entanglement_inert_failed :
    let q := (serveAll (HubCall.serve 300) (.new (⟨0.05, 0.15⟩ : QuantumConfig ℝ))
      [.traffic (.route hourMessage ["a", "b"] 0 (.generated 0.5 0 0.5)),
        .traffic (.observe 2 "a" false 20 1)]).2
    ({ q with lastEndpoint := fun _ => none }.route hourMessage ["a", "b"] 2
        (.generated 0.5 0 0.5)).1 =
      (q.route hourMessage ["a", "b"] 2 (.generated 0.5 0 0.5)).1 :=
  (entanglement_inert 300 _ (by simp [HubCall.InHub]) hourMessage ["a", "b"] 2
    (.generated 0.5 0 0.5) fun _ => none).2

end Xfiles.Quantum
