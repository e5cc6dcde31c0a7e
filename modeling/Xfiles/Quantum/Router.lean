import Xfiles.Quantum.State

/-!
# The quantum router

The model of `quantum/router.rs` and of the lookup side of
`quantum/entanglement.rs`.

* `route` picks one of the candidates.  The random generator is an argument:
  `Draws` holds what each call of the generator returns.
* `observe` updates the state and returns the save that it spawns.
* `feedback` updates the state and saves nothing.

`route_mem` and `route_isSome` say that the selection is a candidate whenever
there is one, for every draw.  The lemmas at the end say what each operation
does to the state that is read later: `route` changes nothing, `observe` and
`feedback` count one pull.

The handle that `get_or_create` returns shares its map with the table, so a
write through the handle is a write to the table.
-/

namespace Xfiles.Quantum

variable {F : Type*}

/-- What the random generator answers in one call of `route`.  The sampler of
`WeightedIndex` refuses some weights. -/
structure Draws (F : Type*) where
  toss : F
  choose : (n : Nat) → 0 < n → Fin n
  sample : (weights : List F) → Option (Fin weights.length)

structure QuantumConfig (F : Type*) where
  decoherenceRate : F
  explorationRate : F

/-- Per-conversation endpoint pair -> correlation score. -/
structure ConversationCorrelations (F : Type*) where
  map : String × String → Option F
  lastActive : Int

/-- Tracks correlations between endpoints within a conversation. -/
structure EntanglementTable (F : Type*) where
  correlations : Uuid → Option (ConversationCorrelations F)

namespace EntanglementTable

def new : EntanglementTable F where
  correlations _ := none

def orderedKey (a b : String) : String × String :=
  if a < b then (a, b) else (b, a)

/-- Get the correlation between two endpoints in a conversation. -/
def getCorrelation [Zero F] (table : EntanglementTable F) (conversationId : Uuid)
    (a b : String) : F :=
  ((table.correlations conversationId).bind fun conv => conv.map (orderedKey a b)).getD 0

end EntanglementTable

/-- The save that `observe` spawns. -/
structure SaveTask (F : Type*) where
  conversationId : Uuid
  endpointId : String
  state : EndpointState F
  deriving DecidableEq, Repr

/-- Quantum-inspired router: probabilistic endpoint selection with
self-learning. -/
structure QuantumRouter (F : Type*) where
  state : QuantumStateManager F
  entanglement : EntanglementTable F
  config : QuantumConfig F
  /-- conversation_id -> last selected endpoint_id -/
  lastEndpoint : Uuid → Option String

section

variable [Arith F]

/-- Divide by the sum, if it is positive. -/
def normalizeWeights (distribution : List (String × F)) : List (String × F) :=
  let sum := (distribution.map (·.2)).foldl (· + ·) 0
  if 0 < sum then distribution.map fun entry => (entry.1, entry.2 / sum) else distribution

/-- Apply entanglement boosts to a probability distribution. -/
def EntanglementTable.applyEntanglement (table : EntanglementTable F) (conversationId : Uuid)
    (previousEndpoint : Option String) (distribution : List (String × F)) (strength : F) :
    List (String × F) :=
  match previousEndpoint with
  | none => distribution
  | some prev =>
    normalizeWeights <| distribution.map fun entry =>
      (entry.1, entry.2 * (1 + table.getCorrelation conversationId prev entry.1 * strength))

/-- `get_or_insert` of each candidate in turn. -/
def ConversationState.readAll (conv : ConversationState F) :
    List String → List (String × EndpointState F) × ConversationState F
  | [] => ([], conv)
  | c :: rest =>
    let read := conv.getOrInsert c
    let more := read.2.readAll rest
    ((c, read.1) :: more.1, more.2)

/-- The weight of a candidate before normalization: a uniform prior for unseen
endpoints. -/
def prior (candidates : List String) (state : EndpointState F) : F :=
  if state.pulls = 0 then 1 / (candidates.length : F) else state.amplitude.probability

/-- Exploit: sample from the distribution, or choose when the sampler refuses
the weights. -/
def exploit (draws : Draws F) (candidates : List String) (h : 0 < candidates.length)
    (distribution : List (String × F)) : String :=
  match draws.sample (distribution.map (·.2)) with
  | some idx => (distribution.get (idx.cast (List.length_map _))).1
  | none => candidates.get (draws.choose candidates.length h)

/-- Epsilon-greedy on the quantum distribution. -/
def select (draws : Draws F) (explorationRate : F) (candidates : List String)
    (h : 0 < candidates.length) (distribution : List (String × F)) : String :=
  if draws.toss < explorationRate then candidates.get (draws.choose candidates.length h)
  else exploit draws candidates h distribution

namespace QuantumRouter

def new (config : QuantumConfig F) : QuantumRouter F where
  state := .new
  entanglement := .new
  config := config
  lastEndpoint _ := none

/-- The distribution that `route` selects from, and the state after it is
built. -/
def distribution (q : QuantumRouter F) (conversationId : Uuid) (candidates : List String)
    (now : Int) : List (String × F) × QuantumStateManager F :=
  let found := q.state.getOrCreate conversationId now
  let read := found.1.readAll candidates
  let weights := normalizeWeights (read.1.map fun entry => (entry.1, prior candidates entry.2))
  (q.entanglement.applyEntanglement conversationId (q.lastEndpoint conversationId) weights 0.2,
    found.2.put conversationId read.2)

/-- Route a message to a destination using quantum-inspired selection. -/
def route (q : QuantumRouter F) (msg : Message) (candidates : List String) (now : Int)
    (draws : Draws F) : Option String × QuantumRouter F :=
  if h : 0 < candidates.length then
    let built := q.distribution msg.conversationId candidates now
    let selected := select draws q.config.explorationRate candidates h built.1
    (some selected,
      { q with
        state := built.2
        lastEndpoint := Function.update q.lastEndpoint msg.conversationId (some selected) })
  else
    (none, q)

/-- The reward of an outcome: 1.0 for success, with a penalty on latency. -/
def reward (success : Bool) (latencyMs : Nat) : F :=
  let latencyPenalty := min ((latencyMs : F) / 5000.0) 1
  if success then 1 - latencyPenalty * 0.3 else 0

/-- Observe the result of routing and update quantum state. -/
def observe (q : QuantumRouter F) (conversationId : Uuid) (endpointId : String)
    (success : Bool) (latencyMs : Nat) (now : Int) : QuantumRouter F × Option (SaveTask F) :=
  let updated :=
    q.state.update conversationId endpointId (reward success latencyMs) q.config.decoherenceRate
      now
  let found := updated.getOrCreate conversationId now
  ({ q with state := found.2 },
    (found.1.endpointStates.lookup endpointId).map fun state =>
      ⟨conversationId, endpointId, state⟩)

/-- Manually inject feedback for a routed message. -/
def feedback (q : QuantumRouter F) (conversationId : Uuid) (endpointId : String)
    (qualityScore : F) (now : Int) : QuantumRouter F :=
  { q with
    state :=
      q.state.update conversationId endpointId (clamp01 qualityScore) q.config.decoherenceRate
        now }

end QuantumRouter

/-! ## The selection is a candidate -/

theorem map_fst_normalizeWeights (distribution : List (String × F)) :
    (normalizeWeights distribution).map (·.1) = distribution.map (·.1) := by
  unfold normalizeWeights
  dsimp only
  split
  · rw [List.map_map]
    rfl
  · rfl

theorem map_fst_applyEntanglement (table : EntanglementTable F) (conversationId : Uuid)
    (previousEndpoint : Option String) (distribution : List (String × F)) (strength : F) :
    (table.applyEntanglement conversationId previousEndpoint distribution strength).map (·.1) =
      distribution.map (·.1) := by
  cases previousEndpoint with
  | none => rfl
  | some prev =>
    unfold EntanglementTable.applyEntanglement
    rw [map_fst_normalizeWeights, List.map_map]
    rfl

theorem map_fst_readAll (conv : ConversationState F) (candidates : List String) :
    (conv.readAll candidates).1.map (·.1) = candidates := by
  induction candidates generalizing conv with
  | nil => rfl
  | cons c rest ih =>
    show c :: _ = _
    rw [ih]

namespace QuantumRouter

variable (q : QuantumRouter F)

/-- The distribution is over the candidates, in their order. -/
theorem map_fst_distribution (conversationId : Uuid) (candidates : List String) (now : Int) :
    (q.distribution conversationId candidates now).1.map (·.1) = candidates := by
  unfold distribution
  dsimp only
  rw [map_fst_applyEntanglement, map_fst_normalizeWeights, List.map_map]
  exact map_fst_readAll _ candidates

theorem select_mem (draws : Draws F) (rate : F) {candidates : List String}
    (h : 0 < candidates.length) {distribution : List (String × F)}
    (hfst : distribution.map (·.1) = candidates) :
    select draws rate candidates h distribution ∈ candidates := by
  unfold select exploit
  split
  · exact List.get_mem candidates _
  · split
    · rename_i idx _
      have hmem := List.mem_map_of_mem (f := (·.1)) (List.get_mem distribution
        (idx.cast (List.length_map _)))
      rw [hfst] at hmem
      exact hmem
    · exact List.get_mem candidates _

/-- Whatever the draws, the selection is one of the candidates. -/
theorem route_mem {msg : Message} {candidates : List String} {now : Int} {draws : Draws F}
    {selected : String} (h : (q.route msg candidates now draws).1 = some selected) :
    selected ∈ candidates := by
  unfold route at h
  split at h
  · rename_i hlen
    obtain rfl := Option.some.inj h
    exact select_mem draws _ hlen (q.map_fst_distribution msg.conversationId candidates now)
  · simp at h

/-- There is a selection whenever there is a candidate. -/
theorem route_isSome (msg : Message) {candidates : List String} (now : Int) (draws : Draws F)
    (h : candidates ≠ []) : (q.route msg candidates now draws).1.isSome = true := by
  have hlen : 0 < candidates.length := List.length_pos_iff.mpr h
  rw [route, dif_pos hlen]
  rfl

end QuantumRouter

/-! ## What is read later -/

theorem readAll_eq (conv : ConversationState F) (candidates : List String) :
    (conv.readAll candidates).1 = candidates.map fun c => (c, conv.stateOf c) := by
  induction candidates generalizing conv with
  | nil => rfl
  | cons c rest ih =>
    show (c, conv.stateOf c) :: ((conv.getOrInsert c).2.readAll rest).1 = _
    rw [ih, List.map_cons]
    simp only [ConversationState.stateOf_getOrInsert]

namespace QuantumRouter

variable (q : QuantumRouter F)

/-- The endpoint states that `route` reads to build its distribution. -/
def reads (conversationId : Uuid) (candidates : List String) (now : Int) :
    List (String × EndpointState F) :=
  ((q.state.getOrCreate conversationId now).1.readAll candidates).1

theorem reads_eq (conversationId : Uuid) (candidates : List String) (now : Int) :
    q.reads conversationId candidates now =
      candidates.map fun c => (c, q.state.stateOf conversationId c) := by
  rw [reads, readAll_eq]
  simp only [QuantumStateManager.stateOf_getOrCreate_fst]

theorem get_route_of_ne (msg : Message) (candidates : List String) (now : Int)
    (draws : Draws F) {conversationId : Uuid} (h : conversationId ≠ msg.conversationId) :
    (q.route msg candidates now draws).2.state.get conversationId =
      q.state.get conversationId := by
  unfold route
  split
  · simp only [distribution, QuantumStateManager.getOrCreate]
    rw [QuantumStateManager.get_put_of_ne _ _ h, QuantumStateManager.get_put_of_ne _ _ h]
  · rfl

/-- The state that an observation leaves in the table. -/
theorem stateOf_observe (conversationId cid : Uuid) (endpointId ep : String) (success : Bool)
    (latencyMs : Nat) (now : Int) :
    (q.observe conversationId endpointId success latencyMs now).1.state.stateOf cid ep =
      (q.state.update conversationId endpointId (reward success latencyMs)
        q.config.decoherenceRate now).stateOf cid ep := by
  show ((q.state.update conversationId endpointId (reward success latencyMs)
    q.config.decoherenceRate now).getOrCreate conversationId now).2.stateOf cid ep = _
  exact QuantumStateManager.stateOf_getOrCreate_snd _ conversationId cid ep now

theorem pulls_observe (conversationId cid : Uuid) (endpointId ep : String) (success : Bool)
    (latencyMs : Nat) (now : Int) :
    ((q.observe conversationId endpointId success latencyMs now).1.state.stateOf cid ep).pulls =
      if cid = conversationId ∧ ep = endpointId then (q.state.stateOf cid ep).pulls + 1
      else (q.state.stateOf cid ep).pulls := by
  rw [stateOf_observe, QuantumStateManager.pulls_update]

/-- An observation always spawns a save, of the state that is then in the
table. -/
theorem task_observe (conversationId : Uuid) (endpointId : String) (success : Bool)
    (latencyMs : Nat) (now : Int) :
    (q.observe conversationId endpointId success latencyMs now).2 =
      some ⟨conversationId, endpointId,
        (q.observe conversationId endpointId success latencyMs now).1.state.stateOf
          conversationId endpointId⟩ := by
  rw [stateOf_observe, QuantumStateManager.stateOf_update_self, ConversationState.stateOf]
  simp only [observe, QuantumStateManager.update, QuantumStateManager.getOrCreate,
    QuantumStateManager.get_put_self, Option.getD_some]
  obtain ⟨uniformMag, hlookup⟩ := ConversationState.lookup_update
    ((q.state.get conversationId).getD (.new now)) endpointId endpointId
    (reward success latencyMs) q.config.decoherenceRate now
  rw [hlookup, if_pos rfl]
  rfl

theorem get_observe_of_ne {conversationId cid : Uuid} (endpointId : String) (success : Bool)
    (latencyMs : Nat) (now : Int) (h : cid ≠ conversationId) :
    (q.observe conversationId endpointId success latencyMs now).1.state.get cid =
      q.state.get cid := by
  simp only [observe, QuantumStateManager.getOrCreate]
  rw [QuantumStateManager.get_put_of_ne _ _ h, QuantumStateManager.get_update_of_ne _ _ _ _ _ h]

end QuantumRouter

end

end Xfiles.Quantum
