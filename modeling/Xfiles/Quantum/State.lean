import Mathlib.Data.List.AList
import Mathlib.Data.Nat.Cast.Defs
import Mathlib.Logic.Function.Basic
import Xfiles.Message.Basic

/-!
# The quantum state

The model of `quantum/state.rs`: the state of one endpoint in one
conversation, the state of a conversation, and the map of conversations.

* `Arith` is the arithmetic of `f64` as the code uses it.  The definitions are
  generic in the number type, so that one definition serves for floats and for
  exact reals.
* `EndpointState.observed` is the part of `ConversationState::update` on the
  locked entry, and `EndpointState.decohere` is the part of
  `apply_decoherence` on one entry.
* `lookup_update` says what an update leaves under each endpoint id.

A `DashMap` whose entries are counted is an association list without duplicate
keys.  One that is only looked up is a function to `Option`.  `pulls` is a
`u64` that only ever goes up by one, and is a `Nat` here.  The fields
`conversation_id`, `created_at` and `last_updated` are written and never read,
so they are left out.
-/

namespace Xfiles.Quantum

/-- The operations of `f64` that the router uses. -/
class Arith (F : Type*) extends Zero F, One F, Add F, Sub F, Mul F, Div F, Min F, LT F,
    NatCast F, OfScientific F where
  decidableLT : DecidableLT F
  sqrt : F → F
  cos : F → F
  sin : F → F
  atan2 : F → F → F
  pi : F

attribute [reducible, instance] Arith.decidableLT

/-- `f64::min`, which prefers a number to a NaN. -/
def floatMin (x y : Float) : Float :=
  if x.isNaN then y else if y < x then y else x

instance : Arith Float where
  zero := 0.0
  one := 1.0
  min := floatMin
  natCast := Float.ofNat
  decidableLT := inferInstance
  sqrt := Float.sqrt
  cos := Float.cos
  sin := Float.sin
  atan2 := Float.atan2
  pi := 3.14159265358979323846264338327950288

variable {F : Type*}

section Entry

variable [Arith F]

/-- `f64::clamp(0.0, 1.0)`. -/
def clamp01 (x : F) : F :=
  if x < 0 then 0 else if 1 < x then 1 else x

/-- A complex probability amplitude: `a + bi`. -/
structure Amplitude (F : Type*) where
  real : F
  imag : F
  deriving DecidableEq, Repr

/-- Probability = |amplitude|^2. -/
def Amplitude.probability (a : Amplitude F) : F :=
  a.real * a.real + a.imag * a.imag

def Amplitude.phase (a : Amplitude F) : F :=
  Arith.atan2 a.imag a.real

/-- Per-endpoint quantum state tracked by the router. -/
structure EndpointState (F : Type*) where
  amplitude : Amplitude F
  pulls : Nat
  totalReward : F
  deriving DecidableEq, Repr

instance : Inhabited (EndpointState F) where
  default := { amplitude := ⟨1, 0⟩, pulls := 0, totalReward := 0 }

namespace EndpointState

/-- The update of the locked entry, before decoherence. -/
def observed (entry : EndpointState F) (reward : F) : EndpointState F :=
  let pulls := entry.pulls + 1
  let totalReward := entry.totalReward + reward
  let avgReward := totalReward / (pulls : F)
  let targetMag := clamp01 (Arith.sqrt avgReward)
  -- rotate the phase slightly based on the reward (interference)
  let phaseShift := (reward - 0.5) * Arith.pi
  let newPhase := entry.amplitude.phase + phaseShift * 0.1
  { amplitude := ⟨targetMag * Arith.cos newPhase, targetMag * Arith.sin newPhase⟩
    pulls, totalReward }

/-- Decoherence of one entry: its amplitude decays toward uniform. -/
def decohere (uniformMag rate : F) (entry : EndpointState F) : EndpointState F :=
  { entry with
    amplitude := ⟨entry.amplitude.real * (1 - rate) + uniformMag * rate,
                  entry.amplitude.imag * (1 - rate)⟩ }

end EndpointState

end Entry

/-! ## Conversations -/

/-- The endpoint states of a conversation. -/
abbrev EndpointStates (F : Type*) := AList fun _ : String => EndpointState F

/-- Change every entry, as a pass with `get_mut` over all keys does. -/
def mapStates (f : EndpointState F → EndpointState F) (states : EndpointStates F) :
    EndpointStates F where
  entries := states.entries.map fun entry => ⟨entry.1, f entry.2⟩
  nodupKeys := by
    have hkeys : (states.entries.map fun entry =>
        (⟨entry.1, f entry.2⟩ : Sigma fun _ : String => EndpointState F)).keys =
        states.entries.keys := by
      simp [List.keys]
    rw [List.NodupKeys, hkeys]
    exact states.nodupKeys

theorem dlookup_map (f : EndpointState F → EndpointState F) (endpointId : String)
    (entries : List (Sigma fun _ : String => EndpointState F)) :
    @List.dlookup String (fun _ => EndpointState F) _ endpointId
        (entries.map fun entry => ⟨entry.1, f entry.2⟩) =
      (List.dlookup endpointId entries).map f := by
  induction entries with
  | nil => rfl
  | cons entry rest ih =>
    obtain ⟨key, state⟩ := entry
    by_cases h : endpointId = key
    · subst h
      simp
    · rw [List.map_cons, List.dlookup_cons_ne _ _ h, List.dlookup_cons_ne _ _ h, ih]

@[simp] theorem lookup_mapStates (f : EndpointState F → EndpointState F)
    (states : EndpointStates F) (endpointId : String) :
    (mapStates f states).lookup endpointId = (states.lookup endpointId).map f :=
  dlookup_map f endpointId states.entries

/-- Quantum state for a single conversation. -/
structure ConversationState (F : Type*) where
  endpointStates : EndpointStates F
  lastActive : Int

namespace ConversationState

/-- `ConversationState::new`. -/
def new (now : Int) : ConversationState F where
  endpointStates := ∅
  lastActive := now

/-- `entry(id).or_default()`, with what is then written through the entry. -/
def put (conv : ConversationState F) (endpointId : String) (state : EndpointState F) :
    ConversationState F :=
  { conv with endpointStates := conv.endpointStates.insert endpointId state }

theorem lookup_put (conv : ConversationState F) (endpointId other : String)
    (state : EndpointState F) :
    (conv.put endpointId state).endpointStates.lookup other =
      if other = endpointId then some state else conv.endpointStates.lookup other := by
  split
  · rename_i h
    subst h
    exact AList.lookup_insert conv.endpointStates
  · rename_i h
    exact AList.lookup_insert_ne h

variable [Arith F]

/-- The state under an id, or the default that `or_default` would insert. -/
def stateOf (conv : ConversationState F) (endpointId : String) : EndpointState F :=
  (conv.endpointStates.lookup endpointId).getD default

/-- `get_or_insert`: the state read, and the conversation after it. -/
def getOrInsert (conv : ConversationState F) (endpointId : String) :
    EndpointState F × ConversationState F :=
  (conv.stateOf endpointId, conv.put endpointId (conv.stateOf endpointId))

/-- Amplitudes decay toward uniform.  An empty map has no entry to change. -/
def applyDecoherence (conv : ConversationState F) (rate : F) : ConversationState F :=
  let uniformMag := 1 / Arith.sqrt (conv.endpointStates.entries.length : F)
  { conv with endpointStates := mapStates (.decohere uniformMag rate) conv.endpointStates }

def update (conv : ConversationState F) (endpointId : String) (reward decoherenceRate : F)
    (now : Int) : ConversationState F :=
  let touched := conv.put endpointId ((conv.stateOf endpointId).observed reward)
  { touched with lastActive := now }.applyDecoherence decoherenceRate

theorem stateOf_put (conv : ConversationState F) (endpointId other : String)
    (state : EndpointState F) :
    (conv.put endpointId state).stateOf other =
      if other = endpointId then state else conv.stateOf other := by
  rw [stateOf, lookup_put]
  split
  · rfl
  · rfl

/-- `get_or_insert` changes no state that is read later. -/
@[simp] theorem stateOf_getOrInsert (conv : ConversationState F) (endpointId other : String) :
    (conv.getOrInsert endpointId).2.stateOf other = conv.stateOf other := by
  rw [getOrInsert, stateOf_put]
  split
  · rename_i h
    rw [h]
  · rfl

/-- What an update leaves under each id.  The magnitude of the uniform amplitude
comes from the number of endpoints. -/
theorem lookup_update_uniform (conv : ConversationState F) (endpointId other : String)
    (reward rate : F) (now : Int) :
    ∃ count : Nat, (conv.update endpointId reward rate now).endpointStates.lookup other =
      if other = endpointId then
        some (((conv.stateOf endpointId).observed reward).decohere
          (1 / Arith.sqrt (count : F)) rate)
      else (conv.endpointStates.lookup other).map
        (.decohere (1 / Arith.sqrt (count : F)) rate) := by
  let touched := conv.put endpointId ((conv.stateOf endpointId).observed reward)
  refine ⟨touched.endpointStates.entries.length, ?_⟩
  simp only [update, applyDecoherence, lookup_mapStates, lookup_put]
  split
  · rfl
  · rfl

theorem lookup_update (conv : ConversationState F) (endpointId other : String)
    (reward rate : F) (now : Int) :
    ∃ uniformMag, (conv.update endpointId reward rate now).endpointStates.lookup other =
      if other = endpointId then
        some (((conv.stateOf endpointId).observed reward).decohere uniformMag rate)
      else (conv.endpointStates.lookup other).map (.decohere uniformMag rate) := by
  obtain ⟨count, hlookup⟩ := lookup_update_uniform conv endpointId other reward rate now
  exact ⟨1 / Arith.sqrt (count : F), hlookup⟩

/-- An update counts one pull of its endpoint, and none of any other. -/
theorem pulls_update (conv : ConversationState F) (endpointId other : String)
    (reward rate : F) (now : Int) :
    ((conv.update endpointId reward rate now).stateOf other).pulls =
      if other = endpointId then (conv.stateOf other).pulls + 1
      else (conv.stateOf other).pulls := by
  obtain ⟨uniformMag, hlookup⟩ := lookup_update conv endpointId other reward rate now
  rw [stateOf, hlookup]
  split
  · rename_i h
    rw [h]
    rfl
  · rw [stateOf]
    cases conv.endpointStates.lookup other with
    | none => rfl
    | some state => rfl

end ConversationState

/-- Diagnostic tuple for an endpoint within a conversation: its id, its probability, its pulls
and its average reward. -/
abbrev EndpointDiagnostic (F : Type*) := String × F × Nat × F

/-- What both kinds of diagnostics show of a conversation. -/
def endpointDiagnostics [Arith F] (states : EndpointStates F) : List (EndpointDiagnostic F) :=
  states.entries.map fun entry =>
    (entry.1, entry.2.amplitude.probability, entry.2.pulls,
      if 0 < entry.2.pulls then entry.2.totalReward / (entry.2.pulls : F) else 0)

/-! ## The map of conversations -/

/-- `QuantumStateManager`. -/
structure QuantumStateManager (F : Type*) where
  conversations : AList fun _ : Uuid => ConversationState F

namespace QuantumStateManager

def new : QuantumStateManager F where
  conversations := ∅

def get (m : QuantumStateManager F) (conversationId : Uuid) : Option (ConversationState F) :=
  m.conversations.lookup conversationId

def put (m : QuantumStateManager F) (conversationId : Uuid) (conv : ConversationState F) :
    QuantumStateManager F where
  conversations := m.conversations.insert conversationId conv

/-- `get_or_create`: the conversation, and the map after it. -/
def getOrCreate (m : QuantumStateManager F) (conversationId : Uuid) (now : Int) :
    ConversationState F × QuantumStateManager F :=
  let conv := (m.get conversationId).getD (.new now)
  (conv, m.put conversationId conv)

def conversationCount (m : QuantumStateManager F) : Nat := m.conversations.entries.length

@[simp] theorem get_new (conversationId : Uuid) :
    (new : QuantumStateManager F).get conversationId = none := rfl

@[simp] theorem get_put_self (m : QuantumStateManager F) (conversationId : Uuid)
    (conv : ConversationState F) :
    (m.put conversationId conv).get conversationId = some conv :=
  AList.lookup_insert _

theorem get_put_of_ne (m : QuantumStateManager F) {conversationId other : Uuid}
    (conv : ConversationState F) (h : other ≠ conversationId) :
    (m.put conversationId conv).get other = m.get other :=
  AList.lookup_insert_ne h

variable [Arith F]

def allDiagnostics (m : QuantumStateManager F) : List (Uuid × List (EndpointDiagnostic F)) :=
  m.conversations.entries.map fun entry => (entry.1, endpointDiagnostics entry.2.endpointStates)

/-- The update goes to the map through the handle that `get_or_create`
returned. -/
def update (m : QuantumStateManager F) (conversationId : Uuid) (endpointId : String)
    (reward decoherenceRate : F) (now : Int) : QuantumStateManager F :=
  let found := m.getOrCreate conversationId now
  found.2.put conversationId (found.1.update endpointId reward decoherenceRate now)

/-- The state that an endpoint has in a conversation, with the defaults that a
missing conversation or endpoint would get. -/
def stateOf (m : QuantumStateManager F) (conversationId : Uuid) (endpointId : String) :
    EndpointState F :=
  ((m.get conversationId).map (·.stateOf endpointId)).getD default

/-- The handle of `get_or_create` reads what the map reads. -/
theorem stateOf_getOrCreate_fst (m : QuantumStateManager F) (conversationId : Uuid)
    (endpointId : String) (now : Int) :
    (m.getOrCreate conversationId now).1.stateOf endpointId =
      m.stateOf conversationId endpointId := by
  unfold getOrCreate stateOf
  cases m.get conversationId with
  | none => rfl
  | some conv => rfl

theorem stateOf_put (m : QuantumStateManager F) (conversationId other : Uuid)
    (conv : ConversationState F) (endpointId : String) :
    (m.put conversationId conv).stateOf other endpointId =
      if other = conversationId then conv.stateOf endpointId else m.stateOf other endpointId := by
  unfold stateOf
  split
  · rename_i h
    rw [h, get_put_self]
    rfl
  · rename_i h
    rw [get_put_of_ne m conv h]

/-- `get_or_create` changes no state that is read later. -/
@[simp] theorem stateOf_getOrCreate_snd (m : QuantumStateManager F) (conversationId other : Uuid)
    (endpointId : String) (now : Int) :
    (m.getOrCreate conversationId now).2.stateOf other endpointId =
      m.stateOf other endpointId := by
  show (m.put conversationId (m.getOrCreate conversationId now).1).stateOf other endpointId = _
  rw [stateOf_put]
  split
  · rename_i h
    rw [h, stateOf_getOrCreate_fst]
  · rfl

theorem get_update_of_ne (m : QuantumStateManager F) {conversationId other : Uuid}
    (endpointId : String) (reward rate : F) (now : Int) (h : other ≠ conversationId) :
    (m.update conversationId endpointId reward rate now).get other = m.get other := by
  unfold update getOrCreate
  rw [get_put_of_ne _ _ h, get_put_of_ne _ _ h]

theorem stateOf_update_self (m : QuantumStateManager F) (conversationId : Uuid)
    (endpointId other : String) (reward rate : F) (now : Int) :
    (m.update conversationId endpointId reward rate now).stateOf conversationId other =
      ((m.getOrCreate conversationId now).1.update endpointId reward rate now).stateOf other := by
  unfold update
  rw [stateOf_put, if_pos rfl]

/-- An update counts one pull of its endpoint in its conversation. -/
theorem pulls_update (m : QuantumStateManager F) (conversationId cid : Uuid)
    (endpointId ep : String) (reward rate : F) (now : Int) :
    ((m.update conversationId endpointId reward rate now).stateOf cid ep).pulls =
      if cid = conversationId ∧ ep = endpointId then (m.stateOf cid ep).pulls + 1
      else (m.stateOf cid ep).pulls := by
  by_cases hcid : cid = conversationId
  · subst hcid
    rw [stateOf_update_self, ConversationState.pulls_update, stateOf_getOrCreate_fst]
    simp
  · rw [if_neg (fun h => hcid h.1), stateOf, get_update_of_ne m _ _ _ _ hcid]
    rfl

end QuantumStateManager

end Xfiles.Quantum
