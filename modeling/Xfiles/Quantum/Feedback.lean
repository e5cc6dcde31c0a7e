import Xfiles.Lib.Transition
import Xfiles.Quantum.Router

/-!
# Feedback on routed messages

The two handlers that take a feedback event, and runs of routing and feedback
on one router.

* `quantumFeedbackHandler` and `quantumFeedback` are the handlers.  Both pass
  the message id on as a conversation id.
* `Dialogue` is the router with the messages that it has routed, a history
  that no step reads.
* `Reaches` says that a feedback step counts one pull in the conversation of
  its message, and touches no other.
* `reaches_iff_sameId` says that this holds all along a run exactly when the
  messages that feedback is about carry one id as message and as conversation.
  `feedback_lost` is a run in which one does not.

The handlers also store the event.  No route reads that table, so the model
leaves it out, with the fields that only the table keeps.
-/

namespace Xfiles.Quantum

open Transition

/-- Feedback event for learning loops. -/
structure FeedbackEvent where
  messageId : Uuid
  endpointId : String
  success : Bool
  latencyMs : Nat
  deriving DecidableEq, Repr

variable {F : Type*} [Arith F]

/-- The body that the two handlers share: the status, the answer and the
router after the request. -/
def observeFeedback (quantum : Option (QuantumRouter F)) (event : FeedbackEvent) (now : Int) :
    Nat × Json × Option (QuantumRouter F) :=
  match quantum with
  | some q =>
    (200, .object [("status", .string "observed")],
      some (q.observe event.messageId event.endpointId event.success event.latencyMs now).1)
  | none => (503, .object [("error", .string "quantum mode disabled")], none)

/-- `quantum_feedback_handler` of the daemon. -/
def quantumFeedbackHandler (quantum : Option (QuantumRouter F)) (event : FeedbackEvent)
    (now : Int) : Nat × Json × Option (QuantumRouter F) :=
  observeFeedback quantum event now

/-- `quantum_feedback` of the API. -/
def quantumFeedback (quantum : Option (QuantumRouter F)) (event : FeedbackEvent) (now : Int) :
    Nat × Json × Option (QuantumRouter F) :=
  observeFeedback quantum event now

/-- A router, and the messages routed so far. -/
structure Dialogue (F : Type*) where
  quantum : Option (QuantumRouter F)
  routed : List Message

inductive DialogueEvent (F : Type*) where
  | route (msg : Message) (candidates : List String) (now : Int) (draws : Draws F)
  | postDaemon (event : FeedbackEvent) (now : Int)
  | postApi (event : FeedbackEvent) (now : Int)

namespace Dialogue

def start (config : QuantumConfig F) : Dialogue F where
  quantum := some (.new config)
  routed := []

def step (s : Dialogue F) : DialogueEvent F → Option (Dialogue F)
  | .route msg candidates now draws =>
    some
      { quantum := s.quantum.map fun q => (q.route msg candidates now draws).2
        routed := msg :: s.routed }
  | .postDaemon event now =>
    some { s with quantum := (quantumFeedbackHandler s.quantum event now).2.2 }
  | .postApi event now =>
    some { s with quantum := (quantumFeedback s.quantum event now).2.2 }

/-- The feedback that an event posts. -/
def feedbackOf : DialogueEvent F → Option FeedbackEvent
  | .route _ _ _ _ => none
  | .postDaemon event _ => some event
  | .postApi event _ => some event

/-- From `q` to `q'`, the endpoint has one more pull in the conversation, and
every other conversation is as it was. -/
structure CountsIn (q q' : QuantumRouter F) (conversationId : Uuid) (endpointId : String) :
    Prop where
  counted : (q'.state.stateOf conversationId endpointId).pulls =
    (q.state.stateOf conversationId endpointId).pulls + 1
  others : ∀ other, other ≠ conversationId → q'.state.get other = q.state.get other

/-- A feedback step counts in the conversation of each routed message that it
is about. -/
def Reaches (s : Dialogue F) (event : DialogueEvent F) : Prop :=
  ∀ feedback, feedbackOf event = some feedback →
    ∀ msg ∈ s.routed, msg.id = feedback.messageId →
      ∀ t q q', s.step event = some t → s.quantum = some q → t.quantum = some q' →
        CountsIn q q' msg.conversationId feedback.endpointId

/-- The condition on a step: the messages that its feedback is about carry one
id as message and as conversation. -/
def SameId (s : Dialogue F) (event : DialogueEvent F) : Prop :=
  ∀ feedback, feedbackOf event = some feedback →
    ∀ msg ∈ s.routed, msg.id = feedback.messageId → msg.conversationId = msg.id

/-- An observation counts in the conversation whose id it is given, and in no
other. -/
theorem countsIn_observe_iff (q : QuantumRouter F) (observed conversationId : Uuid)
    (endpointId : String) (success : Bool) (latencyMs : Nat) (now : Int) :
    CountsIn q (q.observe observed endpointId success latencyMs now).1 conversationId endpointId ↔
      conversationId = observed := by
  constructor
  · intro h
    by_contra hne
    have hcounted := h.counted
    rw [QuantumRouter.pulls_observe, if_neg (fun hboth => hne hboth.1)] at hcounted
    omega
  · rintro rfl
    refine { counted := ?_, others := ?_ }
    · rw [QuantumRouter.pulls_observe, if_pos ⟨rfl, rfl⟩]
    · intro other hother
      exact q.get_observe_of_ne endpointId success latencyMs now hother

/-- Both handlers observe under the message id. -/
theorem step_feedback {s : Dialogue F} {q : QuantumRouter F} {feedback : FeedbackEvent}
    (event : DialogueEvent F) (hq : s.quantum = some q)
    (hfeedback : feedbackOf event = some feedback) :
    ∃ now, s.step event = some { s with
      quantum := some (q.observe feedback.messageId feedback.endpointId feedback.success
        feedback.latencyMs now).1 } := by
  cases event with
  | route msg candidates now draws => simp [feedbackOf] at hfeedback
  | postDaemon event now =>
    obtain rfl : event = feedback := Option.some.inj hfeedback
    refine ⟨now, ?_⟩
    simp only [step, quantumFeedbackHandler, observeFeedback, hq]
  | postApi event now =>
    obtain rfl : event = feedback := Option.some.inj hfeedback
    refine ⟨now, ?_⟩
    simp only [step, quantumFeedback, observeFeedback, hq]

/-- The quantum router stays enabled. -/
theorem isSome_step {s t : Dialogue F} {event : DialogueEvent F}
    (h : s.quantum.isSome = true) (hstep : s.step event = some t) : t.quantum.isSome = true := by
  obtain ⟨q, hq⟩ := Option.isSome_iff_exists.mp h
  cases event with
  | route msg candidates now draws =>
    obtain rfl := Option.some.inj hstep
    simp [hq]
  | postDaemon event now =>
    obtain ⟨_, hnext⟩ := step_feedback (.postDaemon event now) hq rfl
    rw [hnext] at hstep
    obtain rfl := Option.some.inj hstep
    rfl
  | postApi event now =>
    obtain ⟨_, hnext⟩ := step_feedback (.postApi event now) hq rfl
    rw [hnext] at hstep
    obtain rfl := Option.some.inj hstep
    rfl

theorem reaches_iff_sameId_step {s : Dialogue F} (h : s.quantum.isSome = true)
    (event : DialogueEvent F) : s.Reaches event ↔ s.SameId event := by
  obtain ⟨q, hq⟩ := Option.isSome_iff_exists.mp h
  constructor
  · intro hreaches feedback hfeedback msg hmsg hid
    obtain ⟨now, hstep⟩ := step_feedback event hq hfeedback
    have hcounts := hreaches feedback hfeedback msg hmsg hid _ q _ hstep hq rfl
    rw [countsIn_observe_iff] at hcounts
    rw [hcounts, hid]
  · intro hsame feedback hfeedback msg hmsg hid t q₁ q₂ hstep hq₁ hq₂
    obtain ⟨now, hnext⟩ := step_feedback event hq hfeedback
    obtain rfl : q = q₁ := Option.some.inj (hq.symm.trans hq₁)
    rw [hnext] at hstep
    obtain rfl := Option.some.inj hstep
    obtain rfl := Option.some.inj hq₂
    rw [countsIn_observe_iff, hsame feedback hfeedback msg hmsg hid, hid]

/-- All along a run, feedback reaches the conversation of its message exactly
when every message that feedback is about has its own id as conversation
id. -/
theorem reaches_iff_sameId (config : QuantumConfig F) (events : List (DialogueEvent F)) :
    Guarded step Reaches (start config) events ↔ Guarded step SameId (start config) events :=
  guarded_congr (I := fun s => s.quantum.isSome = true) (fun _ _ _ h hstep => isSome_step h hstep)
    (fun _ event h => reaches_iff_sameId_step h event) rfl events

/-- A message in a conversation of its own, and feedback on it. -/
def lostFeedbackRun : List (DialogueEvent Float) :=
  [.route (.new "alice" "/ai/inference" "llm_request" 1 2 0) ["ep-a"] 0
      ⟨0.5, fun _ h => ⟨0, h⟩, fun _ => none⟩,
    .postDaemon ⟨1, "ep-a", true, 20⟩ 1]

/-- The feedback counts in a conversation that no message belongs to. -/
theorem feedback_lost :
    ¬ ∀ (config : QuantumConfig Float) (events : List (DialogueEvent Float)),
        Guarded step Reaches (start config) events := by
  intro h
  have hrun := h ⟨0.1, 0.1⟩ lostFeedbackRun
  obtain ⟨_, hpost⟩ := (guarded_cons rfl).mp hrun
  have hreaches := ((guarded_cons rfl).mp hpost).1
  have hsame := (reaches_iff_sameId_step rfl _).mp hreaches ⟨1, "ep-a", true, 20⟩ rfl
    (.new "alice" "/ai/inference" "llm_request" 1 2 0) List.mem_cons_self rfl
  exact absurd hsame (by decide)

end Dialogue

end Xfiles.Quantum
