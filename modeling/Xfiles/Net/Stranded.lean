import Xfiles.Net.Transport

/-!
# Stranded messages

A dispatch looks the agent up and enqueues in two steps, and a Hello registers
and drains in two steps.  A message is stranded when it waits in the queue of
an agent that is registered with an open channel and has drained.

* `NoStranded` is the absence of stranded messages, and `EnqueuesInTime` is
  the condition on an enqueue: the agent is not registered with an open
  channel, or the Hello that registered it has yet to drain.
* `noStranded_iff_enqueuesInTime` says that a run strands no message exactly
  when each of its enqueues meets the condition.  `enqueue_after_drain` is a
  run in which a lookup precedes a Hello and the enqueue follows it.
-/

namespace Xfiles.Net

open Xfiles.Queue Transition

namespace Transport

variable {M : Type*}

/-- No message waits for an agent that is registered with an open channel,
unless the Hello of that channel has yet to drain. -/
def NoStranded (s : Transport M) : Prop :=
  ∀ a c, s.agents.txOf a = some c → (s.channels c).isOpen = true →
    s.connections c ≠ some ⟨a, .registered⟩ → s.waiting a = []

/-- The condition on a step: an enqueue finds its agent not registered with an
open channel, or its Hello about to drain. -/
def EnqueuesInTime (s : Transport M) : Event M → Prop
  | .enqueue d =>
    ∀ agentId msg, s.dispatches d = some (.queueing agentId msg) →
      ∀ c, s.agents.txOf agentId = some c → (s.channels c).isOpen = true →
        s.connections c = some ⟨agentId, .registered⟩
  | _ => True

/-- A step that opens no channel, registers nothing, drains nothing and takes
no message in. -/
theorem NoStranded.mono {s t : Transport M} (h : s.NoStranded)
    (htx : ∀ a c, t.agents.txOf a = some c → s.agents.txOf a = some c)
    (hopen : ∀ c, (t.channels c).isOpen = true → (s.channels c).isOpen = true)
    (hconn : ∀ a c, s.connections c = some ⟨a, .registered⟩ →
      t.connections c = some ⟨a, .registered⟩)
    (hwait : ∀ a, s.waiting a = [] → t.waiting a = []) : t.NoStranded := by
  intro a c hc ho hphase
  have hold : s.connections c ≠ some ⟨a, .registered⟩ := fun heq => hphase (hconn a c heq)
  exact hwait a (h a c (htx a c hc) (hopen c ho) hold)

/-- A connection that leaves another phase than `registered`. -/
theorem registered_setPhase {s : Transport M} {c : ChannelId} {agentId : String}
    {old new : Phase} (hold : s.connections c = some ⟨agentId, old⟩)
    (hne : old ≠ .registered) {a : String} {other : ChannelId}
    (h : s.connections other = some ⟨a, .registered⟩) :
    (s.setPhase c agentId new).connections other = some ⟨a, .registered⟩ := by
  have hother : other ≠ c := by
    rintro rfl
    rw [hold] at h
    simp only [Option.some.injEq, Connection.mk.injEq] at h
    exact hne h.2
  simpa [hother] using h

theorem waiting_eq_nil {s : Transport M} {a : String} :
    s.waiting a = [] ↔ s.store.queues.pending a = [] :=
  List.map_eq_nil_iff

theorem NoStranded.drain {s : Transport M} (h : s.NoStranded) (howned : s.Owned)
    {c : ChannelId} {agentId : String} (call : Nat)
    (hconn : s.connections c = some ⟨agentId, .registered⟩) :
    (s.drain c call agentId).NoStranded := by
  have hopens : ∀ other, ((s.drain c call agentId).channels other).isOpen =
      (s.channels other).isOpen := by
    intro other
    by_cases hother : other = c <;> simp [Transport.drain, hother]
  intro a other htx hopen hphase
  rw [hopens] at hopen
  rw [waiting_eq_nil]
  by_cases ha : a = agentId
  · subst ha
    simp only [Transport.drain, setPhase_store, Store.pending_drain_self]
    by_cases hother : other = c
    · -- the drain of the registered channel itself takes everything
      subst hother
      simp [hopen]
    · have hold : s.connections other ≠ some ⟨a, .registered⟩ := by
        simpa [Transport.drain, hother] using hphase
      have hempty := waiting_eq_nil.mp (h a other htx hopen hold)
      simp [hempty, popLoop]
  · have hother : other ≠ c := by
      rintro rfl
      exact ha (howned.eq htx hconn)
    have hold : s.connections other ≠ some ⟨a, .registered⟩ := by
      simpa [Transport.drain, hother] using hphase
    simp only [Transport.drain, setPhase_store, Store.pending_drain_of_ne s.store call _ ha]
    exact waiting_eq_nil.mp (h a other htx hopen hold)

theorem NoStranded.step {s t : Transport M} {event : Event M} (h : s.NoStranded)
    (howned : s.Owned) (hok : s.EnqueuesInTime event) (hstep : s.step event = some t) :
    t.NoStranded := by
  cases event with
  | upkeep label =>
    obtain ⟨hlabel, store, hstore, rfl⟩ := step_upkeep hstep
    refine h.mono (fun _ _ htx => htx) (fun _ ho => ho) (fun _ _ hc => hc) fun a hnil => ?_
    rw [waiting_eq_nil] at hnil ⊢
    have hsub := Store.pending_upkeep hlabel hstore a
    rw [hnil] at hsub
    exact List.sublist_nil.mp hsub
  | connect c agentId =>
    obtain ⟨hnone, rfl⟩ := step_connect hstep
    intro a other htx hopen hphase
    obtain ⟨phase, hother⟩ := howned a other htx
    have hne : other ≠ c := by
      rintro rfl
      rw [hnone] at hother
      simp at hother
    simp only [connect, setPhase_channels, setPhase_connections, Function.update_of_ne hne]
      at hopen hphase
    exact h a other htx hopen hphase
  | hello c =>
    obtain ⟨agentId, hconn, rfl⟩ := step_hello hstep
    intro a other htx hopen hphase
    by_cases ha : a = agentId
    · -- the Hello has yet to drain
      subst ha
      rw [hello_txOf_self] at htx
      obtain rfl := Option.some.inj htx
      simp [hello] at hphase
    · rw [hello_txOf_of_ne s c ha] at htx
      have hother : other ≠ c := by
        rintro rfl
        exact ha (howned.eq htx hconn)
      simp only [hello, setPhase_connections, Function.update_of_ne hother] at hphase
      exact h a other htx hopen hphase
  | drain c call =>
    obtain ⟨agentId, hconn, _, rfl⟩ := step_drain hstep
    exact h.drain howned call hconn
  | heartbeat c =>
    obtain ⟨agentId, _, rfl⟩ := step_heartbeat hstep
    exact h.mono (fun a _ htx => (s.agents.txOf_heartbeat agentId _ a).symm.trans htx)
      (fun _ ho => ho) (fun _ _ hc => hc) fun _ hnil => hnil
  | write c =>
    obtain ⟨parcel, rest, hchannel, rfl⟩ := step_write hstep
    refine h.mono (fun _ _ htx => htx) (fun other ho => ?_) (fun _ _ hc => hc) fun _ hnil => hnil
    by_cases hother : other = c
    · subst hother
      rw [hchannel]
    · simpa [write, hother] using ho
  | close c =>
    obtain ⟨_, rfl⟩ := step_close hstep
    refine h.mono (fun _ _ htx => htx) (fun other ho => ?_) (fun _ _ hc => hc) fun _ hnil => hnil
    by_cases hother : other = c
    · subst hother
      simp [close] at ho
    · simpa [close, hother] using ho
  | leave c =>
    obtain ⟨agentId, hconn, rfl⟩ := step_leave hstep
    exact h.mono (fun _ _ htx => htx) (fun _ ho => ho)
      (fun a other => registered_setPhase hconn (by simp)) fun _ hnil => hnil
  | teardown c =>
    obtain ⟨agentId, phase, hconn, _, rfl⟩ := step_teardown hstep
    exact h.mono (fun _ _ htx => htx) (fun _ ho => ho)
      (fun a other => registered_setPhase hconn (by simp)) fun _ hnil => hnil
  | unregister c =>
    obtain ⟨agentId, hconn, rfl⟩ := step_unregister hstep
    refine h.mono (fun a other htx => ?_) (fun _ ho => ho)
      (fun a other => registered_setPhase hconn (by simp)) fun _ hnil => hnil
    by_cases ha : a = agentId
    · subst ha
      simp at htx
    · simpa [AgentRegistry.txOf_unregister_of_ne s.agents ha] using htx
  | lookup d site agentId msg =>
    obtain ⟨_, rfl⟩ := step_lookup hstep
    exact h
  | send d =>
    have hagents : t.agents = s.agents := step_frame .agents rfl hstep
    have hconn : t.connections = s.connections := step_frame .connections rfl hstep
    have hstore : t.store = s.store := step_frame .store rfl hstep
    obtain ⟨site, agentId, msg, targetTx, _, rfl⟩ := step_send hstep
    refine h.mono (fun a c htx => ?_) (fun c hopen => ?_) (fun a c hphase => ?_) fun a hnil => ?_
    · rwa [hagents] at htx
    · rwa [send_isOpen] at hopen
    · rwa [hconn]
    · rwa [waiting, hstore]
  | enqueue d =>
    obtain ⟨agentId, msg, hprogress, rfl⟩ := step_enqueue hstep
    intro a c htx hopen hphase
    by_cases ha : a = agentId
    · subst ha
      exact absurd (hok a msg hprogress c htx hopen) hphase
    · rw [waiting_eq_nil]
      have hold := waiting_eq_nil.mp (h a c htx hopen hphase)
      simpa [enqueue, Store.enqueue, Store.setHistory,
        MessageQueue.pending_enqueue_of_ne s.store.queues _ _ ha] using hold

/-- An enqueue outside the condition strands its message. -/
theorem not_noStranded_of_step {s t : Transport M} {event : Event M}
    (hbad : ¬ s.EnqueuesInTime event) (hstep : s.step event = some t) : ¬ t.NoStranded := by
  intro h
  apply hbad
  cases event with
  | enqueue d =>
    obtain ⟨agentId, msg, hprogress, rfl⟩ := step_enqueue hstep
    intro a msg' hprogress' c htx hopen
    obtain ⟨rfl, rfl⟩ : agentId = a ∧ msg = msg' := by
      simpa using hprogress.symm.trans hprogress'
    by_contra hphase
    have hempty := waiting_eq_nil.mp (h agentId c htx hopen hphase)
    simp [enqueue, Store.enqueue, Store.setHistory] at hempty
  | _ => trivial

theorem noStranded_start (now : Int) : (start now : Transport M).NoStranded := by
  intro a c htx
  simp [start] at htx

/-- No dispatch to the agent and no Hello of the agent is in progress. -/
def Quiet (s : Transport M) (a : String) : Prop :=
  (∀ d site msg targetTx, s.dispatches d ≠ some (.sending site a msg targetTx)) ∧
    (∀ d msg, s.dispatches d ≠ some (.queueing a msg)) ∧
    ∀ c, s.connections c ≠ some ⟨a, .registered⟩

/-- A run strands no message exactly when each of its enqueues comes in time.
Then the queue of an agent that is registered with an open channel is empty
whenever no dispatch to it and no Hello of it is in progress. -/
theorem noStranded_iff_enqueuesInTime (now : Int) (events : List (Event M)) (s : Transport M)
    (hrun : run step (start now) events = some s) :
    (Always step NoStranded (start now : Transport M) events ↔
        Guarded step EnqueuesInTime (start now) events) ∧
      (Guarded step EnqueuesInTime (start now : Transport M) events →
        ∀ a c, s.Quiet a → s.agents.txOf a = some c → (s.channels c).isOpen = true →
          s.waiting a = []) := by
  have hstart : (start now : Transport M).Owned ∧ (start now : Transport M).NoStranded :=
    ⟨owned_start now, noStranded_start now⟩
  have hkeep : ∀ (u : Transport M) event v, u.Owned ∧ u.NoStranded →
      u.EnqueuesInTime event → u.step event = some v → v.Owned ∧ v.NoStranded := by
    intro u event v h hok hstep
    exact ⟨h.1.step hstep, h.2.step h.1 hok hstep⟩
  constructor
  · refine always_iff_guarded hkeep (fun u h => h.2) ?_ hstart hrun
    intro u event v _ hbad hstep
    exact not_noStranded_of_step hbad hstep
  · intro hok a c hquiet htx hopen
    have hinv := invariant_of_guarded hkeep hstart hok hrun
    exact hinv.2 a c htx hopen (hquiet.2.2 c)

/-- A dispatch finds `bob` absent, `bob` connects, registers and drains, and
the dispatch enqueues. -/
def strandRun : List (Event String) :=
  [.lookup 0 .handleOp "bob" "hi", .connect 0 "bob", .hello 0, .drain 0 0, .enqueue 0]

/-- The state that `strandRun` reaches. -/
def strandState : Transport String := (run step (start 0) strandRun).getD (start 0)

theorem strandRun_reaches : run step (start 0) strandRun = some strandState := rfl

theorem strandState_quiet : strandState.Quiet "bob" := by
  have hdispatches : ∀ d, strandState.dispatches d = none ∨
      strandState.dispatches d = some .done := by
    intro d
    by_cases hd : d = 0
    · subst hd
      exact Or.inr rfl
    · left
      have hupdates : strandState.dispatches = Function.update (Function.update (fun _ => none)
          0 (some (.queueing "bob" "hi"))) 0 (some .done) := rfl
      simp [hupdates, hd]
  refine ⟨fun d site msg targetTx => ?_, fun d msg => ?_, fun c => ?_⟩
  · rcases hdispatches d with h | h <;> simp [h]
  · rcases hdispatches d with h | h <;> simp [h]
  · by_cases hc : c = 0
    · subst hc
      decide
    · have hupdates : strandState.connections = Function.update (Function.update
          (Function.update (fun _ => none) 0 (some ⟨"bob", .serving⟩))
          0 (some ⟨"bob", .registered⟩)) 0 (some ⟨"bob", .serving⟩) := rfl
      simp [hupdates, hc]

/-- The message waits although `bob` is registered with an open channel and
nothing is in progress. -/
theorem enqueue_after_drain :
    ¬ ∀ (now : Int) (events : List (Event String)) (s : Transport String),
        run step (start now) events = some s →
        ∀ a c, s.Quiet a → s.agents.txOf a = some c → (s.channels c).isOpen = true →
          s.waiting a = [] := by
  intro h
  have hempty := h 0 strandRun strandState strandRun_reaches "bob" 0 strandState_quiet rfl rfl
  exact absurd hempty (by decide)

/-- The enqueue comes before `bob` registers. -/
def offlineRun : List (Event String) :=
  [.connect 0 "bob", .lookup 0 .handleOp "bob" "hi", .enqueue 0, .hello 0, .drain 0 0]

theorem offlineRun_enqueuesInTime : Guarded step EnqueuesInTime (start 0) offlineRun := by
  refine (guarded_cons rfl).mpr ⟨trivial, (guarded_cons rfl).mpr ⟨trivial, ?_⟩⟩
  refine (guarded_cons rfl).mpr ⟨?_, ?_⟩
  · intro agentId msg hprogress c htx
    have habsent : AgentRegistry.new.txOf agentId = some c := htx
    simp at habsent
  exact (guarded_cons rfl).mpr ⟨trivial, (guarded_cons rfl).mpr ⟨trivial, trivial⟩⟩

/-- Such a run strands nothing. -/
theorem noStranded_iff_enqueuesInTime_offline :
    Always step NoStranded (start 0 : Transport String) offlineRun :=
  (noStranded_iff_enqueuesInTime 0 offlineRun
    ((run step (start 0) offlineRun).getD (start 0)) rfl).1.mpr offlineRun_enqueuesInTime

end Transport

end Xfiles.Net
