import Xfiles.Net.Transport

/-!
# What channels carry

The journal of placements against the channels and the queue.

* `store_step` says that a step of the transport is a step of its queue, or leaves
  the queue alone.
* `Targets` says that a direct send goes to a connection of its agent.
* `Streams` says that a connection has carried what was placed in its channel,
  in that order: what its task wrote, followed by what is still in the buffer.
-/

namespace Xfiles.Net

open Xfiles.Queue Transition

namespace Transport

variable {M : Type*}

/-! ## The queue of a transport -/

/-- The store takes a step of its own, or none. -/
theorem store_step {s t : Transport M} {event : Event M} (hstep : s.step event = some t) :
    t.store = s.store ∨ ∃ label, s.store.step label = some t.store := by
  cases event with
  | upkeep label =>
    obtain ⟨_, store, hstore, rfl⟩ := step_upkeep hstep
    exact Or.inr ⟨label, hstore⟩
  | drain c call =>
    obtain ⟨agentId, _, hcall, rfl⟩ := step_drain hstep
    refine Or.inr ⟨.drain call agentId (fun _ => (s.channels c).isOpen), ?_⟩
    simp only [Store.step, hcall]
    rfl
  | enqueue d =>
    obtain ⟨agentId, msg, _, rfl⟩ := step_enqueue hstep
    exact Or.inr ⟨.enqueue agentId ⟨d, msg⟩, rfl⟩
  | _ => exact Or.inl (step_frame .store rfl hstep)

/-! ## Direct sends -/

/-- A dispatch that is about to send has a connection of its agent as
target. -/
def Targets (s : Transport M) : Prop :=
  ∀ d site a msg targetTx, s.dispatches d = some (.sending site a msg targetTx) →
    ∃ phase, s.connections targetTx = some ⟨a, phase⟩

/-- A dispatch comes to send by its lookup only. -/
theorem sending_step {s t : Transport M} {event : Event M} (hstep : s.step event = some t)
    {d : Nat} {site : Site} {a : String} {msg : M} {targetTx : ChannelId}
    (h : t.dispatches d = some (.sending site a msg targetTx)) :
    s.dispatches d = some (.sending site a msg targetTx) ∨
      s.agents.txOf a = some targetTx := by
  cases event with
  | lookup d' site' agentId msg' =>
    obtain ⟨_, rfl⟩ := step_lookup hstep
    by_cases hd : d = d'
    · subst hd
      right
      simp only [lookup, setDispatch_dispatches, Function.update_self, Option.some.injEq,
        afterLookup] at h
      split at h
      · rename_i target hget
        split at h
        · rename_i tx htx
          simp only [Progress.sending.injEq] at h
          obtain ⟨_, rfl, _, rfl⟩ := h
          simp [AgentRegistry.txOf, hget, htx]
        · split at h <;> simp at h
      · simp at h
    · left
      simpa [lookup, hd] using h
  | send d' =>
    obtain ⟨site', agentId, msg', tx, hprogress, rfl⟩ := step_send hstep
    left
    by_cases hd : d = d'
    · subst hd
      unfold send at h
      split at h
      · simp [sendDirect] at h
      · simp only [setDispatch_dispatches, Function.update_self, Option.some.injEq] at h
        split at h <;> simp at h
    · unfold send at h
      split at h <;> simpa [sendDirect, hd] using h
  | enqueue d' =>
    obtain ⟨agentId, msg', hprogress, rfl⟩ := step_enqueue hstep
    left
    by_cases hd : d = d'
    · subst hd
      simp [enqueue] at h
    · simpa [enqueue, hd] using h
  | _ =>
    have hsame : t.dispatches = s.dispatches := step_frame .dispatches rfl hstep
    rw [hsame] at h
    exact Or.inl h

theorem Targets.step {s t : Transport M} {event : Event M} (h : s.Targets) (howned : s.Owned)
    (hstep : s.step event = some t) : t.Targets := by
  intro d site a msg targetTx hsending
  have hconn : ∃ phase, s.connections targetTx = some ⟨a, phase⟩ := by
    rcases sending_step hstep hsending with hold | htx
    · exact h d site a msg targetTx hold
    · exact howned a targetTx htx
  obtain ⟨phase, hphase⟩ := hconn
  obtain ⟨phase', hphase', _⟩ := connections_step hstep hphase
  exact ⟨phase', hphase'⟩

/-! ## Streams -/

/-- What the connection has taken: written to its socket, then buffered. -/
def stream (s : Transport M) (c : ChannelId) : List (Parcel M) :=
  s.journal.written c ++ (s.channels c).buffer

/-- What was placed in the channel of the connection. -/
def carried (s : Transport M) (c : ChannelId) : List (Parcel M) :=
  match s.connections c with
  | some conn => ((s.journal.placed conn.agentId).filter (·.1 = c)).map (·.2)
  | none => []

/-- What was placed for an agent went to a connection of the agent, and a
connection has taken what was placed in its channel, in that order. -/
structure Streams (s : Transport M) : Prop where
  owned : ∀ a c parcel, (c, parcel) ∈ s.journal.placed a →
    ∃ phase, s.connections c = some ⟨a, phase⟩
  stream_eq : ∀ c, s.stream c = s.carried c

/-- The parcels go to the back of the channel `c` of the agent. -/
structure Places (s t : Transport M) (a : String) (c : ChannelId)
    (parcels : List (Parcel M)) : Prop where
  connection : ∃ phase, s.connections c = some ⟨a, phase⟩
  placed_self : t.journal.placed a =
    s.journal.placed a ++ parcels.map fun parcel => (c, parcel)
  placed_of_ne : ∀ other, other ≠ a → t.journal.placed other = s.journal.placed other
  stream_self : t.stream c = s.stream c ++ parcels
  stream_of_ne : ∀ other, other ≠ c → t.stream other = s.stream other

/-- A step places nothing, or it places parcels in one channel. -/
theorem placement_step {s t : Transport M} {event : Event M} (htargets : s.Targets)
    (hstep : s.step event = some t) :
    (t.journal.placed = s.journal.placed ∧
        ∀ c, s.connections c ≠ none ∨ s.stream c = [] → t.stream c = s.stream c) ∨
      ∃ a c parcels, Places s t a c parcels := by
  cases event with
  | connect c agentId =>
    obtain ⟨hnone, rfl⟩ := step_connect hstep
    refine Or.inl ⟨rfl, fun other hother => ?_⟩
    by_cases heq : other = c
    · subst heq
      have hempty : s.stream other = [] := by
        rcases hother with hsome | hempty
        · exact absurd hnone hsome
        · exact hempty
      rw [hempty]
      simp only [stream, List.append_eq_nil_iff] at hempty
      simp [stream, connect, hempty.1]
    · simp [stream, connect, heq]
  | drain c call =>
    obtain ⟨agentId, hconn, _, rfl⟩ := step_drain hstep
    right
    refine ⟨agentId, c, s.drained c agentId,
      { connection := ⟨_, hconn⟩, placed_self := ?_, placed_of_ne := fun other hother => ?_,
        stream_self := ?_, stream_of_ne := fun other hother => ?_ }⟩
    · simp [drain, Journal.place]
    · simp [drain, Journal.place, hother]
    · simp [stream, drain, Journal.place]
    · simp [stream, drain, Journal.place, hother]
  | write c =>
    -- the front of the buffer moves to what is written
    obtain ⟨parcel, rest, hchannel, rfl⟩ := step_write hstep
    refine Or.inl ⟨rfl, fun other _ => ?_⟩
    by_cases heq : other = c
    · subst heq
      simp [stream, write, hchannel]
    · simp [stream, write, heq]
  | close c =>
    obtain ⟨_, rfl⟩ := step_close hstep
    refine Or.inl ⟨rfl, fun other _ => ?_⟩
    by_cases heq : other = c
    · subst heq
      simp [stream, close]
    · simp [stream, close, heq]
  | send d =>
    obtain ⟨site, agentId, msg, targetTx, hprogress, rfl⟩ := step_send hstep
    unfold send
    split
    · right
      refine ⟨agentId, targetTx, [⟨d, msg⟩],
        { connection := htargets d _ _ _ _ hprogress, placed_self := ?_,
          placed_of_ne := fun other hother => ?_, stream_self := ?_,
          stream_of_ne := fun other hother => ?_ }⟩
      · simp [sendDirect, Journal.place]
      · simp [sendDirect, Journal.place, hother]
      · simp [stream, sendDirect, Journal.place]
      · simp [stream, sendDirect, Journal.place, hother]
    · exact Or.inl ⟨rfl, fun _ _ => rfl⟩
  | _ =>
    have hchannels : t.channels = s.channels := step_frame .channels rfl hstep
    have hwritten : t.journal.written = s.journal.written := step_frame .written rfl hstep
    refine Or.inl ⟨step_frame .placed rfl hstep, fun c _ => ?_⟩
    rw [stream, stream, hchannels, hwritten]

/-- What was placed in a channel that no agent uses. -/
theorem carried_eq_nil {s : Transport M} {c : ChannelId}
    (h : ∀ a parcel, (c, parcel) ∉ s.journal.placed a) : s.carried c = [] := by
  unfold carried
  split
  · rename_i conn _
    rw [List.map_eq_nil_iff, List.filter_eq_nil_iff]
    rintro ⟨other, parcel⟩ hmem
    simp only [decide_eq_true_eq]
    rintro rfl
    exact h conn.agentId parcel hmem
  · rfl

theorem carried_of_connection {s : Transport M} {c : ChannelId} {a : String} {phase : Phase}
    (h : s.connections c = some ⟨a, phase⟩) :
    s.carried c = ((s.journal.placed a).filter (·.1 = c)).map (·.2) := by
  simp [carried, h]

theorem Streams.step {s t : Transport M} {event : Event M} (h : s.Streams)
    (htargets : s.Targets) (hstep : s.step event = some t) : t.Streams := by
  have hunused : ∀ c, s.connections c = none → ∀ a parcel, (c, parcel) ∉ s.journal.placed a := by
    intro c hnone a parcel hmem
    obtain ⟨phase, hphase⟩ := h.owned a c parcel hmem
    rw [hnone] at hphase
    simp at hphase
  rcases placement_step htargets hstep with ⟨hplaced, hstream⟩ | ⟨a, c, parcels, hplaces⟩
  · constructor
    · intro a c parcel hmem
      rw [hplaced] at hmem
      obtain ⟨phase, hphase⟩ := h.owned a c parcel hmem
      obtain ⟨phase', hphase', _⟩ := connections_step hstep hphase
      exact ⟨phase', hphase'⟩
    · intro c
      cases hconn : s.connections c with
      | none =>
        have hempty : s.stream c = [] := by
          rw [h.stream_eq, carried_eq_nil (hunused c hconn)]
        rw [hstream c (Or.inr hempty), hempty, carried_eq_nil]
        rw [hplaced]
        exact hunused c hconn
      | some conn =>
        obtain ⟨phase', hphase', _⟩ := connections_step hstep hconn
        have hsome : s.connections c ≠ none := by simp [hconn]
        rw [hstream c (Or.inl hsome), h.stream_eq, carried_of_connection hconn,
          carried_of_connection hphase', hplaced]
  · obtain ⟨phase, hphase⟩ := hplaces.connection
    have hmem_old : ∀ a' c' parcel, (c', parcel) ∈ t.journal.placed a' → c' ≠ c →
        (c', parcel) ∈ s.journal.placed a' := by
      intro a' c' parcel hmem hne
      by_cases ha : a' = a
      · subst ha
        rw [hplaces.placed_self, List.mem_append] at hmem
        rcases hmem with hold | hnew
        · exact hold
        · obtain ⟨parcel', _, heq⟩ := List.mem_map.mp hnew
          simp only [Prod.mk.injEq] at heq
          exact absurd heq.1.symm hne
      · rwa [hplaces.placed_of_ne a' ha] at hmem
    constructor
    · intro a' c' parcel hmem
      have hconn : ∃ phase, s.connections c' = some ⟨a', phase⟩ := by
        by_cases hc : c' = c
        · by_cases ha : a' = a
          · rw [hc, ha]
            exact hplaces.connection
          · rw [hplaces.placed_of_ne a' ha] at hmem
            exact h.owned a' c' parcel hmem
        · exact h.owned a' c' parcel (hmem_old a' c' parcel hmem hc)
      obtain ⟨phase', hphase'⟩ := hconn
      obtain ⟨phase'', hphase'', _⟩ := connections_step hstep hphase'
      exact ⟨phase'', hphase''⟩
    · intro c'
      by_cases hc : c' = c
      · subst hc
        obtain ⟨phase', hphase', _⟩ := connections_step hstep hphase
        rw [hplaces.stream_self, h.stream_eq, carried_of_connection hphase,
          carried_of_connection hphase', hplaces.placed_self, List.filter_append,
          List.map_append]
        simp [List.filter_map, Function.comp_def]
      · rw [hplaces.stream_of_ne c' hc, h.stream_eq]
        cases hconn : s.connections c' with
        | none =>
          rw [carried_eq_nil (hunused c' hconn), carried_eq_nil]
          intro a' parcel hmem
          exact hunused c' hconn a' parcel (hmem_old a' c' parcel hmem hc)
        | some conn =>
          obtain ⟨phase', hphase', _⟩ := connections_step hstep hconn
          rw [carried_of_connection hconn, carried_of_connection hphase']
          by_cases ha : conn.agentId = a
          · rw [ha, hplaces.placed_self, List.filter_append, List.map_append]
            simp [List.filter_map, Function.comp_def, Ne.symm hc]
          · rw [hplaces.placed_of_ne _ ha]

theorem targets_start (now : Int) : (start now : Transport M).Targets := by
  intro d site a msg targetTx h
  simp [start] at h

theorem streams_start (now : Int) : (start now : Transport M).Streams where
  owned := by
    intro a c parcel hmem
    simp [start] at hmem
  stream_eq := by
    intro c
    simp [stream, carried, start]

end Transport

end Xfiles.Net
