import Mathlib.Data.List.Induction
import Xfiles.Net.Disconnect

/-!
# Where messages come from and go to

The integrity of delivery, in every run of the transport and whatever else happens in it:
what is written to a socket was submitted for the agent of that socket, as it is, and is
written once.

* `happen` adds what comes from outside to the steps of the transport: an agent may be
  unregistered while its sockets are open.
* `Submitted` are the dispatches of a run.  `Origin` says that everything under way, in a
  channel or in a queue goes back to one.
* `Origin.step` is the step.  `delivery_integrity` puts it together with the places of
  the parcels.
-/

namespace Xfiles.Net

open Xfiles.Queue Transition

namespace Transport

variable {M : Type*}

/-- A step of the transport, or an agent that `unregister_agent` of `api.rs` or the cleanup
of stale agents takes out of the registry. -/
inductive Happening (M : Type*) where
  | own (event : Event M)
  | forget (agentId : String)

def forget (s : Transport M) (agentId : String) : Transport M :=
  { s with agents := s.agents.unregister agentId }

def happen (s : Transport M) : Happening M → Option (Transport M)
  | .own event => s.step event
  | .forget agentId => some (s.forget agentId)

/-- A dispatch of the message to the agent. -/
def Submitted (events : List (Happening M)) (d : Nat) (a : String) (msg : M) : Prop :=
  ∃ site, .own (.lookup d site a msg) ∈ events

/-- What a dispatch under way carries, and for whom. -/
def carries : Progress M → Option (String × M)
  | .sending _ a msg _ => some (a, msg)
  | .queueing a msg => some (a, msg)
  | .done => none

/-- The dispatch carries the message to the agent. -/
def Carries (s : Transport M) (d : Nat) (a : String) (msg : M) : Prop :=
  (s.dispatches d).bind carries = some (a, msg)

/-! ## What a step brings in -/

theorem carries_afterLookup {agents : AgentRegistry} {site : Site} {a a' : String} {msg msg' : M}
    (h : carries (afterLookup agents site a msg) = some (a', msg')) : a = a' ∧ msg = msg' := by
  unfold afterLookup at h
  split at h
  · split at h
    · simpa [carries] using h
    · split at h
      · simpa [carries] using h
      · exact absurd h (by simp [carries])
  · simpa [carries] using h

/-- A dispatch carries what it carried, or it begins. -/
theorem carries_step {s t : Transport M} {event : Event M} (hstep : s.step event = some t)
    {d : Nat} {a : String} {msg : M} (h : t.Carries d a msg) :
    s.Carries d a msg ∨ ∃ site, event = .lookup d site a msg := by
  cases event with
  | lookup d' site agentId msg' =>
    obtain ⟨_, rfl⟩ := step_lookup hstep
    by_cases hd : d = d'
    · subst hd
      have hself : carries (afterLookup s.agents site agentId msg') = some (a, msg) := by
        simpa [Carries, lookup] using h
      obtain ⟨rfl, rfl⟩ := carries_afterLookup hself
      exact Or.inr ⟨site, rfl⟩
    · left
      simpa [Carries, lookup, hd] using h
  | send d' =>
    obtain ⟨site, agentId, msg', targetTx, hprogress, rfl⟩ := step_send hstep
    left
    unfold send at h
    by_cases hd : d = d'
    · subst hd
      split at h
      · exact absurd h (by simp [Carries, sendDirect, carries])
      · split at h
        · -- the send failed, and the message goes to the queue
          simpa [Carries, hprogress, carries] using h
        · exact absurd h (by simp [Carries, carries])
    · split at h
      · simpa [Carries, sendDirect, hd] using h
      · simpa [Carries, hd] using h
  | enqueue d' =>
    obtain ⟨agentId, msg', hprogress, rfl⟩ := step_enqueue hstep
    left
    by_cases hd : d = d'
    · subst hd
      exact absurd h (by simp [Carries, enqueue, carries])
    · simpa [Carries, enqueue, hd] using h
  | _ =>
    left
    have hsame : t.dispatches = s.dispatches := step_frame .dispatches rfl hstep
    rwa [Carries, hsame] at h

/-- A dispatch that has begun stays so. -/
theorem dispatches_step {s t : Transport M} {event : Event M} (hstep : s.step event = some t)
    {d : Nat} (h : s.dispatches d ≠ none ∨ ∃ site a msg, event = .lookup d site a msg) :
    t.dispatches d ≠ none := by
  have hset : ∀ (u : Transport M) (d' : Nat) progress,
      u.dispatches d ≠ none ∨ d = d' → (u.setDispatch d' progress).dispatches d ≠ none := by
    intro u d' progress hu
    by_cases hd : d = d'
    · simp [hd]
    · rcases hu with hsome | heq
      · simpa [hd] using hsome
      · exact absurd heq hd
  cases event with
  | lookup d' site agentId msg =>
    obtain ⟨_, rfl⟩ := step_lookup hstep
    refine hset _ d' _ (h.imp_right fun hevent => ?_)
    obtain ⟨_, _, _, heq⟩ := hevent
    injection heq with hd
    exact hd.symm
  | send d' =>
    obtain ⟨site, agentId, msg, targetTx, _, rfl⟩ := step_send hstep
    have hsome : s.dispatches d ≠ none := h.resolve_right (by simp)
    unfold send
    split
    · exact hset _ d' _ (Or.inl hsome)
    · exact hset _ d' _ (Or.inl hsome)
  | enqueue d' =>
    obtain ⟨agentId, msg, _, rfl⟩ := step_enqueue hstep
    exact hset _ d' _ (Or.inl (h.resolve_right (by simp)))
  | _ =>
    have hsame : t.dispatches = s.dispatches := step_frame .dispatches rfl hstep
    rw [hsame]
    exact h.resolve_right (by simp)

/-- What is placed was about to be sent, or it waited and a drain of the agent took it. -/
theorem placed_step {s t : Transport M} {event : Event M} (hstep : s.step event = some t)
    {a : String} {c : ChannelId} {parcel : Parcel M} (h : (c, parcel) ∈ t.journal.placed a) :
    (c, parcel) ∈ s.journal.placed a ∨
      (parcel ∈ s.waiting a ∧ ∃ call, event = .drain c call ∧ s.Owns a c) ∨
      ∃ site, s.dispatches parcel.dispatch = some (.sending site a parcel.msg c) := by
  cases event with
  | drain c' call =>
    obtain ⟨agentId, hconn, _, rfl⟩ := step_drain hstep
    by_cases ha : a = agentId
    · subst ha
      have hsplit : (c, parcel) ∈ s.journal.placed a ∨
          (c, parcel) ∈ (s.drained c' a).map fun p => (c', p) := by
        simpa [drain, Journal.place] using h
      refine hsplit.imp_right fun hnew => Or.inl ?_
      obtain ⟨parcel', hmem, heq⟩ := List.mem_map.mp hnew
      obtain ⟨rfl, rfl⟩ := Prod.mk.inj heq
      refine ⟨?_, call, rfl, _, hconn⟩
      have hpops := popLoop_append (fun _ => (s.channels c').isOpen) (s.store.queues.pending a)
      rw [waiting, ← hpops, List.map_append]
      exact List.mem_append_left _ hmem
    · left
      simpa [drain, Journal.place, ha] using h
  | send d =>
    obtain ⟨site, agentId, msg, targetTx, hprogress, rfl⟩ := step_send hstep
    unfold send at h
    split at h
    · by_cases ha : a = agentId
      · subst ha
        have hsplit : (c, parcel) ∈ s.journal.placed a ∨ c = targetTx ∧ parcel = ⟨d, msg⟩ := by
          simpa [sendDirect, Journal.place] using h
        refine hsplit.imp_right fun hnew => Or.inr ?_
        obtain ⟨rfl, rfl⟩ := hnew
        exact ⟨site, hprogress⟩
      · left
        simpa [sendDirect, Journal.place, ha] using h
    · exact Or.inl h
  | _ =>
    have hsame : t.journal.placed = s.journal.placed := step_frame .placed rfl hstep
    rw [hsame] at h
    exact Or.inl h

/-- What waits was carried by its dispatch, or it waited before. -/
theorem waiting_step {s t : Transport M} {event : Event M} (hstep : s.step event = some t)
    {a : String} {parcel : Parcel M} (h : parcel ∈ t.waiting a) :
    parcel ∈ s.waiting a ∨ s.Carries parcel.dispatch a parcel.msg := by
  cases event with
  | upkeep label =>
    obtain ⟨hlabel, store, hstore, rfl⟩ := step_upkeep hstep
    exact Or.inl (((Store.pending_upkeep hlabel hstore a).map _).subset h)
  | drain c call =>
    obtain ⟨agentId, _, _, rfl⟩ := step_drain hstep
    left
    by_cases ha : a = agentId
    · subst ha
      have hpops := popLoop_append (fun _ => (s.channels c).isOpen) (s.store.queues.pending a)
      simp only [waiting, drain, setPhase_store, Store.pending_drain_self] at h
      rw [waiting, ← hpops, List.map_append]
      exact List.mem_append_right _ h
    · simpa [waiting, drain, Store.pending_drain_of_ne s.store call _ ha] using h
  | enqueue d =>
    obtain ⟨agentId, msg, hprogress, rfl⟩ := step_enqueue hstep
    by_cases ha : a = agentId
    · subst ha
      have hsplit : parcel ∈ s.waiting a ∨ parcel = ⟨d, msg⟩ := by
        simpa [waiting, enqueue, Store.enqueue, Store.setHistory, or_comm] using h
      refine hsplit.imp_right fun hnew => ?_
      subst hnew
      rw [Carries, hprogress]
      rfl
    · left
      simpa [waiting, enqueue, Store.enqueue, Store.setHistory,
        MessageQueue.pending_enqueue_of_ne _ _ _ ha] using h
  | _ =>
    have hsame : t.store = s.store := step_frame .store rfl hstep
    rw [waiting, hsame] at h
    exact Or.inl h

/-! ## The origin of everything -/

/-- Everything goes back to a dispatch, and a dispatch begins once. -/
structure Origin (events : List (Happening M)) (s : Transport M) : Prop where
  carries : ∀ d a msg, s.Carries d a msg → Submitted events d a msg
  placed : ∀ a c parcel, (c, parcel) ∈ s.journal.placed a →
    Submitted events parcel.dispatch a parcel.msg
  waiting : ∀ a, ∀ parcel ∈ s.waiting a, Submitted events parcel.dispatch a parcel.msg
  begun : ∀ d a msg, Submitted events d a msg → s.dispatches d ≠ none
  unique : ∀ d a msg a' msg', Submitted events d a msg → Submitted events d a' msg' →
    a = a' ∧ msg = msg'

theorem submitted_concat {events : List (Happening M)} {event : Event M} {d : Nat} {a : String}
    {msg : M} : Submitted (events ++ [.own event]) d a msg ↔
      Submitted events d a msg ∨ ∃ site, event = .lookup d site a msg := by
  simp [Submitted, exists_or, eq_comm]

theorem submitted_forget {events : List (Happening M)} {agentId : String} {d : Nat} {a : String}
    {msg : M} : Submitted (events ++ [.forget agentId]) d a msg ↔ Submitted events d a msg := by
  simp [Submitted]

theorem Origin.forget {s : Transport M} {events : List (Happening M)} (h : Origin events s)
    (agentId : String) : Origin (events ++ [.forget agentId]) (s.forget agentId) where
  carries d a msg hcarries := submitted_forget.mpr (h.carries d a msg hcarries)
  placed a c parcel hmem := submitted_forget.mpr (h.placed a c parcel hmem)
  waiting a parcel hmem := submitted_forget.mpr (h.waiting a parcel hmem)
  begun d a msg hsubmitted := h.begun d a msg (submitted_forget.mp hsubmitted)
  unique d a msg a' msg' hfirst hsecond :=
    h.unique d a msg a' msg' (submitted_forget.mp hfirst) (submitted_forget.mp hsecond)

theorem Origin.step {s t : Transport M} {events : List (Happening M)} {event : Event M}
    (h : Origin events s) (hstep : s.step event = some t) :
    Origin (events ++ [.own event]) t where
  carries d a msg hcarries :=
    submitted_concat.mpr ((carries_step hstep hcarries).imp_left (h.carries d a msg))
  placed a c parcel hmem := by
    refine submitted_concat.mpr (Or.inl ?_)
    rcases placed_step hstep hmem with hplaced | ⟨hwaits, _⟩ | ⟨site, hsending⟩
    · exact h.placed a c parcel hplaced
    · exact h.waiting a parcel hwaits
    · refine h.carries _ _ _ ?_
      rw [Carries, hsending]
      rfl
  waiting a parcel hmem := by
    refine submitted_concat.mpr (Or.inl ?_)
    rcases waiting_step hstep hmem with hwaits | hcarries
    · exact h.waiting a parcel hwaits
    · exact h.carries _ _ _ hcarries
  begun d a msg hsubmitted := by
    refine dispatches_step hstep ((submitted_concat.mp hsubmitted).imp (h.begun d a msg) ?_)
    intro ⟨site, hevent⟩
    exact ⟨site, a, msg, hevent⟩
  unique d a msg a' msg' hfirst hsecond := by
    have hnew : ∀ {a : String} {msg : M}, (∃ site, event = .lookup d site a msg) →
        s.dispatches d = none := by
      intro a msg ⟨site, hevent⟩
      subst hevent
      exact (step_lookup hstep).1
    rcases submitted_concat.mp hfirst with hold | ⟨site, hevent⟩
    · rcases submitted_concat.mp hsecond with hold' | hbegins
      · exact h.unique d a msg a' msg' hold hold'
      · exact absurd (hnew hbegins) (h.begun d a msg hold)
    · rcases submitted_concat.mp hsecond with hold' | ⟨site', hevent'⟩
      · exact absurd (hnew ⟨site, hevent⟩) (h.begun d a' msg' hold')
      · rw [hevent] at hevent'
        injection hevent' with _ _ ha hmsg
        exact ⟨ha, hmsg⟩

theorem origin_start (now : Int) : Origin [] (start now : Transport M) where
  carries d a msg h := absurd h (by simp [Carries, start])
  placed a c parcel h := absurd h (by simp [start])
  waiting a parcel h := absurd h (by simp [Transport.waiting, start, Store.start])
  begun d a msg h := absurd h (by simp [Submitted])
  unique d a msg a' msg' h := absurd h (by simp [Submitted])

theorem origin_of_run {now : Int} {events : List (Happening M)} {s : Transport M}
    (hrun : run happen (start now) events = some s) : Origin events s := by
  induction events using List.reverseRecOn generalizing s with
  | nil =>
    obtain rfl := Option.some.inj hrun
    exact origin_start now
  | append_singleton events event ih =>
    obtain ⟨t, hbefore, hstep⟩ := run_concat_eq_some.mp hrun
    cases event with
    | own event => exact (ih hbefore).step hstep
    | forget agentId =>
      obtain rfl := Option.some.inj hstep
      exact (ih hbefore).forget agentId

/-! ## Delivery -/

theorem Consistent.owns_of_written {s : Transport M} (h : s.Consistent) {c : ChannelId}
    {parcel : Parcel M} (hmem : parcel ∈ s.stream c) : ∃ a, s.Owns a c := by
  rw [h.streams.stream_eq, carried] at hmem
  cases hconn : s.connections c with
  | none =>
    rw [hconn] at hmem
    exact absurd hmem List.not_mem_nil
  | some conn => exact ⟨conn.agentId, conn.phase, hconn⟩

/-- The channel of an agent is that of a connection of its own, as long as there is one. -/
theorem Consistent.forget {s : Transport M} (h : s.Consistent) (agentId : String) :
    (s.forget agentId).Consistent where
  owned := by
    intro a c htx
    by_cases ha : a = agentId
    · subst ha
      have hnone : (s.forget a).agents.txOf a = none := s.agents.txOf_unregister_self a
      rw [hnone] at htx
      exact absurd htx (by simp)
    · exact h.owned a c ((s.agents.txOf_unregister_of_ne ha).symm.trans htx)
  targets := h.targets
  streams := ⟨h.streams.owned, h.streams.stream_eq⟩
  ordered := ⟨h.ordered.nodup, h.ordered.done, h.ordered.irrefl, h.ordered.doneBefore_done,
    h.ordered.sent_done, h.ordered.overtaken, h.ordered.behind⟩
  unique := ⟨h.unique.nodup, h.unique.done, h.unique.sent, h.unique.placed⟩
  accounted := h.accounted
  clockRead := h.clockRead

theorem consistent_of_run {now : Int} {events : List (Happening M)} {s : Transport M}
    (hrun : run happen (start now) events = some s) : s.Consistent := by
  refine invariant_of_run (fun s event t hs hstep => ?_) (consistent_start now) hrun
  cases event with
  | own event => exact hs.step hstep
  | forget agentId =>
    obtain rfl := Option.some.inj hstep
    exact hs.forget agentId

/-- What a socket was sent was placed in its channel for its agent. -/
theorem Consistent.placed_of_written {s : Transport M} (h : s.Consistent) {c : ChannelId}
    {parcel : Parcel M} (hwritten : parcel ∈ s.journal.written c) :
    ∃ a, s.Owns a c ∧ (c, parcel) ∈ s.journal.placed a := by
  have hstream : parcel ∈ s.stream c := List.mem_append_left _ hwritten
  obtain ⟨a, howns⟩ := h.owns_of_written hstream
  exact ⟨a, howns, h.mem_placed howns hstream⟩

/-- **Integrity of delivery.** In every run, what a socket was sent was dispatched to the
agent of the socket, by the one dispatch of its number and with this content.  No dispatch
is sent to a socket twice or to two sockets, and what was sent does not wait any more. -/
theorem delivery_integrity (now : Int) (events : List (Happening M)) (s : Transport M)
    (hrun : run happen (start now) events = some s) :
    (∀ c, ∀ parcel ∈ s.journal.written c, ∃ a, s.Owns a c ∧
      Submitted events parcel.dispatch a parcel.msg ∧
      (∀ a' msg, Submitted events parcel.dispatch a' msg → a' = a ∧ msg = parcel.msg) ∧
      ∀ a', parcel ∉ s.waiting a') ∧
    (∀ c, ((s.journal.written c).map Parcel.dispatch).Nodup) ∧
    ∀ c c', ∀ parcel ∈ s.journal.written c, ∀ parcel' ∈ s.journal.written c',
      parcel.dispatch = parcel'.dispatch → c = c' ∧ parcel = parcel' := by
  have horigin := origin_of_run hrun
  have hconsistent := consistent_of_run hrun
  have hplaced : ∀ c, ∀ parcel ∈ s.journal.written c,
      ∃ a, s.Owns a c ∧ (c, parcel) ∈ s.journal.placed a :=
    fun c parcel hwritten => hconsistent.placed_of_written hwritten
  refine ⟨fun c parcel hwritten => ?_, fun c => ?_, ?_⟩
  · obtain ⟨a, howns, hmem⟩ := hplaced c parcel hwritten
    have hsubmitted := horigin.placed a c parcel hmem
    have hone : ∀ a' msg, Submitted events parcel.dispatch a' msg → a' = a ∧ msg = parcel.msg :=
      fun a' msg hother => horigin.unique _ a' msg a parcel.msg hother hsubmitted
    refine ⟨a, howns, hsubmitted, hone, fun a' hwaits => ?_⟩
    obtain ⟨rfl, _⟩ := hone a' parcel.msg (horigin.waiting a' parcel hwaits)
    exact hconsistent.notMem_waiting hmem hwaits
  · cases hconn : s.connections c with
    | none =>
      have hnil : s.journal.written c = [] := by
        refine List.eq_nil_iff_forall_not_mem.mpr fun parcel hwritten => ?_
        obtain ⟨a, ⟨phase, hphase⟩, _⟩ := hplaced c parcel hwritten
        rw [hconn] at hphase
        exact absurd hphase (by simp)
      rw [hnil]
      exact List.nodup_nil
    | some conn =>
      have hnodup : ((s.stream c).map Parcel.dispatch).Nodup := by
        rw [hconsistent.streams.stream_eq, carried_of_connection hconn, List.map_map]
        exact (hconsistent.placedTags_nodup conn.agentId).sublist (List.filter_sublist.map _)
      rw [stream, List.map_append] at hnodup
      exact (List.nodup_append.mp hnodup).1
  · intro c c' parcel hwritten parcel' hwritten' hdispatch
    obtain ⟨a, howns, hmem⟩ := hplaced c parcel hwritten
    obtain ⟨a', howns', hmem'⟩ := hplaced c' parcel' hwritten'
    have hsubmitted := horigin.placed a c parcel hmem
    have hsubmitted' := horigin.placed a' c' parcel' hmem'
    rw [hdispatch] at hsubmitted
    obtain ⟨rfl, _⟩ := horigin.unique _ _ _ _ _ hsubmitted hsubmitted'
    have heq := List.inj_on_of_nodup_map (hconsistent.placedTags_nodup a) hmem hmem' hdispatch
    exact Prod.mk.inj heq

/-- A message that waits for its agent, and is written although the agent is forgotten. -/
def queuedRun : List (Happening String) :=
  [.own (.lookup 0 .handleOp "bob" "hi"), .own (.enqueue 0), .own (.connect 7 "bob"),
    .own (.hello 7), .own (.drain 7 0), .forget "bob", .own (.write 7)]

theorem delivery_integrity_queued :
    ∃ s, run happen (start 0) queuedRun = some s ∧ s.journal.written 7 = [⟨0, "hi"⟩] ∧
      ∃ a, s.Owns a 7 ∧ Submitted queuedRun 0 a "hi" := by
  obtain ⟨s, hrun, hwritten⟩ : ∃ s : Transport String, run happen (start 0) queuedRun = some s ∧
      s.journal.written 7 = [⟨0, "hi"⟩] := ⟨_, rfl, rfl⟩
  obtain ⟨hsent, _⟩ := delivery_integrity 0 queuedRun s hrun
  obtain ⟨a, howns, hsubmitted, _⟩ := hsent 7 ⟨0, "hi"⟩ (by rw [hwritten]; exact List.mem_cons_self)
  exact ⟨s, hrun, hwritten, a, howns, hsubmitted⟩

end Transport

end Xfiles.Net
