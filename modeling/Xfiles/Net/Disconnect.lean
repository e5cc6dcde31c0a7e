import Xfiles.Net.Order

/-!
# Disconnects

A drain moves the whole backlog of an agent into the channel of a connection,
and when the forwarding task of the connection ends, what it has not written
goes away with the channel.

* `Unique` says that a parcel is in one place: what was placed in a channel is
  not also dropped from the queue.  It holds in every run.
* `Survives` says that every parcel that was accepted for an agent is written,
  waits, is in an open channel or was pruned for its age, and that the
  unwritten parcels of a closed channel wait again.
* `LosesNothing` is the condition on a step: a forwarding task that ends has an
  empty channel, and a final `remove` of `prune_old` finds an empty queue.
* `survives_iff_losesNothing` says that nothing is lost along a run exactly
  when every step meets it.  `disconnect_loses_backlog` is a run in which a
  forwarding task ends with a full channel.
-/

namespace Xfiles.Net

open Xfiles.Queue Transition
open scoped List

namespace Transport

variable {M : Type*}

/-! ## A parcel is in one place -/

/-- The queue history of the agent by dispatch. -/
def enqueuedTags (s : Transport M) (a : String) : List Nat :=
  (s.store.history a).enqueued.map (·.msg.dispatch)

def sentTags (s : Transport M) (a : String) : List Nat :=
  (s.store.history a).sent.map (·.msg.dispatch)

/-- Each dispatch enqueues once, and what went through the queue into a
channel is recorded as sent by the queue. -/
structure Unique (s : Transport M) : Prop where
  nodup : ∀ a, (s.enqueuedTags a).Nodup
  done : ∀ a, ∀ d ∈ s.enqueuedTags a, s.isDone d = true
  sent : ∀ a, ∀ d ∈ s.placedTags a, d ∈ s.enqueuedTags a → d ∈ s.sentTags a
  placed : ∀ a, ∀ qm ∈ (s.store.history a).sent,
    ∃ c, (c, qm.msg) ∈ s.journal.placed a

/-- A step that places nothing and neither fills nor drains a queue. -/
theorem Unique.congr {s t : Transport M} (h : s.Unique)
    (henqueued : ∀ a, (t.store.history a).enqueued = (s.store.history a).enqueued)
    (hsent : ∀ a, (t.store.history a).sent = (s.store.history a).sent)
    (hplaced : t.journal.placed = s.journal.placed)
    (hdone : ∀ d, s.isDone d = true → t.isDone d = true) : t.Unique where
  nodup := by
    intro a
    rw [enqueuedTags, henqueued]
    exact h.nodup a
  done := by
    intro a d hd
    rw [enqueuedTags, henqueued] at hd
    exact hdone d (h.done a d hd)
  sent := by
    intro a d hd hmem
    rw [placedTags, hplaced] at hd
    rw [enqueuedTags, henqueued] at hmem
    rw [sentTags, hsent]
    exact h.sent a d hd hmem
  placed := by
    intro a qm hqm
    rw [hsent] at hqm
    rw [hplaced]
    exact h.placed a qm hqm

theorem Unique.drain {s : Transport M} (h : s.Unique) (c : ChannelId) (call : Nat)
    (agentId : String) : (s.drain c call agentId).Unique := by
  have henqueued : ∀ a, ((s.drain c call agentId).store.history a).enqueued =
      (s.store.history a).enqueued := by
    intro a
    by_cases ha : a = agentId
    · subst ha
      simp [Transport.drain, Store.history_drain_self]
    · simp [Transport.drain, Store.history_drain_of_ne s.store call _ ha]
  have hself : ((s.drain c call agentId).store.history agentId).sent =
      (s.store.history agentId).sent ++
        (popLoop (fun _ => (s.channels c).isOpen) (s.store.queues.pending agentId)).1 := by
    simp [Transport.drain, Store.history_drain_self]
  have hother : ∀ a, a ≠ agentId → ((s.drain c call agentId).store.history a).sent =
      (s.store.history a).sent := by
    intro a ha
    simp [Transport.drain, Store.history_drain_of_ne s.store call _ ha]
  have hplaced_self : (s.drain c call agentId).journal.placed agentId =
      s.journal.placed agentId ++ (s.drained c agentId).map fun parcel => (c, parcel) := by
    simp [Transport.drain, Journal.place]
  have hplaced_other : ∀ a, a ≠ agentId →
      (s.drain c call agentId).journal.placed a = s.journal.placed a := by
    intro a ha
    simp [Transport.drain, Journal.place, ha]
  constructor
  · intro a
    rw [enqueuedTags, henqueued]
    exact h.nodup a
  · intro a d hd
    rw [enqueuedTags, henqueued] at hd
    exact h.done a d hd
  · intro a d hd hmem
    rw [enqueuedTags, henqueued] at hmem
    by_cases ha : a = agentId
    · subst ha
      rw [sentTags, hself, List.map_append, List.mem_append]
      rw [placedTags, hplaced_self, List.map_append, List.mem_append] at hd
      rcases hd with hold | hnew
      · exact Or.inl (h.sent a d hold hmem)
      · right
        simpa [drained, Function.comp_def] using hnew
    · rw [sentTags, hother a ha]
      rw [placedTags, hplaced_other a ha] at hd
      exact h.sent a d hd hmem
  · intro a qm hqm
    by_cases ha : a = agentId
    · subst ha
      rw [hself, List.mem_append] at hqm
      rw [hplaced_self]
      rcases hqm with hold | hnew
      · obtain ⟨c', hc'⟩ := h.placed a qm hold
        exact ⟨c', List.mem_append_left _ hc'⟩
      · refine ⟨c, List.mem_append_right _ (List.mem_map.mpr ⟨qm.msg, ?_, rfl⟩)⟩
        exact List.mem_map.mpr ⟨qm, hnew, rfl⟩
    · rw [hother a ha] at hqm
      rw [hplaced_other a ha]
      exact h.placed a qm hqm

theorem Unique.sendDirect {s : Transport M} (h : s.Unique) (a : String)
    (targetTx : ChannelId) {parcel : Parcel M} (hd : s.isDone parcel.dispatch = false) :
    (s.sendDirect a targetTx parcel).Unique := by
  have hfresh : ∀ other, parcel.dispatch ∉ s.enqueuedTags other := by
    intro other hmem
    exact absurd (h.done other _ hmem) (by simp [hd])
  constructor
  · exact h.nodup
  · intro other d hmem
    unfold Transport.sendDirect
    exact isDone_setDispatch_done _ (Or.inl (h.done other d hmem))
  · intro other d hplaced hmem
    by_cases ha : other = a
    · subst ha
      have hcases : d ∈ s.placedTags other ∨ d = parcel.dispatch := by
        simpa [placedTags, Transport.sendDirect, Journal.place] using hplaced
      rcases hcases with hold | heq
      · exact h.sent other d hold hmem
      · rw [heq] at hmem
        exact absurd hmem (hfresh other)
    · have hold : d ∈ s.placedTags other := by
        simpa [placedTags, Transport.sendDirect, Journal.place, ha] using hplaced
      exact h.sent other d hold hmem
  · intro other qm hqm
    obtain ⟨c, hc⟩ := h.placed other qm hqm
    by_cases ha : other = a
    · subst ha
      exact ⟨c, by simp [Transport.sendDirect, Journal.place, hc]⟩
    · exact ⟨c, by simpa [Transport.sendDirect, Journal.place, ha] using hc⟩

theorem Unique.enqueue {s : Transport M} (h : s.Unique) (hordered : s.Ordered) {d : Nat}
    (a : String) (msg : M) (hd : s.isDone d = false) : (s.enqueue d a msg).Unique := by
  have hfresh : ∀ other, d ∉ s.enqueuedTags other := by
    intro other hmem
    exact absurd (h.done other d hmem) (by simp [hd])
  have hself : (s.enqueue d a msg).enqueuedTags a = s.enqueuedTags a ++ [d] := by
    simp [enqueuedTags, Transport.enqueue, Store.enqueue, Store.setHistory]
  have hother : ∀ other, other ≠ a →
      (s.enqueue d a msg).enqueuedTags other = s.enqueuedTags other := by
    intro other ha
    simp [enqueuedTags, Transport.enqueue, Store.enqueue, Store.setHistory, ha]
  have hsent : ∀ other, ((s.enqueue d a msg).store.history other).sent =
      (s.store.history other).sent := by
    intro other
    by_cases ha : other = a <;>
      simp [Transport.enqueue, Store.enqueue, Store.setHistory, ha]
  have hdone : ∀ other, s.isDone other = true ∨ other = d →
      (s.enqueue d a msg).isDone other = true := fun other hor =>
    isDone_setDispatch_done { s with store := s.store.enqueue a ⟨d, msg⟩ } hor
  constructor
  · intro other
    by_cases ha : other = a
    · rw [ha, hself, ← List.concat_eq_append]
      exact (h.nodup a).concat (hfresh a)
    · rw [hother other ha]
      exact h.nodup other
  · intro other x hx
    apply hdone
    by_cases ha : other = a
    · rw [ha, hself, List.mem_append, List.mem_singleton] at hx
      exact hx.imp_left (h.done a x)
    · rw [hother other ha] at hx
      exact Or.inl (h.done other x hx)
  · intro other x hplaced hmem
    rw [sentTags, hsent]
    have hold : x ∈ s.placedTags other := hplaced
    by_cases ha : other = a
    · rw [ha, hself, List.mem_append, List.mem_singleton] at hmem
      rcases hmem with hmem' | heq
      · rw [ha] at hold ⊢
        exact h.sent a x hold hmem'
      · -- what was placed is done, so it is not enqueued now
        have hline : x ∈ s.line other := List.mem_append_left _ hold
        rw [heq] at hline
        exact absurd hline ((hordered.fresh hd).1 other)
    · rw [hother other ha] at hmem
      exact h.sent other x hold hmem
  · intro other qm hqm
    rw [hsent] at hqm
    exact h.placed other qm hqm

theorem Unique.step {s t : Transport M} {event : Event M} (h : s.Unique)
    (hordered : s.Ordered) (hstep : s.step event = some t) : t.Unique := by
  cases event with
  | upkeep label =>
    obtain ⟨hlabel, store, hstore, rfl⟩ := step_upkeep hstep
    exact h.congr (fun a => (Store.history_upkeep hlabel hstore a).1)
      (fun a => (Store.history_upkeep hlabel hstore a).2) rfl (fun _ hd => hd)
  | drain c call =>
    obtain ⟨agentId, _, _, rfl⟩ := step_drain hstep
    exact h.drain c call agentId
  | lookup d site agentId msg =>
    obtain ⟨hnone, rfl⟩ := step_lookup hstep
    have hd : s.isDone d = false := by simp [isDone, hnone]
    refine h.congr (fun _ => rfl) (fun _ => rfl) rfl fun other hother => ?_
    rw [lookup]
    exact isDone_setDispatch _ hd hother
  | send d =>
    obtain ⟨site, agentId, msg, targetTx, hprogress, rfl⟩ := step_send hstep
    have hd : s.isDone d = false := by simp [isDone, hprogress]
    unfold send
    split
    · exact h.sendDirect agentId targetTx hd
    · exact h.congr (fun _ => rfl) (fun _ => rfl) rfl
        fun other hother => isDone_setDispatch _ hd hother
  | enqueue d =>
    obtain ⟨agentId, msg, hprogress, rfl⟩ := step_enqueue hstep
    exact h.enqueue hordered agentId msg (by simp [isDone, hprogress])
  | _ =>
    have hstore : t.store = s.store := step_frame .store rfl hstep
    have hdone := isDone_eq_of_dispatches (step_frame .dispatches rfl hstep)
    exact h.congr (by simp [hstore]) (by simp [hstore]) (step_frame .placed rfl hstep)
      (by simp [hdone])

/-! ## What holds in every run -/

/-- The invariants that no condition is needed for. -/
structure Consistent (s : Transport M) : Prop where
  owned : s.Owned
  targets : s.Targets
  streams : s.Streams
  ordered : s.Ordered
  unique : s.Unique
  accounted : s.store.Accounted
  clockRead : s.store.ClockRead

theorem Consistent.step {s t : Transport M} {event : Event M} (h : s.Consistent)
    (hstep : s.step event = some t) : t.Consistent where
  owned := h.owned.step hstep
  targets := h.targets.step h.owned hstep
  streams := h.streams.step h.targets hstep
  ordered := h.ordered.step hstep
  unique := h.unique.step h.ordered hstep
  accounted := by
    rcases store_step hstep with hsame | ⟨label, hlabel⟩
    · rw [hsame]
      exact h.accounted
    · exact h.accounted.step h.clockRead hlabel
  clockRead := by
    rcases store_step hstep with hsame | ⟨label, hlabel⟩
    · rw [hsame]
      exact h.clockRead
    · exact h.clockRead.step hlabel

theorem consistent_start (now : Int) : (start now : Transport M).Consistent where
  owned := owned_start now
  targets := targets_start now
  streams := streams_start now
  ordered := ordered_start now
  unique :=
    { nodup := fun _ => List.nodup_nil
      done := by
        intro a d hd
        simp [enqueuedTags, start, Store.start] at hd
      sent := by
        intro a d hd
        simp [placedTags, start] at hd
      placed := by
        intro a qm hqm
        simp [start, Store.start] at hqm }
  accounted := Store.accounted_start now
  clockRead := Store.clockRead_start now

/-! ## Nothing is lost -/

/-- The parcel went into a channel of the agent, or into its queue. -/
def Accepted (s : Transport M) (a : String) (parcel : Parcel M) : Prop :=
  (∃ c, (c, parcel) ∈ s.journal.placed a) ∨
    ∃ qm ∈ (s.store.history a).enqueued, qm.msg = parcel

/-- A `prune_old` dropped the parcel from the queue of the agent for its age. -/
def Pruned (s : Transport M) (a : String) (parcel : Parcel M) : Prop :=
  ∃ expiry ∈ (s.store.history a).expired, expiry.Aged ∧ expiry.message.msg = parcel

/-- A final `remove` of a `prune_old` took the parcel along. -/
def Swept (s : Transport M) (a : String) (parcel : Parcel M) : Prop :=
  ∃ qm ∈ (s.store.history a).swept, qm.msg = parcel

/-- The channel `c` belongs to a connection of the agent. -/
def Owns (s : Transport M) (a : String) (c : ChannelId) : Prop :=
  ∃ phase, s.connections c = some ⟨a, phase⟩

/-- Nothing accepted is lost, and what a closed channel did not deliver waits
again. -/
structure Survives (s : Transport M) : Prop where
  kept : ∀ a parcel, s.Accepted a parcel →
    (∃ c, s.Owns a c ∧ parcel ∈ s.journal.written c) ∨ parcel ∈ s.waiting a ∨
      (∃ c, s.Owns a c ∧ (s.channels c).isOpen = true ∧ parcel ∈ (s.channels c).buffer) ∨
      s.Pruned a parcel
  requeued : ∀ a c parcel, (c, parcel) ∈ s.journal.placed a → (s.channels c).isOpen = false →
    parcel ∉ s.journal.written c → parcel ∈ s.waiting a

/-- The condition on a step: a forwarding task that ends has written all of
its channel, and a final `remove` finds nothing in its queue. -/
def LosesNothing (s : Transport M) : Event M → Prop
  | .close c => (s.channels c).buffer = []
  | .upkeep label => s.store.RemovesEmpty label
  | _ => True

/-- A closed channel is empty. -/
def ClosedEmpty (s : Transport M) : Prop :=
  ∀ c, (s.channels c).isOpen = false → (s.channels c).buffer = []

theorem ClosedEmpty.step {s t : Transport M} {event : Event M} (h : s.ClosedEmpty)
    (hok : s.LosesNothing event) (hstep : s.step event = some t) : t.ClosedEmpty := by
  -- only the channel that takes the step needs a look
  have hset : ∀ (c : ChannelId) (channel : Channel (Parcel M)),
      (channel.isOpen = false → channel.buffer = []) →
      ∀ other, (Function.update s.channels c channel other).isOpen = false →
        (Function.update s.channels c channel other).buffer = [] := by
    intro c channel hchannel other hclosed
    by_cases hother : other = c
    · subst hother
      rw [Function.update_self] at hclosed ⊢
      exact hchannel hclosed
    · rw [Function.update_of_ne hother] at hclosed ⊢
      exact h other hclosed
  cases event with
  | connect c agentId =>
    obtain ⟨_, rfl⟩ := step_connect hstep
    exact hset c _ (by simp)
  | drain c call =>
    obtain ⟨agentId, _, _, rfl⟩ := step_drain hstep
    refine hset c _ fun hclosed => ?_
    simp only at hclosed
    simp [h c hclosed, drained, hclosed]
  | write c =>
    obtain ⟨parcel, rest, _, rfl⟩ := step_write hstep
    exact hset c _ (by simp)
  | close c =>
    obtain ⟨_, rfl⟩ := step_close hstep
    exact hset c _ fun _ => hok
  | send d =>
    obtain ⟨site, agentId, msg, targetTx, _, rfl⟩ := step_send hstep
    unfold send
    split
    · rename_i hopen
      exact hset targetTx _ fun hclosed => absurd hopen (by simpa using hclosed)
    · exact h
  | _ =>
    have hchannels : t.channels = s.channels := step_frame .channels rfl hstep
    intro c
    rw [hchannels]
    exact h c

/-- No final `remove` has taken a parcel. -/
def Unswept (s : Transport M) : Prop :=
  ∀ a, (s.store.history a).swept = []

theorem Unswept.step {s t : Transport M} {event : Event M} (h : s.Unswept)
    (hok : s.LosesNothing event) (hstep : s.step event = some t) : t.Unswept := by
  cases event with
  | upkeep label =>
    obtain ⟨_, store, hstore, rfl⟩ := step_upkeep hstep
    exact Store.swept_step h hok hstore
  | drain c call =>
    obtain ⟨agentId, _, hcall, rfl⟩ := step_drain hstep
    let label : Queue.Label (Parcel M) := .drain call agentId fun _ => (s.channels c).isOpen
    have hok : s.store.RemovesEmpty label := trivial
    refine Store.swept_step h hok ?_
    simp [label, Store.step, hcall, drain]
  | enqueue d =>
    obtain ⟨agentId, msg, _, rfl⟩ := step_enqueue hstep
    have hok : s.store.RemovesEmpty (.enqueue agentId ⟨d, msg⟩) := trivial
    exact Store.swept_step h hok rfl
  | _ =>
    have hstore : t.store = s.store := step_frame .store rfl hstep
    intro a
    rw [hstore]
    exact h a

/-- What was placed in a channel is in its stream. -/
theorem Consistent.mem_stream {s : Transport M} (h : s.Consistent) {a : String}
    {c : ChannelId} {parcel : Parcel M} (hmem : (c, parcel) ∈ s.journal.placed a) :
    parcel ∈ s.stream c := by
  obtain ⟨phase, hphase⟩ := h.streams.owned a c parcel hmem
  rw [h.streams.stream_eq, carried_of_connection hphase, List.mem_map]
  exact ⟨(c, parcel), List.mem_filter.mpr ⟨hmem, by simp⟩, rfl⟩

theorem Consistent.survives {s : Transport M} (h : s.Consistent) (hclosed : s.ClosedEmpty)
    (hunswept : s.Unswept) : s.Survives := by
  have hplaced : ∀ a c parcel, (c, parcel) ∈ s.journal.placed a →
      parcel ∈ s.journal.written c ∨
        ((s.channels c).isOpen = true ∧ parcel ∈ (s.channels c).buffer) := by
    intro a c parcel hmem
    rcases List.mem_append.mp (h.mem_stream hmem) with hwritten | hbuffer
    · exact Or.inl hwritten
    · cases hopen : (s.channels c).isOpen with
      | true => exact Or.inr ⟨rfl, hbuffer⟩
      | false =>
        rw [hclosed c hopen] at hbuffer
        exact absurd hbuffer List.not_mem_nil
  constructor
  · intro a parcel haccepted
    have hchannel : ∀ c, (c, parcel) ∈ s.journal.placed a →
        (∃ c, s.Owns a c ∧ parcel ∈ s.journal.written c) ∨ parcel ∈ s.waiting a ∨
          (∃ c, s.Owns a c ∧ (s.channels c).isOpen = true ∧
            parcel ∈ (s.channels c).buffer) ∨ s.Pruned a parcel := by
      intro c hmem
      have howns := h.streams.owned a c parcel hmem
      rcases hplaced a c parcel hmem with hwritten | ⟨hopen, hbuffer⟩
      · exact Or.inl ⟨c, howns, hwritten⟩
      · exact Or.inr (Or.inr (Or.inl ⟨c, howns, hopen, hbuffer⟩))
    rcases haccepted with ⟨c, hmem⟩ | ⟨qm, hqm, rfl⟩
    · exact hchannel c hmem
    · have haccount := (h.accounted a).perm.mem_iff.mp hqm
      simp only [List.mem_append] at haccount
      rcases haccount with ((hsent | hwaits) | hexpired) | hswept
      · obtain ⟨c, hc⟩ := h.unique.placed a qm hsent
        exact hchannel c hc
      · exact Or.inr (Or.inl (List.mem_map.mpr ⟨qm, hwaits, rfl⟩))
      · obtain ⟨expiry, hexpiry, hmsg⟩ := List.mem_map.mp hexpired
        have haged := (h.accounted a).aged expiry hexpiry
        exact Or.inr (Or.inr (Or.inr ⟨expiry, hexpiry, haged, by rw [hmsg]⟩))
      · rw [hunswept a] at hswept
        exact absurd hswept List.not_mem_nil
  · intro a c parcel hmem hshut hnot
    rcases hplaced a c parcel hmem with hwritten | ⟨hopen, _⟩
    · exact absurd hwritten hnot
    · rw [hshut] at hopen
      simp at hopen

/-! ## What an unfinished channel costs -/

theorem Consistent.mem_placed {s : Transport M} (h : s.Consistent) {a : String}
    {c : ChannelId} {parcel : Parcel M} (howns : s.Owns a c) (hmem : parcel ∈ s.stream c) :
    (c, parcel) ∈ s.journal.placed a := by
  obtain ⟨phase, hphase⟩ := howns
  rw [h.streams.stream_eq, carried_of_connection hphase, List.mem_map] at hmem
  obtain ⟨⟨c', parcel'⟩, hfilter, rfl⟩ := hmem
  obtain ⟨hplaced, hc⟩ := List.mem_filter.mp hfilter
  simp only [decide_eq_true_eq] at hc
  rwa [hc] at hplaced

theorem Consistent.placedTags_nodup {s : Transport M} (h : s.Consistent) (a : String) :
    (s.placedTags a).Nodup :=
  (h.ordered.nodup a).sublist (List.sublist_append_left _ _)

/-- A parcel is placed in one channel. -/
theorem Consistent.channel_eq {s : Transport M} (h : s.Consistent) {a : String}
    {c c' : ChannelId} {parcel : Parcel M} (hmem : (c, parcel) ∈ s.journal.placed a)
    (hmem' : (c', parcel) ∈ s.journal.placed a) : c = c' := by
  have heq := List.inj_on_of_nodup_map (h.placedTags_nodup a) hmem hmem' rfl
  exact (Prod.mk.inj heq).1

/-- A parcel is written or in the buffer, not both. -/
theorem Consistent.notMem_written {s : Transport M} (h : s.Consistent) {a : String}
    {c : ChannelId} {parcel : Parcel M} (howns : s.Owns a c)
    (hmem : parcel ∈ (s.channels c).buffer) : parcel ∉ s.journal.written c := by
  obtain ⟨phase, hphase⟩ := howns
  have hnodup : ((s.stream c).map Parcel.dispatch).Nodup := by
    rw [h.streams.stream_eq, carried_of_connection hphase, List.map_map]
    exact (h.placedTags_nodup a).sublist (List.filter_sublist.map _)
  intro hwritten
  rw [stream, List.map_append] at hnodup
  have hdisjoint := (List.nodup_append.mp hnodup).2.2
  exact hdisjoint _ (List.mem_map_of_mem hwritten) _ (List.mem_map_of_mem hmem) rfl

/-- A parcel in a channel does not wait in the queue as well. -/
theorem Consistent.notMem_waiting {s : Transport M} (h : s.Consistent) {a : String}
    {c : ChannelId} {parcel : Parcel M} (hmem : (c, parcel) ∈ s.journal.placed a) :
    parcel ∉ s.waiting a := by
  intro hwaits
  have hplaced : parcel.dispatch ∈ s.placedTags a := List.mem_map.mpr ⟨(c, parcel), hmem, rfl⟩
  have hdisjoint := (List.nodup_append.mp (h.ordered.nodup a)).2.2
  exact hdisjoint _ hplaced _ (List.mem_map_of_mem hwaits) rfl

/-- Where the tags are that were ever enqueued. -/
theorem Consistent.tags_perm {s : Transport M} (h : s.Consistent) (a : String) :
    s.enqueuedTags a ~ s.sentTags a ++ s.waitingTags a ++
      (s.store.history a).expired.map (·.message.msg.dispatch) ++
      (s.store.history a).swept.map (·.msg.dispatch) := by
  have hmap := (h.accounted a).perm.map (fun qm => qm.msg.dispatch)
  simpa [enqueuedTags, sentTags, waitingTags, waiting, Function.comp_def] using hmap

/-- Each of them is in one place. -/
theorem Consistent.tags_nodup {s : Transport M} (h : s.Consistent) (a : String) :
    (s.sentTags a ++ s.waitingTags a ++
      (s.store.history a).expired.map (·.message.msg.dispatch) ++
      (s.store.history a).swept.map (·.msg.dispatch)).Nodup :=
  (h.tags_perm a).nodup_iff.mp (h.unique.nodup a)

/-- A parcel in a channel was not pruned. -/
theorem Consistent.not_pruned {s : Transport M} (h : s.Consistent) {a : String}
    {c : ChannelId} {parcel : Parcel M} (hmem : (c, parcel) ∈ s.journal.placed a) :
    ¬ s.Pruned a parcel := by
  rintro ⟨expiry, hexpiry, -, hmsg⟩
  have hgone : parcel.dispatch ∈ (s.store.history a).expired.map (·.message.msg.dispatch) :=
    List.mem_map.mpr ⟨expiry, hexpiry, by rw [hmsg]⟩
  have hplaced : parcel.dispatch ∈ s.placedTags a := List.mem_map.mpr ⟨(c, parcel), hmem, rfl⟩
  have henqueued : parcel.dispatch ∈ s.enqueuedTags a :=
    (h.tags_perm a).mem_iff.mpr (List.mem_append_left _ (List.mem_append_right _ hgone))
  have hsent : parcel.dispatch ∈ s.sentTags a := h.unique.sent a _ hplaced henqueued
  have hdisjoint := (List.nodup_append.mp (List.nodup_append.mp (h.tags_nodup a)).1).2.2
  exact hdisjoint _ (List.mem_append_left _ hsent) _ hgone rfl

/-- A parcel that a final `remove` took along was accepted, and is nowhere. -/
theorem Consistent.not_survives_of_swept {s : Transport M} (h : s.Consistent) {a : String}
    {parcel : Parcel M} (hswept : s.Swept a parcel) : ¬ s.Survives := by
  obtain ⟨qm, hqm, rfl⟩ := hswept
  intro hsurvives
  have henqueued : qm ∈ (s.store.history a).enqueued :=
    (h.accounted a).perm.mem_iff.mpr (List.mem_append_right _ hqm)
  have htag : qm.msg.dispatch ∈ (s.store.history a).swept.map (·.msg.dispatch) :=
    List.mem_map.mpr ⟨qm, hqm, rfl⟩
  have hdisjoint := (List.nodup_append.mp (h.tags_nodup a)).2.2
  have hunplaced : ∀ c, (c, qm.msg) ∉ s.journal.placed a := by
    intro c hmem
    have hplaced : qm.msg.dispatch ∈ s.placedTags a := List.mem_map.mpr ⟨_, hmem, rfl⟩
    have hsent := h.unique.sent a _ hplaced (List.mem_map.mpr ⟨qm, henqueued, rfl⟩)
    exact hdisjoint _ (List.mem_append_left _ (List.mem_append_left _ hsent)) _ htag rfl
  rcases hsurvives.kept a qm.msg (Or.inr ⟨qm, henqueued, rfl⟩) with
    ⟨c, howns, hwritten⟩ | hwaits | ⟨c, howns, _, hlive⟩ | ⟨expiry, hexpiry, -, hmsg⟩
  · exact hunplaced c (h.mem_placed howns (List.mem_append_left _ hwritten))
  · have hwaiting : qm.msg.dispatch ∈ s.waitingTags a := List.mem_map_of_mem hwaits
    exact hdisjoint _ (List.mem_append_left _ (List.mem_append_right _ hwaiting)) _ htag rfl
  · exact hunplaced c (h.mem_placed howns (List.mem_append_right _ hlive))
  · have hexpired : qm.msg.dispatch ∈
        (s.store.history a).expired.map (·.message.msg.dispatch) :=
      List.mem_map.mpr ⟨expiry, hexpiry, by rw [hmsg]⟩
    exact hdisjoint _ (List.mem_append_right _ hexpired) _ htag rfl

/-- A forwarding task that ends with parcels in its channel loses them, and so does a final
`remove` of a queue that is not empty. -/
theorem not_survives_of_step {s t : Transport M} {event : Event M} (h : s.Consistent)
    (hbad : ¬ s.LosesNothing event) (hstep : s.step event = some t) : ¬ t.Survives := by
  intro hsurvives
  have ht := h.step hstep
  cases event with
  | close c =>
    obtain ⟨_, rfl⟩ := step_close hstep
    obtain ⟨parcel, hbuffer⟩ := List.exists_mem_of_ne_nil _ hbad
    have hbuffer' : parcel ∈ ((s.close c).channels c).buffer := by simpa [close] using hbuffer
    have hstream : parcel ∈ (s.close c).stream c := List.mem_append_right _ hbuffer'
    have howns : ∃ a, (s.close c).Owns a c := by
      cases hconn : s.connections c with
      | none =>
        rw [ht.streams.stream_eq] at hstream
        simp [carried, close, hconn] at hstream
      | some conn => exact ⟨conn.agentId, conn.phase, hconn⟩
    obtain ⟨a, howns⟩ := howns
    have hplaced := ht.mem_placed howns hstream
    rcases hsurvives.kept a parcel (Or.inl ⟨c, hplaced⟩) with
      ⟨c', howns', hwritten⟩ | hwaits | ⟨c', howns', hopen, hlive⟩ | hpruned
    · have hplaced' := ht.mem_placed howns' (List.mem_append_left _ hwritten)
      rw [← ht.channel_eq hplaced hplaced'] at hwritten
      exact ht.notMem_written howns hbuffer' hwritten
    · exact ht.notMem_waiting hplaced hwaits
    · have hplaced' := ht.mem_placed howns' (List.mem_append_right _ hlive)
      rw [← ht.channel_eq hplaced hplaced'] at hopen
      simp [close] at hopen
    · exact ht.not_pruned hplaced hpruned
  | upkeep label =>
    obtain ⟨_, store, hstore, rfl⟩ := step_upkeep hstep
    have hswept : ∃ a, (store.history a).swept ≠ [] := by
      by_contra hnone
      exact hbad (Store.removesEmpty_of_swept (fun a => not_not.mp (not_exists.mp hnone a)) hstore)
    obtain ⟨a, hne⟩ := hswept
    obtain ⟨qm, hqm⟩ := List.exists_mem_of_ne_nil _ hne
    exact ht.not_survives_of_swept (a := a) ⟨qm, hqm, rfl⟩ hsurvives
  | _ => exact hbad trivial

theorem closedEmpty_start (now : Int) : (start now : Transport M).ClosedEmpty :=
  fun _ _ => rfl

/-- Every message accepted for an agent survives a run, disconnects included,
exactly when each forwarding task of the run ends with an empty channel and each
final `remove` of a pruning finds its queue empty. -/
theorem survives_iff_losesNothing (now : Int) (events : List (Event M)) (s : Transport M)
    (hrun : run step (start now) events = some s) :
    Always step Survives (start now : Transport M) events ↔
      Guarded step LosesNothing (start now) events := by
  have hstart : (start now : Transport M).Consistent ∧ (start now : Transport M).ClosedEmpty ∧
      (start now : Transport M).Unswept :=
    ⟨consistent_start now, closedEmpty_start now, fun _ => rfl⟩
  have hkeep : ∀ (u : Transport M) event v, u.Consistent ∧ u.ClosedEmpty ∧ u.Unswept →
      u.LosesNothing event → u.step event = some v →
      v.Consistent ∧ v.ClosedEmpty ∧ v.Unswept := by
    intro u event v h hok hstep
    exact ⟨h.1.step hstep, h.2.1.step hok hstep, h.2.2.step hok hstep⟩
  refine always_iff_guarded hkeep (fun u h => h.1.survives h.2.1 h.2.2) ?_ hstart hrun
  intro u event v h hbad hstep
  exact not_survives_of_step h.1 hbad hstep

/-- The backlog of `bob` is drained into a connection that ends at once. -/
def disconnectRun : List (Event String) :=
  [.lookup 0 .handleOp "bob" "hi", .enqueue 0,
   .connect 0 "bob", .hello 0, .drain 0 0, .leave 0, .close 0, .teardown 0, .unregister 0]

/-- The message is neither written nor queued, no channel is open, and nothing
was pruned. -/
theorem disconnect_loses_backlog :
    ¬ ∀ (now : Int) (events : List (Event String)) (s : Transport String),
        run step (start now) events = some s → s.Survives := by
  intro h
  have hreached : run step (start 0) disconnectRun =
      some ((run step (start 0) disconnectRun).getD (start 0)) := rfl
  have hrequeued := (h 0 disconnectRun _ hreached).requeued "bob" 0 ⟨0, "hi"⟩ (by decide) rfl
    (by decide)
  exact absurd hrequeued (by decide)

/-- The connection writes the backlog before it ends, and a pruning goes over
the empty queue. -/
def farewellRun : List (Event String) :=
  [.lookup 0 .handleOp "bob" "hi", .enqueue 0,
   .connect 0 "bob", .hello 0, .drain 0 0, .heartbeat 0, .write 0, .leave 0, .close 0,
   .upkeep (.prune 1 3600), .upkeep (.collect 1), .upkeep (.read 1 "bob"),
   .upkeep (.sweep 1), .upkeep (.remove 1)]

theorem farewellRun_losesNothing : Guarded step LosesNothing (start 0) farewellRun := by
  refine (guarded_cons rfl).mpr ⟨trivial, (guarded_cons rfl).mpr ⟨trivial, ?_⟩⟩
  refine (guarded_cons rfl).mpr ⟨trivial, (guarded_cons rfl).mpr ⟨trivial, ?_⟩⟩
  refine (guarded_cons rfl).mpr ⟨trivial, (guarded_cons rfl).mpr ⟨trivial, ?_⟩⟩
  refine (guarded_cons rfl).mpr ⟨trivial, (guarded_cons rfl).mpr ⟨trivial, ?_⟩⟩
  refine (guarded_cons rfl).mpr ⟨show ([] : List (Parcel String)) = [] from rfl, ?_⟩
  refine (guarded_cons rfl).mpr ⟨trivial, (guarded_cons rfl).mpr ⟨trivial, ?_⟩⟩
  refine (guarded_cons rfl).mpr ⟨trivial, (guarded_cons rfl).mpr ⟨trivial, ?_⟩⟩
  refine (guarded_cons rfl).mpr ⟨?_, trivial⟩
  intro agentId rest hcall
  have hids : some (Cleanup.removing ["bob"]) = some (.removing (agentId :: rest)) := hcall
  cases hids
  rfl

/-- Then nothing is lost. -/
theorem survives_iff_losesNothing_farewell :
    Always step Survives (start 0 : Transport String) farewellRun :=
  (survives_iff_losesNothing 0 farewellRun
    ((run step (start 0) farewellRun).getD (start 0)) rfl).mpr farewellRun_losesNothing

end Transport

end Xfiles.Net
