import Xfiles.Net.Integrity

/-!
# An agent that is forgotten

`unregister_agent` of `api.rs` and the cleanup of stale agents take an agent out of the
registry and leave its sockets open.  The agent is not told: only its next Hello puts it
back, and a heartbeat does not (`AgentRegistry::heartbeat` changes an entry that is there).

Until then nothing that is dispatched to the agent reaches one of its sockets.  `CutOff` is
the invariant: such a message is kept back, in its dispatch or in the queue, and no channel
has it.  `cut_off_until_hello` is the result.
-/

namespace Xfiles.Net

open Xfiles.Queue Transition

namespace Transport

variable {M : Type*}

/-- Neither of the two steps of a Hello of the agent. -/
def NoHello (a : String) (s : Transport M) : Happening M → Prop
  | .own (.hello c) => ¬ s.Owns a c
  | .own (.drain c _) => ¬ s.Owns a c
  | _ => True

/-- The message is on its way to the queue of the agent, or was put there. -/
def KeptBack (s : Transport M) (a : String) (d : Nat) (msg : M) : Prop :=
  s.dispatches d = some (.queueing a msg) ∨
    s.dispatches d = some .done ∧ ∃ qm ∈ (s.store.history a).enqueued, qm.msg = ⟨d, msg⟩

theorem KeptBack.not_sending {s : Transport M} {a : String} {d : Nat} {msg : M}
    (h : s.KeptBack a d msg) {site : Site} {a' : String} {msg' : M} {c : ChannelId} :
    s.dispatches d ≠ some (.sending site a' msg' c) := by
  intro hsending
  rcases h with hqueueing | ⟨hdone, _⟩
  · rw [hqueueing] at hsending
    exact absurd hsending (by simp)
  · rw [hdone] at hsending
    exact absurd hsending (by simp)

/-- The record of what was enqueued only grows. -/
theorem enqueued_step {s t : Transport M} {event : Event M} (hstep : s.step event = some t)
    (a : String) : (s.store.history a).enqueued ⊆ (t.store.history a).enqueued := by
  cases event with
  | upkeep label =>
    obtain ⟨hlabel, store, hstore, rfl⟩ := step_upkeep hstep
    show (s.store.history a).enqueued ⊆ (store.history a).enqueued
    rw [(Store.history_upkeep hlabel hstore a).1]
    exact List.Subset.refl _
  | drain c call =>
    obtain ⟨agentId, _, _, rfl⟩ := step_drain hstep
    by_cases ha : a = agentId
    · subst ha
      simp [drain, Store.history_drain_self]
    · simp [drain, Store.history_drain_of_ne s.store call _ ha]
  | enqueue d =>
    obtain ⟨agentId, msg, _, rfl⟩ := step_enqueue hstep
    by_cases ha : a = agentId
    · subst ha
      simp [enqueue, Store.enqueue, Store.setHistory]
    · simp [enqueue, Store.enqueue, Store.setHistory, ha]
  | _ =>
    have hsame : t.store = s.store := step_frame .store rfl hstep
    rw [hsame]
    exact List.Subset.refl _

theorem KeptBack.step {s t : Transport M} {event : Event M} {a : String} {d : Nat} {msg : M}
    (h : s.KeptBack a d msg) (hstep : s.step event = some t) : t.KeptBack a d msg := by
  have hrecord := enqueued_step hstep a
  have hsame : t.dispatches d = s.dispatches d → t.KeptBack a d msg := by
    intro hdispatch
    rw [KeptBack, hdispatch]
    refine h.imp_right fun ⟨hdone, qm, hqm, hmsg⟩ => ⟨hdone, qm, hrecord hqm, hmsg⟩
  cases event with
  | lookup d' site agentId msg' =>
    obtain ⟨hnone, rfl⟩ := step_lookup hstep
    by_cases hd : d = d'
    · subst hd
      rcases h with hqueueing | ⟨hdone, _⟩
      · exact absurd (hnone.symm.trans hqueueing) (by simp)
      · exact absurd (hnone.symm.trans hdone) (by simp)
    · exact hsame (by simp [lookup, hd])
  | send d' =>
    obtain ⟨site, agentId, msg', targetTx, hprogress, rfl⟩ := step_send hstep
    by_cases hd : d = d'
    · subst hd
      exact absurd hprogress h.not_sending
    · refine hsame ?_
      unfold send
      split
      · simp [sendDirect, hd]
      · simp [hd]
  | enqueue d' =>
    obtain ⟨agentId, msg', hprogress, rfl⟩ := step_enqueue hstep
    by_cases hd : d = d'
    · subst hd
      rcases h with hqueueing | ⟨hdone, _⟩
      · rw [hqueueing] at hprogress
        obtain ⟨rfl, rfl⟩ := Progress.queueing.inj (Option.some.inj hprogress)
        refine Or.inr ⟨by simp [enqueue], ⟨⟨d, msg⟩, s.store.now, 0⟩, ?_, rfl⟩
        simp [enqueue, Store.enqueue, Store.setHistory]
      · exact absurd (hprogress.symm.trans hdone) (by simp)
    · exact hsame (by simp [enqueue, hd])
  | _ => exact hsame (congrFun (step_frame .dispatches rfl hstep) d)

/-- An agent that is not registered stays so without a Hello. -/
theorem absent_step {s t : Transport M} {event : Event M} {a : String}
    (hnone : s.agents.get a = none) (hquiet : NoHello a s (.own event))
    (hstep : s.step event = some t) : t.agents.get a = none := by
  rcases registry_step hstep with ⟨_, hkeeps, _⟩ | ⟨c, agentId, rfl, hconn, rfl⟩ |
    ⟨c, agentId, rfl, _, rfl⟩
  · exact hkeeps a hnone
  · have hother : a ≠ agentId := by
      rintro rfl
      exact hquiet ⟨_, hconn⟩
    exact (s.agents.get_register_of_ne ⟨agentId, s.store.now, some c⟩ hother).trans hnone
  · by_cases ha : a = agentId
    · subst ha
      exact s.agents.get_unregister_self a
    · exact (s.agents.get_unregister_of_ne ha).trans hnone

/-- What was dispatched to the agent since it was forgotten is kept back, and is in no
channel. -/
structure CutOff (before after : List (Happening M)) (a : String) (s : Transport M) : Prop where
  origin : Origin (before ++ after) s
  absent : s.agents.get a = none
  keptBack : ∀ d msg, Submitted after d a msg → s.KeptBack a d msg
  unplaced : ∀ d msg, Submitted after d a msg →
    ∀ a' c parcel, (c, parcel) ∈ s.journal.placed a' → parcel.dispatch ≠ d

theorem CutOff.forget {before after : List (Happening M)} {a : String} {s : Transport M}
    (h : CutOff before after a s) (agentId : String) :
    CutOff before (after ++ [.forget agentId]) a (s.forget agentId) where
  origin := by
    rw [← List.append_assoc]
    exact h.origin.forget agentId
  absent := by
    by_cases ha : a = agentId
    · subst ha
      exact s.agents.get_unregister_self a
    · exact (s.agents.get_unregister_of_ne ha).trans h.absent
  keptBack d msg hnew := h.keptBack d msg (submitted_forget.mp hnew)
  unplaced d msg hnew := h.unplaced d msg (submitted_forget.mp hnew)

theorem CutOff.step {before after : List (Happening M)} {a : String} {s t : Transport M}
    (h : CutOff before after a s) {event : Event M} (hquiet : NoHello a s (.own event))
    (hstep : s.step event = some t) : CutOff before (after ++ [.own event]) a t where
  origin := by
    rw [← List.append_assoc]
    exact h.origin.step hstep
  absent := absent_step h.absent hquiet hstep
  keptBack d msg hnew := by
    rcases submitted_concat.mp hnew with hold | ⟨site, rfl⟩
    · exact (h.keptBack d msg hold).step hstep
    · obtain ⟨_, rfl⟩ := step_lookup hstep
      left
      simp [lookup, afterLookup, h.absent]
  unplaced d msg hnew a' c parcel hplaced hdispatch := by
    subst hdispatch
    rcases submitted_concat.mp hnew with hold | ⟨site, rfl⟩
    · rcases placed_step hstep hplaced with hthere | ⟨hwaits, call, rfl, howns⟩ | ⟨_, hsending⟩
      · exact h.unplaced _ msg hold a' c parcel hthere rfl
      · -- it waits for the agent alone, and the agent does not drain
        have hwhole : Submitted (before ++ after) parcel.dispatch a msg := by
          obtain ⟨site, hmem⟩ := hold
          exact ⟨site, List.mem_append_right _ hmem⟩
        obtain ⟨rfl, _⟩ := h.origin.unique _ _ _ _ _ (h.origin.waiting a' parcel hwaits) hwhole
        exact hquiet howns
      · exact (h.keptBack _ msg hold).not_sending hsending
    · obtain ⟨hnone, _⟩ := step_lookup hstep
      rcases placed_step hstep hplaced with hthere | ⟨_, _, hdrain, _⟩ | ⟨_, hsending⟩
      · exact h.origin.begun _ _ _ (h.origin.placed a' c parcel hthere) hnone
      · exact absurd hdrain (by simp)
      · exact absurd (hnone.symm.trans hsending) (by simp)

theorem cutOff_of_run {before after : List (Happening M)} {a : String} {u s : Transport M}
    (horigin : Origin (before ++ [.forget a]) (u.forget a))
    (hquiet : Guarded happen (NoHello a) (u.forget a) after)
    (hrun : run happen (u.forget a) after = some s) : CutOff (before ++ [.forget a]) after a s := by
  induction after using List.reverseRecOn generalizing s with
  | nil =>
    obtain rfl := Option.some.inj hrun
    refine ⟨by simpa using horigin, u.agents.get_unregister_self a, ?_, ?_⟩
    · intro d msg hnew
      exact absurd hnew (by simp [Submitted])
    · intro d msg hnew
      exact absurd hnew (by simp [Submitted])
  | append_singleton after event ih =>
    obtain ⟨v, hfront, hstep⟩ := run_concat_eq_some.mp hrun
    have hcut := ih hquiet.of_append hfront
    cases event with
    | own event => exact hcut.step (hquiet.last hfront) hstep
    | forget agentId =>
      obtain rfl := Option.some.inj hstep
      exact hcut.forget agentId

/-- What was put into a queue was placed in a channel, waits, was dropped for its age or was
taken along by a final `remove`. -/
theorem Consistent.of_enqueued {s : Transport M} (h : s.Consistent) {a : String}
    {qm : QueuedMessage (Parcel M)} (hqm : qm ∈ (s.store.history a).enqueued) :
    (∃ c, (c, qm.msg) ∈ s.journal.placed a) ∨ qm.msg ∈ s.waiting a ∨ s.Pruned a qm.msg ∨
      s.Swept a qm.msg := by
  have haccount := (h.accounted a).perm.mem_iff.mp hqm
  simp only [List.mem_append] at haccount
  rcases haccount with ((hsent | hwaits) | hexpired) | hswept
  · exact Or.inl (h.unique.placed a qm hsent)
  · exact Or.inr (Or.inl (List.mem_map.mpr ⟨qm, hwaits, rfl⟩))
  · obtain ⟨expiry, hexpiry, hmsg⟩ := List.mem_map.mp hexpired
    have haged := (h.accounted a).aged expiry hexpiry
    exact Or.inr (Or.inr (Or.inl ⟨expiry, hexpiry, haged, by rw [hmsg]⟩))
  · exact Or.inr (Or.inr (Or.inr ⟨qm, hswept, rfl⟩))

/-- **An agent that is forgotten is cut off.**  Whatever is dispatched to it before its next
Hello is in no channel and on no socket, although its sockets may be open: it is about to be
queued, it waits in the queue or a pruning took it from there. -/
theorem cut_off_until_hello {now : Int} {before after : List (Happening M)} {a : String}
    {u s : Transport M} (hbefore : run happen (start now) before = some u)
    (hrun : run happen (u.forget a) after = some s)
    (hquiet : Guarded happen (NoHello a) (u.forget a) after) {d : Nat} {msg : M}
    (hnew : Submitted after d a msg) :
    (∀ c, ∀ parcel ∈ s.stream c, parcel.dispatch ≠ d) ∧
      (s.dispatches d = some (.queueing a msg) ∨ ⟨d, msg⟩ ∈ s.waiting a ∨
        s.Pruned a ⟨d, msg⟩ ∨ s.Swept a ⟨d, msg⟩) := by
  have hforget : run happen (start now) (before ++ [.forget a]) = some (u.forget a) :=
    run_concat_eq_some.mpr ⟨u, hbefore, rfl⟩
  have hwhole : run happen (start now) (before ++ [.forget a] ++ after) = some s := by
    rw [run_append, hforget]
    exact hrun
  have hcut := cutOff_of_run (origin_of_run hforget) hquiet hrun
  have hconsistent := consistent_of_run hwhole
  constructor
  · intro c parcel hmem
    obtain ⟨a', howns⟩ := hconsistent.owns_of_written hmem
    exact hcut.unplaced d msg hnew a' c parcel (hconsistent.mem_placed howns hmem)
  · rcases hcut.keptBack d msg hnew with hqueueing | ⟨_, qm, hqm, hmsg⟩
    · exact Or.inl hqueueing
    · right
      have hplace := hconsistent.of_enqueued hqm
      rw [hmsg] at hplace
      exact hplace.resolve_left fun ⟨c, hplaced⟩ => hcut.unplaced d msg hnew a c _ hplaced rfl

/-- An agent that is unregistered while it is connected. -/
def forgottenStart : List (Happening String) :=
  [.own (.connect 7 "bob"), .own (.hello 7), .own (.drain 7 0)]

/-- Its heartbeats do not put it back, so a message for it is queued. -/
def forgottenRest : List (Happening String) :=
  [.own (.heartbeat 7), .own (.lookup 0 .handleOp "bob" "hi"), .own (.enqueue 0),
    .own (.heartbeat 7)]

theorem cut_off_until_hello_waiting :
    ∃ u s : Transport String, run happen (start 0) forgottenStart = some u ∧
      run happen (u.forget "bob") forgottenRest = some s ∧ (s.channels 7).isOpen = true ∧
      ∀ c, ∀ parcel ∈ s.stream c, parcel.dispatch ≠ 0 := by
  obtain ⟨u, s, hbefore, hrun, hopen⟩ : ∃ u s : Transport String,
      run happen (start 0) forgottenStart = some u ∧
        run happen (u.forget "bob") forgottenRest = some s ∧ (s.channels 7).isOpen = true :=
    ⟨_, _, rfl, rfl, rfl⟩
  have hquiet : Guarded happen (NoHello "bob") (u.forget "bob") forgottenRest :=
    ⟨trivial, fun _ _ => ⟨trivial, fun _ _ => ⟨trivial, fun _ _ => ⟨trivial, fun _ _ => trivial⟩⟩⟩⟩
  have hnew : Submitted forgottenRest 0 "bob" "hi" :=
    ⟨.handleOp, List.mem_cons_of_mem _ List.mem_cons_self⟩
  exact ⟨u, s, hbefore, hrun, hopen, (cut_off_until_hello hbefore hrun hquiet hnew).1⟩

end Transport

end Xfiles.Net
