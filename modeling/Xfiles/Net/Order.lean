import Mathlib.Data.List.Pairwise
import Mathlib.Data.List.Nodup
import Xfiles.Net.Placement

/-!
# The order of placement

A message reaches a channel straight from its dispatch, or through the queue
and a drain.  Within each route the order of the dispatches is kept.  Between
the routes it is kept unless a message that still waits is overtaken.

* `line` is what was placed for an agent, followed by what waits for it.  A
  drain leaves it as it is, a direct send puts its parcel between the two
  parts, and an enqueue appends.
* `Ordered` relates the line to the journal: the only earlier dispatches that
  stand behind a parcel are those that waited when it was sent.
* `placed_in_order_iff` says exactly when a message that was dispatched before
  another one is also placed before it.  `direct_send_overtakes` is a run in
  which it is not.
-/

namespace Xfiles.Net

open Xfiles.Queue Transition

namespace Transport

variable {M : Type*}

/-- The dispatches whose parcels were placed for the agent, in the order of
placement. -/
def placedTags (s : Transport M) (a : String) : List Nat :=
  (s.journal.placed a).map (·.2.dispatch)

/-- The dispatches whose parcels wait in the queue of the agent. -/
def waitingTags (s : Transport M) (a : String) : List Nat :=
  (s.waiting a).map Parcel.dispatch

def line (s : Transport M) (a : String) : List Nat :=
  s.placedTags a ++ s.waitingTags a

/-- A step that leaves everyone's place in line as it is, except that some
may go away. -/
structure KeepsLine (s t : Transport M) : Prop where
  line : ∀ a, (t.line a).Sublist (s.line a)
  queuedAtSend : t.journal.queuedAtSend = s.journal.queuedAtSend
  done : ∀ d, s.isDone d = true → t.isDone d = true
  /-- A dispatch that begins notes which ones are done. -/
  doneBefore : ∀ d, t.journal.doneBefore d = s.journal.doneBefore d ∨
    (s.isDone d = false ∧ t.journal.doneBefore d = s.isDone)

theorem isDone_setDispatch_of_ne (s : Transport M) {d other : Nat} (progress : Progress M)
    (h : other ≠ d) : (s.setDispatch d progress).isDone other = s.isDone other := by
  simp [isDone, h]

theorem isDone_eq_of_dispatches {s t : Transport M} (h : t.dispatches = s.dispatches) :
    t.isDone = s.isDone := by
  funext d
  simp [isDone, h]

/-- What a drain moves stays in its place. -/
theorem line_drain (s : Transport M) (c : ChannelId) (call : Nat) (agentId a : String) :
    (s.drain c call agentId).line a = s.line a := by
  by_cases ha : a = agentId
  · subst ha
    have hsplit := popLoop_append (fun _ => (s.channels c).isOpen) (s.store.queues.pending a)
    have hwaiting : s.waiting a = s.drained c a ++ (s.drain c call a).waiting a := by
      unfold waiting drained
      rw [← List.map_append]
      simp only [drain, setPhase_store, Store.pending_drain_self]
      rw [hsplit]
    unfold line waitingTags
    rw [hwaiting]
    simp [placedTags, drain, Journal.place, Function.comp_def]
  · unfold line waitingTags placedTags waiting
    simp only [drain, setPhase_store, setPhase_journal, Journal.place,
      Store.pending_drain_of_ne s.store call _ ha, Function.update_of_ne ha]

theorem keepsLine_of_eq {s t : Transport M} (hstore : t.store = s.store)
    (hjournal : t.journal.placed = s.journal.placed)
    (hqueued : t.journal.queuedAtSend = s.journal.queuedAtSend)
    (hbefore : t.journal.doneBefore = s.journal.doneBefore)
    (hdispatches : t.dispatches = s.dispatches) : KeepsLine s t where
  line := by
    intro a
    simp [line, placedTags, waitingTags, waiting, hstore, hjournal]
  queuedAtSend := hqueued
  done := by simp [isDone_eq_of_dispatches hdispatches]
  doneBefore := by simp [hbefore]

theorem isDone_setDispatch {s : Transport M} {d : Nat} (progress : Progress M)
    (hd : s.isDone d = false) {other : Nat} (h : s.isDone other = true) :
    (s.setDispatch d progress).isDone other = true := by
  have hne : other ≠ d := by
    rintro rfl
    rw [hd] at h
    simp at h
  rwa [isDone_setDispatch_of_ne s progress hne]

/-- Besides a direct send and an enqueue, no step puts anyone in line. -/
theorem line_step {s t : Transport M} {event : Event M} (hstep : s.step event = some t) :
    KeepsLine s t ∨
      (∃ d a msg targetTx, s.isDone d = false ∧ t = s.sendDirect a targetTx ⟨d, msg⟩) ∨
      (∃ d a msg, s.isDone d = false ∧ t = s.enqueue d a msg) := by
  cases event with
  | upkeep label =>
    obtain ⟨hlabel, store, hstore, rfl⟩ := step_upkeep hstep
    left
    refine { line := fun a => ?_, queuedAtSend := rfl, done := fun _ h => h,
             doneBefore := fun _ => Or.inl rfl }
    have hpending := Store.pending_upkeep hlabel hstore a
    exact ((hpending.map _).map _).append_left _
  | drain c call =>
    obtain ⟨agentId, _, _, rfl⟩ := step_drain hstep
    left
    exact
      { line := fun a => by rw [line_drain]
        queuedAtSend := rfl
        done := fun _ h => h
        doneBefore := fun _ => Or.inl rfl }
  | lookup d site agentId msg =>
    obtain ⟨hnone, rfl⟩ := step_lookup hstep
    have hdone : s.isDone d = false := by simp [isDone, hnone]
    left
    refine { line := fun a => List.Sublist.refl _, queuedAtSend := rfl,
             done := fun other hother => ?_, doneBefore := fun other => ?_ }
    · rw [lookup]
      exact isDone_setDispatch _ hdone hother
    · by_cases hother : other = d
      · subst hother
        exact Or.inr ⟨hdone, by simp [lookup]⟩
      · exact Or.inl (by simp [lookup, hother])
  | send d =>
    obtain ⟨site, agentId, msg, targetTx, hprogress, rfl⟩ := step_send hstep
    have hdone : s.isDone d = false := by simp [isDone, hprogress]
    unfold send
    split
    · exact Or.inr (Or.inl ⟨d, agentId, msg, targetTx, hdone, rfl⟩)
    · left
      exact
        { line := fun a => List.Sublist.refl _
          queuedAtSend := rfl
          done := fun other hother => isDone_setDispatch _ hdone hother
          doneBefore := fun _ => Or.inl rfl }
  | enqueue d =>
    obtain ⟨agentId, msg, hprogress, rfl⟩ := step_enqueue hstep
    have hdone : s.isDone d = false := by simp [isDone, hprogress]
    exact Or.inr (Or.inr ⟨d, agentId, msg, hdone, rfl⟩)
  | _ =>
    exact Or.inl (keepsLine_of_eq (step_frame .store rfl hstep) (step_frame .placed rfl hstep)
      (step_frame .queuedAtSend rfl hstep) (step_frame .doneBefore rfl hstep)
      (step_frame .dispatches rfl hstep))

/-! ## The invariant -/

/-- `y` comes after `x` although it was dispatched before only if it waited
when `x` was sent. -/
def Overtakes (journal : Journal M) (x y : Nat) : Prop :=
  journal.doneBefore x y = true → y ∈ journal.queuedAtSend x

/-- The line of every agent against the journal. -/
structure Ordered (s : Transport M) : Prop where
  nodup : ∀ a, (s.line a).Nodup
  done : ∀ a, ∀ d ∈ s.line a, s.isDone d = true
  irrefl : ∀ d, s.journal.doneBefore d d = false
  doneBefore_done : ∀ x y, s.journal.doneBefore x y = true → s.isDone y = true
  sent_done : ∀ x, ∀ y ∈ s.journal.queuedAtSend x, s.isDone x = true ∧ s.isDone y = true
  /-- Who stands behind a later dispatch has been overtaken. -/
  overtaken : ∀ a, (s.line a).Pairwise (Overtakes s.journal)
  /-- Who has been overtaken does not stand in front. -/
  behind : ∀ a, (s.line a).Pairwise (fun x y => x ∉ s.journal.queuedAtSend y)

theorem Ordered.keepsLine {s t : Transport M} (h : s.Ordered) (hkeeps : KeepsLine s t) :
    t.Ordered := by
  have hbefore : ∀ x y, t.journal.doneBefore x y = true →
      s.journal.doneBefore x y = true ∨ (s.isDone x = false ∧ s.isDone y = true) := by
    intro x y hxy
    rcases hkeeps.doneBefore x with hsame | ⟨hundone, hnew⟩
    · exact Or.inl (by rwa [hsame] at hxy)
    · exact Or.inr ⟨hundone, by rwa [hnew] at hxy⟩
  constructor
  · intro a
    exact (h.nodup a).sublist (hkeeps.line a)
  · intro a d hd
    exact hkeeps.done d (h.done a d ((hkeeps.line a).subset hd))
  · intro d
    rcases hkeeps.doneBefore d with hsame | ⟨hundone, hnew⟩
    · rw [hsame]
      exact h.irrefl d
    · rw [hnew]
      exact hundone
  · intro x y hxy
    rcases hbefore x y hxy with hold | ⟨_, hdone⟩
    · exact hkeeps.done y (h.doneBefore_done x y hold)
    · exact hkeeps.done y hdone
  · intro x y hy
    rw [hkeeps.queuedAtSend] at hy
    obtain ⟨hx, hy'⟩ := h.sent_done x y hy
    exact ⟨hkeeps.done x hx, hkeeps.done y hy'⟩
  · intro a
    refine ((h.overtaken a).sublist (hkeeps.line a)).imp_of_mem ?_
    intro x y hx _ hxy hnew
    rw [hkeeps.queuedAtSend]
    rcases hbefore x y hnew with hold | ⟨hundone, _⟩
    · exact hxy hold
    · -- a dispatch that begins is not in line
      have hdone := h.done a x ((hkeeps.line a).subset hx)
      rw [hundone] at hdone
      simp at hdone
  · intro a
    rw [hkeeps.queuedAtSend]
    exact (h.behind a).sublist (hkeeps.line a)

theorem line_sendDirect_self (s : Transport M) (a : String) (targetTx : ChannelId)
    (parcel : Parcel M) :
    (s.sendDirect a targetTx parcel).line a =
      s.placedTags a ++ parcel.dispatch :: s.waitingTags a := by
  simp [line, placedTags, waitingTags, waiting, sendDirect, Journal.place]

theorem line_sendDirect_of_ne (s : Transport M) {a other : String} (targetTx : ChannelId)
    (parcel : Parcel M) (h : other ≠ a) :
    (s.sendDirect a targetTx parcel).line other = s.line other := by
  simp [line, placedTags, waitingTags, waiting, sendDirect, Journal.place, h]

theorem line_enqueue_self (s : Transport M) (d : Nat) (a : String) (msg : M) :
    (s.enqueue d a msg).line a = s.line a ++ [d] := by
  simp [line, placedTags, waitingTags, waiting, enqueue, Store.enqueue, Store.setHistory]

theorem line_enqueue_of_ne (s : Transport M) (d : Nat) {a other : String} (msg : M)
    (h : other ≠ a) : (s.enqueue d a msg).line other = s.line other := by
  simp [line, placedTags, waitingTags, waiting, enqueue, Store.enqueue, Store.setHistory,
    MessageQueue.pending_enqueue_of_ne s.store.queues _ _ h]

/-- A dispatch that is not done is not in line, and nobody counts it as
done. -/
theorem Ordered.fresh {s : Transport M} (h : s.Ordered) {d : Nat} (hd : s.isDone d = false) :
    (∀ a, d ∉ s.line a) ∧ (∀ x, s.journal.doneBefore x d = false) ∧
      (∀ x, d ∉ s.journal.queuedAtSend x) ∧ s.journal.queuedAtSend d = [] := by
  refine ⟨fun a hmem => ?_, fun x => ?_, fun x hmem => ?_, ?_⟩
  · exact absurd (h.done a d hmem) (by simp [hd])
  · cases hbefore : s.journal.doneBefore x d with
    | false => rfl
    | true => exact absurd (h.doneBefore_done x d hbefore) (by simp [hd])
  · exact absurd (h.sent_done x d hmem).2 (by simp [hd])
  · refine List.eq_nil_iff_forall_not_mem.mpr fun y hy => ?_
    exact absurd (h.sent_done d y hy).1 (by simp [hd])

theorem isDone_setDispatch_done (s : Transport M) {d other : Nat}
    (h : s.isDone other = true ∨ other = d) : (s.setDispatch d .done).isDone other = true := by
  by_cases hother : other = d
  · simp [isDone, hother]
  · rw [isDone_setDispatch_of_ne s _ hother]
    exact h.resolve_right hother

theorem Ordered.enqueue {s : Transport M} (h : s.Ordered) {d : Nat} (a : String) (msg : M)
    (hd : s.isDone d = false) : (s.enqueue d a msg).Ordered := by
  obtain ⟨hline, hbefore, hqueued, hnone⟩ := h.fresh hd
  have hdone : ∀ other, s.isDone other = true ∨ other = d →
      (s.enqueue d a msg).isDone other = true := fun other hother =>
    isDone_setDispatch_done { s with store := s.store.enqueue a ⟨d, msg⟩ } hother
  have hcases : ∀ other, (s.enqueue d a msg).line other = s.line other ++ [d] ∨
      (s.enqueue d a msg).line other = s.line other := by
    intro other
    by_cases hother : other = a
    · exact Or.inl (by rw [hother, line_enqueue_self])
    · exact Or.inr (line_enqueue_of_ne s d msg hother)
  constructor
  · intro other
    rcases hcases other with heq | heq
    · rw [heq, ← List.concat_eq_append]
      exact (h.nodup other).concat (hline other)
    · rw [heq]
      exact h.nodup other
  · intro other x hx
    apply hdone
    rcases hcases other with heq | heq
    · rw [heq, List.mem_append, List.mem_singleton] at hx
      exact hx.imp_left (h.done other x)
    · rw [heq] at hx
      exact Or.inl (h.done other x hx)
  · exact h.irrefl
  · intro x y hxy
    exact hdone y (Or.inl (h.doneBefore_done x y hxy))
  · intro x y hy
    obtain ⟨hx, hy'⟩ := h.sent_done x y hy
    exact ⟨hdone x (Or.inl hx), hdone y (Or.inl hy')⟩
  · intro other
    rcases hcases other with heq | heq
    · rw [heq, List.pairwise_append]
      refine ⟨h.overtaken other, List.pairwise_singleton _ _, fun x _ y hy hxy => ?_⟩
      rw [List.mem_singleton.mp hy] at hxy
      have hnot := hbefore x
      rw [show s.journal.doneBefore x d = true from hxy] at hnot
      simp at hnot
    · rw [heq]
      exact h.overtaken other
  · intro other
    rcases hcases other with heq | heq
    · rw [heq, List.pairwise_append]
      refine ⟨h.behind other, List.pairwise_singleton _ _, fun x _ y hy => ?_⟩
      rw [List.mem_singleton.mp hy]
      show x ∉ s.journal.queuedAtSend d
      rw [hnone]
      exact List.not_mem_nil
    · rw [heq]
      exact h.behind other

@[simp] theorem sendDirect_doneBefore (s : Transport M) (a : String) (targetTx : ChannelId)
    (parcel : Parcel M) :
    (s.sendDirect a targetTx parcel).journal.doneBefore = s.journal.doneBefore := rfl

@[simp] theorem sendDirect_queuedAtSend_self (s : Transport M) (a : String)
    (targetTx : ChannelId) (parcel : Parcel M) :
    (s.sendDirect a targetTx parcel).journal.queuedAtSend parcel.dispatch =
      s.waitingTags a := by
  simp [sendDirect, waitingTags]

theorem sendDirect_queuedAtSend_of_ne (s : Transport M) (a : String) (targetTx : ChannelId)
    {parcel : Parcel M} {x : Nat} (h : x ≠ parcel.dispatch) :
    (s.sendDirect a targetTx parcel).journal.queuedAtSend x = s.journal.queuedAtSend x := by
  simp [sendDirect, h]

theorem Ordered.sendDirect {s : Transport M} (h : s.Ordered) (a : String)
    (targetTx : ChannelId) {parcel : Parcel M} (hd : s.isDone parcel.dispatch = false) :
    (s.sendDirect a targetTx parcel).Ordered := by
  obtain ⟨hline, hbefore, hqueued, _⟩ := h.fresh hd
  have hself := line_sendDirect_self s a targetTx parcel
  have hother := fun other (hne : other ≠ a) =>
    line_sendDirect_of_ne s targetTx parcel hne
  have hdone : ∀ other, s.isDone other = true ∨ other = parcel.dispatch →
      (s.sendDirect a targetTx parcel).isDone other = true := by
    intro other hor
    unfold Transport.sendDirect
    exact isDone_setDispatch_done _ hor
  have hold : ∀ {other x}, x ∈ s.line other →
      (s.sendDirect a targetTx parcel).journal.queuedAtSend x = s.journal.queuedAtSend x := by
    intro other x hx
    refine sendDirect_queuedAtSend_of_ne s a targetTx ?_
    rintro rfl
    exact hline other hx
  have hovertaken : ∀ other, (s.line other).Pairwise
      (Overtakes (s.sendDirect a targetTx parcel).journal) := by
    intro other
    refine (h.overtaken other).imp_of_mem fun hx _ hxy hnew => ?_
    rw [hold hx]
    exact hxy hnew
  have hbehind : ∀ other, (s.line other).Pairwise (fun x y =>
      x ∉ (s.sendDirect a targetTx parcel).journal.queuedAtSend y) := by
    intro other
    refine (h.behind other).imp_of_mem fun _ hy hxy => ?_
    rw [hold hy]
    exact hxy
  constructor
  · intro other
    by_cases ha : other = a
    · rw [ha, hself]
      exact List.nodup_middle.mpr (List.nodup_cons.mpr ⟨hline a, h.nodup a⟩)
    · rw [hother other ha]
      exact h.nodup other
  · intro other x hx
    apply hdone
    by_cases ha : other = a
    · rw [ha, hself] at hx
      rcases List.mem_append.mp hx with hplaced | hrest
      · exact Or.inl (h.done a x (List.mem_append_left _ hplaced))
      · rcases List.mem_cons.mp hrest with heq | hwaits
        · exact Or.inr heq
        · exact Or.inl (h.done a x (List.mem_append_right _ hwaits))
    · rw [hother other ha] at hx
      exact Or.inl (h.done other x hx)
  · exact h.irrefl
  · intro x y hxy
    exact hdone y (Or.inl (h.doneBefore_done x y hxy))
  · intro x y hy
    by_cases hx : x = parcel.dispatch
    · rw [hx, sendDirect_queuedAtSend_self] at hy
      exact ⟨hdone x (Or.inr hx),
        hdone y (Or.inl (h.done a y (List.mem_append_right _ hy)))⟩
    · rw [sendDirect_queuedAtSend_of_ne s a targetTx hx] at hy
      obtain ⟨hx', hy'⟩ := h.sent_done x y hy
      exact ⟨hdone x (Or.inl hx'), hdone y (Or.inl hy')⟩
  · intro other
    by_cases ha : other = a
    · rw [ha, hself]
      obtain ⟨hplaced, hwaits, hacross⟩ := List.pairwise_append.mp (hovertaken a)
      refine List.pairwise_append.mpr ⟨hplaced, List.pairwise_cons.mpr ⟨?_, hwaits⟩, ?_⟩
      · -- whoever waits is counted as overtaken
        intro y hy _
        rw [sendDirect_queuedAtSend_self]
        exact hy
      · intro x hx y hy
        rcases List.mem_cons.mp hy with heq | hy'
        · intro hxy
          rw [sendDirect_doneBefore, heq, hbefore x] at hxy
          simp at hxy
        · exact hacross x hx y hy'
    · rw [hother other ha]
      exact hovertaken other
  · intro other
    by_cases ha : other = a
    · rw [ha, hself]
      obtain ⟨hplaced, hwaits, hacross⟩ := List.pairwise_append.mp (hbehind a)
      refine List.pairwise_append.mpr ⟨hplaced, List.pairwise_cons.mpr ⟨?_, hwaits⟩, ?_⟩
      · intro y hy
        rw [hold (List.mem_append_right _ hy)]
        exact hqueued y
      · intro x hx y hy
        rcases List.mem_cons.mp hy with heq | hy'
        · -- no one is placed and waits as well
          rw [heq, sendDirect_queuedAtSend_self]
          intro hwaiting
          have hdisjoint := (List.nodup_append.mp (h.nodup a)).2.2
          exact hdisjoint x hx x hwaiting rfl
        · exact hacross x hx y hy'
    · rw [hother other ha]
      exact hbehind other

theorem Ordered.step {s t : Transport M} {event : Event M} (h : s.Ordered)
    (hstep : s.step event = some t) : t.Ordered := by
  rcases line_step hstep with hkeeps | ⟨d, a, msg, targetTx, hd, rfl⟩ | ⟨d, a, msg, hd, rfl⟩
  · exact h.keepsLine hkeeps
  · exact h.sendDirect a targetTx hd
  · exact h.enqueue a msg hd

theorem ordered_start (now : Int) : (start now : Transport M).Ordered where
  nodup := fun _ => List.nodup_nil
  done := by
    intro a d hd
    simp [line, placedTags, waitingTags, waiting, start, Store.start] at hd
  irrefl := fun _ => rfl
  doneBefore_done := by
    intro x y hxy
    simp [start] at hxy
  sent_done := by
    intro x y hy
    simp [start] at hy
  overtaken := fun _ => List.Pairwise.nil
  behind := fun _ => List.Pairwise.nil

theorem ordered_of_run {now : Int} {events : List (Event M)} {s : Transport M}
    (hrun : run step (start now) events = some s) : s.Ordered :=
  invariant_of_run (I := Ordered) (fun _ _ _ h hstep => h.step hstep) (ordered_start now) hrun

/-- The dispatch `d₁` was done before `d₂` began, and both messages have been
placed in channels of the agent.  Then the first message was placed before the
second one, unless it still waited in the queue when the second one was sent
straight into a channel.  In that case it was placed after it. -/
theorem placed_in_order_iff (now : Int) (events : List (Event M)) (s : Transport M)
    (hrun : run step (start now) events = some s) (a : String) (d₁ d₂ : Nat)
    (hfirst : d₁ ∈ s.placedTags a) (hsecond : d₂ ∈ s.placedTags a)
    (hbefore : s.journal.doneBefore d₂ d₁ = true) :
    [d₁, d₂].Sublist (s.placedTags a) ↔ d₁ ∉ s.journal.queuedAtSend d₂ := by
  have hordered := ordered_of_run hrun
  have hplaced : (s.placedTags a).Sublist (s.line a) := List.sublist_append_left _ _
  have hne : d₁ ≠ d₂ := by
    rintro rfl
    rw [hordered.irrefl] at hbefore
    simp at hbefore
  constructor
  · intro horder
    exact List.pairwise_iff_forall_sublist.mp (hordered.behind a) (horder.trans hplaced)
  · intro hnot
    let Placed := fun x y => [x, y].Sublist (s.placedTags a) ∨ [y, x].Sublist (s.placedTags a)
    have hsymm : Std.Symm Placed := ⟨fun _ _ => Or.symm⟩
    have hpairs : (s.placedTags a).Pairwise Placed := List.pairwise_iff_forall_sublist.mpr Or.inl
    rcases hpairs.forall hfirst hsecond hne with h | h
    · exact h
    · have hovertaken := List.pairwise_iff_forall_sublist.mp (hordered.overtaken a)
        (h.trans hplaced)
      exact absurd (hovertaken hbefore) hnot

/-- A message for `bob` is queued, `bob` registers, a second message goes
straight into the channel, and the drain sends the first one after it. -/
def overtakeRun : List (Event String) :=
  [.lookup 0 .handleOp "bob" "first", .enqueue 0,
   .connect 0 "bob", .hello 0,
   .lookup 1 .handleOp "bob" "second", .send 1,
   .drain 0 0]

/-- The state that `overtakeRun` reaches. -/
def overtakeState : Transport String := (run step (start 0) overtakeRun).getD (start 0)

theorem overtakeRun_reaches : run step (start 0) overtakeRun = some overtakeState := rfl

/-- The dispatch of the first message was done before that of the second one
began, but it comes second in the one channel. -/
theorem direct_send_overtakes :
    ¬ ∀ (now : Int) (events : List (Event String)) (s : Transport String),
        run step (start now) events = some s →
        ∀ a d₁ d₂, d₁ ∈ s.placedTags a → d₂ ∈ s.placedTags a →
          s.journal.doneBefore d₂ d₁ = true → [d₁, d₂].Sublist (s.placedTags a) := by
  intro h
  have horder := h 0 overtakeRun overtakeState overtakeRun_reaches "bob" 0 1 (by decide)
    (by decide) rfl
  exact absurd horder (by decide)

/-- Without the second message in between, the order is kept. -/
def inOrderRun : List (Event String) :=
  [.lookup 0 .handleOp "bob" "first", .enqueue 0,
   .connect 0 "bob", .hello 0, .drain 0 0,
   .lookup 1 .handleOp "bob" "second", .send 1]

/-- The queued message is placed first. -/
theorem placed_in_order_iff_drained :
    [0, 1].Sublist (((run step (start 0) inOrderRun).getD (start 0)).placedTags "bob") :=
  (placed_in_order_iff 0 inOrderRun ((run step (start 0) inOrderRun).getD (start 0)) rfl "bob"
    0 1 (by decide) (by decide) rfl).mpr (by decide)

end Transport

end Xfiles.Net
