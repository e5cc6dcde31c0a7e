import Xfiles.Lib.Transition
import Xfiles.Queue.Basic

/-!
# Concurrent use of the message queue

Any number of `enqueue`, `drain_to` and `prune_old` calls on one queue.  Each
operation on the concurrent map is a step.

* `drain_to` is its locked pop loop, followed by a `remove_if` when the loop
  left the queue empty.
* `drain_refines_drainTo` connects these two steps to `MessageQueue.drainTo`:
  without interruption they do the same.
* `prune_old` reads the clock, retains the fresh messages of one queue after
  another, reads one queue after another for emptiness, and removes the ids
  that it found empty.
* `Accounted` says where every message is that was ever enqueued: it was sent,
  it waits, a `retain` found it too old, or a final `remove` took it along.
  This holds in every run.
* `Conserved` is the law without the last case.  `conserved_iff_removesEmpty`
  says that it holds along a run exactly when each final `remove` finds its
  queue empty.  `lost_between_read_and_remove` is a run in which one does not.

The iterators of the concurrent map visit an entry at most once, and may miss
one that comes or goes during the pass.  The model lets a pass end at any
point, which allows every pass of the code.
-/

namespace Xfiles.Queue

open Transition
open scoped List

/-- Where a call of `drain_to` or `prune_old` stands. -/
inductive Cleanup where
  /-- `drain_to` has left the queue of the agent empty. -/
  | emptied (agentId : String)
  | retaining (now maxAgeSecs : Int) (visited : List String)
  | collecting (visited empty : List String)
  | removing (empty : List String)
  deriving DecidableEq, Repr

/-- A message that a `retain` step dropped, with the clock of that step. -/
structure Expiry (M : Type*) where
  message : QueuedMessage M
  droppedAt : Int
  maxAgeSecs : Int

/-- The age in seconds was at least the limit of the call. -/
def Expiry.Aged {M : Type*} (expiry : Expiry M) : Prop :=
  expiry.maxAgeSecs ≤ numSeconds (expiry.droppedAt - expiry.message.enqueuedAt)

/-- What has happened to the messages of one agent.  No step reads it. -/
structure History (M : Type*) where
  enqueued : List (QueuedMessage M) := []
  sent : List (QueuedMessage M) := []
  expired : List (Expiry M) := []
  /-- What was in a queue that a final `remove` took away. -/
  swept : List (QueuedMessage M) := []

/-- The queue, the calls in progress, and the clock. -/
structure Store (M : Type*) where
  queues : MessageQueue M
  calls : Nat → Option Cleanup
  now : Int
  history : String → History M

inductive Label (M : Type*) where
  | advance (elapsed : Nat)
  | enqueue (agentId : String) (msg : M)
  | drain (call : Nat) (agentId : String) (accepts : Nat → Bool)
  | removeIf (call : Nat)
  | prune (call : Nat) (maxAgeSecs : Int)
  | retain (call : Nat) (agentId : String)
  | collect (call : Nat)
  | read (call : Nat) (agentId : String)
  | sweep (call : Nat)
  | remove (call : Nat)
  | finish (call : Nat)

/-- The steps that neither take a message in nor send one. -/
def Label.isUpkeep {M : Type*} : Label M → Bool
  | .enqueue _ _ | .drain _ _ _ => false
  | _ => true

namespace Store

variable {M : Type*}

/-- An empty queue at the given time. -/
def start (now : Int) : Store M where
  queues := .new
  calls _ := none
  now := now
  history _ := {}

def setCall (s : Store M) (call : Nat) (stage : Option Cleanup) : Store M :=
  { s with calls := Function.update s.calls call stage }

def setHistory (s : Store M) (agentId : String) (history : History M) : Store M :=
  { s with history := Function.update s.history agentId history }

def enqueue (s : Store M) (agentId : String) (msg : M) : Store M :=
  let old := s.history agentId
  let qm : QueuedMessage M := ⟨msg, s.now, 0⟩
  { s with queues := s.queues.enqueue agentId msg s.now }.setHistory agentId
    { old with enqueued := old.enqueued ++ [qm] }

/-- The locked pop loop of `drain_to`.  A call that finds no entry, or leaves
messages in it, ends here. -/
def drain (s : Store M) (call : Nat) (agentId : String) (accepts : Nat → Bool) : Store M :=
  match s.queues agentId with
  | none => s
  | some entry =>
    let (sent, left) := popLoop accepts entry
    let old := s.history agentId
    let t := { s with queues := s.queues.put agentId left }.setHistory agentId
      { old with sent := old.sent ++ sent }
    if left.isEmpty then t.setCall call (some (.emptied agentId)) else t

/-- One `retain` of `prune_old`, which read the clock as `now`. -/
def retain (s : Store M) (call : Nat) (agentId : String) (now maxAgeSecs : Int)
    (visited : List String) : Store M :=
  let old := s.history agentId
  let dropped := (s.queues.pending agentId).filter (fun qm => !qm.isFresh now maxAgeSecs)
  let expired : List (Expiry M) := dropped.map fun qm => ⟨qm, s.now, maxAgeSecs⟩
  ({ s with queues := s.queues.retainFresh agentId now maxAgeSecs }.setHistory agentId
    { old with expired := old.expired ++ expired }).setCall call
      (some (.retaining now maxAgeSecs (agentId :: visited)))

/-- The final `remove` of one collected id. -/
def remove (s : Store M) (call : Nat) (agentId : String) (rest : List String) : Store M :=
  let old := s.history agentId
  ({ s with queues := s.queues.remove agentId }.setHistory agentId
    { old with swept := old.swept ++ s.queues.pending agentId }).setCall call
      (some (.removing rest))

def step (s : Store M) : Label M → Option (Store M)
  | .advance elapsed => some { s with now := s.now + elapsed }
  | .enqueue agentId msg => some (s.enqueue agentId msg)
  | .drain call agentId accepts =>
    match s.calls call with
    | none => some (s.drain call agentId accepts)
    | some _ => none
  | .removeIf call =>
    match s.calls call with
    | some (.emptied agentId) =>
      some ({ s with queues := s.queues.removeIf agentId }.setCall call none)
    | _ => none
  | .prune call maxAgeSecs =>
    match s.calls call with
    | none => some (s.setCall call (some (.retaining s.now maxAgeSecs [])))
    | some _ => none
  | .retain call agentId =>
    match s.calls call, s.queues agentId with
    | some (.retaining now maxAgeSecs visited), some _ =>
      if agentId ∈ visited then none
      else some (s.retain call agentId now maxAgeSecs visited)
    | _, _ => none
  | .collect call =>
    match s.calls call with
    | some (.retaining _ _ _) => some (s.setCall call (some (.collecting [] [])))
    | _ => none
  | .read call agentId =>
    match s.calls call, s.queues agentId with
    | some (.collecting visited empty), some entry =>
      if agentId ∈ visited then none
      else
        let empty' := if entry.isEmpty then empty ++ [agentId] else empty
        some (s.setCall call (some (.collecting (agentId :: visited) empty')))
    | _, _ => none
  | .sweep call =>
    match s.calls call with
    | some (.collecting _ empty) => some (s.setCall call (some (.removing empty)))
    | _ => none
  | .remove call =>
    match s.calls call with
    | some (.removing (agentId :: rest)) => some (s.remove call agentId rest)
    | _ => none
  | .finish call =>
    match s.calls call with
    | some (.removing []) => some (s.setCall call none)
    | _ => none

/-! ## What the operations do -/

theorem history_drain_of_ne (s : Store M) {agentId a : String} (call : Nat)
    (accepts : Nat → Bool) (h : a ≠ agentId) :
    (s.drain call agentId accepts).history a = s.history a := by
  unfold drain
  split
  · rfl
  · simp only
    split <;> simp [setCall, setHistory, h]

theorem history_drain_self (s : Store M) (call : Nat) (agentId : String)
    (accepts : Nat → Bool) :
    (s.drain call agentId accepts).history agentId =
      { s.history agentId with
        sent := (s.history agentId).sent ++
          (popLoop accepts (s.queues.pending agentId)).1 } := by
  unfold drain
  cases hentry : s.queues agentId with
  | none => simp [MessageQueue.pending, hentry, popLoop]
  | some entry =>
    have hpending : s.queues.pending agentId = entry := by
      simp [MessageQueue.pending, hentry]
    simp only [hpending]
    split <;> simp [setCall, setHistory]

theorem pending_drain_of_ne (s : Store M) {agentId a : String} (call : Nat)
    (accepts : Nat → Bool) (h : a ≠ agentId) :
    (s.drain call agentId accepts).queues.pending a = s.queues.pending a := by
  unfold drain
  split
  · rfl
  · simp only
    split <;> exact MessageQueue.pending_put_of_ne s.queues _ h

theorem pending_drain_self (s : Store M) (call : Nat) (agentId : String)
    (accepts : Nat → Bool) :
    (s.drain call agentId accepts).queues.pending agentId =
      (popLoop accepts (s.queues.pending agentId)).2 := by
  unfold drain
  cases hentry : s.queues agentId with
  | none => simp [MessageQueue.pending, hentry, popLoop]
  | some entry =>
    have hpending : s.queues.pending agentId = entry := by
      simp [MessageQueue.pending, hentry]
    simp only [hpending]
    split <;> simp [setCall, setHistory]

/-- A `drain_to` that nothing interrupts is `MessageQueue.drainTo`: it sends
the same messages, leaves the same entries, and its call is over. -/
theorem drain_refines_drainTo {s : Store M} {call : Nat} (hfree : s.calls call = none)
    (agentId : String) (accepts : Nat → Bool) :
    ∃ rest t, (∀ label ∈ rest, label = .removeIf call) ∧
      run step s (.drain call agentId accepts :: rest) = some t ∧
      t.calls call = none ∧
      t.queues = (s.queues.drainTo agentId accepts).2 ∧
      (t.history agentId).sent =
        (s.history agentId).sent ++ (s.queues.drainTo agentId accepts).1 := by
  have hdrain : s.step (.drain call agentId accepts) = some (s.drain call agentId accepts) := by
    simp [step, hfree]
  have hsent := congrArg History.sent (history_drain_self s call agentId accepts)
  rw [← MessageQueue.drainTo_fst] at hsent
  cases hentry : s.queues agentId with
  | none =>
    have hdone : s.drain call agentId accepts = s := by simp [drain, hentry]
    rw [hdone] at hdrain hsent
    refine ⟨[], s, by simp, by simp [run, hdrain], hfree, ?_, hsent⟩
    simp [MessageQueue.drainTo, hentry]
  | some entry =>
    cases hleft : (popLoop accepts entry).2.isEmpty with
    | false =>
      -- messages are left, so the loop is all there is
      refine ⟨[], s.drain call agentId accepts, by simp, by simp [run, hdrain], ?_, ?_, hsent⟩
      · simp [drain, hentry, hleft, setHistory, hfree]
      · simp [drain, MessageQueue.drainTo, hentry, hleft, setHistory]
    | true =>
      have hemptied : (s.drain call agentId accepts).calls call = some (.emptied agentId) := by
        simp [drain, hentry, hleft, setCall]
      refine ⟨[.removeIf call], { s.drain call agentId accepts with
          queues := (s.drain call agentId accepts).queues.removeIf agentId }.setCall call none,
        by simp, ?_, by simp [setCall], ?_, hsent⟩
      · rw [run_cons_eq_some]
        exact ⟨_, hdrain, by simp [run, step, hemptied]⟩
      · simp [drain, MessageQueue.drainTo, hentry, hleft, setHistory, setCall]

/-! ## What a step does -/

/-- Four kinds of step change what waits or what is recorded.  Every other
step leaves both as they were. -/
theorem step_cases {s t : Store M} {label : Label M} (h : s.step label = some t) :
    (t.history = s.history ∧ (∀ a, t.queues.pending a = s.queues.pending a)) ∨
      (∃ agentId msg, label = .enqueue agentId msg ∧ t = s.enqueue agentId msg) ∨
      (∃ call agentId accepts, label = .drain call agentId accepts ∧
        t = s.drain call agentId accepts) ∨
      (∃ call agentId now maxAgeSecs visited, label = .retain call agentId ∧
        s.calls call = some (.retaining now maxAgeSecs visited) ∧
        t = s.retain call agentId now maxAgeSecs visited) ∨
      (∃ call agentId rest, label = .remove call ∧
        s.calls call = some (.removing (agentId :: rest)) ∧
        t = s.remove call agentId rest) := by
  cases label with
  | advance elapsed =>
    have ht : _ = t := Option.some.inj h
    subst ht
    exact Or.inl ⟨rfl, fun _ => rfl⟩
  | enqueue agentId msg =>
    exact Or.inr (Or.inl ⟨agentId, msg, rfl, (Option.some.inj h).symm⟩)
  | drain call agentId accepts =>
    simp only [step] at h
    split at h
    · exact Or.inr (Or.inr (Or.inl ⟨call, agentId, accepts, rfl, (Option.some.inj h).symm⟩))
    · simp at h
  | removeIf call =>
    simp only [step] at h
    split at h
    · have ht : _ = t := Option.some.inj h
      subst ht
      exact Or.inl ⟨rfl, fun a => MessageQueue.pending_removeIf _ _ a⟩
    · simp at h
  | retain call agentId =>
    simp only [step] at h
    split at h
    · rename_i now maxAgeSecs visited entry hstage _
      split at h
      · simp at h
      · exact Or.inr (Or.inr (Or.inr (Or.inl
          ⟨call, agentId, now, maxAgeSecs, visited, rfl, hstage, (Option.some.inj h).symm⟩)))
    · simp at h
  | remove call =>
    simp only [step] at h
    split at h
    · rename_i agentId rest hstage
      exact Or.inr (Or.inr (Or.inr (Or.inr
        ⟨call, agentId, rest, rfl, hstage, (Option.some.inj h).symm⟩)))
    · simp at h
  | prune call _ | collect call | sweep call | finish call =>
    simp only [step] at h
    split at h
    · have ht : _ = t := Option.some.inj h
      subst ht
      exact Or.inl ⟨rfl, fun _ => rfl⟩
    · simp at h
  | read call agentId =>
    simp only [step] at h
    split at h
    · split at h
      · simp at h
      · have ht : _ = t := Option.some.inj h
        subst ht
        exact Or.inl ⟨rfl, fun _ => rfl⟩
    · simp at h

/-- The clock does not go back, and a `prune_old` works with the clock of its
own start. -/
theorem step_clock {s t : Store M} {label : Label M} (h : s.step label = some t) :
    s.now ≤ t.now ∧
      ∀ call now maxAgeSecs visited,
        t.calls call = some (.retaining now maxAgeSecs visited) →
        now = s.now ∨ ∃ visited', s.calls call = some (.retaining now maxAgeSecs visited') := by
  -- a call that takes a step either ends or moves on to a stage of its own
  have hset : ∀ (u : Store M) (call : Nat) (stage : Option Cleanup), u.calls = s.calls →
      (∀ now maxAgeSecs visited, stage = some (.retaining now maxAgeSecs visited) →
        now = s.now ∨
          ∃ visited', s.calls call = some (.retaining now maxAgeSecs visited')) →
      ∀ other now maxAgeSecs visited,
        (u.setCall call stage).calls other = some (.retaining now maxAgeSecs visited) →
        now = s.now ∨
          ∃ visited', s.calls other = some (.retaining now maxAgeSecs visited') := by
    intro u call stage hcalls hstage other now maxAgeSecs visited hother
    by_cases heq : other = call
    · subst heq
      simp only [setCall, Function.update_self] at hother
      exact hstage now maxAgeSecs visited hother
    · simp only [setCall, Function.update_of_ne heq, hcalls] at hother
      exact Or.inr ⟨visited, hother⟩
  cases label with
  | advance elapsed =>
    have ht : _ = t := Option.some.inj h
    subst ht
    refine ⟨?_, fun call now maxAgeSecs visited hcall => Or.inr ⟨visited, hcall⟩⟩
    simp only
    omega
  | enqueue agentId msg =>
    have ht : _ = t := Option.some.inj h
    subst ht
    exact ⟨Int.le_refl _, fun call now maxAgeSecs visited hcall => Or.inr ⟨visited, hcall⟩⟩
  | drain call agentId accepts =>
    simp only [step] at h
    split at h
    · have ht : _ = t := Option.some.inj h
      subst ht
      unfold drain
      split
      · exact ⟨Int.le_refl _, fun call now maxAgeSecs visited hcall => Or.inr ⟨visited, hcall⟩⟩
      · simp only
        split
        · exact ⟨Int.le_refl _, hset _ _ _ rfl (by simp)⟩
        · exact ⟨Int.le_refl _, fun call now maxAgeSecs visited hcall => Or.inr ⟨visited, hcall⟩⟩
    · simp at h
  | retain call agentId =>
    simp only [step] at h
    split at h
    · rename_i now maxAgeSecs visited entry hstage _
      split at h
      · simp at h
      · have ht : _ = t := Option.some.inj h
        subst ht
        refine ⟨Int.le_refl _,
          hset _ _ _ rfl fun now' maxAgeSecs' visited' heq => Or.inr ⟨visited, ?_⟩⟩
        simp only [Option.some.injEq, Cleanup.retaining.injEq] at heq
        rw [hstage, heq.1, heq.2.1]
    · simp at h
  | prune call maxAgeSecs =>
    simp only [step] at h
    split at h
    · have ht : _ = t := Option.some.inj h
      subst ht
      refine ⟨Int.le_refl _, hset _ _ _ rfl fun now' maxAgeSecs' visited' heq => Or.inl ?_⟩
      simp only [Option.some.injEq, Cleanup.retaining.injEq] at heq
      exact heq.1.symm
    · simp at h
  | removeIf call | collect call | sweep call | remove call | finish call =>
    simp only [step] at h
    split at h
    · have ht : _ = t := Option.some.inj h
      subst ht
      exact ⟨Int.le_refl _, hset _ _ _ rfl (by simp)⟩
    · simp at h
  | read call agentId =>
    simp only [step] at h
    split at h
    · split at h
      · simp at h
      · have ht : _ = t := Option.some.inj h
        subst ht
        exact ⟨Int.le_refl _, hset _ _ _ rfl (by simp)⟩
    · simp at h

/-- Upkeep takes nothing in and sends nothing. -/
theorem history_upkeep {s t : Store M} {label : Label M} (hlabel : label.isUpkeep = true)
    (h : s.step label = some t) (a : String) :
    (t.history a).enqueued = (s.history a).enqueued ∧
      (t.history a).sent = (s.history a).sent := by
  rcases step_cases h with ⟨hhistory, _⟩ | ⟨agentId, msg, rfl, _⟩ |
    ⟨call, agentId, accepts, rfl, _⟩ |
    ⟨call, agentId, now, maxAgeSecs, visited, rfl, _, rfl⟩ |
    ⟨call, agentId, rest, rfl, _, rfl⟩
  · rw [hhistory]
    exact ⟨rfl, rfl⟩
  · exact absurd hlabel (by simp [Label.isUpkeep])
  · exact absurd hlabel (by simp [Label.isUpkeep])
  · by_cases ha : a = agentId <;> simp [retain, setCall, setHistory, ha]
  · by_cases ha : a = agentId <;> simp [remove, setCall, setHistory, ha]

/-- Upkeep lets messages go and keeps the order of the others. -/
theorem pending_upkeep {s t : Store M} {label : Label M} (hlabel : label.isUpkeep = true)
    (h : s.step label = some t) (a : String) :
    (t.queues.pending a).Sublist (s.queues.pending a) := by
  rcases step_cases h with ⟨_, hpending⟩ | ⟨agentId, msg, rfl, _⟩ |
    ⟨call, agentId, accepts, rfl, _⟩ |
    ⟨call, agentId, now, maxAgeSecs, visited, rfl, _, rfl⟩ |
    ⟨call, agentId, rest, rfl, _, rfl⟩
  · rw [hpending]
  · exact absurd hlabel (by simp [Label.isUpkeep])
  · exact absurd hlabel (by simp [Label.isUpkeep])
  · by_cases ha : a = agentId
    · subst ha
      simp only [retain, setCall, setHistory, MessageQueue.pending_retainFresh_self]
      exact List.filter_sublist
    · simp only [retain, setCall, setHistory,
        MessageQueue.pending_retainFresh_of_ne s.queues now maxAgeSecs ha]
      exact List.Sublist.refl _
  · by_cases ha : a = agentId
    · subst ha
      simp [remove, setCall, setHistory]
    · simp only [remove, setCall, setHistory, MessageQueue.pending_remove_of_ne s.queues ha]
      exact List.Sublist.refl _

end Store

/-! ## Conservation -/

variable {M : Type*}

/-- What was enqueued for an agent is a permutation of what was sent, what
waits, what was dropped for its age, and what was swept. -/
structure History.Accounts (history : History M) (waiting : List (QueuedMessage M)) :
    Prop where
  perm : history.enqueued.Perm
    (history.sent ++ waiting ++ history.expired.map Expiry.message ++ history.swept)
  aged : ∀ expiry ∈ history.expired, expiry.Aged

namespace History.Accounts

variable {history : History M} {waiting : List (QueuedMessage M)}

theorem enqueue (h : history.Accounts waiting) (qm : QueuedMessage M) :
    Accounts { history with enqueued := history.enqueued ++ [qm] } (waiting ++ [qm]) where
  perm := by
    refine (h.perm.append_right [qm]).trans ?_
    simp only [List.append_assoc]
    refine List.Perm.append_left history.sent (List.Perm.append_left waiting ?_)
    rw [← List.append_assoc]
    exact List.perm_append_comm
  aged := h.aged

theorem send {sent left : List (QueuedMessage M)} (h : history.Accounts (sent ++ left)) :
    Accounts { history with sent := history.sent ++ sent } left where
  perm := by
    have hperm := h.perm
    rwa [← List.append_assoc] at hperm
  aged := h.aged

theorem expire {p : QueuedMessage M → Bool} {droppedAt maxAgeSecs : Int}
    (h : history.Accounts waiting)
    (haged : ∀ qm ∈ waiting, p qm = false →
      (⟨qm, droppedAt, maxAgeSecs⟩ : Expiry M).Aged) :
    Accounts
      { history with
        expired := history.expired ++
          (waiting.filter (fun qm => !p qm)).map fun qm => ⟨qm, droppedAt, maxAgeSecs⟩ }
      (waiting.filter p) where
  perm := by
    have hsplit : waiting ~ waiting.filter p ++ waiting.filter (fun qm => !p qm) :=
      (List.filter_append_perm p waiting).symm
    refine h.perm.trans (List.Perm.append_right history.swept ?_)
    simp only [List.map_append, List.map_map, Function.comp_def, List.map_id', List.append_assoc]
    refine List.Perm.append_left history.sent ?_
    calc waiting ++ history.expired.map Expiry.message
        ~ (waiting.filter p ++ waiting.filter (fun qm => !p qm)) ++
            history.expired.map Expiry.message := hsplit.append_right _
      _ = waiting.filter p ++ (waiting.filter (fun qm => !p qm) ++
            history.expired.map Expiry.message) := List.append_assoc ..
      _ ~ waiting.filter p ++ (history.expired.map Expiry.message ++
            waiting.filter (fun qm => !p qm)) := List.perm_append_comm.append_left _
  aged := by
    intro expiry hmem
    rcases List.mem_append.mp hmem with hold | hnew
    · exact h.aged expiry hold
    · obtain ⟨qm, hqm, rfl⟩ := List.mem_map.mp hnew
      obtain ⟨hwaits, hp⟩ := List.mem_filter.mp hqm
      exact haged qm hwaits (by simpa using hp)

theorem sweep (h : history.Accounts waiting) :
    Accounts { history with swept := history.swept ++ waiting } [] where
  perm := by
    refine h.perm.trans ?_
    simp only [List.append_nil, List.append_assoc]
    refine List.Perm.append_left history.sent ?_
    have hlast : waiting ++ (history.expired.map Expiry.message ++ history.swept) ~
        (history.expired.map Expiry.message ++ history.swept) ++ waiting :=
      List.perm_append_comm
    simpa only [List.append_assoc] using hlast
  aged := h.aged

end History.Accounts

namespace Store

/-- The account of every agent. -/
def Accounted (s : Store M) : Prop :=
  ∀ a, (s.history a).Accounts (s.queues.pending a)

/-- Each `prune_old` in progress read the clock in the past. -/
def ClockRead (s : Store M) : Prop :=
  ∀ call now maxAgeSecs visited,
    s.calls call = some (.retaining now maxAgeSecs visited) → now ≤ s.now

theorem ClockRead.step {s t : Store M} {label : Label M} (h : s.ClockRead)
    (hstep : s.step label = some t) : t.ClockRead := by
  obtain ⟨hle, hcalls⟩ := step_clock hstep
  intro call now maxAgeSecs visited hcall
  rcases hcalls call now maxAgeSecs visited hcall with heq | ⟨visited', hold⟩
  · omega
  · have hread := h call now maxAgeSecs visited' hold
    omega

/-- A step that changes the queue and the history of one agent only. -/
theorem Accounted.of_agent {s t : Store M} (h : s.Accounted) (agentId : String)
    (hothers : ∀ a, a ≠ agentId →
      t.history a = s.history a ∧ t.queues.pending a = s.queues.pending a)
    (hself : (t.history agentId).Accounts (t.queues.pending agentId)) : t.Accounted := by
  intro a
  by_cases ha : a = agentId
  · rw [ha]
    exact hself
  · obtain ⟨hhistory, hpending⟩ := hothers a ha
    rw [hhistory, hpending]
    exact h a

theorem Accounted.enqueue {s : Store M} (h : s.Accounted) (agentId : String) (msg : M) :
    (s.enqueue agentId msg).Accounted := by
  refine h.of_agent agentId (fun a ha => ⟨?_, ?_⟩) ?_
  · simp [Store.enqueue, setHistory, ha]
  · exact MessageQueue.pending_enqueue_of_ne s.queues msg s.now ha
  · simp only [Store.enqueue, setHistory, Function.update_self,
      MessageQueue.pending_enqueue_self]
    exact (h agentId).enqueue ⟨msg, s.now, 0⟩

theorem Accounted.drain {s : Store M} (h : s.Accounted) (call : Nat) (agentId : String)
    (accepts : Nat → Bool) : (s.drain call agentId accepts).Accounted := by
  refine h.of_agent agentId (fun a ha => ⟨?_, ?_⟩) ?_
  · exact history_drain_of_ne s call accepts ha
  · exact pending_drain_of_ne s call accepts ha
  · rw [history_drain_self, pending_drain_self]
    have haccounts := h agentId
    rw [← popLoop_append accepts (s.queues.pending agentId)] at haccounts
    exact haccounts.send

theorem Accounted.retain {s : Store M} (h : s.Accounted) (call : Nat) (agentId : String)
    {now maxAgeSecs : Int} (visited : List String) (hclock : now ≤ s.now) :
    (s.retain call agentId now maxAgeSecs visited).Accounted := by
  refine h.of_agent agentId (fun a ha => ⟨?_, ?_⟩) ?_
  · simp [Store.retain, setCall, setHistory, ha]
  · exact MessageQueue.pending_retainFresh_of_ne s.queues now maxAgeSecs ha
  · simp only [Store.retain, setCall, setHistory, Function.update_self,
      MessageQueue.pending_retainFresh_self]
    refine (h agentId).expire fun qm _ hstale => ?_
    -- the clock of the step is past the clock that the call read
    have hage : maxAgeSecs ≤ numSeconds (now - qm.enqueuedAt) := by
      simpa [QueuedMessage.isFresh] using hstale
    have hmono : numSeconds (now - qm.enqueuedAt) ≤ numSeconds (s.now - qm.enqueuedAt) :=
      numSeconds_mono (by omega)
    exact Int.le_trans hage hmono

theorem Accounted.remove {s : Store M} (h : s.Accounted) (call : Nat) (agentId : String)
    (rest : List String) : (s.remove call agentId rest).Accounted := by
  refine h.of_agent agentId (fun a ha => ⟨?_, ?_⟩) ?_
  · simp [Store.remove, setCall, setHistory, ha]
  · exact MessageQueue.pending_remove_of_ne s.queues ha
  · simp only [Store.remove, setCall, setHistory, Function.update_self,
      MessageQueue.pending_remove_self]
    exact (h agentId).sweep

theorem Accounted.step {s t : Store M} {label : Label M} (h : s.Accounted)
    (hclock : s.ClockRead) (hstep : s.step label = some t) : t.Accounted := by
  rcases step_cases hstep with ⟨hhistory, hpending⟩ | ⟨agentId, msg, rfl, rfl⟩ |
    ⟨call, agentId, accepts, rfl, rfl⟩ |
    ⟨call, agentId, now, maxAgeSecs, visited, rfl, hcall, rfl⟩ |
    ⟨call, agentId, rest, rfl, hcall, rfl⟩
  · intro a
    rw [hhistory, hpending]
    exact h a
  · exact h.enqueue agentId msg
  · exact h.drain call agentId accepts
  · exact h.retain call agentId visited (hclock call now maxAgeSecs visited hcall)
  · exact h.remove call agentId rest

theorem accounted_start (now : Int) : (start now : Store M).Accounted := fun _ =>
  { perm := List.Perm.refl [], aged := by simp [start] }

theorem clockRead_start (now : Int) : (start now : Store M).ClockRead := by
  simp [ClockRead, start]

/-! ## Nothing fresh is lost -/

/-- What was enqueued for an agent is a permutation of what was sent, what
waits, and what was dropped for its age. -/
structure ConservedFor (s : Store M) (a : String) : Prop where
  perm : (s.history a).enqueued.Perm
    ((s.history a).sent ++ s.queues.pending a ++ (s.history a).expired.map Expiry.message)
  aged : ∀ expiry ∈ (s.history a).expired, expiry.Aged

/-- The conservation law, for every agent. -/
def Conserved (s : Store M) : Prop := ∀ a, s.ConservedFor a

theorem conserved_iff_swept {s : Store M} (h : s.Accounted) :
    s.Conserved ↔ ∀ a, (s.history a).swept = [] := by
  constructor
  · intro hconserved a
    have hlength := (h a).perm.length_eq.symm.trans (hconserved a).perm.length_eq
    simp only [List.length_append, List.length_map] at hlength
    exact List.eq_nil_of_length_eq_zero (by omega)
  · intro hswept a
    have hperm := (h a).perm
    rw [hswept a, List.append_nil] at hperm
    exact ⟨hperm, (h a).aged⟩

/-- The condition on a step: a final `remove` finds nothing in its queue. -/
def RemovesEmpty (s : Store M) : Label M → Prop
  | .remove call =>
    ∀ agentId rest, s.calls call = some (.removing (agentId :: rest)) →
      s.queues.pending agentId = []
  | _ => True

theorem swept_step {s t : Store M} {label : Label M}
    (h : ∀ a, (s.history a).swept = []) (hok : s.RemovesEmpty label)
    (hstep : s.step label = some t) (a : String) : (t.history a).swept = [] := by
  rcases step_cases hstep with ⟨hhistory, _⟩ | ⟨agentId, msg, rfl, rfl⟩ |
    ⟨call, agentId, accepts, rfl, rfl⟩ |
    ⟨call, agentId, now, maxAgeSecs, visited, rfl, _, rfl⟩ |
    ⟨call, agentId, rest, rfl, hcall, rfl⟩
  · rw [hhistory]
    exact h a
  · by_cases ha : a = agentId
    · simp [Store.enqueue, setHistory, ha, h]
    · simp [Store.enqueue, setHistory, ha, h]
  · by_cases ha : a = agentId
    · rw [ha, history_drain_self]
      exact h agentId
    · rw [history_drain_of_ne s call accepts ha]
      exact h a
  · by_cases ha : a = agentId
    · simp [Store.retain, setCall, setHistory, ha, h]
    · simp [Store.retain, setCall, setHistory, ha, h]
  · have hempty : s.queues.pending agentId = [] := hok agentId rest hcall
    by_cases ha : a = agentId
    · simp [Store.remove, setCall, setHistory, ha, h, hempty]
    · simp [Store.remove, setCall, setHistory, ha, h]

/-- A `remove` of a queue that holds messages shows in the history. -/
theorem removesEmpty_of_swept {s t : Store M} {label : Label M}
    (h : ∀ a, (t.history a).swept = []) (hstep : s.step label = some t) :
    s.RemovesEmpty label := by
  cases label with
  | remove call =>
    intro agentId rest hcall
    have ht : t = s.remove call agentId rest := by
      simpa [Store.step, hcall] using hstep.symm
    subst ht
    have hswept := h agentId
    simp only [Store.remove, setCall, setHistory, Function.update_self,
      List.append_eq_nil_iff] at hswept
    exact hswept.2
  | _ => trivial

/-- Everything is accounted for, and nothing was swept. -/
structure Intact (s : Store M) : Prop where
  accounted : s.Accounted
  clockRead : s.ClockRead
  swept : ∀ a, (s.history a).swept = []

theorem Intact.step {s t : Store M} {label : Label M} (h : s.Intact)
    (hok : s.RemovesEmpty label) (hstep : s.step label = some t) : t.Intact where
  accounted := h.accounted.step h.clockRead hstep
  clockRead := h.clockRead.step hstep
  swept := swept_step h.swept hok hstep

theorem intact_start (now : Int) : (start now : Store M).Intact :=
  ⟨accounted_start now, clockRead_start now, fun _ => rfl⟩

/-- Messages are conserved along a run exactly when each final `remove` of a
`prune_old` finds its queue empty. -/
theorem conserved_iff_removesEmpty (now : Int) (labels : List (Label M)) (s : Store M)
    (hrun : run step (start now) labels = some s) :
    Always step Conserved (start now : Store M) labels ↔
      Guarded step RemovesEmpty (start now) labels := by
  refine always_iff_guarded (fun _ _ _ h hok hstep => Intact.step h hok hstep) ?_ ?_
    (intact_start now) hrun
  · intro s h
    exact (conserved_iff_swept h.accounted).mpr h.swept
  · intro s label t h hbad hstep hconserved
    have haccounted := h.accounted.step h.clockRead hstep
    have hswept := (conserved_iff_swept haccounted).mp hconserved
    exact hbad (removesEmpty_of_swept hswept hstep)

/-- The hourly message of an agent expires, and `prune_old` finds its queue
empty.  A fresh message comes in before the final `remove`. -/
def raceRun : List (Label String) :=
  [.enqueue "agent-a" "old", .advance 3600000000000,
   .prune 0 3600, .retain 0 "agent-a", .collect 0, .read 0 "agent-a", .sweep 0,
   .enqueue "agent-a" "fresh", .remove 0]

/-- The fresh message is neither sent nor queued, and no `retain` dropped
it. -/
theorem lost_between_read_and_remove :
    ¬ ∀ (now : Int) (labels : List (Label String)) (s : Store String),
        run step (start now) labels = some s → s.Conserved := by
  intro h
  have hreached : run step (start 0) raceRun =
      some ((run step (start 0) raceRun).getD (start 0)) := rfl
  have hlength := (h 0 raceRun _ hreached "agent-a").perm.length_eq
  exact absurd hlength (by decide)

/-- The same without the race: the fresh message comes in after the call, and
a drain sends it. -/
def sweptRun : List (Label String) :=
  [.enqueue "agent-a" "old", .advance 3600000000000,
   .prune 0 3600, .retain 0 "agent-a", .collect 0, .read 0 "agent-a", .sweep 0,
   .remove 0, .finish 0,
   .enqueue "agent-a" "fresh", .drain 1 "agent-a" (fun _ => true), .removeIf 1]

theorem sweptRun_removesEmpty : Guarded step RemovesEmpty (start 0) sweptRun := by
  refine (guarded_cons rfl).mpr ⟨trivial, (guarded_cons rfl).mpr ⟨trivial, ?_⟩⟩
  refine (guarded_cons rfl).mpr ⟨trivial, (guarded_cons rfl).mpr ⟨trivial, ?_⟩⟩
  refine (guarded_cons rfl).mpr ⟨trivial, (guarded_cons rfl).mpr ⟨trivial, ?_⟩⟩
  refine (guarded_cons rfl).mpr ⟨trivial, (guarded_cons rfl).mpr ⟨?_, ?_⟩⟩
  · intro agentId rest hcall
    have hids : some (Cleanup.removing ["agent-a"]) = some (.removing (agentId :: rest)) :=
      hcall
    cases hids
    rfl
  refine (guarded_cons rfl).mpr ⟨trivial, (guarded_cons rfl).mpr ⟨trivial, ?_⟩⟩
  exact (guarded_cons rfl).mpr ⟨trivial, (guarded_cons rfl).mpr ⟨trivial, trivial⟩⟩

/-- No state of `sweptRun` has lost a message. -/
theorem conserved_iff_removesEmpty_swept :
    Always step Conserved (start 0 : Store String) sweptRun :=
  (conserved_iff_removesEmpty 0 sweptRun
    ((run step (start 0) sweptRun).getD (start 0)) rfl).mpr sweptRun_removesEmpty

end Store

end Xfiles.Queue
