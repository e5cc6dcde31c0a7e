import Mathlib.Data.List.Nodup
import Xfiles.Lib.Transition
import Xfiles.Queue.Basic

/-!
# The accounts of the message queue

The queue with its operations taken one at a time.  Every message that was
enqueued for an agent was sent, waits, or was found too old, and the order is
kept.

* `pruneOld`, `stats` and the counter of `drain_to` follow the source.  The
  iterator of the map visits its entries in some order, which is an argument.
* `Ledger` adds books to the queue: what was enqueued, what was sent, and which
  messages a `prune_old` found to be old by the clock.  Each message carries
  its serial number, so that two equal messages can be told apart.
* `Balanced` is the invariant, and `balanced_step` is the step lemma.
* `exact_accounting` is the result for runs.
-/

namespace Xfiles.Queue

open Transition

variable {M : Type*}

/-! ## The operations as a whole -/

/-- The loop of `drain_to` with its counter: what it sends, what it leaves, and
the number that it returns. -/
def drainLoop (accepts : Nat → Bool) (delivered : Nat) :
    List (QueuedMessage M) → List (QueuedMessage M) × List (QueuedMessage M) × Nat
  | [] => ([], [], delivered)
  | qm :: rest =>
    if accepts delivered then
      let tail := drainLoop accepts (delivered + 1) rest
      (qm :: tail.1, tail.2)
    else ([], qm :: rest, delivered)

/-- The counter counts what the loop sends. -/
theorem drainLoop_eq (accepts : Nat → Bool) (delivered : Nat) (entry : List (QueuedMessage M)) :
    drainLoop accepts delivered entry =
      ((popLoop (fun i => accepts (delivered + i)) entry).1,
        (popLoop (fun i => accepts (delivered + i)) entry).2,
        delivered + (popLoop (fun i => accepts (delivered + i)) entry).1.length) := by
  induction entry generalizing delivered with
  | nil => rfl
  | cons qm rest ih =>
    have hshift : (fun i => accepts (delivered + (i + 1))) =
        fun i => accepts (delivered + 1 + i) := by
      funext i
      exact congrArg accepts (by omega)
    cases haccept : accepts delivered with
    | true =>
      simp only [drainLoop, popLoop, haccept, hshift, ih, Nat.add_zero, if_true, List.length_cons]
      rw [Nat.add_right_comm, Nat.add_assoc]
    | false => simp [drainLoop, popLoop, haccept]

namespace MessageQueue

/-- The keys of the map, each once, in the order of its iterator. -/
def Enumerates (queues : MessageQueue M) (visited : List String) : Prop :=
  visited.Nodup ∧ ∀ agentId, agentId ∈ visited ↔ (queues agentId).isSome

/-- The number that `drain_to` returns. -/
def delivered (queues : MessageQueue M) (agentId : String) (accepts : Nat → Bool) : Nat :=
  match queues agentId with
  | none => 0
  | some entry => (drainLoop accepts 0 entry).2.2

/-- `prune_old`: a pass that retains, and a pass that removes empty queues. -/
def pruneOld (queues : MessageQueue M) (visited : List String) (now maxAgeSecs : Int) :
    MessageQueue M :=
  let retained := visited.foldl (fun queues agentId => queues.retainFresh agentId now maxAgeSecs)
    queues
  -- remove empty queues
  let empty := visited.filter fun agentId => (retained agentId).any List.isEmpty
  empty.foldl remove retained

def stats (queues : MessageQueue M) (visited : List String) : List (String × Nat) :=
  visited.filterMap fun agentId => (queues agentId).map fun entry => (agentId, entry.length)

theorem delivered_eq (queues : MessageQueue M) (agentId : String) (accepts : Nat → Bool) :
    queues.delivered agentId accepts = (queues.drainTo agentId accepts).1.length := by
  rw [drainTo_fst, pending, delivered]
  cases queues agentId with
  | none => rfl
  | some entry =>
    show (drainLoop accepts 0 entry).2.2 = _
    rw [drainLoop_eq]
    simp

theorem retainFresh_apply (queues : MessageQueue M) (agentId other : String)
    (now maxAgeSecs : Int) :
    queues.retainFresh agentId now maxAgeSecs other =
      if other = agentId then (queues other).map (·.filter (·.isFresh now maxAgeSecs))
      else queues other := by
  rw [retainFresh]
  by_cases h : other = agentId
  · rw [if_pos h, h]
    cases hentry : queues agentId with
    | none => exact hentry
    | some entry => exact Function.update_self ..
  · rw [if_neg h]
    cases queues agentId with
    | none => rfl
    | some entry => exact Function.update_of_ne h ..

theorem foldl_retainFresh (queues : MessageQueue M) (visited : List String)
    (now maxAgeSecs : Int) (other : String) :
    visited.foldl (fun queues agentId => queues.retainFresh agentId now maxAgeSecs) queues other =
      if other ∈ visited then (queues other).map (·.filter (·.isFresh now maxAgeSecs))
      else queues other := by
  induction visited generalizing queues with
  | nil => simp
  | cons agentId rest ih =>
    rw [List.foldl_cons, ih, retainFresh_apply]
    by_cases hhead : other = agentId
    · -- a second `retain` with the same clock drops nothing more
      rw [if_pos hhead, if_pos (List.mem_cons.mpr (Or.inl hhead)), Option.map_map]
      have htwice : ((·.filter (·.isFresh now maxAgeSecs)) ∘ (·.filter (·.isFresh now maxAgeSecs)) :
          List (QueuedMessage M) → _) = (·.filter (·.isFresh now maxAgeSecs)) := by
        funext entry
        simp
      rw [htwice, ite_self]
    · rw [if_neg hhead]
      simp only [List.mem_cons, hhead, false_or]

theorem foldl_remove (queues : MessageQueue M) (empty : List String) (other : String) :
    empty.foldl remove queues other = if other ∈ empty then none else queues other := by
  induction empty generalizing queues with
  | nil => simp
  | cons agentId rest ih =>
    rw [List.foldl_cons, ih, remove]
    by_cases hhead : other = agentId
    · rw [hhead, Function.update_self, ite_self, if_pos List.mem_cons_self]
    · rw [Function.update_of_ne hhead]
      simp only [List.mem_cons, hhead, false_or]

/-- What a pass over all entries leaves of each queue. -/
theorem pruneOld_apply {queues : MessageQueue M} {visited : List String}
    (h : queues.Enumerates visited) (now maxAgeSecs : Int) (agentId : String) :
    queues.pruneOld visited now maxAgeSecs agentId =
      ((queues agentId).map (·.filter (·.isFresh now maxAgeSecs))).filter (!·.isEmpty) := by
  have hretained : ∀ other,
      visited.foldl (fun queues agentId => queues.retainFresh agentId now maxAgeSecs) queues other =
        (queues other).map (·.filter (·.isFresh now maxAgeSecs)) := by
    intro other
    rw [foldl_retainFresh]
    split_ifs with hmem
    · rfl
    · rw [h.2, Option.not_isSome_iff_eq_none] at hmem
      rw [hmem]
      rfl
  rw [pruneOld, foldl_remove, hretained]
  simp only [hretained, List.mem_filter, h.2]
  cases queues agentId with
  | none => simp
  | some entry =>
    simp only [Option.isSome_some, Option.map_some, Option.any_some, true_and, Option.filter_some]
    cases (entry.filter (·.isFresh now maxAgeSecs)).isEmpty with
    | false => rfl
    | true => rfl

theorem pending_pruneOld {queues : MessageQueue M} {visited : List String}
    (h : queues.Enumerates visited) (now maxAgeSecs : Int) (agentId : String) :
    (queues.pruneOld visited now maxAgeSecs).pending agentId =
      (queues.pending agentId).filter (·.isFresh now maxAgeSecs) := by
  rw [pending, pending, pruneOld_apply h]
  cases queues agentId with
  | none => rfl
  | some entry =>
    rw [Option.map_some, Option.filter_some, Option.getD_some]
    cases hleft : (entry.filter (·.isFresh now maxAgeSecs)).isEmpty with
    | false => rfl
    | true => exact (List.isEmpty_iff.mp hleft).symm

/-! ### No empty queue is left -/

def NoEmpty (queues : MessageQueue M) : Prop := ∀ agentId, queues agentId ≠ some []

theorem noEmpty_enqueue {queues : MessageQueue M} (h : queues.NoEmpty) (agentId : String) (msg : M)
    (now : Int) : (queues.enqueue agentId msg now).NoEmpty := by
  intro other
  rw [enqueue]
  by_cases heq : other = agentId
  · rw [heq, Function.update_self]
    simp
  · rw [Function.update_of_ne heq]
    exact h other

theorem noEmpty_drainTo {queues : MessageQueue M} (h : queues.NoEmpty) (agentId : String)
    (accepts : Nat → Bool) : (queues.drainTo agentId accepts).2.NoEmpty := by
  intro other
  rw [drainTo]
  cases hentry : queues agentId with
  | none => exact h other
  | some entry =>
    have hself : queues.put agentId (popLoop accepts entry).2 agentId =
        some (popLoop accepts entry).2 := Function.update_self ..
    have hother : other ≠ agentId →
        queues.put agentId (popLoop accepts entry).2 other = queues other :=
      fun hne => Function.update_of_ne hne ..
    show (if (popLoop accepts entry).2.isEmpty then _ else _ : MessageQueue M) other ≠ _
    cases hleft : (popLoop accepts entry).2 with
    | nil =>
      rw [hleft] at hself hother
      rw [List.isEmpty_nil, if_pos rfl, removeIf, hself]
      by_cases heq : other = agentId
      · rw [heq]
        exact fun hbad => absurd ((Function.update_self ..).symm.trans hbad) (by simp)
      · exact fun hbad => h other
          (((hother heq).symm.trans (Function.update_of_ne heq ..).symm).trans hbad)
    | cons qm rest =>
      rw [hleft] at hself hother
      rw [List.isEmpty_cons, if_neg (by simp)]
      by_cases heq : other = agentId
      · rw [heq, hself]
        simp
      · rw [hother heq]
        exact h other

theorem noEmpty_pruneOld {queues : MessageQueue M} {visited : List String}
    (h : queues.Enumerates visited) (now maxAgeSecs : Int) :
    (queues.pruneOld visited now maxAgeSecs).NoEmpty := by
  intro agentId hbad
  rw [pruneOld_apply h, Option.filter_eq_some_iff] at hbad
  exact absurd hbad.2 (by simp)

/-- With no empty queue, the statistics list exactly the agents for whom
something waits. -/
theorem mem_stats {queues : MessageQueue M} (hempty : queues.NoEmpty) {visited : List String}
    (h : queues.Enumerates visited) (agentId : String) (count : Nat) :
    (agentId, count) ∈ queues.stats visited ↔
      queues.pending agentId ≠ [] ∧ count = (queues.pending agentId).length := by
  rw [stats, List.mem_filterMap, pending]
  constructor
  · rintro ⟨other, -, hentry⟩
    obtain ⟨entry, hfound, heq⟩ := Option.map_eq_some_iff.mp hentry
    obtain ⟨rfl, rfl⟩ := Prod.mk.inj heq
    rw [hfound]
    exact ⟨fun hnil => hempty other (by rw [hfound, show entry = [] from hnil]), rfl⟩
  · rintro ⟨hne, rfl⟩
    cases hfound : queues agentId with
    | none =>
      rw [hfound] at hne
      exact absurd rfl hne
    | some entry =>
      exact ⟨agentId, (h.2 agentId).mpr (by rw [hfound]; rfl), by rw [hfound]; rfl⟩

end MessageQueue

/-! ## The books -/

/-- A message with its serial number. -/
abbrev Numbered (M : Type*) := QueuedMessage (Nat × M)

namespace QueuedMessage

def serial (qm : Numbered M) : Nat := qm.msg.1

/-- At the given clock the message is at least `maxAgeSecs` seconds old. -/
def isOld (now maxAgeSecs : Int) (qm : Numbered M) : Bool :=
  1000000000 * maxAgeSecs ≤ now - qm.enqueuedAt

/-- For a message from the past, `retain` drops exactly what is old. -/
theorem isFresh_eq_not_isOld {now maxAgeSecs : Int} {qm : Numbered M}
    (h : qm.enqueuedAt ≤ now) : qm.isFresh now maxAgeSecs = !qm.isOld now maxAgeSecs := by
  have hsecs : numSeconds (now - qm.enqueuedAt) < maxAgeSecs ↔
      ¬ 1000000000 * maxAgeSecs ≤ now - qm.enqueuedAt := by
    rw [numSeconds, Int.tdiv_eq_ediv_of_nonneg (by omega)]
    omega
  rw [isFresh, isOld, ← decide_not]
  exact decide_eq_decide.mpr hsecs

end QueuedMessage

/-- The queue with its books.  `now` is the latest reading of the clock. -/
structure Ledger (M : Type*) where
  queues : MessageQueue (Nat × M)
  now : Int
  /-- every call of `enqueue`, with its agent -/
  entered : List (String × Numbered M)
  /-- what the drain channels of each agent got -/
  sent : String → List (Numbered M)
  /-- the serial numbers of what a `prune_old` found to be old -/
  aged : List Nat

inductive Call (M : Type*) where
  | enqueue (agentId : String) (msg : M) (now : Int)
  | drainTo (agentId : String) (accepts : Nat → Bool)
  | pruneOld (visited : List String) (maxAgeSecs now : Int)

namespace Ledger

def start (now : Int) : Ledger M where
  queues := .new
  now := now
  entered := []
  sent _ := []
  aged := []

/-- What was enqueued for an agent, in order. -/
def enqueued (s : Ledger M) (agentId : String) : List (Numbered M) :=
  (s.entered.filter fun entry => entry.1 = agentId).map (·.2)

/-- The state after a call.  A clock that runs backwards is not enabled. -/
def step (s : Ledger M) : Call M → Option (Ledger M)
  | .enqueue agentId msg now =>
    if s.now ≤ now then
      let numbered := (s.entered.length, msg)
      some { s with
        queues := s.queues.enqueue agentId numbered now
        now := now
        entered := s.entered ++ [(agentId, ⟨numbered, now, 0⟩)] }
    else none
  | .drainTo agentId accepts =>
    let drained := s.queues.drainTo agentId accepts
    some { s with
      queues := drained.2
      sent := Function.update s.sent agentId (s.sent agentId ++ drained.1) }
  | .pruneOld visited maxAgeSecs now =>
    if s.now ≤ now then
      let old := visited.flatMap fun agentId =>
        (s.queues.pending agentId).filter (·.isOld now maxAgeSecs)
      some { s with
        queues := s.queues.pruneOld visited now maxAgeSecs
        now := now
        aged := s.aged ++ old.map (·.serial) }
    else none

/-- The pass of a `prune_old` visits every entry once. -/
def VisitsAll (s : Ledger M) : Call M → Prop
  | .pruneOld visited _ _ => s.queues.Enumerates visited
  | .enqueue .. | .drainTo .. => True

/-- The invariant: the books of each agent balance. -/
structure Balanced (s : Ledger M) : Prop where
  serials : s.entered.map (·.2.serial) = List.range s.entered.length
  past : ∀ entry ∈ s.entered, entry.2.enqueuedAt ≤ s.now
  agedEntered : ∀ n ∈ s.aged, n < s.entered.length
  balance : ∀ agentId, s.sent agentId ++ s.queues.pending agentId =
    (s.enqueued agentId).filter fun qm => qm.serial ∉ s.aged
  noEmpty : s.queues.NoEmpty

theorem balanced_start (now : Int) : Balanced (start now : Ledger M) where
  serials := rfl
  past := fun entry h => absurd h List.not_mem_nil
  agedEntered := fun n h => absurd h List.not_mem_nil
  balance := fun agentId => rfl
  noEmpty := fun agentId h => absurd h (by simp [start, MessageQueue.new])

/-! ### Serial numbers -/

theorem mem_enqueued {s : Ledger M} {agentId : String} {qm : Numbered M} :
    qm ∈ s.enqueued agentId ↔ (agentId, qm) ∈ s.entered := by
  rw [enqueued, List.mem_map]
  constructor
  · rintro ⟨⟨owner, other⟩, hmem, rfl⟩
    obtain ⟨hentered, howner⟩ := List.mem_filter.mp hmem
    rwa [← of_decide_eq_true howner]
  · intro hmem
    exact ⟨(agentId, qm), List.mem_filter.mpr ⟨hmem, decide_eq_true rfl⟩, rfl⟩

/-- A serial number has one owner and one message. -/
theorem Balanced.serial_inj {s : Ledger M} (h : Balanced s) {agentId other : String}
    {qm qm' : Numbered M} (hqm : qm ∈ s.enqueued agentId) (hqm' : qm' ∈ s.enqueued other)
    (heq : qm.serial = qm'.serial) : agentId = other ∧ qm = qm' := by
  have hnodup : (s.entered.map (·.2.serial)).Nodup := by
    rw [h.serials]
    exact List.nodup_range
  have hpair := List.inj_on_of_nodup_map hnodup (mem_enqueued.mp hqm) (mem_enqueued.mp hqm') heq
  exact Prod.mk.inj hpair

theorem Balanced.serial_lt {s : Ledger M} (h : Balanced s) {agentId : String} {qm : Numbered M}
    (hqm : qm ∈ s.enqueued agentId) : qm.serial < s.entered.length := by
  have hmem : qm.serial ∈ s.entered.map (·.2.serial) :=
    List.mem_map.mpr ⟨(agentId, qm), mem_enqueued.mp hqm, rfl⟩
  rw [h.serials] at hmem
  exact List.mem_range.mp hmem

theorem Balanced.nodup_enqueued {s : Ledger M} (h : Balanced s) (agentId : String) :
    ((s.enqueued agentId).map (·.serial)).Nodup := by
  have hnodup : (s.entered.map (·.2.serial)).Nodup := by
    rw [h.serials]
    exact List.nodup_range
  rw [enqueued, List.map_map]
  exact hnodup.sublist (List.filter_sublist.map _)

/-- What was sent or waits was enqueued. -/
theorem Balanced.mem_enqueued_of_mem {s : Ledger M} (h : Balanced s) {agentId : String}
    {qm : Numbered M} (hqm : qm ∈ s.sent agentId ++ s.queues.pending agentId) :
    qm ∈ s.enqueued agentId ∧ qm.serial ∉ s.aged := by
  rw [h.balance, List.mem_filter] at hqm
  exact ⟨hqm.1, of_decide_eq_true hqm.2⟩

/-- No message appears twice. -/
theorem Balanced.nodup {s : Ledger M} (h : Balanced s) (agentId : String) :
    ((s.sent agentId ++ s.queues.pending agentId).map (·.serial)).Nodup := by
  rw [h.balance]
  exact (h.nodup_enqueued agentId).sublist (List.filter_sublist.map _)

theorem enqueued_enqueue (s : Ledger M) (agentId other : String) (qm : Numbered M) :
    enqueued { s with entered := s.entered ++ [(agentId, qm)] } other =
      s.enqueued other ++ if agentId = other then [qm] else [] := by
  rw [enqueued, List.filter_append, List.map_append, enqueued]
  by_cases h : agentId = other
  · rw [if_pos h, List.filter_cons_of_pos (by simpa using h)]
    rfl
  · rw [if_neg h, List.filter_cons_of_neg (by simpa using h)]
    rfl

/-! ### The steps -/

theorem balanced_enqueue {s t : Ledger M} (h : Balanced s) {agentId : String} {msg : M}
    {now : Int} (hstep : s.step (.enqueue agentId msg now) = some t) : Balanced t := by
  rw [step, Option.ite_none_right_eq_some] at hstep
  obtain ⟨hnow, heq⟩ := hstep
  obtain rfl := Option.some.inj heq
  refine ⟨?_, ?_, ?_, ?_, MessageQueue.noEmpty_enqueue h.noEmpty _ _ _⟩
  · rw [List.map_append, h.serials, List.length_append, List.length_singleton, List.range_succ]
    rfl
  · intro entry hentry
    rcases List.mem_append.mp hentry with hold | hnew
    · exact Int.le_trans (h.past entry hold) hnow
    · obtain rfl := List.mem_singleton.mp hnew
      exact Int.le_refl now
  · intro n hn
    show n < (s.entered ++ [_]).length
    rw [List.length_append, List.length_singleton]
    exact Nat.lt_succ_of_lt (h.agedEntered n hn)
  · intro other
    show s.sent other ++ MessageQueue.pending (s.queues.enqueue _ _ _) other =
      (enqueued { s with entered := s.entered ++ [_] } other).filter _
    rw [enqueued_enqueue, List.filter_append, ← h.balance]
    by_cases hother : agentId = other
    · -- the new number is not among the old ones
      have hfresh : s.entered.length ∉ s.aged := fun hn => absurd (h.agedEntered _ hn) (by omega)
      have hkept : [(⟨(s.entered.length, msg), now, 0⟩ : Numbered M)].filter
          (fun qm => qm.serial ∉ s.aged) = [⟨(s.entered.length, msg), now, 0⟩] := by
        refine List.filter_eq_self.mpr fun qm hqm => decide_eq_true ?_
        rw [List.mem_singleton.mp hqm]
        exact hfresh
      rw [if_pos hother, ← hother, MessageQueue.pending_enqueue_self, ← List.append_assoc]
      exact congrArg _ hkept.symm
    · rw [if_neg hother, MessageQueue.pending_enqueue_of_ne _ _ _ (Ne.symm hother),
        List.filter_nil, List.append_nil]

theorem balanced_drainTo {s t : Ledger M} (h : Balanced s) {agentId : String}
    {accepts : Nat → Bool} (hstep : s.step (.drainTo agentId accepts) = some t) : Balanced t := by
  obtain rfl := Option.some.inj hstep
  refine ⟨h.serials, h.past, h.agedEntered, ?_, MessageQueue.noEmpty_drainTo h.noEmpty _ _⟩
  intro other
  show Function.update s.sent agentId _ other ++
    MessageQueue.pending (s.queues.drainTo agentId accepts).2 other = (s.enqueued other).filter _
  rw [← h.balance]
  by_cases hother : other = agentId
  · rw [hother, Function.update_self, List.append_assoc, MessageQueue.drainTo_append]
  · rw [Function.update_of_ne hother, MessageQueue.pending_drainTo_of_ne _ _ hother]

/-- The numbers that a pass adds are those of the old messages that wait. -/
theorem mem_old_iff {s : Ledger M} (h : Balanced s) {visited : List String}
    (hvisited : s.queues.Enumerates visited) {maxAgeSecs now : Int} {agentId : String}
    {qm : Numbered M} (hqm : qm ∈ s.enqueued agentId) :
    qm.serial ∈ (visited.flatMap fun agentId =>
        (s.queues.pending agentId).filter (·.isOld now maxAgeSecs)).map (·.serial) ↔
      qm ∈ s.queues.pending agentId ∧ qm.isOld now maxAgeSecs := by
  rw [List.mem_map]
  constructor
  · rintro ⟨other, hother, heq⟩
    obtain ⟨owner, -, hold⟩ := List.mem_flatMap.mp hother
    obtain ⟨hpending, hisOld⟩ := List.mem_filter.mp hold
    have hentered := (h.mem_enqueued_of_mem (List.mem_append_right _ hpending)).1
    obtain ⟨rfl, rfl⟩ := h.serial_inj hentered hqm heq
    exact ⟨hpending, hisOld⟩
  · rintro ⟨hpending, hisOld⟩
    have hentry : (s.queues agentId).isSome := by
      by_contra hnone
      rw [Option.not_isSome_iff_eq_none] at hnone
      rw [MessageQueue.pending, hnone] at hpending
      exact absurd hpending List.not_mem_nil
    exact ⟨qm, List.mem_flatMap.mpr ⟨agentId, (hvisited.2 agentId).mpr hentry,
      List.mem_filter.mpr ⟨hpending, hisOld⟩⟩, rfl⟩

theorem balanced_pruneOld {s t : Ledger M} (h : Balanced s) {visited : List String}
    (hvisited : s.queues.Enumerates visited) {maxAgeSecs now : Int}
    (hstep : s.step (.pruneOld visited maxAgeSecs now) = some t) : Balanced t := by
  rw [step, Option.ite_none_right_eq_some] at hstep
  obtain ⟨hnow, heq⟩ := hstep
  obtain rfl := Option.some.inj heq
  refine ⟨h.serials, fun entry hentry => Int.le_trans (h.past entry hentry) hnow, ?_, ?_,
    MessageQueue.noEmpty_pruneOld hvisited _ _⟩
  · intro n hn
    rcases List.mem_append.mp hn with hn | hn
    · exact h.agedEntered n hn
    · obtain ⟨qm, hqm, rfl⟩ := List.mem_map.mp hn
      obtain ⟨owner, -, hold⟩ := List.mem_flatMap.mp hqm
      have hpending := (List.mem_filter.mp hold).1
      exact h.serial_lt (h.mem_enqueued_of_mem (List.mem_append_right _ hpending)).1
  · intro agentId
    let old := visited.flatMap fun agentId =>
      (s.queues.pending agentId).filter (·.isOld now maxAgeSecs)
    show s.sent agentId ++ MessageQueue.pending (s.queues.pruneOld visited now maxAgeSecs) agentId =
      (s.enqueued agentId).filter fun qm => qm.serial ∉ s.aged ++ old.map (·.serial)
    have hsplit : (s.enqueued agentId).filter (fun qm => qm.serial ∉ s.aged ++ old.map (·.serial)) =
        (s.sent agentId ++ s.queues.pending agentId).filter
          fun qm => qm.serial ∉ old.map (·.serial) := by
      rw [h.balance, List.filter_filter]
      refine List.filter_congr fun qm _ => ?_
      rw [← Bool.decide_and]
      refine decide_eq_decide.mpr ?_
      rw [List.mem_append, not_or, and_comm]
    rw [hsplit, List.filter_append, MessageQueue.pending_pruneOld hvisited]
    -- nothing that was sent is dropped, and of the rest what is old
    have hsent : (s.sent agentId).filter (fun qm => qm.serial ∉ old.map (·.serial)) =
        s.sent agentId := by
      refine List.filter_eq_self.mpr fun qm hqm => decide_eq_true fun hold => ?_
      have hentered := (h.mem_enqueued_of_mem (List.mem_append_left _ hqm)).1
      have hpending := ((mem_old_iff h hvisited hentered).mp hold).1
      have hdisjoint := h.nodup agentId
      rw [List.map_append] at hdisjoint
      exact List.disjoint_of_nodup_append hdisjoint (List.mem_map_of_mem hqm)
        (List.mem_map_of_mem hpending)
    have hpending : (s.queues.pending agentId).filter
        (fun qm => qm.serial ∉ old.map (·.serial)) =
          (s.queues.pending agentId).filter (·.isFresh now maxAgeSecs) := by
      refine List.filter_congr fun qm hqm => ?_
      have hentered := (h.mem_enqueued_of_mem (List.mem_append_right _ hqm)).1
      have hpast : qm.enqueuedAt ≤ now :=
        Int.le_trans (h.past _ (mem_enqueued.mp hentered)) hnow
      rw [QueuedMessage.isFresh_eq_not_isOld hpast, decide_not]
      refine congrArg (! ·) ?_
      rw [Bool.eq_iff_iff, decide_eq_true_iff, mem_old_iff h hvisited hentered]
      exact and_iff_right hqm
    rw [hsent, hpending]

/-! ### Runs -/

/-- One call keeps the books balanced. -/
theorem balanced_step {s t : Ledger M} {call : Call M} (h : Balanced s) (hok : s.VisitsAll call)
    (hstep : s.step call = some t) : Balanced t := by
  cases call with
  | enqueue agentId msg now => exact balanced_enqueue h hstep
  | drainTo agentId accepts => exact balanced_drainTo h hstep
  | pruneOld visited maxAgeSecs now => exact balanced_pruneOld h hok hstep

/-- After any run of calls, taken one at a time on a clock that does not run
backwards: for each agent, what was sent and then what waits is what was
enqueued for it, in order, less what a `prune_old` found to be old.  No message
appears twice.  `drain_to` returns the number of messages that it sends, no
empty queue is left, and the statistics list the agents with messages that
wait. -/
theorem exact_accounting {now : Int} {calls : List (Call M)} {last : Ledger M}
    (hrun : run step (start now) calls = some last)
    (hvisits : Guarded step VisitsAll (start now) calls) :
    (∀ agentId, last.sent agentId ++ last.queues.pending agentId =
      (last.enqueued agentId).filter fun qm => qm.serial ∉ last.aged) ∧
    (∀ agentId, ((last.sent agentId ++ last.queues.pending agentId).map (·.serial)).Nodup) ∧
    (∀ agentId other, agentId ≠ other →
      ∀ qm ∈ last.sent agentId ++ last.queues.pending agentId,
      ∀ qm' ∈ last.sent other ++ last.queues.pending other, qm.serial ≠ qm'.serial) ∧
    (∀ agentId accepts, last.queues.delivered agentId accepts =
      (last.queues.drainTo agentId accepts).1.length) ∧
    (∀ agentId, last.queues agentId ≠ some []) ∧
    ∀ visited, last.queues.Enumerates visited → ∀ agentId count,
      (agentId, count) ∈ last.queues.stats visited ↔
        last.queues.pending agentId ≠ [] ∧ count = (last.queues.pending agentId).length := by
  have h : Balanced last :=
    invariant_of_guarded (fun _ _ _ => balanced_step) (balanced_start now) hvisits hrun
  refine ⟨h.balance, h.nodup, ?_, fun _ _ => MessageQueue.delivered_eq _ _ _, h.noEmpty,
    fun visited hvisited => MessageQueue.mem_stats h.noEmpty hvisited⟩
  intro agentId other hne qm hqm qm' hqm' heq
  exact hne (h.serial_inj (h.mem_enqueued_of_mem hqm).1 (h.mem_enqueued_of_mem hqm').1 heq).1

/-- One message that waits for three seconds, and a pass with a limit of one. -/
def onePass : List (Call String) :=
  [.enqueue "a" "hello" 0, .pruneOld ["a"] 1 3000000000]

/-- The case of that run: the emptied queue is gone. -/
theorem exact_accounting_onePass :
    ∃ last, run step (start 0) onePass = some last ∧ last.queues "a" ≠ some [] := by
  have hvisits : Guarded step VisitsAll (start 0) onePass := by
    refine ⟨trivial, fun t ht => ⟨⟨List.nodup_singleton _, fun agentId => ?_⟩, fun _ _ => trivial⟩⟩
    obtain rfl := Option.some.inj ht
    rw [List.mem_singleton]
    by_cases h : agentId = "a"
    · exact iff_of_true h (by rw [h]; rfl)
    · refine iff_of_false h ?_
      have hnone : Function.update (fun _ => none : MessageQueue (Nat × String)) "a"
          (some [⟨(0, "hello"), 0, 0⟩]) agentId = none := Function.update_of_ne h ..
      exact fun hsome => absurd ((congrArg Option.isSome hnone).symm.trans hsome) (by simp)
  exact ⟨_, rfl, (exact_accounting rfl hvisits).2.2.2.2.1 "a"⟩

end Ledger

end Xfiles.Queue
