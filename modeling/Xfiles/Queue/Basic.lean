import Mathlib.Logic.Function.Basic

/-!
# The message queue

`MessageQueue` of `queue.rs`: a FIFO of messages for each agent, with the time
at which each message came in.

* `enqueue` appends at the back, `drainTo` pops from the front into a channel,
  and `retainFresh` drops what is too old from one queue.
* `removeIf` and `remove` are the two ways in which an entry of the map goes
  away.  `drainTo` uses the first and `prune_old` the second.
* `popLoop_append` says that the pop loop splits a queue into what was sent
  and what is left, in order.

A message is opaque to the queue, so its type is a parameter.
-/

namespace Xfiles.Queue

variable {M : Type*}

/-- A queued message.  `enqueuedAt` is in nanoseconds since the epoch. -/
structure QueuedMessage (M : Type*) where
  msg : M
  enqueuedAt : Int
  retries : Nat
  deriving DecidableEq, Repr

/-- `TimeDelta::num_seconds`, which rounds toward zero. -/
def numSeconds (nanos : Int) : Int := nanos.tdiv 1000000000

theorem numSeconds_mono {a b : Int} (h : a ≤ b) : numSeconds a ≤ numSeconds b := by
  unfold numSeconds
  rw [Int.tdiv_eq_ediv, Int.tdiv_eq_ediv]
  have hsign : Int.sign 1000000000 = 1 := rfl
  split <;> split <;> omega

/-- The closure of `retain` in `prune_old`. -/
def QueuedMessage.isFresh (now maxAgeSecs : Int) (qm : QueuedMessage M) : Bool :=
  numSeconds (now - qm.enqueuedAt) < maxAgeSecs

/-- The map from agent ids to queues. -/
abbrev MessageQueue (M : Type*) := String → Option (List (QueuedMessage M))

/-- The pop loop of `drain_to` on one queue: what it sends, and what it leaves.
`accepts i` tells whether the channel takes the `i`-th message.  The first
message that it refuses goes back to the front, and the loop ends. -/
def popLoop (accepts : Nat → Bool) :
    List (QueuedMessage M) → List (QueuedMessage M) × List (QueuedMessage M)
  | [] => ([], [])
  | qm :: rest =>
    if accepts 0 then
      let tail := popLoop (fun i => accepts (i + 1)) rest
      (qm :: tail.1, tail.2)
    else ([], qm :: rest)

/-- The loop splits the queue, in order. -/
theorem popLoop_append (accepts : Nat → Bool) (entry : List (QueuedMessage M)) :
    (popLoop accepts entry).1 ++ (popLoop accepts entry).2 = entry := by
  induction entry generalizing accepts with
  | nil => rfl
  | cons qm rest ih =>
    unfold popLoop
    split
    · exact congrArg (qm :: ·) (ih _)
    · rfl

/-- An open channel takes the whole queue. -/
@[simp] theorem popLoop_open (entry : List (QueuedMessage M)) :
    popLoop (fun _ => true) entry = (entry, []) := by
  induction entry with
  | nil => rfl
  | cons qm rest ih => simp [popLoop, ih]

/-- A closed channel takes nothing. -/
@[simp] theorem popLoop_closed (entry : List (QueuedMessage M)) :
    popLoop (fun _ => false) entry = ([], entry) := by
  cases entry with
  | nil => rfl
  | cons qm rest => simp [popLoop]

namespace MessageQueue

def new : MessageQueue M := fun _ => none

/-- The messages that wait for an agent.  An agent without an entry has
none. -/
def pending (queues : MessageQueue M) (agentId : String) : List (QueuedMessage M) :=
  (queues agentId).getD []

def enqueue (queues : MessageQueue M) (agentId : String) (msg : M) (now : Int) :
    MessageQueue M :=
  Function.update queues agentId (some (queues.pending agentId ++ [⟨msg, now, 0⟩]))

/-- Put a new content into the entry of `agentId`. -/
def put (queues : MessageQueue M) (agentId : String) (entry : List (QueuedMessage M)) :
    MessageQueue M :=
  Function.update queues agentId (some entry)

/-- `remove_if(agent_id, |_, q| q.is_empty())`. -/
def removeIf (queues : MessageQueue M) (agentId : String) : MessageQueue M :=
  match queues agentId with
  | some [] => Function.update queues agentId none
  | _ => queues

/-- `remove(&id)`, whatever the entry holds. -/
def remove (queues : MessageQueue M) (agentId : String) : MessageQueue M :=
  Function.update queues agentId none

/-- `drain_to` without interruption: what it sends, and the queues after it. -/
def drainTo (queues : MessageQueue M) (agentId : String) (accepts : Nat → Bool) :
    List (QueuedMessage M) × MessageQueue M :=
  match queues agentId with
  | none => ([], queues)
  | some entry =>
    let (sent, left) := popLoop accepts entry
    let queues := queues.put agentId left
    (sent, if left.isEmpty then queues.removeIf agentId else queues)

/-- `retain` of `prune_old` on one queue. -/
def retainFresh (queues : MessageQueue M) (agentId : String) (now maxAgeSecs : Int) :
    MessageQueue M :=
  match queues agentId with
  | none => queues
  | some entry => queues.put agentId (entry.filter (·.isFresh now maxAgeSecs))

/-! ## What waits after each operation -/

@[simp] theorem pending_new (agentId : String) : (new : MessageQueue M).pending agentId = [] :=
  rfl

@[simp] theorem pending_put_self (queues : MessageQueue M) (agentId : String)
    (entry : List (QueuedMessage M)) : (queues.put agentId entry).pending agentId = entry := by
  simp [pending, put]

theorem pending_put_of_ne (queues : MessageQueue M) {agentId a : String}
    (entry : List (QueuedMessage M)) (h : a ≠ agentId) :
    (queues.put agentId entry).pending a = queues.pending a := by
  simp [pending, put, h]

@[simp] theorem pending_enqueue_self (queues : MessageQueue M) (agentId : String) (msg : M)
    (now : Int) :
    (queues.enqueue agentId msg now).pending agentId =
      queues.pending agentId ++ [⟨msg, now, 0⟩] :=
  pending_put_self queues agentId _

theorem pending_enqueue_of_ne (queues : MessageQueue M) {agentId a : String} (msg : M)
    (now : Int) (h : a ≠ agentId) :
    (queues.enqueue agentId msg now).pending a = queues.pending a :=
  pending_put_of_ne queues _ h

/-- A guarded removal loses nothing. -/
@[simp] theorem pending_removeIf (queues : MessageQueue M) (agentId a : String) :
    (queues.removeIf agentId).pending a = queues.pending a := by
  unfold removeIf
  split
  · rename_i hentry
    by_cases h : a = agentId
    · subst h
      simp [pending, hentry]
    · simp [pending, h]
  · rfl

@[simp] theorem pending_remove_self (queues : MessageQueue M) (agentId : String) :
    (queues.remove agentId).pending agentId = [] := by
  simp [pending, remove]

theorem pending_remove_of_ne (queues : MessageQueue M) {agentId a : String}
    (h : a ≠ agentId) : (queues.remove agentId).pending a = queues.pending a := by
  simp [pending, remove, h]

theorem drainTo_fst (queues : MessageQueue M) (agentId : String) (accepts : Nat → Bool) :
    (queues.drainTo agentId accepts).1 = (popLoop accepts (queues.pending agentId)).1 := by
  unfold drainTo pending
  cases queues agentId with
  | none => rfl
  | some entry => rfl

theorem pending_drainTo_self (queues : MessageQueue M) (agentId : String)
    (accepts : Nat → Bool) :
    (queues.drainTo agentId accepts).2.pending agentId =
      (popLoop accepts (queues.pending agentId)).2 := by
  unfold drainTo
  cases hentry : queues agentId with
  | none => simp [pending, hentry, popLoop]
  | some entry =>
    have hpending : queues.pending agentId = entry := by simp [pending, hentry]
    rw [hpending]
    simp only
    split
    · rw [pending_removeIf, pending_put_self]
    · rw [pending_put_self]

theorem pending_drainTo_of_ne (queues : MessageQueue M) {agentId a : String}
    (accepts : Nat → Bool) (h : a ≠ agentId) :
    (queues.drainTo agentId accepts).2.pending a = queues.pending a := by
  unfold drainTo
  split
  · rfl
  · simp only
    split
    · rw [pending_removeIf, pending_put_of_ne queues _ h]
    · rw [pending_put_of_ne queues _ h]

/-- What a drain sends and what it leaves make up the queue, in order. -/
theorem drainTo_append (queues : MessageQueue M) (agentId : String) (accepts : Nat → Bool) :
    (queues.drainTo agentId accepts).1 ++ (queues.drainTo agentId accepts).2.pending agentId =
      queues.pending agentId := by
  rw [drainTo_fst, pending_drainTo_self, popLoop_append]

theorem pending_retainFresh_self (queues : MessageQueue M) (agentId : String)
    (now maxAgeSecs : Int) :
    (queues.retainFresh agentId now maxAgeSecs).pending agentId =
      (queues.pending agentId).filter (·.isFresh now maxAgeSecs) := by
  unfold retainFresh
  cases hentry : queues agentId with
  | none => simp [pending, hentry]
  | some entry => simp [pending, put, hentry]

theorem pending_retainFresh_of_ne (queues : MessageQueue M) {agentId a : String}
    (now maxAgeSecs : Int) (h : a ≠ agentId) :
    (queues.retainFresh agentId now maxAgeSecs).pending a = queues.pending a := by
  unfold retainFresh
  split
  · rfl
  · exact pending_put_of_ne queues _ h

end MessageQueue

end Xfiles.Queue
