import Xfiles.Net.Delivery
import Xfiles.Queue.Pruning

/-!
# The transport

Connections, dispatches and the queue as one system.  Each operation on the
registry, on a channel and on the queue is a step, so connections, dispatches
and `prune_old` interleave at will.

* A connection is `handle_socket` with its channel.  Its receive loop takes
  one operation at a time: a heartbeat, or a Hello, which is `register`
  followed by `drain_to`.  Its dispatches are steps of their own.
  The forwarding task writes the channel to the socket until it ends, after a
  failed write or because the teardown aborted it.  The teardown is a lookup
  with the `same_channel` test, and then `unregister` if the test holds.
* A dispatch is one delivery of a message, at one of the four sites: a lookup,
  then a send or an enqueue, and an enqueue after a send that failed if the
  site falls back to the queue.
* The queue is the store of `Xfiles.Queue.Pruning` with all its steps.
* `dispatch_refines_site` connects a dispatch to the delivery function of its
  site: run without interruption they do the same.

A parcel is a message with the number of its dispatch, so that two messages
with equal content stay apart.  The parcel that the forwarding task holds is
the front of the buffer until it is written.
-/

namespace Xfiles.Net

open Xfiles.Queue Transition

structure Parcel (M : Type*) where
  dispatch : Nat
  msg : M
  deriving DecidableEq, Repr

/-- Where `handle_socket` stands. -/
inductive Phase where
  /-- The receive loop waits for the next operation. -/
  | serving
  /-- A Hello has registered and is about to drain the queue. -/
  | registered
  /-- The receive loop has ended, and the teardown is about to look up. -/
  | leaving
  /-- The teardown found its own channel and is about to unregister. -/
  | matched
  | gone
  deriving DecidableEq, Repr

/-- The receive loop is running. -/
def Phase.isServing : Phase → Bool
  | .serving | .registered => true
  | .leaving | .matched | .gone => false

structure Connection where
  agentId : String
  phase : Phase
  deriving DecidableEq, Repr

/-- Where a dispatch stands. -/
inductive Progress (M : Type*) where
  | sending (site : Site) (agentId : String) (msg : M) (targetTx : ChannelId)
  | queueing (agentId : String) (msg : M)
  | done
  deriving DecidableEq, Repr

/-- What has happened.  No step reads it. -/
structure Journal (M : Type*) where
  /-- What was placed in channels of the agent, in the order of placement. -/
  placed : String → List (ChannelId × Parcel M)
  /-- What the forwarding task of the connection wrote to its socket. -/
  written : ChannelId → List (Parcel M)
  /-- The connection whose Hello registered last. -/
  lastHello : String → Option ChannelId
  /-- The dispatches that were done when the dispatch began. -/
  doneBefore : Nat → Nat → Bool
  /-- The dispatches whose parcels waited in the queue of the agent when the
  dispatch sent its own straight into a channel. -/
  queuedAtSend : Nat → List Nat

structure Transport (M : Type*) where
  agents : AgentRegistry
  channels : ChannelId → Channel (Parcel M)
  connections : ChannelId → Option Connection
  dispatches : Nat → Option (Progress M)
  store : Store (Parcel M)
  journal : Journal M

inductive Event (M : Type*) where
  | upkeep (label : Queue.Label (Parcel M))
  | connect (c : ChannelId) (agentId : String)
  | hello (c : ChannelId)
  | drain (c : ChannelId) (call : Nat)
  | heartbeat (c : ChannelId)
  | write (c : ChannelId)
  | close (c : ChannelId)
  | leave (c : ChannelId)
  | teardown (c : ChannelId)
  | unregister (c : ChannelId)
  | lookup (d : Nat) (site : Site) (agentId : String) (msg : M)
  | send (d : Nat)
  | enqueue (d : Nat)

variable {M : Type*}

/-- The connection that takes the step. -/
def Event.connection : Event M → Option ChannelId
  | .connect c _ | .hello c | .drain c _ | .heartbeat c | .write c | .close c | .leave c
  | .teardown c | .unregister c => some c
  | .upkeep _ | .lookup _ _ _ _ | .send _ | .enqueue _ => none

/-- The parts of the transport that a step can change. -/
inductive Part where
  | agents
  | channels
  | connections
  | dispatches
  | store
  | placed
  | written
  | lastHello
  | doneBefore
  | queuedAtSend

def Event.changes : Event M → Part → Bool
  | .upkeep _, .store => true
  | .connect _ _, .channels | .connect _ _, .connections => true
  | .hello _, .agents | .hello _, .connections | .hello _, .lastHello => true
  | .drain _ _, .channels | .drain _ _, .connections | .drain _ _, .store
  | .drain _ _, .placed => true
  | .heartbeat _, .agents => true
  | .write _, .channels | .write _, .written => true
  | .close _, .channels => true
  | .leave _, .connections => true
  | .teardown _, .connections => true
  | .unregister _, .agents | .unregister _, .connections => true
  | .lookup _ _ _ _, .dispatches | .lookup _ _ _ _, .doneBefore => true
  | .send _, .channels | .send _, .dispatches | .send _, .placed
  | .send _, .queuedAtSend => true
  | .enqueue _, .dispatches | .enqueue _, .store => true
  | _, _ => false

/-- The parcels go into the channel `c` of the agent. -/
def Journal.place (journal : Journal M) (agentId : String) (c : ChannelId)
    (parcels : List (Parcel M)) : Journal M :=
  { journal with
    placed := Function.update journal.placed agentId
      (journal.placed agentId ++ parcels.map fun parcel => (c, parcel)) }

namespace Transport

/-- No connection, and nothing queued. -/
def start (now : Int) : Transport M where
  agents := .new
  channels _ := ⟨false, []⟩
  connections _ := none
  dispatches _ := none
  store := .start now
  journal :=
    { placed := fun _ => []
      written := fun _ => []
      lastHello := fun _ => none
      doneBefore := fun _ _ => false
      queuedAtSend := fun _ => [] }

/-- The parcels that wait in the queue of the agent. -/
def waiting (s : Transport M) (agentId : String) : List (Parcel M) :=
  (s.store.queues.pending agentId).map (·.msg)

def setPhase (s : Transport M) (c : ChannelId) (agentId : String) (phase : Phase) : Transport M :=
  { s with connections := Function.update s.connections c (some ⟨agentId, phase⟩) }

def setDispatch (s : Transport M) (d : Nat) (progress : Progress M) : Transport M :=
  { s with dispatches := Function.update s.dispatches d (some progress) }

def isDone (s : Transport M) (d : Nat) : Bool :=
  match s.dispatches d with
  | some .done => true
  | _ => false

def connect (s : Transport M) (c : ChannelId) (agentId : String) : Transport M :=
  { s with channels := Function.update s.channels c ⟨true, []⟩ }.setPhase c agentId .serving

/-- `agents.register` of the Hello branch. -/
def hello (s : Transport M) (c : ChannelId) (agentId : String) : Transport M :=
  { s with
    agents := s.agents.register ⟨agentId, s.store.now, some c⟩
    journal := { s.journal with
      lastHello := Function.update s.journal.lastHello agentId (some c) } }.setPhase c agentId
    .registered

/-- What a drain sends into the channel `c`. -/
def drained (s : Transport M) (c : ChannelId) (agentId : String) : List (Parcel M) :=
  (popLoop (fun _ => (s.channels c).isOpen) (s.store.queues.pending agentId)).1.map (·.msg)

/-- `queue.drain_to` of the Hello branch. -/
def drain (s : Transport M) (c : ChannelId) (call : Nat) (agentId : String) : Transport M :=
  let channel := s.channels c
  let sent := s.drained c agentId
  { s with
    channels := Function.update s.channels c { channel with buffer := channel.buffer ++ sent }
    store := s.store.drain call agentId (fun _ => channel.isOpen)
    journal := s.journal.place agentId c sent }.setPhase c agentId .serving

/-- The Heartbeat branch. -/
def heartbeat (s : Transport M) (agentId : String) : Transport M :=
  { s with agents := s.agents.heartbeat agentId s.store.now }

/-- The forwarding task writes the front of its channel to the socket. -/
def write (s : Transport M) (c : ChannelId) (parcel : Parcel M) (rest : List (Parcel M)) :
    Transport M :=
  { s with
    channels := Function.update s.channels c ⟨true, rest⟩
    journal := { s.journal with
      written := Function.update s.journal.written c (s.journal.written c ++ [parcel]) } }

/-- The forwarding task ends, and the receiver goes away with it. -/
def close (s : Transport M) (c : ChannelId) : Transport M :=
  { s with channels := Function.update s.channels c { s.channels c with isOpen := false } }

/-- How a dispatch goes on after its lookup. -/
def afterLookup (agents : AgentRegistry) (site : Site) (agentId : String) (msg : M) :
    Progress M :=
  match agents.get agentId with
  | some target =>
    match target.tx with
    | some targetTx => .sending site agentId msg targetTx
    | none => if site.queuesOnNoSender then .queueing agentId msg else .done
  | none => .queueing agentId msg

def lookup (s : Transport M) (d : Nat) (site : Site) (agentId : String) (msg : M) :
    Transport M :=
  { s with journal := { s.journal with
      doneBefore := Function.update s.journal.doneBefore d s.isDone } }.setDispatch d
    (afterLookup s.agents site agentId msg)

/-- The channel takes the parcel of a direct send. -/
def sendDirect (s : Transport M) (agentId : String) (targetTx : ChannelId)
    (parcel : Parcel M) : Transport M :=
  let channel := s.channels targetTx
  { s with
    channels := Function.update s.channels targetTx
      { channel with buffer := channel.buffer ++ [parcel] }
    journal := { s.journal.place agentId targetTx [parcel] with
      queuedAtSend := Function.update s.journal.queuedAtSend parcel.dispatch
        ((s.waiting agentId).map Parcel.dispatch) } }.setDispatch parcel.dispatch .done

def send (s : Transport M) (d : Nat) (site : Site) (agentId : String) (msg : M)
    (targetTx : ChannelId) : Transport M :=
  if (s.channels targetTx).isOpen then s.sendDirect agentId targetTx ⟨d, msg⟩
  else s.setDispatch d (if site.queuesOnSendError then .queueing agentId msg else .done)

def enqueue (s : Transport M) (d : Nat) (agentId : String) (msg : M) : Transport M :=
  { s with store := s.store.enqueue agentId ⟨d, msg⟩ }.setDispatch d .done

def step (s : Transport M) : Event M → Option (Transport M)
  | .upkeep label =>
    if label.isUpkeep then (s.store.step label).map fun store => { s with store }
    else none
  | .connect c agentId =>
    match s.connections c with
    | none => some (s.connect c agentId)
    | some _ => none
  | .hello c =>
    match s.connections c with
    | some ⟨agentId, .serving⟩ => some (s.hello c agentId)
    | _ => none
  | .drain c call =>
    match s.connections c, s.store.calls call with
    | some ⟨agentId, .registered⟩, none => some (s.drain c call agentId)
    | _, _ => none
  | .heartbeat c =>
    match s.connections c with
    | some ⟨agentId, .serving⟩ => some (s.heartbeat agentId)
    | _ => none
  | .write c =>
    match s.channels c with
    | ⟨true, parcel :: rest⟩ => some (s.write c parcel rest)
    | _ => none
  | .close c => if (s.channels c).isOpen then some (s.close c) else none
  | .leave c =>
    match s.connections c with
    | some ⟨agentId, .serving⟩ => some (s.setPhase c agentId .leaving)
    | _ => none
  | .teardown c =>
    match s.connections c with
    | some ⟨agentId, .leaving⟩ =>
      -- the `same_channel` test
      if s.agents.txOf agentId = some c then some (s.setPhase c agentId .matched)
      else some (s.setPhase c agentId .gone)
    | _ => none
  | .unregister c =>
    match s.connections c with
    | some ⟨agentId, .matched⟩ =>
      some ({ s with agents := s.agents.unregister agentId }.setPhase c agentId .gone)
    | _ => none
  | .lookup d site agentId msg =>
    match s.dispatches d with
    | none => some (s.lookup d site agentId msg)
    | some _ => none
  | .send d =>
    match s.dispatches d with
    | some (.sending site agentId msg targetTx) => some (s.send d site agentId msg targetTx)
    | _ => none
  | .enqueue d =>
    match s.dispatches d with
    | some (.queueing agentId msg) => some (s.enqueue d agentId msg)
    | _ => none

@[simp] theorem setPhase_agents (s : Transport M) (c : ChannelId) (agentId : String)
    (phase : Phase) : (s.setPhase c agentId phase).agents = s.agents := rfl

@[simp] theorem setPhase_channels (s : Transport M) (c : ChannelId) (agentId : String)
    (phase : Phase) : (s.setPhase c agentId phase).channels = s.channels := rfl

@[simp] theorem setPhase_store (s : Transport M) (c : ChannelId) (agentId : String)
    (phase : Phase) : (s.setPhase c agentId phase).store = s.store := rfl

@[simp] theorem setPhase_journal (s : Transport M) (c : ChannelId) (agentId : String)
    (phase : Phase) : (s.setPhase c agentId phase).journal = s.journal := rfl

@[simp] theorem setPhase_connections (s : Transport M) (c : ChannelId) (agentId : String)
    (phase : Phase) : (s.setPhase c agentId phase).connections =
      Function.update s.connections c (some ⟨agentId, phase⟩) := rfl

@[simp] theorem setDispatch_channels (s : Transport M) (d : Nat) (progress : Progress M) :
    (s.setDispatch d progress).channels = s.channels := rfl

@[simp] theorem setDispatch_store (s : Transport M) (d : Nat) (progress : Progress M) :
    (s.setDispatch d progress).store = s.store := rfl

@[simp] theorem setDispatch_journal (s : Transport M) (d : Nat) (progress : Progress M) :
    (s.setDispatch d progress).journal = s.journal := rfl

@[simp] theorem setDispatch_dispatches (s : Transport M) (d : Nat) (progress : Progress M) :
    (s.setDispatch d progress).dispatches =
      Function.update s.dispatches d (some progress) := rfl

@[simp] theorem hello_txOf_self (s : Transport M) (c : ChannelId) (agentId : String) :
    (s.hello c agentId).agents.txOf agentId = some c :=
  AgentRegistry.txOf_register_self s.agents ⟨agentId, s.store.now, some c⟩

theorem hello_txOf_of_ne (s : Transport M) (c : ChannelId) {agentId a : String}
    (h : a ≠ agentId) : (s.hello c agentId).agents.txOf a = s.agents.txOf a :=
  AgentRegistry.txOf_register_of_ne s.agents ⟨agentId, s.store.now, some c⟩ h

/-- A send leaves each channel as open as it was. -/
@[simp] theorem send_isOpen (s : Transport M) (d : Nat) (site : Site) (agentId : String)
    (msg : M) (targetTx c : ChannelId) :
    ((s.send d site agentId msg targetTx).channels c).isOpen = (s.channels c).isOpen := by
  unfold send
  split
  · by_cases hc : c = targetTx <;> simp [sendDirect, hc]
  · rfl

/-! ## What each step does -/

theorem step_upkeep {s t : Transport M} {label : Queue.Label (Parcel M)}
    (h : s.step (.upkeep label) = some t) :
    label.isUpkeep = true ∧ ∃ store, s.store.step label = some store ∧
      t = { s with store } := by
  simp only [step] at h
  split at h
  · rename_i hlabel
    obtain ⟨store, hstore, ht⟩ := Option.map_eq_some_iff.mp h
    exact ⟨hlabel, store, hstore, ht.symm⟩
  · simp at h

theorem step_connect {s t : Transport M} {c : ChannelId} {agentId : String}
    (h : s.step (.connect c agentId) = some t) :
    s.connections c = none ∧ t = s.connect c agentId := by
  simp only [step] at h
  split at h
  · rename_i hnone
    exact ⟨hnone, (Option.some.inj h).symm⟩
  · simp at h

theorem step_hello {s t : Transport M} {c : ChannelId} (h : s.step (.hello c) = some t) :
    ∃ agentId, s.connections c = some ⟨agentId, .serving⟩ ∧ t = s.hello c agentId := by
  simp only [step] at h
  split at h
  · rename_i agentId hconn
    exact ⟨agentId, hconn, (Option.some.inj h).symm⟩
  · simp at h

theorem step_drain {s t : Transport M} {c : ChannelId} {call : Nat}
    (h : s.step (.drain c call) = some t) :
    ∃ agentId, s.connections c = some ⟨agentId, .registered⟩ ∧ s.store.calls call = none ∧
      t = s.drain c call agentId := by
  simp only [step] at h
  split at h
  · rename_i agentId hconn hcall
    exact ⟨agentId, hconn, hcall, (Option.some.inj h).symm⟩
  · simp at h

theorem step_heartbeat {s t : Transport M} {c : ChannelId}
    (h : s.step (.heartbeat c) = some t) :
    ∃ agentId, s.connections c = some ⟨agentId, .serving⟩ ∧ t = s.heartbeat agentId := by
  simp only [step] at h
  split at h
  · rename_i agentId hconn
    exact ⟨agentId, hconn, (Option.some.inj h).symm⟩
  · simp at h

theorem step_write {s t : Transport M} {c : ChannelId} (h : s.step (.write c) = some t) :
    ∃ parcel rest, s.channels c = ⟨true, parcel :: rest⟩ ∧ t = s.write c parcel rest := by
  simp only [step] at h
  split at h
  · rename_i parcel rest hchannel
    exact ⟨parcel, rest, hchannel, (Option.some.inj h).symm⟩
  · simp at h

theorem step_close {s t : Transport M} {c : ChannelId} (h : s.step (.close c) = some t) :
    (s.channels c).isOpen = true ∧ t = s.close c := by
  simp only [step] at h
  split at h
  · rename_i hopen
    exact ⟨hopen, (Option.some.inj h).symm⟩
  · simp at h

theorem step_leave {s t : Transport M} {c : ChannelId} (h : s.step (.leave c) = some t) :
    ∃ agentId, s.connections c = some ⟨agentId, .serving⟩ ∧
      t = s.setPhase c agentId .leaving := by
  simp only [step] at h
  split at h
  · rename_i agentId hconn
    exact ⟨agentId, hconn, (Option.some.inj h).symm⟩
  · simp at h

theorem step_teardown {s t : Transport M} {c : ChannelId} (h : s.step (.teardown c) = some t) :
    ∃ agentId phase, s.connections c = some ⟨agentId, .leaving⟩ ∧
      (phase = .matched ∧ s.agents.txOf agentId = some c ∨ phase = .gone) ∧
      t = s.setPhase c agentId phase := by
  simp only [step] at h
  split at h
  · rename_i agentId hconn
    split at h
    · rename_i hsame
      exact ⟨agentId, .matched, hconn, Or.inl ⟨rfl, hsame⟩, (Option.some.inj h).symm⟩
    · exact ⟨agentId, .gone, hconn, Or.inr rfl, (Option.some.inj h).symm⟩
  · simp at h

theorem step_unregister {s t : Transport M} {c : ChannelId} (h : s.step (.unregister c) = some t) :
    ∃ agentId, s.connections c = some ⟨agentId, .matched⟩ ∧
      t = { s with agents := s.agents.unregister agentId }.setPhase c agentId .gone := by
  simp only [step] at h
  split at h
  · rename_i agentId hconn
    exact ⟨agentId, hconn, (Option.some.inj h).symm⟩
  · simp at h

theorem step_lookup {s t : Transport M} {d : Nat} {site : Site} {agentId : String} {msg : M}
    (h : s.step (.lookup d site agentId msg) = some t) :
    s.dispatches d = none ∧ t = s.lookup d site agentId msg := by
  simp only [step] at h
  split at h
  · rename_i hnone
    exact ⟨hnone, (Option.some.inj h).symm⟩
  · simp at h

theorem step_send {s t : Transport M} {d : Nat} (h : s.step (.send d) = some t) :
    ∃ site agentId msg targetTx,
      s.dispatches d = some (.sending site agentId msg targetTx) ∧
        t = s.send d site agentId msg targetTx := by
  simp only [step] at h
  split at h
  · rename_i site agentId msg targetTx hprogress
    exact ⟨site, agentId, msg, targetTx, hprogress, (Option.some.inj h).symm⟩
  · simp at h

theorem step_enqueue {s t : Transport M} {d : Nat} (h : s.step (.enqueue d) = some t) :
    ∃ agentId msg, s.dispatches d = some (.queueing agentId msg) ∧
      t = s.enqueue d agentId msg := by
  simp only [step] at h
  split at h
  · rename_i agentId msg hprogress
    exact ⟨agentId, msg, hprogress, (Option.some.inj h).symm⟩
  · simp at h

/-! ## What a step leaves as it was -/

/-- The part is the same in both states. -/
def Same (s t : Transport M) : Part → Prop
  | .agents => t.agents = s.agents
  | .channels => t.channels = s.channels
  | .connections => t.connections = s.connections
  | .dispatches => t.dispatches = s.dispatches
  | .store => t.store = s.store
  | .placed => t.journal.placed = s.journal.placed
  | .written => t.journal.written = s.journal.written
  | .lastHello => t.journal.lastHello = s.journal.lastHello
  | .doneBefore => t.journal.doneBefore = s.journal.doneBefore
  | .queuedAtSend => t.journal.queuedAtSend = s.journal.queuedAtSend

theorem same_send (s : Transport M) (d : Nat) (site : Site) (agentId : String) (msg : M)
    (targetTx : ChannelId) (part : Part)
    (h : (Event.send d : Event M).changes part = false) :
    Same s (s.send d site agentId msg targetTx) part := by
  unfold send
  split
  · cases part <;> first | rfl | exact absurd h (by simp [Event.changes])
  · cases part <;> first | rfl | exact absurd h (by simp [Event.changes])

/-- A step leaves every part alone that it does not change. -/
theorem step_frame {s t : Transport M} {event : Event M} (part : Part)
    (h : event.changes part = false) (hstep : s.step event = some t) : Same s t part := by
  cases event with
  | upkeep label =>
    obtain ⟨_, store, _, rfl⟩ := step_upkeep hstep
    cases part <;> first | rfl | exact absurd h (by simp [Event.changes])
  | connect c agentId =>
    obtain ⟨_, rfl⟩ := step_connect hstep
    cases part <;> first | rfl | exact absurd h (by simp [Event.changes])
  | hello c =>
    obtain ⟨agentId, _, rfl⟩ := step_hello hstep
    cases part <;> first | rfl | exact absurd h (by simp [Event.changes])
  | drain c call =>
    obtain ⟨agentId, _, _, rfl⟩ := step_drain hstep
    cases part <;> first | rfl | exact absurd h (by simp [Event.changes])
  | heartbeat c =>
    obtain ⟨agentId, _, rfl⟩ := step_heartbeat hstep
    cases part <;> first | rfl | exact absurd h (by simp [Event.changes])
  | write c =>
    obtain ⟨parcel, rest, _, rfl⟩ := step_write hstep
    cases part <;> first | rfl | exact absurd h (by simp [Event.changes])
  | close c =>
    obtain ⟨_, rfl⟩ := step_close hstep
    cases part <;> first | rfl | exact absurd h (by simp [Event.changes])
  | leave c =>
    obtain ⟨agentId, _, rfl⟩ := step_leave hstep
    cases part <;> first | rfl | exact absurd h (by simp [Event.changes])
  | teardown c =>
    obtain ⟨agentId, phase, _, _, rfl⟩ := step_teardown hstep
    cases part <;> first | rfl | exact absurd h (by simp [Event.changes])
  | unregister c =>
    obtain ⟨agentId, _, rfl⟩ := step_unregister hstep
    cases part <;> first | rfl | exact absurd h (by simp [Event.changes])
  | lookup d site agentId msg =>
    obtain ⟨_, rfl⟩ := step_lookup hstep
    cases part <;> first | rfl | exact absurd h (by simp [Event.changes])
  | send d =>
    obtain ⟨site, agentId, msg, targetTx, _, rfl⟩ := step_send hstep
    exact same_send s d site agentId msg targetTx part h
  | enqueue d =>
    obtain ⟨agentId, msg, _, rfl⟩ := step_enqueue hstep
    cases part <;> first | rfl | exact absurd h (by simp [Event.changes])

/-! ## The registry and the connections over a step -/

/-- The registry leads elsewhere after a Hello and after an unregister only, and only a Hello
registers an agent. -/
theorem registry_step {s t : Transport M} {event : Event M} (hstep : s.step event = some t) :
    ((∀ a, t.agents.txOf a = s.agents.txOf a) ∧
        (∀ a, s.agents.get a = none → t.agents.get a = none) ∧
        t.journal.lastHello = s.journal.lastHello) ∨
      (∃ c agentId, event = .hello c ∧ s.connections c = some ⟨agentId, .serving⟩ ∧
        t = s.hello c agentId) ∨
      (∃ c agentId, event = .unregister c ∧ s.connections c = some ⟨agentId, .matched⟩ ∧
        t = { s with agents := s.agents.unregister agentId }.setPhase c agentId .gone) := by
  cases event with
  | hello c =>
    obtain ⟨agentId, hconn, ht⟩ := step_hello hstep
    exact Or.inr (Or.inl ⟨c, agentId, rfl, hconn, ht⟩)
  | unregister c =>
    obtain ⟨agentId, hconn, ht⟩ := step_unregister hstep
    exact Or.inr (Or.inr ⟨c, agentId, rfl, hconn, ht⟩)
  | heartbeat c =>
    obtain ⟨agentId, _, rfl⟩ := step_heartbeat hstep
    exact Or.inl ⟨s.agents.txOf_heartbeat agentId s.store.now,
      fun a hnone => AgentRegistry.get_heartbeat_none hnone agentId s.store.now, rfl⟩
  | _ =>
    have hagents : t.agents = s.agents := step_frame .agents rfl hstep
    refine Or.inl ⟨fun a => by rw [hagents], fun a hnone => ?_, step_frame .lastHello rfl hstep⟩
    rwa [hagents]

/-- A connection that moves on to another phase keeps its agent, and its
receive loop does not start again. -/
theorem connections_setPhase {s : Transport M} {c : ChannelId} {agentId : String}
    {old new : Phase} (hold : s.connections c = some ⟨agentId, old⟩)
    (hserving : new.isServing = true → old.isServing = true) {a : String}
    {other : ChannelId} {phase : Phase} (h : s.connections other = some ⟨a, phase⟩) :
    ∃ phase', (s.setPhase c agentId new).connections other = some ⟨a, phase'⟩ ∧
      (phase'.isServing = true → phase.isServing = true) := by
  by_cases hother : other = c
  · subst hother
    rw [hold] at h
    simp only [Option.some.injEq, Connection.mk.injEq] at h
    obtain ⟨rfl, rfl⟩ := h
    exact ⟨new, by simp, hserving⟩
  · exact ⟨phase, by simp [hother, h], id⟩

/-- No step changes the agent of a connection, and none starts its receive
loop again. -/
theorem connections_step {s t : Transport M} {event : Event M}
    (hstep : s.step event = some t) {a : String} {c : ChannelId} {phase : Phase}
    (h : s.connections c = some ⟨a, phase⟩) :
    ∃ phase', t.connections c = some ⟨a, phase'⟩ ∧
      (phase'.isServing = true → phase.isServing = true) := by
  cases event with
  | connect other agentId =>
    obtain ⟨hnone, rfl⟩ := step_connect hstep
    have hne : c ≠ other := by
      rintro rfl
      rw [hnone] at h
      simp at h
    exact ⟨phase, by simpa [connect, hne] using h, id⟩
  | hello other =>
    obtain ⟨agentId, hconn, rfl⟩ := step_hello hstep
    exact connections_setPhase hconn (fun _ => rfl) h
  | drain other call =>
    obtain ⟨agentId, hconn, _, rfl⟩ := step_drain hstep
    exact connections_setPhase hconn (fun _ => rfl) h
  | leave other =>
    obtain ⟨agentId, hconn, rfl⟩ := step_leave hstep
    exact connections_setPhase hconn (by simp [Phase.isServing]) h
  | teardown other =>
    obtain ⟨agentId, phase', hconn, hphase, rfl⟩ := step_teardown hstep
    have hgone : phase'.isServing = false := by
      rcases hphase with ⟨hmatched, _⟩ | hgone
      · rw [hmatched]
        rfl
      · rw [hgone]
        rfl
    exact connections_setPhase hconn (by simp [hgone]) h
  | unregister other =>
    obtain ⟨agentId, hconn, rfl⟩ := step_unregister hstep
    exact connections_setPhase hconn (by simp [Phase.isServing]) h
  | _ =>
    have hsame : t.connections = s.connections := step_frame .connections rfl hstep
    exact ⟨phase, by rw [hsame, h], id⟩

/-- A step leaves every other connection where it stands. -/
theorem connections_frame {s t : Transport M} {event : Event M} {c : ChannelId}
    (hother : event.connection ≠ some c) (hstep : s.step event = some t) :
    t.connections c = s.connections c := by
  have hset : ∀ (u : Transport M) (other : ChannelId) (agentId : String) (phase : Phase),
      some other ≠ some c → (u.setPhase other agentId phase).connections c = u.connections c := by
    intro u other agentId phase hne
    exact Function.update_of_ne (fun heq => hne (congrArg some heq.symm)) _ _
  cases event with
  | connect other agentId =>
    obtain ⟨_, rfl⟩ := step_connect hstep
    exact hset _ _ _ _ hother
  | hello other =>
    obtain ⟨agentId, _, rfl⟩ := step_hello hstep
    exact hset _ _ _ _ hother
  | drain other call =>
    obtain ⟨agentId, _, _, rfl⟩ := step_drain hstep
    exact hset _ _ _ _ hother
  | leave other =>
    obtain ⟨agentId, _, rfl⟩ := step_leave hstep
    exact hset _ _ _ _ hother
  | teardown other =>
    obtain ⟨agentId, phase, _, _, rfl⟩ := step_teardown hstep
    exact hset _ _ _ _ hother
  | unregister other =>
    obtain ⟨agentId, _, rfl⟩ := step_unregister hstep
    exact hset _ _ _ _ hother
  | _ =>
    have hsame : t.connections = s.connections := step_frame .connections rfl hstep
    rw [hsame]

/-- A run leaves every connection that it does not name where it stands. -/
theorem connections_run {s t : Transport M} {events : List (Event M)} {c : ChannelId}
    (hother : ∀ event ∈ events, event.connection ≠ some c)
    (hrun : run step s events = some t) : t.connections c = s.connections c := by
  induction events generalizing s with
  | nil =>
    obtain rfl := Option.some.inj hrun
    rfl
  | cons event events ih =>
    obtain ⟨u, hstep, hrest⟩ := run_cons_eq_some.mp hrun
    rw [ih (fun e he => hother e (List.mem_cons_of_mem _ he)) hrest]
    exact connections_frame (hother event List.mem_cons_self) hstep

theorem unregister_txOf_of_ne (s : Transport M) (c : ChannelId) {agentId a : String}
    (h : a ≠ agentId) :
    ({ s with agents := s.agents.unregister agentId }.setPhase c agentId .gone).agents.txOf a =
      s.agents.txOf a :=
  AgentRegistry.txOf_unregister_of_ne s.agents h

/-- Only a Hello leads the registry to a channel that it did not lead to. -/
theorem txOf_step {s t : Transport M} {event : Event M} (hstep : s.step event = some t)
    {a : String} {c : ChannelId} (h : t.agents.txOf a = some c) :
    s.agents.txOf a = some c ∨ s.connections c = some ⟨a, .serving⟩ := by
  rcases registry_step hstep with ⟨hagents, _, _⟩ | ⟨other, agentId, _, hconn, rfl⟩ |
    ⟨other, agentId, _, _, rfl⟩
  · rw [hagents] at h
    exact Or.inl h
  · by_cases ha : a = agentId
    · subst ha
      rw [hello_txOf_self] at h
      rw [← Option.some.inj h]
      exact Or.inr hconn
    · rw [hello_txOf_of_ne s other ha] at h
      exact Or.inl h
  · by_cases ha : a = agentId
    · subst ha
      simp at h
    · rw [unregister_txOf_of_ne s other ha] at h
      exact Or.inl h

/-- The registry leads to a connection of the same agent. -/
def Owned (s : Transport M) : Prop :=
  ∀ a c, s.agents.txOf a = some c → ∃ phase, s.connections c = some ⟨a, phase⟩

theorem owned_start (now : Int) : (start now : Transport M).Owned := by
  intro a c htx
  simp [start] at htx

theorem Owned.step {s t : Transport M} {event : Event M} (h : s.Owned)
    (hstep : s.step event = some t) : t.Owned := by
  intro a c htx
  rcases txOf_step hstep htx with hold | hconn
  · obtain ⟨phase, hphase⟩ := h a c hold
    obtain ⟨phase', hphase', _⟩ := connections_step hstep hphase
    exact ⟨phase', hphase'⟩
  · obtain ⟨phase', hphase', _⟩ := connections_step hstep hconn
    exact ⟨phase', hphase'⟩

/-- Only a lookup of the agent itself leads to its channel. -/
theorem Owned.eq {s : Transport M} (h : s.Owned) {a agentId : String} {c : ChannelId}
    {phase : Phase} (htx : s.agents.txOf a = some c)
    (hconn : s.connections c = some ⟨agentId, phase⟩) : a = agentId := by
  obtain ⟨phase', hphase'⟩ := h a c htx
  rw [hconn] at hphase'
  simp only [Option.some.injEq, Connection.mk.injEq] at hphase'
  exact hphase'.1.symm

/-! ## A dispatch without interruption -/

/-- What the delivery functions see of the transport. -/
def exchange (s : Transport M) : Exchange (Parcel M) where
  agents := s.agents
  channels := s.channels
  queues := s.store.queues

/-- The dispatch `d` takes the steps of `rest` and is then done. -/
def Finishes (s : Transport M) (d : Nat) (rest : List (Event M)) (t : Transport M) : Prop :=
  (∀ event ∈ rest, event = .send d ∨ event = .enqueue d) ∧
    run step s rest = some t ∧ t.dispatches d = some .done

theorem finishes_done {s : Transport M} {d : Nat} (h : s.dispatches d = some .done) :
    s.Finishes d [] s := by
  refine ⟨?_, rfl, h⟩
  intro event hmem
  exact absurd hmem List.not_mem_nil

theorem finishes_queueing {s : Transport M} {d : Nat} {agentId : String} {msg : M}
    (h : s.dispatches d = some (.queueing agentId msg)) :
    s.Finishes d [.enqueue d] (s.enqueue d agentId msg) := by
  refine ⟨?_, ?_, ?_⟩
  · intro event hmem
    exact Or.inr (List.mem_singleton.mp hmem)
  · simp [run, step, h]
  · simp [enqueue]

theorem Finishes.send {s t : Transport M} {d : Nat} {site : Site} {agentId : String} {msg : M}
    {targetTx : ChannelId} {rest : List (Event M)}
    (h : s.dispatches d = some (.sending site agentId msg targetTx))
    (hrest : (s.send d site agentId msg targetTx).Finishes d rest t) :
    s.Finishes d (.send d :: rest) t := by
  obtain ⟨hevents, hrun, hdone⟩ := hrest
  refine ⟨?_, ?_, hdone⟩
  · intro event hmem
    rcases List.mem_cons.mp hmem with heq | htail
    · exact Or.inl heq
    · exact hevents event htail
  · exact run_cons_eq_some.mpr ⟨_, by simp [step, h], hrun⟩

/-- A dispatch that nothing interrupts does what the delivery function of its
site does. -/
theorem dispatch_refines_site {s : Transport M} {d : Nat} (site : Site) {dest : String}
    {agentId : String} (msg : M) (hfree : s.dispatches d = none)
    (hdest : targetAgent dest = some agentId) :
    s.step (.lookup d site agentId msg) = some (s.lookup d site agentId msg) ∧
      ∃ rest t, (s.lookup d site agentId msg).Finishes d rest t ∧
        t.exchange = site.deliver s.exchange (some dest) ⟨d, msg⟩ s.store.now := by
  refine ⟨by simp [step, hfree], ?_⟩
  have hprogress : (s.lookup d site agentId msg).dispatches d =
      some (afterLookup s.agents site agentId msg) := by simp [lookup]
  cases hget : s.agents.get agentId with
  | none =>
    simp only [afterLookup, hget] at hprogress
    refine ⟨_, _, finishes_queueing hprogress, ?_⟩
    rw [site.deliver_absent hdest hget]
    rfl
  | some agent =>
    cases htx : agent.tx with
    | none =>
      rw [site.deliver_noSender hdest hget htx]
      simp only [afterLookup, hget, htx] at hprogress
      cases hqueues : site.queuesOnNoSender with
      | true =>
        simp only [hqueues, if_true] at hprogress
        exact ⟨_, _, finishes_queueing hprogress, rfl⟩
      | false =>
        simp only [hqueues, Bool.false_eq_true, if_false] at hprogress
        exact ⟨_, _, finishes_done hprogress, rfl⟩
    | some targetTx =>
      rw [site.deliver_channel hdest hget htx]
      simp only [afterLookup, hget, htx] at hprogress
      cases hopen : (s.channels targetTx).isOpen with
      | true =>
        have hsend : (s.lookup d site agentId msg).send d site agentId msg targetTx =
            (s.lookup d site agentId msg).sendDirect agentId targetTx ⟨d, msg⟩ := if_pos hopen
        have hdone : ((s.lookup d site agentId msg).send d site agentId msg
            targetTx).dispatches d = some .done := by
          rw [hsend]
          simp [sendDirect]
        refine ⟨_, _, Finishes.send hprogress (finishes_done hdone), ?_⟩
        rw [hsend, Exchange.send_of_open hopen]
        rfl
      | false =>
        have hsend : (s.lookup d site agentId msg).send d site agentId msg targetTx =
            (s.lookup d site agentId msg).setDispatch d
              (if site.queuesOnSendError then .queueing agentId msg else .done) := by
          refine if_neg ?_
          simp [lookup, hopen]
        rw [Exchange.send_of_closed hopen]
        cases hqueues : site.queuesOnSendError with
        | true =>
          have hqueueing : ((s.lookup d site agentId msg).send d site agentId msg
              targetTx).dispatches d = some (.queueing agentId msg) := by
            rw [hsend]
            simp [hqueues]
          refine ⟨_, _, Finishes.send hprogress (finishes_queueing hqueueing), ?_⟩
          rw [hsend]
          rfl
        | false =>
          have hdone : ((s.lookup d site agentId msg).send d site agentId msg
              targetTx).dispatches d = some .done := by
            rw [hsend]
            simp [hqueues]
          refine ⟨_, _, Finishes.send hprogress (finishes_done hdone), ?_⟩
          rw [hsend]
          rfl

end Transport

end Xfiles.Net
