import Mathlib.Logic.Function.Basic
import Xfiles.Net.Registry
import Xfiles.Queue.Basic

/-!
# The four delivery sites

A message for an agent is delivered in four places: `handle_op` on the
WebSocket, `send_message` and `msg_handler` on the two HTTP routers, and
`grpc_handler`.  Each one looks the target agent up, and then either sends
into its channel or enqueues.

* `targetAgent` reads the agent id out of a destination.
* `deliverTo` is what the first three have in common, with one parameter for
  the place where they differ.  `grpcHandler` is written on its own.
* `Delivered` says that a message ended up in the open channel of the target
  or at the back of its queue, once.
* `sites_deliver_iff` says in which states of the registry all four sites
  deliver and agree.
-/

namespace Xfiles.Net

open Xfiles.Queue

/-- The agent registry, the channels and the queue. -/
structure Exchange (M : Type*) where
  agents : AgentRegistry
  channels : ChannelId → Channel M
  queues : MessageQueue M

/-- The agent that `dest` names: `dest.starts_with("/net/")`, then the third
part of `dest.split('/')`. -/
def targetAgent (dest : String) : Option String :=
  if "/net/".toList.isPrefixOf dest.toList then
    ((dest.toList.splitOn '/')[2]?).map String.ofList
  else none

/-- `path` is empty or goes on below a directory. -/
def IsBelow (path : String) : Prop :=
  path = "" ∨ ∃ tail, path.toList = '/' :: tail

/-- The agent of `/net/<agent>`, and of every path below it. -/
theorem targetAgent_path {agentId path : String} (hagent : '/' ∉ agentId.toList)
    (hpath : IsBelow path) : targetAgent ("/net/" ++ agentId ++ path) = some agentId := by
  have hlist : ("/net/" ++ agentId ++ path).toList =
      '/' :: 'n' :: 'e' :: 't' :: '/' :: (agentId.toList ++ path.toList) := by
    rw [String.toList_append, String.toList_append, List.append_assoc]
    rfl
  have hhead : ∃ tail, (agentId.toList ++ path.toList).splitOn '/' = agentId.toList :: tail := by
    rcases hpath with hempty | ⟨tail, htail⟩
    · refine ⟨[], ?_⟩
      rw [hempty]
      simp [List.splitOn_eq_singleton hagent]
    · refine ⟨tail.splitOn '/', ?_⟩
      rw [htail, List.splitOn_append_cons_self, List.splitOn_eq_singleton hagent]
      rfl
  obtain ⟨tail, hsplit⟩ := hhead
  have hparts : ("/net/" ++ agentId ++ path).toList.splitOn '/' =
      [] :: ['n', 'e', 't'] :: agentId.toList :: tail := by
    rw [hlist]
    have hnet : '/' ∉ ['n', 'e', 't'] := by decide
    calc ('/' :: 'n' :: 'e' :: 't' :: '/' :: (agentId.toList ++ path.toList)).splitOn '/'
        = ([] ++ '/' :: (['n', 'e', 't'] ++ '/' :: (agentId.toList ++ path.toList))).splitOn '/' :=
          rfl
      _ = [] :: (['n', 'e', 't'] ++ '/' :: (agentId.toList ++ path.toList)).splitOn '/' := by
          rw [List.splitOn_append_cons_self]
          rfl
      _ = [] :: ['n', 'e', 't'] :: (agentId.toList ++ path.toList).splitOn '/' := by
          rw [List.splitOn_append_cons_self, List.splitOn_eq_singleton hnet]
          rfl
      _ = [] :: ['n', 'e', 't'] :: agentId.toList :: tail := by rw [hsplit]
  have hprefix : "/net/".toList.isPrefixOf ("/net/" ++ agentId ++ path).toList = true := by
    rw [hlist]
    rfl
  unfold targetAgent
  rw [if_pos hprefix, hparts]
  simp

namespace Exchange

variable {M : Type*}

def enqueue (s : Exchange M) (agentId : String) (msg : M) (now : Int) : Exchange M :=
  { s with queues := s.queues.enqueue agentId msg now }

/-- `target_tx.send`, or `none` for a send error. -/
def send (s : Exchange M) (tx : ChannelId) (msg : M) : Option (Exchange M) :=
  ((s.channels tx).send msg).map fun channel =>
    { s with channels := Function.update s.channels tx channel }

/-- Delivery as `handle_op`, `send_message` and `msg_handler` have it.  The
parameter tells whether a send error leads to the queue. -/
def deliverTo (queuesOnSendError : Bool) (s : Exchange M) (agentId : String) (msg : M)
    (now : Int) : Exchange M :=
  match s.agents.get agentId with
  | some target =>
    match target.tx with
    | some targetTx =>
      match s.send targetTx msg with
      | some t => t
      | none => if queuesOnSendError then s.enqueue agentId msg now else s
    | none => s
  | none => s.enqueue agentId msg now

/-- The `Message` branch of `handle_op`, after routing. -/
def handleOpMessage (s : Exchange M) (finalDest : Option String) (msg : M) (now : Int) :
    Exchange M :=
  match finalDest.bind targetAgent with
  | some agentId => s.deliverTo false agentId msg now
  | none => s

/-- `send_message` of the API, after routing. -/
def sendMessage (s : Exchange M) (selected : Option String) (msg : M) (now : Int) :
    Exchange M :=
  match selected.bind targetAgent with
  | some agentId => s.deliverTo false agentId msg now
  | none => s

/-- `msg_handler` of the daemon, after routing. -/
def msgHandler (s : Exchange M) (selected : Option String) (msg : M) (now : Int) :
    Exchange M :=
  match selected.bind targetAgent with
  | some agentId => s.deliverTo true agentId msg now
  | none => s

/-- `xfiles.Message/Send` of `grpc_handler`, after routing.  Whatever keeps the
message from being sent leads to the queue. -/
def grpcHandler (s : Exchange M) (selected : Option String) (msg : M) (now : Int) :
    Exchange M :=
  match selected.bind targetAgent with
  | some agentId =>
    let sent := ((s.agents.get agentId).bind (·.tx)).bind fun tx => s.send tx msg
    match sent with
    | some t => t
    | none => s.enqueue agentId msg now
  | none => s

/-! ## Delivered once -/

/-- The message went into the open channel of the agent, or to the back of its
queue, and nothing else changed. -/
def Delivered (s t : Exchange M) (agentId : String) (msg : M) (now : Int) : Prop :=
  (∃ tx, s.agents.txOf agentId = some tx ∧ (s.channels tx).isOpen = true ∧
      t = { s with
        channels := Function.update s.channels tx
          { s.channels tx with buffer := (s.channels tx).buffer ++ [msg] } }) ∨
    t = s.enqueue agentId msg now

theorem send_of_open {s : Exchange M} {tx : ChannelId} (h : (s.channels tx).isOpen = true)
    (msg : M) :
    s.send tx msg = some { s with
      channels := Function.update s.channels tx
        { s.channels tx with buffer := (s.channels tx).buffer ++ [msg] } } := by
  simp [send, Channel.send_open h]

theorem send_of_closed {s : Exchange M} {tx : ChannelId}
    (h : (s.channels tx).isOpen = false) (msg : M) : s.send tx msg = none := by
  simp [send, Channel.send_closed h]

/-- A delivery is never a no-op. -/
theorem Delivered.ne_self {s t : Exchange M} {agentId : String} {msg : M} {now : Int}
    (h : Delivered s t agentId msg now) : t ≠ s := by
  intro hsame
  rcases h with ⟨tx, _, _, ht⟩ | ht
  · have hbuffer := congrArg (fun u => (u.channels tx).buffer) (hsame.symm.trans ht)
    simp at hbuffer
  · have hpending := congrArg (fun u => u.queues.pending agentId) (hsame.symm.trans ht)
    simp [enqueue] at hpending

end Exchange

/-! ## The sites side by side -/

inductive Site where
  | handleOp
  | sendMessage
  | msgHandler
  | grpcHandler
  deriving DecidableEq, Repr

namespace Site

variable {M : Type*}

def deliver : Site → Exchange M → Option String → M → Int → Exchange M
  | .handleOp => Exchange.handleOpMessage
  | .sendMessage => Exchange.sendMessage
  | .msgHandler => Exchange.msgHandler
  | .grpcHandler => Exchange.grpcHandler

/-- A send error leads to the queue. -/
def queuesOnSendError : Site → Bool
  | .handleOp | .sendMessage => false
  | .msgHandler | .grpcHandler => true

/-- An agent without a sender leads to the queue. -/
def queuesOnNoSender : Site → Bool
  | .handleOp | .sendMessage | .msgHandler => false
  | .grpcHandler => true

/-- The agent is not registered, so the message is queued. -/
theorem deliver_absent (site : Site) {s : Exchange M} {dest agentId : String} {msg : M}
    {now : Int} (hdest : targetAgent dest = some agentId)
    (habsent : s.agents.get agentId = none) :
    site.deliver s (some dest) msg now = s.enqueue agentId msg now := by
  cases site <;>
    simp [deliver, Exchange.handleOpMessage, Exchange.sendMessage, Exchange.msgHandler,
      Exchange.grpcHandler, Exchange.deliverTo, hdest, habsent]

/-- The agent is registered without a sender. -/
theorem deliver_noSender (site : Site) {s : Exchange M} {dest agentId : String} {msg : M}
    {now : Int} {agent : Agent} (hdest : targetAgent dest = some agentId)
    (hget : s.agents.get agentId = some agent) (htx : agent.tx = none) :
    site.deliver s (some dest) msg now =
      if site.queuesOnNoSender then s.enqueue agentId msg now else s := by
  cases site <;>
    simp [deliver, Exchange.handleOpMessage, Exchange.sendMessage, Exchange.msgHandler,
      Exchange.grpcHandler, Exchange.deliverTo, queuesOnNoSender, hdest, hget, htx]

/-- The agent is registered with a channel. -/
theorem deliver_channel (site : Site) {s : Exchange M} {dest agentId : String} {msg : M}
    {now : Int} {agent : Agent} {tx : ChannelId} (hdest : targetAgent dest = some agentId)
    (hget : s.agents.get agentId = some agent) (htx : agent.tx = some tx) :
    site.deliver s (some dest) msg now =
      (s.send tx msg).getD
        (if site.queuesOnSendError then s.enqueue agentId msg now else s) := by
  cases site <;> cases hsend : s.send tx msg <;>
    simp [deliver, Exchange.handleOpMessage, Exchange.sendMessage, Exchange.msgHandler,
      Exchange.grpcHandler, Exchange.deliverTo, queuesOnSendError, hdest, hget, htx, hsend]

end Site

namespace Exchange

variable {M : Type*}

/-- The agent is not registered, or registered with an open channel. -/
def Deliverable (s : Exchange M) (agentId : String) : Prop :=
  s.agents.get agentId = none ∨
    ∃ tx, s.agents.txOf agentId = some tx ∧ (s.channels tx).isOpen = true

/-- A site delivers in a deliverable state, and otherwise as far as it falls
back to the queue. -/
theorem delivered_iff (site : Site) {s : Exchange M} {dest agentId : String} {msg : M}
    {now : Int} (hdest : targetAgent dest = some agentId) :
    Delivered s (site.deliver s (some dest) msg now) agentId msg now ↔
      s.Deliverable agentId ∨
        (s.agents.txOf agentId = none ∧ site.queuesOnNoSender = true) ∨
        (∃ tx, s.agents.txOf agentId = some tx ∧ site.queuesOnSendError = true) := by
  unfold Deliverable
  cases hget : s.agents.get agentId with
  | none =>
    rw [site.deliver_absent hdest hget]
    simp [Delivered]
  | some agent =>
    cases htx : agent.tx with
    | none =>
      have htxOf : s.agents.txOf agentId = none := by simp [AgentRegistry.txOf, hget, htx]
      rw [site.deliver_noSender hdest hget htx]
      cases hqueues : site.queuesOnNoSender with
      | true => simp [Delivered, htxOf]
      | false =>
        have hkept : ¬ Delivered s s agentId msg now := fun h => h.ne_self rfl
        simp [htxOf, hkept]
    | some tx =>
      have htxOf : s.agents.txOf agentId = some tx := by
        simp [AgentRegistry.txOf, hget, htx]
      rw [site.deliver_channel hdest hget htx]
      cases hopen : (s.channels tx).isOpen with
      | true =>
        rw [send_of_open hopen]
        simp [Delivered, htxOf, hopen]
      | false =>
        rw [send_of_closed hopen]
        cases hqueues : site.queuesOnSendError with
        | true => simp [Delivered, htxOf]
        | false =>
          have hkept : ¬ Delivered s s agentId msg now := fun h => h.ne_self rfl
          simp [htxOf, hopen, hkept]

/-- In a deliverable state the sites do not differ. -/
theorem Deliverable.agree {s : Exchange M} {dest agentId : String}
    (h : s.Deliverable agentId) (msg : M) (now : Int)
    (hdest : targetAgent dest = some agentId) (site site' : Site) :
    site.deliver s (some dest) msg now = site'.deliver s (some dest) msg now := by
  rcases h with habsent | ⟨tx, htx, hopen⟩
  · rw [site.deliver_absent hdest habsent, site'.deliver_absent hdest habsent]
  · obtain ⟨agent, hget, hagent⟩ := Option.bind_eq_some_iff.mp htx
    rw [site.deliver_channel hdest hget hagent, site'.deliver_channel hdest hget hagent,
      send_of_open hopen]
    rfl

/-- For a destination `/net/<agent>` or below, all four sites deliver and leave
the same state exactly when the agent is not registered or registered with an
open channel. -/
theorem sites_deliver_iff (s : Exchange M) (agentId path : String) (msg : M) (now : Int)
    (hagent : '/' ∉ agentId.toList) (hpath : IsBelow path) :
    ((∀ site : Site, Delivered s
          (site.deliver s (some ("/net/" ++ agentId ++ path)) msg now) agentId msg now) ∧
        ∀ site site' : Site,
          site.deliver s (some ("/net/" ++ agentId ++ path)) msg now =
            site'.deliver s (some ("/net/" ++ agentId ++ path)) msg now) ↔
      s.Deliverable agentId := by
  have hdest := targetAgent_path hagent hpath
  constructor
  · rintro ⟨hall, _⟩
    -- the WebSocket site never falls back to the queue
    rcases (delivered_iff .handleOp hdest).mp (hall .handleOp) with h | ⟨_, h⟩ | ⟨_, _, h⟩
    · exact h
    · exact absurd h (by decide)
    · exact absurd h (by decide)
  · intro h
    exact ⟨fun site => (delivered_iff site hdest).mpr (Or.inl h),
      fun site site' => h.agree msg now hdest site site'⟩

/-- One agent, whose channel is open until its socket writer ends. -/
def oneAgent (isOpen : Bool) : Exchange String where
  agents := AgentRegistry.new.register ⟨"bob", 0, some 0⟩
  channels _ := ⟨isOpen, []⟩
  queues := .new

/-- The WebSocket site drops a message for an agent whose writer has ended. -/
theorem closed_channel_drops :
    ¬ ∀ (s : Exchange String) (agentId path : String) (msg : String) (now : Int),
        '/' ∉ agentId.toList → IsBelow path →
        (∀ site : Site, Delivered s
            (site.deliver s (some ("/net/" ++ agentId ++ path)) msg now) agentId msg now) ∧
          ∀ site site' : Site,
            site.deliver s (some ("/net/" ++ agentId ++ path)) msg now =
              site'.deliver s (some ("/net/" ++ agentId ++ path)) msg now := by
  intro h
  obtain ⟨hall, _⟩ := h (oneAgent false) "bob" "" "hello" 0 (by decide) (Or.inl rfl)
  have hdest : targetAgent ("/net/" ++ "bob" ++ "") = some "bob" :=
    targetAgent_path (by decide) (Or.inl rfl)
  have hget : (oneAgent false).agents.get "bob" = some ⟨"bob", 0, some 0⟩ := rfl
  have hdropped : Site.handleOp.deliver (oneAgent false) (some ("/net/" ++ "bob" ++ ""))
      "hello" 0 = oneAgent false := by
    rw [Site.deliver_channel .handleOp hdest hget rfl]
    rfl
  exact (hall .handleOp).ne_self hdropped

/-- While its channel is open, the agent receives from every site alike. -/
theorem sites_deliver_iff_open :
    (∀ site : Site, Delivered (oneAgent true)
        (site.deliver (oneAgent true) (some ("/net/" ++ "bob" ++ "/inbox")) "hello" 0)
        "bob" "hello" 0) ∧
      ∀ site site' : Site,
        site.deliver (oneAgent true) (some ("/net/" ++ "bob" ++ "/inbox")) "hello" 0 =
          site'.deliver (oneAgent true) (some ("/net/" ++ "bob" ++ "/inbox")) "hello" 0 :=
  (sites_deliver_iff (oneAgent true) "bob" "/inbox" "hello" 0 (by decide)
    (Or.inr ⟨"inbox".toList, rfl⟩)).mpr (Or.inr ⟨0, rfl, rfl⟩)

end Exchange

end Xfiles.Net
