import Mathlib.Logic.Function.Basic

/-!
# Agents and their channels

`AgentRegistry` of `agent.rs`, and the unbounded channels that lead to the
sockets of the agents.

* A registry keeps every agent under its own id.  This is a field of
  `AgentRegistry`, so no proof has to carry it along.
* A channel is open while its receiver exists.  A send into a closed channel
  fails and leaves it as it was.
-/

namespace Xfiles.Net

/-- The channel of a connection.  Clones of a sender share the id, so
`same_channel` is equality of ids. -/
abbrev ChannelId := Nat

/-- A connected agent.  `lastHeartbeat` is in nanoseconds since the epoch. -/
structure Agent where
  id : String
  lastHeartbeat : Int
  tx : Option ChannelId
  deriving DecidableEq, Repr

/-- The map from agent ids to agents. -/
structure AgentRegistry where
  agents : String → Option Agent
  keyed : ∀ agentId agent, agents agentId = some agent → agent.id = agentId

namespace AgentRegistry

def new : AgentRegistry where
  agents _ := none
  keyed := by simp

def get (registry : AgentRegistry) (agentId : String) : Option Agent :=
  registry.agents agentId

def register (registry : AgentRegistry) (agent : Agent) : AgentRegistry where
  agents := Function.update registry.agents agent.id (some agent)
  keyed := by
    intro agentId agent' h
    by_cases hid : agentId = agent.id
    · rw [hid, Function.update_self] at h
      rw [hid, Option.some.inj h]
    · rw [Function.update_of_ne hid] at h
      exact registry.keyed agentId agent' h

def unregister (registry : AgentRegistry) (agentId : String) : AgentRegistry where
  agents := Function.update registry.agents agentId none
  keyed := by
    intro other agent h
    by_cases hid : other = agentId
    · rw [hid, Function.update_self] at h
      simp at h
    · rw [Function.update_of_ne hid] at h
      exact registry.keyed other agent h

/-- The time of the last heartbeat moves, if the agent is registered. -/
def heartbeat (registry : AgentRegistry) (agentId : String) (now : Int) : AgentRegistry where
  agents := Function.update registry.agents agentId
    ((registry.agents agentId).map fun agent => { agent with lastHeartbeat := now })
  keyed := by
    intro other agent h
    by_cases hid : other = agentId
    · rw [hid, Function.update_self, Option.map_eq_some_iff] at h
      obtain ⟨old, hold, rfl⟩ := h
      rw [hid]
      exact registry.keyed agentId old hold
    · rw [Function.update_of_ne hid] at h
      exact registry.keyed other agent h

@[simp] theorem get_new (agentId : String) : new.get agentId = none := rfl

@[simp] theorem get_register_self (registry : AgentRegistry) (agent : Agent) :
    (registry.register agent).get agent.id = some agent := by
  simp [get, register]

theorem get_register_of_ne (registry : AgentRegistry) (agent : Agent) {agentId : String}
    (h : agentId ≠ agent.id) :
    (registry.register agent).get agentId = registry.get agentId := by
  simp [get, register, h]

@[simp] theorem get_unregister_self (registry : AgentRegistry) (agentId : String) :
    (registry.unregister agentId).get agentId = none := by
  simp [get, unregister]

theorem get_unregister_of_ne (registry : AgentRegistry) {agentId other : String}
    (h : other ≠ agentId) : (registry.unregister agentId).get other = registry.get other := by
  simp [get, unregister, h]

@[simp] theorem get_heartbeat_self (registry : AgentRegistry) (agentId : String) (now : Int) :
    (registry.heartbeat agentId now).get agentId =
      (registry.get agentId).map fun agent => { agent with lastHeartbeat := now } := by
  simp [get, heartbeat]

theorem get_heartbeat_of_ne (registry : AgentRegistry) {agentId other : String} (now : Int)
    (h : other ≠ agentId) : (registry.heartbeat agentId now).get other = registry.get other := by
  simp [get, heartbeat, h]

/-- The channel that a lookup of the agent leads to. -/
def txOf (registry : AgentRegistry) (agentId : String) : Option ChannelId :=
  (registry.get agentId).bind (·.tx)

@[simp] theorem txOf_new (agentId : String) : new.txOf agentId = none := rfl

@[simp] theorem txOf_register_self (registry : AgentRegistry) (agent : Agent) :
    (registry.register agent).txOf agent.id = agent.tx := by
  simp [txOf]

theorem txOf_register_of_ne (registry : AgentRegistry) (agent : Agent) {agentId : String}
    (h : agentId ≠ agent.id) :
    (registry.register agent).txOf agentId = registry.txOf agentId := by
  rw [txOf, get_register_of_ne registry agent h, txOf]

@[simp] theorem txOf_unregister_self (registry : AgentRegistry) (agentId : String) :
    (registry.unregister agentId).txOf agentId = none := by
  simp [txOf]

theorem txOf_unregister_of_ne (registry : AgentRegistry) {agentId other : String}
    (h : other ≠ agentId) :
    (registry.unregister agentId).txOf other = registry.txOf other := by
  rw [txOf, get_unregister_of_ne registry h, txOf]

/-- A heartbeat leads nowhere else. -/
@[simp] theorem txOf_heartbeat (registry : AgentRegistry) (agentId : String) (now : Int)
    (a : String) : (registry.heartbeat agentId now).txOf a = registry.txOf a := by
  by_cases ha : a = agentId
  · subst ha
    rw [txOf, txOf, get_heartbeat_self]
    cases registry.get a with
    | none => rfl
    | some agent => rfl
  · rw [txOf, txOf, get_heartbeat_of_ne registry now ha]

/-- It registers nobody. -/
theorem get_heartbeat_none {registry : AgentRegistry} {a : String} (h : registry.get a = none)
    (agentId : String) (now : Int) : (registry.heartbeat agentId now).get a = none := by
  by_cases ha : a = agentId
  · subst ha
    rw [get_heartbeat_self, h, Option.map_none]
  · rw [get_heartbeat_of_ne registry now ha, h]

end AgentRegistry

/-- An unbounded channel: whether its receiver still exists, and what was
sent and is not yet taken out. -/
structure Channel (M : Type*) where
  isOpen : Bool
  buffer : List M
  deriving DecidableEq, Repr

namespace Channel

variable {M : Type*}

/-- `tx.send`, or `none` for a send error. -/
def send (channel : Channel M) (msg : M) : Option (Channel M) :=
  if channel.isOpen then some { channel with buffer := channel.buffer ++ [msg] } else none

@[simp] theorem send_open {channel : Channel M} (h : channel.isOpen = true) (msg : M) :
    channel.send msg = some { channel with buffer := channel.buffer ++ [msg] } := by
  simp [send, h]

@[simp] theorem send_closed {channel : Channel M} (h : channel.isOpen = false) (msg : M) :
    channel.send msg = none := by
  simp [send, h]

end Channel

end Xfiles.Net
