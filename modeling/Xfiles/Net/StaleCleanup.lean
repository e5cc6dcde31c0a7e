import Xfiles.Lib.Transition
import Xfiles.Net.Registry
import Xfiles.Queue.Basic

/-!
# Cleanup of stale agents

The cleanup task of the daemon tests one entry of the registry after another,
and then unregisters the ids that it found stale, one by one.  Heartbeats and
Hello registrations come in between any two of these steps.

* `Roster` is the registry with the task.  `renewed` and `removals` are
  histories that no step reads.
* `Watched` is the invariant: an id that was found stale is still stale,
  unless it was renewed since.
* `RemovesUnrenewed` is the condition on a removal: its id was not renewed
  since the test, or not within the last `stale_secs`.
* `onlyStale_iff_removesUnrenewed` says that a run removes stale entries only
  exactly when each of its removals meets that condition.
  `heartbeat_before_removal` is a run in which one does not.

The iterator visits an entry at most once, and may miss one that comes or goes
during the pass.  The model lets a pass end at any point.
-/

namespace Xfiles.Net

open Transition

/-- Where the cleanup task stands. -/
inductive CleanupStage where
  | idle
  /-- In `stale_agents`, which read the clock as `now`. -/
  | testing (now : Int) (visited stale : List String)
  | removing (stale : List String)
  deriving DecidableEq, Repr

/-- The ids that the pass has found stale and not removed. -/
def CleanupStage.collected : CleanupStage → List String
  | .idle => []
  | .testing _ _ stale => stale
  | .removing stale => stale

/-- An entry that the cleanup task took out of the registry. -/
structure Removal where
  agent : Agent
  at_ : Int
  deriving DecidableEq, Repr

/-- The closure of `filter` in `stale_agents`. -/
def Agent.isStale (agent : Agent) (now staleSecs : Int) : Bool :=
  staleSecs < Queue.numSeconds (now - agent.lastHeartbeat)

/-- The last heartbeat is more than `staleSecs` before `t`. -/
def Agent.Silent (agent : Agent) (t staleSecs : Int) : Prop :=
  staleSecs * 1000000000 < t - agent.lastHeartbeat

/-- The registry, the clock and the cleanup task. -/
structure Roster where
  staleSecs : Int
  agents : AgentRegistry
  now : Int
  stage : CleanupStage
  /-- The latest heartbeat or Hello of the id since it was found stale. -/
  renewed : String → Option Int
  removals : List Removal

inductive RosterEvent where
  | advance (elapsed : Nat)
  | heartbeat (agentId : String)
  | hello (agentId : String) (tx : ChannelId)
  | unregister (agentId : String)
  | tick
  | test (agentId : String)
  | sweep
  | remove
  | finish
  deriving DecidableEq, Repr

namespace Roster

def start (staleSecs now : Int) : Roster where
  staleSecs := staleSecs
  agents := .new
  now := now
  stage := .idle
  renewed _ := none
  removals := []

def setRenewed (s : Roster) (agentId : String) (time : Option Int) : Roster :=
  { s with renewed := Function.update s.renewed agentId time }

/-- `agents.heartbeat`, which finds nothing to renew for an unknown id. -/
def heartbeat (s : Roster) (agentId : String) : Roster :=
  { s with agents := s.agents.heartbeat agentId s.now }.setRenewed agentId
    ((s.agents.get agentId).map fun _ => s.now)

def hello (s : Roster) (agentId : String) (tx : ChannelId) : Roster :=
  { s with agents := s.agents.register ⟨agentId, s.now, some tx⟩ }.setRenewed agentId
    (some s.now)

/-- `agents.unregister` of a teardown or of the API. -/
def unregister (s : Roster) (agentId : String) : Roster :=
  { s with agents := s.agents.unregister agentId }.setRenewed agentId none

/-- The test of one entry. -/
def test (s : Roster) (agent : Agent) (now : Int) (visited stale : List String) : Roster :=
  if agent.isStale now s.staleSecs then
    { s with stage := .testing now (agent.id :: visited) (stale ++ [agent.id]) }.setRenewed
      agent.id none
  else
    { s with stage := .testing now (agent.id :: visited) stale }

/-- `agents_cleanup.unregister` of one collected id. -/
def remove (s : Roster) (agentId : String) (rest : List String) : Roster :=
  { s.unregister agentId with
    stage := .removing rest
    removals := s.removals ++ ((s.agents.get agentId).map fun agent => ⟨agent, s.now⟩).toList }

def step (s : Roster) : RosterEvent → Option Roster
  | .advance elapsed => some { s with now := s.now + elapsed }
  | .heartbeat agentId => some (s.heartbeat agentId)
  | .hello agentId tx => some (s.hello agentId tx)
  | .unregister agentId => some (s.unregister agentId)
  | .tick =>
    match s.stage with
    | .idle => some { s with stage := .testing s.now [] [] }
    | _ => none
  | .test agentId =>
    match s.stage, s.agents.get agentId with
    | .testing now visited stale, some agent =>
      if agentId ∈ visited then none else some (s.test agent now visited stale)
    | _, _ => none
  | .sweep =>
    match s.stage with
    | .testing _ _ stale => some { s with stage := .removing stale }
    | _ => none
  | .remove =>
    match s.stage with
    | .removing (agentId :: rest) => some (s.remove agentId rest)
    | _ => none
  | .finish =>
    match s.stage with
    | .removing [] => some { s with stage := .idle }
    | _ => none

/-! ## What each step does -/

theorem step_tick {s t : Roster} (h : s.step .tick = some t) :
    s.stage = .idle ∧ t = { s with stage := .testing s.now [] [] } := by
  simp only [step] at h
  split at h
  · rename_i hstage
    exact ⟨hstage, (Option.some.inj h).symm⟩
  · simp at h

theorem step_test {s t : Roster} {agentId : String} (h : s.step (.test agentId) = some t) :
    ∃ now visited stale agent, s.stage = .testing now visited stale ∧
      s.agents.get agentId = some agent ∧ agent.id = agentId ∧
      t = s.test agent now visited stale := by
  simp only [step] at h
  split at h
  · rename_i now visited stale agent hstage hget
    split at h
    · simp at h
    · exact ⟨now, visited, stale, agent, hstage, hget, s.agents.keyed agentId agent hget,
        (Option.some.inj h).symm⟩
  · simp at h

theorem step_sweep {s t : Roster} (h : s.step .sweep = some t) :
    ∃ now visited stale, s.stage = .testing now visited stale ∧
      t = { s with stage := .removing stale } := by
  simp only [step] at h
  split at h
  · rename_i now visited stale hstage
    exact ⟨now, visited, stale, hstage, (Option.some.inj h).symm⟩
  · simp at h

theorem step_remove {s t : Roster} (h : s.step .remove = some t) :
    ∃ agentId rest, s.stage = .removing (agentId :: rest) ∧ t = s.remove agentId rest := by
  simp only [step] at h
  split at h
  · rename_i agentId rest hstage
    exact ⟨agentId, rest, hstage, (Option.some.inj h).symm⟩
  · simp at h

theorem step_finish {s t : Roster} (h : s.step .finish = some t) :
    s.stage = .removing [] ∧ t = { s with stage := .idle } := by
  simp only [step] at h
  split at h
  · rename_i hstage
    exact ⟨hstage, (Option.some.inj h).symm⟩
  · simp at h

/-! ## What was found stale stays stale -/

/-- The test implies silence at any later time. -/
theorem silent_of_isStale {agent : Agent} {now t staleSecs : Int}
    (h : agent.isStale now staleSecs = true) (hle : now ≤ t) : agent.Silent t staleSecs := by
  have hsecs : staleSecs < Queue.numSeconds (now - agent.lastHeartbeat) := by
    simpa [Agent.isStale] using h
  unfold Queue.numSeconds at hsecs
  unfold Agent.Silent
  rw [Int.tdiv_eq_ediv] at hsecs
  have hsign : Int.sign 1000000000 = 1 := rfl
  split at hsecs <;> omega

/-- The histories agree with the registry, and an id that was found stale is
still silent unless it was renewed since. -/
structure Watched (s : Roster) : Prop where
  renewed : ∀ id time, s.renewed id = some time →
    ∃ agent, s.agents.get id = some agent ∧ agent.lastHeartbeat = time
  tested : ∀ id ∈ s.stage.collected, s.renewed id = none →
    ∀ agent, s.agents.get id = some agent → agent.Silent s.now s.staleSecs
  clock : ∀ now visited stale, s.stage = .testing now visited stale → now ≤ s.now

/-- Every entry that the cleanup task removed was silent at its removal. -/
def OnlyStale (s : Roster) : Prop :=
  ∀ removal ∈ s.removals, removal.agent.Silent removal.at_ s.staleSecs

/-- The condition on a step: the id of a removal was not renewed since it was
found stale, or not within the last `stale_secs`. -/
def RemovesUnrenewed (s : Roster) : RosterEvent → Prop
  | .remove =>
    ∀ id rest, s.stage = .removing (id :: rest) →
      ∀ time, s.renewed id = some time → s.staleSecs * 1000000000 < s.now - time
  | _ => True

/-- A step that touches the entry and the history of one id only. -/
theorem Watched.of_id {s t : Roster} (h : s.Watched) (id : String)
    (hnow : t.now = s.now) (hsecs : t.staleSecs = s.staleSecs)
    (hcollected : ∀ other, other ≠ id → other ∈ t.stage.collected → other ∈ s.stage.collected)
    (hothers : ∀ other, other ≠ id →
      t.agents.get other = s.agents.get other ∧ t.renewed other = s.renewed other)
    (hrenewed : ∀ time, t.renewed id = some time →
      ∃ agent, t.agents.get id = some agent ∧ agent.lastHeartbeat = time)
    (htested : id ∈ t.stage.collected → t.renewed id = none →
      ∀ agent, t.agents.get id = some agent → agent.Silent t.now t.staleSecs)
    (hclock : ∀ now visited stale, t.stage = .testing now visited stale → now ≤ t.now) :
    t.Watched where
  renewed := by
    intro other time hother
    by_cases hid : other = id
    · subst hid
      exact hrenewed time hother
    · obtain ⟨hget, hren⟩ := hothers other hid
      rw [hget]
      rw [hren] at hother
      exact h.renewed other time hother
  tested := by
    intro other hmem hnone agent hagent
    by_cases hid : other = id
    · subst hid
      exact htested hmem hnone agent hagent
    · obtain ⟨hget, hren⟩ := hothers other hid
      rw [hget] at hagent
      rw [hren] at hnone
      rw [hnow, hsecs]
      exact h.tested other (hcollected other hid hmem) hnone agent hagent
  clock := hclock

theorem Watched.heartbeat {s : Roster} (h : s.Watched) (agentId : String) :
    (s.heartbeat agentId).Watched := by
  refine h.of_id agentId rfl rfl (fun _ _ hmem => hmem) (fun other hother => ⟨?_, ?_⟩) ?_ ?_ h.clock
  · exact AgentRegistry.get_heartbeat_of_ne s.agents s.now hother
  · simp [Roster.heartbeat, setRenewed, hother]
  · intro time htime
    simp only [Roster.heartbeat, setRenewed, Function.update_self,
      AgentRegistry.get_heartbeat_self] at htime ⊢
    cases hget : s.agents.get agentId with
    | none => simp [hget] at htime
    | some agent =>
      obtain rfl : s.now = time := by simpa [hget] using htime
      exact ⟨{ agent with lastHeartbeat := s.now }, rfl, rfl⟩
  · -- a registered agent is renewed by the heartbeat
    intro _ hnone agent hagent
    simp only [Roster.heartbeat, setRenewed, Function.update_self,
      AgentRegistry.get_heartbeat_self, Option.map_eq_none_iff] at hnone hagent
    rw [hnone] at hagent
    simp at hagent

theorem Watched.hello {s : Roster} (h : s.Watched) (agentId : String) (tx : ChannelId) :
    (s.hello agentId tx).Watched := by
  have hself : (s.hello agentId tx).agents.get agentId = some ⟨agentId, s.now, some tx⟩ :=
    AgentRegistry.get_register_self s.agents ⟨agentId, s.now, some tx⟩
  refine h.of_id agentId rfl rfl (fun _ _ hmem => hmem) (fun other hother => ⟨?_, ?_⟩) ?_ ?_ h.clock
  · exact AgentRegistry.get_register_of_ne s.agents ⟨agentId, s.now, some tx⟩ hother
  · simp [Roster.hello, setRenewed, hother]
  · intro time htime
    obtain rfl : s.now = time := by simpa [Roster.hello, setRenewed] using htime
    exact ⟨_, hself, rfl⟩
  · intro _ hnone
    simp [Roster.hello, setRenewed] at hnone

/-- Taking an entry out, with any stage that collects no more. -/
theorem Watched.unregister {s t : Roster} (h : s.Watched) (agentId : String)
    (hagents : t.agents = s.agents.unregister agentId) (hnow : t.now = s.now)
    (hsecs : t.staleSecs = s.staleSecs)
    (hrenewed : t.renewed = Function.update s.renewed agentId none)
    (hcollected : ∀ other ∈ t.stage.collected, other ∈ s.stage.collected)
    (hclock : ∀ now visited stale, t.stage = .testing now visited stale → now ≤ t.now) :
    t.Watched := by
  refine h.of_id agentId hnow hsecs (fun other _ => hcollected other)
    (fun other hother => ⟨?_, ?_⟩) ?_ ?_ hclock
  · rw [hagents]
    exact AgentRegistry.get_unregister_of_ne s.agents hother
  · rw [hrenewed, Function.update_of_ne hother]
  · intro time htime
    simp [hrenewed] at htime
  · intro _ _ agent hagent
    simp [hagents] at hagent

theorem Watched.test {s : Roster} (h : s.Watched) {agent : Agent} {now : Int}
    {visited stale : List String} (hstage : s.stage = .testing now visited stale)
    (hget : s.agents.get agent.id = some agent) : (s.test agent now visited stale).Watched := by
  have hle := h.clock now visited stale hstage
  have hmem : ∀ other ∈ stale, other ∈ s.stage.collected := by
    intro other hother
    rw [hstage]
    exact hother
  unfold Roster.test
  split
  · rename_i hstale
    refine h.of_id agent.id rfl rfl (fun other hother hcollected => ?_)
      (fun other hother => ⟨rfl, ?_⟩) ?_ ?_ ?_
    · have hor : other ∈ stale ∨ other = agent.id := by
        simpa [setRenewed, CleanupStage.collected] using hcollected
      exact hmem other (hor.resolve_right hother)
    · simp [setRenewed, hother]
    · intro time htime
      simp [setRenewed] at htime
    · intro _ _ found hfound
      obtain rfl : agent = found := Option.some.inj (hget.symm.trans hfound)
      exact silent_of_isStale hstale hle
    · intro now' visited' stale' heq
      simp only [setRenewed, CleanupStage.testing.injEq] at heq
      rw [← heq.1]
      exact hle
  · refine { renewed := h.renewed, tested := ?_, clock := ?_ }
    · intro other hother
      exact h.tested other (hmem other hother)
    · intro now' visited' stale' heq
      simp only [CleanupStage.testing.injEq] at heq
      rw [← heq.1]
      exact hle

theorem Watched.step {s t : Roster} {event : RosterEvent} (h : s.Watched)
    (hstep : s.step event = some t) : t.Watched := by
  cases event with
  | advance elapsed =>
    obtain rfl := Option.some.inj hstep
    refine { renewed := h.renewed, tested := ?_, clock := ?_ }
    · intro id hmem hnone agent hget
      have hsilent := h.tested id hmem hnone agent hget
      unfold Agent.Silent at *
      simp only
      omega
    · intro now visited stale hstage
      have hle := h.clock now visited stale hstage
      simp only
      omega
  | heartbeat agentId =>
    obtain rfl := Option.some.inj hstep
    exact h.heartbeat agentId
  | hello agentId tx =>
    obtain rfl := Option.some.inj hstep
    exact h.hello agentId tx
  | unregister agentId =>
    obtain rfl := Option.some.inj hstep
    exact h.unregister agentId rfl rfl rfl rfl (fun _ hmem => hmem) h.clock
  | tick =>
    obtain ⟨_, rfl⟩ := step_tick hstep
    refine { renewed := h.renewed, tested := ?_, clock := ?_ }
    · intro id hmem
      exact absurd hmem List.not_mem_nil
    · intro now visited stale heq
      simp only [CleanupStage.testing.injEq] at heq
      show now ≤ s.now
      omega
  | test agentId =>
    obtain ⟨now, visited, stale, agent, hstage, hget, rfl, rfl⟩ := step_test hstep
    exact h.test hstage hget
  | sweep =>
    obtain ⟨now, visited, stale, hstage, rfl⟩ := step_sweep hstep
    refine { renewed := h.renewed, tested := ?_, clock := by simp }
    intro id hmem
    apply h.tested id
    rw [hstage]
    exact hmem
  | remove =>
    obtain ⟨agentId, rest, hstage, rfl⟩ := step_remove hstep
    refine h.unregister agentId rfl rfl rfl rfl (fun other hmem => ?_) (by simp [Roster.remove])
    rw [hstage]
    exact List.mem_cons_of_mem _ hmem
  | finish =>
    obtain ⟨_, rfl⟩ := step_finish hstep
    refine { renewed := h.renewed, tested := ?_, clock := by simp }
    intro id hmem
    exact absurd hmem List.not_mem_nil

theorem watched_start (staleSecs now : Int) : (start staleSecs now).Watched where
  renewed := by
    intro id time htime
    simp [start] at htime
  tested := by
    intro id hmem
    exact absurd hmem List.not_mem_nil
  clock := by simp [start]

/-! ## What the task removes -/

/-- Only a removal adds to the removals, and it adds the entry of its id. -/
theorem removals_step {s t : Roster} {event : RosterEvent} (hstep : s.step event = some t) :
    t.staleSecs = s.staleSecs ∧
      (t.removals = s.removals ∨
        ∃ id rest, event = .remove ∧ s.stage = .removing (id :: rest) ∧
          t.removals =
            s.removals ++ ((s.agents.get id).map fun agent => ⟨agent, s.now⟩).toList) := by
  cases event with
  | advance elapsed =>
    obtain rfl := Option.some.inj hstep
    exact ⟨rfl, Or.inl rfl⟩
  | heartbeat agentId =>
    obtain rfl := Option.some.inj hstep
    exact ⟨rfl, Or.inl rfl⟩
  | hello agentId tx =>
    obtain rfl := Option.some.inj hstep
    exact ⟨rfl, Or.inl rfl⟩
  | unregister agentId =>
    obtain rfl := Option.some.inj hstep
    exact ⟨rfl, Or.inl rfl⟩
  | tick =>
    obtain ⟨_, rfl⟩ := step_tick hstep
    exact ⟨rfl, Or.inl rfl⟩
  | test agentId =>
    obtain ⟨now, visited, stale, agent, _, _, _, rfl⟩ := step_test hstep
    unfold Roster.test
    split
    · exact ⟨rfl, Or.inl rfl⟩
    · exact ⟨rfl, Or.inl rfl⟩
  | sweep =>
    obtain ⟨now, visited, stale, _, rfl⟩ := step_sweep hstep
    exact ⟨rfl, Or.inl rfl⟩
  | remove =>
    obtain ⟨agentId, rest, hstage, rfl⟩ := step_remove hstep
    exact ⟨rfl, Or.inr ⟨agentId, rest, rfl, hstage, rfl⟩⟩
  | finish =>
    obtain ⟨_, rfl⟩ := step_finish hstep
    exact ⟨rfl, Or.inl rfl⟩

theorem OnlyStale.step {s t : Roster} {event : RosterEvent} (h : s.OnlyStale)
    (hwatched : s.Watched) (hok : s.RemovesUnrenewed event) (hstep : s.step event = some t) :
    t.OnlyStale := by
  obtain ⟨hsecs, hremovals⟩ := removals_step hstep
  intro removal hmem
  rw [hsecs]
  rcases hremovals with hsame | ⟨id, rest, rfl, hstage, hnew⟩
  · rw [hsame] at hmem
    exact h removal hmem
  · rw [hnew, List.mem_append] at hmem
    rcases hmem with hold | hlast
    · exact h removal hold
    · cases hget : s.agents.get id with
      | none => simp [hget] at hlast
      | some agent =>
        obtain rfl : removal = ⟨agent, s.now⟩ := by simpa [hget] using hlast
        cases hrenewed : s.renewed id with
        | none =>
          refine hwatched.tested id ?_ hrenewed agent hget
          rw [hstage]
          exact List.mem_cons_self
        | some time =>
          obtain ⟨found, hfound, rfl⟩ := hwatched.renewed id time hrenewed
          obtain rfl : agent = found := Option.some.inj (hget.symm.trans hfound)
          exact hok id rest hstage _ hrenewed

/-- A removal outside the condition takes a live entry. -/
theorem not_onlyStale_of_step {s t : Roster} {event : RosterEvent} (hwatched : s.Watched)
    (hbad : ¬ s.RemovesUnrenewed event) (hstep : s.step event = some t) : ¬ t.OnlyStale := by
  intro h
  apply hbad
  cases event with
  | remove =>
    intro id rest hstage time hrenewed
    obtain ⟨agent, hget, rfl⟩ := hwatched.renewed id time hrenewed
    obtain ⟨id', rest', hstage', rfl⟩ := step_remove hstep
    rw [hstage] at hstage'
    obtain ⟨rfl, rfl⟩ : id = id' ∧ rest = rest' := by simpa using hstage'
    apply h ⟨agent, s.now⟩
    simp [Roster.remove, hget]
  | _ => trivial

/-- The cleanup task removes silent entries only, all along a run, exactly
when each id that it removes was not renewed since it was found stale, or not
within the last `stale_secs`. -/
theorem onlyStale_iff_removesUnrenewed (staleSecs now : Int) (events : List RosterEvent)
    (s : Roster) (hrun : run step (start staleSecs now) events = some s) :
    Always step OnlyStale (start staleSecs now) events ↔
      Guarded step RemovesUnrenewed (start staleSecs now) events := by
  have hstart : (start staleSecs now).Watched ∧ (start staleSecs now).OnlyStale := by
    refine ⟨watched_start staleSecs now, ?_⟩
    intro removal hmem
    exact absurd hmem List.not_mem_nil
  refine always_iff_guarded (I := fun u => u.Watched ∧ u.OnlyStale) ?_ (fun u h => h.2) ?_
    hstart hrun
  · intro u event v h hok hstep
    exact ⟨h.1.step hstep, h.2.step h.1 hok hstep⟩
  · intro u event v h hbad hstep
    exact not_onlyStale_of_step h.1 hbad hstep

/-- `bob` is silent for 121 seconds and is found stale.  His heartbeat comes in
before the task removes him. -/
def lateHeartbeatRun : List RosterEvent :=
  [.hello "bob" 0, .advance 121000000000, .tick, .test "bob", .sweep, .heartbeat "bob", .remove]

/-- The task removes `bob` at the very time of his heartbeat. -/
theorem heartbeat_before_removal :
    ¬ ∀ (staleSecs now : Int) (events : List RosterEvent) (s : Roster),
        run step (start staleSecs now) events = some s → s.OnlyStale := by
  intro h
  have hreached : run step (start 120 0) lateHeartbeatRun =
      some ((run step (start 120 0) lateHeartbeatRun).getD (start 120 0)) := rfl
  have hsilent := h 120 0 lateHeartbeatRun _ hreached ⟨⟨"bob", 121000000000, some 0⟩, 121000000000⟩
    (by decide)
  exact absurd hsilent (by unfold Agent.Silent; decide)

/-- The same without the heartbeat. -/
def silentRun : List RosterEvent :=
  [.hello "bob" 0, .advance 121000000000, .tick, .test "bob", .sweep, .remove, .finish]

theorem silentRun_removesUnrenewed : Guarded step RemovesUnrenewed (start 120 0) silentRun := by
  refine (guarded_cons rfl).mpr ⟨trivial, (guarded_cons rfl).mpr ⟨trivial, ?_⟩⟩
  refine (guarded_cons rfl).mpr ⟨trivial, (guarded_cons rfl).mpr ⟨trivial, ?_⟩⟩
  refine (guarded_cons rfl).mpr ⟨trivial, (guarded_cons rfl).mpr ⟨?_, ?_⟩⟩
  · intro id rest hstage time hrenewed
    have hid : some "bob" = some id := congrArg (fun stage => stage.collected.head?) hstage
    obtain rfl : "bob" = id := Option.some.inj hid
    have hnone : (none : Option Int) = some time := hrenewed
    simp at hnone
  · exact (guarded_cons rfl).mpr ⟨trivial, trivial⟩

/-- Then only a silent entry is removed. -/
theorem onlyStale_iff_removesUnrenewed_silent : Always step OnlyStale (start 120 0) silentRun :=
  (onlyStale_iff_removesUnrenewed 120 0 silentRun
    ((run step (start 120 0) silentRun).getD (start 120 0)) rfl).mpr silentRun_removesUnrenewed

end Roster

end Xfiles.Net
