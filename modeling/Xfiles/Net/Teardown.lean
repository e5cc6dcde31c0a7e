import Xfiles.Net.Transport

/-!
# Teardown of superseded connections

The teardown of a connection looks its agent up, compares channels, and
unregisters in a step of its own.  A Hello of a later connection may come in
between.

* `LastHello` says that the registry leads to the connection whose Hello
  registered last, if it leads to any.  It holds in every run.
* `SuccessorKept` says that the registry leads to that connection as long as
  its receive loop runs.  `SparesSuccessor` is the condition on an unregister:
  it finds its own channel, nothing, or a connection that has left.
* `successorKept_iff_sparesSuccessor` says that a run keeps the successor
  registered exactly when each of its unregisters meets the condition.
  `teardown_unregisters_successor` is a run in which a Hello comes between the
  test and the removal.
-/

namespace Xfiles.Net

open Xfiles.Queue Transition

namespace Transport

variable {M : Type*}

/-- The registry leads to the connection whose Hello registered last, or to
none. -/
def LastHello (s : Transport M) : Prop :=
  ∀ a c, s.agents.txOf a = some c → s.journal.lastHello a = some c

/-- The receive loop of the connection `c` of the agent is running. -/
def Serves (s : Transport M) (a : String) (c : ChannelId) : Prop :=
  ∃ phase, s.connections c = some ⟨a, phase⟩ ∧ phase.isServing = true

/-- While the connection whose Hello registered last is open, the registry
leads to it. -/
def SuccessorKept (s : Transport M) : Prop :=
  ∀ a c, s.journal.lastHello a = some c → s.Serves a c → s.agents.txOf a = some c

/-- The connection whose Hello registered last exists. -/
def HelloKnown (s : Transport M) : Prop :=
  ∀ a c, s.journal.lastHello a = some c → ∃ phase, s.connections c = some ⟨a, phase⟩

/-- The condition on a step: an unregister finds no other connection that is
still open. -/
def SparesSuccessor (s : Transport M) : Event M → Prop
  | .unregister c =>
    ∀ agentId, s.connections c = some ⟨agentId, .matched⟩ →
      ∀ other, s.agents.txOf agentId = some other → other = c ∨ ¬ s.Serves agentId other
  | _ => True

theorem LastHello.step {s t : Transport M} {event : Event M} (h : s.LastHello)
    (hstep : s.step event = some t) : t.LastHello := by
  intro a other htx
  rcases registry_step hstep with ⟨hagents, _, hlast⟩ | ⟨c, agentId, _, _, rfl⟩ |
    ⟨c, agentId, _, _, rfl⟩
  · rw [hagents] at htx
    rw [hlast]
    exact h a other htx
  · by_cases ha : a = agentId
    · subst ha
      rw [hello_txOf_self] at htx
      simpa [hello] using htx
    · rw [hello_txOf_of_ne s c ha] at htx
      simpa [hello, ha] using h a other htx
  · by_cases ha : a = agentId
    · subst ha
      simp at htx
    · rw [unregister_txOf_of_ne s c ha] at htx
      exact h a other htx

theorem HelloKnown.step {s t : Transport M} {event : Event M} (h : s.HelloKnown)
    (hstep : s.step event = some t) : t.HelloKnown := by
  intro a other hlast
  have hkept : ∀ phase, s.connections other = some ⟨a, phase⟩ →
      ∃ phase', t.connections other = some ⟨a, phase'⟩ := by
    intro phase hconn
    obtain ⟨phase', hconn', _⟩ := connections_step hstep hconn
    exact ⟨phase', hconn'⟩
  rcases registry_step hstep with ⟨_, _, hsame⟩ | ⟨c, agentId, _, hconn, rfl⟩ |
    ⟨c, agentId, _, _, rfl⟩
  · rw [hsame] at hlast
    obtain ⟨phase, hphase⟩ := h a other hlast
    exact hkept phase hphase
  · by_cases ha : a = agentId
    · subst ha
      have hother : c = other := by simpa [hello] using hlast
      rw [← hother] at hkept ⊢
      exact hkept .serving hconn
    · have hold : s.journal.lastHello a = some other := by simpa [hello, ha] using hlast
      obtain ⟨phase, hphase⟩ := h a other hold
      exact hkept phase hphase
  · obtain ⟨phase, hphase⟩ := h a other hlast
    exact hkept phase hphase

/-- No step starts the receive loop of a known connection. -/
theorem Serves.of_step {s t : Transport M} {event : Event M} (hstep : s.step event = some t)
    {a : String} {c : ChannelId} (hknown : ∃ phase, s.connections c = some ⟨a, phase⟩)
    (h : t.Serves a c) : s.Serves a c := by
  obtain ⟨phase, hphase⟩ := hknown
  obtain ⟨phase', hphase', hserving⟩ := connections_step hstep hphase
  obtain ⟨phase'', hphase'', hserves⟩ := h
  rw [hphase'] at hphase''
  simp only [Option.some.injEq, Connection.mk.injEq, true_and] at hphase''
  subst hphase''
  exact ⟨phase, hphase, hserving hserves⟩

theorem SuccessorKept.step {s t : Transport M} {event : Event M} (h : s.SuccessorKept)
    (hknown : s.HelloKnown) (hok : s.SparesSuccessor event) (hstep : s.step event = some t) :
    t.SuccessorKept := by
  intro a other hlast hserves
  rcases registry_step hstep with ⟨hagents, _, hsame⟩ | ⟨c, agentId, _, _, rfl⟩ |
    ⟨c, agentId, rfl, hconn, rfl⟩
  · rw [hsame] at hlast
    rw [hagents]
    exact h a other hlast (hserves.of_step hstep (hknown a other hlast))
  · by_cases ha : a = agentId
    · subst ha
      have hother : c = other := by simpa [hello] using hlast
      rw [hello_txOf_self, hother]
    · have hold : s.journal.lastHello a = some other := by simpa [hello, ha] using hlast
      rw [hello_txOf_of_ne s c ha]
      exact h a other hold (hserves.of_step hstep (hknown a other hold))
  · have hserved : s.Serves a other := hserves.of_step hstep (hknown a other hlast)
    have htx : s.agents.txOf a = some other := h a other hlast hserved
    by_cases ha : a = agentId
    · -- the condition leaves the connection that unregisters, and it has left its loop
      subst ha
      rcases hok a hconn other htx with rfl | hgone
      · obtain ⟨phase, hphase, hserving⟩ := hserved
        rw [hconn] at hphase
        simp only [Option.some.injEq, Connection.mk.injEq, true_and] at hphase
        subst hphase
        simp [Phase.isServing] at hserving
      · exact absurd hserved hgone
    · rw [unregister_txOf_of_ne s c ha]
      exact htx

/-- An unregister outside the condition drops the successor. -/
theorem not_successorKept_of_step {s t : Transport M} {event : Event M} (hlast : s.LastHello)
    (hbad : ¬ s.SparesSuccessor event) (hstep : s.step event = some t) :
    ¬ t.SuccessorKept := by
  intro h
  apply hbad
  cases event with
  | unregister c =>
    intro agentId hconn other htx
    obtain ⟨agentId', hconn', rfl⟩ := step_unregister hstep
    have hid : agentId' = agentId := by
      rw [hconn] at hconn'
      simp only [Option.some.injEq, Connection.mk.injEq, and_true] at hconn'
      exact hconn'.symm
    subst hid
    by_contra hother
    push Not at hother
    obtain ⟨hne, phase, hphase, hserving⟩ := hother
    have hserves : ({ s with agents := s.agents.unregister agentId' }.setPhase c agentId'
        .gone).Serves agentId' other := ⟨phase, by simp [hne, hphase], hserving⟩
    have hkept := h agentId' other (hlast agentId' other htx) hserves
    simp at hkept
  | _ => trivial

/-- The invariants of the registry together. -/
structure HelloInvariant (s : Transport M) : Prop where
  lastHello : s.LastHello
  known : s.HelloKnown
  kept : s.SuccessorKept

theorem HelloInvariant.step {s t : Transport M} {event : Event M} (h : s.HelloInvariant)
    (hok : s.SparesSuccessor event) (hstep : s.step event = some t) : t.HelloInvariant where
  lastHello := h.lastHello.step hstep
  known := h.known.step hstep
  kept := h.kept.step h.known hok hstep

theorem helloInvariant_start (now : Int) : (start now : Transport M).HelloInvariant where
  lastHello := by
    intro a c htx
    simp [start] at htx
  known := by
    intro a c hlast
    simp [start] at hlast
  kept := by
    intro a c hlast
    simp [start] at hlast

/-- No teardown of a connection of the agent is in progress. -/
def NoTeardown (s : Transport M) (a : String) : Prop :=
  ∀ c, s.connections c ≠ some ⟨a, .leaving⟩ ∧ s.connections c ≠ some ⟨a, .matched⟩

/-- A run keeps the connection whose Hello registered last in the registry, as
long as it is open, exactly when each unregister of a teardown spares a
successor that is still open.  This covers the states in which no teardown is
in progress. -/
theorem successorKept_iff_sparesSuccessor (now : Int) (events : List (Event M))
    (s : Transport M) (hrun : run step (start now) events = some s) :
    (Always step SuccessorKept (start now : Transport M) events ↔
        Guarded step SparesSuccessor (start now) events) ∧
      (Guarded step SparesSuccessor (start now : Transport M) events →
        ∀ a c, s.journal.lastHello a = some c → s.Serves a c → s.agents.txOf a = some c) := by
  have hkeep : ∀ (u : Transport M) event v, u.HelloInvariant → u.SparesSuccessor event →
      u.step event = some v → v.HelloInvariant := by
    intro u event v h hok hstep
    exact h.step hok hstep
  constructor
  · refine always_iff_guarded hkeep (fun _ h => h.kept) ?_ (helloInvariant_start now) hrun
    intro u event v h hbad hstep
    exact not_successorKept_of_step h.lastHello hbad hstep
  · intro hok a c hlast hserves
    have hinv := invariant_of_guarded hkeep (helloInvariant_start now) hok hrun
    exact hinv.kept a c hlast hserves

/-- The first connection of `bob` ends and passes the `same_channel` test.
The second one registers, and the first one unregisters it. -/
def supersedeRun : List (Event String) :=
  [.connect 0 "bob", .hello 0, .drain 0 0, .leave 0, .teardown 0,
   .connect 1 "bob", .hello 1, .drain 1 0, .unregister 0]

/-- The state that `supersedeRun` reaches. -/
def supersedeState : Transport String := (run step (start 0) supersedeRun).getD (start 0)

theorem supersedeRun_reaches : run step (start 0) supersedeRun = some supersedeState := rfl

theorem supersedeState_noTeardown : supersedeState.NoTeardown "bob" := by
  intro c
  by_cases h1 : c = 1
  · subst h1
    decide
  · by_cases h0 : c = 0
    · subst h0
      decide
    · have hnone : supersedeState.connections c = (start 0 : Transport String).connections c := by
        refine connections_run ?_ supersedeRun_reaches
        simp [supersedeRun, Event.connection, Ne.symm h0, Ne.symm h1]
      simp [hnone, start]

/-- No teardown is in progress and the second connection is open, but `bob` is
not registered. -/
theorem teardown_unregisters_successor :
    ¬ ∀ (now : Int) (events : List (Event String)) (s : Transport String),
        run step (start now) events = some s →
        ∀ a c, s.NoTeardown a → s.journal.lastHello a = some c → s.Serves a c →
          s.agents.txOf a = some c := by
  intro h
  have hkept := h 0 supersedeRun supersedeState supersedeRun_reaches "bob" 1
    supersedeState_noTeardown rfl ⟨.serving, rfl, rfl⟩
  exact absurd hkept (by decide)

/-- The first connection is torn down before the second one registers. -/
def reconnectRun : List (Event String) :=
  [.connect 0 "bob", .hello 0, .drain 0 0, .leave 0, .teardown 0, .unregister 0,
   .connect 1 "bob", .hello 1, .drain 1 0]

theorem reconnectRun_sparesSuccessor :
    Guarded step SparesSuccessor (start 0) reconnectRun := by
  refine (guarded_cons rfl).mpr ⟨trivial, (guarded_cons rfl).mpr ⟨trivial, ?_⟩⟩
  refine (guarded_cons rfl).mpr ⟨trivial, (guarded_cons rfl).mpr ⟨trivial, ?_⟩⟩
  refine (guarded_cons rfl).mpr ⟨trivial, (guarded_cons rfl).mpr ⟨?_, ?_⟩⟩
  · intro agentId hconn other htx
    have hid : some (Connection.mk "bob" .matched) = some ⟨agentId, .matched⟩ := hconn
    obtain rfl : "bob" = agentId := by simpa using hid
    have hother : some 0 = some other := htx
    exact Or.inl (Option.some.inj hother).symm
  refine (guarded_cons rfl).mpr ⟨trivial, (guarded_cons rfl).mpr ⟨trivial, ?_⟩⟩
  exact (guarded_cons rfl).mpr ⟨trivial, trivial⟩

/-- In that order `bob` stays registered. -/
theorem successorKept_iff_sparesSuccessor_reconnect :
    Always step SuccessorKept (start 0 : Transport String) reconnectRun :=
  (successorKept_iff_sparesSuccessor 0 reconnectRun
    ((run step (start 0) reconnectRun).getD (start 0)) rfl).1.mpr reconnectRun_sparesSuccessor

end Transport

end Xfiles.Net
