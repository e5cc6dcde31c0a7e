import Xfiles.Lib.Transition
import Xfiles.Quantum.Router

/-!
# Saving the quantum state

`observe` spawns a task that saves a clone of the endpoint state, and the
tasks run in any order.  `Store::save_quantum_state` is an unconditional
upsert.

* `Persistence` is the router with the table of the store.  `spawned` holds
  every save in the order of the observations, `pending` the ones that have
  not run, and `replaced` what each save found and what it wrote.
* `Recorded` is the invariant: the pulls of one key go up along `spawned`.
* `Covered` says that no save is lost: the table or a pending save is as late
  as it.
* `Saves.InOrder` is the condition on a save: no later observation of its key
  has been saved before.
* `settled_iff_inOrder` says that rows never go backwards, and are up to date
  whenever no save is pending, exactly when all saves meet that condition.
  `older_save_last` is a run in which one does not.

An observation is one step: the update, the clone and the spawn.  The store may
hold rows of an earlier process.
-/

namespace Xfiles.Quantum

open Transition

variable {F : Type*}

/-- The primary key of `quantum_state`. -/
def SaveTask.key (task : SaveTask F) : Uuid × String :=
  (task.conversationId, task.endpointId)

/-- A row of `quantum_state`.  `origin` is the number of the observation that
it was saved for, or `none` for a row of an earlier process. -/
structure Row (F : Type*) where
  origin : Option Nat
  state : EndpointState F

structure Persistence (F : Type*) where
  quantum : QuantumRouter F
  rows : Uuid × String → Option (Row F)
  spawned : List (SaveTask F)
  pending : List Nat
  replaced : List (EndpointState F × EndpointState F)

inductive PersistenceEvent where
  | observe (conversationId : Uuid) (endpointId : String) (success : Bool) (latencyMs : Nat)
      (now : Int)
  | save (number : Nat)
  deriving DecidableEq, Repr

namespace Persistence

def start (config : QuantumConfig F) (stored : Uuid × String → Option (EndpointState F)) :
    Persistence F where
  quantum := .new config
  rows key := (stored key).map fun state => ⟨none, state⟩
  spawned := []
  pending := []
  replaced := []

/-- `save_quantum_state` of a spawned task. -/
def save (s : Persistence F) (number : Nat) (task : SaveTask F) : Persistence F :=
  { s with
    rows := Function.update s.rows task.key (some ⟨some number, task.state⟩)
    pending := s.pending.erase number
    replaced := s.replaced ++ ((s.rows task.key).map fun row => (row.state, task.state)).toList }

/-- No save has replaced a row by one with fewer pulls. -/
def NoneBackwards (s : Persistence F) : Prop :=
  ∀ change ∈ s.replaced, change.1.pulls ≤ change.2.pulls

/-- The last observation of its key. -/
def IsLatest (s : Persistence F) (number : Nat) (task : SaveTask F) : Prop :=
  s.spawned[number]? = some task ∧
    ∀ later other, number < later → s.spawned[later]? = some other → other.key ≠ task.key

/-- Every row is that of the last observation of its key. -/
def UpToDate (s : Persistence F) : Prop :=
  ∀ number task, s.IsLatest number task → (s.rows task.key).map (·.state) = some task.state

/-- Rows never go backwards, and once all saves have run they are up to
date. -/
def Settled (s : Persistence F) : Prop :=
  s.NoneBackwards ∧ (s.pending = [] → s.UpToDate)

/-- The condition on a save: the row that it replaces is not that of a later
observation, and a row of an earlier process has no more pulls. -/
def InOrder (s : Persistence F) : PersistenceEvent → Prop
  | .observe _ _ _ _ _ => True
  | .save number =>
    ∀ task, s.spawned[number]? = some task → ∀ row, s.rows task.key = some row →
      match row.origin with
      | some other => other ≤ number
      | none => row.state.pulls ≤ task.state.pulls

/-- Every observation is covered by one of its key, as late as it, that is in
the table or on its way. -/
def Covered (s : Persistence F) : Prop :=
  ∀ number task, s.spawned[number]? = some task →
    ∃ later other, number ≤ later ∧ s.spawned[later]? = some other ∧ other.key = task.key ∧
      (later ∈ s.pending ∨ s.rows task.key = some ⟨some later, other.state⟩)

/-- A save in order covers what the row that it replaces covered. -/
theorem Covered.save {s : Persistence F} (h : s.Covered) {number : Nat} {task : SaveTask F}
    (hok : s.InOrder (.save number)) (htask : s.spawned[number]? = some task) :
    (s.save number task).Covered := by
  intro earlier saved hsaved
  obtain ⟨later, other, hle, hother, hkey, hwhere⟩ := h earlier saved hsaved
  by_cases hsame : saved.key = task.key
  · rcases hwhere with hpending | hrow
    · by_cases hnumber : later = number
      · subst hnumber
        obtain rfl : other = task := Option.some.inj (hother.symm.trans htask)
        refine ⟨later, other, hle, hother, hkey, Or.inr ?_⟩
        simp [Persistence.save, hkey]
      · refine ⟨later, other, hle, hother, hkey, Or.inl ?_⟩
        exact (List.mem_erase_of_ne hnumber).mpr hpending
    · -- the row goes, and the save that replaces it is no earlier
      have horder : later ≤ number := hok task htask _ (hsame ▸ hrow)
      refine ⟨number, task, by omega, htask, hsame.symm, Or.inr ?_⟩
      simp [Persistence.save, hsame]
  · refine ⟨later, other, hle, hother, hkey, ?_⟩
    have hnumber : later ≠ number := by
      rintro rfl
      obtain rfl : other = task := Option.some.inj (hother.symm.trans htask)
      exact hsame hkey.symm
    rcases hwhere with hpending | hrow
    · exact Or.inl ((List.mem_erase_of_ne hnumber).mpr hpending)
    · refine Or.inr ?_
      simpa [Persistence.save, hsame] using hrow

/-- With no save pending, a latest observation can only be covered by itself. -/
theorem Covered.upToDate {s : Persistence F} (h : s.Covered) (hpending : s.pending = []) :
    s.UpToDate := by
  intro number task hlatest
  obtain ⟨hnumber, hnone⟩ := hlatest
  obtain ⟨later, other, hle, hother, hkey, hwhere⟩ := h number task hnumber
  have heq : later = number := by
    by_contra hne
    exact hnone later other (by omega) hother hkey
  subst heq
  obtain rfl : other = task := Option.some.inj (hother.symm.trans hnumber)
  rcases hwhere with hmem | hrow
  · rw [hpending] at hmem
    exact absurd hmem List.not_mem_nil
  · rw [hrow]
    rfl

variable [Arith F]

def observe (s : Persistence F) (conversationId : Uuid) (endpointId : String) (success : Bool)
    (latencyMs : Nat) (now : Int) : Persistence F :=
  let observed := s.quantum.observe conversationId endpointId success latencyMs now
  { s with
    quantum := observed.1
    spawned := s.spawned ++ observed.2.toList
    pending := s.pending ++ (observed.2.map fun _ => s.spawned.length).toList }

def step (s : Persistence F) : PersistenceEvent → Option (Persistence F)
  | .observe conversationId endpointId success latencyMs now =>
    some (s.observe conversationId endpointId success latencyMs now)
  | .save number =>
    match s.spawned[number]? with
    | some task => if number ∈ s.pending then some (s.save number task) else none
    | none => none

theorem step_save {s t : Persistence F} {number : Nat} (h : s.step (.save number) = some t) :
    ∃ task, s.spawned[number]? = some task ∧ number ∈ s.pending ∧ t = s.save number task := by
  simp only [step] at h
  split at h
  · rename_i task htask
    split at h
    · rename_i hmem
      exact ⟨task, htask, hmem, (Option.some.inj h).symm⟩
    · simp at h
  · simp at h

/-- An observation spawns one save, of the state that it leaves in memory. -/
theorem observe_eq (s : Persistence F) (conversationId : Uuid) (endpointId : String)
    (success : Bool) (latencyMs : Nat) (now : Int) :
    ∃ task, task.key = (conversationId, endpointId) ∧
      task.state.pulls = (s.quantum.state.stateOf conversationId endpointId).pulls + 1 ∧
      s.observe conversationId endpointId success latencyMs now =
        { s with
          quantum := (s.quantum.observe conversationId endpointId success latencyMs now).1
          spawned := s.spawned ++ [task]
          pending := s.pending ++ [s.spawned.length] } := by
  let after := (s.quantum.observe conversationId endpointId success latencyMs now).1
  refine ⟨⟨conversationId, endpointId, after.state.stateOf conversationId endpointId⟩, rfl, ?_, ?_⟩
  · show (after.state.stateOf conversationId endpointId).pulls = _
    rw [QuantumRouter.pulls_observe, if_pos ⟨rfl, rfl⟩]
  · simp only [observe, QuantumRouter.task_observe, Option.toList_some, Option.map_some]
    rfl

/-! ## The pulls of one key go up -/

/-- The pulls of one key go up with each observation, up to what the router
has, and a row holds what its observation saved. -/
structure Recorded (s : Persistence F) : Prop where
  increasing : s.spawned.Pairwise fun earlier later =>
    earlier.key = later.key → earlier.state.pulls < later.state.pulls
  bounded : ∀ task ∈ s.spawned,
    task.state.pulls ≤ (s.quantum.state.stateOf task.key.1 task.key.2).pulls
  rows : ∀ key row number, s.rows key = some row → row.origin = some number →
    ∃ task, s.spawned[number]? = some task ∧ task.key = key ∧ task.state = row.state

theorem recorded_start (config : QuantumConfig F)
    (stored : Uuid × String → Option (EndpointState F)) : (start config stored).Recorded where
  increasing := List.Pairwise.nil
  bounded := by
    intro task htask
    exact absurd htask List.not_mem_nil
  rows := by
    intro key row number hrow horigin
    obtain ⟨state, _, rfl⟩ := Option.map_eq_some_iff.mp hrow
    simp at horigin

/-- Of two observations of one key, the later one has more pulls. -/
theorem Recorded.pulls_lt {s : Persistence F} (h : s.Recorded) {m n : Nat}
    {earlier later : SaveTask F} (hlt : m < n) (hm : s.spawned[m]? = some earlier)
    (hn : s.spawned[n]? = some later) (hkey : earlier.key = later.key) :
    earlier.state.pulls < later.state.pulls := by
  obtain ⟨hmlen, rfl⟩ := List.getElem?_eq_some_iff.mp hm
  obtain ⟨hnlen, rfl⟩ := List.getElem?_eq_some_iff.mp hn
  exact List.pairwise_iff_getElem.mp h.increasing m n hmlen hnlen hlt hkey

theorem Recorded.observe {s : Persistence F} (h : s.Recorded) (conversationId : Uuid)
    (endpointId : String) (success : Bool) (latencyMs : Nat) (now : Int) :
    (s.observe conversationId endpointId success latencyMs now).Recorded := by
  obtain ⟨task, hkey, hpulls, heq⟩ := s.observe_eq conversationId endpointId success latencyMs now
  have hcid : task.key.1 = conversationId := by rw [hkey]
  have hep : task.key.2 = endpointId := by rw [hkey]
  rw [heq]
  refine { increasing := ?_, bounded := ?_, rows := ?_ }
  · apply List.pairwise_append.mpr
    refine ⟨h.increasing, List.pairwise_singleton _ task, ?_⟩
    intro earlier hmem other hother hsame
    obtain rfl := List.mem_singleton.mp hother
    have hle := h.bounded earlier hmem
    rw [hsame, hcid, hep] at hle
    omega
  · intro other hmem
    show _ ≤ ((s.quantum.observe conversationId endpointId success latencyMs
      now).1.state.stateOf other.key.1 other.key.2).pulls
    rw [QuantumRouter.pulls_observe]
    rcases List.mem_append.mp hmem with hold | hnew
    · have hle := h.bounded other hold
      split
      · omega
      · exact hle
    · obtain rfl := List.mem_singleton.mp hnew
      rw [if_pos ⟨hcid, hep⟩, hcid, hep, hpulls]
  · intro key row number hrow horigin
    obtain ⟨saved, hsaved, hrest⟩ := h.rows key row number hrow horigin
    refine ⟨saved, ?_, hrest⟩
    show (s.spawned ++ [task])[number]? = some saved
    rw [List.getElem?_append_left (List.getElem?_eq_some_iff.mp hsaved).1]
    exact hsaved

theorem Recorded.save {s : Persistence F} (h : s.Recorded) {number : Nat} {task : SaveTask F}
    (htask : s.spawned[number]? = some task) : (s.save number task).Recorded where
  increasing := h.increasing
  bounded := h.bounded
  rows := by
    intro key row origin hrow horigin
    by_cases hkey : key = task.key
    · subst hkey
      obtain rfl : ⟨some number, task.state⟩ = row := by simpa [Persistence.save] using hrow
      obtain rfl : number = origin := Option.some.inj horigin
      exact ⟨task, htask, rfl, rfl⟩
    · have hold : s.rows key = some row := by simpa [Persistence.save, hkey] using hrow
      exact h.rows key row origin hold horigin

/-! ## No observation is lost -/

theorem Covered.observe {s : Persistence F} (h : s.Covered) (conversationId : Uuid)
    (endpointId : String) (success : Bool) (latencyMs : Nat) (now : Int) :
    (s.observe conversationId endpointId success latencyMs now).Covered := by
  obtain ⟨task, _, _, heq⟩ := s.observe_eq conversationId endpointId success latencyMs now
  rw [heq]
  intro number saved hsaved
  have hsaved : (s.spawned ++ [task])[number]? = some saved := hsaved
  have hlen : number < (s.spawned ++ [task]).length := (List.getElem?_eq_some_iff.mp hsaved).1
  rw [List.length_append, List.length_singleton] at hlen
  by_cases hlast : number = s.spawned.length
  · refine ⟨number, saved, Nat.le_refl _, hsaved, rfl, Or.inl ?_⟩
    subst hlast
    exact List.mem_append_right _ List.mem_cons_self
  · rw [List.getElem?_append_left (by omega)] at hsaved
    obtain ⟨later, other, hle, hother, hkey, hwhere⟩ := h number saved hsaved
    refine ⟨later, other, hle, ?_, hkey, hwhere.imp_left (List.mem_append_left _)⟩
    show (s.spawned ++ [task])[later]? = some other
    rw [List.getElem?_append_left (List.getElem?_eq_some_iff.mp hother).1]
    exact hother

/-! ## Runs -/

/-- What every save in order keeps. -/
structure Kept (s : Persistence F) : Prop where
  recorded : s.Recorded
  covered : s.Covered
  noneBackwards : s.NoneBackwards

theorem Kept.step {s t : Persistence F} {event : PersistenceEvent} (h : s.Kept)
    (hok : s.InOrder event) (hstep : s.step event = some t) : t.Kept := by
  cases event with
  | observe conversationId endpointId success latencyMs now =>
    obtain rfl := Option.some.inj hstep
    exact
      { recorded := h.recorded.observe conversationId endpointId success latencyMs now
        covered := h.covered.observe conversationId endpointId success latencyMs now
        noneBackwards := h.noneBackwards }
  | save number =>
    obtain ⟨task, htask, _, rfl⟩ := step_save hstep
    refine { recorded := h.recorded.save htask, covered := h.covered.save hok htask,
             noneBackwards := ?_ }
    intro change hchange
    rcases List.mem_append.mp hchange with hold | hnew
    · exact h.noneBackwards change hold
    · obtain ⟨row, hrow, rfl⟩ := Option.map_eq_some_iff.mp (Option.mem_toList.mp hnew)
      have horder := hok task htask row hrow
      cases horigin : row.origin with
      | none =>
        rw [horigin] at horder
        exact horder
      | some other =>
        rw [horigin] at horder
        obtain ⟨saved, hsaved, hkey, hstate⟩ := h.recorded.rows task.key row other hrow horigin
        show row.state.pulls ≤ task.state.pulls
        rw [← hstate]
        rcases Nat.lt_or_eq_of_le horder with hlt | rfl
        · exact Nat.le_of_lt (h.recorded.pulls_lt hlt hsaved htask hkey)
        · obtain rfl : saved = task := Option.some.inj (hsaved.symm.trans htask)
          exact Nat.le_refl _

/-- A save out of order takes pulls away from its row. -/
theorem not_settled_of_step {s t : Persistence F} {event : PersistenceEvent} (h : s.Kept)
    (hbad : ¬ s.InOrder event) (hstep : s.step event = some t) : ¬ t.Settled := by
  intro hsettled
  apply hbad
  cases event with
  | observe conversationId endpointId success latencyMs now => trivial
  | save number =>
    obtain ⟨task, htask, _, rfl⟩ := step_save hstep
    intro task' htask' row hrow
    obtain rfl : task = task' := Option.some.inj (htask.symm.trans htask')
    have hpulls : row.state.pulls ≤ task.state.pulls := by
      apply hsettled.1 (row.state, task.state)
      apply List.mem_append_right
      rw [hrow]
      exact List.mem_singleton_self _
    cases horigin : row.origin with
    | none => exact hpulls
    | some other =>
      obtain ⟨saved, hsaved, hkey, hstate⟩ := h.recorded.rows task.key row other hrow horigin
      show other ≤ number
      by_contra hgt
      have hlt := h.recorded.pulls_lt (by omega) htask hsaved hkey.symm
      rw [hstate] at hlt
      omega

theorem kept_start (config : QuantumConfig F)
    (stored : Uuid × String → Option (EndpointState F)) : (start config stored).Kept where
  recorded := recorded_start config stored
  covered := by
    intro number task htask
    simp [start] at htask
  noneBackwards := by
    intro change hchange
    exact absurd hchange List.not_mem_nil

/-- All along a run, rows never go backwards and are up to date whenever no
save is pending, exactly when no save finds the row of a later observation of
its key, or one of an earlier process with more pulls. -/
theorem settled_iff_inOrder (config : QuantumConfig F)
    (stored : Uuid × String → Option (EndpointState F)) (events : List PersistenceEvent)
    (s : Persistence F) (hrun : run step (start config stored) events = some s) :
    Always step Settled (start config stored) events ↔
      Guarded step InOrder (start config stored) events :=
  always_iff_guarded (I := Kept) (fun _ _ _ h hok hstep => h.step hok hstep)
    (fun _ h => ⟨h.noneBackwards, h.covered.upToDate⟩)
    (fun _ _ _ h hbad hstep => not_settled_of_step h hbad hstep) (kept_start config stored) hrun

theorem step_save_of_mem {s : Persistence F} {number : Nat} {task : SaveTask F}
    (htask : s.spawned[number]? = some task) (hmem : number ∈ s.pending) :
    s.step (.save number) = some (s.save number task) := by
  simp only [step, htask, if_pos hmem]

/-- Two observations of `ep-a` in one conversation, and then the saves in the
order given. -/
def twiceObserved (saves : List PersistenceEvent) : List PersistenceEvent :=
  .observe 1 "ep-a" true 20 0 :: .observe 1 "ep-a" true 20 1 :: saves

/-- The two observations leave two saves of one key pending. -/
theorem run_twiceObserved (config : QuantumConfig F) :
    ∃ (s : Persistence F) (first second : SaveTask F),
      s.spawned = [first, second] ∧ s.pending = [0, 1] ∧ s.rows = (fun _ => none) ∧
        first.key = second.key ∧ s.Kept ∧ ∀ saves,
          run step (start config fun _ => none) (twiceObserved saves) = run step s saves ∧
          (Guarded step InOrder s saves →
            Guarded step InOrder (start config fun _ => none) (twiceObserved saves)) := by
  let s₀ : Persistence F := start config fun _ => none
  let s₁ := s₀.observe 1 "ep-a" true 20 0
  obtain ⟨first, hfirst, _, heq⟩ := s₀.observe_eq 1 "ep-a" true 20 0
  have hspawned : s₁.spawned = [first] := congrArg (·.spawned) heq
  have hpending : s₁.pending = [0] := congrArg (·.pending) heq
  have hrows : s₁.rows = fun _ => none := congrArg (·.rows) heq
  obtain ⟨second, hsecond, _, heq'⟩ := s₁.observe_eq 1 "ep-a" true 20 1
  have hok : s₀.InOrder (.observe 1 "ep-a" true 20 0) := trivial
  have hok' : s₁.InOrder (.observe 1 "ep-a" true 20 1) := trivial
  have hkept : s₁.Kept := (kept_start config _).step hok rfl
  have hkept' : (s₁.observe 1 "ep-a" true 20 1).Kept := hkept.step hok' rfl
  have hstep : s₀.step (.observe 1 "ep-a" true 20 0) = some s₁ := rfl
  have hstep' : s₁.step (.observe 1 "ep-a" true 20 1) =
      some (s₁.observe 1 "ep-a" true 20 1) := rfl
  refine ⟨s₁.observe 1 "ep-a" true 20 1, first, second, ?_, ?_, ?_, hfirst.trans hsecond.symm,
    hkept', fun saves => ⟨?_, ?_⟩⟩
  · rw [heq']
    show s₁.spawned ++ [second] = _
    rw [hspawned]
    rfl
  · rw [heq']
    show s₁.pending ++ [s₁.spawned.length] = _
    rw [hspawned, hpending]
    rfl
  · rw [heq']
    exact hrows
  · rw [twiceObserved, run_cons, hstep, Option.bind_some, run_cons, hstep', Option.bind_some]
  · intro hsaves
    exact (guarded_cons hstep).mpr ⟨hok, (guarded_cons hstep').mpr ⟨hok', hsaves⟩⟩

/-- The save of the first observation runs last, and the row ends up with the
state of that observation. -/
theorem older_save_last :
    ¬ ∀ (config : QuantumConfig Float) (stored : Uuid × String → Option (EndpointState Float))
        (events : List PersistenceEvent) (s : Persistence Float),
        run step (start config stored) events = some s → s.Settled := by
  intro h
  let config : QuantumConfig Float := ⟨0.1, 0.1⟩
  obtain ⟨s, first, second, hspawned, hpending, hrows, hkey, hkept, hrun⟩ :=
    run_twiceObserved config
  have hfirst : s.spawned[0]? = some first := by rw [hspawned]; rfl
  have hsecond : s.spawned[1]? = some second := by rw [hspawned]; rfl
  have hstep : s.step (.save 1) = some (s.save 1 second) :=
    step_save_of_mem hsecond (by rw [hpending]; decide)
  have hstep' : (s.save 1 second).step (.save 0) = some ((s.save 1 second).save 0 first) :=
    step_save_of_mem hfirst (by show 0 ∈ s.pending.erase 1; rw [hpending]; decide)
  have hkept' : (s.save 1 second).Kept := by
    refine hkept.step ?_ hstep
    intro task _ row hrow
    simp [hrows] at hrow
  -- the save of the first observation finds the row of the second
  have hbad : ¬ (s.save 1 second).InOrder (.save 0) := by
    intro hok
    have hle : 1 ≤ 0 :=
      hok first hfirst ⟨some 1, second.state⟩ (by simp [Persistence.save, hkey])
    omega
  apply not_settled_of_step hkept' hbad hstep'
  apply h config (fun _ => none) (twiceObserved [.save 1, .save 0])
  rw [(hrun _).1, run_cons, hstep, Option.bind_some, run_cons, hstep']
  rfl

/-- With the saves in the order of the observations, the row is settled all
along. -/
theorem settled_iff_inOrder_twice :
    Always step Settled (start (F := Float) ⟨0.1, 0.1⟩ fun _ => none)
      (twiceObserved [.save 0, .save 1]) := by
  obtain ⟨s, first, second, hspawned, hpending, hrows, hkey, hkept, hrun⟩ :=
    run_twiceObserved (F := Float) ⟨0.1, 0.1⟩
  have hfirst : s.spawned[0]? = some first := by rw [hspawned]; rfl
  have hsecond : s.spawned[1]? = some second := by rw [hspawned]; rfl
  have hstep : s.step (.save 0) = some (s.save 0 first) :=
    step_save_of_mem hfirst (by rw [hpending]; decide)
  have hstep' : (s.save 0 first).step (.save 1) = some ((s.save 0 first).save 1 second) :=
    step_save_of_mem hsecond (by show 1 ∈ s.pending.erase 0; rw [hpending]; decide)
  refine (settled_iff_inOrder ⟨0.1, 0.1⟩ (fun _ => none) (twiceObserved [.save 0, .save 1])
    ((s.save 0 first).save 1 second) ?_).mpr ((hrun _).2 ?_)
  · rw [(hrun _).1, run_cons, hstep, Option.bind_some, run_cons, hstep']
    rfl
  · refine (guarded_cons hstep).mpr ⟨?_, (guarded_cons hstep').mpr ⟨?_, trivial⟩⟩
    · intro task _ row hrow
      simp [hrows] at hrow
    · intro task htask row hrow
      obtain rfl : second = task := Option.some.inj (hsecond.symm.trans htask)
      obtain rfl : ⟨some 0, first.state⟩ = row := by
        simpa [Persistence.save, hkey] using hrow
      show 0 ≤ 1
      omega

end Persistence

end Xfiles.Quantum
