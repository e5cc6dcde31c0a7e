import Xfiles.Router.Admission

/-!
# Destinations that occur more than once

Several rules may name one destination, and the circuit stage checks each
occurrence.  A check may use up a half-open slot, so the occurrences of one
destination can get different answers.  The stage then keeps the destination as
a candidate and rejects it as well, and the later stages drop it.

* `answers` is the sequence of answers that the occurrences of one destination
  get.  `mem_checks` reads it off the checks of the stage.
* `SameAnswers` is the condition on one destination, in terms of its circuit
  before the call, of its number of occurrences and of the clock.
  `mixed_iff` says that it fails exactly when both answers occur.
* `keepsAdmitted_iff_sameAnswers` says that the pipeline keeps what the circuit
  stage admits exactly when the condition holds of every destination.
  `admitted_twice_discarded` is a call in which it does not.
-/

namespace Xfiles.Router

open Xfiles.Circuit Xfiles.Quantum RoutingPipeline

/-! ## The answers for one destination -/

/-- The answers of `allow` on one entry at successive times. -/
def answers (limits : Limits) (entry : EndpointCircuit) : List Nat → List Bool
  | [] => []
  | now :: rest =>
    (limits.allowEntry now entry).1 :: answers limits (limits.allowEntry now entry).2 rest

/-- The clock readings at the occurrences of `d`, from check `i` on. -/
def timesOf (clock : Nat → Nat) (i : Nat) (d : String) : List String → List Nat
  | [] => []
  | e :: rest =>
    if e = d then clock i :: timesOf clock (i + 1) d rest else timesOf clock (i + 1) d rest

theorem length_timesOf (clock : Nat → Nat) (i : Nat) (d : String) (destinations : List String) :
    (timesOf clock i d destinations).length = destinations.count d := by
  induction destinations generalizing i with
  | nil => rfl
  | cons e rest ih =>
    by_cases h : e = d
    · subst h
      simp [timesOf, ih]
    · simp [timesOf, ih, h]

theorem mem_timesOf {clock : Nat → Nat} {i : Nat} {d : String} {destinations : List String}
    {t : Nat} :
    t ∈ timesOf clock i d destinations ↔ ∃ j, destinations[j]? = some d ∧ clock (i + j) = t := by
  induction destinations generalizing i with
  | nil => simp [timesOf]
  | cons e rest ih =>
    have hshift : (∃ j, (e :: rest)[j]? = some d ∧ clock (i + j) = t) ↔
        (e = d ∧ clock i = t) ∨ ∃ j, rest[j]? = some d ∧ clock (i + 1 + j) = t := by
      constructor
      · rintro ⟨j, hj, hclock⟩
        cases j with
        | zero => exact Or.inl ⟨Option.some.inj hj, hclock⟩
        | succ j => exact Or.inr ⟨j, hj, by rw [← hclock]; congr 1; omega⟩
      · rintro (⟨rfl, hclock⟩ | ⟨j, hj, hclock⟩)
        · exact ⟨0, rfl, hclock⟩
        · exact ⟨j + 1, hj, by rw [← hclock]; congr 1; omega⟩
    rw [hshift, ← ih]
    by_cases h : e = d
    · simp [timesOf, h, eq_comm]
    · simp [timesOf, h]

/-- The first reading is the one at the first occurrence. -/
theorem head?_timesOf (clock : Nat → Nat) (i : Nat) {d : String} {destinations : List String}
    (h : d ∈ destinations) :
    (timesOf clock i d destinations).head? = some (clock (i + destinations.idxOf d)) := by
  induction destinations generalizing i with
  | nil => exact absurd h List.not_mem_nil
  | cons e rest ih =>
    by_cases he : e = d
    · subst he
      simp [timesOf]
    · have hrest : d ∈ rest := by
        rcases List.mem_cons.mp h with heq | hmem
        · exact absurd heq.symm he
        · exact hmem
      rw [timesOf, if_neg he, ih (i + 1) hrest, List.idxOf_cons_ne _ he]
      congr 2
      omega

/-- A destination that occurs has a first reading. -/
theorem timesOf_eq_cons (clock : Nat → Nat) {d : String} {destinations : List String}
    (h : d ∈ destinations) :
    ∃ now rest, timesOf clock 0 d destinations = now :: rest ∧
      clock (destinations.idxOf d) = now := by
  have hhead := head?_timesOf clock 0 h
  rw [Nat.zero_add] at hhead
  cases htimes : timesOf clock 0 d destinations with
  | nil =>
    rw [htimes] at hhead
    simp at hhead
  | cons now rest =>
    rw [htimes] at hhead
    exact ⟨now, rest, rfl, (Option.some.inj hhead).symm⟩

/-- The checks on `d` have the answers of its entry, unless its endpoint is
offline. -/
theorem mem_checks {endpoints : EndpointMap} {clock : Nat → Nat} {i : Nat}
    {circuit : CircuitBreaker} {destinations : List String} {d : String} {answer : Bool} :
    (d, answer) ∈ (circuitPass endpoints clock i circuit destinations).1 ↔
      ∃ admitted ∈ answers circuit.toLimits (circuit.entry d) (timesOf clock i d destinations),
        (admitted && endpoints d ≠ some .offline) = answer := by
  induction destinations generalizing i circuit with
  | nil => simp [circuitPass, timesOf, answers]
  | cons e rest ih =>
    have hsplit : (d, answer) ∈ (circuitPass endpoints clock i circuit (e :: rest)).1 ↔
        (d, answer) = (e, (circuitCheck endpoints circuit (clock i) e).1) ∨
          (d, answer) ∈ (circuitPass endpoints clock (i + 1)
            (circuitCheck endpoints circuit (clock i) e).2 rest).1 := List.mem_cons
    rw [hsplit, ih, circuitCheck_snd, CircuitBreaker.toLimits_allow, CircuitBreaker.entry_allow]
    by_cases h : d = e
    · subst h
      rw [if_pos rfl, timesOf, if_pos rfl, answers]
      constructor
      · rintro (hhead | ⟨admitted, hmem, hanswer⟩)
        · exact ⟨_, List.mem_cons_self, (Prod.mk.inj hhead).2.symm⟩
        · exact ⟨admitted, List.mem_cons_of_mem _ hmem, hanswer⟩
      · rintro ⟨admitted, hmem, hanswer⟩
        rcases List.mem_cons.mp hmem with rfl | htail
        · exact Or.inl (Prod.ext rfl hanswer.symm)
        · exact Or.inr ⟨admitted, htail, hanswer⟩
    · rw [if_neg h, timesOf, if_neg (Ne.symm h)]
      constructor
      · rintro (hhead | htail)
        · exact absurd (Prod.mk.inj hhead).1 h
        · exact htail
      · exact Or.inr

/-! ## When both answers occur -/

section Entry

variable {limits : Limits} {entry : EndpointCircuit}

theorem answers_closed (h : entry.state = .closed) (times : List Nat) :
    false ∉ answers limits entry times := by
  induction times with
  | nil => exact List.not_mem_nil
  | cons now rest ih =>
    rw [answers, allowEntry_closed h]
    simpa using ih

/-- An open circuit without a failure time refuses for ever. -/
theorem answers_stuck (h : entry.state = .opened) (hlast : entry.lastFailure = none)
    (times : List Nat) : true ∉ answers limits entry times := by
  induction times with
  | nil => exact List.not_mem_nil
  | cons now rest ih =>
    have hrefuse : limits.allowEntry now entry = (false, entry) := by
      simp only [Limits.allowEntry, h, hlast]
    rw [answers, hrefuse]
    simpa using ih

/-- A half-open circuit admits as long as there are slots. -/
theorem true_mem_answers_halfOpen (h : entry.state = .halfOpen) (times : List Nat) :
    true ∈ answers limits entry times ↔
      times ≠ [] ∧ entry.halfOpenCalls < limits.halfOpenMaxCalls := by
  induction times with
  | nil => simp [answers]
  | cons now rest ih =>
    rw [answers, allowEntry_halfOpen h]
    split
    · rename_i hslot
      simp [hslot]
    · rename_i hfull
      simp only [List.mem_cons, Bool.true_eq_false, false_or, ih]
      simp [hfull]

/-- It refuses as soon as there are more calls than slots. -/
theorem false_mem_answers_halfOpen (h : entry.state = .halfOpen) (times : List Nat) :
    false ∈ answers limits entry times ↔
      times ≠ [] ∧
        limits.halfOpenMaxCalls.toNat < entry.halfOpenCalls.toNat + times.length := by
  induction times generalizing entry with
  | nil => simp [answers]
  | cons now rest ih =>
    rw [answers, allowEntry_halfOpen h]
    split
    · rename_i hslot
      have hlt : entry.halfOpenCalls.toNat < limits.halfOpenMaxCalls.toNat :=
        UInt32.lt_iff_toNat_lt.mp hslot
      have hbound := limits.halfOpenMaxCalls.toNat_lt
      have hcalls : (entry.halfOpenCalls + 1).toNat = entry.halfOpenCalls.toNat + 1 := by
        rw [UInt32.toNat_add]
        show (entry.halfOpenCalls.toNat + 1) % 4294967296 = _
        omega
      simp only [List.mem_cons, Bool.false_eq_true, false_or, ne_eq, reduceCtorEq,
        not_false_eq_true, true_and, List.length_cons]
      rw [@ih { entry with halfOpenCalls := entry.halfOpenCalls + 1 } h, hcalls]
      cases rest with
      | nil => simp; omega
      | cons t more => simp; omega
    · rename_i hfull
      have hle : limits.halfOpenMaxCalls.toNat ≤ entry.halfOpenCalls.toNat :=
        Nat.le_of_not_lt fun hlt => hfull (UInt32.lt_iff_toNat_lt.mpr hlt)
      simp
      omega

/-- An open circuit admits once the recovery timeout has run. -/
theorem true_mem_answers_opened {last : Nat} (h : entry.state = .opened)
    (hlast : entry.lastFailure = some last) (times : List Nat) :
    true ∈ answers limits entry times ↔ ∃ now ∈ times, limits.recoveryTimeout ≤ now - last := by
  induction times with
  | nil => simp [answers]
  | cons now rest ih =>
    rw [answers, allowEntry_opened h hlast]
    split
    · rename_i htime
      simp [htime]
    · rename_i htime
      simp only [List.mem_cons, Bool.true_eq_false, false_or, ih]
      simp [htime]

/-- It refuses before that, and when the episode that it opens runs out of
slots. -/
theorem false_mem_answers_opened {last : Nat} (h : entry.state = .opened)
    (hlast : entry.lastFailure = some last) (now : Nat) (rest : List Nat) :
    false ∈ answers limits entry (now :: rest) ↔
      now - last < limits.recoveryTimeout ∨
        rest ≠ [] ∧ limits.halfOpenMaxCalls.toNat < 1 + rest.length := by
  rw [answers, allowEntry_opened h hlast]
  split
  · rename_i htime
    simp only [List.mem_cons, Bool.false_eq_true, false_or]
    rw [false_mem_answers_halfOpen rfl]
    have hnot : ¬ now - last < limits.recoveryTimeout := by omega
    simp [hnot]
  · rename_i htime
    have hlt : now - last < limits.recoveryTimeout := by omega
    simp [hlt]

end Entry

/-- The condition on a destination: its endpoint is offline, or its circuit
gives the same answer to all of its occurrences. -/
def SameAnswers (circuit : CircuitBreaker) (endpoints : EndpointMap) (clock : Nat → Nat)
    (destinations : List String) (d : String) : Prop :=
  endpoints d = some .offline ∨
    match (circuit.entry d).state, (circuit.entry d).lastFailure with
    | .closed, _ => True
    | .halfOpen, _ =>
      -- no slot is left, or there is one for each occurrence
      circuit.halfOpenMaxCalls ≤ (circuit.entry d).halfOpenCalls ∨
        (circuit.entry d).halfOpenCalls.toNat + destinations.count d ≤
          circuit.halfOpenMaxCalls.toNat
    | .opened, none => True
    | .opened, some last =>
      -- the timeout has run at no occurrence, or at the first one, which opens
      -- an episode with a slot for each of the others
      (∀ j, destinations[j]? = some d → clock j - last < circuit.recoveryTimeout) ∨
        circuit.recoveryTimeout ≤ clock (destinations.idxOf d) - last ∧
          destinations.count d ≤ max 1 circuit.halfOpenMaxCalls.toNat

/-- An entry gives both answers exactly when the condition on its circuit
fails. -/
theorem mixed_answers_iff {circuit : CircuitBreaker} {clock : Nat → Nat}
    {destinations : List String} {d : String} (hmem : d ∈ destinations)
    {endpoints : EndpointMap} (honline : endpoints d ≠ some .offline) :
    (true ∈ answers circuit.toLimits (circuit.entry d) (timesOf clock 0 d destinations) ∧
        false ∈ answers circuit.toLimits (circuit.entry d) (timesOf clock 0 d destinations)) ↔
      ¬ SameAnswers circuit endpoints clock destinations d := by
  have hlength := length_timesOf clock 0 d destinations
  obtain ⟨now, rest, htimes, hfirst⟩ := timesOf_eq_cons clock hmem
  have hne : timesOf clock 0 d destinations ≠ [] := by
    rw [htimes]
    exact List.cons_ne_nil now rest
  unfold SameAnswers
  rw [or_iff_right honline]
  cases hstate : (circuit.entry d).state with
  | closed =>
    simp only [not_true_eq_false, iff_false]
    intro hboth
    exact answers_closed hstate _ hboth.2
  | halfOpen =>
    rw [true_mem_answers_halfOpen hstate, false_mem_answers_halfOpen hstate, hlength]
    simp only [ne_eq, hne, not_false_eq_true, true_and, UInt32.lt_iff_toNat_lt,
      UInt32.le_iff_toNat_le]
    omega
  | opened =>
    cases hlast : (circuit.entry d).lastFailure with
    | none =>
      simp only [not_true_eq_false, iff_false]
      intro hboth
      exact answers_stuck hstate hlast _ hboth.1
    | some last =>
      rw [true_mem_answers_opened hstate hlast]
      have hruns : (∃ t ∈ timesOf clock 0 d destinations, circuit.recoveryTimeout ≤ t - last) ↔
          ¬ ∀ j, destinations[j]? = some d → clock j - last < circuit.recoveryTimeout := by
        simp only [not_forall, Nat.not_lt, exists_prop]
        constructor
        · rintro ⟨t, ht, hle⟩
          obtain ⟨j, hj, rfl⟩ := mem_timesOf.mp ht
          exact ⟨j, hj, by simpa using hle⟩
        · rintro ⟨j, hj, hle⟩
          exact ⟨clock j, mem_timesOf.mpr ⟨j, hj, by rw [Nat.zero_add]⟩, hle⟩
      rw [hruns, htimes, false_mem_answers_opened hstate hlast, ← hlength, htimes, hfirst]
      have hrest : rest ≠ [] ↔ 0 < rest.length := List.length_pos_iff.symm
      rw [hrest, not_or, List.length_cons]
      refine and_congr_right fun _ => ?_
      omega

/-- A destination gets both answers exactly when the condition fails. -/
theorem mixed_iff {circuit : CircuitBreaker} {endpoints : EndpointMap} {clock : Nat → Nat}
    {destinations : List String} {d : String} (hmem : d ∈ destinations) :
    ((d, true) ∈ (circuitPass endpoints clock 0 circuit destinations).1 ∧
        (d, false) ∈ (circuitPass endpoints clock 0 circuit destinations).1) ↔
      ¬ SameAnswers circuit endpoints clock destinations d := by
  rw [mem_checks, mem_checks]
  by_cases hoffline : endpoints d = some .offline
  · simp [hoffline, SameAnswers]
  · rw [← mixed_answers_iff hmem hoffline]
    simp [hoffline]

variable {F : Type*} [Arith F]

/-- If the circuit stage admits an occurrence of some destination, then the
pipeline selects a destination that it admits, and no destination is both a
candidate and rejected after the circuit stage. -/
def KeepsAdmitted (s : RoutingState F) (circuit : CircuitBreaker) (readings : Readings F)
    (msg : Message) : Prop :=
  (∃ d, (d, true) ∈ checks s circuit readings msg) →
    (∃ d, (route (defaultPipeline s) readings msg s).1.selected = some d ∧
      (d, true) ∈ checks s circuit readings msg) ∧
    ∀ d, ¬ (d ∈ (filtered s circuit readings msg).candidates ∧
      d ∈ (filtered s circuit readings msg).rejected)

variable (readings : Readings F) (msg : Message)

/-- The pipeline keeps what is admitted exactly when no destination gets both
answers. -/
theorem keepsAdmitted_iff_unmixed {s : RoutingState F} {circuit : CircuitBreaker}
    (hc : s.circuit = some circuit) (hmcp : ∀ d, ¬ McpResolves s.mcp msg d) :
    KeepsAdmitted s circuit readings msg ↔
      ∀ d, ¬ ((d, true) ∈ checks s circuit readings msg ∧
        (d, false) ∈ checks s circuit readings msg) := by
  unfold KeepsAdmitted
  rw [candidates_filtered, rejected_filtered]
  simp only [mem_withAnswer]
  constructor
  · intro hkeeps d hboth
    exact (hkeeps ⟨d, hboth.1⟩).2 d hboth
  · rintro hunmixed ⟨d, hd⟩
    refine ⟨?_, hunmixed⟩
    have hvalid : d ∈ (filtered s circuit readings msg).validCandidates := by
      rw [mem_validCandidates, candidates_filtered, rejected_filtered, mem_withAnswer,
        mem_withAnswer]
      exact ⟨hd, fun hrejected => hunmixed d ⟨hd, hrejected⟩⟩
    have hroute : (route (defaultPipeline s) readings msg s).1.selected =
        (run readings msg (defaultPipeline s) (.new []) s).1.selected := rfl
    rw [hroute, run_default readings msg hc hmcp]
    rcases run_selection readings msg (selected_filtered s circuit readings msg) s
      { s with circuit := some (circuitStage s circuit readings msg).2.2 } rfl with
      ⟨hempty, _⟩ | ⟨d', hd', hselected⟩
    · rw [hempty] at hvalid
      exact absurd hvalid List.not_mem_nil
    · have hcandidate := (mem_validCandidates.mp hd').1
      rw [candidates_filtered, mem_withAnswer] at hcandidate
      exact ⟨d', hselected, hcandidate⟩

/-- For a message that the MCP stage does not resolve, the pipeline keeps what
the circuit stage admits exactly when each destination of the plumber gets the
same answer at all of its occurrences. -/
theorem keepsAdmitted_iff_sameAnswers {s : RoutingState F} {circuit : CircuitBreaker}
    (hc : s.circuit = some circuit) (hmcp : ∀ d, ¬ McpResolves s.mcp msg d) :
    KeepsAdmitted s circuit readings msg ↔
      ∀ d ∈ s.plumber.route msg,
        SameAnswers circuit s.endpoints readings.clock (s.plumber.route msg) d := by
  rw [keepsAdmitted_iff_unmixed readings msg hc hmcp]
  constructor
  · intro hunmixed d hmem
    by_contra hnot
    exact hunmixed d ((mixed_iff hmem).mpr hnot)
  · intro hsame d hboth
    obtain ⟨first, rest, hdest, _⟩ := mem_circuitPass.mp hboth.1
    have hmem : d ∈ s.plumber.route msg := by
      rw [hdest]
      exact List.mem_append_right _ List.mem_cons_self
    exact (mixed_iff hmem).mp hboth (hsame d hmem)

/-- A breaker after three failures of `ep-a` at time 0, which open its circuit
for 30 seconds. -/
def afterFailures (halfOpenMaxCalls : UInt32) : CircuitBreaker :=
  (((CircuitBreaker.new 3 30 halfOpenMaxCalls).recordFailure "ep-a" 0).recordFailure
    "ep-a" 0).recordFailure "ep-a" 0

/-- Two rules send everything to `ep-a`, which is healthy again. -/
def twoRules (circuit : CircuitBreaker) : RoutingState Float where
  mcp := .new
  plumber := ⟨[toEndpoint, toEndpoint]⟩
  quantum := none
  circuit := some circuit
  endpoints := fun id => if id = "ep-a" then some .healthy else none

/-- The two checks are made when the recovery timeout has just run. -/
def recoveryReadings : Readings Float :=
  { noReadings with clock := fun i => 30000000000 + i }

/-- A message of agent `alice`. -/
def aliceMessage : Message :=
  .new "alice" "/ai" "llm_request" 1 2 0

theorem alice_unresolved (circuit : CircuitBreaker) (d : String) :
    ¬ McpResolves (twoRules circuit).mcp aliceMessage d :=
  fun hresolves => absurd hresolves.1 (by decide)

/-- With one half-open slot, the first check moves `ep-a` to half-open and
admits it, the second one rejects it, and nothing is selected. -/
theorem admitted_twice_discarded :
    ¬ ∀ (s : RoutingState Float) (circuit : CircuitBreaker) (readings : Readings Float)
        (msg : Message), s.circuit = some circuit → (∀ d, ¬ McpResolves s.mcp msg d) →
          KeepsAdmitted s circuit readings msg := by
  intro h
  have hkeeps := h (twoRules (afterFailures 1)) _ recoveryReadings aliceMessage rfl
    (alice_unresolved _)
  obtain ⟨⟨d, hselected, _⟩, _⟩ := hkeeps ⟨"ep-a", List.mem_cons_self⟩
  have hnone : (none : Option String) = some d := hselected
  simp at hnone

/-- With a slot for each of the two occurrences, what is admitted is
selected. -/
theorem keepsAdmitted_iff_sameAnswers_double :
    KeepsAdmitted (twoRules (afterFailures 2)) (afterFailures 2) recoveryReadings
        aliceMessage ∧
      (∃ d, (d, true) ∈
        checks (twoRules (afterFailures 2)) (afterFailures 2) recoveryReadings aliceMessage) := by
  refine ⟨(keepsAdmitted_iff_sameAnswers recoveryReadings aliceMessage rfl
    (alice_unresolved _)).mpr ?_, "ep-a", List.mem_cons_self⟩
  intro d hmem
  obtain rfl : d = "ep-a" := by
    rcases List.mem_cons.mp hmem with h | h
    · exact h
    · exact List.mem_singleton.mp h
  -- the timeout has run at the first occurrence, and there are two slots
  refine Or.inr (Or.inr ⟨?_, ?_⟩)
  · decide
  · decide

end Xfiles.Router
