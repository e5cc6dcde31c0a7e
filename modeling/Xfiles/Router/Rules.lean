import Mathlib.Data.Int.Order.Basic
import Mathlib.Data.List.Induction
import Xfiles.Lib.StableOrder
import Xfiles.Router.Stages

/-!
# The rules of the plumber

The model of `add_rule` and `load_from_config` in `plumber.rs`, and what
`route` answers after any sequence of additions.

* `addRule` compiles the pattern, pushes the rule and sorts the rules again.
  The compiler of patterns is a parameter: a pattern gives a predicate on the
  haystack, or an error.
* `ordered_addAll` is the invariant: the rules are the ones added so far, by
  descending priority, and in the order of addition where priorities are equal.
* `route_addAll` reads the answers of `route` off it.
-/

namespace Xfiles.Router

/-- A rule of the configuration, as `add_rule` takes it. -/
structure RuleConfig where
  name : String
  pattern : String
  destination : String
  priority : Int
  headerMatch : Option Headers

namespace Plumber

/-- `Plumber::new`. -/
def new : Plumber where
  rules := []

variable (compile : String → Option (String → Bool))

/-- The rule with its compiled pattern. -/
def compiled (r : RuleConfig) : Option PlumberRule :=
  (compile r.pattern).map fun re =>
    { name := r.name
      pattern := re
      destination := r.destination
      priority := r.priority
      headerMatch := r.headerMatch }

/-- `Plumber::add_rule`: whether it succeeds, and the plumber after it. -/
def addRule (plumber : Plumber) (r : RuleConfig) : Bool × Plumber :=
  match compiled compile r with
  | some rule =>
    -- sort by priority descending
    (true, { rules := StableOrder.sort (·.priority) (plumber.rules ++ [rule]) })
  | none => (false, plumber)

/-- `Plumber::load_from_config`, which stops at the first rule that fails. -/
def loadFromConfig (plumber : Plumber) : List RuleConfig → Bool × Plumber
  | [] => (true, plumber)
  | r :: rest =>
    let step := addRule compile plumber r
    if step.1 then loadFromConfig step.2 rest else (false, step.2)

/-- A sequence of additions, each whether or not those before it succeeded. -/
def addAll (plumber : Plumber) (rules : List RuleConfig) : Plumber :=
  rules.foldl (fun plumber r => (addRule compile plumber r).2) plumber

/-- The rules that are added, in the order of addition. -/
def added (rules : List RuleConfig) : List PlumberRule := rules.filterMap (compiled compile)

/-- The rules that are added and match a message, in the order of addition. -/
def matching (rules : List RuleConfig) (msg : Message) : List PlumberRule :=
  (added compile rules).filter fun rule => ruleMatches rule msg

/-! ## What an addition does -/

variable {compile}

theorem addRule_of_compiled {r : RuleConfig} {rule : PlumberRule}
    (h : compiled compile r = some rule) (plumber : Plumber) :
    addRule compile plumber r =
      (true, { rules := StableOrder.sort (·.priority) (plumber.rules ++ [rule]) }) := by
  rw [addRule, h]

theorem addRule_of_none {r : RuleConfig} (h : compiled compile r = none) (plumber : Plumber) :
    addRule compile plumber r = (false, plumber) := by
  rw [addRule, h]

theorem compiled_eq_none_iff (r : RuleConfig) :
    compiled compile r = none ↔ compile r.pattern = none :=
  Option.map_eq_none_iff

theorem ruleMatches_iff (rule : PlumberRule) (msg : Message) :
    ruleMatches rule msg = true ↔
      rule.pattern (haystack msg) = true ∧ ∀ headers, rule.headerMatch = some headers →
        ∀ header ∈ headers.entries, msg.headers.lookup header.1 = some header.2 := by
  unfold ruleMatches
  cases rule.headerMatch with
  | none => simp
  | some headers => simp

/-! ## Sequences of additions -/

/-- One addition keeps the rules in order. -/
theorem ordered_addRule {plumber : Plumber} {rules : List RuleConfig}
    (h : StableOrder.Ordered (·.priority) (added compile rules) plumber.rules) (r : RuleConfig) :
    StableOrder.Ordered (·.priority) (added compile (rules ++ [r]))
      (addRule compile plumber r).2.rules := by
  have hadded : added compile (rules ++ [r]) =
      added compile rules ++ (compiled compile r).toList := by
    rw [added, List.filterMap_append, added]
    cases hr : compiled compile r <;> simp [hr]
  rw [hadded]
  cases hr : compiled compile r with
  | none => simpa [addRule_of_none hr] using h
  | some rule =>
    rw [addRule_of_compiled hr]
    exact h.snoc_sort rule

theorem ordered_addAll (compile : String → Option (String → Bool)) (rules : List RuleConfig) :
    StableOrder.Ordered (·.priority) (added compile rules) (addAll compile new rules).rules := by
  induction rules using List.reverseRecOn with
  | nil => exact ⟨List.Pairwise.nil, fun _ => rfl⟩
  | append_singleton rules r ih =>
    rw [addAll, List.foldl_append]
    exact ordered_addRule ih r

/-- Loading a configuration is the sequence of its rules up to the first one
that fails. -/
theorem loadFromConfig_eq (plumber : Plumber) (rules : List RuleConfig) :
    (loadFromConfig compile plumber rules).2 =
      addAll compile plumber (rules.takeWhile fun r => (compile r.pattern).isSome) := by
  induction rules generalizing plumber with
  | nil => rfl
  | cons r rest ih =>
    cases hr : compiled compile r with
    | none =>
      have hfails : compile r.pattern = none := (compiled_eq_none_iff r).mp hr
      simp [loadFromConfig, addRule_of_none hr, addAll, hfails]
    | some rule =>
      have hcompiles : (compile r.pattern).isSome = true := by
        simpa [compiled] using congrArg Option.isSome hr
      simpa [loadFromConfig, addRule_of_compiled hr, addAll, hcompiles] using ih _

/-! ## The answers -/

/-- The rules that match, in the order in which they are tried. -/
theorem ordered_matching (compile : String → Option (String → Bool)) (rules : List RuleConfig)
    (msg : Message) :
    StableOrder.Ordered (·.priority) (matching compile rules msg)
      ((addAll compile new rules).rules.filter fun rule => ruleMatches rule msg) :=
  (ordered_addAll compile rules).filter _

theorem route_eq (plumber : Plumber) (msg : Message) :
    plumber.route msg =
      if (plumber.rules.filter fun rule => ruleMatches rule msg) = [] then ["/proc/log"]
      else (plumber.rules.filter fun rule => ruleMatches rule msg).map (·.destination) := by
  simp only [route, List.isEmpty_iff, List.map_eq_nil_iff]

theorem eq_nil_iff_of_ordered {l sorted : List PlumberRule}
    (h : StableOrder.Ordered (·.priority) l sorted) : sorted = [] ↔ l = [] := by
  simp only [List.eq_nil_iff_forall_not_mem, h.mem_iff]

/-- Rules with distinct priorities can be added in any order. -/
theorem addAll_perm {rules other : List RuleConfig} (hperm : other.Perm rules)
    (hkeys : ((added compile rules).map (·.priority)).Nodup) :
    addAll compile new other = addAll compile new rules := by
  have hadded : (added compile rules).Perm (added compile other) := (hperm.filterMap _).symm
  have hother := (ordered_addAll compile rules).of_perm hadded hkeys
  have hrules := (ordered_addAll compile other).unique hother
  cases h : addAll compile new other
  cases h' : addAll compile new rules
  simpa [h, h'] using hrules

/-- The answer is the fallback alone when nothing matches, and when one rule
matches that leads there. -/
theorem route_eq_log_iff (compile : String → Option (String → Bool)) (rules : List RuleConfig)
    (msg : Message) :
    (addAll compile new rules).route msg = ["/proc/log"] ↔
      matching compile rules msg = [] ∨
        ∃ rule, matching compile rules msg = [rule] ∧ rule.destination = "/proc/log" := by
  have hordered := ordered_matching compile rules msg
  rw [route_eq]
  split
  case isTrue hnone => simp [(eq_nil_iff_of_ordered hordered).mp hnone]
  case isFalse hsome =>
    have hmatching : matching compile rules msg ≠ [] :=
      fun h => hsome ((eq_nil_iff_of_ordered hordered).mpr h)
    rw [List.map_eq_singleton_iff]
    constructor
    · rintro ⟨rule, hrule, hdest⟩
      have hperm := hordered.perm
      rw [hrule] at hperm
      exact .inr ⟨rule, List.perm_singleton.mp hperm.symm, hdest⟩
    · rintro (hnil | ⟨rule, hrule, hdest⟩)
      · exact absurd hnil hmatching
      · have hperm := hordered.perm
        rw [hrule] at hperm
        exact ⟨rule, List.perm_singleton.mp hperm, hdest⟩

/-- Routing after any additions: the destinations of the rules that match, in
the order of their priorities and of their additions. -/
theorem route_addAll (compile : String → Option (String → Bool)) (rules : List RuleConfig)
    (msg : Message) :
    (∀ rule, rule ∈ matching compile rules msg ↔
      rule ∈ added compile rules ∧ rule.pattern (haystack msg) = true ∧
        ∀ headers, rule.headerMatch = some headers →
          ∀ header ∈ headers.entries, msg.headers.lookup header.1 = some header.2) ∧
    (∃ ordered, StableOrder.Ordered (·.priority) (matching compile rules msg) ordered ∧
      (addAll compile new rules).route msg =
        if matching compile rules msg = [] then ["/proc/log"]
        else ordered.map (·.destination)) ∧
    ((addAll compile new rules).route msg = ["/proc/log"] ↔
      matching compile rules msg = [] ∨
        ∃ rule, matching compile rules msg = [rule] ∧ rule.destination = "/proc/log") ∧
    (∀ r, compile r.pattern = none →
      addRule compile (addAll compile new rules) r = (false, addAll compile new rules)) ∧
    ∀ other : List RuleConfig, other.Perm rules →
      ((added compile rules).map (·.priority)).Nodup →
        (addAll compile new other).route msg = (addAll compile new rules).route msg := by
  have hordered := ordered_matching compile rules msg
  refine ⟨fun rule => ?_, ⟨_, hordered, ?_⟩, route_eq_log_iff compile rules msg, fun r hr => ?_,
    fun other hperm hkeys => ?_⟩
  · rw [matching, List.mem_filter, ruleMatches_iff]
  · rw [route_eq]
    simp only [eq_nil_iff_of_ordered hordered]
  · exact addRule_of_none ((compiled_eq_none_iff r).mpr hr) _
  · rw [addAll_perm hperm hkeys]

/-- Two rules, and one whose pattern is not a regular expression. -/
def aiRules : List RuleConfig :=
  [⟨"low", "type:test", "/low", 10, none⟩, ⟨"broken", "*", "/proc/log", 1, none⟩,
    ⟨"high", "type:test", "/high", 100, none⟩]

/-- A compiler that knows `*` for an error, and takes any other pattern as one
that matches. -/
def compileAny (pattern : String) : Option (String → Bool) :=
  if pattern = "*" then none else some fun _ => true

theorem route_addAll_aiRules (msg : Message) :
    addRule compileAny (addAll compileAny new aiRules) ⟨"broken", "*", "/proc/log", 1, none⟩ =
        (false, addAll compileAny new aiRules) ∧
      (addAll compileAny new aiRules.reverse).route msg =
        (addAll compileAny new aiRules).route msg :=
  ⟨(route_addAll compileAny aiRules msg).2.2.2.1 _ rfl,
    (route_addAll compileAny aiRules msg).2.2.2.2 _ aiRules.reverse_perm (by decide)⟩

/-- A rule that leads to the log and matches gives the answer of the
fallback. -/
theorem route_log_of_match :
    let rules : List RuleConfig := [⟨"log_all", ".*", "/proc/log", 1, none⟩]
    let msg := Message.new "a" "/prompt" "test" 0 0 0
    (addAll compileAny new rules).route msg = ["/proc/log"] ∧
      matching compileAny rules msg ≠ [] := by
  refine ⟨(route_eq_log_iff _ _ _).mpr (.inr ⟨_, rfl, rfl⟩), ?_⟩
  simp [matching, added, compiled, compileAny, ruleMatches]

end Plumber

end Xfiles.Router
