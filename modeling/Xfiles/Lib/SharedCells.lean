import Mathlib.Logic.Function.Basic
import Xfiles.Lib.Linearizability
import Xfiles.Lib.Transition

/-!
# Tables of shared cells

A table leads from keys to cells, and a cell holds a value.  A call that works on a
value makes two steps: it looks the key up, and later it uses the cell that it found.
In between the key may have been erased or installed anew, so that the cell is no
longer in the table.

* `apply` is the table, used by one caller at a time.
* `Table` and `step` are the table with its cells and the calls that are under way.
* `linearizable` says that the answers of every run are those of one order of whole
  calls.

A call that uses a cell of the table takes effect when it does so.  One that uses a cell
that has left the table takes effect right before the call that took the cell out
(`Stale`): that call overwrites what it did.
-/

namespace SharedCells

open Linearizability Transition

variable {P K V Q R : Type*}

/-- A call on the table. -/
inductive Op (K V Q : Type*) where
  | install (key : K) (value : V)
  | erase (key : K)
  | access (key : K) (query : Q)
  deriving DecidableEq

inductive Answer (R : Type*) where
  | done
  | erased (found : Bool)
  | missing
  | replied (reply : R)
  deriving DecidableEq

/-- How far a call has come. -/
inductive Progress (R : Type*) where
  | pending
  | opened (cell : Nat)
  | answered (answer : Answer R)
  | responded (answer : Answer R)
  deriving DecidableEq

structure Call (K V Q R : Type*) where
  op : Op K V Q
  progress : Progress R
  deriving DecidableEq

/-- The table, the cells, the calls, and the history so far, which no step reads. -/
structure Table (P K V Q R : Type*) where
  cells : List V
  table : K → Option Nat
  calls : P → Option (Call K V Q R)
  history : List (Event P (Op K V Q) (Answer R))

inductive Label (P K V Q : Type*) where
  | invoke (call : P) (op : Op K V Q)
  | act (call : P)
  | use (call : P)
  | respond (call : P)

/-- The value of each key. -/
def Table.view (s : Table P K V Q R) (key : K) : Option V :=
  (s.table key).bind fun cell => s.cells[cell]?

variable [DecidableEq P]

namespace Table

/-- A call moves on. -/
def setCall (s : Table P K V Q R) (p : P) (op : Op K V Q) (progress : Progress R) :
    Table P K V Q R :=
  { s with calls := Function.update s.calls p (some ⟨op, progress⟩) }

/-- An event is noted. -/
def record (s : Table P K V Q R) (event : Event P (Op K V Q) (Answer R)) : Table P K V Q R :=
  { s with history := s.history ++ [event] }

@[simp] theorem calls_setCall_self (s : Table P K V Q R) (p : P) (op : Op K V Q)
    (progress : Progress R) : (s.setCall p op progress).calls p = some ⟨op, progress⟩ :=
  Function.update_self ..

theorem calls_setCall_of_ne (s : Table P K V Q R) {p q : P} (h : q ≠ p) (op : Op K V Q)
    (progress : Progress R) : (s.setCall p op progress).calls q = s.calls q :=
  Function.update_of_ne h ..

omit [DecidableEq P] in
@[simp] theorem calls_record (s : Table P K V Q R) (event : Event P (Op K V Q) (Answer R)) :
    (s.record event).calls = s.calls := rfl

end Table

variable [DecidableEq K]

/-- The table, used by one caller at a time. -/
def apply (effect : Q → V → R × V) (m : K → Option V) : Op K V Q → Answer R × (K → Option V)
  | .install key value => (.done, Function.update m key (some value))
  | .erase key => (.erased (m key).isSome, Function.update m key none)
  | .access key query =>
    match m key with
    | none => (.missing, m)
    | some value =>
      (.replied (effect query value).1, Function.update m key (some (effect query value).2))

namespace Table

/-- The first step of a call. -/
def act (s : Table P K V Q R) (p : P) : Op K V Q → Table P K V Q R
  | .install key value =>
    { s with
      cells := s.cells ++ [value]
      table := Function.update s.table key (some s.cells.length) }.setCall p
        (.install key value) (.answered .done)
  | .erase key =>
    { s with table := Function.update s.table key none }.setCall p (.erase key)
      (.answered (.erased (s.table key).isSome))
  | .access key query =>
    match s.table key with
    | none => s.setCall p (.access key query) (.answered .missing)
    | some cell => s.setCall p (.access key query) (.opened cell)

end Table

def step (effect : Q → V → R × V) (s : Table P K V Q R) : Label P K V Q → Option (Table P K V Q R)
  | .invoke p op =>
    match s.calls p with
    | none => some ((s.setCall p op .pending).record (.invoke p op))
    | some _ => none
  | .act p =>
    match s.calls p with
    | some ⟨op, .pending⟩ => some (s.act p op)
    | _ => none
  | .use p =>
    match s.calls p with
    | some ⟨.access key query, .opened cell⟩ =>
      (s.cells[cell]?).map fun value =>
        { s with cells := s.cells.set cell (effect query value).2 }.setCall p (.access key query)
          (.answered (.replied (effect query value).1))
    | _ => none
  | .respond p =>
    match s.calls p with
    | some ⟨op, .answered answer⟩ =>
      some ((s.setCall p op (.responded answer)).record (.respond p answer))
    | _ => none

/-! ## What a step does -/

section Steps

variable {effect : Q → V → R × V} {s t : Table P K V Q R} {p : P}

theorem step_invoke {op : Op K V Q} (h : step effect s (.invoke p op) = some t) :
    s.calls p = none ∧ t = (s.setCall p op .pending).record (.invoke p op) := by
  rw [step] at h
  split at h
  case h_1 hnone => exact ⟨hnone, (Option.some.inj h).symm⟩
  case h_2 => exact absurd h (by simp)

theorem step_act (h : step effect s (.act p) = some t) :
    ∃ op, s.calls p = some ⟨op, .pending⟩ ∧ t = s.act p op := by
  rw [step] at h
  split at h
  case h_1 op hcall => exact ⟨op, hcall, (Option.some.inj h).symm⟩
  case h_2 => exact absurd h (by simp)

theorem step_use (h : step effect s (.use p) = some t) :
    ∃ key query cell value, s.calls p = some ⟨.access key query, .opened cell⟩ ∧
      s.cells[cell]? = some value ∧
      t = { s with cells := s.cells.set cell (effect query value).2 }.setCall p
        (.access key query) (.answered (.replied (effect query value).1)) := by
  rw [step] at h
  split at h
  case h_1 key query cell hcall =>
    obtain ⟨value, hvalue, rfl⟩ := Option.map_eq_some_iff.mp h
    exact ⟨key, query, cell, value, hcall, hvalue, rfl⟩
  case h_2 => exact absurd h (by simp)

theorem step_respond (h : step effect s (.respond p) = some t) :
    ∃ op answer, s.calls p = some ⟨op, .answered answer⟩ ∧
      t = (s.setCall p op (.responded answer)).record (.respond p answer) := by
  rw [step] at h
  split at h
  case h_1 op answer hcall => exact ⟨op, answer, hcall, (Option.some.inj h).symm⟩
  case h_2 => exact absurd h (by simp)

end Steps

/-! ## Overwriting -/

/-- The call replaces what the key leads to. -/
def Overwrites (key : K) (op : Op K V Q) : Prop :=
  op = .erase key ∨ ∃ value, op = .install key value

omit [DecidableEq P] in
/-- Such a call does not see the value that it replaces. -/
theorem Overwrites.apply_update {key : K} {op : Op K V Q} (h : Overwrites key op)
    {m : K → Option V} {value : V} (hm : m key = some value) (other : V) (effect : Q → V → R × V) :
    apply effect (Function.update m key (some other)) op = apply effect m op := by
  rcases h with rfl | ⟨v, rfl⟩
  · simp [apply, hm]
  · simp [apply]

omit [DecidableEq K] in
theorem Overwrites.key_unique {key key' : K} {op : Op K V Q} (h : Overwrites key op)
    (h' : Overwrites key' op) : key = key' := by
  rcases h with rfl | ⟨v, rfl⟩ <;> rcases h' with heq | ⟨v', heq⟩ <;> simp_all

/-- Two places of one list. -/
theorem split_cases {α : Type*} {early early' late late' : List α} {a a' : α}
    (h : early ++ a :: late = early' ++ a' :: late') :
    (early = early' ∧ a = a' ∧ late = late') ∨
      (∃ middle, early' = early ++ a :: middle ∧ late = middle ++ a' :: late') ∨
      (∃ middle, early = early' ++ a' :: middle ∧ late' = middle ++ a :: late) := by
  rcases List.append_eq_append_iff.mp h with ⟨middle, hearly, hlate⟩ | ⟨middle, hearly, hlate⟩
  · cases middle with
    | nil =>
      obtain ⟨rfl, rfl⟩ := List.cons.inj hlate
      exact Or.inl ⟨by simpa using hearly.symm, rfl, rfl⟩
    | cons b middle =>
      obtain ⟨rfl, rfl⟩ := List.cons.inj hlate
      exact Or.inr (Or.inl ⟨middle, hearly, rfl⟩)
  · cases middle with
    | nil =>
      obtain ⟨rfl, rfl⟩ := List.cons.inj hlate
      exact Or.inl ⟨by simpa using hearly, rfl, rfl⟩
    | cons b middle =>
      obtain ⟨rfl, rfl⟩ := List.cons.inj hlate
      exact Or.inr (Or.inr ⟨middle, hearly, rfl⟩)

/-! ## The order of a run -/

/-- The order, with the cell that each call took out of the table. -/
abbrev Log (P K V Q R : Type*) := List (Entry P (Op K V Q) (Answer R) × Option Nat)

/-- The order of a log. -/
def entries (log : Log P K V Q R) : List (Entry P (Op K V Q) (Answer R)) := log.map Prod.fst

/-- The cells that have left the table. -/
def gone (log : Log P K V Q R) : List Nat := log.filterMap Prod.snd

section Log

variable {effect : Q → V → R × V} {init : K → Option V} {s t : Table P K V Q R}
variable {log early late : Log P K V Q R} {p q : P} {key : K} {op : Op K V Q}

omit [DecidableEq K] [DecidableEq P] in
theorem entries_append : entries (early ++ late) = entries early ++ entries late :=
  List.map_append

omit [DecidableEq K] [DecidableEq P] in
theorem gone_append : gone (early ++ late) = gone early ++ gone late :=
  List.filterMap_append

omit [DecidableEq K] [DecidableEq P] in
/-- Two calls take out two cells. -/
theorem ne_of_once {middle : Log P K V Q R} {e e' : Entry P (Op K V Q) (Answer R)}
    {cell cell' : Nat}
    (honce : (gone (early ++ (e, some cell) :: (middle ++ (e', some cell') :: late))).Nodup) :
    cell ≠ cell' := by
  rw [gone_append] at honce
  have hlater : (cell :: gone (middle ++ (e', some cell') :: late)).Nodup :=
    (List.nodup_append.mp honce).2.1
  intro heq
  subst heq
  refine (List.nodup_cons.mp hlater).1 ?_
  rw [gone_append]
  exact List.mem_append_right _ List.mem_cons_self

/-- A call that holds a cell which has left the table takes effect before the call that
took it out.  What preceded the first in time stands before that place. -/
def Stale (effect : Q → V → R × V) (init : K → Option V) (s : Table P K V Q R)
    (log : Log P K V Q R) (q : P) (key : K) (cell : Nat) : Prop :=
  ∃ early e late, log = early ++ (e, some cell) :: late ∧ Overwrites key e.op ∧
    after (apply effect) init (entries early) key = s.cells[cell]? ∧
    ∀ p, Precedes s.history p q → p ∈ calls (entries early)

omit [DecidableEq P] in
theorem Stale.mem_gone {cell : Nat} (h : Stale effect init s log q key cell) : cell ∈ gone log := by
  obtain ⟨early, e, late, rfl, _⟩ := h
  rw [gone_append]
  exact List.mem_append_right _ List.mem_cons_self

omit [DecidableEq P] in
/-- Later calls do not change the place. -/
theorem Stale.mono {cell : Nat} (h : Stale effect init s log q key cell)
    (hcell : t.cells[cell]? = s.cells[cell]?)
    (hhistory : ∀ p, Precedes t.history p q → Precedes s.history p q) (more : Log P K V Q R) :
    Stale effect init t (log ++ more) q key cell := by
  obtain ⟨early, e, late, rfl, hop, hafter, hbefore⟩ := h
  refine ⟨early, e, late ++ more, by simp, hop, ?_, fun p hprecedes => ?_⟩
  swap
  · exact hbefore p (hhistory p hprecedes)
  rw [hcell]
  exact hafter

/-- The log explains the state. -/
structure Explains (effect : Q → V → R × V) (init : K → Option V) (s : Table P K V Q R)
    (log : Log P K V Q R) : Prop where
  linear : Linearizes (apply effect) init s.history (entries log)
  state : after (apply effect) init (entries log) = s.view
  bounded : ∀ key cell, s.table key = some cell → cell < s.cells.length
  injective : ∀ key key' cell, s.table key = some cell → s.table key' = some cell → key = key'
  left : ∀ cell ∈ gone log, cell < s.cells.length ∧ ∀ key, s.table key ≠ some cell
  once : (gone log).Nodup
  opened : ∀ q key query cell, s.calls q = some ⟨.access key query, .opened cell⟩ →
    s.table key = some cell ∨ Stale effect init s log q key cell
  logged : ∀ q op answer, ⟨q, op, answer⟩ ∈ entries log ↔
    s.calls q = some ⟨op, .answered answer⟩ ∨ s.calls q = some ⟨op, .responded answer⟩
  invoked : ∀ q op, .invoke q op ∈ s.history ↔ ∃ progress, s.calls q = some ⟨op, progress⟩

namespace Explains

omit [DecidableEq P] in
/-- A call that has no answer does not stand in the order. -/
theorem notMem (h : Explains effect init s log)
    (hcall : ∀ op answer, s.calls p ≠ some ⟨op, .answered answer⟩ ∧
      s.calls p ≠ some ⟨op, .responded answer⟩) : p ∉ calls (entries log) := by
  intro hmem
  obtain ⟨op, answer, hentry⟩ := mem_calls.mp hmem
  rcases (h.logged p op answer).mp hentry with hanswered | hresponded
  · exact (hcall op answer).1 hanswered
  · exact (hcall op answer).2 hresponded

omit [DecidableEq P] in
/-- A cell of the table has its value. -/
theorem view_of_table (h : Explains effect init s log) {cell : Nat}
    (htable : s.table key = some cell) : s.view key = s.cells[cell]? ∧ ∃ value,
      s.cells[cell]? = some value := by
  refine ⟨by rw [Table.view, htable, Option.bind_some], ?_⟩
  exact ⟨_, List.getElem?_eq_getElem (h.bounded key cell htable)⟩

omit [DecidableEq P] in
theorem isSome_view (h : Explains effect init s log) (key : K) :
    (s.view key).isSome = (s.table key).isSome := by
  cases htable : s.table key with
  | none =>
    rw [Table.view, htable]
    rfl
  | some cell =>
    obtain ⟨hview, value, hvalue⟩ := h.view_of_table htable
    rw [hview, hvalue]
    rfl

/-- The log of a call that gets its answer. -/
theorem logged_answer (h : Explains effect init s log) (hlog : log = early ++ late)
    {progress : Progress R} (hcall : s.calls p = some ⟨op, progress⟩)
    (hnew : p ∉ calls (entries log)) {answer : Answer R} (tag : Option Nat)
    (ht : t.calls = Function.update s.calls p (some ⟨op, .answered answer⟩)) :
    (∀ q op' answer', ⟨q, op', answer'⟩ ∈ entries (early ++ (⟨p, op, answer⟩, tag) :: late) ↔
      t.calls q = some ⟨op', .answered answer'⟩ ∨ t.calls q = some ⟨op', .responded answer'⟩) ∧
    (∀ q op', .invoke q op' ∈ s.history ↔ ∃ progress, t.calls q = some ⟨op', progress⟩) := by
  subst hlog
  have hmem : ∀ q op' answer',
      (⟨q, op', answer'⟩ : Entry P (Op K V Q) (Answer R)) ∈
          entries (early ++ (⟨p, op, answer⟩, tag) :: late) ↔
        (⟨q, op', answer'⟩ : Entry P (Op K V Q) (Answer R)) = ⟨p, op, answer⟩ ∨
          ⟨q, op', answer'⟩ ∈ entries (early ++ late) := by
    intro q op' answer'
    rw [entries_append, entries_append, List.mem_append, List.mem_append]
    show _ ∨ _ ∈ _ :: entries late ↔ _
    rw [List.mem_cons]
    tauto
  constructor
  · intro q op' answer'
    rw [hmem, ht]
    by_cases hq : q = p
    · subst hq
      have hnot : (⟨q, op', answer'⟩ : Entry P (Op K V Q) (Answer R)) ∉ entries (early ++ late) :=
        fun hold => hnew (mem_calls.mpr ⟨op', answer', hold⟩)
      rw [Function.update_self]
      simp [hnot, eq_comm]
    · rw [Function.update_of_ne hq, ← h.logged q op' answer']
      simp [hq]
  · intro q op'
    rw [h.invoked, ht]
    by_cases hq : q = p
    · subst hq
      rw [Function.update_self, hcall]
      simp
    · rw [Function.update_of_ne hq]

/-! ## Steps -/

/-- A call that is not looking at a cell moves on, and nothing takes effect. -/
theorem move (h : Explains effect init s log) {progress : Progress R}
    (hprogress : ∀ cell, progress ≠ .opened cell) {event : Event P (Op K V Q) (Answer R)}
    (hlinear : Linearizes (apply effect) init (s.history ++ [event]) (entries log))
    (hprecedes : ∀ r q, q ≠ p → Precedes (s.history ++ [event]) r q → Precedes s.history r q)
    (hlogged : ∀ op' answer,
      (s.calls p = some ⟨op', .answered answer⟩ ∨ s.calls p = some ⟨op', .responded answer⟩) ↔
        (op = op' ∧ (progress = .answered answer ∨ progress = .responded answer)))
    (hinvoked : ∀ q op', .invoke q op' ∈ s.history ++ [event] ↔
      ∃ progress', (s.setCall p op progress).calls q = some ⟨op', progress'⟩) :
    Explains effect init ((s.setCall p op progress).record event) log where
  linear := hlinear
  state := h.state
  bounded := h.bounded
  injective := h.injective
  left := h.left
  once := h.once
  opened q key query cell hcall := by
    have hq : q ≠ p := by
      rintro rfl
      rw [Table.calls_record, Table.calls_setCall_self, Option.some.injEq, Call.mk.injEq] at hcall
      exact hprogress cell hcall.2
    rw [Table.calls_record, s.calls_setCall_of_ne hq] at hcall
    refine (h.opened q key query cell hcall).imp_right fun hstale => ?_
    have hmono := hstale.mono (t := (s.setCall p op progress).record event) rfl
      (fun r => hprecedes r q hq) []
    rwa [List.append_nil] at hmono
  logged q op' answer := by
    rw [h.logged, Table.calls_record]
    by_cases hq : q = p
    · rw [hq, Table.calls_setCall_self, hlogged]
      simp [and_or_left]
    · rw [s.calls_setCall_of_ne hq]
  invoked := hinvoked

/-- A call is invoked. -/
theorem invoke (h : Explains effect init s log) (hnone : s.calls p = none) (op : Op K V Q) :
    Explains effect init ((s.setCall p op .pending).record (.invoke p op)) log := by
  refine h.move (by simp) (h.linear.invoke (h.notMem ?_)) ?_ ?_ ?_
  · intro op answer
    rw [hnone]
    exact ⟨by simp, by simp⟩
  · intro r q hq hprecedes
    rcases precedes_invoke.mp hprecedes with hold | ⟨heq, _⟩
    · exact hold
    · exact absurd heq hq
  · intro op' answer
    rw [hnone]
    simp
  · intro q op'
    rw [List.mem_append, h.invoked]
    by_cases hq : q = p
    · rw [hq, Table.calls_setCall_self, hnone]
      simp [eq_comm]
    · rw [s.calls_setCall_of_ne hq]
      simp [hq]

/-- A call responds. -/
theorem respond (h : Explains effect init s log) {answer : Answer R}
    (hcall : s.calls p = some ⟨op, .answered answer⟩) :
    Explains effect init ((s.setCall p op (.responded answer)).record (.respond p answer)) log := by
  refine h.move (by simp) (h.linear.respond ((h.logged p op answer).mpr (Or.inl hcall))) ?_ ?_ ?_
  · exact fun r q _ hprecedes => precedes_respond.mp hprecedes
  · intro op' answer'
    rw [hcall]
    simp
  · intro q op'
    rw [List.mem_append, h.invoked]
    by_cases hq : q = p
    · rw [hq, Table.calls_setCall_self, hcall]
      simp
    · rw [s.calls_setCall_of_ne hq]
      simp

/-- A call finds a cell. -/
theorem access (h : Explains effect init s log) {query : Q} {cell : Nat}
    (hcall : s.calls p = some ⟨.access key query, .pending⟩) (htable : s.table key = some cell) :
    Explains effect init (s.setCall p (.access key query) (.opened cell)) log where
  linear := h.linear
  state := h.state
  bounded := h.bounded
  injective := h.injective
  left := h.left
  once := h.once
  opened q key' query' cell' hopened := by
    by_cases hq : q = p
    · rw [hq, Table.calls_setCall_self] at hopened
      simp only [Option.some.injEq, Call.mk.injEq, Op.access.injEq, Progress.opened.injEq]
        at hopened
      obtain ⟨⟨rfl, rfl⟩, rfl⟩ := hopened
      exact Or.inl htable
    · rw [s.calls_setCall_of_ne hq] at hopened
      exact h.opened q key' query' cell' hopened
  logged q op' answer := by
    rw [h.logged]
    by_cases hq : q = p
    · rw [hq, Table.calls_setCall_self, hcall]
      simp
    · rw [s.calls_setCall_of_ne hq]
  invoked q op' := by
    show .invoke q op' ∈ s.history ↔ _
    rw [h.invoked]
    by_cases hq : q = p
    · rw [hq, Table.calls_setCall_self, hcall]
      simp
    · rw [s.calls_setCall_of_ne hq]

/-- A call takes effect at once and leaves every key in its cell. -/
theorem commit (h : Explains effect init s log) {query : Q} {progress : Progress R}
    (hcall : s.calls p = some ⟨.access key query, progress⟩)
    (hnew : p ∉ calls (entries log)) (cells : List V) (hlength : cells.length = s.cells.length)
    (hsame : ∀ cell ∈ gone log, cells[cell]? = s.cells[cell]?)
    (hview : Table.view { s with cells := cells } = (apply effect s.view (.access key query)).2) :
    Explains effect init
      ({ s with cells := cells }.setCall p (.access key query)
        (.answered (apply effect s.view (.access key query)).1))
      (log ++ [(⟨p, .access key query, (apply effect s.view (.access key query)).1⟩, none)]) := by
  have hentries : entries (log ++ [((⟨p, .access key query,
      (apply effect s.view (.access key query)).1⟩ : Entry P (Op K V Q) (Answer R)), none)]) =
      entries log ++ [⟨p, .access key query, (apply effect s.view (.access key query)).1⟩] :=
    entries_append
  have hgone : gone (log ++ [((⟨p, .access key query,
      (apply effect s.view (.access key query)).1⟩ : Entry P (Op K V Q) (Answer R)), none)]) =
      gone log := by
    rw [gone_append]
    exact List.append_nil _
  obtain ⟨hlogged, hinvoked⟩ := h.logged_answer (List.append_nil log).symm hcall hnew none
    (t := { s with cells := cells }.setCall p (.access key query)
        (.answered (apply effect s.view (.access key query)).1)) rfl
  refine ⟨?_, ?_, ?_, h.injective, ?_, ?_, ?_, hlogged, hinvoked⟩
  · rw [hentries, ← h.state]
    exact h.linear.commit ((h.invoked _ _).mpr ⟨_, hcall⟩) hnew
  · rw [hentries, after_concat, h.state]
    exact hview.symm
  · intro key' cell htable
    show cell < cells.length
    rw [hlength]
    exact h.bounded key' cell htable
  · intro cell hmem
    rw [hgone] at hmem
    show cell < cells.length ∧ _
    rw [hlength]
    exact h.left cell hmem
  · rw [hgone]
    exact h.once
  · intro q key' query' cell hopened
    have hq : q ≠ p := by
      rintro rfl
      simp [Table.setCall] at hopened
    rw [Table.calls_setCall_of_ne _ hq] at hopened
    refine (h.opened q key' query' cell hopened).imp_right fun hstale => ?_
    refine hstale.mono ?_ ?_ _
    · exact hsame cell hstale.mem_gone
    · exact fun r hprecedes => hprecedes

/-- A call replaces what a key leads to. -/
theorem overwrite (h : Explains effect init s log) (hcall : s.calls p = some ⟨op, .pending⟩)
    (hop : Overwrites key op) (extra : List V) (slot : Option Nat)
    (hslot : ∀ cell, slot = some cell → cell = s.cells.length ∧ extra ≠ [])
    (hview : Table.view { s with
        cells := s.cells ++ extra
        table := Function.update s.table key slot } = (apply effect s.view op).2) :
    Explains effect init
      ({ s with
        cells := s.cells ++ extra
        table := Function.update s.table key slot }.setCall p op
          (.answered (apply effect s.view op).1))
      (log ++ [(⟨p, op, (apply effect s.view op).1⟩, s.table key)]) := by
  have hnew : p ∉ calls (entries log) := h.notMem fun op' answer => by simp [hcall]
  have hentries : entries (log ++ [((⟨p, op, (apply effect s.view op).1⟩ :
      Entry P (Op K V Q) (Answer R)), s.table key)]) =
      entries log ++ [⟨p, op, (apply effect s.view op).1⟩] :=
    entries_append
  have hgone : gone (log ++ [((⟨p, op, (apply effect s.view op).1⟩ :
      Entry P (Op K V Q) (Answer R)), s.table key)]) = gone log ++ (s.table key).toList := by
    rw [gone_append]
    cases s.table key with
    | none => rfl
    | some cell => rfl
  have hlength : s.cells.length ≤ (s.cells ++ extra).length := by
    rw [List.length_append]
    exact Nat.le_add_right _ _
  obtain ⟨hlogged, hinvoked⟩ := h.logged_answer (List.append_nil log).symm hcall hnew (s.table key)
    (t := { s with
      cells := s.cells ++ extra
      table := Function.update s.table key slot }.setCall p op
        (.answered (apply effect s.view op).1)) rfl
  -- the new cell, if there is one, is in no other place
  have htable : ∀ key' cell, Function.update s.table key slot key' = some cell →
      (key' = key ∧ slot = some cell) ∨ (key' ≠ key ∧ s.table key' = some cell) := by
    intro key' cell hcell
    by_cases hkey : key' = key
    · rw [hkey, Function.update_self] at hcell
      exact Or.inl ⟨hkey, hcell⟩
    · rw [Function.update_of_ne hkey] at hcell
      exact Or.inr ⟨hkey, hcell⟩
  have hold : ∀ key' cell, Function.update s.table key slot key' = some cell →
      cell < s.cells.length → key' ≠ key ∧ s.table key' = some cell := by
    intro key' cell hcell hlt
    rcases htable key' cell hcell with ⟨_, hslot'⟩ | hother
    · have hnewest := (hslot cell hslot').1
      omega
    · exact hother
  refine ⟨?_, ?_, ?_, ?_, ?_, ?_, ?_, hlogged, hinvoked⟩
  · rw [hentries, ← h.state]
    exact h.linear.commit ((h.invoked _ _).mpr ⟨_, hcall⟩) hnew
  · rw [hentries, after_concat, h.state]
    exact hview.symm
  · intro key' cell hcell
    rcases htable key' cell hcell with ⟨_, hslot'⟩ | ⟨_, hother⟩
    · obtain ⟨rfl, hextra⟩ := hslot cell hslot'
      show s.cells.length < (s.cells ++ extra).length
      rw [List.length_append]
      exact Nat.lt_add_of_pos_right (List.length_pos_of_ne_nil hextra)
    · exact Nat.lt_of_lt_of_le (h.bounded key' cell hother) hlength
  · intro key' key'' cell hcell hcell'
    rcases htable key' cell hcell with ⟨hkey, hslot'⟩ | ⟨_, hother⟩
    · rcases htable key'' cell hcell' with ⟨hkey', _⟩ | ⟨_, hother⟩
      · rw [hkey, hkey']
      · have hlt := h.bounded key'' cell hother
        have hnewest := (hslot cell hslot').1
        omega
    · obtain ⟨_, hother'⟩ := hold key'' cell hcell' (h.bounded key' cell hother)
      exact h.injective key' key'' cell hother hother'
  · intro cell hmem
    rw [hgone, List.mem_append, Option.mem_toList] at hmem
    have hgoes : cell < s.cells.length ∧ ∀ key', key' ≠ key → s.table key' ≠ some cell := by
      rcases hmem with hmem | hmem
      · exact ⟨(h.left cell hmem).1, fun key' _ => (h.left cell hmem).2 key'⟩
      · exact ⟨h.bounded key cell hmem, fun key' hkey hother =>
          hkey (h.injective key' key cell hother hmem)⟩
    refine ⟨Nat.lt_of_lt_of_le hgoes.1 hlength, fun key' hcell => ?_⟩
    obtain ⟨hkey, hother⟩ := hold key' cell hcell hgoes.1
    exact hgoes.2 key' hkey hother
  · rw [hgone]
    refine List.nodup_append.mpr ⟨h.once, ?_, ?_⟩
    · cases s.table key with
      | none => exact List.nodup_nil
      | some cell => exact List.nodup_singleton cell
    · intro cell hmem cell' hmem' heq
      subst heq
      exact (h.left cell hmem).2 key (Option.mem_toList.mp hmem')
  · intro q key' query cell hopened
    have hq : q ≠ p := by
      rintro rfl
      simp only [Table.calls_setCall_self, Option.some.injEq, Call.mk.injEq] at hopened
      exact absurd hopened.2 (by simp)
    rw [Table.calls_setCall_of_ne _ hq] at hopened
    rcases h.opened q key' query cell hopened with hattached | hstale
    · have hcell : (s.cells ++ extra)[cell]? = s.cells[cell]? :=
        List.getElem?_append_left (h.bounded key' cell hattached)
      by_cases hkey : key' = key
      · -- the cell leaves the table now
        subst hkey
        rw [hattached]
        refine Or.inr ⟨log, _, [], rfl, hop, ?_, fun r hprecedes =>
          h.linear.mem_of_precedes hprecedes⟩
        rw [h.state, (h.view_of_table hattached).1]
        exact hcell.symm
      · left
        show Function.update s.table key slot key' = some cell
        rwa [Function.update_of_ne hkey]
    · refine Or.inr (hstale.mono ?_ ?_ _)
      · exact List.getElem?_append_left (h.left cell hstale.mem_gone).1
      · exact fun r hprecedes => hprecedes

theorem install (h : Explains effect init s log) {value : V}
    (hcall : s.calls p = some ⟨.install key value, .pending⟩) :
    Explains effect init (s.act p (.install key value))
      (log ++ [(⟨p, .install key value, .done⟩, s.table key)]) := by
  refine h.overwrite hcall (Or.inr ⟨value, rfl⟩) [value] (some s.cells.length) ?_ ?_
  · intro cell hcell
    exact ⟨(Option.some.inj hcell).symm, List.cons_ne_nil _ _⟩
  · funext key'
    show (Function.update s.table key (some s.cells.length) key').bind _ =
      Function.update s.view key (some value) key'
    by_cases hkey : key' = key
    · rw [hkey, Function.update_self, Function.update_self, Option.bind_some]
      exact List.getElem?_concat_length
    · rw [Function.update_of_ne hkey, Function.update_of_ne hkey, Table.view]
      exact Option.bind_congr fun cell hcell =>
        List.getElem?_append_left (h.bounded key' cell hcell)

theorem erase (h : Explains effect init s log) (hcall : s.calls p = some ⟨.erase key, .pending⟩) :
    Explains effect init (s.act p (.erase key))
      (log ++ [(⟨p, .erase key, .erased (s.view key).isSome⟩, s.table key)]) := by
  have herased := h.overwrite hcall (Or.inl rfl) [] none (by simp) ?_
  · show Explains effect init ({ s with table := Function.update s.table key none }.setCall p
      (.erase key) (.answered (.erased (s.table key).isSome))) _
    rw [← h.isSome_view]
    rw [List.append_nil] at herased
    exact herased
  · funext key'
    show (Function.update s.table key none key').bind _ = Function.update s.view key none key'
    by_cases hkey : key' = key
    · rw [hkey, Function.update_self, Function.update_self, Option.bind_none]
    · rw [Function.update_of_ne hkey, Function.update_of_ne hkey, Table.view, List.append_nil]

/-- A call finds no cell. -/
theorem access_missing (h : Explains effect init s log) {query : Q}
    (hcall : s.calls p = some ⟨.access key query, .pending⟩) (htable : s.table key = none) :
    Explains effect init (s.act p (.access key query))
      (log ++ [(⟨p, .access key query, .missing⟩, none)]) := by
  have happly : apply effect s.view (.access key query) = (.missing, s.view) := by
    simp only [apply, Table.view, htable, Option.bind_none]
  have hact :
      s.act p (.access key query) = s.setCall p (.access key query) (.answered .missing) := by
    simp only [Table.act, htable]
  have hcommit := h.commit hcall (h.notMem fun op' answer => by simp [hcall]) s.cells rfl
    (fun _ _ => rfl) (by rw [happly])
  rw [happly] at hcommit
  rw [hact]
  exact hcommit

/-- A call uses a cell of the table. -/
theorem use_attached (h : Explains effect init s log) {query : Q} {cell : Nat} {value : V}
    (hcall : s.calls p = some ⟨.access key query, .opened cell⟩)
    (hvalue : s.cells[cell]? = some value) (htable : s.table key = some cell) :
    ∃ log', Explains effect init
      ({ s with cells := s.cells.set cell (effect query value).2 }.setCall p (.access key query)
        (.answered (.replied (effect query value).1))) log' := by
  have hview : s.view key = some value := by rw [(h.view_of_table htable).1, hvalue]
  have happly : apply effect s.view (.access key query) = (.replied (effect query value).1,
      Function.update s.view key (some (effect query value).2)) := by
    simp only [apply, hview]
  have hcommit := h.commit hcall (h.notMem fun op' answer => by simp [hcall])
    (s.cells.set cell (effect query value).2) List.length_set ?_ ?_
  · rw [happly] at hcommit
    exact ⟨_, hcommit⟩
  · intro cell' hmem
    refine List.getElem?_set_ne ?_
    rintro rfl
    exact (h.left cell hmem).2 key htable
  · rw [happly]
    funext key'
    show _ = Function.update s.view key (some (effect query value).2) key'
    by_cases hkey : key' = key
    · rw [hkey, Function.update_self, Table.view, htable, Option.bind_some]
      exact List.getElem?_set_self (h.bounded key cell htable)
    · rw [Function.update_of_ne hkey, Table.view, Table.view]
      refine Option.bind_congr fun cell' hcell' => List.getElem?_set_ne ?_
      rintro rfl
      exact hkey (h.injective key' key cell hcell' htable)

/-- A call uses a cell that has left the table. -/
theorem use_stale (h : Explains effect init s log) {query : Q} {cell : Nat} {value : V}
    (hcall : s.calls p = some ⟨.access key query, .opened cell⟩)
    (hvalue : s.cells[cell]? = some value) (hstale : Stale effect init s log p key cell) :
    ∃ log', Explains effect init
      ({ s with cells := s.cells.set cell (effect query value).2 }.setCall p (.access key query)
        (.answered (.replied (effect query value).1))) log' := by
  obtain ⟨early, e, late, rfl, hop, hafter, hbefore⟩ := hstale
  rw [hvalue] at hafter
  have hnew : p ∉ calls (entries (early ++ (e, some cell) :: late)) :=
    h.notMem fun op' answer => by simp [hcall]
  have happly : apply effect (after (apply effect) init (entries early)) (.access key query) =
      (.replied (effect query value).1,
        Function.update (after (apply effect) init (entries early)) key
          (some (effect query value).2)) := by
    simp only [apply, hafter]
  -- the call that took the cell out does not see the difference
  have hmask := hop.apply_update hafter (effect query value).2 effect
  have hentries : ∀ more : Log P K V Q R,
      after (apply effect) init (entries (early ++ (⟨p, .access key query,
        .replied (effect query value).1⟩, none) :: (e, some cell) :: more)) =
      after (apply effect) init (entries (early ++ (e, some cell) :: more)) := by
    intro more
    rw [entries_append, entries_append, after_append, after_append]
    show after _ (apply effect (apply effect _ (.access key query)).2 e.op).2 (entries more) =
      after _ (apply effect _ e.op).2 (entries more)
    rw [happly, hmask]
  obtain ⟨hlogged, hinvoked⟩ := h.logged_answer rfl hcall hnew none
    (t := { s with cells := s.cells.set cell (effect query value).2 }.setCall p
      (.access key query) (.answered (.replied (effect query value).1))) rfl
  refine ⟨_, ?_, ?_, ?_, h.injective, ?_, ?_, ?_, hlogged, hinvoked⟩
  · have hlegal := (legal_append.mp (entries_append ▸ h.linear.legal)).2
    have hlinear := h.linear
    rw [entries_append] at hlinear hnew ⊢
    refine hlinear.insert ((h.invoked _ _).mpr ⟨_, hcall⟩) hnew ?_ ?_ hbefore
    · rw [happly]
    · rw [happly]
      show (apply effect _ e.op).1 = e.answer ∧ Legal _ (apply effect _ e.op).2 (entries late)
      rw [hmask]
      exact hlegal
  · rw [hentries, h.state]
    funext key'
    rw [Table.view]
    refine Option.bind_congr fun cell' hcell' => (List.getElem?_set_ne ?_).symm
    rintro rfl
    have hgone : cell ∈ gone (early ++ (e, some cell) :: late) := by
      rw [gone_append]
      exact List.mem_append_right _ List.mem_cons_self
    exact (h.left cell hgone).2 key' hcell'
  · intro key' cell' htable
    show cell' < (s.cells.set cell _).length
    rw [List.length_set]
    exact h.bounded key' cell' htable
  · intro cell' hmem
    rw [gone_append] at hmem
    show cell' < (s.cells.set cell _).length ∧ _
    rw [List.length_set]
    exact h.left cell' (by rw [gone_append]; exact hmem)
  · rw [gone_append]
    have honce := h.once
    rw [gone_append] at honce
    exact honce
  · intro q key' query' cell' hopened
    have hq : q ≠ p := by
      rintro rfl
      simp only [Table.calls_setCall_self, Option.some.injEq, Call.mk.injEq] at hopened
      exact absurd hopened.2 (by simp)
    rw [Table.calls_setCall_of_ne _ hq] at hopened
    refine (h.opened q key' query' cell' hopened).imp_right fun hother => ?_
    obtain ⟨early', e', late', hsplit, hop', hafter', hbefore'⟩ := hother
    rcases split_cases hsplit with ⟨rfl, heq, rfl⟩ | ⟨middle, rfl, rfl⟩ | ⟨middle, rfl, rfl⟩
    · -- the same cell
      obtain ⟨rfl, rfl⟩ : e = e' ∧ cell = cell' := by simpa using heq
      obtain rfl := hop.key_unique hop'
      refine ⟨early ++ [(⟨p, .access key query, .replied (effect query value).1⟩, none)], e, late,
        by simp, hop, ?_, ?_⟩
      · rw [entries_append, after_append]
        show (apply effect _ (.access key query)).2 key = (s.cells.set cell _)[cell]?
        rw [happly]
        show Function.update _ key _ key = _
        rw [Function.update_self]
        exact (List.getElem?_set_self (List.getElem?_eq_some_iff.mp hvalue).1).symm
      · intro r hprecedes
        rw [entries_append, calls_append]
        exact List.mem_append_left _ (hbefore' r hprecedes)
    · -- a cell that was taken out later
      refine ⟨early ++ (⟨p, .access key query, .replied (effect query value).1⟩, none) ::
        (e, some cell) :: middle, e', late', by simp, hop', ?_, ?_⟩
      · rw [hentries, hafter']
        exact (List.getElem?_set_ne (ne_of_once h.once)).symm
      · intro r hprecedes
        have hmem := hbefore' r hprecedes
        rw [entries_append, calls_append, List.mem_append] at hmem ⊢
        exact hmem.imp_right (List.mem_cons_of_mem _)
    · -- a cell that was taken out earlier
      refine ⟨early', e',
        middle ++ (⟨p, .access key query, .replied (effect query value).1⟩, none) ::
          (e, some cell) :: late, by simp, hop', ?_, hbefore'⟩
      rw [hafter']
      refine (List.getElem?_set_ne (Ne.symm ?_)).symm
      have honce := h.once
      rw [hsplit] at honce
      exact ne_of_once honce

/-- Every step keeps an explanation. -/
theorem step (h : Explains effect init s log) {label : Label P K V Q}
    (hstep : SharedCells.step effect s label = some t) : ∃ log', Explains effect init t log' := by
  cases label with
  | invoke p op =>
    obtain ⟨hnone, rfl⟩ := step_invoke hstep
    exact ⟨log, h.invoke hnone op⟩
  | act p =>
    obtain ⟨op, hcall, rfl⟩ := step_act hstep
    cases op with
    | install key value => exact ⟨_, h.install hcall⟩
    | erase key => exact ⟨_, h.erase hcall⟩
    | access key query =>
      cases htable : s.table key with
      | none => exact ⟨_, h.access_missing hcall htable⟩
      | some cell =>
        refine ⟨log, ?_⟩
        simp only [Table.act, htable]
        exact h.access hcall htable
  | use p =>
    obtain ⟨key, query, cell, value, hcall, hvalue, rfl⟩ := step_use hstep
    rcases h.opened p key query cell hcall with htable | hstale
    · exact h.use_attached hcall hvalue htable
    · exact h.use_stale hcall hvalue hstale
  | respond p =>
    obtain ⟨op, answer, hcall, rfl⟩ := step_respond hstep
    exact ⟨log, h.respond hcall⟩

end Explains

/-- A table at the start: no call is under way, and every key has its own cell. -/
structure Fresh (s : Table P K V Q R) : Prop where
  calls : ∀ p, s.calls p = none
  history : s.history = []
  bounded : ∀ key cell, s.table key = some cell → cell < s.cells.length
  injective : ∀ key key' cell, s.table key = some cell → s.table key' = some cell → key = key'

omit [DecidableEq P] in
theorem Fresh.explains (h : Fresh s) : Explains effect s.view s [] where
  linear := by
    rw [h.history]
    exact Linearizes.nil s.view
  state := rfl
  bounded := h.bounded
  injective := h.injective
  left _ hmem := absurd hmem List.not_mem_nil
  once := List.nodup_nil
  opened q _ _ _ hcall := by
    rw [h.calls q] at hcall
    exact absurd hcall (by simp)
  logged q op answer := by
    rw [h.calls q]
    simp [entries]
  invoked q op := by
    rw [h.calls q, h.history]
    simp

/-- Every state of a run has an explanation. -/
theorem exists_explains (h : Fresh s) {labels : List (Label P K V Q)}
    (hrun : run (step effect) s labels = some t) : ∃ log, Explains effect s.view t log := by
  have hkeep : ∀ (s₁ : Table P K V Q R) label s₂, (∃ log, Explains effect s.view s₁ log) →
      step effect s₁ label = some s₂ → ∃ log, Explains effect s.view s₂ log :=
    fun s₁ label s₂ ⟨log, hlog⟩ hstep => hlog.step hstep
  exact invariant_of_run hkeep ⟨[], h.explains⟩ hrun

/-- A call is invoked with one operation. -/
theorem invoke_unique (h : Fresh s) {labels : List (Label P K V Q)}
    (hrun : run (step effect) s labels = some t) {op op' : Op K V Q}
    (hop : .invoke p op ∈ t.history) (hop' : .invoke p op' ∈ t.history) : op = op' := by
  obtain ⟨log, hlog⟩ := exists_explains h hrun
  obtain ⟨progress, hcall⟩ := (hlog.invoked p op).mp hop
  obtain ⟨progress', hcall'⟩ := (hlog.invoked p op').mp hop'
  rw [hcall] at hcall'
  exact congrArg Call.op (Option.some.inj hcall')

/-- **Linearizability.** In every run of concurrent calls on a table, the answers are those
of one order of whole calls, which keeps the order of calls that do not overlap. -/
theorem linearizable (h : Fresh s) {labels : List (Label P K V Q)}
    (hrun : run (step effect) s labels = some t) :
    ∃ order, Linearizes (apply effect) s.view t.history order ∧
      after (apply effect) s.view order = t.view := by
  obtain ⟨log, hlog⟩ := exists_explains h hrun
  exact ⟨entries log, hlog.linear, hlog.state⟩

end Log

end SharedCells
