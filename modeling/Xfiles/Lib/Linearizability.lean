import Mathlib.Data.List.Nodup

/-!
# Linearizability

A history is the list of invocations and responses of concurrent calls on one
object, in the order of time.  It is linearizable when the calls can be put in one
order in which the object, used by one caller at a time, gives the same answers, and
which keeps the order of two calls that do not overlap.

* `Linearizes` is such an order.  A call without a response may stand in it or not.
* `Linearizes.invoke`, `Linearizes.respond` and `Linearizes.insert` extend an order
  along a history.  `insert` puts a call where it took effect, which need not be the
  end: what stands behind it must not see the difference.
* `Linearizes.map` moves an order to an object that the first is a picture of.
* `Linearizes.between` reads an order: what can stand between two calls, one after the
  other in time.
-/

namespace Linearizability

open scoped List

variable {P O A S : Type*}

/-- An event of a history. -/
inductive Event (P O A : Type*) where
  | invoke (call : P) (op : O)
  | respond (call : P) (answer : A)
  deriving DecidableEq

/-- A call with its answer. -/
structure Entry (P O A : Type*) where
  call : P
  op : O
  answer : A
  deriving DecidableEq

/-- The call `p` has responded before `q` is invoked. -/
def Precedes (history : List (Event P O A)) (p q : P) : Prop :=
  ∃ answer op, [.respond p answer, .invoke q op] <+ history

section Spec

variable (apply : S → O → A × S)

/-- The calls one at a time give these answers. -/
def Legal : S → List (Entry P O A) → Prop
  | _, [] => True
  | s, e :: rest => (apply s e.op).1 = e.answer ∧ Legal (apply s e.op).2 rest

/-- The state after the calls. -/
def after (s : S) (order : List (Entry P O A)) : S :=
  order.foldl (fun s e => (apply s e.op).2) s

/-- The calls that an order names. -/
def calls (order : List (Entry P O A)) : List P := order.map Entry.call

/-- An order of calls that explains a history. -/
structure Linearizes (init : S) (history : List (Event P O A)) (order : List (Entry P O A)) :
    Prop where
  nodup : (calls order).Nodup
  invoked : ∀ e ∈ order, .invoke e.call e.op ∈ history
  responded : ∀ p answer, .respond p answer ∈ history → ∃ op, ⟨p, op, answer⟩ ∈ order
  legal : Legal apply init order
  realTime : ∀ p q, Precedes history p q → q ∈ calls order → [p, q] <+ calls order

/-! ## Legal orders -/

variable {apply}

theorem after_append (s : S) (early late : List (Entry P O A)) :
    after apply s (early ++ late) = after apply (after apply s early) late :=
  List.foldl_append

theorem after_concat (s : S) (order : List (Entry P O A)) (e : Entry P O A) :
    after apply s (order ++ [e]) = (apply (after apply s order) e.op).2 :=
  after_append s order [e]

theorem legal_append {s : S} {early late : List (Entry P O A)} :
    Legal apply s (early ++ late) ↔
      Legal apply s early ∧ Legal apply (after apply s early) late := by
  induction early generalizing s with
  | nil => exact (and_iff_right trivial).symm
  | cons e early ih =>
    rw [List.cons_append, Legal, Legal, ih, and_assoc]
    rfl

/-- A state space that the object's own is a picture of. -/
theorem legal_map {T : Type*} {apply' : T → O → A × T} {f : T → S}
    (h : ∀ t op, apply (f t) op = ((apply' t op).1, f (apply' t op).2)) (t : T)
    (order : List (Entry P O A)) :
    (Legal apply (f t) order ↔ Legal apply' t order) ∧
      after apply (f t) order = f (after apply' t order) := by
  induction order generalizing t with
  | nil => exact ⟨Iff.rfl, rfl⟩
  | cons e order ih =>
    rw [Legal, Legal, h]
    refine ⟨and_congr_right fun _ => (ih _).1, ?_⟩
    show after apply (apply (f t) e.op).2 order = _
    rw [h]
    exact (ih _).2

theorem mem_calls {p : P} {order : List (Entry P O A)} :
    p ∈ calls order ↔ ∃ op answer, ⟨p, op, answer⟩ ∈ order := by
  constructor
  · intro h
    obtain ⟨e, he, rfl⟩ := List.mem_map.mp h
    exact ⟨e.op, e.answer, he⟩
  · intro ⟨op, answer, h⟩
    exact List.mem_map.mpr ⟨_, h, rfl⟩

theorem calls_append (early late : List (Entry P O A)) :
    calls (early ++ late) = calls early ++ calls late :=
  List.map_append

/-- Two entries of a list, and what surrounds them. -/
theorem exists_split_of_pair {α : Type*} {a b : α} {l : List α} (h : [a, b] <+ l) :
    ∃ early middle late, l = early ++ a :: (middle ++ b :: late) := by
  obtain ⟨front, back, rfl, ha, hb⟩ := List.cons_sublist_iff.mp h
  obtain ⟨early, between, rfl⟩ := List.append_of_mem ha
  obtain ⟨between', late, rfl⟩ := List.append_of_mem (List.singleton_sublist.mp hb)
  exact ⟨early, between ++ between', late, by simp⟩

/-- Two entries of a list without repetition stand in one order. -/
theorem pair_asymm {α : Type*} {a b : α} {l : List α} (hnodup : l.Nodup) (h : [a, b] <+ l) :
    ¬ [b, a] <+ l := by
  intro hswapped
  obtain ⟨early, middle, late, rfl⟩ := exists_split_of_pair h
  obtain ⟨hearly, hrest, hapart⟩ := List.nodup_append.mp hnodup
  have hb : b ∈ a :: (middle ++ b :: late) := by simp
  have hfront : b ∉ early := fun hmem => hapart b hmem b hb rfl
  have hback : [b, a] <+ a :: (middle ++ b :: late) := by
    obtain ⟨x, y, hsplit, hx, hy⟩ := List.sublist_append_iff.mp hswapped
    cases x with
    | nil =>
      rw [hsplit]
      exact hy
    | cons c x =>
      obtain ⟨rfl, _⟩ := List.cons.inj hsplit
      exact absurd (hx.subset List.mem_cons_self) hfront
  have hne : b ≠ a := by
    intro heq
    exact (List.nodup_cons.mp hrest).1 (by simp [heq])
  have htail : [b, a] <+ middle ++ b :: late := hback.of_cons_of_ne hne
  exact (List.nodup_cons.mp hrest).1 (htail.subset (List.mem_cons_of_mem _ List.mem_cons_self))

/-! ## Real time -/

/-- A response adds no order. -/
theorem precedes_respond {history : List (Event P O A)} {p q r : P} {answer : A} :
    Precedes (history ++ [.respond r answer]) p q ↔ Precedes history p q := by
  constructor
  · intro ⟨a, o, hsub⟩
    refine ⟨a, o, ?_⟩
    obtain ⟨early, late, hsplit, hearly, hlate⟩ := List.sublist_append_iff.mp hsub
    rcases List.sublist_singleton.mp hlate with rfl | rfl
    · rw [List.append_nil] at hsplit
      rwa [hsplit]
    · have hlast := congrArg List.getLast? hsplit
      simp at hlast
  · intro ⟨a, o, hsub⟩
    exact ⟨a, o, hsub.trans (List.sublist_append_left _ _)⟩

/-- An invocation stands behind what has responded. -/
theorem precedes_invoke {history : List (Event P O A)} {p q r : P} {op : O} :
    Precedes (history ++ [.invoke r op]) p q ↔
      Precedes history p q ∨ q = r ∧ ∃ answer, .respond p answer ∈ history := by
  constructor
  · intro ⟨a, o, hsub⟩
    obtain ⟨early, late, hsplit, hearly, hlate⟩ := List.sublist_append_iff.mp hsub
    rcases List.sublist_singleton.mp hlate with rfl | rfl
    · rw [List.append_nil] at hsplit
      exact Or.inl ⟨a, o, by rwa [hsplit]⟩
    · have hpair : [.respond p a] ++ [.invoke q o] = early ++ [Event.invoke r op] := hsplit
      obtain ⟨rfl, hlast⟩ := List.append_inj' hpair rfl
      simp only [List.cons.injEq, Event.invoke.injEq, and_true] at hlast
      exact Or.inr ⟨hlast.1, a, List.singleton_sublist.mp hearly⟩
  · intro h
    rcases h with ⟨a, o, hsub⟩ | ⟨rfl, a, hmem⟩
    · exact ⟨a, o, hsub.trans (List.sublist_append_left _ _)⟩
    · exact ⟨a, op,
        (List.singleton_sublist.mpr hmem).append (List.Sublist.refl [Event.invoke q op])⟩

/-- What precedes a call has responded. -/
theorem Precedes.responded {history : List (Event P O A)} {p q : P} (h : Precedes history p q) :
    ∃ answer, .respond p answer ∈ history := by
  obtain ⟨a, o, hsub⟩ := h
  exact ⟨a, hsub.subset List.mem_cons_self⟩

theorem Precedes.invoked {history : List (Event P O A)} {p q : P} (h : Precedes history p q) :
    ∃ op, .invoke q op ∈ history := by
  obtain ⟨a, o, hsub⟩ := h
  exact ⟨o, hsub.subset (List.mem_cons_of_mem _ List.mem_cons_self)⟩

/-! ## Orders along a history -/

namespace Linearizes

variable {init : S} {history : List (Event P O A)} {order : List (Entry P O A)}

theorem nil (init : S) : Linearizes apply init ([] : List (Event P O A)) [] where
  nodup := List.nodup_nil
  invoked _ he := absurd he List.not_mem_nil
  responded _ _ h := absurd h List.not_mem_nil
  legal := trivial
  realTime _ _ _ hq := absurd hq List.not_mem_nil

/-- A call that has responded stands in the order. -/
theorem mem_of_precedes (h : Linearizes apply init history order) {p q : P}
    (hbefore : Precedes history p q) : p ∈ calls order := by
  obtain ⟨answer, hresponse⟩ := hbefore.responded
  obtain ⟨op, hmem⟩ := h.responded p answer hresponse
  exact mem_calls.mpr ⟨op, answer, hmem⟩

/-- A call stands at one place. -/
theorem eq_of_call (h : Linearizes apply init history order) {e e' : Entry P O A}
    (he : e ∈ order) (he' : e' ∈ order) (hcall : e.call = e'.call) : e = e' :=
  List.inj_on_of_nodup_map h.nodup he he' hcall

/-- A new call does not stand in the order yet. -/
theorem invoke (h : Linearizes apply init history order) {r : P} {op : O}
    (hnew : r ∉ calls order) : Linearizes apply init (history ++ [.invoke r op]) order where
  nodup := h.nodup
  invoked e he := List.mem_append_left _ (h.invoked e he)
  responded p answer hmem := by
    rcases List.mem_append.mp hmem with hold | hlast
    · exact h.responded p answer hold
    · exact absurd (List.mem_singleton.mp hlast) (by simp)
  legal := h.legal
  realTime p q hbefore hq := by
    rcases precedes_invoke.mp hbefore with hold | ⟨rfl, _⟩
    · exact h.realTime p q hold hq
    · exact absurd hq hnew

/-- A call that stands in the order responds with its answer. -/
theorem respond (h : Linearizes apply init history order) {e : Entry P O A} (he : e ∈ order) :
    Linearizes apply init (history ++ [.respond e.call e.answer]) order where
  nodup := h.nodup
  invoked e he := List.mem_append_left _ (h.invoked e he)
  responded p answer hmem := by
    rcases List.mem_append.mp hmem with hold | hlast
    · exact h.responded p answer hold
    · obtain ⟨rfl, rfl⟩ := Event.respond.inj (List.mem_singleton.mp hlast)
      exact ⟨e.op, he⟩
  legal := h.legal
  realTime p q hbefore hq := h.realTime p q (precedes_respond.mp hbefore) hq

/-- A call takes effect between `early` and `late`. -/
theorem insert {early late : List (Entry P O A)}
    (h : Linearizes apply init history (early ++ late)) {e : Entry P O A}
    (hinvoked : .invoke e.call e.op ∈ history) (hnew : e.call ∉ calls (early ++ late))
    (hanswer : (apply (after apply init early) e.op).1 = e.answer)
    (hlate : Legal apply (apply (after apply init early) e.op).2 late)
    (hbefore : ∀ p, Precedes history p e.call → p ∈ calls early) :
    Linearizes apply init history (early ++ e :: late) where
  nodup := by
    have hperm : (calls (early ++ e :: late)).Perm (e.call :: calls (early ++ late)) :=
      List.Perm.map Entry.call List.perm_middle
    exact hperm.nodup_iff.mpr (List.nodup_cons.mpr ⟨hnew, h.nodup⟩)
  invoked e' he' := by
    rcases List.mem_append.mp he' with hearly | hrest
    · exact h.invoked e' (List.mem_append_left _ hearly)
    · rcases List.mem_cons.mp hrest with rfl | hmem
      · exact hinvoked
      · exact h.invoked e' (List.mem_append_right _ hmem)
  responded p answer hmem := by
    obtain ⟨op, hold⟩ := h.responded p answer hmem
    refine ⟨op, ?_⟩
    rcases List.mem_append.mp hold with hearly | hrest
    · exact List.mem_append_left _ hearly
    · exact List.mem_append_right _ (List.mem_cons_of_mem _ hrest)
  legal := legal_append.mpr ⟨(legal_append.mp h.legal).1, hanswer, hlate⟩
  realTime p q hprecedes hq := by
    rw [calls_append] at hq ⊢
    have hgrown : calls (early ++ late) <+ calls early ++ calls (e :: late) := by
      rw [calls_append]
      exact (List.Sublist.refl _).append (List.sublist_cons_self _ _)
    by_cases hself : q = e.call
    · subst hself
      have hearly := List.singleton_sublist.mpr (hbefore p hprecedes)
      exact hearly.append (List.singleton_sublist.mpr List.mem_cons_self)
    · refine (h.realTime p q hprecedes ?_).trans hgrown
      rw [calls_append]
      rcases List.mem_append.mp hq with hmem | hmem
      · exact List.mem_append_left _ hmem
      · exact List.mem_append_right _ (List.mem_of_ne_of_mem hself hmem)

/-- A call takes effect now. -/
theorem commit (h : Linearizes apply init history order) {p : P} {op : O}
    (hinvoked : .invoke p op ∈ history) (hnew : p ∉ calls order) :
    Linearizes apply init history
      (order ++ [⟨p, op, (apply (after apply init order) op).1⟩]) := by
  have hnil : Linearizes apply init history (order ++ []) := by rwa [List.append_nil]
  refine hnil.insert hinvoked ?_ rfl trivial ?_
  · rwa [List.append_nil]
  · exact fun q hprecedes => h.mem_of_precedes hprecedes

theorem map {T : Type*} {apply' : T → O → A × T} {f : T → S}
    (h : ∀ t op, apply (f t) op = ((apply' t op).1, f (apply' t op).2)) {t : T}
    (hlinear : Linearizes apply (f t) history order) : Linearizes apply' t history order where
  nodup := hlinear.nodup
  invoked := hlinear.invoked
  responded := hlinear.responded
  legal := (legal_map h t order).1.mp hlinear.legal
  realTime := hlinear.realTime

/-- Two calls, one after the other.  A call that the order puts between them overlaps
one of them or lies between them in time. -/
theorem between (h : Linearizes apply init history order) {p q : P}
    (hbefore : Precedes history p q) (hq : q ∈ calls order) :
    ∃ early first middle second late, order = early ++ first :: (middle ++ second :: late) ∧
      first.call = p ∧ second.call = q ∧
      ∀ e ∈ middle, ¬ Precedes history e.call p ∧ ¬ Precedes history q e.call := by
  obtain ⟨pair, hpair, hcalls⟩ := List.sublist_map_iff.mp (h.realTime p q hbefore hq)
  obtain ⟨first, rest, rfl, rfl, hrest⟩ := List.map_eq_cons_iff.mp hcalls.symm
  obtain ⟨second, nothing, rfl, rfl, hnothing⟩ := List.map_eq_cons_iff.mp hrest
  obtain rfl := List.map_eq_nil_iff.mp hnothing
  obtain ⟨early, middle, late, rfl⟩ := exists_split_of_pair hpair
  refine ⟨early, first, middle, second, late, rfl, rfl, rfl, ?_⟩
  intro e he
  have hinside : [first.call, e.call] <+ calls (early ++ first :: (middle ++ second :: late)) ∧
      [e.call, second.call] <+ calls (early ++ first :: (middle ++ second :: late)) := by
    have hmiddle := List.singleton_sublist.mpr he
    have htail : [e] <+ middle ++ second :: late := hmiddle.trans (List.sublist_append_left _ _)
    have hlast : [second] <+ second :: late := List.singleton_sublist.mpr List.mem_cons_self
    constructor
    · exact List.Sublist.map Entry.call
        ((htail.cons_cons first).trans (List.sublist_append_right early _))
    · exact List.Sublist.map Entry.call
        (((hmiddle.append hlast).cons first).trans (List.sublist_append_right early _))
  refine ⟨fun hprecedes => ?_, fun hprecedes => ?_⟩
  · have hreal := h.realTime _ _ hprecedes (hinside.1.subset List.mem_cons_self)
    exact pair_asymm h.nodup hinside.1 hreal
  · have hreal := h.realTime _ _ hprecedes (hinside.2.subset List.mem_cons_self)
    exact pair_asymm h.nodup hinside.2 hreal

end Linearizes

end Spec

end Linearizability
