import Mathlib.Data.List.Basic

/-!
# Guarded transition systems

A system is an executable step function: `step s a` is `some t` when the
label `a` is enabled in `s`, and `none` otherwise.  One function serves to
replay a concrete run and to reason about all runs.

* `run` takes a list of labels from a state.
* `Guarded` says that every step of a run meets a condition in the state
  that it is taken from.  `Always` says that every state of a run meets a
  predicate.
* `invariant_of_guarded` is the induction that every safety proof uses: a
  predicate that each guarded step keeps holds at the end of a guarded run.
  `invariant_of_run` is the case without a condition.
* `always_iff_guarded` is the exact form.  It applies when each step outside
  the condition breaks the predicate at once.  `always_iff_guarded_on` is the
  same for runs whose labels are restricted.
-/

namespace Transition

variable {σ ι : Type*} {step : σ → ι → Option σ}

/-- Take the labels in turn from `s`.  The answer is `none` as soon as one
label is not enabled. -/
def run (step : σ → ι → Option σ) (s : σ) : List ι → Option σ
  | [] => some s
  | a :: rest => (step s a).bind fun t => run step t rest

@[simp] theorem run_nil (s : σ) : run step s [] = some s := rfl

theorem run_cons (s : σ) (a : ι) (rest : List ι) :
    run step s (a :: rest) = (step s a).bind fun t => run step t rest := rfl

/-- A run of `a :: rest` is a step of `a` and a run of `rest`. -/
theorem run_cons_eq_some {s u : σ} {a : ι} {rest : List ι} :
    run step s (a :: rest) = some u ↔
      ∃ t, step s a = some t ∧ run step t rest = some u := by
  rw [run_cons, Option.bind_eq_some_iff]

theorem run_append (s : σ) (first rest : List ι) :
    run step s (first ++ rest) = (run step s first).bind fun t => run step t rest := by
  induction first generalizing s with
  | nil => rfl
  | cons a first ih =>
    rw [List.cons_append, run_cons, run_cons, Option.bind_assoc]
    exact congrArg _ (funext ih)

/-- A run that ends with `a` is a run and a step of `a`. -/
theorem run_concat_eq_some {s u : σ} {a : ι} {first : List ι} :
    run step s (first ++ [a]) = some u ↔ ∃ t, run step s first = some t ∧ step t a = some u := by
  rw [run_append, Option.bind_eq_some_iff]
  refine exists_congr fun t => and_congr_right fun _ => ?_
  rw [run_cons, Option.bind_eq_some_iff]
  simp

/-- Every step that the list takes from `s` meets `ok` in the state that it
is taken from. -/
def Guarded (step : σ → ι → Option σ) (ok : σ → ι → Prop) (s : σ) :
    List ι → Prop
  | [] => True
  | a :: rest => ok s a ∧ ∀ t, step s a = some t → Guarded step ok t rest

@[simp] theorem guarded_nil (ok : σ → ι → Prop) (s : σ) :
    Guarded step ok s [] := trivial

/-- The head of a guarded run, and its tail after the step. -/
theorem guarded_cons {ok : σ → ι → Prop} {s t : σ} {a : ι} {rest : List ι}
    (hstep : step s a = some t) :
    Guarded step ok s (a :: rest) ↔ ok s a ∧ Guarded step ok t rest := by
  constructor
  · rintro ⟨hok, htail⟩
    exact ⟨hok, htail t hstep⟩
  · rintro ⟨hok, htail⟩
    refine ⟨hok, fun t' ht' => ?_⟩
    obtain rfl : t = t' := Option.some.inj (hstep.symm.trans ht')
    exact htail

/-- Two conditions at once. -/
theorem guarded_and {ok ok' : σ → ι → Prop} {s : σ} {labels : List ι} :
    Guarded step (fun s a => ok s a ∧ ok' s a) s labels ↔
      Guarded step ok s labels ∧ Guarded step ok' s labels := by
  induction labels generalizing s with
  | nil => exact (and_self_iff).symm
  | cons a rest ih =>
    constructor
    · rintro ⟨⟨hok, hok'⟩, htail⟩
      exact ⟨⟨hok, fun t ht => (ih.mp (htail t ht)).1⟩, hok', fun t ht => (ih.mp (htail t ht)).2⟩
    · rintro ⟨⟨hok, htail⟩, hok', htail'⟩
      exact ⟨⟨hok, hok'⟩, fun t ht => ih.mpr ⟨htail t ht, htail' t ht⟩⟩

/-- Two conditions that agree in every state of an invariant guard the same
runs.  The labels are restricted to those of `A`. -/
theorem guarded_congr_on {I : σ → Prop} {ok ok' : σ → ι → Prop} {A : ι → Prop}
    (hkeep : ∀ s a t, A a → I s → step s a = some t → I t)
    (hiff : ∀ s a, A a → I s → (ok s a ↔ ok' s a)) {s : σ} {labels : List ι}
    (hA : ∀ a ∈ labels, A a) (hs : I s) :
    Guarded step ok s labels ↔ Guarded step ok' s labels := by
  induction labels generalizing s with
  | nil => rfl
  | cons a rest ih =>
    have ha : A a := hA a List.mem_cons_self
    have hrest : ∀ t, step s a = some t →
        (Guarded step ok t rest ↔ Guarded step ok' t rest) :=
      fun t ht => ih (fun b hb => hA b (List.mem_cons_of_mem _ hb)) (hkeep s a t ha hs ht)
    show (ok s a ∧ _) ↔ (ok' s a ∧ _)
    rw [hiff s a ha hs]
    exact and_congr_right fun _ => forall_congr' fun t => forall_congr' (hrest t)

theorem guarded_congr {I : σ → Prop} {ok ok' : σ → ι → Prop}
    (hkeep : ∀ s a t, I s → step s a = some t → I t)
    (hiff : ∀ s a, I s → (ok s a ↔ ok' s a)) {s : σ} (hs : I s) (labels : List ι) :
    Guarded step ok s labels ↔ Guarded step ok' s labels :=
  guarded_congr_on (A := fun _ => True) (fun s a t _ => hkeep s a t) (fun s a _ => hiff s a)
    (fun _ _ => trivial) hs

/-- Every state that the list reaches from `s`, `s` itself included, meets
`P`. -/
def Always (step : σ → ι → Option σ) (P : σ → Prop) (s : σ) (labels : List ι) :
    Prop :=
  ∀ first rest t, labels = first ++ rest → run step s first = some t → P t

/-- A predicate that every guarded step keeps holds at the end of a guarded
run. -/
theorem invariant_of_guarded {I : σ → Prop} {ok : σ → ι → Prop}
    (hkeep : ∀ s a t, I s → ok s a → step s a = some t → I t)
    {s u : σ} {labels : List ι} (hs : I s) (hok : Guarded step ok s labels)
    (hrun : run step s labels = some u) : I u := by
  induction labels generalizing s with
  | nil =>
    obtain rfl : s = u := Option.some.inj hrun
    exact hs
  | cons a rest ih =>
    obtain ⟨t, hstep, hrest⟩ := run_cons_eq_some.mp hrun
    obtain ⟨ha, hok'⟩ := (guarded_cons hstep).mp hok
    exact ih (hkeep s a t hs ha hstep) hok' hrest

/-- A predicate that every step keeps holds at the end of every run. -/
theorem invariant_of_run {I : σ → Prop}
    (hkeep : ∀ s a t, I s → step s a = some t → I t)
    {s u : σ} {labels : List ι} (hs : I s)
    (hrun : run step s labels = some u) : I u := by
  induction labels generalizing s with
  | nil =>
    obtain rfl : s = u := Option.some.inj hrun
    exact hs
  | cons a rest ih =>
    obtain ⟨t, hstep, hrest⟩ := run_cons_eq_some.mp hrun
    exact ih (hkeep s a t hs hstep) hrest

/-- A predicate that every step under a label of the run keeps holds at its end. -/
theorem invariant_of_run_mem {I : σ → Prop} {labels : List ι}
    (hkeep : ∀ s a t, a ∈ labels → I s → step s a = some t → I t)
    {s u : σ} (hs : I s) (hrun : run step s labels = some u) : I u := by
  induction labels generalizing s with
  | nil =>
    obtain rfl : s = u := Option.some.inj hrun
    exact hs
  | cons a rest ih =>
    obtain ⟨t, hstep, hrest⟩ := run_cons_eq_some.mp hrun
    exact ih (fun s b t hb => hkeep s b t (List.mem_cons_of_mem a hb))
      (hkeep s a t List.mem_cons_self hs hstep) hrest

/-- A guarded run stays guarded when it is cut short. -/
theorem Guarded.of_append {ok : σ → ι → Prop} {s : σ} {first rest : List ι}
    (h : Guarded step ok s (first ++ rest)) : Guarded step ok s first := by
  induction first generalizing s with
  | nil => trivial
  | cons a first ih =>
    obtain ⟨hok, htail⟩ := h
    exact ⟨hok, fun t ht => ih (htail t ht)⟩

/-- The last step of a guarded run. -/
theorem Guarded.last {ok : σ → ι → Prop} {s t : σ} {first : List ι} {a : ι}
    (h : Guarded step ok s (first ++ [a])) (hrun : run step s first = some t) : ok t a := by
  induction first generalizing s with
  | nil =>
    obtain rfl := Option.some.inj hrun
    exact h.1
  | cons b first ih =>
    obtain ⟨u, hstep, hrest⟩ := run_cons_eq_some.mp hrun
    exact ih ((guarded_cons hstep).mp h).2 hrest

/-- A predicate that every guarded step keeps holds in every state of a
guarded run. -/
theorem always_of_guarded {I P : σ → Prop} {ok : σ → ι → Prop}
    (hkeep : ∀ s a t, I s → ok s a → step s a = some t → I t)
    (hP : ∀ s, I s → P s) {s : σ} {labels : List ι} (hs : I s)
    (hok : Guarded step ok s labels) : Always step P s labels := by
  intro first rest t hlabels hrun
  subst hlabels
  exact hP t (invariant_of_guarded hkeep hs hok.of_append hrun)

theorem Always.head {P : σ → Prop} {s : σ} {labels : List ι}
    (h : Always step P s labels) : P s :=
  h [] labels s rfl rfl

theorem Always.tail {P : σ → Prop} {s t : σ} {a : ι} {rest : List ι}
    (h : Always step P s (a :: rest)) (hstep : step s a = some t) :
    Always step P t rest := by
  intro first rest' u hrest hrun
  refine h (a :: first) rest' u (by rw [hrest, List.cons_append]) ?_
  exact run_cons_eq_some.mpr ⟨t, hstep, hrun⟩

/-- A condition on labels alone joins the condition of a guarded run. -/
theorem Guarded.and_of_forall {ok : σ → ι → Prop} {A : ι → Prop} {s : σ} {labels : List ι}
    (h : Guarded step ok s labels) (hA : ∀ a ∈ labels, A a) :
    Guarded step (fun s a => A a ∧ ok s a) s labels := by
  induction labels generalizing s with
  | nil => trivial
  | cons a rest ih =>
    obtain ⟨hok, htail⟩ := h
    exact ⟨⟨hA a List.mem_cons_self, hok⟩, fun t ht =>
      ih (htail t ht) fun b hb => hA b (List.mem_cons_of_mem _ hb)⟩

/-- When each guarded step keeps the invariant `I`, and each step outside
the condition breaks `P` at once, a run is guarded exactly when `P` holds in
all of its states.  The labels are restricted to those of `A`. -/
theorem always_iff_guarded_on {I P : σ → Prop} {ok : σ → ι → Prop} {A : ι → Prop}
    (hkeep : ∀ s a t, A a → I s → ok s a → step s a = some t → I t)
    (hP : ∀ s, I s → P s)
    (hbreak : ∀ s a t, A a → I s → ¬ ok s a → step s a = some t → ¬ P t)
    {s u : σ} {labels : List ι} (hA : ∀ a ∈ labels, A a) (hs : I s)
    (hrun : run step s labels = some u) :
    Always step P s labels ↔ Guarded step ok s labels := by
  constructor
  · induction labels generalizing s with
    | nil => exact fun _ => trivial
    | cons a rest ih =>
      intro halways
      obtain ⟨t, hstep, hrest⟩ := run_cons_eq_some.mp hrun
      have ha : A a := hA a List.mem_cons_self
      have hok : ok s a := by
        by_contra hnot
        exact hbreak s a t ha hs hnot hstep (halways.tail hstep).head
      rw [guarded_cons hstep]
      exact ⟨hok, ih (fun b hb => hA b (List.mem_cons_of_mem _ hb))
        (hkeep s a t ha hs hok hstep) hrest (halways.tail hstep)⟩
  · intro hguarded
    exact always_of_guarded (fun s a t hIs hok => hkeep s a t hok.1 hIs hok.2) hP hs
      (hguarded.and_of_forall hA)

/-- The exact form for all labels. -/
theorem always_iff_guarded {I P : σ → Prop} {ok : σ → ι → Prop}
    (hkeep : ∀ s a t, I s → ok s a → step s a = some t → I t)
    (hP : ∀ s, I s → P s)
    (hbreak : ∀ s a t, I s → ¬ ok s a → step s a = some t → ¬ P t)
    {s u : σ} {labels : List ι} (hs : I s)
    (hrun : run step s labels = some u) :
    Always step P s labels ↔ Guarded step ok s labels :=
  always_iff_guarded_on (A := fun _ => True) (fun s a t _ => hkeep s a t) hP
    (fun s a t _ => hbreak s a t) (fun _ _ => trivial) hs hrun

/-! ## Labels that stand for other labels -/

section Map

variable {κ : Type*} (f : κ → ι)

theorem run_map (s : σ) (labels : List κ) :
    run (fun s a => step s (f a)) s labels = run step s (labels.map f) := by
  induction labels generalizing s with
  | nil => rfl
  | cons a rest ih =>
    rw [List.map_cons, run_cons, run_cons]
    exact congrArg _ (funext ih)

theorem always_map {P : σ → Prop} {s : σ} {labels : List κ} :
    Always (fun s a => step s (f a)) P s labels ↔ Always step P s (labels.map f) := by
  constructor
  · intro h first rest t hsplit hrun
    obtain ⟨first', rest', rfl, rfl, rfl⟩ := List.map_eq_append_iff.mp hsplit
    exact h first' rest' t rfl ((run_map f s first').trans hrun)
  · intro h first rest t hsplit hrun
    refine h (first.map f) (rest.map f) t ?_ ((run_map f s first).symm.trans hrun)
    rw [hsplit, List.map_append]

theorem guarded_map {ok : σ → ι → Prop} {s : σ} {labels : List κ} :
    Guarded (fun s a => step s (f a)) (fun s a => ok s (f a)) s labels ↔
      Guarded step ok s (labels.map f) := by
  induction labels generalizing s with
  | nil => rfl
  | cons a rest ih =>
    exact and_congr_right fun _ => forall_congr' fun t => forall_congr' fun _ => ih

end Map

end Transition
