import Mathlib.Data.List.Basic

/-!
# Services that answer each request

A service is a step function `serve s i`, which gives the answer to the request `i` in the
state `s` and the state after it.  It answers every request.

* `serveAll` answers a list of requests in turn.
* `invariant_serveAll` is the induction for invariants.
* `Filters` relates two services, where the second one is not sent some of the requests.
  `Filters.forall₂_serveAll` says that it gives the other requests related answers, and
  `Filters.serveAll` that these are the same where related answers are.
* `view_serveAll` is for a part of the state that some of the requests do not change.
-/

namespace Service

variable {σ τ ι ο : Type*}

/-- A request with its answer. -/
@[ext] structure Exchange (ι ο : Type*) where
  request : ι
  answer : ο
  deriving DecidableEq

/-- Answer the requests in turn. -/
def serveAll (serve : σ → ι → ο × σ) (s : σ) : List ι → List (Exchange ι ο) × σ
  | [] => ([], s)
  | i :: rest =>
    let answered := serve s i
    let more := serveAll serve answered.2 rest
    (⟨i, answered.1⟩ :: more.1, more.2)

variable {serve : σ → ι → ο × σ} {serve' : τ → ι → ο × τ}

@[simp] theorem serveAll_nil (s : σ) : serveAll serve s [] = ([], s) := rfl

theorem serveAll_cons (s : σ) (i : ι) (rest : List ι) :
    serveAll serve s (i :: rest) =
      (⟨i, (serve s i).1⟩ :: (serveAll serve (serve s i).2 rest).1,
        (serveAll serve (serve s i).2 rest).2) := rfl

theorem map_request_serveAll (s : σ) (requests : List ι) :
    (serveAll serve s requests).1.map Exchange.request = requests := by
  induction requests generalizing s with
  | nil => rfl
  | cons i rest ih => exact congrArg (i :: ·) (ih _)

/-- A predicate that every answer keeps holds at the end, and each exchange starts from a state
in which it holds. -/
theorem invariant_serveAll (I : σ → Prop) {requests : List ι}
    (hstep : ∀ s, ∀ i ∈ requests, I s → I (serve s i).2) {s : σ} (hs : I s) :
    I (serveAll serve s requests).2 ∧
      ∀ exchange ∈ (serveAll serve s requests).1, ∃ t, I t ∧
        exchange.answer = (serve t exchange.request).1 := by
  induction requests generalizing s with
  | nil => exact ⟨hs, fun exchange hmem => absurd hmem List.not_mem_nil⟩
  | cons i rest ih =>
    obtain ⟨hlast, hall⟩ := ih (fun t j hj => hstep t j (List.mem_cons_of_mem _ hj))
      (hstep s i List.mem_cons_self hs)
    refine ⟨hlast, ?_⟩
    intro exchange hmem
    rcases List.mem_cons.mp hmem with rfl | hmem
    · exact ⟨s, hs, rfl⟩
    · exact hall exchange hmem

/-! ## Leaving requests out -/

/-- The same request, with answers that are related. -/
structure Exchange.Related {ο' : Type*} (A : ο' → ο → Prop) (e' : Exchange ι ο')
    (e : Exchange ι ο) : Prop where
  request : e'.request = e.request
  answer : A e'.answer e.answer

theorem eq_of_forall₂_related {es' es : List (Exchange ι ο)}
    (h : List.Forall₂ (Exchange.Related Eq) es' es) : es' = es := by
  induction h with
  | nil => rfl
  | cons hrelated _ ih => rw [Exchange.ext hrelated.request hrelated.answer, ih]

/-- The services are related by `R`, and keep being so when the second one is not sent the
requests whose exchange is not kept.  To the others it gives an answer related by `A`. -/
structure Filters {ο' : Type*} (serve : σ → ι → ο × σ) (serve' : τ → ι → ο' × τ)
    (sent : ι → Prop) (keep : Exchange ι ο → Bool) (A : ο' → ο → Prop) (R : σ → τ → Prop) :
    Prop where
  kept : ∀ {s t i}, sent i → R s t → keep ⟨i, (serve s i).1⟩ = true →
    A (serve' t i).1 (serve s i).1 ∧ R (serve s i).2 (serve' t i).2
  dropped : ∀ {s t i}, sent i → R s t → keep ⟨i, (serve s i).1⟩ = false → R (serve s i).2 t

theorem map_request_filter (s : σ) (requests : List ι) (p : ι → Bool) :
    ((serveAll serve s requests).1.filter fun exchange => p exchange.request).map
      Exchange.request = requests.filter p := by
  conv_rhs => rw [← @map_request_serveAll σ ι ο serve s requests, List.filter_map]
  rfl

namespace Filters

variable {sent : ι → Prop} {keep : Exchange ι ο → Bool} {p : ι → Bool} {R : σ → τ → Prop}

section Related

variable {ο' : Type*} {serve' : τ → ι → ο' × τ} {A : ο' → ο → Prop}

/-- The second service gives the requests that are kept answers that are related to those of
the first one. -/
theorem forall₂_serveAll (h : Filters serve serve' sent keep A R) {requests : List ι}
    (hsent : ∀ i ∈ requests, sent i) {s : σ} {t : τ} (hstart : R s t) :
    List.Forall₂ (Exchange.Related A)
      (Service.serveAll serve' t
        (((Service.serveAll serve s requests).1.filter keep).map Exchange.request)).1
      ((Service.serveAll serve s requests).1.filter keep) ∧
    R (Service.serveAll serve s requests).2
      (Service.serveAll serve' t
        (((Service.serveAll serve s requests).1.filter keep).map Exchange.request)).2 := by
  induction requests generalizing s t with
  | nil => exact ⟨.nil, hstart⟩
  | cons i rest ih =>
    have hi := hsent i List.mem_cons_self
    have hrest : ∀ j ∈ rest, sent j := fun j hj => hsent j (List.mem_cons_of_mem _ hj)
    rw [serveAll_cons]
    cases hkeep : keep ⟨i, (serve s i).1⟩ with
    | true =>
      obtain ⟨hanswer, hnext⟩ := h.kept hi hstart hkeep
      obtain ⟨hanswers, hlast⟩ := ih hrest hnext
      rw [List.filter_cons_of_pos hkeep, List.map_cons, serveAll_cons]
      exact ⟨.cons ⟨rfl, hanswer⟩ hanswers, hlast⟩
    | false =>
      rw [List.filter_cons_of_neg (by rw [hkeep]; exact Bool.false_ne_true)]
      exact ih hrest (h.dropped hi hstart hkeep)

/-- The requests that are kept may be told by themselves. -/
theorem forall₂_filter (h : Filters serve serve' sent (fun exchange => p exchange.request) A R)
    {requests : List ι} (hsent : ∀ i ∈ requests, sent i) {s : σ} {t : τ} (hstart : R s t) :
    List.Forall₂ (Exchange.Related A) (Service.serveAll serve' t (requests.filter p)).1
      ((Service.serveAll serve s requests).1.filter fun exchange => p exchange.request) := by
  rw [← @map_request_filter σ ι ο serve s requests p]
  exact (h.forall₂_serveAll hsent hstart).1

end Related

/-- The second service gives the requests that are kept the answers of the first one. -/
theorem serveAll (h : Filters serve serve' sent keep Eq R) {requests : List ι}
    (hsent : ∀ i ∈ requests, sent i) {s : σ} {t : τ} (hstart : R s t) :
    (Service.serveAll serve' t
        (((Service.serveAll serve s requests).1.filter keep).map Exchange.request)).1 =
      (Service.serveAll serve s requests).1.filter keep ∧
    R (Service.serveAll serve s requests).2
      (Service.serveAll serve' t
        (((Service.serveAll serve s requests).1.filter keep).map Exchange.request)).2 :=
  (h.forall₂_serveAll hsent hstart).imp_left eq_of_forall₂_related

theorem filter_serveAll (h : Filters serve serve' sent (fun exchange => p exchange.request) Eq R)
    {requests : List ι} (hsent : ∀ i ∈ requests, sent i) {s : σ} {t : τ} (hstart : R s t) :
    (Service.serveAll serve' t (requests.filter p)).1 =
      (Service.serveAll serve s requests).1.filter fun exchange => p exchange.request :=
  eq_of_forall₂_related (h.forall₂_filter hsent hstart)

end Filters

/-- A view of the state that changes by `effect` on the exchanges that are kept, and not on the
others. -/
theorem view_serveAll {ν : Type*} (view : σ → ν) (keep : Exchange ι ο → Bool)
    (effect : ν → ι → ν)
    (hkept : ∀ s i, keep ⟨i, (serve s i).1⟩ = true → view (serve s i).2 = effect (view s) i)
    (hdropped : ∀ s i, keep ⟨i, (serve s i).1⟩ = false → view (serve s i).2 = view s)
    (s : σ) (requests : List ι) :
    view (serveAll serve s requests).2 =
      (((serveAll serve s requests).1.filter keep).map Exchange.request).foldl effect (view s) := by
  induction requests generalizing s with
  | nil => rfl
  | cons i rest ih =>
    rw [serveAll_cons]
    cases hkeep : keep ⟨i, (serve s i).1⟩ with
    | true =>
      rw [List.filter_cons_of_pos hkeep, List.map_cons, List.foldl_cons, ← hkept s i hkeep]
      exact ih _
    | false =>
      rw [List.filter_cons_of_neg (by rw [hkeep]; exact Bool.false_ne_true),
        ← hdropped s i hkeep]
      exact ih _

end Service
