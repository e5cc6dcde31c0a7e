import Mathlib.Data.List.Perm.Basic
import Mathlib.Data.List.Count
import Mathlib.Order.Lattice

/-!
# Stable orders

`Ordered key l sorted` says that `sorted` has the elements of `l` by descending
key, and those of one key in the order in which `l` has them.

There is one such list for each `l` (`Ordered.unique`), and a stable sort finds
it (`ordered_sort`).  `Ordered.snoc_sort` is the step of a list that is sorted
again after each push: sorting at every step is sorting once.
-/

namespace StableOrder

variable {α κ : Type*} [LinearOrder κ] {key : α → κ}

/-- The elements with a given key. -/
def ofKey (key : α → κ) (k : κ) (l : List α) : List α := l.filter fun a => key a = k

structure Ordered (key : α → κ) (l sorted : List α) : Prop where
  descending : sorted.Pairwise fun a b => key b ≤ key a
  ties : ∀ k, ofKey key k sorted = ofKey key k l

/-- A stable sort by descending key. -/
def sort (key : α → κ) (l : List α) : List α :=
  l.mergeSort fun a b => decide (key b ≤ key a)

theorem ofKey_append (k : κ) (l m : List α) :
    ofKey key k (l ++ m) = ofKey key k l ++ ofKey key k m :=
  List.filter_append l m

theorem ofKey_cons (k : κ) (a : α) (l : List α) :
    ofKey key k (a :: l) = if key a = k then a :: ofKey key k l else ofKey key k l := by
  simp [ofKey, List.filter_cons]

theorem mem_ofKey {k : κ} {a : α} {l : List α} : a ∈ ofKey key k l ↔ a ∈ l ∧ key a = k := by
  simp [ofKey]

/-! ## The order of a list -/

theorem mem_iff_of_ties {l m : List α} (hties : ∀ k, ofKey key k l = ofKey key k m) (a : α) :
    a ∈ l ↔ a ∈ m := by
  have hmem : a ∈ ofKey key (key a) l ↔ a ∈ ofKey key (key a) m := by
    rw [hties]
  simpa [mem_ofKey] using hmem

theorem Ordered.mem_iff {l sorted : List α} (h : Ordered key l sorted) (a : α) :
    a ∈ sorted ↔ a ∈ l :=
  mem_iff_of_ties h.ties a

/-- The order is one of the list's elements, each as often as in the list. -/
theorem Ordered.perm {l sorted : List α} (h : Ordered key l sorted) : sorted.Perm l := by
  classical
  refine List.perm_iff_count.mpr fun a => ?_
  have hcount : ∀ m : List α, m.count a = (ofKey key (key a) m).count a := fun m => by
    rw [ofKey, List.count_filter (by simp)]
  rw [hcount sorted, h.ties, ← hcount]

theorem eq_of_ties {l m : List α} (hl : l.Pairwise fun a b => key b ≤ key a)
    (hm : m.Pairwise fun a b => key b ≤ key a) (hties : ∀ k, ofKey key k l = ofKey key k m) :
    l = m := by
  induction l generalizing m with
  | nil =>
    have hnone : ∀ a, a ∉ m := fun a ha => List.not_mem_nil ((mem_iff_of_ties hties a).mpr ha)
    exact (List.eq_nil_iff_forall_not_mem.mpr hnone).symm
  | cons a l ih =>
    cases m with
    | nil => exact absurd ((mem_iff_of_ties hties a).mp List.mem_cons_self) List.not_mem_nil
    | cons b m =>
      rw [List.pairwise_cons] at hl hm
      have hb : key b ≤ key a := by
        rcases List.mem_cons.mp ((mem_iff_of_ties hties b).mpr List.mem_cons_self) with heq | hmem
        · exact heq ▸ le_rfl
        · exact hl.1 b hmem
      have ha : key a ≤ key b := by
        rcases List.mem_cons.mp ((mem_iff_of_ties hties a).mp List.mem_cons_self) with heq | hmem
        · exact heq ▸ le_rfl
        · exact hm.1 a hmem
      have hkey : key b = key a := le_antisymm hb ha
      -- the heads have one key, and are the first elements of it
      have hfirst := hties (key a)
      rw [ofKey_cons, ofKey_cons, if_pos rfl, if_pos hkey] at hfirst
      have hhead : a = b := (List.cons.inj hfirst).1
      subst hhead
      have htail : l = m := by
        refine ih hl.2 hm.2 fun k => ?_
        have hk := hties k
        rw [ofKey_cons, ofKey_cons] at hk
        split at hk
        · exact (List.cons.inj hk).2
        · exact hk
      rw [htail]

theorem Ordered.unique {l sorted other : List α} (h : Ordered key l sorted)
    (hother : Ordered key l other) : sorted = other :=
  eq_of_ties h.descending hother.descending fun k => (h.ties k).trans (hother.ties k).symm

theorem Ordered.filter {l sorted : List α} (h : Ordered key l sorted) (p : α → Bool) :
    Ordered key (l.filter p) (sorted.filter p) where
  descending := h.descending.filter p
  ties k := by
    have hcomm : ∀ m : List α, ofKey key k (m.filter p) = (ofKey key k m).filter p := fun m => by
      simp only [ofKey, List.filter_filter, Bool.and_comm]
    rw [hcomm, hcomm, h.ties]

/-- With distinct keys the order does not depend on the order of the list. -/
theorem Ordered.of_perm {l m sorted : List α} (h : Ordered key l sorted) (hperm : l.Perm m)
    (hkeys : (l.map key).Nodup) : Ordered key m sorted where
  descending := h.descending
  ties k := by
    have hshort : (ofKey key k l).length ≤ 1 := by
      have hcount := List.nodup_iff_count.mp hkeys k
      rw [List.count_eq_countP, List.countP_map, List.countP_eq_length_filter] at hcount
      simpa [ofKey, Function.comp_def, beq_eq_decide] using hcount
    have hgroup : (ofKey key k l).Perm (ofKey key k m) := hperm.filter _
    rw [h.ties]
    match hlist : ofKey key k l with
    | [] => exact (List.perm_nil.mp (hlist ▸ hgroup).symm).symm
    | [a] => exact (List.perm_singleton.mp (hlist ▸ hgroup).symm).symm
    | _ :: _ :: _ => simp [hlist] at hshort

/-! ## Sorting -/

theorem ordered_sort (key : α → κ) (l : List α) : Ordered key l (sort key l) where
  descending := by
    have hsorted := @List.pairwise_mergeSort _ (fun a b => decide (key b ≤ key a)) ?_ ?_ l
    · exact hsorted.imp fun h => of_decide_eq_true h
    · intro a b c hab hbc
      exact decide_eq_true (le_trans (of_decide_eq_true hbc) (of_decide_eq_true hab))
    · intro a b
      simpa using le_total (key b) (key a)
  ties k := by
    -- the elements of one key are sorted as they stand, and stay a sublist
    have hsub : (ofKey key k l).Sublist (sort key l) := by
      refine List.sublist_mergeSort ?_ ?_ ?_ List.filter_sublist
      · intro a b c hab hbc
        exact decide_eq_true (le_trans (of_decide_eq_true hbc) (of_decide_eq_true hab))
      · intro a b
        simpa using le_total (key b) (key a)
      · refine List.pairwise_of_forall_mem_list fun a ha b hb => ?_
        rw [(mem_ofKey.mp ha).2, (mem_ofKey.mp hb).2]
        simp
    have hkept : ofKey key k (ofKey key k l) = ofKey key k l := by
      simp [ofKey]
    have hgroup : (ofKey key k l).Sublist (ofKey key k (sort key l)) :=
      hkept ▸ hsub.filter _
    have hlength : (ofKey key k (sort key l)).length = (ofKey key k l).length :=
      ((List.mergeSort_perm l _).filter _).length_eq
    exact (hgroup.eq_of_length hlength.symm).symm

/-- Push, and sort again. -/
theorem Ordered.snoc_sort {l sorted : List α} (h : Ordered key l sorted) (a : α) :
    Ordered key (l ++ [a]) (sort key (sorted ++ [a])) where
  descending := (ordered_sort key _).descending
  ties k := by
    rw [(ordered_sort key _).ties, ofKey_append, ofKey_append, h.ties]

end StableOrder
