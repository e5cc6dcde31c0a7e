import Mathlib.Data.List.Infix

/-!
# Words in a text with separators

A search for a word in a text that is put together from parts: which part an
occurrence of the word lies in.

* A word without the separator lies on one side of it: `infix_append_sep`.
* A word that ends with the separator may use the one between the parts:
  `closed_infix_append_sep`.
* `labelled_infix_iff` is for a part behind a label, and a word that begins
  with the label: it stands at the label, or inside the part.
-/

namespace Labelled

variable {α : Type*} {sep : α} {word : List α}

/-! ## Words without the separator -/

theorem prefix_append_sep (hword : sep ∉ word) (a b : List α) :
    word <+: a ++ sep :: b ↔ word <+: a := by
  induction a generalizing word with
  | nil =>
    cases word with
    | nil => simp
    | cons x word =>
      have hx : x ≠ sep := fun h => hword (h ▸ List.mem_cons_self)
      simp [hx]
  | cons y a ih =>
    cases word with
    | nil => simp
    | cons x word =>
      rw [List.cons_append, List.cons_prefix_cons, List.cons_prefix_cons,
        ih fun h => hword (List.mem_cons_of_mem x h)]

theorem infix_append_sep (hword : sep ∉ word) (a b : List α) :
    word <:+: a ++ sep :: b ↔ word <:+: a ∨ word <:+: b := by
  induction a with
  | nil =>
    have hhead : word <+: sep :: b ↔ word <+: [] := prefix_append_sep hword [] b
    rw [List.nil_append, List.infix_cons_iff, hhead]
    simp
  | cons y a ih =>
    have hhead : word <+: y :: (a ++ sep :: b) ↔ word <+: y :: a :=
      prefix_append_sep hword (y :: a) b
    rw [List.cons_append, List.infix_cons_iff, List.infix_cons_iff, ih, hhead]
    exact or_assoc.symm

/-! ## Words that end with the separator -/

/-- Such a word at the start of a part that is closed is the part itself, or
stands at the start of it. -/
theorem closed_prefix_iff (hword : sep ∉ word) (a b : List α) :
    word ++ [sep] <+: a ++ sep :: b ↔ a = word ∨ word ++ [sep] <+: a := by
  induction a generalizing word with
  | nil =>
    cases word with
    | nil => simp
    | cons x word =>
      have hx : x ≠ sep := fun h => hword (h ▸ List.mem_cons_self)
      simp [hx]
  | cons y a ih =>
    cases word with
    | nil => simp
    | cons x word =>
      have htail := ih fun h => hword (List.mem_cons_of_mem x h)
      simp only [List.cons_append, List.cons_prefix_cons, List.cons.injEq, htail]
      rw [eq_comm, ← and_or_left]

theorem closed_infix_append_sep (hword : sep ∉ word) (a b : List α) :
    word ++ [sep] <:+: a ++ sep :: b ↔
      word ++ [sep] <:+: a ++ [sep] ∨ word ++ [sep] <:+: b := by
  induction a with
  | nil =>
    have hhead := closed_prefix_iff hword [] b
    have hclosed := closed_prefix_iff hword [] []
    simp only [List.nil_append] at hhead hclosed ⊢
    rw [List.infix_cons_iff, hhead, List.infix_cons_iff, hclosed]
    simp
  | cons y a ih =>
    have hhead := (closed_prefix_iff hword (y :: a) b).trans
      (closed_prefix_iff hword (y :: a) []).symm
    simp only [List.cons_append] at hhead ⊢
    rw [List.infix_cons_iff, hhead, ih, List.infix_cons_iff]
    exact or_assoc.symm

/-! ## Labels -/

/-- No occurrence begins in a text without the first letter of the word. -/
theorem infix_append_of_notMem {x : α} {skipped : List α} (hx : x ∉ skipped) (rest : List α) :
    x :: word <:+: skipped ++ rest ↔ x :: word <:+: rest := by
  induction skipped with
  | nil => rfl
  | cons y skipped ih =>
    have hy : x ≠ y := fun h => hx (h ▸ List.mem_cons_self)
    rw [List.cons_append, List.infix_cons_iff, List.cons_prefix_cons,
      ih fun h => hx (List.mem_cons_of_mem y h)]
    simp [hy]

/-- A word behind the label of the part stands at the label, or inside the
part. -/
theorem labelled_infix_iff {x : α} {label : List α} (hx : x ∉ label) (part : List α) :
    x :: label ++ word <:+: x :: label ++ part ↔
      word <+: part ∨ x :: label ++ word <:+: part := by
  have hinside : x :: (label ++ word) <:+: label ++ part ↔ x :: (label ++ word) <:+: part :=
    infix_append_of_notMem hx part
  have hstart : x :: (label ++ word) <+: x :: (label ++ part) ↔ word <+: part := by
    rw [List.cons_prefix_cons, List.prefix_append_right_inj]
    simp
  rw [List.cons_append, List.cons_append, List.infix_cons_iff, hstart, hinside]

end Labelled
