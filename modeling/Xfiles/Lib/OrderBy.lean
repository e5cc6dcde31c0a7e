import Mathlib.Data.List.MinMax
import Mathlib.Data.List.Perm.Basic
import Mathlib.Order.Defs.LinearOrder

/-!
# The first rows in descending order

`Selected` is a result of `ORDER BY key DESC LIMIT limit`: some descending order
of the rows, cut at the limit.  Rows with one key may stand in any order, and a
negative limit is none.

`Highest` says the same without a sort: the rows of the result descend, none
that is left out is above one of them, and there are as many as the limit asks
for.  `select` is one such result.  `Selected.highest` leads from one to the other.
`Selected.of_map` reads the result through a map that keeps the order of the keys.
`Selected.of_perm` moves the rows of the table, and `Selected.forall_iff` counts
the rows above all others.
-/

namespace OrderBy

variable {Row Key : Type*} [LinearOrder Key]

/-- `LIMIT`. -/
def limited (limit : Int) (rows : List Row) : List Row :=
  if limit < 0 then rows else rows.take limit.toNat

/-- The number of rows under a limit. -/
def limitedCount (limit : Int) (count : Nat) : Nat :=
  if limit < 0 then count else min limit.toNat count

/-- `MAX(key)`. -/
def maxKey (key : Row → Key) (rows : List Row) : WithBot Key := (rows.map key).maximum

/-- A result of `ORDER BY key DESC LIMIT limit`. -/
def Selected (key : Row → Key) (limit : Int) (rows result : List Row) : Prop :=
  ∃ sorted : List Row, sorted.Perm rows ∧ sorted.Pairwise (fun a b => key b ≤ key a) ∧
    result = limited limit sorted

/-- The rows with the highest keys, as many as the limit asks for, the highest
one first. -/
structure Highest (key : Row → Key) (limit : Int) (rows result : List Row) : Prop where
  split : ∃ rest, (result ++ rest).Perm rows ∧ ∀ a ∈ result, ∀ b ∈ rest, key b ≤ key a
  descending : result.Pairwise fun a b => key b ≤ key a
  length : result.length = limitedCount limit rows.length

theorem limited_append (limit : Int) (rows : List Row) :
    ∃ rest, rows = limited limit rows ++ rest := by
  rw [limited]
  split
  · exact ⟨[], (List.append_nil rows).symm⟩
  · exact ⟨rows.drop limit.toNat, (List.take_append_drop _ _).symm⟩

/-- One result, rows with one key in the order of the table. -/
def select (key : Row → Key) (limit : Int) (rows : List Row) : List Row :=
  limited limit (rows.mergeSort fun a b => decide (key b ≤ key a))

theorem selected_select (key : Row → Key) (limit : Int) (rows : List Row) :
    Selected key limit rows (select key limit rows) := by
  refine ⟨_, List.mergeSort_perm rows _, ?_, rfl⟩
  have hsorted := @List.pairwise_mergeSort _ (fun a b => decide (key b ≤ key a)) ?_ ?_ rows
  · exact hsorted.imp fun h => of_decide_eq_true h
  · intro a b c hab hbc
    exact decide_eq_true (le_trans (of_decide_eq_true hbc) (of_decide_eq_true hab))
  · intro a b
    rw [Bool.or_eq_true, decide_eq_true_iff, decide_eq_true_iff]
    exact le_total (key b) (key a)

theorem length_limited (limit : Int) (rows : List Row) :
    (limited limit rows).length = limitedCount limit rows.length := by
  rw [limited, limitedCount]
  split
  · rfl
  · exact List.length_take

theorem map_limited {Row' : Type*} (f : Row → Row') (limit : Int) (rows : List Row) :
    limited limit (rows.map f) = (limited limit rows).map f := by
  rw [limited, limited]
  split
  · rfl
  · exact List.map_take.symm

namespace Selected

variable {key : Row → Key} {limit : Int} {rows result : List Row}

theorem highest (h : Selected key limit rows result) : Highest key limit rows result := by
  obtain ⟨sorted, hperm, hsorted, rfl⟩ := h
  obtain ⟨rest, hrest⟩ := limited_append limit sorted
  have hlength := length_limited limit sorted
  rw [hperm.length_eq] at hlength
  rw [hrest] at hsorted hperm
  rw [List.pairwise_append] at hsorted
  exact ⟨⟨rest, hperm, hsorted.2.2⟩, hsorted.1, hlength⟩

theorem subset (h : Selected key limit rows result) : result ⊆ rows := by
  obtain ⟨sorted, hperm, -, rfl⟩ := h
  obtain ⟨rest, hrest⟩ := limited_append limit sorted
  intro row hrow
  apply hperm.subset
  rw [hrest]
  exact List.mem_append_left rest hrow

/-- Nothing is left out below the limit. -/
theorem perm (h : Selected key limit rows result)
    (hlimit : limit < 0 ∨ (rows.length : Int) ≤ limit) : result.Perm rows := by
  obtain ⟨sorted, hperm, -, rfl⟩ := h
  rw [limited]
  split
  · exact hperm
  · have hlength : sorted.length ≤ limit.toNat := by
      rw [hperm.length_eq]
      omega
    rw [List.take_of_length_le hlength]
    exact hperm

/-- The order of the rows in the table is not seen. -/
theorem of_perm {others : List Row} (h : Selected key limit rows result)
    (hperm : rows.Perm others) : Selected key limit others result := by
  obtain ⟨sorted, hsorts, hsorted, hresult⟩ := h
  exact ⟨sorted, hsorts.trans hperm, hsorted, hresult⟩

theorem length (h : Selected key limit rows result) :
    result.length = limitedCount limit rows.length := h.highest.length

theorem nodup (h : Selected key limit rows result) (hrows : rows.Nodup) : result.Nodup := by
  obtain ⟨rest, hperm, -⟩ := h.highest.split
  exact (List.nodup_append.mp (hperm.nodup_iff.mpr hrows)).1

/-- Where the rows with `p` are above all others, a result is made of them only when
there are enough. -/
theorem forall_iff {p : Row → Prop} [DecidablePred p] (h : Selected key limit rows result)
    (habove : ∀ a ∈ rows, ∀ b ∈ rows, p a → ¬p b → key b < key a) :
    (∀ row ∈ result, p row) ↔
      limitedCount limit rows.length ≤ (rows.filter fun row => p row).length := by
  obtain ⟨⟨rest, hperm, hrest⟩, -, hlength⟩ := h.highest
  have hcount := (hperm.filter fun row => decide (p row)).length_eq
  rw [List.filter_append, List.length_append] at hcount
  rw [← hlength, ← hcount]
  constructor
  · intro hall
    rw [List.filter_eq_self.mpr fun row hrow => decide_eq_true (hall row hrow)]
    exact Nat.le_add_right _ _
  · intro hle row hrow
    by_contra hnot
    -- No row that is left out can be above this one.
    have hout : rest.filter (fun other => decide (p other)) = [] := by
      rw [List.filter_eq_nil_iff]
      intro other hother hp
      have hlt := habove other (hperm.subset (List.mem_append_right _ hother)) row
        (h.subset hrow) (of_decide_eq_true hp) hnot
      exact absurd (hrest row hrow other hother) (not_le.mpr hlt)
    have hfewer : (result.filter fun other => decide (p other)).length < result.length := by
      rw [List.length_filter_lt_length_iff_exists]
      exact ⟨row, hrow, fun hp => hnot (of_decide_eq_true hp)⟩
    rw [hout, List.length_nil] at hle
    omega

/-- A result on written rows is a written result. -/
theorem of_map {Row' Key' : Type*} [LinearOrder Key'] {key' : Row' → Key'} {f : Row → Row'}
    {result' : List Row'} (h : Selected key' limit (rows.map f) result')
    (hkey : ∀ a ∈ rows, ∀ b ∈ rows, key' (f a) ≤ key' (f b) → key a ≤ key b) :
    ∃ result, result' = result.map f ∧ Selected key limit rows result := by
  obtain ⟨sorted', hperm, hsorted, rfl⟩ := h
  have hcomp : Relation.Comp (fun l l' => l = List.map f l') List.Perm sorted' rows := by
    rw [List.eq_map_comp_perm]
    exact hperm
  obtain ⟨sorted, rfl, hsorts⟩ := hcomp
  refine ⟨limited limit sorted, map_limited f limit sorted, sorted, hsorts, ?_, rfl⟩
  rw [List.pairwise_map] at hsorted
  apply hsorted.imp_of_mem
  intro a b ha hb hle
  exact hkey b (hsorts.subset hb) a (hsorts.subset ha) hle

end Selected

theorem maxKey_of_perm {key : Row → Key} {rows others : List Row} (h : rows.Perm others) :
    maxKey key rows = maxKey key others :=
  List.Perm.maximum_eq (h.map key)

/-- Groups stand in one order by the highest key, when the keys of their rows do. -/
theorem maxKey_le {Key' : Type*} [LinearOrder Key'] {key : Row → Key} {key' : Row → Key'}
    {rows others : List Row}
    (h : maxKey key' rows ≤ maxKey key' others)
    (hkey : ∀ a ∈ rows, ∀ b ∈ others, key' a ≤ key' b → key a ≤ key b) :
    maxKey key rows ≤ maxKey key others := by
  apply List.maximum_le_of_forall_le
  intro k hk
  obtain ⟨a, ha, rfl⟩ := List.mem_map.mp hk
  have hle := le_trans (List.le_maximum_of_mem' (List.mem_map_of_mem (f := key') ha)) h
  obtain ⟨k', hk', hle'⟩ := List.coe_le_maximum_iff.mp hle
  obtain ⟨b, hb, rfl⟩ := List.mem_map.mp hk'
  exact List.coe_le_maximum_iff.mpr ⟨key b, List.mem_map_of_mem hb, hkey a ha b hb hle'⟩

end OrderBy
