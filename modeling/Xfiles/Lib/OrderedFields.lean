import Mathlib.Data.List.Sort
import Xfiles.Lib.Record

/-!
# Fields in the order of their keys

A map over ordered keys is the list of its fields, sorted by the keys.  `insert`
puts a field where it belongs and replaces an earlier one.  `collect` inserts the
fields of any list in turn, so of the fields with one key the last one stays.

* `last` is the last value under a key.
* Sorted lists with the same `last` are equal (`Sorted.ext`).
* Two lists make one map exactly when `last` is the same in them
  (`collect_eq_iff`).  The order of the fields does not matter.
-/

namespace OrderedFields

variable {K J V : Type*}

/-! ## The last value under a key -/

section Last

variable [BEq K]

def last (key : K) : List (K × J) → Option J
  | [] => none
  | field :: rest => (last key rest).or (if field.1 == key then some field.2 else none)

theorem last_append (key : K) (first rest : List (K × J)) :
    last key (first ++ rest) = (last key rest).or (last key first) := by
  induction first with
  | nil => exact Option.or_none.symm
  | cons field first ih =>
    rw [List.cons_append, last, last, ih, Option.or_assoc]

variable [LawfulBEq K]

theorem last_mapWithKey (key : K) (f : K → J → V) (fields : List (K × J)) :
    last key (fields.map fun field => (field.1, f field.1 field.2)) =
      (last key fields).map (f key) := by
  induction fields with
  | nil => rfl
  | cons field rest ih =>
    rw [List.map_cons, last, last, ih, Option.map_or]
    by_cases hkey : field.1 = key
    · subst hkey
      simp
    · simp [hkey]

theorem last_map (key : K) (f : J → V) (fields : List (K × J)) :
    last key (fields.map fun field => (field.1, f field.2)) = (last key fields).map f :=
  last_mapWithKey key (fun _ => f) fields

theorem last_cons_self (field : K × J) {rest : List (K × J)} (h : last field.1 rest = none) :
    last field.1 (field :: rest) = some field.2 := by
  rw [last, h, beq_self_eq_true, if_pos rfl, Option.none_or]

theorem last_cons_of_ne {key : K} {field : K × J} (rest : List (K × J)) (h : field.1 ≠ key) :
    last key (field :: rest) = last key rest := by
  rw [last, if_neg (by simpa using h), Option.or_none]

theorem last_eq_none {key : K} {fields : List (K × J)} :
    last key fields = none ↔ key ∉ fields.map Prod.fst := by
  induction fields with
  | nil => simp [last]
  | cons field rest ih =>
    rw [List.map_cons, List.mem_cons, not_or, ← ih]
    by_cases hkey : field.1 = key
    · subst hkey
      simp [last]
    · rw [last_cons_of_ne rest hkey]
      exact ⟨fun h => ⟨Ne.symm hkey, h⟩, fun h => h.2⟩

theorem mem_of_last {key : K} {value : J} {fields : List (K × J)}
    (h : last key fields = some value) : (key, value) ∈ fields := by
  induction fields with
  | nil => exact absurd h.symm (Option.some_ne_none value)
  | cons field rest ih =>
    by_cases hkey : field.1 = key
    · subst hkey
      cases hrest : last field.1 rest with
      | none =>
        rw [last_cons_self field hrest] at h
        exact Option.some.inj h ▸ List.mem_cons_self
      | some found =>
        rw [last, hrest, Option.some_or, ← hrest] at h
        exact List.mem_cons_of_mem field (ih h)
    · rw [last_cons_of_ne rest hkey] at h
      exact List.mem_cons_of_mem field (ih h)

/-- The other keys are not looked at. -/
theorem last_filter (key : K) (p : K → Bool) (fields : List (K × J)) :
    last key (fields.filter fun field => p field.1) =
      if p key then last key fields else none := by
  induction fields with
  | nil => simp [last]
  | cons field rest ih =>
    by_cases hp : p field.1
    · rw [List.filter_cons_of_pos (p := fun field : K × J => p field.1) hp]
      by_cases hkey : field.1 = key
      · subst hkey
        rw [last, last, ih, if_pos hp, if_pos hp]
      · rw [last_cons_of_ne _ hkey, last_cons_of_ne _ hkey, ih]
    · rw [List.filter_cons_of_neg (p := fun field : K × J => p field.1) hp, ih]
      by_cases hkey : field.1 = key
      · subst hkey
        rw [if_neg hp, if_neg hp]
      · rw [last_cons_of_ne rest hkey]

section Found

variable [DecidableEq K]

open Record

theorem last_of_absent {key : K} {fields : List (K × J)} (h : find key fields = .absent) :
    last key fields = none :=
  last_eq_none.mpr (notMem_of_find_absent h)

theorem last_of_once {key : K} {value : J} {fields : List (K × J)}
    (h : find key fields = .once value) : last key fields = some value := by
  induction fields with
  | nil => simp [find] at h
  | cons field rest ih =>
    rw [find] at h
    split at h
    · rename_i hkey
      subst hkey
      split at h
      · rename_i habsent
        rw [last_cons_self field (last_of_absent habsent), Found.once.inj h]
      · simp at h
      · simp at h
    · rename_i hkey
      rw [last_cons_of_ne rest hkey, ih h]

end Found

end Last

/-! ## Sorted fields -/

section Order

variable [LinearOrder K]

def insert (key : K) (value : J) : List (K × J) → List (K × J)
  | [] => [(key, value)]
  | field :: rest =>
    if key = field.1 then (key, value) :: rest
    else if key < field.1 then (key, value) :: field :: rest
    else field :: insert key value rest

def Sorted (fields : List (K × J)) : Prop := fields.Pairwise fun a b => a.1 < b.1

theorem mem_insert {key : K} {value : J} {fields : List (K × J)} {field : K × J}
    (h : field ∈ insert key value fields) : field = (key, value) ∨ field ∈ fields := by
  induction fields with
  | nil => exact Or.inl (List.mem_singleton.mp h)
  | cons head rest ih =>
    rw [insert] at h
    split at h
    · exact (List.mem_cons.mp h).imp_right (List.mem_cons_of_mem head)
    · split at h
      · exact List.mem_cons.mp h
      · rcases List.mem_cons.mp h with rfl | hrest
        · exact Or.inr List.mem_cons_self
        · exact (ih hrest).imp_right (List.mem_cons_of_mem head)

theorem sorted_insert {key : K} {value : J} {fields : List (K × J)} (h : Sorted fields) :
    Sorted (insert key value fields) := by
  induction fields with
  | nil => exact List.pairwise_singleton _ _
  | cons head rest ih =>
    obtain ⟨hhead, hrest⟩ := List.pairwise_cons.mp h
    rw [insert]
    split
    · rename_i hkey
      exact List.pairwise_cons.mpr ⟨fun field hfield => hkey ▸ hhead field hfield, hrest⟩
    · split
      · rename_i hlt
        refine List.pairwise_cons.mpr ⟨fun field hfield => ?_, h⟩
        rcases List.mem_cons.mp hfield with rfl | hmem
        · exact hlt
        · exact hlt.trans (hhead field hmem)
      · rename_i hne hnlt
        refine List.pairwise_cons.mpr ⟨fun field hfield => ?_, ih hrest⟩
        rcases mem_insert hfield with rfl | hmem
        · exact lt_of_le_of_ne (not_lt.mp hnlt) (Ne.symm hne)
        · exact hhead field hmem

/-- Insert the fields in turn. -/
def collect (fields : List (K × J)) : List (K × J) :=
  fields.foldl (fun m field => insert field.1 field.2 m) []

theorem sorted_foldl_insert {fields m : List (K × J)} (h : Sorted m) :
    Sorted (fields.foldl (fun m field => insert field.1 field.2 m) m) := by
  induction fields generalizing m with
  | nil => exact h
  | cons field rest ih => exact ih (sorted_insert h)

theorem sorted_collect (fields : List (K × J)) : Sorted (collect fields) :=
  sorted_foldl_insert List.Pairwise.nil

section Lookup

variable [BEq K] [LawfulBEq K]

theorem Sorted.last_none {field : K × J} {rest : List (K × J)} (h : Sorted (field :: rest)) :
    last field.1 rest = none := by
  rw [last_eq_none]
  intro hmem
  obtain ⟨other, hother, hkey⟩ := List.mem_map.mp hmem
  exact (List.pairwise_cons.mp h).1 other hother |>.ne hkey.symm

theorem Sorted.last_eq_some {fields : List (K × J)} (h : Sorted fields) {key : K} {value : J} :
    last key fields = some value ↔ (key, value) ∈ fields := by
  refine ⟨mem_of_last, fun hmem => ?_⟩
  induction fields with
  | nil => exact absurd hmem List.not_mem_nil
  | cons field rest ih =>
    have hrest : Sorted rest := (List.pairwise_cons.mp h).2
    rcases List.mem_cons.mp hmem with rfl | htail
    · exact last_cons_self _ h.last_none
    · have hlt := (List.pairwise_cons.mp h).1 _ htail
      rw [last_cons_of_ne rest hlt.ne, ih hrest htail]

/-- Sorted fields are told apart by the values under their keys. -/
theorem Sorted.ext {fields fields' : List (K × J)} (h : Sorted fields) (h' : Sorted fields')
    (hlast : ∀ key, last key fields = last key fields') : fields = fields' := by
  have hirrefl : Std.Irrefl fun a b : K × J => a.1 < b.1 := ⟨fun a => lt_irrefl a.1⟩
  have hantisymm : Std.Antisymm fun a b : K × J => a.1 < b.1 :=
    ⟨fun a b hab hba => absurd hba hab.asymm⟩
  refine List.Pairwise.eq_of_mem_iff h h' fun field => ?_
  rw [← h.last_eq_some, ← h'.last_eq_some, hlast]

theorem last_insert {fields : List (K × J)} (h : Sorted fields) (key : K) (value : J) (k : K) :
    last k (insert key value fields) = if k = key then some value else last k fields := by
  induction fields with
  | nil =>
    by_cases hk : k = key
    · rw [if_pos hk, hk]
      exact last_cons_self (key, value) rfl
    · rw [if_neg hk]
      exact last_cons_of_ne [] (Ne.symm hk)
  | cons field rest ih =>
    have hrest : Sorted rest := (List.pairwise_cons.mp h).2
    by_cases hk : k = key
    · subst hk
      have hmem : (k, value) ∈ insert k value (field :: rest) := by
        rw [insert]
        split
        · exact List.mem_cons_self
        · split
          · exact List.mem_cons_self
          · exact List.mem_cons_of_mem _ (mem_of_last (by rw [ih hrest, if_pos rfl]))
      rw [if_pos rfl]
      exact (sorted_insert h).last_eq_some.mpr hmem
    · rw [if_neg hk, insert]
      split
      · rename_i hkey
        rw [last_cons_of_ne _ (Ne.symm hk), last_cons_of_ne _ (hkey ▸ Ne.symm hk)]
      · split
        · exact last_cons_of_ne _ (Ne.symm hk)
        · rw [last, last, ih hrest, if_neg hk]

theorem last_foldl_insert {fields m : List (K × J)} (h : Sorted m) (k : K) :
    last k (fields.foldl (fun m field => insert field.1 field.2 m) m) =
      (last k fields).or (last k m) := by
  induction fields generalizing m with
  | nil => exact Option.none_or.symm
  | cons field rest ih =>
    rw [List.foldl_cons, ih (sorted_insert h), last_insert h, last, Option.or_assoc]
    congr 1
    by_cases hk : k = field.1
    · rw [if_pos hk, if_pos (by simp [hk]), Option.some_or]
    · rw [if_neg hk, if_neg (by simpa using Ne.symm hk), Option.none_or]

theorem last_collect (fields : List (K × J)) (k : K) :
    last k (collect fields) = last k fields := by
  rw [collect, last_foldl_insert List.Pairwise.nil]
  exact Option.or_none

theorem collect_eq_iff {fields fields' : List (K × J)} :
    collect fields = collect fields' ↔ ∀ key, last key fields = last key fields' := by
  constructor
  · intro h key
    rw [← last_collect fields, h, last_collect]
  · intro h
    refine (sorted_collect fields).ext (sorted_collect fields') fun key => ?_
    rw [last_collect, last_collect, h]

theorem Sorted.collect_eq {fields : List (K × J)} (h : Sorted fields) : collect fields = fields :=
  (sorted_collect fields).ext h fun key => last_collect fields key

theorem mem_of_mem_collect {fields : List (K × J)} {field : K × J} (h : field ∈ collect fields) :
    field ∈ fields := by
  rw [← (sorted_collect fields).last_eq_some, last_collect] at h
  exact mem_of_last h

end Lookup

end Order

end OrderedFields
