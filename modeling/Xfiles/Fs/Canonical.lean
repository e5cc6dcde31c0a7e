import Xfiles.Fs.Registry

/-!
# Canonical paths

`normalize` trims the whole string once, before it drops and pops components.
This module proves that its result always has the canonical shape, and for which
strings it is a fixed point, so that the stored key is found again.

* `Canonical` is the shape, and `canonical_normalize` holds of every string.
* `survivor` finds the last component of a path from the right.
  `survivor_eq` says that it is what the loop of `normalize` leaves.
* `KeyFound` says that a stored key is found like the path that it was made
  from.
* `canonical_iff` is the result: a last component that ends in white space is
  what makes the key change again.
-/

namespace Xfiles.Fs

open LinkedStore

/-- `exists`. -/
def VfsRegistry.exists_ (vfs : VfsRegistry) (path : Str) : Bool :=
  (vfs.nodes.lookup (normalize path)).isSome

/-! ## The shape -/

/-- A path from the root, with proper components and no slash at the end. -/
structure Canonical (key : Str) : Prop where
  starts : key.head? = some '/'
  proper : key ≠ ['/'] → ∀ part ∈ key.tail.splitOn '/',
    part ≠ [] ∧ part ≠ ".".toList ∧ part ≠ "..".toList
  ends_in_name : key ≠ ['/'] → key.getLast? ≠ some '/'

theorem canonical_root : Canonical ['/'] where
  starts := rfl
  proper := fun h => absurd rfl h
  ends_in_name := fun h => absurd rfl h

theorem canonical_joined {parts : List Str} {last : Str}
    (h : ∀ c ∈ parts ++ [last], IsComponent c) : Canonical (joined (parts ++ [last])) := by
  have hlast : IsComponent last := h last (by simp)
  have hsplit := splitOn_joined (by simp) fun c hc => (h c hc).2.1
  obtain ⟨rest, hrest⟩ := @joined_eq_slash (parts ++ [last]) (by simp)
  rw [hrest, splitOn_slash] at hsplit
  refine ⟨by rw [hrest]; rfl, fun _ part hpart => ?_, fun _ hslash => ?_⟩
  · rw [hrest, List.tail_cons, List.tail_eq_of_cons_eq hsplit] at hpart
    obtain ⟨hne, -, hup, hdot⟩ := h part hpart
    exact ⟨hne, hdot, hup⟩
  · have hname : joined (parts ++ [last]) = (joined parts ++ ['/']) ++ last := by simp
    rw [hname, List.getLast?_append_of_ne_nil _ hlast.1] at hslash
    exact hlast.2.1 (List.mem_of_getLast? hslash)

/-- The result of `normalize` is canonical. -/
theorem canonical_normalize (path : Str) : Canonical (normalize path) := by
  rw [normalize_eq]
  rcases List.eq_nil_or_concat' (components path) with hroot | ⟨parts, last, hparts⟩
  · rw [hroot]
    exact canonical_root
  · rw [hparts, render_of_ne_nil (by simp)]
    refine canonical_joined fun c hc => components_isComponent path c ?_
    rw [hparts]
    exact hc

/-! ## The last component -/

/-- The component that is left when `skip` more are popped, with the parts read
from the right. -/
def survivor (skip : Nat) : List Str → Option Str
  | [] => none
  | part :: rest =>
    if part = "..".toList then survivor (skip + 1) rest
    else if part = ".".toList ∨ part = [] then survivor skip rest
    else if skip = 0 then some part
    else survivor (skip - 1) rest

/-- It is what the loop leaves, counted from the right. -/
theorem survivor_eq (skip : Nat) (parts : List Str) :
    survivor skip parts =
      ((parts.reverse.filter (· ≠ [])).foldl resolve []).reverse[skip]? := by
  induction parts generalizing skip with
  | nil => rfl
  | cons part rest ih =>
    rw [List.reverse_cons, List.filter_append, List.foldl_append, survivor]
    by_cases hup : part = "..".toList
    · subst hup
      rw [if_pos rfl, ih, List.filter_cons_of_pos (by decide), List.filter_nil, List.foldl_cons,
        List.foldl_nil, resolve, if_pos rfl, ← List.tail_reverse, List.getElem?_tail]
    · rw [if_neg hup]
      by_cases hdot : part = ".".toList
      · subst hdot
        rw [if_pos (Or.inl rfl), ih, List.filter_cons_of_pos (by decide), List.filter_nil,
          List.foldl_cons, List.foldl_nil, resolve, if_neg hup, if_pos rfl]
      · by_cases hempty : part = []
        · subst hempty
          rw [if_pos (Or.inr rfl), ih, List.filter_cons_of_neg (by decide), List.filter_nil,
            List.foldl_nil]
        · rw [if_neg (not_or.mpr ⟨hdot, hempty⟩),
            List.filter_cons_of_pos (by simpa using hempty), List.filter_nil, List.foldl_cons,
            List.foldl_nil, resolve, if_neg hup, if_neg hdot, List.reverse_append]
          cases skip with
          | zero => rfl
          | succ skip =>
            rw [if_neg (Nat.succ_ne_zero skip)]
            exact ih skip

/-- The last component of a path, before dot components are resolved. -/
def lastComponent (path : Str) : Option Str := survivor 0 ((trim path).splitOn '/').reverse

theorem lastComponent_eq (path : Str) : lastComponent path = (components path).getLast? := by
  rw [lastComponent, survivor_eq, List.reverse_reverse, ← List.head?_reverse,
    List.head?_eq_getElem?]
  rfl

/-- The last component of a path does not end in white space. -/
def EndsInText (path : Str) : Prop :=
  ∀ part ∈ lastComponent path, ∀ c ∈ part.getLast?, isWhitespace c = false

theorem trimEnd_eq_iff {part : Str} :
    trimEnd part = part ↔ ∀ c ∈ part.getLast?, isWhitespace c = false := by
  rw [trimEnd, List.rdropWhile_eq_self_iff]
  constructor
  · intro h c hc
    obtain ⟨hne, rfl⟩ := List.mem_getLast?_eq_getLast hc
    simpa using h hne
  · intro h hne
    simpa using h _ (List.getLast_mem_getLast? hne)

/-! ## Fixed points -/

/-- The result is a fixed point exactly when the last component does not end in
white space. -/
theorem stable_normalize_iff (path : Str) : Stable (normalize path) ↔ EndsInText path := by
  rw [EndsInText, lastComponent_eq, normalize_eq]
  rcases List.eq_nil_or_concat' (components path) with hroot | ⟨parts, last, hparts⟩
  · rw [hroot]
    refine iff_of_true (by decide) ?_
    simp
  · have hproper : ∀ c ∈ parts ++ [last], IsComponent c := by
      rw [← hparts]
      exact components_isComponent path
    have hlast : last ≠ [] := (hproper last (by simp)).1
    have hname : joined (parts ++ [last]) = (joined parts ++ ['/']) ++ last := by simp
    rw [hparts, render_of_ne_nil (by simp), List.getLast?_append_of_ne_nil _ (by simp)]
    have hends : (∀ part ∈ [last].getLast?, ∀ c ∈ part.getLast?, isWhitespace c = false) ↔
        trimEnd last = last := by
      rw [trimEnd_eq_iff]
      simp
    rw [hends]
    constructor
    · intro hstable
      obtain ⟨rest, hrest⟩ := @joined_eq_slash (parts ++ [last]) (by simp)
      rw [hrest] at hstable
      have htrim := hstable.trimEnd_eq
      rw [← hrest, hname] at htrim
      exact (trimEnd_append_iff hlast).mp htrim
    · exact stable_joined hproper

/-! ## Stored keys -/

/-- The key that a path is stored under is found again, and is treated like the
path. -/
structure KeyFound (path : Str) : Prop where
  get_addNode : ∀ (vfs : VfsRegistry) node,
    (vfs.addNode path node).get (normalize path) = some node
  get_mkdir : ∀ vfs : VfsRegistry,
    (vfs.mkdir path).get (normalize path) = some (.newDir (normalize path))
  exists_eq : ∀ vfs : VfsRegistry, vfs.exists_ (normalize path) = vfs.exists_ path
  list_eq : ∀ vfs : VfsRegistry, vfs.list (normalize path) = vfs.list path
  parentPath_eq : parentPath (normalize path) = parentPath path
  childName_eq : ∀ dir, childName dir (normalize path) = childName dir path
  childName_dir_eq : ∀ full, childName (normalize path) full = childName path full

/-- The node that is put is at the key. -/
theorem lookup_addNode (vfs : VfsRegistry) (path : Str) (node : Vnode) :
    (vfs.addNode path node).nodes.lookup (normalize path) = some node := by
  have hwritten := write_self layout vfs.store (normalize path) node
  rw [← VfsRegistry.store_addNode] at hwritten
  exact hwritten

theorem keyFound_of_stable {path : Str} (h : Stable (normalize path)) : KeyFound path where
  get_addNode vfs node := by
    rw [VfsRegistry.get, h]
    exact lookup_addNode vfs path node
  get_mkdir vfs := by
    rw [VfsRegistry.get, h]
    exact lookup_addNode vfs path (.newDir (normalize path))
  exists_eq vfs := by rw [VfsRegistry.exists_, VfsRegistry.exists_, h]
  list_eq vfs := by rw [VfsRegistry.list, VfsRegistry.list, h]
  parentPath_eq := by rw [parentPath, parentPath, h]
  childName_eq dir := by rw [childName, childName, h]
  childName_dir_eq full := by rw [childName, childName, h]

/-- In an empty registry only the key itself is found. -/
theorem stable_of_keyFound {path : Str} (h : KeyFound path) : Stable (normalize path) := by
  let vfs : VfsRegistry := { nodes := ∅ }
  have hget := h.get_mkdir vfs
  have hkey : normalize (normalize path) ∈ (vfs.mkdir path).store.keys := by
    rw [Store.mem_keys]
    exact Option.isSome_of_eq_some hget
  have hkeys : (vfs.mkdir path).store.keys =
      insert (normalize path) vfs.store.keys := by
    rw [← keys_write layout, ← VfsRegistry.store_addNode]
    rfl
  rw [hkeys, Set.mem_insert_iff] at hkey
  rcases hkey with hsame | hold
  · exact hsame
  · exact absurd ((VfsRegistry.mem_keys_store vfs).mp hold) (AList.notMem_empty _)

/-- `normalize` always gives a canonical path.  It is a fixed point, and so a
key that is found again, exactly when the last component of the string does not
end in white space. -/
theorem canonical_iff (path : Str) :
    Canonical (normalize path) ∧
      (normalize (normalize path) = normalize path ↔ EndsInText path) ∧
      (KeyFound path ↔ EndsInText path) := by
  refine ⟨canonical_normalize path, stable_normalize_iff path, ?_⟩
  rw [← stable_normalize_iff]
  exact ⟨stable_of_keyFound, keyFound_of_stable⟩

/-- The space at the end of a component is trimmed only the second time. -/
theorem key_changes_again :
    ¬ ∀ path : Str, Canonical (normalize path) ∧
        normalize (normalize path) = normalize path ∧ KeyFound path := by
  intro h
  have hsame := (h "/a /.".toList).2.1
  revert hsame
  decide

end Xfiles.Fs
