import Xfiles.Fs.Mounts

/-!
# What a directory lists

`VfsRegistry::list` scans all keys and strips the path of the directory from
each, after it has normalized both sides again.  This module proves that it
lists the keys that extend the path of the directory by one name, and no others.

* `extend` is a path with one more name.  `childName_iff_extend` reads it off a
  key.
* `mem_list_iff` is the listing of a directory.  `get_extend` opens what is
  listed.
* `list_exact` puts the facts together, with the order and the paths that are
  not directories.
-/

namespace Xfiles.Fs

open LinkedStore

/-- A single component of a path. -/
def IsName (name : Str) : Prop := name ≠ [] ∧ '/' ∉ name

instance : DecidablePred IsName := fun _ => inferInstanceAs (Decidable (_ ∧ _))

/-- A normalized path with one more name. -/
def extend (dir name : Str) : Str :=
  if dir = ['/'] then '/' :: name else dir ++ '/' :: name

/-- The path is registered as a directory. -/
def IsDirectory (vfs : VfsRegistry) (path : Str) : Prop :=
  ∃ name children, vfs.get path = some (.dir name children)

theorem extend_eq {dir : Str} (hdir : Stable dir) (name : Str) :
    extend dir name = joined (components dir) ++ '/' :: name := by
  have hroot : dir = ['/'] ↔ components dir = [] := by
    rw [← normalize_eq_root, show normalize dir = dir from hdir]
  rw [extend]
  split_ifs with h
  · rw [hroot.mp h]
    rfl
  · have hne : components dir ≠ [] := fun hnil => h (hroot.mpr hnil)
    rw [← render_of_ne_nil hne, ← hdir.eq_render]

/-- A name is read off the keys that extend the directory by it. -/
theorem childName_iff_extend {dir key name : Str} (hdir : Stable dir) (hkey : Stable key) :
    childName dir key = some name ↔ IsName name ∧ key = extend dir name := by
  show Option.bind _ (fun name => if name = [] ∨ '/' ∈ name then none else some name) = _ ↔ _
  rw [Option.bind_eq_some_iff, extend_eq hdir]
  simp only [remainder_iff]
  rw [show normalize key = key from hkey]
  constructor
  · intro h
    rcases h with ⟨rest, hrest, hname⟩
    split_ifs at hname with hbad
    rw [← Option.some.inj hname]
    exact ⟨not_or.mp hbad, hrest.symm⟩
  · intro h
    exact ⟨name, h.2.symm, if_neg (not_or.mpr h.1)⟩

/-- A directory lists the names by which a key extends it. -/
theorem mem_list_iff {vfs : VfsRegistry} (hkeys : StableKeys vfs) {path : Str}
    (h : IsDirectory vfs path) {name : Str} :
    name ∈ vfs.list path ↔ IsName name ∧ extend (normalize path) name ∈ vfs.nodes.keys := by
  obtain ⟨dirName, children, hget⟩ := h
  have hpath : Stable (normalize path) := hkeys _ (by
    rw [Store.mem_keys]
    exact Option.isSome_of_eq_some hget)
  rw [mem_list hget]
  constructor
  · intro h
    rcases h with ⟨key, hkey, hchild⟩
    obtain ⟨hname, rfl⟩ := (childName_iff_extend hpath (hkeys key hkey)).mp hchild
    exact ⟨hname, (VfsRegistry.mem_keys_store vfs).mp hkey⟩
  · intro h
    have hkey := (VfsRegistry.mem_keys_store vfs).mpr h.2
    exact ⟨_, hkey, (childName_iff_extend hpath (hkeys _ hkey)).mpr ⟨h.1, rfl⟩⟩

/-- A second slash at the root is dropped. -/
theorem normalize_slash_slash {name : Str} (h : Stable ('/' :: name)) :
    normalize ('/' :: '/' :: name) = '/' :: name := by
  have htrim : trimEnd ('/' :: '/' :: name) = '/' :: '/' :: name :=
    (trimEnd_append_iff (s := ['/']) (List.cons_ne_nil '/' name)).mpr h.trimEnd_eq
  have hsame : components ('/' :: '/' :: name) = components ('/' :: name) := by
    rw [components, components, trim_slash, trim_slash, htrim, h.trimEnd_eq,
      splitOn_slash ('/' :: name), List.filter_cons_of_neg (by simp)]
  rw [normalize_eq, hsame, ← h.eq_render]

/-- The path of a directory, a slash and a listed name open a node. -/
theorem get_extend {vfs : VfsRegistry} (hkeys : StableKeys vfs) {dir name : Str}
    (hkey : extend dir name ∈ vfs.nodes.keys) : (vfs.get (dir ++ '/' :: name)).isSome := by
  have hstable : Stable (extend dir name) :=
    hkeys _ ((VfsRegistry.mem_keys_store vfs).mpr hkey)
  have hsame : normalize (dir ++ '/' :: name) = extend dir name := by
    by_cases hroot : dir = ['/']
    · subst hroot
      exact normalize_slash_slash hstable
    · rw [extend, if_neg hroot] at hstable ⊢
      exact hstable
  rw [VfsRegistry.get, hsame]
  exact AList.lookup_isSome.mpr hkey

theorem list_of_not_directory {vfs : VfsRegistry} {path : Str} (h : ¬ IsDirectory vfs path) :
    vfs.list path = [] := by
  rw [VfsRegistry.list]
  split
  · rename_i node hnode
    cases node with
    | dir name children => exact absurd ⟨name, children, hnode⟩ h
    | file | ctl | symlink => rfl
  · rfl

/-- The path that is extended is not below a sibling whose path it only begins
like. -/
theorem not_prefix_extend {dir name rest : Str} (hroot : dir ≠ ['/']) (hne : rest ≠ [])
    (hslash : rest.head? ≠ some '/') : ¬ dir ++ rest <+: extend dir name := by
  rw [extend, if_neg hroot, List.prefix_append_right_inj]
  intro hprefix
  cases rest with
  | nil => exact hne rfl
  | cons c rest =>
    rw [List.cons_prefix_cons] at hprefix
    exact hslash (congrArg some hprefix.1)

/-- A directory lists the names by which a key extends it, in strictly
increasing order, and each can be opened.  Nothing deeper is listed, and
nothing below a sibling.  What is not a directory lists nothing. -/
theorem list_exact (vfs : VfsRegistry) (hkeys : StableKeys vfs) (path : Str) :
    (IsDirectory vfs path →
      (vfs.list path).Pairwise (· < ·) ∧
      (∀ name, name ∈ vfs.list path ↔
        IsName name ∧ extend (normalize path) name ∈ vfs.nodes.keys) ∧
      ∀ name ∈ vfs.list path,
        (vfs.get (normalize path ++ '/' :: name)).isSome ∧ '/' ∉ name ∧
        ∀ rest, normalize path ≠ ['/'] → rest ≠ [] → rest.head? ≠ some '/' →
          ¬ normalize path ++ rest <+: extend (normalize path) name) ∧
    (¬ IsDirectory vfs path → vfs.list path = []) := by
  refine ⟨fun hdir => ?_, list_of_not_directory⟩
  refine ⟨pairwise_list vfs path, fun name => mem_list_iff hkeys hdir, fun name hname => ?_⟩
  obtain ⟨hshape, hkey⟩ := (mem_list_iff hkeys hdir).mp hname
  refine ⟨get_extend hkeys hkey, hshape.2, fun rest hroot hne hslash => ?_⟩
  exact not_prefix_extend hroot hne hslash

/-- A control file of a new registry is listed. -/
theorem list_exact_ctl :
    "status".toList ∈ VfsRegistry.new.list "/ctl".toList ↔
      IsName "status".toList ∧
        extend (normalize "/ctl".toList) "status".toList ∈ VfsRegistry.new.nodes.keys :=
  ((list_exact VfsRegistry.new inv_start.stable "/ctl".toList).1
    ⟨"/ctl".toList, ["status".toList, "shutdown".toList], by decide⟩).2.1 _

end Xfiles.Fs
