import Xfiles.Fs.Namespace
import Xfiles.Lib.Transition

/-!
# The two ways to read a directory

A directory node keeps a children vector, which `link_child` and
`unlink_child` patch and `Vnode::read` shows.  `VfsRegistry::list` scans the
keys instead.  This module proves when the two agree.

* `Op` is one call, and `step` is its effect.  `store_step` says once what a
  step does: it writes a list of nodes, or it removes a list of keys.
* `ReadsAgree` is the agreement.  On keys that are fixed points it is the
  agreement of the store with its links (`readsAgree_iff`).
* `LeavesNoneOut` is the condition on a step: a directory that is written again
  keeps no name below it that the step does not link again.
* `readsAgree_iff_leavesNoneOut` is the result for runs.
-/

namespace Xfiles.Fs

open LinkedStore Transition

/-! ## Agreement of the two views -/

/-- For every path of a directory, the children vector and the listing hold the
same names. -/
def ReadsAgree (vfs : VfsRegistry) : Prop :=
  ∀ path name children, vfs.get path = some (.dir name children) →
    ∀ n, n ∈ children ↔ n ∈ vfs.list path

/-- Every key is a fixed point of `normalize`. -/
def StableKeys (vfs : VfsRegistry) : Prop := ∀ key ∈ vfs.store.keys, Stable key

theorem mem_dedup {names : List Str} {n : Str} : n ∈ dedup names ↔ n ∈ names := by
  induction names using dedup.induct with
  | case1 => rfl
  | case2 => rfl
  | case3 name rest ih =>
    rw [dedup, if_pos rfl, ih]
    simp
  | case4 name next rest hne ih =>
    rw [dedup, if_neg hne, List.mem_cons, ih, ← List.mem_cons]

theorem mem_list {vfs : VfsRegistry} {path name : Str} {children : List Str}
    (h : vfs.get path = some (.dir name children)) {n : Str} :
    n ∈ vfs.list path ↔ ∃ key ∈ vfs.store.keys, childName (normalize path) key = some n := by
  have hlist : vfs.list path =
      dedup ((vfs.nodes.keys.filterMap (childName (normalize path))).insertionSort (· ≤ ·)) := by
    rw [VfsRegistry.get] at h
    simp only [VfsRegistry.list, h, Vnode.isDir, if_pos]
  rw [hlist, mem_dedup, List.mem_insertionSort, List.mem_filterMap]
  simp only [VfsRegistry.mem_keys_store]

/-- On fixed points the two views agree exactly when the store does. -/
theorem readsAgree_iff {vfs : VfsRegistry} (hkeys : StableKeys vfs) :
    ReadsAgree vfs ↔ Agree layout vfs.store := by
  -- the listing of a registered directory is the set of names below its key
  have hlist : ∀ {path name : Str} {children : List Str},
      vfs.get path = some (.dir name children) →
        {n | n ∈ vfs.list path} = below layout vfs.store.keys (normalize path) := by
    intro path name children hget
    have hpath : Stable (normalize path) := hkeys _ (by
      rw [Store.mem_keys]
      exact Option.isSome_of_eq_some hget)
    ext n
    show n ∈ vfs.list path ↔ ∃ key ∈ vfs.store.keys, slot key = some (normalize path, n)
    rw [mem_list hget]
    exact exists_congr fun key => and_congr_right fun hkey =>
      childName_iff_slot hpath (hkeys key hkey)
  constructor
  · intro h d ns hns
    obtain ⟨node, hnode, hnames⟩ := Option.bind_eq_some_iff.mp hns
    obtain ⟨name, children, hdir, hset⟩ := Vnode.names_eq_some hnames
    have hd : Stable d := hkeys d (by
      rw [Store.mem_keys]
      exact Option.isSome_of_eq_some hnode)
    have hget : vfs.get d = some (.dir name children) := by
      rw [VfsRegistry.get, hd, ← hdir]
      exact hnode
    have hbelow := hlist hget
    rw [hd] at hbelow
    rw [hset, ← hbelow]
    exact Set.ext (h d name children hget)
  · intro h path name children hget n
    have hnames : namesAt layout vfs.store (normalize path) = some {n | n ∈ children} := by
      show (vfs.get path).bind Vnode.names = _
      rw [hget]
      rfl
    have hset := h _ _ hnames
    rw [← hlist hget] at hset
    exact Set.ext_iff.mp hset n

/-! ## Operations -/

/-- One call of the registry or the namespace manager.  The removals of an
agent come with the order of the map's iterator. -/
inductive Op where
  | mkdir (path : Str)
  | addNode (path : Str) (node : Vnode)
  | remove (path : Str)
  | mountAgentNs (agentId hostname : Str)
  | unmountAgentNs (agentId : Str) (order : List Str)
  | createNamespace (manifest : CapabilityManifest)
  | removeNamespace (agentId : Str) (order : List Str)

/-- The state after a call.  An order that is not one of the collected keys is
not enabled. -/
def step (manager : NamespaceManager) : Op → Option NamespaceManager
  | .mkdir path => some { manager with vfs := manager.vfs.mkdir path }
  | .addNode path node => some { manager with vfs := manager.vfs.addNode path node }
  | .remove path => some { manager with vfs := (manager.vfs.remove path).2 }
  | .mountAgentNs agentId hostname =>
    some { manager with vfs := manager.vfs.mountAgentNs agentId hostname }
  | .unmountAgentNs agentId order =>
    if order.Perm (manager.vfs.toRemove agentId) then
      some { manager with vfs := manager.vfs.unmountAgentNs order }
    else none
  | .createNamespace manifest => some (manager.createNamespace manifest).2
  | .removeNamespace agentId order =>
    if order.Perm (manager.vfs.toRemove agentId) then
      some (manager.removeNamespace agentId order)
    else none

/-- `VfsRegistry::new` under a manager without bindings. -/
def start : NamespaceManager := { vfs := VfsRegistry.new, bindings := ∅ }

theorem start_vfs : start.vfs = VfsRegistry.new := rfl

/-- The keys that a call writes, with the nodes. -/
def Op.writes : Op → List (Str × Vnode)
  | .mkdir path => VfsRegistry.keyed [dirWrite path]
  | .addNode path node => VfsRegistry.keyed [(path, node)]
  | .mountAgentNs agentId hostname => VfsRegistry.keyed (mountWrites agentId hostname)
  | .createNamespace manifest => VfsRegistry.keyed (createWrites manifest)
  | .remove _ | .unmountAgentNs .. | .removeNamespace .. => []

/-- The keys that a call removes. -/
def Op.removes : Op → List Str
  | .remove path => [normalize path]
  | .unmountAgentNs _ order | .removeNamespace _ order => order
  | .mkdir _ | .addNode .. | .mountAgentNs .. | .createNamespace _ => []

/-- What a step does to the store: a list of writes, or a list of removals. -/
theorem store_step {manager next : NamespaceManager} {op : Op}
    (h : step manager op = some next) :
    next.vfs.store =
      removeAll layout (writeAll layout manager.vfs.store op.writes) op.removes := by
  cases op with
  | mkdir path =>
    obtain rfl := Option.some.inj h
    exact manager.vfs.store_addAll [dirWrite path]
  | addNode path node =>
    obtain rfl := Option.some.inj h
    exact manager.vfs.store_addAll [(path, node)]
  | remove path =>
    obtain rfl := Option.some.inj h
    exact manager.vfs.store_removeKey (normalize path)
  | mountAgentNs agentId hostname =>
    obtain rfl := Option.some.inj h
    rw [Op.removes, removeAll_nil, mountAgentNs_eq, VfsRegistry.store_addAll, Op.writes]
  | unmountAgentNs agentId order =>
    rw [step, Option.ite_none_right_eq_some] at h
    obtain rfl := Option.some.inj h.2
    exact manager.vfs.store_unmountAgentNs order
  | createNamespace manifest =>
    obtain rfl := Option.some.inj h
    rw [Op.removes, removeAll_nil, createNamespace_vfs, VfsRegistry.store_addAll, Op.writes]
  | removeNamespace agentId order =>
    rw [step, Option.ite_none_right_eq_some] at h
    obtain rfl := Option.some.inj h.2
    exact manager.vfs.store_unmountAgentNs order

/-- A call either writes or removes. -/
theorem Op.writes_or_removes (op : Op) : op.writes = [] ∨ op.removes = [] := by
  cases op <;> simp [writes, removes]

/-! ## The condition on a step -/

/-- The paths that a call writes are fixed points once they are normalized. -/
def Op.StablePaths (op : Op) : Prop := ∀ w ∈ op.writes, Stable w.1

/-- A directory that the call writes leaves no name out: every key that lies
directly below it is named in the node, or written again by the call, and the
node names nothing else. -/
def LeavesNoneOut (manager : NamespaceManager) (op : Op) : Prop :=
  Leaves layout manager.vfs.store.keys op.writes

/-- A new directory leaves no name out exactly when no key lies directly below
it. -/
theorem leavesNoneOut_mkdir_iff {manager : NamespaceManager} {path : Str} :
    LeavesNoneOut manager (.mkdir path) ↔
      ∀ key ∈ manager.vfs.nodes.keys, parentPath key ≠ some (normalize path) := by
  have hnames : layout.names (.newDir (normalize path)) = some ∅ :=
    congrArg some (Set.eq_empty_of_forall_notMem fun n => List.not_mem_nil)
  show Leaves layout manager.vfs.store.keys [(normalize path, .newDir (normalize path))] ↔ _
  rw [Leaves, Leaves, and_true, written_nil, or_iff_right (Set.notMem_empty _), below_empty]
  constructor
  · intro h key hkey hparent
    have hbelow : lastSegment key ∈ below layout manager.vfs.store.keys (normalize path) :=
      ⟨key, (VfsRegistry.mem_keys_store _).mpr hkey, slot_eq_some hparent⟩
    have hempty := h ∅ hnames
    rw [Set.union_empty, Set.union_empty] at hempty
    rw [← hempty] at hbelow
    exact hbelow
  · intro h ns hns
    have hbelow : below layout manager.vfs.store.keys (normalize path) = ∅ := by
      refine Set.eq_empty_of_forall_notMem fun n hn => ?_
      obtain ⟨key, hkey, hslot⟩ := hn
      obtain ⟨parent, hparent, heq⟩ := Option.map_eq_some_iff.mp hslot
      refine h key ((VfsRegistry.mem_keys_store _).mp hkey) ?_
      rw [hparent, (Prod.mk.inj heq).1]
    rw [hbelow, ← Option.some.inj (hnames.symm.trans hns)]

/-- The invariant of a run: the store agrees, on keys that are fixed points. -/
structure Inv (manager : NamespaceManager) : Prop where
  stable : StableKeys manager.vfs
  agree : Agree layout manager.vfs.store

theorem StableKeys.ownSlots {vfs : VfsRegistry} (h : StableKeys vfs) :
    OwnSlots layout vfs.store :=
  fun k k' _ _ hk hk' hslot hslot' => slot_injective (h k' hk') (h k hk) hslot' hslot

theorem stableKeys_step {manager next : NamespaceManager} {op : Op} (hop : op.StablePaths)
    (hkeys : StableKeys manager.vfs) (h : step manager op = some next) : StableKeys next.vfs := by
  intro key hkey
  rw [store_step h] at hkey
  have hmem := keys_removeAll_subset layout _ _ hkey
  rw [keys_writeAll] at hmem
  rcases hmem with hmem | hmem
  · exact hkeys key hmem
  · obtain ⟨w, hw, rfl⟩ := List.mem_map.mp hmem
    exact hop w hw

/-- A step from a state that agrees ends in one that agrees exactly when it
leaves no name out. -/
theorem agree_step_iff {manager next : NamespaceManager} {op : Op} (hm : Inv manager)
    (h : step manager op = some next) :
    Agree layout next.vfs.store ↔ LeavesNoneOut manager op := by
  rw [store_step h, LeavesNoneOut]
  rcases op.writes_or_removes with hwrites | hremoves
  · rw [hwrites]
    exact iff_of_true (agree_removeAll layout hm.agree hm.stable.ownSlots _) trivial
  · rw [hremoves]
    exact agree_writeAll_iff layout hm.agree op.writes

theorem inv_step {manager next : NamespaceManager} {op : Op} (hop : op.StablePaths)
    (hm : Inv manager) (hok : LeavesNoneOut manager op) (h : step manager op = some next) :
    Inv next where
  stable := stableKeys_step hop hm.stable h
  agree := (agree_step_iff hm h).mpr hok

/-! ## The start -/

/-- The nodes of `seed_core`. -/
def coreWrites : List (Str × Vnode) :=
  [dirWrite "/net".toList, dirWrite "/ai".toList, dirWrite "/proc".toList,
    dirWrite "/msg".toList, dirWrite "/plumber".toList, dirWrite "/ctl".toList,
    ("/ctl/status".toList, .newCtl "status".toList "ok".toList),
    ("/ctl/shutdown".toList, .newCtl "shutdown".toList "write 1 to shutdown".toList),
    ("/plumber/rules".toList, .newFile "rules".toList (bytes "[]".toList))]

theorem store_new : VfsRegistry.new.store =
    writeAll layout (fun _ => none) (VfsRegistry.keyed coreWrites) :=
  VfsRegistry.store_addAll { nodes := ∅ } coreWrites

theorem coreWrites_bare : ∀ w ∈ VfsRegistry.keyed coreWrites, ∀ name children,
    w.2 = .dir name children → children = [] := by
  simp [VfsRegistry.keyed, coreWrites, dirWrite, Vnode.newDir, Vnode.newFile, Vnode.newCtl]

theorem inv_start : Inv start where
  stable := by
    have hall : ∀ key ∈ VfsRegistry.new.nodes.keys, Stable key := by decide
    exact fun key hkey => hall key (VfsRegistry.mem_keys_store _ |>.mp hkey)
  agree := by
    rw [start_vfs, store_new, agree_writeAll_iff layout (agree_empty layout)]
    refine leaves_of_fresh layout ?_ ?_ ?_
    · intro w hw ns hns
      obtain ⟨name, children, hdir, hset⟩ := Vnode.names_eq_some hns
      rw [hset, coreWrites_bare w hw name children hdir]
      exact Set.eq_empty_of_forall_notMem fun n => List.not_mem_nil
    · intro w _
      rw [Store.keys_none, below_empty]
    · decide

/-! ## Runs -/

/-- For the runs whose written paths are fixed points: the two ways to read a
directory agree in every state exactly when no step leaves a name out. -/
theorem readsAgree_iff_leavesNoneOut {ops : List Op} {last : NamespaceManager}
    (hpaths : ∀ op ∈ ops, op.StablePaths) (hrun : run step start ops = some last) :
    Always step (fun manager => ReadsAgree manager.vfs) start ops ↔
      Guarded step LeavesNoneOut start ops := by
  refine always_iff_guarded_on (I := Inv) (A := Op.StablePaths)
    (fun _ _ _ hop hm hok hstep => inv_step hop hm hok hstep)
    (fun manager hm => (readsAgree_iff hm.stable).mpr hm.agree) ?_ hpaths inv_start hrun
  intro manager op next hop hm hnot hstep hreads
  have hstable := stableKeys_step hop hm.stable hstep
  exact hnot ((agree_step_iff hm hstep).mp ((readsAgree_iff hstable).mp hreads))

/-- Making `/ctl` again empties its children vector, while its two files are
still listed. -/
theorem mkdir_again_hides_children :
    ¬ Always step (fun manager => ReadsAgree manager.vfs) start [.mkdir "/ctl".toList] := by
  intro h
  have hreads := h [.mkdir "/ctl".toList] [] _ rfl rfl
  have hget : (VfsRegistry.new.mkdir "/ctl".toList).get "/ctl".toList =
      some (.dir "/ctl".toList []) := by decide
  have hlist : "status".toList ∈ (VfsRegistry.new.mkdir "/ctl".toList).list "/ctl".toList := by
    decide
  exact absurd ((hreads _ _ _ hget _).mpr hlist) (by simp)

/-- The case of one new directory. -/
theorem readsAgree_iff_leavesNoneOut_mkdir :
    Always step (fun manager => ReadsAgree manager.vfs) start [.mkdir "/tmp".toList] := by
  have hpaths : ∀ op ∈ [Op.mkdir "/tmp".toList], op.StablePaths := by
    intro op hop
    rw [List.mem_singleton.mp hop]
    show ∀ w ∈ VfsRegistry.keyed [dirWrite "/tmp".toList], Stable w.1
    decide
  refine (readsAgree_iff_leavesNoneOut hpaths rfl).mpr ⟨?_, fun _ _ => trivial⟩
  rw [leavesNoneOut_mkdir_iff]
  decide

end Xfiles.Fs
