import Xfiles.Fs.Mounts

/-!
# Is the registry a tree?

The registry is a flat map, and no operation checks that a parent is there.
This module proves for which runs every registered path has its parent.

* `Tree` is the property: the parents are directories, every node is reachable
  by listings from the top, and nothing is left below a path that is gone.  On
  fixed points the parents alone decide it (`tree_iff_rooted`).
* `Op.Plain` are the calls with plain names, and `KeepsParents` is the
  condition on a step: `/net` is there when a namespace is written, a manifest
  has no capabilities, and a removed path has nothing below it.
* `tree_iff_keepsParents` is the result for runs.
-/

namespace Xfiles.Fs

open LinkedStore Transition

/-! ## The property -/

/-- The paths that listings reach from a top-level path. -/
inductive Listed (vfs : VfsRegistry) (top : Str) : Str → Prop where
  | top : Listed vfs top top
  | child {dir name : Str} : Listed vfs top dir → name ∈ vfs.list dir →
      Listed vfs top (dir ++ '/' :: name)

structure Tree (vfs : VfsRegistry) : Prop where
  /-- a parent other than the root is a registered directory -/
  parents : ∀ key ∈ vfs.nodes.keys, ∀ parent, parentPath key = some parent → parent ≠ ['/'] →
    ∃ name children, vfs.nodes.lookup parent = some (.dir name children)
  /-- listings reach every node from a registered path at top level -/
  listed : ∀ key ∈ vfs.nodes.keys, ∃ top ∈ vfs.nodes.keys,
    parentPath top = some ['/'] ∧ Listed vfs top key
  /-- nothing is readable below a path that is not registered -/
  pruned : ∀ path, vfs.get path = none → normalize path ≠ ['/'] →
    ∀ key ∈ vfs.nodes.keys, ¬ normalize path ++ ['/'] <+: key

/-- The registry's closure under parents. -/
def Rooted (vfs : VfsRegistry) : Prop := Closed layout {['/']} vfs.store

theorem Tree.rooted {vfs : VfsRegistry} (h : Tree vfs) : Rooted vfs := by
  intro key hkey dir name hslot
  obtain ⟨parent, hparent, heq⟩ := Option.map_eq_some_iff.mp hslot
  have hdir : parent = dir := (Prod.mk.inj heq).1
  by_cases hroot : dir = ['/']
  · exact Or.inl hroot
  · rw [VfsRegistry.mem_keys_store] at hkey
    have hfound := h.parents key hkey dir (by rw [hparent, hdir]) hroot
    exact Or.inr (VfsRegistry.mem_dirs_store.mpr hfound)

theorem dirs_subset_keys {vfs : VfsRegistry} {path : Str} (h : path ∈ dirs layout vfs.store) :
    path ∈ vfs.store.keys := by
  obtain ⟨name, children, hdir⟩ := VfsRegistry.mem_dirs_store.mp h
  exact Option.isSome_of_eq_some hdir

/-- The parent of a key of a rooted registry: it is a directory, and lists the
key. -/
theorem Rooted.parent {vfs : VfsRegistry} (h : Rooted vfs) (hkeys : StableKeys vfs)
    {key last : Str} {parts : List Str} (hkey : key ∈ vfs.store.keys)
    (hcomps : components key = parts ++ [last]) (hne : parts ≠ []) :
    render parts ∈ vfs.store.keys ∧ components (render parts) = parts ∧
      last ∈ vfs.list (render parts) := by
  have hnames : ∀ c ∈ parts, IsComponent c :=
    fun c hc => components_isComponent key c (by simp [hcomps, hc])
  have hslot := slot_of_components (hkeys key hkey) hcomps
  have hdir : render parts ∈ dirs layout vfs.store := by
    refine (h key hkey _ _ hslot).resolve_left fun hroot => ?_
    rw [render_of_ne_nil hne] at hroot
    exact joined_ne_slash hnames hroot
  have hmem := dirs_subset_keys hdir
  have hstable := hkeys _ hmem
  obtain ⟨name, children, hnode⟩ := VfsRegistry.mem_dirs_store.mp hdir
  have hget : vfs.get (render parts) = some (.dir name children) := by
    rw [VfsRegistry.get, hstable]
    exact hnode
  refine ⟨hmem, ?_, ?_⟩
  · exact (render_injective hnames (components_isComponent _) hstable.eq_render).symm
  · rw [mem_list hget, hstable]
    exact ⟨key, hkey, (childName_iff_slot hstable (hkeys key hkey)).mpr hslot⟩

/-- Listings reach every node of a rooted registry.  The induction is on the
components of the key, the last one first. -/
theorem Rooted.listed {vfs : VfsRegistry} (h : Rooted vfs) (hkeys : StableKeys vfs)
    {parts : List Str} (hne : parts ≠ []) {key : Str} (hkey : key ∈ vfs.store.keys)
    (hcomps : components key = parts) :
    ∃ top ∈ vfs.store.keys, parentPath top = some ['/'] ∧ Listed vfs top key := by
  induction parts using List.reverseRecOn generalizing key with
  | nil => exact absurd rfl hne
  | append_singleton parts last ih =>
    by_cases hnil : parts = []
    · rw [hnil] at hcomps
      exact ⟨key, hkey, parentPath_of_components hcomps, Listed.top⟩
    · obtain ⟨hmem, hparent, hlast⟩ := h.parent hkeys hkey hcomps hnil
      obtain ⟨top, htop, hroot, hlisted⟩ := ih hnil hmem hparent
      have hname : key = render parts ++ '/' :: last := by
        rw [(hkeys key hkey).eq_render, hcomps, render_concat, render_of_ne_nil hnil]
      refine ⟨top, htop, hroot, ?_⟩
      rw [hname]
      exact hlisted.child hlast

/-- All ancestors of a key are registered. -/
theorem Rooted.ancestor {vfs : VfsRegistry} (h : Rooted vfs) (hkeys : StableKeys vfs)
    {parts more : List Str} (hne : parts ≠ []) {key : Str} (hkey : key ∈ vfs.store.keys)
    (hcomps : components key = parts ++ more) : render parts ∈ vfs.store.keys := by
  induction more using List.reverseRecOn generalizing key with
  | nil =>
    rw [List.append_nil] at hcomps
    rwa [← hcomps, ← (hkeys key hkey).eq_render]
  | append_singleton more last ih =>
    rw [← List.append_assoc] at hcomps
    obtain ⟨hmem, hparent, -⟩ := h.parent hkeys hkey hcomps (by simp [hne])
    exact ih hmem hparent

theorem Rooted.pruned {vfs : VfsRegistry} (h : Rooted vfs) (hkeys : StableKeys vfs)
    {path key : Str} (hpath : normalize path ≠ ['/']) (hkey : key ∈ vfs.store.keys)
    (hbelow : normalize path ++ ['/'] <+: key) : (vfs.get path).isSome := by
  obtain ⟨rest, hrest⟩ := hbelow
  have hne : components path ≠ [] := fun hnil => hpath (normalize_eq_root.mpr hnil)
  have hkey' : components key ≠ [] := by
    intro hnil
    obtain ⟨s, hs⟩ := joined_eq_slash hne
    rw [normalize_eq, render_of_ne_nil hne, hs, (hkeys key hkey).eq_render, hnil,
      render_nil] at hrest
    exact absurd hrest (by simp)
  -- splitting the key at the slashes gives the components of the path first
  have hsplit := congrArg (List.splitOn '/') hrest
  rw [List.append_assoc, List.singleton_append, List.splitOn_append_cons_self, normalize_eq,
    render_of_ne_nil hne, splitOn_joined hne fun c hc => (components_isComponent path c hc).2.1,
    (hkeys key hkey).eq_render, render_of_ne_nil hkey',
    splitOn_joined hkey' fun c hc => (components_isComponent key c hc).2.1] at hsplit
  have hmem := h.ancestor hkeys hne hkey (List.tail_eq_of_cons_eq hsplit).symm
  rw [← normalize_eq] at hmem
  exact hmem

/-- On fixed points other than the root, the parents alone make a tree. -/
theorem tree_iff_rooted {vfs : VfsRegistry} (hkeys : StableKeys vfs)
    (hroot : ['/'] ∉ vfs.store.keys) : Tree vfs ↔ Rooted vfs := by
  refine ⟨Tree.rooted, fun h => ⟨?_, ?_, ?_⟩⟩
  · intro key hkey parent hparent hne
    rw [← VfsRegistry.mem_keys_store] at hkey
    exact VfsRegistry.mem_dirs_store.mp
      ((h key hkey parent _ (slot_eq_some hparent)).resolve_left hne)
  · intro key hkey
    rw [← VfsRegistry.mem_keys_store] at hkey
    have hne : components key ≠ [] := by
      intro hnil
      rw [(hkeys key hkey).eq_render, hnil, render_nil] at hkey
      exact hroot hkey
    obtain ⟨top, htop, hlisted⟩ := h.listed hkeys hne hkey rfl
    exact ⟨top, (VfsRegistry.mem_keys_store _).mp htop, hlisted⟩
  · intro path hnone hne key hkey hbelow
    rw [← VfsRegistry.mem_keys_store] at hkey
    have hsome := h.pruned hkeys hne hkey hbelow
    rw [hnone] at hsome
    exact absurd hsome (by simp)

/-! ## The condition on a step -/

/-- The calls of the agents and of the HTTP interface, with plain names. -/
def Op.Plain : Op → Prop
  | .mountAgentNs agentId _ | .unmountAgentNs agentId _ | .removeNamespace agentId _ =>
    ProperId agentId
  | .createNamespace manifest => ProperId manifest.agentId ∧
      ∀ cap ∈ manifest.capabilities, ProperId cap.name ∧ ∀ path ∈ cap.paths, ProperId path
  | .remove _ => True
  | .mkdir _ | .addNode .. => False

/-- `/net` is a registered directory. -/
def HasNet (manager : NamespaceManager) : Prop :=
  ∃ name children, manager.vfs.get "/net".toList = some (.dir name children)

/-- The condition on a step: a namespace is written below a registered `/net`
and without capabilities, and a removed path is the root or has nothing directly
below it. -/
def KeepsParents (manager : NamespaceManager) : Op → Prop
  | .mountAgentNs .. => HasNet manager
  | .createNamespace manifest => HasNet manager ∧ manifest.capabilities = []
  | .remove path => normalize path = ['/'] ∨
      ∀ key ∈ manager.vfs.nodes.keys, parentPath key ≠ some (normalize path)
  | .unmountAgentNs .. | .removeNamespace .. | .mkdir _ | .addNode .. => True

/-- The invariant of a run: a rooted registry of core paths and fixed paths. -/
structure TreeInv (manager : NamespaceManager) : Prop where
  shape : manager.vfs.store.keys ⊆ planned {agentId | ProperId agentId}
  rooted : Rooted manager.vfs

theorem stableKeys_of_shape {vfs : VfsRegistry}
    (h : vfs.store.keys ⊆ planned {agentId | ProperId agentId}) : StableKeys vfs :=
  fun _ hkey => stable_planned (fun _ hid => hid) (h hkey)

/-- The components of the planned paths. -/
theorem components_planned {key : Str} (h : key ∈ planned {agentId | ProperId agentId}) :
    (components key).length ≤ 2 ∨ ∃ agentId, ProperId agentId ∧ ∃ parts ∈ nsParts,
      components key = "net".toList :: agentId :: parts := by
  rcases h with hcore | ⟨agentId, hid, hns⟩
  · have hall : ∀ key ∈ corePaths, (components key).length ≤ 2 := by decide
    exact Or.inl (hall key hcore)
  · obtain ⟨parts, hparts, rfl⟩ := mem_nsPaths.mp hns
    exact Or.inr ⟨agentId, hid, parts, hparts,
      components_append hid (nsParts_properId parts hparts)⟩

theorem hasNet_iff {manager : NamespaceManager} :
    HasNet manager ↔ "/net".toList ∈ dirs layout manager.vfs.store := by
  rw [HasNet, VfsRegistry.get, stable_corePaths _ net_mem_corePaths]
  exact VfsRegistry.mem_dirs_store.symm

theorem root_notMem_planned : ['/'] ∉ planned {agentId | ProperId agentId} := by
  intro h
  have hroot : components ['/'] = [] := by decide
  have hcore : ∀ key ∈ corePaths, key ≠ ['/'] := by decide
  rcases h with h | ⟨agentId, hid, hns⟩
  · exact hcore _ h rfl
  · obtain ⟨parts, hparts, heq⟩ := mem_nsPaths.mp hns
    rw [heq, components_append hid (nsParts_properId parts hparts)] at hroot
    exact absurd hroot (by simp)

theorem TreeInv.tree {manager : NamespaceManager} (h : TreeInv manager) : Tree manager.vfs :=
  (tree_iff_rooted (stableKeys_of_shape h.shape)
    fun hroot => root_notMem_planned (h.shape hroot)).mpr h.rooted

/-! ## Writing a namespace -/

/-- The components of the files of a namespace. -/
def nsLeaves : List (List Str) :=
  [["hostname".toList], ["ctl".toList, "status".toList], ["ctl".toList, "capabilities".toList],
    ["msg".toList, "inbox".toList], ["msg".toList, "outbox".toList]]

/-- A list of writes of the fixed paths, with files at the leaves alone. -/
structure NsWrites (agentId : Str) (ws : List (Str × Vnode)) : Prop where
  paths : ∀ path, path ∈ ws.map Prod.fst ↔ path ∈ nsPaths agentId
  files : ∀ w ∈ ws, (layout.names w.2).isSome ∨
    ∃ parts ∈ nsLeaves, w.1 = nsRoot agentId ++ joined parts

theorem nsWrites_mount (agentId hostname : Str) :
    NsWrites agentId (mountWrites agentId hostname) where
  paths := fun _ => mem_mountWrites_path
  files := by
    simp only [mountWrites, List.forall_mem_cons]
    refine ⟨Or.inl rfl, Or.inl rfl, Or.inl rfl, Or.inr ⟨["hostname".toList], ?_, rfl⟩,
      Or.inr ⟨["ctl".toList, "status".toList], ?_, rfl⟩,
      Or.inr ⟨["ctl".toList, "capabilities".toList], ?_, rfl⟩,
      Or.inr ⟨["msg".toList, "inbox".toList], ?_, rfl⟩,
      Or.inr ⟨["msg".toList, "outbox".toList], ?_, rfl⟩, by simp⟩ <;> decide

theorem nsWrites_create {manifest : CapabilityManifest} (h : manifest.capabilities = []) :
    NsWrites manifest.agentId (createWrites manifest) where
  paths := by
    intro path
    rw [mem_createWrites_path, h]
    simp
  files := by
    rw [createWrites, h, List.flatMap_nil, List.append_nil]
    simp only [baseWrites, List.forall_mem_cons]
    refine ⟨Or.inl rfl, Or.inl rfl, Or.inr ⟨["hostname".toList], ?_, rfl⟩,
      Or.inr ⟨["ctl".toList, "status".toList], ?_, rfl⟩,
      Or.inr ⟨["ctl".toList, "capabilities".toList], ?_, rfl⟩, Or.inl rfl,
      Or.inr ⟨["msg".toList, "inbox".toList], ?_, rfl⟩,
      Or.inr ⟨["msg".toList, "outbox".toList], ?_, rfl⟩, by simp⟩ <;> decide

theorem NsWrites.written {agentId : Str} {ws : List (Str × Vnode)} (h : NsWrites agentId ws)
    (hid : ProperId agentId) :
    LinkedStore.written (VfsRegistry.keyed ws) = {key | key ∈ nsPaths agentId} := by
  rw [written_keyed fun path hpath => stable_nsPaths hid ((h.paths path).mp hpath)]
  exact Set.ext h.paths

/-- The directory that a fixed path is linked in. -/
theorem slot_nsPaths {agentId key dir name : Str} (hid : ProperId agentId)
    (hkey : key ∈ nsPaths agentId) (hslot : slot key = some (dir, name)) :
    dir = "/net".toList ∨ dir ∈ nsPaths agentId := by
  obtain ⟨parts, hparts, rfl⟩ := mem_nsPaths.mp hkey
  have hnames := nsParts_properId parts hparts
  have hcomps := components_append hid hnames
  have hstable := stable_append hid hnames
  rcases List.eq_nil_or_concat' parts with rfl | ⟨first, last, rfl⟩
  · rw [@slot_of_components _ hstable ["net".toList] agentId hcomps] at hslot
    exact Or.inl (Prod.mk.inj (Option.some.inj hslot)).1.symm
  · rw [@slot_of_components _ hstable ("net".toList :: agentId :: first) last hcomps] at hslot
    have hclosed : ∀ parts ∈ nsParts, parts.dropLast ∈ nsParts := by decide
    have hfirst := hclosed _ hparts
    rw [List.dropLast_concat] at hfirst
    refine Or.inr (mem_nsPaths.mpr ⟨first, hfirst, ?_⟩)
    rw [← (Prod.mk.inj (Option.some.inj hslot)).1, render_of_ne_nil (by simp), nsRoot_append]

/-- No planned path lies below a file of a namespace. -/
theorem not_below_leaf {agentId key name : Str} {parts : List Str} (hid : ProperId agentId)
    (hparts : parts ∈ nsLeaves) (hkey : key ∈ planned {agentId | ProperId agentId}) :
    slot key ≠ some (nsRoot agentId ++ joined parts, name) := by
  intro hslot
  have hleaves : ∀ parts ∈ nsLeaves, parts ∈ nsParts ∧ ∀ more ∈ nsParts,
      more.dropLast ≠ parts := by decide
  have hnames := nsParts_properId parts (hleaves parts hparts).1
  have hcomps := childName_iff.mp ((childName_iff_slot (stable_append hid hnames)
    (stable_planned (fun _ h => h) hkey)).mpr hslot)
  rw [components_append hid hnames] at hcomps
  rcases components_planned hkey with hshort | ⟨other, -, more, hmore, hlong⟩
  · rw [hcomps] at hshort
    simp at hshort
  · rw [hcomps] at hlong
    have heq : parts ++ [name] = more := (List.cons.inj (List.cons.inj hlong).2).2
    refine (hleaves parts hparts).2 more hmore ?_
    rw [← heq, List.dropLast_concat]

/-- Writing the fixed paths below a registered `/net` keeps the invariant. -/
theorem treeInv_nsWrites {manager next : NamespaceManager} {agentId : Str}
    {ws : List (Str × Vnode)} (hws : NsWrites agentId ws) (hid : ProperId agentId)
    (hm : TreeInv manager) (hnet : HasNet manager)
    (hstore : next.vfs.store = writeAll layout manager.vfs.store (VfsRegistry.keyed ws)) :
    TreeInv next := by
  have hshape : manager.vfs.store.keys ∪ {key | key ∈ nsPaths agentId} ⊆
      planned {agentId | ProperId agentId} :=
    Set.union_subset hm.shape fun key hkey => Or.inr ⟨agentId, hid, hkey⟩
  refine ⟨?_, ?_⟩
  · rw [hstore, keys_writeAll, hws.written hid]
    exact hshape
  · rw [Rooted, hstore]
    refine closed_writeAll layout hm.rooted ?_ ?_
    · rintro w hw ⟨key, hkey, name, hslot⟩
      rw [hws.written hid] at hkey
      obtain ⟨w', hw', rfl⟩ := List.mem_map.mp hw
      rcases hws.files w' hw' with hdir | ⟨parts, hparts, hpath⟩
      · exact hdir
      · have hstable := stable_nsPaths hid ((hws.paths w'.1).mp (List.mem_map_of_mem hw'))
        rw [show normalize w'.1 = w'.1 from hstable, hpath] at hslot
        exact absurd hslot (not_below_leaf hid hparts (hshape hkey))
    · intro key hkey dir name hslot
      rw [hws.written hid] at hkey ⊢
      rcases slot_nsPaths hid hkey hslot with hroot | hmem
      · rw [hroot]
        exact Or.inr (Or.inl (hasNet_iff.mp hnet))
      · exact Or.inr (Or.inr hmem)

/-- Without `/net` the namespace's own path has no parent. -/
theorem not_rooted_of_nsWrites {manager next : NamespaceManager} {agentId : Str}
    {ws : List (Str × Vnode)} (hws : NsWrites agentId ws) (hid : ProperId agentId)
    (hnet : ¬ HasNet manager)
    (hstore : next.vfs.store = writeAll layout manager.vfs.store (VfsRegistry.keyed ws)) :
    ¬ Rooted next.vfs := by
  intro h
  have hroot : nsRoot agentId ∈ next.vfs.store.keys := by
    rw [hstore, keys_writeAll, hws.written hid]
    exact Or.inr List.mem_cons_self
  have hstable := stable_nsPaths hid (List.mem_cons_self : nsRoot agentId ∈ nsPaths agentId)
  have hcomps := @components_append agentId hid [] (by simp)
  rw [joined_nil, List.append_nil] at hcomps
  rcases h _ hroot _ _ (@slot_of_components _ hstable ["net".toList] agentId hcomps) with
    hbad | hdir
  · exact absurd hbad (by decide)
  · rw [hstore, dirs_writeAll_of_notMem] at hdir
    · exact hnet (hasNet_iff.mpr hdir)
    · rw [hws.written hid]
      exact net_notMem_nsPaths hid

/-! ## Capabilities -/

/-- The paths of a capability with plain names lie below its own name. -/
theorem mem_capabilityPaths {agentId path : Str} {cap : Capability}
    (hpaths : ∀ path ∈ cap.paths, ProperId path)
    (h : path ∈ capabilityPaths (nsRoot agentId) cap) :
    ∃ rest, (∀ c ∈ rest, ProperId c) ∧
      path = nsRoot agentId ++ joined ("cap".toList :: cap.name :: rest) := by
  have hdir : ∀ rest, nsRoot agentId ++ joined ("cap".toList :: cap.name :: rest) =
      nsRoot agentId ++ "/cap/".toList ++ cap.name ++ joined rest := by
    intro rest
    rw [joined_cons, joined_cons]
    simp
  simp only [hdir]
  rcases List.mem_cons.mp h with h | h
  · exact ⟨[], by simp, by rw [h, joined_nil, List.append_nil]⟩
  rcases List.mem_cons.mp h with h | h
  · exact ⟨["version".toList], by decide, h⟩
  · obtain ⟨bound, hbound, rfl⟩ := List.mem_map.mp h
    refine ⟨[bound], by simpa using hpaths bound hbound, ?_⟩
    have hslash : bound.dropWhile (· = '/') = bound := by
      rw [List.dropWhile_eq_self_iff]
      intro hpos
      have hne : bound[0] ≠ '/' := fun heq =>
        (hpaths bound hbound).1.2.1 (heq ▸ List.getElem_mem hpos)
      simpa using hne
    rw [boundPath, hslash, joined_cons, joined_nil, List.append_nil, List.append_assoc]
    rfl

/-- A namespace with a capability has a directory whose parent is missing. -/
theorem not_rooted_of_capability {manager next : NamespaceManager}
    {manifest : CapabilityManifest} (hplain : (Op.createNamespace manifest).Plain)
    (hm : TreeInv manager) (hcaps : manifest.capabilities ≠ [])
    (hstore : next.vfs.store =
      writeAll layout manager.vfs.store (VfsRegistry.keyed (createWrites manifest))) :
    ¬ Rooted next.vfs := by
  intro h
  obtain ⟨hid, hall⟩ := hplain
  have hcap : ProperId "cap".toList := by decide
  have hproper : ∀ cap ∈ manifest.capabilities, ∀ rest, (∀ c ∈ rest, ProperId c) →
      ∀ c ∈ "cap".toList :: cap.name :: rest, ProperId c := by
    intro cap hmem rest hrest c hc
    rw [List.mem_cons, List.mem_cons] at hc
    rcases hc with rfl | rfl | hc
    · exact hcap
    · exact (hall cap hmem).1
    · exact hrest c hc
  -- the written paths and their components
  have hwritten : ∀ path ∈ (createWrites manifest).map Prod.fst, Stable path ∧
      components path ≠ ["net".toList, manifest.agentId, "cap".toList] := by
    intro path hpath
    rcases mem_createWrites_path.mp hpath with hpath | ⟨cap, hmem, hpath⟩
    · have hnone : ["cap".toList] ∉ nsParts := by decide
      refine ⟨stable_nsPaths hid hpath, fun hcomps => ?_⟩
      obtain ⟨parts, hparts, rfl⟩ := mem_nsPaths.mp hpath
      rw [components_append hid (nsParts_properId parts hparts)] at hcomps
      have heq : parts = ["cap".toList] := (List.cons.inj (List.cons.inj hcomps).2).2
      exact hnone (heq ▸ hparts)
    · obtain ⟨rest, hrest, rfl⟩ := mem_capabilityPaths (hall cap hmem).2 hpath
      have hnames := hproper cap hmem rest hrest
      refine ⟨stable_append hid hnames, fun hcomps => ?_⟩
      rw [components_append hid hnames] at hcomps
      exact absurd hcomps (by simp)
  -- the directory of the first capability is there, its parent is not
  obtain ⟨cap, hmem⟩ := List.exists_mem_of_ne_nil _ hcaps
  have hnames := hproper cap hmem [] (by simp)
  have hkey : nsRoot manifest.agentId ++ joined ["cap".toList, cap.name] ∈
      next.vfs.store.keys := by
    rw [hstore, keys_writeAll, written_keyed fun path hpath => (hwritten path hpath).1]
    refine Or.inr (mem_createWrites_path.mpr (Or.inr ⟨cap, hmem, ?_⟩))
    rw [joined_cons, joined_cons, joined_nil, List.append_nil, capabilityPaths, List.append_assoc]
    exact List.mem_cons_self
  have hslot := @slot_of_components _ (stable_append hid hnames)
    ["net".toList, manifest.agentId, "cap".toList] cap.name (components_append hid hnames)
  have hparent : nsRoot manifest.agentId ++ joined ["cap".toList] =
      render ["net".toList, manifest.agentId, "cap".toList] := by
    rw [render_of_ne_nil (by simp), nsRoot_append]
  have hcomps := @components_append manifest.agentId hid ["cap".toList] (by simpa using hcap)
  rw [hparent] at hcomps
  rcases h _ hkey _ _ hslot with hbad | hdir
  · rw [Set.mem_singleton_iff.mp hbad, normalize_eq_root.mp (by decide)] at hcomps
    exact absurd hcomps (by simp)
  · have hdir := dirs_subset_keys hdir
    rw [hstore, keys_writeAll, written_keyed fun path hpath => (hwritten path hpath).1] at hdir
    rcases hdir with hold | hnew
    · rcases components_planned (hm.shape hold) with hshort | ⟨_, _, parts, hparts, hlong⟩
      · rw [hcomps] at hshort
        exact absurd hshort (by simp)
      · have hnone : ["cap".toList] ∉ nsParts := by decide
        rw [hcomps] at hlong
        have heq : ["cap".toList] = parts := (List.cons.inj (List.cons.inj hlong).2).2
        exact hnone (heq ▸ hparts)
    · exact (hwritten _ hnew).2 hcomps

/-! ## Removals -/

/-- Removing the keys of a subtree keeps the invariant. -/
theorem treeInv_unmount {manager next : NamespaceManager} {agentId : Str} {order : List Str}
    (hid : ProperId agentId) (hm : TreeInv manager)
    (hperm : order.Perm (manager.vfs.toRemove agentId))
    (hstore : next.vfs.store = removeAll layout manager.vfs.store order) : TreeInv next := by
  have hkeys := stableKeys_of_shape hm.shape
  refine ⟨?_, ?_⟩
  · rw [hstore]
    exact (keys_removeAll_subset layout _ _).trans hm.shape
  · rw [Rooted, hstore]
    refine closed_removeAll layout hm.rooted fun key hkey hstays dir name hslot hgone => hstays ?_
    -- what lies below a removed directory is removed as well
    obtain ⟨hdir, hin⟩ := VfsRegistry.mem_toRemove.mp (hperm.mem_iff.mp hgone)
    exact hperm.mem_iff.mpr (VfsRegistry.mem_toRemove.mpr
      ⟨hkey, inSubtree_of_slot hid (hkeys key hkey) (hkeys dir hdir) hslot hin⟩)

/-- Removing a path keeps the closure exactly when it is the root or nothing
lies directly below it. -/
theorem rooted_remove_iff {manager next : NamespaceManager} {path : Str} (hm : TreeInv manager)
    (hstore : next.vfs.store = LinkedStore.remove layout manager.vfs.store (normalize path)) :
    Rooted next.vfs ↔ KeepsParents manager (.remove path) := by
  show Rooted next.vfs ↔ normalize path = ['/'] ∨ ∀ key ∈ manager.vfs.nodes.keys, _
  by_cases hroot : normalize path = ['/']
  · have hnone : manager.vfs.store ['/'] = none := by
      by_contra hsome
      exact root_notMem_planned (hm.shape (Option.isSome_iff_ne_none.mpr hsome))
    rw [hroot, remove_of_none layout hnone] at hstore
    rw [Rooted, hstore]
    exact iff_of_true hm.rooted (Or.inl hroot)
  · rw [or_iff_right hroot, Rooted, hstore, closed_remove_iff layout hm.rooted hroot]
    refine forall_congr' fun key => imp_congr (VfsRegistry.mem_keys_store _) ?_
    constructor
    · intro h hparent
      exact h _ (slot_eq_some hparent)
    · intro h name hslot
      obtain ⟨parent, hparent, heq⟩ := Option.map_eq_some_iff.mp hslot
      rw [hparent, (Prod.mk.inj heq).1] at h
      exact h rfl

/-! ## Runs -/

theorem treeInv_start : TreeInv start where
  shape := by
    rw [plan_start.keys]
    rintro key (hcore | ⟨agentId, hbad, -⟩)
    · exact Or.inl hcore
    · exact absurd hbad (Set.notMem_empty _)
  rooted := by
    have hdirs : ∀ w ∈ VfsRegistry.keyed coreWrites, ∀ key ∈ corePaths,
        (slot key).map Prod.fst = some w.1 → w.2.isDir := by decide
    have hslots : ∀ key ∈ corePaths,
        (slot key).map Prod.fst ∈ some ['/'] :: corePaths.map some := by decide
    have hwritten : written (VfsRegistry.keyed coreWrites) = {key | key ∈ corePaths} :=
      written_keyed stable_corePaths
    show Closed layout {['/']} VfsRegistry.new.store
    rw [store_new]
    refine closed_writeAll layout (fun key hkey => ?_) ?_ ?_
    · rw [Store.keys_none] at hkey
      exact absurd hkey (Set.notMem_empty _)
    · rintro w hw ⟨key, hkey, name, hslot⟩
      rw [Store.keys_none, Set.empty_union, hwritten] at hkey
      have hdir := hdirs w hw key hkey (by rw [show slot key = some (w.1, name) from hslot]; rfl)
      obtain ⟨path, node⟩ := w
      cases node with
      | dir => rfl
      | file => exact absurd hdir (by simp [Vnode.isDir])
      | ctl => exact absurd hdir (by simp [Vnode.isDir])
      | symlink => exact absurd hdir (by simp [Vnode.isDir])
    · intro key hkey dir name hslot
      rw [hwritten] at hkey ⊢
      have hmem := hslots key hkey
      rw [show slot key = some (dir, name) from hslot, Option.map_some, List.mem_cons,
        List.mem_map] at hmem
      rcases hmem with hroot | ⟨other, hother, heq⟩
      · exact Or.inl (Option.some.inj hroot)
      · have hdir : other = dir := Option.some.inj heq
        exact Or.inr (Or.inr (hdir ▸ hother))

theorem treeInv_step {manager next : NamespaceManager} {op : Op} (hop : op.Plain)
    (hm : TreeInv manager) (hok : KeepsParents manager op) (h : step manager op = some next) :
    TreeInv next := by
  have hstore := store_step h
  cases op with
  | mkdir => exact absurd hop id
  | addNode => exact absurd hop id
  | remove path =>
    refine ⟨?_, (rooted_remove_iff hm hstore).mpr hok⟩
    rw [hstore]
    exact (keys_removeAll_subset layout _ _).trans hm.shape
  | mountAgentNs agentId hostname =>
    rw [Op.removes, removeAll_nil, Op.writes] at hstore
    exact treeInv_nsWrites (nsWrites_mount agentId hostname) hop hm hok hstore
  | unmountAgentNs agentId order =>
    rw [step, Option.ite_none_right_eq_some] at h
    exact treeInv_unmount hop hm h.1 hstore
  | createNamespace manifest =>
    rw [Op.removes, removeAll_nil, Op.writes] at hstore
    exact treeInv_nsWrites (nsWrites_create hok.2) hop.1 hm hok.1 hstore
  | removeNamespace agentId order =>
    rw [step, Option.ite_none_right_eq_some] at h
    exact treeInv_unmount hop hm h.1 hstore

/-- A step outside the condition leaves a path without its parent. -/
theorem not_rooted_step {manager next : NamespaceManager} {op : Op} (hop : op.Plain)
    (hm : TreeInv manager) (hbad : ¬ KeepsParents manager op) (h : step manager op = some next) :
    ¬ Rooted next.vfs := by
  have hstore := store_step h
  cases op with
  | mkdir => exact absurd trivial hbad
  | addNode => exact absurd trivial hbad
  | remove path => exact fun hrooted => hbad ((rooted_remove_iff hm hstore).mp hrooted)
  | mountAgentNs agentId hostname =>
    rw [Op.removes, removeAll_nil, Op.writes] at hstore
    exact not_rooted_of_nsWrites (nsWrites_mount agentId hostname) hop hbad hstore
  | unmountAgentNs => exact absurd trivial hbad
  | createNamespace manifest =>
    rw [Op.removes, removeAll_nil, Op.writes] at hstore
    by_cases hcaps : manifest.capabilities = []
    · exact not_rooted_of_nsWrites (nsWrites_create hcaps) hop.1 (fun hnet => hbad ⟨hnet, hcaps⟩)
        hstore
    · exact not_rooted_of_capability hop hm hcaps hstore
  | removeNamespace => exact absurd trivial hbad

/-- For the runs of calls with plain names: the registry is a tree in every
state exactly when each step keeps the parents. -/
theorem tree_iff_keepsParents {ops : List Op} {last : NamespaceManager}
    (hops : ∀ op ∈ ops, op.Plain) (hrun : run step start ops = some last) :
    Always step (fun manager => Tree manager.vfs) start ops ↔
      Guarded step KeepsParents start ops := by
  refine always_iff_guarded_on (fun _ _ _ => treeInv_step) (fun _ => TreeInv.tree) ?_ hops
    treeInv_start hrun
  intro manager op next hop hm hbad hstep htree
  exact not_rooted_step hop hm hbad hstep htree.rooted

/-- A manifest with one capability, all of whose names are plain. -/
def chatManifest : CapabilityManifest where
  agentId := "a".toList
  hostname := "h".toList
  capabilities := [{ name := "chat".toList, version := "1".toList, paths := [], metadata := [] }]

/-- Its namespace has `/net/a/cap/chat`, and no `/net/a/cap`. -/
theorem capability_without_parent :
    (Op.createNamespace chatManifest).Plain ∧
      ¬ Always step (fun manager => Tree manager.vfs) start [.createNamespace chatManifest] := by
  have hplain : (Op.createNamespace chatManifest).Plain := by
    refine ⟨by decide, fun cap hcap => ?_⟩
    rw [List.mem_singleton.mp hcap]
    exact ⟨by decide, by simp⟩
  refine ⟨hplain, fun h => ?_⟩
  have htree := h [.createNamespace chatManifest] [] _ rfl rfl
  exact not_rooted_step hplain treeInv_start (fun hok => absurd hok.2 (by simp [chatManifest])) rfl
    htree.rooted

/-- The case of one mount. -/
theorem tree_iff_keepsParents_mount :
    Always step (fun manager => Tree manager.vfs) start
      [.mountAgentNs "a".toList "h".toList] := by
  have hops : ∀ op ∈ [Op.mountAgentNs "a".toList "h".toList], op.Plain := by
    intro op hop
    rw [List.mem_singleton.mp hop]
    show ProperId _
    decide
  refine (tree_iff_keepsParents hops rfl).mpr ⟨?_, fun _ _ => trivial⟩
  exact hasNet_iff.mpr plan_start.net

end Xfiles.Fs
