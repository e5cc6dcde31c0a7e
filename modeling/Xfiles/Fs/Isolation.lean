import Xfiles.Fs.Namespace

/-!
# Namespace isolation

`create_namespace` and `mount_agent_ns` build their paths by putting the agent
id and the capability names and paths into one string, and `normalize` resolves
that string afterwards.  This module proves for which ids and manifests the
writes stay below `/net/<agent id>`.

* `InSubtree` is the subtree of an agent, and `Isolated` says that nothing
  outside it changed but for the child link in `/net`.
* `isolated_addAll_iff` reduces isolation in all states to one condition on
  each path, `StaysBelow`: the normalized path is in the subtree, and so is the
  directory that it is linked in.
* `staysBelow_nsPaths_iff` decides that condition for the fixed paths of a
  namespace: the id is a `ProperId`.
* `isolated_iff` puts the two together.
-/

namespace Xfiles.Fs

open LinkedStore

/-- The path is the agent's namespace, or lies strictly below it. -/
def InSubtree (agentId path : Str) : Prop :=
  path = nsRoot agentId ∨ nsRoot agentId ++ ['/'] <+: path

instance (agentId path : Str) : Decidable (InSubtree agentId path) :=
  inferInstanceAs (Decidable (_ ∨ _))

/-- Outside the agent's subtree each key keeps its node, except that `/net`
takes the agent as a child. -/
def Isolated (agentId : Str) (before after : VfsRegistry) : Prop :=
  ∀ key, ¬ InSubtree agentId key →
    after.store key = before.store key ∨
      key = "/net".toList ∧ after.store key = (before.store key).map (Vnode.link agentId)

/-- The path is written in the agent's subtree, and linked there or as the
child of `/net`. -/
def StaysBelow (agentId path : Str) : Prop :=
  InSubtree agentId (normalize path) ∧
    ∀ dir name, slot (normalize path) = some (dir, name) →
      InSubtree agentId dir ∨ dir = "/net".toList ∧ name = agentId

/-- A single path component that does not end in white space. -/
def ProperId (agentId : Str) : Prop := IsComponent agentId ∧ trimEnd agentId = agentId

instance : DecidablePred ProperId := fun _ => inferInstanceAs (Decidable (_ ∧ _))

/-! ## Lists of additions -/

theorem Isolated.refl (agentId : Str) (vfs : VfsRegistry) : Isolated agentId vfs vfs :=
  fun _ _ => Or.inl rfl

theorem Vnode.link_link (name : Str) (node : Vnode) :
    (node.link name).link name = node.link name := by
  cases node with
  | dir _ children =>
    show Vnode.dir _ (if name ∈ (if _ then _ else _) then _ else _) = _
    rw [if_pos (by split_ifs with h <;> simp [h])]
    rfl
  | file => rfl
  | ctl => rfl
  | symlink => rfl

/-- One addition that stays below keeps isolation. -/
theorem Isolated.addNode {agentId path : Str} {before vfs : VfsRegistry} (node : Vnode)
    (hpath : StaysBelow agentId path) (h : Isolated agentId before vfs) :
    Isolated agentId before (vfs.addNode path node) := by
  intro key hkey
  obtain ⟨hin, hslot⟩ := hpath
  have hne : key ≠ normalize path := fun heq => hkey (heq ▸ hin)
  rw [VfsRegistry.store_addNode]
  by_cases hlink : ∃ name, slot (normalize path) = some (key, name)
  · obtain ⟨name, hlink⟩ := hlink
    rw [write_of_slot layout vfs.store node hlink]
    rcases hslot key name hlink with hbad | ⟨hnet, hname⟩
    · exact absurd hbad hkey
    · refine Or.inr ⟨hnet, ?_⟩
      rw [hname]
      rcases h key hkey with hsame | ⟨-, hlinked⟩
      · rw [hsame]
        rfl
      · rw [hlinked, Option.map_map]
        exact congrArg (Option.map · _) (funext (Vnode.link_link agentId))
  · rw [write_of_ne layout vfs.store node hne fun name hn => hlink ⟨name, hn⟩]
    exact h key hkey

theorem isolated_addAll {agentId : Str} {ws : List (Str × Vnode)}
    (h : ∀ w ∈ ws, StaysBelow agentId w.1) {before vfs : VfsRegistry}
    (hvfs : Isolated agentId before vfs) : Isolated agentId before (vfs.addAll ws) := by
  induction ws generalizing vfs with
  | nil => exact hvfs
  | cons w ws ih =>
    rw [VfsRegistry.addAll_cons]
    exact ih (fun w' hw' => h w' (List.mem_cons_of_mem _ hw'))
      (hvfs.addNode w.2 (h w List.mem_cons_self))

theorem mem_written_keyed {ws : List (Str × Vnode)} {w : Str × Vnode} (h : w ∈ ws) :
    normalize w.1 ∈ written (VfsRegistry.keyed ws) := by
  show normalize w.1 ∈ (ws.map fun w => (normalize w.1, w.2)).map Prod.fst
  rw [List.map_map]
  exact List.mem_map.mpr ⟨w, h, rfl⟩

/-- A key that the list writes is there afterwards. -/
theorem isSome_addAll (vfs : VfsRegistry) {ws : List (Str × Vnode)} {w : Str × Vnode}
    (h : w ∈ ws) : ((vfs.addAll ws).store (normalize w.1)).isSome := by
  rw [VfsRegistry.store_addAll, ← Store.mem_keys, keys_writeAll]
  exact Or.inr (mem_written_keyed h)

/-- From the empty registry a write outside the subtree shows. -/
theorem inSubtree_of_isolated {agentId : Str} {ws : List (Str × Vnode)}
    (h : ∀ vfs : VfsRegistry, Isolated agentId vfs (vfs.addAll ws)) {w : Str × Vnode}
    (hw : w ∈ ws) : InSubtree agentId (normalize w.1) := by
  by_contra hout
  have hsome := isSome_addAll { nodes := ∅ } hw
  rcases h { nodes := ∅ } (normalize w.1) hout with hsame | ⟨-, hlinked⟩
  · rw [hsame] at hsome
    exact absurd hsome (by simp [VfsRegistry.store])
  · rw [hlinked] at hsome
    exact absurd hsome (by simp [VfsRegistry.store])

/-- The registry with one empty directory. -/
def oneDir (dir : Str) : VfsRegistry := { nodes := AList.insert dir (.newDir dir) ∅ }

theorem namesAt_oneDir (dir : Str) : namesAt layout (oneDir dir).store dir = some ∅ := by
  have hdir : (oneDir dir).store dir = some (.newDir dir) := AList.lookup_insert _
  rw [namesAt, hdir]
  exact congrArg some (Set.eq_empty_of_forall_notMem fun n => List.not_mem_nil)

/-- Outside the subtree a directory shows its old names, and `/net` perhaps the
agent. -/
theorem Isolated.namesAt {agentId key : Str} {before after : VfsRegistry}
    (h : Isolated agentId before after) (hkey : ¬ InSubtree agentId key) :
    namesAt layout after.store key = namesAt layout before.store key ∨
      key = "/net".toList ∧
        namesAt layout after.store key = (namesAt layout before.store key).map (· ∪ {agentId}) := by
  rw [LinkedStore.namesAt, LinkedStore.namesAt]
  rcases h key hkey with hsame | ⟨hnet, hlinked⟩
  · exact Or.inl (by rw [hsame])
  · refine Or.inr ⟨hnet, ?_⟩
    rw [hlinked]
    cases before.store key with
    | none => rfl
    | some node => exact layout.names_link agentId node

/-- From a registry with the parent alone, a link outside the subtree shows. -/
theorem staysBelow_of_isolated {agentId : Str} {ws : List (Str × Vnode)}
    (h : ∀ vfs : VfsRegistry, Isolated agentId vfs (vfs.addAll ws)) {w : Str × Vnode}
    (hw : w ∈ ws) : StaysBelow agentId w.1 := by
  refine ⟨inSubtree_of_isolated h hw, fun dir name hslot => ?_⟩
  by_contra hout
  obtain ⟨hdir, hnet⟩ := not_or.mp hout
  have hunwritten : dir ∉ written (VfsRegistry.keyed ws) := by
    intro hmem
    obtain ⟨w', hw', heq⟩ := List.mem_map.mp hmem
    obtain ⟨w'', hw'', rfl⟩ := List.mem_map.mp hw'
    exact hdir (heq ▸ inSubtree_of_isolated h hw'')
  have hbelow : name ∈ below layout (written (VfsRegistry.keyed ws)) dir :=
    ⟨normalize w.1, mem_written_keyed hw, hslot⟩
  have hnames := namesAt_writeAll layout (oneDir dir).store hunwritten
  rw [← VfsRegistry.store_addAll] at hnames
  -- the directory gains `name`, which neither case of isolation allows
  rcases (h (oneDir dir)).namesAt hdir with hsame | ⟨heq, hlinked⟩
  · rw [hnames, namesAt_oneDir, Option.map_some, Set.empty_union, Option.some.injEq] at hsame
    rw [hsame] at hbelow
    exact hbelow
  · rw [hnames, namesAt_oneDir, Option.map_some, Option.map_some, Set.empty_union,
      Set.empty_union, Option.some.injEq] at hlinked
    rw [hlinked] at hbelow
    exact hnet ⟨heq, hbelow⟩

/-- A list of additions is isolated in every state exactly when each of its
paths stays below. -/
theorem isolated_addAll_iff {agentId : Str} {ws : List (Str × Vnode)} :
    (∀ vfs : VfsRegistry, Isolated agentId vfs (vfs.addAll ws)) ↔
      ∀ path ∈ ws.map Prod.fst, StaysBelow agentId path := by
  constructor
  · intro h path hpath
    obtain ⟨w, hw, rfl⟩ := List.mem_map.mp hpath
    exact staysBelow_of_isolated h hw
  · intro h vfs
    exact isolated_addAll (fun w hw => h w.1 (List.mem_map_of_mem hw)) (Isolated.refl agentId vfs)

/-! ## The fixed paths -/

theorem nsRoot_eq (agentId : Str) : nsRoot agentId = joined ["net".toList, agentId] := by
  rw [joined_cons, joined_cons, joined_nil, List.append_nil]
  rfl

theorem nsRoot_eq_slash (agentId : Str) : nsRoot agentId = '/' :: ("net/".toList ++ agentId) := rfl

theorem inSubtree_append (agentId : Str) {parts : List Str} :
    InSubtree agentId (nsRoot agentId ++ joined parts) := by
  by_cases h : parts = []
  · left
    rw [h, joined_nil, List.append_nil]
  · obtain ⟨s, hs⟩ := joined_eq_slash h
    right
    rw [hs]
    exact ⟨s, by simp⟩

theorem Stable.staysBelow {agentId path dir name : Str} (hstable : Stable path)
    (hslot : slot path = some (dir, name)) (hin : InSubtree agentId path)
    (hdir : InSubtree agentId dir ∨ dir = "/net".toList ∧ name = agentId) :
    StaysBelow agentId path := by
  rw [StaysBelow, hstable, hslot]
  refine ⟨hin, fun dir' name' heq => ?_⟩
  obtain ⟨hdir', hname'⟩ := Prod.mk.inj (Option.some.inj heq)
  rwa [← hdir', ← hname']

/-- Proper ids are the components of the path that they make. -/
theorem components_joined_of_properId {parts : List Str} (hne : parts ≠ [])
    (h : ∀ c ∈ parts, ProperId c) : components (joined parts) = parts := by
  obtain hnil | ⟨first, last, rfl⟩ := List.eq_nil_or_concat' parts
  · exact absurd hnil hne
  · exact components_joined (fun c hc => (h c hc).1) (h last (by simp)).2

theorem stable_joined_of_properId {parts : List Str} (hne : parts ≠ [])
    (h : ∀ c ∈ parts, ProperId c) : Stable (joined parts) := by
  obtain hnil | ⟨first, last, rfl⟩ := List.eq_nil_or_concat' parts
  · exact absurd hnil hne
  · exact stable_joined (fun c hc => (h c hc).1) (h last (by simp)).2

theorem nsRoot_append (agentId : Str) (parts : List Str) :
    nsRoot agentId ++ joined parts = joined ("net".toList :: agentId :: parts) := by
  rw [nsRoot_eq, ← joined_append]
  rfl

theorem properId_below {agentId : Str} (hid : ProperId agentId) {parts : List Str}
    (hparts : ∀ c ∈ parts, ProperId c) : ∀ c ∈ "net".toList :: agentId :: parts, ProperId c := by
  intro c hc
  rw [List.mem_cons, List.mem_cons] at hc
  rcases hc with hc | hc | hc
  · rw [hc]
    decide
  · rw [hc]
    exact hid
  · exact hparts c hc

/-- The components of a path below the namespace of a proper id. -/
theorem components_append {agentId : Str} (hid : ProperId agentId) {parts : List Str}
    (hparts : ∀ c ∈ parts, ProperId c) :
    components (nsRoot agentId ++ joined parts) = "net".toList :: agentId :: parts := by
  rw [nsRoot_append]
  exact components_joined_of_properId (by simp) (properId_below hid hparts)

theorem stable_append {agentId : Str} (hid : ProperId agentId) {parts : List Str}
    (hparts : ∀ c ∈ parts, ProperId c) : Stable (nsRoot agentId ++ joined parts) := by
  rw [nsRoot_append]
  exact stable_joined_of_properId (by simp) (properId_below hid hparts)

/-- Below the namespace of a proper id, proper names stay below. -/
theorem staysBelow_append {agentId : Str} (hid : ProperId agentId) {parts : List Str}
    (hparts : ∀ c ∈ parts, ProperId c) : StaysBelow agentId (nsRoot agentId ++ joined parts) := by
  have hstable := stable_append hid hparts
  have hcomps := components_append hid hparts
  have hroot : InSubtree agentId (nsRoot agentId ++ joined parts) := inSubtree_append agentId
  rcases List.eq_nil_or_concat' parts with rfl | ⟨parts, last, rfl⟩
  · -- the namespace itself is a child of `/net`
    have hslot := @slot_of_components _ hstable ["net".toList] agentId hcomps
    exact hstable.staysBelow hslot hroot (Or.inr ⟨rfl, rfl⟩)
  · -- below it, the parent is in the subtree as well
    have hslot := @slot_of_components _ hstable ("net".toList :: agentId :: parts) last hcomps
    refine hstable.staysBelow hslot hroot (Or.inl ?_)
    rw [render_of_ne_nil (by simp), ← nsRoot_append]
    exact inSubtree_append agentId

theorem le_length_of_inSubtree {agentId path : Str} (h : InSubtree agentId path) :
    (nsRoot agentId).length ≤ path.length := by
  rcases h with h | h
  · rw [h]
  · have hle := h.length_le
    rw [List.length_append] at hle
    omega

/-- Only a proper id keeps the namespace's own path in its subtree. -/
theorem properId_of_staysBelow {agentId : Str} (h : StaysBelow agentId (nsRoot agentId)) :
    ProperId agentId := by
  obtain ⟨hin, hslot⟩ := h
  have hle := length_normalize_le_trimEnd ("net/".toList ++ agentId)
  have htrim : (trimEnd (nsRoot agentId)).length ≤ (nsRoot agentId).length :=
    (List.rdropWhile_prefix _ _).length_le
  rw [← nsRoot_eq_slash] at hle
  have hstable : Stable (nsRoot agentId) := by
    rcases hin with heq | hprefix
    · exact heq
    · have hlong := hprefix.length_le
      rw [List.length_append, List.length_singleton] at hlong
      omega
  rcases List.eq_nil_or_concat' (components (nsRoot agentId)) with hroot | ⟨parts, last, hparts⟩
  · rw [← normalize_eq_root, hstable, nsRoot_eq_slash] at hroot
    exact absurd hroot (by simp)
  · have hlast : IsComponent last :=
      components_isComponent (nsRoot agentId) last (by simp [hparts])
    have hparent := length_parentPath_lt (parentPath_of_components hparts)
    rw [hstable] at hslot hparent
    rcases hslot (render parts) last (slot_of_components hstable hparts) with hbad | ⟨-, hname⟩
    · have hlong := le_length_of_inSubtree hbad
      omega
    · rw [hname] at hlast
      refine ⟨hlast, ?_⟩
      rw [← trimEnd_append_iff (s := "/net/".toList) hlast.1]
      exact hstable.trimEnd_eq

/-- The components of the fixed paths below the namespace. -/
def nsSuffixes : List (List Str) :=
  [["ctl".toList], ["msg".toList], ["hostname".toList], ["ctl".toList, "status".toList],
    ["ctl".toList, "capabilities".toList], ["msg".toList, "inbox".toList],
    ["msg".toList, "outbox".toList]]

theorem nsPaths_eq (agentId : Str) : nsPaths agentId =
    nsRoot agentId :: nsSuffixes.map fun parts => nsRoot agentId ++ joined parts := rfl

theorem nsSuffixes_properId : ∀ parts ∈ nsSuffixes, ∀ c ∈ parts, ProperId c := by decide

theorem staysBelow_nsPaths_iff (agentId : Str) :
    (∀ path ∈ nsPaths agentId, StaysBelow agentId path) ↔ ProperId agentId := by
  rw [nsPaths_eq]
  constructor
  · intro h
    exact properId_of_staysBelow (h _ List.mem_cons_self)
  · intro hid path hpath
    rcases List.mem_cons.mp hpath with hpath | hpath
    · have hroot := @staysBelow_append agentId hid [] (by simp)
      rwa [joined_nil, List.append_nil, ← hpath] at hroot
    · obtain ⟨parts, hparts, rfl⟩ := List.mem_map.mp hpath
      exact staysBelow_append hid (nsSuffixes_properId parts hparts)

/-! ## Isolation -/

/-- Creating a namespace is isolated in every state exactly when the agent id
is a proper name and the paths of the capabilities stay below.  Mounting an
agent is so exactly when the id is a proper name. -/
theorem isolated_iff (manifest : CapabilityManifest) (agentId hostname : Str) :
    ((∀ manager : NamespaceManager, Isolated manifest.agentId manager.vfs
        (manager.createNamespace manifest).2.vfs) ↔
      ProperId manifest.agentId ∧ ∀ cap ∈ manifest.capabilities,
        ∀ path ∈ capabilityPaths (nsRoot manifest.agentId) cap,
          StaysBelow manifest.agentId path) ∧
    ((∀ vfs : VfsRegistry, Isolated agentId vfs (vfs.mountAgentNs agentId hostname)) ↔
      ProperId agentId) := by
  constructor
  · simp only [createNamespace_vfs]
    have hcreate : (∀ manager : NamespaceManager, Isolated manifest.agentId manager.vfs
        (manager.vfs.addAll (createWrites manifest))) ↔
        ∀ vfs : VfsRegistry, Isolated manifest.agentId vfs (vfs.addAll (createWrites manifest)) :=
      ⟨fun h vfs => h { vfs, bindings := ∅ }, fun h manager => h manager.vfs⟩
    rw [hcreate, isolated_addAll_iff, ← staysBelow_nsPaths_iff]
    simp only [mem_createWrites_path]
    constructor
    · intro h
      exact ⟨fun path hpath => h path (Or.inl hpath),
        fun cap hcap path hpath => h path (Or.inr ⟨cap, hcap, hpath⟩)⟩
    · rintro ⟨hfixed, hcaps⟩ path (hpath | ⟨cap, hcap, hpath⟩)
      · exact hfixed path hpath
      · exact hcaps cap hcap path hpath
  · simp only [mountAgentNs_eq]
    rw [isolated_addAll_iff, ← staysBelow_nsPaths_iff]
    simp only [mem_mountWrites_path]

/-- A manifest whose capability path climbs to the core control files. -/
def climbingManifest : CapabilityManifest where
  agentId := "a".toList
  hostname := "h".toList
  capabilities := [{ name := "x".toList, version := "1".toList
                     paths := ["../../../../ctl/status".toList], metadata := [] }]

/-- The manifest replaces the node `/ctl/status` by an empty file. -/
theorem climbing_path_replaces_core :
    ¬ Isolated climbingManifest.agentId VfsRegistry.new
      (NamespaceManager.createNamespace { vfs := VfsRegistry.new, bindings := ∅ }
        climbingManifest).2.vfs := by
  intro h
  rcases h "/ctl/status".toList (by decide) with hsame | ⟨hnet, -⟩
  · exact absurd hsame (by decide)
  · exact absurd hnet (by decide)

end Xfiles.Fs
