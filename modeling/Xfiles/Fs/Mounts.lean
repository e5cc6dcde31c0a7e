import Xfiles.Fs.Isolation
import Xfiles.Fs.Listing

/-!
# Mounting and unmounting agents

`mount_agent_ns` writes eight fixed paths and `unmount_agent_ns` removes the
keys of a subtree, both in one map that all agents share.  This module proves
that a run of the two calls leaves exactly the nodes of the agents whose latest
call was a mount.

* `inSubtree_iff` turns the string prefix of `unmount_agent_ns` into a prefix
  of components.  Ids that are prefixes of one another differ there.
* `keys_mount` and `keys_unmount` say what one call does to the keys.
* `Plan` is the shape of the registry: its keys are the core paths and the fixed
  paths of a set of agents.  A run keeps it, and `Mounted` is the set.
* `unmount_undoes_mount` is the result.
-/

namespace Xfiles.Fs

open LinkedStore Transition

/-! ## Subtrees and components -/

/-- A fixed point lies in a subtree exactly when its components extend those of
the namespace. -/
theorem inSubtree_iff {agentId path : Str} (hid : ProperId agentId) (hpath : Stable path) :
    InSubtree agentId path ↔ ["net".toList, agentId] <+: components path := by
  have hnames : ∀ c ∈ ["net".toList, agentId], '/' ∉ c :=
    fun c hc => (@properId_below agentId hid [] (by simp) c hc).1.2.1
  constructor
  · rintro (heq | ⟨rest, hrest⟩)
    · have hcomps := @components_append agentId hid [] (by simp)
      rw [joined_nil, List.append_nil] at hcomps
      exact ⟨[], by rw [List.append_nil, heq, hcomps]⟩
    · -- splitting the string gives the components behind the prefix
      have hne : components path ≠ [] := by
        intro hnil
        rw [hpath.eq_render, hnil, render_nil, nsRoot_eq, joined_cons] at hrest
        have hlen := congrArg List.length hrest
        simp only [List.length_append, List.length_cons, List.length_nil] at hlen
        omega
      have hsplit := congrArg (List.splitOn '/') hrest
      rw [List.append_assoc, List.singleton_append, List.splitOn_append_cons_self, nsRoot_eq,
        splitOn_joined (by simp) hnames, hpath.eq_render, render_of_ne_nil hne,
        splitOn_joined hne fun c hc => (components_isComponent path c hc).2.1] at hsplit
      exact ⟨rest.splitOn '/', List.tail_eq_of_cons_eq hsplit⟩
  · rintro ⟨rest, hrest⟩
    have hpath' : path = nsRoot agentId ++ joined rest := by
      rw [hpath.eq_render, ← hrest, render_of_ne_nil (by simp), joined_append, nsRoot_eq]
    rw [hpath']
    exact inSubtree_append agentId

/-- The components of the paths below a namespace, its own path first. -/
def nsParts : List (List Str) := [] :: nsSuffixes

theorem nsParts_properId : ∀ parts ∈ nsParts, ∀ c ∈ parts, ProperId c := by decide

theorem mem_nsPaths {agentId path : Str} :
    path ∈ nsPaths agentId ↔ ∃ parts ∈ nsParts, path = nsRoot agentId ++ joined parts := by
  rw [nsPaths_eq, nsParts, List.mem_cons, List.mem_map]
  simp only [List.mem_cons, exists_eq_or_imp, joined_nil, List.append_nil, eq_comm]

theorem stable_nsPaths {agentId path : Str} (hid : ProperId agentId)
    (h : path ∈ nsPaths agentId) : Stable path := by
  obtain ⟨parts, hparts, rfl⟩ := mem_nsPaths.mp h
  exact stable_append hid (nsParts_properId parts hparts)

/-- The fixed paths of an agent lie in its own subtree, and in no other. -/
theorem inSubtree_nsPaths {agentId other path : Str} (hid : ProperId agentId)
    (hother : ProperId other) (h : path ∈ nsPaths other) :
    InSubtree agentId path ↔ agentId = other := by
  have hpath := stable_nsPaths hother h
  obtain ⟨parts, hparts, rfl⟩ := mem_nsPaths.mp h
  rw [inSubtree_iff hid hpath, components_append hother (nsParts_properId parts hparts)]
  simp

/-! ## The keys -/

def corePaths : List Str := coreWrites.map Prod.fst

/-- The core paths, and the fixed paths of a set of agents. -/
def planned (ids : Set Str) : Set Str :=
  {key | key ∈ corePaths ∨ ∃ agentId ∈ ids, key ∈ nsPaths agentId}

theorem stable_corePaths : ∀ key ∈ corePaths, Stable key := by decide

theorem net_mem_corePaths : "/net".toList ∈ corePaths := by decide

theorem not_inSubtree_corePaths (agentId : Str) {key : Str} (h : key ∈ corePaths) :
    ¬ InSubtree agentId key := by
  have hcore : ∀ key ∈ corePaths, ¬ "/net/".toList <+: key := by decide
  rintro (heq | hprefix)
  · exact hcore key h ⟨agentId, heq.symm⟩
  · have hassoc : nsRoot agentId ++ ['/'] = "/net/".toList ++ (agentId ++ ['/']) :=
      List.append_assoc _ _ _
    exact hcore key h (List.IsPrefix.trans (List.prefix_append _ _) (hassoc ▸ hprefix))

theorem written_keyed {ws : List (Str × Vnode)} (h : ∀ path ∈ ws.map Prod.fst, Stable path) :
    written (VfsRegistry.keyed ws) = {key | key ∈ ws.map Prod.fst} := by
  have hpaths : (VfsRegistry.keyed ws).map Prod.fst = ws.map Prod.fst := by
    rw [VfsRegistry.keyed, List.map_map]
    exact List.map_congr_left fun w hw => h w.1 (List.mem_map_of_mem hw)
  show {key | key ∈ (VfsRegistry.keyed ws).map Prod.fst} = _
  rw [hpaths]

theorem written_mount {agentId : Str} (hid : ProperId agentId) (hostname : Str) :
    written (VfsRegistry.keyed (mountWrites agentId hostname)) =
      {key | key ∈ nsPaths agentId} := by
  rw [written_keyed fun path hpath => stable_nsPaths hid (mem_mountWrites_path.mp hpath)]
  exact Set.ext fun key => mem_mountWrites_path

/-- A mount adds the fixed paths of the agent. -/
theorem keys_mount {manager next : NamespaceManager} {agentId hostname : Str}
    (hid : ProperId agentId) (h : step manager (.mountAgentNs agentId hostname) = some next) :
    next.vfs.store.keys = manager.vfs.store.keys ∪ {key | key ∈ nsPaths agentId} := by
  rw [store_step h, Op.removes, removeAll_nil, keys_writeAll, Op.writes, written_mount hid]

theorem VfsRegistry.mem_toRemove {vfs : VfsRegistry} {agentId key : Str} :
    key ∈ vfs.toRemove agentId ↔ key ∈ vfs.store.keys ∧ InSubtree agentId key := by
  rw [toRemove, List.mem_filter, mem_keys_store, Bool.or_eq_true, beq_iff_eq,
    List.isPrefixOf_iff_prefix]
  rfl

/-- The removed keys of an unmount are those of the subtree. -/
theorem mem_order {manager next : NamespaceManager} {agentId : Str} {order : List Str}
    (h : step manager (.unmountAgentNs agentId order) = some next) {key : Str} :
    key ∈ order ↔ key ∈ manager.vfs.store.keys ∧ InSubtree agentId key := by
  rw [step, Option.ite_none_right_eq_some] at h
  rw [h.1.mem_iff, VfsRegistry.mem_toRemove]

/-- An unmount removes the keys of the agent's subtree. -/
theorem keys_unmount {manager next : NamespaceManager} {agentId : Str} {order : List Str}
    (h : step manager (.unmountAgentNs agentId order) = some next) :
    next.vfs.store.keys = manager.vfs.store.keys \ {key | InSubtree agentId key} := by
  rw [store_step h, Op.writes, keys_removeAll]
  ext key
  show key ∈ manager.vfs.store.keys ∧ key ∉ order ↔ key ∈ manager.vfs.store.keys ∧ _
  rw [mem_order h]
  exact and_congr_right fun hkey => not_congr (and_iff_right hkey)

/-! ## The shape of the registry -/

/-- The nodes are those of a set of agents with proper ids, and `/net` is a
directory. -/
structure Plan (ids : Set Str) (manager : NamespaceManager) : Prop where
  proper : ∀ agentId ∈ ids, ProperId agentId
  keys : manager.vfs.store.keys = planned ids
  net : "/net".toList ∈ dirs layout manager.vfs.store

theorem stable_planned {ids : Set Str} (h : ∀ agentId ∈ ids, ProperId agentId) {key : Str}
    (hkey : key ∈ planned ids) : Stable key := by
  rcases hkey with hcore | ⟨agentId, hmem, hns⟩
  · exact stable_corePaths key hcore
  · exact stable_nsPaths (h agentId hmem) hns

theorem Plan.stableKeys {ids : Set Str} {manager : NamespaceManager} (h : Plan ids manager) :
    StableKeys manager.vfs := by
  intro key hkey
  rw [h.keys] at hkey
  exact stable_planned h.proper hkey

theorem net_notMem_nsPaths {agentId : Str} (hid : ProperId agentId) :
    "/net".toList ∉ nsPaths agentId := by
  intro hmem
  have hin := (inSubtree_nsPaths hid hid hmem).mpr rfl
  exact not_inSubtree_corePaths agentId net_mem_corePaths hin

theorem plan_start : Plan ∅ start where
  proper := fun _ h => absurd h (Set.notMem_empty _)
  keys := by
    rw [start_vfs, store_new, keys_writeAll, Store.keys_none, Set.empty_union,
      written_keyed stable_corePaths]
    ext key
    simp [planned, corePaths]
  net := by
    have hnet : VfsRegistry.new.store "/net".toList = some (.dir "/net".toList []) := by decide
    rw [start_vfs, mem_dirs, namesAt, hnet]
    rfl

theorem plan_mount {ids : Set Str} {manager next : NamespaceManager} {agentId hostname : Str}
    (hid : ProperId agentId) (hm : Plan ids manager)
    (h : step manager (.mountAgentNs agentId hostname) = some next) :
    Plan (insert agentId ids) next where
  proper := by
    intro other hother
    rcases hother with rfl | hother
    · exact hid
    · exact hm.proper other hother
  keys := by
    rw [keys_mount hid h, hm.keys]
    ext key
    constructor
    · rintro ((hcore | ⟨other, hother, hns⟩) | hns)
      · exact Or.inl hcore
      · exact Or.inr ⟨other, Set.mem_insert_of_mem _ hother, hns⟩
      · exact Or.inr ⟨agentId, Set.mem_insert _ _, hns⟩
    · rintro (hcore | ⟨other, rfl | hother, hns⟩)
      · exact Or.inl (Or.inl hcore)
      · exact Or.inr hns
      · exact Or.inl (Or.inr ⟨other, hother, hns⟩)
  net := by
    rw [store_step h, Op.removes, removeAll_nil, Op.writes, dirs_writeAll_of_notMem]
    · exact hm.net
    · rw [written_mount hid]
      exact net_notMem_nsPaths hid

theorem plan_unmount {ids : Set Str} {manager next : NamespaceManager} {agentId : Str}
    {order : List Str} (hid : ProperId agentId) (hm : Plan ids manager)
    (h : step manager (.unmountAgentNs agentId order) = some next) :
    Plan (ids \ {agentId}) next where
  proper := fun other hother => hm.proper other hother.1
  keys := by
    rw [keys_unmount h, hm.keys]
    ext key
    constructor
    · rintro ⟨hcore | ⟨other, hother, hns⟩, hout⟩
      · exact Or.inl hcore
      · refine Or.inr ⟨other, ⟨hother, fun heq => hout ?_⟩, hns⟩
        exact (inSubtree_nsPaths hid (hm.proper other hother) hns).mpr heq.symm
    · rintro (hcore | ⟨other, ⟨hother, hne⟩, hns⟩)
      · exact ⟨Or.inl hcore, not_inSubtree_corePaths agentId hcore⟩
      · refine ⟨Or.inr ⟨other, hother, hns⟩, fun hin => hne ?_⟩
        exact ((inSubtree_nsPaths hid (hm.proper other hother) hns).mp hin).symm
  net := by
    rw [store_step h, Op.writes, Op.removes, dirs_removeAll]
    refine ⟨hm.net, fun hmem => ?_⟩
    exact not_inSubtree_corePaths agentId net_mem_corePaths ((mem_order h).mp hmem).2

/-! ## Listing `/net` -/

theorem VfsRegistry.mem_dirs_store {vfs : VfsRegistry} {path : Str} :
    path ∈ dirs layout vfs.store ↔
      ∃ name children, vfs.nodes.lookup path = some (.dir name children) := by
  constructor
  · intro h
    obtain ⟨ns, hns⟩ := Option.isSome_iff_exists.mp h
    obtain ⟨node, hnode, hnames⟩ := Option.bind_eq_some_iff.mp hns
    obtain ⟨name, children, rfl, -⟩ := Vnode.names_eq_some hnames
    exact ⟨name, children, hnode⟩
  · rintro ⟨name, children, hdir⟩
    have hstore : vfs.store path = some (.dir name children) := hdir
    rw [mem_dirs, namesAt, hstore]
    rfl

theorem Plan.get_net {ids : Set Str} {manager : NamespaceManager} (h : Plan ids manager) :
    ∃ name children, manager.vfs.get "/net".toList = some (.dir name children) := by
  rw [VfsRegistry.get, stable_corePaths _ net_mem_corePaths]
  exact VfsRegistry.mem_dirs_store.mp h.net

/-- `/net` lists the agents. -/
theorem Plan.mem_list_net {ids : Set Str} {manager : NamespaceManager} (h : Plan ids manager)
    {name : Str} : name ∈ manager.vfs.list "/net".toList ↔ name ∈ ids := by
  have hnet : components "/net".toList = ["net".toList] := by decide
  have hcore : ∀ key ∈ corePaths,
      (components key).length = 1 ∨ (components key).head? ≠ some "net".toList := by decide
  obtain ⟨_, _, hget⟩ := h.get_net
  rw [mem_list hget, h.keys, stable_corePaths _ net_mem_corePaths]
  simp only [childName_iff, hnet]
  constructor
  · rintro ⟨key, hkey | ⟨agentId, hmem, hns⟩, hcomps⟩
    · have hbad := hcore key hkey
      rw [hcomps] at hbad
      exact absurd hbad (by simp)
    · obtain ⟨parts, hparts, rfl⟩ := mem_nsPaths.mp hns
      rw [components_append (h.proper agentId hmem) (nsParts_properId parts hparts)] at hcomps
      have hname : agentId = name := (List.cons.inj (List.cons.inj hcomps).2).1
      rwa [← hname]
  · intro hmem
    refine ⟨nsRoot name, Or.inr ⟨name, hmem, List.mem_cons_self⟩, ?_⟩
    have hcomps := @components_append name (h.proper name hmem) [] (by simp)
    rwa [joined_nil, List.append_nil] at hcomps

theorem pairwise_dedup {names : List Str} (h : names.Pairwise (· ≤ ·)) :
    (dedup names).Pairwise (· < ·) := by
  induction names using dedup.induct with
  | case1 => exact List.Pairwise.nil
  | case2 name => exact List.pairwise_singleton _ _
  | case3 name rest ih =>
    rw [dedup, if_pos rfl]
    exact ih h.of_cons
  | case4 name next rest hne ih =>
    rw [dedup, if_neg hne, List.pairwise_cons]
    refine ⟨fun other hother => ?_, ih h.of_cons⟩
    -- the next name is above this one, and all others are above the next
    have hle := List.pairwise_cons.mp h
    have hlt : name < next := lt_of_le_of_ne (hle.1 next List.mem_cons_self) hne
    rcases List.mem_cons.mp (mem_dedup.mp hother) with heq | hrest
    · rwa [heq]
    · exact lt_of_lt_of_le hlt ((List.pairwise_cons.mp hle.2).1 other hrest)

/-- A listing is in strictly increasing order. -/
theorem pairwise_list (vfs : VfsRegistry) (path : Str) : (vfs.list path).Pairwise (· < ·) := by
  rw [VfsRegistry.list]
  split
  · split_ifs
    · exact pairwise_dedup (List.pairwise_insertionSort _ _)
    · exact List.Pairwise.nil
  · exact List.Pairwise.nil

/-! ## Runs -/

/-- The agent that a mount or an unmount names. -/
def Op.mountAgent : Op → Option Str
  | .mountAgentNs agentId _ | .unmountAgentNs agentId _ => some agentId
  | .mkdir _ | .addNode .. | .remove _ | .createNamespace _ | .removeNamespace .. => none

/-- A mount or an unmount of a proper id. -/
def Op.MountsProper (op : Op) : Prop := ∃ agentId, op.mountAgent = some agentId ∧ ProperId agentId

/-- The latest call that names the agent. -/
def latest (ops : List Op) (agentId : Str) : Option Op :=
  (ops.filter fun op => op.mountAgent = some agentId).getLast?

/-- The latest call that names the agent is a mount. -/
def Mounted (ops : List Op) (agentId : Str) : Prop :=
  ∃ hostname, latest ops agentId = some (.mountAgentNs agentId hostname)

theorem latest_concat_of_eq {ops : List Op} {op : Op} {agentId : Str}
    (h : op.mountAgent = some agentId) : latest (ops ++ [op]) agentId = some op := by
  rw [latest, List.filter_append, List.filter_cons_of_pos (by simpa using h), List.filter_nil,
    List.getLast?_concat]

theorem latest_concat_of_ne {ops : List Op} {op : Op} {agentId : Str}
    (h : op.mountAgent ≠ some agentId) : latest (ops ++ [op]) agentId = latest ops agentId := by
  rw [latest, List.filter_append, List.filter_cons_of_neg (by simpa using h), List.filter_nil,
    List.append_nil, latest]

theorem mounted_mount (ops : List Op) (agentId hostname : Str) :
    {other | Mounted (ops ++ [.mountAgentNs agentId hostname]) other} =
      insert agentId {other | Mounted ops other} := by
  ext other
  show Mounted _ other ↔ other = agentId ∨ Mounted ops other
  by_cases h : other = agentId
  · rw [h]
    exact iff_of_true ⟨hostname, latest_concat_of_eq rfl⟩ (Or.inl rfl)
  · rw [Mounted, latest_concat_of_ne (by simpa [Op.mountAgent] using Ne.symm h), or_iff_right h]
    rfl

theorem mounted_unmount (ops : List Op) (agentId : Str) (order : List Str) :
    {other | Mounted (ops ++ [.unmountAgentNs agentId order]) other} =
      {other | Mounted ops other} \ {agentId} := by
  ext other
  show Mounted _ other ↔ Mounted ops other ∧ other ≠ agentId
  by_cases h : other = agentId
  · rw [h, Mounted, latest_concat_of_eq rfl]
    simp
  · rw [Mounted, latest_concat_of_ne (by simpa [Op.mountAgent] using Ne.symm h), and_iff_left h]
    rfl

/-- A run of mounts and unmounts leaves the nodes of the mounted agents. -/
theorem plan_of_run {ops : List Op} {last : NamespaceManager} (hops : ∀ op ∈ ops, op.MountsProper)
    (hrun : run step start ops = some last) : Plan {agentId | Mounted ops agentId} last := by
  induction ops using List.reverseRecOn generalizing last with
  | nil =>
    obtain rfl := Option.some.inj hrun
    have hnone : {agentId | Mounted [] agentId} = ∅ :=
      Set.eq_empty_of_forall_notMem fun agentId h => by simpa [latest] using h.choose_spec
    rw [hnone]
    exact plan_start
  | append_singleton ops op ih =>
    obtain ⟨manager, hfirst, hstep⟩ := run_concat_eq_some.mp hrun
    have hm := ih (fun op hop => hops op (List.mem_append_left _ hop)) hfirst
    obtain ⟨agentId, hagent, hid⟩ := hops op (by simp)
    cases op with
    | mountAgentNs other hostname =>
      obtain rfl : other = agentId := Option.some.inj hagent
      rw [mounted_mount]
      exact plan_mount hid hm hstep
    | unmountAgentNs other order =>
      obtain rfl : other = agentId := Option.some.inj hagent
      rw [mounted_unmount]
      exact plan_unmount hid hm hstep
    | mkdir => exact absurd hagent (by simp [Op.mountAgent])
    | addNode => exact absurd hagent (by simp [Op.mountAgent])
    | remove => exact absurd hagent (by simp [Op.mountAgent])
    | createNamespace => exact absurd hagent (by simp [Op.mountAgent])
    | removeNamespace => exact absurd hagent (by simp [Op.mountAgent])

/-- Two subtrees of proper ids are apart. -/
theorem eq_of_inSubtree {agentId other path : Str} (hid : ProperId agentId)
    (hother : ProperId other) (hpath : Stable path) (h : InSubtree agentId path)
    (h' : InSubtree other path) : agentId = other := by
  obtain ⟨rest, hrest⟩ := (inSubtree_iff hid hpath).mp h
  obtain ⟨rest', hrest'⟩ := (inSubtree_iff hother hpath).mp h'
  rw [← hrest'] at hrest
  exact (List.cons.inj (List.cons.inj hrest).2).1

/-- A path below another of a subtree is in the subtree. -/
theorem inSubtree_of_slot {agentId path dir name : Str} (hid : ProperId agentId)
    (hpath : Stable path) (hdir : Stable dir) (hslot : slot path = some (dir, name))
    (h : InSubtree agentId dir) : InSubtree agentId path := by
  rw [inSubtree_iff hid hdir] at h
  rw [inSubtree_iff hid hpath, childName_iff.mp ((childName_iff_slot hdir hpath).mpr hslot)]
  exact h.trans (List.prefix_append _ _)

/-- An unmount leaves the nodes of every other subtree as they are. -/
theorem unmount_keeps {manager next : NamespaceManager} {agentId : Str} {order : List Str}
    (hkeys : StableKeys manager.vfs) (hid : ProperId agentId)
    (h : step manager (.unmountAgentNs agentId order) = some next) {other key : Str}
    (hother : ProperId other) (hne : other ≠ agentId) (hkey : InSubtree other key) :
    next.vfs.store key = manager.vfs.store key := by
  have hstore : next.vfs.store = removeAll layout manager.vfs.store order := store_step h
  by_cases hmem : key ∈ manager.vfs.store.keys
  · have hpath := hkeys key hmem
    rw [hstore]
    refine removeAll_of_ne layout _ ?_ ?_
    · intro hremoved
      exact hne (eq_of_inSubtree hother hid hpath hkey ((mem_order h).mp hremoved).2)
    · -- a removed key that is linked in the node would lie in the other subtree
      intro removed hremoved name hslot
      obtain ⟨hin, hsub⟩ := (mem_order h).mp hremoved
      have hstable := hkeys removed hin
      have hbelow := inSubtree_of_slot hother hstable hpath hslot hkey
      exact hne (eq_of_inSubtree hother hid hstable hbelow hsub)
  · have hgone : key ∉ next.vfs.store.keys := by
      rw [hstore, keys_removeAll]
      exact fun hin => hmem hin.1
    rw [Store.mem_keys, Option.not_isSome_iff_eq_none] at hmem hgone
    rw [hmem, hgone]

/-- After any run of mounts and unmounts the registered paths are the core
paths and the fixed paths of the agents whose latest call was a mount, `/net`
lists these agents in order, and an unmount that comes next changes no node of
another agent. -/
theorem unmount_undoes_mount {ops : List Op} {last : NamespaceManager}
    (hops : ∀ op ∈ ops, op.MountsProper) (hrun : run step start ops = some last) :
    (∀ key, key ∈ last.vfs.nodes.keys ↔
      key ∈ corePaths ∨ ∃ agentId, Mounted ops agentId ∧ key ∈ nsPaths agentId) ∧
    ((last.vfs.list "/net".toList).Pairwise (· < ·) ∧
      ∀ agentId, agentId ∈ last.vfs.list "/net".toList ↔ Mounted ops agentId) ∧
    ∀ agentId order next, ProperId agentId →
      step last (.unmountAgentNs agentId order) = some next →
      ∀ other, ProperId other → other ≠ agentId → ∀ key, InSubtree other key →
        next.vfs.nodes.lookup key = last.vfs.nodes.lookup key := by
  have hplan := plan_of_run hops hrun
  refine ⟨fun key => ?_, ⟨pairwise_list _ _, fun agentId => hplan.mem_list_net⟩, ?_⟩
  · rw [← VfsRegistry.mem_keys_store, hplan.keys]
    rfl
  · intro agentId order next hid hstep other hother hne key hkey
    exact unmount_keeps hplan.stableKeys hid hstep hother hne hkey

/-- The order in which the model lists the collected keys is one of them. -/
theorem step_toRemove (manager : NamespaceManager) (agentId : Str) :
    step manager (.unmountAgentNs agentId (manager.vfs.toRemove agentId)) =
      some { manager with
        vfs := manager.vfs.unmountAgentNs (manager.vfs.toRemove agentId) } :=
  if_pos (List.Perm.refl _)

/-- Two agents, the id of one a prefix of the other's, and an unmount of the
shorter one. -/
def prefixMounts (order : List Str) : List Op :=
  [.mountAgentNs "web".toList "h".toList, .mountAgentNs "web2".toList "h".toList] ++
    [.unmountAgentNs "web".toList order]

/-- The case of two such agents. -/
theorem unmount_undoes_mount_prefix :
    ∃ order last, run step start (prefixMounts order) = some last ∧
      "web2".toList ∈ last.vfs.list "/net".toList ∧
      "web".toList ∉ last.vfs.list "/net".toList := by
  obtain ⟨manager, hfirst⟩ : ∃ manager, run step start
      [.mountAgentNs "web".toList "h".toList, .mountAgentNs "web2".toList "h".toList] =
        some manager := ⟨_, rfl⟩
  have hrun := run_concat_eq_some.mpr ⟨manager, hfirst, step_toRemove manager "web".toList⟩
  have hops : ∀ op ∈ prefixMounts (manager.vfs.toRemove "web".toList), op.MountsProper := by
    simp only [prefixMounts, List.mem_append, List.mem_cons, List.not_mem_nil, or_false]
    rintro op ((rfl | rfl) | rfl)
    · exact ⟨"web".toList, rfl, by decide⟩
    · exact ⟨"web2".toList, rfl, by decide⟩
    · exact ⟨"web".toList, rfl, by decide⟩
  have hlist := (unmount_undoes_mount hops hrun).2.1.2
  refine ⟨_, _, hrun, (hlist _).mpr ⟨"h".toList, rfl⟩, fun hbad => ?_⟩
  obtain ⟨hostname, hlatest⟩ := (hlist _).mp hbad
  exact absurd hlatest (by simp [latest, prefixMounts, Op.mountAgent])

end Xfiles.Fs
