import Xfiles.Fs.Registry
import Xfiles.Message.Basic

/-!
# Agent namespaces

The model of `namespace.rs`, and the paths that `mount_agent_ns` and
`create_namespace` build.

* `mountWrites` and `createWrites` are the two operations as lists of
  `add_node` calls.  `mountAgentNs_eq` and `createNamespace_vfs` are the
  equations.
* `nsPaths` and `capabilityPaths` are the paths of these lists.

The metadata of a capability is a list in the order of the map's iterator.
The preferred namespace of a manifest is not read here.
-/

namespace Xfiles.Fs

structure Capability where
  name : Str
  version : Str
  paths : List Str
  metadata : List (String × Json)

structure CapabilityManifest where
  agentId : Str
  hostname : Str
  capabilities : List Capability

/-- `serde_json::to_vec` of the capabilities. -/
def toVec (capabilities : List Capability) : List UInt8 :=
  let toJson (cap : Capability) : Json := .object
    [("name", .string (String.ofList cap.name)), ("version", .string (String.ofList cap.version)),
      ("paths", .array (cap.paths.map fun path => .string (String.ofList path))),
      ("metadata", .object cap.metadata)]
  bytes (Json.text (.array (capabilities.map toJson))).toList

/-- The bindings map agent ids to namespace paths. -/
structure NamespaceManager where
  vfs : VfsRegistry
  bindings : AList fun _ : Str => Str

/-- The path of a capability, bound below its directory. -/
def boundPath (capDir path : Str) : Str := capDir ++ ['/'] ++ path.dropWhile (· = '/')

/-- The body of the loop of `create_namespace`. -/
def bindCapability (ns : Str) (vfs : VfsRegistry) (cap : Capability) : VfsRegistry :=
  let capDir := ns ++ "/cap/".toList ++ cap.name
  let vfs := vfs.mkdir capDir
  let vfs := vfs.addNode (capDir ++ "/version".toList)
    (.newFile "version".toList (bytes cap.version))
  cap.paths.foldl (fun vfs path => vfs.addNode (boundPath capDir path) (.newFile path [])) vfs

/-- The part of `create_namespace` before its loop. -/
def createBase (ns : Str) (vfs : VfsRegistry) (manifest : CapabilityManifest) : VfsRegistry :=
  let vfs := vfs.mkdir ns
  let vfs := vfs.mkdir (ns ++ "/ctl".toList)
  let vfs := vfs.addNode (ns ++ "/hostname".toList)
    (.newFile "hostname".toList (bytes manifest.hostname))
  let vfs := vfs.addNode (ns ++ "/ctl/status".toList)
    (.newCtl "status".toList "connected".toList)
  let vfs := vfs.addNode (ns ++ "/ctl/capabilities".toList)
    (.newFile "capabilities".toList (toVec manifest.capabilities))
  let vfs := vfs.mkdir (ns ++ "/msg".toList)
  let vfs := vfs.addNode (ns ++ "/msg/inbox".toList) (.newFile "inbox".toList [])
  vfs.addNode (ns ++ "/msg/outbox".toList) (.newFile "outbox".toList [])

namespace NamespaceManager

variable (manager : NamespaceManager)

def createNamespace (manifest : CapabilityManifest) : Str × NamespaceManager :=
  let ns := "/net/".toList ++ manifest.agentId
  let vfs := createBase ns manager.vfs manifest
  -- bind capabilities as subdirectories
  let vfs := manifest.capabilities.foldl (bindCapability ns) vfs
  (ns, { vfs, bindings := manager.bindings.insert manifest.agentId ns })

/-- `remove_namespace`, with the removed keys in the order of the map's
iterator. -/
def removeNamespace (agentId : Str) (order : List Str) : NamespaceManager where
  vfs := manager.vfs.unmountAgentNs order
  bindings := manager.bindings.erase agentId

end NamespaceManager

/-! ## The operations as lists of additions -/

/-- A `mkdir` call as an addition. -/
def dirWrite (path : Str) : Str × Vnode := (path, .newDir (normalize path))

/-- The namespace of an agent. -/
def nsRoot (agentId : Str) : Str := "/net/".toList ++ agentId

def mountWrites (agentId hostname : Str) : List (Str × Vnode) :=
  let base := nsRoot agentId
  [dirWrite base,
    dirWrite (base ++ "/ctl".toList),
    dirWrite (base ++ "/msg".toList),
    (base ++ "/hostname".toList, .newFile "hostname".toList (bytes hostname)),
    (base ++ "/ctl/status".toList, .newCtl "status".toList "connected".toList),
    (base ++ "/ctl/capabilities".toList, .newFile "capabilities".toList (bytes "[]".toList)),
    (base ++ "/msg/inbox".toList, .newFile "inbox".toList []),
    (base ++ "/msg/outbox".toList, .newFile "outbox".toList [])]

def capabilityWrites (ns : Str) (cap : Capability) : List (Str × Vnode) :=
  let capDir := ns ++ "/cap/".toList ++ cap.name
  dirWrite capDir ::
    (capDir ++ "/version".toList, .newFile "version".toList (bytes cap.version)) ::
      cap.paths.map fun path => (boundPath capDir path, .newFile path [])

def baseWrites (ns : Str) (manifest : CapabilityManifest) : List (Str × Vnode) :=
  [dirWrite ns,
    dirWrite (ns ++ "/ctl".toList),
    (ns ++ "/hostname".toList, .newFile "hostname".toList (bytes manifest.hostname)),
    (ns ++ "/ctl/status".toList, .newCtl "status".toList "connected".toList),
    (ns ++ "/ctl/capabilities".toList,
      .newFile "capabilities".toList (toVec manifest.capabilities)),
    dirWrite (ns ++ "/msg".toList),
    (ns ++ "/msg/inbox".toList, .newFile "inbox".toList []),
    (ns ++ "/msg/outbox".toList, .newFile "outbox".toList [])]

def createWrites (manifest : CapabilityManifest) : List (Str × Vnode) :=
  let ns := nsRoot manifest.agentId
  baseWrites ns manifest ++ manifest.capabilities.flatMap (capabilityWrites ns)

theorem addAll_dirWrite (vfs : VfsRegistry) (path : Str) (ws : List (Str × Vnode)) :
    vfs.addAll (dirWrite path :: ws) = (vfs.mkdir path).addAll ws := rfl

theorem mountAgentNs_eq (vfs : VfsRegistry) (agentId hostname : Str) :
    vfs.mountAgentNs agentId hostname = vfs.addAll (mountWrites agentId hostname) := by
  simp only [mountWrites, addAll_dirWrite, VfsRegistry.addAll_cons, VfsRegistry.addAll_nil]
  rfl

theorem createBase_eq (ns : Str) (vfs : VfsRegistry) (manifest : CapabilityManifest) :
    createBase ns vfs manifest = vfs.addAll (baseWrites ns manifest) := by
  simp only [baseWrites, addAll_dirWrite, VfsRegistry.addAll_cons, VfsRegistry.addAll_nil]
  rfl

theorem bindCapability_eq (ns : Str) (vfs : VfsRegistry) (cap : Capability) :
    bindCapability ns vfs cap = vfs.addAll (capabilityWrites ns cap) := by
  rw [bindCapability, capabilityWrites, addAll_dirWrite, VfsRegistry.addAll_cons,
    VfsRegistry.addAll, List.foldl_map]

theorem foldl_bindCapability (ns : Str) (vfs : VfsRegistry) (caps : List Capability) :
    caps.foldl (bindCapability ns) vfs = vfs.addAll (caps.flatMap (capabilityWrites ns)) := by
  induction caps generalizing vfs with
  | nil => rfl
  | cons cap rest ih =>
    rw [List.foldl_cons, ih, bindCapability_eq, List.flatMap_cons, VfsRegistry.addAll_append]

theorem createNamespace_vfs (manager : NamespaceManager) (manifest : CapabilityManifest) :
    (manager.createNamespace manifest).2.vfs = manager.vfs.addAll (createWrites manifest) := by
  rw [createWrites, VfsRegistry.addAll_append, ← createBase_eq, ← foldl_bindCapability]
  rfl

/-! ## The paths -/

/-- The fixed paths of a namespace. -/
def nsPaths (agentId : Str) : List Str :=
  nsRoot agentId ::
    ["/ctl".toList, "/msg".toList, "/hostname".toList, "/ctl/status".toList,
      "/ctl/capabilities".toList, "/msg/inbox".toList, "/msg/outbox".toList].map
        (nsRoot agentId ++ ·)

/-- The paths that a capability is bound to. -/
def capabilityPaths (ns : Str) (cap : Capability) : List Str :=
  let capDir := ns ++ "/cap/".toList ++ cap.name
  capDir :: (capDir ++ "/version".toList) :: cap.paths.map (boundPath capDir)

theorem mem_mountWrites_path {agentId hostname path : Str} :
    path ∈ (mountWrites agentId hostname).map Prod.fst ↔ path ∈ nsPaths agentId := by
  simp [mountWrites, nsPaths, dirWrite]

theorem mem_baseWrites_path {manifest : CapabilityManifest} {path : Str} :
    path ∈ (baseWrites (nsRoot manifest.agentId) manifest).map Prod.fst ↔
      path ∈ nsPaths manifest.agentId := by
  -- the same eight paths, `/msg` in another place
  have hperm : ∀ a b c d e f g h : Str,
      List.Perm [a, b, d, e, f, c, g, h] [a, b, c, d, e, f, g, h] :=
    fun a b c d e f g h => List.Perm.append_left [a, b] (@List.perm_middle _ c [d, e, f] [g, h])
  simp only [baseWrites, nsPaths, dirWrite, List.map_cons, List.map_nil]
  exact (hperm _ _ _ _ _ _ _ _).mem_iff

theorem capabilityWrites_paths (ns : Str) (cap : Capability) :
    (capabilityWrites ns cap).map Prod.fst = capabilityPaths ns cap := by
  rw [capabilityWrites, List.map_cons, List.map_cons, List.map_map]
  rfl

theorem mem_createWrites_path {manifest : CapabilityManifest} {path : Str} :
    path ∈ (createWrites manifest).map Prod.fst ↔ path ∈ nsPaths manifest.agentId ∨
      ∃ cap ∈ manifest.capabilities, path ∈ capabilityPaths (nsRoot manifest.agentId) cap := by
  rw [createWrites, List.map_append, List.mem_append, mem_baseWrites_path, List.map_flatMap,
    List.mem_flatMap]
  simp only [capabilityWrites_paths]

end Xfiles.Fs
