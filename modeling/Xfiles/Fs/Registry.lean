import Mathlib.Data.List.AList
import Mathlib.Data.Char
import Mathlib.Data.List.Lex
import Mathlib.Data.List.Sort
import Xfiles.Fs.Path
import Xfiles.Lib.LinkedStore

/-!
# The node registry

The model of `fs/vnode.rs` and of `VfsRegistry` in `fs/registry.rs`: one flat
map from normalized paths to nodes, with a children vector in each directory
node.

* `VfsRegistry` and its operations follow the source.  A write that the source
  makes with `try_write` succeeds, since the operations run one at a time.
* `layout` reads the registry as a flat store with linked directories.
  `store_addNode` and `store_removeKey` say that the operations are the
  store's writes and removals.
* `addAll` is a list of `add_node` calls, the form that the compound operations
  take (`mountAgentNs_eq`).

A node is a value here: two registered nodes do not share one children vector.
The map's iteration order is the argument `order` of `unmountAgentNs`.
-/

namespace Xfiles.Fs

/-- `str::as_bytes`. -/
def bytes (s : Str) : List UInt8 := s.flatMap String.utf8EncodeChar

/-- A node.  The locks of the source guard `children`, `content` and `status`. -/
inductive Vnode where
  | dir (name : Str) (children : List Str)
  | file (name : Str) (content : List UInt8)
  | ctl (name status : Str)
  | symlink (target : Str)
  deriving DecidableEq

namespace Vnode

def newDir (name : Str) : Vnode := .dir name []

def newFile (name : Str) (content : List UInt8) : Vnode := .file name content

def newCtl (name status : Str) : Vnode := .ctl name status

def isDir : Vnode → Bool
  | .dir .. => true
  | _ => false

/-- `Vnode::read`. -/
def read : Vnode → List UInt8
  | .file _ content => content
  | .ctl _ status => bytes status
  | .dir _ children => bytes (['\n'].intercalate children)
  | .symlink target => bytes target

end Vnode

/-- `Vec::dedup`: drop an element that is equal to the next one. -/
def dedup : List Str → List Str
  | [] => []
  | [name] => [name]
  | name :: next :: rest =>
    if name = next then dedup (next :: rest) else name :: dedup (next :: rest)

structure VfsRegistry where
  nodes : AList fun _ : Str => Vnode

namespace VfsRegistry

variable (vfs : VfsRegistry)

def get (path : Str) : Option Vnode := vfs.nodes.lookup (normalize path)

/-- `link_child`: only a directory takes the name, and only once. -/
def linkChild (parent child : Str) : VfsRegistry :=
  match vfs.nodes.lookup parent with
  | some (.dir name children) =>
    let childName := lastSegment child
    if childName ∈ children then vfs
    else { nodes := vfs.nodes.insert parent (.dir name (children ++ [childName])) }
  | _ => vfs

def unlinkChild (parent child : Str) : VfsRegistry :=
  match vfs.nodes.lookup parent with
  | some (.dir name children) =>
    let childName := lastSegment child
    { nodes := vfs.nodes.insert parent (.dir name (children.filter (· ≠ childName))) }
  | _ => vfs

def addNode (path : Str) (node : Vnode) : VfsRegistry :=
  let path := normalize path
  let vfs : VfsRegistry := { nodes := vfs.nodes.insert path node }
  match parentPath path with
  | some parent => vfs.linkChild parent path
  | none => vfs

def mkdir (path : Str) : VfsRegistry :=
  let path := normalize path
  let vfs : VfsRegistry := { nodes := vfs.nodes.insert path (.newDir path) }
  -- ensure that the parent knows about this child
  match parentPath path with
  | some parent => vfs.linkChild parent path
  | none => vfs

/-- The removal of one key and its link, as `remove` and `unmount_agent_ns`
both make it. -/
def removeKey (key : Str) : VfsRegistry :=
  match vfs.nodes.lookup key with
  | none => vfs
  | some _ =>
    let vfs : VfsRegistry := { nodes := vfs.nodes.erase key }
    match parentPath key with
    | some parent => vfs.unlinkChild parent key
    | none => vfs

def remove (path : Str) : Option Vnode × VfsRegistry :=
  let path := normalize path
  (vfs.nodes.lookup path, vfs.removeKey path)

def list (path : Str) : List Str :=
  let path := normalize path
  match vfs.nodes.lookup path with
  | some node =>
    if node.isDir then
      -- collect children by prefix matching
      dedup ((vfs.nodes.keys.filterMap (childName path)).insertionSort (· ≤ ·))
    else []
  | none => []

def mountAgentNs (agentId hostname : Str) : VfsRegistry :=
  let base := "/net/".toList ++ agentId
  let vfs := vfs.mkdir base
  let vfs := vfs.mkdir (base ++ "/ctl".toList)
  let vfs := vfs.mkdir (base ++ "/msg".toList)
  let vfs := vfs.addNode (base ++ "/hostname".toList) (.newFile "hostname".toList (bytes hostname))
  let vfs := vfs.addNode (base ++ "/ctl/status".toList)
    (.newCtl "status".toList "connected".toList)
  let vfs := vfs.addNode (base ++ "/ctl/capabilities".toList)
    (.newFile "capabilities".toList (bytes "[]".toList))
  let vfs := vfs.addNode (base ++ "/msg/inbox".toList) (.newFile "inbox".toList [])
  vfs.addNode (base ++ "/msg/outbox".toList) (.newFile "outbox".toList [])

/-- The keys that `unmount_agent_ns` collects, in some order of the map. -/
def toRemove (agentId : Str) : List Str :=
  let base := "/net/".toList ++ agentId
  vfs.nodes.keys.filter fun key => key == base || (base ++ ['/']).isPrefixOf key

/-- `unmount_agent_ns`, with the collected keys in the order of the map's
iterator. -/
def unmountAgentNs (order : List Str) : VfsRegistry := order.foldl removeKey vfs

def seedCore : VfsRegistry :=
  let vfs := vfs.mkdir "/net".toList
  let vfs := vfs.mkdir "/ai".toList
  let vfs := vfs.mkdir "/proc".toList
  let vfs := vfs.mkdir "/msg".toList
  let vfs := vfs.mkdir "/plumber".toList
  let vfs := vfs.mkdir "/ctl".toList
  let vfs := vfs.addNode "/ctl/status".toList (.newCtl "status".toList "ok".toList)
  let vfs := vfs.addNode "/ctl/shutdown".toList
    (.newCtl "shutdown".toList "write 1 to shutdown".toList)
  vfs.addNode "/plumber/rules".toList (.newFile "rules".toList (bytes "[]".toList))

/-- `VfsRegistry::new`. -/
def new : VfsRegistry := seedCore { nodes := ∅ }

end VfsRegistry

/-! ## The registry as a store with links -/

namespace Vnode

/-- The names that a directory shows. -/
def names : Vnode → Option (Set Str)
  | .dir _ children => some {n | n ∈ children}
  | _ => none

/-- What `link_child` does to the node of the parent. -/
def link (childName : Str) : Vnode → Vnode
  | .dir name children =>
    .dir name (if childName ∈ children then children else children ++ [childName])
  | node => node

/-- What `unlink_child` does to the node of the parent. -/
def unlink (childName : Str) : Vnode → Vnode
  | .dir name children => .dir name (children.filter (· ≠ childName))
  | node => node

theorem names_eq_some {node : Vnode} {ns : Set Str} (h : node.names = some ns) :
    ∃ name children, node = .dir name children ∧ ns = {n | n ∈ children} := by
  cases node with
  | dir name children => exact ⟨name, children, rfl, (Option.some.inj h).symm⟩
  | file => exact absurd h (by simp [names])
  | ctl => exact absurd h (by simp [names])
  | symlink => exact absurd h (by simp [names])

theorem names_link (childName : Str) (node : Vnode) :
    (node.link childName).names = node.names.map (· ∪ {childName}) := by
  cases node with
  | dir name children =>
    refine congrArg some (Set.ext fun n => ?_)
    show n ∈ (if childName ∈ children then children else children ++ [childName]) ↔
      n ∈ children ∨ n = childName
    split_ifs with h
    · exact ⟨Or.inl, fun hn => hn.elim id fun heq => heq ▸ h⟩
    · rw [List.mem_append, List.mem_singleton]
  | file => rfl
  | ctl => rfl
  | symlink => rfl

theorem names_unlink (childName : Str) (node : Vnode) :
    (node.unlink childName).names = node.names.map (· \ {childName}) := by
  cases node with
  | dir name children =>
    refine congrArg some (Set.ext fun n => ?_)
    show n ∈ children.filter (· ≠ childName) ↔ n ∈ children ∧ n ≠ childName
    rw [List.mem_filter, decide_eq_true_iff]
  | file => rfl
  | ctl => rfl
  | symlink => rfl

theorem link_of_not_dir (childName : Str) (node : Vnode) (h : node.isDir = false) :
    node.link childName = node := by
  cases node with
  | dir => exact absurd h (by simp [isDir])
  | file => rfl
  | ctl => rfl
  | symlink => rfl

theorem unlink_of_not_dir (childName : Str) (node : Vnode) (h : node.isDir = false) :
    node.unlink childName = node := by
  cases node with
  | dir => exact absurd h (by simp [isDir])
  | file => rfl
  | ctl => rfl
  | symlink => rfl

/-- A change of directories leaves everything else as it is. -/
theorem map_of_not_dir {change : Vnode → Vnode}
    (hchange : ∀ node : Vnode, node.isDir = false → change node = node) {found : Option Vnode}
    (h : ∀ name children, found ≠ some (.dir name children)) : found.map change = found := by
  cases found with
  | none => rfl
  | some node =>
    refine congrArg some (hchange node ?_)
    cases node with
    | dir name children => exact absurd rfl (h name children)
    | file => rfl
    | ctl => rfl
    | symlink => rfl

end Vnode

theorem slot_eq_none {path : Str} (h : parentPath path = none) : slot path = none := by
  rw [slot, h, Option.map_none]

theorem slot_eq_some {path parent : Str} (h : parentPath path = some parent) :
    slot path = some (parent, lastSegment path) := by
  rw [slot, h, Option.map_some]

theorem slot_ne (path name : Str) : slot path ≠ some (path, name) := by
  intro h
  obtain ⟨parent, hparent, heq⟩ := Option.map_eq_some_iff.mp h
  refine parentPath_ne_self path ?_
  rw [hparent, (Prod.mk.inj heq).1]

/-- The registry's links: a path is linked in its parent, under its last
segment. -/
def layout : LinkedStore.Layout Str Str Vnode where
  slot := slot
  names := Vnode.names
  link := Vnode.link
  unlink := Vnode.unlink
  names_link := Vnode.names_link
  names_unlink := Vnode.names_unlink
  slot_ne := slot_ne

namespace VfsRegistry

open LinkedStore

variable (vfs : VfsRegistry)

/-- The nodes by key. -/
def store : Store Str Vnode := fun key => vfs.nodes.lookup key

theorem mem_keys_store {key : Str} : key ∈ vfs.store.keys ↔ key ∈ vfs.nodes.keys := by
  rw [Store.mem_keys, ← AList.mem_keys]
  exact AList.lookup_isSome

theorem store_insert (key : Str) (node : Vnode) :
    store { nodes := vfs.nodes.insert key node } = Function.update vfs.store key (some node) := by
  funext other
  by_cases h : other = key
  · rw [h, Function.update_self]
    exact AList.lookup_insert _
  · rw [Function.update_of_ne h]
    exact AList.lookup_insert_ne h

theorem store_erase (key : Str) :
    store { nodes := vfs.nodes.erase key } = Function.update vfs.store key none := by
  funext other
  by_cases h : other = key
  · rw [h, Function.update_self]
    exact AList.lookup_erase _ _
  · rw [Function.update_of_ne h]
    exact AList.lookup_erase_ne h

theorem store_linkChild (parent child : Str) :
    (vfs.linkChild parent child).store =
      Function.update vfs.store parent
        ((vfs.store parent).map (Vnode.link (lastSegment child))) := by
  have hself : vfs.store parent = vfs.nodes.lookup parent := rfl
  rw [linkChild]
  split
  · rename_i name children hdir
    rw [hself, hdir]
    show store (if _ then _ else _) = Function.update vfs.store parent (some (.dir name _))
    split_ifs
    · rw [← hdir]
      exact (Function.update_eq_self parent vfs.store).symm
    · exact store_insert vfs parent _
  · rename_i hother
    have hsame : (vfs.store parent).map (Vnode.link (lastSegment child)) = vfs.store parent :=
      Vnode.map_of_not_dir (Vnode.link_of_not_dir _) hother
    rw [hsame, Function.update_eq_self]

theorem store_unlinkChild (parent child : Str) :
    (vfs.unlinkChild parent child).store = Function.update vfs.store parent
      ((vfs.store parent).map (Vnode.unlink (lastSegment child))) := by
  have hself : vfs.store parent = vfs.nodes.lookup parent := rfl
  rw [unlinkChild]
  split
  · rename_i name children hdir
    rw [hself, hdir]
    exact store_insert vfs parent _
  · rename_i hother
    have hsame : (vfs.store parent).map (Vnode.unlink (lastSegment child)) = vfs.store parent :=
      Vnode.map_of_not_dir (Vnode.unlink_of_not_dir _) hother
    rw [hsame, Function.update_eq_self]

/-- Adding a node is the store's write at the normalized path. -/
theorem store_addNode (path : Str) (node : Vnode) :
    (vfs.addNode path node).store = write layout vfs.store (normalize path) node := by
  have hinsert := store_insert vfs (normalize path) node
  rw [addNode, write]
  cases h : parentPath (normalize path) with
  | none =>
    rw [atSlot_eq_self layout _ (slot_eq_none h)]
    exact hinsert
  | some parent =>
    rw [atSlot_eq_update layout _ (slot_eq_some h), ← hinsert]
    exact store_linkChild _ parent (normalize path)

/-- Removing a key is the store's removal. -/
theorem store_removeKey (key : Str) :
    (vfs.removeKey key).store = LinkedStore.remove layout vfs.store key := by
  have herase := store_erase vfs key
  have hself : vfs.store key = vfs.nodes.lookup key := rfl
  rw [removeKey, LinkedStore.remove, hself]
  cases hnode : vfs.nodes.lookup key with
  | none => rw [if_neg (by simp)]
  | some node =>
    rw [if_pos (by simp)]
    cases h : parentPath key with
    | none =>
      rw [atSlot_eq_self layout _ (slot_eq_none h)]
      exact herase
    | some parent =>
      rw [atSlot_eq_update layout _ (slot_eq_some h), ← herase]
      exact store_unlinkChild _ parent key

/-! ## Lists of additions -/

/-- A list of `add_node` calls. -/
def addAll (ws : List (Str × Vnode)) : VfsRegistry :=
  ws.foldl (fun vfs w => vfs.addNode w.1 w.2) vfs

@[simp] theorem addAll_nil : vfs.addAll [] = vfs := rfl

theorem addAll_cons (path : Str) (node : Vnode) (ws : List (Str × Vnode)) :
    vfs.addAll ((path, node) :: ws) = (vfs.addNode path node).addAll ws := rfl

/-- The keys that a list of calls writes, with the nodes. -/
def keyed (ws : List (Str × Vnode)) : List (Str × Vnode) := ws.map fun w => (normalize w.1, w.2)

theorem store_addAll (ws : List (Str × Vnode)) :
    (vfs.addAll ws).store = writeAll layout vfs.store (keyed ws) := by
  induction ws generalizing vfs with
  | nil => rfl
  | cons w ws ih =>
    rw [addAll_cons, ih, store_addNode]
    rfl

theorem addAll_append (ws ws' : List (Str × Vnode)) :
    vfs.addAll (ws ++ ws') = (vfs.addAll ws).addAll ws' :=
  List.foldl_append

theorem store_unmountAgentNs (order : List Str) :
    (vfs.unmountAgentNs order).store = removeAll layout vfs.store order := by
  induction order generalizing vfs with
  | nil => rfl
  | cons key rest ih =>
    show ((vfs.removeKey key).unmountAgentNs rest).store = _
    rw [ih, store_removeKey]
    rfl

end VfsRegistry

end Xfiles.Fs
