import Xfiles.Fs.Registry
import Xfiles.Lib.SharedCells
import Xfiles.Net.Protocol

/-!
# Files in use

Requests on files, from WebSocket sessions (`FsRead` and `FsWrite` in `handle_op` of
`net/transport.rs`) and over HTTP (`vfs_read`, `vfs_write` and `vfs_delete` of `api.rs`;
`fs_read_handler` and `fs_write_handler` of `daemon.rs` are the first two again).

A handler clones the node out of the map, which shares the node's content, and waits for
the lock of the content afterwards.  In between other requests run: the key may be gone
or lead to another node by then.  `SharedCells` is this machine, with a cell for each
content.

* `effect` is what a handler does under the lock.  `Request.op` and `Request.response`
  say how a request comes to it and what is sent back.  A request is one call, but for
  `vfs_delete`, whose `unlink` from the parent is a second one.
* `serve` is the registry with one caller at a time.  `store_addNode_eq` and
  `store_remove_eq` take the operations of the registry apart into its calls.
* `linearizable_serve` compares the two over all runs, and `read_your_writes` follows.

The children that `vfs_read` shows for a directory come from the keys of the map and are
not modelled here.  A `try_write` that fails is a call of `link` or `unlink` that does
not come.
-/

namespace Xfiles.Fs

open SharedCells Linearizability Transition

/-! ## `String::from_utf8_lossy` -/

/-- What may follow the first byte of a character of three or four bytes. -/
def secondOk (first second : UInt8) : Bool :=
  if first = 0xE0 then 0xA0 ≤ second && second ≤ 0xBF
  else if first = 0xED then 0x80 ≤ second && second ≤ 0x9F
  else if 0xE1 ≤ first && first ≤ 0xEF then 0x80 ≤ second && second ≤ 0xBF
  else if first = 0xF0 then 0x90 ≤ second && second ≤ 0xBF
  else if 0xF1 ≤ first && first ≤ 0xF3 then 0x80 ≤ second && second ≤ 0xBF
  else if first = 0xF4 then 0x80 ≤ second && second ≤ 0x8F
  else false

def isContinuation (b : UInt8) : Bool := b &&& 0xC0 = 0x80

/-- How many bytes behind `first` belong to the same broken character. -/
def brokenLength (first : UInt8) : List UInt8 → Nat
  | [] => 0
  | second :: rest =>
    if secondOk first second then
      match rest with
      | [] => 1
      | third :: _ => if 0xF0 ≤ first && isContinuation third then 2 else 1
    else 0

def decodeChar (data : List UInt8) : Option Char := data.toByteArray.utf8DecodeChar? 0

/-- The text behind the next `skip` bytes. -/
def lossyFrom : Nat → List UInt8 → Str
  | _, [] => []
  | skip + 1, _ :: rest => lossyFrom skip rest
  | 0, first :: rest =>
    match decodeChar (first :: rest) with
    | some c => c :: lossyFrom (c.utf8Size - 1) rest
    | none => '\uFFFD' :: lossyFrom (brokenLength first rest) rest

/-- One replacement character stands for each broken character. -/
def fromUtf8Lossy (data : List UInt8) : Str := lossyFrom 0 data

theorem lossyFrom_eq (skip : Nat) (data : List UInt8) :
    lossyFrom skip data = fromUtf8Lossy (data.drop skip) := by
  induction data generalizing skip with
  | nil => cases skip <;> rfl
  | cons first rest ih =>
    cases skip with
    | zero => rfl
    | succ skip => exact ih skip

theorem decodeChar_encode (c : Char) (rest : List UInt8) :
    decodeChar (String.utf8EncodeChar c ++ rest) = some c := by
  rw [decodeChar, List.toByteArray_append]
  exact ByteArray.utf8DecodeChar?_utf8EncodeChar_append

theorem fromUtf8Lossy_encode (c : Char) (rest : List UInt8) :
    fromUtf8Lossy (String.utf8EncodeChar c ++ rest) = c :: fromUtf8Lossy rest := by
  have hlength : (String.utf8EncodeChar c).length = c.utf8Size := String.length_utf8EncodeChar c
  have hdecode := decodeChar_encode c rest
  cases hencode : String.utf8EncodeChar c with
  | nil =>
    have hpos := c.utf8Size_pos
    rw [← hlength, hencode] at hpos
    exact absurd hpos (Nat.lt_irrefl 0)
  | cons first more =>
    rw [hencode] at hlength hdecode
    rw [List.cons_append] at hdecode ⊢
    rw [fromUtf8Lossy, lossyFrom, hdecode]
    show c :: lossyFrom _ _ = _
    rw [lossyFrom_eq, ← hlength, List.length_cons, Nat.add_sub_cancel, List.drop_left]

/-- A text survives. -/
@[simp] theorem fromUtf8Lossy_bytes (text : Str) : fromUtf8Lossy (bytes text) = text := by
  induction text with
  | nil => rfl
  | cons c text ih =>
    show fromUtf8Lossy (String.utf8EncodeChar c ++ bytes text) = _
    rw [fromUtf8Lossy_encode, ih]

-- E2 82 begins a character and breaks off before 41; C0 begins none
example : fromUtf8Lossy [0xE2, 0x82, 0x41, 0xC0] = ['\uFFFD', 'A', '\uFFFD'] := by decide

/-! ## Handlers -/

/-- `Vnode::write`: the node afterwards, or the error text. -/
def Vnode.write (data : List UInt8) : Vnode → Except String Vnode
  | .file name _ => .ok (.file name data)
  | .ctl name _ => .ok (.ctl name (fromUtf8Lossy data))
  | .dir .. => .error "cannot write to directory"
  | .symlink _ => .error "cannot write to symlink"

/-- What a handler does with the node that it found.  `get` and `post` are the handlers
of HTTP, which ask for the kind of the node first. -/
inductive Query where
  | read
  | write (data : List UInt8)
  | get
  | post (data : List UInt8)
  | link (childName : Str)
  | unlink (childName : Str)
  deriving DecidableEq

inductive Reply where
  | data (data : List UInt8)
  | directory
  | written
  | refused (error : String)
  | linked
  deriving DecidableEq

/-- The answer of a write and the node it leaves. -/
def writeTo (data : List UInt8) (node : Vnode) : Reply × Vnode :=
  match node.write data with
  | .ok node' => (.written, node')
  | .error e => (.refused e, node)

def effect : Query → Vnode → Reply × Vnode
  | .read, node => (.data node.read, node)
  | .write data, node => writeTo data node
  | .get, node => if node.isDir then (.directory, node) else (.data node.read, node)
  | .post data, node =>
    if node.isDir then (.refused "cannot write to directory", node) else writeTo data node
  | .link childName, node => (.linked, node.link childName)
  | .unlink childName, node => (.linked, node.unlink childName)

/-- The check that `vfs_write` makes first is one that the node makes again. -/
theorem effect_post (data : List UInt8) : effect (.post data) = effect (.write data) := by
  funext node
  cases node with
  | dir => rfl
  | file => rfl
  | ctl => rfl
  | symlink => rfl

/-- A node that takes a text shows it from then on. -/
theorem read_of_written {text : Str} {node : Vnode} (h : (writeTo (bytes text) node).1 = .written) :
    (writeTo (bytes text) node).2.isDir = false ∧
      (writeTo (bytes text) node).2.read = bytes text := by
  cases node with
  | dir => exact absurd h (by simp [writeTo, Vnode.write])
  | file => exact ⟨rfl, rfl⟩
  | ctl =>
    refine ⟨rfl, ?_⟩
    show bytes (fromUtf8Lossy (bytes text)) = bytes text
    rw [fromUtf8Lossy_bytes]
  | symlink => exact absurd h (by simp [writeTo, Vnode.write])

abbrev FileOp := SharedCells.Op Str Vnode Query
abbrev FileAnswer := Answer Reply

inductive Request where
  | fsRead (path : String)
  | fsWrite (path : String) (data : List UInt8)
  | vfsRead (path : String)
  | vfsWrite (path body : String)
  | vfsDelete (path : String)
  deriving DecidableEq

/-- A frame on the socket, or a status and a body. -/
inductive Response (Time F64 F32 : Type) where
  | frame (op : Wire.ProtocolOp Time F64 F32)
  | http (status : Nat) (fields : List (String × Json))

namespace Request

def path : Request → String
  | fsRead path => path
  | fsWrite path _ => path
  | vfsRead path => path
  | vfsWrite path _ => path
  | vfsDelete path => path

/-- The key that a request asks for. -/
def key (request : Request) : Str := normalize request.path.toList

/-- The call on the registry.  The `unlink` of `vfs_delete` is a call of its own. -/
def op (request : Request) : FileOp :=
  match request with
  | fsRead _ => .access request.key .read
  | fsWrite _ data => .access request.key (.write data)
  | vfsRead _ => .access request.key .get
  | vfsWrite _ body => .access request.key (.post (bytes body.toList))
  | vfsDelete _ => .erase request.key

variable {Time F64 F32 : Type}

/-- The answers of an HTTP handler that a missing node has in common. -/
def notFound (path : String) : Response Time F64 F32 :=
  .http 404 [("error", .string "not found"), ("path", .string path)]

/-- What is sent back.  There is none where the answer does not fit the request, and for
the listing of a directory. -/
def response : Request → FileAnswer → Option (Response Time F64 F32)
  | fsRead path, .replied (.data data) => some (.frame (.fsResult path (some data) none))
  | fsRead path, .missing => some (.frame (.fsResult path none (some "not found")))
  | fsWrite path _, .replied .written => some (.frame (.fsResult path none none))
  | fsWrite path _, .replied (.refused e) => some (.frame (.fsResult path none (some e)))
  | fsWrite path _, .missing => some (.frame (.fsResult path none (some "not found")))
  | vfsRead path, .replied (.data data) =>
    some (.http 200
      [("path", .string path), ("data", .string (String.ofList (fromUtf8Lossy data)))])
  | vfsRead path, .missing => some (notFound path)
  | vfsWrite path _, .replied .written =>
    some (.http 200 [("path", .string path), ("status", .string "written")])
  | vfsWrite path _, .replied (.refused e) =>
    some (.http 400 [("error", .string e), ("path", .string path)])
  | vfsWrite path _, .missing => some (notFound path)
  | vfsDelete path, .erased true =>
    some (.http 200 [("path", .string path), ("status", .string "deleted")])
  | vfsDelete path, .erased false => some (notFound path)
  | _, _ => none

/-- The request puts a text into a node. -/
def Writes (text : String) : Request → Prop
  | fsWrite _ data => data = bytes text.toList
  | vfsWrite _ body => body = text
  | _ => False

/-- What a write is told when the data is in. -/
def accepted : Request → Option (Response Time F64 F32)
  | fsWrite path _ => some (.frame (.fsResult path none none))
  | vfsWrite path _ => some (.http 200 [("path", .string path), ("status", .string "written")])
  | _ => none

/-- The request is shown a text. -/
def shown (text : String) : Request → Option (Response Time F64 F32)
  | fsRead path => some (.frame (.fsResult path (some (bytes text.toList)) none))
  | vfsRead path => some (.http 200 [("path", .string path), ("data", .string text)])
  | _ => none

def Reads : Request → Prop
  | fsRead _ => True
  | vfsRead _ => True
  | _ => False

end Request

/-! ## One caller at a time -/

namespace VfsRegistry

variable (vfs : VfsRegistry)

/-- A call on the registry, from the lookup to the end. -/
def serve : FileOp → FileAnswer × VfsRegistry
  | .install key node => (.done, { nodes := vfs.nodes.insert key node })
  | .erase key => (.erased (vfs.nodes.lookup key).isSome, { nodes := vfs.nodes.erase key })
  | .access key query =>
    match vfs.nodes.lookup key with
    | none => (.missing, vfs)
    | some node =>
      (.replied (effect query node).1, { nodes := vfs.nodes.insert key (effect query node).2 })

/-- One call after the other. -/
def serveAll (ops : List FileOp) : VfsRegistry := ops.foldl (fun vfs op => (vfs.serve op).2) vfs

theorem apply_store (op : FileOp) :
    apply effect vfs.store op = ((vfs.serve op).1, (vfs.serve op).2.store) := by
  cases op with
  | install key node => exact congrArg _ (vfs.store_insert key node).symm
  | erase key => exact congrArg _ (vfs.store_erase key).symm
  | access key query =>
    have hself : vfs.store key = vfs.nodes.lookup key := rfl
    rw [apply, serve, hself]
    cases vfs.nodes.lookup key with
    | none => rfl
    | some node => exact congrArg _ (vfs.store_insert key _).symm

/-- The calls that `add_node` makes, and `mkdir` with a new directory. -/
def addNodeCalls (path : Str) (node : Vnode) : List FileOp :=
  .install (normalize path) node :: (parentPath (normalize path)).toList.map fun parent =>
    .access parent (.link (lastSegment (normalize path)))

/-- The calls that `remove` makes.  An absent key has no link to take out. -/
def removeCalls (path : Str) : List FileOp :=
  .erase (normalize path) ::
    if (vfs.get path).isSome then
      (parentPath (normalize path)).toList.map fun parent =>
        .access parent (.unlink (lastSegment (normalize path)))
    else []

theorem serve_change (parent : Str) (query : Query) (change : Vnode → Vnode)
    (hchange : ∀ node, (effect query node).2 = change node) :
    (vfs.serve (.access parent query)).2.store =
      Function.update vfs.store parent ((vfs.store parent).map change) := by
  have hself : vfs.store parent = vfs.nodes.lookup parent := rfl
  rw [serve, hself]
  cases hnode : vfs.nodes.lookup parent with
  | none => exact (Function.update_eq_self_iff.mpr hnode.symm).symm
  | some node =>
    show store { nodes := vfs.nodes.insert parent (effect query node).2 } = _
    rw [hchange, store_insert]
    rfl

theorem store_addNode_eq (path : Str) (node : Vnode) :
    (vfs.addNode path node).store = (vfs.serveAll (addNodeCalls path node)).store := by
  rw [addNode, addNodeCalls]
  cases parentPath (normalize path) with
  | none => rfl
  | some parent =>
    rw [store_linkChild]
    exact (serve_change _ parent (.link _) _ fun _ => rfl).symm

theorem store_remove_eq (path : Str) :
    (vfs.remove path).2.store = (vfs.serveAll (vfs.removeCalls path)).store := by
  show (vfs.removeKey (normalize path)).store = _
  rw [removeKey, removeCalls, get]
  cases hnode : vfs.nodes.lookup (normalize path) with
  | none =>
    show vfs.store = (vfs.serve (.erase (normalize path))).2.store
    rw [serve, store_erase]
    exact (Function.update_eq_self_iff.mpr hnode.symm).symm
  | some node =>
    cases parentPath (normalize path) with
    | none => rfl
    | some parent =>
      rw [store_unlinkChild]
      exact (serve_change _ parent (.unlink _) _ fun _ => rfl).symm

end VfsRegistry

/-! ## Many callers -/

section Runs

variable {P : Type*} [DecidableEq P]

/-- The registry with a cell for each node, before the first request. -/
def VfsRegistry.shared (vfs : VfsRegistry) : Table P Str Vnode Query Reply where
  cells := vfs.nodes.entries.map Sigma.snd
  table key := vfs.nodes.keys.idxOf? key
  calls _ := none
  history := []

theorem idxOf_bind_snd (entries : List (Sigma fun _ : Str => Vnode)) (key : Str) :
    (entries.keys.idxOf? key).bind (fun i => (entries.map Sigma.snd)[i]?) =
      entries.dlookup key := by
  induction entries with
  | nil => rfl
  | cons entry entries ih =>
    obtain ⟨other, node⟩ := entry
    by_cases h : other = key
    · subst h
      simp [List.keys, List.idxOf?_cons]
    · rw [List.dlookup_cons_ne _ _ (Ne.symm h), ← ih]
      simp [List.keys, List.idxOf?_cons, h, Option.bind_map]

omit [DecidableEq P] in
theorem view_shared (vfs : VfsRegistry) : (vfs.shared : Table P _ _ _ _).view = vfs.store :=
  funext fun key => idxOf_bind_snd vfs.nodes.entries key

omit [DecidableEq P] in
theorem fresh_shared (vfs : VfsRegistry) : Fresh (vfs.shared : Table P _ _ _ _) where
  calls _ := rfl
  history := rfl
  bounded key cell h := by
    obtain ⟨hlt, _⟩ := List.idxOf?_eq_some_iff.mp h
    show cell < (vfs.nodes.entries.map Sigma.snd).length
    rw [List.length_map]
    simpa [AList.keys, List.keys] using hlt
  injective key key' cell h h' := by
    obtain ⟨_, heq, _⟩ := List.idxOf?_eq_some_iff.mp h
    obtain ⟨_, heq', _⟩ := List.idxOf?_eq_some_iff.mp h'
    exact heq.symm.trans heq'

variable {vfs : VfsRegistry} {labels : List (Label P Str Vnode Query)}
variable {t : Table P Str Vnode Query Reply}

/-- Calls on files that run at the same time are answered like calls that run one after the
other, in an order that keeps the order of calls that do not overlap. -/
theorem linearizable_serve (hrun : run (SharedCells.step effect) vfs.shared labels = some t) :
    ∃ order, Linearizes VfsRegistry.serve vfs t.history order ∧
      (after VfsRegistry.serve vfs order).store = t.view := by
  obtain ⟨order, hlinear, hafter⟩ := linearizable (fresh_shared vfs) hrun
  rw [view_shared] at hlinear hafter
  refine ⟨order, hlinear.map VfsRegistry.apply_store, ?_⟩
  rw [← hafter]
  exact (legal_map VfsRegistry.apply_store vfs order).2.symm

/-- A session holds the node that another request deletes, and reads it afterwards. -/
theorem linearizable_deleted :
    ∃ (t : Table Nat Str Vnode Query Reply) (order : List (Entry Nat FileOp FileAnswer)),
      run (SharedCells.step effect)
        (VfsRegistry.mk (AList.singleton ['/', 'f'] (.newFile ['f'] [104]))).shared
        [.invoke 0 (Request.fsRead "f").op, .act 0, .invoke 1 (Request.vfsDelete "/f").op, .act 1,
          .respond 1, .use 0, .respond 0] = some t ∧
      Linearizes VfsRegistry.serve ⟨AList.singleton ['/', 'f'] (.newFile ['f'] [104])⟩ t.history
        order := by
  have hrun : run (SharedCells.step effect)
      (VfsRegistry.mk (AList.singleton ['/', 'f'] (.newFile ['f'] [104]))).shared
      [.invoke 0 (Request.fsRead "f").op, .act 0, .invoke 1 (Request.vfsDelete "/f").op, .act 1,
        .respond 1, .use 0, .respond 0] = some _ := rfl
  obtain ⟨order, hlinear, _⟩ := linearizable_serve hrun
  exact ⟨_, order, hrun, hlinear⟩

/-! ## What a reader sees -/

/-- The call can change the content of a file. -/
def Changes (key : Str) : FileOp → Prop
  | .install other _ => other = key
  | .erase other => other = key
  | .access other (.write _) => other = key
  | .access other (.post _) => other = key
  | .access _ _ => False

/-- The calls on a key that can change it end before `p` or begin after `q`, but for `p`. -/
def Quiet (history : List (Event P FileOp FileAnswer)) (key : Str) (p q : P) : Prop :=
  ∀ other op, .invoke other op ∈ history → Changes key op → other ≠ p →
    Precedes history other p ∨ Precedes history q other

/-- A call that cannot change a file leaves it as it is. -/
theorem apply_of_not_changes {files : Str → Option Vnode} {key : Str} {node : Vnode}
    (hnode : files key = some node) (hdir : node.isDir = false) {op : FileOp}
    (h : ¬ Changes key op) : (apply effect files op).2 key = some node := by
  cases op with
  | install other value =>
    show Function.update files other (some value) key = _
    rwa [Function.update_of_ne (Ne.symm h)]
  | erase other =>
    show Function.update files other none key = _
    rwa [Function.update_of_ne (Ne.symm h)]
  | access other query =>
    rw [apply]
    cases hother : files other with
    | none => exact hnode
    | some node' =>
      show Function.update files other (some (effect query node').2) key = _
      by_cases hkey : key = other
      · subst hkey
        obtain rfl : node = node' := Option.some.inj (hnode.symm.trans hother)
        rw [Function.update_self]
        cases query with
        | read => rfl
        | write data => exact absurd rfl h
        | get =>
          rw [effect]
          split <;> rfl
        | post data => exact absurd rfl h
        | link childName => exact congrArg some (Vnode.link_of_not_dir childName node hdir)
        | unlink childName => exact congrArg some (Vnode.unlink_of_not_dir childName node hdir)
      · rwa [Function.update_of_ne hkey]

omit [DecidableEq P] in
theorem after_of_not_changes {files : Str → Option Vnode} {key : Str} {node : Vnode}
    (hnode : files key = some node) (hdir : node.isDir = false)
    {order : List (Entry P FileOp FileAnswer)} (h : ∀ e ∈ order, ¬ Changes key e.op) :
    after (apply effect) files order key = some node := by
  induction order generalizing files with
  | nil => exact hnode
  | cons e order ih =>
    exact ih (apply_of_not_changes hnode hdir (h e List.mem_cons_self)) fun e' he' =>
      h e' (List.mem_cons_of_mem _ he')

namespace Request

variable {Time F64 F32 : Type} {request : Request} {text : String} {files : Str → Option Vnode}

theorem written_of_accepted {answer : FileAnswer} (hwrites : request.Writes text)
    (h : (request.response answer : Option (Response Time F64 F32)) = request.accepted) :
    answer = .replied .written := by
  cases request with
  | fsWrite path data =>
    rw [response.eq_def, accepted] at h
    split at h <;> simp_all
  | vfsWrite path body =>
    rw [response.eq_def, accepted] at h
    split at h <;> simp_all [notFound]
  | fsRead => exact absurd hwrites id
  | vfsRead => exact absurd hwrites id
  | vfsDelete => exact absurd hwrites id

/-- Both writers do the same to the node. -/
theorem op_of_writes (hwrites : request.Writes text) :
    ∃ query, request.op = .access request.key query ∧
      effect query = writeTo (bytes text.toList) := by
  cases request with
  | fsWrite path data =>
    obtain rfl : data = bytes text.toList := hwrites
    exact ⟨_, rfl, rfl⟩
  | vfsWrite path body =>
    obtain rfl : body = text := hwrites
    exact ⟨_, rfl, effect_post _⟩
  | fsRead => exact absurd hwrites id
  | vfsRead => exact absurd hwrites id
  | vfsDelete => exact absurd hwrites id

/-- What the node holds behind an accepted write. -/
theorem node_of_accepted {answer : FileAnswer} (hwrites : request.Writes text)
    (hanswer : (apply effect files request.op).1 = answer)
    (haccepted : (request.response answer : Option (Response Time F64 F32)) = request.accepted) :
    ∃ node, (apply effect files request.op).2 request.key = some node ∧ node.isDir = false ∧
      node.read = bytes text.toList := by
  obtain rfl := written_of_accepted hwrites haccepted
  obtain ⟨query, hop, heffect⟩ := op_of_writes hwrites
  rw [hop, apply] at hanswer ⊢
  cases hnode : files request.key with
  | none =>
    rw [hnode] at hanswer
    exact absurd hanswer (by simp)
  | some node =>
    rw [hnode] at hanswer
    have hwritten : (writeTo (bytes text.toList) node).1 = .written := by
      rw [← heffect]
      exact Answer.replied.inj hanswer
    obtain ⟨hdir, hread⟩ := read_of_written hwritten
    refine ⟨(writeTo (bytes text.toList) node).2, ?_, hdir, hread⟩
    rw [← heffect]
    exact Function.update_self ..

/-- What a reader is sent. -/
theorem response_of_reads (hreads : request.Reads) {node : Vnode}
    (hnode : files request.key = some node) (hdir : node.isDir = false)
    (hread : node.read = bytes text.toList) :
    (request.response (apply effect files request.op).1 : Option (Response Time F64 F32)) =
      request.shown text := by
  cases request with
  | fsRead path =>
    rw [op, apply, hnode]
    show some _ = some _
    rw [hread]
  | vfsRead path =>
    rw [op, apply, hnode]
    show response _ (.replied (effect .get node).1) = _
    rw [effect, hdir, hread]
    show some (Response.http 200 [_, ("data", .string (String.ofList (fromUtf8Lossy _)))]) = _
    rw [fromUtf8Lossy_bytes, String.ofList_toList]
    rfl
  | fsWrite => exact absurd hreads id
  | vfsWrite => exact absurd hreads id
  | vfsDelete => exact absurd hreads id

end Request

/-- A text that was accepted for a file is what every later reader is shown, over a socket or
over HTTP, as long as no other request may change the file in the meantime. -/
theorem read_your_writes {Time F64 F32 : Type}
    (hrun : run (SharedCells.step effect) vfs.shared labels = some t)
    {p q : P} {w r : Request} {text : String} {a b : FileAnswer}
    (hw : w.Writes text) (hr : r.Reads) (hkey : r.key = w.key)
    (hp : .invoke p w.op ∈ t.history) (ha : .respond p a ∈ t.history)
    (haccepted : (w.response a : Option (Response Time F64 F32)) = w.accepted)
    (hq : .invoke q r.op ∈ t.history) (hb : .respond q b ∈ t.history)
    (hbefore : Precedes t.history p q) (hquiet : Quiet t.history w.key p q) :
    (r.response b : Option (Response Time F64 F32)) = r.shown text := by
  obtain ⟨order, hlinear, _⟩ := linearizable (fresh_shared vfs) hrun
  have hone : ∀ {o : P} {op op' : FileOp}, .invoke o op ∈ t.history → .invoke o op' ∈ t.history →
      op = op' := fun hop hop' => invoke_unique (fresh_shared vfs) hrun hop hop'
  obtain ⟨wop, hwmem⟩ := hlinear.responded p a ha
  obtain ⟨rop, hrmem⟩ := hlinear.responded q b hb
  obtain rfl := hone hp (hlinear.invoked _ hwmem)
  obtain rfl := hone hq (hlinear.invoked _ hrmem)
  obtain ⟨early, first, middle, second, late, rfl, hfirst, hsecond, hmiddle⟩ :=
    hlinear.between hbefore (mem_calls.mpr ⟨r.op, b, hrmem⟩)
  obtain rfl := hlinear.eq_of_call hwmem (by simp) hfirst.symm
  obtain rfl := hlinear.eq_of_call hrmem (by simp) hsecond.symm
  obtain ⟨_, hanswer, hrest⟩ := legal_append.mp hlinear.legal
  obtain ⟨_, hanswer', _⟩ := legal_append.mp hrest
  have hstill : ∀ e ∈ middle, ¬ Changes w.key e.op := by
    intro e he hchanges
    have hmem : e ∈ early ++ ⟨p, w.op, a⟩ :: (middle ++ ⟨q, r.op, b⟩ :: late) := by simp [he]
    have hother : e.call ≠ p := by
      intro hcall
      have hnodup := hlinear.nodup
      rw [calls_append] at hnodup
      have htail := (List.nodup_cons.mp (List.nodup_append.mp hnodup).2.1).1
      refine htail (List.mem_map.mpr ⟨e, ?_, hcall⟩)
      exact List.mem_append_left _ he
    rcases hquiet e.call e.op (hlinear.invoked e hmem) hchanges hother with hfront | hback
    · exact (hmiddle e he).1 hfront
    · exact (hmiddle e he).2 hback
  obtain ⟨node, hnode, hdir, hread⟩ := Request.node_of_accepted hw hanswer haccepted
  have hkept := after_of_not_changes hnode hdir hstill
  rw [← hkey] at hkept
  have hb' : (apply effect _ r.op).1 = b := hanswer'
  rw [← hb']
  exact Request.response_of_reads hr hkept hdir hread

/-- A status that was posted over HTTP, read by a session. -/
theorem read_your_writes_ctl :
    (Request.fsRead "/c").response (.replied (.data [111, 107])) =
      ((Request.fsRead "/c").shown "ok" : Option (Response Nat Nat Nat)) := by
  obtain ⟨t, hrun, hhistory⟩ : ∃ t : Table Nat Str Vnode Query Reply,
      run (SharedCells.step effect)
        (VfsRegistry.mk (AList.singleton ['/', 'c'] (.newCtl ['c'] []))).shared
        [.invoke 0 (Request.vfsWrite "c" "ok").op, .act 0, .use 0, .respond 0,
          .invoke 1 (Request.fsRead "/c").op, .act 1, .use 1, .respond 1] = some t ∧
      t.history = [.invoke 0 (Request.vfsWrite "c" "ok").op, .respond 0 (.replied .written),
        .invoke 1 (Request.fsRead "/c").op, .respond 1 (.replied (.data [111, 107]))] := by
    refine ⟨_, rfl, ?_⟩
    rfl
  have hwrites : (Request.vfsWrite "c" "ok").Writes "ok" := rfl
  refine read_your_writes hrun hwrites trivial (by decide) ?_ (p := 0) (q := 1)
    (a := .replied .written) ?_ rfl ?_ ?_ ?_ ?_
  · simp [hhistory]
  · simp [hhistory]
  · simp [hhistory]
  · simp [hhistory]
  · exact ⟨.replied .written, (Request.fsRead "/c").op, by rw [hhistory]; simp⟩
  · intro other op hmem hchanges hother
    rw [hhistory] at hmem
    obtain ⟨rfl, rfl⟩ : other = 1 ∧ op = (Request.fsRead "/c").op := by simpa [hother] using hmem
    exact absurd hchanges id

end Runs

end Xfiles.Fs
