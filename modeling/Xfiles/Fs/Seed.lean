import Xfiles.Fs.Files
import Xfiles.Fs.Mounts

/-!
# The files of the running hub

The daemon seeds the registry with nine nodes, and nothing that runs later puts a node into
it: `Hello` registers the agent alone, and `mkdir`, `add_node`, `mount_agent_ns` and
`create_namespace` have no caller among the handlers.  What is left are reads, writes and
deletions of nodes that are there, and `unmount_agent_ns` when an agent is unregistered
(`InHub`).

So the tree can only lose nodes.  `Seeded` is the invariant of the registry, and
`files_only_shrink` says what the callers see of it: a path that was answered as missing
or deleted is missing from then on, and nothing below `/net/` is ever there.
-/

namespace Xfiles.Fs

open SharedCells Linearizability Transition

/-- The calls of the handlers: requests, and the parts of `remove` and `unmount_agent_ns`. -/
def InHub (op : FileOp) : Prop :=
  (∃ request : Request, op = request.op) ∨ (∃ key, op = .erase key) ∨
    ∃ parent childName, op = .access parent (.unlink childName)

theorem InHub.not_install {op : FileOp} (h : InHub op) (key : Str) (node : Vnode) :
    op ≠ .install key node := by
  rintro rfl
  rcases h with ⟨request, hop⟩ | ⟨_, hop⟩ | ⟨_, _, hop⟩
  · cases request with
    | fsRead | fsWrite | vfsRead | vfsWrite | vfsDelete => exact absurd hop (by simp [Request.op])
  · exact absurd hop (by simp)
  · exact absurd hop (by simp)

theorem inHub_removeCalls (vfs : VfsRegistry) (path : Str) :
    ∀ op ∈ vfs.removeCalls path, InHub op := by
  intro op hop
  rcases List.mem_cons.mp hop with rfl | hunlink
  · exact .inr (.inl ⟨_, rfl⟩)
  · split at hunlink
    · obtain ⟨parent, _, rfl⟩ := List.mem_map.mp hunlink
      exact .inr (.inr ⟨_, _, rfl⟩)
    · exact absurd hunlink List.not_mem_nil

/-- The nodes of `seed_core` that take data. -/
def coreFiles : List Str :=
  ["/ctl/status".toList, "/ctl/shutdown".toList, "/plumber/rules".toList]

/-! ## The registry -/

/-- Every node is one of `seed_core`, a directory or not as it was there. -/
def Seeded (files : Str → Option Vnode) : Prop :=
  ∀ key node, files key = some node → key ∈ corePaths ∧ (node.isDir = false → key ∈ coreFiles)

theorem seeded_new : Seeded VfsRegistry.new.store := by
  have hentries : ∀ entry ∈ VfsRegistry.new.nodes.entries,
      entry.1 ∈ corePaths ∧ (entry.2.isDir = false → entry.1 ∈ coreFiles) := by decide
  intro key node hnode
  exact hentries ⟨key, node⟩ (AList.mem_lookup_iff.mp hnode)

theorem isDir_effect (query : Query) (node : Vnode) :
    (effect query node).2.isDir = node.isDir := by
  cases query with
  | read => rfl
  | write data => cases node <;> rfl
  | get => cases node <;> rfl
  | post data => cases node <;> rfl
  | link childName => cases node <;> rfl
  | unlink childName => cases node <;> rfl

theorem Seeded.step {files : Str → Option Vnode} (h : Seeded files) {op : FileOp}
    (hop : InHub op) : Seeded (apply effect files op).2 := by
  cases op with
  | install key node => exact absurd rfl (hop.not_install key node)
  | erase other =>
    intro key node hnode
    change Function.update files other none key = some node at hnode
    by_cases hkey : key = other
    · subst hkey
      rw [Function.update_self] at hnode
      exact absurd hnode (by simp)
    · rw [Function.update_of_ne hkey] at hnode
      exact h key node hnode
  | access other query =>
    intro key node hnode
    rw [apply] at hnode
    cases hother : files other with
    | none =>
      rw [hother] at hnode
      exact h key node hnode
    | some node' =>
      rw [hother] at hnode
      change Function.update files other (some (effect query node').2) key = some node at hnode
      by_cases hkey : key = other
      · subst hkey
        rw [Function.update_self] at hnode
        obtain rfl := Option.some.inj hnode
        rw [isDir_effect]
        exact h key node' hother
      · rw [Function.update_of_ne hkey] at hnode
        exact h key node hnode

/-- A node that is gone stays gone. -/
theorem none_apply {files : Str → Option Vnode} {key : Str} (hnone : files key = none)
    {op : FileOp} (hop : InHub op) : (apply effect files op).2 key = none := by
  cases op with
  | install key node => exact absurd rfl (hop.not_install key node)
  | erase other =>
    show Function.update files other none key = none
    rw [Function.update_apply]
    split
    · rfl
    · exact hnone
  | access other query =>
    rw [apply]
    cases hother : files other with
    | none => exact hnone
    | some node =>
      have hkey : key ≠ other := by
        rintro rfl
        rw [hnone] at hother
        exact absurd hother (by simp)
      show Function.update files other _ key = none
      rwa [Function.update_of_ne hkey]

section Orders

variable {P : Type*} {files : Str → Option Vnode} {order : List (Entry P FileOp FileAnswer)}

theorem Seeded.run (h : Seeded files) (hops : ∀ e ∈ order, InHub e.op) :
    Seeded (after (apply effect) files order) := by
  induction order generalizing files with
  | nil => exact h
  | cons e order ih =>
    exact ih (h.step (hops e List.mem_cons_self)) fun e' he' =>
      hops e' (List.mem_cons_of_mem _ he')

theorem none_after {key : Str} (hnone : files key = none) (hops : ∀ e ∈ order, InHub e.op) :
    after (apply effect) files order key = none := by
  induction order generalizing files with
  | nil => exact hnone
  | cons e order ih =>
    exact ih (none_apply hnone (hops e List.mem_cons_self)) fun e' he' =>
      hops e' (List.mem_cons_of_mem _ he')

/-- Every call of a legal order meets a registry of the seeded nodes. -/
theorem exists_seeded (hseeded : Seeded files) (hops : ∀ e ∈ order, InHub e.op)
    (hlegal : Legal (apply effect) files order) {p : P} {op : FileOp} {a : FileAnswer}
    (hmem : ⟨p, op, a⟩ ∈ order) : ∃ before, Seeded before ∧ (apply effect before op).1 = a := by
  obtain ⟨early, late, rfl⟩ := List.append_of_mem hmem
  obtain ⟨_, hanswer, _⟩ := legal_append.mp hlegal
  exact ⟨_, hseeded.run fun e' he' => hops e' (List.mem_append_left _ he'), hanswer⟩

end Orders

/-! ## What a caller is sent -/

namespace Request

variable {Time F64 F32 : Type}

/-- The answer for a path without a node. -/
def absent : Request → Response Time F64 F32
  | fsRead path => .frame (.fsResult path none (some "not found"))
  | fsWrite path _ => .frame (.fsResult path none (some "not found"))
  | vfsRead path => notFound path
  | vfsWrite path _ => notFound path
  | vfsDelete path => notFound path

/-- The answer of a request that took its node away. -/
def deleted : Request → Option (Response Time F64 F32)
  | vfsDelete path => some (.http 200 [("path", .string path), ("status", .string "deleted")])
  | _ => none

/-- The caller was told that there is no node. -/
def ToldGone (request : Request) (response : Option (Response Time F64 F32)) : Prop :=
  response = some request.absent ∨ response = request.deleted ∧ response ≠ none

variable {request : Request} {files : Str → Option Vnode}

theorem inHub_op (request : Request) : InHub request.op := .inl ⟨request, rfl⟩

theorem response_of_none (hnone : files request.key = none) :
    (request.response (apply effect files request.op).1 : Option (Response Time F64 F32)) =
      some request.absent := by
  cases request with
  | fsRead | fsWrite | vfsRead | vfsWrite =>
    rw [op, apply, hnone]
    rfl
  | vfsDelete path =>
    show response _ (.erased (files (vfsDelete path).key).isSome) = _
    rw [hnone]
    rfl

/-- Whoever is told so leaves no node behind. -/
theorem none_of_toldGone
    (h : request.ToldGone
      (request.response (apply effect files request.op).1 : Option (Response Time F64 F32))) :
    (apply effect files request.op).2 request.key = none := by
  cases hnode : files request.key with
  | none => exact none_apply hnode request.inHub_op
  | some node =>
    cases request with
    | vfsDelete path => exact Function.update_self ..
    | fsRead path =>
      rw [op, apply, hnode] at h
      exact absurd h (by simp [ToldGone, absent, deleted, response, effect])
    | fsWrite path data =>
      rw [op, apply, hnode] at h
      cases node with
      | dir | file | ctl | symlink =>
        exact absurd h (by simp [ToldGone, absent, deleted, response, effect, writeTo, Vnode.write])
    | vfsRead path =>
      rw [op, apply, hnode] at h
      cases node with
      | dir | file | ctl | symlink =>
        exact absurd h
          (by simp [ToldGone, absent, deleted, response, effect, notFound, Vnode.isDir])
    | vfsWrite path body =>
      rw [op, apply, hnode] at h
      cases node with
      | dir | file | ctl | symlink =>
        exact absurd h (by simp [ToldGone, absent, deleted, response, effect, notFound, writeTo,
          Vnode.write, Vnode.isDir])

/-- Only a node that is not a directory takes data. -/
theorem mem_coreFiles_of_accepted (hseeded : Seeded files) {accepted : Response Time F64 F32}
    (hwrite : request.accepted = some accepted)
    (h : request.response (apply effect files request.op).1 = some accepted) :
    request.key ∈ coreFiles := by
  cases hnode : files request.key with
  | none =>
    rw [response_of_none hnode] at h
    cases request with
    | fsWrite | vfsWrite =>
      obtain rfl := Option.some.inj hwrite
      simp [absent, notFound] at h
    | fsRead | vfsRead | vfsDelete => exact absurd hwrite (by simp [Request.accepted])
  | some node =>
    cases node with
    | file | ctl | symlink => exact (hseeded request.key _ hnode).2 rfl
    | dir =>
      cases request with
      | fsWrite | vfsWrite =>
        obtain rfl := Option.some.inj hwrite
        rw [op, apply, hnode] at h
        simp [response, effect, writeTo, Vnode.write, Vnode.isDir] at h
      | fsRead | vfsRead | vfsDelete => exact absurd hwrite (by simp [Request.accepted])

end Request

/-! ## Runs -/

section Runs

variable {P : Type*} [DecidableEq P] {labels : List (Label P Str Vnode Query)}
variable {t : Table P Str Vnode Query Reply} {Time F64 F32 : Type}

/-- The call of a caller in an order of the calls. -/
theorem entry_of_history {order : List (Entry P FileOp FileAnswer)}
    (hlinear : Linearizes (apply effect) VfsRegistry.new.store t.history order)
    (hrun : run (SharedCells.step effect) VfsRegistry.new.shared labels = some t) {p : P}
    {op : FileOp} {a : FileAnswer} (hp : .invoke p op ∈ t.history) (ha : .respond p a ∈ t.history) :
    ⟨p, op, a⟩ ∈ order := by
  obtain ⟨op', hmem⟩ := hlinear.responded p a ha
  obtain rfl := invoke_unique (fresh_shared _) hrun hp (hlinear.invoked _ hmem)
  exact hmem

/-- The file tree of the hub only shrinks.  Its paths are those of `seed_core`, below
`/net/` there is nothing, and only three nodes take data.  Whoever asks for a path after
somebody was told that it is missing or deleted is told that it is missing. -/
theorem files_only_shrink (hhub : ∀ p op, .invoke p op ∈ t.history → InHub op)
    (hrun : run (SharedCells.step effect) VfsRegistry.new.shared labels = some t) :
    (∀ key, t.view key ≠ none → key ∈ corePaths) ∧
    (∀ p (w : Request) a (accepted : Response Time F64 F32), .invoke p w.op ∈ t.history →
      .respond p a ∈ t.history → w.accepted = some accepted → w.response a = some accepted →
      w.key ∈ coreFiles) ∧
    (∀ q (r : Request) b, .invoke q r.op ∈ t.history → .respond q b ∈ t.history →
      "/net/".toList <+: r.key →
      (r.response b : Option (Response Time F64 F32)) = some r.absent) ∧
    ∀ p q (w r : Request) a b, .invoke p w.op ∈ t.history → .respond p a ∈ t.history →
      .invoke q r.op ∈ t.history → .respond q b ∈ t.history → Precedes t.history p q →
      r.key = w.key → w.ToldGone (w.response a : Option (Response Time F64 F32)) →
      (r.response b : Option (Response Time F64 F32)) = some r.absent := by
  obtain ⟨order, hlinear, hafter⟩ := linearizable (fresh_shared VfsRegistry.new) hrun
  rw [view_shared] at hlinear hafter
  have hops : ∀ e ∈ order, InHub e.op := fun e he => hhub e.call e.op (hlinear.invoked e he)
  refine ⟨?_, ?_, ?_, ?_⟩
  · intro key hsome
    obtain ⟨node, hnode⟩ := Option.ne_none_iff_exists'.mp hsome
    rw [← hafter] at hnode
    exact (seeded_new.run hops key node hnode).1
  · intro p w a accepted hp ha hwrite haccepted
    have hmem := entry_of_history hlinear hrun hp ha
    obtain ⟨before, hseeded, rfl⟩ := exists_seeded seeded_new hops hlinear.legal hmem
    exact Request.mem_coreFiles_of_accepted hseeded hwrite haccepted
  · intro q r b hq hb hbelow
    have hmem := entry_of_history hlinear hrun hq hb
    obtain ⟨before, hseeded, rfl⟩ := exists_seeded seeded_new hops hlinear.legal hmem
    have hnone : before r.key = none := by
      by_contra hsome
      obtain ⟨node, hnode⟩ := Option.ne_none_iff_exists'.mp hsome
      have hcore : ∀ key ∈ corePaths, ¬ "/net/".toList <+: key := by decide
      exact hcore r.key (hseeded r.key node hnode).1 hbelow
    exact Request.response_of_none hnone
  · intro p q w r a b hp ha hq hb hbefore hkey hgone
    have hwmem := entry_of_history hlinear hrun hp ha
    have hrmem := entry_of_history hlinear hrun hq hb
    obtain ⟨early, first, middle, second, late, rfl, hfirst, hsecond, -⟩ :=
      hlinear.between hbefore (mem_calls.mpr ⟨r.op, b, hrmem⟩)
    obtain rfl := hlinear.eq_of_call hwmem (by simp) hfirst.symm
    obtain rfl := hlinear.eq_of_call hrmem (by simp) hsecond.symm
    obtain ⟨_, hwanswer, hrest⟩ := legal_append.mp hlinear.legal
    obtain ⟨_, hranswer, _⟩ := legal_append.mp hrest
    have ha' : (apply effect _ w.op).1 = a := hwanswer
    have hb' : (apply effect _ r.op).1 = b := hranswer
    rw [← ha'] at hgone
    have hstill := none_after (Request.none_of_toldGone hgone) fun e (he : e ∈ middle) =>
      hops e (by simp [he])
    rw [← hkey] at hstill
    rw [← hb']
    exact Request.response_of_none hstill

end Runs

/-- A session that asks for a file after another caller has deleted it. -/
theorem files_only_shrink_deleted :
    ∃ (t : Table Nat Str Vnode Query Reply) (b : FileAnswer),
      run (SharedCells.step effect) VfsRegistry.new.shared
        [.invoke 0 (Request.vfsDelete "ctl/status").op, .act 0, .respond 0,
          .invoke 1 (Request.fsRead "/ctl/status").op, .act 1, .respond 1] = some t ∧
      .respond 1 b ∈ t.history ∧
      ((Request.fsRead "/ctl/status").response b : Option (Response Nat Nat Nat)) =
        some (Request.fsRead "/ctl/status").absent := by
  obtain ⟨t, hrun, hhistory⟩ : ∃ t : Table Nat Str Vnode Query Reply,
      run (SharedCells.step effect) VfsRegistry.new.shared
        [.invoke 0 (Request.vfsDelete "ctl/status").op, .act 0, .respond 0,
          .invoke 1 (Request.fsRead "/ctl/status").op, .act 1, .respond 1] = some t ∧
      t.history = [.invoke 0 (Request.vfsDelete "ctl/status").op, .respond 0 (.erased true),
        .invoke 1 (Request.fsRead "/ctl/status").op, .respond 1 .missing] := ⟨_, rfl, rfl⟩
  have hhub : ∀ p op, .invoke p op ∈ t.history → InHub op := by
    intro p op hop
    rw [hhistory] at hop
    obtain ⟨-, rfl⟩ | ⟨-, rfl⟩ : p = 0 ∧ op = (Request.vfsDelete "ctl/status").op ∨
        p = 1 ∧ op = (Request.fsRead "/ctl/status").op := by simpa using hop
    · exact Request.inHub_op _
    · exact Request.inHub_op _
  refine ⟨t, .missing, hrun, by simp [hhistory], ?_⟩
  refine (files_only_shrink hhub hrun).2.2.2 0 1 (.vfsDelete "ctl/status") (.fsRead "/ctl/status")
    (.erased true) .missing (by simp [hhistory]) (by simp [hhistory]) (by simp [hhistory])
    (by simp [hhistory]) ?_ (by decide) (.inr ⟨rfl, by simp [Request.response]⟩)
  exact ⟨.erased true, (Request.fsRead "/ctl/status").op, by rw [hhistory]; simp⟩

end Xfiles.Fs
