import Mathlib.Data.Set.Insert
import Mathlib.Order.BooleanAlgebra.Set
import Mathlib.Logic.Function.Basic

/-!
# Flat stores with linked directories

A flat store maps keys to nodes.  Some nodes are directories, and a directory
holds the names of its children.  A key is written together with a link: its
name is added to the directory of its slot, when that directory is there.
Removing a key takes the name out again.

* `Layout` says where each key is linked and how a directory's names change.
* `writeAll` puts a list of nodes.  `namesAt_writeAll` is the frame: a
  directory that the list does not write only gains the names that are linked
  into it.
* `Agree` says that each directory holds exactly the names of the keys below
  it.  `agree_removeAll` keeps it, and `agree_writeAll_iff` says exactly when a
  list of writes does.
* `Closed` says that every key has the directory of its slot, up to the roots.
  `closed_writeAll` and `closed_removeAll` are the lists that keep it, and
  `closed_remove_iff` is the exact form for one removal.
-/

namespace LinkedStore

/-- Where each key is linked, and what a link does to a node.  `names` is
`none` for a node that is no directory. -/
structure Layout (K N V : Type*) where
  slot : K → Option (K × N)
  names : V → Option (Set N)
  link : N → V → V
  unlink : N → V → V
  names_link : ∀ n v, names (link n v) = (names v).map (· ∪ {n})
  names_unlink : ∀ n v, names (unlink n v) = (names v).map (· \ {n})
  slot_ne : ∀ k n, slot k ≠ some (k, n)

/-- The nodes by key. -/
abbrev Store (K V : Type*) := K → Option V

variable {K N V : Type*}

namespace Store

/-- The keys that have a node. -/
def keys (f : Store K V) : Set K := {k | (f k).isSome}

theorem mem_keys {f : Store K V} {k : K} : k ∈ f.keys ↔ (f k).isSome := Iff.rfl

@[simp] theorem keys_none : keys (fun _ : K => (none : Option V)) = ∅ :=
  Set.eq_empty_of_forall_notMem fun k => by simp [mem_keys]

end Store

variable (L : Layout K N V)

/-- The names that the directory at `d` holds. -/
def namesAt (f : Store K V) (d : K) : Option (Set N) := (f d).bind L.names

/-- The names of the keys below `d`. -/
def below (keys : Set K) (d : K) : Set N := {n | ∃ k ∈ keys, L.slot k = some (d, n)}

/-- Each directory holds exactly the names of the keys below it. -/
def Agree (f : Store K V) : Prop := ∀ d ns, namesAt L f d = some ns → ns = below L f.keys d

@[simp] theorem below_empty (d : K) : below L ∅ d = ∅ := by simp [below]

theorem below_insert (k : K) (keys : Set K) (d : K) :
    below L (insert k keys) d = below L {k} d ∪ below L keys d := by
  ext n
  simp [below]

theorem below_singleton {k d : K} {n : N} (h : L.slot k = some (d, n)) : below L {k} d = {n} := by
  ext n'
  simp [below, h, eq_comm]

theorem below_singleton_of_ne {k d : K} (h : ∀ n, L.slot k ≠ some (d, n)) :
    below L {k} d = ∅ := by
  ext n
  simp [below, h n]

theorem below_diff {keys : Set K} {k d : K}
    (hslot : ∀ k' n, k' ∈ keys → L.slot k = some (d, n) → L.slot k' = some (d, n) → k' = k) :
    below L (keys \ {k}) d = below L keys d \ below L {k} d := by
  ext n
  simp only [below, Set.mem_ofPred_eq, Set.mem_sdiff, Set.mem_singleton_iff, exists_eq_left]
  constructor
  · rintro ⟨k', ⟨hmem, hne⟩, hk'⟩
    exact ⟨⟨k', hmem, hk'⟩, fun hk => hne (hslot k' n hmem hk hk')⟩
  · rintro ⟨⟨k', hmem, hk'⟩, hk⟩
    refine ⟨k', ⟨hmem, fun heq => hk ?_⟩, hk'⟩
    rw [← heq, hk']

/-- The keys of the directories. -/
def dirs (f : Store K V) : Set K := {d | (namesAt L f d).isSome}

theorem mem_dirs {f : Store K V} {d : K} : d ∈ dirs L f ↔ (namesAt L f d).isSome := Iff.rfl

/-- Every key has the directory of its slot, unless that is one of the roots. -/
def Closed (roots : Set K) (f : Store K V) : Prop :=
  ∀ k ∈ f.keys, ∀ d n, L.slot k = some (d, n) → d ∈ roots ∨ d ∈ dirs L f

/-- No two keys of the store are linked at one place. -/
def OwnSlots (f : Store K V) : Prop :=
  ∀ k k' d n, k ∈ f.keys → k' ∈ f.keys → L.slot k = some (d, n) → L.slot k' = some (d, n) → k' = k

theorem OwnSlots.mono {f g : Store K V} (h : OwnSlots L f) (hsub : g.keys ⊆ f.keys) :
    OwnSlots L g :=
  fun k k' d n hk hk' => h k k' d n (hsub hk) (hsub hk')

/-- The keys that a list of writes puts. -/
def written (ws : List (K × V)) : Set K := {k | k ∈ ws.map Prod.fst}

@[simp] theorem written_nil : written ([] : List (K × V)) = ∅ := by simp [written]

@[simp] theorem written_cons (k : K) (v : V) (ws : List (K × V)) :
    written ((k, v) :: ws) = insert k (written ws) := by
  ext k'
  simp [written]

/-- Each directory among the nodes to write either is written again, or lacks
no name of a key that is already there, and holds no other, up to the names
that later writes link into it. -/
def Leaves (keys : Set K) : List (K × V) → Prop
  | [] => True
  | (k, v) :: rest =>
    (k ∈ written rest ∨ ∀ ns, L.names v = some ns →
      ns ∪ below L (written rest) k = below L keys k ∪ below L (written rest) k) ∧
    Leaves (insert k keys) rest

/-- Agreement of the directories that the list does not write, up to the names
that it links into them. -/
def AgreeApart (ws : List (K × V)) (f : Store K V) : Prop :=
  ∀ d ns, d ∉ written ws → namesAt L f d = some ns →
    ns ∪ below L (written ws) d = below L f.keys d ∪ below L (written ws) d

theorem agree_empty : Agree L fun _ => none := by
  intro d ns hns
  exact absurd hns (by simp [namesAt])

/-- Empty directories leave nothing out when nothing lies below them yet. -/
theorem leaves_of_fresh {keys : Set K} {ws : List (K × V)}
    (hdirs : ∀ w ∈ ws, ∀ ns, L.names w.2 = some ns → ns = ∅)
    (hkeys : ∀ w ∈ ws, below L keys w.1 = ∅)
    (hpair : ws.Pairwise fun w w' => (L.slot w.1).map Prod.fst ≠ some w'.1) :
    Leaves L keys ws := by
  induction ws generalizing keys with
  | nil => trivial
  | cons w rest ih =>
    obtain ⟨hhead, hrest⟩ := List.pairwise_cons.mp hpair
    refine ⟨Or.inr fun ns hns => ?_, ih (fun w' hw' => hdirs w' (List.mem_cons_of_mem _ hw'))
      (fun w' hw' => ?_) hrest⟩
    · rw [hdirs w List.mem_cons_self ns hns, hkeys w List.mem_cons_self]
    · have hslot : ∀ n, L.slot w.1 ≠ some (w'.1, n) := by
        intro n hn
        exact hhead w' hw' (by rw [hn, Option.map_some])
      rw [below_insert, below_singleton_of_ne L hslot, hkeys w' (List.mem_cons_of_mem _ hw'),
        Set.union_empty]

theorem Agree.apart {f : Store K V} (h : Agree L f) (ws : List (K × V)) : AgreeApart L ws f := by
  intro d ns _ hns
  rw [h d ns hns]

section Operations

variable [DecidableEq K]

/-- Change the node of the directory that `k` is linked in. -/
def atSlot (change : N → V → V) (f : Store K V) (k : K) : Store K V :=
  match L.slot k with
  | none => f
  | some (d, n) => Function.update f d ((f d).map (change n))

/-- Put a node and link it. -/
def write (f : Store K V) (k : K) (v : V) : Store K V :=
  atSlot L L.link (Function.update f k (some v)) k

/-- Take a node away and unlink it.  An absent key is left alone. -/
def remove (f : Store K V) (k : K) : Store K V :=
  if (f k).isSome then atSlot L L.unlink (Function.update f k none) k else f

/-- Put a list of nodes, the first one first. -/
def writeAll (f : Store K V) (ws : List (K × V)) : Store K V :=
  ws.foldl (fun f w => write L f w.1 w.2) f

/-! ## One change at a slot -/

theorem atSlot_eq_self {change : N → V → V} (f : Store K V) {k : K} (h : L.slot k = none) :
    atSlot L change f k = f := by
  rw [atSlot, h]

theorem atSlot_eq_update {change : N → V → V} (f : Store K V) {k d : K} {n : N}
    (h : L.slot k = some (d, n)) :
    atSlot L change f k = Function.update f d ((f d).map (change n)) := by
  rw [atSlot, h]

theorem atSlot_of_slot {change : N → V → V} (f : Store K V) {k d : K} {n : N}
    (h : L.slot k = some (d, n)) : atSlot L change f k d = (f d).map (change n) := by
  rw [atSlot_eq_update L f h, Function.update_self]

theorem atSlot_of_ne {change : N → V → V} (f : Store K V) {k d : K}
    (h : ∀ n, L.slot k ≠ some (d, n)) : atSlot L change f k d = f d := by
  cases hslot : L.slot k with
  | none => rw [atSlot_eq_self L f hslot]
  | some place =>
    have hne : d ≠ place.1 := fun heq => h place.2 (by rw [hslot, heq])
    rw [atSlot_eq_update L f hslot, Function.update_of_ne hne]

theorem isSome_atSlot {change : N → V → V} (f : Store K V) (k d : K) :
    (atSlot L change f k d).isSome = (f d).isSome := by
  by_cases h : ∃ n, L.slot k = some (d, n)
  · obtain ⟨n, h⟩ := h
    rw [atSlot_of_slot L f h, Option.isSome_map]
  · rw [atSlot_of_ne L f fun n hn => h ⟨n, hn⟩]

/-- A change at a slot reaches the names of a directory through the name of
the key alone. -/
theorem namesAt_atSlot {change : N → V → V} {g : Set N → Set N → Set N}
    (hchange : ∀ n v, L.names (change n v) = (L.names v).map (g · {n})) (hid : ∀ ns, g ns ∅ = ns)
    (f : Store K V) (k d : K) :
    namesAt L (atSlot L change f k) d = (namesAt L f d).map (g · (below L {k} d)) := by
  rw [namesAt, namesAt]
  by_cases h : ∃ n, L.slot k = some (d, n)
  · obtain ⟨n, h⟩ := h
    rw [atSlot_of_slot L f h, below_singleton L h]
    cases f d with
    | none => rfl
    | some w => exact hchange n w
  · have h : ∀ n, L.slot k ≠ some (d, n) := fun n hn => h ⟨n, hn⟩
    rw [atSlot_of_ne L f h, below_singleton_of_ne L h]
    simp [hid]

/-! ## Writes -/

theorem write_self (f : Store K V) (k : K) (v : V) : write L f k v k = some v := by
  rw [write, atSlot_of_ne L _ (L.slot_ne k), Function.update_self]

theorem write_of_slot (f : Store K V) {k d : K} {n : N} (v : V) (h : L.slot k = some (d, n)) :
    write L f k v d = (f d).map (L.link n) := by
  have hne : d ≠ k := fun heq => L.slot_ne k n (by rw [h, heq])
  rw [write, atSlot_of_slot L _ h, Function.update_of_ne hne]

theorem write_of_ne (f : Store K V) {k d : K} (v : V) (hne : d ≠ k)
    (h : ∀ n, L.slot k ≠ some (d, n)) : write L f k v d = f d := by
  rw [write, atSlot_of_ne L _ h, Function.update_of_ne hne]

theorem keys_write (f : Store K V) (k : K) (v : V) : (write L f k v).keys = insert k f.keys := by
  ext d
  show (write L f k v d).isSome = true ↔ _
  rw [write, isSome_atSlot, Set.mem_insert_iff, Store.mem_keys]
  by_cases hd : d = k
  · simp [hd]
  · simp [hd]

theorem namesAt_write_self (f : Store K V) (k : K) (v : V) :
    namesAt L (write L f k v) k = L.names v := by
  rw [namesAt, write_self, Option.bind_some]

/-- A write adds at most the name of its key to another directory. -/
theorem namesAt_write_of_ne (f : Store K V) {k d : K} (v : V) (hne : d ≠ k) :
    namesAt L (write L f k v) d = (namesAt L f d).map (· ∪ below L {k} d) := by
  rw [write, namesAt_atSlot L L.names_link Set.union_empty, namesAt, Function.update_of_ne hne]
  rfl

/-! ## Lists of writes -/

theorem writeAll_cons (f : Store K V) (k : K) (v : V) (ws : List (K × V)) :
    writeAll L f ((k, v) :: ws) = writeAll L (write L f k v) ws := rfl

theorem keys_writeAll (f : Store K V) (ws : List (K × V)) :
    (writeAll L f ws).keys = f.keys ∪ written ws := by
  induction ws generalizing f with
  | nil => simp [writeAll]
  | cons w ws ih =>
    rw [writeAll_cons, ih, keys_write, written_cons, Set.insert_union, Set.union_insert]

/-- A directory that the list does not write only gains the names of the keys
that are written below it. -/
theorem namesAt_writeAll (f : Store K V) {ws : List (K × V)} {d : K} (h : d ∉ written ws) :
    namesAt L (writeAll L f ws) d = (namesAt L f d).map (· ∪ below L (written ws) d) := by
  induction ws generalizing f with
  | nil => simp [writeAll]
  | cons w ws ih =>
    rw [written_cons, Set.mem_insert_iff, not_or] at h
    rw [writeAll_cons, ih _ h.2, namesAt_write_of_ne L f _ h.1, written_cons,
      below_insert L w.1 (written ws) d, Option.map_map]
    exact congrArg (Option.map · _) (funext fun ns => Set.union_assoc _ _ _)

/-! ## Agreement -/

/-- One write moves the agreement from the longer list to the shorter one, when
the node that it puts agrees. -/
theorem agreeApart_write_iff (f : Store K V) (k : K) (v : V) (ws : List (K × V)) :
    AgreeApart L ws (write L f k v) ↔
      AgreeApart L ((k, v) :: ws) f ∧ (k ∈ written ws ∨ ∀ ns, L.names v = some ns →
        ns ∪ below L (written ws) k = below L f.keys k ∪ below L (written ws) k) := by
  have hself : below L {k} k = ∅ := below_singleton_of_ne L (L.slot_ne k)
  -- the two agreements at a directory other than `k` are the same equation
  have hother : ∀ d ns, (ns ∪ below L {k} d) ∪ below L (written ws) d =
      below L (write L f k v).keys d ∪ below L (written ws) d ↔
      ns ∪ below L (written ((k, v) :: ws)) d =
        below L f.keys d ∪ below L (written ((k, v) :: ws)) d := by
    intro d ns
    rw [keys_write, below_insert, written_cons, below_insert L k (written ws) d,
      Set.union_assoc, Set.union_comm (below L {k} d) (below L f.keys d), Set.union_assoc]
  constructor
  · intro h
    constructor
    · intro d ns hd hns
      rw [written_cons, Set.mem_insert_iff, not_or] at hd
      rw [← hother]
      refine h d _ hd.2 ?_
      rw [namesAt_write_of_ne L f v hd.1, hns, Option.map_some]
    · by_cases hk : k ∈ written ws
      · exact Or.inl hk
      · refine Or.inr fun ns hns => ?_
        have hkey := h k ns hk (by rw [namesAt_write_self, hns])
        rwa [keys_write, below_insert, hself, Set.empty_union] at hkey
  · rintro ⟨happart, hnode⟩ d ns hd hns
    by_cases hdk : d = k
    · subst hdk
      rw [namesAt_write_self] at hns
      rcases hnode with hmem | hnode
      · exact absurd hmem hd
      · rw [keys_write, below_insert, hself, Set.empty_union]
        exact hnode ns hns
    · rw [namesAt_write_of_ne L f v hdk, Option.map_eq_some_iff] at hns
      obtain ⟨ns', hns', heq⟩ := hns
      rw [← heq, hother]
      refine happart d ns' ?_ hns'
      rw [written_cons, Set.mem_insert_iff, not_or]
      exact ⟨hdk, hd⟩

theorem agree_writeAll_apart (f : Store K V) (ws : List (K × V)) :
    Agree L (writeAll L f ws) ↔ AgreeApart L ws f ∧ Leaves L f.keys ws := by
  induction ws generalizing f with
  | nil => simp [writeAll, AgreeApart, Agree, Leaves]
  | cons w ws ih =>
    obtain ⟨k, v⟩ := w
    rw [writeAll_cons, ih, agreeApart_write_iff, keys_write, Leaves, and_assoc]

/-- From a store that agrees, a list of writes ends in one that agrees exactly
when its directories leave no name out. -/
theorem agree_writeAll_iff {f : Store K V} (h : Agree L f) (ws : List (K × V)) :
    Agree L (writeAll L f ws) ↔ Leaves L f.keys ws := by
  rw [agree_writeAll_apart, and_iff_right (h.apart L ws)]

/-! ## Removal -/

theorem remove_of_none {f : Store K V} {k : K} (h : f k = none) : remove L f k = f := by
  rw [remove, if_neg (by simp [h])]

theorem keys_remove (f : Store K V) (k : K) : (remove L f k).keys = f.keys \ {k} := by
  ext d
  rw [Set.mem_sdiff, Store.mem_keys, Store.mem_keys, Set.mem_singleton_iff, remove]
  split_ifs with hk
  · rw [isSome_atSlot]
    by_cases hd : d = k
    · simp [hd]
    · simp [hd]
  · by_cases hd : d = k
    · simp [hd, hk]
    · simp [hd]

/-- Removing a key keeps the agreement when the keys of the store have slots of
their own. -/
theorem agree_remove {f : Store K V} (h : Agree L f) (hslot : OwnSlots L f) (k : K) :
    Agree L (remove L f k) := by
  by_cases hk : (f k).isSome
  · intro d ns hns
    rw [keys_remove, below_diff L fun k' n hk' => hslot k k' d n hk hk']
    rw [remove, if_pos hk, namesAt_atSlot L L.names_unlink (fun ns => Set.sdiff_empty)] at hns
    obtain ⟨ns', hns', heq⟩ := Option.map_eq_some_iff.mp hns
    have hne : d ≠ k := by
      intro hd
      rw [namesAt, hd, Function.update_self] at hns'
      exact absurd hns' (by simp)
    rw [namesAt, Function.update_of_ne hne] at hns'
    rw [← heq, h d ns' hns']
  · rwa [remove_of_none L (by simpa using hk)]

/-- Take a list of keys away, the first one first. -/
def removeAll (f : Store K V) (ks : List K) : Store K V := ks.foldl (remove L) f

@[simp] theorem removeAll_nil (f : Store K V) : removeAll L f [] = f := rfl

theorem keys_removeAll_subset (f : Store K V) (ks : List K) :
    (removeAll L f ks).keys ⊆ f.keys := by
  induction ks generalizing f with
  | nil => exact fun _ hk => hk
  | cons k ks ih =>
    intro k' hk'
    have hmem := ih (remove L f k) hk'
    rw [keys_remove] at hmem
    exact hmem.1

theorem keys_removeAll (f : Store K V) (ks : List K) :
    (removeAll L f ks).keys = f.keys \ {k | k ∈ ks} := by
  induction ks generalizing f with
  | nil =>
    ext k
    simp
  | cons k ks ih =>
    show (removeAll L (remove L f k) ks).keys = _
    rw [ih, keys_remove]
    ext k'
    simp only [Set.mem_sdiff, Set.mem_ofPred_eq, Set.mem_singleton_iff, List.mem_cons, not_or,
      and_assoc]

/-- A key that is not removed, and in which no removed key is linked, keeps its
node. -/
theorem removeAll_of_ne (f : Store K V) {ks : List K} {d : K} (hd : d ∉ ks)
    (h : ∀ k ∈ ks, ∀ n, L.slot k ≠ some (d, n)) : removeAll L f ks d = f d := by
  induction ks generalizing f with
  | nil => rfl
  | cons k ks ih =>
    rw [List.mem_cons, not_or] at hd
    show removeAll L (remove L f k) ks d = f d
    rw [ih _ hd.2 fun k' hk' => h k' (List.mem_cons_of_mem _ hk'), remove]
    split_ifs
    · rw [atSlot_of_ne L _ (h k List.mem_cons_self), Function.update_of_ne hd.1]
    · rfl

theorem agree_removeAll {f : Store K V} (h : Agree L f) (hslot : OwnSlots L f) (ks : List K) :
    Agree L (removeAll L f ks) := by
  induction ks generalizing f with
  | nil => exact h
  | cons k ks ih =>
    refine ih (agree_remove L h hslot k) (hslot.mono L ?_)
    rw [keys_remove]
    exact Set.sdiff_subset

/-! ## Closure -/

/-- A write leaves every other directory a directory. -/
theorem dirs_write_of_ne (f : Store K V) {k d : K} (v : V) (hne : d ≠ k) :
    d ∈ dirs L (write L f k v) ↔ d ∈ dirs L f := by
  rw [mem_dirs, namesAt_write_of_ne L f v hne, Option.isSome_map, mem_dirs]

theorem dirs_write_self (f : Store K V) (k : K) (v : V) :
    k ∈ dirs L (write L f k v) ↔ (L.names v).isSome := by
  rw [mem_dirs, namesAt_write_self]

/-- A directory stays one when each write to it puts a directory. -/
theorem dirs_writeAll_of_dirs {f : Store K V} {ws : List (K × V)} {d : K}
    (hws : ∀ w ∈ ws, w.1 = d → (L.names w.2).isSome) (hd : d ∈ dirs L f) :
    d ∈ dirs L (writeAll L f ws) := by
  induction ws generalizing f with
  | nil => exact hd
  | cons w ws ih =>
    rw [writeAll_cons]
    refine ih (fun w' hw' => hws w' (List.mem_cons_of_mem _ hw')) ?_
    by_cases hdw : d = w.1
    · rw [hdw, dirs_write_self]
      exact hws w List.mem_cons_self hdw.symm
    · rwa [dirs_write_of_ne L f w.2 hdw]

/-- A key that is written is a directory when each write to it puts one. -/
theorem dirs_writeAll_of_written {f : Store K V} {ws : List (K × V)} {d : K}
    (hws : ∀ w ∈ ws, w.1 = d → (L.names w.2).isSome) (hd : d ∈ written ws) :
    d ∈ dirs L (writeAll L f ws) := by
  induction ws generalizing f with
  | nil => exact absurd hd (by simp)
  | cons w ws ih =>
    have hrest : ∀ w' ∈ ws, w'.1 = d → (L.names w'.2).isSome :=
      fun w' hw' => hws w' (List.mem_cons_of_mem _ hw')
    rw [writeAll_cons]
    rw [written_cons, Set.mem_insert_iff] at hd
    rcases hd with hd | hd
    · refine dirs_writeAll_of_dirs L hrest ?_
      rw [hd, dirs_write_self]
      exact hws w List.mem_cons_self hd.symm
    · exact ih hrest hd

theorem dirs_writeAll_of_notMem (f : Store K V) {ws : List (K × V)} {d : K} (h : d ∉ written ws) :
    d ∈ dirs L (writeAll L f ws) ↔ d ∈ dirs L f := by
  rw [mem_dirs, namesAt_writeAll L f h, Option.isSome_map, mem_dirs]

/-- Writes keep the closure when they put a directory wherever a key lies
below, and have their own directories. -/
theorem closed_writeAll {roots : Set K} {f : Store K V} {ws : List (K × V)}
    (hf : Closed L roots f)
    (hdirs : ∀ w ∈ ws, (∃ k ∈ f.keys ∪ written ws, ∃ n, L.slot k = some (w.1, n)) →
      (L.names w.2).isSome)
    (hslots : ∀ k ∈ written ws, ∀ d n, L.slot k = some (d, n) →
      d ∈ roots ∨ d ∈ dirs L f ∨ d ∈ written ws) :
    Closed L roots (writeAll L f ws) := by
  intro k hk d n hslot
  rw [keys_writeAll] at hk
  have hput : ∀ w ∈ ws, w.1 = d → (L.names w.2).isSome :=
    fun w hw heq => hdirs w hw ⟨k, hk, n, by rw [heq, hslot]⟩
  have hd : d ∈ roots ∨ d ∈ dirs L f ∨ d ∈ written ws := by
    rcases hk with hk | hk
    · exact (hf k hk d n hslot).imp_right Or.inl
    · exact hslots k hk d n hslot
  rcases hd with hd | hd | hd
  · exact Or.inl hd
  · exact Or.inr (dirs_writeAll_of_dirs L hput hd)
  · exact Or.inr (dirs_writeAll_of_written L hput hd)

theorem dirs_remove (f : Store K V) (k : K) : dirs L (remove L f k) = dirs L f \ {k} := by
  ext d
  rw [Set.mem_sdiff, Set.mem_singleton_iff, mem_dirs, mem_dirs, remove]
  split_ifs with hk
  · rw [namesAt_atSlot L L.names_unlink fun ns => Set.sdiff_empty, Option.isSome_map, namesAt,
      namesAt]
    by_cases hd : d = k
    · simp [hd]
    · simp [hd]
  · have hnone : f k = none := by simpa using hk
    by_cases hd : d = k
    · simp [hd, namesAt, hnone]
    · simp [hd]

theorem dirs_removeAll (f : Store K V) (ks : List K) :
    dirs L (removeAll L f ks) = dirs L f \ {k | k ∈ ks} := by
  induction ks generalizing f with
  | nil =>
    ext d
    simp
  | cons k ks ih =>
    show dirs L (removeAll L (remove L f k) ks) = _
    rw [ih, dirs_remove]
    ext d
    simp only [Set.mem_sdiff, Set.mem_ofPred_eq, Set.mem_singleton_iff, List.mem_cons, not_or,
      and_assoc]

/-- Removals keep the closure when no key that stays lies below a removed
one. -/
theorem closed_removeAll {roots : Set K} {f : Store K V} (hf : Closed L roots f) {ks : List K}
    (h : ∀ k ∈ f.keys, k ∉ ks → ∀ d n, L.slot k = some (d, n) → d ∉ ks) :
    Closed L roots (removeAll L f ks) := by
  intro k hk d n hslot
  rw [keys_removeAll] at hk
  rw [dirs_removeAll]
  exact (hf k hk.1 d n hslot).imp_right fun hd => ⟨hd, h k hk.1 hk.2 d n hslot⟩

/-- Removing a key keeps the closure exactly when no key lies below it. -/
theorem closed_remove_iff {roots : Set K} {f : Store K V} (hf : Closed L roots f) {k : K}
    (hroot : k ∉ roots) :
    Closed L roots (remove L f k) ↔ ∀ k' ∈ f.keys, ∀ n, L.slot k' ≠ some (k, n) := by
  constructor
  · intro h k' hk' n hslot
    have hne : k' ≠ k := fun heq => L.slot_ne k n (heq ▸ hslot)
    have hmem : k' ∈ (remove L f k).keys := by
      rw [keys_remove]
      exact ⟨hk', hne⟩
    rcases h k' hmem k n hslot with hbad | hbad
    · exact hroot hbad
    · rw [dirs_remove] at hbad
      exact hbad.2 rfl
  · intro h
    show Closed L roots (removeAll L f [k])
    refine closed_removeAll L hf fun k' hk' _ d n hslot hd => ?_
    rw [List.mem_singleton.mp hd] at hslot
    exact h k' hk' n hslot

end Operations

end LinkedStore
