import Mathlib.Data.List.AList
import Mathlib.Logic.Function.Basic
import Xfiles.Lib.Transition

/-!
# Several sources that fill one map

Each source scans from time to time.  A scan inserts what it found under the
keys that are free, and then removes the entries that the source owns and has not
found.  What a source owns is read from the entry.

* `lookup_scan` says what a scan leaves under a key.
* `Shared` are the entries of a map that was there before, and the conditions on
  what the sources make: no source makes an entry under a key of another one or
  of the map, and a source owns of the made entries its own ones.
* `Shared.Accounted` holds throughout a run.  The map then has the keys of what
  was found last (`Shared.mem_iff`).
* The entries that were there stay exactly when no source that scans owns one of
  them (`Shared.always_keysExact_iff`).  An entry shows what was found last exactly
  when, besides, what a source finds again under a key looks the same
  (`Shared.always_exact_iff`).
-/

namespace Sweep

open Function Transition

variable {K E V ι : Type*} [DecidableEq K]

/-- A map under the keys of its entries. -/
abbrev EntryMap (K E : Type*) := AList fun _ : K => E

/-! ## One scan -/

/-- Insert what was found, where the key is free. -/
def insertAll (key : E → K) (found : List E) (m : EntryMap K E) : EntryMap K E :=
  found.foldl (fun m e => if key e ∈ m then m else m.insert (key e) e) m

/-- The keys of the owned entries that are not to be kept. -/
def stale (owned : E → Bool) (keep : List K) (m : EntryMap K E) : List K :=
  (m.entries.filter fun entry => owned entry.2 && entry.1 ∉ keep).map Sigma.fst

def sweep (owned : E → Bool) (keep : List K) (m : EntryMap K E) : EntryMap K E :=
  (stale owned keep m).foldl (fun m k => m.erase k) m

def scan (owned : E → Bool) (key : E → K) (found : List E) (m : EntryMap K E) : EntryMap K E :=
  sweep owned (found.map key) (insertAll key found m)

theorem lookup_insertAll (key : E → K) (found : List E) (m : EntryMap K E) (k : K) :
    (insertAll key found m).lookup k = (m.lookup k).or (found.find? fun e => key e = k) := by
  induction found generalizing m with
  | nil => exact Option.or_none.symm
  | cons e rest ih =>
    show (insertAll key rest (if key e ∈ m then m else m.insert (key e) e)).lookup k = _
    rw [ih]
    by_cases hkey : key e = k
    · subst hkey
      have hfirst : (e :: rest).find? (fun e' => decide (key e' = key e)) = some e :=
        List.find?_cons_of_pos (by simp)
      rw [hfirst]
      by_cases hmem : key e ∈ m
      · obtain ⟨old, hold⟩ := Option.isSome_iff_exists.mp (AList.lookup_isSome.mpr hmem)
        rw [if_pos hmem, hold, Option.some_or, Option.some_or]
      · rw [if_neg hmem, AList.lookup_insert, AList.lookup_eq_none.mpr hmem, Option.some_or,
          Option.none_or]
    · rw [List.find?_cons_of_neg (by simpa using hkey)]
      by_cases hmem : key e ∈ m
      · rw [if_pos hmem]
      · rw [if_neg hmem, AList.lookup_insert_ne (Ne.symm hkey)]

theorem lookup_foldl_erase (ks : List K) (m : EntryMap K E) (k : K) :
    (ks.foldl (fun m k => m.erase k) m).lookup k = if k ∈ ks then none else m.lookup k := by
  induction ks generalizing m with
  | nil => rfl
  | cons head rest ih =>
    rw [List.foldl_cons, ih]
    by_cases hrest : k ∈ rest
    · rw [if_pos hrest, if_pos (List.mem_cons_of_mem _ hrest)]
    · rw [if_neg hrest]
      by_cases hhead : k = head
      · rw [hhead, AList.lookup_erase, if_pos List.mem_cons_self]
      · rw [AList.lookup_erase_ne hhead, if_neg (List.not_mem_cons_of_ne_of_not_mem hhead hrest)]

theorem mem_stale {owned : E → Bool} {keep : List K} {m : EntryMap K E} {k : K} :
    k ∈ stale owned keep m ↔ ∃ e, m.lookup k = some e ∧ owned e = true ∧ k ∉ keep := by
  rw [stale, List.mem_map]
  constructor
  · rintro ⟨⟨k, e⟩, hentry, rfl⟩
    rw [List.mem_filter, Bool.and_eq_true, decide_eq_true_iff] at hentry
    exact ⟨e, AList.mem_lookup_iff.mpr hentry.1, hentry.2⟩
  · rintro ⟨e, hlookup, howned, hkeep⟩
    refine ⟨⟨k, e⟩, ?_, rfl⟩
    rw [List.mem_filter, Bool.and_eq_true, decide_eq_true_iff]
    exact ⟨AList.mem_lookup_iff.mp hlookup, howned, hkeep⟩

theorem lookup_sweep {owned : E → Bool} {keep : List K} {m : EntryMap K E} {k : K} {e : E} :
    (sweep owned keep m).lookup k = some e ↔
      m.lookup k = some e ∧ (owned e = false ∨ k ∈ keep) := by
  rw [sweep, lookup_foldl_erase]
  constructor
  · intro h
    split at h
    · exact absurd h.symm (Option.some_ne_none e)
    · rename_i hstale
      refine ⟨h, ?_⟩
      by_contra hnot
      rw [not_or, Bool.not_eq_false] at hnot
      exact hstale (mem_stale.mpr ⟨e, h, hnot⟩)
  · rintro ⟨hlookup, hkept⟩
    rw [if_neg, hlookup]
    intro hstale
    obtain ⟨e', hlookup', howned, hkeep⟩ := mem_stale.mp hstale
    obtain rfl : e = e' := Option.some.inj (hlookup.symm.trans hlookup')
    rcases hkept with hfree | hmem
    · rw [howned] at hfree
      exact Bool.noConfusion hfree
    · exact hkeep hmem

/-- What a scan leaves under a key. -/
theorem lookup_scan {owned : E → Bool} {key : E → K} {found : List E} {m : EntryMap K E} {k : K}
    {e : E} :
    (scan owned key found m).lookup k = some e ↔
      (m.lookup k = some e ∧ (owned e = false ∨ k ∈ found.map key)) ∨
        (m.lookup k = none ∧ found.find? (fun e => key e = k) = some e) := by
  rw [scan, lookup_sweep, lookup_insertAll]
  cases hlookup : m.lookup k with
  | some old =>
    rw [Option.some_or]
    simp
  | none =>
    rw [Option.none_or]
    simp only [reduceCtorEq, false_and, false_or, true_and]
    refine and_iff_left_of_imp fun hfind => Or.inr ?_
    have hkey : key e = k := by simpa using List.find?_some hfind
    exact hkey ▸ List.mem_map_of_mem (List.mem_of_find?_eq_some hfind)

/-- Under a key that was found stands the entry that was there, or one that was
found. -/
theorem lookup_scan_of_mem (owned : E → Bool) {key : E → K} {found : List E} (m : EntryMap K E)
    {f : E} (hf : f ∈ found) :
    ∃ e, (scan owned key found m).lookup (key f) = some e ∧
      (m.lookup (key f) = some e ∨ m.lookup (key f) = none ∧ e ∈ found ∧ key e = key f) := by
  cases hlookup : m.lookup (key f) with
  | some e =>
    exact ⟨e, lookup_scan.mpr (Or.inl ⟨hlookup, Or.inr (List.mem_map_of_mem hf)⟩), Or.inl rfl⟩
  | none =>
    have hsome : (found.find? fun e => key e = key f).isSome = true :=
      List.find?_isSome.mpr ⟨f, hf, by simp⟩
    obtain ⟨e, hfind⟩ := Option.isSome_iff_exists.mp hsome
    have hkey : key e = key f := by simpa using List.find?_some hfind
    exact ⟨e, lookup_scan.mpr (Or.inr ⟨hlookup, hfind⟩),
      Or.inr ⟨rfl, List.mem_of_find?_eq_some hfind, hkey⟩⟩

/-- Insert entries that were there before any scan. -/
def fill (key : E → K) (base : List E) (m : EntryMap K E) : EntryMap K E :=
  base.foldl (fun m e => m.insert (key e) e) m

theorem lookup_fill {key : E → K} {base : List E} (hbase : (base.map key).Nodup)
    {m : EntryMap K E} {k : K} {e : E} :
    (fill key base m).lookup k = some e ↔
      (e ∈ base ∧ key e = k) ∨ (k ∉ base.map key ∧ m.lookup k = some e) := by
  induction base generalizing m with
  | nil => simp [fill]
  | cons b rest ih =>
    rw [List.map_cons, List.nodup_cons] at hbase
    show (fill key rest (m.insert (key b) b)).lookup k = some e ↔ _
    rw [ih hbase.2, List.map_cons, List.mem_cons, List.mem_cons, not_or]
    by_cases hk : k = key b
    · subst hk
      rw [AList.lookup_insert]
      constructor
      · rintro (⟨hmem, hkey⟩ | ⟨-, heq⟩)
        · exact Or.inl ⟨Or.inr hmem, hkey⟩
        · obtain rfl := Option.some.inj heq
          exact Or.inl ⟨Or.inl rfl, rfl⟩
      · rintro (⟨rfl | hmem, hkey⟩ | ⟨⟨hne, -⟩, -⟩)
        · exact Or.inr ⟨hbase.1, rfl⟩
        · exact Or.inl ⟨hmem, hkey⟩
        · exact absurd rfl hne
    · rw [AList.lookup_insert_ne hk]
      constructor
      · rintro (⟨hmem, hkey⟩ | ⟨hnot, hlookup⟩)
        · exact Or.inl ⟨Or.inr hmem, hkey⟩
        · exact Or.inr ⟨⟨hk, hnot⟩, hlookup⟩
      · rintro (⟨rfl | hmem, hkey⟩ | ⟨⟨-, hnot⟩, hlookup⟩)
        · exact absurd hkey.symm hk
        · exact Or.inl ⟨hmem, hkey⟩
        · exact Or.inr ⟨hnot, hlookup⟩

/-- What the filling shows, whether or not the keys differ. -/
theorem mem_of_lookup_fill {key : E → K} {base : List E} {m : EntryMap K E} {k : K} {e : E}
    (h : (fill key base m).lookup k = some e) : (e ∈ base ∧ key e = k) ∨ m.lookup k = some e := by
  induction base generalizing m with
  | nil => exact Or.inr h
  | cons b rest ih =>
    have hrest : (fill key rest (m.insert (key b) b)).lookup k = some e := h
    rcases ih hrest with ⟨hmem, hkey⟩ | hinsert
    · exact Or.inl ⟨List.mem_cons_of_mem _ hmem, hkey⟩
    · by_cases hk : k = key b
      · subst hk
        rw [AList.lookup_insert] at hinsert
        obtain rfl := Option.some.inj hinsert
        exact Or.inl ⟨List.mem_cons_self, rfl⟩
      · rw [AList.lookup_insert_ne hk] at hinsert
        exact Or.inr hinsert

/-! ## Several sources -/

/-- The map, and what each source found last. -/
structure State (K E ι : Type*) where
  map : EntryMap K E
  found : ι → List E

/-- The state before any scan. -/
def start (key : E → K) (base : List E) : State K E ι where
  map := fill key base ∅
  found := fun _ => []

section Sources

variable [DecidableEq ι]

/-- A scan of one source. -/
def step (owned : ι → E → Bool) (key : E → K) (s : State K E ι) (a : ι × List E) :
    Option (State K E ι) :=
  some { map := scan (owned a.1) key a.2 s.map, found := update s.found a.1 a.2 }

/-- What the entries that were there, `base`, and the entries that the sources
make have to do with each other. -/
structure Shared (owned : ι → E → Bool) (key : E → K) (base : List E) (made : ι → E → Prop) :
    Prop where
  key_ne : ∀ i j e e', i ≠ j → made i e → made j e' → key e ≠ key e'
  owned_iff : ∀ i j e, made i e → (owned j e = true ↔ j = i)
  fresh : ∀ i e, made i e → key e ∉ base.map key

/-- Every entry was there or was found last by the source that made it, and
what was found last is there. -/
structure Accounted (key : E → K) (base : List E) (made : ι → E → Prop) (s : State K E ι) :
    Prop where
  key_eq : ∀ k e, s.map.lookup k = some e → key e = k
  entry : ∀ k e, s.map.lookup k = some e →
    e ∈ base ∨ ∃ i, made i e ∧ k ∈ (s.found i).map key
  made_of_mem : ∀ i, ∀ f ∈ s.found i, made i f
  mem_map : ∀ i, ∀ f ∈ s.found i, ∃ e, s.map.lookup (key f) = some e

/-- The entries that were there are still there. -/
def Kept (key : E → K) (base : List E) (s : State K E ι) : Prop :=
  ∀ b ∈ base, s.map.lookup (key b) = some b

/-- What was found last is what the map shows. -/
def Current (key : E → K) (view : E → V) (s : State K E ι) : Prop :=
  ∀ i, ∀ f ∈ s.found i, ∃ e, s.map.lookup (key f) = some e ∧ view e = view f

/-- What a source finds looks like what it finds, and found, under the same key. -/
def Steady (key : E → K) (view : E → V) (s : State K E ι) (a : ι × List E) : Prop :=
  ∀ f ∈ a.2, ∀ g ∈ a.2 ++ s.found a.1, key f = key g → view f = view g

/-- The map has the entries that were there, and the keys of what was found
last. -/
structure KeysExact (key : E → K) (base : List E) (s : State K E ι) : Prop where
  kept : Kept key base s
  mem_iff : ∀ k, k ∉ base.map key → (k ∈ s.map ↔ ∃ i, k ∈ (s.found i).map key)

/-- Besides, it shows what was found last. -/
structure Exact (key : E → K) (view : E → V) (base : List E) (s : State K E ι) : Prop
    extends KeysExact key base s where
  current : Current key view s

variable {owned : ι → E → Bool} {key : E → K} {view : E → V} {base : List E}
  {made : ι → E → Prop} {s t : State K E ι} {a : ι × List E}

omit [DecidableEq ι] in
/-- Exact maps are told apart by what was found alone, and not by the order of the scans. -/
theorem Exact.lookup_eq (hexact : Exact key view base s) (hexact' : Exact key view base t)
    (hfound : ∀ i, s.found i = t.found i) (k : K) :
    (s.map.lookup k).map view = (t.map.lookup k).map view := by
  by_cases hbase : k ∈ base.map key
  · obtain ⟨b, hb, rfl⟩ := List.mem_map.mp hbase
    rw [hexact.kept b hb, hexact'.kept b hb]
  · have hmem := hexact.mem_iff k hbase
    have hmem' := hexact'.mem_iff k hbase
    simp only [hfound] at hmem
    by_cases hk : ∃ i, k ∈ (t.found i).map key
    · obtain ⟨i, hi⟩ := hk
      obtain ⟨f, hf, rfl⟩ := List.mem_map.mp hi
      obtain ⟨e, he, hview⟩ := hexact.current i f (hfound i ▸ hf)
      obtain ⟨e', he', hview'⟩ := hexact'.current i f hf
      rw [he, he', Option.map_some, Option.map_some, hview, hview']
    · rw [AList.lookup_eq_none.mpr (mt hmem.mp hk), AList.lookup_eq_none.mpr (mt hmem'.mp hk)]

omit [DecidableEq ι] in
/-- Beside the keys that were there, the map has those of what was found last. -/
theorem Accounted.mem_iff (hacc : Accounted key base made s) {k : K} (hk : k ∉ base.map key) :
    k ∈ s.map ↔ ∃ i, k ∈ (s.found i).map key := by
  constructor
  · intro hmem
    obtain ⟨e, he⟩ := Option.isSome_iff_exists.mp (AList.lookup_isSome.mpr hmem)
    rcases hacc.entry k e he with hbase | ⟨i, -, hfound⟩
    · exact absurd (hacc.key_eq k e he ▸ List.mem_map_of_mem hbase) hk
    · exact ⟨i, hfound⟩
  · rintro ⟨i, hfound⟩
    obtain ⟨f, hf, rfl⟩ := List.mem_map.mp hfound
    obtain ⟨e, he⟩ := hacc.mem_map i f hf
    exact AList.lookup_isSome.mp (Option.isSome_iff_exists.mpr ⟨e, he⟩)

theorem map_eq (h : step owned key s a = some t) : t.map = scan (owned a.1) key a.2 s.map := by
  rw [← Option.some.inj h]

theorem found_self (h : step owned key s a = some t) : t.found a.1 = a.2 := by
  rw [← Option.some.inj h]
  exact update_self _ _ _

theorem found_of_ne (h : step owned key s a = some t) {i : ι} (hne : i ≠ a.1) :
    t.found i = s.found i := by
  rw [← Option.some.inj h]
  exact update_of_ne hne _ _

theorem exists_run (owned : ι → E → Bool) (key : E → K) (s : State K E ι)
    (scans : List (ι × List E)) : ∃ u, run (step owned key) s scans = some u := by
  induction scans generalizing s with
  | nil => exact ⟨s, rfl⟩
  | cons a rest ih => exact ih _

/-- A condition on the scans alone. -/
theorem guarded_iff (owned : ι → E → Bool) (key : E → K) (s : State K E ι)
    {scans : List (ι × List E)} {ok : ι × List E → Prop} :
    Guarded (step owned key) (fun _ a => ok a) s scans ↔ ∀ a ∈ scans, ok a := by
  induction scans generalizing s with
  | nil => exact iff_of_true trivial fun a ha => absurd ha List.not_mem_nil
  | cons a rest ih => rw [List.forall_mem_cons, guarded_cons rfl, ih]

theorem kept_step (hkept : Kept key base s) (hfree : ∀ b ∈ base, owned a.1 b = false)
    (hstep : step owned key s a = some t) : Kept key base t := by
  intro b hb
  rw [map_eq hstep]
  exact lookup_scan.mpr (Or.inl ⟨hkept b hb, Or.inl (hfree b hb)⟩)

/-- The map shows one entry under a key, and an old one stays. -/
theorem not_current_step (hcurrent : Current key view s) (hsteady : ¬Steady key view s a)
    (hstep : step owned key s a = some t) : ¬Current key view t := by
  intro hcurrent'
  apply hsteady
  intro f hf g hg hkey
  obtain ⟨e, he, hview⟩ := hcurrent' a.1 f (by rwa [found_self hstep])
  rcases List.mem_append.mp hg with hnew | hold
  · obtain ⟨e', he', hview'⟩ := hcurrent' a.1 g (by rwa [found_self hstep])
    rw [← hkey, he] at he'
    rw [← hview, ← hview', Option.some.inj he']
  · obtain ⟨e', he', hview'⟩ := hcurrent a.1 g hold
    have hstay : t.map.lookup (key f) = some e' := by
      rw [map_eq hstep]
      exact lookup_scan.mpr (Or.inl ⟨hkey ▸ he', Or.inr (List.mem_map_of_mem hf)⟩)
    rw [he] at hstay
    rw [← hview, ← hview', Option.some.inj hstay]

/-! ### The start -/

section Start

variable (hbase : (base.map key).Nodup)
include hbase

omit [DecidableEq ι] in
theorem accounted_start : Accounted key base made (start key base) := by
  have hlookup : ∀ k e, (fill key base ∅).lookup k = some e → e ∈ base ∧ key e = k := by
    intro k e h
    rcases (lookup_fill hbase).mp h with hmem | ⟨-, hnone⟩
    · exact hmem
    · rw [AList.lookup_empty] at hnone
      exact absurd hnone.symm (Option.some_ne_none e)
  exact ⟨fun k e h => (hlookup k e h).2, fun k e h => Or.inl (hlookup k e h).1,
    fun _ _ h => absurd h List.not_mem_nil, fun _ _ h => absurd h List.not_mem_nil⟩

omit [DecidableEq ι] in
theorem kept_start : Kept key base (start key base : State K E ι) := fun _ hb =>
  (lookup_fill hbase).mpr (Or.inl ⟨hb, rfl⟩)

end Start

omit [DecidableEq ι] in
theorem current_start : Current key view (start key base : State K E ι) :=
  fun _ _ h => absurd h List.not_mem_nil

/-! ### Steps -/

namespace Shared

variable (hs : Shared owned key base made)
include hs

/-- An entry that a source made is under a key that this source found. -/
theorem made_of_lookup (hacc : Accounted key base made s) {i : ι} {f e : E} (hf : made i f)
    (hlookup : s.map.lookup (key f) = some e) :
    made i e ∧ key f ∈ (s.found i).map key := by
  have hkey := hacc.key_eq _ _ hlookup
  rcases hacc.entry _ _ hlookup with hbase | ⟨j, hmade, hfound⟩
  · exact absurd (hkey ▸ List.mem_map_of_mem hbase) (hs.fresh i f hf)
  · obtain rfl : j = i := by
      by_contra hne
      exact hs.key_ne j i e f hne hmade hf hkey
    exact ⟨hmade, hfound⟩

/-- An entry of one source survives the scans of the others. -/
theorem lookup_of_ne (hacc : Accounted key base made s) (hstep : step owned key s a = some t)
    {i : ι} (hne : i ≠ a.1) {f e : E} (hf : f ∈ s.found i)
    (hlookup : s.map.lookup (key f) = some e) : t.map.lookup (key f) = some e := by
  have hmade := (hs.made_of_lookup hacc (hacc.made_of_mem i f hf) hlookup).1
  have hfree : ¬owned a.1 e = true := fun h => hne ((hs.owned_iff i a.1 e hmade).mp h).symm
  rw [map_eq hstep]
  exact lookup_scan.mpr (Or.inl ⟨hlookup, Or.inl (Bool.eq_false_iff.mpr hfree)⟩)

theorem accounted_step (hmade : ∀ f ∈ a.2, made a.1 f) (hacc : Accounted key base made s)
    (hstep : step owned key s a = some t) : Accounted key base made t := by
  refine ⟨?_, ?_, ?_, ?_⟩
  · intro k e hlookup
    rw [map_eq hstep] at hlookup
    rcases lookup_scan.mp hlookup with ⟨hold, -⟩ | ⟨-, hfind⟩
    · exact hacc.key_eq k e hold
    · simpa using List.find?_some hfind
  · intro k e hlookup
    rw [map_eq hstep] at hlookup
    rcases lookup_scan.mp hlookup with ⟨hold, hkept⟩ | ⟨-, hfind⟩
    · rcases hacc.entry k e hold with hbase | ⟨i, hi, hfound⟩
      · exact Or.inl hbase
      · refine Or.inr ⟨i, hi, ?_⟩
        by_cases heq : i = a.1
        · subst heq
          have howned := (hs.owned_iff a.1 a.1 e hi).mpr rfl
          rw [found_self hstep]
          exact hkept.resolve_left (by simp [howned])
        · rwa [found_of_ne hstep heq]
    · have hkey : key e = k := by simpa using List.find?_some hfind
      have hmem := List.mem_of_find?_eq_some hfind
      refine Or.inr ⟨a.1, hmade e hmem, ?_⟩
      rw [found_self hstep]
      exact hkey ▸ List.mem_map_of_mem hmem
  · intro i f hf
    by_cases heq : i = a.1
    · subst heq
      rw [found_self hstep] at hf
      exact hmade f hf
    · rw [found_of_ne hstep heq] at hf
      exact hacc.made_of_mem i f hf
  · intro i f hf
    by_cases heq : i = a.1
    · subst heq
      rw [found_self hstep] at hf
      obtain ⟨e, he, -⟩ := lookup_scan_of_mem (owned a.1) s.map hf
      exact ⟨e, (congrArg _ (map_eq hstep)).trans he⟩
    · rw [found_of_ne hstep heq] at hf
      obtain ⟨e, he⟩ := hacc.mem_map i f hf
      exact ⟨e, hs.lookup_of_ne hacc hstep heq hf he⟩

/-- An entry that the source owns is removed, since the source does not find it. -/
theorem not_kept_step (hmade : ∀ f ∈ a.2, made a.1 f) (hkept : Kept key base s)
    (howned : ¬∀ b ∈ base, owned a.1 b = false) (hstep : step owned key s a = some t) :
    ¬Kept key base t := by
  intro hkept'
  push Not at howned
  obtain ⟨b, hb, hown⟩ := howned
  have hlookup := hkept' b hb
  rw [map_eq hstep] at hlookup
  rcases lookup_scan.mp hlookup with ⟨-, hfree | hfound⟩ | ⟨hnone, -⟩
  · exact hown hfree
  · obtain ⟨f, hf, hkey⟩ := List.mem_map.mp hfound
    exact hs.fresh a.1 f (hmade f hf) (hkey ▸ List.mem_map_of_mem hb)
  · rw [hkept b hb] at hnone
    exact Option.some_ne_none b hnone

theorem current_step (hacc : Accounted key base made s) (hcurrent : Current key view s)
    (hmade : ∀ f ∈ a.2, made a.1 f) (hsteady : Steady key view s a)
    (hstep : step owned key s a = some t) : Current key view t := by
  intro i f hf
  by_cases heq : i = a.1
  · subst heq
    rw [found_self hstep] at hf
    obtain ⟨e, he, hold | ⟨-, hmem, hkey⟩⟩ := lookup_scan_of_mem (owned a.1) s.map hf
    · -- The entry stands for what the source found before.
      obtain ⟨g, hg, hgkey⟩ := List.mem_map.mp (hs.made_of_lookup hacc (hmade f hf) hold).2
      obtain ⟨e', he', hview⟩ := hcurrent a.1 g hg
      obtain rfl : e = e' := by
        rw [hgkey, hold] at he'
        exact Option.some.inj he'
      refine ⟨e, (congrArg _ (map_eq hstep)).trans he, ?_⟩
      rw [hview, hsteady f hf g (List.mem_append_right _ hg) hgkey.symm]
    · exact ⟨e, (congrArg _ (map_eq hstep)).trans he,
        (hsteady f hf e (List.mem_append_left _ hmem) hkey.symm).symm⟩
  · rw [found_of_ne hstep heq] at hf
    obtain ⟨e, he, hview⟩ := hcurrent i f hf
    exact ⟨e, hs.lookup_of_ne hacc hstep heq hf he, hview⟩

/-! ### Runs -/

variable {scans : List (ι × List E)} (hacc : Accounted key base made s)
  (hkept : Kept key base s) (hmade : ∀ a ∈ scans, ∀ f ∈ a.2, made a.1 f)
include hacc hkept hmade

/-- The keys are exact throughout a run exactly when no source that scans owns
an entry that was there. -/
theorem always_keysExact_iff :
    Always (step owned key) (KeysExact key base) s scans ↔
      ∀ a ∈ scans, ∀ b ∈ base, owned a.1 b = false := by
  obtain ⟨u, hrun⟩ := exists_run owned key s scans
  rw [← guarded_iff owned key s]
  refine always_iff_guarded_on (I := fun s => Accounted key base made s ∧ Kept key base s) ?_ ?_ ?_
    hmade ⟨hacc, hkept⟩ hrun
  · exact fun s a t hA hI hok hstep =>
      ⟨hs.accounted_step hA hI.1 hstep, kept_step hI.2 hok hstep⟩
  · exact fun s hI => ⟨hI.2, fun k => hI.1.mem_iff⟩
  · exact fun s a t hA hI hnot hstep hexact =>
      hs.not_kept_step hA hI.2 hnot hstep hexact.kept

/-- The map is exact throughout a run exactly when, besides, every scan is steady. -/
theorem always_exact_iff (hcurrent : Current key view s) :
    Always (step owned key) (Exact key view base) s scans ↔
      (∀ a ∈ scans, ∀ b ∈ base, owned a.1 b = false) ∧
        Guarded (step owned key) (Steady key view) s scans := by
  obtain ⟨u, hrun⟩ := exists_run owned key s scans
  rw [← guarded_iff owned key s, ← guarded_and]
  refine always_iff_guarded_on
    (I := fun s => Accounted key base made s ∧ Kept key base s ∧ Current key view s) ?_ ?_ ?_
    hmade ⟨hacc, hkept, hcurrent⟩ hrun
  · exact fun s a t hA hI hok hstep => ⟨hs.accounted_step hA hI.1 hstep,
      kept_step hI.2.1 hok.1 hstep, hs.current_step hI.1 hI.2.2 hA hok.2 hstep⟩
  · exact fun s hI => ⟨⟨hI.2.1, fun k => hI.1.mem_iff⟩, hI.2.2⟩
  · intro s a t hA hI hnot hstep hexact
    by_cases hfree : ∀ b ∈ base, owned a.1 b = false
    · exact not_current_step hI.2.2 (fun hsteady => hnot ⟨hfree, hsteady⟩) hstep hexact.current
    · exact hs.not_kept_step hA hI.2.1 hfree hstep hexact.kept

end Shared

end Sources

end Sweep
