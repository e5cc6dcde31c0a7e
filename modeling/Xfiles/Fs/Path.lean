import Mathlib.Data.List.DropRight
import Mathlib.Data.List.Flatten

/-!
# Paths

The path functions of `fs/registry.rs`: `normalize`, `parent_path`,
`child_name`, and the last segment that `link_child` takes.

* `components path` is the vector that `normalize` joins, and `render` is the
  joined path, so that `normalize path` is `render (components path)`
  (`normalize_eq`).
* `components_isComponent` says that no component is empty, holds a slash, or
  is a dot name.
* `stable_joined` is the fixed point: a path of proper names is its own normal
  form when its last name does not end in white space.
* `parentPath_of_components` and `Stable.lastSegment_eq` take a path apart, and
  `childName_iff_slot` says that for fixed points the three functions fit
  together.

`normalize` trims the whole string once and drops components afterwards, so
its answer can end in white space.  `Stable` is the fixed point, and it is a
hypothesis where the source relies on it.
-/

namespace Xfiles.Fs

/-- A Rust string, as its characters. -/
abbrev Str := List Char

/-- `char::is_whitespace`: the Unicode property `White_Space`. -/
def isWhitespace (c : Char) : Bool :=
  let n := c.toNat
  (9 ≤ n && n ≤ 13) || n == 0x20 || n == 0x85 || n == 0xA0 || n == 0x1680 ||
    (0x2000 ≤ n && n ≤ 0x200A) || n == 0x2028 || n == 0x2029 || n == 0x202F ||
    n == 0x205F || n == 0x3000

/-- `str::trim_end`. -/
def trimEnd (s : Str) : Str := s.rdropWhile isWhitespace

/-- `str::trim`. -/
def trim (s : Str) : Str := trimEnd (s.dropWhile isWhitespace)

/-- One pass of the loop of `normalize`: `..` pops, `.` is skipped. -/
def resolve (normalized : List Str) (part : Str) : List Str :=
  if part = "..".toList then normalized.dropLast
  else if part = ".".toList then normalized
  else normalized ++ [part]

/-- `normalize`. -/
def normalize (path : Str) : Str :=
  let path := trim path
  if path = [] ∨ path = ['/'] then ['/']
  else
    let parts := (path.splitOn '/').filter (· ≠ [])
    '/' :: ['/'].intercalate (parts.foldl resolve [])

/-- `parent_path`.  The text before the last slash is empty when `rfind` finds
it at index zero. -/
def parentPath (path : Str) : Option Str :=
  let path := normalize path
  if path = ['/'] then none
  else
    let before := (path.rdropWhile (· ≠ '/')).dropLast
    if before = [] then some ['/'] else some before

/-- `child.rsplit('/').next()`. -/
def lastSegment (child : Str) : Str := child.rtakeWhile (· ≠ '/')

/-- `child_name`. -/
def childName (parent full : Str) : Option Str :=
  let parent := normalize parent
  let full := normalize full
  let remainder :=
    if parent = ['/'] then ['/'].isPrefixOf? full
    else (parent.isPrefixOf? full).bind ['/'].isPrefixOf?
  -- only direct children
  remainder.bind fun name => if name = [] ∨ '/' ∈ name then none else some name

/-! ## Components -/

/-- A name that can stand between two slashes of a normalized path. -/
def IsComponent (part : Str) : Prop :=
  part ≠ [] ∧ '/' ∉ part ∧ part ≠ "..".toList ∧ part ≠ ".".toList

instance : DecidablePred IsComponent := fun _ => inferInstanceAs (Decidable (_ ∧ _ ∧ _ ∧ _))

/-- The vector that `normalize` joins. -/
def components (path : Str) : List Str :=
  (((trim path).splitOn '/').filter (· ≠ [])).foldl resolve []

/-- The components with a slash before each. -/
def joined (parts : List Str) : Str := parts.flatMap ('/' :: ·)

/-- The path of a vector of components. -/
def render (parts : List Str) : Str := if parts = [] then ['/'] else joined parts

@[simp] theorem joined_nil : joined [] = [] := rfl

@[simp] theorem joined_cons (part : Str) (parts : List Str) :
    joined (part :: parts) = '/' :: (part ++ joined parts) := rfl

@[simp] theorem joined_append (parts rest : List Str) :
    joined (parts ++ rest) = joined parts ++ joined rest :=
  List.flatMap_append

@[simp] theorem render_nil : render [] = ['/'] := rfl

/-- Only the root has the empty vector. -/
theorem render_of_ne_nil {parts : List Str} (h : parts ≠ []) : render parts = joined parts :=
  if_neg h

theorem render_concat (parts : List Str) (part : Str) :
    render (parts ++ [part]) = joined parts ++ '/' :: part := by
  rw [render_of_ne_nil (by simp), joined_append, joined_cons, joined_nil, List.append_nil]

theorem slash_intercalate {parts : List Str} (h : parts ≠ []) :
    '/' :: ['/'].intercalate parts = joined parts := by
  induction parts with
  | nil => exact absurd rfl h
  | cons part rest ih =>
    cases rest with
    | nil => simp
    | cons next rest =>
      rw [List.intercalate_cons_cons, joined_cons, ← ih (by simp)]
      simp

theorem slash_intercalate_eq_render (parts : List Str) :
    '/' :: ['/'].intercalate parts = render parts := by
  by_cases h : parts = []
  · subst h
    rfl
  · rw [slash_intercalate h, render_of_ne_nil h]

theorem normalize_eq (path : Str) : normalize path = render (components path) := by
  show (if trim path = [] ∨ trim path = ['/'] then ['/']
    else '/' :: ['/'].intercalate (components path)) = _
  rw [slash_intercalate_eq_render]
  split_ifs with h
  · have hparts : components path = [] := by
      rcases h with h | h <;> rw [components, h] <;> rfl
    rw [hparts, render_nil]
  · rfl

/-! ### Every component is a proper name -/

theorem resolve_isComponent {normalized : List Str} {part : Str} (hne : part ≠ [])
    (hslash : '/' ∉ part) (h : ∀ c ∈ normalized, IsComponent c) :
    ∀ c ∈ resolve normalized part, IsComponent c := by
  intro c hc
  rw [resolve] at hc
  split_ifs at hc with hup hdot
  · exact h c (List.dropLast_subset _ hc)
  · exact h c hc
  · rcases List.mem_append.mp hc with hc | hc
    · exact h c hc
    · rw [List.mem_singleton] at hc
      subst hc
      exact ⟨hne, hslash, hup, hdot⟩

theorem foldl_resolve_isComponent {parts : List Str} (hparts : ∀ p ∈ parts, p ≠ [] ∧ '/' ∉ p)
    {normalized : List Str} (h : ∀ c ∈ normalized, IsComponent c) :
    ∀ c ∈ parts.foldl resolve normalized, IsComponent c := by
  induction parts generalizing normalized with
  | nil => exact h
  | cons part rest ih =>
    have hpart := hparts part List.mem_cons_self
    exact ih (fun p hp => hparts p (List.mem_cons_of_mem _ hp))
      (resolve_isComponent hpart.1 hpart.2 h)

theorem slash_not_mem_of_mem_splitOn {s part : Str} (h : part ∈ s.splitOn '/') : '/' ∉ part := by
  induction s generalizing part with
  | nil =>
    rw [List.splitOn_nil, List.mem_singleton] at h
    simp [h]
  | cons c rest ih =>
    rw [List.splitOn_cons_eq_if_modifyHead] at h
    split_ifs at h with hc
    · rcases List.mem_cons.mp h with h | h
      · simp [h]
      · exact ih h
    · cases hrest : rest.splitOn '/' with
      | nil => exact absurd hrest (List.splitOn_ne_nil _ _)
      | cons first others =>
        rw [hrest, List.modifyHead_cons] at h
        rcases List.mem_cons.mp h with h | h
        · have hfirst : '/' ∉ first := ih (by rw [hrest]; exact List.mem_cons_self)
          rw [h, List.mem_cons, not_or]
          exact ⟨fun heq => hc (beq_iff_eq.mpr heq.symm), hfirst⟩
        · exact ih (by rw [hrest]; exact List.mem_cons_of_mem _ h)

theorem components_isComponent (path : Str) : ∀ c ∈ components path, IsComponent c := by
  refine foldl_resolve_isComponent (fun p hp => ?_) (by simp)
  rw [List.mem_filter] at hp
  exact ⟨by simpa using hp.2, slash_not_mem_of_mem_splitOn hp.1⟩

/-- Proper names are pushed one after the other. -/
theorem foldl_resolve_of_isComponent {parts : List Str} (h : ∀ c ∈ parts, IsComponent c)
    (normalized : List Str) : parts.foldl resolve normalized = normalized ++ parts := by
  induction parts generalizing normalized with
  | nil => simp
  | cons part rest ih =>
    obtain ⟨-, -, hup, hdot⟩ := h part List.mem_cons_self
    have hpush : resolve normalized part = normalized ++ [part] := by
      rw [resolve, if_neg hup, if_neg hdot]
    rw [List.foldl_cons, hpush, ih (fun c hc => h c (List.mem_cons_of_mem _ hc))]
    simp

/-! ## Fixed points -/

/-- A path that `normalize` leaves as it is. -/
def Stable (path : Str) : Prop := normalize path = path

instance (path : Str) : Decidable (Stable path) := inferInstanceAs (Decidable (_ = _))

theorem Stable.eq_render {path : Str} (h : Stable path) : path = render (components path) := by
  rw [← normalize_eq]
  exact h.symm

theorem splitOn_slash (s : Str) : ('/' :: s).splitOn '/' = [] :: s.splitOn '/' := by
  simpa using List.splitOn_append_cons_self (a := '/') [] s

theorem splitOn_joined {parts : List Str} (hne : parts ≠ []) (h : ∀ c ∈ parts, '/' ∉ c) :
    (joined parts).splitOn '/' = [] :: parts := by
  rw [← slash_intercalate hne, splitOn_slash, List.splitOn_intercalate '/' h hne]

theorem joined_injective {parts others : List Str} (h : ∀ c ∈ parts, '/' ∉ c)
    (h' : ∀ c ∈ others, '/' ∉ c) (heq : joined parts = joined others) : parts = others := by
  cases parts with
  | nil => cases others with
    | nil => rfl
    | cons c rest => exact absurd heq (by simp)
  | cons c rest => cases others with
    | nil => exact absurd heq (by simp)
    | cons c' rest' =>
      have hsplit := congrArg (List.splitOn '/') heq
      rw [splitOn_joined (by simp) h, splitOn_joined (by simp) h'] at hsplit
      exact List.tail_eq_of_cons_eq hsplit

theorem joined_ne_slash {parts : List Str} (h : ∀ c ∈ parts, IsComponent c) :
    joined parts ≠ ['/'] := by
  intro heq
  cases parts with
  | nil => exact absurd heq (by simp)
  | cons c rest =>
    rw [joined_cons, List.cons.injEq, List.append_eq_nil_iff] at heq
    exact (h c List.mem_cons_self).1 heq.2.1

/-- A leading slash is not white space. -/
theorem trim_slash (s : Str) : trim ('/' :: s) = trimEnd ('/' :: s) := by
  rw [trim, List.dropWhile_cons_of_neg (by decide)]

theorem trimEnd_append_iff {s t : Str} (ht : t ≠ []) :
    trimEnd (s ++ t) = s ++ t ↔ trimEnd t = t := by
  have hne : s ++ t ≠ [] := List.append_ne_nil_of_right_ne_nil s ht
  have hlast : (s ++ t).getLast hne = t.getLast ht := List.getLast_append_of_ne_nil hne ht
  rw [trimEnd, trimEnd, List.rdropWhile_eq_self_iff, List.rdropWhile_eq_self_iff]
  exact ⟨fun h _ => hlast ▸ h hne, fun h _ => hlast ▸ h ht⟩

theorem joined_eq_slash {parts : List Str} (h : parts ≠ []) : ∃ s, joined parts = '/' :: s := by
  cases parts with
  | nil => exact absurd rfl h
  | cons c rest => exact ⟨c ++ joined rest, rfl⟩

/-- Proper names are the components of the path that they make, when the last
one does not end in white space. -/
theorem components_joined {parts : List Str} {last : Str}
    (h : ∀ c ∈ parts ++ [last], IsComponent c) (hlast : trimEnd last = last) :
    components (joined (parts ++ [last])) = parts ++ [last] := by
  have hne : parts ++ [last] ≠ [] := by simp
  have hname : joined (parts ++ [last]) = (joined parts ++ ['/']) ++ last := by simp
  have htrim : trimEnd (joined (parts ++ [last])) = joined (parts ++ [last]) := by
    rw [hname]
    exact (trimEnd_append_iff (h last (by simp)).1).mpr hlast
  obtain ⟨s, hs⟩ := joined_eq_slash hne
  have hjoined : trim (joined (parts ++ [last])) = joined (parts ++ [last]) := by
    rw [hs, trim_slash, ← hs, htrim]
  have hparts : (parts ++ [last]).filter (fun c => decide (c ≠ [])) = parts ++ [last] :=
    List.filter_eq_self.mpr fun c hc => by simpa using (h c hc).1
  rw [components, hjoined, splitOn_joined hne fun c hc => (h c hc).2.1,
    List.filter_cons_of_neg (by simp), hparts, foldl_resolve_of_isComponent h, List.nil_append]

/-- Such a path is a fixed point. -/
theorem stable_joined {parts : List Str} {last : Str}
    (h : ∀ c ∈ parts ++ [last], IsComponent c) (hlast : trimEnd last = last) :
    Stable (joined (parts ++ [last])) := by
  rw [Stable, normalize_eq, components_joined h hlast, render_of_ne_nil (by simp)]

/-! ### Normalizing never makes a path longer -/

theorem length_joined_resolve (normalized : List Str) (part : Str) :
    (joined (resolve normalized part)).length ≤ (joined normalized).length + (part.length + 1) := by
  rw [resolve]
  split_ifs
  · have hsub : (joined normalized.dropLast).length ≤ (joined normalized).length :=
      ((List.dropLast_sublist _).flatMap _).length_le
    omega
  · omega
  · simp only [joined_append, joined_cons, joined_nil, List.length_append, List.length_cons,
      List.length_nil]
    omega

theorem length_joined_foldl (parts normalized : List Str) :
    (joined (parts.foldl resolve normalized)).length ≤
      (joined normalized).length + (joined parts).length := by
  induction parts generalizing normalized with
  | nil => simp
  | cons part rest ih =>
    have hstep := length_joined_resolve normalized part
    have hrest := ih (resolve normalized part)
    simp only [List.foldl_cons, joined_cons, List.length_cons, List.length_append]
    omega

theorem length_normalize_le_of_trim {path s : Str} (h : trim path = '/' :: s) :
    (normalize path).length ≤ s.length + 1 := by
  have hjoined : joined (s.splitOn '/') = '/' :: s := by
    rw [← slash_intercalate (List.splitOn_ne_nil _ _), List.intercalate_splitOn]
  have hparts : (joined ((s.splitOn '/').filter (· ≠ []))).length ≤ s.length + 1 := by
    have hsub : (s.splitOn '/').filter (· ≠ []) |>.Sublist (s.splitOn '/') := List.filter_sublist
    have hle := (hsub.flatMap ('/' :: ·)).length_le
    change _ ≤ (joined (s.splitOn '/')).length at hle
    rwa [hjoined] at hle
  have hcomponents : (joined (components path)).length ≤ s.length + 1 := by
    rw [components, h, splitOn_slash, List.filter_cons_of_neg (by simp)]
    refine (length_joined_foldl _ []).trans ?_
    simpa using hparts
  rw [normalize_eq, render]
  split_ifs
  · simp
  · exact hcomponents

theorem trimEnd_slash (s : Str) : ∃ t, trimEnd ('/' :: s) = '/' :: t := by
  cases h : trimEnd ('/' :: s) with
  | nil =>
    rw [trimEnd, List.rdropWhile_eq_nil_iff] at h
    exact absurd (h '/' List.mem_cons_self) (by decide)
  | cons c t =>
    have hprefix : c :: t <+: '/' :: s := by
      rw [← h]
      exact List.rdropWhile_prefix _ _
    exact ⟨t, by rw [(List.cons_prefix_cons.mp hprefix).1]⟩

theorem length_normalize_le_trimEnd (s : Str) :
    (normalize ('/' :: s)).length ≤ (trimEnd ('/' :: s)).length := by
  obtain ⟨t, ht⟩ := trimEnd_slash s
  rw [ht]
  exact length_normalize_le_of_trim (by rw [trim_slash, ht])

/-- A fixed point does not end in white space. -/
theorem Stable.trimEnd_eq {s : Str} (h : Stable ('/' :: s)) : trimEnd ('/' :: s) = '/' :: s := by
  have hprefix : trimEnd ('/' :: s) <+: '/' :: s := List.rdropWhile_prefix _ _
  refine hprefix.eq_of_length_le ?_
  have hle := length_normalize_le_trimEnd s
  rwa [h] at hle

/-! ## Parents and last segments -/

theorem rdropWhile_slash (s : Str) {t : Str} (h : '/' ∉ t) :
    (s ++ '/' :: t).rdropWhile (fun c => decide (c ≠ '/')) = s ++ ['/'] := by
  induction t using List.reverseRecOn with
  | nil => exact List.rdropWhile_concat_neg _ s '/' (by simp)
  | append_singleton t c ih =>
    rw [List.mem_append, List.mem_singleton, not_or] at h
    have hc : c ≠ '/' := fun heq => h.2 heq.symm
    have hname : s ++ '/' :: (t ++ [c]) = (s ++ '/' :: t) ++ [c] := by simp
    rw [hname, List.rdropWhile_concat_pos _ _ c (by simpa using hc), ih h.1]

theorem lastSegment_append (s : Str) {t : Str} (h : '/' ∉ t) :
    lastSegment (s ++ '/' :: t) = t := by
  induction t using List.reverseRecOn with
  | nil => exact List.rtakeWhile_concat_neg _ s '/' (by simp)
  | append_singleton t c ih =>
    rw [List.mem_append, List.mem_singleton, not_or] at h
    have hc : c ≠ '/' := fun heq => h.2 heq.symm
    have hname : s ++ '/' :: (t ++ [c]) = (s ++ '/' :: t) ++ [c] := by simp
    rw [hname, lastSegment, List.rtakeWhile_concat_pos _ _ c (by simpa using hc)]
    exact congrArg (· ++ [c]) (ih h.1)

/-- Only the empty vector renders as the root. -/
theorem normalize_eq_root {path : Str} : normalize path = ['/'] ↔ components path = [] := by
  rw [normalize_eq]
  refine ⟨fun h => ?_, fun h => by rw [h, render_nil]⟩
  by_contra hne
  rw [render_of_ne_nil hne] at h
  exact joined_ne_slash (components_isComponent path) h

/-- The parent drops the last component, and the root has none. -/
theorem parentPath_of_components {path : Str} {parts : List Str} {last : Str}
    (h : components path = parts ++ [last]) : parentPath path = some (render parts) := by
  have hlast : IsComponent last := components_isComponent path last (by simp [h])
  have hpath : normalize path = joined parts ++ '/' :: last := by
    rw [normalize_eq, h, render_concat]
  have hroot : normalize path ≠ ['/'] := by simp [normalize_eq_root, h]
  show (if normalize path = ['/'] then none else _) = _
  rw [if_neg hroot, hpath, rdropWhile_slash _ hlast.2.1, List.dropLast_concat]
  by_cases hparts : parts = []
  · subst hparts
    rfl
  · obtain ⟨s, hs⟩ := joined_eq_slash hparts
    rw [if_neg (by simp [hs]), render_of_ne_nil hparts]

theorem parentPath_eq_none {path : Str} (h : components path = []) : parentPath path = none := by
  show (if normalize path = ['/'] then none else _) = _
  rw [normalize_eq, h, render_nil, if_pos rfl]

theorem Stable.lastSegment_eq {path : Str} (hpath : Stable path) {parts : List Str} {last : Str}
    (h : components path = parts ++ [last]) : lastSegment path = last := by
  have hlast : IsComponent last := components_isComponent path last (by simp [h])
  rw [hpath.eq_render, h, render_concat]
  exact lastSegment_append _ hlast.2.1

/-- Only a path with a last component has a parent. -/
theorem components_of_parentPath {path parent : Str} (h : parentPath path = some parent) :
    ∃ parts last, components path = parts ++ [last] ∧ parent = render parts := by
  rcases List.eq_nil_or_concat' (components path) with hroot | ⟨parts, last, hparts⟩
  · rw [parentPath_eq_none hroot] at h
    exact absurd h (by simp)
  · rw [parentPath_of_components hparts] at h
    exact ⟨parts, last, hparts, (Option.some.inj h).symm⟩

/-- The parent is shorter than the path. -/
theorem length_parentPath_lt {path parent : Str} (h : parentPath path = some parent) :
    parent.length < (normalize path).length := by
  obtain ⟨parts, last, hparts, hparent⟩ := components_of_parentPath h
  have hlast : IsComponent last := components_isComponent path last (by simp [hparts])
  have hpos := List.length_pos_of_ne_nil hlast.1
  rw [hparent, normalize_eq, hparts, render_concat, render]
  split_ifs <;> simp only [List.length_append, List.length_cons, List.length_nil] <;> omega

theorem parentPath_eq_slash {path parent : Str} (h : parentPath path = some parent) :
    ∃ s, parent = '/' :: s := by
  obtain ⟨parts, last, hparts, hparent⟩ := components_of_parentPath h
  rw [hparent, render]
  split_ifs with hne
  · exact ⟨[], rfl⟩
  · exact joined_eq_slash hne

/-- No path is its own parent. -/
theorem parentPath_ne_self (path : Str) : parentPath path ≠ some path := by
  intro h
  obtain ⟨s, hs⟩ := parentPath_eq_slash h
  have hlt := length_parentPath_lt h
  have hle := length_normalize_le_trimEnd s
  have htrim : (trimEnd ('/' :: s)).length ≤ ('/' :: s).length :=
    (List.rdropWhile_prefix _ _).length_le
  rw [← hs] at hle htrim
  omega

/-! ## Child names -/

/-- What stands behind the parent and a slash. -/
theorem remainder_iff {parent full name : Str} :
    (if normalize parent = ['/'] then ['/'].isPrefixOf? (normalize full)
      else ((normalize parent).isPrefixOf? (normalize full)).bind ['/'].isPrefixOf?) = some name ↔
      joined (components parent) ++ '/' :: name = normalize full := by
  split_ifs with hroot
  · rw [normalize_eq_root.mp hroot, List.isPrefixOf?_eq_some_iff_append_eq]
    rfl
  · have hne : components parent ≠ [] := fun h => hroot (normalize_eq_root.mpr h)
    rw [Option.bind_eq_some_iff, normalize_eq parent, render_of_ne_nil hne]
    simp only [List.isPrefixOf?_eq_some_iff_append_eq]
    constructor
    · rintro ⟨rest, hrest, hname⟩
      rw [← hrest, ← hname]
      rfl
    · intro h
      exact ⟨'/' :: name, h, rfl⟩

/-- The names below a directory are the single components that extend its
vector. -/
theorem childName_iff {parent full name : Str} :
    childName parent full = some name ↔ components full = components parent ++ [name] := by
  show Option.bind _ (fun name => if name = [] ∨ '/' ∈ name then none else some name) = _ ↔ _
  rw [Option.bind_eq_some_iff]
  simp only [remainder_iff]
  constructor
  · rintro ⟨rest, hrest, hname⟩
    split_ifs at hname with hbad
    obtain ⟨hne, hslash⟩ := not_or.mp hbad
    rw [← Option.some.inj hname]
    have hfull : components full ≠ [] := by
      intro h
      have hlen := congrArg List.length hrest
      have hpos := List.length_pos_of_ne_nil hne
      rw [normalize_eq, h] at hlen
      simp only [List.length_append, List.length_cons, render_nil, List.length_nil] at hlen
      omega
    rw [normalize_eq, render_of_ne_nil hfull] at hrest
    refine joined_injective (fun c hc => (components_isComponent full c hc).2.1) ?_ ?_
    · intro c hc
      rcases List.mem_append.mp hc with hc | hc
      · exact (components_isComponent parent c hc).2.1
      · rwa [List.mem_singleton.mp hc]
    · rw [← hrest]
      simp
  · intro h
    have hname : IsComponent name := components_isComponent full name (by simp [h])
    refine ⟨name, ?_, if_neg (not_or.mpr ⟨hname.1, hname.2.1⟩)⟩
    rw [normalize_eq, h, render_concat]

/-! ## The slot of a path -/

/-- The directory that `link_child` changes for a path, and the name that it
puts there. -/
def slot (path : Str) : Option (Str × Str) :=
  (parentPath path).map fun parent => (parent, lastSegment path)

theorem slot_of_components {path : Str} (hpath : Stable path) {parts : List Str} {last : Str}
    (h : components path = parts ++ [last]) : slot path = some (render parts, last) := by
  rw [slot, parentPath_of_components h, hpath.lastSegment_eq h]
  rfl

theorem components_of_slot {path dir name : Str} (hpath : Stable path)
    (h : slot path = some (dir, name)) :
    ∃ parts, components path = parts ++ [name] ∧ dir = render parts := by
  obtain ⟨parent, hparent, heq⟩ := Option.map_eq_some_iff.mp h
  obtain ⟨hdir, hname⟩ := Prod.mk.inj heq
  obtain ⟨parts, last, hparts, hrender⟩ := components_of_parentPath hparent
  rw [hpath.lastSegment_eq hparts] at hname
  rw [hname] at hparts
  exact ⟨parts, hparts, hdir.symm.trans hrender⟩

theorem render_injective {parts others : List Str} (h : ∀ c ∈ parts, IsComponent c)
    (h' : ∀ c ∈ others, IsComponent c) (heq : render parts = render others) : parts = others := by
  rw [render, render] at heq
  split_ifs at heq with hparts hothers hothers
  · rw [hparts, hothers]
  · exact absurd heq.symm (joined_ne_slash h')
  · exact absurd heq (joined_ne_slash h)
  · exact joined_injective (fun c hc => (h c hc).2.1) (fun c hc => (h' c hc).2.1) heq

/-- Two fixed points with one slot are the same path. -/
theorem slot_injective {path other : Str} (hpath : Stable path) (hother : Stable other)
    {dir name : Str} (h : slot path = some (dir, name)) (h' : slot other = some (dir, name)) :
    path = other := by
  obtain ⟨parts, hparts, hdir⟩ := components_of_slot hpath h
  obtain ⟨parts', hparts', hdir'⟩ := components_of_slot hother h'
  have hsame : parts = parts' := by
    refine render_injective (fun c hc => ?_) (fun c hc => ?_) (hdir.symm.trans hdir')
    · exact components_isComponent path c (by simp [hparts, hc])
    · exact components_isComponent other c (by simp [hparts', hc])
  rw [hpath.eq_render, hother.eq_render, hparts, hparts', hsame]

/-- For fixed points, the directory that lists a path is the one that the
path is linked in, under the same name. -/
theorem childName_iff_slot {parent full name : Str} (hparent : Stable parent)
    (hfull : Stable full) :
    childName parent full = some name ↔ slot full = some (parent, name) := by
  rw [childName_iff]
  constructor
  · intro h
    rw [slot_of_components hfull h, ← hparent.eq_render]
  · intro h
    obtain ⟨parts, hparts, hdir⟩ := components_of_slot hfull h
    have hsame : parts = components parent := by
      refine render_injective (fun c hc => ?_) (components_isComponent parent) ?_
      · exact components_isComponent full c (by simp [hparts, hc])
      · rw [← hdir, ← hparent.eq_render]
    rw [hparts, hsame]

end Xfiles.Fs
