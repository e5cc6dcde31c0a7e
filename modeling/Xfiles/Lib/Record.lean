import Mathlib.Data.List.AList

/-!
# Records as lists of fields

A record is written as a list of fields.  A reader looks for its own keys, and
ignores the others.

* `mapFrom` collects fields into a map, where a later field replaces an earlier
  one.  The fields of a map make the map again (`mapFrom_fieldsOf`).
* `Codec` is a way to write a value together with the law that what was written
  is read back.  `Codec.list`, `Codec.option` and `Codec.map` build codecs of
  lists, of optional values and of maps.
* `find` looks a key up and tells a key that occurs twice apart.  `required`
  and `withDefault` are the two kinds of field.  Among distinct keys a field is
  found wherever it stands (`find_of_mem`).
* `Carries` says that a list of fields holds those of a record, and may hold
  others.  A reader gets the values of the record from it.
-/

namespace Record

variable {K J T : Type*}

/-! ## Maps -/

section Maps

variable [DecidableEq K]

/-- The fields as a map, the last one of a key taken. -/
def mapFrom (fields : List (K × J)) : AList fun _ : K => J where
  entries := ((fields.map fun field => (⟨field.1, field.2⟩ : Sigma fun _ : K => J)).reverse
    |>.dedupKeys).reverse
  nodupKeys := (List.perm_nodupKeys (List.reverse_perm _)).mpr (List.nodupKeys_dedupKeys _)

/-- The entries of a map as fields. -/
def fieldsOf (m : AList fun _ : K => J) : List (K × J) :=
  m.entries.map fun entry => (entry.1, entry.2)

theorem dedupKeys_of_nodupKeys {entries : List (Sigma fun _ : K => J)} (h : entries.NodupKeys) :
    entries.dedupKeys = entries := by
  induction entries with
  | nil => rfl
  | cons entry rest ih =>
    rw [List.nodupKeys_cons] at h
    rw [List.dedupKeys_cons, ih h.2, List.kinsert_def, List.kerase_of_notMem_keys h.1]

/-- The fields of a map make the map again. -/
theorem mapFrom_fieldsOf (m : AList fun _ : K => J) : mapFrom (fieldsOf m) = m := by
  have hentries : ((fieldsOf m).map fun field => (⟨field.1, field.2⟩ : Sigma fun _ : K => J)) =
      m.entries := by
    rw [fieldsOf, List.map_map]
    exact List.map_id _
  have hreverse : m.entries.reverse.NodupKeys :=
    (List.perm_nodupKeys (List.reverse_perm _)).mpr m.nodupKeys
  apply AList.ext
  show ((List.map _ (fieldsOf m)).reverse.dedupKeys).reverse = m.entries
  rw [hentries, dedupKeys_of_nodupKeys hreverse, List.reverse_reverse]

end Maps

/-! ## Reading lists -/

theorem mapM_map_eq_some {X : Type*} {w : X → J} {f : J → Option T} {g : X → T} {xs : List X}
    (h : ∀ x ∈ xs, f (w x) = some (g x)) : (xs.map w).mapM f = some (xs.map g) := by
  induction xs with
  | nil => rfl
  | cons x xs ih =>
    rw [List.map_cons, List.mapM_cons, h x List.mem_cons_self,
      ih fun y hy => h y (List.mem_cons_of_mem x hy)]
    rfl

/-- One element that cannot be read fails the list. -/
theorem mapM_eq_none {f : J → Option T} {js : List J} {j : J} (hmem : j ∈ js) (h : f j = none) :
    js.mapM f = none := by
  induction js with
  | nil => exact absurd hmem List.not_mem_nil
  | cons head rest ih =>
    rw [List.mapM_cons]
    rcases List.mem_cons.mp hmem with rfl | hrest
    · rw [h]
      rfl
    · rw [ih hrest]
      cases f head <;> rfl

/-- What holds of the elements that are read holds of the lists. -/
theorem map_eq_map_iff_of_mapM {V : Type*} {decode : J → Option T} {f : T → V} {g : J → V}
    {P : J → Prop} {js : List J} {xs : List T} (h : js.mapM decode = some xs)
    (hiff : ∀ j x, decode j = some x → (f x = g j ↔ P j)) :
    xs.map f = js.map g ↔ ∀ j ∈ js, P j := by
  induction js generalizing xs with
  | nil =>
    obtain rfl := Option.some.inj h
    simp
  | cons j js ih =>
    rw [List.mapM_cons, Option.bind_eq_bind, Option.bind_eq_some_iff] at h
    obtain ⟨x, hx, h⟩ := h
    obtain ⟨rest, hrest, h⟩ := Option.bind_eq_some_iff.mp h
    obtain rfl := Option.some.inj h
    rw [List.map_cons, List.map_cons, List.cons.injEq, List.forall_mem_cons, hiff j x hx, ih hrest]

/-! ## Codecs -/

/-- A way to write a value, and to read back what was written. -/
structure Codec (J T : Type*) where
  encode : T → J
  decode : J → Option T
  decode_encode : ∀ x, decode (encode x) = some x

namespace Codec

theorem encode_injective (c : Codec J T) : Function.Injective c.encode := by
  intro x y h
  have hread := c.decode_encode x
  rw [h, c.decode_encode] at hread
  exact (Option.some.inj hread).symm

theorem mapM_encode (c : Codec J T) (xs : List T) : (xs.map c.encode).mapM c.decode = some xs := by
  have hread := mapM_map_eq_some (f := c.decode) (g := id) fun x (_ : x ∈ xs) => c.decode_encode x
  rwa [List.map_id] at hread

/-- A list, through a codec of lists of written elements. -/
def list {L : Type*} (outer : Codec L (List J)) (c : Codec J T) : Codec L (List T) where
  encode xs := outer.encode (xs.map c.encode)
  decode j := (outer.decode j).bind fun js => js.mapM c.decode
  decode_encode xs := by rw [outer.decode_encode, Option.bind_some, c.mapM_encode]

/-- One codec after another. -/
def comp {I : Type*} (outer : Codec I J) (c : Codec J T) : Codec I T where
  encode x := outer.encode (c.encode x)
  decode i := (outer.decode i).bind c.decode
  decode_encode x := by rw [outer.decode_encode, Option.bind_some, c.decode_encode]

/-- An optional value.  `null` stands for its absence, and no value may be
written so. -/
def option (null : J) (isNull : J → Bool) (hnull : isNull null = true) (c : Codec J T)
    (hvalue : ∀ x, isNull (c.encode x) = false) : Codec J (Option T) where
  encode x := x.elim null c.encode
  decode j := if isNull j then some none else (c.decode j).map some
  decode_encode x := by
    cases x with
    | none => exact if_pos hnull
    | some x =>
      have hne : ¬isNull (c.encode x) = true := by
        rw [hvalue]
        exact Bool.false_ne_true
      show (if isNull (c.encode x) then some none else (c.decode (c.encode x)).map some) = _
      rw [if_neg hne, c.decode_encode]
      rfl

/-- The entries of a map as fields, through a codec of written fields. -/
def map [DecidableEq K] (outer : Codec J (List (K × J))) (c : Codec J T) :
    Codec J (AList fun _ : K => T) where
  encode m := outer.encode ((fieldsOf m).map fun field => (field.1, c.encode field.2))
  decode j := (outer.decode j).bind fun fields =>
    (fields.mapM fun field => (c.decode field.2).map (Prod.mk field.1)).map mapFrom
  decode_encode m := by
    have hfields : ∀ fields : List (K × T),
        (fields.map fun field => (field.1, c.encode field.2)).mapM
          (fun field => (c.decode field.2).map (Prod.mk field.1)) = some fields := by
      intro fields
      induction fields with
      | nil => rfl
      | cons field rest ih =>
        rw [List.map_cons, List.mapM_cons, ih]
        show ((c.decode (c.encode field.2)).map (Prod.mk field.1)).bind _ = _
        rw [c.decode_encode]
        rfl
    rw [outer.decode_encode, Option.bind_some, hfields, Option.map_some, mapFrom_fieldsOf]

end Codec

/-! ## Fields -/

/-- What a reader finds under a key. -/
inductive Found (J : Type*) where
  | absent
  | once (value : J)
  | twice

/-- The fields hold those of a record, and no key stands twice. -/
structure Carries (fields part : List (K × J)) : Prop where
  nodup : (fields.map Prod.fst).Nodup
  subset : part ⊆ fields

theorem Carries.self {part : List (K × J)} (h : (part.map Prod.fst).Nodup) : Carries part part :=
  ⟨h, List.Subset.refl part⟩

section Find

variable [DecidableEq K]

def find (key : K) : List (K × J) → Found J
  | [] => .absent
  | field :: rest =>
    if field.1 = key then
      match find key rest with
      | .absent => .once field.2
      | .once _ | .twice => .twice
    else find key rest

/-- A field that must be there, once. -/
def required (key : K) (decode : J → Option T) (fields : List (K × J)) : Option T :=
  match find key fields with
  | .once value => decode value
  | .absent | .twice => none

/-- A field that may be missing. -/
def withDefault (key : K) (default : T) (decode : J → Option T) (fields : List (K × J)) :
    Option T :=
  match find key fields with
  | .absent => some default
  | .once value => decode value
  | .twice => none

theorem find_of_notMem {key : K} {fields : List (K × J)} (h : key ∉ fields.map Prod.fst) :
    find key fields = .absent := by
  induction fields with
  | nil => rfl
  | cons field rest ih =>
    rw [List.map_cons, List.mem_cons, not_or] at h
    rw [find, if_neg (Ne.symm h.1), ih h.2]

theorem notMem_of_find_absent {key : K} {fields : List (K × J)} (h : find key fields = .absent) :
    key ∉ fields.map Prod.fst := by
  induction fields with
  | nil => exact List.not_mem_nil
  | cons field rest ih =>
    rw [find] at h
    split at h
    · split at h <;> nomatch h
    · rename_i hkey
      rw [List.map_cons, List.mem_cons, not_or]
      exact ⟨Ne.symm hkey, ih h⟩

/-- The only value under its key. -/
theorem eq_of_find_once {key : K} {value : J} {fields : List (K × J)}
    (h : find key fields = .once value) {other : J} (hmem : (key, other) ∈ fields) :
    other = value := by
  induction fields with
  | nil => exact absurd hmem List.not_mem_nil
  | cons field rest ih =>
    rw [find] at h
    rcases List.mem_cons.mp hmem with rfl | hrest
    · rw [if_pos rfl] at h
      split at h
      · exact Found.once.inj h
      · nomatch h
      · nomatch h
    · split at h
      · split at h
        · rename_i hkey habsent
          exact absurd (List.mem_map_of_mem hrest) (notMem_of_find_absent habsent)
        · nomatch h
        · nomatch h
      · exact ih h hrest

theorem required_eq_some {key : K} {decode : J → Option T} {fields : List (K × J)} {x : T} :
    required key decode fields = some x ↔
      ∃ value, find key fields = .once value ∧ decode value = some x := by
  rw [required]
  split
  · rename_i value hfind
    constructor
    · exact fun h => ⟨value, hfind, h⟩
    · rintro ⟨value', hfind', h⟩
      rwa [Found.once.inj (hfind.symm.trans hfind')]
  · rename_i hfind
    simp [hfind]
  · rename_i hfind
    simp [hfind]

theorem withDefault_eq_some {key : K} {default : T} {decode : J → Option T}
    {fields : List (K × J)} {x : T} :
    withDefault key default decode fields = some x ↔
      find key fields = .absent ∧ default = x ∨ required key decode fields = some x := by
  rw [withDefault, required]
  split <;> simp_all

/-- A field whose key occurs once is found, whatever stands around it. -/
theorem find_of_mem {key : K} {value : J} {fields : List (K × J)}
    (hnodup : (fields.map Prod.fst).Nodup) (h : (key, value) ∈ fields) :
    find key fields = .once value := by
  induction fields with
  | nil => exact absurd h List.not_mem_nil
  | cons field rest ih =>
    rw [List.map_cons, List.nodup_cons] at hnodup
    rw [find]
    rcases List.mem_cons.mp h with rfl | hrest
    · rw [if_pos rfl, find_of_notMem hnodup.1]
    · have hne : field.1 ≠ key := by
        intro heq
        exact hnodup.1 (heq ▸ List.mem_map_of_mem hrest)
      rw [if_neg hne, ih hnodup.2 hrest]

namespace Carries

variable {fields part : List (K × J)} (h : Carries fields part)
include h

theorem find {key : K} {value : J} (hmem : (key, value) ∈ part) :
    find key fields = .once value :=
  find_of_mem h.nodup (h.subset hmem)

theorem required {key : K} {value : J} (hmem : (key, value) ∈ part) (decode : J → Option T) :
    required key decode fields = decode value := by
  rw [Record.required, h.find hmem]

theorem withDefault {key : K} {value : J} (hmem : (key, value) ∈ part) (default : T)
    (decode : J → Option T) : withDefault key default decode fields = decode value := by
  rw [Record.withDefault, h.find hmem]

theorem required_encode (c : Codec J T) {key : K} {x : T} (hmem : (key, c.encode x) ∈ part) :
    Record.required key c.decode fields = some x :=
  (h.required hmem _).trans (c.decode_encode x)

theorem withDefault_encode (c : Codec J T) {key : K} {x : T} (default : T)
    (hmem : (key, c.encode x) ∈ part) :
    Record.withDefault key default c.decode fields = some x :=
  (h.withDefault hmem _ _).trans (c.decode_encode x)

end Carries

end Find

end Record
