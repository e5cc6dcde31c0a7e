import Mathlib.Data.String.Basic
import Xfiles.Lib.OrderedFields
import Xfiles.Message.Codec

/-!
# The value of a JSON text

A JSON text may have the fields of an object in any order, and may repeat a key.
`Json.toValue` is the `serde_json::Value` that is read from it: each object
inserts its fields into a map in turn, and each number is kept in the form in
which it is printed again.

* `Doubles` is how a number that is no `u64` and no `i64` is read and printed, and
  `Doubles.print` is what becomes of the text of a number.
* `sorted` changes the order of the keys only.  Two texts are the same up to this
  order if it makes them equal.
* `toValue_eq_sorted_iff` says that a value is the same as its text exactly when
  every number prints as it stands.
-/

namespace Xfiles.Json

open OrderedFields

/-- The map of `serde_json` keeps its fields sorted. -/
theorem insertField_eq (key : String) (value : Json) (fields : List (String × Json)) :
    insertField key value fields = OrderedFields.insert key value fields := by
  induction fields with
  | nil => rfl
  | cons field rest ih =>
    rw [insertField, OrderedFields.insert, ih]

/-! ## Numbers -/

/-- A JSON number that fits a `u64` or an `i64`.  Minus zero is a float. -/
def fitsInteger (text : String) : Bool :=
  match text.toList with
  | '-' :: digits => (Serde.parseNat (String.ofList digits)).any fun n => 0 < n && n ≤ 2 ^ 63
  | _ => (Serde.parseNat text).any fun n => n < 2 ^ 64

/-- How a number is read as an `f64`, and how one is printed.  A number out of the
range is not read. -/
structure Doubles (F64 : Type) where
  ofNumber : String → Option F64
  toNumber : F64 → String

namespace Doubles

variable {F64 : Type} (doubles : Doubles F64)

def reads (text : String) : Bool := fitsInteger text || (doubles.ofNumber text).isSome

/-- The text of a number that was read. -/
def print (text : String) : String :=
  if fitsInteger text then text else ((doubles.ofNumber text).map doubles.toNumber).getD text

end Doubles

/-! ## Values -/

mutual

/-- The value that is read from a text, for a form of numbers. -/
def toValue (print : String → String) : Json → Json
  | .null => .null
  | .bool b => .bool b
  | .number t => .number (print t)
  | .string s => .string s
  | .array items => .array (toValues print items)
  | .object fields =>
    .object ((toFieldValues print fields).foldl (fun m field => insertField field.1 field.2 m) [])

def toValues (print : String → String) : List Json → List Json
  | [] => []
  | item :: rest => item.toValue print :: toValues print rest

def toFieldValues (print : String → String) : List (String × Json) → List (String × Json)
  | [] => []
  | (key, value) :: rest => (key, value.toValue print) :: toFieldValues print rest

end

mutual

/-- All numbers of a text have the property. -/
def allNumbers (p : String → Bool) : Json → Bool
  | .null | .bool _ | .string _ => true
  | .number t => p t
  | .array items => allNumbersOf p items
  | .object fields => allNumbersOfFields p fields

def allNumbersOf (p : String → Bool) : List Json → Bool
  | [] => true
  | item :: rest => item.allNumbers p && allNumbersOf p rest

def allNumbersOfFields (p : String → Bool) : List (String × Json) → Bool
  | [] => true
  | (_, value) :: rest => value.allNumbers p && allNumbersOfFields p rest

end

/-- The fields in the order of the keys, and of a repeated key the last one. -/
def sorted (j : Json) : Json := j.toValue id

variable {print : String → String}

theorem toValues_eq_map (items : List Json) :
    toValues print items = items.map (toValue print) := by
  induction items with
  | nil => rfl
  | cons item rest ih => rw [toValues, ih, List.map_cons]

theorem toFieldValues_eq_map (fields : List (String × Json)) :
    toFieldValues print fields = fields.map fun field => (field.1, field.2.toValue print) := by
  induction fields with
  | nil => rfl
  | cons field rest ih => rw [toFieldValues, ih, List.map_cons]

theorem toValue_array (items : List Json) :
    (array items).toValue print = array (items.map (toValue print)) := by
  rw [toValue, toValues_eq_map]

theorem toValue_object (fields : List (String × Json)) :
    (object fields).toValue print =
      object (collect (fields.map fun field => (field.1, field.2.toValue print))) := by
  rw [toValue, toFieldValues_eq_map, collect]
  simp only [insertField_eq]

theorem allNumbersOf_iff {p : String → Bool} (items : List Json) :
    allNumbersOf p items ↔ ∀ item ∈ items, item.allNumbers p := by
  induction items with
  | nil => simp [allNumbersOf]
  | cons item rest ih => simp [allNumbersOf, ih]

theorem allNumbersOfFields_iff {p : String → Bool} (fields : List (String × Json)) :
    allNumbersOfFields p fields ↔ ∀ field ∈ fields, field.2.allNumbers p := by
  induction fields with
  | nil => simp [allNumbersOfFields]
  | cons field rest ih => simp [allNumbersOfFields, ih]

theorem sorted_array (items : List Json) : (array items).sorted = array (items.map sorted) :=
  toValue_array items

theorem sorted_object (fields : List (String × Json)) :
    (object fields).sorted = object (collect (fields.map fun field => (field.1, field.2.sorted))) :=
  toValue_object fields

/-- Two objects are the same exactly when the last values under each key are. -/
theorem sorted_object_eq_iff {fields fields' : List (String × Json)} :
    (object fields).sorted = (object fields').sorted ↔
      ∀ key, (last key fields).map sorted = (last key fields').map sorted := by
  rw [sorted, sorted, toValue_object, toValue_object, object.injEq, collect_eq_iff]
  simp only [last_map]
  rfl

mutual

/-- A value is in order. -/
theorem sorted_toValue : ∀ j : Json, (j.toValue print).sorted = j.toValue print
  | .null => rfl
  | .bool _ => rfl
  | .number _ => rfl
  | .string _ => rfl
  | .array items => by
    rw [toValue_array, sorted, toValue_array, List.map_map, array.injEq, List.map_inj_left]
    exact sorted_toValue_of_mem items
  | .object fields => by
    have hself : ∀ field ∈ collect (fields.map fun field => (field.1, field.2.toValue print)),
        (field.1, field.2.toValue id) = field := by
      intro field hfield
      obtain ⟨original, horiginal, rfl⟩ := List.mem_map.mp (mem_of_mem_collect hfield)
      exact Prod.ext rfl (sorted_toValue_of_mem_fields fields original horiginal)
    rw [toValue_object, sorted, toValue_object, List.map_congr_left hself, List.map_id',
      (sorted_collect _).collect_eq]

theorem sorted_toValue_of_mem : ∀ items : List Json, ∀ item ∈ items,
    (item.toValue print).sorted = item.toValue print
  | [] => fun _ h => absurd h List.not_mem_nil
  | head :: rest => fun item h => by
    rcases List.mem_cons.mp h with heq | hrest
    · rw [heq, sorted_toValue head]
    · exact sorted_toValue_of_mem rest item hrest

theorem sorted_toValue_of_mem_fields : ∀ fields : List (String × Json), ∀ field ∈ fields,
    (field.2.toValue print).sorted = field.2.toValue print
  | [] => fun _ h => absurd h List.not_mem_nil
  | (key, value) :: rest => fun field h => by
    rcases List.mem_cons.mp h with heq | hrest
    · rw [heq, sorted_toValue value]
    · exact sorted_toValue_of_mem_fields rest field hrest

end

/-- Every number prints as it stands. -/
def Prints (print : String → String) (j : Json) : Prop :=
  j.sorted.allNumbers fun text => print text = text

instance (print : String → String) (j : Json) : Decidable (j.Prints print) :=
  inferInstanceAs (Decidable (_ = true))

theorem prints_array (items : List Json) :
    (array items).Prints print ↔ ∀ item ∈ items, item.Prints print := by
  rw [Prints, sorted, toValue_array, allNumbers, allNumbersOf_iff, List.forall_mem_map]
  rfl

theorem prints_object (fields : List (String × Json)) :
    (object fields).Prints print ↔ ∀ key j, last key fields = some j → j.Prints print := by
  rw [Prints, sorted, toValue_object, allNumbers, allNumbersOfFields_iff]
  constructor
  · intro h key j hlast
    refine h (key, j.sorted) ((sorted_collect _).last_eq_some.mp ?_)
    rw [last_collect, last_map, hlast]
    rfl
  · intro h field hfield
    have hlast := (sorted_collect _).last_eq_some.mpr hfield
    rw [last_collect, last_map] at hlast
    obtain ⟨j, hj, hvalue⟩ := Option.map_eq_some_iff.mp hlast
    rw [← hvalue]
    exact h field.1 j hj

mutual

/-- A value is the same as its text exactly when every number prints as it
stands. -/
theorem toValue_eq_sorted_iff : ∀ j : Json, j.toValue print = j.sorted ↔ j.Prints print
  | .null => by simp [toValue, sorted, Prints, allNumbers]
  | .bool _ => by simp [toValue, sorted, Prints, allNumbers]
  | .number _ => by simp [toValue, sorted, Prints, allNumbers]
  | .string _ => by simp [toValue, sorted, Prints, allNumbers]
  | .array items => by
    rw [prints_array, sorted, toValue_array, toValue_array, array.injEq, List.map_inj_left]
    exact forall₂_congr (toValue_eq_sorted_iff_of_mem items)
  | .object fields => by
    rw [prints_object, sorted, toValue_object, toValue_object, object.injEq, collect_eq_iff]
    refine forall_congr' fun key => ?_
    rw [last_map, last_map]
    cases hlast : last key fields with
    | none => simp
    | some j =>
      have hj := toValue_eq_sorted_iff_of_mem_fields fields (key, j) (mem_of_last hlast)
      simpa [sorted] using hj

theorem toValue_eq_sorted_iff_of_mem : ∀ items : List Json, ∀ item ∈ items,
    (item.toValue print = item.sorted ↔ item.Prints print)
  | [] => fun _ h => absurd h List.not_mem_nil
  | head :: rest => fun item h => by
    rcases List.mem_cons.mp h with heq | hrest
    · rw [heq, toValue_eq_sorted_iff head]
    · exact toValue_eq_sorted_iff_of_mem rest item hrest

theorem toValue_eq_sorted_iff_of_mem_fields : ∀ fields : List (String × Json),
    ∀ field ∈ fields, (field.2.toValue print = field.2.sorted ↔ field.2.Prints print)
  | [] => fun _ h => absurd h List.not_mem_nil
  | (key, value) :: rest => fun field h => by
    rcases List.mem_cons.mp h with heq | hrest
    · rw [heq, toValue_eq_sorted_iff value]
    · exact toValue_eq_sorted_iff_of_mem_fields rest field hrest

end

end Xfiles.Json
