import Xfiles.Lib.Record
import Xfiles.Lib.TextOrder
import Xfiles.Message.Basic

/-!
# Values as JSON

How serde writes the types that the wire structures are made of, and how it
reads them back: strings, booleans, integers of fixed width, lists, maps and
optional values.

`Texts` and `Formats` are the texts of the types that other libraries own: UUIDs,
timestamps and finite floats.  Each comes with the law that its own parser reads
it back.  `Uuid.text` is such a text, with hyphens.

A number that is not written as an integer is not read as one.  A structure is
written as an object, and is read from an array of its fields as well.
-/

namespace Xfiles

open Record

namespace Json

def isNull : Json → Bool
  | .null => true
  | _ => false

end Json

namespace Serde

/-- The decimal number that a text is. -/
def parseNat (text : String) : Option Nat :=
  if text.toList ≠ [] ∧ text.toList.all (·.isDigit) then some (Nat.ofDigitChars 10 text.toList 0)
  else none

theorem parseNat_repr (n : Nat) : parseNat (Nat.repr n) = some n := by
  have hlist : (Nat.repr n).toList = Nat.toDigits 10 n := String.toList_ofList
  have hdigits : (Nat.toDigits 10 n).all (·.isDigit) = true := by
    rw [List.all_eq_true]
    exact fun c hc => Nat.isDigit_of_mem_toDigits (by decide) (by decide) hc
  rw [parseNat, hlist, if_pos ⟨Nat.toDigits_ne_nil, hdigits⟩, Nat.ofDigitChars_ten_toDigits]

def string : Codec Json String where
  encode := .string
  decode := Json.asStr
  decode_encode _ := rfl

def boolean : Codec Json Bool where
  encode := .bool
  decode
    | .bool b => some b
    | _ => none
  decode_encode _ := rfl

/-- A number, through the codec of its text. -/
def numberText : Codec Json String where
  encode := .number
  decode
    | .number text => some text
    | _ => none
  decode_encode _ := rfl

def natural : Codec String Nat where
  encode := Nat.repr
  decode := parseNat
  decode_encode := parseNat_repr

/-- The numbers below a bound. -/
def below (bound : Nat) : Codec Nat (Fin bound) where
  encode := Fin.val
  decode n := if h : n < bound then some ⟨n, h⟩ else none
  decode_encode x := dif_pos x.isLt

def u64Fin : Codec (Fin (2 ^ 64)) UInt64 where
  encode := UInt64.toFin
  decode n := some (UInt64.ofFin n)
  decode_encode _ := rfl

def u8Fin : Codec (Fin (2 ^ 8)) UInt8 where
  encode := UInt8.toFin
  decode n := some (UInt8.ofFin n)
  decode_encode _ := rfl

def u64 : Codec Json UInt64 := numberText.comp (natural.comp ((below (2 ^ 64)).comp u64Fin))

def u8 : Codec Json UInt8 := numberText.comp (natural.comp ((below (2 ^ 8)).comp u8Fin))

def arrayItems : Codec Json (List Json) where
  encode := .array
  decode
    | .array items => some items
    | _ => none
  decode_encode _ := rfl

def objectFields : Codec Json (List (String × Json)) where
  encode := .object
  decode
    | .object fields => some fields
    | _ => none
  decode_encode _ := rfl

/-- The fields of a structure that stands as an array.  Those from `least` on have a
default, and may be left out at the end. -/
def inOrder (keys : List String) (least : Nat) (items : List Json) :
    Option (List (String × Json)) :=
  if least ≤ items.length ∧ items.length ≤ keys.length then some (keys.zip items) else none

/-- The fields of a structure, under the keys that it has in their order. -/
def structFields (keys : List String) (least : Nat) : Codec Json (List (String × Json)) where
  encode := .object
  decode
    | .object fields => some fields
    | .array items => inOrder keys least items
    | _ => none
  decode_encode _ := rfl

/-- `serde_json::Value`. -/
def value : Codec Json Json where
  encode := id
  decode := some
  decode_encode _ := rfl

def list {T : Type*} (c : Codec Json T) : Codec Json (List T) := arrayItems.list c

def map {T : Type*} (c : Codec Json T) : Codec Json (AList fun _ : String => T) :=
  objectFields.map c

/-- `Option`, of a type that is never written as `null`. -/
def nullable {T : Type*} (c : Codec Json T) (h : ∀ x, (c.encode x).isNull = false) :
    Codec Json (Option T) :=
  c.option .null Json.isNull rfl h

end Serde

/-! ## UUIDs -/

namespace Uuid

/-- The 32 hexadecimal digits. -/
def digits (id : Uuid) : List Char := TextOrder.numeral 16 Json.hexDigit 32 id.toNat

/-- The digits in five groups. -/
def hyphenated (digits : List Char) : List Char :=
  digits.take 8 ++ '-' :: ((digits.drop 8).take 4 ++ '-' :: ((digits.drop 12).take 4 ++
    '-' :: ((digits.drop 16).take 4 ++ '-' :: digits.drop 20)))

def digitValue (c : Char) : Nat := if c.isDigit then c.toNat - 48 else c.toNat - 87

theorem filter_hyphenated {digits : List Char} (h : ∀ c ∈ digits, c ≠ '-') :
    (hyphenated digits).filter (· ≠ '-') = digits := by
  have hpart : ∀ part : List Char, part ⊆ digits → part.filter (· ≠ '-') = part := by
    intro part hsub
    rw [List.filter_eq_self]
    exact fun c hc => decide_eq_true (h c (hsub hc))
  have hgroup : ∀ i, (digits.drop i).take 4 ⊆ digits := fun i =>
    List.Subset.trans (List.take_subset 4 _) (List.drop_subset i digits)
  have hjoin : ∀ i, (digits.drop i).take 4 ++ digits.drop (i + 4) = digits.drop i := by
    intro i
    rw [← List.drop_drop]
    exact List.take_append_drop 4 _
  simp only [hyphenated, List.filter_append, List.filter_cons_of_neg, ne_eq, not_true_eq_false,
    decide_false, Bool.false_eq_true, not_false_eq_true]
  rw [hpart _ (List.take_subset 8 digits), hpart _ (hgroup 8), hpart _ (hgroup 12),
    hpart _ (hgroup 16), hpart _ (List.drop_subset 20 digits), hjoin 16, hjoin 12, hjoin 8,
    List.take_append_drop]

/-- `Display`, and a reader of 32 digits that skips the hyphens. -/
def text : Codec String Uuid where
  encode id := String.ofList (hyphenated id.digits)
  decode s :=
    let digits := s.toList.filter (· ≠ '-')
    if digits.length = 32 then some (BitVec.ofNat 128 (TextOrder.value 16 digitValue 0 digits))
    else none
  decode_encode id := by
    have hlt : id.toNat < 16 ^ 32 := id.isLt
    have hplain : ∀ c ∈ id.digits, c ≠ '-' := by
      have hhex : ∀ i < 16, Json.hexDigit i ≠ '-' := by decide
      intro c hc
      obtain ⟨i, rfl, hi⟩ := TextOrder.of_mem_numeral hc
      exact hhex i (hi hlt)
    have hvalue : TextOrder.value 16 digitValue 0 id.digits = id.toNat := by
      rw [digits, TextOrder.value_numeral (by decide) hlt]
      omega
    have hlength : id.digits.length = 32 := TextOrder.length_numeral _ _ _ _
    show (if ((String.ofList (hyphenated id.digits)).toList.filter (· ≠ '-')).length = 32
      then _ else none) = _
    rw [String.toList_ofList, filter_hyphenated hplain, if_pos hlength, hvalue,
      BitVec.ofNat_toNat, BitVec.setWidth_eq]

end Uuid

/-- The texts of UUIDs and of finite floats. -/
structure Texts (F64 : Type*) where
  uuid : Codec String Uuid
  f64 : Codec String F64

namespace Texts

variable {F64 : Type*} (texts : Texts F64)

def uuidJson : Codec Json Uuid := Serde.string.comp texts.uuid

def f64Json : Codec Json F64 := Serde.numberText.comp texts.f64

end Texts

/-- Floats in decimal. -/
def decimalTexts : Texts Nat where
  uuid := Uuid.text
  f64 := Serde.natural

/-- The texts of timestamps and of short floats as well. -/
structure Formats (Time F64 F32 : Type*) extends Texts F64 where
  time : Codec String Time
  f32 : Codec String F32

namespace Formats

variable {Time F64 F32 : Type*} (fmt : Formats Time F64 F32)

def timeJson : Codec Json Time := Serde.string.comp fmt.time

def f32Json : Codec Json F32 := Serde.numberText.comp fmt.f32

end Formats

end Xfiles
