import Mathlib.Data.List.AList

/-!
# Messages

The envelope of `message.rs`, and the JSON values that it carries.

`Json` is `serde_json::Value`.  A number is kept as the text that it prints
as.  An object keeps its fields in the order of the map that holds them, which
is the order of the keys.  `Json.text` is the `Display` output, without blanks.

A message keeps every field but `quantum`, which nothing reads.  A timestamp
is a number of nanoseconds.
-/

namespace Xfiles

/-- A random UUID. -/
abbrev Uuid := BitVec 128

/-- A JSON value. -/
inductive Json where
  | null
  | bool (b : Bool)
  | number (text : String)
  | string (s : String)
  | array (items : List Json)
  | object (fields : List (String × Json))

namespace Json

/-- A lower-case hexadecimal digit. -/
def hexDigit (n : Nat) : Char :=
  Char.ofNat (if n < 10 then 48 + n else 87 + n)

/-- A character inside a quoted string. -/
def escapeChar (c : Char) : String :=
  match c.toNat with
  | 0x08 => "\\b"
  | 0x09 => "\\t"
  | 0x0a => "\\n"
  | 0x0c => "\\f"
  | 0x0d => "\\r"
  | 0x22 => "\\\""
  | 0x5c => "\\\\"
  | n => if n < 0x20 then "\\u00" ++ String.ofList [hexDigit (n / 16), hexDigit (n % 16)]
    else String.ofList [c]

def quote (s : String) : String :=
  "\"" ++ String.join (s.toList.map escapeChar) ++ "\""

mutual

/-- `Display`. -/
def text : Json → String
  | .null => "null"
  | .bool b => if b then "true" else "false"
  | .number t => t
  | .string s => quote s
  | .array items => "[" ++ ",".intercalate (texts items) ++ "]"
  | .object fields => "\x7b" ++ ",".intercalate (fieldTexts fields) ++ "\x7d"

def texts : List Json → List String
  | [] => []
  | item :: rest => item.text :: texts rest

def fieldTexts : List (String × Json) → List String
  | [] => []
  | (key, value) :: rest => (quote key ++ ":" ++ value.text) :: fieldTexts rest

end

/-- `Value::get` with a key. -/
def get (key : String) : Json → Option Json
  | .object fields => fields.lookup key
  | _ => none

/-- `Map::insert`, which keeps the fields in the order of the keys. -/
def insertField (key : String) (value : Json) : List (String × Json) → List (String × Json)
  | [] => [(key, value)]
  | field :: rest =>
    if key = field.1 then (key, value) :: rest
    else if key < field.1 then (key, value) :: field :: rest
    else field :: insertField key value rest

/-- `Value::as_str`. -/
def asStr : Json → Option String
  | .string s => some s
  | _ => none

end Json

/-- Header maps. -/
abbrev Headers := AList fun _ : String => String

/-- Plan 9-inspired message envelope used for all inter-agent communication. -/
structure Message where
  id : Uuid
  parentId : Option Uuid
  conversationId : Uuid
  timestamp : Int
  sender : String
  senderNs : String
  path : String
  msgType : String
  data : Json
  headers : Headers

namespace Message

/-- `Message::new`, with the two ids that `Uuid::new_v4` returns. -/
def new (sender path msgType : String) (id conversationId : Uuid) (now : Int) : Message where
  id := id
  parentId := none
  conversationId := conversationId
  timestamp := now
  sender := sender
  senderNs := "/net/unknown"
  path := path
  msgType := msgType
  data := .null
  headers := ∅

def withData (msg : Message) (data : Json) : Message :=
  { msg with data }

end Message

end Xfiles
