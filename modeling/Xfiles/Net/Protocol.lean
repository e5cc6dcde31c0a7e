import Xfiles.Message.Wire

/-!
# The wire protocol

`ProtocolOp` of `net/protocol.rs`, internally tagged with `"op"` in snake case,
and the two functions that write and read a frame.

* `encodeFrame` writes the tag and then the fields of the variant.  The fields
  of a flattened structure stand beside the tag.
* `parseFrame` takes the tag out and reads the variant from what is left.  A
  variant ignores the fields that it does not know.
* An array is read as well: the tag is its first element, and the others are the
  fields of the variant in their order, all of them.  A variant that flattens its
  structure needs the keys, and is not read from an array.

A frame is the JSON value, not its text.
-/

namespace Xfiles.Wire

open Record

variable {Time F64 F32 : Type}

/-- Wire protocol envelope for WebSocket and HTTP transport. -/
inductive ProtocolOp (Time F64 F32 : Type) where
  | hello (manifest : CapabilityManifest)
  | heartbeat
  | message (msg : Message Time F64)
  | response (resp : MessageResponse)
  | feedback (event : FeedbackEvent F32)
  | fsRead (path : String)
  | fsWrite (path : String) (data : List UInt8)
  | fsResult (path : String) (data : Option (List UInt8)) (error : Option String)
  | ack (messageId : Uuid)
  | nak (messageId : Uuid) (reason : Option String)
  | error (code message : String)

def bytes : Codec Json (List UInt8) := Serde.list Serde.u8

def optBytes : Codec Json (Option (List UInt8)) := Serde.nullable bytes fun _ => rfl

namespace ProtocolOp

variable (fmt : Formats Time F64 F32)

/-- The name of a variant, in snake case. -/
def tag : ProtocolOp Time F64 F32 → String
  | hello _ => "hello"
  | heartbeat => "heartbeat"
  | message _ => "message"
  | response _ => "response"
  | feedback _ => "feedback"
  | fsRead _ => "fs_read"
  | fsWrite _ _ => "fs_write"
  | fsResult _ _ _ => "fs_result"
  | ack _ => "ack"
  | nak _ _ => "nak"
  | error _ _ => "error"

/-- The fields of a variant, without the tag. -/
def fields : ProtocolOp Time F64 F32 → List (String × Json)
  | hello manifest => [("manifest", CapabilityManifest.json.encode manifest)]
  | heartbeat => []
  | message msg => msg.fields fmt
  | response resp => resp.fields fmt.toTexts
  | feedback event => event.fields fmt
  | fsRead path => [("path", Serde.string.encode path)]
  | fsWrite path data => [("path", Serde.string.encode path), ("data", bytes.encode data)]
  | fsResult path data err =>
    [("path", Serde.string.encode path), ("data", optBytes.encode data),
      ("error", optString.encode err)]
  | ack messageId => [("message_id", fmt.uuidJson.encode messageId)]
  | nak messageId reason =>
    [("message_id", fmt.uuidJson.encode messageId), ("reason", optString.encode reason)]
  | error code text =>
    [("code", Serde.string.encode code), ("message", Serde.string.encode text)]

/-- Reads the variant of a tag. -/
def ofFields (tag : String) (fields : List (String × Json)) :
    Option (ProtocolOp Time F64 F32) :=
  match tag with
  | "hello" => do
    let manifest ← required "manifest" CapabilityManifest.json.decode fields
    return hello manifest
  | "heartbeat" => some heartbeat
  | "message" => (Message.ofFields fmt fields).map message
  | "response" => (MessageResponse.ofFields fmt.toTexts fields).map response
  | "feedback" => (FeedbackEvent.ofFields fmt fields).map feedback
  | "fs_read" => do
    let path ← required "path" Serde.string.decode fields
    return fsRead path
  | "fs_write" => do
    let path ← required "path" Serde.string.decode fields
    let data ← required "data" bytes.decode fields
    return fsWrite path data
  | "fs_result" => do
    let path ← required "path" Serde.string.decode fields
    let data ← withDefault "data" none optBytes.decode fields
    let err ← withDefault "error" none optString.decode fields
    return fsResult path data err
  | "ack" => do
    let messageId ← required "message_id" fmt.uuidJson.decode fields
    return ack messageId
  | "nak" => do
    let messageId ← required "message_id" fmt.uuidJson.decode fields
    let reason ← withDefault "reason" none optString.decode fields
    return nak messageId reason
  | "error" => do
    let code ← required "code" Serde.string.decode fields
    let text ← required "message" Serde.string.decode fields
    return error code text
  | _ => none

/-- The keys of the variant of a tag in their order, where it does not flatten its
structure. -/
def keys : String → Option (List String)
  | "hello" => some ["manifest"]
  | "heartbeat" => some []
  | "fs_read" => some ["path"]
  | "fs_write" => some ["path", "data"]
  | "fs_result" => some ["path", "data", "error"]
  | "ack" => some ["message_id"]
  | "nak" => some ["message_id", "reason"]
  | "error" => some ["code", "message"]
  | _ => none

/-- Reads the variant of a tag from its fields in their order. -/
def ofItems (tag : String) (items : List Json) : Option (ProtocolOp Time F64 F32) := do
  let keys ← keys tag
  let fields ← Serde.inOrder keys keys.length items
  ofFields fmt tag fields

/-- The optional JSON value of a feedback event, when present, is not `null`. -/
def NonNull : ProtocolOp Time F64 F32 → Prop
  | feedback event => event.metadata ≠ some .null
  | _ => True

end ProtocolOp

/-- Serialize a ProtocolOp to JSON. -/
def encodeFrame (fmt : Formats Time F64 F32) (op : ProtocolOp Time F64 F32) : Json :=
  .object (("op", .string op.tag) :: op.fields fmt)

/-- Parse JSON into a ProtocolOp. -/
def parseFrame (fmt : Formats Time F64 F32) : Json → Option (ProtocolOp Time F64 F32)
  | .object all => do
    let tag ← required "op" Serde.string.decode all
    ProtocolOp.ofFields fmt tag (all.filter fun field => field.1 ≠ "op")
  | .array (tag :: items) => do
    let tag ← Serde.string.decode tag
    ProtocolOp.ofItems fmt tag items
  | _ => none

/-! ## The round trip -/

namespace ProtocolOp

variable (fmt : Formats Time F64 F32)

/-- No field has the name of the tag or of another field. -/
theorem nodup_keys (op : ProtocolOp Time F64 F32) :
    ("op" :: (op.fields fmt).map Prod.fst).Nodup := by
  cases op with
  | hello | heartbeat | fsRead | fsWrite | fsResult | ack | nak | error => simp [fields]
  | message msg => simp [fields, Message.fields]
  | response resp => simp [fields, MessageResponse.fields]
  | feedback event => simp [fields, FeedbackEvent.fields]

/-- What is left of a frame without its tag. -/
theorem filter_fields (op : ProtocolOp Time F64 F32) :
    (op.fields fmt).filter (fun field => field.1 ≠ "op") = op.fields fmt := by
  rw [List.filter_eq_self]
  intro field hfield
  have hnotMem := (List.nodup_cons.mp (op.nodup_keys fmt)).1
  exact decide_eq_true fun heq => hnotMem (heq ▸ List.mem_map_of_mem hfield)

/-- Each variant is read from its own fields. -/
theorem ofFields_fields {op : ProtocolOp Time F64 F32} (hnull : op.NonNull) :
    ofFields fmt op.tag (op.fields fmt) = some op := by
  have h : Carries (op.fields fmt) (op.fields fmt) :=
    .self (List.nodup_cons.mp (op.nodup_keys fmt)).2
  cases op with
  | hello manifest =>
    have hmanifest := h.required_encode CapabilityManifest.json List.mem_cons_self
    rw [tag, ofFields, hmanifest]
    rfl
  | heartbeat => rfl
  | message msg =>
    have hmsg : Message.ofFields fmt (fields fmt (message msg)) = some msg :=
      Message.ofFields_of_carries fmt h
    rw [tag, ofFields, hmsg]
    rfl
  | response resp =>
    have hresp : MessageResponse.ofFields fmt.toTexts (fields fmt (response resp)) = some resp :=
      MessageResponse.ofFields_of_carries fmt.toTexts h
    rw [tag, ofFields, hresp]
    rfl
  | feedback event =>
    have hevent : FeedbackEvent.ofFields fmt (fields fmt (feedback event)) = some event :=
      FeedbackEvent.ofFields_of_carries fmt h hnull
    rw [tag, ofFields, hevent]
    rfl
  | fsRead path =>
    have hpath := h.required_encode Serde.string List.mem_cons_self
    rw [tag, ofFields, hpath]
    rfl
  | fsWrite path data =>
    have hpath := h.required_encode Serde.string List.mem_cons_self
    have hdata := h.required_encode bytes (List.mem_cons_of_mem _ List.mem_cons_self)
    rw [tag, ofFields, hpath, hdata]
    rfl
  | fsResult path data err =>
    have hpath := h.required_encode Serde.string List.mem_cons_self
    have hdata := h.withDefault_encode optBytes none
      (List.mem_cons_of_mem _ List.mem_cons_self)
    have herr := h.withDefault_encode optString none
      (List.mem_cons_of_mem _ (List.mem_cons_of_mem _ List.mem_cons_self))
    rw [tag, ofFields, hpath, hdata, herr]
    rfl
  | ack messageId =>
    have hid := h.required_encode fmt.uuidJson List.mem_cons_self
    rw [tag, ofFields, hid]
    rfl
  | nak messageId reason =>
    have hid := h.required_encode fmt.uuidJson List.mem_cons_self
    have hreason := h.withDefault_encode optString none
      (List.mem_cons_of_mem _ List.mem_cons_self)
    rw [tag, ofFields, hid, hreason]
    rfl
  | error code text =>
    have hcode := h.required_encode Serde.string List.mem_cons_self
    have htext := h.required_encode Serde.string (List.mem_cons_of_mem _ List.mem_cons_self)
    rw [tag, ofFields, hcode, htext]
    rfl

end ProtocolOp

theorem parseFrame_encodeFrame (fmt : Formats Time F64 F32) {op : ProtocolOp Time F64 F32}
    (h : op.NonNull) : parseFrame fmt (encodeFrame fmt op) = some op := by
  have hall : Carries (("op", Json.string op.tag) :: op.fields fmt)
      (("op", Json.string op.tag) :: op.fields fmt) := by
    apply Carries.self
    rw [List.map_cons]
    exact op.nodup_keys fmt
  have htag := hall.required_encode Serde.string List.mem_cons_self
  have hrest : (("op", Json.string op.tag) :: op.fields fmt).filter (fun field => field.1 ≠ "op") =
      op.fields fmt := op.filter_fields fmt
  show (required "op" _ _).bind _ = _
  rw [htag, Option.bind_some, hrest]
  exact ProtocolOp.ofFields_fields fmt h

/-- What is written is read back.  Its keys are distinct, and nothing else is
written so. -/
theorem frame_roundTrip (fmt : Formats Time F64 F32) (op : ProtocolOp Time F64 F32)
    (h : op.NonNull) :
    parseFrame fmt (encodeFrame fmt op) = some op ∧
    ("op" :: (op.fields fmt).map Prod.fst).Nodup ∧
    ∀ other : ProtocolOp Time F64 F32, other.NonNull →
      encodeFrame fmt other = encodeFrame fmt op → other = op := by
  refine ⟨parseFrame_encodeFrame fmt h, op.nodup_keys fmt, ?_⟩
  intro other hother heq
  have hread := parseFrame_encodeFrame fmt hother
  rw [heq, parseFrame_encodeFrame fmt h] at hread
  exact (Option.some.inj hread).symm

/-- Formats that write timestamps and floats in decimal. -/
def decimalFormats : Formats Nat Nat Nat where
  toTexts := decimalTexts
  time := Serde.natural
  f32 := Serde.natural

/-- A feedback event with a JSON value and without a score. -/
def sampleFeedback : FeedbackEvent Nat where
  messageId := 1
  endpointId := "a"
  success := true
  latencyMs := 5
  qualityScore := none
  errorKind := none
  metadata := some (.bool true)

theorem frame_roundTrip_feedback :
    parseFrame decimalFormats (encodeFrame decimalFormats (.feedback sampleFeedback)) =
      some (.feedback sampleFeedback) :=
  (frame_roundTrip decimalFormats (.feedback sampleFeedback) (by rintro ⟨⟩)).1

end Xfiles.Wire
