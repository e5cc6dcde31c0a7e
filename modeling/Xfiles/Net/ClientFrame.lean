import Xfiles.Net.Protocol

/-!
# The frame of the shipped client

The README and the WebSocket client put the type of a message under the key
`"type"`.  The decoder of `Message` reads it under the name of the field,
`msg_type`, which is required.

* `Frame` is a frame of the client's shape, in any order of the keys, with the
  key of the type as a parameter.
* `parseFrame_eq` is what the decoder makes of such a frame.
* `never_accepted` is the result: under `"type"` no frame is accepted, and under
  `"msg_type"` the same frame is.
-/

namespace Xfiles.Wire

open Record

variable {Time F64 F32 : Type}

/-- The keys of the client's frame. -/
def clientKeys (typeKey : String) : List String :=
  ["op", "id", "conversation_id", "timestamp", "sender", "sender_ns", "path", typeKey, "data",
    "headers"]

/-- The object carries the values of the message under the keys of the client's
frame, in some order. -/
structure Frame (fmt : Formats Time F64 F32) (typeKey : String) (all : List (String × Json))
    (msg : Message Time F64) : Prop where
  keys : (all.map Prod.fst).Perm (clientKeys typeKey)
  op : ("op", Json.string "message") ∈ all
  id : ∃ j, ("id", j) ∈ all ∧ fmt.uuidJson.decode j = some msg.id
  conversationId :
    ∃ j, ("conversation_id", j) ∈ all ∧ fmt.uuidJson.decode j = some msg.conversationId
  timestamp : ∃ j, ("timestamp", j) ∈ all ∧ fmt.timeJson.decode j = some msg.timestamp
  sender : ("sender", Json.string msg.sender) ∈ all
  senderNs : ("sender_ns", Json.string msg.senderNs) ∈ all
  path : ("path", Json.string msg.path) ∈ all
  msgType : (typeKey, Json.string msg.msgType) ∈ all
  data : ("data", msg.data) ∈ all
  headers : ∃ j, ("headers", j) ∈ all ∧ (Serde.map Serde.string).decode j = some msg.headers
  parentId : msg.parentId = none
  quantum : msg.quantum = none

namespace Frame

variable {fmt : Formats Time F64 F32} {typeKey : String} {all : List (String × Json)}
  {msg : Message Time F64}

/-- The fields beside the tag. -/
def rest (all : List (String × Json)) : List (String × Json) :=
  all.filter fun field => field.1 ≠ "op"

theorem mem_rest {key : String} {value : Json} (hkey : key ≠ "op") (h : (key, value) ∈ all) :
    (key, value) ∈ rest all :=
  List.mem_filter.mpr ⟨h, decide_eq_true hkey⟩

theorem nodup (h : Frame fmt typeKey all msg) (hkeys : (clientKeys typeKey).Nodup) :
    (all.map Prod.fst).Nodup :=
  h.keys.nodup_iff.mpr hkeys

/-- A field beside the tag is read from its value. -/
theorem required_eq {T : Type} (h : Frame fmt typeKey all msg)
    (hkeys : (clientKeys typeKey).Nodup) {key : String} {value : Json} (hkey : key ≠ "op")
    (hmem : (key, value) ∈ all) (decode : Json → Option T) :
    required key decode (rest all) = decode value := by
  have hsub : ((rest all).map Prod.fst).Sublist (all.map Prod.fst) :=
    List.filter_sublist.map Prod.fst
  have hnodup := hsub.nodup (h.nodup hkeys)
  rw [required, find_of_mem hnodup (mem_rest hkey hmem)]

/-- A key that the client does not send is not there. -/
theorem find_absent (h : Frame fmt typeKey all msg) {key : String}
    (hkey : key ∉ clientKeys typeKey) : find key (rest all) = .absent := by
  refine find_of_notMem fun hmem => hkey (h.keys.subset ?_)
  exact (List.filter_sublist.map Prod.fst).subset hmem

theorem parseFrame_eq (h : Frame fmt typeKey all msg) (hkeys : (clientKeys typeKey).Nodup) :
    parseFrame fmt (.object all) = (Message.ofFields fmt (rest all)).map .message := by
  have htag : required "op" Serde.string.decode all = some "message" := by
    rw [required, find_of_mem (h.nodup hkeys) h.op]
    rfl
  show (required "op" Serde.string.decode all).bind _ = _
  rw [htag]
  rfl

end Frame

theorem nodup_clientKeys_type : (clientKeys "type").Nodup := by decide

theorem nodup_clientKeys_msgType : (clientKeys "msg_type").Nodup := by decide

/-- Without `msg_type` there is no message. -/
theorem ofFields_eq_none (fmt : Formats Time F64 F32) {fields : List (String × Json)}
    (h : find "msg_type" fields = .absent) : Message.ofFields fmt fields = none := by
  have hmsgType : required "msg_type" Serde.string.decode fields = none := by
    rw [required, h]
  unfold Message.ofFields
  rw [hmsgType]
  simp

/-- The client's frame is not a message. -/
theorem parseFrame_type {fmt : Formats Time F64 F32} {all : List (String × Json)}
    {msg : Message Time F64} (h : Frame fmt "type" all msg) :
    parseFrame fmt (.object all) = none := by
  rw [h.parseFrame_eq nodup_clientKeys_type,
    ofFields_eq_none fmt (h.find_absent (by decide)), Option.map_none]

/-- With the name of the field it would be. -/
theorem parseFrame_msgType {fmt : Formats Time F64 F32} {all : List (String × Json)}
    {msg : Message Time F64} (h : Frame fmt "msg_type" all msg) :
    parseFrame fmt (.object all) = some (.message msg) := by
  have hkeys := nodup_clientKeys_msgType
  obtain ⟨id, hid, hidValue⟩ := h.id
  obtain ⟨conversation, hconversation, hconversationValue⟩ := h.conversationId
  obtain ⟨time, htime, htimeValue⟩ := h.timestamp
  obtain ⟨headers, hheaders, hheadersValue⟩ := h.headers
  have hparent : withDefault "parent_id" none (optUuid fmt.toTexts).decode (Frame.rest all) =
      some msg.parentId := by
    rw [withDefault, h.find_absent (by decide), h.parentId]
  have hquantum : withDefault "quantum" none (Message.optQuantum fmt).decode (Frame.rest all) =
      some msg.quantum := by
    rw [withDefault, h.find_absent (by decide), h.quantum]
  have hheadersField : withDefault "headers" ∅ (Serde.map Serde.string).decode (Frame.rest all) =
      some msg.headers := by
    rw [withDefault_eq_some, h.required_eq hkeys (by decide) hheaders]
    exact Or.inr hheadersValue
  rw [h.parseFrame_eq hkeys, Message.ofFields, hparent, hquantum, hheadersField,
    h.required_eq hkeys (by decide) hid, h.required_eq hkeys (by decide) hconversation,
    h.required_eq hkeys (by decide) htime, h.required_eq hkeys (by decide) h.sender,
    h.required_eq hkeys (by decide) h.senderNs, h.required_eq hkeys (by decide) h.path,
    h.required_eq hkeys (by decide) h.msgType, h.required_eq hkeys (by decide) h.data,
    hidValue, hconversationValue, htimeValue]
  rfl

/-- No frame of the client's shape is accepted, whatever its values and the
order of its keys.  Under the name of the field the same frame is read as the
message. -/
theorem never_accepted (fmt : Formats Time F64 F32) (all : List (String × Json))
    (msg : Message Time F64) :
    (Frame fmt "type" all msg → parseFrame fmt (.object all) = none) ∧
      (Frame fmt "msg_type" all msg → parseFrame fmt (.object all) = some (.message msg)) :=
  ⟨parseFrame_type, parseFrame_msgType⟩

/-- The test message of the client. -/
def testMsg : Message Nat Nat where
  id := 1
  parentId := none
  conversationId := 2
  timestamp := 3
  sender := "bot"
  senderNs := "/net/bot"
  path := "/ai/inference"
  msgType := "llm_request"
  data := .object [("prompt", .string "Explain quantum computing in one sentence.")]
  headers := ∅
  quantum := none

/-- It in the client's order. -/
def testFrame : List (String × Json) :=
  [("op", .string "message"), ("id", decimalFormats.uuidJson.encode testMsg.id),
    ("conversation_id", decimalFormats.uuidJson.encode testMsg.conversationId),
    ("timestamp", decimalFormats.timeJson.encode testMsg.timestamp),
    ("sender", .string testMsg.sender), ("sender_ns", .string testMsg.senderNs),
    ("path", .string testMsg.path), ("type", .string testMsg.msgType), ("data", testMsg.data),
    ("headers", .object [])]

theorem frame_testFrame : Frame decimalFormats "type" testFrame testMsg where
  keys := List.Perm.refl _
  op := by simp [testFrame]
  id := ⟨_, by simp [testFrame], decimalFormats.uuidJson.decode_encode _⟩
  conversationId := ⟨_, by simp [testFrame], decimalFormats.uuidJson.decode_encode _⟩
  timestamp := ⟨_, by simp [testFrame], decimalFormats.timeJson.decode_encode _⟩
  sender := by simp [testFrame]
  senderNs := by simp [testFrame]
  path := by simp [testFrame]
  msgType := by simp [testFrame]
  data := by simp [testFrame]
  headers := ⟨.object [], by simp [testFrame], (Serde.map Serde.string).decode_encode ∅⟩
  parentId := rfl
  quantum := rfl

theorem test_frame_rejected :
    ¬ ∀ (all : List (String × Json)) (msg : Message Nat Nat), Frame decimalFormats "type" all msg →
        parseFrame decimalFormats (.object all) = some (.message msg) := by
  intro h
  have haccepted := h testFrame testMsg frame_testFrame
  rw [parseFrame_type frame_testFrame] at haccepted
  exact nomatch haccepted

end Xfiles.Wire
