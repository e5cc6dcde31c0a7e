import Xfiles.Message.Codec

/-!
# The structures of `message.rs` on the wire

Each structure is written as its fields, under the names of the source, and is
read from a list of fields that may hold others as well.

* A field of type `Option` may be missing in an object, and is `null` when it is
  `none`.
* The structures that no variant of a frame flattens are read from arrays as well.
* `headers`, `quantum` and the metadata of a capability have a default.
* `FeedbackEvent.metadata` is an optional JSON value.  `Some(Value::Null)` is
  written like `None`.

The type of timestamps is a parameter, as is that of floats.
-/

namespace Xfiles.Wire

open Record

variable {Time F64 F32 : Type}

/-! ## Structures -/

/-- Carried on messages when quantum mode is active. -/
structure QuantumMetadata (F64 : Type) where
  amplitudes : AList fun _ : String => F64
  collapsedTo : Option String
  entangled : Bool
  entanglementId : Option Uuid

/-- The message envelope, `quantum` included. -/
structure Message (Time F64 : Type) where
  id : Uuid
  parentId : Option Uuid
  conversationId : Uuid
  timestamp : Time
  sender : String
  senderNs : String
  path : String
  msgType : String
  data : Json
  headers : Headers
  quantum : Option (QuantumMetadata F64)

inductive DispatchStatus where
  | routed
  | queued
  | dropped
  | error

/-- Response envelope from the hub. -/
structure MessageResponse where
  messageId : Uuid
  status : DispatchStatus
  routedTo : List String
  explanation : Option String
  latencyMs : UInt64

structure Capability where
  name : String
  version : String
  paths : List String
  metadata : AList fun _ : String => Json

/-- Agent capability manifest sent during registration. -/
structure CapabilityManifest where
  agentId : String
  hostname : String
  capabilities : List Capability
  preferredNamespace : Option String

/-- Feedback event for learning loops. -/
structure FeedbackEvent (F32 : Type) where
  messageId : Uuid
  endpointId : String
  success : Bool
  latencyMs : UInt64
  qualityScore : Option F32
  errorKind : Option String
  metadata : Option Json

/-! ## Optional values -/

def optString : Codec Json (Option String) := Serde.nullable Serde.string fun _ => rfl

def optUuid (texts : Texts F64) : Codec Json (Option Uuid) :=
  Serde.nullable texts.uuidJson fun _ => rfl

def optF32 (fmt : Formats Time F64 F32) : Codec Json (Option F32) :=
  Serde.nullable fmt.f32Json fun _ => rfl

/-- `Option<serde_json::Value>`. -/
def encodeOptValue : Option Json → Json
  | none => .null
  | some j => j

def decodeOptValue (j : Json) : Option (Option Json) :=
  if j.isNull then some none else some (some j)

theorem decodeOptValue_encodeOptValue {j : Option Json} (h : j ≠ some .null) :
    decodeOptValue (encodeOptValue j) = some j := by
  rcases j with _ | j
  · rfl
  · cases j with
    | null => exact absurd rfl h
    | bool | number | string | array | object => rfl

/-! ## Quantum metadata -/

namespace QuantumMetadata

variable (texts : Texts F64)

def fields (q : QuantumMetadata F64) : List (String × Json) :=
  [("amplitudes", (Serde.map texts.f64Json).encode q.amplitudes),
    ("collapsed_to", optString.encode q.collapsedTo),
    ("entangled", Serde.boolean.encode q.entangled),
    ("entanglement_id", (optUuid texts).encode q.entanglementId)]

def ofFields (fields : List (String × Json)) : Option (QuantumMetadata F64) := do
  let amplitudes ← required "amplitudes" (Serde.map texts.f64Json).decode fields
  let collapsedTo ← withDefault "collapsed_to" none optString.decode fields
  let entangled ← required "entangled" Serde.boolean.decode fields
  let entanglementId ← withDefault "entanglement_id" none (optUuid texts).decode fields
  return { amplitudes, collapsedTo, entangled, entanglementId }

theorem ofFields_of_carries {all : List (String × Json)} {q : QuantumMetadata F64}
    (h : Carries all (q.fields texts)) : ofFields texts all = some q := by
  have hamplitudes : required "amplitudes" (Serde.map texts.f64Json).decode all =
      some q.amplitudes := h.required_encode _ (by simp [fields])
  have hcollapsed : withDefault "collapsed_to" none optString.decode all = some q.collapsedTo :=
    h.withDefault_encode _ _ (by simp [fields])
  have hentangled : required "entangled" Serde.boolean.decode all = some q.entangled :=
    h.required_encode _ (by simp [fields])
  have hentanglement : withDefault "entanglement_id" none (optUuid texts).decode all =
      some q.entanglementId := h.withDefault_encode _ _ (by simp [fields])
  rw [ofFields, hamplitudes, hcollapsed, hentangled, hentanglement]
  rfl

def keys : List String := ["amplitudes", "collapsed_to", "entangled", "entanglement_id"]

def json : Codec Json (QuantumMetadata F64) := (Serde.structFields keys 4).comp
  { encode := fields texts
    decode := ofFields texts
    decode_encode := fun _ => ofFields_of_carries texts (.self (by simp [fields])) }

end QuantumMetadata

/-! ## Messages -/

namespace Message

variable (fmt : Formats Time F64 F32)

def optQuantum : Codec Json (Option (QuantumMetadata F64)) :=
  Serde.nullable (QuantumMetadata.json fmt.toTexts) fun _ => rfl

def fields (m : Message Time F64) : List (String × Json) :=
  [("id", fmt.uuidJson.encode m.id),
    ("parent_id", (optUuid fmt.toTexts).encode m.parentId),
    ("conversation_id", fmt.uuidJson.encode m.conversationId),
    ("timestamp", fmt.timeJson.encode m.timestamp),
    ("sender", Serde.string.encode m.sender),
    ("sender_ns", Serde.string.encode m.senderNs),
    ("path", Serde.string.encode m.path),
    ("msg_type", Serde.string.encode m.msgType),
    ("data", Serde.value.encode m.data),
    ("headers", (Serde.map Serde.string).encode m.headers),
    ("quantum", (optQuantum fmt).encode m.quantum)]

def ofFields (fields : List (String × Json)) : Option (Message Time F64) := do
  let id ← required "id" fmt.uuidJson.decode fields
  let parentId ← withDefault "parent_id" none (optUuid fmt.toTexts).decode fields
  let conversationId ← required "conversation_id" fmt.uuidJson.decode fields
  let timestamp ← required "timestamp" fmt.timeJson.decode fields
  let sender ← required "sender" Serde.string.decode fields
  let senderNs ← required "sender_ns" Serde.string.decode fields
  let path ← required "path" Serde.string.decode fields
  let msgType ← required "msg_type" Serde.string.decode fields
  let data ← required "data" Serde.value.decode fields
  let headers ← withDefault "headers" ∅ (Serde.map Serde.string).decode fields
  let quantum ← withDefault "quantum" none (optQuantum fmt).decode fields
  return { id, parentId, conversationId, timestamp, sender, senderNs, path, msgType, data,
           headers, quantum }

theorem ofFields_of_carries {all : List (String × Json)} {m : Message Time F64}
    (h : Carries all (m.fields fmt)) : ofFields fmt all = some m := by
  have hid : required "id" fmt.uuidJson.decode all = some m.id :=
    h.required_encode _ (by simp [fields])
  have hparent : withDefault "parent_id" none (optUuid fmt.toTexts).decode all = some m.parentId :=
    h.withDefault_encode _ _ (by simp [fields])
  have hconversation : required "conversation_id" fmt.uuidJson.decode all =
      some m.conversationId := h.required_encode _ (by simp [fields])
  have htimestamp : required "timestamp" fmt.timeJson.decode all = some m.timestamp :=
    h.required_encode _ (by simp [fields])
  have hsender : required "sender" Serde.string.decode all = some m.sender :=
    h.required_encode _ (by simp [fields])
  have hsenderNs : required "sender_ns" Serde.string.decode all = some m.senderNs :=
    h.required_encode _ (by simp [fields])
  have hpath : required "path" Serde.string.decode all = some m.path :=
    h.required_encode _ (by simp [fields])
  have hmsgType : required "msg_type" Serde.string.decode all = some m.msgType :=
    h.required_encode _ (by simp [fields])
  have hdata : required "data" Serde.value.decode all = some m.data :=
    h.required_encode _ (by simp [fields])
  have hheaders : withDefault "headers" ∅ (Serde.map Serde.string).decode all =
      some m.headers := h.withDefault_encode _ _ (by simp [fields])
  have hquantum : withDefault "quantum" none (optQuantum fmt).decode all = some m.quantum :=
    h.withDefault_encode _ _ (by simp [fields])
  rw [ofFields, hid, hparent, hconversation, htimestamp, hsender, hsenderNs, hpath, hmsgType,
    hdata, hheaders, hquantum]
  rfl

end Message

/-! ## Responses -/

namespace DispatchStatus

/-- The name of a status, in snake case. -/
def name : DispatchStatus → String
  | routed => "routed"
  | queued => "queued"
  | dropped => "dropped"
  | error => "error"

def ofName : String → Option DispatchStatus
  | "routed" => some routed
  | "queued" => some queued
  | "dropped" => some dropped
  | "error" => some error
  | _ => none

/-- What stands for the unit beside the name of a variant. -/
def isUnit : Json → Bool
  | .null => true
  | .object [] => true
  | _ => false

/-- The name, or an object with the name as its only key. -/
def decode : Json → Option DispatchStatus
  | .string name => ofName name
  | .object [(name, content)] => if isUnit content then ofName name else none
  | _ => none

def json : Codec Json DispatchStatus where
  encode status := .string status.name
  decode := decode
  decode_encode status := by cases status <;> rfl

end DispatchStatus

namespace MessageResponse

variable (texts : Texts F64)

def fields (resp : MessageResponse) : List (String × Json) :=
  [("message_id", texts.uuidJson.encode resp.messageId),
    ("status", DispatchStatus.json.encode resp.status),
    ("routed_to", (Serde.list Serde.string).encode resp.routedTo),
    ("explanation", optString.encode resp.explanation),
    ("latency_ms", Serde.u64.encode resp.latencyMs)]

def ofFields (fields : List (String × Json)) : Option MessageResponse := do
  let messageId ← required "message_id" texts.uuidJson.decode fields
  let status ← required "status" DispatchStatus.json.decode fields
  let routedTo ← required "routed_to" (Serde.list Serde.string).decode fields
  let explanation ← withDefault "explanation" none optString.decode fields
  let latencyMs ← required "latency_ms" Serde.u64.decode fields
  return { messageId, status, routedTo, explanation, latencyMs }

theorem ofFields_of_carries {all : List (String × Json)} {resp : MessageResponse}
    (h : Carries all (resp.fields texts)) : ofFields texts all = some resp := by
  have hid : required "message_id" texts.uuidJson.decode all = some resp.messageId :=
    h.required_encode _ (by simp [fields])
  have hstatus : required "status" DispatchStatus.json.decode all = some resp.status :=
    h.required_encode _ (by simp [fields])
  have hrouted : required "routed_to" (Serde.list Serde.string).decode all =
      some resp.routedTo := h.required_encode _ (by simp [fields])
  have hexplanation : withDefault "explanation" none optString.decode all =
      some resp.explanation := h.withDefault_encode _ _ (by simp [fields])
  have hlatency : required "latency_ms" Serde.u64.decode all = some resp.latencyMs :=
    h.required_encode _ (by simp [fields])
  rw [ofFields, hid, hstatus, hrouted, hexplanation, hlatency]
  rfl

end MessageResponse

/-! ## Manifests -/

namespace Capability

def fields (cap : Capability) : List (String × Json) :=
  [("name", Serde.string.encode cap.name),
    ("version", Serde.string.encode cap.version),
    ("paths", (Serde.list Serde.string).encode cap.paths),
    ("metadata", (Serde.map Serde.value).encode cap.metadata)]

def ofFields (fields : List (String × Json)) : Option Capability := do
  let name ← required "name" Serde.string.decode fields
  let version ← required "version" Serde.string.decode fields
  let paths ← required "paths" (Serde.list Serde.string).decode fields
  let metadata ← withDefault "metadata" ∅ (Serde.map Serde.value).decode fields
  return { name, version, paths, metadata }

theorem ofFields_of_carries {all : List (String × Json)} {cap : Capability}
    (h : Carries all cap.fields) : ofFields all = some cap := by
  have hname : required "name" Serde.string.decode all = some cap.name :=
    h.required_encode _ (by simp [fields])
  have hversion : required "version" Serde.string.decode all = some cap.version :=
    h.required_encode _ (by simp [fields])
  have hpaths : required "paths" (Serde.list Serde.string).decode all = some cap.paths :=
    h.required_encode _ (by simp [fields])
  have hmetadata : withDefault "metadata" ∅ (Serde.map Serde.value).decode all =
      some cap.metadata := h.withDefault_encode _ _ (by simp [fields])
  rw [ofFields, hname, hversion, hpaths, hmetadata]
  rfl

def keys : List String := ["name", "version", "paths", "metadata"]

def json : Codec Json Capability := (Serde.structFields keys 3).comp
  { encode := fields
    decode := ofFields
    decode_encode := fun _ => ofFields_of_carries (.self (by simp [fields])) }

end Capability

namespace CapabilityManifest

def fields (manifest : CapabilityManifest) : List (String × Json) :=
  [("agent_id", Serde.string.encode manifest.agentId),
    ("hostname", Serde.string.encode manifest.hostname),
    ("capabilities", (Serde.list Capability.json).encode manifest.capabilities),
    ("preferred_namespace", optString.encode manifest.preferredNamespace)]

def ofFields (fields : List (String × Json)) : Option CapabilityManifest := do
  let agentId ← required "agent_id" Serde.string.decode fields
  let hostname ← required "hostname" Serde.string.decode fields
  let capabilities ← required "capabilities" (Serde.list Capability.json).decode fields
  let preferredNamespace ← withDefault "preferred_namespace" none optString.decode fields
  return { agentId, hostname, capabilities, preferredNamespace }

theorem ofFields_of_carries {all : List (String × Json)} {manifest : CapabilityManifest}
    (h : Carries all manifest.fields) : ofFields all = some manifest := by
  have hagent : required "agent_id" Serde.string.decode all = some manifest.agentId :=
    h.required_encode _ (by simp [fields])
  have hhostname : required "hostname" Serde.string.decode all = some manifest.hostname :=
    h.required_encode _ (by simp [fields])
  have hcapabilities : required "capabilities" (Serde.list Capability.json).decode all =
      some manifest.capabilities := h.required_encode _ (by simp [fields])
  have hpreferred : withDefault "preferred_namespace" none optString.decode all =
      some manifest.preferredNamespace := h.withDefault_encode _ _ (by simp [fields])
  rw [ofFields, hagent, hhostname, hcapabilities, hpreferred]
  rfl

def keys : List String := ["agent_id", "hostname", "capabilities", "preferred_namespace"]

def json : Codec Json CapabilityManifest := (Serde.structFields keys 4).comp
  { encode := fields
    decode := ofFields
    decode_encode := fun _ => ofFields_of_carries (.self (by simp [fields])) }

end CapabilityManifest

/-! ## Feedback -/

namespace FeedbackEvent

variable (fmt : Formats Time F64 F32)

def fields (event : FeedbackEvent F32) : List (String × Json) :=
  [("message_id", fmt.uuidJson.encode event.messageId),
    ("endpoint_id", Serde.string.encode event.endpointId),
    ("success", Serde.boolean.encode event.success),
    ("latency_ms", Serde.u64.encode event.latencyMs),
    ("quality_score", (optF32 fmt).encode event.qualityScore),
    ("error_kind", optString.encode event.errorKind),
    ("metadata", encodeOptValue event.metadata)]

def ofFields (fields : List (String × Json)) : Option (FeedbackEvent F32) := do
  let messageId ← required "message_id" fmt.uuidJson.decode fields
  let endpointId ← required "endpoint_id" Serde.string.decode fields
  let success ← required "success" Serde.boolean.decode fields
  let latencyMs ← required "latency_ms" Serde.u64.decode fields
  let qualityScore ← withDefault "quality_score" none (optF32 fmt).decode fields
  let errorKind ← withDefault "error_kind" none optString.decode fields
  let metadata ← withDefault "metadata" none decodeOptValue fields
  return { messageId, endpointId, success, latencyMs, qualityScore, errorKind, metadata }

theorem ofFields_of_carries {all : List (String × Json)} {event : FeedbackEvent F32}
    (h : Carries all (event.fields fmt)) (hmetadata : event.metadata ≠ some .null) :
    ofFields fmt all = some event := by
  have hid : required "message_id" fmt.uuidJson.decode all = some event.messageId :=
    h.required_encode _ (by simp [fields])
  have hendpoint : required "endpoint_id" Serde.string.decode all = some event.endpointId :=
    h.required_encode _ (by simp [fields])
  have hsuccess : required "success" Serde.boolean.decode all = some event.success :=
    h.required_encode _ (by simp [fields])
  have hlatency : required "latency_ms" Serde.u64.decode all = some event.latencyMs :=
    h.required_encode _ (by simp [fields])
  have hquality : withDefault "quality_score" none (optF32 fmt).decode all =
      some event.qualityScore := h.withDefault_encode _ _ (by simp [fields])
  have herror : withDefault "error_kind" none optString.decode all = some event.errorKind :=
    h.withDefault_encode _ _ (by simp [fields])
  have hvalue : withDefault "metadata" none decodeOptValue all = some event.metadata :=
    (h.withDefault (by simp [fields]) _ _).trans (decodeOptValue_encodeOptValue hmetadata)
  rw [ofFields, hid, hendpoint, hsuccess, hlatency, hquality, herror, hvalue]
  rfl

end FeedbackEvent

end Xfiles.Wire
