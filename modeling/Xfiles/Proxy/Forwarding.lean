import Mathlib.Data.List.DropRight
import Xfiles.Ai.Endpoints
import Xfiles.Message.Values
import Xfiles.Message.Wire

/-!
# The body that is sent upstream

`chat_completions_handler` reads the request into `ChatCompletionRequest`, sets
the model, and writes the structure again.

* The structure writes all of its fields, so `stream`, `temperature`,
  `max_tokens` and `tools` are added where the request leaves them out.
* `extra` takes every other field of the request.  `ChatMessage` has no such
  field: what a message has beside `role`, `content` and `name` is lost, and so is
  a `name` that is `null`.  An array that stands for a message becomes an object.
* A temperature goes through a short float, and a number in `tools` or in `extra`
  that is no `u64` and no `i64` through a double one.

`forwards_iff` is the exact condition under which nothing but the model changes.
Bodies are compared in the order of their keys, with the text of each number.

Which endpoint is selected is an argument.
-/

namespace Xfiles.Proxy

open Record OrderedFields
open Ai (AiEndpoint)

variable {F F32 F64 : Type}

/-- How a number is read as a short float, and how one is printed.  A float that is
not finite has no number. -/
structure ShortFloats (F32 : Type) where
  ofNumber : String → Option F32
  toNumber : F32 → Option String

/-- The two kinds of floats. -/
structure Floats (F32 F64 : Type) where
  short : ShortFloats F32
  double : Json.Doubles F64

/-! ## The structures -/

structure ChatMessage where
  role : String
  content : String
  name : Option String

/-- OpenAI-compatible chat completion request. -/
structure ChatCompletionRequest (F32 : Type) where
  model : String
  messages : List ChatMessage
  stream : Bool
  temperature : Option F32
  maxTokens : Option UInt32
  tools : Option (List Json)
  /-- The fields of the object that is flattened. -/
  extra : List (String × Json)

namespace ChatMessage

def ofFields (fields : List (String × Json)) : Option ChatMessage := do
  let role ← required "role" Serde.string.decode fields
  let content ← required "content" Serde.string.decode fields
  let name ← withDefault "name" none Wire.optString.decode fields
  return { role, content, name }

/-- An array stands for the fields in their order. -/
def ofItems : List Json → Option ChatMessage
  | [role, content] => do
    return { role := ← role.asStr, content := ← content.asStr, name := none }
  | [role, content, name] => do
    return { role := ← role.asStr, content := ← content.asStr,
             name := ← Wire.optString.decode name }
  | _ => none

def decode : Json → Option ChatMessage
  | .object fields => ofFields fields
  | .array items => ofItems items
  | _ => none

/-- The fields that are written.  An absent name is skipped. -/
def fields (msg : ChatMessage) : List (String × Json) :=
  [("role", .string msg.role), ("content", .string msg.content)] ++
    (msg.name.map fun name => ("name", Json.string name)).toList

def encode (msg : ChatMessage) : Json := .object msg.fields

end ChatMessage

namespace ChatCompletionRequest

/-- A number that is printed as it stands. -/
def plainNatural : Codec String Nat where
  encode := Nat.repr
  decode text := (Serde.parseNat text).filter fun n => Nat.repr n = text
  decode_encode n := by simp [Serde.parseNat_repr]

def u32Fin : Codec (Fin (2 ^ 32)) UInt32 where
  encode := UInt32.toFin
  decode n := some (UInt32.ofFin n)
  decode_encode _ := rfl

/-- `u32`.  A JSON number has no leading zero. -/
def u32 : Codec Json UInt32 :=
  Serde.numberText.comp (plainNatural.comp ((Serde.below (2 ^ 32)).comp u32Fin))

def optU32 : Codec Json (Option UInt32) := Serde.nullable u32 fun _ => rfl

def decodeTemperature (floats : ShortFloats F32) : Json → Option (Option F32)
  | .null => some none
  | .number text => (floats.ofNumber text).map some
  | _ => none

/-- A float that is not finite is written as `null`. -/
def encodeTemperature (floats : ShortFloats F32) (temperature : Option F32) : Json :=
  ((temperature.bind floats.toNumber).map Json.number).getD .null

/-- `Value`, unless a number is out of the range. -/
def decodeValue (doubles : Json.Doubles F64) (j : Json) : Option Json :=
  if j.allNumbers doubles.reads then some (j.toValue doubles.print) else none

def decodeTools (doubles : Json.Doubles F64) : Json → Option (Option (List Json))
  | .null => some none
  | .array items => (items.mapM (decodeValue doubles)).map some
  | _ => none

def encodeTools (tools : Option (List Json)) : Json := (tools.map Json.array).getD .null

def decodeMessages : Json → Option (List ChatMessage)
  | .array items => items.mapM ChatMessage.decode
  | _ => none

/-- The keys of the fields that are not flattened. -/
def knownKeys : List String :=
  ["model", "messages", "stream", "temperature", "max_tokens", "tools"]

/-- The map of the fields that are flattened. -/
def decodeExtra (doubles : Json.Doubles F64) (fields : List (String × Json)) :
    Option (List (String × Json)) := do
  let values ← fields.mapM fun field => (decodeValue doubles field.2).map (field.1, ·)
  return collect values

def ofFields (floats : Floats F32 F64) (fields : List (String × Json)) :
    Option (ChatCompletionRequest F32) := do
  let model ← required "model" Serde.string.decode fields
  let messages ← required "messages" decodeMessages fields
  let stream ← withDefault "stream" false Serde.boolean.decode fields
  let temperature ← withDefault "temperature" none (decodeTemperature floats.short) fields
  let maxTokens ← withDefault "max_tokens" none optU32.decode fields
  let tools ← withDefault "tools" none (decodeTools floats.double) fields
  let extra ← decodeExtra floats.double (fields.filter fun field => field.1 ∉ knownKeys)
  return { model, messages, stream, temperature, maxTokens, tools, extra }

def decode (floats : Floats F32 F64) : Json → Option (ChatCompletionRequest F32)
  | .object fields => ofFields floats fields
  | _ => none

def knownFields (floats : ShortFloats F32) (req : ChatCompletionRequest F32) :
    List (String × Json) :=
  [("model", .string req.model),
    ("messages", .array (req.messages.map ChatMessage.encode)),
    ("stream", .bool req.stream),
    ("temperature", encodeTemperature floats req.temperature),
    ("max_tokens", optU32.encode req.maxTokens),
    ("tools", encodeTools req.tools)]

def encode (floats : ShortFloats F32) (req : ChatCompletionRequest F32) : Json :=
  .object (req.knownFields floats ++ req.extra)

end ChatCompletionRequest

/-! ## The handler -/

structure ProxyState (F : Type) where
  endpoints : AList fun _ : String => AiEndpoint F
  defaultModel : String
  modelAliases : AList fun _ : String => String

/-- The request to an endpoint. -/
structure UpstreamRequest where
  url : String
  headers : List (String × String)
  body : Json

inductive Answer where
  /-- The request is not read. -/
  | rejected
  | unavailable (error : String)
  | forwarded (upstream : UpstreamRequest)

namespace ProxyState

/-- The model is set to the default one, or to its alias. -/
def setModel (state : ProxyState F) (req : ChatCompletionRequest F32) :
    ChatCompletionRequest F32 :=
  if req.model.isEmpty then { req with model := state.defaultModel }
  else
    match state.modelAliases.lookup req.model with
    | some aliased => { req with model := aliased }
    | none => req

end ProxyState

/-- `trim_end_matches('/')`. -/
def trimSlashes (url : String) : String := String.ofList (url.toList.rdropWhile (· = '/'))

def upstreamRequest (floats : ShortFloats F32) (endpoint : AiEndpoint F)
    (req : ChatCompletionRequest F32) : UpstreamRequest where
  url := trimSlashes endpoint.url ++ "/v1/chat/completions"
  headers := ("content-type", "application/json") :: fieldsOf endpoint.headers
  body := req.encode floats

/-- `chat_completions_handler`, until the upstream is called. -/
def chatCompletionsHandler (floats : Floats F32 F64) (state : ProxyState F)
    (selectedId : Option String) (request : Json) : Answer :=
  match ChatCompletionRequest.decode floats request with
  | none => .rejected
  | some req =>
    let req := state.setModel req
    match selectedId with
    | none => .unavailable "no healthy AI endpoints available"
    | some endpointId =>
      match state.endpoints.lookup endpointId with
      | none => .unavailable "selected endpoint no longer exists"
      | some endpoint => .forwarded (upstreamRequest floats.short endpoint req)

/-! ## What is promised -/

/-- The model that a request is sent with. -/
def ProxyState.modelFor (state : ProxyState F) (model : String) : String :=
  if model.isEmpty then state.defaultModel else (state.modelAliases.lookup model).getD model

def ProxyState.rewrite (state : ProxyState F) (key : String) : Json → Json
  | .string s => .string (if key = "model" then state.modelFor s else s)
  | j => j

/-- The request with another model. -/
def ProxyState.rewriteModel (state : ProxyState F) (fields : List (String × Json)) : Json :=
  .object (fields.map fun field => (field.1, state.rewrite field.1 field.2))

/-- A short float prints the temperature as it stands. -/
def PrintsAlike (floats : ShortFloats F32) : Json → Prop
  | .number text => (floats.ofNumber text).bind floats.toNumber = some text
  | _ => True

/-- An object with nothing beside the fields of a message. -/
def PlainMessage : Json → Prop
  | .object fields => ∀ field ∈ fields,
    field.1 ∈ ["role", "content", "name"] ∧ (field.1 = "name" → field.2.isNull = false)
  | _ => False

instance : DecidablePred PlainMessage
  | .object fields => inferInstanceAs (Decidable (∀ field ∈ fields,
    field.1 ∈ ["role", "content", "name"] ∧ (field.1 = "name" → field.2.isNull = false)))
  | .null | .bool _ | .number _ | .string _ | .array _ => inferInstanceAs (Decidable False)

def PlainMessages : Json → Prop
  | .array items => ∀ item ∈ items, PlainMessage item
  | _ => False

instance : DecidablePred PlainMessages
  | .array items => inferInstanceAs (Decidable (∀ item ∈ items, PlainMessage item))
  | .null | .bool _ | .number _ | .string _ | .object _ => inferInstanceAs (Decidable False)

/-- Every field that is written is there, every message is plain, and every number
prints as it stands. -/
structure SpelledOut (floats : Floats F32 F64) (fields : List (String × Json)) : Prop where
  messages : ∃ j, ("messages", j) ∈ fields ∧ PlainMessages j
  stream : "stream" ∈ fields.map Prod.fst
  temperature : ∃ j, ("temperature", j) ∈ fields ∧ PrintsAlike floats.short j
  maxTokens : "max_tokens" ∈ fields.map Prod.fst
  tools : ∃ j, ("tools", j) ∈ fields ∧ j.Prints floats.double.print
  extra : ∀ key j, key ∉ ChatCompletionRequest.knownKeys → last key fields = some j →
    j.Prints floats.double.print

/-! ## Single fields -/

/-- The value under a key. -/
def valueAt (key : String) (fields : List (String × Json)) : Option Json :=
  (last key fields).map Json.sorted

theorem valueAt_eq_none {key : String} {fields : List (String × Json)} :
    valueAt key fields = none ↔ key ∉ fields.map Prod.fst := by
  rw [valueAt, Option.map_eq_none_iff, last_eq_none]

theorem valueAt_of_once {key : String} {j : Json} {fields : List (String × Json)}
    (h : find key fields = .once j) : valueAt key fields = some j.sorted := by
  rw [valueAt, last_of_once h, Option.map_some]

theorem valueAt_of_mem {key : String} {j : Json} {fields : List (String × Json)}
    (hnodup : (fields.map Prod.fst).Nodup) (h : (key, j) ∈ fields) :
    valueAt key fields = some j.sorted :=
  valueAt_of_once (find_of_mem hnodup h)

/-- A field that is read and written is the same exactly when it is there and its
value is one that is written alike. -/
theorem some_eq_valueAt_iff {T : Type} {key : String} {default x : T} {decode : Json → Option T}
    {fields : List (String × Json)} {written : Json} {P : Json → Prop}
    (h : withDefault key default decode fields = some x)
    (hread : ∀ j, decode j = some x → (written.sorted = j.sorted ↔ P j)) :
    some written.sorted = valueAt key fields ↔ ∃ j, (key, j) ∈ fields ∧ P j := by
  rcases withDefault_eq_some.mp h with ⟨habsent, -⟩ | hrequired
  · have hkey := notMem_of_find_absent habsent
    rw [valueAt_eq_none.mpr hkey]
    refine iff_of_false (Option.some_ne_none _) ?_
    rintro ⟨j, hmem, -⟩
    exact hkey (List.mem_map_of_mem hmem)
  · obtain ⟨j, honce, hdecode⟩ := required_eq_some.mp hrequired
    rw [valueAt_of_once honce, Option.some_inj, hread j hdecode]
    constructor
    · exact fun hj => ⟨j, mem_of_last (last_of_once honce), hj⟩
    · rintro ⟨j', hmem, hj'⟩
      rwa [← eq_of_find_once honce hmem]

/-- The same, where every value that is read is written alike. -/
theorem some_eq_valueAt_iff_mem {T : Type} {key : String} {default x : T}
    {decode : Json → Option T} {fields : List (String × Json)} {written : Json}
    (h : withDefault key default decode fields = some x)
    (hread : ∀ j, decode j = some x → written.sorted = j.sorted) :
    some written.sorted = valueAt key fields ↔ key ∈ fields.map Prod.fst := by
  rw [some_eq_valueAt_iff (P := fun _ => True) h fun j hj => iff_true_intro (hread j hj)]
  simp

theorem withDefault_of_required {T : Type} {key : String} (default : T) {x : T}
    {decode : Json → Option T} {fields : List (String × Json)}
    (h : required key decode fields = some x) : withDefault key default decode fields = some x :=
  withDefault_eq_some.mpr (Or.inr h)

theorem string_of_decode {j : Json} {s : String} (h : Serde.string.decode j = some s) :
    j = .string s := by
  cases j with
  | string text => exact congrArg Json.string (Option.some.inj h)
  | null | bool | number | array | object => nomatch h

theorem bool_of_decode {j : Json} {b : Bool} (h : Serde.boolean.decode j = some b) :
    j = .bool b := by
  cases j with
  | bool b' => exact congrArg Json.bool (Option.some.inj h)
  | null | string | number | array | object => nomatch h

namespace ChatCompletionRequest

theorem optU32_of_decode {j : Json} {n : Option UInt32} (h : optU32.decode j = some n) :
    optU32.encode n = j := by
  cases j with
  | null =>
    obtain rfl := Option.some.inj h
    rfl
  | number text =>
    obtain ⟨n, hn, rfl⟩ := Option.map_eq_some_iff.mp h
    obtain ⟨k, hk, hbelow⟩ := Option.bind_eq_some_iff.mp hn
    obtain ⟨htext, hprint⟩ := Option.filter_eq_some_iff.mp hk
    obtain ⟨i, hi, hfin⟩ := Option.bind_eq_some_iff.mp hbelow
    obtain rfl := Option.some.inj hfin
    have hvalue : i.val = k := by
      rw [Serde.below, Option.dite_none_right_eq_some] at hi
      obtain ⟨hlt, hi⟩ := hi
      exact congrArg Fin.val (Option.some.inj hi).symm
    show Json.number (Nat.repr i.val) = .number text
    rw [hvalue, of_decide_eq_true hprint]
  | bool | string | array | object => nomatch h

theorem sorted_encodeTemperature_iff {floats : ShortFloats F32} {j : Json} {t : Option F32}
    (h : decodeTemperature floats j = some t) :
    (encodeTemperature floats t).sorted = j.sorted ↔ PrintsAlike floats j := by
  cases j with
  | null =>
    obtain rfl := Option.some.inj h
    exact iff_of_true rfl trivial
  | number text =>
    obtain ⟨x, hx, rfl⟩ := Option.map_eq_some_iff.mp h
    rw [PrintsAlike, hx, Option.bind_some, encodeTemperature, Option.bind_some]
    cases floats.toNumber x with
    | none => simp [Json.sorted, Json.toValue]
    | some printed => simp [Json.sorted, Json.toValue]
  | bool | string | array | object => simp [decodeTemperature] at h

theorem eq_toValue_of_decodeValue {doubles : Json.Doubles F64} {j value : Json}
    (h : decodeValue doubles j = some value) : value = j.toValue doubles.print :=
  (Option.some.inj (Option.ite_none_right_eq_some.mp h).2).symm

/-- A tool is written as it was read exactly when its numbers print as they
stand. -/
theorem sorted_encodeTools_iff {doubles : Json.Doubles F64} {j : Json}
    {tools : Option (List Json)} (h : decodeTools doubles j = some tools) :
    (encodeTools tools).sorted = j.sorted ↔ j.Prints doubles.print := by
  cases j with
  | null =>
    obtain rfl := Option.some.inj h
    exact iff_of_true rfl rfl
  | array items =>
    obtain ⟨values, hvalues, rfl⟩ := Option.map_eq_some_iff.mp h
    show (Json.array values).sorted = _ ↔ _
    rw [Json.sorted_array, Json.sorted_array, Json.array.injEq, Json.prints_array]
    refine map_eq_map_iff_of_mapM hvalues fun item value hvalue => ?_
    rw [eq_toValue_of_decodeValue hvalue, Json.sorted_toValue, Json.toValue_eq_sorted_iff]
  | bool | string | number | object => nomatch h

/-- What is kept of the fields that are flattened. -/
theorem last_decodeExtra {doubles : Json.Doubles F64} {fields extra : List (String × Json)}
    (h : decodeExtra doubles fields = some extra) (key : String) :
    last key extra = (last key fields).map (Json.toValue doubles.print) := by
  obtain ⟨values, hvalues, hextra⟩ := Option.bind_eq_some_iff.mp h
  obtain rfl := Option.some.inj hextra
  have hmap : values.map id = fields.map fun field => (field.1, field.2.toValue doubles.print) := by
    refine (map_eq_map_iff_of_mapM (P := fun _ => True) hvalues fun field value hvalue => ?_).mpr
      fun _ _ => trivial
    obtain ⟨j, hj, rfl⟩ := Option.map_eq_some_iff.mp hvalue
    exact iff_true_intro (Prod.ext rfl (eq_toValue_of_decodeValue hj))
  rw [List.map_id] at hmap
  rw [last_collect, hmap, last_map]

end ChatCompletionRequest

theorem valueAt_of_string {key : String} {s : String} {fields : List (String × Json)}
    (h : required key Serde.string.decode fields = some s) :
    valueAt key fields = some (.string s) := by
  obtain ⟨j, honce, hj⟩ := required_eq_some.mp h
  rw [valueAt_of_once honce, string_of_decode hj]
  rfl

/-! ## Messages -/

namespace ChatMessage

theorem nodup_keys (msg : ChatMessage) : (msg.fields.map Prod.fst).Nodup := by
  cases hname : msg.name <;> simp [fields, hname]

theorem valueAt_fields {msg : ChatMessage} {key : String} {j : Json} (h : (key, j) ∈ msg.fields) :
    valueAt key msg.fields = some j.sorted :=
  valueAt_of_mem msg.nodup_keys h

theorem valueAt_fields_name (msg : ChatMessage) :
    valueAt "name" msg.fields = msg.name.map Json.string := by
  cases hname : msg.name <;> simp [fields, hname, valueAt, last, Json.sorted, Json.toValue]

theorem valueAt_fields_of_notMem (msg : ChatMessage) {key : String}
    (h : key ∉ ["role", "content", "name"]) : valueAt key msg.fields = none := by
  rw [valueAt_eq_none]
  cases hname : msg.name <;> simp_all [fields]

/-- A name is written as it was read unless it is `null`. -/
theorem name_eq_valueAt_iff {all : List (String × Json)} {name : Option String}
    (h : withDefault "name" none Wire.optString.decode all = some name) :
    name.map Json.string = valueAt "name" all ↔
      ∀ field ∈ all, field.1 = "name" → field.2.isNull = false := by
  rcases withDefault_eq_some.mp h with ⟨habsent, rfl⟩ | hrequired
  · have hkey := notMem_of_find_absent habsent
    rw [valueAt_eq_none.mpr hkey]
    exact iff_of_true rfl fun field hfield heq => absurd (heq ▸ List.mem_map_of_mem hfield) hkey
  · obtain ⟨j, honce, hj⟩ := required_eq_some.mp hrequired
    have hall : (∀ field ∈ all, field.1 = "name" → field.2.isNull = false) ↔ j.isNull = false := by
      constructor
      · exact fun hfields => hfields ("name", j) (mem_of_last (last_of_once honce)) rfl
      · rintro hnull ⟨key, value⟩ hfield rfl
        rwa [eq_of_find_once honce hfield]
    rw [valueAt_of_once honce, hall]
    cases j with
    | null =>
      obtain rfl := Option.some.inj hj
      exact iff_of_false (fun heq => nomatch heq) (fun heq => nomatch heq)
    | string text =>
      obtain rfl := Option.some.inj hj
      exact iff_of_true rfl rfl
    | bool | number | array | object => nomatch hj

/-- A message is written as it was read exactly when it is plain. -/
theorem sorted_encode_iff {j : Json} {msg : ChatMessage} (h : decode j = some msg) :
    msg.encode.sorted = j.sorted ↔ PlainMessage j := by
  cases j with
  | null | bool | number | string => nomatch h
  | array items =>
    rw [encode, Json.sorted_object, Json.sorted_array]
    exact iff_of_false (fun heq => nomatch heq) id
  | object all =>
    simp only [decode, ofFields, Option.bind_eq_bind, Option.bind_eq_some_iff] at h
    obtain ⟨role, hrole, content, hcontent, name, hname, hmsg⟩ := h
    obtain rfl := Option.some.inj hmsg
    show (Json.object (fields ⟨role, content, name⟩)).sorted = _ ↔ _
    rw [Json.sorted_object_eq_iff]
    constructor
    · intro hsame field hfield
      have hsame : ∀ key, valueAt key (fields ⟨role, content, name⟩) = valueAt key all := hsame
      refine ⟨?_, ?_⟩
      · by_contra hnot
        have hnone := hsame field.1
        rw [valueAt_fields_of_notMem _ hnot] at hnone
        exact valueAt_eq_none.mp hnone.symm (List.mem_map_of_mem hfield)
      · have hname' := hsame "name"
        rw [valueAt_fields_name] at hname'
        exact (name_eq_valueAt_iff hname).mp hname' field hfield
    · intro hplain key
      show valueAt key _ = valueAt key all
      by_cases hkey : key ∈ ["role", "content", "name"]
      · simp only [List.mem_cons, List.not_mem_nil, or_false] at hkey
        rcases hkey with rfl | rfl | rfl
        · rw [valueAt_of_string hrole]
          exact valueAt_fields List.mem_cons_self
        · rw [valueAt_of_string hcontent]
          exact valueAt_fields (List.mem_cons_of_mem _ List.mem_cons_self)
        · rw [valueAt_fields_name]
          exact (name_eq_valueAt_iff hname).mpr fun field hfield => (hplain field hfield).2
      · rw [valueAt_fields_of_notMem _ hkey, eq_comm, valueAt_eq_none]
        intro hmem
        obtain ⟨field, hfield, rfl⟩ := List.mem_map.mp hmem
        exact hkey (hplain field hfield).1

end ChatMessage

namespace ChatCompletionRequest

theorem sorted_messages_iff {j : Json} {msgs : List ChatMessage}
    (h : decodeMessages j = some msgs) :
    (Json.array (msgs.map ChatMessage.encode)).sorted = j.sorted ↔ PlainMessages j := by
  cases j with
  | array items =>
    rw [Json.sorted_array, Json.sorted_array, List.map_map, Json.array.injEq]
    exact map_eq_map_iff_of_mapM h fun _ _ => ChatMessage.sorted_encode_iff
  | null | bool | number | string | object => nomatch h

/-! ## The body -/

/-- What is read from the fields of a request. -/
structure ReadFrom (floats : Floats F32 F64) (fields : List (String × Json))
    (req : ChatCompletionRequest F32) : Prop where
  model : required "model" Serde.string.decode fields = some req.model
  messages : required "messages" decodeMessages fields = some req.messages
  stream : withDefault "stream" false Serde.boolean.decode fields = some req.stream
  temperature :
    withDefault "temperature" none (decodeTemperature floats.short) fields = some req.temperature
  maxTokens : withDefault "max_tokens" none optU32.decode fields = some req.maxTokens
  tools : withDefault "tools" none (decodeTools floats.double) fields = some req.tools
  extra : decodeExtra floats.double (fields.filter fun field => field.1 ∉ knownKeys) =
    some req.extra

variable {floats : Floats F32 F64} {fields : List (String × Json)}
  {req : ChatCompletionRequest F32}

theorem readFrom_of_ofFields (h : ofFields floats fields = some req) :
    ReadFrom floats fields req := by
  simp only [ofFields, Option.bind_eq_bind, Option.bind_eq_some_iff] at h
  obtain ⟨model, hmodel, messages, hmessages, stream, hstream, temperature, htemperature,
    maxTokens, hmaxTokens, tools, htools, extra, hextra, hreq⟩ := h
  obtain rfl := Option.some.inj hreq
  exact ⟨hmodel, hmessages, hstream, htemperature, hmaxTokens, htools, hextra⟩

namespace ReadFrom

variable (h : ReadFrom floats fields req)
include h

theorem last_extra (key : String) :
    last key req.extra =
      if key ∉ knownKeys then (last key fields).map (Json.toValue floats.double.print)
      else none := by
  rw [last_decodeExtra h.extra, last_filter key (fun key => key ∉ knownKeys) fields]
  by_cases hkey : key ∈ knownKeys
  · simp [hkey]
  · simp [hkey]

/-- What is flattened is what was there exactly when its numbers print as they
stand. -/
theorem valueAt_encode_of_notMem (model : String) {key : String} (hkey : key ∉ knownKeys) :
    valueAt key (({ req with model }).knownFields floats.short ++ req.extra) =
        valueAt key fields ↔
      ∀ j, last key fields = some j → j.Prints floats.double.print := by
  have hknown : last key (({ req with model }).knownFields floats.short) = none :=
    last_eq_none.mpr hkey
  rw [valueAt, last_append, hknown, Option.or_none, h.last_extra, if_pos hkey, valueAt,
    Option.map_map]
  cases last key fields with
  | none => simp
  | some j => simp [Json.sorted_toValue, Json.toValue_eq_sorted_iff]

theorem valueAt_encode_of_mem (model : String) {key : String} (hkey : key ∈ knownKeys) :
    valueAt key (({ req with model }).knownFields floats.short ++ req.extra) =
      valueAt key (({ req with model }).knownFields floats.short) := by
  rw [valueAt, last_append, h.last_extra, if_neg (not_not_intro hkey), Option.none_or, valueAt]

end ReadFrom

end ChatCompletionRequest

open ChatCompletionRequest

namespace ProxyState

variable (state : ProxyState F)

theorem setModel_eq (req : ChatCompletionRequest F32) :
    state.setModel req = { req with model := state.modelFor req.model } := by
  rw [setModel, modelFor]
  split
  · rfl
  · cases state.modelAliases.lookup req.model <;> rfl

theorem sorted_rewrite (key : String) (j : Json) :
    (state.rewrite key j).sorted = state.rewrite key j.sorted := by
  cases j <;> rfl

theorem valueAt_rewriteModel (key : String) (fields : List (String × Json)) :
    valueAt key (fields.map fun field => (field.1, state.rewrite field.1 field.2)) =
      (valueAt key fields).map (state.rewrite key) := by
  rw [valueAt, last_mapWithKey, valueAt, Option.map_map, Option.map_map]
  exact Option.map_congr fun j _ => state.sorted_rewrite key j

/-- Nothing is rewritten but the model. -/
theorem rewrite_of_ne {key : String} (h : key ≠ "model") (j : Json) : state.rewrite key j = j := by
  cases j with
  | string s => rw [rewrite, if_neg h]
  | null | bool | number | array | object => rfl

theorem map_rewrite_of_ne {key : String} (h : key ≠ "model") (found : Option Json) :
    found.map (state.rewrite key) = found := by
  rw [funext (state.rewrite_of_ne h)]
  exact Option.map_id'

end ProxyState

namespace ChatCompletionRequest

/-- What is written under a key of the structure. -/
theorem valueAt_knownFields {floats : ShortFloats F32} {req : ChatCompletionRequest F32}
    {key : String} {j : Json} (h : (key, j) ∈ req.knownFields floats) :
    valueAt key (req.knownFields floats) = some j.sorted := by
  have hnodup : knownKeys.Nodup := by decide
  exact valueAt_of_mem hnodup h

namespace ReadFrom

variable {floats : Floats F32 F64} {fields : List (String × Json)}
  {req : ChatCompletionRequest F32} (h : ReadFrom floats fields req)
include h

/-- What is read is as it was, the model apart, exactly when the request is spelled
out. -/
theorem spelledOut_iff (model : String) :
    (∀ key ≠ "model",
      valueAt key (({ req with model }).knownFields floats.short ++ req.extra) =
        valueAt key fields) ↔ SpelledOut floats fields := by
  have hmessages := some_eq_valueAt_iff (withDefault_of_required [] h.messages)
    fun _ => sorted_messages_iff
  have hstream := some_eq_valueAt_iff_mem h.stream fun j hj =>
    congrArg Json.sorted (bool_of_decode hj).symm
  have htemperature := some_eq_valueAt_iff h.temperature fun _ => sorted_encodeTemperature_iff
  have hmaxTokens := some_eq_valueAt_iff_mem h.maxTokens fun j hj =>
    congrArg Json.sorted (optU32_of_decode hj)
  have htools := some_eq_valueAt_iff h.tools fun _ => sorted_encodeTools_iff
  have hwritten : ∀ {key : String} {j : Json},
      (key, j) ∈ ({ req with model }).knownFields floats.short →
        valueAt key (({ req with model }).knownFields floats.short ++ req.extra) =
          some j.sorted := by
    intro key j hmem
    have hkey : key ∈ knownKeys := List.mem_map_of_mem (f := Prod.fst) hmem
    rw [h.valueAt_encode_of_mem model hkey, valueAt_knownFields hmem]
  constructor
  · intro hkeep
    have hkept : ∀ {key : String} {j : Json},
        (key, j) ∈ ({ req with model }).knownFields floats.short → key ≠ "model" →
          some j.sorted = valueAt key fields := by
      intro key j hmem hne
      rw [← hwritten hmem, hkeep key hne]
    refine ⟨hmessages.mp (hkept (by simp [knownFields]) (by decide)),
      hstream.mp (hkept (by simp [knownFields]) (by decide)),
      htemperature.mp (hkept (by simp [knownFields]) (by decide)),
      hmaxTokens.mp (hkept (by simp [knownFields]) (by decide)),
      htools.mp (hkept (by simp [knownFields]) (by decide)), fun key j hkey => ?_⟩
    have hne : key ≠ "model" := fun heq => hkey (heq ▸ by decide)
    exact (h.valueAt_encode_of_notMem model hkey).mp (hkeep key hne) j
  · intro hspelled key hne
    by_cases hkey : key ∈ knownKeys
    · simp only [knownKeys, List.mem_cons, List.not_mem_nil, or_false] at hkey
      rcases hkey with rfl | rfl | rfl | rfl | rfl | rfl
      · exact absurd rfl hne
      · exact (hwritten (by simp [knownFields])).trans (hmessages.mpr hspelled.messages)
      · exact (hwritten (by simp [knownFields])).trans (hstream.mpr hspelled.stream)
      · exact (hwritten (by simp [knownFields])).trans (htemperature.mpr hspelled.temperature)
      · exact (hwritten (by simp [knownFields])).trans (hmaxTokens.mpr hspelled.maxTokens)
      · exact (hwritten (by simp [knownFields])).trans (htools.mpr hspelled.tools)
    · exact (h.valueAt_encode_of_notMem model hkey).mpr fun j => hspelled.extra key j hkey

end ReadFrom

end ChatCompletionRequest

/-- The body is the request with another model exactly when the request is spelled
out. -/
theorem sorted_body_iff (state : ProxyState F) {floats : Floats F32 F64}
    {fields : List (String × Json)} {req : ChatCompletionRequest F32}
    (h : ReadFrom floats fields req) :
    ((state.setModel req).encode floats.short).sorted = (state.rewriteModel fields).sorted ↔
      SpelledOut floats fields := by
  rw [state.setModel_eq, encode, ProxyState.rewriteModel, Json.sorted_object_eq_iff,
    ← h.spelledOut_iff (state.modelFor req.model)]
  constructor
  · intro hsame key hne
    have hbody : valueAt key _ = valueAt key _ := hsame key
    rwa [state.valueAt_rewriteModel, state.map_rewrite_of_ne hne] at hbody
  · intro hkeep key
    show valueAt key _ = valueAt key _
    rw [state.valueAt_rewriteModel]
    by_cases hmodel : key = "model"
    · subst hmodel
      rw [h.valueAt_encode_of_mem _ (by decide), valueAt_knownFields List.mem_cons_self,
        valueAt_of_string h.model, Option.map_some, ProxyState.rewrite, if_pos rfl]
      rfl
    · rw [state.map_rewrite_of_ne hmodel, hkeep key hmodel]

/-- What the handler sends is the request that it read. -/
theorem body_of_forwarded {floats : Floats F32 F64} {state : ProxyState F}
    {selectedId : Option String} {fields : List (String × Json)} {upstream : UpstreamRequest}
    (h : chatCompletionsHandler floats state selectedId (.object fields) = .forwarded upstream) :
    ∃ req, ReadFrom floats fields req ∧
      upstream.body = (state.setModel req).encode floats.short := by
  rw [chatCompletionsHandler] at h
  split at h
  · nomatch h
  · rename_i req hread
    refine ⟨req, readFrom_of_ofFields hread, ?_⟩
    split at h
    · nomatch h
    · split at h
      · nomatch h
      · rw [← Answer.forwarded.inj h]
        rfl

/-- The body that is sent is the request with another model, up to the order of the
keys, exactly when the request is spelled out. -/
theorem forwards_iff (floats : Floats F32 F64) (state : ProxyState F)
    (selectedId : Option String) (fields : List (String × Json)) (upstream : UpstreamRequest)
    (h : chatCompletionsHandler floats state selectedId (.object fields) = .forwarded upstream) :
    upstream.body.sorted = (state.rewriteModel fields).sorted ↔ SpelledOut floats fields := by
  obtain ⟨req, hread, hbody⟩ := body_of_forwarded h
  rw [hbody]
  exact sorted_body_iff state hread

/-! ### Samples -/

/-- Floats that are kept as they are written. -/
def writtenFloats : Floats String String where
  short := { ofNumber := some, toNumber := some }
  double := { ofNumber := some, toNumber := id }

def sampleEndpoint : AiEndpoint Nat where
  id := "ep-a"
  name := "ep-a"
  url := "http://127.0.0.1:8000/"
  endpointType := .inference
  weight := 1
  tags := []
  headers := ∅
  health := .new 0

def sampleState : ProxyState Nat where
  endpoints := AList.singleton "ep-a" sampleEndpoint
  defaultModel := "kimi-k2.6"
  modelAliases := AList.singleton "default" "kimi-k2.6"

/-- A request with one message and every other field. -/
def requestWith (message : List (String × Json)) : List (String × Json) :=
  [("model", .string "default"), ("messages", .array [.object message]), ("stream", .bool true),
    ("temperature", .number "0.5"), ("max_tokens", .null),
    ("tools", .array [.object [("limit", .number "4")]]), ("top_p", .number "0.9")]

/-- The answer of a tool. -/
def toolMessage : List (String × Json) :=
  [("role", .string "tool"), ("content", .string "4"), ("tool_call_id", .string "c1")]

/-- The answer of a tool is sent without the call that it answers. -/
theorem tool_call_id_is_lost :
    ∃ upstream,
      chatCompletionsHandler writtenFloats sampleState (some "ep-a")
        (.object (requestWith toolMessage)) = .forwarded upstream ∧
      upstream.body.sorted ≠ (sampleState.rewriteModel (requestWith toolMessage)).sorted := by
  refine ⟨_, rfl, fun heq => ?_⟩
  exact absurd (congrArg Json.text heq) (by decide +kernel)

def userMessage : List (String × Json) :=
  [("role", .string "user"), ("content", .string "hi")]

theorem forwards_iff_user :
    ∃ upstream,
      chatCompletionsHandler writtenFloats sampleState (some "ep-a")
        (.object (requestWith userMessage)) = .forwarded upstream ∧
      upstream.body.sorted = (sampleState.rewriteModel (requestWith userMessage)).sorted := by
  have hspelled : SpelledOut writtenFloats (requestWith userMessage) := by
    refine ⟨⟨.array [.object userMessage], by simp [requestWith], by decide⟩, by decide,
      ⟨.number "0.5", by simp [requestWith], rfl⟩, by decide,
      ⟨.array [.object [("limit", .number "4")]], by simp [requestWith], by decide⟩,
      fun key j hkey hlast => ?_⟩
    have hmem := mem_of_last hlast
    simp only [requestWith, List.mem_cons, Prod.mk.injEq, List.not_mem_nil, or_false] at hmem
    rcases hmem with ⟨rfl, rfl⟩ | ⟨rfl, rfl⟩ | ⟨rfl, rfl⟩ | ⟨rfl, rfl⟩ | ⟨rfl, rfl⟩ |
      ⟨rfl, rfl⟩ | ⟨rfl, rfl⟩
    · exact absurd (by decide) hkey
    · exact absurd (by decide) hkey
    · exact absurd (by decide) hkey
    · exact absurd (by decide) hkey
    · exact absurd (by decide) hkey
    · exact absurd (by decide) hkey
    · decide
  exact ⟨_, rfl, (forwards_iff writtenFloats sampleState (some "ep-a") _ _ rfl).mpr hspelled⟩

end Xfiles.Proxy
