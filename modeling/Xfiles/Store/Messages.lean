import Mathlib.Data.List.Dedup
import Xfiles.Lib.OrderBy
import Xfiles.Message.Wire
import Xfiles.Store.Timestamps

/-!
# The table of messages

`MessageRow` is a row of the table `messages`, with the columns that the store
reads.  A message is written with `insertMessage`, and read with `tryFrom`.

* `JsonText` are the two directions of `serde_json`'s text.
* `Rfc3339Parser` is the parser of timestamps.  It reads what `toRfc3339` wrote,
  and it takes years of four digits only.

A query may return rows with one timestamp in any order, so `MessageRows` and
`ConversationRows` are relations.  `GetMessages` and `ListConversations` are the
results of the two functions, `none` where they return an error.
-/

namespace Xfiles.Store

open Wire (QuantumMetadata)
open OrderBy

variable {F64 : Type}

/-- Messages with calendar timestamps. -/
abbrev Message (F64 : Type) := Wire.Message Timestamp F64

/-- The texts of JSON values. -/
structure JsonText where
  toText : Json → String
  fromText : String → Option Json

/-- `parse_from_rfc3339`, in UTC. -/
structure Rfc3339Parser where
  parse : String → Option Timestamp
  parse_toRfc3339 : ∀ t : Timestamp, t.FourDigitYear → parse t.toRfc3339 = some t
  digits_of_parse : ∀ s t, parse s = some t → ∀ c ∈ s.toList.take 4, c.isDigit = true

/-- A parser that reads nothing but what was written. -/
noncomputable def Rfc3339Parser.exact : Rfc3339Parser where
  parse s :=
    open Classical in
    if h : ∃ t : Timestamp, t.FourDigitYear ∧ t.toRfc3339 = s then some h.choose else none
  parse_toRfc3339 t ht := by
    have h : ∃ u : Timestamp, u.FourDigitYear ∧ u.toRfc3339 = t.toRfc3339 := ⟨t, ht, rfl⟩
    rw [dif_pos h, Timestamp.eq_of_toRfc3339_eq h.choose_spec.1 ht h.choose_spec.2]
  digits_of_parse s t h := by
    split at h
    · rename_i htext
      obtain ⟨u, hyear, rfl⟩ := htext
      exact u.isDigit_of_mem_take hyear
    · exact absurd h (Option.some_ne_none t).symm

structure MessageRow where
  id : String
  parentId : Option String
  conversationId : String
  timestamp : String
  sender : String
  senderNs : String
  path : String
  msgType : String
  data : String
  headers : String
  quantum : Option String

/-! ## Writing -/

section Write

variable (texts : Texts F64) (json : JsonText)

/-- The values that are bound to the columns. -/
def toRow (msg : Message F64) : MessageRow where
  id := texts.uuid.encode msg.id
  parentId := msg.parentId.map texts.uuid.encode
  conversationId := texts.uuid.encode msg.conversationId
  timestamp := msg.timestamp.toRfc3339
  sender := msg.sender
  senderNs := msg.senderNs
  path := msg.path
  msgType := msg.msgType
  data := json.toText msg.data
  headers := json.toText ((Serde.map Serde.string).encode msg.headers)
  quantum := msg.quantum.map fun q => json.toText ((QuantumMetadata.json texts).encode q)

/-- `INSERT`, which fails when the id is taken. -/
def insertMessage (table : List MessageRow) (msg : Message F64) : Option (List MessageRow) :=
  let row := toRow texts json msg
  if row.id ∈ table.map MessageRow.id then none else some (table ++ [row])

/-- The messages written one after another. -/
def insertMessages (table : List MessageRow) (msgs : List (Message F64)) :
    Option (List MessageRow) :=
  msgs.foldlM (insertMessage texts json) table

end Write

/-- Other texts in the data columns of some ids. -/
def overwriteData (overwritten : String → Option String) (table : List MessageRow) :
    List MessageRow :=
  table.map fun row => { row with data := (overwritten row.id).getD row.data }

/-! ## Reading -/

section Read

variable (texts : Texts F64) (json : JsonText) (parser : Rfc3339Parser)

/-- `TryFrom<MessageRow>`. -/
def tryFrom (row : MessageRow) : Option (Message F64) := do
  let id ← texts.uuid.decode row.id
  let conversationId ← texts.uuid.decode row.conversationId
  let timestamp ← parser.parse row.timestamp
  return {
    id
    parentId := row.parentId.bind texts.uuid.decode
    conversationId
    timestamp
    sender := row.sender
    senderNs := row.senderNs
    path := row.path
    msgType := row.msgType
    data := (json.fromText row.data).getD .null
    headers := ((json.fromText row.headers).bind (Serde.map Serde.string).decode).getD ∅
    quantum := row.quantum.bind fun q =>
      (json.fromText q).bind (QuantumMetadata.json texts).decode }

/-- The rows with a conversation id. -/
def group (table : List MessageRow) (cid : String) : List MessageRow :=
  table.filter fun row => row.conversationId = cid

/-- The rows of a conversation, the last timestamp first. -/
def MessageRows (table : List MessageRow) (conversationId : Uuid) (limit : Int)
    (rows : List MessageRow) : Prop :=
  Selected (fun row => textBytes row.timestamp) limit
    (group table (texts.uuid.encode conversationId)) rows

/-- `get_messages_by_conversation`. -/
def GetMessages (table : List MessageRow) (conversationId : Uuid) (limit : Int)
    (result : Option (List (Message F64))) : Prop :=
  ∃ rows, MessageRows texts table conversationId limit rows ∧
    result = rows.mapM (tryFrom texts json parser)

/-- The conversations, the one with the last timestamp first. -/
def ConversationRows (table : List MessageRow) (limit : Int) (cids : List String) : Prop :=
  Selected (fun cid => maxKey (fun row => textBytes row.timestamp) (group table cid)) limit
    (table.map MessageRow.conversationId).dedup cids

/-- `list_conversations`. -/
def ListConversations (table : List MessageRow) (limit : Int)
    (result : Option (List (Uuid × Nat))) : Prop :=
  ∃ cids, ConversationRows table limit cids ∧
    result = cids.mapM fun cid =>
      (texts.uuid.decode cid).map fun id => (id, (group table cid).length)

end Read

/-! ## One row -/

section Rows

variable {texts : Texts F64} {json : JsonText} {parser : Rfc3339Parser}

/-- A year with a sign is not read. -/
theorem parse_eq_none {t : Timestamp} (h : ¬t.FourDigitYear) : parser.parse t.toRfc3339 = none := by
  rw [Option.eq_none_iff_forall_ne_some]
  intro t' hparse
  have hsign : ¬(if t.year < 0 then '-' else '+').isDigit = true := by
    split <;> decide
  apply hsign
  apply parser.digits_of_parse _ _ hparse
  rw [Timestamp.toRfc3339, String.toList_ofList, Timestamp.rfc3339, t.yearText_of_signed h]
  exact List.mem_cons_self

/-- What is read where the data column holds a text. -/
def reread (texts : Texts F64) (json : JsonText) (data : String)
    (msg : Message F64) : Message F64 :=
  { msg with
    data := (json.fromText data).getD .null
    headers := ((json.fromText (json.toText ((Serde.map Serde.string).encode msg.headers))).bind
      (Serde.map Serde.string).decode).getD ∅
    quantum := msg.quantum.bind fun q =>
      (json.fromText (json.toText ((QuantumMetadata.json texts).encode q))).bind
        (QuantumMetadata.json texts).decode }

theorem tryFrom_toRow {msg : Message F64} (h : msg.timestamp.FourDigitYear) (data : String) :
    tryFrom texts json parser { toRow texts json msg with data } =
      some (reread texts json data msg) := by
  have hid : texts.uuid.decode (texts.uuid.encode msg.id) = some msg.id :=
    texts.uuid.decode_encode _
  have hconversation : texts.uuid.decode (texts.uuid.encode msg.conversationId) =
      some msg.conversationId := texts.uuid.decode_encode _
  have hparent : (msg.parentId.map texts.uuid.encode).bind texts.uuid.decode = msg.parentId := by
    cases msg.parentId with
    | none => rfl
    | some parent => exact texts.uuid.decode_encode parent
  rw [tryFrom, toRow, hid, hconversation, parser.parse_toRfc3339 _ h, hparent, Option.bind_map]
  rfl

theorem tryFrom_toRow_eq_none {msg : Message F64} (h : ¬msg.timestamp.FourDigitYear)
    (data : String) : tryFrom texts json parser { toRow texts json msg with data } = none := by
  have hid : texts.uuid.decode (texts.uuid.encode msg.id) = some msg.id :=
    texts.uuid.decode_encode _
  have hconversation : texts.uuid.decode (texts.uuid.encode msg.conversationId) =
      some msg.conversationId := texts.uuid.decode_encode _
  rw [tryFrom, toRow, hid, hconversation, parse_eq_none h]
  rfl

/-! ## The table -/

/-- The row of a message after its data column was written again. -/
def storedRow (texts : Texts F64) (json : JsonText)
    (overwritten : String → Option String) (msg : Message F64) : MessageRow :=
  { toRow texts json msg with
    data := (overwritten (texts.uuid.encode msg.id)).getD (json.toText msg.data) }

theorem insertMessages_eq {table : List MessageRow} {msgs : List (Message F64)}
    (hids : (msgs.map Wire.Message.id).Nodup)
    (hfresh : ∀ msg ∈ msgs, texts.uuid.encode msg.id ∉ table.map MessageRow.id) :
    insertMessages texts json table msgs = some (table ++ msgs.map (toRow texts json)) := by
  induction msgs generalizing table with
  | nil => exact congrArg some (List.append_nil table).symm
  | cons msg rest ih =>
    rw [List.map_cons, List.nodup_cons] at hids
    have hinsert : insertMessage texts json table msg = some (table ++ [toRow texts json msg]) :=
      if_neg (hfresh msg List.mem_cons_self)
    have hrest : ∀ other ∈ rest,
        texts.uuid.encode other.id ∉ (table ++ [toRow texts json msg]).map MessageRow.id := by
      intro other hother hmem
      rw [List.map_append, List.mem_append, List.map_singleton, List.mem_singleton] at hmem
      rcases hmem with hold | hnew
      · exact hfresh other (List.mem_cons_of_mem _ hother) hold
      · have heq : other.id = msg.id := texts.uuid.encode_injective hnew
        exact hids.1 (heq ▸ List.mem_map_of_mem hother)
    rw [insertMessages, List.foldlM_cons, hinsert]
    show insertMessages texts json _ rest = _
    rw [ih hids.2 hrest, List.map_cons, List.append_assoc, List.singleton_append]

theorem overwriteData_none (table : List MessageRow) :
    overwriteData (fun _ => none) table = table :=
  List.map_id table

/-- The messages of a conversation. -/
def ofConversation (msgs : List (Message F64)) (cid : Uuid) : List (Message F64) :=
  msgs.filter fun msg => msg.conversationId = cid

theorem mem_ofConversation {msgs : List (Message F64)} {cid : Uuid} {msg : Message F64} :
    msg ∈ ofConversation msgs cid ↔ msg ∈ msgs ∧ msg.conversationId = cid := by
  rw [ofConversation, List.mem_filter, decide_eq_true_iff]

/-- The rows of a conversation are those of its messages. -/
theorem group_overwriteData (overwritten : String → Option String) (msgs : List (Message F64))
    (cid : Uuid) :
    group (overwriteData overwritten (msgs.map (toRow texts json))) (texts.uuid.encode cid) =
      (ofConversation msgs cid).map (storedRow texts json overwritten) := by
  have htable : overwriteData overwritten (msgs.map (toRow texts json)) =
      msgs.map (storedRow texts json overwritten) := List.map_map
  rw [group, htable, List.filter_map, ofConversation]
  congr 1
  apply List.filter_congr
  intro msg _
  exact decide_eq_decide.mpr texts.uuid.encode_injective.eq_iff

theorem group_map_toRow (msgs : List (Message F64)) (cid : Uuid) :
    group (msgs.map (toRow texts json)) (texts.uuid.encode cid) =
      (ofConversation msgs cid).map (toRow texts json) := by
  rw [← overwriteData_none (msgs.map _), group_overwriteData]
  rfl

end Rows

/-! ## Messages of new years -/

/-- The texts of `null` and of the empty object. -/
def emptyJson : JsonText where
  toText := Json.text
  fromText text :=
    if text = "null" then some .null
    else if text = "\x7b\x7d" then some (.object [])
    else none

/-- A message of the first moment of a year. -/
def newYearMessage (id : Uuid) (year : Int) : Message Nat where
  id := id
  parentId := none
  conversationId := 7
  timestamp := .newYear year
  sender := "a"
  senderNs := "/net/a"
  path := "/net/b"
  msgType := "text"
  data := .null
  headers := ∅
  quantum := none

end Xfiles.Store
