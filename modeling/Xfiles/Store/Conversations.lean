import Xfiles.Store.Recency

/-!
# The routes of conversations

`GetConversation`, `ConversationMessages` and `ConversationList` are the answers
of the three routes.  The daemon serves the last two under other names.

A message is read when its year has four digits.  One whose year has a sign is
not, and its text stands before those of all others, so a query finds it last.
One message is read for `get_conversation` and a hundred for
`conversation_messages`: the first fails when no message of the conversation can
be read, the second when fewer can be read than it shows (`GetConversation.cases`,
`ConversationMessages.cases`).

Both look at one table, and so does the list of conversations
(`ConversationList.listed`).
-/

namespace Xfiles.Store

open Record OrderBy

variable {F64 : Type}

inductive Answer (Body : Type) where
  | ok (body : Body)
  | error (status : Nat) (text : String)

/-- The fields of a message that are shown. -/
structure ShownMessage where
  id : Uuid
  parentId : Option Uuid
  conversationId : Uuid
  timestamp : Timestamp
  sender : String
  path : String
  msgType : String
  data : Json

def shown (msg : Message F64) : ShownMessage where
  id := msg.id
  parentId := msg.parentId
  conversationId := msg.conversationId
  timestamp := msg.timestamp
  sender := msg.sender
  path := msg.path
  msgType := msg.msgType
  data := msg.data

section Routes

variable (texts : Texts F64) (json : JsonText) (parser : Rfc3339Parser)

/-- `get_conversation`.  The body is the id and the number of messages that were
read. -/
def GetConversation (table : List MessageRow) (id : String) (answer : Answer (Uuid × Nat)) :
    Prop :=
  match texts.uuid.decode id with
  | none => answer = .error 400 "invalid uuid"
  | some cid =>
    ∃ result, GetMessages texts json parser table cid 1 result ∧
      match result with
      | some [] => answer = .error 404 "conversation not found"
      | some msgs => answer = .ok (cid, msgs.length)
      | none => ∃ text, answer = .error 500 text

/-- `conversation_messages`, and `conversation_messages_handler`. -/
def ConversationMessages (table : List MessageRow) (id : String)
    (answer : Answer (List ShownMessage)) : Prop :=
  match texts.uuid.decode id with
  | none => answer = .error 400 "invalid uuid"
  | some cid =>
    ∃ result, GetMessages texts json parser table cid 100 result ∧
      match result with
      | some msgs => answer = .ok (msgs.map shown)
      | none => ∃ text, answer = .error 500 text

/-- `list_conversations` of the API, and `conversations_handler`. -/
def ConversationList (table : List MessageRow) (answer : Answer (List (Uuid × Nat))) : Prop :=
  ∃ result, ListConversations texts table 100 result ∧
    match result with
    | some convs => answer = .ok convs
    | none => ∃ text, answer = .error 500 text

end Routes

variable {texts : Texts F64} {json : JsonText} {parser : Rfc3339Parser}

/-! ## One conversation -/

/-- The messages of a conversation that can be read. -/
def readable (msgs : List (Message F64)) (cid : Uuid) : List (Message F64) :=
  (ofConversation msgs cid).filter fun msg => msg.timestamp.FourDigitYear

section Conversation

variable {stored : List (Message F64)} {cid : Uuid} {limit : Int}

/-- A query reads its messages when there are enough that can be read, and fails
otherwise. -/
theorem GetMessages.cases {result : Option (List (Message F64))}
    (h : GetMessages texts json parser (stored.map (toRow texts json)) cid limit result) :
    (limitedCount limit (ofConversation stored cid).length ≤ (readable stored cid).length ∧
      ∃ chosen : List (Message F64), result = some (chosen.map (asRead texts json)) ∧
        chosen.length = limitedCount limit (ofConversation stored cid).length) ∨
    ((readable stored cid).length < limitedCount limit (ofConversation stored cid).length ∧
      result = none) := by
  obtain ⟨rows, hrows, rfl⟩ := h
  rw [MessageRows, group_map_toRow] at hrows
  obtain ⟨chosen, rfl, hchosen⟩ : ∃ chosen, rows = chosen.map (toRow texts json) ∧
      Selected (fun msg : Message F64 => textBytes msg.timestamp.toRfc3339) limit
        (ofConversation stored cid) chosen := hrows.of_map fun _ _ _ _ hle => hle
  have hall := hchosen.forall_iff (p := fun msg => msg.timestamp.FourDigitYear)
    fun a _ b _ ha hb => Timestamp.textBytes_lt_of_signed hb ha
  by_cases hread : ∀ msg ∈ chosen, msg.timestamp.FourDigitYear
  · left
    refine ⟨hall.mp hread, chosen, ?_, hchosen.length⟩
    exact mapM_map_eq_some fun msg hmsg => tryFrom_toRow (hread msg hmsg) _
  · right
    refine ⟨not_le.mp fun hle => hread (hall.mpr hle), ?_⟩
    push Not at hread
    obtain ⟨msg, hmsg, hyear⟩ := hread
    exact mapM_eq_none (List.mem_map_of_mem hmsg) (tryFrom_toRow_eq_none hyear _)

theorem length_readable_le (stored : List (Message F64)) (cid : Uuid) :
    (readable stored cid).length ≤ (ofConversation stored cid).length :=
  List.length_filter_le _ _

/-- The three answers about a conversation, and when each is given. -/
theorem GetConversation.cases {id : String} {answer : Answer (Uuid × Nat)}
    (h : GetConversation texts json parser (stored.map (toRow texts json)) id answer)
    (hid : texts.uuid.decode id = some cid) :
    (ofConversation stored cid = [] ∧ answer = .error 404 "conversation not found") ∨
    (readable stored cid ≠ [] ∧ answer = .ok (cid, 1)) ∨
    (ofConversation stored cid ≠ [] ∧ readable stored cid = [] ∧
      ∃ text, answer = .error 500 text) := by
  rw [GetConversation, hid] at h
  obtain ⟨result, hresult, hanswer⟩ := h
  have hone : limitedCount 1 (ofConversation stored cid).length =
      min 1 (ofConversation stored cid).length := rfl
  rw [← List.length_pos_iff, ← List.length_pos_iff, ← List.length_eq_zero_iff,
    ← List.length_eq_zero_iff]
  have hle := length_readable_le stored cid
  rcases hresult.cases with ⟨henough, chosen, rfl, hlength⟩ | ⟨hfew, rfl⟩
  · rw [hone] at henough hlength
    cases chosen with
    | nil =>
      left
      rw [List.length_nil] at hlength
      exact ⟨by omega, hanswer⟩
    | cons msg rest =>
      right; left
      rw [List.length_cons] at hlength
      have hrest : rest.length = 0 := by omega
      obtain rfl := List.eq_nil_of_length_eq_zero hrest
      exact ⟨by omega, hanswer⟩
  · right; right
    rw [hone] at hfew
    exact ⟨by omega, by omega, hanswer⟩

/-- All messages that are asked for are shown, or none. -/
theorem ConversationMessages.cases {id : String} {answer : Answer (List ShownMessage)}
    (h : ConversationMessages texts json parser (stored.map (toRow texts json)) id answer)
    (hid : texts.uuid.decode id = some cid) :
    (min 100 (ofConversation stored cid).length ≤ (readable stored cid).length ∧
      ∃ msgs, answer = .ok msgs ∧ msgs.length = min 100 (ofConversation stored cid).length) ∨
    ((readable stored cid).length < min 100 (ofConversation stored cid).length ∧
      ∃ text, answer = .error 500 text) := by
  rw [ConversationMessages, hid] at h
  obtain ⟨result, hresult, hanswer⟩ := h
  rcases hresult.cases with ⟨henough, chosen, rfl, hlength⟩ | ⟨hfew, rfl⟩
  · left
    refine ⟨henough, _, hanswer, ?_⟩
    rw [List.length_map, List.length_map]
    exact hlength
  · exact .inr ⟨hfew, hanswer⟩

/-- When `get_conversation` gives each of its answers. -/
theorem GetConversation.statuses {id : String} {answer : Answer (Uuid × Nat)}
    (h : GetConversation texts json parser (stored.map (toRow texts json)) id answer)
    (hid : texts.uuid.decode id = some cid) :
    (answer = .error 404 "conversation not found" ↔ ofConversation stored cid = []) ∧
    (answer = .ok (cid, 1) ↔ readable stored cid ≠ []) ∧
    ((∃ text, answer = .error 500 text) ↔
      ofConversation stored cid ≠ [] ∧ readable stored cid = []) := by
  have hempty : ofConversation stored cid = [] → readable stored cid = [] := by
    intro hnone
    rw [readable, hnone]
    rfl
  rcases h.cases hid with ⟨hnone, rfl⟩ | ⟨hread, rfl⟩ | ⟨hsome, hread, text, rfl⟩
  · simp [hnone, hempty hnone]
  · simp [hread, mt hempty hread]
  · simp [hsome, hread]

/-- When `conversation_messages` shows messages, and when it fails. -/
theorem ConversationMessages.statuses {id : String} {answer : Answer (List ShownMessage)}
    (h : ConversationMessages texts json parser (stored.map (toRow texts json)) id answer)
    (hid : texts.uuid.decode id = some cid) :
    ((∃ msgs, answer = .ok msgs ∧ msgs.length = min 100 (ofConversation stored cid).length) ↔
      min 100 (ofConversation stored cid).length ≤ (readable stored cid).length) ∧
    ((∃ text, answer = .error 500 text) ↔
      (readable stored cid).length < min 100 (ofConversation stored cid).length) := by
  rcases h.cases hid with ⟨henough, msgs, rfl, hlength⟩ | ⟨hfew, text, rfl⟩
  · simp only [Answer.ok.injEq, exists_eq_left', hlength, henough, not_lt.mpr henough, reduceCtorEq,
      exists_false, and_self]
  · simp only [hfew, not_le.mpr hfew, reduceCtorEq, false_and, exists_false, Answer.error.injEq,
      true_and, exists_eq']

end Conversation

/-! ## The list of conversations -/

theorem mem_conversations {msgs : List (Message F64)} {cid : Uuid} :
    cid ∈ conversations msgs ↔ ofConversation msgs cid ≠ [] := by
  rw [conversations, List.mem_dedup, List.mem_map, ofConversation, Ne, List.filter_eq_nil_iff]
  simp only [decide_eq_true_eq, not_forall, not_not, exists_prop]

theorem ConversationList.exists_answer (texts : Texts F64) (table : List MessageRow) :
    ∃ answer, ConversationList texts table answer := by
  let read := fun cid => (texts.uuid.decode cid).map fun id => (id, (group table cid).length)
  obtain ⟨cids, hcids⟩ : ∃ cids, ConversationRows table 100 cids := ⟨_, selected_select _ _ _⟩
  cases hread : cids.mapM read with
  | none => exact ⟨.error 500 "", none, ⟨cids, hcids, hread.symm⟩, "", rfl⟩
  | some convs => exact ⟨.ok convs, some convs, ⟨cids, hcids, hread.symm⟩, rfl⟩

/-- The list never fails.  It shows conversations with messages, each once and with
the number of its messages, and it shows all of them up to a hundred. -/
theorem ConversationList.listed {stored : List (Message F64)} {answer : Answer (List (Uuid × Nat))}
    (h : ConversationList texts (stored.map (toRow texts json)) answer) :
    ∃ cids : List Uuid,
      answer = .ok (cids.map fun cid => (cid, (ofConversation stored cid).length)) ∧
      cids.Nodup ∧ (∀ cid ∈ cids, ofConversation stored cid ≠ []) ∧
      cids.length = min 100 (conversations stored).length ∧
      ((conversations stored).length ≤ 100 → cids.Perm (conversations stored)) := by
  obtain ⟨result, ⟨rows, hrows, rfl⟩, hanswer⟩ := h
  have hids : ((stored.map (toRow texts json)).map MessageRow.conversationId).dedup =
      (conversations stored).map texts.uuid.encode := by
    rw [List.map_map, conversations, ← List.dedup_map_of_injective texts.uuid.encode_injective,
      List.map_map]
    rfl
  rw [ConversationRows, hids] at hrows
  obtain ⟨cids, rfl, hcids⟩ : ∃ cids, rows = cids.map texts.uuid.encode ∧
      Selected (fun cid => maxKey (fun row => textBytes row.timestamp)
        (group (stored.map (toRow texts json)) (texts.uuid.encode cid))) 100
        (conversations stored) cids := hrows.of_map fun _ _ _ _ hle => hle
  have hread : (cids.map texts.uuid.encode).mapM (fun cid =>
      (texts.uuid.decode cid).map fun id =>
        (id, (group (stored.map (toRow texts json)) cid).length)) =
      some (cids.map fun cid => (cid, (ofConversation stored cid).length)) := by
    apply mapM_map_eq_some
    intro cid _
    rw [texts.uuid.decode_encode, group_map_toRow, List.length_map]
    rfl
  rw [hread] at hanswer
  exact ⟨cids, hanswer, hcids.nodup (List.nodup_dedup _),
    fun cid hcid => mem_conversations.mp (hcids.subset hcid), hcids.length,
    fun hfew => hcids.perm (.inr (by exact_mod_cast hfew))⟩

end Xfiles.Store
