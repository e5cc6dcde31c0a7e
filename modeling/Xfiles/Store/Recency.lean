import Xfiles.Store.Messages

/-!
# Queries in the order of time

The two queries sort by the text of a timestamp.  For years in `0..9999` the
texts stand in the order of the instants, so both return what they are meant to:
the last messages of a conversation, and the conversations by their last
message.
-/

namespace Xfiles.Store

open Record OrderBy

variable {F64 : Type}

/-- The conversations that there are messages of. -/
def conversations (msgs : List (Message F64)) : List Uuid :=
  (msgs.map Wire.Message.conversationId).dedup

/-- The time of the last message of a conversation. -/
def latest (msgs : List (Message F64)) (cid : Uuid) : WithBot (Int ×ₗ Nat ×ₗ Nat) :=
  maxKey (fun msg => msg.timestamp.instant) (ofConversation msgs cid)

/-- A message as its own row is read. -/
def asRead (texts : Texts F64) (json : JsonText) (msg : Message F64) : Message F64 :=
  reread texts json (json.toText msg.data) msg

section Queries

variable {texts : Texts F64} {json : JsonText} {parser : Rfc3339Parser}
  {msgs : List (Message F64)} (hyears : ∀ msg ∈ msgs, msg.timestamp.FourDigitYear)
include hyears

theorem instant_le_of_textBytes_le {a b : Message F64} (ha : a ∈ msgs) (hb : b ∈ msgs)
    (h : textBytes a.timestamp.toRfc3339 ≤ textBytes b.timestamp.toRfc3339) :
    a.timestamp.instant ≤ b.timestamp.instant := by
  rw [← not_lt] at h ⊢
  rwa [Timestamp.textBytes_lt_iff (hyears b hb) (hyears a ha)] at h

/-- The newest messages, read from their rows. -/
theorem GetMessages.highest {cid : Uuid} {limit : Int} {result : Option (List (Message F64))}
    (h : GetMessages texts json parser (msgs.map (toRow texts json)) cid limit result) :
    ∃ newest, result = some (newest.map (asRead texts json)) ∧
      Highest (fun msg => msg.timestamp.instant) limit (ofConversation msgs cid) newest := by
  obtain ⟨rows, hrows, rfl⟩ := h
  rw [MessageRows, group_map_toRow] at hrows
  have hkey : ∀ a ∈ ofConversation msgs cid, ∀ b ∈ ofConversation msgs cid,
      textBytes (toRow texts json a).timestamp ≤ textBytes (toRow texts json b).timestamp →
        a.timestamp.instant ≤ b.timestamp.instant := fun a ha b hb hle =>
    instant_le_of_textBytes_le hyears (mem_ofConversation.mp ha).1 (mem_ofConversation.mp hb).1 hle
  obtain ⟨newest, rfl, hnewest⟩ := hrows.of_map hkey
  refine ⟨newest, ?_, hnewest.highest⟩
  apply mapM_map_eq_some
  intro msg hmsg
  exact tryFrom_toRow (hyears msg (mem_ofConversation.mp (hnewest.subset hmsg)).1) _

/-- The conversations with the newest messages, and the number of messages in each. -/
theorem ListConversations.highest {limit : Int} {result : Option (List (Uuid × Nat))}
    (h : ListConversations texts (msgs.map (toRow texts json)) limit result) :
    ∃ ranked, result = some (ranked.map fun cid => (cid, (ofConversation msgs cid).length)) ∧
      Highest (latest msgs) limit (conversations msgs) ranked := by
  obtain ⟨cids, hcids, rfl⟩ := h
  have hids : ((msgs.map (toRow texts json)).map MessageRow.conversationId).dedup =
      (conversations msgs).map texts.uuid.encode := by
    rw [List.map_map, conversations, ← List.dedup_map_of_injective texts.uuid.encode_injective,
      List.map_map]
    rfl
  rw [ConversationRows, hids] at hcids
  have hkey : ∀ a b : Uuid,
      maxKey (fun row => textBytes row.timestamp)
        (group (msgs.map (toRow texts json)) (texts.uuid.encode a)) ≤
      maxKey (fun row => textBytes row.timestamp)
        (group (msgs.map (toRow texts json)) (texts.uuid.encode b)) →
      latest msgs a ≤ latest msgs b := by
    intro a b hle
    rw [group_map_toRow, group_map_toRow, maxKey, maxKey, List.map_map, List.map_map] at hle
    refine maxKey_le hle ?_
    intro x hx y hy
    exact instant_le_of_textBytes_le hyears (mem_ofConversation.mp hx).1
      (mem_ofConversation.mp hy).1
  obtain ⟨ranked, rfl, hranked⟩ := hcids.of_map fun a _ b _ => hkey a b
  refine ⟨ranked, ?_, hranked.highest⟩
  apply mapM_map_eq_some
  intro cid _
  rw [texts.uuid.decode_encode, group_map_toRow, List.length_map]
  rfl

end Queries

/-- Texts stand in the order of the instants, and the two queries return what is
newest. -/
theorem newest_first (texts : Texts F64) (json : JsonText) (parser : Rfc3339Parser)
    (msgs : List (Message F64)) (hids : (msgs.map Wire.Message.id).Nodup)
    (hyears : ∀ msg ∈ msgs, msg.timestamp.FourDigitYear) :
    (∀ t u : Timestamp, t.FourDigitYear → u.FourDigitYear →
      (textBytes t.toRfc3339 < textBytes u.toRfc3339 ↔ t.instant < u.instant)) ∧
    ∃ table, insertMessages texts json [] msgs = some table ∧
      (∀ cid limit result, GetMessages texts json parser table cid limit result →
        ∃ newest, result = some (newest.map (asRead texts json)) ∧
          Highest (fun msg => msg.timestamp.instant) limit (ofConversation msgs cid) newest) ∧
      ∀ limit result, ListConversations texts table limit result →
        ∃ ranked, result = some (ranked.map fun cid => (cid, (ofConversation msgs cid).length)) ∧
          Highest (latest msgs) limit (conversations msgs) ranked := by
  refine ⟨fun t u ht hu => Timestamp.textBytes_lt_iff ht hu, msgs.map (toRow texts json),
    insertMessages_eq hids (by simp), ?_, ?_⟩
  · intro cid limit result h
    exact h.highest hyears
  · intro limit result h
    exact h.highest hyears

theorem newest_first_newYears :
    ∃ table, insertMessages decimalTexts emptyJson []
        [newYearMessage 1 2023, newYearMessage 2 2024] = some table ∧
      ∀ result, GetMessages decimalTexts emptyJson .exact table 7 1 result →
        ∃ newest, result = some (newest.map (asRead decimalTexts emptyJson)) ∧
          Highest (fun msg => msg.timestamp.instant) 1
            (ofConversation [newYearMessage 1 2023, newYearMessage 2 2024] 7) newest := by
  obtain ⟨-, table, hinsert, hget, -⟩ := newest_first decimalTexts emptyJson .exact
    [newYearMessage 1 2023, newYearMessage 2 2024] (by decide) (by decide)
  exact ⟨table, hinsert, hget 7 1⟩

end Xfiles.Store
