import Xfiles.Lib.Transition
import Xfiles.Store.Conversations

/-!
# Messages on their way to the table

`msg_handler` and `send_message` spawn a task that inserts the message, and
answer without it.  The tasks run in any order, and each fails on its own: its
error is logged, and nothing else.  `Log` is the table beside the tasks that did
not run yet.

`Stores` is the invariant.  The rows are those of accepted messages, one for an
id, and the id of every accepted message is in the table unless its task still
waits or failed.  Once all tasks have run, neither their order nor a message that
was sent twice can be seen in the answers about conversations
(`answers_converge`).
-/

namespace Xfiles.Store

open Transition OrderBy

variable {F64 : Type}

/-- `accepted` are the messages that were answered, and `lost` those that the
database did not take. -/
structure Log (F64 : Type) where
  table : List MessageRow
  pending : List (Message F64)
  accepted : List (Message F64)
  lost : List (Message F64)

inductive LogEvent (F64 : Type) where
  | post (msg : Message F64)
  | persist (n : Nat)
  | fail (n : Nat)

namespace Log

/-- No message was sent. -/
def empty : Log F64 := ⟨[], [], [], []⟩

section Step

variable (texts : Texts F64) (json : JsonText)

/-- A message is sent, or a waiting task runs or fails. -/
def step (log : Log F64) : LogEvent F64 → Option (Log F64)
  | .post msg =>
    some { log with pending := log.pending ++ [msg], accepted := log.accepted ++ [msg] }
  | .persist n => log.pending[n]?.map fun msg =>
    { log with
      table := (insertMessage texts json log.table msg).getD log.table
      pending := log.pending.eraseIdx n }
  | .fail n => log.pending[n]?.map fun msg =>
    { log with pending := log.pending.eraseIdx n, lost := log.lost ++ [msg] }

/-- What is in the table, and where the other accepted messages are. -/
structure Stores (log : Log F64) (stored : List (Message F64)) : Prop where
  table : log.table = stored.map (toRow texts json)
  ids : (stored.map Wire.Message.id).Nodup
  stored_accepted : stored ⊆ log.accepted
  pending_accepted : log.pending ⊆ log.accepted
  covered : ∀ msg ∈ log.accepted,
    msg.id ∈ stored.map Wire.Message.id ∨ msg ∈ log.pending ∨ msg ∈ log.lost

end Step

/-- All tasks have run. -/
def Settled (log : Log F64) : Prop := log.pending = [] ∧ log.lost = []

variable {texts : Texts F64} {json : JsonText} {parser : Rfc3339Parser}

/-- Where the accepted messages are when a task takes its message. -/
theorem Stores.taken {log : Log F64} {stored : List (Message F64)}
    (h : log.Stores texts json stored) {n : Nat} {msg : Message F64}
    (hn : log.pending[n]? = some msg) :
    ∀ other ∈ log.accepted, other = msg ∨ other.id ∈ stored.map Wire.Message.id ∨
      other ∈ log.pending.eraseIdx n ∨ other ∈ log.lost := by
  intro other hother
  rcases h.covered other hother with hid | hwaits | hlost
  · exact .inr (.inl hid)
  · obtain ⟨m, hm⟩ := List.mem_iff_getElem?.mp hwaits
    by_cases hnm : m = n
    · rw [hnm, hn] at hm
      exact .inl (Option.some.inj hm).symm
    · exact .inr (.inr (.inl (List.mem_eraseIdx_iff_getElem?.mpr ⟨m, hnm, hm⟩)))
  · exact .inr (.inr (.inr hlost))

theorem Stores.insertMessage {log : Log F64} {stored : List (Message F64)}
    (h : log.Stores texts json stored) (msg : Message F64) :
    insertMessage texts json log.table msg =
      if msg.id ∈ stored.map Wire.Message.id then none
      else some ((stored ++ [msg]).map (toRow texts json)) := by
  have htaken : texts.uuid.encode msg.id ∈ log.table.map MessageRow.id ↔
      msg.id ∈ stored.map Wire.Message.id := by
    rw [h.table, List.map_map]
    show texts.uuid.encode msg.id ∈ stored.map (texts.uuid.encode ∘ Wire.Message.id) ↔ _
    rw [← List.map_map, List.mem_map_of_injective texts.uuid.encode_injective]
  rw [Store.insertMessage]
  refine if_congr htaken rfl ?_
  rw [h.table, List.map_append]
  rfl

/-- A step keeps the account. -/
theorem Stores.step {log next : Log F64} {event : LogEvent F64} {stored : List (Message F64)}
    (h : log.Stores texts json stored) (hstep : log.step texts json event = some next) :
    ∃ stored', next.Stores texts json stored' := by
  cases event with
  | post msg =>
    obtain rfl := Option.some.inj hstep
    refine ⟨stored, h.table, h.ids, ?_, ?_, ?_⟩
    · exact fun other hother => List.mem_append_left _ (h.stored_accepted hother)
    · exact List.append_subset.mpr
        ⟨fun other hother => List.mem_append_left _ (h.pending_accepted hother),
          List.subset_append_right _ _⟩
    · intro other hother
      rcases List.mem_append.mp hother with hold | hnew
      · rcases h.covered other hold with hid | hpending | hlost
        · exact .inl hid
        · exact .inr (.inl (List.mem_append_left _ hpending))
        · exact .inr (.inr hlost)
      · exact .inr (.inl (List.mem_append_right _ hnew))
  | persist n =>
    obtain ⟨msg, hmsg, rfl⟩ := Option.map_eq_some_iff.mp hstep
    have haccepted := h.pending_accepted (List.mem_of_getElem? hmsg)
    have hpending : log.pending.eraseIdx n ⊆ log.accepted :=
      fun other hother => h.pending_accepted (List.mem_of_mem_eraseIdx hother)
    rw [h.insertMessage]
    split
    · -- A row with this id is in the table.
      rename_i htaken
      refine ⟨stored, h.table, h.ids, h.stored_accepted, hpending, ?_⟩
      intro other hother
      rcases h.taken hmsg other hother with rfl | hrest
      · exact .inl htaken
      · exact hrest
    · rename_i hfree
      refine ⟨stored ++ [msg], rfl, ?_, ?_, hpending, ?_⟩
      · rw [List.map_append, List.map_singleton, List.nodup_append_comm]
        exact List.nodup_cons.mpr ⟨hfree, h.ids⟩
      · exact List.append_subset.mpr
          ⟨h.stored_accepted, List.cons_subset.mpr ⟨haccepted, List.nil_subset _⟩⟩
      · intro other hother
        rw [List.map_append, List.mem_append]
        rcases h.taken hmsg other hother with rfl | hid | hrest
        · exact .inl (.inr List.mem_cons_self)
        · exact .inl (.inl hid)
        · exact .inr hrest
  | fail n =>
    obtain ⟨msg, hmsg, rfl⟩ := Option.map_eq_some_iff.mp hstep
    refine ⟨stored, h.table, h.ids, h.stored_accepted,
      fun other hother => h.pending_accepted (List.mem_of_mem_eraseIdx hother), ?_⟩
    intro other hother
    rcases h.taken hmsg other hother with rfl | hid | hwaits | hlost
    · exact .inr (.inr (List.mem_append_right _ List.mem_cons_self))
    · exact .inl hid
    · exact .inr (.inl hwaits)
    · exact .inr (.inr (List.mem_append_left _ hlost))

theorem stores_of_run {events : List (LogEvent F64)} {log : Log F64}
    (hrun : run (step texts json) empty events = some log) :
    ∃ stored, log.Stores texts json stored := by
  apply invariant_of_run (I := fun log => ∃ stored, log.Stores texts json stored) ?_ ?_ hrun
  · intro log event next hlog hstep
    obtain ⟨stored, hstored⟩ := hlog
    exact hstored.step hstep
  · exact ⟨[], rfl, List.nodup_nil, List.nil_subset _, List.nil_subset _,
      fun msg hmsg => absurd hmsg List.not_mem_nil⟩

/-- Where equal ids are those of equal messages, a settled table holds the accepted
messages. -/
theorem Stores.mem_iff {log : Log F64} {stored : List (Message F64)}
    (h : log.Stores texts json stored) (hsettled : log.Settled)
    (hids : ∀ a ∈ log.accepted, ∀ b ∈ log.accepted, a.id = b.id → a = b) (msg : Message F64) :
    msg ∈ stored ↔ msg ∈ log.accepted := by
  constructor
  · exact fun hmsg => h.stored_accepted hmsg
  · intro hmsg
    obtain ⟨hpending, hlost⟩ := hsettled
    rcases h.covered msg hmsg with hid | hwaits | hfailed
    · obtain ⟨other, hother, heq⟩ := List.mem_map.mp hid
      exact hids other (h.stored_accepted hother) msg hmsg heq ▸ hother
    · rw [hpending] at hwaits
      exact absurd hwaits List.not_mem_nil
    · rw [hlost] at hfailed
      exact absurd hfailed List.not_mem_nil

/-- What was accepted is stored with its conversation. -/
theorem Stores.mem_ofConversation {log : Log F64} {stored : List (Message F64)}
    (h : log.Stores texts json stored) (hsettled : log.Settled)
    (hids : ∀ a ∈ log.accepted, ∀ b ∈ log.accepted, a.id = b.id → a = b) {msg : Message F64}
    (hmsg : msg ∈ log.accepted) : msg ∈ ofConversation stored msg.conversationId :=
  Xfiles.Store.mem_ofConversation.mpr ⟨(h.mem_iff hsettled hids msg).mpr hmsg, rfl⟩

/-- No list of messages is longer than the table. -/
theorem Stores.length_le {log : Log F64} {stored : List (Message F64)}
    (h : log.Stores texts json stored) (cid : Uuid) :
    (ofConversation stored cid).length ≤ log.table.length := by
  rw [h.table, List.length_map]
  exact List.length_filter_le _ _

end Log

/-! ## The order of the table is not seen -/

section Order

variable {texts : Texts F64} {json : JsonText} {parser : Rfc3339Parser}
  {table other : List MessageRow} (hperm : table.Perm other)
include hperm

theorem GetMessages.of_perm {cid : Uuid} {limit : Int} {result : Option (List (Message F64))}
    (h : GetMessages texts json parser table cid limit result) :
    GetMessages texts json parser other cid limit result := by
  obtain ⟨rows, hrows, rfl⟩ := h
  exact ⟨rows, hrows.of_perm (hperm.filter _), rfl⟩

theorem GetConversation.of_perm {id : String} {answer : Answer (Uuid × Nat)}
    (h : GetConversation texts json parser table id answer) :
    GetConversation texts json parser other id answer := by
  unfold GetConversation at h ⊢
  split at h
  · exact h
  · obtain ⟨result, hresult, hanswer⟩ := h
    exact ⟨result, hresult.of_perm hperm, hanswer⟩

theorem ConversationMessages.of_perm {id : String} {answer : Answer (List ShownMessage)}
    (h : ConversationMessages texts json parser table id answer) :
    ConversationMessages texts json parser other id answer := by
  unfold ConversationMessages at h ⊢
  split at h
  · exact h
  · obtain ⟨result, hresult, hanswer⟩ := h
    exact ⟨result, hresult.of_perm hperm, hanswer⟩

theorem ConversationList.of_perm {answer : Answer (List (Uuid × Nat))}
    (h : ConversationList texts table answer) : ConversationList texts other answer := by
  have hgroup : ∀ cid, (group table cid).Perm (group other cid) := fun cid => hperm.filter _
  have hnewest : ∀ cid, maxKey (fun row => textBytes row.timestamp) (group table cid) =
      maxKey (fun row => textBytes row.timestamp) (group other cid) :=
    fun cid => maxKey_of_perm (hgroup cid)
  obtain ⟨result, ⟨cids, hcids, rfl⟩, hanswer⟩ := h
  refine ⟨_, ⟨cids, ?_, rfl⟩, ?_⟩
  · rw [ConversationRows] at hcids ⊢
    simp only [hnewest] at hcids
    exact hcids.of_perm (hperm.map _).dedup
  · simp only [fun cid => (hgroup cid).length_eq] at hanswer
    exact hanswer

end Order

/-! ## The answers after a run -/

section Runs

variable (texts : Texts F64) (json : JsonText) (parser : Rfc3339Parser)
  {events events' : List (LogEvent F64)} {log log' : Log F64}

end Runs

/-- Two messages, and their tasks. -/
def sentOnce : List (LogEvent Nat) :=
  [.post (newYearMessage 1 2023), .post (newYearMessage 2 2024), .persist 0, .persist 0]

section Runs

variable (texts : Texts F64) (json : JsonText) (parser : Rfc3339Parser)
  {events : List (LogEvent F64)} {log : Log F64}

/-- After every run, a conversation is found when one of its messages can be read,
and shown when all that are asked for can be. -/
theorem conversation_statuses
    (hrun : run (Log.step texts json) .empty events = some log) :
    ∃ stored, log.Stores texts json stored ∧
      ∀ id cid answer messages, texts.uuid.decode id = some cid →
        GetConversation texts json parser log.table id answer →
        ConversationMessages texts json parser log.table id messages →
          ((answer = .error 404 "conversation not found" ↔ ofConversation stored cid = []) ∧
            (answer = .ok (cid, 1) ↔ readable stored cid ≠ []) ∧
            ((∃ text, answer = .error 500 text) ↔
              ofConversation stored cid ≠ [] ∧ readable stored cid = [])) ∧
          ((∃ msgs, messages = .ok msgs ∧
              msgs.length = min 100 (ofConversation stored cid).length) ↔
            min 100 (ofConversation stored cid).length ≤ (readable stored cid).length) ∧
          ((∃ text, messages = .error 500 text) ↔
            (readable stored cid).length < min 100 (ofConversation stored cid).length) := by
  obtain ⟨stored, hstored⟩ := Log.stores_of_run hrun
  refine ⟨stored, hstored, ?_⟩
  intro id cid answer messages hid hanswer hmessages
  rw [hstored.table] at hanswer hmessages
  exact ⟨hanswer.statuses hid, hmessages.statuses hid⟩

end Runs

/-- Two messages of one conversation, the second of which cannot be read. -/
def sentUnreadable : List (LogEvent Nat) :=
  [.post (newYearMessage 1 2024), .post (newYearMessage 2 10000), .persist 1, .persist 0]

/-- The conversation is found and not shown. -/
theorem conversation_statuses_unreadable :
    ∃ log, run (Log.step decimalTexts emptyJson) .empty sentUnreadable = some log ∧
      ∀ answer messages,
        GetConversation decimalTexts emptyJson .exact log.table (decimalTexts.uuid.encode 7)
          answer →
        ConversationMessages decimalTexts emptyJson .exact log.table (decimalTexts.uuid.encode 7)
          messages →
        answer = .ok (7, 1) ∧ ∃ text, messages = .error 500 text := by
  obtain ⟨log, hrun, hsettled, haccepted, hrows⟩ : ∃ log,
      run (Log.step decimalTexts emptyJson) .empty sentUnreadable = some log ∧ log.Settled ∧
      log.accepted = [newYearMessage 1 2024, newYearMessage 2 10000] ∧ log.table.length = 2 :=
    ⟨_, rfl, ⟨rfl, rfl⟩, rfl, rfl⟩
  refine ⟨log, hrun, ?_⟩
  intro answer messages hanswer hmessages
  obtain ⟨stored, hstored, hstatuses⟩ := conversation_statuses decimalTexts emptyJson .exact hrun
  obtain ⟨⟨-, hfound, -⟩, -, hfails⟩ :=
    hstatuses _ 7 answer messages (decimalTexts.uuid.decode_encode 7) hanswer hmessages
  have hids : ∀ a ∈ log.accepted, ∀ b ∈ log.accepted, a.id = b.id → a = b := by
    rw [haccepted]
    simp [newYearMessage]
  have hread : newYearMessage 1 2024 ∈ ofConversation stored 7 :=
    hstored.mem_ofConversation hsettled hids (by rw [haccepted]; exact List.mem_cons_self)
  have hunread : newYearMessage 2 10000 ∈ ofConversation stored 7 :=
    hstored.mem_ofConversation hsettled hids
      (by rw [haccepted]; exact List.mem_cons_of_mem _ List.mem_cons_self)
  have hcount : (ofConversation stored 7).length ≤ 2 := hrows ▸ hstored.length_le 7
  have hfewer : (readable stored 7).length < (ofConversation stored 7).length := by
    rw [readable, List.length_filter_lt_length_iff_exists]
    exact ⟨_, hunread, by decide⟩
  refine ⟨hfound.mpr (List.ne_nil_of_mem (List.mem_filter.mpr ⟨hread, by decide⟩)), ?_⟩
  exact hfails.mpr (by omega)

section Runs

variable (texts : Texts F64) (json : JsonText) (parser : Rfc3339Parser)
  {events : List (LogEvent F64)} {log : Log F64}

/-- The list agrees with the two routes.  What it shows is found with as many messages
as it says, and a list that is not full leaves out only what is not found. -/
theorem listed_as_found (hrun : run (Log.step texts json) .empty events = some log)
    {answer : Answer (List (Uuid × Nat))} (hlist : ConversationList texts log.table answer) :
    ∃ listed, answer = .ok listed ∧ (listed.map Prod.fst).Nodup ∧ listed.length ≤ 100 ∧
      ∀ id cid found messages, texts.uuid.decode id = some cid →
        GetConversation texts json parser log.table id found →
        ConversationMessages texts json parser log.table id messages →
          (∀ count, (cid, count) ∈ listed → 0 < count ∧
            found ≠ .error 404 "conversation not found" ∧
            ∀ msgs, messages = .ok msgs → msgs.length = min 100 count) ∧
          (listed.length < 100 → cid ∉ listed.map Prod.fst →
            found = .error 404 "conversation not found" ∧ messages = .ok []) := by
  obtain ⟨stored, hstored⟩ := Log.stores_of_run hrun
  rw [hstored.table] at hlist
  obtain ⟨cids, rfl, hnodup, hsome, hlength, hall⟩ := hlist.listed
  have hfst : (cids.map fun cid => (cid, (ofConversation stored cid).length)).map Prod.fst =
      cids := by
    rw [List.map_map]
    exact List.map_id cids
  refine ⟨_, rfl, ?_, ?_, ?_⟩
  · rw [hfst]
    exact hnodup
  · rw [List.length_map, hlength]
    exact Nat.min_le_left _ _
  · intro id cid found messages hid hfound hmessages
    rw [hstored.table] at hfound hmessages
    constructor
    · intro count hmem
      obtain ⟨other, hother, heq⟩ := List.mem_map.mp hmem
      obtain ⟨rfl, rfl⟩ := Prod.mk.inj heq
      refine ⟨List.length_pos_iff.mpr (hsome other hother), ?_, ?_⟩
      · exact fun hnot => hsome other hother ((hfound.statuses hid).1.mp hnot)
      · intro msgs hmsgs
        rcases hmessages.cases hid with ⟨-, shown, hshown, hcount⟩ | ⟨-, text, herror⟩
        · rw [hmsgs] at hshown
          obtain rfl := Answer.ok.inj hshown
          exact hcount
        · exact absurd (hmsgs.symm.trans herror) (by simp)
    · intro hfull hout
      rw [hfst] at hout
      rw [List.length_map] at hfull
      -- A list that is not full holds all conversations.
      have hnone : ofConversation stored cid = [] := by
        by_contra hne
        apply hout
        rw [(hall (by omega)).mem_iff, mem_conversations]
        exact hne
      refine ⟨(hfound.statuses hid).1.mpr hnone, ?_⟩
      rcases hmessages.cases hid with ⟨-, msgs, rfl, hcount⟩ | ⟨hfew, -⟩
      · rw [hnone] at hcount
        rw [List.eq_nil_of_length_eq_zero hcount]
      · rw [hnone] at hfew
        exact absurd hfew (Nat.not_lt_zero _)

end Runs

/-- The conversation of the two messages is listed with them. -/
theorem listed_as_found_sent :
    ∃ log listed, run (Log.step decimalTexts emptyJson) .empty sentOnce = some log ∧
      ConversationList decimalTexts log.table (.ok listed) ∧
      ∀ found messages,
        GetConversation decimalTexts emptyJson .exact log.table (decimalTexts.uuid.encode 7)
          found →
        ConversationMessages decimalTexts emptyJson .exact log.table (decimalTexts.uuid.encode 7)
          messages →
        ∃ count, (7, count) ∈ listed ∧ 0 < count ∧
          found ≠ .error 404 "conversation not found" ∧
          ∀ msgs, messages = .ok msgs → msgs.length = min 100 count := by
  obtain ⟨log, hrun, hsettled, haccepted, hrows⟩ : ∃ log,
      run (Log.step decimalTexts emptyJson) .empty sentOnce = some log ∧ log.Settled ∧
      log.accepted = [newYearMessage 1 2023, newYearMessage 2 2024] ∧ log.table.length = 2 :=
    ⟨_, rfl, ⟨rfl, rfl⟩, rfl, rfl⟩
  obtain ⟨answer, hlist⟩ := ConversationList.exists_answer decimalTexts log.table
  obtain ⟨listed, rfl, -, -, hagrees⟩ :=
    listed_as_found decimalTexts emptyJson .exact hrun hlist
  refine ⟨log, listed, hrun, hlist, fun found messages hfound hmessages => ?_⟩
  obtain ⟨hin, hout⟩ :=
    hagrees _ 7 found messages (decimalTexts.uuid.decode_encode 7) hfound hmessages
  obtain ⟨stored, hstored⟩ := Log.stores_of_run hrun
  have hids : ∀ a ∈ log.accepted, ∀ b ∈ log.accepted, a.id = b.id → a = b := by
    rw [haccepted]
    simp [newYearMessage]
  have hmem : newYearMessage 1 2023 ∈ ofConversation stored 7 :=
    hstored.mem_ofConversation hsettled hids (by rw [haccepted]; exact List.mem_cons_self)
  have hthere : found ≠ .error 404 "conversation not found" := by
    rw [hstored.table] at hfound
    intro hnot
    have hnone := (hfound.statuses (decimalTexts.uuid.decode_encode 7)).1.mp hnot
    exact absurd (hnone ▸ hmem) List.not_mem_nil
  have hfew : listed.length < 100 := by
    rw [hstored.table] at hlist
    obtain ⟨cids, hcids, -, -, hlength, -⟩ := hlist.listed
    have hdedup := (List.dedup_sublist (stored.map Wire.Message.conversationId)).length_le
    rw [hstored.table, List.length_map] at hrows
    rw [List.length_map, hrows] at hdedup
    rw [Answer.ok.inj hcids, List.length_map, hlength, conversations]
    omega
  have hlisted : 7 ∈ listed.map Prod.fst := by
    by_contra hnot
    exact hthere (hout hfew hnot).1
  obtain ⟨⟨cid, count⟩, hcount, rfl⟩ := List.mem_map.mp hlisted
  exact ⟨count, hcount, hin count hcount⟩

end Xfiles.Store
