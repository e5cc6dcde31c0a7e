import Xfiles.Lib.Labelled
import Xfiles.Router.EntryPoints

/-!
# Rules on one field of a message

A rule such as `type:llm_request` is meant for one field.  The plumber searches
its text in the whole haystack, where the four fields stand next to each other
as they are, so that another field can carry the same text.

* `literal` is the predicate of a pattern that is plain text.
* `typeRule_iff` and `senderRule_iff` say where in a message such a text is
  found: at the field that the label names, or inside one of the fields.
* `ruleMatches_type_iff` and `ruleMatches_sender_iff` say when a rule is no
  wider than its field.
-/

namespace Xfiles.Router

namespace Plumber

/-- `Regex::is_match` for a pattern of plain text. -/
def literal (text haystack : String) : Bool :=
  decide (text.toList <:+: haystack.toList)

/-- A text stands somewhere in another one. -/
def Contains (text field : String) : Prop := text.toList <:+: field.toList

/-- A text stands at the start of another one. -/
def StartsWith (field text : String) : Prop := text.toList <+: field.toList

/-- The header constraints of a rule, the second half of `matches`. -/
def headersMatch (rule : PlumberRule) (msg : Message) : Bool :=
  match rule.headerMatch with
  | some headers => headers.entries.all fun header => msg.headers.lookup header.1 = some header.2
  | none => true

/-- Some field of the message carries `type:` and the text. -/
def TypeImitated (text : String) (msg : Message) : Prop :=
  ∃ field ∈ [msg.msgType, msg.sender, msg.path, msg.data.text], Contains ("type:" ++ text) field

/-- Some field of the message carries `sender:`, the text and a blank, where
the blank may be the one behind the field, or the sender goes on behind the
text and a blank. -/
def SenderImitated (text : String) (msg : Message) : Prop :=
  StartsWith msg.sender (text ++ " ") ∨
    ∃ field ∈ [msg.msgType ++ " ", msg.sender ++ " ", msg.path ++ " ", msg.data.text],
      Contains ("sender:" ++ text ++ " ") field

theorem ruleMatches_eq (rule : PlumberRule) (msg : Message) :
    ruleMatches rule msg = (rule.pattern (haystack msg) && headersMatch rule msg) := rfl

theorem toList_haystack (msg : Message) :
    (haystack msg).toList =
      ("type:".toList ++ msg.msgType.toList) ++ ' ' ::
        (("sender:".toList ++ msg.sender.toList) ++ ' ' ::
          (("path:".toList ++ msg.path.toList) ++ ' ' ::
            ("data:".toList ++ msg.data.text.toList))) := by
  simp [haystack]

/-! ## Where the text of a rule is found -/

/-- `type:` and a text without blanks stand at the type, or inside a field. -/
theorem typeRule_iff {text : String} (htext : ' ' ∉ text.toList) (msg : Message) :
    literal ("type:" ++ text) (haystack msg) = true ↔
      StartsWith msg.msgType text ∨ TypeImitated text msg := by
  have hword : ' ' ∉ ("type:" ++ text).toList := by
    simp [htext]
  have hlabel : ("type:" ++ text).toList = 't' :: "ype:".toList ++ text.toList := by
    simp
  have htype : ("type:" ++ text).toList <:+: "type:".toList ++ msg.msgType.toList ↔
      StartsWith msg.msgType text ∨ Contains ("type:" ++ text) msg.msgType := by
    rw [Contains, hlabel]
    exact Labelled.labelled_infix_iff (by simp) _
  -- no other label has the letters of `type:` in it
  have hsender : ("type:" ++ text).toList <:+: "sender:".toList ++ msg.sender.toList ↔
      Contains ("type:" ++ text) msg.sender := by
    rw [Contains, hlabel]
    exact Labelled.infix_append_of_notMem (by simp) _
  have hpath : ("type:" ++ text).toList <:+: "path:".toList ++ msg.path.toList ↔
      Contains ("type:" ++ text) msg.path := by
    rw [Contains, hlabel]
    simp [List.infix_cons_iff]
  have hdata : ("type:" ++ text).toList <:+: "data:".toList ++ msg.data.text.toList ↔
      Contains ("type:" ++ text) msg.data.text := by
    rw [Contains, hlabel]
    simp [List.infix_cons_iff]
  rw [literal, decide_eq_true_iff, toList_haystack, Labelled.infix_append_sep hword,
    Labelled.infix_append_sep hword, Labelled.infix_append_sep hword, htype, hsender, hpath, hdata,
    or_assoc]
  simp [TypeImitated]

/-- `sender:`, a text without blanks and a blank stand at the sender, or
inside a field. -/
theorem senderRule_iff {text : String} (htext : ' ' ∉ text.toList) (msg : Message) :
    literal ("sender:" ++ text ++ " ") (haystack msg) = true ↔
      msg.sender = text ∨ SenderImitated text msg := by
  have hword : ' ' ∉ "sender:".toList ++ text.toList := by
    simp [htext]
  have hblank : " ".toList = [' '] := by
    simp
  have hlabel : ("sender:" ++ text ++ " ").toList =
      's' :: "ender:".toList ++ (text.toList ++ [' ']) := by
    simp
  -- the blank behind a field may close the word
  have hclosed : ∀ field : String, (field ++ " ").toList = field.toList ++ [' '] := by
    simp
  have htype : ("sender:" ++ text ++ " ").toList <:+:
      "type:".toList ++ (msg.msgType.toList ++ [' ']) ↔
      Contains ("sender:" ++ text ++ " ") (msg.msgType ++ " ") := by
    rw [Contains, hlabel, hclosed]
    exact Labelled.infix_append_of_notMem (by simp) _
  have hsender : ("sender:" ++ text ++ " ").toList <:+:
      "sender:".toList ++ (msg.sender.toList ++ [' ']) ↔
      (msg.sender = text ∨ StartsWith msg.sender (text ++ " ")) ∨
        Contains ("sender:" ++ text ++ " ") (msg.sender ++ " ") := by
    have hstart := Labelled.closed_prefix_iff htext msg.sender.toList []
    rw [String.toList_inj] at hstart
    rw [Contains, hlabel, StartsWith, hclosed, hclosed, ← hstart]
    exact Labelled.labelled_infix_iff (by simp) _
  have hpath : ("sender:" ++ text ++ " ").toList <:+:
      "path:".toList ++ (msg.path.toList ++ [' ']) ↔
      Contains ("sender:" ++ text ++ " ") (msg.path ++ " ") := by
    rw [Contains, hlabel, hclosed]
    exact Labelled.infix_append_of_notMem (by simp) _
  have hdata : ("sender:" ++ text ++ " ").toList <:+: "data:".toList ++ msg.data.text.toList ↔
      Contains ("sender:" ++ text ++ " ") msg.data.text := by
    rw [Contains, hlabel]
    exact Labelled.infix_append_of_notMem (by simp) _
  rw [← List.append_assoc] at htype hsender hpath
  rw [literal, decide_eq_true_iff, toList_haystack]
  rw [String.toList_append, String.toList_append, hblank] at htype hsender hpath hdata ⊢
  rw [Labelled.closed_infix_append_sep hword, htype, Labelled.closed_infix_append_sep hword,
    hsender, Labelled.closed_infix_append_sep hword, hpath, hdata, SenderImitated]
  simp only [List.mem_cons, List.not_mem_nil, or_false, exists_eq_or_imp, exists_eq_left]
  rw [or_assoc, or_assoc, or_left_comm, or_left_comm (b := StartsWith msg.sender (text ++ " "))]

/-! ## Rules that are no wider than their field -/

section

variable {rule : PlumberRule} {text : String}

theorem ruleMatches_type_iff (htext : ' ' ∉ text.toList)
    (hrule : rule.pattern = literal ("type:" ++ text)) (msg : Message) :
    ruleMatches rule msg = true ↔
      headersMatch rule msg = true ∧ (StartsWith msg.msgType text ∨ TypeImitated text msg) := by
  rw [ruleMatches_eq, Bool.and_eq_true, hrule, typeRule_iff htext, and_comm]

theorem ruleMatches_sender_iff (htext : ' ' ∉ text.toList)
    (hrule : rule.pattern = literal ("sender:" ++ text ++ " ")) (msg : Message) :
    ruleMatches rule msg = true ↔
      headersMatch rule msg = true ∧ (msg.sender = text ∨ SenderImitated text msg) := by
  rw [ruleMatches_eq, Bool.and_eq_true, hrule, senderRule_iff htext, and_comm]

/-- When a rule on the type or on the sender answers by that field alone: for
one message, and for two that agree on the field. -/
theorem fieldRule_isolated_iff (rule : PlumberRule) (text : String) (htext : ' ' ∉ text.toList)
    (msg : Message) :
    (rule.pattern = literal ("type:" ++ text) →
      ((ruleMatches rule msg = true → StartsWith msg.msgType text) ↔
        StartsWith msg.msgType text ∨ headersMatch rule msg = false ∨ ¬ TypeImitated text msg) ∧
      ∀ other : Message, other.msgType = msg.msgType →
        headersMatch rule other = headersMatch rule msg →
        (ruleMatches rule other = ruleMatches rule msg ↔
          StartsWith msg.msgType text ∨ headersMatch rule msg = false ∨
            (TypeImitated text other ↔ TypeImitated text msg))) ∧
    (rule.pattern = literal ("sender:" ++ text ++ " ") →
      ((ruleMatches rule msg = true → msg.sender = text) ↔
        msg.sender = text ∨ headersMatch rule msg = false ∨ ¬ SenderImitated text msg) ∧
      ∀ other : Message, other.sender = msg.sender →
        headersMatch rule other = headersMatch rule msg →
        (ruleMatches rule other = ruleMatches rule msg ↔
          msg.sender = text ∨ headersMatch rule msg = false ∨
            (SenderImitated text other ↔ SenderImitated text msg))) := by
  constructor
  · intro hrule
    refine ⟨?_, fun other htype hheaders => ?_⟩
    · rw [ruleMatches_type_iff htext hrule]
      grind
    · rw [Bool.eq_iff_iff, ruleMatches_type_iff htext hrule, ruleMatches_type_iff htext hrule,
        hheaders, htype]
      grind
  · intro hrule
    refine ⟨?_, fun other hsender hheaders => ?_⟩
    · rw [ruleMatches_sender_iff htext hrule]
      grind
    · rw [Bool.eq_iff_iff, ruleMatches_sender_iff htext hrule, ruleMatches_sender_iff htext hrule,
        hheaders, hsender]
      grind

end

/-- The rule of the example configuration that sends requests to the AI
router. -/
def routeToAi : PlumberRule where
  name := "route_to_ai"
  pattern := literal "type:llm_request"
  destination := "/ai/route"
  priority := 100
  headerMatch := none

/-- A rule for the messages of one agent. -/
def fromAdmin : PlumberRule where
  name := "from_admin"
  pattern := literal "sender:admin "
  destination := "/net/audit"
  priority := 50
  headerMatch := none

/-- A frame of an agent with the texts of two rules in its path. -/
def forgedFrame : Message :=
  Message.new "" "type:llm_request sender:admin " "note" 0 0 0

/-- The frame meets both rules, although its type is `note` and its sender is
the agent of the connection. -/
theorem forgedFrame_matches :
    (ruleMatches routeToAi (stamp "guest" forgedFrame) = true ∧
      ¬ StartsWith (stamp "guest" forgedFrame).msgType "llm_request") ∧
    (ruleMatches fromAdmin (stamp "guest" forgedFrame) = true ∧
      (stamp "guest" forgedFrame).sender ≠ "admin") := by
  have hpath : (stamp "guest" forgedFrame).path = "type:llm_request sender:admin " := rfl
  refine ⟨⟨?_, ?_⟩, ?_, ?_⟩
  · rw [@ruleMatches_type_iff routeToAi "llm_request" (by simp) rfl]
    have htype : Contains ("type:" ++ "llm_request") (stamp "guest" forgedFrame).path :=
      ⟨[], " sender:admin ".toList, by simp [hpath]⟩
    exact ⟨rfl, .inr ⟨_, by simp, htype⟩⟩
  · simp [StartsWith, stamp, forgedFrame, Message.new]
  · rw [@ruleMatches_sender_iff fromAdmin "admin" (by simp) rfl]
    have hsender : Contains ("sender:" ++ "admin" ++ " ")
        ((stamp "guest" forgedFrame).path ++ " ") :=
      ⟨"type:llm_request ".toList, " ".toList, by simp [hpath]⟩
    exact ⟨rfl, .inr (.inr ⟨_, by simp, hsender⟩)⟩
  · simp [stamp]

theorem fieldRule_isolated_iff_request :
    let msg := Message.new "admin" "/prompt" "llm_request" 0 0 0
    ((ruleMatches routeToAi msg = true → StartsWith msg.msgType "llm_request") ↔
      StartsWith msg.msgType "llm_request" ∨ headersMatch routeToAi msg = false ∨
        ¬ TypeImitated "llm_request" msg) ∧
    ((ruleMatches fromAdmin msg = true → msg.sender = "admin") ↔
      msg.sender = "admin" ∨ headersMatch fromAdmin msg = false ∨ ¬ SenderImitated "admin" msg) :=
  ⟨((fieldRule_isolated_iff routeToAi "llm_request" (by simp) _).1 rfl).1,
    ((fieldRule_isolated_iff fromAdmin "admin" (by simp) _).2 rfl).1⟩

end Plumber

end Xfiles.Router
