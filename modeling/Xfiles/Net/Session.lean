import Mathlib.Data.List.Forall2
import Mathlib.Data.List.Induction
import Xfiles.Fs.Files
import Xfiles.Lib.Transition

/-!
# A session as a client sees it

The loop of `handle_socket` in `net/transport.rs`, with the answers that `handle_op` puts
in the channel of the session itself.  The loop handles one frame at a time.  A request on
a file waits for the file (`Fs/Files.lean`), and in between other tasks put messages for
the agent in the same channel.

* `SessionEvent` is what can happen to a session, and `Session.step` what it does.
* `asks` are the frames of a run that want an answer.
* `Answered` is the invariant: the answers in the channel are those to the first frames.
* `session_answers` reads it off for what the socket was sent.

`encode_frame` has no error here, as in `Net/Protocol.lean`.  A frame of `Hello`, of
`Message` and of the other kinds gets no answer; what it does elsewhere is in
`Net/Transport.lean`, and what it brings into this channel is a `deliver`.
-/

namespace Xfiles.Net

open Wire Transition
open Fs (Request Response FileAnswer)

variable {Time F64 F32 : Type}

/-- A frame that wants an answer. -/
inductive Ask where
  | file (request : Request)
  | garbled
  deriving DecidableEq

/-- What a text frame asks for.  A text that is no JSON has no frame. -/
def ask (fmt : Formats Time F64 F32) (frame : Option Json) : Option Ask :=
  match frame.bind (parseFrame fmt) with
  | some (.fsRead path) => some (.file (.fsRead path))
  | some (.fsWrite path data) => some (.file (.fsWrite path data))
  | some _ => none
  | none => some .garbled

/-- The frame that goes with the answer of a file. -/
def reply (request : Request) (answer : FileAnswer) : Option (ProtocolOp Time F64 F32) :=
  match request.response answer with
  | some (.frame op) => some op
  | _ => none

/-- A session, with the file that its loop waits for. -/
structure Session (Time F64 F32 : Type) where
  isOpen : Bool
  buffer : List (ProtocolOp Time F64 F32)
  written : List (ProtocolOp Time F64 F32)
  pending : Option Request

inductive SessionEvent (Time F64 : Type) where
  /-- A text frame, with the error text in case it cannot be read. -/
  | receive (frame : Option Json) (parseError : String)
  | answer (answer : FileAnswer)
  | deliver (msg : Wire.Message Time F64)
  | write
  | close

namespace Session

def start : Session Time F64 F32 where
  isOpen := true
  buffer := []
  written := []
  pending := none

/-- `tx.send`, whose error is ignored. -/
def send (s : Session Time F64 F32) (op : ProtocolOp Time F64 F32) : Session Time F64 F32 :=
  if s.isOpen then { s with buffer := s.buffer ++ [op] } else s

theorem send_pending (s : Session Time F64 F32) (h : s.pending = none)
    (op : ProtocolOp Time F64 F32) : { s.send op with pending := none } = s.send op := by
  unfold send
  split <;> rw [← h]

def step (fmt : Formats Time F64 F32) (s : Session Time F64 F32) :
    SessionEvent Time F64 → Option (Session Time F64 F32)
  | .receive frame parseError =>
    match s.pending with
    | some _ => none
    | none =>
      match ask fmt frame with
      | some (.file request) => some { s with pending := some request }
      | some .garbled => some (s.send (.error "parse_error" parseError))
      | none => some s
  | .answer answer =>
    match s.pending with
    | some request => (reply request answer).map fun op => { s.send op with pending := none }
    | none => none
  | .deliver msg => some (s.send (.message msg))
  | .write =>
    match s.isOpen, s.buffer with
    | true, op :: rest => some { s with buffer := rest, written := s.written ++ [op] }
    | _, _ => none
  | .close => some { s with isOpen := false }

end Session

/-! ## Questions and answers -/

/-- The frames of a run that want an answer. -/
def asks (fmt : Formats Time F64 F32) (events : List (SessionEvent Time F64)) : List Ask :=
  events.filterMap fun event =>
    match event with
    | .receive frame _ => ask fmt frame
    | _ => none

/-- The frame answers a request.  A client tells such a frame from a message. -/
def isAnswer : ProtocolOp Time F64 F32 → Bool
  | .fsResult .. => true
  | .error .. => true
  | _ => false

/-- The answer names the path that was asked for.  A read gets data or an error, and a
write an error or nothing. -/
def Answers : Ask → ProtocolOp Time F64 F32 → Prop
  | .file (.fsRead path), .fsResult path' data error =>
    path' = path ∧ (data.isSome ↔ error = none)
  | .file (.fsWrite path _), .fsResult path' data _ => path' = path ∧ data = none
  | .garbled, .error code _ => code = "parse_error"
  | _, _ => False

theorem answers_reply {request : Request} {answer : FileAnswer} {op : ProtocolOp Time F64 F32}
    (h : reply request answer = some op) : Answers (.file request) op ∧ isAnswer op = true := by
  rw [reply] at h
  split at h
  case h_1 op' hresponse =>
    obtain rfl := Option.some.inj h
    rw [Xfiles.Fs.Request.response.eq_def] at hresponse
    split at hresponse
    all_goals
      simp only [Request.notFound, Option.some.injEq, Response.frame.injEq, reduceCtorEq]
        at hresponse
    all_goals
      subst hresponse
      simp [Answers, isAnswer]
  case h_2 => exact absurd h (by simp)

/-- The answers in the channel are those to the frames `done`.  The frames `rest` have none:
the loop waits for a file, or the socket is gone. -/
structure Answered (asked : List Ask) (s : Session Time F64 F32) (done rest : List Ask) :
    Prop where
  split : asked = done ++ rest
  answers : List.Forall₂ Answers done ((s.written ++ s.buffer).filter isAnswer)
  rest : s.isOpen = true → rest = s.pending.toList.map .file

namespace Answered

variable {asked done rest : List Ask} {s : Session Time F64 F32}

/-- A message for the agent answers nothing. -/
theorem send_message (h : Answered asked s done rest) {op : ProtocolOp Time F64 F32}
    (hop : isAnswer op = false) : Answered asked (s.send op) done rest := by
  unfold Session.send
  split
  case isTrue hopen =>
    refine ⟨h.split, ?_, h.rest⟩
    have hsame : (s.written ++ (s.buffer ++ [op])).filter isAnswer =
        (s.written ++ s.buffer).filter isAnswer := by
      simp [hop]
    exact hsame ▸ h.answers
  case isFalse => exact h

/-- The loop answers the frame that has no answer yet. -/
theorem send_answer {one : Ask} (hsplit : asked = done ++ rest)
    (hdone : List.Forall₂ Answers done ((s.written ++ s.buffer).filter isAnswer))
    (hrest : s.isOpen = true → rest = [one]) {op : ProtocolOp Time F64 F32}
    (hanswers : Answers one op) (hop : isAnswer op = true) :
    ∃ done' rest', Answered asked { s.send op with pending := none } done' rest' := by
  unfold Session.send
  split
  case isTrue hopen =>
    refine ⟨done ++ [one], [], ?_, ?_, fun _ => rfl⟩
    · rw [hsplit, hrest hopen, List.append_nil]
    · have hmore : (s.written ++ (s.buffer ++ [op])).filter isAnswer =
          (s.written ++ s.buffer).filter isAnswer ++ [op] := by
        simp [hop]
      exact hmore ▸ List.rel_append hdone (List.Forall₂.cons hanswers .nil)
  case isFalse hclosed => exact ⟨done, rest, hsplit, hdone, fun hopen => absurd hopen hclosed⟩

end Answered

theorem asks_concat {fmt : Formats Time F64 F32} {events : List (SessionEvent Time F64)}
    {event : SessionEvent Time F64} :
    asks fmt (events ++ [event]) = asks fmt events ++ asks fmt [event] :=
  List.filterMap_append

/-- What a step of the session preserves. -/
theorem Answered.step {fmt : Formats Time F64 F32} {s t : Session Time F64 F32} {asked done rest}
    (h : Answered asked s done rest) {event : SessionEvent Time F64}
    (hstep : s.step fmt event = some t) :
    ∃ done' rest', Answered (asked ++ asks fmt [event]) t done' rest' := by
  cases event with
  | receive frame parseError =>
    rw [Session.step] at hstep
    split at hstep
    case h_1 => exact absurd hstep (by simp)
    case h_2 hpending =>
      have hrest : s.isOpen = true → rest = [] := by
        intro hopen
        rw [h.rest hopen, hpending]
        rfl
      split at hstep
      case h_1 request hask =>
        obtain rfl := Option.some.inj hstep
        have hasks : asks fmt [SessionEvent.receive frame parseError] = [.file request] := by
          simp [asks, hask]
        rw [hasks]
        refine ⟨done, rest ++ [.file request], ?_, h.answers, fun hopen => ?_⟩
        · rw [h.split, List.append_assoc]
        · rw [hrest hopen]
          rfl
      case h_2 hask =>
        obtain rfl := Option.some.inj hstep
        have hasks : asks fmt [SessionEvent.receive frame parseError] = [.garbled] := by
          simp [asks, hask]
        have hsplit : asked ++ [.garbled] = done ++ (rest ++ [.garbled]) := by
          rw [h.split, List.append_assoc]
        rw [hasks, ← s.send_pending hpending]
        have hanswers : Answers .garbled (ProtocolOp.error "parse_error" parseError :
            ProtocolOp Time F64 F32) := rfl
        refine send_answer hsplit h.answers (fun hopen => ?_) hanswers rfl
        rw [hrest hopen]
        rfl
      case h_3 hask =>
        obtain rfl := Option.some.inj hstep
        have hasks : asks fmt [SessionEvent.receive frame parseError] = [] := by
          simp [asks, hask]
        rw [hasks, List.append_nil]
        exact ⟨done, rest, h⟩
  | answer answer =>
    rw [Session.step] at hstep
    split at hstep
    case h_1 request hpending =>
      obtain ⟨op, hreply, rfl⟩ := Option.map_eq_some_iff.mp hstep
      obtain ⟨hanswers, hop⟩ := answers_reply hreply
      have hasks : asks fmt ([.answer answer] : List (SessionEvent Time F64)) = [] := rfl
      rw [hasks, List.append_nil]
      refine send_answer h.split h.answers (fun hopen => ?_) hanswers hop
      rw [h.rest hopen, hpending]
      rfl
    case h_2 => exact absurd hstep (by simp)
  | deliver msg =>
    obtain rfl := Option.some.inj hstep
    refine ⟨done, rest, ?_⟩
    have hasks : asks fmt [SessionEvent.deliver msg] = [] := rfl
    rw [hasks, List.append_nil]
    exact h.send_message rfl
  | write =>
    rw [Session.step] at hstep
    split at hstep
    case h_1 op buffer hopen hbuffer =>
      obtain rfl := Option.some.inj hstep
      have hasks : asks fmt ([.write] : List (SessionEvent Time F64)) = [] := rfl
      rw [hasks, List.append_nil]
      refine ⟨done, rest, h.split, ?_, h.rest⟩
      have hanswers := h.answers
      rw [hbuffer] at hanswers
      show List.Forall₂ _ _ ((s.written ++ [op] ++ buffer).filter isAnswer)
      rwa [List.append_assoc]
    case h_2 => exact absurd hstep (by simp)
  | close =>
    obtain rfl := Option.some.inj hstep
    have hasks : asks fmt ([.close] : List (SessionEvent Time F64)) = [] := rfl
    rw [hasks, List.append_nil]
    exact ⟨done, rest, h.split, h.answers, fun hopen => absurd hopen Bool.false_ne_true⟩

theorem answered_of_run {fmt : Formats Time F64 F32} {s : Session Time F64 F32}
    {events : List (SessionEvent Time F64)}
    (hrun : run (Session.step fmt) .start events = some s) :
    ∃ done rest, Answered (asks fmt events) s done rest := by
  induction events using List.reverseRecOn generalizing s with
  | nil =>
    obtain rfl := Option.some.inj hrun
    exact ⟨[], [], rfl, .nil, fun _ => rfl⟩
  | append_singleton events event ih =>
    obtain ⟨t, hbefore, hstep⟩ := run_concat_eq_some.mp hrun
    obtain ⟨done, rest, hanswered⟩ := ih hbefore
    rw [asks_concat]
    exact hanswered.step hstep

/-- In every run of a session, the answers that the socket was sent are those to the first
frames that want one, in their order and with their paths, whatever messages came in
between.  When the session is idle, each such frame has its answer. -/
theorem session_answers {fmt : Formats Time F64 F32} {s : Session Time F64 F32}
    {events : List (SessionEvent Time F64)}
    (hrun : run (Session.step fmt) .start events = some s) :
    (∃ first rest, asks fmt events = first ++ rest ∧
      List.Forall₂ Answers first (s.written.filter isAnswer)) ∧
    (s.isOpen = true → s.buffer = [] → s.pending = none →
      List.Forall₂ Answers (asks fmt events) (s.written.filter isAnswer)) := by
  obtain ⟨done, rest, h⟩ := answered_of_run hrun
  have hanswers := h.answers
  rw [List.filter_append] at hanswers
  constructor
  · have hfirst := List.forall₂_take_append done _ _ hanswers
    refine ⟨done.take (s.written.filter isAnswer).length,
      done.drop (s.written.filter isAnswer).length ++ rest, ?_, hfirst⟩
    rw [← List.append_assoc, List.take_append_drop]
    exact h.split
  · intro hopen hbuffer hpending
    rw [hbuffer, List.filter_nil, List.append_nil] at hanswers
    rw [h.split, h.rest hopen, hpending]
    simpa using hanswers

/-- A text that is no JSON, a read of a file that is not there, and the same read with
the keys in an array. -/
def sessionRun : List (SessionEvent Nat Nat) :=
  [.receive none "expected value", .write,
    .receive (some (.object [("op", .string "fs_read"), ("path", .string "/x")])) "",
    .answer .missing, .write, .receive (some (.array [.string "fs_read", .string "/x"])) "",
    .answer .missing, .write]

theorem session_answers_missing : ∃ s : Session Nat Nat Nat,
    run (Session.step decimalFormats) .start sessionRun = some s ∧
      asks decimalFormats sessionRun =
        [.garbled, .file (.fsRead "/x"), .file (.fsRead "/x")] ∧
      List.Forall₂ Answers (asks decimalFormats sessionRun) (s.written.filter isAnswer) := by
  obtain ⟨s, hrun, hopen, hbuffer, hpending⟩ : ∃ s : Session Nat Nat Nat,
      run (Session.step decimalFormats) .start sessionRun = some s ∧ s.isOpen = true ∧
        s.buffer = [] ∧ s.pending = none := ⟨_, rfl, rfl, rfl, rfl⟩
  exact ⟨s, hrun, rfl, (session_answers hrun).2 hopen hbuffer hpending⟩

end Xfiles.Net
