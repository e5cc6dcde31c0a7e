import Xfiles.Proxy.Outcomes

/-!
# Observing a stream once

`ObservingStream` forwards what the upstream body yields, and two of its arms
record the outcome.  This module proves which of them records what, for every
list of polls.

* `Poll.Ends` are the polls at which an outcome may be recorded.
* `pollAll_quiet_append` skips the polls before the first of them, and
  `pollAll_error` and `pollAll_done` are the first one.
* `exists_calls` says that there is at most one call of `observe`.
* `streamed_once` is the result for a streamed request.
-/

namespace Xfiles.Proxy

open Xfiles.Circuit Xfiles.Quantum

/-- An error or the end. -/
def Poll.Ends : Poll → Prop
  | .pending => False
  | .data _ => False
  | .error _ => True
  | .done => True

/-- No poll is an error or the end. -/
def Quiet (polls : List (Poll × Moment)) : Prop := ∀ entry ∈ polls, ¬ entry.1.Ends

theorem quiet_cons {poll : Poll} {moment : Moment} {rest : List (Poll × Moment)} :
    Quiet ((poll, moment) :: rest) ↔ ¬ poll.Ends ∧ Quiet rest :=
  List.forall_mem_cons

/-- A list of polls is quiet, or has a first poll that is not. -/
theorem quiet_or_first (polls : List (Poll × Moment)) :
    Quiet polls ∨ ∃ before poll moment after,
      polls = before ++ (poll, moment) :: after ∧ Quiet before ∧ poll.Ends := by
  induction polls with
  | nil =>
    left
    intro entry h
    exact nomatch h
  | cons entry rest ih =>
    obtain ⟨poll, moment⟩ := entry
    by_cases hends : poll.Ends
    · exact Or.inr ⟨[], poll, moment, rest, rfl, fun _ h => (nomatch h), hends⟩
    · rcases ih with hquiet | ⟨before, other, time, after, hsplit, hquiet, hother⟩
      · exact Or.inl (quiet_cons.mpr ⟨hends, hquiet⟩)
      · refine Or.inr ⟨(poll, moment) :: before, other, time, after, ?_, ?_, hother⟩
        · rw [hsplit]
          rfl
        · exact quiet_cons.mpr ⟨hends, hquiet⟩

variable {F : Type*} [Arith F]

namespace ObservingStream

variable (this : ObservingStream) (s : Learners F)

/-- A poll is handed on as it is. -/
theorem pollNext_fst (poll : Poll) (moment : Moment) :
    (this.pollNext poll moment s).1 = poll := by
  cases poll with
  | pending => rfl
  | data bytes => rfl
  | error text => rfl
  | done => rfl

/-- What the inner stream yields is forwarded in order. -/
theorem pollAll_fst (polls : List (Poll × Moment)) :
    (this.pollAll s polls).1 = polls.map Prod.fst := by
  induction polls generalizing this s with
  | nil => rfl
  | cons entry rest ih =>
    obtain ⟨poll, moment⟩ := entry
    show (this.pollNext poll moment s).1 ::
      ((this.pollNext poll moment s).2.1.pollAll (this.pollNext poll moment s).2.2 rest).1 = _
    rw [ih, pollNext_fst]
    rfl

theorem pollNext_of_not_ends {poll : Poll} (h : ¬ poll.Ends) (moment : Moment) :
    this.pollNext poll moment s = (poll, this, s) := by
  cases poll with
  | pending => rfl
  | data bytes => rfl
  | error text => exact absurd trivial h
  | done => exact absurd trivial h

/-- Before an error or the end nothing is recorded. -/
theorem pollAll_quiet_append {before : List (Poll × Moment)} (h : Quiet before)
    (rest : List (Poll × Moment)) :
    (this.pollAll s (before ++ rest)).2 = (this.pollAll s rest).2 := by
  induction before with
  | nil => rfl
  | cons entry before ih =>
    obtain ⟨poll, moment⟩ := entry
    obtain ⟨hpoll, hbefore⟩ := quiet_cons.mp h
    show ((this.pollNext poll moment s).2.1.pollAll (this.pollNext poll moment s).2.2
      (before ++ rest)).2 = _
    rw [pollNext_of_not_ends this s hpoll]
    exact ih hbefore

theorem pollAll_quiet {polls : List (Poll × Moment)} (h : Quiet polls) :
    (this.pollAll s polls).2 = s := by
  have happend := pollAll_quiet_append this s h []
  rw [List.append_nil] at happend
  exact happend

/-- The first error is recorded as a failure, and nothing after it. -/
theorem pollAll_error (hfresh : this.observed = false) {before : List (Poll × Moment)}
    (h : Quiet before) (text : String) (moment : Moment) (after : List (Poll × Moment)) :
    (this.pollAll s (before ++ (.error text, moment) :: after)).2 =
      s.observe this.conversationId this.endpointId false moment := by
  rw [pollAll_quiet_append this s h, pollAll_cons_error hfresh]

/-- The first end is recorded with the flag of the stream. -/
theorem pollAll_done (hfresh : this.observed = false) {before : List (Poll × Moment)}
    (h : Quiet before) (moment : Moment) (after : List (Poll × Moment)) :
    (this.pollAll s (before ++ (.done, moment) :: after)).2 =
      s.observe this.conversationId this.endpointId this.success moment := by
  rw [pollAll_quiet_append this s h, pollAll_cons_done hfresh]

/-- The calls of `observe` with the given flags and times. -/
def observeAll (calls : List (Bool × Moment)) :
    Learners F :=
  calls.foldl (fun s call => s.observe this.conversationId this.endpointId call.1 call.2) s

/-- There is at most one call. -/
theorem exists_calls (hfresh : this.observed = false) (polls : List (Poll × Moment)) :
    ∃ calls, calls.length ≤ 1 ∧ (this.pollAll s polls).2 = this.observeAll s calls := by
  rcases quiet_or_first polls with hquiet | ⟨before, poll, moment, after, rfl, hquiet, hends⟩
  · exact ⟨[], by simp, pollAll_quiet this s hquiet⟩
  · cases poll with
    | pending => exact absurd hends id
    | data bytes => exact absurd hends id
    | error text =>
      exact ⟨[(false, moment)], by simp, pollAll_error this s hfresh hquiet text moment after⟩
    | done =>
      exact ⟨[(this.success, moment)], by simp, pollAll_done this s hfresh hquiet moment after⟩

end ObservingStream

/-- The wrapper that the handler puts around the body of an answer. -/
def Forwarded.wrapper (fwd : Forwarded) (status : Nat) : ObservingStream :=
  ⟨fwd.conversationId, fwd.endpointId, false, isSuccess status⟩

theorem relay_stream (decode : List UInt8 → Except String Json) {fwd : Forwarded}
    (hstream : fwd.stream = true) (s : Learners F) (status : Nat) (moment : Moment)
    (polls : List (Poll × Moment)) :
    relay decode fwd s (.answered status moment polls) =
      let recorded := s.recordCircuit fwd.endpointId (isSuccess status) moment
      (some (.stream status ((fwd.wrapper status).pollAll recorded polls).1),
        ((fwd.wrapper status).pollAll recorded polls).2) := by
  unfold relay
  simp only [hstream, if_true]
  rfl

/-- A streamed answer is forwarded poll by poll, and observed at most once: the
first error as a failure, or the first end with the success of the status, and
nothing before either. -/
theorem streamed_once (decode : List UInt8 → Except String Json) {fwd : Forwarded}
    (hstream : fwd.stream = true) (s : Learners F) (status : Nat) (moment : Moment)
    (polls : List (Poll × Moment)) :
    let recorded := s.recordCircuit fwd.endpointId (isSuccess status) moment
    let answer := relay decode fwd s (.answered status moment polls)
    answer.1 = some (.stream status (polls.map Prod.fst)) ∧
    (∃ calls, calls.length ≤ 1 ∧ answer.2 = (fwd.wrapper status).observeAll recorded calls) ∧
    (Quiet polls → answer.2 = recorded) ∧
    (∀ before text time after, polls = before ++ (.error text, time) :: after → Quiet before →
      answer.2 = recorded.observe fwd.conversationId fwd.endpointId false time) ∧
    ∀ before time after, polls = before ++ (.done, time) :: after → Quiet before →
      answer.2 = recorded.observe fwd.conversationId fwd.endpointId (isSuccess status) time := by
  intro recorded answer
  have hanswer := relay_stream decode hstream s status moment polls
  have hafter : answer.2 = ((fwd.wrapper status).pollAll recorded polls).2 :=
    congrArg Prod.snd hanswer
  refine ⟨?_, ?_, fun hquiet => ?_, fun before text time after hsplit hquiet => ?_,
    fun before time after hsplit hquiet => ?_⟩
  · have hforwarded := ObservingStream.pollAll_fst (fwd.wrapper status) recorded polls
    rw [← hforwarded]
    exact congrArg Prod.fst hanswer
  · rw [hafter]
    exact ObservingStream.exists_calls _ recorded rfl polls
  · rw [hafter]
    exact ObservingStream.pollAll_quiet _ recorded hquiet
  · rw [hafter, hsplit]
    exact ObservingStream.pollAll_error (fwd.wrapper status) recorded rfl hquiet text time after
  · rw [hafter, hsplit]
    exact ObservingStream.pollAll_done (fwd.wrapper status) recorded rfl hquiet time after

/-- The polls of a stream that goes on after an error. -/
def errorThenEnd : List (Poll × Moment) :=
  [(.error "connection reset", ⟨20, 0, 0⟩), (.pending, ⟨30, 0, 0⟩), (.done, ⟨40, 0, 0⟩)]

/-- Only the error is observed. -/
theorem streamed_once_error_then_end :
    let s : Learners Float := .ready (.new 3 30 1) (.new ⟨0.1, 0.1⟩)
    (relay (fun _ => .ok .null) ⟨1, "ep-a", "A", true⟩ s
        (.answered 200 ⟨10, 0, 0⟩ errorThenEnd)).2 =
      (s.recordCircuit "ep-a" (isSuccess 200) ⟨10, 0, 0⟩).observe 1 "ep-a" false ⟨20, 0, 0⟩ :=
  (@streamed_once Float _ (fun _ => .ok .null) ⟨1, "ep-a", "A", true⟩ rfl _ 200 ⟨10, 0, 0⟩
    errorThenEnd).2.2.2.1 [] "connection reset" ⟨20, 0, 0⟩ _ rfl fun _ h => (nomatch h)

end Xfiles.Proxy
