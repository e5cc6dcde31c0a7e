import Mathlib.Data.List.Infix
import Xfiles.Circuit.Phases

/-!
# The probes of one half-open episode

`half_open_calls` is set when an episode opens, and no other transition
resets it.  An episode is a stretch of a run in which the circuit of one
endpoint stays half-open.

* `admitted` counts the `allow` calls of a stretch that return `true`.
* `halfOpenCalls_exec` says that the counter of the entry moves by that
  count.  It holds from any breaker, so a stale counter does no harm.
* `half_open_probe_limit` is the bound.  The opening call sets the counter
  to one, and the probing phase keeps it within the limit.
-/

namespace Xfiles.Circuit

open CircuitBreaker

/-- The number of `allow(e)` calls of the list that return `true`. -/
def admitted (e : String) (cb : CircuitBreaker) : List Call → Nat
  | [] => 0
  | call :: rest =>
    (if call.op = .allow ∧ call.endpointId = e ∧ (cb.allow e call.now).1 = true
      then 1 else 0) + admitted e (cb.step call) rest

/-- A call that leaves a half-open circuit half-open is an `allow`, and it
counts one slot exactly when it returns `true`. -/
theorem stepEntry_halfOpen {limits : Limits} {entry : EndpointCircuit} {call : Call}
    (hs : entry.state = .halfOpen)
    (hs' : (limits.stepEntry entry call).state = .halfOpen) :
    call.op = .allow ∧
      (limits.stepEntry entry call).halfOpenCalls.toNat =
        entry.halfOpenCalls.toNat +
          if (limits.allowEntry call.now entry).1 = true then 1 else 0 := by
  unfold Limits.stepEntry at *
  cases hop : call.op with
  | allow =>
    have hmax := limits.halfOpenMaxCalls.toNat_lt
    simp only [true_and, allowEntry_halfOpen hs]
    split
    · rename_i hlt
      rw [UInt32.lt_iff_toNat_lt] at hlt
      simp only [UInt32.toNat_add, UInt32.toNat_one, if_true]
      omega
    · simp
  | recordSuccess =>
    rw [hop] at hs'
    simp [recordSuccessEntry_halfOpen hs] at hs'
  | recordFailure =>
    rw [hop] at hs'
    simp [recordFailureEntry_halfOpen hs] at hs'

/-- While the circuit of `e` stays half-open, its slot counter counts the
admitted calls. -/
theorem halfOpenCalls_exec {e : String} {calls : List Call} {cb : CircuitBreaker}
    (hstay : ∀ first, first <+: calls → ((cb.exec first).entry e).state = .halfOpen) :
    ((cb.exec calls).entry e).halfOpenCalls.toNat =
      (cb.entry e).halfOpenCalls.toNat + admitted e cb calls := by
  induction calls generalizing cb with
  | nil => rfl
  | cons call rest ih =>
    have hs : (cb.entry e).state = .halfOpen := hstay [] (List.nil_prefix)
    have hs' : ((cb.step call).entry e).state = .halfOpen :=
      hstay [call] (by simp)
    have hstay' : ∀ first, first <+: rest →
        (((cb.step call).exec first).entry e).state = .halfOpen := fun first hfirst =>
      hstay (call :: first) ((List.prefix_cons_inj call).mpr hfirst)
    have hrest := ih hstay'
    rw [exec_cons, hrest, admitted]
    by_cases he : call.endpointId = e
    · rw [entry_step_self cb he] at hs' ⊢
      obtain ⟨hop, hslot⟩ := stepEntry_halfOpen hs hs'
      rw [hslot]
      simp only [hop, he, allow_fst, true_and]
      omega
    · rw [entry_step_of_ne cb he]
      simp [he]

/-- The slot counter of a half-open circuit is within the probe bound, in
every state that a new breaker reaches. -/
theorem halfOpenCalls_le {limits : Limits} {e : String} {calls : List Call}
    (hs : ((ofLimits limits).exec calls).getState e = .halfOpen) :
    (((ofLimits limits).exec calls).entry e).halfOpenCalls.toNat ≤
      limits.probeBound := by
  have h := Phase.entry_exec_represents limits e calls
  rw [getState_eq] at hs
  cases hphase : Phase.after limits e calls with
  | counting failures below =>
    rw [hphase] at h
    exact absurd (hs.symm.trans h.1) (by simp)
  | waiting since =>
    rw [hphase] at h
    exact absurd (hs.symm.trans h.1) (by simp)
  | probing since probes within =>
    rw [hphase] at h
    rw [h.2.2]
    exact within

/-- The half-open probe limit.  After any calls `before`, an `allow(e)` finds
the circuit of `e` open and moves it to half-open, and it stays half-open
through the calls of `episode`.  Then the opening call and the episode
let at most `max(1, half_open_max_calls)` calls for `e` through, however many
episodes came before. -/
theorem half_open_probe_limit (limits : Limits) (before episode : List Call)
    (e : String) (now : Nat)
    (hopen : ((ofLimits limits).exec before).getState e = .opened)
    (hstay : ∀ first, first <+: episode →
      ((ofLimits limits).exec (before ++ ⟨.allow, e, now⟩ :: first)).getState e =
        .halfOpen) :
    admitted e ((ofLimits limits).exec before) (⟨.allow, e, now⟩ :: episode) ≤
      max 1 limits.halfOpenMaxCalls.toNat := by
  have hbound := halfOpenCalls_le (hstay episode (List.prefix_refl _))
  generalize hcb : (ofLimits limits).exec before = cb at *
  simp only [getState_eq, exec_append, exec_cons, hcb] at hopen hstay hbound
  have hcount := halfOpenCalls_exec hstay
  -- the opening call takes the first slot
  have hfirst : ((cb.step ⟨.allow, e, now⟩).entry e).halfOpenCalls.toNat = 1 := by
    have hs := hstay [] List.nil_prefix
    rw [exec_nil, entry_step_self cb rfl] at hs
    rw [entry_step_self cb rfl]
    simp only [Limits.stepEntry] at hs ⊢
    cases hlast : (cb.entry e).lastFailure with
    | none => simp [Limits.allowEntry, hopen, hlast] at hs
    | some last =>
      rw [allowEntry_opened hopen hlast] at hs ⊢
      split at hs
      · rename_i htime
        rw [if_pos htime]
        rfl
      · simp [hopen] at hs
  have hle : (if (cb.allow e now).1 = true then 1 else 0) ≤ 1 := by split <;> omega
  unfold Limits.probeBound at hbound
  simp only [admitted, true_and]
  omega

/-- Two probes at a limit of two: the third `allow` of the episode is
refused. -/
theorem half_open_probe_limit_two :
    admitted "ep-1"
        ((ofLimits ⟨1, 5000000000, 2⟩).exec [⟨.recordFailure, "ep-1", 0⟩])
        [⟨.allow, "ep-1", 5000000000⟩, ⟨.allow, "ep-1", 6000000000⟩,
          ⟨.allow, "ep-1", 7000000000⟩] ≤ max 1 2 :=
  half_open_probe_limit ⟨1, 5000000000, 2⟩ [⟨.recordFailure, "ep-1", 0⟩]
    [⟨.allow, "ep-1", 6000000000⟩, ⟨.allow, "ep-1", 7000000000⟩] "ep-1" 5000000000 rfl (by
      intro first hfirst
      rw [← List.mem_inits] at hfirst
      revert first
      decide)

end Xfiles.Circuit
