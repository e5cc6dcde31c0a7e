import Mathlib.Data.List.DropRight
import Xfiles.Ai.Discovery
import Xfiles.Queue.Basic

/-!
# Health probes

The model of `ai/probe.rs`.  `probeAll` asks every endpoint for its health and
counts the failures in a row, and `pruneOffline` removes the endpoints that
have been offline for too long.

* `EndpointHealth.apply` is one probe.  The two arms for a failed probe differ
  in the text of the error only, so both are `EndpointHealth.fail`.
* `streak` are the failed probes since the last success.  `Tracks` says that
  the four fields of a health record are functions of it, and `Tracks.apply` is
  the step.
* `lookup_runCalls` says that a run treats every endpoint by itself: its health
  is the one after its own probes.
* `probe_health` puts the two together.

A probe and a removal of one endpoint are single steps.  The answers of the
HTTP client, their latencies and the clock are arguments of a call.
-/

namespace Xfiles.Ai

open Sweep
open Queue (numSeconds)

variable {F : Type}

/-! ## One probe -/

/-- The outcome of the request. -/
inductive ProbeResult where
  | success
  | httpError (status : String)
  | transportError (error : String)
  deriving DecidableEq, Repr

/-- A probe of an endpoint: the outcome, how long it took, and when. -/
structure Probe where
  result : ProbeResult
  latency : UInt64
  now : Int
  deriving DecidableEq, Repr

def Probe.failed (p : Probe) : Bool := p.result ≠ .success

namespace EndpointHealth

/-- The arm of a failed probe. -/
def fail (health : EndpointHealth) (error : String) (now : Int) : EndpointHealth :=
  let failures := health.consecutiveFailures + 1
  if 3 ≤ failures then
    { health with
      consecutiveFailures := failures
      offlineSince := if health.status ≠ .offline then some now else health.offlineSince
      status := .offline
      lastError := some error }
  else
    { health with
      consecutiveFailures := failures
      status := .degraded
      lastError := some error }

/-- The health after a probe. -/
def apply (health : EndpointHealth) (p : Probe) : EndpointHealth :=
  let checked := { health with lastChecked := p.now, probeLatencyMs := p.latency }
  match p.result with
  | .success =>
    { checked with
      consecutiveFailures := 0
      status := .healthy
      offlineSince := none
      lastError := none }
  | .httpError status => checked.fail ("HTTP " ++ status) p.now
  | .transportError error => checked.fail error p.now

end EndpointHealth

/-! ## The endpoint map -/

/-- Probe one target, if it is still there. -/
def probeOne (answer : String → Probe) (endpoints : Endpoints F) (id : String) : Endpoints F :=
  match endpoints.lookup id with
  | some e => endpoints.insert id { e with health := e.health.apply (answer id) }
  | none => endpoints

/-- `ProbeEngine::probe_all`, with the answer of each target. -/
def probeAll (answer : String → Probe) (endpoints : Endpoints F) : Endpoints F :=
  endpoints.keys.foldl (probeOne answer) endpoints

/-- The filter of `prune_offline`. -/
def expired (maxOfflineSecs now : Int) (e : AiEndpoint F) : Bool :=
  e.health.status = .offline &&
    maxOfflineSecs < numSeconds (now - e.health.offlineSince.getD e.health.lastChecked)

/-- `ProbeEngine::prune_offline`: how many endpoints it removes, and what is
left. -/
def pruneOffline (maxOfflineSecs now : Int) (endpoints : Endpoints F) : Nat × Endpoints F :=
  let toRemove := stale (expired maxOfflineSecs now) [] endpoints
  (toRemove.length, toRemove.foldl (fun m id => m.erase id) endpoints)

inductive HealthCall where
  | probeAll (answer : String → Probe)
  | pruneOffline (maxOfflineSecs now : Int)

namespace HealthCall

def run (endpoints : Endpoints F) : HealthCall → Endpoints F
  | .probeAll answer => Ai.probeAll answer endpoints
  | .pruneOffline maxOfflineSecs now => (Ai.pruneOffline maxOfflineSecs now endpoints).2

/-- The clock that the call reads for an endpoint. -/
def time (id : String) : HealthCall → Int
  | .probeAll answer => (answer id).now
  | .pruneOffline _ now => now

/-- The probe that the call makes of an endpoint. -/
def probe (id : String) : HealthCall → Option Probe
  | .probeAll answer => some (answer id)
  | .pruneOffline _ _ => none

end HealthCall

def runCalls (endpoints : Endpoints F) (calls : List HealthCall) : Endpoints F :=
  calls.foldl HealthCall.run endpoints

/-- The probes of an endpoint, the oldest one first. -/
def history (id : String) (calls : List HealthCall) : List Probe :=
  calls.filterMap (HealthCall.probe id)

/-! ## The failures in a row -/

/-- The failed probes since the last success, the oldest one first. -/
def streak (probes : List Probe) : List Probe := probes.rtakeWhile Probe.failed

theorem streak_concat (probes : List Probe) (p : Probe) :
    streak (probes ++ [p]) = if p.failed then streak probes ++ [p] else [] :=
  List.rtakeWhile_concat _ _ _

/-- The status after so many failures in a row. -/
def statusOf : Nat → Router.HealthStatus
  | 0 => .healthy
  | 1 => .degraded
  | 2 => .degraded
  | _ + 3 => .offline

/-- A health record is the one that its probes lead to. -/
structure Tracks (probes : List Probe) (health : EndpointHealth) : Prop where
  failures : health.consecutiveFailures.toNat = (streak probes).length
  status : health.status = statusOf (streak probes).length
  offlineSince : health.offlineSince = (streak probes)[2]?.map (·.now)

theorem tracks_new (now : Int) : Tracks [] (.new now) := ⟨rfl, rfl, rfl⟩

theorem Tracks.fail {probes : List Probe} {health : EndpointHealth} (h : Tracks probes health)
    {p : Probe} (hfailed : p.failed = true)
    (hwrap : (streak (probes ++ [p])).length < 2 ^ 32) (error : String) :
    Tracks (probes ++ [p]) (health.fail error p.now) := by
  have hstreak : streak (probes ++ [p]) = streak probes ++ [p] := by
    rw [streak_concat, if_pos hfailed]
  rw [hstreak, List.length_append, List.length_singleton] at hwrap
  -- the counter does not wrap
  have hcount : (health.consecutiveFailures + 1).toNat = (streak probes).length + 1 := by
    rw [UInt32.toNat_add, h.failures]
    exact Nat.mod_eq_of_lt hwrap
  have hthird : 3 ≤ health.consecutiveFailures + 1 ↔ 3 ≤ (streak probes).length + 1 := by
    rw [UInt32.le_iff_toNat_le, hcount]
    rfl
  unfold EndpointHealth.fail
  simp only [hthird]
  split
  case isTrue hmany =>
    refine ⟨?_, ?_, ?_⟩
    · simp [hstreak, hcount]
    · obtain ⟨n, hn⟩ := Nat.exists_eq_add_of_le hmany
      rw [hstreak, List.length_append, List.length_singleton, hn, Nat.add_comm]
      rfl
    · show (if health.status ≠ .offline then some p.now else health.offlineSince) = _
      rw [hstreak]
      by_cases hexact : (streak probes).length = 2
      -- this probe is the third failure
      · have hstatus : health.status = .degraded := by rw [h.status, hexact]; rfl
        rw [if_pos (by rw [hstatus]; decide), List.getElem?_append_right (by omega), hexact]
        rfl
      · obtain ⟨n, hn⟩ := Nat.exists_eq_add_of_le (show 3 ≤ (streak probes).length by omega)
        have hstatus : health.status = .offline := by
          rw [h.status, hn, Nat.add_comm]
          rfl
        rw [if_neg (not_not.mpr hstatus), h.offlineSince, List.getElem?_append_left (by omega)]
  case isFalse hfew =>
    refine ⟨?_, ?_, ?_⟩
    · simp [hstreak, hcount]
    · show Router.HealthStatus.degraded = _
      have hlength : (streak probes).length = 0 ∨ (streak probes).length = 1 := by omega
      rw [hstreak, List.length_append, List.length_singleton]
      rcases hlength with hlength | hlength <;> rw [hlength] <;> rfl
    · have hnone : (streak probes ++ [p])[2]? = none :=
        List.getElem?_eq_none (by rw [List.length_append, List.length_singleton]; omega)
      show health.offlineSince = _
      rw [hstreak, hnone, h.offlineSince, List.getElem?_eq_none (by omega)]

/-- What one probe preserves. -/
theorem Tracks.apply {probes : List Probe} {health : EndpointHealth} (h : Tracks probes health)
    (p : Probe) (hwrap : (streak (probes ++ [p])).length < 2 ^ 32) :
    Tracks (probes ++ [p]) (health.apply p) := by
  have hchecked : Tracks probes { health with lastChecked := p.now, probeLatencyMs := p.latency } :=
    ⟨h.failures, h.status, h.offlineSince⟩
  unfold EndpointHealth.apply
  cases hresult : p.result with
  | success =>
    have hstreak : streak (probes ++ [p]) = [] := by
      simp [streak_concat, Probe.failed, hresult]
    exact ⟨by simp [hstreak], by simp [hstreak, statusOf], by simp [hstreak]⟩
  | httpError status => exact hchecked.fail (by simp [Probe.failed, hresult]) hwrap _
  | transportError error => exact hchecked.fail (by simp [Probe.failed, hresult]) hwrap _

/-- What a sequence of probes leads to. -/
theorem tracks_foldl (now : Int) (probes : List Probe)
    (hwrap : ∀ past, past <+: probes → (streak past).length < 2 ^ 32) :
    Tracks probes (probes.foldl EndpointHealth.apply (.new now)) := by
  induction probes using List.reverseRecOn with
  | nil => exact tracks_new now
  | append_singleton probes p ih =>
    have hpast := ih fun past h => hwrap past (h.trans (List.prefix_append _ _))
    rw [List.foldl_append]
    exact hpast.apply p (hwrap _ List.prefix_rfl)

/-! ## The failures in time -/

/-- The successes come before the failures of the streak. -/
theorem success_before {probes : List Probe} (hclock : probes.Pairwise fun p q => p.now ≤ q.now)
    {p q : Probe} (hp : p ∈ probes) (hsuccess : p.result = .success) (hq : q ∈ streak probes) :
    p.now ≤ q.now := by
  have hsplit : probes.rdropWhile Probe.failed ++ streak probes = probes :=
    List.rdropWhile_append_rtakeWhile
  have hbefore : p ∈ probes.rdropWhile Probe.failed := by
    rw [← hsplit, List.mem_append] at hp
    refine hp.resolve_right fun hstreak => ?_
    have hfailed := List.mem_rtakeWhile_imp hstreak
    simp [Probe.failed, hsuccess] at hfailed
  rw [← hsplit, List.pairwise_append] at hclock
  exact hclock.2.2 p hbefore q hq

/-! ## The map -/

theorem lookup_probeOne (answer : String → Probe) (endpoints : Endpoints F) (target id : String) :
    (probeOne answer endpoints target).lookup id =
      if target = id then
        (endpoints.lookup id).map fun e => { e with health := e.health.apply (answer id) }
      else endpoints.lookup id := by
  unfold probeOne
  by_cases htarget : target = id
  · subst htarget
    rw [if_pos rfl]
    cases hlookup : endpoints.lookup target with
    | none => simp [hlookup]
    | some e => simp
  · rw [if_neg htarget]
    cases endpoints.lookup target with
    | none => rfl
    | some e => exact AList.lookup_insert_ne (Ne.symm htarget)

theorem lookup_foldl_probeOne (answer : String → Probe) {targets : List String}
    (hnodup : targets.Nodup) (endpoints : Endpoints F) (id : String) :
    (targets.foldl (probeOne answer) endpoints).lookup id =
      if id ∈ targets then
        (endpoints.lookup id).map fun e => { e with health := e.health.apply (answer id) }
      else endpoints.lookup id := by
  induction targets generalizing endpoints with
  | nil => rfl
  | cons target rest ih =>
    rw [List.nodup_cons] at hnodup
    rw [List.foldl_cons, ih hnodup.2, lookup_probeOne]
    by_cases htarget : target = id
    · subst htarget
      rw [if_neg hnodup.1, if_pos rfl, if_pos List.mem_cons_self]
    · rw [if_neg htarget]
      simp [Ne.symm htarget]

/-- A round probes every endpoint once. -/
theorem lookup_probeAll (answer : String → Probe) (endpoints : Endpoints F) (id : String) :
    (probeAll answer endpoints).lookup id =
      (endpoints.lookup id).map fun e => { e with health := e.health.apply (answer id) } := by
  rw [probeAll, lookup_foldl_probeOne answer endpoints.keys_nodup]
  split
  case isTrue => rfl
  case isFalse hmem =>
    rw [AList.lookup_eq_none.mpr hmem]
    rfl

theorem lookup_pruneOffline {maxOfflineSecs now : Int} {endpoints : Endpoints F} {id : String}
    {e : AiEndpoint F} :
    (pruneOffline maxOfflineSecs now endpoints).2.lookup id = some e ↔
      endpoints.lookup id = some e ∧ expired maxOfflineSecs now e = false := by
  have h : (pruneOffline maxOfflineSecs now endpoints).2 =
      sweep (expired maxOfflineSecs now) [] endpoints := rfl
  rw [h, lookup_sweep]
  simp

/-- An endpoint that is there after a run has been there throughout, and its
health is the one after its own probes. -/
theorem lookup_runCalls {endpoints : Endpoints F} {calls : List HealthCall} {id : String}
    {e : AiEndpoint F} (h : (runCalls endpoints calls).lookup id = some e) :
    ∃ e₀, endpoints.lookup id = some e₀ ∧
      e = { e₀ with health := (history id calls).foldl EndpointHealth.apply e₀.health } := by
  induction calls generalizing endpoints with
  | nil => exact ⟨e, h, rfl⟩
  | cons call rest ih =>
    obtain ⟨e₁, hlookup, he⟩ := ih h
    cases call with
    | probeAll answer =>
      have hprobed : (probeAll answer endpoints).lookup id = some e₁ := hlookup
      rw [lookup_probeAll, Option.map_eq_some_iff] at hprobed
      obtain ⟨e₀, hlookup₀, he₁⟩ := hprobed
      exact ⟨e₀, hlookup₀, by rw [he, ← he₁]; rfl⟩
    | pruneOffline maxOfflineSecs now =>
      have hkept : (pruneOffline maxOfflineSecs now endpoints).2.lookup id = some e₁ := hlookup
      exact ⟨e₁, (lookup_pruneOffline.mp hkept).1, he⟩

/-! ## Health over a run -/

theorem pairwise_history {id : String} {calls : List HealthCall}
    (hclock : (calls.map (HealthCall.time id)).Pairwise (· ≤ ·)) :
    (history id calls).Pairwise fun p q => p.now ≤ q.now := by
  rw [List.pairwise_map] at hclock
  refine hclock.filterMap _ fun a b hab p hp q hq => ?_
  cases a with
  | pruneOffline => simp [HealthCall.probe] at hp
  | probeAll answer =>
    cases b with
    | pruneOffline => simp [HealthCall.probe] at hq
    | probeAll answer' =>
      obtain rfl : answer id = p := Option.some.inj hp
      obtain rfl : answer' id = q := Option.some.inj hq
      exact hab

/-- An endpoint expires by the time of the third failure in a row. -/
theorem Tracks.expired_iff {probes : List Probe} {e : AiEndpoint F} (h : Tracks probes e.health)
    (maxOfflineSecs now : Int) :
    expired maxOfflineSecs now e = true ↔ e.health.status = .offline ∧
      ∃ third, (streak probes)[2]? = some third ∧
        maxOfflineSecs < numSeconds (now - third.now) := by
  rw [expired, Bool.and_eq_true, decide_eq_true_iff, decide_eq_true_iff, h.offlineSince]
  refine and_congr_right fun hoffline => ?_
  have hlength : 2 < (streak probes).length := by
    by_contra hshort
    have hcases : (streak probes).length = 0 ∨ (streak probes).length = 1 ∨
        (streak probes).length = 2 := by omega
    rw [h.status] at hoffline
    rcases hcases with hcase | hcase | hcase <;> rw [hcase] at hoffline <;> cases hoffline
  rw [List.getElem?_eq_getElem hlength]
  simp

theorem numSeconds_le {elapsed secs : Int} (h : elapsed ≤ secs * 1000000000)
    (hsecs : 0 ≤ secs) : numSeconds elapsed ≤ secs := by
  have hmono := Queue.numSeconds_mono h
  have hexact : numSeconds (secs * 1000000000) = secs := by
    rw [numSeconds, Int.tdiv_eq_ediv_of_nonneg (by omega)]
    omega
  rwa [hexact] at hmono

/-- The status by the counter. -/
theorem Tracks.status_iff {probes : List Probe} {health : EndpointHealth}
    (h : Tracks probes health) :
    (health.status = .healthy ↔ health.consecutiveFailures.toNat = 0) ∧
      (health.status = .degraded ↔
        health.consecutiveFailures.toNat = 1 ∨ health.consecutiveFailures.toNat = 2) ∧
      (health.status = .offline ↔ 3 ≤ health.consecutiveFailures.toNat) := by
  rw [h.failures, h.status]
  match (streak probes).length with
  | 0 => simp [statusOf]
  | 1 => simp [statusOf]
  | 2 => simp [statusOf]
  | n + 3 => simp [statusOf]

theorem Tracks.offlineSince_isSome_iff {probes : List Probe} {health : EndpointHealth}
    (h : Tracks probes health) : health.offlineSince.isSome = true ↔ health.status = .offline := by
  rw [h.status_iff.2.2, h.failures, h.offlineSince, Option.isSome_map,
    Option.isSome_iff_ne_none, ne_eq, List.getElem?_eq_none_iff]
  omega

/-- The health of an endpoint over any run of probes and removals. -/
theorem probe_health {endpoints : Endpoints F} {calls : List HealthCall} {id : String}
    {e : AiEndpoint F}
    (hstart : ∀ e₀, endpoints.lookup id = some e₀ → ∃ created, e₀.health = .new created)
    (hclock : (calls.map (HealthCall.time id)).Pairwise (· ≤ ·))
    (hwrap : ∀ past, past <+: history id calls → (streak past).length < 2 ^ 32)
    (hpresent : (runCalls endpoints calls).lookup id = some e) :
    let failures := streak (history id calls)
    ((e.health.status = .healthy ↔ e.health.consecutiveFailures.toNat = 0) ∧
      (e.health.status = .degraded ↔
        e.health.consecutiveFailures.toNat = 1 ∨ e.health.consecutiveFailures.toNat = 2) ∧
      (e.health.status = .offline ↔ 3 ≤ e.health.consecutiveFailures.toNat)) ∧
    e.health.consecutiveFailures.toNat = failures.length ∧
    (e.health.offlineSince.isSome = true ↔ e.health.status = .offline) ∧
    e.health.offlineSince = failures[2]?.map (·.now) ∧
    ∀ maxOfflineSecs now, (∀ call ∈ calls, call.time id ≤ now) →
      ((pruneOffline maxOfflineSecs now (runCalls endpoints calls)).2.lookup id = none ↔
        e.health.status = .offline ∧ ∃ third, failures[2]? = some third ∧
          maxOfflineSecs < numSeconds (now - third.now)) ∧
      ∀ p ∈ history id calls, p.result = .success →
        now - p.now ≤ maxOfflineSecs * 1000000000 →
        (pruneOffline maxOfflineSecs now (runCalls endpoints calls)).2.lookup id = some e := by
  intro failures
  obtain ⟨e₀, hlookup, he⟩ := lookup_runCalls hpresent
  obtain ⟨created, hcreated⟩ := hstart e₀ hlookup
  have htracks : Tracks (history id calls) e.health := by
    rw [he, hcreated]
    exact tracks_foldl created _ hwrap
  refine ⟨htracks.status_iff, htracks.failures, htracks.offlineSince_isSome_iff,
    htracks.offlineSince, fun maxOfflineSecs now hnow => ⟨?_, fun p hp hsuccess hrecent => ?_⟩⟩
  · rw [← htracks.expired_iff maxOfflineSecs now, AList.lookup_eq_none, ← AList.lookup_isSome,
      Option.isSome_iff_exists, ← not_iff_not, not_not, Bool.not_eq_true]
    constructor
    · rintro ⟨e', he'⟩
      have hkept := lookup_pruneOffline.mp he'
      obtain rfl : e = e' := Option.some.inj (hpresent.symm.trans hkept.1)
      exact hkept.2
    · intro hexpired
      exact ⟨e, lookup_pruneOffline.mpr ⟨hpresent, hexpired⟩⟩
  · refine lookup_pruneOffline.mpr ⟨hpresent, ?_⟩
    rw [← Bool.not_eq_true, htracks.expired_iff]
    rintro ⟨-, third, hthird, hold⟩
    -- the third failure is after the success, and not long ago either
    have hafter : p.now ≤ third.now :=
      success_before (pairwise_history hclock) hp hsuccess (List.mem_of_getElem? hthird)
    have hpast : p.now ≤ now := by
      obtain ⟨call, hcall, hprobe⟩ := List.mem_filterMap.mp hp
      cases call with
      | pruneOffline => simp [HealthCall.probe] at hprobe
      | probeAll answer =>
        obtain rfl : answer id = p := Option.some.inj hprobe
        exact hnow _ hcall
    have hshort := numSeconds_le (show now - third.now ≤ maxOfflineSecs * 1000000000 by omega)
      (by omega)
    omega

/-- An endpoint that fails three times, and is probed once more. -/
def failingCalls : List HealthCall :=
  [1, 2, 3, 4].map fun secs =>
    .probeAll fun _ => ⟨.httpError "500 Internal Server Error", 1, secs * 1000000000⟩

def flaky : AiEndpoint Float where
  id := "flaky"
  name := "flaky"
  url := "http://localhost:8000"
  endpointType := .inference
  weight := 1.0
  tags := []
  headers := ∅
  health := .new 0

theorem probe_health_failing :
    let endpoints : Endpoints Float := AList.singleton "flaky" flaky
    ((runCalls endpoints failingCalls).lookup "flaky").map (·.health.status) = some .offline ∧
      (pruneOffline 600 603000000000 (runCalls endpoints failingCalls)).2.lookup "flaky" ≠ none ∧
      (pruneOffline 600 604000000000 (runCalls endpoints failingCalls)).2.lookup "flaky" =
        none := by
  intro endpoints
  have hpresent : (runCalls endpoints failingCalls).lookup "flaky" =
      some { flaky with
        health := (history "flaky" failingCalls).foldl EndpointHealth.apply (.new 0) } :=
    rfl
  have hhealth := probe_health (fun e hlookup => ⟨0, by
      obtain rfl := Option.some.inj hlookup
      rfl⟩) (by decide) (fun past hpast => Nat.lt_of_le_of_lt
    ((List.rtakeWhile_suffix _ _).length_le.trans hpast.length_le) (by decide)) hpresent
  refine ⟨rfl, ?_, ?_⟩
  · rw [ne_eq, (hhealth.2.2.2.2 600 603000000000 (by decide)).1]
    rintro ⟨-, third, hthird, hold⟩
    obtain rfl := Option.some.inj hthird
    revert hold
    decide
  · exact (hhealth.2.2.2.2 600 604000000000 (by decide)).1.mpr ⟨rfl, _, rfl, by decide⟩

end Xfiles.Ai
