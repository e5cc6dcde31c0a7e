import Xfiles.Ai.Fleet

/-!
# A daemon that starts without endpoints

The daemon starts the health probes only when the configuration has left an endpoint in the
map.  The scans and the removals run in any case.  Without probes an endpoint that a scan
finds keeps the health it was found with: it is never offline, `prune_offline` has nothing
to do, and only a scan that did not find it can take the endpoint away again
(`never_offline`).
-/

namespace Xfiles.Ai.Fleet

open Transition

variable {F : Type} [One F]

/-- The tasks that the daemon starts over the endpoints of its configuration. -/
def daemonStep (base : List (AiEndpoint F)) (s : Fleet F) : FleetEvent → Option (Fleet F)
  | .probeAll targets => if base.isEmpty then none else s.step (.probeAll targets)
  | event => s.step event

/-- No probe is under way, and none was ever made. -/
structure Unprobed (s : Fleet F) : Prop where
  targets : s.targets = []
  entries : ∀ id e, s.endpoints.lookup id = some e → ∃ now, e.health = .new now
  pending : ∀ source found e, s.searches source = some ⟨found, some e⟩ →
    ∃ now, e.health = .new now
  collected : ∀ id, id ∉ (s.passes .offline).ids

theorem daemonStep_nil {s t : Fleet F} {event : FleetEvent}
    (hstep : daemonStep [] s event = some t) :
    (∀ targets, event ≠ .probeAll targets) ∧ s.step event = some t := by
  cases event with
  | probeAll targets => exact absurd hstep (by simp [daemonStep])
  | _ => exact ⟨by simp, hstep⟩

/-- Without a round of probes there is no probe, and the targets stay away. -/
theorem targets_step {s t : Fleet F} {event : FleetEvent} (htargets : s.targets = [])
    (hround : ∀ targets, event ≠ .probeAll targets) (hstep : s.step event = some t) :
    t.targets = [] ∧ ∀ p, event ≠ .probe p := by
  cases event with
  | probeAll targets => exact absurd rfl (hround targets)
  | probe p =>
    simp only [step, htargets] at hstep
    exact absurd hstep (by simp)
  | _ =>
    refine ⟨?_, by simp⟩
    simp only [step] at hstep
    repeat' split at hstep
    all_goals first
      | (obtain rfl := Option.some.inj hstep
         exact htargets)
      | exact absurd hstep (by simp)

theorem Unprobed.step {s t : Fleet F} (h : s.Unprobed) {event : FleetEvent}
    (hround : ∀ targets, event ≠ .probeAll targets) (hstep : s.step event = some t) :
    t.Unprobed := by
  obtain ⟨htargets, hprobe⟩ := targets_step h.targets hround hstep
  refine ⟨htargets, ?_, ?_, ?_⟩
  · refine entries_step hstep h.entries (fun _ _ hnew => hnew) ?_ ?_
    · intro p id e hevent _
      exact absurd hevent (hprobe p)
    · intro source found e hpending
      exact h.pending _ _ _ hpending
  · intro source found e hpending
    rcases pending_step hstep hpending with ⟨found', hold⟩ | ⟨find, now, -, -, hendpoint⟩
    · exact h.pending source found' e hold
    · exact ⟨now, endpoint_health hendpoint⟩
  · intro id hmem
    rcases ids_step hstep hmem with hold | ⟨-, keep, now, collected, e, -, hlookup, hdooms⟩
    · exact h.collected id hold
    · -- an entry that the pass takes up is offline
      obtain ⟨since, hhealth⟩ := h.entries id e hlookup
      have hexpired : expired s.maxOfflineSecs now e = true := hdooms
      rw [expired, hhealth] at hexpired
      exact absurd hexpired (by simp [EndpointHealth.new])

theorem unprobed_of_run {maxOfflineSecs : Int} {events : List FleetEvent} {s : Fleet F}
    (hrun : run (daemonStep []) (launched [] maxOfflineSecs) events = some s) : s.Unprobed := by
  refine invariant_of_run (I := Unprobed) ?_ ⟨rfl, ?_, ?_, ?_⟩ hrun
  · intro s event t hs hstep
    obtain ⟨hround, hmove⟩ := daemonStep_nil hstep
    exact hs.step hround hmove
  · intro id e hlookup
    have hempty : (launched [] maxOfflineSecs : Fleet F).endpoints = ∅ := rfl
    rw [hempty, AList.lookup_empty] at hlookup
    exact absurd hlookup (by simp)
  · intro source found e hpending
    exact absurd hpending (by simp [launched])
  · intro id hmem
    exact List.not_mem_nil hmem

/-- A run of the daemon is a run of the tasks. -/
theorem run_of_daemonStep {s t : Fleet F} {events : List FleetEvent}
    (hrun : run (daemonStep []) s events = some t) : run step s events = some t := by
  induction events generalizing s with
  | nil => exact hrun
  | cons event rest ih =>
    obtain ⟨u, hstep, hrest⟩ := run_cons_eq_some.mp hrun
    exact run_cons_eq_some.mpr ⟨u, (daemonStep_nil hstep).2, ih hrest⟩

/-- A removal pass of a scan is under way that has tested the entry, and the id is not among
those that the scan has found. -/
def Unfound (maxOfflineSecs : Int) (events : List FleetEvent) (source : Source) (id : String) :
    Prop :=
  ∃ (before after : List FleetEvent) (u : Fleet F) (keep : List String) (now : Int)
    (collected : List String),
    events = before ++ .test (.scan source) id :: after ∧ .finish (.scan source) ∉ after ∧
    run (daemonStep []) (launched [] maxOfflineSecs) before = some u ∧
    u.passes (.scan source) = .testing keep now collected ∧ id ∉ keep

/-- What a scan removes was tested and not found. -/
theorem unfound_of_removing {maxOfflineSecs : Int} {events : List FleetEvent} {s : Fleet F}
    (hrun : run (daemonStep []) (launched [] maxOfflineSecs) events = some s) {source : Source}
    {id : String} (hmem : id ∈ (s.passes (.scan source)).ids) :
    Unfound (F := F) maxOfflineSecs events source id := by
  have hids : (([] : List (AiEndpoint F)).map (·.id)).Nodup := List.nodup_nil
  have htraced := traced_of_run hids (run_of_daemonStep hrun)
  obtain ⟨after, ⟨before, u, keep, now, collected, e, rfl, hbefore, hpass, -, hdooms⟩, hsame⟩ :=
    htraced.collected _ id hmem
  rw [run_append] at hrun
  obtain ⟨u', hbefore', -⟩ := Option.bind_eq_some_iff.mp hrun
  obtain rfl : u = u' := Option.some.inj (hbefore.symm.trans (run_of_daemonStep hbefore'))
  have hdoomed : (owned source e && decide (id ∉ keep)) = true := hdooms
  rw [Bool.and_eq_true, decide_eq_true_iff] at hdoomed
  exact ⟨before, after, u, keep, now, collected, rfl, hsame, hbefore', hpass, hdoomed.2⟩

/-- A daemon that starts without endpoints never sees one offline: every endpoint that it
finds later is healthy, without a failure, as long as it is in the map, and only a scan that
did not find it removes it. -/
theorem never_offline {maxOfflineSecs : Int} {events : List FleetEvent} {s : Fleet F}
    (hrun : run (daemonStep []) (launched [] maxOfflineSecs) events = some s) :
    (∀ id e, s.endpoints.lookup id = some e → e.health.status = .healthy ∧
      e.health.consecutiveFailures = 0 ∧ e.health.offlineSince = none) ∧
    ∀ event t, daemonStep [] s event = some t → ∀ id, s.endpoints.lookup id ≠ none →
      t.endpoints.lookup id = none →
      ∃ source, event = .remove (.scan source) ∧
        Unfound (F := F) maxOfflineSecs events source id := by
  have hunprobed := unprobed_of_run hrun
  constructor
  · intro id e hlookup
    obtain ⟨now, hhealth⟩ := hunprobed.entries id e hlookup
    rw [hhealth]
    exact ⟨rfl, rfl, rfl⟩
  · intro event t hstep id hthere hgone
    obtain ⟨hround, hmove⟩ := daemonStep_nil hstep
    obtain ⟨-, hprobe⟩ := targets_step hunprobed.targets hround hmove
    cases change_step hmove with
    | same hsame =>
      rw [hsame] at hgone
      exact absurd hgone hthere
    | probed target hprobed => exact absurd rfl (hprobe _)
    | inserted found e hpending hinserted =>
      rw [hinserted] at hgone
      by_cases hid : id = e.id
      · rw [hid, AList.lookup_insert] at hgone
        exact absurd hgone (by simp)
      · rw [AList.lookup_insert_ne hid] at hgone
        exact absurd hgone hthere
    | @removed janitor target rest hpass hremoved =>
      cases janitor with
      | offline =>
        exact absurd (hpass ▸ List.mem_cons_self : target ∈ (s.passes .offline).ids)
          (hunprobed.collected target)
      | scan source =>
        have hid : id = target := by
          by_contra hne
          rw [hremoved, AList.lookup_erase_ne hne] at hgone
          exact hthere hgone
        refine ⟨source, rfl, unfound_of_removing hrun ?_⟩
        rw [hpass, hid]
        exact List.mem_cons_self

/-- A scan finds an endpoint, a removal of offline ones comes much later, and the next scan
does not find the endpoint. -/
def foundEvents : List FleetEvent :=
  [.scan .port, .find (.port 8080) 1, .insert .port, .pruneStale .port, .removeAll (.scan .port),
    .finish (.scan .port), .pruneOffline 900000000000, .test .offline "routage-8080",
    .scan .port, .pruneStale .port, .test (.scan .port) "routage-8080", .removeAll (.scan .port)]

theorem never_offline_found : ∃ (s : Fleet Nat) (e : AiEndpoint Nat),
    run (daemonStep []) (launched [] 600) foundEvents = some s ∧
      s.endpoints.lookup "routage-8080" = some e ∧ e.health.status = .healthy ∧
      ∃ source, Unfound (F := Nat) 600 foundEvents source "routage-8080" := by
  obtain ⟨s, t, e, hrun, hlookup, hstep, hgone⟩ : ∃ (s t : Fleet Nat) (e : AiEndpoint Nat),
      run (daemonStep []) (launched [] 600) foundEvents = some s ∧
        s.endpoints.lookup "routage-8080" = some e ∧
        daemonStep [] s (.remove (.scan .port)) = some t ∧
        t.endpoints.lookup "routage-8080" = none := ⟨_, _, _, rfl, rfl, rfl, rfl⟩
  obtain ⟨hentries, hremoved⟩ := never_offline hrun
  obtain ⟨source, -, hunfound⟩ := hremoved _ t hstep _ (by rw [hlookup]; simp) hgone
  exact ⟨s, e, hrun, hlookup, (hentries _ e hlookup).1, source, hunfound⟩

end Xfiles.Ai.Fleet
