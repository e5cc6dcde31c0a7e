import Mathlib.Data.List.Induction
import Xfiles.Ai.Probe

/-!
# The endpoint map under its four tasks

The daemon runs health probes, the removal of offline endpoints, port discovery and docker
discovery as tasks of their own, on one map.  A task gives way wherever it awaits, and the
removals of a pass come one by one after its tests.  `Fleet.step` has these parts as
single steps, in any order: `Ai/Probe.lean` and `Ai/Discovery.lean` have the tasks in one
piece each.

* A probe round takes a list of targets first.  A target may be gone or be another
  endpoint when its answer comes.
* A scan asks whether a find is there, and inserts it later.
* A removal pass (`Janitor`) tests entries and removes the ids that it collected,
  whatever has become of them.

`Entry` is what holds of each entry and `Sound` the invariant over runs.  `Justified` says
that a removal goes back to a test.  `fleet_sound` and `lost_after_offline` are the results.
-/

namespace Xfiles.Ai

open Sweep Transition

variable {F : Type}

/-- The tasks that remove endpoints. -/
inductive Janitor where
  | offline
  | scan (source : Source)
  deriving DecidableEq

/-- Where a removal pass stands.  `keep` are the ids that the scan has found. -/
inductive Pass where
  | idle
  | testing (keep : List String) (now : Int) (collected : List String)
  | removing (ids : List String)
  deriving DecidableEq

/-- The ids that a pass is going to remove. -/
def Pass.ids : Pass → List String
  | .idle => []
  | .testing _ _ collected => collected
  | .removing ids => ids

/-- What a scan comes across: a port that answers, or a container. -/
inductive Find where
  | port (port : UInt16)
  | container (container : Container)

def Find.source : Find → Source
  | .port _ => .port
  | .container _ => .docker

/-- A scan before its removals: the ids it found, and what it is about to insert. -/
structure Search (F : Type) where
  found : List String
  pending : Option (AiEndpoint F)

/-- The endpoint of a find.  A container without the label of a service has none. -/
def Find.endpoint [One F] (now : Int) : Find → Option (AiEndpoint F)
  | .port number =>
    let service := inferService (portUrl number)
    some { portService number service.1 service.2 with health := .new now }
  | .container listed =>
    ((listed.labels.getD ∅).lookup "ai.xfiles.service").map fun serviceName =>
      { dockerService listed serviceName with health := .new now }

structure Fleet (F : Type) where
  endpoints : Endpoints F
  maxOfflineSecs : Int
  targets : List String
  searches : Source → Option (Search F)
  passes : Janitor → Pass

inductive FleetEvent where
  | probeAll (targets : List String)
  | probe (p : Probe)
  | scan (source : Source)
  | find (find : Find) (now : Int)
  | insert (source : Source)
  | pruneStale (source : Source)
  | pruneOffline (now : Int)
  | test (janitor : Janitor) (id : String)
  | removeAll (janitor : Janitor)
  | remove (janitor : Janitor)
  | finish (janitor : Janitor)

namespace Fleet

def setPass (s : Fleet F) (janitor : Janitor) (pass : Pass) : Fleet F :=
  { s with passes := Function.update s.passes janitor pass }

def setSearch (s : Fleet F) (source : Source) (search : Option (Search F)) : Fleet F :=
  { s with searches := Function.update s.searches source search }

@[simp] theorem setPass_searches (s : Fleet F) (janitor : Janitor) (pass : Pass) :
    (s.setPass janitor pass).searches = s.searches := rfl

@[simp] theorem setSearch_searches (s : Fleet F) (source : Source) (search : Option (Search F)) :
    (s.setSearch source search).searches = Function.update s.searches source search := rfl

@[simp] theorem setPass_passes (s : Fleet F) (janitor : Janitor) (pass : Pass) :
    (s.setPass janitor pass).passes = Function.update s.passes janitor pass := rfl

@[simp] theorem setSearch_passes (s : Fleet F) (source : Source) (search : Option (Search F)) :
    (s.setSearch source search).passes = s.passes := rfl

/-- The map at the start of the daemon. -/
def launched (base : List (AiEndpoint F)) (maxOfflineSecs : Int) : Fleet F where
  endpoints := (started base).map
  maxOfflineSecs := maxOfflineSecs
  targets := []
  searches _ := none
  passes _ := .idle

theorem launched_lookup {base : List (AiEndpoint F)} (hids : (base.map (·.id)).Nodup)
    {maxOfflineSecs : Int} {b : AiEndpoint F} (hb : b ∈ base) :
    (launched base maxOfflineSecs).endpoints.lookup b.id = some b := by
  have hkept : Kept (·.id) base (started base) := kept_start hids
  exact hkept b hb

variable [One F]

/-- The test that a pass makes of an entry. -/
def dooms (s : Fleet F) (janitor : Janitor) (keep : List String) (now : Int) (e : AiEndpoint F)
    (id : String) : Bool :=
  match janitor with
  | .offline => expired s.maxOfflineSecs now e
  | .scan source => owned source e && id ∉ keep

def step (s : Fleet F) : FleetEvent → Option (Fleet F)
  | .probeAll targets =>
    match s.targets with
    | [] => some { s with targets }
    | _ => none
  | .probe p =>
    match s.targets with
    | id :: rest =>
      some { s with endpoints := probeOne (fun _ => p) s.endpoints id, targets := rest }
    | [] => none
  | .scan source =>
    match s.searches source, s.passes (.scan source) with
    | none, .idle => some (s.setSearch source (some ⟨[], none⟩))
    | _, _ => none
  | .find find now =>
    match s.searches find.source, find.endpoint now with
    | some ⟨found, none⟩, some e =>
      -- `contains_key`
      if e.id ∈ s.endpoints then some (s.setSearch find.source (some ⟨found ++ [e.id], none⟩))
      else some (s.setSearch find.source (some ⟨found ++ [e.id], some e⟩))
    | _, _ => none
  | .insert source =>
    match s.searches source with
    | some ⟨found, some e⟩ =>
      some ({ s with endpoints := s.endpoints.insert e.id e }.setSearch source (some ⟨found, none⟩))
    | _ => none
  | .pruneStale source =>
    match s.searches source with
    | some ⟨found, none⟩ =>
      some ((s.setSearch source none).setPass (.scan source) (.testing found 0 []))
    | _ => none
  | .pruneOffline now =>
    match s.passes .offline with
    | .idle => some (s.setPass .offline (.testing [] now []))
    | _ => none
  | .test janitor id =>
    match s.passes janitor, s.endpoints.lookup id with
    | .testing keep now collected, some e =>
      if s.dooms janitor keep now e id then
        some (s.setPass janitor (.testing keep now (collected ++ [id])))
      else some s
    | _, _ => none
  | .removeAll janitor =>
    match s.passes janitor with
    | .testing _ _ collected => some (s.setPass janitor (.removing collected))
    | _ => none
  | .remove janitor =>
    match s.passes janitor with
    | .removing (id :: rest) =>
      some ({ s with endpoints := s.endpoints.erase id }.setPass janitor (.removing rest))
    | _ => none
  | .finish janitor =>
    match s.passes janitor with
    | .removing [] => some (s.setPass janitor .idle)
    | _ => none

/-! ## What a step does to the map -/

/-- How the map can change. -/
inductive Change (s t : Fleet F) : FleetEvent → Prop where
  | same {event} (h : t.endpoints = s.endpoints) : Change s t event
  | probed {p} (id : String) (h : t.endpoints = probeOne (fun _ => p) s.endpoints id) :
    Change s t (.probe p)
  | inserted {source} (found : List String) (e : AiEndpoint F)
    (hpending : s.searches source = some ⟨found, some e⟩)
    (h : t.endpoints = s.endpoints.insert e.id e) : Change s t (.insert source)
  | removed {janitor} (id : String) (rest : List String)
    (hpass : s.passes janitor = .removing (id :: rest))
    (h : t.endpoints = s.endpoints.erase id) : Change s t (.remove janitor)

theorem change_step {s t : Fleet F} {event : FleetEvent} (hstep : s.step event = some t) :
    Change s t event := by
  cases event with
  | probe p =>
    simp only [step] at hstep
    split at hstep
    · rename_i id rest _
      obtain rfl := Option.some.inj hstep
      exact .probed id rfl
    · exact absurd hstep (by simp)
  | insert source =>
    simp only [step] at hstep
    split at hstep
    · rename_i found e hsearch
      obtain rfl := Option.some.inj hstep
      exact .inserted found e hsearch rfl
    · exact absurd hstep (by simp)
  | remove janitor =>
    simp only [step] at hstep
    split at hstep
    · rename_i id rest hpass
      obtain rfl := Option.some.inj hstep
      exact .removed id rest hpass rfl
    · exact absurd hstep (by simp)
  | _ =>
    refine .same ?_
    simp only [step] at hstep
    repeat' split at hstep
    all_goals first
      | (obtain rfl := Option.some.inj hstep
         rfl)
      | exact absurd hstep (by simp)

/-- What holds of every entry after a step, given what holds before: a probe changes the
health of an entry, an insertion adds one, and a removal leaves the others alone. -/
theorem entries_step {s t : Fleet F} {event : FleetEvent} {I J : String → AiEndpoint F → Prop}
    (hstep : s.step event = some t) (h : ∀ id e, s.endpoints.lookup id = some e → I id e)
    (hkeep : ∀ id e, I id e → J id e)
    (hprobe : ∀ p id e, event = .probe p → I id e →
      J id { e with health := e.health.apply p })
    (hinsert : ∀ source found e, s.searches source = some ⟨found, some e⟩ → J e.id e) :
    ∀ id e, t.endpoints.lookup id = some e → J id e := by
  intro id e hlookup
  cases change_step hstep with
  | same hsame =>
    rw [hsame] at hlookup
    exact hkeep id e (h id e hlookup)
  | probed target hprobed =>
    rw [hprobed, lookup_probeOne] at hlookup
    split at hlookup
    · obtain ⟨e', hlookup', rfl⟩ := Option.map_eq_some_iff.mp hlookup
      exact hprobe _ id e' rfl (h id e' hlookup')
    · exact hkeep id e (h id e hlookup)
  | inserted found e' hpending hinserted =>
    rw [hinserted] at hlookup
    by_cases hid : id = e'.id
    · subst hid
      rw [AList.lookup_insert] at hlookup
      obtain rfl := Option.some.inj hlookup
      exact hinsert _ _ _ hpending
    · rw [AList.lookup_insert_ne hid] at hlookup
      exact hkeep id e (h id e hlookup)
  | removed target rest hpass hremoved =>
    rw [hremoved] at hlookup
    by_cases hid : id = target
    · rw [hid, AList.lookup_erase] at hlookup
      exact absurd hlookup (by simp)
    · rw [AList.lookup_erase_ne hid] at hlookup
      exact hkeep id e (h id e hlookup)

/-- What a scan is about to insert it has found. -/
theorem pending_step {s t : Fleet F} {event : FleetEvent} (hstep : s.step event = some t)
    {source : Source} {found : List String} {e : AiEndpoint F}
    (h : t.searches source = some ⟨found, some e⟩) :
    (∃ found', s.searches source = some ⟨found', some e⟩) ∨
      ∃ find now, event = .find find now ∧ find.source = source ∧ find.endpoint now = some e := by
  have hset : ∀ (source' : Source) (search : Option (Search F)),
      Function.update s.searches source' search source = some ⟨found, some e⟩ →
      search ≠ some ⟨found, some e⟩ → s.searches source = some ⟨found, some e⟩ := by
    intro source' search hupdate hne
    by_cases hsource : source = source'
    · subst hsource
      rw [Function.update_self] at hupdate
      exact absurd hupdate hne
    · rwa [Function.update_of_ne hsource] at hupdate
  cases event with
  | scan source' =>
    simp only [step] at hstep
    split at hstep
    · obtain rfl := Option.some.inj hstep
      exact Or.inl ⟨found, hset _ _ h (by simp)⟩
    · exact absurd hstep (by simp)
  | find find now =>
    simp only [step] at hstep
    split at hstep
    · rename_i found' e' hsearch hendpoint
      split at hstep
      · obtain rfl := Option.some.inj hstep
        exact Or.inl ⟨found, hset _ _ h (by simp)⟩
      · obtain rfl := Option.some.inj hstep
        by_cases hsource : source = find.source
        · subst hsource
          rw [setSearch_searches, Function.update_self, Option.some.injEq, Search.mk.injEq,
            Option.some.injEq] at h
          obtain ⟨_, rfl⟩ := h
          exact Or.inr ⟨find, now, rfl, rfl, hendpoint⟩
        · rw [setSearch_searches, Function.update_of_ne hsource] at h
          exact Or.inl ⟨found, h⟩
    · exact absurd hstep (by simp)
  | insert source' =>
    simp only [step] at hstep
    split at hstep
    · obtain rfl := Option.some.inj hstep
      exact Or.inl ⟨found, hset _ _ h (by simp)⟩
    · exact absurd hstep (by simp)
  | pruneStale source' =>
    simp only [step] at hstep
    split at hstep
    · obtain rfl := Option.some.inj hstep
      exact Or.inl ⟨found, hset _ _ h (by simp)⟩
    · exact absurd hstep (by simp)
  | _ =>
    left
    simp only [step] at hstep
    repeat' split at hstep
    all_goals first
      | (obtain rfl := Option.some.inj hstep
         exact ⟨found, h⟩)
      | exact absurd hstep (by simp)

/-! ## What holds of every entry -/

theorem endpoint_source {find : Find} {now : Int} {e : AiEndpoint F}
    (h : find.endpoint now = some e) : PortMade e ∨ DockerMade e := by
  cases find with
  | port number =>
    obtain rfl := Option.some.inj h
    exact Or.inl ⟨number, rfl⟩
  | container listed =>
    obtain ⟨serviceName, _, rfl⟩ := Option.map_eq_some_iff.mp h
    exact Or.inr ⟨listed, serviceName, rfl⟩

theorem endpoint_health {find : Find} {now : Int} {e : AiEndpoint F}
    (h : find.endpoint now = some e) : e.health = .new now := by
  cases find with
  | port number =>
    obtain rfl := Option.some.inj h
    rfl
  | container listed =>
    obtain ⟨serviceName, _, rfl⟩ := Option.map_eq_some_iff.mp h
    rfl

/-- An endpoint of the configuration, or one that a scan made under an id of its own. -/
def Known (base : List (AiEndpoint F)) (e : AiEndpoint F) : Prop :=
  (∃ b ∈ base, e.toService = b.toService) ∨
    (PortMade e ∨ DockerMade e) ∧ e.id ∉ base.map (·.id)

/-- An entry stands under its id, and its health is that of at most `n` probes. -/
structure Entry (base : List (AiEndpoint F)) (n : Nat) (id : String) (e : AiEndpoint F) :
    Prop where
  key : e.id = id
  known : Known base e
  health : ∃ probes, Tracks probes e.health ∧ probes.length ≤ n

theorem Entry.mono {base : List (AiEndpoint F)} {n m : Nat} {id : String} {e : AiEndpoint F}
    (h : Entry base n id e) (hle : n ≤ m) : Entry base m id e where
  key := h.key
  known := h.known
  health := by
    obtain ⟨probes, htracks, hlength⟩ := h.health
    exact ⟨probes, htracks, hlength.trans hle⟩

theorem Entry.probe {base : List (AiEndpoint F)} {n : Nat} {id : String} {e : AiEndpoint F}
    (h : Entry base n id e) (p : Probe) (hn : n + 1 < 2 ^ 32) :
    Entry base (n + 1) id { e with health := e.health.apply p } where
  key := h.key
  known := h.known
  health := by
    obtain ⟨probes, htracks, hlength⟩ := h.health
    have hlong : (probes ++ [p]).length ≤ n + 1 := by
      rw [List.length_append]
      exact Nat.add_le_add_right hlength 1
    have hstreak : (streak (probes ++ [p])).length ≤ (probes ++ [p]).length :=
      (List.rtakeWhile_suffix _ _).length_le
    exact ⟨probes ++ [p], htracks.apply p (by omega), hlong⟩

/-- What a scan finds has an id that no configured endpoint has. -/
def FindsNew (base : List (AiEndpoint F)) : FleetEvent → Prop
  | .find find now => ∀ e : AiEndpoint F, find.endpoint now = some e → e.id ∉ base.map (·.id)
  | _ => True

/-- The events that count a probe. -/
def isProbe : FleetEvent → Bool
  | .probe _ => true
  | _ => false

/-- Every entry is sound, and so is what a scan is about to insert. -/
structure Sound (base : List (AiEndpoint F)) (n : Nat) (s : Fleet F) : Prop where
  entries : ∀ id e, s.endpoints.lookup id = some e → Entry base n id e
  pending : ∀ source found e, s.searches source = some ⟨found, some e⟩ →
    (PortMade e ∨ DockerMade e) ∧ e.id ∉ base.map (·.id) ∧ ∃ now, e.health = .new now

theorem Sound.step {base : List (AiEndpoint F)} {n : Nat} {s t : Fleet F} (h : Sound base n s)
    {event : FleetEvent} (hnew : FindsNew base event) (hn : isProbe event = true → n + 1 < 2 ^ 32)
    (hstep : s.step event = some t) : Sound base (if isProbe event then n + 1 else n) t where
  entries := by
    have hle : n ≤ if isProbe event then n + 1 else n := by
      split
      · exact Nat.le_succ n
      · exact Nat.le_refl n
    refine entries_step hstep h.entries (fun id e hentry => hentry.mono hle) ?_ ?_
    · intro p id e hevent hentry
      subst hevent
      exact hentry.probe p (hn rfl)
    · intro source found e hpending
      obtain ⟨hmade, hfresh, now, hhealth⟩ := h.pending _ _ _ hpending
      refine ⟨rfl, Or.inr ⟨hmade, hfresh⟩, [], ?_, Nat.zero_le _⟩
      rw [hhealth]
      exact tracks_new now
  pending source found e hpending := by
    rcases pending_step hstep hpending with ⟨found', hold⟩ | ⟨find, now, rfl, _, hendpoint⟩
    · exact h.pending source found' e hold
    · exact ⟨endpoint_source hendpoint, hnew e hendpoint, now, endpoint_health hendpoint⟩

/-! ## Why an entry is gone -/

/-- A test of the janitor, in a pass that is under way before the events `after`, found the
entry to be removed. -/
def Justified (base : List (AiEndpoint F)) (maxOfflineSecs : Int) (events after : List FleetEvent)
    (janitor : Janitor) (id : String) : Prop :=
  ∃ before u keep now collected e, events = before ++ .test janitor id :: after ∧
    run step (launched base maxOfflineSecs) before = some u ∧
    u.passes janitor = .testing keep now collected ∧
    u.endpoints.lookup id = some e ∧ u.dooms janitor keep now e id = true

/-- Every removal that is due goes back to a test of the same pass, and every endpoint of the
configuration that is gone to a test. -/
structure Traced (base : List (AiEndpoint F)) (maxOfflineSecs : Int) (events : List FleetEvent)
    (s : Fleet F) : Prop where
  collected : ∀ janitor, ∀ id ∈ (s.passes janitor).ids,
    ∃ after, Justified base maxOfflineSecs events after janitor id ∧ .finish janitor ∉ after
  lost : ∀ id ∈ base.map (·.id), s.endpoints.lookup id = none →
    ∃ janitor after, Justified base maxOfflineSecs events after janitor id

section Traces

variable {base : List (AiEndpoint F)} {maxOfflineSecs : Int} {events : List FleetEvent}

theorem Justified.concat {after : List FleetEvent} {janitor : Janitor} {id : String}
    (h : Justified base maxOfflineSecs events after janitor id) (event : FleetEvent) :
    Justified base maxOfflineSecs (events ++ [event]) (after ++ [event]) janitor id := by
  obtain ⟨before, u, keep, now, collected, e, rfl, hrest⟩ := h
  exact ⟨before, u, keep, now, collected, e, by simp, hrest⟩

/-- A pass takes an id up by a test of its entry. -/
theorem ids_step {s t : Fleet F} {event : FleetEvent} (hstep : s.step event = some t)
    {janitor : Janitor} {id : String} (h : id ∈ (t.passes janitor).ids) :
    id ∈ (s.passes janitor).ids ∨ event = .test janitor id ∧
      ∃ keep now collected e, s.passes janitor = .testing keep now collected ∧
        s.endpoints.lookup id = some e ∧ s.dooms janitor keep now e id = true := by
  have hset : ∀ (janitor' : Janitor) (pass : Pass),
      id ∈ (Function.update s.passes janitor' pass janitor).ids →
      (∀ other ∈ pass.ids, other ∈ (s.passes janitor').ids) → id ∈ (s.passes janitor).ids := by
    intro janitor' pass hmem hsub
    by_cases hjanitor : janitor = janitor'
    · subst hjanitor
      rw [Function.update_self] at hmem
      exact hsub id hmem
    · rwa [Function.update_of_ne hjanitor] at hmem
  cases event with
  | pruneStale source =>
    simp only [step] at hstep
    split at hstep
    · obtain rfl := Option.some.inj hstep
      exact Or.inl (hset _ _ h fun _ hmem => absurd hmem List.not_mem_nil)
    · exact absurd hstep (by simp)
  | pruneOffline now =>
    simp only [step] at hstep
    split at hstep
    · obtain rfl := Option.some.inj hstep
      exact Or.inl (hset _ _ h fun _ hmem => absurd hmem List.not_mem_nil)
    · exact absurd hstep (by simp)
  | test janitor' id' =>
    simp only [step] at hstep
    split at hstep
    · rename_i keep now collected e hpass hlookup
      split at hstep
      · rename_i hdooms
        obtain rfl := Option.some.inj hstep
        by_cases hjanitor : janitor = janitor'
        · subst hjanitor
          rw [setPass_passes, Function.update_self] at h
          rcases List.mem_append.mp h with hold | hlast
          · left
            rwa [hpass]
          · obtain rfl := List.mem_singleton.mp hlast
            exact Or.inr ⟨rfl, keep, now, collected, e, hpass, hlookup, hdooms⟩
        · rw [setPass_passes, Function.update_of_ne hjanitor] at h
          exact Or.inl h
      · obtain rfl := Option.some.inj hstep
        exact Or.inl h
    · exact absurd hstep (by simp)
  | removeAll janitor' =>
    simp only [step] at hstep
    split at hstep
    · rename_i keep now collected hpass
      obtain rfl := Option.some.inj hstep
      refine Or.inl (hset _ _ h fun other hmem => ?_)
      rwa [hpass]
    · exact absurd hstep (by simp)
  | remove janitor' =>
    simp only [step] at hstep
    split at hstep
    · rename_i target rest hpass
      obtain rfl := Option.some.inj hstep
      refine Or.inl (hset _ _ h fun other hmem => ?_)
      rw [hpass]
      exact List.mem_cons_of_mem _ hmem
    · exact absurd hstep (by simp)
  | finish janitor' =>
    simp only [step] at hstep
    split at hstep
    · obtain rfl := Option.some.inj hstep
      exact Or.inl (hset _ _ h fun _ hmem => absurd hmem List.not_mem_nil)
    · exact absurd hstep (by simp)
  | _ =>
    left
    simp only [step] at hstep
    repeat' split at hstep
    all_goals first
      | (obtain rfl := Option.some.inj hstep
         exact h)
      | exact absurd hstep (by simp)

/-- The end of a pass leaves no id. -/
theorem ids_finish {s t : Fleet F} {janitor : Janitor} (hstep : s.step (.finish janitor) = some t) :
    (t.passes janitor).ids = [] := by
  simp only [step] at hstep
  split at hstep
  · obtain rfl := Option.some.inj hstep
    rw [setPass_passes, Function.update_self]
    rfl
  · exact absurd hstep (by simp)

theorem Traced.step {s t : Fleet F} (h : Traced base maxOfflineSecs events s)
    (hrun : run step (launched base maxOfflineSecs) events = some s) {event : FleetEvent}
    (hstep : s.step event = some t) : Traced base maxOfflineSecs (events ++ [event]) t where
  collected janitor id hmem := by
    rcases ids_step hstep hmem with hold | ⟨rfl, htest⟩
    · obtain ⟨after, hjustified, hsame⟩ := h.collected janitor id hold
      refine ⟨after ++ [event], hjustified.concat event, fun hfinish => ?_⟩
      rcases List.mem_append.mp hfinish with hafter | hlast
      · exact hsame hafter
      · obtain rfl := List.mem_singleton.mp hlast
        rw [ids_finish hstep] at hmem
        exact List.not_mem_nil hmem
    · obtain ⟨keep, now, collected, e, hpass, hlookup, hdooms⟩ := htest
      exact ⟨[], ⟨events, s, keep, now, collected, e, rfl, hrun, hpass, hlookup, hdooms⟩,
        List.not_mem_nil⟩
  lost id hbase hnone := by
    have hold : s.endpoints.lookup id = none →
        ∃ janitor after, Justified base maxOfflineSecs (events ++ [event]) after janitor id := by
      intro hgone
      obtain ⟨janitor, after, hjustified⟩ := h.lost id hbase hgone
      exact ⟨janitor, _, hjustified.concat event⟩
    cases change_step hstep with
    | same hsame =>
      rw [hsame] at hnone
      exact hold hnone
    | probed target hprobed =>
      rw [hprobed, lookup_probeOne] at hnone
      split at hnone
      · exact hold (Option.map_eq_none_iff.mp hnone)
      · exact hold hnone
    | inserted found e hpending hinserted =>
      rw [hinserted] at hnone
      by_cases hid : id = e.id
      · rw [hid, AList.lookup_insert] at hnone
        exact absurd hnone (by simp)
      · rw [AList.lookup_insert_ne hid] at hnone
        exact hold hnone
    | removed target rest hpass hremoved =>
      rename_i janitor
      rw [hremoved] at hnone
      by_cases hid : id = target
      · have hmem : id ∈ (s.passes janitor).ids := by
          rw [hpass, hid]
          exact List.mem_cons_self
        obtain ⟨after, hjustified, -⟩ := h.collected janitor id hmem
        exact ⟨janitor, _, hjustified.concat _⟩
      · rw [AList.lookup_erase_ne hid] at hnone
        exact hold hnone

theorem traced_of_run (hids : (base.map (·.id)).Nodup) {s : Fleet F}
    (hrun : run step (launched base maxOfflineSecs) events = some s) :
    Traced base maxOfflineSecs events s := by
  induction events using List.reverseRecOn generalizing s with
  | nil =>
    obtain rfl := Option.some.inj hrun
    refine ⟨fun janitor id hmem => absurd hmem List.not_mem_nil, fun id hid hnone => ?_⟩
    obtain ⟨b, hb, rfl⟩ := List.mem_map.mp hid
    rw [launched_lookup hids hb] at hnone
    exact absurd hnone (by simp)
  | append_singleton events event ih =>
    obtain ⟨t, hbefore, hstep⟩ := run_concat_eq_some.mp hrun
    exact (ih hbefore).step hbefore hstep

theorem sound_of_run (hids : (base.map (·.id)).Nodup)
    (hhealth : ∀ b ∈ base, ∃ now, b.health = .new now)
    (hnew : ∀ event ∈ events, FindsNew base event) (hprobes : events.countP isProbe < 2 ^ 32)
    {s : Fleet F} (hrun : run step (launched base maxOfflineSecs) events = some s) :
    Sound base (events.countP isProbe) s := by
  induction events using List.reverseRecOn generalizing s with
  | nil =>
    obtain rfl := Option.some.inj hrun
    have hacc : Accounted (·.id) base (Made base) (started base) := accounted_start hids
    refine ⟨fun id e hlookup => ?_, fun source found e hpending => ?_⟩
    swap
    · exact absurd hpending (by simp [launched])
    have hmem : e ∈ base := by
      rcases hacc.entry id e hlookup with hbase | ⟨source, _, hfound⟩
      · exact hbase
      · exact absurd hfound List.not_mem_nil
    obtain ⟨now, hhealth⟩ := hhealth e hmem
    refine ⟨hacc.key_eq id e hlookup, Or.inl ⟨e, hmem, rfl⟩, [], ?_, Nat.zero_le _⟩
    rw [hhealth]
    exact tracks_new now
  | append_singleton events event ih =>
    obtain ⟨t, hbefore, hstep⟩ := run_concat_eq_some.mp hrun
    rw [List.countP_append, List.countP_singleton] at hprobes ⊢
    have hsound := ih (fun e he => hnew e (List.mem_append_left _ he)) (by omega) hbefore
    have hnext := hsound.step (hnew event (by simp)) (fun hprobe => ?_) hstep
    · split
      case isTrue hprobe => rwa [if_pos hprobe] at hnext
      case isFalse hprobe => rwa [if_neg hprobe] at hnext
    · rw [if_pos hprobe] at hprobes
      exact hprobes

theorem Entry.service_eq {budget : Nat} {id : String} {e b : AiEndpoint F}
    (h : Entry base budget id e) (hids : (base.map (·.id)).Nodup) (hb : b ∈ base)
    (hid : b.id = id) : e.toService = b.toService := by
  rcases h.known with ⟨b', hb', hservice⟩ | ⟨_, hnot⟩
  · have hsame : b' = b := by
      refine List.inj_on_of_nodup_map hids hb' hb ?_
      rw [hid, ← h.key, hservice]
    rw [hservice, hsame]
  · refine absurd (List.mem_map.mpr ⟨b, hb, ?_⟩) hnot
    rw [hid, h.key]

/-- Whatever the tasks do and in whatever order their steps come, every entry of the map
stands under its id, its status goes with its failures in a row and its time of going
offline with its status, and an entry under the id of a configured endpoint is this endpoint. -/
theorem fleet_sound (hids : (base.map (·.id)).Nodup)
    (hhealth : ∀ b ∈ base, ∃ now, b.health = .new now)
    (hnew : ∀ event ∈ events, FindsNew base event) (hprobes : events.countP isProbe < 2 ^ 32)
    {s : Fleet F} (hrun : run step (launched base maxOfflineSecs) events = some s)
    {id : String} {e : AiEndpoint F} (hlookup : s.endpoints.lookup id = some e) :
    e.id = id ∧
    e.health.status = statusOf e.health.consecutiveFailures.toNat ∧
    (e.health.offlineSince.isSome = true ↔ e.health.status = .offline) ∧
    (∀ b ∈ base, b.id = id → e.toService = b.toService) ∧
    (id ∉ base.map (·.id) → PortMade e ∨ DockerMade e) := by
  have hentry := (sound_of_run hids hhealth hnew hprobes hrun).entries id e hlookup
  obtain ⟨probes, htracks, _⟩ := hentry.health
  refine ⟨hentry.key, ?_, htracks.offlineSince_isSome_iff,
    fun b hb hid => hentry.service_eq hids hb hid, fun hother => ?_⟩
  · rw [htracks.failures, htracks.status]
  · rcases hentry.known with ⟨b, hb, hservice⟩ | ⟨hmade, _⟩
    · refine absurd (List.mem_map.mpr ⟨b, hb, ?_⟩) hother
      rw [← hentry.key, hservice]
    · exact hmade

theorem maxOfflineSecs_of_run {s : Fleet F}
    (hrun : run step (launched base maxOfflineSecs) events = some s) :
    s.maxOfflineSecs = maxOfflineSecs := by
  refine invariant_of_run (I := fun s => s.maxOfflineSecs = maxOfflineSecs) ?_ rfl hrun
  intro s event t hs hstep
  cases event
  all_goals
    simp only [step] at hstep
    repeat' split at hstep
    all_goals first
      | (obtain rfl := Option.some.inj hstep
         exact hs)
      | exact absurd hstep (by simp)

omit [One F] in
/-- Ownership is read off the tags. -/
theorem owned_congr {e b : AiEndpoint F} (h : e.toService = b.toService) (source : Source) :
    owned source e = owned source b := by
  have htags : e.tags = b.tags := congrArg Service.tags h
  cases source with
  | port =>
    show portOwned e = portOwned b
    rw [portOwned, portOwned, htags]
  | docker =>
    show dockerOwned e = dockerOwned b
    rw [dockerOwned, dockerOwned, htags]

/-- A pass over the offline endpoints goes by the time of its start. -/
theorem testing_step {s t : Fleet F} {event : FleetEvent} (hstep : s.step event = some t)
    {keep collected : List String} {now : Int}
    (h : t.passes .offline = .testing keep now collected) :
    (∃ collected', s.passes .offline = .testing keep now collected') ∨
      event = .pruneOffline now := by
  have hset : ∀ (u : Fleet F) (janitor : Janitor) (pass : Pass), u.passes = s.passes →
      (u.setPass janitor pass).passes .offline = .testing keep now collected →
        s.passes .offline = .testing keep now collected ∨
          janitor = .offline ∧ pass = .testing keep now collected := by
    intro u janitor pass hu hupdate
    rw [setPass_passes] at hupdate
    by_cases hjanitor : janitor = .offline
    · subst hjanitor
      exact Or.inr ⟨rfl, by rwa [Function.update_self] at hupdate⟩
    · rw [Function.update_of_ne (Ne.symm hjanitor), hu] at hupdate
      exact Or.inl hupdate
  cases event with
  | pruneOffline now' =>
    simp only [step] at hstep
    split at hstep
    · obtain rfl := Option.some.inj hstep
      rcases hset _ _ _ rfl h with hold | ⟨-, hpass⟩
      · exact Or.inl ⟨collected, hold⟩
      · rw [(Pass.testing.inj hpass).2.1]
        exact Or.inr rfl
    · exact absurd hstep (by simp)
  | test janitor id =>
    simp only [step] at hstep
    split at hstep
    · rename_i keep' now' collected' e hpass hlookup
      split at hstep
      · obtain rfl := Option.some.inj hstep
        rcases hset _ _ _ rfl h with hold | ⟨rfl, hsame⟩
        · exact Or.inl ⟨collected, hold⟩
        · obtain ⟨rfl, rfl, -⟩ := Pass.testing.inj hsame
          exact Or.inl ⟨collected', hpass⟩
      · obtain rfl := Option.some.inj hstep
        exact Or.inl ⟨collected, h⟩
    · exact absurd hstep (by simp)
  | pruneStale _ | removeAll _ | remove _ | finish _ =>
    simp only [step] at hstep
    split at hstep
    · obtain rfl := Option.some.inj hstep
      rcases hset _ _ _ rfl h with hold | ⟨hjanitor, hpass⟩
      · exact Or.inl ⟨collected, hold⟩
      · simp at hjanitor hpass
    · exact absurd hstep (by simp)
  | _ =>
    left
    simp only [step] at hstep
    repeat' split at hstep
    all_goals first
      | (obtain rfl := Option.some.inj hstep
         exact ⟨collected, h⟩)
      | exact absurd hstep (by simp)

theorem pruneOffline_mem_of_run {s : Fleet F}
    (hrun : run step (launched base maxOfflineSecs) events = some s) {keep collected : List String}
    {now : Int} (h : s.passes .offline = .testing keep now collected) :
    .pruneOffline now ∈ events := by
  induction events using List.reverseRecOn generalizing s collected with
  | nil =>
    obtain rfl := Option.some.inj hrun
    exact absurd h (by simp [launched])
  | append_singleton events event ih =>
    obtain ⟨t, hbefore, hstep⟩ := run_concat_eq_some.mp hrun
    rcases testing_step hstep h with ⟨collected', hold⟩ | rfl
    · exact List.mem_append_left _ (ih hbefore hold)
    · exact List.mem_append_right _ (List.mem_singleton_self _)

/-- A configured endpoint without the tags of a scan is lost in one way only: a pass of
`prune_offline` has seen it offline for longer than the limit, by the time at which this pass
started. -/
theorem lost_after_offline (hids : (base.map (·.id)).Nodup)
    (hhealth : ∀ b ∈ base, ∃ now, b.health = .new now)
    (hnew : ∀ event ∈ events, FindsNew base event) (hprobes : events.countP isProbe < 2 ^ 32)
    {s : Fleet F} (hrun : run step (launched base maxOfflineSecs) events = some s)
    {b : AiEndpoint F} (hb : b ∈ base) (htags : ∀ source, owned source b = false)
    (hlost : s.endpoints.lookup b.id = none) :
    ∃ before after u keep now collected e since,
      events = before ++ .test .offline b.id :: after ∧
      run step (launched base maxOfflineSecs) before = some u ∧
      u.passes .offline = .testing keep now collected ∧ .pruneOffline now ∈ before ∧
      u.endpoints.lookup b.id = some e ∧ e.health.status = .offline ∧
      e.health.offlineSince = some since ∧ maxOfflineSecs < Queue.numSeconds (now - since) := by
  have htraced := traced_of_run hids hrun
  obtain ⟨janitor, after, before, u, keep, now, collected, e, rfl, hbefore, hpass, hlookup,
    hdooms⟩ := htraced.lost b.id (List.mem_map_of_mem hb) hlost
  have hcount : before.countP isProbe < 2 ^ 32 := by
    rw [List.countP_append] at hprobes
    omega
  have hsound := sound_of_run hids hhealth
    (fun event hevent => hnew event (List.mem_append_left _ hevent)) hcount hbefore
  have hentry := hsound.entries b.id e hlookup
  obtain ⟨probes, htracks, _⟩ := hentry.health
  cases janitor with
  | offline =>
    have hexpired : expired u.maxOfflineSecs now e = true := hdooms
    rw [maxOfflineSecs_of_run hbefore, expired, Bool.and_eq_true, decide_eq_true_iff,
      decide_eq_true_iff] at hexpired
    obtain ⟨hoffline, hlong⟩ := hexpired
    obtain ⟨since, hsome⟩ := Option.isSome_iff_exists.mp
      (htracks.offlineSince_isSome_iff.mpr hoffline)
    rw [hsome, Option.getD_some] at hlong
    exact ⟨before, after, u, keep, now, collected, e, since, rfl, hbefore, hpass,
      pruneOffline_mem_of_run hbefore hpass, hlookup, hoffline, hsome, hlong⟩
  | scan source =>
    have hdoomed : (owned source e && decide (b.id ∉ keep)) = true := hdooms
    rw [owned_congr (hentry.service_eq hids hb rfl), htags source] at hdoomed
    exact absurd hdoomed (by simp)

end Traces

/-- A configured endpoint that does not answer. -/
def silent : AiEndpoint Nat where
  id := "gpu"
  name := "gpu"
  url := "http://127.0.0.1:9000"
  endpointType := .inference
  weight := 1
  tags := []
  headers := ∅
  health := .new 0

/-- Three rounds of probes, with a scan in between, and a removal. -/
def silentEvents : List FleetEvent :=
  [.scan .port, .probeAll ["gpu"], .find (.port 8080) 1,
    .probe ⟨.transportError "connect", 5, 1000000000⟩, .insert .port, .pruneStale .port,
    .probeAll ["gpu"], .probe ⟨.transportError "connect", 5, 2000000000⟩, .probeAll ["gpu"],
    .test (.scan .port) "gpu", .probe ⟨.transportError "connect", 5, 3000000000⟩,
    .pruneOffline 604000000000, .test .offline "gpu", .removeAll .offline, .remove .offline]

theorem findsNew_silent : ∀ event ∈ silentEvents, FindsNew [silent] event := by
  intro event hevent
  cases event with
  | find find now =>
    obtain ⟨rfl, rfl⟩ : find = .port 8080 ∧ now = 1 := by simpa [silentEvents] using hevent
    intro e he
    obtain rfl := Option.some.inj he
    decide +kernel
  | _ => trivial

/-- The scan has left an endpoint of its own. -/
theorem fleet_sound_scanned : ∃ (s : Fleet Nat) (e : AiEndpoint Nat),
    run step (launched [silent] 600) silentEvents = some s ∧
      s.endpoints.lookup "routage-8080" = some e ∧ (PortMade e ∨ DockerMade e) := by
  obtain ⟨s, e, hrun, hlookup⟩ : ∃ (s : Fleet Nat) (e : AiEndpoint Nat),
      run step (launched [silent] 600) silentEvents = some s ∧
        s.endpoints.lookup "routage-8080" = some e := ⟨_, _, rfl, rfl⟩
  refine ⟨s, e, hrun, hlookup, ?_⟩
  have hsound := fleet_sound (by decide) (by simp [silent]) findsNew_silent (by decide) hrun hlookup
  exact hsound.2.2.2.2 (by decide)

theorem lost_after_offline_silent :
    ∃ before after now, silentEvents = before ++ .test .offline "gpu" :: after ∧
      .pruneOffline now ∈ before ∧ ∃ since, 600 < Queue.numSeconds (now - since) := by
  obtain ⟨s, hrun, hlost⟩ : ∃ s : Fleet Nat,
      run step (launched [silent] 600) silentEvents = some s ∧
        s.endpoints.lookup "gpu" = none := ⟨_, rfl, rfl⟩
  obtain ⟨before, after, _, _, now, _, _, since, hsplit, _, _, hstarted, _, _, _, hlong⟩ :=
    lost_after_offline (by decide) (by simp [silent]) findsNew_silent (by decide) hrun
      (List.mem_singleton_self silent) (fun source => by cases source <;> rfl) hlost
  exact ⟨before, after, now, hsplit, hstarted, since, hlong⟩

end Fleet

end Xfiles.Ai
