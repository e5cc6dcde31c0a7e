import Xfiles.Ai.Fleet
import Xfiles.Proxy.Forwarding

/-!
# Where credentials go

An endpoint of the configuration may carry headers, such as the key of an API.
`chat_completions_handler` looks its endpoint up in the map that the probes, the scans and
the removals work on, and sends the headers that it finds to the URL that it finds.

Whatever these tasks do in between, the two belong together: the headers of a configured
endpoint go to the URL of this endpoint, and what a scan of the run has found gets no headers
of anyone (`credentials_stay`).
-/

namespace Xfiles.Proxy

open Ai Ai.Fleet Transition
open Record (fieldsOf)

variable {F F32 F64 : Type}

/-- The endpoint of a request that is forwarded. -/
theorem endpoint_of_forwarded {floats : Floats F32 F64} {state : ProxyState F}
    {selectedId : Option String} {request : Json} {upstream : UpstreamRequest}
    (h : chatCompletionsHandler floats state selectedId request = .forwarded upstream) :
    ∃ id e req, selectedId = some id ∧ state.endpoints.lookup id = some e ∧
      upstream = upstreamRequest floats.short e req := by
  unfold chatCompletionsHandler at h
  split at h
  · exact absurd h (by simp)
  · dsimp only at h
    split at h
    · exact absurd h (by simp)
    · rename_i id
      split at h
      · exact absurd h (by simp)
      · rename_i e hlookup
        exact ⟨id, e, _, rfl, hlookup, (Answer.forwarded.inj h).symm⟩

/-- A scan found the endpoint during the events. -/
def FoundIn [One F] (events : List FleetEvent) (f : AiEndpoint F) : Prop :=
  ∃ find now, FleetEvent.find find now ∈ events ∧ find.endpoint now = some f

/-- What a scan finds is on a local port and has no headers. -/
theorem FoundIn.local_port [One F] {events : List FleetEvent} {f : AiEndpoint F}
    (h : FoundIn events f) : (∃ port, f.url = portUrl port) ∧ f.headers = ∅ := by
  obtain ⟨find, now, -, hendpoint⟩ := h
  rcases endpoint_source hendpoint with ⟨port, hservice⟩ | ⟨container, serviceName, hservice⟩
  · exact ⟨⟨port, congrArg Service.url hservice⟩, congrArg Service.headers hservice⟩
  · exact ⟨⟨_, congrArg Service.url hservice⟩, congrArg Service.headers hservice⟩

variable [One F] {base : List (AiEndpoint F)} {maxOfflineSecs : Int} {events : List FleetEvent}

/-- An endpoint of the configuration, or one that a scan found, but for its health. -/
def Provided (base : List (AiEndpoint F)) (events : List FleetEvent) (e : AiEndpoint F) : Prop :=
  (∃ b ∈ base, e.toService = b.toService) ∨ ∃ f, FoundIn events f ∧ e.toService = f.toService

/-- The tasks may put an entry into the map or take it out, and give it another health, but
they leave its service alone. -/
structure Placed (base : List (AiEndpoint F)) (events : List FleetEvent) (s : Fleet F) : Prop where
  entries : ∀ id e, s.endpoints.lookup id = some e → e.id = id ∧ Provided base events e
  pending : ∀ source found e, s.searches source = some ⟨found, some e⟩ → FoundIn events e

theorem Placed.step {s t : Fleet F} (h : Placed base events s) {event : FleetEvent}
    (hmem : event ∈ events) (hstep : s.step event = some t) : Placed base events t where
  entries := by
    refine entries_step hstep h.entries (fun _ _ hentry => hentry) ?_ ?_
    · intro p id e _ hentry
      exact hentry
    · intro source found e hpending
      exact ⟨rfl, Or.inr ⟨e, h.pending _ _ _ hpending, rfl⟩⟩
  pending source found e hpending := by
    rcases pending_step hstep hpending with ⟨found', hold⟩ | ⟨find, now, rfl, -, hendpoint⟩
    · exact h.pending source found' e hold
    · exact ⟨find, now, hmem, hendpoint⟩

theorem placed_of_run {s : Fleet F}
    (hrun : run step (launched base maxOfflineSecs) events = some s) : Placed base events s := by
  refine invariant_of_run_mem (I := Placed base events) ?_ ⟨?_, ?_⟩ hrun
  · intro s event t hmem hs hstep
    exact hs.step hmem hstep
  · intro id e hlookup
    rcases Sweep.mem_of_lookup_fill hlookup with ⟨hmem, hkey⟩ | hnone
    · exact ⟨hkey, Or.inl ⟨e, hmem, rfl⟩⟩
    · rw [AList.lookup_empty] at hnone
      exact absurd hnone (by simp)
  · intro source found e hpending
    exact absurd hpending (by simp [launched])

/-- After every run of the tasks, a forwarded request goes to the URL of a configured
endpoint with the headers of this endpoint, or to a local port that a scan of the run found,
without any headers. -/
theorem credentials_stay {s : Fleet F}
    (hrun : run step (launched base maxOfflineSecs) events = some s)
    {floats : Floats F32 F64} {state : ProxyState F} (hstate : state.endpoints = s.endpoints)
    {selectedId : Option String} {request : Json} {upstream : UpstreamRequest}
    (h : chatCompletionsHandler floats state selectedId request = .forwarded upstream) :
    (∃ b ∈ base, selectedId = some b.id ∧
      upstream.url = trimSlashes b.url ++ "/v1/chat/completions" ∧
      upstream.headers = ("content-type", "application/json") :: fieldsOf b.headers) ∨
    ∃ (f : AiEndpoint F) (port : UInt16), FoundIn events f ∧ selectedId = some f.id ∧
      f.url = portUrl port ∧
      upstream.url = trimSlashes f.url ++ "/v1/chat/completions" ∧
      upstream.headers = [("content-type", "application/json")] := by
  obtain ⟨id, e, req, rfl, hlookup, rfl⟩ := endpoint_of_forwarded h
  rw [hstate] at hlookup
  obtain ⟨hkey, hprovided⟩ := (placed_of_run hrun).entries id e hlookup
  rcases hprovided with ⟨b, hb, hservice⟩ | ⟨f, hfound, hservice⟩
  · left
    refine ⟨b, hb, ?_, ?_, ?_⟩
    · rw [← hkey, hservice]
    · rw [upstreamRequest, hservice]
    · rw [upstreamRequest, hservice]
  · right
    obtain ⟨⟨port, hurl⟩, hheaders⟩ := hfound.local_port
    refine ⟨f, port, hfound, ?_, hurl, ?_, ?_⟩
    · rw [← hkey, hservice]
    · rw [upstreamRequest, hservice]
    · rw [upstreamRequest, hservice, hheaders]
      rfl

/-- An endpoint with a key. -/
def keyed : AiEndpoint Nat where
  id := "cloud"
  name := "cloud"
  url := "http://127.0.0.1:9000/"
  endpointType := .api
  weight := 1
  tags := []
  headers := AList.singleton "authorization" "Bearer k"
  health := .new 0

/-- A probe of the endpoint, and a scan that finds another one. -/
def keyedEvents : List FleetEvent :=
  [.probeAll ["cloud"], .scan .port, .find (.port 8080) 1,
    .probe ⟨.transportError "connect", 5, 1000000000⟩, .insert .port]

theorem credentials_stay_keyed : ∃ (s : Fleet Nat) (upstream : UpstreamRequest),
    run step (launched [keyed] 600) keyedEvents = some s ∧
      chatCompletionsHandler writtenFloats ⟨s.endpoints, "kimi-k2.6", ∅⟩ (some "cloud")
        (.object (requestWith userMessage)) = .forwarded upstream ∧
      upstream.headers = ("content-type", "application/json") :: fieldsOf keyed.headers := by
  obtain ⟨s, upstream, hrun, hforwarded, hlength⟩ : ∃ (s : Fleet Nat) (upstream : UpstreamRequest),
      run step (launched [keyed] 600) keyedEvents = some s ∧
        chatCompletionsHandler writtenFloats ⟨s.endpoints, "kimi-k2.6", ∅⟩ (some "cloud")
          (.object (requestWith userMessage)) = .forwarded upstream ∧
        upstream.headers.length = 2 := ⟨_, _, rfl, rfl, rfl⟩
  refine ⟨s, upstream, hrun, hforwarded, ?_⟩
  rcases credentials_stay hrun rfl hforwarded with
    ⟨b, hb, -, -, hsent⟩ | ⟨f, port, -, -, -, -, hsent⟩
  · rwa [List.mem_singleton.mp hb] at hsent
  · rw [hsent] at hlength
    exact absurd hlength (by decide)

end Xfiles.Proxy
