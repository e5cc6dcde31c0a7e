import Xfiles.Ai.Endpoints
import Xfiles.Lib.Sweep

/-!
# Discovery of AI endpoints

`DiscoveryEngine` scans local ports and `DockerDiscovery` scans containers.  Both
insert what they find into one map of endpoints, and both remove the entries that
they own and have not found.  Ownership is read from the tags: the port scan owns
what is tagged `auto-discovered` and not `docker`, the docker scan owns what is
tagged `docker`.

The tags of a configured endpoint are the user's.  One that is tagged so is
removed by the first scan of that source, and this is the only way to lose one
(`owns_iff`).  An endpoint that is found again keeps its first record, so the map
shows what the latest scan found when a container that stays keeps its type and
its port.  For ports this always holds: the id tells the port.

Scans run one after another.
-/

namespace Xfiles.Ai

open Sweep

variable {F : Type} [One F]

/-- The endpoint map. -/
abbrev Endpoints (F : Type) := EntryMap String (AiEndpoint F)

/-! ## Ports -/

/-- `str::contains`. -/
def contains (s pattern : String) : Bool := pattern.toList <:+: s.toList

/-- The service that a URL is taken for. -/
def inferService (url : String) : String × EndpointType :=
  if contains url ":8080" then ("routage", .router)
  else if contains url ":7777" then ("merlin", .router)
  else if contains url ":8000" then ("local-ai", .inference)
  else if contains url ":11434" then ("ollama", .inference)
  else if contains url ":3000" then ("tensorzero", .router)
  else ("unknown", .api)

/-- `identify_service`.  `succeeds` are the URLs that answer with success. -/
def identifyService (succeeds : String → Bool) (url : String) : Option (String × EndpointType) :=
  if [url ++ "/health", url ++ "/v1/health", url ++ "/api/health"].any succeeds then
    some (inferService url)
  else none

def portUrl (port : UInt16) : String := "http://127.0.0.1:" ++ Nat.repr port.toNat

/-- The endpoint of a port. -/
def portService (port : UInt16) (name : String) (endpointType : EndpointType) : Service F where
  id := name ++ "-" ++ Nat.repr port.toNat
  name := name
  url := portUrl port
  endpointType := endpointType
  weight := 1
  tags := ["auto-discovered"]
  headers := ∅

/-- What a scan of the ports finds. -/
def portsFound (scanPorts : List UInt16) (succeeds : String → Bool) (now : Int) :
    List (AiEndpoint F) :=
  scanPorts.filterMap fun port =>
    (identifyService succeeds (portUrl port)).map fun service =>
      { portService port service.1 service.2 with health := .new now }

/-- What the port scan takes for its own. -/
def portOwned (e : AiEndpoint F) : Bool := "auto-discovered" ∈ e.tags ∧ "docker" ∉ e.tags

/-- `DiscoveryEngine::scan`. -/
def portScan (scanPorts : List UInt16) (succeeds : String → Bool) (now : Int)
    (endpoints : Endpoints F) : Endpoints F :=
  let found := portsFound scanPorts succeeds now
  -- `prune_stale`
  sweep portOwned (found.map (·.id)) (insertAll (·.id) found endpoints)

/-! ## Containers -/

/-- A container, as the Docker daemon lists it. -/
structure Container where
  id : Option String
  labels : Option (AList fun _ : String => String)
  ports : Option (List (Option UInt16))

/-- `str::parse::<u16>`. -/
def parseU16 (text : String) : Option UInt16 :=
  let digits := if text.toList.head? = some '+' then String.ofList text.toList.tail else text
  (Serde.parseNat digits).bind fun n => if n < 2 ^ 16 then some (.ofNat n) else none

/-- `extract_first_port`. -/
def extractFirstPort (ports : Option (List (Option UInt16))) : Option UInt16 :=
  ports.bind fun ports => ports.head?.bind id

/-- The endpoint of a container with the label of a service. -/
def dockerService (container : Container) (serviceName : String) : Service F :=
  let labels := container.labels.getD ∅
  let serviceType := (labels.lookup "ai.xfiles.type").getD "api"
  let port := (((labels.lookup "ai.xfiles.port").bind parseU16).or
    (extractFirstPort container.ports)).getD 8080
  let shortId := String.ofList ((container.id.getD "").toList.take 12)
  { id := "docker-" ++ (serviceName ++ "-" ++ shortId)
    name := "docker-" ++ serviceName
    url := portUrl port
    endpointType := (EndpointType.parse serviceType).getD .api
    weight := 1
    tags := ["docker", "auto-discovered"]
    headers := ∅ }

/-- What a scan of the containers finds. -/
def containersFound (containers : List Container) (now : Int) : List (AiEndpoint F) :=
  containers.filterMap fun container =>
    ((container.labels.getD ∅).lookup "ai.xfiles.service").map fun serviceName =>
      { dockerService container serviceName with health := .new now }

/-- What the docker scan takes for its own. -/
def dockerOwned (e : AiEndpoint F) : Bool := "docker" ∈ e.tags

/-- `DockerDiscovery::scan`, when the daemon lists the containers. -/
def dockerScan (containers : List Container) (now : Int) (endpoints : Endpoints F) : Endpoints F :=
  let found := containersFound containers now
  -- `prune_stale`
  sweep dockerOwned (found.map (·.id)) (insertAll (·.id) found endpoints)

/-! ## Runs -/

inductive Source where
  | port
  | docker
  deriving DecidableEq

/-- A completed scan of one engine, with what there was to be found. -/
inductive Scan where
  | port (succeeds : String → Bool) (now : Int)
  | docker (containers : List Container) (now : Int)

namespace Scan

def source : Scan → Source
  | port _ _ => .port
  | docker _ _ => .docker

def found (scanPorts : List UInt16) : Scan → List (AiEndpoint F)
  | port succeeds now => portsFound scanPorts succeeds now
  | docker containers now => containersFound containers now

/-- The engine, and what it found. -/
def report (scanPorts : List UInt16) (scan : Scan) : Source × List (AiEndpoint F) :=
  (scan.source, scan.found scanPorts)

def apply (scanPorts : List UInt16) : Scan → Endpoints F → Endpoints F
  | port succeeds now => portScan scanPorts succeeds now
  | docker containers now => dockerScan containers now

end Scan

def owned : Source → AiEndpoint F → Bool
  | .port => portOwned
  | .docker => dockerOwned

/-- The map, and what each engine found last. -/
abbrev Discovered (F : Type) := State String (AiEndpoint F) Source

def scanStep (scanPorts : List UInt16) (s : Discovered F) (scan : Scan) : Option (Discovered F) :=
  some { map := scan.apply scanPorts s.map
         found := Function.update s.found scan.source (scan.found scanPorts) }

/-- The endpoints of the configuration, with the ids that are drawn for them. -/
def configured (configs : List (EndpointConfig F × Uuid)) (now : Int) : List (AiEndpoint F) :=
  configs.filterMap fun config => AiEndpoint.fromConfig config.1 config.2 now

/-- The state after the start, before any scan. -/
def started (base : List (AiEndpoint F)) : Discovered F := start (·.id) base

/-! ## Ids and tags -/

theorem dash_notMem_repr (n : Nat) : '-' ∉ (Nat.repr n).toList := by
  rw [Nat.toList_repr]
  intro hmem
  have hdigit := Nat.isDigit_of_mem_toDigits (by decide) (by decide) hmem
  exact absurd hdigit (by decide)

theorem takeWhile_dash {digits rest : List Char} (h : '-' ∉ digits) :
    (digits ++ '-' :: rest).takeWhile (· ≠ '-') = digits := by
  have hplain : ∀ c ∈ digits, decide (c ≠ '-') = true := fun c hc =>
    decide_eq_true (ne_of_mem_of_not_mem hc h)
  rw [List.takeWhile_append_of_pos hplain, List.takeWhile_cons_of_neg (by simp), List.append_nil]

/-- The number after the last dash. -/
theorem eq_of_dash_repr_eq {name name' : String} {n m : Nat}
    (h : name ++ "-" ++ Nat.repr n = name' ++ "-" ++ Nat.repr m) : n = m := by
  have hlist : name.toList ++ '-' :: (Nat.repr n).toList =
      name'.toList ++ '-' :: (Nat.repr m).toList := by
    simpa using congrArg String.toList h
  have hreverse := congrArg List.reverse hlist
  simp only [List.reverse_append, List.reverse_cons, List.append_assoc, List.singleton_append]
    at hreverse
  have hnot : ∀ k : Nat, '-' ∉ (Nat.repr k).toList.reverse := fun k hmem =>
    dash_notMem_repr k (List.mem_reverse.mp hmem)
  have hdigits := congrArg (List.takeWhile (· ≠ '-')) hreverse
  rw [takeWhile_dash (hnot n), takeWhile_dash (hnot m)] at hdigits
  have hrepr : Nat.repr n = Nat.repr m :=
    String.toList_injective (List.reverse_injective hdigits)
  have hinjective : Function.Injective Nat.repr := Serde.natural.encode_injective
  exact hinjective hrepr

theorem head_inferService (url : String) : (inferService url).1.toList.head? ≠ some 'd' := by
  unfold inferService
  repeat' split
  all_goals decide

/-- Made by a scan of the ports. -/
def PortMade (e : AiEndpoint F) : Prop :=
  ∃ port, e.toService =
    portService port (inferService (portUrl port)).1 (inferService (portUrl port)).2

/-- Made by a scan of the containers. -/
def DockerMade (e : AiEndpoint F) : Prop :=
  ∃ container serviceName, e.toService = dockerService container serviceName

theorem portMade_of_mem {scanPorts : List UInt16} {succeeds : String → Bool} {now : Int}
    {f : AiEndpoint F} (h : f ∈ portsFound scanPorts succeeds now) : PortMade f := by
  obtain ⟨port, -, hf⟩ := List.mem_filterMap.mp h
  obtain ⟨service, hservice, rfl⟩ := Option.map_eq_some_iff.mp hf
  rw [identifyService] at hservice
  split at hservice
  · obtain rfl := Option.some.inj hservice
    exact ⟨port, rfl⟩
  · exact absurd hservice.symm (Option.some_ne_none service)

theorem dockerMade_of_mem {containers : List Container} {now : Int} {f : AiEndpoint F}
    (h : f ∈ containersFound containers now) : DockerMade f := by
  obtain ⟨container, -, hf⟩ := List.mem_filterMap.mp h
  obtain ⟨serviceName, -, rfl⟩ := Option.map_eq_some_iff.mp hf
  exact ⟨container, serviceName, rfl⟩

theorem head_id_of_portMade {e : AiEndpoint F} (h : PortMade e) :
    e.id.toList.head? ≠ some 'd' := by
  obtain ⟨port, he⟩ := h
  have hname := head_inferService (portUrl port)
  rw [he, portService, String.toList_append, String.toList_append, List.append_assoc,
    List.head?_append]
  cases hhead : (inferService (portUrl port)).1.toList.head? with
  | none =>
    show some '-' ≠ some 'd'
    decide
  | some c => rwa [hhead] at hname

theorem head_id_of_dockerMade {e : AiEndpoint F} (h : DockerMade e) :
    e.id.toList.head? = some 'd' := by
  obtain ⟨container, serviceName, he⟩ := h
  rw [he, dockerService, String.toList_append]
  rfl

theorem tags_of_portMade {e : AiEndpoint F} (h : PortMade e) : e.tags = ["auto-discovered"] := by
  obtain ⟨port, he⟩ := h
  rw [he]
  rfl

theorem tags_of_dockerMade {e : AiEndpoint F} (h : DockerMade e) :
    e.tags = ["docker", "auto-discovered"] := by
  obtain ⟨container, serviceName, he⟩ := h
  rw [he]
  rfl

/-- Made by a source, under an id that no configured endpoint has. -/
def Made (base : List (AiEndpoint F)) (source : Source) (e : AiEndpoint F) : Prop :=
  (match source with
    | .port => PortMade e
    | .docker => DockerMade e) ∧ e.id ∉ base.map (·.id)

theorem shared (base : List (AiEndpoint F)) :
    Shared owned (·.id) base (Made base) := by
  refine ⟨?_, ?_, fun source e h => h.2⟩
  · intro i j e e' hne he he' hid
    cases i <;> cases j
    · exact hne rfl
    · exact head_id_of_portMade he.1 (hid ▸ head_id_of_dockerMade he'.1)
    · exact head_id_of_portMade he'.1 (hid ▸ head_id_of_dockerMade he.1)
    · exact hne rfl
  · intro i j e he
    cases i with
    | port =>
      have htags := tags_of_portMade he.1
      cases j <;> simp [owned, portOwned, dockerOwned, htags]
    | docker =>
      have htags := tags_of_dockerMade he.1
      cases j <;> simp [owned, portOwned, dockerOwned, htags]

theorem made_of_mem_found {base : List (AiEndpoint F)} {scanPorts : List UInt16} {scan : Scan}
    {f : AiEndpoint F} (h : f ∈ scan.found scanPorts) (hfresh : f.id ∉ base.map (·.id)) :
    Made base scan.source f := by
  cases scan with
  | port succeeds now => exact ⟨portMade_of_mem h, hfresh⟩
  | docker containers now => exact ⟨dockerMade_of_mem h, hfresh⟩

/-- A scan of an engine is a scan of its source. -/
theorem scanStep_eq (scanPorts : List UInt16) :
    scanStep (F := F) scanPorts = fun s scan =>
      step owned (·.id) s (scan.report scanPorts) := by
  funext s scan
  cases scan <;> rfl

/-- Two finds of one port are one service. -/
theorem service_eq_of_portMade {e e' : AiEndpoint F} (he : PortMade e) (he' : PortMade e')
    (hid : e.id = e'.id) : e.toService = e'.toService := by
  obtain ⟨port, he⟩ := he
  obtain ⟨port', he'⟩ := he'
  rw [he, he'] at hid
  have hport : port = port' := UInt16.toNat_inj.mp (eq_of_dash_repr_eq hid)
  rw [he, he', hport]

/-! ## The exact condition -/

/-- A container that the docker scan finds again keeps its type and its port. -/
def SteadyContainers (scanPorts : List UInt16) (s : Discovered F) (scan : Scan) : Prop :=
  scan.source = .docker →
    Steady (·.id) AiEndpoint.toService s (scan.report scanPorts)

/-- What a scan finds has ids that no configured endpoint has. -/
def Fresh (scanPorts : List UInt16) (base : List (AiEndpoint F)) (scan : Scan) : Prop :=
  ∀ f : AiEndpoint F, f ∈ scan.found scanPorts → f.id ∉ base.map (·.id)

/-- A scan of the ports is always steady. -/
theorem steady_iff {scanPorts : List UInt16} {base : List (AiEndpoint F)} {scan : Scan}
    {s : Discovered F} (hfresh : Fresh scanPorts base scan)
    (hacc : Accounted (·.id) base (Made base) s) :
    SteadyContainers scanPorts s scan ↔
      Steady (·.id) AiEndpoint.toService s (scan.report scanPorts) := by
  refine ⟨fun h => ?_, fun h _ => h⟩
  cases scan with
  | docker containers now => exact h rfl
  | port succeeds now =>
    intro f hf g hg hid
    have hmade : ∀ e, e ∈ (Scan.port succeeds now).found scanPorts ++ s.found .port →
        PortMade e := by
      intro e he
      rcases List.mem_append.mp he with hnew | hold
      · exact portMade_of_mem hnew
      · exact (hacc.made_of_mem .port e hold).1
    exact service_eq_of_portMade (hmade f (List.mem_append_left _ hf)) (hmade g hg) hid

section Runs

variable {scanPorts : List UInt16} {base : List (AiEndpoint F)} {scans : List Scan}

theorem guarded_steady_iff (hbase : (base.map (·.id)).Nodup)
    (hfresh : ∀ scan ∈ scans, Fresh scanPorts base scan) :
    Transition.Guarded (scanStep scanPorts) (SteadyContainers scanPorts) (started base) scans ↔
      Transition.Guarded (step owned (·.id)) (Steady (·.id) AiEndpoint.toService) (started base)
        (scans.map (Scan.report scanPorts)) := by
  rw [← Transition.guarded_map, scanStep_eq]
  refine Transition.guarded_congr_on (I := Accounted (·.id) base (Made base))
    (A := Fresh scanPorts base) ?_ ?_ hfresh (accounted_start hbase)
  · intro s scan t hscan hacc hstep
    exact (shared base).accounted_step (fun f hf => made_of_mem_found hf (hscan f hf)) hacc hstep
  · exact fun s scan hscan hacc => steady_iff hscan hacc

end Runs

/-- The map has the configured endpoints and the ids that were found last exactly
when no engine that scans owns a configured endpoint.  It shows the services that
were found last exactly when, besides, containers are steady.  Such a map does not
depend on the order of the scans. -/
theorem owns_iff (scanPorts : List UInt16) (configs : List (EndpointConfig F × Uuid)) (now : Int)
    (scans : List Scan) (hids : ((configured configs now).map (·.id)).Nodup)
    (hfresh : ∀ scan ∈ scans, Fresh scanPorts (configured configs now) scan) :
    let base := configured configs now
    (Transition.Always (scanStep scanPorts) (KeysExact (·.id) base) (started base) scans ↔
      ∀ scan ∈ scans, ∀ e ∈ base, owned scan.source e = false) ∧
    (Transition.Always (scanStep scanPorts) (Exact (·.id) AiEndpoint.toService base) (started base)
        scans ↔
      (∀ scan ∈ scans, ∀ e ∈ base, owned scan.source e = false) ∧
        Transition.Guarded (scanStep scanPorts) (SteadyContainers scanPorts) (started base) scans) ∧
    ∀ s t : Discovered F, Exact (·.id) AiEndpoint.toService base s →
      Exact (·.id) AiEndpoint.toService base t → (∀ source, s.found source = t.found source) →
        ∀ id, (s.map.lookup id).map AiEndpoint.toService =
          (t.map.lookup id).map AiEndpoint.toService := by
  intro base
  have hmade : ∀ a ∈ scans.map (Scan.report (F := F) scanPorts), ∀ f ∈ a.2, Made base a.1 f := by
    intro a ha f hf
    obtain ⟨scan, hscan, rfl⟩ := List.mem_map.mp ha
    exact made_of_mem_found hf (hfresh scan hscan f hf)
  have hreports : (∀ a ∈ scans.map (Scan.report (F := F) scanPorts), ∀ e ∈ base,
      owned a.1 e = false) ↔ ∀ scan ∈ scans, ∀ e ∈ base, owned scan.source e = false :=
    List.forall_mem_map
  refine ⟨?_, ?_, fun s t hs ht hfound => hs.lookup_eq ht hfound⟩
  · rw [scanStep_eq, Transition.always_map, ← hreports]
    exact (shared base).always_keysExact_iff (accounted_start hids) (kept_start hids) hmade
  · rw [guarded_steady_iff hids hfresh, scanStep_eq, Transition.always_map, ← hreports]
    exact (shared base).always_exact_iff (accounted_start hids) (kept_start hids) hmade
      current_start

/-- A configured endpoint with the tags of its user. -/
def taggedConfig (tags : List String) : EndpointConfig Nat where
  name := "local"
  url := "http://127.0.0.1:9000"
  endpointType := "api"
  weight := 1
  tags := tags
  headers := ∅

/-- The only configured endpoint, under the id that is drawn first. -/
def taggedBase (tags : List String) : List (AiEndpoint Nat) :=
  configured [(taggedConfig tags, 0)] 0

/-- A container with the label of a service. -/
def labelled : Container where
  id := some "4f5a"
  labels := some (AList.singleton "ai.xfiles.service" "llm")
  ports := some [some 8123]

/-- A docker scan that finds nothing removes a configured endpoint with the tag `docker`. -/
theorem docker_tag_is_lost :
    ((taggedBase ["docker"]).map (·.id)).Nodup ∧ Fresh [] (taggedBase ["docker"]) (.docker [] 0) ∧
    ¬Transition.Always (scanStep []) (KeysExact (·.id) (taggedBase ["docker"]))
      (started (taggedBase ["docker"])) [.docker [] 0] := by
  refine ⟨by decide +kernel, fun f hf => absurd hf List.not_mem_nil, fun halways => ?_⟩
  have hkept : Kept (·.id) (taggedBase ["docker"]) _ := (halways.tail rfl).head.kept
  have hlost : ∀ e ∈ taggedBase ["docker"],
      e.id ∉ (dockerScan [] 0 (started (taggedBase ["docker"])).map).keys := by
    decide +kernel
  have hconfigured : (taggedBase ["docker"]).length = 1 := by decide +kernel
  obtain ⟨e, he⟩ := List.exists_mem_of_length_pos (hconfigured ▸ Nat.one_pos)
  have hlookup := AList.lookup_isSome.mp (Option.isSome_of_mem (hkept e he))
  exact hlost e he (AList.mem_keys.mp hlookup)

/-- One port that answers, and one container. -/
def sampleScans : List Scan :=
  [.port (fun url => url == "http://127.0.0.1:8080/health") 1, .docker [labelled] 2]

theorem owns_iff_gpu :
    Transition.Always (scanStep [8080]) (KeysExact (·.id) (taggedBase ["gpu"]))
      (started (taggedBase ["gpu"])) sampleScans := by
  have hids : ∀ scan ∈ sampleScans, ∀ id ∈ (scan.found (F := Nat) [8080]).map (·.id),
      id ∉ (taggedBase ["gpu"]).map (·.id) := by
    decide +kernel
  have hfresh : ∀ scan ∈ sampleScans, Fresh [8080] (taggedBase ["gpu"]) scan :=
    fun scan hscan f hf => hids scan hscan f.id (List.mem_map_of_mem hf)
  have hfree : ∀ scan ∈ sampleScans, ∀ e ∈ taggedBase ["gpu"], owned scan.source e = false := by
    decide +kernel
  exact (owns_iff [8080] [(taggedConfig ["gpu"], 0)] 0 _ (by decide +kernel) hfresh).1.mpr hfree

end Xfiles.Ai
