import Xfiles.Http.Auth

/-!
# The routes of the hub

The route tables of `daemon.rs` and `api.rs`, and what a request reaches through them.

* `apiRoutes` is `build_router` of `api.rs`.  `appRoutes` is the router of `run` in `daemon.rs`,
  which nests the first one.
* `Fits` says when a path can match a pattern.  `Framework` is what the hub relies on of the web
  framework: a path that is found fits the pattern of its route.
* `app` is the router with its methods, behind the CORS layer.
* `handler_of_public` says what a path that needs no API key can reach, and `app_one_entry`
  that the routes of `api.rs` are not reached under `/api/v1/`.
-/

namespace Xfiles.Http

open Auth

/-! ## Handlers and routes -/

/-- The handlers of `daemon.rs`, and then those of `api.rs`. -/
inductive Handler where
  | healthHandler | metricsHandler | fsReadHandler | fsWriteHandler | msgHandler
  | proxyModelsHandler | proxyChatHandler | quantumStateHandler | quantumFeedbackHandler
  | circuitStateHandler | grpcHandler | agentsHandler | endpointsHandler | mcpToolsHandler
  | conversationsHandler | conversationMessagesHandler | conversationQuantumHandler
  | wsHandlerWrapped
  | listAgents | registerAgent | getAgent | unregisterAgent | agentMessages | listEndpoints
  | getEndpoint | endpointHealth | vfsRead | vfsWrite | vfsDelete | sendMessage | listMessages
  | getMessage | listConversations | getConversation | conversationMessages
  | conversationQuantum | aiCompletions | aiModels | listMcpTools | callMcpTool | quantumState
  | quantumFeedback | circuitState | orchestrate
  deriving DecidableEq

/-- The handlers of a path, by method. -/
structure MethodRouter where
  onGet : Option Handler
  onPost : Option Handler
  onDelete : Option Handler
  deriving DecidableEq

namespace MethodRouter

def get (handler : Handler) : MethodRouter := ⟨some handler, none, none⟩

def post (handler : Handler) : MethodRouter := ⟨none, some handler, none⟩

def andPost (methods : MethodRouter) (handler : Handler) : MethodRouter :=
  { methods with onPost := some handler }

def andDelete (methods : MethodRouter) (handler : Handler) : MethodRouter :=
  { methods with onDelete := some handler }

/-- A `HEAD` request is served as a `GET` request. -/
def find (methods : MethodRouter) (method : String) : Option Handler :=
  if method = "GET" ∨ method = "HEAD" then methods.onGet
  else if method = "POST" then methods.onPost
  else if method = "DELETE" then methods.onDelete
  else none

end MethodRouter

structure Route where
  pattern : String
  methods : MethodRouter
  deriving DecidableEq

open MethodRouter in
/-- Build the /api/v1 router. -/
def apiRoutes : List Route :=
  [⟨"/api/v1/agents", (get .listAgents).andPost .registerAgent⟩,
    ⟨"/api/v1/agents/:id", (get .getAgent).andDelete .unregisterAgent⟩,
    ⟨"/api/v1/agents/:id/messages", get .agentMessages⟩,
    ⟨"/api/v1/endpoints", get .listEndpoints⟩,
    ⟨"/api/v1/endpoints/:id", get .getEndpoint⟩,
    ⟨"/api/v1/endpoints/:id/health", get .endpointHealth⟩,
    ⟨"/api/v1/fs/*path", ((get .vfsRead).andPost .vfsWrite).andDelete .vfsDelete⟩,
    ⟨"/api/v1/messages", (get .listMessages).andPost .sendMessage⟩,
    ⟨"/api/v1/messages/:id", get .getMessage⟩,
    ⟨"/api/v1/conversations", get .listConversations⟩,
    ⟨"/api/v1/conversations/:id", get .getConversation⟩,
    ⟨"/api/v1/conversations/:id/messages", get .conversationMessages⟩,
    ⟨"/api/v1/conversations/:id/quantum-state", get .conversationQuantum⟩,
    ⟨"/api/v1/ai/completions", post .aiCompletions⟩,
    ⟨"/api/v1/ai/models", get .aiModels⟩,
    ⟨"/api/v1/mcp/tools", get .listMcpTools⟩,
    ⟨"/api/v1/mcp/tools/:name/call", post .callMcpTool⟩,
    ⟨"/api/v1/quantum/state", get .quantumState⟩,
    ⟨"/api/v1/quantum/feedback", post .quantumFeedback⟩,
    ⟨"/api/v1/circuit/state", get .circuitState⟩,
    ⟨"/api/v1/orchestrate", post .orchestrate⟩]

/-- `Router::nest`, which puts a prefix in front of each pattern. -/
def nest (root : String) (routes : List Route) : List Route :=
  routes.map fun route => { route with pattern := root ++ route.pattern }

open MethodRouter in
/-- The router of the daemon. -/
def appRoutes : List Route :=
  [⟨"/health", get .healthHandler⟩,
    ⟨"/metrics", get .metricsHandler⟩,
    ⟨"/fs/*path", (get .fsReadHandler).andPost .fsWriteHandler⟩,
    ⟨"/msg", post .msgHandler⟩,
    ⟨"/v1/models", get .proxyModelsHandler⟩,
    ⟨"/v1/chat/completions", post .proxyChatHandler⟩,
    ⟨"/quantum/state", get .quantumStateHandler⟩,
    ⟨"/quantum/feedback", post .quantumFeedbackHandler⟩,
    ⟨"/circuit/state", get .circuitStateHandler⟩,
    ⟨"/grpc", post .grpcHandler⟩,
    ⟨"/agents", get .agentsHandler⟩,
    ⟨"/endpoints", get .endpointsHandler⟩,
    ⟨"/mcp/tools", get .mcpToolsHandler⟩,
    ⟨"/conversations", get .conversationsHandler⟩,
    ⟨"/conversations/:id/messages", get .conversationMessagesHandler⟩,
    ⟨"/conversations/:id/quantum-state", get .conversationQuantumHandler⟩,
    ⟨"/ws/:agent_id", get .wsHandlerWrapped⟩] ++
  nest "/api/v1" apiRoutes

/-! ## Paths and patterns -/

/-- A segment of a pattern. -/
inductive Part where
  | text (text : List Char)
  | capture
  | wildcard
  deriving DecidableEq

def Part.parse : List Char → Part
  | ':' :: _ => .capture
  | '*' :: _ => .wildcard
  | part => .text part

/-- What stands between the slashes. -/
def segments (path : String) : List (List Char) := path.toList.splitOn '/'

def Route.parts (route : Route) : List Part := (segments route.pattern).map Part.parse

/-- A capture takes one segment, a wildcard all that are left. -/
def fits : List Part → List (List Char) → Bool
  | [], [] => true
  | .text text :: pattern, segment :: path => text == segment && fits pattern path
  | .capture :: pattern, _ :: path => fits pattern path
  | .wildcard :: _, _ :: _ => true
  | _, _ => false

/-- Whether a path that begins with these segments can fit. -/
def canFit : List Part → List (List Char) → Bool
  | _, [] => true
  | .text text :: pattern, segment :: path => text == segment && canFit pattern path
  | .capture :: pattern, _ :: path => canFit pattern path
  | .wildcard :: _, _ :: _ => true
  | [], _ :: _ => false

theorem canFit_of_fits {pattern : List Part} {start rest : List (List Char)}
    (h : fits pattern (start ++ rest) = true) : canFit pattern start = true := by
  induction start generalizing pattern with
  | nil => cases pattern <;> rfl
  | cons segment start ih =>
    cases pattern with
    | nil => exact absurd h Bool.false_ne_true
    | cons part pattern =>
      cases part with
      | text text =>
        obtain ⟨heq, hrest⟩ := Bool.and_eq_true_iff.mp h
        exact Bool.and_eq_true_iff.mpr ⟨heq, ih hrest⟩
      | capture => exact ih h
      | wildcard => rfl

/-- The texts in front of a pattern are the first segments of a path that fits. -/
theorem segments_of_fits {texts : List (List Char)} {pattern : List Part}
    {path : List (List Char)} (h : fits (texts.map Part.text ++ pattern) path = true) :
    ∃ rest, path = texts ++ rest ∧ fits pattern rest = true := by
  induction texts generalizing path with
  | nil => exact ⟨path, rfl, h⟩
  | cons text texts ih =>
    cases path with
    | nil => exact absurd h Bool.false_ne_true
    | cons segment path =>
      obtain ⟨heq, hrest⟩ := Bool.and_eq_true_iff.mp h
      obtain ⟨rest, rfl, hfits⟩ := ih hrest
      obtain rfl := eq_of_beq heq
      exact ⟨rest, rfl, hfits⟩

theorem segments_of_startsWith {path : String} (start : List Char)
    (h : start ++ ['/'] <+: path.toList) :
    ∃ rest, segments path = start.splitOn '/' ++ rest := by
  obtain ⟨rest, hrest⟩ := h
  rw [List.append_assoc, List.singleton_append] at hrest
  exact ⟨rest.splitOn '/', by rw [segments, ← hrest, List.splitOn_append_cons_self]⟩

/-! ## The router -/

/-- An answer without a text. -/
def empty (status : Nat) : Auth.Response where
  status := status
  body := ""

def notFound : Auth.Response := empty 404

def methodNotAllowed : Auth.Response := empty 405

/-- What the hub relies on of the web framework.  A path that is found fits its route.  The
extractor of a WebSocket rejects a request that is no upgrade. -/
structure Framework (V B : Type*) where
  findRoute : List Route → String → Option Route
  mem_of_findRoute : ∀ {routes path route}, findRoute routes path = some route → route ∈ routes
  fits_of_findRoute : ∀ {routes path route}, findRoute routes path = some route →
    fits route.parts (segments path) = true
  preflight : Auth.Request V B → Auth.Response
  rejectUpgrade : Auth.Request V B → Option Auth.Response

/-- The handlers, on the state of the hub. -/
abbrev Handlers (V B S : Type*) := Handler → Auth.Request V B → S → Auth.Response × S

section App

variable {V B S : Type*} (fw : Framework V B)

/-- The router behind the permissive CORS layer, which answers `OPTIONS` requests. -/
def app (handlers : Handlers V B S) (request : Auth.Request V B) (s : S) : Auth.Response × S :=
  if request.method = "OPTIONS" then (fw.preflight request, s)
  else
    match fw.findRoute appRoutes request.path with
    | none => (notFound, s)
    | some route =>
      match route.methods.find request.method with
      | none => (methodNotAllowed, s)
      | some handler =>
        let answer := handlers handler request s
        -- the body of an answer to a HEAD request is removed
        if request.method = "HEAD" then (empty answer.1.status, answer.2) else answer

/-- The path is one that needs no API key. -/
def Public (path : String) : Prop :=
  path = "/health" ∨ path = "/metrics" ∨ StartsWith path "/ws/"

/-- The first segments of these paths, with the handlers that they reach. -/
def publicRoutes : List (String × Handler) :=
  [("health", .healthHandler), ("metrics", .metricsHandler), ("ws", .wsHandlerWrapped)]

theorem methods_of_publicRoutes : ∀ entry ∈ publicRoutes, ∀ route ∈ appRoutes,
    canFit route.parts [[], entry.1.toList] = true → route.methods = .get entry.2 := by
  decide +kernel

theorem segments_of_public {path : String} (h : Public path) :
    ∃ entry ∈ publicRoutes, ∃ rest, segments path = [[], entry.1.toList] ++ rest := by
  rcases h with rfl | rfl | hws
  · exact ⟨("health", .healthHandler), by simp [publicRoutes], [], by decide +kernel⟩
  · exact ⟨("metrics", .metricsHandler), by simp [publicRoutes], [], by decide +kernel⟩
  · obtain ⟨rest, hsegments⟩ := segments_of_startsWith "/ws".toList hws
    have hsplit : "/ws".toList.splitOn '/' = [[], "ws".toList] := by decide +kernel
    rw [hsplit] at hsegments
    exact ⟨("ws", .wsHandlerWrapped), by simp [publicRoutes], rest, hsegments⟩

/-- A path without an API key reaches no other handler, by whatever method. -/
theorem handler_of_public {path : String} (hpublic : Public path) {route : Route}
    (hmem : route ∈ appRoutes) (hfits : fits route.parts (segments path) = true)
    {method : String} {handler : Handler} (hfind : route.methods.find method = some handler) :
    handler ∈ publicRoutes.map (·.2) := by
  obtain ⟨entry, hentry, rest, hsegments⟩ := segments_of_public hpublic
  rw [hsegments] at hfits
  rw [methods_of_publicRoutes entry hentry route hmem (canFit_of_fits hfits)] at hfind
  have hsame : handler = entry.2 := by
    unfold MethodRouter.find at hfind
    split_ifs at hfind
    · exact (Option.some.inj hfind).symm
    · exact absurd hfind (by simp [MethodRouter.get])
    · exact absurd hfind (by simp [MethodRouter.get])
  rw [hsame]
  exact List.mem_map_of_mem hentry

/-! ## The routes of `api.rs` -/

/-- A route that a path under `/api/v1/` can fit has the prefix twice. -/
theorem parts_of_v1 : ∀ route ∈ appRoutes,
    canFit route.parts [[], "api".toList, "v1".toList] = true →
    route.parts = [[], "api".toList, "v1".toList, "api".toList, "v1".toList].map Part.text ++
      route.parts.drop 5 ∧ route.parts.drop 5 ≠ [] := by
  decide +kernel

/-- The routes of `api.rs` carry the prefix `/api/v1` under which they are nested.  A request
with the prefix once is not found. -/
theorem app_one_entry (handlers : Handlers V B S) {request : Auth.Request V B}
    (hmethod : request.method ≠ "OPTIONS") (hstarts : StartsWith request.path "/api/v1/")
    (htwice : ¬ StartsWith request.path "/api/v1/api/v1/") (s : S) :
    app fw handlers request s = (notFound, s) := by
  have hnone : fw.findRoute appRoutes request.path = none := by
    by_contra hsome
    obtain ⟨route, hroute⟩ := Option.ne_none_iff_exists'.mp hsome
    have hfits := fw.fits_of_findRoute hroute
    obtain ⟨rest, hsegments⟩ := segments_of_startsWith "/api/v1".toList hstarts
    have hsplit : "/api/v1".toList.splitOn '/' = [[], "api".toList, "v1".toList] := by
      decide +kernel
    rw [hsplit] at hsegments
    have hcan := canFit_of_fits (hsegments ▸ hfits)
    obtain ⟨hparts, hmore⟩ := parts_of_v1 route (fw.mem_of_findRoute hroute) hcan
    rw [hparts] at hfits
    obtain ⟨tail, htail, htailfits⟩ := segments_of_fits hfits
    cases tail with
    | nil =>
      cases hdrop : route.parts.drop 5 with
      | nil => exact hmore hdrop
      | cons part parts =>
        rw [hdrop] at htailfits
        cases part <;> exact absurd htailfits Bool.false_ne_true
    | cons segment tail =>
      refine htwice ?_
      have hpath : ['/'].intercalate (request.path.toList.splitOn '/') = request.path.toList :=
        List.intercalate_splitOn '/'
      rw [segments] at htail
      rw [htail] at hpath
      rw [StartsWith, ← hpath]
      exact ⟨['/'].intercalate (segment :: tail), rfl⟩
  rw [app, if_neg hmethod, hnone]

end App

/-- A framework that takes the first route that fits. -/
def firstFit : Framework String Unit where
  findRoute routes path := routes.find? fun route => fits route.parts (segments path)
  mem_of_findRoute h := List.mem_of_find?_eq_some h
  fits_of_findRoute h := List.find?_some (p := fun route : Route => fits route.parts _) h
  preflight _ := empty 200
  rejectUpgrade _ := none

theorem app_one_entry_agents :
    app firstFit (fun _ _ (s : Nat) => (empty 200, s + 1)) ⟨"GET", "/api/v1/agents", [], ()⟩ 0 =
      (notFound, 0) ∧
    app firstFit (fun _ _ (s : Nat) => (empty 200, s + 1)) ⟨"GET", "/api/v1/api/v1/agents", [], ()⟩
      0 = (empty 200, 1) :=
  ⟨app_one_entry firstFit _ (by decide) (by decide) (by decide) 0, by decide +kernel⟩

end Xfiles.Http
