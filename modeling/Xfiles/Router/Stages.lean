import Xfiles.Circuit.Basic
import Xfiles.Message.Basic

/-!
# What the routing stages ask

The models of `mcp.rs` and `plumber.rs`, and of one check of the circuit stage
of `router.rs`.

* `McpRegistry` is the tool index.  A client is kept as the id of its endpoint.
  `discoverAndIndex` visits the clients in the order of the list, and takes what
  each of them answers as an argument: its tools, or nothing when the discovery
  fails.
* `Plumber` holds rules on the content of a message, each with a destination.
  A rule keeps the pattern as the predicate of the compiled regex, which belongs
  to another library.  `route` is never empty: a message that no rule matches
  goes to `/proc/log`.
* `circuitCheck` is the closure of `candidates.retain`: the breaker first, and
  then the health of the endpoint, when the destination is the id of one.  The
  breaker is shared, so other callers may run between two checks of one stage.
-/

namespace Xfiles.Router

open Xfiles.Circuit

/-! ## The MCP registry -/

/-- Registry of MCP clients indexed by endpoint id. -/
structure McpRegistry where
  clients : List String
  /-- tool_name -> endpoint_id -/
  toolIndex : String → Option String

namespace McpRegistry

def new : McpRegistry where
  clients := []
  toolIndex _ := none

def register (r : McpRegistry) (endpointId : String) : McpRegistry :=
  { r with clients := r.clients.insert endpointId }

/-- The tool goes to the first endpoint that offers it. -/
def indexTool (endpointId : String) (index : String → Option String) (tool : String) :
    String → Option String :=
  if (index tool).isSome then index
  else fun name => if name = tool then some endpointId else index name

/-- Discover tools from all endpoints and build a tool-name index. -/
def discoverAndIndex (r : McpRegistry) (discoverTools : String → Option (List String)) :
    McpRegistry :=
  { r with
    toolIndex := r.clients.foldl
      (fun index id => ((discoverTools id).getD []).foldl (indexTool id) index) fun _ => none }

/-- Find the endpoint id that provides a given tool. -/
def findEndpointForTool (r : McpRegistry) (toolName : String) : Option String :=
  r.toolIndex toolName

end McpRegistry

/-! ## The plumber -/

/-- Content-based routing rule inspired by Plan 9 plumber. -/
structure PlumberRule where
  name : String
  /-- `Regex::is_match` of the compiled pattern. -/
  pattern : String → Bool
  destination : String
  priority : Int
  headerMatch : Option Headers

/-- The plumber routes messages based on content patterns.  The rules are in
the order in which they are tried. -/
structure Plumber where
  rules : List PlumberRule

namespace Plumber

/-- The canonical string representation of a message. -/
def haystack (msg : Message) : String :=
  "type:" ++ msg.msgType ++ " sender:" ++ msg.sender ++ " path:" ++ msg.path ++ " data:" ++
    msg.data.text

/-- Match the pattern, and the header constraints if there are any. -/
def ruleMatches (rule : PlumberRule) (msg : Message) : Bool :=
  rule.pattern (haystack msg) &&
    match rule.headerMatch with
    | some headers => headers.entries.all fun header => msg.headers.lookup header.1 = some header.2
    | none => true

/-- The destinations of the rules that match, or the default fallback. -/
def route (plumber : Plumber) (msg : Message) : List String :=
  let destinations := (plumber.rules.filter fun rule => ruleMatches rule msg).map (·.destination)
  if destinations.isEmpty then ["/proc/log"] else destinations

end Plumber

/-! ## The circuit check -/

/-- The health of an AI endpoint. -/
inductive HealthStatus where
  | healthy
  | degraded
  | offline
  deriving DecidableEq, Repr

/-- The endpoint map, as far as routing reads it: the health status under
each registered id. -/
abbrev EndpointMap := String → Option HealthStatus

/-- The check of one candidate: whether it stays a candidate, and the
breaker after the check.  The breaker is asked before the health is looked
at. -/
def circuitCheck (endpoints : EndpointMap) (circuit : CircuitBreaker) (now : Nat)
    (epId : String) : Bool × CircuitBreaker :=
  let answer := circuit.allow epId now
  (answer.1 && endpoints epId ≠ some .offline, answer.2)

@[simp] theorem circuitCheck_snd (endpoints : EndpointMap) (circuit : CircuitBreaker)
    (now : Nat) (epId : String) :
    (circuitCheck endpoints circuit now epId).2 = (circuit.allow epId now).2 := rfl

end Xfiles.Router
