import Xfiles.Message.Codec
import Xfiles.Router.Stages

/-!
# AI endpoints

The record of `ai/endpoints.rs`, and how one is made from the configuration.
`Service` is an endpoint without its health, which changes from probe to probe.
-/

namespace Xfiles.Ai

open Router (HealthStatus)

variable {F : Type}

/-- Classification of AI endpoint types. -/
inductive EndpointType where
  | router
  | inference
  | memory
  | agent
  | api

/-- `FromStr`. -/
def EndpointType.parse : String → Option EndpointType
  | "router" => some router
  | "inference" => some inference
  | "memory" => some memory
  | "agent" => some agent
  | "api" => some api
  | _ => none

structure EndpointHealth where
  status : HealthStatus
  lastChecked : Int
  offlineSince : Option Int
  consecutiveFailures : UInt32
  probeLatencyMs : UInt64
  lastError : Option String

/-- `Default`. -/
def EndpointHealth.new (now : Int) : EndpointHealth where
  status := .healthy
  lastChecked := now
  offlineSince := none
  consecutiveFailures := 0
  probeLatencyMs := 0
  lastError := none

/-- What an endpoint is, without its health. -/
structure Service (F : Type) where
  id : String
  name : String
  url : String
  endpointType : EndpointType
  weight : F
  tags : List String
  headers : Headers

/-- A known AI service endpoint. -/
structure AiEndpoint (F : Type) extends Service F where
  health : EndpointHealth

/-- `config::AiEndpoint`. -/
structure EndpointConfig (F : Type) where
  name : String
  url : String
  endpointType : String
  weight : F
  tags : List String
  headers : Headers

/-- `AiEndpoint::from_config`, with the id that `Uuid::new_v4` returns. -/
def AiEndpoint.fromConfig (cfg : EndpointConfig F) (uuid : Uuid) (now : Int) :
    Option (AiEndpoint F) := do
  let endpointType ← EndpointType.parse cfg.endpointType
  return {
    id := cfg.name ++ "-" ++ Uuid.text.encode uuid
    name := cfg.name
    url := cfg.url
    endpointType
    weight := cfg.weight
    tags := cfg.tags
    headers := cfg.headers
    health := .new now }

end Xfiles.Ai
