import Elpis.Gateway.ProviderCredentials
import Elpis.Js.Bytes
import Elpis.Js.Json
import Elpis.Lib.Codec

/-!
# The LLM proxy protocol

`packages/gateway-protocol/src/llm-proxy.ts`: the values that the gateway and a resident
exchange about models, and their texts. All checks fail with one error. `hash` is SHA-256 in
lowercase hex, `localeCompare` the order of strings of the locale, and `parse` is
`JSON.parse`.
-/

namespace Elpis.Gateway.LlmProxy

open Elpis.Js Elpis.Lib
open Elpis.Gateway.Protocol (maxSafeInteger isId base64Text base64Bytes base64Char startsWith)
open Elpis.Gateway.Provider (ProviderType)

/-! ## Constants -/

namespace LIMITS

def catalogBodyBytes : ℕ := 256 * 1024
def requestBodyBytes : ℕ := 48 * 1024 * 1024
def errorBodyBytes : ℕ := 1024
def payloadBytes : ℕ := 32 * 1024 * 1024
def models : ℕ := 256
def modelRefBytes : ℕ := 256
def upstreamModelBytes : ℕ := 512
def reasoningBytes : ℕ := 1024
def toolContractVersionBytes : ℕ := 128
def transportIdBytes : ℕ := 512
def contextSize : ℕ := 16 * 1024 * 1024
def timeoutMs : ℕ := 24 * 60 * 60 * 1000
def provenanceHeaderBytes : ℕ := 4 * 1024
def responseHeaderValueBytes : ℕ := 1024

end LIMITS

/-- `LLM_PROXY_TOOL_TIERS`. -/
inductive ToolTier where
  | weak | medium | strong
deriving DecidableEq, Repr

def ToolTier.all : List ToolTier := [weak, medium, strong]

def ToolTier.name : ToolTier → String
  | weak => "weak"
  | medium => "medium"
  | strong => "strong"

/-- `LLM_PROXY_ROUTES`. -/
inductive Route where
  | responses | chatCompletions | messages | codexResponses | codexModels | models
deriving DecidableEq, Repr

def Route.all : List Route := [responses, chatCompletions, messages, codexResponses, codexModels, models]

def Route.name : Route → String
  | responses => "responses"
  | chatCompletions => "chat/completions"
  | messages => "messages"
  | codexResponses => "codex/responses"
  | codexModels => "codex/models"
  | models => "models"

/-- `LLM_PROXY_GET_ROUTES`. -/
def Route.isGet : Route → Bool
  | codexModels | models => true
  | _ => false

/-- The routes that need a session of the codex transport. -/
def Route.isCodex : Route → Bool
  | codexResponses | codexModels | models => true
  | _ => false

def providerTypes : List ProviderType := [.openaiCompatible, .anthropicOauth, .codexOauth]

/-- `LLM_PROXY_ERROR_CODES`. -/
inductive ErrorCode where
  | invalid_request | unauthorized | forbidden | not_found | stale_target | payload_too_large
  | route_not_allowed | upstream_unavailable | upstream_timeout | cancelled | rate_limited
  | internal_error
deriving DecidableEq, Repr

def ErrorCode.all : List ErrorCode :=
  [invalid_request, unauthorized, forbidden, not_found, stale_target, payload_too_large, route_not_allowed,
    upstream_unavailable, upstream_timeout, cancelled, rate_limited, internal_error]

def ErrorCode.name : ErrorCode → String
  | invalid_request => "invalid_request"
  | unauthorized => "unauthorized"
  | forbidden => "forbidden"
  | not_found => "not_found"
  | stale_target => "stale_target"
  | payload_too_large => "payload_too_large"
  | route_not_allowed => "route_not_allowed"
  | upstream_unavailable => "upstream_unavailable"
  | upstream_timeout => "upstream_timeout"
  | cancelled => "cancelled"
  | rate_limited => "rate_limited"
  | internal_error => "internal_error"

/-- `LLM_PROXY_SAFE_RESPONSE_HEADERS`. -/
def safeResponseHeaders : List String :=
  ["anthropic-ratelimit-input-tokens-limit", "anthropic-ratelimit-input-tokens-remaining",
    "anthropic-ratelimit-input-tokens-reset", "anthropic-ratelimit-output-tokens-limit",
    "anthropic-ratelimit-output-tokens-remaining", "anthropic-ratelimit-output-tokens-reset",
    "anthropic-ratelimit-requests-limit", "anthropic-ratelimit-requests-remaining",
    "anthropic-ratelimit-requests-reset", "content-type", "openai-processing-ms", "openai-version",
    "request-id", "retry-after", "x-request-id", "x-ratelimit-limit-requests", "x-ratelimit-limit-tokens",
    "x-ratelimit-remaining-requests", "x-ratelimit-remaining-tokens", "x-ratelimit-reset-requests",
    "x-ratelimit-reset-tokens"]

/-! ## Values -/

inductive Transport where
  | none
  | codex (sessionId : String)
deriving DecidableEq, Repr

structure Request where
  requestId : String
  modelRef : String
  targetGeneration : String
  route : Route
  transport : Transport
  byteLength : ℕ
  sha256 : String
  payload : List UInt8
deriving DecidableEq, Repr

structure CatalogModel where
  modelRef : String
  targetGeneration : String
  providerType : ProviderType
  model : String
  allowedRoutes : List Route
  contextSize : Option ℕ
  reasoningEffort : Option String
  reasoningSummary : Option String
  reasoningContext : Option String
  toolTier : Option ToolTier
  externalThinking : Bool
  toolContractVersion : String
  callTimeoutMs : ℕ
  streamIdleTimeoutMs : ℕ
deriving DecidableEq, Repr

structure Catalog where
  revision : ℕ
  models : List CatalogModel
deriving DecidableEq, Repr

structure ErrorEnvelope where
  code : ErrorCode
  requestId : Option String
deriving DecidableEq, Repr

structure SafeHeader where
  name : String
  value : String
deriving DecidableEq, Repr

structure Provenance where
  requestId : String
  modelRef : String
  targetGeneration : String
  route : Route
  status : ℕ
  headers : List SafeHeader
deriving DecidableEq, Repr

/-! ## Checks of texts -/

def bytesIn (value : String) (minimum maximum : ℕ) : Bool :=
  decide (minimum ≤ value.utf8ByteSize) && decide (value.utf8ByteSize ≤ maximum)

def plainText (value : String) (minimum maximum : ℕ) : Bool :=
  !hasControlOrFormat value && bytesIn value minimum maximum

def nullableText (value : Option String) (maximum : ℕ) : Bool := value.all (fun text => plainText text 0 maximum)

/-- `modelRefPattern`: two slugs around the only slash. -/
def isModelRef (s : String) : Bool :=
  match s.toList.splitOn '/' with
  | [provider, model] => startsAs lowerClass slugClass provider && startsAs lowerClass slugClass model
  | _ => false

def modelRefValue (s : String) : Bool := isModelRef s && decide (s.utf8ByteSize ≤ LIMITS.modelRefBytes)

def isLlmTargetGeneration (s : String) : Bool :=
  startsWith s "egt1." && isCanonical16 (String.ofList (s.toList.drop 5))

/-- `upstreamModelPattern`. -/
def upstreamClass (c : Char) : Bool := c.isAlphanum || c == '.' || c == '_' || c == '/' || c == '-'

/-- `[:=_-]`. -/
def separatorClass (c : Char) : Bool := c == ':' || c == '=' || c == '_' || c == '-'

/-- The alternatives of `credentialShapedUpstreamModel`, on a text in lower case. -/
def credentialShapes : List (List (Char → Bool)) :=
  let tail := List.replicate 16 base64urlClass
  [literal "sk-" ++ tail, literal "sk-proj-" ++ tail, literal "apikey" ++ [separatorClass],
    literal "api" ++ [fun c => c == '_' || c == '-'] ++ literal "key" ++ [separatorClass],
    literal "bearer" ++ [separatorClass], literal "token" ++ [separatorClass],
    literal "key" ++ [separatorClass], literal "xox" ++ [fun c => decide (c ∈ "baprs".toList)] ++ literal "-",
    literal "gh" ++ [fun c => decide (c ∈ "pousr".toList)] ++ literal "_", literal "github_pat_",
    literal "akia" ++ List.replicate 16 Char.isAlphanum]

/-- The text begins with the shape. -/
def beginsAs (classes : List (Char → Bool)) (s : String) : Bool :=
  decide (classes.length ≤ s.toList.length) && (classes.zip s.toList).all (fun (p, c) => p c)

def upstreamModelValue (s : String) : Bool :=
  plainText s 1 LIMITS.upstreamModelBytes && startsAs Char.isAlphanum upstreamClass s.toList &&
    !credentialShapes.any (fun shape => beginsAs shape (String.ofList (s.toList.map Char.toLower)))

/-- `visibleAscii`. -/
def isVisible (c : Char) : Bool := decide (0x21 ≤ c.toNat) && decide (c.toNat ≤ 0x7E)

/-- `headerValuePattern`. -/
def isHeaderChar (c : Char) : Bool :=
  decide (c.toNat = 9) || (decide (0x20 ≤ c.toNat) && decide (c.toNat ≤ 0x7E))

/-- `normalizeTransport`. -/
def Transport.valid : Transport → Bool
  | none => true
  | codex sessionId => sessionId.toList.all isVisible && bytesIn sessionId 1 LIMITS.transportIdBytes

def Transport.isCodex : Transport → Bool
  | none => false
  | codex _ => true

/-! ## Checks of values -/

/-- `normalizeMemoryRequest`. -/
def Request.valid (hash : List UInt8 → String) (r : Request) : Bool :=
  decide (r.payload.length ≤ LIMITS.payloadBytes) && decide (r.byteLength ≤ LIMITS.payloadBytes) &&
    decide (r.byteLength = r.payload.length) && fits (List.replicate 64 hexClass) r.sha256 &&
    decide (hash r.payload = r.sha256) && (!r.route.isGet || r.payload.isEmpty) && r.transport.valid &&
    (r.transport.isCodex == r.route.isCodex) && isId "egr1" r.requestId && modelRefValue r.modelRef &&
    isLlmTargetGeneration r.targetGeneration

/-- `routeAllowed` of `normalizeCatalogModel`. -/
def routeAllowed : ProviderType → Route → Bool
  | .openaiCompatible, route => decide (route = .responses) || decide (route = .chatCompletions)
  | .anthropicOauth, route => decide (route = .messages)
  | .codexOauth, route => route.isCodex

/-- Each name is below the next: `<` on strings is by code units. -/
def ascending : List String → Bool
  | a :: b :: rest => decide (codeUnits a < codeUnits b) && ascending (b :: rest)
  | _ => true

/-- `normalizeRoutes`. -/
def validRoutes (routes : List Route) : Bool :=
  decide (routes ≠ []) && decide (routes.length ≤ Route.all.length) && ascending (routes.map Route.name)

/-- `normalizeCatalogModel`. -/
def CatalogModel.valid (m : CatalogModel) : Bool :=
  (!m.externalThinking || decide (m.providerType = .codexOauth)) && validRoutes m.allowedRoutes &&
    m.allowedRoutes.all (routeAllowed m.providerType) &&
    m.contextSize.all (fun size => decide (1 ≤ size) && decide (size ≤ LIMITS.contextSize)) &&
    modelRefValue m.modelRef && isLlmTargetGeneration m.targetGeneration && upstreamModelValue m.model &&
    nullableText m.reasoningEffort LIMITS.reasoningBytes &&
    nullableText m.reasoningSummary LIMITS.reasoningBytes &&
    nullableText m.reasoningContext LIMITS.reasoningBytes &&
    plainText m.toolContractVersion 1 LIMITS.toolContractVersionBytes &&
    decide (m.callTimeoutMs ≤ LIMITS.timeoutMs) && decide (m.streamIdleTimeoutMs ≤ LIMITS.timeoutMs)

/-- `modelRef.split('/', 1)[0]`. -/
def providerIdOf (modelRef : String) : String := String.ofList (modelRef.toList.takeWhile (fun c => decide (c ≠ '/')))

/-- The loop of `normalizeCatalog`, with the model before, the types of the providers so far
and the tiers so far. -/
def validModels (localeCompare : String → String → ℤ) :
    Option String → List (String × ProviderType) → List ToolTier → List CatalogModel → Bool
  | _, _, _, [] => true
  | previous, types, tiers, m :: rest =>
      previous.all (fun before => decide (localeCompare before m.modelRef < 0)) &&
        (types.lookup (providerIdOf m.modelRef)).all (fun type => decide (type = m.providerType)) &&
        m.toolTier.all (fun tier => decide (tier ∉ tiers)) &&
        validModels localeCompare (some m.modelRef) ((providerIdOf m.modelRef, m.providerType) :: types)
          (m.toolTier.toList ++ tiers) rest

/-- `normalizeCatalog`. -/
def Catalog.valid (localeCompare : String → String → ℤ) (c : Catalog) : Bool :=
  decide (c.models.length ≤ LIMITS.models) && c.models.all CatalogModel.valid &&
    validModels localeCompare none [] [] c.models && decide (c.revision ≤ maxSafeInteger)

/-- `normalizeError`. -/
def ErrorEnvelope.valid (e : ErrorEnvelope) : Bool := e.requestId.all (isId "egr1")

/-- One header of `normalizeResponseHeaders`. -/
def SafeHeader.valid (h : SafeHeader) : Bool :=
  decide (h.name ∈ safeResponseHeaders) && h.value.toList.all isHeaderChar &&
    bytesIn h.value 1 LIMITS.responseHeaderValueBytes

/-- `normalizeProvenance`. -/
def Provenance.valid (p : Provenance) : Bool :=
  isId "egr1" p.requestId && modelRefValue p.modelRef && isLlmTargetGeneration p.targetGeneration &&
    decide (100 ≤ p.status) && decide (p.status ≤ 599) &&
    decide (p.headers.length ≤ safeResponseHeaders.length) && p.headers.all SafeHeader.valid &&
    ascending (p.headers.map SafeHeader.name)

/-! ## Wire forms -/

def Transport.json : Transport → Json
  | none => .obj [("kind", .str "none")]
  | codex sessionId => .obj [("kind", .str "codex"), ("sessionId", .str sessionId)]

/-- `requestWire`. -/
def Request.json (r : Request) : Json :=
  .obj [("format", .str "elpis-gateway-llm-request-v1"), ("requestId", .str r.requestId),
    ("modelRef", .str r.modelRef), ("targetGeneration", .str r.targetGeneration),
    ("route", .str r.route.name), ("transport", r.transport.json), ("byteLength", .num r.byteLength),
    ("sha256", .str r.sha256), ("payload", .str (String.ofList (base64Text r.payload)))]

def CatalogModel.json (m : CatalogModel) : Json :=
  .obj [("modelRef", .str m.modelRef), ("targetGeneration", .str m.targetGeneration),
    ("providerType", .str m.providerType.name), ("model", .str m.model),
    ("allowedRoutes", .arr (m.allowedRoutes.map (fun route => .str route.name))),
    ("contextSize", JsonOf.ofOption .num m.contextSize),
    ("reasoningEffort", JsonOf.ofOption .str m.reasoningEffort),
    ("reasoningSummary", JsonOf.ofOption .str m.reasoningSummary),
    ("reasoningContext", JsonOf.ofOption .str m.reasoningContext),
    ("toolTier", JsonOf.ofOption (fun tier => .str tier.name) m.toolTier),
    ("externalThinking", .bool m.externalThinking), ("toolContractVersion", .str m.toolContractVersion),
    ("callTimeoutMs", .num m.callTimeoutMs), ("streamIdleTimeoutMs", .num m.streamIdleTimeoutMs)]

def Catalog.json (c : Catalog) : Json :=
  .obj [("format", .str "elpis-gateway-llm-catalog-v1"), ("revision", .num c.revision),
    ("models", .arr (c.models.map CatalogModel.json))]

def ErrorEnvelope.json (e : ErrorEnvelope) : Json :=
  .obj ([("format", .str "elpis-gateway-llm-error-v1"), ("code", .str e.code.name)] ++
    e.requestId.toList.map (fun id => ("requestId", .str id)))

def SafeHeader.json (h : SafeHeader) : Json := .obj [("name", .str h.name), ("value", .str h.value)]

def Provenance.json (p : Provenance) : Json :=
  .obj [("format", .str "elpis-gateway-llm-response-provenance-v1"), ("requestId", .str p.requestId),
    ("modelRef", .str p.modelRef), ("targetGeneration", .str p.targetGeneration),
    ("route", .str p.route.name), ("status", .num p.status), ("headers", .arr (p.headers.map SafeHeader.json))]

end Elpis.Gateway.LlmProxy
