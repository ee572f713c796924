import Mathlib
import Elpis.Gateway.LlmProxy
import Elpis.Js.Record

/-!
# The attribution of a generation

`src/llm/provenance.ts`: which model, endpoint and tool contract a message of the
assistant came from. A provider's own reasoning may only be sent back to the place it came
from, so `sameReplayIdentity` compares two attributions, and two malformed ones are never
the same. What the `URL` class makes of a text is a parameter.
-/

namespace Elpis.Provenance

open Elpis.Js
open Elpis.Gateway.LlmProxy (isModelRef isLlmTargetGeneration)

/-! ## Endpoints -/

/-- The components of a `URL` that are looked at. -/
structure Url where
  protocol : String
  username : String
  password : String
  pathname : String
  search : String
  hash : String
  href : String
  origin : String

/-- The `URL` class: `new URL(raw)`, `new URL(path, base)`, and the four setters that take
the credentials, the query and the fragment away. `none` is a thrown error. -/
structure UrlClass where
  parse : String → Option Url
  resolve : String → String → Option Url
  cleared : Url → Url

/-- `LLM_PROXY_PATHS.request`. -/
def gatewayRequestPath : String := "/api/v1/resident/llm/request"

inductive ProviderType where
  | openaiCompatible | anthropicOauth | codexOauth
deriving DecidableEq, Repr

inductive ApiSurface where
  | responses | chatCompletions | anthropicMessages | codexResponses
deriving DecidableEq, Repr

def providers : Names ProviderType where
  all := [.openaiCompatible, .anthropicOauth, .codexOauth]
  text
    | .openaiCompatible => "openai-compatible"
    | .anthropicOauth => "anthropic-oauth"
    | .codexOauth => "codex-oauth"
  found a := by cases a <;> decide

def surfaces : Names ApiSurface where
  all := [.responses, .chatCompletions, .anthropicMessages, .codexResponses]
  text
    | .responses => "responses"
    | .chatCompletions => "chat-completions"
    | .anthropicMessages => "anthropic-messages"
    | .codexResponses => "codex-responses"
  found a := by cases a <;> decide

@[ext] structure GatewayReplayIdentity where
  authority : String
  modelRef : String
  targetGeneration : String
deriving DecidableEq, Repr

structure ReplayIdentity where
  providerType : ProviderType
  model : String
  apiSurface : ApiSurface
  apiEndpoint : String
  toolContractVersion : String
  gateway : Option GatewayReplayIdentity
deriving DecidableEq, Repr

@[ext] structure GenerationProvenance where
  gateway : Option GatewayReplayIdentity
  providerType : ProviderType
  model : String
  apiSurface : ApiSurface
  apiEndpoint : String
  reasoningEffort : Option String
  generatedAt : String
  requestId : Option String
  harnessCommit : String
  toolContractVersion : String
deriving DecidableEq, Repr

/-- A provenance where an identity is asked for. -/
def GenerationProvenance.identity (p : GenerationProvenance) : ReplayIdentity where
  providerType := p.providerType
  model := p.model
  apiSurface := p.apiSurface
  apiEndpoint := p.apiEndpoint
  toolContractVersion := p.toolContractVersion
  gateway := p.gateway

section Replay
variable (urls : UrlClass)

/-- `canonicalGatewayAuthority`: an HTTPS origin and nothing more. -/
def canonicalGatewayAuthority (raw : String) : Option String := do
  let url ← urls.parse raw
  if url.protocol ≠ "https:" ∨ url.username ≠ "" ∨ url.password ≠ "" ∨ url.pathname ≠ "/" ∨
      url.search ≠ "" ∨ url.hash ≠ "" ∨ url.href ≠ url.origin ++ "/" then
    none
  else some url.href

/-- `canonicalEndpoint`: one closing slash goes, except where it is the whole path. -/
def canonicalEndpoint (raw : String) : Option String := do
  let url ← urls.parse raw
  let url := urls.cleared url
  if url.pathname ≠ "/" ∧ url.href.toList.getLast? = some '/' then
    some (String.ofList url.href.toList.dropLast)
  else some url.href

/-- The checks of `parseGatewayReplayIdentity` on the three texts. -/
def checkGateway (g : GatewayReplayIdentity) : Option GatewayReplayIdentity :=
  if isLlmTargetGeneration g.targetGeneration && isModelRef g.modelRef then
    (canonicalGatewayAuthority urls g.authority).map (fun authority => { g with authority })
  else none

/-- `parseGatewayReplayIdentity`: an object with these three fields and no other. -/
def parseGatewayReplayIdentity (raw : Value) : Option GatewayReplayIdentity :=
  match raw with
  | .obj fields =>
      if fields.length ≠ 3 then none
      else do
        let authority ← raw.read? "authority" JsonOf.str?
        let modelRef ← raw.read? "modelRef" JsonOf.str?
        let targetGeneration ← raw.read? "targetGeneration" JsonOf.str?
        checkGateway urls { authority, modelRef, targetGeneration }
  | _ => none

/-- `replayEndpoint`: behind a gateway the endpoint has to be exact already. -/
def replayEndpoint (raw : String) (gateway : Option GatewayReplayIdentity) : Option String :=
  match gateway with
  | none => canonicalEndpoint urls raw
  | some g => do
      let expected ← urls.resolve gatewayRequestPath g.authority
      if raw = expected.href then some raw else none

def isNonempty (s : String) : Bool := decide (s ≠ "")

/-- The gateway of a provenance: absent, or one that has to be right. -/
def readGateway (value : Value) : Option (Option GatewayReplayIdentity) :=
  match value.field? "gateway" with
  | none => some none
  | some raw => (parseGatewayReplayIdentity urls raw).map some

def parseGenerationProvenance (value : Value) : Option GenerationProvenance := do
  let providerType ← value.read? "providerType" providers.read
  let apiSurface ← value.read? "apiSurface" surfaces.read
  let model ← value.read? "model" (textWhere isNonempty)
  let rawEndpoint ← value.read? "apiEndpoint" (textWhere isNonempty)
  let generatedAt ← value.read? "generatedAt" (textWhere isNonempty)
  let harnessCommit ← value.read? "harnessCommit" (textWhere isNonempty)
  let toolContractVersion ← value.read? "toolContractVersion" (textWhere isNonempty)
  let gateway ← readGateway urls value
  let apiEndpoint ← replayEndpoint urls rawEndpoint gateway
  return {
    gateway, providerType, model, apiSurface, apiEndpoint, generatedAt, harnessCommit
    toolContractVersion
    reasoningEffort := value.read? "reasoningEffort" JsonOf.str?
    requestId := value.read? "requestId" JsonOf.str? }

/-- The gateway of an identity, checked. -/
def checkedGateway : Option GatewayReplayIdentity → Option (Option GatewayReplayIdentity)
  | none => some none
  | some g => (checkGateway urls g).map some

def sameReplayIdentity : Option ReplayIdentity → Option ReplayIdentity → Bool
  | some a, some b =>
      if a.toolContractVersion = "" ∨ b.toolContractVersion = "" then false
      else
        match checkedGateway urls a.gateway, checkedGateway urls b.gateway with
        | some ag, some bg =>
            decide (ag = bg) && decide (a.providerType = b.providerType) &&
              decide (a.model = b.model) && decide (a.apiSurface = b.apiSurface) &&
              decide (a.toolContractVersion = b.toolContractVersion) &&
              match replayEndpoint urls a.apiEndpoint ag, replayEndpoint urls b.apiEndpoint bg with
              | some ae, some be => decide (ae = be)
              | _, _ => false
        | _, _ => false
  | _, _ => false

def isTrustedOpaqueReplay (provenance : Option GenerationProvenance)
    (identity : Option ReplayIdentity) : Bool :=
  sameReplayIdentity urls (provenance.map GenerationProvenance.identity) identity

end Replay

section Same
variable {urls : UrlClass}

/-- An identity that is the same as another one is the same as itself. -/
theorem sameReplayIdentity_self {a b : Option ReplayIdentity}
    (h : sameReplayIdentity urls a b = true) : sameReplayIdentity urls a a = true := by
  match a, b with
  | none, _ => simp [sameReplayIdentity] at h
  | some a, none => simp [sameReplayIdentity] at h
  | some a, some b =>
      simp only [sameReplayIdentity] at h ⊢
      split_ifs at h with hversion
      rw [not_or] at hversion
      rw [if_neg (by simp [hversion.1])]
      cases hag : checkedGateway urls a.gateway with
      | none => simp [hag] at h
      | some ag =>
          cases hae : replayEndpoint urls a.apiEndpoint ag with
          | none => split at h <;> simp_all
          | some ae => simp [hae]

end Same

/-! ## Reading back -/

/-- The fields that `JSON.stringify` writes of a gateway. -/
def GatewayReplayIdentity.members (g : GatewayReplayIdentity) : List (String × Option Value) :=
  [("authority", some (.str g.authority)), ("modelRef", some (.str g.modelRef)),
    ("targetGeneration", some (.str g.targetGeneration))]

def GenerationProvenance.members (p : GenerationProvenance) : List (String × Option Value) :=
  [("gateway", p.gateway.map (fun g => .object g.members)),
    ("providerType", some (providers.write p.providerType)), ("model", some (.str p.model)),
    ("apiSurface", some (surfaces.write p.apiSurface)),
    ("apiEndpoint", some (.str p.apiEndpoint)),
    ("reasoningEffort", p.reasoningEffort.map .str), ("generatedAt", some (.str p.generatedAt)),
    ("requestId", p.requestId.map .str), ("harnessCommit", some (.str p.harnessCommit)),
    ("toolContractVersion", some (.str p.toolContractVersion))]

theorem GatewayReplayIdentity.nodup (g : GatewayReplayIdentity) :
    (g.members.map Prod.fst).Nodup := by
  simp only [GatewayReplayIdentity.members, List.map]
  decide

theorem GenerationProvenance.nodup (p : GenerationProvenance) :
    (p.members.map Prod.fst).Nodup := by
  simp only [GenerationProvenance.members, List.map]
  decide

section ReadBack
variable {urls : UrlClass}

/-- A provenance that is read back as it is: the texts it needs are there, and its endpoint
and the origin of its gateway stand in their canonical form. -/
@[mk_iff] structure GenerationProvenance.Legible (urls : UrlClass) (p : GenerationProvenance) :
    Prop where
  model : isNonempty p.model = true
  apiEndpoint : isNonempty p.apiEndpoint = true
  generatedAt : isNonempty p.generatedAt = true
  harnessCommit : isNonempty p.harnessCommit = true
  toolContractVersion : isNonempty p.toolContractVersion = true
  gateway : ∀ g ∈ p.gateway, checkGateway urls g = some g
  endpoint : replayEndpoint urls p.apiEndpoint p.gateway = some p.apiEndpoint

theorem parseGatewayReplayIdentity_members (g : GatewayReplayIdentity) :
    parseGatewayReplayIdentity urls (.object g.members) = checkGateway urls g := by
  have hobject : JsonOf.object g.members = .obj [("authority", .str g.authority),
      ("modelRef", .str g.modelRef), ("targetGeneration", .str g.targetGeneration)] := rfl
  have hread := fun key => JsonOf.read?_object (α := String) g.nodup key JsonOf.str?
  rw [hobject] at hread ⊢
  simp only [parseGatewayReplayIdentity, hread]
  simp [GatewayReplayIdentity.members, List.lookup, JsonOf.str?]

theorem readGateway_members (p : GenerationProvenance) :
    readGateway urls (.object p.members) = checkedGateway urls p.gateway := by
  rw [readGateway, JsonOf.field?_object p.nodup]
  simp only [GenerationProvenance.members, List.lookup, String.reduceBEq, Option.join_some]
  cases p.gateway with
  | none => rfl
  | some g =>
      simp only [Option.map_some, parseGatewayReplayIdentity_members, checkedGateway]

theorem checkedGateway_eq_iff (gateway : Option GatewayReplayIdentity) :
    checkedGateway urls gateway = some gateway ↔ ∀ g ∈ gateway, checkGateway urls g = some g := by
  cases gateway <;> simp [checkedGateway]

/-- **The round trip.** A provenance comes back whole exactly when it is legible. -/
theorem parseGenerationProvenance_eq_iff (p : GenerationProvenance) :
    parseGenerationProvenance urls (.object p.members) = some p ↔ p.Legible urls := by
  simp only [parseGenerationProvenance, readGateway_members, JsonOf.read?_object p.nodup]
  simp only [GenerationProvenance.members, List.lookup, String.reduceBEq]
  simp [GenerationProvenance.ext_iff, Option.bind_eq_some_iff, reads_text _ _, reads_str.optional,
    filter_eq_self, checkedGateway_eq_iff, GenerationProvenance.legible_iff]

end ReadBack

end Elpis.Provenance
