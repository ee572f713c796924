import Elpis.Gateway.LlmProxy

/-!
# The codecs of the LLM proxy

Each serializer normalizes a value and writes it within its limit; each decoder reads a text,
normalizes what it finds and takes it only if it would be written as that same text. So a
value has one wire form, and the two directions agree.
-/

namespace Elpis.Gateway.LlmProxy

open Elpis.Js Elpis.Lib
open Elpis.Gateway.Protocol (maxSafeInteger isId base64Text base64Bytes base64Char base64Value startsWith)
open Elpis.Gateway.Provider (ProviderType)

variable (hash : List UInt8 → String) (localeCompare : String → String → ℤ) (parse : String → Option Json)

/-- `LlmProxyBody`. -/
inductive Body where
  | text (s : String)
  | bytes (bytes : List UInt8)

def bodyText : Body → ℕ → Option String
  | .text s, maximum => if s.utf8ByteSize ≤ maximum then some s else none
  | .bytes bytes, maximum => if bytes.length ≤ maximum then decodeUtf8 bytes else none

/-- The size check of `serializeBounded`. -/
def within (maximum : ℕ) (s : String) : Bool := decide (s.utf8ByteSize ≤ maximum)

/-! ## Reading -/

def readTransport (j : Json) : Option Transport :=
  match (j.field? "kind").bind JsonOf.str? with
  | some "none" => if j.exact ["kind"] then some .none else none
  | some "codex" =>
      if j.exact ["kind", "sessionId"] then ((j.field? "sessionId").bind JsonOf.str?).map .codex else none
  | _ => none

def decodeWirePayload (value : String) (byteLength : ℕ) (sha256 : String) : Option (List UInt8) := do
  guard (fits (List.replicate 64 hexClass) sha256 = true)
  guard (length value ≤ (LIMITS.payloadBytes + 2) / 3 * 4)
  let decoded ← base64Bytes value.toList
  guard (decoded.length = byteLength ∧ decoded.length ≤ LIMITS.payloadBytes)
  guard (String.ofList (base64Text decoded) = value)
  guard (hash decoded = sha256)
  pure decoded

def readRequest (j : Json) : Option Request := do
  guard (j.exact ["format", "requestId", "modelRef", "targetGeneration", "route", "transport", "byteLength",
    "sha256", "payload"] = true)
  let format ← (j.field? "format").bind JsonOf.str?
  guard (format = "elpis-gateway-llm-request-v1")
  let byteLength ← (j.field? "byteLength").bind JsonOf.num?
  let sha256 ← (j.field? "sha256").bind JsonOf.str?
  let text ← (j.field? "payload").bind JsonOf.str?
  let payload ← decodeWirePayload hash text byteLength sha256
  let route ← ((j.field? "route").bind JsonOf.str?).bind (byName Route.all Route.name)
  let transport ← (j.field? "transport").bind readTransport
  let requestId ← (j.field? "requestId").bind JsonOf.str?
  let modelRef ← (j.field? "modelRef").bind JsonOf.str?
  let targetGeneration ← (j.field? "targetGeneration").bind JsonOf.str?
  pure ⟨requestId, modelRef, targetGeneration, route, transport, byteLength, sha256, payload⟩

def readRoute (j : Json) : Option Route := j.str?.bind (byName Route.all Route.name)

def readModel (j : Json) : Option CatalogModel := do
  guard (j.exact ["modelRef", "targetGeneration", "providerType", "model", "allowedRoutes", "contextSize",
    "reasoningEffort", "reasoningSummary", "reasoningContext", "toolTier", "externalThinking",
    "toolContractVersion", "callTimeoutMs", "streamIdleTimeoutMs"] = true)
  let providerType ← ((j.field? "providerType").bind JsonOf.str?).bind (byName providerTypes ProviderType.name)
  let toolTier ← (j.field? "toolTier").bind (JsonOf.nullable (fun t => t.str?.bind (byName ToolTier.all ToolTier.name)))
  let externalThinking ← (j.field? "externalThinking").bind JsonOf.bool?
  let members ← (j.field? "allowedRoutes").bind JsonOf.arr?
  let allowedRoutes ← members.mapM readRoute
  let contextSize ← (j.field? "contextSize").bind (JsonOf.nullable JsonOf.num?)
  let modelRef ← (j.field? "modelRef").bind JsonOf.str?
  let targetGeneration ← (j.field? "targetGeneration").bind JsonOf.str?
  let model ← (j.field? "model").bind JsonOf.str?
  let reasoningEffort ← (j.field? "reasoningEffort").bind (JsonOf.nullable JsonOf.str?)
  let reasoningSummary ← (j.field? "reasoningSummary").bind (JsonOf.nullable JsonOf.str?)
  let reasoningContext ← (j.field? "reasoningContext").bind (JsonOf.nullable JsonOf.str?)
  let toolContractVersion ← (j.field? "toolContractVersion").bind JsonOf.str?
  let callTimeoutMs ← (j.field? "callTimeoutMs").bind JsonOf.num?
  let streamIdleTimeoutMs ← (j.field? "streamIdleTimeoutMs").bind JsonOf.num?
  pure ⟨modelRef, targetGeneration, providerType, model, allowedRoutes, contextSize, reasoningEffort,
    reasoningSummary, reasoningContext, toolTier, externalThinking, toolContractVersion, callTimeoutMs,
    streamIdleTimeoutMs⟩

def readCatalog (j : Json) : Option Catalog := do
  guard (j.exact ["format", "revision", "models"] = true)
  let format ← (j.field? "format").bind JsonOf.str?
  guard (format = "elpis-gateway-llm-catalog-v1")
  let members ← (j.field? "models").bind JsonOf.arr?
  let models ← members.mapM readModel
  let revision ← (j.field? "revision").bind JsonOf.num?
  pure ⟨revision, models⟩

def readError (j : Json) : Option ErrorEnvelope :=
  match j.field? "requestId" with
  | none => do
      guard (j.exact ["format", "code"] = true)
      let format ← (j.field? "format").bind JsonOf.str?
      guard (format = "elpis-gateway-llm-error-v1")
      let code ← ((j.field? "code").bind JsonOf.str?).bind (byName ErrorCode.all ErrorCode.name)
      pure ⟨code, none⟩
  | some id => do
      guard (j.exact ["format", "code", "requestId"] = true)
      let format ← (j.field? "format").bind JsonOf.str?
      guard (format = "elpis-gateway-llm-error-v1")
      let code ← ((j.field? "code").bind JsonOf.str?).bind (byName ErrorCode.all ErrorCode.name)
      let requestId ← id.str?
      pure ⟨code, some requestId⟩

def readHeader (j : Json) : Option SafeHeader := do
  guard (j.exact ["name", "value"] = true)
  let name ← (j.field? "name").bind JsonOf.str?
  let value ← (j.field? "value").bind JsonOf.str?
  pure ⟨name, value⟩

def readProvenance (j : Json) : Option Provenance := do
  guard (j.exact ["format", "requestId", "modelRef", "targetGeneration", "route", "status", "headers"] = true)
  let format ← (j.field? "format").bind JsonOf.str?
  guard (format = "elpis-gateway-llm-response-provenance-v1")
  let requestId ← (j.field? "requestId").bind JsonOf.str?
  let modelRef ← (j.field? "modelRef").bind JsonOf.str?
  let targetGeneration ← (j.field? "targetGeneration").bind JsonOf.str?
  let route ← (j.field? "route").bind readRoute
  let status ← (j.field? "status").bind JsonOf.num?
  let members ← (j.field? "headers").bind JsonOf.arr?
  let headers ← members.mapM readHeader
  pure ⟨requestId, modelRef, targetGeneration, route, status, headers⟩

/-! ## What is written reads back -/

theorem byName_route (route : Route) : byName Route.all Route.name route.name = some route := by
  cases route <;> decide

theorem byName_providerType (type : ProviderType) : byName providerTypes ProviderType.name type.name = some type := by
  cases type <;> decide

theorem byName_toolTier (tier : ToolTier) : byName ToolTier.all ToolTier.name tier.name = some tier := by
  cases tier <;> decide

theorem byName_errorCode (code : ErrorCode) : byName ErrorCode.all ErrorCode.name code.name = some code := by
  cases code <;> decide

theorem readTransport_json (t : Transport) : readTransport t.json = some t := by
  cases t with
  | none => decide
  | codex sessionId => simp [readTransport, Transport.json, JsonOf.field?, JsonOf.exact]

theorem readRoute_name (route : Route) : readRoute (.str route.name) = some route := by
  simp [readRoute, byName_route]

theorem readModel_json (m : CatalogModel) : readModel m.json = some m := by
  have hroutes : (m.allowedRoutes.map (fun route => Json.str route.name)).mapM readRoute = some m.allowedRoutes :=
    JsonOf.mapM_read (fun route _ => readRoute_name route)
  have htier : JsonOf.nullable (fun t => t.str?.bind (byName ToolTier.all ToolTier.name))
      (JsonOf.ofOption (fun tier => .str tier.name) m.toolTier) = some m.toolTier :=
    JsonOf.nullable_ofOption (fun tier => byName_toolTier tier) (fun _ => by simp) _
  have hnum : ∀ x, JsonOf.nullable JsonOf.num? (JsonOf.ofOption .num x) = some x :=
    JsonOf.nullable_ofOption (fun _ => rfl) (fun _ => by simp)
  have hstr : ∀ x, JsonOf.nullable JsonOf.str? (JsonOf.ofOption .str x) = some x :=
    JsonOf.nullable_ofOption (fun _ => rfl) (fun _ => by simp)
  simp [readModel, CatalogModel.json, JsonOf.field?, JsonOf.exact, hroutes, htier, hnum, hstr, byName_providerType]

theorem readCatalog_json (c : Catalog) : readCatalog c.json = some c := by
  have hmodels : (c.models.map CatalogModel.json).mapM readModel = some c.models :=
    JsonOf.mapM_read (fun m _ => readModel_json m)
  simp [readCatalog, Catalog.json, JsonOf.field?, JsonOf.exact, hmodels]

theorem readError_json (e : ErrorEnvelope) : readError e.json = some e := by
  obtain ⟨code, requestId⟩ := e
  cases requestId with
  | none => simp [readError, ErrorEnvelope.json, JsonOf.field?, JsonOf.exact, byName_errorCode]
  | some id => simp [readError, ErrorEnvelope.json, JsonOf.field?, JsonOf.exact, byName_errorCode]

theorem readHeader_json (h : SafeHeader) : readHeader h.json = some h := by
  simp [readHeader, SafeHeader.json, JsonOf.field?, JsonOf.exact]

theorem readProvenance_json (p : Provenance) : readProvenance p.json = some p := by
  have hheaders : (p.headers.map SafeHeader.json).mapM readHeader = some p.headers :=
    JsonOf.mapM_read (fun h _ => readHeader_json h)
  simp [readProvenance, Provenance.json, JsonOf.field?, JsonOf.exact, hheaders, readRoute_name]

/-! ## Base64 -/

theorem base64Value_char {n : ℕ} (h : n < 64) : base64Value (base64Char n) = some n := by
  have hall : ∀ m : Fin 64, base64Value (base64Char m) = some m.val := by decide +kernel
  exact hall ⟨n, h⟩

theorem base64Char_ne_pad {n : ℕ} (h : n < 64) : base64Char n ≠ '=' := by
  have hall : ∀ m : Fin 64, base64Char m ≠ '=' := by decide +kernel
  exact hall ⟨n, h⟩

/-- The last group is full or padded; a group before it never ends in padding. -/
theorem base64Bytes_base64Text (bytes : List UInt8) : base64Bytes (base64Text bytes) = some bytes := by
  induction bytes using Protocol.base64Text.induct with
  | case1 => rfl
  | case2 a =>
      have ha := a.toNat_lt
      simp only [base64Text, base64Bytes, base64Value_char (show a.toNat / 4 < 64 by omega),
        base64Value_char (show 16 * (a.toNat % 4) < 64 by omega), Option.bind_eq_bind, Option.bind_some, only_byte]
      rfl
  | case3 a b =>
      have ha := a.toNat_lt
      have hb := b.toNat_lt
      have hpad := base64Char_ne_pad (show 4 * (b.toNat % 16) < 64 by omega)
      rw [base64Text, base64Bytes]
      · simp only [base64Value_char (show a.toNat / 4 < 64 by omega),
          base64Value_char (show 16 * (a.toNat % 4) + b.toNat / 16 < 64 by omega),
          base64Value_char (show 4 * (b.toNat % 16) < 64 by omega), Option.bind_eq_bind, Option.bind_some,
          first_byte, last_byte]
        rfl
      · exact fun heq => hpad heq
  | case4 a b c rest ih =>
      have ha := a.toNat_lt
      have hb := b.toNat_lt
      have hc := c.toNat_lt
      have hpad := base64Char_ne_pad (show c.toNat % 64 < 64 by omega)
      rw [base64Text, base64Bytes]
      · simp only [base64Value_char (show a.toNat / 4 < 64 by omega),
          base64Value_char (show 16 * (a.toNat % 4) + b.toNat / 16 < 64 by omega),
          base64Value_char (show 4 * (b.toNat % 16) + c.toNat / 64 < 64 by omega),
          base64Value_char (show c.toNat % 64 < 64 by omega), Option.bind_eq_bind, Option.bind_some, ih,
          first_byte, second_byte, third_byte]
        rfl
      · exact fun _ heq _ => hpad heq
      · exact fun heq _ => hpad heq

theorem length_base64Text (bytes : List UInt8) : (base64Text bytes).length = (bytes.length + 2) / 3 * 4 := by
  induction bytes using Protocol.base64Text.induct with
  | case1 => rfl
  | case2 a => simp [base64Text]
  | case3 a b => simp [base64Text]
  | case4 a b c rest ih =>
      simp only [base64Text, List.length_cons, ih]
      omega

theorem base64Char_ascii (n : ℕ) : (base64Char n).toNat < 0x10000 := by
  have hall : ('A' :: Protocol.base64Alphabet).all (fun c => c.toNat < 0x10000) = true := by decide
  refine of_decide_eq_true (List.all_eq_true.mp hall _ ?_)
  unfold base64Char
  rw [List.getD_eq_getElem?_getD]
  cases h : Protocol.base64Alphabet[n]? with
  | none => exact List.mem_cons_self
  | some c => exact List.mem_cons_of_mem _ (List.mem_of_getElem? h)

theorem base64Text_ascii (bytes : List UInt8) : ∀ c ∈ base64Text bytes, c.toNat < 0x10000 := by
  induction bytes using Protocol.base64Text.induct with
  | case1 => simp [base64Text]
  | case2 a => simp [base64Text, base64Char_ascii]
  | case3 a b => simp [base64Text, base64Char_ascii]
  | case4 a b c rest ih =>
      simp only [base64Text, List.mem_cons]
      rintro x (rfl | rfl | rfl | rfl | hx)
      · exact base64Char_ascii _
      · exact base64Char_ascii _
      · exact base64Char_ascii _
      · exact base64Char_ascii _
      · exact ih x hx

theorem length_ofBase64 (bytes : List UInt8) :
    length (String.ofList (base64Text bytes)) = (bytes.length + 2) / 3 * 4 := by
  have hone : ∀ c ∈ base64Text bytes, (if c.toNat < 0x10000 then 1 else 2) = 1 :=
    fun c hc => if_pos (base64Text_ascii bytes c hc)
  unfold length
  rw [String.toList_ofList, List.map_congr_left hone, List.map_const', List.sum_replicate, ← length_base64Text]
  simp

theorem decodeWirePayload_base64 {r : Request} (h : r.valid hash = true) :
    decodeWirePayload hash (String.ofList (base64Text r.payload)) r.byteLength r.sha256 = some r.payload := by
  simp only [Request.valid, Bool.and_eq_true, decide_eq_true_eq] at h
  obtain ⟨⟨⟨⟨⟨⟨⟨⟨⟨⟨hsize, _⟩, hlength⟩, hsha⟩, hhash⟩, _⟩, _⟩, _⟩, _⟩, _⟩, _⟩ := h
  have hbound : length (String.ofList (base64Text r.payload)) ≤ (LIMITS.payloadBytes + 2) / 3 * 4 := by
    rw [length_ofBase64]
    gcongr
  simp [decodeWirePayload, base64Bytes_base64Text, hsha, hbound, hlength, hsize, hhash, -List.reduceReplicate]

theorem readRequest_json {r : Request} (h : r.valid hash = true) : readRequest hash r.json = some r := by
  simp [readRequest, Request.json, JsonOf.field?, JsonOf.exact, byName_route, readTransport_json,
    decodeWirePayload_base64 hash h]

/-! ## The codecs -/

def requestCodec : Codec Request Json := ⟨Request.valid hash, Request.json, readRequest hash⟩

def catalogCodec : Codec Catalog Json := ⟨Catalog.valid localeCompare, Catalog.json, readCatalog⟩

def errorCodec : Codec ErrorEnvelope Json := ⟨ErrorEnvelope.valid, ErrorEnvelope.json, readError⟩

def serializeLlmProxyRequest (value : Request) : Option String :=
  (requestCodec hash).serialize JsonOf.text (within LIMITS.requestBodyBytes) value

def decodeLlmProxyRequest (body : Body) : Option Request :=
  (bodyText body LIMITS.requestBodyBytes).bind
    ((requestCodec hash).decode JsonOf.text (within LIMITS.requestBodyBytes) parse)

def serializeLlmProxyCatalog (value : Catalog) : Option String :=
  (catalogCodec localeCompare).serialize JsonOf.text (within LIMITS.catalogBodyBytes) value

def decodeLlmProxyCatalog (body : Body) : Option Catalog :=
  (bodyText body LIMITS.catalogBodyBytes).bind
    ((catalogCodec localeCompare).decode JsonOf.text (within LIMITS.catalogBodyBytes) parse)

def serializeLlmProxyError (value : ErrorEnvelope) : Option String :=
  errorCodec.serialize JsonOf.text (within LIMITS.errorBodyBytes) value

def decodeLlmProxyError (body : Body) : Option ErrorEnvelope :=
  (bodyText body LIMITS.errorBodyBytes).bind
    (errorCodec.decode JsonOf.text (within LIMITS.errorBodyBytes) parse)

/-- The text is bounded before and behind base64url. -/
def encodeLlmResponseProvenance (value : Provenance) : Option String := do
  guard (value.valid = true)
  guard (within LIMITS.provenanceHeaderBytes value.json.text = true)
  guard (length (base64url (encodeUtf8 value.json.text)) ≤ LIMITS.provenanceHeaderBytes)
  pure (base64url (encodeUtf8 value.json.text))

def decodeLlmResponseProvenance (value : String) : Option Provenance := do
  guard (length value ≠ 0 ∧ length value ≤ LIMITS.provenanceHeaderBytes)
  guard (value.toList.all base64urlClass = true)
  let bytes ← ofBase64url value
  guard (base64url bytes = value)
  let text ← decodeUtf8 bytes
  let input ← parse text
  let decoded ← readProvenance input
  guard (decoded.valid = true)
  guard (encodeLlmResponseProvenance decoded = some value)
  pure decoded

/-! ## One wire form -/

/-- The two directions agree: a value that is written is read back where the text is parsed
back into its tree, and a text that is read is written again as it was. -/
structure Canonical {ω : Type} (wire : ω → Json) (parse : String → Option Json) (serialize : ω → Option String)
    (decode : String → Option ω) : Prop where
  decoded : ∀ v t, parse (wire v).text = some (wire v) → serialize v = some t → decode t = some v
  serialized : ∀ t v, decode t = some v → serialize v = some t

section Canonical

variable {hash} {localeCompare} {parse}

theorem bodyText_text {s : String} {maximum : ℕ} (h : within maximum s = true) :
    bodyText (.text s) maximum = some s := if_pos (of_decide_eq_true h)

theorem canonical_codec {ω : Type} (c : Codec ω Json) (hread : ∀ v, c.valid v = true → c.read (c.wire v) = some v)
    (maximum : ℕ) :
    Canonical c.wire parse (c.serialize JsonOf.text (within maximum))
      (fun t => (bodyText (.text t) maximum).bind (c.decode JsonOf.text (within maximum) parse)) := by
  constructor
  · intro v t hparse h
    have hfits : within maximum t = true := by
      obtain ⟨_, hfits, rfl⟩ := Codec.serialize_eq_some.mp h
      exact hfits
    rw [bodyText_text hfits]
    exact Codec.decode_serialize hread hparse h
  · intro t v h
    obtain ⟨s, hs, h⟩ := Option.bind_eq_some_iff.mp h
    have hst : t = s := by
      simp only [bodyText, Option.ite_none_right_eq_some, Option.some.injEq] at hs
      exact hs.2
    rw [hst]
    exact Codec.serialize_of_decode h

theorem length_eq_zero {s : String} (h : length s = 0) : s.toList = [] := by
  unfold length at h
  cases hs : s.toList with
  | nil => rfl
  | cons c cs =>
      rw [hs, List.map_cons, List.sum_cons] at h
      split at h <;> omega

theorem text_ne_empty (fields : List (String × Json)) : (Json.obj fields).text ≠ "" := by
  intro h
  have hlist := congrArg String.toList h
  simp [JsonOf.text] at hlist

/-- The text of an object has a byte at least, and base64url a character for it. -/
theorem base64url_ne_empty (p : Provenance) : length (base64url (encodeUtf8 p.json.text)) ≠ 0 := by
  intro h
  have hlist := length_eq_zero h
  unfold base64url at hlist
  rw [String.toList_ofList, List.map_eq_nil_iff] at hlist
  have hbytes : encodeUtf8 p.json.text = [] := by
    have hof := ofSextets_sextets (encodeUtf8 p.json.text)
    rw [hlist] at hof
    exact (Option.some.inj hof).symm
  have hdecode := decodeUtf8_encodeUtf8 p.json.text
  rw [hbytes] at hdecode
  have hempty : decodeUtf8 [] = some "" := by decide
  rw [hempty] at hdecode
  exact text_ne_empty _ (Option.some.inj hdecode).symm

theorem encode_eq_some {v : Provenance} {t : String} : encodeLlmResponseProvenance v = some t ↔
    v.valid = true ∧ within LIMITS.provenanceHeaderBytes v.json.text = true ∧
      length (base64url (encodeUtf8 v.json.text)) ≤ LIMITS.provenanceHeaderBytes ∧
      base64url (encodeUtf8 v.json.text) = t := by
  simp [encodeLlmResponseProvenance, Option.bind_eq_some_iff]

theorem guard_some {p : Prop} [Decidable p] {u : Unit} : (guard p : Option Unit) = some u ↔ p := by
  unfold guard
  split
  · simpa using ‹p›
  · simpa using ‹¬p›

theorem canonical_provenance :
    Canonical Provenance.json parse encodeLlmResponseProvenance (decodeLlmResponseProvenance parse) := by
  constructor
  · intro v t hparse h
    obtain ⟨hvalid, _, hbound, rfl⟩ := encode_eq_some.mp h
    have hne := base64url_ne_empty v
    unfold decodeLlmResponseProvenance
    simp [hne, hbound, base64url_class, ofBase64url_base64url, decodeUtf8_encodeUtf8, hparse, readProvenance_json,
      hvalid, h]
  · intro t v h
    simp only [decodeLlmResponseProvenance, Option.bind_eq_bind, Option.bind_eq_some_iff, guard_some] at h
    obtain ⟨_, _, _, _, _, _, _, _, _, _, _, _, w, _, _, _, _, hencode, hv⟩ := h
    rw [← Option.some.inj hv]
    exact hencode

end Canonical

/-- Requests, catalogs, errors and provenance each have one wire form. -/
theorem wire_forms_canonical (hash : List UInt8 → String) (localeCompare : String → String → ℤ)
    (parse : String → Option Json) :
    Canonical Request.json parse (serializeLlmProxyRequest hash)
        (fun t => decodeLlmProxyRequest hash parse (.text t)) ∧
      Canonical Catalog.json parse (serializeLlmProxyCatalog localeCompare)
        (fun t => decodeLlmProxyCatalog localeCompare parse (.text t)) ∧
      Canonical ErrorEnvelope.json parse serializeLlmProxyError (fun t => decodeLlmProxyError parse (.text t)) ∧
      Canonical Provenance.json parse encodeLlmResponseProvenance (decodeLlmResponseProvenance parse) :=
  ⟨canonical_codec (requestCodec hash) (fun _ h => readRequest_json hash h) _,
    canonical_codec (catalogCodec localeCompare) (fun c _ => readCatalog_json c) _,
    canonical_codec errorCodec (fun e _ => readError_json e) _, canonical_provenance⟩

/-- A request for a completion, with the digest of its payload `{}`. -/
def emptyCompletion : Request where
  requestId := "egr1.AAAAAAAAAAAAAAAAAAAAAA"
  modelRef := "openai/gpt-5"
  targetGeneration := "egt1.AAAAAAAAAAAAAAAAAAAAAA"
  route := .chatCompletions
  transport := .none
  byteLength := 2
  sha256 := "44136fa355b3678a1146ad16f7e8649e94fb4fc21fe77e8310c060f61caaff8a"
  payload := [123, 125]

theorem wire_forms_canonical_emptyCompletion :
    decodeLlmProxyRequest (fun bytes => if bytes = emptyCompletion.payload then emptyCompletion.sha256 else "")
        (fun t => if t = emptyCompletion.json.text then some emptyCompletion.json else none)
        (.text emptyCompletion.json.text) = some emptyCompletion :=
  (wire_forms_canonical (fun bytes => if bytes = emptyCompletion.payload then emptyCompletion.sha256 else "")
      (fun _ _ => 0) (fun t => if t = emptyCompletion.json.text then some emptyCompletion.json else none)).1.decoded
    emptyCompletion _ (if_pos rfl) (by decide +kernel)

end Elpis.Gateway.LlmProxy
