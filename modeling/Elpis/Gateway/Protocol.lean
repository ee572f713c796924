import Elpis.Gateway.CredentialStore
import Elpis.Lib.JsonText

/-!
# The frames of a resident link

`packages/gateway-protocol/src/types.ts` and `codec.ts`. A frame is kept as the object that
`JSON.parse` gives for it, once the codec has found all its fields: what is left of
`decodeFrame` are the checks of the values, in their order. The size of a frame does not
depend on the order of its fields.

SHA-256 is a parameter, as a function to lowercase hex.
-/

namespace Elpis.Gateway.Protocol

open Elpis.Js
open Elpis.Lib.JsonText (hexValue)

/-! ## Limits, capabilities and errors -/

namespace LIMITS

def frameBytes : ℕ := 36 * 1024 * 1024
def consolePayloadBytes : ℕ := 8 * 1024 * 1024
def mediaBytes : ℕ := 25 * 1024 * 1024
def mediaRouteBytes : ℕ := 2 * 1024
def identityNameBytes : ℕ := 128
def buildValueBytes : ℕ := 128
def errorCodeBytes : ℕ := 64
def errorMessageBytes : ℕ := 1024
def viewersPerConnection : ℕ := 16
def pendingRequestsPerConnection : ℕ := 128
def requestHistoryPerConnection : ℕ := 4096

end LIMITS

/-- `Number.MAX_SAFE_INTEGER`. -/
def maxSafeInteger : ℕ := 9007199254740991

/-- `CAPABILITIES`. -/
inductive Capability where
  | console | identity | media
deriving DecidableEq, Repr

namespace Capability

def name : Capability → String
  | console => "console.v1"
  | identity => "identity.v1"
  | media => "media.v1"

/-- The place of the name in the order of strings. -/
def rank : Capability → ℕ
  | console => 0
  | identity => 1
  | media => 2

end Capability

/-- `PROTOCOL_ERROR_CODES`. -/
inductive ProtocolErrorCode where
  | invalid_json | frame_too_large | unsupported_version | unknown_type | unknown_capability
  | invalid_frame | invalid_sequence | invalid_handshake | connection_mismatch | instance_mismatch
  | capability_required | request_mismatch | viewer_limit | request_limit
deriving DecidableEq, Repr

def ProtocolErrorCode.name : ProtocolErrorCode → String
  | invalid_json => "invalid_json"
  | frame_too_large => "frame_too_large"
  | unsupported_version => "unsupported_version"
  | unknown_type => "unknown_type"
  | unknown_capability => "unknown_capability"
  | invalid_frame => "invalid_frame"
  | invalid_sequence => "invalid_sequence"
  | invalid_handshake => "invalid_handshake"
  | connection_mismatch => "connection_mismatch"
  | instance_mismatch => "instance_mismatch"
  | capability_required => "capability_required"
  | request_mismatch => "request_mismatch"
  | viewer_limit => "viewer_limit"
  | request_limit => "request_limit"

/-- `GatewayProtocolError`. All of them are fatal. -/
structure ProtocolError where
  code : ProtocolErrorCode
  message : String
deriving DecidableEq, Repr

abbrev Checked := Except ProtocolError Unit

/-- `fail` unless the condition holds. -/
def ensure (c : Prop) [Decidable c] (code : ProtocolErrorCode) (message : String) : Checked :=
  if c then .ok () else .error ⟨code, message⟩

/-! ## Frames -/

structure ErrorDetail where
  code : String
  message : String
deriving DecidableEq, Repr

structure AvatarDescriptor where
  mediaType : String
  byteLength : ℕ
  sha256 : String
deriving DecidableEq, Repr

structure ResidentIdentity where
  name : String
  avatar : Option AvatarDescriptor
deriving DecidableEq, Repr

structure BuildMetadata where
  version : String
  revision : Option String
  state : Option String
deriving DecidableEq, Repr

inductive ViewerOperation where
  | viewerOpen | viewerClose | viewerSnapshot
deriving DecidableEq, Repr

def ViewerOperation.name : ViewerOperation → String
  | viewerOpen => "viewer.open"
  | viewerClose => "viewer.close"
  | viewerSnapshot => "viewer.snapshot"

/-- `GatewayToResidentFrame`, less the envelope. -/
inductive GatewayBody where
  | helloAck (instanceId : String) (capabilities : List Capability)
  | operation (operation : ViewerOperation) (requestId viewerId : String)
  | consoleInput (viewerId payload : String)
  | mediaGet (requestId route : String)
  | error (error : ErrorDetail) (fatal : Bool) (requestId : Option String)
deriving DecidableEq, Repr

/-- `ResidentToGatewayFrame`, less the envelope. A result without an error is ok. -/
inductive ResidentBody where
  | hello (instanceId : String) (capabilities : List Capability) (identity : ResidentIdentity)
      (build : BuildMetadata)
  | operationResult (requestId viewerId : String) (operation : ViewerOperation)
      (error : Option ErrorDetail)
  | consoleOutput (viewerId payload : String)
  | mediaResult (requestId mediaType : String) (byteLength : ℕ) (sha256 data : String)
  | mediaFailed (requestId : String) (error : ErrorDetail)
  | error (error : ErrorDetail) (fatal : Bool) (requestId : Option String)
deriving DecidableEq, Repr

structure GatewayFrame where
  connectionId : String
  seq : ℕ
  body : GatewayBody
deriving DecidableEq, Repr

structure ResidentFrame where
  connectionId : String
  seq : ℕ
  body : ResidentBody
deriving DecidableEq, Repr

def GatewayBody.type : GatewayBody → String
  | helloAck .. => "hello.ack"
  | operation op _ _ => op.name
  | consoleInput .. => "console.input"
  | mediaGet .. => "media.get"
  | error .. => "error"

def ResidentBody.type : ResidentBody → String
  | hello .. => "hello"
  | operationResult .. => "operation.result"
  | consoleOutput .. => "console.output"
  | mediaResult .. => "media.result"
  | mediaFailed .. => "media.result"
  | error .. => "error"

/-! ## Sizes -/

/-- The bytes of a string in JSON. -/
def stringBytes (s : String) : ℕ := (stringify s).utf8ByteSize

def numberBytes (n : ℕ) : ℕ := (toString n).utf8ByteSize

def boolBytes (b : Bool) : ℕ := if b then 4 else 5

/-- The bytes of an array, from those of its members. -/
def arrayBytes (members : List ℕ) : ℕ := 2 + members.sum + (members.length - 1)

/-- The bytes of an object, from its keys and the bytes of their values. -/
def objectBytes (fields : List (String × ℕ)) : ℕ :=
  arrayBytes (fields.map (fun (key, value) => stringBytes key + 1 + value))

def optionalField (key : String) (value : Option ℕ) : List (String × ℕ) :=
  (value.map (fun bytes => (key, bytes))).toList

def capabilitiesBytes (capabilities : List Capability) : ℕ :=
  arrayBytes (capabilities.map (fun c => stringBytes c.name))

def ErrorDetail.bytes (e : ErrorDetail) : ℕ :=
  objectBytes [("code", stringBytes e.code), ("message", stringBytes e.message)]

def AvatarDescriptor.bytes (a : AvatarDescriptor) : ℕ :=
  objectBytes [("mediaType", stringBytes a.mediaType), ("byteLength", numberBytes a.byteLength),
    ("sha256", stringBytes a.sha256)]

def ResidentIdentity.bytes (i : ResidentIdentity) : ℕ :=
  objectBytes (("name", stringBytes i.name) :: optionalField "avatar" (i.avatar.map AvatarDescriptor.bytes))

def BuildMetadata.bytes (b : BuildMetadata) : ℕ :=
  objectBytes (("version", stringBytes b.version) ::
    optionalField "revision" (b.revision.map stringBytes) ++ optionalField "state" (b.state.map stringBytes))

def GatewayBody.fields : GatewayBody → List (String × ℕ)
  | helloAck instanceId capabilities =>
      [("instanceId", stringBytes instanceId), ("capabilities", capabilitiesBytes capabilities)]
  | operation _ requestId viewerId =>
      [("requestId", stringBytes requestId), ("viewerId", stringBytes viewerId)]
  | consoleInput viewerId payload =>
      [("viewerId", stringBytes viewerId), ("payload", stringBytes payload)]
  | mediaGet requestId route => [("requestId", stringBytes requestId), ("route", stringBytes route)]
  | error e fatal requestId =>
      [("error", e.bytes), ("fatal", boolBytes fatal)] ++
        optionalField "requestId" (requestId.map stringBytes)

def ResidentBody.fields : ResidentBody → List (String × ℕ)
  | hello instanceId capabilities identity build =>
      [("instanceId", stringBytes instanceId), ("capabilities", capabilitiesBytes capabilities),
        ("identity", identity.bytes), ("build", build.bytes)]
  | operationResult requestId viewerId op e =>
      [("requestId", stringBytes requestId), ("viewerId", stringBytes viewerId),
        ("operation", stringBytes op.name), ("ok", boolBytes e.isNone)] ++
        optionalField "error" (e.map ErrorDetail.bytes)
  | consoleOutput viewerId payload =>
      [("viewerId", stringBytes viewerId), ("payload", stringBytes payload)]
  | mediaResult requestId mediaType byteLength sha256 data =>
      [("requestId", stringBytes requestId), ("ok", boolBytes true), ("mediaType", stringBytes mediaType),
        ("byteLength", numberBytes byteLength), ("sha256", stringBytes sha256), ("data", stringBytes data)]
  | mediaFailed requestId e =>
      [("requestId", stringBytes requestId), ("ok", boolBytes false), ("error", e.bytes)]
  | error e fatal requestId =>
      [("error", e.bytes), ("fatal", boolBytes fatal)] ++
        optionalField "requestId" (requestId.map stringBytes)

/-- The bytes of a frame as `JSON.stringify` writes it. -/
def encodedBytes (connectionId : String) (seq : ℕ) (type : String) (fields : List (String × ℕ)) : ℕ :=
  objectBytes ([("version", 1), ("connectionId", stringBytes connectionId), ("seq", numberBytes seq),
    ("type", stringBytes type)] ++ fields)

/-! ## Checks of values -/

/-- The four `ID_PATTERNS`. -/
def isId (tag s : String) : Bool := fits (literal tag ++ literal "." ++ publicId) s

def instanceId (s : String) : Checked := ensure (isId "egi1" s = true) .invalid_frame "invalid instance id"
def connectionId (s : String) : Checked := ensure (isId "egx1" s = true) .invalid_frame "invalid connection id"
def viewerId (s : String) : Checked := ensure (isId "egv1" s = true) .invalid_frame "invalid viewer id"
def requestId (s : String) : Checked := ensure (isId "egr1" s = true) .invalid_frame "invalid request id"

/-- `[\u0000-\u001f\u007f]`. -/
def isAsciiControl (c : Char) : Bool := decide (c.toNat < 32) || decide (c.toNat = 127)

def stringValue (value label : String) (maxBytes : ℕ) : Checked := do
  ensure (value ≠ "") .invalid_frame (label ++ " must be a non-empty string")
  ensure (value.utf8ByteSize ≤ maxBytes) .invalid_frame
    (label ++ " exceeds " ++ toString maxBytes ++ " UTF-8 bytes")
  ensure (value.toList.any isAsciiControl = false) .invalid_frame (label ++ " contains control characters")

def safeInteger (value : ℕ) (label : String) (minimum : ℕ) : Checked :=
  ensure (minimum ≤ value ∧ value ≤ maxSafeInteger) .invalid_frame
    (label ++ " must be a safe integer >= " ++ toString minimum)

/-- `sha`. -/
def shaValue (value label : String) : Checked :=
  ensure (fits (List.replicate 64 hexClass) value = true) .invalid_frame
    (label ++ " must be a lowercase SHA-256 hex digest")

def validateCapabilities (value : List Capability) : Checked :=
  ensure (value.Pairwise (fun a b => a.rank < b.rank)) .invalid_frame
    "capabilities must be sorted and unique"

/-- `local.filter(capability => offered.has(capability))`. -/
def negotiateCapabilities (here remote : List Capability) : List Capability :=
  here.filter (fun c => decide (c ∈ remote))

def errorDetail (e : ErrorDetail) : Checked := do
  stringValue e.code "error.code" LIMITS.errorCodeBytes
  stringValue e.message "error.message" LIMITS.errorMessageBytes

def identityValue (i : ResidentIdentity) : Checked := do
  stringValue i.name "identity.name" LIMITS.identityNameBytes
  match i.avatar with
  | none => pure ()
  | some avatar => do
      ensure (avatar.mediaType ∈ ["image/png", "image/jpeg", "image/webp"]) .invalid_frame
        "identity.avatar.mediaType is unsupported"
      safeInteger avatar.byteLength "identity.avatar.byteLength" 0
      ensure (avatar.byteLength ≤ LIMITS.mediaBytes) .invalid_frame "identity avatar is too large"
      shaValue avatar.sha256 "identity.avatar.sha256"

def buildValue (b : BuildMetadata) : Checked := do
  stringValue b.version "build.version" LIMITS.buildValueBytes
  match b.revision with
  | none => pure ()
  | some revision => stringValue revision "build.revision" LIMITS.buildValueBytes
  match b.state with
  | none => pure ()
  | some state => stringValue state "build.state" LIMITS.buildValueBytes

def opaquePayload (payload : String) : Checked :=
  ensure (payload.utf8ByteSize ≤ LIMITS.consolePayloadBytes) .invalid_frame
    "console payload exceeds its byte limit"

/-! ## Media -/

/-- The bytes that a percent-encoded text stands for. -/
def percentBytes : List Char → Option (List UInt8)
  | [] => some []
  | '%' :: a :: b :: rest => do
      let high ← hexValue a.toNat
      let low ← hexValue b.toNat
      let tail ← percentBytes rest
      pure (UInt8.ofNat (16 * high + low) :: tail)
  | '%' :: _ => none
  | c :: rest => do
      let tail ← percentBytes rest
      pure ((String.singleton c).toUTF8.toList ++ tail)

/-- `decodeURIComponent`; `none` where it throws. -/
def decodeURIComponent (s : String) : Option String :=
  (percentBytes s.toList).bind (fun bytes => String.fromUTF8? ⟨bytes.toArray⟩)

def startsWith (s start : String) : Bool := start.toList.isPrefixOf s.toList

def avatarRoute : String := "/identity/avatar"

def mediaRoute (route : String) : Checked := do
  stringValue route "media route" LIMITS.mediaRouteBytes
  ensure (route.toList.any (fun c => c == '?' || c == '#' || c == '\\') = false) .invalid_frame
    "media route must not contain a query, fragment, or backslash"
  if route = avatarRoute then pure ()
  else do
    ensure (startsWith route "/frames/" = true ∨ startsWith route "/attachments/" = true) .invalid_frame
      "media route is not a recognized console-relative route"
    match decodeURIComponent route with
    | none => .error ⟨.invalid_frame, "media route has invalid encoding"⟩
    | some decoded => do
        ensure (decoded.toList.any (fun c => isAsciiControl c || c == '\\' || c == '?' || c == '#') = false)
          .invalid_frame "media route contains unsafe decoded characters"
        let parts := (decoded.splitOn "/").drop 1
        ensure (∀ part ∈ parts, part ≠ "" ∧ part ≠ "." ∧ part ≠ "..") .invalid_frame
          "media route contains an unsafe segment"
        if parts.getD 0 "" = "frames" then
          ensure (3 ≤ parts.length ∧ parts.getD 1 "" ∈ ["watch", "computer", "browser", "motor"])
            .invalid_frame "media route is not a recognized frame route"
        else
          ensure (parts.getD 0 "" = "attachments" → 3 ≤ parts.length) .invalid_frame
            "media route is not a recognized attachment route"

/-- The alphabet of base64. -/
def base64Alphabet : List Char :=
  "ABCDEFGHIJKLMNOPQRSTUVWXYZabcdefghijklmnopqrstuvwxyz0123456789+/".toList

def base64Value (c : Char) : Option ℕ := base64Alphabet.idxOf? c

/-- The bytes of a text that fits `B64`; the bits that padding leaves over are dropped. -/
def base64Bytes : List Char → Option (List UInt8)
  | [] => some []
  | [a, b, '=', '='] => do
      let x ← base64Value a
      let y ← base64Value b
      pure [UInt8.ofNat (4 * x + y / 16)]
  | [a, b, c, '='] => do
      let x ← base64Value a
      let y ← base64Value b
      let z ← base64Value c
      pure [UInt8.ofNat (4 * x + y / 16), UInt8.ofNat (16 * (y % 16) + z / 4)]
  | a :: b :: c :: d :: rest => do
      let x ← base64Value a
      let y ← base64Value b
      let z ← base64Value c
      let w ← base64Value d
      let tail ← base64Bytes rest
      pure (UInt8.ofNat (4 * x + y / 16) :: UInt8.ofNat (16 * (y % 16) + z / 4) ::
        UInt8.ofNat (64 * (z % 4) + w) :: tail)
  | _ => none

def base64Char (n : ℕ) : Char := base64Alphabet.getD n 'A'

/-- `bytes.toString('base64')`. -/
def base64Text : List UInt8 → List Char
  | [] => []
  | [a] => [base64Char (a.toNat / 4), base64Char (16 * (a.toNat % 4)), '=', '=']
  | [a, b] => [base64Char (a.toNat / 4), base64Char (16 * (a.toNat % 4) + b.toNat / 16),
      base64Char (4 * (b.toNat % 16)), '=']
  | a :: b :: c :: rest => base64Char (a.toNat / 4) ::
      base64Char (16 * (a.toNat % 4) + b.toNat / 16) :: base64Char (4 * (b.toNat % 16) + c.toNat / 64) ::
      base64Char (c.toNat % 64) :: base64Text rest

section Codec

variable (hash : List UInt8 → String)

def mediaValue (mediaType : String) (byteLength : ℕ) (sha256 data : String) : Checked := do
  stringValue mediaType "media.result.mediaType" 128
  safeInteger byteLength "media.result.byteLength" 0
  ensure (byteLength ≤ LIMITS.mediaBytes) .invalid_frame "media result exceeds its byte limit"
  shaValue sha256 "media.result.sha256"
  match base64Bytes data.toList with
  | none => .error ⟨.invalid_frame, "media.result.data must be canonical base64"⟩
  | some bytes => do
      ensure (bytes.length = byteLength) .invalid_frame "media result byteLength does not match data"
      ensure (base64Text bytes = data.toList) .invalid_frame "media.result.data must be canonical base64"
      ensure (hash bytes = sha256) .invalid_frame "media result sha256 does not match data"

/-! ## Decoding -/

/-- The envelope, checked before the type is looked at. -/
def envelope (encoded : ℕ) (connection : String) (seq : ℕ) : Checked := do
  ensure (encoded ≤ LIMITS.frameBytes) .frame_too_large "frame exceeds its byte limit"
  connectionId connection
  safeInteger seq "seq" 1

/-- The last case of the switch of `decodeFrame`. -/
def errorFrame (e : ErrorDetail) (request : Option String) : Checked := do
  errorDetail e
  ensure (e.code ∈ [ProtocolErrorCode.invalid_json, .frame_too_large, .unsupported_version, .unknown_type,
      .unknown_capability, .invalid_frame, .invalid_sequence, .invalid_handshake, .connection_mismatch,
      .instance_mismatch, .capability_required, .request_mismatch, .viewer_limit,
      .request_limit].map ProtocolErrorCode.name)
    .invalid_frame "error.code is not a v1 protocol error code"
  match request with
  | none => pure ()
  | some id => requestId id

def decodeGatewayFrame (frame : GatewayFrame) : Checked := do
  envelope (encodedBytes frame.connectionId frame.seq frame.body.type frame.body.fields)
    frame.connectionId frame.seq
  match frame.body with
  | .helloAck instance_ capabilities => do
      instanceId instance_
      validateCapabilities capabilities
  | .operation _ request viewer => do
      requestId request
      viewerId viewer
  | .consoleInput viewer payload => do
      viewerId viewer
      opaquePayload payload
  | .mediaGet request route => do
      requestId request
      mediaRoute route
  | .error e _ request => errorFrame e request

def decodeResidentFrame (frame : ResidentFrame) : Checked := do
  envelope (encodedBytes frame.connectionId frame.seq frame.body.type frame.body.fields)
    frame.connectionId frame.seq
  match frame.body with
  | .hello instance_ capabilities identity build => do
      instanceId instance_
      validateCapabilities capabilities
      identityValue identity
      buildValue build
  | .operationResult request viewer _ e => do
      requestId request
      viewerId viewer
      match e with
      | none => pure ()
      | some detail => errorDetail detail
  | .consoleOutput viewer payload => do
      viewerId viewer
      opaquePayload payload
  | .mediaResult request mediaType byteLength sha256 data => do
      requestId request
      mediaValue hash mediaType byteLength sha256 data
  | .mediaFailed request e => do
      requestId request
      errorDetail e
  | .error e _ request => errorFrame e request

end Codec

def needs (frameType : String) : Option Capability :=
  if startsWith frameType "viewer." || startsWith frameType "console." || frameType == "operation.result"
  then some .console
  else if startsWith frameType "media." then some .media
  else none

theorem needs_operation (op : ViewerOperation) : needs op.name = some .console := by
  cases op with
  | viewerOpen => decide
  | viewerClose => decide
  | viewerSnapshot => decide

theorem needs_operationResult : needs "operation.result" = some .console := by decide

theorem needs_console : needs "console.input" = some .console ∧ needs "console.output" = some .console := by
  decide

theorem needs_media : needs "media.get" = some .media ∧ needs "media.result" = some .media := by decide

end Elpis.Gateway.Protocol
