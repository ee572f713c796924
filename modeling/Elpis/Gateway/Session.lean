import Elpis.Gateway.Protocol

/-!
# The two sessions of a resident link

`packages/gateway-protocol/src/session.ts`. The gateway registers a request before it sends
it and correlates what comes back; the resident takes requests in and builds its results
under guards of its own. Each side keeps the viewers it takes for open and a bounded history
of request ids.

A method that throws keeps what it has written so far, and `receive` makes the session
terminal then.
-/

namespace Elpis.Gateway.Protocol

open Elpis.Js Elpis.Lib

/-! ## What the two sides share -/

/-- What a request of the gateway asks for. Only viewer operations have a viewer. -/
inductive PendingRequest where
  | operation (operation : ViewerOperation) (viewerId : String)
  | media
deriving DecidableEq, Repr

def PendingRequest.type : PendingRequest → String
  | operation op _ => op.name
  | media => "media.get"

def PendingRequest.viewerId : PendingRequest → Option String
  | operation _ viewer => some viewer
  | media => none

/-- `ResidentMediaResultEffect`, less the request id. -/
inductive MediaOutcome where
  | ok (mediaType : String) (byteLength : ℕ) (sha256 data : String)
  | failed (error : ErrorDetail)
deriving DecidableEq, Repr

def MediaOutcome.body (id : String) : MediaOutcome → ResidentBody
  | ok mediaType byteLength sha256 data => .mediaResult id mediaType byteLength sha256 data
  | failed e => .mediaFailed id e

/-- A `Map` from request ids. -/
abbrev RequestMap (α : Type) := Table (Prod.fst : String × α → String)

/-- `map.delete`. -/
def RequestMap.erase {α : Type} (m : RequestMap α) (id : String) : RequestMap α :=
  m.delete (fun r => decide (r.1 = id))

/-- The history with one more request id, and without the oldest when it is full. -/
def remembered (ids : Finset String) (order : List String) (id : String) : Finset String × List String :=
  if LIMITS.requestHistoryPerConnection < (order ++ [id]).length then
    ((insert id ids).erase ((order ++ [id]).headD id), (order ++ [id]).drop 1)
  else (insert id ids, order ++ [id])

def rememberRequest (ids : Finset String) (order : List String) (id : String) :
    Except ProtocolError (Finset String × List String) :=
  if id ∈ ids then .error ⟨.request_mismatch, "request id was already used"⟩
  else .ok (remembered ids order id)

theorem remembered_subset {ids : Finset String} {order : List String} {id x : String}
    (h : x ∈ (remembered ids order id).1) : x = id ∨ x ∈ ids := by
  unfold remembered at h
  split at h
  · exact Finset.mem_insert.mp (Finset.mem_of_mem_erase h)
  · exact Finset.mem_insert.mp h

theorem rememberRequest_new {ids : Finset String} {order : List String} {id : String} (h : id ∉ ids) :
    rememberRequest ids order id = .ok (remembered ids order id) := if_neg h

/-- The check of `needs`, for either side. -/
def requireCapability {σ : Type} (negotiated : List Capability) (type : String) : Tx σ ProtocolError Unit :=
  match needs type with
  | none => pure ()
  | some c => Tx.ensure (c ∈ negotiated) ⟨.capability_required, type ++ " requires " ++ c.name⟩

variable {negotiated : List Capability}

theorem requireCapability_of {σ : Type} {type : String}
    (h : ∀ c, needs type = some c → c ∈ negotiated) (s : σ) :
    (requireCapability negotiated type : Tx σ ProtocolError Unit) s = (.ok (), s) := by
  unfold requireCapability
  cases hneeds : needs type with
  | none => rfl
  | some c => exact Tx.ensure_ok.mpr ⟨h c hneeds, rfl⟩

theorem requireCapability_ok {σ : Type} {type : String} {s s' : σ}
    (h : (requireCapability negotiated type : Tx σ ProtocolError Unit) s = (.ok (), s')) :
    s' = s ∧ ∀ c, needs type = some c → c ∈ negotiated := by
  unfold requireCapability at h
  cases hneeds : needs type with
  | none =>
      rw [hneeds] at h
      exact ⟨(Tx.pure_ok.mp h).2.symm, fun c hc => by cases hc⟩
  | some c =>
      rw [hneeds] at h
      obtain ⟨hc, hs⟩ := Tx.ensure_ok.mp h
      refine ⟨hs.symm, ?_⟩
      intro d hd
      cases hd
      exact hc

theorem wp_requireCapability {σ : Type} {type : String} {s : σ}
    {Q : Unit → σ → Prop} {E : ProtocolError → σ → Prop} :
    Tx.wp (requireCapability negotiated type) Q E s ↔
      ((∀ c, needs type = some c → c ∈ negotiated) → Q () s) ∧
        ∀ c, needs type = some c → c ∉ negotiated →
          E ⟨.capability_required, type ++ " requires " ++ c.name⟩ s := by
  unfold requireCapability
  cases needs type with
  | none => simp
  | some c => simp

/-! ## The gateway -/

structure GatewayInboundSession where
  connectionId : String
  instanceId : String
  supportedCapabilities : List Capability
  negotiated : List Capability
  residentHello : Option ResidentFrame
  nextSeq : ℕ
  terminal : Bool
  pending : RequestMap PendingRequest
  requestIds : Finset String
  requestOrder : List String
  viewers : Finset String

namespace GatewayInboundSession

abbrev Method := Tx GatewayInboundSession ProtocolError

/-- The constructor. -/
def create (connectionId instanceId : String) (supportedCapabilities : List Capability) :
    GatewayInboundSession :=
  ⟨connectionId, instanceId, supportedCapabilities, [], none, 1, false, Table.empty, ∅, [], ∅⟩

/-- The part of `registerRequest` about the viewer. -/
def registerViewer : PendingRequest → Method Unit
  | .media => pure ()
  | .operation op viewer => do
      let s ← Tx.read (fun s => s)
      Tx.ensure (∀ r ∈ s.pending.rows, r.2.viewerId ≠ some viewer)
        ⟨.request_mismatch, "viewer already has an outstanding operation"⟩
      match op with
      | .viewerOpen => do
          Tx.ensure (viewer ∉ s.viewers) ⟨.request_mismatch, "viewer is already open"⟩
          Tx.ensure (s.viewers.card < LIMITS.viewersPerConnection) ⟨.viewer_limit, "viewer limit reached"⟩
          Tx.write (fun s => { s with viewers := insert viewer s.viewers })
      | _ => Tx.ensure (viewer ∈ s.viewers) ⟨.request_mismatch, "viewer is not open"⟩

/-- `registerRequest`, of the frame with this connection id, request id and request. -/
def registerRequest (connection id : String) (request : PendingRequest) : Method Unit := do
  let s ← Tx.read (fun s => s)
  Tx.ensure (s.terminal = false) ⟨.invalid_handshake, "session is terminal"⟩
  Tx.ensure (s.residentHello ≠ none) ⟨.invalid_handshake, "resident hello is not complete"⟩
  Tx.ensure (connection = s.connectionId)
    ⟨.connection_mismatch, "outbound request has the wrong connection id"⟩
  Tx.ensure (id ∉ s.requestIds) ⟨.request_mismatch, "request id was already used"⟩
  Tx.ensure (s.pending.rows.length < LIMITS.pendingRequestsPerConnection)
    ⟨.request_limit, "too many requests are pending"⟩
  requireCapability s.negotiated request.type
  registerViewer request
  let (ids, order) ← Tx.ofExcept (rememberRequest s.requestIds s.requestOrder id)
  Tx.write (fun s => { s with requestIds := ids, requestOrder := order, pending := s.pending.put (id, request) })

/-- Behind the last safe integer the session is terminal. -/
def advanced (s : GatewayInboundSession) : GatewayInboundSession :=
  if s.nextSeq = maxSafeInteger then { s with terminal := true } else { s with nextSeq := s.nextSeq + 1 }

def advanceSequence : Method Unit := Tx.write advanced

/-- The frames behind the hello, less the sequence. -/
def apply (body : ResidentBody) : Method Unit := do
  let s ← Tx.read (fun s => s)
  match body with
  | .hello .. => Tx.throw ⟨.invalid_handshake, "second hello is not allowed"⟩
  | .consoleOutput viewer _ =>
      Tx.ensure (viewer ∈ s.viewers) ⟨.request_mismatch, "console output names a viewer that is not open"⟩
  | .operationResult id viewer op e => do
      Tx.ensure (s.pending.get? id = some (id, .operation op viewer))
        ⟨.request_mismatch, "operation result does not match an outstanding request"⟩
      Tx.write (fun s => { s with pending := s.pending.erase id })
      Tx.when (op = .viewerOpen ∧ e.isSome) (Tx.write (fun s => { s with viewers := s.viewers.erase viewer }))
      Tx.when (op = .viewerClose ∧ e.isNone) (Tx.write (fun s => { s with viewers := s.viewers.erase viewer }))
  | .mediaResult id _ _ _ _ | .mediaFailed id _ => do
      Tx.ensure (s.pending.get? id = some (id, .media))
        ⟨.request_mismatch, "media result does not match an outstanding request"⟩
      Tx.write (fun s => { s with pending := s.pending.erase id })
  | .error _ _ none => pure ()
  | .error _ _ (some id) => do
      let (_, expected) ← Tx.require (s.pending.get? id)
        ⟨.request_mismatch, "error does not match an outstanding request"⟩
      Tx.write (fun s => { s with pending := s.pending.erase id })
      match expected with
      | .operation .viewerOpen viewer => Tx.write (fun s => { s with viewers := s.viewers.erase viewer })
      | _ => pure ()

def isFatal : ResidentBody → Bool
  | .error _ fatal _ => fatal
  | _ => false

section Receive

variable (hash : List UInt8 → String)

def receiveFrame (frame : ResidentFrame) : Method Unit := do
  let s ← Tx.read (fun s => s)
  Tx.ensure (s.terminal = false) ⟨.invalid_handshake, "session is terminal"⟩
  Tx.ofExcept (decodeResidentFrame hash frame)
  Tx.ensure (frame.connectionId = s.connectionId) ⟨.connection_mismatch, "connection id changed"⟩
  Tx.ensure (frame.seq = s.nextSeq) ⟨.invalid_sequence, "resident sequence is not contiguous"⟩
  match s.residentHello with
  | none =>
      match frame.body with
      | .hello instance_ capabilities _ _ => do
          Tx.ensure (instance_ = s.instanceId)
            ⟨.instance_mismatch, "hello instance id does not match authenticated credential"⟩
          Tx.write (fun s => { s with residentHello := some frame,
                                      negotiated := negotiateCapabilities s.supportedCapabilities capabilities })
          advanceSequence
      | _ => Tx.throw ⟨.invalid_handshake, "first resident frame must be hello"⟩
  | some _ => do
      requireCapability s.negotiated frame.body.type
      apply frame.body
      advanceSequence
      Tx.when (isFatal frame.body = true) (Tx.write (fun s => { s with terminal := true }))

def receive (frame : ResidentFrame) : Method Unit := do
  let outcome ← Tx.attempt (receiveFrame hash frame)
  match outcome with
  | .ok _ => pure ()
  | .error e => do
      Tx.write (fun s => { s with terminal := true })
      Tx.throw e

end Receive

/-! ### What a successful call did -/

variable {s s' : GatewayInboundSession} {connection id viewer : String} {request : PendingRequest}

/-- What `registerRequest` asks of the viewer. -/
def Registrable (s : GatewayInboundSession) : PendingRequest → Prop
  | .media => True
  | .operation op viewer => (∀ r ∈ s.pending.rows, r.2.viewerId ≠ some viewer) ∧
      match op with
      | .viewerOpen => viewer ∉ s.viewers ∧ s.viewers.card < LIMITS.viewersPerConnection
      | _ => viewer ∈ s.viewers

/-- The viewers behind a request. -/
def viewersWith (s : GatewayInboundSession) : PendingRequest → Finset String
  | .operation .viewerOpen viewer => insert viewer s.viewers
  | _ => s.viewers

def registered (s : GatewayInboundSession) (id : String) (request : PendingRequest) :
    GatewayInboundSession :=
  { s with viewers := s.viewersWith request,
           requestIds := (remembered s.requestIds s.requestOrder id).1,
           requestOrder := (remembered s.requestIds s.requestOrder id).2,
           pending := s.pending.put (id, request) }

theorem registerRequest_ok (h : registerRequest connection id request s = (.ok (), s')) :
    (s.terminal = false ∧ s.residentHello ≠ none ∧ connection = s.connectionId ∧ id ∉ s.requestIds ∧
      s.pending.rows.length < LIMITS.pendingRequestsPerConnection ∧
      (∀ c, needs request.type = some c → c ∈ s.negotiated) ∧ s.Registrable request) ∧
    s' = s.registered id request := by
  simp only [registerRequest, Tx.bind_ok, Tx.read_ok, Tx.ensure_ok, Tx.ofExcept_ok, Tx.write_ok] at h
  obtain ⟨_, _, ⟨rfl, rfl⟩, _, _, ⟨hterminal, rfl⟩, _, _, ⟨hhello, rfl⟩, _, _, ⟨hconn, rfl⟩, _, _,
    ⟨hnew, rfl⟩, _, _, ⟨hlimit, rfl⟩, _, s₁, hcap, _, s₂, hviewer, x, s₃, ⟨hremember, rfl⟩, rfl⟩ := h
  obtain ⟨rfl, hcap⟩ := requireCapability_ok hcap
  rw [rememberRequest_new hnew, Except.ok.injEq] at hremember
  subst hremember
  suffices hv : s₁.Registrable request ∧ s₂ = { s₁ with viewers := s₁.viewersWith request } by
    obtain ⟨hv, rfl⟩ := hv
    exact ⟨⟨hterminal, hhello, hconn, hnew, hlimit, hcap, hv⟩, rfl⟩
  cases request with
  | media =>
      obtain ⟨_, rfl⟩ := Tx.pure_ok.mp hviewer
      exact ⟨trivial, rfl⟩
  | operation op viewer =>
      simp only [registerViewer, Tx.bind_ok, Tx.read_ok, Tx.ensure_ok] at hviewer
      obtain ⟨_, _, ⟨rfl, rfl⟩, _, _, ⟨hfree, rfl⟩, hviewer⟩ := hviewer
      cases op with
      | viewerOpen =>
          simp only [Tx.bind_ok, Tx.ensure_ok, Tx.write_ok] at hviewer
          obtain ⟨_, _, ⟨hclosed, rfl⟩, _, _, ⟨hroom, rfl⟩, rfl⟩ := hviewer
          exact ⟨⟨hfree, hclosed, hroom⟩, rfl⟩
      | viewerClose =>
          obtain ⟨hopen, rfl⟩ := Tx.ensure_ok.mp hviewer
          exact ⟨⟨hfree, hopen⟩, rfl⟩
      | viewerSnapshot =>
          obtain ⟨hopen, rfl⟩ := Tx.ensure_ok.mp hviewer
          exact ⟨⟨hfree, hopen⟩, rfl⟩

theorem registerRequest_refused (connection id : String) (request : PendingRequest)
    (s : GatewayInboundSession) :
    Tx.wp (registerRequest connection id request) (fun _ _ => True) (fun _ s' => s' = s) s := by
  unfold registerRequest
  simp only [Tx.wp_bind, Tx.wp_read, Tx.wp_ensure, wp_requireCapability]
  refine ⟨fun _ => ⟨fun _ => ⟨fun _ => ⟨fun hnew => ⟨fun _ => ⟨fun _ => ?_, fun _ _ _ => trivial⟩,
    fun _ => trivial⟩, fun _ => trivial⟩, fun _ => trivial⟩, fun _ => trivial⟩, fun _ => trivial⟩
  cases request with
  | media => simp [registerViewer, rememberRequest_new hnew]
  | operation op viewer =>
      cases op with
      | viewerOpen => simp [registerViewer, rememberRequest_new hnew]
      | viewerClose => simp [registerViewer, rememberRequest_new hnew]
      | viewerSnapshot => simp [registerViewer, rememberRequest_new hnew]

section ReceiveOk

variable {hash : List UInt8 → String} {frame : ResidentFrame}

/-- What a frame has to pass before it is applied. -/
structure Admits (hash : List UInt8 → String) (s : GatewayInboundSession) (frame : ResidentFrame) : Prop where
  terminal : s.terminal = false
  decodes : decodeResidentFrame hash frame = .ok ()
  connection : frame.connectionId = s.connectionId
  seq : frame.seq = s.nextSeq
  hello : s.residentHello ≠ none
  capable : ∀ c, needs frame.body.type = some c → c ∈ s.negotiated

theorem receive_of_apply (h : Admits hash s frame) (happly : apply frame.body s = (.ok (), s'))
    (hfatal : isFatal frame.body = false) : receive hash frame s = (.ok (), s'.advanced) := by
  have hframe : receiveFrame hash frame s = (.ok (), s'.advanced) := by
    obtain ⟨hello, hhello⟩ := Option.ne_none_iff_exists'.mp h.hello
    simp only [receiveFrame, Tx.bind_ok, Tx.read_ok, Tx.ensure_ok, Tx.ofExcept_ok]
    refine ⟨s, s, ⟨rfl, rfl⟩, (), s, ⟨h.terminal, rfl⟩, (), s, ⟨h.decodes, rfl⟩, (), s, ⟨h.connection, rfl⟩,
      (), s, ⟨h.seq, rfl⟩, ?_⟩
    simp only [hhello, Tx.bind_ok]
    refine ⟨(), s, requireCapability_of h.capable s, (), s', happly, (), _, rfl, ?_⟩
    exact Tx.when_ok.mpr (Or.inr ⟨by rw [hfatal]; exact Bool.false_ne_true, rfl⟩)
  have hattempt : Tx.attempt (receiveFrame hash frame) s = (.ok (.ok ()), s'.advanced) := by
    unfold Tx.attempt
    rw [hframe]
  unfold receive
  rw [Tx.bind_of_ok hattempt]
  rfl

end ReceiveOk

theorem advanced_terminal (s : GatewayInboundSession) (h : s.advanced.terminal = false) :
    s.advanced = { s with nextSeq := s.nextSeq + 1 } := by
  unfold advanced at h ⊢
  split
  · rename_i hmax
    rw [if_pos hmax] at h
    cases h
  · rfl

/-- The viewers behind the result of an operation. -/
def viewersAfter (s : GatewayInboundSession) (viewer : String) (op : ViewerOperation)
    (e : Option ErrorDetail) : Finset String :=
  if (op = .viewerOpen ∧ e.isSome) ∨ (op = .viewerClose ∧ e.isNone) then s.viewers.erase viewer else s.viewers

theorem apply_operationResult {op : ViewerOperation} {e : Option ErrorDetail}
    (h : s.pending.get? id = some (id, .operation op viewer)) :
    apply (.operationResult id viewer op e) s =
      (.ok (), { s with pending := s.pending.erase id, viewers := s.viewersAfter viewer op e }) := by
  simp only [apply, Tx.bind_ok, Tx.read_ok, Tx.ensure_ok, Tx.write_ok, viewersAfter]
  refine ⟨s, s, ⟨rfl, rfl⟩, (), s, ⟨h, rfl⟩, (), _, rfl, ?_⟩
  cases op with
  | viewerSnapshot => exact ⟨(), _, Tx.when_ok.mpr (Or.inr ⟨by simp, rfl⟩), Tx.when_ok.mpr (Or.inr ⟨by simp, rfl⟩)⟩
  | viewerOpen =>
      cases e with
      | none => exact ⟨(), _, Tx.when_ok.mpr (Or.inr ⟨by simp, rfl⟩), Tx.when_ok.mpr (Or.inr ⟨by simp, rfl⟩)⟩
      | some detail =>
          exact ⟨(), _, Tx.when_ok.mpr (Or.inl ⟨by simp, rfl⟩), Tx.when_ok.mpr (Or.inr ⟨by simp, rfl⟩)⟩
  | viewerClose =>
      cases e with
      | none => exact ⟨(), _, Tx.when_ok.mpr (Or.inr ⟨by simp, rfl⟩), Tx.when_ok.mpr (Or.inl ⟨by simp, rfl⟩)⟩
      | some detail =>
          exact ⟨(), _, Tx.when_ok.mpr (Or.inr ⟨by simp, rfl⟩), Tx.when_ok.mpr (Or.inr ⟨by simp, rfl⟩)⟩

theorem apply_mediaResult (outcome : MediaOutcome) (h : s.pending.get? id = some (id, .media)) :
    apply (outcome.body id) s = (.ok (), { s with pending := s.pending.erase id }) := by
  cases outcome <;>
    · simp only [MediaOutcome.body, apply, Tx.bind_ok, Tx.read_ok, Tx.ensure_ok, Tx.write_ok]
      exact ⟨s, s, ⟨rfl, rfl⟩, (), s, ⟨h, rfl⟩, rfl⟩

theorem apply_consoleOutput {payload : String} (h : viewer ∈ s.viewers) :
    apply (.consoleOutput viewer payload) s = (.ok (), s) := by
  simp only [apply, Tx.bind_ok, Tx.read_ok, Tx.ensure_ok]
  exact ⟨s, s, ⟨rfl, rfl⟩, h, rfl⟩

end GatewayInboundSession

/-! ## The resident -/

structure PendingViewerOperation where
  operation : ViewerOperation
  viewerId : String
deriving DecidableEq, Repr

structure ResidentInboundSession where
  connectionId : String
  instanceId : String
  offeredCapabilities : List Capability
  gatewayCapabilities : Option (List Capability)
  negotiated : List Capability
  gatewayAck : Option GatewayFrame
  nextSeq : ℕ
  terminal : Bool
  requestIds : Finset String
  requestOrder : List String
  pendingOperations : RequestMap PendingViewerOperation
  pendingMedia : Finset String
  nextOutboundSeq : ℕ
  viewers : Finset String

namespace ResidentInboundSession

abbrev Method := Tx ResidentInboundSession ProtocolError

/-- The constructor. -/
def create (connectionId instanceId : String) (offeredCapabilities : List Capability)
    (gatewayCapabilities : Option (List Capability)) : ResidentInboundSession :=
  ⟨connectionId, instanceId, offeredCapabilities, gatewayCapabilities, [], none, 1, false, ∅, [],
    Table.empty, ∅, 2, ∅⟩

def assertOutboundReady : Method Unit := do
  let s ← Tx.read (fun s => s)
  Tx.ensure (s.terminal = false) ⟨.invalid_handshake, "session is terminal"⟩
  Tx.ensure (s.gatewayAck ≠ none) ⟨.invalid_handshake, "gateway hello acknowledgement is not complete"⟩

def outboundAdvanced (s : ResidentInboundSession) : ResidentInboundSession :=
  if s.nextOutboundSeq = maxSafeInteger then { s with terminal := true }
  else { s with nextOutboundSeq := s.nextOutboundSeq + 1 }

def advanceOutboundSequence : Method Unit := Tx.write outboundAdvanced

section Emit

variable (hash : List UInt8 → String)

/-- The frame with the envelope of the session, decoded. -/
def enveloped (body : ResidentBody) : Method ResidentFrame := do
  let s ← Tx.read (fun s => s)
  let frame : ResidentFrame := ⟨s.connectionId, s.nextOutboundSeq, body⟩
  Tx.ofExcept (decodeResidentFrame hash frame)
  pure frame

def operationResult (id viewer : String) (op : ViewerOperation) (e : Option ErrorDetail) :
    Method ResidentFrame := do
  assertOutboundReady
  let s ← Tx.read (fun s => s)
  Tx.ensure (s.pendingOperations.get? id = some (id, ⟨op, viewer⟩))
    ⟨.request_mismatch, "operation result does not match a received request"⟩
  let frame ← enveloped hash (.operationResult id viewer op e)
  Tx.write (fun s => { s with pendingOperations := s.pendingOperations.erase id })
  Tx.when (op = .viewerOpen ∧ e.isNone) (Tx.write (fun s => { s with viewers := insert viewer s.viewers }))
  Tx.when (op = .viewerClose ∧ e.isNone) (Tx.write (fun s => { s with viewers := s.viewers.erase viewer }))
  advanceOutboundSequence
  pure frame

def consoleOutput (viewer payload : String) : Method ResidentFrame := do
  assertOutboundReady
  let s ← Tx.read (fun s => s)
  Tx.ensure (viewer ∈ s.viewers) ⟨.request_mismatch, "console output names a viewer that is not open"⟩
  let frame ← enveloped hash (.consoleOutput viewer payload)
  advanceOutboundSequence
  pure frame

def mediaResult (id : String) (outcome : MediaOutcome) : Method ResidentFrame := do
  assertOutboundReady
  let s ← Tx.read (fun s => s)
  Tx.ensure (id ∈ s.pendingMedia) ⟨.request_mismatch, "media result does not match a received request"⟩
  let frame ← enveloped hash (outcome.body id)
  Tx.write (fun s => { s with pendingMedia := s.pendingMedia.erase id })
  advanceOutboundSequence
  pure frame

end Emit

/-- Behind the last safe integer the session is terminal. -/
def advanced (s : ResidentInboundSession) : ResidentInboundSession :=
  if s.nextSeq = maxSafeInteger then { s with terminal := true } else { s with nextSeq := s.nextSeq + 1 }

def advanceSequence : Method Unit := Tx.write advanced

/-- The two limits together. -/
def pendingSize (s : ResidentInboundSession) : ℕ := s.pendingOperations.rows.length + s.pendingMedia.card

def opening (s : ResidentInboundSession) : ℕ :=
  (s.pendingOperations.rows.filter (fun r => decide (r.2.operation = .viewerOpen))).length

/-- `rememberRequest` on the fields of the session. -/
def remember (id : String) : Method Unit := do
  let s ← Tx.read (fun s => s)
  let (ids, order) ← Tx.ofExcept (rememberRequest s.requestIds s.requestOrder id)
  Tx.write (fun s => { s with requestIds := ids, requestOrder := order })

/-- The part of `receiveFrame` about the viewer of an operation. -/
def checkViewer (op : ViewerOperation) (viewer : String) : Method Unit := do
  let s ← Tx.read (fun s => s)
  match op with
  | .viewerOpen => do
      Tx.ensure (viewer ∉ s.viewers) ⟨.request_mismatch, "viewer is already open"⟩
      Tx.ensure (s.viewers.card + s.opening < LIMITS.viewersPerConnection)
        ⟨.viewer_limit, "viewer limit reached"⟩
  | _ => Tx.ensure (viewer ∈ s.viewers) ⟨.request_mismatch, "viewer is not open"⟩

/-- The frames behind the acknowledgement, less the sequence. -/
def apply (body : GatewayBody) : Method Unit := do
  let s ← Tx.read (fun s => s)
  match body with
  | .helloAck .. => Tx.throw ⟨.invalid_handshake, "second hello acknowledgement is not allowed"⟩
  | .operation op id viewer => do
      Tx.ensure (id ∉ s.requestIds) ⟨.request_mismatch, "request id was already used"⟩
      Tx.ensure (s.pendingSize < LIMITS.pendingRequestsPerConnection)
        ⟨.request_limit, "too many requests are pending"⟩
      Tx.ensure (∀ r ∈ s.pendingOperations.rows, r.2.viewerId ≠ viewer)
        ⟨.request_mismatch, "viewer already has an outstanding operation"⟩
      checkViewer op viewer
      remember id
      Tx.write (fun s => { s with pendingOperations := s.pendingOperations.put (id, ⟨op, viewer⟩) })
  | .mediaGet id route => do
      Tx.ensure (s.pendingSize < LIMITS.pendingRequestsPerConnection)
        ⟨.request_limit, "too many requests are pending"⟩
      Tx.ensure (route = avatarRoute → .identity ∈ s.negotiated)
        ⟨.capability_required, "identity avatar media requires identity.v1"⟩
      remember id
      Tx.write (fun s => { s with pendingMedia := insert id s.pendingMedia })
  | .consoleInput viewer _ =>
      Tx.ensure (viewer ∈ s.viewers) ⟨.request_mismatch, "viewer is not open"⟩
  | .error .. => pure ()

def isFatal : GatewayBody → Bool
  | .error _ fatal _ => fatal
  | _ => false

def receiveFrame (frame : GatewayFrame) : Method Unit := do
  let s ← Tx.read (fun s => s)
  Tx.ensure (s.terminal = false) ⟨.invalid_handshake, "session is terminal"⟩
  Tx.ofExcept (decodeGatewayFrame frame)
  Tx.ensure (frame.connectionId = s.connectionId) ⟨.connection_mismatch, "connection id changed"⟩
  Tx.ensure (frame.seq = s.nextSeq) ⟨.invalid_sequence, "gateway sequence is not contiguous"⟩
  match s.gatewayAck with
  | none =>
      match frame.body with
      | .error _ fatal _ => do
          Tx.ensure (fatal = true) ⟨.invalid_handshake, "pre-handshake error must be fatal"⟩
          advanceSequence
          Tx.write (fun s => { s with terminal := true })
      | .helloAck instance_ capabilities => do
          Tx.ensure (instance_ = s.instanceId)
            ⟨.instance_mismatch, "hello acknowledgement has the wrong instance id"⟩
          let expected := match s.gatewayCapabilities with
            | none => capabilities
            | some gateway => negotiateCapabilities s.offeredCapabilities gateway
          Tx.ensure ((∀ c ∈ capabilities, c ∈ s.offeredCapabilities) ∧ capabilities = expected)
            ⟨.invalid_handshake,
              "hello acknowledgement capabilities are not the exact negotiated intersection"⟩
          Tx.write (fun s => { s with gatewayAck := some frame, negotiated := capabilities })
          advanceSequence
      | _ => Tx.throw ⟨.invalid_handshake, "first gateway frame must be hello.ack"⟩
  | some _ => do
      requireCapability s.negotiated frame.body.type
      apply frame.body
      advanceSequence
      Tx.when (isFatal frame.body = true) (Tx.write (fun s => { s with terminal := true }))

def receive (frame : GatewayFrame) : Method Unit := do
  let outcome ← Tx.attempt (receiveFrame frame)
  match outcome with
  | .ok _ => pure ()
  | .error e => do
      Tx.write (fun s => { s with terminal := true })
      Tx.throw e

/-! ### What a successful call did -/

variable {s s' : ResidentInboundSession} {frame : GatewayFrame} {id viewer : String} {op : ViewerOperation}

/-- What a frame has to pass before it is applied. -/
structure Admits (s : ResidentInboundSession) (frame : GatewayFrame) : Prop where
  terminal : s.terminal = false
  decodes : decodeGatewayFrame frame = .ok ()
  connection : frame.connectionId = s.connectionId
  seq : frame.seq = s.nextSeq
  ack : s.gatewayAck ≠ none
  capable : ∀ c, needs frame.body.type = some c → c ∈ s.negotiated

theorem receive_of_apply (h : Admits s frame) (happly : apply frame.body s = (.ok (), s'))
    (hfatal : isFatal frame.body = false) : receive frame s = (.ok (), s'.advanced) := by
  have hframe : receiveFrame frame s = (.ok (), s'.advanced) := by
    obtain ⟨ack, hack⟩ := Option.ne_none_iff_exists'.mp h.ack
    simp only [receiveFrame, Tx.bind_ok, Tx.read_ok, Tx.ensure_ok, Tx.ofExcept_ok]
    refine ⟨s, s, ⟨rfl, rfl⟩, (), s, ⟨h.terminal, rfl⟩, (), s, ⟨h.decodes, rfl⟩, (), s, ⟨h.connection, rfl⟩,
      (), s, ⟨h.seq, rfl⟩, ?_⟩
    simp only [hack, Tx.bind_ok]
    refine ⟨(), s, requireCapability_of h.capable s, (), s', happly, (), _, rfl, ?_⟩
    exact Tx.when_ok.mpr (Or.inr ⟨by rw [hfatal]; exact Bool.false_ne_true, rfl⟩)
  have hattempt : Tx.attempt (receiveFrame frame) s = (.ok (.ok ()), s'.advanced) := by
    unfold Tx.attempt
    rw [hframe]
  unfold receive
  rw [Tx.bind_of_ok hattempt]
  rfl

theorem advanced_terminal (s : ResidentInboundSession) (h : s.advanced.terminal = false) :
    s.advanced = { s with nextSeq := s.nextSeq + 1 } := by
  unfold advanced at h ⊢
  split
  · rename_i hmax
    rw [if_pos hmax] at h
    cases h
  · rfl

theorem outboundAdvanced_terminal (s : ResidentInboundSession) (h : s.outboundAdvanced.terminal = false) :
    s.outboundAdvanced = { s with nextOutboundSeq := s.nextOutboundSeq + 1 } := by
  unfold outboundAdvanced at h ⊢
  split
  · rename_i hmax
    rw [if_pos hmax] at h
    cases h
  · rfl

/-- The history with the request id. -/
def withRequest (s : ResidentInboundSession) (id : String) : ResidentInboundSession :=
  { s with requestIds := (remembered s.requestIds s.requestOrder id).1,
           requestOrder := (remembered s.requestIds s.requestOrder id).2 }

theorem remember_new (h : id ∉ s.requestIds) : remember id s = (.ok (), s.withRequest id) := by
  simp only [remember, Tx.bind_ok, Tx.read_ok, Tx.ofExcept_ok, Tx.write_ok]
  exact ⟨s, s, ⟨rfl, rfl⟩, _, s, ⟨rememberRequest_new h, rfl⟩, rfl⟩

/-- What an operation asks of its viewer. -/
def Operable (s : ResidentInboundSession) (op : ViewerOperation) (viewer : String) : Prop :=
  match op with
  | .viewerOpen => viewer ∉ s.viewers ∧ s.viewers.card + s.opening < LIMITS.viewersPerConnection
  | _ => viewer ∈ s.viewers

theorem apply_operation (hnew : id ∉ s.requestIds) (hlimit : s.pendingSize < LIMITS.pendingRequestsPerConnection)
    (hfree : ∀ r ∈ s.pendingOperations.rows, r.2.viewerId ≠ viewer) (hviewer : s.Operable op viewer) :
    apply (.operation op id viewer) s = (.ok (), { s.withRequest id with
      pendingOperations := s.pendingOperations.put (id, ⟨op, viewer⟩) }) := by
  have hcheck : checkViewer op viewer s = (.ok (), s) := by
    simp only [checkViewer, Tx.bind_ok, Tx.read_ok]
    refine ⟨s, s, ⟨rfl, rfl⟩, ?_⟩
    cases op with
    | viewerOpen =>
        simp only [Tx.bind_ok, Tx.ensure_ok]
        exact ⟨(), s, ⟨hviewer.1, rfl⟩, hviewer.2, rfl⟩
    | viewerClose => exact Tx.ensure_ok.mpr ⟨hviewer, rfl⟩
    | viewerSnapshot => exact Tx.ensure_ok.mpr ⟨hviewer, rfl⟩
  simp only [apply, Tx.bind_ok, Tx.read_ok, Tx.ensure_ok, Tx.write_ok]
  exact ⟨s, s, ⟨rfl, rfl⟩, (), s, ⟨hnew, rfl⟩, (), s, ⟨hlimit, rfl⟩, (), s, ⟨hfree, rfl⟩, (), s, hcheck,
    (), _, remember_new hnew, rfl⟩

theorem apply_mediaGet {route : String} (hnew : id ∉ s.requestIds)
    (hlimit : s.pendingSize < LIMITS.pendingRequestsPerConnection)
    (hroute : route = avatarRoute → .identity ∈ s.negotiated) :
    apply (.mediaGet id route) s = (.ok (), { s.withRequest id with pendingMedia := insert id s.pendingMedia }) := by
  simp only [apply, Tx.bind_ok, Tx.read_ok, Tx.ensure_ok, Tx.write_ok]
  exact ⟨s, s, ⟨rfl, rfl⟩, (), s, ⟨hlimit, rfl⟩, (), s, ⟨hroute, rfl⟩, (), _, remember_new hnew, rfl⟩

theorem apply_consoleInput {payload : String} (h : viewer ∈ s.viewers) :
    apply (.consoleInput viewer payload) s = (.ok (), s) := by
  simp only [apply, Tx.bind_ok, Tx.read_ok, Tx.ensure_ok]
  exact ⟨s, s, ⟨rfl, rfl⟩, h, rfl⟩

section EmitOk

variable {hash : List UInt8 → String} {out : ResidentFrame}

/-- The frame is the one the session would send next. -/
structure Emitted (hash : List UInt8 → String) (s : ResidentInboundSession) (body : ResidentBody)
    (out : ResidentFrame) : Prop where
  terminal : s.terminal = false
  frame : out = ⟨s.connectionId, s.nextOutboundSeq, body⟩
  decodes : decodeResidentFrame hash out = .ok ()

theorem assertOutboundReady_ok {u : Unit} (h : assertOutboundReady s = (.ok u, s')) :
    s.terminal = false ∧ s' = s := by
  simp only [assertOutboundReady, Tx.bind_ok, Tx.read_ok, Tx.ensure_ok] at h
  obtain ⟨_, _, ⟨rfl, rfl⟩, _, _, ⟨hterminal, rfl⟩, _, rfl⟩ := h
  exact ⟨hterminal, rfl⟩

theorem enveloped_ok {body : ResidentBody} (h : enveloped hash body s = (.ok out, s')) :
    out = ⟨s.connectionId, s.nextOutboundSeq, body⟩ ∧ decodeResidentFrame hash out = .ok () ∧ s' = s := by
  simp only [enveloped, Tx.bind_ok, Tx.read_ok, Tx.ofExcept_ok, Tx.pure_ok] at h
  obtain ⟨_, _, ⟨rfl, rfl⟩, _, _, ⟨hdecode, rfl⟩, rfl, rfl⟩ := h
  exact ⟨rfl, hdecode, rfl⟩

/-- The viewers behind the result of an operation. -/
def viewersAfter (s : ResidentInboundSession) (viewer : String) (op : ViewerOperation)
    (e : Option ErrorDetail) : Finset String :=
  match op, e with
  | .viewerOpen, none => insert viewer s.viewers
  | .viewerClose, none => s.viewers.erase viewer
  | _, _ => s.viewers

theorem viewersAfter_other {e : Option ErrorDetail} (hopen : ¬(op = .viewerOpen ∧ e.isNone = true))
    (hclose : ¬(op = .viewerClose ∧ e.isNone = true)) : s.viewersAfter viewer op e = s.viewers := by
  unfold viewersAfter
  split
  · exact absurd ⟨rfl, rfl⟩ hopen
  · exact absurd ⟨rfl, rfl⟩ hclose
  · rfl

theorem operationResult_ok {e : Option ErrorDetail}
    (h : operationResult hash id viewer op e s = (.ok out, s')) :
    Emitted hash s (.operationResult id viewer op e) out ∧
      s.pendingOperations.get? id = some (id, ⟨op, viewer⟩) ∧
      s' = outboundAdvanced { s with pendingOperations := s.pendingOperations.erase id,
                                     viewers := s.viewersAfter viewer op e } := by
  simp only [operationResult, Tx.bind_ok, Tx.read_ok, Tx.ensure_ok, Tx.write_ok, Tx.pure_ok,
    advanceOutboundSequence] at h
  obtain ⟨_, _, hready, _, _, ⟨rfl, rfl⟩, _, _, ⟨hpending, rfl⟩, _, _, hframe, _, _, rfl, _, s₁, hopen, _, s₂,
    hclose, _, _, rfl, rfl, rfl⟩ := h
  obtain ⟨hterminal, rfl⟩ := assertOutboundReady_ok hready
  obtain ⟨hout, hdecode, rfl⟩ := enveloped_ok hframe
  refine ⟨⟨hterminal, hout, hdecode⟩, hpending, congrArg outboundAdvanced ?_⟩
  rw [Tx.when_ok] at hopen hclose
  simp only [Tx.write_ok] at hopen hclose
  rcases hopen with ⟨⟨rfl, he⟩, rfl⟩ | ⟨hno, rfl⟩ <;> rcases hclose with ⟨⟨hop, he'⟩, rfl⟩ | ⟨hno', rfl⟩
  · cases hop
  · rw [Option.isNone_iff_eq_none.mp he]
    rfl
  · rw [hop, Option.isNone_iff_eq_none.mp he']
    rfl
  · rw [viewersAfter_other hno hno']

theorem consoleOutput_ok {payload : String} (h : consoleOutput hash viewer payload s = (.ok out, s')) :
    Emitted hash s (.consoleOutput viewer payload) out ∧ viewer ∈ s.viewers ∧ s' = s.outboundAdvanced := by
  simp only [consoleOutput, Tx.bind_ok, Tx.read_ok, Tx.ensure_ok, Tx.write_ok, Tx.pure_ok,
    advanceOutboundSequence] at h
  obtain ⟨_, _, hready, _, _, ⟨rfl, rfl⟩, _, _, ⟨hviewer, rfl⟩, _, _, hframe, _, _, rfl, rfl, rfl⟩ := h
  obtain ⟨hterminal, rfl⟩ := assertOutboundReady_ok hready
  obtain ⟨hout, hdecode, rfl⟩ := enveloped_ok hframe
  exact ⟨⟨hterminal, hout, hdecode⟩, hviewer, rfl⟩

theorem mediaResult_ok {outcome : MediaOutcome} (h : mediaResult hash id outcome s = (.ok out, s')) :
    Emitted hash s (outcome.body id) out ∧ id ∈ s.pendingMedia ∧
      s' = outboundAdvanced { s with pendingMedia := s.pendingMedia.erase id } := by
  simp only [mediaResult, Tx.bind_ok, Tx.read_ok, Tx.ensure_ok, Tx.write_ok, Tx.pure_ok,
    advanceOutboundSequence] at h
  obtain ⟨_, _, hready, _, _, ⟨rfl, rfl⟩, _, _, ⟨hpending, rfl⟩, _, _, hframe, _, _, rfl, _, _, rfl, rfl, rfl⟩ := h
  obtain ⟨hterminal, rfl⟩ := assertOutboundReady_ok hready
  obtain ⟨hout, hdecode, rfl⟩ := enveloped_ok hframe
  exact ⟨⟨hterminal, hout, hdecode⟩, hpending, rfl⟩

end EmitOk

end ResidentInboundSession

end Elpis.Gateway.Protocol
