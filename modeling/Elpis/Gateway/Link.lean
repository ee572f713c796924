import Elpis.Gateway.Session
import Elpis.Lib.Run

/-!
# Two sessions and what is in flight between them

The gateway's session and the resident's, joined by a queue in each direction. The gateway
counts a request as pending, and a viewer as open, from its registration; the resident from
what it has received and answered. Every request that is pending at the gateway is in
exactly one place: on its way to the resident, pending there, or answered and on its way
back. Each viewer has at most one of them.
-/

namespace Elpis.Gateway.Protocol

open Elpis.Js Elpis.Lib

variable {hash : List UInt8 → String}

/-! ## The system -/

/-- `used` are the request ids that were registered on the connection. -/
structure Pair where
  gateway : GatewayInboundSession
  resident : ResidentInboundSession
  toResident : List GatewayFrame
  toGateway : List ResidentFrame
  nextOutboundSeq : ℕ
  used : List String

/-- What the gateway asks for. -/
inductive Ask where
  | operation (operation : ViewerOperation) (viewerId : String)
  | media (route : String)

def Ask.body (id : String) : Ask → GatewayBody
  | operation op viewer => .operation op id viewer
  | media route => .mediaGet id route

def Ask.pending : Ask → PendingRequest
  | operation op viewer => .operation op viewer
  | media _ => .media

inductive Event where
  | request (id : String) (ask : Ask)
  | residentReceives
  | operationResult (id viewer : String) (op : ViewerOperation) (error : Option ErrorDetail)
  | consoleOutput (viewer payload : String)
  | mediaResult (id : String) (outcome : MediaOutcome)
  | gatewayReceives

/-- What the resident's session built goes on its way. -/
def emit (y : Pair) (outcome : Except ProtocolError ResidentFrame × ResidentInboundSession) : Pair :=
  match outcome with
  | (.ok frame, resident) => { y with resident, toGateway := y.toGateway ++ [frame] }
  | (.error _, resident) => { y with resident }

/-- The next frame to the gateway. -/
def Pair.next (y : Pair) (body : GatewayBody) : GatewayFrame := ⟨y.gateway.connectionId, y.nextOutboundSeq, body⟩

/-- A request is encoded, registered and sent. -/
def request (y : Pair) (id : String) (ask : Ask) : Pair :=
  match decodeGatewayFrame (y.next (ask.body id)) with
  | .error _ => y
  | .ok _ =>
      match y.gateway.registerRequest y.gateway.connectionId id ask.pending with
      | (.error _, gateway) => { y with gateway }
      | (.ok _, gateway) =>
          { y with gateway, toResident := y.toResident ++ [y.next (ask.body id)],
                   nextOutboundSeq := y.nextOutboundSeq + 1, used := id :: y.used }

def step (hash : List UInt8 → String) (y : Pair) : Event → Pair
  | .request id ask => request y id ask
  | .residentReceives =>
      match y.toResident with
      | [] => y
      | frame :: rest => { y with resident := (y.resident.receive frame).2, toResident := rest }
  | .operationResult id viewer op e => emit y (y.resident.operationResult hash id viewer op e)
  | .consoleOutput viewer payload => emit y (y.resident.consoleOutput hash viewer payload)
  | .mediaResult id outcome => emit y (y.resident.mediaResult hash id outcome)
  | .gatewayReceives =>
      match y.toGateway with
      | [] => y
      | frame :: rest => { y with gateway := (y.gateway.receive hash frame).2, toGateway := rest }

/-! ## The invariant -/

/-- The request of a frame to the resident. -/
def requestOf (frame : GatewayFrame) : Option (String × PendingRequest) :=
  match frame.body with
  | .operation op id viewer => some (id, .operation op viewer)
  | .mediaGet id _ => some (id, .media)
  | _ => none

/-- The request that a frame from the resident answers. -/
def resultOf (frame : ResidentFrame) : Option (String × PendingRequest) :=
  match frame.body with
  | .operationResult id viewer op _ => some (id, .operation op viewer)
  | .mediaResult id _ _ _ _ => some (id, .media)
  | .mediaFailed id _ => some (id, .media)
  | _ => none

/-- What is pending at the resident, as the gateway keeps it. -/
noncomputable def residentPending (r : ResidentInboundSession) : List (String × PendingRequest) :=
  r.pendingOperations.rows.map (fun p => (p.1, .operation p.2.operation p.2.viewerId)) ++
    r.pendingMedia.toList.map (fun id => (id, .media))

/-- The result makes the gateway forget the viewer. -/
def Removes (viewer : String) (frame : ResidentFrame) : Prop :=
  ∃ id op e, frame.body = .operationResult id viewer op e ∧
    ((op = .viewerOpen ∧ e.isSome) ∨ (op = .viewerClose ∧ e.isNone))

/-- A frame that the gateway may send behind the handshake. -/
structure Sendable (connection : String) (negotiated : List Capability) (frame : GatewayFrame) : Prop where
  decodes : decodeGatewayFrame frame = .ok ()
  connection : frame.connectionId = connection
  capable : ∀ c, needs frame.body.type = some c → c ∈ negotiated
  kind : (∃ op id viewer, frame.body = .operation op id viewer) ∨
    (∃ id route, frame.body = .mediaGet id route ∧ (route = avatarRoute → .identity ∈ negotiated)) ∨
    ∃ viewer payload, frame.body = .consoleInput viewer payload

/-- A frame that the resident may send behind the handshake. -/
structure Emittable (hash : List UInt8 → String) (connection : String) (negotiated : List Capability)
    (frame : ResidentFrame) : Prop where
  decodes : decodeResidentFrame hash frame = .ok ()
  connection : frame.connectionId = connection
  capable : ∀ c, needs frame.body.type = some c → c ∈ negotiated
  kind : (∃ id viewer op e, frame.body = .operationResult id viewer op e) ∨
    (∃ viewer payload, frame.body = .consoleOutput viewer payload) ∨
    ∃ id outcome, frame.body = MediaOutcome.body id outcome

/-- The viewer of a request, as the resident sees it before it has answered. -/
def Waiting (r : ResidentInboundSession) : PendingRequest → Prop
  | .operation .viewerOpen viewer => viewer ∉ r.viewers
  | .operation _ viewer => viewer ∈ r.viewers
  | .media => True

/-- And behind its answer. -/
def Answered (r : ResidentInboundSession) (viewer : String) (op : ViewerOperation) (e : Option ErrorDetail) :
    Prop :=
  match op with
  | .viewerOpen => viewer ∈ r.viewers ↔ e.isNone
  | .viewerClose => viewer ∈ r.viewers ↔ e.isSome
  | .viewerSnapshot => viewer ∈ r.viewers

structure Inv (hash : List UInt8 → String) (y : Pair) : Prop where
  helloed : y.gateway.residentHello ≠ none
  acked : y.resident.gatewayAck ≠ none
  connection : y.resident.connectionId = y.gateway.connectionId
  negotiated : y.resident.negotiated = y.gateway.negotiated
  seqToResident : y.toResident.map GatewayFrame.seq = List.range' y.resident.nextSeq y.toResident.length
  outboundSeq : y.nextOutboundSeq = y.resident.nextSeq + y.toResident.length
  seqToGateway : y.toGateway.map ResidentFrame.seq = List.range' y.gateway.nextSeq y.toGateway.length
  residentSeq : y.resident.nextOutboundSeq = y.gateway.nextSeq + y.toGateway.length
  sendable : ∀ frame ∈ y.toResident, Sendable y.gateway.connectionId y.gateway.negotiated frame
  emittable : ∀ frame ∈ y.toGateway, Emittable hash y.gateway.connectionId y.gateway.negotiated frame
  /-- Every pending request is in one place. -/
  pending : y.gateway.pending.rows.Perm (y.toResident.filterMap requestOf ++ residentPending y.resident ++
    y.toGateway.filterMap resultOf)
  limit : y.gateway.pending.rows.length ≤ LIMITS.pendingRequestsPerConnection
  oneEach : ∀ a ∈ y.gateway.pending.rows, ∀ b ∈ y.gateway.pending.rows, ∀ viewer,
    a.2.viewerId = some viewer → b.2.viewerId = some viewer → a = b
  capable : ∀ r ∈ y.gateway.pending.rows, ∀ c, needs r.2.type = some c → c ∈ y.gateway.negotiated
  console : ∀ viewer ∈ y.gateway.viewers, .console ∈ y.gateway.negotiated
  room : y.gateway.viewers.card ≤ LIMITS.viewersPerConnection
  /-- A viewer with an operation is open at the gateway. -/
  busy : ∀ r ∈ y.gateway.pending.rows, ∀ viewer, r.2.viewerId = some viewer → viewer ∈ y.gateway.viewers
  /-- The two sides agree on every other viewer. -/
  settled : ∀ viewer, (∀ r ∈ y.gateway.pending.rows, r.2.viewerId ≠ some viewer) →
    (viewer ∈ y.gateway.viewers ↔ viewer ∈ y.resident.viewers)
  waiting : ∀ r ∈ y.toResident.filterMap requestOf ++ residentPending y.resident, Waiting y.resident r.2
  answered : ∀ frame ∈ y.toGateway, ∀ id viewer op e, frame.body = .operationResult id viewer op e →
    Answered y.resident viewer op e
  outputs : ∀ frame ∈ y.toGateway, ∀ viewer payload, frame.body = .consoleOutput viewer payload →
    viewer ∈ y.gateway.viewers
  outputsBefore : y.toGateway.Pairwise (fun x frame => ∀ viewer payload,
    frame.body = .consoleOutput viewer payload → ¬Removes viewer x)
  inputs : ∀ frame ∈ y.toResident, ∀ viewer payload, frame.body = .consoleInput viewer payload →
    viewer ∈ y.resident.viewers ∧ ∀ r ∈ y.resident.pendingOperations.rows, r.2.viewerId ≠ viewer
  inputsBefore : y.toResident.Pairwise (fun x frame => ∀ viewer payload,
    frame.body = .consoleInput viewer payload → ∀ op id, x.body ≠ .operation op id viewer)
  usedGateway : ∀ id ∈ y.gateway.requestIds, id ∈ y.used
  usedPending : ∀ r ∈ y.gateway.pending.rows, r.1 ∈ y.used
  usedResident : ∀ id ∈ y.resident.requestIds, id ∈ y.used
  fresh : ∀ r ∈ y.toResident.filterMap requestOf, r.1 ∉ y.resident.requestIds

namespace Inv

variable {y : Pair}

/-- A viewer that the resident has open is open at the gateway. -/
theorem viewers_subset (h : Inv hash y) {viewer : String} (hv : viewer ∈ y.resident.viewers) :
    viewer ∈ y.gateway.viewers := by
  by_cases hbusy : ∃ r ∈ y.gateway.pending.rows, r.2.viewerId = some viewer
  · obtain ⟨r, hr, hviewer⟩ := hbusy
    exact h.busy r hr viewer hviewer
  · refine (h.settled viewer ?_).mpr hv
    intro r hr hviewer
    exact hbusy ⟨r, hr, hviewer⟩

theorem mem_pending (h : Inv hash y) {r : String × PendingRequest} : r ∈ y.gateway.pending.rows ↔
    r ∈ y.toResident.filterMap requestOf ∨ r ∈ residentPending y.resident ∨
      r ∈ y.toGateway.filterMap resultOf := by
  rw [h.pending.mem_iff, List.mem_append, List.mem_append, or_assoc]

end Inv

/-! ## The gateway asks -/

section Request

variable {y : Pair} {id : String} {ask : Ask}

theorem requestOf_next : requestOf (y.next (ask.body id)) = some (id, ask.pending) := by
  cases ask with
  | operation op viewer => rfl
  | media route => rfl

theorem type_body : (ask.body id).type = ask.pending.type := by
  cases ask with
  | operation op viewer => rfl
  | media route => rfl

/-- The viewer of a new request, on both sides. -/
theorem waiting_of_registrable (h : Inv hash y) {request : PendingRequest}
    (hreg : y.gateway.Registrable request) : Waiting y.resident request := by
  cases request with
  | media => trivial
  | operation op viewer =>
      have hsettled := h.settled viewer hreg.1
      cases op with
      | viewerOpen => exact fun hv => hreg.2.1 (hsettled.mpr hv)
      | viewerClose => exact hsettled.mp hreg.2
      | viewerSnapshot => exact hsettled.mp hreg.2

theorem free_of_registrable {g : GatewayInboundSession} {request : PendingRequest} {viewer : String}
    (hreg : g.Registrable request) (hviewer : request.viewerId = some viewer) :
    ∀ r ∈ g.pending.rows, r.2.viewerId ≠ some viewer := by
  cases request with
  | media => cases hviewer
  | operation op v =>
      cases hviewer
      exact hreg.1

theorem mem_viewersWith {g : GatewayInboundSession} {request : PendingRequest} {viewer : String} :
    viewer ∈ g.viewersWith request ↔ viewer ∈ g.viewers ∨ request = .operation .viewerOpen viewer := by
  unfold GatewayInboundSession.viewersWith
  split
  · simp only [Finset.mem_insert, PendingRequest.operation.injEq, true_and]
    rw [or_comm, eq_comm]
  · rename_i hother
    refine ⟨Or.inl, ?_⟩
    rintro (hv | rfl)
    · exact hv
    · exact absurd rfl (hother viewer)

theorem registered_busy {g : GatewayInboundSession} {op : ViewerOperation} {viewer : String}
    (hreg : g.Registrable (.operation op viewer)) : viewer ∈ g.viewersWith (.operation op viewer) := by
  rw [mem_viewersWith]
  cases op with
  | viewerOpen => exact Or.inr rfl
  | viewerClose => exact Or.inl hreg.2
  | viewerSnapshot => exact Or.inl hreg.2

theorem registered_room {g : GatewayInboundSession} {request : PendingRequest} (hreg : g.Registrable request)
    (hroom : g.viewers.card ≤ LIMITS.viewersPerConnection) :
    (g.viewersWith request).card ≤ LIMITS.viewersPerConnection := by
  unfold GatewayInboundSession.viewersWith
  split
  · rename_i viewer
    rw [Finset.card_insert_of_notMem hreg.2.1]
    exact hreg.2.2
  · exact hroom

theorem inv_registered (h : Inv hash y) (hnew : id ∉ y.used)
    (hroute : ∀ route, ask = .media route → route = avatarRoute → .identity ∈ y.gateway.negotiated)
    (hdecode : decodeGatewayFrame (y.next (ask.body id)) = .ok ())
    (hlimit : y.gateway.pending.rows.length < LIMITS.pendingRequestsPerConnection)
    (hcapable : ∀ c, needs ask.pending.type = some c → c ∈ y.gateway.negotiated)
    (hreg : y.gateway.Registrable ask.pending) :
    Inv hash { y with gateway := y.gateway.registered id ask.pending,
                      toResident := y.toResident ++ [y.next (ask.body id)],
                      nextOutboundSeq := y.nextOutboundSeq + 1, used := id :: y.used } := by
  have hnone : y.gateway.pending.get? id = none := by
    refine Table.get?_eq_none.mpr ?_
    rintro r hr rfl
    exact hnew (h.usedPending r hr)
  have hrows : (y.gateway.pending.put (id, ask.pending)).rows = y.gateway.pending.rows ++ [(id, ask.pending)] :=
    Table.rows_put_of_none hnone
  have hmem : ∀ r, r ∈ (y.gateway.registered id ask.pending).pending.rows ↔
      r ∈ y.gateway.pending.rows ∨ r = (id, ask.pending) := by
    intro r
    show r ∈ (y.gateway.pending.put (id, ask.pending)).rows ↔ _
    rw [hrows, List.mem_append, List.mem_singleton]
  have hfilter : (y.toResident ++ [y.next (ask.body id)]).filterMap requestOf =
      y.toResident.filterMap requestOf ++ [(id, ask.pending)] := by
    rw [List.filterMap_append, List.filterMap_cons_some requestOf_next, List.filterMap_nil]
  constructor
  case helloed => exact h.helloed
  case acked => exact h.acked
  case connection => exact h.connection
  case negotiated => exact h.negotiated
  case seqToResident =>
    rw [List.map_append, h.seqToResident, List.length_append, List.length_singleton, List.range'_1_concat]
    show _ ++ [y.nextOutboundSeq] = _
    rw [h.outboundSeq]
  case outboundSeq =>
    show y.nextOutboundSeq + 1 = _
    rw [h.outboundSeq, List.length_append, List.length_singleton, Nat.add_assoc]
  case seqToGateway => exact h.seqToGateway
  case residentSeq => exact h.residentSeq
  case sendable =>
    intro frame hframe
    rcases List.mem_append.mp hframe with hframe | hframe
    · exact h.sendable frame hframe
    · obtain rfl := List.mem_singleton.mp hframe
      refine ⟨hdecode, rfl, ?_, ?_⟩
      · intro c hc
        exact hcapable c (type_body.symm ▸ hc)
      · cases ask with
        | operation op viewer => exact Or.inl ⟨op, id, viewer, rfl⟩
        | media route => exact Or.inr (Or.inl ⟨id, route, rfl, hroute route rfl⟩)
  case emittable => exact h.emittable
  case pending =>
    show (y.gateway.pending.put (id, ask.pending)).rows.Perm _
    rw [hrows, hfilter]
    have hperm := h.pending.append_right [(id, ask.pending)]
    refine hperm.trans ?_
    simp only [List.append_assoc]
    refine List.Perm.append_left _ ?_
    rw [← List.append_assoc]
    exact List.perm_append_comm
  case limit =>
    show (y.gateway.pending.put (id, ask.pending)).rows.length ≤ _
    rw [hrows, List.length_append, List.length_singleton]
    exact hlimit
  case oneEach =>
    intro a ha b hb viewer hva hvb
    rcases (hmem a).mp ha with ha | rfl <;> rcases (hmem b).mp hb with hb | rfl
    · exact h.oneEach a ha b hb viewer hva hvb
    · exact absurd hva (free_of_registrable hreg hvb a ha)
    · exact absurd hvb (free_of_registrable hreg hva b hb)
    · rfl
  case capable =>
    intro r hr
    rcases (hmem r).mp hr with hr | rfl
    · exact h.capable r hr
    · exact hcapable
  case console =>
    intro viewer hv
    rcases mem_viewersWith.mp hv with hv | hask
    · exact h.console viewer hv
    · exact hcapable .console (hask ▸ needs_operation .viewerOpen)
  case room => exact registered_room hreg h.room
  case busy =>
    intro r hr viewer hviewer
    rcases (hmem r).mp hr with hr | rfl
    · exact mem_viewersWith.mpr (Or.inl (h.busy r hr viewer hviewer))
    · cases hask : ask.pending with
      | media =>
          rw [hask] at hviewer
          cases hviewer
      | operation op v =>
          rw [hask] at hviewer hreg
          cases hviewer
          exact hask ▸ registered_busy hreg
  case settled =>
    intro viewer hfree
    have hold : ∀ r ∈ y.gateway.pending.rows, r.2.viewerId ≠ some viewer :=
      fun r hr => hfree r ((hmem r).mpr (Or.inl hr))
    have hself := hfree _ ((hmem _).mpr (Or.inr rfl))
    rw [← h.settled viewer hold]
    refine ⟨?_, fun hv => mem_viewersWith.mpr (Or.inl hv)⟩
    intro hv
    rcases mem_viewersWith.mp hv with hv | hask
    · exact hv
    · rw [hask] at hself
      exact absurd rfl hself
  case waiting =>
    intro r hr
    rw [hfilter, List.append_assoc, List.mem_append, List.mem_append, List.mem_singleton] at hr
    rcases hr with hr | rfl | hr
    · exact h.waiting r (List.mem_append_left _ hr)
    · exact waiting_of_registrable h hreg
    · exact h.waiting r (List.mem_append_right _ hr)
  case answered => exact h.answered
  case outputs =>
    intro frame hframe viewer payload hbody
    exact mem_viewersWith.mpr (Or.inl (h.outputs frame hframe viewer payload hbody))
  case outputsBefore => exact h.outputsBefore
  case inputs =>
    intro frame hframe viewer payload hbody
    rcases List.mem_append.mp hframe with hframe | hframe
    · exact h.inputs frame hframe viewer payload hbody
    · obtain rfl := List.mem_singleton.mp hframe
      exact absurd hbody (by cases ask <;> simp [Pair.next, Ask.body])
  case inputsBefore =>
    refine List.pairwise_append.mpr ⟨h.inputsBefore, List.pairwise_singleton _ _, ?_⟩
    intro x _ frame hframe viewer payload hbody
    obtain rfl := List.mem_singleton.mp hframe
    exact absurd hbody (by cases ask <;> simp [Pair.next, Ask.body])
  case usedGateway =>
    intro x hx
    rcases remembered_subset hx with rfl | hx
    · exact List.mem_cons_self
    · exact List.mem_cons_of_mem id (h.usedGateway x hx)
  case usedPending =>
    intro r hr
    rcases (hmem r).mp hr with hr | rfl
    · exact List.mem_cons_of_mem id (h.usedPending r hr)
    · exact List.mem_cons_self
  case usedResident => exact fun x hx => List.mem_cons_of_mem id (h.usedResident x hx)
  case fresh =>
    intro r hr
    rw [hfilter, List.mem_append, List.mem_singleton] at hr
    rcases hr with hr | rfl
    · exact h.fresh r hr
    · exact fun hin => hnew (h.usedResident id hin)

theorem inv_request (h : Inv hash y) (hnew : id ∉ y.used)
    (hroute : ∀ route, ask = .media route → route = avatarRoute → .identity ∈ y.gateway.negotiated) :
    Inv hash (request y id ask) := by
  unfold request
  split
  · exact h
  · rename_i hdecode
    split
    · rename_i e gateway hregister
      have hsame := (Tx.wp_iff.mp (GatewayInboundSession.registerRequest_refused y.gateway.connectionId id
        ask.pending y.gateway)).2 e gateway hregister
      rw [hsame]
      exact h
    · rename_i gateway hregister
      obtain ⟨⟨_, _, _, _, hlimit, hcapable, hreg⟩, rfl⟩ :=
        GatewayInboundSession.registerRequest_ok hregister
      exact inv_registered h hnew hroute hdecode hlimit hcapable hreg

end Request

/-! ## The resident receives -/

section ResidentReceives

variable {y : Pair} {frame : GatewayFrame} {rest : List GatewayFrame}

theorem Inv.nodup (h : Inv hash y) : ((y.toResident.filterMap requestOf ++ residentPending y.resident ++
    y.toGateway.filterMap resultOf).map Prod.fst).Nodup :=
  (h.pending.map Prod.fst).nodup_iff.mp y.gateway.pending.nodup

theorem length_residentPending (r : ResidentInboundSession) : (residentPending r).length = r.pendingSize := by
  simp [residentPending, ResidentInboundSession.pendingSize]

theorem mem_residentPending_operation {r : ResidentInboundSession} {p : String × PendingViewerOperation}
    (hp : p ∈ r.pendingOperations.rows) : (p.1, .operation p.2.operation p.2.viewerId) ∈ residentPending r :=
  List.mem_append_left _ (List.mem_map.mpr ⟨p, hp, rfl⟩)

/-- The request at the head of the queue, and where nothing else is. -/
structure Head (y : Pair) (x : String × PendingRequest) (rest : List GatewayFrame) : Prop where
  pending : x ∈ y.gateway.pending.rows
  waiting : Waiting y.resident x.2
  new : x.1 ∉ y.resident.requestIds
  limit : y.resident.pendingSize < LIMITS.pendingRequestsPerConnection
  notBehind : ∀ r ∈ rest.filterMap requestOf, r.1 ≠ x.1
  notPending : ∀ r ∈ residentPending y.resident, r.1 ≠ x.1

theorem Inv.head (h : Inv hash y) (hqueue : y.toResident = frame :: rest) {x : String × PendingRequest}
    (hx : requestOf frame = some x) : Head y x rest := by
  have hfilter : y.toResident.filterMap requestOf = x :: rest.filterMap requestOf := by
    rw [hqueue, List.filterMap_cons_some hx]
  have hin : x ∈ y.toResident.filterMap requestOf := by
    rw [hfilter]
    exact List.mem_cons_self
  have hnodup := h.nodup
  have hlength := h.pending.length_eq
  have hlimit := h.limit
  rw [hfilter] at hnodup hlength
  simp only [List.cons_append, List.map_cons, List.nodup_cons, List.map_append, List.mem_append,
    List.mem_map] at hnodup
  simp only [List.cons_append, List.length_cons, List.length_append, length_residentPending] at hlength
  constructor
  case pending => exact h.mem_pending.mpr (Or.inl hin)
  case waiting => exact h.waiting x (List.mem_append_left _ hin)
  case new => exact h.fresh x hin
  case limit => omega
  case notBehind => exact fun r hr heq => hnodup.1 (Or.inl (Or.inl ⟨r, hr, heq⟩))
  case notPending => exact fun r hr heq => hnodup.1 (Or.inl (Or.inr ⟨r, hr, heq⟩))

/-- The viewers that the resident has open or is opening, and one more, fit in the limit. -/
theorem opening_room (h : Inv hash y) {viewer : String} (hviewer : viewer ∈ y.gateway.viewers)
    (hclosed : viewer ∉ y.resident.viewers)
    (hfree : ∀ r ∈ y.resident.pendingOperations.rows, r.2.viewerId ≠ viewer) :
    y.resident.viewers.card + y.resident.opening < LIMITS.viewersPerConnection := by
  have hin : ∀ p ∈ y.resident.pendingOperations.rows,
      (p.1, PendingRequest.operation p.2.operation p.2.viewerId) ∈ y.gateway.pending.rows :=
    fun p hp => h.mem_pending.mpr (Or.inr (Or.inl (mem_residentPending_operation hp)))
  let opens := y.resident.pendingOperations.rows.filter (fun r => decide (r.2.operation = .viewerOpen))
  have hopens : ∀ p ∈ opens, p ∈ y.resident.pendingOperations.rows ∧ p.2.operation = .viewerOpen := by
    intro p hp
    simpa [opens] using hp
  have hnodup : (opens.map (fun p => p.2.viewerId)).Nodup := by
    have hsub : opens.Nodup :=
      (List.Nodup.of_map Prod.fst y.resident.pendingOperations.nodup).filter _
    refine (List.nodup_map_iff_inj_on hsub).mpr ?_
    intro p hp q hq hsame
    have heq := h.oneEach _ (hin p (hopens p hp).1) _ (hin q (hopens q hq).1) p.2.viewerId rfl
      (congrArg some hsame.symm)
    exact Table.eq_of_key (hopens p hp).1 (hopens q hq).1 (Prod.mk.inj heq).1
  have hnotOpen : ∀ v ∈ opens.map (fun p => p.2.viewerId), v ∉ y.resident.viewers := by
    intro v hv
    obtain ⟨p, hp, rfl⟩ := List.mem_map.mp hv
    have hwait := h.waiting _ (List.mem_append_right _ (mem_residentPending_operation (hopens p hp).1))
    rw [(hopens p hp).2] at hwait
    exact hwait
  let known := insert viewer (y.resident.viewers ∪ (opens.map (fun p => p.2.viewerId)).toFinset)
  have hknown : known ⊆ y.gateway.viewers := by
    intro v hv
    simp only [known, Finset.mem_insert, Finset.mem_union, List.mem_toFinset] at hv
    rcases hv with rfl | hv | hv
    · exact hviewer
    · exact h.viewers_subset hv
    · obtain ⟨p, hp, rfl⟩ := List.mem_map.mp hv
      exact h.busy _ (hin p (hopens p hp).1) _ rfl
  have hcard : known.card = y.resident.viewers.card + opens.length + 1 := by
    have hdisjoint : Disjoint y.resident.viewers (opens.map (fun p => p.2.viewerId)).toFinset := by
      refine Finset.disjoint_right.mpr ?_
      intro v hv
      exact hnotOpen v (List.mem_toFinset.mp hv)
    have hnot : viewer ∉ y.resident.viewers ∪ (opens.map (fun p => p.2.viewerId)).toFinset := by
      simp only [Finset.mem_union, List.mem_toFinset, List.mem_map, not_or]
      refine ⟨hclosed, ?_⟩
      rintro ⟨p, hp, hv⟩
      exact hfree p (hopens p hp).1 hv
    rw [Finset.card_insert_of_notMem hnot, Finset.card_union_of_disjoint hdisjoint,
      List.toFinset_card_of_nodup hnodup, List.length_map]
  have hle := (Finset.card_le_card hknown).trans h.room
  rw [hcard] at hle
  exact hle

/-- What the resident's session has behind a frame. -/
def taken (r : ResidentInboundSession) : GatewayBody → ResidentInboundSession
  | .operation op id viewer =>
      { r.withRequest id with pendingOperations := r.pendingOperations.put (id, ⟨op, viewer⟩) }
  | .mediaGet id _ => { r.withRequest id with pendingMedia := insert id r.pendingMedia }
  | _ => r

theorem resident_accepts (h : Inv hash y) (hterminal : y.resident.terminal = false)
    (hqueue : y.toResident = frame :: rest) :
    y.resident.receive frame = (.ok (), (taken y.resident frame.body).advanced) := by
  have hin : frame ∈ y.toResident := by
    rw [hqueue]
    exact List.mem_cons_self
  have hsendable := h.sendable frame hin
  have hadmits : y.resident.Admits frame := by
    constructor
    case terminal => exact hterminal
    case decodes => exact hsendable.decodes
    case connection => exact hsendable.connection.trans h.connection.symm
    case seq =>
      have hseq := h.seqToResident
      rw [hqueue, List.map_cons, List.length_cons, List.range'_succ, List.cons.injEq] at hseq
      exact hseq.1
    case ack => exact h.acked
    case capable =>
      rw [h.negotiated]
      exact hsendable.capable
  rcases hsendable.kind with ⟨op, id, viewer, hbody⟩ | ⟨id, route, hbody, hroute⟩ | ⟨viewer, payload, hbody⟩
  · have hhead := h.head hqueue (x := (id, .operation op viewer)) (by simp [requestOf, hbody])
    have hfree : ∀ r ∈ y.resident.pendingOperations.rows, r.2.viewerId ≠ viewer := by
      intro r hr hv
      have hr' := mem_residentPending_operation hr
      have heq := h.oneEach _ (h.mem_pending.mpr (Or.inr (Or.inl hr'))) _ hhead.pending viewer
        (congrArg some hv) rfl
      exact hhead.notPending _ hr' (congrArg Prod.fst heq)
    have hoperable : y.resident.Operable op viewer := by
      have hwait := hhead.waiting
      cases op with
      | viewerOpen => exact ⟨hwait, opening_room h (h.busy _ hhead.pending viewer rfl) hwait hfree⟩
      | viewerClose => exact hwait
      | viewerSnapshot => exact hwait
    refine ResidentInboundSession.receive_of_apply hadmits ?_ (by rw [hbody]; rfl)
    rw [hbody]
    exact ResidentInboundSession.apply_operation hhead.new hhead.limit hfree hoperable
  · have hhead := h.head hqueue (x := (id, .media)) (by simp [requestOf, hbody])
    refine ResidentInboundSession.receive_of_apply hadmits ?_ (by rw [hbody]; rfl)
    rw [hbody]
    refine ResidentInboundSession.apply_mediaGet hhead.new hhead.limit ?_
    rw [h.negotiated]
    exact hroute
  · refine ResidentInboundSession.receive_of_apply hadmits ?_ (by rw [hbody]; rfl)
    rw [hbody]
    exact ResidentInboundSession.apply_consoleInput (h.inputs frame hin viewer payload hbody).1

theorem taken_pending (h : Inv hash y) (hqueue : y.toResident = frame :: rest) :
    (y.toResident.filterMap requestOf ++ residentPending y.resident).Perm
      (rest.filterMap requestOf ++ residentPending (taken y.resident frame.body)) := by
  have hin : frame ∈ y.toResident := by
    rw [hqueue]
    exact List.mem_cons_self
  rcases (h.sendable frame hin).kind with ⟨op, id, viewer, hbody⟩ | ⟨id, route, hbody, _⟩ |
    ⟨viewer, payload, hbody⟩
  · have hx : requestOf frame = some (id, .operation op viewer) := by simp [requestOf, hbody]
    have hnone : y.resident.pendingOperations.get? id = none := by
      refine Table.get?_eq_none.mpr ?_
      intro p hp
      exact (h.head hqueue hx).notPending _ (mem_residentPending_operation hp)
    have hrows : (y.resident.pendingOperations.put (id, ⟨op, viewer⟩)).rows =
        y.resident.pendingOperations.rows ++ [(id, ⟨op, viewer⟩)] := Table.rows_put_of_none hnone
    rw [hqueue, List.filterMap_cons_some hx, hbody]
    unfold residentPending taken ResidentInboundSession.withRequest
    simp only [hrows, List.map_append, List.map_cons, List.map_nil, List.append_assoc, List.cons_append,
      List.nil_append]
    rw [← List.append_assoc, ← List.append_assoc]
    exact List.perm_middle.symm
  · have hx : requestOf frame = some (id, .media) := by simp [requestOf, hbody]
    have hnot : id ∉ y.resident.pendingMedia := by
      intro hid
      refine (h.head hqueue hx).notPending (id, .media) ?_ rfl
      exact List.mem_append_right _ (List.mem_map.mpr ⟨id, Finset.mem_toList.mpr hid, rfl⟩)
    rw [hqueue, List.filterMap_cons_some hx, hbody]
    unfold residentPending taken
    have hperm := (Finset.toList_insert hnot).map (fun id => (id, PendingRequest.media))
    simp only [List.cons_append, ← List.append_assoc]
    refine List.perm_middle.symm.trans ?_
    exact List.Perm.append_left _ hperm.symm
  · rw [hqueue, List.filterMap_cons_none (by simp [requestOf, hbody]), hbody]
    exact List.Perm.refl _

theorem taken_same (r : ResidentInboundSession) (body : GatewayBody) :
    (taken r body).connectionId = r.connectionId ∧ (taken r body).negotiated = r.negotiated ∧
      (taken r body).gatewayAck = r.gatewayAck ∧ (taken r body).nextSeq = r.nextSeq ∧
      (taken r body).nextOutboundSeq = r.nextOutboundSeq ∧ (taken r body).viewers = r.viewers ∧
      (taken r body).terminal = r.terminal := by
  cases body <;> exact ⟨rfl, rfl, rfl, rfl, rfl, rfl, rfl⟩

theorem taken_requestIds {r : ResidentInboundSession} {x : String} (hx : x ∈ (taken r frame.body).requestIds) :
    x ∈ r.requestIds ∨ ∃ p, requestOf frame = some (x, p) := by
  unfold taken at hx
  unfold requestOf
  split at hx
  · rename_i op id viewer hbody
    rcases remembered_subset hx with rfl | hx
    · exact Or.inr ⟨_, rfl⟩
    · exact Or.inl hx
  · rename_i id route hbody
    rcases remembered_subset hx with rfl | hx
    · exact Or.inr ⟨_, rfl⟩
    · exact Or.inl hx
  · exact Or.inl hx

theorem waiting_congr {r r' : ResidentInboundSession} (hviewers : r'.viewers = r.viewers)
    {request : PendingRequest} (h : Waiting r request) : Waiting r' request := by
  unfold Waiting at h ⊢
  rw [hviewers]
  exact h

theorem inv_taken (h : Inv hash y) (hqueue : y.toResident = frame :: rest) :
    Inv hash { y with resident := { taken y.resident frame.body with nextSeq := y.resident.nextSeq + 1 },
                      toResident := rest } := by
  obtain ⟨hconn, hneg, hack, _, hout, hviewers, _⟩ := taken_same y.resident frame.body
  have hperm := taken_pending h hqueue
  have hseq := h.seqToResident
  rw [hqueue, List.map_cons, List.length_cons, List.range'_succ, List.cons.injEq] at hseq
  have hbefore := h.inputsBefore
  rw [hqueue, List.pairwise_cons] at hbefore
  have hrest : ∀ x ∈ rest, x ∈ y.toResident := by
    intro x hx
    rw [hqueue]
    exact List.mem_cons_of_mem frame hx
  constructor
  case helloed => exact h.helloed
  case acked => exact hack ▸ h.acked
  case connection => exact hconn.trans h.connection
  case negotiated => exact hneg.trans h.negotiated
  case seqToResident => exact hseq.2
  case outboundSeq =>
    have hlen := h.outboundSeq
    rw [hqueue, List.length_cons] at hlen
    show y.nextOutboundSeq = y.resident.nextSeq + 1 + rest.length
    omega
  case seqToGateway => exact h.seqToGateway
  case residentSeq => exact hout.trans h.residentSeq
  case sendable => exact fun x hx => h.sendable x (hrest x hx)
  case emittable => exact h.emittable
  case pending => exact h.pending.trans (hperm.append_right _)
  case limit => exact h.limit
  case oneEach => exact h.oneEach
  case capable => exact h.capable
  case console => exact h.console
  case room => exact h.room
  case busy => exact h.busy
  case settled =>
    intro viewer hfree
    show _ ↔ viewer ∈ (taken y.resident frame.body).viewers
    rw [hviewers]
    exact h.settled viewer hfree
  case waiting =>
    intro r hr
    exact waiting_congr hviewers (h.waiting r (hperm.mem_iff.mpr hr))
  case answered =>
    intro x hx id viewer op e hbody
    have hanswered := h.answered x hx id viewer op e hbody
    unfold Answered at hanswered ⊢
    rw [show (taken y.resident frame.body).viewers = _ from hviewers]
    exact hanswered
  case outputs => exact h.outputs
  case outputsBefore => exact h.outputsBefore
  case inputs =>
    intro x hx viewer payload hbody
    obtain ⟨hopen, hfree⟩ := h.inputs x (hrest x hx) viewer payload hbody
    refine ⟨hviewers ▸ hopen, ?_⟩
    -- an operation on the viewer was sent behind the input
    have hbefore := hbefore.1 x hx viewer payload hbody
    intro r hr
    unfold taken at hr
    split at hr
    · rename_i op id v hframe
      rcases Table.mem_put.mp hr with rfl | ⟨hr, _⟩
      · rintro rfl
        exact hbefore op id hframe
      · exact hfree r hr
    · exact hfree r hr
    · exact hfree r hr
  case inputsBefore => exact hbefore.2
  case usedGateway => exact h.usedGateway
  case usedPending => exact h.usedPending
  case usedResident =>
    intro x hx
    rcases taken_requestIds hx with hx | ⟨p, hp⟩
    · exact h.usedResident x hx
    · exact h.usedPending (x, p) (h.head hqueue hp).pending
  case fresh =>
    intro r hr hin
    rcases taken_requestIds hin with hin | ⟨p, hp⟩
    · refine h.fresh r ?_ hin
      obtain ⟨x, hx, hr⟩ := List.mem_filterMap.mp hr
      exact List.mem_filterMap.mpr ⟨x, hrest x hx, hr⟩
    · exact (h.head hqueue hp).notBehind r hr rfl

end ResidentReceives

/-! ## The resident emits -/

section Emit

variable {y : Pair} {r' : ResidentInboundSession} {out : ResidentFrame} {body : ResidentBody}

/-- What an emission leaves alone. -/
structure Kept (r r' : ResidentInboundSession) : Prop where
  connectionId : r'.connectionId = r.connectionId
  negotiated : r'.negotiated = r.negotiated
  gatewayAck : r'.gatewayAck = r.gatewayAck
  nextSeq : r'.nextSeq = r.nextSeq
  nextOutboundSeq : r'.nextOutboundSeq = r.nextOutboundSeq + 1
  requestIds : r'.requestIds = r.requestIds
  pendingOperations : ∀ p ∈ r'.pendingOperations.rows, p ∈ r.pendingOperations.rows

theorem inv_emitted (h : Inv hash y) (hkept : Kept y.resident r')
    (hemitted : y.resident.Emitted hash body out)
    (hcapable : ∀ c, needs body.type = some c → c ∈ y.gateway.negotiated)
    (hkind : (∃ id viewer op e, body = .operationResult id viewer op e) ∨
      (∃ viewer payload, body = .consoleOutput viewer payload) ∨ ∃ id outcome, body = MediaOutcome.body id outcome)
    (hperm : (residentPending y.resident).Perm (residentPending r' ++ (resultOf out).toList))
    (hsettled : ∀ viewer, (∀ r ∈ y.gateway.pending.rows, r.2.viewerId ≠ some viewer) →
      (viewer ∈ r'.viewers ↔ viewer ∈ y.resident.viewers))
    (hwaiting : ∀ r ∈ y.toResident.filterMap requestOf ++ residentPending r', Waiting r' r.2)
    (hanswered : ∀ frame ∈ y.toGateway ++ [out], ∀ id viewer op e,
      frame.body = .operationResult id viewer op e → Answered r' viewer op e)
    (houtput : ∀ viewer payload, body = .consoleOutput viewer payload →
      viewer ∈ y.gateway.viewers ∧ ∀ x ∈ y.toGateway, ¬Removes viewer x)
    (hinputs : ∀ frame ∈ y.toResident, ∀ viewer payload, frame.body = .consoleInput viewer payload →
      viewer ∈ r'.viewers) :
    Inv hash { y with resident := r', toGateway := y.toGateway ++ [out] } := by
  have hframe := hemitted.frame
  have hbody : out.body = body := by rw [hframe]
  have hresults : (y.toGateway ++ [out]).filterMap resultOf =
      y.toGateway.filterMap resultOf ++ (resultOf out).toList := by
    rw [List.filterMap_append]
    cases hresult : resultOf out with
    | none => simp [hresult]
    | some x => simp [hresult]
  constructor
  case helloed => exact h.helloed
  case acked => exact hkept.gatewayAck ▸ h.acked
  case connection => exact hkept.connectionId.trans h.connection
  case negotiated => exact hkept.negotiated.trans h.negotiated
  case seqToResident =>
    show _ = List.range' r'.nextSeq _
    rw [hkept.nextSeq]
    exact h.seqToResident
  case outboundSeq =>
    show _ = r'.nextSeq + _
    rw [hkept.nextSeq]
    exact h.outboundSeq
  case seqToGateway =>
    rw [List.map_append, h.seqToGateway, List.length_append, List.length_singleton, List.range'_1_concat,
      List.map_singleton, hframe, h.residentSeq]
  case residentSeq =>
    show r'.nextOutboundSeq = _
    rw [hkept.nextOutboundSeq, h.residentSeq, List.length_append, List.length_singleton, Nat.add_assoc]
  case sendable => exact h.sendable
  case emittable =>
    intro frame hin
    rcases List.mem_append.mp hin with hin | hin
    · exact h.emittable frame hin
    · obtain rfl := List.mem_singleton.mp hin
      refine ⟨hemitted.decodes, ?_, ?_, ?_⟩
      · rw [hframe]
        exact h.connection
      · rw [hbody]
        exact hcapable
      · rw [hbody]
        exact hkind
  case pending =>
    rw [hresults]
    refine h.pending.trans ?_
    simp only [List.append_assoc]
    refine List.Perm.append_left _ ?_
    refine (hperm.append_right _).trans ?_
    rw [List.append_assoc]
    exact List.Perm.append_left _ List.perm_append_comm
  case limit => exact h.limit
  case oneEach => exact h.oneEach
  case capable => exact h.capable
  case console => exact h.console
  case room => exact h.room
  case busy => exact h.busy
  case settled =>
    intro viewer hfree
    exact (h.settled viewer hfree).trans (hsettled viewer hfree).symm
  case waiting => exact hwaiting
  case answered => exact hanswered
  case outputs =>
    intro frame hin viewer payload hconsole
    rcases List.mem_append.mp hin with hin | hin
    · exact h.outputs frame hin viewer payload hconsole
    · obtain rfl := List.mem_singleton.mp hin
      exact (houtput viewer payload (hbody ▸ hconsole)).1
  case outputsBefore =>
    refine List.pairwise_append.mpr ⟨h.outputsBefore, List.pairwise_singleton _ _, ?_⟩
    intro x hx frame hin viewer payload hconsole
    obtain rfl := List.mem_singleton.mp hin
    exact (houtput viewer payload (hbody ▸ hconsole)).2 x hx
  case inputs =>
    intro frame hin viewer payload hinput
    refine ⟨hinputs frame hin viewer payload hinput, ?_⟩
    intro p hp
    exact (h.inputs frame hin viewer payload hinput).2 p (hkept.pendingOperations p hp)
  case inputsBefore => exact h.inputsBefore
  case usedGateway => exact h.usedGateway
  case usedPending => exact h.usedPending
  case usedResident =>
    intro id hid
    exact h.usedResident id (hkept.requestIds ▸ hid)
  case fresh =>
    intro r hr hin
    exact h.fresh r hr (hkept.requestIds ▸ hin)

theorem mem_viewersAfter_ne {r : ResidentInboundSession} {viewer v : String} {op : ViewerOperation}
    {e : Option ErrorDetail} (hne : v ≠ viewer) : v ∈ r.viewersAfter viewer op e ↔ v ∈ r.viewers := by
  unfold ResidentInboundSession.viewersAfter
  split
  · simp [hne]
  · simp [hne]
  · exact Iff.rfl

theorem answered_viewersAfter {r : ResidentInboundSession} {viewer : String} {op : ViewerOperation}
    (e : Option ErrorDetail) (h : Waiting r (.operation op viewer)) (hr : r'.viewers = r.viewersAfter viewer op e) :
    Answered r' viewer op e := by
  unfold Answered
  rw [hr]
  cases op with
  | viewerOpen =>
      have h : viewer ∉ r.viewers := h
      cases e with
      | none => simp [ResidentInboundSession.viewersAfter]
      | some detail => simp [ResidentInboundSession.viewersAfter, h]
  | viewerClose =>
      have h : viewer ∈ r.viewers := h
      cases e with
      | none => simp [ResidentInboundSession.viewersAfter]
      | some detail => simp [ResidentInboundSession.viewersAfter, h]
  | viewerSnapshot => exact h

theorem waiting_of_ne {r : ResidentInboundSession} {viewer : String} {op : ViewerOperation}
    {e : Option ErrorDetail} (hr : r'.viewers = r.viewersAfter viewer op e) {request : PendingRequest}
    (hne : request.viewerId ≠ some viewer) (h : Waiting r request) : Waiting r' request := by
  cases request with
  | media => trivial
  | operation op' v =>
      have hsame : v ∈ r'.viewers ↔ v ∈ r.viewers := by
        rw [hr]
        exact mem_viewersAfter_ne (fun heq => hne (congrArg some heq))
      cases op' with
      | viewerOpen => exact fun hin => h (hsame.mp hin)
      | viewerClose => exact hsame.mpr h
      | viewerSnapshot => exact hsame.mpr h

/-- The operation that is answered is the only one on its viewer. -/
theorem only_operation (h : Inv hash y) {id viewer : String} {op : ViewerOperation}
    (hpending : (id, ⟨op, viewer⟩) ∈ y.resident.pendingOperations.rows) {x : String × PendingRequest}
    (hx : x ∈ y.gateway.pending.rows) (hviewer : x.2.viewerId = some viewer) :
    x = (id, .operation op viewer) :=
  h.oneEach x hx (id, .operation op viewer)
    (h.mem_pending.mpr (Or.inr (Or.inl (mem_residentPending_operation hpending)))) viewer hviewer rfl

theorem inv_operationResult (h : Inv hash y) {id viewer : String} {op : ViewerOperation} {e : Option ErrorDetail}
    (hemitted : y.resident.Emitted hash (.operationResult id viewer op e) out)
    (hpending : (id, ⟨op, viewer⟩) ∈ y.resident.pendingOperations.rows)
    (hr' : r' = { y.resident with pendingOperations := y.resident.pendingOperations.erase id,
                                  viewers := y.resident.viewersAfter viewer op e,
                                  nextOutboundSeq := y.resident.nextOutboundSeq + 1 }) :
    Inv hash { y with resident := r', toGateway := y.toGateway ++ [out] } := by
  have hviewers : r'.viewers = y.resident.viewersAfter viewer op e := by rw [hr']
  have hmem := mem_residentPending_operation hpending
  have hin : (id, PendingRequest.operation op viewer) ∈ y.gateway.pending.rows :=
    h.mem_pending.mpr (Or.inr (Or.inl hmem))
  have hresult : resultOf out = some (id, .operation op viewer) := by
    rw [hemitted.frame]
    rfl
  have hperm : (residentPending y.resident).Perm (residentPending r' ++ [(id, .operation op viewer)]) := by
    obtain ⟨l, l', hsplit⟩ := List.append_of_mem hpending
    have hrows : y.resident.pendingOperations.rows.Perm ((id, ⟨op, viewer⟩) :: (l ++ l')) := by
      rw [hsplit]
      exact List.perm_middle
    have herase : r'.pendingOperations.rows.Perm (l ++ l') := by
      rw [hr']
      exact Table.perm_delete hrows
    have hmedia : r'.pendingMedia = y.resident.pendingMedia := by rw [hr']
    unfold residentPending
    rw [hmedia]
    have hmapped := (hrows.trans (herase.symm.cons _)).map
      (fun p => (p.1, PendingRequest.operation p.2.operation p.2.viewerId))
    exact (hmapped.append_right _).trans (List.perm_append_singleton _ _).symm
  have hall : y.gateway.pending.rows.Perm ((id, .operation op viewer) ::
      (y.toResident.filterMap requestOf ++ residentPending r' ++ y.toGateway.filterMap resultOf)) :=
    h.pending.trans ((((hperm.trans (List.perm_append_singleton _ _)).append_left _).trans
      List.perm_middle).append_right _)
  -- all other requests are on other viewers
  have hother : ∀ x ∈ y.toResident.filterMap requestOf ++ residentPending r' ++
      y.toGateway.filterMap resultOf, x.2.viewerId ≠ some viewer := by
    have hkeys := (hall.map Prod.fst).nodup_iff.mp y.gateway.pending.nodup
    intro x hx hviewer
    obtain rfl := only_operation h hpending (hall.mem_iff.mpr (List.mem_cons_of_mem _ hx)) hviewer
    exact (List.nodup_cons.mp hkeys).1 (List.mem_map.mpr ⟨_, hx, rfl⟩)
  refine inv_emitted h ?_ hemitted ?_ (Or.inl ⟨id, viewer, op, e, rfl⟩) ?_ ?_ ?_ ?_ ?_ ?_
  · subst hr'
    refine ⟨rfl, rfl, rfl, rfl, rfl, rfl, ?_⟩
    intro p hp
    exact (Table.mem_delete.mp hp).1
  · intro c hc
    exact h.capable _ hin c ((needs_operation op).trans (needs_operationResult.symm.trans hc))
  · rw [hresult]
    exact hperm
  · intro v hfree
    rw [hviewers]
    exact mem_viewersAfter_ne (fun heq => hfree _ hin (congrArg some heq.symm))
  · intro x hx
    refine waiting_of_ne hviewers (hother x (List.mem_append_left _ hx)) (h.waiting x ?_)
    rcases List.mem_append.mp hx with hx | hx
    · exact List.mem_append_left _ hx
    · exact List.mem_append_right _ (hperm.mem_iff.mpr (List.mem_append_left _ hx))
  · intro frame hframe id' viewer' op' e' hbody
    rcases List.mem_append.mp hframe with hframe | hframe
    · have hx : (id', PendingRequest.operation op' viewer') ∈ y.toGateway.filterMap resultOf :=
        List.mem_filterMap.mpr ⟨frame, hframe, by simp [resultOf, hbody]⟩
      have hne : viewer' ≠ viewer :=
        fun heq => hother _ (List.mem_append_right _ hx) (congrArg some heq)
      have hanswered := h.answered frame hframe id' viewer' op' e' hbody
      unfold Answered at hanswered ⊢
      rw [hviewers, mem_viewersAfter_ne hne]
      exact hanswered
    · obtain rfl := List.mem_singleton.mp hframe
      rw [hemitted.frame] at hbody
      cases hbody
      exact answered_viewersAfter e (h.waiting _ (List.mem_append_right _ hmem)) hviewers
  · intro v payload hbody
    cases hbody
  · intro frame hframe v payload hbody
    obtain ⟨hopen, hfree⟩ := h.inputs frame hframe v payload hbody
    rw [hviewers]
    exact (mem_viewersAfter_ne (fun heq => hfree _ hpending heq.symm)).mpr hopen

theorem inv_consoleOutput (h : Inv hash y) {viewer payload : String}
    (hemitted : y.resident.Emitted hash (.consoleOutput viewer payload) out)
    (hviewer : viewer ∈ y.resident.viewers) :
    Inv hash { y with resident := { y.resident with nextOutboundSeq := y.resident.nextOutboundSeq + 1 },
                      toGateway := y.toGateway ++ [out] } := by
  have hbody : out.body = .consoleOutput viewer payload := by rw [hemitted.frame]
  have hopen := h.viewers_subset hviewer
  refine inv_emitted h ?_ hemitted ?_ (Or.inr (Or.inl ⟨viewer, payload, rfl⟩)) ?_ ?_ ?_ ?_ ?_ ?_
  · exact ⟨rfl, rfl, rfl, rfl, rfl, rfl, fun p hp => hp⟩
  · intro c hc
    obtain rfl : Capability.console = c := Option.some.inj (needs_console.2.symm.trans hc)
    exact h.console viewer hopen
  · simp [resultOf, hbody, residentPending]
  · exact fun v _ => Iff.rfl
  · exact h.waiting
  · intro frame hframe id v op e hresult
    rcases List.mem_append.mp hframe with hframe | hframe
    · exact h.answered frame hframe id v op e hresult
    · obtain rfl := List.mem_singleton.mp hframe
      rw [hbody] at hresult
      cases hresult
  · intro v p hconsole
    cases hconsole
    refine ⟨hopen, ?_⟩
    -- a result that removes the viewer would have removed it at the resident
    rintro x hx ⟨id, op, e, hresult, hremoves⟩
    have hanswered := h.answered x hx id viewer op e hresult
    rcases hremoves with ⟨rfl, he⟩ | ⟨rfl, he⟩
    · have hnone := hanswered.mp hviewer
      cases e <;> cases he
      cases hnone
    · have hsome := hanswered.mp hviewer
      cases e <;> cases he
      cases hsome
  · intro frame hframe v p hinput
    exact (h.inputs frame hframe v p hinput).1

theorem resultOf_outcome {frame : ResidentFrame} {id : String} {outcome : MediaOutcome}
    (h : frame.body = outcome.body id) : resultOf frame = some (id, .media) := by
  unfold resultOf
  rw [h]
  cases outcome with
  | ok mediaType byteLength sha256 data => rfl
  | failed e => rfl

theorem outcome_ne_operationResult {id id' viewer : String} {op : ViewerOperation} {e : Option ErrorDetail}
    {outcome : MediaOutcome} : outcome.body id ≠ .operationResult id' viewer op e := by
  cases outcome <;> simp [MediaOutcome.body]

theorem outcome_ne_consoleOutput {id viewer payload : String} {outcome : MediaOutcome} :
    outcome.body id ≠ .consoleOutput viewer payload := by
  cases outcome <;> simp [MediaOutcome.body]

theorem outcome_type {id : String} {outcome : MediaOutcome} : (outcome.body id).type = "media.result" := by
  cases outcome <;> rfl

theorem inv_mediaResult (h : Inv hash y) {id : String} {outcome : MediaOutcome}
    (hemitted : y.resident.Emitted hash (outcome.body id) out) (hpending : id ∈ y.resident.pendingMedia) :
    Inv hash { y with resident := { y.resident with pendingMedia := y.resident.pendingMedia.erase id,
                                                    nextOutboundSeq := y.resident.nextOutboundSeq + 1 },
                      toGateway := y.toGateway ++ [out] } := by
  have hbody : out.body = outcome.body id := by rw [hemitted.frame]
  have hin : (id, PendingRequest.media) ∈ residentPending y.resident :=
    List.mem_append_right _ (List.mem_map.mpr ⟨id, Finset.mem_toList.mpr hpending, rfl⟩)
  have hlist : y.resident.pendingMedia.toList.Perm (id :: (y.resident.pendingMedia.erase id).toList) := by
    have hperm := Finset.toList_insert (Finset.notMem_erase id y.resident.pendingMedia)
    rw [Finset.insert_erase hpending] at hperm
    exact hperm
  have hperm : (residentPending y.resident).Perm (residentPending { y.resident with
      pendingMedia := y.resident.pendingMedia.erase id,
      nextOutboundSeq := y.resident.nextOutboundSeq + 1 } ++ [(id, .media)]) := by
    unfold residentPending
    rw [List.append_assoc]
    refine List.Perm.append_left _ ?_
    exact (hlist.map (fun id => (id, PendingRequest.media))).trans (List.perm_append_singleton _ _).symm
  refine inv_emitted h ?_ hemitted ?_ (Or.inr (Or.inr ⟨id, outcome, rfl⟩)) ?_ ?_ ?_ ?_ ?_ ?_
  · exact ⟨rfl, rfl, rfl, rfl, rfl, rfl, fun p hp => hp⟩
  · intro c hc
    rw [outcome_type] at hc
    exact h.capable _ (h.mem_pending.mpr (Or.inr (Or.inl hin))) c (needs_media.1.trans (needs_media.2.symm.trans hc))
  · rw [resultOf_outcome hbody]
    exact hperm
  · exact fun v _ => Iff.rfl
  · intro r hr
    refine h.waiting r ?_
    rcases List.mem_append.mp hr with hr | hr
    · exact List.mem_append_left _ hr
    · exact List.mem_append_right _ (hperm.mem_iff.mpr (List.mem_append_left _ hr))
  · intro frame hframe id' v op e hresult
    rcases List.mem_append.mp hframe with hframe | hframe
    · exact h.answered frame hframe id' v op e hresult
    · obtain rfl := List.mem_singleton.mp hframe
      exact absurd (hbody.symm.trans hresult) outcome_ne_operationResult
  · exact fun v p hconsole => absurd hconsole outcome_ne_consoleOutput
  · intro frame hframe v p hinput
    exact (h.inputs frame hframe v p hinput).1

end Emit

end Elpis.Gateway.Protocol
