import Elpis.Gateway.Link

/-!
# Every run of a resident link

The gateway takes what the resident sent. With the other steps this keeps the invariant for
as long as neither session is terminal; only the last safe integer makes one so. So no
frame is rejected, and when nothing is under way the two sides have the same viewers.
-/

namespace Elpis.Gateway.Protocol

open Elpis.Js Elpis.Lib

variable {hash : List UInt8 → String} {y : Pair}

/-! ## The gateway receives -/

section GatewayReceives

variable {frame : ResidentFrame} {rest : List ResidentFrame} {g' : GatewayInboundSession}

theorem Inv.gateway_admits (h : Inv hash y) (hterminal : y.gateway.terminal = false)
    (hqueue : y.toGateway = frame :: rest) : y.gateway.Admits hash frame := by
  have hemittable := h.emittable frame (by rw [hqueue]; exact List.mem_cons_self)
  constructor
  case terminal => exact hterminal
  case decodes => exact hemittable.decodes
  case connection => exact hemittable.connection
  case seq =>
    have hseq := h.seqToGateway
    rw [hqueue, List.map_cons, List.length_cons, List.range'_succ, List.cons.injEq] at hseq
    exact hseq.1
  case hello => exact h.helloed
  case capable => exact hemittable.capable

/-- The gateway's session behind a frame, less the sequence. -/
def received (g : GatewayInboundSession) : ResidentBody → GatewayInboundSession
  | .operationResult id viewer op e =>
      { g with pending := g.pending.erase id, viewers := g.viewersAfter viewer op e }
  | .mediaResult id _ _ _ _ => { g with pending := g.pending.erase id }
  | .mediaFailed id _ => { g with pending := g.pending.erase id }
  | _ => g

theorem received_outcome (g : GatewayInboundSession) (id : String) (outcome : MediaOutcome) :
    received g (outcome.body id) = { g with pending := g.pending.erase id } := by
  cases outcome with
  | ok mediaType byteLength sha256 data => rfl
  | failed e => rfl

theorem gateway_accepts (h : Inv hash y) (hterminal : y.gateway.terminal = false)
    (hqueue : y.toGateway = frame :: rest) :
    y.gateway.receive hash frame = (.ok (), (received y.gateway frame.body).advanced) := by
  have hin : frame ∈ y.toGateway := by
    rw [hqueue]
    exact List.mem_cons_self
  have hpending : ∀ x, resultOf frame = some x → y.gateway.pending.get? x.1 = some x := by
    intro x hx
    refine Table.get?_eq_some.mpr ⟨h.mem_pending.mpr (Or.inr (Or.inr ?_)), rfl⟩
    exact List.mem_filterMap.mpr ⟨frame, hin, hx⟩
  have hadmits := h.gateway_admits hterminal hqueue
  rcases (h.emittable frame hin).kind with ⟨id, viewer, op, e, hbody⟩ | ⟨viewer, payload, hbody⟩ |
    ⟨id, outcome, hbody⟩
  · refine GatewayInboundSession.receive_of_apply hadmits ?_ (by rw [hbody]; rfl)
    rw [hbody]
    exact GatewayInboundSession.apply_operationResult
      (hpending (id, .operation op viewer) (by simp [resultOf, hbody]))
  · refine GatewayInboundSession.receive_of_apply hadmits ?_ (by rw [hbody]; rfl)
    rw [hbody]
    exact GatewayInboundSession.apply_consoleOutput (h.outputs frame hin viewer payload hbody)
  · refine GatewayInboundSession.receive_of_apply hadmits ?_ (by rw [hbody]; cases outcome <;> rfl)
    rw [hbody, received_outcome]
    exact GatewayInboundSession.apply_mediaResult outcome (hpending (id, .media) (resultOf_outcome hbody))

/-- What the gateway leaves alone when it takes a frame. -/
structure Held (g g' : GatewayInboundSession) : Prop where
  connectionId : g'.connectionId = g.connectionId
  negotiated : g'.negotiated = g.negotiated
  residentHello : g'.residentHello = g.residentHello
  nextSeq : g'.nextSeq = g.nextSeq + 1
  requestIds : g'.requestIds = g.requestIds
  viewers : ∀ viewer ∈ g'.viewers, viewer ∈ g.viewers
  pending : ∀ r ∈ g'.pending.rows, r ∈ g.pending.rows

theorem inv_received (h : Inv hash y) (hqueue : y.toGateway = frame :: rest) (hheld : Held y.gateway g')
    (hperm : g'.pending.rows.Perm (y.toResident.filterMap requestOf ++ residentPending y.resident ++
      rest.filterMap resultOf))
    (hbusy : ∀ r ∈ g'.pending.rows, ∀ viewer, r.2.viewerId = some viewer → viewer ∈ g'.viewers)
    (hsettled : ∀ viewer, (∀ r ∈ g'.pending.rows, r.2.viewerId ≠ some viewer) →
      (viewer ∈ g'.viewers ↔ viewer ∈ y.resident.viewers))
    (hkeeps : ∀ viewer ∈ y.gateway.viewers, ¬Removes viewer frame → viewer ∈ g'.viewers) :
    Inv hash { y with gateway := g', toGateway := rest } := by
  have hrest : ∀ x ∈ rest, x ∈ y.toGateway := by
    intro x hx
    rw [hqueue]
    exact List.mem_cons_of_mem frame hx
  have hseq := h.seqToGateway
  rw [hqueue, List.map_cons, List.length_cons, List.range'_succ, List.cons.injEq] at hseq
  have hbefore := h.outputsBefore
  rw [hqueue, List.pairwise_cons] at hbefore
  constructor
  case helloed => exact hheld.residentHello ▸ h.helloed
  case acked => exact h.acked
  case connection => exact h.connection.trans hheld.connectionId.symm
  case negotiated => exact h.negotiated.trans hheld.negotiated.symm
  case seqToResident => exact h.seqToResident
  case outboundSeq => exact h.outboundSeq
  case seqToGateway =>
    show _ = List.range' g'.nextSeq _
    rw [hheld.nextSeq]
    exact hseq.2
  case residentSeq =>
    have hlen := h.residentSeq
    rw [hqueue, List.length_cons] at hlen
    show y.resident.nextOutboundSeq = g'.nextSeq + rest.length
    rw [hheld.nextSeq]
    omega
  case sendable =>
    show ∀ x ∈ _, Sendable g'.connectionId g'.negotiated x
    rw [hheld.connectionId, hheld.negotiated]
    exact h.sendable
  case emittable =>
    show ∀ x ∈ _, Emittable hash g'.connectionId g'.negotiated x
    rw [hheld.connectionId, hheld.negotiated]
    exact fun x hx => h.emittable x (hrest x hx)
  case pending => exact hperm
  case limit =>
    have hlen := hperm.length_eq
    have hlen' := h.pending.length_eq
    have hlimit := h.limit
    have hfilter : (rest.filterMap resultOf).length ≤ (y.toGateway.filterMap resultOf).length := by
      rw [hqueue]
      cases hresult : resultOf frame with
      | none => rw [List.filterMap_cons_none hresult]
      | some x =>
          rw [List.filterMap_cons_some hresult]
          exact Nat.le_succ _
    simp only [List.length_append] at hlen hlen'
    show g'.pending.rows.length ≤ _
    omega
  case oneEach => exact fun a ha b hb => h.oneEach a (hheld.pending a ha) b (hheld.pending b hb)
  case capable =>
    show ∀ r ∈ g'.pending.rows, ∀ c, needs r.2.type = some c → c ∈ g'.negotiated
    rw [hheld.negotiated]
    exact fun r hr => h.capable r (hheld.pending r hr)
  case console =>
    show ∀ viewer ∈ g'.viewers, _ ∈ g'.negotiated
    rw [hheld.negotiated]
    exact fun viewer hv => h.console viewer (hheld.viewers viewer hv)
  case room => exact (Finset.card_le_card hheld.viewers).trans h.room
  case busy => exact hbusy
  case settled => exact hsettled
  case waiting => exact h.waiting
  case answered => exact fun x hx => h.answered x (hrest x hx)
  case outputs =>
    intro x hx viewer payload hbody
    exact hkeeps viewer (h.outputs x (hrest x hx) viewer payload hbody) (hbefore.1 x hx viewer payload hbody)
  case outputsBefore => exact hbefore.2
  case inputs => exact h.inputs
  case inputsBefore => exact h.inputsBefore
  case usedGateway => exact fun id hid => h.usedGateway id (hheld.requestIds ▸ hid)
  case usedPending => exact fun r hr => h.usedPending r (hheld.pending r hr)
  case usedResident => exact h.usedResident
  case fresh => exact h.fresh

theorem erased_pending (h : Inv hash y) (hqueue : y.toGateway = frame :: rest) {x : String × PendingRequest}
    (hx : resultOf frame = some x) :
    (y.gateway.pending.erase x.1).rows.Perm (y.toResident.filterMap requestOf ++ residentPending y.resident ++
      rest.filterMap resultOf) := by
  refine Table.perm_delete (h.pending.trans ?_)
  rw [hqueue, List.filterMap_cons_some hx]
  exact List.perm_middle

theorem mem_gatewayViewersAfter {g : GatewayInboundSession} {viewer v : String} {op : ViewerOperation}
    {e : Option ErrorDetail} : v ∈ g.viewersAfter viewer op e ↔ v ∈ g.viewers ∧
      ¬(v = viewer ∧ ((op = .viewerOpen ∧ e.isSome) ∨ (op = .viewerClose ∧ e.isNone))) := by
  unfold GatewayInboundSession.viewersAfter
  split
  · rename_i hremoves
    rw [Finset.mem_erase]
    tauto
  · rename_i hkeeps
    tauto

theorem inv_operationReceived (h : Inv hash y) (hqueue : y.toGateway = frame :: rest) {id viewer : String}
    {op : ViewerOperation} {e : Option ErrorDetail} (hbody : frame.body = .operationResult id viewer op e) :
    Inv hash { y with gateway := { y.gateway with pending := y.gateway.pending.erase id,
                                                  viewers := y.gateway.viewersAfter viewer op e,
                                                  nextSeq := y.gateway.nextSeq + 1 },
                      toGateway := rest } := by
  have hin : frame ∈ y.toGateway := by
    rw [hqueue]
    exact List.mem_cons_self
  have hresult : resultOf frame = some (id, .operation op viewer) := by simp [resultOf, hbody]
  have hpending : (id, PendingRequest.operation op viewer) ∈ y.gateway.pending.rows :=
    h.mem_pending.mpr (Or.inr (Or.inr (List.mem_filterMap.mpr ⟨frame, hin, hresult⟩)))
  have herased : ∀ r, r ∈ (y.gateway.pending.erase id).rows ↔ r ∈ y.gateway.pending.rows ∧ r.1 ≠ id := by
    intro r
    show r ∈ y.gateway.pending.delete _ ↔ _
    rw [Table.mem_delete, decide_eq_false_iff_not]
    exact Iff.rfl
  have hanswered := h.answered frame hin id viewer op e hbody
  refine inv_received h hqueue ?_ (erased_pending h hqueue hresult) ?_ ?_ ?_
  · refine ⟨rfl, rfl, rfl, rfl, rfl, ?_, ?_⟩
    · exact fun v hv => (mem_gatewayViewersAfter.mp hv).1
    · exact fun r hr => ((herased r).mp hr).1
  · intro r hr v hv
    obtain ⟨hold, hne⟩ := (herased r).mp hr
    refine mem_gatewayViewersAfter.mpr ⟨h.busy r hold v hv, ?_⟩
    rintro ⟨rfl, _⟩
    exact hne (congrArg Prod.fst (h.oneEach r hold _ hpending v hv rfl))
  · intro v hfree
    show v ∈ y.gateway.viewersAfter viewer op e ↔ _
    rw [mem_gatewayViewersAfter]
    by_cases hv : v = viewer
    · subst hv
      have hopen := h.busy _ hpending v rfl
      cases op with
      | viewerOpen =>
          have hanswered : v ∈ y.resident.viewers ↔ e.isNone := hanswered
          rw [hanswered]
          cases e <;> simp [hopen]
      | viewerClose =>
          have hanswered : v ∈ y.resident.viewers ↔ e.isSome := hanswered
          rw [hanswered]
          cases e <;> simp [hopen]
      | viewerSnapshot =>
          have hanswered : v ∈ y.resident.viewers := hanswered
          simp [hopen, hanswered]
    · have hold : ∀ r ∈ y.gateway.pending.rows, r.2.viewerId ≠ some v := by
        intro r hr hrv
        by_cases hid : r.1 = id
        · obtain rfl := Table.eq_of_key hr hpending hid
          exact hv (Option.some.inj hrv).symm
        · exact hfree r ((herased r).mpr ⟨hr, hid⟩) hrv
      rw [← h.settled v hold]
      simp [hv]
  · intro v hv hkeeps
    refine mem_gatewayViewersAfter.mpr ⟨hv, ?_⟩
    rintro ⟨rfl, hremoves⟩
    exact hkeeps ⟨id, op, e, hbody, hremoves⟩

theorem inv_mediaReceived (h : Inv hash y) (hqueue : y.toGateway = frame :: rest) {id : String}
    {outcome : MediaOutcome} (hbody : frame.body = outcome.body id) :
    Inv hash { y with gateway := { y.gateway with pending := y.gateway.pending.erase id,
                                                  nextSeq := y.gateway.nextSeq + 1 },
                      toGateway := rest } := by
  have hresult : resultOf frame = some (id, .media) := resultOf_outcome hbody
  have hpending : (id, PendingRequest.media) ∈ y.gateway.pending.rows := by
    refine h.mem_pending.mpr (Or.inr (Or.inr (List.mem_filterMap.mpr ⟨frame, ?_, hresult⟩)))
    rw [hqueue]
    exact List.mem_cons_self
  have hsub : ∀ r ∈ (y.gateway.pending.erase id).rows, r ∈ y.gateway.pending.rows :=
    fun r hr => (Table.mem_delete.mp hr).1
  refine inv_received h hqueue ⟨rfl, rfl, rfl, rfl, rfl, fun v hv => hv, hsub⟩
    (erased_pending h hqueue hresult) ?_ ?_ ?_
  · exact fun r hr => h.busy r (hsub r hr)
  · intro v hfree
    refine h.settled v ?_
    intro r hr hv
    by_cases hid : r.1 = id
    · obtain rfl := Table.eq_of_key hr hpending hid
      cases hv
    · exact hfree r (Table.mem_delete.mpr ⟨hr, decide_eq_false hid⟩) hv
  · exact fun v hv _ => hv

theorem inv_outputReceived (h : Inv hash y) (hqueue : y.toGateway = frame :: rest) {viewer payload : String}
    (hbody : frame.body = .consoleOutput viewer payload) :
    Inv hash { y with gateway := { y.gateway with nextSeq := y.gateway.nextSeq + 1 }, toGateway := rest } := by
  refine inv_received h hqueue ⟨rfl, rfl, rfl, rfl, rfl, fun v hv => hv, fun r hr => hr⟩ ?_ h.busy h.settled
    (fun v hv _ => hv)
  have hperm := h.pending
  rw [hqueue, List.filterMap_cons_none (by simp [resultOf, hbody])] at hperm
  exact hperm

theorem inv_taken_gateway (h : Inv hash y) (hqueue : y.toGateway = frame :: rest) :
    Inv hash { y with gateway := { received y.gateway frame.body with nextSeq := y.gateway.nextSeq + 1 },
                      toGateway := rest } := by
  have hin : frame ∈ y.toGateway := by
    rw [hqueue]
    exact List.mem_cons_self
  rcases (h.emittable frame hin).kind with ⟨id, viewer, op, e, hbody⟩ | ⟨viewer, payload, hbody⟩ |
    ⟨id, outcome, hbody⟩
  · rw [hbody]
    exact inv_operationReceived h hqueue hbody
  · rw [hbody]
    exact inv_outputReceived h hqueue hbody
  · rw [hbody, received_outcome]
    exact inv_mediaReceived h hqueue hbody

end GatewayReceives

/-! ## Steps -/

/-- One of the sessions is terminal. -/
def Over (y : Pair) : Prop := y.gateway.terminal = true ∨ y.resident.terminal = true

/-- What is kept: the invariant, until a session is terminal. -/
def Going (hash : List UInt8 → String) (y : Pair) : Prop := Over y ∨ Inv hash y

/-- Request ids are new on the connection, and the avatar is only asked for where
`identity.v1` was negotiated. -/
def Expected (y : Pair) : Event → Prop
  | .request id ask => id ∉ y.used ∧
      ∀ route, ask = .media route → route = avatarRoute → .identity ∈ y.gateway.negotiated
  | _ => True

theorem over_or {y : Pair} (h : ¬Over y) : y.gateway.terminal = false ∧ y.resident.terminal = false := by
  unfold Over at h
  push Not at h
  exact ⟨by simpa using h.1, by simpa using h.2⟩

theorem going_residentReceives (h : Inv hash y) (hover : ¬Over y) :
    Going hash (step hash y .residentReceives) := by
  unfold step
  simp only
  cases hqueue : y.toResident with
  | nil =>
      refine Or.inr ?_
      exact h
  | cons frame rest =>
      simp only
      rw [resident_accepts h (over_or hover).2 hqueue]
      cases hterminal : (taken y.resident frame.body).advanced.terminal with
      | true => exact Or.inl (Or.inr hterminal)
      | false =>
          refine Or.inr ?_
          simp only [ResidentInboundSession.advanced_terminal _ hterminal]
          have hnext := (taken_same y.resident frame.body).2.2.2.1
          rw [hnext]
          exact inv_taken h hqueue

theorem going_gatewayReceives (h : Inv hash y) (hover : ¬Over y) :
    Going hash (step hash y .gatewayReceives) := by
  unfold step
  simp only
  cases hqueue : y.toGateway with
  | nil => exact Or.inr h
  | cons frame rest =>
      simp only
      rw [gateway_accepts h (over_or hover).1 hqueue]
      cases hterminal : (received y.gateway frame.body).advanced.terminal with
      | true => exact Or.inl (Or.inl hterminal)
      | false =>
          refine Or.inr ?_
          simp only [GatewayInboundSession.advanced_terminal _ hterminal]
          have hnext : (received y.gateway frame.body).nextSeq = y.gateway.nextSeq := by
            cases frame.body <;> rfl
          rw [hnext]
          exact inv_taken_gateway h hqueue

/-! ## The resident answers -/

section Refused

variable (hash) (r : ResidentInboundSession) (id viewer : String)

/-- The guards of the resident's session stand before everything it writes. -/
theorem operationResult_refused (op : ViewerOperation) (e : Option ErrorDetail) :
    Tx.wp (ResidentInboundSession.operationResult hash id viewer op e) (fun _ _ => True)
      (fun _ r' => r' = r) r := by
  simp [ResidentInboundSession.operationResult, ResidentInboundSession.assertOutboundReady,
    ResidentInboundSession.enveloped, ResidentInboundSession.advanceOutboundSequence]

theorem consoleOutput_refused (payload : String) :
    Tx.wp (ResidentInboundSession.consoleOutput hash viewer payload) (fun _ _ => True) (fun _ r' => r' = r) r := by
  simp [ResidentInboundSession.consoleOutput, ResidentInboundSession.assertOutboundReady,
    ResidentInboundSession.enveloped, ResidentInboundSession.advanceOutboundSequence]

theorem mediaResult_refused (outcome : MediaOutcome) :
    Tx.wp (ResidentInboundSession.mediaResult hash id outcome) (fun _ _ => True) (fun _ r' => r' = r) r := by
  simp [ResidentInboundSession.mediaResult, ResidentInboundSession.assertOutboundReady,
    ResidentInboundSession.enveloped, ResidentInboundSession.advanceOutboundSequence]

end Refused

/-- An emission: refused without a trace, or the frame is on its way. -/
theorem going_emit (h : Inv hash y) {m : ResidentInboundSession.Method ResidentFrame}
    (hrefused : Tx.wp m (fun _ _ => True) (fun _ r' => r' = y.resident) y.resident)
    (hsent : ∀ out r', m y.resident = (.ok out, r') → Over { y with resident := r' } ∨
      Inv hash { y with resident := r', toGateway := y.toGateway ++ [out] }) :
    Going hash (emit y (m y.resident)) := by
  unfold emit
  cases hm : m y.resident with
  | mk outcome r' =>
      cases outcome with
      | error e =>
          obtain rfl := (Tx.wp_iff.mp hrefused).2 e r' hm
          exact Or.inr h
      | ok out =>
          rcases hsent out r' hm with hover | hinv
          · exact Or.inl hover
          · exact Or.inr hinv

theorem going_operationResult (h : Inv hash y) (id viewer : String) (op : ViewerOperation)
    (e : Option ErrorDetail) : Going hash (step hash y (.operationResult id viewer op e)) := by
  refine going_emit h (operationResult_refused hash _ id viewer op e) ?_
  intro out r' hout
  obtain ⟨hemitted, hpending, rfl⟩ := ResidentInboundSession.operationResult_ok hout
  cases hterminal : (ResidentInboundSession.outboundAdvanced { y.resident with
      pendingOperations := y.resident.pendingOperations.erase id,
      viewers := y.resident.viewersAfter viewer op e }).terminal with
  | true => exact Or.inl (Or.inr hterminal)
  | false =>
      rw [ResidentInboundSession.outboundAdvanced_terminal _ hterminal]
      exact Or.inr (inv_operationResult h hemitted (Table.get?_eq_some.mp hpending).1 rfl)

theorem going_consoleOutput (h : Inv hash y) (viewer payload : String) :
    Going hash (step hash y (.consoleOutput viewer payload)) := by
  refine going_emit h (consoleOutput_refused hash _ viewer payload) ?_
  intro out r' hout
  obtain ⟨hemitted, hviewer, rfl⟩ := ResidentInboundSession.consoleOutput_ok hout
  cases hterminal : y.resident.outboundAdvanced.terminal with
  | true => exact Or.inl (Or.inr hterminal)
  | false =>
      rw [ResidentInboundSession.outboundAdvanced_terminal _ hterminal]
      exact Or.inr (inv_consoleOutput h hemitted hviewer)

theorem going_mediaResult (h : Inv hash y) (id : String) (outcome : MediaOutcome) :
    Going hash (step hash y (.mediaResult id outcome)) := by
  refine going_emit h (mediaResult_refused hash _ id outcome) ?_
  intro out r' hout
  obtain ⟨hemitted, hpending, rfl⟩ := ResidentInboundSession.mediaResult_ok hout
  cases hterminal : (ResidentInboundSession.outboundAdvanced { y.resident with
      pendingMedia := y.resident.pendingMedia.erase id }).terminal with
  | true => exact Or.inl (Or.inr hterminal)
  | false =>
      rw [ResidentInboundSession.outboundAdvanced_terminal _ hterminal]
      exact Or.inr (inv_mediaResult h hemitted hpending)

/-- One step of a run. -/
theorem going_step (h : Going hash y) {event : Event} (hexpected : ¬Over y ∧ Expected y event) :
    Going hash (step hash y event) := by
  obtain ⟨hover, hexpected⟩ := hexpected
  have h := h.resolve_left hover
  cases event with
  | request id ask => exact Or.inr (inv_request h hexpected.1 hexpected.2)
  | residentReceives => exact going_residentReceives h hover
  | operationResult id viewer op e => exact going_operationResult h id viewer op e
  | consoleOutput viewer payload => exact going_consoleOutput h viewer payload
  | mediaResult id outcome => exact going_mediaResult h id outcome
  | gatewayReceives => exact going_gatewayReceives h hover

/-! ## The handshake -/

theorem hello_taken (hash : List UInt8 → String) (connection instance_ : String) (supported : List Capability) (frame : ResidentFrame) :
    Tx.wp (GatewayInboundSession.receive hash frame)
      (fun _ g => ∃ negotiated, g = { GatewayInboundSession.create connection instance_ supported with
        residentHello := some frame, negotiated := negotiated, nextSeq := 2 })
      (fun _ _ => True) (GatewayInboundSession.create connection instance_ supported) := by
  cases hbody : frame.body <;>
    simp [GatewayInboundSession.receive, GatewayInboundSession.receiveFrame, GatewayInboundSession.create,
      GatewayInboundSession.advanceSequence, GatewayInboundSession.advanced, hbody, maxSafeInteger]

theorem ack_taken (connection instance_ : String) (offered : List Capability) (known : Option (List Capability))
    (frame : GatewayFrame) {instance' : String} {negotiated : List Capability}
    (hbody : frame.body = .helloAck instance' negotiated) :
    Tx.wp (ResidentInboundSession.receive frame)
      (fun _ r => r = { ResidentInboundSession.create connection instance_ offered known with
        gatewayAck := some frame, negotiated := negotiated, nextSeq := 2 })
      (fun _ _ => True) (ResidentInboundSession.create connection instance_ offered known) := by
  simp [ResidentInboundSession.receive, ResidentInboundSession.receiveFrame, ResidentInboundSession.create,
    ResidentInboundSession.advanceSequence, ResidentInboundSession.advanced, hbody, maxSafeInteger]

/-- Two sessions of one connection that took each other's first frames, with nothing under
way behind them. -/
structure Joined (hash : List UInt8 → String) (y : Pair) : Prop where
  handshake : ∃ (connection gatewayInstance residentInstance : String) (supported offered : List Capability)
      (known : Option (List Capability)) (hello : ResidentFrame) (ack : GatewayFrame),
    (GatewayInboundSession.create connection gatewayInstance supported).receive hash hello =
      (.ok (), y.gateway) ∧
    (ResidentInboundSession.create connection residentInstance offered known).receive ack =
      (.ok (), y.resident) ∧
    ack.body = .helloAck y.gateway.instanceId y.gateway.negotiated
  toResident : y.toResident = []
  toGateway : y.toGateway = []
  outboundSeq : y.nextOutboundSeq = 2
  used : y.used = []

theorem inv_joined (h : Joined hash y) : Inv hash y := by
  obtain ⟨⟨connection, gi, ri, supported, offered, known, hello, ack, hgateway, hresident, hack⟩, htoResident,
    htoGateway, hseq, hused⟩ := h
  obtain ⟨negotiated, hg⟩ := (Tx.wp_iff.mp (hello_taken hash connection gi supported hello)).1 _ _ hgateway
  have hr := (Tx.wp_iff.mp (ack_taken connection ri offered known ack hack)).1 _ _ hresident
  rw [hg] at hr
  obtain ⟨g, r, toResident, toGateway, seq, used⟩ := y
  subst hg hr htoResident htoGateway hseq hused
  -- nothing is pending, open or under way
  constructor <;>
    simp [GatewayInboundSession.create, ResidentInboundSession.create, residentPending, Table.empty]

/-! ## No frame is rejected -/

/-- The next frame of either direction is taken, and the two sides agree on the viewers when
nothing is under way. -/
def Sound (hash : List UInt8 → String) (y : Pair) : Prop :=
  (∀ frame rest, y.toGateway = frame :: rest → ∃ g, y.gateway.receive hash frame = (.ok (), g)) ∧
  (∀ frame rest, y.toResident = frame :: rest → ∃ r, y.resident.receive frame = (.ok (), r)) ∧
  (y.gateway.pending.rows = [] → y.toResident = [] → y.toGateway = [] → y.gateway.viewers = y.resident.viewers)

theorem sound_of_inv (h : Inv hash y) (hover : ¬Over y) : Sound hash y := by
  refine ⟨?_, ?_, ?_⟩
  · intro frame rest hqueue
    exact ⟨_, gateway_accepts h (over_or hover).1 hqueue⟩
  · intro frame rest hqueue
    exact ⟨_, resident_accepts h (over_or hover).2 hqueue⟩
  · intro hpending _ _
    ext viewer
    refine h.settled viewer ?_
    intro r hr
    rw [hpending] at hr
    cases hr

/-- In every run of requests, results, outputs and deliveries, for as long as neither
session is terminal, no frame of either side is rejected by the other. -/
theorem sessions_accept (hash : List UInt8 → String) (y : Pair) (hjoined : Joined hash y) (events : List Event)
    (hrun : EachStep (step hash) (fun y event => ¬Over y ∧ Expected y event) y events) :
    Throughout (step hash) (fun y => ¬Over y → Sound hash y) y events :=
  throughout_of_eachStep (I := Going hash) (fun _ hgoing hover => sound_of_inv (hgoing.resolve_left hover) hover)
    (fun _ _ hgoing hexpected => going_step hgoing hexpected) events (Or.inr (inv_joined hjoined)) hrun

section Witness

def zeroConnection : String := "egx1.AAAAAAAAAAAAAAAAAAAAAA"
def zeroInstance : String := "egi1.AAAAAAAAAAAAAAAAAAAAAA"
def zeroViewer : String := "egv1.AAAAAAAAAAAAAAAAAAAAAA"
def zeroRequest : String := "egr1.AAAAAAAAAAAAAAAAAAAAAA"

def zeroHello : ResidentFrame :=
  ⟨zeroConnection, 1, .hello zeroInstance [.console, .media] ⟨"Elpis", none⟩ ⟨"1.0.0", none, none⟩⟩

def zeroAck : GatewayFrame := ⟨zeroConnection, 1, .helloAck zeroInstance [.console, .media]⟩

def zeroPair : Pair where
  gateway := (GatewayInboundSession.receive (fun _ => "") zeroHello
    (GatewayInboundSession.create zeroConnection zeroInstance [.console, .identity, .media])).2
  resident := (ResidentInboundSession.receive zeroAck
    (ResidentInboundSession.create zeroConnection zeroInstance [.console, .media] none)).2
  toResident := []
  toGateway := []
  nextOutboundSeq := 2
  used := []

/-- A viewer is opened and read from. -/
def zeroEvents : List Event :=
  [.request zeroRequest (.operation .viewerOpen zeroViewer), .residentReceives,
    .operationResult zeroRequest zeroViewer .viewerOpen none, .consoleOutput zeroViewer "tick",
    .gatewayReceives]

instance (y : Pair) : Decidable (Over y) := inferInstanceAs (Decidable (_ ∨ _))

/-- The output waits for the gateway, which has the viewer open. -/
theorem sessions_accept_zero :
    Throughout (step fun _ => "") (fun y => ¬Over y → Sound (fun _ => "") y) zeroPair zeroEvents ∧
      (run (step fun _ => "") zeroPair zeroEvents).gateway.viewers = {zeroViewer} := by
  refine ⟨sessions_accept _ zeroPair ⟨?_, rfl, rfl, rfl, rfl⟩ zeroEvents ?_, by decide⟩
  · exact ⟨zeroConnection, zeroInstance, zeroInstance, [.console, .identity, .media], [.console, .media], none,
      zeroHello, zeroAck, Prod.ext (by decide) rfl, Prod.ext (by decide) rfl, by decide⟩
  · exact ⟨⟨by decide, by decide, fun _ h => by cases h⟩, ⟨by decide, trivial⟩,
      ⟨by decide, trivial⟩, ⟨by decide, trivial⟩, ⟨by decide, trivial⟩, trivial⟩

end Witness

end Elpis.Gateway.Protocol
