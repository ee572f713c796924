import Elpis.Gateway.LinkRuns

/-!
# Outstanding request ids

Both sessions know a request id again by a history of the last 4096 ids, and keep the
requests that wait for an answer in maps of their own. The history drops its oldest id
whether or not that one still waits. Here is when a waiting id is known again: in every
run in which the history never drops one.
-/

namespace Elpis.Gateway.Protocol

open Elpis.Js Elpis.Lib

/-! ## The history -/

/-- The set and the list hold the same request ids, each once. -/
structure Remembers (ids : Finset String) (order : List String) : Prop where
  nodup : order.Nodup
  mem : ∀ x, x ∈ ids ↔ x ∈ order

/-- One more request id would push an outstanding one out of the history. -/
def Drops (order : List String) (outstanding : String → Prop) : Prop :=
  LIMITS.requestHistoryPerConnection ≤ order.length ∧ ∃ oldest, order.head? = some oldest ∧ outstanding oldest

namespace Remembers

variable {ids : Finset String} {order : List String} {id x : String}

theorem empty : Remembers ∅ [] := ⟨List.nodup_nil, by simp⟩

theorem remembered (h : Remembers ids order) (hnew : id ∉ ids) :
    Remembers (remembered ids order id).1 (remembered ids order id).2 := by
  have hnodup : (order ++ [id]).Nodup := by
    rw [List.nodup_append]
    refine ⟨h.nodup, List.nodup_singleton id, ?_⟩
    rintro a ha b hb rfl
    exact hnew ((h.mem _).mpr (List.mem_singleton.mp hb ▸ ha))
  have hmem : ∀ y, y ∈ insert id ids ↔ y ∈ order ++ [id] := by
    intro y
    rw [Finset.mem_insert, h.mem, List.mem_append, List.mem_singleton, or_comm]
  unfold Protocol.remembered
  split
  · -- the oldest id leaves the list and the set
    cases hord : order ++ [id] with
    | nil => simp at hord
    | cons oldest rest =>
        rw [hord, List.nodup_cons] at hnodup
        refine ⟨hnodup.2, fun y => ?_⟩
        rw [List.headD_cons, List.drop_one, List.tail_cons, Finset.mem_erase, hmem, hord, List.mem_cons]
        constructor
        · rintro ⟨hne, heq | hy⟩
          · exact absurd heq hne
          · exact hy
        · intro hy
          exact ⟨fun heq => hnodup.1 (heq ▸ hy), Or.inr hy⟩
  · exact ⟨hnodup, hmem⟩

/-- An id that is in the history, or comes into it, stays unless it is the one pushed out. -/
theorem kept (h : Remembers ids order) (hx : x = id ∨ x ∈ ids)
    (hold : LIMITS.requestHistoryPerConnection ≤ order.length → order.head? ≠ some x) :
    x ∈ (Protocol.remembered ids order id).1 := by
  unfold Protocol.remembered
  split
  · rename_i hfull
    rw [List.length_append, List.length_singleton] at hfull
    have hlen : LIMITS.requestHistoryPerConnection ≤ order.length := by omega
    refine Finset.mem_erase.mpr ⟨?_, Finset.mem_insert.mpr hx⟩
    cases order with
    | nil => simp [LIMITS.requestHistoryPerConnection] at hlen
    | cons oldest rest =>
        rintro rfl
        exact hold hlen rfl
  · exact Finset.mem_insert.mpr hx

end Remembers

/-- The history is in order and holds every outstanding id. -/
structure Knows (ids : Finset String) (order : List String) (outstanding : String → Prop) : Prop where
  remembers : Remembers ids order
  known : ∀ id, outstanding id → id ∈ ids

namespace Knows

variable {ids : Finset String} {order : List String} {outstanding outstanding' : String → Prop} {id : String}

theorem settled (h : Knows ids order outstanding) (hout : ∀ x, outstanding' x → outstanding x) :
    Knows ids order outstanding' :=
  ⟨h.remembers, fun x hx => h.known x (hout x hx)⟩

/-- A new request keeps every outstanding id known, unless it pushes one out. -/
theorem remembered (h : Knows ids order outstanding) (hnew : id ∉ ids) (hspared : ¬Drops order outstanding)
    (hout : ∀ x, outstanding' x → x = id ∨ outstanding x) :
    Knows (remembered ids order id).1 (remembered ids order id).2 outstanding' := by
  refine ⟨h.remembers.remembered hnew, fun x hx => ?_⟩
  rcases hout x hx with rfl | hx
  · refine h.remembers.kept (Or.inl rfl) (fun _ hhead => hnew ?_)
    exact (h.remembers.mem x).mpr (List.mem_of_mem_head? hhead)
  · exact h.remembers.kept (Or.inr (h.known x hx)) (fun hfull hhead => hspared ⟨hfull, x, hhead, hx⟩)

end Knows

/-! ## The gateway's session -/

namespace GatewayInboundSession

variable {hash : List UInt8 → String} {s s' : GatewayInboundSession} {connection id : String}
  {request : PendingRequest}

/-- A request with this id waits for its answer. -/
def Outstanding (s : GatewayInboundSession) (id : String) : Prop := ∃ r ∈ s.pending, r.1 = id

/-- The request passes every check of `registerRequest`. -/
def Accepts (s : GatewayInboundSession) (connection id : String) (request : PendingRequest) : Prop :=
  s.terminal = false ∧ s.residentHello ≠ none ∧ connection = s.connectionId ∧ id ∉ s.requestIds ∧
    s.pending.rows.length < LIMITS.pendingRequestsPerConnection ∧
    (∀ c, needs request.type = some c → c ∈ s.negotiated) ∧ s.Registrable request

/-- The calls of the session that write. -/
inductive Call where
  | registerRequest (connection id : String) (request : PendingRequest)
  | receive (frame : ResidentFrame)

/-- The session behind a call, whether or not it throws. -/
def after (hash : List UInt8 → String) (s : GatewayInboundSession) : Call → GatewayInboundSession
  | .registerRequest connection id request => (registerRequest connection id request s).2
  | .receive frame => (receive hash frame s).2

/-- No outstanding request id is taken for a second request. -/
def Guarded (s : GatewayInboundSession) : Prop :=
  ∀ id, s.Outstanding id → ∀ connection request s', registerRequest connection id request s ≠ (.ok (), s')

/-- A request that is accepted pushes no outstanding id out of the history. -/
def Spares (s : GatewayInboundSession) : Call → Prop
  | .registerRequest connection id request => s.Accepts connection id request → ¬Drops s.requestOrder s.Outstanding
  | .receive _ => True

/-- The history is what it was and nothing waits that did not. -/
structure Settles (s s' : GatewayInboundSession) : Prop where
  requestIds : s'.requestIds = s.requestIds
  requestOrder : s'.requestOrder = s.requestOrder
  outstanding : ∀ id, s'.Outstanding id → s.Outstanding id

instance : IsPreorder GatewayInboundSession Settles where
  refl _ := ⟨rfl, rfl, fun _ h => h⟩
  trans _ _ _ h h' := ⟨h'.requestIds.trans h.requestIds, h'.requestOrder.trans h.requestOrder,
    fun id hid => h.outstanding id (h'.outstanding id hid)⟩

theorem settles_erase (s : GatewayInboundSession) (id : String) :
    Settles s { s with pending := s.pending.erase id } :=
  ⟨rfl, rfl, fun _ ⟨r, hr, hid⟩ => ⟨r, (Table.mem_delete.mp hr).1, hid⟩⟩

theorem settles_of_eq (hids : s'.requestIds = s.requestIds) (horder : s'.requestOrder = s.requestOrder)
    (hpending : s'.pending = s.pending) : Settles s s' := by
  refine ⟨hids, horder, fun id hid => ?_⟩
  obtain ⟨r, hr, heq⟩ := hid
  exact ⟨r, hpending ▸ hr, heq⟩

theorem along_write (f : GatewayInboundSession → GatewayInboundSession)
    (hids : ∀ s, (f s).requestIds = s.requestIds) (horder : ∀ s, (f s).requestOrder = s.requestOrder)
    (hpending : ∀ s, (f s).pending = s.pending) : Tx.Along Settles (Tx.write f : Method Unit) :=
  Tx.Along.write (fun s => settles_of_eq (hids s) (horder s) (hpending s))

theorem along_viewers (f : GatewayInboundSession → Finset String) :
    Tx.Along Settles (Tx.write (fun s => { s with viewers := f s }) : Method Unit) :=
  along_write _ (fun _ => rfl) (fun _ => rfl) (fun _ => rfl)

theorem along_advanceSequence : Tx.Along Settles advanceSequence := by
  refine Tx.Along.write (fun s => ?_)
  unfold advanced
  split
  · exact settles_of_eq rfl rfl rfl
  · exact settles_of_eq rfl rfl rfl

theorem along_erase (id : String) :
    Tx.Along Settles (Tx.write (fun s => { s with pending := s.pending.erase id }) : Method Unit) :=
  Tx.Along.write (fun s => settles_erase s id)

theorem along_apply (body : ResidentBody) : Tx.Along Settles (apply body) := by
  refine (Tx.Along.read _).bind (fun s => ?_)
  cases body with
  | hello => exact Tx.Along.throw _
  | consoleOutput viewer payload => exact Tx.Along.ensure _ _
  | operationResult id viewer op e =>
      exact (Tx.Along.ensure _ _).bind fun _ => (along_erase id).bind fun _ =>
        (Tx.Along.when (along_viewers _)).bind fun _ => Tx.Along.when (along_viewers _)
  | mediaResult id => exact (Tx.Along.ensure _ _).bind fun _ => along_erase id
  | mediaFailed id => exact (Tx.Along.ensure _ _).bind fun _ => along_erase id
  | error e fatal requestId =>
      cases requestId with
      | none => exact Tx.Along.pure ()
      | some id =>
          refine (Tx.Along.require _ _).bind fun expected => (along_erase id).bind fun _ => ?_
          obtain ⟨_, expected⟩ := expected
          cases expected with
          | media => exact Tx.Along.pure ()
          | operation op viewer =>
              cases op with
              | viewerOpen => exact along_viewers _
              | viewerClose => exact Tx.Along.pure ()
              | viewerSnapshot => exact Tx.Along.pure ()

theorem along_requireCapability (negotiated : List Capability) (type : String) :
    Tx.Along Settles (requireCapability negotiated type : Method Unit) := by
  unfold requireCapability
  cases needs type with
  | none => exact Tx.Along.pure ()
  | some c => exact Tx.Along.ensure _ _

theorem along_receiveFrame (frame : ResidentFrame) : Tx.Along Settles (receiveFrame hash frame) := by
  refine (Tx.Along.read _).bind fun s => (Tx.Along.ensure _ _).bind fun _ => (Tx.Along.ofExcept _).bind fun _ =>
    (Tx.Along.ensure _ _).bind fun _ => (Tx.Along.ensure _ _).bind fun _ => ?_
  cases s.residentHello with
  | none =>
      cases frame.body with
      | hello =>
          refine (Tx.Along.ensure _ _).bind fun _ => Tx.Along.bind ?_ fun _ => along_advanceSequence
          exact along_write _ (fun _ => rfl) (fun _ => rfl) (fun _ => rfl)
      | operationResult => exact Tx.Along.throw _
      | consoleOutput => exact Tx.Along.throw _
      | mediaResult => exact Tx.Along.throw _
      | mediaFailed => exact Tx.Along.throw _
      | error => exact Tx.Along.throw _
  | some hello =>
      refine (along_requireCapability _ _).bind fun _ => (along_apply frame.body).bind fun _ =>
        along_advanceSequence.bind fun _ => Tx.Along.when ?_
      exact along_write _ (fun _ => rfl) (fun _ => rfl) (fun _ => rfl)

theorem along_receive (frame : ResidentFrame) : Tx.Along Settles (receive hash frame) := by
  refine (Tx.Along.attempt (along_receiveFrame frame)).bind fun outcome => ?_
  cases outcome with
  | ok => exact Tx.Along.pure ()
  | error e =>
      refine Tx.Along.bind ?_ fun _ => Tx.Along.throw e
      exact along_write _ (fun _ => rfl) (fun _ => rfl) (fun _ => rfl)

/-- What holds of the session as long as no request pushes an outstanding id out. -/
def Sound (s : GatewayInboundSession) : Prop := Knows s.requestIds s.requestOrder s.Outstanding

theorem sound_create (connectionId instanceId : String) (supported : List Capability) :
    Sound (create connectionId instanceId supported) :=
  ⟨Remembers.empty, fun _ ⟨_, hr, _⟩ => absurd hr Table.not_mem_empty⟩

theorem Sound.settles (h : Sound s) (hs : Settles s s') : Sound s' := by
  unfold Sound
  rw [hs.requestIds, hs.requestOrder]
  exact h.settled hs.outstanding

theorem guarded_of_sound (h : Sound s) : Guarded s := by
  intro id hid connection request s' hok
  exact (registerRequest_ok hok).1.2.2.2.1 (h.known id hid)

theorem outstanding_registered {x : String} (h : (s.registered id request).Outstanding x) :
    x = id ∨ s.Outstanding x := by
  obtain ⟨r, hr, rfl⟩ := h
  rcases (Table.mem_put).mp hr with rfl | ⟨hr, _⟩
  · exact Or.inl rfl
  · exact Or.inr ⟨r, hr, rfl⟩

theorem sound_after (h : Sound s) {call : Call} (hspared : s.Spares call) : Sound (s.after hash call) := by
  cases call with
  | receive frame => exact h.settles (Tx.wp_final (P := Settles s) (along_receive frame s))
  | registerRequest connection id request =>
      have hrefused := registerRequest_refused connection id request s
      rw [Tx.wp_iff] at hrefused
      show Sound (registerRequest connection id request s).2
      rcases hrun : registerRequest connection id request s with ⟨e | ⟨⟩, s'⟩
      · rw [hrefused.2 e s' hrun]
        exact h
      · obtain ⟨haccepts, rfl⟩ := registerRequest_ok hrun
        exact h.remembered haccepts.2.2.2.1 (hspared haccepts) (fun _ => outstanding_registered)

end GatewayInboundSession

/-! ## The resident's session -/

namespace ResidentInboundSession

variable {hash : List UInt8 → String} {s s' t : ResidentInboundSession} {frame : GatewayFrame}
  {body : GatewayBody} {id : String}

/-- The entry point for callers that hold a whole frame. -/
def completeOperation (hash : List UInt8 → String) (frame : ResidentFrame) : Method ResidentFrame := do
  Tx.ofExcept (decodeResidentFrame hash frame)
  match frame.body with
  | .operationResult id viewer op e => do
      let s ← Tx.read (fun s => s)
      Tx.ensure (frame.connectionId = s.connectionId)
        ⟨.connection_mismatch, "operation result has wrong connection"⟩
      Tx.ensure (frame.seq = s.nextOutboundSeq)
        ⟨.invalid_sequence, "resident outbound sequence is not contiguous"⟩
      operationResult hash id viewer op e
  | _ => Tx.throw ⟨.request_mismatch, "frame is not an operation result"⟩

/-- A request with this id waits for its answer. -/
def Outstanding (s : ResidentInboundSession) (id : String) : Prop :=
  (∃ r ∈ s.pendingOperations, r.1 = id) ∨ id ∈ s.pendingMedia

/-- The request id of a frame that is a request. -/
def asks : GatewayBody → Option String
  | .operation _ id _ => some id
  | .mediaGet id _ => some id
  | _ => none

/-- The request passes every check of `apply`. -/
def Takes (s : ResidentInboundSession) : GatewayBody → Prop
  | .operation op id viewer => id ∉ s.requestIds ∧ s.pendingSize < LIMITS.pendingRequestsPerConnection ∧
      (∀ r ∈ s.pendingOperations.rows, r.2.viewerId ≠ viewer) ∧ s.Operable op viewer
  | .mediaGet id route => id ∉ s.requestIds ∧ s.pendingSize < LIMITS.pendingRequestsPerConnection ∧
      (route = avatarRoute → .identity ∈ s.negotiated)
  | _ => False

theorem takes_new (h : s.Takes body) (hasks : asks body = some id) : id ∉ s.requestIds := by
  cases body with
  | operation op x viewer => exact Option.some.inj hasks ▸ h.1
  | mediaGet x route => exact Option.some.inj hasks ▸ h.1
  | helloAck => cases hasks
  | consoleInput => cases hasks
  | error => cases hasks

/-- The frame is a request that passes every check of `receive`. -/
def Accepts (s : ResidentInboundSession) (frame : GatewayFrame) : Prop :=
  Admits s frame ∧ s.Takes frame.body

/-- The calls of the session that write. -/
inductive Call where
  | receive (frame : GatewayFrame)
  | operationResult (id viewer : String) (op : ViewerOperation) (e : Option ErrorDetail)
  | consoleOutput (viewer payload : String)
  | mediaResult (id : String) (outcome : MediaOutcome)
  | completeOperation (frame : ResidentFrame)

/-- The session behind a call, whether or not it throws. -/
def after (hash : List UInt8 → String) (s : ResidentInboundSession) : Call → ResidentInboundSession
  | .receive frame => (ResidentInboundSession.receive frame s).2
  | .operationResult id viewer op e => (ResidentInboundSession.operationResult hash id viewer op e s).2
  | .consoleOutput viewer payload => (ResidentInboundSession.consoleOutput hash viewer payload s).2
  | .mediaResult id outcome => (ResidentInboundSession.mediaResult hash id outcome s).2
  | .completeOperation frame => (ResidentInboundSession.completeOperation hash frame s).2

/-- No outstanding request id is taken for a second request. -/
def Guarded (s : ResidentInboundSession) : Prop :=
  ∀ id, s.Outstanding id → ∀ frame s', asks frame.body = some id → receive frame s ≠ (.ok (), s')

/-- A request that is accepted pushes no outstanding id out of the history. -/
def Spares (s : ResidentInboundSession) : Call → Prop
  | .receive frame => s.Accepts frame → ¬Drops s.requestOrder s.Outstanding
  | _ => True

/-- The history is what it was and nothing waits that did not. -/
structure Settles (s s' : ResidentInboundSession) : Prop where
  requestIds : s'.requestIds = s.requestIds
  requestOrder : s'.requestOrder = s.requestOrder
  outstanding : ∀ id, s'.Outstanding id → s.Outstanding id

instance : IsPreorder ResidentInboundSession Settles where
  refl _ := ⟨rfl, rfl, fun _ h => h⟩
  trans _ _ _ h h' := ⟨h'.requestIds.trans h.requestIds, h'.requestOrder.trans h.requestOrder,
    fun id hid => h.outstanding id (h'.outstanding id hid)⟩

theorem settles_of_eq (hids : s'.requestIds = s.requestIds) (horder : s'.requestOrder = s.requestOrder)
    (hoperations : s'.pendingOperations = s.pendingOperations) (hmedia : s'.pendingMedia = s.pendingMedia) :
    Settles s s' := by
  refine ⟨hids, horder, fun id hid => ?_⟩
  unfold Outstanding at hid ⊢
  rwa [hoperations, hmedia] at hid

theorem along_write (f : ResidentInboundSession → ResidentInboundSession)
    (hids : ∀ s, (f s).requestIds = s.requestIds) (horder : ∀ s, (f s).requestOrder = s.requestOrder)
    (hoperations : ∀ s, (f s).pendingOperations = s.pendingOperations)
    (hmedia : ∀ s, (f s).pendingMedia = s.pendingMedia) : Tx.Along Settles (Tx.write f : Method Unit) :=
  Tx.Along.write (fun s => settles_of_eq (hids s) (horder s) (hoperations s) (hmedia s))

theorem along_viewers (f : ResidentInboundSession → Finset String) :
    Tx.Along Settles (Tx.write (fun s => { s with viewers := f s }) : Method Unit) :=
  along_write _ (fun _ => rfl) (fun _ => rfl) (fun _ => rfl) (fun _ => rfl)

theorem settles_terminal (s : ResidentInboundSession) : Settles s { s with terminal := true } :=
  settles_of_eq rfl rfl rfl rfl

theorem settles_advanced (s : ResidentInboundSession) : Settles s s.advanced := by
  unfold advanced
  split
  · exact settles_of_eq rfl rfl rfl rfl
  · exact settles_of_eq rfl rfl rfl rfl

theorem settles_outboundAdvanced (s : ResidentInboundSession) : Settles s s.outboundAdvanced := by
  unfold outboundAdvanced
  split
  · exact settles_of_eq rfl rfl rfl rfl
  · exact settles_of_eq rfl rfl rfl rfl

theorem along_assertOutboundReady : Tx.Along Settles assertOutboundReady :=
  (Tx.Along.read _).bind fun _ => (Tx.Along.ensure _ _).bind fun _ => Tx.Along.ensure _ _

theorem along_enveloped (result : ResidentBody) : Tx.Along Settles (enveloped hash result) :=
  (Tx.Along.read _).bind fun _ => (Tx.Along.ofExcept _).bind fun _ => Tx.Along.pure _

theorem along_sent (frame : ResidentFrame) :
    Tx.Along Settles (do advanceOutboundSequence; pure frame : Method ResidentFrame) :=
  (Tx.Along.write settles_outboundAdvanced).bind fun _ => Tx.Along.pure frame

theorem along_operationResult (id viewer : String) (op : ViewerOperation) (e : Option ErrorDetail) :
    Tx.Along Settles (operationResult hash id viewer op e) := by
  refine along_assertOutboundReady.bind fun _ => (Tx.Along.read _).bind fun _ =>
    (Tx.Along.ensure _ _).bind fun _ => (along_enveloped _).bind fun frame => Tx.Along.bind ?_ fun _ =>
      (Tx.Along.when (along_viewers _)).bind fun _ => (Tx.Along.when (along_viewers _)).bind fun _ =>
        along_sent frame
  refine Tx.Along.write (fun s => ⟨rfl, rfl, fun x hx => ?_⟩)
  rcases hx with ⟨r, hr, hx⟩ | hx
  · exact Or.inl ⟨r, (Table.mem_delete.mp hr).1, hx⟩
  · exact Or.inr hx

theorem along_consoleOutput (viewer payload : String) : Tx.Along Settles (consoleOutput hash viewer payload) :=
  along_assertOutboundReady.bind fun _ => (Tx.Along.read _).bind fun _ => (Tx.Along.ensure _ _).bind fun _ =>
    (along_enveloped _).bind fun frame => along_sent frame

theorem along_mediaResult (id : String) (outcome : MediaOutcome) :
    Tx.Along Settles (mediaResult hash id outcome) := by
  refine along_assertOutboundReady.bind fun _ => (Tx.Along.read _).bind fun _ =>
    (Tx.Along.ensure _ _).bind fun _ => (along_enveloped _).bind fun frame => Tx.Along.bind ?_ fun _ =>
      along_sent frame
  refine Tx.Along.write (fun s => ⟨rfl, rfl, fun x hx => ?_⟩)
  rcases hx with hx | hx
  · exact Or.inl hx
  · exact Or.inr (Finset.mem_of_mem_erase hx)

theorem along_completeOperation (frame : ResidentFrame) : Tx.Along Settles (completeOperation hash frame) := by
  refine (Tx.Along.ofExcept _).bind fun _ => ?_
  cases frame.body with
  | operationResult id viewer op e =>
      exact (Tx.Along.read _).bind fun _ => (Tx.Along.ensure _ _).bind fun _ =>
        (Tx.Along.ensure _ _).bind fun _ => along_operationResult id viewer op e
  | hello => exact Tx.Along.throw _
  | consoleOutput => exact Tx.Along.throw _
  | mediaResult => exact Tx.Along.throw _
  | mediaFailed => exact Tx.Along.throw _
  | error => exact Tx.Along.throw _

/-- The session behind a request with this id that was taken. -/
structure Took (s s' : ResidentInboundSession) (id : String) : Prop where
  requestIds : s'.requestIds = (remembered s.requestIds s.requestOrder id).1
  requestOrder : s'.requestOrder = (remembered s.requestIds s.requestOrder id).2
  outstanding : ∀ x, s'.Outstanding x → x = id ∨ s.Outstanding x

theorem Took.settles (h : Took s t id) (hs : Settles t s') : Took s s' id :=
  ⟨hs.requestIds.trans h.requestIds, hs.requestOrder.trans h.requestOrder,
    fun x hx => h.outstanding x (hs.outstanding x hx)⟩

/-- What a frame that is taken does: a request is remembered and waits, another frame opens
no request. -/
def Effect (s : ResidentInboundSession) (body : GatewayBody) (s' : ResidentInboundSession) : Prop :=
  match asks body with
  | none => Settles s s'
  | some id => s.Takes body ∧ Took s s' id

theorem Effect.settles (h : Effect s body t) (hs : Settles t s') : Effect s body s' := by
  unfold Effect at h ⊢
  cases hasks : asks body with
  | none =>
      rw [hasks] at h
      exact trans_of Settles h hs
  | some id =>
      rw [hasks] at h
      exact ⟨h.1, h.2.settles hs⟩

theorem wp_checkViewer (op : ViewerOperation) (viewer : String) (s : ResidentInboundSession) :
    Tx.wp (checkViewer op viewer) (fun _ s' => s' = s ∧ s.Operable op viewer) (fun _ s' => s' = s) s := by
  unfold checkViewer
  cases op with
  | viewerOpen => simp only [Operable, Tx.wp_bind, Tx.wp_read, Tx.wp_ensure]; tauto
  | viewerClose => simp only [Operable, Tx.wp_bind, Tx.wp_read, Tx.wp_ensure]; tauto
  | viewerSnapshot => simp only [Operable, Tx.wp_bind, Tx.wp_read, Tx.wp_ensure]; tauto

theorem wp_remember (id : String) (s : ResidentInboundSession) :
    Tx.wp (remember id) (fun _ s' => s' = s.withRequest id ∧ id ∉ s.requestIds) (fun _ s' => s' = s) s := by
  by_cases hnew : id ∈ s.requestIds
  · simp [remember, rememberRequest, hnew]
  · rw [Tx.wp_iff, remember_new hnew]
    refine ⟨?_, fun _ _ h => by cases h⟩
    rintro _ _ ⟨⟩
    exact ⟨rfl, hnew⟩

theorem apply_effect (body : GatewayBody) (s : ResidentInboundSession) :
    Tx.wp (apply body) (fun _ s' => Effect s body s') (fun _ s' => s' = s) s := by
  unfold apply
  cases body with
  | helloAck => simp
  | consoleInput viewer payload =>
      simp only [Tx.wp_bind, Tx.wp_read, Tx.wp_ensure]
      exact ⟨fun _ => refl_of Settles s, fun _ => trivial⟩
  | error =>
      simp only [Tx.wp_bind, Tx.wp_read, Tx.wp_pure]
      exact refl_of Settles s
  | operation op id viewer =>
      simp only [Tx.wp_bind, Tx.wp_read, Tx.wp_ensure]
      refine ⟨fun hnew => ⟨fun hlimit => ⟨fun hfree => ?_, fun _ => trivial⟩, fun _ => trivial⟩, fun _ => trivial⟩
      refine Tx.wp_mono ?_ (fun _ _ h => h) (wp_checkViewer op viewer s)
      rintro _ _ ⟨rfl, hviewer⟩
      refine Tx.wp_mono ?_ (fun _ _ h => h) (wp_remember id _)
      rintro _ t ⟨rfl, -⟩
      rw [Tx.wp_write]
      refine ⟨⟨hnew, hlimit, hfree, hviewer⟩, rfl, rfl, ?_⟩
      rintro x (⟨r, hr, rfl⟩ | hx)
      · rcases Table.mem_put.mp hr with rfl | ⟨hr, _⟩
        · exact Or.inl rfl
        · exact Or.inr (Or.inl ⟨r, hr, rfl⟩)
      · exact Or.inr (Or.inr hx)
  | mediaGet id route =>
      simp only [Tx.wp_bind, Tx.wp_read, Tx.wp_ensure]
      refine ⟨fun hlimit => ⟨fun hroute => ?_, fun _ => trivial⟩, fun _ => trivial⟩
      refine Tx.wp_mono ?_ (fun _ _ h => h) (wp_remember id _)
      rintro _ t ⟨rfl, hnew⟩
      rw [Tx.wp_write]
      refine ⟨⟨hnew, hlimit, hroute⟩, rfl, rfl, ?_⟩
      rintro x (hx | hx)
      · exact Or.inr (Or.inl hx)
      · rcases Finset.mem_insert.mp hx with rfl | hx
        · exact Or.inl rfl
        · exact Or.inr (Or.inr hx)

/-- A frame that `receive` returns is taken as `Effect` says, and a request among them has
passed every check. One that it throws at opens no request. -/
theorem receive_effect (frame : GatewayFrame) (s : ResidentInboundSession) :
    Tx.wp (receive frame) (fun _ s' => Effect s frame.body s' ∧ ((asks frame.body).isSome = true → Admits s frame))
      (fun _ s' => Settles s s') s := by
  suffices hframe : Tx.wp (receiveFrame frame)
      (fun _ s' => Effect s frame.body s' ∧ ((asks frame.body).isSome = true → Admits s frame))
      (fun _ s' => Settles s s') s by
    unfold receive
    rw [Tx.wp_bind, Tx.wp_attempt]
    refine Tx.wp_mono (fun _ _ h => Tx.wp_pure.mpr h) ?_ hframe
    intro e s' hs
    simp only [Tx.wp_bind, Tx.wp_write, Tx.wp_throw]
    exact trans_of Settles hs (settles_terminal s')
  have hstay := refl_of Settles s
  unfold receiveFrame
  simp only [Tx.wp_bind, Tx.wp_read, Tx.wp_ensure, Tx.wp_ofExcept]
  refine ⟨fun hterminal => ⟨fun _ hdecodes => ⟨fun hconnection => ⟨fun hseq => ?_, fun _ => hstay⟩,
    fun _ => hstay⟩, fun _ _ => hstay⟩, fun _ => hstay⟩
  cases hack : s.gatewayAck with
  | none =>
      -- no request is taken before the acknowledgement
      cases hbody : frame.body with
      | operation => exact Tx.wp_throw.mpr hstay
      | consoleInput => exact Tx.wp_throw.mpr hstay
      | mediaGet => exact Tx.wp_throw.mpr hstay
      | error e fatal requestId =>
          simp only [Tx.wp_bind, Tx.wp_ensure, advanceSequence, Tx.wp_write]
          refine ⟨fun _ => ⟨trans_of Settles (settles_advanced s) (settles_terminal s.advanced), ?_⟩,
            fun _ => hstay⟩
          intro h
          cases h
      | helloAck instance_ capabilities =>
          simp only [Tx.wp_bind, Tx.wp_ensure, advanceSequence, Tx.wp_write]
          refine ⟨fun _ => ⟨fun _ => ⟨?_, ?_⟩, fun _ => hstay⟩, fun _ => hstay⟩
          · have hacked : Settles s { s with gatewayAck := some frame, negotiated := capabilities } :=
              settles_of_eq rfl rfl rfl rfl
            exact trans_of Settles hacked (settles_advanced _)
          · intro h
            cases h
  | some ack =>
      rw [Tx.wp_bind, wp_requireCapability]
      refine ⟨fun hcapable => ?_, fun _ _ _ => hstay⟩
      have hadmits : Admits s frame :=
        ⟨hterminal, hdecodes, hconnection, hseq, hack ▸ Option.some_ne_none ack, hcapable⟩
      rw [Tx.wp_bind]
      refine Tx.wp_mono ?_ (by rintro _ _ rfl; exact hstay) (apply_effect frame.body s)
      intro _ t ht
      simp only [Tx.wp_bind, advanceSequence, Tx.wp_write, Tx.wp_when]
      have hnext := ht.settles (settles_advanced t)
      exact ⟨fun _ => ⟨hnext.settles (settles_terminal t.advanced), fun _ => hadmits⟩,
        fun _ => ⟨hnext, fun _ => hadmits⟩⟩

/-- What holds of the session as long as no request pushes an outstanding id out. -/
def Sound (s : ResidentInboundSession) : Prop := Knows s.requestIds s.requestOrder s.Outstanding

theorem sound_create (connectionId instanceId : String) (offered : List Capability)
    (known : Option (List Capability)) : Sound (create connectionId instanceId offered known) := by
  refine ⟨Remembers.empty, ?_⟩
  rintro id (⟨r, hr, _⟩ | hid)
  · exact absurd hr Table.not_mem_empty
  · exact absurd hid (Finset.notMem_empty id)

theorem Sound.settles (h : Sound s) (hs : Settles s s') : Sound s' := by
  unfold Sound
  rw [hs.requestIds, hs.requestOrder]
  exact h.settled hs.outstanding

theorem Effect.sound (h : Sound s) (heffect : Effect s frame.body s')
    (hadmits : (asks frame.body).isSome = true → Admits s frame) (hspared : s.Spares (.receive frame)) :
    Sound s' := by
  unfold Effect at heffect
  cases hasks : asks frame.body with
  | none =>
      rw [hasks] at heffect
      exact h.settles heffect
  | some id =>
      rw [hasks] at heffect hadmits
      obtain ⟨htakes, htook⟩ := heffect
      unfold Sound
      rw [htook.requestIds, htook.requestOrder]
      refine h.remembered (takes_new htakes hasks) (hspared ⟨hadmits rfl, htakes⟩) htook.outstanding

theorem guarded_of_sound (h : Sound s) : Guarded s := by
  intro id hid frame s' hasks hok
  have heffect := ((Tx.wp_iff.mp (receive_effect frame s)).1 _ _ hok).1
  unfold Effect at heffect
  rw [hasks] at heffect
  exact takes_new heffect.1 hasks (h.known id hid)

theorem sound_after (h : Sound s) {call : Call} (hspared : s.Spares call) : Sound (s.after hash call) := by
  cases call with
  | receive frame =>
      refine Tx.wp_final (P := Sound) (Tx.wp_mono ?_ ?_ (receive_effect frame s))
      · intro _ s' heffect
        exact heffect.1.sound h heffect.2 hspared
      · intro _ s' hs
        exact h.settles hs
  | operationResult id viewer op e =>
      exact h.settles (Tx.wp_final (P := Settles s) (along_operationResult id viewer op e s))
  | consoleOutput viewer payload =>
      exact h.settles (Tx.wp_final (P := Settles s) (along_consoleOutput viewer payload s))
  | mediaResult id outcome =>
      exact h.settles (Tx.wp_final (P := Settles s) (along_mediaResult id outcome s))
  | completeOperation frame =>
      exact h.settles (Tx.wp_final (P := Settles s) (along_completeOperation frame s))

end ResidentInboundSession

/-! ## Every run -/

/-- In every run of either session in which no accepted request pushes an outstanding request
id out of the history, no outstanding id is taken for a second request in any state. -/
theorem outstanding_refused (hash : List UInt8 → String) (connectionId instanceId : String)
    (capabilities : List Capability) (known : Option (List Capability)) :
    (∀ calls, EachStep (GatewayInboundSession.after hash) GatewayInboundSession.Spares
        (GatewayInboundSession.create connectionId instanceId capabilities) calls →
      Throughout (GatewayInboundSession.after hash) GatewayInboundSession.Guarded
        (GatewayInboundSession.create connectionId instanceId capabilities) calls) ∧
    (∀ calls, EachStep (ResidentInboundSession.after hash) ResidentInboundSession.Spares
        (ResidentInboundSession.create connectionId instanceId capabilities known) calls →
      Throughout (ResidentInboundSession.after hash) ResidentInboundSession.Guarded
        (ResidentInboundSession.create connectionId instanceId capabilities known) calls) := by
  constructor
  · intro calls hspared
    exact throughout_of_eachStep (fun _ => GatewayInboundSession.guarded_of_sound)
      (fun _ _ h => GatewayInboundSession.sound_after h) calls
      (GatewayInboundSession.sound_create connectionId instanceId capabilities) hspared
  · intro calls hspared
    exact throughout_of_eachStep (fun _ => ResidentInboundSession.guarded_of_sound)
      (fun _ _ h => ResidentInboundSession.sound_after h) calls
      (ResidentInboundSession.sound_create connectionId instanceId capabilities known) hspared

section Witness

/-- The gateway asks for a picture and the resident is asked for one: a second request with
the id is refused on both sides. -/
theorem outstanding_refused_zero :
    Throughout (GatewayInboundSession.after fun _ => "") GatewayInboundSession.Guarded
      (GatewayInboundSession.create zeroConnection zeroInstance [.console, .media])
      [.receive zeroHello, .registerRequest zeroConnection zeroRequest .media] ∧
    Throughout (ResidentInboundSession.after fun _ => "") ResidentInboundSession.Guarded
      (ResidentInboundSession.create zeroConnection zeroInstance [.console, .media] none)
      [.receive zeroAck, .receive ⟨zeroConnection, 2, .mediaGet zeroRequest "/frames/watch/1.png"⟩] := by
  have hspared := outstanding_refused (fun _ => "") zeroConnection zeroInstance [.console, .media] none
  refine ⟨hspared.1 _ ⟨trivial, fun _ hdrops => ?_, trivial⟩, hspared.2 _ ⟨fun _ hdrops => ?_, fun _ hdrops => ?_, trivial⟩⟩
  · exact absurd hdrops.1 (by decide)
  · exact absurd hdrops.1 (by decide)
  · exact absurd hdrops.1 (by decide)

end Witness

/-! ## A run longer than the history -/

section LongRun

theorem utf8ByteSize_le (s : String) : s.utf8ByteSize ≤ 4 * s.toList.length := by
  have hlist : ∀ cs : List Char, (String.ofList cs).utf8ByteSize ≤ 4 * cs.length := by
    intro cs
    induction cs with
    | nil => rfl
    | cons c cs ih =>
        have hc := c.utf8Size_le_four
        rw [String.ofList_cons, String.utf8ByteSize_append, String.utf8ByteSize_singleton, List.length_cons]
        omega
  have h := hlist s.toList
  rwa [String.ofList_toList] at h

/-- A character takes six in JSON at most. -/
theorem stringBytes_le (s : String) : stringBytes s ≤ 4 * (6 * s.toList.length + 2) := by
  have hescape : ∀ c : Char, (escapeChar c).length ≤ 6 := by
    intro c
    unfold escapeChar
    split_ifs <;> simp
  have hlen : ∀ cs : List Char, (cs.flatMap escapeChar).length ≤ 6 * cs.length := by
    intro cs
    induction cs with
    | nil => rfl
    | cons c cs ih =>
        rw [List.flatMap_cons, List.length_append, List.length_cons]
        have := hescape c
        omega
  have htotal := utf8ByteSize_le (stringify s)
  have := hlen s.toList
  simp only [stringify, String.toList_ofList, List.length_append, List.length_singleton] at htotal
  unfold stringBytes stringify
  omega

/-- The `n`th request id: its bits as letters. -/
def nthRequest (n : ℕ) : String :=
  "egr1." ++ String.ofList ((List.range 22).map (fun i => if n.testBit i then 'B' else 'A'))

theorem nthRequest_inj {m n : ℕ} (hm : m < 2 ^ 22) (hn : n < 2 ^ 22) (h : nthRequest m = nthRequest n) :
    m = n := by
  have hlist := congrArg String.toList h
  rw [nthRequest, nthRequest, String.toList_append, String.toList_append, List.append_cancel_left_eq,
    String.toList_ofList, String.toList_ofList, List.map_inj_left] at hlist
  refine Nat.eq_of_testBit_eq (fun i => ?_)
  by_cases hi : i < 22
  · have hbit := hlist i (List.mem_range.mpr hi)
    cases hmi : m.testBit i <;> cases hni : n.testBit i <;> simp [hmi, hni] at hbit <;> rfl
  · have hpow : 2 ^ 22 ≤ 2 ^ i := Nat.pow_le_pow_right (by decide) (by omega)
    rw [Nat.testBit_lt_two_pow (hm.trans_le hpow), Nat.testBit_lt_two_pow (hn.trans_le hpow)]

theorem nthRequest_isId (n : ℕ) : isId "egr1" (nthRequest n) = true := by
  have hletters : fits publicId (String.ofList ((List.range 22).map (fun i => if n.testBit i then 'B' else 'A'))) =
      true := by
    have hclass : ∀ b : Bool, base64urlClass (if b then 'B' else 'A') = true := by decide
    simp only [fits, Bool.and_eq_true, beq_iff_eq, List.all_eq_true, String.toList_ofList]
    refine ⟨by simp [publicId], ?_⟩
    rintro ⟨p, c⟩ hp
    obtain ⟨hp, hc⟩ := List.of_mem_zip hp
    obtain rfl := List.eq_of_mem_replicate hp
    obtain ⟨i, -, rfl⟩ := List.mem_map.mp hc
    exact hclass _
  exact fits_append (fits_append (fits_literal "egr1") (fits_literal ".")) hletters

/-- The resident could not read the picture. -/
def unread (seq : ℕ) (id : String) : ResidentFrame :=
  ⟨zeroConnection, seq, (MediaOutcome.failed ⟨"gone", "gone"⟩).body id⟩

theorem unread_decodes (hash : List UInt8 → String) {seq : ℕ} (hpos : 1 ≤ seq) (hseq : seq < 10 ^ 5) (n : ℕ) :
    decodeResidentFrame hash (unread seq (nthRequest n)) = .ok () := by
  have hnumber : numberBytes seq ≤ 20 := by
    have hlen := (Nat.length_repr_le_iff (n := seq) (k := 5) (by decide)).mpr hseq
    have hle := utf8ByteSize_le (toString seq)
    have heq : (toString seq).toList.length = seq.repr.length := rfl
    unfold numberBytes
    omega
  have hid : stringBytes (nthRequest n) ≤ 656 := by
    have hlen : (nthRequest n).toList.length = 27 := by simp [nthRequest]
    have hle := stringBytes_le (nthRequest n)
    rwa [hlen] at hle
  have hsize : encodedBytes zeroConnection seq (unread seq (nthRequest n)).body.type
      (unread seq (nthRequest n)).body.fields ≤ LIMITS.frameBytes := by
    have hconst : stringBytes zeroConnection + stringBytes "media.result" + boolBytes false +
        ErrorDetail.bytes ⟨"gone", "gone"⟩ + (["version", "connectionId", "seq", "type", "requestId", "ok",
          "error"].map stringBytes).sum ≤ 1000 := by decide
    simp only [List.map_cons, List.map_nil, List.sum_cons, List.sum_nil] at hconst
    simp only [unread, MediaOutcome.body, ResidentBody.type, ResidentBody.fields, encodedBytes, objectBytes,
      arrayBytes, List.cons_append, List.nil_append, List.map_cons, List.map_nil, List.sum_cons, List.sum_nil,
      List.length_cons, List.length_nil, LIMITS.frameBytes]
    omega
  have henvelope : envelope (encodedBytes zeroConnection seq (unread seq (nthRequest n)).body.type
      (unread seq (nthRequest n)).body.fields) zeroConnection seq = .ok () := by
    have hconnection : connectionId zeroConnection = .ok () := by decide
    have hinteger : safeInteger seq "seq" 1 = .ok () :=
      if_pos ⟨hpos, by unfold maxSafeInteger; omega⟩
    unfold envelope
    rw [Protocol.ensure, if_pos hsize, hconnection, hinteger]
    rfl
  have hrequest : requestId (nthRequest n) = .ok () := if_pos (nthRequest_isId n)
  have hdetail : errorDetail ⟨"gone", "gone"⟩ = .ok () := by decide
  unfold decodeResidentFrame
  show (do
    envelope (encodedBytes zeroConnection seq (unread seq (nthRequest n)).body.type
      (unread seq (nthRequest n)).body.fields) zeroConnection seq
    requestId (nthRequest n)
    errorDetail ⟨"gone", "gone"⟩) = Except.ok ()
  rw [henvelope, hrequest, hdetail]
  rfl

/-! ### The rounds -/

open GatewayInboundSession

/-- The gateway asks for a picture and the resident answers. -/
def asked (k : ℕ) : List GatewayInboundSession.Call :=
  [.registerRequest zeroConnection (nthRequest (k + 1)) .media, .receive (unread (k + 2) (nthRequest (k + 1)))]

/-- One request waits through `k` others that were answered. -/
structure Waited (k : ℕ) (s : GatewayInboundSession) : Prop where
  terminal : s.terminal = false
  hello : s.residentHello ≠ none
  connection : s.connectionId = zeroConnection
  media : .media ∈ s.negotiated
  seq : s.nextSeq = k + 2
  pending : s.pending.rows = [(nthRequest 0, .media)]
  remembers : Remembers s.requestIds s.requestOrder
  order : s.requestOrder = (List.range (k + 1)).map nthRequest

variable {hash : List UInt8 → String} {k : ℕ} {s : GatewayInboundSession}

theorem Waited.fresh (h : Waited k s) (hk : k + 1 < 2 ^ 22) : nthRequest (k + 1) ∉ s.requestIds := by
  rw [h.remembers.mem, h.order, List.mem_map]
  rintro ⟨i, hi, heq⟩
  have := nthRequest_inj (by have := List.mem_range.mp hi; omega) hk heq
  exact absurd (List.mem_range.mp hi) (by omega)

/-- A request for a picture under a new id is accepted. -/
theorem registerRequest_media {id : String} (hterminal : s.terminal = false) (hhello : s.residentHello ≠ none)
    (hconnection : s.connectionId = zeroConnection) (hmedia : .media ∈ s.negotiated) (hnew : id ∉ s.requestIds)
    (hroom : s.pending.rows.length < LIMITS.pendingRequestsPerConnection) :
    registerRequest zeroConnection id .media s = (.ok (), s.registered id .media) := by
  simp only [registerRequest, Tx.bind_ok, Tx.read_ok, Tx.ensure_ok, Tx.ofExcept_ok, Tx.write_ok]
  refine ⟨s, s, ⟨rfl, rfl⟩, (), s, ⟨hterminal, rfl⟩, (), s, ⟨hhello, rfl⟩, (), s, ⟨hconnection.symm, rfl⟩, (), s,
    ⟨hnew, rfl⟩, (), s, ⟨hroom, rfl⟩, (), s, ?_, (), s, rfl, _, s, ⟨rememberRequest_new hnew, rfl⟩, rfl⟩
  refine requireCapability_of (fun c hc => ?_) s
  rw [show PendingRequest.media.type = "media.get" from rfl, needs_media.1] at hc
  exact Option.some.inj hc ▸ hmedia

/-- The history below its limit keeps every id. -/
theorem remembered_below {order : List String} (ids : Finset String) (id : String)
    (h : order.length < LIMITS.requestHistoryPerConnection) :
    remembered ids order id = (insert id ids, order ++ [id]) := by
  refine if_neg ?_
  rw [List.length_append, List.length_singleton]
  omega

/-- A request and its answer leave the maps as they were. -/
theorem erase_put {α : Type} {m : RequestMap α} {id : String} {x : α} (h : ∀ r ∈ m, r.1 ≠ id) :
    (RequestMap.erase (m.put (id, x)) id).rows = m.rows := by
  show (m.put (id, x)).rows.filter _ = m.rows
  rw [Table.rows_put_of_none (Table.get?_eq_none.mpr h), List.filter_append]
  have hkeep : m.rows.filter (fun r => !decide (r.1 = id)) = m.rows :=
    List.filter_eq_self.mpr (fun r hr => by simpa using h r hr)
  have hdrop : [(id, x)].filter (fun r => !decide (r.1 = id)) = [] := by simp
  rw [hkeep, hdrop, List.append_nil]

theorem advanced_of (h : s.nextSeq ≠ maxSafeInteger) : s.advanced = { s with nextSeq := s.nextSeq + 1 } :=
  if_neg h

theorem Waited.asked (h : Waited k s) (hk : k + 1 < LIMITS.requestHistoryPerConnection) :
    Waited (k + 1) (run (after hash) s (Protocol.asked k)) := by
  have hlimit : LIMITS.requestHistoryPerConnection = 4096 := rfl
  have hnew := h.fresh (by omega)
  have hlen : s.requestOrder.length < LIMITS.requestHistoryPerConnection := by
    rw [h.order, List.length_map, List.length_range]
    exact hk
  have hregister := registerRequest_media h.terminal h.hello h.connection h.media hnew (by rw [h.pending]; decide)
  have hother : ∀ r ∈ s.pending, r.1 ≠ nthRequest (k + 1) := by
    intro r hr heq
    have hr : r ∈ s.pending.rows := hr
    rw [h.pending, List.mem_singleton] at hr
    have := nthRequest_inj (by omega) (by omega) ((congrArg Prod.fst hr).symm.trans heq)
    omega
  -- the answer is the frame the session waits for
  have hget : (s.registered (nthRequest (k + 1)) .media).pending.get? (nthRequest (k + 1)) =
      some (nthRequest (k + 1), .media) := (Table.get?_put _).trans (if_pos rfl)
  have hadmits : Admits hash (s.registered (nthRequest (k + 1)) .media)
      (unread (k + 2) (nthRequest (k + 1))) :=
    { terminal := h.terminal
      decodes := unread_decodes hash (by omega) (by omega) (k + 1)
      connection := h.connection.symm
      seq := h.seq.symm
      hello := h.hello
      capable := fun c hc => by
        rw [show (unread (k + 2) (nthRequest (k + 1))).body.type = "media.result" from rfl, needs_media.2] at hc
        exact Option.some.inj hc ▸ h.media }
  have hreceive := receive_of_apply hadmits (apply_mediaResult (.failed ⟨"gone", "gone"⟩) hget) rfl
  have hrun : run (after hash) s (Protocol.asked k) = advanced { s.registered (nthRequest (k + 1)) .media with
      pending := (s.registered (nthRequest (k + 1)) .media).pending.erase (nthRequest (k + 1)) } := by
    simp only [Protocol.asked, run_cons, run_nil, after, hregister, hreceive]
  have hseq : s.nextSeq ≠ maxSafeInteger := by
    rw [h.seq]
    unfold maxSafeInteger
    omega
  have hremembered := remembered_below s.requestIds (nthRequest (k + 1)) hlen
  rw [hrun.trans (advanced_of (by exact hseq))]
  refine ⟨h.terminal, h.hello, h.connection, h.media, congrArg (· + 1) h.seq, ?_, h.remembers.remembered hnew, ?_⟩
  · exact (erase_put hother).trans h.pending
  · show (remembered _ _ _).2 = _
    rw [hremembered, h.order, List.range_succ (n := k + 1), List.map_append]
    rfl

theorem waited_rounds (h : Waited 0 s) :
    ∀ k, k < LIMITS.requestHistoryPerConnection →
      Waited k (run (after hash) s ((List.range k).flatMap Protocol.asked))
  | 0, _ => h
  | k + 1, hk => by
      rw [List.range_succ, List.flatMap_append, run_append, List.flatMap_singleton]
      exact (waited_rounds h k (by omega)).asked hk

/-- The hello, a request that is never answered, and one more request than the history has
room for. -/
def longRun : List GatewayInboundSession.Call :=
  [.receive zeroHello, .registerRequest zeroConnection (nthRequest 0) .media] ++
    (List.range 4095).flatMap Protocol.asked ++ [.registerRequest zeroConnection (nthRequest 4096) .media]

theorem Waited.forgotten (h : Waited 4095 s) :
    (s.registered (nthRequest 4096) .media).Outstanding (nthRequest 0) ∧
      ∃ s', registerRequest zeroConnection (nthRequest 0) .media (s.registered (nthRequest 4096) .media) =
        (.ok (), s') := by
  have hids : nthRequest 0 ∉ (s.registered (nthRequest 4096) .media).requestIds := by
    have hlen : LIMITS.requestHistoryPerConnection < (s.requestOrder ++ [nthRequest 4096]).length := by
      rw [h.order, List.length_append, List.length_map, List.length_range]
      decide
    have hhead : (s.requestOrder ++ [nthRequest 4096]).headD (nthRequest 4096) = nthRequest 0 := by
      rw [h.order, List.range_succ_eq_map]
      rfl
    show nthRequest 0 ∉ (remembered s.requestIds s.requestOrder (nthRequest 4096)).1
    rw [remembered, if_pos hlen, hhead]
    exact Finset.notMem_erase _ _
  have hrows : (s.registered (nthRequest 4096) .media).pending.rows =
      [(nthRequest 0, .media), (nthRequest 4096, .media)] := by
    have hfree : s.pending.get? (nthRequest 4096) = none := by
      refine Table.get?_eq_none.mpr (fun r hr heq => ?_)
      have hr : r ∈ s.pending.rows := hr
      rw [h.pending, List.mem_singleton] at hr
      have := nthRequest_inj (by decide) (by decide) ((congrArg Prod.fst hr).symm.trans heq)
      omega
    show (s.pending.put _).rows = _
    rw [Table.rows_put_of_none hfree, h.pending]
    rfl
  refine ⟨⟨(nthRequest 0, .media), ?_, rfl⟩, _, registerRequest_media h.terminal h.hello h.connection h.media hids ?_⟩
  · show _ ∈ (s.registered (nthRequest 4096) .media).pending.rows
    rw [hrows]
    exact List.mem_cons_self
  · rw [hrows]
    decide

theorem waited_zero : Waited 0 (run (after fun _ => "") (create zeroConnection zeroInstance [.console, .media])
    [.receive zeroHello, .registerRequest zeroConnection (nthRequest 0) .media]) where
  terminal := by decide
  hello := by decide
  connection := by decide
  media := by decide
  seq := by decide
  pending := by decide
  remembers := ⟨by decide, by
    intro x
    have hids : (run (after fun _ => "") (create zeroConnection zeroInstance [.console, .media])
        [.receive zeroHello, .registerRequest zeroConnection (nthRequest 0) .media]).requestIds =
          {nthRequest 0} := by decide
    have horder : (run (after fun _ => "") (create zeroConnection zeroInstance [.console, .media])
        [.receive zeroHello, .registerRequest zeroConnection (nthRequest 0) .media]).requestOrder =
          [nthRequest 0] := by decide
    rw [hids, horder, Finset.mem_singleton, List.mem_singleton]⟩
  order := by decide

/-- Behind the last request of the run, the id that still waits is taken a second time. -/
theorem outstanding_taken_again :
    ¬Throughout (after fun _ => "") Guarded (create zeroConnection zeroInstance [.console, .media]) longRun := by
  intro hthroughout
  have hguarded := hthroughout.last
  rw [longRun, run_append, run_append] at hguarded
  have hwaited := @waited_rounds (fun _ => "") _ waited_zero 4095 (by decide)
  generalize run (after fun _ => "") (run _ _ _) ((List.range 4095).flatMap Protocol.asked) = s at hguarded hwaited
  obtain ⟨hout, s', hagain⟩ := hwaited.forgotten
  have hnew := hwaited.fresh (by decide)
  have hregister := registerRequest_media hwaited.terminal hwaited.hello hwaited.connection hwaited.media hnew
    (by rw [hwaited.pending]; decide)
  rw [run_cons, run_nil, after, hregister] at hguarded
  exact hguarded _ hout _ _ _ hagain

end LongRun

end Elpis.Gateway.Protocol
