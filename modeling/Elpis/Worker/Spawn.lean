import Elpis.Worker.Mailbox
import Mathlib.Data.List.AList

/-!
# Workers: starting, dismissing, recovering, cleaning up

`WorkerSpawnBroker` of `src/worker/spawn.ts`. Its methods pause where they
`await`, and other calls run in between. A `Thread` is a call at one of its pauses
with what it still needs; a slice is the program from one pause to the next, or
to the end of the call. Nothing runs in between within a slice, so `isCurrent`
gives one answer there. The outcome of an awaited outside call, the answers of
`isCurrent` and the clock are inputs of the slice.

A process restart keeps the rows and drops everything in memory.
-/

namespace Elpis.Worker

open Elpis.Lib Elpis.Mind

/-! ## Errors -/

inductive SpawnErrorCode where
  | disabled | invalidRequest | notFound | unavailable | blocked | conflict | capacity
  | workspaceFailed | provisionFailed | cleanupFailed
deriving DecidableEq, Repr

inductive SpawnError where
  | spawn (code : SpawnErrorCode) (message : String)
  /-- An error of a store or of a file. -/
  | other (message : String)
deriving DecidableEq

/-! ## State -/

inductive ProvisionState where
  | pending (receipt : Option ProvisionReceipt)
  | ready (receipt : ProvisionReceipt)
  | succeeded (receipt : Option ProvisionReceipt)
  | failed (error : String) (receipt : Option ProvisionReceipt)
  | missing
deriving DecidableEq

inductive PromiseState where
  | pending | resolved | rejected
deriving DecidableEq, Repr

/-- A call at one of its pauses. The promises of `provisioning` and those of
`cleaning` are numbered apart. -/
inductive Thread where
  /-- `start` awaits `prepareSource`. -/
  | startSource (id : String) (promise : ℕ)
  /-- `start` awaits `provision`. -/
  | startProvision (id : String) (promise : ℕ)
  /-- `start`, no longer current, awaits `cleanup` after a failed provision. -/
  | startFailedCleanup (id : String) (promise : ℕ) (error : String)
  /-- `start` awaits `cleanupRuntime` after a failed provision. -/
  | startFailedWait (id : String) (promise job : ℕ) (changed : Bool)
  /-- `start`, no longer current, awaits `cleanup` after a provision. -/
  | startReadyCleanup (id : String) (promise : ℕ) (receipt : ProvisionReceipt)
  /-- `start` awaits `cleanupRuntime` because the session was revoked. -/
  | startRevokedWait (id : String) (promise job : ℕ)
  /-- `dismiss` awaits the provisioning of the session. -/
  | dismissProvisioning (id : String) (promise : ℕ)
  /-- `dismiss` awaits `cleanupRuntime`. -/
  | dismissCleanup (id : String) (job : ℕ)
  /-- The flow inside `cleanupRuntime` awaits `cleanup`. `always` is the default of
  `canPersist`. -/
  | cleaning (id : String) (job : ℕ) (always : Bool)
  /-- That flow has ended; its promise is about to settle. -/
  | cleaned (id : String) (job : ℕ) (ok : Bool)
  /-- `recoverState` awaits `inspect`. `thenCleanup` if `recover` called it. -/
  | recoverInspect (id : String) (rest : List String) (thenCleanup : Bool)
  /-- `recover` is about to go on with `cleanupPending`. -/
  | recovered
  /-- `cleanupPending` awaits `inspect`. -/
  | pendingInspect (id : String) (graceExpired : Bool) (rest : List (String × Bool))
  /-- `cleanupPending` awaits `cleanupRuntime`. -/
  | pendingCleanup (id : String) (job : ℕ) (rest : List (String × Bool))
  /-- The call has returned or thrown. -/
  | returned (result : Except SpawnError (List SessionRow))

structure World where
  db : WorkerDb
  /-- `provisioning`, session to promise. -/
  provisioning : AList (fun _ : String => ℕ)
  /-- `cleaning`, session to promise. -/
  cleaning : AList (fun _ : String => ℕ)
  finishCleanupObservedAt : AList (fun _ : String => ℤ)
  /-- Which promises of `provisioning` have settled; they only resolve. -/
  settled : List Bool
  /-- The promises of `cleaning`. -/
  jobs : List PromiseState
  threads : List Thread

/-- The memory of a fresh process over stored rows. -/
def World.boot (db : WorkerDb) : World := ⟨db, ∅, ∅, ∅, [], [], []⟩

abbrev SpawnM := Tx World SpawnError

/-! ## What a slice is given -/

structure SpawnConfig where
  enabled : Bool
  maxConcurrent : ℕ
  mainModel : String
  /-- `configForLlmRef`: the error it throws for a model, if any. -/
  modelError : String → Option String
  hasWorkspace : Bool

structure Slice where
  /-- `isCurrent()`. -/
  current : Bool
  now : Time
  failedAt : Time
  monotonicNow : ℤ
  /-- What `discardSource` throws, if it does. -/
  discardError : Option String

structure SourceFailure where
  message : String
  dirtySource : Bool

/-- What the awaited outside call did; `settled` when a promise of our own is awaited. -/
inductive Outcome where
  | source (r : Except SourceFailure (Option SourceReceipt))
  | provisioned (r : Except String ProvisionReceipt)
  | cleanedUp (r : Except String Unit)
  | inspected (r : Except String ProvisionState)
  | settled

/-! ## Statements on rows -/

namespace World

/-- `UPDATE worker_sessions SET f WHERE id = ? AND p`. -/
def setSession (w : World) (id : String) (p : SessionRow → Bool)
    (f : SessionRow → SessionRow) (hf : ∀ r, (f r).id = r.id) : World :=
  { w with db := w.db.setSession id p f hf }

def byId (w : World) (id : String) : Option SessionRow := w.db.sessions.get? id

def cleanupCompleted (w : World) (id : String) : Bool :=
  (w.byId id).any (fun r => r.runtimeCleanupCompletedAt.isSome)

/-- `list`: newest first. -/
def list (w : World) : List SessionRow :=
  orderBy (fun a b => decide (b.createdAt < a.createdAt) ||
    (decide (a.createdAt = b.createdAt) && decide (b.id ≤ a.id))) w.db.sessions.rows

/-- The rows `cleanupPending` selects. -/
def cleanupSelection (w : World) : List SessionRow :=
  orderBy (fun a b => decide (a.updatedAt < b.updatedAt) ||
    (decide (a.updatedAt = b.updatedAt) && decide (a.id ≤ b.id)))
    (w.db.sessions.select (fun r => r.status.terminal && r.runtimeCleanupCompletedAt.isNone))

/-- The time of the finish message of a session, for `updated_at`. -/
def finishTime (db : WorkerDb) (r : SessionRow) : Time :=
  ((db.finishOf r.id).map MessageRow.createdAt).getD r.updatedAt

end World

/-- `status = 'finished'` for an active session that has a finish message. -/
def markFinished (id : String) : SpawnM Unit := do
  let db ← Tx.read World.db
  Tx.write (fun w => w.setSession id (·.status.active)
    (fun r => { r with
      status := .finished, updatedAt := max r.updatedAt (World.finishTime db r),
      lastError := none })
    (fun _ => rfl))

/-! ## Promises and the maps -/

def settleProvisioning (promise : ℕ) : SpawnM Unit :=
  Tx.write (fun w => { w with settled := w.settled.set promise true })

/-- A cleanup promise: `Promise.withResolvers()`, or `Promise.resolve()`. -/
def newJob (state : PromiseState) : SpawnM ℕ := do
  let n ← Tx.read (fun w => w.jobs.length)
  Tx.write (fun w => { w with jobs := w.jobs ++ [state] })
  pure n

def pushThread (t : Thread) : SpawnM Unit :=
  Tx.write (fun w => { w with threads := w.threads ++ [t] })

/-- The `finally` of `start` once its promise has settled. -/
def endProvisioning (id : String) (promise : ℕ) : SpawnM Unit :=
  Tx.write (fun w =>
    if w.provisioning.lookup id = some promise then
      { w with provisioning := w.provisioning.erase id }
    else w)

def requireOperationCurrent (s : Slice) : SpawnM Unit :=
  Tx.ensure (s.current = true) (.spawn .unavailable "worker supervisor is disposed")

/-- `cleanupRuntime`; returns the promise it gives its caller. -/
def cleanupRuntime (id : String) (always : Bool) : SpawnM ℕ := do
  let completed ← Tx.read (fun w => w.cleanupCompleted id)
  if completed then newJob .resolved
  else do
    let existing ← Tx.read (fun w => w.cleaning.lookup id)
    match existing with
    | some job => pure job
    | none => do
        let job ← newJob .pending
        Tx.write (fun w => { w with cleaning := w.cleaning.insert id job })
        pushThread (.cleaning id job always)
        pure job

/-! ## Starting -/

/-- The `unknown` options of `start`. -/
inductive StartValue where
  | undefined
  | notObject
  | object (entries : List (String × Option (Option String)))

/-- An entry holds `none` for a value that is neither `undefined` nor a string. -/
def parseStartOptions : StartValue → Except SpawnError (Option String)
  | .undefined => .ok none
  | .notObject => .error (.spawn .invalidRequest "worker options must be an object")
  | .object entries =>
      match entries.find? (fun e => decide (e.1 ≠ "modelRef")) with
      | some extra =>
          .error (.spawn .invalidRequest ("unknown worker option " ++ Js.stringify extra.1))
      | none =>
          match entries.find? (fun e => decide (e.1 = "modelRef")) with
          | none | some (_, some none) => .ok none
          | some (_, none) => .error (.spawn .invalidRequest "modelRef must be a string")
          | some (_, some (some ref)) => .ok (some ref)

/-- A canonical Mind identity. -/
abbrev CanonicalId := { id : MindId // isMindId id = true }

def canonicalId (value : String) : Except SpawnError CanonicalId :=
  if h : isMindId value = true then .ok ⟨value, h⟩
  else .error (.spawn .invalidRequest "mindId must be a canonical elm- Mind identity")

def validateMind (mind : MindDb) (now : Time) (value : String) :
    Except SpawnError CanonicalId := do
  let id ← canonicalId value
  match mind.get now value with
  | none => .error (.spawn .notFound "Mind item is unavailable")
  | some item =>
      if item.row.archivedAt.isSome ∨ item.row.status.closed = true then
        .error (.spawn .unavailable "Mind item is closed")
      else if item.row.status = .proposal then
        .error (.spawn .blocked "Mind proposal is not committed work")
      else if item.row.status = .inbox ∨ item.row.status = .waiting ∨
          item.effectiveStatus = .blocked then
        .error (.spawn .blocked "Mind item is not ready for a worker")
      else .ok id

/-- A new session row. -/
def spawningRow (id slug modelRef : String) (mindId : CanonicalId) (digest : String)
    (now : Time) : SessionRow where
  id := id
  slug := slug
  status := .spawning
  modelRef := modelRef
  mindId := mindId.1
  runtime := .kubernetes
  controlTokenDigest := digest
  podName := none
  podUid := none
  workspaceRef := none
  source := none
  createdAt := now
  updatedAt := now
  lastError := none
  completionNotifiedAt := none
  runtimeCleanupCompletedAt := none
  runtimeCleanupError := none
  canonical := mindId.2

/-- What `start` gets from the outside: the drawn identities, the slug, the digest of
the new credential, and the Mind store as it stands. -/
structure StartDraws where
  ids : List String
  slug : String
  digest : String
  mind : MindDb

/-- `INSERT INTO worker_sessions`. -/
def insertSession (mind : MindDb) (row : SessionRow) : SpawnM Unit := do
  let accepted ← Tx.read (fun w => w.db.acceptsSession mind row)
  Tx.ensure (accepted = true) (.spawn .conflict "worker_sessions constraint failed")
  let inserted ← Tx.read (fun w => w.db.sessions.insert? row)
  let sessions ← Tx.require inserted
    (.spawn .conflict "UNIQUE constraint failed: worker_sessions.id")
  Tx.write (fun w => { w with db := { w.db with sessions := sessions } })

/-- The admission transaction of `start`. -/
def admission (cfg : SpawnConfig) (mindId : CanonicalId) (modelRef : String) (draws : StartDraws)
    (now : Time) : SpawnM String :=
  Tx.transaction (do
    let active ← Tx.read (fun w => w.db.activeSessions)
    Tx.ensure (active.length < cfg.maxConcurrent) (.spawn .capacity "worker capacity is full")
    Tx.ensure (∀ r ∈ active, r.mindId ≠ mindId.1)
      (.spawn .conflict "Mind item already has an active worker")
    let taken ← Tx.read (fun w => w.db.sessions.rows.map SessionRow.id)
    let id ← Tx.require (((draws.ids.take 32).find? (fun c => decide (c ∉ taken))).filter
      (fun c => decide (c ≠ ""))) (.spawn .conflict "worker id space is exhausted")
    insertSession draws.mind (spawningRow id draws.slug modelRef mindId draws.digest now)
    pure id)

/-- `start` up to its first pause. -/
def start (cfg : SpawnConfig) (s : Slice) (mindId : String) (value : StartValue)
    (draws : StartDraws) : SpawnM Thread := do
  requireOperationCurrent s
  Tx.ensure (cfg.enabled = true) (.spawn .disabled "workers are disabled")
  let item ← Tx.ofExcept (validateMind draws.mind s.now mindId)
  let input ← Tx.ofExcept (parseStartOptions value)
  let modelRef := input.getD cfg.mainModel
  Tx.ensure (cfg.modelError modelRef = none)
    (.spawn .invalidRequest (boundedError ((cfg.modelError modelRef).getD "")))
  let id ← admission cfg item modelRef draws s.now
  let promise ← Tx.read (fun w => w.settled.length)
  Tx.write (fun w => { w with
    settled := w.settled ++ [false]
    provisioning := w.provisioning.insert id promise })
  pure (if cfg.hasWorkspace then .startSource id promise else .startProvision id promise)

def discardSource (s : Slice) : SpawnM Unit :=
  Tx.ensure (s.discardError = none) (.other (s.discardError.getD ""))

/-- The `try` after `prepareSource`: bind the source to a session that still spawns. -/
def bindSource (s : Slice) (id : String)
    (r : Except SourceFailure (Option SourceReceipt)) : SpawnM Unit := do
  match r with
  | .error e => Tx.throw (.other e.message)
  | .ok source => do
      requireOperationCurrent s
      match source with
      | none => pure ()
      | some receipt => do
          let unbound := fun (r : SessionRow) =>
            decide (r.status = .spawning) && r.source.isNone
          let bound ← Tx.read (fun w => w.db.changes id unbound)
          Tx.ensure (bound = true → WorkerDb.acceptsSource receipt = true)
            (.other "worker_sessions constraint failed")
          Tx.write (fun w => w.setSession id unbound
            (fun r => { r with source := some receipt, updatedAt := s.now }) (fun _ => rfl))
          if bound then pure ()
          else do
            discardSource s
            Tx.throw (.spawn .conflict "worker was revoked during source preparation")

/-- The message of an error. -/
def SpawnError.text : SpawnError → String
  | .spawn _ message => message
  | .other message => message

/-- The `catch` after `prepareSource`. The session has had no Pod, so there is
nothing left to clean up. -/
def sourceFailed (s : Slice) (id : String) (dirtySource : Bool) (e : SpawnError) :
    SpawnM Unit := do
  discardSource s
  requireOperationCurrent s
  Tx.write (fun w => w.setSession id (fun r => decide (r.status = .spawning))
    (fun r => { r with
      status := .failed, updatedAt := max (max r.createdAt r.updatedAt) s.failedAt,
      lastError := some (boundedError e.text), completionNotifiedAt := none,
      runtimeCleanupCompletedAt := some (max (max r.createdAt r.updatedAt) s.failedAt),
      runtimeCleanupError := none })
    (fun _ => rfl))
  match e with
  | .spawn .. => Tx.throw e
  | .other _ =>
      Tx.throw (.spawn .workspaceFailed
        ((if dirtySource then "worker source repository must be clean; checkpoint changes before starting a worker"
          else "worker source preparation failed") ++
          "; inspect elpis.worker.status(\"" ++ id ++ "\") for details"))

/-- `start` after `prepareSource`. -/
def afterSource (s : Slice) (id : String) (promise : ℕ)
    (r : Except SourceFailure (Option SourceReceipt)) : SpawnM Thread := do
  let bound ← Tx.attempt (bindSource s id r)
  match bound with
  | .ok () => pure (.startProvision id promise)
  | .error e => do
      let dirty := match r with
        | .error failure => failure.dirtySource
        | .ok _ => false
      let thrown ← Tx.attempt (sourceFailed s id dirty e)
      settleProvisioning promise
      endProvisioning id promise
      match thrown with
      | .error e => Tx.throw e
      | .ok () => pure (.returned (.ok []))

/-- The session `start` returns. -/
def returnSession (id : String) (promise : ℕ) : SpawnM Thread := do
  endProvisioning id promise
  let row ← Tx.read (fun w => w.byId id)
  pure (.returned (.ok row.toList))

/-- `start` after a failed provision, while current. -/
def provisionFailed (s : Slice) (id : String) (promise : ℕ) (error : String) :
    SpawnM Thread := do
  let spawning := fun (r : SessionRow) => decide (r.status = .spawning)
  let changed ← Tx.read (fun w => w.db.changes id spawning)
  Tx.write (fun w => w.setSession id spawning
    (fun r => { r with
      status := .failed, updatedAt := s.now, lastError := some (boundedError error),
      completionNotifiedAt := none })
    (fun _ => rfl))
  let row ← Tx.read (fun w => w.byId id)
  if (row.any (fun r => decide (r.status = .finished))) = true then returnSession id promise
  else do
    let job ← cleanupRuntime id true
    pure (.startFailedWait id promise job changed)

/-- `start` after a provision, while current. -/
def provisionReady (s : Slice) (id : String) (promise : ℕ) (receipt : ProvisionReceipt) :
    SpawnM Thread := do
  let spawning := fun (r : SessionRow) => decide (r.status = .spawning)
  let changed ← Tx.read (fun w => w.db.changes id spawning)
  Tx.write (fun w => w.setSession id spawning
    (fun r => { r with
      status := .running, podName := some receipt.podName, podUid := receipt.podUid,
      workspaceRef := some receipt.workspaceRef, updatedAt := s.now, lastError := none })
    (fun _ => rfl))
  let row ← Tx.read (fun w => w.byId id)
  if changed = true ∨ (row.any (fun r => decide (r.status = .finished))) = true then
    returnSession id promise
  else do
    let job ← cleanupRuntime id true
    pure (.startRevokedWait id promise job)

/-- `start` after `provision`. -/
def afterProvision (s : Slice) (id : String) (promise : ℕ)
    (r : Except String ProvisionReceipt) : SpawnM Thread := do
  settleProvisioning promise
  match r with
  | .error e =>
      if s.current then provisionFailed s id promise e
      else pure (.startFailedCleanup id promise e)
  | .ok receipt =>
      if s.current then provisionReady s id promise receipt
      else pure (.startReadyCleanup id promise receipt)

/-- End `start` with an error. -/
def throwFromStart (id : String) (promise : ℕ) (e : SpawnError) : SpawnM Thread := do
  endProvisioning id promise
  Tx.throw e

def disposedError : SpawnError := .spawn .unavailable "worker supervisor is disposed"

def revokedError : SpawnError := .spawn .conflict "worker was revoked during provisioning"

/-! ## Dismissing -/

/-- `resolve`: by identity, by slug, or by the beginning of an identity. -/
def resolve (ref : String) : SpawnM SessionRow := do
  Tx.ensure (Js.trim ref ≠ "") (.spawn .invalidRequest "worker ref must be a string")
  let clean := if ref.toList.take 7 = "worker:".toList then String.ofList (ref.toList.drop 7)
    else ref
  let rows ← Tx.read (fun w => w.db.sessions.select (fun r =>
    decide (r.id = clean) || decide (r.slug = clean) ||
      sqlLike (clean.toList ++ ['%']) r.id.toList))
  match rows with
  | [] => Tx.throw (.spawn .notFound "worker session is unavailable")
  | [row] => pure row
  | _ => Tx.throw (.spawn .conflict "worker ref is ambiguous")

/-- `dismiss` once the provisioning of the session is over. -/
def dismissCleanup (s : Slice) (id : String) : SpawnM Thread := do
  requireOperationCurrent s
  let job ← cleanupRuntime id false
  pure (.dismissCleanup id job)

/-- `dismiss` up to its first pause. -/
def dismiss (s : Slice) (ref : String) : SpawnM Thread := do
  requireOperationCurrent s
  let session ← resolve ref
  let changed ← Tx.read (fun w => w.db.changes session.id (·.status.active))
  Tx.write (fun w => w.setSession session.id (·.status.active)
    (fun r => { r with status := .dismissed, updatedAt := s.now }) (fun _ => rfl))
  let revoked ← Tx.read (fun w => w.byId session.id)
  if changed = false ∧ (revoked.all (fun r =>
      decide (r.status ≠ .dismissed) || r.runtimeCleanupCompletedAt.isSome)) = true then
    pure (.returned (.ok revoked.toList))
  else do
    let provisioning ← Tx.read (fun w => w.provisioning.lookup session.id)
    match provisioning with
    | some promise => pure (.dismissProvisioning session.id promise)
    | none => dismissCleanup s session.id

/-- `dismiss` after `cleanupRuntime`. -/
def afterDismissCleanup (s : Slice) (id : String) (state : PromiseState) :
    SpawnM Thread := do
  requireOperationCurrent s
  Tx.ensure (state ≠ .rejected) (.spawn .cleanupFailed "worker cleanup failed")
  let row ← Tx.read (fun w => w.byId id)
  pure (.returned (.ok row.toList))

/-! ## Cleaning up -/

/-- The flow inside `cleanupRuntime` after `cleanup`. -/
def afterCleanup (s : Slice) (id : String) (job : ℕ) (always : Bool)
    (r : Except String Unit) : SpawnM Thread := do
  let uncleaned := fun (r : SessionRow) =>
    r.status.terminal && r.runtimeCleanupCompletedAt.isNone
  let canPersist := always || s.current
  match r with
  | .error e => do
      Tx.when (canPersist = true) (Tx.write (fun w => w.setSession id uncleaned
        (fun r => { r with runtimeCleanupError := some (boundedError e) }) (fun _ => rfl)))
      pure (.cleaned id job false)
  | .ok () => do
      Tx.when (canPersist = true) (Tx.write (fun w => w.setSession id uncleaned
        (fun r => { r with
          runtimeCleanupCompletedAt := some (max (max r.createdAt r.updatedAt) s.now),
          runtimeCleanupError := none })
        (fun _ => rfl)))
      pure (.cleaned id job true)

/-- The callbacks of `then`. -/
def afterCleaned (id : String) (job : ℕ) (ok : Bool) : SpawnM Thread := do
  Tx.write (fun w =>
    if w.cleaning.lookup id = some job then { w with cleaning := w.cleaning.erase id } else w)
  Tx.write (fun w => { w with
    jobs := w.jobs.set job (if ok then .resolved else .rejected) })
  pure (.returned (.ok []))

/-- `FINISH_CLEANUP_GRACE_MS`. -/
def finishCleanupGraceMs : ℤ := 30000

/-- The loop of `cleanupPending`, up to its next pause. A row is its identity and
whether it was `finished` when it was selected. -/
def pendingLoop (s : Slice) : List (String × Bool) → SpawnM Thread
  | [] => do
      let rows ← Tx.read (fun w => w.list)
      pure (.returned (.ok (if s.current then rows else [])))
  | (id, finished) :: rest => do
      let provisioning ← Tx.read (fun w => (w.provisioning.lookup id).isSome)
      if s.current = false then pure (.returned (.ok []))
      else if provisioning then pendingLoop s rest
      else if finished then do
        let first ← Tx.read (fun w => (w.finishCleanupObservedAt.lookup id).getD s.monotonicNow)
        Tx.write (fun w => { w with
          finishCleanupObservedAt := w.finishCleanupObservedAt.insert id first })
        pure (.pendingInspect id
          (decide (finishCleanupGraceMs ≤ max 0 (s.monotonicNow - first))) rest)
      else do
        let job ← cleanupRuntime id false
        pure (.pendingCleanup id job rest)

/-- `cleanupPending` up to its first pause. -/
def cleanupPending (s : Slice) : SpawnM Thread := do
  let rows ← Tx.read (fun w => w.cleanupSelection)
  if s.current then
    pendingLoop s (rows.map (fun r => (r.id, decide (r.status = .finished))))
  else pure (.returned (.ok []))

/-- `cleanupPending` after `inspect`. -/
def afterPendingInspect (s : Slice) (id : String) (graceExpired : Bool)
    (rest : List (String × Bool)) (r : Except String ProvisionState) : SpawnM Thread :=
  if s.current = false then pure (.returned (.ok []))
  else
    let goOn := match r with
      | .error _ => graceExpired
      | .ok (.pending _) | .ok (.ready _) => graceExpired
      | .ok _ => true
    if goOn then do
      let job ← cleanupRuntime id false
      pure (.pendingCleanup id job rest)
    else pendingLoop s rest

/-- `cleanupPending` after `cleanupRuntime`. -/
def afterPendingCleanup (s : Slice) (id : String) (rest : List (String × Bool)) :
    SpawnM Thread :=
  if s.current = false then pure (.returned (.ok []))
  else do
    Tx.write (fun w => if w.cleanupCompleted id then
      { w with finishCleanupObservedAt := w.finishCleanupObservedAt.erase id } else w)
    pendingLoop s rest

/-! ## Recovering -/

/-- The loop of `recoverState`, up to its next pause. -/
def recoverLoop (s : Slice) (thenCleanup : Bool) : List String → SpawnM Thread
  | [] => do
      let rows ← Tx.read (fun w => w.list)
      pure (if thenCleanup then .recovered
        else .returned (.ok (if s.current then rows else [])))
  | id :: rest => do
      let finished ← Tx.read (fun w => w.db.hasDurableFinish id)
      if s.current = false then
        pure (if thenCleanup then .recovered else .returned (.ok []))
      else if finished then do
        markFinished id
        recoverLoop s thenCleanup rest
      else pure (.recoverInspect id rest thenCleanup)

/-- The first statement of `recoverState`: a failed session that has a finish
message is finished. -/
def World.finishFailed (w : World) : World :=
  { w with db := { w.db with
    sessions := w.db.sessions.update
      (fun r => decide (r.status = .failed) && w.db.hasDurableFinish r.id)
      (fun r => { r with
        status := .finished, updatedAt := max r.updatedAt (World.finishTime w.db r),
        lastError := none })
      (fun _ => rfl) } }

/-- `recoverState` up to its first pause. -/
def recoverState (s : Slice) (thenCleanup : Bool) : SpawnM Thread :=
  if s.current = false then
    pure (if thenCleanup then .recovered else .returned (.ok []))
  else do
    Tx.write World.finishFailed
    let active ← Tx.read (fun w => (w.list.filter (fun r =>
      r.status.active && (w.provisioning.lookup r.id).isNone)).map SessionRow.id)
    recoverLoop s thenCleanup active

/-- The error a session that cannot go on is left with. -/
def ProvisionState.lostError : ProvisionState → String
  | .succeeded _ => "worker Pod exited successfully without a durable finish"
  | .failed error _ => boundedError error
  | _ => "worker Pod is missing"

/-- `recoverState` after `inspect`. -/
def afterRecoverInspect (s : Slice) (id : String) (rest : List String) (thenCleanup : Bool)
    (r : Except String ProvisionState) : SpawnM Thread := do
  let finished ← Tx.read (fun w => w.db.hasDurableFinish id)
  if s.current = false then
    pure (if thenCleanup then .recovered else .returned (.ok []))
  else if finished then do
    markFinished id
    recoverLoop s thenCleanup rest
  else
    match r with
    | .error _ | .ok (.pending _) => recoverLoop s thenCleanup rest
    | .ok (.ready receipt) => do
        Tx.write (fun w => w.setSession id (·.status.active)
          (fun r => { r with
            status := .running, podName := some receipt.podName, podUid := receipt.podUid,
            workspaceRef := some receipt.workspaceRef, updatedAt := s.now, lastError := none })
          (fun _ => rfl))
        recoverLoop s thenCleanup rest
    | .ok state => do
        Tx.write (fun w => w.setSession id (·.status.active)
          (fun r => { r with
            status := .failed, updatedAt := s.now, lastError := some state.lostError,
            completionNotifiedAt := none })
          (fun _ => rfl))
        recoverLoop s thenCleanup rest

/-- `recover` after `recoverState`. -/
def afterRecovered (s : Slice) : SpawnM Thread :=
  if s.current then cleanupPending s else pure (.returned (.ok []))

def revokeProvisioning (now : Time) : SpawnM (List SessionRow) := do
  let ids ← Tx.read (fun w => w.provisioning.keys.reverse)
  Tx.write (fun w => { w with db := { w.db with
    sessions := w.db.sessions.update
      (fun r => decide (r.id ∈ ids) && decide (r.status = .spawning))
      (fun r => { r with
        status := .failed, updatedAt := max (max r.createdAt r.updatedAt) now,
        lastError := some "worker supervisor stopped during provisioning",
        completionNotifiedAt := none, runtimeCleanupCompletedAt := none,
        runtimeCleanupError := none })
      (fun _ => rfl) } })
  Tx.read (fun w => ids.filterMap w.byId)

end Elpis.Worker
