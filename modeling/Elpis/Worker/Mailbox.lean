import Elpis.Lib.JsonText
import Elpis.Worker.Schema

/-!
# Workers: the mailbox

`WorkerMailboxBroker` of `src/worker/mailbox.ts` and the token checks it uses.
Every method runs to its end without a pause, so each is one program over the
durable rows. The hash of a control token is a parameter: the model relies on
nothing about it but that it is a function.
-/

namespace Elpis.Worker

open Elpis.Lib Elpis.Mind
open Elpis.Lib.JsonText (hexValue)

/-! ## Errors -/

inductive MailboxErrorCode where
  | unauthorized | invalidRequest | notFound | conflict
deriving DecidableEq, Repr

inductive MailboxError where
  | mailbox (code : MailboxErrorCode) (message : String)
  /-- A statement SQLite refuses. -/
  | constraint (message : String)
deriving DecidableEq

abbrev MailboxM := Tx WorkerDb MailboxError

def unavailable (code : MailboxErrorCode) : MailboxError :=
  .mailbox code "worker session is unavailable"

/-! ## Tokens -/

/-- `createHash('sha256')…digest('hex')`. -/
abbrev Sha256 := String → String

/-- `[A-Za-z0-9_-]{43}`. -/
def isControlToken (token : String) : Bool :=
  decide (token.toList.length = 43) &&
    token.toList.all (fun c => c.isAlphanum || c == '_' || c == '-')

def workerControlTokenDigest (sha : Sha256) (token : String) : Option String :=
  if isControlToken token then some (sha token) else none

/-- `Buffer.from(text, 'hex')`: pairs of digits up to the first that is none. -/
def hexBytes : List Char → List ℕ
  | a :: b :: cs =>
      match hexValue a.toNat, hexValue b.toNat with
      | some x, some y => (16 * x + y) :: hexBytes cs
      | _, _ => []
  | _ => []

def verifyWorkerControlToken (sha : Sha256) (token expectedDigest : String) : Bool :=
  match workerControlTokenDigest sha token with
  | none => false
  | some digest =>
      let actual := hexBytes digest.toList
      let expected := hexBytes expectedDigest.toList
      decide (actual.length = 32) && decide (expected.length = 32) && decide (actual = expected)

/-- The session a token belongs to: `WHERE control_token_digest = ?`, verified. -/
def WorkerDb.sessionOfToken (sha : Sha256) (db : WorkerDb) (token : String) :
    Option SessionRow :=
  (workerControlTokenDigest sha token).bind (fun digest =>
    (db.sessions.rows.find? (fun r => decide (r.controlTokenDigest = digest))).filter
      (fun r => verifyWorkerControlToken sha token r.controlTokenDigest))

/-- `resolveWorkerSession`: the session must be active. -/
def resolveWorkerSession (sha : Sha256) (db : WorkerDb) (token : String) :
    Option SessionRow :=
  (db.sessionOfToken sha token).filter (fun r => r.status.active)

/-! ## Input checks -/

def boundedText (value label : String) (max : ℕ) : MailboxM Unit := do
  Tx.ensure (Js.trim value ≠ "")
    (.mailbox .invalidRequest (label ++ " must be a non-empty string"))
  Tx.ensure (Js.length value ≤ max)
    (.mailbox .invalidRequest (label ++ " must be at most " ++ toString max ++ " characters"))

/-- `[A-Za-z0-9][A-Za-z0-9._:-]*`. -/
def isMessageKey (key : String) : Bool :=
  key.toList.head?.any Char.isAlphanum &&
    key.toList.all (fun c => c.isAlphanum || c == '.' || c == '_' || c == ':' || c == '-')

def messageKey (value : String) : MailboxM Unit := do
  boundedText value "messageKey" 80
  Tx.ensure (isMessageKey value = true)
    (.mailbox .invalidRequest "messageKey contains invalid characters")

def boundedLimit (value : ℤ) : MailboxM Unit :=
  Tx.ensure (1 ≤ value ∧ value ≤ 100)
    (.mailbox .invalidRequest "limit must be an integer from 1 to 100")

/-- The distinct ids, each a positive safe integer. -/
def boundedIds (value : List ℤ) : MailboxM (List ℕ) := do
  Tx.ensure (1 ≤ value.length ∧ value.length ≤ 100)
    (.mailbox .invalidRequest "ids must contain 1 to 100 message ids")
  let ids := uniq value
  Tx.ensure (∀ id ∈ ids, 0 < id ∧ id < 2 ^ 53)
    (.mailbox .invalidRequest "ids must be positive safe integers")
  pure (ids.map Int.toNat)

/-! ## Storing messages -/

/-- `INSERT INTO worker_mailbox_messages`; returns the new row. -/
def insertMessage (sessionId : String) (direction : Direction) (kind : MailboxKind)
    (key sender body : String) (at' : Time) : MailboxM MessageRow := do
  let accepted ← Tx.read (fun db => db.acceptsMessage sessionId direction kind key sender body)
  Tx.ensure (accepted = true) (.constraint "worker_mailbox_messages constraint failed")
  let n ← Tx.read (fun db => db.messages.next)
  Tx.write (fun db => db.addMessage sessionId direction kind key sender body at')
  pure ⟨n, sessionId, direction, kind, key, sender, body, at', none⟩

/-- The message has this content already. -/
def MessageRow.same (m : MessageRow) (kind : MailboxKind) (sender body : String) : Bool :=
  decide (m.kind = kind) && decide (m.sender = sender) && decide (m.body = body)

/-- Is the source of a session in custody, if it has one? -/
def WorkerDb.inCustody (db : WorkerDb) (row : SessionRow) : Bool :=
  row.source.all (fun source => db.artifacts.rows.any (fun a =>
    decide (a.sessionId = row.id) && decide (a.sourceSha256 = source.sha256)))

def custodyConflict : MailboxError :=
  .mailbox .conflict "worker source artifact must be in custody before finish"

def contentConflict : MailboxError :=
  .mailbox .conflict "messageKey was already used with different content"

/-- `insert`. No other statement can come between its lookup and its `INSERT`, so
the retry after a failed `INSERT` finds what the lookup found: nothing. -/
def insert (sessionId : String) (direction : Direction) (kind : MailboxKind)
    (key sender body : String) (now : Time) : MailboxM MessageRow := do
  let prior ← Tx.read (fun db => db.existing sessionId direction key)
  match prior with
  | some prior => do
      Tx.ensure (prior.same kind sender body = true) contentConflict
      pure prior
  | none => do
      let finish ← Tx.read (fun db => db.finishOf sessionId)
      Tx.ensure (finish = none)
        (.mailbox .conflict "worker session mailbox is already finished")
      let custody ← Tx.read (fun db => (db.sessions.get? sessionId).all db.inCustody)
      Tx.ensure ((direction = .workerToDispatcher ∧ kind = .finish) → custody = true)
        custodyConflict
      let stored ← Tx.attempt (insertMessage sessionId direction kind key sender body now)
      match stored with
      | .ok row => pure row
      | .error e =>
          if kind = .finish then
            Tx.throw (.mailbox .conflict "worker session already has a finish message")
          else Tx.throw e

/-- The transaction of `insertFinish`. -/
def insertFinishBody (session : SessionRow) (key body : String) (now : Time) :
    MailboxM MessageRow := do
  let prior ← Tx.read (fun db => db.existing session.id .workerToDispatcher key)
  match prior with
  | some prior => do
      Tx.ensure (prior.same .finish session.worker body = true) contentConflict
      Tx.write (fun db => db.setSession session.id
        (fun r => r.status.active || decide (r.status = .failed) || decide (r.status = .finished))
        (fun r => { r with
          status := .finished, updatedAt := max r.updatedAt prior.createdAt, lastError := none })
        (fun _ => rfl))
      pure prior
  | none => do
      let finish ← Tx.read (fun db => db.finishOf session.id)
      Tx.ensure (finish = none)
        (.mailbox .conflict "worker session already has a finish message")
      let found ← Tx.read (fun db => (db.sessions.get? session.id).filter (·.status.active))
      let row ← Tx.require found (unavailable .unauthorized)
      let custody ← Tx.read (fun db => db.inCustody row)
      Tx.ensure (custody = true) custodyConflict
      let stored ← insertMessage session.id .workerToDispatcher .finish key session.worker body now
      let changed ← Tx.read (fun db => db.changes session.id (·.status.active))
      Tx.write (fun db => db.setSession session.id (·.status.active)
        (fun r => { r with
          status := .finished, updatedAt := max r.updatedAt now, lastError := none,
          completionNotifiedAt := none, runtimeCleanupCompletedAt := none,
          runtimeCleanupError := none })
        (fun _ => rfl))
      Tx.ensure (changed = true)
        (.mailbox .conflict "worker session changed while committing finish")
      pure stored

def insertFinish (session : SessionRow) (key body : String) (now : Time) :
    MailboxM MessageRow :=
  Tx.transaction (insertFinishBody session key body now)

/-- A finish that was stored before may be posted again after the session ended. -/
def terminalFinishRetry (sha : Sha256) (token key body : String) (now : Time) :
    MailboxM (Option MessageRow) := do
  let found ← Tx.read (fun db => (db.sessionOfToken sha token).filter
    (fun r => decide (r.status = .finished) || decide (r.status = .failed)))
  match found with
  | none => pure none
  | some session => do
      let stored ← Tx.read (fun db => (db.existing session.id .workerToDispatcher key).any
        (fun m => m.same .finish session.worker body))
      if stored then do
        let message ← insertFinish session key body now
        pure (some message)
      else pure none

def acknowledge (sessionId : String) (direction : Direction) (idsValue : List ℤ)
    (now : Time) : MailboxM ℕ := do
  let ids ← boundedIds idsValue
  let mine := fun (m : MessageRow) => decide (m.sessionId = sessionId) &&
    decide (m.direction = direction) && decide (m.id ∈ ids)
  Tx.transaction (do
    let n ← Tx.read (fun db => (db.messages.select mine).length)
    Tx.ensure (n = ids.length)
      (.mailbox .notFound "one or more mailbox messages are unavailable")
    Tx.write (fun db => db.setAcknowledged mine now)
    pure ids.length)

/-! ## Methods -/

def dispatcherSession (sessionId : String) (activeOnly : Bool) : MailboxM SessionRow := do
  let found ← Tx.read (fun db => (db.sessions.get? sessionId).filter
    (fun r => !activeOnly || r.status.active))
  Tx.require found (unavailable .notFound)

def workerSession (sha : Sha256) (token : String) : MailboxM SessionRow := do
  let found ← Tx.read (fun db => resolveWorkerSession sha db token)
  Tx.require found (unavailable .unauthorized)

def sendToWorker (sessionId key body sender : String) (now : Time) : MailboxM MessageRow := do
  let session ← dispatcherSession sessionId true
  messageKey key
  boundedText sender "sender" 80
  boundedText body "body" 100000
  insert session.id .dispatcherToWorker .message key sender body now

def postFromWorker (sha : Sha256) (token key : String) (kind : MailboxKind) (body : String)
    (now : Time) : MailboxM MessageRow := do
  let active ← Tx.read (fun db => resolveWorkerSession sha db token)
  messageKey key
  boundedText body "body" 100000
  match active, kind with
  | some session, .message =>
      insert session.id .workerToDispatcher .message key session.worker body now
  | some session, .finish => insertFinish session key body now
  | none, .message => Tx.throw (unavailable .unauthorized)
  | none, .finish => do
      let retry ← terminalFinishRetry sha token key body now
      Tx.require retry (unavailable .unauthorized)

def acknowledgeForWorker (sha : Sha256) (token : String) (ids : List ℤ) (now : Time) :
    MailboxM ℕ := do
  let session ← workerSession sha token
  acknowledge session.id .dispatcherToWorker ids now

def acknowledgeFromWorker (sessionId : String) (ids : List ℤ) (now : Time) : MailboxM ℕ := do
  let session ← dispatcherSession sessionId false
  acknowledge session.id .workerToDispatcher ids now

/-- `pending`: the oldest messages nobody has acknowledged. -/
def pending (sessionId : String) (direction : Direction) (limit : ℤ) :
    MailboxM (List MessageRow) := do
  boundedLimit limit
  Tx.read (fun db => (orderBy (fun a b => decide (a.id ≤ b.id))
    (db.messages.select (fun m => decide (m.sessionId = sessionId) &&
      decide (m.direction = direction) && m.acknowledgedAt.isNone))).take limit.toNat)

end Elpis.Worker
