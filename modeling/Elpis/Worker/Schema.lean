import Elpis.Mind.Statements

/-!
# Workers: durable rows

The tables of native workers as they stand after every migration of
`src/store/db.ts`: sessions, their mailbox, and the artifacts in custody. What a
`CHECK`, a unique index or a trigger refuses is refused by the statements here.
A session row carries the proof that its Mind identity is canonical, which
`start` checks before it writes one and `rowSession` relies on.
-/

namespace Elpis.Worker

open Elpis.Lib Elpis.Mind

/-! ## Text as SQLite sees it -/

/-- `length(x)`: characters before the first NUL. -/
def sqlLength (s : String) : ℕ := (s.toList.takeWhile (fun c => c != '\x00')).length

/-- ASCII letters compare without case in `LIKE`. -/
def likeChar (p c : Char) : Bool := p == '_' || p.toLower == c.toLower

/-- `s LIKE p`: a percent sign stands for any characters, an underscore for one. -/
def sqlLike : List Char → List Char → Bool
  | [], cs => cs.isEmpty
  | p :: ps, cs =>
      if p = '%' then cs.tails.any (sqlLike ps)
      else match cs with
        | [] => false
        | c :: cs => likeChar p c && sqlLike ps cs

def boundedError (message : String) : String :=
  let text := Js.slice message 1000
  if text = "" then "worker operation failed" else text

/-! ## Sessions -/

inductive SessionStatus where
  | spawning | running | idle | finished | failed | dismissed
deriving DecidableEq, Repr

/-- `ACTIVE`. -/
def SessionStatus.active : SessionStatus → Bool
  | .spawning | .running | .idle => true
  | _ => false

/-- `status IN ('finished','failed','dismissed')`. -/
def SessionStatus.terminal (s : SessionStatus) : Bool := !s.active

inductive Runtime where
  | trusted | kubernetes
deriving DecidableEq, Repr

structure SourceReceipt where
  revision : String
  sha256 : String
  sizeBytes : ℤ
deriving DecidableEq

structure ProvisionReceipt where
  podName : String
  podUid : Option String
  workspaceRef : String
deriving DecidableEq

/-- `worker_sessions`. The three source columns are set together or not at all. -/
structure SessionRow where
  id : String
  slug : String
  status : SessionStatus
  modelRef : String
  mindId : MindId
  runtime : Runtime
  controlTokenDigest : String
  podName : Option String
  podUid : Option String
  workspaceRef : Option String
  source : Option SourceReceipt
  createdAt : Time
  updatedAt : Time
  lastError : Option String
  completionNotifiedAt : Option Time
  runtimeCleanupCompletedAt : Option Time
  runtimeCleanupError : Option String
  canonical : isMindId mindId = true
deriving DecidableEq

/-- `worker:` and the slug. -/
def SessionRow.worker (r : SessionRow) : String := "worker:" ++ r.slug

/-! ## Mailbox and artifacts -/

inductive Direction where
  | dispatcherToWorker | workerToDispatcher
deriving DecidableEq, Repr

inductive MailboxKind where
  | message | finish
deriving DecidableEq, Repr

/-- `worker_mailbox_messages`. -/
structure MessageRow where
  id : ℕ
  sessionId : String
  direction : Direction
  kind : MailboxKind
  messageKey : String
  sender : String
  body : String
  createdAt : Time
  acknowledgedAt : Option Time
deriving DecidableEq

/-- `direction = 'worker_to_dispatcher' AND kind = 'finish'`, for a session. -/
def MessageRow.isFinishOf (r : MessageRow) (sessionId : String) : Bool :=
  decide (r.sessionId = sessionId) && decide (r.direction = .workerToDispatcher) &&
    decide (r.kind = .finish)

/-- `worker_workspace_artifacts`, as far as the mailbox looks. -/
structure ArtifactRow where
  sessionId : String
  artifactKey : String
  sourceSha256 : String
deriving DecidableEq

/-- `UNIQUE (session_id, artifact_key)`. -/
def ArtifactRow.key (r : ArtifactRow) : String × String := (r.sessionId, r.artifactKey)

structure WorkerDb where
  sessions : Table SessionRow.id
  messages : AutoTable MessageRow.id
  artifacts : Table ArtifactRow.key
deriving DecidableEq

def WorkerDb.empty : WorkerDb := ⟨Table.empty, AutoTable.empty, Table.empty⟩

namespace WorkerDb

/-! ## Queries -/

/-- The finish message of a session. -/
def finishOf (db : WorkerDb) (sessionId : String) : Option MessageRow :=
  db.messages.rows.find? (fun m => m.isFinishOf sessionId)

def hasDurableFinish (db : WorkerDb) (sessionId : String) : Bool :=
  (db.finishOf sessionId).isSome

/-- The message a session already has under a key. -/
def existing (db : WorkerDb) (sessionId : String) (direction : Direction) (key : String) :
    Option MessageRow :=
  db.messages.rows.find? (fun m => decide (m.sessionId = sessionId) &&
    decide (m.direction = direction) && decide (m.messageKey = key))

/-- The active sessions. -/
def activeSessions (db : WorkerDb) : List SessionRow := db.sessions.select (·.status.active)

/-! ## Statements on one table -/

/-- `UPDATE worker_sessions SET f WHERE id = ? AND p`. -/
def setSession (db : WorkerDb) (id : String) (p : SessionRow → Bool)
    (f : SessionRow → SessionRow) (hf : ∀ r, (f r).id = r.id) : WorkerDb :=
  { db with sessions := db.sessions.update (fun r => decide (r.id = id) && p r) f hf }

/-- The number of rows the same `UPDATE` changes is one or zero. -/
def changes (db : WorkerDb) (id : String) (p : SessionRow → Bool) : Bool :=
  (db.sessions.get? id).any p

/-- `INSERT INTO worker_mailbox_messages`, when nothing refuses it. -/
def addMessage (db : WorkerDb) (sessionId : String) (direction : Direction)
    (kind : MailboxKind) (key sender body : String) (at' : Time) : WorkerDb :=
  { db with
    messages := db.messages.push
      (fun n => ⟨n, sessionId, direction, kind, key, sender, body, at', none⟩) (fun _ => rfl) }

/-- `UPDATE worker_mailbox_messages SET acknowledged_at = COALESCE(acknowledged_at, ?)`. -/
def setAcknowledged (db : WorkerDb) (p : MessageRow → Bool) (at' : Time) : WorkerDb :=
  { db with
    messages := db.messages.update p
      (fun m => { m with acknowledgedAt := some (m.acknowledgedAt.getD at') }) (fun _ => rfl) }

/-- The checks, references and unique indexes of `worker_mailbox_messages`. -/
def acceptsMessage (db : WorkerDb) (sessionId : String) (direction : Direction)
    (kind : MailboxKind) (key sender body : String) : Bool :=
  decide (1 ≤ sqlLength key ∧ sqlLength key ≤ 80) &&
    decide (1 ≤ sqlLength sender ∧ sqlLength sender ≤ 80) &&
    decide (1 ≤ sqlLength body ∧ sqlLength body ≤ 100000) &&
    decide (direction = .workerToDispatcher ∨ kind = .message) &&
    (db.sessions.get? sessionId).isSome && (db.existing sessionId direction key).isNone &&
    (decide (kind = .message) || (db.finishOf sessionId).isNone)

/-- The checks, references and unique indexes of `worker_sessions` for a new row,
with the guard trigger that keeps workers off proposals. -/
def acceptsSession (db : WorkerDb) (mind : MindDb) (row : SessionRow) : Bool :=
  decide (1 ≤ sqlLength row.slug ∧ sqlLength row.slug ≤ 80) &&
    decide (sqlLength row.controlTokenDigest = 64) &&
    db.sessions.rows.all (fun r => decide (r.slug ≠ row.slug) &&
      decide (r.controlTokenDigest ≠ row.controlTokenDigest) &&
      decide (¬(r.status.active = true ∧ row.status.active = true ∧ r.mindId = row.mindId))) &&
    mind.exists row.mindId && !mind.isProposal row.mindId

/-- The checks on the three source columns. -/
def acceptsSource (source : SourceReceipt) : Bool :=
  decide (1 ≤ sqlLength source.revision ∧ sqlLength source.revision ≤ 128) &&
    decide (sqlLength source.sha256 = 64) && decide (0 ≤ source.sizeBytes)

end WorkerDb

end Elpis.Worker
