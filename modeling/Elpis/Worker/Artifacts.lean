import Elpis.Js.Pattern
import Elpis.Lib.Crash
import Elpis.Lib.Run
import Elpis.Lib.Table

/-!
# The artifact store of the workers

`putArtifactForWorker` and `artifactFile` of `src/worker/workspace.ts`. A put writes a temporary
file beside the artifacts, renames it to its place and inserts a row; any of its statements may
throw, and the process may die at any write. Files go by their path from the storage root.
-/

namespace Elpis.Worker.Artifacts

open Elpis.Js Elpis.Lib

abbrev Bytes := List UInt8

/-- `WorkerArtifactReceipt`, which is also a row of `worker_workspace_artifacts`. -/
structure WorkerArtifactReceipt where
  id : ℕ
  sessionId : String
  key : String
  kind : String
  sourceSha256 : String
  sha256 : String
  sizeBytes : ℕ
  relativePath : String
  createdAt : ℤ
deriving DecidableEq, Repr

structure Store where
  files : String → Option Bytes
  rows : AutoTable WorkerArtifactReceipt.id

inductive Code where
  | unavailable | unauthorized | invalidRequest | conflict | corrupt
deriving DecidableEq, Repr

inductive Error where
  | workspace (code : Code) (message : String)
  /-- What the disk or the database throws. -/
  | fault
deriving DecidableEq, Repr

/-- The options, and the digest. -/
structure Env where
  maxArtifactBytes : ℕ
  digest : Bytes → String

/-- The statements of a put that the disk or the database can make throw. -/
inductive Statement where
  | resolveSession | selectSource | selectExisting | readArtifact | makeDirectory | chmodDirectory
  | createTemporary | writeTemporary | chmodTemporary | openTemporary | syncTemporary | rename
  | syncDirectory | insert | remove | readBack
deriving DecidableEq, Repr

/-- A call, with what it meets. -/
structure Call where
  /-- The session that `resolveWorkerSession` answers. -/
  session : Option String
  /-- `source_sha256` of the session's row. -/
  source : Option String
  key : String
  kind : String
  sourceSha256 : String
  data : Bytes
  sha256 : Option String
  pid : ℕ
  /-- `Date.now()` for the temporary file. -/
  clock : ℤ
  /-- `this.now()`. -/
  createdAt : ℤ
  faults : Statement → Bool
  /-- What the temporary file holds when it is written in part. -/
  torn : Bytes
  /-- The process dies behind its first write and this many more. To die before the first is to
  throw there. -/
  budget : Option ℕ

abbrev ArtifactsM := Crash Store Unit Error

/-! ## Patterns and paths -/

/-- `SESSION_PATTERN`. -/
def isSession (session : String) : Bool := fits (literal "wrk-" ++ List.replicate 8 lowerClass) session

/-- `ARTIFACT_KEY_PATTERN`. -/
def isArtifactKey (key : String) : Bool :=
  startsAs lowerClass slugClass key.toList && decide (key.toList.length ≤ 80)

/-- `SHA256_PATTERN`. -/
def isSha256 (text : String) : Bool := fits (List.replicate 64 hexClass) text

/-- `path.posix.join('artifacts', sessionId, key)`. -/
def relativePath (session key : String) : String := "artifacts/" ++ session ++ "/" ++ key

def artifactPath (session key : String) : Except Error String :=
  if isSession session = false then .error (.workspace .invalidRequest "worker session id is invalid")
  else if isArtifactKey key = false then
    .error (.workspace .invalidRequest "worker artifact key is invalid")
  else .ok (relativePath session key)

/-- The end of the temporary file's name. -/
def Call.suffix (call : Call) : String :=
  "." ++ toString call.pid ++ "." ++ toString call.clock ++ ".tmp"

/-! ## The store -/

/-- `SELECT * FROM worker_workspace_artifacts WHERE session_id = ? AND artifact_key = ?`. -/
def Store.row? (s : Store) (session key : String) : Option WorkerArtifactReceipt :=
  s.rows.rows.find? (fun row => decide (row.sessionId = session) && decide (row.key = key))

def Store.setFile (s : Store) (path : String) (data : Option Bytes) : Store :=
  { s with files := Function.update s.files path data }

def Store.rename (s : Store) (source destination : String) : Store :=
  (s.setFile source none).setFile destination (s.files source)

def Store.insert (s : Store) (row : ℕ → WorkerArtifactReceipt) (hrow : ∀ id, (row id).id = id) : Store :=
  { s with rows := s.rows.push row hrow }

/-- The row that a call inserts. -/
def artifactRow (env : Env) (call : Call) (session : String) (id : ℕ) : WorkerArtifactReceipt where
  id := id
  sessionId := session
  key := call.key
  kind := call.kind
  sourceSha256 := call.sourceSha256
  sha256 := env.digest call.data
  sizeBytes := call.data.length
  relativePath := relativePath session call.key
  createdAt := call.createdAt

theorem artifactRow_id (env : Env) (call : Call) (session : String) (id : ℕ) :
    (artifactRow env call session id).id = id := rfl

def Store.artifactFile (env : Env) (s : Store) (session key : String) :
    Except Error WorkerArtifactReceipt :=
  match s.row? session key with
  | none => .error (.workspace .unavailable "worker artifact is unavailable")
  | some receipt =>
      match s.files receipt.relativePath with
      | none => .error .fault
      | some data =>
          if data.length ≠ receipt.sizeBytes ∨ env.digest data ≠ receipt.sha256 then
            .error (.workspace .corrupt "worker artifact failed verification")
          else .ok receipt

/-! ## A put -/

section Put
variable (env : Env) (call : Call)

/-- The statement throws, or it does not. -/
def Call.mayThrow (st : Statement) : ArtifactsM Unit :=
  if call.faults st = true then Crash.throw .fault else pure ()

/-- What a put looks at before the stored rows, behind the session. -/
def checkInput : Except Error Unit :=
  if isArtifactKey call.key = false then
    .error (.workspace .invalidRequest "worker artifact key is invalid")
  else if call.kind ≠ "unified_patch_gzip" then
    .error (.workspace .invalidRequest "worker artifact kind is unsupported")
  else if env.maxArtifactBytes < call.data.length then
    .error (.workspace .invalidRequest s!"worker artifact exceeds {env.maxArtifactBytes} bytes")
  else if isSha256 call.sourceSha256 = false then
    .error (.workspace .invalidRequest "worker source digest is invalid")
  else .ok ()

def checkSource : Except Error Unit :=
  if call.source ≠ some call.sourceSha256 then
    .error (.workspace .conflict "worker artifact source digest changed")
  else if call.sha256.any (fun sha256 => decide (sha256 ≠ env.digest call.data)) = true then
    .error (.workspace .invalidRequest "worker artifact digest is invalid")
  else .ok ()

/-- The key has a row already. -/
def retry (session : String) (receipt : WorkerArtifactReceipt) : ArtifactsM WorkerArtifactReceipt :=
  if receipt.kind ≠ call.kind ∨ receipt.sourceSha256 ≠ call.sourceSha256 ∨
      receipt.sha256 ≠ env.digest call.data ∨ receipt.sizeBytes ≠ call.data.length then
    Crash.throw (.workspace .conflict "worker artifact key is already bound differently")
  else do
    call.mayThrow .readArtifact
    let verified ← Crash.read (fun s _ => s.artifactFile env session call.key)
    Crash.ofExcept verified

/-- `writeFileSync`: the file is empty or in part for a while. -/
def writeTemporary (temporary : String) : ArtifactsM Unit := do
  call.mayThrow .createTemporary
  Crash.write (·.setFile temporary (some call.torn))
  call.mayThrow .writeTemporary
  Crash.write (·.setFile temporary (some call.data))

/-- The insertion, which takes the file away again when it fails. -/
def insertArtifact (session destination : String) : ArtifactsM Unit := do
  let inserted ← Crash.attempt (do
    call.mayThrow .insert
    Crash.write (·.insert (artifactRow env call session) (artifactRow_id env call session)))
  match inserted with
  | .ok _ => pure ()
  | .error e => do
      call.mayThrow .remove
      Crash.write (·.setFile destination none)
      Crash.throw e

/-- The key has no row. -/
def storeArtifact (session : String) : ArtifactsM WorkerArtifactReceipt := do
  let destination ← Crash.ofExcept (artifactPath session call.key)
  call.mayThrow .makeDirectory
  call.mayThrow .chmodDirectory
  writeTemporary call (destination ++ call.suffix)
  call.mayThrow .chmodTemporary
  call.mayThrow .openTemporary
  call.mayThrow .syncTemporary
  call.mayThrow .rename
  Crash.write (·.rename (destination ++ call.suffix) destination)
  call.mayThrow .syncDirectory
  insertArtifact env call session destination
  call.mayThrow .readBack
  let row ← Crash.read (fun s _ => s.row? session call.key)
  Crash.ofExcept (row.elim (.error .fault) .ok)

def putArtifactForWorker : ArtifactsM WorkerArtifactReceipt := do
  call.mayThrow .resolveSession
  let session ← Crash.ofExcept (call.session.elim
    (.error (.workspace .unauthorized "worker session is unavailable")) .ok)
  Crash.ofExcept (checkInput env call)
  call.mayThrow .selectSource
  Crash.ofExcept (checkSource env call)
  call.mayThrow .selectExisting
  let existing ← Crash.read (fun s _ => s.row? session call.key)
  match existing with
  | some receipt => retry env call session receipt
  | none => storeArtifact env call session

end Put

/-- A call leaves the store; a process that died is started again before the next. -/
def step (env : Env) (s : Store) (call : Call) : Store :=
  (putArtifactForWorker env call (call.budget.map Nat.succ) s ()).2

/-- No artifacts yet, on any disk. -/
def Store.empty (files : String → Option Bytes) : Store := ⟨files, AutoTable.empty⟩

end Elpis.Worker.Artifacts
