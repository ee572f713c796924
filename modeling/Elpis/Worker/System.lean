import Elpis.Worker.Spawn

/-!
# Workers: the system taking steps

Any number of calls of the broker and of the mailbox, interleaved at their
pauses, with every outcome of the outside calls they await, and process restarts
in between. A step that does not fit the state is no step: the world stays as it
is, so every list of steps is a run.
-/

namespace Elpis.Worker

open Elpis.Lib Elpis.Mind

inductive WorkerAct where
  | sendToWorker (sessionId key body sender : String) (now : Time)
  | postFromWorker (token key : String) (kind : MailboxKind) (body : String) (now : Time)
  | acknowledgeForWorker (token : String) (ids : List ℤ) (now : Time)
  | acknowledgeFromWorker (sessionId : String) (ids : List ℤ) (now : Time)
  /-- The workspace store takes an artifact into custody. -/
  | storeArtifact (row : ArtifactRow)
  /-- The supervisor records that a completion was delivered. -/
  | delivered (sessionId : String) (now : Time)
  | start (s : Slice) (mindId : String) (value : StartValue) (draws : StartDraws)
  | dismiss (s : Slice) (ref : String)
  | recoverState (s : Slice)
  | cleanupPending (s : Slice)
  | recover (s : Slice)
  | revokeProvisioning (now : Time)
  /-- The paused call with this number goes on. -/
  | resume (tid : ℕ) (s : Slice) (outcome : Outcome)
  /-- The process ends and a new one starts over the same rows. -/
  | restart

/-- The slice with which a paused call goes on, if what it awaits has happened. -/
def Thread.next (w : World) (t : Thread) (s : Slice) (o : Outcome) : Option (SpawnM Thread) :=
  match t, o with
  | .startSource id promise, .source r => some (afterSource s id promise r)
  | .startProvision id promise, .provisioned r => some (afterProvision s id promise r)
  | .startFailedCleanup id promise error, .cleanedUp _ =>
      some (if s.current then provisionFailed s id promise error
        else throwFromStart id promise disposedError)
  | .startFailedWait id promise job changed, .settled =>
      if w.jobs[job]? = some .pending then none
      else some (throwFromStart id promise
        (if changed then .spawn .provisionFailed "worker provisioning failed" else revokedError))
  | .startReadyCleanup id promise receipt, .cleanedUp _ =>
      some (if s.current then provisionReady s id promise receipt
        else throwFromStart id promise disposedError)
  | .startRevokedWait id promise job, .settled =>
      if w.jobs[job]? = some .pending then none
      else some (throwFromStart id promise revokedError)
  | .dismissProvisioning id promise, .settled =>
      if w.settled[promise]? = some true then some (Worker.dismissCleanup s id) else none
  | .dismissCleanup id job, .settled =>
      match w.jobs[job]? with
      | none | some .pending => none
      | some state => some (afterDismissCleanup s id state)
  | .cleaning id job always, .cleanedUp r => some (afterCleanup s id job always r)
  | .cleaned id job ok, .settled => some (afterCleaned id job ok)
  | .recoverInspect id rest thenCleanup, .inspected r =>
      some (afterRecoverInspect s id rest thenCleanup r)
  | .recovered, .settled => some (afterRecovered s)
  | .pendingInspect id graceExpired rest, .inspected r =>
      some (afterPendingInspect s id graceExpired rest r)
  | .pendingCleanup id job rest, .settled =>
      if w.jobs[job]? = some .pending then none else some (afterPendingCleanup s id rest)
  | _, _ => none

/-- The thread a slice leaves: where it paused, or what it threw. -/
def Thread.ofResult : Except SpawnError Thread → Thread
  | .ok t => t
  | .error e => .returned (.error e)

/-- Run a slice as the call with number `tid`. -/
def World.run (w : World) (tid : ℕ) (m : SpawnM Thread) : World :=
  let (r, w') := m w
  { w' with threads := w'.threads.set tid (Thread.ofResult r) }

/-- Begin a call. -/
def World.call (w : World) (m : SpawnM Thread) : World :=
  World.run { w with threads := w.threads ++ [.returned (.ok [])] } w.threads.length m

/-- Run a method of the mailbox. -/
def World.mail {α : Type} (w : World) (m : MailboxM α) : World := { w with db := (m w.db).2 }

/-- An artifact row for a session that exists, under a key it has not used. -/
def WorkerDb.storeArtifact (db : WorkerDb) (row : ArtifactRow) : WorkerDb :=
  match db.sessions.get? row.sessionId, db.artifacts.insert? row with
  | some _, some artifacts => { db with artifacts := artifacts }
  | _, _ => db

/-- `SET completion_notified_at = COALESCE(completion_notified_at, MAX(…))`. -/
def WorkerDb.deliver (db : WorkerDb) (id : String) (now : Time) : WorkerDb :=
  db.setSession id (fun r => decide (r.status = .finished) || decide (r.status = .failed))
    (fun r => { r with
      completionNotifiedAt :=
        some (r.completionNotifiedAt.getD (max (max r.createdAt r.updatedAt) now)) })
    (fun _ => rfl)

def World.step (sha : Sha256) (cfg : SpawnConfig) (w : World) : WorkerAct → World
  | .sendToWorker sessionId key body sender now =>
      w.mail (Worker.sendToWorker sessionId key body sender now)
  | .postFromWorker token key kind body now =>
      w.mail (Worker.postFromWorker sha token key kind body now)
  | .acknowledgeForWorker token ids now => w.mail (Worker.acknowledgeForWorker sha token ids now)
  | .acknowledgeFromWorker sessionId ids now =>
      w.mail (Worker.acknowledgeFromWorker sessionId ids now)
  | .storeArtifact row => { w with db := w.db.storeArtifact row }
  | .delivered sessionId now => { w with db := w.db.deliver sessionId now }
  | .start s mindId value draws => w.call (Worker.start cfg s mindId value draws)
  | .dismiss s ref => w.call (Worker.dismiss s ref)
  | .recoverState s => w.call (Worker.recoverState s false)
  | .cleanupPending s => w.call (Worker.cleanupPending s)
  | .recover s => w.call (Worker.recoverState s true)
  | .revokeProvisioning now => (Worker.revokeProvisioning now w).2
  | .resume tid s outcome =>
      match (w.threads[tid]?).bind (fun t => t.next w s outcome) with
      | some m => w.run tid m
      | none => w
  | .restart => World.boot w.db

end Elpis.Worker
