import Elpis.Lib.Run
import Elpis.Worker.Schema

/-!
# The worker supervisor

`src/worker/supervisor.ts`: the passes that requests are gathered into, and the notices of
terminal sessions. A step is what runs between two awaits. The other parts of the program change
the rows of the sessions as they like; only the supervisor sets `completion_notified_at`.
-/

namespace Elpis.Worker.Supervisor

open Elpis.Lib Elpis.Mind

/-! ## Passes -/

/-- Of the promise in flight: there is none, its pass runs, or its loop is left and `finally` is
still to come. -/
inductive Phase where
  | idle | pass | left
deriving DecidableEq, Repr

/-- The variables of one kind of passes. -/
structure Lane where
  dirty : Bool
  phase : Phase
  /-- The requests that no pass has started behind. -/
  waiting : ℕ
deriving DecidableEq, Repr

def Lane.start : Lane := ⟨false, .pass, 0⟩

/-- `reconcile` and `kickCleanup`. -/
def Lane.request (l : Lane) (disposed : Bool) : Lane :=
  if disposed = true then l
  else if l.phase = .idle then Lane.start
  else { l with dirty := true, waiting := l.waiting + 1 }

/-- `while (dirty)`, and the beginning of the next turn. -/
def Lane.again (l : Lane) (disposed : Bool) : Lane :=
  if l.dirty = false then { l with phase := .left }
  else if disposed = true then { l with dirty := false, phase := .left }
  else Lane.start

def Lane.leave (l : Lane) : Lane := { l with phase := .left }

/-- `finally`. -/
def Lane.clear (l : Lane) : Lane := if l.phase = .left then { l with phase := .idle } else l

/-! ## Notices -/

structure WorkerTerminalNotice where
  id : String
  worker : String
  mindId : MindId
  status : SessionStatus
  updatedAt : Time
  finish : Option ℕ
deriving DecidableEq

/-- A notice that was handed out, by its number. -/
structure Issued where
  serial : ℕ
  notice : WorkerTerminalNotice
  /-- It was delivered, neither of its callbacks was called, and the deliverer did not throw. -/
  outstanding : Bool
deriving DecidableEq

/-- `completion_notified_at` of a session was set by the callback of a notice, while these notices
of the session were outstanding. -/
structure Mark where
  sessionId : String
  serial : ℕ
  outstanding : List ℕ
deriving DecidableEq

structure World where
  sessions : Table SessionRow.id
  disposed : Bool
  /-- `deliverer` is set. -/
  active : Bool
  reconcile : Lane
  cleanup : Lane
  claimed : String → Bool
  issued : AutoTable Issued.serial
  marks : List Mark

namespace World
variable (w : World)

/-- `status IN ('finished','failed')`. -/
def isCompleted (row : SessionRow) : Bool := decide (row.status = .finished ∨ row.status = .failed)

/-- `ORDER BY updated_at, id`. -/
def comesBefore (x y : SessionRow) : Prop := x.updatedAt < y.updatedAt ∨ x.updatedAt = y.updatedAt ∧ x.id ≤ y.id

instance : DecidableRel comesBefore := fun _ _ => inferInstanceAs (Decidable (_ ∨ _ ∧ _))

def pending : List SessionRow :=
  (w.sessions.select (fun row => isCompleted row && row.completionNotifiedAt.isNone)).insertionSort comesBefore

def claim (sessionId : String) (value : Bool) : World :=
  { w with claimed := Function.update w.claimed sessionId value }

/-- The claim and the notice of it. -/
def issue (row : SessionRow) (finish : Option ℕ) : World :=
  { w.claim row.id true with
    issued := w.issued.push
      (fun serial => ⟨serial, ⟨row.id, row.worker, row.mindId, row.status, row.updatedAt, finish⟩, true⟩)
      (fun _ => rfl) }

/-- The notice is not outstanding any more. -/
def close (serial : ℕ) : World :=
  { w with
    issued := w.issued.update (fun i => decide (i.serial = serial))
      (fun i => { i with outstanding := false }) (fun _ => rfl) }

/-- The numbers of a session's outstanding notices. -/
def outstanding (sessionId : String) : List ℕ :=
  (w.issued.select (fun i => decide (i.notice.id = sessionId) && i.outstanding)).map Issued.serial

/-- The update of a `delivered` callback. -/
def mark (sessionId : String) (serial : ℕ) (now : Time) (outstanding : List ℕ) : World :=
  { w with
    sessions := w.sessions.update (fun row => decide (row.id = sessionId) && isCompleted row)
      (fun row => { row with
        completionNotifiedAt := some (row.completionNotifiedAt.getD (max row.createdAt (max row.updatedAt now))) })
      (fun _ => rfl)
    marks := if (w.sessions.get? sessionId).any (fun row => isCompleted row && row.completionNotifiedAt.isNone) then
        w.marks ++ [⟨sessionId, serial, outstanding⟩]
      else w.marks }

/-- `fails`: the database throws. -/
def delivered (serial : ℕ) (now : Time) (fails : Bool) : World :=
  match w.issued.get? serial with
  | none => w
  | some i =>
      if w.claimed i.notice.id = false then w.close serial
      else if fails = true then (w.close serial).claim i.notice.id false
      else ((w.close serial).claim i.notice.id false).mark i.notice.id serial now (w.outstanding i.notice.id)

def dropped (serial : ℕ) : World :=
  match w.issued.get? serial with
  | none => w
  | some i => (w.close serial).claim i.notice.id false

def requestReconcile : World := { w with reconcile := w.reconcile.request w.disposed }

def kickCleanup : World := { w with cleanup := w.cleanup.request w.disposed }

end World

/-- What may be called at any time, also by the deliverer: the callbacks of the notice with a
number, and `reconcile`. -/
inductive Callback where
  | delivered (serial : ℕ) (now : Time) (fails : Bool)
  | dropped (serial : ℕ)
  | reconcile
deriving DecidableEq

def World.call (w : World) : Callback → World
  | .delivered serial now fails => w.delivered serial now fails
  | .dropped serial => w.dropped serial
  | .reconcile => w.requestReconcile

/-- What `deliverPending` meets. -/
structure Attempt where
  /-- `spawn.status` or `finishFromWorker` throws for the session. -/
  breaks : String → Bool
  /-- `finishFromWorker`. -/
  finish : String → Option ℕ
  /-- What the deliverer calls when it gets the notice with a number. -/
  calls : ℕ → List Callback
  /-- Then it throws. -/
  throws : ℕ → Bool

/-- One row; the flag says that the loop has thrown. -/
def deliverRow (attempt : Attempt) (s : World × Bool) (row : SessionRow) : World × Bool :=
  if s.2 = true ∨ s.1.claimed row.id = true then s
  else
    match if attempt.breaks row.id then none else s.1.sessions.get? row.id with
    | none => (s.1, true)
    | some record =>
        let serial := s.1.issued.next
        let w := run World.call (s.1.issue record (attempt.finish row.id)) (attempt.calls serial)
        (if attempt.throws serial then (w.close serial).claim row.id false else w, false)

def deliverPending (attempt : Attempt) (w : World) : World × Bool :=
  if w.disposed = true ∨ w.active = false then (w, false)
  else run (deliverRow attempt) (w, false) w.pending

/-! ## Steps -/

inductive Event where
  /-- A row is written, and `completion_notified_at` kept or set to null. -/
  | session (row : SessionRow) (keep : Bool)
  | call (callback : Callback)
  | kickCleanup
  | activate (attempt : Attempt)
  /-- The immediate of a finish. -/
  | finish (attempt : Attempt)
  /-- The immediate of a settled provisioning. -/
  | provisioned
  /-- `recoverState` settles. -/
  | recovered (ok : Bool) (attempt : Attempt)
  /-- `finally` of the reconciliation. -/
  | reconcileCleared
  /-- `cleanupPending` settles. -/
  | cleaned (ok : Bool)
  /-- `finally` of the cleanup. -/
  | cleanupCleared
  | dispose

def World.putSession (w : World) (row : SessionRow) (keep : Bool) : World :=
  { w with
    sessions := w.sessions.put { row with
      completionNotifiedAt :=
        if keep = true then (w.sessions.get? row.id).bind SessionRow.completionNotifiedAt else none } }

def World.activate (w : World) (attempt : Attempt) : World :=
  if w.disposed = true ∨ w.active = true then w
  else
    let s := deliverPending attempt { w with active := true }
    if s.2 = true then { s.1 with active := false } else s.1.requestReconcile

def World.finish (w : World) (attempt : Attempt) : World :=
  if w.disposed = true then w else (deliverPending attempt w).1.requestReconcile

/-- The turn of the reconciliation behind `recoverState`. -/
def World.recovered (w : World) (ok : Bool) (attempt : Attempt) : World :=
  if w.reconcile.phase ≠ .pass then w
  else if ok = false ∨ w.disposed = true then { w with reconcile := w.reconcile.leave }
  else
    let s := deliverPending attempt w
    if s.2 = true then { s.1 with reconcile := s.1.reconcile.leave }
    else { s.1.kickCleanup with reconcile := s.1.reconcile.again s.1.disposed }

def World.cleaned (w : World) (ok : Bool) : World :=
  if w.cleanup.phase ≠ .pass then w
  else if ok = false then { w with cleanup := w.cleanup.leave }
  else { w with cleanup := w.cleanup.again w.disposed }

def World.dispose (w : World) : World :=
  if w.disposed = true then w
  else
    { w with
      disposed := true
      active := false
      reconcile := { w.reconcile with dirty := false }
      cleanup := { w.cleanup with dirty := false }
      claimed := fun _ => false }

def step (w : World) : Event → World
  | .session row keep => w.putSession row keep
  | .call callback => w.call callback
  | .kickCleanup => w.kickCleanup
  | .activate attempt => w.activate attempt
  | .finish attempt => w.finish attempt
  | .provisioned => w.requestReconcile
  | .recovered ok attempt => w.recovered ok attempt
  | .reconcileCleared => { w with reconcile := w.reconcile.clear }
  | .cleaned ok => w.cleaned ok
  | .cleanupCleared => { w with cleanup := w.cleanup.clear }
  | .dispose => w.dispose

/-- A supervisor as it starts, over the sessions there are. -/
def World.started (sessions : Table SessionRow.id) : World where
  sessions := sessions
  disposed := false
  active := false
  reconcile := ⟨false, .idle, 0⟩
  cleanup := ⟨false, .idle, 0⟩
  claimed := fun _ => false
  issued := AutoTable.empty
  marks := []

end Elpis.Worker.Supervisor
