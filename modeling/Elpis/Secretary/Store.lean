import Elpis.Js.Text
import Elpis.Lib.Table
import Elpis.Lib.Tx

/-!
# The tables of the secretary

`secretary_sessions` and `secretary_turns` of `src/store/db.ts`, as migration 0024 leaves them,
with what the stores of `src/secretary/session.ts` and `src/secretary/conversation.ts` share. A
statement checks the constraints and the triggers of its table before it writes.
-/

namespace Elpis.Secretary

open Elpis.Js Elpis.Lib

inductive Code where
  | unauthorized | invalid_request | not_found | unavailable | conflict
deriving DecidableEq, Repr

/-- An error of one of the two stores, or of a statement. -/
inductive Failure where
  | session (code : Code) (message : String)
  | conversation (code : Code) (message : String)
  | sql (message : String)
deriving DecidableEq, Repr

def Failure.message : Failure → String
  | session _ m | conversation _ m | sql m => m

/-! ## Rows -/

inductive SessionStatus where
  | starting | ready | closed | failed
deriving DecidableEq, Repr

def SessionStatus.active : SessionStatus → Bool
  | starting | ready => true
  | closed | failed => false

/-- `SecretarySession`, with its digest. -/
structure Session where
  id : String
  hintMindId : Option String
  status : SessionStatus
  modelRef : String
  controlTokenDigest : String
  podName : Option String
  podUid : Option String
  createdAt : ℤ
  updatedAt : ℤ
  lastError : Option String
deriving DecidableEq, Repr

inductive TurnStatus where
  | queued | claimed | completed | ambiguous | cancelled
deriving DecidableEq, Repr

def TurnStatus.active : TurnStatus → Bool
  | queued | claimed => true
  | completed | ambiguous | cancelled => false

inductive Role where
  | user | assistant
deriving DecidableEq, Repr

def Role.name : Role → String
  | user => "user"
  | assistant => "assistant"

/-- `SecretaryConversationMessage`. -/
structure Message where
  role : Role
  content : String
deriving DecidableEq, Repr

/-- `SecretaryTurn`. The messages are kept as JSON in the table. -/
structure Turn where
  id : String
  sessionId : String
  sequence : ℕ
  status : TurnStatus
  request : Message
  response : Option Message
  createdAt : ℤ
  updatedAt : ℤ
  claimedAt : Option ℤ
  completedAt : Option ℤ
  lastError : Option String
deriving DecidableEq, Repr

structure Store where
  sessions : Table Session.id
  turns : Table Turn.id
deriving DecidableEq

def Store.empty : Store := ⟨Table.empty, Table.empty⟩

/-- A program over the store that may throw. -/
abbrev Method := Tx Store Failure

/-! ## Constraints and triggers -/

def checkFailed : Failure := .sql "CHECK constraint failed"
def uniqueFailed : Failure := .sql "UNIQUE constraint failed"
def foreignKeyFailed : Failure := .sql "FOREIGN KEY constraint failed"

/-- The checks of `secretary_turns` on numbers and on the error. -/
def Turn.checked (t : Turn) : Bool :=
  decide (1 ≤ t.sequence ∧ t.createdAt ≤ t.updatedAt ∧ (∀ at_ ∈ t.claimedAt, t.createdAt ≤ at_) ∧
    (∀ at_ ∈ t.completedAt, t.createdAt ≤ at_) ∧ ∀ e ∈ t.lastError, e.length ≤ 1000)

/-- `secretary_turns_pristine_insert_guard`. -/
def Turn.pristine (t : Turn) : Bool :=
  decide (t.status = .queued ∧ t.response = none ∧ t.claimedAt = none ∧ t.completedAt = none ∧
    t.lastError = none)

/-- `secretary_turns_status_transition_guard`. -/
def TurnStatus.mayBecome (old new : TurnStatus) : Bool :=
  decide (new = old) ||
    match old, new with
    | .queued, .claimed | .queued, .cancelled => true
    | .claimed, .completed | .claimed, .ambiguous | .claimed, .cancelled => true
    | _, _ => false

/-- `secretary_turns_lifecycle_update_guard`. -/
def Turn.lifecycle (t : Turn) : Bool :=
  match t.status with
  | .queued => decide (t.claimedAt = none ∧ t.response = none ∧ t.completedAt = none ∧ t.lastError = none)
  | .claimed => decide ((∃ at_ ∈ t.claimedAt, at_ ≤ t.updatedAt) ∧ t.response = none ∧ t.completedAt = none ∧
      t.lastError = none)
  | .completed => decide ((∃ claimed ∈ t.claimedAt, ∃ completed ∈ t.completedAt, claimed ≤ completed ∧
      completed ≤ t.updatedAt) ∧ t.response ≠ none ∧ t.lastError = none)
  | .ambiguous => decide ((∃ at_ ∈ t.claimedAt, at_ ≤ t.updatedAt) ∧ t.response = none ∧ t.completedAt = none ∧
      t.lastError ≠ none)
  | .cancelled => decide (t.response = none ∧ t.completedAt = none ∧ t.lastError ≠ none)

/-- `secretary_sessions_status_transition_guard`. -/
def SessionStatus.mayBecome (old new : SessionStatus) : Bool :=
  decide (new = old) ||
    match old, new with
    | .starting, .ready | .starting, .closed | .starting, .failed => true
    | .ready, .closed | .ready, .failed => true
    | _, _ => false

/-! ## Statements -/

/-- `INSERT INTO secretary_turns`. -/
def insertTurn (t : Turn) : Method Unit := do
  let s ← Tx.read id
  Tx.ensure (t.pristine = true) (.sql "new secretary turns must be pristine")
  Tx.ensure (t.checked = true) checkFailed
  Tx.ensure (s.turns.get? t.id = none) uniqueFailed
  Tx.ensure (∀ x ∈ s.turns.rows, ¬(x.sessionId = t.sessionId ∧ x.sequence = t.sequence)) uniqueFailed
  -- `secretary_turns_active_session_idx`
  Tx.ensure (∀ x ∈ s.turns.rows, ¬(x.sessionId = t.sessionId ∧ x.status.active = true)) uniqueFailed
  Tx.ensure ((s.sessions.get? t.sessionId).isSome) foreignKeyFailed
  Tx.write (fun s => { s with turns := s.turns.put t })

/-- `UPDATE secretary_turns SET … WHERE …`, with the number of rows. An update gives no row
another session and makes none active, so the indices have nothing to say. -/
def updateTurns (p : Turn → Bool) (f : Turn → Turn) (hf : ∀ t, (f t).id = t.id) : Method ℕ := do
  let s ← Tx.read id
  Tx.ensure (∀ t ∈ s.turns.select p, t.status.mayBecome (f t).status = true)
    (.sql "invalid secretary turn status transition")
  Tx.ensure (∀ t ∈ s.turns.select p, (f t).lifecycle = true)
    (.sql "secretary turn lifecycle fields do not match status")
  Tx.ensure (∀ t ∈ s.turns.select p, (f t).checked = true) checkFailed
  Tx.write (fun s => { s with turns := s.turns.update p f hf })
  return (s.turns.select p).length

/-- A turn is settled with a reason. -/
def Turn.settled (status : TurnStatus) (updatedAt : Turn → ℤ) (reason : String) (t : Turn) : Turn :=
  { t with status, updatedAt := updatedAt t, lastError := some reason }

theorem Turn.settled_id (status : TurnStatus) (updatedAt : Turn → ℤ) (reason : String) (t : Turn) :
    (t.settled status updatedAt reason).id = t.id := rfl

/-- `secretary_sessions_settle_turns_before_terminal`. -/
def settleTurns (session : Session) : Method Unit := do
  let reason := session.lastError.getD "secretary session closed"
  let updatedAt := fun t : Turn => max t.updatedAt session.updatedAt
  let _ ← updateTurns (fun t => decide (t.sessionId = session.id ∧ t.status = .queued))
    (Turn.settled .cancelled updatedAt reason) (Turn.settled_id _ _ _)
  let _ ← updateTurns (fun t => decide (t.sessionId = session.id ∧ t.status = .claimed))
    (Turn.settled .ambiguous updatedAt reason) (Turn.settled_id _ _ _)
  return ()

/-- `UPDATE secretary_sessions SET … WHERE id = ? AND status IN …`, with the number of rows: one
statement with what its trigger does. -/
def updateSession (id : String) (from_ : SessionStatus → Bool) (f : Session → Session) : Method ℕ :=
  Tx.transaction do
    let s ← Tx.read (fun s => s)
    match (s.sessions.get? id).filter (fun x => from_ x.status) with
    | none => return 0
    | some old =>
        let new := f old
        Tx.ensure (old.status.mayBecome new.status = true) (.sql "invalid secretary session status transition")
        Tx.when (old.status.active = true ∧ new.status.active = false) (settleTurns new)
        Tx.ensure (new.createdAt ≤ new.updatedAt) checkFailed
        Tx.write (fun s => { s with sessions := s.sessions.put new })
        return 1

end Elpis.Secretary
