import Elpis.Lib.Run
import Elpis.Mind.Statements

/-!
# The sandbox registry

`src/sandbox/registry.ts`. One row for each Mind item that ever got a persistent
sandbox, with its lifecycle, the run that owns it and the counters run ids are made
of. Every method is a transaction over the table and the Mind items it consults, or
a single statement. The Mind items belong to another component, so a run of the
registry may find any table of them at any time.
-/

namespace Elpis.Sandbox

open Elpis.Lib Elpis.Mind

/-! ## Rows -/

inductive SandboxLifecycle where
  | ready | busy | detached | retired
deriving DecidableEq, Repr

def SandboxLifecycle.text : SandboxLifecycle → String
  | .ready => "ready"
  | .busy => "busy"
  | .detached => "detached"
  | .retired => "retired"

/-- `persistent_sandboxes`. The `mindId` of a registration is its `id`. -/
structure SandboxRegistration where
  id : MindId
  executorId : String
  generation : ℕ
  lifecycle : SandboxLifecycle
  reminderLatched : Bool
  retireRequested : Bool
  retireRequestedAt : Option Time
  coldNoticePending : Bool
  activeRunId : Option String
  nextRunSeq : ℕ
  createdAt : Time
  updatedAt : Time
  retiredAt : Option Time
deriving DecidableEq

structure SandboxRun where
  runId : String
  sandbox : SandboxRegistration
deriving DecidableEq

structure SandboxDb where
  executorIdentity : Option String
  minds : Table MindRow.id
  sandboxes : Table SandboxRegistration.id
deriving DecidableEq

def SandboxDb.empty : SandboxDb := ⟨none, Table.empty, Table.empty⟩

abbrev RegistryM := Tx SandboxDb String

/-- `UPDATE persistent_sandboxes SET f WHERE p`. -/
def SandboxDb.update (db : SandboxDb) (p : SandboxRegistration → Bool)
    (f : SandboxRegistration → SandboxRegistration) (hf : ∀ r, (f r).id = r.id) : SandboxDb :=
  { db with sandboxes := db.sandboxes.update p f hf }

theorem SandboxDb.mem_update {db : SandboxDb} {p : SandboxRegistration → Bool}
    {f : SandboxRegistration → SandboxRegistration} (hf : ∀ r, (f r).id = r.id)
    {x : SandboxRegistration} :
    x ∈ (db.update p f hf).sandboxes ↔ ∃ r ∈ db.sandboxes, (if p r then f r else r) = x := by
  show x ∈ db.sandboxes.update p f hf ↔ _
  exact Table.mem_update

/-- `UPDATE persistent_sandboxes SET f WHERE id = ?`. -/
def updateRow (id : MindId) (f : SandboxRegistration → SandboxRegistration)
    (hf : ∀ r, (f r).id = r.id) : RegistryM Unit :=
  Tx.write (fun db => db.update (fun r => decide (r.id = id)) f hf)

/-- `Number(result.changes)` of an update with the condition `p`. -/
def changes (p : SandboxRegistration → Bool) : RegistryM ℕ :=
  Tx.read (fun db => (db.sandboxes.select p).length)

/-! ## Reading -/

def assertMindId (mindId : String) : RegistryM Unit :=
  Tx.ensure (isMindId mindId = true) "sandbox registry: mind id must be a canonical elm-* id"

def resolveId (ref : String) : RegistryM MindId := do
  Tx.ensure (isMindId ref = true)
    ("sandbox registry: expected canonical Mind id, got " ++ Js.stringify ref)
  pure ref

def byId (id : MindId) : RegistryM SandboxRegistration := do
  let row ← Tx.read (fun db => db.sandboxes.get? id)
  Tx.require row ("sandbox registry: no sandbox " ++ Js.stringify id)

def getByMind (mindId : MindId) : RegistryM (Option SandboxRegistration) := do
  assertMindId mindId
  Tx.read (fun db => db.sandboxes.get? mindId)

/-- `SELECT status, archived_at FROM mind_items WHERE id = ?`, of which the caller
reads the status without looking whether there is a row. -/
def mindOf (id : MindId) : RegistryM MindRow := do
  let mind ← Tx.read (fun db => db.minds.get? id)
  Tx.require mind "Cannot read properties of undefined (reading 'status')"

/-- `status === 'done' || status === 'cancelled' || archived_at !== null`. -/
def closed (mind : MindRow) : Bool := mind.status.closed || mind.archivedAt.isSome

/-! ## Identity and registration -/

/-- The constructor's `ensureExecutorIdentity`. -/
def ensureExecutorIdentity (uuid : String) : RegistryM String := Tx.transaction do
  let existing ← Tx.read (fun db => db.executorIdentity)
  match existing with
  | some executorId => pure executorId
  | none => do
      Tx.write (fun db => { db with executorIdentity := some uuid })
      pure uuid

def newRegistration (executorId : String) (mindId : MindId) (now : Time) : SandboxRegistration :=
  ⟨mindId, executorId, 1, .ready, false, false, none, false, none, 1, now, now, none⟩

/-- `INSERT INTO persistent_sandboxes`. -/
def insertRegistration (row : SandboxRegistration) : RegistryM Unit := do
  let table ← Tx.read (fun db => db.sandboxes.insert? row)
  match table with
  | some sandboxes => Tx.write (fun db => { db with sandboxes := sandboxes })
  | none => Tx.throw "UNIQUE constraint failed: persistent_sandboxes.id"

def ensureForMind (executorId : String) (mindId : MindId) (now : Time) :
    RegistryM SandboxRegistration := do
  assertMindId mindId
  Tx.transaction do
    let found ← Tx.read (fun db => db.minds.get? mindId)
    let mind ← Tx.require found ("sandbox registry: no Mind item " ++ mindId)
    Tx.ensure (mind.status ≠ .proposal) ("sandbox registry: Mind " ++ mindId ++
      " is a proposal and cannot receive a persistent sandbox")
    let existing ← Tx.read (fun db => db.sandboxes.get? mindId)
    match existing with
    | some row => pure row
    | none => do
        Tx.ensure (closed mind = false) ("sandbox registry: Mind " ++ mindId ++
          " is closed and cannot receive a persistent sandbox")
        insertRegistration (newRegistration executorId mindId now)
        byId mindId

/-! ## Retirement -/

def requestRetirementInside (current : SandboxRegistration) (now : Time) :
    RegistryM SandboxRegistration :=
  if current.lifecycle = .retired ∨ current.retireRequested = true then pure current
  else do
    updateRow current.id (fun r =>
      { r with retireRequested := true,
               retireRequestedAt := some (r.retireRequestedAt.getD now), updatedAt := now })
      (fun _ => rfl)
    byId current.id

def retireByMind (mindId : MindId) (now : Time) : RegistryM (Option SandboxRegistration) := do
  let current ← getByMind mindId
  Tx.onSome current fun current => Tx.transaction do
    let row ← byId current.id
    requestRetirementInside row now

/-- The sandboxes `retireClosedMinds` walks: not retired, of a closed Mind. -/
def closedSandboxes (db : SandboxDb) : List SandboxRegistration :=
  db.sandboxes.select (fun r => decide (r.lifecycle ≠ .retired) &&
    (db.minds.get? r.id).any closed)

def retireClosedMinds (now : Time) : RegistryM ℕ := do
  let rows ← Tx.read closedSandboxes
  Tx.forEach (fun row => do
    let _ ← retireByMind row.id now
    pure ()) rows
  pure rows.length

/-- The request of a retirement taken back. -/
def dropRetirement (now : Time) (r : SandboxRegistration) : SandboxRegistration :=
  { r with retireRequested := false, retireRequestedAt := none, updatedAt := now }

theorem dropRetirement_id (now : Time) (r : SandboxRegistration) :
    (dropRetirement now r).id = r.id := rfl

def cancelRetirement (mindId : MindId) (now : Time) : RegistryM (Option SandboxRegistration) := do
  let current ← getByMind mindId
  match current with
  | none => pure none
  | some row =>
      if row.lifecycle = .retired ∨ row.retireRequested = false then pure (some row)
      else do
        updateRow row.id (dropRetirement now) (dropRetirement_id now)
        let row' ← byId row.id
        pure (some row')

/-- `!options.expired` and the Mind is not closed; an expired sandbox needs no Mind any more. -/
def retirementRevoked (id : MindId) (expired : Bool) : RegistryM Bool :=
  if expired = true then pure false
  else do
    let mind ← mindOf id
    pure (!closed mind)

def finalizeRetirement (ref : String) (expired : Bool) (now : Time) :
    RegistryM SandboxRegistration := do
  let id ← resolveId ref
  Tx.transaction do
    let current ← byId id
    if current.lifecycle = .retired then pure current
    else do
      Tx.ensure (current.lifecycle = .ready ∧ current.retireRequested = true)
        ("sandbox registry: " ++ current.id ++ " is not ready for retirement GC")
      let revoked ← retirementRevoked current.id expired
      if revoked = true then do
        updateRow id (dropRetirement now) (dropRetirement_id now)
        byId id
      else do
        updateRow id (fun r =>
          { r with lifecycle := .retired, retireRequested := false, retireRequestedAt := none,
                   retiredAt := some now, updatedAt := now }) (fun _ => rfl)
        byId id

/-! ## Runs -/

/-- `${current.id}:g${current.generation}:r${current.nextRunSeq}`. -/
def runIdOf (id : MindId) (generation sequence : ℕ) : String :=
  id ++ ":g" ++ toString generation ++ ":r" ++ toString sequence

/-- The step of `beginRun` that asks for the retirement of a closed Mind's sandbox and
reads the row again. -/
def retireBeforeRun (current : SandboxRegistration) (mind : MindRow) (now : Time) :
    RegistryM SandboxRegistration :=
  if current.retireRequested = false ∧ closed mind = true then do
    let _ ← requestRetirementInside current now
    byId current.id
  else pure current

def beginRun (ref : String) (now : Time) : RegistryM SandboxRun := do
  let id ← resolveId ref
  Tx.transaction do
    let first ← byId id
    Tx.ensure (first.lifecycle = .ready)
      ("sandbox registry: " ++ first.id ++ " is " ++ first.lifecycle.text)
    let mind ← mindOf first.id
    Tx.ensure (mind.status ≠ .proposal) ("sandbox registry: Mind " ++ first.id ++
      " is a proposal and cannot resume a persistent sandbox")
    let current ← retireBeforeRun first mind now
    let runId := runIdOf current.id current.generation current.nextRunSeq
    updateRow id (fun r =>
      { r with lifecycle := .busy, activeRunId := some runId,
               nextRunSeq := r.nextRunSeq + 1, updatedAt := now }) (fun _ => rfl)
    let sandbox ← byId id
    pure ⟨runId, sandbox⟩

/-- The refusal of a call that does not present the active run. -/
def notOwner (id : MindId) (runId : String) : String :=
  "sandbox registry: " ++ id ++ " does not own active run " ++ Js.stringify runId

/-- `transitionRun(ref, runId, 'detached')`. -/
def detachRun (ref : String) (runId : String) (now : Time) : RegistryM SandboxRegistration := do
  let id ← resolveId ref
  Tx.transaction do
    let current ← byId id
    Tx.ensure (current.lifecycle = .busy ∧ current.activeRunId = some runId)
      (notOwner current.id runId)
    updateRow id (fun r => { r with lifecycle := .detached, updatedAt := now }) (fun _ => rfl)
    byId id

def finishRun (ref : String) (runId : String) (now : Time) : RegistryM SandboxRegistration := do
  let id ← resolveId ref
  Tx.transaction do
    let current ← byId id
    Tx.ensure ((current.lifecycle = .busy ∨ current.lifecycle = .detached) ∧
      current.activeRunId = some runId) (notOwner current.id runId)
    let mind ← mindOf current.id
    updateRow id (fun r =>
      { r with lifecycle := .ready, activeRunId := none,
               retireRequested := if closed mind then true else r.retireRequested,
               retireRequestedAt :=
                 if closed mind then some (r.retireRequestedAt.getD now) else r.retireRequestedAt,
               updatedAt := now }) (fun _ => rfl)
    byId id

def failRunAndReset (ref : String) (runId : String) (now : Time) :
    RegistryM SandboxRegistration := do
  let id ← resolveId ref
  Tx.transaction do
    let current ← byId id
    Tx.ensure ((current.lifecycle = .busy ∨ current.lifecycle = .detached) ∧
      current.activeRunId = some runId) (notOwner current.id runId)
    updateRow id (fun r =>
      { r with generation := r.generation + 1, lifecycle := .ready, activeRunId := none,
               nextRunSeq := 1, coldNoticePending := false, updatedAt := now }) (fun _ => rfl)
    byId id

def markInterruptedRunsDetached (now : Time) : RegistryM ℕ := do
  let n ← changes (fun r => decide (r.lifecycle = .busy))
  Tx.write (fun db => db.update (fun r => decide (r.lifecycle = .busy))
    (fun r => { r with lifecycle := .detached, updatedAt := now }) (fun _ => rfl))
  pure n

def coldResetAll (now : Time) : RegistryM ℕ := do
  let n ← changes (fun r => decide (r.lifecycle ≠ .retired))
  Tx.write (fun db => db.update (fun r => decide (r.lifecycle ≠ .retired))
    (fun r =>
      { r with generation := r.generation + 1, lifecycle := .ready, activeRunId := none,
               nextRunSeq := 1, coldNoticePending := true, updatedAt := now }) (fun _ => rfl))
  pure n

def reset (ref : String) (now : Time) : RegistryM SandboxRegistration := do
  let id ← resolveId ref
  Tx.transaction do
    let current ← byId id
    Tx.ensure (current.lifecycle = .ready)
      ("sandbox registry: " ++ current.id ++ " must be ready to reset")
    updateRow id (fun r =>
      { r with generation := r.generation + 1, nextRunSeq := 1, reminderLatched := false,
               updatedAt := now }) (fun _ => rfl)
    byId id

/-! ## Notices and reminders -/

def consumeColdNotice (ref : String) : RegistryM Bool := do
  let id ← resolveId ref
  let n ← changes (fun r => decide (r.id = id) && r.coldNoticePending)
  Tx.write (fun db => db.update (fun r => decide (r.id = id) && r.coldNoticePending)
    (fun r => { r with coldNoticePending := false }) (fun _ => rfl))
  pure (decide (n = 1))

def latchReminder (ref : String) (now : Time) : RegistryM Bool := do
  let id ← resolveId ref
  let p : SandboxRegistration → Bool := fun r =>
    decide (r.id = id) && decide (r.lifecycle ≠ .retired) && !r.reminderLatched
  let n ← changes p
  Tx.write (fun db => db.update p
    (fun r => { r with reminderLatched := true, updatedAt := now }) (fun _ => rfl))
  pure (decide (n = 1))

def clearReminder (ref : String) (now : Time) : RegistryM SandboxRegistration := do
  let id ← resolveId ref
  updateRow id (fun r => { r with reminderLatched := false, updatedAt := now }) (fun _ => rfl)
  byId id

def clearReminderByMind (mindId : MindId) (now : Time) :
    RegistryM (Option SandboxRegistration) := do
  let current ← getByMind mindId
  Tx.onSome current fun row => clearReminder row.id now

end Elpis.Sandbox
