import Elpis.Sandbox.Lifecycle

/-!
# Persistent runs and their futures

`src/sandbox/manager.ts` and the futures of `src/sandbox/bg.ts`. A persistent run owns
its sandbox in the registry. When it passes the async deadline the sandbox registers
its promise as a future and resolves the result; the manager hears of that only when
its `await` resumes, and marks the sandbox detached then. Between the two the future
can already settle, be cancelled or be abandoned, so the registration of a future and
the resumption of its run are two steps here, and the background registry may take any
step in between.
-/

namespace Elpis.Sandbox

open Elpis.Lib Elpis.Mind

/-! ## The process -/

inductive BgKind where
  | job | future
deriving DecidableEq, Repr

/-- `BgJob`, without the fields only the notices read. -/
structure BgJob where
  id : ℕ
  kind : BgKind
  pid : Option ℕ
  startedAt : Time
  running : Bool
  rejected : Bool
  ttlAt : Option Time
  cancelled : Bool
deriving DecidableEq

/-- The run of a sandbox. -/
structure Owner where
  sandbox : MindId
  runId : String
deriving DecidableEq

/-- An entry of `detached`. -/
structure DetachedRun where
  bgId : ℕ
  owner : Owner
deriving DecidableEq

/-- An entry of `earlySettlements`. -/
structure FutureSettlement where
  bgId : ℕ
  rejected : Bool
deriving DecidableEq

/-- An entry of `contexts`. -/
structure LiveContext where
  sandbox : MindId
  generation : ℕ
deriving DecidableEq

/-- A call of `runPersistent` that awaits its sandbox, with the future its result will
name once the run has detached. -/
structure Flight where
  owner : Owner
  future : Option ℕ
deriving DecidableEq

/-- A promise registered as a future. One of an ephemeral run has no owner. -/
structure Handoff where
  bgId : ℕ
  owner : Option Owner
  settled : Bool
deriving DecidableEq

structure Host where
  db : SandboxDb
  jobs : AutoTable BgJob.id
  contexts : Table LiveContext.sandbox
  detached : Table DetachedRun.bgId
  earlySettlements : Table FutureSettlement.bgId
  flights : List Flight
  handoffs : Table Handoff.bgId
deriving DecidableEq

def Host.empty : Host :=
  ⟨SandboxDb.empty, AutoTable.empty, Table.empty, Table.empty, Table.empty, [], Table.empty⟩

abbrev HostM := Tx Host String

/-- A method of the registry. -/
def registry {α : Type} (m : RegistryM α) : HostM α :=
  Tx.within Host.db (fun h db => { h with db := db }) m

structure ManagerConfig where
  executorId : String
  persistentRetirementGraceMs : ℕ

variable (config : ManagerConfig)

/-! ## Retirement -/

def retirementDeadline (registration : SandboxRegistration) : HostM (Option Time) :=
  if registration.retireRequested = false then pure none
  else match registration.retireRequestedAt with
    | none => Tx.throw ("sandbox manager: retiring sandbox " ++ registration.id ++
        " has no retirement timestamp")
    | some requestedAt => pure (some (requestedAt + config.persistentRetirementGraceMs))

/-- `this.contexts.delete(id)`. -/
def dropContext (id : MindId) : HostM Unit :=
  Tx.write (fun h =>
    { h with contexts := h.contexts.delete (fun c => decide (c.sandbox = id)) })

def finalizeExpired (registration : SandboxRegistration) (now : Time) : HostM Bool := do
  let deadline ← retirementDeadline config registration
  if registration.lifecycle ≠ .ready ∨ deadline.all (fun t => decide (now < t)) = true then
    pure false
  else do
    let retired ← registry (finalizeRetirement registration.id true now)
    if retired.lifecycle ≠ .retired then pure false
    else do
      dropContext registration.id
      pure true

def collectGarbage (now : Time) : HostM Unit := do
  let registrations ← Tx.read (fun h => h.db.sandboxes.rows)
  Tx.forEach (fun registration => do
    let _ ← finalizeExpired config registration now
    pure ()) registrations

def handleMindStateChange (mindId : MindId) (status : MindStatus) (archived : Bool)
    (now : Time) : HostM Unit :=
  if archived = true ∨ status.closed = true then do
    let retired ← registry (retireByMind mindId now)
    let _ ← Tx.onSome retired (fun registration => finalizeExpired config registration now)
    let _ ← registry (clearReminderByMind mindId now)
    pure ()
  else do
    let found ← registry (getByMind mindId)
    let deadline ← Tx.onSome found (retirementDeadline config)
    if deadline.join.any (fun t => decide (t ≤ now)) = true then do
      let _ ← Tx.onSome found (fun registration => finalizeExpired config registration now)
      pure ()
    else do
      let _ ← registry (cancelRetirement mindId now)
      Tx.when (status ≠ .inProgress) do
        let _ ← registry (clearReminderByMind mindId now)
        pure ()

/-! ## Detached runs -/

/-- A run that failed: the generation is given up. -/
def resetRun (owner : Owner) (now : Time) : HostM Unit := do
  let reset ← registry (failRunAndReset owner.sandbox owner.runId now)
  dropContext owner.sandbox
  let _ ← finalizeExpired config reset now
  pure ()

/-- A run that ended well. -/
def endRun (owner : Owner) (now : Time) : HostM Unit := do
  let finished ← registry (finishRun owner.sandbox owner.runId now)
  let _ ← finalizeExpired config finished now
  pure ()

def settleDetached (bgId : ℕ) (rejected : Bool) (now : Time) : HostM Unit := do
  let entry ← Tx.read (fun h => h.detached.get? bgId)
  match entry with
  | none => pure ()
  | some d => do
      Tx.write (fun h =>
        { h with detached := h.detached.delete (fun d => decide (d.bgId = bgId)) })
      if rejected = true then resetRun config d.owner now else endRun config d.owner now

/-- The listener the manager gives to `onFutureTerminal`. -/
def futureTerminal (bgId : ℕ) (now : Time) : HostM Unit := do
  let entry ← Tx.read (fun h => h.detached.get? bgId)
  Tx.when (entry.isSome = true) (settleDetached config bgId true now)

/-- The manager's `onFutureSettled`. -/
def futureSettled (bgId : ℕ) (rejected : Bool) (now : Time) : HostM Unit := do
  let entry ← Tx.read (fun h => h.detached.get? bgId)
  if entry.isSome = true then settleDetached config bgId rejected now
  else Tx.write (fun h =>
    { h with earlySettlements := h.earlySettlements.put ⟨bgId, rejected⟩ })

/-! ## The background registry -/

/-- Write to the record of one job. -/
def updateJob (id : ℕ) (f : BgJob → BgJob) (hf : ∀ j, (f j).id = j.id) : HostM Unit :=
  Tx.write (fun h => { h with jobs := h.jobs.update (fun j => decide (j.id = id)) f hf })

/-- `start`, of which the id and the process matter here. -/
def start (pid : Option ℕ) (now : Time) : HostM Unit :=
  Tx.write (fun h => { h with
    jobs := h.jobs.push (fun id => ⟨id, .job, pid, now, true, false, none, false⟩) (fun _ => rfl) })

def finishJob (id : ℕ) : HostM Unit :=
  updateJob id (fun j => { j with running := false }) (fun _ => rfl)

/-- `opts?.ttlMs ?? 30 * 60 * 1000`: the sandbox passes no time to live. -/
def futureTtl : ℕ := 30 * 60 * 1000

def registerFuture (now : Time) : HostM ℕ := do
  let id ← Tx.read (fun h => h.jobs.next)
  Tx.write (fun h => { h with
    jobs := h.jobs.push (fun id =>
      ⟨id, .future, none, now, true, false, some (now + futureTtl), false⟩) (fun _ => rfl) })
  pure id

def cancel (id : ℕ) (now : Time) : HostM Bool := do
  let job ← Tx.read (fun h => h.jobs.get? id)
  match job with
  | none => pure false
  | some j =>
      if j.kind = .job ∧ j.pid.isSome = true then do
        updateJob id (fun j => { j with running := false, cancelled := true }) (fun _ => rfl)
        pure true
      else if j.kind = .future then do
        updateJob id (fun j => { j with running := false, cancelled := true }) (fun _ => rfl)
        let _ ← Tx.attempt (futureTerminal config id now)
        pure true
      else pure true

/-- The futures `reapAbandoned` abandons. -/
def BgJob.expired (now : Time) (j : BgJob) : Bool :=
  decide (j.kind = .future) && j.running && !j.cancelled &&
    j.ttlAt.any (fun t => decide (t ≠ 0) && decide (t ≤ now))

/-- One turn of the loop of `reapAbandoned`. -/
def abandon (now : Time) (id : ℕ) : HostM Unit := do
  let job ← Tx.read (fun h => h.jobs.get? id)
  Tx.when (job.any (BgJob.expired now) = true) do
    updateJob id (fun j => { j with running := false, rejected := true }) (fun _ => rfl)
    let _ ← Tx.attempt (futureTerminal config id now)
    pure ()

/-- What the cap of twenty entries evicts: the oldest of those that do not run. -/
def evicted (jobs : AutoTable BgJob.id) : List ℕ :=
  let settled := (jobs.rows.filter (fun j => !j.running)).mergeSort
    (fun a b => decide (a.startedAt ≤ b.startedAt))
  (settled.take (jobs.rows.length - 20)).map BgJob.id

def reapAbandoned (now : Time) : HostM Unit := do
  let jobs ← Tx.read (fun h => h.jobs.rows)
  Tx.forEach (abandon config now) (jobs.map BgJob.id)
  Tx.write (fun h =>
    { h with jobs := h.jobs.delete (fun j => decide (j.id ∈ evicted h.jobs)) })

def settleFuture (id : ℕ) (rejected : Bool) (now : Time) : HostM Bool := do
  let job ← Tx.read (fun h => h.jobs.get? id)
  match job with
  | none => pure false
  | some j =>
      if j.cancelled = true then pure false
      else do
        updateJob id (fun j => { j with running := false, rejected := rejected }) (fun _ => rfl)
        reapAbandoned config now
        pure true

/-! ## Runs -/

/-- `context(alias, registration)`: the live context of the generation. -/
def context (sandbox : SandboxRegistration) : HostM Unit := do
  let existing ← Tx.read (fun h => h.contexts.get? sandbox.id)
  Tx.when (existing.map LiveContext.generation ≠ some sandbox.generation)
    (Tx.write (fun h =>
      { h with contexts := h.contexts.put ⟨sandbox.id, sandbox.generation⟩ }))

/-- The refusal of a run on a detached sandbox, with the future that holds it. -/
def detachedRefusal (h : Host) (mindId : MindId) : String :=
  let future := h.detached.rows.find? (fun d => decide (d.owner.sandbox = mindId))
  "sandbox manager: " ++ mindId ++ " is detached" ++
    (match future with
    | some d => " as bg future " ++ toString d.bgId
    | none => "")

/-- `getByMind`, or a new registration. -/
def registrationFor (mindId : MindId) (now : Time) : HostM SandboxRegistration := do
  let existing ← registry (getByMind mindId)
  match existing with
  | some row => pure row
  | none => registry (ensureForMind config.executorId mindId now)

/-- The refusal of a run whose sandbox is past its grace. -/
def refuseExpired (run : SandboxRun) (now : Time) : HostM Unit := do
  let deadline ← retirementDeadline config run.sandbox
  Tx.when (deadline.any (fun t => decide (t ≤ now)) = true) do
    endRun config ⟨run.sandbox.id, run.runId⟩ now
    Tx.throw ("sandbox manager: " ++ run.sandbox.id ++
      " retired after its closed Mind grace period")

/-- The notices a run takes with it. -/
def takeNotices (run : SandboxRun) (status : Option MindStatus) (now : Time) : HostM Unit := do
  Tx.when (run.sandbox.coldNoticePending = true) do
    let _ ← registry (consumeColdNotice run.sandbox.id)
    pure ()
  Tx.when (status = some .open ∧ run.sandbox.reminderLatched = false) do
    let _ ← registry (latchReminder run.sandbox.id now)
    pure ()

/-- `runPersistent` up to its `await`, for a selector that resolved to `mindId`. -/
def runPersistent (mindId : MindId) (now : Time) : HostM Unit := do
  let before ← registrationFor config mindId now
  let h ← Tx.read (fun h => h)
  Tx.ensure (before.lifecycle ≠ .detached) (detachedRefusal h mindId)
  let status ← Tx.read (fun h => (h.db.minds.get? before.id).map MindRow.status)
  let run ← registry (beginRun mindId now)
  refuseExpired config run now
  takeNotices run status now
  context run.sandbox
  Tx.write (fun h => { h with flights := h.flights ++ [⟨⟨mindId, run.runId⟩, none⟩] })

/-- `run` on a persistent sandbox. -/
def managerRun (mindId : MindId) (now : Time) : HostM Unit := do
  collectGarbage config now
  runPersistent config mindId now

/-- How a run that did not detach into a future ended. -/
inductive RunOutcome where
  | ok | preparse | context | runtime | threw | detachedWithoutFuture
deriving DecidableEq, Repr

def RunOutcome.resets : RunOutcome → Bool
  | .runtime | .threw | .detachedWithoutFuture => true
  | .ok | .preparse | .context => false

/-- `runPersistent` after its `await`, for a run that did not detach into a future. -/
def completeRun (owner : Owner) (outcome : RunOutcome) (now : Time) : HostM Unit :=
  if outcome.resets = true then resetRun config owner now else endRun config owner now

/-- The sandbox at the async deadline: the promise becomes a future, and the result of
the run names it. -/
def detachFlight (f : Flight) (now : Time) : HostM Unit := do
  let bgId ← registerFuture now
  Tx.write (fun h => { h with
    flights := h.flights.erase f ++ [⟨f.owner, some bgId⟩]
    handoffs := h.handoffs.put ⟨bgId, some f.owner, false⟩ })

/-- A run of an ephemeral sandbox at its deadline. -/
def detachEphemeral (now : Time) : HostM Unit := do
  let bgId ← registerFuture now
  Tx.write (fun h => { h with handoffs := h.handoffs.put ⟨bgId, none, false⟩ })

/-- `runPersistent` after its `await`, for a run that detached into a future. -/
def resumeDetached (owner : Owner) (bgId : ℕ) (now : Time) : HostM Unit := do
  let _ ← registry (detachRun owner.sandbox owner.runId now)
  Tx.write (fun h => { h with detached := h.detached.put ⟨bgId, owner⟩ })
  let early ← Tx.read (fun h => h.earlySettlements.get? bgId)
  match early with
  | none => pure ()
  | some settlement => do
      Tx.write (fun h => { h with
        earlySettlements := h.earlySettlements.delete (fun e => decide (e.bgId = bgId)) })
      settleDetached config bgId settlement.rejected now

/-- The callbacks on the promise of a future. Only the context of a persistent sandbox
reports to the manager. -/
def promiseSettled (x : Handoff) (rejected : Bool) (now : Time) : HostM Unit := do
  Tx.write (fun h => { h with handoffs := h.handoffs.put { x with settled := true } })
  let delivered ← settleFuture config x.bgId rejected now
  Tx.when (delivered = true ∧ x.owner.isSome = true) (futureSettled config x.bgId rejected now)

/-! ## Steps -/

/-- `loadRegistry`: the futures of the last process are lost, a job runs if its process
does. -/
def reloaded (alive : List ℕ) (j : BgJob) : BgJob :=
  match j.kind with
  | .job => { j with running := decide (j.id ∈ alive) }
  | .future => if j.running then { j with running := false, rejected := true } else j

theorem reloaded_id (alive : List ℕ) (j : BgJob) : (reloaded alive j).id = j.id := by
  unfold reloaded
  split
  · rfl
  · split
    · rfl
    · rfl

/-- A new process: the memory of the last one is gone, the constructor of the manager
makes every sandbox cold. -/
def restart (saved alive : List ℕ) (now : Time) : HostM Unit := do
  Tx.write (fun h => { h with
    jobs := (h.jobs.delete (fun j => !decide (j.id ∈ saved))).update (fun _ => true)
      (reloaded alive) (reloaded_id alive)
    contexts := Table.empty
    detached := Table.empty
    earlySettlements := Table.empty
    flights := []
    handoffs := h.handoffs.update (fun _ => true) (fun x => { x with settled := true })
      (fun _ => rfl) })
  let _ ← registry (coldResetAll now)
  pure ()

inductive HostEvent where
  | run (mindId : MindId) (now : Time)
  | complete (f : Flight) (outcome : RunOutcome) (now : Time)
  | detach (f : Flight) (now : Time)
  | resume (f : Flight) (now : Time)
  | detachEphemeral (now : Time)
  | settle (x : Handoff) (rejected : Bool) (now : Time)
  | cancel (id : ℕ) (now : Time)
  | reap (now : Time)
  | start (pid : Option ℕ) (now : Time)
  | exit (id : ℕ)
  | mindState (mindId : MindId) (status : MindStatus) (archived : Bool) (now : Time)
  | collectGarbage (now : Time)
  | mindWrites (minds : Table MindRow.id)
  | restart (saved alive : List ℕ) (now : Time)

/-- A call, whether it returns or throws. -/
def Host.exec {α : Type} (h : Host) (m : HostM α) : Host := (m h).2

/-- `mind_id REFERENCES mind_items(id) ON DELETE RESTRICT`. -/
def SandboxDb.references (sandboxes : Table SandboxRegistration.id) (minds : Table MindRow.id) :
    Bool :=
  sandboxes.rows.all (fun r => (minds.get? r.id).isSome)

def hostStep (h : Host) : HostEvent → Host
  | .run mindId now => h.exec (managerRun config mindId now)
  | .complete f outcome now =>
      if f ∈ h.flights ∧ f.future = none then
        { h with flights := h.flights.erase f }.exec (completeRun config f.owner outcome now)
      else h
  | .detach f now =>
      if f ∈ h.flights ∧ f.future = none then h.exec (detachFlight f now) else h
  | .resume f now =>
      match f.future with
      | none => h
      | some bgId =>
          if f ∈ h.flights then
            { h with flights := h.flights.erase f }.exec (resumeDetached config f.owner bgId now)
          else h
  | .detachEphemeral now => h.exec (detachEphemeral now)
  | .settle x rejected now =>
      if x ∈ h.handoffs.rows ∧ x.settled = false then
        h.exec (promiseSettled config x rejected now)
      else h
  | .cancel id now => h.exec (cancel config id now)
  | .reap now => h.exec (reapAbandoned config now)
  | .start pid now => h.exec (start pid now)
  | .exit id =>
      if (h.jobs.get? id).any (fun j => decide (j.kind = .job)) = true then h.exec (finishJob id)
      else h
  | .mindState mindId status archived now =>
      h.exec (handleMindStateChange config mindId status archived now)
  | .collectGarbage now => h.exec (collectGarbage config now)
  | .mindWrites minds =>
      if SandboxDb.references h.db.sandboxes minds = true then
        { h with db := { h.db with minds := minds } }
      else h
  | .restart saved alive now => h.exec (restart saved alive now)

end Elpis.Sandbox
