import Elpis.Lib.Crash
import Elpis.Lib.Run
import Elpis.Lib.Table
import Elpis.Llm.Message

/-!
# The scheduler and the run wake

`src/store/scheduler.ts` and the wake half of `src/agent.ts`. A task is a row of
`scheduled_tasks`. A wake the resident asked for is a row under a reserved name, whose
payload says how far it got; the agent keeps the armed one in memory as well. Each SQL
statement is a durable write of its own, and so is each message the drain appends to
the transcript; the process can die between any two of them.
-/

namespace Elpis.Agent

open Elpis.Lib

export Elpis.Llm (WakeKind)

/-! ## Rows -/

inductive TaskKind where
  | reminder | reminderNag | heartbeat | custom
deriving DecidableEq, Repr

inductive RunWakeState where
  | armed | preempted | fired
deriving DecidableEq, Repr

inductive AdviceSource where
  | classifier | fallback
deriving DecidableEq, Repr

structure WakeAdvice where
  source : AdviceSource
  delayMs : ℕ
  reason : String
deriving DecidableEq, Repr

structure DurableRunWakePayload where
  kind : WakeKind
  state : RunWakeState
  requestedAt : ℤ
  targetAt : ℤ
  advice : Option WakeAdvice
deriving DecidableEq, Repr

/-- A payload as `parseRunWakePayload` reads it: an encoded wake, or any other text. -/
inductive TaskPayload where
  | wake (payload : DurableRunWakePayload)
  | text (text : String)
deriving DecidableEq, Repr

structure ScheduledTask where
  id : ℕ
  name : String
  kind : TaskKind
  channelId : Option String
  payload : TaskPayload
  nextRunAt : ℤ
  intervalMs : Option ℤ
  nagIntervalMs : Option ℤ
  parentId : Option ℕ
  nagCount : ℕ
  snoozeUntil : Option ℤ
  doneAt : Option ℤ
deriving DecidableEq, Repr

structure CreateTaskOpts where
  name : String
  kind : TaskKind
  channelId : Option String
  payload : TaskPayload
  nextRunAt : ℤ
  intervalMs : Option ℤ
  nagIntervalMs : Option ℤ
  parentId : Option ℕ
deriving DecidableEq, Repr

/-- The row `create` inserts. -/
def CreateTaskOpts.row (opts : CreateTaskOpts) (id : ℕ) : ScheduledTask where
  id := id
  name := opts.name
  kind := opts.kind
  channelId := opts.channelId
  payload := opts.payload
  nextRunAt := opts.nextRunAt
  intervalMs := opts.intervalMs
  nagIntervalMs := opts.nagIntervalMs
  parentId := opts.parentId
  nagCount := 0
  snoozeUntil := none
  doneAt := none

theorem CreateTaskOpts.row_id (opts : CreateTaskOpts) (n : ℕ) : (opts.row n).id = n := rfl

def RUN_WAKE_TASK_PREFIX : String := "__elpis_run_v4_wake__"

def isRunWakeTaskName (name : String) : Bool :=
  RUN_WAKE_TASK_PREFIX.toList.isPrefixOf name.toList

/-! ## State -/

/-- A queued message, and one of the history: a wake of a task, or anything else, which
is ambient or wakes the loop. -/
inductive Message where
  | wake (taskId : ℕ) (firedAt : ℤ)
  | other (ambient : Bool) (channelName : String)
deriving DecidableEq, Repr

structure Store where
  tasks : AutoTable ScheduledTask.id
  history : List Message
deriving DecidableEq

structure PendingRunWake where
  taskId : ℕ
  payload : DurableRunWakePayload
deriving DecidableEq, Repr

structure Memory where
  pendingRunWake : Option PendingRunWake
  inbound : List Message
deriving DecidableEq, Repr

abbrev AgentM := Crash Store Memory String

def Store.empty : Store := ⟨AutoTable.empty, []⟩

def Memory.fresh : Memory := ⟨none, []⟩

def Store.getById (d : Store) (id : ℕ) : Option ScheduledTask := d.tasks.get? id

def orderByNextRun (ts : List ScheduledTask) : List ScheduledTask :=
  ts.mergeSort (fun a b => decide (a.nextRunAt ≤ b.nextRunAt))

def Store.list (d : Store) : List ScheduledTask := orderByNextRun d.tasks.rows

def ScheduledTask.isDue (t : ScheduledTask) (now : ℤ) : Bool :=
  t.doneAt.isNone && decide (t.nextRunAt ≤ now) && t.snoozeUntil.all (fun u => decide (u ≤ now))

def Store.listDue (d : Store) (now : ℤ) : List ScheduledTask :=
  orderByNextRun (d.tasks.rows.filter (·.isDue now))

/-! ## Statements -/

/-- `UPDATE scheduled_tasks SET … WHERE id = ?`. -/
def Store.set (d : Store) (id : ℕ) (f : ScheduledTask → ScheduledTask)
    (hf : ∀ t, (f t).id = t.id) : Store :=
  { d with tasks := d.tasks.update (fun t => decide (t.id = id)) f hf }

def Store.setPayload (d : Store) (id : ℕ) (payload : TaskPayload) : Store :=
  d.set id (fun t => { t with payload }) (fun _ => rfl)

def Store.setDone (d : Store) (id : ℕ) (at_ : ℤ) : Store :=
  d.set id (fun t => { t with doneAt := some at_ }) (fun _ => rfl)

def Store.setNextRun (d : Store) (id : ℕ) (nextRunAt : ℤ) : Store :=
  d.set id (fun t => { t with nextRunAt }) (fun _ => rfl)

def Store.bumpNagCount (d : Store) (id : ℕ) : Store :=
  d.set id (fun t => { t with nagCount := t.nagCount + 1 }) (fun _ => rfl)

def Store.insert (d : Store) (opts : CreateTaskOpts) : Store :=
  { d with tasks := d.tasks.push opts.row opts.row_id }

/-- `create`. The name column is unique. -/
def create (opts : CreateTaskOpts) : AgentM ℕ := do
  let taken ← Crash.read (fun d _ => d.tasks.rows.any (fun t => t.name == opts.name))
  if taken = true then
    Crash.throw "UNIQUE constraint failed: scheduled_tasks.name"
  else
    let id ← Crash.read (fun d _ => d.tasks.next)
    Crash.write (·.insert opts)
    pure id

/-- `update`, of the payload. A task that is done is not updated. -/
def updatePayload (id : ℕ) (payload : TaskPayload) : AgentM Unit := do
  let current ← Crash.read (fun d _ => d.getById id)
  match current with
  | none => pure ()
  | some t =>
      if t.doneAt.isSome = true then
        Crash.throw ("scheduled task " ++ toString id ++
          " is done; remove it and create a new task instead of updating it")
      else Crash.write (·.setPayload id payload)

def markDone (id : ℕ) (at_ : ℤ) : AgentM Unit := Crash.write (·.setDone id at_)

def wakeKindText : WakeKind → String
  | .after => "after"
  | .at => "at"
  | .auto => "auto"

def RunWakeState.text : RunWakeState → String
  | .armed => "armed"
  | .preempted => "preempted"
  | .fired => "fired"

def AdviceSource.text : AdviceSource → String
  | .classifier => "classifier"
  | .fallback => "fallback"

def encodeRunWakePayload (p : DurableRunWakePayload) : String :=
  let advice := match p.advice with
    | none => ""
    | some a => ",\"advice\":\x7b\"source\":" ++ Js.stringify a.source.text ++
        ",\"delayMs\":" ++ toString a.delayMs ++ ",\"reason\":" ++ Js.stringify a.reason ++ "\x7d"
  "\x7b\"type\":\"elpis-run-v4-wake\",\"kind\":" ++ Js.stringify (wakeKindText p.kind) ++
    ",\"state\":" ++ Js.stringify p.state.text ++
    ",\"requestedAt\":" ++ toString p.requestedAt ++
    ",\"targetAt\":" ++ toString p.targetAt ++ advice ++ "\x7d"

/-- The text of a payload, which a nag repeats. -/
def payloadText : TaskPayload → String
  | .wake p => encodeRunWakePayload p
  | .text text => text

def spawnNag (parent : ScheduledTask) (at_ late : ℤ) : AgentM Unit := do
  let _ ← create
    { name := parent.name ++ "-nag-" ++ toString late
      kind := .reminderNag
      channelId := parent.channelId
      payload := .text (payloadText parent.payload ++ "\n\n(nag #" ++
        toString (parent.nagCount + 1) ++ ")")
      nextRunAt := at_
      intervalMs := none
      nagIntervalMs := parent.nagIntervalMs
      parentId := some parent.id }
  pure ()

/-! ## The agent's wake -/

/-- `hasPendingWake`: something queued wakes the loop by itself. -/
def Memory.hasPendingWake (m : Memory) : Bool :=
  m.inbound.any (fun
    | .other ambient _ => !ambient
    | .wake _ _ => true)

def preemptRunWake (now : ℤ) : AgentM Unit := do
  let pending ← Crash.read (fun _ m => m.pendingRunWake)
  match pending with
  | none => pure ()
  | some pending =>
      updatePayload pending.taskId (.wake { pending.payload with state := .preempted })
      markDone pending.taskId now
      Crash.modify (fun m => { m with pendingRunWake := none })

/-- `enqueue`: the queue first, then the wake it makes redundant. -/
def enqueue (message : Message) (now : ℤ) : AgentM Unit := do
  Crash.modify (fun m => { m with inbound := m.inbound ++ [message] })
  match message with
  | .other true _ => pure ()
  | _ => preemptRunWake now

/-- `RunWakeMetadata` of a run that asked for a wake, with its target resolved. -/
structure WakeRequest where
  kind : WakeKind
  requestedAt : ℤ
  targetAt : ℤ
  advice : Option WakeAdvice
deriving DecidableEq, Repr

def WakeRequest.payload (r : WakeRequest) : DurableRunWakePayload :=
  ⟨r.kind, .armed, r.requestedAt, r.targetAt, r.advice⟩

def WakeRequest.task (r : WakeRequest) (suffix : String) : CreateTaskOpts where
  name := RUN_WAKE_TASK_PREFIX ++ "-" ++ toString r.requestedAt ++ "-" ++ suffix
  kind := .custom
  channelId := some "internal"
  payload := .wake r.payload
  nextRunAt := r.targetAt
  intervalMs := none
  nagIntervalMs := none
  parentId := none

/-- `armRunWake`. `suffix` is the random end of the name. -/
def armRunWake (request : WakeRequest) (suffix : String) (now : ℤ) : AgentM Bool := do
  let queued ← Crash.read (fun _ m => m.hasPendingWake)
  if queued = true then pure false
  else
    preemptRunWake now
    let created ← Crash.attempt (create (request.task suffix))
    match created with
    | .error _ => pure false
    | .ok id =>
        Crash.modify (fun m => { m with pendingRunWake := some ⟨id, request.payload⟩ })
        pure true

/-- The part of `notifyRunWake` that fires the armed task. -/
def fireRunWake (id : ℕ) (payload : DurableRunWakePayload) (late : ℤ) : AgentM Unit := do
  updatePayload id (.wake { payload with state := .fired })
  Crash.modify (fun m => { m with pendingRunWake := none })
  enqueue (.wake id late) late

/-- `notifyRunWake`: whether the task is one of the agent's own. -/
def notifyRunWake (task : ScheduledTask) (late : ℤ) : AgentM Bool := do
  if isRunWakeTaskName task.name = false then pure false
  else
    let current ← Crash.read (fun d _ => d.getById task.id)
    match current.filter (fun t => t.isDue late) with
    | none => pure true
    | some t =>
        match t.payload with
        | .text _ => pure true
        | .wake payload =>
            let pending ← Crash.read (fun _ m => m.pendingRunWake)
            if payload.state ≠ .armed ∨ (pending.any (fun p => decide (p.taskId ≠ t.id))) = true
            then pure true
            else
              fireRunWake t.id payload late
              pure true

/-- The callback `onTaskWake`. `fails` is a task whose other listener throws. -/
def onTaskWake (task : ScheduledTask) (late : ℤ) (fails : Bool) : AgentM Unit := do
  let own ← notifyRunWake task late
  if own = true then pure ()
  else if fails = true then Crash.throw "listener failed"
  else enqueue (.other false "scheduler") late

/-! ## Polling -/

/-- What `handleDue` does to a due row once its callback has run. -/
def settleDue (task : ScheduledTask) (now late : ℤ) : AgentM Unit :=
  match task.kind with
  | .reminder => do
      Crash.write (·.setNextRun task.id (max now (task.nextRunAt + task.intervalMs.getD 0)))
      Crash.write (·.bumpNagCount task.id)
      match task.nagIntervalMs with
      | some n => if 0 < n then spawnNag task (now + n) late else pure ()
      | none => pure ()
  | .reminderNag => do
      let parent ← Crash.read (fun d _ =>
        task.parentId.bind (fun p => if p = 0 then none else d.getById p))
      markDone task.id now
      match parent, task.nagIntervalMs with
      | some parent, some n =>
          if parent.doneAt.isNone ∧ 0 < n then do
            spawnNag parent (now + n) late
            Crash.write (·.bumpNagCount parent.id)
          else pure ()
      | _, _ => pure ()
  | _ =>
      match task.intervalMs with
      | some n =>
          if 0 < n then Crash.write (·.setNextRun task.id (max now (task.nextRunAt + n)))
          else markDone task.id now
      | none => markDone task.id now

/-- `handleDue`. The callback may have changed the row itself. -/
def handleDue (task : ScheduledTask) (now late : ℤ) (fails : Bool) : AgentM Unit := do
  onTaskWake task late fails
  let current ← Crash.read (fun d _ => (d.getById task.id).filter (fun t =>
    t.doneAt.isNone && t.nextRunAt == task.nextRunAt && t.snoozeUntil == task.snoozeUntil &&
      t.intervalMs == task.intervalMs))
  match current with
  | none => pure ()
  | some _ => settleDue task now late

/-- The body of `poll`'s loop. A dispatch that fails is tried again in a minute. -/
def dispatch (now late : ℤ) (failing : List ℕ) (snapshot : ScheduledTask) : AgentM Unit := do
  let current ← Crash.read (fun d _ => (d.getById snapshot.id).filter (·.isDue now))
  match current with
  | none => pure ()
  | some task =>
      let result ← Crash.attempt (handleDue task now late (decide (task.id ∈ failing)))
      match result with
      | .ok _ => pure ()
      | .error _ =>
          let again ← Crash.read (fun d _ => (d.getById task.id).filter (·.doneAt.isNone))
          match again with
          | none => pure ()
          | some t => Crash.write (·.setNextRun task.id (max t.nextRunAt (late + 60000)))

/-- `poll`. The clock reads `now` when it begins and `late` in the callbacks; the tasks
in `failing` are those whose listener throws. What the dispatches threw is thrown again
at the end, when nothing is left to do. -/
def poll (now late : ℤ) (failing : List ℕ) : AgentM Unit := do
  let due ← Crash.read (fun d _ => d.listDue now)
  Crash.forEach (dispatch now late failing) due

/-! ## Draining and starting -/

/-- One round of the drain loop. The message leaves the queue and enters the history;
no durable write stands between the two, so it counts as queued until it is written. -/
def drain : AgentM Unit := do
  let queue ← Crash.read (fun _ m => m.inbound)
  match queue with
  | [] => pure ()
  | message :: rest =>
      Crash.write (fun d => { d with history := d.history ++ [message] })
      Crash.modify (fun m => { m with inbound := rest })

/-- The unfinished tasks under the reserved name. -/
def Store.reserved (d : Store) : List ScheduledTask :=
  d.list.filter (fun t => t.doneAt.isNone && isRunWakeTaskName t.name)

def armedPayload (t : ScheduledTask) : Option DurableRunWakePayload :=
  match t.payload with
  | .wake p => if p.state = .armed then some p else none
  | .text _ => none

/-- The armed ones among them, the newest first. -/
def armedNewestFirst (reserved : List ScheduledTask) :
    List (ScheduledTask × DurableRunWakePayload) :=
  (reserved.filterMap (fun t => (armedPayload t).map (fun p => (t, p)))).mergeSort
    (fun a b => decide (b.1.id ≤ a.1.id))

/-- `recoverRunWake`: of several armed tasks the newest stays. -/
def recoverRunWake (now : ℤ) : AgentM Unit := do
  let reserved ← Crash.read (fun d _ => d.reserved)
  Crash.forEach (fun t => markDone t.id now)
    (reserved.filter (fun t => (armedPayload t).isNone))
  match armedNewestFirst reserved with
  | [] => pure ()
  | current :: stale => do
      Crash.forEach (fun e => do
        updatePayload e.1.id (.wake { e.2 with state := .preempted })
        markDone e.1.id now) stale
      Crash.modify (fun m => { m with pendingRunWake := some ⟨current.1.id, current.2⟩ })

end Elpis.Agent
