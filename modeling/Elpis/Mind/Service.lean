import Elpis.Agent.Polls
import Elpis.Mind.Quiet

/-!
# The Mind service

`MindService` of `src/store/mind.ts` with the scheduler under it. A reminder is a row of the Mind
store and a scheduled task, written by separate calls; the scheduler's wakes end both. Listeners
write neither.
-/

namespace Elpis.Mind

open Elpis.Lib Elpis.Agent Elpis.Agent.Tasks

structure Service where
  mind : MindDb
  tasks : Agent.Store

inductive ServiceError where
  | mind (error : MindError)
  | scheduler (message : String)
  | reminderTime
  | snoozeTime
  | inactive (reminderId : ℕ)
  | taskMissing (scheduledTaskId : ℕ)
deriving DecidableEq

def ServiceError.message : ServiceError → String
  | .mind error => error.message
  | .scheduler message => message
  | .reminderTime => "mind: reminder time must be a future epoch-ms"
  | .snoozeTime => "mind: reminder time must be in the future"
  | .inactive reminderId => "mind: reminder #" ++ toString reminderId ++ " is no longer active"
  | .taskMissing scheduledTaskId => "mind: scheduler task " ++ toString scheduledTaskId ++ " is missing"

abbrev ServiceM := Tx Service ServiceError

section Parts
variable {α : Type}

def setMind (s : Service) (mind : MindDb) : Service := ⟨mind, s.tasks⟩

def setTasks (s : Service) (tasks : Agent.Store) : Service := ⟨s.mind, tasks⟩

/-- `this.store`. -/
def inStore (m : MindM α) : ServiceM α := Tx.within Service.mind setMind (Tx.mapError ServiceError.mind m)

/-- `this.deps.scheduler`. -/
def inScheduler (m : TaskM α) : ServiceM α :=
  Tx.within Service.tasks setTasks (Tx.mapError ServiceError.scheduler m)

end Parts

/-! ## Reminders -/

/-- A finite time behind the clock. -/
def futureTime (fireAt : Js.Num) (present : Time) (error : ServiceError) : ServiceM ℚ :=
  match fireAt with
  | .finite q => do
      Tx.ensure ((present : ℚ) < q) error
      pure q
  | .nonFinite => Tx.throw error

/-- The task behind a reminder. A clock shows whole numbers, and reaches a time with the next of
them. -/
def reminderTask (item : MindRow) (fireAt : ℚ) (channelId : Option String) (suffix : String) : CreateTaskOpts where
  name := "mind-" ++ item.id ++ "-" ++ suffix
  kind := .custom
  channelId := channelId
  payload := .text ("[mind reminder #" ++ item.id ++ "] " ++ item.title ++ "\n\n" ++
    (if item.body = "" then "Open the item and decide the next true action." else item.body))
  nextRunAt := ⌈fireAt⌉
  intervalMs := none
  nagIntervalMs := none
  parentId := none

/-- What a call reads of the clock, and the random end of a task's name. -/
structure Reading where
  present : Time
  suffix : String
  clock : Readings

/-- `addReminder`. A task whose record is refused goes again. -/
def Service.addReminder (itemId : MindId) (fireAt : Js.Num) (actor : String) (channelId : Option String) (r : Reading) :
    ServiceM (Option ReminderRow) := do
  let item ← inStore (requireItem itemId)
  Tx.ensure (item.status ≠ .proposal) (.mind .proposalReminder)
  let at_ ← futureTime fireAt r.present .reminderTime
  let task ← inScheduler (Tasks.create (reminderTask item at_ channelId r.suffix))
  let record ← Tx.attempt (inStore (createReminderRecord itemId task.id at_ channelId actor r.clock))
  match record with
  | .ok row => pure row
  | .error error => do
      let _ ← inScheduler (Tasks.delete task.id)
      Tx.throw error

/-- The patch of a snooze. -/
def snoozePatch (fireAt : ℚ) : Patch := ⟨none, some ⌈fireAt⌉, none, none, some none⟩

def Service.snoozeReminder (reminderId : ℕ) (fireAt : Js.Num) (actor : String) (r : Reading) :
    ServiceM (Option ReminderRow) := do
  let at_ ← futureTime fireAt r.present .snoozeTime
  let found ← Tx.read (fun s => s.mind.reminders.get? reminderId)
  let row ← Tx.require found (.mind (.noReminder reminderId))
  Tx.ensure (row.pending = true) (.inactive reminderId)
  let updated ← inScheduler (Tasks.update row.scheduledTaskId (snoozePatch at_))
  Tx.ensure (updated.isSome = true) (.taskMissing row.scheduledTaskId)
  inStore (updateReminderRecord reminderId at_ actor r.clock)

def Service.cancelReminder (reminderId : ℕ) (actor : String) (clock : Readings) : ServiceM (Option ReminderRow) := do
  let found ← Tx.read (fun s => s.mind.reminders.get? reminderId)
  match found with
  | none => pure none
  | some row => do
      let _ ← inScheduler (Tasks.delete row.scheduledTaskId)
      inStore (cancelReminderRecord reminderId actor clock)

def MindDb.pendingReminders (db : MindDb) (itemId : MindId) : List ReminderRow :=
  orderBy (fun a b => decide (a.fireAt ≤ b.fireAt))
    (db.reminders.select (fun r => decide (r.itemId = itemId) && r.pending))

def Service.cancelPendingReminders (itemId : MindId) (actor : String) (clock : Readings) : ServiceM Unit := do
  let pending ← Tx.read (fun s => s.mind.pendingReminders itemId)
  Tx.forEach (fun row : ReminderRow => do
    let _ ← Service.cancelReminder row.id actor clock
    pure ()) pending

/-! ## Items -/

def Service.create (u : Js.Unicode) (opts : CreateMindItem) (draws : List ℕ) (remindAt : Option Js.Num)
    (reminderChannelId : Option String) (r : Reading) : ServiceM (Option MindDetail) := do
  let item ← inStore (Mind.create u opts draws r.clock)
  let id := (item.map (fun d => d.row.id)).getD ""
  let _ ← Tx.onSome remindAt (fun fireAt =>
    Service.addReminder id fireAt (opts.actor.getD "agent") reminderChannelId r)
  Tx.read (fun s => s.mind.get r.clock.reading id)

/-- The reminders of an item that an update leaves closed go. -/
def Service.cancelIfClosed (item : Option MindDetail) (id : MindId) (actor : String) (clock : Readings) : ServiceM Unit :=
  Tx.when ((item.any (fun d => d.row.status.closed)) = true) (Service.cancelPendingReminders id actor clock)

def Service.update (u : Js.Unicode) (id : MindId) (patch : UpdateMindItem) (actor : String) (clock : Readings) :
    ServiceM (Option MindDetail) := do
  let item ← inStore (Mind.update u id patch actor clock)
  Service.cancelIfClosed item id actor clock
  Tx.read (fun s => s.mind.get clock.reading id)

def Service.finishClaim (id : MindId) (principal owner result verification omissions : String) (clock : Readings) :
    ServiceM (Option MindDetail) := do
  let _ ← inStore (Mind.finishClaim id principal owner result verification omissions clock)
  Service.cancelPendingReminders id owner clock
  Tx.read (fun s => s.mind.get clock.reading id)

/-! ## Wakes -/

/-- A task that is due is dispatched: the reminder behind it has fired, the callback may throw
behind that, and the scheduler settles the task or sets it to be tried again. -/
def Service.wake (id : ℕ) (now : ℤ) (fails : Option String) (named caught : ℤ) (clock : Readings) : ServiceM Unit := do
  let due ← Tx.read (fun s => (s.tasks.getById id).filter (fun t => t.isDue now))
  match due with
  | none => pure ()
  | some task => do
      inStore (markReminderFiredByTask task.id clock)
      let settled ← Tx.attempt (inScheduler (handleRest task now ⟨[], fails, named, caught⟩))
      match settled with
      | .ok _ => pure ()
      | .error _ => Tx.write (fun s => setTasks s (retry task.id caught s.tasks))

/-! ## Calls -/

inductive ServiceCall where
  | create (opts : CreateMindItem) (draws : List ℕ) (remindAt : Option Js.Num) (reminderChannelId : Option String)
      (r : Reading)
  | update (id : MindId) (patch : UpdateMindItem) (actor : String) (clock : Readings)
  | finishClaim (id : MindId) (principal owner result verification omissions : String) (clock : Readings)
  | passed (call : MindCall) (h : call.passed = true)
  | addReminder (itemId : MindId) (fireAt : Js.Num) (actor : String) (channelId : Option String) (r : Reading)
  | snoozeReminder (reminderId : ℕ) (fireAt : Js.Num) (actor : String) (r : Reading)
  | cancelReminder (reminderId : ℕ) (actor : String) (clock : Readings)
  | wake (id : ℕ) (now : ℤ) (fails : Option String) (named caught : ℤ) (clock : Readings)

def ServiceCall.exec (u : Js.Unicode) : ServiceCall → Service → Service
  | .create opts draws remindAt reminderChannelId r, s => (Service.create u opts draws remindAt reminderChannelId r s).2
  | .update id patch actor clock, s => (Service.update u id patch actor clock s).2
  | .finishClaim id principal owner result verification omissions clock, s =>
      (Service.finishClaim id principal owner result verification omissions clock s).2
  | .passed call _, s => (inStore (call.exec u) s).2
  | .addReminder itemId fireAt actor channelId r, s => (Service.addReminder itemId fireAt actor channelId r s).2
  | .snoozeReminder reminderId fireAt actor r, s => (Service.snoozeReminder reminderId fireAt actor r s).2
  | .cancelReminder reminderId actor clock, s => (Service.cancelReminder reminderId actor clock s).2
  | .wake id now fails named caught clock, s => (Service.wake id now fails named caught clock s).2

def Service.step (u : Js.Unicode) (s : Service) (call : ServiceCall) : Service := call.exec u s

/-- No items yet, over whatever the scheduler has. -/
def Service.fresh (tasks : Agent.Store) : Service := ⟨MindDb.empty, tasks⟩

end Elpis.Mind
