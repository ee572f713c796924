import Elpis.Agent.Wakes
import Elpis.Lib.Tx

/-!
# The operations on scheduled tasks

The public methods of `src/store/scheduler.ts`, each as the statements that it runs. Two things
hold of all of them: a number is given to one task only, and a task that has been deleted or
completed stays so.
-/

namespace Elpis.Agent.Tasks

open Elpis.Lib

abbrev TaskM := Tx Store String

/-! ## Statements -/

def deleteTask (d : Store) (id : ℕ) : Store :=
  { d with tasks := d.tasks.delete (fun t => decide (t.id = id)) }

def setSnooze (d : Store) (id : ℕ) (until_ : ℤ) : Store :=
  d.set id (fun t => { t with snoozeUntil := some until_ }) (fun _ => rfl)

def getByName (d : Store) (name : String) : Option ScheduledTask := d.tasks.rows.find? (·.name == name)

def listByParent (d : Store) (parentId : ℕ) : List ScheduledTask :=
  d.tasks.rows.filter (fun t => t.parentId == some parentId)

/-! ## Methods -/

/-- `create`. The name column is unique. -/
def create (opts : CreateTaskOpts) : TaskM ScheduledTask := do
  let taken ← Tx.read (fun d => d.tasks.rows.any (fun t => t.name == opts.name))
  Tx.ensure (taken = false) "UNIQUE constraint failed: scheduled_tasks.name"
  let id ← Tx.read (fun d => d.tasks.next)
  Tx.write (·.insert opts)
  pure (opts.row id)

def markDone (id : ℕ) (at_ : ℤ) : TaskM Unit := Tx.write (·.setDone id at_)

def snooze (id : ℕ) (until_ : ℤ) : TaskM Unit := Tx.write (fun d => setSnooze d id until_)

def updateNextRun (id : ℕ) (nextRunAt : ℤ) : TaskM Unit := Tx.write (·.setNextRun id nextRunAt)

def incrementNagCount (id : ℕ) : TaskM Unit := Tx.write (·.bumpNagCount id)

def delete (id : ℕ) : TaskM Bool := do
  let found ← Tx.read (fun d => (d.getById id).isSome)
  Tx.write (fun d => deleteTask d id)
  pure found

/-- The open tasks below a parent, each. -/
def eachChild (parentId : ℕ) (body : ℕ → TaskM Unit) : TaskM Unit := do
  let children ← Tx.read (fun d => listByParent d parentId)
  Tx.forEach (fun child : ScheduledTask => Tx.when (child.doneAt = none) (body child.id)) children

/-- A patch of `update`: what it leaves out is `none`. -/
structure Patch where
  payload : Option TaskPayload
  nextRunAt : Option ℤ
  intervalMs : Option (Option ℤ)
  nagIntervalMs : Option (Option ℤ)
  snoozeUntil : Option (Option ℤ)
deriving DecidableEq, Repr

def Patch.empty : Patch := ⟨none, none, none, none, none⟩

/-- The row behind `UPDATE … SET` of the given columns. -/
def Patch.apply (patch : Patch) (t : ScheduledTask) : ScheduledTask :=
  { t with
    payload := patch.payload.getD t.payload
    nextRunAt := patch.nextRunAt.getD t.nextRunAt
    intervalMs := patch.intervalMs.getD t.intervalMs
    nagIntervalMs := patch.nagIntervalMs.getD t.nagIntervalMs
    snoozeUntil := patch.snoozeUntil.getD t.snoozeUntil }

theorem Patch.apply_id (patch : Patch) (t : ScheduledTask) : (patch.apply t).id = t.id := rfl

/-- A snooze goes to the nags below the task as well. -/
def cascade (id : ℕ) (snoozeUntil : Option (Option ℤ)) : TaskM Unit :=
  match snoozeUntil.join with
  | some until_ => eachChild id (fun child => snooze child until_)
  | none => pure ()

def update (id : ℕ) (patch : Patch) : TaskM (Option ScheduledTask) := do
  let current ← Tx.read (·.getById id)
  match current with
  | none => pure none
  | some current =>
      if patch = Patch.empty then pure (some current)
      else do
        Tx.ensure (current.doneAt = none) ("scheduled task " ++ toString id ++
          " is done; remove it and create a new task instead of updating it")
        cascade id patch.snoozeUntil
        Tx.write (fun d => d.set id patch.apply patch.apply_id)
        Tx.read (·.getById id)

/-- The first slot behind `at_`: `while (next <= at) next += intervalMs`. -/
def slotBehind (next intervalMs at_ : ℤ) : ℤ :=
  if next ≤ at_ then next + intervalMs * ((at_ - next) / intervalMs + 1) else next

/-- `markDoneByName`. A recurring task goes on to its next slot. -/
def markDoneByName (name : String) (at_ : ℤ) : TaskM Bool := do
  let found ← Tx.read (fun d => getByName d name)
  match found with
  | none => pure false
  | some task => do
      match task.intervalMs.filter (fun n => decide (0 < n) && task.doneAt.isNone) with
      | some n => updateNextRun task.id (slotBehind task.nextRunAt n at_)
      | none => markDone task.id at_
      eachChild task.id (fun child => markDone child at_)
      pure true

def snoozeByName (name : String) (until_ : ℤ) : TaskM Bool := do
  let found ← Tx.read (fun d => getByName d name)
  match found with
  | none => pure false
  | some task => do
      snooze task.id until_
      eachChild task.id (fun child => snooze child until_)
      pure true

/-- `spawnNag`. `late` is the clock that its name shows. -/
def spawnNag (parent : ScheduledTask) (at_ late : ℤ) : TaskM Unit := do
  let _ ← create
    { name := parent.name ++ "-nag-" ++ toString late
      kind := .reminderNag
      channelId := parent.channelId
      payload := .text (payloadText parent.payload ++ "\n\n(nag #" ++
        toString (parent.nagCount + 1) ++ ")")
      nextRunAt := at_
      intervalMs := none
      nagIntervalMs := parent.nagIntervalMs
      parentId := some parent.id }
  pure ()

/-- What anyone but the scheduler itself may call. -/
inductive Op where
  | create (opts : CreateTaskOpts)
  | update (id : ℕ) (patch : Patch)
  | delete (id : ℕ)
  | markDone (id : ℕ) (at_ : ℤ)
  | markDoneByName (name : String) (at_ : ℤ)
  | snooze (id : ℕ) (until_ : ℤ)
  | snoozeByName (name : String) (until_ : ℤ)
deriving DecidableEq

/-- The call, with its error caught. -/
def Op.run : Op → Store → Store
  | .create opts, d => (Tasks.create opts d).2
  | .update id patch, d => (Tasks.update id patch d).2
  | .delete id, d => (Tasks.delete id d).2
  | .markDone id at_, d => (Tasks.markDone id at_ d).2
  | .markDoneByName name at_, d => (Tasks.markDoneByName name at_ d).2
  | .snooze id until_, d => (Tasks.snooze id until_ d).2
  | .snoozeByName name until_, d => (Tasks.snoozeByName name until_ d).2

/-! ## Rows after a write -/

theorem getById_delete (d : Store) (id j : ℕ) :
    (deleteTask d id).getById j = if j = id then none else d.getById j := by
  show (d.tasks.toTable.delete _).get? j = _
  rw [Table.get?_delete]
  show (d.getById j).filter _ = _
  cases hj : d.getById j with
  | none => simp
  | some t =>
      have hid : t.id = j := Table.key_of_get? hj
      by_cases heq : j = id
      · simp [hid, heq]
      · simp [hid, heq]

theorem id_le_seq {d : Store} {id : ℕ} {t : ScheduledTask} (h : d.getById id = some t) : id ≤ d.tasks.seq := by
  have hrow := Table.get?_eq_some.mp h
  exact hrow.2 ▸ d.tasks.le_seq t hrow.1

/-! ## What ends stays ended -/

/-- No open task has the number. -/
def Ended (d : Store) (id : ℕ) : Prop := ∀ t, d.getById id = some t → t.doneAt ≠ none

/-- Numbers grow, and of those given no task opens again. -/
structure Grows (d d' : Store) : Prop where
  seq : d.tasks.seq ≤ d'.tasks.seq
  ended : ∀ id ≤ d.tasks.seq, Ended d id → Ended d' id

theorem Grows.refl (d : Store) : Grows d d := ⟨le_rfl, fun _ _ h => h⟩

theorem Grows.trans {d d' d'' : Store} (h : Grows d d') (h' : Grows d' d'') : Grows d d'' :=
  ⟨h.seq.trans h'.seq, fun id hid hend => h'.ended id (hid.trans h.seq) (h.ended id hid hend)⟩

instance : IsPreorder Store Grows where
  refl := Grows.refl
  trans _ _ _ := Grows.trans

theorem Grows.set (d : Store) (id : ℕ) {f : ScheduledTask → ScheduledTask} (hf : ∀ t, (f t).id = t.id)
    (hdone : ∀ t, t.doneAt ≠ none → (f t).doneAt ≠ none) : Grows d (d.set id f hf) := by
  refine ⟨le_rfl, ?_⟩
  intro j _ hend t ht
  rw [getById_set] at ht
  by_cases heq : j = id
  · rw [if_pos heq] at ht
    obtain ⟨r, hr, rfl⟩ := Option.map_eq_some_iff.mp ht
    exact hdone r (hend r (heq ▸ hr))
  · rw [if_neg heq] at ht
    exact hend t ht

theorem Grows.insert (d : Store) (opts : CreateTaskOpts) : Grows d (d.insert opts) := by
  refine ⟨Nat.le_succ _, ?_⟩
  intro j hj hend t ht
  have hne : j ≠ d.tasks.next := (Nat.lt_succ_of_le hj).ne
  rw [getById_insert, if_neg hne] at ht
  exact hend t ht

theorem Grows.deleteTask (d : Store) (id : ℕ) : Grows d (deleteTask d id) := by
  refine ⟨le_rfl, ?_⟩
  intro j _ hend t ht
  rw [getById_delete] at ht
  by_cases heq : j = id
  · rw [if_pos heq] at ht
    cases ht
  · rw [if_neg heq] at ht
    exact hend t ht

section Growth

theorem grows_create (opts : CreateTaskOpts) : Tx.Along Grows (create opts) :=
  (Tx.Along.read _).bind (fun _ => (Tx.Along.ensure _ _).bind (fun _ => (Tx.Along.read _).bind (fun _ =>
    (Tx.Along.write (fun d => Grows.insert d opts)).bind (fun _ => Tx.Along.pure _))))

theorem grows_markDone (id : ℕ) (at_ : ℤ) : Tx.Along Grows (markDone id at_) :=
  Tx.Along.write (fun d => Grows.set d id _ (fun _ _ => Option.some_ne_none _))

theorem grows_snooze (id : ℕ) (until_ : ℤ) : Tx.Along Grows (snooze id until_) :=
  Tx.Along.write (fun d => Grows.set d id _ (fun _ h => h))

theorem grows_updateNextRun (id : ℕ) (nextRunAt : ℤ) : Tx.Along Grows (updateNextRun id nextRunAt) :=
  Tx.Along.write (fun d => Grows.set d id _ (fun _ h => h))

theorem grows_delete (id : ℕ) : Tx.Along Grows (delete id) :=
  (Tx.Along.read _).bind (fun _ => (Tx.Along.write (fun d => Grows.deleteTask d id)).bind (fun _ =>
    Tx.Along.pure _))

theorem grows_eachChild {parentId : ℕ} {body : ℕ → TaskM Unit} (h : ∀ id, Tx.Along Grows (body id)) :
    Tx.Along Grows (eachChild parentId body) :=
  (Tx.Along.read _).bind (fun children =>
    Tx.Along.forEach (fun child : ScheduledTask => Tx.Along.when (h child.id)) children)

theorem grows_cascade (id : ℕ) (snoozeUntil : Option (Option ℤ)) : Tx.Along Grows (cascade id snoozeUntil) := by
  unfold cascade
  cases snoozeUntil.join with
  | none => exact Tx.Along.pure _
  | some until_ => exact grows_eachChild (fun child => grows_snooze child until_)

theorem grows_update (id : ℕ) (patch : Patch) : Tx.Along Grows (update id patch) := by
  refine (Tx.Along.read _).bind (fun current => ?_)
  cases current with
  | none => exact Tx.Along.pure _
  | some current =>
      refine Tx.Along.ite (Tx.Along.pure _) ((Tx.Along.ensure _ _).bind (fun _ => ?_))
      have hset : Tx.Along Grows (Tx.write (fun d => d.set id patch.apply patch.apply_id) : TaskM Unit) :=
        Tx.Along.write (fun d => Grows.set d id _ (fun _ h => h))
      exact (grows_cascade _ _).bind (fun _ => hset.bind (fun _ => Tx.Along.read _))

theorem grows_markDoneByName (name : String) (at_ : ℤ) : Tx.Along Grows (markDoneByName name at_) := by
  refine (Tx.Along.read _).bind (fun found => ?_)
  cases found with
  | none => exact Tx.Along.pure _
  | some task =>
      have hrest : Tx.Along Grows (do eachChild task.id (fun child => markDone child at_); pure true) :=
        (grows_eachChild (fun child => grows_markDone child at_)).bind (fun _ => Tx.Along.pure _)
      dsimp only
      split
      · exact (grows_updateNextRun _ _).bind (fun _ => hrest)
      · exact (grows_markDone _ _).bind (fun _ => hrest)

theorem grows_snoozeByName (name : String) (until_ : ℤ) : Tx.Along Grows (snoozeByName name until_) := by
  refine (Tx.Along.read _).bind (fun found => ?_)
  cases found with
  | none => exact Tx.Along.pure _
  | some task =>
      exact (grows_snooze _ _).bind (fun _ =>
        (grows_eachChild (fun child => grows_snooze child until_)).bind (fun _ => Tx.Along.pure _))

end Growth

theorem Op.grows (op : Op) (d : Store) : Grows d (op.run d) := by
  cases op with
  | create opts => exact Tx.wp_final (grows_create opts d)
  | update id patch => exact Tx.wp_final (grows_update id patch d)
  | delete id => exact Tx.wp_final (grows_delete id d)
  | markDone id at_ => exact Tx.wp_final (grows_markDone id at_ d)
  | markDoneByName name at_ => exact Tx.wp_final (grows_markDoneByName name at_ d)
  | snooze id until_ => exact Tx.wp_final (grows_snooze id until_ d)
  | snoozeByName name until_ => exact Tx.wp_final (grows_snoozeByName name until_ d)

end Elpis.Agent.Tasks
