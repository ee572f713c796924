import Elpis.Agent.Tasks

/-!
# One poll

`poll` takes the tasks that are due and goes through them by their numbers, while the callbacks
change the table. The clock of the poll is read once; a callback that throws is tried again a
minute behind the clock at that moment.
-/

namespace Elpis.Agent.Tasks

open Elpis.Lib

/-- What a callback does: calls of the scheduler, and then it may throw. With it the clock as a
nag's name shows it, and as it stands when an error is caught. -/
structure Wake where
  ops : List Op
  fails : Option String
  named : ℤ
  caught : ℤ
deriving DecidableEq

def runOps (ops : List Op) (d : Store) : Store := ops.foldl (fun d op => op.run d) d

/-- `n && n > 0`. -/
def positive (n : Option ℤ) : Option ℤ := n.filter (fun n => decide (0 < n))

/-- What `handleDue` does to a row that its callback has left as it was. -/
def settleDue (task : ScheduledTask) (now late : ℤ) : TaskM Unit :=
  match task.kind with
  | .reminder => do
      updateNextRun task.id (max now (task.nextRunAt + task.intervalMs.getD 0))
      incrementNagCount task.id
      match positive task.nagIntervalMs with
      | some n => spawnNag task (now + n) late
      | none => pure ()
  | .reminderNag => do
      let parent ← Tx.read (fun d => (task.parentId.filter (fun p => decide (p ≠ 0))).bind d.getById)
      markDone task.id now
      match parent.filter (fun p => p.doneAt.isNone), positive task.nagIntervalMs with
      | some parent, some n => do
          spawnNag parent (now + n) late
          incrementNagCount parent.id
      | _, _ => pure ()
  | _ =>
      match positive task.intervalMs with
      | some n => updateNextRun task.id (max now (task.nextRunAt + n))
      | none => markDone task.id now

/-- `handleDue` behind its callback. -/
def settleIfSame (task : ScheduledTask) (now late : ℤ) : TaskM Unit := do
  let current ← Tx.read (fun d => (d.getById task.id).filter (fun t =>
    t.doneAt.isNone && t.nextRunAt == task.nextRunAt && t.snoozeUntil == task.snoozeUntil &&
      t.intervalMs == task.intervalMs))
  match current with
  | none => pure ()
  | some _ => settleDue task now late

theorem settleIfSame_apply (task : ScheduledTask) (now late : ℤ) (d : Store) :
    settleIfSame task now late d = (match (d.getById task.id).filter (fun t =>
        t.doneAt.isNone && t.nextRunAt == task.nextRunAt && t.snoozeUntil == task.snoozeUntil &&
          t.intervalMs == task.intervalMs) with
      | none => pure ()
      | some _ => settleDue task now late : TaskM Unit) d := rfl

/-- What is left of `handleDue` when the callback has made its calls. -/
def handleRest (task : ScheduledTask) (now : ℤ) (wake : Wake) : TaskM Unit :=
  match wake.fails with
  | some error => Tx.throw error
  | none => settleIfSame task now wake.named

/-- The body of the `catch`. -/
def retry (id : ℕ) (caught : ℤ) (d : Store) : Store :=
  match (d.getById id).filter (fun t => t.doneAt.isNone) with
  | none => d
  | some t => d.setNextRun id (max t.nextRunAt (caught + 60000))

/-- One round of the loop, with the store as it is met, as the callback leaves it, as `handleDue`
leaves it, and as the round leaves it. -/
structure Visit where
  id : ℕ
  met : Store
  woken : Option ScheduledTask
  told : Store
  failed : Option (String × ℤ)
  handled : Store
  left : Store

def visit (now : ℤ) (onTaskWake : ScheduledTask → Store → Wake) (id : ℕ) (d : Store) : Visit :=
  match (d.getById id).filter (fun t => t.isDue now) with
  | none => ⟨id, d, none, d, none, d, d⟩
  | some task =>
      let wake := onTaskWake task d
      let told := runOps wake.ops d
      match handleRest task now wake told with
      | (.ok _, d') => ⟨id, d, some task, told, none, d', d'⟩
      | (.error error, d') => ⟨id, d, some task, told, some (error, wake.caught), d', retry id wake.caught d'⟩

/-- The loop. The callbacks may answer differently each time. -/
def visits (now : ℤ) (onTaskWake : ℕ → ScheduledTask → Store → Wake) : ℕ → List ScheduledTask → Store → List Visit
  | _, [], _ => []
  | n, snapshot :: rest, d =>
      let v := visit now (onTaskWake n) snapshot.id d
      v :: visits now onTaskWake (n + 1) rest v.left

/-- The store behind the visits. -/
def behind (d : Store) : List Visit → Store
  | [] => d
  | v :: vs => behind v.left vs

def poll (now : ℤ) (onTaskWake : ℕ → ScheduledTask → Store → Wake) (d : Store) : List Visit :=
  visits now onTaskWake 0 (d.listDue now) d

/-! ## The times of a task -/

/-- What says when a task is due: its next run, its snooze and its end. -/
def times (d : Store) (id : ℕ) : Option (ℤ × Option ℤ × Option ℤ) :=
  (d.getById id).map (fun t => (t.nextRunAt, t.snoozeUntil, t.doneAt))

/-- No task but `id` has its times changed, of those there are. -/
structure Frame (id : ℕ) (d d' : Store) : Prop where
  seq : d.tasks.seq ≤ d'.tasks.seq
  times : ∀ other, other ≠ id → other ≤ d.tasks.seq → times d' other = times d other

instance (id : ℕ) : IsPreorder Store (Frame id) where
  refl _ := ⟨le_rfl, fun _ _ _ => rfl⟩
  trans _ _ _ h h' := ⟨h.seq.trans h'.seq, fun other hne hle =>
    (h'.times other hne (hle.trans h.seq)).trans (h.times other hne hle)⟩

theorem Frame.set (d : Store) (id : ℕ) {f : ScheduledTask → ScheduledTask} (hf : ∀ t, (f t).id = t.id) :
    Frame id d (d.set id f hf) := by
  refine ⟨le_rfl, ?_⟩
  intro other hne _
  rw [Tasks.times, getById_set, if_neg hne]
  rfl

theorem Frame.bump (d : Store) (id parent : ℕ) : Frame id d (d.bumpNagCount parent) := by
  refine ⟨le_rfl, ?_⟩
  intro other _ _
  rw [Tasks.times, Store.bumpNagCount, getById_set]
  by_cases heq : other = parent
  · rw [if_pos heq, heq, Option.map_map]
    rfl
  · rw [if_neg heq]
    rfl

theorem Frame.insert (d : Store) (id : ℕ) (opts : CreateTaskOpts) : Frame id d (d.insert opts) := by
  refine ⟨Nat.le_succ _, ?_⟩
  intro other _ hle
  have hne : other ≠ d.tasks.next := (Nat.lt_succ_of_le hle).ne
  rw [Tasks.times, getById_insert, if_neg hne]
  rfl

/-! ## What a round does -/

section Settle
variable {R : Store → Store → Prop} [IsPreorder Store R]

theorem along_spawnNag (hinsert : ∀ d opts, R d (d.insert opts)) (parent : ScheduledTask) (at_ late : ℤ) :
    Tx.Along R (spawnNag parent at_ late) := by
  have hcreate : ∀ opts, Tx.Along R (create opts) := fun opts =>
    (Tx.Along.read _).bind (fun _ => (Tx.Along.ensure _ _).bind (fun _ => (Tx.Along.read _).bind (fun _ =>
      (Tx.Along.write (fun d => hinsert d opts)).bind (fun _ => Tx.Along.pure _))))
  exact (hcreate _).bind (fun _ => Tx.Along.pure _)

/-- `handleDue` writes to its own row, counts nags, and makes new rows. -/
theorem along_settleDue {task : ScheduledTask} {now late : ℤ}
    (hnext : ∀ d next, R d (d.setNextRun task.id next)) (hdone : ∀ d at_, R d (d.setDone task.id at_))
    (hbump : ∀ d parent, R d (d.bumpNagCount parent)) (hinsert : ∀ d opts, R d (d.insert opts)) :
    Tx.Along R (settleDue task now late) := by
  have hnext' : ∀ next, Tx.Along R (updateNextRun task.id next) := fun next =>
    Tx.Along.write (fun d => hnext d next)
  have hdone' : ∀ at_, Tx.Along R (markDone task.id at_) := fun at_ => Tx.Along.write (fun d => hdone d at_)
  have hbump' : ∀ parent, Tx.Along R (incrementNagCount parent) := fun parent =>
    Tx.Along.write (fun d => hbump d parent)
  have hplain : Tx.Along R (match positive task.intervalMs with
      | some n => updateNextRun task.id (max now (task.nextRunAt + n))
      | none => markDone task.id now) := by
    cases positive task.intervalMs with
    | none => exact hdone' _
    | some n => exact hnext' _
  unfold settleDue
  cases task.kind with
  | reminder =>
      refine (hnext' _).bind (fun _ => (hbump' _).bind (fun _ => ?_))
      cases positive task.nagIntervalMs with
      | none => exact Tx.Along.pure _
      | some n => exact along_spawnNag hinsert _ _ _
  | reminderNag =>
      refine (Tx.Along.read _).bind (fun parent => (hdone' _).bind (fun _ => ?_))
      cases parent.filter (fun p => p.doneAt.isNone) with
      | none => exact Tx.Along.pure _
      | some parent =>
          cases positive task.nagIntervalMs with
          | none => exact Tx.Along.pure _
          | some n => exact (along_spawnNag hinsert _ _ _).bind (fun _ => hbump' _)
  | heartbeat => exact hplain
  | custom => exact hplain

theorem along_handleRest {task : ScheduledTask} {now : ℤ} {wake : Wake}
    (h : Tx.Along R (settleDue task now wake.named)) : Tx.Along R (handleRest task now wake) := by
  unfold handleRest
  cases wake.fails with
  | some error => exact Tx.Along.throw _
  | none =>
      refine (Tx.Along.read _).bind (fun current => ?_)
      cases current with
      | none => exact Tx.Along.pure _
      | some _ => exact h

end Settle

theorem grows_handleRest (task : ScheduledTask) (now : ℤ) (wake : Wake) :
    Tx.Along Grows (handleRest task now wake) :=
  along_handleRest (along_settleDue (fun d _ => Grows.set d _ _ (fun _ h => h))
    (fun d _ => Grows.set d _ _ (fun _ _ => Option.some_ne_none _)) (fun d _ => Grows.set d _ _ (fun _ h => h))
    Grows.insert)

theorem frame_handleRest (task : ScheduledTask) (now : ℤ) (wake : Wake) :
    Tx.Along (Frame task.id) (handleRest task now wake) :=
  along_handleRest (along_settleDue (fun d _ => Frame.set d _ _) (fun d _ => Frame.set d _ _)
    (fun d parent => Frame.bump d _ parent) (fun d opts => Frame.insert d _ opts))

theorem runOps_grows (ops : List Op) (d : Store) : Grows d (runOps ops d) := by
  induction ops generalizing d with
  | nil => exact Grows.refl d
  | cons op rest ih => exact (op.grows d).trans (ih (op.run d))

theorem retry_grows (id : ℕ) (caught : ℤ) (d : Store) : Grows d (retry id caught d) := by
  unfold retry
  split
  · exact Grows.refl d
  · exact Grows.set d _ _ (fun _ h => h)

theorem retry_frame (id : ℕ) (caught : ℤ) (d : Store) : Frame id d (retry id caught d) := by
  unfold retry
  split
  · exact refl_of (Frame id) d
  · exact Frame.set d _ _

/-- A round wakes the task that it finds due, moves the table on, touches no other task's times
behind the callback, and ends with the retry when it has failed. -/
structure Visited (now : ℤ) (v : Visit) : Prop where
  woken : v.woken = (v.met.getById v.id).filter (fun t => t.isDue now)
  told : Grows v.met v.told
  rest : Grows v.told v.left
  frame : Frame v.id v.told v.left
  retried : ∀ error caught, v.failed = some (error, caught) → v.left = retry v.id caught v.handled

theorem visit_met (now : ℤ) (onTaskWake : ScheduledTask → Store → Wake) (id : ℕ) (d : Store) :
    (visit now onTaskWake id d).id = id ∧ (visit now onTaskWake id d).met = d := by
  unfold visit
  split
  · exact ⟨rfl, rfl⟩
  · dsimp only
    split
    · exact ⟨rfl, rfl⟩
    · exact ⟨rfl, rfl⟩

theorem visit_visited (now : ℤ) (onTaskWake : ScheduledTask → Store → Wake) (id : ℕ) (d : Store) :
    Visited now (visit now onTaskWake id d) := by
  unfold visit
  cases hdue : (d.getById id).filter (fun t => t.isDue now) with
  | none => exact ⟨hdue.symm, Grows.refl d, Grows.refl d, refl_of (Frame id) d, nofun⟩
  | some task =>
      have hid : task.id = id := Table.key_of_get? (Option.filter_eq_some_iff.mp hdue).1
      have htold := runOps_grows (onTaskWake task d).ops d
      have hgrows := Tx.wp_iff.mp (grows_handleRest task now (onTaskWake task d) (runOps (onTaskWake task d).ops d))
      have hframe := Tx.wp_iff.mp (frame_handleRest task now (onTaskWake task d) (runOps (onTaskWake task d).ops d))
      rw [hid] at hframe
      dsimp only
      split
      · rename_i u d' hrest
        exact ⟨hdue.symm, htold, hgrows.1 u d' hrest, hframe.1 u d' hrest, nofun⟩
      · rename_i error d' hrest
        refine ⟨hdue.symm, htold, (hgrows.2 error d' hrest).trans (retry_grows _ _ _),
          trans_of (Frame id) (hframe.2 error d' hrest) (retry_frame _ _ _), ?_⟩
        intro error' caught h
        cases h
        rfl

/-- Where a round wakes its task, the callback makes its calls, and then it throws or `handleDue`
goes on; that it fails says that one of them threw. Where it wakes none, nothing happens. -/
structure Ran (now : ℤ) (onTaskWake : ScheduledTask → Store → Wake) (v : Visit) : Prop where
  idle : v.woken = none → v.failed = none ∧ v.told = v.met ∧ v.handled = v.met
  told : ∀ task, v.woken = some task → v.told = runOps (onTaskWake task v.met).ops v.met
  handled : ∀ task, v.woken = some task → v.handled = (handleRest task now (onTaskWake task v.met) v.told).2
  failed : ∀ task, v.woken = some task → ∀ error caught, v.failed = some (error, caught) ↔
    (handleRest task now (onTaskWake task v.met) v.told).1 = .error error ∧ caught = (onTaskWake task v.met).caught
  left : v.failed = none → v.left = v.handled

theorem visit_ran (now : ℤ) (onTaskWake : ScheduledTask → Store → Wake) (id : ℕ) (d : Store) :
    Ran now onTaskWake (visit now onTaskWake id d) := by
  unfold visit
  split
  · refine ⟨fun _ => ⟨rfl, rfl, rfl⟩, ?_, ?_, ?_, fun _ => rfl⟩
    · rintro task ⟨⟩
    · rintro task ⟨⟩
    · rintro task ⟨⟩
  · dsimp only
    split
    · rename_i u d' hrest
      refine ⟨nofun, ?_, ?_, ?_, fun _ => rfl⟩
      · rintro _ ⟨⟩
        rfl
      · rintro _ ⟨⟩
        simp only [hrest]
      · rintro _ ⟨⟩ error caught
        simp only [hrest, reduceCtorEq, false_and]
    · rename_i thrown d' hrest
      refine ⟨nofun, ?_, ?_, ?_, nofun⟩
      · rintro _ ⟨⟩
        rfl
      · rintro _ ⟨⟩
        simp only [hrest]
      · rintro _ ⟨⟩ error caught
        simp only [hrest, Option.some.injEq, Prod.mk.injEq, Except.error.injEq]
        exact and_congr_right' eq_comm

/-! ## The rounds of a poll -/

variable {d : Store}

section Rounds
variable {now : ℤ} {onTaskWake : ℕ → ScheduledTask → Store → Wake}

variable {snapshots : List ScheduledTask}

/-- The rounds in two parts: the second begins where the first ends. -/
theorem visits_eq_append {n : ℕ} {vs us : List Visit}
    (h : visits now onTaskWake n snapshots d = vs ++ us) :
    ∃ first second, snapshots = first ++ second ∧ vs = visits now onTaskWake n first d ∧
      us = visits now onTaskWake (n + first.length) second (behind d vs) := by
  induction vs generalizing n snapshots d with
  | nil => exact ⟨[], snapshots, rfl, rfl, h.symm⟩
  | cons v vs ih =>
      cases snapshots with
      | nil => cases h
      | cons snapshot rest =>
          obtain ⟨rfl, hrest⟩ := List.cons.inj h
          obtain ⟨first, second, rfl, hvs, hus⟩ := ih hrest
          refine ⟨snapshot :: first, second, rfl, ?_, ?_⟩
          · rw [visits, ← hvs]
          · rw [List.length_cons, Nat.add_comm first.length, ← Nat.add_assoc]
            exact hus

theorem visits_ids (n : ℕ) (snapshots : List ScheduledTask) (d : Store) :
    (visits now onTaskWake n snapshots d).map Visit.id = snapshots.map ScheduledTask.id := by
  induction snapshots generalizing n d with
  | nil => rfl
  | cons snapshot rest ih => rw [visits, List.map_cons, List.map_cons, ih, (visit_met _ _ _ _).1]

theorem visits_visited {n : ℕ} :
    ∀ v ∈ visits now onTaskWake n snapshots d, Visited now v := by
  induction snapshots generalizing n d with
  | nil => simp [visits]
  | cons snapshot rest ih =>
      intro v hv
      rcases List.mem_cons.mp hv with rfl | hv
      · exact visit_visited now _ _ d
      · exact ih v hv

theorem visits_ran {n : ℕ} :
    ∀ k v, (visits now onTaskWake n snapshots d)[k]? = some v → Ran now (onTaskWake (n + k)) v := by
  induction snapshots generalizing n d with
  | nil => simp [visits]
  | cons snapshot rest ih =>
      intro k v hv
      cases k with
      | zero =>
          obtain rfl : _ = v := Option.some.inj hv
          exact visit_ran now _ _ d
      | succ k => exact (Nat.add_right_comm n 1 k) ▸ ih k v hv

/-- The first round meets the store that there is. -/
theorem visits_head {n : ℕ} {v : Visit} {vs : List Visit}
    (h : visits now onTaskWake n snapshots d = v :: vs) :
    v.met = d ∧ ∃ rest, vs = visits now onTaskWake (n + 1) rest v.left := by
  cases snapshots with
  | nil => cases h
  | cons snapshot rest =>
      obtain ⟨rfl, rfl⟩ := List.cons.inj h
      exact ⟨(visit_met _ _ _ _).2, rest, rfl⟩

theorem behind_grows {n : ℕ} :
    Grows d (behind d (visits now onTaskWake n snapshots d)) := by
  induction snapshots generalizing n d with
  | nil => exact Grows.refl d
  | cons snapshot rest ih =>
      have hv := visit_visited now (onTaskWake n) snapshot.id d
      have hmet := (visit_met now (onTaskWake n) snapshot.id d).2
      exact ((hmet ▸ hv.told).trans hv.rest).trans ih

/-- Where no callback changes the times of a task, and no round is its own, they stay. -/
theorem behind_times {n : ℕ} {id : ℕ} (hid : id ≤ d.tasks.seq)
    (h : ∀ v ∈ visits now onTaskWake n snapshots d, v.id ≠ id ∧ times v.told id = times v.met id) :
    times (behind d (visits now onTaskWake n snapshots d)) id = times d id := by
  induction snapshots generalizing n d with
  | nil => rfl
  | cons snapshot rest ih =>
      have hv := visit_visited now (onTaskWake n) snapshot.id d
      have hmet := (visit_met now (onTaskWake n) snapshot.id d).2
      obtain ⟨hne, htold⟩ := h _ List.mem_cons_self
      have hle := hid.trans ((hmet ▸ hv.told).seq)
      rw [visits, behind, ih (hle.trans hv.rest.seq) (fun u hu => h u (List.mem_cons_of_mem _ hu)),
        hv.frame.times id (Ne.symm hne) hle, htold, hmet]

end Rounds

/-- The task is to run behind `now`, as far as it is there. -/
def Ahead (now : ℤ) (d : Store) (id : ℕ) : Prop :=
  ∀ t, d.getById id = some t → now < t.nextRunAt ∨ ∃ until_, t.snoozeUntil = some until_ ∧ now < until_

theorem Ahead.congr {now : ℤ} {d d' : Store} {id : ℕ} (h : Ahead now d id) (htimes : times d' id = times d id) :
    Ahead now d' id := by
  intro t ht
  rw [times, times, ht] at htimes
  obtain ⟨r, hr, heq⟩ := Option.map_eq_some_iff.mp htimes.symm
  simp only [Prod.mk.injEq] at heq
  rw [← heq.1, ← heq.2.1]
  exact h r hr

/-- What a poll at `now` over the store `d` is to do in its rounds. -/
structure Polled (now : ℤ) (onTaskWake : ℕ → ScheduledTask → Store → Wake) (d : Store) (vs : List Visit) :
    Prop where
  /-- The rounds are those of the due tasks, whatever is thrown in them, -/
  every : vs.map Visit.id = (d.listDue now).map ScheduledTask.id
  /-- each meets the table as the ones before it leave it, -/
  chain : ∀ pre v post, vs = pre ++ v :: post → v.met = behind d pre
  /-- dispatches its task exactly if it stands due at that moment, -/
  due : ∀ v ∈ vs, v.woken = (v.met.getById v.id).filter (fun t => t.isDue now)
  /-- and then does what the callback and `handleDue` do, and fails where they throw. -/
  ran : ∀ n v, vs[n]? = some v → Ran now (onTaskWake n) v
  /-- No task is dispatched twice. -/
  once : (vs.filterMap (fun v => v.woken.map ScheduledTask.id)).Nodup
  /-- What an earlier callback has deleted or completed is not dispatched, -/
  ended : ∀ pre v mid v' post, vs = pre ++ v :: (mid ++ v' :: post) → Ended v.told v'.id → v'.woken = none
  /-- nor what it has moved into the future, unless a callback in between moves it again. -/
  moved : ∀ pre v mid v' post, vs = pre ++ v :: (mid ++ v' :: post) → Ahead now v.told v'.id →
    (∀ u ∈ mid, times u.told v'.id = times u.met v'.id) → v'.woken = none
  /-- A task that throws and is open then runs no earlier than a minute later; one that is not
  stays as it is. -/
  retried : ∀ v ∈ vs, ∀ error caught, v.failed = some (error, caught) →
    v.left.getById v.id = (v.handled.getById v.id).map (fun t =>
      if t.doneAt = none then { t with nextRunAt := max t.nextRunAt (caught + 60000) } else t)
  /-- And that lasts to the end of the poll, unless a later callback changes it. -/
  lasting : ∀ pre v post, vs = pre ++ v :: post → (∀ u ∈ post, times u.told v.id = times u.met v.id) →
    times (behind d vs) v.id = times v.left v.id

theorem behind_append (d : Store) (vs us : List Visit) : behind d (vs ++ us) = behind (behind d vs) us := by
  induction vs generalizing d with
  | nil => rfl
  | cons v vs ih => exact ih v.left

theorem retry_row (id : ℕ) (caught : ℤ) (d : Store) :
    (retry id caught d).getById id = (d.getById id).map (fun t =>
      if t.doneAt = none then { t with nextRunAt := max t.nextRunAt (caught + 60000) } else t) := by
  unfold retry
  cases hrow : d.getById id with
  | none => exact hrow
  | some t =>
      by_cases hdone : t.doneAt = none
      · have hopen : Option.filter (fun t : ScheduledTask => t.doneAt.isNone) (some t) = some t := by simp [hdone]
        rw [hopen]
        simp [hdone, Store.setNextRun, getById_set, hrow]
      · have hclosed : Option.filter (fun t : ScheduledTask => t.doneAt.isNone) (some t) = none := by simp [hdone]
        rw [hclosed]
        simp [hdone, hrow]

theorem not_due_of_ended {now : ℤ} {id : ℕ} (h : Ended d id) :
    (d.getById id).filter (fun t => t.isDue now) = none := by
  rw [Option.filter_eq_none_iff]
  intro t ht hdue
  have hdone := h t ht
  simp only [ScheduledTask.isDue, Bool.and_eq_true, Option.isNone_iff_eq_none] at hdue
  exact hdone hdue.1.1

theorem not_due_of_ahead {now : ℤ} {id : ℕ} (h : Ahead now d id) :
    (d.getById id).filter (fun t => t.isDue now) = none := by
  rw [Option.filter_eq_none_iff]
  intro t ht hdue
  simp only [ScheduledTask.isDue, Bool.and_eq_true, decide_eq_true_eq] at hdue
  rcases h t ht with hnext | ⟨until_, hsnooze, hlate⟩
  · exact absurd hdue.1.2 (not_le.mpr hnext)
  · have hpast := hdue.2
    rw [hsnooze] at hpast
    simp only [Option.all_some, decide_eq_true_eq] at hpast
    exact absurd hpast (not_le.mpr hlate)

/-- Where a round dispatches anything, it is its own task. -/
theorem woken_sublist {now : ℤ} {vs : List Visit} (h : ∀ v ∈ vs, Visited now v) :
    (vs.filterMap (fun v => v.woken.map ScheduledTask.id)).Sublist (vs.map Visit.id) := by
  induction vs with
  | nil => exact List.Sublist.refl _
  | cons v vs ih =>
      have hrest := ih (fun u hu => h u (List.mem_cons_of_mem v hu))
      cases hwoken : v.woken with
      | none =>
          rw [List.filterMap_cons_none (by rw [hwoken]; rfl)]
          exact hrest.cons v.id
      | some t =>
          have hrow := (h v List.mem_cons_self).woken
          rw [hwoken] at hrow
          have hid : t.id = v.id := Table.key_of_get? (Option.filter_eq_some_iff.mp hrow.symm).1
          rw [List.filterMap_cons_some (by rw [hwoken]; rfl), List.map_cons, hid]
          exact hrest.cons_cons v.id

theorem listDue_ids_nodup (d : Store) (now : ℤ) : ((d.listDue now).map ScheduledTask.id).Nodup := by
  have hperm := (List.mergeSort_perm (d.tasks.rows.filter (fun t => t.isDue now))
    (fun a b => decide (a.nextRunAt ≤ b.nextRunAt))).map ScheduledTask.id
  refine hperm.nodup_iff.mpr ?_
  exact d.tasks.nodup.sublist (List.filter_sublist.map _)

theorem listDue_le_seq {now : ℤ} {id : ℕ} (h : id ∈ (d.listDue now).map ScheduledTask.id) :
    id ≤ d.tasks.seq := by
  obtain ⟨t, ht, rfl⟩ := List.mem_map.mp h
  exact d.tasks.le_seq t (List.mem_filter.mp (List.mem_mergeSort.mp ht)).1

/-- Whatever the callbacks do, and whichever of them throw. -/
theorem poll_polled (now : ℤ) (onTaskWake : ℕ → ScheduledTask → Store → Wake) (d : Store) :
    Polled now onTaskWake d (poll now onTaskWake d) := by
  have hids : (poll now onTaskWake d).map Visit.id = (d.listDue now).map ScheduledTask.id :=
    visits_ids 0 (d.listDue now) d
  have hnodup : ((poll now onTaskWake d).map Visit.id).Nodup := hids ▸ listDue_ids_nodup d now
  have hseq : ∀ v ∈ poll now onTaskWake d, v.id ≤ d.tasks.seq := by
    intro v hv
    exact listDue_le_seq (hids ▸ List.mem_map_of_mem hv)
  have hvisited : ∀ v ∈ poll now onTaskWake d, Visited now v := visits_visited
  -- a round, and the store that it meets
  have hsplit : ∀ pre v post, poll now onTaskWake d = pre ++ v :: post →
      v.met = behind d pre ∧ Grows d v.met ∧ ∃ n rest, post = visits now onTaskWake n rest v.left := by
    intro pre v post h
    obtain ⟨first, second, -, hpre, hpost⟩ := visits_eq_append h
    obtain ⟨hmet, rest, hrest⟩ := visits_head hpost.symm
    exact ⟨hmet, hmet ▸ hpre ▸ behind_grows, _, rest, hrest⟩
  -- a later round is about another task, which was there before
  have hlater : ∀ pre v mid v' post, poll now onTaskWake d = pre ++ v :: (mid ++ v' :: post) →
      v'.met = behind v.left mid ∧ (∃ n rest, mid = visits now onTaskWake n rest v.left) ∧
        v.id ≠ v'.id ∧ (∀ u ∈ mid, u.id ≠ v'.id) ∧ v'.id ≤ v.told.tasks.seq := by
    intro pre v mid v' post h
    obtain ⟨-, hgrows, n, rest, hrest⟩ := hsplit pre v _ h
    obtain ⟨first, second, -, hmid, hpost⟩ := visits_eq_append hrest.symm
    have hmem : v ∈ poll now onTaskWake d := by simp [h]
    have hmem' : v' ∈ poll now onTaskWake d := by simp [h]
    rw [h] at hnodup
    simp only [List.map_append, List.map_cons, List.nodup_append, List.nodup_cons, List.mem_append,
      List.mem_cons, List.mem_map] at hnodup
    refine ⟨(visits_head hpost.symm).1, ⟨n, first, hmid⟩, ?_, ?_, ?_⟩
    · intro heq
      exact hnodup.2.1.1 (Or.inr (Or.inl heq))
    · intro u hu
      exact hnodup.2.1.2.2.2 u.id ⟨u, hu, rfl⟩ v'.id (Or.inl rfl)
    · exact (hseq v' hmem').trans (hgrows.seq.trans (hvisited v hmem).told.seq)
  have hran : ∀ n v, (poll now onTaskWake d)[n]? = some v → Ran now (onTaskWake n) v := by
    intro n v hv
    exact Nat.zero_add n ▸ visits_ran n v hv
  refine ⟨hids, fun pre v post h => (hsplit pre v post h).1, fun v hv => (hvisited v hv).woken, hran,
    hnodup.sublist (woken_sublist hvisited), ?_, ?_, ?_, ?_⟩
  · intro pre v mid v' post h hended
    obtain ⟨hmet, ⟨n, rest, hmid⟩, -, -, hle⟩ := hlater pre v mid v' post h
    have hv := hvisited v (by simp [h])
    have hgrows : Grows v.told v'.met := hmet ▸ hv.rest.trans (hmid ▸ behind_grows)
    rw [(hvisited v' (by simp [h])).woken]
    exact not_due_of_ended (hgrows.ended _ hle hended)
  · intro pre v mid v' post h hahead hcalls
    obtain ⟨hmet, ⟨n, rest, hmid⟩, hne, hothers, hle⟩ := hlater pre v mid v' post h
    have hv := hvisited v (by simp [h])
    have htimes : times (behind v.left mid) v'.id = times v.left v'.id := by
      subst hmid
      exact behind_times (hle.trans hv.rest.seq) (fun u hu => ⟨hothers u hu, hcalls u hu⟩)
    rw [hv.frame.times v'.id (Ne.symm hne) hle] at htimes
    rw [(hvisited v' (by simp [h])).woken, hmet]
    exact not_due_of_ahead (hahead.congr htimes)
  · intro v hv error caught hfailed
    rw [(hvisited v hv).retried error caught hfailed]
    exact retry_row _ _ _
  · intro pre v post h hcalls
    obtain ⟨-, hgrows, n, rest, hpost⟩ := hsplit pre v post h
    have hmem : v ∈ poll now onTaskWake d := by simp [h]
    have hv := hvisited v hmem
    have hle : v.id ≤ v.left.tasks.seq :=
      (hseq v hmem).trans (hgrows.seq.trans (hv.told.seq.trans hv.rest.seq))
    have hothers : ∀ u ∈ post, u.id ≠ v.id := by
      intro u hu heq
      rw [h] at hnodup
      simp only [List.map_append, List.map_cons, List.nodup_append, List.nodup_cons, List.mem_map] at hnodup
      exact hnodup.2.1.1 ⟨u, hu, heq⟩
    rw [h, behind_append, behind]
    subst hpost
    exact behind_times hle (fun u hu => ⟨hothers u hu, hcalls u hu⟩)

end Elpis.Agent.Tasks
