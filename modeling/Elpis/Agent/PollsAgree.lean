import Elpis.Agent.Polls
import Elpis.Lib.Alive

/-!
# The scheduler under the agent

The agent's programs write to the scheduler's table one statement at a time, and the scheduler's
own methods are stated over the table alone. While the process lives the two are the same, and a
poll with the agent's callback is a poll with a callback that calls the scheduler.
-/

namespace Elpis.Agent

open Elpis.Lib
open Tasks (runOps)

/-! ## Methods -/

theorem create_alive (opts : CreateTaskOpts) : Crash.Alive ScheduledTask.id (create opts) (Tasks.create opts) := by
  refine Crash.Alive.bind (.read _) (fun taken => ?_)
  cases taken with
  | true => exact fun _ _ => rfl
  | false => exact fun _ _ => rfl

theorem markDone_alive (taskId : ℕ) (at_ : ℤ) : Crash.Alive id (markDone taskId at_) (Tasks.markDone taskId at_) :=
  .write _

theorem spawnNag_alive (parent : ScheduledTask) (at_ late : ℤ) :
    Crash.Alive id (spawnNag parent at_ late) (Tasks.spawnNag parent at_ late) :=
  .bind (create_alive _) (fun _ => .pure ())

theorem positive_some {n : ℤ} (h : 0 < n) : Tasks.positive (some n) = some n := by
  simp [Tasks.positive, h]

theorem positive_none {n : ℤ} (h : ¬0 < n) : Tasks.positive (some n) = none := by
  simpa [Tasks.positive] using h

/-- `n && n > 0`, in two tests and in one. -/
theorem positive_alive {n : Option ℤ} {x : ℤ → AgentM Unit} {y : AgentM Unit} {x' : ℤ → Tasks.TaskM Unit}
    {y' : Tasks.TaskM Unit} (hx : ∀ n, Crash.Alive id (x n) (x' n)) (hy : Crash.Alive id y y') :
    Crash.Alive id
      (match n with
        | some n => if 0 < n then x n else y
        | none => y)
      (match Tasks.positive n with
        | some n => x' n
        | none => y') := by
  cases n with
  | none => exact hy
  | some n =>
      by_cases h : 0 < n
      · rw [positive_some h]
        dsimp only
        rw [if_pos h]
        exact hx n
      · rw [positive_none h]
        dsimp only
        rw [if_neg h]
        exact hy

theorem settleDue_alive (task : ScheduledTask) (now late : ℤ) :
    Crash.Alive id (settleDue task now late) (Tasks.settleDue task now late) := by
  have hplain : Crash.Alive id
      (match task.intervalMs with
        | some n =>
            if 0 < n then Crash.write (·.setNextRun task.id (max now (task.nextRunAt + n)))
            else markDone task.id now
        | none => markDone task.id now : AgentM Unit)
      (match Tasks.positive task.intervalMs with
        | some n => Tasks.updateNextRun task.id (max now (task.nextRunAt + n))
        | none => Tasks.markDone task.id now) :=
    positive_alive (fun _ => .write _) (markDone_alive _ _)
  unfold settleDue Tasks.settleDue
  cases task.kind with
  | reminder =>
      refine .bind (.write _) (fun _ => .bind (.write _) (fun _ => ?_))
      exact positive_alive (fun _ => spawnNag_alive _ _ _) (.pure ())
  | reminderNag =>
      have hparent : Crash.Alive id
          (Crash.read (fun d _ => task.parentId.bind (fun p => if p = 0 then none else d.getById p)) :
            AgentM (Option ScheduledTask))
          (Tx.read (fun d => (task.parentId.filter (fun p => decide (p ≠ 0))).bind d.getById)) := by
        intro d m
        cases task.parentId with
        | none => rfl
        | some p =>
            by_cases h : p = 0
            · simp [Crash.read, Tx.read, Crash.beside, Option.filter, h]
            · simp [Crash.read, Tx.read, Crash.beside, Option.filter, h]
      refine hparent.bind (fun parent => .bind (markDone_alive _ _) (fun _ => ?_))
      cases parent with
      | none => exact .pure ()
      | some parent =>
          cases task.nagIntervalMs with
          | none => cases hdone : parent.doneAt.isNone <;> simp only [id, Option.filter, hdone] <;> exact .pure ()
          | some n =>
              by_cases hdone : parent.doneAt.isNone = true
              · by_cases h : 0 < n
                · simp only [id, Option.filter, hdone, positive_some h, true_and, h, if_true]
                  exact .bind (spawnNag_alive _ _ _) (fun _ => .write _)
                · simp only [id, Option.filter, hdone, positive_none h, true_and, h, if_false]
                  exact .pure ()
              · simp only [id, Option.filter, hdone]
                exact .pure ()
  | heartbeat => exact hplain
  | custom => exact hplain

/-! ## The callback -/

/-- As long as the process lives, the program makes calls of the scheduler, and then returns or
throws. -/
def Calls {α : Type} (x : AgentM α) : Prop :=
  ∀ d m, ∃ ops m', (∃ a, x none d m = (.done a m' none, runOps ops d)) ∨
    ∃ e, x none d m = (.thrown e m' none, runOps ops d)

section Callback
variable {α β : Type}

theorem calls_pure (a : α) : Calls (pure a : AgentM α) := fun _ m => ⟨[], m, .inl ⟨a, rfl⟩⟩

theorem calls_throw (e : String) : Calls (Crash.throw e : AgentM α) := fun _ m => ⟨[], m, .inr ⟨e, rfl⟩⟩

theorem calls_read (f : Store → Memory → α) : Calls (Crash.read f) := fun d m => ⟨[], m, .inl ⟨f d m, rfl⟩⟩

theorem calls_modify (f : Memory → Memory) : Calls (Crash.modify f : AgentM Unit) :=
  fun _ m => ⟨[], f m, .inl ⟨(), rfl⟩⟩

theorem calls_bind {x : AgentM α} {k : α → AgentM β} (h : Calls x) (hk : ∀ a, Calls (k a)) : Calls (x >>= k) := by
  intro d m
  obtain ⟨ops, m', ⟨a, hrun⟩ | ⟨e, hrun⟩⟩ := h d m
  · obtain ⟨rest, m'', hrest⟩ := hk a (runOps ops d) m'
    refine ⟨ops ++ rest, m'', ?_⟩
    have hops : runOps (ops ++ rest) d = runOps rest (runOps ops d) := List.foldl_append
    rw [hops, Crash.bind_of_done hrun]
    exact hrest
  · exact ⟨ops, m', .inr ⟨e, Crash.bind_of_thrown hrun⟩⟩

theorem calls_ite {c : Prop} [Decidable c] {x y : AgentM α} (hx : Calls x) (hy : Calls y) :
    Calls (if c then x else y) := by
  split
  · exact hx
  · exact hy

theorem calls_markDone (taskId : ℕ) (at_ : ℤ) : Calls (markDone taskId at_) :=
  fun _ m => ⟨[.markDone taskId at_], m, .inl ⟨(), rfl⟩⟩

theorem update_payload {d : Store} {taskId : ℕ} {t : ScheduledTask} (payload : TaskPayload)
    (hrow : d.getById taskId = some t) (hopen : t.doneAt = none) :
    (Tasks.update taskId ⟨some payload, none, none, none, none⟩ d).2 = d.setPayload taskId payload := by
  unfold Tasks.update
  rw [Tx.bind_of_ok (show Tx.read _ d = (.ok (d.getById taskId), d) from rfl), hrow]
  dsimp only
  rw [if_neg (by simp [Tasks.Patch.empty]), Tx.ensure, if_pos hopen]
  rfl

theorem calls_updatePayload (taskId : ℕ) (payload : TaskPayload) : Calls (updatePayload taskId payload) := by
  intro d m
  unfold updatePayload
  rw [Crash.bind_of_done (show Crash.read _ none d m = (.done (d.getById taskId) m none, d) from rfl)]
  cases hrow : d.getById taskId with
  | none => exact ⟨[], m, .inl ⟨(), rfl⟩⟩
  | some t =>
      dsimp only
      by_cases hdone : t.doneAt.isSome = true
      · rw [if_pos hdone]
        exact ⟨[], m, .inr ⟨_, rfl⟩⟩
      · rw [if_neg hdone]
        refine ⟨[.update taskId ⟨some payload, none, none, none, none⟩], m, .inl ⟨(), ?_⟩⟩
        have hopen : t.doneAt = none := by simpa using hdone
        exact congrArg (Prod.mk _) (update_payload payload hrow hopen).symm

theorem calls_preemptRunWake (now : ℤ) : Calls (preemptRunWake now) := by
  refine calls_bind (calls_read _) (fun pending => ?_)
  cases pending with
  | none => exact calls_pure ()
  | some pending =>
      exact calls_bind (calls_updatePayload _ _) (fun _ => calls_bind (calls_markDone _ _) (fun _ => calls_modify _))

theorem calls_enqueue (message : Message) (now : ℤ) : Calls (enqueue message now) := by
  refine calls_bind (calls_modify _) (fun _ => ?_)
  split
  · exact calls_pure ()
  · exact calls_preemptRunWake now

theorem calls_notifyRunWake (task : ScheduledTask) (late : ℤ) : Calls (notifyRunWake task late) := by
  refine calls_ite (calls_pure _) (calls_bind (calls_read _) (fun current => ?_))
  split
  · exact calls_pure _
  · split
    · exact calls_pure _
    · refine calls_bind (calls_read _) (fun pending => calls_ite (calls_pure _) (calls_bind ?_ (fun _ => calls_pure _)))
      exact calls_bind (calls_updatePayload _ _) (fun _ => calls_bind (calls_modify _) (fun _ => calls_enqueue _ _))

theorem calls_onTaskWake (task : ScheduledTask) (late : ℤ) (fails : Bool) : Calls (onTaskWake task late fails) :=
  calls_bind (calls_notifyRunWake task late) (fun _ =>
    calls_ite (calls_pure ()) (calls_ite (calls_throw _) (calls_enqueue _ _)))

end Callback

/-! ## Polling -/

/-- The callback's calls and its end, as the poll of the table sees them. -/
theorem onTaskWake_wake (task : ScheduledTask) (late : ℤ) (fails : Bool) (d : Store) (m : Memory) :
    ∃ (wake : Tasks.Wake) (m' : Memory), wake.named = late ∧ wake.caught = late ∧
      onTaskWake task late fails none d m = Crash.beside id m'
        ((match wake.fails with | some e => .error e | none => .ok ()), runOps wake.ops d) := by
  obtain ⟨ops, m', ⟨a, hrun⟩ | ⟨e, hrun⟩⟩ := calls_onTaskWake task late fails d m
  · exact ⟨⟨ops, none, late, late⟩, m', rfl, rfl, hrun⟩
  · exact ⟨⟨ops, some e, late, late⟩, m', rfl, rfl, hrun⟩

theorem settleIfSame_alive (task : ScheduledTask) (now late : ℤ) :
    Crash.Alive id (do
        let current ← Crash.read (fun d _ => (d.getById task.id).filter (fun t =>
          t.doneAt.isNone && t.nextRunAt == task.nextRunAt && t.snoozeUntil == task.snoozeUntil &&
            t.intervalMs == task.intervalMs))
        match current with
        | none => pure ()
        | some _ => settleDue task now late : AgentM Unit)
      (Tasks.settleIfSame task now late) := by
  refine .bind (.read _) (fun current => ?_)
  cases current with
  | none => exact .pure ()
  | some _ => exact settleDue_alive task now late

/-- `handleDue` is the callback, and then what is left of it. -/
theorem handleDue_wake (task : ScheduledTask) (now late : ℤ) (fails : Bool) (d : Store) (m : Memory) :
    ∃ (wake : Tasks.Wake) (m' : Memory), wake.named = late ∧ wake.caught = late ∧
      handleDue task now late fails none d m =
        Crash.beside id m' (Tasks.handleRest task now wake (runOps wake.ops d)) := by
  obtain ⟨wake, m', hnamed, hcaught, hrun⟩ := onTaskWake_wake task late fails d m
  refine ⟨wake, m', hnamed, hcaught, ?_⟩
  unfold handleDue Tasks.handleRest
  cases hfails : wake.fails with
  | none =>
      rw [hfails] at hrun
      rw [Crash.bind_of_done hrun, hnamed]
      exact settleIfSame_alive task now late _ m'
  | some e =>
      rw [hfails] at hrun
      rw [Crash.bind_of_thrown hrun]
      rfl

/-- The body of the loop is one round, under a callback with the clock of the agent. -/
theorem dispatch_visit (now late : ℤ) (failing : List ℕ) (snapshot : ScheduledTask) (d : Store) (m : Memory) :
    ∃ (wake : Tasks.Wake) (m' : Memory), wake.named = late ∧ wake.caught = late ∧
      dispatch now late failing snapshot none d m =
        (.done () m' none, (Tasks.visit now (fun _ _ => wake) snapshot.id d).left) := by
  unfold dispatch Tasks.visit
  rw [Crash.bind_of_done (x := Crash.read _) rfl]
  cases hdue : (d.getById snapshot.id).filter (fun t => t.isDue now) with
  | none => exact ⟨⟨[], none, late, late⟩, m, rfl, rfl, rfl⟩
  | some task =>
      obtain ⟨wake, m', hnamed, hcaught, hrun⟩ := handleDue_wake task now late (decide (task.id ∈ failing)) d m
      refine ⟨wake, m', hnamed, hcaught, ?_⟩
      have hid : task.id = snapshot.id := Table.key_of_get? (Option.filter_eq_some_iff.mp hdue).1
      dsimp only
      rcases hrest : Tasks.handleRest task now wake (runOps wake.ops d) with ⟨e | u, d'⟩
      · rw [hrest] at hrun
        rw [Crash.bind_of_done (Crash.attempt_of_beside hrun), hcaught, ← hid]
        dsimp only
        rw [Crash.bind_of_done (show Crash.read _ none d' m' =
          (.done ((d'.getById task.id).filter (·.doneAt.isNone)) m' none, d') from rfl), Tasks.retry]
        cases (d'.getById task.id).filter (·.doneAt.isNone) with
        | none => rfl
        | some t => rfl
      · rw [hrest] at hrun
        rw [Crash.bind_of_done (Crash.attempt_of_beside hrun)]
        rfl

theorem visits_succ (now : ℤ) (callbacks : ℕ → ScheduledTask → Store → Tasks.Wake) (n : ℕ)
    (snapshots : List ScheduledTask) (d : Store) :
    Tasks.visits now callbacks (n + 1) snapshots d = Tasks.visits now (fun k => callbacks (k + 1)) n snapshots d := by
  induction snapshots generalizing n d with
  | nil => rfl
  | cons snapshot rest ih => rw [Tasks.visits, Tasks.visits, ih]

theorem forEach_visits (now late : ℤ) (failing : List ℕ) (snapshots : List ScheduledTask) (d : Store) (m : Memory) :
    ∃ (callbacks : ℕ → ScheduledTask → Store → Tasks.Wake) (m' : Memory),
      (∀ n task d, (callbacks n task d).named = late ∧ (callbacks n task d).caught = late) ∧
      Crash.forEach (dispatch now late failing) snapshots none d m =
        (.done () m' none, Tasks.behind d (Tasks.visits now callbacks 0 snapshots d)) := by
  induction snapshots generalizing d m with
  | nil => exact ⟨fun _ _ _ => ⟨[], none, late, late⟩, m, fun _ _ _ => ⟨rfl, rfl⟩, rfl⟩
  | cons snapshot rest ih =>
      obtain ⟨wake, m₁, hnamed, hcaught, hround⟩ := dispatch_visit now late failing snapshot d m
      obtain ⟨callbacks, m', hclock, hrest⟩ := ih (Tasks.visit now (fun _ _ => wake) snapshot.id d).left m₁
      refine ⟨fun n => n.casesOn (fun _ _ => wake) callbacks, m', ?_, ?_⟩
      · rintro (_ | n) task d
        · exact ⟨hnamed, hcaught⟩
        · exact hclock n task d
      · rw [Crash.forEach, Crash.bind_of_done hround, hrest, Tasks.visits, visits_succ]
        rfl

/-- A poll under the agent, while the process lives: a poll of the table, whatever the agent holds
in memory. The callbacks do what `onTaskWake` does, which is to call the scheduler. -/
theorem poll_agrees (now late : ℤ) (failing : List ℕ) (d : Store) (m : Memory) :
    ∃ (callbacks : ℕ → ScheduledTask → Store → Tasks.Wake) (m' : Memory),
      (∀ n task d, (callbacks n task d).named = late ∧ (callbacks n task d).caught = late) ∧
      poll now late failing none d m = (.done () m' none, Tasks.behind d (Tasks.poll now callbacks d)) :=
  forEach_visits now late failing (d.listDue now) d m

end Elpis.Agent
