import Elpis.Agent.Wakes

/-!
# The wake through the agent's programs

One specification for each program of the scheduler and of the agent's wake. Each starts
where the process lives and says how it lives on, what the wakes may have done in
between, and that the memory lost at a crash point accounts for every wake that fired.
-/

namespace Elpis.Agent

open Elpis.Lib

/-! ## Preempting, queueing, firing -/

section Programs
variable {d : Store} {m : Memory} {E : String → Store → Memory → Prop} {id : ℕ} {t : ScheduledTask}
  {now late : ℤ} {p : DurableRunWakePayload}

/-- Where a program may die: the lost memory accounts for the wakes that fired. -/
def CrashPoint (d₀ d : Store) (m : Memory) : Prop := Dying d m ∧ Fades d₀ d

theorem wp_updatePayload {payload : TaskPayload}
    {P : Unit → Store → Memory → Prop}
    {C : Store → Memory → Prop} (ht : d.getById id = some t) (hopen : t.doneAt = none)
    (hcrash : C d m) (h : P () (d.setPayload id payload) m) :
    Crash.wp (updatePayload id payload) P E C d m := by
  unfold updatePayload
  apply Crash.wp_bind
  apply Crash.wp_read
  rw [ht]
  apply Crash.wp_ite
  · intro hdone
    rw [hopen] at hdone
    cases hdone
  · intro _
    exact Crash.wp_write hcrash h

/-- Preempting leaves nothing armed and nothing pending. -/
theorem wp_preemptRunWake {now : ℤ} (h : Live d m) :
    Crash.wp (preemptRunWake now)
      (fun _ d' m' => Live d' m' ∧ Fades d d' ∧ m' = { m with pendingRunWake := none } ∧
        d'.history = d.history)
      E (CrashPoint d) d m := by
  unfold preemptRunWake
  apply Crash.wp_bind
  apply Crash.wp_read
  cases hpending : m.pendingRunWake with
  | none =>
      apply Crash.wp_pure
      refine ⟨h, Fades.refl d, ?_, rfl⟩
      rw [← hpending]
  | some pending =>
      obtain ⟨hwake, harmed⟩ := h.linked.pending pending hpending
      obtain ⟨t, ht, hw⟩ := wakeOf_eq_some.mp hwake
      have hrow := h.ok.rows pending.taskId t pending.payload ht hw harmed
      have hne : RunWakeState.preempted ≠ .armed := nofun
      -- after the first write nothing is armed, and no message is owed
      have hok := storeOk_end h.ok hwake hne
      have hfades := fades_end hwake harmed hne
      have hcounted : Counted (d.setPayload pending.taskId
          (.wake { pending.payload with state := .preempted })) m.inbound := by
        intro id
        rw [firedCount_end hwake harmed]
        simpa using h.counted id
      have hnone := none_armed_end h.ok hwake harmed hne
      have hsame : SameWakes (d.setPayload pending.taskId
          (.wake { pending.payload with state := .preempted }))
          ((d.setPayload pending.taskId
            (.wake { pending.payload with state := .preempted })).setDone pending.taskId now) :=
        sameWakes_set (fun _ => rfl) (fun u p hu hp hs =>
          absurd hs (not_armed_row (hnone pending.taskId) hu hp))
      apply Crash.wp_bind
      apply wp_updatePayload ht hrow.unfinished ⟨h.dying, Fades.refl d⟩
      apply Crash.wp_bind
      apply Crash.wp_write
      · exact ⟨⟨hok, hcounted⟩, hfades⟩
      apply Crash.wp_modify
      refine ⟨⟨hsame.storeOk hok, ⟨?_, nofun⟩, hsame.counted hcounted⟩,
        hfades.trans hsame.fades, rfl, rfl⟩
      intro id p hp hs
      rw [hsame.wakeOf] at hp
      exact absurd hs (hnone id p hp)

theorem wakeCount_append (ms ns : List Message) (id : ℕ) :
    wakeCount (ms ++ ns) id = wakeCount ms id + wakeCount ns id := List.countP_append

theorem counted_other {queue : List Message} (ambient : Bool) (channelName : String)
    (h : Counted d queue) : Counted d (queue ++ [.other ambient channelName]) := by
  intro id
  rw [← List.append_assoc, wakeCount_append, h id]
  rfl

theorem wp_enqueue_other {ambient : Bool} {channelName : String} {now : ℤ} (h : Live d m) :
    Crash.wp (enqueue (.other ambient channelName) now)
      (fun _ d' m' => Live d' m' ∧ Fades d d') E (CrashPoint d) d m := by
  have hqueued : Live d { m with inbound := m.inbound ++ [.other ambient channelName] } :=
    ⟨h.ok, ⟨h.linked.armed, h.linked.pending⟩, counted_other ambient channelName h.counted⟩
  unfold enqueue
  apply Crash.wp_bind
  apply Crash.wp_modify
  cases ambient with
  | true => exact Crash.wp_pure ⟨hqueued, Fades.refl d⟩
  | false =>
      apply Crash.wp_mono (wp_preemptRunWake hqueued)
      · exact fun _ d' m' h' => ⟨h'.1, h'.2.1⟩
      · exact fun _ _ _ he => he
      · exact fun _ _ hc => hc

/-- Firing: the payload and the queue, with no crash point between them. -/
theorem wp_fireRunWake {late : ℤ} (h : Live d m) (hp : d.wakeOf id = some p)
    (harmed : p.state = .armed) :
    Crash.wp (fireRunWake id p late)
      (fun _ d' m' => Live d' m' ∧ Fades d d' ∧ ∀ j q, d'.wakeOf j = some q → q.state ≠ .armed)
      E (CrashPoint d) d m := by
  obtain ⟨t, ht, hw⟩ := wakeOf_eq_some.mp hp
  have hrow := h.ok.rows id t p ht hw harmed
  have hne : RunWakeState.fired ≠ .armed := nofun
  have hok := storeOk_end h.ok hp hne
  have hnone := none_armed_end h.ok hp harmed hne
  have hlive : Live (d.setPayload id (.wake { p with state := .fired }))
      { m with pendingRunWake := none, inbound := m.inbound ++ [.wake id late] } := by
    refine ⟨hok, ⟨?_, nofun⟩, ?_⟩
    · intro j q hq hs
      exact absurd hs (hnone j q hq)
    · intro j
      rw [firedCount_end hp harmed, ← h.counted j]
      show wakeCount (d.history ++ (m.inbound ++ [.wake id late])) j = _
      rw [← List.append_assoc, wakeCount_append]
      by_cases heq : j = id
      · simp [heq, wakeCount, Message.isWakeOf]
      · have hsymm : id ≠ j := fun he => heq he.symm
        simp [heq, hsymm, wakeCount, Message.isWakeOf]
  unfold fireRunWake
  apply Crash.wp_bind
  apply wp_updatePayload ht hrow.unfinished ⟨h.dying, Fades.refl d⟩
  apply Crash.wp_bind
  apply Crash.wp_modify
  unfold enqueue
  apply Crash.wp_bind
  apply Crash.wp_modify
  -- nothing is pending any more, so queueing the wake preempts nothing
  unfold preemptRunWake
  apply Crash.wp_bind
  apply Crash.wp_read
  exact Crash.wp_pure ⟨hlive, fades_end hp harmed hne, hnone⟩

theorem wp_create {opts : CreateTaskOpts} {P : ℕ → Store → Memory → Prop} {C : Store → Memory → Prop} (hE : ∀ e, E e d m)
    (hC : C d m) (hP : P d.tasks.next (d.insert opts) m) :
    Crash.wp (create opts) P E C d m := by
  unfold create
  apply Crash.wp_bind
  apply Crash.wp_read
  apply Crash.wp_ite
  · intro _
    exact Crash.wp_throw (hE _)
  · intro _
    apply Crash.wp_bind
    apply Crash.wp_read
    apply Crash.wp_bind
    apply Crash.wp_write hC
    exact Crash.wp_pure hP

/-- A program that leaves the wakes and the memory alone, wherever it ends. -/
def Harmless (x : AgentM Unit) (d : Store) (m : Memory) : Prop :=
  Crash.wp x (fun _ d' m' => SameWakes d d' ∧ m' = m) (fun _ d' m' => SameWakes d d' ∧ m' = m)
    (fun d' m' => SameWakes d d' ∧ m' = m) d m

theorem harmless_pure : Harmless (pure ()) d m := Crash.wp_pure ⟨SameWakes.refl d, rfl⟩

theorem harmless_write {f : Store → Store} (h : SameWakes d (f d)) :
    Harmless (Crash.write f) d m :=
  Crash.wp_write ⟨SameWakes.refl d, rfl⟩ ⟨h, rfl⟩

theorem Harmless.bind {x y : AgentM Unit} (hx : Harmless x d m)
    (hy : ∀ d', SameWakes d d' → Harmless y d' m) : Harmless (x >>= fun _ => y) d m := by
  apply Crash.wp_bind
  apply Crash.wp_mono hx
  · rintro _ d' m' ⟨hd, rfl⟩
    apply Crash.wp_mono (hy d' hd)
    · exact fun _ d'' m'' h => ⟨hd.trans h.1, h.2⟩
    · exact fun _ d'' m'' h => ⟨hd.trans h.1, h.2⟩
    · exact fun d'' m'' h => ⟨hd.trans h.1, h.2⟩
  · exact fun _ _ _ h => h
  · exact fun _ _ h => h

theorem harmless_spawnNag (parent : ScheduledTask) (at_ late : ℤ) :
    Harmless (spawnNag parent at_ late) d m := by
  unfold spawnNag
  apply Crash.wp_bind
  apply wp_create
  · exact fun _ => ⟨SameWakes.refl d, rfl⟩
  · exact ⟨SameWakes.refl d, rfl⟩
  · exact Crash.wp_pure ⟨sameWakes_insert rfl, rfl⟩

/-- The wake of a task, if it has one, is not armed. -/
def NotArmed (d : Store) (id : ℕ) : Prop := ∀ p, d.wakeOf id = some p → p.state ≠ .armed

theorem SameWakes.notArmed {d' : Store} (h : SameWakes d d') (hn : NotArmed d id) :
    NotArmed d' id := fun p hp => hn p ((h.wakeOf id).symm.trans hp)

theorem Fades.notArmed {d' : Store} (h : Fades d d') (hn : NotArmed d id) :
    NotArmed d' id := fun p hp hs => hn p (h.2 id p hp hs) hs

theorem sameWakes_setDone (hn : NotArmed d id) (at_ : ℤ) :
    SameWakes d (d.setDone id at_) :=
  sameWakes_set (fun _ => rfl) (fun _ _ ht hw hs => absurd hs (not_armed_row hn ht hw))

theorem sameWakes_setNextRun (hn : NotArmed d id) (nextRunAt : ℤ) :
    SameWakes d (d.setNextRun id nextRunAt) :=
  sameWakes_set (fun _ => rfl) (fun _ _ ht hw hs => absurd hs (not_armed_row hn ht hw))

theorem sameWakes_bumpNagCount (d : Store) (id : ℕ) : SameWakes d (d.bumpNagCount id) :=
  sameWakes_set (fun _ => rfl) (fun _ _ _ _ _ h => ⟨h.named, h.unfinished, h.awake, h.target⟩)

variable {task : ScheduledTask}

/-- A task that is no reminder moves on by its interval, or is done. -/
theorem harmless_settleRest {now : ℤ} (hn : NotArmed d task.id) :
    Harmless (match task.intervalMs with
      | some n =>
          if 0 < n then Crash.write (·.setNextRun task.id (max now (task.nextRunAt + n)))
          else markDone task.id now
      | none => markDone task.id now) d m := by
  cases task.intervalMs with
  | none => exact harmless_write (sameWakes_setDone hn now)
  | some n =>
      apply Crash.wp_ite
      · exact fun _ => harmless_write (sameWakes_setNextRun hn _)
      · exact fun _ => harmless_write (sameWakes_setDone hn now)

theorem harmless_settleDue (hn : NotArmed d task.id) :
    Harmless (settleDue task now late) d m := by
  unfold settleDue
  cases task.kind with
  | reminder =>
      apply Harmless.bind (harmless_write (sameWakes_setNextRun hn _))
      intro d' hd
      apply Harmless.bind (harmless_write (sameWakes_bumpNagCount d' task.id))
      intro d'' _
      cases task.nagIntervalMs with
      | none => exact harmless_pure
      | some n =>
          apply Crash.wp_ite
          · exact fun _ => harmless_spawnNag task (now + n) late
          · exact fun _ => harmless_pure
  | reminderNag =>
      apply Crash.wp_bind
      apply Crash.wp_read
      apply Harmless.bind (harmless_write (sameWakes_setDone hn now))
      intro d' hd
      split
      · apply Crash.wp_ite
        · intro _
          apply Harmless.bind (harmless_spawnNag _ _ late)
          intro d'' _
          exact harmless_write (sameWakes_bumpNagCount d'' _)
        · exact fun _ => harmless_pure
      · exact harmless_pure
  | heartbeat => exact harmless_settleRest hn
  | custom => exact harmless_settleRest hn

/-! ## Polling -/

theorem isDue_mono (hle : now ≤ late)
    (h : t.isDue now = true) : t.isDue late = true := by
  simp only [ScheduledTask.isDue, Bool.and_eq_true, decide_eq_true_eq] at h ⊢
  refine ⟨⟨h.1.1, h.1.2.trans hle⟩, ?_⟩
  cases hsnooze : t.snoozeUntil with
  | none => rfl
  | some u =>
      have hu := h.2
      rw [hsnooze] at hu
      exact decide_eq_true ((of_decide_eq_true hu).trans hle)

/-- How a part of a poll ends that looked after the task `id`. -/
def Handled (d₀ : Store) (id : ℕ) (d : Store) (m : Memory) : Prop :=
  Live d m ∧ Fades d₀ d ∧ NotArmed d id

theorem wp_notifyRunWake (h : Live d m) (hle : now ≤ late)
    (ht : d.getById task.id = some task) (hdue : task.isDue now = true) :
    Crash.wp (notifyRunWake task late) (fun _ d' m' => Handled d task.id d' m')
      E (CrashPoint d) d m := by
  unfold notifyRunWake
  apply Crash.wp_ite
  · -- a task under another name stands for no armed wake
    intro hname
    apply Crash.wp_pure
    refine ⟨h, Fades.refl d, ?_⟩
    intro p hp hs
    obtain ⟨t, ht', hw⟩ := wakeOf_eq_some.mp hp
    rw [ht] at ht'
    obtain rfl := Option.some.inj ht'
    have hnamed := (h.ok.rows task.id task p ht hw hs).named
    rw [hname] at hnamed
    cases hnamed
  · intro _
    apply Crash.wp_bind
    apply Crash.wp_read
    have hcurrent : (d.getById task.id).filter (fun t => t.isDue late) = some task := by
      rw [ht]
      simp [isDue_mono hle hdue]
    rw [hcurrent]
    have hwake : ∀ {x : Option DurableRunWakePayload}, task.wake = x → d.wakeOf task.id = x := by
      rintro x rfl
      unfold Store.wakeOf
      rw [ht]
      rfl
    dsimp only
    cases hpayload : task.payload with
    | text text =>
        apply Crash.wp_pure
        refine ⟨h, Fades.refl d, ?_⟩
        intro p hp
        have hnone := hwake (x := none) (by simp [ScheduledTask.wake, hpayload])
        rw [hnone] at hp
        cases hp
    | wake payload =>
        have hsome := hwake (x := some payload) (by simp [ScheduledTask.wake, hpayload])
        apply Crash.wp_bind
        apply Crash.wp_read
        by_cases harmed : payload.state = .armed
        · have hpending := h.linked.armed task.id payload hsome harmed
          apply Crash.wp_ite
          · intro hother
            simp [harmed, hpending] at hother
          · intro _
            apply Crash.wp_bind
            apply Crash.wp_mono (wp_fireRunWake h hsome harmed)
            · intro _ d' m' h'
              exact Crash.wp_pure ⟨h'.1, h'.2.1, h'.2.2 task.id⟩
            · exact fun _ _ _ he => he
            · exact fun _ _ hc => hc
        · apply Crash.wp_ite
          · intro _
            apply Crash.wp_pure
            refine ⟨h, Fades.refl d, ?_⟩
            intro p hp
            rw [hsome] at hp
            obtain rfl := Option.some.inj hp
            exact harmed
          · intro hnot
            exact absurd (Or.inl harmed) hnot

theorem wp_onTaskWake {fails : Bool} (h : Live d m)
    (hle : now ≤ late) (ht : d.getById task.id = some task) (hdue : task.isDue now = true) :
    Crash.wp (onTaskWake task late fails) (fun _ d' m' => Handled d task.id d' m')
      (fun _ d' m' => Handled d task.id d' m') (CrashPoint d) d m := by
  unfold onTaskWake
  apply Crash.wp_bind
  apply Crash.wp_mono (wp_notifyRunWake h hle ht hdue)
  · intro own d' m' h'
    apply Crash.wp_ite
    · exact fun _ => Crash.wp_pure h'
    · intro _
      apply Crash.wp_ite
      · exact fun _ => Crash.wp_throw h'
      · intro _
        apply Crash.wp_mono (wp_enqueue_other h'.1)
        · intro _ d'' m'' h''
          exact ⟨h''.1, h'.2.1.trans h''.2, h''.2.notArmed h'.2.2⟩
        · exact fun _ _ _ he => he
        · exact fun d'' m'' hc => ⟨hc.1, h'.2.1.trans hc.2⟩
  · exact fun _ _ _ he => he
  · exact fun _ _ hc => hc

/-- A harmless program keeps what a poll has reached. -/
theorem Harmless.handled {d₀ : Store} {x : AgentM Unit} (h : Handled d₀ id d m)
    (hx : Harmless x d m) :
    Crash.wp x (fun _ d' m' => Handled d₀ id d' m') (fun _ d' m' => Handled d₀ id d' m')
      (CrashPoint d₀) d m := by
  have hkeep : ∀ d', SameWakes d d' → Handled d₀ id d' m :=
    fun d' hd => ⟨hd.live h.1, h.2.1.trans hd.fades, hd.notArmed h.2.2⟩
  apply Crash.wp_mono hx
  · rintro _ d' m' ⟨hd, rfl⟩
    exact hkeep d' hd
  · rintro _ d' m' ⟨hd, rfl⟩
    exact hkeep d' hd
  · rintro d' m' ⟨hd, rfl⟩
    exact ⟨(hkeep d' hd).1.dying, (hkeep d' hd).2.1⟩

theorem wp_handleDue {fails : Bool} (h : Live d m)
    (hle : now ≤ late) (ht : d.getById task.id = some task) (hdue : task.isDue now = true) :
    Crash.wp (handleDue task now late fails) (fun _ d' m' => Handled d task.id d' m')
      (fun _ d' m' => Handled d task.id d' m') (CrashPoint d) d m := by
  unfold handleDue
  apply Crash.wp_bind
  apply Crash.wp_mono (wp_onTaskWake h hle ht hdue)
  · intro _ d' m' h'
    apply Crash.wp_bind
    apply Crash.wp_read
    split
    · exact Crash.wp_pure h'
    · exact Harmless.handled h' (harmless_settleDue h'.2.2)
  · exact fun _ _ _ he => he
  · exact fun _ _ hc => hc

/-- After its turn in a poll, no due wake of the task is armed. -/
theorem wp_dispatch {snapshot : ScheduledTask} {failing : List ℕ} (h : Live d m) (hle : now ≤ late) :
    Crash.wp (dispatch now late failing snapshot)
      (fun _ d' m' => Live d' m' ∧ Fades d d' ∧ ∀ p, d'.wakeOf snapshot.id = some p →
        p.state = .armed → now < p.targetAt)
      E (CrashPoint d) d m := by
  unfold dispatch
  apply Crash.wp_bind
  apply Crash.wp_read
  cases hcurrent : (d.getById snapshot.id).filter (·.isDue now) with
  | none =>
      apply Crash.wp_pure
      refine ⟨h, Fades.refl d, ?_⟩
      intro p hp hs
      obtain ⟨t, ht, hw⟩ := wakeOf_eq_some.mp hp
      have hrow := h.ok.rows snapshot.id t p ht hw hs
      rw [ht] at hcurrent
      by_contra hlate
      have hdue := hrow.isDue now
      rw [decide_eq_true (not_lt.mp hlate)] at hdue
      simp [hdue] at hcurrent
  | some task =>
      obtain ⟨ht, hdue⟩ := Option.filter_eq_some_iff.mp hcurrent
      have hid : task.id = snapshot.id := Table.key_of_get? ht
      rw [← hid] at ht ⊢
      apply Crash.wp_bind
      apply Crash.wp_attempt
      apply Crash.wp_mono (wp_handleDue h hle ht hdue)
      · intro _ d' m' h'
        exact Crash.wp_pure ⟨h'.1, h'.2.1, fun p hp hs => absurd hs (h'.2.2 p hp)⟩
      · intro _ d' m' h'
        apply Crash.wp_bind
        apply Crash.wp_read
        split
        · exact Crash.wp_pure ⟨h'.1, h'.2.1, fun p hp hs => absurd hs (h'.2.2 p hp)⟩
        · rename_i t _
          have hsame := sameWakes_setNextRun h'.2.2 (max t.nextRunAt (late + 60000))
          apply Crash.wp_write
          · exact ⟨h'.1.dying, h'.2.1⟩
          · exact ⟨hsame.live h'.1, h'.2.1.trans hsame.fades,
              fun p hp hs => absurd hs (hsame.notArmed h'.2.2 p hp)⟩
      · exact fun _ _ hc => hc

theorem mem_orderByNextRun {ts : List ScheduledTask} :
    t ∈ orderByNextRun ts ↔ t ∈ ts := by
  unfold orderByNextRun
  exact List.mem_mergeSort

theorem wp_poll (failing : List ℕ)
    (h : Live d m) (hle : now ≤ late) :
    Crash.wp (poll now late failing)
      (fun _ d' m' => Live d' m' ∧ Fades d d' ∧ ∀ id p, d'.wakeOf id = some p →
        p.state = .armed → now < p.targetAt)
      E (CrashPoint d) d m := by
  -- the due wakes that are still armed are ahead in the list
  let I : List ScheduledTask → Store → Memory → Prop := fun xs d' m' =>
    Live d' m' ∧ Fades d d' ∧ ∀ id p, d'.wakeOf id = some p → p.state = .armed →
      p.targetAt ≤ now → ∃ t ∈ xs, t.id = id
  have hloop : ∀ xs d' m', I xs d' m' →
      Crash.wp (Crash.forEach (dispatch now late failing) xs) (fun _ d' m' => I [] d' m')
        E (CrashPoint d) d' m' := by
    intro xs d' m' hI
    apply Crash.wp_forEach (I := I) _ xs hI
    rintro x xs d₁ m₁ ⟨hlive, hfades, hahead⟩
    apply Crash.wp_mono (wp_dispatch hlive hle)
    · rintro _ d₂ m₂ ⟨hlive₂, hfades₂, hx⟩
      refine ⟨hlive₂, hfades.trans hfades₂, ?_⟩
      intro id p hp hs hdue
      obtain ⟨t, ht, rfl⟩ := hahead id p (hfades₂.2 id p hp hs) hs hdue
      rcases List.mem_cons.mp ht with rfl | ht
      · exact absurd hdue (not_le.mpr (hx p hp hs))
      · exact ⟨t, ht, rfl⟩
    · exact fun _ _ _ he => he
    · exact fun _ _ hc => ⟨hc.1, hfades.trans hc.2⟩
  unfold poll
  apply Crash.wp_bind
  apply Crash.wp_read
  apply Crash.wp_mono (hloop (d.listDue now) d m ⟨h, Fades.refl d, ?_⟩)
  · rintro _ d' m' ⟨hlive, hfades, hnone⟩
    refine ⟨hlive, hfades, ?_⟩
    intro id p hp hs
    by_contra hdue
    obtain ⟨t, ht, -⟩ := hnone id p hp hs (not_lt.mp hdue)
    cases ht
  · exact fun _ _ _ he => he
  · exact fun _ _ hc => hc
  · intro id p hp hs hdue
    obtain ⟨t, ht, hw⟩ := wakeOf_eq_some.mp hp
    have hrow := h.ok.rows id t p ht hw hs
    refine ⟨t, ?_, Table.key_of_get? ht⟩
    apply mem_orderByNextRun.mpr
    apply List.mem_filter.mpr
    refine ⟨Table.mem_of_get? ht, ?_⟩
    rw [hrow.isDue now]
    exact decide_eq_true hdue

/-! ## Arming, draining, recovering -/

theorem wp_drain (h : Live d m) :
    Crash.wp drain (fun _ d' m' => Live d' m' ∧ Fades d d') E (CrashPoint d) d m := by
  unfold drain
  apply Crash.wp_bind
  apply Crash.wp_read
  cases hqueue : m.inbound with
  | nil => exact Crash.wp_pure ⟨h, Fades.refl d⟩
  | cons message rest =>
      apply Crash.wp_bind
      apply Crash.wp_write
      · exact ⟨h.dying, Fades.refl d⟩
      apply Crash.wp_modify
      refine ⟨⟨⟨h.ok.rows, h.ok.one⟩, ⟨h.linked.armed, h.linked.pending⟩, ?_⟩,
        Fades.of_wakeOf (fun _ => rfl)⟩
      intro id
      have hcount := h.counted id
      rw [hqueue] at hcount
      show wakeCount ((d.history ++ [message]) ++ rest) id = firedCount d id
      rw [List.append_assoc]
      exact hcount

/-- A new armed wake, when there is none. -/
theorem live_armed (request : WakeRequest) (suffix : String) (h : Live d m)
    (hnone : m.pendingRunWake = none) :
    Live (d.insert (request.task suffix))
      { m with pendingRunWake := some ⟨d.tasks.next, request.payload⟩ } ∧
    Keeps d (d.insert (request.task suffix)) := by
  have hnot : ∀ id, NotArmed d id := by
    intro id p hp hs
    have hpending := h.linked.armed id p hp hs
    rw [hnone] at hpending
    cases hpending
  have hwakeOf : ∀ id, (d.insert (request.task suffix)).wakeOf id =
      if id = d.tasks.next then some request.payload else d.wakeOf id := by
    intro id
    unfold Store.wakeOf
    rw [getById_insert]
    split
    · rfl
    · rfl
  have hfresh : d.wakeOf d.tasks.next = none := by
    unfold Store.wakeOf
    rw [getById_next]
    rfl
  refine ⟨⟨⟨?_, ?_⟩, ⟨?_, ?_⟩, ?_⟩, ?_⟩
  · intro id t p ht hw hs
    rw [getById_insert] at ht
    split at ht
    · obtain rfl := Option.some.inj ht
      obtain rfl := Option.some.inj hw
      refine ⟨?_, rfl, rfl, rfl⟩
      show isRunWakeTaskName (RUN_WAKE_TASK_PREFIX ++ "-" ++ _ ++ "-" ++ suffix) = true
      unfold isRunWakeTaskName
      simp only [String.toList_append, List.append_assoc]
      exact List.isPrefixOf_iff_prefix.mpr (List.prefix_append _ _)
    · exact h.ok.rows id t p ht hw hs
  · intro i j p q hp hps hq hqs
    rw [hwakeOf] at hp hq
    split at hp
    · split at hq
      · rename_i hi hj
        exact hi.trans hj.symm
      · exact absurd hqs (hnot j q hq)
    · exact absurd hps (hnot i p hp)
  · intro id p hp hs
    rw [hwakeOf] at hp
    split at hp
    · rename_i hid
      obtain rfl := Option.some.inj hp
      rw [hid]
    · exact absurd hs (hnot id p hp)
  · intro q hq
    obtain rfl := Option.some.inj hq
    refine ⟨?_, rfl⟩
    rw [hwakeOf, if_pos rfl]
  · intro id
    have hcount := h.counted id
    show wakeCount (d.history ++ m.inbound) id = _
    rw [hcount]
    unfold firedCount
    rw [hwakeOf]
    by_cases hid : id = d.tasks.next
    · rw [if_pos hid, hid, hfresh]
      rfl
    · rw [if_neg hid]
  · intro id p hp
    refine ⟨p, ?_, rfl, fun _ => rfl⟩
    rw [hwakeOf, if_neg]
    · exact hp
    · rintro rfl
      rw [hfresh] at hp
      cases hp

theorem wp_armRunWake {request : WakeRequest} {suffix : String} {now : ℤ} (h : Live d m) :
    Crash.wp (armRunWake request suffix now) (fun _ d' m' => Live d' m' ∧ Keeps d d') E
      (fun d' m' => Dying d' m' ∧ Keeps d d') d m := by
  unfold armRunWake
  apply Crash.wp_bind
  apply Crash.wp_read
  apply Crash.wp_ite
  · exact fun _ => Crash.wp_pure ⟨h, Keeps.refl d⟩
  · intro _
    apply Crash.wp_bind
    apply Crash.wp_mono (wp_preemptRunWake h)
    · rintro _ d' m' ⟨hlive, hfades, rfl, -⟩
      apply Crash.wp_bind
      apply Crash.wp_attempt
      apply wp_create
      · exact fun _ => Crash.wp_pure ⟨hlive, hfades.1⟩
      · exact ⟨hlive.dying, hfades.1⟩
      · obtain ⟨harmed, hkeeps⟩ := live_armed request suffix hlive rfl
        apply Crash.wp_bind
        apply Crash.wp_modify
        exact Crash.wp_pure ⟨harmed, hfades.1.trans hkeeps⟩
    · exact fun _ _ _ he => he
    · exact fun _ _ hc => ⟨hc.1, hc.2.1⟩

theorem wp_schedule {opts : CreateTaskOpts} {text : String} (htext : opts.payload = .text text)
    {P : ℕ → Store → Memory → Prop} (h : Live d m)
    (hP : ∀ id d', Live d' m → Fades d d' → P id d' m) :
    Crash.wp (create opts) P (fun _ d' m' => Live d' m' ∧ Fades d d') (CrashPoint d) d m := by
  have hsame : SameWakes d (d.insert opts) := sameWakes_insert htext
  apply wp_create
  · exact fun _ => ⟨h, Fades.refl d⟩
  · exact ⟨h.dying, Fades.refl d⟩
  · exact hP d.tasks.next (d.insert opts) (hsame.live h) hsame.fades

theorem mem_reserved :
    t ∈ d.reserved ↔ t ∈ d.tasks.rows ∧ t.doneAt = none ∧ isRunWakeTaskName t.name = true := by
  unfold Store.reserved Store.list
  rw [List.mem_filter, mem_orderByNextRun]
  simp

theorem armedPayload_eq_some :
    armedPayload t = some p ↔ t.wake = some p ∧ p.state = .armed := by
  unfold armedPayload ScheduledTask.wake
  cases t.payload with
  | text text => simp
  | wake q =>
      dsimp only
      split
      · rename_i hs
        constructor
        · intro h
          obtain rfl := Option.some.inj h
          exact ⟨rfl, hs⟩
        · exact fun h => h.1
      · rename_i hs
        constructor
        · intro h
          cases h
        · rintro ⟨h, hp⟩
          obtain rfl := Option.some.inj h
          exact absurd hp hs

theorem mem_armedNewestFirst {ts : List ScheduledTask} :
    (t, p) ∈ armedNewestFirst ts ↔ t ∈ ts ∧ t.wake = some p ∧ p.state = .armed := by
  unfold armedNewestFirst
  rw [List.mem_mergeSort, List.mem_filterMap]
  constructor
  · rintro ⟨u, hu, hmap⟩
    obtain ⟨q, hq, heq⟩ := Option.map_eq_some_iff.mp hmap
    obtain ⟨rfl, rfl⟩ := Prod.mk.inj heq
    exact ⟨hu, armedPayload_eq_some.mp hq⟩
  · rintro ⟨ht, hp⟩
    exact ⟨t, ht, by rw [armedPayload_eq_some.mpr hp]; rfl⟩

theorem mem_armed_reserved (hd : StoreOk d) :
    (t, p) ∈ armedNewestFirst d.reserved ↔
      d.getById t.id = some t ∧ t.wake = some p ∧ p.state = .armed := by
  rw [mem_armedNewestFirst, mem_reserved]
  constructor
  · rintro ⟨⟨ht, -, -⟩, hw, hs⟩
    exact ⟨Table.get?_key ht, hw, hs⟩
  · rintro ⟨ht, hw, hs⟩
    have hrow := hd.rows t.id t p ht hw hs
    exact ⟨⟨Table.mem_of_get? ht, hrow.unfinished, hrow.named⟩, hw, hs⟩

theorem armed_reserved_tail (hd : StoreOk d) {e : ScheduledTask × DurableRunWakePayload}
    {rest : List (ScheduledTask × DurableRunWakePayload)}
    (h : armedNewestFirst d.reserved = e :: rest) : rest = [] := by
  have hsub : ∀ x ∈ armedNewestFirst d.reserved, x = e := by
    intro x hx
    have hx' := (mem_armed_reserved hd (t := x.1) (p := x.2)).mp hx
    have he := (mem_armed_reserved hd (t := e.1) (p := e.2)).mp (by rw [h]; exact List.mem_cons_self)
    have hid : x.1.id = e.1.id := hd.one x.1.id e.1.id x.2 e.2
      (wakeOf_eq_some.mpr ⟨x.1, hx'.1, hx'.2.1⟩) hx'.2.2
      (wakeOf_eq_some.mpr ⟨e.1, he.1, he.2.1⟩) he.2.2
    have htask : x.1 = e.1 := by
      have hget := hx'.1
      rw [hid, he.1] at hget
      exact (Option.some.inj hget).symm
    have hpayload : x.2 = e.2 := by
      have hw := hx'.2.1
      rw [htask, he.2.1] at hw
      exact (Option.some.inj hw).symm
    exact Prod.ext htask hpayload
  have hnodup : (armedNewestFirst d.reserved).Nodup := by
    unfold armedNewestFirst
    rw [List.nodup_mergeSort]
    apply List.Nodup.filterMap
    · intro t u x ht hu
      obtain ⟨p, -, rfl⟩ := Option.map_eq_some_iff.mp ht
      obtain ⟨q, -, heq⟩ := Option.map_eq_some_iff.mp hu
      exact (Prod.mk.inj heq).1.symm
    · unfold Store.reserved Store.list orderByNextRun
      apply List.Nodup.filter
      rw [List.nodup_mergeSort]
      exact List.Nodup.of_map ScheduledTask.id d.tasks.nodup
  cases rest with
  | nil => rfl
  | cons x rest =>
      rw [h] at hsub hnodup
      have hx : x = e := hsub x (by simp)
      rw [hx] at hnodup
      simp at hnodup

theorem wp_recoverRunWake {now : ℤ} (hd : StoreOk d)
    (hcounted : Counted d []) :
    Crash.wp (recoverRunWake now) (fun _ d' m' => Live d' m' ∧ Fades d d') E (CrashPoint d) d
      Memory.fresh := by
  let I : List ScheduledTask → Store → Memory → Prop := fun xs d' m' =>
    SameWakes d d' ∧ m' = Memory.fresh ∧ ∀ t ∈ xs, NotArmed d t.id
  have hcrash : ∀ d', SameWakes d d' → CrashPoint d d' Memory.fresh := fun d' h =>
    ⟨⟨h.storeOk hd, h.counted hcounted⟩, h.fades⟩
  have hretire : ∀ xs d' m', I xs d' m' →
      Crash.wp (Crash.forEach (fun t => markDone t.id now) xs) (fun _ d' m' => I [] d' m')
        E (CrashPoint d) d' m' := by
    intro xs d' m' hI
    apply Crash.wp_forEach (I := I) _ xs hI
    rintro x xs d₁ m₁ ⟨hsame, rfl, hxs⟩
    apply Crash.wp_write (hcrash d₁ hsame)
    have hx := hsame.notArmed (hxs x List.mem_cons_self)
    exact ⟨hsame.trans (sameWakes_setDone hx now), rfl, fun t ht => hxs t (List.mem_cons_of_mem x ht)⟩
  have hinvalid : ∀ t ∈ d.reserved.filter (fun t => (armedPayload t).isNone), NotArmed d t.id := by
    intro t ht p hp hs
    obtain ⟨hres, hnone⟩ := List.mem_filter.mp ht
    obtain ⟨u, hu, hw⟩ := wakeOf_eq_some.mp hp
    have hget : d.getById t.id = some t := Table.get?_key (mem_reserved.mp hres).1
    rw [hget] at hu
    obtain rfl := Option.some.inj hu
    rw [armedPayload_eq_some.mpr ⟨hw, hs⟩] at hnone
    cases hnone
  unfold recoverRunWake
  apply Crash.wp_bind
  apply Crash.wp_read
  apply Crash.wp_bind
  apply Crash.wp_mono (hretire _ d Memory.fresh ⟨SameWakes.refl d, rfl, hinvalid⟩)
  · rintro _ d' m' ⟨hsame, rfl, -⟩
    cases harmed : armedNewestFirst d.reserved with
    | nil =>
        apply Crash.wp_pure
        refine ⟨⟨hsame.storeOk hd, ⟨?_, nofun⟩, hsame.counted hcounted⟩, hsame.fades⟩
        intro id p hp hs
        rw [hsame.wakeOf] at hp
        obtain ⟨t, ht, hw⟩ := wakeOf_eq_some.mp hp
        have hid : t.id = id := Table.key_of_get? ht
        have hmem := (mem_armed_reserved hd).mpr ⟨hid ▸ ht, hw, hs⟩
        rw [harmed] at hmem
        cases hmem
    | cons current stale =>
        obtain rfl := armed_reserved_tail hd harmed
        have hcurrent := (mem_armed_reserved hd (t := current.1) (p := current.2)).mp
          (by rw [harmed]; exact List.mem_cons_self)
        have hwake : d.wakeOf current.1.id = some current.2 :=
          wakeOf_eq_some.mpr ⟨current.1, hcurrent.1, hcurrent.2.1⟩
        apply Crash.wp_bind
        apply Crash.wp_pure
        apply Crash.wp_modify
        refine ⟨⟨hsame.storeOk hd, ⟨?_, ?_⟩, hsame.counted hcounted⟩, hsame.fades⟩
        · intro id p hp hs
          rw [hsame.wakeOf] at hp
          have hid := hd.one id current.1.id p current.2 hp hs hwake hcurrent.2.2
          subst hid
          rw [hwake] at hp
          obtain rfl := Option.some.inj hp
          rfl
        · intro q hq
          obtain rfl := Option.some.inj hq
          rw [hsame.wakeOf]
          exact ⟨hwake, hcurrent.2.2⟩
  · exact fun _ _ _ he => he
  · exact fun _ _ hc => hc

end Programs

end Elpis.Agent
