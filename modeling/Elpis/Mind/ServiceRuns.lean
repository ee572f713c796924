import Elpis.Mind.Closing

/-!
# Reminders in every run of the service

Adding, snoozing and firing keep each pending reminder with an open task of its own. Only
`addReminder` does not ask whether its item is closed.
-/

namespace Elpis.Mind

open Elpis.Lib Elpis.Agent Elpis.Agent.Tasks

/-- What a call does that is about no item in particular. -/
structure Keeps (s s' : Service) : Prop where
  linked : Linked s'
  settled : Settled s → Settled s'

variable {s : Service}

theorem Keeps.refl (h : Linked s) : Keeps s s := ⟨h, fun hs => hs⟩

theorem Ended.keeps {Q : ℕ → Prop} {s s' : Service} (h : Ended Q s s') (hl : Linked s) : Keeps s s' :=
  ⟨h.linked hl, h.settled⟩

/-! ## Adding -/

theorem wp_createTask (opts : CreateTaskOpts) (d : Agent.Store) :
    Tx.wp (Tasks.create opts) (fun t d' => d' = d.insert opts ∧ t.id = d.tasks.next) (fun _ d' => d' = d) d := by
  unfold Tasks.create
  simp only [Tx.wp_bind, Tx.wp_read, Tx.wp_ensure, Tx.wp_write, Tx.wp_pure]
  exact ⟨fun _ => ⟨trivial, rfl⟩, fun _ => trivial⟩

theorem wp_createReminderRecord (itemId : MindId) (taskId : ℕ) (fireAt : ℚ) (channelId : Option String)
    (createdBy : String) (clock : Readings) (db : MindDb) :
    Tx.wp (createReminderRecord itemId taskId fireAt channelId createdBy clock)
      (fun _ db' => db'.items = db.items ∧ (∃ row, db.items.get? itemId = some row) ∧
        ∃ n, ∀ r, r ∈ db'.reminders ↔ r ∈ db.reminders ∨
          r = ⟨n, itemId, taskId, fireAt, channelId, createdBy, clock.now, none, none⟩)
      (fun _ db' => db' = db) db := by
  unfold createReminderRecord requireItem insertReminder event
  simp only [Tx.wp_bind, Tx.wp_read, Tx.wp_require, Tx.wp_ensure, Tx.wp_write, Tx.wp_pure]
  refine ⟨?_, fun _ => trivial⟩
  intro row hrow
  refine ⟨fun _ => ⟨fun _ => ⟨fun _ => ⟨fun _ => ?_, fun _ => trivial⟩, fun _ => trivial⟩, fun _ => trivial⟩, fun _ => trivial⟩
  exact ⟨rfl, ⟨row, hrow⟩, db.reminders.next, fun r => AutoTable.mem_push⟩

theorem Linked.add {db : MindDb} {opts : CreateTaskOpts} {new : ReminderRow} (hl : Linked s)
    (hitems : db.items = s.mind.items) (hitem : ∃ row, s.mind.items.get? new.itemId = some row)
    (htask : new.scheduledTaskId = s.tasks.tasks.next)
    (hmem : ∀ r, r ∈ db.reminders ↔ r ∈ s.mind.reminders ∨ r = new) : Linked ⟨db, s.tasks.insert opts⟩ := by
  have hold : ∀ r ∈ s.mind.reminders, r.scheduledTaskId ≠ s.tasks.tasks.next :=
    fun r hr => (Nat.lt_succ_of_le (hl.given r hr)).ne
  refine ⟨?_, ?_, ?_, ?_⟩
  · intro r hr
    show ∃ row, db.items.get? r.itemId = some row
    rw [hitems]
    rcases (hmem r).mp hr with hr | rfl
    · exact hl.item r hr
    · exact hitem
  · intro r hr
    show r.scheduledTaskId ≤ s.tasks.tasks.next
    rcases (hmem r).mp hr with hr | rfl
    · exact (hl.given r hr).trans (Nat.le_succ _)
    · exact htask.le
  · intro r hr r' hr' heq
    rcases (hmem r).mp hr with hr | rfl
    · rcases (hmem r').mp hr' with hr' | rfl
      · exact hl.single r hr r' hr' heq
      · exact absurd (heq.trans htask) (hold r hr)
    · rcases (hmem r').mp hr' with hr' | rfl
      · exact absurd (heq.symm.trans htask) (hold r' hr')
      · rfl
  · intro r hr hpending
    show ∃ t, (s.tasks.insert opts).getById r.scheduledTaskId = some t ∧ t.doneAt = none
    rw [getById_insert]
    rcases (hmem r).mp hr with hr | rfl
    · rw [if_neg (hold r hr)]
      exact hl.task r hr hpending
    · rw [if_pos htask]
      exact ⟨_, rfl, rfl⟩

/-- A task that comes and goes leaves every reminder its own. -/
theorem Linked.withdraw {opts : CreateTaskOpts} (hl : Linked s) :
    Linked (setTasks s (deleteTask (s.tasks.insert opts) s.tasks.tasks.next)) := by
  refine ⟨hl.item, fun r hr => (hl.given r hr).trans (Nat.le_succ _), hl.single, ?_⟩
  intro r hr hpending
  have hold : r.scheduledTaskId ≠ s.tasks.tasks.next := (Nat.lt_succ_of_le (hl.given r hr)).ne
  show ∃ t, (deleteTask (s.tasks.insert opts) _).getById r.scheduledTaskId = some t ∧ t.doneAt = none
  rw [getById_delete, if_neg hold, getById_insert, if_neg hold]
  exact hl.task r hr hpending

/-- The item of the reminder is not closed. -/
def OpenItem (s : Service) (itemId : MindId) : Prop :=
  ∀ row, s.mind.items.get? itemId = some row → row.status.closed = false

theorem wp_futureTime {fireAt : Js.Num} {present : Time} {error : ServiceError} {Q : ℚ → Service → Prop}
    {E : ServiceError → Service → Prop} (hQ : ∀ q, Q q s) (hE : ∀ e, E e s) :
    Tx.wp (futureTime fireAt present error) Q E s := by
  unfold futureTime
  cases fireAt with
  | nonFinite => exact Tx.wp_throw.mpr (hE _)
  | finite q =>
      simp only [Tx.wp_bind, Tx.wp_ensure, Tx.wp_pure]
      exact ⟨fun _ => hQ q, fun _ => hE _⟩

theorem keeps_addReminder {itemId : MindId} {fireAt : Js.Num} {actor : String} {channelId : Option String}
    {r : Reading} (hl : Linked s) : Tx.wp (Service.addReminder itemId fireAt actor channelId r)
      (fun _ s' => Linked s' ∧ (OpenItem s itemId → Settled s → Settled s')) (fun _ s' => Keeps s s') s := by
  have hsame := Keeps.refl hl
  unfold Service.addReminder
  simp only [Tx.wp_bind, wp_inStore, requireItem, Tx.wp_read, Tx.wp_require, Tx.wp_ensure]
  refine ⟨fun item hitem => ⟨fun _ => ?_, fun _ => hsame⟩, fun _ => hsame⟩
  refine wp_futureTime (fun q => ?_) (fun _ => hsame)
  rw [wp_inScheduler]
  refine Tx.wp_mono ?_ ?_ (wp_createTask _ s.tasks)
  · rintro task d ⟨rfl, hid⟩
    rw [Tx.wp_attempt, wp_inStore]
    refine Tx.wp_mono ?_ ?_ (wp_createReminderRecord itemId task.id q channelId actor r.clock s.mind)
    · rintro row db ⟨hitems, hknown, n, hmem⟩
      refine Tx.wp_pure.mpr ⟨hl.add hitems hknown hid hmem, ?_⟩
      intro hopen hs x hx hpending y hy
      change db.items.get? x.itemId = some y at hy
      rw [hitems] at hy
      rcases (hmem x).mp hx with hx | rfl
      · exact hs x hx hpending y hy
      · exact hopen y hy
    · rintro e db rfl
      simp only [Tx.wp_bind, wp_inScheduler, Tasks.delete, Tx.wp_read, Tx.wp_write, Tx.wp_pure, Tx.wp_throw]
      rw [hid]
      exact ⟨hl.withdraw, fun hs => hs⟩
  · rintro e d rfl
    exact hsame

/-! ## Snoozing -/

theorem wp_snoozeTask (id : ℕ) (q : ℚ) (d : Agent.Store) :
    Tx.wp (Tasks.update id (snoozePatch q)) (fun _ d' => d'.tasks.seq = d.tasks.seq ∧
        ∀ n t, d.getById n = some t → t.doneAt = none → ∃ t', d'.getById n = some t' ∧ t'.doneAt = none)
      (fun _ d' => d' = d) d := by
  have hsame : ∀ n t, d.getById n = some t → t.doneAt = none → ∃ t', d.getById n = some t' ∧ t'.doneAt = none :=
    fun n t ht hopen => ⟨t, ht, hopen⟩
  have hpatch : snoozePatch q ≠ Patch.empty := by simp [snoozePatch, Patch.empty]
  unfold Tasks.update
  simp only [Tx.wp_bind, Tx.wp_read]
  cases hrow : d.getById id with
  | none => exact Tx.wp_pure.mpr ⟨rfl, hsame⟩
  | some current =>
      simp only [if_neg hpatch, Tx.wp_bind, Tx.wp_ensure]
      refine ⟨fun _ => ?_, fun _ => trivial⟩
      show Tx.wp (pure ()) _ _ d
      simp only [Tx.wp_pure, Tx.wp_write, Tx.wp_read]
      refine ⟨rfl, ?_⟩
      intro n t ht hopen
      rw [getById_set]
      by_cases heq : n = id
      · rw [if_pos heq, ← heq, ht]
        exact ⟨_, rfl, hopen⟩
      · rw [if_neg heq]
        exact ⟨t, ht, hopen⟩

/-- Reminders that only get another time, over tasks that stay open. -/
theorem Keeps.retimed {s s' : Service} (hl : Linked s) (hitems : s'.mind.items = s.mind.items)
    (hseq : s'.tasks.tasks.seq = s.tasks.tasks.seq)
    (hback : ∀ r' ∈ s'.mind.reminders, ∃ r ∈ s.mind.reminders, r.id = r'.id ∧ r.itemId = r'.itemId ∧
      r.scheduledTaskId = r'.scheduledTaskId ∧ r.pending = r'.pending)
    (htasks : ∀ n t, s.tasks.getById n = some t → t.doneAt = none →
      ∃ t', s'.tasks.getById n = some t' ∧ t'.doneAt = none) : Keeps s s' := by
  refine ⟨⟨?_, ?_, ?_, ?_⟩, ?_⟩
  · intro r' hr'
    obtain ⟨r, hr, -, hitem, -⟩ := hback r' hr'
    rw [hitems, ← hitem]
    exact hl.item r hr
  · intro r' hr'
    obtain ⟨r, hr, -, -, htask, -⟩ := hback r' hr'
    rw [hseq, ← htask]
    exact hl.given r hr
  · intro r₁ hr₁ r₂ hr₂ heq
    obtain ⟨r, hr, hid, -, htask, -⟩ := hback r₁ hr₁
    obtain ⟨r', hr', hid', -, htask', -⟩ := hback r₂ hr₂
    have hsame := hl.single r hr r' hr' (htask.trans (heq.trans htask'.symm))
    exact Table.eq_of_key hr₁ hr₂ (hid.symm.trans ((congrArg ReminderRow.id hsame).trans hid'))
  · intro r' hr' hpending
    obtain ⟨r, hr, -, -, htask, hsame⟩ := hback r' hr'
    obtain ⟨t, ht, hopen⟩ := hl.task r hr (hsame.trans hpending)
    rw [← htask]
    exact htasks _ t ht hopen
  · intro hs r' hr' hpending row hrow
    obtain ⟨r, hr, -, hitem, -, hsame⟩ := hback r' hr'
    rw [hitems, ← hitem] at hrow
    exact hs r hr (hsame.trans hpending) row hrow

theorem keeps_snoozeReminder {reminderId : ℕ} {fireAt : Js.Num} {actor : String} {r : Reading}
    (hl : Linked s) : Tx.wp (Service.snoozeReminder reminderId fireAt actor r) (fun _ s' => Keeps s s')
      (fun _ s' => Keeps s s') s := by
  have hsame := Keeps.refl hl
  unfold Service.snoozeReminder
  rw [Tx.wp_bind]
  refine wp_futureTime (fun q => ?_) (fun _ => hsame)
  simp only [Tx.wp_bind, Tx.wp_read, Tx.wp_require, Tx.wp_ensure]
  refine ⟨fun row hrow => ⟨fun _ => ?_, fun _ => hsame⟩, fun _ => hsame⟩
  rw [wp_inScheduler]
  refine Tx.wp_mono ?_ ?_ (wp_snoozeTask row.scheduledTaskId q s.tasks)
  · rintro updated d ⟨hseq, htasks⟩
    have hmissing : Keeps s (setTasks s d) :=
      Keeps.retimed hl rfl hseq (fun r' hr' => ⟨r', hr', rfl, rfl, rfl, rfl⟩) htasks
    refine ⟨fun _ => ?_, fun _ => hmissing⟩
    rw [wp_inStore]
    unfold updateReminderRecord event
    simp only [Tx.wp_bind, Tx.wp_read, Tx.wp_require, Tx.wp_write]
    refine ⟨fun found hfound => ?_, fun _ => hmissing⟩
    refine Keeps.retimed hl rfl hseq ?_ htasks
    intro r' hr'
    obtain ⟨r₀, hr₀, rfl⟩ := AutoTable.mem_update.mp hr'
    refine ⟨r₀, hr₀, ?_⟩
    split
    · exact ⟨rfl, rfl, rfl, rfl⟩
    · exact ⟨rfl, rfl, rfl, rfl⟩
  · rintro e d rfl
    exact hsame

/-! ## Firing -/

/-- The reminder behind a task that wakes is over. -/
theorem wp_markFired (n : ℕ) (clock : Readings) (hl : Linked s) :
    Tx.wp (inStore (markReminderFiredByTask n clock)) (fun _ s' => s'.tasks = s.tasks ∧ Keeps s s' ∧
      ∀ r ∈ s'.mind.reminders, r.pending = true → r.scheduledTaskId ≠ n) (fun _ _ => False) s := by
  rw [wp_inStore]
  unfold markReminderFiredByTask
  simp only [Tx.wp_bind, Tx.wp_read]
  cases hfind : s.mind.reminders.rows.find? (fun r => decide (r.scheduledTaskId = n) && r.pending) with
  | none =>
      simp only [Tx.onSome, Tx.wp_pure]
      refine ⟨rfl, Keeps.refl hl, ?_⟩
      intro r hr hpending heq
      have hnone := List.find?_eq_none.mp hfind r hr
      simp [heq, hpending] at hnone
  | some row =>
      have hrow : row ∈ s.mind.reminders := List.mem_of_find?_eq_some hfind
      have htask : row.scheduledTaskId = n := by
        have hfound := List.find?_some hfind
        simp only [Bool.and_eq_true, decide_eq_true_eq] at hfound
        exact hfound.1
      simp only [Tx.onSome, Tx.wp_bind, Tx.wp_write, event, Tx.wp_pure]
      have hback : ∀ r' ∈ s.mind.reminders.update (fun r => decide (r.id = row.id))
          (fun r => { r with firedAt := some clock.now }) (fun _ => rfl), ∃ r ∈ s.mind.reminders, r.id = r'.id ∧
            r.itemId = r'.itemId ∧ r.scheduledTaskId = r'.scheduledTaskId ∧
            (r' = r ∧ r.id ≠ row.id ∨ r.id = row.id ∧ r'.pending = false) := by
        intro r' hr'
        obtain ⟨r, hr, rfl⟩ := AutoTable.mem_update.mp hr'
        by_cases hid : r.id = row.id
        · rw [if_pos (decide_eq_true hid)]
          exact ⟨r, hr, rfl, rfl, rfl, Or.inr ⟨hid, by simp [ReminderRow.pending]⟩⟩
        · rw [if_neg (by simpa using hid)]
          exact ⟨r, hr, rfl, rfl, rfl, Or.inl ⟨rfl, hid⟩⟩
      refine ⟨rfl, Ended.keeps (Q := (· = row.id)) ⟨rfl, rfl, ?_, ?_, ?_, fun _ _ => rfl⟩ hl, ?_⟩
      · intro r' hr'
        obtain ⟨r, hr, hid, hitem, htask', ⟨rfl, -⟩ | ⟨hQ, -⟩⟩ := hback r' hr'
        · exact ⟨r', hr, rfl, rfl, rfl, Or.inl rfl⟩
        · exact ⟨r, hr, hid, hitem, htask', Or.inr hQ⟩
      · intro r' hr' hQ
        obtain ⟨r, -, hid, -, -, ⟨rfl, hne⟩ | ⟨-, hspent⟩⟩ := hback r' hr'
        · exact absurd hQ hne
        · exact hspent
      · intro r hr hne
        refine AutoTable.mem_update.mpr ⟨r, hr, ?_⟩
        simp [hne]
      · intro r' hr' hpending heq
        obtain ⟨r, hr, -, -, htask', ⟨rfl, hne⟩ | ⟨-, hspent⟩⟩ := hback r' hr'
        · exact hne (congrArg ReminderRow.id (hl.single r' hr row hrow (heq.trans htask.symm)))
        · exact Bool.noConfusion (hspent.symm.trans hpending)

/-- A step of the scheduler with a task that no pending reminder is about. -/
theorem Keeps.framed {d : Agent.Store} {id : ℕ} (hl : Linked s)
    (hfree : ∀ r ∈ s.mind.reminders, r.pending = true → r.scheduledTaskId ≠ id) (hf : Frame id s.tasks d) :
    Keeps s (setTasks s d) := by
  refine ⟨⟨hl.item, fun r hr => (hl.given r hr).trans hf.seq, hl.single, ?_⟩, fun hs => hs⟩
  intro r hr hpending
  obtain ⟨t, ht, hopen⟩ := hl.task r hr hpending
  have htimes := hf.times r.scheduledTaskId (hfree r hr hpending) (hl.given r hr)
  rw [times, times, ht] at htimes
  obtain ⟨t', ht', heq⟩ := Option.map_eq_some_iff.mp htimes
  simp only [Prod.mk.injEq] at heq
  exact ⟨t', ht', heq.2.2.trans hopen⟩

theorem Keeps.trans {s s' s'' : Service} (h : Keeps s s') (h' : Keeps s' s'') : Keeps s s'' :=
  ⟨h'.linked, fun hs => h'.settled (h.settled hs)⟩

theorem keeps_wake {id : ℕ} {now : ℤ} {fails : Option String} {named caught : ℤ} {clock : Readings}
    (hl : Linked s) : Tx.wp (Service.wake id now fails named caught clock) (fun _ s' => Keeps s s')
      (fun _ s' => Keeps s s') s := by
  unfold Service.wake
  simp only [Tx.wp_bind, Tx.wp_read]
  cases hdue : (s.tasks.getById id).filter (fun t => t.isDue now) with
  | none => exact Tx.wp_pure.mpr (Keeps.refl hl)
  | some task =>
      rw [Tx.wp_bind]
      refine Tx.wp_mono ?_ (fun _ _ h => h.elim) (wp_markFired task.id clock hl)
      rintro _ s₁ ⟨-, hkeeps, hfree⟩
      rw [Tx.wp_bind, Tx.wp_attempt, wp_inScheduler]
      refine Tx.wp_mono ?_ ?_ (frame_handleRest task now ⟨[], fails, named, caught⟩ s₁.tasks)
      · intro _ d hframe
        exact Tx.wp_pure.mpr (hkeeps.trans (Keeps.framed hkeeps.linked hfree hframe))
      · intro error d hframe
        refine Tx.wp_write.mpr (hkeeps.trans (Keeps.framed hkeeps.linked hfree ?_))
        exact trans_of (Frame task.id) hframe (retry_frame task.id caught d)

/-! ## Creating, and what is passed on -/

theorem Keeps.quiet {db : MindDb} (hl : Linked s) (hq : Quiet (fun _ => False) s.mind db) :
    Keeps s (setMind s db) := by
  refine ⟨hl.quiet hq, ?_⟩
  intro hs r hr hpending row hrow
  cases hclosed : row.status.closed with
  | false => rfl
  | true => exact (hs.quiet hl hq r hr hpending row hrow hclosed).elim

/-- The status that a new item gets does not close it. -/
def CreateMindItem.opens (opts : CreateMindItem) : Prop :=
  ∀ status, assertStatus (opts.status.getD "open") = .ok status → status.closed = false

/-- The item of a call of `create` has the status that the call asks for. -/
theorem create_ok {u : Js.Unicode} {opts : CreateMindItem} {draws : List ℕ} {clock : Readings}
    {db db' : MindDb} {d : Option MindDetail} (h : Mind.create u opts draws clock db = (.ok d, db')) :
    ∃ row, db'.items.get? row.id = some row ∧ d = db'.get clock.reading row.id ∧
      assertStatus (opts.status.getD "open") = .ok row.status := by
  simp only [Mind.create, Tx.bind_ok, assertText_ok, Tx.ofExcept_ok, Tx.onSome_ok, requireId_ok,
    Tx.ensure_ok, Tx.transaction_ok, Tx.read_ok] at h
  obtain ⟨_, _, ⟨_, rfl⟩, kind, _, ⟨_, rfl⟩, status, _, ⟨hstatus, rfl⟩, priority, _, ⟨_, rfl⟩, _, _,
    ⟨_, rfl⟩, dueAt, _, ⟨_, rfl⟩, _, db₁, -, _, db₂, -, _, _, ⟨_, rfl⟩, _, _, ⟨_, rfl⟩, _,
    _, ⟨_, rfl⟩, tags, _, ⟨_, rfl⟩, newId, _, hbody, rfl, rfl⟩ := h
  obtain ⟨-, -, -, fresh, ts, db₃, w, hloop, rfl⟩ := createBody_ok hbody
  have hitems := Tx.forEach_inv (I := fun s : MindDb => s.items = db₂.items.insert _ fresh) ?_ rfl hloop
  · have hrow : ∃ row, db₃.items.get? newId = some row ∧ row.id = newId ∧ row.status = status := by
      rw [hitems, Table.get?_insert, if_pos rfl]
      exact ⟨_, rfl, rfl, rfl⟩
    obtain ⟨row, hrow, rfl, rfl⟩ := hrow
    exact ⟨row, hrow, rfl, hstatus⟩
  · intro dep _ s s' _ hs hdep
    obtain ⟨-, -, -, rfl | ⟨_, rfl⟩⟩ := addDependencyInternal_ok hdep
    · exact hs
    · exact hs

theorem keeps_create {u : Js.Unicode} {opts : CreateMindItem} {draws : List ℕ} {remindAt : Option Js.Num}
    {channelId : Option String} {r : Reading} (hl : Linked s) :
    Tx.wp (Service.create u opts draws remindAt channelId r)
      (fun _ s' => Linked s' ∧ ((remindAt ≠ none → opts.opens) → Settled s → Settled s'))
      (fun _ s' => Linked s' ∧ ((remindAt ≠ none → opts.opens) → Settled s → Settled s')) s := by
  have halong : Tx.Along (Quiet (fun _ => False)) (Mind.create u opts draws r.clock) := quiet_create
  have hquiet := Tx.wp_iff.mp (halong s.mind)
  unfold Service.create
  rw [Tx.wp_bind, wp_inStore]
  refine Tx.wp_iff.mpr ⟨?_, ?_⟩
  · intro d db hcreate
    have hkeeps := Keeps.quiet hl (hquiet.1 d db hcreate)
    obtain ⟨row, hrow, rfl, hstatus⟩ := create_ok hcreate
    have hid : ((db.get r.clock.reading row.id).map (fun d => d.row.id)).getD "" = row.id := by
      simp [MindDb.get, MindDb.hydrate, hrow]
    cases remindAt with
    | none =>
        show Tx.wp (pure none >>= _) _ _ _
        simp only [Tx.wp_bind, Tx.wp_pure, Tx.wp_read]
        exact ⟨hkeeps.linked, fun _ => hkeeps.settled⟩
    | some fireAt =>
        simp only [hid, Tx.onSome, Tx.wp_bind]
        refine Tx.wp_mono ?_ ?_ (keeps_addReminder hkeeps.linked)
        · rintro _ s' ⟨hl', hs'⟩
          simp only [Tx.wp_pure, Tx.wp_read]
          refine ⟨hl', fun hopens hs => hs' ?_ (hkeeps.settled hs)⟩
          intro row' hrow'
          cases hrow.symm.trans hrow'
          exact hopens (Option.some_ne_none fireAt) row.status hstatus
        · intro _ s' h
          exact ⟨h.linked, fun _ hs => h.settled (hkeeps.settled hs)⟩
  · intro e db hcreate
    have hkeeps := Keeps.quiet hl (hquiet.2 e db hcreate)
    exact ⟨hkeeps.linked, fun _ => hkeeps.settled⟩

/-! ## Runs -/

/-- A reminder is added to no item that is closed. -/
def Cautious (s : Service) : ServiceCall → Prop
  | .addReminder itemId .. => OpenItem s itemId
  | .create opts _ remindAt .. => remindAt ≠ none → opts.opens
  | _ => True

/-- The item that a call may close. -/
def ServiceCall.closes : ServiceCall → Option MindId
  | .update id .. => some id
  | .finishClaim id .. => some id
  | _ => none

theorem step_keeps (u : Js.Unicode) (s : Service) (call : ServiceCall) (hl : Linked s) :
    Linked (Service.step u s call) ∧ (Cautious s call → Settled s → Settled (Service.step u s call)) := by
  cases call with
  | create opts draws remindAt channelId r => exact Tx.wp_final (keeps_create hl)
  | update id patch actor clock =>
      have h : Tended id s (Service.step u s (.update id patch actor clock)) := Tx.wp_final (tended_update hl)
      exact ⟨h.linked, fun _ => h.settled⟩
  | finishClaim id principal owner result verification omissions clock =>
      have h : Tended id s (Service.step u s (.finishClaim id principal owner result verification omissions clock)) :=
        Tx.wp_final (tended_finishClaim hl)
      exact ⟨h.linked, fun _ => h.settled⟩
  | passed call h =>
      have hquiet : Tx.wp (inStore (call.exec u)) (fun _ s' => Keeps s s') (fun _ s' => Keeps s s') s := by
        rw [wp_inStore]
        exact Tx.wp_mono (fun _ _ => Keeps.quiet hl) (fun _ _ => Keeps.quiet hl) (quiet_exec call h s.mind)
      have hkeeps := Tx.wp_final hquiet
      exact ⟨hkeeps.linked, fun _ => hkeeps.settled⟩
  | addReminder itemId fireAt actor channelId r =>
      have h : Tx.wp (Service.addReminder itemId fireAt actor channelId r)
          (fun _ s' => Linked s' ∧ (OpenItem s itemId → Settled s → Settled s'))
          (fun _ s' => Linked s' ∧ (OpenItem s itemId → Settled s → Settled s')) s :=
        Tx.wp_mono (fun _ _ h => h) (fun _ _ h => ⟨h.linked, fun _ => h.settled⟩) (keeps_addReminder hl)
      exact Tx.wp_final h
  | snoozeReminder reminderId fireAt actor r =>
      have h : Keeps s (Service.step u s (.snoozeReminder reminderId fireAt actor r)) :=
        Tx.wp_final (keeps_snoozeReminder hl)
      exact ⟨h.linked, fun _ => h.settled⟩
  | cancelReminder reminderId actor clock =>
      have h : Tx.wp (Service.cancelReminder reminderId actor clock) (fun _ s' => Keeps s s')
          (fun _ s' => Keeps s s') s :=
        Tx.wp_mono (fun _ _ h => h.keeps hl) (fun _ _ h => h.elim) (wp_cancelReminder reminderId actor clock s)
      exact ⟨(Tx.wp_final h).linked, fun _ => (Tx.wp_final h).settled⟩
  | wake id now fails named caught clock =>
      have h : Keeps s (Service.step u s (.wake id now fails named caught clock)) := Tx.wp_final (keeps_wake hl)
      exact ⟨h.linked, fun _ => h.settled⟩

theorem step_apart (u : Js.Unicode) {call : ServiceCall} {id : MindId} (hl : Linked s)
    (h : call.closes = some id) : Apart id s (Service.step u s call) := by
  cases call with
  | update id' patch actor clock =>
      cases h
      have htended : Tended id s (Service.step u s (.update id patch actor clock)) := Tx.wp_final (tended_update hl)
      exact htended.apart
  | finishClaim id' principal owner result verification omissions clock =>
      cases h
      have htended : Tended id s
          (Service.step u s (.finishClaim id principal owner result verification omissions clock)) :=
        Tx.wp_final (tended_finishClaim hl)
      exact htended.apart
  | create | passed | addReminder | snoozeReminder | cancelReminder | wake => cases h

theorem fresh_linked (tasks : Agent.Store) : Linked (Service.fresh tasks) ∧ Settled (Service.fresh tasks) := by
  refine ⟨⟨?_, ?_, ?_, ?_⟩, ?_⟩
  all_goals
    intro r hr
    cases hr

/-- **Reminders have their tasks.** In every run each pending reminder has an open task, and what
closes an item leaves the reminders and tasks of the others alone; and in a run that adds no
reminder to a closed item no closed item has one that is pending. -/
theorem service_reminders (u : Js.Unicode) (tasks : Agent.Store) (calls : List ServiceCall) :
    (∀ r ∈ (run (Service.step u) (Service.fresh tasks) calls).mind.reminders, r.pending = true →
      ∃ t, (run (Service.step u) (Service.fresh tasks) calls).tasks.getById r.scheduledTaskId = some t ∧
        t.doneAt = none) ∧
    (∀ call id, call.closes = some id → Apart id (run (Service.step u) (Service.fresh tasks) calls)
      (Service.step u (run (Service.step u) (Service.fresh tasks) calls) call)) ∧
    (EachStep (Service.step u) Cautious (Service.fresh tasks) calls →
      Settled (run (Service.step u) (Service.fresh tasks) calls)) := by
  have hlinked : Linked (run (Service.step u) (Service.fresh tasks) calls) :=
    run_inv (fun s call hl => (step_keeps u s call hl).1) calls (fresh_linked tasks).1
  refine ⟨hlinked.task, fun call id h => step_apart u hlinked h, fun h => ?_⟩
  have hthroughout : Throughout (Service.step u) Settled (Service.fresh tasks) calls := by
    refine throughout_of_eachStep (I := fun s => Linked s ∧ Settled s) (fun _ h => h.2) ?_ calls (fresh_linked tasks) h
    rintro s call ⟨hl, hs⟩ hcautious
    have hkeeps := step_keeps u s call hl
    exact ⟨hkeeps.1, hkeeps.2 hcautious hs⟩
  exact hthroughout.last

/-! ## Two short runs -/

/-- An item made with a status. -/
def makeItem (status : String) : ServiceCall :=
  .create ⟨"ring back", none, none, some status, none, none, none, [], [], none, none⟩ [1] none none ⟨5, "t1", ⟨5, 5, 5⟩⟩

def remindLater : ServiceCall := .addReminder "elm-00000001" (.finite 10) "agent" none ⟨6, "t2", ⟨6, 6, 6⟩⟩

def closeItem : ServiceCall :=
  .update "elm-00000001" ⟨none, none, none, some "done", none, none, none, none⟩ "agent" ⟨7, 7, 7⟩

/-- A reminder can be added to an item that is done. -/
theorem reminder_of_done : ¬Settled (run (Service.step Js.Unicode.ascii) (Service.fresh Agent.Store.empty)
    [makeItem "done", remindLater]) := by
  intro hsettled
  have hbad : (run (Service.step Js.Unicode.ascii) (Service.fresh Agent.Store.empty)
      [makeItem "done", remindLater]).mind.reminders.rows.any (fun r => r.pending &&
        ((run (Service.step Js.Unicode.ascii) (Service.fresh Agent.Store.empty)
          [makeItem "done", remindLater]).mind.items.get? r.itemId).any (fun row => row.status.closed)) = true := by
    decide +kernel
  obtain ⟨r, hr, hbad⟩ := List.any_eq_true.mp hbad
  rw [Bool.and_eq_true] at hbad
  obtain ⟨row, hrow, hclosed⟩ := (Option.any_eq_true _ _).mp hbad.2
  exact Bool.noConfusion ((hsettled r hr hbad.1 row hrow).symm.trans hclosed)

theorem reminder_ended : Settled (run (Service.step Js.Unicode.ascii) (Service.fresh Agent.Store.empty)
    [makeItem "open", remindLater, closeItem]) := by
  refine (service_reminders _ _ _).2.2 ⟨fun h => absurd rfl h, ?_, trivial, trivial⟩
  intro row hrow
  have hopen : ((Service.step Js.Unicode.ascii (Service.fresh Agent.Store.empty)
      (makeItem "open")).mind.items.get? "elm-00000001").all (fun row => !row.status.closed) = true := by
    decide +kernel
  have h := (Option.all_eq_true _ _).mp hopen row hrow
  simpa using h

end Elpis.Mind
