import Elpis.Mind.Refinement
import Elpis.Mind.Service

/-!
# Reminders and their tasks

A pending reminder has an open task of its own. Whatever closes an item ends its pending
reminders, and touches no other item's.
-/

namespace Elpis.Mind

open Elpis.Lib Elpis.Agent Elpis.Agent.Tasks

/-! ## The invariants -/

/-- Reminders are of items that there are, no two have one task, and the task of a pending one is
there and open. -/
structure Linked (s : Service) : Prop where
  item : ∀ r ∈ s.mind.reminders, ∃ row, s.mind.items.get? r.itemId = some row
  given : ∀ r ∈ s.mind.reminders, r.scheduledTaskId ≤ s.tasks.tasks.seq
  single : ∀ r ∈ s.mind.reminders, ∀ r' ∈ s.mind.reminders, r.scheduledTaskId = r'.scheduledTaskId → r = r'
  task : ∀ r ∈ s.mind.reminders, r.pending = true →
    ∃ t, s.tasks.getById r.scheduledTaskId = some t ∧ t.doneAt = none

/-- No closed item has a pending reminder. -/
def Settled (s : Service) : Prop :=
  ∀ r ∈ s.mind.reminders, r.pending = true → ∀ row, s.mind.items.get? r.itemId = some row → row.status.closed = false

/-- What is not about the item is as it was: the reminders of the others, and their tasks. -/
structure Apart (id : MindId) (s s' : Service) : Prop where
  reminders : ∀ r, r.itemId ≠ id → (r ∈ s'.mind.reminders ↔ r ∈ s.mind.reminders)
  tasks : ∀ r ∈ s.mind.reminders, r.itemId ≠ id →
    s'.tasks.getById r.scheduledTaskId = s.tasks.getById r.scheduledTaskId

/-! ## Ending reminders -/

/-- The reminders in `Q` are over, and their tasks may be gone; the others stand as they did. -/
structure Ended (Q : ℕ → Prop) (s s' : Service) : Prop where
  items : s'.mind.items = s.mind.items
  seq : s'.tasks.tasks.seq = s.tasks.tasks.seq
  back : ∀ r' ∈ s'.mind.reminders, ∃ r ∈ s.mind.reminders, r.id = r'.id ∧ r.itemId = r'.itemId ∧
    r.scheduledTaskId = r'.scheduledTaskId ∧ (r' = r ∨ Q r.id)
  spent : ∀ r' ∈ s'.mind.reminders, Q r'.id → r'.pending = false
  forth : ∀ r ∈ s.mind.reminders, ¬Q r.id → r ∈ s'.mind.reminders
  tasks : ∀ n, (∀ r ∈ s.mind.reminders, Q r.id → r.scheduledTaskId ≠ n) → s'.tasks.getById n = s.tasks.getById n

variable {id : MindId}

namespace Ended

variable {Q Q' : ℕ → Prop} {s s' s'' : Service}

theorem refl (s : Service) : Ended (fun _ => False) s s where
  items := rfl
  seq := rfl
  back r' h := ⟨r', h, rfl, rfl, rfl, Or.inl rfl⟩
  spent _ _ h := h.elim
  forth _ h _ := h
  tasks _ _ := rfl

theorem trans (h : Ended Q s s') (h' : Ended Q' s' s'') : Ended (fun n => Q n ∨ Q' n) s s'' where
  items := h'.items.trans h.items
  seq := h'.seq.trans h.seq
  back := by
    intro r'' hr''
    obtain ⟨r', hr', hid', hitem', htask', hor'⟩ := h'.back r'' hr''
    obtain ⟨r, hr, hid, hitem, htask, hor⟩ := h.back r' hr'
    refine ⟨r, hr, hid.trans hid', hitem.trans hitem', htask.trans htask', ?_⟩
    rcases hor with rfl | hQ
    · rcases hor' with rfl | hQ'
      · exact Or.inl rfl
      · exact Or.inr (Or.inr hQ')
    · exact Or.inr (Or.inl hQ)
  spent := by
    rintro r'' hr'' (hQ | hQ')
    · obtain ⟨r', hr', hid', -, -, rfl | hQ'⟩ := h'.back r'' hr''
      · exact h.spent _ hr' hQ
      · exact h'.spent r'' hr'' (hid' ▸ hQ')
    · exact h'.spent r'' hr'' hQ'
  forth := by
    intro r hr hnot
    rw [not_or] at hnot
    exact h'.forth r (h.forth r hr hnot.1) hnot.2
  tasks := by
    intro n hn
    have hfirst := h.tasks n (fun r hr hQ => hn r hr (Or.inl hQ))
    rw [← hfirst]
    refine h'.tasks n ?_
    intro r' hr' hQ'
    obtain ⟨r, hr, hid, -, htask, -⟩ := h.back r' hr'
    rw [← htask]
    exact hn r hr (Or.inr (hid ▸ hQ'))

theorem congr (h : Ended Q s s') (hQ : ∀ n, Q n ↔ Q' n) : Ended Q' s s' := by
  have heq : Q = Q' := funext (fun n => propext (hQ n))
  exact heq ▸ h

theorem linked (h : Ended Q s s') (hl : Linked s) : Linked s' where
  item := by
    intro r' hr'
    obtain ⟨r, hr, -, hitem, -⟩ := h.back r' hr'
    rw [h.items, ← hitem]
    exact hl.item r hr
  given := by
    intro r' hr'
    obtain ⟨r, hr, -, -, htask, -⟩ := h.back r' hr'
    rw [h.seq, ← htask]
    exact hl.given r hr
  single := by
    intro r₁ hr₁ r₂ hr₂ heq
    obtain ⟨r, hr, hid, -, htask, -⟩ := h.back r₁ hr₁
    obtain ⟨r', hr', hid', -, htask', -⟩ := h.back r₂ hr₂
    have hsame := hl.single r hr r' hr' (htask.trans (heq.trans htask'.symm))
    exact Table.eq_of_key hr₁ hr₂ (hid.symm.trans ((congrArg ReminderRow.id hsame).trans hid'))
  task := by
    intro r' hr' hpending
    obtain ⟨r, hr, hid, -, htask, rfl | hQ⟩ := h.back r' hr'
    · have hother : ∀ q ∈ s.mind.reminders, Q q.id → q.scheduledTaskId ≠ r'.scheduledTaskId := by
        intro q hq hQ heq
        rw [hl.single q hq r' hr heq] at hQ
        exact Bool.noConfusion ((h.spent r' hr' hQ).symm.trans hpending)
      rw [h.tasks _ hother]
      exact hl.task r' hr hpending
    · exact Bool.noConfusion ((h.spent r' hr' (hid ▸ hQ)).symm.trans hpending)

theorem settled (h : Ended Q s s') (hs : Settled s) : Settled s' := by
  intro r' hr' hpending row hrow
  rw [h.items] at hrow
  obtain ⟨r, hr, hid, -, -, rfl | hQ⟩ := h.back r' hr'
  · exact hs r' hr hpending row hrow
  · exact Bool.noConfusion ((h.spent r' hr' (hid ▸ hQ)).symm.trans hpending)

/-- Where the reminders that end are one item's, the others' stand. -/
theorem apart (h : Ended Q s s') (hl : Linked s)
    (hQ : ∀ r ∈ s.mind.reminders, Q r.id → r.itemId = id) : Apart id s s' where
  reminders := by
    intro r hne
    constructor
    · intro hr'
      obtain ⟨r₀, hr₀, -, hitem, -, rfl | hQr⟩ := h.back r hr'
      · exact hr₀
      · exact absurd (hitem.symm.trans (hQ r₀ hr₀ hQr)) hne
    · intro hr
      exact h.forth r hr (fun hQr => hne (hQ r hr hQr))
  tasks := by
    intro r hr hne
    refine h.tasks _ ?_
    intro q hq hQq heq
    exact hne (hl.single q hq r hr heq ▸ hQ q hq hQq)

end Ended

/-! ## The calls on reminders -/

section Wp
variable {α : Type} {Q : α → Service → Prop} {E : ServiceError → Service → Prop} {s : Service}

theorem wp_inStore {m : MindM α} :
    Tx.wp (inStore m) Q E s ↔ Tx.wp m (fun a db => Q a (setMind s db)) (fun e db => E (.mind e) (setMind s db)) s.mind := by
  unfold inStore
  rw [Tx.wp_within, Tx.wp_mapError]

theorem wp_inScheduler {m : TaskM α} : Tx.wp (inScheduler m) Q E s ↔
    Tx.wp m (fun a d => Q a (setTasks s d)) (fun e d => E (.scheduler e) (setTasks s d)) s.tasks := by
  unfold inScheduler
  rw [Tx.wp_within, Tx.wp_mapError]

end Wp

/-- The record of a reminder is over: cancelled now, or no longer pending before. -/
theorem wp_cancelReminderRecord (id : ℕ) (actor : String) (clock : Readings) (db : MindDb) :
    Tx.wp (cancelReminderRecord id actor clock) (fun _ db' => db'.items = db.items ∧
      (∀ r' ∈ db'.reminders, ∃ r ∈ db.reminders, r.id = r'.id ∧ r.itemId = r'.itemId ∧
        r.scheduledTaskId = r'.scheduledTaskId ∧ (r' = r ∨ r.id = id)) ∧
      (∀ r' ∈ db'.reminders, r'.id = id → r'.pending = false) ∧
      ∀ r ∈ db.reminders, r.id ≠ id → r ∈ db'.reminders) (fun _ _ => False) db := by
  unfold cancelReminderRecord
  simp only [Tx.wp_bind, Tx.wp_read]
  have hsame : ∀ r' ∈ db.reminders, ∃ r ∈ db.reminders, r.id = r'.id ∧ r.itemId = r'.itemId ∧
      r.scheduledTaskId = r'.scheduledTaskId ∧ (r' = r ∨ r.id = id) :=
    fun r' hr' => ⟨r', hr', rfl, rfl, rfl, Or.inl rfl⟩
  cases hrow : (db.reminders.get? id).filter ReminderRow.pending with
  | none =>
      refine Tx.wp_pure.mpr ⟨rfl, hsame, ?_, fun r hr _ => hr⟩
      intro r' hr' hid
      have hget : db.reminders.get? id = some r' := by
        rw [← hid]
        exact Table.get?_key hr'
      rw [hget, Option.filter_eq_none_iff] at hrow
      exact Bool.eq_false_iff.mpr (hrow r' rfl)
  | some r =>
      simp only [Tx.onSome, Tx.wp_bind, Tx.wp_write, event, Tx.wp_pure]
      refine ⟨rfl, ?_, ?_, ?_⟩
      · intro r' hr'
        obtain ⟨r₀, hr₀, rfl⟩ := AutoTable.mem_update.mp hr'
        by_cases hid : r₀.id = id
        · rw [if_pos (decide_eq_true hid)]
          exact ⟨r₀, hr₀, rfl, rfl, rfl, Or.inr hid⟩
        · rw [if_neg (by simpa using hid)]
          exact ⟨r₀, hr₀, rfl, rfl, rfl, Or.inl rfl⟩
      · intro r' hr' hid'
        obtain ⟨r₀, hr₀, rfl⟩ := AutoTable.mem_update.mp hr'
        by_cases hid : r₀.id = id
        · simp [hid, ReminderRow.pending]
        · rw [if_neg (by simpa using hid)] at hid'
          exact absurd hid' hid
      · intro r₀ hr₀ hne
        refine AutoTable.mem_update.mpr ⟨r₀, hr₀, ?_⟩
        simp [hne]

theorem wp_cancelReminder (id : ℕ) (actor : String) (clock : Readings) (s : Service) :
    Tx.wp (Service.cancelReminder id actor clock) (fun _ s' => Ended (· = id) s s') (fun _ _ => False) s := by
  unfold Service.cancelReminder
  simp only [Tx.wp_bind, Tx.wp_read]
  cases hrow : s.mind.reminders.get? id with
  | none =>
      have hnone : ∀ r ∈ s.mind.reminders, r.id ≠ id := Table.get?_eq_none.mp hrow
      refine Tx.wp_pure.mpr ⟨rfl, rfl, fun r hr => ⟨r, hr, rfl, rfl, rfl, Or.inl rfl⟩, ?_, fun _ hr _ => hr, fun _ _ => rfl⟩
      intro r hr heq
      exact absurd heq (hnone r hr)
  | some row =>
      simp only [Tx.wp_bind, wp_inScheduler, wp_inStore, Tasks.delete, Tx.wp_read, Tx.wp_write, Tx.wp_pure]
      refine Tx.wp_mono ?_ (fun _ _ h => h) (wp_cancelReminderRecord id actor clock s.mind)
      rintro _ db ⟨hitems, hback, hspent, hforth⟩
      refine ⟨hitems, rfl, hback, hspent, hforth, ?_⟩
      intro n hn
      have hne : n ≠ row.scheduledTaskId :=
        fun heq => hn row (Table.mem_of_get? hrow) (Table.key_of_get? hrow) heq.symm
      show (deleteTask s.tasks row.scheduledTaskId).getById n = _
      rw [getById_delete, if_neg hne]

theorem wp_cancelEach (rows : List ReminderRow) (actor : String) (clock : Readings) (s : Service) :
    Tx.wp (Tx.forEach (fun row : ReminderRow => do
        let _ ← Service.cancelReminder row.id actor clock
        pure ()) rows)
      (fun _ s' => Ended (fun n => ∃ r ∈ rows, r.id = n) s s') (fun _ _ => False) s := by
  induction rows generalizing s with
  | nil =>
      refine Tx.wp_pure.mpr ((Ended.refl s).congr ?_)
      simp
  | cons row rows ih =>
      rw [Tx.forEach_cons]
      simp only [Tx.wp_bind, Tx.wp_pure]
      refine Tx.wp_mono ?_ (fun _ _ h => h) (wp_cancelReminder row.id actor clock s)
      intro _ s₁ hfirst
      refine Tx.wp_mono ?_ (fun _ _ h => h) (ih s₁)
      intro _ s₂ hrest
      refine (hfirst.trans hrest).congr ?_
      intro n
      simp [eq_comm]

/-- The pending reminders of the item end. -/
theorem wp_cancelPendingReminders (itemId : MindId) (actor : String) (clock : Readings) (s : Service) :
    Tx.wp (Service.cancelPendingReminders itemId actor clock)
      (fun _ s' => Ended (fun n => ∃ r ∈ s.mind.reminders, r.itemId = itemId ∧ r.pending = true ∧ r.id = n) s s')
      (fun _ _ => False) s := by
  unfold Service.cancelPendingReminders
  simp only [Tx.wp_bind, Tx.wp_read]
  refine Tx.wp_mono ?_ (fun _ _ h => h) (wp_cancelEach _ actor clock s)
  intro _ s' h
  refine h.congr ?_
  intro n
  simp only [MindDb.pendingReminders, mem_orderBy, Table.mem_select, Bool.and_eq_true, decide_eq_true_eq, and_assoc]
  exact Iff.rfl

theorem Ended.none_pending {s s' : Service}
    (h : Ended (fun n => ∃ r ∈ s.mind.reminders, r.itemId = id ∧ r.pending = true ∧ r.id = n) s s') :
    ∀ r' ∈ s'.mind.reminders, r'.itemId = id → r'.pending = false := by
  intro r' hr' hitem'
  obtain ⟨r, hr, hid, hitem, -, hor⟩ := h.back r' hr'
  cases hpending : r.pending with
  | true => exact h.spent r' hr' ⟨r, hr, hitem.trans hitem', hpending, hid⟩
  | false =>
      rcases hor with rfl | ⟨q, hq, -, hqpending, hqid⟩
      · exact hpending
      · rw [Table.eq_of_key hq hr hqid, hpending] at hqpending
        cases hqpending

/-! ## The calls on items -/

variable {db : MindDb}

theorem Linked.quiet {s : Service} {P : MindId → Prop} (h : Linked s) (hq : Quiet P s.mind db) :
    Linked (setMind s db) := by
  have hmem : ∀ r, r ∈ (setMind s db).mind.reminders ↔ r ∈ s.mind.reminders := by
    intro r
    show r ∈ db.reminders ↔ _
    rw [hq.reminders]
  refine ⟨?_, ?_, ?_, ?_⟩
  · intro r hr
    obtain ⟨row, hrow⟩ := h.item r ((hmem r).mp hr)
    obtain ⟨row', hrow', -⟩ := hq.kept _ row hrow
    exact ⟨row', hrow'⟩
  · exact fun r hr => h.given r ((hmem r).mp hr)
  · exact fun r hr r' hr' => h.single r ((hmem r).mp hr) r' ((hmem r').mp hr')
  · exact fun r hr => h.task r ((hmem r).mp hr)

/-- An item that a quiet call leaves closed with a pending reminder is one of `P`. -/
theorem Settled.quiet {s : Service} {P : MindId → Prop} (h : Settled s) (hl : Linked s)
    (hq : Quiet P s.mind db) : ∀ r ∈ db.reminders, r.pending = true → ∀ row, db.items.get? r.itemId = some row →
      row.status.closed = true → P r.itemId := by
  intro r hr hpending row hrow hclosed
  rw [hq.reminders] at hr
  obtain ⟨row₀, hrow₀⟩ := hl.item r hr
  obtain ⟨row', hrow', hor⟩ := hq.kept _ row₀ hrow₀
  cases hrow.symm.trans hrow'
  rcases hor hclosed with hclosed₀ | hP
  · exact Bool.noConfusion ((h r hr hpending row₀ hrow₀).symm.trans hclosed₀)
  · exact hP

theorem Apart.refl (id : MindId) (s : Service) : Apart id s s := ⟨fun _ _ => Iff.rfl, fun _ _ _ => rfl⟩

theorem Apart.trans {s s' s'' : Service} (h : Apart id s s') (h' : Apart id s' s'') : Apart id s s'' where
  reminders r hne := (h'.reminders r hne).trans (h.reminders r hne)
  tasks r hr hne := (h'.tasks r ((h.reminders r hne).mpr hr) hne).trans (h.tasks r hr hne)

theorem Apart.quiet {s : Service} {P : MindId → Prop} (hq : Quiet P s.mind db) :
    Apart id s (setMind s db) := by
  refine ⟨fun r _ => ?_, fun _ _ _ => rfl⟩
  show r ∈ db.reminders ↔ _
  rw [hq.reminders]

/-- What a call about the item `id` does to the reminders and their tasks. -/
structure Tended (id : MindId) (s s' : Service) : Prop where
  linked : Linked s'
  settled : Settled s → Settled s'
  apart : Apart id s s'

theorem Tended.refl {s : Service} (h : Linked s) : Tended id s s := ⟨h, fun hs => hs, Apart.refl id s⟩

/-- A call that may close the item, with the item's reminders ended behind it. -/
theorem Tended.closing {s s' : Service} (hl : Linked s) (hq : Quiet (· = id) s.mind db)
    (h : Ended (fun n => ∃ r ∈ db.reminders, r.itemId = id ∧ r.pending = true ∧ r.id = n) (setMind s db) s') :
    Tended id s s' := by
  have hl' := hl.quiet hq
  have hnone : ∀ r ∈ s'.mind.reminders, r.itemId = id → r.pending = false := Ended.none_pending (s := setMind s db) h
  refine ⟨h.linked hl', ?_, (Apart.quiet hq).trans (h.apart hl' ?_)⟩
  · intro hs r' hr' hpending row hrow
    obtain ⟨r, hr, -, hitem, -, rfl | ⟨q, hq', hqitem, -, hqid⟩⟩ := h.back r' hr'
    · rw [h.items] at hrow
      cases hclosed : row.status.closed with
      | false => rfl
      | true =>
          have hid : r'.itemId = id := hs.quiet hl hq r' hr hpending row hrow hclosed
          exact Bool.noConfusion ((hnone r' hr' hid).symm.trans hpending)
    · have hid : r'.itemId = id := by
        rw [← hitem, ← Table.eq_of_key hq' hr hqid]
        exact hqitem
      exact Bool.noConfusion ((hnone r' hr' hid).symm.trans hpending)
  · rintro r hr ⟨q, hq', hqitem, -, hqid⟩
    rw [← Table.eq_of_key hq' hr hqid]
    exact hqitem

/-- A call after which the item is not closed needs nothing behind it. -/
theorem Tended.opening {s : Service} (hl : Linked s) (hq : Quiet (· = id) s.mind db)
    (hopen : ∀ row, db.items.get? id = some row → row.status.closed = false) : Tended id s (setMind s db) := by
  refine ⟨hl.quiet hq, ?_, Apart.quiet hq⟩
  intro hs r hr hpending row hrow
  cases hclosed : row.status.closed with
  | false => rfl
  | true =>
      have hid : r.itemId = id := hs.quiet hl hq r hr hpending row hrow hclosed
      exact Bool.noConfusion ((hopen row (hid ▸ hrow)).symm.trans hclosed)

theorem wp_update {u : Js.Unicode} {patch : UpdateMindItem} {actor : String} {clock : Readings} : Tx.wp (Mind.update u id patch actor clock)
      (fun d db' => Quiet (· = id) db db' ∧ d = db'.get clock.reading id) (fun _ db' => db' = db) db := by
  have halong : Tx.Along (Quiet (· = id)) (Mind.update u id patch actor clock) := quiet_update
  have hquiet := Tx.wp_iff.mp (halong db)
  refine Tx.wp_iff.mpr ⟨?_, fun e db' h => atomic_update u id patch actor clock db e db' h⟩
  intro d db' h
  refine ⟨hquiet.1 d db' h, ?_⟩
  simp only [Mind.update, Tx.bind_ok, Tx.read_ok] at h
  obtain ⟨_, _, _, _, _, _, _, _, _, _, _, _, _, _, _, rfl, rfl⟩ := h
  rfl

theorem tended_update {u : Js.Unicode} {patch : UpdateMindItem} {actor : String} {clock : Readings}
    {s : Service} (hl : Linked s) : Tx.wp (Service.update u id patch actor clock) (fun _ s' => Tended id s s')
      (fun _ s' => Tended id s s') s := by
  unfold Service.update
  simp only [Tx.wp_bind, wp_inStore, Tx.wp_read]
  refine Tx.wp_mono ?_ ?_ wp_update
  · rintro d db ⟨hq, rfl⟩
    unfold Service.cancelIfClosed
    simp only [Tx.wp_when]
    constructor
    · intro _
      refine Tx.wp_mono ?_ (fun _ _ h => h.elim) (wp_cancelPendingReminders id actor clock (setMind s db))
      intro _ s' h
      exact Tended.closing hl hq h
    · intro hopen
      refine Tended.opening hl hq ?_
      intro row hrow
      simpa [MindDb.get, MindDb.hydrate, hrow] using hopen
  · rintro _ db rfl
    exact Tended.refl hl

theorem tended_finishClaim {principal owner result verification omissions : String} {clock : Readings}
    {s : Service} (hl : Linked s) :
    Tx.wp (Service.finishClaim id principal owner result verification omissions clock) (fun _ s' => Tended id s s')
      (fun _ s' => Tended id s s') s := by
  unfold Service.finishClaim
  simp only [Tx.wp_bind, wp_inStore, Tx.wp_read]
  have halong : Tx.Along (Quiet (· = id)) (Mind.finishClaim id principal owner result verification omissions clock) :=
    quiet_finishClaim
  have hquiet := Tx.wp_iff.mp (halong s.mind)
  refine Tx.wp_iff.mpr ⟨?_, ?_⟩
  · intro d db h
    refine Tx.wp_mono ?_ (fun _ _ h => h.elim) (wp_cancelPendingReminders id owner clock (setMind s db))
    intro _ s' hended
    exact Tended.closing hl (hquiet.1 d db h) hended
  · intro e db h
    rw [atomic_finishClaim id principal owner result verification omissions clock s.mind e db h]
    exact Tended.refl hl

end Elpis.Mind
