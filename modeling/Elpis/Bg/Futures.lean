import Elpis.Bg.Registry

/-!
# The end of a future

A future ends by its settlement, by a cancellation or by the reaper. Each of the three
writes the record and tells the end, and each looks at a part of the record only: a
settlement comes through after the reaper, and a cancellation after anything.
`futures_end_once` says in which runs every future has at most one end.
-/

namespace Elpis.Bg

open Elpis.Lib State

/-! ## Frames -/

/-- The notice tells the end of the future. -/
def Notice.ends (id : ℕ) : Notice → Bool
  | .futureCancelled i | .futureAbandoned i | .futureSettled i => decide (i = id)
  | .jobStillRunning _ | .jobSettled _ => false

/-- How often the end of the future was told. -/
def told (ns : List Notice) (id : ℕ) : ℕ := ns.countP (Notice.ends id)

/-- What a step for the sake of a job does: records of futures stay as they are or go, no
end of a future is told, and no record or id is new. -/
structure JobStep (s s' : State) : Prop where
  futures : ∀ j ∈ s'.jobs, j.kind = .future → j ∈ s.jobs
  told : ∀ id, Bg.told s'.notices id = Bg.told s.notices id
  shape : ∀ j' ∈ s'.jobs, ∃ j ∈ s.jobs, j.id = j'.id ∧ j.kind = j'.kind
  next : s'.next = s.next
  watched : s'.watched = s.watched
  promises : s'.promises = s.promises
  timers : ∀ id ∈ s'.timers, id ∈ s.timers ∨ ∃ j ∈ s.jobs, j.id = id ∧ j.kind = .job

variable {cfg : Config} {s s' s'' : State} {id : ℕ} {j : BgJob}

theorem JobStep.refl (s : State) : JobStep s s :=
  ⟨fun _ hj _ => hj, fun _ => rfl, fun j hj => ⟨j, hj, rfl, rfl⟩, rfl, rfl, rfl,
    fun _ hid => Or.inl hid⟩

theorem JobStep.trans (h : JobStep s s') (h' : JobStep s' s'') : JobStep s s'' where
  futures j hj hk := h.futures j (h'.futures j hj hk) hk
  told id := (h'.told id).trans (h.told id)
  shape j'' hj'' := by
    obtain ⟨j', hj', hid', hk'⟩ := h'.shape j'' hj''
    obtain ⟨j, hj, hid, hk⟩ := h.shape j' hj'
    exact ⟨j, hj, hid.trans hid', hk.trans hk'⟩
  next := h'.next.trans h.next
  watched := h'.watched.trans h.watched
  promises := h'.promises.trans h.promises
  timers id hid := by
    rcases h'.timers id hid with hid | ⟨j', hj', hid', hk'⟩
    · exact h.timers id hid
    · obtain ⟨j, hj, hjid, hk⟩ := h.shape j' hj'
      exact Or.inr ⟨j, hj, hjid.trans hid', hk.trans hk'⟩

/-- No future has the id. -/
def IsJob (id : ℕ) (s : State) : Prop := ∀ j ∈ s.jobs, j.id = id → j.kind = .job

theorem JobStep.isJob (h : JobStep s s') (hid : IsJob id s) : IsJob id s' := by
  intro j' hj' hjid
  obtain ⟨j, hj, hid', hk⟩ := h.shape j' hj'
  rw [← hk]
  exact hid j hj (hid'.trans hjid)

theorem isJob_of_get? (h : s.jobs.get? id = some j) (hk : j.kind = .job) : IsJob id s := by
  intro x hx hxid
  rw [Table.eq_of_key hx (Table.mem_of_get? h) (hxid.trans (Table.key_of_get? h).symm)]
  exact hk

theorem IsJob.kind (h : IsJob id s) (hj : s.jobs.get? id = some j) : j.kind = .job :=
  h j (Table.mem_of_get? hj) (Table.key_of_get? hj)

theorem JobStep.put (h : JobStep s s') (j' : BgJob) (hj : s'.jobs.get? id = some j)
    (hid : j'.id = j.id) (hk' : j'.kind = j.kind) (hk : j.kind = .job) :
    JobStep s (s'.put j') := by
  obtain ⟨x, hx, hxid, hxk⟩ := h.shape j (Table.mem_of_get? hj)
  refine ⟨fun y hy hfuture => ?_, h.told, fun y hy => ?_, h.next, h.watched, h.promises, h.timers⟩
  · rcases Table.mem_put.mp hy with rfl | ⟨hy, -⟩
    · rw [hk', hk] at hfuture
      cases hfuture
    · exact h.futures y hy hfuture
  · rcases Table.mem_put.mp hy with rfl | ⟨hy, -⟩
    · exact ⟨x, hx, hxid.trans hid.symm, hxk.trans hk'.symm⟩
    · exact h.shape y hy

theorem told_append {ns : List Notice} (n : Notice) :
    told (ns ++ [n]) id = told ns id + if n.ends id then 1 else 0 := by
  unfold told
  rw [List.countP_append, List.countP_singleton]

theorem JobStep.tell (h : JobStep s s') {n : Notice} (hn : ∀ id, n.ends id = false) :
    JobStep s (s'.tell n) := by
  refine ⟨h.futures, fun id => ?_, h.shape, h.next, h.watched, h.promises, h.timers⟩
  show Bg.told (s'.notices ++ [n]) id = _
  rw [told_append, hn]
  exact h.told id

theorem JobStep.save (h : JobStep s s') (cfg : Config) : JobStep s (s'.save cfg) :=
  ⟨h.futures, h.told, h.shape, h.next, h.watched, h.promises, h.timers⟩

theorem JobStep.end_ (h : JobStep s s') (id : ℕ) : JobStep s (s'.end_ id) :=
  ⟨h.futures, h.told, h.shape, h.next, h.watched, h.promises, h.timers⟩

theorem JobStep.clear (h : JobStep s s') (id : ℕ) : JobStep s (s'.clearJobTimer id) :=
  ⟨h.futures, h.told, h.shape, h.next, h.watched, h.promises,
    fun i hi => h.timers i (List.mem_of_mem_filter hi)⟩

theorem JobStep.setTimer (h : JobStep s s') (hj : s.jobs.get? id = some j) (hk : j.kind = .job) :
    JobStep s (s'.setJobTimer id) := by
  refine ⟨h.futures, h.told, h.shape, h.next, h.watched, h.promises, fun i hi => ?_⟩
  rcases List.mem_append.mp hi with hi | hi
  · exact h.timers i hi
  · rw [List.mem_singleton.mp hi]
    exact Or.inr ⟨j, Table.mem_of_get? hj, Table.key_of_get? hj, hk⟩

/-! ## Jobs leave futures alone -/

theorem jobStep_schedule (hid : IsJob id s) : JobStep s (scheduleJobNudge cfg id s) := by
  unfold scheduleJobNudge
  dsimp only
  split
  · exact (JobStep.refl s).clear id
  · rename_i j hj
    have hk : j.kind = .job := hid.kind (s := s) hj
    split
    · exact (JobStep.refl s).clear id
    · refine (((JobStep.refl s).clear id).put _ hj ?_ ?_ hk).setTimer hj hk
      · rfl
      · rfl

variable {now : ℤ}

theorem jobStep_stillRunning (hid : IsJob id s) :
    JobStep s (notifyJobStillRunning cfg id now s) := by
  unfold notifyJobStillRunning
  split
  · exact JobStep.refl s
  · rename_i j hj
    split
    · exact JobStep.refl s
    · have hput := (((JobStep.refl s).put { j with
        nudgeNotifiedAt := some now, nudgeAt := some (now + cfg.jobNudgeMs) } hj rfl rfl
        (hid.kind hj)).save cfg).tell (n := .jobStillRunning id) (fun _ => rfl)
      exact hput.trans (jobStep_schedule (hput.isJob hid))

theorem jobStep_settled (hid : IsJob id s) :
    JobStep s (notifyJobSettled cfg id now s) := by
  unfold notifyJobSettled
  split
  · exact JobStep.refl s
  · rename_i j hj
    split
    · exact JobStep.refl s
    · refine (((JobStep.refl s).put _ hj ?_ ?_ (hid.kind hj)).save cfg).tell (n := .jobSettled id)
        (fun _ => rfl)
      · rfl
      · rfl

theorem jobStep_finish {code : Option ℤ} {signal : Option String}
    (hid : IsJob id s) : JobStep s (finishJob cfg id code signal now s) := by
  unfold finishJob
  split
  · exact JobStep.refl s
  · rename_i j hj
    dsimp only
    have hput := ((((JobStep.refl s).put { j with
        running := false, exitCode := some code, signal := some signal
        finishedAt := some (j.finishedAt.getD now) } hj rfl rfl (hid.kind hj)).end_
        id).clear id).save cfg
    split
    · exact hput.trans (jobStep_settled (hput.isJob hid))
    · exact hput

theorem jobStep_probe {alive : Probe} :
    JobStep s (probeJob cfg alive now id s) := by
  unfold probeJob
  split
  · exact JobStep.refl s
  · rename_i j hj
    split
    · rename_i hcond
      simp only [Bool.and_eq_true, decide_eq_true_eq] at hcond
      exact jobStep_finish (isJob_of_get? hj hcond.1.1)
    · exact JobStep.refl s

theorem jobStep_forEach {body : ℕ → State → State}
    (hbody : ∀ id s, JobStep s (body id s)) (s : State) : JobStep s (forEachJob body s) := by
  unfold forEachJob
  induction s.jobs.rows.map BgJob.id generalizing s with
  | nil => exact JobStep.refl s
  | cons id ids ih => exact (hbody id s).trans (ih (body id s))

theorem jobStep_activate {alive : Probe} :
    JobStep s (activate cfg alive now s) := by
  unfold activate
  split
  · exact JobStep.refl s
  · have hactive : JobStep s { s with active := true } :=
      ⟨fun _ hj _ => hj, fun _ => rfl, fun j hj => ⟨j, hj, rfl, rfl⟩, rfl, rfl, rfl,
        fun _ hid => Or.inl hid⟩
    refine hactive.trans (jobStep_forEach (fun id s => ?_) _)
    unfold activateJob
    split
    · exact JobStep.refl s
    · rename_i j hj
      split
      · exact JobStep.refl s
      · rename_i hk
        have hjob := isJob_of_get? hj (not_not.mp hk)
        split
        · exact jobStep_finish hjob
        · split
          · exact jobStep_schedule hjob
          · exact jobStep_settled hjob

/-! ## What may happen to a future -/

/-- The future is recorded as running. -/
def Runs (id : ℕ) (s : State) : Prop := ∃ j ∈ s.jobs, j.id = id ∧ j.kind = .future ∧ j.running = true

/-- The future has ended, or its record is gone. -/
def Closed (id : ℕ) (s : State) : Prop :=
  ∀ j ∈ s.jobs, j.id = id → j.kind = .future → j.running = false

/-- The record stays as it is or goes, and nothing is told. -/
structure Stays (id : ℕ) (s s' : State) : Prop where
  record : ∀ j ∈ s'.jobs, j.id = id → j.kind = .future → j ∈ s.jobs
  told : Bg.told s'.notices id = Bg.told s.notices id

/-- A running future ends, and that is told once. -/
structure Ends (id : ℕ) (s s' : State) : Prop where
  before : Runs id s
  after : Closed id s'
  told : Bg.told s'.notices id = Bg.told s.notices id + 1

theorem Stays.closed (h : Stays id s s') (hs : Closed id s) : Closed id s' :=
  fun j hj hid hk => hs j (h.record j hj hid hk) hid hk

theorem Stays.runs (h : Stays id s s') (hs : Runs id s') : Runs id s := by
  obtain ⟨j, hj, hid, hk, hrun⟩ := hs
  exact ⟨j, h.record j hj hid hk, hid, hk, hrun⟩

theorem Closed.not_runs (h : Closed id s) : ¬Runs id s := by
  rintro ⟨j, hj, hid, hk, hrun⟩
  rw [h j hj hid hk] at hrun
  cases hrun

theorem stays_or_ends_trans (h : Stays id s s' ∨ Ends id s s')
    (h' : Stays id s' s'' ∨ Ends id s' s'') : Stays id s s'' ∨ Ends id s s'' := by
  rcases h with h | h
  · rcases h' with h' | h'
    · left
      refine ⟨fun j hj hid hk => ?_, h'.told.trans h.told⟩
      exact h.record j (h'.record j hj hid hk) hid hk
    · right
      exact ⟨h.runs h'.before, h'.after, by rw [h'.told, h.told]⟩
  · rcases h' with h' | h'
    · exact Or.inr ⟨h.before, h'.closed h.after, by rw [h'.told, h.told]⟩
    · exact absurd h'.before h.after.not_runs

/-- A step that creates no record and ends every future at most once. -/
structure FutureStep (s s' : State) : Prop where
  each : ∀ id, Stays id s s' ∨ Ends id s s'
  shape : ∀ j' ∈ s'.jobs, ∃ j ∈ s.jobs, j.id = j'.id ∧ j.kind = j'.kind
  next : s'.next = s.next
  watched : s'.watched = s.watched
  promises : ∀ id ∈ s'.promises, id ∈ s.promises
  timers : ∀ id ∈ s'.timers, id ∈ s.timers ∨ ∃ j ∈ s.jobs, j.id = id ∧ j.kind = .job

theorem JobStep.futureStep (h : JobStep s s') : FutureStep s s' where
  each id := Or.inl ⟨fun j hj _ hk => h.futures j hj hk, h.told id⟩
  shape := h.shape
  next := h.next
  watched := h.watched
  promises id hid := by
    rw [← h.promises]
    exact hid
  timers := h.timers

theorem FutureStep.refl (s : State) : FutureStep s s := (JobStep.refl s).futureStep

theorem FutureStep.trans (h : FutureStep s s') (h' : FutureStep s' s'') : FutureStep s s'' where
  each id := stays_or_ends_trans (h.each id) (h'.each id)
  shape j'' hj'' := by
    obtain ⟨j', hj', hid', hk'⟩ := h'.shape j'' hj''
    obtain ⟨j, hj, hid, hk⟩ := h.shape j' hj'
    exact ⟨j, hj, hid.trans hid', hk.trans hk'⟩
  next := h'.next.trans h.next
  watched := h'.watched.trans h.watched
  promises id hid := h.promises id (h'.promises id hid)
  timers id hid := by
    rcases h'.timers id hid with hid | ⟨j', hj', hid', hk'⟩
    · exact h.timers id hid
    · obtain ⟨j, hj, hjid, hk⟩ := h.shape j' hj'
      exact Or.inr ⟨j, hj, hjid.trans hid', hk.trans hk'⟩

theorem futureStep_end {j' : BgJob} {n : Notice} (hj : s.jobs.get? id = some j)
    (hk : j.kind = .future) (hrun : j.running = true) (hid' : j'.id = j.id) (hk' : j'.kind = j.kind)
    (hend : j'.running = false) (hn : ∀ i, n.ends i = decide (id = i)) :
    FutureStep s ((s.put j').tell n) := by
  have hmem := Table.mem_of_get? hj
  have hjid := Table.key_of_get? hj
  refine ⟨fun i => ?_, fun y hy => ?_, rfl, rfl, fun i hi => hi, fun i hi => Or.inl hi⟩
  · by_cases hi : id = i
    · subst hi
      right
      refine ⟨⟨j, hmem, hjid, hk, hrun⟩, fun y hy hyid _ => ?_, ?_⟩
      · rcases Table.mem_put.mp hy with rfl | ⟨-, hne⟩
        · exact hend
        · exact absurd (hyid.trans (hjid.symm.trans hid'.symm)) hne
      · show Bg.told (s.notices ++ [n]) _ = _
        rw [told_append, hn, decide_eq_true rfl, if_pos rfl]
    · left
      refine ⟨fun y hy hyid _ => ?_, ?_⟩
      · rcases Table.mem_put.mp hy with rfl | ⟨hy, -⟩
        · exact absurd (hjid.symm.trans (hid'.symm.trans hyid)) hi
        · exact hy
      · show Bg.told (s.notices ++ [n]) _ = _
        rw [told_append, hn, decide_eq_false hi]
        rfl
  · rcases Table.mem_put.mp hy with rfl | ⟨hy, -⟩
    · exact ⟨j, hmem, hid'.symm, hk'.symm⟩
    · exact ⟨y, hy, rfl, rfl⟩

theorem futureStep_save : FutureStep s (s.save cfg) := ((JobStep.refl s).save cfg).futureStep

theorem futureStep_abandon : FutureStep s (abandon now id s) := by
  unfold abandon
  split
  · exact FutureStep.refl s
  · rename_i j hj
    split
    · rename_i hexpired
      simp only [BgJob.expired, Bool.and_eq_true, decide_eq_true_eq] at hexpired
      exact futureStep_end hj hexpired.1.1.1 hexpired.1.1.2 rfl rfl rfl (fun _ => rfl)
    · exact FutureStep.refl s

theorem futureStep_forEach {body : ℕ → State → State}
    (hbody : ∀ id s, FutureStep s (body id s)) (s : State) : FutureStep s (forEachJob body s) := by
  unfold forEachJob
  induction s.jobs.rows.map BgJob.id generalizing s with
  | nil => exact FutureStep.refl s
  | cons id ids ih => exact (hbody id s).trans (ih (body id s))

theorem futureStep_delete {p : BgJob → Bool} : FutureStep s { s with jobs := s.jobs.delete p } := by
  refine ⟨fun i => Or.inl ⟨fun j hj _ _ => (Table.mem_delete.mp hj).1, rfl⟩, fun j hj => ?_, rfl, rfl,
    fun i hi => hi, fun i hi => Or.inl hi⟩
  exact ⟨j, (Table.mem_delete.mp hj).1, rfl, rfl⟩

theorem futureStep_reap : FutureStep s (reapAbandoned cfg now s) := by
  have hcapped := (futureStep_forEach (fun _ _ => futureStep_abandon) s).trans
    (futureStep_delete (s := forEachJob (abandon now) s) (p := fun j => decide
      (j.id ∈ evicted (forEachJob (abandon now) s).jobs)))
  unfold reapAbandoned
  dsimp only
  split
  · exact hcapped
  · exact hcapped.trans futureStep_save

theorem stays_put_of_ne (j' : BgJob) {i : ℕ} (hne : j'.id ≠ i) : Stays i s (s.put j') := by
  refine ⟨fun y hy hyid _ => ?_, rfl⟩
  rcases Table.mem_put.mp hy with rfl | ⟨hy, -⟩
  · exact absurd hyid hne
  · exact hy

theorem stays_tell_of_ne {n : Notice} {i : ℕ} (hn : n.ends i = false) : Stays i s (s.tell n) := by
  refine ⟨fun _ hj _ _ => hj, ?_⟩
  show Bg.told (s.notices ++ [n]) _ = _
  rw [told_append, hn]
  rfl

theorem futureStep_settle {value : String} {rejected : Bool}
    (hj : s.jobs.get? id = some j) (hk : j.kind = .future) (hrun : j.running = true) :
    FutureStep s ((reapAbandoned cfg now
      ((s.put { j with running := false, value := some value, rejected }).save cfg)).tell
      (.futureSettled id)) := by
  have hmem := Table.mem_of_get? hj
  have hjid : j.id = id := Table.key_of_get? hj
  set written := (s.put { j with running := false, value := some value, rejected }).save cfg
    with hwritten
  have hreap : FutureStep written (reapAbandoned cfg now written) := futureStep_reap
  have hshape : ∀ y ∈ written.jobs, ∃ x ∈ s.jobs, x.id = y.id ∧ x.kind = y.kind := by
    intro y hy
    rcases Table.mem_put.mp hy with rfl | ⟨hy, -⟩
    · exact ⟨j, hmem, rfl, rfl⟩
    · exact ⟨y, hy, rfl, rfl⟩
  have hclosed : Closed id written := by
    intro y hy hyid _
    rcases Table.mem_put.mp hy with rfl | ⟨-, hne⟩
    · rfl
    · exact absurd (hyid.trans hjid.symm) hne
  refine ⟨fun i => ?_, fun y hy => ?_, hreap.next, hreap.watched, hreap.promises, fun i hi => ?_⟩
  · by_cases hi : id = i
    · subst hi
      -- the reaper finds the future closed
      have hstays : Stays id written (reapAbandoned cfg now written) :=
        (hreap.each id).resolve_right (fun h => hclosed.not_runs h.before)
      right
      refine ⟨⟨j, hmem, hjid, hk, hrun⟩, hstays.closed hclosed, ?_⟩
      show Bg.told ((reapAbandoned cfg now written).notices ++ [_]) _ = _
      rw [told_append, hstays.told]
      simp [Notice.ends, hwritten, State.put, State.save]
    · have hfirst : Stays i s written := by
        have hput := stays_put_of_ne (s := s) { j with
          running := false, value := some value, rejected } (i := i) (by rw [hjid]; exact hi)
        exact ⟨hput.record, hput.told⟩
      have hlast : Stays i (reapAbandoned cfg now written)
          ((reapAbandoned cfg now written).tell (.futureSettled id)) :=
        stays_tell_of_ne (decide_eq_false hi)
      exact stays_or_ends_trans (stays_or_ends_trans (Or.inl hfirst) (hreap.each i)) (Or.inl hlast)
  · obtain ⟨x, hx, hxid, hxk⟩ := hreap.shape y hy
    obtain ⟨z, hz, hzid, hzk⟩ := hshape x hx
    exact ⟨z, hz, hzid.trans hxid, hzk.trans hxk⟩
  · rcases hreap.timers i hi with hi | ⟨x, hx, hxid, hxk⟩
    · exact Or.inl hi
    · obtain ⟨z, hz, hzid, hzk⟩ := hshape x hx
      exact Or.inr ⟨z, hz, hzid.trans hxid, hzk.trans hxk⟩

/-! ## The condition -/

/-- A promise settles only while its future runs or after it was cancelled, and only a
future that runs is cancelled. -/
def Timely (s : State) : Call → Prop
  | .promiseSettles id _ _ _ =>
      id ∈ s.promises → ∀ j ∈ s.jobs, j.id = id → j.running = true ∨ j.cancelled = true
  | .cancel id _ => ∀ j ∈ s.jobs, j.id = id → j.kind = .future → j.running = true
  | _ => True

/-- A future that has ended keeps its status and its result while it is recorded, and its
end is not told again; no end is told twice. -/
def OnceOnly (cfg : Config) (s : State) (c : Call) : Prop :=
  (∀ j ∈ s.jobs, j.kind = .future → j.running = false →
    (∀ j' ∈ (call cfg s c).jobs, j'.id = j.id → j'.running = false ∧
      j'.cancelled = j.cancelled ∧ j'.rejected = j.rejected ∧ j'.value = j.value) ∧
    told (call cfg s c).notices j.id = told s.notices j.id) ∧
  ∀ id, told (call cfg s c).notices id ≤ 1

/-- **The invariant.** Ids are fresh, timers and exits are of jobs and promises of futures;
no end is told of a future that runs or is not there yet. -/
structure Tidy (s : State) : Prop where
  fresh : ∀ j ∈ s.jobs, j.id < s.next
  watched : ∀ id ∈ s.watched, id < s.next ∧ IsJob id s
  timers : ∀ id ∈ s.timers, id < s.next ∧ IsJob id s
  promises : ∀ id ∈ s.promises, id < s.next ∧ ∀ j ∈ s.jobs, j.id = id → j.kind = .future
  once : ∀ id, told s.notices id ≤ 1
  quiet : ∀ id, Runs id s ∨ s.next ≤ id → told s.notices id = 0

theorem FutureStep.isJob (h : FutureStep s s') (hid : IsJob id s) : IsJob id s' := by
  intro j' hj' hjid
  obtain ⟨j, hj, hid', hk⟩ := h.shape j' hj'
  rw [← hk]
  exact hid j hj (hid'.trans hjid)

theorem Tidy.step (h : Tidy s) (hstep : FutureStep s s') : Tidy s' := by
  have hborn : ∀ i, Runs i s → i < s.next := by
    rintro i ⟨j, hj, rfl, -⟩
    exact h.fresh j hj
  refine ⟨fun j' hj' => ?_, fun i hi => ?_, fun i hi => ?_, fun i hi => ?_, fun i => ?_, fun i hi => ?_⟩
  · obtain ⟨j, hj, hid, -⟩ := hstep.shape j' hj'
    rw [← hid, hstep.next]
    exact h.fresh j hj
  · rw [hstep.watched] at hi
    rw [hstep.next]
    exact ⟨(h.watched i hi).1, hstep.isJob (h.watched i hi).2⟩
  · rw [hstep.next]
    rcases hstep.timers i hi with hi | ⟨j, hj, rfl, hk⟩
    · exact ⟨(h.timers i hi).1, hstep.isJob (h.timers i hi).2⟩
    · exact ⟨h.fresh j hj, hstep.isJob (isJob_of_get? (Table.get?_key hj) hk)⟩
  · rw [hstep.next]
    obtain ⟨hlt, hfuture⟩ := h.promises i (hstep.promises i hi)
    refine ⟨hlt, fun j' hj' hid => ?_⟩
    obtain ⟨j, hj, hid', hk⟩ := hstep.shape j' hj'
    rw [← hk]
    exact hfuture j hj (hid'.trans hid)
  · rcases hstep.each i with hstay | hend
    · rw [hstay.told]
      exact h.once i
    · rw [hend.told, h.quiet i (Or.inl hend.before)]
  · rw [hstep.next] at hi
    rcases hstep.each i with hstay | hend
    · rw [hstay.told]
      exact h.quiet i (hi.imp_left hstay.runs)
    · rcases hi with hrun | hlt
      · exact absurd hrun hend.after.not_runs
      · exact absurd (hborn i hend.before) (Nat.not_lt.mpr hlt)

/-! ## Calls -/

/-- The records and notices a call starts from, with the record it makes. -/
structure Extends (s t : State) : Prop where
  jobs : ∀ j ∈ s.jobs, j ∈ t.jobs
  notices : t.notices = s.notices
  tidy : Tidy t

theorem Tidy.extends (h : Tidy s) : Extends s s := ⟨fun _ hj => hj, rfl, h⟩

theorem Tidy.created (h : Tidy s) (cfg : Config) (job : BgJob) (watched promises : List ℕ)
    (hid : job.id = s.next)
    (hwatched : ∀ id ∈ watched, id ∈ s.watched ∨ id = s.next ∧ job.kind = .job)
    (hpromises : ∀ id ∈ promises, id ∈ s.promises ∨ id = s.next ∧ job.kind = .future) :
    Extends s (({ s.put job with next := s.next + 1, watched, promises }).save cfg) := by
  have hrecord : ∀ j ∈ (s.put job).jobs, j = job ∨ j ∈ s.jobs :=
    fun j hj => (Table.mem_put.mp hj).imp_right And.left
  have hnext : ∀ j ∈ (s.put job).jobs, j.id = s.next → j = job := by
    intro j hj hjid
    rcases hrecord j hj with rfl | hold
    · rfl
    · exact absurd hjid (h.fresh j hold).ne
  have hisJob : ∀ id, id < s.next → IsJob id s →
      IsJob id (({ s.put job with next := s.next + 1, watched, promises }).save cfg) := by
    intro id hlt hjob j hj hjid
    rcases hrecord j hj with rfl | hold
    · exact absurd (hid.symm.trans hjid) hlt.ne'
    · exact hjob j hold hjid
  refine ⟨fun j hj => Table.mem_put.mpr (Or.inr ⟨hj, ?_⟩), rfl, ?_⟩
  · rw [hid]
    exact (h.fresh j hj).ne
  · refine ⟨fun j hj => ?_, fun id hw => ?_, fun id ht => ?_, fun id hp => ?_, h.once, fun id hq => ?_⟩
    · show j.id < s.next + 1
      rcases hrecord j hj with rfl | hold
      · omega
      · exact (h.fresh j hold).trans (Nat.lt_succ_self _)
    · show id < s.next + 1 ∧ _
      rcases hwatched id hw with hold | ⟨rfl, hk⟩
      · have hlt := (h.watched id hold).1
        exact ⟨hlt.trans (Nat.lt_succ_self _), hisJob id hlt (h.watched id hold).2⟩
      · refine ⟨Nat.lt_succ_self _, fun j hj hjid => ?_⟩
        rw [hnext j hj hjid]
        exact hk
    · have hlt := (h.timers id ht).1
      exact ⟨hlt.trans (Nat.lt_succ_self _), hisJob id hlt (h.timers id ht).2⟩
    · show id < s.next + 1 ∧ _
      rcases hpromises id hp with hold | ⟨rfl, hk⟩
      · obtain ⟨hlt, hfuture⟩ := h.promises id hold
        refine ⟨hlt.trans (Nat.lt_succ_self _), fun j hj hjid => ?_⟩
        rcases hrecord j hj with rfl | hj
        · exact absurd (hid.symm.trans hjid) hlt.ne'
        · exact hfuture j hj hjid
      · refine ⟨Nat.lt_succ_self _, fun j hj hjid => ?_⟩
        rw [hnext j hj hjid]
        exact hk
    · refine h.quiet id ?_
      rcases hq with ⟨j, hj, hjid, hk, hrun⟩ | hlt
      · rcases hrecord j hj with rfl | hold
        · exact Or.inr (hid.symm.trans hjid).le
        · exact Or.inl ⟨j, hold, hjid, hk, hrun⟩
      · exact Or.inr ((Nat.le_succ _).trans hlt)

/-- **One call.** It makes at most a record, and then ends every future at most once. -/
theorem call_steps (h : Tidy s) {c : Call} (hc : Timely s c) :
    ∃ t, Extends s t ∧ FutureStep t (call cfg s c) := by
  have hjob : ∀ {s'}, JobStep s s' → ∃ t, Extends s t ∧ FutureStep t s' :=
    fun hstep => ⟨s, h.extends, hstep.futureStep⟩
  cases c with
  | start pid now =>
      unfold call start
      dsimp only
      have hnew := h.created cfg
        { id := s.next, kind := .job, pid, startedAt := now, running := true, exitCode := none,
          signal := none, value := none, rejected := false, ttlAt := none,
          nudgeAt := some (now + cfg.jobNudgeMs), nudgeNotifiedAt := none, finishedAt := none,
          settleNotifiedAt := none, cancelled := false } (s.watched ++ [s.next]) s.promises rfl
        (fun id hid => (List.mem_append.mp hid).imp_right
          (fun hlast => ⟨List.mem_singleton.mp hlast, rfl⟩)) (fun id hid => Or.inl hid)
      refine ⟨_, hnew, ?_⟩
      split
      · refine (jobStep_schedule ?_).futureStep
        exact (hnew.tidy.watched s.next (List.mem_append_right _ List.mem_cons_self)).2
      · exact FutureStep.refl _
  | exited id code signal now =>
      unfold call exited
      dsimp only
      split
      · rename_i hid
        exact hjob (jobStep_finish (h.watched id hid).2)
      · exact hjob (JobStep.refl s)
  | list alive now => exact hjob (jobStep_forEach (fun _ _ => jobStep_probe) s)
  | get id alive now => exact hjob jobStep_probe
  | timerFires id alive now =>
      unfold call timerFires
      dsimp only
      split
      · rename_i hid
        have hclear := (JobStep.refl s).clear id
        have hjobId := hclear.isJob (h.timers id hid).2
        split
        · exact hjob hclear
        · split
          · exact hjob (hclear.trans (jobStep_schedule hjobId))
          · split
            · exact hjob (hclear.trans (jobStep_finish hjobId))
            · exact hjob (hclear.trans (jobStep_stillRunning hjobId))
      · exact hjob (JobStep.refl s)
  | rearm id target =>
      unfold call rearm
      dsimp only
      split
      · exact hjob (JobStep.refl s)
      · rename_i j hj
        split
        · exact hjob (JobStep.refl s)
        · rename_i hok
          push Not at hok
          have hput := ((JobStep.refl s).put { j with nudgeAt := some target } hj rfl rfl
            hok.1).save cfg
          split
          · exact hjob (hput.trans (jobStep_schedule (hput.isJob (isJob_of_get? hj hok.1))))
          · exact hjob hput
  | activate alive now => exact hjob jobStep_activate
  | registerFuture ttlMs now =>
      unfold call registerFuture
      dsimp only
      refine ⟨_, h.created cfg _ s.watched (s.promises ++ [s.next]) rfl (fun id hid => Or.inl hid)
        (fun id hid => (List.mem_append.mp hid).imp_right
          (fun hlast => ⟨List.mem_singleton.mp hlast, rfl⟩)), FutureStep.refl _⟩
  | promiseSettles id value rejected now =>
      unfold call promiseSettles
      dsimp only
      split
      · rename_i hid
        have hdrop : FutureStep s { s with promises := s.promises.filter (· ≠ id) } :=
          ⟨fun i => Or.inl ⟨fun _ hj _ _ => hj, rfl⟩, fun j hj => ⟨j, hj, rfl, rfl⟩, rfl, rfl,
            fun i hi => List.mem_of_mem_filter hi, fun i hi => Or.inl hi⟩
        refine ⟨s, h.extends, hdrop.trans ?_⟩
        unfold settleFuture
        split
        · exact FutureStep.refl _
        · rename_i j hj
          split
          · exact FutureStep.refl _
          · rename_i hcancelled
            have hmem : j ∈ s.jobs := Table.mem_of_get? hj
            have hjid : j.id = id := Table.key_of_get? hj
            exact futureStep_settle hj ((h.promises id hid).2 j hmem hjid)
              ((hc hid j hmem hjid).resolve_right hcancelled)
      · exact ⟨s, h.extends, FutureStep.refl s⟩
  | reapAbandoned now => exact ⟨s, h.extends, futureStep_reap⟩
  | cancel id now =>
      unfold call cancel
      dsimp only
      split
      · exact hjob (JobStep.refl s)
      · rename_i j hj
        split
        · rename_i hcond
          simp only [Bool.and_eq_true, decide_eq_true_eq] at hcond
          have hput := (JobStep.refl s).put { j with cancelled := true } hj rfl rfl hcond.1
          exact hjob ((hput.trans (jobStep_finish (hput.isJob (isJob_of_get? hj hcond.1)))).save cfg)
        · split
          · rename_i hk
            refine ⟨s, h.extends, (futureStep_end hj hk ?_ ?_ ?_ ?_ (fun _ => rfl)).trans
              futureStep_save⟩
            · exact hc j (Table.mem_of_get? hj) (Table.key_of_get? hj) hk
            · rfl
            · rfl
            · rfl
          · exact hjob ((JobStep.refl s).save cfg)

theorem tidy_call (h : Tidy s) {c : Call} (hc : Timely s c) : Tidy (call cfg s c) := by
  obtain ⟨t, hext, hstep⟩ := @call_steps cfg s h c hc
  exact hext.tidy.step hstep

theorem onceOnly_of_timely (h : Tidy s) {c : Call} (hc : Timely s c) : OnceOnly cfg s c := by
  obtain ⟨t, hext, hstep⟩ := @call_steps cfg s h c hc
  refine ⟨fun j hj hk hend => ?_, (hext.tidy.step hstep).once⟩
  have hjt := hext.jobs j hj
  have hsame : ∀ x ∈ t.jobs, x.id = j.id → x = j := fun x hx hid => Table.eq_of_key hx hjt hid
  have hstays : Stays j.id t (call cfg s c) := by
    refine (hstep.each j.id).resolve_right (fun h' => ?_)
    obtain ⟨x, hx, hid, -, hrun⟩ := h'.before
    rw [hsame x hx hid, hend] at hrun
    cases hrun
  refine ⟨fun j' hj' hid => ?_, ?_⟩
  · have hk' : j'.kind = .future := by
      obtain ⟨x, hx, hxid, hxk⟩ := hstep.shape j' hj'
      rw [← hxk, hsame x hx (hxid.trans hid)]
      exact hk
    rw [hsame j' (hstays.record j' hj' hid hk') hid]
    exact ⟨hend, rfl, rfl, rfl⟩
  · rw [hstays.told, hext.notices]

theorem told_reap (now : ℤ) : told s.notices id ≤ told (reapAbandoned cfg now s).notices id := by
  rcases (@futureStep_reap cfg s now).each id with hstay | hend
  · exact hstay.told.ge
  · rw [hend.told]
    exact Nat.le_succ _

theorem settleFuture_tells (cfg : Config) (value : String) (rejected : Bool) (now : ℤ)
    (hj : s.jobs.get? id = some j) (hcancelled : j.cancelled = false) :
    told s.notices id < told (settleFuture cfg id value rejected now s).notices id := by
  unfold settleFuture
  rw [hj]
  dsimp only
  rw [hcancelled, if_neg Bool.false_ne_true]
  show _ < told (_ ++ [Notice.futureSettled id]) id
  rw [told_append, show (Notice.futureSettled id).ends id = true from decide_eq_true rfl, if_pos rfl]
  exact Nat.lt_succ_of_le (told_reap (s := (s.put { j with
    running := false, value := some value, rejected, cancelled := false }).save cfg) now)

theorem cancel_tells (hj : s.jobs.get? id = some j) (hk : j.kind = .future) :
    told s.notices id < told (cancel cfg id now s).notices id := by
  unfold cancel
  rw [hj]
  dsimp only
  rw [hk, if_neg (by simp), if_pos rfl]
  show _ < told (_ ++ [Notice.futureCancelled id]) id
  rw [told_append, show (Notice.futureCancelled id).ends id = true from decide_eq_true rfl,
    if_pos rfl]
  exact Nat.lt_succ_self _

theorem timely_of_onceOnly (h : Tidy s) {c : Call} (hc : OnceOnly cfg s c) : Timely s c := by
  cases c with
  | promiseSettles id value rejected now =>
      intro hid j hj hjid
      by_contra hlate
      rw [not_or, Bool.not_eq_true, Bool.not_eq_true] at hlate
      have hk := (h.promises id hid).2 j hj hjid
      have htold := (hc.1 j hj hk hlate.1).2
      have hget : s.jobs.get? id = some j := hjid ▸ Table.get?_key hj
      have hmore := settleFuture_tells cfg value rejected now
        (s := { s with promises := s.promises.filter (· ≠ id) }) hget hlate.2
      rw [hjid, show call cfg s (.promiseSettles id value rejected now) = _ from if_pos hid] at htold
      exact absurd htold hmore.ne'
  | cancel id now =>
      intro j hj hjid hk
      by_contra hlate
      rw [Bool.not_eq_true] at hlate
      have htold := (hc.1 j hj hk hlate).2
      have hget : s.jobs.get? id = some j := hjid ▸ Table.get?_key hj
      rw [hjid] at htold
      exact absurd htold (cancel_tells hget hk).ne'
  | start | exited | list | get | timerFires | rearm | activate | registerFuture
  | reapAbandoned => trivial

/-! ## Runs -/

/-- A process that has just read its file. The next id is above those of the file. -/
def opened (cfg : Config) (file : Records) (alive : Probe) (now : ℤ) : State :=
  restart cfg alive now { State.init with file, next := (file.rows.map BgJob.id).sum + 1 }

theorem tidy_opened (cfg : Config) (file : Records) (alive : Probe) (now : ℤ) :
    Tidy (opened cfg file alive now) where
  fresh j' hj' := by
    have hmem : j' ∈ file.update (fun _ => true) (reloadJob cfg alive now)
        (reloadJob_id cfg alive now) := hj'
    obtain ⟨j, hj, rfl⟩ := Table.mem_update.mp hmem
    rw [if_pos rfl, reloadJob_id]
    have hle : j.id ≤ (file.rows.map BgJob.id).sum :=
      List.le_sum_of_mem (List.mem_map_of_mem (Table.mem_rows.mpr hj))
    exact Nat.lt_succ_of_le hle
  watched _ hid := absurd hid List.not_mem_nil
  timers _ hid := absurd hid List.not_mem_nil
  promises _ hid := absurd hid List.not_mem_nil
  once _ := Nat.zero_le 1
  quiet _ _ := rfl

/-- **A future ends at most once, over runs.** Whatever the file held, in every run of
calls of one process the end of every future is told at most once, and its record keeps
its status and result from then on, exactly if every settlement is of a future that runs or
was cancelled, and every cancellation of a future that runs. -/
theorem futures_end_once (cfg : Config) (file : Records) (alive : Probe) (now : ℤ)
    (calls : List Call) :
    EachStep (call cfg) (OnceOnly cfg) (opened cfg file alive now) calls ↔
      EachStep (call cfg) Timely (opened cfg file alive now) calls :=
  eachStep_iff (I := Tidy)
    (fun _ _ h => ⟨fun hc => timely_of_onceOnly h hc, fun hc => onceOnly_of_timely h hc⟩)
    (fun _ _ h hc => tidy_call h hc) calls (tidy_opened cfg file alive now)

/-- Values are shown as they are. -/
def plainConfig : Config := ⟨0, fun value => value⟩

/-- A future is abandoned by the reaper, and its promise resolves later. -/
def lateSettlement : List Call :=
  [.registerFuture (some 5) 0, .reapAbandoned 10, .promiseSettles 1 "late" false 20]

/-- The late settlement is told as well. -/
theorem abandoned_future_settles :
    ¬∀ (cfg : Config) (file : Records) (alive : Probe) (now : ℤ) (calls : List Call),
      EachStep (call cfg) (OnceOnly cfg) (opened cfg file alive now) calls := by
  intro h
  have hlast := (h plainConfig Table.empty (fun _ => true) 0 lateSettlement).2.2.1.2 1
  have htwice : told (run (call plainConfig) (opened plainConfig Table.empty (fun _ => true) 0)
      lateSettlement).notices 1 = 2 := by
    decide
  exact absurd (htwice.symm.trans_le hlast) (by decide)

end Elpis.Bg
