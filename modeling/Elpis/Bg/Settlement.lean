import Elpis.Bg.Futures

/-!
# The end of a job

Exits, probes, cancellations and restarts find out independently that a job has ended. The
notice of it waits for the activation, and between the two a restart or the cap of the
registry may lose it: a record that ended before the file was read counts as told.
`jobs_settle_once` says in which runs every end is told exactly once.
-/

namespace Elpis.Bg

open Elpis.Lib State

/-! ## The property -/

/-- How often the end of the job was told. -/
def announced (ns : List Notice) (id : ℕ) : ℕ := ns.count (.jobSettled id)

/-- The job has ended and that is not told. -/
structure Pending (j : BgJob) : Prop where
  kind : j.kind = .job
  ended : j.running = false
  untold : j.settleNotifiedAt = none

/-- A job that has ended stays so and is told at most once, and nothing but an end is told.
It was told, or it waits, in its record, for the activation. -/
structure SettledOnce (s : State) : Prop where
  once : ∀ id, announced s.notices id ≤ 1
  only : ∀ id, announced s.notices id ≠ 0 → id ∈ s.ended
  terminal : ∀ j ∈ s.jobs, j.kind = .job → j.id ∈ s.ended → j.running = false
  owed : ∀ id ∈ s.ended, announced s.notices id = 1 ∨
    s.active = false ∧ ∃ j ∈ s.jobs, j.id = id ∧ Pending j

/-! ## The invariant -/

/-- A record of a running job. -/
structure Fresh (j : BgJob) : Prop where
  finishedAt : j.finishedAt = none
  settleNotifiedAt : j.settleNotifiedAt = none

/-- **The invariant of jobs.** Records say of a job whether it has ended and whether that
was told; the file may be behind. What has ended was told, or it is due and its record is
pending. -/
structure Kept (due : ℕ → Prop) (s : State) : Prop where
  running : ∀ j ∈ s.jobs, j.kind = .job → j.running = true → j.id ∉ s.ended ∧ Fresh j
  stopped : ∀ j ∈ s.jobs, j.kind = .job → j.running = false → j.id ∈ s.ended ∧ j.finishedAt ≠ none
  marked : ∀ j ∈ s.jobs, j.kind = .job →
    (j.settleNotifiedAt ≠ none ↔ announced s.notices j.id = 1)
  fileRunning : ∀ j ∈ s.file, j.kind = .job → j.running = true → Fresh j
  fileStopped : ∀ j ∈ s.file, j.kind = .job → j.running = false →
    j.id ∈ s.ended ∧ j.finishedAt ≠ none
  fileMarked : ∀ j ∈ s.file, j.kind = .job → j.settleNotifiedAt ≠ none →
    announced s.notices j.id = 1
  once : ∀ id, announced s.notices id ≤ 1
  only : ∀ id, announced s.notices id ≠ 0 → id ∈ s.ended
  owed : ∀ id ∈ s.ended, announced s.notices id = 1 ∨ due id ∧ ∃ j ∈ s.jobs, j.id = id ∧ Pending j
  bound : (∀ j ∈ s.jobs, j.id < s.next) ∧ (∀ j ∈ s.file, j.id < s.next) ∧
    ∀ id ∈ s.ended, id < s.next
  handlers : ∀ id, id ∈ s.watched ∨ id ∈ s.timers → id < s.next ∧ IsJob id s
  promised : ∀ id ∈ s.promises, id < s.next ∧ ∀ j ∈ s.jobs, j.id = id → j.kind = .future

variable {cfg : Config} {s s' : State} {id : ℕ} {j : BgJob} {due due' : ℕ → Prop} {now : ℤ}

theorem Kept.mono (h : Kept due s) (hdue : ∀ id, due id → (∃ j ∈ s.jobs, j.id = id ∧ Pending j) → due' id) :
    Kept due' s :=
  { h with owed := fun id hid => (h.owed id hid).imp_right (fun hd => ⟨hdue id hd.1 hd.2, hd.2⟩) }

theorem Kept.settledOnce (h : Kept (fun _ => s.active = false) s) : SettledOnce s where
  once := h.once
  only := h.only
  terminal j hj hk hend := by
    by_contra hrun
    exact (h.running j hj hk (by simpa using hrun)).1 hend
  owed := h.owed

/-! ## Small steps -/

/-- The file gets what the memory says. -/
theorem Kept.save (h : Kept due s) (cfg : Config) : Kept due (s.save cfg) := by
  have hline : ∀ j' ∈ (s.save cfg).file, j' ∈ s.file ∨ ∃ j ∈ s.jobs,
      j' = { j with value := j.value.map cfg.preview } := by
    intro j' hj'
    unfold State.save at hj'
    dsimp only at hj'
    split at hj'
    · obtain ⟨j, hj, rfl⟩ := Table.mem_update.mp hj'
      exact Or.inr ⟨j, (Table.mem_delete.mp hj).1, if_pos rfl⟩
    · exact Or.inl hj'
  refine ⟨h.running, h.stopped, h.marked, fun j' hj' hk hrun => ?_, fun j' hj' hk hrun => ?_,
    fun j' hj' hk hmark => ?_, h.once, h.only, h.owed, ⟨h.bound.1, fun j' hj' => ?_, h.bound.2.2⟩,
    h.handlers, h.promised⟩
  · rcases hline j' hj' with hold | ⟨j, hj, rfl⟩
    · exact h.fileRunning j' hold hk hrun
    · have hfresh := (h.running j hj hk hrun).2
      exact ⟨hfresh.finishedAt, hfresh.settleNotifiedAt⟩
  · rcases hline j' hj' with hold | ⟨j, hj, rfl⟩
    · exact h.fileStopped j' hold hk hrun
    · exact h.stopped j hj hk hrun
  · rcases hline j' hj' with hold | ⟨j, hj, rfl⟩
    · exact h.fileMarked j' hold hk hmark
    · exact (h.marked j hj hk).mp hmark
  · rcases hline j' hj' with hold | ⟨j, hj, rfl⟩
    · exact h.bound.2.1 j' hold
    · exact h.bound.1 j hj

/-- A notice that is not the end of a job. -/
theorem Kept.tell (h : Kept due s) {n : Notice} (hn : ∀ id, n ≠ .jobSettled id) :
    Kept due (s.tell n) := by
  have hsame : ∀ id, announced (s.tell n).notices id = announced s.notices id := by
    intro id
    unfold announced State.tell
    rw [List.count_append, List.count_singleton, if_neg (by simpa using hn id)]
    rfl
  exact {
    running := h.running, stopped := h.stopped
    marked := fun j hj hk => by rw [hsame]; exact h.marked j hj hk
    fileRunning := h.fileRunning, fileStopped := h.fileStopped
    fileMarked := fun j hj hk hm => by rw [hsame]; exact h.fileMarked j hj hk hm
    once := fun id => by rw [hsame]; exact h.once id
    only := fun id hne => h.only id (by rw [← hsame]; exact hne)
    owed := fun id hid => by rw [hsame]; exact h.owed id hid
    bound := h.bound, handlers := h.handlers, promised := h.promised }

/-- Two records that say the same, as far as the end of a job is concerned. -/
structure SameJob (j j' : BgJob) : Prop where
  id : j'.id = j.id
  kind : j'.kind = j.kind
  job : j.kind = .job → j'.running = j.running ∧ (j'.finishedAt = none ↔ j.finishedAt = none) ∧
    j'.settleNotifiedAt = j.settleNotifiedAt

theorem isJob_put (j' : BgJob) {i : ℕ} (hj : s.jobs.get? id = some j) (hid : j'.id = j.id)
    (hk : j'.kind = j.kind) (h : IsJob i s) : IsJob i (s.put j') := by
  intro x hx hxid
  rcases Table.mem_put.mp hx with rfl | ⟨hx, -⟩
  · rw [hk]
    exact h j (Table.mem_of_get? hj) (hid.symm.trans hxid)
  · exact h x hx hxid

theorem future_put (j' : BgJob) {i : ℕ} (hj : s.jobs.get? id = some j) (hid : j'.id = j.id)
    (hk : j'.kind = j.kind) (h : ∀ x ∈ s.jobs, x.id = i → x.kind = .future) :
    ∀ x ∈ (s.put j').jobs, x.id = i → x.kind = .future := by
  intro x hx hxid
  rcases Table.mem_put.mp hx with rfl | ⟨hx, -⟩
  · rw [hk]
    exact h j (Table.mem_of_get? hj) (hid.symm.trans hxid)
  · exact h x hx hxid

theorem Kept.put (h : Kept due s) {j' : BgJob} (hj : s.jobs.get? id = some j) (hsame : SameJob j j') :
    Kept due (s.put j') := by
  have hmem := Table.mem_of_get? hj
  have hput : ∀ x ∈ (s.put j').jobs, x = j' ∨ x ∈ s.jobs :=
    fun x hx => (Table.mem_put.mp hx).imp_right And.left
  refine ⟨fun x hx hk hrun => ?_, fun x hx hk hrun => ?_, fun x hx hk => ?_, h.fileRunning,
    h.fileStopped, h.fileMarked, h.once, h.only, fun i hi => ?_,
    ⟨fun x hx => ?_, h.bound.2.1, h.bound.2.2⟩, fun i hi => ?_, fun i hi => ?_⟩
  · rcases hput x hx with rfl | hold
    · obtain ⟨hrunning, hfinished, hmark⟩ := hsame.job (hsame.kind.symm.trans hk)
      obtain ⟨hnot, hfresh⟩ := h.running j hmem (hsame.kind.symm.trans hk) (hrunning.symm.trans hrun)
      rw [hsame.id]
      exact ⟨hnot, hfinished.mpr hfresh.finishedAt, hmark.trans hfresh.settleNotifiedAt⟩
    · exact h.running x hold hk hrun
  · rcases hput x hx with rfl | hold
    · obtain ⟨hrunning, hfinished, -⟩ := hsame.job (hsame.kind.symm.trans hk)
      obtain ⟨hend, hat⟩ := h.stopped j hmem (hsame.kind.symm.trans hk) (hrunning.symm.trans hrun)
      rw [hsame.id]
      exact ⟨hend, fun hnone => hat (hfinished.mp hnone)⟩
    · exact h.stopped x hold hk hrun
  · rcases hput x hx with rfl | hold
    · obtain ⟨-, -, hmark⟩ := hsame.job (hsame.kind.symm.trans hk)
      rw [hmark, hsame.id]
      exact h.marked j hmem (hsame.kind.symm.trans hk)
    · exact h.marked x hold hk
  · refine (h.owed i hi).imp_right (fun ⟨hdue, x, hx, hxid, hpending⟩ => ⟨hdue, ?_⟩)
    by_cases hxj : x.id = j'.id
    · have hxeq : x = j := Table.eq_of_key hx hmem (hxj.trans hsame.id)
      subst hxeq
      obtain ⟨hrunning, -, hmark⟩ := hsame.job hpending.kind
      refine ⟨j', Table.mem_put.mpr (Or.inl rfl), hxj.symm.trans hxid, ?_⟩
      exact ⟨hsame.kind.trans hpending.kind, hrunning.trans hpending.ended,
        hmark.trans hpending.untold⟩
    · exact ⟨x, Table.mem_put.mpr (Or.inr ⟨hx, hxj⟩), hxid, hpending⟩
  · rcases hput x hx with rfl | hold
    · rw [hsame.id]
      exact h.bound.1 j hmem
    · exact h.bound.1 x hold
  · exact ⟨(h.handlers i hi).1, isJob_put j' hj hsame.id hsame.kind (h.handlers i hi).2⟩
  · exact ⟨(h.promised i hi).1, future_put j' hj hsame.id hsame.kind (h.promised i hi).2⟩

theorem Kept.putFuture (h : Kept due s) (j' : BgJob) (hj : s.jobs.get? id = some j)
    (hid : j'.id = j.id) (hk : j'.kind = j.kind) (hfuture : j.kind = .future) :
    Kept due (s.put j') := by
  refine h.put hj ⟨hid, hk, fun hjob => ?_⟩
  rw [hfuture] at hjob
  cases hjob

theorem Kept.clear (h : Kept due s) (id : ℕ) : Kept due (s.clearJobTimer id) :=
  { h with handlers := fun i hi => h.handlers i (hi.imp_right List.mem_of_mem_filter) }

theorem Kept.setTimer (h : Kept due s) (hj : s.jobs.get? id = some j) (hk : j.kind = .job) :
    Kept due (s.setJobTimer id) := by
  refine { h with handlers := fun i hi => ?_ }
  rcases hi with hi | hi
  · exact h.handlers i (Or.inl hi)
  · rcases List.mem_append.mp hi with hi | hi
    · exact h.handlers i (Or.inr hi)
    · rw [List.mem_singleton.mp hi]
      have hlt := h.bound.1 j (Table.mem_of_get? hj)
      rw [Table.key_of_get? hj] at hlt
      exact ⟨hlt, isJob_of_get? hj hk⟩

/-! ## Notices of jobs -/

theorem kept_schedule (h : Kept due s) (hid : IsJob id s) :
    Kept due (scheduleJobNudge cfg id s) := by
  unfold scheduleJobNudge
  dsimp only
  split
  · exact h.clear id
  · rename_i j hj
    have hk : j.kind = .job := hid.kind (s := s) hj
    split
    · exact h.clear id
    · have hnudged : Kept due ((s.clearJobTimer id).put
          { j with nudgeAt := some (j.nudgeAt.getD (j.startedAt + cfg.jobNudgeMs)) }) :=
        (h.clear id).put hj ⟨rfl, rfl, fun _ => ⟨rfl, Iff.rfl, rfl⟩⟩
      refine hnudged.setTimer (j := { j with
        nudgeAt := some (j.nudgeAt.getD (j.startedAt + cfg.jobNudgeMs)) }) ?_ hk
      have hjid : j.id = id := Table.key_of_get? hj
      exact (Table.get?_put id).trans (if_pos hjid.symm)

theorem kept_stillRunning (h : Kept due s) (hid : IsJob id s) :
    Kept due (notifyJobStillRunning cfg id now s) := by
  unfold notifyJobStillRunning
  split
  · exact h
  · rename_i j hj
    split
    · exact h
    · have hput : Kept due (((s.put { j with
          nudgeNotifiedAt := some now, nudgeAt := some (now + cfg.jobNudgeMs) }).save cfg).tell
          (.jobStillRunning id)) := by
        refine ((h.put hj ?_).save cfg).tell (n := .jobStillRunning id) (fun _ => nofun)
        exact ⟨rfl, rfl, fun _ => ⟨rfl, Iff.rfl, rfl⟩⟩
      exact kept_schedule hput (isJob_put { j with
        nudgeNotifiedAt := some now, nudgeAt := some (now + cfg.jobNudgeMs) } hj rfl rfl hid)

theorem announced_tell (i : ℕ) : announced (s.notices ++ [.jobSettled id]) i =
    announced s.notices i + if id = i then 1 else 0 := by
  unfold announced
  rw [List.count_append, List.count_singleton]
  congr 1
  by_cases h : id = i
  · simp [h]
  · simp [h]

theorem Kept.announce (h : Kept due s) (hj : s.jobs.get? id = some j) (hp : Pending j) :
    Kept (fun i => due i ∧ i ≠ id)
      (((s.put { j with settleNotifiedAt := some now }).save cfg).tell (.jobSettled id)) := by
  have hmem := Table.mem_of_get? hj
  have hjid : j.id = id := Table.key_of_get? hj
  have hzero : announced s.notices id = 0 := by
    have hnot : announced s.notices id ≠ 1 := by
      intro hone
      rw [← hjid] at hone
      exact (h.marked j hmem hp.kind).mpr hone hp.untold
    have hle := h.once id
    omega
  have hend : id ∈ s.ended := hjid ▸ (h.stopped j hmem hp.kind hp.ended).1
  -- what holds once the notice is counted, before the file is written
  have htold : Kept (fun i => due i ∧ i ≠ id)
      ((s.put { j with settleNotifiedAt := some now }).tell (.jobSettled id)) := by
    have hput : ∀ x ∈ (s.put { j with settleNotifiedAt := some now }).jobs,
        x = { j with settleNotifiedAt := some now } ∨ x ∈ s.jobs ∧ x.id ≠ id :=
      fun x hx => (Table.mem_put.mp hx).imp_right (fun ⟨hx, hne⟩ => ⟨hx, hjid ▸ hne⟩)
    have hcount := @announced_tell s id
    refine ⟨fun x hx hk hrun => ?_, fun x hx hk hrun => ?_, fun x hx hk => ?_, h.fileRunning,
      h.fileStopped, fun x hx hk hm => ?_, fun i => ?_, fun i hi => ?_, fun i hi => ?_,
      ⟨fun x hx => ?_, h.bound.2.1, h.bound.2.2⟩, fun i hi => ?_, fun i hi => ?_⟩
    · rcases hput x hx with rfl | ⟨hold, -⟩
      · exact absurd (hp.ended.symm.trans hrun) Bool.false_ne_true
      · exact h.running x hold hk hrun
    · rcases hput x hx with rfl | ⟨hold, -⟩
      · exact h.stopped j hmem hp.kind hp.ended
      · exact h.stopped x hold hk hrun
    · show _ ↔ announced (s.notices ++ [.jobSettled id]) x.id = 1
      rcases hput x hx with rfl | ⟨hold, hne⟩
      · have hone : announced (s.notices ++ [.jobSettled id]) j.id = 1 := by
          rw [hcount, hjid, hzero, if_pos rfl]
        exact ⟨fun _ => hone, fun _ => nofun⟩
      · rw [hcount, if_neg (Ne.symm hne)]
        exact h.marked x hold hk
    · show announced (s.notices ++ [.jobSettled id]) x.id = 1
      have hone := h.fileMarked x hx hk hm
      have hne : id ≠ x.id := by
        rintro rfl
        rw [hzero] at hone
        cases hone
      rw [hcount, if_neg hne]
      exact hone
    · show announced (s.notices ++ [.jobSettled id]) i ≤ 1
      rw [hcount]
      split
      · rename_i hi
        rw [← hi, hzero]
      · exact h.once i
    · by_cases hid : id = i
      · exact hid ▸ hend
      · refine h.only i ?_
        change announced (s.notices ++ [.jobSettled id]) i ≠ 0 at hi
        rw [hcount, if_neg hid] at hi
        exact hi
    · show announced (s.notices ++ [.jobSettled id]) i = 1 ∨ _
      by_cases hid : id = i
      · left
        rw [← hid, hcount, hzero, if_pos rfl]
      · rw [hcount, if_neg hid]
        refine (h.owed i hi).imp_right (fun ⟨hdue, x, hx, hxid, hpending⟩ => ?_)
        refine ⟨⟨hdue, Ne.symm hid⟩, x, Table.mem_put.mpr (Or.inr ⟨hx, ?_⟩), hxid, hpending⟩
        exact fun heq => hid (hjid.symm.trans (heq.symm.trans hxid))
    · rcases hput x hx with rfl | ⟨hold, -⟩
      · exact h.bound.1 j hmem
      · exact h.bound.1 x hold
    · refine ⟨(h.handlers i hi).1, ?_⟩
      exact isJob_put { j with settleNotifiedAt := some now } hj rfl rfl (h.handlers i hi).2
    · refine ⟨(h.promised i hi).1, ?_⟩
      exact future_put { j with settleNotifiedAt := some now } hj rfl rfl (h.promised i hi).2
  exact htold.save cfg

theorem Kept.settled (h : Kept due s) (hnone : ∀ j, s.jobs.get? id = some j → ¬Pending j) :
    Kept (fun i => due i ∧ i ≠ id) s := by
  refine h.mono (fun i hdue ⟨j, hj, hjid, hp⟩ => ⟨hdue, ?_⟩)
  rintro rfl
  exact hnone j (hjid ▸ Table.get?_key hj) hp

theorem kept_notify (h : Kept due s) (hid : IsJob id s) (hactive : s.active = true) :
    Kept (fun i => due i ∧ i ≠ id) (notifyJobSettled cfg id now s) := by
  unfold notifyJobSettled
  split
  · rename_i hnone
    exact h.settled (fun j hj => by rw [hnone] at hj; cases hj)
  · rename_i j hj
    split
    · rename_i hskip
      refine h.settled (fun x hx hp => ?_)
      obtain rfl : j = x := Option.some.inj (hj.symm.trans hx)
      simp [hactive, hp.ended, hp.untold] at hskip
    · rename_i hgo
      simp only [hactive, Bool.not_true, Bool.false_or, Bool.or_eq_true, not_or,
        Bool.not_eq_true, Option.isSome_eq_false_iff, Option.isNone_iff_eq_none] at hgo
      exact h.announce hj ⟨hid.kind hj, hgo.1, hgo.2⟩

theorem notify_inactive (h : s.active = false) : notifyJobSettled cfg id now s = s := by
  unfold notifyJobSettled
  split
  · rfl
  · rw [h]
    rfl

/-! ## The end of a job -/

theorem Kept.ends (h : Kept due s) (j' : BgJob) (hj : s.jobs.get? id = some j) (hk : j.kind = .job)
    (hrun : j.running = true) (hid' : j'.id = j.id) (hk' : j'.kind = j.kind)
    (hend : j'.running = false) (hfinished : j'.finishedAt ≠ none)
    (hmark : j'.settleNotifiedAt = j.settleNotifiedAt) :
    Kept (fun i => due i ∨ i = id) ((s.put j').end_ id) := by
  have hmem := Table.mem_of_get? hj
  have hjid : j.id = id := Table.key_of_get? hj
  obtain ⟨hnot, hfresh⟩ := h.running j hmem hk hrun
  rw [hjid] at hnot
  have hended : ((s.put j').end_ id).ended = s.ended ++ [id] := if_neg hnot
  have hput : ∀ x ∈ (s.put j').jobs, x = j' ∨ x ∈ s.jobs ∧ x.id ≠ id := by
    refine fun x hx => (Table.mem_put.mp hx).imp_right (fun ⟨hx, hne⟩ => ⟨hx, ?_⟩)
    rw [← hjid, ← hid']
    exact hne
  have hmore : ∀ i ∈ s.ended, i ∈ ((s.put j').end_ id).ended := by
    intro i hi
    rw [hended]
    exact List.mem_append_left _ hi
  have hnew : id ∈ ((s.put j').end_ id).ended := by
    rw [hended]
    exact List.mem_append_right _ List.mem_cons_self
  refine ⟨fun x hx hk hrun => ?_, fun x hx hk hrun => ?_, fun x hx hk => ?_, h.fileRunning,
    fun x hx hk hrun => ?_, h.fileMarked, h.once, fun i hi => hmore i (h.only i hi), fun i hi => ?_,
    ⟨fun x hx => ?_, h.bound.2.1, fun i hi => ?_⟩, fun i hi => ?_, fun i hi => ?_⟩
  · rcases hput x hx with rfl | ⟨hold, hne⟩
    · exact absurd (hend.symm.trans hrun) Bool.false_ne_true
    · refine ⟨fun hin => ?_, (h.running x hold hk hrun).2⟩
      rw [hended] at hin
      rcases List.mem_append.mp hin with hin | hin
      · exact (h.running x hold hk hrun).1 hin
      · exact hne (List.mem_singleton.mp hin)
  · rcases hput x hx with rfl | ⟨hold, -⟩
    · rw [hid', hjid]
      exact ⟨hnew, hfinished⟩
    · exact ⟨hmore _ (h.stopped x hold hk hrun).1, (h.stopped x hold hk hrun).2⟩
  · rcases hput x hx with rfl | ⟨hold, -⟩
    · rw [hmark, hid']
      exact h.marked j hmem (hk'.symm.trans hk)
    · exact h.marked x hold hk
  · exact ⟨hmore _ (h.fileStopped x hx hk hrun).1, (h.fileStopped x hx hk hrun).2⟩
  · rw [hended] at hi
    have hpending : Pending j' := ⟨hk'.trans hk, hend, hmark.trans hfresh.settleNotifiedAt⟩
    rcases List.mem_append.mp hi with hi | hi
    · refine (h.owed i hi).imp_right (fun ⟨hdue, x, hx, hxid, hp⟩ => ⟨Or.inl hdue, x, ?_, hxid, hp⟩)
      refine Table.mem_put.mpr (Or.inr ⟨hx, fun heq => hnot ?_⟩)
      have hi' : i = id := hxid.symm.trans (heq.trans (hid'.trans hjid))
      exact hi' ▸ hi
    · rw [List.mem_singleton.mp hi]
      exact Or.inr ⟨Or.inr rfl, j', Table.mem_put.mpr (Or.inl rfl), hid'.trans hjid, hpending⟩
  · rcases hput x hx with rfl | ⟨hold, -⟩
    · rw [hid']
      exact h.bound.1 j hmem
    · exact h.bound.1 x hold
  · rw [hended] at hi
    rcases List.mem_append.mp hi with hi | hi
    · exact h.bound.2.2 i hi
    · rw [List.mem_singleton.mp hi, ← hjid]
      exact h.bound.1 j hmem
  · exact ⟨(h.handlers i hi).1, isJob_put j' hj hid' hk' (h.handlers i hi).2⟩
  · exact ⟨(h.promised i hi).1, future_put j' hj hid' hk' (h.promised i hi).2⟩

theorem end_eq_self (h : id ∈ s.ended) : s.end_ id = s := by
  unfold State.end_
  rw [if_pos h]

/-- **The end of a job, however it is found out.** It is told at once when the registry is
active, and otherwise due. -/
theorem kept_finish {code : Option ℤ} {signal : Option String} (h : Kept due s)
    (hid : IsJob id s) (hdue : s.active = false → due id) :
    Kept due (finishJob cfg id code signal now s) := by
  unfold finishJob
  split
  · exact h
  · rename_i j hj
    have hk := hid.kind hj
    have hmem := Table.mem_of_get? hj
    have hjid : j.id = id := Table.key_of_get? hj
    dsimp only
    set j' : BgJob := { j with
      running := false, exitCode := some code, signal := some signal
      finishedAt := some (j.finishedAt.getD now) } with hj'
    cases hrun : j.running with
    | true =>
        have hfirst : j.finishedAt.isNone = true := by
          rw [(h.running j hmem hk hrun).2.finishedAt]
          rfl
        rw [if_pos hfirst]
        set ended := (((s.put j').end_ id).clearJobTimer id).save cfg
        have hended : Kept (fun i => due i ∨ i = id) ended :=
          ((h.ends j' hj hk hrun rfl rfl rfl (Option.some_ne_none _) rfl).clear id).save cfg
        cases hactive : s.active with
        | true =>
            have hjob : IsJob id ended := isJob_put j' hj rfl rfl hid
            refine (kept_notify hended hjob hactive).mono (fun i hi _ => ?_)
            exact hi.1.resolve_right hi.2
        | false =>
            have hinactive : ended.active = false := hactive
            rw [notify_inactive hinactive]
            refine hended.mono (fun i hi _ => ?_)
            rcases hi with hi | rfl
            · exact hi
            · exact hdue hactive
    | false =>
        obtain ⟨hend, hat⟩ := h.stopped j hmem hk hrun
        have hlater : ¬j.finishedAt.isNone = true := by simpa using hat
        rw [if_neg hlater]
        have hput : Kept due (s.put j') := by
          refine h.put hj ⟨rfl, rfl, fun _ => ⟨hrun.symm, ?_, rfl⟩⟩
          simp [hj', hat]
        have hsame : (s.put j').end_ id = s.put j' := end_eq_self (hjid ▸ hend)
        rw [hsame]
        exact (hput.clear id).save cfg

/-! ## Loops -/

theorem schedule_active : (scheduleJobNudge cfg id s).active = s.active := by
  unfold scheduleJobNudge
  dsimp only
  split
  · rfl
  · split
    · rfl
    · rfl

theorem stillRunning_active : (notifyJobStillRunning cfg id now s).active = s.active := by
  unfold notifyJobStillRunning
  split
  · rfl
  · split
    · rfl
    · exact schedule_active

theorem notify_active : (notifyJobSettled cfg id now s).active = s.active := by
  unfold notifyJobSettled
  split
  · rfl
  · split
    · rfl
    · rfl

theorem finish_active {code : Option ℤ} {signal : Option String} :
    (finishJob cfg id code signal now s).active = s.active := by
  unfold finishJob
  split
  · rfl
  · dsimp only
    split
    · exact notify_active
    · rfl

theorem abandon_active : (abandon now id s).active = s.active := by
  unfold abandon
  split
  · rfl
  · split
    · rfl
    · rfl

/-- Jobs are due while the registry is not active. -/
abbrev KeptAt (s : State) : Prop := Kept (fun _ => s.active = false) s

theorem KeptAt.of (h : Kept (fun _ => s.active = false) s') (hactive : s'.active = s.active) :
    KeptAt s' := by
  refine h.mono (fun _ hdue _ => ?_)
  rw [hactive]
  exact hdue

theorem keptAt_forEach {body : ℕ → State → State} (hbody : ∀ id s, KeptAt s → KeptAt (body id s))
    (h : KeptAt s) : KeptAt (forEachJob body s) := by
  unfold forEachJob
  induction s.jobs.rows.map BgJob.id generalizing s with
  | nil => exact h
  | cons id ids ih => exact ih (hbody id s h)

theorem keptAt_finish {code : Option ℤ} {signal : Option String} (h : KeptAt s)
    (hid : IsJob id s) : KeptAt (finishJob cfg id code signal now s) :=
  KeptAt.of (kept_finish h hid (fun hactive => hactive)) finish_active

theorem keptAt_schedule (h : KeptAt s) (hid : IsJob id s) : KeptAt (scheduleJobNudge cfg id s) :=
  KeptAt.of (kept_schedule h hid) schedule_active

theorem keptAt_probe {alive : Probe} (h : KeptAt s) :
    KeptAt (probeJob cfg alive now id s) := by
  unfold probeJob
  split
  · exact h
  · rename_i j hj
    split
    · rename_i hcond
      simp only [Bool.and_eq_true, decide_eq_true_eq] at hcond
      exact keptAt_finish h (isJob_of_get? hj hcond.1.1)
    · exact h

/-- One turn of the activation: the job is no longer due. -/
theorem kept_activateJob (cfg : Config) (alive : Probe) (now : ℤ) (id : ℕ) (h : Kept due s)
    (hactive : s.active = true) :
    Kept (fun i => due i ∧ i ≠ id) (activateJob cfg alive now id s) ∧
      (activateJob cfg alive now id s).active = true := by
  unfold activateJob
  split
  · rename_i hnone
    exact ⟨h.settled (fun j hj => by rw [hnone] at hj; cases hj), hactive⟩
  · rename_i j hj
    have hsettled : ¬Pending j → Kept (fun i => due i ∧ i ≠ id) s := by
      intro hno
      refine h.settled (fun x hx hp => hno ?_)
      obtain rfl : j = x := Option.some.inj (hj.symm.trans hx)
      exact hp
    split
    · rename_i hk
      exact ⟨hsettled (fun hp => hk hp.kind), hactive⟩
    · rename_i hk
      have hjob := isJob_of_get? hj (not_not.mp hk)
      split
      · rename_i hdead
        rw [Bool.and_eq_true] at hdead
        refine ⟨kept_finish (hsettled (fun hp => ?_)) hjob (fun hno => ?_),
          finish_active.trans hactive⟩
        · rw [hp.ended] at hdead
          exact Bool.false_ne_true hdead.1
        · rw [hactive] at hno
          cases hno
      · split
        · rename_i hrun
          refine ⟨kept_schedule (hsettled (fun hp => ?_)) hjob, schedule_active.trans hactive⟩
          rw [hp.ended] at hrun
          exact Bool.false_ne_true hrun
        · exact ⟨kept_notify h hjob hactive, notify_active.trans hactive⟩

theorem keptAt_activate {alive : Probe} (h : KeptAt s) :
    KeptAt (activate cfg alive now s) := by
  unfold activate
  split
  · exact h
  · have hloop : ∀ (ids : List ℕ) (s : State), Kept (fun i => i ∈ ids) s → s.active = true →
        KeptAt (ids.foldl (fun s id => activateJob cfg alive now id s) s) := by
      intro ids
      induction ids with
      | nil =>
          intro s h _
          exact h.mono (fun i hi _ => absurd hi List.not_mem_nil)
      | cons id ids ih =>
          intro s h hactive
          obtain ⟨hnext, hstill⟩ := kept_activateJob cfg alive now id h hactive
          refine ih _ (hnext.mono (fun i hi _ => ?_)) hstill
          exact (List.mem_cons.mp hi.1).resolve_left hi.2
    have hstart : Kept (fun i => i ∈ s.jobs.rows.map BgJob.id) { s with active := true } := by
      have hany : Kept (fun _ => s.active = false) { s with active := true } :=
        ⟨h.running, h.stopped, h.marked, h.fileRunning, h.fileStopped, h.fileMarked, h.once, h.only,
          h.owed, h.bound, h.handlers, h.promised⟩
      refine hany.mono (fun i _ ⟨j, hj, hjid, _⟩ => ?_)
      rw [← hjid]
      exact List.mem_map_of_mem (Table.mem_rows.mpr hj)
    exact hloop _ _ hstart rfl

/-! ## Futures -/

theorem keptAt_abandon (h : KeptAt s) : KeptAt (abandon now id s) := by
  refine KeptAt.of ?_ abandon_active
  unfold abandon
  split
  · exact h
  · rename_i j hj
    split
    · rename_i hexpired
      simp only [BgJob.expired, Bool.and_eq_true, decide_eq_true_eq] at hexpired
      refine (h.putFuture _ hj ?_ ?_ hexpired.1.1.1).tell (n := .futureAbandoned id) (by rintro _ ⟨⟩)
      · rfl
      · rfl
    · exact h

theorem Kept.delete (h : Kept due s) {p : BgJob → Bool}
    (hp : ∀ j ∈ s.jobs, Pending j → p j = false) : Kept due { s with jobs := s.jobs.delete p } := by
  have hold : ∀ j ∈ s.jobs.delete p, j ∈ s.jobs := fun j hj => (Table.mem_delete.mp hj).1
  refine { h with
    running := fun j hj => h.running j (hold j hj)
    stopped := fun j hj => h.stopped j (hold j hj)
    marked := fun j hj => h.marked j (hold j hj)
    owed := fun i hi => ?_
    bound := ⟨fun j hj => h.bound.1 j (hold j hj), h.bound.2⟩
    handlers := fun i hi => ?_
    promised := fun i hi => ?_ }
  · refine (h.owed i hi).imp_right (fun ⟨hdue, j, hj, hjid, hpending⟩ => ⟨hdue, j, ?_, hjid, hpending⟩)
    exact Table.mem_delete.mpr ⟨hj, hp j hj hpending⟩
  · exact ⟨(h.handlers i hi).1, fun j hj => (h.handlers i hi).2 j (hold j hj)⟩
  · exact ⟨(h.promised i hi).1, fun j hj => (h.promised i hi).2 j (hold j hj)⟩

/-- The cap of the registry evicts no job whose end is still to be told. -/
def Spares (s : State) : Prop := ∀ j ∈ s.jobs, Pending j → j.id ∉ evicted s.jobs

theorem keptAt_reap (h : KeptAt s) (hspares : Spares (forEachJob (abandon now) s)) :
    KeptAt (reapAbandoned cfg now s) := by
  have hreaped : KeptAt (forEachJob (abandon now) s) :=
    keptAt_forEach (fun _ _ h' => keptAt_abandon h') h
  unfold reapAbandoned
  dsimp only
  have hcapped : KeptAt { forEachJob (abandon now) s with
      jobs := (forEachJob (abandon now) s).jobs.delete (fun j => decide
        (j.id ∈ evicted (forEachJob (abandon now) s).jobs)) } :=
    hreaped.delete (fun j hj hp => decide_eq_false (hspares j hj hp))
  split
  · exact hcapped
  · exact hcapped.save cfg

/-! ## The condition -/

/-- The memory in which the reaper runs after a settlement. -/
def settlement (cfg : Config) (id : ℕ) (value : String) (rejected : Bool) (j : BgJob)
    (s : State) : State :=
  (({ s with promises := s.promises.filter (· ≠ id) } : State).put
    { j with running := false, value := some value, rejected }).save cfg

/-- **A restart that forgets nothing.** No job that has ended is found running again, what
was told is noted in the file, and a job whose end is still to be told is in the file as one
that runs, or without a pid. -/
structure Recoverable (alive : Probe) (s : State) : Prop where
  stays : ∀ j ∈ s.file, j.kind = .job → j.id ∈ s.ended →
    if j.hasPid then j.dead alive = true else j.running = false
  noted : ∀ j ∈ s.file, j.kind = .job → announced s.notices j.id ≠ 0 → j.settleNotifiedAt ≠ none
  waiting : ∀ j ∈ s.jobs, Pending j →
    ∃ f ∈ s.file, f.id = j.id ∧ f.kind = .job ∧ (f.running = true ∨ f.hasPid = false)

/-- **A step that loses no end of a job.** -/
def Undisturbed (cfg : Config) (s : State) : Event → Prop
  | .call (.reapAbandoned now) => Spares (forEachJob (abandon now) s)
  | .call (.promiseSettles id value rejected now) =>
      ∀ j, s.jobs.get? id = some j →
        Spares (forEachJob (abandon now) (settlement cfg id value rejected j s))
  | .restart alive _ => Recoverable alive s
  | _ => True

/-! ## Calls -/

theorem keptAt_promise {value : String} {rejected : Bool} (h : KeptAt s)
    (hspares : Undisturbed cfg s (.call (.promiseSettles id value rejected now))) :
    KeptAt (promiseSettles cfg id value rejected now s) := by
  unfold promiseSettles
  split
  · rename_i hid
    have hdrop : KeptAt { s with promises := s.promises.filter (· ≠ id) } :=
      { h with promised := fun i hi => h.promised i (List.mem_of_mem_filter hi) }
    unfold settleFuture
    split
    · exact hdrop
    · rename_i j hj
      split
      · exact hdrop
      · have hfuture := (h.promised id hid).2 j (Table.mem_of_get? hj) (Table.key_of_get? hj)
        have hput : KeptAt (settlement cfg id value rejected j s) :=
          (hdrop.putFuture { j with running := false, value := some value, rejected } hj rfl rfl
            hfuture).save cfg
        exact (keptAt_reap hput (hspares j hj)).tell (n := .futureSettled id) (fun _ => nofun)
  · exact h

theorem keptAt_cancel (h : KeptAt s) : KeptAt (cancel cfg id now s) := by
  unfold cancel
  split
  · exact h
  · rename_i j hj
    split
    · rename_i hcond
      simp only [Bool.and_eq_true, decide_eq_true_eq] at hcond
      have hput : KeptAt (s.put { j with cancelled := true }) :=
        h.put hj ⟨rfl, rfl, fun _ => ⟨rfl, Iff.rfl, rfl⟩⟩
      have hjob := isJob_put { j with cancelled := true } hj rfl rfl (isJob_of_get? hj hcond.1)
      exact (keptAt_finish hput hjob).save cfg
    · split
      · rename_i hk
        have hput : KeptAt (s.put { j with running := false, cancelled := true }) :=
          h.putFuture { j with running := false, cancelled := true } hj rfl rfl hk
        exact (hput.tell (n := .futureCancelled id) (fun _ => nofun)).save cfg
      · exact h.save cfg

theorem Kept.created (h : Kept due s) (job : BgJob) {watched promises : List ℕ}
    (hid : job.id = s.next) (hrun : job.kind = .job → job.running = true ∧ Fresh job)
    (hwatched : ∀ id ∈ watched, id ∈ s.watched ∨ id = s.next ∧ job.kind = .job)
    (hpromises : ∀ id ∈ promises, id ∈ s.promises ∨ id = s.next ∧ job.kind = .future) :
    Kept due { s.put job with next := s.next + 1, watched, promises } := by
  have hrecord : ∀ j ∈ (s.put job).jobs, j = job ∨ j ∈ s.jobs :=
    fun j hj => (Table.mem_put.mp hj).imp_right And.left
  have hnext : ∀ j ∈ (s.put job).jobs, j.id = s.next → j = job := by
    intro j hj hjid
    rcases hrecord j hj with rfl | hold
    · rfl
    · exact absurd hjid (h.bound.1 j hold).ne
  have hunborn : s.next ∉ s.ended := fun hin => (h.bound.2.2 _ hin).false
  have hsilent : announced s.notices s.next = 0 := by
    by_contra hne
    exact hunborn (h.only _ hne)
  have hlater : ∀ {n : ℕ}, n < s.next → n < s.next + 1 := fun hn => hn.trans (Nat.lt_succ_self _)
  refine ⟨fun j hj hk hr => ?_, fun j hj hk hr => ?_, fun j hj hk => ?_, h.fileRunning,
    h.fileStopped, h.fileMarked, h.once, h.only, fun i hi => ?_,
    ⟨fun j hj => ?_, fun j hj => hlater (h.bound.2.1 j hj), fun i hi => hlater (h.bound.2.2 i hi)⟩,
    fun i hi => ?_, fun i hi => ?_⟩
  · rcases hrecord j hj with rfl | hold
    · rw [hid]
      exact ⟨hunborn, (hrun hk).2⟩
    · exact h.running j hold hk hr
  · rcases hrecord j hj with rfl | hold
    · rw [(hrun hk).1] at hr
      cases hr
    · exact h.stopped j hold hk hr
  · rcases hrecord j hj with rfl | hold
    · rw [hid, (hrun hk).2.settleNotifiedAt]
      show _ ↔ announced s.notices s.next = 1
      rw [hsilent]
      exact ⟨fun hne => absurd rfl hne, fun hone => absurd hone (by decide)⟩
    · exact h.marked j hold hk
  · refine (h.owed i hi).imp_right (fun ⟨hdue, j, hj, hjid, hp⟩ => ⟨hdue, j, ?_, hjid, hp⟩)
    refine Table.mem_put.mpr (Or.inr ⟨hj, ?_⟩)
    rw [hid]
    exact (h.bound.1 j hj).ne
  · show j.id < s.next + 1
    rcases hrecord j hj with rfl | hold
    · omega
    · exact hlater (h.bound.1 j hold)
  · show i < s.next + 1 ∧ _
    have hold : i ∈ s.watched ∨ i ∈ s.timers →
        i < s.next + 1 ∧ IsJob i { s.put job with next := s.next + 1, watched, promises } := by
      intro hi
      obtain ⟨hlt, hjob⟩ := h.handlers i hi
      refine ⟨hlater hlt, fun j hj hjid => ?_⟩
      rcases hrecord j hj with rfl | hj
      · exact absurd (hid.symm.trans hjid) hlt.ne'
      · exact hjob j hj hjid
    rcases hi with hi | hi
    · rcases hwatched i hi with hi | ⟨rfl, hk⟩
      · exact hold (Or.inl hi)
      · refine ⟨Nat.lt_succ_self _, fun j hj hjid => ?_⟩
        rw [hnext j hj hjid]
        exact hk
    · exact hold (Or.inr hi)
  · show i < s.next + 1 ∧ _
    rcases hpromises i hi with hi | ⟨rfl, hk⟩
    · obtain ⟨hlt, hfuture⟩ := h.promised i hi
      refine ⟨hlater hlt, fun j hj hjid => ?_⟩
      rcases hrecord j hj with rfl | hj
      · exact absurd (hid.symm.trans hjid) hlt.ne'
      · exact hfuture j hj hjid
    · refine ⟨Nat.lt_succ_self _, fun j hj hjid => ?_⟩
      rw [hnext j hj hjid]
      exact hk

theorem keptAt_start {pid : Option ℕ} (h : KeptAt s) : KeptAt (start cfg pid now s) := by
  unfold start
  dsimp only
  set job : BgJob :=
    { id := s.next, kind := .job, pid, startedAt := now, running := true, exitCode := none,
      signal := none, value := none, rejected := false, ttlAt := none,
      nudgeAt := some (now + cfg.jobNudgeMs), nudgeNotifiedAt := none, finishedAt := none,
      settleNotifiedAt := none, cancelled := false }
  have hnew : KeptAt (({ s.put job with
      next := s.next + 1, watched := s.watched ++ [s.next] } : State).save cfg) := by
    refine (h.created job rfl (fun _ => ⟨rfl, rfl, rfl⟩) (fun id hid => ?_)
      (fun id hid => Or.inl hid)).save cfg
    exact (List.mem_append.mp hid).imp_right (fun hlast => ⟨List.mem_singleton.mp hlast, rfl⟩)
  split
  · refine keptAt_schedule hnew ?_
    exact (hnew.handlers s.next (Or.inl (List.mem_append_right _ List.mem_cons_self))).2
  · exact hnew

theorem keptAt_register {ttlMs : Option ℤ} (h : KeptAt s) :
    KeptAt (registerFuture cfg ttlMs now s) := by
  unfold registerFuture
  dsimp only
  refine (h.created _ rfl (fun hk => ?_) (fun id hid => Or.inl hid) (fun id hid => ?_)).save cfg
  · cases hk
  · exact (List.mem_append.mp hid).imp_right (fun hlast => ⟨List.mem_singleton.mp hlast, rfl⟩)

theorem keptAt_call (h : KeptAt s) {c : Call} (hc : Undisturbed cfg s (.call c)) :
    KeptAt (call cfg s c) := by
  cases c with
  | start pid now => exact keptAt_start h
  | exited id code signal now =>
      unfold call exited
      dsimp only
      split
      · rename_i hid
        exact keptAt_finish h (h.handlers id (Or.inl hid)).2
      · exact h
  | list alive now => exact keptAt_forEach (fun _ _ h' => keptAt_probe h') h
  | get id alive now => exact keptAt_probe h
  | timerFires id alive now =>
      unfold call timerFires
      dsimp only
      split
      · rename_i hid
        have hclear : KeptAt (s.clearJobTimer id) := h.clear id
        have hjob : IsJob id (s.clearJobTimer id) := (h.handlers id (Or.inr hid)).2
        split
        · exact hclear
        · split
          · exact keptAt_schedule hclear hjob
          · split
            · exact keptAt_finish hclear hjob
            · exact KeptAt.of (kept_stillRunning hclear hjob) stillRunning_active
      · exact h
  | rearm id target =>
      unfold call rearm
      dsimp only
      split
      · exact h
      · rename_i j hj
        split
        · exact h
        · rename_i hok
          push Not at hok
          have hput : KeptAt (s.put { j with nudgeAt := some target }) :=
            h.put hj ⟨rfl, rfl, fun _ => ⟨rfl, Iff.rfl, rfl⟩⟩
          have hsaved : KeptAt ((s.put { j with nudgeAt := some target }).save cfg) := hput.save cfg
          split
          · refine keptAt_schedule hsaved ?_
            exact isJob_put { j with nudgeAt := some target } hj rfl rfl (isJob_of_get? hj hok.1)
          · exact hsaved
  | activate alive now => exact keptAt_activate h
  | registerFuture ttlMs now => exact keptAt_register h
  | promiseSettles id value rejected now => exact keptAt_promise h hc
  | reapAbandoned now => exact keptAt_reap h hc
  | cancel id now => exact keptAt_cancel h

/-! ## Restarts -/

/-- What a restart makes of the record of a job. -/
theorem reloadJob_cases (cfg : Config) (alive : Probe) (now : ℤ) {f : BgJob} (hk : f.kind = .job) :
    (reloadJob cfg alive now f).kind = .job ∧
    ((f.hasPid = true ∧ f.dead alive = false ∧ (reloadJob cfg alive now f).running = true ∧
        (reloadJob cfg alive now f).finishedAt = f.finishedAt ∧
        (reloadJob cfg alive now f).settleNotifiedAt = f.settleNotifiedAt) ∨
      (f.hasPid = true ∧ f.dead alive = true ∧ (reloadJob cfg alive now f).running = false ∧
        (reloadJob cfg alive now f).finishedAt ≠ none ∧
        (reloadJob cfg alive now f).settleNotifiedAt =
          if !f.running && f.settleNotifiedAt.isNone then some now else f.settleNotifiedAt) ∨
      (f.hasPid = false ∧ f.dead alive = false ∧ reloadJob cfg alive now f = f)) := by
  unfold reloadJob
  rw [hk]
  cases hpid : f.hasPid with
  | true =>
      cases hdead : f.dead alive with
      | true => exact ⟨rfl, Or.inr (Or.inl ⟨rfl, rfl, rfl, Option.some_ne_none _, rfl⟩)⟩
      | false => exact ⟨rfl, Or.inl ⟨rfl, rfl, rfl, rfl, rfl⟩⟩
  | false =>
      have hdead : f.dead alive = false := by
        unfold BgJob.hasPid at hpid
        unfold BgJob.dead
        rw [Option.any_eq_false] at hpid ⊢
        intro p hp
        have hno : p = 0 := by simpa using hpid p hp
        simp [hno]
      exact ⟨hk, Or.inr (Or.inr ⟨rfl, hdead, rfl⟩)⟩

theorem mem_foundDead {alive : Probe} {file : Records} : id ∈ foundDead alive file ↔
    ∃ f ∈ file, f.id = id ∧ f.kind = .job ∧ f.running = true ∧ f.dead alive = true := by
  unfold foundDead
  rw [List.mem_map]
  constructor
  · rintro ⟨f, hf, rfl⟩
    obtain ⟨hf, hcond⟩ := Table.mem_select.mp hf
    simp only [Bool.and_eq_true, decide_eq_true_eq] at hcond
    exact ⟨f, hf, rfl, hcond.1.1, hcond.1.2, hcond.2⟩
  · rintro ⟨f, hf, rfl, hk, hrun, hdead⟩
    refine ⟨f, Table.mem_select.mpr ⟨hf, ?_⟩, rfl⟩
    simp [hk, hrun, hdead]

theorem reloadJob_kind (cfg : Config) (alive : Probe) (now : ℤ) (f : BgJob) :
    (reloadJob cfg alive now f).kind = f.kind := by
  unfold reloadJob
  split
  · dsimp only
    split
    · rfl
    · rfl
  · split
    · rfl
    · rfl

theorem mem_restart_ended {alive : Probe} : id ∈ (restart cfg alive now s).ended ↔
    id ∈ s.ended ∨ id ∈ foundDead alive s.file := by
  show id ∈ s.ended ++ _ ↔ _
  rw [List.mem_append, List.mem_filter, decide_eq_true_eq]
  constructor
  · exact fun hi => hi.imp_right And.left
  · rintro (hi | hi)
    · exact Or.inl hi
    · by_cases hin : id ∈ s.ended
      · exact Or.inl hin
      · exact Or.inr ⟨hi, hin⟩

theorem mem_restart_jobs {alive : Probe} {j' : BgJob} :
    j' ∈ (restart cfg alive now s).jobs ↔ ∃ f ∈ s.file, reloadJob cfg alive now f = j' := by
  show j' ∈ s.file.update (fun _ => true) (reloadJob cfg alive now)
    (reloadJob_id cfg alive now) ↔ _
  simp [Table.mem_update]

section Restart
variable {alive : Probe} {now : ℤ} {f : BgJob}

/-- A job that is found alive, or has no process, has not ended unless its record says so. -/
theorem not_ended_of_alive (h : KeptAt s) (hr : Recoverable alive s) (hf : f ∈ s.file)
    (hk : f.kind = .job) (hdead : f.dead alive = false) (hup : f.hasPid = true ∨ f.running = true) :
    f.id ∉ (restart cfg alive now s).ended ∧ Fresh f := by
  have hnot : f.id ∉ s.ended := by
    intro hin
    have hstays := hr.stays f hf hk hin
    split at hstays
    · rw [hdead] at hstays
      cases hstays
    · rename_i hpid
      rw [hstays] at hup
      exact hup.elim hpid (fun hfalse => Bool.false_ne_true hfalse)
  refine ⟨fun hin => ?_, ?_⟩
  · rcases mem_restart_ended.mp hin with hin | hin
    · exact hnot hin
    · obtain ⟨x, hx, hxid, -, -, hxdead⟩ := mem_foundDead.mp hin
      rw [Table.eq_of_key hx hf hxid, hdead] at hxdead
      cases hxdead
  · cases hrun : f.running with
    | true => exact h.fileRunning f hf hk hrun
    | false => exact absurd (h.fileStopped f hf hk hrun).1 hnot

/-- A record of the file that has ended is noted as told, or it has no pid. -/
theorem noted_of_stopped (h : KeptAt s) (hr : Recoverable alive s) (hf : f ∈ s.file)
    (hk : f.kind = .job) (hrun : f.running = false) (hpid : f.hasPid = true) :
    f.settleNotifiedAt ≠ none := by
  rcases h.owed f.id (h.fileStopped f hf hk hrun).1 with hone | ⟨-, j, hj, hjid, hp⟩
  · exact hr.noted f hf hk (by rw [hone]; exact one_ne_zero)
  · obtain ⟨x, hx, hxid, -, hx'⟩ := hr.waiting j hj hp
    rw [Table.eq_of_key hx hf (hxid.trans hjid), hrun, hpid] at hx'
    exact absurd hx' (by simp)

theorem fileMarked_iff (h : KeptAt s) (hr : Recoverable alive s) (hf : f ∈ s.file)
    (hk : f.kind = .job) : f.settleNotifiedAt ≠ none ↔ announced s.notices f.id = 1 := by
  constructor
  · exact h.fileMarked f hf hk
  · intro hone
    exact hr.noted f hf hk (by rw [hone]; exact one_ne_zero)

theorem pending_reload (h : KeptAt s) (hf : f ∈ s.file) (hk : f.kind = .job)
    (hend : f.running = true ∧ f.dead alive = true ∨ f.hasPid = false ∧ f.running = false ∧
      f.settleNotifiedAt = none) : Pending (reloadJob cfg alive now f) := by
  obtain ⟨hkind, hcases⟩ := reloadJob_cases cfg alive now hk
  rcases hcases with ⟨hpid, hdead, -⟩ | ⟨hpid, -, hstop, -, hmark⟩ | ⟨hpid, hdead, heq⟩
  · rcases hend with ⟨-, hdead'⟩ | ⟨hpid', -⟩
    · rw [hdead] at hdead'
      cases hdead'
    · rw [hpid] at hpid'
      cases hpid'
  · rcases hend with ⟨hrun, -⟩ | ⟨hpid', -⟩
    · refine ⟨hkind, hstop, ?_⟩
      rw [hmark, hrun, if_neg (by simp)]
      exact (h.fileRunning f hf hk hrun).settleNotifiedAt
    · rw [hpid] at hpid'
      cases hpid'
  · rcases hend with ⟨-, hdead'⟩ | ⟨-, hrun, hnone⟩
    · rw [hdead] at hdead'
      cases hdead'
    · rw [heq]
      exact ⟨hk, hrun, hnone⟩

theorem keptAt_restart (h : KeptAt s) (hr : Recoverable alive s) :
    KeptAt (restart cfg alive now s) := by
  refine ⟨fun j' hj' hk hrun => ?_, fun j' hj' hk hrun => ?_, fun j' hj' hk => ?_, h.fileRunning,
    fun f hf hk hrun => ?_, h.fileMarked, h.once,
    fun i hi => mem_restart_ended.mpr (Or.inl (h.only i hi)), fun i hi => ?_,
    ⟨fun j' hj' => ?_, h.bound.2.1, fun i hi => ?_⟩, fun i hi => ?_, fun i hi => ?_⟩
  · obtain ⟨f, hf, rfl⟩ := mem_restart_jobs.mp hj'
    rw [reloadJob_kind] at hk
    rw [reloadJob_id]
    obtain ⟨-, ⟨hpid, hdead, -, hfin, hmark⟩ | ⟨-, -, hstop, -⟩ | ⟨-, hdead, heq⟩⟩ :=
      reloadJob_cases cfg alive now hk
    · obtain ⟨hnot, hfresh⟩ := @not_ended_of_alive cfg s alive now f h hr hf hk hdead
        (Or.inl hpid)
      exact ⟨hnot, hfin.trans hfresh.finishedAt, hmark.trans hfresh.settleNotifiedAt⟩
    · rw [hstop] at hrun
      cases hrun
    · rw [heq] at hrun ⊢
      exact not_ended_of_alive h hr hf hk hdead (Or.inr hrun)
  · obtain ⟨f, hf, rfl⟩ := mem_restart_jobs.mp hj'
    rw [reloadJob_kind] at hk
    rw [reloadJob_id, mem_restart_ended]
    obtain ⟨-, ⟨-, -, hup, -⟩ | ⟨-, hdead, -, hfin, -⟩ | ⟨-, -, heq⟩⟩ := reloadJob_cases cfg alive now hk
    · rw [hup] at hrun
      cases hrun
    · refine ⟨?_, hfin⟩
      cases hfrun : f.running with
      | true => exact Or.inr (mem_foundDead.mpr ⟨f, hf, rfl, hk, hfrun, hdead⟩)
      | false => exact Or.inl (h.fileStopped f hf hk hfrun).1
    · rw [heq] at hrun ⊢
      exact ⟨Or.inl (h.fileStopped f hf hk hrun).1, (h.fileStopped f hf hk hrun).2⟩
  · obtain ⟨f, hf, rfl⟩ := mem_restart_jobs.mp hj'
    rw [reloadJob_kind] at hk
    have hiff := fileMarked_iff h hr hf hk
    rw [reloadJob_id]
    obtain ⟨-, ⟨-, -, -, -, hmark⟩ | ⟨hpid, -, -, -, hmark⟩ | ⟨-, -, heq⟩⟩ :=
      reloadJob_cases cfg alive now hk
    · rw [hmark]
      exact hiff
    · -- a record that ended before is noted, so it does not count as told only now
      have hkeep : (!f.running && f.settleNotifiedAt.isNone) = false := by
        cases hfrun : f.running with
        | true => rfl
        | false =>
            have hnoted := noted_of_stopped h hr hf hk hfrun hpid
            simpa [Option.isSome_iff_ne_none] using hnoted
      rw [hmark, hkeep, if_neg Bool.false_ne_true]
      exact hiff
    · rw [heq]
      exact hiff
  · exact ⟨mem_restart_ended.mpr (Or.inl (h.fileStopped f hf hk hrun).1),
      (h.fileStopped f hf hk hrun).2⟩
  · show announced s.notices i = 1 ∨ _
    have hpending : ∀ f ∈ s.file, f.id = i → Pending (reloadJob cfg alive now f) →
        ∃ j ∈ (restart cfg alive now s).jobs, j.id = i ∧ Pending j := by
      intro f hf hfid hp
      exact ⟨_, mem_restart_jobs.mpr ⟨f, hf, rfl⟩, (reloadJob_id cfg alive now f).trans hfid, hp⟩
    rcases mem_restart_ended.mp hi with hin | hin
    · refine (h.owed i hin).imp_right (fun ⟨_, j, hj, hjid, hp⟩ => ⟨rfl, ?_⟩)
      obtain ⟨f, hf, hfid, hfk, hfwait⟩ := hr.waiting j hj hp
      have hfi : f.id = i := hfid.trans hjid
      refine hpending f hf hfi (pending_reload h hf hfk ?_)
      have hstays := hr.stays f hf hfk (hfi ▸ hin)
      cases hpid : f.hasPid with
      | true =>
          rw [hpid, if_pos rfl] at hstays
          exact Or.inl ⟨hfwait.resolve_right (by rw [hpid]; exact Bool.true_eq_false.mp), hstays⟩
      | false =>
          rw [hpid, if_neg Bool.false_ne_true] at hstays
          refine Or.inr ⟨rfl, hstays, ?_⟩
          by_contra hmark
          have hone := h.fileMarked f hf hfk hmark
          rw [hfid] at hone
          exact (h.marked j hj hp.kind).mpr hone hp.untold
    · obtain ⟨f, hf, hfid, hfk, hfrun, hdead⟩ := mem_foundDead.mp hin
      exact Or.inr ⟨rfl, hpending f hf hfid (pending_reload h hf hfk (Or.inl ⟨hfrun, hdead⟩))⟩
  · obtain ⟨f, hf, rfl⟩ := mem_restart_jobs.mp hj'
    rw [reloadJob_id]
    exact h.bound.2.1 f hf
  · rcases mem_restart_ended.mp hi with hi | hi
    · exact h.bound.2.2 i hi
    · obtain ⟨f, hf, rfl, -⟩ := mem_foundDead.mp hi
      exact h.bound.2.1 f hf
  · rcases hi with hi | hi
    · exact absurd hi List.not_mem_nil
    · exact absurd hi List.not_mem_nil
  · exact absurd hi List.not_mem_nil

end Restart

/-! ## Runs -/

theorem keptAt_step (h : KeptAt s) {e : Event} (he : Undisturbed cfg s e) :
    KeptAt (step cfg s e) := by
  cases e with
  | call c => exact keptAt_call h he
  | restart alive now => exact keptAt_restart h he
  | disk writable =>
      exact ⟨h.running, h.stopped, h.marked, h.fileRunning, h.fileStopped, h.fileMarked, h.once,
        h.only, h.owed, h.bound, h.handlers, h.promised⟩

theorem keptAt_init : KeptAt State.init where
  running _ hj := absurd hj Table.not_mem_empty
  stopped _ hj := absurd hj Table.not_mem_empty
  marked _ hj := absurd hj Table.not_mem_empty
  fileRunning _ hj := absurd hj Table.not_mem_empty
  fileStopped _ hj := absurd hj Table.not_mem_empty
  fileMarked _ hj := absurd hj Table.not_mem_empty
  once _ := Nat.zero_le 1
  only _ hne := absurd rfl hne
  owed _ hi := absurd hi List.not_mem_nil
  bound := ⟨fun _ hj => absurd hj Table.not_mem_empty, fun _ hj => absurd hj Table.not_mem_empty,
    fun _ hi => absurd hi List.not_mem_nil⟩
  handlers _ hi := absurd hi (by simp [State.init])
  promised _ hi := absurd hi List.not_mem_nil

/-- A job exits before the activation. -/
def earlyExit : List Event :=
  [.call (.start (some 7) 0), .call (.exited 0 (some 0) none 5)]

end Elpis.Bg
