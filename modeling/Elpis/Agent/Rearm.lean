import Elpis.Agent.Polls

/-!
# The next slot of a recurring task

A dispatch puts a recurring task one interval on, or to the present if that is later. The next
slot behind the present is one interval on only while no whole interval was missed; behind a
longer pause the task is left due at the very moment that it was dispatched at.
-/

namespace Elpis.Agent.Tasks

open Elpis.Lib

/-! ## Slots -/

/-- The slot behind `now` is a slot, and the first. -/
theorem slotBehind_spec {next interval now : ℤ} (hpos : 0 < interval) (hdue : next ≤ now) :
    now < slotBehind next interval now ∧ slotBehind next interval now ≡ next [ZMOD interval] ∧
      slotBehind next interval now ≤ now + interval := by
  unfold slotBehind
  rw [if_pos hdue]
  have hdiv := Int.emod_add_mul_ediv (now - next) interval
  have hlow := Int.emod_nonneg (now - next) hpos.ne'
  have hhigh := Int.emod_lt_of_pos (now - next) hpos
  have hmul : interval * ((now - next) / interval + 1) = interval * ((now - next) / interval) + interval := by
    ring
  refine ⟨by omega, ?_, by omega⟩
  exact (Int.modEq_iff_dvd.mpr ⟨-((now - next) / interval + 1), by ring⟩)

/-- Nothing else is a slot behind `now` and within an interval of it. -/
theorem eq_slotBehind {next interval now slot : ℤ} (hpos : 0 < interval) (hdue : next ≤ now) (hbehind : now < slot)
    (hslot : slot ≡ next [ZMOD interval]) (hfirst : slot ≤ now + interval) : slot = slotBehind next interval now := by
  obtain ⟨hlt, hmod, hle⟩ := slotBehind_spec hpos hdue
  obtain ⟨k, hk⟩ := (hslot.trans hmod.symm).dvd
  have hk0 : k = 0 := by
    by_contra hne
    rcases lt_or_gt_of_ne hne with hneg | hposk
    · nlinarith
    · nlinarith
  rw [hk0] at hk
  omega

/-- One interval on, or now: that is the slot behind `now` exactly if no whole interval was missed. -/
theorem oneOn_iff {next interval now : ℤ} (hdue : next ≤ now) :
    now < max now (next + interval) ↔ 0 < interval ∧ now < next + interval := by
  constructor
  · intro h
    have := (lt_max_iff.mp h).resolve_left (lt_irrefl now)
    exact ⟨by omega, this⟩
  · exact fun h => lt_max_of_lt_right h.2

/-! ## What a dispatch leaves -/

/-- The next run of a task that there is. -/
def NextRun (d : Store) (id : ℕ) (next : ℤ) : Prop := (d.getById id).map ScheduledTask.nextRunAt = some next

/-- Where a dispatch at `now` puts the task. -/
def rearmed (task : ScheduledTask) (now : ℤ) : ℤ :=
  match task.kind with
  | .reminder => max now (task.nextRunAt + task.intervalMs.getD 0)
  | .reminderNag => task.nextRunAt
  | _ => match positive task.intervalMs with
    | some n => max now (task.nextRunAt + n)
    | none => task.nextRunAt

/-- No next run is changed of the tasks that there are. -/
def SameRuns (d d' : Store) : Prop := ∀ id next, NextRun d id next → NextRun d' id next

instance : IsPreorder Store SameRuns where
  refl _ _ _ h := h
  trans _ _ _ h h' id next hnext := h' id next (h id next hnext)

theorem sameRuns_set (d : Store) (id : ℕ) {f : ScheduledTask → ScheduledTask} (hf : ∀ t, (f t).id = t.id)
    (hnext : ∀ t, (f t).nextRunAt = t.nextRunAt) : SameRuns d (d.set id f hf) := by
  intro j next h
  unfold NextRun at h ⊢
  rw [getById_set]
  split
  · rename_i heq
    rw [heq] at h
    rw [Option.map_map, ← h]
    congr 1
    funext t
    exact hnext t
  · exact h

theorem sameRuns_insert (d : Store) (opts : CreateTaskOpts) : SameRuns d (d.insert opts) := by
  intro j next h
  obtain ⟨t, ht, _⟩ := Option.map_eq_some_iff.mp h
  have hne : j ≠ d.tasks.next := (Nat.lt_succ_of_le (id_le_seq ht)).ne
  unfold NextRun at h ⊢
  rwa [getById_insert, if_neg hne]

variable {d : Store}

theorem nextRun_setNextRun {id : ℕ} {t : ScheduledTask} (h : d.getById id = some t) (next : ℤ) :
    NextRun (d.setNextRun id next) id next := by
  unfold NextRun Store.setNextRun
  rw [getById_set, if_pos rfl, h]
  rfl

theorem sameRuns_markDone (id : ℕ) (at_ : ℤ) : Tx.Along SameRuns (markDone id at_) :=
  Tx.Along.write (fun d => sameRuns_set d id _ (fun _ => rfl))

theorem sameRuns_incrementNagCount (id : ℕ) : Tx.Along SameRuns (incrementNagCount id) :=
  Tx.Along.write (fun d => sameRuns_set d id _ (fun _ => rfl))

theorem sameRuns_spawnNag (parent : ScheduledTask) (at_ late : ℤ) : Tx.Along SameRuns (spawnNag parent at_ late) :=
  along_spawnNag sameRuns_insert parent at_ late

variable {task : ScheduledTask}

/-- However it ends, the rest of a dispatch leaves the next run where it is. -/
theorem settleDue_nextRun (now late : ℤ) (h : d.getById task.id = some task) :
    NextRun (settleDue task now late d).2 task.id (rearmed task now) := by
  have hthere : NextRun d task.id task.nextRunAt := by
    unfold NextRun
    rw [h]
    rfl
  have hkeeps : ∀ {m : TaskM Unit} {d' : Store} {next : ℤ}, Tx.Along SameRuns m → NextRun d' task.id next →
      Tx.wp m (fun _ s => NextRun s task.id next) (fun _ s => NextRun s task.id next) d' := fun hm hnext =>
    Tx.wp_mono (fun _ _ hs => hs _ _ hnext) (fun _ _ hs => hs _ _ hnext) (hm _)
  have hplain : ∀ next', next' = (match positive task.intervalMs with
        | some n => max now (task.nextRunAt + n)
        | none => task.nextRunAt) →
      Tx.wp (match positive task.intervalMs with
        | some n => updateNextRun task.id (max now (task.nextRunAt + n))
        | none => markDone task.id now)
        (fun _ s => NextRun s task.id next') (fun _ s => NextRun s task.id next') d := by
    rintro _ rfl
    cases positive task.intervalMs with
    | none => exact hkeeps (sameRuns_markDone _ _) hthere
    | some n => exact Tx.wp_write.mpr (nextRun_setNextRun h _)
  refine Tx.wp_final (P := fun s => NextRun s task.id (rearmed task now)) ?_
  unfold settleDue rearmed
  cases task.kind with
  | reminder =>
      refine Tx.wp_bind.mpr (Tx.wp_write.mpr (hkeeps ?_ (nextRun_setNextRun h _)))
      refine (sameRuns_incrementNagCount _).bind (fun _ => ?_)
      cases positive task.nagIntervalMs with
      | none => exact Tx.Along.pure _
      | some n => exact sameRuns_spawnNag _ _ _
  | reminderNag =>
      refine hkeeps ((Tx.Along.read _).bind (fun parent => (sameRuns_markDone _ _).bind (fun _ => ?_))) hthere
      cases parent.filter (fun p => p.doneAt.isNone) with
      | none => exact Tx.Along.pure _
      | some parent =>
          cases positive task.nagIntervalMs with
          | none => exact Tx.Along.pure _
          | some n => exact (sameRuns_spawnNag _ _ _).bind (fun _ => sameRuns_incrementNagCount _)
  | heartbeat => exact hplain _ rfl
  | custom => exact hplain _ rfl

/-! ## A round of the poll -/

/-- A callback that returns and leaves the task as it was. -/
structure Undisturbed (v : Visit) (task : ScheduledTask) (wake : Wake) : Prop where
  returns : wake.fails = none
  same : v.told.getById task.id = some task

variable {now : ℤ}

theorem visit_handled {onTaskWake : ScheduledTask → Store → Wake} {id : ℕ} (hwoken : (visit now onTaskWake id d).woken = some task) :
    task.isDue now = true ∧ (visit now onTaskWake id d).handled =
      (handleRest task now (onTaskWake task d) (visit now onTaskWake id d).told).2 := by
  unfold visit at hwoken ⊢
  cases hdue : (d.getById id).filter (fun t => t.isDue now) with
  | none =>
      rw [hdue] at hwoken
      cases hwoken
  | some found =>
      rw [hdue] at hwoken
      rcases hrest : handleRest found now (onTaskWake found d) (runOps (onTaskWake found d).ops d) with ⟨e | u, d'⟩
      all_goals
        simp only [hrest] at hwoken ⊢
        cases hwoken
        exact ⟨(Option.filter_eq_some_iff.mp hdue).2, by rw [hrest]⟩

/-- What `handleDue` leaves of a task whose callback has left it alone. -/
theorem handleRest_nextRun {wake : Wake} (hreturns : wake.fails = none)
    (hsame : d.getById task.id = some task) (hopen : task.doneAt = none) :
    NextRun (handleRest task now wake d).2 task.id (rearmed task now) := by
  have hcurrent : (d.getById task.id).filter (fun t =>
      t.doneAt.isNone && t.nextRunAt == task.nextRunAt && t.snoozeUntil == task.snoozeUntil &&
        t.intervalMs == task.intervalMs) = some task := by
    simp [hsame, hopen]
  have hrest : handleRest task now wake d = settleDue task now wake.named d := by
    unfold handleRest
    rw [hreturns]
    exact (settleIfSame_apply task now wake.named d).trans (by rw [hcurrent])
  rw [hrest]
  exact settleDue_nextRun now wake.named hsame

/-- Its stored next run is the slot behind `now`. -/
structure Rearmed (task : ScheduledTask) (now : ℤ) (d : Store) : Prop where
  behind : ∀ next, NextRun d task.id next → now < next
  inStep : ∀ next, NextRun d task.id next → next ≡ task.nextRunAt [ZMOD task.intervalMs.getD 0]
  slot : NextRun d task.id (slotBehind task.nextRunAt (task.intervalMs.getD 0) now)

/-- A poll at `now` does not come to the task. -/
def NotAgain (now : ℤ) (id : ℕ) (d : Store) : Prop :=
  ∀ onTaskWake, id ∉ (poll now onTaskWake d).map Visit.id

theorem NextRun.unique {id : ℕ} {next next' : ℤ} (h : NextRun d id next) (h' : NextRun d id next') :
    next = next' := Option.some.inj (h.symm.trans h')

theorem rearmed_iff (hdue : task.nextRunAt ≤ now)
    (hcycle : task.kind = .reminder ∨ 0 < task.intervalMs.getD 0) (h : NextRun d task.id (rearmed task now)) :
    Rearmed task now d ↔ task.kind ≠ .reminderNag ∧ 0 < task.intervalMs.getD 0 ∧
      now < task.nextRunAt + task.intervalMs.getD 0 := by
  -- a task that is no nag goes one interval on
  have honeOn : task.kind ≠ .reminderNag →
      rearmed task now = max now (task.nextRunAt + task.intervalMs.getD 0) := by
    intro hkind
    unfold rearmed
    rcases hcycle with hreminder | hpos
    · rw [hreminder]
    · cases hinterval : task.intervalMs with
      | none =>
          rw [hinterval] at hpos
          exact absurd hpos (lt_irrefl _)
      | some n =>
          rw [hinterval] at hpos
          have hn : positive (some n) = some n := by simpa [positive] using hpos
          cases hk : task.kind with
          | reminderNag => exact absurd hk hkind
          | reminder => rfl
          | heartbeat => rw [hn]; rfl
          | custom => rw [hn]; rfl
  constructor
  · intro hrearmed
    have hlater := hrearmed.behind _ h
    have hkind : task.kind ≠ .reminderNag := by
      intro hk
      have hstays : rearmed task now = task.nextRunAt := by
        unfold rearmed
        rw [hk]
      omega
    rw [honeOn hkind] at hlater
    exact ⟨hkind, (oneOn_iff hdue).mp hlater⟩
  · rintro ⟨hkind, hpos, hnear⟩
    have hnext : rearmed task now = task.nextRunAt + task.intervalMs.getD 0 := by
      rw [honeOn hkind]
      exact max_eq_right hnear.le
    rw [hnext] at h
    have hmod : task.nextRunAt + task.intervalMs.getD 0 ≡ task.nextRunAt [ZMOD task.intervalMs.getD 0] :=
      Int.add_modEq_right
    refine ⟨fun next hn => hn.unique h ▸ hnear, fun next hn => hn.unique h ▸ hmod, ?_⟩
    rw [← eq_slotBehind hpos hdue hnear hmod (by omega)]
    exact h

/-! ## The poll -/

theorem visit_left (now : ℤ) (onTaskWake : ScheduledTask → Store → Wake) (id : ℕ) (d : Store) :
    (visit now onTaskWake id d).left = (visit now onTaskWake id d).handled ∨
      ∃ caught, (visit now onTaskWake id d).left = retry id caught (visit now onTaskWake id d).handled := by
  unfold visit
  split
  · exact Or.inl rfl
  · dsimp only
    split
    · exact Or.inl rfl
    · exact Or.inr ⟨_, rfl⟩

theorem later_of_left {onTaskWake : ScheduledTask → Store → Wake} {id : ℕ}
    (h : ∀ next, NextRun (visit now onTaskWake id d).handled id next → now < next) :
    ∀ next, NextRun (visit now onTaskWake id d).left id next → now < next := by
  rcases visit_left now onTaskWake id d with heq | ⟨caught, heq⟩
  · rwa [heq]
  · rw [heq]
    intro next hnext
    unfold NextRun at hnext
    rw [retry_row, Option.map_map] at hnext
    obtain ⟨t, ht, rfl⟩ := Option.map_eq_some_iff.mp hnext
    have hlater := h t.nextRunAt (by rw [NextRun, ht]; rfl)
    by_cases hdone : t.doneAt = none
    · simp only [Function.comp_apply, if_pos hdone]
      exact lt_max_of_lt_left hlater
    · simpa only [Function.comp_apply, if_neg hdone] using hlater

theorem notAgain_of_later {id : ℕ} (h : ∀ next, NextRun d id next → now < next) :
    NotAgain now id d := by
  intro onTaskWake hmem
  rw [(poll_polled now onTaskWake d).every] at hmem
  obtain ⟨t, ht, rfl⟩ := List.mem_map.mp hmem
  obtain ⟨hrow, hdue⟩ := List.mem_filter.mp (List.mem_mergeSort.mp ht)
  simp only [ScheduledTask.isDue, Bool.and_eq_true, decide_eq_true_eq] at hdue
  have hnext : NextRun d t.id t.nextRunAt := by
    have hget : d.getById t.id = some t := Table.get?_eq_some.mpr ⟨hrow, rfl⟩
    rw [NextRun, hget]
    rfl
  exact absurd (h _ hnext) (not_lt.mpr hdue.1.2)

/-- A round of a poll is a visit, with the callback's answer of its turn. -/
theorem poll_round {onTaskWake : ℕ → ScheduledTask → Store → Wake} {pre post : List Visit}
    {v : Visit} (h : poll now onTaskWake d = pre ++ v :: post) :
    v = visit now (onTaskWake pre.length) v.id v.met := by
  obtain ⟨first, second, -, hpre, hpost⟩ := visits_eq_append h
  have hlength : first.length = pre.length := by
    have hids := congrArg List.length (@visits_ids now onTaskWake 0 first d)
    rw [← hpre, List.length_map, List.length_map] at hids
    exact hids.symm
  cases second with
  | nil => cases hpost
  | cons snapshot rest =>
      obtain ⟨rfl, -⟩ := List.cons.inj hpost
      obtain ⟨hid, hmet⟩ := visit_met now (onTaskWake (0 + first.length)) snapshot.id (behind d pre)
      rw [hid, hmet, Nat.zero_add, hlength]

/-- A dispatch whose callback leaves the task alone puts it on the slot behind `now`, so that a poll at
the same moment does not come to it, exactly if it is no nag and no whole interval was missed. -/
theorem poll_rearms_iff (now : ℤ) (onTaskWake : ℕ → ScheduledTask → Store → Wake) (d : Store) (pre post : List Visit)
    (v : Visit) (task : ScheduledTask) (hpoll : poll now onTaskWake d = pre ++ v :: post)
    (hwoken : v.woken = some task) (hcycle : task.kind = .reminder ∨ 0 < task.intervalMs.getD 0)
    (hcallback : Undisturbed v task (onTaskWake pre.length task v.met))
    (hrest : ∀ u ∈ post, times u.told task.id = times u.met task.id) :
    (Rearmed task now v.handled ∧ NotAgain now task.id (behind d (poll now onTaskWake d))) ↔
      task.kind ≠ .reminderNag ∧ 0 < task.intervalMs.getD 0 ∧ now < task.nextRunAt + task.intervalMs.getD 0 := by
  have hvisit := poll_round hpoll
  have hrow := (poll_polled now onTaskWake d).due v (by simp [hpoll])
  rw [hwoken] at hrow
  have hid : task.id = v.id := Table.key_of_get? (Option.filter_eq_some_iff.mp hrow.symm).1
  obtain ⟨hdue, hhandled⟩ := visit_handled (hvisit ▸ hwoken)
  rw [← hvisit] at hhandled
  simp only [ScheduledTask.isDue, Bool.and_eq_true, Option.isNone_iff_eq_none, decide_eq_true_eq] at hdue
  have hnext : NextRun v.handled task.id (rearmed task now) := by
    rw [hhandled]
    exact handleRest_nextRun hcallback.returns hcallback.same hdue.1.1
  have hiff := rearmed_iff hdue.1.2 hcycle hnext
  refine ⟨fun h => hiff.mp h.1, fun h => ?_⟩
  have hrearmed := hiff.mpr h
  refine ⟨hrearmed, notAgain_of_later ?_⟩
  have hleft := @later_of_left v.met now (onTaskWake pre.length) v.id
  rw [← hvisit, ← hid] at hleft
  have hlasting := (poll_polled now onTaskWake d).lasting pre v post hpoll (hid ▸ hrest)
  rw [← hid] at hlasting
  have hruns := congrArg (Option.map (fun row : ℤ × Option ℤ × Option ℤ => row.1)) hlasting
  unfold times at hruns
  rw [Option.map_map, Option.map_map] at hruns
  intro next hn
  exact hleft hrearmed.behind next (hruns.symm.trans hn)

/-- A digest every minute, first due at 0. -/
def digestTask : ScheduledTask := ⟨1, "digest", .custom, none, .text "", 0, some 60000, none, none, 0, none, none⟩

def digest : Store := Store.empty.insert ⟨"digest", .custom, none, .text "", 0, some 60000, none, none⟩

/-- Listeners that neither call the scheduler nor throw. -/
def quiet (_ : ℕ) (_ : ScheduledTask) (_ : Store) : Wake := ⟨[], none, 0, 0⟩

/-- The round of the digest in a poll at `now`. -/
def digestRound (now : ℤ) : Visit := visit now (quiet 0) 1 digest

theorem poll_digest (h : digest.listDue now = [digestTask]) : poll now quiet digest = [digestRound now] := by
  unfold poll
  rw [h]
  rfl

/-- After two and a half minutes the digest is put on the present, which is no slot, and comes again. -/
theorem missed_digest_again :
    poll 150000 quiet digest = [digestRound 150000] ∧ (digestRound 150000).woken = some digestTask ∧
      Undisturbed (digestRound 150000) digestTask (quiet 0 digestTask digest) ∧
      NextRun (digestRound 150000).handled 1 150000 ∧ slotBehind 0 60000 150000 = 180000 ∧
      ¬Rearmed digestTask 150000 (digestRound 150000).handled ∧
      ¬NotAgain 150000 1 (behind digest (poll 150000 quiet digest)) := by
  have hpoll : poll 150000 quiet digest = [digestRound 150000] := poll_digest (by decide +kernel)
  have hnext : NextRun (digestRound 150000).handled 1 150000 := by
    unfold NextRun
    decide +kernel
  refine ⟨hpoll, by decide +kernel, ⟨rfl, by decide +kernel⟩, hnext, by decide +kernel, ?_, ?_⟩
  · exact fun hrearmed => absurd (hrearmed.behind _ hnext) (lt_irrefl _)
  · intro hnever
    refine hnever quiet ?_
    rw [(poll_polled _ _ _).every, hpoll]
    decide +kernel

theorem prompt_digest_rearmed :
    Rearmed digestTask 500 (digestRound 500).handled ∧
      NotAgain 500 1 (behind digest (poll 500 quiet digest)) :=
  (poll_rearms_iff 500 quiet digest [] [] (digestRound 500) digestTask (poll_digest (by decide +kernel))
    (by decide +kernel) (Or.inr (by decide)) ⟨rfl, by decide +kernel⟩ (by simp)).mpr (by decide)

end Elpis.Agent.Tasks
