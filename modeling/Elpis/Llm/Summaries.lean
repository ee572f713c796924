import Elpis.Llm.Compactor

/-!
# Runs of the summarizer

Answers come in any order and at any time. What keeps them apart is the epoch: a run
counts while the epoch it started in is the present one, and then the compactor is
running and no second run can start. Whatever an older run settles with, it only goes
away.
-/

namespace Elpis.Llm

open Elpis.Lib

variable {cfg : CompactorConfig} {s : CompactorState}

/-! ## What an event can do -/

theorem startSummarizer_cases (cfg : CompactorConfig) (input : String) (minChars : ℕ)
    (s : CompactorState) :
    (∃ error, startSummarizer cfg input minChars s =
        (.rejected error, { s with lastError := some error })) ∨
      startSummarizer cfg input minChars s =
        (.started,
          { s with lastError := none, running := true, started := s.started + 1,
                   openRuns := s.openRuns ++ [⟨s.started, s.epoch, minChars, 1⟩] }) := by
  unfold startSummarizer
  cases validateInput cfg input with
  | error error => exact Or.inl ⟨error, rfl⟩
  | ok _ => exact Or.inr rfl

/-- The four ends of a start. -/
theorem start_cases (cfg : CompactorConfig) (ratio : Ratio) (history : List Entry)
    (s : CompactorState) :
    (s.running = true ∧ start cfg ratio history s = (.busy, s)) ∨
    (s.running = false ∧
      start cfg ratio history s = (.skipped, { s with boundaryIndex := 0 })) ∨
    (∃ error, s.running = false ∧ start cfg ratio history s =
      (.rejected error, { s.record cfg ratio history with lastError := some error })) ∨
    (s.running = false ∧
      foldSlice (history.map Entry.message)
        (cfg.boundary (history.map Entry.message) ratio) ≠ [] ∧
      ∃ minChars, start cfg ratio history s =
        (.started,
          { s.record cfg ratio history with
            lastError := none, running := true, started := s.started + 1,
            openRuns := s.openRuns ++ [⟨s.started, s.epoch, minChars, 1⟩] })) := by
  unfold start
  by_cases hrun : s.running = true
  · exact Or.inl ⟨hrun, by simp [hrun]⟩
  · have hidle : s.running = false := by simpa using hrun
    refine Or.inr ?_
    dsimp only
    rw [if_neg hrun]
    by_cases hfold : foldSlice (history.map Entry.message)
        (cfg.boundary (history.map Entry.message) ratio) = []
    · rw [if_pos hfold]
      exact Or.inl ⟨hidle, rfl⟩
    · rw [if_neg hfold]
      refine Or.inr ?_
      rcases startSummarizer_cases cfg _ _ (s.record cfg ratio history) with ⟨error, h⟩ | h
      · exact Or.inl ⟨error, hidle, h⟩
      · exact Or.inr ⟨hidle, hfold, _, h⟩

theorem start_started {ratio : Ratio} {history : List Entry}
    (h : (start cfg ratio history s).1 = .started) :
    s.running = false ∧
      foldSlice (history.map Entry.message)
        (cfg.boundary (history.map Entry.message) ratio) ≠ [] ∧
      ∃ minChars, (start cfg ratio history s).2 =
        { s.record cfg ratio history with
          lastError := none, running := true, started := s.started + 1,
          openRuns := s.openRuns ++ [⟨s.started, s.epoch, minChars, 1⟩] } := by
  rcases start_cases cfg ratio history s with
    ⟨-, heq⟩ | ⟨-, heq⟩ | ⟨error, -, heq⟩ | ⟨hidle, hfold, minChars, heq⟩
  · rw [heq] at h
    cases h
  · rw [heq] at h
    cases h
  · rw [heq] at h
    cases h
  · exact ⟨hidle, hfold, minChars, by rw [heq]⟩

theorem applyCompaction_state (cfg : CompactorConfig) (fresh : ℕ) (history : List Entry)
    (s : CompactorState) :
    (applyCompaction cfg fresh history s).2 = s ∨
      (applyCompaction cfg fresh history s).2 = s.forget := by
  unfold applyCompaction
  cases s.resultSummary with
  | none => exact Or.inl rfl
  | some summary =>
      dsimp only
      split
      · exact Or.inr rfl
      · exact Or.inr rfl

/-- What settling an attempt of the open run `r` can do. -/
theorem settleAttempt_cases (s : CompactorState) (r : OpenRun) (outcome : Except String String) :
    (r.startEpoch ≠ s.epoch ∧ settleAttempt s r outcome = s.close r.id) ∨
    (r.startEpoch = s.epoch ∧ ∃ error, settleAttempt s r outcome =
      { s with lastError := some error,
               openRuns := s.openRuns.map (fun x =>
                 if x.id = r.id then { x with attempts := x.attempts + 1 } else x) }) ∨
    (r.startEpoch = s.epoch ∧ ∃ error, settleAttempt s r outcome =
      { s.close r.id with lastError := some error, running := false }) ∨
    (r.startEpoch = s.epoch ∧ ∃ summary, outcome = .ok summary ∧ settleAttempt s r outcome =
      { s.close r.id with lastError := none, resultSummary := some summary, running := false }) := by
  have hfail : ∀ error,
      (r.startEpoch ≠ s.epoch ∧ failAttempt s r error = s.close r.id) ∨
      (r.startEpoch = s.epoch ∧ failAttempt s r error =
        { s with lastError := some error,
                 openRuns := s.openRuns.map (fun x =>
                   if x.id = r.id then { x with attempts := x.attempts + 1 } else x) }) ∨
      (r.startEpoch = s.epoch ∧ failAttempt s r error =
        { s.close r.id with lastError := some error, running := false }) := by
    intro error
    unfold failAttempt
    by_cases hepoch : r.startEpoch = s.epoch
    · by_cases hleft : r.attempts < maxAttempts
      · exact Or.inr (Or.inl ⟨hepoch, by simp [hepoch, hleft]⟩)
      · exact Or.inr (Or.inr ⟨hepoch, by simp [hepoch, hleft]⟩)
    · exact Or.inl ⟨hepoch, by simp [hepoch]⟩
  unfold settleAttempt
  cases outcome with
  | error error =>
      rcases hfail error with h | ⟨he, h⟩ | ⟨he, h⟩
      · exact Or.inl h
      · exact Or.inr (Or.inl ⟨he, error, h⟩)
      · exact Or.inr (Or.inr (Or.inl ⟨he, error, h⟩))
  | ok summary =>
      dsimp only
      split
      · rcases hfail _ with h | ⟨he, h⟩ | ⟨he, h⟩
        · exact Or.inl h
        · exact Or.inr (Or.inl ⟨he, _, h⟩)
        · exact Or.inr (Or.inr (Or.inl ⟨he, _, h⟩))
      · by_cases hepoch : r.startEpoch = s.epoch
        · exact Or.inr (Or.inr (Or.inr ⟨hepoch, summary, rfl, by simp [hepoch]⟩))
        · exact Or.inl ⟨hepoch, by simp [hepoch]⟩

theorem settle_cases (s : CompactorState) (id : ℕ) (outcome : Except String String) :
    (settle s id outcome = s ∧ ∀ r ∈ s.openRuns, r.id ≠ id) ∨
      ∃ r ∈ s.openRuns, r.id = id ∧ settle s id outcome = settleAttempt s r outcome := by
  unfold settle
  cases hfind : s.openRuns.find? (fun r => decide (r.id = id)) with
  | none =>
      refine Or.inl ⟨rfl, ?_⟩
      intro r hr
      simpa using List.find?_eq_none.mp hfind r hr
  | some r =>
      exact Or.inr ⟨r, List.mem_of_find?_eq_some hfind, by simpa using List.find?_some hfind, rfl⟩

variable {id : ℕ}

theorem mem_close {r : OpenRun} :
    r ∈ (s.close id).openRuns ↔ r ∈ s.openRuns ∧ r.id ≠ id := by
  simp [CompactorState.close]

theorem mem_retry {r : OpenRun} {runs : List OpenRun}
    (h : r ∈ runs.map (fun x => if x.id = id then { x with attempts := x.attempts + 1 } else x)) :
    ∃ x ∈ runs, r.id = x.id ∧ r.startEpoch = x.startEpoch := by
  obtain ⟨x, hx, rfl⟩ := List.mem_map.mp h
  refine ⟨x, hx, ?_⟩
  split
  · exact ⟨rfl, rfl⟩
  · exact ⟨rfl, rfl⟩

/-! ## One run counts -/

/-- The open runs of the present epoch. -/
def currentRuns (s : CompactorState) : List OpenRun :=
  s.openRuns.filter (fun r => decide (r.startEpoch = s.epoch))

structure RunsInv (s : CompactorState) : Prop where
  issued : ∀ r ∈ s.openRuns, r.id < s.started ∧ r.startEpoch ≤ s.epoch
  counts : ∀ r ∈ s.openRuns, r.startEpoch = s.epoch → s.running = true
  one : (currentRuns s).length ≤ 1

theorem currentRuns_of_idle (h : RunsInv s) (hidle : s.running = false) : currentRuns s = [] := by
  refine List.filter_eq_nil_iff.mpr ?_
  intro r hr hepoch
  have := h.counts r hr (of_decide_eq_true hepoch)
  rw [hidle] at this
  cases this

/-- Nothing but the fields a start records differs. -/
theorem RunsInv.of_same {t : CompactorState} (h : RunsInv s) (hruns : t.openRuns = s.openRuns)
    (hstarted : t.started = s.started) (hepoch : t.epoch = s.epoch)
    (hrunning : t.running = s.running) : RunsInv t := by
  have hcurrent : currentRuns t = currentRuns s := by
    unfold currentRuns
    rw [hruns, hepoch]
  constructor
  · rw [hruns, hstarted, hepoch]
    exact h.issued
  · rw [hruns, hepoch, hrunning]
    exact h.counts
  · rw [hcurrent]
    exact h.one

theorem currentRuns_close_length (s : CompactorState) (id : ℕ) :
    (currentRuns (s.close id)).length ≤ (currentRuns s).length :=
  (List.Sublist.filter _ List.filter_sublist).length_le

theorem RunsInv.close (h : RunsInv s) (id : ℕ) : RunsInv (s.close id) := by
  refine ⟨?_, ?_, (currentRuns_close_length s id).trans h.one⟩
  · intro r hr
    exact h.issued r (mem_close.mp hr).1
  · intro r hr hepoch
    exact h.counts r (mem_close.mp hr).1 hepoch

/-- When the run that counts ends, none is left. -/
theorem currentRuns_close_current (h : RunsInv s) {r : OpenRun} (hr : r ∈ s.openRuns)
    (hepoch : r.startEpoch = s.epoch) : currentRuns (s.close r.id) = [] := by
  have hmem : r ∈ currentRuns s := List.mem_filter.mpr ⟨hr, decide_eq_true hepoch⟩
  have hone : currentRuns s = [r] := by
    have hlen := h.one
    rcases hc : currentRuns s with _ | ⟨x, _ | ⟨y, rest⟩⟩
    · rw [hc] at hmem
      cases hmem
    · rw [hc] at hmem
      rw [List.mem_singleton.mp hmem]
    · rw [hc] at hlen
      simp at hlen
  refine List.filter_eq_nil_iff.mpr ?_
  intro x hx hxe
  obtain ⟨hx, hne⟩ := mem_close.mp hx
  have hxmem : x ∈ currentRuns s := List.mem_filter.mpr ⟨hx, hxe⟩
  rw [hone] at hxmem
  exact hne (congrArg OpenRun.id (List.mem_singleton.mp hxmem))

theorem RunsInv.ended (h : RunsInv s) {r : OpenRun} (hr : r ∈ s.openRuns)
    (hepoch : r.startEpoch = s.epoch) (error summary : Option String) :
    RunsInv { s.close r.id with lastError := error, resultSummary := summary, running := false } := by
  have hnone := currentRuns_close_current h hr hepoch
  refine ⟨(h.close r.id).issued, ?_, ?_⟩
  · intro x hx hxe
    have hxmem : x ∈ currentRuns (s.close r.id) := List.mem_filter.mpr ⟨hx, decide_eq_true hxe⟩
    rw [hnone] at hxmem
    cases hxmem
  · show (currentRuns (s.close r.id)).length ≤ 1
    rw [hnone]
    exact Nat.zero_le 1

theorem RunsInv.settle (h : RunsInv s) (id : ℕ) (outcome : Except String String) :
    RunsInv (settle s id outcome) := by
  rcases settle_cases s id outcome with ⟨heq, -⟩ | ⟨r, hr, -, heq⟩
  · rw [heq]
    exact h
  · rw [heq]
    rcases settleAttempt_cases s r outcome with
      ⟨-, heq⟩ | ⟨he, error, heq⟩ | ⟨he, error, heq⟩ | ⟨he, summary, -, heq⟩
    · rw [heq]
      exact h.close r.id
    · rw [heq]
      -- a retry changes neither the run nor its epoch
      have hcurrent : (currentRuns s).length =
          ((s.openRuns.map (fun x => if x.id = r.id then
            { x with attempts := x.attempts + 1 } else x)).filter
            (fun r => decide (r.startEpoch = s.epoch))).length := by
        unfold currentRuns
        rw [List.filter_map, List.length_map]
        congr 1
        refine List.filter_congr ?_
        intro x _
        simp only [Function.comp_apply]
        split
        · rfl
        · rfl
      refine ⟨?_, ?_, ?_⟩
      · intro x hx
        obtain ⟨y, hy, hid, hepoch⟩ := mem_retry hx
        rw [hid, hepoch]
        exact h.issued y hy
      · intro x hx hxe
        obtain ⟨y, hy, -, hepoch⟩ := mem_retry hx
        exact h.counts y hy (hepoch.symm.trans hxe)
      · exact hcurrent.symm.trans_le h.one
    · rw [heq]
      exact h.ended hr he (some error) s.resultSummary
    · rw [heq]
      exact h.ended hr he none (some summary)

theorem RunsInv.start (h : RunsInv s) (ratio : Ratio) (history : List Entry) :
    RunsInv (start cfg ratio history s).2 := by
  rcases start_cases cfg ratio history s with
    ⟨-, heq⟩ | ⟨-, heq⟩ | ⟨error, -, heq⟩ | ⟨hidle, -, minChars, heq⟩
  · rw [heq]
    exact h
  · rw [heq]
    exact h.of_same rfl rfl rfl rfl
  · rw [heq]
    exact h.of_same rfl rfl rfl rfl
  · rw [heq]
    have hnone := currentRuns_of_idle h hidle
    refine ⟨?_, fun _ _ _ => rfl, ?_⟩
    · intro r hr
      show r.id < s.started + 1 ∧ r.startEpoch ≤ s.epoch
      rcases List.mem_append.mp hr with hr | hr
      · exact ⟨(h.issued r hr).1.trans (Nat.lt_succ_self _), (h.issued r hr).2⟩
      · rw [List.mem_singleton.mp hr]
        exact ⟨Nat.lt_succ_self _, le_rfl⟩
    · show ((s.openRuns ++ [_]).filter _).length ≤ 1
      rw [List.filter_append]
      show (currentRuns s ++ _).length ≤ 1
      rw [hnone, List.nil_append]
      exact List.length_filter_le _ _

theorem RunsInv.step (h : RunsInv s) (e : CompactorEvent) : RunsInv (step cfg s e) := by
  cases e with
  | start ratio history => exact h.start ratio history
  | settle run outcome => exact h.settle run outcome
  | apply fresh history =>
      simp only [Llm.step]
      rcases applyCompaction_state cfg fresh history s with heq | heq
      · rw [heq]
        exact h
      · rw [heq]
        exact h.of_same rfl rfl rfl rfl
  | reset =>
      have hlt : ∀ r ∈ s.openRuns, r.startEpoch < s.epoch + 1 :=
        fun r hr => Nat.lt_succ_of_le (h.issued r hr).2
      refine ⟨?_, ?_, ?_⟩
      · intro r hr
        exact ⟨(h.issued r hr).1, (hlt r hr).le⟩
      · intro r hr hepoch
        exact absurd hepoch (hlt r hr).ne
      · have hnone : currentRuns (reset s) = [] := by
          refine List.filter_eq_nil_iff.mpr ?_
          intro r hr hepoch
          exact absurd (of_decide_eq_true hepoch) (hlt r hr).ne
        show (currentRuns (reset s)).length ≤ 1
        rw [hnone]
        exact Nat.zero_le 1

theorem runsInv_init : RunsInv CompactorState.init :=
  ⟨fun _ hr => absurd hr List.not_mem_nil, fun _ hr => absurd hr List.not_mem_nil,
    Nat.zero_le 1⟩

theorem runsInv_run (events : List CompactorEvent) :
    RunsInv (run (step cfg) CompactorState.init events) :=
  run_inv (fun _ e h => h.step e) events runsInv_init

/-! ## Runs that no longer count -/

/-- If the run `id` is still open, its epoch is over. -/
def Superseded (id : ℕ) (s : CompactorState) : Prop :=
  ∀ r ∈ s.openRuns, r.id = id → r.startEpoch < s.epoch

/-- An event keeps the epoch or moves it on, keeps the open runs or adds a new one. -/
theorem step_frame (cfg : CompactorConfig) (s : CompactorState) (e : CompactorEvent) :
    s.epoch ≤ (step cfg s e).epoch ∧ s.started ≤ (step cfg s e).started ∧
      ∀ r ∈ (step cfg s e).openRuns,
        (∃ x ∈ s.openRuns, r.id = x.id ∧ r.startEpoch = x.startEpoch) ∨ r.id = s.started := by
  have hsame : ∀ r ∈ s.openRuns,
      (∃ x ∈ s.openRuns, r.id = x.id ∧ r.startEpoch = x.startEpoch) ∨ r.id = s.started :=
    fun r hr => Or.inl ⟨r, hr, rfl, rfl⟩
  cases e with
  | start ratio history =>
      simp only [step]
      rcases start_cases cfg ratio history s with
        ⟨-, heq⟩ | ⟨-, heq⟩ | ⟨error, -, heq⟩ | ⟨-, -, minChars, heq⟩
      · rw [heq]
        exact ⟨le_rfl, le_rfl, hsame⟩
      · rw [heq]
        exact ⟨le_rfl, le_rfl, hsame⟩
      · rw [heq]
        exact ⟨le_rfl, le_rfl, hsame⟩
      · rw [heq]
        refine ⟨le_rfl, Nat.le_succ _, ?_⟩
        intro r hr
        rcases List.mem_append.mp hr with hr | hr
        · exact hsame r hr
        · exact Or.inr (congrArg OpenRun.id (List.mem_singleton.mp hr))
  | settle run outcome =>
      simp only [step]
      rcases settle_cases s run outcome with ⟨heq, -⟩ | ⟨x, -, -, heq⟩
      · rw [heq]
        exact ⟨le_rfl, le_rfl, hsame⟩
      · rw [heq]
        rcases settleAttempt_cases s x outcome with
          ⟨-, heq⟩ | ⟨-, error, heq⟩ | ⟨-, error, heq⟩ | ⟨-, summary, -, heq⟩
        · rw [heq]
          exact ⟨le_rfl, le_rfl, fun r hr => hsame r (mem_close.mp hr).1⟩
        · rw [heq]
          exact ⟨le_rfl, le_rfl, fun r hr => Or.inl (mem_retry hr)⟩
        · rw [heq]
          exact ⟨le_rfl, le_rfl, fun r hr => hsame r (mem_close.mp hr).1⟩
        · rw [heq]
          exact ⟨le_rfl, le_rfl, fun r hr => hsame r (mem_close.mp hr).1⟩
  | apply fresh history =>
      simp only [step]
      rcases applyCompaction_state cfg fresh history s with heq | heq
      · rw [heq]
        exact ⟨le_rfl, le_rfl, hsame⟩
      · rw [heq]
        exact ⟨le_rfl, le_rfl, hsame⟩
  | reset => exact ⟨Nat.le_succ _, le_rfl, hsame⟩

/-- No event forgets a started run. -/
theorem started_le_run (cfg : CompactorConfig) (s : CompactorState)
    (events : List CompactorEvent) : s.started ≤ (run (step cfg) s events).started := by
  induction events generalizing s with
  | nil => exact le_rfl
  | cons e events ih => exact (step_frame cfg s e).2.1.trans (ih (step cfg s e))

theorem Superseded.step (h : Superseded id s) (hid : id < s.started)
    (e : CompactorEvent) : Superseded id (step cfg s e) ∧ id < (step cfg s e).started := by
  obtain ⟨hepoch, hstarted, hruns⟩ := step_frame cfg s e
  refine ⟨?_, hid.trans_le hstarted⟩
  intro r hr hrid
  rcases hruns r hr with ⟨x, hx, hxid, hxe⟩ | hnew
  · rw [hxe]
    exact (h x hx (hxid.symm.trans hrid)).trans_le hepoch
  · omega

theorem Superseded.run (h : Superseded id s) (hid : id < s.started)
    (events : List CompactorEvent) : Superseded id (run (Llm.step cfg) s events) := by
  have hkeep : ∀ (t : CompactorState) (e : CompactorEvent),
      Superseded id t ∧ id < t.started →
        Superseded id (Llm.step cfg t e) ∧ id < (Llm.step cfg t e).started :=
    fun t e ht => ht.1.step ht.2 e
  exact (run_inv hkeep events ⟨h, hid⟩).1

/-- A reset ends the epoch of every open run. -/
theorem superseded_reset (h : RunsInv s) (id : ℕ) : Superseded id (reset s) := by
  intro r hr _
  exact Nat.lt_succ_of_le (h.issued r hr).2

/-- A run can only start when no open run counts. -/
theorem superseded_start (h : RunsInv s) {ratio : Ratio} {history : List Entry}
    (hid : id < s.started) (hstart : (start cfg ratio history s).1 = .started) :
    Superseded id (start cfg ratio history s).2 := by
  obtain ⟨hidle, -, minChars, heq⟩ := start_started hstart
  rw [heq]
  intro r hr hrid
  rcases List.mem_append.mp hr with hr | hr
  · refine lt_of_le_of_ne (h.issued r hr).2 ?_
    intro hepoch
    have hrunning := h.counts r hr hepoch
    rw [hidle] at hrunning
    cases hrunning
  · rw [List.mem_singleton.mp hr] at hrid
    exact absurd hrid hid.ne'

/-- Among `events`, run from `s`, one ends the runs before it: a reset, or another start
that is admitted. -/
def EndsEarlier (cfg : CompactorConfig) (s : CompactorState) (events : List CompactorEvent) :
    Prop :=
  .reset ∈ events ∨ ∃ before ratio history after,
    events = before ++ .start ratio history :: after ∧
      (start cfg ratio history (run (step cfg) s before)).1 = .started

theorem superseded_of_endsEarlier (h : RunsInv s) (hid : id < s.started)
    {events : List CompactorEvent} (hends : EndsEarlier cfg s events) :
    Superseded id (run (step cfg) s events) := by
  -- cut the run at the event that ends the earlier ones
  have hcut : ∃ before e after, events = before ++ e :: after ∧
      Superseded id (step cfg (run (step cfg) s before) e) := by
    rcases hends with hreset | ⟨before, ratio, history, after, rfl, hstart⟩
    · obtain ⟨before, after, rfl⟩ := List.append_of_mem hreset
      have hinv : RunsInv (run (step cfg) s before) := run_inv (fun _ e h => h.step e) before h
      exact ⟨before, .reset, after, rfl, superseded_reset hinv id⟩
    · have hinv : RunsInv (run (step cfg) s before) := run_inv (fun _ e h => h.step e) before h
      have hlt := hid.trans_le (started_le_run cfg s before)
      exact ⟨before, _, after, rfl, superseded_start hinv hlt hstart⟩
  obtain ⟨before, e, after, rfl, hsup⟩ := hcut
  rw [run_append, run_cons]
  have hlt := (hid.trans_le (started_le_run cfg s before)).trans_le (step_frame cfg _ e).2.1
  exact hsup.run hlt after

/-- An answer for a run that no longer counts only takes the run away. -/
theorem settle_superseded (h : Superseded id s) (outcome : Except String String) :
    settle s id outcome = s ∨ settle s id outcome = s.close id := by
  rcases settle_cases s id outcome with ⟨heq, -⟩ | ⟨r, hr, hid, heq⟩
  · exact Or.inl heq
  · have hne : r.startEpoch ≠ s.epoch := (h r hr hid).ne
    rcases settleAttempt_cases s r outcome with
      ⟨-, hclose⟩ | ⟨he, -⟩ | ⟨he, -⟩ | ⟨he, -⟩
    · rw [heq, hclose, hid]
      exact Or.inr rfl
    · exact absurd he hne
    · exact absurd he hne
    · exact absurd he hne

/-- **Only the present run reports.** Over every order of starts, resets, checkpoints and
answers, at most one run counts; and once a run was superseded, by a reset or by a later
start, its answers leave the result, the running flag and the recorded error alone. -/
theorem compaction_runs (cfg : CompactorConfig) :
    (∀ events, (currentRuns (run (step cfg) CompactorState.init events)).length ≤ 1) ∧
    (∀ before ratio history later outcome,
      let s := run (step cfg) CompactorState.init before
      (start cfg ratio history s).1 = .started →
      EndsEarlier cfg (start cfg ratio history s).2 later →
      let t := run (step cfg) (start cfg ratio history s).2 later
      (settle t s.started outcome).resultSummary = t.resultSummary ∧
        (settle t s.started outcome).running = t.running ∧
        (settle t s.started outcome).lastError = t.lastError) := by
  refine ⟨fun events => (runsInv_run events).one, ?_⟩
  intro before ratio history later outcome s hstart hends t
  have hinv : RunsInv (start cfg ratio history s).2 := (runsInv_run before).start ratio history
  have hid : s.started < (start cfg ratio history s).2.started := by
    obtain ⟨-, -, minChars, heq⟩ := start_started hstart
    rw [heq]
    exact Nat.lt_succ_self _
  rcases settle_superseded (superseded_of_endsEarlier hinv hid hends) outcome with heq | heq
  · show (settle t s.started outcome).resultSummary = _ ∧ _
    rw [heq]
    exact ⟨rfl, rfl, rfl⟩
  · show (settle t s.started outcome).resultSummary = _ ∧ _
    rw [heq]
    exact ⟨rfl, rfl, rfl⟩

end Elpis.Llm
