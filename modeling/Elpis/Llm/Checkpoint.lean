import Elpis.Llm.Summaries

/-!
# What a checkpoint swaps in

The result of a compaction belongs to the start whose run delivered it. Whenever a
checkpoint rebuilds the history, the boundary and the length it uses are the ones that
start recorded, and the rebuilt history is cut exactly there: nothing that came after the
start is touched.
-/

namespace Elpis.Llm

open Elpis.Lib

variable {cfg : CompactorConfig} {s : CompactorState}

/-! ## The boundary lies in the history -/

theorem walkBack_le (ratio : Ratio) (keepTokens : ℤ) :
    ∀ (acc : ℤ) (rev : List ChatMessage), walkBack ratio keepTokens acc rev ≤ rev.length
  | _, [] => le_rfl
  | acc, m :: rest => by
      unfold walkBack
      split
      · exact Nat.le_succ _
      · exact (walkBack_le ratio keepTokens _ rest).trans (Nat.le_succ _)

theorem skipTools_bounds (p : ChatMessage → Bool) :
    ∀ (rest : List ChatMessage) (b : ℕ),
      b ≤ skipTools p rest b ∧ skipTools p rest b ≤ b + rest.length
  | [], b => ⟨le_rfl, le_rfl⟩
  | m :: rest, b => by
      unfold skipTools
      split
      · obtain ⟨hlo, hhi⟩ := skipTools_bounds p rest (b + 1)
        refine ⟨by omega, ?_⟩
        rw [List.length_cons]
        omega
      · exact ⟨le_rfl, Nat.le_add_right _ _⟩

theorem skipOwnResults_bounds {messages : List ChatMessage} {b : ℕ} (hb : b ≤ messages.length) :
    b ≤ skipOwnResults messages b ∧ skipOwnResults messages b ≤ messages.length := by
  unfold skipOwnResults
  split
  · split
    · split
      · obtain ⟨hlo, hhi⟩ := skipTools_bounds _ (messages.drop b) b
        rw [List.length_drop] at hhi
        exact ⟨hlo, hhi.trans (by omega)⟩
      · exact ⟨le_rfl, hb⟩
    · exact ⟨le_rfl, hb⟩
  · exact ⟨le_rfl, hb⟩

theorem enforcePairIntegrity_bounds {messages : List ChatMessage} {b : ℕ}
    (hb : b ≤ messages.length) :
    b ≤ enforcePairIntegrity messages b ∧ enforcePairIntegrity messages b ≤ messages.length := by
  obtain ⟨hlo, hhi⟩ := skipOwnResults_bounds hb
  have hskip := skipTools_bounds (fun _ => true) (messages.drop (skipOwnResults messages b))
    (skipOwnResults messages b)
  rw [List.length_drop] at hskip
  unfold enforcePairIntegrity
  dsimp only
  omega

theorem walkKeepBoundary_le (messages : List ChatMessage) (keepTokens : ℤ) (ratio : Ratio) :
    walkKeepBoundary messages keepTokens ratio ≤ messages.length := by
  have h := walkBack_le ratio keepTokens 0 messages.reverse
  rwa [List.length_reverse] at h

theorem boundary_le (cfg : CompactorConfig) (messages : List ChatMessage) (ratio : Ratio) :
    cfg.boundary messages ratio ≤ messages.length :=
  (enforcePairIntegrity_bounds (walkKeepBoundary_le messages cfg.keepTokens ratio)).2

theorem foldSlice_zero (messages : List ChatMessage) : foldSlice messages 0 = [] := by
  simp only [foldSlice, List.take_zero, List.drop_nil]
  rfl

/-! ## The start behind a result -/

/-- The fields hold what the start of `history` recorded. -/
structure Records (cfg : CompactorConfig) (ratio : Ratio) (history : List Entry)
    (s : CompactorState) : Prop where
  boundary : s.boundaryIndex = cfg.boundary (history.map Entry.message) ratio
  length : s.startedLength = history.length
  frozen : s.frozenPrefix =
    (history.take (cfg.boundary (history.map Entry.message) ratio)).map Entry.ref

variable {history : List Entry}

theorem Records.of_same {ratio : Ratio} {t : CompactorState}
    (h : Records cfg ratio history s) (hb : t.boundaryIndex = s.boundaryIndex)
    (hl : t.startedLength = s.startedLength) (hf : t.frozenPrefix = s.frozenPrefix) :
    Records cfg ratio history t :=
  ⟨hb.trans h.boundary, hl.trans h.length, hf.trans h.frozen⟩

/-- In `events`, the start of `history` was admitted, after the events `before`. -/
def StartedAt (cfg : CompactorConfig) (events before : List CompactorEvent) (ratio : Ratio)
    (history : List Entry) (after : List CompactorEvent) : Prop :=
  events = before ++ .start ratio history :: after ∧
    (start cfg ratio history (run (step cfg) CompactorState.init before)).1 = .started

theorem StartedAt.snoc {events before after : List CompactorEvent} {ratio : Ratio} (h : StartedAt cfg events before ratio history after)
    (e : CompactorEvent) :
    StartedAt cfg (events ++ [e]) before ratio history (after ++ [e]) := by
  refine ⟨?_, h.2⟩
  rw [h.1, List.append_assoc]
  rfl

/-- An admitted start folds something, so its boundary is not the beginning. -/
theorem StartedAt.boundary_pos {events before after : List CompactorEvent} {ratio : Ratio} (h : StartedAt cfg events before ratio history after) :
    0 < cfg.boundary (history.map Entry.message) ratio := by
  obtain ⟨-, hfold, -⟩ := start_started h.2
  refine Nat.pos_of_ne_zero ?_
  intro hzero
  rw [hzero] at hfold
  exact hfold (foldSlice_zero _)

/-- What links the state to the events that led to it. -/
structure Tracked (cfg : CompactorConfig) (events : List CompactorEvent) (s : CompactorState) :
    Prop where
  running : s.running = true → s.resultSummary = none ∧
    ∃ before ratio history after, StartedAt cfg events before ratio history after ∧
      Records cfg ratio history s ∧
      ∀ r ∈ s.openRuns, r.startEpoch = s.epoch →
        r.id = (run (step cfg) CompactorState.init before).started
  result : ∀ summary, s.resultSummary = some summary →
    s.frozenPrefix ≠ [] ∧ (s.frozenPrefix.length = s.boundaryIndex →
      ∃ before ratio history after, StartedAt cfg events before ratio history after ∧
        Records cfg ratio history s ∧
        .settle (run (step cfg) CompactorState.init before).started (.ok summary) ∈ after)

theorem Records.frozen_ne_nil {events before after : List CompactorEvent} {ratio : Ratio} (hstart : StartedAt cfg events before ratio history after)
    (h : Records cfg ratio history s) : s.frozenPrefix ≠ [] := by
  have hpos := hstart.boundary_pos
  have hle := boundary_le cfg (history.map Entry.message) ratio
  rw [List.length_map] at hle
  intro hnil
  have hlen := congrArg List.length h.frozen
  rw [hnil, List.length_map, List.length_take, List.length_nil] at hlen
  omega

variable {events : List CompactorEvent}

theorem Tracked.snoc (h : Tracked cfg events s)
    (e : CompactorEvent) : Tracked cfg (events ++ [e]) s := by
  constructor
  · intro hrun
    obtain ⟨hnone, before, ratio, history, after, hstart, hrec, hid⟩ := h.running hrun
    exact ⟨hnone, before, ratio, history, after ++ [e], hstart.snoc e, hrec, hid⟩
  · intro summary hres
    obtain ⟨hne, hex⟩ := h.result summary hres
    refine ⟨hne, ?_⟩
    intro hlen
    obtain ⟨before, ratio, history, after, hstart, hrec, hmem⟩ := hex hlen
    exact ⟨before, ratio, history, after ++ [e], hstart.snoc e, hrec, List.mem_append_left _ hmem⟩

theorem Tracked.of_runs (h : Tracked cfg events s)
    {t : CompactorState} (hb : t.boundaryIndex = s.boundaryIndex)
    (hl : t.startedLength = s.startedLength) (hf : t.frozenPrefix = s.frozenPrefix)
    (hres : t.resultSummary = s.resultSummary) (hrun : t.running = s.running)
    (hepoch : t.epoch = s.epoch)
    (hruns : ∀ r ∈ t.openRuns, ∃ x ∈ s.openRuns, r.id = x.id ∧ r.startEpoch = x.startEpoch) :
    Tracked cfg events t := by
  constructor
  · rw [hrun, hres, hepoch]
    intro hrunning
    obtain ⟨hnone, before, ratio, history, after, hstart, hrec, hid⟩ := h.running hrunning
    refine ⟨hnone, before, ratio, history, after, hstart, hrec.of_same hb hl hf, ?_⟩
    intro r hr hre
    obtain ⟨x, hx, hxid, hxe⟩ := hruns r hr
    exact hxid.trans (hid x hx (hxe.symm.trans hre))
  · rw [hres, hf, hb]
    intro summary hsome
    obtain ⟨hne, hex⟩ := h.result summary hsome
    refine ⟨hne, ?_⟩
    intro hlen
    obtain ⟨before, ratio, history, after, hstart, hrec, hmem⟩ := hex hlen
    exact ⟨before, ratio, history, after, hstart, hrec.of_same hb hl hf, hmem⟩

/-- Without a run and without a result there is nothing to track. -/
theorem Tracked.of_idle (hrun : s.running = false)
    (hres : s.resultSummary = none) : Tracked cfg events s := by
  constructor
  · intro h
    rw [hrun] at h
    cases h
  · intro summary h
    rw [hres] at h
    cases h

theorem tracked_start
    (hs : s = run (step cfg) CompactorState.init events) (hinv : RunsInv s)
    (h : Tracked cfg events s) (ratio : Ratio) (history : List Entry) :
    Tracked cfg (events ++ [.start ratio history]) (start cfg ratio history s).2 := by
  rcases start_cases cfg ratio history s with
    ⟨-, heq⟩ | ⟨hidle, heq⟩ | ⟨error, hidle, heq⟩ | ⟨hidle, -, minChars, heq⟩
  · rw [heq]
    exact h.snoc _
  · rw [heq]
    constructor
    · intro hrun
      exact absurd (hidle.symm.trans hrun) Bool.false_ne_true
    · -- the boundary is gone, and the frozen prefix is not empty
      intro summary hres
      obtain ⟨hne, -⟩ := h.result summary hres
      exact ⟨hne, fun hlen => absurd (List.length_eq_zero_iff.mp hlen) hne⟩
  · rw [heq]
    exact Tracked.of_idle hidle rfl
  · have hstarted : StartedAt cfg (events ++ [.start ratio history]) events ratio history [] := by
      refine ⟨rfl, ?_⟩
      rw [← hs, heq]
    rw [heq]
    constructor
    · intro _
      refine ⟨rfl, events, ratio, history, [], hstarted, ⟨rfl, rfl, rfl⟩, ?_⟩
      intro r hr hre
      rw [← hs]
      rcases List.mem_append.mp hr with hr | hr
      · exact absurd (hidle.symm.trans (hinv.counts r hr hre)) Bool.false_ne_true
      · rw [List.mem_singleton.mp hr]
    · intro summary hres
      cases hres

theorem tracked_settle (hinv : RunsInv s)
    (h : Tracked cfg events s) (id : ℕ) (outcome : Except String String) :
    Tracked cfg (events ++ [.settle id outcome]) (settle s id outcome) := by
  rcases settle_cases s id outcome with ⟨heq, -⟩ | ⟨r, hr, hid, heq⟩
  · rw [heq]
    exact h.snoc _
  · rw [heq]
    rcases settleAttempt_cases s r outcome with
      ⟨-, heq⟩ | ⟨-, error, heq⟩ | ⟨he, error, heq⟩ | ⟨he, summary, hout, heq⟩
    · rw [heq]
      exact (h.snoc _).of_runs rfl rfl rfl rfl rfl rfl
        (fun x hx => ⟨x, (mem_close.mp hx).1, rfl, rfl⟩)
    · rw [heq]
      exact (h.snoc _).of_runs rfl rfl rfl rfl rfl rfl (fun x hx => mem_retry hx)
    · rw [heq]
      exact Tracked.of_idle rfl (h.running (hinv.counts r hr he)).1
    · obtain ⟨-, before, ratio, history, after, hstart, hrec, hrid⟩ :=
        h.running (hinv.counts r hr he)
      have hne : s.frozenPrefix ≠ [] := hrec.frozen_ne_nil hstart
      rw [heq]
      constructor
      · intro hrun
        cases hrun
      · intro summary' hres
        cases hres
        refine ⟨hne, fun _ => ?_⟩
        refine ⟨before, ratio, history, _, hstart.snoc _, hrec.of_same rfl rfl rfl, ?_⟩
        rw [← hrid r hr he, hid, hout]
        exact List.mem_append_right _ List.mem_cons_self

theorem tracked_step
    (hs : s = run (step cfg) CompactorState.init events) (h : Tracked cfg events s)
    (e : CompactorEvent) : Tracked cfg (events ++ [e]) (step cfg s e) := by
  have hinv : RunsInv s := hs ▸ runsInv_run events
  cases e with
  | start ratio history => exact tracked_start hs hinv h ratio history
  | settle run outcome => exact tracked_settle hinv h run outcome
  | apply fresh history =>
      simp only [step, applyCompaction]
      cases hres : s.resultSummary with
      | none => exact h.snoc _
      | some summary =>
          have hidle : s.running = false := by
            by_contra hrun
            have hnone := (h.running (by simpa using hrun)).1
            rw [hres] at hnone
            cases hnone
          dsimp only
          split
          · exact Tracked.of_idle hidle rfl
          · exact Tracked.of_idle hidle rfl
  | reset => exact Tracked.of_idle rfl rfl

theorem tracked_run (events : List CompactorEvent) :
    Tracked cfg events (run (step cfg) CompactorState.init events) := by
  induction events using List.reverseRecOn with
  | nil => exact Tracked.of_idle rfl rfl
  | append_singleton events e ih =>
      rw [run_append]
      exact tracked_step rfl ih e

/-! ## The rebuilt history -/

theorem evictContextResourceBodies_length :
    ∀ (fresh : ℕ) (es : List Entry), (evictContextResourceBodies fresh es).length = es.length
  | _, [] => rfl
  | fresh, _ :: es => congrArg (· + 1) (evictContextResourceBodies_length (fresh + 1) es)

/-- A message of the old tail as the checkpoint leaves it: the very object, or a copy
without the resource body. -/
def KeptAs (e e' : Entry) : Prop :=
  (e.message.contextResources = [] ∧ e' = e) ∨
    (e.message.contextResources ≠ [] ∧ e'.message = evicted e.message)

theorem evictContextResourceBodies_keptAs :
    ∀ (fresh : ℕ) (es : List Entry), List.Forall₂ KeptAs es (evictContextResourceBodies fresh es)
  | _, [] => List.Forall₂.nil
  | fresh, e :: es => by
      refine List.Forall₂.cons ?_ (evictContextResourceBodies_keptAs (fresh + 1) es)
      by_cases hres : e.message.contextResources = []
      · exact Or.inl ⟨hres, by simp [hres]⟩
      · exact Or.inr ⟨hres, by simp [hres]⟩

/-- `next` is what the checkpoint makes of `messages` with the boundary `b` and the length
`n` of a start: the summary, `b` to `n` up to resource bodies, the rest, the notice. -/
def Swapped (summary : String) (b n : ℕ) (messages next : List Entry) : Prop :=
  ∃ head kept notice, next = head :: kept ++ messages.drop n ++ [notice] ∧
    head.message = summaryMessage summary b ∧
    List.Forall₂ KeptAs ((messages.take n).drop b) kept ∧
    notice.message = compactionNotice b

theorem rebuilt_swapped (fresh b n : ℕ) (summary : String) (messages : List Entry) :
    Swapped summary b n messages (rebuilt fresh b n summary messages) := by
  have htake : messages.take (min n messages.length) = messages.take n := by
    rw [← List.take_take, List.take_length]
  have hdrop : messages.drop (min n messages.length) = messages.drop n := by
    rcases Nat.le_total n messages.length with h | h
    · rw [Nat.min_eq_left h]
    · rw [Nat.min_eq_right h, List.drop_length, List.drop_eq_nil_of_le h]
  refine ⟨⟨fresh, summaryMessage summary b⟩,
    evictContextResourceBodies (fresh + 1) ((messages.take n).drop b),
    ⟨fresh + 1 + ((messages.take n).drop b).length, compactionNotice b⟩, ?_, rfl,
    evictContextResourceBodies_keptAs _ _, rfl⟩
  simp only [rebuilt, htake, hdrop, List.cons_append, List.append_assoc]

/-- **A checkpoint keeps what came after the start.** In every reachable state it returns
the very history it was given, or the rebuilt one: then some admitted start of `history`
recorded the boundary and the length and its run delivered the summary, and for every
continuation of that history the new one is the summary, the old tail from the boundary on
up to resource bodies, the continuation untouched, and the notice. -/
theorem checkpoint_keeps (cfg : CompactorConfig) (events : List CompactorEvent) (fresh : ℕ)
    (messages : List Entry) :
    let s := run (step cfg) CompactorState.init events
    (applyCompaction cfg fresh messages s).1 = none ∨
      ∃ before ratio history after summary next,
        StartedAt cfg events before ratio history after ∧
        .settle (run (step cfg) CompactorState.init before).started (.ok summary) ∈ after ∧
        s.boundaryIndex = cfg.boundary (history.map Entry.message) ratio ∧
        s.startedLength = history.length ∧ s.boundaryIndex ≤ s.startedLength ∧
        (applyCompaction cfg fresh messages s).1 = some next ∧
        Swapped summary s.boundaryIndex s.startedLength messages next ∧
        ∀ old appended, messages = old ++ appended → old.length = s.startedLength →
          ∃ head kept notice, next = head :: kept ++ appended ++ [notice] ∧
            head.message = summaryMessage summary s.boundaryIndex ∧
            List.Forall₂ KeptAs (old.drop s.boundaryIndex) kept ∧
            notice.message = compactionNotice s.boundaryIndex := by
  intro s
  unfold applyCompaction
  cases hres : s.resultSummary with
  | none => exact Or.inl rfl
  | some summary =>
      dsimp only
      by_cases hmatch : prefixMatches cfg s messages = true
      · rw [if_pos hmatch]
        have hlen : s.frozenPrefix.length = s.boundaryIndex := by
          simp only [prefixMatches, Bool.and_eq_true, decide_eq_true_eq] at hmatch
          exact hmatch.1.1
        obtain ⟨-, hex⟩ := (tracked_run events).result summary hres
        obtain ⟨before, ratio, history, after, hstart, hrec, hmem⟩ := hex hlen
        have hle := boundary_le cfg (history.map Entry.message) ratio
        rw [List.length_map] at hle
        have hswap := rebuilt_swapped fresh s.boundaryIndex s.startedLength summary messages
        refine Or.inr ⟨before, ratio, history, after, summary, _, hstart, hmem, hrec.boundary,
          hrec.length, ?_, rfl, hswap, ?_⟩
        · rw [hrec.boundary, hrec.length]
          exact hle
        · intro old appended hmsgs hold
          obtain ⟨head, kept, notice, hnext, hhead, hkept, hnotice⟩ := hswap
          rw [hmsgs, ← hold, List.drop_left] at hnext
          rw [hmsgs, ← hold, List.take_left] at hkept
          rw [hold] at hnext
          exact ⟨head, kept, notice, by rw [hmsgs]; exact hnext, hhead, hkept, hnotice⟩
      · rw [if_neg hmatch]
        exact Or.inl rfl

end Elpis.Llm
