import Elpis.Kernel.Episode

/-!
# What an episode may do next

`Move` is the episode's protocol: from the records in the file and the place in the
turn, which event may come next. It says nothing about how the episode is computed.
`accepted_history` says that the program keeps to it, in every process and up to
every crash point.
-/

namespace Elpis.Kernel

open Elpis.Lib WorkerJournalState

/-! ## The protocol -/

/-- Where a process is. -/
inductive Phase where
  /-- These calls of the last assistant message have no result yet. -/
  | turn (calls : List ToolCall)
  /-- This call is prepared. -/
  | prepared (call : ToolCall) (rest : List ToolCall)
  /-- The sandbox has this call. -/
  | running (call : ToolCall) (rest : List ToolCall)
  /-- The file held a prepared call when the process opened it. -/
  | refused

/-- The file, the place in the turn, and the guidance pulled last. -/
structure Trail where
  records : List WorkerJournalRecord
  phase : Phase
  pulled : List WorkerGuidance

def Trail.start : Trail := ⟨[], .turn [], []⟩

/-- What the file holds. -/
def Trail.held (t : Trail) : WorkerJournalState := replay t.records

/-- One more record. -/
def Trail.write (t : Trail) (r : WorkerJournalRecord) (phase : Phase) : Trail :=
  { t with records := t.records ++ [r], phase := phase }

/-- A new process over the file. -/
def Trail.reopen (t : Trail) : Trail :=
  { t with phase := if t.held.pendingTools = [] then .turn [] else .refused, pulled := [] }

/-- Questions that have no effect the protocol is about. -/
def Request.idle : Request → Bool
  | .aborted | .now | .getMandate | .pullGuidance | .beforeFinish _ _ => true
  | _ => false

/-- The guidance an answer brings. -/
def Trail.hear (t : Trail) : (q : Request) → Reply q → Trail
  | .pullGuidance, .ok guidance => { t with pulled := guidance }
  | _, _ => t

/-- `m` answers the call. -/
def ChatMessage.answers (m : ChatMessage) (call : ToolCall) : Prop :=
  m.role = .tool ∧ m.toolCallId = some call.id

inductive Move (cfg : EpisodeConfig) : Trail → EpisodeEvent → Trail → Prop where
  | opened (t : Trail) : Move cfg t .opened t.reopen
  | idle {t : Trail} {calls : List ToolCall} {q : Request} (hphase : t.phase = .turn calls)
      (hq : q.idle = true) : Move cfg t (.asked q) t
  | heard {t : Trail} {calls : List ToolCall} {q : Request} {x : Reply q}
      (hphase : t.phase = .turn calls) : Move cfg t (.replied q x) (t.hear q x)
  | initialized {t : Trail} {ms : List ChatMessage} (hphase : t.phase = .turn [])
      (hroles : ∀ m ∈ ms, m.role = .system ∨ m.role = .user)
      (hallows : t.held.Allows (.initialized ms)) :
      Move cfg t (.wrote (.initialized ms)) (t.write (.initialized ms) (.turn []))
  | guidance {t : Trail} {entry : WorkerGuidance} (hphase : t.phase = .turn [])
      (hpulled : entry ∈ t.pulled)
      (hallows : t.held.Allows (.guidance entry.id (guidanceMessage entry))) :
      Move cfg t (.wrote (.guidance entry.id (guidanceMessage entry)))
        (t.write (.guidance entry.id (guidanceMessage entry)) (.turn []))
  /-- Only what the file holds is acknowledged. -/
  | acknowledge {t : Trail} {ids : List ℤ} (hphase : t.phase = .turn [])
      (hids : ∀ id ∈ ids, id ∈ t.held.guidanceIds) :
      Move cfg t (.asked (.acknowledgeGuidance ids)) t
  /-- The model sees what the file holds, and no tool is pending. -/
  | complete {t : Trail} (hphase : t.phase = .turn []) (htools : t.held.pendingTools = []) :
      Move cfg t (.asked (.complete t.held.messages)) t
  | assistant {t : Trail} {m : ChatMessage} (hphase : t.phase = .turn [])
      (hrole : m.role = .assistant) :
      Move cfg t (.wrote (.message m)) (t.write (.message m) (.turn m.toolCalls))
  /-- A result without a preparation. -/
  | result {t : Trail} {m : ChatMessage} {call : ToolCall} {rest : List ToolCall}
      (hphase : t.phase = .turn (call :: rest)) (hm : m.answers call) :
      Move cfg t (.wrote (.message m)) (t.write (.message m) (.turn rest))
  | prepare {t : Trail} {call : ToolCall} {rest : List ToolCall} {at' : ℤ}
      (hphase : t.phase = .turn (call :: rest))
      (hallows : t.held.Allows (.toolPrepared call at')) :
      Move cfg t (.wrote (.toolPrepared call at')) (t.write (.toolPrepared call at') (.prepared call rest))
  /-- The sandbox gets a call right after its preparation. -/
  | run {t : Trail} {call : ToolCall} {rest : List ToolCall} {code : String}
      (hphase : t.phase = .prepared call rest) (hcode : runArguments cfg call.arguments = .ok code) :
      Move cfg t (.asked (.run code)) { t with phase := .running call rest }
  | ran {t : Trail} {call : ToolCall} {rest : List ToolCall} {q : Request} {x : Reply q}
      (hphase : t.phase = .running call rest) : Move cfg t (.replied q x) t
  | completeTool {t : Trail} {m : ChatMessage} {call : ToolCall} {rest : List ToolCall}
      (hphase : t.phase = .running call rest) (hm : m.answers call)
      (hallows : t.held.Allows (.toolCompleted call.id m)) :
      Move cfg t (.wrote (.toolCompleted call.id m)) (t.write (.toolCompleted call.id m) (.turn rest))
  | prepareFinish {t : Trail} {key body : String} (hphase : t.phase = .turn [])
      (hallows : t.held.Allows (.finishPrepared key body)) :
      Move cfg t (.wrote (.finishPrepared key body)) (t.write (.finishPrepared key body) (.turn []))
  /-- The finish in the file is the one that is posted. -/
  | finish {t : Trail} {key body : String} (hphase : t.phase = .turn [])
      (hpending : t.held.pendingFinish = some ⟨key, body⟩) :
      Move cfg t (.asked (.finish key body)) t
  | finished {t : Trail} {key body : String} (hphase : t.phase = .turn [])
      (hallows : t.held.Allows (.finished key body)) :
      Move cfg t (.wrote (.finished key body)) (t.write (.finished key body) (.turn []))

variable {cfg : EpisodeConfig} {s s' : Memory} {t t' : Trail} {α : Type}

@[simp] theorem Trail.write_records (t : Trail) (r : WorkerJournalRecord) (phase : Phase) :
    (t.write r phase).records = t.records ++ [r] := rfl

@[simp] theorem Trail.write_held (t : Trail) (r : WorkerJournalRecord) (phase : Phase) :
    (t.write r phase).held = t.held.take r := replay_append

/-! ## The program against the protocol -/

/-- A process between two statements of a turn: its memory is what the file holds. -/
structure InTurn (calls : List ToolCall) (s : Memory) (t : Trail) : Prop where
  journal : s.journal = t.held
  messages : s.messages = s.journal.messages
  phase : t.phase = .turn calls
  tools : s.journal.pendingTools = []
  prepared : s.preparedRuns = []
  pendingFinish : s.journal.pendingFinish = none
  finished : s.journal.finished = none

variable {P : α → Memory → Trail → Prop} {E : WorkerEpisodeError → Memory → Trail → Prop}
  {calls rest : List ToolCall} {call : ToolCall}

theorem wp_rethrow {x : Except String α} :
    Proc.wp (Move cfg) (rethrow x) P E s t ↔
      (∀ a, x = .ok a → P a s t) ∧ ∀ e, x = .error e → E (.other e) s t := by
  unfold rethrow
  cases x with
  | error e =>
      rw [Proc.wp_ofExcept]
      simp [Except.mapError]
  | ok a =>
      rw [Proc.wp_ofExcept]
      simp [Except.mapError]

theorem wp_journal_some {method : WorkerJournalState → Except String (Written α)}
    {r : WorkerJournalRecord} {next : WorkerJournalState} {a : α}
    (h : method s.journal = .ok ⟨some r, next, a⟩) (hmove : Move cfg t (.wrote r) t')
    (hP : P a { s with journal := next } t') : Proc.wp (Move cfg) (journal method) P E s t := by
  simp only [journal, Proc.wp_bind, Proc.wp_read, wp_rethrow, h]
  refine ⟨?_, fun _ he => by cases he⟩
  rintro w hw
  cases hw
  simp only [appendEntry, Proc.wp_append, Proc.wp_modify, Proc.wp_pure]
  exact ⟨t', hmove, hP⟩

theorem wp_journal_none {method : WorkerJournalState → Except String (Written α)} {a : α}
    (h : method s.journal = .ok ⟨none, s.journal, a⟩) (hP : P a s t) :
    Proc.wp (Move cfg) (journal method) P E s t := by
  simp only [journal, Proc.wp_bind, Proc.wp_read, wp_rethrow, h]
  refine ⟨?_, fun _ he => by cases he⟩
  rintro w hw
  cases hw
  simp only [appendEntry, Proc.wp_modify, Proc.wp_pure]
  exact hP

/-! ### One tool call -/

/-- What a tool call leaves before its result is written: no preparation, or a call
the sandbox has run. -/
structure Handled (call : ToolCall) (rest : List ToolCall) (s : Memory) (t : Trail) : Prop where
  journal : s.journal = t.held
  messages : s.messages = s.journal.messages
  phase : t.phase = .running call rest
  tools : ∃ tool, s.journal.pendingTools = [(call.id, tool)]
  prepared : s.preparedRuns = [call.id]
  pendingFinish : s.journal.pendingFinish = none
  finished : s.journal.finished = none

theorem Move.look {q : Request} (h : InTurn calls s t) (hq : q.idle = true) :
    Move cfg t (.asked q) t := Move.idle h.phase hq

/-- An answer changes at most what was pulled. -/
theorem Trail.hear_keeps (t : Trail) (q : Request) (x : Reply q) :
    (t.hear q x).records = t.records ∧ (t.hear q x).phase = t.phase := by
  unfold Trail.hear
  split
  · exact ⟨rfl, rfl⟩
  · exact ⟨rfl, rfl⟩

theorem Trail.hear_held (t : Trail) (q : Request) (x : Reply q) : (t.hear q x).held = t.held :=
  congrArg replay (t.hear_keeps q x).1

theorem InTurn.hear {q : Request} {x : Reply q} (h : InTurn calls s t) :
    InTurn calls s (t.hear q x) := by
  refine ⟨?_, h.messages, (t.hear_keeps q x).2.trans h.phase, h.tools, h.prepared,
    h.pendingFinish, h.finished⟩
  rw [Trail.hear_held]
  exact h.journal

/-- The `try` of the tool handler ends with the call unprepared, or run, or it throws
after the preparation. -/
theorem wp_tryTool (h : InTurn (call :: rest) s t) :
    Proc.wp (Move cfg) (tryTool cfg call)
      (fun _ s' t' => InTurn (call :: rest) s' t' ∨ Handled call rest s' t')
      (fun _ s' t' => InTurn (call :: rest) s' t' ∨ call.id ∈ s'.preparedRuns) s t := by
  unfold tryTool
  rw [Proc.wp_ite]
  refine ⟨fun _ => ?_, fun _ => ?_⟩
  · simp only [Proc.wp_bind, wp_rethrow, Proc.wp_pure]
    exact ⟨fun _ _ => Or.inl h, fun _ _ => Or.inl h⟩
  rw [Proc.wp_ite, Proc.wp_throw]
  refine ⟨fun _ => Or.inl h, fun _ => ?_⟩
  simp only [Proc.wp_bind, wp_rethrow]
  refine ⟨?_, fun _ _ => Or.inl h⟩
  intro code hcode
  rw [Proc.wp_ask]
  refine ⟨t, Move.look h rfl, ?_⟩
  intro at'
  refine ⟨t, Move.heard h.phase, ?_⟩
  have hno : s.journal.hasTool call.id = false := by
    unfold hasTool
    rw [h.tools]
    rfl
  have hallows : t.held.Allows (.toolPrepared call at') := by
    rw [← h.journal]
    exact hno
  have hok : WorkerJournal.prepareTool s.journal call at' =
      .ok ⟨some (.toolPrepared call at'), s.journal.addTool call at', ()⟩ :=
    if_neg (by rw [hno]; decide)
  refine wp_journal_some hok (Move.prepare h.phase hallows) ?_
  simp only [Proc.wp_modify, Proc.wp_ask]
  refine ⟨_, Move.run rfl hcode, ?_⟩
  intro x
  refine ⟨_, Move.ran rfl, ?_⟩
  rw [h.prepared]
  refine ⟨?_, fun _ _ => Or.inr (List.mem_singleton_self _)⟩
  intro result _
  rw [Proc.wp_ite, Proc.wp_throw, Proc.wp_pure]
  refine ⟨fun _ => Or.inr (List.mem_singleton_self _), fun _ => Or.inr ?_⟩
  refine ⟨?_, h.messages, rfl, ⟨⟨call, at'⟩, ?_⟩, rfl, h.pendingFinish, h.finished⟩
  · show s.journal.addTool call at' = (t.write (.toolPrepared call at') (.prepared call rest)).held
    rw [Trail.write_held, ← h.journal]
    rfl
  · show s.journal.pendingTools ++ [(call.id, ⟨call, at'⟩)] = _
    rw [h.tools]
    rfl

theorem wp_handleTool (h : InTurn (call :: rest) s t) :
    Proc.wp (Move cfg) (handleTool cfg call)
      (fun _ s' t' => InTurn (call :: rest) s' t' ∨ Handled call rest s' t')
      (fun _ _ _ => True) s t := by
  simp only [handleTool, Proc.wp_bind, Proc.wp_attempt]
  refine Proc.wp_mono ?_ ?_ (wp_tryTool h)
  · intro content s' t' hc
    exact Proc.wp_pure.mpr hc
  intro e s' t' he
  simp only [Proc.wp_read, Proc.wp_ite, Proc.wp_throw, Proc.wp_pure]
  refine ⟨fun _ => trivial, ?_⟩
  intro hno
  rcases he with hturn | hmem
  · exact Or.inl hturn
  · exact absurd (decide_eq_true hmem) hno

theorem InTurn.pushed (s : Memory) {r : WorkerJournalRecord} {m : ChatMessage}
    {next : WorkerJournalState} (hjournal : next = t.held.take r) (hnext : next.messages = s.journal.messages ++ [m])
    (hmessages : s.messages = s.journal.messages) (htools : next.pendingTools = [])
    (hpending : next.pendingFinish = none) (hfinished : next.finished = none) :
    InTurn rest ⟨next, s.messages ++ [m], []⟩ (t.write r (.turn rest)) := by
  refine ⟨?_, ?_, rfl, htools, rfl, hpending, hfinished⟩
  · rw [Trail.write_held]
    exact hjournal
  · show s.messages ++ [m] = next.messages
    rw [hnext, hmessages]

theorem wp_appendTool {m : ChatMessage} (hm : m.answers call)
    (h : InTurn (call :: rest) s t ∨ Handled call rest s t) :
    Proc.wp (Move cfg) (appendTool call.id m) (fun _ s' t' => InTurn rest s' t')
      (fun _ _ _ => True) s t := by
  unfold appendTool
  rw [Proc.wp_ite, Proc.wp_throw]
  refine ⟨fun _ => trivial, fun _ => ?_⟩
  simp only [push, Proc.wp_bind, Proc.wp_read, Proc.wp_modify, Proc.wp_ite, decide_eq_true_eq]
  rcases h with h | h
  · rw [h.prepared]
    refine ⟨fun hmem => absurd hmem List.not_mem_nil, fun _ => ?_⟩
    refine wp_journal_some rfl (Move.result h.phase hm) ?_
    refine InTurn.pushed s ?_ rfl h.messages h.tools h.pendingFinish h.finished
    rw [← h.journal]
    rfl
  · rw [h.prepared]
    refine ⟨fun _ => ?_, fun hno => absurd (List.mem_singleton_self _) hno⟩
    obtain ⟨tool, htool⟩ := h.tools
    have hyes : s.journal.hasTool call.id = true := by
      unfold hasTool
      rw [htool]
      simp
    have hallows : t.held.Allows (.toolCompleted call.id m) := by
      rw [← h.journal]
      exact hyes
    have hok : WorkerJournal.completeTool s.journal call.id m =
        .ok ⟨some (.toolCompleted call.id m), (s.journal.dropTool call.id).push [m], ()⟩ :=
      if_pos hyes
    have hempty : [call.id].filter (· ≠ call.id) = [] := by simp
    rw [hempty]
    refine wp_journal_some hok (Move.completeTool h.phase hm hallows) ?_
    refine InTurn.pushed s ?_ rfl h.messages ?_ h.pendingFinish h.finished
    · rw [← h.journal]
      rfl
    · show s.journal.pendingTools.filter (fun entry => decide (entry.1 ≠ call.id)) = []
      rw [htool]
      simp

theorem wp_dispatchTool (h : InTurn (call :: rest) s t) :
    Proc.wp (Move cfg) (dispatchTool cfg call) (fun _ s' t' => InTurn rest s' t')
      (fun _ _ _ => True) s t := by
  simp only [dispatchTool, Proc.wp_bind]
  refine Proc.wp_mono ?_ (fun _ _ _ he => he) (wp_handleTool h)
  intro content s' t' h'
  exact wp_appendTool ⟨rfl, rfl⟩ h'

/-- The calls of a message, one after the other. -/
theorem wp_dispatchTools (h : InTurn calls s t) :
    Proc.wp (Move cfg) (Proc.forEach (dispatchTool cfg) calls) (fun _ s' t' => InTurn [] s' t')
      (fun _ _ _ => True) s t :=
  Proc.wp_forEach (I := InTurn) (fun _ _ _ _ h => wp_dispatchTool h) calls h

theorem wp_applyKernelTurn {m : ChatMessage} (h : InTurn [] s t) :
    Proc.wp (Move cfg) (applyKernelTurn cfg m) (fun _ s' t' => InTurn [] s' t')
      (fun _ _ _ => True) s t := by
  unfold applyKernelTurn
  rw [Proc.wp_ite, Proc.wp_throw]
  refine ⟨fun _ => trivial, ?_⟩
  intro hrole
  rw [not_not] at hrole
  simp only [appendAssistant, push, Proc.wp_bind, Proc.wp_pure]
  refine wp_journal_some rfl (Move.assistant h.phase hrole) ?_
  rw [Proc.wp_modify, h.prepared]
  refine wp_dispatchTools (InTurn.pushed s ?_ rfl h.messages h.tools h.pendingFinish
    h.finished)
  rw [← h.journal]
  rfl

/-! ### Guidance -/

theorem wp_takeGuidance {entry : WorkerGuidance} (h : InTurn [] s t) (hp : entry ∈ t.pulled) :
    Proc.wp (Move cfg) (takeGuidance entry)
      (fun _ s' t' => InTurn [] s' t' ∧ t'.pulled = t.pulled ∧
        s.journal.guidanceIds ⊆ s'.journal.guidanceIds ∧ entry.id ∈ s'.journal.guidanceIds)
      (fun _ _ _ => True) s t := by
  simp only [takeGuidance, push, Proc.wp_bind, Proc.wp_when, Proc.wp_modify]
  by_cases hold : entry.id ∈ s.journal.guidanceIds
  · refine wp_journal_none (if_pos hold) ?_
    exact ⟨fun hf => (by cases hf), fun _ => ⟨h, rfl, List.Subset.refl _, hold⟩⟩
  · have hallows : t.held.Allows (.guidance entry.id (guidanceMessage entry)) := by
      rw [← h.journal]
      exact hold
    refine wp_journal_some (if_neg hold) (Move.guidance h.phase hp hallows) ?_
    refine ⟨fun _ => ⟨?_, rfl, ?_, ?_⟩, fun hf => absurd rfl hf⟩
    · rw [h.prepared]
      refine InTurn.pushed s ?_ rfl h.messages h.tools h.pendingFinish h.finished
      rw [← h.journal, take_guidance hold]
    · exact List.subset_append_left _ _
    · exact List.mem_append_right _ (List.mem_singleton_self _)

/-- The guidance loop: what is left was pulled, and the rest is in the file. -/
structure Taking (all left : List WorkerGuidance) (s : Memory) (t : Trail) : Prop where
  turn : InTurn [] s t
  pulled : ∀ e ∈ left, e ∈ t.pulled
  taken : ∀ e ∈ all, e ∈ left ∨ e.id ∈ s.journal.guidanceIds

theorem wp_takeAll {es : List WorkerGuidance} (h : InTurn [] s t) (hp : ∀ e ∈ es, e ∈ t.pulled) :
    Proc.wp (Move cfg) (Proc.forEach takeGuidance es)
      (fun _ s' t' => InTurn [] s' t' ∧ ∀ e ∈ es, e.id ∈ s'.journal.guidanceIds)
      (fun _ _ _ => True) s t := by
  have hbody : ∀ e left s t, Taking es (e :: left) s t →
      Proc.wp (Move cfg) (takeGuidance e) (fun _ s' t' => Taking es left s' t')
        (fun _ _ _ => True) s t := by
    intro e left s t hloop
    refine Proc.wp_mono ?_ (fun _ _ _ he => he)
      (wp_takeGuidance hloop.turn (hloop.pulled e List.mem_cons_self))
    rintro _ s' t' ⟨hturn, hpulled, hsub, hid⟩
    refine ⟨hturn, ?_, ?_⟩
    · intro e' he'
      rw [hpulled]
      exact hloop.pulled e' (List.mem_cons_of_mem _ he')
    · intro e' he'
      rcases hloop.taken e' he' with hleft | htaken
      · rcases List.mem_cons.mp hleft with rfl | hleft
        · exact Or.inr hid
        · exact Or.inl hleft
      · exact Or.inr (hsub htaken)
  have hstart : Taking es es s t := ⟨h, hp, fun e he => Or.inl he⟩
  refine Proc.wp_mono ?_ (fun _ _ _ he => he) (Proc.wp_forEach (I := Taking es) hbody es hstart)
  rintro _ s' t' hend
  refine ⟨hend.turn, ?_⟩
  intro e he
  rcases hend.taken e he with hleft | htaken
  · cases hleft
  · exact htaken

theorem wp_throwIfAborted (h : InTurn [] s t) :
    Proc.wp (Move cfg) throwIfAborted (fun _ s' t' => InTurn [] s' t')
      (fun _ _ _ => True) s t := by
  simp only [throwIfAborted, Proc.wp_bind, Proc.wp_ask, Proc.wp_when, Proc.wp_throw]
  refine ⟨t, Move.look h rfl, ?_⟩
  intro aborted
  exact ⟨_, Move.heard h.phase, fun _ => trivial, fun _ => h.hear⟩

theorem wp_pullAll (h : InTurn [] s t) :
    Proc.wp (Move cfg) pullAll (fun _ s' t' => InTurn [] s' t') (fun _ _ _ => True) s t := by
  simp only [pullAll, Proc.wp_bind, Proc.wp_ask, wp_rethrow, Proc.wp_when]
  refine ⟨t, Move.look h rfl, ?_⟩
  intro reply
  refine ⟨_, Move.heard h.phase, ?_, fun _ _ => trivial⟩
  rintro guidance rfl
  refine Proc.wp_mono ?_ (fun _ _ _ he => he)
    (wp_takeAll h.hear (fun _ he => he))
  rintro _ s₁ t₁ ⟨h₁, hmem⟩
  refine ⟨fun _ => ?_, fun _ => h₁⟩
  refine ⟨t₁, Move.acknowledge h₁.phase ?_, ?_⟩
  · intro id hid
    obtain ⟨e, he, rfl⟩ := List.mem_map.mp hid
    rw [← h₁.journal]
    exact hmem e he
  · intro x
    exact ⟨_, Move.heard h₁.phase, fun _ _ => h₁.hear, fun _ _ => trivial⟩

/-! ### The end of an episode -/

/-- The finish that is pending in the file is posted and recorded. -/
theorem wp_postFinish {key body : String} (hjournal : s.journal = t.held)
    (hphase : t.phase = .turn []) (hpending : s.journal.pendingFinish = some ⟨key, body⟩) :
    Proc.wp (Move cfg) (postFinish key body) (fun _ _ _ => True) (fun _ _ _ => True) s t := by
  simp only [postFinish, Proc.wp_bind, Proc.wp_ask, wp_rethrow]
  have hheld : t.held.pendingFinish = some ⟨key, body⟩ := hjournal ▸ hpending
  refine ⟨t, Move.finish hphase hheld, ?_⟩
  intro x
  refine ⟨_, Move.heard hphase, fun _ _ => ?_, fun _ _ => trivial⟩
  have hok : WorkerJournal.completeFinish s.journal key body = .ok ⟨some (.finished key body),
      { s.journal with pendingFinish := none, finished := some ⟨key, body⟩ }, ()⟩ := by
    unfold WorkerJournal.completeFinish
    rw [hpending]
    exact if_neg (by simp)
  exact wp_journal_some hok (Move.finished hphase hheld) trivial

theorem wp_finishAs {key body : String} {r : WorkerEpisodeResult} (h : InTurn [] s t) :
    Proc.wp (Move cfg)
      (do
        journal (fun st => WorkerJournal.prepareFinish st key body)
        postFinish key body
        pure r)
      (fun _ _ _ => True) (fun _ _ _ => True) s t := by
  simp only [Proc.wp_bind, Proc.wp_pure]
  have hallows : t.held.Allows (.finishPrepared key body) := by
    rw [← h.journal]
    exact ⟨h.pendingFinish, h.finished⟩
  have hok : WorkerJournal.prepareFinish s.journal key body = .ok ⟨some (.finishPrepared key body),
      { s.journal with pendingFinish := some ⟨key, body⟩ }, ()⟩ := by
    simp [WorkerJournal.prepareFinish, h.finished, h.pendingFinish]
  refine wp_journal_some hok (Move.prepareFinish h.phase hallows) ?_
  refine wp_postFinish ?_ rfl rfl
  rw [Trail.write_held, ← h.journal]
  rfl

theorem wp_finishEpisode {content : String} {turns : ℕ} {resumed : Bool} (h : InTurn [] s t) :
    Proc.wp (Move cfg) (finishEpisode cfg content turns resumed) (fun _ _ _ => True)
      (fun _ _ _ => True) s t := by
  unfold finishEpisode
  generalize Js.trim content = body
  rw [Proc.wp_ite, Proc.wp_throw]
  refine ⟨fun _ => trivial, fun _ => ?_⟩
  generalize finishKey cfg body = key
  refine Proc.wp_bind.mpr (Proc.wp_when.mpr ⟨fun _ => ?_, fun _ => wp_finishAs h⟩)
  refine Proc.wp_bind.mpr (Proc.wp_ask.mpr ⟨t, Move.look h rfl, ?_⟩)
  intro x
  refine ⟨_, Move.heard h.phase, ?_⟩
  exact wp_rethrow.mpr ⟨fun _ _ => wp_finishAs h.hear, fun _ _ => trivial⟩

theorem wp_turnLoop {resumed : Bool} (left : ℕ) :
    ∀ {s : Memory} {t : Trail}, InTurn [] s t →
      Proc.wp (Move cfg) (turnLoop cfg resumed left) (fun _ _ _ => True) (fun _ _ _ => True) s t := by
  induction left with
  | zero => exact fun _ => Proc.wp_throw.mpr trivial
  | succ left ih =>
      intro s t h
      simp only [turnLoop, Proc.wp_bind]
      refine Proc.wp_mono ?_ (fun _ _ _ he => he) (wp_throwIfAborted h)
      intro _ s₁ t₁ h₁
      refine Proc.wp_mono ?_ (fun _ _ _ he => he) (wp_pullAll h₁)
      intro _ s₂ t₂ h₂
      rw [Proc.wp_read, Proc.wp_ite, Proc.wp_throw]
      refine ⟨fun _ => trivial, fun _ => ?_⟩
      simp only [Proc.wp_bind, Proc.wp_ask, wp_rethrow, Proc.wp_modify, Proc.wp_ite]
      have htools : t₂.held.pendingTools = [] := by
        rw [← h₂.journal]
        exact h₂.tools
      have hmessages : s₂.messages = t₂.held.messages := by
        rw [← h₂.journal]
        exact h₂.messages
      refine ⟨t₂, hmessages ▸ Move.complete h₂.phase htools, ?_⟩
      intro x
      refine ⟨_, Move.heard h₂.phase, ?_, fun _ _ => trivial⟩
      intro m _
      have h₃ : InTurn [] { s₂ with preparedRuns := [] } (t₂.hear (.complete s₂.messages) x) :=
        ⟨h₂.hear.journal, h₂.messages, h₂.hear.phase, h₂.tools, rfl, h₂.pendingFinish, h₂.finished⟩
      refine Proc.wp_mono ?_ (fun _ _ _ he => he) (wp_applyKernelTurn h₃)
      intro go s₄ t₄ h₄
      exact ⟨fun _ => ih h₄, fun _ => wp_finishEpisode h₄⟩

theorem wp_openEpisode (h : InTurn [] s t) (hnew : s.journal.messages = []) :
    Proc.wp (Move cfg) openEpisode (fun _ s' t' => InTurn [] s' t') (fun _ _ _ => True) s t := by
  simp only [openEpisode, throwIfAborted, Proc.wp_bind, Proc.wp_ask, Proc.wp_when, wp_rethrow,
    Proc.wp_throw]
  refine ⟨t, Move.look h rfl, ?_⟩
  intro aborted
  refine ⟨_, Move.heard h.phase, fun _ => trivial, fun _ => ?_⟩
  have h₁ := h.hear (x := aborted)
  refine ⟨_, Move.look h₁ rfl, ?_⟩
  intro reply
  refine ⟨_, Move.heard h₁.phase, ?_, fun _ _ => trivial⟩
  intro mandate _
  have h₂ := h₁.hear (x := reply)
  generalize Trail.hear _ _ reply = t₂ at h₂
  generalize hms : ([⟨.system, workerSystemPrompt, [], none⟩, mandateMessage mandate] :
    List ChatMessage) = ms
  have hroles : ∀ m ∈ ms, m.role = .system ∨ m.role = .user := by
    rw [← hms]
    intro m hm
    simp only [List.mem_cons, List.not_mem_nil, or_false] at hm
    rcases hm with rfl | rfl
    · exact Or.inl rfl
    · exact Or.inr rfl
  have hne : ms ≠ [] := by
    rw [← hms]
    exact List.cons_ne_nil _ _
  have hallows : t₂.held.Allows (.initialized ms) := by
    rw [← h₂.journal]
    exact ⟨hnew, hne⟩
  have hok : WorkerJournal.initializeWith s.journal ms =
      .ok ⟨some (.initialized ms), s.journal.push ms, ()⟩ := by
    refine if_neg ?_
    rintro (hm | hm)
    · exact hm hnew
    · exact hne hm
  refine wp_journal_some hok (Move.initialized h₂.phase hroles hallows) ?_
  rw [push, Proc.wp_modify]
  refine ⟨?_, ?_, rfl, h₂.tools, h₂.prepared, h₂.pendingFinish, h₂.finished⟩
  · rw [Trail.write_held, ← h₂.journal]
    rfl
  · show s.messages ++ ms = s.journal.messages ++ ms
    rw [h₂.messages]

/-! ## Every process -/

/-- What a process finds when it opens the file. -/
theorem wp_runEpisode {st : WorkerJournalState} (hst : st = t.held) :
    Proc.wp (Move cfg) (runEpisode cfg) (fun _ _ _ => True) (fun _ _ _ => True) ⟨st, [], []⟩
      t.reopen := by
  simp only [runEpisode, Proc.wp_bind, Proc.wp_read, Proc.wp_ite, Proc.wp_throw]
  refine ⟨fun _ => trivial, ?_⟩
  intro htools
  rw [not_not] at htools
  have hphase : t.reopen.phase = .turn [] := by
    unfold Trail.reopen
    rw [← hst]
    exact if_pos htools
  cases hfinished : st.finished with
  | some done => exact Proc.wp_pure.mpr trivial
  | none =>
      cases hpending : st.pendingFinish with
      | some pending =>
          simp only [Proc.wp_bind, Proc.wp_pure]
          exact wp_postFinish hst hphase hpending
      | none =>
          simp only [Proc.wp_bind, Proc.wp_modify, Proc.wp_when]
          have h : InTurn [] ⟨st, st.messages, []⟩ t.reopen :=
            ⟨hst, rfl, hphase, htools, rfl, hpending, hfinished⟩
          refine ⟨fun hnew => ?_, fun _ => wp_turnLoop _ h⟩
          refine Proc.wp_mono ?_ (fun _ _ _ he => he) (wp_openEpisode h hnew)
          intro _ s' t' h'
          exact wp_turnLoop _ h'

/-- The trail writes down what is written. -/
theorem Move.records {e : EpisodeEvent} (h : Move cfg t e t') :
    t'.records = t.records ++ recordsOf [e] := by
  cases h with
  | heard => exact (t.hear_keeps _ _).1.trans (List.append_nil _).symm
  | opened | idle | acknowledge | complete | run | ran | finish => exact (List.append_nil _).symm
  | initialized | guidance | assistant | result | prepare | completeTool | prepareFinish
    | finished => rfl

theorem accepts_records {es : List EpisodeEvent} (h : Accepts (Move cfg) t es t') :
    t'.records = t.records ++ recordsOf es := by
  induction es generalizing t with
  | nil =>
      cases h
      exact (List.append_nil _).symm
  | cons e es ih =>
      obtain ⟨u, hu, hes⟩ := h
      rw [ih hes, hu.records, List.append_assoc]
      congr 1
      exact (List.filterMap_append (l := [e])).symm

/-- A process that opens the file keeps to the protocol. -/
theorem accepted_incarnation {es : List EpisodeEvent} (h : t.records = recordsOf es)
    (p : Incarnation) : ∃ t', Accepts (Move cfg) t (incarnation cfg es p) t' := by
  unfold incarnation
  split
  · exact ⟨t, rfl⟩
  · next st hst =>
      have hheld : st = t.held := by
        unfold Trail.held
        rw [h]
        exact reduce_replay hst
      have hrun : Proc.wp (Move cfg) (runEpisode cfg) (fun _ _ _ => True) (fun _ _ _ => True)
          ⟨st, [], []⟩ t.reopen := wp_runEpisode hheld
      obtain ⟨t', ht'⟩ := Proc.accepts_trace hrun p.oracle p.crash
      exact ⟨t', t.reopen, Move.opened t, ht'⟩

theorem history_append (ps : List Incarnation) (p : Incarnation) :
    history cfg (ps ++ [p]) = history cfg ps ++ incarnation cfg (history cfg ps) p :=
  run_append ..

/-- **The program keeps to the protocol.** So does every process, up to its crash. -/
theorem accepted_history (ps : List Incarnation) :
    ∃ t, Accepts (Move cfg) Trail.start (history cfg ps) t := by
  induction ps using List.reverseRecOn with
  | nil => exact ⟨Trail.start, rfl⟩
  | append_singleton ps p ih =>
      obtain ⟨t, ht⟩ := ih
      have hp : ∃ t', Accepts (Move cfg) t (incarnation cfg (history cfg ps) p) t' :=
        accepted_incarnation (accepts_records ht) p
      obtain ⟨t', ht'⟩ := hp
      refine ⟨t', ?_⟩
      rw [history_append]
      exact accepts_append.mpr ⟨t, ht, ht'⟩

end Elpis.Kernel
