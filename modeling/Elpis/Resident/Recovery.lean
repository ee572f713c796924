import Elpis.Resident.Pairing

/-!
# Restarts in the middle of a batch

Every program of the loop keeps the open calls of history and transcript in step, so the
transcript a restart finds may end anywhere inside a batch of calls, and nowhere else out
of order. The recovery answers the calls of the last message, and only those to the `run`
tool. `recoveries_wellFormed` says exactly in which runs that is enough.
-/

namespace Elpis.Resident

open Elpis.Llm Elpis.Lib Crash

variable {d : Store} {mem : Memory} {deps : Deps}

/-! ## Along the programs -/

/-- A program that keeps a living process in step with its store, also where it dies. -/
abbrev KeepsStep (x : Agent Unit) (d : Store) (mem : Memory) : Prop :=
  wp x (fun _ => InStep) (fun _ _ _ => False) (fun d' _ => Ordered d') d mem

theorem owed_nil (hcalls : mem.calls = []) : mem.owed = [] := by
  unfold Memory.owed
  rw [hcalls, ite_self]

theorem Open.quiet (h : InStep d mem) (hcalls : mem.calls = []) :
    Open d.newest mem.active mem.messages mem.nextRef mem.compactor [] := by
  have hopen := h.calls
  rw [owed_nil hcalls] at hopen
  exact hopen

theorem InStep.of_quiet (hepochs : mem.callEpoch ≤ mem.epoch) (hcalls : mem.calls = [])
    (h : Open d.newest mem.active mem.messages mem.nextRef mem.compactor []) : InStep d mem := by
  refine ⟨hepochs, ?_⟩
  rw [owed_nil hcalls]
  exact h

theorem stored_role (m : ChatMessage) : (stored m).role = m.role := by
  unfold stored
  split
  · rfl
  · rfl

variable {m : ChatMessage}

theorem InStep.tell (h : InStep d mem) (hcalls : mem.calls = [])
    (hrole : m.role = .user) : InStep (d.line mem.active (stored m)) (mem.pushed m) := by
  refine InStep.of_quiet h.epochs hcalls ((Open.quiet h hcalls).push (fun _ => hrole) ?_ ?_)
  · exact answer_told (Or.inr hrole)
  · exact answer_told (Or.inr ((stored_role m).trans hrole))

theorem wp_tell (h : InStep d mem) (hcalls : mem.calls = [])
    (hrole : m.role = .user) (channel : String) :
    wp (pushMessage m channel) (fun _ d' mem' => InStep d' mem' ∧ mem'.calls = [])
      (fun _ _ _ => False) (fun d' _ => Ordered d') d mem :=
  wp_pushMessage h.ordered ⟨h.tell hcalls hrole, hcalls⟩

theorem keepsStep_tell (h : InStep d mem) (hcalls : mem.calls = [])
    (hrole : m.role = .user) (channel : String) : KeepsStep (pushMessage m channel) d mem :=
  wp_mono (wp_tell h hcalls hrole channel) (fun _ _ _ h' => h'.1) (fun _ _ _ he => he)
    (fun _ _ hc => hc)

theorem keepsStep_drain (h : InStep d mem) (hcalls : mem.calls = []) (m : Inbound) :
    KeepsStep (drain m) d mem := by
  have hlast : ∀ d' mem', InStep d' mem' ∧ mem'.calls = [] →
      KeepsStep (pushMessage (userMessage m) m.channel) d' mem' :=
    fun _ _ h' => keepsStep_tell h'.1 h'.2 rfl m.channel
  unfold drain
  apply wp_bind
  apply wp_onSome
  · intro person _
    unfold ensurePersonMemory
    apply wp_bind
    apply wp_read
    apply wp_bind
    apply wp_read
    apply wp_when
    · intro _
      apply wp_bind
      apply wp_modify
      refine wp_mono (wp_tell ?_ ?_ ?_ internalChannel) (fun _ => hlast) (fun _ _ _ he => he)
        (fun _ _ hc => hc)
      · exact ⟨h.epochs, h.calls⟩
      · exact hcalls
      · rfl
    · exact fun _ => hlast d mem ⟨h, hcalls⟩
  · exact fun _ => hlast d mem ⟨h, hcalls⟩

/-- A memory whose messages changed in place and kept their shape. -/
theorem InStep.edit (h : InStep d mem) {f : ChatMessage → ChatMessage}
    (hshape : ∀ m, shape (f m) = shape m) (hperson : ∀ m, (f m).personContext = m.personContext) :
    InStep d (mem.edit f) :=
  ⟨h.epochs, h.calls.edit (fun _ => rfl) (fun e => hshape e.message) (fun e => hperson e.message)⟩

theorem stripFrame_shape (m : ChatMessage) : shape (stripFrame m) = shape m := by
  unfold stripFrame
  split
  · rfl
  · rfl

theorem stripFrame_person (m : ChatMessage) : (stripFrame m).personContext = m.personContext := by
  unfold stripFrame
  split
  · rfl
  · rfl

theorem keepsStep_reply (h : InStep d mem) (hcalls : mem.calls = []) (r : Response)
    (channel : String) : KeepsStep (reply r channel) d mem := by
  have hstripped := h.edit stripFrame_shape stripFrame_person
  have hmessage : ∀ m : ChatMessage, m.role = .assistant → m.toolCalls = r.toolCalls →
      Kernel.answer [] (sent m) = some (r.toolCalls.map Kernel.ToolCall.id) := by
    intro m hrole htools
    rw [← htools]
    exact Kernel.answer_assistant hrole
  unfold reply
  apply wp_bind
  apply wp_modify
  apply wp_bind
  apply wp_pushMessage
  · exact hstripped.ordered
  · apply wp_modify
    refine ⟨le_rfl, ?_⟩
    have howed : Memory.owed { (mem.edit stripFrame).pushed
        (onChannel (assistantMessage r) channel) with
        callEpoch := mem.epoch, batch := r.toolCalls, calls := r.toolCalls } = r.toolCalls :=
      if_pos rfl
    have hpush := (Open.quiet hstripped hcalls).push (fun hne => absurd rfl hne)
      (hmessage (onChannel (assistantMessage r) channel) rfl rfl)
      (hmessage (stored (onChannel (assistantMessage r) channel)) rfl rfl)
    rw [← howed] at hpush
    exact hpush

theorem keepsStep_endWake (h : InStep d mem) (how : WakeEnd) : InStep d (mem.endWake how) := by
  unfold Memory.endWake
  cases mem.pendingWake with
  | none => exact h
  | some ref =>
      refine ⟨h.epochs, h.calls.edit ?_ ?_ ?_⟩
      all_goals
        intro e
        dsimp only
        split
        · rfl
        · rfl

theorem supersede_calls (out : ToolOutput) (mem : Memory) :
    (mem.supersede out).calls = mem.calls ∧ (mem.supersede out).owed = mem.owed ∧
      (mem.supersede out).callEpoch = mem.callEpoch ∧ (mem.supersede out).epoch = mem.epoch := by
  unfold Memory.supersede Memory.endWake
  split
  · cases mem.pendingWake with
    | none => exact ⟨rfl, rfl, rfl, rfl⟩
    | some ref => exact ⟨rfl, rfl, rfl, rfl⟩
  · exact ⟨rfl, rfl, rfl, rfl⟩

theorem InStep.supersede (h : InStep d mem) (out : ToolOutput) : InStep d (mem.supersede out) := by
  unfold Memory.supersede
  split
  · exact keepsStep_endWake h _
  · exact h

theorem keepsStep_popUser (h : InStep d mem) : InStep d mem.popUser := by
  unfold Memory.popUser
  split
  · rename_i hlast
    obtain ⟨e, he, hrole⟩ := Option.map_eq_some_iff.mp hlast
    exact ⟨h.epochs, h.calls.dropLast he hrole⟩
  · exact h

theorem keepsStep_failed (h : InStep d mem) (failure : Failure) :
    InStep d (failedCompletion failure mem) := by
  have hpop := keepsStep_popUser h
  unfold failedCompletion
  cases failure with
  | policyDenial | usageLimit | transient => exact ⟨h.epochs, h.calls⟩
  | leaked => exact hpop
  | internal =>
      dsimp only
      split
      · exact ⟨hpop.epochs, hpop.calls⟩
      · exact ⟨h.epochs, h.calls⟩

theorem InStep.withResources (h : InStep d mem) (resources : ContextResources) :
    InStep d { mem with resources } :=
  ⟨h.epochs, h.calls⟩

theorem InStep.answered (h : InStep d mem) (heq : mem.callEpoch = mem.epoch) {call : ToolCall}
    {rest : List ToolCall} (hcalls : mem.calls = call :: rest) (channel : String)
    (out : ToolOutput) :
    InStep (d.line mem.active (stored (onChannel (toolMessage call out) channel)))
      (Memory.settleCall out mem.nextRef rest
        (mem.pushed (onChannel (toolMessage call out) channel))) := by
  have hopen := h.calls
  rw [show mem.owed = call :: rest from (if_pos heq).trans hcalls] at hopen
  have hanswer : ∀ m : ChatMessage, m.role = .tool → m.toolCallId = some call.id →
      Kernel.answer (call.id :: rest.map Kernel.ToolCall.id) (sent m) =
        some (rest.map Kernel.ToolCall.id) :=
    fun m hrole hid => Kernel.answer_result ⟨hrole, hid⟩
  have howed : Memory.owed (Memory.settleCall out mem.nextRef rest
      (mem.pushed (onChannel (toolMessage call out) channel))) = rest := if_pos heq
  have hpush := hopen.push (fun hne => absurd rfl hne)
    (hanswer (onChannel (toolMessage call out) channel) rfl rfl)
    (hanswer (stored (onChannel (toolMessage call out) channel)) rfl rfl)
  rw [← howed] at hpush
  exact ⟨heq.le, hpush⟩

theorem keepsStep_dispatch (h : InStep d mem) (o : RunOutcome) (redact : String → String)
    (channel : String) : KeepsStep (dispatchTool deps o redact channel) d mem := by
  unfold dispatchTool
  apply wp_bind
  apply wp_read
  cases hcalls : mem.calls with
  | nil => exact wp_pure h
  | cons call rest =>
      apply wp_bind
      apply wp_read
      apply wp_ite
      · -- the context was cleared: nothing of the batch is open any more
        intro hstale
        apply wp_modify
        have hne : ¬mem.callEpoch = mem.epoch := by simpa using hstale
        have howed : mem.owed = [] := if_neg hne
        refine ⟨h.epochs, ?_⟩
        have hopen := h.calls
        rw [howed] at hopen
        rw [show Memory.owed { mem with resources := _, calls := rest } = [] from if_neg hne]
        exact hopen
      · intro hfresh
        have heq : mem.callEpoch = mem.epoch := by simpa using hfresh
        apply wp_bind
        apply wp_read
        generalize handleTool deps d.files redact mem call (decide (rest = [])) o = handled
        apply wp_bind
        apply wp_modify
        have hready := (h.withResources handled.2).supersede handled.1
        obtain ⟨hcalls', -, hcallEpoch, hepoch⟩ :=
          supersede_calls handled.1 { mem with resources := handled.2 }
        generalize Memory.supersede handled.1 { mem with resources := handled.2 } = mem' at *
        have heq' : mem'.callEpoch = mem'.epoch := hcallEpoch.trans (heq.trans hepoch.symm)
        apply wp_bind
        apply wp_read
        apply wp_bind
        apply wp_pushMessage
        · exact hready.ordered
        · apply wp_modify
          exact hready.answered heq' (hcalls'.trans hcalls) channel handled.1

theorem unanswered_lines (messages : List Entry) :
    unanswered (lines messages) = unanswered (messages.map Entry.message) := by
  apply unanswered_shape
  simp only [lines, List.map_map]
  rfl

/-- The transcript is written again for a history of which nothing need be on disk yet. -/
theorem keepsStep_rewrite (hepochs : mem.callEpoch ≤ mem.epoch)
    (hdisk : unanswered d.newest = some (mem.owed.map Kernel.ToolCall.id))
    (h : Open (lines mem.messages) (decide (mem.messages ≠ [])) mem.messages mem.nextRef
      mem.compactor (mem.owed.map Kernel.ToolCall.id)) : KeepsStep rewriteTranscript d mem := by
  apply wp_rewriteTranscript
  · rintro d' _ - (hold | ⟨n, hnew⟩)
    · exact ⟨_, hold ▸ hdisk⟩
    · obtain ⟨v, hv⟩ := unanswered_take h.disk n
      exact ⟨v, hnew ▸ hv⟩
  · refine ⟨hepochs, h.started, ?_, h.memory, h.people, h.refs, h.frozen, h.bound, h.cut⟩
    dsimp only
    split
    · exact hdisk
    · exact h.disk

theorem keepsStep_clearThinking (h : InStep d mem) : KeepsStep clearThinking d mem := by
  unfold clearThinking
  apply wp_bind
  apply wp_modify
  have hcleared : InStep d (mem.edit withoutThinking) := h.edit (fun _ => rfl) (fun _ => rfl)
  refine keepsStep_rewrite h.epochs h.calls.disk ⟨?_, ?_, hcleared.calls.memory,
    hcleared.calls.people, hcleared.calls.refs, h.calls.frozen, h.calls.bound, hcleared.calls.cut⟩
  · intro hempty
    simpa using hempty
  · rw [unanswered_lines]
    exact hcleared.calls.memory

theorem keepsStep_clearContext (h : InStep d mem) (profile : PersonIdentity → String) :
    KeepsStep (clearContext profile) d mem := by
  unfold clearContext
  apply wp_bind
  apply wp_rotateToSentinel
  · exact h.ordered
  · apply wp_modify
    have hpast : ¬mem.callEpoch = mem.epoch + 1 := by
      have hle := h.epochs
      omega
    have howed : Memory.owed (Memory.cleared profile { mem with active := true }) = [] :=
      if_neg hpast
    refine ⟨Nat.le_succ_of_le h.epochs, ?_⟩
    rw [howed]
    exact ⟨fun _ => rfl, rfl, rfl, fun _ he => absurd he List.not_mem_nil,
      fun _ he => absurd he List.not_mem_nil, fun _ href => absurd href List.not_mem_nil,
      le_rfl, fun _ _ => rfl⟩

theorem keepsStep_applyCheckpoint (h : InStep d mem) (hcalls : mem.calls = [])
    (profile : PersonIdentity → String) : KeepsStep (applyCheckpoint deps profile) d mem := by
  have hquiet := Open.quiet h hcalls
  unfold applyCheckpoint
  apply wp_bind
  apply wp_read
  apply wp_when
  · intro _
    apply wp_bind
    apply wp_read
    rcases applyCompaction_cases deps.compactor mem.nextRef mem.messages mem.compactor with
      ⟨c', heq, hc'⟩ | ⟨summary, -, hlen, href, heq⟩
    · rw [heq]
      apply wp_modify
      rcases hc' with rfl | rfl
      · exact ⟨h.epochs, h.calls⟩
      · exact ⟨h.epochs, h.calls.uncompacted rfl rfl⟩
    · rw [heq]
      obtain ⟨hnext, hpeople, hrefs⟩ := hquiet.rebuilt summary hlen href
      generalize rebuilt mem.nextRef mem.compactor.boundaryIndex mem.compactor.startedLength
        summary mem.messages = next at hnext hpeople hrefs
      apply wp_bind
      apply wp_read
      apply wp_bind
      apply wp_modify
      have howed : (Memory.compacted deps d.files profile mem.compactor.forget next mem).owed = [] :=
        owed_nil hcalls
      refine keepsStep_rewrite h.epochs ?_ ?_
      · rw [howed]
        exact hquiet.disk
      · rw [howed]
        exact Open.compacted hnext hpeople hrefs ⟨rfl, rfl⟩
  · exact fun _ => h

theorem keepsStep_action (h : InStep d mem) (a : Action) : KeepsStep (a.program deps) d mem := by
  cases a with
  | drain m => exact wp_betweenTurns (fun hcalls => keepsStep_drain h hcalls m) h
  | nudge content =>
      exact wp_betweenTurns (fun hcalls => keepsStep_tell h hcalls rfl internalChannel) h
  | receipt content sends =>
      exact wp_betweenTurns (fun hcalls => keepsStep_tell h hcalls rfl internalChannel) h
  | reply r channel => exact wp_betweenTurns (fun hcalls => keepsStep_reply h hcalls r channel) h
  | failed failure =>
      exact wp_betweenTurns (fun _ => wp_modify (keepsStep_failed h failure)) h
  | toolSettled o redact channel => exact keepsStep_dispatch h o redact channel
  | accessFile target agents =>
      apply wp_bind
      apply wp_read
      apply wp_modify
      unfold accessFile
      split
      · exact ⟨h.epochs, h.calls⟩
      · exact ⟨h.epochs, h.calls⟩
  | endWake how => exact wp_modify (keepsStep_endWake h how)
  | startCompaction ratio =>
      refine wp_betweenTurns (fun hcalls => wp_modify ?_) h
      exact InStep.of_quiet h.epochs hcalls ((Open.quiet h hcalls).start deps.compactor ratio)
  | settleSummary run outcome => exact wp_modify ⟨h.epochs, h.calls.settle run outcome⟩
  | applyCompaction profile =>
      exact wp_betweenTurns (fun hcalls => keepsStep_applyCheckpoint h hcalls profile) h
  | clearThinking => exact keepsStep_clearThinking h
  | clearContext profile => exact keepsStep_clearContext h profile

/-! ## Recovery -/

/-- **A transcript that the recovery can repair.** No call is open at its end, or its last
message is one of the assistant's, with calls to the `run` tool only. -/
def Repairable (ms : List ChatMessage) : Prop :=
  unanswered ms = some [] ∨
    ∃ m, ms.getLast? = some m ∧ m.role = .assistant ∧ ∀ call ∈ m.toolCalls, call.name = "run"

/-- The calls the recovery answers. -/
def runCalls (calls : List ToolCall) : List ToolCall :=
  calls.filter (fun call => decide (call.name = "run"))

/-- Where the recovery has still to answer the run calls of `rest`: they are among the open
ones, and `others` more are open. -/
structure Recovering (others : ℕ) (rest : List ToolCall) (d : Store) (mem : Memory) : Prop where
  epochs : mem.callEpoch ≤ mem.epoch
  calls : mem.calls = []
  opened : ∃ w, Open d.newest mem.active mem.messages mem.nextRef mem.compactor w ∧
    List.Subperm ((runCalls rest).map Kernel.ToolCall.id) w ∧
    w.length = (runCalls rest).length + others

theorem Recovering.ordered {others : ℕ} {rest : List ToolCall} (h : Recovering others rest d mem) :
    Ordered d := by
  obtain ⟨w, hopen, -⟩ := h.opened
  exact ⟨w, hopen.disk⟩

theorem recovering_call {others : ℕ} {call : ToolCall} {rest : List ToolCall} (channel : String)
    (h : Recovering others (call :: rest) d mem) :
    wp (when (call.name = "run") (pushMessage (recoveredMessage deps call) channel))
      (fun _ d' mem' => Recovering others rest d' mem') (fun _ _ _ => False)
      (fun d' _ => Ordered d') d mem := by
  obtain ⟨w, hopen, hsub, hlen⟩ := h.opened
  apply wp_when
  · intro hrun
    have hcalls : runCalls (call :: rest) = call :: runCalls rest :=
      List.filter_cons_of_pos (by simpa using hrun)
    rw [hcalls, List.map_cons] at hsub
    rw [hcalls, List.length_cons] at hlen
    have hmem : call.id ∈ w := hsub.subset List.mem_cons_self
    have hanswer : ∀ m : ChatMessage, m.role = .tool → m.toolCallId = some call.id →
        Kernel.answer w (sent m) = some (w.erase call.id) := by
      intro m hrole hid
      unfold Kernel.answer sent
      simp only [hrole, hid, hmem, if_true]
    apply wp_pushMessage
    · exact h.ordered
    · refine ⟨h.epochs, h.calls, w.erase call.id, ?_, ?_, ?_⟩
      · exact hopen.push (fun hne => absurd rfl hne)
          (hanswer (onChannel (recoveredMessage deps call) channel) rfl rfl)
          (hanswer (stored (onChannel (recoveredMessage deps call) channel)) rfl rfl)
      · have herase := hsub.erase call.id
        rwa [List.erase_cons_head] at herase
      · rw [List.length_erase_of_mem hmem]
        omega
  · intro hother
    have hcalls : runCalls (call :: rest) = runCalls rest :=
      List.filter_cons_of_neg (by simpa using hother)
    rw [hcalls] at hsub hlen
    exact ⟨h.epochs, h.calls, w, hopen, hsub, hlen⟩

/-! ## Priming -/

theorem unanswered_parse (r : Readers) (trusts : Trust) (ms : List ChatMessage) :
    unanswered (ms.map (parseChatMessage r trusts)) = unanswered ms := by
  apply unanswered_shape
  rw [List.map_map]
  rfl

theorem parse_person {r : Readers} {trusts : Trust}
    (h : (parseChatMessage r trusts m).personContext ≠ none) : m.role = .user := by
  by_contra hrole
  exact h (if_neg hrole)

/-- The history of a new process has the open calls of the transcript. -/
theorem open_primed (deps : Deps) (b : Boot) {w : List String} (h : unanswered d.newest = some w) :
    let mem := Memory.primed deps d (Memory.start b)
    Open d.newest mem.active mem.messages mem.nextRef mem.compactor w ∧
      mem.messages.map Entry.message = d.newest.map (parseChatMessage deps.readers b.trusts) ∧
      mem.calls = [] ∧ mem.callEpoch ≤ mem.epoch := by
  unfold Memory.primed
  dsimp only
  by_cases hempty : d.newest = []
  · rw [hempty] at h ⊢
    rw [if_pos (List.map_nil)]
    cases h
    exact ⟨⟨fun _ => rfl, rfl, rfl, fun _ he => absurd he List.not_mem_nil,
      fun _ he => absurd he List.not_mem_nil, fun _ href => absurd href List.not_mem_nil, le_rfl,
      fun _ _ => rfl⟩, rfl, rfl, le_rfl⟩
  · rw [if_neg (by simpa using hempty)]
    refine ⟨⟨nofun, h, ?_, ?_, ?_, fun _ href => absurd href List.not_mem_nil, le_rfl,
      fun _ _ => rfl⟩, objects_message _ _, rfl, le_rfl⟩
    · rw [objects_message, unanswered_parse]
      exact h
    · intro e he hne
      have hmem := List.mem_map_of_mem (f := Entry.message) he
      rw [objects_message] at hmem
      obtain ⟨m, -, hm⟩ := List.mem_map.mp hmem
      rw [← hm] at hne ⊢
      exact (parse_person hne : m.role = .user)
    · exact fun e he => objects_ref he

theorem getLast?_of_map {es : List Entry} {ms : List ChatMessage} {f : ChatMessage → ChatMessage}
    (h : es.map Entry.message = ms.map f) :
    es.getLast?.map Entry.message = ms.getLast?.map f := by
  rw [← List.getLast?_map, ← List.getLast?_map, h]

theorem unanswered_last {ms : List ChatMessage} {w : List String}
    (h : unanswered ms = some w) (hlast : ms.getLast? = some m) (hrole : m.role = .assistant) :
    w = m.toolCalls.map Kernel.ToolCall.id := by
  have hsplit := List.dropLast_append_getLast? m hlast
  rw [← hsplit] at h
  obtain ⟨v, hv⟩ := unanswered_take h ms.dropLast.length
  rw [List.take_left' rfl] at hv
  rw [unanswered_append hv, answers_singleton] at h
  by_cases hv' : v = []
  · subst hv'
    rw [Kernel.answer_assistant hrole] at h
    exact (Option.some.inj h).symm
  · rw [Kernel.answer_blocked hv' (by
      show m.role ≠ .tool
      rw [hrole]
      nofun)] at h
    cases h

/-- **Restart priming and recovery.** However the transcript ends, nothing comes out of
place, and no call is left open exactly if the transcript could be repaired. -/
theorem wp_prime (deps : Deps) (b : Boot) {w : List String} (h : unanswered d.newest = some w) :
    wp (prime deps) (fun _ d' mem' => mem'.calls = [] ∧ mem'.callEpoch ≤ mem'.epoch ∧
        ∃ v, Open d'.newest mem'.active mem'.messages mem'.nextRef mem'.compactor v ∧
          (v = [] ↔ Repairable d.newest))
      (fun _ _ _ => False) (fun d' _ => Ordered d') d (Memory.start b) := by
  obtain ⟨hopen, hmessages, hcalls, hepochs⟩ := open_primed deps b h
  have hlast := getLast?_of_map hmessages
  unfold prime
  apply wp_bind
  apply wp_read
  apply wp_bind
  apply wp_modify
  generalize Memory.primed deps d (Memory.start b) = mem at *
  unfold recoverInterruptedToolCall
  apply wp_bind
  apply wp_read
  -- nothing to answer: what is open stays open
  have hidle : (∀ m, d.newest.getLast? = some m → m.role = .assistant → m.toolCalls = []) →
      (w = [] ↔ Repairable d.newest) := by
    intro hno
    constructor
    · rintro rfl
      exact Or.inl h
    · rintro (hnone | ⟨m, hm, hrole, -⟩)
      · rw [h] at hnone
        exact Option.some.inj hnone
      · rw [unanswered_last h hm hrole, hno m hm hrole]
        rfl
  cases hend : mem.messages.getLast? with
  | none =>
      refine wp_pure ⟨hcalls, hepochs, w, hopen, hidle ?_⟩
      intro m hm
      rw [hend, hm] at hlast
      cases hlast
  | some last =>
      rw [hend, Option.map_some] at hlast
      obtain ⟨m, hm, hparsed⟩ := Option.map_eq_some_iff.mp hlast.symm
      have hrole : last.message.role = m.role := by rw [← hparsed]; rfl
      have htools : last.message.toolCalls = m.toolCalls := by rw [← hparsed]; rfl
      apply wp_ite
      · intro hno
        refine wp_pure ⟨hcalls, hepochs, w, hopen, hidle ?_⟩
        intro m' hm' hassistant
        obtain rfl : m = m' := Option.some.inj (hm.symm.trans hm')
        rcases hno with hno | hno
        · exact absurd (hrole.trans hassistant) hno
        · exact htools.symm.trans hno
      · intro hyes
        push Not at hyes
        have hassistant : m.role = .assistant := hrole.symm.trans hyes.1
        have hw := unanswered_last h hm hassistant
        have hcount := List.length_eq_length_filter_add
          (l := m.toolCalls) (fun call => decide (call.name = "run"))
        let others := (m.toolCalls.filter (fun call => !decide (call.name = "run"))).length
        have hstart : Recovering others m.toolCalls d mem := by
          refine ⟨hepochs, hcalls, w, hopen, ?_, ?_⟩
          · rw [hw]
            exact (List.filter_sublist.map _).subperm
          · rw [hw, List.length_map]
            exact hcount
        rw [htools]
        refine wp_mono (wp_forEach (I := Recovering others)
          (fun call rest d' mem' hI => recovering_call _ hI) _ hstart) ?_ (fun _ _ _ he => he)
          (fun _ _ hc => hc)
        rintro _ d' mem' ⟨hepochs', hcalls', v, hopen', -, hlen⟩
        refine ⟨hcalls', hepochs', v, hopen', ?_⟩
        rw [← List.length_eq_zero_iff, hlen, show (runCalls []).length = 0 from rfl, Nat.zero_add]
        constructor
        · intro hzero
          refine Or.inr ⟨m, hm, hassistant, ?_⟩
          have hnone : m.toolCalls.filter (fun call => !decide (call.name = "run")) = [] :=
            List.length_eq_zero_iff.mp hzero
          intro call hcall
          have hnot := List.filter_eq_nil_iff.mp hnone call hcall
          simpa using hnot
        · rintro (hnone | ⟨m', hm', -, hall⟩)
          · rw [h, hw, Option.some.injEq, List.map_eq_nil_iff] at hnone
            exact absurd (htools.trans hnone) hyes.2
          · obtain rfl : m = m' := Option.some.inj (hm.symm.trans hm')
            have hnone : m.toolCalls.filter (fun call => !decide (call.name = "run")) = [] :=
              List.filter_eq_nil_iff.mpr (fun call hcall => by simp [hall call hcall])
            exact congrArg List.length hnone

/-! ## Runs -/

/-- A completed boot leaves a well-formed history. -/
def BootWellFormed (deps : Deps) (s : State) : Event → Prop
  | .boot b => s.memory = none → ∀ mem, (step deps s (.boot b)).memory = some mem →
      Kernel.WellFormed ((mem.messages.map Entry.message).map sent)
  | _ => True

/-- A boot finds a transcript that can be repaired. -/
def BootRepairable (s : State) : Event → Prop
  | .boot _ => s.memory = none → Repairable s.store.newest
  | _ => True

/-- While it lives a process is in step with its store; a dead one has left an ordered
transcript. -/
abbrev Kept (s : State) : Prop := Holds InStep Ordered s

theorem keepsStep_dies {x : Agent Unit} (h : KeepsStep x d mem) :
    wp x (fun _ d' _ => Ordered d') (fun _ _ _ => False) (fun d' _ => Ordered d') d mem :=
  wp_mono h (fun _ _ _ h' => h'.ordered) (fun _ _ _ he => he) (fun _ _ hc => hc)

theorem kept_step {s : State} (hs : Kept s) (e : Event) (hboot : BootRepairable s e) :
    Kept (step deps s e) := by
  cases e with
  | boot b =>
      apply holds_boot hs
      rintro hnone ⟨w, hw⟩
      refine wp_mono (wp_prime deps b hw) ?_ (fun _ _ _ he => he) (fun _ _ hc => hc)
      rintro _ d' mem' ⟨hcalls, hepochs, v, hopen, hiff⟩
      rw [hiff.mpr (hboot hnone)] at hopen
      exact InStep.of_quiet hepochs hcalls hopen
  | bootDies b writes =>
      apply holds_bootDies hs
      rintro - ⟨w, hw⟩
      refine wp_mono (wp_prime deps b hw) ?_ (fun _ _ _ he => he) (fun _ _ hc => hc)
      rintro _ d' mem' ⟨-, -, v, hopen, -⟩
      exact ⟨v, hopen.disk⟩
  | act a => exact holds_act hs (fun mem _ h => keepsStep_action h a)
  | actDies a writes =>
      exact holds_actDies hs (fun mem _ h => keepsStep_dies (keepsStep_action h a))
  | edit path content =>
      unfold Kept Holds at hs ⊢
      simp only [step]
      cases hmem : s.memory with
      | none =>
          rw [hmem] at hs
          exact hs
      | some mem =>
          rw [hmem] at hs
          exact ⟨hs.epochs, hs.calls⟩

/-- A boot is well formed exactly when the transcript it finds can be repaired. -/
theorem bootWellFormed_iff {s : State} (hs : Kept s) (e : Event) :
    BootWellFormed deps s e ↔ BootRepairable s e := by
  cases e with
  | boot b =>
      unfold BootWellFormed BootRepairable
      refine forall_congr' (fun hnone => ?_)
      unfold Kept Holds at hs
      rw [hnone] at hs
      obtain ⟨w, hw⟩ := hs
      obtain ⟨_, d', mem', heq, -, -, v, hopen, hiff⟩ := completed_of_wp (wp_prime deps b hw)
      rw [← hiff]
      have hmem : (step deps s (.boot b)).memory = some mem' := by
        simp only [step, hnone, heq]
      have hwell : Kernel.WellFormed ((mem'.messages.map Entry.message).map sent) ↔ v = [] := by
        show unanswered _ = _ ↔ _
        rw [hopen.memory, Option.some.injEq]
      constructor
      · exact fun h => hwell.mp (h mem' hmem)
      · intro hv mem hmem'
        rw [hmem] at hmem'
        cases hmem'
        exact hwell.mpr hv
  | bootDies b writes | act a | actDies a writes | edit path content => exact Iff.rfl

/-- **Recovery after a crash, over runs.** In every run of the resident, with crashes
anywhere, each completed restart leaves a history in which every call has its result,
exactly if each restart finds a transcript without an open call, or one whose last message
is an assistant's with calls to `run` only. -/
theorem recoveries_wellFormed (deps : Deps) (files : Files) (events : List Event) :
    EachStep (step deps) (BootWellFormed deps) (State.init files) events ↔
      EachStep (step deps) BootRepairable (State.init files) events :=
  eachStep_iff (fun _ e hs => bootWellFormed_iff hs e) (fun _ e hs hok => kept_step hs e hok) events
    ⟨[], rfl⟩

/-! ## A batch cut in the middle -/

/-- The model answers with two calls to `run`, and the process dies when the first has its
result. -/
def cutBatch : List Event :=
  [.boot plainBoot,
    .act (.drain ⟨"hello", [], [], [], none, false, "general"⟩),
    .act (.reply ⟨"", none, [], [], [⟨"a", "run", "\x7b\x7d"⟩, ⟨"b", "run", "\x7b\x7d"⟩], none, none,
      false⟩ "general"),
    .act (.toolSettled plainOutcome id "general"),
    .actDies (.endWake .fired) 0]

/-- The second call stays open after the restart. -/
theorem recovery_leaves_open_call :
    ¬∀ (deps : Deps) (files : Files) (events : List Event),
      EachStep (step deps) (BootWellFormed deps) (State.init files) events := by
  intro h
  have hlast := (h plainDeps (fun _ => none) (cutBatch ++ [.boot plainBoot])).last
  have hdead : (run (step plainDeps) (State.init (fun _ => none)) cutBatch).memory.isNone = true := by
    decide
  have hopen : (step plainDeps (run (step plainDeps) (State.init (fun _ => none)) cutBatch)
      (.boot plainBoot)).memory.any (fun mem =>
        decide (¬Kernel.WellFormed ((mem.messages.map Entry.message).map sent))) = true := by
    decide
  obtain ⟨mem, hmem, hbad⟩ := (Option.any_eq_true _ _).mp hopen
  exact of_decide_eq_true hbad (hlast (Option.isNone_iff_eq_none.mp hdead) mem hmem)

end Elpis.Resident
