import Elpis.Kernel.Transcript
import Elpis.Llm.Pairs
import Elpis.Resident.Rules

/-!
# Open calls of the resident's history

The calls of a history that wait for a result, along every program of the loop. The
transcript and the history in memory have the same open calls while the process lives, and
these are the calls it has still to dispatch. Only the shape of a message counts: its
role, its calls and the call it answers. What changes messages in place keeps the shape,
and a compaction cuts where no call is open.
-/

namespace Elpis.Resident

open Elpis.Llm Elpis.Lib Crash

/-! ## Open calls -/

/-- A message as the model is sent it. -/
def sent (m : ChatMessage) : Kernel.ChatMessage := ⟨m.role, m.content, m.toolCalls, m.toolCallId⟩

/-- The calls that wait for a result, `none` when a message came out of place. -/
def unanswered (ms : List ChatMessage) : Option (List String) := Kernel.waits (ms.map sent)

/-- The calls that wait after some more messages. -/
def answers (w : List String) (ms : List ChatMessage) : Option (List String) :=
  (ms.map sent).foldlM Kernel.answer w

theorem answers_append (w : List String) (ms ms' : List ChatMessage) :
    answers w (ms ++ ms') = (answers w ms).bind (fun v => answers v ms') := by
  unfold answers
  rw [List.map_append]
  exact List.foldlM_append

theorem answers_cons (w : List String) (m : ChatMessage) (ms : List ChatMessage) :
    answers w (m :: ms) = (Kernel.answer w (sent m)).bind (fun v => answers v ms) := rfl

theorem answers_singleton (w : List String) (m : ChatMessage) :
    answers w [m] = Kernel.answer w (sent m) := by
  rw [answers_cons]
  cases Kernel.answer w (sent m) with
  | none => rfl
  | some v => rfl

theorem unanswered_append {ms : List ChatMessage} {w : List String} (h : unanswered ms = some w)
    (ms' : List ChatMessage) : unanswered (ms ++ ms') = answers w ms' := by
  have happ := answers_append [] ms ms'
  rw [show answers [] ms = some w from h] at happ
  exact happ

/-- What waits depends on the shapes only. -/
theorem answer_shape {m m' : ChatMessage} (h : shape m = shape m') (w : List String) :
    Kernel.answer w (sent m) = Kernel.answer w (sent m') := by
  simp only [shape, Prod.mk.injEq] at h
  obtain ⟨hrole, hcalls, hid⟩ := h
  unfold Kernel.answer sent
  simp only [hrole, hcalls, hid]

theorem answers_shape {ms ms' : List ChatMessage} (h : ms.map shape = ms'.map shape)
    (w : List String) : answers w ms = answers w ms' := by
  induction ms generalizing ms' w with
  | nil =>
      cases ms' with
      | nil => rfl
      | cons m' ms' => cases h
  | cons m ms ih =>
      cases ms' with
      | nil => cases h
      | cons m' ms' =>
          simp only [List.map_cons, List.cons.injEq] at h
          rw [answers_cons, answers_cons, answer_shape h.1]
          congr 1
          funext v
          exact ih h.2 v

theorem unanswered_shape {ms ms' : List ChatMessage} (h : ms.map shape = ms'.map shape) :
    unanswered ms = unanswered ms' := answers_shape h []

theorem unanswered_take {ms : List ChatMessage} {w : List String} (h : unanswered ms = some w)
    (n : ℕ) : ∃ v, unanswered (ms.take n) = some v := by
  have happ := answers_append [] (ms.take n) (ms.drop n)
  rw [List.take_append_drop, show answers [] ms = some w from h] at happ
  cases hv : answers [] (ms.take n) with
  | none =>
      rw [hv] at happ
      cases happ
  | some v => exact ⟨v, hv⟩

/-- A message of a person or of the harness, when no call waits. -/
theorem answer_told {m : ChatMessage} (h : m.role = .system ∨ m.role = .user) :
    Kernel.answer [] (sent m) = some [] := by
  unfold Kernel.answer sent
  rcases h with h | h
  · simp [h]
  · simp [h]

theorem answer_told_iff {m : ChatMessage} {w v : List String} (h : m.role = .user) :
    Kernel.answer w (sent m) = some v ↔ w = [] ∧ v = [] := by
  unfold Kernel.answer sent
  simp only [h]
  by_cases hw : w = []
  · simp [hw, eq_comm]
  · simp [hw]

/-! ## The cut of a compaction -/

/-- At the boundary of a start no call is open. -/
theorem unanswered_boundary {ms : List ChatMessage} (h : unanswered ms = some [])
    (cfg : CompactorConfig) (ratio : Ratio) :
    unanswered (ms.take (cfg.boundary ms ratio)) = some [] := by
  obtain ⟨v, hv⟩ := unanswered_take h (cfg.boundary ms ratio)
  rw [hv]
  by_contra hne
  have hv' : v ≠ [] := fun hnil => hne (by rw [hnil])
  have hrest := unanswered_append hv (ms.drop (cfg.boundary ms ratio))
  rw [List.take_append_drop, h] at hrest
  cases hdrop : ms.drop (cfg.boundary ms ratio) with
  | nil =>
      rw [hdrop] at hrest
      exact hv' (Option.some.inj hrest).symm
  | cons m rest =>
      -- the message behind the boundary is no result, so it has to wait for the open calls
      have hm : ms[cfg.boundary ms ratio]? = some m := by
        rw [← List.head?_drop, hdrop]
        rfl
      have hrole : m.role ≠ .tool :=
        enforcePairIntegrity_not_tool (walkKeepBoundary_le ms cfg.keepTokens ratio) hm
      rw [hdrop, answers_cons, Kernel.answer_blocked hv' hrole] at hrest
      cases hrest

/-- Behind a cut where no call is open, between a summary and a notice. -/
theorem unanswered_rebuilt {messages : List Entry} {b n fresh : ℕ} {summary : String}
    (h : unanswered (messages.map Entry.message) = some [])
    (hcut : unanswered ((messages.take b).map Entry.message) = some [])
    (hb : b ≤ min n messages.length) :
    unanswered ((rebuilt fresh b n summary messages).map Entry.message) = some [] := by
  have hlen : (messages.take (min n messages.length)).length = min n messages.length := by
    rw [List.length_take]
    omega
  have hsplit := List.take_append_drop (min n messages.length) messages
  have hshape := @rebuilt_shape fresh b summary _ (messages.drop (min n messages.length))
    (hb.trans_eq hlen.symm)
  have hn : rebuilt fresh b (min n messages.length) summary messages =
      rebuilt fresh b n summary messages := by
    unfold rebuilt
    rw [min_assoc, min_self]
  rw [hsplit, hlen, hn] at hshape
  have hdrop : answers [] ((messages.map Entry.message).drop b) = some [] := by
    have hrest := unanswered_append hcut ((messages.map Entry.message).drop b)
    rw [List.map_take, List.take_append_drop, h] at hrest
    exact hrest.symm
  have hall : ((rebuilt fresh b n summary messages).map Entry.message).map shape =
      (summaryMessage summary b :: ((messages.map Entry.message).drop b ++
        [compactionNotice b])).map shape := by
    rw [hshape]
    simp
  rw [unanswered_shape hall]
  show answers [] _ = _
  rw [answers_cons, answer_told (Or.inl rfl), Option.bind_some, answers_append, hdrop,
    Option.bind_some, answers_singleton]
  exact answer_told (Or.inr rfl)

/-- The memories of people come and go only where no call waits. -/
theorem answers_refresh {profile : PersonIdentity → String} {es : List Entry}
    (hpeople : ∀ e ∈ es, e.message.personContext ≠ none → e.message.role = .user) :
    ∀ {fresh : ℕ} {injected : List String} {w v : List String},
      answers w (es.map Entry.message) = some v →
      answers w ((refreshPersonMemory profile fresh injected es).map Entry.message) = some v := by
  induction es with
  | nil => exact fun h => h
  | cons e es ih =>
      intro fresh injected w v h
      have ih' := @ih (fun e' he' => hpeople e' (List.mem_cons_of_mem _ he'))
      rw [List.map_cons, answers_cons] at h
      cases hu : Kernel.answer w (sent e.message) with
      | none =>
          rw [hu] at h
          cases h
      | some u =>
          rw [hu, Option.bind_some] at h
          have hkeep : ∀ {fresh injected}, answers w
              ((e :: refreshPersonMemory profile fresh injected es).map Entry.message) = some v := by
            intro fresh injected
            rw [List.map_cons, answers_cons, hu]
            exact ih' h
          unfold refreshPersonMemory
          split
          · rename_i hperson
            obtain ⟨rfl, rfl⟩ := (answer_told_iff
              (hpeople e List.mem_cons_self (by rw [hperson]; nofun))).mp hu
            exact ih' h
          · rename_i hperson
            split
            · exact hkeep
            · obtain ⟨rfl, rfl⟩ := (answer_told_iff
                (hpeople e List.mem_cons_self (by rw [hperson]; nofun))).mp hu
              rw [List.map_cons, answers_cons, answer_told (Or.inr rfl)]
              exact hkeep
          · exact hkeep

/-! ## The invariant -/

/-- **The open calls of a living process.** `w` is what waits in its history and in its
transcript. The last fields are about a compaction under way: if the frozen objects still
stand in front, no call is open behind them. -/
structure Open (newest : List ChatMessage) (active : Bool) (messages : List Entry)
    (nextRef : ℕ) (c : CompactorState) (w : List String) : Prop where
  started : active = false → messages = []
  disk : unanswered newest = some w
  memory : unanswered (messages.map Entry.message) = some w
  people : ∀ e ∈ messages, e.message.personContext ≠ none → e.message.role = .user
  refs : ∀ e ∈ messages, e.ref < nextRef
  frozen : ∀ ref ∈ c.frozenPrefix, ref < nextRef
  bound : c.boundaryIndex ≤ c.startedLength
  cut : c.frozenPrefix.length = c.boundaryIndex →
    (messages.take c.boundaryIndex).map Entry.ref = c.frozenPrefix →
    unanswered ((messages.take c.boundaryIndex).map Entry.message) = some []

variable {newest : List ChatMessage} {active : Bool} {messages : List Entry} {nextRef : ℕ}
  {c : CompactorState} {w w' : List String}

/-- The calls a process has still to dispatch for its history. -/
def Memory.owed (mem : Memory) : List ToolCall :=
  if mem.callEpoch = mem.epoch then mem.calls else []

/-- What holds between a living process and its store. -/
structure InStep (d : Store) (mem : Memory) : Prop where
  epochs : mem.callEpoch ≤ mem.epoch
  calls : Open d.newest mem.active mem.messages mem.nextRef mem.compactor
    (mem.owed.map Kernel.ToolCall.id)

/-- Nothing came out of place in the transcript. -/
def Ordered (d : Store) : Prop := ∃ w, unanswered d.newest = some w

theorem InStep.ordered {d : Store} {mem : Memory} (h : InStep d mem) : Ordered d :=
  ⟨_, h.calls.disk⟩

/-- One more message, of which the transcript may hold less than the history. -/
theorem Open.push (h : Open newest active messages nextRef c w) {m p : ChatMessage}
    (hperson : m.personContext ≠ none → m.role = .user)
    (hm : Kernel.answer w (sent m) = some w') (hp : Kernel.answer w (sent p) = some w') :
    Open (if active then newest ++ [p] else [p]) true (messages ++ [⟨nextRef, m⟩]) (nextRef + 1) c
      w' where
  started := nofun
  disk := by
    split
    · rw [unanswered_append h.disk, answers_singleton, hp]
    · rename_i hactive
      have hnil := h.started (by simpa using hactive)
      have hw : w = [] := by
        have hmem := h.memory
        rw [hnil] at hmem
        exact (Option.some.inj hmem).symm
      subst hw
      show answers [] [p] = _
      rw [answers_singleton, hp]
  memory := by
    rw [List.map_append, unanswered_append h.memory, List.map_cons, List.map_nil,
      answers_singleton, hm]
  people := by
    intro e he
    rcases List.mem_append.mp he with he | he
    · exact h.people e he
    · rw [List.mem_singleton.mp he]
      exact hperson
  refs := by
    intro e he
    rcases List.mem_append.mp he with he | he
    · exact (h.refs e he).trans (Nat.lt_succ_self _)
    · rw [List.mem_singleton.mp he]
      exact Nat.lt_succ_self _
  frozen := fun ref href => (h.frozen ref href).trans (Nat.lt_succ_self _)
  bound := h.bound
  cut := by
    intro hlen href
    by_cases hb : c.boundaryIndex ≤ messages.length
    · rw [List.take_append_of_le_length hb] at href ⊢
      exact h.cut hlen href
    · -- the new object is none of the frozen ones
      rw [List.take_of_length_le (by rw [List.length_append, List.length_singleton]; omega)] at href
      have hmem : nextRef ∈ c.frozenPrefix := by
        rw [← href]
        simp
      exact absurd (h.frozen _ hmem) (Nat.lt_irrefl _)

/-- Objects that change in place and keep their shape. -/
theorem Open.edit (h : Open newest active messages nextRef c w) {f : Entry → Entry}
    (href : ∀ e, (f e).ref = e.ref) (hshape : ∀ e, shape (f e).message = shape e.message)
    (hperson : ∀ e, (f e).message.personContext = e.message.personContext) :
    Open newest active (messages.map f) nextRef c w := by
  have hshapes : ∀ es : List Entry,
      unanswered ((es.map f).map Entry.message) = unanswered (es.map Entry.message) := by
    intro es
    apply unanswered_shape
    simp only [List.map_map]
    exact List.map_congr_left (fun e _ => hshape e)
  refine ⟨?_, h.disk, ?_, ?_, ?_, h.frozen, h.bound, ?_⟩
  · intro hactive
    rw [h.started hactive]
    rfl
  · rw [hshapes]
    exact h.memory
  · intro e' he' hne
    obtain ⟨e, he, rfl⟩ := List.mem_map.mp he'
    rw [hperson] at hne
    have hrole : (f e).message.role = e.message.role := congrArg Prod.fst (hshape e)
    rw [hrole]
    exact h.people e he hne
  · intro e' he'
    obtain ⟨e, he, rfl⟩ := List.mem_map.mp he'
    rw [href]
    exact h.refs e he
  · intro hlen hrefs
    rw [← List.map_take] at hrefs ⊢
    rw [hshapes]
    apply h.cut hlen
    rw [← hrefs, List.map_map]
    exact List.map_congr_left (fun e _ => (href e).symm)

/-- The last message is taken back, when it is the user's. -/
theorem Open.dropLast (h : Open newest active messages nextRef c w) {e : Entry}
    (hlast : messages.getLast? = some e) (hrole : e.message.role = .user) :
    Open newest active messages.dropLast nextRef c w := by
  have hsplit : messages.dropLast ++ [e] = messages :=
    List.dropLast_append_getLast? e hlast
  refine ⟨?_, h.disk, ?_, ?_, ?_, h.frozen, h.bound, ?_⟩
  · intro hactive
    rw [h.started hactive]
    rfl
  · have hmem := h.memory
    rw [← hsplit, List.map_append] at hmem
    obtain ⟨v, hv⟩ := unanswered_take hmem messages.dropLast.length
    rw [List.take_left' (by simp)] at hv
    rw [unanswered_append hv, List.map_cons, List.map_nil, answers_singleton,
      answer_told_iff hrole] at hmem
    rw [hv, hmem.1, hmem.2]
  · exact fun e' he' => h.people e' (List.mem_of_mem_dropLast he')
  · exact fun e' he' => h.refs e' (List.mem_of_mem_dropLast he')
  · intro hlen hrefs
    have hb : c.boundaryIndex ≤ messages.dropLast.length := by
      have hcount := congrArg List.length hrefs
      rw [List.length_map, List.length_take, hlen] at hcount
      omega
    have htake : messages.take c.boundaryIndex = messages.dropLast.take c.boundaryIndex := by
      conv_lhs => rw [← hsplit]
      exact List.take_append_of_le_length hb
    rw [← htake] at hrefs ⊢
    exact h.cut hlen hrefs

/-- Another compaction state, with its own cut. -/
theorem Open.recompact (h : Open newest active messages nextRef c w) {c' : CompactorState}
    (hfrozen : ∀ ref ∈ c'.frozenPrefix, ref < nextRef)
    (hbound : c'.boundaryIndex ≤ c'.startedLength)
    (hcut : c'.frozenPrefix.length = c'.boundaryIndex →
      (messages.take c'.boundaryIndex).map Entry.ref = c'.frozenPrefix →
      unanswered ((messages.take c'.boundaryIndex).map Entry.message) = some []) :
    Open newest active messages nextRef c' w :=
  ⟨h.started, h.disk, h.memory, h.people, h.refs, hfrozen, hbound, hcut⟩

theorem Open.uncompacted (h : Open newest active messages nextRef c w) {c' : CompactorState}
    (hfrozen : c'.frozenPrefix = []) (hboundary : c'.boundaryIndex = 0) :
    Open newest active messages nextRef c' w := by
  refine h.recompact ?_ ?_ ?_
  · rw [hfrozen]
    exact fun _ href => absurd href List.not_mem_nil
  · rw [hboundary]
    exact Nat.zero_le _
  · intro _ _
    rw [hboundary]
    rfl

/-! ## Along a compaction -/

theorem Open.start (h : Open newest active messages nextRef c []) (cfg : CompactorConfig)
    (ratio : Ratio) : Open newest active messages nextRef (Llm.start cfg ratio messages c).2 [] := by
  have hrecord : ∀ c' : CompactorState,
      c'.boundaryIndex = cfg.boundary (messages.map Entry.message) ratio →
      c'.startedLength = messages.length →
      c'.frozenPrefix = (messages.take (cfg.boundary (messages.map Entry.message) ratio)).map
        Entry.ref → Open newest active messages nextRef c' [] := by
    intro c' hboundary hlength hfrozen
    refine h.recompact ?_ ?_ ?_
    · rw [hfrozen]
      intro ref href
      obtain ⟨e, he, rfl⟩ := List.mem_map.mp href
      exact h.refs e (List.mem_of_mem_take he)
    · rw [hboundary, hlength]
      exact (boundary_le cfg _ ratio).trans_eq (List.length_map _)
    · intro _ _
      rw [hboundary, List.map_take]
      exact unanswered_boundary h.memory cfg ratio
  rcases start_cases cfg ratio messages c with
    ⟨-, heq⟩ | ⟨-, heq⟩ | ⟨error, -, heq⟩ | ⟨-, -, minChars, heq⟩
  · rw [heq]
    exact h
  · rw [heq]
    exact h.recompact h.frozen (Nat.zero_le _) (fun _ _ => rfl)
  · rw [heq]
    exact hrecord _ rfl rfl rfl
  · rw [heq]
    exact hrecord _ rfl rfl rfl

theorem settle_boundary (c : CompactorState) (run : ℕ) (outcome : Except String String) :
    (settle c run outcome).frozenPrefix = c.frozenPrefix ∧
      (settle c run outcome).boundaryIndex = c.boundaryIndex ∧
      (settle c run outcome).startedLength = c.startedLength := by
  rcases settle_cases c run outcome with ⟨heq, -⟩ | ⟨r, -, -, heq⟩
  · rw [heq]
    exact ⟨rfl, rfl, rfl⟩
  · rw [heq]
    rcases settleAttempt_cases c r outcome with
      ⟨-, hr⟩ | ⟨-, _, hr⟩ | ⟨-, _, hr⟩ | ⟨-, _, -, hr⟩
    all_goals
      rw [hr]
      exact ⟨rfl, rfl, rfl⟩

theorem Open.settle (h : Open newest active messages nextRef c w) (run : ℕ)
    (outcome : Except String String) :
    Open newest active messages nextRef (Llm.settle c run outcome) w := by
  obtain ⟨hfrozen, hboundary, hlength⟩ := settle_boundary c run outcome
  refine h.recompact ?_ ?_ ?_
  · rw [hfrozen]
    exact h.frozen
  · rw [hboundary, hlength]
    exact h.bound
  · rw [hfrozen, hboundary]
    exact h.cut

theorem amendLast_shape (text : String) (es : List Entry) :
    ((amendLast text es).map Entry.message).map shape = (es.map Entry.message).map shape := by
  induction es with
  | nil => rfl
  | cons e es ih =>
      cases es with
      | nil => rfl
      | cons e' es =>
          simp only [amendLast, List.map_cons, List.cons.injEq, true_and] at ih ⊢
          exact ih

theorem remind_shape (reminder : Option String) (es : List Entry) :
    ((remind reminder es).map Entry.message).map shape = (es.map Entry.message).map shape := by
  cases reminder with
  | none => rfl
  | some text => exact amendLast_shape _ es

/-- The history after a compaction, written again. -/
theorem Open.compacted {next : List Entry} {n : ℕ} {profile : PersonIdentity → String}
    {reminder : Option String} (hnext : unanswered (next.map Entry.message) = some [])
    (hpeople : ∀ e ∈ next, e.message.personContext ≠ none → e.message.role = .user)
    (hrefs : ∀ e ∈ next, e.ref < n) (hc : c.frozenPrefix = [] ∧ c.boundaryIndex = 0) :
    let refreshed := refreshPersonMemory profile n [] (remind reminder next)
    Open (lines refreshed) (decide (refreshed ≠ [])) refreshed (n + refreshed.length) c [] := by
  intro refreshed
  have hamended : ∀ e' ∈ remind reminder next, ∃ e ∈ next, e'.ref = e.ref ∧
      e'.message.role = e.message.role ∧
      e'.message.personContext = e.message.personContext := by
    intro e' he'
    obtain ⟨e, he, rfl | ⟨text, rfl⟩⟩ := remind_mem he'
    · exact ⟨e', he, rfl, rfl, rfl⟩
    · exact ⟨e, he, rfl, rfl, rfl⟩
  have hquiet : answers [] ((remind reminder next).map Entry.message) = some [] :=
    (unanswered_shape (remind_shape reminder next)).trans hnext
  have husers : ∀ e ∈ remind reminder next, e.message.personContext ≠ none → e.message.role = .user := by
    intro e' he' hne
    obtain ⟨e, he, -, hrole, hperson⟩ := hamended e' he'
    rw [hperson] at hne
    rw [hrole]
    exact hpeople e he hne
  have hmemory : unanswered (refreshed.map Entry.message) = some [] :=
    answers_refresh husers hquiet
  refine ⟨?_, ?_, hmemory, ?_, ?_, ?_, ?_, ?_⟩
  · intro hempty
    simpa using hempty
  · rw [← hmemory]
    apply unanswered_shape
    simp only [lines, List.map_map]
    rfl
  · intro e' he' hne
    rcases refresh_mem he' with hold | ⟨-, _, -, p, -, hmsg⟩
    · exact husers e' hold hne
    · rw [hmsg]
      rfl
  · intro e' he'
    rcases refresh_mem he' with hold | ⟨hlt, -⟩
    · obtain ⟨e, he, href, -⟩ := hamended e' hold
      rw [href]
      exact (hrefs e he).trans_le (Nat.le_add_right _ _)
    · exact hlt
  · rw [hc.1]
    exact fun _ href => absurd href List.not_mem_nil
  · rw [hc.2]
    exact Nat.zero_le _
  · intro _ _
    rw [hc.2]
    rfl

theorem Open.rebuilt (h : Open newest active messages nextRef c []) (summary : String)
    (hlen : c.frozenPrefix.length = c.boundaryIndex)
    (href : (messages.take c.boundaryIndex).map Entry.ref = c.frozenPrefix) :
    let next := Llm.rebuilt nextRef c.boundaryIndex c.startedLength summary messages
    unanswered (next.map Entry.message) = some [] ∧
      (∀ e ∈ next, e.message.personContext ≠ none → e.message.role = .user) ∧
      ∀ e ∈ next, e.ref < nextRef + next.length := by
  intro next
  refine ⟨?_, ?_, ?_⟩
  · apply unanswered_rebuilt h.memory (h.cut hlen href)
    have hcount := congrArg List.length href
    rw [List.length_map, List.length_take, hlen] at hcount
    have hbound := h.bound
    omega
  · intro e' he' hne
    rcases rebuilt_mem he' with hold | ⟨-, hmsg | hmsg | ⟨e, he, hmsg⟩⟩
    · exact h.people e' hold hne
    · rw [hmsg] at hne
      exact absurd rfl hne
    · rw [hmsg] at hne
      exact absurd rfl hne
    · rw [hmsg] at hne ⊢
      exact h.people e he hne
  · intro e' he'
    rcases rebuilt_mem he' with hold | ⟨hlt, -⟩
    · exact (h.refs e' hold).trans_le (Nat.le_add_right _ _)
    · exact hlt

end Elpis.Resident
