import Elpis.Llm.Pairs
import Elpis.Resident.Loop

/-!
# Rules for the programs of the loop

What `append`, `pushMessage` and the rewriting of the transcript do to the store and to
the memory, where a process may die in them, and how an invariant of the programs becomes
one of the steps.
-/

namespace Elpis.Resident

open Elpis.Llm Elpis.Lib Crash

variable {P : Unit → Store → Memory → Prop} {E : Empty → Store → Memory → Prop}
  {C : Store → Memory → Prop} {d : Store} {mem : Memory}

/-! ## Lines -/

/-- The store after one more line. -/
def Store.line (d : Store) (active : Bool) (m : ChatMessage) : Store :=
  { d with newest := if active then d.newest ++ [m] else [m] }

theorem wp_append {m : ChatMessage} (hcrash : C d mem)
    (h : P () (d.line mem.active m) { mem with active := true }) : wp (append m) P E C d mem := by
  unfold append
  apply wp_bind
  apply wp_read
  apply wp_bind
  exact wp_write hcrash (wp_modify h)

/-- The memory after a message is pushed and written. -/
def Memory.pushed (m : ChatMessage) (mem : Memory) : Memory := { mem.push m with active := true }

theorem wp_pushMessage {m : ChatMessage} {channel : String}
    (hcrash : C d (mem.push (onChannel m channel)))
    (h : P () (d.line mem.active (stored (onChannel m channel)))
      (mem.pushed (onChannel m channel))) :
    wp (pushMessage m channel) P E C d mem := by
  unfold pushMessage
  apply wp_bind
  exact wp_modify (wp_append hcrash h)

/-- The lines of a history that is written as a whole. -/
def lines (messages : List Entry) : List ChatMessage :=
  messages.map (fun e => persistable e.message)

/-- The whole history is written again. A process that dies in it leaves the old file, or
the first lines of the new one. -/
theorem wp_rewriteTranscript
    (hcrash : ∀ d' mem', d'.files = d.files →
      (d'.newest = d.newest ∨ ∃ n, d'.newest = (lines mem.messages).take n) → C d' mem')
    (h : P () { d with newest := if mem.messages = [] then d.newest else lines mem.messages }
      { mem with active := decide (mem.messages ≠ []) }) :
    wp rewriteTranscript P E C d mem := by
  unfold rewriteTranscript rotate
  apply wp_bind
  apply wp_modify
  apply wp_bind
  apply wp_read
  -- the loop, over what is not written yet
  let I : List Entry → Store → Memory → Prop := fun rest d' mem' =>
    ∃ written, written ++ rest = mem.messages ∧
      mem' = { mem with active := decide (written ≠ []) } ∧
      d' = { d with newest := if written = [] then d.newest else lines written }
  have hinit : I mem.messages d { mem with active := false } := ⟨[], rfl, rfl, rfl⟩
  refine wp_mono (wp_forEach (I := I) (E := E) (C := C) ?_ mem.messages hinit) ?_
    (fun _ _ _ he => he) (fun _ _ hc => hc)
  · rintro e rest d' mem' ⟨written, hall, rfl, rfl⟩
    apply wp_append
    · refine hcrash _ _ ?_ ?_
      · rfl
      by_cases hw : written = []
      · exact Or.inl (if_pos hw)
      · refine Or.inr ⟨written.length, ?_⟩
        show (if written = [] then d.newest else lines written) = _
        rw [if_neg hw, ← hall]
        simp [lines]
    · refine ⟨written ++ [e], ?_, ?_, ?_⟩
      · rw [List.append_assoc]
        exact hall
      · simp
      · unfold Store.line
        by_cases hw : written = []
        · simp [hw, lines]
        · simp [hw, lines]
  · rintro _ d' mem' ⟨written, hall, rfl, rfl⟩
    rw [List.append_nil] at hall
    subst hall
    exact h

theorem wp_rotateToSentinel (hcrash : C d mem)
    (h : P () { d with newest := [] } { mem with active := true }) :
    wp rotateToSentinel P E C d mem := by
  unfold rotateToSentinel
  apply wp_bind
  exact wp_write hcrash (wp_modify h)

theorem wp_betweenTurns {x : Agent Unit} (hx : mem.calls = [] → wp x P E C d mem)
    (hbusy : P () d mem) : wp (betweenTurns x) P E C d mem := by
  unfold betweenTurns
  apply wp_bind
  apply wp_read
  exact wp_when hx (fun _ => hbusy)

/-- The output of the call that is up, unless the context was cleared since. -/
def Memory.upcoming (deps : Deps) (d : Store) (o : RunOutcome) (redact : String → String)
    (mem : Memory) : Option (ToolCall × ToolOutput) :=
  match mem.calls with
  | [] => none
  | call :: rest =>
      if mem.callEpoch = mem.epoch then
        some (call, (handleTool deps d.files redact mem call (decide (rest = [])) o).1)
      else none

theorem upcoming_eq (deps : Deps) (d : Store) (o : RunOutcome) (redact : String → String)
    {call : ToolCall} {rest : List ToolCall} (hcalls : mem.calls = call :: rest)
    (hepoch : mem.callEpoch = mem.epoch) :
    mem.upcoming deps d o redact =
      some (call, (handleTool deps d.files redact mem call (decide (rest = [])) o).1) := by
  unfold Memory.upcoming
  rw [hcalls]
  exact if_pos hepoch

/-! ## Where messages come from -/

/-- A checkpoint leaves the history alone, or rebuilds it over the frozen prefix. -/
theorem applyCompaction_cases (cfg : CompactorConfig) (fresh : ℕ) (messages : List Entry)
    (c : CompactorState) :
    (∃ c', applyCompaction cfg fresh messages c = (none, c') ∧ (c' = c ∨ c' = c.forget)) ∨
      ∃ summary, prefixMatches cfg c messages = true ∧ c.frozenPrefix.length = c.boundaryIndex ∧
        (messages.take c.boundaryIndex).map Entry.ref = c.frozenPrefix ∧
        applyCompaction cfg fresh messages c =
          (some (rebuilt fresh c.boundaryIndex c.startedLength summary messages), c.forget) := by
  unfold applyCompaction
  cases c.resultSummary with
  | none => exact Or.inl ⟨c, rfl, Or.inl rfl⟩
  | some summary =>
      dsimp only
      split
      · rename_i hprefix
        have hparts := hprefix
        simp only [prefixMatches, Bool.and_eq_true, decide_eq_true_eq] at hparts
        obtain ⟨⟨hlen, hrefs⟩, -⟩ := hparts
        rw [hlen] at hrefs
        exact Or.inr ⟨summary, hprefix, hlen, hrefs, rfl⟩
      · exact Or.inl ⟨c.forget, rfl, Or.inr rfl⟩

variable {es : List Entry}

theorem evict_mem {e' : Entry} :
    ∀ {fresh : ℕ}, e' ∈ evictContextResourceBodies fresh es →
      ∃ e ∈ es, e' = e ∨ e'.message = evicted e.message ∧ fresh ≤ e'.ref ∧
        e'.ref < fresh + es.length := by
  induction es with
  | nil => exact fun h => absurd h List.not_mem_nil
  | cons e es ih =>
      intro fresh h
      unfold evictContextResourceBodies at h
      rcases List.mem_cons.mp h with h | h
      · refine ⟨e, List.mem_cons_self, ?_⟩
        split at h
        · right
          rw [h]
          exact ⟨rfl, le_rfl, by simp only [List.length_cons]; omega⟩
        · exact Or.inl h
      · obtain ⟨x, hx, heq | ⟨hmsg, hlo, hhi⟩⟩ := ih h
        · exact ⟨x, List.mem_cons_of_mem _ hx, Or.inl heq⟩
        · refine ⟨x, List.mem_cons_of_mem _ hx, Or.inr ⟨hmsg, by omega, ?_⟩⟩
          rw [List.length_cons]
          omega

/-- What the messages of a rebuilt history come from, and their numbers. -/
theorem rebuilt_mem {fresh b n : ℕ} {summary : String} {messages : List Entry} {e' : Entry}
    (h : e' ∈ rebuilt fresh b n summary messages) :
    e' ∈ messages ∨
      e'.ref < fresh + (rebuilt fresh b n summary messages).length ∧
        (e'.message = summaryMessage summary b ∨ e'.message = compactionNotice b ∨
          ∃ e ∈ messages, e'.message = evicted e.message) := by
  set oldTail := (messages.take (min n messages.length)).drop b with htail
  have hlen : (rebuilt fresh b n summary messages).length =
      oldTail.length + (messages.drop (min n messages.length)).length + 2 := by
    simp only [rebuilt, List.length_append, List.length_cons, List.length_nil,
      evictContextResourceBodies_length, ← htail]
  rw [hlen]
  simp only [rebuilt, ← htail, List.cons_append, List.mem_cons, List.mem_append,
    List.not_mem_nil, or_false] at h
  rcases h with rfl | (h | h) | rfl
  · exact Or.inr ⟨by dsimp only; omega, Or.inl rfl⟩
  · obtain ⟨e, he, rfl | ⟨hmsg, hlo, hhi⟩⟩ := evict_mem h
    · exact Or.inl (List.mem_of_mem_take (List.mem_of_mem_drop he))
    · refine Or.inr ⟨by omega, Or.inr (Or.inr ⟨e, ?_, hmsg⟩)⟩
      exact List.mem_of_mem_take (List.mem_of_mem_drop he)
  · exact Or.inl (List.mem_of_mem_drop h)
  · exact Or.inr ⟨by dsimp only; omega, Or.inr (Or.inl rfl)⟩

theorem amendLast_mem {text : String} {e' : Entry}
    (h : e' ∈ amendLast text es) :
    ∃ e ∈ es, e' = e ∨
      e' = { e with message := { e.message with content := e.message.content ++ text } } := by
  induction es with
  | nil => exact absurd h List.not_mem_nil
  | cons e es ih =>
      cases es with
      | nil => exact ⟨e, List.mem_cons_self, Or.inr (List.mem_singleton.mp h)⟩
      | cons x es =>
          rcases List.mem_cons.mp h with rfl | h
          · exact ⟨e', List.mem_cons_self, Or.inl rfl⟩
          · obtain ⟨y, hy, heq⟩ := ih h
            exact ⟨y, List.mem_cons_of_mem _ hy, heq⟩

theorem remind_mem {reminder : Option String} {e' : Entry}
    (h : e' ∈ remind reminder es) :
    ∃ e ∈ es, e' = e ∨ ∃ text,
      e' = { e with message := { e.message with content := e.message.content ++ text } } := by
  cases reminder with
  | none => exact ⟨e', h, Or.inl rfl⟩
  | some text =>
      obtain ⟨e, he, heq | heq⟩ := amendLast_mem h
      · exact ⟨e, he, Or.inl heq⟩
      · exact ⟨e, he, Or.inr ⟨_, heq⟩⟩

/-- The messages of a refreshed history: old ones, and memories with new numbers. -/
theorem refresh_mem {profile : PersonIdentity → String} {e' : Entry} :
    ∀ {fresh : ℕ} {injected : List String},
      e' ∈ refreshPersonMemory profile fresh injected es →
      e' ∈ es ∨ e'.ref < fresh + (refreshPersonMemory profile fresh injected es).length ∧
        ∃ e ∈ es, ∃ p : PersonContext, e.message.personContext = some p ∧
          e'.message = onChannel (personMemoryMessage profile ⟨p.authorId, p.author⟩)
            internalChannel := by
  induction es with
  | nil => exact fun h => absurd h List.not_mem_nil
  | cons e es ih =>
      intro fresh injected h
      have hlift : ∀ {fresh' injected' n}, fresh' +
          (refreshPersonMemory profile fresh' injected' es).length ≤ n →
          e' ∈ refreshPersonMemory profile fresh' injected' es →
          e' ∈ e :: es ∨ e'.ref < n ∧ ∃ x ∈ e :: es, ∃ p : PersonContext,
            x.message.personContext = some p ∧ e'.message =
              onChannel (personMemoryMessage profile ⟨p.authorId, p.author⟩) internalChannel := by
        intro fresh' injected' n hn hmem
        rcases ih hmem with hold | ⟨hlt, x, hx, p, hp, hmsg⟩
        · exact Or.inl (List.mem_cons_of_mem _ hold)
        · exact Or.inr ⟨hlt.trans_le hn, x, List.mem_cons_of_mem _ hx, p, hp, hmsg⟩
      unfold refreshPersonMemory at h ⊢
      split at h
      · exact hlift le_rfl h
      · rename_i authorId author hperson
        split at h
        · rename_i hknown
          rw [if_pos hknown]
          rcases List.mem_cons.mp h with rfl | h
          · exact Or.inl List.mem_cons_self
          · exact hlift (by rw [List.length_cons]; omega) h
        · rename_i hknown
          rw [if_neg hknown]
          rcases List.mem_cons.mp h with rfl | h
          · refine Or.inr ⟨by simp, e, List.mem_cons_self, _, hperson, rfl⟩
          · rcases List.mem_cons.mp h with rfl | h
            · exact Or.inl List.mem_cons_self
            · exact hlift (by simp only [List.length_cons]; omega) h
      · rcases List.mem_cons.mp h with rfl | h
        · exact Or.inl List.mem_cons_self
        · exact hlift (by rw [List.length_cons]; omega) h

theorem mem_refresh {profile : PersonIdentity → String} {e : Entry}
    (he : e ∈ es) (hperson : e.message.personContext = none) :
    ∀ {fresh : ℕ} {injected : List String}, e ∈ refreshPersonMemory profile fresh injected es := by
  induction es with
  | nil => exact absurd he List.not_mem_nil
  | cons x es ih =>
      intro fresh injected
      unfold refreshPersonMemory
      rcases List.mem_cons.mp he with rfl | he
      · rw [hperson]
        exact List.mem_cons_self
      · split
        · exact ih he
        · split
          · exact List.mem_cons_of_mem _ (ih he)
          · exact List.mem_cons_of_mem _ (List.mem_cons_of_mem _ (ih he))
        · exact List.mem_cons_of_mem _ (ih he)

@[simp] theorem objects_message (fresh : ℕ) (ms : List ChatMessage) :
    (objects fresh ms).map Entry.message = ms := by
  induction ms generalizing fresh with
  | nil => rfl
  | cons m ms ih => rw [objects, List.map_cons, ih]

theorem objects_ref {fresh : ℕ} {ms : List ChatMessage} {e : Entry} (h : e ∈ objects fresh ms) :
    e.ref < fresh + ms.length := by
  induction ms generalizing fresh with
  | nil => exact absurd h List.not_mem_nil
  | cons m ms ih =>
      rw [List.length_cons]
      rcases List.mem_cons.mp h with rfl | h
      · dsimp only
        omega
      · have hlt := ih h
        omega

/-! ## Steps -/

/-- `A` of a living process, `D` of the store of a dead one. -/
def Holds (A : Store → Memory → Prop) (D : Store → Prop) (s : State) : Prop :=
  match s.memory with
  | some mem => A s.store mem
  | none => D s.store

variable {A : Store → Memory → Prop} {D : Store → Prop} {deps : Deps} {s : State}

theorem holds_act {a : Action} (hs : Holds A D s)
    (h : ∀ mem, s.memory = some mem → A s.store mem →
      wp (a.program deps) (fun _ => A) E C s.store mem) :
    Holds A D (step deps s (.act a)) := by
  unfold step
  cases hmem : s.memory with
  | none => exact hs
  | some mem =>
      unfold Holds at hs
      rw [hmem] at hs
      obtain ⟨_, d', mem', heq, hA⟩ := completed_of_wp (h mem hmem hs)
      simp only [heq]
      exact hA

theorem holds_actDies {a : Action} {writes : ℕ} (hs : Holds A D s)
    (h : ∀ mem, s.memory = some mem → A s.store mem →
      wp (a.program deps) (fun _ d' _ => D d') E (fun d' _ => D d') s.store mem) :
    Holds A D (step deps s (.actDies a writes)) := by
  unfold step
  cases hmem : s.memory with
  | none => exact hs
  | some mem =>
      unfold Holds at hs
      rw [hmem] at hs
      exact diesAfter_of_wp (h mem hmem hs) (fun _ _ _ hd => hd) (fun _ _ hd => hd) writes

theorem holds_boot {b : Boot} (hs : Holds A D s)
    (h : s.memory = none → D s.store →
      wp (prime deps) (fun _ => A) E C s.store (Memory.start b)) :
    Holds A D (step deps s (.boot b)) := by
  unfold step
  cases hmem : s.memory with
  | some mem => exact hs
  | none =>
      unfold Holds at hs
      rw [hmem] at hs
      obtain ⟨_, d', mem', heq, hA⟩ := completed_of_wp (h hmem hs)
      simp only [heq]
      exact hA

theorem holds_bootDies {b : Boot} {writes : ℕ} (hs : Holds A D s)
    (h : s.memory = none → D s.store →
      wp (prime deps) (fun _ d' _ => D d') E (fun d' _ => D d') s.store (Memory.start b)) :
    Holds A D (step deps s (.bootDies b writes)) := by
  unfold step
  cases hmem : s.memory with
  | some mem => exact hs
  | none =>
      unfold Holds at hs
      rw [hmem] at hs
      exact diesAfter_of_wp (h hmem hs) (fun _ _ _ hd => hd) (fun _ _ hd => hd) writes

/-! ## A plain environment -/

/-- Attributions are accepted as they are, a body is its own version, and no arguments
hold names. -/
def plainDeps : Deps where
  readers := ⟨some, fun b _ => some b, some⟩
  compactor := plainConfig 1000
  versionOf := id
  codeOf _ := ""
  namesOf _ := .ok none

def plainBoot : Boot := ⟨[], fun _ => true, fun _ => ""⟩

/-- A run that succeeds with nothing to show. -/
def plainOutcome : RunOutcome :=
  { ok := true, detached := false, bgId := none, savedAs := none, preview := none, error := none,
    note := none, logs := none, sends := [], attribution := "", metadata := "", wake := none,
    interrupt := none }

end Elpis.Resident
