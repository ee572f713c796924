import Elpis.Resident.Rules

/-!
# The transcript as a mirror of the history

A restart reads the transcript and goes on from there, so reading it should give the
history the process has, images apart. Pushing and rewriting keep it so, for messages that
come back whole. Three things do not: an input that is taken back after a failed
completion is taken back in memory only, a wake that ends is written into a message that is
on disk already, and a message may hold a field its parser drops. `transcript_mirrors`
says that nothing else does.
-/

namespace Elpis.Resident

open Elpis.Llm Elpis.Lib Crash

/-! ## The mirror -/

/-- Reading the transcript gives the history, images apart. -/
def Replays (deps : Deps) (s : State) : Prop :=
  ∀ mem, s.memory = some mem →
    s.store.newest.map (parseChatMessage deps.readers mem.trusts) =
      (mem.messages.map Entry.message).map withoutImages

/-- The mirror, with what a rewriting of the transcript needs: each message comes back
whole. -/
structure Mirror (r : Readers) (trusts : Trust) (newest : List ChatMessage) (active : Bool)
    (messages : List Entry) : Prop where
  started : active = false → messages = []
  same : newest.map (parseChatMessage r trusts) = (messages.map Entry.message).map withoutImages
  legible : ∀ e ∈ messages, Legible r trusts e.message

/-- A line that is read back whole once it was read, under whatever identity. -/
def Settled (r : Readers) (m : ChatMessage) : Prop :=
  ∀ trusts, Legible r trusts (parseChatMessage r trusts m)

variable {r : Readers} {trusts : Trust} {newest : List ChatMessage} {active : Bool}
  {messages : List Entry} {d : Store} {mem : Memory} {deps : Deps}

theorem settled_of_parse {m m' : ChatMessage} (h : Legible r trusts m')
    (heq : parseChatMessage r trusts m = withoutImages m') : Settled r m := by
  have hparsed : Legible r trusts (parseChatMessage r trusts m) := by
    rw [heq]
    exact legible_withoutImages.mpr h
  exact hparsed.retrust

theorem Mirror.settled (h : Mirror r trusts newest active messages) :
    ∀ m ∈ newest, Settled r m := by
  intro m hm
  have hmem : parseChatMessage r trusts m ∈ (messages.map Entry.message).map withoutImages := by
    rw [← h.same]
    exact List.mem_map_of_mem hm
  rw [List.map_map] at hmem
  obtain ⟨e, he, heq⟩ := List.mem_map.mp hmem
  exact settled_of_parse (h.legible e he) heq.symm

variable {m : ChatMessage}

theorem Mirror.push (h : Mirror r trusts newest active messages)
    (hm : Storable r trusts m) (ref : ℕ) :
    Mirror r trusts (if active then newest ++ [stored m] else [stored m]) true
      (messages ++ [⟨ref, m⟩]) where
  started := nofun
  same := by
    have hline := parse_stored_iff.mpr hm
    split
    · rw [List.map_append, List.map_append, List.map_append, h.same]
      simp only [List.map_cons, List.map_nil, hline]
    · rename_i hactive
      rw [h.started (by simpa using hactive)]
      simp only [List.map_cons, List.map_nil, List.nil_append, hline]
  legible := by
    intro e he
    rcases List.mem_append.mp he with he | he
    · exact h.legible e he
    · rw [List.mem_singleton.mp he]
      exact hm.legible

theorem Mirror.edit (h : Mirror r trusts newest active messages) {f : ChatMessage → ChatMessage}
    (hf : ∀ m, withoutImages (f m) = withoutImages m) :
    Mirror r trusts newest active (messages.map (fun e => { e with message := f e.message })) where
  started hactive := by
    rw [h.started hactive]
    rfl
  same := by
    rw [h.same]
    simp only [List.map_map]
    exact List.map_congr_left (fun e _ => (hf e.message).symm)
  legible := by
    intro e' he'
    obtain ⟨e, he, rfl⟩ := List.mem_map.mp he'
    rw [← legible_withoutImages, hf, legible_withoutImages]
    exact h.legible e he

/-- A history of whole messages, as it is written at once. -/
theorem mirror_lines (h : ∀ e ∈ messages, Legible r trusts e.message) :
    Mirror r trusts (lines messages) (decide (messages ≠ [])) messages where
  started hactive := by simpa using hactive
  same := by
    simp only [lines, List.map_map]
    refine List.map_congr_left (fun e he => ?_)
    show parseChatMessage r trusts (persistable e.message) = withoutImages e.message
    rw [parse_persistable]
    exact parseChatMessage_eq_iff.mpr (h e he)
  legible := h

/-! ## Along the programs -/

/-- The mirror of a living process, in a store whose lines are settled. -/
abbrev Mirrors (deps : Deps) (d : Store) (mem : Memory) : Prop :=
  Mirror deps.readers mem.trusts d.newest mem.active mem.messages

abbrev AllSettled (deps : Deps) (d : Store) : Prop := ∀ m ∈ d.newest, Settled deps.readers m

abbrev KeepsMirror (deps : Deps) (x : Agent Unit) (d : Store) (mem : Memory) : Prop :=
  wp x (fun _ => Mirrors deps) (fun _ _ _ => False) (fun d' _ => AllSettled deps d') d mem

theorem keepsMirror_push (h : Mirrors deps d mem) {channel : String}
    (hm : Storable deps.readers mem.trusts (onChannel m channel)) :
    wp (pushMessage m channel)
      (fun _ d' mem' => Mirrors deps d' mem' ∧ mem'.trusts = mem.trusts)
      (fun _ _ _ => False) (fun d' _ => AllSettled deps d') d mem :=
  wp_pushMessage h.settled ⟨h.push hm _, rfl⟩

theorem keepsMirror_rewrite (hd : AllSettled deps d)
    (h : ∀ e ∈ mem.messages, Legible deps.readers mem.trusts e.message)
    (hempty : mem.messages = [] → d.newest = []) : KeepsMirror deps rewriteTranscript d mem := by
  have hlines := mirror_lines h
  apply wp_rewriteTranscript
  · rintro d' _ - (hold | ⟨n, hnew⟩)
    · intro m hm
      exact hd m (hold ▸ hm)
    · intro m hm
      rw [hnew] at hm
      exact hlines.settled m (List.mem_of_mem_take hm)
  · by_cases hnil : mem.messages = []
    · refine ⟨fun _ => hnil, ?_, h⟩
      simp only [hnil, if_true, hempty hnil]
      rfl
    · have hnewest : (if mem.messages = [] then d.newest else lines mem.messages) =
          lines mem.messages := if_neg hnil
      unfold Mirrors
      dsimp only
      rw [hnewest]
      exact hlines

/-! ## What the loop makes of whole messages -/

theorem Legible.storable (h : Legible r trusts m) (hplain : m.ephemeral = false) :
    Storable r trusts m := by
  unfold Storable
  rw [hplain]
  exact h

theorem Legible.withContent (h : Legible r trusts m) (content : String) :
    Legible r trusts { m with content } :=
  ⟨h.reasoning, h.provenance, h.payload, h.toolBatch, h.person, h.lineage, h.run, h.wake,
    h.resources, h.sends⟩

theorem Legible.evicted (h : Legible r trusts m) :
    Legible r trusts (evicted m) :=
  ⟨h.reasoning, h.provenance, h.payload, h.toolBatch, h.person, h.lineage, h.run, h.wake,
    fun hne => absurd rfl hne, h.sends⟩

theorem Legible.withoutThinking (h : Legible r trusts m) :
    Legible r trusts (withoutThinking m) :=
  ⟨h.reasoning, h.provenance, fun hne => by simp [Resident.withoutThinking] at hne, h.toolBatch,
    h.person, h.lineage, h.run, h.wake, h.resources, h.sends⟩

variable {profile : PersonIdentity → String}

/-- The memory of a person whose marker is within its bounds. -/
theorem legible_personMemory {p : PersonContext}
    (h : personBounded p = true) :
    Legible r trusts (onChannel (personMemoryMessage profile ⟨p.authorId, p.author⟩)
      internalChannel) := by
  constructor
  case person =>
    intro q hq
    obtain rfl := Option.some.inj hq
    exact ⟨rfl, h⟩
  all_goals simp [onChannel, personMemoryMessage]

theorem withoutImages_stripFrame (m : ChatMessage) :
    withoutImages (stripFrame m) = withoutImages m := by
  unfold stripFrame
  split
  · rfl
  · rfl

/-- The rebuilt history of a compaction, with its reminder and the memories made anew. -/
theorem legible_compacted {fresh b n fresh' : ℕ} {summary : String} {reminder : Option String} {injected : List String}
    (h : ∀ e ∈ messages, Legible r trusts e.message) :
    ∀ e ∈ refreshPersonMemory profile fresh' injected
      (remind reminder (rebuilt fresh b n summary messages)), Legible r trusts e.message := by
  have hrebuilt : ∀ e ∈ rebuilt fresh b n summary messages, Legible r trusts e.message := by
    intro e he
    rcases rebuilt_mem he with hold | ⟨-, hmsg | hmsg | ⟨x, hx, hmsg⟩⟩
    · exact h e hold
    · rw [hmsg]
      exact legible_text r trusts _ _ _ none
    · rw [hmsg]
      exact legible_text r trusts _ _ _ none
    · rw [hmsg]
      exact (h x hx).evicted
  have hremind : ∀ e ∈ remind reminder (rebuilt fresh b n summary messages),
      Legible r trusts e.message := by
    intro e' he'
    obtain ⟨e, he, rfl | ⟨text, rfl⟩⟩ := remind_mem he'
    · exact hrebuilt e' he
    · exact (hrebuilt e he).withContent _
  intro e' he'
  rcases refresh_mem he' with hold | ⟨-, e, he, p, hp, hmsg⟩
  · exact hremind e' hold
  · rw [hmsg]
    exact legible_personMemory ((hremind e he).person p hp).2

theorem compacted_ne_nil {fresh b n fresh' : ℕ} {summary : String} {reminder : Option String} {injected : List String} :
    refreshPersonMemory profile fresh' injected
      (remind reminder (rebuilt fresh b n summary messages)) ≠ [] := by
  have hfirst : ∃ e rest, remind reminder (rebuilt fresh b n summary messages) = e :: rest ∧
      e.message.personContext = none := by
    cases reminder with
    | none => exact ⟨_, _, rfl, rfl⟩
    | some text =>
        -- the reminder stands on the notice, behind the summary
        obtain ⟨first, second, rest, heq, hperson⟩ : ∃ first second rest,
            rebuilt fresh b n summary messages = first :: second :: rest ∧
              first.message.personContext = none := by
          obtain ⟨second, rest, hrest⟩ := List.exists_cons_of_ne_nil
            (List.append_ne_nil_of_right_ne_nil
              (evictContextResourceBodies (fresh + 1)
                ((messages.take (min n messages.length)).drop b) ++
                  messages.drop (min n messages.length))
              (List.cons_ne_nil (⟨fresh + 1 + ((messages.take (min n messages.length)).drop
                b).length, compactionNotice b⟩ : Entry) []))
          exact ⟨⟨fresh, summaryMessage summary b⟩, second, rest, congrArg (List.cons _) hrest, rfl⟩
        rw [heq]
        exact ⟨first, _, rfl, hperson⟩
  obtain ⟨e, rest, heq, hperson⟩ := hfirst
  have hmem : e ∈ refreshPersonMemory profile fresh' injected
      (remind reminder (rebuilt fresh b n summary messages)) :=
    mem_refresh (heq ▸ List.mem_cons_self) hperson
  exact List.ne_nil_of_mem hmem

/-! ## The condition -/

/-- The message whose wake is pending stands in the history. -/
def Memory.wakeStands (mem : Memory) : Prop := ∃ e ∈ mem.messages, mem.pendingWake = some e.ref

/-- A failure takes the last message back, and it is the user's. -/
def Memory.takesBack (failure : Failure) (mem : Memory) : Prop :=
  (failure = .leaked ∨ failure = .internal ∧ mem.consecutive400 = 0) ∧
    mem.messages.getLast?.map (fun e => e.message.role) = some .user

/-- The message an action pushes comes back whole. -/
def Action.Whole (deps : Deps) (d : Store) (mem : Memory) : Action → Prop
  | .drain m =>
      mem.calls = [] → Storable deps.readers mem.trusts (onChannel (userMessage m) m.channel)
  | .receipt _ sends => mem.calls = [] → ∀ s ∈ sends, SendLegible s
  | .reply r channel =>
      mem.calls = [] →
        Storable deps.readers mem.trusts (onChannel (assistantMessage r) channel)
  | .toolSettled o redact channel =>
      ∀ call out, mem.upcoming deps d o redact = some (call, out) →
        Storable deps.readers mem.trusts (onChannel (toolMessage call out) channel)
  | _ => True

/-- An action changes no message of the history in memory only. -/
def Action.Written (deps : Deps) (d : Store) (mem : Memory) : Action → Prop
  | .failed failure => mem.calls = [] → ¬mem.takesBack failure
  | .endWake _ => ¬mem.wakeStands
  | .toolSettled o redact _ =>
      ∀ call out, mem.upcoming deps d o redact = some (call, out) → out.arms = true →
        ¬mem.wakeStands
  | _ => True

/-- **A step that keeps the mirror.** An action pushes only what comes back whole, and
changes nothing that is on disk already; of an action that dies only the lines count. -/
def Faithful (deps : Deps) (s : State) : Event → Prop
  | .act a => ∀ mem, s.memory = some mem → a.Whole deps s.store mem ∧ a.Written deps s.store mem
  | .actDies a _ => ∀ mem, s.memory = some mem → a.Whole deps s.store mem
  | _ => True

/-! ## Along the actions -/

theorem Mirrors.of_same (h : Mirrors deps d mem) {mem' : Memory} (htrusts : mem'.trusts = mem.trusts)
    (hactive : mem'.active = mem.active) (hmessages : mem'.messages = mem.messages) :
    Mirrors deps d mem' := by
  unfold Mirrors
  rw [htrusts, hactive, hmessages]
  exact h

theorem keepsMirror_drain (h : Mirrors deps d mem) {m : Inbound}
    (hm : Storable deps.readers mem.trusts (onChannel (userMessage m) m.channel)) :
    KeepsMirror deps (drain m) d mem := by
  have hlast : ∀ d' mem', Mirrors deps d' mem' ∧ mem'.trusts = mem.trusts →
      KeepsMirror deps (pushMessage (userMessage m) m.channel) d' mem' := by
    rintro d' mem' ⟨h', htrusts⟩
    exact wp_mono (keepsMirror_push h' (htrusts ▸ hm)) (fun _ _ _ h'' => h''.1)
      (fun _ _ _ he => he) (fun _ _ hc => hc)
  unfold drain
  apply wp_bind
  apply wp_onSome
  · intro person hperson
    have hbounded : personBounded ⟨.inbound, person.authorId, person.author⟩ = true := by
      refine (hm.legible.person _ ?_).2
      show m.person.map _ = _
      rw [hperson]
      rfl
    unfold ensurePersonMemory
    apply wp_bind
    apply wp_read
    apply wp_bind
    apply wp_read
    apply wp_when
    · intro _
      apply wp_bind
      apply wp_modify
      have hmemory : Legible deps.readers mem.trusts
          (onChannel (personMemoryMessage mem.profile person) internalChannel) :=
        legible_personMemory (p := ⟨.inbound, person.authorId, person.author⟩) hbounded
      have hnoted : Mirrors deps d { mem with
          injectedPeople := mem.injectedPeople ++ [person.authorId] } := h.of_same rfl rfl rfl
      exact wp_mono (keepsMirror_push hnoted (hmemory.storable rfl)) (fun _ => hlast)
        (fun _ _ _ he => he) (fun _ _ hc => hc)
    · exact fun _ => hlast d mem ⟨h, rfl⟩
  · exact fun _ => hlast d mem ⟨h, rfl⟩

/-- A message of the harness. -/
theorem keepsMirror_tell (h : Mirrors deps d mem) {content channel : String}
    {sends : List RecordedSend} (hsends : ∀ s ∈ sends, SendLegible s) :
    KeepsMirror deps (pushMessage { role := .user, content, sends } channel) d mem := by
  have htext := legible_text deps.readers mem.trusts .user content (some channel) none
  have hm : Legible deps.readers mem.trusts
      (onChannel { role := .user, content, sends } channel) :=
    ⟨htext.reasoning, htext.provenance, htext.payload, htext.toolBatch, htext.person,
      htext.lineage, htext.run, htext.wake, htext.resources, hsends⟩
  exact wp_mono (keepsMirror_push h (hm.storable rfl)) (fun _ _ _ h' => h'.1) (fun _ _ _ he => he)
    (fun _ _ hc => hc)

theorem keepsMirror_reply (h : Mirrors deps d mem) {r : Response} {channel : String}
    (hm : Storable deps.readers mem.trusts (onChannel (assistantMessage r) channel)) :
    KeepsMirror deps (reply r channel) d mem := by
  have hstripped : Mirrors deps d { mem.edit stripFrame with consecutive400 := 0 } :=
    h.edit withoutImages_stripFrame
  unfold reply
  apply wp_bind
  apply wp_modify
  apply wp_bind
  refine wp_mono (keepsMirror_push hstripped hm) ?_ (fun _ _ _ he => he) (fun _ _ hc => hc)
  rintro _ d' mem' ⟨h', -⟩
  exact wp_modify (h'.of_same rfl rfl rfl)

theorem mirrors_failed (h : Mirrors deps d mem) {failure : Failure} (hkept : ¬mem.takesBack failure) :
    Mirrors deps d (failedCompletion failure mem) := by
  have hpop : (failure = .leaked ∨ failure = .internal ∧ mem.consecutive400 = 0) →
      mem.popUser = mem := by
    intro htakes
    exact if_neg (fun hlast => hkept ⟨htakes, hlast⟩)
  unfold failedCompletion
  cases failure with
  | policyDenial | usageLimit | transient => exact h.of_same rfl rfl rfl
  | leaked =>
      dsimp only
      rw [hpop (Or.inl rfl)]
      exact h
  | internal =>
      dsimp only
      split
      · rename_i hfirst
        rw [hpop (Or.inr ⟨rfl, by omega⟩)]
        exact h.of_same rfl rfl rfl
      · exact h.of_same rfl rfl rfl

/-- A wake whose message is gone ends without a trace. -/
theorem endWake_messages (hgone : ¬mem.wakeStands) (how : WakeEnd) :
    (mem.endWake how).messages = mem.messages ∧ (mem.endWake how).trusts = mem.trusts ∧
      (mem.endWake how).active = mem.active := by
  unfold Memory.endWake
  cases hpending : mem.pendingWake with
  | none => exact ⟨rfl, rfl, rfl⟩
  | some ref =>
      refine ⟨?_, rfl, rfl⟩
      dsimp only
      conv_rhs => rw [← List.map_id mem.messages]
      refine List.map_congr_left (fun e he => if_neg ?_)
      rintro rfl
      exact hgone ⟨e, he, hpending⟩

theorem mirrors_endWake (h : Mirrors deps d mem) (hgone : ¬mem.wakeStands) (how : WakeEnd) :
    Mirrors deps d (mem.endWake how) := by
  obtain ⟨hmessages, htrusts, hactive⟩ := endWake_messages hgone how
  exact h.of_same htrusts hactive hmessages

/-- The memory in which the result of a call is pushed. -/
theorem mirrors_supersede (h : Mirrors deps d mem) {out : ToolOutput}
    (resources : ContextResources) (hgone : out.arms = true → ¬mem.wakeStands) :
    Mirrors deps d ({ mem with resources }.supersede out) ∧
      ({ mem with resources }.supersede out).trusts = mem.trusts := by
  have hsame : Mirrors deps d { mem with resources } := h.of_same rfl rfl rfl
  unfold Memory.supersede
  split
  · rename_i harms
    have hgone' : ¬Memory.wakeStands { mem with resources } := hgone harms
    exact ⟨mirrors_endWake hsame hgone' _, (endWake_messages hgone' _).2.1⟩
  · exact ⟨hsame, rfl⟩

theorem keepsMirror_dispatch (h : Mirrors deps d mem) {o : RunOutcome} {redact : String → String}
    {channel : String}
    (hwhole : (Action.toolSettled o redact channel).Whole deps d mem)
    (hwritten : (Action.toolSettled o redact channel).Written deps d mem) :
    KeepsMirror deps (dispatchTool deps o redact channel) d mem := by
  unfold dispatchTool
  apply wp_bind
  apply wp_read
  cases hcalls : mem.calls with
  | nil => exact wp_pure h
  | cons call rest =>
      apply wp_bind
      apply wp_read
      apply wp_ite
      · intro _
        exact wp_modify (h.of_same rfl rfl rfl)
      · intro hfresh
        have heq : mem.callEpoch = mem.epoch := by simpa using hfresh
        have hup := upcoming_eq deps d o redact hcalls heq
        have hm := hwhole call _ hup
        have hgone := hwritten call _ hup
        apply wp_bind
        apply wp_read
        generalize handleTool deps d.files redact mem call (decide (rest = [])) o = handled at *
        apply wp_bind
        apply wp_modify
        obtain ⟨hready, htrusts⟩ := mirrors_supersede h handled.2 hgone
        generalize Memory.supersede handled.1 { mem with resources := handled.2 } = ready at *
        rw [← htrusts] at hm
        apply wp_bind
        apply wp_read
        apply wp_bind
        refine wp_mono (keepsMirror_push hready hm) ?_ (fun _ _ _ he => he) (fun _ _ hc => hc)
        rintro _ d' mem' ⟨h', -⟩
        exact wp_modify (h'.of_same rfl rfl rfl)

theorem Mirror.newest_nil (h : Mirror r trusts newest active messages) (hnil : messages = []) :
    newest = [] := by
  have hsame := h.same
  rw [hnil] at hsame
  simpa using hsame

theorem keepsMirror_clearThinking (h : Mirrors deps d mem) :
    KeepsMirror deps clearThinking d mem := by
  unfold clearThinking
  apply wp_bind
  apply wp_modify
  refine keepsMirror_rewrite h.settled ?_ ?_
  · intro e' he'
    obtain ⟨e, he, rfl⟩ := List.mem_map.mp he'
    exact (h.legible e he).withoutThinking
  · intro hnil
    exact h.newest_nil (List.map_eq_nil_iff.mp hnil)

theorem keepsMirror_clearContext (h : Mirrors deps d mem) (profile : PersonIdentity → String) :
    KeepsMirror deps (clearContext profile) d mem := by
  unfold clearContext
  apply wp_bind
  apply wp_rotateToSentinel
  · exact h.settled
  · apply wp_modify
    exact ⟨fun _ => rfl, rfl, fun _ he => absurd he List.not_mem_nil⟩

theorem keepsMirror_applyCheckpoint (h : Mirrors deps d mem) (profile : PersonIdentity → String) :
    KeepsMirror deps (applyCheckpoint deps profile) d mem := by
  unfold applyCheckpoint
  apply wp_bind
  apply wp_read
  apply wp_when
  · intro _
    apply wp_bind
    apply wp_read
    rcases applyCompaction_cases deps.compactor mem.nextRef mem.messages mem.compactor with
      ⟨c', heq, -⟩ | ⟨summary, -, -, -, heq⟩
    · rw [heq]
      exact wp_modify (h.of_same rfl rfl rfl)
    · rw [heq]
      apply wp_bind
      apply wp_read
      apply wp_bind
      apply wp_modify
      refine keepsMirror_rewrite h.settled ?_ ?_
      · exact legible_compacted h.legible
      · exact fun hnil => absurd hnil compacted_ne_nil
  · exact fun _ => h

theorem keepsMirror_action (h : Mirrors deps d mem) {a : Action} (hwhole : a.Whole deps d mem)
    (hwritten : a.Written deps d mem) : KeepsMirror deps (a.program deps) d mem := by
  cases a with
  | drain m => exact wp_betweenTurns (fun hcalls => keepsMirror_drain h (hwhole hcalls)) h
  | nudge content =>
      exact wp_betweenTurns
        (fun _ => keepsMirror_tell h (fun _ hs => absurd hs List.not_mem_nil)) h
  | receipt content sends =>
      exact wp_betweenTurns (fun hcalls => keepsMirror_tell h (hwhole hcalls)) h
  | reply r channel => exact wp_betweenTurns (fun hcalls => keepsMirror_reply h (hwhole hcalls)) h
  | failed failure =>
      exact wp_betweenTurns (fun hcalls => wp_modify (mirrors_failed h (hwritten hcalls))) h
  | toolSettled o redact channel => exact keepsMirror_dispatch h hwhole hwritten
  | accessFile target agents =>
      apply wp_bind
      apply wp_read
      apply wp_modify
      unfold accessFile
      split
      · exact h.of_same rfl rfl rfl
      · exact h.of_same rfl rfl rfl
  | endWake how => exact wp_modify (mirrors_endWake h hwritten how)
  | startCompaction ratio => exact wp_betweenTurns (fun _ => wp_modify (h.of_same rfl rfl rfl)) h
  | settleSummary run outcome => exact wp_modify (h.of_same rfl rfl rfl)
  | applyCompaction profile =>
      exact wp_betweenTurns (fun _ => keepsMirror_applyCheckpoint h profile) h
  | clearThinking => exact keepsMirror_clearThinking h
  | clearContext profile => exact keepsMirror_clearContext h profile

/-! ## Dying, and starting again -/

theorem settled_line (hd : AllSettled deps d) (hm : Storable deps.readers trusts m)
    (b : Bool) : AllSettled deps (d.line b (stored m)) := by
  have hline : Settled deps.readers (stored m) :=
    settled_of_parse hm.legible (parse_stored_iff.mpr hm)
  intro m' hm'
  unfold Store.line at hm'
  dsimp only at hm'
  split at hm'
  · rcases List.mem_append.mp hm' with hold | hnew
    · exact hd m' hold
    · rw [List.mem_singleton.mp hnew]
      exact hline
  · rw [List.mem_singleton.mp hm']
    exact hline

/-- The lines an action leaves, whatever it does in memory only. -/
theorem settles_dispatch (h : Mirrors deps d mem) {o : RunOutcome} {redact : String → String}
    {channel : String} (hwhole : (Action.toolSettled o redact channel).Whole deps d mem) :
    wp (dispatchTool deps o redact channel) (fun _ d' _ => AllSettled deps d')
      (fun _ _ _ => False) (fun d' _ => AllSettled deps d') d mem := by
  unfold dispatchTool
  apply wp_bind
  apply wp_read
  cases hcalls : mem.calls with
  | nil => exact wp_pure h.settled
  | cons call rest =>
      apply wp_bind
      apply wp_read
      apply wp_ite
      · intro _
        exact wp_modify h.settled
      · intro hfresh
        have heq : mem.callEpoch = mem.epoch := by simpa using hfresh
        have hup := upcoming_eq deps d o redact hcalls heq
        have hm := hwhole call _ hup
        apply wp_bind
        apply wp_read
        apply wp_bind
        apply wp_modify
        apply wp_bind
        apply wp_read
        apply wp_bind
        apply wp_pushMessage
        · exact h.settled
        · exact wp_modify (settled_line h.settled hm _)

theorem settles_action (h : Mirrors deps d mem) {a : Action} (hwhole : a.Whole deps d mem) :
    wp (a.program deps) (fun _ d' _ => AllSettled deps d') (fun _ _ _ => False)
      (fun d' _ => AllSettled deps d') d mem := by
  have hkeeps : a.Written deps d mem → wp (a.program deps) (fun _ d' _ => AllSettled deps d')
      (fun _ _ _ => False) (fun d' _ => AllSettled deps d') d mem := by
    intro hwritten
    exact wp_mono (keepsMirror_action h hwhole hwritten) (fun _ _ _ h' => h'.settled)
      (fun _ _ _ he => he) (fun _ _ hc => hc)
  cases a with
  | failed failure => exact wp_betweenTurns (fun _ => wp_modify h.settled) h.settled
  | endWake how => exact wp_modify h.settled
  | toolSettled o redact channel => exact settles_dispatch h hwhole
  | drain | nudge | receipt | reply | accessFile | startCompaction | settleSummary
  | applyCompaction | clearThinking | clearContext => exact hkeeps trivial

theorem mirrors_primed (hd : AllSettled deps d) (b : Boot) :
    Mirrors deps d (Memory.primed deps d (Memory.start b)) := by
  unfold Memory.primed
  dsimp only
  by_cases hempty : d.newest = []
  · rw [if_pos (by rw [hempty]; rfl)]
    refine ⟨fun _ => rfl, ?_, fun _ he => absurd he List.not_mem_nil⟩
    rw [hempty]
    rfl
  · rw [if_neg (by simpa using hempty)]
    refine ⟨nofun, ?_, ?_⟩
    · dsimp only
      rw [objects_message, List.map_map]
      rfl
    · intro e he
      have hmem := List.mem_map_of_mem (f := Entry.message) he
      dsimp only at hmem
      rw [objects_message] at hmem
      obtain ⟨m, hm, heq⟩ := List.mem_map.mp hmem
      rw [← heq]
      exact hd m hm b.trusts

theorem keepsMirror_prime (hd : AllSettled deps d) (b : Boot) :
    KeepsMirror deps (prime deps) d (Memory.start b) := by
  have hprimed := mirrors_primed hd b
  unfold prime
  apply wp_bind
  apply wp_read
  apply wp_bind
  apply wp_modify
  generalize Memory.primed deps d (Memory.start b) = mem at hprimed
  unfold recoverInterruptedToolCall
  apply wp_bind
  apply wp_read
  cases mem.messages.getLast? with
  | none => exact wp_pure hprimed
  | some last =>
      apply wp_ite
      · exact fun _ => wp_pure hprimed
      · intro _
        refine wp_forEach (I := fun _ => Mirrors deps) ?_ _ hprimed
        intro call _ d' mem' h'
        apply wp_when
        · intro _
          have htext : Legible deps.readers mem'.trusts (onChannel (recoveredMessage deps call)
              (last.message.channel.getD internalChannel)) :=
            legible_text deps.readers mem'.trusts .tool _ _ (some call.id)
          exact wp_mono (keepsMirror_push h' (htext.storable rfl)) (fun _ _ _ h'' => h''.1)
            (fun _ _ _ he => he) (fun _ _ hc => hc)
        · exact fun _ => h'

/-! ## Runs -/

/-- The transcript mirrors the history of a living process; a dead one has left settled
lines. -/
abbrev Mirrored (deps : Deps) (s : State) : Prop := Holds (Mirrors deps) (AllSettled deps) s

theorem mirrored_step {s : State} (hs : Mirrored deps s) {e : Event} (he : Faithful deps s e) :
    Mirrored deps (step deps s e) := by
  cases e with
  | boot b => exact holds_boot hs (fun _ hd => keepsMirror_prime hd b)
  | bootDies b writes =>
      have hdies : ∀ d, AllSettled deps d → wp (prime deps) (fun _ d' _ => AllSettled deps d')
          (fun _ _ _ => False) (fun d' _ => AllSettled deps d') d (Memory.start b) := by
        intro d hd
        exact wp_mono (keepsMirror_prime hd b) (fun _ _ _ h' => h'.settled) (fun _ _ _ h' => h')
          (fun _ _ hc => hc)
      exact holds_bootDies hs (fun _ hd => hdies _ hd)
  | act a =>
      exact holds_act hs (fun mem hmem h => keepsMirror_action h (he mem hmem).1 (he mem hmem).2)
  | actDies a writes =>
      exact holds_actDies hs (fun mem hmem h => settles_action h (he mem hmem))
  | edit path content =>
      unfold Mirrored Holds at hs ⊢
      simp only [step]
      cases hmem : s.memory with
      | none =>
          rw [hmem] at hs
          exact hs
      | some mem =>
          rw [hmem] at hs
          exact hs

theorem Mirrored.replays {s : State} (hs : Mirrored deps s) : Replays deps s := by
  intro mem hmem
  unfold Mirrored Holds at hs
  rw [hmem] at hs
  exact hs.same

/-- **The transcript mirrors the history, over runs.** In every run of the resident, with
crashes and restarts anywhere, whose actions push what comes back whole, take no input
back, and end no wake whose message still stands, reading the transcript gives the history
of the process, images apart, in every state the run goes through. -/
theorem transcript_mirrors (deps : Deps) (files : Files) (events : List Event)
    (h : EachStep (step deps) (Faithful deps) (State.init files) events) :
    Throughout (step deps) (Replays deps) (State.init files) events :=
  throughout_of_eachStep (I := Mirrored deps) (fun _ hs => hs.replays)
    (fun _ _ hs he => mirrored_step hs he) events (fun _ hm => absurd hm List.not_mem_nil) h

/-- A greeting, its answer, and a clear. -/
def greeting : List Event :=
  [.boot plainBoot,
    .act (.drain ⟨"hello", [], [], [], none, false, "general"⟩),
    .act (.reply ⟨"hi", none, [], [], [], none, none, false⟩ "general"),
    .act .clearThinking]

theorem greeting_mirrors :
    EachStep (step plainDeps) (Faithful plainDeps) (State.init (fun _ => none)) greeting ∧
      Throughout (step plainDeps) (Replays plainDeps) (State.init (fun _ => none)) greeting := by
  have hfaithful : EachStep (step plainDeps) (Faithful plainDeps) (State.init (fun _ => none))
      greeting := by
    refine ⟨trivial, fun mem _ => ⟨fun _ => ?_, trivial⟩, fun mem _ => ⟨fun _ => ?_, trivial⟩,
      fun _ _ => ⟨trivial, trivial⟩, trivial⟩
    · exact (legible_text plainDeps.readers mem.trusts .user "hello" (some "general") none).storable
        rfl
    · exact (legible_text plainDeps.readers mem.trusts .assistant "hi" (some "general")
        none).storable rfl
  exact ⟨hfaithful, transcript_mirrors plainDeps _ _ hfaithful⟩

/-- The first completion fails, and the input is taken back in memory only. -/
def takenBack : List Event :=
  [.boot plainBoot, .act (.drain ⟨"hello", [], [], [], none, false, "general"⟩),
    .act (.failed .internal)]

/-- The transcript still holds the input. -/
theorem failed_completion_not_mirrored :
    ¬∀ (deps : Deps) (files : Files) (events : List Event),
      Throughout (step deps) (Replays deps) (State.init files) events := by
  intro h
  have hlast := (h plainDeps (fun _ => none) takenBack).last
  have hdiffer : (run (step plainDeps) (State.init (fun _ => none)) takenBack).memory.any
      (fun mem => decide (mem.messages.length ≠
        (run (step plainDeps) (State.init (fun _ => none)) takenBack).store.newest.length)) =
      true := by
    decide
  obtain ⟨mem, hmem, hbad⟩ := (Option.any_eq_true _ _).mp hdiffer
  have hlength := congrArg List.length (hlast mem hmem)
  simp only [List.length_map] at hlength
  exact of_decide_eq_true hbad hlength.symm

end Elpis.Resident
