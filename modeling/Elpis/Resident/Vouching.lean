import Elpis.Resident.Loaded

/-!
# Loaded resources over runs

Every program of the loop keeps the history and the transcript vouching for what is
loaded, unless a redaction changes a result that tells a body, or a compaction keeps a
descriptor whose body it folds. `loaded_bodies_present` says so of every run.
-/

namespace Elpis.Resident

open Elpis.Llm Elpis.Lib Crash

variable {d : Store} {mem : Memory} {deps : Deps} {versionOf : String → String} {m : ChatMessage}
  {profile : PersonIdentity → String}

/-! ## The invariant -/

/-- What a living process and its store have for what is loaded. -/
structure Told (deps : Deps) (d : Store) (mem : Memory) : Prop where
  started : mem.active = false → mem.messages = []
  history : Vouched deps.versionOf (mem.messages.map Entry.message) mem.resources.Loaded
  disk : Vouched deps.versionOf d.newest mem.resources.Loaded
  interrupts : ∀ i ∈ mem.interrupts, Telling deps.versionOf i
  pending : ∀ i ∈ mem.resources.pendingAgents, Telling deps.versionOf i

/-- The descriptors of the transcript are grounded. -/
abbrev DiskGrounded (deps : Deps) (d : Store) : Prop := Grounded deps.versionOf unknown d.newest

abbrev KeepsTold (deps : Deps) (x : Agent Unit) (d : Store) (mem : Memory) : Prop :=
  wp x (fun _ => Told deps) (fun _ _ _ => False) (fun d' _ => DiskGrounded deps d') d mem

theorem Told.of_same (h : Told deps d mem) {mem' : Memory} (hactive : mem'.active = mem.active)
    (hmessages : mem'.messages = mem.messages) (hresources : mem'.resources = mem.resources)
    (hinterrupts : mem'.interrupts = mem.interrupts) : Told deps d mem' := by
  constructor
  · rw [hactive, hmessages]
    exact h.started
  · rw [hmessages, hresources]
    exact h.history
  · rw [hresources]
    exact h.disk
  · rw [hinterrupts]
    exact h.interrupts
  · rw [hresources]
    exact h.pending

theorem Told.withResources (h : Told deps d mem) {resources : ContextResources}
    (hloaded : ∀ v, resources.Loaded v → mem.resources.Loaded v)
    (hpending : ∀ i ∈ resources.pendingAgents, Telling deps.versionOf i) :
    Told deps d { mem with resources } :=
  ⟨h.started, h.history.mono hloaded, h.disk.mono hloaded, h.interrupts, hpending⟩

theorem Told.edit (h : Told deps d mem) {f : Entry → Entry}
    (hf : ∀ e, AtLeast deps.versionOf e.message (f e).message) :
    Told deps d { mem with messages := mem.messages.map f } := by
  refine ⟨fun hactive => ?_, h.history.atLeast ?_, h.disk, h.interrupts, h.pending⟩
  · dsimp only
    rw [h.started hactive]
    rfl
  · dsimp only
    rw [List.map_map, List.forall₂_map_left_iff, List.forall₂_map_right_iff, List.forall₂_same]
    exact fun e _ => hf e

/-- A message with the same resources, text and role. -/
theorem atLeast_of_same {m m' : ChatMessage}
    (hnames : m'.contextResources = m.contextResources) (hrole : m'.role = m.role)
    (hperson : m'.personContext = m.personContext) (hcontent : m'.content = m.content) :
    AtLeast versionOf m m' := by
  refine ⟨by rw [hnames]; exact List.Subset.refl _, fun v hc => ⟨?_, ?_, ?_⟩⟩
  · rw [hrole]
    exact hc.role
  · rw [hperson]
    exact hc.person
  · rw [hcontent]
    exact hc.body

/-- One more line, of a message that is told by what is loaded and by itself. -/
theorem Vouched.line {ms : List ChatMessage} {loaded loaded' : String → Prop}
    (hdisk : Vouched deps.versionOf d.newest loaded) (hms : Vouched deps.versionOf ms loaded)
    {active : Bool} (hstarted : active = false → ms = [])
    (hm : ∀ x ∈ m.contextResources, loaded x.version ∨ Carries deps.versionOf m x.version)
    (hloaded : ∀ v, loaded' v → loaded v ∨ ∃ x ∈ m.contextResources, x.version = v) :
    Vouched deps.versionOf (d.line active m).newest loaded' := by
  unfold Store.line
  cases active with
  | true => exact hdisk.push hm hloaded
  | false =>
      -- a new file: nothing was loaded
      rw [hstarted rfl] at hms
      exact hms.push hm hloaded

theorem stored_plain (h : m.contextResources = []) :
    (stored m).contextResources = [] := by
  unfold stored
  split
  · rfl
  · exact h

theorem Told.pushed (h : Told deps d mem) (hm : m.contextResources = []) :
    Told deps (d.line mem.active (stored m)) (mem.pushed m) := by
  have hnone : ∀ {m' : ChatMessage}, m'.contextResources = [] → ∀ x ∈ m'.contextResources,
      mem.resources.Loaded x.version ∨ Carries deps.versionOf m' x.version := by
    intro m' hm' x hx
    rw [hm'] at hx
    exact absurd hx List.not_mem_nil
  refine ⟨nofun, ?_, ?_, h.interrupts, h.pending⟩
  · show Vouched deps.versionOf ((mem.messages ++ [_]).map Entry.message) _
    rw [List.map_append]
    exact h.history.push (hnone hm) (fun v hv => Or.inl hv)
  · exact h.disk.line h.history (fun hactive => by rw [h.started hactive]; rfl)
      (hnone (stored_plain hm)) (fun v hv => Or.inl hv)

theorem keepsTold_push (h : Told deps d mem) (channel : String)
    (hm : m.contextResources = []) : KeepsTold deps (pushMessage m channel) d mem :=
  wp_pushMessage h.disk.grounded (h.pushed (m := onChannel m channel) hm)

/-- The result of a call is pushed, and its resources are acknowledged. -/
theorem Told.settled (h : Told deps d mem) {call : ToolCall} {out : ToolOutput} (channel : String)
    (ref : ℕ) (rest : List ToolCall)
    (hout : ∀ x ∈ out.contextResources, mem.resources.Loaded x.version ∨
      HoldsBody deps.versionOf out.content x.version) :
    Told deps (d.line mem.active (stored (onChannel (toolMessage call out) channel)))
      (Memory.settleCall out ref rest (mem.pushed (onChannel (toolMessage call out) channel))) := by
  obtain ⟨hloaded, hpending⟩ := foldl_loads (f := ContextResources.acknowledgeOne)
    acknowledgeOne_loads mem.resources out.contextResources
  have hcarries : ∀ m : ChatMessage, m.role = .tool → m.personContext = none →
      m.content = out.content → ∀ x ∈ out.contextResources,
        mem.resources.Loaded x.version ∨ Carries deps.versionOf m x.version := by
    intro m hrole hperson hcontent x hx
    refine (hout x hx).imp_right (fun hbody => ⟨hrole, hperson, ?_⟩)
    rw [hcontent]
    exact hbody
  refine ⟨nofun, ?_, ?_, h.interrupts, fun i hi => h.pending i (hpending i hi)⟩
  · show Vouched deps.versionOf ((mem.messages ++ [_]).map Entry.message) _
    rw [List.map_append]
    exact h.history.push (hcarries _ rfl rfl rfl) hloaded
  · exact h.disk.line h.history (fun hactive => by rw [h.started hactive]; rfl)
      (hcarries (stored (onChannel (toolMessage call out) channel)) rfl rfl rfl) hloaded

/-! ## The condition -/

/-- What a result tells is told as it is, and a compaction that is applied keeps no
descriptor without the body, among the messages that came after its start. -/
def Action.Telling (deps : Deps) (d : Store) (mem : Memory) : Action → Prop
  | .toolSettled o redact _ =>
      ∀ call out, mem.upcoming deps d o redact = some (call, out) → out.contextResources ≠ [] →
        mem.upcoming deps d o id = some (call, out)
  | .applyCompaction _ =>
      mem.calls = [] → hasCompletedResult mem.compactor = true →
        prefixMatches deps.compactor mem.compactor mem.messages = true →
        Grounded deps.versionOf unknown
          ((mem.messages.drop (min mem.compactor.startedLength mem.messages.length)).map
            Entry.message)
  | _ => True

/-- **A step that loses no body.** -/
def KeepsBodies (deps : Deps) (s : State) : Event → Prop
  | .act a | .actDies a _ => ∀ mem, s.memory = some mem → a.Telling deps s.store mem
  | _ => True

/-! ## Along the actions -/

theorem keepsTold_drain (h : Told deps d mem) (m : Inbound) : KeepsTold deps (drain m) d mem := by
  have hlast : ∀ d' mem', Told deps d' mem' →
      KeepsTold deps (pushMessage (userMessage m) m.channel) d' mem' :=
    fun _ _ h' => keepsTold_push h' _ rfl
  unfold drain
  apply wp_bind
  apply wp_onSome
  · intro person _
    unfold ensurePersonMemory
    apply wp_bind
    apply wp_read
    apply wp_bind
    apply wp_read
    apply wp_when
    · intro _
      apply wp_bind
      apply wp_modify
      have hnoted : Told deps d { mem with
          injectedPeople := mem.injectedPeople ++ [person.authorId] } :=
        h.of_same rfl rfl rfl rfl
      exact wp_mono (keepsTold_push hnoted _ rfl) (fun _ => hlast) (fun _ _ _ he => he)
        (fun _ _ hc => hc)
    · exact fun _ => hlast d mem h
  · exact fun _ => hlast d mem h

theorem atLeast_stripFrame (m : ChatMessage) :
    AtLeast versionOf m (stripFrame m) := by
  unfold stripFrame
  split
  · exact atLeast_of_same rfl rfl rfl rfl
  · exact atLeast_of_same rfl rfl rfl rfl

theorem keepsTold_reply (h : Told deps d mem) (r : Response) (channel : String) :
    KeepsTold deps (reply r channel) d mem := by
  have hstripped : Told deps d { mem.edit stripFrame with consecutive400 := 0 } :=
    (h.edit (f := fun e => { e with message := stripFrame e.message })
      (fun e => atLeast_stripFrame e.message)).of_same rfl rfl rfl rfl
  unfold reply
  apply wp_bind
  apply wp_modify
  apply wp_bind
  refine wp_mono (keepsTold_push hstripped channel rfl) ?_ (fun _ _ _ he => he) (fun _ _ hc => hc)
  exact fun _ d' mem' h' => wp_modify (h'.of_same rfl rfl rfl rfl)

theorem Told.popUser (h : Told deps d mem) : Told deps d mem.popUser := by
  unfold Memory.popUser
  split
  · rename_i hlast
    obtain ⟨e, he, hrole⟩ := Option.map_eq_some_iff.mp hlast
    have hlast' : (mem.messages.map Entry.message).getLast? = some e.message := by
      rw [List.getLast?_map, he]
      rfl
    refine ⟨fun hactive => ?_, ?_, h.disk, h.interrupts, h.pending⟩
    · dsimp only
      rw [h.started hactive]
      rfl
    · dsimp only
      rw [List.map_dropLast]
      exact h.history.dropLast hlast' (by rw [hrole]; nofun)
  · exact h

theorem told_failed (h : Told deps d mem) (failure : Failure) :
    Told deps d (failedCompletion failure mem) := by
  have hpop := h.popUser
  unfold failedCompletion
  cases failure with
  | policyDenial | usageLimit | transient => exact h.of_same rfl rfl rfl rfl
  | leaked => exact hpop
  | internal =>
      dsimp only
      split
      · exact hpop.of_same rfl rfl rfl rfl
      · exact h.of_same rfl rfl rfl rfl

theorem told_endWake (h : Told deps d mem) (how : WakeEnd) : Told deps d (mem.endWake how) := by
  unfold Memory.endWake
  cases mem.pendingWake with
  | none => exact h
  | some ref =>
      refine (h.edit (f := fun e => if e.ref = ref then
        { e with message := { e.message with wake := e.message.wake.map how.write } } else e)
        (fun e => ?_)).of_same rfl rfl rfl rfl
      split
      · exact atLeast_of_same rfl rfl rfl rfl
      · exact atLeast_of_same rfl rfl rfl rfl

theorem Told.supersede (h : Told deps d mem) (out : ToolOutput) :
    Told deps d (mem.supersede out) ∧ (mem.supersede out).resources = mem.resources := by
  unfold Memory.supersede
  split
  · refine ⟨told_endWake h _, ?_⟩
    unfold Memory.endWake
    cases mem.pendingWake with
    | none => rfl
    | some ref => rfl
  · exact ⟨h, rfl⟩

theorem keepsTold_dispatch (h : Told deps d mem) {o : RunOutcome} {redact : String → String}
    {channel : String} (htelling : (Action.toolSettled o redact channel).Telling deps d mem) :
    KeepsTold deps (dispatchTool deps o redact channel) d mem := by
  unfold dispatchTool
  apply wp_bind
  apply wp_read
  cases hcalls : mem.calls with
  | nil => exact wp_pure h
  | cons call rest =>
      apply wp_bind
      apply wp_read
      apply wp_ite
      · intro _
        apply wp_modify
        have hdiscard : Told deps d { mem with resources := mem.resources.discardPending } :=
          h.withResources (fun v hv => hv) (fun i hi => absurd hi Table.not_mem_empty)
        exact hdiscard.of_same rfl rfl rfl rfl
      · intro hfresh
        have heq : mem.callEpoch = mem.epoch := by simpa using hfresh
        obtain ⟨hsame, htold⟩ := handleTool_told h.interrupts d.files redact call
          (decide (rest = [])) o
        have hout : ∀ x ∈ (handleTool deps d.files redact mem call
            (decide (rest = [])) o).1.contextResources, mem.resources.Loaded x.version ∨
            HoldsBody deps.versionOf (handleTool deps d.files redact mem call
              (decide (rest = [])) o).1.content x.version := by
          intro x hx
          -- the result names a resource, so it is not redacted
          have hplain := htelling call _ (upcoming_eq deps d o redact hcalls heq)
            (List.ne_nil_of_mem hx)
          rw [upcoming_eq deps d o id hcalls heq] at hplain
          have hid := (Prod.mk.inj (Option.some.inj hplain)).2
          rw [← hid] at hx ⊢
          exact htold x hx
        apply wp_bind
        apply wp_read
        generalize handleTool deps d.files redact mem call (decide (rest = [])) o = handled at *
        apply wp_bind
        apply wp_modify
        have hhandled : Told deps d { mem with resources := handled.2 } :=
          h.withResources (fun v hv => hsame.keeps hv) (fun i hi => h.pending i (hsame.pending ▸ hi))
        obtain ⟨hready, hresources⟩ := hhandled.supersede handled.1
        have hloaded : ∀ v, mem.resources.Loaded v → handled.2.Loaded v := by
          rintro v ⟨x, hx, hv⟩
          rw [← hsame.skills, ← hsame.agents] at hx
          exact ⟨x, hx, hv⟩
        generalize Memory.supersede handled.1 { mem with resources := handled.2 } = ready at *
        apply wp_bind
        apply wp_read
        apply wp_bind
        apply wp_pushMessage
        · exact hready.disk.grounded
        · apply wp_modify
          refine hready.settled channel _ rest (fun x hx => ?_)
          rw [hresources]
          exact (hout x hx).imp_left (hloaded _)

/-! ## Histories that are written again -/

theorem atLeast_lines (messages : List Entry) :
    List.Forall₂ (AtLeast versionOf) (messages.map Entry.message) (lines messages) := by
  have hlines : lines messages = (messages.map Entry.message).map persistable := by
    unfold lines
    rw [List.map_map]
    rfl
  rw [hlines]
  exact atLeast_map (f := persistable) (fun m => atLeast_of_same rfl rfl rfl rfl) _

theorem keepsTold_rewrite (hd : DiskGrounded deps d)
    (h : Vouched deps.versionOf (mem.messages.map Entry.message) mem.resources.Loaded)
    (hinterrupts : ∀ i ∈ mem.interrupts, Telling deps.versionOf i)
    (hpending : ∀ i ∈ mem.resources.pendingAgents, Telling deps.versionOf i) :
    KeepsTold deps rewriteTranscript d mem := by
  have hlines := h.atLeast (atLeast_lines mem.messages)
  apply wp_rewriteTranscript
  · rintro d' _ - (hold | ⟨n, hnew⟩)
    · unfold DiskGrounded
      rw [hold]
      exact hd
    · unfold DiskGrounded
      rw [hnew]
      exact hlines.grounded.take n
  · refine ⟨fun hactive => by simpa using hactive, h, ?_, hinterrupts, hpending⟩
    dsimp only
    split
    · rename_i hnil
      -- nothing is written, and nothing can be loaded
      refine ⟨hd, fun v hv => ?_⟩
      obtain ⟨x, hx, -⟩ := h.loaded v hv
      rw [hnil] at hx
      exact absurd hx List.not_mem_nil
    · exact hlines

theorem keepsTold_clearThinking (h : Told deps d mem) : KeepsTold deps clearThinking d mem := by
  have hcleared : Told deps d (mem.edit withoutThinking) :=
    h.edit (f := fun e => { e with message := withoutThinking e.message })
      (fun e => atLeast_of_same rfl rfl rfl rfl)
  unfold clearThinking
  apply wp_bind
  apply wp_modify
  exact keepsTold_rewrite h.disk.grounded hcleared.history h.interrupts h.pending

theorem vouched_nil (skills : List SkillRecord) :
    Vouched versionOf [] (ContextResources.init skills).Loaded :=
  ⟨trivial, fun _ hv => absurd hv (not_loaded_init skills)⟩

theorem keepsTold_clearContext (h : Told deps d mem) (profile : PersonIdentity → String) :
    KeepsTold deps (clearContext profile) d mem := by
  unfold clearContext
  apply wp_bind
  apply wp_rotateToSentinel
  · exact h.disk.grounded
  · apply wp_modify
    exact ⟨fun _ => rfl, vouched_nil _, vouched_nil _, h.interrupts,
      fun i hi => absurd hi Table.not_mem_empty⟩

/-! ## Along a compaction -/

theorem evict_plain {es : List Entry} :
    ∀ {fresh : ℕ}, ∀ e ∈ evictContextResourceBodies fresh es, e.message.contextResources = [] := by
  induction es with
  | nil => exact fun e he => absurd he List.not_mem_nil
  | cons x es ih =>
      intro fresh e he
      unfold evictContextResourceBodies at he
      rcases List.mem_cons.mp he with rfl | he
      · split
        · rfl
        · rename_i hnone
          exact not_not.mp hnone
      · exact ih e he

/-- Of a rebuilt history only the messages after the start of the compaction name
resources. -/
theorem grounded_rebuilt {fresh b n : ℕ} {summary : String}
    {messages : List Entry}
    (h : Grounded versionOf unknown ((messages.drop (min n messages.length)).map Entry.message)) :
    Grounded versionOf unknown ((rebuilt fresh b n summary messages).map Entry.message) := by
  unfold rebuilt
  dsimp only
  rw [List.map_append, List.map_cons, List.map_append, ← List.cons_append, grounded_append,
    grounded_append]
  refine ⟨⟨grounded_plain ?_, h.mono (fun v hv => hv.elim)⟩, grounded_plain ?_⟩
  · intro m hm
    rcases List.mem_cons.mp hm with rfl | hm
    · rfl
    · obtain ⟨e, he, rfl⟩ := List.mem_map.mp hm
      exact evict_plain e he
  · intro m hm
    rw [List.mem_singleton.mp hm]
    rfl

theorem atLeast_amendLast (text : String) (es : List Entry) :
    List.Forall₂ (AtLeast versionOf) (es.map Entry.message)
      ((amendLast text es).map Entry.message) := by
  have hrefl : ∀ m : ChatMessage, AtLeast versionOf m m :=
    fun m => atLeast_of_same rfl rfl rfl rfl
  induction es with
  | nil => exact List.Forall₂.nil
  | cons e es ih =>
      cases es with
      | nil =>
          refine List.Forall₂.cons ⟨List.Subset.refl _, fun v hc => ⟨hc.role, hc.person, ?_⟩⟩
            List.Forall₂.nil
          refine hc.body.within ?_
          rw [String.toList_append]
          exact List.infix_append_of_infix_left List.infix_rfl
      | cons x es => exact List.Forall₂.cons (hrefl e.message) ih

theorem atLeast_remind (reminder : Option String) (es : List Entry) :
    List.Forall₂ (AtLeast versionOf) (es.map Entry.message)
      ((remind reminder es).map Entry.message) := by
  cases reminder with
  | none =>
      rw [remind, List.forall₂_same]
      exact fun m _ => atLeast_of_same rfl rfl rfl rfl
  | some text => exact atLeast_amendLast _ es

theorem grounded_refresh
    {es : List Entry} :
    ∀ {known : String → Prop} {fresh : ℕ} {injected : List String},
      Grounded versionOf known (es.map Entry.message) →
      Grounded versionOf known
        ((refreshPersonMemory profile fresh injected es).map Entry.message) := by
  induction es with
  | nil => exact fun h => h
  | cons e es ih =>
      intro known fresh injected h
      unfold refreshPersonMemory
      split
      · rename_i hperson
        refine ih (h.2.mono (fun v hv => hv.resolve_right (fun hc => ?_)))
        rw [hc.person] at hperson
        cases hperson
      · split
        · exact ⟨h.1, ih h.2⟩
        · refine ⟨fun x hx => absurd hx List.not_mem_nil, ?_, ?_⟩
          · exact fun x hx => (h.1 x hx).imp_left Or.inl
          · exact (ih h.2).mono (fun v hv => hv.imp_left Or.inl)
      · exact ⟨h.1, ih h.2⟩

theorem backed_refresh
    {es : List Entry} {fresh : ℕ} {injected : List String} {v : String}
    (h : Backed versionOf (es.map Entry.message) v) :
    Backed versionOf ((refreshPersonMemory profile fresh injected es).map Entry.message) v := by
  obtain ⟨m, hm, hc⟩ := h
  obtain ⟨e, he, rfl⟩ := List.mem_map.mp hm
  exact ⟨e.message, List.mem_map_of_mem (mem_refresh he hc.person), hc⟩

/-- The history after a compaction vouches for what was restored. -/
theorem vouched_compacted {files : Files}
    {compactor : CompactorState} {next : List Entry}
    (h : Grounded deps.versionOf unknown (next.map Entry.message)) :
    Vouched deps.versionOf
      ((Memory.compacted deps files profile compactor next mem).messages.map Entry.message)
      (Memory.compacted deps files profile compactor next mem).resources.Loaded := by
  unfold Memory.compacted
  dsimp only
  have hremind := fun reminder => @atLeast_remind deps.versionOf reminder next
  refine ⟨grounded_refresh (h.atLeast (hremind _)), fun v hv => ?_⟩
  obtain ⟨x, hx, rfl⟩ := (takeCompactionReminder_loads _ _ _).1 v hv
  obtain ⟨e, he, hx⟩ := List.mem_flatMap.mp hx
  have hbacked := (h.named (List.mem_map_of_mem he) hx).resolve_left id
  exact backed_refresh (hbacked.atLeast (hremind _))

theorem keepsTold_applyCheckpoint (h : Told deps d mem) (hcalls : mem.calls = [])
    (htelling : (Action.applyCompaction profile).Telling deps d mem) :
    KeepsTold deps (applyCheckpoint deps profile) d mem := by
  unfold applyCheckpoint
  apply wp_bind
  apply wp_read
  apply wp_when
  · intro hdone
    apply wp_bind
    apply wp_read
    rcases applyCompaction_cases deps.compactor mem.nextRef mem.messages mem.compactor with
      ⟨c', heq, -⟩ | ⟨summary, hprefix, -, -, heq⟩
    · rw [heq]
      exact wp_modify (h.of_same rfl rfl rfl rfl)
    · rw [heq]
      apply wp_bind
      apply wp_read
      apply wp_bind
      apply wp_modify
      refine keepsTold_rewrite h.disk.grounded ?_ h.interrupts ?_
      · exact vouched_compacted (grounded_rebuilt (htelling hcalls hdone hprefix))
      · exact fun i hi => absurd hi ((takeCompactionReminder_loads _ _ _).2 i)
  · exact fun _ => h

theorem keepsTold_action (h : Told deps d mem) {a : Action} (ha : a.Telling deps d mem) :
    KeepsTold deps (a.program deps) d mem := by
  cases a with
  | drain m => exact wp_betweenTurns (fun _ => keepsTold_drain h m) h
  | nudge content => exact wp_betweenTurns (fun _ => keepsTold_push h _ rfl) h
  | receipt content sends => exact wp_betweenTurns (fun _ => keepsTold_push h _ rfl) h
  | reply r channel => exact wp_betweenTurns (fun _ => keepsTold_reply h r channel) h
  | failed failure => exact wp_betweenTurns (fun _ => wp_modify (told_failed h failure)) h
  | toolSettled o redact channel => exact keepsTold_dispatch h ha
  | accessFile target agents =>
      apply wp_bind
      apply wp_read
      apply wp_modify
      obtain ⟨hstopped, hloaded, hpending⟩ :=
        @beforeFileAccess_told _ _ d.files target h.pending agents
      unfold accessFile
      split
      · rename_i i resources heq
        rw [heq] at hstopped hloaded hpending
        have hres : Told deps d { mem with resources } := h.withResources hloaded hpending
        refine ⟨hres.started, hres.history, hres.disk, fun j hj => ?_, hres.pending⟩
        rcases List.mem_append.mp hj with hj | hj
        · exact h.interrupts j hj
        · rw [List.mem_singleton.mp hj]
          exact hstopped i rfl
      · rename_i access resources _ heq
        rw [heq] at hloaded hpending
        exact h.withResources hloaded hpending
  | endWake how => exact wp_modify (told_endWake h how)
  | startCompaction ratio =>
      exact wp_betweenTurns (fun _ => wp_modify (h.of_same rfl rfl rfl rfl)) h
  | settleSummary run outcome => exact wp_modify (h.of_same rfl rfl rfl rfl)
  | applyCompaction profile =>
      exact wp_betweenTurns (fun hcalls => keepsTold_applyCheckpoint h hcalls ha) h
  | clearThinking => exact keepsTold_clearThinking h
  | clearContext profile => exact keepsTold_clearContext h profile

/-! ## Starting again -/

theorem atLeast_parse (r : Readers) (trusts : Trust)
    (m : ChatMessage) : AtLeast versionOf m (parseChatMessage r trusts m) := by
  constructor
  · unfold parseChatMessage parseContextResourceDescriptors
    dsimp only
    split
    · exact List.Subset.trans (List.filter_subset_self _) (List.take_subset _ _)
    · exact List.nil_subset _
  · intro v hc
    refine ⟨hc.role, ?_, hc.body⟩
    show (if m.role = .user then _ else none) = none
    rw [hc.role]
    rfl

/-- Restoring the descriptors of one message after the other. -/
theorem restored_loads (files : Files) (ms : List ChatMessage)
    (res : ContextResources) :
    (∀ v, (ms.foldl (fun res m => res.restore versionOf files m.contextResources) res).Loaded v →
      res.Loaded v ∨ ∃ m ∈ ms, ∃ x ∈ m.contextResources, x.version = v) ∧
    ∀ i ∈ (ms.foldl (fun res m => res.restore versionOf files m.contextResources)
      res).pendingAgents, i ∈ res.pendingAgents := by
  induction ms generalizing res with
  | nil => exact ⟨fun v hv => Or.inl hv, fun i hi => hi⟩
  | cons m ms ih =>
      obtain ⟨hloaded, hpending⟩ := ih (res.restore versionOf files m.contextResources)
      obtain ⟨hone, hkept⟩ := foldl_loads (f := ContextResources.restoreOne versionOf files)
        (fun res d => restoreOne_loads files res d) res m.contextResources
      refine ⟨fun v hv => ?_, fun i hi => hkept i (hpending i hi)⟩
      rcases hloaded v hv with hv | ⟨y, hy, hv⟩
      · exact (hone v hv).imp_right (fun hx => ⟨m, List.mem_cons_self, hx⟩)
      · exact Or.inr ⟨y, List.mem_cons_of_mem _ hy, hv⟩

theorem told_primed (hd : DiskGrounded deps d) (b : Boot) :
    Told deps d (Memory.primed deps d (Memory.start b)) := by
  unfold Memory.primed
  dsimp only
  by_cases hempty : d.newest = []
  · rw [if_pos (by rw [hempty]; rfl)]
    refine ⟨fun _ => rfl, vouched_nil _, ?_, fun i hi => absurd hi List.not_mem_nil,
      fun i hi => absurd hi Table.not_mem_empty⟩
    rw [hempty]
    exact vouched_nil _
  · rw [if_neg (by simpa using hempty)]
    have hparsed := atLeast_map
      (@atLeast_parse deps.versionOf deps.readers b.trusts) d.newest
    obtain ⟨hloaded, hpending⟩ := @restored_loads deps.versionOf d.files
      (d.newest.map (parseChatMessage deps.readers b.trusts)) (ContextResources.init b.skills)
    -- a restored version is named by a line, and the line is grounded
    have hbacked : ∀ v, ((d.newest.map (parseChatMessage deps.readers b.trusts)).foldl
        (fun res m => res.restore deps.versionOf d.files m.contextResources)
        (ContextResources.init b.skills)).Loaded v → Backed deps.versionOf d.newest v := by
      intro v hv
      obtain ⟨m', hm', x, hx, rfl⟩ := (hloaded v hv).resolve_left (not_loaded_init _)
      obtain ⟨m, hm, rfl⟩ := List.mem_map.mp hm'
      have hnamed := (@atLeast_parse deps.versionOf deps.readers b.trusts m).names hx
      exact (hd.named hm hnamed).resolve_left id
    refine ⟨nofun, ?_, ⟨hd, hbacked⟩, fun i hi => absurd hi List.not_mem_nil,
      fun i hi => absurd (hpending i hi) Table.not_mem_empty⟩
    dsimp only
    rw [objects_message]
    exact ⟨hd.atLeast hparsed, fun v hv => (hbacked v hv).atLeast hparsed⟩

theorem keepsTold_prime (hd : DiskGrounded deps d) (b : Boot) :
    KeepsTold deps (prime deps) d (Memory.start b) := by
  have hprimed := told_primed hd b
  unfold prime
  apply wp_bind
  apply wp_read
  apply wp_bind
  apply wp_modify
  generalize Memory.primed deps d (Memory.start b) = mem at hprimed
  unfold recoverInterruptedToolCall
  apply wp_bind
  apply wp_read
  cases mem.messages.getLast? with
  | none => exact wp_pure hprimed
  | some last =>
      apply wp_ite
      · exact fun _ => wp_pure hprimed
      · intro _
        refine wp_forEach (I := fun _ => Told deps) ?_ _ hprimed
        intro call _ d' mem' h'
        exact wp_when (fun _ => keepsTold_push h' _ rfl) (fun _ => h')

/-! ## Runs -/

/-- Each resource that is treated as loaded has a message with its whole body. -/
def BodiesPresent (deps : Deps) (s : State) : Prop :=
  ∀ mem, s.memory = some mem → ∀ x, x ∈ mem.resources.loadedSkills ∨ x ∈ mem.resources.loadedAgents →
    ∃ e ∈ mem.messages, HoldsBody deps.versionOf e.message.content x.version

abbrev Vouches (deps : Deps) (s : State) : Prop := Holds (Told deps) (DiskGrounded deps) s

theorem keepsTold_dies {x : Agent Unit} (h : KeepsTold deps x d mem) :
    wp x (fun _ d' _ => DiskGrounded deps d') (fun _ _ _ => False)
      (fun d' _ => DiskGrounded deps d') d mem :=
  wp_mono h (fun _ _ _ h' => h'.disk.grounded) (fun _ _ _ he => he) (fun _ _ hc => hc)

theorem vouches_step {s : State} (hs : Vouches deps s) {e : Event} (he : KeepsBodies deps s e) :
    Vouches deps (step deps s e) := by
  cases e with
  | boot b => exact holds_boot hs (fun _ hd => keepsTold_prime hd b)
  | bootDies b writes =>
      exact holds_bootDies hs (fun _ hd => keepsTold_dies (keepsTold_prime hd b))
  | act a => exact holds_act hs (fun mem hmem h => keepsTold_action h (he mem hmem))
  | actDies a writes =>
      exact holds_actDies hs (fun mem hmem h => keepsTold_dies (keepsTold_action h (he mem hmem)))
  | edit path content =>
      unfold Vouches Holds at hs ⊢
      simp only [step]
      cases hmem : s.memory with
      | none =>
          rw [hmem] at hs
          exact hs
      | some mem =>
          rw [hmem] at hs
          exact ⟨hs.started, hs.history, hs.disk, hs.interrupts, hs.pending⟩

theorem Vouches.present {s : State} (hs : Vouches deps s) : BodiesPresent deps s := by
  intro mem hmem x hx
  unfold Vouches Holds at hs
  rw [hmem] at hs
  obtain ⟨m, hm, hc⟩ := hs.history.loaded x.version ⟨x, hx, rfl⟩
  obtain ⟨e, he, rfl⟩ := List.mem_map.mp hm
  exact ⟨e, he, hc.body⟩

/-- **What is loaded is in the history, over runs.** In every run of the resident, with
crashes and restarts anywhere, whose results tell their bodies unredacted and whose
compactions keep no descriptor without its body, each skill and instruction file that is
treated as loaded has a message of the history with its whole body, in every state the run
goes through. -/
theorem loaded_bodies_present (deps : Deps) (files : Files) (events : List Event)
    (h : EachStep (step deps) (KeepsBodies deps) (State.init files) events) :
    Throughout (step deps) (BodiesPresent deps) (State.init files) events :=
  throughout_of_eachStep (I := Vouches deps) (fun _ hs => hs.present)
    (fun _ _ hs he => vouches_step hs he) events trivial h

/-! ## A skill that is loaded, and folded -/

def skillDeps : Deps :=
  { plainDeps with compactor := plainConfig 1, namesOf := fun _ => .ok (some [.text "notes"]) }

def skillFiles : Files := fun path => if path = "/notes" then some "§ keep notes short" else none

/-- The model calls the skill, and is answered. -/
def skillCalled (id : String) : List Event :=
  [.act (.reply ⟨"", none, [], [], [⟨id, "skill", ""⟩], none, none, false⟩ "general"),
    .act (.toolSettled plainOutcome (fun t => t) "general")]

/-- A skill is loaded, and a compaction has its summary. -/
def skillSummarized : List Event :=
  [.boot ⟨[⟨"notes", "/notes", "/notes"⟩], fun _ => true, fun _ => ""⟩,
    .act (.drain ⟨"hello", [], [], [], none, false, "general"⟩)] ++ skillCalled "a" ++
    [.act (.startCompaction fourChars),
      .act (.settleSummary 0 (.ok "the notes skill was loaded on request"))]

def fold : List Event := [.act (.applyCompaction (fun _ => ""))]

/-- Applied at once, the compaction makes the skill unloaded with its body. -/
theorem skill_folded_present :
    EachStep (step skillDeps) (KeepsBodies skillDeps) (State.init skillFiles)
        (skillSummarized ++ fold) ∧
      Throughout (step skillDeps) (BodiesPresent skillDeps) (State.init skillFiles)
        (skillSummarized ++ fold) := by
  have hsteps : EachStep (step skillDeps) (KeepsBodies skillDeps) (State.init skillFiles)
      (skillSummarized ++ fold) := by
    refine ⟨trivial, fun _ _ => trivial, fun _ _ => trivial, fun _ _ _ _ hup _ => hup,
      fun _ _ => trivial, fun _ _ => trivial, fun mem hmem _ _ _ => ?_, trivial⟩
    have hnone : (run (step skillDeps) (State.init skillFiles) skillSummarized).memory.all
        (fun mem => decide (mem.messages.drop
          (min mem.compactor.startedLength mem.messages.length) = [])) = true := by
      decide +kernel
    rw [of_decide_eq_true ((Option.all_eq_true _ _).mp hnone mem hmem)]
    trivial
  exact ⟨hsteps, loaded_bodies_present skillDeps skillFiles _ hsteps⟩

/-- What the messages say behind the compaction. -/
def foldedContents : List String :=
  ["=== Summary of earlier conversation (3 earlier messages compacted) ===\nthe notes skill was loaded on request", "",
    "[skills already present in the current context: notes]",
    "[harness: context compacted — 3 earlier messages were folded into the summary at the top of your context. If you were mid-thread, skim that summary before continuing; anything not in it or in MEMORY.md is gone.]"]

set_option maxRecDepth 2000 in
theorem not_mem_foldedContents : ∀ s ∈ foldedContents, '§' ∉ s.toList := by
  simp only [foldedContents, List.forall_mem_cons]
  exact ⟨Js.not_mem_literal (by decide), Js.not_mem_literal (by decide), Js.not_mem_literal (by decide),
    Js.not_mem_literal (by decide), nofun⟩

/-- The skill is called once more while the summary waits: the descriptor of the second
result is kept, the body is folded, and the skill counts as loaded. -/
theorem skill_loaded_without_body :
    ¬∀ (deps : Deps) (files : Files) (events : List Event),
      Throughout (step deps) (BodiesPresent deps) (State.init files) events := by
  intro h
  have hlast := (h skillDeps skillFiles (skillSummarized ++ skillCalled "b" ++ fold)).last
  have habsent : (run (step skillDeps) (State.init skillFiles)
      (skillSummarized ++ skillCalled "b" ++ fold)).memory.any (fun mem =>
        mem.resources.loadedSkills.rows.any (fun x => decide ('§' ∈ x.version.toList)) &&
          decide (mem.messages.map (fun e => e.message.content) = foldedContents)) = true := by
    decide +kernel
  obtain ⟨mem, hmem, hbad⟩ := (Option.any_eq_true _ _).mp habsent
  rw [Bool.and_eq_true, decide_eq_true_eq] at hbad
  obtain ⟨x, hx, hbody⟩ := List.any_eq_true.mp hbad.1
  obtain ⟨e, he, raw, hraw, hversion⟩ := hlast mem hmem x (Or.inl hx)
  have hsame : raw = x.version := hversion
  rw [hsame] at hraw
  exact not_mem_foldedContents _ (hbad.2 ▸ List.mem_map_of_mem he) (hraw.subset (of_decide_eq_true hbody))

end Elpis.Resident
