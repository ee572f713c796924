import Elpis.Lib.Crash
import Elpis.Lib.Run
import Elpis.Llm.Compactor
import Elpis.Resident.Resources

/-!
# The loop of the resident

The parts of `src/agent.ts` that write the history: what the loop drains, what the model
answers, the results of its tools, failed completions, wakes, compaction, the two clears
and the recovery after a restart. The history is kept twice, in memory and as a transcript
on disk, and each line of the transcript is a write of its own.

An action is one uninterrupted stretch of the program. It runs to its end, or the process
dies in it after some of its writes. What the loop takes from outside (an envelope, an
answer of the model, the outcome of a run) is part of the action.
-/

namespace Elpis.Resident

open Elpis.Llm Elpis.Lib

/-! ## State -/

/-- What stays when the process dies: the newest transcript file, and the files of the
resources. -/
structure Store where
  newest : List ChatMessage
  files : Files

structure PersonIdentity where
  authorId : String
  author : String
deriving DecidableEq, Repr

/-- What a process holds. `active` says that the transcript has an active file; `calls` are
the calls of the last response that have no result yet, in the order of `batch`; a batch
counts while `callEpoch` is the current epoch. `pendingWake` is the message whose wake is
armed. `profile` makes the memory of a person from the people files read last. -/
structure Memory where
  messages : List Entry
  nextRef : ℕ
  active : Bool
  trusts : Trust
  profile : PersonIdentity → String
  injectedPeople : List String
  consecutive400 : ℕ
  epoch : ℕ
  callEpoch : ℕ
  batch : List ToolCall
  batchRejected : Bool
  calls : List ToolCall
  pendingWake : Option ℕ
  compactor : CompactorState
  resources : ContextResources
  /-- The interrupts this process has made. -/
  interrupts : List ContextResourceInterrupt

/-- What the loop uses and does not change: the parsers of attributions, the compactor's
configuration, the digest of a body, and what `JSON.parse` finds in the arguments of a call
(the `code` of a run, empty when there is none, and the `names` of a skill call). -/
structure Deps where
  readers : Readers
  compactor : CompactorConfig
  versionOf : String → String
  codeOf : String → String
  namesOf : String → Except String (Option (List NameArg))

/-- A program of the agent. -/
abbrev Agent := Crash Store Memory Empty

/-- `INTERNAL_CHANNEL_ID`. -/
def internalChannel : String := "internal"

/-! ## The transcript -/

/-- `transcript.append`: the first line after a rotation starts a file. -/
def append (m : ChatMessage) : Agent Unit := do
  let active ← Crash.read (fun _ mem => mem.active)
  Crash.write (fun d => { d with newest := if active then d.newest ++ [m] else [m] })
  Crash.modify (fun mem => { mem with active := true })

/-- `transcript.rotate` without a sentinel: the newest file stays the old one until the
first line of the next. -/
def rotate : Agent Unit := Crash.modify (fun mem => { mem with active := false })

/-- `transcript.rotate` with a sentinel: the newest file is an empty one. -/
def rotateToSentinel : Agent Unit := do
  Crash.write (fun d => { d with newest := [] })
  Crash.modify (fun mem => { mem with active := true })

def Memory.push (m : ChatMessage) (mem : Memory) : Memory :=
  { mem with messages := mem.messages ++ [⟨mem.nextRef, m⟩], nextRef := mem.nextRef + 1 }

/-- A message with the channel it is pushed on. -/
def onChannel (m : ChatMessage) (channel : String) : ChatMessage :=
  { m with channel := some channel }

def pushMessage (m : ChatMessage) (channel : String) : Agent Unit := do
  Crash.modify (Memory.push (onChannel m channel))
  append (stored (onChannel m channel))

/-- Rotate and write the whole history again. -/
def rewriteTranscript : Agent Unit := do
  rotate
  let messages ← Crash.read (fun _ mem => mem.messages)
  Crash.forEach (fun e => append (persistable e.message)) messages

/-! ## People -/

def personMemoryMessage (profile : PersonIdentity → String) (person : PersonIdentity) :
    ChatMessage :=
  { role := .user, content := profile person,
    personContext := some ⟨.memory, person.authorId, person.author⟩ }

/-- The people whose memory is in the messages. -/
def peopleIn (messages : List ChatMessage) : List String :=
  messages.filterMap (fun m =>
    match m.personContext with
    | some ⟨.memory, authorId, _⟩ => some authorId
    | _ => none)

def ensurePersonMemory (person : PersonIdentity) : Agent Unit := do
  let injected ← Crash.read (fun _ mem => mem.injectedPeople)
  let profile ← Crash.read (fun _ mem => mem.profile)
  Crash.when (person.authorId ∉ injected) do
    Crash.modify (fun mem => { mem with injectedPeople := mem.injectedPeople ++ [person.authorId] })
    pushMessage (personMemoryMessage profile person) internalChannel

/-- `refreshPersonMemoryAfterCompaction`. New objects are numbered from `fresh`. -/
def refreshPersonMemory (profile : PersonIdentity → String) (fresh : ℕ) (injected : List String) :
    List Entry → List Entry
  | [] => []
  | e :: rest =>
      match e.message.personContext with
      | some ⟨.memory, _, _⟩ => refreshPersonMemory profile fresh injected rest
      | some ⟨.inbound, authorId, author⟩ =>
          if authorId ∈ injected then e :: refreshPersonMemory profile fresh injected rest
          else
            ⟨fresh, onChannel (personMemoryMessage profile ⟨authorId, author⟩) internalChannel⟩ ::
              e :: refreshPersonMemory profile (fresh + 1) (injected ++ [authorId]) rest
      | none => e :: refreshPersonMemory profile fresh injected rest

/-! ## Input and answers -/

/-- A drained message. `content` is its envelope; a person stands on a Discord message;
`watch` marks frames that serve one completion. -/
structure Inbound where
  content : String
  images : List String
  lineage : List (String × String)
  sends : List RecordedSend
  person : Option PersonIdentity
  watch : Bool
  channel : String
deriving DecidableEq, Repr

def userMessage (m : Inbound) : ChatMessage :=
  { role := .user, content := m.content,
    contentParts := if m.images = [] then none else some m.images,
    lineage := m.lineage, sends := m.sends,
    personContext := m.person.map (fun p => ⟨.inbound, p.authorId, p.author⟩),
    ephemeral := m.watch }

def drain (m : Inbound) : Agent Unit := do
  Crash.onSome m.person ensurePersonMemory
  pushMessage (userMessage m) m.channel

def pushHarnessNudge (content : String) : Agent Unit :=
  pushMessage { role := .user, content } internalChannel

/-- The receipt of a message sent by a header. -/
def pushReceipt (content : String) (sends : List RecordedSend) : Agent Unit :=
  pushMessage { role := .user, content, sends } internalChannel

/-- A completion. `batchRejected` says that the issuer refused the batch of calls. -/
structure Response where
  content : String
  reasoningContent : Option String
  reasoningItems : List ReasoningItem
  thinkingBlocks : List ThinkingBlock
  toolCalls : List ToolCall
  provenance : Option String
  residentToolBatch : Option String
  batchRejected : Bool
deriving DecidableEq, Repr

def assistantMessage (r : Response) : ChatMessage :=
  { role := .assistant, content := r.content, reasoningContent := r.reasoningContent,
    reasoningItems := r.reasoningItems, thinkingBlocks := r.thinkingBlocks,
    toolCalls := r.toolCalls, provenance := r.provenance,
    residentToolBatch :=
      if r.toolCalls = [] ∨ r.batchRejected then none else r.residentToolBatch }

/-- Frames have served their completion. -/
def stripFrame (m : ChatMessage) : ChatMessage :=
  if m.ephemeral then { m with contentParts := none, ephemeral := false } else m

/-- Change the objects of the history in place. -/
def Memory.edit (f : ChatMessage → ChatMessage) (mem : Memory) : Memory :=
  { mem with messages := mem.messages.map (fun e => { e with message := f e.message }) }

/-- A completion arrives: frames are stripped and the answer is pushed; its calls are to be
dispatched. -/
def reply (r : Response) (channel : String) : Agent Unit := do
  Crash.modify (fun mem => { mem.edit stripFrame with consecutive400 := 0 })
  pushMessage (assistantMessage r) channel
  Crash.modify (fun mem =>
    { mem with callEpoch := mem.epoch, batch := r.toolCalls, calls := r.toolCalls,
               batchRejected := r.batchRejected })

/-- How a completion fails for good. -/
inductive Failure where
  | policyDenial | usageLimit | transient | internal | leaked
deriving DecidableEq, Repr

/-- `this.messages.pop()`, when the last message is the user's. -/
def Memory.popUser (mem : Memory) : Memory :=
  if mem.messages.getLast?.map (fun e => e.message.role) = some .user then
    { mem with messages := mem.messages.dropLast }
  else mem

/-- A completion failed. The first internal error in a row and a leak for the third time
take the last input back. -/
def failedCompletion (failure : Failure) (mem : Memory) : Memory :=
  match failure with
  | .policyDenial | .usageLimit | .transient => { mem with consecutive400 := 0 }
  | .internal =>
      if mem.consecutive400 + 1 < 2 then
        { mem.popUser with consecutive400 := mem.consecutive400 + 1 }
      else { mem with consecutive400 := mem.consecutive400 + 1 }
  | .leaked => mem.popUser

/-! ## Wakes -/

/-- How an armed wake ends: it is preempted, for a reason, or it fires. -/
inductive WakeEnd where
  | preempted (note : String)
  | fired
deriving DecidableEq, Repr

def WakeEnd.write (how : WakeEnd) (w : RunWakeMetadata) : RunWakeMetadata :=
  match how with
  | .preempted note => { w with state := .preempted, note := some note }
  | .fired => { w with state := .fired }

/-- The end of the pending wake. It is written into the metadata of the message that armed
it, in memory. -/
def Memory.endWake (how : WakeEnd) (mem : Memory) : Memory :=
  match mem.pendingWake with
  | none => mem
  | some ref =>
      { mem with
        pendingWake := none
        messages := mem.messages.map (fun e =>
          if e.ref = ref then
            { e with message := { e.message with wake := e.message.wake.map how.write } }
          else e) }

/-! ## Tools -/

/-- The outcome of a run. `attribution` is the text the metadata is shown as, `metadata` the
metadata less the wake, `wake` the wake the run asked for, as the scheduler settled it, and
`interrupt` the interrupt that stopped the run. -/
structure RunOutcome where
  ok : Bool
  detached : Bool
  bgId : Option String
  savedAs : Option String
  preview : Option String
  error : Option String
  note : Option String
  logs : Option String
  sends : List RecordedSend
  attribution : String
  metadata : String
  wake : Option RunWakeMetadata
  interrupt : Option ContextResourceInterrupt
deriving DecidableEq, Repr

/-- A part of a text that is left out when it is missing or empty. -/
def part (t : Option String) (show_ : String → String) : List String :=
  match t with
  | some t => if t = "" then [] else [show_ t]
  | none => []

def formatRunResult (o : RunOutcome) : String :=
  let head :=
    if o.ok then
      ["[run ok" ++ (if o.detached then " — detached as bg " ++ o.bgId.getD "?" else "") ++
        (match o.savedAs with | some t => " — value saved to " ++ t | none => "") ++
        (if o.attribution = "" then "" else " | " ++ o.attribution) ++ "]"] ++ part o.preview id
    else
      ["[run FAILED" ++ (if o.attribution = "" then "" else " | " ++ o.attribution) ++ "]"] ++
        part o.error id
  "\n".intercalate (head ++ part o.note id ++ part o.logs (fun t => "--- console ---\n" ++ t))

structure ToolOutput where
  content : String
  sends : List RecordedSend := []
  run : Option String := none
  wake : Option RunWakeMetadata := none
  contextResources : List ContextResourceDescriptor := []
deriving DecidableEq, Repr

/-- `isContextResourceInterrupt`, for an error of this process. -/
def Memory.authentic (mem : Memory) (i : ContextResourceInterrupt) : Bool :=
  decide (i ∈ mem.interrupts) && decide (i.resource.kind = .agents) &&
    decide (i.resource.key ≠ "") && decide (i.resource.display ≠ "") && isSha256 i.resource.version

/-- The result of a run that an interrupt has stopped. -/
def RunOutcome.stoppedBy (o : RunOutcome) (i : ContextResourceInterrupt) : RunOutcome :=
  { o with ok := false, detached := false, error := some i.message }

/-- A wake that is not armed. -/
def rejectWake (note : String) (w : RunWakeMetadata) : RunWakeMetadata :=
  { w with state := .rejected, targetAt := none, taskId := none, note := some note }

/-- The wake of a run: only the last call of a response, whose code has succeeded and is
not detached, can arm one. -/
def RunOutcome.settledWake (o : RunOutcome) (last : Bool) : Option RunWakeMetadata :=
  if !last then
    o.wake.map (rejectWake "wake not armed: only the final tool call in a response may yield")
  else if !o.ok then o.wake.map (rejectWake "wake not armed because code did not succeed")
  else if o.detached then
    o.wake.map (rejectWake "wake not armed because code detached before completion")
  else o.wake

/-- The output of a `run` call. -/
def runOutput (mem : Memory) (redact : String → String) (last : Bool) (o : RunOutcome) :
    ToolOutput :=
  match o.interrupt.filter mem.authentic with
  | some i =>
      { content := redact (formatRunResult (o.stoppedBy i)), run := some o.metadata,
        wake := (o.stoppedBy i).settledWake last, contextResources := [i.resource] }
  | none =>
      { content := redact (formatRunResult o), sends := o.sends, run := some o.metadata,
        wake := o.settledWake last }

/-- The output of a `skill` call, and the resources after it. -/
def skillOutput (deps : Deps) (files : Files) (redact : String → String) (arguments : String)
    (res : ContextResources) : ToolOutput × ContextResources :=
  match deps.namesOf arguments >>= fun names =>
      res.loadSkillContext deps.versionOf files names with
  | .ok (loaded, res') =>
      ({ content := redact loaded.content, contextResources := loaded.resources }, res')
  | .error message => ({ content := "[skill FAILED]\n" ++ redact message }, res)

/-- The failed outcome of a call for a tool that does not exist. -/
def unknownTool (name : String) : RunOutcome :=
  { ok := false, detached := false, bgId := none, savedAs := none, preview := none,
    error := some ("unknown tool: " ++ name ++
      " — available tools are skill(names), run(code), and think(thoughts)"),
    note := none, logs := none, sends := [], attribution := "", metadata := "", wake := none,
    interrupt := none }

/-- `skill` stands in a batch with other calls. -/
def invalidSkillBatch (batch : List ToolCall) : Bool :=
  batch.any (fun call => decide (call.name = "skill")) && decide (batch.length ≠ 1)

/-- The handler of a tool call. -/
def handleTool (deps : Deps) (files : Files) (redact : String → String) (mem : Memory)
    (call : ToolCall) (last : Bool) (o : RunOutcome) : ToolOutput × ContextResources :=
  if mem.batchRejected then
    ({ content := "[tool batch rejected: invalid resident provenance batch. No tool calls in this batch were executed.]" },
      mem.resources)
  else if invalidSkillBatch mem.batch then
    ({ content := "[skill load rejected: skill must be the only tool call in its response. No tool calls in this batch were executed. Call skill alone, inspect the returned instructions, then act in a later response.]" },
      mem.resources)
  else if call.name = "skill" then skillOutput deps files redact call.arguments mem.resources
  else if call.name = "think" then ({ content := "------" }, mem.resources)
  else if call.name ≠ "run" then
    ({ content := formatRunResult (unknownTool call.name) }, mem.resources)
  else (runOutput mem redact last o, mem.resources)

def toolMessage (call : ToolCall) (out : ToolOutput) : ChatMessage :=
  { role := .tool, toolCallId := some call.id, content := out.content, sends := out.sends,
    run := out.run, wake := out.wake, contextResources := out.contextResources }

def ToolOutput.arms (out : ToolOutput) : Bool :=
  decide (out.wake.map RunWakeMetadata.state = some .armed)

/-- A wake that is armed takes the place of the one before. -/
def Memory.supersede (out : ToolOutput) (mem : Memory) : Memory :=
  if out.arms then mem.endWake (.preempted "superseded by a newer run wake") else mem

/-- The result of a call is in the history as the object `ref`: its resources are
acknowledged, its wake is the pending one, and the next call is up. -/
def Memory.settleCall (out : ToolOutput) (ref : ℕ) (rest : List ToolCall) (mem : Memory) : Memory :=
  { mem with
    resources := mem.resources.acknowledge out.contextResources
    pendingWake := if out.arms then some ref else mem.pendingWake
    calls := rest }

/-- `dispatchKernelTools`, one call: its output is pushed, or it is discarded when the
context was cleared since. -/
def dispatchTool (deps : Deps) (o : RunOutcome) (redact : String → String) (channel : String) :
    Agent Unit := do
  let calls ← Crash.read (fun _ mem => mem.calls)
  match calls with
  | [] => pure ()
  | call :: rest => do
      let stale ← Crash.read (fun _ mem => decide (mem.callEpoch ≠ mem.epoch))
      if stale then
        Crash.modify (fun mem =>
          { mem with resources := mem.resources.discardPending, calls := rest })
      else do
        let handled ← Crash.read (fun d mem =>
          handleTool deps d.files redact mem call (decide (rest = [])) o)
        Crash.modify (fun mem => { mem with resources := handled.2 }.supersede handled.1)
        let ref ← Crash.read (fun _ mem => mem.nextRef)
        pushMessage (toolMessage call handled.1) channel
        Crash.modify (Memory.settleCall handled.1 ref rest)

/-- A file access of running code. -/
def accessFile (deps : Deps) (files : Files) (target : String)
    (agents : List ContextResources.AgentsFile) (mem : Memory) : Memory :=
  match mem.resources.beforeFileAccess deps.versionOf files target agents with
  | (.stopped i, resources) => { mem with resources, interrupts := mem.interrupts ++ [i] }
  | (_, resources) => { mem with resources }

/-! ## Compaction and clears -/

/-- The last message with more text. -/
def amendLast (text : String) : List Entry → List Entry
  | [] => []
  | [e] => [{ e with message := { e.message with content := e.message.content ++ text } }]
  | e :: rest => e :: amendLast text rest

/-- The notice of a compaction, with the reminder of resources under it. -/
def remind (reminder : Option String) (next : List Entry) : List Entry :=
  match reminder with
  | some text => amendLast ("\n\n" ++ text) next
  | none => next

/-- The memory after a compaction is applied: resources that survive in a message are
restored, the notice names those that do not, and the memories of people are made anew. -/
def Memory.compacted (deps : Deps) (files : Files) (profile : PersonIdentity → String)
    (compactor : CompactorState) (next : List Entry) (mem : Memory) : Memory :=
  let surviving := next.flatMap (fun e => e.message.contextResources)
  let taken := mem.resources.takeCompactionReminder deps.versionOf files surviving
  let fresh := mem.nextRef + next.length
  let refreshed := refreshPersonMemory profile fresh [] (remind taken.1 next)
  { mem with
    messages := refreshed
    nextRef := fresh + refreshed.length
    resources := taken.2
    compactor, profile
    injectedPeople := peopleIn (refreshed.map Entry.message) }

/-- The first half of `runCompactionCheckpoint`: a finished summary is swapped in, and the
transcript is written again. -/
def applyCheckpoint (deps : Deps) (profile : PersonIdentity → String) : Agent Unit := do
  let completed ← Crash.read (fun _ mem => hasCompletedResult mem.compactor)
  Crash.when (completed = true) do
    let (next, compactor) ← Crash.read (fun _ mem =>
      applyCompaction deps.compactor mem.nextRef mem.messages mem.compactor)
    match next with
    | none => Crash.modify (fun mem => { mem with compactor })
    | some next => do
        let files ← Crash.read (fun d _ => d.files)
        Crash.modify (Memory.compacted deps files profile compactor next)
        rewriteTranscript

/-- A message without the provider's own blocks. -/
def withoutThinking (m : ChatMessage) : ChatMessage :=
  { m with thinkingBlocks := [], reasoningItems := [] }

def clearThinking : Agent Unit := do
  Crash.modify (Memory.edit withoutThinking)
  rewriteTranscript

/-- The memory after a clear. Calls that are under way stay under way, in an epoch that
has passed. -/
def Memory.cleared (profile : PersonIdentity → String) (mem : Memory) : Memory :=
  { mem with
    epoch := mem.epoch + 1
    messages := []
    injectedPeople := []
    resources := mem.resources.resetContext
    compactor := reset mem.compactor
    profile }

def clearContext (profile : PersonIdentity → String) : Agent Unit := do
  rotateToSentinel
  Crash.modify (Memory.cleared profile)

/-! ## Restarts -/

/-- `\b` at a place of a list of code units. -/
def wordBoundary (us : List ℕ) (i : ℕ) : Bool :=
  let isWord := fun n : ℕ =>
    (decide (48 ≤ n) && decide (n ≤ 57)) || (decide (65 ≤ n) && decide (n ≤ 90)) ||
      decide (n = 95) || (decide (97 ≤ n) && decide (n ≤ 122))
  let before := if i = 0 then false else (us[i - 1]?.map isWord).getD false
  before != (us[i]?.map isWord).getD false

/-- A word stands at a place, letters of either case. -/
def occursAt (us : List ℕ) (word : String) (i : ℕ) : Bool :=
  let lower := fun n : ℕ => if 65 ≤ n ∧ n ≤ 90 then n + 32 else n
  (Js.codeUnits word).isPrefixOf ((us.drop i).map lower)

/-- The unit's name ends in a word boundary, with or without `.service`. -/
def namesHarness (us : List ℕ) (k : ℕ) : Bool :=
  wordBoundary us k && occursAt us "elpis-harness" k &&
    (wordBoundary us (k + 13) || (occursAt us ".service" (k + 13) && wordBoundary us (k + 21)))

/-- `looksLikeHarnessRestart`: `systemctl`, then `restart` or `start` as a word, then the
name of the unit, with at most 96 code units between each two. -/
def looksLikeHarnessRestart (code : String) : Bool :=
  let us := Js.codeUnits code
  (List.range (us.length + 1)).any (fun i =>
    occursAt us "systemctl" i &&
      (List.range 97).any (fun a =>
        ["restart", "start"].any (fun verb =>
          let j := i + 9 + a
          let after := j + (Js.codeUnits verb).length
          wordBoundary us j && occursAt us verb j && wordBoundary us after &&
            (List.range 97).any (fun b => namesHarness us (after + b)))))

/-- The result a recovered call gets. -/
def recoveredMessage (deps : Deps) (call : ToolCall) : ChatMessage :=
  { role := .tool, toolCallId := some call.id,
    content :=
      if looksLikeHarnessRestart (deps.codeOf call.arguments) then
        "[harness restarted successfully]"
      else "[tool call interrupted by harness restart]" }

def recoverInterruptedToolCall (deps : Deps) : Agent Unit := do
  let last ← Crash.read (fun _ mem => mem.messages.getLast?)
  match last with
  | none => pure ()
  | some last =>
      if last.message.role ≠ .assistant ∨ last.message.toolCalls = [] then pure ()
      else
        Crash.forEach (fun call =>
          Crash.when (call.name = "run")
            (pushMessage (recoveredMessage deps call) (last.message.channel.getD internalChannel)))
          last.message.toolCalls

/-- What a process starts with: its catalog of skills, the identity it may replay opaque
blocks to, and the people files. -/
structure Boot where
  skills : List SkillRecord
  trusts : Trust
  profile : PersonIdentity → String

def Memory.start (b : Boot) : Memory where
  messages := []
  nextRef := 0
  active := false
  trusts := b.trusts
  profile := b.profile
  injectedPeople := []
  consecutive400 := 0
  epoch := 0
  callEpoch := 0
  batch := []
  batchRejected := false
  calls := []
  pendingWake := none
  compactor := CompactorState.init
  resources := ContextResources.init b.skills
  interrupts := []

/-- Messages as objects, numbered from `fresh`. -/
def objects (fresh : ℕ) : List ChatMessage → List Entry
  | [] => []
  | m :: rest => ⟨fresh, m⟩ :: objects (fresh + 1) rest

/-- The history of a new process is the newest transcript; a file without messages is no
transcript, and is not continued. -/
def Memory.primed (deps : Deps) (d : Store) (mem : Memory) : Memory :=
  let messages := d.newest.map (parseChatMessage deps.readers mem.trusts)
  if messages = [] then mem
  else
    { mem with
      messages := objects mem.nextRef messages
      nextRef := mem.nextRef + messages.length
      active := true
      injectedPeople := peopleIn messages
      resources := messages.foldl
        (fun res m => res.restore deps.versionOf d.files m.contextResources) mem.resources }

/-- Restart priming, then `recoverInterruptedToolCall`. -/
def prime (deps : Deps) : Agent Unit := do
  let d ← Crash.read (fun d _ => d)
  Crash.modify (Memory.primed deps d)
  recoverInterruptedToolCall deps

/-! ## Actions -/

/-- What a living process may do. -/
inductive Action where
  | drain (m : Inbound)
  | nudge (content : String)
  | receipt (content : String) (sends : List RecordedSend)
  | reply (r : Response) (channel : String)
  | failed (failure : Failure)
  | toolSettled (o : RunOutcome) (redact : String → String) (channel : String)
  | accessFile (target : String) (agents : List ContextResources.AgentsFile)
  | endWake (how : WakeEnd)
  | startCompaction (ratio : Ratio)
  | settleSummary (run : ℕ) (outcome : Except String String)
  | applyCompaction (profile : PersonIdentity → String)
  | clearThinking
  | clearContext (profile : PersonIdentity → String)

/-- What the loop does between two turns waits until no call is under way. -/
def betweenTurns (x : Agent Unit) : Agent Unit := do
  let calls ← Crash.read (fun _ mem => mem.calls)
  Crash.when (calls = []) x

def Action.program (deps : Deps) : Action → Agent Unit
  | .drain m => betweenTurns (Resident.drain m)
  | .nudge content => betweenTurns (pushHarnessNudge content)
  | .receipt content sends => betweenTurns (pushReceipt content sends)
  | .reply r channel => betweenTurns (Resident.reply r channel)
  | .failed failure => betweenTurns (Crash.modify (failedCompletion failure))
  | .toolSettled o redact channel => dispatchTool deps o redact channel
  | .accessFile target agents => do
      let files ← Crash.read (fun d _ => d.files)
      Crash.modify (Resident.accessFile deps files target agents)
  | .endWake how => Crash.modify (Memory.endWake how)
  | .startCompaction ratio =>
      betweenTurns (Crash.modify (fun mem =>
        { mem with compactor := (Llm.start deps.compactor ratio mem.messages mem.compactor).2 }))
  | .settleSummary run outcome =>
      Crash.modify (fun mem => { mem with compactor := settle mem.compactor run outcome })
  | .applyCompaction profile => betweenTurns (applyCheckpoint deps profile)
  | .clearThinking => Resident.clearThinking
  | .clearContext profile => Resident.clearContext profile

/-! ## Runs -/

/-- The store, and the memory while a process lives. -/
structure State where
  store : Store
  memory : Option Memory

/-- A process starts or acts, and gets to the end of it or dies after some writes; a file
of a resource changes. -/
inductive Event where
  | boot (b : Boot)
  | bootDies (b : Boot) (writes : ℕ)
  | act (a : Action)
  | actDies (a : Action) (writes : ℕ)
  | edit (path : String) (content : Option String)

def step (deps : Deps) (s : State) : Event → State
  | .boot b =>
      match s.memory with
      | some _ => s
      | none =>
          let (store, memory) := Crash.completed (prime deps) s.store (Memory.start b)
          ⟨store, memory⟩
  | .bootDies b writes =>
      match s.memory with
      | some _ => s
      | none => ⟨Crash.diesAfter (prime deps) writes s.store (Memory.start b), none⟩
  | .act a =>
      match s.memory with
      | none => s
      | some mem =>
          let (store, memory) := Crash.completed (a.program deps) s.store mem
          ⟨store, memory⟩
  | .actDies a writes =>
      match s.memory with
      | none => s
      | some mem => ⟨Crash.diesAfter (a.program deps) writes s.store mem, none⟩
  | .edit path content =>
      { s with store := { s.store with files := Function.update s.store.files path content } }

/-- The first process is yet to start. -/
def State.init (files : Files) : State := ⟨⟨[], files⟩, none⟩

end Elpis.Resident
