import Elpis.Js.Text
import Elpis.Kernel.Journal
import Elpis.Lib.Effect
import Mathlib.Data.List.Sort

/-!
# The worker episode

`WorkerEpisode.run` of `src/kernel/worker-episode.ts` with the turn of
`src/kernel/turn.ts`. The episode is a program that writes journal records and asks
the outside: the broker, the sandbox, the clock, the abort signal. A process may end
after any of these; the next one opens the file and runs the episode again.
-/

namespace Elpis.Kernel

open Elpis.Lib

/-! ## The outside -/

/-- `dependencies` and `comments` are what `JSON.stringify` makes of the two lists. -/
structure WorkerMandate where
  id : String
  title : String
  body : String
  status : String
  dependencies : String
  comments : String

structure WorkerGuidance where
  id : ℤ
  sender : String
  body : String
deriving DecidableEq

/-- `json` is what `JSON.stringify` makes of the whole result. -/
structure WorkerRunResult where
  detached : Bool
  json : String

inductive Request where
  /-- Is the signal aborted? -/
  | aborted
  | now
  | getMandate
  | pullGuidance
  | acknowledgeGuidance (ids : List ℤ)
  | complete (messages : List ChatMessage)
  | run (code : String)
  | beforeFinish (key body : String)
  | finish (key body : String)
deriving DecidableEq

/-- An awaited call may be rejected. Of a completion, the episode looks at the message. -/
abbrev Reply : Request → Type
  | .aborted => Bool
  | .now => ℤ
  | .getMandate => Except String WorkerMandate
  | .pullGuidance => Except String (List WorkerGuidance)
  | .complete _ => Except String ChatMessage
  | .run _ => Except String WorkerRunResult
  | .acknowledgeGuidance _ | .beforeFinish _ _ | .finish _ _ => Except String Unit

abbrev EpisodeEvent := Event WorkerJournalRecord Request Reply

inductive WorkerEpisodeErrorCode where
  | ambiguousTool | emptyFinish | messageLimit | turnLimit
deriving DecidableEq, Repr

inductive WorkerEpisodeError where
  | episode (code : WorkerEpisodeErrorCode) (message : String)
  /-- An error of the outside, of the journal or of an argument. -/
  | other (message : String)

def WorkerEpisodeError.message : WorkerEpisodeError → String
  | .episode _ message => message
  | .other message => message

/-! ## The memory of a process -/

structure Memory where
  journal : WorkerJournalState
  messages : List ChatMessage
  preparedRuns : List String

abbrev EpisodeM := Proc Memory WorkerJournalRecord Request Reply WorkerEpisodeError

/-- Throw what an awaited call was rejected with. -/
def rethrow {α : Type} (x : Except String α) : EpisodeM α :=
  Proc.ofExcept (x.mapError WorkerEpisodeError.other)

def appendEntry : Option WorkerJournalRecord → EpisodeM Unit
  | some r => Proc.append r
  | none => pure ()

/-- Call a method of the journal. -/
def journal {α : Type} (method : WorkerJournalState → Except String (Written α)) :
    EpisodeM α := do
  let st ← Proc.read Memory.journal
  let w ← rethrow (method st)
  appendEntry w.entry
  Proc.modify (fun m => { m with journal := w.next })
  pure w.result

/-- `messages.push(…)`. -/
def push (messages : List ChatMessage) : EpisodeM Unit :=
  Proc.modify (fun m => { m with messages := m.messages ++ messages })

/-! ## Messages -/

def workerSystemPrompt : String :=
  "You are an ephemeral Elpis worker executing one bounded delegated task.\n" ++
    "Your original mandate is the linked Mind item supplied below. It is the only original " ++
    "prompt.\n" ++
    "You have task-local transcript and workspace continuity, not resident identity, SOUL, " ++
    "autobiographical MEMORY, people history, Discord, Scheduler, or autonomous wake " ++
    "machinery.\n" ++
    "When source is supplied, the workspace is a tracked-file archive without Git metadata or" ++
    " commit history. Missing .git is expected, not evidence that source checkout failed. The" ++
    " dispatcher supplies source provenance; inspect the files directly. For an exact-" ++
    "checkpoint review, use the supplied exact diff or comparison baseline and report any " ++
    "missing comparison evidence. Do not create a Git repository to manufacture ancestry. The" ++
    " harness exports your final workspace patch automatically; a worker Git commit is not " ++
    "required.\n" ++
    "Use run for concrete work in your isolated workspace. Continue until the mandate is " ++
    "complete, then answer with a concise result for the dispatcher."

def mandateMessage (mandate : WorkerMandate) : ChatMessage :=
  ⟨.user, "<worker-mandate id=" ++ Js.stringify mandate.id ++ " status=" ++
    Js.stringify mandate.status ++ ">\n<title>" ++ mandate.title ++ "</title>\n<body>" ++
    mandate.body ++ "</body>\n<dependencies>" ++ mandate.dependencies ++
    "</dependencies>\n<comments>" ++ mandate.comments ++ "</comments>\n</worker-mandate>", [], none⟩

def guidanceMessage (guidance : WorkerGuidance) : ChatMessage :=
  ⟨.user, "<worker-guidance sender=" ++ Js.stringify guidance.sender ++ ">" ++ guidance.body ++
    "</worker-guidance>", [], none⟩

/-! ## Tool arguments -/

/-- What `JSON.parse` gives, as far as the arguments are looked at. -/
inductive Json where
  | text (s : String)
  | object (fields : List (String × Json))
  | other

structure EpisodeConfig where
  /-- `JSON.parse`, with the message of the error it throws. -/
  parse : String → Except String Json
  /-- `createHash('sha256')…digest('hex')`. -/
  sha256 : String → String
  hasBeforeFinish : Bool
  maxTurns : ℕ
  maxMessages : ℕ

def parseObject (cfg : EpisodeConfig) (raw : String) : Except String (List (String × Json)) :=
  match cfg.parse raw with
  | .error e => .error e
  | .ok (.object fields) => .ok fields
  | .ok _ => .error "tool arguments must be an object"

def exactKeys (value : List (String × Json)) (expected : List String) : Except String Unit :=
  let wanted := expected.insertionSort (· ≤ ·)
  if (value.map Prod.fst).insertionSort (· ≤ ·) = wanted then .ok ()
  else .error ("tool arguments must contain exactly " ++ ", ".intercalate wanted)

/-- The string under a key. -/
def textField (value : List (String × Json)) (key : String) : Option String :=
  match value.lookup key with
  | some (.text s) => some s
  | _ => none

/-- `value.trim().split(/\s+/).filter(Boolean)`, counted. -/
def wordCount (s : String) : ℕ := ((s.toList.splitOnP Js.isSpace).filter (· ≠ [])).length

/-- `runArguments`; the episode goes on with the code. -/
def runArguments (cfg : EpisodeConfig) (raw : String) : Except String String := do
  let value ← parseObject cfg raw
  exactKeys value ["code", "detail"]
  match (textField value "code").filter (· ≠ "") with
  | none => .error "run.code must be a non-empty string"
  | some code =>
      match (textField value "detail").filter
          (fun detail => decide ('\n' ∉ detail.toList) && decide (Js.length detail ≤ 120)) with
      | none => .error "run.detail must be one line of at most 120 characters"
      | some detail =>
          if wordCount detail < 1 ∨ 10 < wordCount detail then
            .error "run.detail must contain 1 to 10 words"
          else .ok code

def thinkArguments (cfg : EpisodeConfig) (raw : String) : Except String Unit := do
  let value ← parseObject cfg raw
  exactKeys value ["thoughts"]
  match (textField value "thoughts").filter (fun thoughts => decide (Js.trim thoughts ≠ "")) with
  | none => .error "think.thoughts must be a non-empty string"
  | some _ => .ok ()

def toolError (error : WorkerEpisodeError) : String :=
  "\x7b\"ok\":false,\"error\":" ++ Js.stringify error.message ++ "\x7d"

def finishKey (cfg : EpisodeConfig) (body : String) : String :=
  "worker-finish-" ++ Js.slice (cfg.sha256 body) 24

/-! ## One turn -/

/-- The `try` of the tool handler. -/
def tryTool (cfg : EpisodeConfig) (call : ToolCall) : EpisodeM String :=
  if call.name = "think" then do
    rethrow (thinkArguments cfg call.arguments)
    pure "\x7b\"ok\":true,\"recorded\":true\x7d"
  else if call.name ≠ "run" then
    Proc.throw (.other ("unsupported worker tool " ++ call.name))
  else do
    let code ← rethrow (runArguments cfg call.arguments)
    -- the clock that `prepareTool` reads
    let preparedAt ← Proc.ask .now
    journal (fun st => WorkerJournal.prepareTool st call preparedAt)
    Proc.modify (fun m => { m with
      preparedRuns := if call.id ∈ m.preparedRuns then m.preparedRuns
        else m.preparedRuns ++ [call.id] })
    let reply ← Proc.ask (.run code)
    let result ← rethrow reply
    if result.detached then
      Proc.throw (.other "worker tool detached before completion; effect outcome is ambiguous")
    else pure result.json

/-- The tool handler: after its preparation a call has no error result. -/
def handleTool (cfg : EpisodeConfig) (call : ToolCall) : EpisodeM String := do
  let tried ← Proc.attempt (tryTool cfg call)
  match tried with
  | .ok content => pure content
  | .error e => do
      let prepared ← Proc.read (fun m => decide (call.id ∈ m.preparedRuns))
      if prepared then Proc.throw e else pure (toolError e)

def appendAssistant (message : ChatMessage) : EpisodeM Unit := do
  journal (fun st => WorkerJournal.appendMessage st message)
  push [message]

def appendTool (callId : String) (message : ChatMessage) : EpisodeM Unit := do
  if callId = "" then Proc.throw (.other "worker tool result has no call id")
  else do
    let prepared ← Proc.read (fun m => decide (callId ∈ m.preparedRuns))
    Proc.modify (fun m => { m with preparedRuns := m.preparedRuns.filter (· ≠ callId) })
    if prepared then journal (fun st => WorkerJournal.completeTool st callId message)
    else journal (fun st => WorkerJournal.appendMessage st message)
    push [message]

/-- The body of the loop of `dispatchKernelTools`. -/
def dispatchTool (cfg : EpisodeConfig) (call : ToolCall) : EpisodeM Unit := do
  let content ← handleTool cfg call
  appendTool call.id ⟨.tool, content, [], some call.id⟩

/-- `applyKernelTurn`; returns `shouldContinue`. -/
def applyKernelTurn (cfg : EpisodeConfig) (assistant : ChatMessage) : EpisodeM Bool := do
  if assistant.role ≠ .assistant then
    Proc.throw (.other "kernel turn requires an assistant message")
  else do
    appendAssistant assistant
    Proc.forEach (dispatchTool cfg) assistant.toolCalls
    pure (decide (assistant.toolCalls ≠ []))

/-! ## The episode -/

structure WorkerEpisodeResult where
  body : String
  finishKey : String
  turns : ℕ
  resumed : Bool

def throwIfAborted : EpisodeM Unit := do
  let aborted ← Proc.ask .aborted
  Proc.when (aborted = true) (Proc.throw (.other "This operation was aborted"))

/-- One entry of the guidance loop. -/
def takeGuidance (entry : WorkerGuidance) : EpisodeM Unit := do
  let fresh ← journal (fun st => WorkerJournal.appendGuidance st entry.id (guidanceMessage entry))
  Proc.when (fresh = true) (push [guidanceMessage entry])

/-- Pull guidance, keep it, and only then acknowledge it. -/
def pullAll : EpisodeM Unit := do
  let reply ← Proc.ask .pullGuidance
  let guidance ← rethrow reply
  Proc.forEach takeGuidance guidance
  Proc.when (guidance ≠ []) (do
    let reply ← Proc.ask (.acknowledgeGuidance (guidance.map WorkerGuidance.id))
    rethrow reply)

/-- `broker.finish` and then the record of it. -/
def postFinish (key body : String) : EpisodeM Unit := do
  let reply ← Proc.ask (.finish key body)
  rethrow reply
  journal (fun st => WorkerJournal.completeFinish st key body)

/-- The end of a turn without tool calls. -/
def finishEpisode (cfg : EpisodeConfig) (content : String) (turns : ℕ) (resumed : Bool) :
    EpisodeM WorkerEpisodeResult := do
  let body := Js.trim content
  if body = "" then Proc.throw (.episode .emptyFinish "worker ended without a finish body")
  else do
    let key := finishKey cfg body
    Proc.when (cfg.hasBeforeFinish = true) (do
      let reply ← Proc.ask (.beforeFinish key body)
      rethrow reply)
    journal (fun st => WorkerJournal.prepareFinish st key body)
    postFinish key body
    pure ⟨body, key, turns, resumed⟩

/-- The turns that are left. -/
def turnLoop (cfg : EpisodeConfig) (resumed : Bool) : ℕ → EpisodeM WorkerEpisodeResult
  | 0 => Proc.throw (.episode .turnLimit
      ("worker episode exceeded " ++ toString cfg.maxTurns ++ " model turns"))
  | left + 1 => do
      throwIfAborted
      pullAll
      let messages ← Proc.read Memory.messages
      if cfg.maxMessages < messages.length then
        Proc.throw (.episode .messageLimit
          ("worker episode exceeded " ++ toString cfg.maxMessages ++ " messages"))
      else do
        let reply ← Proc.ask (.complete messages)
        let message ← rethrow reply
        Proc.modify (fun m => { m with preparedRuns := [] })
        let shouldContinue ← applyKernelTurn cfg message
        if shouldContinue then turnLoop cfg resumed left
        else finishEpisode cfg message.content (cfg.maxTurns - left) resumed

/-- The first messages of an episode. -/
def openEpisode : EpisodeM Unit := do
  throwIfAborted
  let reply ← Proc.ask .getMandate
  let mandate ← rethrow reply
  let system : ChatMessage := ⟨.system, workerSystemPrompt, [], none⟩
  journal (fun st => WorkerJournal.initializeWith st [system, mandateMessage mandate])
  push [system, mandateMessage mandate]

/-- `WorkerEpisode.run`. -/
def runEpisode (cfg : EpisodeConfig) : EpisodeM WorkerEpisodeResult := do
  let initial ← Proc.read Memory.journal
  if initial.pendingTools ≠ [] then
    Proc.throw (.episode .ambiguousTool
      ("worker journal has prepared tools without completion: " ++
        ", ".intercalate (initial.pendingTools.map Prod.fst)))
  else
    match initial.finished, initial.pendingFinish with
    | some done, _ => pure ⟨done.body, done.key, 0, true⟩
    | none, some pending => do
        postFinish pending.key pending.body
        pure ⟨pending.body, pending.key, 0, true⟩
    | none, none => do
        Proc.modify (fun m => { m with messages := initial.messages })
        Proc.when (initial.messages = []) openEpisode
        turnLoop cfg (decide (initial.messages ≠ [])) cfg.maxTurns

/-! ## Processes -/

/-- The records in a list of events: the file. -/
def recordsOf (events : List EpisodeEvent) : List WorkerJournalRecord :=
  events.filterMap (fun
    | .wrote r => some r
    | _ => none)

/-- A process: what the outside answers it, and after how many events it ends. -/
structure Incarnation where
  oracle : Oracle Reply
  crash : ℕ

/-- What a process does that opens the file after `events`. A file that cannot be read
lets no episode begin. -/
def incarnation (cfg : EpisodeConfig) (events : List EpisodeEvent) (p : Incarnation) :
    List EpisodeEvent :=
  match reduce (recordsOf events) with
  | .error _ => []
  | .ok st => .opened :: ((runEpisode cfg ⟨st, [], []⟩).trace p.oracle 0).take p.crash

/-- Processes one after the other over one file. -/
def history (cfg : EpisodeConfig) (ps : List Incarnation) : List EpisodeEvent :=
  run (fun events p => events ++ incarnation cfg events p) [] ps

end Elpis.Kernel
