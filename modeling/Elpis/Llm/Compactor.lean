import Elpis.Lib.Run
import Elpis.Llm.Message

/-!
# Compaction

`src/llm/compactor.ts` and the guarded summarizer of `src/llm/summarize.ts`. A start
fixes a boundary in the history as it stands, freezes what lies before it and asks for a
summary in the background. The summary lands whenever the model answers, after up to
three attempts; a checkpoint between two turns then swaps it in. Meanwhile the history
grows, a clear may reset everything, and an answer may come for a run that no longer
counts.

A run of the summarizer is a promise, so the state keeps the runs whose promise is still
open, each with the epoch it started in. Every event is one uninterrupted stretch of the
program: a call, or what happens when one attempt of an open run settles.
-/

namespace Elpis.Llm

open Elpis.Lib

/-! ## The boundary -/

/-- Walk back over the messages in `rev`, the newest first, until the estimates reach
`keepTokens`. The answer is the number of messages before the kept tail. -/
def walkBack (ratio : Ratio) (keepTokens : ℤ) : ℤ → List ChatMessage → ℕ
  | _, [] => 0
  | acc, m :: rest =>
      if keepTokens ≤ acc + estimateSentTokens m ratio then rest.length
      else walkBack ratio keepTokens (acc + estimateSentTokens m ratio) rest

def walkKeepBoundary (messages : List ChatMessage) (keepTokens : ℤ) (ratio : Ratio) : ℕ :=
  walkBack ratio keepTokens 0 messages.reverse

/-- `while (b < messages.length && messages[b].role === 'tool' && p(messages[b])) b++`. -/
def skipTools (p : ChatMessage → Bool) : List ChatMessage → ℕ → ℕ
  | [], b => b
  | m :: rest, b => if m.role = .tool ∧ p m = true then skipTools p rest (b + 1) else b

/-- The first step of `enforcePairIntegrity`: past the results of the assistant message
just before the boundary. -/
def skipOwnResults (messages : List ChatMessage) (b : ℕ) : ℕ :=
  if 0 < b ∧ b < messages.length then
    match messages[b - 1]? with
    | some before =>
        if before.role = .assistant ∧ before.toolCalls ≠ [] then
          skipTools (fun m => decide (m.toolCallId ∈ before.toolCalls.map (fun tc => some tc.id)))
            (messages.drop b) b
        else b
    | none => b
  else b

def enforcePairIntegrity (messages : List ChatMessage) (boundary : ℕ) : ℕ :=
  let b := skipOwnResults messages boundary
  skipTools (fun _ => true) (messages.drop b) b

/-! ## Rebuilt messages -/

/-- `SUMMARY_PREFIX`. -/
def summaryPrefix : String := "=== Summary of earlier conversation"

def summaryMessage (text : String) (replaced : ℕ) : ChatMessage :=
  { role := .system, channel := some "internal",
    content := summaryPrefix ++ " (" ++ toString replaced ++
      " earlier messages compacted) ===\n" ++ text }

/-- `CONTEXT_RESOURCE_EVICTED`. -/
def contextResourceEvicted : String :=
  "[context resource body removed at the compaction boundary; reload it only if the compaction notice says it is still relevant]"

/-- A message whose resource body is taken out. -/
def evicted (m : ChatMessage) : ChatMessage :=
  { m with content := contextResourceEvicted, contextResources := [] }

/-- `evictContextResourceBodies`: a copy in place of each message that carries a resource.
New objects are numbered from `fresh`. -/
def evictContextResourceBodies (fresh : ℕ) : List Entry → List Entry
  | [] => []
  | e :: rest =>
      (if e.message.contextResources ≠ [] then ⟨fresh, evicted e.message⟩ else e) ::
        evictContextResourceBodies (fresh + 1) rest

/-- `summaryFoldMessages`: what may become memory. -/
def summaryFoldMessages (messages : List ChatMessage) : List ChatMessage :=
  messages.filter (fun m =>
    decide (m.personContext.map PersonContext.kind ≠ some .memory) &&
      decide (m.contextResources = []))

def compactionNotice (replaced : ℕ) : ChatMessage :=
  { role := .user, channel := some "internal",
    content := "[harness: context compacted — " ++ toString replaced ++
      " earlier messages were folded into the summary at the top of your context. If you were mid-thread, skim that summary before continuing; anything not in it or in MEMORY.md is gone.]" }

/-! ## Configuration and state -/

/-- `SummaryInputBudget`. The estimator answers `none` for a value that is not a finite
non-negative number. -/
structure SummaryInputBudget where
  contextWindowTokens : ℕ
  outputReserveTokens : ℕ
  framingTokens : ℕ
  estimateTokens : String → Option ℕ

/-- `CompactorOpts`, the prompts it sends, and two functions that only make texts: the
serialized fold and the digest of a prefix. -/
structure CompactorConfig where
  keepTokens : ℤ
  summaryInputBudget : Option SummaryInputBudget
  summarizePrompt : String
  tailReminder : String
  serializeHistory : List ChatMessage → String
  prefixFingerprint : List ChatMessage → String

/-- A summarizer run whose promise is open. `attempts` counts the attempts made, the one
under way included. -/
structure OpenRun where
  id : ℕ
  startEpoch : ℕ
  minChars : ℕ
  attempts : ℕ
deriving DecidableEq, Repr

structure CompactorState where
  boundaryIndex : ℕ
  startedLength : ℕ
  frozenPrefix : List ℕ
  frozenPrefixFingerprint : String
  resultSummary : Option String
  running : Bool
  lastError : Option String
  epoch : ℕ
  openRuns : List OpenRun
  /-- How many runs were started. -/
  started : ℕ
deriving DecidableEq, Repr

def CompactorState.init : CompactorState :=
  ⟨0, 0, [], "", none, false, none, 0, [], 0⟩

inductive CompactionStartResult where
  | started
  | busy
  | skipped
  | rejected (error : String)
deriving DecidableEq, Repr

/-! ## The guarded summarizer -/

/-- `retries: 3`. -/
def maxAttempts : ℕ := 3

def validateInput (cfg : CompactorConfig) (input : String) : Except String Unit :=
  match cfg.summaryInputBudget with
  | none => .ok ()
  | some budget =>
      match budget.estimateTokens cfg.summarizePrompt, budget.estimateTokens input with
      | some systemEstimate, some userEstimate =>
          let estimatedInputTokens := systemEstimate + userEstimate + budget.framingTokens
          if budget.contextWindowTokens < estimatedInputTokens + budget.outputReserveTokens then
            .error ("estimated summary request exceeds selected-model context budget " ++
              "(estimated_input_tokens=" ++ toString estimatedInputTokens ++ ", " ++
              "output_reserve_tokens=" ++ toString budget.outputReserveTokens ++ ", " ++
              "context_window_tokens=" ++ toString budget.contextWindowTokens ++ "); " ++
              "token counts are estimates, not exact tokenizer guarantees")
          else .ok ()
      | _, _ =>
          .error "summary input token estimator returned a non-finite or negative estimate"

/-- `summarizer.start`, for a summarizer that is not running. -/
def startSummarizer (cfg : CompactorConfig) (input : String) (minChars : ℕ)
    (s : CompactorState) : CompactionStartResult × CompactorState :=
  match validateInput cfg input with
  | .error error => (.rejected error, { s with lastError := some error })
  | .ok () =>
      (.started,
        { s with lastError := none, running := true, started := s.started + 1,
                 openRuns := s.openRuns ++ [⟨s.started, s.epoch, minChars, 1⟩] })

/-- Take the run out: its promise has settled. -/
def CompactorState.close (s : CompactorState) (id : ℕ) : CompactorState :=
  { s with openRuns := s.openRuns.filter (fun r => decide (r.id ≠ id)) }

/-- An attempt failed. The run makes another one while it has attempts left. -/
def failAttempt (s : CompactorState) (r : OpenRun) (error : String) : CompactorState :=
  if r.startEpoch ≠ s.epoch then s.close r.id
  else if r.attempts < maxAttempts then
    { s with lastError := some error,
             openRuns := s.openRuns.map (fun x =>
               if x.id = r.id then { x with attempts := x.attempts + 1 } else x) }
  else { s.close r.id with lastError := some error, running := false }

/-- What the loop of a run does when its attempt settles with `outcome`: a summary, or the
message of the error the model call threw (a timeout is one). -/
def settleAttempt (s : CompactorState) (r : OpenRun) (outcome : Except String String) :
    CompactorState :=
  match outcome with
  | .error error => failAttempt s r error
  | .ok summary =>
      if Js.length summary < r.minChars then
        failAttempt s r ("summary rejected: " ++ toString (Js.length summary) ++ " chars < " ++
          toString r.minChars ++ " floor (attempt " ++ toString r.attempts ++ "/" ++
          toString maxAttempts ++ ")")
      else if r.startEpoch ≠ s.epoch then s.close r.id
      else
        { s.close r.id with lastError := none, resultSummary := some summary, running := false }

/-- The attempt of the open run `id` settles; no such run is no event. -/
def settle (s : CompactorState) (id : ℕ) (outcome : Except String String) : CompactorState :=
  match s.openRuns.find? (fun r => decide (r.id = id)) with
  | some r => settleAttempt s r outcome
  | none => s

/-! ## The compactor -/

def CompactorConfig.boundary (cfg : CompactorConfig) (messages : List ChatMessage)
    (ratio : Ratio) : ℕ :=
  enforcePairIntegrity messages (walkKeepBoundary messages cfg.keepTokens ratio)

/-- The head, when it is the summary of an earlier compaction. -/
def priorSummary (messages : List ChatMessage) : Option String :=
  match messages with
  | head :: _ =>
      if head.role = .system ∧ summaryPrefix.toList.isPrefixOf head.content.toList then
        some head.content
      else none
  | [] => none

def foldSlice (messages : List ChatMessage) (boundary : ℕ) : List ChatMessage :=
  let foldStart := if (priorSummary messages).isSome then 1 else 0
  summaryFoldMessages ((messages.take boundary).drop foldStart)

def foldInput (cfg : CompactorConfig) (messages : List ChatMessage) (boundary : ℕ) : String :=
  let recent := cfg.serializeHistory (foldSlice messages boundary)
  let body := match priorSummary messages with
    | some prior =>
        "=== EARLIER MEMORY (a previous compaction summary — integrate and condense; older detail may blur, but people-facts and promises must not vanish) ===\n" ++
          prior ++ "\n\n=== RECENT CONVERSATION TO FOLD IN ===\n" ++ recent
    | none => recent
  body ++ "\n\n" ++ cfg.tailReminder

/-- What an admitted or rejected start records: the boundary and the prefix before it. -/
def CompactorState.record (cfg : CompactorConfig) (ratio : Ratio) (history : List Entry)
    (s : CompactorState) : CompactorState :=
  let messages := history.map Entry.message
  let boundary := cfg.boundary messages ratio
  { s with boundaryIndex := boundary, resultSummary := none, startedLength := history.length,
           frozenPrefix := (history.take boundary).map Entry.ref,
           frozenPrefixFingerprint := cfg.prefixFingerprint (messages.take boundary) }

/-- `start`. `ratio` is what the getter answers at the call. -/
def start (cfg : CompactorConfig) (ratio : Ratio) (history : List Entry) (s : CompactorState) :
    CompactionStartResult × CompactorState :=
  let messages := history.map Entry.message
  if s.running then (.busy, s)
  else
    let boundary := cfg.boundary messages ratio
    let fold := foldSlice messages boundary
    if fold = [] then (.skipped, { s with boundaryIndex := 0 })
    else
      startSummarizer cfg (foldInput cfg messages boundary) (min 2000 (10 * fold.length))
        (s.record cfg ratio history)

def hasCompletedResult (s : CompactorState) : Bool := !s.running && s.resultSummary.isSome

/-- The state after a result was used or thrown away. -/
def CompactorState.forget (s : CompactorState) : CompactorState :=
  { s with boundaryIndex := 0, startedLength := 0, frozenPrefix := [],
           frozenPrefixFingerprint := "", resultSummary := none }

/-- The objects before the boundary are the ones the start froze, and hold what they held. -/
def prefixMatches (cfg : CompactorConfig) (s : CompactorState) (history : List Entry) : Bool :=
  decide (s.frozenPrefix.length = s.boundaryIndex) &&
    decide ((history.take s.frozenPrefix.length).map Entry.ref = s.frozenPrefix) &&
    decide (s.frozenPrefixFingerprint =
      cfg.prefixFingerprint ((history.take s.boundaryIndex).map Entry.message))

/-- The rebuilt history: the summary, the old tail without resource bodies, what was
appended since the start, and the notice. -/
def rebuilt (fresh boundary startedLength : ℕ) (summary : String) (history : List Entry) :
    List Entry :=
  let oldTailEnd := min startedLength history.length
  let oldTail := (history.take oldTailEnd).drop boundary
  let kept := evictContextResourceBodies (fresh + 1) oldTail ++ history.drop oldTailEnd
  ⟨fresh, summaryMessage summary boundary⟩ :: kept ++
    [⟨fresh + 1 + oldTail.length, compactionNotice boundary⟩]

/-- `applyCompaction`. `none` is the array it was given, untouched. New objects are
numbered from `fresh`. -/
def applyCompaction (cfg : CompactorConfig) (fresh : ℕ) (history : List Entry)
    (s : CompactorState) : Option (List Entry) × CompactorState :=
  match s.resultSummary with
  | none => (none, s)
  | some summary =>
      if prefixMatches cfg s history then
        (some (rebuilt fresh s.boundaryIndex s.startedLength summary history), s.forget)
      else (none, s.forget)

def reset (s : CompactorState) : CompactorState :=
  { s.forget with epoch := s.epoch + 1, running := false, lastError := none }

/-! ## Events -/

inductive CompactorEvent where
  | start (ratio : Ratio) (history : List Entry)
  | settle (run : ℕ) (outcome : Except String String)
  | apply (fresh : ℕ) (history : List Entry)
  | reset

def step (cfg : CompactorConfig) (s : CompactorState) : CompactorEvent → CompactorState
  | .start ratio history => (start cfg ratio history s).2
  | .settle run outcome => settle s run outcome
  | .apply fresh history => (applyCompaction cfg fresh history s).2
  | .reset => reset s

end Elpis.Llm
