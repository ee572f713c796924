import Mathlib
import Elpis.Js.Record
import Elpis.Llm.Message

/-!
# The metadata of a run

`src/sandbox/metadata.ts`: what the harness notes on the result of a run beside its text.
It is written with the message and read back by `parseRunMessageMetadata`, which keeps
what passes its checks and drops the rest: a field of its own, or a whole part where a
field that the part needs is wrong.
-/

namespace Elpis.RunMetadata

open Elpis.Js Elpis.Llm

def RUN_OPERATION_RECEIPT_MAX_COUNT : ℕ := 16
def RUN_OPERATION_COMMAND_MAX_BYTES : ℕ := 2048
def RUN_OPERATION_STREAM_MAX_BYTES : ℕ := 4096
def RUN_OPERATION_ERROR_MAX_BYTES : ℕ := 1024

/-! ## Records -/

inductive OperationKind where
  | shell | git | file | llm
deriving DecidableEq, Repr

inductive OperationState where
  | running | completed | failed
deriving DecidableEq, Repr

/-- `RunOperationReceipt`. A field that may be `null` or missing is an option of an
option. -/
@[ext] structure RunOperationReceipt where
  sequence : ℚ
  kind : OperationKind
  name : String
  command : String
  commandBytes : Option ℚ
  commandTruncated : Option Bool
  state : OperationState
  startedAt : ℚ
  durationMs : Option ℚ
  ok : Option Bool
  code : Option (Option ℚ)
  signal : Option (Option String)
  stdout : Option String
  stderr : Option String
  stdoutBytes : Option ℚ
  stderrBytes : Option ℚ
  stdoutTruncated : Option Bool
  stderrTruncated : Option Bool
  error : Option String
deriving DecidableEq, Repr

inductive ExecutionKind where
  | ephemeral | persistent
deriving DecidableEq, Repr

inductive ExecutionLifecycle where
  | ephemeral | ready | busy | detached | reset | retired
deriving DecidableEq, Repr

@[ext] structure SandboxExecutionMetadata where
  kind : ExecutionKind
  lifecycle : Option ExecutionLifecycle
  «alias» : Option String
  mindId : Option String
  mindTitle : Option String
  mindStatus : Option String
  latestComment : Option (Option String)
  executorId : Option String
  generation : Option ℚ
  resetGeneration : Option ℚ
  runId : Option String
  coldStart : Option Bool
  created : Option Bool
  retiring : Option Bool
  retirementDeadlineAt : Option ℚ
  retirementWarning : Option String
  statusReminder : Option Bool
  classifierReminder : Option Bool
deriving DecidableEq, Repr

inductive AdviceSource where
  | classifier | fallback
deriving DecidableEq, Repr

@[ext] structure WakeAdvice where
  source : AdviceSource
  delayMs : ℚ
  reason : String
deriving DecidableEq, Repr

@[ext] structure RunWakeMetadata where
  kind : WakeKind
  state : WakeState
  requestedAt : ℚ
  targetAt : Option ℚ
  taskId : Option ℚ
  note : Option String
  advice : Option WakeAdvice
deriving DecidableEq, Repr

inductive FailureKind where
  | preparse | runtime | context
deriving DecidableEq, Repr

@[ext] structure RunMessageMetadata where
  toolContractVersion : String
  ok : Bool
  detail : Option String
  failureKind : Option FailureKind
  execution : Option SandboxExecutionMetadata
  detached : Option Bool
  bgId : Option String
  wake : Option RunWakeMetadata
  operationReceipts : Option (List RunOperationReceipt)
  operationReceiptsDropped : Option ℚ
deriving DecidableEq, Repr

/-! ## Names -/

def operationKinds : Names OperationKind where
  all := [.shell, .git, .file, .llm]
  text
    | .shell => "shell"
    | .git => "git"
    | .file => "file"
    | .llm => "llm"
  found a := by cases a <;> decide

def operationStates : Names OperationState where
  all := [.running, .completed, .failed]
  text
    | .running => "running"
    | .completed => "completed"
    | .failed => "failed"
  found a := by cases a <;> decide

def executionKinds : Names ExecutionKind where
  all := [.ephemeral, .persistent]
  text
    | .ephemeral => "ephemeral"
    | .persistent => "persistent"
  found a := by cases a <;> decide

def executionLifecycles : Names ExecutionLifecycle where
  all := [.ephemeral, .ready, .busy, .detached, .reset, .retired]
  text
    | .ephemeral => "ephemeral"
    | .ready => "ready"
    | .busy => "busy"
    | .detached => "detached"
    | .reset => "reset"
    | .retired => "retired"
  found a := by cases a <;> decide

def adviceSources : Names AdviceSource where
  all := [.classifier, .fallback]
  text
    | .classifier => "classifier"
    | .fallback => "fallback"
  found a := by cases a <;> decide

def wakeKinds : Names WakeKind where
  all := [.after, .at, .auto]
  text
    | .after => "after"
    | .at => "at"
    | .auto => "auto"
  found a := by cases a <;> decide

def wakeStates : Names WakeState where
  all := [.armed, .elapsed, .rejected, .preempted, .fired]
  text
    | .armed => "armed"
    | .elapsed => "elapsed"
    | .rejected => "rejected"
    | .preempted => "preempted"
    | .fired => "fired"
  found a := by cases a <;> decide

def failureKinds : Names FailureKind where
  all := [.preparse, .runtime, .context]
  text
    | .preparse => "preparse"
    | .runtime => "runtime"
    | .context => "context"
  found a := by cases a <;> decide

/-! ## Field checks -/

def isBounded (max : ℕ) (s : String) : Bool := decide (0 < length s) && decide (length s ≤ max)

def boundedString (max : ℕ) : Value → Option String := textWhere (isBounded max)

def finiteInteger : Value → Option ℚ := numberWhere isSafeInteger

def isBoundedUtf8 (maxBytes : ℕ) (allowEmpty : Bool) (s : String) : Bool :=
  (allowEmpty || decide (0 < length s)) && decide (s.utf8ByteSize ≤ maxBytes)

def boundedUtf8String (maxBytes : ℕ) (allowEmpty : Bool) : Value → Option String :=
  textWhere (isBoundedUtf8 maxBytes allowEmpty)

/-- A count or a time of a receipt. -/
def isCount (q : ℚ) : Bool := isSafeInteger q && decide (0 ≤ q)

/-- `/[\r\n]/`. -/
def hasLineBreak (s : String) : Bool :=
  s.toList.any (fun c => decide (c = '\n') || decide (c = '\r'))

/-- The runs of white space of a text, which `split(/\s+/)` cuts at. -/
def spaceRuns : Bool → List Char → ℕ
  | _, [] => 0
  | inRun, c :: cs =>
      if isSpace c then (if inRun then 0 else 1) + spaceRuns true cs else spaceRuns false cs

/-- The check of a detail, before it is trimmed. -/
def isDetail (s : String) : Bool :=
  isBounded 120 s && !hasLineBreak s && decide (spaceRuns false (trim s).toList + 1 ≤ 10)

def readDetail (v : Value) : Option String := (textWhere isDetail v).map trim

/-- `mindId?.startsWith('elm-')` of a bounded string. -/
def isMindId (s : String) : Bool := isBounded 32 s && "elm-".toList.isPrefixOf s.toList

/-! ## Reading -/

/-- What a finished operation needs: its duration and its outcome, and no success where
it failed. -/
def settled (state : OperationState) (durationMs : Option ℚ) (ok : Option Bool) : Bool :=
  match state with
  | .running => true
  | .completed => durationMs.isSome && ok.isSome
  | .failed => durationMs.isSome && decide (ok = some false)

def parseOperationReceipt (source : Value) (expectedSequence : ℚ) : Option RunOperationReceipt := do
  let sequence ← source.read? "sequence" finiteInteger
  guard (sequence = expectedSequence)
  let kind ← source.read? "kind" operationKinds.read
  let name ← source.read? "name" (boundedUtf8String 64 false)
  let command ← source.read? "command" (boundedUtf8String RUN_OPERATION_COMMAND_MAX_BYTES true)
  let state ← source.read? "state" operationStates.read
  let startedAt ← source.read? "startedAt" (numberWhere isCount)
  let durationMs := source.read? "durationMs" (numberWhere isCount)
  let ok := source.read? "ok" JsonOf.bool?
  guard (settled state durationMs ok)
  return {
    sequence := expectedSequence, kind, name, command, state, startedAt, durationMs, ok
    commandBytes := source.read? "commandBytes" (numberWhere isCount)
    stdoutBytes := source.read? "stdoutBytes" (numberWhere isCount)
    stderrBytes := source.read? "stderrBytes" (numberWhere isCount)
    commandTruncated := source.read? "commandTruncated" JsonOf.bool?
    stdoutTruncated := source.read? "stdoutTruncated" JsonOf.bool?
    stderrTruncated := source.read? "stderrTruncated" JsonOf.bool?
    code := source.read? "code" (readNullable finiteInteger)
    signal := source.read? "signal" (readNullable (boundedUtf8String 64 false))
    stdout := source.read? "stdout" (boundedUtf8String RUN_OPERATION_STREAM_MAX_BYTES false)
    stderr := source.read? "stderr" (boundedUtf8String RUN_OPERATION_STREAM_MAX_BYTES false)
    error := source.read? "error" (boundedUtf8String RUN_OPERATION_ERROR_MAX_BYTES false) }

def parseExecution (source : Value) : Option SandboxExecutionMetadata := do
  let kind ← source.read? "kind" executionKinds.read
  return {
    kind
    lifecycle := source.read? "lifecycle" executionLifecycles.read
    «alias» := source.read? "alias" (boundedString 256)
    mindId := source.read? "mindId" (textWhere isMindId)
    mindTitle := source.read? "mindTitle" (boundedString 512)
    mindStatus := source.read? "mindStatus" (boundedString 64)
    latestComment := source.read? "latestComment" (readNullable (boundedString 512))
    executorId := source.read? "executorId" (boundedString 128)
    generation := source.read? "generation" finiteInteger
    resetGeneration := source.read? "resetGeneration" finiteInteger
    runId := source.read? "runId" (boundedString 256)
    retirementDeadlineAt := source.read? "retirementDeadlineAt" finiteInteger
    retirementWarning := source.read? "retirementWarning" (boundedString 512)
    coldStart := source.read? "coldStart" JsonOf.bool?
    created := source.read? "created" JsonOf.bool?
    retiring := source.read? "retiring" JsonOf.bool?
    statusReminder := source.read? "statusReminder" JsonOf.bool?
    classifierReminder := source.read? "classifierReminder" JsonOf.bool? }

/-- The bounds of the delay of an advice. -/
def isDelay (q : ℚ) : Bool := isSafeInteger q && decide (0 < q) && decide (q ≤ 60 * 60000)

def parseAdvice (source : Value) : Option WakeAdvice := do
  let reason ← source.read? "reason" (boundedString 64)
  let delayMs ← source.read? "delayMs" (numberWhere isDelay)
  let origin ← source.read? "source" adviceSources.read
  return { source := origin, delayMs, reason }

def parseWake (source : Value) : Option RunWakeMetadata := do
  let kind ← source.read? "kind" wakeKinds.read
  let state ← source.read? "state" wakeStates.read
  let requestedAt ← source.read? "requestedAt" finiteInteger
  return {
    kind, state, requestedAt
    targetAt := source.read? "targetAt" finiteInteger
    taskId := source.read? "taskId" finiteInteger
    note := source.read? "note" (boundedString 512)
    advice := source.read? "advice" parseAdvice }

/-- The receipts of a run: the first sixteen, all of them right, or none. -/
def parseReceipts (v : Value) : Option (List RunOperationReceipt) := do
  let receipts ← v.arr?
  (receipts.take RUN_OPERATION_RECEIPT_MAX_COUNT).zipIdx.mapM
    (fun e => parseOperationReceipt e.1 e.2)

def parseRunMessageMetadata (value : Value) : Option RunMessageMetadata := do
  let toolContractVersion ← value.read? "toolContractVersion" (boundedString 128)
  let ok ← value.read? "ok" JsonOf.bool?
  return {
    toolContractVersion, ok
    detail := value.read? "detail" readDetail
    failureKind := value.read? "failureKind" failureKinds.read
    detached := value.read? "detached" JsonOf.bool?
    bgId := value.read? "bgId" (boundedString 128)
    execution := value.read? "execution" parseExecution
    operationReceiptsDropped := value.read? "operationReceiptsDropped"
      (numberWhere (fun q => isSafeInteger q && decide (0 < q)))
    operationReceipts := value.read? "operationReceipts" parseReceipts
    wake := value.read? "wake" parseWake }

/-! ## Writing -/

/-- The fields that `JSON.stringify` writes of a receipt. -/
def RunOperationReceipt.members (r : RunOperationReceipt) : List (String × Option Value) :=
  [("sequence", some (.num r.sequence)), ("kind", some (operationKinds.write r.kind)),
    ("name", some (.str r.name)), ("command", some (.str r.command)),
    ("commandBytes", r.commandBytes.map .num), ("commandTruncated", r.commandTruncated.map .bool),
    ("state", some (operationStates.write r.state)), ("startedAt", some (.num r.startedAt)),
    ("durationMs", r.durationMs.map .num), ("ok", r.ok.map .bool),
    ("code", r.code.map (writeNullable .num)), ("signal", r.signal.map (writeNullable .str)),
    ("stdout", r.stdout.map .str), ("stderr", r.stderr.map .str),
    ("stdoutBytes", r.stdoutBytes.map .num), ("stderrBytes", r.stderrBytes.map .num),
    ("stdoutTruncated", r.stdoutTruncated.map .bool),
    ("stderrTruncated", r.stderrTruncated.map .bool), ("error", r.error.map .str)]

def SandboxExecutionMetadata.members (e : SandboxExecutionMetadata) :
    List (String × Option Value) :=
  [("kind", some (executionKinds.write e.kind)),
    ("lifecycle", e.lifecycle.map executionLifecycles.write), ("alias", e.«alias».map .str),
    ("mindId", e.mindId.map .str), ("mindTitle", e.mindTitle.map .str),
    ("mindStatus", e.mindStatus.map .str),
    ("latestComment", e.latestComment.map (writeNullable .str)),
    ("executorId", e.executorId.map .str), ("generation", e.generation.map .num),
    ("resetGeneration", e.resetGeneration.map .num), ("runId", e.runId.map .str),
    ("coldStart", e.coldStart.map .bool), ("created", e.created.map .bool),
    ("retiring", e.retiring.map .bool),
    ("retirementDeadlineAt", e.retirementDeadlineAt.map .num),
    ("retirementWarning", e.retirementWarning.map .str),
    ("statusReminder", e.statusReminder.map .bool),
    ("classifierReminder", e.classifierReminder.map .bool)]

def WakeAdvice.members (a : WakeAdvice) : List (String × Option Value) :=
  [("source", some (adviceSources.write a.source)), ("delayMs", some (.num a.delayMs)),
    ("reason", some (.str a.reason))]

def RunWakeMetadata.members (w : RunWakeMetadata) : List (String × Option Value) :=
  [("kind", some (wakeKinds.write w.kind)), ("state", some (wakeStates.write w.state)),
    ("requestedAt", some (.num w.requestedAt)), ("targetAt", w.targetAt.map .num),
    ("taskId", w.taskId.map .num), ("note", w.note.map .str),
    ("advice", w.advice.map (fun a => .object a.members))]

def RunMessageMetadata.members (r : RunMessageMetadata) : List (String × Option Value) :=
  [("toolContractVersion", some (.str r.toolContractVersion)), ("ok", some (.bool r.ok)),
    ("detail", r.detail.map .str), ("failureKind", r.failureKind.map failureKinds.write),
    ("execution", r.execution.map (fun e => .object e.members)),
    ("detached", r.detached.map .bool), ("bgId", r.bgId.map .str),
    ("wake", r.wake.map (fun w => .object w.members)),
    ("operationReceipts",
      r.operationReceipts.map (fun rs => .arr (rs.map (fun receipt => .object receipt.members)))),
    ("operationReceiptsDropped", r.operationReceiptsDropped.map .num)]

section Keys

theorem RunOperationReceipt.nodup (r : RunOperationReceipt) : (r.members.map Prod.fst).Nodup := by
  simp only [RunOperationReceipt.members, List.map]
  decide

theorem SandboxExecutionMetadata.nodup (e : SandboxExecutionMetadata) :
    (e.members.map Prod.fst).Nodup := by
  simp only [SandboxExecutionMetadata.members, List.map]
  decide

theorem WakeAdvice.nodup (a : WakeAdvice) : (a.members.map Prod.fst).Nodup := by
  simp only [WakeAdvice.members, List.map]
  decide

theorem RunWakeMetadata.nodup (w : RunWakeMetadata) : (w.members.map Prod.fst).Nodup := by
  simp only [RunWakeMetadata.members, List.map]
  decide

theorem RunMessageMetadata.nodup (r : RunMessageMetadata) : (r.members.map Prod.fst).Nodup := by
  simp only [RunMessageMetadata.members, List.map]
  decide

end Keys

/-! ## What comes back whole -/

/-- A receipt that is read back as it is. -/
@[mk_iff] structure RunOperationReceipt.Legible (r : RunOperationReceipt) : Prop where
  sequence : isSafeInteger r.sequence = true
  name : isBoundedUtf8 64 false r.name = true
  command : isBoundedUtf8 RUN_OPERATION_COMMAND_MAX_BYTES true r.command = true
  startedAt : isCount r.startedAt = true
  settled : settled r.state r.durationMs r.ok = true
  commandBytes : ∀ q ∈ r.commandBytes, isCount q = true
  durationMs : ∀ q ∈ r.durationMs, isCount q = true
  code : ∀ c ∈ r.code, c.all isSafeInteger = true
  signal : ∀ s ∈ r.signal, s.all (isBoundedUtf8 64 false) = true
  stdout : ∀ s ∈ r.stdout, isBoundedUtf8 RUN_OPERATION_STREAM_MAX_BYTES false s = true
  stderr : ∀ s ∈ r.stderr, isBoundedUtf8 RUN_OPERATION_STREAM_MAX_BYTES false s = true
  stdoutBytes : ∀ q ∈ r.stdoutBytes, isCount q = true
  stderrBytes : ∀ q ∈ r.stderrBytes, isCount q = true
  error : ∀ s ∈ r.error, isBoundedUtf8 RUN_OPERATION_ERROR_MAX_BYTES false s = true

@[mk_iff] structure SandboxExecutionMetadata.Legible (e : SandboxExecutionMetadata) : Prop where
  «alias» : ∀ s ∈ e.«alias», isBounded 256 s = true
  mindId : ∀ s ∈ e.mindId, isMindId s = true
  mindTitle : ∀ s ∈ e.mindTitle, isBounded 512 s = true
  mindStatus : ∀ s ∈ e.mindStatus, isBounded 64 s = true
  latestComment : ∀ s ∈ e.latestComment, s.all (isBounded 512) = true
  executorId : ∀ s ∈ e.executorId, isBounded 128 s = true
  generation : ∀ q ∈ e.generation, isSafeInteger q = true
  resetGeneration : ∀ q ∈ e.resetGeneration, isSafeInteger q = true
  runId : ∀ s ∈ e.runId, isBounded 256 s = true
  retirementDeadlineAt : ∀ q ∈ e.retirementDeadlineAt, isSafeInteger q = true
  retirementWarning : ∀ s ∈ e.retirementWarning, isBounded 512 s = true

/-- The texts of a wake are bounded, and its times are whole. -/
@[mk_iff] structure RunWakeMetadata.Legible (w : RunWakeMetadata) : Prop where
  requestedAt : isSafeInteger w.requestedAt = true
  targetAt : ∀ q ∈ w.targetAt, isSafeInteger q = true
  taskId : ∀ q ∈ w.taskId, isSafeInteger q = true
  note : ∀ s ∈ w.note, isBounded 512 s = true
  advice : ∀ a ∈ w.advice, isBounded 64 a.reason = true ∧ isDelay a.delayMs = true

/-- At most sixteen receipts, numbered from zero. -/
def ReceiptsLegible (rs : List RunOperationReceipt) : Prop :=
  rs.length ≤ RUN_OPERATION_RECEIPT_MAX_COUNT ∧
    ∀ e ∈ rs.zipIdx, e.1.sequence = (e.2 : ℚ) ∧ e.1.Legible

@[mk_iff] structure RunMessageMetadata.Legible (r : RunMessageMetadata) : Prop where
  toolContractVersion : isBounded 128 r.toolContractVersion = true
  detail : ∀ s ∈ r.detail, isDetail s = true ∧ trim s = s
  execution : ∀ e ∈ r.execution, e.Legible
  bgId : ∀ s ∈ r.bgId, isBounded 128 s = true
  wake : ∀ w ∈ r.wake, w.Legible
  operationReceipts : ∀ rs ∈ r.operationReceipts, ReceiptsLegible rs
  operationReceiptsDropped : ∀ q ∈ r.operationReceiptsDropped,
    (isSafeInteger q && decide (0 < q)) = true

theorem reads_bounded (max : ℕ) : Reads Value.str (boundedString max) (isBounded max) :=
  reads_text _

theorem reads_integer : Reads Value.num finiteInteger isSafeInteger := reads_number _

theorem reads_utf8 (maxBytes : ℕ) (allowEmpty : Bool) :
    Reads Value.str (boundedUtf8String maxBytes allowEmpty) (isBoundedUtf8 maxBytes allowEmpty) :=
  reads_text _

theorem parseOperationReceipt_eq_iff (r : RunOperationReceipt) (expectedSequence : ℚ) :
    parseOperationReceipt (.object r.members) expectedSequence = some r ↔
      r.sequence = expectedSequence ∧ r.Legible := by
  have hcode := (reads_integer.nullable (by simp)).optional
  have hsignal := ((reads_utf8 64 false).nullable (by simp)).optional
  have hkept : r.ok.filter (fun _ => true) = r.ok := filter_eq_self.mpr (fun _ _ => rfl)
  simp only [parseOperationReceipt, JsonOf.read?_object r.nodup]
  simp only [RunOperationReceipt.members, List.lookup, String.reduceBEq]
  simp only [Option.join_some, Option.bind_some, Option.bind_eq_bind, Names.read_write,
    reads_integer _, reads_utf8 _ _ _, reads_number _ _, (reads_utf8 _ _).optional,
    reads_bool.optional, (reads_number _).optional, hcode, hsignal, Option.bind_eq_some_iff]
  rw [RunOperationReceipt.legible_iff]
  constructor
  · intro h
    -- what is read agrees with the receipt field by field
    simp [RunOperationReceipt.ext_iff, filter_eq_self] at h
    obtain ⟨hsafe, hsequence, hname, hcommand, hstarted, hsettled, -, hbytes, hduration, hrest⟩ := h
    rw [hkept, filter_eq_self.mpr hduration] at hsettled
    exact ⟨hsequence, hsafe, hname, hcommand, hstarted, hsettled, hbytes, hduration, hrest⟩
  · rintro ⟨hsequence, hsafe, hname, hcommand, hstarted, hsettled, hbytes, hduration, hrest⟩
    rw [← hkept, ← filter_eq_self.mpr hduration] at hsettled
    simp [RunOperationReceipt.ext_iff, filter_eq_self]
    exact ⟨hsafe, hsequence, hname, hcommand, hstarted, hsettled, hsequence.symm, hbytes,
      hduration, hrest⟩

theorem parseReceipts_eq_iff (rs : List RunOperationReceipt) :
    parseReceipts (.arr (rs.map (fun receipt => .object receipt.members))) = some rs ↔
      ReceiptsLegible rs := by
  have hread : ((rs.map (fun receipt => JsonOf.object receipt.members)).zipIdx).mapM
      (fun e => parseOperationReceipt e.1 e.2) = some rs ↔
      ∀ e ∈ rs.zipIdx, e.1.sequence = (e.2 : ℚ) ∧ e.1.Legible := by
    have hmap := @mapM_zipIdx_eq_iff _ _ (fun r : RunOperationReceipt => JsonOf.object r.members)
      (fun v i => parseOperationReceipt v i) rs 0
    rw [hmap]
    exact forall₂_congr (fun e _ => parseOperationReceipt_eq_iff e.1 e.2)
  simp only [parseReceipts, JsonOf.arr?, Option.bind_eq_bind, Option.bind_some, ReceiptsLegible]
  by_cases hlength : rs.length ≤ RUN_OPERATION_RECEIPT_MAX_COUNT
  · rw [List.take_of_length_le (by rwa [List.length_map]), hread]
    exact (and_iff_right hlength).symm
  · -- a longer list comes back with its first sixteen receipts at most
    refine ⟨fun h => ?_, fun h => absurd h.1 hlength⟩
    have hle := mapM_length h
    simp only [List.length_zipIdx, List.length_take, List.length_map] at hle
    omega

theorem parseExecution_eq_iff (e : SandboxExecutionMetadata) :
    parseExecution (.object e.members) = some e ↔ e.Legible := by
  have hcomment := ((reads_bounded 512).nullable (by simp)).optional
  simp only [parseExecution, JsonOf.read?_object e.nodup]
  simp only [SandboxExecutionMetadata.members, List.lookup, String.reduceBEq]
  simp [SandboxExecutionMetadata.ext_iff, (Names.reads _).optional, reads_bool.optional,
    (reads_bounded _).optional, (reads_text _).optional, reads_integer.optional, hcomment,
    filter_eq_self, SandboxExecutionMetadata.legible_iff]

theorem parseAdvice_eq_iff (a : WakeAdvice) : parseAdvice (.object a.members) = some a ↔
    isBounded 64 a.reason = true ∧ isDelay a.delayMs = true := by
  simp only [parseAdvice, JsonOf.read?_object a.nodup]
  simp [WakeAdvice.members, List.lookup, reads_bounded _ _, reads_number _ _,
    Option.bind_eq_some_iff]

theorem parseWake_eq_iff (w : RunWakeMetadata) :
    parseWake (.object w.members) = some w ↔ w.Legible := by
  simp only [parseWake, JsonOf.read?_object w.nodup]
  simp only [RunWakeMetadata.members, List.lookup, String.reduceBEq]
  simp [RunWakeMetadata.ext_iff, Option.bind_eq_some_iff, reads_integer _, reads_integer.optional,
    (reads_bounded _).optional, optional_eq_iff, parseAdvice_eq_iff, filter_eq_self,
    RunWakeMetadata.legible_iff]

theorem readDetail_eq_iff (s : String) :
    readDetail (.str s) = some s ↔ isDetail s = true ∧ trim s = s := by
  rw [readDetail, reads_text isDetail s]
  cases isDetail s <;> simp

/-- **The round trip.** The metadata of a run comes back whole exactly when all of it is
within its bounds. -/
theorem parseRunMessageMetadata_eq_iff (r : RunMessageMetadata) :
    parseRunMessageMetadata (.object r.members) = some r ↔ r.Legible := by
  simp only [parseRunMessageMetadata, JsonOf.read?_object r.nodup]
  simp only [RunMessageMetadata.members, List.lookup, String.reduceBEq]
  simp [RunMessageMetadata.ext_iff, Option.bind_eq_some_iff, reads_bounded _ _,
    (reads_bounded _).optional, (Names.reads _).optional, reads_bool.optional,
    (reads_number _).optional, filter_eq_self, optional_eq_iff, readDetail_eq_iff,
    parseExecution_eq_iff, parseReceipts_eq_iff, parseWake_eq_iff, RunMessageMetadata.legible_iff]

end Elpis.RunMetadata
