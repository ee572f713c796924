import Elpis.Kernel.Provenance
import Elpis.Llm.Provenance
import Elpis.Resident.Transcript
import Elpis.Sandbox.Metadata

/-!
# Lines of the transcript

`src/store/sessions.ts`: a message is appended to the transcript as a line of JSON, and a
restart parses the lines again. `parseChatMessage` builds a new message and admits one
field after the other into it, so a field that it does not know of is lost. A line is kept
as the value that `JSON.parse` makes of it.
-/

namespace Elpis.Store

open Elpis.Js
open Elpis.Kernel (Role ToolCall)
open Elpis.Kernel.Provenance (Slot Scalar RecordedResidentToolBatch parseRecordedResidentToolBatch)
open Elpis.Llm (PersonKind PersonContext ResourceKind ContextResourceDescriptor VoiceStatus)
open Elpis.Provenance (UrlClass ReplayIdentity GenerationProvenance parseGenerationProvenance
  isTrustedOpaqueReplay)
open Elpis.Resident (isBoundedId isSha256 isSnowflake descriptorBounded)
open Elpis.RunMetadata (RunMessageMetadata isBounded boundedString parseRunMessageMetadata)

/-! ## Messages -/

inductive SignalStatus where
  | accepted
deriving DecidableEq, Repr

structure SignalDelivery where
  status : SignalStatus
deriving DecidableEq, Repr

@[ext] structure VoiceDelivery where
  status : VoiceStatus
  transcript : String
  playedMs : ℚ
deriving DecidableEq, Repr

/-- A recorded `channel().send()`. -/
@[ext] structure RecordedSend where
  channel : String
  text : String
  replyTo : Option String
  mentions : Option Bool
  voice : Option VoiceDelivery
  signal : Option SignalDelivery
deriving DecidableEq, Repr

/-- `ChatMessage` as it is appended: without the image parts of an ephemeral message. The
opaque items and blocks of a provider are kept as they came. -/
@[ext] structure ChatMessage where
  role : Role
  content : String
  reasoningContent : Option String := none
  reasoningItems : Option (List Value) := none
  thinkingBlocks : Option (List Value) := none
  toolCalls : Option (List ToolCall) := none
  residentToolBatch : Option RecordedResidentToolBatch := none
  toolCallId : Option String := none
  worldId : Option String := none
  branchId : Option String := none
  eventId : Option String := none
  sequence : Option ℚ := none
  sharedFromWorldId : Option String := none
  viewManifestHash : Option String := none
  channel : Option String := none
  personContext : Option PersonContext := none
  sends : Option (List RecordedSend) := none
  provenance : Option GenerationProvenance := none
  run : Option RunMessageMetadata := none
  contextResources : Option (List ContextResourceDescriptor) := none

/-! ## Names -/

def roles : Names Role where
  all := [.system, .user, .assistant, .tool]
  text
    | .system => "system"
    | .user => "user"
    | .assistant => "assistant"
    | .tool => "tool"
  found a := by cases a <;> decide

def personKinds : Names PersonKind where
  all := [.inbound, .memory]
  text
    | .inbound => "inbound"
    | .memory => "memory"
  found a := by cases a <;> decide

def resourceKinds : Names ResourceKind where
  all := [.skill, .agents]
  text
    | .skill => "skill"
    | .agents => "agents"
  found a := by cases a <;> decide

def voiceStatuses : Names VoiceStatus where
  all := [.played, .interrupted, .failed]
  text
    | .played => "played"
    | .interrupted => "interrupted"
    | .failed => "failed"
  found a := by cases a <;> decide

def signalStatuses : Names SignalStatus where
  all := [.accepted]
  text _ := "accepted"
  found a := by cases a; decide

/-! ## Reading -/

/-- What the parser calls outside of itself: the `URL` class, and SHA-256 in hex. -/
structure Outside where
  urls : UrlClass
  sha256 : String → String

/-- The members of an array that pass, if there are any. -/
def readList {α : Type} (read : Value → Option α) (v : Value) : Option (List α) :=
  (v.arr?.map (fun members => members.filterMap read)).filter (fun as => !as.isEmpty)

/-- A text of the `type` of an object. -/
def hasType (types : List String) (v : Value) : Bool :=
  match v.read? "type" JsonOf.str? with
  | some type => types.contains type
  | none => false

def isReasoningItem (v : Value) : Bool := hasType ["reasoning"] v

def isThinkingBlock (v : Value) : Bool := hasType ["thinking", "redacted_thinking"] v

/-- An opaque payload that is kept verbatim. -/
def opaqueWhere (p : Value → Bool) (v : Value) : Option Value := if p v then some v else none

def parseToolCall (tc : Value) : Option ToolCall := do
  let id ← tc.read? "id" JsonOf.str?
  let _ ← tc.read? "type" (textWhere (fun type => decide (type = "function")))
  let fn ← tc.field? "function"
  let name ← fn.read? "name" JsonOf.str?
  let arguments ← fn.read? "arguments" JsonOf.str?
  return { id, name, arguments }

def scalar : Value → Scalar
  | .str s => .str s
  | .num q => .num (.finite q)
  | _ => .other

/-- The fields of an object, as the parser of a tool batch looks at them. -/
def scalars : Value → Option (List (String × Scalar))
  | .obj fields => some (fields.map (fun (key, v) => (key, scalar v)))
  | _ => none

/-- The calls of a message as an input of the tool batch. -/
def batchCalls (calls : List ToolCall) : List Slot :=
  calls.map (fun call => .call call.name call.arguments)

def parsePersonContext (p : Value) : Option PersonContext := do
  let kind ← p.read? "kind" personKinds.read
  let authorId ← p.read? "authorId" (boundedString 256)
  let author ← p.read? "author" (boundedString 256)
  return { kind, authorId, author }

def parseDescriptor (item : Value) : Option ContextResourceDescriptor := do
  let kind ← item.read? "kind" resourceKinds.read
  let key ← item.read? "key" JsonOf.str?
  let display ← item.read? "display" JsonOf.str?
  let version ← item.read? "version" JsonOf.str?
  let descriptor : ContextResourceDescriptor := { kind, key, display, version }
  if descriptorBounded descriptor then some descriptor else none

def parseContextResourceDescriptors (raw : Value) : List ContextResourceDescriptor :=
  match raw.arr? with
  | some items => (items.take 32).filterMap parseDescriptor
  | none => []

def MAX_VOICE_PLAYED_MS : ℚ := 60 * 60 * 1000
def MAX_VOICE_TRANSCRIPT_BYTES : ℕ := 32 * 1024

def isTranscript (s : String) : Bool := decide (s.utf8ByteSize ≤ MAX_VOICE_TRANSCRIPT_BYTES)

def isPlayed (q : ℚ) : Bool :=
  isSafeInteger q && decide (0 ≤ q) && decide (q ≤ MAX_VOICE_PLAYED_MS)

def normalizeVoiceDelivery (raw : Value) : Option VoiceDelivery := do
  let status ← raw.read? "status" voiceStatuses.read
  let transcript ← raw.read? "transcript" (textWhere isTranscript)
  let playedMs ← raw.read? "playedMs" (numberWhere isPlayed)
  return { status, transcript, playedMs }

/-- What is read back of a recorded send: nothing here asks for its Signal receipt. -/
def parseSend (so : Value) : Option RecordedSend := do
  let channel ← so.read? "channel" JsonOf.str?
  let text ← so.read? "text" JsonOf.str?
  return {
    channel, text
    replyTo := so.read? "replyTo" (textWhere isSnowflake)
    mentions := so.read? "mentions" JsonOf.bool?
    voice := so.read? "voice" normalizeVoiceDelivery
    signal := none }

def isSequence (q : ℚ) : Bool := isSafeInteger q && decide (0 < q)

/-- `TranscriptParseOptions`: absent away from a replay boundary, and an identity that may
be `null` at one. -/
abbrev ParseOptions := Option (Option ReplayIdentity)

/-- Whether opaque payloads of this provenance are read. -/
def trustedOpaque (urls : UrlClass) (options : ParseOptions)
    (provenance : Option GenerationProvenance) : Bool :=
  match options with
  | none => true
  | some identity => isTrustedOpaqueReplay urls provenance identity

def parseChatMessage (w : Outside) (options : ParseOptions) (obj : Value) : Option ChatMessage := do
  let role ← obj.read? "role" roles.read
  let content ← obj.read? "content" JsonOf.str?
  let provenance :=
    if role = .assistant then obj.read? "provenance" (parseGenerationProvenance w.urls) else none
  let trusted := trustedOpaque w.urls options provenance
  let toolCalls := obj.read? "tool_calls" (readList parseToolCall)
  return {
    role, content, provenance, toolCalls
    reasoningContent := obj.read? "reasoning_content" (textWhere (fun s => decide (0 < length s)))
    reasoningItems :=
      if trusted then obj.read? "reasoning_items" (readList (opaqueWhere isReasoningItem)) else none
    thinkingBlocks :=
      if trusted then obj.read? "thinking_blocks" (readList (opaqueWhere isThinkingBlock)) else none
    residentToolBatch :=
      if role = .assistant then
        toolCalls.bind (fun calls => obj.read? "residentToolBatch" (fun value =>
          parseRecordedResidentToolBatch w.sha256 (scalars value) (some (batchCalls calls))))
      else none
    toolCallId := obj.read? "tool_call_id" JsonOf.str?
    personContext := if role = .user then obj.read? "personContext" parsePersonContext else none
    worldId := obj.read? "worldId" (textWhere (isBoundedId "world:"))
    branchId := obj.read? "branchId" (textWhere (isBoundedId "branch:"))
    eventId := obj.read? "eventId" (textWhere (isBoundedId "event:"))
    sequence := obj.read? "sequence" (numberWhere isSequence)
    sharedFromWorldId := obj.read? "sharedFromWorldId" (textWhere (isBoundedId "world:"))
    viewManifestHash := obj.read? "viewManifestHash" (textWhere isSha256)
    channel := obj.read? "channel" JsonOf.str?
    run := if role = .tool then obj.read? "run" parseRunMessageMetadata else none
    contextResources :=
      if role = .tool then
        ((obj.field? "contextResources").map parseContextResourceDescriptors).filter
          (fun ds => !ds.isEmpty)
      else none
    sends := obj.read? "sends" (readList parseSend) }

/-! ## Writing -/

def toolCallMembers (call : ToolCall) : List (String × Option Value) :=
  [("id", some (.str call.id)), ("type", some (.str "function")),
    ("function", some (.object [("name", some (.str call.name)),
      ("arguments", some (.str call.arguments))]))]

def batchMembers (batch : RecordedResidentToolBatch) : List (String × Option Value) :=
  [("version", some (.num 1)), ("batchId", some (.str batch.batchId)),
    ("batchSha256", some (.str batch.batchSha256))]

def personMembers (p : PersonContext) : List (String × Option Value) :=
  [("kind", some (personKinds.write p.kind)), ("authorId", some (.str p.authorId)),
    ("author", some (.str p.author))]

def descriptorMembers (d : ContextResourceDescriptor) : List (String × Option Value) :=
  [("kind", some (resourceKinds.write d.kind)), ("key", some (.str d.key)),
    ("display", some (.str d.display)), ("version", some (.str d.version))]

def VoiceDelivery.members (v : VoiceDelivery) : List (String × Option Value) :=
  [("status", some (voiceStatuses.write v.status)), ("transcript", some (.str v.transcript)),
    ("playedMs", some (.num v.playedMs))]

def SignalDelivery.members (s : SignalDelivery) : List (String × Option Value) :=
  [("status", some (signalStatuses.write s.status))]

def RecordedSend.members (s : RecordedSend) : List (String × Option Value) :=
  [("channel", some (.str s.channel)), ("text", some (.str s.text)),
    ("replyTo", s.replyTo.map .str), ("mentions", s.mentions.map .bool),
    ("voice", s.voice.map (fun v => .object v.members)),
    ("signal", s.signal.map (fun signal => .object signal.members))]

/-- A list of records as an array. -/
def array {α : Type} (members : α → List (String × Option Value)) (as : List α) : Value :=
  .arr (as.map (fun a => .object (members a)))

/-- The fields that `JSON.stringify` writes of a message. -/
def ChatMessage.members (m : ChatMessage) : List (String × Option Value) :=
  [("role", some (roles.write m.role)), ("content", some (.str m.content)),
    ("reasoning_content", m.reasoningContent.map .str),
    ("reasoning_items", m.reasoningItems.map .arr), ("thinking_blocks", m.thinkingBlocks.map .arr),
    ("tool_calls", m.toolCalls.map (array toolCallMembers)),
    ("residentToolBatch", m.residentToolBatch.map (fun batch => .object (batchMembers batch))),
    ("tool_call_id", m.toolCallId.map .str), ("worldId", m.worldId.map .str),
    ("branchId", m.branchId.map .str), ("eventId", m.eventId.map .str),
    ("sequence", m.sequence.map .num), ("sharedFromWorldId", m.sharedFromWorldId.map .str),
    ("viewManifestHash", m.viewManifestHash.map .str), ("channel", m.channel.map .str),
    ("personContext", m.personContext.map (fun p => .object (personMembers p))),
    ("sends", m.sends.map (array RecordedSend.members)),
    ("provenance", m.provenance.map (fun p => .object p.members)),
    ("run", m.run.map (fun r => .object r.members)),
    ("contextResources", m.contextResources.map (array descriptorMembers))]

/-- The line that `append` writes, parsed. -/
def line (m : ChatMessage) : Value := .object m.members

end Elpis.Store
