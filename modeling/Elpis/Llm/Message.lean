import Elpis.Js.Text
import Elpis.Kernel.Journal

/-!
# Messages of the resident's history

`ChatMessage` of `src/llm/llm.ts` with the fields the harness reads back: what the
model is sent, and the marks the harness leaves on a message for itself. A history is a
list of objects. The program compares messages by identity and changes some of them in
place, so an entry is an object together with what it holds at the moment.
-/

namespace Elpis.Llm

export Elpis.Kernel (Role ToolCall)

/-! ## Parts of a message -/

/-- `ReasoningItemParam`: the blob and the readable texts. -/
structure ReasoningItem where
  encryptedContent : Option String
  summary : List String
  content : List String
deriving DecidableEq, Repr

/-- `AnthropicThinkingBlock`. -/
inductive ThinkingBlock where
  | thinking (thinking signature : String)
  | redacted (data : String)
deriving DecidableEq, Repr

inductive PersonKind where
  | inbound | memory
deriving DecidableEq, Repr

structure PersonContext where
  kind : PersonKind
  authorId : String
  author : String
deriving DecidableEq, Repr

inductive ResourceKind where
  | skill | agents
deriving DecidableEq, Repr

structure ContextResourceDescriptor where
  kind : ResourceKind
  key : String
  display : String
  version : String
deriving DecidableEq, Repr

inductive WakeKind where
  | after | «at» | auto
deriving DecidableEq, Repr

inductive WakeState where
  | armed | elapsed | rejected | preempted | fired
deriving DecidableEq, Repr

structure RunWakeMetadata where
  kind : WakeKind
  state : WakeState
  requestedAt : ℤ
  targetAt : Option ℤ
  taskId : Option ℕ
  note : Option String
deriving DecidableEq, Repr

inductive VoiceStatus where
  | played | interrupted | failed
deriving DecidableEq, Repr

/-- `VoiceDelivery`: the receipt of a spoken message. -/
structure VoiceDelivery where
  status : VoiceStatus
  transcript : String
  playedMs : ℤ
deriving DecidableEq, Repr

/-- A recorded `channel().send()`. `signal` says that the receipt of an accepted Signal
message is on it. -/
structure RecordedSend where
  channel : String
  text : String
  replyTo : Option String
  mentions : Option Bool := none
  voice : Option VoiceDelivery := none
  signal : Bool := false
deriving DecidableEq, Repr

/-! ## Messages -/

/-- `ChatMessage`. A missing list is the empty one. `contentParts` are image payloads by
their data URL; `lineage` are the context-graph fields by name. `provenance`,
`residentToolBatch` and `run`, less its wake, are kept as the text they are written as. -/
structure ChatMessage where
  role : Role
  content : String
  contentParts : Option (List String) := none
  ephemeral : Bool := false
  reasoningContent : Option String := none
  reasoningItems : List ReasoningItem := []
  thinkingBlocks : List ThinkingBlock := []
  toolCalls : List ToolCall := []
  toolCallId : Option String := none
  lineage : List (String × String) := []
  channel : Option String := none
  personContext : Option PersonContext := none
  sends : List RecordedSend := []
  wake : Option RunWakeMetadata := none
  contextResources : List ContextResourceDescriptor := []
  provenance : Option String := none
  residentToolBatch : Option String := none
  run : Option String := none
deriving DecidableEq, Repr

/-- An object of the history and what it holds. -/
structure Entry where
  ref : ℕ
  message : ChatMessage
deriving DecidableEq, Repr

/-! ## Sizes -/

/-- `role.length`. -/
def roleLength : Role → ℕ
  | .system => 6
  | .user => 4
  | .assistant => 9
  | .tool => 4

def reasoningItemChars (r : ReasoningItem) : ℕ :=
  (r.encryptedContent.map Js.length).getD 0 + (r.summary.map Js.length).sum +
    (r.content.map Js.length).sum

def thinkingChars : ThinkingBlock → ℕ
  | .thinking thinking signature => Js.length thinking + Js.length signature
  | .redacted data => Js.length data

/-- `sentChars` with the reasoning items counted. -/
def sentChars (m : ChatMessage) : ℕ :=
  Js.length m.content + roleLength m.role + 4 +
    (m.toolCalls.map (fun call => Js.length call.arguments)).sum +
    (m.reasoningItems.map reasoningItemChars).sum +
    (m.thinkingBlocks.map thinkingChars).sum

/-- The calibrated number of characters to a token, which is positive. -/
abbrev Ratio := { q : ℚ // 0 < q }

/-- `Math.ceil(sentChars(m) / ratio)`. -/
def estimateSentTokens (m : ChatMessage) (ratio : Ratio) : ℕ := ⌈(sentChars m : ℚ) / ratio⌉₊

end Elpis.Llm
