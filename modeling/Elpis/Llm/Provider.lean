import Elpis.Js.Value
import Elpis.Llm.Message

/-!
# What a provider's translator reads of a message

`ChatMessage` of `src/llm/llm.ts` with the fields that one of the translators to a
provider's wire format looks at. Content parts, reasoning items and thinking blocks are
here as they are sent.
-/

namespace Elpis.Llm.Provider

open Js

/-- `OpenAI.ChatCompletionContentPart`. -/
inductive ContentPart where
  | text (text : String)
  | imageUrl (url : String)
  | other

/-- `ChatMessage`. A missing list of thinking blocks, reasoning items or calls is read as
the empty one. Reasoning items are kept as received. -/
structure ChatMessage where
  role : Role
  content : String
  contentParts : Option (List ContentPart) := none
  reasoningContent : Option String := none
  reasoningItems : List Value := []
  thinkingBlocks : List ThinkingBlock := []
  toolCalls : List ToolCall := []
  toolCallId : Option String := none

end Elpis.Llm.Provider
