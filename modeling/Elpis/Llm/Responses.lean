import Elpis.Llm.Provider
import Elpis.Llm.Sanitize

/-!
# The translation to and from Responses items

`toResponsesInput`, `fromResponseOutput` and `assembleResult` of `src/llm/responses.ts`, with
the sanitizer of `src/llm/llm.ts` that stands between them. A response is an arbitrary list
of JSON values. What `assembleResult` says of usage and completion is left out: it does not
look at the items.
-/

namespace Elpis.Llm.Provider

open Js

/-! ## Sending a history -/

inductive InputContent where
  | inputText (text : String)
  | inputImage (imageUrl : String)

/-- `ResponseInputItem`. -/
inductive InputItem where
  | functionCallOutput (callId output : String)
  | reasoning (item : Value)
  | message (role : Role) (content : String)
  | parts (role : Role) (content : List InputContent)
  | functionCall (callId name arguments : String)

def toResponsesContentParts (parts : List ContentPart) : List InputContent :=
  parts.filterMap (fun
    | .text text => some (.inputText text)
    | .imageUrl url => some (.inputImage url)
    | .other => none)

/-- The item of a call. -/
def callItem (tc : ToolCall) : InputItem := .functionCall tc.id tc.name tc.arguments

/-- What the loop of `toResponsesInput` pushes for one message. -/
def pushMessage (items : List InputItem) (m : ChatMessage) : List InputItem :=
  match m.role with
  | .tool => items ++ [.functionCallOutput (m.toolCallId.getD "") m.content]
  | .assistant =>
      let hasFollower := m.content ≠ "" ∨ 0 < m.toolCalls.length
      let items := if hasFollower then items ++ m.reasoningItems.map .reasoning else items
      let items := if m.content ≠ "" then items ++ [.message .assistant m.content] else items
      items ++ m.toolCalls.map callItem
  | role =>
      match m.contentParts with
      | some (part :: rest) => items ++ [.parts role (toResponsesContentParts (part :: rest))]
      | _ => items ++ [.message role m.content]

def toResponsesInput (messages : List ChatMessage) : List InputItem := messages.foldl pushMessage []

/-! ## Reading a response -/

/-- A call as a provider reports it. -/
structure RawCall where
  id : String
  type : Option String
  name : String
  arguments : String

structure ResponseParts where
  content : String := ""
  reasoningTexts : List String := []
  reasoningItems : List Value := []
  toolCalls : List RawCall := []

/-- `item[key]` where that is a string. -/
def textField (item : Value) (key : String) : Option String := (item.field? key).bind JsonOf.str?

/-- `item[key]` where that is an array. -/
def listField (item : Value) (key : String) : Option (List Value) := (item.field? key).bind JsonOf.arr?

/-- The text of a part of a message item: its output, or a refusal. -/
def partText (part : Value) : String :=
  match textField part "type", textField part "text", textField part "refusal" with
  | some "output_text", some text, _ => text
  | some "refusal", _, some refusal => refusal
  | _, _, _ => ""

/-- The readable side of a reasoning item. -/
def readable (item : Value) : String :=
  let texts := (listField item "content").getD []
  let summaries := (listField item "summary").getD []
  let parts := (if 0 < texts.length then texts else summaries).map (fun p => (textField p "text").getD "")
  String.intercalate "\n\n" (parts.filter (fun text => text ≠ ""))

/-- The call of a `function_call` item, unless it has no id. -/
def itemCall (item : Value) : Option RawCall :=
  match textField item "call_id" with
  | none => none
  | some id =>
      if id = "" then none
      else
        some { id, type := some "function", name := (textField item "name").getD ""
               arguments := (textField item "arguments").getD "" }

/-- What the loop of `fromResponseOutput` does with one item. -/
def readItem (parts : ResponseParts) (item : Value) : ResponseParts :=
  match textField item "type", listField item "content" with
  | some "message", some content =>
      { parts with content := parts.content ++ String.join (content.map partText) }
  | some "reasoning", _ =>
      { parts with
        reasoningItems := parts.reasoningItems ++ [item]
        reasoningTexts :=
          if readable item = "" then parts.reasoningTexts else parts.reasoningTexts ++ [readable item] }
  | some "function_call", _ => { parts with toolCalls := parts.toolCalls ++ (itemCall item).toList }
  | _, _ => parts

def fromResponseOutput (output : List Value) : ResponseParts := output.foldl readItem {}

def ResponseParts.reasoningContent (parts : ResponseParts) : Option String :=
  if 0 < parts.reasoningTexts.length then some (String.intercalate "\n\n" parts.reasoningTexts) else none

/-! ## The sanitizer -/

/-- The content that `sanitizeContent` leaves, as a text again. -/
def sanitizeText (content : String) : String × Bool :=
  let sanitized := Sanitize.sanitizeContent (codeUnits content)
  (String.ofList (ofUnits sanitized.content), sanitized.stripped)

/-- `JSON.parse` takes the text, which is not empty. -/
def argumentsAreValid (parse : String → Option Value) (arguments : String) : Bool :=
  arguments ≠ "" && (parse arguments).isSome

def RawCall.valid (parse : String → Option Value) (tc : RawCall) : Bool :=
  tc.type = some "function" && argumentsAreValid parse tc.arguments

def RawCall.call (tc : RawCall) : ToolCall := ⟨tc.id, tc.name, tc.arguments⟩

structure SanitizedResponse where
  message : ChatMessage
  stripped : Bool

def sanitizeAssistantMessage (parse : String → Option Value) (content : String)
    (reasoningContent : Option String) (toolCalls : List RawCall) : SanitizedResponse :=
  let (content, contentStripped) := sanitizeText content
  let valid := toolCalls.filter (RawCall.valid parse)
  { message :=
      { role := .assistant, content
        reasoningContent := reasoningContent.filter (fun text => text ≠ "")
        toolCalls := valid.map RawCall.call }
    stripped := contentStripped || toolCalls.any (fun tc => !tc.valid parse) }

/-- `assembleResult`, less what it says of usage and completion. -/
def assembleResult (parse : String → Option Value) (output : List Value) (extraContent : String) :
    SanitizedResponse :=
  let parts := fromResponseOutput output
  let sanitized := sanitizeAssistantMessage parse (parts.content ++ extraContent)
    parts.reasoningContent parts.toolCalls
  { sanitized with message := { sanitized.message with reasoningItems := parts.reasoningItems } }

/-! ## What a history sends -/

/-- The items of one message, in the order in which they are sent. -/
def messageItems (m : ChatMessage) : List InputItem := pushMessage [] m

theorem pushMessage_eq (items : List InputItem) (m : ChatMessage) :
    pushMessage items m = items ++ messageItems m := by
  simp only [messageItems, pushMessage]
  split
  · simp
  · split <;> split <;> simp
  · split <;> simp

/-- Items go out message after message. -/
theorem toResponsesInput_eq (messages : List ChatMessage) :
    toResponsesInput messages = messages.flatMap messageItems := by
  have hfold : ∀ (items : List InputItem),
      messages.foldl pushMessage items = items ++ messages.flatMap messageItems := by
    induction messages with
    | nil => simp
    | cons m rest ih =>
        intro items
        rw [List.foldl_cons, ih, pushMessage_eq, List.append_assoc, List.flatMap_cons]
  exact hfold []

theorem messageItems_tool {m : ChatMessage} (h : m.role = .tool) :
    messageItems m = [.functionCallOutput (m.toolCallId.getD "") m.content] := by
  rw [messageItems, pushMessage, h]
  rfl

/-- The items of a generation that a provider can see behind its reasoning. -/
def visibleItems (m : ChatMessage) : List InputItem :=
  (if m.content = "" then [] else [.message .assistant m.content]) ++ m.toolCalls.map callItem

theorem visibleItems_eq_nil {m : ChatMessage} :
    visibleItems m = [] ↔ m.content = "" ∧ m.toolCalls = [] := by
  unfold visibleItems
  split
  · rename_i hcontent
    simp [hcontent]
  · rename_i hcontent
    simp [hcontent]

theorem messageItems_assistant {m : ChatMessage} (h : m.role = .assistant) :
    messageItems m =
      (if visibleItems m = [] then [] else m.reasoningItems.map .reasoning) ++ visibleItems m := by
  have hfollow : (m.content ≠ "" ∨ 0 < m.toolCalls.length) ↔ visibleItems m ≠ [] := by
    rw [Ne, Ne, visibleItems_eq_nil, List.length_pos_iff]
    tauto
  have hitems : messageItems m =
      (if m.content ≠ "" ∨ 0 < m.toolCalls.length then m.reasoningItems.map .reasoning else []) ++
        visibleItems m := by
    simp only [messageItems, pushMessage, h, visibleItems]
    split <;> split <;> simp_all
  rw [hitems]
  by_cases hnil : visibleItems m = []
  · rw [if_neg (fun hf => hfollow.mp hf hnil), if_pos hnil]
  · rw [if_pos (hfollow.mpr hnil), if_neg hnil]

/-- A message of another role becomes one item with its role. -/
theorem messageItems_other {m : ChatMessage} (h : m.role = .user ∨ m.role = .system) :
    messageItems m = [.message m.role m.content] ∨
      ∃ parts, m.contentParts = some parts ∧ messageItems m = [.parts m.role (toResponsesContentParts parts)] := by
  have hitems : messageItems m = (match m.contentParts with
      | some (part :: rest) => [.parts m.role (toResponsesContentParts (part :: rest))]
      | _ => [.message m.role m.content]) := by
    rcases h with h | h
    all_goals
      simp only [messageItems, pushMessage, h]
      split <;> simp
  rw [hitems]
  split
  · rename_i part rest hparts
    exact Or.inr ⟨part :: rest, hparts, rfl⟩
  · exact Or.inl rfl

/-- `call_id` and output of a `function_call_output`. -/
def InputItem.output? : InputItem → Option (String × String)
  | .functionCallOutput callId output => some (callId, output)
  | _ => none

def InputItem.call? : InputItem → Option ToolCall
  | .functionCall callId name arguments => some ⟨callId, name, arguments⟩
  | _ => none

@[simp] theorem call?_callItem (tc : ToolCall) : (callItem tc).call? = some tc := rfl
@[simp] theorem output?_callItem (tc : ToolCall) : (callItem tc).output? = none := rfl
@[simp] theorem call?_reasoning (item : Value) : (InputItem.reasoning item).call? = none := rfl
@[simp] theorem output?_reasoning (item : Value) : (InputItem.reasoning item).output? = none := rfl
@[simp] theorem call?_message (role : Role) (content : String) :
    (InputItem.message role content).call? = none := rfl
@[simp] theorem output?_message (role : Role) (content : String) :
    (InputItem.message role content).output? = none := rfl
@[simp] theorem call?_parts (role : Role) (content : List InputContent) :
    (InputItem.parts role content).call? = none := rfl
@[simp] theorem output?_parts (role : Role) (content : List InputContent) :
    (InputItem.parts role content).output? = none := rfl

theorem visibleItems_calls (m : ChatMessage) :
    (visibleItems m).filterMap InputItem.call? = m.toolCalls := by
  have hcalls : (m.toolCalls.map callItem).filterMap InputItem.call? = m.toolCalls := by
    simp [List.filterMap_map, Function.comp_def]
  rw [visibleItems, List.filterMap_append, hcalls]
  split <;> simp

theorem visibleItems_outputs (m : ChatMessage) :
    (visibleItems m).filterMap InputItem.output? = [] := by
  unfold visibleItems
  split <;> simp

/-- One output item for a tool message and none for another. -/
theorem messageItems_output (m : ChatMessage) :
    (messageItems m).filterMap InputItem.output? =
      if m.role = .tool then [(m.toolCallId.getD "", m.content)] else [] := by
  have hother : m.role = .user ∨ m.role = .system →
      (messageItems m).filterMap InputItem.output? = [] := by
    intro h
    rcases messageItems_other h with heq | ⟨parts, -, heq⟩ <;> simp [heq]
  cases hrole : m.role with
  | tool => simp [messageItems_tool hrole, InputItem.output?]
  | assistant =>
      rw [messageItems_assistant hrole, List.filterMap_append, visibleItems_outputs]
      split <;> simp
  | user => simpa using hother (Or.inl hrole)
  | system => simpa using hother (Or.inr hrole)

/-- One call item for each call of an assistant message. -/
theorem messageItems_call (m : ChatMessage) :
    (messageItems m).filterMap InputItem.call? = if m.role = .assistant then m.toolCalls else [] := by
  have hother : m.role = .user ∨ m.role = .system →
      (messageItems m).filterMap InputItem.call? = [] := by
    intro h
    rcases messageItems_other h with heq | ⟨parts, -, heq⟩ <;> simp [heq]
  cases hrole : m.role with
  | tool => simp [messageItems_tool hrole, InputItem.call?]
  | assistant =>
      rw [messageItems_assistant hrole, List.filterMap_append, visibleItems_calls]
      split <;> simp
  | user => simpa using hother (Or.inl hrole)
  | system => simpa using hother (Or.inr hrole)

/-- A piece of concatenated lists is inside one of them. -/
theorem flatMap_eq_append_cons {α β : Type} {f : α → List β} {xs : List α} {pre post : List β} {b : β}
    (h : xs.flatMap f = pre ++ b :: post) :
    ∃ before x after front back, xs = before ++ x :: after ∧ f x = front ++ b :: back ∧
      pre = before.flatMap f ++ front ∧ post = back ++ after.flatMap f := by
  induction xs generalizing pre with
  | nil => simp at h
  | cons x xs ih =>
      rw [List.flatMap_cons, List.append_eq_append_iff] at h
      rcases h with ⟨front, hpre, hrest⟩ | ⟨back, hx, hpost⟩
      · -- the piece is behind the first list
        obtain ⟨before, x', after, front', back, rfl, hx', rfl, rfl⟩ := ih hrest
        exact ⟨x :: before, x', after, front', back, rfl, hx', by simp [hpre], rfl⟩
      · cases back with
        | nil =>
            -- the first list ends right before it
            obtain ⟨before, x', after, front', back, rfl, hx', hnil, rfl⟩ := @ih [] hpost.symm
            rw [List.append_nil] at hx
            exact ⟨x :: before, x', after, front', back, rfl, hx',
              by rw [List.flatMap_cons, hx, List.append_assoc, ← hnil, List.append_nil], rfl⟩
        | cons b' back =>
            obtain ⟨rfl, hpost'⟩ := List.cons.inj hpost
            exact ⟨[], x, xs, pre, back, rfl, hx, rfl, hpost'⟩

/-- Behind a reasoning item come the others of its message, and then something of the
message that can be seen. -/
theorem reasoning_followed {messages : List ChatMessage} {pre post : List InputItem} {r : Value}
    (h : toResponsesInput messages = pre ++ .reasoning r :: post) :
    ∃ before m after earlier later follower rest, messages = before ++ m :: after ∧
      m.role = .assistant ∧ m.reasoningItems = earlier ++ r :: later ∧
      post = later.map .reasoning ++ follower :: rest ∧ follower ∈ visibleItems m := by
  rw [toResponsesInput_eq] at h
  obtain ⟨before, m, after, front, back, rfl, hm, -, rfl⟩ := flatMap_eq_append_cons h
  have hmem : InputItem.reasoning r ∈ messageItems m := by rw [hm]; simp
  cases hrole : m.role with
  | tool => simp [messageItems_tool hrole] at hmem
  | user =>
      rcases messageItems_other (Or.inl hrole) with heq | ⟨parts, -, heq⟩ <;> simp [heq] at hmem
  | system =>
      rcases messageItems_other (Or.inr hrole) with heq | ⟨parts, -, heq⟩ <;> simp [heq] at hmem
  | assistant =>
      rw [messageItems_assistant hrole] at hm hmem
      have hvisible : InputItem.reasoning r ∉ visibleItems m := by
        unfold visibleItems
        split <;> simp [callItem]
      by_cases hnil : visibleItems m = []
      · simp [hnil] at hmem
      · rw [if_neg hnil] at hm
        -- the item is among the reasoning items, so all that can be seen is behind it
        rcases List.append_eq_append_iff.mp hm with ⟨inside, -, hrest⟩ | ⟨back', hitems, hrest⟩
        · exact absurd (hrest ▸ by simp) hvisible
        · cases back' with
          | nil =>
              rw [List.nil_append] at hrest
              exact absurd (hrest ▸ List.mem_cons_self) hvisible
          | cons item later =>
              obtain ⟨rfl, rfl⟩ := List.cons.inj hrest
              obtain ⟨earlier, rest, hsplit, -, hrest'⟩ := List.map_eq_append_iff.mp hitems
              obtain ⟨r', others, rfl, hr', rfl⟩ := List.map_eq_cons_iff.mp hrest'
              cases hr'
              obtain ⟨follower, more, hseen⟩ := List.exists_cons_of_ne_nil hnil
              exact ⟨before, m, after, earlier, others, follower, more ++ after.flatMap messageItems, rfl,
                hrole, hsplit, by simp [hseen], by simp [hseen]⟩

/-! ## What a response leaves -/

def isReasoning (item : Value) : Bool := textField item "type" = some "reasoning"

/-- The call that an item of a response stands for. -/
def outputCall (item : Value) : Option RawCall :=
  if textField item "type" = some "function_call" then itemCall item else none

theorem readItem_reasoning (parts : ResponseParts) (item : Value) :
    (readItem parts item).reasoningItems =
      parts.reasoningItems ++ if isReasoning item then [item] else [] := by
  unfold readItem isReasoning
  split <;> simp_all

theorem readItem_calls (parts : ResponseParts) (item : Value) :
    (readItem parts item).toolCalls = parts.toolCalls ++ (outputCall item).toList := by
  unfold readItem outputCall
  split <;> simp_all

/-- The reasoning items of the parts are those of the response, as they are. -/
theorem fromResponseOutput_reasoning (output : List Value) :
    (fromResponseOutput output).reasoningItems = output.filter isReasoning := by
  have hfold : ∀ parts : ResponseParts, (output.foldl readItem parts).reasoningItems =
      parts.reasoningItems ++ output.filter isReasoning := by
    induction output with
    | nil => simp
    | cons item rest ih =>
        intro parts
        rw [List.foldl_cons, ih, readItem_reasoning, List.append_assoc, List.filter_cons]
        split <;> simp
  exact (hfold {}).trans (List.nil_append _)

theorem fromResponseOutput_calls (output : List Value) :
    (fromResponseOutput output).toolCalls = output.filterMap outputCall := by
  have hfold : ∀ parts : ResponseParts, (output.foldl readItem parts).toolCalls =
      parts.toolCalls ++ output.filterMap outputCall := by
    induction output with
    | nil => simp
    | cons item rest ih =>
        intro parts
        rw [List.foldl_cons, ih, readItem_calls, List.append_assoc, List.filterMap_cons]
        cases outputCall item <;> simp
  exact (hfold {}).trans (List.nil_append _)

/-- The parts of a response as the message they make up, with nothing sanitized. -/
def ResponseParts.message (parts : ResponseParts) : ChatMessage where
  role := .assistant
  content := parts.content
  reasoningContent := parts.reasoningContent
  reasoningItems := parts.reasoningItems
  toolCalls := parts.toolCalls.map RawCall.call

theorem assembleResult_message (parse : String → Option Value) (output : List Value)
    (extraContent : String) :
    (assembleResult parse output extraContent).message.role = .assistant ∧
      (assembleResult parse output extraContent).message.reasoningItems = output.filter isReasoning ∧
      (assembleResult parse output extraContent).message.toolCalls =
        ((output.filterMap outputCall).filter (RawCall.valid parse)).map RawCall.call := by
  refine ⟨rfl, fromResponseOutput_reasoning output, ?_⟩
  rw [← fromResponseOutput_calls]
  rfl

/-- A message goes out between what comes before and behind it. -/
theorem toResponsesInput_between (before after : List ChatMessage) (m : ChatMessage) :
    toResponsesInput (before ++ m :: after) =
      toResponsesInput before ++ messageItems m ++ toResponsesInput after := by
  simp [toResponsesInput_eq]

/-! ## Out and back -/

/-- A history goes out message by message, with an output for each tool message and a call
for each call of an assistant message, and behind every reasoning item something else of its
message. A response sent back as a message, with or without the sanitizer, brings all its
reasoning items as they came and then, calls last, what else is left of it; where nothing is
left, it sends nothing. -/
theorem responses_replayed (parse : String → Option Value) (history : List ChatMessage)
    (output : List Value) (extraContent : String) :
    (toResponsesInput history = history.flatMap messageItems ∧
      (toResponsesInput history).filterMap InputItem.output? =
        (history.filter (fun m => m.role = .tool)).map (fun m => (m.toolCallId.getD "", m.content)) ∧
      (toResponsesInput history).filterMap InputItem.call? =
        (history.filter (fun m => m.role = .assistant)).flatMap ChatMessage.toolCalls) ∧
    (∀ pre r post, toResponsesInput history = pre ++ .reasoning r :: post →
      ∃ before m after earlier later follower rest, history = before ++ m :: after ∧
        m.role = .assistant ∧ m.reasoningItems = earlier ++ r :: later ∧
        post = later.map .reasoning ++ follower :: rest ∧ follower ∈ visibleItems m) ∧
    (fromResponseOutput output).message.toolCalls = (output.filterMap outputCall).map RawCall.call ∧
    (assembleResult parse output extraContent).message.toolCalls =
      ((output.filterMap outputCall).filter (RawCall.valid parse)).map RawCall.call ∧
    ∀ m, m = (fromResponseOutput output).message ∨
        m = (assembleResult parse output extraContent).message →
      ∀ before after, toResponsesInput (before ++ m :: after) = toResponsesInput before ++
        (if m.content = "" ∧ m.toolCalls = [] then []
          else (output.filter isReasoning).map .reasoning ++
            ((if m.content = "" then [] else [.message .assistant m.content]) ++
              m.toolCalls.map callItem)) ++ toResponsesInput after := by
  refine ⟨⟨toResponsesInput_eq history, ?_, ?_⟩, fun pre r post => reasoning_followed, ?_,
    (assembleResult_message parse output extraContent).2.2, fun m hm before after => ?_⟩
  · rw [toResponsesInput_eq]
    induction history with
    | nil => rfl
    | cons m rest ih =>
        rw [List.flatMap_cons, List.filterMap_append, ih, messageItems_output, List.filter_cons]
        by_cases hrole : m.role = .tool <;> simp [hrole]
  · rw [toResponsesInput_eq]
    induction history with
    | nil => rfl
    | cons m rest ih =>
        rw [List.flatMap_cons, List.filterMap_append, ih, messageItems_call, List.filter_cons]
        by_cases hrole : m.role = .assistant <;> simp [hrole]
  · rw [← fromResponseOutput_calls]
    rfl
  · have hm : m.role = .assistant ∧ m.reasoningItems = output.filter isReasoning := by
      rcases hm with rfl | rfl
      · exact ⟨rfl, fromResponseOutput_reasoning output⟩
      · exact ⟨rfl, (assembleResult_message parse output extraContent).2.1⟩
    rw [toResponsesInput_between, messageItems_assistant hm.1, hm.2]
    by_cases hnil : visibleItems m = []
    · rw [if_pos hnil, if_pos (visibleItems_eq_nil.mp hnil), hnil, List.append_nil]
    · rw [if_neg hnil, if_neg (fun h => hnil (visibleItems_eq_nil.mpr h))]
      rfl

/-- A response of thinking alone sends no reasoning item back, and a call without an id is
lost on the way in. -/
theorem responses_not_replayed :
    (¬ ∀ (output : List Value), ∀ item ∈ output, isReasoning item = true →
      InputItem.reasoning item ∈ toResponsesInput [(fromResponseOutput output).message]) ∧
    ¬ ∀ (output : List Value), ∀ item ∈ output, textField item "type" = some "function_call" →
      ∃ id name arguments, InputItem.functionCall id name arguments ∈
        toResponsesInput [(fromResponseOutput output).message] := by
  constructor
  · intro h
    have := h [.obj [("type", .str "reasoning")]] _ List.mem_cons_self (by decide)
    rw [show toResponsesInput [(fromResponseOutput [.obj [("type", .str "reasoning")]]).message] = [] by
      rfl] at this
    cases this
  · intro h
    obtain ⟨id, name, arguments, hcall⟩ := h [.obj [("type", .str "function_call")]] _ List.mem_cons_self
      (by decide)
    rw [show toResponsesInput [(fromResponseOutput [.obj [("type", .str "function_call")]]).message] = [] by
      rfl] at hcall
    cases hcall

end Elpis.Llm.Provider
