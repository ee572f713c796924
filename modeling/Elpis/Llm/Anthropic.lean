import Mathlib.Data.List.Chain
import Elpis.Js.Search
import Elpis.Llm.Provider

/-!
# The translation to Anthropic's wire format

`messageToBlocks` and `translate` of `src/llm/anthropic-client.ts`, with the segments of the
system prompt of `src/llm/prompt.ts`. Each message becomes blocks under one of two roles,
neighbours of one role are put together, and the last block that can take one gets a cache
marker. `JSON.parse` and the hash of the billing header are parameters.
-/

namespace Elpis.Llm.Provider

open Js

structure Env where
  /-- `JSON.parse`, `none` where it throws. -/
  parse : String → Option Value
  /-- The SHA-256 digest in hex of a text given by its code units. -/
  sha256 : List ℕ → String

/-! ## The wire types -/

inductive WireRole where
  | user | assistant
deriving DecidableEq, Repr

inductive ImageSource where
  | base64 (mediaType data : String)
  | url (url : String)

/-- `ContentBlock`; `cached` says that `cache_control` is on the block. -/
inductive ContentBlock where
  | text (text : String) (cached : Bool)
  | image (source : ImageSource)
  | toolUse (id name : String) (input : Value)
  | toolResult (toolUseId content : String) (isError : Bool) (cached : Bool)
  | thinking (block : ThinkingBlock)

structure WireMessage where
  role : WireRole
  content : List ContentBlock

structure TextBlock where
  text : String
  cached : Bool

/-! ## The system prompt -/

inductive SystemTier where
  | stable | boundary | perturn
deriving DecidableEq, Repr

structure SystemSegment where
  text : String
  tier : SystemTier

def SOUL_MARKER : List Char := "\n\n## Your soul\n".toList
def MEMORY_MARKER : List Char := "\n\n## Current memory\n".toList

def segmentSystemPrompt (full : String) : List SystemSegment :=
  let cs := full.toList
  match indexOf MEMORY_MARKER cs, indexOf SOUL_MARKER cs with
  | some memIdx, some soulIdx =>
      if soulIdx ≤ memIdx then [⟨full, .stable⟩]
      else
        [⟨String.ofList (cs.take memIdx), .stable⟩,
          ⟨String.ofList ((cs.take soulIdx).drop (memIdx + 2)), .boundary⟩,
          ⟨String.ofList (cs.drop (soulIdx + 2)), .perturn⟩]
  | _, _ => [⟨full, .stable⟩]

def CLAUDE_CODE_VERSION : String := "2.1.220"
def CLAUDE_CODE_IDENTITY : String := "You are a Claude agent, built on Anthropic's Claude Agent SDK."
def BILLING_PREFIX : String := "x-anthropic-billing-header:"
def CCH_PLACEHOLDER : String := "cch=00000"
def FINGERPRINT_SALT : String := "59cf53e54c78"

def createBillingHeader (env : Env) (firstUserText : String) : String :=
  let k := [4, 7, 20].map (fun i => (codeUnits firstUserText).getD i '0'.toNat)
  let digest := env.sha256 (codeUnits FINGERPRINT_SALT ++ k ++ codeUnits CLAUDE_CODE_VERSION)
  BILLING_PREFIX ++ " cc_version=" ++ CLAUDE_CODE_VERSION ++ "." ++ slice digest 3 ++
    "; cc_entrypoint=claude-desktop; " ++ CCH_PLACEHOLDER ++ ";"

/-- The segments with a breakpoint behind the last one of each cached tier. -/
def systemBlocks (segments : List SystemSegment) : List TextBlock :=
  let lastOfTier (tier : SystemTier) (i : ℕ) (seg : SystemSegment) : Bool :=
    seg.tier = tier && (segments.drop (i + 1)).all (fun s => s.tier ≠ tier)
  segments.mapIdx (fun i seg =>
    { text := seg.text, cached := lastOfTier .stable i seg || lastOfTier .boundary i seg })

/-! ## One message -/

/-- `/^data:([^;]+);base64,(.*)$/s`. -/
def dataUrl (url : List Char) : Option (List Char × List Char) :=
  if "data:".toList.isPrefixOf url then
    let mediaType := (url.drop 5).takeWhile (· ≠ ';')
    let rest := (url.drop 5).dropWhile (· ≠ ';')
    if mediaType ≠ [] ∧ ";base64,".toList.isPrefixOf rest then some (mediaType, rest.drop 8) else none
  else none

/-- `/^https?:\/\//`. -/
def isHttp (url : List Char) : Bool :=
  "http://".toList.isPrefixOf url || "https://".toList.isPrefixOf url

def imagePartToBlock (url : String) : Option ContentBlock :=
  match dataUrl url.toList with
  | some (mediaType, data) =>
      some (.image (.base64 (String.ofList mediaType) (String.ofList data)))
  | none => if isHttp url.toList then some (.image (.url url)) else none

/-- A line of the result says that the run failed. -/
def isError (content : String) : Bool :=
  (content.toList.splitOn '\n').any (fun l => "[run FAILED".toList.isPrefixOf l)

def textBlocks (content : String) : List ContentBlock :=
  if content = "" then [] else [.text content false]

def partBlock : ContentPart → Option ContentBlock
  | .text text => some (.text text false)
  | .imageUrl url => imagePartToBlock url
  | .other => none

def toolUseBlock (env : Env) (tc : ToolCall) : ContentBlock :=
  let arguments := if tc.arguments = "" then "\x7b\x7d" else tc.arguments
  .toolUse tc.id tc.name ((env.parse arguments).getD (.obj []))

def assistantBlocks (env : Env) (m : ChatMessage) : List ContentBlock :=
  m.thinkingBlocks.map .thinking ++ textBlocks m.content ++ m.toolCalls.map (toolUseBlock env)

def userBlocks (m : ChatMessage) : List ContentBlock :=
  match m.contentParts with
  | some parts => parts.filterMap partBlock
  | none => textBlocks m.content

/-- `blocks.length > 0 ? { role, blocks } : null`. -/
def ofBlocks (role : WireRole) (blocks : List ContentBlock) : Option WireMessage :=
  if blocks = [] then none else some ⟨role, blocks⟩

def messageToBlocks (env : Env) (m : ChatMessage) : Option WireMessage :=
  match m.role with
  | .tool =>
      match m.toolCallId with
      | none => none
      | some id => if id = "" then none else some ⟨.user, [.toolResult id m.content (isError m.content) false]⟩
  | .assistant => ofBlocks .assistant (assistantBlocks env m)
  | .user | .system => ofBlocks .user (userBlocks m)

/-! ## A history -/

/-- `convo`: the history behind a system message at its head. -/
def conversation : List ChatMessage → List ChatMessage
  | [] => []
  | first :: rest => if first.role = .system then rest else first :: rest

def systemText : List ChatMessage → String
  | [] => ""
  | first :: _ => if first.role = .system then first.content else ""

/-- The blocks go to the last message where that has their role. -/
def push (wire : List WireMessage) (conv : WireMessage) : List WireMessage :=
  match wire.getLast? with
  | some tail =>
      if tail.role = conv.role then wire.dropLast ++ [{ tail with content := tail.content ++ conv.content }]
      else wire ++ [conv]
  | none => wire ++ [conv]

def coalesce (env : Env) (convo : List ChatMessage) : List WireMessage :=
  (convo.filterMap (messageToBlocks env)).foldl push []

/-- The block accepts a cache marker. -/
def ContentBlock.markable : ContentBlock → Bool
  | .text _ _ => true
  | .toolResult _ _ _ _ => true
  | _ => false

def ContentBlock.setCached (cached : Bool) : ContentBlock → ContentBlock
  | .text content _ => .text content cached
  | .toolResult id content isError _ => .toolResult id content isError cached
  | b => b

/-- The first block of the list that can take it gets the marker. -/
def markFirst : List ContentBlock → List ContentBlock
  | [] => []
  | b :: bs => if b.markable then b.setCached true :: bs else b :: markFirst bs

/-- The cache breakpoint, looked for from the end of the last message. -/
def breakpoint (wire : List WireMessage) : List WireMessage :=
  match wire.getLast? with
  | some lastMsg =>
      wire.dropLast ++ [{ lastMsg with content := (markFirst lastMsg.content.reverse).reverse }]
  | none => wire

structure Translation where
  system : List TextBlock
  wire : List WireMessage

def translate (env : Env) (messages : List ChatMessage) : Translation :=
  let convo := conversation messages
  let firstUser := convo.find? (fun m => m.role = .user)
  let firstUserText := (firstUser.map ChatMessage.content).getD ""
  { system := [⟨createBillingHeader env firstUserText, false⟩, ⟨CLAUDE_CODE_IDENTITY, false⟩] ++
      systemBlocks (segmentSystemPrompt (systemText messages))
    wire := breakpoint (coalesce env convo) }

/-! ## The blocks of a history -/

/-- A block is the same up to its cache marker. -/
def ContentBlock.erase (b : ContentBlock) : ContentBlock := b.setCached false

def ContentBlock.cached : ContentBlock → Bool
  | .text _ cached => cached
  | .toolResult _ _ _ cached => cached
  | _ => false

/-- The blocks of a wire message, each with its role. -/
def WireMessage.tagged (w : WireMessage) : List (WireRole × ContentBlock) :=
  w.content.map (fun b => (w.role, b))

/-- What a message of the history contributes. -/
def contributes (env : Env) (m : ChatMessage) : List (WireRole × ContentBlock) :=
  ((messageToBlocks env m).map WireMessage.tagged).getD []

theorem erase_eq_self {b : ContentBlock} (h : b.cached = false) : b.erase = b := by
  cases b with
  | text text cached => exact congrArg (ContentBlock.text text) h.symm
  | toolResult id content isError cached =>
      exact congrArg (ContentBlock.toolResult id content isError) h.symm
  | image source => rfl
  | toolUse id name input => rfl
  | thinking block => rfl

@[simp] theorem erase_setCached (b : ContentBlock) (cached : Bool) :
    (b.setCached cached).erase = b.erase := by
  cases b <;> rfl

/-! ### One message -/

theorem mem_ofBlocks {role : WireRole} {blocks : List ContentBlock} {w : WireMessage}
    (h : ofBlocks role blocks = some w) : w = ⟨role, blocks⟩ ∧ blocks ≠ [] := by
  unfold ofBlocks at h
  split at h
  · cases h
  · rename_i hne
    cases h
    exact ⟨rfl, hne⟩

theorem tagged_ofBlocks (role : WireRole) (blocks : List ContentBlock) :
    ((ofBlocks role blocks).map WireMessage.tagged).getD [] = blocks.map (fun b => (role, b)) := by
  unfold ofBlocks
  split
  · rename_i hnil
    simp [hnil]
  · rfl

theorem cached_textBlocks {content : String} : ∀ b ∈ textBlocks content, b.cached = false := by
  intro b hb
  unfold textBlocks at hb
  split at hb
  · cases hb
  · rw [List.mem_singleton.mp hb, ContentBlock.cached]

theorem cached_partBlock {part : ContentPart} {b : ContentBlock} (h : partBlock part = some b) :
    b.cached = false := by
  cases part with
  | text text => cases h; rfl
  | imageUrl url =>
      simp only [partBlock, imagePartToBlock] at h
      split at h
      · cases h; rfl
      · split at h <;> cases h
        rfl
  | other => cases h

variable {m : ChatMessage}

theorem cached_assistantBlocks {env : Env} :
    ∀ b ∈ assistantBlocks env m, b.cached = false := by
  intro b hb
  simp only [assistantBlocks, List.mem_append, List.mem_map] at hb
  rcases hb with (⟨block, -, rfl⟩ | hb) | ⟨tc, -, rfl⟩
  · rfl
  · exact cached_textBlocks b hb
  · rfl

theorem cached_userBlocks : ∀ b ∈ userBlocks m, b.cached = false := by
  intro b hb
  unfold userBlocks at hb
  split at hb
  · obtain ⟨part, -, hpart⟩ := List.mem_filterMap.mp hb
    exact cached_partBlock hpart
  · exact cached_textBlocks b hb

/-- A message becomes some blocks, and none of them carries a marker yet. -/
theorem messageToBlocks_fresh {env : Env} {w : WireMessage}
    (h : messageToBlocks env m = some w) : w.content ≠ [] ∧ ∀ b ∈ w.content, b.cached = false := by
  unfold messageToBlocks at h
  split at h
  · split at h
    · cases h
    · split at h <;> cases h
      simp [ContentBlock.cached]
  · obtain ⟨rfl, hne⟩ := mem_ofBlocks h
    exact ⟨hne, cached_assistantBlocks⟩
  all_goals
    obtain ⟨rfl, hne⟩ := mem_ofBlocks h
    exact ⟨hne, cached_userBlocks⟩

theorem contributes_assistant (env : Env) (h : m.role = .assistant) :
    contributes env m = (assistantBlocks env m).map (fun b => (.assistant, b)) := by
  rw [contributes, messageToBlocks, h]
  exact tagged_ofBlocks _ _

theorem contributes_user (env : Env) (h : m.role = .user ∨ m.role = .system) :
    contributes env m = (userBlocks m).map (fun b => (.user, b)) := by
  rcases h with h | h
  all_goals
    rw [contributes, messageToBlocks, h]
    exact tagged_ofBlocks _ _

theorem contributes_tool (env : Env) {id : String} (h : m.role = .tool)
    (hid : m.toolCallId = some id) (hne : id ≠ "") :
    contributes env m = [(.user, .toolResult id m.content (isError m.content) false)] := by
  rw [contributes, messageToBlocks, h, hid]
  simp [hne, WireMessage.tagged]

/-! ### Putting neighbours together -/

theorem push_cases (wire : List WireMessage) (conv : WireMessage) :
    (push wire conv = wire ++ [conv] ∧ ∀ tail ∈ wire.getLast?, tail.role ≠ conv.role) ∨
      ∃ front tail, wire = front ++ [tail] ∧ tail.role = conv.role ∧
        push wire conv = front ++ [{ tail with content := tail.content ++ conv.content }] := by
  rcases wire.eq_nil_or_concat with rfl | ⟨front, tail, rfl⟩
  · exact Or.inl ⟨rfl, by simp⟩
  · by_cases hrole : tail.role = conv.role
    · exact Or.inr ⟨front, tail, by simp, hrole, by simp [push, hrole]⟩
    · exact Or.inl ⟨by simp [push, hrole], by simpa using hrole⟩

theorem push_tagged (wire : List WireMessage) (conv : WireMessage) :
    (push wire conv).flatMap WireMessage.tagged =
      wire.flatMap WireMessage.tagged ++ conv.tagged := by
  rcases push_cases wire conv with ⟨hpush, -⟩ | ⟨front, tail, rfl, hrole, hpush⟩
  · simp [hpush]
  · rw [hpush]
    simp [WireMessage.tagged, hrole]

variable {wire : List WireMessage}

theorem push_alternates (conv : WireMessage)
    (h : (wire.map WireMessage.role).IsChain (· ≠ ·)) :
    ((push wire conv).map WireMessage.role).IsChain (· ≠ ·) := by
  rcases push_cases wire conv with ⟨hpush, hlast⟩ | ⟨front, tail, rfl, hrole, hpush⟩
  · rw [hpush, List.map_append, List.isChain_append]
    refine ⟨h, List.isChain_singleton _, fun role hrole role' hrole' => ?_⟩
    rw [List.getLast?_map] at hrole
    obtain ⟨tail, htail, rfl⟩ := Option.map_eq_some_iff.mp hrole
    cases hrole'
    exact hlast tail htail
  · -- the last message keeps its role
    rw [hpush]
    simpa using h

theorem push_nonempty {conv : WireMessage}
    (h : ∀ w ∈ wire, w.content ≠ []) (hconv : conv.content ≠ []) :
    ∀ w ∈ push wire conv, w.content ≠ [] := by
  intro w hw
  rcases push_cases wire conv with ⟨hpush, -⟩ | ⟨front, tail, rfl, -, hpush⟩
  all_goals
    rw [hpush, List.mem_append, List.mem_singleton] at hw
    rcases hw with hw | rfl
  · exact h w hw
  · exact hconv
  · exact h w (List.mem_append_left _ hw)
  · simp [hconv]

theorem foldl_push_tagged (convs : List WireMessage) (wire : List WireMessage) :
    (convs.foldl push wire).flatMap WireMessage.tagged =
      wire.flatMap WireMessage.tagged ++ convs.flatMap WireMessage.tagged := by
  induction convs generalizing wire with
  | nil => simp
  | cons conv rest ih => rw [List.foldl_cons, ih, push_tagged, List.append_assoc, List.flatMap_cons]

theorem foldl_push_alternates (convs : List WireMessage)
    (h : (wire.map WireMessage.role).IsChain (· ≠ ·)) :
    ((convs.foldl push wire).map WireMessage.role).IsChain (· ≠ ·) := by
  induction convs generalizing wire with
  | nil => exact h
  | cons conv rest ih => exact ih (push_alternates conv h)

theorem foldl_push_nonempty {convs : List WireMessage}
    (hconvs : ∀ w ∈ convs, w.content ≠ []) (h : ∀ w ∈ wire, w.content ≠ []) :
    ∀ w ∈ convs.foldl push wire, w.content ≠ [] := by
  induction convs generalizing wire with
  | nil => exact h
  | cons conv rest ih =>
      exact ih (fun w hw => hconvs w (List.mem_cons_of_mem _ hw))
        (push_nonempty h (hconvs conv List.mem_cons_self))

theorem coalesce_tagged (env : Env) (convo : List ChatMessage) :
    (coalesce env convo).flatMap WireMessage.tagged = convo.flatMap (contributes env) := by
  rw [coalesce, foldl_push_tagged, List.flatMap_nil, List.nil_append]
  induction convo with
  | nil => rfl
  | cons m rest ih =>
      rw [List.flatMap_cons, ← ih, contributes, List.filterMap_cons]
      cases messageToBlocks env m <;> simp

/-- Coalesced messages hold only fresh blocks. -/
theorem coalesce_fresh {env : Env} {convo : List ChatMessage} {role : WireRole} {b : ContentBlock}
    (h : (role, b) ∈ (coalesce env convo).flatMap WireMessage.tagged) : b.cached = false := by
  rw [coalesce_tagged] at h
  obtain ⟨m, -, hm⟩ := List.mem_flatMap.mp h
  unfold contributes at hm
  cases hconv : messageToBlocks env m with
  | none => simp [hconv] at hm
  | some w =>
      simp only [hconv, WireMessage.tagged, Option.map_some, Option.getD_some, List.mem_map,
        Prod.mk.injEq] at hm
      obtain ⟨b', hb', -, rfl⟩ := hm
      exact (messageToBlocks_fresh hconv).2 b' hb'

/-! ### The cache breakpoint -/

theorem markFirst_erase (bs : List ContentBlock) :
    (markFirst bs).map ContentBlock.erase = bs.map ContentBlock.erase := by
  induction bs with
  | nil => rfl
  | cons b rest ih =>
      unfold markFirst
      split
      · simp
      · simp [ih]

theorem markFirst_once {bs : List ContentBlock} (h : ∀ b ∈ bs, b.cached = false) :
    (markFirst bs).countP ContentBlock.cached ≤ 1 := by
  induction bs with
  | nil => exact Nat.zero_le 1
  | cons b rest ih =>
      have hrest : ∀ b ∈ rest, b.cached = false := fun b hb => h b (List.mem_cons_of_mem _ hb)
      unfold markFirst
      split
      · -- nothing behind the marked block is marked
        have hnone : rest.countP ContentBlock.cached = 0 := by
          rw [List.countP_eq_zero]
          intro b hb
          simp [hrest b hb]
        rw [List.countP_cons, hnone]
        split <;> omega
      · rw [List.countP_cons_of_neg (by simp [h b List.mem_cons_self])]
        exact ih hrest

/-- The messages up to the last stay, and the last one changes only its markers. -/
theorem breakpoint_cases (wire : List WireMessage) :
    (wire = [] ∧ breakpoint wire = []) ∨ ∃ front lastMsg, wire = front ++ [lastMsg] ∧
      breakpoint wire =
        front ++ [{ lastMsg with content := (markFirst lastMsg.content.reverse).reverse }] := by
  rcases wire.eq_nil_or_concat with rfl | ⟨front, lastMsg, rfl⟩
  · exact Or.inl ⟨rfl, rfl⟩
  · exact Or.inr ⟨front, lastMsg, by simp, by simp [breakpoint]⟩

theorem breakpoint_role (wire : List WireMessage) :
    (breakpoint wire).map WireMessage.role = wire.map WireMessage.role := by
  rcases breakpoint_cases wire with ⟨rfl, hb⟩ | ⟨front, lastMsg, rfl, hb⟩
  all_goals simp [hb]

theorem breakpoint_erase (wire : List WireMessage) :
    ((breakpoint wire).flatMap WireMessage.tagged).map (fun (role, b) => (role, b.erase)) =
      (wire.flatMap WireMessage.tagged).map (fun (role, b) => (role, b.erase)) := by
  rcases breakpoint_cases wire with ⟨rfl, hb⟩ | ⟨front, lastMsg, rfl, hb⟩
  · rw [hb]
  · have hlast : ((markFirst lastMsg.content.reverse).reverse).map ContentBlock.erase =
        lastMsg.content.map ContentBlock.erase := by
      rw [List.map_reverse, markFirst_erase, ← List.map_reverse, List.reverse_reverse]
    have htag : ∀ bs : List ContentBlock, bs.map (fun b => (lastMsg.role, b.erase)) =
        (bs.map ContentBlock.erase).map (fun b => (lastMsg.role, b)) := by
      intro bs
      rw [List.map_map]
      rfl
    rw [hb]
    simp only [List.flatMap_append, List.flatMap_singleton, List.map_append, WireMessage.tagged,
      List.map_map, Function.comp_def]
    rw [htag, hlast, ← htag]

theorem breakpoint_nonempty (h : ∀ w ∈ wire, w.content ≠ []) :
    ∀ w ∈ breakpoint wire, w.content ≠ [] := by
  intro w hw
  rcases breakpoint_cases wire with ⟨rfl, hb⟩ | ⟨front, lastMsg, rfl, hb⟩
  · rw [hb] at hw
    cases hw
  · rw [hb, List.mem_append, List.mem_singleton] at hw
    rcases hw with hw | rfl
    · exact h w (List.mem_append_left _ hw)
    · have hlast := h lastMsg (by simp)
      intro hnil
      have := congrArg List.length hnil
      have herase := congrArg List.length (markFirst_erase lastMsg.content.reverse)
      simp only [List.length_map, List.length_reverse, List.length_nil] at this herase
      exact hlast (List.length_eq_zero_iff.mp (herase.symm.trans this))

theorem breakpoint_once
    (h : ∀ w ∈ wire, ∀ b ∈ w.content, b.cached = false) :
    ((breakpoint wire).flatMap WireMessage.content).countP ContentBlock.cached ≤ 1 := by
  rcases breakpoint_cases wire with ⟨rfl, hb⟩ | ⟨front, lastMsg, rfl, hb⟩
  · simp [hb]
  · have hfront : (front.flatMap WireMessage.content).countP ContentBlock.cached = 0 := by
      rw [List.countP_eq_zero]
      intro b hmem
      obtain ⟨w, hw, hbw⟩ := List.mem_flatMap.mp hmem
      simp [h w (List.mem_append_left _ hw) b hbw]
    have hlast := @markFirst_once lastMsg.content.reverse (fun b hmem =>
      h lastMsg (by simp) b (List.mem_reverse.mp hmem))
    rw [hb, List.flatMap_append, List.countP_append, hfront, List.flatMap_singleton,
      List.countP_reverse, Nat.zero_add]
    exact hlast

/-! ### The system prompt -/

/-- A text at a blank line falls into the part before it, the blank line and the rest. -/
theorem drop_blankLine {cs : List Char} {i : ℕ} (h : "\n\n".toList <+: cs.drop i) :
    cs.drop i = "\n\n".toList ++ cs.drop (i + 2) := by
  obtain ⟨rest, hrest⟩ := h
  have htail : rest = cs.drop (i + 2) := by
    have := congrArg (List.drop 2) hrest
    simpa [List.drop_drop] using this
  rw [← htail, hrest]

/-- The marker of the soul does not begin inside that of the memory's blank line. -/
theorem markers_apart {cs : List Char} {i : ℕ} (hmem : MEMORY_MARKER <+: cs.drop i)
    (hsoul : SOUL_MARKER <+: cs.drop (i + 1)) : False := by
  obtain ⟨rest, hrest⟩ := (by decide : ['\n', '\n', '#'] <+: MEMORY_MARKER).trans hmem
  obtain ⟨rest', hrest'⟩ := (by decide : ['\n', '\n'] <+: SOUL_MARKER).trans hsoul
  -- the second characters behind the place are a hash and a line feed
  rw [← List.tail_drop, ← hrest] at hrest'
  simp at hrest'

/-- The segments of a prompt are its parts between blank lines: nothing of it is lost. -/
theorem segmentSystemPrompt_join (full : String) :
    List.intercalate "\n\n".toList ((segmentSystemPrompt full).map (fun s => s.text.toList)) =
      full.toList := by
  have hone : List.intercalate "\n\n".toList [full.toList] = full.toList := by simp [List.intercalate]
  simp only [segmentSystemPrompt]
  split
  case h_2 => exact hone
  case h_1 memIdx soulIdx hmem hsoul =>
    have hmem := (Lib.Substring.indexOf_eq_some hmem).1
    have hsoul := (Lib.Substring.indexOf_eq_some hsoul).1
    split
    · exact hone
    · rename_i hlt
      have hge : memIdx + 2 ≤ soulIdx := by
        by_contra hnot
        have hsucc : soulIdx = memIdx + 1 := by omega
        rw [hsucc] at hsoul
        exact markers_apart hmem hsoul
      have h1 := drop_blankLine ((by decide : "\n\n".toList <+: MEMORY_MARKER).trans hmem)
      have h2 := drop_blankLine ((by decide : "\n\n".toList <+: SOUL_MARKER).trans hsoul)
      calc List.intercalate "\n\n".toList _
          = full.toList.take memIdx ++ ("\n\n".toList ++ ((full.toList.take soulIdx).drop (memIdx + 2) ++
              ("\n\n".toList ++ full.toList.drop (soulIdx + 2)))) := by
            simp [List.intercalate]
        _ = full.toList.take memIdx ++ ("\n\n".toList ++ full.toList.drop (memIdx + 2)) := by
            obtain ⟨k, rfl⟩ := Nat.exists_eq_add_of_le hge
            rw [← h2, List.drop_take, Nat.add_sub_cancel_left, ← List.drop_drop (i := k),
              List.take_append_drop]
        _ = full.toList := by rw [← h1, List.take_append_drop]

theorem systemBlocks_text (segments : List SystemSegment) :
    (systemBlocks segments).map TextBlock.text = segments.map SystemSegment.text := by
  apply List.ext_getElem
  · simp [systemBlocks]
  · intro i h1 h2
    simp [systemBlocks]

/-! ## A history and its translation -/

/-- Roles alternate, the blocks are those of the messages in their order, each under the role
of its message, with one cache marker at most, and each message's blocks are all there: the
thinking of an assistant message first, a call's result under the id of the call. Only a
result without an id is left out, and a system message at the head goes to the system
blocks. -/
theorem translate_faithful (env : Env) (messages : List ChatMessage) :
    (((translate env messages).wire.map WireMessage.role).IsChain (· ≠ ·) ∧
      (∀ w ∈ (translate env messages).wire, w.content ≠ [])) ∧
    (((translate env messages).wire.flatMap WireMessage.tagged).map (fun (role, b) => (role, b.erase)) =
        (conversation messages).flatMap (contributes env) ∧
      ((translate env messages).wire.flatMap WireMessage.content).countP ContentBlock.cached ≤ 1) ∧
    (∀ m ∈ conversation messages,
      (m.role = .assistant → contributes env m =
        (m.thinkingBlocks.map ContentBlock.thinking ++ textBlocks m.content ++
          m.toolCalls.map (toolUseBlock env)).map (fun b => (.assistant, b))) ∧
      (m.role = .user ∨ m.role = .system →
        contributes env m = (userBlocks m).map (fun b => (.user, b))) ∧
      (m.role = .tool → ∀ id, m.toolCallId = some id → id ≠ "" →
        ∃ w ∈ (translate env messages).wire, w.role = .user ∧
          ∃ cached, ContentBlock.toolResult id m.content (isError m.content) cached ∈ w.content) ∧
      (m.role = .tool → m.toolCallId = none ∨ m.toolCallId = some "" → contributes env m = [])) ∧
    List.intercalate "\n\n".toList (((translate env messages).system.drop 2).map (fun b => b.text.toList)) =
      (systemText messages).toList := by
  have herased : ((translate env messages).wire.flatMap WireMessage.tagged).map
      (fun (role, b) => (role, b.erase)) = (conversation messages).flatMap (contributes env) := by
    rw [translate, breakpoint_erase, List.map_congr_left (g := id), List.map_id, coalesce_tagged]
    rintro ⟨role, b⟩ hb
    exact congrArg (Prod.mk role) (erase_eq_self (coalesce_fresh hb))
  refine ⟨⟨?_, ?_⟩, ⟨herased, ?_⟩, fun m hm => ⟨contributes_assistant env, contributes_user env, ?_, ?_⟩, ?_⟩
  · rw [translate, breakpoint_role]
    exact foldl_push_alternates _ List.isChain_nil
  · refine breakpoint_nonempty (foldl_push_nonempty (fun w hw => ?_) (by simp))
    obtain ⟨m, -, hm⟩ := List.mem_filterMap.mp hw
    exact (messageToBlocks_fresh hm).1
  · refine breakpoint_once (fun w hw b hb => ?_)
    exact coalesce_fresh (List.mem_flatMap.mpr ⟨w, hw, List.mem_map.mpr ⟨b, hb, rfl⟩⟩)
  · -- the result is among the contributions, so it is on the wire up to its marker
    intro hrole id hid hne
    have hmem : (WireRole.user, ContentBlock.toolResult id m.content (isError m.content) false) ∈
        (conversation messages).flatMap (contributes env) :=
      List.mem_flatMap.mpr ⟨m, hm, by rw [contributes_tool env hrole hid hne]; exact List.mem_singleton_self _⟩
    rw [← herased] at hmem
    obtain ⟨⟨role, b⟩, htagged, heq⟩ := List.mem_map.mp hmem
    obtain ⟨w, hw, hb⟩ := List.mem_flatMap.mp htagged
    obtain ⟨b', hb', hpair⟩ := List.mem_map.mp hb
    cases hpair
    obtain ⟨hrole', hblock⟩ := Prod.mk.inj heq
    refine ⟨w, hw, hrole', ?_⟩
    cases b with
    | toolResult id' content isError' cached =>
        cases hblock
        exact ⟨cached, hb'⟩
    | _ => cases hblock
  · intro hrole hid
    rw [contributes, messageToBlocks, hrole]
    rcases hid with hid | hid <;> simp [hid]
  · have htexts : (translate env messages).system.drop 2 =
        systemBlocks (segmentSystemPrompt (systemText messages)) := rfl
    rw [htexts, ← segmentSystemPrompt_join (systemText messages), ← Function.comp_def String.toList,
      ← List.map_map, systemBlocks_text, List.map_map]
    rfl

/-- A result whose call id is the empty text is on no wire message. -/
theorem translate_drops_result : ¬ ∀ (env : Env) (messages : List ChatMessage), ∀ m ∈ messages,
    m.role = .tool → ∃ w ∈ (translate env messages).wire,
      ∃ content isError cached,
        ContentBlock.toolResult (m.toolCallId.getD "") content isError cached ∈ w.content := by
  intro h
  obtain ⟨w, hw, -⟩ := h ⟨fun _ => none, fun _ => ""⟩
    [{ role := .tool, content := "done", toolCallId := some "" }] _ List.mem_cons_self rfl
  cases hw

end Elpis.Llm.Provider
