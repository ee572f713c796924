import Elpis.Js.Search

/-!
# The envelope of an inbound message

`src/lib/envelope.ts`: the text that shows a message to the agent, and the readers that get
the utterance, the author and the time back out of it. Texts are lists of characters, and a
regular expression is the function that takes what it takes. Sizes and frame numbers are
natural numbers, `Date.parse` is a parameter.
-/

namespace Elpis.Inbound

open Js Lib

abbrev Text := List Char

/-- A text's characters are asked one after the other, never all the characters there are. -/
instance (priority := 2000) decidableAllText (p : Char → Prop) [DecidablePred p] (text : Text) :
    Decidable (∀ c ∈ text, p c) := text.decidableBAll p

instance (priority := 2000) decidableAllHead (p : Char → Prop) [DecidablePred p] (head : Option Char) :
    Decidable (∀ c ∈ head, p c) := Option.decidableForallMem head

/-! ## Escaping -/

def escapeChar (c : Char) : Text :=
  if c = '&' then "&amp;".toList
  else if c = '<' then "&lt;".toList
  else if c = '>' then "&gt;".toList
  else if c = '"' then "&quot;".toList
  else if c = '\x27' then "&#39;".toList
  else [c]

/-- The replacements run one after the other, that of `&` first. -/
def escapeXmlAttr (value : Text) : Text := value.flatMap escapeChar

/-- `\w`. -/
def isWord (c : Char) : Bool := c.isAlphanum || c == '_'

/-- The text behind a word that begins the text in any case. -/
def stripWord : Text → Text → Option Text
  | [], cs => some cs
  | _ :: _, [] => none
  | p :: ps, c :: cs => if c.toLower = p then stripWord ps cs else none

/-- `\b` behind a letter. -/
def atBoundary (cs : Text) : Bool := cs.head?.all (fun c => !isWord c)

/-- One of the names, as a word of its own. -/
def beginsWithName (names : List Text) (cs : Text) : Bool :=
  names.any (fun name => (stripWord name cs).any atBoundary)

def opensTag (names : List Text) : Text → Bool
  | '<' :: cs => beginsWithName names cs
  | _ => false

def closesTag (names : List Text) : Text → Bool
  | '<' :: '/' :: cs => beginsWithName names cs
  | _ => false

def INCOMING_MESSAGE : Text := "incoming-message".toList

def envelopeTagNames : List Text :=
  [INCOMING_MESSAGE, "reply-to".toList, "forwarded-from".toList, "mentions".toList,
    "attachment-content".toList]

/-- `ENVELOPE_TAG_RE` matches here. -/
def isEnvelopeTag (cs : Text) : Bool := opensTag envelopeTagNames cs || closesTag envelopeTagNames cs

/-- `value.replace(ENVELOPE_TAG_RE, '&lt;$1')`. -/
def neutralizeEnvelopeTags (value : Text) : Text := replaceMarks isEnvelopeTag "&lt;".toList value

/-! ## Building -/

structure InboundMessageAttachment where
  name : Text
  contentType : Option Text
  localPath : Option Text
  size : ℕ
  inlineText : Option Text := none
  forwarded : Bool := false
deriving DecidableEq

structure ReplyTo where
  id : Text
  author : Text
  content : Text
  signalQuote : Bool := false
deriving DecidableEq

structure Forwarded where
  author : Text
  channelName : Option Text
  content : Text
deriving DecidableEq

structure EnvelopeMessage where
  channelName : Text
  author : Text
  createdAt : Text
  content : Text
  replyTo : Option ReplyTo := none
  forwarded : Option Forwarded := none
  mentions : List Text := []
  attachments : List InboundMessageAttachment := []
  guildSlug : Option Text := none
  voice : Bool := false
  signal : Bool := false
  bot : Option Bool := none
deriving DecidableEq

inductive InboundReplyNotice where
  | send | configDenied | ambientDenied
deriving DecidableEq

def InboundReplyNotice.text : InboundReplyNotice → Text
  | .send =>
      "REMINDER: use elpis.channel(...).send(...) to respond. Returned turn content will be discarded, not sent.".toList
  | .configDenied =>
      "NOTE: you can't reply to this message due to channel configuration (allow_send=false). You can still observe and remember it.".toList
  | .ambientDenied =>
      "NOTE: you can't reply to this message during this ambient observation turn due to configuration (discord.ambient_allow_send=false). You can still observe and remember it.".toList

/-- `value || placeholder`. -/
def orText (value placeholder : Text) : Text := if value = [] then placeholder else value

def numeral (n : ℕ) : Text := (toString n).toList

/-- `key="value"` with the value escaped. -/
def attrText (key : String) (value : Text) : Text := key.toList ++ "=\"".toList ++ escapeXmlAttr value ++ "\"".toList

/-! ### Animations -/

inductive AnimationKind where
  | emote | sticker
deriving DecidableEq

def AnimationKind.text : AnimationKind → Text
  | .emote => "emote".toList
  | .sticker => "sticker".toList

structure AnimationFrame where
  kind : AnimationKind
  name : Text
  id : Text
  frame : ℕ
  count : ℕ

def readNumber (digits : Text) : ℕ := digits.foldl (fun n d => 10 * n + (d.toNat - '0'.toNat)) 0

/-- The digits at the end of the text, what stands before them and before `lit`. -/
def digitsBehind (lit : Text) (cs : Text) : Option (Text × Text) :=
  let digits := (cs.reverse.takeWhile Char.isDigit).reverse
  let before := (cs.reverse.dropWhile Char.isDigit).reverse
  if digits ≠ [] ∧ lit.isSuffixOf before then some (before.take (before.length - lit.length), digits)
  else none

/-- `(emote|sticker)-(.+)`, the whole text. -/
def kindAndName (cs : Text) : Option (AnimationKind × Text) :=
  let named (kind : AnimationKind) : Option (AnimationKind × Text) :=
    let name := cs.drop (kind.text.length + 1)
    if (kind.text ++ "-".toList).isPrefixOf cs ∧ name ≠ [] ∧ name.all (fun c => !isLineEnd c)
    then some (kind, name) else none
  (named .emote).or (named .sticker)

/-- `ANIMATION_FRAME_NAME_RE`. From the end of the name on, each of its parts is the only one
that fits. -/
def matchFrameName (name : Text) : Option AnimationFrame := do
  let extension := name.reverse.takeWhile (fun c => c ≠ '.')
  if extension = [] ∨ extension.length = name.length then none
  else
    let (rest, count) ← digitsBehind "of".toList (name.take (name.length - extension.length - 1))
    let (rest, frame) ← digitsBehind "-frame".toList rest
    let (rest, id) ← digitsBehind "-".toList rest
    let (kind, name) ← kindAndName rest
    return { kind, name, id, frame := readNumber frame, count := readNumber count }

structure AnimationFrameGroup where
  kind : AnimationKind
  name : Text
  id : Text
  count : ℕ
  /-- Number of the attachment and of the frame. -/
  frames : List (ℕ × ℕ)

/-- The frame goes to the group of its kind, id and count, or to a new one. -/
def addFrame (frame : AnimationFrame) (attachment : ℕ) : List AnimationFrameGroup → List AnimationFrameGroup
  | [] =>
      [{ kind := frame.kind, name := frame.name, id := frame.id, count := frame.count
         frames := [(attachment, frame.frame)] }]
  | g :: groups =>
      if g.kind = frame.kind ∧ g.id = frame.id ∧ g.count = frame.count then
        { g with frames := g.frames ++ [(attachment, frame.frame)] } :: groups
      else g :: addFrame frame attachment groups

def addAttachment (groups : List AnimationFrameGroup) (a : InboundMessageAttachment × ℕ) :
    List AnimationFrameGroup :=
  match matchFrameName a.1.name with
  | none => groups
  | some frame =>
      if frame.count ≤ 1 ∨ frame.frame < 1 ∨ frame.count < frame.frame then groups
      else addFrame frame (a.2 + 1) groups

def animationFrameGroups (attachments : List InboundMessageAttachment) : List AnimationFrameGroup :=
  ((attachments.zipIdx.foldl addAttachment []).filter (fun g => 1 < g.frames.length)).map
    (fun g => { g with frames := g.frames.mergeSort (fun f f' => f.2 ≤ f'.2) })

def groupPart (g : AnimationFrameGroup) : Text :=
  "<animation-frames kind=\"".toList ++ g.kind.text ++ "\" name=\"".toList ++ escapeXmlAttr g.name ++
    "\" id=\"".toList ++ g.id ++
    "\" attachments=\"".toList ++ List.intercalate ",".toList (g.frames.map (fun f => numeral f.1)) ++
    "\" frames=\"".toList ++ List.intercalate ",".toList (g.frames.map (fun f => numeral f.2)) ++
    "\" count=\"".toList ++ numeral g.count ++ "\">ONE animated ".toList ++ g.kind.text ++
    " sampled into temporal keyframes. Read these attachments in frame order as one animation, not as separate images or emotes.".toList ++
    "</animation-frames>".toList

/-! ### Attachments -/

def pathText : Option Text → Text
  | some path => if path = [] then [] else " -> ".toList ++ path
  | none => []

/-- The index line of an attachment. Its texts go in as they are. -/
def indexPart (a : InboundMessageAttachment × ℕ) : Text :=
  "attachment#".toList ++ numeral (a.2 + 1) ++ ": ".toList ++ a.1.name ++ " (".toList ++
    a.1.contentType.getD "unknown/type".toList ++ ", ".toList ++ numeral a.1.size ++ " bytes)".toList ++
    (if a.1.forwarded then " [forwarded]".toList else []) ++
    pathText a.1.localPath ++
    (if a.1.inlineText.isSome then " (inlined below)".toList else [])

def contentPart (a : InboundMessageAttachment) : Option Text :=
  a.inlineText.map (fun body =>
    "<attachment-content ".toList ++ attrText "name" a.name ++
      (if a.forwarded then " source=\"forwarded\"".toList else []) ++ ">".toList ++
      neutralizeEnvelopeTags body ++ "</attachment-content>".toList)

def formatAttachmentParts (attachments : List InboundMessageAttachment) : List Text :=
  (animationFrameGroups attachments).map groupPart ++ attachments.zipIdx.map indexPart ++
    attachments.filterMap contentPart

/-! ### The envelope -/

/-- `localMarker.replace(/^\[|\]$/g, '')`. -/
def stripBrackets (marker : Text) : Text :=
  let marker := if marker.head? = some '[' then marker.drop 1 else marker
  if marker.getLast? = some ']' then marker.dropLast else marker

def envelopeAttrs (m : EnvelopeMessage) (localMarker : Text) : List Text :=
  (m.guildSlug.map (attrText "guild")).toList ++ [attrText "channel" m.channelName] ++
    [attrText "author" m.author] ++
    (if m.signal then ["transport=\"signal\"".toList] else []) ++
    (if m.voice then ["source=\"voice\"".toList] else []) ++
    (m.bot.map (fun bot => attrText "bot" (toString bot).toList)).toList ++
    [attrText "time" m.createdAt] ++ [attrText "local-time" (stripBrackets localMarker)]

def replyPart (r : ReplyTo) : Text :=
  "<reply-to ".toList ++ attrText "id" r.id ++ " ".toList ++ attrText "author" r.author ++
    (if r.signalQuote then " source=\"signal-quote\"".toList else []) ++ ">".toList ++
    neutralizeEnvelopeTags (orText r.content "(no content)".toList) ++ "</reply-to>".toList

def forwardedPart (f : Forwarded) : Text :=
  "<forwarded-from ".toList ++ attrText "channel" (f.channelName.getD "unknown".toList) ++ " ".toList ++
    attrText "author" f.author ++ ">".toList ++
    neutralizeEnvelopeTags (orText f.content "(no content)".toList) ++ "</forwarded-from>".toList

def mentionsPart (mentions : List Text) : Text :=
  "<mentions>".toList ++ escapeXmlAttr (List.intercalate ", ".toList mentions) ++ "</mentions>".toList

/-- The structured children, in order. -/
def childParts (m : EnvelopeMessage) : List Text :=
  (m.replyTo.map replyPart).toList ++ (m.forwarded.map forwardedPart).toList ++
    (if m.mentions = [] then [] else [mentionsPart m.mentions]) ++ formatAttachmentParts m.attachments

def openTag (m : EnvelopeMessage) (localMarker : Text) : Text :=
  "<incoming-message ".toList ++ List.intercalate " ".toList (envelopeAttrs m localMarker) ++ ">".toList

/-- The text of the message, as it stands in the envelope. -/
def envelopeBody (m : EnvelopeMessage) : Text :=
  neutralizeEnvelopeTags (orText m.content "(no text content)".toList)

def formatInboundEnvelope (m : EnvelopeMessage) (localMarker : Text)
    (replyNotice : Option InboundReplyNotice) : Text :=
  List.intercalate "\n".toList
    ([openTag m localMarker] ++ (childParts m).map (fun s => "  ".toList ++ s) ++ [envelopeBody m] ++
      ["</incoming-message>".toList] ++ (replyNotice.map InboundReplyNotice.text).toList)

/-! ## Reading -/

def ENVELOPE_CHILD_TAGS : List Text :=
  ["reply-to".toList, "forwarded-from".toList, "mentions".toList, "animation-frames".toList,
    "attachment-content".toList]

/-- `/^attachment#\d+:[^\n]*/`, and what is behind it. -/
def indexLine (rest : Text) : Option Text :=
  let digits := (rest.drop 11).takeWhile Char.isDigit
  let behind := (rest.drop 11).dropWhile Char.isDigit
  if "attachment#".toList.isPrefixOf rest ∧ digits ≠ [] ∧ behind.head? = some ':' then
    some (behind.dropWhile (fun c => c ≠ '\n'))
  else none

/-- What is behind the child that begins the text. -/
def leadingChild (rest : Text) : Option Text :=
  match ENVELOPE_CHILD_TAGS.find? (fun t => ('<' :: t).isPrefixOf rest) with
  | some t => (indexOf ("</".toList ++ t ++ ">".toList) rest).map (fun ci => rest.drop (ci + t.length + 3))
  | none => indexLine rest

theorem indexLine_length {rest more : Text} (h : indexLine rest = some more) : more.length < rest.length := by
  unfold indexLine at h
  simp only at h
  split at h
  · rename_i hline
    cases h
    have hlen : (List.dropWhile Char.isDigit (rest.drop 11)).length ≤ (rest.drop 11).length :=
      (List.dropWhile_suffix _).length_le
    have hpre := (List.isPrefixOf_iff_prefix.mp hline.1).length_le
    have hpos : 0 < (List.dropWhile Char.isDigit (rest.drop 11)).length := by
      rw [List.length_pos_iff]
      rintro hnil
      simp [hnil] at hline
    have hrest := (List.dropWhile_suffix (fun c => decide (c ≠ '\n'))
      (l := List.dropWhile Char.isDigit (rest.drop 11))).length_le
    rw [List.length_drop] at hlen
    have : "attachment#".toList.length = 11 := rfl
    omega
  · cases h

theorem leadingChild_length {rest more : Text} (h : leadingChild rest = some more) :
    more.length < rest.length := by
  unfold leadingChild at h
  split at h
  · rename_i t ht
    obtain ⟨ci, -, rfl⟩ := Option.map_eq_some_iff.mp h
    have hpre := List.find?_some ht
    have hlen := (List.isPrefixOf_iff_prefix.mp hpre).length_le
    rw [List.length_drop]
    rw [List.length_cons] at hlen
    omega
  · exact indexLine_length h

def stripLeadingChildren (region : Text) : Text :=
  match _h : leadingChild (region.dropWhile isSpace) with
  | some more => stripLeadingChildren more
  | none => region.dropWhile isSpace
termination_by region.length
decreasing_by
  have hlen : (region.dropWhile isSpace).length ≤ region.length := (List.dropWhile_suffix _).length_le
  have := leadingChild_length _h
  omega

def extractUtterance (stored : Text) : Text :=
  match indexOf "<incoming-message".toList stored with
  | none => trimList stored
  | some start =>
      match indexOf ">".toList (stored.drop start) with
      | none => trimList stored
      | some past =>
          let openEnd := start + past
          let region := match lastIndexOf "</incoming-message>".toList stored with
            | some close => if openEnd < close then (stored.take close).drop (openEnd + 1) else stored.drop (openEnd + 1)
            | none => stored.drop (openEnd + 1)
          trimList (stripLeadingChildren region)

/-- The text up to `stop`, where `stop` occurs. -/
def upTo (stop : Char) (cs : Text) : Option Text :=
  if stop ∈ cs then some (cs.takeWhile (fun c => c ≠ stop)) else none

/-- `/<incoming-message([^>]*)>/`. -/
def matchOpenTag (content : Text) : Option Text :=
  (indexOf "<incoming-message".toList content).bind (fun i => upTo '>' (content.drop (i + 17)))

/-- `/\s+key="([^"]*)"/`. -/
def matchAttribute (key : Text) : Text → Option Text
  | [] => none
  | c :: cs =>
      if isSpace c ∧ (key ++ "=\"".toList).isPrefixOf cs then
        match upTo '"' (cs.drop (key.length + 2)) with
        | some value => some value
        | none => matchAttribute key cs
      else matchAttribute key cs

structure ParsedEnvelope where
  author : Option Text
  ts : Option ℤ
deriving DecidableEq

/-- The legacy header behind its optional clock: `#\S+\s+<([^>]+)>(?:\s+\(([^)]+)\))?`. -/
def matchLegacy (header : Text) : Option (Text × Option Text) :=
  match header with
  | '#' :: cs =>
      let channel := cs.takeWhile (fun c => !isSpace c)
      let gap := (cs.dropWhile (fun c => !isSpace c)).takeWhile isSpace
      match (cs.dropWhile (fun c => !isSpace c)).dropWhile isSpace with
      | '<' :: rest =>
          match upTo '>' rest with
          | some author =>
              let tail := rest.drop (author.length + 1)
              let spaces := tail.takeWhile isSpace
              let iso := match tail.dropWhile isSpace with
                | '(' :: inner =>
                    (upTo ')' inner).filter (fun iso => spaces ≠ [] ∧ iso ≠ [])
                | _ => none
              if channel ≠ [] ∧ gap ≠ [] ∧ author ≠ [] then some (author, iso) else none
          | none => none
      | _ => none
  | _ => none

/-- `(?:\[[^\]]+\]\s*)?` at the start of the line. -/
def skipClock (first : Text) : Text :=
  match first with
  | '[' :: cs =>
      match upTo ']' cs with
      | some clock => if clock = [] then first else (cs.drop (clock.length + 1)).dropWhile isSpace
      | none => first
  | _ => first

def parseLegacy (dateParse : Text → Option ℤ) (content : Text) : ParsedEnvelope :=
  match matchLegacy (skipClock (content.takeWhile (fun c => c ≠ '\n'))) with
  | none => ⟨none, none⟩
  | some (author, iso) => ⟨some author, iso.bind dateParse⟩

/-- `dateParse` is `Date.parse`, `none` where it is not a finite number. -/
def parseEnvelope (dateParse : Text → Option ℤ) (content : Text) : ParsedEnvelope :=
  match matchOpenTag content with
  | none => parseLegacy dateParse content
  | some attrs =>
      match matchAttribute "author".toList attrs, matchAttribute "time".toList attrs with
      | some author, some time =>
          if author ≠ [] ∧ time ≠ [] then ⟨some author, dateParse time⟩ else parseLegacy dateParse content
      | _, _ => parseLegacy dateParse content

end Elpis.Inbound
