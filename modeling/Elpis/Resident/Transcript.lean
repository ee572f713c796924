import Elpis.Llm.Message

/-!
# The transcript of the resident

`src/store/sessions.ts`: a message is written to the transcript as a line, and a restart
reads the newest file back. `persistable` leaves out what is not worth a line, and
`parseChatMessage` admits one field after the other, so a message may come back with less
than it had. `parseChatMessage_eq_iff` says which messages come back whole.

The attribution of a message is read by parsers of its own. They are a parameter here:
nothing below depends on what they accept.
-/

namespace Elpis.Resident

open Elpis.Llm

/-! ## Field checks -/

/-- `Number.isSafeInteger`. -/
def isSafeInteger (n : ℤ) : Bool := decide (-9007199254740991 ≤ n) && decide (n ≤ 9007199254740991)

/-- `/^[a-f0-9]{64}$/`. -/
def isSha256 (s : String) : Bool :=
  decide (s.toList.length = 64) && s.toList.all (fun c => "0123456789abcdef".toList.contains c)

def isBoundedId (pre : String) (s : String) : Bool :=
  pre.toList.isPrefixOf s.toList && decide (Js.length pre < Js.length s) &&
    decide (Js.length s ≤ 512) &&
    s.toList.all (fun c => decide (32 ≤ c.toNat) && decide (c.toNat ≠ 127))

/-- The check of a lineage field. `sequence` is a number, written in decimal. -/
def lineageField : String × String → Bool
  | ("worldId", value) | ("sharedFromWorldId", value) => isBoundedId "world:" value
  | ("branchId", value) => isBoundedId "branch:" value
  | ("eventId", value) => isBoundedId "event:" value
  | ("sequence", value) =>
      match value.toNat? with
      | some n => decide (toString n = value) && decide (0 < n) && isSafeInteger n
      | none => false
  | ("viewManifestHash", value) => isSha256 value
  | _ => false

/-- The check of a person marker. -/
def personBounded (p : PersonContext) : Bool :=
  decide (0 < Js.length p.authorId) && decide (Js.length p.authorId ≤ 256) &&
    decide (0 < Js.length p.author) && decide (Js.length p.author ≤ 256)

/-- `/^[a-z0-9][a-z0-9._-]{0,63}$/i`. -/
def isSkillName (s : String) : Bool :=
  match s.toList with
  | [] => false
  | c :: cs =>
      c.isAlphanum && decide (cs.length ≤ 63) &&
        cs.all (fun d => d.isAlphanum || decide (d = '.') || decide (d = '_') || decide (d = '-'))

/-- `path.isAbsolute`. -/
def isAbsolute (path : String) : Bool := "/".toList.isPrefixOf path.toList

/-- `path.basename`: what stands after the last slash, closing slashes apart. -/
def basename (path : String) : String :=
  String.ofList
    (((path.toList.reverse.dropWhile (fun c => decide (c = '/'))).takeWhile
      (fun c => decide (c ≠ '/'))).reverse)

/-- The check of a resource descriptor. -/
def descriptorBounded (d : ContextResourceDescriptor) : Bool :=
  decide (0 < Js.length d.key) && decide (Js.length d.key ≤ 4096) &&
    decide (0 < Js.length d.display) && decide (Js.length d.display ≤ 4096) &&
    isSha256 d.version &&
    match d.kind with
    | .skill => isSkillName d.key && decide (d.display = d.key)
    | .agents =>
        isAbsolute d.key && decide (basename d.key = "AGENTS.md") && isAbsolute d.display &&
          decide (basename d.display = "AGENTS.md")

def parseContextResourceDescriptors (ds : List ContextResourceDescriptor) :
    List ContextResourceDescriptor :=
  (ds.take 32).filter descriptorBounded

/-- `normalizeVoiceDelivery`: at most 32 KiB of speech and an hour of playing. -/
def voiceBounded (v : VoiceDelivery) : Bool :=
  decide (v.transcript.utf8ByteSize ≤ 32 * 1024) && decide (0 ≤ v.playedMs) &&
    decide (v.playedMs ≤ 60 * 60 * 1000)

/-- `/^[0-9]{1,20}$/`. -/
def isSnowflake (s : String) : Bool :=
  decide (0 < s.toList.length) && decide (s.toList.length ≤ 20) && s.toList.all Char.isDigit

/-- What is read back of a recorded send. -/
def parseSend (s : RecordedSend) : RecordedSend :=
  { channel := s.channel, text := s.text, replyTo := s.replyTo.filter isSnowflake,
    mentions := s.mentions, voice := s.voice.filter voiceBounded }

/-- What is read back of the wake in the metadata of a run. -/
def parseWake (w : RunWakeMetadata) : Option RunWakeMetadata :=
  if isSafeInteger w.requestedAt then
    some { w with
      targetAt := w.targetAt.filter isSafeInteger
      taskId := w.taskId.filter (fun n => isSafeInteger n)
      note := w.note.filter (fun t => decide (0 < Js.length t) && decide (Js.length t ≤ 512)) }
  else none

/-! ## Lines -/

/-- The parsers of a message's attribution: `parseGenerationProvenance`,
`parseRecordedResidentToolBatch` for the calls of the message, and
`parseRunMessageMetadata` apart from the wake. -/
structure Readers where
  provenance : String → Option String
  toolBatch : String → List ToolCall → Option String
  run : String → Option String

/-- `isTrustedOpaqueReplay` for the replay identity of a configuration. -/
abbrev Trust := Option String → Bool

def persistable (m : ChatMessage) : ChatMessage := { m with contentParts := none }

/-- What `pushMessage` writes of a message. -/
def stored (m : ChatMessage) : ChatMessage :=
  if m.ephemeral then { role := m.role, content := m.content, channel := m.channel }
  else persistable m

/-- A message without the image parts that no line holds. -/
def withoutImages (m : ChatMessage) : ChatMessage :=
  { m with contentParts := none, ephemeral := false }

/-- The provenance that is read back. -/
def readProvenance (r : Readers) (m : ChatMessage) : Option String :=
  if m.role = .assistant then m.provenance.bind r.provenance else none

/-- The metadata of a run that is read back, less its wake. -/
def readRun (r : Readers) (m : ChatMessage) : Option String :=
  if m.role = .tool then m.run.bind r.run else none

/-- `parseChatMessage`, for a line that this program wrote. -/
def parseChatMessage (r : Readers) (trusts : Trust) (m : ChatMessage) : ChatMessage where
  role := m.role
  content := m.content
  reasoningContent := m.reasoningContent.filter (fun t => decide (t ≠ ""))
  provenance := readProvenance r m
  reasoningItems := if trusts (readProvenance r m) then m.reasoningItems else []
  thinkingBlocks := if trusts (readProvenance r m) then m.thinkingBlocks else []
  toolCalls := m.toolCalls
  residentToolBatch :=
    if m.role = .assistant ∧ m.toolCalls ≠ [] then
      m.residentToolBatch.bind (fun b => r.toolBatch b m.toolCalls)
    else none
  toolCallId := m.toolCallId
  personContext := if m.role = .user then m.personContext.filter personBounded else none
  lineage := m.lineage.filter lineageField
  channel := m.channel
  run := readRun r m
  wake := if (readRun r m).isSome then m.wake.bind parseWake else none
  contextResources :=
    if m.role = .tool then parseContextResourceDescriptors m.contextResources else []
  sends := m.sends.map parseSend

/-! ## What comes back whole -/

/-- A recorded send that is read back as it is. -/
structure SendLegible (s : RecordedSend) : Prop where
  replyTo : ∀ id, s.replyTo = some id → isSnowflake id = true
  voice : ∀ v, s.voice = some v → voiceBounded v = true
  signal : s.signal = false

/-- **A legible message.** Every field it has is one that its role may have, passes the
check it is read with, and is left as it is by its parser. -/
structure Legible (r : Readers) (trusts : Trust) (m : ChatMessage) : Prop where
  reasoning : m.reasoningContent ≠ some ""
  provenance : ∀ p, m.provenance = some p → m.role = .assistant ∧ r.provenance p = some p
  payload : m.reasoningItems ≠ [] ∨ m.thinkingBlocks ≠ [] → trusts m.provenance = true
  toolBatch : ∀ b, m.residentToolBatch = some b →
    m.role = .assistant ∧ m.toolCalls ≠ [] ∧ r.toolBatch b m.toolCalls = some b
  person : ∀ p, m.personContext = some p → m.role = .user ∧ personBounded p = true
  lineage : ∀ f ∈ m.lineage, lineageField f = true
  run : ∀ t, m.run = some t → m.role = .tool ∧ r.run t = some t
  wake : ∀ w, m.wake = some w → m.run ≠ none ∧ parseWake w = some w
  resources : m.contextResources ≠ [] → m.role = .tool ∧
    m.contextResources.length ≤ 32 ∧ ∀ d ∈ m.contextResources, descriptorBounded d = true
  sends : ∀ s ∈ m.sends, SendLegible s

section Options
variable {α : Type} {o : Option α}

theorem filter_eq_self_iff {p : α → Bool} : o.filter p = o ↔ ∀ a, o = some a → p a = true := by
  cases o with
  | none => simp
  | some a => simp [Option.filter_some]

theorem bind_eq_self_iff {f : α → Option α} : o.bind f = o ↔ ∀ a, o = some a → f a = some a := by
  cases o with
  | none => simp
  | some a => simp

/-- A value that is only kept under a condition. -/
theorem gated_eq_self_iff {c : Prop} [Decidable c] {x : Option α} {ok : α → Prop}
    (hx : x = o ↔ ∀ a, o = some a → ok a) :
    (if c then x else none) = o ↔ ∀ a, o = some a → c ∧ ok a := by
  by_cases hc : c
  · simp [hc, hx]
  · cases o with
    | none => simp [hc]
    | some a => simp [hc]

end Options

theorem parseSend_eq_iff (s : RecordedSend) : parseSend s = s ↔ SendLegible s := by
  obtain ⟨channel, text, replyTo, mentions, voice, signal⟩ := s
  simp only [parseSend, RecordedSend.mk.injEq, true_and, filter_eq_self_iff]
  constructor
  · rintro ⟨hreply, hvoice, hsignal⟩
    exact ⟨hreply, hvoice, hsignal.symm⟩
  · rintro ⟨hreply, hvoice, hsignal⟩
    exact ⟨hreply, hvoice, hsignal.symm⟩

section RoundTrip
variable {r : Readers} {trusts : Trust} {m : ChatMessage}

theorem readProvenance_eq_iff : readProvenance r m = m.provenance ↔
    ∀ p, m.provenance = some p → m.role = .assistant ∧ r.provenance p = some p :=
  gated_eq_self_iff bind_eq_self_iff

theorem readRun_eq_iff : readRun r m = m.run ↔
    ∀ t, m.run = some t → m.role = .tool ∧ r.run t = some t :=
  gated_eq_self_iff bind_eq_self_iff

/-- The provider's own blocks, which are kept or dropped together. -/
theorem payload_eq_iff {b : Bool} :
    ((if b then m.reasoningItems else []) = m.reasoningItems ∧
      (if b then m.thinkingBlocks else []) = m.thinkingBlocks) ↔
    (m.reasoningItems ≠ [] ∨ m.thinkingBlocks ≠ [] → b = true) := by
  cases b with
  | true => simp
  | false =>
      simp only [Bool.false_eq_true, if_false, imp_false, not_or, not_not]
      constructor
      · rintro ⟨hitems, hblocks⟩
        exact ⟨hitems.symm, hblocks.symm⟩
      · rintro ⟨hitems, hblocks⟩
        exact ⟨hitems.symm, hblocks.symm⟩

theorem descriptors_eq_iff :
    (if m.role = .tool then parseContextResourceDescriptors m.contextResources else []) =
      m.contextResources ↔
    (m.contextResources ≠ [] → m.role = .tool ∧ m.contextResources.length ≤ 32 ∧
      ∀ d ∈ m.contextResources, descriptorBounded d = true) := by
  have hparse : ∀ ds, parseContextResourceDescriptors ds = ds ↔
      ds.length ≤ 32 ∧ ∀ d ∈ ds, descriptorBounded d = true := by
    intro ds
    unfold parseContextResourceDescriptors
    constructor
    · intro h
      have hlen : ds.length ≤ 32 := by
        have hle := List.length_filter_le descriptorBounded (ds.take 32)
        rw [h, List.length_take] at hle
        omega
      rw [List.take_of_length_le hlen] at h
      exact ⟨hlen, List.filter_eq_self.mp h⟩
    · rintro ⟨hlen, hall⟩
      rw [List.take_of_length_le hlen]
      exact List.filter_eq_self.mpr hall
  by_cases hds : m.contextResources = []
  · simp [hds, parseContextResourceDescriptors]
  · by_cases hrole : m.role = .tool
    · simp [hds, hrole, hparse]
    · simp [hds, hrole, Ne.symm hds]

theorem sends_eq_iff : m.sends.map parseSend = m.sends ↔ ∀ s ∈ m.sends, SendLegible s := by
  conv_lhs => rhs; rw [← List.map_id m.sends]
  rw [List.map_inj_left]
  exact forall₂_congr (fun s _ => parseSend_eq_iff s)

theorem wake_eq_iff (hrun : readRun r m = m.run) :
    (if (readRun r m).isSome then m.wake.bind parseWake else none) = m.wake ↔
    ∀ w, m.wake = some w → m.run ≠ none ∧ parseWake w = some w := by
  rw [gated_eq_self_iff bind_eq_self_iff, hrun]
  simp only [Option.isSome_iff_ne_none]

/-- **The round trip.** A message is read back as it was, images apart, exactly when it is
legible. -/
theorem parseChatMessage_eq_iff : parseChatMessage r trusts m = withoutImages m ↔
    Legible r trusts m := by
  constructor
  · intro h
    have hprov : readProvenance r m = m.provenance := congrArg ChatMessage.provenance h
    have hrun : readRun r m = m.run := congrArg ChatMessage.run h
    have hitems := congrArg ChatMessage.reasoningItems h
    have hblocks := congrArg ChatMessage.thinkingBlocks h
    simp only [parseChatMessage, hprov] at hitems hblocks
    exact {
      reasoning := fun ht => by
        have hkept := filter_eq_self_iff.mp (congrArg ChatMessage.reasoningContent h) "" ht
        simp at hkept
      provenance := readProvenance_eq_iff.mp hprov
      payload := payload_eq_iff.mp ⟨hitems, hblocks⟩
      toolBatch := fun b hb => by
        have hkept := (gated_eq_self_iff bind_eq_self_iff).mp
          (congrArg ChatMessage.residentToolBatch h) b hb
        exact ⟨hkept.1.1, hkept.1.2, hkept.2⟩
      person := (gated_eq_self_iff filter_eq_self_iff).mp (congrArg ChatMessage.personContext h)
      lineage := List.filter_eq_self.mp (congrArg ChatMessage.lineage h)
      run := readRun_eq_iff.mp hrun
      wake := (wake_eq_iff hrun).mp (congrArg ChatMessage.wake h)
      resources := descriptors_eq_iff.mp (congrArg ChatMessage.contextResources h)
      sends := sends_eq_iff.mp (congrArg ChatMessage.sends h) }
  · intro h
    have hprov := readProvenance_eq_iff.mpr h.provenance
    have hrun := readRun_eq_iff.mpr h.run
    have hwake := (wake_eq_iff hrun).mpr h.wake
    have hreasoning : m.reasoningContent.filter (fun t => decide (t ≠ "")) = m.reasoningContent :=
      filter_eq_self_iff.mpr (fun t ht => by
        simp only [ne_eq, decide_not, Bool.not_eq_true', decide_eq_false_iff_not]
        rintro rfl
        exact h.reasoning ht)
    have hbatch : (if m.role = .assistant ∧ m.toolCalls ≠ [] then
        m.residentToolBatch.bind (fun b => r.toolBatch b m.toolCalls) else none) =
        m.residentToolBatch :=
      (gated_eq_self_iff bind_eq_self_iff).mpr (fun b hb =>
        ⟨⟨(h.toolBatch b hb).1, (h.toolBatch b hb).2.1⟩, (h.toolBatch b hb).2.2⟩)
    have hperson : (if m.role = .user then m.personContext.filter personBounded else none) =
        m.personContext :=
      (gated_eq_self_iff filter_eq_self_iff).mpr h.person
    obtain ⟨hitems, hblocks⟩ := payload_eq_iff.mpr h.payload
    unfold parseChatMessage withoutImages
    rw [hwake, hreasoning, hbatch, hperson, hrun, hprov, hitems, hblocks,
      List.filter_eq_self.mpr h.lineage, descriptors_eq_iff.mpr h.resources,
      sends_eq_iff.mpr h.sends]

/-- What is read back under one identity is read back whole again; under another identity
only the provider's own blocks differ. -/
theorem Legible.retrust (h : Legible r trusts (parseChatMessage r trusts m)) (trusts' : Trust) :
    Legible r trusts' (parseChatMessage r trusts' m) where
  reasoning := h.reasoning
  provenance := h.provenance
  payload hne := by
    by_contra hnot
    have hnot' : ¬trusts' (readProvenance r m) = true := hnot
    simp only [parseChatMessage, if_neg hnot', ne_eq, not_true_eq_false, or_self] at hne
  toolBatch := h.toolBatch
  person := h.person
  lineage := h.lineage
  run := h.run
  wake := h.wake
  resources := h.resources
  sends := h.sends

/-! ## Written messages -/

/-- What `pushMessage` writes of the message comes back whole: an ephemeral message has
nothing but its text, another one is legible. -/
def Storable (r : Readers) (trusts : Trust) (m : ChatMessage) : Prop :=
  if m.ephemeral then withoutImages m = { role := m.role, content := m.content, channel := m.channel }
  else Legible r trusts m

theorem legible_text (r : Readers) (trusts : Trust) (role : Role) (content : String)
    (channel toolCallId : Option String) :
    Legible r trusts { role, content, channel, toolCallId } := by
  constructor <;> simp

theorem parse_withoutImages :
    parseChatMessage r trusts (withoutImages m) = parseChatMessage r trusts m := rfl

theorem parse_persistable :
    parseChatMessage r trusts (persistable m) = parseChatMessage r trusts m := rfl

theorem legible_withoutImages : Legible r trusts (withoutImages m) ↔ Legible r trusts m := by
  rw [← parseChatMessage_eq_iff, parse_withoutImages, ← parseChatMessage_eq_iff]
  rfl

theorem parse_stored_iff : parseChatMessage r trusts (stored m) = withoutImages m ↔
    Storable r trusts m := by
  unfold stored Storable
  split
  · have htext := parseChatMessage_eq_iff.mpr
      (legible_text r trusts m.role m.content m.channel none)
    rw [htext]
    exact eq_comm
  · rw [parse_persistable]
    exact parseChatMessage_eq_iff

theorem Storable.legible (h : Storable r trusts m) : Legible r trusts m := by
  unfold Storable at h
  split at h
  · rw [← legible_withoutImages, h]
    exact legible_text r trusts m.role m.content m.channel none
  · exact h

end RoundTrip

end Elpis.Resident
