import Elpis.Store.Sessions

/-!
# What a restart reads back

A message that was appended is read back under the replay identity of the configuration.
Where the identity is the one of the message nothing should be missing, and under another
one only the provider's opaque items. `readsBack_iff` says which messages this holds of:
each field has to be one that the role may have, within the bound the reader checks, and
no recorded send may carry a Signal receipt, which the reader never looks at.
-/

namespace Elpis.Store

open Elpis.Js
open Elpis.Kernel (Role ToolCall)
open Elpis.Kernel.Provenance (Slot Scalar RecordedResidentToolBatch parseRecordedResidentToolBatch
  normalizeCalls exactKeys)
open Elpis.Llm (PersonContext ContextResourceDescriptor)
open Elpis.Provenance (ReplayIdentity GenerationProvenance isTrustedOpaqueReplay
  parseGenerationProvenance parseGenerationProvenance_eq_iff sameReplayIdentity_self)
open Elpis.Resident (isBoundedId isSha256 isSnowflake descriptorBounded gated_eq_self_iff)
open Elpis.RunMetadata (RunMessageMetadata isBounded reads_bounded parseRunMessageMetadata
  parseRunMessageMetadata_eq_iff)

/-! ## Lists -/

section Lists
variable {α : Type} {write : α → Value} {read : Value → Option α}

/-- Reading one by one gives the list back only if no member is left out or changed. -/
theorem filterMap_eq_self_iff {f : α → Option α} {as : List α} :
    as.filterMap f = as ↔ ∀ a ∈ as, f a = some a := by
  induction as with
  | nil => simp
  | cons a as ih =>
      rw [List.filterMap_cons, List.forall_mem_cons]
      cases hf : f a with
      | none =>
          -- one member is missing, so the rest is too short
          constructor
          · intro h
            have hle := List.length_filterMap_le f as
            simp only at h
            rw [h] at hle
            simp at hle
          · simp
      | some b => simp [ih]

theorem readList_eq_iff (as : List α) : readList read (.arr (as.map write)) = some as ↔
    as ≠ [] ∧ ∀ a ∈ as, read (write a) = some a := by
  have hmap : (as.map write).filterMap read = as.filterMap (fun a => read (write a)) :=
    List.filterMap_map
  rw [readList, JsonOf.arr?, Option.map_some, hmap, ← filterMap_eq_self_iff,
    Option.filter_eq_some_iff]
  simp only [Option.some.injEq, Bool.not_eq_eq_eq_not, Bool.not_true, List.isEmpty_eq_false_iff]
  exact and_comm

theorem readList_opaque_iff (p : Value → Bool) (vs : List Value) :
    readList (opaqueWhere p) (.arr vs) = some vs ↔ vs ≠ [] ∧ ∀ v ∈ vs, p v = true := by
  have h := @readList_eq_iff _ id (opaqueWhere p) vs
  rw [List.map_id] at h
  rw [h]
  simp [opaqueWhere]

end Lists

/-! ## Parts of a message -/

theorem toolCall_nodup (call : ToolCall) : ((toolCallMembers call).map Prod.fst).Nodup := by
  simp only [toolCallMembers, List.map]
  decide

theorem person_nodup (p : PersonContext) : ((personMembers p).map Prod.fst).Nodup := by
  simp only [personMembers, List.map]
  decide

theorem descriptor_nodup (d : ContextResourceDescriptor) :
    ((descriptorMembers d).map Prod.fst).Nodup := by
  simp only [descriptorMembers, List.map]
  decide

theorem VoiceDelivery.nodup (v : VoiceDelivery) : (v.members.map Prod.fst).Nodup := by
  simp only [VoiceDelivery.members, List.map]
  decide

theorem RecordedSend.nodup (s : RecordedSend) : (s.members.map Prod.fst).Nodup := by
  simp only [RecordedSend.members, List.map]
  decide

theorem ChatMessage.nodup (m : ChatMessage) : (m.members.map Prod.fst).Nodup := by
  simp only [ChatMessage.members, List.map]
  decide

theorem parseToolCall_members (call : ToolCall) :
    parseToolCall (.object (toolCallMembers call)) = some call := by
  have hinner : (([("name", some (Value.str call.name)),
      ("arguments", some (.str call.arguments))] : List (String × Option Value)).map Prod.fst).Nodup := by
    simp only [List.map]
    decide
  simp only [parseToolCall, JsonOf.read?_object (toolCall_nodup call),
    JsonOf.field?_object (toolCall_nodup call)]
  simp only [toolCallMembers, List.lookup, String.reduceBEq, Option.join_some, Option.bind_some,
    Option.bind_eq_bind, reads_str _, reads_text _ _, JsonOf.read?_object hinner]
  simp

/-- The record of a tool batch that belongs to these calls. -/
def isRecordOf (sha256 : String → String) (batch : RecordedResidentToolBatch)
    (calls : List ToolCall) : Bool :=
  Kernel.Provenance.isBatchId batch.batchId && Kernel.Provenance.isSha256 batch.batchSha256 &&
    match normalizeCalls sha256 batch.batchId (some (batchCalls calls)) with
    | .ok normalized => decide (normalized.head?.map (·.batchSha256) = some batch.batchSha256)
    | .error _ => false

theorem parseBatch_eq_iff (sha256 : String → String) (batch : RecordedResidentToolBatch)
    (calls : List ToolCall) :
    parseRecordedResidentToolBatch sha256 (scalars (.object (batchMembers batch)))
      (some (batchCalls calls)) = some batch ↔ isRecordOf sha256 batch calls = true := by
  have hscalars : scalars (.object (batchMembers batch)) =
      some [("version", .num (.finite 1)), ("batchId", .str batch.batchId),
        ("batchSha256", .str batch.batchSha256)] := rfl
  have hkeys : exactKeys ["version", "batchId", "batchSha256"]
      ["version", "batchId", "batchSha256"] = true := decide_eq_true rfl
  rw [hscalars]
  simp only [parseRecordedResidentToolBatch, isRecordOf, List.map, hkeys, List.lookup,
    String.reduceBEq]
  cases hnormal : normalizeCalls sha256 batch.batchId (some (batchCalls calls)) with
  | error e => simp
  | ok normalized => simp [and_assoc]

theorem parsePersonContext_eq_iff (p : PersonContext) :
    parsePersonContext (.object (personMembers p)) = some p ↔
      isBounded 256 p.authorId = true ∧ isBounded 256 p.author = true := by
  simp only [parsePersonContext, JsonOf.read?_object (person_nodup p)]
  simp [personMembers, List.lookup, reads_bounded _ _, Option.bind_eq_some_iff]

theorem parseDescriptor_eq_iff (d : ContextResourceDescriptor) :
    parseDescriptor (.object (descriptorMembers d)) = some d ↔ descriptorBounded d = true := by
  simp only [parseDescriptor, JsonOf.read?_object (descriptor_nodup d)]
  simp [descriptorMembers, List.lookup, reads_str _]

theorem normalizeVoiceDelivery_eq_iff (v : VoiceDelivery) :
    normalizeVoiceDelivery (.object v.members) = some v ↔
      isTranscript v.transcript = true ∧ isPlayed v.playedMs = true := by
  simp only [normalizeVoiceDelivery, JsonOf.read?_object v.nodup]
  simp [VoiceDelivery.members, List.lookup, reads_text _ _, reads_number _ _,
    Option.bind_eq_some_iff]

/-- The bounds of a recorded send. -/
structure RecordedSend.WithinBounds (s : RecordedSend) : Prop where
  replyTo : ∀ id ∈ s.replyTo, isSnowflake id = true
  voice : ∀ v ∈ s.voice, isTranscript v.transcript = true ∧ isPlayed v.playedMs = true

theorem parseSend_eq_iff (s : RecordedSend) :
    parseSend (.object s.members) = some s ↔ s.WithinBounds ∧ s.signal = none := by
  have hbounds : s.WithinBounds ↔ (∀ id ∈ s.replyTo, isSnowflake id = true) ∧
      ∀ v ∈ s.voice, isTranscript v.transcript = true ∧ isPlayed v.playedMs = true :=
    ⟨fun h => ⟨h.replyTo, h.voice⟩, fun h => ⟨h.1, h.2⟩⟩
  simp only [parseSend, JsonOf.read?_object s.nodup]
  simp only [RecordedSend.members, List.lookup, String.reduceBEq]
  have hsignal : none = s.signal ↔ s.signal = none := eq_comm
  simp [reads_str _, RecordedSend.ext_iff, (reads_text _).optional, reads_bool.optional,
    filter_eq_self, optional_eq_iff, normalizeVoiceDelivery_eq_iff, hbounds, hsignal, and_assoc]

/-! ## Whole messages -/

/-- The message without the opaque payloads of its provider. -/
def withoutOpaque (m : ChatMessage) : ChatMessage :=
  { m with reasoningItems := none, thinkingBlocks := none }

/-- What a restart under this identity should have of a message. -/
def restored (w : Outside) (identity : Option ReplayIdentity) (m : ChatMessage) : ChatMessage :=
  if isTrustedOpaqueReplay w.urls m.provenance identity then m else withoutOpaque m

/-- **A message that is read back**, whatever the configuration is at the restart. -/
def ReadsBack (w : Outside) (m : ChatMessage) : Prop :=
  ∀ identity, parseChatMessage w (some identity) (line m) = some (restored w identity m)

/-- The opaque payloads are of the types that the reader keeps. -/
structure OpaqueKnown (m : ChatMessage) : Prop where
  items : ∀ vs ∈ m.reasoningItems, vs ≠ [] ∧ ∀ v ∈ vs, isReasoningItem v = true
  blocks : ∀ vs ∈ m.thinkingBlocks, vs ≠ [] ∧ ∀ v ∈ vs, isThinkingBlock v = true

/-- Every field but the opaque ones is one that the role may have, and within the bound
that it is read with. -/
structure WithinBounds (w : Outside) (m : ChatMessage) : Prop where
  reasoningContent : ∀ s ∈ m.reasoningContent, 0 < length s
  toolCalls : ∀ calls ∈ m.toolCalls, calls ≠ []
  residentToolBatch : ∀ batch ∈ m.residentToolBatch, m.role = .assistant ∧
    ∃ calls ∈ m.toolCalls, isRecordOf w.sha256 batch calls = true
  worldId : ∀ id ∈ m.worldId, isBoundedId "world:" id = true
  branchId : ∀ id ∈ m.branchId, isBoundedId "branch:" id = true
  eventId : ∀ id ∈ m.eventId, isBoundedId "event:" id = true
  sequence : ∀ q ∈ m.sequence, isSequence q = true
  sharedFromWorldId : ∀ id ∈ m.sharedFromWorldId, isBoundedId "world:" id = true
  viewManifestHash : ∀ hash ∈ m.viewManifestHash, isSha256 hash = true
  personContext : ∀ p ∈ m.personContext, m.role = .user ∧
    isBounded 256 p.authorId = true ∧ isBounded 256 p.author = true
  sends : ∀ sends ∈ m.sends, sends ≠ [] ∧ ∀ s ∈ sends, s.WithinBounds
  provenance : ∀ p ∈ m.provenance, m.role = .assistant ∧ p.Legible w.urls
  run : ∀ r ∈ m.run, m.role = .tool ∧ r.Legible
  contextResources : ∀ ds ∈ m.contextResources, m.role = .tool ∧
    (ds ≠ [] ∧ ds.length ≤ 32 ∧ ∀ d ∈ ds, descriptorBounded d = true)

/-- No recorded send carries the receipt of a Signal message. -/
def Unsignalled (m : ChatMessage) : Prop := ∀ sends ∈ m.sends, ∀ s ∈ sends, s.signal = none

theorem batch_eq_iff (sha256 : String → String) (calls? : Option (List ToolCall))
    (o : Option RecordedResidentToolBatch) :
    (calls?.bind (fun calls => (o.map (fun batch => JsonOf.object (batchMembers batch))).bind
      (fun value => parseRecordedResidentToolBatch sha256 (scalars value)
        (some (batchCalls calls))))) = o ↔
      ∀ batch ∈ o, ∃ calls ∈ calls?, isRecordOf sha256 batch calls = true := by
  cases o with
  | none => cases calls? <;> simp
  | some batch =>
      cases calls? with
      | none => simp
      | some calls => simp [parseBatch_eq_iff]

theorem descriptors_eq_iff (ds : List ContextResourceDescriptor) :
    (some (parseContextResourceDescriptors (array descriptorMembers ds))).filter
      (fun ds => !ds.isEmpty) = some ds ↔
      ds ≠ [] ∧ ds.length ≤ 32 ∧ ∀ d ∈ ds, descriptorBounded d = true := by
  have hread : parseContextResourceDescriptors (array descriptorMembers ds) = ds ↔
      ds.length ≤ 32 ∧ ∀ d ∈ ds, descriptorBounded d = true := by
    have htake : parseContextResourceDescriptors (array descriptorMembers ds) =
        (ds.take 32).filterMap (fun d => parseDescriptor (.object (descriptorMembers d))) := by
      simp only [parseContextResourceDescriptors, array, JsonOf.arr?, ← List.map_take,
        List.filterMap_map]
      rfl
    rw [htake]
    by_cases hlength : ds.length ≤ 32
    · rw [List.take_of_length_le hlength, filterMap_eq_self_iff, and_iff_right hlength]
      exact forall₂_congr (fun d _ => parseDescriptor_eq_iff d)
    · refine ⟨fun h => ?_, fun h => absurd h.1 hlength⟩
      have hle := List.length_filterMap_le
        (fun d => parseDescriptor (.object (descriptorMembers d))) (ds.take 32)
      rw [h, List.length_take] at hle
      omega
  rw [Option.filter_eq_some_iff, Option.some.injEq, hread]
  simp only [Bool.not_eq_eq_eq_not, Bool.not_true, List.isEmpty_eq_false_iff]
  exact and_comm

/-- The provenance that is read of a line. -/
def readProvenance (w : Outside) (m : ChatMessage) : Option GenerationProvenance :=
  if m.role = .assistant then
    (m.provenance.map (fun p => JsonOf.object p.members)).bind (parseGenerationProvenance w.urls)
  else none

/-- An opaque payload that is read of a line. -/
def readOpaque (trusted : Bool) (p : Value → Bool) (o : Option (List Value)) :
    Option (List Value) :=
  if trusted then (o.map Value.arr).bind (readList (opaqueWhere p)) else none

section Fields
variable {w : Outside} {m : ChatMessage}

theorem provenance_eq_iff : readProvenance w m = m.provenance ↔
    ∀ p ∈ m.provenance, m.role = .assistant ∧ p.Legible w.urls := by
  refine gated_eq_self_iff (optional_eq_iff.trans ?_)
  exact forall₂_congr (fun p _ => parseGenerationProvenance_eq_iff p)

theorem toolCalls_eq_iff :
    (m.toolCalls.map (array toolCallMembers)).bind (readList parseToolCall) = m.toolCalls ↔
      ∀ calls ∈ m.toolCalls, calls ≠ [] := by
  rw [optional_eq_iff]
  refine forall₂_congr (fun calls _ => (readList_eq_iff calls).trans (and_iff_left ?_))
  exact fun call _ => parseToolCall_members call

theorem sends_eq_iff :
    (m.sends.map (array RecordedSend.members)).bind (readList parseSend) = m.sends ↔
      ∀ sends ∈ m.sends, sends ≠ [] ∧ ∀ s ∈ sends, s.WithinBounds ∧ s.signal = none := by
  rw [optional_eq_iff]
  refine forall₂_congr (fun sends _ => (readList_eq_iff sends).trans (and_congr_right' ?_))
  exact forall₂_congr (fun s _ => parseSend_eq_iff s)

theorem person_eq_iff :
    (if m.role = .user then
      (m.personContext.map (fun p => JsonOf.object (personMembers p))).bind parsePersonContext
      else none) = m.personContext ↔
      ∀ p ∈ m.personContext, m.role = .user ∧
        isBounded 256 p.authorId = true ∧ isBounded 256 p.author = true := by
  refine gated_eq_self_iff (optional_eq_iff.trans ?_)
  exact forall₂_congr (fun p _ => parsePersonContext_eq_iff p)

theorem run_eq_iff :
    (if m.role = .tool then
      (m.run.map (fun r => JsonOf.object r.members)).bind parseRunMessageMetadata else none) =
      m.run ↔ ∀ r ∈ m.run, m.role = .tool ∧ r.Legible := by
  refine gated_eq_self_iff (optional_eq_iff.trans ?_)
  exact forall₂_congr (fun r _ => parseRunMessageMetadata_eq_iff r)

theorem contextResources_eq_iff :
    (if m.role = .tool then
      Option.filter (fun ds => !ds.isEmpty)
        ((m.contextResources.map (array descriptorMembers)).map parseContextResourceDescriptors)
      else none) = m.contextResources ↔
      ∀ ds ∈ m.contextResources, m.role = .tool ∧
        (ds ≠ [] ∧ ds.length ≤ 32 ∧ ∀ d ∈ ds, descriptorBounded d = true) := by
  refine gated_eq_self_iff ?_
  cases m.contextResources with
  | none => simp
  | some ds => simpa using descriptors_eq_iff ds

theorem parse_line_eq_iff (options : ParseOptions) (items blocks : Option (List Value)) :
    parseChatMessage w options (line m) =
        some { m with reasoningItems := items, thinkingBlocks := blocks } ↔
      (WithinBounds w m ∧ Unsignalled m) ∧
      readOpaque (trustedOpaque w.urls options m.provenance) isReasoningItem m.reasoningItems =
        items ∧
      readOpaque (trustedOpaque w.urls options m.provenance) isThinkingBlock m.thinkingBlocks =
        blocks := by
  simp only [parseChatMessage, line, JsonOf.read?_object m.nodup, JsonOf.field?_object m.nodup]
  simp only [ChatMessage.members, List.lookup, String.reduceBEq]
  simp only [Option.join_some, Option.bind_some, Option.bind_eq_bind, Names.read_write,
    reads_str _, if_true, pure, Option.some.injEq, ChatMessage.ext_iff, reads_str.optional,
    (reads_text _).optional, (reads_number _).optional]
  constructor
  · rintro ⟨-, -, hreason, hitems, hblocks, hcalls, hbatch, -, hworld, hbranch, hevent, hsequence,
      hshared, hview, -, hperson, hsends, hprov, hrun, hresources⟩
    have hprov' : readProvenance w m = m.provenance := hprov
    rw [hprov] at hitems hblocks
    rw [hcalls] at hbatch
    have hsends' := sends_eq_iff.mp hsends
    refine ⟨⟨?_, fun sends hmem s hs => ((hsends' sends hmem).2 s hs).2⟩, hitems, hblocks⟩
    exact {
      reasoningContent := fun s hs => of_decide_eq_true (filter_eq_self.mp hreason s hs)
      toolCalls := toolCalls_eq_iff.mp hcalls
      residentToolBatch := (gated_eq_self_iff (batch_eq_iff w.sha256 _ _)).mp hbatch
      worldId := filter_eq_self.mp hworld
      branchId := filter_eq_self.mp hbranch
      eventId := filter_eq_self.mp hevent
      sequence := filter_eq_self.mp hsequence
      sharedFromWorldId := filter_eq_self.mp hshared
      viewManifestHash := filter_eq_self.mp hview
      personContext := person_eq_iff.mp hperson
      sends := fun sends hmem => ⟨(hsends' sends hmem).1, fun s hs => ((hsends' sends hmem).2 s hs).1⟩
      provenance := provenance_eq_iff.mp hprov'
      run := run_eq_iff.mp hrun
      contextResources := contextResources_eq_iff.mp hresources }
  · rintro ⟨⟨h, hsignal⟩, hitems, hblocks⟩
    have hprov : readProvenance w m = m.provenance := provenance_eq_iff.mpr h.provenance
    have hcalls := toolCalls_eq_iff.mpr h.toolCalls
    have hsends := sends_eq_iff.mpr (fun sends hmem =>
      ⟨(h.sends sends hmem).1, fun s hs => ⟨(h.sends sends hmem).2 s hs, hsignal sends hmem s hs⟩⟩)
    rw [← hprov] at hitems hblocks
    refine ⟨trivial, trivial, ?_, hitems, hblocks, hcalls, ?_, filter_eq_self.mpr (fun _ _ => rfl),
      filter_eq_self.mpr h.worldId, filter_eq_self.mpr h.branchId, filter_eq_self.mpr h.eventId,
      filter_eq_self.mpr h.sequence, filter_eq_self.mpr h.sharedFromWorldId,
      filter_eq_self.mpr h.viewManifestHash, filter_eq_self.mpr (fun _ _ => rfl),
      person_eq_iff.mpr h.personContext, hsends, hprov, run_eq_iff.mpr h.run,
      contextResources_eq_iff.mpr h.contextResources⟩
    · exact filter_eq_self.mpr (fun s hs => decide_eq_true (h.reasoningContent s hs))
    · rw [hcalls]
      exact (gated_eq_self_iff (batch_eq_iff w.sha256 _ _)).mpr h.residentToolBatch

end Fields

/-! ## Every configuration -/

section ReadBack
variable {w : Outside} {m : ChatMessage}

theorem readOpaque_eq_iff (p : Value → Bool) (o : Option (List Value)) :
    readOpaque true p o = o ↔ ∀ vs ∈ o, vs ≠ [] ∧ ∀ v ∈ vs, p v = true :=
  optional_eq_iff.trans (forall₂_congr (fun vs _ => readList_opaque_iff p vs))

theorem opaqueKnown_iff : OpaqueKnown m ↔
    readOpaque true isReasoningItem m.reasoningItems = m.reasoningItems ∧
      readOpaque true isThinkingBlock m.thinkingBlocks = m.thinkingBlocks := by
  rw [readOpaque_eq_iff, readOpaque_eq_iff]
  exact ⟨fun h => ⟨h.items, h.blocks⟩, fun h => ⟨h.1, h.2⟩⟩

/-- What is read under one identity: the message, or the message without what is opaque. -/
theorem parse_restored_iff (identity : Option ReplayIdentity) :
    parseChatMessage w (some identity) (line m) = some (restored w identity m) ↔
      (WithinBounds w m ∧ Unsignalled m) ∧
        (isTrustedOpaqueReplay w.urls m.provenance identity = true → OpaqueKnown m) := by
  cases htrust : isTrustedOpaqueReplay w.urls m.provenance identity with
  | true =>
      have hparse := @parse_line_eq_iff w m (some identity) m.reasoningItems m.thinkingBlocks
      simp only [trustedOpaque, htrust] at hparse
      simp only [restored, htrust, if_true, forall_const, opaqueKnown_iff]
      exact hparse
  | false =>
      have hparse := @parse_line_eq_iff w m (some identity) none none
      simp only [trustedOpaque, htrust] at hparse
      simp only [restored, htrust, Bool.false_eq_true, if_false, false_imp_iff, and_true]
      exact hparse.trans (and_iff_left ⟨rfl, rfl⟩)

/-- **What a restart keeps.** A message is read back under every identity exactly when no
recorded send of it carries a Signal receipt, every other field is one that its role may
have and within its bound, and the opaque payloads, where the message's own identity is one
that they may be sent back to, are of the known types. -/
theorem readsBack_iff (w : Outside) (m : ChatMessage) : ReadsBack w m ↔
    Unsignalled m ∧ WithinBounds w m ∧
      (isTrustedOpaqueReplay w.urls m.provenance (m.provenance.map GenerationProvenance.identity) =
        true → OpaqueKnown m) := by
  constructor
  · intro h
    obtain ⟨⟨hbounds, hsignal⟩, -⟩ := (parse_restored_iff none).mp (h none)
    exact ⟨hsignal, hbounds, ((parse_restored_iff _).mp (h _)).2⟩
  · rintro ⟨hsignal, hbounds, hopaque⟩ identity
    -- an identity that matches shows that the message's own one does
    exact (parse_restored_iff identity).mpr ⟨⟨hbounds, hsignal⟩,
      fun htrust => hopaque (sameReplayIdentity_self htrust)⟩

end ReadBack

/-! ## A Signal receipt -/

/-- The result of a run that sent one message over Signal, which was accepted. -/
def signalResult : ChatMessage where
  role := .tool
  content := "ok"
  toolCallId := some "call_1"
  channel := some "signal:+15550100"
  sends := some [{
    channel := "signal:+15550100", text := "on my way", replyTo := none, mentions := none
    voice := none, signal := some ⟨.accepted⟩ }]

/-- An outside that is not asked about this message. -/
def nothingOutside : Outside where
  urls := { parse := fun _ => none, resolve := fun _ _ => none, cleared := id }
  sha256 := id

theorem signalResult_lost : ¬ReadsBack nothingOutside signalResult := by
  intro h
  obtain ⟨⟨-, hsignal⟩, -⟩ := (parse_restored_iff none).mp (h none)
  have hnone := hsignal _ rfl _ List.mem_cons_self
  cases hnone

end Elpis.Store
