import Elpis.Resident.Rules

/-!
# Loaded resources and their bodies

A resource counts as loaded once the message that tells its body is in the history. The
descriptors of a result name every skill that was asked for, also those whose bodies an
earlier message holds, and a compaction restores what the descriptors of its kept messages
name. So the descriptors of a history have to be grounded: each stands on or behind a
message with the body. Every step keeps that but two: a redaction that changes a body, and
a compaction that keeps a descriptor and folds the message with its body.
-/

namespace Elpis.Resident

open Elpis.Llm Elpis.Lib Crash

/-! ## Bodies -/

/-- The text holds a body of the version, whole. -/
def HoldsBody (versionOf : String → String) (text version : String) : Prop :=
  ∃ raw : String, raw.toList <:+: text.toList ∧ versionOf raw = version

/-- The message of a result holds a body of the version. -/
structure Carries (versionOf : String → String) (m : ChatMessage) (version : String) : Prop where
  role : m.role = .tool
  person : m.personContext = none
  body : HoldsBody versionOf m.content version

/-- Some message carries the version. -/
def Backed (versionOf : String → String) (ms : List ChatMessage) (version : String) : Prop :=
  ∃ m ∈ ms, Carries versionOf m version

/-- Each descriptor names a version that is known, or stands on or behind a message with
the body. -/
def Grounded (versionOf : String → String) (known : String → Prop) : List ChatMessage → Prop
  | [] => True
  | m :: ms =>
      (∀ d ∈ m.contextResources, known d.version ∨ Carries versionOf m d.version) ∧
        Grounded versionOf (fun v => known v ∨ Carries versionOf m v) ms

/-- Nothing is known yet. -/
def unknown (_ : String) : Prop := False

variable {versionOf : String → String} {known known' : String → Prop}
  {ms ms' : List ChatMessage} {m : ChatMessage} {v : String}

theorem HoldsBody.within {text text' : String} (h : HoldsBody versionOf text v)
    (hin : text.toList <:+: text'.toList) : HoldsBody versionOf text' v := by
  obtain ⟨raw, hraw, hv⟩ := h
  exact ⟨raw, hraw.trans hin, hv⟩

theorem Grounded.mono (h : Grounded versionOf known ms) (hknown : ∀ v, known v → known' v) :
    Grounded versionOf known' ms := by
  induction ms generalizing known known' with
  | nil => trivial
  | cons m ms ih =>
      refine ⟨fun d hd => (h.1 d hd).imp_left (hknown _), ih h.2 ?_⟩
      exact fun v hv => hv.imp_left (hknown v)

theorem grounded_append : Grounded versionOf known (ms ++ ms') ↔
    Grounded versionOf known ms ∧ Grounded versionOf (fun v => known v ∨ Backed versionOf ms v) ms' := by
  induction ms generalizing known with
  | nil => simp [Grounded, Backed]
  | cons m ms ih =>
      have hsame : (fun v => (known v ∨ Carries versionOf m v) ∨ Backed versionOf ms v) =
          fun v => known v ∨ Backed versionOf (m :: ms) v := by
        funext v
        simp [Backed, or_assoc]
      rw [List.cons_append, Grounded, Grounded, ih, hsame, and_assoc]

variable {d : ContextResourceDescriptor}

theorem Grounded.named (h : Grounded versionOf known ms) (hm : m ∈ ms) (hd : d ∈ m.contextResources) :
    known d.version ∨ Backed versionOf ms d.version := by
  induction ms generalizing known with
  | nil => exact absurd hm List.not_mem_nil
  | cons x ms ih =>
      rcases List.mem_cons.mp hm with rfl | hm
      · exact (h.1 d hd).imp_right (fun hc => ⟨m, List.mem_cons_self, hc⟩)
      · rcases ih h.2 hm with (hk | hc) | ⟨y, hy, hc⟩
        · exact Or.inl hk
        · exact Or.inr ⟨x, List.mem_cons_self, hc⟩
        · exact Or.inr ⟨y, List.mem_cons_of_mem _ hy, hc⟩

theorem grounded_plain (h : ∀ m ∈ ms, m.contextResources = []) : Grounded versionOf known ms := by
  induction ms generalizing known with
  | nil => trivial
  | cons m ms ih =>
      refine ⟨fun d hd => ?_, ih (fun m' hm' => h m' (List.mem_cons_of_mem _ hm'))⟩
      rw [h m List.mem_cons_self] at hd
      exact absurd hd List.not_mem_nil

/-- A message that names no more resources than another, and carries all it carries. -/
structure AtLeast (versionOf : String → String) (m m' : ChatMessage) : Prop where
  names : m'.contextResources ⊆ m.contextResources
  carries : ∀ v, Carries versionOf m v → Carries versionOf m' v

theorem Grounded.atLeast (h : List.Forall₂ (AtLeast versionOf) ms ms')
    (hms : Grounded versionOf known ms) : Grounded versionOf known ms' := by
  induction h generalizing known with
  | nil => trivial
  | cons hm _ ih =>
      refine ⟨fun d hd => ?_, ih (hms.2.mono (fun v hv => hv.imp_right (hm.carries v)))⟩
      exact (hms.1 d (hm.names hd)).imp_right (hm.carries _)

theorem Backed.atLeast (h : List.Forall₂ (AtLeast versionOf) ms ms')
    (hms : Backed versionOf ms v) : Backed versionOf ms' v := by
  induction h with
  | nil => exact hms
  | cons hm _ ih =>
      obtain ⟨x, hx, hc⟩ := hms
      rcases List.mem_cons.mp hx with rfl | hx
      · exact ⟨_, List.mem_cons_self, hm.carries v hc⟩
      · obtain ⟨y, hy, hc'⟩ := ih ⟨x, hx, hc⟩
        exact ⟨y, List.mem_cons_of_mem _ hy, hc'⟩

theorem atLeast_map {f : ChatMessage → ChatMessage} (h : ∀ m, AtLeast versionOf m (f m))
    (ms : List ChatMessage) : List.Forall₂ (AtLeast versionOf) ms (ms.map f) := by
  rw [List.forall₂_map_right_iff, List.forall₂_same]
  exact fun m _ => h m

/-! ## Histories that vouch for what is loaded -/

/-- The descriptors of the history are grounded, and it carries each loaded version. -/
structure Vouched (versionOf : String → String) (ms : List ChatMessage) (loaded : String → Prop) :
    Prop where
  grounded : Grounded versionOf unknown ms
  loaded : ∀ v, loaded v → Backed versionOf ms v

variable {loaded loaded' : String → Prop}

theorem Vouched.mono (h : Vouched versionOf ms loaded) (hsub : ∀ v, loaded' v → loaded v) :
    Vouched versionOf ms loaded' :=
  ⟨h.grounded, fun v hv => h.loaded v (hsub v hv)⟩

theorem Vouched.atLeast (h : Vouched versionOf ms loaded)
    (hms : List.Forall₂ (AtLeast versionOf) ms ms') : Vouched versionOf ms' loaded :=
  ⟨h.grounded.atLeast hms, fun v hv => (h.loaded v hv).atLeast hms⟩

/-- One more message, whose descriptors name loaded versions and bodies of its own, and
what is loaded by it. -/
theorem Vouched.push (h : Vouched versionOf ms loaded)
    (hm : ∀ d ∈ m.contextResources, loaded d.version ∨ Carries versionOf m d.version)
    (hloaded : ∀ v, loaded' v → loaded v ∨ ∃ d ∈ m.contextResources, d.version = v) :
    Vouched versionOf (ms ++ [m]) loaded' := by
  have hgrounded : Grounded versionOf unknown (ms ++ [m]) := by
    refine grounded_append.mpr ⟨h.grounded, fun d hd => ?_, trivial⟩
    exact (hm d hd).imp_left (fun hl => Or.inr (h.loaded _ hl))
  refine ⟨hgrounded, fun v hv => ?_⟩
  rcases hloaded v hv with hold | ⟨d, hd, rfl⟩
  · obtain ⟨x, hx, hc⟩ := h.loaded v hold
    exact ⟨x, List.mem_append_left _ hx, hc⟩
  · have hlast : m ∈ ms ++ [m] := List.mem_append_right _ List.mem_cons_self
    exact (hgrounded.named hlast hd).resolve_left id

theorem Grounded.take (h : Grounded versionOf known ms) (n : ℕ) :
    Grounded versionOf known (ms.take n) := by
  rw [← List.take_append_drop n ms] at h
  exact (grounded_append.mp h).1

/-- The last message is taken back, when it is no result. -/
theorem Vouched.dropLast (h : Vouched versionOf ms loaded) (hlast : ms.getLast? = some m)
    (hrole : m.role ≠ .tool) : Vouched versionOf ms.dropLast loaded := by
  refine ⟨?_, fun v hv => ?_⟩
  · rw [List.dropLast_eq_take]
    exact h.grounded.take _
  · obtain ⟨x, hx, hc⟩ := h.loaded v hv
    rw [← List.dropLast_append_getLast? m hlast] at hx
    rcases List.mem_append.mp hx with hx | hx
    · exact ⟨x, hx, hc⟩
    · rw [List.mem_singleton.mp hx] at hc
      exact absurd hc.role hrole

/-! ## What is loaded -/

/-- A version that is treated as loaded. -/
def ContextResources.Loaded (res : ContextResources) (version : String) : Prop :=
  ∃ d, (d ∈ res.loadedSkills ∨ d ∈ res.loadedAgents) ∧ d.version = version

/-- The message of an interrupt holds the body it is about. -/
def Telling (versionOf : String → String) (i : ContextResourceInterrupt) : Prop :=
  HoldsBody versionOf i.message i.resource.version

variable {res res' : ContextResources} {ds : List ContextResourceDescriptor}

theorem loaded_putSkill {t : Descriptors} {p : Descriptors}
    (h : ContextResources.Loaded { res with loadedSkills := t.put d, pendingSkills := p } v)
    (ht : ∀ x ∈ t, x ∈ res.loadedSkills) : res.Loaded v ∨ d.version = v := by
  obtain ⟨x, hx | hx, hv⟩ := h
  · rcases Table.mem_put.mp hx with rfl | ⟨hx, -⟩
    · exact Or.inr hv
    · exact Or.inl ⟨x, Or.inl (ht x hx), hv⟩
  · exact Or.inl ⟨x, Or.inr hx, hv⟩

theorem loaded_putAgents {t : Descriptors}
    {p : Table (fun i : ContextResourceInterrupt => i.resource.key)}
    (h : ContextResources.Loaded { res with loadedAgents := t.put d, pendingAgents := p } v)
    (ht : ∀ x ∈ t, x ∈ res.loadedAgents) : res.Loaded v ∨ d.version = v := by
  obtain ⟨x, hx | hx, hv⟩ := h
  · exact Or.inl ⟨x, Or.inl hx, hv⟩
  · rcases Table.mem_put.mp hx with rfl | ⟨hx, -⟩
    · exact Or.inr hv
    · exact Or.inl ⟨x, Or.inr (ht x hx), hv⟩

/-- What a step of resources may do: load versions of one descriptor, and forget. -/
structure LoadsOnly (d : ContextResourceDescriptor) (res res' : ContextResources) : Prop where
  loaded : ∀ v, res'.Loaded v → res.Loaded v ∨ d.version = v
  pending : ∀ i ∈ res'.pendingAgents, i ∈ res.pendingAgents

theorem acknowledgeOne_loads (res : ContextResources) (d : ContextResourceDescriptor) :
    LoadsOnly d res (res.acknowledgeOne d) := by
  unfold ContextResources.acknowledgeOne
  split
  · split
    · split
      · rename_i hversion
        refine ⟨fun v hv => ?_, fun i hi => hi⟩
        rw [← hversion]
        exact loaded_putSkill hv (fun _ hx => hx)
      · exact ⟨fun v hv => Or.inl hv, fun i hi => hi⟩
    · exact ⟨fun v hv => Or.inl hv, fun i hi => hi⟩
  · split
    · split
      · rename_i hversion
        refine ⟨fun v hv => ?_, fun i hi => (Table.mem_delete.mp hi).1⟩
        rw [← hversion]
        exact loaded_putAgents hv (fun _ hx => hx)
      · exact ⟨fun v hv => Or.inl hv, fun i hi => hi⟩
    · exact ⟨fun v hv => Or.inl hv, fun i hi => hi⟩

theorem restoreOne_loads (files : Files) (res : ContextResources) (d : ContextResourceDescriptor) :
    LoadsOnly d res (res.restoreOne versionOf files d) := by
  have hskills : ∀ x ∈ res.loadedSkills.delete (fun x => decide (x.key = d.key)),
      x ∈ res.loadedSkills := fun x hx => (Table.mem_delete.mp hx).1
  have hagents : ∀ x ∈ res.loadedAgents.delete (fun x => decide (x.key = d.key)),
      x ∈ res.loadedAgents := fun x hx => (Table.mem_delete.mp hx).1
  have hdropSkill : LoadsOnly d res { res with
      loadedSkills := res.loadedSkills.delete (fun x => decide (x.key = d.key)) } := by
    refine ⟨fun v hv => Or.inl ?_, fun i hi => hi⟩
    obtain ⟨x, hx, hv⟩ := hv
    exact ⟨x, hx.imp_left (hskills x), hv⟩
  have hdropAgents : LoadsOnly d res { res with
      loadedAgents := res.loadedAgents.delete (fun x => decide (x.key = d.key)) } := by
    refine ⟨fun v hv => Or.inl ?_, fun i hi => hi⟩
    obtain ⟨x, hx, hv⟩ := hv
    exact ⟨x, hx.imp_right (hagents x), hv⟩
  unfold ContextResources.restoreOne
  split
  · dsimp only
    split
    · exact hdropSkill
    · split
      · exact ⟨fun v hv => loaded_putSkill hv hskills, fun i hi => hi⟩
      · exact hdropSkill
  · dsimp only
    split
    · exact ⟨fun v hv => loaded_putAgents hv hagents, fun i hi => hi⟩
    · exact hdropAgents

/-- Descriptors taken one after the other. -/
theorem foldl_loads {f : ContextResources → ContextResourceDescriptor → ContextResources}
    (hf : ∀ res d, LoadsOnly d res (f res d)) (res : ContextResources)
    (ds : List ContextResourceDescriptor) :
    (∀ v, (ds.foldl f res).Loaded v → res.Loaded v ∨ ∃ d ∈ ds, d.version = v) ∧
      ∀ i ∈ (ds.foldl f res).pendingAgents, i ∈ res.pendingAgents := by
  induction ds generalizing res with
  | nil => exact ⟨fun v hv => Or.inl hv, fun i hi => hi⟩
  | cons d ds ih =>
      obtain ⟨hloaded, hpending⟩ := ih (f res d)
      refine ⟨fun v hv => ?_, fun i hi => (hf res d).pending i (hpending i hi)⟩
      rcases hloaded v hv with hv | ⟨x, hx, hv⟩
      · rcases (hf res d).loaded v hv with hv | hv
        · exact Or.inl hv
        · exact Or.inr ⟨d, List.mem_cons_self, hv⟩
      · exact Or.inr ⟨x, List.mem_cons_of_mem _ hx, hv⟩

theorem not_loaded_init (skills : List SkillRecord) : ¬(ContextResources.init skills).Loaded v := by
  rintro ⟨d, hd | hd, -⟩
  · exact Table.not_mem_empty hd
  · exact Table.not_mem_empty hd

/-- After a compaction only what a kept descriptor names is loaded, and nothing pends. -/
theorem takeCompactionReminder_loads (files : Files) (ds : List ContextResourceDescriptor)
    (res : ContextResources) :
    (∀ v, (res.takeCompactionReminder versionOf files ds).2.Loaded v → ∃ d ∈ ds, d.version = v) ∧
      ∀ i, i ∉ (res.takeCompactionReminder versionOf files ds).2.pendingAgents := by
  have hafter : (res.takeCompactionReminder versionOf files ds).2 =
      res.resetContext.restore versionOf files ds := by
    unfold ContextResources.takeCompactionReminder
    dsimp only
    split
    · rfl
    · rfl
  obtain ⟨hloaded, hpending⟩ := foldl_loads (f := ContextResources.restoreOne versionOf files)
    (fun res d => restoreOne_loads files res d) res.resetContext ds
  rw [hafter]
  refine ⟨fun v hv => ?_, fun i hi => Table.not_mem_empty (hpending i hi)⟩
  exact (hloaded v hv).resolve_left (not_loaded_init res.skills)

/-! ## Texts that hold bodies -/

theorem infix_intercalate {sep t : String} {ts : List String} (h : t ∈ ts) :
    t.toList <:+: (sep.intercalate ts).toList := by
  rw [String.toList_intercalate]
  induction ts with
  | nil => exact absurd h List.not_mem_nil
  | cons x ts ih =>
      cases ts with
      | nil =>
          rw [List.mem_singleton.mp h]
          simp
      | cons y ts =>
          have hjoin : sep.toList.intercalate ((x :: y :: ts).map String.toList) =
              x.toList ++ sep.toList ++ sep.toList.intercalate ((y :: ts).map String.toList) := by
            simp [List.intercalate]
          rw [hjoin]
          rcases List.mem_cons.mp h with rfl | h
          · rw [List.append_assoc]
            exact List.infix_append_of_infix_left List.infix_rfl
          · exact List.infix_append_of_infix_right (ih h)

theorem holdsBody_skillSection (body : SkillBody) :
    HoldsBody versionOf (ContextResources.skillSection body) (versionOf body.raw) := by
  refine ⟨body.raw, ?_, rfl⟩
  unfold ContextResources.skillSection
  rw [String.toList_append, String.toList_append]
  exact ⟨_, _, rfl⟩

theorem holdsBody_agentsMessage (target : String) (agents : ContextResources.AgentsFile)
    (raw : String) :
    HoldsBody versionOf (ContextResources.agentsMessage target agents raw) (versionOf raw) := by
  refine ⟨raw, infix_intercalate ?_, rfl⟩
  iterate 5 apply List.mem_cons_of_mem
  exact List.mem_cons_self

/-- A run that is stopped shows the whole message of the interrupt. -/
theorem formatRunResult_stopped {o : RunOutcome} {i : ContextResourceInterrupt}
    (h : Telling versionOf i) :
    HoldsBody versionOf (formatRunResult (o.stoppedBy i)) i.resource.version := by
  refine HoldsBody.within h ?_
  by_cases hempty : i.message = ""
  · rw [hempty]
    exact List.nil_infix
  · have hshown : part (some i.message) id = [i.message] := if_neg hempty
    apply infix_intercalate
    refine List.mem_append_left _ (List.mem_append_left _ (List.mem_append_right _ ?_))
    show i.message ∈ part (some i.message) id
    rw [hshown]
    exact List.mem_cons_self

/-- Two states of resources with the same loaded versions and pending interrupts. -/
structure SameLoaded (res res' : ContextResources) : Prop where
  skills : res'.loadedSkills = res.loadedSkills
  agents : res'.loadedAgents = res.loadedAgents
  pending : res'.pendingAgents = res.pendingAgents

theorem SameLoaded.keeps (h : SameLoaded res res') (hv : res'.Loaded v) : res.Loaded v := by
  obtain ⟨d, hd, rfl⟩ := hv
  rw [h.skills, h.agents] at hd
  exact ⟨d, hd, rfl⟩

theorem loaded_of_versionIn {key version : String}
    (h : versionIn res.loadedSkills key = some version) : res.Loaded version := by
  obtain ⟨d, hd, hv⟩ := Option.map_eq_some_iff.mp h
  exact ⟨d, Or.inl (Table.mem_of_get? hd), hv⟩

/-- What a skill call hands out: each descriptor names a loaded version, or its body is in
the text. -/
theorem skillContext_told (res : ContextResources) (names : List String) (bodies : List SkillBody) :
    SameLoaded res (res.skillContext versionOf names bodies).2 ∧
      ∀ d ∈ (res.skillContext versionOf names bodies).1.resources,
        res.Loaded d.version ∨
          HoldsBody versionOf (res.skillContext versionOf names bodies).1.content d.version := by
  have hstale : ∀ body ∈ bodies, body ∉ res.freshBodies versionOf bodies →
      res.Loaded (versionOf body.raw) := by
    intro body hbody hnot
    apply loaded_of_versionIn
    by_contra hne
    exact hnot (List.mem_filter.mpr ⟨hbody, by simpa using hne⟩)
  unfold ContextResources.skillContext
  dsimp only
  split
  · rename_i hfresh
    refine ⟨⟨rfl, rfl, rfl⟩, fun d hd => ?_⟩
    obtain ⟨body, hbody, rfl⟩ := List.mem_map.mp hd
    exact Or.inl (hstale body hbody (by rw [hfresh]; exact List.not_mem_nil))
  · refine ⟨⟨rfl, rfl, rfl⟩, fun d hd => ?_⟩
    obtain ⟨body, hbody, rfl⟩ := List.mem_map.mp hd
    by_cases hfresh : body ∈ res.freshBodies versionOf bodies
    · refine Or.inr ((holdsBody_skillSection body).within (infix_intercalate ?_))
      exact List.mem_cons_of_mem _ (List.mem_map_of_mem hfresh)
    · exact Or.inl (hstale body hbody hfresh)

theorem loadSkillContext_told {files : Files} {names : Option (List NameArg)}
    {out : LoadedSkillContext} (h : res.loadSkillContext versionOf files names = .ok (out, res')) :
    SameLoaded res res' ∧
      ∀ d ∈ out.resources, res.Loaded d.version ∨ HoldsBody versionOf out.content d.version := by
  obtain ⟨normalized, bodies, heq⟩ : ∃ normalized bodies,
      res.skillContext versionOf normalized bodies = (out, res') := by
    unfold ContextResources.loadSkillContext at h
    split at h
    · cases h
    · cases h
    · simp only [bind, Except.bind, pure, Except.pure, MonadExcept.throw, throwThe,
        MonadExceptOf.throw] at h
      split_ifs at h
      split at h
      · cases h
      · split_ifs at h
        split at h
        · cases h
        · split at h
          · cases h
          · split_ifs at h
            exact ⟨_, _, Except.ok.inj h⟩
  have htold := @skillContext_told versionOf res normalized bodies
  rw [heq] at htold
  exact htold

theorem agentsInterrupt_telling (hpending : ∀ i ∈ res.pendingAgents, Telling versionOf i)
    (target : String) (agents : ContextResources.AgentsFile) (raw : String) :
    Telling versionOf (res.agentsInterrupt versionOf target agents raw) := by
  have hnew := @holdsBody_agentsMessage versionOf target agents raw
  unfold Telling ContextResources.agentsInterrupt
  dsimp only
  split
  · rename_i pending hget
    split
    · rename_i hversion
      rw [← hversion]
      exact hpending pending (Table.mem_of_get? hget)
    · exact hnew
  · exact hnew

/-- A file access loads nothing, and what it makes pending tells its body. -/
theorem beforeFileAccess_told {files : Files} {target : String}
    (hpending : ∀ i ∈ res.pendingAgents, Telling versionOf i)
    (agents : List ContextResources.AgentsFile) :
    (∀ i, (res.beforeFileAccess versionOf files target agents).1 = .stopped i →
      Telling versionOf i) ∧
    (∀ v, (res.beforeFileAccess versionOf files target agents).2.Loaded v → res.Loaded v) ∧
    ∀ i ∈ (res.beforeFileAccess versionOf files target agents).2.pendingAgents,
      Telling versionOf i := by
  induction agents with
  | nil => exact ⟨nofun, fun v hv => hv, hpending⟩
  | cons agents rest ih =>
      unfold ContextResources.beforeFileAccess
      split
      · exact ⟨nofun, fun v hv => hv, hpending⟩
      · rename_i raw _
        split
        · exact ih
        · have hnew := agentsInterrupt_telling hpending target agents raw
          refine ⟨?_, fun v hv => hv, fun i hi => ?_⟩
          · rintro i h
            cases h
            exact hnew
          · rcases Table.mem_put.mp hi with rfl | ⟨hi, -⟩
            · exact hnew
            · exact hpending i hi

theorem skillOutput_told {deps : Deps} (files : Files) (redact : String → String)
    (arguments : String) (res : ContextResources) :
    SameLoaded res (skillOutput deps files redact arguments res).2 ∧
      ∀ d ∈ (skillOutput deps files id arguments res).1.contextResources, res.Loaded d.version ∨
        HoldsBody deps.versionOf (skillOutput deps files id arguments res).1.content d.version := by
  unfold skillOutput
  cases hload : deps.namesOf arguments >>= fun names =>
      res.loadSkillContext deps.versionOf files names with
  | error message => exact ⟨⟨rfl, rfl, rfl⟩, fun d hd => absurd hd List.not_mem_nil⟩
  | ok result =>
      obtain ⟨out, after⟩ := result
      cases hnames : deps.namesOf arguments with
      | error message =>
          rw [hnames] at hload
          cases hload
      | ok names =>
          rw [hnames] at hload
          exact loadSkillContext_told hload

theorem runOutput_told {mem : Memory} (hinterrupts : ∀ i ∈ mem.interrupts, Telling versionOf i)
    (last : Bool) (o : RunOutcome) :
    ∀ d ∈ (runOutput mem id last o).contextResources,
      HoldsBody versionOf (runOutput mem id last o).content d.version := by
  unfold runOutput
  split
  · rename_i i hi
    intro d hd
    rw [List.mem_singleton.mp hd]
    have hauthentic : mem.authentic i = true := (Option.filter_eq_some_iff.mp hi).2
    simp only [Memory.authentic, Bool.and_eq_true, decide_eq_true_eq] at hauthentic
    exact formatRunResult_stopped (hinterrupts i hauthentic.1.1.1.1)
  · exact fun d hd => absurd hd List.not_mem_nil

/-- **The output of a tool.** Without a redaction, each of its descriptors names a version
that is loaded, or whose body is in its text; nothing is loaded by it yet. -/
theorem handleTool_told {deps : Deps} {mem : Memory}
    (hinterrupts : ∀ i ∈ mem.interrupts, Telling deps.versionOf i) (files : Files)
    (redact : String → String) (call : ToolCall) (last : Bool) (o : RunOutcome) :
    SameLoaded mem.resources (handleTool deps files redact mem call last o).2 ∧
      ∀ d ∈ (handleTool deps files id mem call last o).1.contextResources,
        mem.resources.Loaded d.version ∨
          HoldsBody deps.versionOf (handleTool deps files id mem call last o).1.content
            d.version := by
  have hplain : ∀ out : ToolOutput, out.contextResources = [] →
      SameLoaded mem.resources mem.resources ∧ ∀ d ∈ out.contextResources,
        mem.resources.Loaded d.version ∨ HoldsBody deps.versionOf out.content d.version := by
    intro out hnone
    refine ⟨⟨rfl, rfl, rfl⟩, fun d hd => ?_⟩
    rw [hnone] at hd
    exact absurd hd List.not_mem_nil
  unfold handleTool
  split_ifs
  · exact hplain _ rfl
  · exact hplain _ rfl
  · exact skillOutput_told files redact call.arguments mem.resources
  · exact hplain _ rfl
  · exact hplain _ rfl
  · exact ⟨⟨rfl, rfl, rfl⟩, fun d hd => Or.inr (runOutput_told hinterrupts last o d hd)⟩

end Elpis.Resident
