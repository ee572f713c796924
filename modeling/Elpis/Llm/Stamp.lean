import Elpis.Store.Sessions

/-!
# The stamp of a generation

`stampGeneration` of `src/llm/provenance.ts`, and which of its records come back from a transcript.
The parser asks for texts that the stamp does not, and writes the endpoint in its canonical form once
more: a record comes back as it was exactly where neither changes anything.
-/

namespace Elpis.Provenance

open Elpis.Js Elpis.Store

/-! ## The stamp -/

structure ProvenanceStamp where
  /-- The own property, if there is one. -/
  gateway : Option Value := none
  toolContractVersion : Option String := none
  providerType : ProviderType
  model : String
  apiSurface : ApiSurface
  apiEndpoint : String
  reasoningEffort : Option String := none
  requestId : Option String := none
  generatedAt : Option String := none
  harnessCommit : Option String := none

/-- What a stamp looks up: the clock, the environment variable and what `git rev-parse HEAD` prints,
where `none` is a failure. -/
structure Harness where
  now : ℤ
  fromEnv : Option String
  revParse : Option String

def TOOL_CONTRACT_VERSION : String := "elpis-run-v4"

def harnessCommit (harness : Harness) : String :=
  match (harness.fromEnv.map trim).filter isNonempty with
  | some commit => commit
  | none => ((harness.revParse.map trim).filter isNonempty).getD "unknown"

/-- The version of the tool contract that a stamp names, or the one in force. -/
def ProvenanceStamp.version (stamp : ProvenanceStamp) : String :=
  stamp.toolContractVersion.getD TOOL_CONTRACT_VERSION

/-- `message.provenance`, with the gateway and the endpoint as they were checked. An empty effort or
request id is left out. -/
def ProvenanceStamp.record (stamp : ProvenanceStamp) (harness : Harness) (gateway : Option GatewayReplayIdentity)
    (apiEndpoint : String) : GenerationProvenance where
  gateway := gateway
  providerType := stamp.providerType
  model := stamp.model
  apiSurface := stamp.apiSurface
  apiEndpoint := apiEndpoint
  reasoningEffort := stamp.reasoningEffort.filter isNonempty
  generatedAt := stamp.generatedAt.getD (isoDate harness.now)
  requestId := stamp.requestId.filter isNonempty
  harnessCommit := stamp.harnessCommit.getD (Provenance.harnessCommit harness)
  toolContractVersion := stamp.version

section Stamp
variable (urls : UrlClass)

/-- The gateway of a stamp, if it has one, has to be right. -/
def readSlot : Option Value → Option (Option GatewayReplayIdentity)
  | none => some none
  | some raw => (parseGatewayReplayIdentity urls raw).map some

def stampGeneration (harness : Harness) (message : ChatMessage) (stamp : ProvenanceStamp) :
    Except String ChatMessage :=
  if stamp.version = "" then .error "Invalid tool contract version"
  else
    match readSlot urls stamp.gateway with
    | none => .error "Invalid Gateway replay identity"
    | some gateway =>
        match replayEndpoint urls stamp.apiEndpoint gateway with
        | none => .error (if gateway.isSome then "Invalid Gateway replay identity endpoint" else "Invalid URL")
        | some apiEndpoint => .ok { message with provenance := some (stamp.record harness gateway apiEndpoint) }

end Stamp

/-! ## URLs -/

def endsInSlash (s : String) : Prop := s.toList.getLast? = some '/'

instance (s : String) : Decidable (endsInSlash s) := inferInstanceAs (Decidable (_ = _))

/-- The text without its last character. -/
def shorter (s : String) : String := String.ofList s.toList.dropLast

def Url.isHttp (u : Url) : Prop := u.protocol = "http:" ∨ u.protocol = "https:"

/-- What the URL standard says of URLs and the texts they are written as. -/
structure UrlClass.Lawful (urls : UrlClass) : Prop where
  parse_empty : urls.parse "" = none
  /-- A URL is read again from its text. -/
  parse_href : ∀ raw u, urls.parse raw = some u → urls.parse u.href = some u
  resolve_href : ∀ path base u, urls.resolve path base = some u → urls.parse u.href = some u
  cleared_href : ∀ raw u, urls.parse raw = some u → urls.parse (urls.cleared u).href = some (urls.cleared u)
  cleared_cleared : ∀ raw u, urls.parse raw = some u → urls.cleared (urls.cleared u) = urls.cleared u
  /-- Without a closing slash that is not the whole path, the text is that of another URL. -/
  parse_shorter : ∀ raw u, urls.parse raw = some u → endsInSlash (urls.cleared u).href →
    (urls.cleared u).pathname ≠ "/" →
    ∃ v, urls.parse (shorter (urls.cleared u).href) = some v ∧ (urls.cleared v).href ≠ (urls.cleared u).href
  /-- The text of an HTTP URL ends with its path, -/
  http_path : ∀ raw u, urls.parse raw = some u → (urls.cleared u).isHttp →
    (endsInSlash (urls.cleared u).href ↔ endsInSlash (urls.cleared u).pathname)
  /-- and without the closing slash it is the URL of the shorter path. -/
  http_shorter : ∀ raw u v, urls.parse raw = some u → (urls.cleared u).isHttp → endsInSlash (urls.cleared u).href →
    (urls.cleared u).pathname ≠ "/" → urls.parse (shorter (urls.cleared u).href) = some v →
    (urls.cleared v).isHttp ∧ (urls.cleared v).href = shorter (urls.cleared u).href ∧
      (urls.cleared v).pathname = shorter (urls.cleared u).pathname

/-- The text of a URL, without its closing slash if it has one, is written the same again. -/
def Settled (urls : UrlClass) (u : Url) : Prop :=
  u.pathname = "/" ∨ ¬endsInSlash u.href ∨
    ∃ v, urls.parse (shorter u.href) = some v ∧ (urls.cleared v).href = shorter u.href ∧
      ((urls.cleared v).pathname = "/" ∨ ¬endsInSlash (shorter u.href))

section Endpoints
variable {urls : UrlClass} {raw e : String} {u : Url}

/-- What `canonicalEndpoint` makes of a URL without credentials, query and fragment. -/
def written (u : Url) : String := if u.pathname ≠ "/" ∧ endsInSlash u.href then shorter u.href else u.href

theorem canonicalEndpoint_eq (hu : urls.parse raw = some u) :
    canonicalEndpoint urls raw = some (written (urls.cleared u)) := by
  rw [canonicalEndpoint, hu]
  unfold written
  split_ifs with h
  · exact if_pos h
  · exact if_neg h

theorem canonicalEndpoint_eq_some : canonicalEndpoint urls raw = some e ↔
    ∃ u, urls.parse raw = some u ∧ written (urls.cleared u) = e := by
  cases hu : urls.parse raw with
  | none => simp [canonicalEndpoint, hu]
  | some u => simp [canonicalEndpoint_eq hu]

theorem shorter_injective {s t : String} (hs : endsInSlash s) (ht : endsInSlash t) (h : shorter s = shorter t) :
    s = t := by
  have hlist : s.toList.dropLast = t.toList.dropLast := by
    simpa [shorter] using congrArg String.toList h
  rw [← String.toList_inj, ← List.dropLast_append_getLast? '/' hs, ← List.dropLast_append_getLast? '/' ht, hlist]

/-- The canonical form is canonical exactly where the URL is settled. -/
theorem canonicalEndpoint_idem_iff (laws : urls.Lawful) (hu : urls.parse raw = some u)
    (he : canonicalEndpoint urls raw = some e) :
    canonicalEndpoint urls e = some e ↔ Settled urls (urls.cleared u) := by
  obtain rfl : written (urls.cleared u) = e := Option.some.inj ((canonicalEndpoint_eq hu).symm.trans he)
  by_cases hslash : (urls.cleared u).pathname ≠ "/" ∧ endsInSlash (urls.cleared u).href
  · obtain ⟨v, hv, hother⟩ := laws.parse_shorter raw u hu hslash.2 hslash.1
    have hwritten : written (urls.cleared u) = shorter (urls.cleared u).href := if_pos hslash
    rw [hwritten, canonicalEndpoint_eq hv, Option.some.injEq]
    constructor
    · intro hsame
      refine Or.inr (Or.inr ⟨v, hv, ?_⟩)
      unfold written at hsame
      split_ifs at hsame with hagain
      · exact absurd (shorter_injective hagain.2 hslash.2 hsame) hother
      · rw [not_and_or, not_not, hsame] at hagain
        exact ⟨hsame, hagain⟩
    · rintro (hroot | hplain | ⟨v', hv', hhref, hend⟩)
      · exact absurd hroot hslash.1
      · exact absurd hslash.2 hplain
      · obtain rfl : v = v' := Option.some.inj (hv.symm.trans hv')
        unfold written
        rw [hhref, if_neg]
        exact fun h => hend.elim h.1 (fun hplain => hplain h.2)
  · have hwritten : written (urls.cleared u) = (urls.cleared u).href := if_neg hslash
    rw [hwritten, canonicalEndpoint_eq (laws.cleared_href raw u hu), laws.cleared_cleared raw u hu, hwritten]
    rw [not_and_or, not_not] at hslash
    exact iff_of_true rfl (hslash.imp id Or.inl)

/-- An HTTP URL is settled unless its path ends in two slashes and is more than these. -/
theorem settled_http_iff (laws : urls.Lawful) (hu : urls.parse raw = some u) (hhttp : (urls.cleared u).isHttp) :
    Settled urls (urls.cleared u) ↔
      ¬(endsInSlash (urls.cleared u).pathname ∧ endsInSlash (shorter (urls.cleared u).pathname) ∧
        shorter (urls.cleared u).pathname ≠ "/") := by
  have hnoSlash : ¬endsInSlash "" := by decide
  by_cases hroot : (urls.cleared u).pathname = "/"
  · refine iff_of_true (Or.inl hroot) (fun h => hnoSlash ?_)
    rw [hroot] at h
    exact h.2.1
  by_cases hslash : endsInSlash (urls.cleared u).href
  · obtain ⟨v, hv, -⟩ := laws.parse_shorter raw u hu hslash hroot
    obtain ⟨hhttp', hhref, hpath⟩ := laws.http_shorter raw u v hu hhttp hslash hroot hv
    have hend := laws.http_path _ v hv hhttp'
    rw [hhref, hpath] at hend
    have hpathSlash := (laws.http_path raw u hu hhttp).mp hslash
    constructor
    · rintro (h | h | ⟨v', hv', -, h⟩) ⟨-, htwo, hmore⟩
      · exact hroot h
      · exact h hslash
      · obtain rfl : v = v' := Option.some.inj (hv.symm.trans hv')
        rw [hpath] at h
        exact h.elim hmore (fun h => h (hend.mpr htwo))
    · intro h
      refine Or.inr (Or.inr ⟨v, hv, hhref, ?_⟩)
      rw [hpath, hend]
      by_contra hboth
      rw [not_or, not_not] at hboth
      exact h ⟨hpathSlash, hboth.2, hboth.1⟩
  · refine iff_of_true (Or.inr (Or.inl hslash)) (fun h => hslash ?_)
    exact (laws.http_path raw u hu hhttp).mpr h.1

end Endpoints

/-! ## The record that comes back -/

/-- What a stamp asks for that its record needs to come back as it is. -/
structure ProvenanceStamp.Kept (urls : UrlClass) (stamp : ProvenanceStamp) : Prop where
  model : stamp.model ≠ ""
  generatedAt : stamp.generatedAt ≠ some ""
  harnessCommit : stamp.harnessCommit ≠ some ""
  endpoint : stamp.gateway = none → ∀ u, urls.parse stamp.apiEndpoint = some u → Settled urls (urls.cleared u)

section Record
variable {urls : UrlClass}

theorem isoDate_ne_empty (ms : ℤ) : isoDate ms ≠ "" := by
  intro h
  have hlist := congrArg String.toList h
  unfold isoDate at hlist
  simp at hlist

theorem getD_ne_empty {o : Option String} {s : String} (ho : o ≠ some "") (hs : s ≠ "") : o.getD s ≠ "" := by
  cases o with
  | none => exact hs
  | some t => exact fun ht => ho (congrArg some ht)

theorem harnessCommit_ne_empty (harness : Harness) : harnessCommit harness ≠ "" := by
  have hfilter : ∀ (o : Option String) (s : String), o.filter isNonempty = some s → s ≠ "" := by
    intro o s h
    exact of_decide_eq_true (Option.filter_eq_some_iff.mp h).2
  unfold harnessCommit
  cases henv : (harness.fromEnv.map trim).filter isNonempty with
  | some commit => exact hfilter _ _ henv
  | none =>
      dsimp only
      cases hrev : (harness.revParse.map trim).filter isNonempty with
      | some commit => exact hfilter _ _ hrev
      | none => decide

theorem canonicalGatewayAuthority_idem (laws : urls.Lawful) {raw authority : String}
    (h : canonicalGatewayAuthority urls raw = some authority) :
    canonicalGatewayAuthority urls authority = some authority := by
  obtain ⟨url, hurl, hauthority⟩ := Option.bind_eq_some_iff.mp h
  split_ifs at hauthority with hbad
  obtain rfl := Option.some.inj hauthority
  refine Option.bind_eq_some_iff.mpr ⟨url, laws.parse_href raw url hurl, if_neg hbad⟩

theorem checkGateway_idem (laws : urls.Lawful) {g g' : GatewayReplayIdentity} (h : checkGateway urls g = some g') :
    checkGateway urls g' = some g' := by
  unfold checkGateway at h
  split_ifs at h with hfields
  obtain ⟨authority, hauthority, rfl⟩ := Option.map_eq_some_iff.mp h
  unfold checkGateway
  rw [if_pos hfields, canonicalGatewayAuthority_idem laws hauthority]
  rfl

theorem parseGatewayReplayIdentity_checked (laws : urls.Lawful) {raw : Value} {g : GatewayReplayIdentity}
    (h : parseGatewayReplayIdentity urls raw = some g) : checkGateway urls g = some g := by
  cases raw with
  | obj fields =>
      simp only [parseGatewayReplayIdentity] at h
      split_ifs at h
      obtain ⟨authority, -, h⟩ := Option.bind_eq_some_iff.mp h
      obtain ⟨modelRef, -, h⟩ := Option.bind_eq_some_iff.mp h
      obtain ⟨targetGeneration, -, h⟩ := Option.bind_eq_some_iff.mp h
      exact checkGateway_idem laws h
  | _ => cases h

/-- What a stamp that is not refused writes. -/
theorem stampGeneration_ok {harness : Harness} {message stamped : ChatMessage} {stamp : ProvenanceStamp}
    (h : stampGeneration urls harness message stamp = .ok stamped) :
    stamp.version ≠ "" ∧ ∃ gateway apiEndpoint, readSlot urls stamp.gateway = some gateway ∧
      replayEndpoint urls stamp.apiEndpoint gateway = some apiEndpoint ∧
      stamped = { message with provenance := some (stamp.record harness gateway apiEndpoint) } := by
  unfold stampGeneration at h
  split_ifs at h with hversion
  refine ⟨hversion, ?_⟩
  cases hslot : readSlot urls stamp.gateway with
  | none => simp [hslot] at h
  | some gateway =>
      cases hendpoint : replayEndpoint urls stamp.apiEndpoint gateway with
      | none => simp [hslot, hendpoint] at h
      | some apiEndpoint =>
          simp only [hslot, hendpoint] at h
          exact ⟨gateway, apiEndpoint, rfl, hendpoint, (Except.ok.inj h).symm⟩

variable {gateway : Option GatewayReplayIdentity}

theorem replayEndpoint_ne_empty (laws : urls.Lawful) {raw e : String}
    (h : replayEndpoint urls raw gateway = some e) : e ≠ "" := by
  rintro rfl
  cases gateway with
  | none =>
      obtain ⟨u, hu, hwritten⟩ := canonicalEndpoint_eq_some.mp h
      unfold written at hwritten
      split_ifs at hwritten with hslash
      · obtain ⟨v, hv, -⟩ := laws.parse_shorter raw u hu hslash.2 hslash.1
        rw [hwritten, laws.parse_empty] at hv
        cases hv
      · have hhref := laws.cleared_href raw u hu
        rw [hwritten, laws.parse_empty] at hhref
        cases hhref
  | some g =>
      obtain ⟨expected, hexpected, h⟩ := Option.bind_eq_some_iff.mp h
      split_ifs at h with hexact
      rw [Option.some.inj h] at hexact
      have hhref := laws.resolve_href _ _ expected hexpected
      rw [← hexact, laws.parse_empty] at hhref
      cases hhref

/-- The endpoint of a record can be read again, -/
theorem exists_replayEndpoint (laws : urls.Lawful) {raw e : String}
    (h : replayEndpoint urls raw gateway = some e) : ∃ e', replayEndpoint urls e gateway = some e' := by
  cases gateway with
  | none =>
      obtain ⟨u, hu, rfl⟩ := canonicalEndpoint_eq_some.mp h
      unfold written
      split_ifs with hslash
      · obtain ⟨v, hv, -⟩ := laws.parse_shorter raw u hu hslash.2 hslash.1
        exact ⟨_, canonicalEndpoint_eq hv⟩
      · exact ⟨_, canonicalEndpoint_eq (laws.cleared_href raw u hu)⟩
  | some g =>
      have hsame : raw = e := by
        obtain ⟨expected, -, h⟩ := Option.bind_eq_some_iff.mp h
        split_ifs at h
        exact Option.some.inj h
      exact ⟨e, hsame ▸ h⟩

/-- and is written the same then where its URL is settled. -/
theorem replayEndpoint_again_iff (laws : urls.Lawful) {raw e : String}
    (h : replayEndpoint urls raw gateway = some e) :
    replayEndpoint urls e gateway = some e ↔
      (gateway = none → ∀ u, urls.parse raw = some u → Settled urls (urls.cleared u)) := by
  cases gateway with
  | none =>
      obtain ⟨u, hu, -⟩ := canonicalEndpoint_eq_some.mp h
      refine (canonicalEndpoint_idem_iff laws hu h).trans ⟨fun hsettled _ v hv => ?_, fun hsettled => hsettled rfl u hu⟩
      obtain rfl : u = v := Option.some.inj (hu.symm.trans hv)
      exact hsettled
  | some g =>
      have hsame : raw = e := by
        obtain ⟨expected, -, h⟩ := Option.bind_eq_some_iff.mp h
        split_ifs at h
        exact Option.some.inj h
      rw [← hsame] at h ⊢
      exact iff_of_true h nofun

/-- A record comes back from its JSON as it was exactly where its stamp asked for one that is kept. -/
theorem parse_stamp_iff (laws : urls.Lawful) {harness : Harness} {message stamped : ChatMessage}
    {stamp : ProvenanceStamp} (h : stampGeneration urls harness message stamp = .ok stamped) :
    ∃ p, stamped.provenance = some p ∧
      (parseGenerationProvenance urls (.object p.members) = some p ↔ stamp.Kept urls) := by
  obtain ⟨hversion, gateway, apiEndpoint, hslot, hendpoint, rfl⟩ := stampGeneration_ok h
  refine ⟨_, rfl, ?_⟩
  have hgateway : ∀ g ∈ gateway, checkGateway urls g = some g := by
    intro g hg
    cases hstamp : stamp.gateway with
    | none =>
        rw [hstamp] at hslot
        cases hslot
        cases hg
    | some raw =>
        rw [hstamp] at hslot
        obtain ⟨g', hg', rfl⟩ := Option.map_eq_some_iff.mp hslot
        obtain rfl : g' = g := Option.some.inj hg
        exact parseGatewayReplayIdentity_checked laws hg'
  have hnone : gateway = none ↔ stamp.gateway = none := by
    cases hstamp : stamp.gateway with
    | none =>
        rw [hstamp] at hslot
        cases hslot
        exact iff_of_true rfl rfl
    | some raw =>
        rw [hstamp] at hslot
        obtain ⟨g, -, rfl⟩ := Option.map_eq_some_iff.mp hslot
        exact iff_of_false (Option.some_ne_none g) (Option.some_ne_none raw)
  have hagain := replayEndpoint_again_iff laws hendpoint
  rw [hnone] at hagain
  rw [parseGenerationProvenance_eq_iff]
  constructor
  · intro hlegible
    exact
      { model := of_decide_eq_true hlegible.model
        generatedAt := fun hempty => of_decide_eq_true hlegible.generatedAt (by rw [ProvenanceStamp.record, hempty]; rfl)
        harnessCommit := fun hempty =>
          of_decide_eq_true hlegible.harnessCommit (by rw [ProvenanceStamp.record, hempty]; rfl)
        endpoint := hagain.mp hlegible.endpoint }
  · intro hkept
    exact
      { model := decide_eq_true hkept.model
        apiEndpoint := decide_eq_true (replayEndpoint_ne_empty laws hendpoint)
        generatedAt := decide_eq_true (getD_ne_empty hkept.generatedAt (isoDate_ne_empty _))
        harnessCommit := decide_eq_true (getD_ne_empty hkept.harnessCommit (harnessCommit_ne_empty _))
        toolContractVersion := decide_eq_true hversion
        gateway := hgateway
        endpoint := hagain.mpr hkept.endpoint }

end Record

/-! ## The same identity -/

/-- What `sameReplayIdentity` compares of an identity. -/
def ReplayIdentity.wire (urls : UrlClass) (a : ReplayIdentity) : Option ReplayIdentity :=
  if a.toolContractVersion = "" then none
  else do
    let gateway ← checkedGateway urls a.gateway
    let apiEndpoint ← replayEndpoint urls a.apiEndpoint gateway
    some { a with gateway, apiEndpoint }

section Same
variable {urls : UrlClass}

theorem wire_eq_some {a w : ReplayIdentity} : a.wire urls = some w ↔
    a.toolContractVersion ≠ "" ∧ ∃ gateway apiEndpoint, checkedGateway urls a.gateway = some gateway ∧
      replayEndpoint urls a.apiEndpoint gateway = some apiEndpoint ∧ { a with gateway, apiEndpoint } = w := by
  unfold ReplayIdentity.wire
  split_ifs with hversion
  · simp [hversion]
  · simp [hversion, Option.bind_eq_some_iff]

/-- Two identities are the same if both are sent as one. -/
theorem sameReplayIdentity_iff {a b : ReplayIdentity} :
    sameReplayIdentity urls (some a) (some b) = true ↔ ∃ w, a.wire urls = some w ∧ b.wire urls = some w := by
  simp only [sameReplayIdentity]
  by_cases hversion : a.toolContractVersion = "" ∨ b.toolContractVersion = ""
  · rw [if_pos hversion]
    refine iff_of_false Bool.false_ne_true ?_
    rintro ⟨w, ha, hb⟩
    exact hversion.elim (wire_eq_some.mp ha).1 (wire_eq_some.mp hb).1
  · rw [if_neg hversion]
    rw [not_or] at hversion
    unfold ReplayIdentity.wire
    rw [if_neg hversion.1, if_neg hversion.2]
    cases hag : checkedGateway urls a.gateway with
    | none => simp
    | some ag =>
        cases hbg : checkedGateway urls b.gateway with
        | none => simp
        | some bg =>
            cases hae : replayEndpoint urls a.apiEndpoint ag with
            | none => simp [hae]
            | some ae =>
                cases hbe : replayEndpoint urls b.apiEndpoint bg with
                | none => simp [hae, hbe]
                | some be =>
                    simp [hae, hbe]
                    grind

/-- Nothing but the canonical form of an endpoint is sent. -/
theorem wire_endpoint {a : ReplayIdentity} {e : String} (hnone : a.gateway = none)
    (h : canonicalEndpoint urls e = canonicalEndpoint urls a.apiEndpoint) :
    ReplayIdentity.wire urls { a with apiEndpoint := e } = a.wire urls := by
  unfold ReplayIdentity.wire
  rw [hnone]
  simp only [checkedGateway, Option.bind_eq_bind, Option.bind_some, replayEndpoint, h]

theorem wire_of_parsed (laws : urls.Lawful) {value : Value} {p : GenerationProvenance}
    (h : parseGenerationProvenance urls value = some p) : ∃ w, p.identity.wire urls = some w := by
  unfold parseGenerationProvenance at h
  simp only [Option.bind_eq_bind, Option.bind_eq_some_iff] at h
  obtain ⟨providerType, -, apiSurface, -, model, -, rawEndpoint, -, generatedAt, -, harnessCommit, -, version, hversion,
    gateway, hgateway, apiEndpoint, hendpoint, hp⟩ := h
  obtain rfl := Option.some.inj hp
  have hnonempty : version ≠ "" := by
    obtain ⟨field, -, hfield⟩ := Option.bind_eq_some_iff.mp hversion
    exact of_decide_eq_true (Option.filter_eq_some_iff.mp hfield).2
  have hchecked : checkedGateway urls gateway = some gateway := by
    unfold readGateway at hgateway
    cases hfield : value.field? "gateway" with
    | none =>
        rw [hfield] at hgateway
        cases hgateway
        rfl
    | some raw =>
        rw [hfield] at hgateway
        obtain ⟨g, hg, rfl⟩ := Option.map_eq_some_iff.mp hgateway
        rw [checkedGateway, parseGatewayReplayIdentity_checked laws hg]
        rfl
  obtain ⟨again, hagain⟩ := exists_replayEndpoint laws hendpoint
  exact ⟨_, wire_eq_some.mpr ⟨hnonempty, gateway, again, hchecked, hagain, rfl⟩⟩

end Same

/-- The records that a transcript can give. -/
def Parsed (urls : UrlClass) : Type := { p : GenerationProvenance // ∃ value, parseGenerationProvenance urls value = some p }

/-- **What comes back of a stamp.** A record comes back equal exactly where its model, time and commit
are not empty and, without a gateway, its endpoint is settled; for an HTTP endpoint this is where its
path does not end in two slashes, unless it is only these. On the records that are read, being the same
is an equivalence, and it depends on an endpoint by its canonical form; that form is canonical itself
exactly where the endpoint is settled. -/
theorem stampGeneration_kept_iff {urls : UrlClass} (laws : urls.Lawful) :
    (∀ harness message stamp stamped, stampGeneration urls harness message stamp = .ok stamped →
      ∃ p, stamped.provenance = some p ∧
        (parseGenerationProvenance urls (.object p.members) = some p ↔ stamp.Kept urls)) ∧
    Equivalence (fun p q : Parsed urls => sameReplayIdentity urls (some p.1.identity) (some q.1.identity) = true) ∧
    (∀ (a : ReplayIdentity) (e : String) (b : Option ReplayIdentity), a.gateway = none →
      canonicalEndpoint urls e = canonicalEndpoint urls a.apiEndpoint →
      sameReplayIdentity urls (some { a with apiEndpoint := e }) b = sameReplayIdentity urls (some a) b) ∧
    (∀ raw u e, urls.parse raw = some u → canonicalEndpoint urls raw = some e →
      (canonicalEndpoint urls e = some e ↔ Settled urls (urls.cleared u))) ∧
    ∀ raw u, urls.parse raw = some u → (urls.cleared u).isHttp →
      (Settled urls (urls.cleared u) ↔
        ¬(endsInSlash (urls.cleared u).pathname ∧ endsInSlash (shorter (urls.cleared u).pathname) ∧
          shorter (urls.cleared u).pathname ≠ "/")) := by
  refine ⟨fun harness message stamp stamped => parse_stamp_iff laws, ⟨?_, ?_, ?_⟩, ?_,
    fun raw u e hu he => canonicalEndpoint_idem_iff laws hu he, fun raw u hu => settled_http_iff laws hu⟩
  · rintro ⟨p, value, hp⟩
    obtain ⟨w, hw⟩ := wire_of_parsed laws hp
    exact sameReplayIdentity_iff.mpr ⟨w, hw, hw⟩
  · intro p q h
    obtain ⟨w, hp, hq⟩ := sameReplayIdentity_iff.mp h
    exact sameReplayIdentity_iff.mpr ⟨w, hq, hp⟩
  · intro p q r h h'
    obtain ⟨w, hp, hq⟩ := sameReplayIdentity_iff.mp h
    obtain ⟨w', hq', hr⟩ := sameReplayIdentity_iff.mp h'
    obtain rfl : w = w' := Option.some.inj (hq.symm.trans hq')
    exact sameReplayIdentity_iff.mpr ⟨w, hp, hr⟩
  · intro a e b hnone he
    cases b with
    | none => rfl
    | some b => rw [Bool.eq_iff_iff, sameReplayIdentity_iff, sameReplayIdentity_iff, wire_endpoint hnone he]

/-! ## A host with four paths -/

/-- What `new URL` makes of this path of the host. -/
def hostUrl (path : String) : Url where
  protocol := "https:"
  username := ""
  password := ""
  pathname := path
  search := ""
  hash := ""
  href := "https://h.example" ++ path
  origin := "https://h.example"

/-- The `URL` class on the texts of four paths of the host. -/
def hostUrls : UrlClass where
  parse raw := (["/", "/a", "/a/", "/a//"].map hostUrl).find? (fun u => decide (u.href = raw))
  resolve _ _ := none
  cleared u := u

theorem hostUrls_parse {raw : String} {u : Url} (h : hostUrls.parse raw = some u) :
    u.href = raw ∧ (u = hostUrl "/" ∨ u = hostUrl "/a" ∨ u = hostUrl "/a/" ∨ u = hostUrl "/a//") := by
  have hfind : (["/", "/a", "/a/", "/a//"].map hostUrl).find? (fun u => decide (u.href = raw)) = some u := h
  have hhref := List.find?_some hfind
  refine ⟨of_decide_eq_true hhref, ?_⟩
  simpa only [List.map_cons, List.map_nil, List.mem_cons, List.not_mem_nil, or_false] using
    List.mem_of_find?_eq_some hfind

theorem hostUrls_lawful : hostUrls.Lawful where
  parse_empty := by decide
  parse_href := by
    intro raw u h
    rw [(hostUrls_parse h).1]
    exact h
  resolve_href := nofun
  cleared_href := by
    intro raw u h
    change hostUrls.parse u.href = some u
    rw [(hostUrls_parse h).1]
    exact h
  cleared_cleared _ _ _ := rfl
  parse_shorter := by
    intro raw u h hslash hroot
    rcases (hostUrls_parse h).2 with rfl | rfl | rfl | rfl
    · exact absurd rfl hroot
    · exact absurd hslash (by decide)
    · exact ⟨hostUrl "/a", by rfl, by decide⟩
    · exact ⟨hostUrl "/a/", by rfl, by decide⟩
  http_path := by
    intro raw u h _
    rcases (hostUrls_parse h).2 with rfl | rfl | rfl | rfl
    all_goals decide
  http_shorter := by
    intro raw u v h _ hslash hroot hv
    have hhref := (hostUrls_parse hv).1
    rcases (hostUrls_parse h).2 with rfl | rfl | rfl | rfl
    · exact absurd rfl hroot
    · exact absurd hslash (by decide)
    · rcases (hostUrls_parse hv).2 with rfl | rfl | rfl | rfl
      all_goals first | exact absurd hhref (by decide) | exact ⟨Or.inr rfl, hhref, by decide⟩
    · rcases (hostUrls_parse hv).2 with rfl | rfl | rfl | rfl
      all_goals first | exact absurd hhref (by decide) | exact ⟨Or.inr rfl, hhref, by decide⟩

def hostHarness : Harness := ⟨0, none, some "c0ffee\n"⟩

def hostMessage : ChatMessage := { role := .assistant, content := "" }

def hostStamp (model apiEndpoint : String) : ProvenanceStamp where
  providerType := .openaiCompatible
  model := model
  apiSurface := .responses
  apiEndpoint := apiEndpoint

/-- With one closing slash, the record comes back as it was. -/
theorem stamp_one_slash : ∃ stamped p,
    stampGeneration hostUrls hostHarness hostMessage (hostStamp "m" "https://h.example/a/") = .ok stamped ∧
      stamped.provenance = some p ∧ parseGenerationProvenance hostUrls (.object p.members) = some p := by
  obtain ⟨p, hp, hkept⟩ := (stampGeneration_kept_iff hostUrls_lawful).1 hostHarness hostMessage
    (hostStamp "m" "https://h.example/a/") _ rfl
  refine ⟨_, p, rfl, hp, hkept.mpr ?_⟩
  exact
    { model := by decide
      generatedAt := nofun
      harnessCommit := nofun
      endpoint := by
        intro _ u hu
        obtain rfl : hostUrl "/a/" = u := Option.some.inj hu
        exact Or.inr (Or.inr ⟨hostUrl "/a", by rfl, by rfl, Or.inr (by decide)⟩) }

/-- With two, it comes back with an endpoint that has one slash less; and without a model it does not
come back. -/
theorem stamp_two_slashes :
    (∃ stamped p q,
      stampGeneration hostUrls hostHarness hostMessage (hostStamp "m" "https://h.example/a//") = .ok stamped ∧
        stamped.provenance = some p ∧ p.apiEndpoint = "https://h.example/a/" ∧
        parseGenerationProvenance hostUrls (.object p.members) = some q ∧ q.apiEndpoint = "https://h.example/a" ∧
        q ≠ p) ∧
      ∃ stamped p, stampGeneration hostUrls hostHarness hostMessage (hostStamp "" "https://h.example/a") = .ok stamped ∧
        stamped.provenance = some p ∧ parseGenerationProvenance hostUrls (.object p.members) = none := by
  constructor
  · refine ⟨_, (hostStamp "m" "https://h.example/a//").record hostHarness none "https://h.example/a/",
      (hostStamp "m" "https://h.example/a//").record hostHarness none "https://h.example/a", rfl, rfl, rfl, ?_, rfl, ?_⟩
    · decide
    · exact fun h => absurd (congrArg GenerationProvenance.apiEndpoint h) (by decide)
  · refine ⟨_, (hostStamp "" "https://h.example/a").record hostHarness none "https://h.example/a", rfl, rfl, ?_⟩
    decide

end Elpis.Provenance
