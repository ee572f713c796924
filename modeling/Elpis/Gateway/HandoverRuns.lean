import Elpis.Gateway.Handover

/-!
# Every run of the hand-over

The invariant holds along every run in which random ids do not repeat and nobody else acts
for the resident. So the gateway's active credential is always one the resident holds, and
the request that the resident would make next is never in conflict.
-/

namespace Elpis.Gateway.Resident

open Elpis.Js Elpis.Lib

variable {digest : String → Bytes} {validEndpoint : String → Bool} {y : System}

/-! ## A request of the resident is delivered -/

theorem deliver_effect {call : Call} {r : Reply} {db' : Database} (h : Inv digest y)
    (hsent : call ∈ y.sent) (he : Effect digest y.db call r db') :
    Inv digest { y with db := db' } ∧ Told { y with db := db' } (call, r) := by
  cases call with
  | enroll input => exact deliver_enroll h hsent he
  | proposeRotation token new verifier requestId => exact deliver_propose h hsent he
  | activateRotation token requestId => exact deliver_activate h hsent he
  -- the resident sends nothing else
  | createEnrollmentGrant ttlMs requestId => exact ((h.sent _ hsent).2.elim id id).elim
  | revokeEnrollmentGrant key requestId => exact ((h.sent _ hsent).2.elim id id).elim
  | authenticateNode token => exact ((h.sent _ hsent).2.elim id id).elim
  | revokeCredential key requestId => exact ((h.sent _ hsent).2.elim id id).elim

theorem inv_deliver (h : Inv digest y) (request : ℕ) (env : Env) :
    Inv digest (step digest validEndpoint y (.deliver request env)) := by
  unfold step
  simp only
  cases hcall : y.sent[request]? with
  | none => exact h
  | some call =>
      have hsent : call ∈ y.sent := List.mem_of_getElem? hcall
      have hdoes := Tx.wp_iff.mp (answer_does digest env y.db call)
      simp only
      rcases hanswer : answer digest env call y.db with ⟨e | r, db'⟩
      · rcases hdoes.2 e db' hanswer with rfl | ⟨_, r, he⟩
        · exact h
        · exact (deliver_effect h hsent he).1
      · obtain ⟨hinv, htold⟩ := deliver_effect h hsent (hdoes.1 r db' hanswer)
        exact hinv.addReply htold

/-! ## Someone else calls -/

section Foreign

variable {call : Call} {r : Reply} {db' : Database}

/-- A credential of the resident stays as it is. -/
theorem foreign_look (h : Inv digest y) (hforeign : Foreign digest y call)
    (he : Effect digest y.db call r db') {id : String} (hid : id ∈ y.drawn) : look db' id = look y.db id := by
  cases he with
  | enrolled input row displayName at_ hparsed hrow hopen hinstance hcredential =>
      refine (look_put y.db id).trans (if_neg ?_)
      rintro rfl
      exact hforeign.2.1 hid
  | authenticated token row at_ hparsed hrow hactive =>
      rw [look_put]
      split
      · rename_i heq
        rw [heq, look_mem hrow]
        rfl
      · rfl
  | proposed token new newVerifier requestId old at_ hparsed hold hactive hnew hfree =>
      refine (look_put y.db id).trans (if_neg ?_)
      rintro rfl
      exact hforeign.1 hid
  | activated token requestId row old at_ hparsed hrow hpending hrotates hold hactive hsame =>
      obtain ⟨p, hp, hpid⟩ := hparsed
      have hrowid : row.id ∉ y.drawn := hpid ▸ hforeign p hp
      have hne : id ≠ row.id := by
        rintro rfl
        exact hrowid hid
      have hne' : id ≠ old.id := by
        -- the rotation of a credential of the resident would be its own
        rintro rfl
        obtain ⟨endpoint, name, rid, a, q, t₁, t₂, t₃, proposedAt, hphase, _, hq⟩ :=
          h.pending row hrow old.id hid hrotates hpending
        refine hrowid (hq ▸ h.heldDrawn q ?_)
        rw [hphase]
        simp [held]
      refine (look_put { y.db with credentials := y.db.credentials.put { old with
        state := .revoked, revokedAt := some at_, replacedByCredentialId := some row.id } } id).trans ?_
      rw [if_neg hne, look_put, if_neg hne']
  | credentialRevoked requestId row at_ hrow =>
      refine (look_put y.db id).trans (if_neg ?_)
      rintro rfl
      exact hforeign hid
  | granted => rfl
  | grantRevoked => rfl
  | grantRevokedBefore => rfl
  | enrolledBefore => rfl
  | refused => rfl
  | proposedBefore => rfl
  | activatedBefore => rfl
  | credentialRevokedBefore => rfl

theorem foreign_instance (hforeign : Foreign digest y call) (he : Effect digest y.db call r db')
    (h : HasInstance db' y.row.instanceId) : HasInstance y.db y.row.instanceId := by
  cases he with
  | enrolled input row displayName at_ hparsed hrow hopen hinstance hcredential =>
      obtain ⟨i, hi, hid⟩ := h
      rcases Table.mem_put.mp hi with rfl | ⟨hin, _⟩
      · exact absurd hid hforeign.1
      · exact ⟨i, hin, hid⟩
  | authenticated => exact h
  | proposed => exact h
  | activated => exact h
  | credentialRevoked => exact h
  | granted => exact h
  | grantRevoked => exact h
  | grantRevokedBefore => exact h
  | enrolledBefore => exact h
  | refused => exact h
  | proposedBefore => exact h
  | activatedBefore => exact h
  | credentialRevokedBefore => exact h

theorem foreign_unconsumed (hforeign : Foreign digest y call) (he : Effect digest y.db call r db')
    {token : String} (htoken : token ∈ heldGrant y.row.phase) (h : Unconsumed digest y.db token) :
    Unconsumed digest db' token := by
  intro g hg x hx hid
  cases he with
  | granted ttlMs requestId row token hnew hopen =>
      rcases Table.mem_put.mp hx with rfl | ⟨hin, _⟩
      · exact hopen
      · exact h g hg x hin hid
  | grantRevoked requestId row at_ hrow =>
      rcases Table.mem_put.mp hx with rfl | ⟨hin, _⟩
      · exact h g hg row hrow hid
      · exact h g hg x hin hid
  | enrolled input row displayName at_ hparsed hrow hopen hinstance hcredential =>
      rcases Table.mem_put.mp hx with rfl | ⟨hin, _⟩
      · obtain ⟨g', hg', hgid⟩ := hparsed
        exact absurd (hgid.trans hid) (hforeign.2.2 token htoken g g' hg hg')
      · exact h g hg x hin hid
  | authenticated => exact h g hg x hx hid
  | proposed => exact h g hg x hx hid
  | activated => exact h g hg x hx hid
  | credentialRevoked => exact h g hg x hx hid
  | grantRevokedBefore => exact h g hg x hx hid
  | enrolledBefore => exact h g hg x hx hid
  | refused => exact h g hg x hx hid
  | proposedBefore => exact h g hg x hx hid
  | activatedBefore => exact h g hg x hx hid
  | credentialRevokedBefore => exact h g hg x hx hid

theorem foreign_pending (hforeign : Foreign digest y call) (he : Effect digest y.db call r db')
    {c : CredentialRow} (hc : c ∈ db'.credentials) {o : String} (ho : o ∈ y.drawn)
    (hrotates : c.rotatesCredentialId = some o) (hpending : c.state = .pending) :
    ∃ c₀ ∈ y.db.credentials, c₀.id = c.id ∧ c₀.rotatesCredentialId = some o ∧ c₀.state = .pending := by
  cases he with
  | enrolled input row displayName at_ hparsed hrow hopen hinstance hcredential =>
      rcases Table.mem_put.mp hc with rfl | ⟨hin, _⟩
      · cases hrotates
      · exact ⟨c, hin, rfl, hrotates, hpending⟩
  | authenticated token row at_ hparsed hrow hactive =>
      rcases Table.mem_put.mp hc with rfl | ⟨hin, _⟩
      · exact ⟨row, hrow, rfl, hrotates, hpending⟩
      · exact ⟨c, hin, rfl, hrotates, hpending⟩
  | proposed token new newVerifier requestId old at_ hparsed hold hactive hnew hfree =>
      rcases Table.mem_put.mp hc with rfl | ⟨hin, _⟩
      · obtain ⟨p, hp, hpid⟩ := hparsed
        cases hrotates
        exact absurd (hpid ▸ ho) (hforeign.2 p hp)
      · exact ⟨c, hin, rfl, hrotates, hpending⟩
  | activated token requestId row old at_ hparsed hrow hpend hrot hold hactive hsame =>
      rcases Table.mem_put.mp hc with rfl | ⟨hin, _⟩
      · cases hpending
      · rcases Table.mem_put.mp hin with rfl | ⟨hin, _⟩
        · cases hpending
        · exact ⟨c, hin, rfl, hrotates, hpending⟩
  | credentialRevoked requestId row at_ hrow =>
      rcases Table.mem_put.mp hc with rfl | ⟨hin, _⟩
      · cases hpending
      · exact ⟨c, hin, rfl, hrotates, hpending⟩
  | granted => exact ⟨c, hc, rfl, hrotates, hpending⟩
  | grantRevoked => exact ⟨c, hc, rfl, hrotates, hpending⟩
  | grantRevokedBefore => exact ⟨c, hc, rfl, hrotates, hpending⟩
  | enrolledBefore => exact ⟨c, hc, rfl, hrotates, hpending⟩
  | refused => exact ⟨c, hc, rfl, hrotates, hpending⟩
  | proposedBefore => exact ⟨c, hc, rfl, hrotates, hpending⟩
  | activatedBefore => exact ⟨c, hc, rfl, hrotates, hpending⟩
  | credentialRevokedBefore => exact ⟨c, hc, rfl, hrotates, hpending⟩

theorem foreign_agree (h : Inv digest y) (hforeign : Foreign digest y call)
    (he : Effect digest y.db call r db') : Agree digest db' y.row.instanceId y.row.phase := by
  have hagree := h.agree
  have hgrows := grows_of_effect he
  have hlook : ∀ d ∈ held y.row.phase, look db' d.id = look y.db d.id :=
    fun d hd => foreign_look h hforeign he (h.heldDrawn d hd)
  have hgrant : ∀ token ∈ heldGrant y.row.phase, Unconsumed digest y.db token → Unconsumed digest db' token :=
    fun token htoken hopen => foreign_unconsumed hforeign he htoken hopen
  cases hphase : y.row.phase with
  | idle =>
      rw [hphase] at hagree
      exact fun hin => hagree (foreign_instance hforeign he hin)
  | enrolling endpoint name grant rid p t =>
      rw [hphase] at hagree hlook hgrant
      have hp := hlook p (by simp [held])
      rcases hagree with ⟨hno, hopen, hnone⟩ | ⟨hhas, hlive, hby⟩
      · refine Or.inl ⟨fun hin => hno (foreign_instance hforeign he hin), ?_, hp.trans hnone⟩
        exact hgrant grant rfl hopen
      · refine Or.inr ⟨hgrows.instances _ hhas, ?_, consumedBy_mono he hby⟩
        unfold Live
        rw [hp]
        exact hlive
  | active endpoint name a t₁ t₂ =>
      rw [hphase] at hagree hlook
      refine ⟨hgrows.instances _ hagree.1, ?_⟩
      unfold Live
      rw [hlook a (by simp [held])]
      exact hagree.2
  | rotating endpoint name rid a p t₁ t₂ t₃ proposedAt =>
      rw [hphase] at hagree hlook
      refine ⟨hgrows.instances _ hagree.1, hagree.2.1, ?_⟩
      unfold Live
      rw [hlook a (by simp [held]), hlook p (by simp [held])]
      exact hagree.2.2

theorem foreign_effect (h : Inv digest y) (hforeign : Foreign digest y call)
    (he : Effect digest y.db call r db') : Inv digest { y with db := db' } := by
  refine h.setDatabase he (foreign_agree h hforeign he) ?_
  intro c hc o ho hrotates hpending
  obtain ⟨c₀, hc₀, hid, hrotates₀, hpending₀⟩ := foreign_pending hforeign he hc ho hrotates hpending
  have hown := h.pending c₀ hc₀ o ho hrotates₀ hpending₀
  rw [hid] at hown
  exact hown

end Foreign

theorem inv_other (h : Inv digest y) {env : Env} {call : Call} (hforeign : Foreign digest y call) :
    Inv digest (step digest validEndpoint y (.other env call)) := by
  have hdoes := answer_does digest env y.db call
  refine Tx.wp_final (P := fun db' => Inv digest { y with db := db' }) ?_
  refine Tx.wp_mono (fun r db' he => foreign_effect h hforeign he) ?_ hdoes
  rintro e db' (rfl | ⟨_, r, he⟩)
  · exact h
  · exact foreign_effect h hforeign he

/-! ## A reply is received -/

/-- What a reply does to the resident's row. -/
inductive Turn (row : ResidentRow) : Call × Reply → ResidentRow → Prop where
  | unchanged (reply : Call × Reply) : Turn row reply row
  | enrolled (input : EnrollmentRequest) (receipt : EnrollmentReceipt) (endpoint name grant rid : String)
      (p : Draw) (t at_ : ℤ) (hphase : row.phase = .enrolling endpoint name grant rid p t)
      (hid : receipt.credentialId = p.id) :
      Turn row (.enroll input, .enrolled receipt)
        { row with phase := .active endpoint name p t at_, updatedAt := at_ }
  | proposed (token : Option String) (new : String) (verifier : Bytes) (requestId : Option String)
      (receipt : RotationReceipt) (endpoint name rid : String) (a p : Draw) (t₁ t₂ t₃ at_ : ℤ)
      (hphase : row.phase = .rotating endpoint name rid a p t₁ t₂ t₃ none)
      (hid : receipt.credentialId = p.id) :
      Turn row (.proposeRotation token new verifier requestId, .rotation receipt)
        { row with phase := .rotating endpoint name rid a p t₁ t₂ t₃ (some at_), updatedAt := at_ }
  | activated (token requestId : Option String) (receipt : RotationReceipt) (endpoint name rid : String)
      (a p : Draw) (t₁ t₂ t₃ proposed at_ : ℤ)
      (hphase : row.phase = .rotating endpoint name rid a p t₁ t₂ t₃ (some proposed))
      (hid : receipt.credentialId = p.id) :
      Turn row (.activateRotation token requestId, .rotation receipt)
        { row with phase := .active endpoint name p t₁ at_, updatedAt := at_ }

theorem activateEnrollment_turn (input : EnrollmentRequest) (receipt : EnrollmentReceipt) (chance : Chance)
    (row : ResidentRow) :
    Turn row (.enroll input, .enrolled receipt) (activateEnrollment receipt chance row).2 := by
  refine Tx.wp_final (P := Turn row (.enroll input, .enrolled receipt)) ?_
  unfold activateEnrollment
  simp only [Tx.wp_bind, Tx.wp_ensure, Tx.wp_read, id_eq]
  refine ⟨fun _ => ?_, fun _ => .unchanged _⟩
  split
  · rename_i endpoint name grant rid p t hphase
    simp only [timestamp, commitRow, Tx.wp_bind, Tx.wp_ensure, Tx.wp_require, Tx.wp_pure, Tx.wp_write]
    refine ⟨fun hid => ⟨fun now _ => ⟨fun _ => ⟨fun _ => ?_, ?_⟩, ?_⟩, ?_⟩, ?_⟩
    · exact .enrolled input receipt endpoint name grant rid p t _ hphase hid.2
    all_goals exact fun _ => .unchanged _
  · exact Tx.wp_throw.mpr (.unchanged _)

theorem markRotationProposed_turn (token : Option String) (new : String) (verifier : Bytes)
    (requestId : Option String) (receipt : RotationReceipt) (chance : Chance) (row : ResidentRow) :
    Turn row (.proposeRotation token new verifier requestId, .rotation receipt)
      (markRotationProposed receipt chance row).2 := by
  refine Tx.wp_final (P := Turn row (.proposeRotation token new verifier requestId, .rotation receipt)) ?_
  unfold markRotationProposed exactRotationResult
  simp only [Tx.wp_bind, Tx.wp_ensure, Tx.wp_read, id_eq]
  refine ⟨fun _ => ?_, fun _ => .unchanged _⟩
  split
  · rename_i endpoint name rid a p t₁ t₂ t₃ proposedAt hphase
    simp only [timestamp, commitRow, Tx.wp_bind, Tx.wp_ensure, Tx.wp_require, Tx.wp_ite, Tx.wp_pure,
      Tx.wp_write]
    refine ⟨fun hid => ⟨fun _ => .unchanged _, fun hnone => ⟨fun now _ => ⟨fun _ => ⟨fun _ => ?_, ?_⟩, ?_⟩,
      ?_⟩⟩, ?_⟩
    · obtain rfl : proposedAt = none := by simpa using hnone
      exact .proposed token new verifier requestId receipt endpoint name rid a p t₁ t₂ t₃ _ hphase hid.2.1
    all_goals exact fun _ => .unchanged _
  · exact Tx.wp_throw.mpr (.unchanged _)

theorem activateRotation_turn (token requestId : Option String) (receipt : RotationReceipt)
    (chance : Chance) (row : ResidentRow) :
    Turn row (.activateRotation token requestId, .rotation receipt)
      (activateRotation receipt chance row).2 := by
  refine Tx.wp_final (P := Turn row (.activateRotation token requestId, .rotation receipt)) ?_
  unfold activateRotation exactRotationResult
  simp only [Tx.wp_bind, Tx.wp_ensure, Tx.wp_read, id_eq]
  refine ⟨fun _ => ?_, fun _ => .unchanged _⟩
  split
  · rename_i endpoint name rid a p t₁ t₂ t₃ proposedAt hphase
    simp only [timestamp, commitRow, Tx.wp_bind, Tx.wp_ensure, Tx.wp_require, Tx.wp_pure, Tx.wp_write]
    refine ⟨fun hsome => ⟨fun hid => ⟨fun now _ => ⟨fun _ => ⟨fun _ => ?_, ?_⟩, ?_⟩, ?_⟩, ?_⟩, ?_⟩
    · obtain ⟨proposed, rfl⟩ := Option.isSome_iff_exists.mp hsome
      exact .activated token requestId receipt endpoint name rid a p t₁ t₂ t₃ proposed _ hphase hid.2.1
    all_goals exact fun _ => .unchanged _
  · exact Tx.wp_throw.mpr (.unchanged _)

theorem handle_turn (reply : Call × Reply) (chance : Chance) (row : ResidentRow) :
    Turn row reply (handle reply chance row).2 := by
  unfold handle
  split
  · exact activateEnrollment_turn _ _ chance row
  · exact markRotationProposed_turn _ _ _ _ _ chance row
  · exact activateRotation_turn _ _ _ chance row
  · exact .unchanged _

theorem current_cases {phase : GatewayResidentPhase} {c : Call} (h : Current digest phase c) :
    (∃ endpoint name rid p t input, phase = .enrolling endpoint name input.grantToken rid p t ∧
      c = .enroll input) ∨
    (∃ endpoint name rid a p t₁ t₂ t₃ proposedAt requestId,
      phase = .rotating endpoint name rid a p t₁ t₂ t₃ proposedAt ∧
      c = .proposeRotation (some (createNodeCredential digest a).token) p.id (digest p.secret) requestId) ∨
    (∃ endpoint name rid a p t₁ t₂ t₃ at_ requestId,
      phase = .rotating endpoint name rid a p t₁ t₂ t₃ (some at_) ∧
      c = .activateRotation (some (createNodeCredential digest p).token) requestId) := by
  cases c with
  | enroll input =>
      obtain ⟨endpoint, name, grant, rid, p, t, hphase, rfl, _⟩ := h
      exact Or.inl ⟨endpoint, name, rid, p, t, input, hphase, rfl⟩
  | proposeRotation token new verifier requestId =>
      obtain ⟨endpoint, name, rid, a, p, t₁, t₂, t₃, proposedAt, hphase, rfl, rfl, rfl⟩ := h
      exact Or.inr (Or.inl ⟨endpoint, name, rid, a, p, t₁, t₂, t₃, proposedAt, requestId, hphase, rfl⟩)
  | activateRotation token requestId =>
      obtain ⟨endpoint, name, rid, a, p, t₁, t₂, t₃, at_, hphase, rfl⟩ := h
      exact Or.inr (Or.inr ⟨endpoint, name, rid, a, p, t₁, t₂, t₃, at_, requestId, hphase, rfl⟩)
  | createEnrollmentGrant ttlMs requestId => exact h.elim
  | revokeEnrollmentGrant key requestId => exact h.elim
  | authenticateNode token => exact h.elim
  | revokeCredential key requestId => exact h.elim

/-- Before and between the exchanges there is nothing to ask for. -/
theorem not_current {phase : GatewayResidentPhase} {c : Call} (h : Current digest phase c) :
    phase ≠ .idle ∧ ∀ endpoint name a t₁ t₂, phase ≠ .active endpoint name a t₁ t₂ := by
  rcases current_cases h with ⟨_, _, _, _, _, _, rfl, _⟩ | ⟨_, _, _, _, _, _, _, _, _, _, rfl, _⟩ |
    ⟨_, _, _, _, _, _, _, _, _, _, rfl, _⟩
  all_goals simp

theorem turn_enrolled (h : Inv digest y) {endpoint name grant rid : String} {p : Draw}
    {t at_ : ℤ} (hphase : y.row.phase = .enrolling endpoint name grant rid p t)
    (hhas : HasInstance y.db y.row.instanceId) :
    Inv digest { y with row := { y.row with phase := .active endpoint name p t at_, updatedAt := at_ } } := by
  have hagree := h.agree
  rw [hphase] at hagree
  rcases hagree with ⟨hno, _⟩ | ⟨_, hlive, g, hg, row, hrow, hgid, k, hk, _⟩
  · exact absurd hhas hno
  refine h.setPhase _ _ ⟨hhas, hlive⟩ ?_ ?_ ?_
  · intro d hd
    refine h.heldDrawn d ?_
    rw [hphase]
    exact hd
  · intro c hc o ho hrotates hpending
    obtain ⟨_, _, _, _, _, _, _, _, _, hrotating, _⟩ := h.pending c hc o ho hrotates hpending
    rw [hphase] at hrotating
    cases hrotating
  · -- the grant is consumed
    intro c _ hcurrent
    rw [hphase] at hcurrent
    rcases current_cases hcurrent with ⟨_, _, _, _, _, input, heq, rfl⟩ |
      ⟨_, _, _, _, _, _, _, _, _, _, heq, _⟩ | ⟨_, _, _, _, _, _, _, _, _, _, heq, _⟩
    · cases heq
      exact Or.inr ⟨g, hg, row, hrow, hgid, by rw [hk]; exact Option.some_ne_none k⟩
    · cases heq
    · cases heq

variable {endpoint name rid : String}

theorem turn_proposed (h : Inv digest y) {a p : Draw} {t₁ t₂ t₃ at_ : ℤ}
    (hphase : y.row.phase = .rotating endpoint name rid a p t₁ t₂ t₃ none)
    (hknown : look y.db p.id ≠ none) :
    Inv digest { y with row := { y.row with
      phase := .rotating endpoint name rid a p t₁ t₂ t₃ (some at_), updatedAt := at_ } } := by
  have hagree := h.agree
  rw [hphase] at hagree
  obtain ⟨hhas, hne, hcases⟩ := hagree
  refine h.setPhase _ _ ⟨hhas, hne, ?_⟩ ?_ ?_ ?_
  · rcases hcases with ⟨_, hnone, _⟩ | hpending | ⟨_, _, hproposed⟩
    · exact absurd hnone hknown
    · exact Or.inr (Or.inl hpending)
    · exact absurd rfl hproposed
  · intro d hd
    refine h.heldDrawn d ?_
    rw [hphase]
    exact hd
  · intro c hc o ho hrotates hpending
    obtain ⟨_, _, _, _, _, _, _, _, _, hrotating, hids⟩ := h.pending c hc o ho hrotates hpending
    rw [hphase] at hrotating
    cases hrotating
    exact ⟨endpoint, name, rid, a, p, t₁, t₂, t₃, some at_, rfl, hids⟩
  · intro c _ hcurrent
    rw [hphase] at hcurrent
    rcases current_cases hcurrent with ⟨_, _, _, _, _, _, heq, _⟩ |
      ⟨_, _, _, _, _, _, _, _, _, requestId, heq, rfl⟩ | ⟨_, _, _, _, _, _, _, _, _, _, heq, _⟩
    · cases heq
    · cases heq
      exact Or.inl ⟨endpoint, name, rid, a, p, t₁, t₂, t₃, some at_, rfl, rfl, rfl, rfl⟩
    · cases heq

theorem turn_activated (h : Inv digest y) {a p : Draw}
    {t₁ t₂ t₃ proposed at_ : ℤ}
    (hphase : y.row.phase = .rotating endpoint name rid a p t₁ t₂ t₃ (some proposed))
    (hsettled : ∃ k, look y.db p.id = some k ∧ k.state ≠ .pending) :
    Inv digest { y with row := { y.row with
      phase := .active endpoint name p t₁ at_, updatedAt := at_ } } := by
  have hagree := h.agree
  rw [hphase] at hagree
  obtain ⟨hhas, hne, hcases⟩ := hagree
  obtain ⟨k, hk, hsettled⟩ := hsettled
  rcases hcases with ⟨_, _, hnone⟩ | ⟨_, hpending⟩ | ⟨⟨rotates, ha⟩, ⟨replacedBy, hp⟩, _⟩
  · cases hnone
  · rw [hk] at hpending
    cases hpending
    exact absurd rfl hsettled
  refine h.setPhase _ _ ⟨hhas, some a.id, replacedBy, hp⟩ ?_ ?_ ?_
  · intro d hd
    refine h.heldDrawn d ?_
    rw [hphase]
    exact List.mem_cons_of_mem a hd
  · -- the rotation is made
    intro c hc o ho hrotates hpending
    obtain ⟨_, _, _, _, _, _, _, _, _, hrotating, _, hcid⟩ := h.pending c hc o ho hrotates hpending
    rw [hphase] at hrotating
    cases hrotating
    have hc' := look_mem hc
    rw [hcid, hp] at hc'
    have hstate := congrArg Core.state (Option.some.inj hc')
    rw [show (core c).state = .pending from hpending] at hstate
    cases hstate
  · intro c _ hcurrent
    rw [hphase] at hcurrent
    rcases current_cases hcurrent with ⟨_, _, _, _, _, _, heq, _⟩ |
      ⟨_, _, _, _, _, _, _, _, _, requestId, heq, rfl⟩ | ⟨_, _, _, _, _, _, _, _, _, requestId, heq, rfl⟩
    · cases heq
    · cases heq
      exact Or.inr ⟨_, parseNodeCredential_create a, _, ha, rfl⟩
    · cases heq
      exact Or.inr ⟨_, parseNodeCredential_create p, _, hp, by simp⟩

theorem inv_turn (h : Inv digest y) {reply : Call × Reply} (hreply : reply ∈ y.replies)
    {row' : ResidentRow} (hturn : Turn y.row reply row') : Inv digest { y with row := row' } := by
  have htold := h.replies reply hreply
  cases hturn with
  | unchanged reply => exact h
  | enrolled input receipt endpoint name grant rid p t at_ hphase hid =>
      exact turn_enrolled h hphase htold.1
  | proposed token new verifier requestId receipt endpoint name rid a p t₁ t₂ t₃ at_ hphase hid =>
      exact turn_proposed h hphase (hid ▸ htold.1)
  | activated token requestId receipt endpoint name rid a p t₁ t₂ t₃ proposed at_ hphase hid =>
      exact turn_activated h hphase (hid ▸ htold.1)

theorem inv_receive (h : Inv digest y) (reply : ℕ) (chance : Chance) :
    Inv digest (step digest validEndpoint y (.receive reply chance)) := by
  unfold step
  simp only
  cases hreply : y.replies[reply]? with
  | none => exact h
  | some reply => exact inv_turn h (List.mem_of_getElem? hreply) (handle_turn reply chance y.row)

/-! ## A controller starts -/

/-- What the enrollment controller has done when it comes to post. -/
inductive Prepared (digest : String → Bytes) (remote : Option Remote) (chance : Chance) (row : ResidentRow) :
    Option EnrollmentRequest → ResidentRow → Prop where
  | nothing : Prepared digest remote chance row none row
  | again (endpoint name grant rid : String) (p : Draw) (t : ℤ)
      (hphase : row.phase = .enrolling endpoint name grant rid p t) :
      Prepared digest remote chance row
        (some ⟨grant, row.instanceId, name, p.id, digest p.secret, some rid⟩) row
  | first (r : Remote) (token name rid : String) (p : Draw) (at_ : ℤ) (hremote : remote = some r)
      (htoken : r.enrollmentToken = some token) (hphase : row.phase = .idle)
      (hdraw : chance.draw = some p) :
      Prepared digest remote chance row
        (some ⟨token, row.instanceId, name, p.id, digest p.secret, some rid⟩)
        { row with phase := .enrolling r.url name token rid p at_, updatedAt := at_ }

theorem prepareEnrollment_wp (digest : String → Bytes) (validEndpoint : String → Bool)
    (remote : Option Remote) (displayName : String) (chance : Chance) (row : ResidentRow) :
    Tx.wp (prepareEnrollment digest validEndpoint remote displayName chance)
      (fun request row' => Prepared digest remote chance row request row') (fun _ row' => row' = row) row := by
  unfold prepareEnrollment
  simp only [Tx.wp_bind, Tx.wp_read, id_eq]
  split
  · rename_i r hphase
    split
    · exact Tx.wp_pure.mpr .nothing
    · rename_i token htoken
      simp only [beginEnrollment, enrollmentRequest, newRequestId, timestamp, commitRow, Tx.wp_bind,
        Tx.wp_ensure, Tx.wp_read, id_eq, hphase, Tx.wp_require, Tx.wp_pure, Tx.wp_write]
      refine ⟨fun _ => ⟨fun p hdraw => ⟨fun rid _ => ⟨fun _ => ⟨fun now _ => ⟨fun _ => ⟨fun _ => ?_,
        ?_⟩, ?_⟩, ?_⟩, ?_⟩, ?_⟩, ?_⟩, ?_⟩
      · exact .first r token displayName _ p _ rfl htoken hphase hdraw
      all_goals exact fun _ => trivial
  · rename_i endpoint name grant rid p t r hphase
    rw [Tx.wp_ite]
    refine ⟨fun _ => Tx.wp_pure.mpr .nothing, fun _ => ?_⟩
    simp only [beginEnrollment, enrollmentRequest, Tx.wp_bind, Tx.wp_ensure, Tx.wp_read, id_eq, hphase,
      Tx.wp_pure]
    refine ⟨fun _ => ⟨fun _ => ?_, ?_⟩, ?_⟩
    · exact .again endpoint name grant rid p t hphase
    all_goals exact fun _ => trivial
  · exact Tx.wp_pure.mpr .nothing

/-- What the rotation controller has done when it comes to post. -/
inductive Started (digest : String → Bytes) (chance : Chance) (row : ResidentRow) :
    Call → ResidentRow → Prop where
  | propose (endpoint name rid : String) (a p : Draw) (t₁ t₂ t₃ : ℤ)
      (hphase : row.phase = .rotating endpoint name rid a p t₁ t₂ t₃ none) :
      Started digest chance row (.proposeRotation (some (createNodeCredential digest a).token) p.id
        (digest p.secret) (some rid)) row
  | activate (endpoint name rid : String) (a p : Draw) (t₁ t₂ t₃ at_ : ℤ)
      (hphase : row.phase = .rotating endpoint name rid a p t₁ t₂ t₃ (some at_)) :
      Started digest chance row
        (.activateRotation (some (createNodeCredential digest p).token) (some rid)) row
  | first (endpoint name rid : String) (a p : Draw) (t₁ t₂ at_ : ℤ)
      (hphase : row.phase = .active endpoint name a t₁ t₂) (hne : a.id ≠ p.id)
      (hdraw : chance.draw = some p) :
      Started digest chance row (.proposeRotation (some (createNodeCredential digest a).token) p.id
        (digest p.secret) (some rid))
        { row with phase := .rotating endpoint name rid a p t₁ t₂ at_ none, updatedAt := at_ }

theorem startRotation_wp (digest : String → Bytes) (mode : GatewayRotationMode) (chance : Chance)
    (row : ResidentRow) :
    Tx.wp (startRotation digest mode chance) (fun call row' => Started digest chance row call row')
      (fun _ row' => row' = row) row := by
  unfold startRotation
  simp only [Tx.wp_bind, Tx.wp_read, id_eq]
  split
  · rename_i endpoint name a t₁ t₂ hphase
    simp only [beginRotation, prepareRotation, newRequestId, timestamp, commitRow, Tx.wp_bind, Tx.wp_ensure,
      Tx.wp_read, id_eq, hphase, Tx.wp_require, Tx.wp_pure, Tx.wp_write]
    refine ⟨fun p hdraw => ⟨fun rid _ => ⟨fun _ => ⟨fun now _ => ⟨fun _ => ⟨fun hne => ⟨fun _ => ?_,
      ?_⟩, ?_⟩, ?_⟩, ?_⟩, ?_⟩, ?_⟩, ?_⟩
    · exact .first endpoint name _ a p t₁ t₂ _ hphase hne hdraw
    all_goals exact fun _ => trivial
  · rename_i endpoint name rid a p t₁ t₂ t₃ proposedAt hphase
    simp only [prepareRotation, Tx.wp_bind, Tx.wp_read, id_eq, hphase]
    cases proposedAt with
    | none => exact Tx.wp_pure.mpr (.propose endpoint name rid a p t₁ t₂ t₃ hphase)
    | some at_ => exact Tx.wp_pure.mpr (.activate endpoint name rid a p t₁ t₂ t₃ at_ hphase)
  · exact Tx.wp_throw.mpr rfl

theorem mem_posted {α : Type} {posts : Bool} {call : α → Option Call} {a : α} {c : Call}
    (h : c ∈ posted posts call (.ok a)) : call a = some c := by
  unfold posted at h
  split at h
  · rename_i heq
    cases heq
    split at h
    · exact Option.mem_toList.mp h
    · cases h
  · cases h

theorem mem_ids {chance : Chance} {p : Draw} (h : chance.draw = some p) : p.id ∈ ids chance := by
  simp [ids, h]

theorem inv_startEnrollment (h : Inv digest y) {remote : Option Remote} {displayName : String}
    {chance : Chance} {posts : Bool}
    (hexpected : Expected digest y (.startEnrollment remote displayName chance posts)) :
    Inv digest (step digest validEndpoint y (.startEnrollment remote displayName chance posts)) := by
  obtain ⟨hnew, hgrant⟩ := hexpected
  have hdrawn := h.draw hnew
  have hwp := Tx.wp_iff.mp (prepareEnrollment_wp digest validEndpoint remote displayName chance y.row)
  unfold step
  simp only
  rcases hprepare : prepareEnrollment digest validEndpoint remote displayName chance y.row with
    ⟨e | request, row'⟩
  · rw [hwp.2 e row' hprepare]
    exact hdrawn.addSent (by simp [posted])
  · cases hwp.1 request row' hprepare with
    | nothing => exact hdrawn.addSent (by simp [posted])
    | again endpoint name grant rid p t hphase =>
        refine hdrawn.addSent ?_
        intro c hc
        cases mem_posted hc
        refine ⟨⟨rfl, List.mem_append_left _ (h.heldDrawn p ?_)⟩, ?_⟩
        · rw [hphase]
          exact List.mem_singleton_self p
        · exact ⟨endpoint, name, grant, rid, p, t, hphase, rfl, rfl, rfl⟩
    | first r token name rid p at_ hremote htoken hphase hdraw =>
        have hagree := h.agree
        rw [hphase] at hagree
        have hin : p.id ∈ y.drawn ++ ids chance := List.mem_append_right _ (mem_ids hdraw)
        refine (hdrawn.setPhase (.enrolling r.url name token rid p at_) at_ ?_ ?_ ?_ ?_).addSent ?_
        · exact Or.inl ⟨hagree, hgrant hphase r hremote token htoken, look_eq_none.mpr (hnew p hdraw).2⟩
        · intro d hd
          obtain rfl := List.mem_singleton.mp hd
          exact hin
        · intro c hc o ho hrotates hpending
          obtain ⟨_, _, _, _, _, _, _, _, _, hrotating, _⟩ := hdrawn.pending c hc o ho hrotates hpending
          rw [show y.row.phase = _ from hphase] at hrotating
          cases hrotating
        · intro c _ hcurrent
          exact absurd hphase (not_current hcurrent).1
        · intro c hc
          cases mem_posted hc
          exact ⟨⟨rfl, hin⟩, r.url, name, token, rid, p, at_, rfl, rfl, rfl, rfl⟩

theorem inv_startRotation (h : Inv digest y) {mode : GatewayRotationMode} {chance : Chance} {posts : Bool}
    (hnew : New y chance) :
    Inv digest (step digest validEndpoint y (.startRotation mode chance posts)) := by
  have hdrawn := h.draw hnew
  have hwp := Tx.wp_iff.mp (startRotation_wp digest mode chance y.row)
  unfold step
  simp only
  rcases hstart : startRotation digest mode chance y.row with ⟨e | call, row'⟩
  · rw [hwp.2 e row' hstart]
    exact hdrawn.addSent (by simp [posted])
  · cases hwp.1 call row' hstart with
    | propose endpoint name rid a p t₁ t₂ t₃ hphase =>
        refine hdrawn.addSent ?_
        intro c hc
        cases mem_posted hc
        refine ⟨List.mem_append_left _ (h.heldDrawn p ?_), ?_⟩
        · rw [hphase]
          simp [held]
        · exact ⟨endpoint, name, rid, a, p, t₁, t₂, t₃, none, hphase, rfl, rfl, rfl⟩
    | activate endpoint name rid a p t₁ t₂ t₃ at_ hphase =>
        refine hdrawn.addSent ?_
        intro c hc
        cases mem_posted hc
        refine ⟨?_, ?_⟩
        · intro q hq
          rw [parseNodeCredential_create] at hq
          cases hq
          refine List.mem_append_left _ (h.heldDrawn p ?_)
          rw [hphase]
          simp [held]
        · exact ⟨endpoint, name, rid, a, p, t₁, t₂, t₃, at_, hphase, rfl⟩
    | first endpoint name rid a p t₁ t₂ at_ hphase hne hdraw =>
        have hagree := h.agree
        rw [hphase] at hagree
        have hin : p.id ∈ y.drawn ++ ids chance := List.mem_append_right _ (mem_ids hdraw)
        refine (hdrawn.setPhase (.rotating endpoint name rid a p t₁ t₂ at_ none) at_
          ?_ ?_ ?_ ?_).addSent ?_
        · exact ⟨hagree.1, hne, Or.inl ⟨hagree.2, look_eq_none.mpr (hnew p hdraw).2, rfl⟩⟩
        · intro d hd
          rcases List.mem_cons.mp hd with rfl | hd
          · refine List.mem_append_left _ (h.heldDrawn d ?_)
            rw [hphase]
            exact List.mem_singleton_self d
          · obtain rfl := List.mem_singleton.mp hd
            exact hin
        · intro c hc o ho hrotates hpending
          obtain ⟨_, _, _, _, _, _, _, _, _, hrotating, _⟩ := hdrawn.pending c hc o ho hrotates hpending
          rw [show y.row.phase = _ from hphase] at hrotating
          cases hrotating
        · intro c _ hcurrent
          exact absurd hphase ((not_current hcurrent).2 endpoint name a t₁ t₂)
        · intro c hc
          cases mem_posted hc
          exact ⟨hin, endpoint, name, rid, a, p, t₁, t₂, at_, none, rfl, rfl, rfl, rfl⟩

theorem inv_step (h : Inv digest y) {event : Event} (hexpected : Expected digest y event) :
    Inv digest (step digest validEndpoint y event) := by
  cases event with
  | startEnrollment remote displayName chance posts => exact inv_startEnrollment h hexpected
  | startRotation mode chance posts => exact inv_startRotation h hexpected
  | deliver request env => exact inv_deliver h request env
  | receive reply chance => exact inv_receive h reply chance
  | other env call => exact inv_other h hexpected

/-! ## No retry is in conflict -/

/-- The failure is no conflict. -/
def NoConflict (e : Failure) : Prop := ∀ message, e ≠ .credential .conflict message

/-- However the method ends, it is not in conflict. -/
def Consistent {α : Type} (m : Method α) (db : Database) : Prop :=
  Tx.wp m (fun _ _ => True) (fun e _ => NoConflict e) db

theorem noConflict_error (message : String) : NoConflict (.error message) := fun _ h => by cases h

namespace Consistent

variable {α β : Type} {db : Database} {env : Env}

theorem ensure {c : Prop} [Decidable c] {e : Failure} {f : Unit → Method α} (he : NoConflict e)
    (hf : c → Consistent (f ()) db) : Consistent (Tx.ensure c e >>= f) db := by
  unfold Consistent
  rw [Tx.wp_bind, Tx.wp_ensure]
  exact ⟨hf, fun _ => he⟩

theorem require {x : Option β} {e : Failure} {f : β → Method α} (he : NoConflict e)
    (hf : ∀ b, x = some b → Consistent (f b) db) : Consistent (Tx.require x e >>= f) db := by
  unfold Consistent
  rw [Tx.wp_bind, Tx.wp_require]
  exact ⟨hf, fun _ => he⟩

theorem read {g : Database → β} {f : β → Method α} (hf : Consistent (f (g db)) db) :
    Consistent (Tx.read g >>= f) db := by
  unfold Consistent
  rw [Tx.wp_bind, Tx.wp_read]
  exact hf

theorem check {m : Method β} {f : β → Method α} (hm : Tx.ReadOnly m) (hc : Consistent m db)
    (hf : ∀ b, Consistent (f b) db) : Consistent (m >>= f) db := by
  unfold Consistent at hc ⊢
  rw [Tx.wp_iff] at hc
  rw [Tx.wp_bind, Tx.wp_iff]
  refine ⟨fun b db' hb => ?_, hc.2⟩
  have hsame : db' = db := by rw [← hm db, hb]
  exact hsame ▸ hf b

theorem pure (a : α) : Consistent (pure a : Method α) db := Tx.wp_pure.mpr trivial

theorem map {m : Method β} (g : β → α) (h : Consistent m db) :
    Consistent (do let b ← m; Pure.pure (g b)) db := by
  unfold Consistent
  rw [Tx.wp_bind]
  exact Tx.wp_mono (fun _ _ _ => Tx.wp_pure.mpr trivial) (fun _ _ he => he) h

theorem transaction {operation : Method α} (h : Consistent operation db) :
    Consistent (do
      let result ← inTransaction env operation
      afterWrite env
      Pure.pure result) db := by
  unfold Consistent inTransaction afterWrite
  simp only [Tx.wp_bind, Tx.wp_ensure, Tx.wp_transaction, Tx.wp_pure]
  refine ⟨fun _ => Tx.wp_mono (fun a db' _ => ?_) (fun _ _ he => he) h, fun _ => noConflict_error _⟩
  exact ⟨fun _ => ⟨fun _ => trivial, fun _ _ hafter => by cases hafter⟩, fun _ => noConflict_error _⟩

end Consistent

section Retry

variable {db : Database} {env : Env} {at_ : ℤ}

theorem verifierMatches_self {v : Bytes} (h : v.length = 32) : verifierMatches v v = true := by
  simp [verifierMatches, h]

theorem enrollBody_consistent {g : ParsedGatewayCredential} {input : EnrollmentRequest} {displayName : String}
    (hconsumed : ∀ row ∈ db.grants, row.id = g.id → ∀ c, row.consumed = some c →
      c.instanceId = input.instanceId ∧ c.credentialId = input.credentialId ∧
        verifierMatches input.credentialVerifier c.credentialVerifier = true)
    (hopen : ∀ row ∈ db.grants, row.id = g.id → row.consumed = none →
      db.instances.get? input.instanceId = none ∧ db.credentials.get? input.credentialId = none) :
    Consistent (enrollBody env g input displayName at_) db := by
  unfold enrollBody
  refine Consistent.read ?_
  refine Consistent.ensure (fun _ he => by cases he) fun _ => ?_
  refine Consistent.require (fun _ he => by cases he) fun row hget => ?_
  obtain ⟨hrow, hid⟩ := Table.get?_eq_some.mp hget
  cases hc : row.consumed with
  | some c =>
      have hsame := hconsumed row hrow hid c hc
      simp only
      unfold Consistent
      rw [Tx.wp_bind, Tx.wp_ensure]
      exact ⟨fun _ => Consistent.pure _, fun hno => absurd hsame hno⟩
  | none =>
      obtain ⟨hinstance, hcredential⟩ := hopen row hrow hid hc
      simp only
      refine Consistent.ensure (fun _ he => by cases he) fun _ => ?_
      refine Consistent.ensure (fun _ he => by cases he) fun _ => ?_
      unfold Consistent
      simp only [credential, insertInstance, insertCredential, updateGrant, audit, Tx.wp_bind, Tx.wp_read,
        Tx.wp_ensure, Tx.wp_write, Tx.wp_pure, hinstance, hcredential]
      refine ⟨fun _ => ⟨fun _ => ⟨fun _ => ⟨fun _ => ⟨fun _ => trivial, ?_⟩, ?_⟩, ?_⟩, ?_⟩, ?_⟩
      · exact fun _ => noConflict_error _
      all_goals exact fun hno => absurd trivial hno

theorem proposeBody_consistent {old : ParsedGatewayCredential} {new : String} {verifier : Bytes}
    (hne : new ≠ old.id)
    (hexisting : ∀ oldRow ∈ db.credentials, oldRow.id = old.id → ∀ e ∈ db.credentials, e.id = new →
      e.state = .pending ∧ e.instanceId = oldRow.instanceId ∧ e.rotatesCredentialId = some oldRow.id ∧
        verifierMatches verifier e.verifier = true)
    (hfree : db.credentials.get? new = none → ∀ c ∈ db.credentials, c.rotatesCredentialId = some old.id →
      c.state ≠ .pending) :
    Consistent (proposeBody env old new verifier at_) db := by
  unfold proposeBody credential
  refine Consistent.read ?_
  refine Consistent.require (fun _ he => by cases he) fun oldRow hget => ?_
  obtain ⟨hold, hid⟩ := Table.get?_eq_some.mp hget
  refine Consistent.ensure (fun _ he => by cases he) fun _ => ?_
  refine Consistent.ensure (fun _ he => by cases he) fun _ => ?_
  unfold Consistent
  rw [Tx.wp_bind, Tx.wp_ensure]
  refine ⟨fun _ => ?_, fun hno => absurd (hid ▸ hne) hno⟩
  rw [Tx.wp_bind, Tx.wp_read]
  cases hnew : db.credentials.get? new with
  | some e =>
      obtain ⟨he, heid⟩ := Table.get?_eq_some.mp hnew
      have hsame := hexisting oldRow hold hid e he heid
      simp only
      rw [Tx.wp_bind, Tx.wp_ensure]
      exact ⟨fun _ => Consistent.pure _, fun hno => absurd hsame hno⟩
  | none =>
      have hnone : db.credentials.select (fun c =>
          decide (c.rotatesCredentialId = some oldRow.id) && decide (c.state = .pending)) = [] := by
        refine List.eq_nil_iff_forall_not_mem.mpr ?_
        intro c hc
        obtain ⟨hin, hp⟩ := Table.mem_select.mp hc
        simp only [Bool.and_eq_true, decide_eq_true_eq, hid] at hp
        exact hfree hnew c hin hp.1 hp.2
      simp only [insertCredential, audit, Tx.wp_bind, Tx.wp_read, Tx.wp_ensure, Tx.wp_write, Tx.wp_pure,
        hnone, hnew]
      refine ⟨fun _ => ⟨fun _ => ⟨fun _ => trivial, fun _ => noConflict_error _⟩, ?_⟩, ?_⟩
      all_goals exact fun hno => absurd trivial hno

theorem activateBody_consistent {parsed : ParsedGatewayCredential}
    (hrow : ∀ row ∈ db.credentials, row.id = parsed.id → ∃ old ∈ db.credentials,
      row.rotatesCredentialId = some old.id ∧
        (row.state = .active ∧ old.state = .revoked ∧ old.replacedByCredentialId = some row.id ∨
         old.state = .active ∧ old.instanceId = row.instanceId)) :
    Consistent (activateBody env parsed at_) db := by
  unfold activateBody credential
  refine Consistent.read ?_
  refine Consistent.require (fun _ he => by cases he) fun row hget => ?_
  obtain ⟨hin, hid⟩ := Table.get?_eq_some.mp hget
  obtain ⟨old, hold, hrotates, hcases⟩ := hrow row hin hid
  refine Consistent.ensure (fun _ he => by cases he) fun _ => ?_
  rw [hrotates]
  unfold Consistent
  simp only [Tx.wp_bind, Tx.wp_require, Option.some.injEq, Tx.wp_read]
  refine ⟨?_, fun hno => by cases hno⟩
  rintro oldId rfl
  rw [Table.get?_key hold, Tx.wp_ite]
  refine ⟨fun _ => Consistent.pure _, fun hno => ?_⟩
  refine Consistent.ensure (fun _ he => by cases he) fun _ => ?_
  rcases hcases with ⟨hactive, hrevoked, hreplaced⟩ | hactive
  · exact absurd ⟨hactive, old, rfl, hrevoked, hreplaced⟩ hno
  · unfold Consistent
    simp only [updateCredential, audit, Tx.wp_bind, Tx.wp_require, Tx.wp_ensure, Tx.wp_write, Tx.wp_pure,
      Option.some.injEq]
    refine ⟨?_, fun hnone => by cases hnone⟩
    rintro old' rfl
    exact ⟨fun _ => ⟨fun _ => trivial, fun _ => noConflict_error _⟩, fun hbad => absurd hactive hbad⟩

theorem enroll_consistent (hdigest : ∀ s, (digest s).length = 32) (h : Inv digest y)
    {endpoint name grant rid : String} {p : Draw} {t : ℤ}
    (hphase : y.row.phase = .enrolling endpoint name grant rid p t) :
    Consistent (enroll digest env ⟨grant, y.row.instanceId, name, p.id, digest p.secret, some rid⟩) y.db := by
  have hagree := h.agree
  rw [hphase] at hagree
  unfold enroll checkInstanceId checkCredentialId exactVerifier checkRequestId currentTime
  refine Consistent.require (fun _ he => by cases he) fun g hg => ?_
  refine Consistent.ensure (noConflict_error _) fun _ => ?_
  refine Consistent.check ?_ ?_ fun displayName => ?_
  · exact (Tx.readOnly_ensure _ _).bind fun _ => (Tx.readOnly_ensure _ _).bind fun _ => Tx.readOnly_pure _
  · refine Consistent.ensure (noConflict_error _) fun _ => ?_
    exact Consistent.ensure (noConflict_error _) fun _ => Consistent.pure _
  refine Consistent.ensure (noConflict_error _) fun _ => ?_
  refine Consistent.ensure (noConflict_error _) fun _ => ?_
  refine Consistent.ensure (noConflict_error _) fun _ => ?_
  refine Consistent.require (noConflict_error _) fun at_ _ => Consistent.transaction ?_
  refine enrollBody_consistent ?_ ?_
  · -- a grant that is consumed was consumed by this request
    intro row hrow hid c hc
    rcases hagree with ⟨_, hopen, _⟩ | ⟨_, _, g', hg', row', hrow', hid', k, hk, hown⟩
    · rw [hopen g hg row hrow hid] at hc
      cases hc
    · rw [hg] at hg'
      cases hg'
      obtain rfl := Table.eq_of_key hrow hrow' (hid.trans hid'.symm)
      rw [hk] at hc
      cases hc
      refine ⟨hown.1, hown.2.1, ?_⟩
      rw [hown.2.2]
      exact verifierMatches_self (hdigest p.secret)
  · intro row hrow hid hc
    rcases hagree with ⟨hno, _, hnone⟩ | ⟨_, _, g', hg', row', hrow', hid', k, hk, _⟩
    · refine ⟨Table.get?_eq_none.mpr ?_, look_eq_none.mp hnone⟩
      exact fun i hi heq => hno ⟨i, hi, heq⟩
    · rw [hg] at hg'
      cases hg'
      obtain rfl := Table.eq_of_key hrow hrow' (hid.trans hid'.symm)
      rw [hk] at hc
      cases hc

theorem propose_consistent (hdigest : ∀ s, (digest s).length = 32) (h : Inv digest y) {a p : Draw} {t₁ t₂ t₃ : ℤ}
    (hphase : y.row.phase = .rotating endpoint name rid a p t₁ t₂ t₃ none) :
    Consistent (proposeRotation digest env (some (createNodeCredential digest a).token) p.id
      (digest p.secret) (some rid)) y.db := by
  have hagree := h.agree
  rw [hphase] at hagree
  obtain ⟨_, hne, hcases⟩ := hagree
  unfold proposeRotation checkCredentialId exactVerifier checkRequestId currentTime
  refine Consistent.require (fun _ he => by cases he) fun old hold => ?_
  rw [parseNodeCredential_create] at hold
  cases hold
  refine Consistent.ensure (noConflict_error _) fun _ => ?_
  refine Consistent.ensure (noConflict_error _) fun _ => ?_
  refine Consistent.ensure (noConflict_error _) fun _ => ?_
  refine Consistent.require (noConflict_error _) fun at_ _ => Consistent.transaction ?_
  refine proposeBody_consistent hne.symm ?_ ?_
  · intro oldRow hrow hid e he heid
    have hp' := look_mem he
    have ha' := look_mem hrow
    rw [heid] at hp'
    rw [hid] at ha'
    rcases hcases with ⟨_, hnone, _⟩ | ⟨⟨rotates, replacedBy, hlive⟩, hp⟩ | ⟨_, _, hproposed⟩
    · rw [hnone] at hp'
      cases hp'
    · rw [hp'] at hp
      rw [ha'] at hlive
      have hcore := Core.mk.inj (Option.some.inj hp)
      have hcore' := Core.mk.inj (Option.some.inj hlive)
      refine ⟨hcore.2.2.1, hcore.1.trans hcore'.1.symm, hid.symm ▸ hcore.2.2.2.1, ?_⟩
      rw [hcore.2.1]
      exact verifierMatches_self (hdigest p.secret)
    · exact absurd rfl hproposed
  · -- another rotation of the credential would be the one of the row
    intro hnew c hc hrotates hpending
    have ha : a.id ∈ y.drawn := h.heldDrawn a (by rw [hphase]; simp [held])
    obtain ⟨_, _, _, _, _, _, _, _, _, hrotating, _, hcid⟩ := h.pending c hc a.id ha hrotates hpending
    rw [hphase] at hrotating
    cases hrotating
    exact Table.get?_eq_none.mp hnew c hc hcid

theorem activate_consistent (h : Inv digest y) {a p : Draw}
    {t₁ t₂ t₃ proposed : ℤ}
    (hphase : y.row.phase = .rotating endpoint name rid a p t₁ t₂ t₃ (some proposed)) :
    Consistent (Gateway.activateRotation digest env (some (createNodeCredential digest p).token) (some rid))
      y.db := by
  have hagree := h.agree
  rw [hphase] at hagree
  obtain ⟨_, hne, hcases⟩ := hagree
  unfold Gateway.activateRotation checkRequestId currentTime
  refine Consistent.require (fun _ he => by cases he) fun parsed hparsed => ?_
  rw [parseNodeCredential_create] at hparsed
  cases hparsed
  refine Consistent.ensure (noConflict_error _) fun _ => ?_
  refine Consistent.require (noConflict_error _) fun at_ _ => Consistent.transaction ?_
  refine activateBody_consistent ?_
  intro row hrow hid
  have hp' := look_mem hrow
  rw [hid] at hp'
  rcases hcases with ⟨_, _, hnone⟩ | ⟨⟨rotates, replacedBy, hlive⟩, hp⟩ | ⟨⟨rotates, ha⟩, ⟨replacedBy, hp⟩, _⟩
  · cases hnone
  · obtain ⟨old, hold, holdid, hcore'⟩ := look_eq_some hlive
    rw [hp'] at hp
    have hcore := Core.mk.inj (Option.some.inj hp)
    have hcore' := Core.mk.inj hcore'
    exact ⟨old, hold, holdid.symm ▸ hcore.2.2.2.1, Or.inr ⟨hcore'.2.2.1, hcore'.1.trans hcore.1.symm⟩⟩
  · obtain ⟨old, hold, holdid, hcore'⟩ := look_eq_some ha
    rw [hp'] at hp
    have hcore := Core.mk.inj (Option.some.inj hp)
    have hcore' := Core.mk.inj hcore'
    exact ⟨old, hold, holdid.symm ▸ hcore.2.2.2.1,
      Or.inl ⟨hcore.2.2.1, hcore'.2.2.1, hid.symm ▸ hcore'.2.2.2.2⟩⟩

/-- The request that the controllers make of the resident's row. -/
def Retry (digest : String → Bytes) (row : ResidentRow) (call : Call) : Prop :=
  (∃ input, enrollmentRequest digest row = (.ok input, row) ∧ call = .enroll input) ∨
    prepareRotation digest row = (.ok call, row)

theorem retry_consistent (hdigest : ∀ s, (digest s).length = 32) (h : Inv digest y) {call : Call}
    (hretry : Retry digest y.row call) (env : Env) : Consistent (answer digest env call) y.db := by
  rcases hretry with ⟨input, hinput, rfl⟩ | hcall
  · refine Consistent.map _ ?_
    simp only [enrollmentRequest, Tx.bind_ok, Tx.read_ok] at hinput
    obtain ⟨row, _, ⟨rfl, rfl⟩, hinput⟩ := hinput
    cases hphase : y.row.phase with
    | enrolling endpoint name grant rid p t =>
        simp only [id_eq, hphase, Tx.pure_ok] at hinput
        cases hinput.1
        exact enroll_consistent hdigest h hphase
    | idle => simp [hphase] at hinput
    | active endpoint name a t₁ t₂ => simp [hphase] at hinput
    | rotating endpoint name rid a p t₁ t₂ t₃ proposedAt => simp [hphase] at hinput
  · simp only [prepareRotation, Tx.bind_ok, Tx.read_ok] at hcall
    obtain ⟨row, _, ⟨rfl, rfl⟩, hcall⟩ := hcall
    cases hphase : y.row.phase with
    | rotating endpoint name rid a p t₁ t₂ t₃ proposedAt =>
        cases proposedAt with
        | none =>
            simp only [id_eq, hphase, Tx.pure_ok] at hcall
            cases hcall.1
            exact Consistent.map _ (propose_consistent hdigest h hphase)
        | some at_ =>
            simp only [id_eq, hphase, Tx.pure_ok] at hcall
            cases hcall.1
            exact Consistent.map _ (activate_consistent h hphase)
    | idle => simp [hphase] at hcall
    | active endpoint name a t₁ t₂ => simp [hphase] at hcall
    | enrolling endpoint name grant rid p t => simp [hphase] at hcall

end Retry

/-! ## Runs -/

/-- A resident that was never enrolled meets a gateway. -/
structure Fresh (y : System) : Prop where
  sound : Sound y.db
  rotatesKnown : ∀ c ∈ y.db.credentials, ∀ o, c.rotatesCredentialId = some o → look y.db o ≠ none
  consumedKnown : ∀ g ∈ y.db.grants, ∀ k, g.consumed = some k → HasInstance y.db k.instanceId
  idle : y.row.phase = .idle
  unknown : ¬HasInstance y.db y.row.instanceId
  drawn : y.drawn = []
  sent : y.sent = []
  replies : y.replies = []

theorem Fresh.inv (h : Fresh y) : Inv digest y where
  sound := h.sound
  rotatesKnown := h.rotatesKnown
  consumedKnown := h.consumedKnown
  agree := by
    rw [h.idle]
    exact h.unknown
  heldDrawn d hd := by
    rw [h.idle] at hd
    cases hd
  pending c hc o ho := by
    rw [h.drawn] at ho
    cases ho
  sent c hc := by
    rw [h.sent] at hc
    cases hc
  replies reply hreply := by
    rw [h.replies] at hreply
    cases hreply

/-- The token is the one active credential of the instance. -/
def ActiveAt (digest : String → Bytes) (db : Database) (instanceId : String) (token : String) : Prop :=
  ∃ c ∈ db.credentials, parseNodeCredential digest (some token) = some ⟨c.id, c.verifier⟩ ∧
    c.instanceId = instanceId ∧ c.state = .active ∧
    ∀ c' ∈ db.credentials, c'.instanceId = instanceId → c'.state = .active → c' = c

/-- What the resident and the gateway agree on. -/
structure Agreement (digest : String → Bytes) (y : System) : Prop where
  holds : HasInstance y.db y.row.instanceId →
    ∃ d ∈ held y.row.phase, ActiveAt digest y.db y.row.instanceId (createNodeCredential digest d).token
  retries : ∀ call, Retry digest y.row call → ∀ env message,
    (answer digest env call y.db).1 ≠ .error (.credential .conflict message)
  active : ∀ endpoint name a t₁ t₂, y.row.phase = .active endpoint name a t₁ t₂ →
    ActiveAt digest y.db y.row.instanceId (createNodeCredential digest a).token

theorem activeAt_of_look (h : Sound y.db) {instanceId : String} {d : Draw} {k : Core}
    (hk : look y.db d.id = some k) (hinst : k.instanceId = instanceId) (hver : k.verifier = digest d.secret)
    (hstate : k.state = .active) :
    ActiveAt digest y.db instanceId (createNodeCredential digest d).token := by
  obtain ⟨c, hc, hid, rfl⟩ := look_eq_some hk
  refine ⟨c, hc, ?_, hinst, hstate, ?_⟩
  · rw [parseNodeCredential_create, hid]
    exact congrArg (fun v => some (⟨d.id, v⟩ : ParsedGatewayCredential)) hver.symm
  · intro c' hc' hinst' hstate'
    exact h.oneActive c' hc' c hc hstate' hstate (hinst'.trans hinst.symm)

theorem Inv.agreement (hdigest : ∀ s, (digest s).length = 32) (h : Inv digest y) : Agreement digest y where
  holds hhas := by
    have hagree := h.agree
    cases hphase : y.row.phase with
    | idle =>
        rw [hphase] at hagree
        exact absurd hhas hagree
    | enrolling endpoint name grant rid p t =>
        rw [hphase] at hagree
        rcases hagree with ⟨hno, _⟩ | ⟨_, ⟨rotates, replacedBy, hlive⟩, _⟩
        · exact absurd hhas hno
        · exact ⟨p, List.mem_singleton_self p, activeAt_of_look h.sound hlive rfl rfl rfl⟩
    | active endpoint name a t₁ t₂ =>
        rw [hphase] at hagree
        obtain ⟨_, rotates, replacedBy, hlive⟩ := hagree
        exact ⟨a, List.mem_singleton_self a, activeAt_of_look h.sound hlive rfl rfl rfl⟩
    | rotating endpoint name rid a p t₁ t₂ t₃ proposedAt =>
        rw [hphase] at hagree
        rcases hagree.2.2 with ⟨⟨_, _, hlive⟩, _⟩ | ⟨⟨_, _, hlive⟩, _⟩ | ⟨_, ⟨_, hlive⟩, _⟩
        · exact ⟨a, List.mem_cons_self, activeAt_of_look h.sound hlive rfl rfl rfl⟩
        · exact ⟨a, List.mem_cons_self, activeAt_of_look h.sound hlive rfl rfl rfl⟩
        · exact ⟨p, List.mem_cons_of_mem a List.mem_cons_self, activeAt_of_look h.sound hlive rfl rfl rfl⟩
  retries call hretry env message hanswer := by
    have hwp := (Tx.wp_iff.mp (retry_consistent hdigest h hretry env)).2
    exact hwp _ _ (Prod.ext hanswer rfl) message rfl
  active endpoint name a t₁ t₂ hphase := by
    have hagree := h.agree
    rw [hphase] at hagree
    obtain ⟨_, rotates, replacedBy, hlive⟩ := hagree
    exact activeAt_of_look h.sound hlive rfl rfl rfl

/-- However requests and replies are lost, delayed and repeated, the gateway's active
credential is one that the resident holds, no retry is in conflict, and in the active phase
the two sides have the same credential. -/
theorem enrollment_and_rotation_agree (digest : String → Bytes) (hdigest : ∀ s, (digest s).length = 32)
    (validEndpoint : String → Bool) (y : System) (hfresh : Fresh y) (events : List Event)
    (hevents : EachStep (step digest validEndpoint) (Expected digest) y events) :
    Throughout (step digest validEndpoint) (Agreement digest) y events :=
  throughout_of_eachStep (fun _ h => Inv.agreement hdigest h) (fun _ _ h hok => inv_step h hok) events
    hfresh.inv hevents

/-! ## A run with lost replies -/

section Witness

/-- SHA-256 of the three secrets of the run. -/
def vectorDigest (s : String) : Bytes :=
  if s = "WlpaWlpaWlpaWlpaWlpaWlpaWlpaWlpaWlpaWlpaWlo" then
    [190, 192, 182, 214, 181, 3, 94, 153, 1, 99, 16, 81, 19, 208, 254, 243,
    6, 182, 114, 167, 226, 60, 183, 116, 176, 59, 208, 54, 83, 99, 181, 61]
  else if s = "paWlpaWlpaWlpaWlpaWlpaWlpaWlpaWlpaWlpaWlpaU" then
    [243, 41, 42, 247, 234, 99, 91, 1, 159, 141, 24, 39, 192, 128, 167, 12,
    196, 95, 166, 20, 130, 150, 167, 145, 90, 199, 82, 129, 22, 38, 143, 201]
  else
    [15, 0, 115, 133, 182, 249, 212, 183, 238, 178, 116, 134, 5, 175, 225, 169,
    132, 160, 163, 191, 163, 240, 20, 208, 158, 42, 120, 76, 233, 229, 205, 26]

def vectorDraw : Draw where
  id := "paWlpaWlpaWlpaWlpaWlpQ"
  secret := "paWlpaWlpaWlpaWlpaWlpaWlpaWlpaWlpaWlpaWlpaU"
  id_fits := by decide
  secret_fits := by decide

def vectorGrant : String := "ege1.WlpaWlpaWlpaWlpaWlpaWg.WlpaWlpaWlpaWlpaWlpaWlpaWlpaWlpaWlpaWlpaWlo"

def vectorSystem : System where
  row := ⟨"egi1.WlpaWlpaWlpaWlpaWlpaWg", .idle, 0, 0⟩
  db := { Database.empty with grants := Table.empty.put ⟨"WlpaWlpaWlpaWlpaWlpaWg",
    vectorDigest "WlpaWlpaWlpaWlpaWlpaWlpaWlpaWlpaWlpaWlpaWlo", 0, 1000, none, none⟩ }
  drawn := []
  sent := []
  replies := []

/-- The first reply to the enrollment is lost, and so is the one to the proposal. -/
def vectorEvents : List Event :=
  let env : Env := ⟨some 10, true, true, true, true, []⟩
  let chance (draw : Option Draw) : Chance := ⟨some 10, draw, some "paWlpaWlpaWlpaWlpaWlpQ", true⟩
  let remote (grant : Option String) : Option Remote := some ⟨"https://gateway.example", grant⟩
  [.startEnrollment (remote (some vectorGrant)) "Elpis" (chance (some vectorDraw)) true, .deliver 0 env,
    .startEnrollment (remote none) "Elpis" (chance none) true, .deliver 1 env, .receive 1 (chance none),
    .startRotation .trigger (chance (some zeroDraw)) true, .deliver 2 env,
    .startRotation .resume (chance none) true, .deliver 3 env, .receive 3 (chance none),
    .startRotation .resume (chance none) true, .deliver 4 env, .receive 4 (chance none)]

theorem vectorDigest_length (s : String) : (vectorDigest s).length = 32 := by
  unfold vectorDigest
  split
  · rfl
  · split
    · rfl
    · rfl

theorem vectorSystem_fresh : Fresh vectorSystem where
  sound := by
    refine Sound.putGrant Sound.empty ?_
    intro g hg
    exact absurd hg Table.not_mem_empty
  rotatesKnown _ hc := absurd hc Table.not_mem_empty
  consumedKnown g hg k hk := by
    rcases Table.mem_put.mp hg with rfl | ⟨hg, _⟩
    · cases hk
    · exact absurd hg Table.not_mem_empty
  idle := rfl
  unknown := by
    rintro ⟨i, hi, _⟩
    exact absurd hi Table.not_mem_empty
  drawn := rfl
  sent := rfl
  replies := rfl

theorem vectorEvents_expected :
    EachStep (step vectorDigest fun _ => true) (Expected vectorDigest) vectorSystem vectorEvents := by
  refine ⟨⟨?_, ?_⟩, trivial, ⟨?_, ?_⟩, trivial, trivial, ?_, trivial, ?_, trivial, trivial, ?_, trivial, trivial,
    trivial⟩
  · intro d hd
    cases hd
    decide
  · intro _ r hr token htoken g _ row hrow _
    rcases Table.mem_put.mp hrow with rfl | ⟨hrow, _⟩
    · rfl
    · exact absurd hrow Table.not_mem_empty
  · intro d hd
    cases hd
  · intro _ r hr token htoken
    cases hr
    cases htoken
  · intro d hd
    cases hd
    decide
  · intro d hd
    cases hd
  · intro d hd
    cases hd

/-- The resident has rotated, and its new credential is the gateway's active one. -/
theorem vector_run_agrees :
    Throughout (step vectorDigest fun _ => true) (Agreement vectorDigest) vectorSystem vectorEvents ∧
      (run (step vectorDigest fun _ => true) vectorSystem vectorEvents).db.credentials.rows.map
        (fun c => (c.id, c.state)) = [(vectorDraw.id, .revoked), (zeroDraw.id, .active)] :=
  ⟨enrollment_and_rotation_agree vectorDigest vectorDigest_length _ vectorSystem vectorSystem_fresh
    vectorEvents vectorEvents_expected, by decide +kernel⟩

end Witness

end Elpis.Gateway.Resident
