import Elpis.Gateway.CredentialStore

/-!
# What a call of the credential store does

A method checks its arguments, runs one transaction and tightens the file modes. So it
either returns, and the database has changed in one of the ways of `Effect`; or it throws
and the database is as it was; or it throws from `afterWrite`, behind a commit.
-/

namespace Elpis.Gateway

open Elpis.Js Elpis.Lib

variable {digest : String → Bytes} {env : Env} {db db' : Database} {α β : Type}

/-! ## Calls -/

inductive Call where
  | createEnrollmentGrant (ttlMs : Js.Num) (requestId : Option String)
  | revokeEnrollmentGrant (id : String) (requestId : Option String)
  | enroll (input : EnrollmentRequest)
  | authenticateNode (token : Option String)
  | proposeRotation (oldToken : Option String) (newCredentialId : String) (newVerifier : Bytes)
      (requestId : Option String)
  | activateRotation (newToken : Option String) (requestId : Option String)
  | revokeCredential (id : String) (requestId : Option String)

inductive Reply where
  | grant (receipt : EnrollmentGrantReceipt)
  | enrolled (receipt : EnrollmentReceipt)
  | node (node : Option AuthenticatedNode)
  | rotation (receipt : RotationReceipt)
  | revoked (replayed : Bool)
deriving DecidableEq, Repr

def answer (digest : String → Bytes) (env : Env) : Call → Method Reply
  | .createEnrollmentGrant ttlMs requestId => do
      let receipt ← createEnrollmentGrant digest env ttlMs requestId
      pure (.grant receipt)
  | .revokeEnrollmentGrant id requestId => do
      let replayed ← revokeEnrollmentGrant env id requestId
      pure (.revoked replayed)
  | .enroll input => do
      let receipt ← enroll digest env input
      pure (.enrolled receipt)
  | .authenticateNode token => do
      let node ← authenticateNode digest env token
      pure (.node node)
  | .proposeRotation oldToken newCredentialId newVerifier requestId => do
      let receipt ← proposeRotation digest env oldToken newCredentialId newVerifier requestId
      pure (.rotation receipt)
  | .activateRotation newToken requestId => do
      let receipt ← activateRotation digest env newToken requestId
      pure (.rotation receipt)
  | .revokeCredential id requestId => do
      let replayed ← revokeCredential env id requestId
      pure (.revoked replayed)

/-! ## The frame of a method -/

/-- How a method fails: without a trace, or behind a commit that did what `D` says. -/
def Fails (D : α → Database → Prop) (db : Database) (e : Failure) (db' : Database) : Prop :=
  db' = db ∨ e = .afterWrite ∧ ∃ a, D a db'

/-- A method does what `D` says, or fails. -/
def Does (m : Method α) (D : α → Database → Prop) (db : Database) : Prop :=
  Tx.wp m D (Fails D db) db

variable {D : α → Database → Prop}

theorem does_check {m : Method β} {f : β → Method α}
    (hm : Tx.ReadOnly m) (hf : ∀ b, (m db).1 = .ok b → Does (f b) D db) : Does (m >>= f) D db := by
  unfold Does
  rw [Tx.wp_bind, Tx.wp_iff]
  refine ⟨fun b db' hb => ?_, fun e db' hb => ?_⟩
  · have hsame : db' = db := by
      rw [← hm db, hb]
    subst hsame
    exact hf b (by rw [hb])
  · refine Or.inl ?_
    rw [← hm db, hb]

theorem does_map {m : Method β} {g : β → α}
    (h : Does m (fun b db' => D (g b) db') db) : Does (do let b ← m; pure (g b)) D db := by
  unfold Does
  rw [Tx.wp_bind]
  refine Tx.wp_mono (fun b db' hb => Tx.wp_pure.mpr hb) ?_ h
  rintro e db' (hsame | ⟨he, b, hb⟩)
  · exact Or.inl hsame
  · exact Or.inr ⟨he, g b, hb⟩

theorem does_transaction {operation : Method α}
    (h : Tx.wp operation D (fun _ _ => True) db) :
    Does (do
      let result ← inTransaction env operation
      afterWrite env
      pure result) D db := by
  unfold Does inTransaction afterWrite
  simp only [Tx.wp_bind, Tx.wp_ensure, Tx.wp_transaction, Tx.wp_pure]
  refine ⟨fun _ => ?_, fun _ => Or.inl rfl⟩
  refine Tx.wp_mono (fun a db' ha => ?_) (fun _ _ _ => Or.inl rfl) h
  exact ⟨fun _ => ⟨fun _ => ha, fun _ => Or.inr ⟨rfl, a, ha⟩⟩, fun _ => Or.inl rfl⟩

/-! ## Effects -/

/-- Everything a call can do to the database, with the reply that goes with it. -/
inductive Effect (digest : String → Bytes) (db : Database) : Call → Reply → Database → Prop where
  | granted (ttlMs : Js.Num) (requestId : Option String) (row : GrantRow) (token : String)
      (hnew : db.grants.get? row.id = none) (hopen : row.consumed = none) :
      Effect digest db (.createEnrollmentGrant ttlMs requestId) (.grant ⟨row.id, token, row.expiresAt⟩)
        { db with grants := db.grants.put row }
  | grantRevoked (requestId : Option String) (row : GrantRow) (at_ : ℤ) (hrow : row ∈ db.grants) :
      Effect digest db (.revokeEnrollmentGrant row.id requestId) (.revoked false)
        { db with grants := db.grants.put { row with revokedAt := some at_ } }
  | grantRevokedBefore (id : String) (requestId : Option String) :
      Effect digest db (.revokeEnrollmentGrant id requestId) (.revoked true) db
  | enrolled (input : EnrollmentRequest) (row : GrantRow) (displayName : String) (at_ : ℤ)
      (hparsed : ∃ g, parseEnrollmentCredential digest (some input.grantToken) = some g ∧ g.id = row.id)
      (hrow : row ∈ db.grants) (hopen : row.consumed = none)
      (hinstance : db.instances.get? input.instanceId = none)
      (hcredential : db.credentials.get? input.credentialId = none) :
      Effect digest db (.enroll input) (.enrolled ⟨input.instanceId, input.credentialId, false⟩)
        { grants := db.grants.put { row with consumed := some ⟨at_, input.instanceId,
            input.credentialId, input.credentialVerifier⟩ }
          instances := db.instances.put ⟨input.instanceId, displayName, at_, at_, none⟩
          credentials := db.credentials.put ⟨input.credentialId, input.instanceId,
            input.credentialVerifier, .active, none, none, at_, some at_, none, none⟩ }
  | enrolledBefore (input : EnrollmentRequest) (row : GrantRow) (c : Consumption)
      (hparsed : ∃ g, parseEnrollmentCredential digest (some input.grantToken) = some g ∧ g.id = row.id)
      (hrow : row ∈ db.grants) (hconsumed : row.consumed = some c)
      (hinstance : c.instanceId = input.instanceId) :
      Effect digest db (.enroll input) (.enrolled ⟨input.instanceId, input.credentialId, true⟩) db
  | authenticated (token : Option String) (row : CredentialRow) (at_ : ℤ)
      (hparsed : ∃ p, parseNodeCredential digest token = some p ∧ p.id = row.id ∧
        p.verifier = row.verifier)
      (hrow : row ∈ db.credentials) (hactive : row.state = .active) :
      Effect digest db (.authenticateNode token) (.node (some ⟨row.instanceId, row.id⟩))
        { db with credentials := db.credentials.put { row with lastUsedAt := some at_ } }
  | refused (token : Option String) : Effect digest db (.authenticateNode token) (.node none) db
  | proposed (token : Option String) (new : String) (newVerifier : Bytes) (requestId : Option String)
      (old : CredentialRow) (at_ : ℤ)
      (hparsed : ∃ p, parseNodeCredential digest token = some p ∧ p.id = old.id)
      (hold : old ∈ db.credentials) (hactive : old.state = .active)
      (hnew : db.credentials.get? new = none)
      (hfree : ∀ c ∈ db.credentials, c.rotatesCredentialId = some old.id → c.state ≠ .pending) :
      Effect digest db (.proposeRotation token new newVerifier requestId)
        (.rotation ⟨old.instanceId, new, old.id, false⟩)
        { db with credentials := db.credentials.put ⟨new, old.instanceId, newVerifier, .pending,
            some old.id, none, at_, none, none, none⟩ }
  | proposedBefore (token : Option String) (newVerifier : Bytes) (requestId : Option String)
      (old row : CredentialRow)
      (hparsed : ∃ p, parseNodeCredential digest token = some p ∧ p.id = old.id)
      (hold : old ∈ db.credentials) (hactive : old.state = .active)
      (hrow : row ∈ db.credentials) (hpending : row.state = .pending)
      (hrotates : row.rotatesCredentialId = some old.id) :
      Effect digest db (.proposeRotation token row.id newVerifier requestId)
        (.rotation ⟨old.instanceId, row.id, old.id, true⟩) db
  | activated (token : Option String) (requestId : Option String) (row old : CredentialRow) (at_ : ℤ)
      (hparsed : ∃ p, parseNodeCredential digest token = some p ∧ p.id = row.id)
      (hrow : row ∈ db.credentials) (hpending : row.state = .pending)
      (hrotates : row.rotatesCredentialId = some old.id)
      (hold : old ∈ db.credentials) (hactive : old.state = .active)
      (hsame : old.instanceId = row.instanceId) :
      Effect digest db (.activateRotation token requestId)
        (.rotation ⟨row.instanceId, row.id, old.id, false⟩)
        { db with credentials := ((db.credentials.put { old with state := .revoked, revokedAt := some at_,
                                                                 replacedByCredentialId := some row.id }).put
                    { row with state := .active, activatedAt := some at_ }) }
  | activatedBefore (token : Option String) (requestId : Option String) (row : CredentialRow)
      (oldId : String)
      (hparsed : ∃ p, parseNodeCredential digest token = some p ∧ p.id = row.id)
      (hrow : row ∈ db.credentials) (hactive : row.state = .active)
      (hrotates : row.rotatesCredentialId = some oldId) :
      Effect digest db (.activateRotation token requestId)
        (.rotation ⟨row.instanceId, row.id, oldId, true⟩) db
  | credentialRevoked (requestId : Option String) (row : CredentialRow) (at_ : ℤ)
      (hrow : row ∈ db.credentials) :
      Effect digest db (.revokeCredential row.id requestId) (.revoked false)
        { db with credentials := db.credentials.put { row with state := .revoked, revokedAt := some at_ } }
  | credentialRevokedBefore (id : String) (requestId : Option String) :
      Effect digest db (.revokeCredential id requestId) (.revoked true) db

/-! ## Each method has its effect -/

theorem readOnly_checkRequestId (r : Option String) : Tx.ReadOnly (checkRequestId r) :=
  Tx.readOnly_ensure _ _

theorem readOnly_checkCredentialId (id : String) : Tx.ReadOnly (checkCredentialId id) :=
  Tx.readOnly_ensure _ _

theorem readOnly_currentTime : Tx.ReadOnly (currentTime env) := Tx.readOnly_require _ _

theorem require_eq {x : Option α} {e : Failure} {a : α} (h : ((Tx.require x e : Method α) db).1 = .ok a) :
    x = some a := by
  cases x with
  | none => cases h
  | some b => cases h; rfl

theorem verifierMatches_eq {a b : Bytes} (h : verifierMatches a b = true) : a = b := by
  simp only [verifierMatches, Bool.and_eq_true, decide_eq_true_eq] at h
  exact h.2

theorem allocateGrant_does (createdAt expiresAt : ℤ) (ttlMs : Js.Num) (requestId : Option String) :
    ∀ left, Does (allocateGrant digest env createdAt expiresAt left)
      (fun r db' => Effect digest db (.createEnrollmentGrant ttlMs requestId) (.grant r) db') db
  | 0 => Tx.wp_throw.mpr (Or.inl rfl)
  | left + 1 => by
      have ih := allocateGrant_does createdAt expiresAt ttlMs requestId left
      unfold allocateGrant
      refine does_check (Tx.readOnly_require _ _) fun draw _ => ?_
      have hbody : Does (do
          let receipt ← inTransaction env (do
            insertGrant ⟨(createEnrollmentCredential digest draw).id,
              (createEnrollmentCredential digest draw).verifier, createdAt, expiresAt, none, none⟩
            audit env
            pure (⟨(createEnrollmentCredential digest draw).id,
              (createEnrollmentCredential digest draw).token, expiresAt⟩ : EnrollmentGrantReceipt))
          afterWrite env
          pure receipt)
          (fun r db' => Effect digest db (.createEnrollmentGrant ttlMs requestId) (.grant r) db') db := by
        refine does_transaction ?_
        simp only [insertGrant, audit, Tx.wp_bind, Tx.wp_read, Tx.wp_ensure, Tx.wp_write, Tx.wp_pure]
        refine ⟨fun hfree => ⟨fun _ => ?_, fun _ => trivial⟩, fun _ => trivial⟩
        exact .granted ttlMs requestId ⟨_, _, createdAt, expiresAt, none, none⟩ _ hfree rfl
      unfold Does
      rw [Tx.wp_bind, Tx.wp_attempt]
      refine Tx.wp_mono (fun r db' hr => Tx.wp_pure.mpr hr) ?_ hbody
      -- the id was taken, or the attempt failed for good
      rintro e db' he
      cases e with
      | unique =>
          rcases he with rfl | ⟨he, _⟩
          · rw [Tx.wp_ite]
            exact ⟨fun _ => ih, fun _ => Tx.wp_throw.mpr (Or.inl rfl)⟩
          · cases he
      | credential code message => exact Tx.wp_throw.mpr he
      | error message => exact Tx.wp_throw.mpr he
      | afterWrite => exact Tx.wp_throw.mpr he

theorem enrollBody_wp {grant : ParsedGatewayCredential} {input : EnrollmentRequest}
    {displayName : String} {at_ : ℤ}
    (hgrant : parseEnrollmentCredential digest (some input.grantToken) = some grant) :
    Tx.wp (enrollBody env grant input displayName at_)
      (fun r db' => Effect digest db (.enroll input) (.enrolled r) db') (fun _ _ => True) db := by
  unfold enrollBody
  simp only [Tx.wp_bind, Tx.wp_read, Tx.wp_ensure, Tx.wp_require]
  refine ⟨fun _ => ⟨fun row hget => ?_, fun _ => trivial⟩, fun _ => trivial⟩
  obtain ⟨hrow, hid⟩ := Table.get?_eq_some.mp hget
  cases hconsumed : row.consumed with
  | some c =>
      simp only [Tx.wp_bind, Tx.wp_ensure, Tx.wp_pure]
      refine ⟨fun hsame => ?_, fun _ => trivial⟩
      exact .enrolledBefore input row c ⟨grant, hgrant, hid.symm⟩ hrow hconsumed hsame.1
  | none =>
      simp only [credential, insertInstance, insertCredential, updateGrant, audit, Tx.wp_bind, Tx.wp_read,
        Tx.wp_ensure, Tx.wp_write, Tx.wp_pure]
      refine ⟨fun _ => ⟨fun _ => ⟨fun hinstance => ⟨fun hcredential => ⟨fun _ => ⟨fun _ => ⟨fun _ => ?_,
        ?_⟩, ?_⟩, ?_⟩, ?_⟩, ?_⟩, ?_⟩, ?_⟩
      · exact .enrolled input row displayName at_ ⟨grant, hgrant, hid.symm⟩ hrow hconsumed hinstance
          hcredential
      all_goals exact fun _ => trivial

theorem proposeBody_wp {old : ParsedGatewayCredential} {token : Option String} {new : String}
    {newVerifier : Bytes} {requestId : Option String} {at_ : ℤ}
    (hold : parseNodeCredential digest token = some old) :
    Tx.wp (proposeBody env old new newVerifier at_)
      (fun r db' => Effect digest db (.proposeRotation token new newVerifier requestId) (.rotation r) db')
      (fun _ _ => True) db := by
  unfold proposeBody
  simp only [credential, Tx.wp_bind, Tx.wp_read, Tx.wp_ensure, Tx.wp_require]
  refine ⟨fun oldRow hget => ⟨fun _ => ⟨fun hactive => ⟨fun hne => ?_, fun _ => trivial⟩,
    fun _ => trivial⟩, fun _ => trivial⟩, fun _ => trivial⟩
  obtain ⟨hrow, hid⟩ := Table.get?_eq_some.mp hget
  cases hexisting : db.credentials.get? new with
  | some e =>
      simp only [Tx.wp_bind, Tx.wp_ensure, Tx.wp_pure]
      refine ⟨fun hreplay => ?_, fun _ => trivial⟩
      obtain ⟨he, rfl⟩ := Table.get?_eq_some.mp hexisting
      exact .proposedBefore token newVerifier requestId oldRow e ⟨old, hold, hid.symm⟩ hrow hactive he
        hreplay.1 hreplay.2.2.1
  | none =>
      simp only [insertCredential, audit, Tx.wp_bind, Tx.wp_read, Tx.wp_ensure, Tx.wp_write, Tx.wp_pure]
      refine ⟨fun hnone => ⟨fun _ => ⟨fun _ => ?_, fun _ => trivial⟩, fun _ => trivial⟩,
        fun _ => trivial⟩
      refine .proposed token new newVerifier requestId oldRow at_ ⟨old, hold, hid.symm⟩ hrow hactive
        hexisting ?_
      intro c hc hrotates hpending
      have hmem := Table.mem_select (t := db.credentials) (r := c)
        (p := fun c => decide (c.rotatesCredentialId = some oldRow.id) && decide (c.state = .pending))
      rw [hnone] at hmem
      exact absurd (hmem.mpr ⟨hc, by simp [hrotates, hpending]⟩) List.not_mem_nil

theorem activateBody_wp {parsed : ParsedGatewayCredential} {token requestId : Option String} {at_ : ℤ}
    (hparsed : parseNodeCredential digest token = some parsed) :
    Tx.wp (activateBody env parsed at_)
      (fun r db' => Effect digest db (.activateRotation token requestId) (.rotation r) db')
      (fun _ _ => True) db := by
  unfold activateBody
  simp only [credential, updateCredential, audit, Tx.wp_bind, Tx.wp_read, Tx.wp_ensure, Tx.wp_require,
    Tx.wp_ite, Tx.wp_write, Tx.wp_pure]
  refine ⟨fun row hget => ⟨fun _ => ⟨fun oldId hrotates => ⟨fun hbefore => ?_, fun _ => ⟨fun hpending =>
    ⟨fun old hold => ⟨fun hactive => ⟨fun _ => ?_, ?_⟩, ?_⟩, ?_⟩, ?_⟩⟩, ?_⟩, ?_⟩, ?_⟩
  · obtain ⟨hrow, hid⟩ := Table.get?_eq_some.mp hget
    exact .activatedBefore token requestId row oldId ⟨parsed, hparsed, hid.symm⟩ hrow hbefore.1 hrotates
  · obtain ⟨hrow, hid⟩ := Table.get?_eq_some.mp hget
    obtain ⟨hmem, rfl⟩ := Table.get?_eq_some.mp hold
    exact .activated token requestId row old at_ ⟨parsed, hparsed, hid.symm⟩ hrow hpending hrotates hmem
      hactive.1 hactive.2
  all_goals exact fun _ => trivial

theorem authenticateNode_does (token : Option String) :
    Does (authenticateNode digest env token)
      (fun r db' => Effect digest db (.authenticateNode token) (.node r) db') db := by
  have hrefused : Does (pure none : Method (Option AuthenticatedNode))
      (fun r db' => Effect digest db (.authenticateNode token) (.node r) db') db :=
    Tx.wp_pure.mpr (.refused token)
  unfold authenticateNode
  cases hparsed : parseNodeCredential digest token with
  | none => exact hrefused
  | some parsed =>
      refine does_check (Tx.readOnly_read _) fun row hrow => ?_
      cases row with
      | none =>
          simp only [ite_self]
          exact hrefused
      | some pair =>
          obtain ⟨c, i⟩ := pair
          have hget : db.credentials.get? parsed.id = some c := by
            have hbind := Except.ok.inj hrow
            rw [Option.bind_eq_some_iff] at hbind
            obtain ⟨c', hc', hi⟩ := hbind
            rw [Option.map_eq_some_iff] at hi
            obtain ⟨i', _, heq⟩ := hi
            rw [hc', (Prod.mk.inj heq).1]
          obtain ⟨hc, hid⟩ := Table.get?_eq_some.mp hget
          simp only [Option.map_some, Option.getD_some]
          by_cases hmatch : verifierMatches parsed.verifier c.verifier = true
          · rw [if_pos hmatch]
            by_cases hactive : c.state = .active ∧ i.revokedAt = none
            · rw [if_pos hactive]
              refine does_check readOnly_currentTime fun at_ _ => ?_
              have hdid : Effect digest db (.authenticateNode token) (.node (some ⟨c.instanceId, c.id⟩))
                  { db with credentials := db.credentials.put { c with lastUsedAt := some at_ } } :=
                .authenticated token c at_ ⟨parsed, hparsed, hid.symm, verifierMatches_eq hmatch⟩ hc
                  hactive.1
              unfold Does
              simp only [updateCredential, afterWrite, Tx.wp_bind, Tx.wp_write, Tx.wp_ensure, Tx.wp_pure]
              exact ⟨fun _ => hdid, fun _ => Or.inr ⟨rfl, _, hdid⟩⟩
            · rw [if_neg hactive]
              exact hrefused
          · rw [if_neg hmatch]
            exact hrefused

/-- A call has one of the effects, or it fails. -/
theorem answer_does (digest : String → Bytes) (env : Env) (db : Database) (c : Call) :
    Does (answer digest env c) (fun r db' => Effect digest db c r db') db := by
  cases c with
  | createEnrollmentGrant ttlMs requestId =>
      refine does_map ?_
      refine does_check (Tx.readOnly_require _ _) fun ttl _ => ?_
      refine does_check (Tx.readOnly_ensure _ _) fun _ _ => ?_
      refine does_check readOnly_currentTime fun createdAt _ => ?_
      refine does_check (Tx.readOnly_ensure _ _) fun _ _ => ?_
      refine does_check (readOnly_checkRequestId _) fun _ _ => ?_
      exact allocateGrant_does createdAt _ ttlMs requestId 3
  | revokeEnrollmentGrant id requestId =>
      refine does_map ?_
      refine does_check (readOnly_checkCredentialId _) fun _ _ => ?_
      refine does_check (readOnly_checkRequestId _) fun _ _ => ?_
      refine does_check readOnly_currentTime fun at_ _ => does_transaction ?_
      simp only [updateGrant, audit, Tx.wp_bind, Tx.wp_read, Tx.wp_require, Tx.wp_ite, Tx.wp_write,
        Tx.wp_ensure, Tx.wp_pure]
      refine ⟨fun row hget => ⟨fun _ => ?_, fun _ => ⟨fun _ => ?_, fun _ => trivial⟩⟩, fun _ => trivial⟩
      · exact .grantRevokedBefore id requestId
      · obtain ⟨hrow, rfl⟩ := Table.get?_eq_some.mp hget
        exact .grantRevoked requestId row at_ hrow
  | enroll input =>
      refine does_map ?_
      refine does_check (Tx.readOnly_require _ _) fun grant hgrant => ?_
      have hparsed : parseEnrollmentCredential digest (some input.grantToken) = some grant := require_eq hgrant
      refine does_check (Tx.readOnly_ensure _ _) fun _ _ => ?_
      refine does_check ?_ fun displayName _ => ?_
      · exact (Tx.readOnly_ensure _ _).bind fun _ => (Tx.readOnly_ensure _ _).bind fun _ =>
          Tx.readOnly_pure _
      refine does_check (readOnly_checkCredentialId _) fun _ _ => ?_
      refine does_check (Tx.readOnly_ensure _ _) fun _ _ => ?_
      refine does_check (readOnly_checkRequestId _) fun _ _ => ?_
      refine does_check readOnly_currentTime fun at_ _ => ?_
      exact does_transaction (enrollBody_wp hparsed)
  | authenticateNode token => exact does_map (authenticateNode_does token)
  | proposeRotation token new newVerifier requestId =>
      refine does_map ?_
      refine does_check (Tx.readOnly_require _ _) fun old hold => ?_
      have hparsed : parseNodeCredential digest token = some old := require_eq hold
      refine does_check (readOnly_checkCredentialId _) fun _ _ => ?_
      refine does_check (Tx.readOnly_ensure _ _) fun _ _ => ?_
      refine does_check (readOnly_checkRequestId _) fun _ _ => ?_
      refine does_check readOnly_currentTime fun at_ _ => ?_
      exact does_transaction (proposeBody_wp hparsed)
  | activateRotation token requestId =>
      refine does_map ?_
      refine does_check (Tx.readOnly_require _ _) fun parsed hrequire => ?_
      have hparsed : parseNodeCredential digest token = some parsed := require_eq hrequire
      refine does_check (readOnly_checkRequestId _) fun _ _ => ?_
      refine does_check readOnly_currentTime fun at_ _ => ?_
      exact does_transaction (activateBody_wp hparsed)
  | revokeCredential id requestId =>
      refine does_map ?_
      refine does_check (readOnly_checkCredentialId _) fun _ _ => ?_
      refine does_check (readOnly_checkRequestId _) fun _ _ => ?_
      refine does_check readOnly_currentTime fun at_ _ => does_transaction ?_
      simp only [credential, updateCredential, audit, Tx.wp_bind, Tx.wp_read, Tx.wp_require, Tx.wp_ite,
        Tx.wp_write, Tx.wp_ensure, Tx.wp_pure]
      refine ⟨fun row hget => ⟨fun _ => ?_, fun _ => ⟨fun _ => ?_, fun _ => trivial⟩⟩, fun _ => trivial⟩
      · exact .credentialRevokedBefore id requestId
      · obtain ⟨hrow, rfl⟩ := Table.get?_eq_some.mp hget
        exact .credentialRevoked requestId row at_ hrow

end Elpis.Gateway
