import Elpis.Gateway.ProviderCredentials
import Elpis.Lib.Run

/-!
# Refreshes of installed credentials

`packages/gateway/src/provider-store.ts`, `install`, with the checks and triggers of
`gateway_provider_credentials` in `migrations.ts`. The token endpoint has rotated the refresh
token by the time the store is asked to keep the new one. Here is exactly when the store
does, for the credentials that installs and refreshes lead to under any clock.
-/

namespace Elpis.Gateway.Provider

open Elpis.Js Elpis.Lib
open Elpis.Gateway.Protocol (maxSafeInteger startsWith)

/-! ## Installs -/

/-- The bounds of the blobs. -/
def isBlob (s : String) : Prop := 1 ≤ s.utf8ByteSize ∧ s.utf8ByteSize ≤ 131072

instance (s : String) : Decidable (isBlob s) := inferInstanceAs (Decidable (_ ∧ _))

/-- The check of the table about the kind of the secret. -/
def ProviderSecret.Fits (type : ProviderType) (revision : ℕ) : ProviderSecret → Prop
  | apiKey key => type = .openaiCompatible ∧ isBlob key ∧ revision = 0
  | oauth secret => type ≠ .openaiCompatible ∧ isBlob secret.access ∧ isBlob secret.refresh ∧
      secret.expires ≤ maxSafeInteger

instance (type : ProviderType) (revision : ℕ) (secret : ProviderSecret) :
    Decidable (secret.Fits type revision) := by
  cases secret with
  | apiKey key => exact inferInstanceAs (Decidable (_ ∧ _))
  | oauth secret => exact inferInstanceAs (Decidable (_ ∧ _))

/-- The checks of `gateway_provider_credentials`. -/
def ProviderCredential.Checked (row : ProviderCredential) : Prop :=
  (row.id.toList.length = 27 ∧ startsWith row.id "epc1." = true ∧
    (row.id.toList.drop 5).all base64urlClass = true) ∧
  (1 ≤ row.providerId.toList.length ∧ row.providerId.toList.length ≤ 128 ∧
    row.providerId.toList.all slugClass = true) ∧
  (1 ≤ row.accountRef.toList.length ∧ row.accountRef.toList.length ≤ 256) ∧
  (2 ≤ row.accountIdentityJson.toList.length ∧ row.accountIdentityJson.toList.length ≤ 16384) ∧
  row.secretRevision ≤ maxSafeInteger ∧ row.createdAt ≤ row.updatedAt ∧
  row.secret.Fits row.providerType row.secretRevision

instance (row : ProviderCredential) : Decidable row.Checked := by
  unfold ProviderCredential.Checked
  infer_instance

/-- `boundedPlainText` of an account reference. -/
def isAccountRef (s : String) : Bool :=
  decide (s ≠ "") && decide (s.utf8ByteSize ≤ 256) && !hasControlOrFormat s

/-- What a public method hands to `install`. -/
structure Installation where
  providerId : String
  providerType : ProviderType
  accountRef : String
  accountIdentityJson : String
  secret : ProviderSecret
deriving DecidableEq, Repr

/-- `install`, with the id that `newCredentialId` made; `none` where it throws. -/
def install (env : StoreEnv) (newId : Option String) (input : Installation) :
    Tx CredentialTable StoreError CredentialReceipt := do
  let id ← Tx.require newId (.invalid "provider credential random source returned invalid bytes")
  let at_ ← Tx.require env.now (.invalid "provider credential timestamp must be a nonnegative safe integer")
  Tx.ensure (env.begins = true) .failed
  Tx.transaction (do
    let credentials ← Tx.read (fun t => t)
    let row : ProviderCredential := ⟨id, input.providerId, input.providerType, input.accountRef,
      input.accountIdentityJson, input.secret, 0, at_, at_⟩
    Tx.ensure (credentials.get? id = none) .failed
    Tx.ensure (∀ r ∈ credentials.rows, r.providerId = input.providerId → r.providerType = input.providerType)
      (.invalid "gateway provider namespace type is immutable")
    Tx.ensure row.Checked .failed
    Tx.write (fun t => t.put row)
    let receipt ← receiptFromRow row
    finish env
    pure receipt)

structure InstallApiKeyInput where
  providerId : String
  accountRef : String
  apiKey : String
deriving DecidableEq, Repr

def installApiKeyCredential (env : StoreEnv) (newId : Option String) (input : InstallApiKeyInput) :
    Tx CredentialTable StoreError CredentialReceipt := do
  Tx.ensure (isProviderId input.providerId = true) (.invalid "provider id has invalid syntax")
  Tx.ensure (isAccountRef input.accountRef = true) (.invalid "provider account reference has invalid syntax")
  Tx.ensure (isSecret input.apiKey = true) (.invalid "provider API key has invalid syntax")
  install env newId ⟨input.providerId, .openaiCompatible, input.accountRef, "\x7b\x7d", .apiKey input.apiKey⟩

/-- The account identity is what `canonicalAccountIdentity` makes of it; `none` where it throws. -/
structure InstallOAuthInput where
  providerId : String
  providerType : ProviderType
  accountRef : String
  accountIdentity : Option String
  accessToken : String
  refreshToken : String
  expiresAt : ℕ
deriving DecidableEq, Repr

def installOAuthCredential (env : StoreEnv) (newId : Option String) (input : InstallOAuthInput) :
    Tx CredentialTable StoreError CredentialReceipt := do
  Tx.ensure (isProviderId input.providerId = true) (.invalid "provider id has invalid syntax")
  Tx.ensure (input.providerType ≠ .openaiCompatible) (.invalid "OAuth provider type is invalid")
  Tx.ensure (isAccountRef input.accountRef = true) (.invalid "provider account reference has invalid syntax")
  let identity ← Tx.require input.accountIdentity (.invalid "provider account identity has invalid fields")
  Tx.ensure (isSecret input.accessToken = true) (.invalid "provider OAuth access token has invalid syntax")
  Tx.ensure (isSecret input.refreshToken = true) (.invalid "provider OAuth refresh token has invalid syntax")
  Tx.ensure (input.expiresAt ≤ maxSafeInteger)
    (.invalid "provider OAuth expiry must be a nonnegative safe integer")
  install env newId ⟨input.providerId, input.providerType, input.accountRef, identity,
    .oauth ⟨input.accessToken, input.refreshToken, input.expiresAt⟩⟩

/-! ## Stored credentials -/

/-- The calls that write credentials, each with its own clock reading. -/
inductive StoreCall where
  | installApiKey (env : StoreEnv) (newId : Option String) (input : InstallApiKeyInput)
  | installOAuth (env : StoreEnv) (newId : Option String) (input : InstallOAuthInput)
  | refresh (env : StoreEnv) (input : RefreshInput)

/-- The table behind a call, whether or not it throws. -/
def stored (t : CredentialTable) : StoreCall → CredentialTable
  | .installApiKey env newId input => (installApiKeyCredential env newId input t).2
  | .installOAuth env newId input => (installOAuthCredential env newId input t).2
  | .refresh env input => (refreshOAuthCredential env input t).2

/-- What holds of every stored row: it passes the checks of the table, and a receipt can be
made of it. -/
structure ProviderCredential.Sound (row : ProviderCredential) : Prop where
  checked : row.Checked
  id : isCredentialId row.id = true
  providerId : isProviderId row.providerId = true

def Sound (t : CredentialTable) : Prop := ∀ row ∈ t, row.Sound

section Stored

variable {env : StoreEnv} {t t' : CredentialTable} {row : ProviderCredential} {receipt : CredentialReceipt}

theorem isSecret_blob {s : String} (h : isSecret s = true) : isBlob s := by
  simp only [isSecret, Bool.and_eq_true, decide_eq_true_eq] at h
  obtain ⟨⟨hne, hsize⟩, _⟩ := h
  refine ⟨?_, hsize⟩
  by_contra hzero
  exact hne (String.utf8ByteSize_eq_zero_iff.mp (by omega))

/-- The row behind a refresh passes the checks of the table, so the update needs no more than
the guard and a revision that is left. -/
theorem ProviderCredential.Sound.refreshed (h : row.Sound) (hoauth : row.secret.isOAuth = true)
    {secret : OAuthSecret} {at_ : ℕ} (haccess : isSecret secret.access = true)
    (hrefresh : isSecret secret.refresh = true) (hexpires : secret.expires ≤ maxSafeInteger)
    (hclock : row.updatedAt ≤ at_) (hrevision : row.secretRevision < maxSafeInteger) :
    (row.refreshed secret at_).Sound := by
  obtain ⟨⟨hid, hprovider, haccount, hidentity, _, hcreated, hfits⟩, hcredential, hproviderId⟩ := h
  refine ⟨⟨hid, hprovider, haccount, hidentity, hrevision, hcreated.trans hclock, ?_⟩, hcredential, hproviderId⟩
  cases hsecret : row.secret with
  | apiKey key => simp [hsecret, ProviderSecret.isOAuth] at hoauth
  | oauth old =>
      rw [hsecret] at hfits
      exact ⟨hfits.1, isSecret_blob haccess, isSecret_blob hrefresh, hexpires⟩

theorem Sound.put (h : Sound t) (hrow : row.Sound) : Sound (t.put row) := by
  intro r hr
  rcases Table.mem_put.mp hr with rfl | ⟨hr, _⟩
  · exact hrow
  · exact h r hr

theorem wp_install (newId : Option String) (input : Installation) (h : Sound t) :
    Tx.wp (install env newId input) (fun _ t' => Sound t') (fun _ t' => Sound t') t := by
  simp only [install, receiptFromRow, finish, Tx.wp_bind, Tx.wp_require, Tx.wp_ensure, Tx.wp_transaction,
    Tx.wp_read, Tx.wp_write, Tx.wp_pure]
  refine ⟨fun id _ => ⟨fun at_ _ => ⟨fun _ => ⟨fun _ => ⟨fun _ => ⟨fun hchecked => ⟨fun hlegible => ?_, ?_⟩, ?_⟩,
    ?_⟩, ?_⟩, ?_⟩, ?_⟩, ?_⟩
  · have hput := h.put ⟨hchecked, hlegible.1, hlegible.2⟩
    simp [h, hput]
  all_goals exact fun _ => h

theorem wp_installApiKey (newId : Option String) (input : InstallApiKeyInput) (h : Sound t) :
    Tx.wp (installApiKeyCredential env newId input) (fun _ t' => Sound t') (fun _ t' => Sound t') t := by
  simp only [installApiKeyCredential, Tx.wp_bind, Tx.wp_ensure]
  exact ⟨fun _ => ⟨fun _ => ⟨fun _ => wp_install newId _ h, fun _ => h⟩, fun _ => h⟩, fun _ => h⟩

theorem wp_installOAuth (newId : Option String) (input : InstallOAuthInput) (h : Sound t) :
    Tx.wp (installOAuthCredential env newId input) (fun _ t' => Sound t') (fun _ t' => Sound t') t := by
  simp only [installOAuthCredential, Tx.wp_bind, Tx.wp_ensure, Tx.wp_require]
  exact ⟨fun _ => ⟨fun _ => ⟨fun _ => ⟨fun identity _ => ⟨fun _ => ⟨fun _ => ⟨fun _ => wp_install newId _ h,
    fun _ => h⟩, fun _ => h⟩, fun _ => h⟩, fun _ => h⟩, fun _ => h⟩, fun _ => h⟩, fun _ => h⟩

/-- The revision selects one row at most. -/
theorem find_refreshable (hrow : row ∈ t) (hoauth : row.secret.isOAuth = true) :
    t.rows.find? (refreshable row.id row.secretRevision) = some row := by
  have hself : refreshable row.id row.secretRevision row = true := refreshable_iff.mpr ⟨rfl, hoauth, rfl⟩
  cases hfind : t.rows.find? (refreshable row.id row.secretRevision) with
  | none => exact absurd hself (List.find?_eq_none.mp hfind row hrow)
  | some found =>
      have hid := (refreshable_iff.mp (List.find?_some hfind)).1
      rw [Table.eq_of_key (List.mem_of_find?_eq_some hfind) hrow hid]

end Stored

/-! ## When a refresh is kept -/

/-- The surroundings of the transaction come through. -/
def StoreEnv.Through (env : StoreEnv) : Prop :=
  env.begins = true ∧ env.audits = true ∧ env.hardens = true ∧ env.commits = true

/-- The tokens and the expiry are ones the store takes. -/
def RefreshInput.Valid (input : RefreshInput) : Prop :=
  isSecret input.accessToken = true ∧ isSecret input.refreshToken = true ∧ input.expiresAt ≤ maxSafeInteger

/-- The call returned: the row has the new tokens and one revision more, and no other row
changed. -/
def Kept (t : CredentialTable) (row : ProviderCredential) (env : StoreEnv) (input : RefreshInput) : Prop :=
  ∃ at_, refreshOAuthCredential env input t =
    (.ok ⟨row.id, row.providerId, row.providerType, row.secretRevision + 1, row.createdAt, at_⟩,
      t.put (row.refreshed ⟨input.accessToken, input.refreshToken, input.expiresAt⟩ at_))

section Refresh

variable {env : StoreEnv} {t : CredentialTable} {row : ProviderCredential} {input : RefreshInput} {at_ : ℕ}

theorem refresh_kept (hsound : row.Sound) (hrow : row ∈ t) (hoauth : row.secret.isOAuth = true)
    (hid : input.credentialId = row.id) (hrevision : input.expectedSecretRevision = row.secretRevision)
    (hvalid : input.Valid) (hnow : env.now = some at_) (hclock : row.updatedAt ≤ at_)
    (hleft : row.secretRevision < maxSafeInteger) (hthrough : env.Through) : Kept t row env input := by
  have hcredential : isCredentialId input.credentialId = true := hid ▸ hsound.id
  have hfind : t.rows.find? (refreshable input.credentialId input.expectedSecretRevision) = some row := by
    rw [hid, hrevision]
    exact find_refreshable hrow hoauth
  refine ⟨at_, ?_⟩
  simp only [refreshOAuthCredential, Tx.bind_ok, Tx.ensure_ok, Tx.require_ok, Tx.transaction_ok, Tx.read_ok,
    Tx.write_ok, receiptFromRow, finish, Tx.pure_ok]
  exact ⟨(), t, ⟨hcredential, rfl⟩, (), t, ⟨hrevision ▸ hleft.le, rfl⟩, (), t, ⟨hvalid.1, rfl⟩, (), t,
    ⟨hvalid.2.1, rfl⟩, (), t, ⟨hvalid.2.2, rfl⟩, at_, t, ⟨hnow, rfl⟩, (), t, ⟨hthrough.1, rfl⟩, t, t, ⟨rfl, rfl⟩, row, t,
    ⟨hfind, rfl⟩, (), t, ⟨⟨hclock, hleft⟩, rfl⟩, (), _, rfl, _, _, ⟨(), _, ⟨⟨hsound.id, hsound.providerId⟩, rfl⟩, rfl, rfl⟩,
    (), _, ⟨(), _, ⟨hthrough.2.1, rfl⟩, (), _, ⟨hthrough.2.2.1, rfl⟩, hthrough.2.2.2, rfl⟩, rfl, rfl⟩

/-- A refresh that returned met every condition, and is kept. -/
theorem refresh_ok {receipt : CredentialReceipt} {t' : CredentialTable} (hrow : row ∈ t)
    (hid : input.credentialId = row.id) (h : refreshOAuthCredential env input t = (.ok receipt, t')) :
    (input.expectedSecretRevision = row.secretRevision ∧ (∃ at_, env.now = some at_ ∧ row.updatedAt ≤ at_) ∧
      row.secretRevision < maxSafeInteger ∧ env.Through) ∧ Kept t row env input := by
  have hrun := h
  simp only [refreshOAuthCredential, Tx.bind_ok, Tx.ensure_ok, Tx.require_ok, Tx.transaction_ok, Tx.read_ok,
    Tx.write_ok, receiptFromRow, finish, Tx.pure_ok] at h
  obtain ⟨_, _, ⟨_, rfl⟩, _, _, ⟨_, rfl⟩, _, _, ⟨_, rfl⟩, _, _, ⟨_, rfl⟩, _, _, ⟨_, rfl⟩, at', _, ⟨hnow, rfl⟩, _, _,
    ⟨hbegins, rfl⟩, _, _, ⟨rfl, rfl⟩, found, _, ⟨hfind, rfl⟩, _, _, ⟨⟨hclock, hleft⟩, rfl⟩, _, _, rfl, _, _,
    ⟨_, _, ⟨_, rfl⟩, rfl, rfl⟩, _, _, ⟨_, _, ⟨haudits, rfl⟩, _, _, ⟨hhardens, rfl⟩, hcommits, rfl⟩, rfl, rfl⟩ := h
  obtain ⟨hfound, _, hrevision⟩ := refreshable_iff.mp (List.find?_some hfind)
  obtain rfl := Table.eq_of_key (List.mem_of_find?_eq_some hfind) hrow (hfound.trans hid)
  exact ⟨⟨hrevision.symm, ⟨at', hnow, hclock⟩, hleft, hbegins, haudits, hhardens, hcommits⟩, at', hrun⟩

theorem wp_refresh (input : RefreshInput) (h : Sound t) :
    Tx.wp (refreshOAuthCredential env input) (fun _ t' => Sound t') (fun _ t' => Sound t') t := by
  have hrefused := Tx.wp_iff.mp (refreshOAuthCredential_refused env input t)
  refine Tx.wp_iff.mpr ⟨fun receipt t' hok => ?_, fun e t' herror => (hrefused.2 e t' herror) ▸ h⟩
  simp only [refreshOAuthCredential, Tx.bind_ok, Tx.ensure_ok, Tx.require_ok, Tx.transaction_ok, Tx.read_ok,
    Tx.write_ok, receiptFromRow, finish, Tx.pure_ok] at hok
  obtain ⟨_, _, ⟨_, rfl⟩, _, _, ⟨_, rfl⟩, _, _, ⟨haccess, rfl⟩, _, _, ⟨hrefresh, rfl⟩, _, _, ⟨hexpires, rfl⟩, at_, _,
    ⟨_, rfl⟩, _, _, ⟨_, rfl⟩, _, _, ⟨rfl, rfl⟩, row, _, ⟨hfind, rfl⟩, _, _, ⟨⟨hclock, hleft⟩, rfl⟩, _, _, rfl, _, _,
    ⟨_, _, ⟨_, rfl⟩, rfl, rfl⟩, _, _, ⟨_, _, ⟨_, rfl⟩, _, _, ⟨_, rfl⟩, _, rfl⟩, rfl, rfl⟩ := hok
  have hoauth := (refreshable_iff.mp (List.find?_some hfind)).2.1
  exact h.put ((h row (List.mem_of_find?_eq_some hfind)).refreshed hoauth haccess hrefresh hexpires hclock hleft)

end Refresh

theorem sound_stored {t : CredentialTable} (h : Sound t) (call : StoreCall) : Sound (stored t call) := by
  cases call with
  | installApiKey env newId input => exact Tx.wp_final (wp_installApiKey newId input h)
  | installOAuth env newId input => exact Tx.wp_final (wp_installOAuth newId input h)
  | refresh env input => exact Tx.wp_final (wp_refresh input h)

/-- For every OAuth credential that installs and refreshes lead to: a refresh with valid tokens
is kept exactly when it names the current revision, the clock reads no earlier than when the
row was last written, a revision is left, and the surroundings come through. Otherwise it
throws and changes nothing. -/
theorem refresh_kept_iff (calls : List StoreCall) {row : ProviderCredential}
    (hrow : row ∈ run stored Table.empty calls) (hoauth : row.secret.isOAuth = true) (env : StoreEnv)
    (input : RefreshInput) (hid : input.credentialId = row.id) (hvalid : input.Valid) :
    (Kept (run stored Table.empty calls) row env input ↔
      input.expectedSecretRevision = row.secretRevision ∧ (∃ at_, env.now = some at_ ∧ row.updatedAt ≤ at_) ∧
        row.secretRevision < maxSafeInteger ∧ env.Through) ∧
    (¬Kept (run stored Table.empty calls) row env input →
      ∃ e, refreshOAuthCredential env input (run stored Table.empty calls) =
        (.error e, run stored Table.empty calls)) := by
  have hempty : Sound Table.empty := fun _ hr => absurd hr Table.not_mem_empty
  have hsound : Sound (run stored Table.empty calls) :=
    run_inv (I := Sound) (fun _ call h => sound_stored h call) calls hempty
  constructor
  · constructor
    · rintro ⟨at_, hok⟩
      exact (refresh_ok hrow hid hok).1
    · rintro ⟨hrevision, ⟨at_, hnow, hclock⟩, hleft, hthrough⟩
      exact refresh_kept (hsound row hrow) hrow hoauth hid hrevision hvalid hnow hclock hleft hthrough
  · intro hnot
    rcases hrun : refreshOAuthCredential env input (run stored Table.empty calls) with ⟨e | receipt, t'⟩
    · exact ⟨e, by rw [(Tx.wp_iff.mp (refreshOAuthCredential_refused env input _)).2 e t' hrun]⟩
    · exact absurd (refresh_ok hrow hid hrun).2 hnot

section Witness

def zeroCredential : String := "epc1.AAAAAAAAAAAAAAAAAAAAAA"

/-- Surroundings that come through, at a time. -/
def envAt (now : ℕ) : StoreEnv := ⟨some now, true, true, true, true⟩

/-- A credential is installed at 2000. -/
def zeroInstall : List StoreCall :=
  [.installOAuth (envAt 2000) (some zeroCredential)
    ⟨"anthropic", .anthropicOauth, "main", some "\x7b\x7d", "access", "refresh", 5000⟩]

def zeroRow : ProviderCredential :=
  ⟨zeroCredential, "anthropic", .anthropicOauth, "main", "\x7b\x7d", .oauth ⟨"access", "refresh", 5000⟩, 0, 2000, 2000⟩

def zeroRefresh : RefreshInput := ⟨zeroCredential, 0, "access2", "refresh2", 9000⟩

theorem zeroRow_stored : zeroRow ∈ run stored Table.empty zeroInstall := by
  have hrows : (run stored Table.empty zeroInstall).rows = [zeroRow] := by decide
  show zeroRow ∈ (run stored Table.empty zeroInstall).rows
  rw [hrows]
  exact List.mem_singleton_self zeroRow

theorem zeroRefresh_valid : zeroRefresh.Valid := ⟨by decide, by decide, by decide⟩

theorem refresh_kept_zero : Kept (run stored Table.empty zeroInstall) zeroRow (envAt 3000) zeroRefresh :=
  (refresh_kept_iff zeroInstall zeroRow_stored rfl (envAt 3000) zeroRefresh rfl zeroRefresh_valid).1.mpr
    ⟨rfl, ⟨3000, rfl, by decide⟩, by decide, rfl, rfl, rfl, rfl⟩

/-- A clock that was set back between the install and the refresh loses the new tokens, though
the revision is the current one, and so does a commit that fails. -/
theorem refresh_lost : ∃ (calls : List StoreCall) (row : ProviderCredential) (input : RefreshInput),
    row ∈ run stored Table.empty calls ∧ row.secret.isOAuth = true ∧ input.credentialId = row.id ∧
      input.expectedSecretRevision = row.secretRevision ∧ input.Valid ∧
        ¬Kept (run stored Table.empty calls) row (envAt 1000) input ∧
        ¬Kept (run stored Table.empty calls) row { envAt 3000 with commits := false } input := by
  refine ⟨zeroInstall, zeroRow, zeroRefresh, zeroRow_stored, rfl, rfl, rfl, zeroRefresh_valid, ?_, ?_⟩
  · rintro ⟨_, hkept⟩
    obtain ⟨at_, hnow, hclock⟩ := (refresh_ok zeroRow_stored rfl hkept).1.2.1
    cases hnow
    exact absurd hclock (by decide)
  · rintro ⟨_, hkept⟩
    cases (refresh_ok zeroRow_stored rfl hkept).1.2.2.2.2.2.2

end Witness

end Elpis.Gateway.Provider
