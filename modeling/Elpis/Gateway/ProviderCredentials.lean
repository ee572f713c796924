import Elpis.Gateway.Protocol
import Elpis.Js.Pattern

/-!
# Provider credentials

The credentials of `packages/gateway/src/provider-store.ts`, with the checks and triggers of
their table. An OAuth credential counts its secrets: a refresh names the revision that it
replaces.
-/

namespace Elpis.Gateway.Provider

open Elpis.Js Elpis.Lib
open Elpis.Gateway.Protocol (maxSafeInteger startsWith)

/-- `LLM_PROXY_PROVIDER_TYPES`. -/
inductive ProviderType where
  | openaiCompatible | anthropicOauth | codexOauth
deriving DecidableEq, Repr

def ProviderType.name : ProviderType → String
  | openaiCompatible => "openai-compatible"
  | anthropicOauth => "anthropic-oauth"
  | codexOauth => "codex-oauth"

structure OAuthSecret where
  access : String
  refresh : String
  expires : ℕ
deriving DecidableEq, Repr

/-- What `auth_kind` says, with the columns that go with it. -/
inductive ProviderSecret where
  | apiKey (key : String)
  | oauth (secret : OAuthSecret)
deriving DecidableEq, Repr

def ProviderSecret.isOAuth : ProviderSecret → Bool
  | apiKey _ => false
  | oauth _ => true

structure ProviderCredential where
  id : String
  providerId : String
  providerType : ProviderType
  accountRef : String
  accountIdentityJson : String
  secret : ProviderSecret
  secretRevision : ℕ
  createdAt : ℕ
  updatedAt : ℕ
deriving DecidableEq, Repr

abbrev CredentialTable := Table ProviderCredential.id

/-- What the operations throw. -/
inductive StoreError where
  | invalid (message : String)
  | conflict
  | failed
deriving DecidableEq, Repr

/-- The surroundings of a call: the clock, and whether each step around the statements
comes through. -/
structure StoreEnv where
  now : Option ℕ
  begins : Bool
  audits : Bool
  hardens : Bool
  commits : Bool
deriving DecidableEq, Repr

/-! ## Checks -/

def isCredentialId (s : String) : Bool :=
  startsWith s "epc1." && isCanonical16 (String.ofList (s.toList.drop 5))

/-- `PROVIDER_ID_PATTERN`. -/
def isProviderId (s : String) : Bool :=
  startsAs lowerClass slugClass s.toList && decide (s.toList.length ≤ 128)

/-- `secretBytes`. -/
def isSecret (s : String) : Bool :=
  decide (s ≠ "") && decide (s.utf8ByteSize ≤ 131072) &&
    !s.toList.any (fun c => isSpace c || isControl c || isFormat c)

structure CredentialReceipt where
  credentialId : String
  providerId : String
  providerType : ProviderType
  secretRevision : ℕ
  createdAt : ℕ
  updatedAt : ℕ
deriving DecidableEq, Repr

def receiptFromRow (row : ProviderCredential) : Tx CredentialTable StoreError CredentialReceipt := do
  Tx.ensure (isCredentialId row.id = true ∧ isProviderId row.providerId = true) .failed
  pure ⟨row.id, row.providerId, row.providerType, row.secretRevision, row.createdAt, row.updatedAt⟩

/-- What follows the statements of an operation, up to the commit. -/
def finish (env : StoreEnv) : Tx CredentialTable StoreError Unit := do
  Tx.ensure (env.audits = true) .failed
  Tx.ensure (env.hardens = true) .failed
  Tx.ensure (env.commits = true) .failed

/-! ## Refresh -/

structure RefreshInput where
  credentialId : String
  expectedSecretRevision : ℕ
  accessToken : String
  refreshToken : String
  expiresAt : ℕ
deriving DecidableEq, Repr

/-- The row that the refresh selects: an OAuth credential at the revision. -/
def refreshable (id : String) (expected : ℕ) (row : ProviderCredential) : Bool :=
  decide (row.id = id) && row.secret.isOAuth && decide (row.secretRevision = expected)

/-- The row behind the update. -/
def ProviderCredential.refreshed (row : ProviderCredential) (secret : OAuthSecret) (at_ : ℕ) :
    ProviderCredential :=
  { row with secret := .oauth secret, secretRevision := row.secretRevision + 1, updatedAt := at_ }

/-- `refreshOAuthCredential`. The guard of the table refuses a clock that steps back, and its
check a revision that is no safe integer. -/
def refreshOAuthCredential (env : StoreEnv) (input : RefreshInput) :
    Tx CredentialTable StoreError CredentialReceipt := do
  Tx.ensure (isCredentialId input.credentialId = true)
    (.invalid "provider credential id has invalid syntax")
  Tx.ensure (input.expectedSecretRevision ≤ maxSafeInteger)
    (.invalid "expected OAuth secret revision must be a nonnegative safe integer")
  Tx.ensure (isSecret input.accessToken = true) (.invalid "provider OAuth access token has invalid syntax")
  Tx.ensure (isSecret input.refreshToken = true) (.invalid "provider OAuth refresh token has invalid syntax")
  Tx.ensure (input.expiresAt ≤ maxSafeInteger)
    (.invalid "provider OAuth expiry must be a nonnegative safe integer")
  let at_ ← Tx.require env.now (.invalid "provider credential timestamp must be a nonnegative safe integer")
  Tx.ensure (env.begins = true) .failed
  Tx.transaction (do
    let credentials ← Tx.read (fun t => t)
    let row ← Tx.require (credentials.rows.find? (refreshable input.credentialId input.expectedSecretRevision))
      .conflict
    Tx.ensure (row.updatedAt ≤ at_ ∧ row.secretRevision < maxSafeInteger) .failed
    let refreshed := row.refreshed ⟨input.accessToken, input.refreshToken, input.expiresAt⟩ at_
    Tx.write (fun t => t.put refreshed)
    let receipt ← receiptFromRow refreshed
    finish env
    pure receipt)

section Refresh

variable {env : StoreEnv} {input : RefreshInput} {t t' : CredentialTable}

theorem refreshable_iff {id : String} {expected : ℕ} {row : ProviderCredential} :
    refreshable id expected row = true ↔
      row.id = id ∧ row.secret.isOAuth = true ∧ row.secretRevision = expected := by
  simp [refreshable, and_assoc]

/-- A refresh that comes through replaced exactly the revision it names. -/
theorem refreshOAuthCredential_ok {receipt : CredentialReceipt}
    (h : refreshOAuthCredential env input t = (.ok receipt, t')) :
    ∃ row ∈ t, ∃ at_, refreshable input.credentialId input.expectedSecretRevision row = true ∧
      t' = t.put (row.refreshed ⟨input.accessToken, input.refreshToken, input.expiresAt⟩ at_) ∧
      receipt.credentialId = input.credentialId ∧
      receipt.secretRevision = input.expectedSecretRevision + 1 := by
  simp only [refreshOAuthCredential, Tx.bind_ok, Tx.ensure_ok, Tx.require_ok, Tx.transaction_ok, Tx.read_ok,
    Tx.write_ok, receiptFromRow, finish, Tx.pure_ok] at h
  obtain ⟨_, _, ⟨_, rfl⟩, _, _, ⟨_, rfl⟩, _, _, ⟨_, rfl⟩, _, _, ⟨_, rfl⟩, _, _, ⟨_, rfl⟩, at_, _, ⟨_, rfl⟩, _, _,
    ⟨_, rfl⟩, _, _, ⟨rfl, rfl⟩, row, _, ⟨hfind, rfl⟩, _, _, ⟨_, rfl⟩, _, _, rfl, _, _,
    ⟨_, _, ⟨_, rfl⟩, rfl, rfl⟩, _, _, ⟨_, _, ⟨_, rfl⟩, _, _, ⟨_, rfl⟩, _, rfl⟩, rfl, rfl⟩ := h
  have hrow := List.find?_some hfind
  obtain ⟨hid, _, hrevision⟩ := refreshable_iff.mp hrow
  refine ⟨row, List.mem_of_find?_eq_some hfind, at_, hrow, rfl, hid, ?_⟩
  rw [← hrevision]
  rfl

theorem refreshOAuthCredential_refused (env : StoreEnv) (input : RefreshInput) (t : CredentialTable) :
    Tx.wp (refreshOAuthCredential env input) (fun _ _ => True) (fun _ t' => t' = t) t := by
  simp [refreshOAuthCredential, receiptFromRow, finish]

end Refresh

end Elpis.Gateway.Provider
