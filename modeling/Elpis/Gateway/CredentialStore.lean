import Elpis.Js.Text
import Elpis.Lib.Table
import Elpis.Lib.Tx

/-!
# Grants, instances and credentials of the gateway

`packages/gateway/src/credential-store.ts`, over the tokens of
`packages/gateway-protocol/src/credentials.ts`. An operator creates an enrollment grant; a
resident consumes it and registers its first credential. To rotate, a node proposes a new
credential under its active one and then activates it with the new secret. Each method
reads and writes in one transaction. After the commit it tightens the modes of the database
files, and that may throw as well.

SHA-256 is a parameter. The clock, the random source, the audit writer and the database's
own answers to `BEGIN` and `COMMIT` come with the call.
-/

namespace Elpis.Gateway

open Elpis.Js Elpis.Lib

abbrev Bytes := List UInt8

/-! ## Tokens -/

/-- `PUBLIC_ID_PATTERN`. -/
def publicId : List (Char → Bool) := List.replicate 22 base64urlClass

/-- `SECRET_PATTERN`. -/
def secretText : List (Char → Bool) := List.replicate 43 base64urlClass

def isGatewayInstanceId (s : String) : Bool := fits (literal "egi1." ++ publicId) s

def isCredentialId (s : String) : Bool := fits publicId s

structure ParsedGatewayCredential where
  id : String
  verifier : Bytes
deriving DecidableEq, Repr

/-- What a random source gives for a credential: 16 and 32 bytes in base64url. -/
structure Draw where
  id : String
  secret : String
  id_fits : fits publicId id = true
  secret_fits : fits secretText secret = true

structure GatewayCredentialMaterial where
  id : String
  token : String
  verifier : Bytes
deriving DecidableEq, Repr

section Tokens

variable (digest : String → Bytes)

/-- `parse`. A token that is no string is `none`. -/
def parse (tag : String) (token : Option String) : Option ParsedGatewayCredential :=
  match token with
  | none => none
  | some token =>
      if fits (literal tag ++ literal "." ++ publicId ++ literal "." ++ secretText) token then
        let body := token.toList.drop (tag.toList.length + 1)
        some ⟨String.ofList (body.take 22), digest (String.ofList (body.drop 23))⟩
      else none

def parseEnrollmentCredential (token : Option String) : Option ParsedGatewayCredential :=
  parse digest "ege1" token

def parseNodeCredential (token : Option String) : Option ParsedGatewayCredential :=
  parse digest "egc1" token

def createMaterial (tag : String) (d : Draw) : GatewayCredentialMaterial :=
  ⟨d.id, tag ++ "." ++ d.id ++ "." ++ d.secret, digest d.secret⟩

def createEnrollmentCredential (d : Draw) : GatewayCredentialMaterial := createMaterial digest "ege1" d

def createNodeCredential (d : Draw) : GatewayCredentialMaterial := createMaterial digest "egc1" d

variable {digest}

/-- A token that was made is read back. -/
theorem parseNodeCredential_create (d : Draw) :
    parseNodeCredential digest (some (createNodeCredential digest d).token) =
      some ⟨d.id, digest d.secret⟩ := by
  have hfits : fits (literal "egc1" ++ literal "." ++ publicId ++ literal "." ++ secretText)
      ("egc1" ++ "." ++ d.id ++ "." ++ d.secret) = true :=
    fits_append (fits_append (fits_append (fits_append (fits_literal _) (fits_literal _)) d.id_fits)
      (fits_literal _)) d.secret_fits
  have hid : d.id.toList.length = 22 := fits_length d.id_fits
  have hbody : ("egc1" ++ "." ++ d.id ++ "." ++ d.secret).toList.drop 5 =
      d.id.toList ++ '.' :: d.secret.toList := by
    simp only [String.toList_append, List.append_assoc]
    rfl
  have htake : (d.id.toList ++ '.' :: d.secret.toList).take 22 = d.id.toList := by
    rw [← hid, List.take_left]
  have hdrop : (d.id.toList ++ '.' :: d.secret.toList).drop 23 = d.secret.toList := by
    rw [show 23 = d.id.toList.length + 1 by rw [hid], List.drop_length_add_append]
    rfl
  unfold parseNodeCredential parse createNodeCredential createMaterial
  simp only
  rw [if_pos hfits]
  show some (⟨String.ofList ((("egc1" ++ "." ++ d.id ++ "." ++ d.secret).toList.drop 5).take 22),
    digest (String.ofList ((("egc1" ++ "." ++ d.id ++ "." ++ d.secret).toList.drop 5).drop 23))⟩ :
      ParsedGatewayCredential) = _
  rw [hbody, htake, hdrop, String.ofList_toList, String.ofList_toList]

end Tokens

def verifierMatches (actual expected : Bytes) : Bool :=
  decide (expected.length = 32) && decide (actual.length = 32) && decide (actual = expected)

/-! ## Rows -/

inductive CredentialState where
  | pending | active | revoked
deriving DecidableEq, Repr

structure CredentialRow where
  id : String
  instanceId : String
  verifier : Bytes
  state : CredentialState
  rotatesCredentialId : Option String
  replacedByCredentialId : Option String
  createdAt : ℤ
  activatedAt : Option ℤ
  lastUsedAt : Option ℤ
  revokedAt : Option ℤ
deriving DecidableEq, Repr

/-- What a grant was consumed by. The four columns are set together. -/
structure Consumption where
  at_ : ℤ
  instanceId : String
  credentialId : String
  credentialVerifier : Bytes
deriving DecidableEq, Repr

structure GrantRow where
  id : String
  verifier : Bytes
  createdAt : ℤ
  expiresAt : ℤ
  revokedAt : Option ℤ
  consumed : Option Consumption
deriving DecidableEq, Repr

structure InstanceRow where
  id : String
  displayName : String
  createdAt : ℤ
  updatedAt : ℤ
  revokedAt : Option ℤ
deriving DecidableEq, Repr

structure Database where
  grants : Table GrantRow.id
  instances : Table InstanceRow.id
  credentials : Table CredentialRow.id
deriving DecidableEq

def Database.empty : Database := ⟨Table.empty, Table.empty, Table.empty⟩

/-! ## Errors -/

inductive GatewayCredentialErrorCode where
  | invalid | expired | revoked | conflict
deriving DecidableEq, Repr

/-- A `GatewayCredentialError`, a key that is taken, any other error, and an error of
`afterWrite`, which comes behind the commit. -/
inductive Failure where
  | credential (code : GatewayCredentialErrorCode) (message : String)
  | unique
  | error (message : String)
  | afterWrite
deriving DecidableEq, Repr

abbrev Method := Tx Database Failure

/-- The surroundings of a call. `now` is `none` for a clock that gives no safe integer, and
a draw is `none` for a random source that fails. -/
structure Env where
  now : Option ℤ
  begins : Bool
  audits : Bool
  commits : Bool
  hardens : Bool
  draws : List (Option Draw)

/-! ## Checks -/

/-- `requestId`. -/
def checkRequestId (requestId : Option String) : Method Unit :=
  Tx.ensure (∀ r ∈ requestId, 1 ≤ length r ∧ length r ≤ 128)
    (.error "requestId must contain 1 to 128 characters")

/-- `displayName`. -/
def checkDisplayName (value : String) : Method String := do
  let result := trim value
  Tx.ensure (1 ≤ length result ∧ length result ≤ 256)
    (.error "displayName must contain 1 to 256 characters")
  Tx.ensure (result.toList.any isControl = false)
    (.error "displayName must not contain control characters")
  pure result

/-- `credentialId`. -/
def checkCredentialId (value : String) : Method Unit :=
  Tx.ensure (isCredentialId value = true) (.error "credentialId has invalid syntax")

/-- `instanceId`. -/
def checkInstanceId (value : String) : Method Unit :=
  Tx.ensure (isGatewayInstanceId value = true) (.error "instanceId has invalid syntax")

def exactVerifier (value : Bytes) : Method Unit :=
  Tx.ensure (value.length = 32) (.error "credential verifier must contain exactly 32 bytes")

def currentTime (env : Env) : Method ℤ :=
  Tx.require env.now (.error "gateway clock is not a safe integer")

/-- `transaction`: an operation that throws, or whose commit fails, is rolled back. -/
def inTransaction {α : Type} (env : Env) (operation : Method α) : Method α := do
  Tx.ensure (env.begins = true) (.error "database is locked")
  Tx.transaction (do
    let result ← operation
    Tx.ensure (env.commits = true) (.error "database is locked")
    pure result)

def audit (env : Env) : Method Unit :=
  Tx.ensure (env.audits = true) (.error "audit failed")

def afterWrite (env : Env) : Method Unit := Tx.ensure (env.hardens = true) .afterWrite

def credential (id : String) : Method (Option CredentialRow) :=
  Tx.read (fun db => db.credentials.get? id)

/-! ## Statements -/

def insertGrant (row : GrantRow) : Method Unit := do
  let taken ← Tx.read (fun db => db.grants.get? row.id)
  Tx.ensure (taken = none) .unique
  Tx.write (fun db => { db with grants := db.grants.put row })

def updateGrant (row : GrantRow) : Method Unit :=
  Tx.write (fun db => { db with grants := db.grants.put row })

def insertInstance (row : InstanceRow) : Method Unit := do
  let taken ← Tx.read (fun db => db.instances.get? row.id)
  Tx.ensure (taken = none) .unique
  Tx.write (fun db => { db with instances := db.instances.put row })

def insertCredential (row : CredentialRow) : Method Unit := do
  let taken ← Tx.read (fun db => db.credentials.get? row.id)
  Tx.ensure (taken = none) .unique
  Tx.write (fun db => { db with credentials := db.credentials.put row })

def updateCredential (row : CredentialRow) : Method Unit :=
  Tx.write (fun db => { db with credentials := db.credentials.put row })

/-! ## Grants -/

structure EnrollmentGrantReceipt where
  id : String
  token : String
  expiresAt : ℤ
deriving DecidableEq, Repr

/-- The largest safe integer. -/
def MAX_SAFE_INTEGER : ℤ := 9007199254740991

section Store

variable (digest : String → Bytes)

/-- The loop of `createEnrollmentGrant`, with `left` attempts left: a grant id that is
taken is drawn again. -/
def allocateGrant (env : Env) (createdAt expiresAt : ℤ) : ℕ → Method EnrollmentGrantReceipt
  | 0 => Tx.throw (.error "could not allocate enrollment grant id")
  | left + 1 => do
      let draw ← Tx.require (env.draws.getD (2 - left) none)
        (.error "credential random source must return exactly 16 bytes")
      let material := createEnrollmentCredential digest draw
      let outcome ← Tx.attempt (do
        let receipt ← inTransaction env (do
          insertGrant ⟨material.id, material.verifier, createdAt, expiresAt, none, none⟩
          audit env
          pure ⟨material.id, material.token, expiresAt⟩)
        afterWrite env
        pure receipt)
      match outcome with
      | .ok receipt => pure receipt
      | .error .unique => if 0 < left then allocateGrant env createdAt expiresAt left else Tx.throw .unique
      | .error e => Tx.throw e

def createEnrollmentGrant (env : Env) (ttlMs : Js.Num) (grantRequestId : Option String) :
    Method EnrollmentGrantReceipt := do
  let ttlMs ← Tx.require ttlMs.toInt? (.error "enrollment grant TTL must be 1 second to 1 hour")
  Tx.ensure (1000 ≤ ttlMs ∧ ttlMs ≤ 60 * 60 * 1000)
    (.error "enrollment grant TTL must be 1 second to 1 hour")
  let createdAt ← currentTime env
  let expiresAt := createdAt + ttlMs
  Tx.ensure (expiresAt ≤ MAX_SAFE_INTEGER) (.error "enrollment expiry is invalid")
  checkRequestId grantRequestId
  allocateGrant digest env createdAt expiresAt 3

def revokeEnrollmentGrant (env : Env) (id : String) (grantRequestId : Option String) : Method Bool := do
  checkCredentialId id
  checkRequestId grantRequestId
  let at_ ← currentTime env
  let replayed ← inTransaction env (do
    let found ← Tx.read (fun db => db.grants.get? id)
    let row ← Tx.require found (.credential .invalid "enrollment grant is invalid")
    if row.revokedAt ≠ none then pure true
    else do
      updateGrant { row with revokedAt := some at_ }
      audit env
      pure false)
  afterWrite env
  pure replayed

/-! ## Enrollment -/

structure EnrollmentRequest where
  grantToken : String
  instanceId : String
  displayName : String
  credentialId : String
  credentialVerifier : Bytes
  requestId : Option String
deriving DecidableEq, Repr

structure EnrollmentReceipt where
  instanceId : String
  credentialId : String
  replayed : Bool
deriving DecidableEq, Repr

/-- The body of the transaction of `enroll`. -/
def enrollBody (env : Env) (grant : ParsedGatewayCredential) (input : EnrollmentRequest)
    (displayName : String) (at_ : ℤ) : Method EnrollmentReceipt := do
  let found ← Tx.read (fun db => db.grants.get? grant.id)
  -- a grant that is not there is compared with 32 zero bytes
  let expected := (found.map GrantRow.verifier).getD (List.replicate 32 0)
  Tx.ensure (verifierMatches grant.verifier expected = true)
    (.credential .invalid "enrollment grant is invalid")
  let row ← Tx.require found (.credential .invalid "enrollment grant is invalid")
  match row.consumed with
  | some c => do
      Tx.ensure (c.instanceId = input.instanceId ∧ c.credentialId = input.credentialId ∧
          verifierMatches input.credentialVerifier c.credentialVerifier = true)
        (.credential .conflict "enrollment grant was already consumed")
      pure ⟨input.instanceId, input.credentialId, true⟩
  | none => do
      Tx.ensure (row.revokedAt = none) (.credential .revoked "enrollment grant is revoked")
      Tx.ensure (at_ < row.expiresAt) (.credential .expired "enrollment grant is expired")
      let known ← Tx.read (fun db => db.instances.get? input.instanceId)
      Tx.ensure (known = none) (.credential .conflict "instance is already enrolled")
      let used ← credential input.credentialId
      Tx.ensure (used = none) (.credential .conflict "credential id is already enrolled")
      insertInstance ⟨input.instanceId, displayName, at_, at_, none⟩
      insertCredential ⟨input.credentialId, input.instanceId, input.credentialVerifier, .active, none,
        none, at_, some at_, none, none⟩
      updateGrant { row with consumed := some ⟨at_, input.instanceId, input.credentialId,
        input.credentialVerifier⟩ }
      audit env
      pure ⟨input.instanceId, input.credentialId, false⟩

def enroll (env : Env) (input : EnrollmentRequest) : Method EnrollmentReceipt := do
  let grant ← Tx.require (parseEnrollmentCredential digest (some input.grantToken))
    (.credential .invalid "enrollment grant is invalid")
  checkInstanceId input.instanceId
  let displayName ← checkDisplayName input.displayName
  checkCredentialId input.credentialId
  exactVerifier input.credentialVerifier
  checkRequestId input.requestId
  let at_ ← currentTime env
  let result ← inTransaction env (enrollBody env grant input displayName at_)
  afterWrite env
  pure result

/-! ## Authentication -/

structure AuthenticatedNode where
  instanceId : String
  credentialId : String
deriving DecidableEq, Repr

/-- `authenticateNode`. A credential always has its instance, so the join finds it. -/
def authenticateNode (env : Env) (token : Option String) : Method (Option AuthenticatedNode) :=
  match parseNodeCredential digest token with
  | none => pure none
  | some parsed => do
      let row ← Tx.read (fun db => (db.credentials.get? parsed.id).bind (fun c =>
        (db.instances.get? c.instanceId).map (fun i => (c, i))))
      let expected := (row.map (fun (c, _) => c.verifier)).getD (List.replicate 32 0)
      if verifierMatches parsed.verifier expected = true then
        match row with
        | none => pure none
        | some (c, i) =>
            if c.state = .active ∧ i.revokedAt = none then do
              let at_ ← currentTime env
              updateCredential { c with lastUsedAt := some at_ }
              afterWrite env
              pure (some ⟨c.instanceId, c.id⟩)
            else pure none
      else pure none

/-! ## Rotation -/

structure RotationReceipt where
  instanceId : String
  credentialId : String
  previousCredentialId : String
  replayed : Bool
deriving DecidableEq, Repr

/-- The body of the transaction of `proposeRotation`. -/
def proposeBody (env : Env) (old : ParsedGatewayCredential) (newCredentialId : String)
    (newVerifier : Bytes) (at_ : ℤ) : Method RotationReceipt := do
  let found ← credential old.id
  let oldRow ← Tx.require found (.credential .invalid "node credential is invalid")
  Tx.ensure (verifierMatches old.verifier oldRow.verifier = true)
    (.credential .invalid "node credential is invalid")
  Tx.ensure (oldRow.state = .active) (.credential .revoked "node credential is not active")
  Tx.ensure (newCredentialId ≠ oldRow.id) (.credential .conflict "new credential id must differ")
  let existing ← credential newCredentialId
  match existing with
  | some e => do
      Tx.ensure (e.state = .pending ∧ e.instanceId = oldRow.instanceId ∧
          e.rotatesCredentialId = some oldRow.id ∧ verifierMatches newVerifier e.verifier = true)
        (.credential .conflict "new credential id is already used")
      pure ⟨oldRow.instanceId, newCredentialId, oldRow.id, true⟩
  | none => do
      let pending ← Tx.read (fun db => db.credentials.select (fun c =>
        decide (c.rotatesCredentialId = some oldRow.id) && decide (c.state = .pending)))
      Tx.ensure (pending = []) (.credential .conflict "node credential already has a pending rotation")
      insertCredential ⟨newCredentialId, oldRow.instanceId, newVerifier, .pending, some oldRow.id, none,
        at_, none, none, none⟩
      audit env
      pure ⟨oldRow.instanceId, newCredentialId, oldRow.id, false⟩

def proposeRotation (env : Env) (oldToken : Option String) (newCredentialId : String)
    (newVerifier : Bytes) (rotationRequestId : Option String) : Method RotationReceipt := do
  let old ← Tx.require (parseNodeCredential digest oldToken)
    (.credential .invalid "node credential is invalid")
  checkCredentialId newCredentialId
  exactVerifier newVerifier
  checkRequestId rotationRequestId
  let at_ ← currentTime env
  let result ← inTransaction env (proposeBody env old newCredentialId newVerifier at_)
  afterWrite env
  pure result

/-- The body of the transaction of `activateRotation`. -/
def activateBody (env : Env) (parsed : ParsedGatewayCredential) (at_ : ℤ) : Method RotationReceipt := do
  let found ← credential parsed.id
  let row ← Tx.require found (.credential .invalid "node credential is invalid")
  Tx.ensure (verifierMatches parsed.verifier row.verifier = true)
    (.credential .invalid "node credential is invalid")
  let oldId ← Tx.require row.rotatesCredentialId
    (.credential .conflict "node credential is not a rotation")
  let old ← credential oldId
  if row.state = .active ∧ ∃ o ∈ old, o.state = .revoked ∧ o.replacedByCredentialId = some row.id then
    pure ⟨row.instanceId, row.id, oldId, true⟩
  else do
    Tx.ensure (row.state = .pending) (.credential .revoked "node credential is not pending")
    let old ← Tx.require old (.credential .conflict "previous node credential is not active")
    Tx.ensure (old.state = .active ∧ old.instanceId = row.instanceId)
      (.credential .conflict "previous node credential is not active")
    updateCredential { old with state := .revoked, revokedAt := some at_,
                                replacedByCredentialId := some row.id }
    updateCredential { row with state := .active, activatedAt := some at_ }
    audit env
    pure ⟨row.instanceId, row.id, old.id, false⟩

def activateRotation (env : Env) (newToken : Option String) (rotationRequestId : Option String) :
    Method RotationReceipt := do
  let parsed ← Tx.require (parseNodeCredential digest newToken)
    (.credential .invalid "node credential is invalid")
  checkRequestId rotationRequestId
  let at_ ← currentTime env
  let result ← inTransaction env (activateBody env parsed at_)
  afterWrite env
  pure result

def revokeCredential (env : Env) (id : String) (revokeRequestId : Option String) : Method Bool := do
  checkCredentialId id
  checkRequestId revokeRequestId
  let at_ ← currentTime env
  let replayed ← inTransaction env (do
    let found ← credential id
    let row ← Tx.require found (.credential .invalid "node credential is invalid")
    if row.state = .revoked then pure true
    else do
      updateCredential { row with state := .revoked, revokedAt := some at_ }
      audit env
      pure false)
  afterWrite env
  pure replayed

end Store

end Elpis.Gateway
